import ModCluster.AppEdits
import ModCluster.Watchdog

/-!
# The watchdogs as edits
-/

open CString Slotmem Slotmem.Table

namespace ModCluster

variable {strict : Prop} {ts ts' : Tables} {wait now : Int}

theorem locRemoveHostContext_nodes (id : Int) (ts : Tables) :
    (locRemoveHostContext id ts).nodes = ts.nodes := by
  unfold locRemoveHostContext
  split <;> rfl

theorem locRemoveHostContext_edits (id : Int) (hok : IdsOk ts) :
    Edits strict ts (locRemoveHostContext id ts) ∧
      (Linked ts → Unlinked (locRemoveHostContext id ts) id) := by
  unfold locRemoveHostContext
  split
  · -- Without host slots there is no host, and so no context.
    rename_i hsize
    refine ⟨Edits.refl, fun hlink => ⟨fun j h hh => ?_, fun j c hc => ?_⟩⟩
    · have := used_lt hh
      omega
    · obtain ⟨k, h, hh, -, -⟩ := hlink.contexts j c hc
      have := used_lt hh
      omega
  · have hh : ∀ j, (ts.hosts.sweep (·.id) (fun ou => ou.node == id) (getIdsUsedHost ts.hosts)).used j =
        (ts.hosts.used j).filter fun h => !(h.node == id) := by
      intro j
      rw [getIdsUsedHost_eq, sweep_used _ hok.hosts]
    have hc : ∀ j, (ts.contexts.sweep (·.id) (fun ou => ou.node == id)
        (getIdsUsedContext ts.contexts)).used j = (ts.contexts.used j).filter fun c => !(c.node == id) := by
      intro j
      rw [getIdsUsedContext_eq, sweep_used _ hok.contexts]
    exact ⟨(Edit.purge _ _ id hh hc).single, fun _ => unlinked_purge hh hc⟩

/-! ## mod_proxy_cluster -/

theorem removeRemovedStep_edits {httpd : Httpd} {i : Nat} {n : Nodeinfo} (hok : IdsOk ts)
    (hlink : strict → Linked ts) (hn : ts.nodes.used i = some n) :
    Edits strict ts (removeRemovedStep httpd wait now ts i).1 := by
  have hd : getNode ts.nodes (i : Int) = some i := dptr_ofNat (used_lt hn)
  have hid : n.mess.id = i := hok.nodes i n hn
  have hp := peek_of_used hn
  simp only [removeRemovedStep, hd, hp]
  split
  · rename_i hr
    split
    · refine (Edit.node i _ ?_ (fun _ => Or.inr ⟨n, hn⟩) (Or.inl ?_) ?_ fun _ _ => Or.inl ?_).single
      · rw [hp]
      · rw [hp]
      · rw [hp]
        exact id
      · rw [hp]
        exact hr.1
    · have he : Edit strict ts { ts with nodes := ts.nodes.poke i (bumpRemoveCheck n) } := by
        refine Edit.node i _ ?_ (fun _ => Or.inr ⟨n, hn⟩) (Or.inl ?_) ?_ fun _ _ => Or.inl ?_
        · rw [hp]
          rfl
        · rw [hp]
          rfl
        · rw [hp]
          exact id
        · rw [hp]
          exact hr.1
      split
      · simp only [removeNode, hid, release_ofNat]
        exact he.single.tail (Edit.nodeFree i
          fun hs => (hlink hs).removed i n hn hr.1)
      · exact he.single
  split
  · -- The node loses its hosts and contexts, and then its name.
    have hdom : Edit strict ts { ts with domains := storeDomain httpd now ts.domains n.mess } :=
      Edit.domains _
    obtain ⟨hp₂, hun⟩ := locRemoveHostContext_edits n.mess.id (hdom.idsOk hok)
    refine (hdom.single.trans hp₂).tail (Edit.node i _ ?_ ?_ (Or.inl ?_) ?_ fun hs _ => Or.inr ?_)
    · rw [locRemoveHostContext_nodes, hp]
      rfl
    · intro _
      rw [locRemoveHostContext_nodes]
      exact Or.inr ⟨n, hn⟩
    · rw [locRemoveHostContext_nodes, hp]
      rfl
    · intro hempty
      exact absurd (show REMOVED = [] from hempty) (by decide)
    · rw [← hid]
      exact hun (hdom.linked hs (hlink hs))
  · exact Edits.refl

theorem removeRemovedStep_idsUsed {httpd : Httpd} {i : Nat} {n : Nodeinfo} {ids : List Int}
    (hok : IdsOk ts) (hn : ts.nodes.used i = some n) (h : IdsUsed ts.nodes ((i : Int) :: ids)) :
    IdsUsed (removeRemovedStep httpd wait now ts i).1.nodes ids := by
  have hd : getNode ts.nodes (i : Int) = some i := dptr_ofNat (used_lt hn)
  have hid : n.mess.id = i := hok.nodes i n hn
  simp only [removeRemovedStep, hd, peek_of_used hn]
  split
  · split
    · exact h.tail.poke _ _
    · split
      · simp only [removeNode, hid, release_ofNat]
        exact (h.poke _ _).free
      · exact h.tail.poke _ _
  split
  · simp only [locRemoveHostContext_nodes]
    exact h.tail.poke _ _
  · exact h.tail

theorem removeRemovedLoop_edits {httpd : Httpd} (ids : List Int) (hok : IdsOk ts)
    (hlink : strict → Linked ts) (hids : IdsUsed ts.nodes ids) :
    Edits strict ts (removeRemovedLoop httpd wait now ids ts) := by
  induction ids generalizing ts with
  | nil => exact Edits.refl
  | cons id ids ih =>
    obtain ⟨i, n, hn, rfl⟩ := hids.used id (by simp)
    have he := @removeRemovedStep_edits _ _ wait now httpd _ _ hok hlink hn
    exact he.trans (ih (he.idsOk hok) (fun hs => he.linked hs (hlink hs))
      (removeRemovedStep_idsUsed hok hn hids))

theorem removeRemovedNode_edits (httpd : Httpd) (wait now : Int) (hok : IdsOk ts)
    (hlink : strict → Linked ts) : Edits strict ts (removeRemovedNode httpd wait now ts) := by
  unfold removeRemovedNode
  rw [getIdsUsedNode_eq]
  exact removeRemovedLoop_edits _ hok hlink (idsUsed_records hok.nodes)

/-! ## mod_lbmethod_cluster -/

theorem lbRemoveStep_edits (id : Int) (hok : IdsOk ts) (hlink : strict → Linked ts) :
    Edits strict ts (lbRemoveStep wait now ts id) := by
  unfold lbRemoveStep
  split
  · exact Edits.refl
  rename_i i hi
  obtain ⟨-, hlt⟩ := dptr_eq_some.mp hi
  simp only
  split
  · -- The slot may have been freed before, but its record still has its id.
    rename_i hr
    have hid := hok.stale i hlt hr.1
    obtain ⟨he, hun⟩ := locRemoveHostContext_edits (ts.nodes.peek i).mess.id hok
    simp only [removeNode, hid, release_ofNat] at he hun ⊢
    exact he.tail (Edit.nodeFree i fun hs => hun (hlink hs))
  · exact Edits.refl

theorem lbRemoveRemovedNode_edits (wait now : Int) (nodeTable : List Int) (hok : IdsOk ts)
    (hlink : strict → Linked ts) : Edits strict ts (lbRemoveRemovedNode wait now nodeTable ts) := by
  induction nodeTable generalizing ts with
  | nil => exact Edits.refl
  | cons id ids ih =>
    have he := @lbRemoveStep_edits _ _ wait now id hok hlink
    exact he.trans (ih (he.idsOk hok) fun hs => he.linked hs (hlink hs))

end ModCluster
