import ModCluster.App
import ModCluster.ConfigEdits

/-!
# Application commands as edits
-/

open CString Slotmem Slotmem.Table

namespace ModCluster

variable {strict : Prop} {ts ts' : Tables} {now : Int} {cmd : ContextStatus}

/-- The ids of a list name distinct slots in use. -/
structure IdsUsed {α : Type} (m : Table α) (ids : List Int) : Prop where
  nodup : ids.Nodup
  used : ∀ id ∈ ids, ∃ i a, m.used i = some a ∧ id = i

theorem idsUsed_records {α : Type} {idOf : α → Int} {m : Table α} (h : m.IdsMatch idOf) :
    IdsUsed m (m.records.map idOf) :=
  ⟨ids_nodup h, fun _ hid => (mem_ids h).mp hid⟩

theorem IdsUsed.tail {α : Type} {m : Table α} {id : Int} {ids : List Int} (h : IdsUsed m (id :: ids)) :
    IdsUsed m ids :=
  ⟨(List.nodup_cons.mp h.nodup).2, fun id' hid => h.used id' (List.mem_cons_of_mem _ hid)⟩

theorem IdsUsed.poke {α : Type} {m : Table α} {ids : List Int} (h : IdsUsed m ids) (i : Nat) (b : α) :
    IdsUsed (m.poke i b) ids := by
  refine ⟨h.nodup, fun id hid => ?_⟩
  obtain ⟨k, a, ha, rfl⟩ := h.used id hid
  exact ⟨k, _, used_poke_of b ha, rfl⟩

theorem IdsUsed.store {α : Type} {m : Table α} {ids : List Int} (h : IdsUsed m ids) (i : Nat) (b : α) :
    IdsUsed (m.store i b) ids := by
  refine ⟨h.nodup, fun id hid => ?_⟩
  obtain ⟨k, a, ha, rfl⟩ := h.used id hid
  exact ⟨k, _, used_store_of b ha, rfl⟩

theorem IdsUsed.free {α : Type} {m : Table α} {i : Nat} {ids : List Int}
    (h : IdsUsed m ((i : Int) :: ids)) : IdsUsed (m.setInuse i false) ids := by
  obtain ⟨hni, hnd⟩ := List.nodup_cons.mp h.nodup
  refine ⟨hnd, fun id hid => ?_⟩
  obtain ⟨k, a, ha, rfl⟩ := h.used id (List.mem_cons_of_mem _ hid)
  have hik : i ≠ k := by
    rintro rfl
    exact hni hid
  exact ⟨k, a, by rw [used_setInuse_ne false hik, ha], rfl⟩

theorem insertUpdateContext_idsUsed {m m' : Table Contextinfo} {c : Contextinfo} {ids : List Int}
    (h : insertUpdateContext now m c = some m') (hu : IdsUsed m ids) : IdsUsed m' ids := by
  rcases insertUpdateContext_cases h with ⟨i, a, -, -, rfl⟩ | ⟨i, -, -, -, rfl⟩
  · exact hu.poke _ _
  · exact hu.store _ _

/-! ## Wildcard commands -/

theorem nodeCmdContexts_edits {vhost node : Int} (hcmd : cmd ≠ .remove) (ids : List Int)
    (hids : IdsUsed ts.contexts ids) (hhost : HostUsed ts node vhost) :
    Edits strict ts { ts with contexts := nodeCmdContexts now cmd vhost node ts.contexts ids } := by
  induction ids generalizing ts with
  | nil => exact Edits.refl
  | cons id ids ih =>
    obtain ⟨i, c, hc, rfl⟩ := hids.used id (by simp)
    have hd : getContext ts.contexts (i : Int) = some i := dptr_ofNat (used_lt hc)
    simp only [nodeCmdContexts, hd, peek_of_used hc]
    split
    · rename_i hkey
      have he : Edit strict ts { ts with contexts := ts.contexts.poke i (setStatus c cmd) } :=
        Edit.context i c _ hc rfl (by simp [sameContext, setStatus])
      refine he.single.trans ?_
      cases hm : insertUpdateContext now (ts.contexts.poke i (setStatus c cmd))
          (setStatus c cmd) with
      | none =>
        exact ih
          (hids.tail.poke _ _) hhost
      | some m' =>
        have he' : Edit strict { ts with contexts := ts.contexts.poke i (setStatus c cmd) }
            { ts with contexts := m' } :=
          insertUpdateContext_edit
            (c := setStatus c cmd) (show HostUsed ts c.node c.vhost by rw [hkey.1, hkey.2]; exact hhost) hm
        exact he'.single.trans
          (ih (insertUpdateContext_idsUsed hm (hids.tail.poke _ _)) hhost)
    · exact ih hids.tail hhost

theorem nodeCmdContexts_remove (vhost node : Int) (m : Table Contextinfo) (ids : List Int) :
    nodeCmdContexts now .remove vhost node m ids =
      m.sweep (·.id) (fun c => c.vhost == vhost && c.node == node) ids := by
  induction ids generalizing m with
  | nil => rfl
  | cons id ids ih =>
    unfold nodeCmdContexts sweep getContext
    cases hi : m.dptr id with
    | some i =>
      simp only
      by_cases hkey : (m.peek i).vhost = vhost ∧ (m.peek i).node = node
      · rw [if_pos hkey, if_neg (by simp), ih]
        simp [hkey, removeContext]
      · rw [if_neg hkey, ih]
        have hp : ((m.peek i).vhost == vhost && (m.peek i).node == node) = false := by
          simpa using hkey
        simp [hp]
    | none => exact ih m

theorem nodeCmdHosts_edits {node : Int} (ids : List Int) (hok : IdsOk ts) (hids : IdsUsed ts.hosts ids) :
    Edits strict ts (nodeCmdHosts now cmd node ts ids) := by
  induction ids generalizing ts with
  | nil => exact Edits.refl
  | cons id ids ih =>
    obtain ⟨i, h, hh, rfl⟩ := hids.used id (by simp)
    have hd : getHost ts.hosts (i : Int) = some i := dptr_ofNat (used_lt hh)
    have hid : h.id = i := hok.hosts i h hh
    simp only [nodeCmdHosts, hd, peek_of_used hh, hid]
    split
    · exact ih hok hids.tail
    · by_cases hcmd : cmd = .remove
      · subst hcmd
        -- The contexts of the host go first, then the host.
        have hc : ∀ j, (nodeCmdContexts now .remove h.vhost h.node ts.contexts
            (getIdsUsedContext ts.contexts)).used j =
              (ts.contexts.used j).filter fun c => !(c.vhost == h.vhost && c.node == h.node) := by
          intro j
          rw [nodeCmdContexts_remove, getIdsUsedContext_eq, sweep_used _ hok.contexts]
        have he := @Edit.contextsFree strict ts _ _ hc
        have hf := @Edit.hostsFree strict ({ ts with
          contexts := nodeCmdContexts now .remove h.vhost h.node ts.contexts (getIdsUsedContext ts.contexts) }) _ _ (used_free_filter hok.hosts i) (by
            intro j x hx hp k c hk hkey
            have hji : (j : Int) = i := by
              rw [← hok.hosts j x hx]
              simpa using hp
            have hxh : x = h := by
              rw [show j = i by omega, hh, Option.some.injEq] at hx
              exact hx.symm
            subst hxh
            have := ((used_of_filter hc).mp hk).2
            simp [hkey.1, hkey.2] at this)
        simp only [if_true, removeHost, release_ofNat]
        refine (he.single.tail hf).trans (ih ?_ hids.free)
        exact hf.idsOk (he.idsOk hok)
      · simp only [if_neg hcmd]
        have hu : IdsUsed ts.contexts (getIdsUsedContext ts.contexts) := by
          rw [getIdsUsedContext_eq]
          exact idsUsed_records hok.contexts
        have he := @nodeCmdContexts_edits strict _ now _ _ _ hcmd _ hu
          (⟨i, h, hh, rfl, rfl⟩ : HostUsed ts h.node h.vhost)
        exact he.trans (ih (he.idsOk hok) hids.tail)

theorem removeMark_eq {m : Table Nodeinfo} {i : Nat} {a : Nodeinfo}
    (hf : m.first (hasRoute a.mess.jvmRoute) = some i) (ha : m.used i = some a) :
    removeMark now m i = m.poke i { markRemove a with updatetime := now } := by
  have hlt := used_lt ha
  have hu₁ := used_poke_self (markRemove a) ha
  have hf₁ : (m.poke i (markRemove a)).first (hasRoute (markRemove a).mess.jvmRoute) = some i := by
    rw [first_poke (b := markRemove a) ha rfl]
    exact hf
  have hlt₁ : i < (m.poke i (markRemove a)).size := used_lt hu₁
  unfold removeMark insertUpdateNode
  simp only [peek_of_used ha, peek_of_used hu₁]
  rw [doall_some (Node.update_eq now (markRemove a)) hf₁ hu₁]
  simp only [poke_poke, peek_poke_self _ hlt]
  rfl

theorem removeMark_edit {i : Nat} {a : Nodeinfo}
    (hf : ts.nodes.first (hasRoute a.mess.jvmRoute) = some i) (ha : ts.nodes.used i = some a) :
    Edit strict ts { ts with nodes := removeMark now ts.nodes i } := by
  rw [removeMark_eq hf ha]
  refine Edit.node i _ ?_ (fun _ => Or.inr ⟨a, ha⟩) (Or.inl ?_) ?_ fun _ hr => Or.inl ?_
  · rw [peek_of_used ha]
    rfl
  · rw [peek_of_used ha]
    rfl
  · rw [peek_of_used ha]
    exact id
  · rw [peek_of_used ha]
    exact hr

theorem nodeCmdHosts_nodes {node : Int} (ids : List Int) :
    (nodeCmdHosts now cmd node ts ids).nodes = ts.nodes := by
  induction ids generalizing ts with
  | nil => rfl
  | cons id ids ih =>
    unfold nodeCmdHosts
    split
    · simp only
      split
      · exact ih
      · exact ih
    · exact ih

theorem processNodeCmd_edits {i : Nat} {a : Nodeinfo} (hok : IdsOk ts)
    (hf : ts.nodes.first (hasRoute a.mess.jvmRoute) = some i) (ha : ts.nodes.used i = some a) :
    Edits strict ts (processNodeCmd now cmd ts i) := by
  unfold processNodeCmd
  split
  · exact Edits.refl
  have hu : IdsUsed ts.hosts (getIdsUsedHost ts.hosts) := by
    rw [getIdsUsedHost_eq]
    exact idsUsed_records hok.hosts
  have he := @nodeCmdHosts_edits strict _ now cmd ((ts.nodes.peek i).mess.id) _ hok hu
  simp only
  split
  · refine he.tail (removeMark_edit (a := a) ?_ ?_)
    · rw [nodeCmdHosts_nodes]
      exact hf
    · rw [nodeCmdHosts_nodes]
      exact ha
  · exact he

/-! ## Commands on aliases and contexts -/

theorem readRemoveContext_edit {c : Contextinfo} (hok : IdsOk ts) (hid : c.id = 0) :
    Edits strict ts { ts with contexts := readRemoveContext ts.contexts c } := by
  cases hf : ts.contexts.first (sameContext c) with
  | none =>
    have hr : readContext ts.contexts c = none := by
      unfold readContext
      rw [if_pos hid, readBy_none (Context.locReadContext_eq c) hf]
    simp only [readRemoveContext, hr]
    exact Edits.refl
  | some i =>
    obtain ⟨a, ha, -, -⟩ := first_eq_some hf
    simp only [readRemoveContext, readContext_some hok.contexts hid hf, peek_of_used ha,
      hok.contexts i a ha, removeContext, release_ofNat]
    exact (Edit.contextsFree _ _ (used_free_filter hok.contexts i)).single

theorem insertUpdateContextHelper_edits {c : Contextinfo} {context : Str} {m : Table Contextinfo}
    (hok : IdsOk ts) (hhost : HostUsed ts c.node c.vhost)
    (h : insertUpdateContextHelper now ts.contexts c context cmd = some m) :
    Edits strict ts { ts with contexts := m } := by
  unfold insertUpdateContextHelper at h
  simp only at h
  split at h
  · cases h
    exact readRemoveContext_edit hok rfl
  · exact (insertUpdateContext_edit (c := { c with id := 0, context := truncate CONTEXTSZ context })
      hhost h).single

theorem appContexts_edits {node vhost : Int} (contexts : List Str) (hok : IdsOk ts)
    (hhost : HostUsed ts node vhost) :
    Edits strict ts { ts with contexts := (appContexts now cmd node vhost contexts ts.contexts).1 } := by
  induction contexts generalizing ts with
  | nil => exact Edits.refl
  | cons context rest ih =>
    unfold appContexts
    split
    · rename_i m hm
      have he := @insertUpdateContextHelper_edits strict _ _ _ _ _ _ hok (show HostUsed ts
        (contextRecord node vhost cmd).node (contextRecord node vhost cmd).vhost from hhost) hm
      exact he.trans (ih (he.idsOk hok) hhost)
    · exact ih hok hhost

theorem hasContext_eq_false {m : Table Contextinfo} {node vhost : Int} (hids : m.IdsMatch (·.id))
    (h : hasContext m node vhost = false) (k : Nat) (c : Contextinfo) (hc : m.used k = some c) :
    ¬ (c.node = node ∧ c.vhost = vhost) := by
  rintro ⟨hn, hv⟩
  unfold hasContext at h
  rw [getIdsUsedContext_eq, List.any_eq_false] at h
  have hk := h (k : Int) ((mem_ids hids).mpr ⟨k, c, hc, rfl⟩)
  have hd : getContext m (k : Int) = some k := dptr_ofNat (used_lt hc)
  simp [hd, peek_of_used hc, hn, hv] at hk

theorem dropHosts_edits {node vhost : Int} (hok : IdsOk ts) :
    Edits strict ts (dropHosts ts node vhost) := by
  unfold dropHosts
  split
  · exact Edits.refl
  rename_i hno
  have hu : ∀ j, (ts.hosts.sweep (·.id) (fun ou => ou.vhost == vhost && ou.node == node)
      (getIdsUsedHost ts.hosts)).used j =
        (ts.hosts.used j).filter fun ou => !(ou.vhost == vhost && ou.node == node) := by
    intro j
    rw [getIdsUsedHost_eq, sweep_used _ hok.hosts]
  refine (Edit.hostsFree _ _ hu ?_).single
  intro j x hx hp k c hc
  simp only [Bool.and_eq_true, beq_iff_eq] at hp
  rw [hp.1, hp.2]
  exact hasContext_eq_false hok.contexts (by simpa using hno) k c hc

theorem appHost_edits {node vid vid' : Int} {host : Str} {hosts : Table Hostinfo} {r : Option Nat}
    (hok : IdsOk ts)
    (hnode : ∃ k n, ts.nodes.used k = some n ∧ node = k ∧ (strict → n.mess.jvmRoute ≠ REMOVED))
    (h : appHost now cmd ts.hosts node vid host = (r, hosts, vid')) :
    Edits strict ts { ts with hosts := hosts } ∧
      ∀ i, r = some i → ∃ x, hosts.used i = some x ∧ x.node = node := by
  unfold appHost at h
  simp only at h
  cases hf : ts.hosts.first (hasAlias (truncate HOSTALIASZ host) node) with
  | some i =>
    rw [readHost_some hok.hosts rfl hf] at h
    simp only [Prod.mk.injEq] at h
    obtain ⟨rfl, rfl, -⟩ := h
    obtain ⟨x, hx, hal, -⟩ := first_eq_some hf
    refine ⟨Edits.refl, fun j hj => ?_⟩
    cases hj
    exact ⟨x, hx, (hasAlias_iff.mp hal).2⟩
  | none =>
    rw [readHost_none rfl hf] at h
    simp only at h
    split at h
    · simp only [Prod.mk.injEq] at h
      obtain ⟨rfl, rfl, -⟩ := h
      exact ⟨Edits.refl, fun j hj => by cases hj⟩
    · split at h
      · simp only [Prod.mk.injEq] at h
        obtain ⟨rfl, rfl, -⟩ := h
        exact ⟨Edits.refl, fun j hj => by cases hj⟩
      · rename_i m x hm
        simp only [Prod.mk.injEq] at h
        obtain ⟨rfl, rfl, -⟩ := h
        obtain ⟨he, -⟩ := insertUpdateHost_edit hnode hm
        refine ⟨he.single, fun j hj => ?_⟩
        have hidsm : m.IdsMatch (·.id) := (he.idsOk hok).hosts
        rcases insertUpdateHost_cases hm with ⟨i, a, hfi, ha, -, -⟩ | ⟨i, -, hlt, -, hmi, rfl⟩
        · -- No host of the node has the alias, so none has it with this vhost.
          obtain ⟨a', ha', hkey, -⟩ := first_eq_some hfi
          obtain ⟨hhost, -, hn⟩ := sameHost_iff.mp hkey
          have hal : hasAlias (truncate HOSTALIASZ host) node a' = true :=
            hasAlias_iff.mpr ⟨hhost.symm, hn.symm⟩
          rw [first_eq_none.mp hf i a' ha'] at hal
          cases hal
        · have hfirst : ∃ k, m.first (hasAlias (truncate HOSTALIASZ host) node) = some k := by
            cases hk : m.first (hasAlias (truncate HOSTALIASZ host) node) with
            | some k => exact ⟨k, rfl⟩
            | none =>
              rw [hmi] at hk
              have := first_eq_none.mp hk i _ (used_store_self _ hlt)
              simp [hasAlias, hostRecord] at this
          obtain ⟨k, hk⟩ := hfirst
          rw [readHost_some hidsm rfl hk] at hj
          cases hj
          obtain ⟨y, hy, hal, -⟩ := first_eq_some hk
          exact ⟨y, hy, (hasAlias_iff.mp hal).2⟩

theorem appAliases_edits {node : Int} {contexts : List Str} (aliases : List Str) {vid : Int}
    (hok : IdsOk ts)
    (hnode : ∃ k n, ts.nodes.used k = some n ∧ node = k ∧ (strict → n.mess.jvmRoute ≠ REMOVED)) :
    Edits strict ts (appAliases now cmd node contexts aliases vid ts).1 := by
  induction aliases generalizing ts vid with
  | nil => exact Edits.refl
  | cons host rest ih =>
    unfold appAliases
    split
    · rename_i hosts vid' hh
      obtain ⟨he, -⟩ := appHost_edits hok hnode hh
      exact he.trans (ih (he.idsOk hok) hnode)
    · rename_i i hosts vid' hh
      obtain ⟨he, hused⟩ := appHost_edits hok hnode hh
      obtain ⟨x, hx, hxn⟩ := hused i rfl
      have hhost : HostUsed { ts with hosts := hosts } node (hosts.peek i).vhost :=
        ⟨i, x, hx, hxn, by rw [peek_of_used hx]⟩
      have hc := he.trans (@appContexts_edits strict _ now cmd _ _ contexts (he.idsOk hok) hhost)
      simp only
      split
      · have hd := hc.trans (@dropHosts_edits strict _ node ((hosts.peek i).vhost) (hc.idsOk hok))
        refine hd.trans (ih (hd.idsOk hok) ?_)
        unfold dropHosts
        split <;> exact hnode
      · exact hc.trans (ih (hc.idsOk hok) hnode)

/-- An application command is a run of edits, and of strict ones when it does not
use the reserved JVMRoute. -/
theorem processAppCmd_edits (httpd : Httpd) (now : Int) (filename : Str) (argv : Argv)
    (cmd : ContextStatus) (hok : IdsOk ts)
    (hroute : strict → ∀ args, parseApp httpd (filename == NODE_COMMAND) argv = .ok args →
      args.jvmRoute ≠ REMOVED) :
    Edits strict ts (processAppCmd httpd now ts filename argv cmd).tables := by
  unfold processAppCmd
  simp only
  split
  · exact Edits.refl
  · exact Edits.refl
  rename_i args hparse
  cases hf : ts.nodes.first (hasRoute args.jvmRoute) with
  | none =>
    rw [readNode_none rfl hf]
    exact Edits.refl
  | some i =>
    obtain ⟨a, ha, hr, -⟩ := first_eq_some hf
    have hra : a.mess.jvmRoute = args.jvmRoute := hasRoute_iff.mp hr
    rw [readNode_some hok.nodes rfl hf]
    simp only
    have hv : Edits strict ts (incVersionNode ts) := (Edit.version _).single
    split
    · exact Edits.refl
    split
    · exact hv.trans (processNodeCmd_edits (a := a) (hv.idsOk hok) (by rw [hra]; exact hf) ha)
    · refine hv.trans (appAliases_edits _ (hv.idsOk hok) ?_)
      rw [peek_of_used ha]
      refine ⟨i, a, ha, hok.nodes i a ha, fun hs => ?_⟩
      rw [hra]
      exact hroute hs args hparse

end ModCluster
