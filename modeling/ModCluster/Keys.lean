import ModCluster.Run

/-!
# The records of a table are told apart

`insert_update_context`, `insert_update_host` and `insert_update_balancer` look for a
record with the key of the new one before they take a slot. So the tables never hold
two records with one key.
-/

open CString Slotmem Slotmem.Table

namespace ModCluster

def Contextinfo.key (c : Contextinfo) : Str × Int × Int := (c.context, c.vhost, c.node)

def Hostinfo.key (h : Hostinfo) : Str × Int × Int := (h.host, h.vhost, h.node)

structure Keyed (ts : Tables) : Prop where
  contexts : ts.contexts.Distinct Contextinfo.key
  hosts : ts.hosts.Distinct Hostinfo.key
  balancers : ts.balancers.Distinct (·.balancer)

theorem Contextinfo.key_eq {a b : Contextinfo} : a.key = b.key ↔ sameContext a b = true := by
  rw [sameContext_iff, key, key, Prod.mk.injEq, Prod.mk.injEq]

theorem Hostinfo.key_eq {a b : Hostinfo} : a.key = b.key ↔ sameHost a b = true := by
  rw [sameHost_iff, key, key, Prod.mk.injEq, Prod.mk.injEq]

theorem keyed_empty (sz : Sizes) : Keyed (emptyTables sz) where
  contexts i j a b h := by simp [emptyTables, used_empty] at h
  hosts i j a b h := by simp [emptyTables, used_empty] at h
  balancers i j a b h := by simp [emptyTables, used_empty] at h

variable {httpd : Httpd} {strict : Prop} {ts ts' : Tables}

theorem Edit.keyed (he : Edit strict ts ts') (h : Keyed ts) : Keyed ts' := by
  cases he with
  | host i a x hused hid hkey =>
    exact ⟨h.contexts, h.hosts.poke hused (Hostinfo.key_eq.2 hkey), h.balancers⟩
  | hostInsert i x hlt hfree hid hnew hnode =>
    refine ⟨h.contexts, h.hosts.store fun j a ha hkey => ?_, h.balancers⟩
    have hmiss := first_eq_none.1 hnew j a ha
    rw [Hostinfo.key_eq.1 hkey.symm] at hmiss
    cases hmiss
  | hostsFree hosts p hused hempty => exact ⟨h.contexts, h.hosts.filter hused, h.balancers⟩
  | context i a c hused hid hkey =>
    exact ⟨h.contexts.poke hused (Contextinfo.key_eq.2 hkey), h.hosts, h.balancers⟩
  | contextInsert i c hlt hfree hid hnew hhost =>
    refine ⟨h.contexts.store fun j a ha hkey => ?_, h.hosts, h.balancers⟩
    have hmiss := first_eq_none.1 hnew j a ha
    rw [Contextinfo.key_eq.1 hkey.symm] at hmiss
    cases hmiss
  | contextsFree contexts p hused => exact ⟨h.contexts.filter hused, h.hosts, h.balancers⟩
  | purge hosts contexts id hhosts hcontexts =>
    exact ⟨h.contexts.filter hcontexts, h.hosts.filter hhosts, h.balancers⟩
  | balancer i a b hused hid hkey => exact ⟨h.contexts, h.hosts, h.balancers.poke hused hkey⟩
  | balancerInsert i b hlt hfree hid hnew =>
    refine ⟨h.contexts, h.hosts, h.balancers.store fun j a ha hkey => ?_⟩
    have hmiss := first_eq_none.1 hnew j a ha
    rw [sameBalancer_iff.2 hkey] at hmiss
    cases hmiss
  | _ => exact ⟨h.contexts, h.hosts, h.balancers⟩

theorem Reachable.keyed (h : Reachable httpd strict ts) : Keyed ts := by
  obtain ⟨sz, h⟩ := h
  suffices hinv : Keyed ts ∧ Reachable httpd strict ts from hinv.1
  induction h with
  | refl => exact ⟨keyed_empty sz, .empty sz⟩
  | tail _ hstep ih =>
    obtain ⟨hkeyed, hreach⟩ := ih
    obtain ⟨hok, -, hlink⟩ := hreach.invariants
    exact ⟨(hstep.edits hok hlink).induct Edit.keyed hkeyed, hreach.step hstep⟩

/-- The tables hold records that know their slots and that differ in their keys. -/
theorem reachable_representation (httpd : Httpd) (ts : Tables) (h : Reachable httpd False ts) :
    (∀ i n, ts.nodes.used i = some n → n.mess.id = i) ∧
    (∀ i x, ts.hosts.used i = some x → x.id = i) ∧
    (∀ i c, ts.contexts.used i = some c → c.id = i) ∧
    (∀ i b, ts.balancers.used i = some b → b.id = i) ∧
    (∀ i j c d, ts.contexts.used i = some c → ts.contexts.used j = some d →
      c.context = d.context → c.vhost = d.vhost → c.node = d.node → i = j) ∧
    (∀ i j x y, ts.hosts.used i = some x → ts.hosts.used j = some y →
      x.host = y.host → x.vhost = y.vhost → x.node = y.node → i = j) ∧
    (∀ i j a b, ts.balancers.used i = some a → ts.balancers.used j = some b → a.balancer = b.balancer → i = j) := by
  have hids := h.idsOk
  have hkeys := h.keyed
  refine ⟨hids.nodes, hids.hosts, hids.contexts, hids.balancers, ?_, ?_, hkeys.balancers⟩
  · intro i j c d hc hd hcontext hvhost hnode
    exact hkeys.contexts i j c d hc hd (Contextinfo.key_eq.2 (sameContext_iff.2 ⟨hcontext, hvhost, hnode⟩))
  · intro i j x y hx hy hhost hvhost hnode
    exact hkeys.hosts i j x y hx hy (Hostinfo.key_eq.2 (sameHost_iff.2 ⟨hhost, hvhost, hnode⟩))

theorem oneNode_representation :
    Reachable plainHttpd False oneNode ∧
    ∀ i j x y, oneNode.hosts.used i = some x → oneNode.hosts.used j = some y →
      x.host = y.host → x.vhost = y.vhost → x.node = y.node → i = j := by
  have h : Reachable plainHttpd False oneNode := (Reachable.empty ⟨2, 2, 2, 2, 2⟩).step (Step.config _ _ _ _ nofun)
  exact ⟨h, (reachable_representation plainHttpd oneNode h).2.2.2.2.2.1⟩

end ModCluster
