import ModCluster.Edits

/-!
# What holds of the tables in every run

`IdsOk`: a record in use carries the number of its slot. `Named`: a node in use has
a JVMRoute. `Linked`: contexts belong
to hosts, hosts to nodes, nodes to balancers, and a node under the reserved
JVMRoute has neither hosts nor contexts.
-/

open CString Slotmem Slotmem.Table

namespace ModCluster

structure IdsOk (ts : Tables) : Prop where
  nodes : ts.nodes.IdsMatch (·.mess.id)
  /-- A freed node keeps its id as long as it looks marked for removal. -/
  stale : ∀ i, i < ts.nodes.size → (ts.nodes.peek i).mess.remove = true → (ts.nodes.peek i).mess.id = i
  hosts : ts.hosts.IdsMatch (·.id)
  contexts : ts.contexts.IdsMatch (·.id)
  balancers : ts.balancers.IdsMatch (·.id)

def Named (ts : Tables) : Prop := ∀ i n, ts.nodes.used i = some n → n.mess.jvmRoute ≠ []

structure Linked (ts : Tables) : Prop where
  contexts : ∀ i c, ts.contexts.used i = some c → HostUsed ts c.node c.vhost
  hosts : ∀ i h, ts.hosts.used i = some h → NodeUsed ts h.node
  nodes : ∀ i n, ts.nodes.used i = some n → BalancerUsed ts n.mess.balancer
  removed : ∀ i n, ts.nodes.used i = some n → n.mess.jvmRoute = REMOVED → Unlinked ts i

variable {strict : Prop} {ts ts' : Tables}

theorem Edit.idsOk (he : Edit strict ts ts') (h : IdsOk ts) : IdsOk ts' := by
  cases he with
  | node i n hid hremove hbalancer hname hroute =>
    refine ⟨h.nodes.poke fun a ha => ?_, ?_, h.hosts, h.contexts, h.balancers⟩
    · rw [hid, peek_of_used ha]
    · intro j hj hr
      rw [size_poke] at hj
      by_cases hij : i = j
      · subst hij
        rw [peek_poke_self n hj] at hr ⊢
        rw [hid]
        rcases hremove hr with hold | ⟨a, ha⟩
        · exact h.stale i hj hold
        · rw [peek_of_used ha]
          exact h.nodes i a ha
      · rw [peek_poke_ne n hij] at hr ⊢
        exact h.stale j hj hr
  | nodeStore i n hlt hid hbalancer hname hroute =>
    refine ⟨h.nodes.store hid, ?_, h.hosts, h.contexts, h.balancers⟩
    intro j hj hr
    rw [size_store] at hj
    by_cases hij : i = j
    · subst hij
      rw [peek_store_self n hj]
      exact hid
    · rw [peek_store_ne n hij] at hr ⊢
      exact h.stale j hj hr
  | nodeFree i hunlinked =>
    refine ⟨h.nodes.free i, ?_, h.hosts, h.contexts, h.balancers⟩
    intro j hj hr
    rw [peek_setInuse] at hr ⊢
    exact h.stale j (by simpa using hj) hr
  | host i a x hused hid hkey =>
    refine ⟨h.nodes, h.stale, h.hosts.poke fun b hb => ?_, h.contexts, h.balancers⟩
    rw [hused, Option.some.injEq] at hb
    rw [← hb, hid]
  | hostInsert i x hlt hfree hid hnew hnode =>
    exact ⟨h.nodes, h.stale, h.hosts.store hid, h.contexts, h.balancers⟩
  | hostsFree hosts p hused hempty =>
    exact ⟨h.nodes, h.stale, h.hosts.filter hused, h.contexts, h.balancers⟩
  | context i a c hused hid hkey =>
    refine ⟨h.nodes, h.stale, h.hosts, h.contexts.poke fun b hb => ?_, h.balancers⟩
    rw [hused, Option.some.injEq] at hb
    rw [← hb, hid]
  | contextInsert i c hlt hfree hid hnew hhost =>
    exact ⟨h.nodes, h.stale, h.hosts, h.contexts.store hid, h.balancers⟩
  | contextsFree contexts p hused =>
    exact ⟨h.nodes, h.stale, h.hosts, h.contexts.filter hused, h.balancers⟩
  | purge hosts contexts id hhosts hcontexts =>
    exact ⟨h.nodes, h.stale, h.hosts.filter hhosts, h.contexts.filter hcontexts, h.balancers⟩
  | balancer i a b hused hid hkey =>
    refine ⟨h.nodes, h.stale, h.hosts, h.contexts, h.balancers.poke fun x hx => ?_⟩
    rw [hused, Option.some.injEq] at hx
    rw [← hx, hid]
  | balancerInsert i b hlt hfree hid hnew =>
    exact ⟨h.nodes, h.stale, h.hosts, h.contexts, h.balancers.store hid⟩
  | domains domains => exact ⟨h.nodes, h.stale, h.hosts, h.contexts, h.balancers⟩
  | version version => exact ⟨h.nodes, h.stale, h.hosts, h.contexts, h.balancers⟩

theorem Edits.idsOk (he : Edits strict ts ts') (h : IdsOk ts) : IdsOk ts' :=
  he.induct Edit.idsOk h

theorem Edits.size_nodes (he : Edits strict ts ts') : ts'.nodes.size = ts.nodes.size := by
  refine he.induct (P := fun t => t.nodes.size = ts.nodes.size) (fun he hsize => ?_) rfl
  rw [← hsize]
  cases he with
  | node i n => exact size_poke _ _ _
  | nodeStore i n => exact size_store _ _ _
  | nodeFree i => exact size_setInuse _ _ _
  | _ => rfl

theorem Edit.named (he : Edit strict ts ts') (h : Named ts) : Named ts' := by
  cases he with
  | node i n hid hremove hbalancer hname hroute =>
    intro j a ha
    rcases used_of_poke ha with ⟨rfl, rfl, a', ha'⟩ | ⟨-, ha⟩
    · intro hempty
      have := hname hempty
      rw [peek_of_used ha'] at this
      exact h j a' ha' this
    · exact h j a ha
  | nodeStore i n hlt hid hbalancer hname hroute =>
    intro j a ha
    rcases used_of_store ha with ⟨rfl, rfl⟩ | ⟨-, ha⟩
    · exact hname
    · exact h j a ha
  | nodeFree i hunlinked => exact fun j a ha => h j a (used_of_free ha).2
  | _ => exact h

theorem Edits.named (he : Edits strict ts ts') (h : Named ts) : Named ts' :=
  he.induct Edit.named h

/-! ## References -/

theorem NodeUsed.poke {id : Int} (h : NodeUsed ts id) (i : Nat) (n : Nodeinfo) :
    NodeUsed { ts with nodes := ts.nodes.poke i n } id := by
  obtain ⟨k, a, ha, rfl⟩ := h
  exact ⟨k, _, used_poke_of n ha, rfl⟩

theorem NodeUsed.store {id : Int} (h : NodeUsed ts id) (i : Nat) (n : Nodeinfo) :
    NodeUsed { ts with nodes := ts.nodes.store i n } id := by
  obtain ⟨k, a, ha, rfl⟩ := h
  exact ⟨k, _, used_store_of n ha, rfl⟩

theorem HostUsed.poke {node vhost : Int} (h : HostUsed ts node vhost) {i : Nat} {a x : Hostinfo}
    (ha : ts.hosts.used i = some a) (hkey : sameHost x a = true) :
    HostUsed { ts with hosts := ts.hosts.poke i x } node vhost := by
  obtain ⟨k, b, hb, rfl, rfl⟩ := h
  obtain ⟨-, hv, hn⟩ := sameHost_iff.mp hkey
  refine ⟨k, _, used_poke_of x hb, ?_⟩
  split
  · rename_i hik
    subst hik
    rw [ha, Option.some.injEq] at hb
    exact ⟨by rw [hn, hb], by rw [hv, hb]⟩
  · exact ⟨rfl, rfl⟩

theorem HostUsed.store {node vhost : Int} (h : HostUsed ts node vhost) {i : Nat} {x : Hostinfo}
    (hfree : ts.hosts.used i = none) : HostUsed { ts with hosts := ts.hosts.store i x } node vhost := by
  obtain ⟨k, b, hb, rfl, rfl⟩ := h
  have hik : i ≠ k := by
    rintro rfl
    simp [hfree] at hb
  exact ⟨k, b, by rw [used_store_ne x hik, hb], rfl, rfl⟩

theorem BalancerUsed.poke {name : Str} (h : BalancerUsed ts name) {i : Nat} {a b : Balancerinfo}
    (ha : ts.balancers.used i = some a) (hkey : b.balancer = a.balancer) :
    BalancerUsed { ts with balancers := ts.balancers.poke i b } name := by
  obtain ⟨k, x, hx, rfl⟩ := h
  refine ⟨k, _, used_poke_of b hx, ?_⟩
  split
  · rename_i hik
    subst hik
    rw [ha, Option.some.injEq] at hx
    rw [hkey, hx]
  · rfl

theorem BalancerUsed.store {name : Str} (h : BalancerUsed ts name) {i : Nat} {b : Balancerinfo}
    (hfree : ts.balancers.used i = none) :
    BalancerUsed { ts with balancers := ts.balancers.store i b } name := by
  obtain ⟨k, x, hx, rfl⟩ := h
  have hik : i ≠ k := by
    rintro rfl
    simp [hfree] at hx
  exact ⟨k, x, by rw [used_store_ne b hik, hx], rfl⟩

theorem Unlinked.of_subset {id : Int} (h : Unlinked ts id)
    (hh : ∀ j x, ts'.hosts.used j = some x → ∃ k y, ts.hosts.used k = some y ∧ x.node = y.node)
    (hc : ∀ j x, ts'.contexts.used j = some x → ∃ k y, ts.contexts.used k = some y ∧ x.node = y.node) :
    Unlinked ts' id := by
  refine ⟨fun j x hx => ?_, fun j x hx => ?_⟩
  · obtain ⟨k, y, hy, heq⟩ := hh j x hx
    rw [heq]
    exact h.1 k y hy
  · obtain ⟨k, y, hy, heq⟩ := hc j x hx
    rw [heq]
    exact h.2 k y hy

/-! ## Every strict edit keeps the links -/

theorem Linked.node (h : Linked ts) {i : Nat} {n : Nodeinfo}
    (hbalancer : n.mess.balancer = (ts.nodes.peek i).mess.balancer ∨ BalancerUsed ts n.mess.balancer)
    (hroute : n.mess.jvmRoute = REMOVED →
      (ts.nodes.peek i).mess.jvmRoute = REMOVED ∨ Unlinked ts i) :
    Linked { ts with nodes := ts.nodes.poke i n } := by
  refine ⟨h.contexts, fun j x hx => (h.hosts j x hx).poke i n, ?_, ?_⟩
  · intro j a ha
    rcases used_of_poke ha with ⟨rfl, rfl, a', ha'⟩ | ⟨-, ha⟩
    · rcases hbalancer with hb | hb
      · rw [hb, peek_of_used ha']
        exact h.nodes j a' ha'
      · exact hb
    · exact h.nodes j a ha
  · intro j a ha hr
    rcases used_of_poke ha with ⟨rfl, rfl, a', ha'⟩ | ⟨-, ha⟩
    · rcases hroute hr with hold | hun
      · rw [peek_of_used ha'] at hold
        exact h.removed j a' ha' hold
      · exact hun
    · exact h.removed j a ha hr

theorem Linked.nodeStore (h : Linked ts) {i : Nat} {n : Nodeinfo}
    (hbalancer : BalancerUsed ts n.mess.balancer) (hroute : n.mess.jvmRoute ≠ REMOVED) :
    Linked { ts with nodes := ts.nodes.store i n } := by
  refine ⟨h.contexts, fun j x hx => (h.hosts j x hx).store i n, ?_, ?_⟩
  · intro j a ha
    rcases used_of_store ha with ⟨rfl, rfl⟩ | ⟨-, ha⟩
    · exact hbalancer
    · exact h.nodes j a ha
  · intro j a ha hr
    rcases used_of_store ha with ⟨rfl, rfl⟩ | ⟨-, ha⟩
    · exact absurd hr hroute
    · exact h.removed j a ha hr

theorem Linked.nodeFree (h : Linked ts) {i : Nat} (hun : Unlinked ts i) :
    Linked { ts with nodes := ts.nodes.setInuse i false } := by
  refine ⟨h.contexts, ?_, ?_, ?_⟩
  · intro j x hx
    obtain ⟨k, n, hn, heq⟩ := h.hosts j x hx
    have hik : i ≠ k := by
      rintro rfl
      exact hun.1 j x hx heq
    exact ⟨k, n, by rw [used_setInuse_ne false hik, hn], heq⟩
  · intro j a ha
    exact h.nodes j a (used_of_free ha).2
  · intro j a ha hr
    exact h.removed j a (used_of_free ha).2 hr

theorem Linked.hostInsert (h : Linked ts) {i : Nat} {x : Hostinfo} (hfree : ts.hosts.used i = none)
    (hnode : ∃ k n, ts.nodes.used k = some n ∧ x.node = k ∧ n.mess.jvmRoute ≠ REMOVED) :
    Linked { ts with hosts := ts.hosts.store i x } := by
  obtain ⟨k, n, hn, hxk, hnr⟩ := hnode
  refine ⟨fun j c hc => (h.contexts j c hc).store hfree, ?_, h.nodes, ?_⟩
  · intro j y hy
    rcases used_of_store hy with ⟨rfl, rfl⟩ | ⟨-, hy⟩
    · exact ⟨k, n, hn, hxk⟩
    · exact h.hosts j y hy
  · intro j a ha hr
    refine ⟨fun l y hy => ?_, (h.removed j a ha hr).2⟩
    rcases used_of_store hy with ⟨rfl, rfl⟩ | ⟨-, hy⟩
    · -- The node the host was added to is not under the reserved route.
      rintro heq
      have hjk : j = k := by omega
      subst hjk
      rw [ha, Option.some.injEq] at hn
      exact hnr (hn ▸ hr)
    · exact (h.removed j a ha hr).1 l y hy

theorem Linked.hostsFree (h : Linked ts) {hosts : Table Hostinfo} {p : Hostinfo → Bool}
    (hused : ∀ j, hosts.used j = (ts.hosts.used j).filter fun h => !p h)
    (hempty : ∀ j x, ts.hosts.used j = some x → p x = true →
      ∀ k c, ts.contexts.used k = some c → ¬ (c.node = x.node ∧ c.vhost = x.vhost)) :
    Linked { ts with hosts := hosts } := by
  have hback {j x} (hx : hosts.used j = some x) := (used_of_filter hused).mp hx
  refine ⟨?_, fun j x hx => h.hosts j x (hback hx).1, h.nodes, ?_⟩
  · intro j c hc
    obtain ⟨k, x, hx, hn, hv⟩ := h.contexts j c hc
    have hp : p x = false := by
      by_contra hp
      exact hempty k x hx (by simpa using hp) j c hc ⟨hn.symm, hv.symm⟩
    exact ⟨k, x, (used_of_filter hused).mpr ⟨hx, by simp [hp]⟩, hn, hv⟩
  · intro j a ha hr
    exact (h.removed j a ha hr).of_subset (fun l x hx => ⟨l, x, (hback hx).1, rfl⟩)
      fun l c hc => ⟨l, c, hc, rfl⟩

theorem Linked.contextInsert (h : Linked ts) {i : Nat} {c : Contextinfo}
    (hhost : HostUsed ts c.node c.vhost) : Linked { ts with contexts := ts.contexts.store i c } := by
  refine ⟨?_, h.hosts, h.nodes, ?_⟩
  · intro j d hd
    rcases used_of_store hd with ⟨rfl, rfl⟩ | ⟨-, hd⟩
    · exact hhost
    · exact h.contexts j d hd
  · intro j a ha hr
    refine ⟨(h.removed j a ha hr).1, fun l d hd => ?_⟩
    rcases used_of_store hd with ⟨rfl, rfl⟩ | ⟨-, hd⟩
    · obtain ⟨k, x, hx, hn, -⟩ := hhost
      rw [← hn]
      exact (h.removed j a ha hr).1 k x hx
    · exact (h.removed j a ha hr).2 l d hd

theorem Linked.purge (h : Linked ts) {hosts : Table Hostinfo} {contexts : Table Contextinfo} {id : Int}
    (hhosts : ∀ j, hosts.used j = (ts.hosts.used j).filter fun h => !(h.node == id))
    (hcontexts : ∀ j, contexts.used j = (ts.contexts.used j).filter fun c => !(c.node == id)) :
    Linked { ts with hosts := hosts, contexts := contexts } := by
  refine ⟨?_, fun j x hx => h.hosts j x ((used_of_filter hhosts).mp hx).1, h.nodes, ?_⟩
  · intro j c hc
    obtain ⟨hc, hne⟩ := (used_of_filter hcontexts).mp hc
    obtain ⟨k, x, hx, hn, hv⟩ := h.contexts j c hc
    exact ⟨k, x, (used_of_filter hhosts).mpr ⟨hx, by rw [hn]; exact hne⟩, hn, hv⟩
  · intro j a ha hr
    exact (h.removed j a ha hr).of_subset
      (fun l x hx => ⟨l, x, ((used_of_filter hhosts).mp hx).1, rfl⟩)
      fun l c hc => ⟨l, c, ((used_of_filter hcontexts).mp hc).1, rfl⟩

/-- After a purge nothing refers to the node. -/
theorem unlinked_purge {hosts : Table Hostinfo} {contexts : Table Contextinfo} {id : Int}
    (hhosts : ∀ j, hosts.used j = (ts.hosts.used j).filter fun h => !(h.node == id))
    (hcontexts : ∀ j, contexts.used j = (ts.contexts.used j).filter fun c => !(c.node == id)) :
    Unlinked { ts with hosts := hosts, contexts := contexts } id := by
  refine ⟨fun j x hx => ?_, fun j c hc => ?_⟩
  · simpa using ((used_of_filter hhosts).mp hx).2
  · simpa using ((used_of_filter hcontexts).mp hc).2

theorem Edit.linked (hs : strict) (he : Edit strict ts ts') (h : Linked ts) : Linked ts' := by
  cases he with
  | node i n hid hremove hbalancer hname hroute => exact h.node hbalancer (hroute hs)
  | nodeStore i n hlt hid hbalancer hname hroute => exact h.nodeStore hbalancer (hroute hs)
  | nodeFree i hunlinked => exact h.nodeFree (hunlinked hs)
  | host i a x hused hid hkey =>
    obtain ⟨-, -, hn⟩ := sameHost_iff.mp hkey
    have hback : ∀ j y, (ts.hosts.poke i x).used j = some y →
        ∃ k z, ts.hosts.used k = some z ∧ y.node = z.node := by
      intro j y hy
      rcases used_of_poke hy with ⟨rfl, rfl, -⟩ | ⟨-, hy⟩
      · exact ⟨j, a, hused, hn⟩
      · exact ⟨j, y, hy, rfl⟩
    refine ⟨fun j c hc => (h.contexts j c hc).poke hused hkey, ?_, h.nodes, ?_⟩
    · intro j y hy
      obtain ⟨k, z, hz, heq⟩ := hback j y hy
      rw [heq]
      exact h.hosts k z hz
    · intro j b hb hr
      exact (h.removed j b hb hr).of_subset hback fun l c hc => ⟨l, c, hc, rfl⟩
  | hostInsert i x hlt hfree hid hnew hnode =>
    obtain ⟨k, n, hn, hxk, hnr⟩ := hnode
    exact h.hostInsert hfree ⟨k, n, hn, hxk, hnr hs⟩
  | hostsFree hosts p hused hempty => exact h.hostsFree hused hempty
  | context i a c hused hid hkey =>
    obtain ⟨-, hv, hn⟩ := sameContext_iff.mp hkey
    have hback : ∀ j y, (ts.contexts.poke i c).used j = some y →
        ∃ k z, ts.contexts.used k = some z ∧ y.node = z.node ∧ y.vhost = z.vhost := by
      intro j y hy
      rcases used_of_poke hy with ⟨rfl, rfl, -⟩ | ⟨-, hy⟩
      · exact ⟨j, a, hused, hn, hv⟩
      · exact ⟨j, y, hy, rfl, rfl⟩
    refine ⟨?_, h.hosts, h.nodes, ?_⟩
    · intro j y hy
      obtain ⟨k, z, hz, hnode, hvhost⟩ := hback j y hy
      rw [hnode, hvhost]
      exact h.contexts k z hz
    · intro j b hb hr
      refine (h.removed j b hb hr).of_subset (fun l x hx => ⟨l, x, hx, rfl⟩) fun l y hy => ?_
      obtain ⟨k, z, hz, hnode, -⟩ := hback l y hy
      exact ⟨k, z, hz, hnode⟩
  | contextInsert i c hlt hfree hid hnew hhost => exact h.contextInsert hhost
  | contextsFree contexts p hused =>
    have hback {j c} (hc : contexts.used j = some c) := ((used_of_filter hused).mp hc).1
    refine ⟨fun j c hc => h.contexts j c (hback hc), h.hosts, h.nodes, fun j a ha hr => ?_⟩
    exact (h.removed j a ha hr).of_subset (fun l x hx => ⟨l, x, hx, rfl⟩) fun l c hc => ⟨l, c, hback hc, rfl⟩
  | purge hosts contexts id hhosts hcontexts => exact h.purge hhosts hcontexts
  | balancer i a b hused hid hkey =>
    exact ⟨h.contexts, h.hosts, fun j n hn => (h.nodes j n hn).poke hused hkey, h.removed⟩
  | balancerInsert i b hlt hfree hid hnew =>
    exact ⟨h.contexts, h.hosts, fun j n hn => (h.nodes j n hn).store hfree, h.removed⟩
  | domains domains => exact ⟨h.contexts, h.hosts, h.nodes, h.removed⟩
  | version version => exact ⟨h.contexts, h.hosts, h.nodes, h.removed⟩

theorem Edits.linked (hs : strict) (he : Edits strict ts ts') (h : Linked ts) : Linked ts' :=
  he.induct (Edit.linked hs) h

end ModCluster
