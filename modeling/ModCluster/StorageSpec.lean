import ModCluster.Storage

/-!
# What the storage functions do

One lemma per function of `Storage.lean`, in terms of the first record in use that
matches. The callbacks of the source all stop at their first match.
-/

open CString Slotmem Slotmem.Table

namespace ModCluster

/-! ## Keys -/

def hasRoute (route : Str) (n : Nodeinfo) : Bool := route == n.mess.jvmRoute

def hasHostPort (host port : Str) (n : Nodeinfo) : Bool :=
  truncate (HOSTNODESZ - 1) host == n.mess.host && truncate (PORTNODESZ - 1) port == n.mess.port

def sameHost (a b : Hostinfo) : Bool := a.host == b.host && a.vhost == b.vhost && a.node == b.node

def hasAlias (host : Str) (node : Int) (h : Hostinfo) : Bool := host == h.host && node == h.node

def sameContext (a b : Contextinfo) : Bool :=
  a.context == b.context && a.vhost == b.vhost && a.node == b.node

def sameBalancer (name : Str) (b : Balancerinfo) : Bool := name == b.balancer

theorem hasRoute_iff {route : Str} {n : Nodeinfo} : hasRoute route n = true ↔ n.mess.jvmRoute = route := by
  rw [hasRoute, beq_iff_eq, eq_comm]

theorem sameHost_iff {a b : Hostinfo} :
    sameHost a b = true ↔ a.host = b.host ∧ a.vhost = b.vhost ∧ a.node = b.node := by
  simp [sameHost, and_assoc]

theorem hasAlias_iff {host : Str} {node : Int} {h : Hostinfo} :
    hasAlias host node h = true ↔ h.host = host ∧ h.node = node := by
  rw [hasAlias, Bool.and_eq_true, beq_iff_eq, beq_iff_eq, eq_comm, eq_comm (a := node)]

theorem sameContext_iff {a b : Contextinfo} :
    sameContext a b = true ↔ a.context = b.context ∧ a.vhost = b.vhost ∧ a.node = b.node := by
  simp [sameContext, and_assoc]

theorem sameBalancer_iff {name : Str} {b : Balancerinfo} :
    sameBalancer name b = true ↔ b.balancer = name := by
  rw [sameBalancer, beq_iff_eq, eq_comm]

/-! ## Callbacks -/

theorem Node.update_eq (now : Int) (inn ou : Nodeinfo) :
    Node.update now ou inn = if hasRoute inn.mess.jvmRoute ou then
      (.eexist, Node.merge now ou inn, Node.withId inn ou.mess.id) else (.success, ou, inn) := rfl

theorem Node.locReadNode_eq (inn ou : Nodeinfo) :
    Node.locReadNode ou inn = if hasRoute inn.mess.jvmRoute ou then
      (.eexist, ou, Node.withId inn ou.mess.id) else (.success, ou, inn) := rfl

theorem Node.locReadNodeByhostport_eq (host port : Str) (inn ou : Nodeinfo)
    (hh : inn.mess.host = truncate (HOSTNODESZ - 1) host)
    (hp : inn.mess.port = truncate (PORTNODESZ - 1) port) :
    Node.locReadNodeByhostport ou inn = if hasHostPort host port ou then
      (.eexist, ou, Node.withId inn ou.mess.id) else (.success, ou, inn) := by
  unfold Node.locReadNodeByhostport
  rw [hh, hp]
  rfl

theorem Host.update_eq (now : Int) (inn ou : Hostinfo) :
    Host.update now ou inn = if sameHost inn ou then
      (.eexist, { inn with id := ou.id, updatetime := aprTimeSec now }, { inn with id := ou.id })
      else (.success, ou, inn) := rfl

theorem Host.locReadHost_eq (inn ou : Hostinfo) :
    Host.locReadHost ou inn = if hasAlias inn.host inn.node ou then
      (.eexist, ou, { inn with id := ou.id }) else (.success, ou, inn) := rfl

theorem Context.update_eq (now : Int) (inn ou : Contextinfo) :
    Context.update now ou inn = if sameContext inn ou then
      (.eexist, { ou with status := inn.status, updatetime := aprTimeSec now }, inn)
      else (.success, ou, inn) := rfl

theorem Context.locReadContext_eq (inn ou : Contextinfo) :
    Context.locReadContext ou inn = if sameContext inn ou then
      (.eexist, ou, { inn with id := ou.id }) else (.success, ou, inn) := by
  have hcomm : (ou.node == inn.node) = (inn.node == ou.node) := by
    rw [Bool.eq_iff_iff, beq_iff_eq, beq_iff_eq, eq_comm]
  unfold Context.locReadContext
  rw [hcomm]
  rfl

theorem Balancer.update_eq (now : Int) (inn ou : Balancerinfo) :
    Balancer.update now ou inn = if sameBalancer inn.balancer ou then
      (.eexist, { inn with id := ou.id, updatetime := aprTimeSec now }, { inn with id := ou.id })
      else (.success, ou, inn) := rfl

theorem Balancer.locReadBalancer_eq (inn ou : Balancerinfo) :
    Balancer.locReadBalancer ou inn = if sameBalancer inn.balancer ou then
      (.eexist, ou, { inn with id := ou.id }) else (.success, ou, inn) := rfl

/-! ## Nodes -/

section Nodes

variable {m m' : Table Nodeinfo} {node node' : Nodeinfo} {id id' now : Int} {clean : Bool}

theorem readNode_some {i : Nat} (hids : m.IdsMatch (·.mess.id)) (hid : node.mess.id = -1)
    (h : m.first (hasRoute node.mess.jvmRoute) = some i) :
    readNode m node = (some i, Node.withId node i) := by
  obtain ⟨a, ha, -, -⟩ := first_eq_some h
  unfold readNode
  rw [if_pos hid, readBy_some (Node.locReadNode_eq node) h ha (hids i a ha)]
  simp [hids i a ha]

theorem readNode_none (hid : node.mess.id = -1) (h : m.first (hasRoute node.mess.jvmRoute) = none) :
    readNode m node = (none, node) := by
  unfold readNode
  rw [if_pos hid, readBy_none (Node.locReadNode_eq node) h]

theorem readNode_id {route : Str} (hid : id ≠ -1) : (readNode m (routeNode route id)).1 = m.dptr id := by
  unfold readNode
  rw [if_neg (show ¬ (routeNode route id).mess.id = -1 from hid)]
  rfl

theorem findNodeByhostport_some {host port : Str} {i : Nat} (hids : m.IdsMatch (·.mess.id))
    (h : m.first (hasHostPort host port) = some i) : findNodeByhostport m host port = some i := by
  obtain ⟨a, ha, -, -⟩ := first_eq_some h
  unfold findNodeByhostport
  rw [readBy_some (fun a => Node.locReadNodeByhostport_eq host port _ a rfl rfl) h ha (hids i a ha)]

theorem findNodeByhostport_none {host port : Str} (h : m.first (hasHostPort host port) = none) :
    findNodeByhostport m host port = none := by
  unfold findNodeByhostport
  rw [readBy_none (fun a => Node.locReadNodeByhostport_eq host port _ a rfl rfl) h]

theorem getIdsUsedNode_eq (m : Table Nodeinfo) : getIdsUsedNode m = m.records.map (·.mess.id) := by
  simp [getIdsUsedNode, doall_collect]

theorem insertUpdateNode_cases (h : insertUpdateNode now m node id clean = some (m', node', id')) :
    (∃ i a, m.first (hasRoute node.mess.jvmRoute) = some i ∧ m.used i = some a ∧
      m' = m.poke i (Node.merge now a node) ∧ node' = Node.withId node a.mess.id ∧ id' = a.mess.id) ∨
    (∃ i : Nat, m.first (hasRoute node.mess.jvmRoute) = none ∧ i < m.size ∧
      m' = m.store i (freshNode now node clean i) ∧ node' = node ∧ id' = i ∧
      (id = -1 ∧ m.used i = none ∧ m.grab.map (·.1) = some i ∨ id = i)) := by
  unfold insertUpdateNode at h
  cases hp : m.first (hasRoute node.mess.jvmRoute) with
  | some i =>
    obtain ⟨a, ha, -, -⟩ := first_eq_some hp
    rw [doall_some (Node.update_eq now node) hp ha] at h
    simp only [Option.some.injEq, Prod.mk.injEq] at h
    exact Or.inl ⟨i, a, rfl, ha, h.1.symm, h.2.1.symm, h.2.2.symm⟩
  | none =>
    rw [doall_none (Node.update_eq now node) hp] at h
    simp only at h
    split at h
    · -- No slot was asked for.
      rw [Option.map_eq_some_iff] at h
      obtain ⟨⟨i, m₁⟩, hg, heq⟩ := h
      obtain ⟨hlt, hfree, rfl⟩ := grab_eq_some hg
      simp only [Prod.mk.injEq] at heq
      refine Or.inr ⟨i, rfl, hlt, heq.1.symm, heq.2.1.symm, heq.2.2.symm, Or.inl ⟨by assumption, hfree, ?_⟩⟩
      rw [hg]
      rfl
    · rw [Option.map_eq_some_iff] at h
      obtain ⟨m₁, hg, heq⟩ := h
      obtain ⟨i, rfl, hlt, rfl⟩ := fgrab_eq_some hg
      simp only [Int.toNat_natCast, Prod.mk.injEq] at heq
      exact Or.inr ⟨i, rfl, hlt, heq.1.symm, heq.2.1.symm, heq.2.2.symm, Or.inr rfl⟩

theorem insertUpdateNode_eq_none :
    insertUpdateNode now m node id clean = none ↔
      m.first (hasRoute node.mess.jvmRoute) = none ∧
        (id = -1 ∧ m.grab = none ∨ id ≠ -1 ∧ m.dptr id = none) := by
  unfold insertUpdateNode
  cases hp : m.first (hasRoute node.mess.jvmRoute) with
  | some i =>
    obtain ⟨a, ha, -, -⟩ := first_eq_some hp
    rw [doall_some (Node.update_eq now node) hp ha]
    simp
  | none =>
    rw [doall_none (Node.update_eq now node) hp]
    by_cases hid : id = -1 <;> simp [hid, fgrab]

end Nodes

/-! ## Hosts -/

section Hosts

variable {m m' : Table Hostinfo} {host host' : Hostinfo} {now : Int}

theorem insertUpdateHost_cases (h : insertUpdateHost now m host = some (m', host')) :
    (∃ i a, m.first (sameHost host) = some i ∧ m.used i = some a ∧
      m' = m.poke i { host with id := a.id, updatetime := aprTimeSec now } ∧
      host' = { host with id := a.id }) ∨
    (∃ i : Nat, m.first (sameHost host) = none ∧ i < m.size ∧ m.used i = none ∧
      m' = m.store i { host with id := i, updatetime := aprTimeSec now } ∧ host' = host) :=
  insertUpdate_cases (Host.update_eq now host) h

theorem insertUpdateHost_eq_none :
    insertUpdateHost now m host = none ↔ m.first (sameHost host) = none ∧ m.grab = none :=
  insertUpdate_eq_none (Host.update_eq now host)

theorem readHost_some {i : Nat} (hids : m.IdsMatch (·.id)) (hid : host.id = 0)
    (h : m.first (hasAlias host.host host.node) = some i) :
    readHost m host = (some i, { host with id := i }) := by
  obtain ⟨a, ha, -, -⟩ := first_eq_some h
  unfold readHost
  rw [if_pos hid, readBy_some (Host.locReadHost_eq host) h ha (hids i a ha)]
  simp [hids i a ha]

theorem readHost_none (hid : host.id = 0) (h : m.first (hasAlias host.host host.node) = none) :
    readHost m host = (none, host) := by
  unfold readHost
  rw [if_pos hid, readBy_none (Host.locReadHost_eq host) h]

theorem getIdsUsedHost_eq (m : Table Hostinfo) : getIdsUsedHost m = m.records.map (·.id) := by
  simp [getIdsUsedHost, doall_collect]

end Hosts

/-! ## Contexts -/

section Contexts

variable {m m' : Table Contextinfo} {context : Contextinfo} {now : Int}

theorem insertUpdateContext_cases (h : insertUpdateContext now m context = some m') :
    (∃ i a, m.first (sameContext context) = some i ∧ m.used i = some a ∧
      m' = m.poke i { a with status := context.status, updatetime := aprTimeSec now }) ∨
    (∃ i : Nat, m.first (sameContext context) = none ∧ i < m.size ∧ m.used i = none ∧
      m' = m.store i { context with id := i, nbrequests := 0, updatetime := aprTimeSec now }) := by
  unfold insertUpdateContext at h
  rw [Option.map_eq_some_iff] at h
  obtain ⟨⟨m₁, c⟩, hr, rfl⟩ := h
  rcases insertUpdate_cases (Context.update_eq now context) hr with ⟨i, a, hf, ha, hm, -⟩ | ⟨i, hf, hlt, hfree, hm, -⟩
  · exact Or.inl ⟨i, a, hf, ha, hm⟩
  · exact Or.inr ⟨i, hf, hlt, hfree, hm⟩

theorem insertUpdateContext_eq_none :
    insertUpdateContext now m context = none ↔ m.first (sameContext context) = none ∧ m.grab = none := by
  unfold insertUpdateContext
  rw [Option.map_eq_none_iff]
  exact insertUpdate_eq_none (Context.update_eq now context)

theorem readContext_some {i : Nat} (hids : m.IdsMatch (·.id)) (hid : context.id = 0)
    (h : m.first (sameContext context) = some i) : readContext m context = some i := by
  obtain ⟨a, ha, -, -⟩ := first_eq_some h
  unfold readContext
  rw [if_pos hid, readBy_some (Context.locReadContext_eq context) h ha (hids i a ha)]

theorem getIdsUsedContext_eq (m : Table Contextinfo) : getIdsUsedContext m = m.records.map (·.id) := by
  simp [getIdsUsedContext, doall_collect]

end Contexts

/-! ## Balancers -/

section Balancers

variable {m m' : Table Balancerinfo} {balancer balancer' : Balancerinfo} {now : Int}

theorem insertUpdateBalancer_cases (h : insertUpdateBalancer now m balancer = some (m', balancer')) :
    (∃ i a, m.first (sameBalancer balancer.balancer) = some i ∧ m.used i = some a ∧
      m' = m.poke i { balancer with id := a.id, updatetime := aprTimeSec now } ∧
      balancer' = { balancer with id := a.id }) ∨
    (∃ i : Nat, m.first (sameBalancer balancer.balancer) = none ∧ i < m.size ∧ m.used i = none ∧
      m' = m.store i { balancer with id := i, updatetime := aprTimeSec now } ∧ balancer' = balancer) :=
  insertUpdate_cases (Balancer.update_eq now balancer) h

theorem insertUpdateBalancer_eq_none :
    insertUpdateBalancer now m balancer = none ↔
      m.first (sameBalancer balancer.balancer) = none ∧ m.grab = none :=
  insertUpdate_eq_none (Balancer.update_eq now balancer)

theorem readBalancer_some {i : Nat} (hids : m.IdsMatch (·.id)) (hid : balancer.id = 0)
    (h : m.first (sameBalancer balancer.balancer) = some i) :
    readBalancer m balancer = (some i, { balancer with id := i }) := by
  obtain ⟨a, ha, -, -⟩ := first_eq_some h
  unfold readBalancer
  rw [if_pos hid, readBy_some (Balancer.locReadBalancer_eq balancer) h ha (hids i a ha)]
  simp [hids i a ha]

theorem readBalancer_none (hid : balancer.id = 0)
    (h : m.first (sameBalancer balancer.balancer) = none) : readBalancer m balancer = (none, balancer) := by
  unfold readBalancer
  rw [if_pos hid, readBy_none (Balancer.locReadBalancer_eq balancer) h]

end Balancers

end ModCluster
