import ModCluster.ConfigEdits

/-!
# The ways through CONFIG

Where the check phase goes for given tables and workers, and what the commit phase
leaves on each of its exits.
-/

open CString Slotmem Slotmem.Table

namespace ModCluster

variable {httpd : Httpd} {ts : Tables} {px : Option Proxy} {args : ConfigArgs} {now : Int}

/-! ## The check phase -/

/-- The slot of the node that has the message's JVMRoute. -/
def knownNode (ts : Tables) (args : ConfigArgs) : Option Nat := (readNode ts.nodes args.node).1

/-- The node the message describes, with the id of the node it names. -/
def messageNode (ts : Tables) (args : ConfigArgs) : Nodeinfo := (readNode ts.nodes args.node).2

def workerFound (httpd : Httpd) (ts : Tables) (px : Option Proxy) (args : ConfigArgs) :
    Option WorkerRef × Int :=
  proxyNodeGetid httpd ts px (messageNode ts args).mess

/-- The message passes the checks that compare it with the nodes in use. -/
def Admitted (ts : Tables) (args : ConfigArgs) : Prop :=
  isOtherNode ts.nodes (messageNode ts args) (knownNode ts args) = false ∧
    isSameWorkerExisting ts.nodes (messageNode ts args) = false

theorem checkConfig_denied (h : ¬ Admitted ts args) : ∃ e, checkConfig httpd ts px args = .fail e := by
  unfold checkConfig
  simp only
  split
  · exact ⟨_, rfl⟩
  split
  · exact ⟨_, rfl⟩
  rename_i hother hsame
  exact absurd ⟨eq_false_of_ne_true hother, eq_false_of_ne_true hsame⟩ h

theorem checkConfig_admitted (h : Admitted ts args) :
    checkConfig httpd ts px args =
      if (workerFound httpd ts px args).2 = -1 then checkHostPort ts px (messageNode ts args)
      else if (knownNode ts args).isSome ∧
          workerNodeId ts.nodes (knownNode ts args) = (workerFound httpd ts px args).2 then
        .go { nodes := ts.nodes, nodeinfo := messageNode ts args, id := (workerFound httpd ts px args).2,
              clean := true, removed := -1, worker := (workerFound httpd ts px args).1 }
      else checkWorker ts px (knownNode ts args) (messageNode ts args) (workerFound httpd ts px args).1
        (workerFound httpd ts px args).2 := by
  obtain ⟨hother, hsame⟩ := h
  unfold checkConfig
  simp only
  rw [if_neg (by rw [← knownNode, ← messageNode, hother]; decide),
    if_neg (by rw [← messageNode, hsame]; decide)]
  rfl

theorem knownNode_eq (hids : ts.nodes.IdsMatch (·.mess.id)) (hid : args.node.mess.id = -1) :
    knownNode ts args = ts.nodes.first (hasRoute args.node.mess.jvmRoute) := by
  unfold knownNode
  cases hf : ts.nodes.first (hasRoute args.node.mess.jvmRoute) with
  | none => rw [readNode_none hid hf]
  | some i => rw [readNode_some hids hid hf]

theorem messageNode_mess (hids : ts.nodes.IdsMatch (·.mess.id)) (hid : args.node.mess.id = -1) :
    ∃ id, (messageNode ts args).mess = { args.node.mess with id := id } :=
  readNode_mess ts.nodes args.node hids hid

theorem findNodeByhostport_eq {m : Table Nodeinfo} (hids : m.IdsMatch (·.mess.id)) (host port : Str) :
    findNodeByhostport m host port = m.first (hasHostPort host port) := by
  cases hf : m.first (hasHostPort host port) with
  | none => exact findNodeByhostport_none hf
  | some i => exact findNodeByhostport_some hids hf

theorem workerNode_eq_some {m : Table Nodeinfo} {node : Option Nat} {id : Int} {i : Nat} (hid : id ≠ -1) :
    workerNode m node id = some i ↔ node = none ∧ id = i ∧ i < m.size := by
  unfold workerNode
  cases node with
  | none =>
    rw [if_pos Option.isNone_none, readNodeById, readNode_id hid, dptr_eq_some]
    simp
  | some k => simp

theorem reuseWorker_cases {nodes : Table Nodeinfo} {nodeinfo : Nodeinfo} {worker : Option WorkerRef}
    {id removed : Int} :
    reuseWorker ts px nodes nodeinfo worker id removed = .abort nodes ∨
    ∃ p r w, px = some p ∧ worker = some r ∧ p.worker? r = some w ∧
      reuseWorker ts px nodes nodeinfo worker id removed = .go {
        nodes := nodes
        nodeinfo := { nodeinfo with stat := w.area ts }
        id := id
        clean := false
        removed := removed
        worker := some r } := by
  unfold reuseWorker
  split
  · split
    · split
      · exact Or.inl rfl
      · exact Or.inr ⟨_, _, _, rfl, rfl, by assumption, rfl⟩
    · exact Or.inl rfl
  · exact Or.inl rfl

theorem proxyNodeGetFreeId_free {size : Nat} {i : Nat} {n : Nodeinfo}
    (hids : ts.nodes.IdsMatch (·.mess.id)) (hn : ts.nodes.used i = some n) :
    proxyNodeGetFreeId ts px size ≠ i := by
  intro h
  unfold proxyNodeGetFreeId at h
  split at h
  · omega
  simp only at h
  split at h
  · rename_i k hk
    have hfree := List.find?_some hk
    have hmem : (i : Int) ∈ getIdsUsedNode ts.nodes := by
      rw [getIdsUsedNode_eq]
      exact (mem_ids hids).mpr ⟨i, n, hn, rfl⟩
    rw [h] at hfree
    simp [hmem] at hfree
  · omega

/-! ## The commit phase -/

/-- The balancer of the message has a record or there is room for one. -/
def BalancerFits (ts : Tables) (name : Str) : Prop :=
  BalancerUsed ts name ∨ ∃ j, j < ts.balancers.size ∧ ts.balancers.used j = none

theorem readBalancer_name (hids : ts.balancers.IdsMatch (·.id)) (hid : args.balancer.id = 0) :
    (readBalancer ts.balancers args.balancer).2.balancer = args.balancer.balancer := by
  cases hf : ts.balancers.first (sameBalancer args.balancer.balancer) with
  | none => rw [readBalancer_none hid hf]
  | some i => rw [readBalancer_some hids hid hf]

variable (now) in
theorem insertUpdateBalancer_isSome_iff {b : Balancerinfo} :
    (insertUpdateBalancer now ts.balancers b).isSome ↔ BalancerFits ts b.balancer := by
  rw [← not_iff_not, Bool.not_eq_true, Option.isSome_eq_false_iff, Option.isNone_iff_eq_none,
    insertUpdateBalancer_eq_none]
  unfold BalancerFits BalancerUsed
  constructor
  · rintro ⟨hfirst, hgrab⟩ (⟨j, x, hx, hname⟩ | ⟨j, hlt, hfree⟩)
    · have := first_eq_none.mp hfirst j x hx
      rw [sameBalancer_iff.mpr hname] at this
      cases this
    · obtain ⟨a, ha⟩ := grab_eq_none hgrab j hlt
      rw [hfree] at ha
      cases ha
  · intro h
    rw [not_or] at h
    refine ⟨first_eq_none.mpr fun i a ha => ?_, ?_⟩
    · by_contra hname
      exact h.1 ⟨i, a, ha, sameBalancer_iff.mp (eq_true_of_ne_false hname)⟩
    · cases hg : ts.balancers.grab with
      | none => rfl
      | some r =>
        obtain ⟨hlt, hfree, -⟩ := grab_eq_some hg
        exact absurd ⟨r.1, hlt, hfree⟩ h.2

/-- The record the balancer of the message is stored from. -/
def messageBalancer (ts : Tables) (args : ConfigArgs) : Balancerinfo := (readBalancer ts.balancers args.balancer).2

/-- The four exits of the locked part. -/
inductive Committed (now : Int) (ts : Tables) (px : Option Proxy) (args : ConfigArgs) (plan : Plan) :
    ConfigResult → Prop
  | noBalancer (hb : insertUpdateBalancer now ts.balancers (messageBalancer ts args) = none) :
      Committed now ts px args plan
        { tables := { ts with nodes := plan.nodes }
          proxy := px
          outcome := .failed (.mbalaui plan.nodeinfo.mess.jvmRoute)
          locks := [.lock, .unlock] }
  | noNode (balancers : Table Balancerinfo) (b : Balancerinfo)
      (hb : insertUpdateBalancer now ts.balancers (messageBalancer ts args) = some (balancers, b))
      (hn : insertUpdateNode now plan.nodes plan.nodeinfo plan.id plan.clean = none) :
      Committed now ts px args plan
        { tables := rollback now { ts with nodes := plan.nodes, balancers := balancers } plan.removed
            ((readBalancer ts.balancers args.balancer).1.map ts.balancers.peek)
          proxy := px
          outcome := .failed (.mnodeui plan.nodeinfo.mess.jvmRoute)
          locks := [.lock, .unlock] }
  | aborted (balancers : Table Balancerinfo) (b : Balancerinfo) (nodes : Table Nodeinfo)
      (nodeinfo : Nodeinfo) (id : Int)
      (hb : insertUpdateBalancer now ts.balancers (messageBalancer ts args) = some (balancers, b))
      (hn : insertUpdateNode now plan.nodes plan.nodeinfo plan.id plan.clean = some (nodes, nodeinfo, id))
      (hp : pairWorker now { ts with nodes := nodes, balancers := balancers } px plan nodeinfo id = none) :
      Committed now ts px args plan
        { tables := { ts with nodes := nodes, balancers := balancers }
          proxy := px
          outcome := .aborted
          locks := [.lock] }
  | stored (balancers : Table Balancerinfo) (b : Balancerinfo) (nodes : Table Nodeinfo)
      (nodeinfo : Nodeinfo) (id : Int) (ts' : Tables) (px' : Option Proxy) (r : Tables × List CapacityError)
      (hb : insertUpdateBalancer now ts.balancers (messageBalancer ts args) = some (balancers, b))
      (hn : insertUpdateNode now plan.nodes plan.nodeinfo plan.id plan.clean = some (nodes, nodeinfo, id))
      (hp : pairWorker now { ts with nodes := nodes, balancers := balancers } px plan nodeinfo id =
        some (ts', px'))
      (hr : r = addAliases now id args.contexts args.aliases 1 (incVersionNode ts')) :
      Committed now ts px args plan
        { tables := r.1
          proxy := px'
          outcome := if r.2 = [] then .done else .failed (.capacity plan.nodeinfo.mess.jvmRoute r.2)
          locks := [.lock, .unlock] }

theorem commitConfig_committed (now : Int) (ts : Tables) (px : Option Proxy) (args : ConfigArgs)
    (plan : Plan) : Committed now ts px args plan (commitConfig now ts px args plan) := by
  unfold commitConfig
  simp only
  split
  · rename_i hb
    exact Committed.noBalancer hb
  rename_i balancers b hb
  split
  · rename_i hn
    exact Committed.noNode balancers b hb hn
  rename_i nodes nodeinfo id hn
  split
  · rename_i hp
    exact Committed.aborted balancers b nodes nodeinfo id hb hn hp
  · rename_i ts' px' hp
    exact Committed.stored balancers b nodes nodeinfo id ts' px' _ hb hn hp rfl

@[simp]
theorem addAliases_nodes (id : Int) (contexts aliases : List Str) (vid : Int) (ts : Tables) :
    (addAliases now id contexts aliases vid ts).1.nodes = ts.nodes := by
  induction aliases generalizing vid ts with
  | nil => rfl
  | cons host rest ih =>
    unfold addAliases
    split
    · exact ih vid ts
    · exact ih (vid + 1) _

theorem pairWorker_nodes {px px' : Option Proxy} {plan : Plan} {nodeinfo : Nodeinfo} {id : Int} {ts' : Tables}
    (h : pairWorker now ts px plan nodeinfo id = some (ts', px')) {i : Nat} {n : Nodeinfo}
    (hn : ts.nodes.used i = some n) : ∃ n', ts'.nodes.used i = some n' ∧ n'.mess = n.mess := by
  unfold pairWorker at h
  split at h
  · cases h
    exact ⟨n, hn, rfl⟩
  · repeat' split at h
    all_goals cases h
    refine ⟨_, used_poke_of _ hn, ?_⟩
    split
    · rename_i hik
      subst hik
      simp only [peek_of_used hn]
    · rfl

theorem pairWorker_hosts {px px' : Option Proxy} {plan : Plan} {nodeinfo : Nodeinfo} {id : Int} {ts' : Tables}
    (h : pairWorker now ts px plan nodeinfo id = some (ts', px')) : ts'.hosts = ts.hosts := by
  unfold pairWorker at h
  split at h
  · cases h
    rfl
  · repeat' split at h
    all_goals cases h
    rfl

theorem rollback_nodes {plan : Plan} {balancers : Table Balancerinfo} {old : Option Balancerinfo}
    (hremoved : plan.removed ≠ -1 → plan.id = plan.removed ∧ ∃ i, plan.nodes.dptr plan.id = some i)
    (hn : insertUpdateNode now plan.nodes plan.nodeinfo plan.id plan.clean = none) :
    (rollback now { ts with nodes := plan.nodes, balancers := balancers } plan.removed old).nodes =
      plan.nodes := by
  have hrem : plan.removed = -1 := by
    by_contra hrem
    obtain ⟨heq, i, hi⟩ := hremoved hrem
    rcases (insertUpdateNode_eq_none.mp hn).2 with ⟨hid, -⟩ | ⟨-, hd⟩
    · exact hrem (heq.symm.trans hid)
    · rw [hi] at hd
      cases hd
  simp only [rollback, if_pos hrem]

end ModCluster
