import ModCluster.ConfigAtomic

/-!
# Adding a node again

When a worker for the node of a CONFIG message exists but its slot does not hold the
node, the message puts the node there and pairs the worker with it again. The
worker takes its index from the record that was handed to `insert_update_node`. An
update writes the slot into that record, an insert does not.
-/

open CString Slotmem Slotmem.Table

namespace ModCluster

/-! ## Workers of a process -/

namespace Proxy

theorem worker?_setWorker {px : Proxy} {r : WorkerRef} {w : Worker} (w' : Worker)
    (h : px.worker? r = some w) : (px.setWorker r w').worker? r = some w' := by
  unfold worker? at h
  split at h
  swap
  · cases h
  rename_i sv hsv
  split at h
  swap
  · cases h
  rename_i b hb
  have hlt : r.worker < b.workers.length := (List.getElem?_eq_some_iff.mp h).1
  simp [worker?, setWorker, hsv, hb, hlt]

end Proxy

/-! ## Statement -/

/-- The worker found for the message points into the slot that holds the message's
node, and slot, worker and node agree on the index. -/
def Repaired (httpd : Httpd) (ts : Tables) (px : Option Proxy) (args : ConfigArgs) (res : ConfigResult) : Prop :=
  ∃ r p w i n, (workerFound httpd ts px args).1 = some r ∧ res.proxy = some p ∧ p.worker? r = some w ∧
    w.s = .slot i ∧ res.tables.nodes.used i = some n ∧ n.mess.jvmRoute = args.node.mess.jvmRoute ∧
    (w.area res.tables).index = i ∧ n.mess.id = i

/-- The worker's slot does not hold the node: "exists and IS NOT OK". -/
def NotOk (httpd : Httpd) (ts : Tables) (px : Option Proxy) (args : ConfigArgs) : Prop :=
  (workerFound httpd ts px args).2 ≠ -1 ∧
    ¬ ((knownNode ts args).isSome ∧
      workerNodeId ts.nodes (knownNode ts args) = (workerFound httpd ts px args).2)

/-- A node with the message's JVMRoute is in use, or the worker's slot is in use
under the reserved name. -/
def HasRecord (httpd : Httpd) (ts : Tables) (px : Option Proxy) (args : ConfigArgs) : Prop :=
  (∃ i n, ts.nodes.used i = some n ∧ n.mess.jvmRoute = args.node.mess.jvmRoute) ∨
    ∃ i : Nat, ∃ n, (workerFound httpd ts px args).2 = i ∧ ts.nodes.used i = some n ∧
      n.mess.jvmRoute = REMOVED

/-! ## Pairing -/

variable {httpd : Httpd} {ts ts' : Tables} {px px' : Option Proxy} {args : ConfigArgs} {now : Int} {plan : Plan}

theorem pairWorker_paired {nodeinfo : Nodeinfo} {i : Nat} (hclean : plan.clean = false)
    (h : pairWorker now ts px plan nodeinfo (i : Int) = some (ts', px')) :
    ∃ r p w, plan.worker = some r ∧ px' = some p ∧ p.worker? r = some w ∧ w.s = .slot i ∧
      (w.area ts').index = nodeinfo.mess.id := by
  unfold pairWorker at h
  rw [hclean, if_neg Bool.false_ne_true] at h
  repeat' split at h
  all_goals cases h
  rename_i k p r hk hworker _ w hw _ helper hhelper hidk
  rw [readNodeById, readNode_id (by omega), dptr_eq_some] at hk
  obtain ⟨hik, hlt⟩ := hk
  have hik' : i = k := by omega
  subst hik'
  refine ⟨r, _, _, hworker, rfl, Proxy.worker?_setWorker _ hw, rfl, ?_⟩
  simp only [Worker.area, reenableProxyWorker, pokeStat, peek_poke_self _ hlt]
  rfl

theorem Worker.area_congr {w : Worker} (h : ts'.nodes = ts.nodes) : w.area ts' = w.area ts := by
  unfold Worker.area
  rw [h]

section Plan

variable (hok : IdsOk ts) (hargs : ArgsOk args)

include hok hargs

theorem renamed_first (hid : (workerFound httpd ts px args).2 ≠ -1) :
    (∃ k, (renameRemoved ts.nodes args.node.mess.jvmRoute
      (workerNode ts.nodes (knownNode ts args) (workerFound httpd ts px args).2)).first
        (hasRoute args.node.mess.jvmRoute) = some k) ↔ HasRecord httpd ts px args := by
  have hknown := knownNode_eq hok.nodes hargs.id
  constructor
  · rintro ⟨k, hk⟩
    obtain ⟨a, ha, hroute, -⟩ := first_eq_some hk
    cases hw : workerNode ts.nodes (knownNode ts args) (workerFound httpd ts px args).2 with
    | none =>
      rw [hw, renameRemoved] at ha
      exact Or.inl ⟨k, a, ha, hasRoute_iff.mp hroute⟩
    | some j =>
      obtain ⟨-, hidj, -⟩ := (workerNode_eq_some hid).mp hw
      rw [hw] at ha
      simp only [renameRemoved] at ha
      split at ha
      · rename_i hold
        rcases used_of_poke ha with ⟨rfl, -, a', ha'⟩ | ⟨-, ha⟩
        · rw [peek_of_used ha'] at hold
          exact Or.inr ⟨k, a', hidj, ha', hold⟩
        · exact Or.inl ⟨k, a, ha, hasRoute_iff.mp hroute⟩
      · exact Or.inl ⟨k, a, ha, hasRoute_iff.mp hroute⟩
  · intro h
    cases hf : knownNode ts args with
    | some k =>
      refine ⟨k, ?_⟩
      have hw : workerNode ts.nodes (some k) (workerFound httpd ts px args).2 = none := rfl
      rw [hw, renameRemoved, ← hknown]
      exact hf
    | none =>
      have hnone := first_eq_none.mp (hknown.symm.trans hf)
      rcases h with ⟨i, n, hn, hr⟩ | ⟨i, n, hidi, hn, hr⟩
      · have := hnone i n hn
        rw [hasRoute_iff.mpr hr] at this
        cases this
      · have hw : workerNode ts.nodes none (workerFound httpd ts px args).2 = some i :=
          (workerNode_eq_some hid).mpr ⟨rfl, hidi, used_lt hn⟩
        rw [hw]
        simp only [renameRemoved, peek_of_used hn, if_pos hr, setJvmRoute]
        exact first_of_used (used_poke_self _ hn) (hasRoute_iff.mpr rfl)

omit hok in
theorem messageNode_id_none (hno : ¬ HasRecord httpd ts px args) : (messageNode ts args).mess.id = -1 := by
  have hnone : ts.nodes.first (hasRoute args.node.mess.jvmRoute) = none := by
    refine first_eq_none.mpr fun i n hn => ?_
    by_contra hr
    exact hno (Or.inl ⟨i, n, hn, hasRoute_iff.mp (eq_true_of_ne_false hr)⟩)
  rw [messageNode, readNode_none hargs.id hnone]
  exact hargs.id

end Plan

theorem checkConfig_notOk (hadm : Admitted ts args) (hnot : NotOk httpd ts px args)
    (h : checkConfig httpd ts px args = .go plan) :
    (workerFound httpd ts px args).1 = plan.worker ∧ plan.clean = false ∧
      plan.nodeinfo.mess = (messageNode ts args).mess ∧
      plan.nodes = renameRemoved ts.nodes (messageNode ts args).mess.jvmRoute
        (workerNode ts.nodes (knownNode ts args) (workerFound httpd ts px args).2) := by
  rw [checkConfig_admitted hadm, if_neg hnot.1, if_neg hnot.2] at h
  unfold checkWorker at h
  simp only at h
  split at h
  · cases h
  rcases reuseWorker_cases with habort | ⟨p, r, w, -, hr, -, hgo⟩
  · rw [habort] at h
    cases h
  · rw [hgo] at h
    cases h
    exact ⟨hr, rfl, rfl, rfl⟩

/-! ## The theorem -/

/-- CONFIG pairs a worker whose slot did not hold the node with it again exactly
when it finds a record of the node to update. -/
theorem processConfig_repaired_iff (httpd : Httpd) (mconf : Mconf) (now : Int) (ts : Tables)
    (px : Option Proxy) (argv : Argv) (args : ConfigArgs) (hok : IdsOk ts)
    (hparse : parseConfig httpd mconf argv = .ok args)
    (hdone : (processConfig httpd mconf now ts px argv).outcome = .done) (hnot : NotOk httpd ts px args) :
    Repaired httpd ts px args (processConfig httpd mconf now ts px argv) ↔ HasRecord httpd ts px args := by
  have hargs := parseConfig_argsOk hparse
  have hroute := messageNode_jvmRoute hok hargs
  have hfirst := renamed_first hok hargs hnot.1
  unfold processConfig at hdone ⊢
  simp only [hparse] at hdone ⊢
  have hadm : Admitted ts args := by
    by_contra hadm
    obtain ⟨e, he⟩ := checkConfig_denied hadm
    rw [he] at hdone
    cases hdone
  cases hgo : checkConfig httpd ts px args with
  | fail e =>
    rw [hgo] at hdone
    cases hdone
  | abort nodes =>
    rw [hgo] at hdone
    cases hdone
  | go plan =>
    have hcheck := checkConfig_ok False httpd ts px args (by rw [← messageNode, hroute]; exact hargs.route)
    rw [hgo] at hdone hcheck
    obtain ⟨hworker, hclean, hmess, hnodes⟩ := checkConfig_notOk hadm hnot hgo
    have hcommit := commitConfig_committed now ts px args plan
    simp only at hdone ⊢
    generalize commitConfig now ts px args plan = res at hcommit hdone ⊢
    cases hcommit with
    | noBalancer hb => cases hdone
    | noNode balancers b hb hn => cases hdone
    | aborted balancers b nodes nodeinfo id hb hn hp => cases hdone
    | stored balancers b nodes nodeinfo id ts' px' r hb hn hp hr =>
      have hrnodes : r.1.nodes = ts'.nodes := by
        rw [hr, addAliases_nodes]
        rfl
      have hprouteEq : plan.nodeinfo.mess.jvmRoute = args.node.mess.jvmRoute := by rw [hmess, hroute]
      rw [← hroute, ← hnodes, hroute] at hfirst
      rcases insertUpdateNode_cases hn with ⟨k, a, hf, ha, rfl, rfl, rfl⟩ | ⟨k, hf, hlt, rfl, rfl, rfl, -⟩
      · -- The record was updated, and its id went into the caller's.
        rw [hprouteEq] at hf
        have hidk : a.mess.id = k := (hcheck.1.idsOk hok).nodes k a ha
        refine iff_of_true ?_ (hfirst.mp ⟨k, hf⟩)
        rw [hidk] at hp
        obtain ⟨ref, p, w, href, rfl, hw, hs, hindex⟩ := pairWorker_paired hclean hp
        have hstored : (plan.nodes.poke k (Node.merge now a plan.nodeinfo)).used k =
            some (Node.merge now a plan.nodeinfo) := used_poke_self _ ha
        obtain ⟨n, hn', hnmess⟩ := pairWorker_nodes hp hstored
        refine ⟨ref, p, w, k, n, hworker.trans href, rfl, hw, hs, ?_, ?_, ?_, ?_⟩
        · rw [hrnodes]
          exact hn'
        · rw [hnmess]
          exact hprouteEq
        · rw [Worker.area_congr hrnodes, hindex]
          rfl
        · rw [hnmess]
          exact hidk
      · -- The record is new, and the caller's still has the id -1.
        rw [hprouteEq] at hf
        have hno : ¬ HasRecord httpd ts px args := by
          intro hrec
          obtain ⟨j, hj⟩ := hfirst.mpr hrec
          rw [hf] at hj
          cases hj
        refine iff_of_false ?_ hno
        obtain ⟨ref, p, w, href, rfl, hw, hs, hindex⟩ := pairWorker_paired hclean hp
        rintro ⟨ref', p', w', i, n, hfound, hproxy, hw', -, -, -, hindex', -⟩
        rw [hworker, href, Option.some.injEq] at hfound
        subst hfound
        cases hproxy
        rw [hw, Option.some.injEq] at hw'
        subst hw'
        rw [Worker.area_congr hrnodes, hindex, hmess, messageNode_id_none hargs hno] at hindex'
        omega

/-- The worker of a node that is gone, as `remove_workers_node` leaves it. -/
def idleWorker : Worker where
  s := .priv
  priv := { plainWorker (ascii "ajp://localhost:8009") with index := 0 }
  context := some { countActive := 0, index := 0, isinnodes := false }

def idleProxy : Proxy :=
  ⟨[⟨[{ name := ascii "balancer://mycluster"
        lbpname := ascii "cluster"
        sticky := ascii "JSESSIONID"
        stickyPath := ascii "jsessionid"
        stickyForce := false
        timeout := 0
        maxAttempts := 1
        workers := [idleWorker] }]⟩]⟩

/-- The slot of `idleWorker` as the watchdog leaves it: its node has lost its name,
but not its slot yet. -/
def removedNode : Tables :=
  { emptyTables ⟨1, 1, 1, 1, 1⟩ with
    nodes := (Table.empty 1).store 0 { (default : Nodeinfo) with
      mess := { (default : Nodemess) with jvmRoute := REMOVED, remove := true } } }

theorem removedNode_idsOk : IdsOk removedNode where
  nodes i n hn := by
    rcases used_of_store hn with ⟨rfl, rfl⟩ | ⟨-, hn⟩
    · rfl
    · simp [used_empty] at hn
  stale i hi _ := by
    have hi' : i < 1 := hi
    have hi0 : i = 0 := by omega
    subst hi0
    rfl
  hosts i a h := by simp [removedNode, emptyTables, used_empty] at h
  contexts i a h := by simp [removedNode, emptyTables, used_empty] at h
  balancers i a h := by simp [removedNode, emptyTables, used_empty] at h

theorem removedNode_repaired :
    ∃ args, Repaired plainHttpd removedNode (some idleProxy) args
      (processConfig plainHttpd Mconf.default 1 removedNode (some idleProxy)
        (Argv.ofTokens [ascii "JVMRoute", ascii "node1"])) := by
  obtain ⟨args, hparse, hargs⟩ := exists_of_map_ok (x := parseConfig plainHttpd Mconf.default
      (Argv.ofTokens [ascii "JVMRoute", ascii "node1"]))
    (f := fun args => ((workerFound plainHttpd removedNode (some idleProxy) args).2, knownNode removedNode args))
    (b := (0, none)) (by decide +kernel)
  rw [Prod.mk.injEq] at hargs
  refine ⟨args, (processConfig_repaired_iff plainHttpd Mconf.default 1 removedNode (some idleProxy) _ args
    removedNode_idsOk hparse (by decide +kernel) ⟨?_, ?_⟩).mpr (Or.inr ⟨0, _, hargs.1, rfl, rfl⟩)⟩
  · rw [hargs.1]
    decide
  · rw [hargs.2]
    simp

/-- Once the slot is free, the worker stays without an index. -/
theorem config_readded_not_repaired :
    ¬ ∀ (httpd : Httpd) (mconf : Mconf) (now : Int) (ts : Tables) (px : Option Proxy) (argv : Argv)
        (args : ConfigArgs), IdsOk ts → parseConfig httpd mconf argv = .ok args →
          (processConfig httpd mconf now ts px argv).outcome = .done → NotOk httpd ts px args →
            Repaired httpd ts px args (processConfig httpd mconf now ts px argv) := by
  intro h
  obtain ⟨args, hparse, hargs⟩ := exists_of_map_ok (x := parseConfig plainHttpd Mconf.default
      (Argv.ofTokens [ascii "JVMRoute", ascii "node1"]))
    (f := fun args => (workerFound plainHttpd (emptyTables ⟨1, 1, 1, 1, 1⟩) (some idleProxy) args,
      knownNode (emptyTables ⟨1, 1, 1, 1, 1⟩) args))
    (b := ((some ⟨0, 0, 0⟩, 0), none)) (by decide +kernel)
  rw [Prod.mk.injEq] at hargs
  obtain ⟨r, p, w, i, n, hr, hp, hw, -, -, -, hindex, -⟩ :=
    h plainHttpd Mconf.default 1 (emptyTables ⟨1, 1, 1, 1, 1⟩) (some idleProxy) _ args
      (idsOk_empty _) hparse (by decide +kernel) ⟨by rw [hargs.1]; decide, by rw [hargs.2]; simp⟩
  have hafter : ((processConfig plainHttpd Mconf.default 1 (emptyTables ⟨1, 1, 1, 1, 1⟩) (some idleProxy)
      (Argv.ofTokens [ascii "JVMRoute", ascii "node1"])).proxy.bind (·.worker? ⟨0, 0, 0⟩)).map
        (fun w => (w.area (processConfig plainHttpd Mconf.default 1 (emptyTables ⟨1, 1, 1, 1, 1⟩)
          (some idleProxy) (Argv.ofTokens [ascii "JVMRoute", ascii "node1"])).tables).index) = some (-1) := by
    decide +kernel
  rw [hargs.1] at hr
  cases hr
  rw [hp, Option.bind_some, hw, Option.map_some, hindex, Option.some.injEq] at hafter
  omega

end ModCluster
