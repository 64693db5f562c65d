import ModCluster.ConfigSpec
import ModCluster.Run

/-!
# What CONFIG does to other nodes

A CONFIG message is meant for the node with its JVMRoute. It keeps all other nodes
that are not being removed, except when it takes the slot of one of them: the slot
of its worker when that slot carries the reserved name, or the first slot with its
Host and Port.
-/

open CString Slotmem Slotmem.Table

namespace ModCluster

/-! ## Statement -/

/-- What must not change in the record of another node. -/
structure SameIdentity (a n : Nodeinfo) : Prop where
  jvmRoute : n.mess.jvmRoute = a.mess.jvmRoute
  balancer : n.mess.balancer = a.mess.balancer
  host : n.mess.host = a.mess.host
  port : n.mess.port = a.mess.port
  type : n.mess.type = a.mess.type

/-- Every node that is not being removed and that the message does not name stays
where it is. A message that cannot be read names no node. -/
def KeepsOthers (httpd : Httpd) (mconf : Mconf) (argv : Argv) (ts ts' : Tables) : Prop :=
  ∀ i n, ts.nodes.used i = some n → n.mess.remove = false →
    (∀ args, parseConfig httpd mconf argv = .ok args → n.mess.jvmRoute ≠ args.node.mess.jvmRoute) →
    ∃ n', ts'.nodes.used i = some n' ∧ SameIdentity n n'

/-- Slot `i` holds a node other than the message's that is not being removed. -/
def OtherAt (ts : Tables) (args : ConfigArgs) (i : Nat) (n : Nodeinfo) : Prop :=
  ts.nodes.used i = some n ∧ n.mess.remove = false ∧ n.mess.jvmRoute ≠ args.node.mess.jvmRoute

/-- The message takes the slot of another node. -/
inductive TakesSlot (httpd : Httpd) (ts : Tables) (px : Option Proxy) (args : ConfigArgs) (i : Nat)
    (n : Nodeinfo) : Prop
  /-- It is the slot of the message's worker, and the other node is called "REMOVED". -/
  | worker (hid : (workerFound httpd ts px args).2 = i) (hnew : knownNode ts args = none)
      (hroute : n.mess.jvmRoute = REMOVED)
  /-- No worker is found, and the slot is the first with Host and Port of the message. -/
  | hostPort (hid : (workerFound httpd ts px args).2 = -1)
      (hfirst : findNodeByhostport ts.nodes args.node.mess.host args.node.mess.port = some i)
      (htaken : n.mess.jvmRoute = REMOVED ∨
        knownNode ts args = none ∧ BalancerFits ts args.balancer.balancer)

def Overwrites (httpd : Httpd) (mconf : Mconf) (ts : Tables) (px : Option Proxy) (argv : Argv) : Prop :=
  ∃ args, parseConfig httpd mconf argv = .ok args ∧ Admitted ts args ∧
    ∃ i n, OtherAt ts args i n ∧ TakesSlot httpd ts px args i n

/-! ## The commit phase -/

variable {httpd : Httpd} {ts : Tables} {px : Option Proxy} {args : ConfigArgs} {now : Int} {plan : Plan}
  {r : ConfigResult} {i : Nat} {n : Nodeinfo}

theorem SameIdentity.of_mess {n' : Nodeinfo} (h : n'.mess = n.mess) : SameIdentity n n' := by
  constructor <;> rw [h]

theorem Committed.keeps (h : Committed now ts px args plan r)
    (hremoved : plan.removed ≠ -1 → plan.id = plan.removed ∧ ∃ i, plan.nodes.dptr plan.id = some i)
    (hn : plan.nodes.used i = some n) (hroute : n.mess.jvmRoute ≠ plan.nodeinfo.mess.jvmRoute)
    (hslot : plan.nodes.first (hasRoute plan.nodeinfo.mess.jvmRoute) = none →
      BalancerFits ts (messageBalancer ts args).balancer → plan.id ≠ i) :
    ∃ n', r.tables.nodes.used i = some n' ∧ n'.mess = n.mess := by
  -- The insert leaves the record alone: its target is the known node, a free slot or another slot.
  have hkeep : ∀ {balancers b nodes nodeinfo id},
      insertUpdateBalancer now ts.balancers (messageBalancer ts args) = some (balancers, b) →
      insertUpdateNode now plan.nodes plan.nodeinfo plan.id plan.clean = some (nodes, nodeinfo, id) →
      nodes.used i = some n := by
    intro balancers b nodes nodeinfo id hb hins
    rcases insertUpdateNode_cases hins with ⟨k, a, hf, ha, rfl, -⟩ | ⟨k, hf, hlt, rfl, -, -, htarget⟩
    · obtain ⟨a', ha', hkey, -⟩ := first_eq_some hf
      have hki : k ≠ i := by
        rintro rfl
        rw [hn, Option.some.injEq] at ha'
        exact hroute (ha' ▸ hasRoute_iff.mp hkey)
      rw [used_poke_ne _ hki]
      exact hn
    · have hki : k ≠ i := by
        rintro rfl
        rcases htarget with ⟨-, hfree, -⟩ | hid
        · rw [hn] at hfree
          cases hfree
        · refine hslot hf ((insertUpdateBalancer_isSome_iff now).mp ?_) hid
          rw [hb]
          rfl
      rw [used_store_ne _ hki]
      exact hn
  cases h with
  | noBalancer hb => exact ⟨n, hn, rfl⟩
  | noNode balancers b hb hnone =>
    rw [rollback_nodes hremoved hnone]
    exact ⟨n, hn, rfl⟩
  | aborted balancers b nodes nodeinfo id hb hins hp => exact ⟨n, hkeep hb hins, rfl⟩
  | stored balancers b nodes nodeinfo id ts' px' r hb hins hp hr =>
    subst hr
    rw [addAliases_nodes]
    exact pairWorker_nodes hp (hkeep hb hins)

theorem Committed.keeps_route (h : Committed now ts px args plan r)
    (hremoved : plan.removed ≠ -1 → plan.id = plan.removed ∧ ∃ i, plan.nodes.dptr plan.id = some i)
    (hn : plan.nodes.used i = some n) (hroute : n.mess.jvmRoute = plan.nodeinfo.mess.jvmRoute) :
    ∃ n', r.tables.nodes.used i = some n' ∧ n'.mess.jvmRoute = plan.nodeinfo.mess.jvmRoute := by
  have hkeep : ∀ {nodes nodeinfo id},
      insertUpdateNode now plan.nodes plan.nodeinfo plan.id plan.clean = some (nodes, nodeinfo, id) →
      ∃ n', nodes.used i = some n' ∧ n'.mess.jvmRoute = plan.nodeinfo.mess.jvmRoute := by
    intro nodes nodeinfo id hins
    rcases insertUpdateNode_cases hins with ⟨k, a, hf, ha, rfl, -⟩ | ⟨k, hf, hlt, rfl, -⟩
    · refine ⟨_, used_poke_of _ hn, ?_⟩
      split
      · rfl
      · exact hroute
    · refine ⟨_, used_store_of _ hn, ?_⟩
      split
      · rfl
      · exact hroute
  cases h with
  | noBalancer hb => exact ⟨n, hn, hroute⟩
  | noNode balancers b hb hnone =>
    rw [rollback_nodes hremoved hnone]
    exact ⟨n, hn, hroute⟩
  | aborted balancers b nodes nodeinfo id hb hins hp => exact hkeep hins
  | stored balancers b nodes nodeinfo id ts' px' r hb hins hp hr =>
    subst hr
    obtain ⟨n₁, hn₁, hr₁⟩ := hkeep hins
    obtain ⟨n₂, hn₂, hr₂⟩ := pairWorker_nodes hp hn₁
    rw [addAliases_nodes]
    exact ⟨n₂, hn₂, by rw [hr₂, hr₁]⟩

theorem Committed.overwrites (h : Committed now ts px args plan r)
    (hnew : plan.nodes.first (hasRoute plan.nodeinfo.mess.jvmRoute) = none)
    (hfits : BalancerFits ts (messageBalancer ts args).balancer) (hid : plan.id = i) (hlt : i < plan.nodes.size) :
    ∃ n', r.tables.nodes.used i = some n' ∧ n'.mess.jvmRoute = plan.nodeinfo.mess.jvmRoute := by
  have hstored : ∀ {nodes nodeinfo id},
      insertUpdateNode now plan.nodes plan.nodeinfo plan.id plan.clean = some (nodes, nodeinfo, id) →
      ∃ n', nodes.used i = some n' ∧ n'.mess.jvmRoute = plan.nodeinfo.mess.jvmRoute := by
    intro nodes nodeinfo id hins
    rcases insertUpdateNode_cases hins with ⟨k, a, hf, -⟩ | ⟨k, -, hlt', rfl, -, -, htarget⟩
    · rw [hnew] at hf
      cases hf
    · have hki : k = i := by omega
      subst hki
      exact ⟨_, used_store_self _ hlt', rfl⟩
  cases h with
  | noBalancer hb =>
    have hsome := (insertUpdateBalancer_isSome_iff now).mpr hfits
    rw [hb] at hsome
    cases hsome
  | noNode balancers b hb hnone =>
    rcases (insertUpdateNode_eq_none.mp hnone).2 with ⟨hid', -⟩ | ⟨-, hd⟩
    · omega
    · rw [hid, dptr_ofNat hlt] at hd
      cases hd
  | aborted balancers b nodes nodeinfo id hb hins hp => exact hstored hins
  | stored balancers b nodes nodeinfo id ts' px' r hb hins hp hr =>
    subst hr
    obtain ⟨n₁, hn₁, hr₁⟩ := hstored hins
    obtain ⟨n₂, hn₂, hr₂⟩ := pairWorker_nodes hp hn₁
    rw [addAliases_nodes]
    exact ⟨n₂, hn₂, by rw [hr₂, hr₁]⟩

/-! ## The check phase -/

section Check

variable (hok : IdsOk ts) (hargs : ArgsOk args)

include hok

theorem hostPort_used {k : Nat}
    (h : findNodeByhostport ts.nodes args.node.mess.host args.node.mess.port = some k) :
    ∃ a, ts.nodes.used k = some a ∧ a.mess.id = k := by
  rw [findNodeByhostport_eq hok.nodes] at h
  obtain ⟨a, ha, -, -⟩ := first_eq_some h
  exact ⟨a, ha, hok.nodes k a ha⟩

include hargs

theorem messageNode_jvmRoute : (messageNode ts args).mess.jvmRoute = args.node.mess.jvmRoute := by
  obtain ⟨id, h⟩ := messageNode_mess hok.nodes hargs.id
  rw [h]

theorem messageNode_hostPort :
    findNodeByhostport ts.nodes (messageNode ts args).mess.host (messageNode ts args).mess.port =
      findNodeByhostport ts.nodes args.node.mess.host args.node.mess.port := by
  obtain ⟨id, h⟩ := messageNode_mess hok.nodes hargs.id
  rw [h]

theorem messageBalancer_name : (messageBalancer ts args).balancer = args.balancer.balancer :=
  readBalancer_name hok.balancers hargs.balancerId

theorem checkHostPort_keeps (hother : OtherAt ts args i n)
    (hid : (workerFound httpd ts px args).2 = -1) (hno : ¬ TakesSlot httpd ts px args i n)
    (hplan : checkHostPort ts px (messageNode ts args) = .go plan) :
    plan.nodes.used i = some n ∧
      (plan.nodes.first (hasRoute args.node.mess.jvmRoute) = none →
        BalancerFits ts args.balancer.balancer → plan.id ≠ i) := by
  obtain ⟨hn, -, hroute⟩ := hother
  unfold checkHostPort at hplan
  rw [messageNode_hostPort hok hargs] at hplan
  simp only [Checked.go.injEq] at hplan
  subst hplan
  cases hw : findNodeByhostport ts.nodes args.node.mess.host args.node.mess.port with
  | none =>
    refine ⟨hn, fun _ _ => ?_⟩
    simp only [reviveRemoved, workerNodeId, if_true]
    exact proxyNodeGetFreeId_free hok.nodes hn
  | some k =>
    obtain ⟨a, ha, hidk⟩ := hostPort_used hok hw
    have hkid : workerNodeId ts.nodes (some k) = k := by
      rw [workerNodeId, peek_of_used ha, hidk]
    simp only [hkid, reviveRemoved, if_neg (show ¬ (k : Int) = -1 by omega)]
    by_cases hki : k = i
    · -- The node itself has Host and Port of the message, so its slot must not be taken.
      subst hki
      have hne : n.mess.jvmRoute ≠ REMOVED := fun h => hno (TakesSlot.hostPort hid hw (Or.inl h))
      rw [if_neg (by rw [peek_of_used hn]; exact hne)]
      refine ⟨hn, fun hnew hfits => absurd (TakesSlot.hostPort hid hw (Or.inr ⟨?_, hfits⟩)) hno⟩
      rw [knownNode_eq hok.nodes hargs.id]
      exact hnew
    · refine ⟨?_, fun _ _ => by omega⟩
      split
      · rw [revive, used_poke_ne _ hki]
        exact hn
      · exact hn

theorem checkWorker_keeps (hnamed : Named ts) (hother : OtherAt ts args i n) {id : Int}
    (hfound : (workerFound httpd ts px args).2 = id) (hid : id ≠ -1)
    (hno : ¬ TakesSlot httpd ts px args i n) :
    isTaken ts.nodes args.node.mess.jvmRoute (workerNode ts.nodes (knownNode ts args) id) = true ∨
      (renameRemoved ts.nodes args.node.mess.jvmRoute (workerNode ts.nodes (knownNode ts args) id)).used i =
        some n ∧
      ((renameRemoved ts.nodes args.node.mess.jvmRoute (workerNode ts.nodes (knownNode ts args) id)).first
          (hasRoute args.node.mess.jvmRoute) = none → id ≠ i) := by
  obtain ⟨hn, -, hroute⟩ := hother
  cases hw : workerNode ts.nodes (knownNode ts args) id with
  | none =>
    refine Or.inr ⟨hn, fun hnew hidi => ?_⟩
    have hknown : knownNode ts args = none := by
      rw [knownNode_eq hok.nodes hargs.id]
      exact hnew
    have hsome := (workerNode_eq_some hid).mpr ⟨hknown, hidi, used_lt hn⟩
    rw [hw] at hsome
    cases hsome
  | some k =>
    obtain ⟨hknown, hidk, hlt⟩ := (workerNode_eq_some hid).mp hw
    by_cases hki : k = i
    · -- The worker's slot is the other node's: its name is not reserved, so the message is refused.
      subst hki
      have hne : n.mess.jvmRoute ≠ REMOVED :=
        fun h => hno (TakesSlot.worker (by rw [hfound, hidk]) hknown h)
      left
      simp only [isTaken, peek_of_used hn, Bool.and_eq_true, bne_iff_ne]
      exact ⟨⟨hne, hnamed k n hn⟩, hroute⟩
    · refine Or.inr ⟨?_, fun _ hidi => hki (by omega)⟩
      simp only [renameRemoved]
      split
      · rw [setJvmRoute, used_poke_ne _ hki]
        exact hn
      · exact hn

theorem processConfig_keeps (hnamed : Named ts) {mconf : Mconf} {argv : Argv}
    (hparse : parseConfig httpd mconf argv = .ok args) (hother : OtherAt ts args i n)
    (hno : Admitted ts args → ¬ TakesSlot httpd ts px args i n) :
    ∃ n', (processConfig httpd mconf now ts px argv).tables.nodes.used i = some n' ∧ n'.mess = n.mess := by
  have hn := hother.1
  have hroute := messageNode_jvmRoute hok hargs
  have hname := messageBalancer_name hok hargs
  have hcheck := checkConfig_ok False httpd ts px args (by rw [← messageNode, hroute]; exact hargs.route)
  unfold processConfig
  simp only [hparse]
  by_cases hadm : Admitted ts args
  swap
  · obtain ⟨e, he⟩ := checkConfig_denied hadm
    rw [he]
    exact ⟨n, hn, rfl⟩
  have hfree := hno hadm
  rw [checkConfig_admitted hadm] at hcheck ⊢
  by_cases hid : (workerFound httpd ts px args).2 = -1
  · rw [if_pos hid] at hcheck ⊢
    obtain ⟨plan, hplan⟩ : ∃ plan, checkHostPort ts px (messageNode ts args) = .go plan := ⟨_, rfl⟩
    obtain ⟨hused, hslot⟩ := checkHostPort_keeps hok hargs hother hid hfree hplan
    rw [hplan] at hcheck ⊢
    obtain ⟨-, hmess, hremoved⟩ := hcheck
    refine (commitConfig_committed now ts px args plan).keeps hremoved hused ?_ ?_
    · rw [hmess, ← messageNode, hroute]
      exact hother.2.2
    · rw [hmess, ← messageNode, hroute, hname]
      exact hslot
  rw [if_neg hid] at hcheck ⊢
  by_cases hsame : (knownNode ts args).isSome ∧
      workerNodeId ts.nodes (knownNode ts args) = (workerFound httpd ts px args).2
  · -- The worker's slot holds the message's own node.
    rw [if_pos hsame]
    refine (commitConfig_committed now ts px args _).keeps (fun h => absurd rfl h) hn ?_ fun hnew _ => ?_
    · rw [hroute]
      exact hother.2.2
    · simp only [hroute, ← knownNode_eq hok.nodes hargs.id] at hnew
      rw [hnew] at hsame
      cases hsame.1
  · rw [if_neg hsame] at hcheck ⊢
    have hkeep := checkWorker_keeps hok hargs hnamed hother rfl hid hfree
    unfold checkWorker at hcheck ⊢
    simp only [hroute] at hcheck ⊢
    by_cases htaken : isTaken ts.nodes args.node.mess.jvmRoute
        (workerNode ts.nodes (knownNode ts args) (workerFound httpd ts px args).2) = true
    · rw [if_pos htaken]
      exact ⟨n, hn, rfl⟩
    obtain ⟨hused, hslot⟩ := hkeep.resolve_left htaken
    rw [if_neg htaken] at hcheck ⊢
    rcases reuseWorker_cases with habort | ⟨p, r, w, -, -, -, hgo⟩
    · rw [habort]
      exact ⟨n, hused, rfl⟩
    · rw [hgo] at hcheck ⊢
      obtain ⟨-, -, hremoved⟩ := hcheck
      refine (commitConfig_committed now ts px args _).keeps hremoved hused ?_ ?_
      · simp only [hroute]
        exact hother.2.2
      · simp only [hroute]
        exact fun hnew _ => hslot hnew

theorem processConfig_takes {mconf : Mconf} {argv : Argv} (hparse : parseConfig httpd mconf argv = .ok args)
    (hadm : Admitted ts args) (hother : OtherAt ts args i n) (htakes : TakesSlot httpd ts px args i n) :
    ∃ n', (processConfig httpd mconf now ts px argv).tables.nodes.used i = some n' ∧
      n'.mess.jvmRoute = args.node.mess.jvmRoute := by
  have hn := hother.1
  have hroute := messageNode_jvmRoute hok hargs
  have hname := messageBalancer_name hok hargs
  have hcheck := checkConfig_ok False httpd ts px args (by rw [← messageNode, hroute]; exact hargs.route)
  unfold processConfig
  simp only [hparse]
  rw [checkConfig_admitted hadm] at hcheck ⊢
  cases htakes with
  | worker hid hnew hremoved =>
    have hid' : (workerFound httpd ts px args).2 ≠ -1 := by omega
    have hw : workerNode ts.nodes (knownNode ts args) (workerFound httpd ts px args).2 = some i :=
      (workerNode_eq_some hid').mpr ⟨hnew, hid, used_lt hn⟩
    have hrename : (renameRemoved ts.nodes args.node.mess.jvmRoute (some i)).used i =
        some { n with mess := { n.mess with jvmRoute := args.node.mess.jvmRoute } } := by
      rw [renameRemoved, peek_of_used hn, if_pos hremoved, setJvmRoute, used_poke_self _ hn, peek_of_used hn]
    have hfree : ¬ isTaken ts.nodes args.node.mess.jvmRoute (some i) = true := by
      simp [isTaken, peek_of_used hn, hremoved]
    rw [if_neg hid', if_neg (by rw [hnew]; simp)] at hcheck ⊢
    unfold checkWorker at hcheck ⊢
    simp only [hroute, hw, if_neg hfree] at hcheck ⊢
    rcases reuseWorker_cases with habort | ⟨p, r, w, -, -, -, hgo⟩
    · rw [habort]
      exact ⟨_, hrename, rfl⟩
    · rw [hgo] at hcheck ⊢
      obtain ⟨-, -, hrem⟩ := hcheck
      obtain ⟨n', hn', hr'⟩ := (commitConfig_committed now ts px args _).keeps_route hrem hrename hroute.symm
      exact ⟨n', hn', hr'.trans hroute⟩
  | hostPort hid hfirst htaken =>
    have hidi : workerNodeId ts.nodes (some i) = i := by
      rw [workerNodeId, peek_of_used hn]
      exact hok.nodes i n hn
    rw [if_pos hid, ← hroute]
    unfold checkHostPort
    rw [messageNode_hostPort hok hargs, hfirst]
    simp only [hidi, if_neg (show ¬ (i : Int) = -1 by omega)]
    by_cases hremoved : n.mess.jvmRoute = REMOVED
    · have hrevive : (reviveRemoved ts.nodes (messageNode ts args).mess.jvmRoute (some i)).used i =
          some { n with mess := { n.mess with
            jvmRoute := (messageNode ts args).mess.jvmRoute, remove := false, numRemoveCheck := 0 } } := by
        rw [reviveRemoved, peek_of_used hn, if_pos hremoved, revive, used_poke_self _ hn, peek_of_used hn]
      refine (commitConfig_committed now ts px args _).keeps_route (fun h => absurd rfl h) hrevive rfl
    · obtain ⟨hnew, hfits⟩ := htaken.resolve_left hremoved
      have hnodes : reviveRemoved ts.nodes (messageNode ts args).mess.jvmRoute (some i) = ts.nodes := by
        rw [reviveRemoved, peek_of_used hn, if_neg hremoved]
      rw [hnodes]
      refine (commitConfig_committed now ts px args _).overwrites ?_ ?_ rfl (used_lt hn)
      · rw [hroute, ← knownNode_eq hok.nodes hargs.id]
        exact hnew
      · rw [hname]
        exact hfits

end Check

/-! ## The theorem -/

/-- CONFIG keeps all other nodes that are not being removed exactly when it takes
the slot of none of them. -/
theorem processConfig_keepsOthers_iff (httpd : Httpd) (mconf : Mconf) (now : Int) (ts : Tables)
    (px : Option Proxy) (argv : Argv) (hreach : Reachable httpd False ts) :
    KeepsOthers httpd mconf argv ts (processConfig httpd mconf now ts px argv).tables ↔
      ¬ Overwrites httpd mconf ts px argv := by
  obtain ⟨hok, hnamed, -⟩ := hreach.invariants
  constructor
  · rintro hkeeps ⟨args, hparse, hadm, i, n, hother, htakes⟩
    have hargs := parseConfig_argsOk hparse
    obtain ⟨n', hn', hr'⟩ := processConfig_takes hok hargs hparse hadm hother htakes
    obtain ⟨n'', hn'', hsame⟩ := hkeeps i n hother.1 hother.2.1 fun args' hparse' => by
      rw [hparse, Except.ok.injEq] at hparse'
      exact hparse' ▸ hother.2.2
    rw [hn', Option.some.injEq] at hn''
    subst hn''
    exact hother.2.2 (hsame.jvmRoute.symm.trans hr')
  · intro hno i n hn hremove hroute
    cases hparse : parseConfig httpd mconf argv with
    | error e =>
      unfold processConfig
      simp only [hparse]
      exact ⟨n, hn, SameIdentity.of_mess rfl⟩
    | ok args =>
      have hother : OtherAt ts args i n := ⟨hn, hremove, hroute args hparse⟩
      obtain ⟨n', hn', hmess⟩ := processConfig_keeps hok (parseConfig_argsOk hparse) hnamed hparse
        hother fun hadm htakes => hno ⟨args, hparse, hadm, i, n, hother, htakes⟩
      exact ⟨n', hn', SameIdentity.of_mess hmess⟩

/-- A node "node1" in a balancer of its own, with the default Host and Port. -/
def nodeInPool : Tables :=
  (processConfig plainHttpd Mconf.default 0 (emptyTables ⟨2, 2, 2, 2, 2⟩) none
    (Argv.ofTokens [ascii "JVMRoute", ascii "node1", ascii "Balancer", ascii "pool1"])).tables

theorem nodeInPool_reachable : Reachable plainHttpd False nodeInPool :=
  (Reachable.empty ⟨2, 2, 2, 2, 2⟩).step (Step.config _ _ _ _ fun h => h.elim)

/-- A node on another port leaves it alone. -/
theorem nodeInPool_kept :
    KeepsOthers plainHttpd Mconf.default
      (Argv.ofTokens [ascii "JVMRoute", ascii "node2", ascii "Balancer", ascii "pool2", ascii "Port", ascii "8010"])
      nodeInPool
      (processConfig plainHttpd Mconf.default 1 nodeInPool none
        (Argv.ofTokens [ascii "JVMRoute", ascii "node2", ascii "Balancer", ascii "pool2", ascii "Port",
          ascii "8010"])).tables := by
  rw [processConfig_keepsOthers_iff _ _ _ _ _ _ nodeInPool_reachable]
  rintro ⟨args, hparse, -, i, n, -, htakes⟩
  have hd : (parseConfig plainHttpd Mconf.default (Argv.ofTokens [ascii "JVMRoute", ascii "node2",
      ascii "Balancer", ascii "pool2", ascii "Port", ascii "8010"])).map
        (fun args => (args.node.mess.host, args.node.mess.port)) = .ok (ascii "localhost", ascii "8010") := by
    decide +kernel
  rw [hparse] at hd
  simp only [Except.map, Except.ok.injEq, Prod.mk.injEq] at hd
  have hnone : findNodeByhostport nodeInPool.nodes (ascii "localhost") (ascii "8010") = none := by
    decide +kernel
  cases htakes with
  | worker hid hnew hroute =>
    have : (-1 : Int) = i := hid
    omega
  | hostPort hid hfirst htaken =>
    rw [hd.1, hd.2, hnone] at hfirst
    cases hfirst

/-- A node with the same Host and Port in another balancer takes its slot. -/
theorem config_overwrites_other :
    ¬ ∀ (httpd : Httpd) (mconf : Mconf) (now : Int) (ts : Tables) (px : Option Proxy) (argv : Argv),
      Reachable httpd False ts →
        KeepsOthers httpd mconf argv ts (processConfig httpd mconf now ts px argv).tables := by
  intro h
  have hkeeps := h plainHttpd Mconf.default 1 nodeInPool (some ⟨[⟨[]⟩]⟩)
    (Argv.ofTokens [ascii "JVMRoute", ascii "node2", ascii "Balancer", ascii "pool2"]) nodeInPool_reachable
  obtain ⟨n, hn, hremove, hroute⟩ : ∃ n, nodeInPool.nodes.used 0 = some n ∧ n.mess.remove = false ∧
      n.mess.jvmRoute = ascii "node1" := ⟨_, rfl, by decide +kernel, by decide +kernel⟩
  have hd : (parseConfig plainHttpd Mconf.default (Argv.ofTokens [ascii "JVMRoute", ascii "node2",
      ascii "Balancer", ascii "pool2"])).map (fun args => args.node.mess.jvmRoute) = .ok (ascii "node2") := by
    decide +kernel
  obtain ⟨n', hn', hsame⟩ := hkeeps 0 n hn hremove fun args hparse => by
    rw [hparse] at hd
    simp only [Except.map, Except.ok.injEq] at hd
    rw [hd, hroute]
    decide
  have hafter : ((processConfig plainHttpd Mconf.default 1 nodeInPool (some ⟨[⟨[]⟩]⟩)
      (Argv.ofTokens [ascii "JVMRoute", ascii "node2", ascii "Balancer", ascii "pool2"])).tables.nodes.used 0).map
        (·.mess.jvmRoute) = some (ascii "node2") := by decide +kernel
  rw [hn', Option.map_some, Option.some.injEq, hsame.jvmRoute, hroute] at hafter
  revert hafter
  decide

end ModCluster
