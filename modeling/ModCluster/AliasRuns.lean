import ModCluster.Aliases
import ModCluster.ConfigAtomic

/-!
# Aliases over runs of messages

The slot in which CONFIG stores its node decides which hosts its aliases meet. When
they fit in every step of a run, aliases and vhosts of all nodes stay in bijection.
-/

open CString Slotmem Slotmem.Table

namespace ModCluster

variable {ts : Tables} {now : Int}

/-! ## The slot of the node -/

/-- Where a node goes that is new in every respect. -/
def freeNodeSlot (ts : Tables) (px : Option Proxy) : Option Nat :=
  if proxyNodeGetFreeId ts px ts.nodes.size = -1 then ts.nodes.grab.map (·.1)
  else ts.nodes.dptr (proxyNodeGetFreeId ts px ts.nodes.size)

/-- The slot CONFIG stores the node in. -/
def targetSlot (httpd : Httpd) (ts : Tables) (px : Option Proxy) (args : ConfigArgs) : Option Nat :=
  if (workerFound httpd ts px args).2 = -1 then
    match findNodeByhostport ts.nodes args.node.mess.host args.node.mess.port with
    | some j =>
      if (ts.nodes.peek j).mess.jvmRoute = REMOVED then some j else (knownNode ts args).or (some j)
    | none => (knownNode ts args).or (freeNodeSlot ts px)
  else (knownNode ts args).or (ts.nodes.dptr (workerFound httpd ts px args).2)

section Target

variable {httpd : Httpd} {px : Option Proxy} {args : ConfigArgs} {plan : Plan} {nodes : Table Nodeinfo}
  {nodeinfo : Nodeinfo} {id : Int} (hok : IdsOk ts) (hargs : ArgsOk args)

include hok hargs

/-- The known node has Host and Port of the message, so the first slot that has them
does not come after it. -/
theorem hostPort_le_known (hadm : Admitted ts args) {j k : Nat}
    (hj : findNodeByhostport ts.nodes args.node.mess.host args.node.mess.port = some j)
    (hk : knownNode ts args = some k) : j ≤ k := by
  have hsame := hadm.1
  rw [hk] at hsame
  rw [knownNode_eq hok.nodes hargs.id] at hk
  obtain ⟨n, hn, -, -⟩ := first_eq_some hk
  obtain ⟨mid, hmess⟩ := messageNode_mess hok.nodes hargs.id
  simp only [isOtherNode, peek_of_used hn, Bool.not_eq_false', isSameNode, Bool.and_eq_true, beq_iff_eq,
    hmess] at hsame
  obtain ⟨⟨⟨⟨⟨⟨-, hhost⟩, hport⟩, -⟩, -⟩, -⟩, -⟩ := hsame
  rw [findNodeByhostport_eq hok.nodes] at hj
  obtain ⟨a, -, -, hmin⟩ := first_eq_some hj
  by_contra hlt
  have hfalse := hmin k n (by omega) hn
  have htrue : hasHostPort args.node.mess.host args.node.mess.port n = true := by
    rw [hasHostPort, hhost, hport, truncate, truncate, List.take_of_length_le hargs.host,
      List.take_of_length_le hargs.port]
    simp
  rw [htrue] at hfalse
  cases hfalse

theorem revived_first (hadm : Admitted ts args) {j : Nat}
    (hj : findNodeByhostport ts.nodes args.node.mess.host args.node.mess.port = some j) :
    (revive ts.nodes j args.node.mess.jvmRoute).first (hasRoute args.node.mess.jvmRoute) = some j := by
  obtain ⟨a, ha, -⟩ := hostPort_used hok hj
  refine first_eq_some_of (used_poke_self _ ha) (hasRoute_iff.mpr rfl) fun l b hlt hb => ?_
  rw [revive, used_poke_ne _ (by omega)] at hb
  by_contra hroute
  obtain ⟨k, hk⟩ := first_of_used hb (eq_true_of_ne_false hroute)
  obtain ⟨c, hc, hroutec, hmin⟩ := first_eq_some hk
  have hle := hostPort_le_known hok hargs hadm hj ((knownNode_eq hok.nodes hargs.id).trans hk)
  have := hmin l b (by omega) hb
  exact hroute this

theorem stored_target (hadm : Admitted ts args) (hgo : checkConfig httpd ts px args = .go plan)
    (hn : insertUpdateNode now plan.nodes plan.nodeinfo plan.id plan.clean = some (nodes, nodeinfo, id)) :
    ∃ k, targetSlot httpd ts px args = some k ∧ id = k := by
  have hroute := messageNode_jvmRoute hok hargs
  have hknown := knownNode_eq hok.nodes hargs.id
  have hcheck := checkConfig_ok False httpd ts px args (by rw [← messageNode, hroute]; exact hargs.route)
  rw [hgo] at hcheck
  have hids := (hcheck.1.idsOk hok).nodes
  have hplanned := checkConfig_planned hadm hgo
  have hrouteP := hplanned.jvmRoute hok hargs
  unfold targetSlot
  -- The target of the insert, once the nodes it starts from are known.
  have hcases := insertUpdateNode_cases hn
  rw [hrouteP] at hcases
  cases hplanned with
  | same hid hsome hnodes hinfo =>
    rw [if_neg hid]
    obtain ⟨k, hk⟩ := Option.isSome_iff_exists.mp hsome
    rw [hnodes, ← hknown, hk] at hcases
    rcases hcases with ⟨i, a, hi, ha, -, -, rfl⟩ | ⟨i, hi, -⟩
    · cases hi
      rw [hk]
      exact ⟨k, rfl, hok.nodes k a ha⟩
    · cases hi
  | hostPort hid hgo' =>
    rw [if_pos hid]
    unfold checkHostPort at hgo'
    rw [messageNode_hostPort hok hargs] at hgo'
    cases hgo'
    simp only [hroute] at hcases hids
    cases hw : findNodeByhostport ts.nodes args.node.mess.host args.node.mess.port with
    | none =>
      simp only [hw, reviveRemoved, workerNodeId, if_true] at hcases
      rw [← hknown] at hcases
      rcases hcases with ⟨i, a, hi, ha, -, -, rfl⟩ | ⟨i, hi, hlt, -, -, rfl, htarget⟩
      · rw [hi]
        exact ⟨i, rfl, hok.nodes i a ha⟩
      · rw [hi]
        refine ⟨i, ?_, rfl⟩
        simp only [Option.none_or, freeNodeSlot]
        rcases htarget with ⟨hfree, -, hgrab⟩ | hfree
        · rw [if_pos hfree]
          exact hgrab
        · rw [hfree, if_neg (by omega)]
          exact dptr_ofNat hlt
    | some j =>
      obtain ⟨a, ha, hidj⟩ := hostPort_used hok hw
      have hjid : workerNodeId ts.nodes (some j) = j := by
        rw [workerNodeId, peek_of_used ha, hidj]
      simp only [hw, hjid, reviveRemoved, if_neg (show ¬ (j : Int) = -1 by omega)] at hcases hids
      simp only
      split
      · rename_i hold
        rw [if_pos hold] at hids
        rw [if_pos hold, revived_first hok hargs hadm hw] at hcases
        rcases hcases with ⟨i, b, hi, hb, -, -, rfl⟩ | ⟨i, hi, -⟩
        · cases hi
          exact ⟨j, rfl, hids j b hb⟩
        · cases hi
      · rename_i hold
        rw [if_neg hold, ← hknown] at hcases
        rcases hcases with ⟨i, b, hi, hb, -, -, rfl⟩ | ⟨i, hi, -, -, -, rfl, htarget⟩
        · rw [hi]
          exact ⟨i, rfl, hok.nodes i b hb⟩
        · rw [hi]
          refine ⟨j, rfl, ?_⟩
          rcases htarget with ⟨hneg, -⟩ | heq
          · omega
          · exact heq.symm
  | worker hid hnodes hmess hplan =>
    rw [if_neg hid]
    rw [hnodes] at hids
    rw [hnodes, hplan, hroute] at hcases
    rw [hroute] at hids
    cases hk : knownNode ts args with
    | some k =>
      have hw : workerNode ts.nodes (some k) (workerFound httpd ts px args).2 = none := rfl
      rw [hk, hw, renameRemoved, ← hknown, hk] at hcases
      rcases hcases with ⟨i, a, hi, ha, -, -, rfl⟩ | ⟨i, hi, -⟩
      · cases hi
        exact ⟨k, rfl, hok.nodes k a ha⟩
      · cases hi
    | none =>
      rw [hk] at hcases hids
      simp only [Option.none_or]
      rcases hcases with ⟨i, a, hi, ha, -, -, rfl⟩ | ⟨i, hi, hlt, -, -, rfl, htarget⟩
      · -- Only the renamed slot can have the route.
        obtain ⟨a', ha', hra, -⟩ := first_eq_some hi
        rw [ha, Option.some.injEq] at ha'
        subst ha'
        have hidi := hids i a ha
        refine ⟨i, ?_, hidi⟩
        have hnone := first_eq_none.mp (hknown.symm.trans hk)
        cases hw : workerNode ts.nodes none (workerFound httpd ts px args).2 with
        | none =>
          rw [hw, renameRemoved] at ha
          rw [hnone i a ha] at hra
          cases hra
        | some l =>
          obtain ⟨-, hidl, hlt⟩ := (workerNode_eq_some hid).mp hw
          rw [hw] at ha
          simp only [renameRemoved] at ha
          split at ha
          · rcases used_of_poke ha with ⟨rfl, -⟩ | ⟨-, ha'⟩
            · rw [hidl]
              exact dptr_ofNat hlt
            · rw [hnone i a ha'] at hra
              cases hra
          · rw [hnone i a ha] at hra
            cases hra
      · refine ⟨i, ?_, rfl⟩
        rcases htarget with ⟨hneg, -⟩ | heq
        · exact absurd hneg hid
        · rw [heq]
          exact dptr_ofNat (by rw [size_renameRemoved] at hlt; exact hlt)

end Target

/-! ## Runs of messages -/

/-- If CONFIG gets as far as its aliases, they fit the hosts of the node's slot. -/
def ConfigFits (httpd : Httpd) (mconf : Mconf) (ts : Tables) (px : Option Proxy) (argv : Argv) : Prop :=
  ∀ args k, parseConfig httpd mconf argv = .ok args → Admitted ts args →
    BalancerFits ts args.balancer.balancer → targetSlot httpd ts px args = some k →
      AliasesFit ts.hosts k args.aliases 1

/-- A message of the protocol that changes the tables. When `fits` holds, every CONFIG
fits. -/
inductive MessageStep (httpd : Httpd) (fits : Prop) : Tables → Tables → Prop
  | config {ts : Tables} (mconf : Mconf) (now : Int) (px : Option Proxy) (argv : Argv)
      (hfit : fits → ConfigFits httpd mconf ts px argv) :
      MessageStep httpd fits ts (processConfig httpd mconf now ts px argv).tables
  | app {ts : Tables} (now : Int) (filename : Str) (argv : Argv) (cmd : ContextStatus) :
      MessageStep httpd fits ts (processAppCmd httpd now ts filename argv cmd).tables

def MessageReachable (httpd : Httpd) (fits : Prop) (ts : Tables) : Prop :=
  ∃ sz, Relation.ReflTransGen (MessageStep httpd fits) (emptyTables sz) ts

/-- One host record for each alias of a node, and one alias for each vhost. -/
def AliasesBijective (m : Table Hostinfo) : Prop :=
  (∀ i j x y, m.used i = some x → m.used j = some y → x.node = y.node → x.host = y.host → i = j) ∧
    ∀ i j x y, m.used i = some x → m.used j = some y → x.node = y.node → x.host ≠ y.host → x.vhost ≠ y.vhost

theorem NoClash.bijective {m : Table Hostinfo} (h : NoClash m) : AliasesBijective m := by
  constructor
  · intro i j x y hx hy hnode hhost
    by_contra hij
    exact (h i j x y hx hy hij hnode).1 hhost
  · intro i j x y hx hy hnode hhost
    have hij : i ≠ j := by
      rintro rfl
      rw [hx, Option.some.injEq] at hy
      exact hhost (by rw [hy])
    exact (h i j x y hx hy hij hnode).2

theorem processConfig_noClash (httpd : Httpd) (mconf : Mconf) (now : Int) (px : Option Proxy) (argv : Argv)
    (hok : IdsOk ts) (hclash : NoClash ts.hosts) (hfit : ConfigFits httpd mconf ts px argv) :
    NoClash (processConfig httpd mconf now ts px argv).tables.hosts := by
  unfold processConfig
  cases hparse : parseConfig httpd mconf argv with
  | error e => exact hclash
  | ok args =>
    have hargs := parseConfig_argsOk hparse
    simp only
    cases hgo : checkConfig httpd ts px args with
    | fail e => exact hclash
    | abort nodes => exact hclash
    | go plan =>
      have hadm : Admitted ts args := by
        by_contra hadm
        obtain ⟨e, he⟩ := checkConfig_denied hadm
        rw [hgo] at he
        cases he
      simp only
      have hcommit := commitConfig_committed now ts px args plan
      generalize commitConfig now ts px args plan = res at hcommit ⊢
      cases hcommit with
      | noBalancer hb => exact hclash
      | noNode balancers b hb hn => exact hclash
      | aborted balancers b nodes nodeinfo id hb hn hp => exact hclash
      | stored balancers b nodes nodeinfo id ts' px' r hb hn hp hr =>
        obtain ⟨k, htarget, rfl⟩ := stored_target hok hargs hadm hgo hn
        have hbal : BalancerFits ts args.balancer.balancer := by
          rw [← messageBalancer_name hok hargs, ← insertUpdateBalancer_isSome_iff, hb]
          rfl
        have hhosts := pairWorker_hosts hp
        subst hr
        refine addAliases_noClash args.aliases ?_ ?_
        · rw [show (incVersionNode ts').hosts = ts.hosts from hhosts]
          exact hfit args k hparse hadm hbal htarget
        · rw [show (incVersionNode ts').hosts = ts.hosts from hhosts]
          exact hclash

theorem MessageStep.step {fits : Prop} {httpd : Httpd} {ts' : Tables} (h : MessageStep httpd fits ts ts') :
    Step httpd False ts ts' := by
  cases h with
  | config mconf now px argv hfit => exact Step.config mconf now px argv False.elim
  | app now filename argv cmd => exact Step.app now filename argv cmd False.elim

theorem MessageReachable.invariants {httpd : Httpd} (h : MessageReachable httpd True ts) :
    Reachable httpd False ts ∧ NoClash ts.hosts := by
  obtain ⟨sz, h⟩ := h
  induction h with
  | refl =>
    refine ⟨Reachable.empty sz, ?_⟩
    intro i j x y hx
    simp [emptyTables, used_empty] at hx
  | tail _ hstep ih =>
    obtain ⟨hreach, hclash⟩ := ih
    refine ⟨hreach.step hstep.step, ?_⟩
    cases hstep with
    | config mconf now px argv hfit =>
      exact processConfig_noClash httpd mconf now px argv hreach.idsOk hclash (hfit trivial)
    | app now filename argv cmd => exact processAppCmd_noClash httpd now filename argv cmd hreach.idsOk hclash

/-- As long as every CONFIG fits the hosts that are there, the aliases of a node and
its vhosts stay in bijection. -/
theorem reachable_aliasesBijective (httpd : Httpd) (ts : Tables) (h : MessageReachable httpd True ts) :
    AliasesBijective ts.hosts :=
  h.invariants.2.bijective

/-- The tables after one CONFIG with the aliases "aa" and "bb". -/
def twoAliases : Tables :=
  (processConfig plainHttpd Mconf.default 0 (emptyTables ⟨1, 4, 4, 1, 1⟩) none
    (Argv.ofTokens [ascii "JVMRoute", ascii "node1", ascii "Alias", ascii "aa,bb", ascii "Context",
      ascii "/app"])).tables

theorem twoAliases_bijective :
    twoAliases.hosts.records.map (fun x => (x.host, x.vhost)) = [(ascii "aa", 1), (ascii "bb", 2)] ∧
      AliasesBijective twoAliases.hosts := by
  refine ⟨by decide +kernel, reachable_aliasesBijective plainHttpd twoAliases
    ⟨⟨1, 4, 4, 1, 1⟩, Relation.ReflTransGen.single (MessageStep.config _ _ _ _ fun _ => ?_)⟩⟩
  intro args k hparse _ _ htarget
  obtain ⟨args', hparse', hd⟩ := exists_of_map_ok (x := parseConfig plainHttpd Mconf.default
      (Argv.ofTokens [ascii "JVMRoute", ascii "node1", ascii "Alias", ascii "aa,bb", ascii "Context", ascii "/app"]))
    (f := fun args => (args.aliases, targetSlot plainHttpd (emptyTables ⟨1, 4, 4, 1, 1⟩) none args))
    (b := ([ascii "aa", ascii "bb"], some 0)) (by decide +kernel)
  rw [hparse, Except.ok.injEq] at hparse'
  subst hparse'
  rw [Prod.mk.injEq, htarget, Option.some.injEq] at hd
  obtain ⟨haliases, rfl⟩ := hd
  rw [haliases]
  constructor
  · decide +kernel
  · intro a _ j y hy
    simp [emptyTables, used_empty] at hy

/-- A second CONFIG that lists the aliases the other way round gives each of them a
second record. -/
theorem aliases_swapped_not_bijective :
    ¬ ∀ (httpd : Httpd) (ts : Tables), MessageReachable httpd False ts → AliasesBijective ts.hosts := by
  intro h
  have hbij := h plainHttpd
    (processConfig plainHttpd Mconf.default 1 twoAliases none
      (Argv.ofTokens [ascii "JVMRoute", ascii "node1", ascii "Alias", ascii "bb,aa", ascii "Context",
        ascii "/app"])).tables
    ⟨⟨1, 4, 4, 1, 1⟩, (Relation.ReflTransGen.single (MessageStep.config _ _ _ _ False.elim)).tail
      (MessageStep.config _ _ _ _ False.elim)⟩
  have h03 : (0 : Nat) = 3 := hbij.1 0 3 _ _ rfl rfl (by decide +kernel) (by decide +kernel)
  omega

end ModCluster
