import ModCluster.NodeTable

/-!
# A CONFIG that is sent again

A node that sends its CONFIG once more, unchanged, should not disturb what httpd keeps
in the node's record for itself. The update copies the whole message over the record,
so it does: the message carries zeros there.
-/

open CString Slotmem Slotmem.Table

namespace ModCluster

/-! ## Statement -/

/-- httpd's own fields, and with them the load window `elected - oldelected`. -/
structure SameBooks (a n : Nodeinfo) : Prop where
  hasWorkers : n.mess.hasWorkers = a.mess.hasWorkers
  updatetimelb : n.mess.updatetimelb = a.mess.updatetimelb
  oldelected : n.mess.oldelected = a.mess.oldelected
  oldread : n.mess.oldread = a.mess.oldread
  stat : n.stat = a.stat

/-- The message describes the node as it is. -/
structure Unchanged (args : ConfigArgs) (n : Nodeinfo) : Prop where
  jvmRoute : n.mess.jvmRoute = args.node.mess.jvmRoute
  balancer : n.mess.balancer = args.node.mess.balancer
  host : n.mess.host = args.node.mess.host
  port : n.mess.port = args.node.mess.port
  type : n.mess.type = args.node.mess.type
  smax : n.mess.smax = args.node.mess.smax
  ttl : n.mess.ttl = args.node.mess.ttl
  remove : n.mess.remove = false

instance (args : ConfigArgs) (n : Nodeinfo) : Decidable (Unchanged args n) :=
  decidable_of_iff (n.mess.jvmRoute = args.node.mess.jvmRoute ∧ n.mess.balancer = args.node.mess.balancer ∧
      n.mess.host = args.node.mess.host ∧ n.mess.port = args.node.mess.port ∧ n.mess.type = args.node.mess.type ∧
      n.mess.smax = args.node.mess.smax ∧ n.mess.ttl = args.node.mess.ttl ∧ n.mess.remove = false)
    ⟨fun ⟨h₁, h₂, h₃, h₄, h₅, h₆, h₇, h₈⟩ => ⟨h₁, h₂, h₃, h₄, h₅, h₆, h₇, h₈⟩,
      fun ⟨h₁, h₂, h₃, h₄, h₅, h₆, h₇, h₈⟩ => ⟨h₁, h₂, h₃, h₄, h₅, h₆, h₇, h₈⟩⟩

/-- Nothing has been written into the books yet. -/
structure BlankBooks (n : Nodeinfo) : Prop where
  hasWorkers : n.mess.hasWorkers = 0
  updatetimelb : n.mess.updatetimelb = 0
  oldelected : n.mess.oldelected = 0
  oldread : n.mess.oldread = 0

/-- Slot `j` has the name of the message, or the check phase gives it that name. -/
def Carries (httpd : Httpd) (ts : Tables) (px : Option Proxy) (args : ConfigArgs) (j : Nat) : Prop :=
  ∃ a, ts.nodes.used j = some a ∧ (a.mess.jvmRoute = args.node.mess.jvmRoute ∨
    a.mess.jvmRoute = REMOVED ∧ (workerFound httpd ts px args).2 = -1 ∧
      findNodeByhostport ts.nodes args.node.mess.host args.node.mess.port = some j)

/-! ## The check phase -/

variable {httpd : Httpd} {ts : Tables} {px : Option Proxy} {args : ConfigArgs} {now : Int} {plan : Plan}
  {m m' : Table Nodeinfo} {id : Int} {i j k : Nat} {n : Nodeinfo}

theorem Prepared.sameBooks (h : Prepared httpd ts px args m id true) (hn : ts.nodes.used i = some n)
    (hroute : n.mess.jvmRoute = args.node.mess.jvmRoute) :
    ∃ n', m.used i = some n' ∧ SameBooks n n' ∧ n'.mess.jvmRoute = args.node.mess.jvmRoute := by
  cases h with
  | revived k a hid hfirst hused hname =>
    refine ⟨_, used_poke_of _ hn, ?_⟩
    split
    · rename_i hki
      subst hki
      rw [peek_of_used hn]
      exact ⟨⟨rfl, rfl, rfl, rfl, rfl⟩, rfl⟩
    · exact ⟨⟨rfl, rfl, rfl, rfl, rfl⟩, hroute⟩
  | _ => exact ⟨n, hn, ⟨rfl, rfl, rfl, rfl, rfl⟩, hroute⟩

theorem Prepared.carries_iff (hok : IdsOk ts) (h : Prepared httpd ts px args m id true) :
    Carries httpd ts px args j ↔ ∃ a, m.used j = some a ∧ a.mess.jvmRoute = args.node.mess.jvmRoute := by
  unfold Carries
  rw [findNodeByhostport_eq hok.nodes]
  cases h with
  | revived k a hid hfirst hused hname =>
    constructor
    · rintro ⟨b, hb, hroute | ⟨-, -, hj⟩⟩
      · refine ⟨_, used_poke_of _ hb, ?_⟩
        split
        · rfl
        · exact hroute
      · rw [hfirst, Option.some.injEq] at hj
        subst hj
        exact ⟨_, used_poke_self _ hb, rfl⟩
    · rintro ⟨b, hb, hroute⟩
      rcases used_of_poke hb with ⟨rfl, -, -⟩ | ⟨-, hb⟩
      · exact ⟨a, hused, Or.inr ⟨hname, hid, hfirst⟩⟩
      · exact ⟨b, hb, Or.inl hroute⟩
  | hostPort k a hid hfirst hused hname =>
    constructor
    · rintro ⟨b, hb, hroute | ⟨hb', -, hj⟩⟩
      · exact ⟨b, hb, hroute⟩
      · rw [hfirst, Option.some.injEq] at hj
        subst hj
        rw [hused, Option.some.injEq] at hb
        exact absurd (hb ▸ hb') hname
    · rintro ⟨b, hb, hroute⟩
      exact ⟨b, hb, Or.inl hroute⟩
  | unknown id hid hnone hfree hlocal =>
    constructor
    · rintro ⟨b, hb, hroute | ⟨-, -, hj⟩⟩
      · exact ⟨b, hb, hroute⟩
      · rw [hnone] at hj
        cases hj
    · rintro ⟨b, hb, hroute⟩
      exact ⟨b, hb, Or.inl hroute⟩
  | same k hid hknown =>
    constructor
    · rintro ⟨b, hb, hroute | ⟨-, hid', -⟩⟩
      · exact ⟨b, hb, hroute⟩
      · omega
    · rintro ⟨b, hb, hroute⟩
      exact ⟨b, hb, Or.inl hroute⟩

/-! ## The commit phase -/

theorem commitConfig_done_stored (hids : plan.nodes.IdsMatch (·.mess.id))
    (hmess : ∃ k, plan.nodeinfo.mess = { args.node.mess with id := k })
    (hdone : (commitConfig now ts px args plan).outcome = .done) :
    ∃ k, NodeStored now args plan.nodes plan.id plan.clean k (commitConfig now ts px args plan).tables.nodes := by
  have h := commitConfig_committed now ts px args plan
  revert h hdone
  generalize commitConfig now ts px args plan = r
  intro hdone h
  cases h with
  | noBalancer hb => cases hdone
  | noNode balancers b hb hnone => cases hdone
  | aborted balancers b nodes nodeinfo id hb hins hp => cases hdone
  | stored balancers b nodes nodeinfo id ts' px' r hb hins hp hr =>
    obtain ⟨k, rfl, hstored⟩ := insertUpdateNode_stored hids hmess hins
    have hpaired := pairWorker_stored hstored hp
    subst hr
    refine ⟨k, ?_⟩
    rw [addAliases_nodes]
    exact hpaired

theorem NodeStored.sameBooks_iff (h : NodeStored now args m id true k m') (hown : args.node.mess.OwnFields)
    (hn : m.used i = some n) (hroute : n.mess.jvmRoute = args.node.mess.jvmRoute) :
    (∃ n', m'.used i = some n' ∧ SameBooks n n') ↔
      BlankBooks n ∨ ∃ j < i, ∃ a, m.used j = some a ∧ a.mess.jvmRoute = args.node.mess.jvmRoute := by
  cases h with
  | inserted s hnew hlt hslot =>
    have hmiss := first_eq_none.mp hnew i n hn
    rw [hasRoute_iff.mpr hroute] at hmiss
    cases hmiss
  | updated a s hfirst hused hstat =>
    obtain ⟨b, hb, hbroute, hmin⟩ := first_eq_some hfirst
    rw [hused, Option.some.injEq] at hb
    subst hb
    rw [hasRoute_iff] at hbroute
    rcases Nat.lt_trichotomy k i with hlt | rfl | hgt
    · -- A lower slot is written, so the node's own record stays.
      refine iff_of_true ⟨n, ?_, ⟨rfl, rfl, rfl, rfl, rfl⟩⟩ (Or.inr ⟨k, hlt, a, hused, hbroute⟩)
      rw [used_poke_ne _ (by omega)]
      exact hn
    · rw [hused, Option.some.injEq] at hn
      subst hn
      have hfirstSlot : ¬ ∃ j < k, ∃ b, m.used j = some b ∧ b.mess.jvmRoute = args.node.mess.jvmRoute := by
        rintro ⟨j, hj, b, hb, hr⟩
        have hmiss := hmin j b hj hb
        rw [hasRoute_iff.mpr hr] at hmiss
        cases hmiss
      rw [or_iff_left hfirstSlot]
      constructor
      · rintro ⟨n', hn', hsame⟩
        rw [used_poke_self _ hused, Option.some.injEq] at hn'
        subst hn'
        exact ⟨hsame.hasWorkers.symm.trans hown.hasWorkers, hsame.updatetimelb.symm.trans hown.updatetimelb,
          hsame.oldelected.symm.trans hown.oldelected, hsame.oldread.symm.trans hown.oldread⟩
      · intro hblank
        exact ⟨_, used_poke_self _ hused, hown.hasWorkers.trans hblank.hasWorkers.symm,
          hown.updatetimelb.trans hblank.updatetimelb.symm, hown.oldelected.trans hblank.oldelected.symm,
          hown.oldread.trans hblank.oldread.symm, hstat rfl⟩
    · have hmiss := hmin i n hgt hn
      rw [hasRoute_iff.mpr hroute] at hmiss
      cases hmiss

theorem SameBooks.trans_iff {a b : Nodeinfo} (h : SameBooks a b) : SameBooks b n ↔ SameBooks a n := by
  obtain ⟨h₁, h₂, h₃, h₄, h₅⟩ := h
  constructor
  · rintro ⟨g₁, g₂, g₃, g₄, g₅⟩
    exact ⟨g₁.trans h₁, g₂.trans h₂, g₃.trans h₃, g₄.trans h₄, g₅.trans h₅⟩
  · rintro ⟨g₁, g₂, g₃, g₄, g₅⟩
    exact ⟨g₁.trans h₁.symm, g₂.trans h₂.symm, g₃.trans h₃.symm, g₄.trans h₄.symm, g₅.trans h₅.symm⟩

theorem SameBooks.blank_iff {a b : Nodeinfo} (h : SameBooks a b) : BlankBooks b ↔ BlankBooks a := by
  obtain ⟨h₁, h₂, h₃, h₄, -⟩ := h
  constructor
  · rintro ⟨g₁, g₂, g₃, g₄⟩
    exact ⟨h₁ ▸ g₁, h₂ ▸ g₂, h₃ ▸ g₃, h₄ ▸ g₄⟩
  · rintro ⟨g₁, g₂, g₃, g₄⟩
    exact ⟨h₁.trans g₁, h₂.trans g₂, h₃.trans g₃, h₄.trans g₄⟩

/-! ## The command -/

/-- A CONFIG that is sent again keeps httpd's books when these are blank, or when it
does not reach the node: a lower slot carries the same name. -/
theorem config_keeps_books_iff (httpd : Httpd) (mconf : Mconf) (now : Int) (ts : Tables) (px : Option Proxy)
    (argv : Argv) (args : ConfigArgs) (plan : Plan) (i : Nat) (n : Nodeinfo) (hreach : Reachable httpd False ts)
    (hparse : parseConfig httpd mconf argv = .ok args) (hused : ts.nodes.used i = some n)
    (hsame : Unchanged args n) (hgo : checkConfig httpd ts px args = .go plan) (hclean : plan.clean = true)
    (hdone : (processConfig httpd mconf now ts px argv).outcome = .done) :
    (∃ n', (processConfig httpd mconf now ts px argv).tables.nodes.used i = some n' ∧ SameBooks n n') ↔
      BlankBooks n ∨ ∃ j < i, Carries httpd ts px args j := by
  have hok := hreach.idsOk
  have hargs := parseConfig_argsOk hparse
  obtain ⟨-, hprep, hmess⟩ := checkConfig_prepared hok hargs hgo
  have hrun : processConfig httpd mconf now ts px argv = commitConfig now ts px args plan := by
    unfold processConfig
    simp only [hparse, hgo]
  rw [hrun] at hdone ⊢
  obtain ⟨k, hstored⟩ := commitConfig_done_stored (hprep.idsMatch hok) hmess hdone
  rw [hclean] at hprep hstored
  obtain ⟨n₁, hn₁, hbooks, hroute⟩ := hprep.sameBooks hused hsame.jvmRoute
  have hiff := hstored.sameBooks_iff (parseConfig_own hparse) hn₁ hroute
  simp only [hbooks.trans_iff, hbooks.blank_iff, ← hprep.carries_iff hok] at hiff
  exact hiff

/-- The CONFIG of the node of `oneNode`, without alias and context. -/
def plainConfig : Argv := Argv.ofTokens [ascii "JVMRoute", ascii "n1"]

def Checked.isClean : Checked → Bool
  | .go plan => plan.clean
  | _ => false

/-- The tables `ts` hold the node of `plainConfig` in slot 0, and the check is clean. -/
def resends (ts : Tables) : Except McmpError (Bool × Bool) :=
  (parseConfig plainHttpd Mconf.default plainConfig).map fun args =>
    (decide (Unchanged args (ts.nodes.peek 0)), (checkConfig plainHttpd ts none args).isClean)

theorem exists_of_resends {ts : Tables} (h : resends ts = .ok (true, true)) :
    ∃ args plan, parseConfig plainHttpd Mconf.default plainConfig = .ok args ∧ Unchanged args (ts.nodes.peek 0) ∧
      checkConfig plainHttpd ts none args = .go plan ∧ plan.clean = true := by
  obtain ⟨args, hparse, hargs⟩ := exists_of_map_ok h
  rw [Prod.mk.injEq, decide_eq_true_iff] at hargs
  obtain ⟨hsame, hclean⟩ := hargs
  cases hgo : checkConfig plainHttpd ts none args with
  | go plan =>
    rw [hgo] at hclean
    exact ⟨args, plan, hparse, hsame, hgo, hclean⟩
  | fail e =>
    rw [hgo] at hclean
    cases hclean
  | abort nodes =>
    rw [hgo] at hclean
    cases hclean

theorem oneNode_facts :
    resends oneNode = .ok (true, true) ∧ oneNode.nodes.used 0 = some (oneNode.nodes.peek 0) ∧
      (processConfig plainHttpd Mconf.default 9 oneNode none plainConfig).outcome = .done ∧
      (oneNode.nodes.peek 0).mess.hasWorkers = 0 ∧ (oneNode.nodes.peek 0).mess.updatetimelb = 0 ∧
      (oneNode.nodes.peek 0).mess.oldelected = 0 ∧ (oneNode.nodes.peek 0).mess.oldread = 0 := by
  decide +kernel

/-- A node that no process has a worker for yet may send its CONFIG again. -/
theorem oneNode_keeps_books :
    ∃ n n', oneNode.nodes.used 0 = some n ∧
      (processConfig plainHttpd Mconf.default 9 oneNode none plainConfig).tables.nodes.used 0 = some n' ∧
      SameBooks n n' := by
  obtain ⟨hresends, hused, hdone, hworkers, htime, helected, hread⟩ := oneNode_facts
  obtain ⟨args, plan, hparse, hsame, hgo, hclean⟩ := exists_of_resends hresends
  obtain ⟨n', hn', hbooks⟩ := (config_keeps_books_iff plainHttpd Mconf.default 9 oneNode none plainConfig args plan 0
    _ oneNode_reachable.loose hparse hused hsame hgo hclean hdone).mpr (Or.inl ⟨hworkers, htime, helected, hread⟩)
  exact ⟨_, n', hused, hn', hbooks⟩

/-- What httpd has written about a node that has served requests. -/
def hasServed (n : Nodeinfo) : Nodeinfo :=
  { n with mess := { n.mess with hasWorkers := 1, updatetimelb := 5, oldelected := 7, oldread := 900 } }

def servedNode : Tables := { oneNode with nodes := oneNode.nodes.poke 0 (hasServed (oneNode.nodes.peek 0)) }

theorem servedNode_reachable : Reachable plainHttpd False servedNode :=
  oneNode_reachable.loose.step (Step.bookkeeping 0 (oneNode.nodes.peek 0) (hasServed (oneNode.nodes.peek 0))
    oneNode_facts.2.1 ⟨rfl, rfl, rfl, rfl, rfl, rfl, rfl, id⟩)

theorem servedNode_facts :
    resends servedNode = .ok (true, true) ∧ servedNode.nodes.used 0 = some (servedNode.nodes.peek 0) ∧
      (processConfig plainHttpd Mconf.default 9 servedNode none plainConfig).outcome = .done ∧
      ((processConfig plainHttpd Mconf.default 9 servedNode none plainConfig).tables.nodes.used 0).map
        (·.mess.oldelected) = some 0 ∧
      (servedNode.nodes.peek 0).mess.oldelected = 7 := by
  decide +kernel

/-- A node that serves requests and sends its CONFIG again loses them. -/
theorem config_clears_books :
    ¬ ∀ (httpd : Httpd) (mconf : Mconf) (now : Int) (ts : Tables) (px : Option Proxy) (argv : Argv)
      (args : ConfigArgs) (plan : Plan) (i : Nat) (n : Nodeinfo), Reachable httpd False ts →
      parseConfig httpd mconf argv = .ok args → ts.nodes.used i = some n → Unchanged args n →
      checkConfig httpd ts px args = .go plan → plan.clean = true →
      (processConfig httpd mconf now ts px argv).outcome = .done →
      ∃ n', (processConfig httpd mconf now ts px argv).tables.nodes.used i = some n' ∧ SameBooks n n' := by
  intro h
  obtain ⟨hresends, hused, hdone, hafter, hbefore⟩ := servedNode_facts
  obtain ⟨args, plan, hparse, hsame, hgo, hclean⟩ := exists_of_resends hresends
  obtain ⟨n', hn', hbooks⟩ := h plainHttpd Mconf.default 9 servedNode none plainConfig args plan 0 _
    servedNode_reachable hparse hused hsame hgo hclean hdone
  rw [hn', Option.map_some, Option.some.injEq, hbooks.oldelected, hbefore] at hafter
  cases hafter

end ModCluster
