import ModCluster.ConfigFrame

/-!
# Two nodes that register at once

A CONFIG checks its message without the node lock and commits it under the lock. Two
requests can both check before one of them commits. The steps of each request may see
any balancers and workers: the requests may be in one process or in two.
-/

open CString Slotmem Slotmem.Table

namespace ModCluster

/-! ## The steps of two requests -/

/-- A CONFIG whose message can be read. -/
structure ConfigRequest (httpd : Httpd) where
  mconf : Mconf
  argv : Argv
  args : ConfigArgs
  parsed : parseConfig httpd mconf argv = .ok args

inductive Progress where
  | start
  | checked (plan : Plan)
  | ended (outcome : Outcome)

structure Duo where
  tables : Tables
  progress : Bool → Progress

def Duo.start (ts : Tables) : Duo := ⟨ts, fun _ => .start⟩

def Duo.advance (s : Duo) (who : Bool) (ts : Tables) (p : Progress) : Duo :=
  ⟨ts, fun w => if w = who then p else s.progress w⟩

/-- The unlocked part. What it renames is renamed in the shared table. -/
def Duo.check (httpd : Httpd) (s : Duo) (who : Bool) (px : Option Proxy) (args : ConfigArgs) : Duo :=
  match checkConfig httpd s.tables px args with
  | .fail e => s.advance who s.tables (.ended (.failed e))
  | .abort nodes => s.advance who { s.tables with nodes := nodes } (.ended .aborted)
  | .go plan => s.advance who { s.tables with nodes := plan.nodes } (.checked plan)

/-- The locked part. It works on the nodes as they are now. -/
def Duo.commit (s : Duo) (who : Bool) (now : Int) (px : Option Proxy) (args : ConfigArgs) (plan : Plan) : Duo :=
  let r := commitConfig now s.tables px args { plan with nodes := s.tables.nodes }
  s.advance who r.tables (.ended r.outcome)

variable {httpd : Httpd}

/-- The slot that the check has chosen does not hold the node of the other request. -/
def Vacant (ts : Tables) (plan : Plan) (other : ConfigArgs) : Prop :=
  ∀ i n, ts.nodes.used i = some n → n.mess.jvmRoute = other.node.mess.jvmRoute → plan.id ≠ i

/-- In a strict run a request commits only when the nodes are as its check has left
them, or when the slot it has chosen is not taken by the other request. -/
inductive DuoStep (reqs : Bool → ConfigRequest httpd) (strict : Prop) : Duo → Duo → Prop
  | check {s : Duo} (who : Bool) (px : Option Proxy) (h : s.progress who = .start) :
      DuoStep reqs strict s (s.check httpd who px (reqs who).args)
  | commit {s : Duo} (who : Bool) (now : Int) (px : Option Proxy) (plan : Plan) (h : s.progress who = .checked plan)
      (hslot : strict → s.tables.nodes = plan.nodes ∨ Vacant s.tables plan (reqs !who).args) :
      DuoStep reqs strict s (s.commit who now px (reqs who).args plan)

/-- One request alone is `process_config`. -/
theorem Duo.alone (req : ConfigRequest httpd) (s : Duo) (who : Bool) (now : Int) (px : Option Proxy) (plan : Plan)
    (hgo : checkConfig httpd s.tables px req.args = .go plan) :
    ((s.check httpd who px req.args).commit who now px req.args plan).tables =
        (processConfig httpd req.mconf now s.tables px req.argv).tables ∧
      ((s.check httpd who px req.args).commit who now px req.args plan).progress who =
        .ended (processConfig httpd req.mconf now s.tables px req.argv).outcome := by
  unfold check processConfig
  rw [hgo, req.parsed]
  simp only [hgo]
  exact ⟨rfl, if_pos rfl⟩

/-! ## What the phases keep -/

section Phases

variable {ts : Tables} {px : Option Proxy} {args : ConfigArgs} {plan : Plan} {now : Int} {i : Nat} {n : Nodeinfo}

theorem renameRemoved_keeps {m : Table Nodeinfo} {route : Str} {w : Option Nat} (hn : m.used i = some n)
    (hname : n.mess.jvmRoute ≠ REMOVED) : (renameRemoved m route w).used i = some n := by
  unfold renameRemoved
  split
  · split
    · rename_i k hk
      have hki : k ≠ i := by
        rintro rfl
        rw [peek_of_used hn] at hk
        exact hname hk
      rw [setJvmRoute, used_poke_ne _ hki]
      exact hn
    · exact hn
  · exact hn

theorem reviveRemoved_keeps {m : Table Nodeinfo} {route : Str} {w : Option Nat} (hn : m.used i = some n)
    (hname : n.mess.jvmRoute ≠ REMOVED) : (reviveRemoved m route w).used i = some n := by
  unfold reviveRemoved
  split
  · split
    · rename_i k hk
      have hki : k ≠ i := by
        rintro rfl
        rw [peek_of_used hn] at hk
        exact hname hk
      rw [revive, used_poke_ne _ hki]
      exact hn
    · exact hn
  · exact hn

/-- The nodes that the check phase leaves, unless it refuses the message. -/
def Checked.nodes? : Checked → Option (Table Nodeinfo)
  | .go plan => some plan.nodes
  | .abort nodes => some nodes
  | .fail _ => none

theorem checkConfig_keeps {nodes : Table Nodeinfo} (h : (checkConfig httpd ts px args).nodes? = some nodes)
    (hn : ts.nodes.used i = some n) (hname : n.mess.jvmRoute ≠ REMOVED) : nodes.used i = some n := by
  by_cases hadm : Admitted ts args
  swap
  · obtain ⟨e, he⟩ := checkConfig_denied hadm
    rw [he] at h
    cases h
  rw [checkConfig_admitted hadm] at h
  split at h
  · cases h
    exact reviveRemoved_keeps hn hname
  split at h
  · cases h
    exact hn
  unfold checkWorker at h
  simp only at h
  split at h
  · cases h
  rcases reuseWorker_cases with habort | ⟨p, r, w, -, -, -, hgo⟩
  · rw [habort] at h
    cases h
    exact renameRemoved_keeps hn hname
  · rw [hgo] at h
    cases h
    exact renameRemoved_keeps hn hname

theorem renameRemoved_old {m : Table Nodeinfo} {route : Str} {w : Option Nat}
    (h : (renameRemoved m route w).used i = some n) (hroute : n.mess.jvmRoute ≠ route) : m.used i = some n := by
  unfold renameRemoved at h
  split at h
  · split at h
    · rcases used_of_poke h with ⟨rfl, rfl, -⟩ | ⟨-, hold⟩
      · exact absurd rfl hroute
      · exact hold
    · exact h
  · exact h

theorem reviveRemoved_old {m : Table Nodeinfo} {route : Str} {w : Option Nat}
    (h : (reviveRemoved m route w).used i = some n) (hroute : n.mess.jvmRoute ≠ route) : m.used i = some n := by
  unfold reviveRemoved at h
  split at h
  · split at h
    · rcases used_of_poke h with ⟨rfl, rfl, -⟩ | ⟨-, hold⟩
      · exact absurd rfl hroute
      · exact hold
    · exact h
  · exact h

theorem checkConfig_old (hok : IdsOk ts) (hargs : ArgsOk args) (h : checkConfig httpd ts px args = .go plan)
    (hn : plan.nodes.used i = some n) (hroute : n.mess.jvmRoute ≠ args.node.mess.jvmRoute) :
    ts.nodes.used i = some n := by
  by_cases hadm : Admitted ts args
  swap
  · obtain ⟨e, he⟩ := checkConfig_denied hadm
    rw [he] at h
    cases h
  rw [← messageNode_jvmRoute hok hargs] at hroute
  rw [checkConfig_admitted hadm] at h
  split at h
  · cases h
    exact reviveRemoved_old hn hroute
  split at h
  · cases h
    exact hn
  unfold checkWorker at h
  simp only at h
  split at h
  · cases h
  rcases reuseWorker_cases with habort | ⟨p, r, w, -, -, -, hgo⟩
  · rw [habort] at h
    cases h
  · rw [hgo] at h
    cases h
    exact renameRemoved_old hn hroute

theorem checkConfig_avoids (hok : IdsOk ts) (hargs : ArgsOk args) (hn : ts.nodes.used i = some n)
    (hnamed : n.mess.jvmRoute ≠ []) (hname : n.mess.jvmRoute ≠ REMOVED)
    (hroute : n.mess.jvmRoute ≠ args.node.mess.jvmRoute)
    (haddress : hasHostPort args.node.mess.host args.node.mess.port n = false)
    (h : checkConfig httpd ts px args = .go plan)
    (hnew : plan.nodes.first (hasRoute args.node.mess.jvmRoute) = none) : plan.id ≠ i := by
  by_cases hadm : Admitted ts args
  swap
  · obtain ⟨e, he⟩ := checkConfig_denied hadm
    rw [he] at h
    cases h
  have hmess := messageNode_jvmRoute hok hargs
  rw [checkConfig_admitted hadm] at h
  split at h
  · -- By Host and Port, or a free slot.
    unfold checkHostPort at h
    rw [messageNode_hostPort hok hargs, findNodeByhostport_eq hok.nodes] at h
    cases h
    cases hw : ts.nodes.first (hasHostPort args.node.mess.host args.node.mess.port) with
    | none =>
      simp only [reviveRemoved, workerNodeId, if_true]
      exact proxyNodeGetFreeId_free hok.nodes hn
    | some k =>
      obtain ⟨a, ha, hport, -⟩ := first_eq_some hw
      have hki : k ≠ i := by
        rintro rfl
        rw [hn, Option.some.injEq] at ha
        rw [← ha, haddress] at hport
        cases hport
      simp only [workerNodeId, peek_of_used ha, hok.nodes k a ha, if_neg (show ¬ (k : Int) = -1 by omega)]
      omega
  split at h
  · -- The message's own slot: the node is not new.
    rename_i hsame
    cases h
    rw [knownNode_eq hok.nodes hargs.id, hnew] at hsame
    cases hsame.1
  rename_i hid _
  unfold checkWorker at h
  simp only [hmess] at h
  split at h
  · cases h
  rename_i htaken
  rcases reuseWorker_cases with habort | ⟨p, r, w, -, -, -, hgo⟩
  · rw [habort] at h
    cases h
  rw [hgo] at h
  cases h
  intro hidi
  simp only at hidi hnew
  cases hknown : knownNode ts args with
  | none =>
    rw [(workerNode_eq_some hid).2 ⟨hknown, hidi, used_lt hn⟩] at htaken
    refine htaken ?_
    simp only [isTaken, peek_of_used hn, Bool.and_eq_true, bne_iff_ne]
    exact ⟨⟨hname, hnamed⟩, hroute⟩
  | some j =>
    have hw : workerNode ts.nodes (knownNode ts args) (workerFound httpd ts px args).2 = none := by
      rw [hknown]
      rfl
    rw [hw] at hnew
    rw [knownNode_eq hok.nodes hargs.id] at hknown
    have hclash := hknown.symm.trans hnew
    cases hclash

theorem Committed.stores {r : ConfigResult} (h : Committed now ts px args plan r) (hdone : r.outcome = .done) :
    ∃ i n id, r.tables.nodes.used i = some n ∧ n.mess = { plan.nodeinfo.mess with id := id } := by
  cases h with
  | noBalancer hb => cases hdone
  | noNode balancers b hb hnone => cases hdone
  | aborted balancers b nodes nodeinfo id hb hins hp => cases hdone
  | stored balancers b nodes nodeinfo id ts' px' r hb hins hp hr =>
    obtain ⟨i, n, k, hn, hmess⟩ : ∃ i n k, nodes.used i = some n ∧ n.mess = { plan.nodeinfo.mess with id := k } := by
      rcases insertUpdateNode_cases hins with ⟨k, a, hf, ha, rfl, -⟩ | ⟨k, hf, hlt, rfl, -⟩
      · exact ⟨k, _, _, used_poke_self _ ha, rfl⟩
      · exact ⟨k, _, _, used_store_self _ hlt, rfl⟩
    obtain ⟨n', hn', hmess'⟩ := pairWorker_nodes hp hn
    subst hr
    refine ⟨i, n', k, ?_, hmess'.trans hmess⟩
    rw [addAliases_nodes]
    exact hn'

end Phases

/-! ## What holds while both requests are under way -/

variable {reqs : Bool → ConfigRequest httpd}

/-- The node of the message is in slot `i`. -/
def HasNode (m : Table Nodeinfo) (args : ConfigArgs) (i : Nat) : Prop :=
  ∃ n, m.used i = some n ∧ n.mess.jvmRoute = args.node.mess.jvmRoute ∧
    n.mess.host = args.node.mess.host ∧ n.mess.port = args.node.mess.port

/-- A plan that waits for its commit, with the nodes `m` at that time. -/
structure PlanOk (reqs : Bool → ConfigRequest httpd) (who : Bool) (m : Table Nodeinfo) (plan : Plan) : Prop where
  mess : ∃ id, plan.nodeinfo.mess = { (reqs who).args.node.mess with id := id }
  removed : plan.removed ≠ -1 → plan.id = plan.removed ∧ ∃ i, m.dptr plan.id = some i
  /-- The check kept clear of the other node, if that was there. -/
  avoids : ∀ i, HasNode plan.nodes (reqs !who).args i →
    plan.nodes.first (hasRoute (reqs who).args.node.mess.jvmRoute) = none → plan.id ≠ i

structure DuoOk (reqs : Bool → ConfigRequest httpd) (s : Duo) : Prop where
  ids : IdsOk s.tables
  named : Named s.tables
  plans : ∀ who plan, s.progress who = .checked plan → PlanOk reqs who s.tables.nodes plan
  stored : ∀ who, s.progress who = .ended .done → ∃ i, HasNode s.tables.nodes (reqs who).args i

section Runs

variable {s s' : Duo} {who : Bool} {ts ts' : Tables} {px : Option Proxy} {plan : Plan} {now : Int} {p : Progress}

theorem PlanOk.resize {m m' : Table Nodeinfo} (h : PlanOk reqs who m plan) (hsize : m'.size = m.size) :
    PlanOk reqs who m' plan := by
  refine ⟨h.mess, fun hremoved => ?_, h.avoids⟩
  obtain ⟨hid, i, hi⟩ := h.removed hremoved
  obtain ⟨hi, hlt⟩ := dptr_eq_some.1 hi
  exact ⟨hid, i, dptr_eq_some.2 ⟨hi, by rw [hsize]; exact hlt⟩⟩

theorem DuoOk.advance (h : DuoOk reqs s) (he : Edits False s.tables ts')
    (hkeep : ∀ i, HasNode s.tables.nodes (reqs !who).args i → HasNode ts'.nodes (reqs !who).args i)
    (hplan : ∀ plan, p = .checked plan → PlanOk reqs who ts'.nodes plan)
    (hdone : p = .ended .done → ∃ i, HasNode ts'.nodes (reqs who).args i) : DuoOk reqs (s.advance who ts' p) := by
  have hother {w : Bool} (hw : w ≠ who) : w = !who := Bool.eq_not.2 hw
  refine ⟨he.idsOk h.ids, he.named h.named, fun w plan hw => ?_, fun w hw => ?_⟩
  · by_cases hwho : w = who
    · subst hwho
      exact hplan plan ((if_pos rfl).symm.trans hw)
    · exact (h.plans w plan ((if_neg hwho).symm.trans hw)).resize he.size_nodes
  · by_cases hwho : w = who
    · subst hwho
      exact hdone ((if_pos rfl).symm.trans hw)
    · obtain ⟨i, hi⟩ := h.stored w ((if_neg hwho).symm.trans hw)
      rw [hother hwho] at hi ⊢
      exact ⟨i, hkeep i hi⟩

/-- Two requests for two nodes, none of them under the reserved JVMRoute. -/
structure Apart (reqs : Bool → ConfigRequest httpd) : Prop where
  routes : (reqs true).args.node.mess.jvmRoute ≠ (reqs false).args.node.mess.jvmRoute
  addresses : (reqs true).args.node.mess.host ≠ (reqs false).args.node.mess.host ∨
    (reqs true).args.node.mess.port ≠ (reqs false).args.node.mess.port
  names : ∀ who, (reqs who).args.node.mess.jvmRoute ≠ REMOVED

theorem Apart.route (h : Apart reqs) (who : Bool) :
    (reqs !who).args.node.mess.jvmRoute ≠ (reqs who).args.node.mess.jvmRoute := by
  cases who
  · exact h.routes
  · exact h.routes.symm

theorem Apart.address (h : Apart reqs) (who : Bool) {n : Nodeinfo} (hhost : n.mess.host = (reqs !who).args.node.mess.host)
    (hport : n.mess.port = (reqs !who).args.node.mess.port) :
    hasHostPort (reqs who).args.node.mess.host (reqs who).args.node.mess.port n = false := by
  have hargs := parseConfig_argsOk (reqs who).parsed
  rw [Bool.eq_false_iff]
  intro hsame
  unfold hasHostPort truncate at hsame
  rw [List.take_of_length_le hargs.host, List.take_of_length_le hargs.port, Bool.and_eq_true, beq_iff_eq, beq_iff_eq,
    hhost, hport] at hsame
  cases who
  · exact h.addresses.elim (fun hne => hne hsame.1.symm) fun hne => hne hsame.2.symm
  · exact h.addresses.elim (fun hne => hne hsame.1) fun hne => hne hsame.2

theorem HasNode.check (hap : Apart reqs) {w : Bool} {i : Nat} {nodes : Table Nodeinfo}
    (hnodes : (checkConfig httpd ts px (reqs who).args).nodes? = some nodes) (h : HasNode ts.nodes (reqs w).args i) :
    HasNode nodes (reqs w).args i := by
  obtain ⟨n, hn, hroute, haddress⟩ := h
  have hname : n.mess.jvmRoute ≠ REMOVED := by
    rw [hroute]
    exact hap.names w
  exact ⟨n, checkConfig_keeps hnodes hn hname, hroute, haddress⟩

theorem checkConfig_planOk (hap : Apart reqs) (hids : IdsOk ts) (hnamed : Named ts)
    (hgo : checkConfig httpd ts px (reqs who).args = .go plan) : PlanOk reqs who plan.nodes plan := by
  have hargs := parseConfig_argsOk (reqs who).parsed
  obtain ⟨id, hid⟩ := messageNode_mess hids.nodes hargs.id
  have hcheck := checkConfig_ok False httpd ts px (reqs who).args (by rw [← messageNode, hid]; exact hargs.route)
  rw [hgo] at hcheck
  obtain ⟨-, hmess, hremoved⟩ := hcheck
  refine ⟨⟨id, hmess.trans hid⟩, hremoved, fun i hi hnew => ?_⟩
  obtain ⟨n, hn, hroute, hhost, hport⟩ := hi
  have hother : n.mess.jvmRoute ≠ (reqs who).args.node.mess.jvmRoute := by
    rw [hroute]
    exact hap.route who
  have hold := checkConfig_old hids hargs hgo hn hother
  refine checkConfig_avoids hids hargs hold (hnamed i n hold) ?_ hother (hap.address who hhost hport) hgo hnew
  rw [hroute]
  exact hap.names _

theorem DuoOk.check (hap : Apart reqs) (h : DuoOk reqs s) :
    DuoOk reqs (s.check httpd who px (reqs who).args) := by
  have hargs := parseConfig_argsOk (reqs who).parsed
  obtain ⟨id, hid⟩ := messageNode_mess h.ids.nodes hargs.id
  have hcheck := checkConfig_ok False httpd s.tables px (reqs who).args
    (by rw [← messageNode, hid]; exact hargs.route)
  have hkeep {nodes : Table Nodeinfo} (hnodes : (checkConfig httpd s.tables px (reqs who).args).nodes? = some nodes)
      (i : Nat) (hi : HasNode s.tables.nodes (reqs !who).args i) : HasNode nodes (reqs !who).args i :=
    hi.check hap hnodes
  unfold Duo.check
  split
  · exact h.advance Edits.refl (fun _ hi => hi) (fun _ heq => Progress.noConfusion heq) fun heq => by cases heq
  · rename_i nodes habort
    rw [habort] at hcheck hkeep
    exact h.advance hcheck (hkeep rfl) (fun _ heq => Progress.noConfusion heq) fun heq => by cases heq
  · rename_i plan hgo
    have hplan := checkConfig_planOk hap h.ids h.named hgo
    rw [hgo] at hcheck hkeep
    refine h.advance hcheck.1 (hkeep rfl) (fun plan' heq => ?_) fun heq => Progress.noConfusion heq
    cases heq
    exact hplan

theorem DuoOk.commit (hap : Apart reqs) (h : DuoOk reqs s) (hplan : s.progress who = .checked plan)
    (hslot : s.tables.nodes = plan.nodes ∨ Vacant s.tables plan (reqs !who).args) :
    DuoOk reqs (s.commit who now px (reqs who).args plan) := by
  have hargs := parseConfig_argsOk (reqs who).parsed
  have hok := h.plans who plan hplan
  obtain ⟨id, hmess⟩ := hok.mess
  have hedits := @commitConfig_edits False s.tables now px (reqs who).args { plan with nodes := s.tables.nodes } h.ids
    hargs nofun Edits.refl hok.mess hok.removed
  have hcommitted := commitConfig_committed now s.tables px (reqs who).args { plan with nodes := s.tables.nodes }
  unfold Duo.commit
  refine h.advance hedits (fun i hi => ?_) (fun _ heq => Progress.noConfusion heq) fun hdone => ?_
  · obtain ⟨n, hn, hroute, hhost, hport⟩ := hi
    obtain ⟨n', hn', hsame⟩ := hcommitted.keeps hok.removed hn (by rw [hroute, hmess]; exact hap.route who)
      (fun hnew _ => by
        rw [hmess] at hnew
        rcases hslot with hnodes | hvacant
        · rw [hnodes] at hnew hn
          exact hok.avoids i ⟨n, hn, hroute, hhost, hport⟩ hnew
        · exact hvacant i n hn hroute)
    exact ⟨n', hn', by rw [hsame, hroute], by rw [hsame, hhost], by rw [hsame, hport]⟩
  · obtain ⟨i, n, id', hn, hnode⟩ := hcommitted.stores (Progress.ended.inj hdone)
    simp only [hmess] at hnode
    exact ⟨i, n, hn, by rw [hnode], by rw [hnode], by rw [hnode]⟩

theorem DuoStep.ok (hap : Apart reqs) (hstep : DuoStep reqs True s s') (h : DuoOk reqs s) : DuoOk reqs s' := by
  cases hstep with
  | check who px hstart => exact h.check hap
  | commit who now px plan hplan hslot => exact h.commit hap hplan (hslot trivial)

theorem DuoOk.run (hap : Apart reqs) (hrun : Relation.ReflTransGen (DuoStep reqs True) s s') (h : DuoOk reqs s) :
    DuoOk reqs s' := by
  induction hrun with
  | refl => exact h
  | tail _ hstep ih => exact hstep.ok hap ih

end Runs

/-- Both nodes are in use, in two slots. -/
def BothRegistered (reqs : Bool → ConfigRequest httpd) (ts : Tables) : Prop :=
  ∃ i j n m, i ≠ j ∧ ts.nodes.used i = some n ∧ n.mess.jvmRoute = (reqs true).args.node.mess.jvmRoute ∧
    ts.nodes.used j = some m ∧ m.mess.jvmRoute = (reqs false).args.node.mess.jvmRoute

/-- The next step of a request, if it has one left. -/
def Duo.next (reqs : Bool → ConfigRequest httpd) (px : Option Proxy) (s : Duo) (who : Bool) : Duo :=
  match s.progress who with
  | .start => s.check httpd who px (reqs who).args
  | .checked plan => s.commit who 0 px (reqs who).args plan
  | .ended _ => s

theorem Duo.next_run (px : Option Proxy) (s : Duo) (who : Bool) :
    Relation.ReflTransGen (DuoStep reqs False) s (s.next reqs px who) := by
  unfold next
  split
  · rename_i hstart
    exact .single (.check who px hstart)
  · rename_i plan hplan
    exact .single (.commit who 0 px plan hplan nofun)
  · exact .refl

theorem Duo.schedule_run (px : Option Proxy) (schedule : List Bool) (s : Duo) :
    Relation.ReflTransGen (DuoStep reqs False) s (schedule.foldl (next reqs px) s) := by
  induction schedule generalizing s with
  | nil => exact .refl
  | cons who rest ih => exact .trans (next_run px s who) (ih _)

theorem Duo.serve_run (px : Option Proxy) (s : Duo) (who : Bool) (hstart : s.progress who = .start) :
    Relation.ReflTransGen (DuoStep reqs True) s ((s.next reqs px who).next reqs px who) := by
  have hcheck : s.next reqs px who = s.check httpd who px (reqs who).args := by
    unfold next
    rw [hstart]
  have hfirst : DuoStep reqs True s (s.next reqs px who) := hcheck ▸ .check who px hstart
  refine .trans (.single hfirst) ?_
  rw [hcheck]
  unfold next check
  cases checkConfig httpd s.tables px (reqs who).args with
  | go plan =>
    have hplan : (s.advance who { s.tables with nodes := plan.nodes } (.checked plan)).progress who = .checked plan :=
      if_pos rfl
    simp only [hplan]
    exact .single (.commit who 0 px plan hplan fun _ => Or.inl rfl)
  | fail e =>
    have hend : (s.advance who s.tables (.ended (.failed e))).progress who = .ended (.failed e) := if_pos rfl
    simp only [hend]
    exact .refl
  | abort nodes =>
    have hend : (s.advance who { s.tables with nodes := nodes } (.ended .aborted)).progress who = .ended .aborted :=
      if_pos rfl
    simp only [hend]
    exact .refl

/-- Whatever the order of their steps, two nodes that register are both there once both
have been told so, if no commit takes the slot that the other one has got in between. -/
theorem registrations_kept (httpd : Httpd) (reqs : Bool → ConfigRequest httpd) (ts : Tables) (s : Duo)
    (hreach : Reachable httpd False ts) (hap : Apart reqs)
    (hrun : Relation.ReflTransGen (DuoStep reqs True) (Duo.start ts) s)
    (hdone : ∀ who, s.progress who = .ended .done) : BothRegistered reqs s.tables := by
  obtain ⟨hids, hnamed, -⟩ := hreach.invariants
  have hok : DuoOk reqs s := DuoOk.run hap hrun
    ⟨hids, hnamed, fun _ _ heq => Progress.noConfusion heq, fun _ heq => Progress.noConfusion heq⟩
  obtain ⟨i, n, hn, hroute, -⟩ := hok.stored true (hdone true)
  obtain ⟨j, m, hm, hroute', -⟩ := hok.stored false (hdone false)
  refine ⟨i, j, n, m, ?_, hn, hroute, hm, hroute'⟩
  rintro rfl
  rw [hn, Option.some.injEq] at hm
  exact hap.routes (by rw [← hroute, hm, hroute'])

section Example

theorem eq_ok_get {ε α : Type} {x : Except ε α} (h : x.toOption.isSome = true) : x = .ok (x.toOption.get h) := by
  cases x with
  | error e => cases h
  | ok a => rfl

def readRequest (tokens : List Str)
    (h : (parseConfig plainHttpd Mconf.default (Argv.ofTokens tokens)).toOption.isSome = true) :
    ConfigRequest plainHttpd where
  mconf := Mconf.default
  argv := Argv.ofTokens tokens
  args := (parseConfig plainHttpd Mconf.default (Argv.ofTokens tokens)).toOption.get h
  parsed := eq_ok_get h

/-- Two nodes on one machine. -/
def newNodes : Bool → ConfigRequest plainHttpd
  | true => readRequest [ascii "JVMRoute", ascii "n1", ascii "Port", ascii "8009"] (by decide +kernel)
  | false => readRequest [ascii "JVMRoute", ascii "n2", ascii "Port", ascii "8010"] (by decide +kernel)

/-- A process that has no balancer yet. -/
def bareProxy : Option Proxy := some ⟨[⟨[]⟩]⟩

def Progress.isDone : Progress → Bool
  | .ended .done => true
  | _ => false

theorem Progress.eq_done {p : Progress} (h : p.isDone = true) : p = .ended .done := by
  unfold isDone at h
  split at h
  · rfl
  · cases h

/-- Both check, then both commit. -/
def overlapped : Duo :=
  [true, false, true, false].foldl (Duo.next newNodes bareProxy) (Duo.start (emptyTables ⟨2, 2, 2, 2, 2⟩))

theorem newNodes_facts :
    ((newNodes true).args.node.mess.jvmRoute ≠ (newNodes false).args.node.mess.jvmRoute ∧
      (newNodes true).args.node.mess.port ≠ (newNodes false).args.node.mess.port ∧
      ∀ who, (newNodes who).args.node.mess.jvmRoute ≠ REMOVED) ∧
    (∀ who, ((((((Duo.start (emptyTables ⟨2, 2, 2, 2, 2⟩)).next newNodes bareProxy true).next newNodes
      bareProxy true).next newNodes bareProxy false).next newNodes bareProxy false).progress who).isDone = true) ∧
    (∀ who, (overlapped.progress who).isDone = true) ∧
      overlapped.tables.nodes.records.map (·.mess.jvmRoute) = [ascii "n2"] ∧
      (newNodes true).args.node.mess.jvmRoute ≠ ascii "n2" := by
  decide +kernel

theorem newNodes_apart : Apart newNodes := by
  obtain ⟨hroutes, hports, hnames⟩ := newNodes_facts.1
  exact ⟨hroutes, Or.inr hports, hnames⟩

/-- One after the other: both are there. -/
theorem newNodes_registered :
    BothRegistered newNodes (((((Duo.start (emptyTables ⟨2, 2, 2, 2, 2⟩)).next newNodes bareProxy true).next newNodes
      bareProxy true).next newNodes bareProxy false).next newNodes bareProxy false).tables := by
  refine registrations_kept plainHttpd newNodes (emptyTables ⟨2, 2, 2, 2, 2⟩) _ (Reachable.empty _) newNodes_apart
    (.trans (Duo.serve_run bareProxy _ true rfl) (Duo.serve_run bareProxy _ false rfl)) fun who => ?_
  exact Progress.eq_done (newNodes_facts.2.1 who)

/-- The second commit takes the slot of the first. -/
theorem newNodes_lost :
    Reachable plainHttpd False (emptyTables ⟨2, 2, 2, 2, 2⟩) ∧ Apart newNodes ∧
      Relation.ReflTransGen (DuoStep newNodes False) (Duo.start (emptyTables ⟨2, 2, 2, 2, 2⟩)) overlapped ∧
      (∀ who, overlapped.progress who = .ended .done) ∧ ¬ BothRegistered newNodes overlapped.tables := by
  obtain ⟨-, -, hdone, hroutes, hother⟩ := newNodes_facts
  refine ⟨Reachable.empty _, newNodes_apart, Duo.schedule_run _ _ _, fun who => Progress.eq_done (hdone who), ?_⟩
  rintro ⟨i, j, n, m, -, hn, hroute, -⟩
  have hname := List.mem_map_of_mem (f := fun n : Nodeinfo => n.mess.jvmRoute) (mem_records.2 ⟨i, hn⟩)
  rw [hroutes, List.mem_singleton, hroute] at hname
  exact hother hname

end Example

end ModCluster
