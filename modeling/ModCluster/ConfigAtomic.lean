import ModCluster.ConfigFrame

/-!
# CONFIG that fails

When CONFIG fails before the node is stored, the tables should be as they were. Two
things can stay behind. A slot that was renamed for the message keeps the new name
when the balancer cannot be stored. A balancer that was added stays when the node
cannot be stored.
-/

open CString Slotmem Slotmem.Table

namespace ModCluster

/-! ## Statement -/

def Nodeinfo.untimed (n : Nodeinfo) : Nodeinfo := { n with updatetime := 0 }

def Hostinfo.untimed (h : Hostinfo) : Hostinfo := { h with updatetime := 0 }

def Contextinfo.untimed (c : Contextinfo) : Contextinfo := { c with updatetime := 0 }

def Balancerinfo.untimed (b : Balancerinfo) : Balancerinfo := { b with updatetime := 0 }

/-- Same slots in use and same records in all slots, up to their timestamps. -/
structure SameContents (ts ts' : Tables) : Prop where
  nodes : ts'.nodes.view Nodeinfo.untimed = ts.nodes.view Nodeinfo.untimed
  balancers : ts'.balancers.view Balancerinfo.untimed = ts.balancers.view Balancerinfo.untimed
  hosts : ts'.hosts.view Hostinfo.untimed = ts.hosts.view Hostinfo.untimed
  contexts : ts'.contexts.view Contextinfo.untimed = ts.contexts.view Contextinfo.untimed

/-- The check phase changes the name of a slot called "REMOVED", or takes the mark
for removal from it. -/
inductive Renames (httpd : Httpd) (ts : Tables) (px : Option Proxy) (args : ConfigArgs) : Prop
  | worker (i : Nat) (hid : (workerFound httpd ts px args).2 = i) (hlt : i < ts.nodes.size)
      (hnew : knownNode ts args = none) (hold : (ts.nodes.peek i).mess.jvmRoute = REMOVED)
      (hdiff : args.node.mess.jvmRoute ≠ REMOVED)
  | hostPort (i : Nat) (hid : (workerFound httpd ts px args).2 = -1)
      (hfirst : findNodeByhostport ts.nodes args.node.mess.host args.node.mess.port = some i)
      (hold : (ts.nodes.peek i).mess.jvmRoute = REMOVED)
      (hdiff : args.node.mess.jvmRoute ≠ REMOVED ∨ (ts.nodes.peek i).mess.remove = true ∨
        (ts.nodes.peek i).mess.numRemoveCheck ≠ 0)

/-- There is no slot for the node. -/
def NoRoom (httpd : Httpd) (ts : Tables) (px : Option Proxy) (args : ConfigArgs) : Prop :=
  knownNode ts args = none ∧
    ((workerFound httpd ts px args).2 ≠ -1 ∧ ts.nodes.dptr (workerFound httpd ts px args).2 = none ∨
      (workerFound httpd ts px args).2 = -1 ∧
        findNodeByhostport ts.nodes args.node.mess.host args.node.mess.port = none ∧ ts.nodes.grab = none)

def LeavesTraces (httpd : Httpd) (mconf : Mconf) (ts : Tables) (px : Option Proxy) (argv : Argv) : Prop :=
  ∃ args, parseConfig httpd mconf argv = .ok args ∧ Admitted ts args ∧
    (¬ BalancerFits ts args.balancer.balancer ∧ Renames httpd ts px args ∨
      BalancerFits ts args.balancer.balancer ∧ ¬ BalancerUsed ts args.balancer.balancer ∧
        NoRoom httpd ts px args)

/-! ## Free ids -/

variable {httpd : Httpd} {ts : Tables} {px : Option Proxy} {args : ConfigArgs} {now : Int} {plan : Plan}

theorem proxyNodeGetFreeId_range (ts : Tables) (px : Option Proxy) (size : Nat) :
    proxyNodeGetFreeId ts px size = -1 ∨ ∃ i, i < size ∧ proxyNodeGetFreeId ts px size = (i : Int) := by
  unfold proxyNodeGetFreeId
  split
  · exact Or.inl rfl
  simp only
  split
  · rename_i i hi
    exact Or.inr ⟨i, List.mem_range.mp (List.mem_of_find?_eq_some hi), rfl⟩
  · exact Or.inl rfl

theorem proxyNodeGetFreeId_full (hids : ts.nodes.IdsMatch (·.mess.id)) (hfull : ts.nodes.grab = none) :
    proxyNodeGetFreeId ts px ts.nodes.size = -1 := by
  rcases proxyNodeGetFreeId_range ts px ts.nodes.size with h | ⟨i, hlt, h⟩
  · exact h
  · obtain ⟨n, hn⟩ := grab_eq_none hfull i hlt
    exact absurd h (proxyNodeGetFreeId_free hids hn)

/-! ## The plan -/

/-- The three ways to a plan. -/
inductive Planned (httpd : Httpd) (ts : Tables) (px : Option Proxy) (args : ConfigArgs) (plan : Plan) : Prop
  | hostPort (hid : (workerFound httpd ts px args).2 = -1)
      (hgo : checkHostPort ts px (messageNode ts args) = .go plan)
  | same (hid : (workerFound httpd ts px args).2 ≠ -1) (hknown : (knownNode ts args).isSome)
      (hnodes : plan.nodes = ts.nodes) (hinfo : plan.nodeinfo = messageNode ts args)
  | worker (hid : (workerFound httpd ts px args).2 ≠ -1)
      (hnodes : plan.nodes = renameRemoved ts.nodes (messageNode ts args).mess.jvmRoute
        (workerNode ts.nodes (knownNode ts args) (workerFound httpd ts px args).2))
      (hmess : plan.nodeinfo.mess = (messageNode ts args).mess)
      (hplan : plan.id = (workerFound httpd ts px args).2)

theorem checkConfig_planned (hadm : Admitted ts args) (h : checkConfig httpd ts px args = .go plan) :
    Planned httpd ts px args plan := by
  rw [checkConfig_admitted hadm] at h
  split at h
  · rename_i hid
    exact Planned.hostPort hid h
  rename_i hid
  split at h
  · rename_i hsame
    cases h
    exact Planned.same hid hsame.1 rfl rfl
  · unfold checkWorker at h
    simp only at h
    split at h
    · cases h
    rcases reuseWorker_cases with habort | ⟨p, r, w, -, -, -, hgo⟩
    · rw [habort] at h
      cases h
    · rw [hgo] at h
      cases h
      exact Planned.worker hid rfl rfl rfl

theorem checkConfig_refused {e : McmpError} (hadm : Admitted ts args)
    (h : checkConfig httpd ts px args = .fail e) :
    ¬ Renames httpd ts px args ∧ ¬ NoRoom httpd ts px args := by
  rw [checkConfig_admitted hadm] at h
  split at h
  · cases h
  rename_i hid
  split at h
  · cases h
  unfold checkWorker at h
  simp only at h
  split at h
  swap
  · rcases reuseWorker_cases with habort | ⟨p, r, w, -, -, -, hgo⟩
    · rw [habort] at h
      cases h
    · rw [hgo] at h
      cases h
  rename_i htaken
  cases hw : workerNode ts.nodes (knownNode ts args) (workerFound httpd ts px args).2 with
  | none =>
    rw [hw] at htaken
    cases htaken
  | some k =>
    obtain ⟨hnew, hidk, hlt⟩ := (workerNode_eq_some hid).mp hw
    simp only [hw, isTaken, Bool.and_eq_true, bne_iff_ne] at htaken
    constructor
    · rintro (⟨i, hid', -, -, hold, -⟩ | ⟨i, hid', -⟩)
      · have hik : i = k := by omega
        subst hik
        exact htaken.1.1 hold
      · exact hid hid'
    · rintro ⟨-, ⟨-, hd⟩ | ⟨hid', -⟩⟩
      · rw [hidk, dptr_ofNat hlt] at hd
        cases hd
      · exact hid hid'

theorem NoRoom.not_renames (h : NoRoom httpd ts px args) : ¬ Renames httpd ts px args := by
  obtain ⟨-, h⟩ := h
  rintro (⟨i, hid, hlt, -⟩ | ⟨i, hid, hfirst, -⟩)
  · rcases h with ⟨-, hd⟩ | ⟨hid', -⟩
    · rw [hid, dptr_ofNat hlt] at hd
      cases hd
    · omega
  · rcases h with ⟨hne, -⟩ | ⟨-, hnone, -⟩
    · exact hne hid
    · rw [hfirst] at hnone
      cases hnone

theorem setJvmRoute_view {m : Table Nodeinfo} {i : Nat} {route : Str} (hlt : i < m.size) :
    (setJvmRoute m i route).view Nodeinfo.untimed = m.view Nodeinfo.untimed ↔
      route = (m.peek i).mess.jvmRoute := by
  rw [setJvmRoute, view_poke_iff hlt]
  constructor
  · intro h
    exact congrArg (fun n : Nodeinfo => n.mess.jvmRoute) h
  · intro h
    rw [h]

theorem revive_view {m : Table Nodeinfo} {i : Nat} {route : Str} (hlt : i < m.size) :
    (revive m i route).view Nodeinfo.untimed = m.view Nodeinfo.untimed ↔
      route = (m.peek i).mess.jvmRoute ∧ (m.peek i).mess.remove = false ∧ (m.peek i).mess.numRemoveCheck = 0 := by
  rw [revive, view_poke_iff hlt]
  constructor
  · intro h
    exact ⟨congrArg (fun n : Nodeinfo => n.mess.jvmRoute) h,
      (congrArg (fun n : Nodeinfo => n.mess.remove) h).symm,
      (congrArg (fun n : Nodeinfo => n.mess.numRemoveCheck) h).symm⟩
  · rintro ⟨hroute, hremove, hcheck⟩
    rw [hroute, ← hremove, ← hcheck]

section Plan

variable (hok : IdsOk ts) (hargs : ArgsOk args)

include hok hargs

theorem Planned.jvmRoute (h : Planned httpd ts px args plan) :
    plan.nodeinfo.mess.jvmRoute = args.node.mess.jvmRoute := by
  rw [← messageNode_jvmRoute hok hargs]
  cases h with
  | hostPort hid hgo =>
    cases hgo
    rfl
  | same hid hknown hnodes hinfo => rw [hinfo]
  | worker hid hnodes hmess hplan => rw [hmess]

theorem Planned.view_nodes (h : Planned httpd ts px args plan) :
    plan.nodes.view Nodeinfo.untimed = ts.nodes.view Nodeinfo.untimed ↔ ¬ Renames httpd ts px args := by
  have hroute := messageNode_jvmRoute hok hargs
  cases h with
  | same hid hknown hnodes hinfo =>
    rw [hnodes, iff_true_left rfl]
    rintro (⟨i, -, -, hnew, -⟩ | ⟨i, hid', -⟩)
    · rw [hnew] at hknown
      cases hknown
    · exact hid hid'
  | hostPort hid hgo =>
    unfold checkHostPort at hgo
    rw [messageNode_hostPort hok hargs] at hgo
    cases hgo
    simp only [hroute]
    cases hw : findNodeByhostport ts.nodes args.node.mess.host args.node.mess.port with
    | none =>
      rw [reviveRemoved, iff_true_left rfl]
      rintro (⟨i, hid', -⟩ | ⟨i, -, hfirst, -⟩)
      · omega
      · rw [hw] at hfirst
        cases hfirst
    | some k =>
      obtain ⟨a, ha, -⟩ := hostPort_used hok hw
      simp only [reviveRemoved]
      split
      · rename_i hold
        rw [revive_view (used_lt ha), hold]
        constructor
        · rintro ⟨hname, hremove, hcheck⟩ (⟨i, hid', -⟩ | ⟨i, -, hfirst, -, hdiff⟩)
          · omega
          rw [hw, Option.some.injEq] at hfirst
          subst hfirst
          rw [hremove, hcheck] at hdiff
          simp [hname] at hdiff
        · intro hno
          by_contra hne
          refine hno (Renames.hostPort k hid hw hold ?_)
          by_contra hall
          simp only [not_or, ne_eq, not_not, Bool.not_eq_true] at hall
          exact hne hall
      · rename_i hold
        rw [iff_true_left rfl]
        rintro (⟨i, hid', -⟩ | ⟨i, -, hfirst, hold', -⟩)
        · omega
        · rw [hw, Option.some.injEq] at hfirst
          subst hfirst
          exact hold hold'
  | worker hid hnodes hmess hplan =>
    rw [hnodes, hroute]
    cases hw : workerNode ts.nodes (knownNode ts args) (workerFound httpd ts px args).2 with
    | none =>
      rw [renameRemoved, iff_true_left rfl]
      rintro (⟨i, hid', hlt, hnew, -⟩ | ⟨i, hid', -⟩)
      · have := (workerNode_eq_some hid).mpr ⟨hnew, hid', hlt⟩
        rw [hw] at this
        cases this
      · exact hid hid'
    | some k =>
      obtain ⟨hnew, hidk, hlt⟩ := (workerNode_eq_some hid).mp hw
      simp only [renameRemoved]
      split
      · rename_i hold
        rw [setJvmRoute_view hlt, hold]
        constructor
        · rintro hname (⟨i, -, -, -, -, hdiff⟩ | ⟨i, hid', -⟩)
          · exact hdiff hname
          · exact hid hid'
        · intro hno
          by_contra hne
          exact hno (Renames.worker k hidk hlt hnew hold hne)
      · rename_i hold
        rw [iff_true_left rfl]
        rintro (⟨i, hid', -, -, hold', -⟩ | ⟨i, hid', -⟩)
        · have hik : i = k := by omega
          subst hik
          exact hold hold'
        · exact hid hid'

theorem Planned.insert_none (h : Planned httpd ts px args plan) :
    insertUpdateNode now plan.nodes plan.nodeinfo plan.id plan.clean = none ↔ NoRoom httpd ts px args := by
  have hroute := messageNode_jvmRoute hok hargs
  have hknownEq := knownNode_eq hok.nodes hargs.id
  rw [insertUpdateNode_eq_none, h.jvmRoute hok hargs]
  unfold NoRoom
  cases h with
  | same hid hknown hnodes hinfo =>
    rw [hnodes, ← hknownEq]
    constructor
    · rintro ⟨hnone, -⟩
      rw [hnone] at hknown
      cases hknown
    · rintro ⟨hnone, -⟩
      rw [hnone] at hknown
      cases hknown
  | hostPort hid hgo =>
    unfold checkHostPort at hgo
    rw [messageNode_hostPort hok hargs] at hgo
    cases hgo
    simp only
    cases hw : findNodeByhostport ts.nodes args.node.mess.host args.node.mess.port with
    | none =>
      simp only [reviveRemoved, workerNodeId, if_true, hknownEq]
      constructor
      · rintro ⟨hnew, ⟨-, hgrab⟩ | ⟨hne, hd⟩⟩
        · exact ⟨hnew, Or.inr ⟨hid, trivial, hgrab⟩⟩
        · obtain ⟨i, hlt, hi⟩ := (proxyNodeGetFreeId_range ts px ts.nodes.size).resolve_left hne
          rw [hi, dptr_ofNat hlt] at hd
          cases hd
      · rintro ⟨hnew, ⟨hne, -⟩ | ⟨-, -, hgrab⟩⟩
        · exact absurd hid hne
        · exact ⟨hnew, Or.inl ⟨proxyNodeGetFreeId_full hok.nodes hgrab, hgrab⟩⟩
    | some k =>
      obtain ⟨a, ha, hidk⟩ := hostPort_used hok hw
      have hkid : workerNodeId ts.nodes (some k) = k := by
        rw [workerNodeId, peek_of_used ha, hidk]
      have hsize : (reviveRemoved ts.nodes (messageNode ts args).mess.jvmRoute (some k)).size = ts.nodes.size := by
        simp only [reviveRemoved]
        split
        · exact size_poke _ _ _
        · rfl
      simp only [hkid, if_neg (show ¬ (k : Int) = -1 by omega)]
      rw [dptr_ofNat (by rw [hsize]; exact used_lt ha)]
      constructor
      · rintro ⟨-, ⟨hk, -⟩ | ⟨-, hd⟩⟩
        · omega
        · cases hd
      · rintro ⟨-, ⟨hne, -⟩ | ⟨-, hd, -⟩⟩
        · exact absurd hid hne
        · cases hd
  | worker hid hnodes hmess hplan =>
    rw [hplan, hnodes]
    have hdptr : (renameRemoved ts.nodes (messageNode ts args).mess.jvmRoute
        (workerNode ts.nodes (knownNode ts args) (workerFound httpd ts px args).2)).dptr
          (workerFound httpd ts px args).2 = ts.nodes.dptr (workerFound httpd ts px args).2 := by
      unfold dptr
      rw [size_renameRemoved]
    have hout : ts.nodes.dptr (workerFound httpd ts px args).2 = none →
        workerNode ts.nodes (knownNode ts args) (workerFound httpd ts px args).2 = none := by
      intro hd
      cases hw : workerNode ts.nodes (knownNode ts args) (workerFound httpd ts px args).2 with
      | none => rfl
      | some k =>
        obtain ⟨-, hidk, hlt⟩ := (workerNode_eq_some hid).mp hw
        rw [hidk, dptr_ofNat hlt] at hd
        cases hd
    rw [hdptr]
    constructor
    · rintro ⟨hnew, ⟨hid', -⟩ | ⟨-, hd⟩⟩
      · exact absurd hid' hid
      · rw [hout hd, renameRemoved, ← hknownEq] at hnew
        exact ⟨hnew, Or.inl ⟨hid, hd⟩⟩
    · rintro ⟨hnew, ⟨-, hd⟩ | ⟨hid', -⟩⟩
      · rw [hout hd, renameRemoved, ← hknownEq]
        exact ⟨hnew, Or.inr ⟨hid, hd⟩⟩
      · exact absurd hid' hid

/-! ## The balancer -/

theorem rollback_known {nodes : Table Nodeinfo} {bs : Table Balancerinfo} {b : Balancerinfo}
    (hb : insertUpdateBalancer now ts.balancers (messageBalancer ts args) = some (bs, b))
    (hknown : BalancerUsed ts args.balancer.balancer) :
    (rollback now { ts with nodes := nodes, balancers := bs } plan.removed
        ((readBalancer ts.balancers args.balancer).1.map ts.balancers.peek)).balancers.view Balancerinfo.untimed =
      ts.balancers.view Balancerinfo.untimed := by
  have hname := messageBalancer_name hok hargs
  obtain ⟨i, a, hf, ha, rfl, -⟩ | ⟨i, hf, -⟩ := insertUpdateBalancer_cases hb
  · rw [hname] at hf
    obtain ⟨a', ha', hkey, -⟩ := first_eq_some hf
    rw [ha, Option.some.injEq] at ha'
    subst ha'
    have hkey' := sameBalancer_iff.mp hkey
    rw [readBalancer_some hok.balancers hargs.balancerId hf]
    simp only [rollback, Option.map_some, peek_of_used ha]
    -- The old record goes into the slot it came from.
    have hfirst : (ts.balancers.poke i { messageBalancer ts args with
        id := a.id, updatetime := aprTimeSec now }).first (sameBalancer a.balancer) = some i := by
      rw [first_poke ha (by simp [sameBalancer, hname, hkey']), hkey']
      exact hf
    cases hr : insertUpdateBalancer now (ts.balancers.poke i { messageBalancer ts args with
        id := a.id, updatetime := aprTimeSec now }) a with
    | none =>
      rw [(insertUpdateBalancer_eq_none.mp hr).1] at hfirst
      cases hfirst
    | some r =>
      obtain ⟨k, x, hk, hx, hm, -⟩ | ⟨k, hk, -⟩ := insertUpdateBalancer_cases hr
      · rw [hfirst, Option.some.injEq] at hk
        subst hk
        rw [used_poke_self _ ha, Option.some.injEq] at hx
        subst hx
        simp only [Option.map_some, Option.getD_some]
        rw [hm, poke_poke, view_poke_iff (used_lt ha), peek_of_used ha]
        rfl
      · rw [hfirst] at hk
        cases hk
  · obtain ⟨j, x, hx, hxname⟩ := hknown
    have := first_eq_none.mp hf j x hx
    rw [hname, sameBalancer_iff.mpr hxname] at this
    cases this

theorem rollback_added {nodes : Table Nodeinfo} {bs : Table Balancerinfo} {b : Balancerinfo}
    (hb : insertUpdateBalancer now ts.balancers (messageBalancer ts args) = some (bs, b))
    (hnew : ¬ BalancerUsed ts args.balancer.balancer) :
    (rollback now { ts with nodes := nodes, balancers := bs } plan.removed
        ((readBalancer ts.balancers args.balancer).1.map ts.balancers.peek)).balancers.view Balancerinfo.untimed ≠
      ts.balancers.view Balancerinfo.untimed := by
  have hname := messageBalancer_name hok hargs
  have hnone : ts.balancers.first (sameBalancer args.balancer.balancer) = none := by
    refine first_eq_none.mpr fun i a ha => ?_
    by_contra hkey
    exact hnew ⟨i, a, ha, sameBalancer_iff.mp (eq_true_of_ne_false hkey)⟩
  rw [readBalancer_none hargs.balancerId hnone]
  obtain ⟨i, a, hf, -⟩ | ⟨i, hf, hlt, hfree, rfl, -⟩ := insertUpdateBalancer_cases hb
  · rw [hname, hnone] at hf
    cases hf
  · exact view_store_ne hlt hfree

end Plan

/-! ## The theorem -/

/-- The errors after which the node may stay, since it was stored. -/
def McmpError.isCapacity : McmpError → Bool
  | .capacity _ _ => true
  | _ => false

/-- CONFIG that fails before the node is stored changes nothing exactly when it
leaves no traces. -/
theorem processConfig_atomic_iff (httpd : Httpd) (mconf : Mconf) (now : Int) (ts : Tables)
    (px : Option Proxy) (argv : Argv) (e : McmpError) (hok : IdsOk ts)
    (hfail : (processConfig httpd mconf now ts px argv).outcome = .failed e) (he : e.isCapacity = false) :
    SameContents ts (processConfig httpd mconf now ts px argv).tables ↔
      ¬ LeavesTraces httpd mconf ts px argv := by
  cases hparse : parseConfig httpd mconf argv with
  | error e' =>
    unfold processConfig
    simp only [hparse]
    refine iff_of_true ⟨rfl, rfl, rfl, rfl⟩ ?_
    rintro ⟨args, hargs, -⟩
    rw [hparse] at hargs
    cases hargs
  | ok args =>
    have hargs := parseConfig_argsOk hparse
    have hname := messageBalancer_name hok hargs
    have htraces : LeavesTraces httpd mconf ts px argv ↔ Admitted ts args ∧
        (¬ BalancerFits ts args.balancer.balancer ∧ Renames httpd ts px args ∨
          BalancerFits ts args.balancer.balancer ∧ ¬ BalancerUsed ts args.balancer.balancer ∧
            NoRoom httpd ts px args) := by
      constructor
      · rintro ⟨args', hparse', h⟩
        rw [hparse, Except.ok.injEq] at hparse'
        subst hparse'
        exact h
      · intro h
        exact ⟨args, hparse, h⟩
    rw [htraces]
    unfold processConfig at hfail ⊢
    simp only [hparse] at hfail ⊢
    by_cases hadm : Admitted ts args
    swap
    · obtain ⟨e', he'⟩ := checkConfig_denied hadm
      rw [he']
      exact iff_of_true ⟨rfl, rfl, rfl, rfl⟩ fun h => hadm h.1
    have hcheck := checkConfig_ok False httpd ts px args
      (by rw [← messageNode, messageNode_jvmRoute hok hargs]; exact hargs.route)
    cases hgo : checkConfig httpd ts px args with
    | fail e' =>
      obtain ⟨hren, hroom⟩ := checkConfig_refused hadm hgo
      refine iff_of_true ⟨rfl, rfl, rfl, rfl⟩ ?_
      rintro ⟨-, ⟨-, h⟩ | ⟨-, -, h⟩⟩
      · exact hren h
      · exact hroom h
    | abort nodes =>
      rw [hgo] at hfail
      cases hfail
    | go plan =>
      have hplanned := checkConfig_planned hadm hgo
      have hview := hplanned.view_nodes hok hargs
      rw [hgo] at hfail hcheck
      simp only at hfail ⊢
      have hcommit := commitConfig_committed now ts px args plan
      generalize commitConfig now ts px args plan = r at hcommit hfail ⊢
      cases hcommit with
      | noBalancer hb =>
        have hfull : ¬ BalancerFits ts args.balancer.balancer := by
          rw [← hname, ← insertUpdateBalancer_isSome_iff, hb]
          exact Bool.false_ne_true
        constructor
        · rintro hsame ⟨-, ⟨-, hren⟩ | ⟨hfits, -⟩⟩
          · exact hview.mp hsame.nodes hren
          · exact hfull hfits
        · intro hno
          exact ⟨hview.mpr fun hren => hno ⟨hadm, Or.inl ⟨hfull, hren⟩⟩, rfl, rfl, rfl⟩
      | noNode balancers b hb hn =>
        have hfits : BalancerFits ts args.balancer.balancer := by
          rw [← hname, ← insertUpdateBalancer_isSome_iff, hb]
          rfl
        have hroom := (hplanned.insert_none hok hargs).mp hn
        constructor
        · rintro hsame ⟨-, ⟨hfull, -⟩ | ⟨-, hnew, -⟩⟩
          · exact hfull hfits
          · exact rollback_added hok hargs hb hnew hsame.balancers
        · intro hno
          have hknown : BalancerUsed ts args.balancer.balancer := by
            by_contra hnew
            exact hno ⟨hadm, Or.inr ⟨hfits, hnew, hroom⟩⟩
          refine ⟨?_, rollback_known hok hargs hb hknown, rfl, rfl⟩
          rw [rollback_nodes hcheck.2.2 hn]
          exact hview.mpr hroom.not_renames
      | aborted balancers b nodes nodeinfo id hb hn hp => cases hfail
      | stored balancers b nodes nodeinfo id ts' px' r hb hn hp hr =>
        simp only at hfail
        split at hfail
        · cases hfail
        · cases hfail
          cases he

/-- The only slot for nodes is in use. -/
def fullTable : Tables :=
  (processConfig plainHttpd Mconf.default 0 (emptyTables ⟨1, 1, 1, 2, 1⟩) none
    (Argv.ofTokens [ascii "JVMRoute", ascii "node1", ascii "Balancer", ascii "pool1"])).tables

theorem fullTable_idsOk : IdsOk fullTable :=
  ((Reachable.empty ⟨1, 1, 1, 2, 1⟩).step (@Step.config plainHttpd False _ _ _ _ _
    fun h => h.elim)).idsOk

/-- A second node in the same balancer fails without a trace. -/
theorem fullTable_sameContents :
    SameContents fullTable (processConfig plainHttpd Mconf.default 1 fullTable none
      (Argv.ofTokens [ascii "JVMRoute", ascii "node2", ascii "Balancer", ascii "pool1", ascii "Port",
        ascii "8010"])).tables := by
  rw [processConfig_atomic_iff _ _ _ _ _ _ (.mnodeui (ascii "node2")) fullTable_idsOk (by decide +kernel) rfl]
  rintro ⟨args, hparse, -, hcase⟩
  have hd : (parseConfig plainHttpd Mconf.default (Argv.ofTokens [ascii "JVMRoute", ascii "node2",
      ascii "Balancer", ascii "pool1", ascii "Port", ascii "8010"])).map
        (fun args => args.balancer.balancer) = .ok (ascii "pool1") := by decide +kernel
  rw [hparse] at hd
  simp only [Except.map, Except.ok.injEq] at hd
  have hused : BalancerUsed fullTable args.balancer.balancer := by
    rw [hd]
    exact ⟨0, _, rfl, by decide +kernel⟩
  rcases hcase with ⟨hfull, -⟩ | ⟨-, hnew, -⟩
  · exact hfull (Or.inl hused)
  · exact hnew hused

/-- A second node in a new balancer fails, and the balancer stays. -/
theorem config_failed_adds_balancer :
    ¬ ∀ (httpd : Httpd) (mconf : Mconf) (now : Int) (ts : Tables) (px : Option Proxy) (argv : Argv)
        (e : McmpError), IdsOk ts → (processConfig httpd mconf now ts px argv).outcome = .failed e →
          e.isCapacity = false → SameContents ts (processConfig httpd mconf now ts px argv).tables := by
  intro h
  have hsame := h plainHttpd Mconf.default 1 fullTable none
    (Argv.ofTokens [ascii "JVMRoute", ascii "node2", ascii "Balancer", ascii "pool2", ascii "Port", ascii "8010"])
    (.mnodeui (ascii "node2")) fullTable_idsOk (by decide +kernel) rfl
  have hlost := hsame.balancers
  revert hlost
  decide +kernel

end ModCluster
