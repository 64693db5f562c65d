import ModCluster.IdleChecks
import ModCluster.GuardedRuns
import ModCluster.WorkerCounts

/-!
# Giving up a node

The counter of a slot is never above the number of failures that the slot has seen
in a row. Only a check raises it, by one, and what ends a row of failures clears it.
-/

open CString Slotmem Slotmem.Table

namespace ModCluster

variable {httpd : Httpd} {ts ts' : Tables} {now recalc wait : Int} {i : Nat} {n : Nodeinfo}
  {m m' m'' : Table Nodeinfo} {β : Type}

/-! ## What a step keeps of every slot -/

/-- No slot changes what `f` shows of its record, whether it is in use or not. -/
structure KeepsAll (f : Nodeinfo → β) (m m' : Table Nodeinfo) : Prop where
  size : m'.size = m.size
  peek : ∀ j, f (m'.peek j) = f (m.peek j)

/-- The id, the counter and the mark. -/
def Nodeinfo.idle (n : Nodeinfo) : Int × Int × Bool := (n.mess.id, n.mess.numFailureIdle, n.mess.remove)

def Nodeinfo.failures (n : Nodeinfo) : Int × Int := (n.mess.id, n.mess.numFailureIdle)

variable {f : Nodeinfo → β}

theorem KeepsAll.refl : KeepsAll f m m := ⟨rfl, fun _ => rfl⟩

theorem KeepsAll.trans (h : KeepsAll f m m') (h' : KeepsAll f m' m'') : KeepsAll f m m'' :=
  ⟨h'.size.trans h.size, fun j => (h'.peek j).trans (h.peek j)⟩

theorem KeepsAll.poke (h : f n = f (m.peek i)) : KeepsAll f m (m.poke i n) := by
  refine ⟨size_poke m i n, fun j => ?_⟩
  by_cases hij : i = j
  · subst hij
    by_cases hlt : i < m.size
    · rw [peek_poke_self n hlt, h]
    · rw [poke_of_le n (by omega)]
  · rw [peek_poke_ne n hij]

theorem KeepsAll.setInuse (b : Bool) : KeepsAll f m (m.setInuse i b) :=
  ⟨size_setInuse m i b, fun j => by rw [peek_setInuse]⟩

theorem KeepsAll.release (id : Int) : KeepsAll f m (m.release id) := by
  unfold Table.release
  split
  · exact KeepsAll.setInuse false
  · exact KeepsAll.refl

theorem KeepsAll.failures (h : KeepsAll Nodeinfo.idle m m') : KeepsAll Nodeinfo.failures m m' := by
  refine ⟨h.size, fun j => ?_⟩
  have hj := h.peek j
  simp only [Nodeinfo.idle, Prod.mk.injEq] at hj
  rw [Nodeinfo.failures, Nodeinfo.failures, hj.1, hj.2.1]

/-! ## The steps that count nothing -/

theorem write_keeps (ts : Tables) (w : Worker) {g : WorkerShared → WorkerShared}
    (hg : ∀ n, f { n with stat := g n.stat } = f n) : KeepsAll f ts.nodes (w.write ts g).1.nodes := by
  unfold Worker.write
  split
  · exact KeepsAll.poke (hg _)
  · exact KeepsAll.refl

/-- `f` shows nothing of what a lookup changes. -/
structure LookupBlind (f : Nodeinfo → β) : Prop where
  index : ∀ n, f { n with stat := setIndex (-1) n.stat } = f n
  count : ∀ n, f (decHasWorkers n) = f n

theorem unpairWorkerNode_keeps (hf : LookupBlind f) (ts : Tables) (w : Worker) (i : Nat) :
    KeepsAll f ts.nodes (unpairWorkerNode ts w i).1.nodes :=
  (write_keeps ts w hf.index).trans (KeepsAll.poke (hf.count _))

theorem lookupWorkers_keeps (hf : LookupBlind f) (id : Int) (i : Nat) (ws : List Worker) (ts : Tables) :
    KeepsAll f ts.nodes (lookupWorkers id i ts ws).1.nodes := by
  induction ws generalizing ts with
  | nil => exact KeepsAll.refl
  | cons w rest ih =>
    unfold lookupWorkers
    split
    · exact KeepsAll.refl
    split
    · exact KeepsAll.refl
    simp only
    split
    · exact (unpairWorkerNode_keeps hf ts w i).trans (ih _)
    · exact ih ts

theorem lookupBalancers_keeps (hf : LookupBlind f) (id : Int) (i : Nat) (bs : List ProxyBalancer) (ts : Tables) :
    KeepsAll f ts.nodes (lookupBalancers id i ts bs).1.nodes := by
  induction bs generalizing ts with
  | nil => exact KeepsAll.refl
  | cons b rest ih =>
    unfold lookupBalancers
    simp only
    split
    · exact (lookupWorkers_keeps hf id i b.workers ts).trans (ih _)
    · exact lookupWorkers_keeps hf id i b.workers ts

theorem getWorkerFromIdStat_keeps (hf : LookupBlind f) (ts : Tables) (sv : Server) (id : Int) (i : Nat) :
    KeepsAll f ts.nodes (getWorkerFromIdStat ts sv id i).1.nodes :=
  lookupBalancers_keeps hf id i sv.balancers ts

theorem write_idle (ts : Tables) (w : Worker) (g : WorkerShared → WorkerShared) :
    KeepsAll Nodeinfo.idle ts.nodes (w.write ts g).1.nodes := write_keeps ts w fun _ => rfl

theorem getWorkerFromIdStat_idle (ts : Tables) (sv : Server) (id : Int) (i : Nat) :
    KeepsAll Nodeinfo.idle ts.nodes (getWorkerFromIdStat ts sv id i).1.nodes :=
  getWorkerFromIdStat_keeps ⟨fun _ => rfl, fun _ => rfl⟩ ts sv id i

theorem processAppCmd_failures (httpd : Httpd) (now : Int) (filename : Str) (argv : Argv) (cmd : ContextStatus)
    (hok : IdsOk ts) :
    KeepsAll Nodeinfo.failures ts.nodes (processAppCmd httpd now ts filename argv cmd).tables.nodes := by
  unfold processAppCmd
  simp only
  split
  · exact KeepsAll.refl
  · exact KeepsAll.refl
  rename_i args hparse
  cases hf : ts.nodes.first (hasRoute args.jvmRoute) with
  | none =>
    rw [readNode_none rfl hf]
    exact KeepsAll.refl
  | some i =>
    obtain ⟨a, ha, hr, -⟩ := first_eq_some hf
    have hra : a.mess.jvmRoute = args.jvmRoute := hasRoute_iff.mp hr
    rw [readNode_some hok.nodes rfl hf]
    simp only
    split
    · exact KeepsAll.refl
    split
    · simp only [processNodeCmd]
      split
      · exact KeepsAll.refl
      split
      · simp only [nodeCmdHosts_nodes]
        have hmark := @removeMark_eq now ((incVersionNode ts).nodes) _ _ (hra ▸ hf) ha
        rw [hmark]
        refine KeepsAll.poke ?_
        rw [peek_of_used ha]
        rfl
      · rw [nodeCmdHosts_nodes]
        exact KeepsAll.refl
    · rw [appAliases_nodes]
      exact KeepsAll.refl

theorem removeRemovedStep_idle (id : Int) :
    KeepsAll Nodeinfo.idle ts.nodes (removeRemovedStep httpd wait now ts id).1.nodes := by
  unfold removeRemovedStep
  split
  · exact KeepsAll.refl
  rename_i i _
  have hbump : KeepsAll Nodeinfo.idle ts.nodes (ts.nodes.poke i (bumpRemoveCheck (ts.nodes.peek i))) :=
    KeepsAll.poke rfl
  simp only [removeNode]
  split
  · split
    · exact KeepsAll.poke rfl
    · split
      · exact hbump.trans (KeepsAll.release _)
      · exact hbump
  split
  · simp only [locRemoveHostContext_nodes]
    exact KeepsAll.poke rfl
  · exact KeepsAll.refl

theorem removeRemovedLoop_idle (ids : List Int) (ts : Tables) :
    KeepsAll Nodeinfo.idle ts.nodes (removeRemovedLoop httpd wait now ids ts).nodes := by
  induction ids generalizing ts with
  | nil => exact KeepsAll.refl
  | cons id ids ih => exact (removeRemovedStep_idle id).trans (ih _)

theorem lbRemoveStep_idle (id : Int) :
    KeepsAll Nodeinfo.idle ts.nodes (lbRemoveStep wait now ts id).nodes := by
  unfold lbRemoveStep
  split
  · exact KeepsAll.refl
  simp only
  split
  · simp only [locRemoveHostContext_nodes]
    exact KeepsAll.release _
  · exact KeepsAll.refl

theorem lbRemoveRemovedNode_idle (ids : List Int) (ts : Tables) :
    KeepsAll Nodeinfo.idle ts.nodes (lbRemoveRemovedNode wait now ids ts).nodes := by
  induction ids generalizing ts with
  | nil => exact KeepsAll.refl
  | cons id ids ih => exact (lbRemoveStep_idle id).trans (ih _)

/-! ## CONFIG -/

variable {px : Option Proxy} {args : ConfigArgs} {id : Int} {clean : Bool}

theorem Prepared.failures (h : Prepared httpd ts px args m id clean) :
    KeepsAll Nodeinfo.failures ts.nodes m := by
  cases h with
  | revived k a hid hfirst hused hname => exact KeepsAll.poke rfl
  | renamed k hid hlt hnew hname => exact KeepsAll.poke rfl
  | _ => exact KeepsAll.refl

/-- Storing a node clears the counter of its slot and leaves the others alone. -/
structure StoresIn (k : Nat) (m m' : Table Nodeinfo) : Prop where
  size : m'.size = m.size
  own : (m'.peek k).failures = ((k : Int), 0)
  other : ∀ j, j ≠ k → (m'.peek j).failures = (m.peek j).failures

theorem NodeStored.storesIn {k : Nat} (hown : args.node.mess.numFailureIdle = 0)
    (h : NodeStored now args m id clean k m') : StoresIn k m m' := by
  have hrec : ∀ s, (storedNode now args k s).failures = ((k : Int), 0) := by
    intro s
    rw [Nodeinfo.failures]
    exact congrArg (Prod.mk (k : Int)) hown
  cases h with
  | updated a s hfirst hused hstat =>
    refine ⟨size_poke _ _ _, ?_, fun j hj => ?_⟩
    · rw [peek_poke_self _ (used_lt hused), hrec]
    · rw [peek_poke_ne _ hj.symm]
  | inserted s hnew hlt hslot =>
    refine ⟨size_store _ _ _, ?_, fun j hj => ?_⟩
    · rw [peek_store_self _ hlt, hrec]
    · rw [peek_store_ne _ hj.symm]

theorem StoresIn.after {k : Nat} (h : StoresIn k m' m'') (hm : KeepsAll Nodeinfo.failures m m') :
    StoresIn k m m'' :=
  ⟨h.size.trans hm.size, h.own, fun j hj => (h.other j hj).trans (hm.peek j)⟩

theorem processConfig_failures (mconf : Mconf) (argv : Argv) (hok : IdsOk ts) :
    match storedSlot httpd mconf now ts px argv with
    | some id => ∃ k : Nat, id = k ∧
        StoresIn k ts.nodes (processConfig httpd mconf now ts px argv).tables.nodes
    | none => KeepsAll Nodeinfo.failures ts.nodes (processConfig httpd mconf now ts px argv).tables.nodes := by
  unfold storedSlot processConfig
  cases hparse : parseConfig httpd mconf argv with
  | error e => exact KeepsAll.refl
  | ok args =>
    have hargs := parseConfig_argsOk hparse
    have hown := (parseConfig_own hparse).numFailureIdle
    have hcheck := checkConfig_ok False httpd ts px args
      (by rw [← messageNode, messageNode_jvmRoute hok hargs]; exact hargs.route)
    simp only
    cases h : checkConfig httpd ts px args with
    | fail e => exact KeepsAll.refl
    | abort nodes =>
      obtain ⟨-, id, hprep⟩ := checkConfig_abort_prepared hok hargs h
      exact hprep.failures
    | go plan =>
      obtain ⟨-, hprep, hmess⟩ := checkConfig_prepared hok hargs h
      rw [h] at hcheck
      have hids := hprep.idsMatch hok
      have hbal : (readBalancer ts.balancers args.balancer).2 = messageBalancer ts args := rfl
      have hcom := commitConfig_committed now ts px args plan
      simp only [hbal]
      generalize commitConfig now ts px args plan = r at hcom
      cases hcom with
      | noBalancer hb =>
        rw [hb]
        exact hprep.failures
      | noNode balancers b hb hnone =>
        rw [hb, hnone]
        simp only [Option.map_none]
        rw [rollback_nodes hcheck.2.2 hnone]
        exact hprep.failures
      | aborted balancers b nodes nodeinfo id hb hins hp =>
        obtain ⟨k, rfl, hstored⟩ := insertUpdateNode_stored hids hmess hins
        rw [hb, hins]
        exact ⟨k, rfl, (hstored.storesIn hown).after hprep.failures⟩
      | stored balancers b nodes nodeinfo id ts' px' r hb hins hp hr =>
        obtain ⟨k, rfl, hstored⟩ := insertUpdateNode_stored hids hmess hins
        have hpaired := pairWorker_stored hstored hp
        subst hr
        rw [hb, hins]
        simp only [Option.map_some]
        rw [addAliases_nodes]
        exact ⟨k, rfl, (hpaired.storesIn hown).after hprep.failures⟩

/-! ## The steps that count -/

/-- The slot `i` sees the event `e`, and no other slot sees anything. -/
structure Counted (i : Nat) (e : IdleEvent) (m m' : Table Nodeinfo) : Prop where
  size : m'.size = m.size
  other : ∀ j, j ≠ i → (m'.peek j).idle = (m.peek j).idle
  id : (m'.peek i).mess.id = (m.peek i).mess.id
  count : (m'.peek i).mess.numFailureIdle = if e = .failed then (m.peek i).mess.numFailureIdle + 1 else 0
  mark : (m.peek i).mess.remove = false → (m'.peek i).mess.remove = true →
    e = .failed ∧ 60 < (m'.peek i).mess.numFailureIdle

variable {e : IdleEvent}

theorem Counted.after (h : Counted i e m' m'') (hm : KeepsAll Nodeinfo.idle m m') : Counted i e m m'' := by
  have hi := hm.peek i
  simp only [Nodeinfo.idle, Prod.mk.injEq] at hi
  refine ⟨h.size.trans hm.size, fun j hj => (h.other j hj).trans (hm.peek j), h.id.trans hi.1, ?_, ?_⟩
  · rw [h.count, hi.2.1]
  · intro h0
    rw [← hi.2.2] at h0
    exact h.mark h0

theorem counted_poke (hlt : i < m.size) (hid : n.mess.id = (m.peek i).mess.id)
    (hcount : n.mess.numFailureIdle = if e = .failed then (m.peek i).mess.numFailureIdle + 1 else 0)
    (hmark : (m.peek i).mess.remove = false → n.mess.remove = true → e = .failed ∧ 60 < n.mess.numFailureIdle) :
    Counted i e m (m.poke i n) := by
  have hself := peek_poke_self n hlt
  refine ⟨size_poke m i n, fun j hj => ?_, ?_, ?_, ?_⟩
  · rw [peek_poke_ne n hj.symm]
  · rw [hself, hid]
  · rw [hself, hcount]
  · rw [hself]
    exact hmark

theorem counted_check (hlt : i < m.size) (now : Int) (failed : Bool) :
    Counted i (checkEvent failed) m (m.poke i (countCheck now failed (m.peek i))) := by
  cases failed with
  | false =>
    refine counted_poke hlt rfl rfl fun h0 h1 => ?_
    have h1' : (m.peek i).mess.remove = true := h1
    rw [h0] at h1'
    cases h1'
  | true =>
    have hfail : checkEvent true = .failed := rfl
    rw [hfail]
    by_cases hgive : (addFailure (m.peek i)).mess.numFailureIdle > 60
    · have heq : countCheck now true (m.peek i) = giveUp now (addFailure (m.peek i)) := by
        simp only [countCheck, if_true, if_pos hgive]
      rw [heq]
      exact counted_poke hlt rfl rfl fun _ _ => ⟨rfl, hgive⟩
    · have heq : countCheck now true (m.peek i) = addFailure (m.peek i) := by
        simp only [countCheck, if_true, if_neg hgive]
      rw [heq]
      refine counted_poke hlt rfl rfl fun h0 h1 => ?_
      have h1' : (m.peek i).mess.remove = true := h1
      rw [h0] at h1'
      cases h1'

theorem counted_traffic (hlt : i < m.size) : Counted i .traffic m (m.poke i (clearFailures (m.peek i))) := by
  refine counted_poke hlt rfl rfl fun h0 h1 => ?_
  have h1' : (m.peek i).mess.remove = true := h1
  rw [h0] at h1'
  cases h1'

theorem IdsOk.pokeNode (hok : IdsOk ts) (hid : (ts.nodes.peek i).mess.id = i) (g : Nodeinfo → Nodeinfo)
    (hg : (g (ts.nodes.peek i)).mess.id = (ts.nodes.peek i).mess.id) : IdsOk (ModCluster.pokeNode ts i g) := by
  refine ⟨hok.nodes.poke fun a ha => ?_, ?_, hok.hosts, hok.contexts, hok.balancers⟩
  · rw [hg, peek_of_used ha]
  · intro j hj hr
    rw [ModCluster.pokeNode, size_poke] at hj
    by_cases hij : i = j
    · subst hij
      rw [ModCluster.pokeNode, peek_poke_self _ hj, hg, hid]
    · rw [ModCluster.pokeNode, peek_poke_ne _ hij] at hr ⊢
      exact hok.stale j hj hr

theorem KeepsAll.slotId (h : KeepsAll Nodeinfo.idle m m') (j : Nat) : (m'.peek j).mess.id = (m.peek j).mess.id :=
  congrArg Prod.fst (h.peek j)

/-- What a locked part does to the node table is what it says to have counted. -/
structure LbTickOk (ts : Tables) (t : LbTick) : Prop where
  ids : IdsOk t.tables
  quiet : t.event = none → KeepsAll Nodeinfo.idle ts.nodes t.tables.nodes
  counted : ∀ i e, t.event = some (i, e) → Counted i e ts.nodes t.tables.nodes

theorem LbTickOk.skip (hok : IdsOk ts') (h : KeepsAll Nodeinfo.idle ts.nodes ts'.nodes) :
    LbTickOk ts (LbTick.skip ts') :=
  ⟨hok, fun _ => h, nofun⟩

theorem LbTickOk.after {t : LbTick} (h : LbTickOk ts' t) (hm : KeepsAll Nodeinfo.idle ts.nodes ts'.nodes) :
    LbTickOk ts t :=
  ⟨h.ids, fun he => hm.trans (h.quiet he), fun i e he => (h.counted i e he).after hm⟩

theorem LbTickOk.count (hok : IdsOk ts) (hid : (ts.nodes.peek i).mess.id = i) (g : Nodeinfo → Nodeinfo)
    (hg : (g (ts.nodes.peek i)).mess.id = (ts.nodes.peek i).mess.id)
    (hcount : Counted i e ts.nodes (ts.nodes.poke i (g (ts.nodes.peek i)))) :
    LbTickOk ts ⟨pokeNode ts i g, some (i, e), false⟩ := by
  refine ⟨hok.pokeNode hid g hg, nofun, fun j e' he => ?_⟩
  cases he
  exact hcount

theorem countCheck_id (now : Int) (failed : Bool) (n : Nodeinfo) : (countCheck now failed n).mess.id = n.mess.id := by
  unfold countCheck
  split
  · split <;> rfl
  · rfl

theorem LbTickOk.check (hok : IdsOk ts) (hid : (ts.nodes.peek i).mess.id = i) (hlt : i < ts.nodes.size)
    (now : Int) (failed : Bool) :
    LbTickOk ts ⟨ModCluster.pokeNode ts i (countCheck now failed), some (i, checkEvent failed), false⟩ :=
  LbTickOk.count hok hid _ (countCheck_id now failed _) (counted_check hlt now failed)

theorem LbTickOk.traffic (hok : IdsOk ts) (hid : (ts.nodes.peek i).mess.id = i) (hlt : i < ts.nodes.size) :
    LbTickOk ts ⟨ModCluster.pokeNode ts i clearFailures, some (i, .traffic), false⟩ :=
  LbTickOk.count hok hid _ rfl (counted_traffic hlt)

theorem write_idsOk (hok : IdsOk ts) (w : Worker) (g : WorkerShared → WorkerShared) : IdsOk (w.write ts g).1 := by
  unfold Worker.write
  split
  · rename_i k _
    have he : Edit False ts (pokeStat ts k g) := Edit.node k _ rfl Or.inl (Or.inl rfl) (fun h => h) False.elim
    exact he.idsOk hok
  · exact hok

theorem checkProxyWorker_ok (hok : IdsOk ts) (now : Int) (failed : Bool) (w : Worker) {id : Int}
    (hid : ∀ i : Nat, getNode ts.nodes id = some i → (ts.nodes.peek i).mess.id = i) :
    LbTickOk ts (checkProxyWorker now failed ts w id) := by
  unfold checkProxyWorker
  split
  · exact LbTickOk.skip hok KeepsAll.refl
  rename_i i hread
  have hget : getNode ts.nodes id = some i := by
    unfold readNodeWorker at hread
    simp only at hread
    repeat' split at hread
    all_goals cases hread
    assumption
  have hlt : i < ts.nodes.size := (dptr_eq_some.mp hget).2
  simp only
  split
  · have hw := write_idle ts w markError
    refine LbTickOk.after (LbTickOk.check (write_idsOk hok w markError) ?_ ?_ now failed) hw
    · rw [hw.slotId]
      exact hid i hget
    · rw [hw.size]
      exact hlt
  · exact LbTickOk.check hok (hid i hget) hlt now failed

theorem getWorkerFromIdStat_idsOk (hok : IdsOk ts) (sv : Server) (id : Int) (i : Nat) :
    IdsOk (getWorkerFromIdStat ts sv id i).1 :=
  (getWorkerFromIdStat_spec ts sv id i).1.edits.idsOk hok

theorem updateLbstatusHcheck_ok (hctemplate : Bool) (now : Int) (sv : Server) (id : Int) (hok : IdsOk ts)
    (hid : (ts.nodes.peek i).mess.id = i) (hlt : i < ts.nodes.size) :
    LbTickOk ts (updateLbstatusHcheck hctemplate now ts sv id i) := by
  have hk := getWorkerFromIdStat_idle ts sv id i
  have hok' := getWorkerFromIdStat_idsOk hok sv id i
  have hskip := LbTickOk.skip hok' hk
  unfold updateLbstatusHcheck
  simp only
  split
  · split
    · exact hskip
    split
    · split
      · refine LbTickOk.after (LbTickOk.check hok' ?_ ?_ now _) hk
        · rw [hk.slotId]
          exact hid
        · rw [hk.size]
          exact hlt
      · exact ⟨hok', fun _ => hk, nofun⟩
    · exact hskip
  · exact hskip

theorem updateWorkersLbstatus_ok (hctemplate : Bool) (recalc now : Int) (sv : Server) {id : Int} (hok : IdsOk ts)
    (hid : ∀ i : Nat, getNode ts.nodes id = some i → (ts.nodes.peek i).mess.id = i) :
    LbTickOk ts (updateWorkersLbstatus hctemplate recalc now sv ts id) := by
  have hskip := LbTickOk.skip hok (KeepsAll.refl (f := Nodeinfo.idle) (m := ts.nodes))
  unfold updateWorkersLbstatus
  split
  · exact hskip
  rename_i i hget
  have hlt : i < ts.nodes.size := (dptr_eq_some.mp hget).2
  have hnote : KeepsAll Nodeinfo.idle ts.nodes (pokeNode ts i (noteLbstatus now)).nodes := KeepsAll.poke rfl
  have hok₁ := hok.pokeNode (hid i hget) (noteLbstatus now) rfl
  have hid₁ : ((pokeNode ts i (noteLbstatus now)).nodes.peek i).mess.id = i := by
    rw [hnote.slotId]
    exact hid i hget
  have hlt₁ : i < (pokeNode ts i (noteLbstatus now)).nodes.size := by
    rw [hnote.size]
    exact hlt
  simp only
  split
  · exact hskip
  split
  · split
    · have hk := getWorkerFromIdStat_idle (pokeNode ts i (noteLbstatus now)) sv id i
      refine (updateLbstatusHcheck_ok hctemplate now _ id (getWorkerFromIdStat_idsOk hok₁ sv id i) ?_ ?_).after
        (hnote.trans hk)
      · rw [hk.slotId]
        exact hid₁
      · rw [hk.size]
        exact hlt₁
    · exact (LbTickOk.traffic hok₁ hid₁ hlt₁).after hnote
  · exact hskip

theorem mcWatchdogWorker_ok (recalc now : Int) (node : Nodemess) (elected : Nat) (w : Worker) {id : Int}
    (hok : IdsOk ts) (hid : ∀ i : Nat, getNode ts.nodes id = some i → (ts.nodes.peek i).mess.id = i) :
    LbTickOk ts (mcWatchdogWorker recalc now node elected w ts id) := by
  have hskip := LbTickOk.skip hok (KeepsAll.refl (f := Nodeinfo.idle) (m := ts.nodes))
  unfold mcWatchdogWorker
  split
  · exact hskip
  split
  swap
  · exact hskip
  split
  · exact hskip
  rename_i i hget
  have hlt : i < ts.nodes.size := (dptr_eq_some.mp hget).2
  have hnote : KeepsAll Nodeinfo.idle ts.nodes (pokeNode ts i (noteElected now elected)).nodes := KeepsAll.poke rfl
  have hok₁ := hok.pokeNode (hid i hget) (noteElected now elected) rfl
  have hwrite := hnote.trans (write_idle _ w (setLbstatus elected node.oldelected))
  have hok₂ := write_idsOk hok₁ w (setLbstatus elected node.oldelected)
  simp only
  generalize (w.write (pokeNode ts i (noteElected now elected)) (setLbstatus elected node.oldelected)).1 = ts₂
    at hwrite hok₂
  have hid₂ : (ts₂.nodes.peek i).mess.id = i := by
    rw [hwrite.slotId]
    exact hid i hget
  have hlt₂ : i < ts₂.nodes.size := by
    rw [hwrite.size]
    exact hlt
  split
  · exact hskip
  split
  · exact (LbTickOk.check hok₂ hid₂ hlt₂ now _).after hwrite
  · exact (LbTickOk.traffic hok₂ hid₂ hlt₂).after hwrite

/-! ## Runs -/

/-- The failures in a row, up to now. -/
def failuresInRow (l : List IdleEvent) : Nat := (l.takeWhile (· == .failed)).length

theorem failuresInRow_cons (e : IdleEvent) (l : List IdleEvent) :
    failuresInRow (e :: l) = if e = .failed then failuresInRow l + 1 else 0 := by
  cases e <;> rfl

theorem take_of_failuresInRow {k : Nat} {l : List IdleEvent} (h : k ≤ failuresInRow l) :
    l.take k = List.replicate k .failed := by
  induction l generalizing k with
  | nil =>
    have hk : k = 0 := Nat.le_zero.mp h
    subst hk
    rfl
  | cons e l ih =>
    cases k with
    | zero => rfl
    | succ k =>
      rw [failuresInRow_cons] at h
      split at h
      · rename_i he
        rw [he, List.take_succ_cons, List.replicate_succ, ih (by omega)]
      · omega

structure WatchOk (s : Watch) : Prop where
  ids : IdsOk s.tables
  /-- A slot that was once read as in use has had its number since. -/
  read : ∀ id ∈ s.read, ∃ i : Nat, id = i ∧ i < s.tables.nodes.size ∧ (s.tables.nodes.peek i).mess.id = i
  pending : ∀ c ∈ s.pending, c.id ∈ s.read
  row : ∀ i, (s.tables.nodes.peek i).mess.numFailureIdle ≤ failuresInRow (s.history i)

variable {s s' : Watch}

theorem WatchOk.slotId (h : WatchOk s) {id : Int} (hid : id ∈ s.read) (i : Nat)
    (hget : getNode s.tables.nodes id = some i) : (s.tables.nodes.peek i).mess.id = i := by
  obtain ⟨k, rfl, -, hk⟩ := h.read id hid
  obtain ⟨hik, -⟩ := dptr_eq_some.mp hget
  have hki : k = i := by omega
  subst hki
  exact hk

theorem WatchOk.keeps (h : WatchOk s) (hok : IdsOk ts) (hk : KeepsAll Nodeinfo.failures s.tables.nodes ts.nodes) :
    WatchOk { s with tables := ts } := by
  refine ⟨hok, fun id hid => ?_, h.pending, fun i => ?_⟩
  · obtain ⟨i, rfl, hlt, hi⟩ := h.read id hid
    have hki : (ts.nodes.peek i).mess.id = (s.tables.nodes.peek i).mess.id := congrArg Prod.fst (hk.peek i)
    exact ⟨i, rfl, by rw [hk.size]; exact hlt, hki.trans hi⟩
  · have hki : (ts.nodes.peek i).mess.numFailureIdle = (s.tables.nodes.peek i).mess.numFailureIdle :=
      congrArg Prod.snd (hk.peek i)
    rw [hki]
    exact h.row i

theorem WatchOk.counted (h : WatchOk s) (hok : IdsOk ts) (hc : Counted i e s.tables.nodes ts.nodes) :
    WatchOk { s with tables := ts, history := Watch.log s.history (some (i, e)) } := by
  have hother : ∀ j, j ≠ i → (ts.nodes.peek j).mess.id = (s.tables.nodes.peek j).mess.id ∧
      (ts.nodes.peek j).mess.numFailureIdle = (s.tables.nodes.peek j).mess.numFailureIdle := by
    intro j hj
    have := hc.other j hj
    simp only [Nodeinfo.idle, Prod.mk.injEq] at this
    exact ⟨this.1, this.2.1⟩
  refine ⟨hok, fun id hid => ?_, h.pending, fun j => ?_⟩
  · obtain ⟨k, rfl, hlt, hk⟩ := h.read id hid
    refine ⟨k, rfl, by rw [hc.size]; exact hlt, ?_⟩
    by_cases hki : k = i
    · rw [hki, hc.id, ← hki]
      exact hk
    · rw [(hother k hki).1]
      exact hk
  · by_cases hji : j = i
    · subst hji
      have hrow := h.row j
      simp only [Watch.log, if_true, failuresInRow_cons, hc.count]
      split
      · push_cast
        omega
      · exact Int.le_refl 0
    · simp only [Watch.log, if_neg hji, (hother j hji).2]
      exact h.row j

theorem WatchOk.ticked (h : WatchOk s) {t : LbTick} (ht : LbTickOk s.tables t) {c : PendingCheck} (hc : c.id ∈ s.read) :
    WatchOk (s.ticked c t) := by
  have hpending : ∀ d ∈ (if t.check then c :: s.pending else s.pending), d.id ∈ s.read := by
    intro d hd
    split at hd
    · rcases List.mem_cons.mp hd with rfl | hd
      · exact hc
      · exact h.pending d hd
    · exact h.pending d hd
  cases he : t.event with
  | none =>
    have hw := h.keeps ht.ids (ht.quiet he).failures
    refine ⟨hw.ids, hw.read, hpending, ?_⟩
    simp only [Watch.ticked, he]
    exact hw.row
  | some p =>
    obtain ⟨i, e⟩ := p
    have hw := h.counted ht.ids (ht.counted i e he)
    refine ⟨hw.ids, hw.read, hpending, ?_⟩
    simp only [Watch.ticked, he]
    exact hw.row

theorem WatchOk.config (h : WatchOk s) (httpd : Httpd) (mconf : Mconf) (now : Int) (px : Option Proxy)
    (argv : Argv) : WatchOk (s.config httpd mconf now px argv) := by
  have he : Edits False s.tables _ := processConfig_edits httpd mconf now px argv h.ids False.elim
  have hok : IdsOk (processConfig httpd mconf now s.tables px argv).tables := he.idsOk h.ids
  have hf := @processConfig_failures httpd s.tables now px mconf argv h.ids
  unfold Watch.config
  cases hs : storedSlot httpd mconf now s.tables px argv with
  | none =>
    rw [hs] at hf
    exact h.keeps hok hf
  | some id =>
    rw [hs] at hf
    obtain ⟨k, rfl, hk⟩ := hf
    refine ⟨hok, fun id hid => ?_, h.pending, fun j => ?_⟩
    · obtain ⟨i, rfl, hlt, hi⟩ := h.read id hid
      refine ⟨i, rfl, by rw [hk.size]; exact hlt, ?_⟩
      by_cases hik : i = k
      · rw [hik]
        exact congrArg Prod.fst hk.own
      · exact (congrArg Prod.fst (hk.other i hik)).trans hi
    · simp only [Option.map_some, Watch.log, Int.toNat_natCast]
      by_cases hjk : j = k
      · subst hjk
        rw [if_pos rfl, failuresInRow_cons, if_neg nofun]
        exact Int.le_of_eq (congrArg Prod.snd hk.own)
      · rw [if_neg hjk]
        have hcount := congrArg Prod.snd (hk.other j hjk)
        exact Int.le_trans (Int.le_of_eq hcount) (h.row j)

theorem WatchStep.ok {watchdog : Bool} (hstep : WatchStep httpd watchdog s s') (h : WatchOk s) : WatchOk s' := by
  cases hstep with
  | config mconf now px argv => exact h.config httpd mconf now px argv
  | app now filename argv cmd =>
    refine h.keeps ?_ (processAppCmd_failures httpd now filename argv cmd h.ids)
    have he : Edits False s.tables _ := processAppCmd_edits httpd now filename argv cmd h.ids False.elim
    exact he.idsOk h.ids
  | note watchdog i n hnote =>
    have he : Edit False s.tables { s.tables with nodes := s.tables.nodes.poke i n } := by
      refine Edit.node i n hnote.id (fun hr => Or.inl ?_) (Or.inl hnote.balancer) ?_ False.elim
      · rw [← hnote.unmarked]
        exact hr
      · rw [hnote.jvmRoute]
        exact fun hr => hr
    refine h.keeps (he.idsOk h.ids) (KeepsAll.poke ?_)
    · rw [Nodeinfo.failures, Nodeinfo.failures, hnote.id, hnote.numFailureIdle]
  | readIds watchdog =>
    refine ⟨h.ids, fun id hid => ?_, fun c hc => List.mem_append_right _ (h.pending c hc), h.row⟩
    rcases List.mem_append.mp hid with hused | hid
    · rw [getIdsUsedNode_eq] at hused
      obtain ⟨i, a, ha, rfl⟩ := (mem_ids h.ids.nodes).mp hused
      refine ⟨i, rfl, used_lt ha, ?_⟩
      rw [peek_of_used ha]
      exact h.ids.nodes i a ha
    · exact h.read id hid
  | tick hctemplate recalc now sv id hid =>
    exact h.ticked (updateWorkersLbstatus_ok hctemplate recalc now sv h.ids (h.slotId hid)) hid
  | complete c hc failed w =>
    have hid := h.pending c hc
    have h' : WatchOk { s with pending := s.pending.erase c } :=
      ⟨h.ids, h.read, fun d hd => h.pending d (List.mem_of_mem_erase hd), h.row⟩
    exact h'.ticked (checkProxyWorker_ok h.ids c.now failed w (h.slotId hid)) hid
  | abandon c => exact ⟨h.ids, h.read, fun d hd => h.pending d (List.mem_of_mem_erase hd), h.row⟩
  | lbTick recalc now node elected w id hid =>
    exact h.ticked (mcWatchdogWorker_ok recalc now node elected w h.ids (h.slotId hid)) hid
  | removeRemoved wait now =>
    refine h.keeps ?_ (removeRemovedLoop_idle _ _).failures
    have he : Edits False s.tables _ := removeRemovedNode_edits httpd wait now h.ids False.elim
    exact he.idsOk h.ids
  | lbRemoveRemoved wait now nodeTable =>
    refine h.keeps ?_ (lbRemoveRemovedNode_idle nodeTable _).failures
    have he : Edits False s.tables _ := lbRemoveRemovedNode_edits wait now nodeTable h.ids False.elim
    exact he.idsOk h.ids

theorem WatchReachable.ok (h : WatchReachable httpd s) : WatchOk s := by
  obtain ⟨sz, h⟩ := h
  induction h with
  | refl =>
    refine ⟨idsOk_empty sz, nofun, nofun, fun i => ?_⟩
    have hp : (emptyTables sz).nodes.peek i = default := peek_empty sz.nodes i
    simp only [Watch.start, hp]
    exact Int.le_refl 0
  | tail _ hstep ih =>
    obtain ⟨watchdog, hstep⟩ := hstep
    exact hstep.ok ih

theorem LbTickOk.marks {t : LbTick} (ht : LbTickOk ts t) (h0 : (ts.nodes.peek i).mess.remove = false)
    (h1 : (t.tables.nodes.peek i).mess.remove = true) : 60 < (t.tables.nodes.peek i).mess.numFailureIdle := by
  have hsame : ∀ {m m' : Table Nodeinfo}, (m.peek i).mess.remove = false → (m'.peek i).mess.remove = true →
      (m'.peek i).idle ≠ (m.peek i).idle := by
    intro m m' h0 h1 heq
    simp only [Nodeinfo.idle, Prod.mk.injEq] at heq
    rw [heq.2.2, h0] at h1
    cases h1
  cases he : t.event with
  | none => exact absurd ((ht.quiet he).peek i) (hsame h0 h1)
  | some p =>
    obtain ⟨k, e⟩ := p
    have hc := ht.counted k e he
    by_cases hik : i = k
    · subst hik
      exact (hc.mark h0 h1).2
    · exact absurd (hc.other i hik) (hsame h0 h1)

/-- When a watchdog marks a node for removal, the last 61 events that its slot has seen
are failed checks. -/
theorem given_up_after_failures (httpd : Httpd) (s s' : Watch) (hs : WatchReachable httpd s)
    (hstep : WatchStep httpd true s s') (i : Nat) (h0 : (s.tables.nodes.peek i).mess.remove = false)
    (h1 : (s'.tables.nodes.peek i).mess.remove = true) :
    (s'.history i).take 61 = List.replicate 61 .failed := by
  have hok := hs.ok
  have hrow := (hstep.ok hok).row i
  suffices h60 : 60 < (s'.tables.nodes.peek i).mess.numFailureIdle from take_of_failuresInRow (by omega)
  have hkeeps : ∀ {ts : Tables}, KeepsAll Nodeinfo.idle s.tables.nodes ts.nodes →
      (ts.nodes.peek i).mess.remove = true → 60 < (ts.nodes.peek i).mess.numFailureIdle := by
    intro ts hk hmark
    have hi := hk.peek i
    simp only [Nodeinfo.idle, Prod.mk.injEq] at hi
    rw [hi.2.2, h0] at hmark
    cases hmark
  cases hstep with
  | note _ k n hnote =>
    refine @hkeeps { s.tables with nodes := s.tables.nodes.poke k n } (KeepsAll.poke ?_) h1
    rw [Nodeinfo.idle, Nodeinfo.idle, hnote.id, hnote.numFailureIdle, hnote.unmarked]
  | readIds => exact hkeeps KeepsAll.refl h1
  | tick hctemplate recalc now sv id hid =>
    exact (updateWorkersLbstatus_ok hctemplate recalc now sv hok.ids (hok.slotId hid)).marks h0 h1
  | complete c hc failed w =>
    exact (checkProxyWorker_ok hok.ids c.now failed w (hok.slotId (hok.pending c hc))).marks h0 h1
  | abandon c => exact hkeeps KeepsAll.refl h1
  | lbTick recalc now node elected w id hid =>
    exact (mcWatchdogWorker_ok recalc now node elected w hok.ids (hok.slotId hid)).marks h0 h1
  | removeRemoved wait now => exact hkeeps (removeRemovedLoop_idle _ _) h1
  | lbRemoveRemoved wait now nodeTable => exact hkeeps (lbRemoveRemovedNode_idle nodeTable _) h1

/-! ## A node that stops answering -/

/-- A worker that the health checks have found dead. -/
def deadWorker : Worker :=
  { s := .priv, priv := { (default : WorkerShared) with status := PROXY_WORKER_HC_FAIL }, context := none }

/-- One registered node, whose id has been read. -/
def watchedNode : Watch :=
  let s := (Watch.start ⟨2, 2, 2, 2, 2⟩).config plainHttpd Mconf.default 0 none
    (Argv.ofTokens [ascii "JVMRoute", ascii "n1", ascii "Alias", ascii "host1", ascii "Context", ascii "/app"])
  { s with read := getIdsUsedNode s.tables.nodes ++ s.read }

def deadTick (s : Watch) : Watch :=
  s.ticked ⟨0, 10⟩ (mcWatchdogWorker 0 10 default 0 deadWorker s.tables 0)

theorem watchedNode_facts :
    (0 : Int) ∈ watchedNode.read ∧ ((deadTick^[60] watchedNode).tables.nodes.peek 0).mess.remove = false ∧
      ((deadTick^[60 + 1] watchedNode).tables.nodes.peek 0).mess.remove = true := by
  decide +kernel

theorem deadTick_read (k : Nat) : (0 : Int) ∈ (deadTick^[k] watchedNode).read := by
  induction k with
  | zero => exact watchedNode_facts.1
  | succ k ih =>
    rw [Function.iterate_succ_apply']
    exact ih

theorem deadTick_step (k : Nat) :
    WatchStep plainHttpd true (deadTick^[k] watchedNode) (deadTick^[k + 1] watchedNode) := by
  rw [Function.iterate_succ_apply']
  exact .lbTick 0 10 default 0 deadWorker 0 (deadTick_read k)

theorem deadTick_reachable (k : Nat) : WatchReachable plainHttpd (deadTick^[k] watchedNode) := by
  induction k with
  | zero => exact ⟨⟨2, 2, 2, 2, 2⟩, .tail (.single ⟨false, .config _ _ _ _⟩) ⟨false, .readIds false⟩⟩
  | succ k ih =>
    obtain ⟨sz, ih⟩ := ih
    exact ⟨sz, ih.tail ⟨true, deadTick_step k⟩⟩

/-- The 61st failure in a row is the one that marks the node. -/
theorem watchedNode_given_up :
    ((deadTick^[60] watchedNode).tables.nodes.peek 0).mess.remove = false ∧
      ((deadTick^[60 + 1] watchedNode).tables.nodes.peek 0).mess.remove = true ∧
      ((deadTick^[60 + 1] watchedNode).history 0).take 61 = List.replicate 61 .failed := by
  obtain ⟨-, h0, h1⟩ := watchedNode_facts
  exact ⟨h0, h1, given_up_after_failures plainHttpd _ _ (deadTick_reachable 60) (deadTick_step 60) 0 h0 h1⟩

example : ((deadTick^[2] watchedNode).history 0).take 2 = [.failed, .failed] := by decide +kernel

end ModCluster
