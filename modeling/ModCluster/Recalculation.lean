import ModCluster.ElectionSpec
import ModCluster.IdleRuns
import ModCluster.PairCounts
import ModCluster.RoutingSafety
import Mathlib.Data.List.Forall2

/-!
# One recalculation

The loop of `update_workers_lbstatus` over the nodes that were in use at its start, in a
process that is not told to stop. Other processes do nothing meanwhile.
-/

open CString Slotmem Slotmem.Table

namespace ModCluster

/-! ## The loop -/

/-- How `update_lbstatus_oldcheck` has a node checked: by the thread pool, or by itself. -/
inductive CheckPath where
  | pushed
  | inline (failed : Bool)
deriving DecidableEq

/-- The server after the two lookups of a tick, and what the second has found. -/
def tickLookups (recalc now : Int) (sv : Server) (ts : Tables) (id : Int) : Server × Lookup :=
  match getNode ts.nodes id with
  | none => (sv, .missing)
  | some i =>
    let ou := ts.nodes.peek i
    if ou.mess.remove = false ∧ ou.mess.updatetimelb < now - recalc ∧ ou.stat.read = ou.mess.oldread then
      let r := getWorkerFromIdStat (pokeNode ts i (noteLbstatus now)) sv id i
      let q := getWorkerFromIdStat r.1 r.2.1 id i
      (q.2.1, q.2.2)
    else (sv, .missing)

/-- One call. A check that was pushed ends the loop, and so does the process when it
follows the helper of a `BalancerMember`. -/
def updateWorkersLoop (hctemplate : Bool) (recalc now : Int) (path : Int → CheckPath) :
    List Int → Server → Tables → Tables
  | [], _, ts => ts
  | id :: ids, sv, ts =>
    let t := updateWorkersLbstatus hctemplate recalc now sv ts id
    let q := tickLookups recalc now sv ts id
    match q.2 with
    | .crashed => t.tables
    | .found b j =>
      if t.check then
        match path id, q.1.worker? b j with
        | .inline failed, some w =>
          updateWorkersLoop hctemplate recalc now path ids q.1 (checkProxyWorker now failed t.tables w id).tables
        | _, _ => t.tables
      else updateWorkersLoop hctemplate recalc now path ids q.1 t.tables
    | _ => updateWorkersLoop hctemplate recalc now path ids q.1 t.tables

def updateWorkers (hctemplate : Bool) (recalc now : Int) (path : Int → CheckPath) (sv : Server) (ts : Tables) :
    Tables :=
  updateWorkersLoop hctemplate recalc now path (getIdsUsedNode ts.nodes) sv ts

/-! ## Statement -/

/-- The recalculation is due for the node in slot `i`. -/
def Due (recalc now : Int) (ts : Tables) (i : Nat) : Prop :=
  ∃ n, ts.nodes.used i = some n ∧ n.mess.remove = false ∧ n.mess.updatetimelb < now - recalc

/-- The node in slot `i` has been recalculated. `ts` is the state before the call. -/
structure Covered (now : Int) (ts ts' : Tables) (i : Nat) : Prop where
  updatetimelb : (ts'.nodes.peek i).mess.updatetimelb = now
  oldelected : (ts'.nodes.peek i).mess.oldelected = (ts.nodes.peek i).stat.elected
  oldread : (ts'.nodes.peek i).mess.oldread = (ts.nodes.peek i).stat.read

/-- The loop would end at this node: its check goes to the thread pool, or its lookup
meets a `BalancerMember`. -/
def EndsLoop (hctemplate : Bool) (recalc now : Int) (path : Int → CheckPath) (sv : Server) (ts : Tables) (id : Int) :
    Prop :=
  (tickLookups recalc now sv ts id).2 = .crashed ∨
    (updateWorkersLbstatus hctemplate recalc now sv ts id).check = true ∧ path id = .pushed

section Frame

variable {hctemplate : Bool} {recalc now : Int} {path : Int → CheckPath} {sv sv' : Server} {ts ts' : Tables}
  {id : Int} {i j : Nat}

/-! ## What a tick looks at -/

/-- What the tick of a node reads of its record, apart from the area's index and state. -/
def Nodeinfo.due (n : Nodeinfo) : Bool × Int × Nat × Nat × (Str × Str × Str) × Nat × Nat × Str × Str × Nat :=
  (n.mess.remove, n.mess.updatetimelb, n.mess.oldelected, n.mess.oldread, (n.mess.type, n.mess.host, n.mess.port),
    n.stat.elected, n.stat.read, n.stat.scheme, n.stat.hostname, n.stat.port)

theorem due_blind : LookupBlind Nodeinfo.due := ⟨fun _ => rfl, fun _ => rfl⟩

/-- The workers are still in their slots, and have their helpers. -/
def SameWorker (w w' : Worker) : Prop := w'.s = w.s ∧ w'.context = w.context

def SameServer (sv sv' : Server) : Prop :=
  List.Forall₂ (fun b b' => List.Forall₂ SameWorker b.workers b'.workers) sv.balancers sv'.balancers

theorem SameServer.refl (sv : Server) : SameServer sv sv :=
  List.forall₂_same.2 fun _ _ => List.forall₂_same.2 fun _ _ => ⟨rfl, rfl⟩

theorem unpairWorkerNode_same (ts : Tables) (w : Worker) (i : Nat) : SameWorker w (unpairWorkerNode ts w i).2 := by
  unfold unpairWorkerNode Worker.write
  split <;> exact ⟨rfl, rfl⟩

theorem area_slot {w : Worker} (h : w.s = .slot i) : w.area ts = (ts.nodes.peek i).stat := by
  rw [Worker.area, h]

theorem isWorkerEmpty_same {w w' : Worker} (hs : w.s = .slot i) (hs' : w'.s = .slot i)
    (hdue : (ts'.nodes.peek i).due = (ts.nodes.peek i).due) : isWorkerEmpty ts' w' = isWorkerEmpty ts w := by
  simp only [Nodeinfo.due, Prod.mk.injEq] at hdue
  unfold isWorkerEmpty
  rw [area_slot hs, area_slot hs']
  simp only [hdue]

theorem lookupWorkers_same {ws ws' : List Worker} (hws : List.Forall₂ SameWorker ws ws')
    (hdue : (ts'.nodes.peek i).due = (ts.nodes.peek i).due) :
    (lookupWorkers id i ts' ws').2.2 = (lookupWorkers id i ts ws).2.2 := by
  induction hws generalizing ts ts' with
  | nil => rfl
  | @cons w w' ws ws' hw _ ih =>
    obtain ⟨hs, hcontext⟩ := hw
    unfold lookupWorkers
    rw [hcontext]
    cases w.context with
    | none => rfl
    | some helper =>
      simp only [hs]
      by_cases hmine : w.s = .slot i ∧ helper.index = id
      · rw [if_pos hmine, if_pos hmine]
        simp only [isWorkerEmpty_same hmine.1 (hs.trans hmine.1) hdue]
      · rw [if_neg hmine, if_neg hmine]
        by_cases hid : helper.index = id
        · simp only [if_pos hid]
          rw [ih]
          rw [(unpairWorkerNode_keeps due_blind ts' w' i).peek, (unpairWorkerNode_keeps due_blind ts w i).peek, hdue]
        · simp only [if_neg hid]
          rw [ih hdue]

theorem lookupWorkers_shape (id : Int) (i : Nat) (ws : List Worker) (ts : Tables) :
    List.Forall₂ SameWorker ws (lookupWorkers id i ts ws).2.1 := by
  induction ws generalizing ts with
  | nil => exact List.Forall₂.nil
  | cons w ws ih =>
    unfold lookupWorkers
    split
    · exact List.forall₂_same.2 fun _ _ => ⟨rfl, rfl⟩
    split
    · exact List.forall₂_same.2 fun _ _ => ⟨rfl, rfl⟩
    simp only
    split
    · exact List.Forall₂.cons (unpairWorkerNode_same ts w i) (ih _)
    · exact List.Forall₂.cons ⟨rfl, rfl⟩ (ih _)

theorem lookupBalancers_same {bs bs' : List ProxyBalancer}
    (hbs : List.Forall₂ (fun b b' : ProxyBalancer => List.Forall₂ SameWorker b.workers b'.workers) bs bs')
    (hdue : (ts'.nodes.peek i).due = (ts.nodes.peek i).due) :
    (lookupBalancers id i ts' bs').2.2 = (lookupBalancers id i ts bs).2.2 := by
  induction hbs generalizing ts ts' with
  | nil => rfl
  | @cons b b' bs bs' hb _ ih =>
    have hfound := @lookupWorkers_same ts ts' id i _ _ hb hdue
    have hnext : ((lookupWorkers id i ts' b'.workers).1.nodes.peek i).due =
        ((lookupWorkers id i ts b.workers).1.nodes.peek i).due := by
      rw [(lookupWorkers_keeps due_blind id i b'.workers ts').peek,
        (lookupWorkers_keeps due_blind id i b.workers ts).peek, hdue]
    unfold lookupBalancers
    simp only [hfound]
    by_cases hmissing : (lookupWorkers id i ts b.workers).2.2 = .missing
    · rw [if_pos hmissing, if_pos hmissing]
      simp only [ih hnext]
    · rw [if_neg hmissing, if_neg hmissing]

theorem lookupBalancers_shape (id : Int) (i : Nat) (bs : List ProxyBalancer) (ts : Tables) :
    List.Forall₂ (fun b b' : ProxyBalancer => List.Forall₂ SameWorker b.workers b'.workers) bs
      (lookupBalancers id i ts bs).2.1 := by
  induction bs generalizing ts with
  | nil => exact List.Forall₂.nil
  | cons b bs ih =>
    unfold lookupBalancers
    simp only
    split
    · exact List.Forall₂.cons (lookupWorkers_shape id i b.workers ts) (ih _)
    · exact List.Forall₂.cons (lookupWorkers_shape id i b.workers ts)
        (List.forall₂_same.2 fun _ _ => List.forall₂_same.2 fun _ _ => ⟨rfl, rfl⟩)

theorem forall₂_trans {α : Type} {R : α → α → Prop} (hR : ∀ a b c, R a b → R b c → R a c) {l l' l'' : List α}
    (h : List.Forall₂ R l l') (h' : List.Forall₂ R l' l'') : List.Forall₂ R l l'' := by
  induction h generalizing l'' with
  | nil => exact h'
  | cons hhead _ ih =>
    cases h' with
    | cons hhead' htail' => exact List.Forall₂.cons (hR _ _ _ hhead hhead') (ih htail')

theorem SameServer.trans {sv'' : Server} (h : SameServer sv sv') (h' : SameServer sv' sv'') : SameServer sv sv'' :=
  forall₂_trans (fun _ _ _ => forall₂_trans fun _ _ _ hw hw' => ⟨hw'.1.trans hw.1, hw'.2.trans hw.2⟩) h h'

theorem getWorkerFromIdStat_same (hsv : SameServer sv sv') (hdue : (ts'.nodes.peek i).due = (ts.nodes.peek i).due) :
    (getWorkerFromIdStat ts' sv' id i).2.2 = (getWorkerFromIdStat ts sv id i).2.2 :=
  lookupBalancers_same hsv hdue

theorem getWorkerFromIdStat_shape (ts : Tables) (sv : Server) (id : Int) (i : Nat) :
    SameServer sv (getWorkerFromIdStat ts sv id i).2.1 := lookupBalancers_shape id i sv.balancers ts

theorem setLbstatus_keeps (elected oldelected : Nat) (s : WorkerShared) :
    (setLbstatus elected oldelected s).elected = s.elected ∧ (setLbstatus elected oldelected s).read = s.read ∧
      (setLbstatus elected oldelected s).scheme = s.scheme ∧ (setLbstatus elected oldelected s).hostname = s.hostname ∧
      (setLbstatus elected oldelected s).port = s.port := by
  unfold setLbstatus
  split <;> exact ⟨rfl, rfl, rfl, rfl, rfl⟩

theorem due_noteLbstatus {n n' : Nodeinfo} (h : n'.due = n.due) :
    (noteLbstatus now n').due = (noteLbstatus now n).due := by
  simp only [Nodeinfo.due, Prod.mk.injEq] at h
  simp only [Nodeinfo.due, noteLbstatus, noteRead, noteElected, setLbstatus_keeps, h]

theorem pokeNode_due (hlt : i < ts.nodes.size) (hsize : ts'.nodes.size = ts.nodes.size)
    (hdue : (ts'.nodes.peek i).due = (ts.nodes.peek i).due) :
    ((pokeNode ts' i (noteLbstatus now)).nodes.peek i).due = ((pokeNode ts i (noteLbstatus now)).nodes.peek i).due := by
  unfold pokeNode
  simp only
  rw [peek_poke_self _ hlt, peek_poke_self _ (by omega)]
  exact due_noteLbstatus hdue

theorem SameServer.symm (h : SameServer sv sv') : SameServer sv' sv :=
  h.flip.imp fun _ _ hb => hb.flip.imp fun _ _ hw => ⟨hw.1.symm, hw.2.symm⟩

theorem SameServer.lookups (h : SameServer sv sv') (ts ts' : Tables) (id : Int) (i : Nat) :
    SameServer (getWorkerFromIdStat ts sv id i).2.1 (getWorkerFromIdStat ts' sv' id i).2.1 :=
  (getWorkerFromIdStat_shape ts sv id i).symm.trans (h.trans (getWorkerFromIdStat_shape ts' sv' id i))

theorem tickLookups_same (hsv : SameServer sv sv') (hsize : ts'.nodes.size = ts.nodes.size)
    (hdue : ∀ i : Nat, id = i → (ts'.nodes.peek i).due = (ts.nodes.peek i).due) :
    (tickLookups recalc now sv' ts' id).2 = (tickLookups recalc now sv ts id).2 := by
  have hnode : getNode ts'.nodes id = getNode ts.nodes id := by
    unfold getNode dptr
    rw [hsize]
  unfold tickLookups
  rw [hnode]
  cases hget : getNode ts.nodes id with
  | none => rfl
  | some i =>
    obtain ⟨hi, hlt⟩ := dptr_eq_some.1 hget
    have hnoted := @pokeNode_due now ts ts' i hlt hsize (hdue i hi)
    have hfields := hdue i hi
    simp only [Nodeinfo.due, Prod.mk.injEq] at hfields
    simp only [hfields]
    split
    · apply getWorkerFromIdStat_same
      · exact hsv.lookups _ _ id i
      · rw [(getWorkerFromIdStat_keeps due_blind _ sv' id i).peek, (getWorkerFromIdStat_keeps due_blind _ sv id i).peek,
          hnoted]
    · rfl

theorem updateLbstatusHcheck_same (hsv : SameServer sv sv') (hdue : (ts'.nodes.peek i).due = (ts.nodes.peek i).due) :
    (updateLbstatusHcheck hctemplate now ts' sv' id i).check =
      (updateLbstatusHcheck hctemplate now ts sv id i).check := by
  have hfound := @getWorkerFromIdStat_same sv sv' ts ts' id i hsv hdue
  have hkeep' := (getWorkerFromIdStat_keeps due_blind ts' sv' id i).peek i
  have hkeep := (getWorkerFromIdStat_keeps due_blind ts sv id i).peek i
  unfold updateLbstatusHcheck
  simp only [hfound]
  cases hlookup : (getWorkerFromIdStat ts sv id i).2.2 with
  | found b j =>
    obtain ⟨w, hw, hs⟩ := getWorkerFromIdStat_found hlookup
    obtain ⟨w', hw', hs'⟩ := getWorkerFromIdStat_found (hfound.trans hlookup)
    have hboth : ((getWorkerFromIdStat ts' sv' id i).1.nodes.peek i).due =
        ((getWorkerFromIdStat ts sv id i).1.nodes.peek i).due := hkeep'.trans (hdue.trans hkeep.symm)
    simp only [Nodeinfo.due, Prod.mk.injEq] at hboth
    have hmatch : workerMatches (w'.area (getWorkerFromIdStat ts' sv' id i).1)
          ((getWorkerFromIdStat ts' sv' id i).1.nodes.peek i).mess =
        workerMatches (w.area (getWorkerFromIdStat ts sv id i).1)
          ((getWorkerFromIdStat ts sv id i).1.nodes.peek i).mess := by
      unfold workerMatches
      rw [area_slot hs, area_slot hs']
      simp only [hboth]
    simp only [hw, hw', hmatch]
    split
    · split <;> rfl
    · rfl
  | missing => rfl
  | empty => rfl
  | crashed => rfl

theorem check_same (hsv : SameServer sv sv') (hsize : ts'.nodes.size = ts.nodes.size)
    (hdue : ∀ i : Nat, id = i → (ts'.nodes.peek i).due = (ts.nodes.peek i).due) :
    (updateWorkersLbstatus hctemplate recalc now sv' ts' id).check =
      (updateWorkersLbstatus hctemplate recalc now sv ts id).check := by
  have hnode : getNode ts'.nodes id = getNode ts.nodes id := by
    unfold getNode dptr
    rw [hsize]
  unfold updateWorkersLbstatus
  rw [hnode]
  cases hget : getNode ts.nodes id with
  | none => rfl
  | some i =>
    obtain ⟨hi, hlt⟩ := dptr_eq_some.1 hget
    have hnoted := @pokeNode_due now ts ts' i hlt hsize (hdue i hi)
    have hfields := hdue i hi
    simp only [Nodeinfo.due, Prod.mk.injEq] at hfields
    simp only [hfields]
    split
    · rfl
    split
    · split
      · apply updateLbstatusHcheck_same
        · exact hsv.lookups _ _ id i
        · rw [(getWorkerFromIdStat_keeps due_blind _ sv' id i).peek,
            (getWorkerFromIdStat_keeps due_blind _ sv id i).peek, hnoted]
      · rfl
    · rfl

theorem tickLookups_shape (recalc now : Int) (sv : Server) (ts : Tables) (id : Int) :
    SameServer sv (tickLookups recalc now sv ts id).1 := by
  unfold tickLookups
  split
  · exact SameServer.refl sv
  simp only
  split
  · exact (getWorkerFromIdStat_shape _ sv id _).trans (getWorkerFromIdStat_shape _ _ id _)
  · exact SameServer.refl sv

/-! ## What a tick writes -/

/-- What a recalculation is about. -/
def Nodeinfo.noted (n : Nodeinfo) : Int × Nat × Nat × Nat × Nat :=
  (n.mess.updatetimelb, n.mess.oldelected, n.mess.oldread, n.stat.elected, n.stat.read)

theorem noted_blind : LookupBlind Nodeinfo.noted := ⟨fun _ => rfl, fun _ => rfl⟩

/-- What a part of the loop for slot `i` does: other nodes look the same, and what the
recalculation of this one has left stays. -/
structure TickKeeps (i : Nat) (m m' : Table Nodeinfo) : Prop where
  noted : KeepsAll Nodeinfo.noted m m'
  others : ∀ j ≠ i, (m'.peek j).due = (m.peek j).due

theorem TickKeeps.trans {m m' m'' : Table Nodeinfo} (h : TickKeeps i m m') (h' : TickKeeps i m' m'') :
    TickKeeps i m m'' :=
  ⟨h.noted.trans h'.noted, fun j hj => (h'.others j hj).trans (h.others j hj)⟩

theorem TickKeeps.refl {m : Table Nodeinfo} : TickKeeps i m m := ⟨KeepsAll.refl, fun _ _ => rfl⟩

theorem TickKeeps.poke {f : Nodeinfo → Nodeinfo} (hf : ∀ n, (f n).noted = n.noted) :
    TickKeeps i ts.nodes (pokeNode ts i f).nodes :=
  ⟨KeepsAll.poke (hf _), fun j hj => by
    unfold pokeNode
    simp only
    rw [peek_poke_ne _ (Ne.symm hj)]⟩

theorem TickKeeps.lookup (ts : Tables) (sv : Server) (id : Int) (i : Nat) :
    TickKeeps i ts.nodes (getWorkerFromIdStat ts sv id i).1.nodes :=
  ⟨getWorkerFromIdStat_keeps noted_blind ts sv id i, fun j _ => (getWorkerFromIdStat_keeps due_blind ts sv id i).peek j⟩

theorem countCheck_noted (now : Int) (failed : Bool) (n : Nodeinfo) : (countCheck now failed n).noted = n.noted := by
  unfold countCheck
  split
  · split <;> rfl
  · rfl

theorem updateLbstatusHcheck_keeps (hctemplate : Bool) (now : Int) (ts : Tables) (sv : Server) (id : Int) (i : Nat) :
    TickKeeps i ts.nodes (updateLbstatusHcheck hctemplate now ts sv id i).tables.nodes := by
  have hlookup := TickKeeps.lookup ts sv id i
  unfold updateLbstatusHcheck
  simp only
  split
  · split
    · exact hlookup
    split
    · split
      · exact hlookup.trans (TickKeeps.poke (countCheck_noted now _))
      · exact hlookup
    · exact hlookup
  · exact hlookup

theorem updateWorkersLbstatus_keeps (hget : getNode ts.nodes id = some i)
    (hremove : (ts.nodes.peek i).mess.remove = false) (hold : (ts.nodes.peek i).mess.updatetimelb < now - recalc) :
    TickKeeps i (pokeNode ts i (noteLbstatus now)).nodes
      (updateWorkersLbstatus hctemplate recalc now sv ts id).tables.nodes := by
  unfold updateWorkersLbstatus
  rw [hget]
  simp only [hremove, Bool.false_eq_true, if_false, if_pos hold]
  split
  · exact (TickKeeps.lookup _ sv id i).trans (updateLbstatusHcheck_keeps hctemplate now _ _ id i)
  · exact TickKeeps.poke fun _ => rfl

theorem checkProxyWorker_keeps (now : Int) (failed : Bool) (w : Worker) (hget : getNode ts.nodes id = some i) :
    TickKeeps i ts.nodes (checkProxyWorker now failed ts w id).tables.nodes := by
  have hwrite : TickKeeps i ts.nodes (w.write ts markError).1.nodes :=
    ⟨write_keeps ts w fun _ => rfl, fun j _ => (write_keeps (f := Nodeinfo.due) ts w fun _ => rfl).peek j⟩
  unfold checkProxyWorker
  cases hread : readNodeWorker ts id (w.area ts) with
  | none => exact TickKeeps.refl
  | some i' =>
    have hsame := readNodeWorker_eq_some hread
    rw [hget, Option.some.injEq] at hsame
    subst hsame
    simp only
    cases failed with
    | true => exact hwrite.trans (TickKeeps.poke (countCheck_noted now true))
    | false => exact TickKeeps.poke (countCheck_noted now false)

theorem pokeNode_noted (hlt : i < ts.nodes.size) :
    ((pokeNode ts i (noteLbstatus now)).nodes.peek i).noted =
      (now, (toInt32 (ts.nodes.peek i).stat.elected % 2 ^ 64).toNat, (ts.nodes.peek i).stat.read,
        (ts.nodes.peek i).stat.elected, (ts.nodes.peek i).stat.read) := by
  unfold pokeNode
  simp only
  rw [peek_poke_self _ hlt]
  simp only [Nodeinfo.noted, noteLbstatus, noteRead, noteElected, setLbstatus_keeps]

/-! ## One iteration -/

/-- What the loop checks of a node. -/
def DueNow (recalc now : Int) (ts : Tables) (i : Nat) : Prop :=
  (ts.nodes.peek i).mess.remove = false ∧ (ts.nodes.peek i).mess.updatetimelb < now - recalc

/-- What a recalculation leaves in a slot. -/
def notedNow (now : Int) (n : Nodeinfo) : Int × Nat × Nat × Nat × Nat :=
  (now, (toInt32 n.stat.elected % 2 ^ 64).toNat, n.stat.read, n.stat.elected, n.stat.read)

structure Iterated (recalc now : Int) (i : Nat) (ts ts' : Tables) : Prop where
  size : ts'.nodes.size = ts.nodes.size
  others : ∀ j ≠ i, (ts'.nodes.peek j).due = (ts.nodes.peek j).due
  done : DueNow recalc now ts i → (ts'.nodes.peek i).noted = notedNow now (ts.nodes.peek i)

theorem Iterated.keeps {ts'' : Tables} (h : Iterated recalc now i ts ts') (hk : TickKeeps i ts'.nodes ts''.nodes) :
    Iterated recalc now i ts ts'' :=
  ⟨hk.noted.size.trans h.size, fun j hj => (hk.others j hj).trans (h.others j hj),
    fun hdue => (hk.noted.peek i).trans (h.done hdue)⟩

theorem getNode_slot (hlt : i < ts.nodes.size) : getNode ts.nodes (i : Int) = some i := dptr_ofNat hlt

theorem updateWorkersLbstatus_iterated (hctemplate : Bool) (recalc now : Int) (sv : Server)
    (hlt : i < ts.nodes.size) :
    Iterated recalc now i ts (updateWorkersLbstatus hctemplate recalc now sv ts i).tables := by
  have hget := getNode_slot hlt
  by_cases hdue : DueNow recalc now ts i
  · have hnote : Iterated recalc now i ts (pokeNode ts i (noteLbstatus now)) := by
      refine ⟨size_poke _ _ _, fun j hj => ?_, fun _ => pokeNode_noted hlt⟩
      unfold pokeNode
      simp only
      rw [peek_poke_ne _ (Ne.symm hj)]
    exact hnote.keeps (updateWorkersLbstatus_keeps hget hdue.1 hdue.2)
  · have hsame : (updateWorkersLbstatus hctemplate recalc now sv ts i).tables = ts := by
      unfold updateWorkersLbstatus
      rw [hget]
      simp only
      split
      · rfl
      rename_i hremove
      rw [if_neg fun hold => hdue ⟨by simpa using hremove, hold⟩]
      rfl
    rw [hsame]
    exact ⟨rfl, fun _ _ => rfl, fun h => absurd h hdue⟩

theorem check_found (hcheck : (updateWorkersLbstatus hctemplate recalc now sv ts id).check = true) :
    ∃ b j w, (tickLookups recalc now sv ts id).2 = .found b j ∧
      (tickLookups recalc now sv ts id).1.worker? b j = some w := by
  unfold updateWorkersLbstatus at hcheck
  unfold tickLookups
  cases hget : getNode ts.nodes id with
  | none =>
    rw [hget] at hcheck
    cases hcheck
  | some i =>
    rw [hget] at hcheck
    simp only at hcheck ⊢
    split at hcheck
    · cases hcheck
    rename_i hremove
    split at hcheck
    swap
    · cases hcheck
    rename_i hold
    split at hcheck
    swap
    · cases hcheck
    rename_i hread
    rw [if_pos ⟨by simpa using hremove, hold, hread⟩]
    unfold updateLbstatusHcheck at hcheck
    simp only at hcheck ⊢
    split at hcheck
    · rename_i b j hfound
      obtain ⟨w, hw, -⟩ := getWorkerFromIdStat_found hfound
      exact ⟨b, j, w, hfound, hw⟩
    · cases hcheck

theorem updateWorkersLoop_cons (ids : List Int) (hlt : i < ts.nodes.size) :
    (EndsLoop hctemplate recalc now path sv ts i ∧
      updateWorkersLoop hctemplate recalc now path (i :: ids) sv ts =
        (updateWorkersLbstatus hctemplate recalc now sv ts i).tables) ∨
    ¬ EndsLoop hctemplate recalc now path sv ts i ∧ ∃ sv' ts', SameServer sv sv' ∧ Iterated recalc now i ts ts' ∧
      updateWorkersLoop hctemplate recalc now path (i :: ids) sv ts =
        updateWorkersLoop hctemplate recalc now path ids sv' ts' := by
  have hiter := updateWorkersLbstatus_iterated hctemplate recalc now sv hlt
  have hshape := tickLookups_shape recalc now sv ts i
  unfold EndsLoop
  rw [updateWorkersLoop]
  cases hcheck : (updateWorkersLbstatus hctemplate recalc now sv ts i).check with
  | true =>
    obtain ⟨b, j, w, hfound, hw⟩ := check_found hcheck
    simp only [hfound, hw]
    cases hpath : path i with
    | pushed => simp
    | inline failed =>
      refine Or.inr ⟨by simp, _, _, hshape, hiter.keeps (checkProxyWorker_keeps now failed w ?_), rfl⟩
      exact getNode_slot (by rw [hiter.size]; exact hlt)
  | false =>
    cases hfound : (tickLookups recalc now sv ts i).2 with
    | crashed => simp
    | missing => exact Or.inr ⟨by simp, _, _, hshape, hiter, rfl⟩
    | empty => exact Or.inr ⟨by simp, _, _, hshape, hiter, rfl⟩
    | found b j => exact Or.inr ⟨by simp, _, _, hshape, hiter, rfl⟩

theorem EndsLoop.same_iff (hsv : SameServer sv sv') (hsize : ts'.nodes.size = ts.nodes.size)
    (hdue : (ts'.nodes.peek i).due = (ts.nodes.peek i).due) :
    EndsLoop hctemplate recalc now path sv' ts' i ↔ EndsLoop hctemplate recalc now path sv ts i := by
  have hslot : ∀ k : Nat, (i : Int) = k → (ts'.nodes.peek k).due = (ts.nodes.peek k).due := by
    intro k hk
    obtain rfl : i = k := by omega
    exact hdue
  unfold EndsLoop
  rw [tickLookups_same hsv hsize hslot, check_same hsv hsize hslot]

theorem noted_of_due {n n' : Nodeinfo} (h : n'.due = n.due) : n'.noted = n.noted := by
  simp only [Nodeinfo.due, Prod.mk.injEq] at h
  simp only [Nodeinfo.noted, h]

theorem DueNow.of_due (h : DueNow recalc now ts i) (hdue : (ts'.nodes.peek i).due = (ts.nodes.peek i).due) :
    DueNow recalc now ts' i := by
  simp only [Nodeinfo.due, Prod.mk.injEq] at hdue
  unfold DueNow
  simp only [hdue]
  exact h

theorem notedNow_of_due {n n' : Nodeinfo} (h : n'.due = n.due) : notedNow now n' = notedNow now n := by
  simp only [Nodeinfo.due, Prod.mk.injEq] at h
  simp only [notedNow, h]

/-! ## The loop -/

/-- The slots as the ids the loop goes over. -/
def slotIds (slots : List Nat) : List Int := slots.map (Nat.cast : Nat → Int)

@[simp]
theorem slotIds_cons (i : Nat) (slots : List Nat) : slotIds (i :: slots) = (i : Int) :: slotIds slots := rfl

theorem updateWorkersLoop_untouched {slots : List Nat} (hlt : ∀ i ∈ slots, i < ts.nodes.size) (hj : j ∉ slots) :
    ((updateWorkersLoop hctemplate recalc now path (slotIds slots) sv ts).nodes.peek j).due =
      (ts.nodes.peek j).due := by
  induction slots generalizing sv ts with
  | nil => rfl
  | cons i slots ih =>
    have hne : j ≠ i := fun heq => hj (by simp [heq])
    have hi := hlt i List.mem_cons_self
    rcases @updateWorkersLoop_cons hctemplate recalc now path sv ts _ (slotIds slots) hi with
      ⟨-, hloop⟩ | ⟨-, sv', ts', hsv, hiter, hloop⟩
    · rw [slotIds_cons, hloop]
      exact (updateWorkersLbstatus_iterated hctemplate recalc now sv hi).others j hne
    · rw [slotIds_cons, hloop, ih, hiter.others j hne]
      · intro k hk
        rw [hiter.size]
        exact hlt k (List.mem_cons_of_mem _ hk)
      · exact fun hmem => hj (List.mem_cons_of_mem _ hmem)

theorem updateWorkersLoop_reached {before after : List Nat} (hnodup : (before ++ j :: after).Nodup)
    (hlt : ∀ i ∈ before ++ j :: after, i < ts.nodes.size)
    (hgoes : ∀ i ∈ before, ¬ EndsLoop hctemplate recalc now path sv ts i) (hdue : DueNow recalc now ts j) :
    ((updateWorkersLoop hctemplate recalc now path (slotIds (before ++ j :: after)) sv ts).nodes.peek j).noted =
      notedNow now (ts.nodes.peek j) := by
  induction before generalizing sv ts with
  | nil =>
    rw [List.nil_append] at hnodup hlt ⊢
    have hj := hlt j List.mem_cons_self
    rcases @updateWorkersLoop_cons hctemplate recalc now path sv ts _ (slotIds after) hj with
      ⟨-, hloop⟩ | ⟨-, sv', ts', hsv, hiter, hloop⟩
    · rw [slotIds_cons, hloop]
      exact (updateWorkersLbstatus_iterated hctemplate recalc now sv hj).done hdue
    · rw [slotIds_cons, hloop, noted_of_due (updateWorkersLoop_untouched ?_ ?_)]
      · exact hiter.done hdue
      · intro k hk
        rw [hiter.size]
        exact hlt k (List.mem_cons_of_mem _ hk)
      · exact (List.nodup_cons.1 hnodup).1
  | cons i before ih =>
    rw [List.cons_append] at hnodup hlt ⊢
    obtain ⟨hnot, hrest⟩ := List.nodup_cons.1 hnodup
    have hi := hlt i List.mem_cons_self
    have hne : ∀ k ∈ before ++ j :: after, k ≠ i := fun k hk heq => hnot (heq ▸ hk)
    rcases @updateWorkersLoop_cons hctemplate recalc now path sv ts _ (slotIds (before ++ j :: after)) hi with
      ⟨hends, -⟩ | ⟨-, sv', ts', hsv, hiter, hloop⟩
    · exact absurd hends (hgoes i List.mem_cons_self)
    · have hj := hiter.others j (hne j (by simp))
      rw [slotIds_cons, hloop, ih hrest, notedNow_of_due hj]
      · intro k hk
        rw [hiter.size]
        exact hlt k (List.mem_cons_of_mem _ hk)
      · intro k hk hends
        have hsame := hiter.others k (hne k (List.mem_append_left _ hk))
        exact hgoes k (List.mem_cons_of_mem _ hk) ((EndsLoop.same_iff hsv hiter.size hsame).1 hends)
      · exact hdue.of_due hj

theorem updateWorkersLoop_stopped {before after : List Nat} (hnodup : (before ++ j :: after).Nodup)
    (hlt : ∀ i ∈ before ++ j :: after, i < ts.nodes.size) (hi : i ∈ before)
    (hends : EndsLoop hctemplate recalc now path sv ts i) :
    ((updateWorkersLoop hctemplate recalc now path (slotIds (before ++ j :: after)) sv ts).nodes.peek j).noted =
      (ts.nodes.peek j).noted := by
  induction before generalizing sv ts with
  | nil => cases hi
  | cons k before ih =>
    rw [List.cons_append] at hnodup hlt ⊢
    obtain ⟨hnot, hrest⟩ := List.nodup_cons.1 hnodup
    have hk := hlt k List.mem_cons_self
    have hne : ∀ n ∈ before ++ j :: after, n ≠ k := fun n hn heq => hnot (heq ▸ hn)
    have hj : j ≠ k := hne j (by simp)
    rcases @updateWorkersLoop_cons hctemplate recalc now path sv ts _ (slotIds (before ++ j :: after)) hk with
      ⟨-, hloop⟩ | ⟨hgoes, sv', ts', hsv, hiter, hloop⟩
    · rw [slotIds_cons, hloop]
      exact noted_of_due ((updateWorkersLbstatus_iterated hctemplate recalc now sv hk).others j hj)
    · rcases List.mem_cons.1 hi with rfl | hi
      · exact absurd hends hgoes
      · have hsame := hiter.others i (hne i (List.mem_append_left _ hi))
        rw [slotIds_cons, hloop, ih hrest, noted_of_due (hiter.others j hj)]
        · intro n hn
          rw [hiter.size]
          exact hlt n (List.mem_cons_of_mem _ hn)
        · exact hi
        · exact (EndsLoop.same_iff hsv hiter.size hsame).2 hends

theorem usedSlots (hids : ts.nodes.IdsMatch (·.mess.id)) : ∃ slots : List Nat,
    getIdsUsedNode ts.nodes = slotIds slots ∧ slots.Pairwise (· < ·) ∧
      ∀ i, i ∈ slots ↔ ∃ n, ts.nodes.used i = some n := by
  have hmem : ∀ {id : Int}, id ∈ getIdsUsedNode ts.nodes ↔ ∃ i n, ts.nodes.used i = some n ∧ id = i := by
    intro id
    rw [getIdsUsedNode_eq]
    exact mem_ids hids
  have hcast : (getIdsUsedNode ts.nodes).map (fun id => ((id.toNat : Nat) : Int)) = getIdsUsedNode ts.nodes := by
    have hself : ∀ id ∈ getIdsUsedNode ts.nodes, ((id.toNat : Nat) : Int) = id := by
      intro id hid
      obtain ⟨i, n, -, rfl⟩ := hmem.1 hid
      simp
    exact (List.map_congr_left hself).trans (List.map_id _)
  refine ⟨(getIdsUsedNode ts.nodes).map Int.toNat, ?_, ?_, fun i => ?_⟩
  · rw [slotIds, List.map_map]
    exact hcast.symm
  · have hincrease := ids_pairwise hids
    rw [← getIdsUsedNode_eq] at hincrease
    rw [List.pairwise_map]
    refine hincrease.imp_of_mem fun {a c} ha hc hlt => ?_
    obtain ⟨i, n, -, rfl⟩ := hmem.1 ha
    obtain ⟨k, n', -, rfl⟩ := hmem.1 hc
    simpa using hlt
  · rw [List.mem_map]
    constructor
    · rintro ⟨id, hid, rfl⟩
      obtain ⟨i, n, hn, rfl⟩ := hmem.1 hid
      exact ⟨n, by simpa using hn⟩
    · rintro ⟨n, hn⟩
      exact ⟨i, hmem.2 ⟨i, n, hn, rfl⟩, by simp⟩

theorem narrowed_iff (n : Nat) : (toInt32 n % 2 ^ 64).toNat = n ↔ n < 2 ^ 31 ∨ 2 ^ 64 - 2 ^ 31 ≤ n ∧ n < 2 ^ 64 := by
  unfold toInt32
  rw [Int.bmod_def]
  omega

theorem Due.dueNow (h : Due recalc now ts i) : DueNow recalc now ts i := by
  obtain ⟨n, hn, hdue⟩ := h
  unfold DueNow
  rw [peek_of_used hn]
  exact hdue

end Frame

/-- A recalculation covers every node that is due when the counters of these nodes fit
into an `int` and the loop ends at no node before one of them. -/
theorem recalculation_covers_iff (hctemplate : Bool) (recalc now : Int) (path : Int → CheckPath) (sv : Server)
    (ts : Tables) (hrecalc : 0 ≤ recalc) (hids : ts.nodes.IdsMatch (·.mess.id)) :
    (∀ i, Due recalc now ts i → Covered now ts (updateWorkers hctemplate recalc now path sv ts) i) ↔
      (∀ i, Due recalc now ts i → (ts.nodes.peek i).stat.elected < 2 ^ 31 ∨
        2 ^ 64 - 2 ^ 31 ≤ (ts.nodes.peek i).stat.elected ∧ (ts.nodes.peek i).stat.elected < 2 ^ 64) ∧
      ∀ i j, i < j → (∃ n, ts.nodes.used i = some n) → Due recalc now ts j →
        ¬ EndsLoop hctemplate recalc now path sv ts i := by
  obtain ⟨slots, hslots, hincrease, hused⟩ := usedSlots hids
  have hnodup : slots.Nodup := hincrease.imp fun h => Nat.ne_of_lt h
  have hlt : ∀ i ∈ slots, i < ts.nodes.size := by
    intro i hi
    obtain ⟨n, hn⟩ := (hused i).1 hi
    exact used_lt hn
  unfold updateWorkers
  rw [hslots]
  have hsplit : ∀ j, Due recalc now ts j → ∃ before after, slots = before ++ j :: after ∧ ∀ i ∈ before, i < j := by
    rintro j ⟨n, hn, -⟩
    obtain ⟨before, after, rfl⟩ := List.append_of_mem ((hused j).2 ⟨n, hn⟩)
    exact ⟨before, after, rfl, fun i hi => (List.pairwise_append.1 hincrease).2.2 i hi j List.mem_cons_self⟩
  have hreached : ∀ j, Due recalc now ts j →
      (∀ i, i < j → (∃ n, ts.nodes.used i = some n) → ¬ EndsLoop hctemplate recalc now path sv ts i) →
      ((updateWorkersLoop hctemplate recalc now path (slotIds slots) sv ts).nodes.peek j).noted =
        notedNow now (ts.nodes.peek j) := by
    intro j hdue hgoes
    obtain ⟨before, after, rfl, hbefore⟩ := hsplit j hdue
    exact updateWorkersLoop_reached hnodup hlt
      (fun i hi => hgoes i (hbefore i hi) ((hused i).1 (by simp [hi]))) hdue.dueNow
  constructor
  · intro hcovers
    have hgoes : ∀ i j, i < j → (∃ n, ts.nodes.used i = some n) → Due recalc now ts j →
        ¬ EndsLoop hctemplate recalc now path sv ts i := by
      intro i j hij hi hdue hends
      obtain ⟨before, after, hsplit, hbefore⟩ := hsplit j hdue
      have himem : i ∈ before := by
        have hi := (hused i).2 hi
        rw [hsplit] at hi hincrease
        rcases List.mem_append.1 hi with hi | hi
        · exact hi
        · rcases List.mem_cons.1 hi with rfl | hi
          · omega
          · have hji := (List.pairwise_cons.1 (List.pairwise_append.1 hincrease).2.1).1 i hi
            omega
      have hsame : ((updateWorkersLoop hctemplate recalc now path (slotIds slots) sv ts).nodes.peek j).noted =
          (ts.nodes.peek j).noted := by
        rw [hsplit] at hnodup hlt ⊢
        exact updateWorkersLoop_stopped hnodup hlt himem hends
      have htime := (hcovers j hdue).updatetimelb
      simp only [Nodeinfo.noted, Prod.mk.injEq] at hsame
      have hold := hdue.dueNow.2
      omega
    refine ⟨fun j hdue => ?_, hgoes⟩
    have hnoted := hreached j hdue fun i hij hi => hgoes i j hij hi hdue
    simp only [Nodeinfo.noted, notedNow, Prod.mk.injEq] at hnoted
    rw [← narrowed_iff, ← hnoted.2.1]
    exact (hcovers j hdue).oldelected
  · rintro ⟨hfits, hgoes⟩ j hdue
    have hnoted := hreached j hdue fun i hij hi => hgoes i j hij hi hdue
    simp only [Nodeinfo.noted, notedNow, Prod.mk.injEq] at hnoted
    exact ⟨hnoted.1, hnoted.2.1.trans ((narrowed_iff _).2 (hfits j hdue)), hnoted.2.2.1⟩

section Example

/-- A node without traffic. -/
def idleNode (i : Nat) : Nodeinfo :=
  { nodeRecord with
    mess := { nodeRecord.mess with id := i }
    stat := { nodeArea with index := i, elected := 7 } }

def twoIdle : Tables := { emptyTables ⟨1, 1, 1, 1, 1⟩ with nodes := ⟨[⟨true, idleNode 0⟩, ⟨true, idleNode 1⟩]⟩ }

/-- The worker of the first node. -/
def idleServer : Server := ⟨[nodeBalancer]⟩

theorem twoIdle_used {i : Nat} {n : Nodeinfo} (h : twoIdle.nodes.used i = some n) :
    (i = 0 ∨ i = 1) ∧ n = idleNode i := by
  have hlt : i < 2 := used_lt h
  obtain rfl | rfl : i = 0 ∨ i = 1 := by omega
  · exact ⟨Or.inl rfl, (Option.some.inj h).symm⟩
  · exact ⟨Or.inr rfl, (Option.some.inj h).symm⟩

theorem twoIdle_idsMatch : twoIdle.nodes.IdsMatch (·.mess.id) := by
  intro i n hn
  rw [(twoIdle_used hn).2]
  rfl

theorem twoIdle_due : Due 5000000 6000000 twoIdle 0 ∧ Due 5000000 6000000 twoIdle 1 :=
  ⟨⟨idleNode 0, rfl, rfl, by decide⟩, ⟨idleNode 1, rfl, rfl, by decide⟩⟩

/-- Checked one after the other, both nodes are recalculated, even if the check fails. -/
theorem inline_covers :
    Covered 6000000 twoIdle (updateWorkers false 5000000 6000000 (fun _ => .inline true) idleServer twoIdle) 0 ∧
      Covered 6000000 twoIdle (updateWorkers false 5000000 6000000 (fun _ => .inline true) idleServer twoIdle) 1 := by
  have hfacts : ((tickLookups 5000000 6000000 idleServer twoIdle 0).2 ≠ .crashed ∧
      (tickLookups 5000000 6000000 idleServer twoIdle 1).2 ≠ .crashed) ∧
      (twoIdle.nodes.peek 0).stat.elected < 2 ^ 31 ∧ (twoIdle.nodes.peek 1).stat.elected < 2 ^ 31 := by
    decide +kernel
  obtain ⟨⟨hzero, hone⟩, hfits, hfits'⟩ := hfacts
  have hcovers := (recalculation_covers_iff false 5000000 6000000 (fun _ => .inline true) idleServer twoIdle (by decide)
    twoIdle_idsMatch).2
  have hall := hcovers ⟨?_, ?_⟩
  · exact ⟨hall 0 twoIdle_due.1, hall 1 twoIdle_due.2⟩
  · rintro i ⟨n, hn, -⟩
    rcases (twoIdle_used hn).1 with rfl | rfl
    · exact Or.inl hfits
    · exact Or.inl hfits'
  · rintro i j - ⟨n, hn⟩ - (hcrash | ⟨-, hpath⟩)
    · rcases (twoIdle_used hn).1 with rfl | rfl
      · exact hzero hcrash
      · exact hone hcrash
    · cases hpath

/-- The check of the first node goes to the pool, and the second is not recalculated. -/
theorem pushed_check_ends_loop :
    ¬ ∀ (hctemplate : Bool) (recalc now : Int) (path : Int → CheckPath) (sv : Server) (ts : Tables), 0 ≤ recalc →
      ts.nodes.IdsMatch (·.mess.id) → ∀ i, Due recalc now ts i →
        Covered now ts (updateWorkers hctemplate recalc now path sv ts) i := by
  intro h
  have hcovered := (h false 5000000 6000000 (fun _ => .pushed) idleServer twoIdle (by decide) twoIdle_idsMatch 1
    twoIdle_due.2).updatetimelb
  revert hcovered
  decide +kernel

end Example

end ModCluster
