import ModCluster.GuardedRuns

/-!
# From the mark to the free slot

`remove_removed_node` gives up a node in stages. Each stage is left on a tick that comes
`wait_for_remove` or more after the stage was entered. A stage goes on without regard to
what else happens to the tables.
-/

open CString Slotmem Slotmem.Table

namespace ModCluster

/-! ## The stages -/

/-- How far a node with no workers has gone. -/
inductive Stage where
  | marked (since cleaned : Int)
  | renamed (since checks : Int)
  | freed
deriving DecidableEq

/-- It is time for a marked node to go. -/
def DueTick (wait since cleaned now : Int) : Prop := since + wait ≤ now ∧ cleaned + wait ≤ now

instance (wait since cleaned now : Int) : Decidable (DueTick wait since cleaned now) :=
  inferInstanceAs (Decidable (_ ∧ _))

namespace Stage

def tick (wait : Int) : Stage → (now : Int) → Stage
  | marked since cleaned, now => if DueTick wait since cleaned now then renamed now 0 else marked since cleaned
  | renamed since checks, now =>
    if since + wait ≤ now then if checks + 1 > 10 then freed else renamed since (checks + 1)
    else renamed since checks
  | freed, _ => freed

variable {wait since cleaned checks : Int}

theorem foldl_freed (times : List Int) : times.foldl (tick wait) freed = freed := by
  induction times with
  | nil => rfl
  | cons now rest ih => exact ih

theorem foldl_renamed (times : List Int) (hfew : 0 ≤ checks) (hmany : checks ≤ 10) :
    times.foldl (tick wait) (renamed since checks) =
      if checks + times.countP (fun now => decide (since + wait ≤ now)) ≤ 10 then
        renamed since (checks + times.countP (fun now => decide (since + wait ≤ now)))
      else freed := by
  induction times generalizing checks with
  | nil => simp [hmany]
  | cons now rest ih =>
    rw [List.foldl_cons, List.countP_cons]
    by_cases hlate : since + wait ≤ now
    · have htick : tick wait (renamed since checks) now =
          if checks + 1 > 10 then freed else renamed since (checks + 1) := by
        simp [tick, hlate]
      simp only [hlate, decide_true, if_true]
      rw [htick]
      by_cases hlast : checks + 1 > 10
      · rw [if_pos hlast, foldl_freed, if_neg (by omega)]
      · rw [if_neg hlast, ih (by omega) (by omega)]
        have hsum : checks + 1 + (rest.countP (fun now => decide (since + wait ≤ now)) : Int) =
            checks + ((rest.countP (fun now => decide (since + wait ≤ now)) + 1 : Nat) : Int) := by omega
        rw [hsum]
    · have htick : tick wait (renamed since checks) now = renamed since checks := by
        simp [tick, hlate]
      simp only [hlate, decide_false, Bool.false_eq_true, if_false, Nat.add_zero]
      rw [htick]
      exact ih hfew hmany

theorem foldl_marked (times : List Int) :
    times.foldl (tick wait) (marked since cleaned) =
      match times.dropWhile (fun now => !decide (DueTick wait since cleaned now)) with
      | [] => marked since cleaned
      | now :: rest => rest.foldl (tick wait) (renamed now 0) := by
  induction times with
  | nil => rfl
  | cons now rest ih =>
    rw [List.foldl_cons, List.dropWhile_cons]
    by_cases hdue : DueTick wait since cleaned now
    · simp [tick, hdue]
    · simp only [hdue, decide_false, Bool.not_false, if_true]
      rw [← ih]
      simp [tick, hdue]

end Stage

/-- The slot `k` is at this stage. -/
def AtStage (ts : Tables) (k : Nat) : Stage → Prop
  | .marked since cleaned => ∃ n, ts.nodes.used k = some n ∧ n.mess.remove = true ∧ n.mess.jvmRoute ≠ REMOVED ∧
      n.mess.hasWorkers = 0 ∧ n.updatetime = since ∧ n.mess.lastcleantry = cleaned
  | .renamed since checks => ∃ n, ts.nodes.used k = some n ∧ n.mess.jvmRoute = REMOVED ∧ n.mess.hasWorkers = 0 ∧
      n.updatetime = since ∧ n.mess.numRemoveCheck = checks
  | .freed => ts.nodes.used k = none

/-! ## One tick -/

section Tick

variable {httpd : Httpd} {ts ts' : Tables} {wait now : Int} {i j k : Nat} {n : Nodeinfo}

/-- What a tick makes of the record of a node. -/
def afterTick (wait now : Int) (n : Nodeinfo) : Option Nodeinfo :=
  if n.mess.jvmRoute = REMOVED ∧ now - n.updatetime ≥ wait then
    if nodeHasWorkers n then some { n with updatetime := now }
    else if n.mess.numRemoveCheck + 1 > 10 then none
    else some (bumpRemoveCheck n)
  else if n.mess.remove ∧ now - n.updatetime ≥ wait ∧ now - n.mess.lastcleantry ≥ wait then some (retire now n)
  else some n

theorem removeRemovedStep_used (hok : IdsOk ts) (hn : ts.nodes.used i = some n) (j : Nat) :
    (removeRemovedStep httpd wait now ts i).1.nodes.used j = if i = j then afterTick wait now n else ts.nodes.used j := by
  have hd : getNode ts.nodes (i : Int) = some i := dptr_ofNat (used_lt hn)
  have hid : n.mess.id = i := hok.nodes i n hn
  have hpoke (b : Nodeinfo) : (ts.nodes.poke i b).used j = if i = j then some b else ts.nodes.used j := by
    by_cases hij : i = j
    · subst hij
      rw [used_poke_self b hn, if_pos rfl]
    · rw [used_poke_ne b hij, if_neg hij]
  simp only [removeRemovedStep, afterTick, hd, peek_of_used hn]
  split
  · split
    · exact hpoke _
    · split
      · simp only [removeNode, hid, release_ofNat]
        by_cases hij : i = j
        · subst hij
          rw [used_free_self, if_pos rfl]
        · rw [used_setInuse_ne false hij, hpoke]
          simp [hij]
      · exact hpoke _
  · split
    · simp only [locRemoveHostContext_nodes]
      exact hpoke _
    · by_cases hij : i = j
      · subst hij
        rw [if_pos rfl, hn]
      · rw [if_neg hij]

theorem removeRemovedLoop_used (ids : List Int) (hok : IdsOk ts) (hids : IdsUsed ts.nodes ids) (j : Nat) :
    (removeRemovedLoop httpd wait now ids ts).nodes.used j =
      if (j : Int) ∈ ids then (ts.nodes.used j).bind (afterTick wait now) else ts.nodes.used j := by
  induction ids generalizing ts with
  | nil => simp [removeRemovedLoop]
  | cons id ids ih =>
    obtain ⟨i, n, hn, rfl⟩ := hids.used id (by simp)
    have he := @removeRemovedStep_edits False _ wait now httpd _ _ hok False.elim hn
    have hni : (i : Int) ∉ ids := (List.nodup_cons.1 hids.nodup).1
    unfold removeRemovedLoop
    rw [ih (he.idsOk hok) (removeRemovedStep_idsUsed hok hn hids), removeRemovedStep_used hok hn]
    by_cases hij : i = j
    · subst hij
      simp [hni, hn]
    · have hne : (j : Int) ≠ i := by omega
      simp [hij, hne]

theorem removeRemovedNode_used (hok : IdsOk ts) (j : Nat) :
    (removeRemovedNode httpd wait now ts).nodes.used j = (ts.nodes.used j).bind (afterTick wait now) := by
  unfold removeRemovedNode
  rw [getIdsUsedNode_eq, removeRemovedLoop_used _ hok (idsUsed_records hok.nodes)]
  split
  · rfl
  · rename_i hno
    cases hj : ts.nodes.used j with
    | none => rfl
    | some n => exact absurd ((mem_ids hok.nodes).2 ⟨j, n, hj, rfl⟩) hno

theorem AtStage.tick (hok : IdsOk ts) {stage : Stage} (h : AtStage ts k stage) :
    AtStage (removeRemovedNode httpd wait now ts) k (stage.tick wait now) := by
  have hused := @removeRemovedNode_used httpd ts wait now hok k
  cases stage with
  | marked since cleaned =>
    obtain ⟨n, hn, hremove, hroute, hidle, rfl, rfl⟩ := h
    rw [hn, Option.bind_some] at hused
    unfold afterTick at hused
    rw [if_neg fun hold => hroute hold.1] at hused
    simp only [Stage.tick]
    by_cases hdue : DueTick wait n.updatetime n.mess.lastcleantry now
    · have hlate : now - n.updatetime ≥ wait ∧ now - n.mess.lastcleantry ≥ wait := by
        unfold DueTick at hdue
        omega
      rw [if_pos ⟨hremove, hlate⟩] at hused
      rw [if_pos hdue]
      exact ⟨retire now n, hused, rfl, hidle, rfl, rfl⟩
    · have hearly : ¬ (now - n.updatetime ≥ wait ∧ now - n.mess.lastcleantry ≥ wait) := by
        unfold DueTick at hdue
        omega
      rw [if_neg fun hold => hearly hold.2] at hused
      rw [if_neg hdue]
      exact ⟨n, hused, hremove, hroute, hidle, rfl, rfl⟩
  | renamed since checks =>
    obtain ⟨n, hn, hroute, hidle, rfl, rfl⟩ := h
    rw [hn, Option.bind_some] at hused
    have hworkers : nodeHasWorkers n = false := by simp [nodeHasWorkers, hidle]
    unfold afterTick at hused
    simp only [Stage.tick]
    by_cases hlate : n.updatetime + wait ≤ now
    · rw [if_pos ⟨hroute, by omega⟩, hworkers] at hused
      simp only [Bool.false_eq_true, if_false] at hused
      simp only [hlate, if_true]
      by_cases hlast : n.mess.numRemoveCheck + 1 > 10
      · rw [if_pos hlast] at hused ⊢
        exact hused
      · rw [if_neg hlast] at hused ⊢
        exact ⟨bumpRemoveCheck n, hused, hroute, hidle, rfl, rfl⟩
    · rw [if_neg fun hold => hlate (by omega), if_neg fun hold => hlate (by omega)] at hused
      simp only [hlate, if_false]
      exact ⟨n, hused, hroute, hidle, rfl, rfl⟩
  | freed =>
    rw [show ts.nodes.used k = none from h] at hused
    exact hused

end Tick

/-! ## Runs -/

/-- What the stages are read off. -/
def Nodeinfo.removal (n : Nodeinfo) : Bool × Str × Nat × Int × Int × Int :=
  (n.mess.remove, n.mess.jvmRoute, n.mess.hasWorkers, n.updatetime, n.mess.lastcleantry, n.mess.numRemoveCheck)

/-- A run in which slot `k` is left to the watchdog, with the times of its ticks. What
else happens leaves alone what the watchdog reads there. -/
inductive LeftAlone (httpd : Httpd) (wait : Int) (k : Nat) (ts : Tables) : List Int → Tables → Prop
  | start : LeftAlone httpd wait k ts [] ts
  | tick {times : List Int} {ts' : Tables} (now : Int) (h : LeftAlone httpd wait k ts times ts') :
      LeftAlone httpd wait k ts (times ++ [now]) (removeRemovedNode httpd wait now ts')
  | other {times : List Int} {ts' ts'' : Tables} (h : LeftAlone httpd wait k ts times ts')
      (hstep : Step httpd True ts' ts'')
      (hsame : (ts''.nodes.used k).map Nodeinfo.removal = (ts'.nodes.used k).map Nodeinfo.removal) :
      LeftAlone httpd wait k ts times ts''

section Runs

variable {httpd : Httpd} {ts ts' : Tables} {wait : Int} {k : Nat} {times : List Int}

theorem AtStage.of_same {stage : Stage} (h : AtStage ts k stage)
    (hsame : (ts'.nodes.used k).map Nodeinfo.removal = (ts.nodes.used k).map Nodeinfo.removal) :
    AtStage ts' k stage := by
  have hmap (n : Nodeinfo) (hn : ts.nodes.used k = some n) :
      ∃ n', ts'.nodes.used k = some n' ∧ n'.removal = n.removal := by
    rw [hn, Option.map_some, Option.map_eq_some_iff] at hsame
    exact hsame
  cases stage with
  | marked since cleaned =>
    obtain ⟨n, hn, hstage⟩ := h
    obtain ⟨n', hn', heq⟩ := hmap n hn
    simp only [Nodeinfo.removal, Prod.mk.injEq] at heq
    refine ⟨n', hn', ?_⟩
    simpa [heq] using hstage
  | renamed since checks =>
    obtain ⟨n, hn, hstage⟩ := h
    obtain ⟨n', hn', heq⟩ := hmap n hn
    simp only [Nodeinfo.removal, Prod.mk.injEq] at heq
    refine ⟨n', hn', ?_⟩
    simpa [heq] using hstage
  | freed =>
    rw [show ts.nodes.used k = none from h] at hsame
    simpa [AtStage] using hsame

theorem LeftAlone.reachable (hreach : Reachable httpd True ts) (hrun : LeftAlone httpd wait k ts times ts') :
    Reachable httpd True ts' := by
  induction hrun with
  | start => exact hreach
  | tick now _ ih => exact ih.step (.watchdog wait now)
  | other _ hstep _ ih => exact ih.step hstep

theorem LeftAlone.stage {stage : Stage} (hreach : Reachable httpd True ts) (hstage : AtStage ts k stage)
    (hrun : LeftAlone httpd wait k ts times ts') : AtStage ts' k (times.foldl (Stage.tick wait) stage) := by
  induction hrun with
  | start => exact hstage
  | tick now h ih =>
    rw [List.foldl_append]
    exact ih.tick (h.reachable hreach).idsOk
  | other _ _ hsame ih => exact ih.of_same hsame

end Runs

/-- A marked node with no workers that is left to the watchdog is renamed by the first
tick that is due, when all of its hosts and contexts go. Eleven ticks that come late
enough after that one free its slot, and fewer do not. -/
theorem marked_node_retires (httpd : Httpd) (ts : Tables) (hreach : Reachable httpd True ts) (k : Nat) (n : Nodeinfo)
    (hn : ts.nodes.used k = some n) (hmarked : n.mess.remove = true) (hroute : n.mess.jvmRoute ≠ REMOVED)
    (hidle : n.mess.hasWorkers = 0) (wait : Int) (times : List Int) (ts' : Tables)
    (hrun : LeftAlone httpd wait k ts times ts') :
    match times.dropWhile (fun now => !decide (DueTick wait n.updatetime n.mess.lastcleantry now)) with
    | [] => ∃ n', ts'.nodes.used k = some n' ∧ n'.mess.remove = true ∧ n'.mess.jvmRoute ≠ REMOVED
    | now :: rest => Unlinked ts' k ∧ (∀ n', ts'.nodes.used k = some n' → n'.mess.jvmRoute = REMOVED) ∧
        (ts'.nodes.used k = none ↔ 11 ≤ rest.countP fun later => decide (now + wait ≤ later)) := by
  have hstage : AtStage ts k (.marked n.updatetime n.mess.lastcleantry) := ⟨n, hn, hmarked, hroute, hidle, rfl, rfl⟩
  have hend := hrun.stage hreach hstage
  have hlinked := (hrun.reachable hreach).invariants.2.2 trivial
  rw [Stage.foldl_marked] at hend
  generalize times.dropWhile (fun now => !decide (DueTick wait n.updatetime n.mess.lastcleantry now)) = due at hend ⊢
  cases due with
  | nil =>
    obtain ⟨n', hn', hmarked', hroute', -⟩ := hend
    exact ⟨n', hn', hmarked', hroute'⟩
  | cons now rest =>
    simp only at hend ⊢
    rw [Stage.foldl_renamed rest (by omega) (by omega)] at hend
    generalize rest.countP (fun later => decide (now + wait ≤ later)) = late at hend ⊢
    by_cases hfew : (0 : Int) + late ≤ 10
    · rw [if_pos hfew] at hend
      obtain ⟨n', hn', hroute', -⟩ := hend
      refine ⟨hlinked.removed k n' hn' hroute', fun n'' hn'' => ?_, ?_⟩
      · rw [hn', Option.some.injEq] at hn''
        rw [← hn'']
        exact hroute'
      · rw [hn']
        simp only [reduceCtorEq, false_iff]
        omega
    · rw [if_neg hfew] at hend
      have hfree : ts'.nodes.used k = none := hend
      refine ⟨?_, fun n' hn' => ?_, ?_⟩
      · -- What is linked to the slot has a node there.
        have hgone : ∀ x, x = (k : Int) → ¬ NodeUsed ts' x := by
          rintro x rfl ⟨j, a, ha, hj⟩
          obtain rfl : k = j := by omega
          rw [hfree] at ha
          cases ha
        refine ⟨fun j x hx hnode => hgone _ hnode (hlinked.hosts j x hx), fun j c hc hnode => ?_⟩
        obtain ⟨i, x, hx, hxn, -⟩ := hlinked.contexts j c hc
        exact hgone _ (hxn.trans hnode) (hlinked.hosts i x hx)
      · rw [hfree] at hn'
        cases hn'
      · rw [hfree]
        simp only [true_iff]
        omega

/-! ### A node that is removed -/

def markedNode : Tables :=
  (processAppCmd plainHttpd 0 oneNode NODE_COMMAND (Argv.ofTokens [ascii "JVMRoute", ascii "n1"]) .remove).tables

/-- A tick at 100 and then some at 200. -/
def retiring (late : Nat) : Tables :=
  (removeRemovedNode plainHttpd 10 200)^[late] (removeRemovedNode plainHttpd 10 100 markedNode)

theorem markedNode_reachable : Reachable plainHttpd True markedNode := by
  refine oneNode_reachable.step (Step.app _ _ _ _ ?_)
  intro _ args hargs hroute
  have hd : (parseApp plainHttpd (NODE_COMMAND == NODE_COMMAND) (Argv.ofTokens [ascii "JVMRoute", ascii "n1"])).map
      (fun args => args.jvmRoute) = .ok (ascii "n1") := by decide +kernel
  rw [hargs] at hd
  simp only [Except.map, Except.ok.injEq] at hd
  rw [hd] at hroute
  revert hroute
  decide +kernel

theorem retiring_leftAlone (late : Nat) :
    LeftAlone plainHttpd 10 0 markedNode (100 :: List.replicate late 200) (retiring late) := by
  induction late with
  | zero => exact LeftAlone.start.tick 100
  | succ late ih =>
    have hstep := ih.tick 200
    rw [List.cons_append, ← List.replicate_succ'] at hstep
    unfold retiring at hstep ⊢
    rw [Function.iterate_succ_apply']
    exact hstep

theorem markedNode_removal :
    (markedNode.nodes.used 0).map Nodeinfo.removal = some (true, ascii "n1", 0, 0, 0, 0) := by
  decide +kernel

/-- Ten ticks are too few. -/
theorem markedNode_retires : (retiring 10).nodes.used 0 ≠ none ∧ (retiring 11).nodes.used 0 = none := by
  have hremoval := markedNode_removal
  rw [Option.map_eq_some_iff] at hremoval
  obtain ⟨n, hn, heq⟩ := hremoval
  simp only [Nodeinfo.removal, Prod.mk.injEq] at heq
  obtain ⟨hmarked, hroute, hidle, hsince, hcleaned, -⟩ := heq
  have hname : n.mess.jvmRoute ≠ REMOVED := by
    rw [hroute]
    decide
  have hruns (late : Nat) := marked_node_retires plainHttpd markedNode markedNode_reachable 0 n hn hmarked hname hidle
    10 _ _ (retiring_leftAlone late)
  have hdue : DueTick 10 0 0 100 := by decide
  constructor
  · have hrun := hruns 10
    simp only [hsince, hcleaned, hdue, List.dropWhile_cons, decide_true, Bool.not_true, Bool.false_eq_true, if_false]
      at hrun
    rw [ne_eq, hrun.2.2]
    decide
  · have hrun := hruns 11
    simp only [hsince, hcleaned, hdue, List.dropWhile_cons, decide_true, Bool.not_true, Bool.false_eq_true, if_false]
      at hrun
    rw [hrun.2.2]
    decide

end ModCluster
