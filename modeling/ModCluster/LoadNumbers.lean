import ModCluster.Recalculation
import ModCluster.ElectionClasses
import ModCluster.Counters
import Mathlib.Data.List.Chain

/-!
# Loads in machine integers

A node counts its elections in `elected`, and a recalculation notes where the counter
stands in `oldelected`. Requests, recalculations and CONFIGs move the two apart and
together. The loads are computed from their difference, as `size_t` or as `int`.
-/

open CString Slotmem Slotmem.Table

namespace ModCluster

/-! ## Statement -/

namespace Nodeinfo

/-- `((elected - oldelected) * 1000) / lbfactor` in integers. -/
def exactLoad (n : Nodeinfo) : Int :=
  (((n.stat.elected : Int) - n.mess.oldelected) * 1000).tdiv n.stat.lbfactor

/-- The elections since `oldelected` was noted. -/
def served (n : Nodeinfo) : Nat := n.stat.elected - n.mess.oldelected

end Nodeinfo

/-- The load factor is one that a STATUS gives, and `lbstatus` is an `int`. -/
structure Rated (s : WorkerShared) : Prop where
  lbfactor : 1 ≤ s.lbfactor ∧ s.lbfactor ≤ 100
  lbstatus : -2 ^ 31 ≤ s.lbstatus ∧ s.lbstatus < 2 ^ 31

/-- What an election compares and what a recalculation stores is right. -/
structure LoadExact (n : Nodeinfo) : Prop where
  compared : Rated n.stat → lbstatusOf n.stat n.mess.oldelected = n.exactLoad + n.stat.lbstatus
  stored : Rated n.stat → ∀ now, (noteLbstatus now n).stat.lbstatus = n.exactLoad
  noted : ∀ now, (noteLbstatus now n).mess.oldelected = n.stat.elected

/-- The counter, the product and the sum fit into an `int`. -/
structure LoadFits (n : Nodeinfo) : Prop where
  elected : n.stat.elected < 2 ^ 31 ∨ 2 ^ 64 - 2 ^ 31 ≤ n.stat.elected ∧ n.stat.elected < 2 ^ 64
  product : Rated n.stat → n.served * 1000 < 2 ^ 31
  sum : Rated n.stat → (n.served * 1000 / n.stat.lbfactor.toNat : Nat) + n.stat.lbstatus < 2 ^ 31

/-- What a process does to the tables. `sv` is the server it does it for. -/
inductive LoadStep (httpd : Httpd) (ts : Tables) : Tables → Prop
  /-- A request is given a worker in an election. -/
  | elects (cfg : Settings) (s : Snapshot) (b : Nat) (turn : Turn) (domain : Option Str) (failoverdomain : Bool)
      (sv : Server) (r : Request) :
      LoadStep httpd ts
        (internalFindBestByrequests httpd cfg s b turn domain failoverdomain ⟨⟨ts, sv⟩, r⟩).1.world.tables
  /-- A request goes to the worker of its session. -/
  | sticky (sv : Server) (b j : Nat) : LoadStep httpd ts ((World.mk ts sv).write b j electedOnce).tables
  /-- The slot has had its number since the ids were read. -/
  | recalculates (hctemplate : Bool) (recalc now : Int) (sv : Server) (id : Int)
      (hid : ∀ i, getNode ts.nodes id = some i → (ts.nodes.peek i).mess.id = i) :
      LoadStep httpd ts (updateWorkersLbstatus hctemplate recalc now sv ts id).tables
  | config (mconf : Mconf) (now : Int) (px : Option Proxy) (argv : Argv) :
      LoadStep httpd ts (processConfig httpd mconf now ts px argv).tables
  /-- Anything else. No counter changes. -/
  | other (ts' : Tables) (hids : IdsOk ts → IdsOk ts')
      (hcounts : ∀ i, (ts'.nodes.peek i).stat.elected = (ts.nodes.peek i).stat.elected ∧
        (ts'.nodes.peek i).mess.oldelected = (ts.nodes.peek i).mess.oldelected) :
      LoadStep httpd ts ts'

/-! ## Arithmetic -/

section Arithmetic

theorem toInt32_eq_self {x : Int} (h : -2 ^ 31 ≤ x) (h' : x < 2 ^ 31) : toInt32 x = x := by
  unfold toInt32
  rw [Int.bmod_def]
  omega

theorem toInt32_lt (x : Int) : toInt32 x < 2 ^ 31 := by
  unfold toInt32
  rw [Int.bmod_def]
  omega

theorem toInt32_product (e o : Nat) : toInt32 ((toInt32 e - toInt32 o) * 1000) = toInt32 (((e : Int) - o) * 1000) := by
  unfold toInt32
  rw [← Int.bmod_mul_bmod, Int.bmod_sub_bmod, Int.sub_bmod_bmod, Int.bmod_mul_bmod]

theorem toInt32_tdiv_eq_iff {x : Nat} {f : Int} (hf : 1 ≤ f) (hf' : f ≤ 100) :
    (toInt32 x).tdiv f = (x : Int).tdiv f ↔ x < 2 ^ 31 := by
  constructor
  · intro heq
    by_contra hlarge
    have hfar : toInt32 x + f ≤ x := by
      have hlt := toInt32_lt x
      unfold toInt32 at hlt ⊢
      rw [Int.bmod_def] at hlt ⊢
      omega
    have hpos : 0 < (x : Int).tdiv f := by
      rw [Int.tdiv_eq_ediv_of_nonneg (by omega)]
      exact (Int.le_ediv_iff_mul_le (by omega)).2 (by omega)
    rcases Int.lt_or_le (toInt32 x) 0 with hneg | hnonneg
    · have hflip : 0 ≤ (-toInt32 x).tdiv f := Int.tdiv_nonneg (by omega) (by omega)
      rw [Int.neg_tdiv] at hflip
      omega
    · have hnext : (toInt32 x + f) / f = toInt32 x / f + 1 := Int.add_ediv_of_dvd_right (Int.dvd_refl f) |>.trans (by
        rw [Int.ediv_self (by omega)])
      have hle := Int.ediv_le_ediv (show 0 < f by omega) hfar
      rw [Int.tdiv_eq_ediv_of_nonneg hnonneg, Int.tdiv_eq_ediv_of_nonneg (by omega)] at heq
      omega
  · intro hfits
    rw [toInt32_eq_self (by omega) (by omega)]

theorem lbstatusOf_eq_iff {s : WorkerShared} {oldelected : Nat} (hs : Rated s) (hle : oldelected ≤ s.elected)
    (hcounter : s.elected < 2 ^ 64) :
    lbstatusOf s oldelected = (((s.elected : Int) - oldelected) * 1000).tdiv s.lbfactor + s.lbstatus ↔
      (((s.elected - oldelected) * 1000 / s.lbfactor.toNat : Nat) : Int) + s.lbstatus < 2 ^ 31 := by
  obtain ⟨⟨hpos, hmax⟩, hlow, -⟩ := hs
  have hexact : (((s.elected : Int) - oldelected) * 1000).tdiv s.lbfactor =
      (((s.elected - oldelected) * 1000 / s.lbfactor.toNat : Nat) : Int) := by
    have hdiff : (s.elected : Int) - oldelected = ((s.elected - oldelected : Nat) : Int) := by omega
    have hfactor : s.lbfactor = (s.lbfactor.toNat : Int) := by omega
    rw [hdiff, hfactor]
    rfl
  have hserved : (s.elected + 2 ^ 64 - oldelected % 2 ^ 64) % 2 ^ 64 = s.elected - oldelected := by omega
  unfold lbstatusOf
  simp only [hserved]
  rw [hexact]
  constructor
  · intro heq
    rw [← heq]
    exact toInt32_lt _
  · intro hfits
    have hquotient : (s.elected - oldelected) * 1000 / s.lbfactor.toNat < 2 ^ 32 := by omega
    have hproduct : (s.elected - oldelected) * 1000 < 2 ^ 64 := by
      rw [Nat.div_lt_iff_lt_mul (by omega)] at hquotient
      omega
    rw [Nat.mod_eq_of_lt hproduct]
    generalize (s.elected - oldelected) * 1000 / s.lbfactor.toNat = quotient at hfits ⊢
    exact toInt32_eq_self (by omega) hfits

/-- The counter is not behind the note. -/
def Nodeinfo.Ordered (n : Nodeinfo) : Prop := n.mess.oldelected ≤ n.stat.elected

theorem loadExact_iff {n : Nodeinfo} (hle : n.Ordered) : LoadExact n ↔ LoadFits n := by
  unfold Nodeinfo.Ordered at hle
  have hnoted : (∀ now, (noteLbstatus now n).mess.oldelected = n.stat.elected) ↔
      (n.stat.elected < 2 ^ 31 ∨ 2 ^ 64 - 2 ^ 31 ≤ n.stat.elected ∧ n.stat.elected < 2 ^ 64) := by
    have hvalue : ∀ now, (noteLbstatus now n).mess.oldelected = (toInt32 n.stat.elected % 2 ^ 64).toNat := by
      intro now
      simp only [noteLbstatus, noteRead, noteElected]
    rw [← narrowed_iff]
    simp only [hvalue, forall_const]
  have hstored : (Rated n.stat → ∀ now, (noteLbstatus now n).stat.lbstatus = n.exactLoad) ↔
      (Rated n.stat → n.served * 1000 < 2 ^ 31) := by
    refine imp_congr_right fun hs => ?_
    have hproduct : ((n.stat.elected : Int) - n.mess.oldelected) * 1000 = ((n.served * 1000 : Nat) : Int) := by
      unfold Nodeinfo.served
      omega
    have hvalue : ∀ now, (noteLbstatus now n).stat.lbstatus =
        (toInt32 ((n.served * 1000 : Nat) : Int)).tdiv n.stat.lbfactor := by
      intro now
      have hpos : n.stat.lbfactor > 0 := by
        have hmin := hs.lbfactor.1
        omega
      simp only [noteLbstatus, setLbstatus, if_pos hpos, lbstatusSince]
      rw [toInt32_product, hproduct]
    simp only [hvalue, Nodeinfo.exactLoad]
    rw [hproduct, forall_const]
    exact toInt32_tdiv_eq_iff hs.lbfactor.1 hs.lbfactor.2
  constructor
  · intro h
    have helected := hnoted.1 h.noted
    exact ⟨helected, hstored.1 h.stored, fun hs => (lbstatusOf_eq_iff hs hle (by omega)).1 (h.compared hs)⟩
  · intro h
    have hcounter : n.stat.elected < 2 ^ 64 := by
      have helected := h.elected
      omega
    exact ⟨fun hs => (lbstatusOf_eq_iff hs hle hcounter).2 (h.sum hs), hstored.2 h.product, hnoted.2 h.elected⟩

end Arithmetic

/-! ## What a step does -/

/-- The counter goes on, the note is cleared, or the note is brought up to the counter. -/
inductive CountMove (n n' : Nodeinfo) : Prop
  | counts (hnote : n'.mess.oldelected = n.mess.oldelected) (hle : n.stat.elected ≤ n'.stat.elected)
  | resets (hnote : n'.mess.oldelected = 0)
  | notes (hnote : n'.mess.oldelected = (toInt32 n.stat.elected % 2 ^ 64).toNat)
      (hsame : n'.stat.elected = n.stat.elected)

/-- What there is to know of a step. -/
structure CountMoves (ts ts' : Tables) : Prop where
  ids : IdsOk ts'
  moves : ∀ i, CountMove (ts.nodes.peek i) (ts'.nodes.peek i)

section Steps

variable {httpd : Httpd} {ts ts' ts'' : Tables} {w w' : World} {cfg : Settings} {s : Snapshot} {b : Nat} {turn : Turn}
  {domain : Option Str} {failoverdomain : Bool} {now recalc : Int} {sv : Server}

theorem CountMove.refl (n : Nodeinfo) : CountMove n n := .counts rfl (Nat.le_refl _)

theorem CountMove.of_same {n n' : Nodeinfo} (hnote : n'.mess.oldelected = n.mess.oldelected)
    (hsame : n'.stat.elected = n.stat.elected) : CountMove n n' := .counts hnote (Nat.le_of_eq hsame.symm)

theorem CountMoves.refl (hok : IdsOk ts) : CountMoves ts ts := ⟨hok, fun _ => CountMove.refl _⟩

theorem CountMoves.after_writes (hwrites : StatWrites ts ts') (hcounts : ts.SameCounts ts')
    (h : CountMoves ts' ts'') : CountMoves ts ts'' := by
  refine ⟨h.ids, fun i => ?_⟩
  have hmess := hwrites.mess i
  have hsame := hcounts i
  cases h.moves i with
  | counts hnote hle => exact .counts (by rw [hnote, hmess]) (by omega)
  | resets hnote => exact .resets hnote
  | notes hnote hsame' => exact .notes (by rw [hnote, hsame]) (hsame'.trans hsame)

/-! ## Requests -/

theorem updateWorkersNode_writes {creatBal : CreatBal} {main : Bool} (nodes : List NodeEntry) (ts : Tables)
    (sv : Server) : StatWrites ts (updateWorkersNode httpd creatBal main now nodes ts sv).1 := by
  induction nodes generalizing ts sv with
  | nil => exact StatWrites.refl
  | cons ou rest ih =>
    unfold updateWorkersNode
    split
    · exact ih ts sv
    split
    · exact ih ts sv
    · exact Relation.ReflTransGen.trans addBalancersWorkersForServer_spec.1 (ih _ _)

theorem refreshWorkers_writes (h : refreshWorkers httpd cfg s turn w = some w') : StatWrites w.tables w'.tables := by
  unfold refreshWorkers at h
  rw [Option.map_eq_some_iff] at h
  obtain ⟨sv, -, rfl⟩ := h
  simp only
  split
  · exact updateWorkersNode_writes s.nodes w.tables w.server
  · exact StatWrites.refl

theorem electWorker_world {balancer : ProxyBalancer} {h : Handling} :
    (electWorker cfg s b domain failoverdomain balancer h).1.world = h.world ∨
      ∃ j, (electWorker cfg s b domain failoverdomain balancer h).1.world = h.world.write b j electedOnce := by
  unfold electWorker
  split
  · exact Or.inl rfl
  · split
    · exact Or.inl rfl
    · exact Or.inl rfl
    · rename_i j _ _ _
      exact Or.inr ⟨j, rfl⟩

theorem countMoves_write (hok : IdsOk w.tables) (j : Nat) :
    CountMoves w.tables (w.write b j electedOnce).tables := by
  unfold World.write
  cases w.server.worker? b j with
  | none => exact CountMoves.refl hok
  | some worker =>
    refine ⟨write_idsOk hok worker electedOnce, fun i => ?_⟩
    simp only
    unfold Worker.write
    split
    · rename_i k _
      rw [pokeStat, peek_poke_eq]
      split
      · rename_i hk
        rw [hk.1]
        exact .counts rfl (Nat.le_succ _)
      · exact CountMove.refl _
    · exact CountMove.refl _

theorem countMoves_elects (hinit : ∀ s, (httpd.initializeWorker s).1.elected = s.elected) (h : Handling)
    (hok : IdsOk h.world.tables) :
    CountMoves h.world.tables
      (internalFindBestByrequests httpd cfg s b turn domain failoverdomain h).1.world.tables := by
  unfold internalFindBestByrequests
  cases hfresh : (if cfg.cacheShareFor then some h.world else refreshWorkers httpd cfg s turn h.world) with
  | none => exact CountMoves.refl hok
  | some w' =>
    have hrefresh : StatWrites h.world.tables w'.tables ∧ h.world.tables.SameCounts w'.tables := by
      by_cases hshare : cfg.cacheShareFor = true
      · rw [if_pos hshare, Option.some.injEq] at hfresh
        rw [← hfresh]
        exact ⟨StatWrites.refl, Tables.SameCounts.refl _⟩
      · rw [if_neg hshare] at hfresh
        exact ⟨refreshWorkers_writes hfresh, (refreshWorkers_sameCounts hinit hfresh).slots⟩
    have hok' : IdsOk w'.tables := hrefresh.1.edits.idsOk hok
    simp only
    split
    · exact CountMoves.refl hok
    · rename_i balancer _
      apply CountMoves.after_writes hrefresh.1 hrefresh.2
      rcases @electWorker_world cfg s b domain failoverdomain balancer { h with world := w' } with hnone | ⟨j, hwrite⟩
      · rw [hnone]
        exact CountMoves.refl hok'
      · rw [hwrite]
        exact countMoves_write hok' j

/-! ## Recalculations -/

theorem updateWorkersLbstatus_skips {hctemplate : Bool} {i : Nat} (hdue : ¬ DueNow recalc now ts i) :
    (updateWorkersLbstatus hctemplate recalc now sv ts i).tables = ts := by
  unfold updateWorkersLbstatus
  split
  · rfl
  rename_i k hget
  obtain ⟨hik, -⟩ := dptr_eq_some.1 hget
  obtain rfl : i = k := by omega
  simp only
  split
  · rfl
  rename_i hremove
  rw [if_neg fun hold => hdue ⟨by simpa using hremove, hold⟩]
  rfl

theorem countMoves_recalculates (hctemplate : Bool) (id : Int) (hok : IdsOk ts)
    (hid : ∀ i, getNode ts.nodes id = some i → (ts.nodes.peek i).mess.id = i) :
    CountMoves ts (updateWorkersLbstatus hctemplate recalc now sv ts id).tables := by
  have hids := (updateWorkersLbstatus_ok hctemplate recalc now sv hok hid).ids
  refine ⟨hids, fun j => ?_⟩
  cases hget : getNode ts.nodes id with
  | none =>
    unfold updateWorkersLbstatus
    rw [hget]
    exact CountMove.refl _
  | some i =>
    obtain ⟨rfl, hlt⟩ := dptr_eq_some.1 hget
    have hiter := updateWorkersLbstatus_iterated hctemplate recalc now sv hlt
    by_cases hji : j = i
    · subst hji
      by_cases hdue : DueNow recalc now ts j
      · have hnoted := hiter.done hdue
        simp only [Nodeinfo.noted, notedNow, Prod.mk.injEq] at hnoted
        exact .notes hnoted.2.1 hnoted.2.2.2.1
      · rw [updateWorkersLbstatus_skips hdue]
        exact CountMove.refl _
    · have hother := hiter.others j hji
      simp only [Nodeinfo.due, Prod.mk.injEq] at hother
      exact .of_same hother.2.2.1 hother.2.2.2.2.2.1

/-! ## CONFIG -/

theorem Prepared.counts {px : Option Proxy} {args : ConfigArgs} {m : Table Nodeinfo} {id : Int} {clean : Bool}
    (h : Prepared httpd ts px args m id clean) :
    KeepsAll (fun n => (n.stat.elected, n.mess.oldelected)) ts.nodes m := by
  cases h with
  | revived k a hid hfirst hused hname => exact KeepsAll.poke rfl
  | renamed k hid hlt hnew hname => exact KeepsAll.poke rfl
  | _ => exact KeepsAll.refl

theorem NodeStored.moves {args : ConfigArgs} {m m' : Table Nodeinfo} {id : Int} {clean : Bool} {k : Nat}
    (hown : args.node.mess.oldelected = 0) (h : NodeStored now args m id clean k m') (i : Nat) :
    CountMove (m.peek i) (m'.peek i) := by
  cases h with
  | updated a area hfirst hused hstat =>
    rw [peek_poke_eq]
    split
    · exact .resets hown
    · exact CountMove.refl _
  | inserted area hnew hlt hslot =>
    by_cases hki : k = i
    · subst hki
      rw [peek_store_self _ hlt]
      exact .resets hown
    · rw [peek_store_ne _ hki]
      exact CountMove.refl _

theorem countMoves_config (mconf : Mconf) (px : Option Proxy) (argv : Argv) (hok : IdsOk ts) :
    CountMoves ts (processConfig httpd mconf now ts px argv).tables := by
  have hids : IdsOk (processConfig httpd mconf now ts px argv).tables :=
    (processConfig_edits httpd mconf now px argv hok False.elim).idsOk hok
  cases hparse : parseConfig httpd mconf argv with
  | error e =>
    rw [processConfig_unread hparse]
    exact CountMoves.refl hok
  | ok args =>
    have hown := (parseConfig_own hparse).oldelected
    refine ⟨hids, fun i => ?_⟩
    have hnodes := @processConfig_nodes httpd ts px args now mconf argv hok hparse
    generalize (processConfig httpd mconf now ts px argv).tables.nodes = m' at hnodes
    cases hnodes with
    | refused => exact CountMove.refl _
    | prepared m id clean hadm hprep =>
      have hsame := hprep.counts.peek i
      simp only [Prod.mk.injEq] at hsame
      exact .of_same hsame.2 hsame.1
    | stored m m' id clean k hadm hprep hstored =>
      have hsame := hprep.counts.peek i
      simp only [Prod.mk.injEq] at hsame
      cases hstored.moves hown i with
      | counts hnote hle => exact .counts (hnote.trans hsame.2) (by omega)
      | resets hnote => exact .resets hnote
      | notes hnote hsame' => exact .notes (by rw [hnote, hsame.1]) (hsame'.trans hsame.1)

theorem LoadStep.moves (hinit : ∀ s, (httpd.initializeWorker s).1.elected = s.elected) (hok : IdsOk ts)
    (h : LoadStep httpd ts ts') : CountMoves ts ts' := by
  cases h with
  | elects cfg s b turn domain failoverdomain sv r => exact countMoves_elects hinit ⟨⟨ts, sv⟩, r⟩ hok
  | sticky sv b j => exact @countMoves_write ⟨ts, sv⟩ b hok j
  | recalculates hctemplate recalc now sv id hid => exact countMoves_recalculates hctemplate id hok hid
  | config mconf now px argv => exact countMoves_config mconf px argv hok
  | other ts' hids hcounts => exact ⟨hids hok, fun i => .of_same (hcounts i).2 (hcounts i).1⟩

end Steps

/-! ## Runs -/

/-- Two properties of the states of a run agree when they agree under an invariant that a
step from a good state keeps. -/
theorem chain_iff {α : Type} {R : α → α → Prop} {I E F : α → Prop} (hiff : ∀ a, I a → (E a ↔ F a))
    (hstep : ∀ a b, I a → E a → R a b → I b) {a : α} {l : List α} (hI : I a) (hrun : List.IsChain R (a :: l)) :
    (∀ x ∈ a :: l, E x) ↔ ∀ x ∈ a :: l, F x := by
  induction l generalizing a with
  | nil => simp [hiff a hI]
  | cons b l ih =>
    rw [List.isChain_cons_cons] at hrun
    rw [List.forall_mem_cons, List.forall_mem_cons (p := F), hiff a hI]
    refine and_congr_right fun hF => ?_
    exact ih (hstep a b hI ((hiff a hI).2 hF) hrun.1) hrun.2

/-- No note is ahead of its counter. -/
structure CountersOk (ts : Tables) : Prop where
  ids : IdsOk ts
  ordered : ∀ i, (ts.nodes.peek i).Ordered

theorem countersOk_empty (sz : Sizes) : CountersOk (emptyTables sz) := by
  refine ⟨idsOk_empty sz, fun i => ?_⟩
  have hpeek : (emptyTables sz).nodes.peek i = default := peek_empty sz.nodes i
  rw [hpeek]
  exact Nat.le_refl 0

theorem LoadStep.countersOk {httpd : Httpd} {ts ts' : Tables}
    (hinit : ∀ s, (httpd.initializeWorker s).1.elected = s.elected) (hok : CountersOk ts)
    (hexact : ∀ i, LoadExact (ts.nodes.peek i)) (h : LoadStep httpd ts ts') : CountersOk ts' := by
  have hmoves := h.moves hinit hok.ids
  refine ⟨hmoves.ids, fun i => ?_⟩
  have hle := hok.ordered i
  unfold Nodeinfo.Ordered at hle ⊢
  cases hmoves.moves i with
  | counts hnote hcount => omega
  | resets hnote => omega
  | notes hnote hsame =>
    have hnoted := (hexact i).noted 0
    simp only [noteLbstatus, noteRead, noteElected] at hnoted
    omega

/-- The loads are right in every state of a run if and only if the counters fit in every
state. Only the registration of a node clears a note. -/
theorem loads_exact_iff (httpd : Httpd) (hinit : ∀ s, (httpd.initializeWorker s).1.elected = s.elected) (sz : Sizes)
    (run : List Tables) (hrun : List.IsChain (LoadStep httpd) (emptyTables sz :: run)) :
    (∀ ts ∈ emptyTables sz :: run, ∀ i, LoadExact (ts.nodes.peek i)) ↔
      ∀ ts ∈ emptyTables sz :: run, ∀ i, LoadFits (ts.nodes.peek i) := by
  refine chain_iff (I := CountersOk) (fun ts hok => forall_congr' fun i => loadExact_iff (hok.ordered i)) ?_
    (countersOk_empty sz) hrun
  intro ts ts' hok hexact hstep
  exact hstep.countersOk hinit hok hexact

section Example

def ratedAreas : List WorkerShared := [electionArea 0 (ascii "r0") 100 0]

/-- A node that has sent its load. -/
def ratedNode : Tables := (electionWorld ratedAreas).tables

theorem ratedNode_idsOk : IdsOk ratedNode where
  nodes i n hn := by
    have hlt : i < 1 := used_lt hn
    obtain rfl : i = 0 := by omega
    obtain rfl := Option.some.inj hn
    rfl
  stale i hi _ := by
    have hlt : i < 1 := hi
    obtain rfl : i = 0 := by omega
    rfl
  hosts i a h := by simp [ratedNode, electionWorld, emptyTables, used_empty] at h
  contexts i a h := by simp [ratedNode, electionWorld, emptyTables, used_empty] at h
  balancers i a h := by simp [ratedNode, electionWorld, emptyTables, used_empty] at h

/-- The node after an election. -/
def electedNode : Tables :=
  (internalFindBestByrequests plainHttpd (electionSettings false) electionTables 0 quiet none false
    ⟨⟨ratedNode, ⟨[electionBalancer ratedAreas]⟩⟩, electionRequest none⟩).1.world.tables

theorem rated_run : List.IsChain (LoadStep plainHttpd) [emptyTables ⟨1, 1, 1, 1, 1⟩, ratedNode, electedNode] := by
  refine .cons_cons (.other _ (fun _ => ratedNode_idsOk) fun i => ?_)
    (.cons_cons (.elects _ _ _ _ _ _ _ _) (.singleton _))
  have hcounts : (ratedNode.nodes.peek 0).stat.elected = 0 ∧ (ratedNode.nodes.peek 0).mess.oldelected = 0 := by
    decide +kernel
  have hempty : (emptyTables ⟨1, 1, 1, 1, 1⟩).nodes.peek i = default := peek_empty 1 i
  rw [hempty]
  cases i with
  | zero => exact hcounts
  | succ i => exact ⟨rfl, rfl⟩

/-- The election is counted, and all loads are still right. -/
theorem rated_run_exact : (electedNode.nodes.peek 0).stat.elected = 1 ∧
    ∀ ts ∈ [emptyTables ⟨1, 1, 1, 1, 1⟩, ratedNode, electedNode], ∀ i, LoadExact (ts.nodes.peek i) := by
  have hfacts : ((electedNode.nodes.peek 0).stat.elected = 1 ∧ (electedNode.nodes.peek 0).served = 1 ∧
      (electedNode.nodes.peek 0).stat.lbfactor = 100 ∧ (electedNode.nodes.peek 0).stat.lbstatus = 0 ∧
        electedNode.nodes.size = 1) ∧
      (ratedNode.nodes.peek 0).stat.elected = 0 ∧ (ratedNode.nodes.peek 0).served = 0 ∧
      (ratedNode.nodes.peek 0).stat.lbfactor = 100 ∧ (ratedNode.nodes.peek 0).stat.lbstatus = 0 := by
    decide +kernel
  obtain ⟨⟨helected, hserved, hfactor, hstatus, hsize⟩, hzero, hnone, hfactor', hstatus'⟩ := hfacts
  have hblank : LoadFits default := by
    refine ⟨Or.inl (by decide), fun h => ?_, fun h => ?_⟩
    · exact absurd h.lbfactor.1 (by decide)
    · exact absurd h.lbfactor.1 (by decide)
  refine ⟨helected, (loads_exact_iff plainHttpd (fun _ => rfl) ⟨1, 1, 1, 1, 1⟩ _ rated_run).2 fun ts hts i => ?_⟩
  simp only [List.mem_cons, List.not_mem_nil, or_false] at hts
  rcases hts with rfl | rfl | rfl
  · have hpeek : (emptyTables ⟨1, 1, 1, 1, 1⟩).nodes.peek i = default := peek_empty 1 i
    rw [hpeek]
    exact hblank
  · cases i with
    | zero => exact ⟨Or.inl (by omega), fun _ => by omega, fun _ => by rw [hnone, hfactor', hstatus']; decide⟩
    | succ i => exact hblank
  · cases i with
    | zero => exact ⟨Or.inl (by omega), fun _ => by omega, fun _ => by rw [hserved, hfactor, hstatus]; decide⟩
    | succ i =>
      have hbeyond : electedNode.nodes.peek (i + 1) = default := by
        unfold Table.peek
        rw [List.getElem?_eq_none (by unfold Table.size at hsize; omega)]
      rw [hbeyond]
      exact hblank

/-- The node after one more request of a session. -/
def oneMore (ts : Tables) : Tables :=
  ((World.mk ts ⟨[electionBalancer ratedAreas]⟩).write 0 0 electedOnce).tables

theorem oneMore_eq (ts : Tables) : oneMore ts = pokeStat ts 0 electedOnce := rfl

theorem oneMore_counts (n : Nat) :
    (oneMore^[n] ratedNode).nodes.size = 1 ∧ ((oneMore^[n] ratedNode).nodes.peek 0).stat.elected = n ∧
      ((oneMore^[n] ratedNode).nodes.peek 0).mess.oldelected = 0 := by
  induction n with
  | zero => exact ⟨rfl, rfl, rfl⟩
  | succ n ih =>
    obtain ⟨hsize, helected, hnote⟩ := ih
    rw [Function.iterate_succ_apply', oneMore_eq, pokeStat, peek_poke_self _ (by omega)]
    exact ⟨by simpa using hsize, by simp [electedOnce, helected], hnote⟩

theorem oneMore_run (n : Nat) :
    Relation.ReflTransGen (LoadStep plainHttpd) (emptyTables ⟨1, 1, 1, 1, 1⟩) (oneMore^[n] ratedNode) := by
  induction n with
  | zero => exact .single (List.isChain_cons_cons.1 rated_run).1
  | succ n ih =>
    rw [Function.iterate_succ_apply']
    exact ih.tail (.sticky ⟨[electionBalancer ratedAreas]⟩ 0 0)

theorem oneMore_inexact {n : Nat} (h : n = 2 ^ 31) : ¬ LoadExact ((oneMore^[n] ratedNode).nodes.peek 0) := by
  intro hexact
  have hnoted := hexact.noted 0
  simp only [noteLbstatus, noteRead, noteElected, (oneMore_counts n).2.1] at hnoted
  rw [h] at hnoted
  revert hnoted
  decide

/-- The counter leaves the range of an `int`, and the note no longer agrees with it. -/
theorem long_run_not_exact :
    ¬ ∀ (httpd : Httpd), (∀ s, (httpd.initializeWorker s).1.elected = s.elected) → ∀ (sz : Sizes) (run : List Tables),
      List.IsChain (LoadStep httpd) (emptyTables sz :: run) →
        ∀ ts ∈ emptyTables sz :: run, ∀ i, LoadExact (ts.nodes.peek i) := by
  intro h
  obtain ⟨n, hn⟩ : ∃ n, n = 2 ^ 31 := ⟨_, rfl⟩
  obtain ⟨run, hrun, hlast⟩ := List.exists_isChain_cons_of_relationReflTransGen (oneMore_run n)
  have hexact := h plainHttpd (fun _ => rfl) _ run hrun _ (List.getLast_mem (List.cons_ne_nil _ _)) 0
  rw [hlast] at hexact
  exact oneMore_inexact hn hexact

end Example

end ModCluster
