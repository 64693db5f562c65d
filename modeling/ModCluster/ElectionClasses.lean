import ModCluster.Eligibility
import Mathlib.Data.List.MinMax

/-!
# The classes of an election

An election asks the workers in up to three passes. The workers that a pass could take
are a class: those of the domain, those with a load factor, and those on standby. The
first class that is not empty decides.
-/

open CString Slotmem Slotmem.Table

namespace ModCluster

/-! ## Statement -/

/-- What an election asks of a worker in every pass. -/
structure Electable (b : Nat) (best : List NodeContext) (w : World) (j : Nat) : Prop where
  eligible : Eligible w b j
  /-- The list ends with node -1. -/
  listed : ∃ e ∈ best.takeWhile (·.node ≠ -1), e.node = (w.area b j).index

inductive ElectionClass where
  | inDomain
  | active
  | standby
deriving DecidableEq

/-- The classes that are asked, in this order. -/
def classesTried (domain : Option Str) (failoverdomain : Bool) : List ElectionClass :=
  let classes := (if domain.getD [] ≠ [] then [.inDomain] else []) ++ [.active, .standby]
  if failoverdomain then classes.take 1 else classes

/-- Worker `j` is in the class. -/
def ElectionClass.Member (b : Nat) (domain : Option Str) (best : List NodeContext) (w : World) (j : Nat) :
    ElectionClass → Prop
  | .inDomain => Electable b best w j ∧ 0 < (w.area b j).lbfactor ∧
      ∃ i, getNode w.tables.nodes (w.area b j).index = some i ∧ some (w.tables.nodes.peek i).mess.domain = domain
  | .active => Electable b best w j ∧ 0 < (w.area b j).lbfactor
  | .standby => Electable b best w j ∧ (w.area b j).lbfactor = 0

/-- `oldelected` of the worker's node. -/
def World.oldelected (w : World) (b j : Nat) : Nat :=
  match getNode w.tables.nodes (w.area b j).index with
  | some i => (w.tables.nodes.peek i).mess.oldelected
  | none => 0

/-- The load in integers that do not wrap. -/
def exactLoad (b : Nat) (w : World) (j : Nat) : Int :=
  (((w.area b j).elected - w.oldelected b j : Int) * 1000).tdiv (w.area b j).lbfactor + (w.area b j).lbstatus

/-- Worker `j` is the one the class gives: the first with the smallest load, or the
first on standby. -/
def ElectionClass.Gives (b : Nat) (domain : Option Str) (best : List NodeContext) (w : World) (c : ElectionClass)
    (j : Nat) : Prop :=
  c.Member b domain best w j ∧
    match c with
    | .standby => ∀ k < j, ¬ c.Member b domain best w k
    | _ => ∀ k, c.Member b domain best w k →
        exactLoad b w j ≤ exactLoad b w k ∧ (k < j → exactLoad b w j < exactLoad b w k)

/-- The first class that has members. -/
def FirstClass (b : Nat) (domain : Option Str) (best : List NodeContext) (w : World) (classes : List ElectionClass)
    (c : ElectionClass) : Prop :=
  ∃ before after, classes = before ++ c :: after ∧ (∀ c' ∈ before, ∀ j, ¬ c'.Member b domain best w j) ∧
    ∃ j, c.Member b domain best w j

section Classes

variable {cfg : Settings} {b : Nat} {domain : Option Str} {best : List NodeContext} {w : World}

/-! ## The checks of one worker -/

/-- The entry of an electable worker in the list, and its node. -/
def Worker.entry (best : List NodeContext) (ts : Tables) (worker : Worker) : Option (NodeContext × Nat) :=
  match worker.context with
  | none => none
  | some helper =>
    let area := worker.area ts
    if area.index = -1 ∨ helper.index ≠ area.index ∨ area.lbfactor < 0 ∨ ¬ area.isUsable then none
    else
      match findEntry area.index best, readNodeWorker ts area.index area with
      | some entry, some i => if worker.s = .slot i then some (entry, i) else none
      | _, _ => none

/-- The worker is accepted in a pass. -/
def Worker.accepted (domain : Option Str) (best : List NodeContext) (ts : Tables) (checkingStandby checkedDomain : Bool)
    (worker : Worker) : Bool :=
  match worker.entry best ts with
  | none => false
  | some (_, i) =>
    ((worker.area ts).lbfactor ≠ 0 || checkingStandby) && (checkedDomain || isnodeDomainOk (ts.nodes.peek i) domain)

def electionEntry (b : Nat) (best : List NodeContext) (w : World) (j : Nat) : Option (NodeContext × Nat) :=
  (w.server.worker? b j).bind (·.entry best w.tables)

/-- The context that is recorded for a worker. -/
def contextFor (b : Nat) (best : List NodeContext) (w : World) (j : Nat) : Option NodeContext :=
  (electionEntry b best w j).map (·.1)

def accepts (b : Nat) (domain : Option Str) (best : List NodeContext) (w : World)
    (checkingStandby checkedDomain : Bool) (j : Nat) : Bool :=
  (w.server.worker? b j).any (·.accepted domain best w.tables checkingStandby checkedDomain)

theorem findEntry_isSome_iff {index : Int} (hindex : index ≠ -1) :
    (findEntry index best).isSome = true ↔ ∃ e ∈ best.takeWhile (·.node ≠ -1), e.node = index := by
  induction best with
  | nil => simp [findEntry]
  | cons e rest ih =>
    unfold findEntry
    by_cases hend : e.node = -1
    · simp [hend]
    · rw [if_neg hend]
      by_cases hnode : e.node = index
      · simp [hnode, hindex]
      · rw [if_neg hnode, ih]
        simp [hend, hnode]

/-- What there is to know of a worker that has an entry. -/
structure HasEntry (b : Nat) (best : List NodeContext) (w : World) (j : Nat) (entry : NodeContext) (i : Nat) :
    Prop where
  electable : Electable b best w j
  found : findEntry (w.area b j).index best = some entry
  read : getNode w.tables.nodes (w.area b j).index = some i

theorem electionEntry_eq_some {j i : Nat} {entry : NodeContext} (h : electionEntry b best w j = some (entry, i)) :
    HasEntry b best w j entry i := by
  obtain ⟨worker, hworker, h⟩ := Option.bind_eq_some_iff.1 h
  have harea := area_of_worker hworker
  unfold Worker.entry at h
  rw [← harea] at h
  cases hcontext : worker.context with
  | none =>
    rw [hcontext] at h
    cases h
  | some helper =>
    rw [hcontext] at h
    simp only at h
    split at h
    · cases h
    rename_i hchecks
    simp only [not_or, not_not] at hchecks
    obtain ⟨hindex, hhelper, hlb, husable⟩ := hchecks
    cases hfound : findEntry (w.area b j).index best with
    | none =>
      rw [hfound] at h
      cases h
    | some e =>
      cases hread : readNodeWorker w.tables (w.area b j).index (w.area b j) with
      | none =>
        rw [hfound, hread] at h
        cases h
      | some n =>
        rw [hfound, hread] at h
        simp only [Option.ite_none_right_eq_some, Option.some.injEq, Prod.mk.injEq] at h
        obtain ⟨hs, rfl, rfl⟩ := h
        refine ⟨⟨⟨⟨worker, helper, hworker, hcontext, hhelper⟩, hindex, by omega, husable, worker, n, hworker, hread,
          hs⟩, (findEntry_isSome_iff hindex).1 ?_⟩, hfound, readNodeWorker_eq_some hread⟩
        rw [hfound]
        rfl

theorem Electable.entry {j : Nat} (h : Electable b best w j) :
    ∃ entry i, electionEntry b best w j = some (entry, i) := by
  obtain ⟨⟨⟨worker, helper, hworker, hcontext, hhelper⟩, hindex, hlb, husable, worker', i, hworker', hread, hs⟩,
    hlisted⟩ := h
  rw [hworker, Option.some.injEq] at hworker'
  subst hworker'
  obtain ⟨entry, hentry⟩ := Option.isSome_iff_exists.1 ((findEntry_isSome_iff hindex).2 hlisted)
  have harea := area_of_worker hworker
  have hchecks : ¬ ((w.area b j).index = -1 ∨ helper.index ≠ (w.area b j).index ∨ (w.area b j).lbfactor < 0 ∨
      ¬ (w.area b j).isUsable) := by
    simp only [not_or, not_not]
    exact ⟨hindex, hhelper, by omega, husable⟩
  refine ⟨entry, i, ?_⟩
  rw [electionEntry, hworker, Option.bind_some, Worker.entry, hcontext]
  simp only [← harea]
  rw [if_neg hchecks, hentry, hread]
  simp only
  rw [if_pos hs]

theorem accepts_worker_iff {st cd : Bool} {j : Nat} :
    accepts b domain best w st cd j = true ↔ ∃ entry i, electionEntry b best w j = some (entry, i) ∧
      ((w.area b j).lbfactor ≠ 0 ∨ st = true) ∧ (cd = true ∨ isnodeDomainOk (w.tables.nodes.peek i) domain = true) := by
  unfold accepts electionEntry
  cases hworker : w.server.worker? b j with
  | none => simp
  | some worker =>
    rw [area_of_worker hworker, Option.any_some, Option.bind_some]
    unfold Worker.accepted
    cases hentry : worker.entry best w.tables with
    | none => simp
    | some q =>
      obtain ⟨entry, i⟩ := q
      simp

theorem internalProcessWorker_skip {st cd : Bool} {e : Election} {j : Nat}
    (h : accepts b domain best w st cd j = false) :
    internalProcessWorker b st cd domain best w e j = (e, false) := by
  by_contra hno
  have hacc : accepts b domain best w st cd j = true := by
    unfold internalProcessWorker at hno
    split at hno
    · exact absurd rfl hno
    rename_i worker hworker
    rw [← area_of_worker hworker] at hno
    split at hno
    · exact absurd rfl hno
    rename_i helper hcontext
    simp only at hno
    split at hno
    · exact absurd rfl hno
    rename_i hindex
    rw [not_or, not_not] at hindex
    split at hno
    · exact absurd rfl hno
    rename_i hlb
    rw [not_or, not_and, not_not] at hlb
    split at hno
    · exact absurd rfl hno
    rename_i husable
    rw [not_not] at husable
    split at hno
    · exact absurd rfl hno
    rename_i entry hfound
    split at hno
    · exact absurd rfl hno
    rename_i i hread
    split at hno
    · exact absurd rfl hno
    rename_i hs
    rw [not_not] at hs
    split at hno
    · exact absurd rfl hno
    rename_i hdomain
    rw [not_and, not_not] at hdomain
    have helectable : Electable b best w j :=
      ⟨⟨⟨worker, helper, hworker, hcontext, hindex.2⟩, hindex.1, by omega, husable, worker, i, hworker, hread, hs⟩,
        (findEntry_isSome_iff hindex.1).1 (by rw [hfound]; rfl)⟩
    obtain ⟨entry', i', hentry⟩ := helectable.entry
    have hnode := (electionEntry_eq_some hentry).read
    rw [readNodeWorker_eq_some hread, Option.some.injEq] at hnode
    subst hnode
    refine accepts_worker_iff.2 ⟨entry', i, hentry, ?_, ?_⟩
    · by_cases hzero : (w.area b j).lbfactor = 0
      · exact Or.inr (hlb.2 hzero)
      · exact Or.inl hzero
    · cases cd with
      | true => exact Or.inl rfl
      | false => exact Or.inr (hdomain (by simp))
  rw [h] at hacc
  cases hacc

theorem internalProcessWorker_take {st cd : Bool} {e : Election} {j i : Nat} {entry : NodeContext}
    (h : accepts b domain best w st cd j = true) (hentry : electionEntry b best w j = some (entry, i)) :
    internalProcessWorker b st cd domain best w e j =
      (if (w.area b j).lbfactor = 0 ∧ st = true then e.choose j entry
        else match e.mycandidate with
          | none => e.choose j entry
          | some k => compareCandidate b w e k j i entry, true) := by
  obtain ⟨helectable, hfound, hnode⟩ := electionEntry_eq_some hentry
  obtain ⟨⟨worker, helper, hworker, hcontext, hhelper⟩, hindex, hlb, husable, worker', i', hworker', hread, hs⟩ :=
    helectable.eligible
  rw [hworker, Option.some.injEq] at hworker'
  subst hworker'
  rw [readNodeWorker_eq_some hread, Option.some.injEq] at hnode
  subst hnode
  obtain ⟨entry', i, hentry', hst, hcd⟩ := accepts_worker_iff.1 h
  rw [hentry, Option.some.injEq, Prod.mk.injEq] at hentry'
  obtain ⟨rfl, rfl⟩ := hentry'
  unfold internalProcessWorker
  rw [hworker]
  simp only [hcontext, ← area_of_worker hworker]
  rw [if_neg (not_or.2 ⟨hindex, not_not_intro hhelper⟩),
    if_neg (not_or.2 ⟨by omega, fun hzero => hst.elim (· hzero.1) hzero.2⟩), if_neg (not_not_intro husable)]
  simp only [hfound, hread, if_neg (not_not_intro hs)]
  rw [if_neg fun hno => hcd.elim hno.1 hno.2]
  split
  · rfl
  · cases e.mycandidate <;> rfl

/-! ## One pass -/

/-- The load that is compared. -/
def World.load (w : World) (b j : Nat) : Int := lbstatusOf (w.area b j) (w.oldelected b j)

/-- The candidate with its context. -/
def Election.of (b : Nat) (best : List NodeContext) (w : World) (candidate : Option Nat) (workers : List Nat) :
    Election :=
  ⟨candidate, candidate.bind (contextFor b best w), workers⟩

theorem Election.choose_of {candidate : Option Nat} {workers : List Nat} {j i : Nat} {entry : NodeContext}
    (h : electionEntry b best w j = some (entry, i)) :
    (Election.of b best w candidate workers).choose j entry = Election.of b best w (some j) workers := by
  simp [Election.choose, Election.of, contextFor, h]

theorem compareCandidate_eq {e : Election} {k j i n : Nat} {entry entry' : NodeContext}
    (hk : electionEntry b best w k = some (entry', n)) (hpos : 0 < (w.area b k).lbfactor)
    (hj : electionEntry b best w j = some (entry, i)) (hne : (w.area b j).lbfactor ≠ 0) :
    compareCandidate b w e k j i entry = if w.load b j < w.load b k then e.choose j entry else e := by
  unfold compareCandidate World.load World.oldelected
  rw [(electionEntry_eq_some hk).read, (electionEntry_eq_some hj).read]
  simp [hpos, hne]

theorem accepts_active {cd : Bool} {j : Nat} (h : accepts b domain best w false cd j = true) :
    ∃ entry i, electionEntry b best w j = some (entry, i) ∧ 0 < (w.area b j).lbfactor := by
  obtain ⟨entry, i, hentry, hlb, -⟩ := accepts_worker_iff.1 h
  have hnonneg := (electionEntry_eq_some hentry).electable.eligible.lbfactor
  have hne : (w.area b j).lbfactor ≠ 0 := by simpa using hlb
  exact ⟨entry, i, hentry, by omega⟩

theorem electPass_active (cd : Bool) (js : List Nat) {candidate : Option Nat} {workers : List Nat}
    (hc : ∀ k, candidate = some k → accepts b domain best w false cd k = true) :
    electPass b false cd domain best w js (.of b best w candidate workers) =
      .of b best w ((js.filter (accepts b domain best w false cd)).foldl
          (List.argAux fun j k => w.load b j < w.load b k) candidate)
        (workers ++ js.filter (accepts b domain best w false cd)) := by
  induction js generalizing candidate workers with
  | nil => simp [electPass]
  | cons j js ih =>
    unfold electPass
    cases hacc : accepts b domain best w false cd j with
    | false =>
      rw [internalProcessWorker_skip hacc, List.filter_cons_of_neg (by simp [hacc])]
      exact ih hc
    | true =>
      obtain ⟨entry, i, hentry, hpos⟩ := accepts_active hacc
      rw [internalProcessWorker_take hacc hentry, List.filter_cons_of_pos hacc, List.foldl_cons]
      have hnext : (match (Election.of b best w candidate workers).mycandidate with
          | none => (Election.of b best w candidate workers).choose j entry
          | some k => compareCandidate b w (.of b best w candidate workers) k j i entry) =
          .of b best w (List.argAux (fun j k => w.load b j < w.load b k) candidate j) workers := by
        cases candidate with
        | none => exact Election.choose_of hentry
        | some k =>
          obtain ⟨entry', n, hk, hkpos⟩ := accepts_active (hc k rfl)
          simp only [Election.of, List.argAux]
          rw [compareCandidate_eq hk hkpos hentry (by omega)]
          split
          · exact Election.choose_of hentry
          · rfl
      simp only [Bool.false_eq_true, and_false, if_false]
      rw [hnext]
      have hkept : ∀ k, List.argAux (fun j k => w.load b j < w.load b k) candidate j = some k →
          accepts b domain best w false cd k = true := by
        intro k hk
        cases candidate with
        | none =>
          cases hk
          exact hacc
        | some k' =>
          simp only [List.argAux] at hk
          split at hk
          · cases hk
            exact hacc
          · cases hk
            exact hc k rfl
      rw [show workers ++ j :: js.filter (accepts b domain best w false cd) =
        (workers ++ [j]) ++ js.filter (accepts b domain best w false cd) by simp]
      exact ih hkept

theorem electPass_standby (js : List Nat) {workers : List Nat}
    (hzero : ∀ j ∈ js, accepts b domain best w true true j = true → (w.area b j).lbfactor = 0) :
    electPass b true true domain best w js (.of b best w none workers) =
      .of b best w (js.filter (accepts b domain best w true true)).head?
        (workers ++ (js.filter (accepts b domain best w true true)).take 1) := by
  induction js with
  | nil => simp [electPass]
  | cons j js ih =>
    unfold electPass
    cases hacc : accepts b domain best w true true j with
    | false =>
      rw [internalProcessWorker_skip hacc, List.filter_cons_of_neg (by simp [hacc])]
      exact ih fun k hk => hzero k (List.mem_cons_of_mem _ hk)
    | true =>
      obtain ⟨entry, i, hentry, -⟩ := accepts_worker_iff.1 hacc
      have hlb := hzero j List.mem_cons_self hacc
      rw [internalProcessWorker_take hacc hentry, List.filter_cons_of_pos hacc]
      simp only [hlb, true_and, if_true]
      rw [Election.choose_of hentry]
      rfl

/-! ## The classes -/

namespace ElectionClass

/-- Whether workers on standby are asked in the pass, and whether the domain does not
matter. -/
def pass : ElectionClass → Bool × Bool
  | .inDomain => (false, false)
  | .active => (false, true)
  | .standby => (true, true)

/-- The workers a pass accepts if it goes over all of them. -/
def members (b : Nat) (domain : Option Str) (best : List NodeContext) (w : World) (c : ElectionClass) : List Nat :=
  (w.workers b).filter (accepts b domain best w c.pass.1 c.pass.2)

/-- The workers it goes over: it stops at the first on standby. -/
def taken (b : Nat) (domain : Option Str) (best : List NodeContext) (w : World) (c : ElectionClass) : List Nat :=
  match c with
  | .standby => (c.members b domain best w).take 1
  | _ => c.members b domain best w

def leader (b : Nat) (domain : Option Str) (best : List NodeContext) (w : World) (c : ElectionClass) : Option Nat :=
  match c with
  | .standby => (c.members b domain best w).head?
  | _ => (c.members b domain best w).foldl (List.argAux fun j k => w.load b j < w.load b k) none

end ElectionClass

theorem electionPasses_eq (domain : Option Str) (failoverdomain : Bool) :
    electionPasses domain failoverdomain = (classesTried domain failoverdomain).map ElectionClass.pass := by
  unfold electionPasses classesTried
  split <;> split <;> rfl

theorem electPass_class {c : ElectionClass}
    (hc : c = .standby → ElectionClass.active.members b domain best w = []) :
    electPass b c.pass.1 c.pass.2 domain best w (w.workers b) ⟨none, none, []⟩ =
      .of b best w (c.leader b domain best w) (c.taken b domain best w) := by
  have hstart : (⟨none, none, []⟩ : Election) = .of b best w none [] := rfl
  rw [hstart]
  cases c with
  | inDomain => exact electPass_active false _ (by simp)
  | active => exact electPass_active true _ (by simp)
  | standby =>
    apply electPass_standby
    intro j hj hacc
    by_contra hne
    obtain ⟨entry, i, hentry, -, hcd⟩ := accepts_worker_iff.1 hacc
    have hmem : j ∈ ElectionClass.active.members b domain best w :=
      List.mem_filter.2 ⟨hj, accepts_worker_iff.2 ⟨entry, i, hentry, Or.inl hne, hcd⟩⟩
    rw [hc rfl] at hmem
    cases hmem

theorem failoverTarget_nil (r : Request) : failoverTarget cfg b w r [] = .keep := by
  unfold failoverTarget
  split
  · split
    · rfl
    · rw [if_neg (by simp)]
  · rfl

/-- What comes out of a class that is not empty. -/
def ElectionClass.settle (cfg : Settings) (b : Nat) (domain : Option Str) (best : List NodeContext) (w : World)
    (r : Request) (c : ElectionClass) : Elected :=
  let candidate := match failoverTarget cfg b w r (c.taken b domain best w) with
    | .keep => c.leader b domain best w
    | .pick j => some j
    | .outside => none
  match candidate, (c.leader b domain best w).bind (contextFor b best w) with
  | some j, some nodecontext => .worker j c.pass.2 nodecontext
  | _, _ => .crashed

/-- The first class that is not empty. -/
def firstTaken (b : Nat) (domain : Option Str) (best : List NodeContext) (w : World) (classes : List ElectionClass) :
    Option ElectionClass :=
  classes.find? fun c => c.taken b domain best w ≠ []

/-- It decides. -/
def settled (cfg : Settings) (b : Nat) (domain : Option Str) (best : List NodeContext) (w : World) (r : Request)
    (classes : List ElectionClass) : Elected :=
  match firstTaken b domain best w classes with
  | none => .missing
  | some c => c.settle cfg b domain best w r

theorem leader_eq_none_iff {c : ElectionClass} : c.leader b domain best w = none ↔ c.taken b domain best w = [] := by
  cases c <;> simp [ElectionClass.leader, ElectionClass.taken]

theorem electLoop_cons {r : Request} {c : ElectionClass} {rest : List (Bool × Bool)}
    (hc : c = .standby → ElectionClass.active.members b domain best w = []) :
    electLoop cfg b domain best w r (c.pass :: rest) ⟨none, none, []⟩ =
      if c.taken b domain best w = [] then electLoop cfg b domain best w r rest ⟨none, none, []⟩
      else c.settle cfg b domain best w r := by
  rw [show c.pass :: rest = (c.pass.1, c.pass.2) :: rest from rfl, electLoop, electPass_class hc]
  by_cases htaken : c.taken b domain best w = []
  · rw [if_pos htaken, htaken, leader_eq_none_iff.2 htaken]
    simp [Election.of, failoverTarget_nil]
  · rw [if_neg htaken]
    obtain ⟨k, hk⟩ : ∃ k, c.leader b domain best w = some k :=
      Option.ne_none_iff_exists'.1 fun hnone => htaken (leader_eq_none_iff.1 hnone)
    unfold ElectionClass.settle
    simp only [Election.of, hk, Option.bind_some]
    cases failoverTarget cfg b w r (c.taken b domain best w) with
    | keep => cases contextFor b best w k <;> rfl
    | pick j => cases contextFor b best w k <;> rfl
    | outside => rfl

theorem firstTaken_cons {c : ElectionClass} {classes : List ElectionClass} :
    firstTaken b domain best w (c :: classes) =
      if c.taken b domain best w = [] then firstTaken b domain best w classes else some c := by
  unfold firstTaken
  rw [List.find?_cons]
  by_cases htaken : c.taken b domain best w = [] <;> simp [htaken]

/-- An induction over the classes, which come to those on standby when nobody has a
load factor. -/
theorem classesTried_induct {P : List ElectionClass → Prop} (hnil : P [])
    (hcons : ∀ c classes, (c = .standby → ElectionClass.active.members b domain best w = []) →
      (c.taken b domain best w = [] → P classes) → P (c :: classes))
    (failoverdomain : Bool) : P (classesTried domain failoverdomain) := by
  have hactive : P [.active, .standby] :=
    hcons _ _ (by simp) fun hempty => hcons _ _ (fun _ => hempty) fun _ => hnil
  unfold classesTried
  cases failoverdomain with
  | false =>
    by_cases hdomain : domain.getD [] ≠ []
    · simp only [if_pos hdomain, Bool.false_eq_true, if_false]
      exact hcons _ _ (by simp) fun _ => hactive
    · simp only [if_neg hdomain, Bool.false_eq_true, if_false]
      exact hactive
  | true =>
    by_cases hdomain : domain.getD [] ≠ []
    · simp only [if_pos hdomain, if_true]
      exact hcons _ _ (by simp) fun _ => hnil
    · simp only [if_neg hdomain, if_true]
      exact hcons _ _ (by simp) fun _ => hnil

/-- The loop over the passes is the choice of the first class that is not empty. -/
theorem electLoop_eq (r : Request) (failoverdomain : Bool) :
    electLoop cfg b domain best w r (electionPasses domain failoverdomain) ⟨none, none, []⟩ =
      settled cfg b domain best w r (classesTried domain failoverdomain) := by
  rw [electionPasses_eq]
  apply @classesTried_induct b domain best w fun classes =>
    electLoop cfg b domain best w r (classes.map ElectionClass.pass) ⟨none, none, []⟩ =
      settled cfg b domain best w r classes
  · rfl
  · intro c classes hc hrest
    unfold settled at hrest ⊢
    rw [List.map_cons, electLoop_cons hc, firstTaken_cons]
    split
    · rename_i htaken
      exact hrest htaken
    · rfl

/-! ## What the classes are -/

theorem worker_mem_workers {j : Nat} {worker : Worker} (h : w.server.worker? b j = some worker) : j ∈ w.workers b := by
  obtain ⟨balancer, hb, hj⟩ := Option.bind_eq_some_iff.1 h
  unfold World.workers
  rw [hb]
  exact List.mem_range.2 (List.getElem?_eq_some_iff.1 hj).1

theorem workers_increase (w : World) (b : Nat) : (w.workers b).Pairwise (· < ·) := by
  unfold World.workers
  split
  · exact List.pairwise_lt_range
  · exact List.Pairwise.nil

theorem ElectionClass.members_increase (c : ElectionClass) : (c.members b domain best w).Pairwise (· < ·) :=
  (workers_increase w b).filter _

theorem isnodeDomainOk_iff {node : Nodeinfo} (h : domain.getD [] ≠ []) :
    isnodeDomainOk node domain = true ↔ some node.mess.domain = domain := by
  cases domain with
  | none => exact absurd rfl h
  | some d => simp [isnodeDomainOk]

theorem ElectionClass.mem_members {c : ElectionClass} {j : Nat} (hd : c = .inDomain → domain.getD [] ≠ [])
    (hs : c = .standby → ∀ k, ¬ ElectionClass.active.Member b domain best w k) :
    j ∈ c.members b domain best w ↔ c.Member b domain best w j := by
  have hworker : Electable b best w j → j ∈ w.workers b := by
    rintro ⟨⟨⟨worker, helper, hworker, -, -⟩, -, -, -, -⟩, -⟩
    exact worker_mem_workers hworker
  rw [ElectionClass.members, List.mem_filter, accepts_worker_iff]
  constructor
  · rintro ⟨-, entry, i, hentry, hlb, hcd⟩
    obtain ⟨helectable, -, hread⟩ := electionEntry_eq_some hentry
    have hnonneg := helectable.eligible.lbfactor
    cases c with
    | inDomain =>
      have hne : (w.area b j).lbfactor ≠ 0 := by simpa [pass] using hlb
      exact ⟨helectable, by omega, i, hread, (isnodeDomainOk_iff (hd rfl)).1 (by simpa [pass] using hcd)⟩
    | active =>
      have hne : (w.area b j).lbfactor ≠ 0 := by simpa [pass] using hlb
      exact ⟨helectable, by omega⟩
    | standby =>
      refine ⟨helectable, ?_⟩
      by_contra hne
      exact hs rfl j ⟨helectable, by omega⟩
  · intro h
    cases c with
    | inDomain =>
      obtain ⟨helectable, hpos, i, hread, hdomain⟩ := h
      obtain ⟨entry, i', hentry⟩ := helectable.entry
      have hnode := (electionEntry_eq_some hentry).read
      rw [hread, Option.some.injEq] at hnode
      subst hnode
      exact ⟨hworker helectable, entry, i, hentry, Or.inl (by omega), Or.inr ((isnodeDomainOk_iff (hd rfl)).2 hdomain)⟩
    | active =>
      obtain ⟨helectable, hpos⟩ := h
      obtain ⟨entry, i, hentry⟩ := helectable.entry
      exact ⟨hworker helectable, entry, i, hentry, Or.inl (by omega), Or.inl rfl⟩
    | standby =>
      obtain ⟨helectable, -⟩ := h
      obtain ⟨entry, i, hentry⟩ := helectable.entry
      exact ⟨hworker helectable, entry, i, hentry, Or.inr rfl, Or.inl rfl⟩

theorem idxOf_le_iff {l : List Nat} (hl : l.Pairwise (· < ·)) {m k : Nat} (hm : m ∈ l) (hk : k ∈ l) :
    l.idxOf m ≤ l.idxOf k ↔ m ≤ k := by
  induction hl with
  | nil => cases hm
  | @cons a rest ha _ ih =>
    rcases List.mem_cons.1 hm with rfl | hm'
    · rcases List.mem_cons.1 hk with rfl | hk'
      · simp
      · have hlt := ha k hk'
        simp only [List.idxOf_cons_self]
        omega
    · have hlt := ha m hm'
      rw [List.idxOf_cons_ne rest (by omega)]
      rcases List.mem_cons.1 hk with rfl | hk'
      · simp only [List.idxOf_cons_self]
        omega
      · have hlt' := ha k hk'
        rw [List.idxOf_cons_ne rest (by omega)]
        have hnext := ih hm' hk'
        omega

theorem head?_eq_some_iff {l : List Nat} (hl : l.Pairwise (· < ·)) {j : Nat} :
    l.head? = some j ↔ j ∈ l ∧ ∀ k < j, k ∉ l := by
  cases hl with
  | nil => simp
  | @cons a rest ha =>
    rw [List.head?_cons, Option.some.injEq]
    constructor
    · rintro rfl
      refine ⟨List.mem_cons_self, fun k hk hmem => ?_⟩
      rcases List.mem_cons.1 hmem with rfl | hmem
      · omega
      · have hlt := ha k hmem
        omega
    · rintro ⟨hj, hfirst⟩
      rcases List.mem_cons.1 hj with rfl | hj
      · rfl
      · exact absurd List.mem_cons_self (hfirst a (ha j hj))

theorem ElectionClass.leader_iff {c : ElectionClass} {j : Nat} (hd : c = .inDomain → domain.getD [] ≠ [])
    (hs : c = .standby → ∀ k, ¬ ElectionClass.active.Member b domain best w k)
    (hexact : ∀ j, ElectionClass.active.Member b domain best w j → w.load b j = exactLoad b w j) :
    c.leader b domain best w = some j ↔ c.Gives b domain best w j := by
  have hincreases := @members_increase b domain best w c
  have hleast : (∀ k, c.Member b domain best w k → w.load b k = exactLoad b w k) →
      ((c.members b domain best w).argmin (w.load b) = some j ↔ c.Member b domain best w j ∧
        ∀ k, c.Member b domain best w k →
          exactLoad b w j ≤ exactLoad b w k ∧ (k < j → exactLoad b w j < exactLoad b w k)) := by
    intro hload
    rw [List.argmin_eq_some_iff, mem_members hd hs]
    refine and_congr_right fun hj => ⟨fun ⟨hle, hfirst⟩ k hk => ?_, fun h => ⟨fun k hk => ?_, fun k hk hle => ?_⟩⟩
    · have hmem := (mem_members hd hs).2 hk
      have hle := hle k hmem
      have hfirst := hfirst k hmem
      rw [idxOf_le_iff hincreases ((mem_members hd hs).2 hj) hmem] at hfirst
      rw [hload j hj, hload k hk] at hle hfirst
      omega
    · have hk' := (mem_members hd hs).1 hk
      rw [hload j hj, hload k hk']
      exact (h k hk').1
    · have hk' := (mem_members hd hs).1 hk
      rw [idxOf_le_iff hincreases ((mem_members hd hs).2 hj) hk]
      rw [hload j hj, hload k hk'] at hle
      have hlt := (h k hk').2
      omega
  cases c with
  | inDomain => exact hleast fun k hk => hexact k ⟨hk.1, hk.2.1⟩
  | active => exact hleast hexact
  | standby =>
    rw [leader, head?_eq_some_iff hincreases, mem_members hd hs]
    simp only [mem_members hd hs]
    rfl

theorem taken_eq_nil_iff {c : ElectionClass} (hd : c = .inDomain → domain.getD [] ≠ [])
    (hs : c = .standby → ∀ k, ¬ ElectionClass.active.Member b domain best w k) :
    c.taken b domain best w = [] ↔ ∀ j, ¬ c.Member b domain best w j := by
  have hmembers : c.taken b domain best w = [] ↔ c.members b domain best w = [] := by
    cases c <;> simp [ElectionClass.taken]
  rw [hmembers, List.eq_nil_iff_forall_not_mem]
  exact forall_congr' fun j => not_congr (ElectionClass.mem_members hd hs)

theorem classesTried_split {failoverdomain : Bool} {before after : List ElectionClass} {c : ElectionClass}
    (h : classesTried domain failoverdomain = before ++ c :: after) :
    (c = .inDomain → domain.getD [] ≠ []) ∧ (c = .standby → .active ∈ before) := by
  unfold classesTried at h
  by_cases hdomain : domain.getD [] ≠ []
  · refine ⟨fun _ => hdomain, ?_⟩
    rintro rfl
    rw [if_pos hdomain] at h
    rcases before with _ | ⟨c₁, _ | ⟨c₂, before⟩⟩ <;> cases failoverdomain <;> simp_all
  · rw [if_neg hdomain] at h
    refine ⟨?_, ?_⟩
    · rintro rfl
      rcases before with _ | ⟨c₁, _ | ⟨c₂, before⟩⟩ <;> cases failoverdomain <;> simp_all
    · rintro rfl
      rcases before with _ | ⟨c₁, before⟩ <;> cases failoverdomain <;> simp_all

theorem taken_iff_member {failoverdomain : Bool} {before after : List ElectionClass}
    (h : classesTried domain failoverdomain = before ++ after) :
    (∀ c ∈ before, c.taken b domain best w = []) ↔ ∀ c ∈ before, ∀ j, ¬ c.Member b domain best w j := by
  induction before using List.reverseRecOn generalizing after with
  | nil => simp
  | append_singleton before c ih =>
    rw [List.append_assoc, List.singleton_append] at h
    obtain ⟨hd, hs⟩ := classesTried_split h
    have hbefore := ih h
    simp only [List.mem_append, List.mem_singleton, or_imp, forall_and, forall_eq]
    constructor
    · rintro ⟨hempty, hc⟩
      have hnone := hbefore.1 hempty
      exact ⟨hnone, (taken_eq_nil_iff hd fun hst => hnone _ (hs hst)).1 hc⟩
    · rintro ⟨hnone, hc⟩
      exact ⟨hbefore.2 hnone, (taken_eq_nil_iff hd fun hst => hnone _ (hs hst)).2 hc⟩

theorem firstTaken_some {failoverdomain : Bool} {c : ElectionClass}
    (h : firstTaken b domain best w (classesTried domain failoverdomain) = some c) :
    FirstClass b domain best w (classesTried domain failoverdomain) c ∧ (c = .inDomain → domain.getD [] ≠ []) ∧
      (c = .standby → ∀ k, ¬ ElectionClass.active.Member b domain best w k) := by
  unfold firstTaken at h
  rw [List.find?_eq_some_iff_append] at h
  obtain ⟨hne, before, after, hsplit, hempty⟩ := h
  obtain ⟨hd, hs⟩ := classesTried_split hsplit
  have hnone := (taken_iff_member hsplit).1 fun c' hc' => by simpa using hempty c' hc'
  have hstandby : c = .standby → ∀ k, ¬ ElectionClass.active.Member b domain best w k :=
    fun hst => hnone _ (hs hst)
  have hmember : ∃ j, c.Member b domain best w j := by
    by_contra hno
    rw [decide_eq_true_eq] at hne
    exact hne ((taken_eq_nil_iff hd hstandby).2 (not_exists.1 hno))
  exact ⟨⟨before, after, hsplit, hnone, hmember⟩, hd, hstandby⟩

theorem firstTaken_none {failoverdomain : Bool}
    (h : firstTaken b domain best w (classesTried domain failoverdomain) = none) :
    ∀ c ∈ classesTried domain failoverdomain, ∀ j, ¬ c.Member b domain best w j := by
  have hempty : ∀ c ∈ classesTried domain failoverdomain, c.taken b domain best w = [] := by
    simpa [firstTaken] using h
  exact (taken_iff_member (List.append_nil _).symm).1 hempty

theorem leader_spec {c : ElectionClass} {k : Nat} (h : c.leader b domain best w = some k) :
    k ∈ c.taken b domain best w ∧ ∃ nodecontext, contextFor b best w k = some nodecontext := by
  have hmem : k ∈ c.taken b domain best w := by
    cases c with
    | inDomain => exact List.argmin_mem h
    | active => exact List.argmin_mem h
    | standby =>
      obtain ⟨rest, hrest⟩ := List.head?_eq_some_iff.1 h
      simp [ElectionClass.taken, hrest]
  have hmembers : k ∈ c.members b domain best w := by
    cases c with
    | inDomain => exact hmem
    | active => exact hmem
    | standby => exact List.mem_of_mem_take hmem
  obtain ⟨entry, i, hentry, -⟩ := accepts_worker_iff.1 (List.mem_filter.1 hmembers).2
  exact ⟨hmem, entry, by simp [contextFor, hentry]⟩

theorem FirstClass.cons {classes : List ElectionClass} {c c' : ElectionClass}
    (h : FirstClass b domain best w (c' :: classes) c) :
    c = c' ∧ (∃ j, c'.Member b domain best w j) ∨
      (∀ j, ¬ c'.Member b domain best w j) ∧ FirstClass b domain best w classes c := by
  obtain ⟨before, after, hsplit, hnone, hmember⟩ := h
  cases before with
  | nil =>
    obtain ⟨rfl, -⟩ := List.cons.inj hsplit
    exact Or.inl ⟨rfl, hmember⟩
  | cons c₁ before =>
    obtain ⟨rfl, hrest⟩ := List.cons.inj hsplit
    exact Or.inr ⟨hnone _ List.mem_cons_self, before, after, hrest,
      fun c' hc' => hnone c' (List.mem_cons_of_mem _ hc'), hmember⟩

theorem FirstClass.unique {classes : List ElectionClass} {c c' : ElectionClass}
    (h : FirstClass b domain best w classes c) (h' : FirstClass b domain best w classes c') : c = c' := by
  induction classes with
  | nil =>
    obtain ⟨before, after, hsplit, -⟩ := h
    simp at hsplit
  | cons c₀ classes ih =>
    rcases h.cons with ⟨rfl, j, hj⟩ | ⟨hnone, h⟩
    · rcases h'.cons with ⟨rfl, -⟩ | ⟨hnone, -⟩
      · rfl
      · exact absurd hj (hnone j)
    · rcases h'.cons with ⟨rfl, j, hj⟩ | ⟨-, h'⟩
      · exact absurd hj (hnone j)
      · exact ih h h'

theorem firstTaken_iff {failoverdomain : Bool} {c : ElectionClass} :
    firstTaken b domain best w (classesTried domain failoverdomain) = some c ↔
      FirstClass b domain best w (classesTried domain failoverdomain) c := by
  refine ⟨fun h => (firstTaken_some h).1, fun hfirst => ?_⟩
  cases hfind : firstTaken b domain best w (classesTried domain failoverdomain) with
  | none =>
    have hnone := firstTaken_none hfind c
    obtain ⟨before, after, hsplit, -, j, hj⟩ := hfirst
    rw [hsplit] at hnone
    exact absurd hj (hnone (by simp) j)
  | some c' => rw [(firstTaken_some hfind).1.unique hfirst]

theorem FirstClass.mem {classes : List ElectionClass} {c : ElectionClass}
    (h : FirstClass b domain best w classes c) : c ∈ classes := by
  obtain ⟨before, after, rfl, -⟩ := h
  simp

/-! ## The choice -/

variable {httpd : Httpd} {s : Snapshot} {turn : Turn} {failoverdomain : Bool} {h : Handling} {r : Request}

theorem electWorker_eq {balancer : ProxyBalancer}
    (hcontexts : findNodeContextHost cfg.useAlias s h.world.server.balancers h.request (some balancer)
      h.request.notes.sessionRoute = (r, some best)) :
    electWorker cfg s b domain failoverdomain balancer h =
      match settled cfg b domain best h.world r (classesTried domain failoverdomain) with
      | .crashed => (h.setRequest r, .crashed)
      | .missing => (h.setRequest (r.setContextId none), .missing)
      | .worker j checkedDomain nodecontext =>
        ((h.setRequest ((if checkedDomain then r else r.setDomainOk).setContextId
          (some nodecontext.context))).write b j electedOnce, .worker j) := by
  have hloop : electLoop cfg b domain best h.world r (electionPasses domain failoverdomain) ⟨none, none, []⟩ =
      settled cfg b domain best h.world r (classesTried domain failoverdomain) := electLoop_eq r failoverdomain
  unfold electWorker
  cases hsettled : settled cfg b domain best h.world r (classesTried domain failoverdomain) <;>
    simp only [hcontexts, hloop, hsettled]

/-- What the call reads before its passes. -/
structure Elects (httpd : Httpd) (cfg : Settings) (s : Snapshot) (b : Nat) (turn : Turn) (h : Handling) (w : World)
    (balancer : ProxyBalancer) (r : Request) (best : List NodeContext) : Prop where
  /-- The workers are up to date. -/
  updated : (if cfg.cacheShareFor then some h.world else refreshWorkers httpd cfg s turn h.world) = some w
  asked : w.server.balancers[b]? = some balancer
  contexts : findNodeContextHost cfg.useAlias s w.server.balancers h.request (some balancer)
    h.request.notes.sessionRoute = (r, some best)

theorem Elects.find {balancer : ProxyBalancer} (he : Elects httpd cfg s b turn h w balancer r best) :
    internalFindBestByrequests httpd cfg s b turn domain failoverdomain h =
      electWorker cfg s b domain failoverdomain balancer { h with world := w } := by
  unfold internalFindBestByrequests
  rw [he.updated]
  simp only [he.asked]

theorem Elects.answer {balancer : ProxyBalancer} (he : Elects httpd cfg s b turn h w balancer r best) :
    internalFindBestByrequests httpd cfg s b turn domain failoverdomain h =
      match settled cfg b domain best w r (classesTried domain failoverdomain) with
      | .crashed => (⟨w, r⟩, .crashed)
      | .missing => (⟨w, r.setContextId none⟩, .missing)
      | .worker j checkedDomain nodecontext =>
        ((Handling.setRequest ⟨w, r⟩ ((if checkedDomain then r else r.setDomainOk).setContextId
          (some nodecontext.context))).write b j electedOnce, .worker j) := by
  rw [he.find, electWorker_eq he.contexts]
  rfl

theorem failoverTarget_off (hdet : cfg.deterministicFailover = false) (workers : List Nat) :
    failoverTarget cfg b w r workers = .keep := by
  unfold failoverTarget
  rw [hdet]

end Classes

/-! ## The election -/

/-- An election without deterministic failover returns the worker of the first class
that has members, if any has. -/
theorem election_by_classes (httpd : Httpd) (cfg : Settings) (s : Snapshot) (b : Nat) (turn : Turn)
    (domain : Option Str) (failoverdomain : Bool) (h : Handling) (w : World) (balancer : ProxyBalancer) (r : Request)
    (best : List NodeContext) (hdet : cfg.deterministicFailover = false)
    (he : Elects httpd cfg s b turn h w balancer r best)
    (hexact : ∀ j, ElectionClass.active.Member b domain best w j → w.load b j = exactLoad b w j) :
    let answer := (internalFindBestByrequests httpd cfg s b turn domain failoverdomain h).2
    (∀ j, answer = .worker j ↔
        ∃ c, FirstClass b domain best w (classesTried domain failoverdomain) c ∧ c.Gives b domain best w j) ∧
      (answer = .missing ↔ ∀ c ∈ classesTried domain failoverdomain, ∀ j, ¬ c.Member b domain best w j) ∧
      (answer = .missing ∨ ∃ j, answer = .worker j) := by
  intro answer
  have hanswer : answer = (internalFindBestByrequests httpd cfg s b turn domain failoverdomain h).2 := rfl
  rw [he.answer] at hanswer
  cases hfind : firstTaken b domain best w (classesTried domain failoverdomain) with
  | none =>
    have hnone := firstTaken_none hfind
    rw [settled, hfind] at hanswer
    simp only at hanswer
    rw [hanswer]
    refine ⟨fun j => ⟨fun hj => (nomatch hj), ?_⟩, ⟨fun _ => hnone, fun _ => rfl⟩, Or.inl rfl⟩
    rintro ⟨c, hfirst, hmember, -⟩
    exact absurd hmember (hnone c hfirst.mem j)
  | some c =>
    obtain ⟨hfirst, hd, hs⟩ := firstTaken_some hfind
    have hne : c.taken b domain best w ≠ [] := by simpa using List.find?_some hfind
    obtain ⟨k, hk⟩ := Option.ne_none_iff_exists'.1 fun hnone => hne (leader_eq_none_iff.1 hnone)
    obtain ⟨-, nodecontext, hcontext⟩ := leader_spec hk
    have hworker : c.settle cfg b domain best w r = .worker k c.pass.2 nodecontext := by
      simp [ElectionClass.settle, failoverTarget_off hdet, hk, hcontext]
    rw [settled, hfind] at hanswer
    simp only [hworker] at hanswer
    rw [hanswer]
    have hgives := @ElectionClass.leader_iff b domain best w c k hd hs hexact
    refine ⟨fun j => ⟨?_, ?_⟩, ⟨fun hno => (nomatch hno), fun hnone => ?_⟩, Or.inr ⟨k, rfl⟩⟩
    · rintro ⟨⟩
      exact ⟨c, hfirst, hgives.1 hk⟩
    · rintro ⟨c', hfirst', hgives'⟩
      obtain rfl := hfirst.unique hfirst'
      rw [(ElectionClass.leader_iff hd hs hexact).2 hgives', Option.some.injEq] at hk
      rw [hk]
    · have hmem := hfirst.mem
      obtain ⟨-, -, -, -, j, hj⟩ := hfirst
      exact absurd hj (hnone c hmem j)

/-! ## Two workers -/

section Example

def electionSettings (deterministicFailover : Bool) : Settings :=
  { aliased with cacheShareFor := true, deterministicFailover := deterministicFailover }

/-- The area of the worker of node `i`. -/
def electionArea (i : Nat) (route : Str) (lbfactor : Int) (elected : Nat) : WorkerShared :=
  { nodeArea with index := i, route := route, lbfactor := lbfactor, elected := elected }

/-- Worker `i` is the one of node `i`. -/
def electionBalancer (areas : List WorkerShared) : ProxyBalancer :=
  { nodeBalancer with workers := areas.zipIdx.map fun p => ⟨.slot p.2, p.1, some ⟨0, p.2, true⟩⟩ }

/-- The areas are those of the slots. -/
def electionWorld (areas : List WorkerShared) : World :=
  ⟨{ emptyTables ⟨1, 1, 1, 1, 1⟩ with nodes := ⟨areas.map fun area => ⟨true, { nodeRecord with stat := area }⟩⟩ },
    ⟨[electionBalancer areas]⟩⟩

/-- A request with this session id, which the contexts of two nodes serve. -/
def electionRequest (sessionId : Option Str) : Request :=
  { sessionR0 with notes := { Notes.empty with sessionId := sessionId, proxyContext := some [⟨0, 0⟩, ⟨1, 1⟩] } }

def electionTables : Snapshot := ⟨[], [], [], by decide⟩

def activeAreas : List WorkerShared := [electionArea 0 (ascii "r0") 100 5, electionArea 1 (ascii "r1") 100 3]

def twoActive : World := electionWorld activeAreas

/-- The second worker has been elected less often. -/
theorem second_worker_elected :
    (internalFindBestByrequests plainHttpd (electionSettings false) electionTables 0 quiet none false
      ⟨twoActive, electionRequest none⟩).2 = .worker 1 := by
  have hfacts : ElectionClass.active.leader 0 none [⟨0, 0⟩, ⟨1, 1⟩] twoActive = some 1 ∧
      ElectionClass.active.members 0 none [⟨0, 0⟩, ⟨1, 1⟩] twoActive = [0, 1] ∧
      twoActive.load 0 0 = exactLoad 0 twoActive 0 ∧ twoActive.load 0 1 = exactLoad 0 twoActive 1 := by
    decide +kernel
  obtain ⟨hleader, hmembers, hzero, hone⟩ := hfacts
  have hexact : ∀ j, ElectionClass.active.Member 0 none [⟨0, 0⟩, ⟨1, 1⟩] twoActive j →
      twoActive.load 0 j = exactLoad 0 twoActive j := by
    intro j hj
    have hmem := (ElectionClass.mem_members (by simp) (by simp)).2 hj
    rw [hmembers] at hmem
    simp only [List.mem_cons, List.not_mem_nil, or_false] at hmem
    rcases hmem with rfl | rfl
    · exact hzero
    · exact hone
  have hgives := (ElectionClass.leader_iff (by simp) (by simp) hexact).1 hleader
  exact ((election_by_classes plainHttpd (electionSettings false) electionTables 0 quiet none false
    ⟨twoActive, electionRequest none⟩ twoActive _ _ _ rfl ⟨rfl, rfl, rfl⟩ hexact).1 1).2
    ⟨.active, ⟨[], [.standby], rfl, by simp, 1, hgives.1⟩, hgives⟩

end Example

end ModCluster
