import ModCluster.ElectionClasses
import ModCluster.PathLookup

/-!
# The target of deterministic failover

The target is taken from the workers that a pass has collected, in the order of their
routes, at the place that the sum of the bytes of the session id gives.
-/

open CString Slotmem

namespace ModCluster

/-! ## Statement -/

/-- The text whose bytes are summed, when there is a target. -/
def pickedBy (cfg : Settings) (r : Request) : Option Str :=
  match cfg.deterministicFailover, r.notes.sessionId with
  | true, some sessionIdWithRoute =>
    if sessionIdWithRoute.contains (ch '.') then strtok (ascii ".") sessionIdWithRoute else none
  | _, _ => none

/-- The loop comes to a pass after which the target is taken from `workers`. -/
inductive Picks (cfg : Settings) (b : Nat) (domain : Option Str) (best : List NodeContext) (w : World) (r : Request)
    (workers : List Nat) : List (Bool × Bool) → Election → Prop
  | now {st cd : Bool} {rest : List (Bool × Bool)} {e : Election} (hid : (pickedBy cfg r).isSome = true)
      (hworkers : (electPass b st cd domain best w (w.workers b) e).workers = workers) (hne : workers ≠ []) :
      Picks cfg b domain best w r workers ((st, cd) :: rest) e
  | later {st cd : Bool} {rest : List (Bool × Bool)} {e : Election}
      (hnone : (electPass b st cd domain best w (w.workers b) e).mycandidate = none)
      (hkeep : failoverTarget cfg b w r (electPass b st cd domain best w (w.workers b) e).workers = .keep)
      (h : Picks cfg b domain best w r workers rest (electPass b st cd domain best w (w.workers b) e)) :
      Picks cfg b domain best w r workers ((st, cd) :: rest) e

/-- The bytes as `signed char`, summed without bounds. -/
def byteSum (s : Str) : Int := (s.map fun c => (c.toNat : Int).bmod 256).sum

/-- The place in the array. -/
def targetIndex (sessionId : Str) (workers : List Nat) : Int := (sessionHash sessionId).tmod workers.length

section Target

variable {cfg : Settings} {b : Nat} {domain : Option Str} {best : List NodeContext} {w : World} {r : Request}
  {workers : List Nat}

/-! ## The index -/

theorem sessionHash_eq (s : Str) : sessionHash s = toInt32 (byteSum s) := by
  have hfold : ∀ (s : Str) (n : Int), s.foldl (fun hash c => toInt32 (hash + (c.toNat : Int).bmod 256)) (toInt32 n) =
      toInt32 (n + byteSum s) := by
    intro s
    induction s with
    | nil =>
      intro n
      simp [byteSum]
    | cons c s ih =>
      intro n
      have hstep : toInt32 (toInt32 n + (c.toNat : Int).bmod 256) = toInt32 (n + (c.toNat : Int).bmod 256) :=
        Int.bmod_add_bmod
      rw [List.foldl_cons, hstep, ih]
      simp [byteSum, Int.add_assoc]
  have hstart := hfold s 0
  rwa [Int.zero_add] at hstart

theorem tmod_inside_iff (hash : Int) {n : Nat} (hn : 1 ≤ n) :
    0 ≤ hash.tmod n ∧ hash.tmod n < n ↔ 0 ≤ hash ∨ (n : Int) ∣ hash := by
  have hlt : hash.tmod n < n := Int.tmod_lt_of_pos hash (by omega)
  rw [Int.dvd_iff_tmod_eq_zero]
  rcases Int.lt_or_le hash 0 with hneg | hnonneg
  · have hle : hash.tmod n ≤ 0 := by
      have hflip := Int.tmod_nonneg (a := -hash) n (by omega)
      rw [Int.neg_tmod] at hflip
      omega
    omega
  · have hpos : 0 ≤ hash.tmod n := Int.tmod_nonneg n hnonneg
    omega

theorem failoverTarget_eq (cfg : Settings) (r : Request) (workers : List Nat) :
    failoverTarget cfg b w r workers =
      match pickedBy cfg r with
      | none => .keep
      | some sessionId =>
        if workers = [] then .keep
        else if targetIndex sessionId workers < 0 then .outside
        else
          match (workers.insertionSort fun j k => strLe (w.area b j).route (w.area b k).route)[
              (targetIndex sessionId workers).toNat]? with
          | some j => .pick j
          | none => .outside := by
  unfold failoverTarget pickedBy
  cases cfg.deterministicFailover with
  | false => rfl
  | true =>
    cases r.notes.sessionId with
    | none => rfl
    | some id =>
      simp only
      by_cases hdot : id.contains (ch '.') = true
      · rw [if_pos hdot]
        cases strtok (ascii ".") id with
        | none => rfl
        | some sessionId =>
          simp only [hdot, true_and]
          by_cases hworkers : workers = []
          · rw [if_pos hworkers, if_neg (not_not_intro hworkers)]
          · rw [if_neg hworkers, if_pos hworkers]
            rfl
      · rw [if_neg hdot]
        cases strtok (ascii ".") id with
        | none => rfl
        | some sessionId =>
          simp only
          rw [if_neg fun h => hdot h.1]

theorem picks_cons {c : ElectionClass} {rest : List (Bool × Bool)} {sessionId : Str}
    (hid : pickedBy cfg r = some sessionId)
    (hc : c = .standby → ElectionClass.active.members b domain best w = []) :
    Picks cfg b domain best w r workers (c.pass :: rest) ⟨none, none, []⟩ ↔
      if c.taken b domain best w = [] then Picks cfg b domain best w r workers rest ⟨none, none, []⟩
      else workers = c.taken b domain best w := by
  have hpass := electPass_class hc
  have hsome : (pickedBy cfg r).isSome = true := by rw [hid]; rfl
  generalize c.pass = pass at hpass ⊢
  obtain ⟨st, cd⟩ := pass
  by_cases htaken : c.taken b domain best w = []
  · rw [leader_eq_none_iff.2 htaken, htaken] at hpass
    have hstart : Election.of b best w none [] = ⟨none, none, []⟩ := rfl
    rw [hstart] at hpass
    rw [if_pos htaken]
    constructor
    · intro h
      cases h with
      | now _ hworkers hne =>
        rw [hpass] at hworkers
        exact absurd hworkers.symm hne
      | later _ _ h => rwa [hpass] at h
    · intro h
      exact .later (by rw [hpass]) (by rw [hpass]; exact failoverTarget_nil r) (by rwa [hpass])
  · rw [if_neg htaken]
    constructor
    · intro h
      cases h with
      | now _ hworkers _ =>
        rw [hpass] at hworkers
        exact hworkers.symm
      | later hnone _ _ =>
        rw [hpass] at hnone
        exact absurd (leader_eq_none_iff.1 hnone) htaken
    · rintro rfl
      exact .now hsome (by rw [hpass]; rfl) htaken

theorem picks_iff {failoverdomain : Bool} {sessionId : Str} (hid : pickedBy cfg r = some sessionId) :
    Picks cfg b domain best w r workers (electionPasses domain failoverdomain) ⟨none, none, []⟩ ↔
      ∃ c, firstTaken b domain best w (classesTried domain failoverdomain) = some c ∧
        workers = c.taken b domain best w := by
  rw [electionPasses_eq]
  apply @classesTried_induct b domain best w fun classes =>
    Picks cfg b domain best w r workers (classes.map ElectionClass.pass) ⟨none, none, []⟩ ↔
      ∃ c, firstTaken b domain best w classes = some c ∧ workers = c.taken b domain best w
  · constructor
    · intro h
      cases h
    · rintro ⟨c, hc, -⟩
      cases hc
  · intro c classes hc hrest
    rw [List.map_cons, picks_cons hid hc, firstTaken_cons]
    split
    · rename_i htaken
      exact hrest htaken
    · simp

theorem taken_length_le (c : ElectionClass) : (c.taken b domain best w).length ≤ (w.workers b).length := by
  have hmembers : (c.members b domain best w).length ≤ (w.workers b).length := List.length_filter_le _ _
  cases c with
  | inDomain => exact hmembers
  | active => exact hmembers
  | standby =>
    simp only [ElectionClass.taken, List.length_take]
    omega

theorem settle_crashed_iff {c : ElectionClass} {sessionId : Str} (hid : pickedBy cfg r = some sessionId)
    (hne : c.taken b domain best w ≠ []) :
    c.settle cfg b domain best w r = .crashed ↔ ¬ (0 ≤ targetIndex sessionId (c.taken b domain best w) ∧
      targetIndex sessionId (c.taken b domain best w) < (c.taken b domain best w).length) := by
  obtain ⟨k, hk⟩ := Option.ne_none_iff_exists'.1 fun hnone => hne (leader_eq_none_iff.1 hnone)
  obtain ⟨-, nodecontext, hcontext⟩ := leader_spec hk
  unfold ElectionClass.settle
  rw [failoverTarget_eq, hid]
  simp only [hk, Option.bind_some, hcontext]
  rw [if_neg hne]
  by_cases hneg : targetIndex sessionId (c.taken b domain best w) < 0
  · rw [if_pos hneg]
    simp only [true_iff]
    omega
  · rw [if_neg hneg]
    cases hget : ((c.taken b domain best w).insertionSort fun j k => strLe (w.area b j).route (w.area b k).route)[
        (targetIndex sessionId (c.taken b domain best w)).toNat]? with
    | none =>
      rw [List.getElem?_eq_none_iff, List.length_insertionSort] at hget
      simp only [true_iff]
      omega
    | some j =>
      obtain ⟨hlt, -⟩ := List.getElem?_eq_some_iff.1 hget
      rw [List.length_insertionSort] at hlt
      simp only [reduceCtorEq, false_iff, not_not]
      omega

end Target

/-- The target is in the array when the sum of the bytes, as an `int`, is not negative
or a multiple of the number of workers, and these are no more than were allocated. -/
theorem target_in_array_iff (httpd : Httpd) (cfg : Settings) (s : Snapshot) (b : Nat) (turn : Turn)
    (domain : Option Str) (failoverdomain : Bool) (h : Handling) (w : World) (balancer : ProxyBalancer) (r : Request)
    (best : List NodeContext) (sessionId : Str) (workers : List Nat) (c : ElectionClass)
    (he : Elects httpd cfg s b turn h w balancer r best) (hid : pickedBy cfg r = some sessionId)
    (hpicks : Picks cfg b domain best w r workers (electionPasses domain failoverdomain) ⟨none, none, []⟩)
    (hc : FirstClass b domain best w (classesTried domain failoverdomain) c) :
    (1 ≤ workers.length ∧ workers.length ≤ balancer.workers.length ∧ workers.length ≤ workersAllocated b h ∧
        0 ≤ targetIndex sessionId workers ∧ targetIndex sessionId workers < workers.length ↔
      (0 ≤ toInt32 (byteSum sessionId) ∨
        ((c.taken b domain best w).length : Int) ∣ toInt32 (byteSum sessionId)) ∧
      (c.taken b domain best w).length ≤ workersAllocated b h) ∧
    ((internalFindBestByrequests httpd cfg s b turn domain failoverdomain h).2 = .crashed ↔
      ¬ (0 ≤ toInt32 (byteSum sessionId) ∨
        ((c.taken b domain best w).length : Int) ∣ toInt32 (byteSum sessionId))) := by
  have hfirst := firstTaken_iff.2 hc
  obtain ⟨c', hc', hworkers⟩ := (picks_iff hid).1 hpicks
  rw [hfirst, Option.some.injEq] at hc'
  subst hc'
  subst hworkers
  have hne : c.taken b domain best w ≠ [] := by simpa using List.find?_some hfirst
  have hpos : 1 ≤ (c.taken b domain best w).length := List.length_pos_iff.2 hne
  have hle : (c.taken b domain best w).length ≤ balancer.workers.length := by
    have hle := @taken_length_le b domain best w c
    simpa [World.workers, he.asked] using hle
  have hinside := tmod_inside_iff (sessionHash sessionId) hpos
  rw [sessionHash_eq] at hinside
  have hindex : targetIndex sessionId (c.taken b domain best w) =
      (toInt32 (byteSum sessionId)).tmod (c.taken b domain best w).length := by
    rw [targetIndex, sessionHash_eq]
  constructor
  · rw [hindex, ← hinside]
    exact ⟨fun ⟨_, _, hfits, hin⟩ => ⟨hin, hfits⟩, fun ⟨hin, hfits⟩ => ⟨hpos, hle, hfits, hin⟩⟩
  · rw [he.answer, settled, hfirst, ← hinside, ← hindex, ← settle_crashed_iff hid hne]
    simp only
    cases c.settle cfg b domain best w r <;> simp

section Example

theorem twoActive_first : firstTaken 0 none [⟨0, 0⟩, ⟨1, 1⟩] twoActive (classesTried none false) = some .active ∧
    ElectionClass.active.taken 0 none [⟨0, 0⟩, ⟨1, 1⟩] twoActive = [0, 1] := by
  have htaken : ElectionClass.active.taken 0 none [⟨0, 0⟩, ⟨1, 1⟩] twoActive = [0, 1] := by decide +kernel
  have hclasses : classesTried none false = .active :: [.standby] := rfl
  refine ⟨?_, htaken⟩
  rw [hclasses, firstTaken_cons, htaken]
  rfl

theorem twoActive_picks {id sessionId : Str}
    (hid : pickedBy (electionSettings true) (electionRequest (some id)) = some sessionId) :
    Picks (electionSettings true) 0 none [⟨0, 0⟩, ⟨1, 1⟩] twoActive (electionRequest (some id)) [0, 1]
      (electionPasses none false) ⟨none, none, []⟩ :=
  (picks_iff hid).2 ⟨.active, twoActive_first.1, twoActive_first.2.symm⟩

/-- The bytes of `id` are positive. -/
theorem second_worker_targeted :
    0 ≤ targetIndex (ascii "id") [0, 1] ∧ targetIndex (ascii "id") [0, 1] < 2 := by
  have hfacts : pickedBy (electionSettings true) (electionRequest (some (ascii "id.r0"))) = some (ascii "id") ∧
      0 ≤ toInt32 (byteSum (ascii "id")) := by
    decide +kernel
  have hfits : (ElectionClass.active.taken 0 none [⟨0, 0⟩, ⟨1, 1⟩] twoActive).length ≤
      workersAllocated 0 ⟨twoActive, electionRequest (some (ascii "id.r0"))⟩ := by
    rw [twoActive_first.2]
    decide +kernel
  have htarget := (target_in_array_iff plainHttpd (electionSettings true) electionTables 0 quiet none false
    ⟨twoActive, electionRequest (some (ascii "id.r0"))⟩ twoActive _ _ _ _ _ _ ⟨rfl, rfl, rfl⟩ hfacts.1
    (twoActive_picks hfacts.1) (firstTaken_iff.1 twoActive_first.1)).1.2 ⟨Or.inl hfacts.2, hfits⟩
  exact htarget.2.2.2

/-- A session id that begins with the byte 233, which is -23. -/
def negativeId : Str := [233, ch '.', ch 'r', ch '0']

theorem negative_target :
    ¬ ∀ (httpd : Httpd) (cfg : Settings) (s : Snapshot) (b : Nat) (turn : Turn) (domain : Option Str)
      (failoverdomain : Bool) (h : Handling) (w : World) (balancer : ProxyBalancer) (r : Request)
      (best : List NodeContext) (sessionId : Str) (workers : List Nat),
      Elects httpd cfg s b turn h w balancer r best → pickedBy cfg r = some sessionId →
        Picks cfg b domain best w r workers (electionPasses domain failoverdomain) ⟨none, none, []⟩ →
          1 ≤ workers.length ∧ workers.length ≤ balancer.workers.length ∧ workers.length ≤ workersAllocated b h ∧
            0 ≤ targetIndex sessionId workers ∧ targetIndex sessionId workers < workers.length := by
  intro h
  have hfacts : pickedBy (electionSettings true) (electionRequest (some negativeId)) = some [233] ∧
      targetIndex [233] [0, 1] = -1 := by
    decide +kernel
  obtain ⟨-, -, -, hpos, -⟩ := h plainHttpd (electionSettings true) electionTables 0 quiet none false
    ⟨twoActive, electionRequest (some negativeId)⟩ twoActive _ _ _ _ _ ⟨rfl, rfl, rfl⟩ hfacts.1
    (twoActive_picks hfacts.1)
  rw [hfacts.2] at hpos
  exact absurd hpos (by decide)

end Example

/-! ## Another order of the workers -/

/-- The workers of the balancer in another order, as another process has them. -/
structure Permuted (b : Nat) (w w' : World) (balancer balancer' : ProxyBalancer) : Prop where
  tables : w'.tables = w.tables
  asked : w.server.balancers[b]? = some balancer
  server : w'.server = ⟨w.server.balancers.set b balancer'⟩
  workers : balancer'.workers.Perm balancer.workers
  rest : balancer'.bare = balancer.bare

/-- Both processes return a worker with the same route, or neither returns one. -/
def SameRoute (b : Nat) (w w' : World) (found found' : Found) : Prop :=
  match found, found' with
  | .worker j, .worker k => (w.area b j).route = (w'.area b k).route
  | _, _ => found = found'

section Order

variable {cfg : Settings} {s : Snapshot} {b : Nat} {domain : Option Str} {failoverdomain : Bool}
  {best : List NodeContext} {w w' : World} {balancer balancer' : ProxyBalancer} {r : Request}

theorem range_filter_map {α β : Type} (l : List α) {P : Nat → Bool} {p : α → Bool} {F : Nat → β} {f : α → β}
    (h : ∀ i a, l[i]? = some a → P i = p a ∧ F i = f a) :
    ((List.range l.length).filter P).map F = (l.filter p).map f := by
  induction l using List.reverseRecOn with
  | nil => rfl
  | append_singleton l a ih =>
    have hlast := h l.length a (by simp)
    have hbefore := ih fun i x hi => h i x (by
      rw [List.getElem?_append_left (List.getElem?_eq_some_iff.1 hi).1]
      exact hi)
    rw [List.length_append, List.length_singleton, List.range_succ, List.filter_append, List.filter_append,
      List.map_append, List.map_append, hbefore]
    cases hp : p a <;> simp [hlast, hp]

theorem members_routes (hb : w.server.balancers[b]? = some balancer) (c : ElectionClass) :
    (c.members b domain best w).map (fun j => (w.area b j).route) =
      (balancer.workers.filter (·.accepted domain best w.tables c.pass.1 c.pass.2)).map
        fun worker => (worker.area w.tables).route := by
  unfold ElectionClass.members World.workers
  rw [hb]
  apply range_filter_map
  intro i worker hi
  have hworker : w.server.worker? b i = some worker := by
    rw [Server.worker?, hb]
    exact hi
  exact ⟨by rw [accepts, hworker, Option.any_some], by rw [area_of_worker hworker]⟩

theorem Permuted.asked_other (h : Permuted b w w' balancer balancer') :
    w'.server.balancers[b]? = some balancer' := by
  rw [h.server]
  have hlt := (List.getElem?_eq_some_iff.1 h.asked).1
  simp [hlt]

theorem Permuted.members (h : Permuted b w w' balancer balancer') (c : ElectionClass) :
    ((c.members b domain best w').map fun j => (w'.area b j).route).Perm
      ((c.members b domain best w).map fun j => (w.area b j).route) := by
  rw [members_routes h.asked, members_routes h.asked_other, h.tables]
  exact (h.workers.filter _).map _

theorem Permuted.find (h : Permuted b w w' balancer balancer') (route : Option Str) :
    findNodeContextHost cfg.useAlias s w'.server.balancers r (some balancer') route =
      findNodeContextHost cfg.useAlias s w.server.balancers r (some balancer) route := by
  have hsame : w'.server.balancers.map ProxyBalancer.bare = w.server.balancers.map ProxyBalancer.bare := by
    have hself : w.server.balancers.set b balancer = w.server.balancers := by
      obtain ⟨hlt, hget⟩ := List.getElem?_eq_some_iff.1 h.asked
      rw [← hget, List.set_getElem_self]
    rw [h.server, List.map_set, h.rest, ← List.map_set, hself]
  rw [findNodeContextHost_bare w'.server.balancers, findNodeContextHost_bare w.server.balancers, hsame, h.rest]

theorem members_eq_nil_iff {c : ElectionClass} : c.taken b domain best w = [] ↔ c.members b domain best w = [] := by
  cases c <;> simp [ElectionClass.taken]

theorem Permuted.firstTaken (h : Permuted b w w' balancer balancer') (classes : List ElectionClass) :
    firstTaken b domain best w' classes = firstTaken b domain best w classes := by
  have hempty : ∀ c : ElectionClass, c.taken b domain best w' = [] ↔ c.taken b domain best w = [] := by
    intro c
    have hlength := (@Permuted.members b domain best w w' balancer balancer' h c).length_eq
    rw [List.length_map, List.length_map] at hlength
    rw [members_eq_nil_iff, members_eq_nil_iff, ← List.length_eq_zero_iff, ← List.length_eq_zero_iff, hlength]
  unfold ModCluster.firstTaken
  simp only [ne_eq, hempty]

/-! ## The target by its route -/

instance strLe_total : Std.Total fun a b : Str => strLe a b = true := ⟨fun a b => by
  simpa [strLe] using List.le_total a b⟩

instance strLe_trans : IsTrans Str fun a b => strLe a b = true := ⟨fun a b c hab hbc => by
  simp only [strLe, decide_eq_true_eq] at hab hbc ⊢
  exact List.le_trans hab hbc⟩

theorem sorted_congr {routes routes' : List Str} (h : routes.Perm routes') :
    routes.insertionSort (fun a b => strLe a b) = routes'.insertionSort fun a b => strLe a b := by
  apply @List.Perm.eq_of_pairwise Str fun a b => strLe a b = true
  · intro a b _ _ hab hba
    simp only [strLe, decide_eq_true_eq] at hab hba
    exact List.le_antisymm hab hba
  · exact List.pairwise_insertionSort _ routes
  · exact List.pairwise_insertionSort _ routes'
  · exact (List.perm_insertionSort _ routes).trans (h.trans (List.perm_insertionSort _ routes').symm)

/-- The route of the target, from the routes of the workers. -/
def targetRoute (sessionId : Str) (routes : List Str) : Option Str :=
  if (sessionHash sessionId).tmod routes.length < 0 then none
  else (routes.insertionSort fun a b => strLe a b)[((sessionHash sessionId).tmod routes.length).toNat]?

theorem targetRoute_congr {routes routes' : List Str} (h : routes.Perm routes') (sessionId : Str) :
    targetRoute sessionId routes = targetRoute sessionId routes' := by
  unfold targetRoute
  rw [h.length_eq, sorted_congr h]

theorem settle_target {c : ElectionClass} {sessionId : Str} (hid : pickedBy cfg r = some sessionId)
    (hne : c.taken b domain best w ≠ []) :
    match targetRoute sessionId ((c.taken b domain best w).map fun j => (w.area b j).route) with
    | none => c.settle cfg b domain best w r = .crashed
    | some route => ∃ j nodecontext, c.settle cfg b domain best w r = .worker j c.pass.2 nodecontext ∧
        (w.area b j).route = route := by
  obtain ⟨k, hk⟩ := Option.ne_none_iff_exists'.1 fun hnone => hne (leader_eq_none_iff.1 hnone)
  obtain ⟨-, nodecontext, hcontext⟩ := leader_spec hk
  have hsorted : ((c.taken b domain best w).map fun j => (w.area b j).route).insertionSort (fun a b => strLe a b) =
      ((c.taken b domain best w).insertionSort fun j k => strLe (w.area b j).route (w.area b k).route).map
        fun j => (w.area b j).route :=
    (List.map_insertionSort (fun j k => strLe (w.area b j).route (w.area b k).route = true)
      (fun a b => strLe a b = true) (fun j => (w.area b j).route) _ fun _ _ _ _ => Iff.rfl).symm
  unfold targetRoute ElectionClass.settle
  rw [hsorted, List.length_map, List.getElem?_map, failoverTarget_eq, hid]
  simp only [hk, Option.bind_some, hcontext]
  rw [if_neg hne, targetIndex]
  by_cases hneg : (sessionHash sessionId).tmod (c.taken b domain best w).length < 0
  · rw [if_pos hneg, if_pos hneg]
  · rw [if_neg hneg, if_neg hneg]
    cases ((c.taken b domain best w).insertionSort fun j k => strLe (w.area b j).route (w.area b k).route)[
        ((sessionHash sessionId).tmod (c.taken b domain best w).length).toNat]? with
    | none => rfl
    | some j => exact ⟨j, nodecontext, rfl, rfl⟩

theorem sameRoute_of_perm {c : ElectionClass} {sessionId : Str}
    (hid : pickedBy cfg r = some sessionId) (hne : c.taken b domain best w ≠ [])
    (hne' : c.taken b domain best w' ≠ [])
    (hroutes : ((c.taken b domain best w').map fun j => (w'.area b j).route).Perm
      ((c.taken b domain best w).map fun j => (w.area b j).route)) :
    (c.settle cfg b domain best w r = .crashed ∧ c.settle cfg b domain best w' r = .crashed) ∨
      ∃ j k nodecontext nodecontext', c.settle cfg b domain best w r = .worker j c.pass.2 nodecontext ∧
        c.settle cfg b domain best w' r = .worker k c.pass.2 nodecontext' ∧
        (w.area b j).route = (w'.area b k).route := by
  have htarget := settle_target hid hne
  have htarget' := settle_target hid hne'
  rw [targetRoute_congr hroutes] at htarget'
  cases htr : targetRoute sessionId ((c.taken b domain best w).map fun j => (w.area b j).route) with
  | none =>
    rw [htr] at htarget htarget'
    exact Or.inl ⟨htarget, htarget'⟩
  | some route =>
    rw [htr] at htarget htarget'
    obtain ⟨j, nodecontext, hj, hroute⟩ := htarget
    obtain ⟨k, nodecontext', hk, hroute'⟩ := htarget'
    exact Or.inr ⟨j, k, nodecontext, nodecontext', hj, hk, hroute.trans hroute'.symm⟩

theorem taken_of_one {c : ElectionClass} (h : c = .standby → (c.members b domain best w).length ≤ 1) :
    c.taken b domain best w = c.members b domain best w := by
  cases c with
  | inDomain => rfl
  | active => rfl
  | standby => exact List.take_of_length_le (h rfl)

/-- Worker `k` in front. -/
def inFront (balancer : ProxyBalancer) (k : Nat) (worker : Worker) : ProxyBalancer :=
  { balancer with workers := worker :: balancer.workers.eraseIdx k }

theorem permuted_inFront (hb : w.server.balancers[b]? = some balancer) {k : Nat} {worker : Worker}
    (hk : balancer.workers[k]? = some worker) :
    Permuted b w ⟨w.tables, ⟨w.server.balancers.set b (inFront balancer k worker)⟩⟩ balancer
      (inFront balancer k worker) := by
  obtain ⟨hlt, hget⟩ := List.getElem?_eq_some_iff.1 hk
  refine ⟨rfl, hb, rfl, ?_, rfl⟩
  rw [inFront, ← hget]
  exact List.getElem_cons_eraseIdx_perm hlt

theorem findNodeContextHost_sessionId {conf : List ProxyBalancer} {request : Request} {route : Option Str}
    {found : Option (List NodeContext)}
    (h : findNodeContextHost cfg.useAlias s conf request (some balancer) route = (r, found)) :
    r.notes.sessionId = request.notes.sessionId := by
  unfold findNodeContextHost at h
  split at h
  · cases h
    rfl
  · split at h <;> cases h <;> rfl

theorem pickedBy_of_route {id : Str} (hdet : cfg.deterministicFailover = true) (hid : r.notes.sessionId = some id)
    (hdot : ch '.' ∈ id) (hother : ∃ c ∈ id, c ≠ ch '.') : ∃ sessionId, pickedBy cfg r = some sessionId := by
  have htoken : strtok (ascii ".") id ≠ none := by
    obtain ⟨c, hc, hne⟩ := hother
    rw [ne_eq, strtok_eq_none]
    intro hall
    have hmem := hall c hc
    exact hne (List.mem_singleton.1 hmem)
  obtain ⟨sessionId, hsession⟩ := Option.ne_none_iff_exists'.1 htoken
  refine ⟨sessionId, ?_⟩
  unfold pickedBy
  simp [hdet, hid, hdot, hsession]

/-- What the caller sees. -/
def Elected.found : Elected → Found
  | .worker j _ _ => .worker j
  | .missing => .missing
  | .crashed => .crashed

theorem electWorker_found_eq {request : Request}
    (hcontexts : findNodeContextHost cfg.useAlias s w.server.balancers request (some balancer)
      request.notes.sessionRoute = (r, some best)) :
    (electWorker cfg s b domain failoverdomain balancer ⟨w, request⟩).2 =
      (settled cfg b domain best w r (classesTried domain failoverdomain)).found := by
  rw [@electWorker_eq cfg b domain best s failoverdomain ⟨w, request⟩ r balancer hcontexts]
  cases settled cfg b domain best w r (classesTried domain failoverdomain) <;> rfl

theorem Permuted.settled (h : Permuted b w w' balancer balancer') {c : ElectionClass} {sessionId : Str}
    (hid : pickedBy cfg r = some sessionId)
    (hfirst : ModCluster.firstTaken b domain best w (classesTried domain failoverdomain) = some c)
    (hone : c = .standby → (c.members b domain best w).length ≤ 1) :
    SameRoute b w w' (ModCluster.settled cfg b domain best w r (classesTried domain failoverdomain)).found
      (ModCluster.settled cfg b domain best w' r (classesTried domain failoverdomain)).found := by
  have hfirst' := @Permuted.firstTaken b domain best w w' balancer balancer' h (classesTried domain failoverdomain)
  rw [hfirst] at hfirst'
  have hne : c.taken b domain best w ≠ [] := by simpa using List.find?_some hfirst
  have hne' : c.taken b domain best w' ≠ [] := by simpa using List.find?_some hfirst'
  have hmembers := @Permuted.members b domain best w w' balancer balancer' h c
  have hlength := hmembers.length_eq
  rw [List.length_map, List.length_map] at hlength
  have hroutes : ((c.taken b domain best w').map fun j => (w'.area b j).route).Perm
      ((c.taken b domain best w).map fun j => (w.area b j).route) := by
    rw [taken_of_one hone, taken_of_one fun hst => by rw [hlength]; exact hone hst]
    exact hmembers
  unfold ModCluster.settled
  rw [hfirst, hfirst']
  rcases sameRoute_of_perm hid hne hne' hroutes with ⟨hcrash, hcrash'⟩ | ⟨j, k, nodecontext, nodecontext', hj, hk, hroute⟩
  · simp only [hcrash, hcrash']
    rfl
  · simp only [hj, hk]
    exact hroute

theorem settle_standby {sessionId : Str} (hid : pickedBy cfg r = some sessionId) {j : Nat}
    (hj : (ElectionClass.standby.members b domain best w).head? = some j) :
    (ElectionClass.standby.settle cfg b domain best w r).found = .worker j := by
  obtain ⟨rest, hmembers⟩ := List.head?_eq_some_iff.1 hj
  have htaken : ElectionClass.standby.taken b domain best w = [j] := by
    rw [ElectionClass.taken, hmembers]
    rfl
  obtain ⟨-, nodecontext, hcontext⟩ := leader_spec (show ElectionClass.standby.leader b domain best w = some j from hj)
  have hleader : ElectionClass.standby.leader b domain best w = some j := hj
  have hindex : targetIndex sessionId [j] = 0 := by simp [targetIndex]
  unfold ElectionClass.settle
  rw [failoverTarget_eq, hid, htaken, hleader]
  simp [hindex, hcontext, Elected.found]

end Order

section Standby

variable {b : Nat} {domain : Option Str} {best : List NodeContext} {w : World} {balancer : ProxyBalancer}

theorem firstClass_standby (hactive : ∀ j, ¬ ElectionClass.active.Member b domain best w j) {j : Nat}
    (hj : ElectionClass.standby.Member b domain best w j) :
    FirstClass b domain best w (classesTried domain false) .standby := by
  refine ⟨(if domain.getD [] ≠ [] then [.inDomain] else []) ++ [.active], [], by simp [classesTried], ?_, j, hj⟩
  intro c hc k hk
  cases c with
  | inDomain => exact hactive k ⟨hk.1, hk.2.1⟩
  | active => exact hactive k hk
  | standby => split at hc <;> simp at hc

theorem standby_notMem : ElectionClass.standby ∉ classesTried domain true := by
  unfold classesTried
  split <;> simp

theorem members_inFront {m : Nat} {worker : Worker} (hb : w.server.balancers[b]? = some balancer)
    (hm : balancer.workers[m]? = some worker) (hmem : m ∈ ElectionClass.standby.members b domain best w) :
    (ElectionClass.standby.members b domain best
      ⟨w.tables, ⟨w.server.balancers.set b (inFront balancer m worker)⟩⟩).head? = some 0 ∧
    World.area ⟨w.tables, ⟨w.server.balancers.set b (inFront balancer m worker)⟩⟩ b 0 = w.area b m := by
  have hworker : w.server.worker? b m = some worker := by
    rw [Server.worker?, hb]
    exact hm
  have hb' := (permuted_inFront hb hm).asked_other
  have hfront : Server.worker? ⟨w.server.balancers.set b (inFront balancer m worker)⟩ b 0 = some worker := by
    rw [Server.worker?, hb']
    rfl
  refine ⟨?_, by rw [area_of_worker hworker, area_of_worker hfront]⟩
  have haccepts := (List.mem_filter.1 hmem).2
  unfold accepts at haccepts
  rw [hworker] at haccepts
  unfold ElectionClass.members World.workers
  rw [hb']
  have hrange : List.range (inFront balancer m worker).workers.length =
      0 :: (List.range (balancer.workers.eraseIdx m).length).map Nat.succ := by
    rw [inFront, List.length_cons, List.range_succ_eq_map]
  simp only [hrange]
  rw [List.filter_cons_of_pos, List.head?_cons]
  unfold accepts
  rw [hfront]
  exact haccepts

end Standby

/-- Processes with another order of the workers elect workers with the same route in the
election without standby workers, when somebody has a load factor, and when at most one
worker is on standby. `electWorker` is the election after the update of the workers. -/
theorem same_route_iff (cfg : Settings) (s : Snapshot) (b : Nat) (domain : Option Str) (failoverdomain : Bool)
    (w : World) (balancer : ProxyBalancer) (request r : Request) (best : List NodeContext) (id : Str)
    (hdet : cfg.deterministicFailover = true) (hid : request.notes.sessionId = some id) (hdot : ch '.' ∈ id)
    (hother : ∃ c ∈ id, c ≠ ch '.') (hb : w.server.balancers[b]? = some balancer)
    (hroutes : ((w.workers b).map fun j => (w.area b j).route).Nodup)
    (hcontexts : findNodeContextHost cfg.useAlias s w.server.balancers request (some balancer)
      request.notes.sessionRoute = (r, some best)) :
    (∀ w' balancer', Permuted b w w' balancer balancer' →
      SameRoute b w w' (electWorker cfg s b domain failoverdomain balancer ⟨w, request⟩).2
        (electWorker cfg s b domain failoverdomain balancer' ⟨w', request⟩).2) ↔
    failoverdomain = true ∨ (∃ j, ElectionClass.active.Member b domain best w j) ∨
      ∀ j k, ElectionClass.standby.Member b domain best w j → ElectionClass.standby.Member b domain best w k →
        j = k := by
  have hsession : r.notes.sessionId = some id := (findNodeContextHost_sessionId hcontexts).trans hid
  obtain ⟨sessionId, hpick⟩ := pickedBy_of_route hdet hsession hdot hother
  constructor
  · intro hsame
    by_contra hno
    simp only [not_or, not_exists, not_forall, Bool.not_eq_true] at hno
    obtain ⟨rfl, hactive, j, k, hj, hk, hne⟩ := hno
    have hfirst := firstTaken_iff.2 (firstClass_standby hactive hj)
    have hmem : ∀ {i}, i ∈ ElectionClass.standby.members b domain best w ↔
        ElectionClass.standby.Member b domain best w i :=
      fun {i} => ElectionClass.mem_members (by simp) fun _ => hactive
    obtain ⟨first, hhead⟩ : ∃ first, (ElectionClass.standby.members b domain best w).head? = some first :=
      Option.isSome_iff_exists.1 (List.isSome_head?.2 (List.ne_nil_of_mem (hmem.2 hj)))
    -- One of the two is not the first, and comes first in another process.
    obtain ⟨m, hm, hmne⟩ : ∃ m, ElectionClass.standby.Member b domain best w m ∧ first ≠ m := by
      by_cases hfj : first = j
      · exact ⟨k, hk, fun hfk => hne (hfj.symm.trans hfk)⟩
      · exact ⟨j, hj, hfj⟩
    obtain ⟨worker, helper, hworker, -⟩ := hm.1.eligible.helper
    have hget : balancer.workers[m]? = some worker := by
      rw [Server.worker?, hb] at hworker
      exact hworker
    have hp := permuted_inFront hb hget
    obtain ⟨hhead', harea⟩ := members_inFront hb hget (hmem.2 hm)
    have hfirst' := @Permuted.firstTaken b domain best w _ balancer _ hp (classesTried domain false)
    rw [hfirst] at hfirst'
    have hroute := hsame _ _ hp
    rw [electWorker_found_eq hcontexts, electWorker_found_eq ((hp.find _).trans hcontexts), settled, settled, hfirst,
      hfirst'] at hroute
    simp only [settle_standby hpick hhead, settle_standby hpick hhead'] at hroute
    have hsameRoute : (w.area b first).route = (w.area b m).route := by
      rw [← harea]
      exact hroute
    exact hmne (List.inj_on_of_nodup_map hroutes (List.mem_filter.1 (List.mem_of_mem_head? hhead)).1
      (worker_mem_workers hworker) hsameRoute)
  · intro hcond w' balancer' hp
    have hcontexts' : findNodeContextHost cfg.useAlias s w'.server.balancers request (some balancer')
        request.notes.sessionRoute = (r, some best) := (hp.find _).trans hcontexts
    rw [electWorker_found_eq hcontexts, electWorker_found_eq hcontexts']
    cases hfirst : firstTaken b domain best w (classesTried domain failoverdomain) with
    | none =>
      have hfirst' := @Permuted.firstTaken b domain best w w' balancer balancer' hp (classesTried domain failoverdomain)
      rw [hfirst] at hfirst'
      unfold settled
      rw [hfirst, hfirst']
      rfl
    | some c =>
      apply hp.settled hpick hfirst
      rintro rfl
      obtain ⟨hclass, hd, hs⟩ := firstTaken_some hfirst
      rcases hcond with rfl | ⟨j, hj⟩ | hone
      · exact absurd hclass.mem standby_notMem
      · exact absurd hj (hs rfl j)
      · have hincreases := @ElectionClass.members_increase b domain best w .standby
        have hmem : ∀ i ∈ ElectionClass.standby.members b domain best w,
            ElectionClass.standby.Member b domain best w i :=
          fun i hi => (ElectionClass.mem_members hd hs).1 hi
        generalize ElectionClass.standby.members b domain best w = members at hincreases hmem
        rcases members with _ | ⟨j, _ | ⟨k, rest⟩⟩
        · simp
        · simp
        · have hlt : j < k := (List.pairwise_cons.1 hincreases).1 k List.mem_cons_self
          have heq := hone j k (hmem j (by simp)) (hmem k (by simp))
          omega

section Example

def standbyAreas : List WorkerShared := [electionArea 0 (ascii "r0") 0 0, electionArea 1 (ascii "r1") 0 0]

def reversed (areas : List WorkerShared) : ProxyBalancer :=
  { electionBalancer areas with workers := (electionBalancer areas).workers.reverse }

def reversedWorld (areas : List WorkerShared) : World := ⟨(electionWorld areas).tables, ⟨[reversed areas]⟩⟩

theorem reversed_permuted (areas : List WorkerShared) :
    Permuted 0 (electionWorld areas) (reversedWorld areas) (electionBalancer areas) (reversed areas) :=
  ⟨rfl, rfl, rfl, List.reverse_perm _, rfl⟩

def failoverRequest : Request := electionRequest (some (ascii "id.r9"))

/-- With load factors the order of the workers does not matter. -/
theorem active_sameRoute :
    SameRoute 0 twoActive (reversedWorld activeAreas)
      (electWorker (electionSettings true) electionTables 0 none false (electionBalancer activeAreas)
        ⟨twoActive, failoverRequest⟩).2
      (electWorker (electionSettings true) electionTables 0 none false (reversed activeAreas)
        ⟨reversedWorld activeAreas, failoverRequest⟩).2 := by
  have hfacts : ((twoActive.workers 0).map fun j => (twoActive.area 0 j).route).Nodup ∧ ch '.' ∈ ascii "id.r9" ∧
      ch 'i' ∈ ascii "id.r9" ∧ ch 'i' ≠ ch '.' := by
    decide +kernel
  obtain ⟨hroutes, hdot, hi, hne⟩ := hfacts
  have hmember : ElectionClass.active.Member 0 none [⟨0, 0⟩, ⟨1, 1⟩] twoActive 0 := by
    have hmembers : ElectionClass.active.members 0 none [⟨0, 0⟩, ⟨1, 1⟩] twoActive = [0, 1] := twoActive_first.2
    apply (ElectionClass.mem_members (by simp) (by simp)).1
    rw [hmembers]
    simp
  exact (same_route_iff (electionSettings true) electionTables 0 none false twoActive _ failoverRequest _ _ _ rfl rfl
    hdot ⟨_, hi, hne⟩ rfl hroutes rfl).2 (Or.inr (Or.inl ⟨0, hmember⟩)) _ _ (reversed_permuted activeAreas)

/-- Each process takes the first of its own workers on standby. -/
theorem standby_by_position :
    ¬ ∀ (cfg : Settings) (s : Snapshot) (b : Nat) (domain : Option Str) (failoverdomain : Bool) (w w' : World)
      (balancer balancer' : ProxyBalancer) (request r : Request) (best : List NodeContext) (id : Str),
      cfg.deterministicFailover = true → request.notes.sessionId = some id → ch '.' ∈ id → (∃ c ∈ id, c ≠ ch '.') →
        ((w.workers b).map fun j => (w.area b j).route).Nodup →
        findNodeContextHost cfg.useAlias s w.server.balancers request (some balancer) request.notes.sessionRoute =
          (r, some best) →
        Permuted b w w' balancer balancer' →
        SameRoute b w w' (electWorker cfg s b domain failoverdomain balancer ⟨w, request⟩).2
          (electWorker cfg s b domain failoverdomain balancer' ⟨w', request⟩).2 := by
  intro h
  have hfacts : ((((electionWorld standbyAreas).workers 0).map
        fun j => ((electionWorld standbyAreas).area 0 j).route).Nodup ∧
        ch '.' ∈ ascii "id.r9" ∧ ch 'i' ∈ ascii "id.r9" ∧ ch 'i' ≠ ch '.') ∧
      (electWorker (electionSettings true) electionTables 0 none false (electionBalancer standbyAreas)
        ⟨electionWorld standbyAreas, failoverRequest⟩).2 = .worker 0 ∧
      (electWorker (electionSettings true) electionTables 0 none false (reversed standbyAreas)
        ⟨reversedWorld standbyAreas, failoverRequest⟩).2 = .worker 0 ∧
      ((electionWorld standbyAreas).area 0 0).route ≠ ((reversedWorld standbyAreas).area 0 0).route := by
    decide +kernel
  obtain ⟨⟨hroutes, hdot, hi, hne⟩, hfound, hfound', hdiffer⟩ := hfacts
  have hroute := h (electionSettings true) electionTables 0 none false _ _ _ _ failoverRequest _ _ _ rfl rfl hdot
    ⟨_, hi, hne⟩ hroutes rfl (reversed_permuted standbyAreas)
  rw [hfound, hfound'] at hroute
  exact hdiffer hroute

end Example

end ModCluster
