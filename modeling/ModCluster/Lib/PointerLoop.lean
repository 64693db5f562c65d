import Mathlib.Logic.Relation
import Mathlib.Data.List.Infix
import Mathlib.Data.List.TakeWhile
import Mathlib.Data.Nat.Find
import ModCluster.Lib.CString

/-!
# Loops that move a pointer

A loop looks at its pointer and either ends with a result or moves the pointer on.
The pointers it passes and its result are told by the relation between one pointer
and the next.

A loop that goes from one occurrence of a name to the next is told by the occurrences
it tries. It may move its pointer over some of them, and behind the end of the string.
-/

open CString

namespace PointerLoop

section Loop

variable {α : Type} {turn : Nat → α ⊕ Nat} {p q : Nat} {a b : α}

/-- The result and the pointers that were passed. -/
def run (turn : Nat → α ⊕ Nat) : (fuel : Nat) → Nat → Option (α × List Nat)
  | 0, _ => none
  | fuel + 1, p =>
    match turn p with
    | .inl a => some (a, [p])
    | .inr q => (run turn fuel q).map fun out => (out.1, p :: out.2)

def Passes (turn : Nat → α ⊕ Nat) : Nat → Nat → Prop := Relation.ReflTransGen fun p q => turn p = .inr q

def Ends (turn : Nat → α ⊕ Nat) (p : Nat) (a : α) : Prop := ∃ q, Passes turn p q ∧ turn q = .inl a

theorem passes_iff : Passes turn p q ↔ q = p ∨ ∃ p', turn p = .inr p' ∧ Passes turn p' q := by
  unfold Passes
  rw [Relation.ReflTransGen.cases_head_iff]
  exact or_congr_left eq_comm

theorem ends_of_moves (h : turn p = .inr q) : Ends turn p a ↔ Ends turn q a := by
  constructor
  · rintro ⟨e, hpass, hend⟩
    rcases passes_iff.mp hpass with rfl | ⟨q', hq', hpass'⟩
    · rw [h] at hend
      cases hend
    · rw [h] at hq'
      cases hq'
      exact ⟨e, hpass', hend⟩
  · rintro ⟨e, hpass, hend⟩
    exact ⟨e, Relation.ReflTransGen.head h hpass, hend⟩

theorem Ends.unique (ha : Ends turn p a) (hb : Ends turn p b) : a = b := by
  obtain ⟨q, hpass, hend⟩ := ha
  induction hpass using Relation.ReflTransGen.head_induction_on with
  | refl =>
    obtain ⟨e, hpass, hend'⟩ := hb
    rcases passes_iff.mp hpass with rfl | ⟨q', hq', -⟩
    · rw [hend] at hend'
      exact Sum.inl.inj hend'
    · rw [hend] at hq'
      cases hq'
  | head hstep _ ih => exact ih ((ends_of_moves hstep).mp hb)

/-- A run passes the pointers that can be reached and ends with its result. -/
theorem run_spec {fuel : Nat} {out : α × List Nat} (h : run turn fuel p = some out) :
    (∀ q, q ∈ out.2 ↔ Passes turn p q) ∧ Ends turn p out.1 := by
  induction fuel generalizing p out with
  | zero => cases h
  | succ fuel ih =>
    rw [run] at h
    cases hturn : turn p with
    | inl a =>
      rw [hturn] at h
      cases h
      refine ⟨fun q => ?_, p, Relation.ReflTransGen.refl, hturn⟩
      rw [List.mem_singleton, passes_iff, hturn]
      simp only [reduceCtorEq, false_and, exists_false, or_false]
    | inr q =>
      rw [hturn] at h
      obtain ⟨out', hrun, rfl⟩ := Option.map_eq_some_iff.mp h
      obtain ⟨hpass, hend⟩ := ih hrun
      refine ⟨fun t => ?_, (ends_of_moves hturn).mpr hend⟩
      rw [List.mem_cons, hpass, passes_iff (p := p), hturn]
      simp only [Sum.inr.injEq, exists_eq_left']

/-- A loop whose pointer only moves on below a bound ends. -/
theorem run_ends {bound : Nat} (hmoves : ∀ p q, turn p = .inr q → p < q ∧ p < bound) {fuel : Nat}
    (hpos : 0 < fuel) (hfuel : bound < fuel + p) : ∃ out, run turn fuel p = some out := by
  induction fuel generalizing p with
  | zero => cases hpos
  | succ fuel ih =>
    rw [run]
    cases hturn : turn p with
    | inl a => exact ⟨(a, [p]), rfl⟩
    | inr q =>
      obtain ⟨hlt, hbound⟩ := hmoves p q hturn
      obtain ⟨out, hrun⟩ := ih (p := q) (by omega) (by omega)
      exact ⟨(out.1, p :: out.2), by simp only [hrun, Option.map_some]⟩

end Loop

/-! ## Occurrences -/

section Occurrences

variable {α : Type} {occurs : Nat → Prop} {judge : Nat → α ⊕ Nat} {turn : Nat → Option α ⊕ Nat} {len start i : Nat}

def FirstFrom (occurs : Nat → Prop) (start i : Nat) : Prop :=
  start ≤ i ∧ occurs i ∧ ∀ j, start ≤ j → j < i → ¬ occurs j

/-- The occurrences a loop tries, if `judge` tells for each whether it ends the loop
or where the next one is looked for. -/
inductive Tried (occurs : Nat → Prop) (judge : Nat → α ⊕ Nat) : Nat → Prop where
  | first {i : Nat} : FirstFrom occurs 0 i → Tried occurs judge i
  | next {i j t : Nat} : Tried occurs judge i → judge i = .inr t → FirstFrom occurs t j → Tried occurs judge j

theorem FirstFrom.unique {j : Nat} (hi : FirstFrom occurs start i) (hj : FirstFrom occurs start j) : i = j := by
  rcases Nat.lt_trichotomy i j with hlt | rfl | hgt
  · exact absurd hi.2.1 (hj.2.2 i hi.1 hlt)
  · rfl
  · exact absurd hj.2.1 (hi.2.2 j hj.1 hgt)

theorem exists_firstFrom (start : Nat) : (∃ i, FirstFrom occurs start i) ∨ ∀ i, start ≤ i → ¬ occurs i := by
  classical
  by_cases h : ∃ i, start ≤ i ∧ occurs i
  · obtain ⟨hle, hocc⟩ := Nat.find_spec h
    exact Or.inl ⟨Nat.find h, hle, hocc, fun j hj hlt hoccj => Nat.find_min h hlt ⟨hj, hoccj⟩⟩
  · exact Or.inr fun i hle hocc => h ⟨i, hle, hocc⟩

theorem Tried.isOccurrence (h : Tried occurs judge i) : occurs i := by
  cases h with
  | first h => exact h.2.1
  | next _ _ h => exact h.2.1

/-- In a string of length `len`, the loop goes from one occurrence to the next. -/
structure GoesOver (occurs : Nat → Prop) (judge : Nat → α ⊕ Nat) (turn : Nat → Option α ⊕ Nat) (len : Nat) : Prop where
  missing : ∀ start, start ≤ len → (∀ i, start ≤ i → ¬ occurs i) → turn start = .inl none
  found : ∀ start i, start ≤ len → FirstFrom occurs start i → turn start = (judge i).map some id
  inside : ∀ i, occurs i → i < len
  forward : ∀ start q, turn start = .inr q → start < q

theorem GoesOver.moves (h : GoesOver occurs judge turn len) {q : Nat} (hle : start ≤ len) (hturn : turn start = .inr q) :
    ∃ i, FirstFrom occurs start i ∧ judge i = .inr q := by
  rcases @exists_firstFrom occurs start with ⟨i, hi⟩ | hnone
  · rw [h.found start i hle hi] at hturn
    refine ⟨i, hi, ?_⟩
    cases hj : judge i with
    | inl a =>
      rw [hj] at hturn
      cases hturn
    | inr t =>
      rw [hj] at hturn
      cases hturn
      rfl
  · rw [h.missing start hle hnone] at hturn
    cases hturn

theorem GoesOver.tried (h : GoesOver occurs judge turn len) (hpass : Passes turn 0 start) (hle : start ≤ len)
    (hi : FirstFrom occurs start i) : Tried occurs judge i := by
  induction hpass generalizing i with
  | refl => exact Tried.first hi
  | @tail p q _ hturn ih =>
    have hp : p ≤ len := ((h.forward p q hturn).trans_le hle).le
    obtain ⟨j, hj, hjudge⟩ := h.moves hp hturn
    exact Tried.next (ih hp hj) hjudge hi

theorem GoesOver.passes (h : GoesOver occurs judge turn len) (hi : Tried occurs judge i) :
    ∃ start, start ≤ len ∧ Passes turn 0 start ∧ FirstFrom occurs start i := by
  induction hi with
  | first hi => exact ⟨0, Nat.zero_le len, Relation.ReflTransGen.refl, hi⟩
  | @next i j t _ hjudge hj ih =>
    obtain ⟨start, hle, hpass, hi⟩ := ih
    have hturn : turn start = .inr t := by
      rw [h.found start i hle hi, hjudge]
      rfl
    exact ⟨t, hj.1.trans (h.inside j hj.2.1).le, hpass.tail hturn, hj⟩

/-- No pointer leaves the string if and only if no occurrence that is tried sends it out. -/
theorem GoesOver.stays_iff (h : GoesOver occurs judge turn len) :
    (∀ start, Passes turn 0 start → start ≤ len) ↔ ∀ i t, Tried occurs judge i → judge i = .inr t → t ≤ len := by
  constructor
  · intro hstays i t hi hjudge
    obtain ⟨start, hle, hpass, hfirst⟩ := h.passes hi
    refine hstays t (hpass.tail ?_)
    rw [h.found start i hle hfirst, hjudge]
    rfl
  · intro hsent start hpass
    induction hpass with
    | refl => exact Nat.zero_le len
    | tail hpass hturn ih =>
      obtain ⟨i, hi, hjudge⟩ := h.moves ih hturn
      exact hsent i _ (h.tried hpass ih hi) hjudge

/-- A loop that stays in the string finds what the first occurrence that ends it gives. -/
theorem GoesOver.ends_iff (h : GoesOver occurs judge turn len) (hstays : ∀ start, Passes turn 0 start → start ≤ len)
    {found : Option α} (hend : Ends turn 0 found) (a : α) :
    found = some a ↔ ∃ i, Tried occurs judge i ∧ judge i = .inl a := by
  constructor
  · rintro rfl
    obtain ⟨start, hpass, hturn⟩ := hend
    have hle := hstays start hpass
    rcases @exists_firstFrom occurs start with ⟨i, hi⟩ | hnone
    · refine ⟨i, h.tried hpass hle hi, ?_⟩
      rw [h.found start i hle hi] at hturn
      cases hj : judge i with
      | inl b =>
        rw [hj] at hturn
        cases hturn
        rfl
      | inr t =>
        rw [hj] at hturn
        cases hturn
    · rw [h.missing start hle hnone] at hturn
      cases hturn
  · rintro ⟨i, hi, hjudge⟩
    obtain ⟨start, hle, hpass, hfirst⟩ := h.passes hi
    refine hend.unique ⟨start, hpass, ?_⟩
    rw [h.found start i hle hfirst, hjudge]
    rfl

end Occurrences

/-! ## Where a name occurs -/

section Strings

variable {h name : Str} {m : Mem} {start i k : Nat}

def OccursAt (h name : Str) (i : Nat) : Prop := name <+: h.drop i

instance : Decidable (OccursAt h name i) := inferInstanceAs (Decidable (_ <+: _))

theorem OccursAt.end_le (hname : name ≠ []) (hi : OccursAt h name i) : i + name.length ≤ h.length := by
  have hle := hi.length_le
  rw [List.length_drop] at hle
  have hpos : 0 < name.length := List.length_pos_of_ne_nil hname
  omega

theorem OccursAt.lt_length (hname : name ≠ []) (hi : OccursAt h name i) : i < h.length := by
  have hle := hi.end_le hname
  have hpos : 0 < name.length := List.length_pos_of_ne_nil hname
  omega

theorem strstr_eq_some (s : Str) :
    strstr s name = some k ↔ k ≤ s.length ∧ OccursAt s name k ∧ ∀ j < k, ¬ OccursAt s name j := by
  unfold strstr OccursAt
  rw [List.find?_range_eq_some]
  simp only [List.isPrefixOf_iff_prefix, List.mem_range, Nat.lt_succ_iff, Bool.not_eq_true', ← Bool.not_eq_true]
  tauto

theorem strstr_eq_none (hname : name ≠ []) (s : Str) : strstr s name = none ↔ ∀ k, ¬ OccursAt s name k := by
  unfold strstr
  rw [List.find?_range_eq_none]
  simp only [Bool.not_eq_true', ← Bool.not_eq_true, List.isPrefixOf_iff_prefix]
  constructor
  · intro h k hk
    exact h k (by have := OccursAt.lt_length hname hk; omega) hk
  · intro h k _ hk
    exact h k hk

theorem occursAt_drop : OccursAt (h.drop start) name k ↔ OccursAt h name (start + k) := by
  unfold OccursAt
  rw [List.drop_drop]

theorem strstr_firstFrom (hname : name ≠ []) (hi : FirstFrom (OccursAt h name) start i) :
    strstr (h.drop start) name = some (i - start) := by
  obtain ⟨hle, hocc, hleast⟩ := hi
  rw [strstr_eq_some, occursAt_drop, Nat.add_sub_cancel' hle]
  refine ⟨?_, hocc, fun j hj hoccj => ?_⟩
  · rw [List.length_drop]
    have := hocc.lt_length hname
    omega
  · exact hleast (start + j) (by omega) (by omega) (occursAt_drop.mp hoccj)

theorem strstr_missing (hname : name ≠ []) (hnone : ∀ i, start ≤ i → ¬ OccursAt h name i) :
    strstr (h.drop start) name = none := by
  rw [strstr_eq_none hname]
  intro k hk
  exact hnone (start + k) (by omega) (occursAt_drop.mp hk)

/-! ## A string in memory -/

theorem byteAt_of_length_le {p : Nat} (hle : m.length ≤ p) : byteAt m p = 0 := by
  rw [byteAt, List.getD_eq_getElem?_getD, List.getElem?_eq_none hle]
  rfl

theorem lt_length_of_byteAt {p : Nat} (hb : byteAt m p ≠ 0) : p < m.length := by
  by_contra hle
  exact hb (byteAt_of_length_le (Nat.le_of_not_lt hle))

theorem byteAt_of_drop {p : Nat} {b : Byte} {rest : Mem} (hdrop : m.drop p = b :: rest) : byteAt m p = b := by
  have hget : m[p]? = some b := by
    rw [← List.head?_drop, hdrop]
    rfl
  rw [byteAt, List.getD_eq_getElem?_getD, hget]
  rfl

theorem drop_succ_of_drop {p : Nat} {b : Byte} {rest : Mem} (hdrop : m.drop p = b :: rest) : m.drop (p + 1) = rest := by
  rw [← List.drop_drop, hdrop]
  rfl

theorem drop_eq_byteAt_cons {p : Nat} (hlt : p < m.length) : m.drop p = byteAt m p :: m.drop (p + 1) := by
  rw [List.drop_eq_getElem_cons hlt, byteAt, List.getD_eq_getElem?_getD, List.getElem?_eq_getElem hlt]
  rfl

theorem takeWhile_dropWhile {β : Type} (f : β → Bool) (l : List β) : (l.dropWhile f).takeWhile f = [] := by
  induction l with
  | nil => rfl
  | cons b l ih =>
    cases hb : f b with
    | false => rw [List.dropWhile_cons_of_neg (by simp [hb]), List.takeWhile_cons_of_neg (by simp [hb])]
    | true => rw [List.dropWhile_cons_of_pos hb, ih]

theorem strAt_append_rest (m : Mem) : strAt m 0 ++ m.dropWhile (· != 0) = m :=
  List.takeWhile_append_dropWhile

theorem ne_zero_of_mem_strAt {b : Byte} (hb : b ∈ strAt m start) : b ≠ 0 := by
  have hne := List.mem_takeWhile_imp hb
  exact bne_iff_ne.mp hne

theorem strAt_drop (hle : start ≤ (strAt m 0).length) : strAt m start = (strAt m 0).drop start := by
  have hall : ∀ b ∈ (strAt m 0).drop start, (b != 0) = true := fun b hb =>
    bne_iff_ne.mpr (ne_zero_of_mem_strAt (List.mem_of_mem_drop hb))
  conv_lhs => rw [← strAt_append_rest m]
  rw [strAt, List.drop_append_of_le_length hle, List.takeWhile_append_of_pos hall, takeWhile_dropWhile, List.append_nil]

theorem byteAt_inside {p : Nat} (hle : p ≤ (strAt m 0).length) : byteAt m p = byteAt (strAt m 0) p := by
  have hend : byteAt (m.dropWhile (· != 0)) 0 = 0 := by
    have hnil := takeWhile_dropWhile (· != 0) m
    cases hrest : m.dropWhile (· != 0) with
    | nil => rfl
    | cons b rest =>
      rw [hrest] at hnil
      have hb : (b != 0) = false := by
        by_contra hne
        rw [List.takeWhile_cons_of_pos (p := fun x => x != 0) (eq_true_of_ne_false hne)] at hnil
        cases hnil
      exact bne_eq_false_iff_eq.mp hb
  have hm := strAt_append_rest m
  generalize strAt m 0 = s at hle hm ⊢
  rw [← hm]
  unfold byteAt at hend ⊢
  rw [List.getD_eq_getElem?_getD] at hend ⊢
  rcases Nat.lt_or_eq_of_le hle with hlt | rfl
  · rw [List.getElem?_append_left hlt, List.getD_eq_getElem?_getD]
  · rw [List.getElem?_append_right (Nat.le_refl _), Nat.sub_self, hend, List.getD_eq_getElem?_getD,
      List.getElem?_eq_none (Nat.le_refl _)]
    rfl

end Strings

end PointerLoop
