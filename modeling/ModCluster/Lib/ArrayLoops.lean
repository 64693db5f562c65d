import Mathlib.Data.List.Basic

/-!
# Loops over parallel arrays

A loop over the entries of a table writes, for some of the entries, into the field of an
array with the index of the entry, or appends to an array that is filled from its
start. Both are told by the table alone.
-/

namespace ArrayLoops

variable {α β σ : Type}

/-! ## Reading -/

theorem getD_map {l : List α} (f : α → β) (d : β) {x : α × Nat} (hx : x ∈ l.zipIdx) : (l.map f).getD x.2 d = f x.1 := by
  rw [List.mem_zipIdx_iff_getElem?] at hx
  rw [List.getD_eq_getElem?_getD, List.getElem?_map, hx]
  rfl

theorem getD_zipWith {l : List α} {arr : List β} (f : α → β → β) (d : β) (harr : arr.length = l.length) {x : α × Nat}
    (hx : x ∈ l.zipIdx) : (List.zipWith f l arr).getD x.2 d = f x.1 (arr.getD x.2 d) := by
  rw [List.mem_zipIdx_iff_getElem?] at hx
  have hlt : x.2 < arr.length := by
    rw [harr]
    exact (List.getElem?_eq_some_iff.mp hx).1
  rw [List.getD_eq_getElem?_getD, List.getElem?_zipWith, hx, List.getD_eq_getElem?_getD,
    List.getElem?_eq_getElem hlt]
  rfl

/-! ## Writing where the entry is -/

/-- For each entry with `p`, write `v` of it into the array. -/
def setWhere (p : α → Bool) (v : α → β) (arr : List β) (l : List (α × Nat)) : List β :=
  l.foldl (fun arr x => if p x.1 then arr.set x.2 (v x.1) else arr) arr

theorem setWhere_append (p : α → Bool) (v : α → β) (l : List α) (done rest : List β) (hrest : rest.length = l.length) :
    setWhere p v (done ++ rest) (l.zipIdx done.length) =
      done ++ List.zipWith (fun c a => if p c then v c else a) l rest := by
  unfold setWhere
  induction l generalizing done rest with
  | nil =>
    rw [List.length_eq_zero_iff.mp hrest]
    rfl
  | cons c l ih =>
    cases rest with
    | nil => cases hrest
    | cons a rest =>
      rw [List.zipIdx_cons, List.foldl_cons, List.zipWith_cons_cons]
      have hstep : (if p c then (done ++ a :: rest).set done.length (v c) else done ++ a :: rest) =
          (done ++ [if p c then v c else a]) ++ rest := by
        split
        · rw [List.set_append_right _ _ (Nat.le_refl _), Nat.sub_self, List.set_cons_zero, List.append_assoc]
          rfl
        · simp
      have hlen : (done ++ [if p c then v c else a]).length = done.length + 1 := by
        rw [List.length_append, List.length_singleton]
      have hnext := ih (done ++ [if p c then v c else a]) rest (Nat.succ.inj hrest)
      rw [hlen] at hnext
      simp only
      rw [hstep, hnext, List.append_assoc]
      rfl

theorem setWhere_eq (p : α → Bool) (v : α → β) (l : List α) (arr : List β) (harr : arr.length = l.length) :
    setWhere p v arr l.zipIdx = List.zipWith (fun c a => if p c then v c else a) l arr :=
  setWhere_append p v l [] arr harr

theorem zipWith_map_self (l : List α) (f : α → β) (g : α → β → β) :
    List.zipWith g l (l.map f) = l.map fun c => g c (f c) := by
  induction l with
  | nil => rfl
  | cons c l ih => rw [List.map_cons, List.map_cons, List.zipWith_cons_cons, ih]

/-! ## Filling from the start -/

/-- For each entry with `p`, write `v` of it behind the last one written. -/
def fillWhere (p : α → Bool) (v : α → β) (st : List β × Nat) (l : List α) : List β × Nat :=
  l.foldl (fun st c => if p c then (st.1.set st.2 (v c), st.2 + 1) else st) st

theorem fillWhere_append (p : α → Bool) (v : α → β) (l : List α) (done rest : List β)
    (hroom : (l.filter p).length ≤ rest.length) :
    fillWhere p v (done ++ rest, done.length) l =
      (done ++ (l.filter p).map v ++ rest.drop (l.filter p).length, done.length + (l.filter p).length) := by
  unfold fillWhere
  induction l generalizing done rest with
  | nil => simp
  | cons c l ih =>
    rw [List.foldl_cons]
    cases hp : p c with
    | false =>
      have hskip : (c :: l).filter p = l.filter p := List.filter_cons_of_neg (by rw [hp]; exact Bool.false_ne_true)
      rw [hskip] at hroom ⊢
      rw [if_neg Bool.false_ne_true]
      exact ih done rest hroom
    | true =>
      rw [List.filter_cons_of_pos hp, List.length_cons] at hroom
      cases rest with
      | nil => cases hroom
      | cons a rest =>
        have hset : (done ++ a :: rest).set done.length (v c) = (done ++ [v c]) ++ rest := by
          rw [List.set_append_right _ _ (Nat.le_refl _), Nat.sub_self, List.set_cons_zero, List.append_assoc]
          rfl
        have hlen : done.length + 1 = (done ++ [v c]).length := by
          rw [List.length_append, List.length_singleton]
        rw [if_pos rfl, List.filter_cons_of_pos hp, hset, hlen,
          ih (done ++ [v c]) rest (Nat.le_of_succ_le_succ hroom), List.map_cons, List.length_cons, List.drop_succ_cons]
        simp only [List.append_assoc, List.cons_append, List.length_append, List.length_singleton, List.nil_append]
        congr 1
        omega

theorem fillWhere_eq (p : α → Bool) (v : α → β) (l : List α) (arr : List β) (hroom : (l.filter p).length ≤ arr.length) :
    fillWhere p v (arr, 0) l = ((l.filter p).map v ++ arr.drop (l.filter p).length, (l.filter p).length) := by
  have h := fillWhere_append p v l [] arr hroom
  rw [List.nil_append, List.nil_append, List.length_nil, Nat.zero_add] at h
  exact h

end ArrayLoops
