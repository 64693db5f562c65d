import Mathlib.Data.List.Basic

/-!
# Batches of commands

Commands carried out one after the other, where those that do something are counted.
Two selections from a batch, one within the other, come to the same state exactly when
they differ in commands that do nothing.
-/

namespace Batch

variable {σ α : Type}

/-- Commands that act or do nothing. Those that act are counted, and none changes whether
another acts. One that acted may act again, or not, whatever the state. -/
structure Commands (exec : σ → α → σ) (acts : σ → α → Prop) (count : σ → Nat) (Inv : σ → Prop) (valid : α → Prop)
    (again : Prop) : Prop where
  inv : ∀ s a, Inv s → valid a → Inv (exec s a)
  idle : ∀ s a, valid a → ¬ acts s a → exec s a = s
  counts : ∀ s a, valid a → acts s a → count (exec s a) = count s + 1
  other : ∀ s a b, Inv s → valid a → b ≠ a → (acts (exec s a) b ↔ acts s b)
  self : ∀ s a, Inv s → valid a → (acts (exec s a) a ↔ acts s a ∧ again)

/-- The command, when it is selected. -/
def select (exec : σ → α → σ) (p : α → Bool) (s : σ) (a : α) : σ := if p a then exec s a else s

section

variable {exec : σ → α → σ} {acts : σ → α → Prop} {count : σ → Nat} {Inv : σ → Prop} {valid : α → Prop} {again : Prop}
  (h : Commands exec acts count Inv valid again) {p q : α → Bool}

include h

theorem select_inv {s : σ} {a : α} (hs : Inv s) (ha : valid a) : Inv (select exec p s a) := by
  unfold select
  split
  · exact h.inv s a hs ha
  · exact hs

theorem select_other {s : σ} {a b : α} (hs : Inv s) (ha : valid a) (hne : b ≠ a) :
    acts (select exec p s a) b ↔ acts s b := by
  unfold select
  split
  · exact h.other s a b hs ha hne
  · exact Iff.rfl

theorem acts_of_select {s : σ} {a b : α} (hs : Inv s) (ha : valid a) (hb : acts (select exec p s a) b) : acts s b := by
  by_cases hne : b = a
  · subst hne
    unfold select at hb
    split at hb
    · exact ((h.self s b hs ha).1 hb).1
    · exact hb
  · exact (select_other h hs ha hne).1 hb

/-- Selections that differ in commands that do nothing come to the same state. -/
theorem foldl_select_eq (batch : List α) (hvalid : ∀ a ∈ batch, valid a) {s : σ} (hs : Inv s)
    (hpq : ∀ a ∈ batch, acts s a → p a = q a) :
    batch.foldl (select exec p) s = batch.foldl (select exec q) s := by
  induction batch generalizing s with
  | nil => rfl
  | cons a rest ih =>
    obtain ⟨ha, hrest⟩ := List.forall_mem_cons.1 hvalid
    obtain ⟨hpa, hprest⟩ := List.forall_mem_cons.1 hpq
    have hstep : select exec p s a = select exec q s a := by
      unfold select
      by_cases hacts : acts s a
      · rw [hpa hacts]
      · rw [h.idle s a ha hacts, ite_self, ite_self]
    rw [List.foldl_cons, List.foldl_cons, hstep]
    exact ih hrest (select_inv h hs ha) fun b hb hacts => hprest b hb (acts_of_select h hs ha hacts)

theorem count_select (hsub : ∀ a, p a = true → q a = true) {s t : σ} {a : α} (ha : valid a)
    (hst : p a = true → (acts s a ↔ acts t a)) :
    count (select exec p s a) + count t ≤ count (select exec q t a) + count s ∧
      (acts t a ∧ q a = true ∧ ¬ p a = true →
        count (select exec p s a) + count t < count (select exec q t a) + count s) := by
  have hcount (s : σ) : acts s a ∧ count (exec s a) = count s + 1 ∨ ¬ acts s a ∧ count (exec s a) = count s := by
    by_cases hacts : acts s a
    · exact Or.inl ⟨hacts, h.counts s a ha hacts⟩
    · refine Or.inr ⟨hacts, ?_⟩
      rw [h.idle s a ha hacts]
  unfold select
  by_cases hp : p a = true
  · rw [if_pos hp, if_pos (hsub a hp)]
    refine ⟨?_, fun hcon => absurd hp hcon.2.2⟩
    rcases hcount s with ⟨hacts, hs⟩ | ⟨hacts, hs⟩
    · rcases hcount t with ⟨-, ht⟩ | ⟨hnot, -⟩
      · omega
      · exact absurd ((hst hp).1 hacts) hnot
    · rcases hcount t with ⟨hyes, -⟩ | ⟨-, ht⟩
      · exact absurd ((hst hp).2 hyes) hacts
      · omega
  · rw [if_neg hp]
    split
    · rcases hcount t with ⟨-, ht⟩ | ⟨hnot, ht⟩
      · omega
      · exact ⟨by omega, fun hcon => absurd hcon.1 hnot⟩
    · rename_i hq
      exact ⟨by omega, fun hcon => absurd hcon.2.1 hq⟩

/-- The larger selection counts at least as much from two states that agree on the
smaller one, and more when a command that it has alone acts. -/
theorem count_foldl_select (hsub : ∀ a, p a = true → q a = true) (batch : List α) (hvalid : ∀ a ∈ batch, valid a)
    {s t : σ} (hs : Inv s) (ht : Inv t) (hst : ∀ a, p a = true → (acts s a ↔ acts t a)) :
    count (batch.foldl (select exec p) s) + count t ≤ count (batch.foldl (select exec q) t) + count s ∧
      ((∃ a ∈ batch, acts t a ∧ q a = true ∧ ¬ p a = true) →
        count (batch.foldl (select exec p) s) + count t < count (batch.foldl (select exec q) t) + count s) := by
  induction batch generalizing s t with
  | nil =>
    refine ⟨Nat.le_of_eq (Nat.add_comm _ _), ?_⟩
    rintro ⟨a, ha, -⟩
    cases ha
  | cons a rest ih =>
    obtain ⟨ha, hrest⟩ := List.forall_mem_cons.1 hvalid
    have hagree : ∀ b, p b = true → (acts (select exec p s a) b ↔ acts (select exec q t a) b) := by
      intro b hb
      by_cases hne : b = a
      · subst hne
        unfold select
        rw [if_pos hb, if_pos (hsub b hb), h.self s b hs ha, h.self t b ht ha, hst b hb]
      · rw [select_other h hs ha hne, select_other h ht ha hne]
        exact hst b hb
    obtain ⟨hle, hlt⟩ := count_select h hsub ha (hst a)
    obtain ⟨hle', hlt'⟩ := ih hrest (select_inv h hs ha) (select_inv h ht ha) hagree
    rw [List.foldl_cons, List.foldl_cons]
    refine ⟨by omega, ?_⟩
    rintro ⟨b, hb, hacts, hq, hp⟩
    by_cases hne : b = a
    · subst hne
      have := hlt ⟨hacts, hq, hp⟩
      omega
    · have hb := (List.mem_cons.1 hb).resolve_left hne
      have := hlt' ⟨b, hb, (select_other h ht ha hne).2 hacts, hq, hp⟩
      omega

theorem foldl_select_eq_iff (hsub : ∀ a, p a = true → q a = true) (batch : List α) (hvalid : ∀ a ∈ batch, valid a)
    {s : σ} (hs : Inv s) :
    batch.foldl (select exec p) s = batch.foldl (select exec q) s ↔ ∀ a ∈ batch, acts s a → p a = q a := by
  refine ⟨fun heq a ha hacts => ?_, foldl_select_eq h batch hvalid hs⟩
  by_contra hne
  have hq : q a = true ∧ ¬ p a = true := by
    cases hp : p a with
    | true =>
      rw [hp, hsub a hp] at hne
      exact absurd rfl hne
    | false =>
      rw [hp] at hne
      exact ⟨(Bool.not_eq_false _).mp (Ne.symm hne), Bool.false_ne_true⟩
  have hlt := (count_foldl_select h hsub batch hvalid hs hs fun _ _ => Iff.rfl).2 ⟨a, ha, hacts, hq⟩
  rw [heq] at hlt
  omega

end

end Batch
