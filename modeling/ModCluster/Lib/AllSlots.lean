import ModCluster.Lib.Slotmem

/-!
# What holds of every slot

A freed slot keeps its record, and a later operation may bring it back. `All P` says
`P` of the record of every slot, in use or not, so it needs nothing else to be kept.
-/

namespace Slotmem

namespace Table

variable {α σ : Type} {P Q : α → Prop} {m : Table α}

def All (P : α → Prop) (m : Table α) : Prop := ∀ s ∈ m.slots, P s.data

theorem All.used (h : m.All P) {i : Nat} {a : α} (ha : m.used i = some a) : P a :=
  h _ (List.mem_of_getElem? (used_eq_some.mp ha))

theorem All.peek [Inhabited α] (h : m.All P) (hd : P default) (i : Nat) : P (m.peek i) := by
  unfold Table.peek
  cases hs : m.slots[i]? with
  | none => exact hd
  | some s => exact h s (List.mem_of_getElem? hs)

theorem all_empty [Inhabited α] (hd : P default) (n : Nat) : (empty n : Table α).All P := by
  intro s hs
  rw [List.eq_of_mem_replicate hs]
  exact hd

theorem All.poke (h : m.All P) {a : α} (ha : P a) (i : Nat) : (m.poke i a).All P := by
  intro s hs
  obtain ⟨j, hj⟩ := List.mem_iff_getElem?.mp hs
  rw [Table.poke, List.getElem?_modify] at hj
  cases hm : m.slots[j]? with
  | none =>
    rw [hm] at hj
    cases hj
  | some s₀ =>
    have h₀ : P s₀.data := h s₀ (List.mem_of_getElem? hm)
    rw [hm] at hj
    split at hj
    · cases hj
      exact ha
    · cases hj
      exact h₀

theorem All.setInuse (h : m.All P) (i : Nat) (b : Bool) : (m.setInuse i b).All P := by
  intro s hs
  obtain ⟨j, hj⟩ := List.mem_iff_getElem?.mp hs
  rw [Table.setInuse, List.getElem?_modify] at hj
  cases hm : m.slots[j]? with
  | none =>
    rw [hm] at hj
    cases hj
  | some s₀ =>
    have h₀ : P s₀.data := h s₀ (List.mem_of_getElem? hm)
    rw [hm] at hj
    split at hj
    · cases hj
      exact h₀
    · cases hj
      exact h₀

theorem All.store (h : m.All P) {a : α} (ha : P a) (i : Nat) : (m.store i a).All P := (h.setInuse i true).poke ha i

theorem All.release (h : m.All P) (id : Int) : (m.release id).All P := by
  unfold Table.release
  split
  · exact h.setInuse _ _
  · exact h

theorem All.sweep [Inhabited α] {idOf : α → Int} {p : α → Bool} (h : m.All P) (ids : List Int) :
    (m.sweep idOf p ids).All P := by
  induction ids generalizing m with
  | nil => exact h
  | cons id ids ih =>
    unfold Table.sweep
    split
    · refine ih ?_
      split
      · exact h.release _
      · exact h
    · exact ih h

end Table

end Slotmem
