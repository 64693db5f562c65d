import ModCluster.Lib.CString

/-!
# Buffers of a fixed size

A `char` array, and the calls of the C library that write into it. A call that would
write behind the end of the array has no result.
-/

namespace CString

/-- A string as C has it: no NUL before its end. -/
abbrev CStr := { s : Str // 0 ∉ s }

structure Buffer (size : Nat) where
  bytes : List Byte
  length_bytes : bytes.length = size

namespace Buffer

variable {size : Nat}

/-- The bytes of `s` from `p` on. -/
def store (b : Buffer size) (p : Nat) (s : List Byte) : Option (Buffer size) :=
  if h : p + s.length ≤ size then
    some ⟨write b.bytes p s, by simp [write, b.length_bytes]; omega⟩
  else none

/-- `sprintf(b, …)` of a text. -/
def sprintf (b : Buffer size) (s : Str) : Option (Buffer size) := b.store 0 (s ++ [0])

/-- `apr_snprintf(b + p, l, …)` of a text, with the number it returns. Without room it
only counts. -/
def aprSnprintf (b : Buffer size) (p l : Nat) (s : Str) : Option (Buffer size × Nat) :=
  if l = 0 then some (b, s.length)
  else do
    let b ← b.store p (s.take (l - 1) ++ [0])
    return (b, min s.length (l - 1))

/-- `strcat(b, s)`. The search for the end must not leave the array either. -/
def strcat (b : Buffer size) (s : Str) : Option (Buffer size) :=
  if 0 ∈ b.bytes then b.store (strAt b.bytes 0).length (s ++ [0]) else none

/-- `t` and a NUL are what the array begins with. -/
def Begins (b : Buffer size) (t : Str) : Prop := ∃ rest, b.bytes = t ++ 0 :: rest

variable {b : Buffer size} {s t : Str} {p l : Nat}

theorem store_of_le (h : p + s.length ≤ size) : ∃ b', b.store p s = some b' ∧ b'.bytes = write b.bytes p s := by
  rw [store, dif_pos h]
  exact ⟨_, rfl, rfl⟩

theorem sprintf_of_lt (h : s.length < size) : ∃ b', b.sprintf s = some b' ∧ b'.Begins s := by
  obtain ⟨b', hstore, hbytes⟩ := store_of_le (b := b) (p := 0) (s := s ++ [0]) (by simp; omega)
  refine ⟨b', hstore, b.bytes.drop (s.length + 1), ?_⟩
  rw [hbytes]
  simp [write]

theorem aprSnprintf_begins (hl : 0 < l) (hroom : p + l ≤ size) (hfront : b.bytes.take p = t) :
    ∃ b', b.aprSnprintf p l s = some (b', min s.length (l - 1)) ∧ b'.Begins (t ++ s.take (l - 1)) := by
  have hfit : p + (s.take (l - 1) ++ [0]).length ≤ size := by
    rw [List.length_append, List.length_take, List.length_singleton]
    omega
  obtain ⟨b', hstore, hbytes⟩ := store_of_le (b := b) hfit
  refine ⟨b', ?_, b.bytes.drop (p + (s.take (l - 1) ++ [0]).length), ?_⟩
  · rw [aprSnprintf, if_neg (by omega), hstore]
    rfl
  · rw [hbytes, write, hfront]
    simp

theorem Begins.take (h : b.Begins t) : b.bytes.take t.length = t := by
  obtain ⟨rest, hrest⟩ := h
  rw [hrest, List.take_left']
  rfl

/-- What `strlen` counts. -/
theorem Begins.strAt (h : b.Begins t) (ht : 0 ∉ t) : strAt b.bytes 0 = t := by
  obtain ⟨rest, hrest⟩ := h
  have hne : ∀ c ∈ t, (c != 0) = true := by
    intro c hc
    simp only [bne_iff_ne, ne_eq]
    rintro rfl
    exact ht hc
  rw [CString.strAt, hrest, List.drop_zero, List.takeWhile_append_of_pos hne]
  simp

theorem strcat_begins (h : b.Begins t) (ht : 0 ∉ t) (hroom : t.length + s.length < size) :
    ∃ b', b.strcat s = some b' ∧ b'.Begins (t ++ s) := by
  have hfit : t.length + (s ++ [0]).length ≤ size := by simp; omega
  obtain ⟨b', hstore, hbytes⟩ := store_of_le (b := b) hfit
  refine ⟨b', ?_, b.bytes.drop (t.length + (s ++ [0]).length), ?_⟩
  · rw [strcat, h.strAt ht, if_pos, hstore]
    obtain ⟨rest, hrest⟩ := h
    simp [hrest]
  · rw [hbytes, write, h.take]
    simp

end Buffer

end CString
