import Mathlib.Data.List.Basic

/-!
# Slot memory

A table of a fixed number of slots, each in use or free, as httpd's shared
memory slots keep it. A pointer into the table is the number of a slot: reading
and writing through one needs no slot in use, only one in range. A released slot
keeps its record.
-/

namespace Slotmem

inductive Status where
  | success
  | eexist
  | einval
  | notfound
deriving DecidableEq, Repr

structure Slot (α : Type) where
  inuse : Bool
  data : α
deriving DecidableEq

structure Table (α : Type) where
  slots : List (Slot α)
deriving DecidableEq

variable {α σ : Type}

namespace Table

def size (m : Table α) : Nat := m.slots.length

/-- The record of slot `i`, when that slot is in use. -/
def used (m : Table α) (i : Nat) : Option α :=
  match m.slots[i]? with
  | some s => if s.inuse then some s.data else none
  | none => none

/-- What a pointer to slot `i` reads, in use or not. -/
def peek [Inhabited α] (m : Table α) (i : Nat) : α :=
  match m.slots[i]? with
  | some s => s.data
  | none => default

/-- Write through a pointer to slot `i`. -/
def poke (m : Table α) (i : Nat) (a : α) : Table α :=
  ⟨m.slots.modify i fun s => { s with data := a }⟩

def setInuse (m : Table α) (i : Nat) (b : Bool) : Table α :=
  ⟨m.slots.modify i fun s => { s with inuse := b }⟩

/-- The pointer to slot `id`. Only the range is checked. -/
def dptr (m : Table α) (id : Int) : Option Nat :=
  if 0 ≤ id ∧ id.toNat < m.size then some id.toNat else none

/-- Take the lowest free slot. -/
def grab (m : Table α) : Option (Nat × Table α) :=
  (m.slots.findIdx? fun s => !s.inuse).map fun i => (i, m.setInuse i true)

/-- Take slot `id`, in use or not. -/
def fgrab (m : Table α) (id : Int) : Option (Table α) :=
  (m.dptr id).map fun i => m.setInuse i true

/-- Free slot `id`. The record stays behind. -/
def release (m : Table α) (id : Int) : Table α :=
  match m.dptr id with
  | some i => m.setInuse i false
  | none => m

def doallSlots (f : α → σ → Status × α × σ) : List (Slot α) → σ → Status × List (Slot α) × σ
  | [], st => (.success, [], st)
  | s :: rest, st =>
    if s.inuse then
      match f s.data st with
      | (.success, a, st') =>
        let r := doallSlots f rest st'
        (r.1, { s with data := a } :: r.2.1, r.2.2)
      | (rv, a, st') => (rv, { s with data := a } :: rest, st')
    else
      let r := doallSlots f rest st
      (r.1, s :: r.2.1, r.2.2)

/-- Visit the slots in use in order, until a callback does not return success. -/
def doall (m : Table α) (f : α → σ → Status × α × σ) (st : σ) : Status × Table α × σ :=
  let r := doallSlots f m.slots st
  (r.1, ⟨r.2.1⟩, r.2.2)

/-- The first slot in use whose record satisfies `p`. -/
def first (m : Table α) (p : α → Bool) : Option Nat :=
  m.slots.findIdx? fun s => s.inuse && p s.data

/-- The records in use, in slot order. -/
def records (m : Table α) : List α := (m.slots.filter (·.inuse)).map (·.data)

def freeSlots (m : Table α) : Nat := (m.slots.map (·.inuse)).count false

/-- All slots, with what `f` keeps of their records. -/
def view {β : Type} (f : α → β) (m : Table α) : List (Bool × β) := m.slots.map fun s => (s.inuse, f s.data)

/-- Fill slot `i` with `a`, as an insert does once it holds the slot. -/
def store (m : Table α) (i : Nat) (a : α) : Table α := (m.setInuse i true).poke i a

/-- A new table of `n` slots: all free, and zeroed. -/
def empty [Inhabited α] (n : Nat) : Table α := ⟨List.replicate n ⟨false, default⟩⟩

/-- Update the record that `update` knows, or put a new one in the lowest free slot. -/
def insertUpdate (m : Table α) (update : α → σ → Status × α × σ) (st : σ) (fresh : Nat → α) :
    Option (Table α × σ) :=
  match m.doall update st with
  | (.eexist, m', st') => some (m', st')
  | (_, m', st') => m'.grab.map fun r => (r.2.poke r.1 (fresh r.1), st')

/-- Follow the id that `locRead` found. -/
def readBy (m : Table α) (locRead : α → σ → Status × α × σ) (idOf : σ → Int) (st : σ) :
    Option Nat × σ :=
  match m.doall locRead st with
  | (.eexist, _, st') => (m.dptr (idOf st'), st')
  | (_, _, st') => (none, st')

/-- Walk over a list of ids and release every record that satisfies `p`. -/
def sweep [Inhabited α] (idOf : α → Int) (p : α → Bool) (m : Table α) : List Int → Table α
  | [] => m
  | id :: ids =>
    match m.dptr id with
    | some i => sweep idOf p (if p (m.peek i) then m.release (idOf (m.peek i)) else m) ids
    | none => sweep idOf p m ids

/-- Every record in use carries the number of its slot. -/
def IdsMatch (idOf : α → Int) (m : Table α) : Prop := ∀ i a, m.used i = some a → idOf a = i

/-- No two records in use have the same key. -/
def Distinct {κ : Type} (key : α → κ) (m : Table α) : Prop :=
  ∀ i j a b, m.used i = some a → m.used j = some b → key a = key b → i = j

/-! ## Reading a changed table -/

@[ext]
theorem ext {m m' : Table α} (h : m.slots = m'.slots) : m = m' := by
  cases m; cases m'; cases h; rfl

theorem used_eq_some {m : Table α} {i : Nat} {a : α} :
    m.used i = some a ↔ m.slots[i]? = some ⟨true, a⟩ := by
  unfold used
  cases h : m.slots[i]? with
  | none => simp
  | some s => obtain ⟨b, d⟩ := s; cases b <;> simp

theorem used_lt {m : Table α} {i : Nat} {a : α} (h : m.used i = some a) : i < m.size :=
  (List.getElem?_eq_some_iff.mp (used_eq_some.mp h)).1

theorem used_empty [Inhabited α] (n i : Nat) : (empty n : Table α).used i = none := by
  simp only [used, empty, List.getElem?_replicate]
  split
  · rename_i h
    split at h
    · cases h
      rfl
    · cases h
  · rfl

theorem peek_empty [Inhabited α] (n i : Nat) : (empty n : Table α).peek i = default := by
  simp only [peek, empty, List.getElem?_replicate]
  split
  · rename_i h
    split at h
    · cases h
      rfl
    · cases h
  · rfl

theorem peek_of_used [Inhabited α] {m : Table α} {i : Nat} {a : α} (h : m.used i = some a) :
    m.peek i = a := by
  simp [peek, used_eq_some.mp h]

@[simp]
theorem size_poke (m : Table α) (i : Nat) (a : α) : (m.poke i a).size = m.size := by
  simp [size, poke]

@[simp]
theorem size_setInuse (m : Table α) (i : Nat) (b : Bool) : (m.setInuse i b).size = m.size := by
  simp [size, setInuse]

@[simp]
theorem size_store (m : Table α) (i : Nat) (a : α) : (m.store i a).size = m.size := by
  simp [store]

theorem used_poke_self {m : Table α} {i : Nat} {b : α} (a : α) (h : m.used i = some b) :
    (m.poke i a).used i = some a := by
  rw [used_eq_some] at h ⊢
  simp [poke, h]

theorem used_poke_ne {m : Table α} {i j : Nat} (a : α) (h : i ≠ j) :
    (m.poke i a).used j = m.used j := by
  simp [used, poke, h]

theorem used_poke_none {m : Table α} {i : Nat} (a : α) (h : m.used i = none) :
    (m.poke i a).used i = none := by
  cases hs : m.slots[i]? with
  | none => simp [used, poke, hs]
  | some s => obtain ⟨b, d⟩ := s; cases b <;> simp_all [used, poke]

theorem used_store_self {m : Table α} {i : Nat} (a : α) (h : i < m.size) :
    (m.store i a).used i = some a := by
  have hs : m.slots[i]? = some m.slots[i] := List.getElem?_eq_getElem h
  rw [used_eq_some]
  simp [store, poke, setInuse, hs]

theorem used_store_ne {m : Table α} {i j : Nat} (a : α) (h : i ≠ j) :
    (m.store i a).used j = m.used j := by
  simp [used, store, poke, setInuse, h]

theorem used_free_self (m : Table α) (i : Nat) : (m.setInuse i false).used i = none := by
  cases hs : m.slots[i]? <;> simp [used, setInuse, hs]

theorem used_setInuse_ne {m : Table α} {i j : Nat} (b : Bool) (h : i ≠ j) :
    (m.setInuse i b).used j = m.used j := by
  simp [used, setInuse, h]

theorem poke_of_le {m : Table α} {i : Nat} (a : α) (h : m.size ≤ i) : m.poke i a = m := by
  ext1
  exact List.modify_eq_self h

theorem used_of_poke {m : Table α} {i j : Nat} {a b : α} (h : (m.poke i b).used j = some a) :
    (j = i ∧ a = b ∧ ∃ a', m.used i = some a') ∨ (i ≠ j ∧ m.used j = some a) := by
  by_cases hij : i = j
  · subst hij
    cases hu : m.used i with
    | none => simp [used_poke_none b hu] at h
    | some a' =>
      rw [used_poke_self b hu, Option.some.injEq] at h
      exact Or.inl ⟨rfl, h.symm, a', rfl⟩
  · rw [used_poke_ne b hij] at h
    exact Or.inr ⟨hij, h⟩

theorem used_of_store {m : Table α} {i j : Nat} {a b : α} (h : (m.store i b).used j = some a) :
    (j = i ∧ a = b) ∨ (i ≠ j ∧ m.used j = some a) := by
  by_cases hij : i = j
  · subst hij
    have hlt : i < m.size := by simpa using used_lt h
    rw [used_store_self b hlt, Option.some.injEq] at h
    exact Or.inl ⟨rfl, h.symm⟩
  · rw [used_store_ne b hij] at h
    exact Or.inr ⟨hij, h⟩

theorem used_of_free {m : Table α} {i j : Nat} {a : α} (h : (m.setInuse i false).used j = some a) :
    i ≠ j ∧ m.used j = some a := by
  by_cases hij : i = j
  · subst hij
    simp [used_free_self] at h
  · rw [used_setInuse_ne false hij] at h
    exact ⟨hij, h⟩

theorem used_poke_of {m : Table α} {i j : Nat} {a : α} (b : α) (h : m.used j = some a) :
    (m.poke i b).used j = some (if i = j then b else a) := by
  by_cases hij : i = j
  · subst hij
    rw [used_poke_self b h, if_pos rfl]
  · rw [used_poke_ne b hij, if_neg hij, h]

theorem used_store_of {m : Table α} {i j : Nat} {a : α} (b : α) (h : m.used j = some a) :
    (m.store i b).used j = some (if i = j then b else a) := by
  by_cases hij : i = j
  · subst hij
    rw [used_store_self b (used_lt h), if_pos rfl]
  · rw [used_store_ne b hij, if_neg hij, h]

theorem used_of_filter {m m' : Table α} {p : α → Bool}
    (h : ∀ j, m'.used j = (m.used j).filter p) {j : Nat} {a : α} :
    m'.used j = some a ↔ m.used j = some a ∧ p a = true := by
  rw [h j, Option.filter_eq_some_iff]

theorem peek_poke_self [Inhabited α] {m : Table α} {i : Nat} (a : α) (h : i < m.size) :
    (m.poke i a).peek i = a := by
  have hs : m.slots[i]? = some m.slots[i] := List.getElem?_eq_getElem h
  simp [peek, poke, hs]

theorem peek_poke_ne [Inhabited α] {m : Table α} {i j : Nat} (a : α) (h : i ≠ j) :
    (m.poke i a).peek j = m.peek j := by
  simp [peek, poke, h]

@[simp]
theorem peek_setInuse [Inhabited α] (m : Table α) (i j : Nat) (b : Bool) :
    (m.setInuse i b).peek j = m.peek j := by
  by_cases hij : i = j
  · subst hij
    cases hs : m.slots[i]? <;> simp [peek, setInuse, hs]
  · simp [peek, setInuse, hij]

theorem peek_store_self [Inhabited α] {m : Table α} {i : Nat} (a : α) (h : i < m.size) :
    (m.store i a).peek i = a := peek_poke_self a (by simpa using h)

theorem peek_store_ne [Inhabited α] {m : Table α} {i j : Nat} (a : α) (h : i ≠ j) :
    (m.store i a).peek j = m.peek j := by
  rw [store, peek_poke_ne a h, peek_setInuse]

theorem IdsMatch.poke {idOf : α → Int} {m : Table α} (h : m.IdsMatch idOf) {i : Nat} {b : α}
    (hb : ∀ a, m.used i = some a → idOf b = idOf a) : (m.poke i b).IdsMatch idOf := by
  intro j a ha
  rcases used_of_poke ha with ⟨rfl, rfl, a', ha'⟩ | ⟨-, ha⟩
  · rw [hb a' ha', h j a' ha']
  · exact h j a ha

theorem IdsMatch.store {idOf : α → Int} {m : Table α} (h : m.IdsMatch idOf) {i : Nat} {b : α}
    (hb : idOf b = i) : (m.store i b).IdsMatch idOf := by
  intro j a ha
  rcases used_of_store ha with ⟨rfl, rfl⟩ | ⟨-, ha⟩
  · exact hb
  · exact h j a ha

theorem IdsMatch.free {idOf : α → Int} {m : Table α} (h : m.IdsMatch idOf) (i : Nat) :
    (m.setInuse i false).IdsMatch idOf :=
  fun j a ha => h j a (used_of_free ha).2

theorem IdsMatch.filter {idOf : α → Int} {m m' : Table α} {p : α → Bool} (h : m.IdsMatch idOf)
    (hu : ∀ j, m'.used j = (m.used j).filter p) : m'.IdsMatch idOf :=
  fun j a ha => h j a ((used_of_filter hu).mp ha).1

theorem Distinct.poke {κ : Type} {key : α → κ} {m : Table α} (h : m.Distinct key) {i : Nat} {a b : α}
    (ha : m.used i = some a) (hkey : key b = key a) : (m.poke i b).Distinct key := by
  have hold (j : Nat) (x : α) (hx : (m.poke i b).used j = some x) :
      ∃ y, m.used j = some y ∧ key y = key x := by
    rcases used_of_poke hx with ⟨rfl, rfl, -⟩ | ⟨-, hx⟩
    · exact ⟨a, ha, hkey.symm⟩
    · exact ⟨x, hx, rfl⟩
  intro j k x y hx hy hxy
  obtain ⟨x', hx', hkx⟩ := hold j x hx
  obtain ⟨y', hy', hky⟩ := hold k y hy
  exact h j k x' y' hx' hy' (by rw [hkx, hky, hxy])

theorem Distinct.store {κ : Type} {key : α → κ} {m : Table α} (h : m.Distinct key) {i : Nat} {b : α}
    (hnew : ∀ j a, m.used j = some a → key a ≠ key b) : (m.store i b).Distinct key := by
  intro j k x y hx hy hxy
  rcases used_of_store hx with ⟨rfl, rfl⟩ | ⟨-, hx'⟩
  · rcases used_of_store hy with ⟨rfl, -⟩ | ⟨-, hy'⟩
    · rfl
    · exact absurd hxy.symm (hnew k y hy')
  · rcases used_of_store hy with ⟨rfl, rfl⟩ | ⟨-, hy'⟩
    · exact absurd hxy (hnew j x hx')
    · exact h j k x y hx' hy' hxy

theorem Distinct.filter {κ : Type} {key : α → κ} {m m' : Table α} {p : α → Bool} (h : m.Distinct key)
    (hu : ∀ j, m'.used j = (m.used j).filter p) : m'.Distinct key :=
  fun j k x y hx hy => h j k x y ((used_of_filter hu).mp hx).1 ((used_of_filter hu).mp hy).1

/-! ## The slots of a table -/

theorem dptr_eq_some {m : Table α} {id : Int} {i : Nat} :
    m.dptr id = some i ↔ id = i ∧ i < m.size := by
  unfold dptr
  split <;> simp <;> omega

theorem dptr_ofNat {m : Table α} {i : Nat} (h : i < m.size) : m.dptr (i : Int) = some i :=
  dptr_eq_some.mpr ⟨rfl, h⟩

theorem grab_eq_some {m m' : Table α} {i : Nat} (h : m.grab = some (i, m')) :
    i < m.size ∧ m.used i = none ∧ m' = m.setInuse i true := by
  unfold grab at h
  rw [Option.map_eq_some_iff] at h
  obtain ⟨k, hk, heq⟩ := h
  obtain ⟨rfl, rfl⟩ := Prod.mk.inj heq
  obtain ⟨hlt, hfree, -⟩ := List.findIdx?_eq_some_iff_getElem.mp hk
  refine ⟨hlt, ?_, rfl⟩
  unfold used
  simp_all

theorem grab_eq_none {m : Table α} (h : m.grab = none) (i : Nat) (hi : i < m.size) :
    ∃ a, m.used i = some a := by
  unfold grab at h
  rw [Option.map_eq_none_iff, List.findIdx?_eq_none_iff] at h
  have hs := h m.slots[i] (List.getElem_mem hi)
  refine ⟨m.slots[i].data, used_eq_some.mpr ?_⟩
  rw [List.getElem?_eq_getElem hi]
  cases hd : m.slots[i] with
  | mk b d => simp_all

theorem fgrab_eq_some {m m' : Table α} {id : Int} (h : m.fgrab id = some m') :
    ∃ i : Nat, id = i ∧ i < m.size ∧ m' = m.setInuse i true := by
  unfold fgrab at h
  rw [Option.map_eq_some_iff] at h
  obtain ⟨i, hi, rfl⟩ := h
  obtain ⟨rfl, hlt⟩ := dptr_eq_some.mp hi
  exact ⟨i, rfl, hlt, rfl⟩

theorem release_ofNat (m : Table α) (i : Nat) : m.release (i : Int) = m.setInuse i false := by
  unfold release
  by_cases h : i < m.size
  · rw [dptr_ofNat h]
  · have hd : m.dptr (i : Int) = none := by
      unfold dptr
      rw [if_neg (by omega)]
    have hself : m.setInuse i false = m := by
      ext1
      exact List.modify_eq_self (by unfold size at h; omega)
    rw [hd, hself]

/-! ## Searches -/

theorem first_eq_some {m : Table α} {p : α → Bool} {i : Nat} (h : m.first p = some i) :
    ∃ a, m.used i = some a ∧ p a = true ∧
      ∀ j b, j < i → m.used j = some b → p b = false := by
  obtain ⟨hlt, hp, hmin⟩ := List.findIdx?_eq_some_iff_getElem.mp h
  rw [Bool.and_eq_true] at hp
  refine ⟨m.slots[i].data, ?_, hp.2, ?_⟩
  · rw [used_eq_some, List.getElem?_eq_getElem hlt, ← hp.1]
  · intro j b hj hb
    obtain ⟨hj', hs⟩ := List.getElem?_eq_some_iff.mp (used_eq_some.mp hb)
    have := hmin j hj
    simp_all

theorem first_eq_none {m : Table α} {p : α → Bool} :
    m.first p = none ↔ ∀ i a, m.used i = some a → p a = false := by
  unfold first
  rw [List.findIdx?_eq_none_iff]
  constructor
  · intro h i a ha
    have hmem : (⟨true, a⟩ : Slot α) ∈ m.slots := List.mem_of_getElem? (used_eq_some.mp ha)
    simpa using h _ hmem
  · rintro h ⟨b, d⟩ hmem
    cases b with
    | false => simp
    | true =>
      obtain ⟨i, hi⟩ := List.mem_iff_getElem?.mp hmem
      simpa using h i d (used_eq_some.mpr hi)

theorem first_of_used {m : Table α} {p : α → Bool} {i : Nat} {a : α} (h : m.used i = some a)
    (hp : p a = true) : ∃ k, m.first p = some k := by
  cases hf : m.first p with
  | some k => exact ⟨k, rfl⟩
  | none =>
    rw [first_eq_none.mp hf i a h] at hp
    cases hp

theorem first_eq_some_of {m : Table α} {p : α → Bool} {i : Nat} {a : α} (h : m.used i = some a)
    (hp : p a = true) (hmin : ∀ j b, j < i → m.used j = some b → p b = false) : m.first p = some i := by
  obtain ⟨k, hk⟩ := first_of_used h hp
  obtain ⟨b, hb, hpb, hkmin⟩ := first_eq_some hk
  rcases Nat.lt_trichotomy k i with hlt | rfl | hgt
  · rw [hmin k b hlt hb] at hpb
    cases hpb
  · exact hk
  · rw [hkmin i a hgt h] at hp
    cases hp

theorem first_store_isSome {m : Table α} {p : α → Bool} {i : Nat} {a : α} (hfree : m.used i = none)
    (hp : p a = false) : ((m.store i a).first p).isSome = (m.first p).isSome := by
  rw [Bool.eq_iff_iff, Option.isSome_iff_exists, Option.isSome_iff_exists]
  constructor
  · rintro ⟨k, hk⟩
    obtain ⟨b, hb, hpb, -⟩ := first_eq_some hk
    rcases used_of_store hb with ⟨-, rfl⟩ | ⟨-, hb⟩
    · rw [hp] at hpb
      cases hpb
    · exact first_of_used hb hpb
  · rintro ⟨k, hk⟩
    obtain ⟨b, hb, hpb, -⟩ := first_eq_some hk
    have hik : i ≠ k := by
      rintro rfl
      rw [hfree] at hb
      cases hb
    exact first_of_used ((used_store_ne a hik).trans hb) hpb

theorem first_poke {m : Table α} {p : α → Bool} {i : Nat} {a b : α} (ha : m.used i = some a)
    (hp : p b = p a) : (m.poke i b).first p = m.first p := by
  have hs := used_eq_some.mp ha
  obtain ⟨hlt, hget⟩ := List.getElem?_eq_some_iff.mp hs
  have hl : (m.poke i b).slots = m.slots.set i ⟨true, b⟩ := by
    simp only [poke, List.modify_eq_set_getElem?, hs, Option.map_eq_map, Option.map_some, Option.getD_some]
  unfold first
  rw [hl]
  have hmap : ∀ (l : List (Slot α)), l.findIdx? (fun s => s.inuse && p s.data) =
      (l.map fun s => s.inuse && p s.data).findIdx? id := by
    intro l
    rw [List.findIdx?_map]
    rfl
  rw [hmap, hmap, List.map_set]
  congr 1
  refine List.ext_getElem? fun j => ?_
  rw [List.getElem?_set]
  split
  · rename_i hij
    subst hij
    simp [hlt, hget, hp]
  · rfl

theorem poke_poke (m : Table α) (i : Nat) (a b : α) : (m.poke i a).poke i b = m.poke i b := by
  ext1
  simp only [poke, List.modify_modify_eq]
  rfl

@[simp]
theorem freeSlots_poke (m : Table α) (i : Nat) (a : α) : (m.poke i a).freeSlots = m.freeSlots := by
  unfold freeSlots poke
  congr 1
  apply List.ext_getElem?
  intro j
  rw [List.getElem?_map, List.getElem?_map, List.getElem?_modify]
  split <;> cases m.slots[j]? <;> rfl

theorem freeSlots_of_grab_none {m : Table α} (h : m.grab = none) : m.freeSlots = 0 := by
  unfold grab at h
  rw [Option.map_eq_none_iff, List.findIdx?_eq_none_iff] at h
  rw [freeSlots, List.count_eq_zero, List.mem_map]
  rintro ⟨s, hs, hb⟩
  have := h s hs
  rw [hb] at this
  cases this

theorem freeSlots_store {m : Table α} {i : Nat} (a : α) (hlt : i < m.size) (hfree : m.used i = none) :
    m.freeSlots = (m.store i a).freeSlots + 1 := by
  have hs : m.slots[i]? = some m.slots[i] := List.getElem?_eq_getElem hlt
  have hin : m.slots[i].inuse = false := by
    by_contra hb
    simp only [used, hs, eq_true_of_ne_false hb] at hfree
    cases hfree
  have hlen : i < (m.slots.map (·.inuse)).length := by
    rw [List.length_map]
    exact hlt
  have hset : (m.setInuse i true).slots.map (·.inuse) = (m.slots.map (·.inuse)).set i true := by
    apply List.ext_getElem?
    intro j
    rw [setInuse, List.getElem?_map, List.getElem?_modify, List.getElem?_set, List.length_map]
    by_cases hij : i = j
    · subst hij
      simp [show i < m.slots.length from hlt]
    · simp [hij]
  have hpos : 0 < (m.slots.map (·.inuse)).count false :=
    List.count_pos_iff.mpr (List.mem_map.mpr ⟨m.slots[i], List.getElem_mem hlt, hin⟩)
  have hget : (m.slots.map (·.inuse))[i] = false := by
    rw [List.getElem_map]
    exact hin
  rw [store, freeSlots_poke, freeSlots, freeSlots, hset, List.count_set hlen, hget]
  rw [if_pos (beq_self_eq_true false), if_neg (show ¬ (true == false) = true by decide)]
  omega

theorem view_poke_iff [Inhabited α] {β : Type} {f : α → β} {m : Table α} {i : Nat} {a : α} (h : i < m.size) :
    (m.poke i a).view f = m.view f ↔ f a = f (m.peek i) := by
  have hs : m.slots[i]? = some m.slots[i] := List.getElem?_eq_getElem h
  have hp : m.peek i = m.slots[i].data := by simp only [peek, hs]
  rw [hp]
  unfold view poke
  constructor
  · intro heq
    have hi := congrArg (·[i]?) heq
    simpa [hs] using hi
  · intro heq
    apply List.ext_getElem?
    intro j
    rw [List.getElem?_map, List.getElem?_map, List.getElem?_modify]
    by_cases hij : i = j
    · subst hij
      simp [hs, heq]
    · simp [hij]

theorem view_comp {β γ : Type} (f : α → β) (g : β → γ) (m : Table α) :
    m.view (g ∘ f) = (m.view f).map (Prod.map id g) := by
  rw [view, view, List.map_map]
  rfl

theorem records_view {β : Type} (f : α → β) (m : Table α) :
    m.records.map f = ((m.view f).filter (·.1)).map (·.2) := by
  rw [records, view, List.filter_map, List.map_map, List.map_map]
  rfl

theorem view_store_ne {β : Type} {f : α → β} {m : Table α} {i : Nat} {a : α} (hlt : i < m.size)
    (hfree : m.used i = none) : (m.store i a).view f ≠ m.view f := by
  intro heq
  have hs : m.slots[i]? = some m.slots[i] := List.getElem?_eq_getElem hlt
  have hi := congrArg (·[i]?) heq
  simp only [view, store, poke, setInuse, List.getElem?_map, List.getElem?_modify, hs] at hi
  simp only [used, hs] at hfree
  simp_all

theorem used_free_filter {idOf : α → Int} {m : Table α} (h : m.IdsMatch idOf) (i j : Nat) :
    (m.setInuse i false).used j = (m.used j).filter fun a => !(idOf a == (i : Int)) := by
  by_cases hij : i = j
  · subst hij
    rw [used_free_self]
    cases hu : m.used i with
    | none => rfl
    | some a => simp [Option.filter, h i a hu]
  · rw [used_setInuse_ne false hij]
    cases hu : m.used j with
    | none => rfl
    | some a =>
      have hne : (j : Int) ≠ i := by omega
      simp [Option.filter, h j a hu, hne]

theorem mem_records {m : Table α} {a : α} : a ∈ m.records ↔ ∃ i, m.used i = some a := by
  simp only [records, List.mem_map, List.mem_filter, used_eq_some]
  constructor
  · rintro ⟨⟨b, d⟩, ⟨hmem, hb⟩, rfl⟩
    obtain ⟨i, hi⟩ := List.mem_iff_getElem?.mp hmem
    exact ⟨i, by simp_all⟩
  · rintro ⟨i, hi⟩
    exact ⟨⟨true, a⟩, ⟨List.mem_of_getElem? hi, rfl⟩, rfl⟩

/-! ## Visits

Two kinds of callback are used: one that stops at the first record it knows, and
one that reads every record. -/

theorem doallSlots_hit {f : α → σ → Status × α × σ} {p : α → Bool} {g : α → α} {h : α → σ} {st : σ}
    (hf : ∀ a, f a st = if p a then (.eexist, g a, h a) else (.success, a, st)) (l : List (Slot α)) :
    doallSlots f l st =
      match l.findIdx? fun s => s.inuse && p s.data with
      | some i => (.eexist, l.modify i fun s => { s with data := g s.data },
          match l[i]? with | some s => h s.data | none => st)
      | none => (.success, l, st) := by
  induction l with
  | nil => rfl
  | cons s rest ih =>
    obtain ⟨b, d⟩ := s
    rw [List.findIdx?_cons]
    cases b with
    | false =>
      simp only [doallSlots, Bool.false_and, Bool.false_eq_true, if_false, ih]
      cases hfi : rest.findIdx? fun s => s.inuse && p s.data <;> simp
    | true =>
      cases hp : p d with
      | true => simp [doallSlots, hf, hp]
      | false =>
        simp only [doallSlots, hf, hp, if_true, Bool.and_false, Bool.false_eq_true, if_false, ih]
        cases hfi : rest.findIdx? fun s => s.inuse && p s.data <;> simp

/-- A callback that stops at its first match changes that record and no other. -/
theorem doall_some {f : α → σ → Status × α × σ} {p : α → Bool} {g : α → α} {h : α → σ} {st : σ}
    (hf : ∀ a, f a st = if p a then (.eexist, g a, h a) else (.success, a, st))
    {m : Table α} {i : Nat} {a : α} (hi : m.first p = some i) (ha : m.used i = some a) :
    m.doall f st = (.eexist, m.poke i (g a), h a) := by
  have hs := used_eq_some.mp ha
  have hd := doallSlots_hit hf m.slots
  unfold first at hi
  rw [hi] at hd
  simp only [hs] at hd
  unfold doall
  rw [hd]
  refine congrArg (fun x => (Status.eexist, (⟨x⟩ : Table α), h a)) (List.ext_getElem? ?_)
  intro j
  rw [List.getElem?_modify, List.getElem?_modify]
  by_cases hij : i = j
  · subst hij; simp [hs]
  · simp [hij]

theorem doall_none {f : α → σ → Status × α × σ} {p : α → Bool} {g : α → α} {h : α → σ} {st : σ}
    (hf : ∀ a, f a st = if p a then (.eexist, g a, h a) else (.success, a, st))
    {m : Table α} (hi : m.first p = none) : m.doall f st = (.success, m, st) := by
  have hd := doallSlots_hit hf m.slots
  unfold first at hi
  rw [hi] at hd
  unfold doall
  rw [hd]

theorem insertUpdate_cases {f : α → σ → Status × α × σ} {p : α → Bool} {g : α → α} {h : α → σ}
    {st st' : σ} {fresh : Nat → α} {m m' : Table α}
    (hf : ∀ a, f a st = if p a then (.eexist, g a, h a) else (.success, a, st))
    (hr : m.insertUpdate f st fresh = some (m', st')) :
    (∃ i a, m.first p = some i ∧ m.used i = some a ∧ m' = m.poke i (g a) ∧ st' = h a) ∨
    (∃ i, m.first p = none ∧ i < m.size ∧ m.used i = none ∧ m' = m.store i (fresh i) ∧ st' = st) := by
  cases hp : m.first p with
  | some i =>
    obtain ⟨a, ha, -, -⟩ := first_eq_some hp
    simp only [insertUpdate, doall_some hf hp ha, Option.some.injEq, Prod.mk.injEq] at hr
    exact Or.inl ⟨i, a, rfl, ha, hr.1.symm, hr.2.symm⟩
  | none =>
    simp only [insertUpdate, doall_none hf hp, Option.map_eq_some_iff, Prod.mk.injEq] at hr
    obtain ⟨⟨i, m₁⟩, hg, rfl, rfl⟩ := hr
    obtain ⟨hlt, hfree, rfl⟩ := grab_eq_some hg
    exact Or.inr ⟨i, rfl, hlt, hfree, rfl, rfl⟩

theorem insertUpdate_eq_none {f : α → σ → Status × α × σ} {p : α → Bool} {g : α → α} {h : α → σ}
    {st : σ} {fresh : Nat → α} {m : Table α}
    (hf : ∀ a, f a st = if p a then (.eexist, g a, h a) else (.success, a, st)) :
    m.insertUpdate f st fresh = none ↔ m.first p = none ∧ m.grab = none := by
  cases hp : m.first p with
  | some i =>
    obtain ⟨a, ha, -, -⟩ := first_eq_some hp
    simp [insertUpdate, doall_some hf hp ha]
  | none => simp [insertUpdate, doall_none hf hp]

theorem readBy_some {f : α → σ → Status × α × σ} {p : α → Bool} {g : α → α} {h : α → σ} {st : σ}
    {idOf : σ → Int} {m : Table α} {i : Nat} {a : α}
    (hf : ∀ a, f a st = if p a then (.eexist, g a, h a) else (.success, a, st))
    (hi : m.first p = some i) (ha : m.used i = some a) (hid : idOf (h a) = i) :
    m.readBy f idOf st = (some i, h a) := by
  simp only [readBy, doall_some hf hi ha, hid, dptr_ofNat (used_lt ha)]

theorem readBy_none {f : α → σ → Status × α × σ} {p : α → Bool} {g : α → α} {h : α → σ} {st : σ}
    {idOf : σ → Int} {m : Table α}
    (hf : ∀ a, f a st = if p a then (.eexist, g a, h a) else (.success, a, st))
    (hi : m.first p = none) : m.readBy f idOf st = (none, st) := by
  simp only [readBy, doall_none hf hi]

theorem doallSlots_collect {β : Type} (g : α → β) (l : List (Slot α)) (acc : List β) :
    doallSlots (fun a st => (.success, a, st ++ [g a])) l acc =
      (.success, l, acc ++ ((l.filter (·.inuse)).map fun s => g s.data)) := by
  induction l generalizing acc with
  | nil => simp [doallSlots]
  | cons s rest ih =>
    obtain ⟨b, d⟩ := s
    cases b <;> simp [doallSlots, ih]

theorem doall_collect {β : Type} (g : α → β) (m : Table α) :
    m.doall (fun a st => (.success, a, st ++ [g a])) [] = (.success, m, m.records.map g) := by
  simp [doall, doallSlots_collect, records, Function.comp_def]

/-! ## Walks over the ids in use -/

theorem ids_increase (idOf : α → Int) (l : List (Slot α)) (k : Nat)
    (h : ∀ (i : Nat) a, l[i]? = some ⟨true, a⟩ → idOf a = k + i) :
    ((l.filter (·.inuse)).map fun s => idOf s.data).Pairwise (· < ·) ∧
      ∀ id ∈ (l.filter (·.inuse)).map fun s => idOf s.data, (k : Int) ≤ id := by
  induction l generalizing k with
  | nil => simp
  | cons s rest ih =>
    obtain ⟨b, d⟩ := s
    have hrest := ih (k + 1) fun i a hi => by
      have := h (i + 1) a (by simpa using hi)
      push_cast at this ⊢
      omega
    have hge : ∀ id ∈ (rest.filter (·.inuse)).map fun s => idOf s.data, (k : Int) < id := by
      intro id hid
      have := hrest.2 id hid
      push_cast at this
      omega
    cases b with
    | false => exact ⟨hrest.1, fun id hid => Int.le_of_lt (hge id hid)⟩
    | true =>
      have hd : idOf d = k := by simpa using h 0 d rfl
      refine ⟨?_, ?_⟩
      · simp only [List.filter_cons_of_pos, List.map_cons, List.pairwise_cons, hd]
        exact ⟨hge, hrest.1⟩
      · intro id hid
        simp only [List.filter_cons_of_pos, List.map_cons, List.mem_cons, hd] at hid
        rcases hid with rfl | hid
        · exact Int.le_refl _
        · exact Int.le_of_lt (hge id hid)

theorem ids_pairwise {idOf : α → Int} {m : Table α} (h : m.IdsMatch idOf) :
    (m.records.map idOf).Pairwise (· < ·) := by
  have hp := (ids_increase idOf m.slots 0 fun i a hi => by
    simpa using h i a (used_eq_some.mpr hi)).1
  have heq : m.records.map idOf = (m.slots.filter (·.inuse)).map fun s => idOf s.data := by
    simp [records, Function.comp_def]
  rw [heq]
  exact hp

theorem ids_nodup {idOf : α → Int} {m : Table α} (h : m.IdsMatch idOf) :
    (m.records.map idOf).Nodup := (ids_pairwise h).imp fun hlt => Int.ne_of_lt hlt

theorem mem_ids {idOf : α → Int} {m : Table α} (h : m.IdsMatch idOf) {id : Int} :
    id ∈ m.records.map idOf ↔ ∃ i a, m.used i = some a ∧ id = i := by
  simp only [List.mem_map, mem_records]
  constructor
  · rintro ⟨a, ⟨i, ha⟩, rfl⟩
    exact ⟨i, a, ha, h i a ha⟩
  · rintro ⟨i, a, ha, rfl⟩
    exact ⟨a, ⟨i, ha⟩, h i a ha⟩

theorem read_ids [Inhabited α] {idOf : α → Int} {m : Table α} (h : m.IdsMatch idOf) :
    ((m.records.map idOf).map fun id => ((m.dptr id).map m.peek).getD default) = m.records := by
  rw [List.map_map]
  refine (List.map_congr_left fun a ha => ?_).trans (List.map_id _)
  obtain ⟨i, hi⟩ := mem_records.1 ha
  simp only [Function.comp_apply, h i a hi, dptr_ofNat (used_lt hi), Option.map_some, Option.getD_some,
    peek_of_used hi, id]

@[simp]
theorem size_sweep [Inhabited α] (idOf : α → Int) (p : α → Bool) (m : Table α) (ids : List Int) :
    (m.sweep idOf p ids).size = m.size := by
  induction ids generalizing m with
  | nil => rfl
  | cons id ids ih =>
    unfold sweep
    split
    · rw [ih]
      split
      · unfold release
        split <;> simp
      · rfl
    · exact ih m

theorem sweep_used_aux [Inhabited α] {idOf : α → Int} (p : α → Bool) (ids : List Int) (m : Table α)
    (h : m.IdsMatch idOf) (hnd : ids.Nodup) (hin : ∀ id ∈ ids, ∃ i a, m.used i = some a ∧ id = i)
    (j : Nat) :
    (m.sweep idOf p ids).used j =
      if (j : Int) ∈ ids then (m.used j).filter fun a => !p a else m.used j := by
  induction ids generalizing m with
  | nil => simp [sweep]
  | cons id ids ih =>
    obtain ⟨i, a, ha, rfl⟩ := hin id (by simp)
    obtain ⟨hni, hnd⟩ := List.nodup_cons.mp hnd
    have hid : idOf a = i := h i a ha
    simp only [sweep, dptr_ofNat (used_lt ha), peek_of_used ha, hid, release_ofNat]
    cases hp : p a with
    | false =>
      -- Slot `i` stays, and `i` is not visited again.
      simp only [Bool.false_eq_true, if_false]
      rw [ih m h hnd fun id hid => hin id (by simp [hid])]
      by_cases hj : j = i
      · subst hj; simp [hni, ha, Option.filter, hp]
      · have hj' : (j : Int) ≠ i := by omega
        simp [hj']
    | true =>
      have hne : ∀ id ∈ ids, id ≠ i := fun id hm heq => hni (heq ▸ hm)
      simp only [if_true]
      rw [ih (m.setInuse i false) ?_ hnd ?_]
      · by_cases hj : j = i
        · subst hj; simp [hni, ha, Option.filter, hp, used_free_self]
        · have hj' : (j : Int) ≠ i := by omega
          rw [used_setInuse_ne false (fun he => hj he.symm)]
          simp [hj']
      · intro k b hb
        by_cases hk : i = k
        · subst hk; simp [used_free_self] at hb
        · rw [used_setInuse_ne false hk] at hb
          exact h k b hb
      · intro id hm
        obtain ⟨k, b, hb, rfl⟩ := hin id (by simp [hm])
        have hk : i ≠ k := fun he => hne _ hm (by rw [he])
        exact ⟨k, b, by rw [used_setInuse_ne false hk, hb], rfl⟩

/-- Sweeping over all ids in use frees the records that satisfy `p`. -/
theorem sweep_used [Inhabited α] {idOf : α → Int} {m : Table α} (p : α → Bool)
    (h : m.IdsMatch idOf) (j : Nat) :
    (m.sweep idOf p (m.records.map idOf)).used j = (m.used j).filter fun a => !p a := by
  rw [sweep_used_aux p _ m h (ids_nodup h) fun id => (mem_ids h).mp]
  split
  · rfl
  · rename_i hj
    cases hu : m.used j with
    | none => rfl
    | some a => exact absurd ((mem_ids h).mpr ⟨j, a, hu, rfl⟩) hj

end Table

end Slotmem
