import ModCluster.Lib.Slotmem

/-!
# Tables up to a part of their records

`mapData f` erases from every record, in use or free, what `f` does not keep. An
operation whose callback commutes with `f` commutes with the erasure, so what the
erased part holds has no say in where records are found, stored and freed.
-/

namespace Slotmem

namespace Table

variable {α σ : Type} {f : α → α}

def mapData (f : α → α) (m : Table α) : Table α := ⟨m.slots.map fun s => { s with data := f s.data }⟩

@[simp]
theorem size_mapData (m : Table α) : (m.mapData f).size = m.size := by
  simp [size, mapData]

@[simp]
theorem dptr_mapData (m : Table α) (id : Int) : (m.mapData f).dptr id = m.dptr id := by
  rw [dptr, dptr, size_mapData]

@[simp]
theorem used_mapData (m : Table α) (i : Nat) : (m.mapData f).used i = (m.used i).map f := by
  simp only [used, mapData, List.getElem?_map]
  cases m.slots[i]? with
  | none => rfl
  | some s => obtain ⟨b, d⟩ := s; cases b <;> rfl

theorem peek_mapData [Inhabited α] (hf : f default = default) (m : Table α) (i : Nat) :
    (m.mapData f).peek i = f (m.peek i) := by
  simp only [peek, mapData, List.getElem?_map]
  cases m.slots[i]? with
  | none => exact hf.symm
  | some s => rfl

theorem records_mapData (m : Table α) : (m.mapData f).records = m.records.map f := by
  simp only [records, mapData, List.filter_map, List.map_map]
  rfl

theorem poke_mapData (m : Table α) (i : Nat) (a : α) :
    (m.mapData f).poke i (f a) = (m.poke i a).mapData f := by
  apply Table.ext
  apply List.ext_getElem?
  intro j
  simp only [poke, mapData, List.getElem?_modify, List.getElem?_map]
  cases m.slots[j]? with
  | none => rfl
  | some s => by_cases hij : i = j <;> simp [hij]

theorem setInuse_mapData (m : Table α) (i : Nat) (b : Bool) :
    (m.mapData f).setInuse i b = (m.setInuse i b).mapData f := by
  apply Table.ext
  apply List.ext_getElem?
  intro j
  simp only [setInuse, mapData, List.getElem?_modify, List.getElem?_map]
  cases m.slots[j]? with
  | none => rfl
  | some s => by_cases hij : i = j <;> simp [hij]

theorem release_mapData (m : Table α) (id : Int) :
    (m.mapData f).release id = (m.release id).mapData f := by
  unfold release
  rw [dptr_mapData]
  cases m.dptr id with
  | none => rfl
  | some i => exact setInuse_mapData m i false

theorem grab_mapData (m : Table α) :
    (m.mapData f).grab = m.grab.map fun r => (r.1, r.2.mapData f) := by
  have hidx : ((m.mapData f).slots.findIdx? fun s => !s.inuse) = m.slots.findIdx? fun s => !s.inuse := by
    rw [mapData, List.findIdx?_map]
    rfl
  unfold grab
  rw [hidx]
  cases m.slots.findIdx? fun s => !s.inuse with
  | none => rfl
  | some i => simp [setInuse_mapData]

theorem fgrab_mapData (m : Table α) (id : Int) :
    (m.mapData f).fgrab id = (m.fgrab id).map (·.mapData f) := by
  unfold fgrab
  rw [dptr_mapData]
  cases m.dptr id with
  | none => rfl
  | some i => exact congrArg some (setInuse_mapData m i true)

/-! ## Visits -/

variable {visit visit' : α → σ → Status × α × σ}

theorem doallSlots_mapData
    (h : ∀ a st, visit' (f a) st = ((visit a st).1, f (visit a st).2.1, (visit a st).2.2))
    (l : List (Slot α)) (st : σ) :
    doallSlots visit' (l.map fun s => { s with data := f s.data }) st =
      ((doallSlots visit l st).1, (doallSlots visit l st).2.1.map fun s => { s with data := f s.data },
        (doallSlots visit l st).2.2) := by
  induction l generalizing st with
  | nil => rfl
  | cons s rest ih =>
    obtain ⟨b, d⟩ := s
    cases b with
    | false => simp [doallSlots, ih]
    | true =>
      obtain ⟨rv, a, st', hv⟩ : ∃ rv a st', visit d st = (rv, a, st') := ⟨_, _, _, rfl⟩
      have hv' : visit' (f d) st = (rv, f a, st') := by rw [h, hv]
      cases rv <;> simp [doallSlots, hv, hv', ih]

theorem doall_mapData
    (h : ∀ a st, visit' (f a) st = ((visit a st).1, f (visit a st).2.1, (visit a st).2.2))
    (m : Table α) (st : σ) :
    (m.mapData f).doall visit' st =
      ((m.doall visit st).1, (m.doall visit st).2.1.mapData f, (m.doall visit st).2.2) := by
  simp only [doall, mapData, doallSlots_mapData h]

theorem insertUpdate_mapData
    (h : ∀ a st, visit' (f a) st = ((visit a st).1, f (visit a st).2.1, (visit a st).2.2))
    {fresh fresh' : Nat → α} (hfresh : ∀ i, fresh' i = f (fresh i)) (m : Table α) (st : σ) :
    (m.mapData f).insertUpdate visit' st fresh' =
      (m.insertUpdate visit st fresh).map fun r => (r.1.mapData f, r.2) := by
  have hgrab : ∀ m : Table α, ∀ st' : σ,
      ((m.mapData f).grab.map fun r => (r.2.poke r.1 (fresh' r.1), st')) =
        (m.grab.map fun r => (r.2.poke r.1 (fresh r.1), st')).map fun r => (r.1.mapData f, r.2) := by
    intro m st'
    rw [grab_mapData]
    cases m.grab with
    | none => rfl
    | some r => simp [hfresh, poke_mapData]
  unfold insertUpdate
  rw [doall_mapData h]
  obtain ⟨rv, m', st', hd⟩ : ∃ rv m' st', m.doall visit st = (rv, m', st') := ⟨_, _, _, rfl⟩
  rw [hd]
  cases rv with
  | eexist => rfl
  | success => exact hgrab m' st'
  | einval => exact hgrab m' st'
  | notfound => exact hgrab m' st'

theorem readBy_mapData
    (h : ∀ a st, visit' (f a) st = ((visit a st).1, f (visit a st).2.1, (visit a st).2.2))
    (idOf : σ → Int) (m : Table α) (st : σ) :
    (m.mapData f).readBy visit' idOf st = m.readBy visit idOf st := by
  unfold readBy
  rw [doall_mapData h]
  obtain ⟨rv, m', st', hd⟩ : ∃ rv m' st', m.doall visit st = (rv, m', st') := ⟨_, _, _, rfl⟩
  rw [hd]
  cases rv <;> simp

theorem sweep_mapData [Inhabited α] {idOf : α → Int} {p : α → Bool} (hf : f default = default)
    (hid : ∀ a, idOf (f a) = idOf a) (hp : ∀ a, p (f a) = p a) (m : Table α) (ids : List Int) :
    (m.mapData f).sweep idOf p ids = (m.sweep idOf p ids).mapData f := by
  induction ids generalizing m with
  | nil => rfl
  | cons id ids ih =>
    simp only [sweep, dptr_mapData]
    cases m.dptr id with
    | none => exact ih m
    | some i =>
      simp only [peek_mapData hf, hp, hid]
      split
      · rw [release_mapData]
        exact ih _
      · exact ih m

theorem IdsMatch.mapData {idOf : α → Int} {m : Table α} (h : m.IdsMatch idOf)
    (hid : ∀ a, idOf (f a) = idOf a) : (m.mapData f).IdsMatch idOf := by
  intro i a ha
  rw [used_mapData, Option.map_eq_some_iff] at ha
  obtain ⟨b, hb, rfl⟩ := ha
  rw [hid]
  exact h i b hb

theorem Distinct.mapData {κ : Type} {key : α → κ} {m : Table α} (h : m.Distinct key)
    (hkey : ∀ a, key (f a) = key a) : (m.mapData f).Distinct key := by
  intro i j a b ha hb hab
  rw [used_mapData, Option.map_eq_some_iff] at ha hb
  obtain ⟨a', ha', rfl⟩ := ha
  obtain ⟨b', hb', rfl⟩ := hb
  rw [hkey, hkey] at hab
  exact h i j a' b' ha' hb' hab

/-- Two tables have the same view under `f` when they are equal once erased by `f`. -/
theorem view_eq_of_mapData {m m' : Table α} (h : m'.mapData f = m.mapData f) : m'.view f = m.view f := by
  have hview : ∀ m : Table α, m.view f = (m.mapData f).view id := by
    intro m
    simp only [view, mapData, List.map_map]
    rfl
  rw [hview, hview, h]

end Table

end Slotmem
