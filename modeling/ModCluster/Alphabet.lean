import ModCluster.ManagerPage
import ModCluster.FieldLoops
import ModCluster.FieldValues

/-!
# Bytes that a command takes from its message

A command rewrites its message as it reads it: it lowers a value, puts NULs over commas,
and a list that ends in a comma goes on behind its NUL. The strings it takes are made of
an alphabet when the whole message is, or when its lists are and end as they should.
-/

open CString

namespace ModCluster

/-- The names that the code has of its own. -/
def fixedNames : List Str :=
  [ascii "mycluster", ascii "JSESSIONID", ascii "jsessionid", ascii "localhost", ascii "8009", ascii "ajp", ascii "ws",
    ascii "wss", ascii "JVMRoute", REMOVED]

structure Alphabet where
  ok : Byte → Bool
  lower : ∀ b, ok b = true → ok (toLower b) = true
  fixed : ∀ s ∈ fixedNames, ∀ b ∈ s, ok b = true

def Alphabet.Spells (A : Alphabet) (s : Str) : Prop := ∀ b ∈ s, A.ok b = true

/-- The memory holds nothing else, NULs apart. -/
def Alphabet.Fills (A : Alphabet) (m : Mem) : Prop := ∀ b ∈ m, b = 0 ∨ A.ok b = true

variable {A : Alphabet} {m m' m'' : Mem} {W : Nat → Prop} {n : Nat}

/-! ## Memory by its bytes -/

theorem Alphabet.Fills.byteAt (h : A.Fills m) (p : Nat) : byteAt m p = 0 ∨ A.ok (byteAt m p) = true := by
  unfold CString.byteAt
  rw [List.getD_eq_getElem?_getD]
  cases hp : m[p]? with
  | none => exact Or.inl rfl
  | some b => exact h b (List.mem_of_getElem? hp)

theorem fills_iff : A.Fills m ↔ ∀ p, byteAt m p = 0 ∨ A.ok (byteAt m p) = true := by
  refine ⟨fun h p => h.byteAt p, fun h b hb => ?_⟩
  obtain ⟨p, hp⟩ := List.mem_iff_getElem?.mp hb
  have hat := h p
  unfold byteAt at hat
  rw [List.getD_eq_getElem?_getD, hp] at hat
  exact hat

theorem byteAt_drop (m : Mem) (s p : Nat) : byteAt (m.drop s) p = byteAt m (s + p) := by
  unfold byteAt
  rw [List.getD_eq_getElem?_getD, List.getD_eq_getElem?_getD, List.getElem?_drop]

theorem mem_takeWhile {b : Byte} (h : b ∈ m.takeWhile (· != 0)) :
    ∃ p, byteAt m p = b ∧ ∀ q ≤ p, byteAt m q ≠ 0 := by
  induction m with
  | nil => cases h
  | cons c m ih =>
    by_cases hc : c = 0
    · rw [hc, List.takeWhile_cons_of_neg (by simp)] at h
      cases h
    · rw [List.takeWhile_cons_of_pos (by simpa using hc)] at h
      rcases List.mem_cons.mp h with rfl | h
      · refine ⟨0, rfl, fun q hq => ?_⟩
        rw [Nat.le_zero.mp hq]
        exact hc
      · obtain ⟨p, hp, hno⟩ := ih h
        refine ⟨p + 1, hp, fun q hq => ?_⟩
        cases q with
        | zero => exact hc
        | succ q => exact hno q (Nat.le_of_succ_le_succ hq)

theorem mem_strAt {s : Nat} {b : Byte} (h : b ∈ strAt m s) :
    ∃ p, s ≤ p ∧ byteAt m p = b ∧ ∀ q, s ≤ q → q ≤ p → byteAt m q ≠ 0 := by
  obtain ⟨p, hp, hno⟩ := mem_takeWhile h
  refine ⟨s + p, Nat.le_add_right s p, by rw [← byteAt_drop, hp], fun q hsq hqp => ?_⟩
  have hq := hno (q - s) (by omega)
  rw [byteAt_drop, Nat.add_sub_cancel' hsq] at hq
  exact hq

theorem takeWhile_nul (m : Mem) :
    byteAt m (m.takeWhile (· != 0)).length = 0 ∧ ∀ p < (m.takeWhile (· != 0)).length, byteAt m p ≠ 0 := by
  induction m with
  | nil => exact ⟨rfl, nofun⟩
  | cons c m ih =>
    by_cases hc : c = 0
    · rw [hc, List.takeWhile_cons_of_neg (by simp)]
      exact ⟨rfl, nofun⟩
    · rw [List.takeWhile_cons_of_pos (by simpa using hc), List.length_cons]
      refine ⟨ih.1, fun p hp => ?_⟩
      cases p with
      | zero => exact hc
      | succ p => exact ih.2 p (Nat.lt_of_succ_lt_succ hp)

theorem byteAt_strAt_end (m : Mem) (s : Nat) : byteAt m (s + (strAt m s).length) = 0 := by
  rw [← byteAt_drop]
  exact (takeWhile_nul (m.drop s)).1

theorem byteAt_strAt_ne {s p : Nat} (hs : s ≤ p) (hp : p < s + (strAt m s).length) : byteAt m p ≠ 0 := by
  have hne := (takeWhile_nul (m.drop s)).2 (p - s) (by unfold strAt at hp; omega)
  rw [byteAt_drop, Nat.add_sub_cancel' hs] at hne
  exact hne

theorem byteAt_mem_strAt {s p : Nat} (hs : s ≤ p) (hp : p < s + (strAt m s).length) : byteAt m p ∈ strAt m s := by
  have hlt : p - s < (strAt m s).length := by omega
  have hpre : strAt m s <+: m.drop s := List.takeWhile_prefix _
  have hat := byteAt_drop m s (p - s)
  rw [Nat.add_sub_cancel' hs] at hat
  rw [← hat]
  unfold byteAt
  rw [List.getD_eq_getElem?_getD, List.getElem?_eq_getElem (Nat.lt_of_lt_of_le hlt hpre.length_le), Option.getD_some,
    ← hpre.getElem hlt]
  exact List.getElem_mem hlt

theorem strAt_length_le {s z : Nat} (hs : s ≤ z) (hz : byteAt m z = 0) : s + (strAt m s).length ≤ z := by
  by_contra hlt
  exact byteAt_strAt_ne hs (by omega) hz

theorem takeWhile_congr (h : ∀ p ≤ (m.takeWhile (· != 0)).length, byteAt m' p = byteAt m p) :
    m'.takeWhile (· != 0) = m.takeWhile (· != 0) := by
  induction m generalizing m' with
  | nil =>
    cases m' with
    | nil => rfl
    | cons c m' =>
      have hc : c = 0 := h 0 (Nat.zero_le _)
      rw [hc]
      rfl
  | cons b m ih =>
    by_cases hb : b = 0
    · subst hb
      have h0 : byteAt m' 0 = 0 := h 0 (Nat.zero_le _)
      cases m' with
      | nil => rfl
      | cons c m' =>
        have hc : c = 0 := h0
        rw [hc]
        rfl
    · rw [List.takeWhile_cons_of_pos (by simpa using hb)] at h ⊢
      have h0 : byteAt m' 0 = b := h 0 (Nat.zero_le _)
      cases m' with
      | nil => exact absurd h0.symm hb
      | cons c m' =>
        have hc : c = b := h0
        rw [hc, List.takeWhile_cons_of_pos (by simpa using hb)]
        congr 1
        exact ih fun p hp => h (p + 1) (Nat.succ_le_succ hp)

theorem strAt_congr {s : Nat} (h : ∀ p, s ≤ p → p ≤ s + (strAt m s).length → byteAt m' p = byteAt m p) :
    strAt m' s = strAt m s := by
  refine takeWhile_congr fun p hp => ?_
  rw [byteAt_drop, byteAt_drop]
  exact h (s + p) (Nat.le_add_right s p) (Nat.add_le_add_left hp s)

/-! ## Rewriting -/

/-- Only bytes of `W` change, and they get lowered or are put a NUL over. -/
structure Rewritten (W : Nat → Prop) (m m' : Mem) : Prop where
  length : m'.length = m.length
  bytes : ∀ p, byteAt m' p = byteAt m p ∨ W p ∧ (byteAt m' p = 0 ∨ byteAt m' p = toLower (byteAt m p))

theorem toLower_toLower : ∀ b : Byte, toLower (toLower b) = toLower b := forall_byte (by decide +kernel)

theorem Rewritten.refl (W : Nat → Prop) (m : Mem) : Rewritten W m m := ⟨rfl, fun _ => Or.inl rfl⟩

theorem Rewritten.trans (h : Rewritten W m m') (h' : Rewritten W m' m'') : Rewritten W m m'' := by
  refine ⟨h'.length.trans h.length, fun p => ?_⟩
  rcases h.bytes p with hp | ⟨hw, hp⟩
  · rw [← hp]
    exact h'.bytes p
  · refine Or.inr ⟨hw, ?_⟩
    rcases h'.bytes p with hp' | ⟨-, hp' | hp'⟩
    · rw [hp']
      exact hp
    · exact Or.inl hp'
    · rcases hp with hp | hp
      · left
        rw [hp', hp]
        rfl
      · right
        rw [hp', hp, toLower_toLower]

theorem Rewritten.ok {p : Nat} (h : Rewritten W m m') (hp : A.ok (byteAt m p) = true) :
    byteAt m' p = 0 ∨ A.ok (byteAt m' p) = true := by
  rcases h.bytes p with hb | ⟨-, hb | hb⟩
  · right
    rw [hb]
    exact hp
  · exact Or.inl hb
  · right
    rw [hb]
    exact A.lower _ hp

theorem Rewritten.nul {p : Nat} (h : Rewritten W m m') (hp : byteAt m p = 0) : byteAt m' p = 0 := by
  rcases h.bytes p with hb | ⟨-, hb | hb⟩
  · rw [hb, hp]
  · exact hb
  · rw [hb, hp]
    rfl

theorem Rewritten.fills (h : Rewritten W m m') (hm : A.Fills m) : A.Fills m' := by
  rw [fills_iff] at hm ⊢
  intro p
  rcases hm p with hp | hp
  · exact Or.inl (h.nul hp)
  · exact h.ok hp

theorem Rewritten.spells {s : Nat} (h : Rewritten W m m') (hs : A.Spells (strAt m s)) : A.Spells (strAt m' s) := by
  intro b hb
  obtain ⟨p, hp, rfl, hno⟩ := mem_strAt hb
  have hlt : p < s + (strAt m s).length := by
    by_contra hge
    exact hno _ (Nat.le_add_right _ _) (Nat.le_of_not_lt hge) (h.nul (byteAt_strAt_end m s))
  have hmem : byteAt m p ∈ strAt m s := byteAt_mem_strAt hp hlt
  rcases h.ok (hs _ hmem) with h0 | hok
  · exact absurd h0 (hno p hp (Nat.le_refl p))
  · exact hok

/-! ## Lists -/

theorem drop_eq_cons {b : Byte} {rest : List Byte} {current : Nat} (h : b :: rest = m.drop current) :
    byteAt m current = b ∧ rest = m.drop (current + 1) := by
  have hat := byteAt_drop m current 0
  rw [← h] at hat
  have hdrop := List.drop_drop (i := 1) (j := current) (l := m)
  rw [← h] at hdrop
  exact ⟨hat.symm, hdrop⟩

theorem stop_starts {lenLimit start len s : Nat} (h : s ∈ (parseListLoop.stop lenLimit start len).starts) :
    s = start := by
  unfold parseListLoop.stop at h
  split at h
  · cases h
  split at h
  · cases h
  · exact List.mem_singleton.mp h

theorem parseListLoop_fenced {lenLimit z : Nat} (hz : byteAt m z = 0) (rest : List Byte) (current start len : Nat)
    (hrest : rest = m.drop current) (hle : current ≤ z) (hcomma : current = z ∨ byteAt m (z - 1) ≠ ch ',')
    (hstart : start ≤ current) :
    (∀ s ∈ (parseListLoop lenLimit rest current start len).starts, start ≤ s ∧ s ≤ z) ∧
      ∀ p ∈ (parseListLoop lenLimit rest current start len).nuls, current ≤ p ∧ p < z := by
  -- Behind a comma the fence is two bytes off.
  have hstep : ∀ {current}, byteAt m current = ch ',' → current ≤ z → (current = z ∨ byteAt m (z - 1) ≠ ch ',') →
      current + 2 ≤ z ∧ byteAt m (z - 1) ≠ ch ',' := by
    intro current hc hle hcomma
    have hne : current ≠ z := by
      rintro rfl
      rw [hz] at hc
      exact absurd hc (by decide)
    have hlast := hcomma.resolve_left hne
    have hne' : current ≠ z - 1 := by
      rintro rfl
      exact hlast hc
    exact ⟨by omega, hlast⟩
  induction rest, current, start, len using parseListLoop.induct lenLimit with
  | case1 current start len =>
    rw [parseListLoop]
    refine ⟨fun s hs => ?_, fun p hp => ?_⟩
    · rw [stop_starts hs]
      omega
    · rw [stop_nuls] at hp
      cases hp
  | case2 rest current start len =>
    rw [parseListLoop_nul]
    refine ⟨fun s hs => ?_, fun p hp => ?_⟩
    · rw [stop_starts hs]
      omega
    · rw [stop_nuls] at hp
      cases hp
  | case3 rest current start len hlim hne =>
    obtain ⟨hb, -⟩ := drop_eq_cons hrest
    obtain ⟨htwo, -⟩ := hstep hb hle hcomma
    rw [parseListLoop_comma_zero _ _ _ _ hlim]
    refine ⟨fun s hs => ?_, fun p hp => ?_⟩
    · rw [List.mem_singleton.mp hs]
      omega
    · rw [List.mem_singleton.mp hp]
      omega
  | case4 current start len hlim hne =>
    obtain ⟨hb, -⟩ := drop_eq_cons hrest
    obtain ⟨htwo, -⟩ := hstep hb hle hcomma
    rw [parseListLoop_comma_nil _ _ _ hlim, Split.push]
    refine ⟨fun s hs => ?_, fun p hp => ?_⟩
    · rcases List.mem_cons.mp hs with rfl | hs
      · omega
      · rw [stop_starts hs]
        omega
    · rw [stop_nuls, List.mem_singleton] at hp
      omega
  | case5 current start len hlim b rest hne ih =>
    obtain ⟨hb, hdrop⟩ := drop_eq_cons hrest
    obtain ⟨-, hdrop⟩ := drop_eq_cons hdrop
    obtain ⟨htwo, hlast⟩ := hstep hb hle hcomma
    obtain ⟨hs', hp'⟩ := ih hdrop htwo (Or.inr hlast) (by omega)
    rw [parseListLoop_comma _ _ _ _ hlim, Split.push]
    refine ⟨fun s hs => ?_, fun p hp => ?_⟩
    · rcases List.mem_cons.mp hs with rfl | hs
      · omega
      · have := hs' s hs
        omega
    · rcases List.mem_cons.mp hp with rfl | hp
      · omega
      · have := hp' p hp
        omega
  | case6 b rest current start len hb hc hbig =>
    rw [parseListLoop_char _ _ _ _ hb hc, if_pos hbig]
    exact ⟨List.forall_mem_nil _, List.forall_mem_nil _⟩
  | case7 b rest current start len hb hc hbig ih =>
    obtain ⟨hat, hdrop⟩ := drop_eq_cons hrest
    have hne : current ≠ z := by
      rintro rfl
      exact hb (hat.symm.trans hz)
    obtain ⟨hs', hp'⟩ := ih hdrop (by omega) (Or.inr (hcomma.resolve_left hne)) (by omega)
    rw [parseListLoop_char _ _ _ _ hb hc, if_neg hbig]
    refine ⟨hs', fun p hp => ?_⟩
    have := hp' p hp
    omega

theorem byteAt_putNuls (m : Mem) (nuls : List Nat) (p : Nat) :
    byteAt (putNuls m nuls) p = if p ∈ nuls then 0 else byteAt m p := by
  induction nuls generalizing m with
  | nil => rfl
  | cons q nuls ih =>
    have hput : putNuls m (q :: nuls) = putNuls (m.set q 0) nuls := rfl
    rw [hput, ih]
    by_cases hmem : p ∈ nuls
    · rw [if_pos hmem, if_pos (List.mem_cons_of_mem _ hmem)]
    · rw [if_neg hmem]
      unfold byteAt
      rw [List.getD_eq_getElem?_getD, List.getD_eq_getElem?_getD, List.getElem?_set]
      by_cases hpq : q = p
      · subst hpq
        rw [if_pos rfl, if_pos List.mem_cons_self]
        split <;> rfl
      · rw [if_neg hpq, if_neg]
        rw [List.mem_cons, not_or]
        exact ⟨fun h => hpq h.symm, hmem⟩

theorem putNuls_rewritten {nuls : List Nat} (h : ∀ p ∈ nuls, W p) : Rewritten W m (putNuls m nuls) := by
  refine ⟨putNuls_length nuls, fun p => ?_⟩
  rw [byteAt_putNuls]
  split
  · rename_i hp
    exact Or.inr ⟨h p hp, Or.inl rfl⟩
  · exact Or.inl rfl

theorem byteAt_write_lower (m : Mem) (val p : Nat) :
    byteAt (write m val (lower (strAt m val))) p =
      if val ≤ p ∧ p < val + (strAt m val).length then toLower (byteAt m p) else byteAt m p := by
  by_cases hval : val ≤ m.length
  · obtain ⟨tail, htail⟩ : strAt m val <+: m.drop val := List.takeWhile_prefix _
    have hsplit : m = m.take val ++ (strAt m val ++ tail) := by rw [htail, List.take_append_drop]
    have hlen : (m.take val).length = val := List.length_take_of_le hval
    generalize m.take val = pre at hsplit hlen
    generalize strAt m val = v at hsplit ⊢
    subst hlen
    rw [hsplit, write_lower]
    unfold byteAt
    simp only [List.getD_eq_getElem?_getD, List.getElem?_append, lower, List.length_map, List.getElem?_map]
    by_cases hp : p < pre.length
    · rw [if_pos hp, if_pos hp, if_neg (by omega)]
    · rw [if_neg hp, if_neg hp]
      by_cases hv : p - pre.length < v.length
      · rw [if_pos hv, if_pos hv, if_pos (by omega), List.getElem?_eq_getElem hv]
        rfl
      · rw [if_neg hv, if_neg hv, if_neg (by omega)]
  · -- Nothing is read or written behind the memory.
    have hnil : strAt m val = [] := by
      unfold strAt
      rw [List.drop_eq_nil_of_le (by omega)]
      rfl
    rw [hnil, if_neg (by simp)]
    exact congrArg (byteAt · p) (write_nil m val)

theorem length_write_lower (m : Mem) (val : Nat) : (write m val (lower (strAt m val))).length = m.length := by
  have hle : (strAt m val).length ≤ (m.drop val).length := (List.takeWhile_prefix _).length_le
  rw [List.length_drop] at hle
  unfold write
  simp only [List.length_append, List.length_take, List.length_drop, lower, List.length_map]
  omega

theorem lower_rewritten {val : Nat} (h : ∀ p, val ≤ p → p < val + (strAt m val).length → W p) :
    Rewritten W m (write m val (lower (strAt m val))) := by
  refine ⟨length_write_lower m val, fun p => ?_⟩
  rw [byteAt_write_lower]
  split
  · rename_i hp
    exact Or.inr ⟨h p hp.1 hp.2, Or.inr rfl⟩
  · exact Or.inl rfl

/-- The list at `val` is fenced in by a NUL, within the first `n` bytes, that no comma leads
over. Up to that there are only bytes of the alphabet. -/
def Fence (A : Alphabet) (W : Nat → Prop) (n : Nat) (m : Mem) (val : Nat) : Prop :=
  ∃ z, val ≤ z ∧ z < n ∧ byteAt m z = 0 ∧ (val = z ∨ byteAt m (z - 1) ≠ ch ',') ∧
    ∀ p, val ≤ p → p < z → W p ∧ (byteAt m p = 0 ∨ A.ok (byteAt m p) = true)

theorem Fence.rewritten {W' : Nat → Prop} {val : Nat} (hf : Fence A W n m val) (h : Rewritten W' m m') :
    Fence A W n m' val := by
  obtain ⟨z, hle, hlt, hz, hcomma, hbytes⟩ := hf
  refine ⟨z, hle, hlt, h.nul hz, hcomma.imp_right fun hne heq => ?_, fun p hp hpz => ?_⟩
  · rcases h.bytes (z - 1) with hb | ⟨-, hb | hb⟩
    · exact hne (hb.symm.trans heq)
    · rw [hb] at heq
      exact absurd heq (by decide)
    · exact hne (toLower_eq_comma _ (hb.symm.trans heq))
  · obtain ⟨hw, hb⟩ := hbytes p hp hpz
    rcases hb with hb | hb
    · exact ⟨hw, Or.inl (h.nul hb)⟩
    · exact ⟨hw, h.ok hb⟩

theorem Fence.lower {val : Nat} (hf : Fence A W n m val) : Rewritten W m (write m val (lower (strAt m val))) := by
  obtain ⟨z, hle, -, hz, -, hbytes⟩ := hf
  have hlen := strAt_length_le hle hz
  exact lower_rewritten fun p hp hpl => (hbytes p hp (by omega)).1

theorem Fence.split {val : Nat} (hf : Fence A W n m val) (lenLimit : Nat) :
    Rewritten W m (putNuls m (parseListToArrayWithChecks m val lenLimit).nuls) ∧
      ∀ s ∈ (parseListToArrayWithChecks m val lenLimit).starts,
        A.Spells (strAt (putNuls m (parseListToArrayWithChecks m val lenLimit).nuls) s) := by
  obtain ⟨z, hle, -, hz, hcomma, hbytes⟩ := hf
  obtain ⟨hstarts, hnuls⟩ := @parseListLoop_fenced m lenLimit z hz (m.drop val) val val 0 rfl hle hcomma (Nat.le_refl _)
  have hrw : Rewritten W m (putNuls m (parseListToArrayWithChecks m val lenLimit).nuls) :=
    putNuls_rewritten fun p hp => (hbytes p (hnuls p hp).1 (hnuls p hp).2).1
  refine ⟨hrw, fun s hs b hb => ?_⟩
  obtain ⟨hvs, hsz⟩ := hstarts s hs
  obtain ⟨p, hsp, rfl, hno⟩ := mem_strAt hb
  have hpz : p < z := by
    by_contra hge
    exact hno z hsz (Nat.le_of_not_lt hge) (hrw.nul hz)
  have hne := hno p hsp (Nat.le_refl p)
  rcases (hbytes p (Nat.le_trans hvs hsp) hpz).2 with hb | hb
  · exact absurd (hrw.nul hb) hne
  · exact (hrw.ok hb).resolve_left hne

theorem Alphabet.Fills.spells (h : A.Fills m) (s : Nat) : A.Spells (strAt m s) := by
  intro b hb
  obtain ⟨p, hsp, rfl, hno⟩ := mem_strAt hb
  exact (h.byteAt p).resolve_left (hno p hsp (Nat.le_refl p))

/-! ## Messages -/

/-- The keys that lie within the first `n` bytes end there, and none is written to. -/
def KeysKept (W : Nat → Prop) (n : Nat) (m : Mem) (es : List Entry) : Prop :=
  ∀ e ∈ es, (e.key < n → e.key + (strAt m e.key).length < n) ∧
    ∀ p, e.key ≤ p → p ≤ e.key + (strAt m e.key).length → ¬ W p

/-- All of the message is of the alphabet, or its lists are and are fenced in. -/
def Guarded (A : Alphabet) (n : Nat) (m : Mem) (es : List Entry) : Prop :=
  A.Fills m ∨ ∃ W : Nat → Prop, (∀ p, W p → p < n) ∧ KeysKept W n m es ∧
    ∀ e ∈ es, isListKey (strAt m e.key) = true → Fence A W n m e.val

variable {es : List Entry} {e : Entry}

theorem KeysKept.same (h : KeysKept W n m es) (hrw : Rewritten W m m') : ∀ e ∈ es, strAt m' e.key = strAt m e.key := by
  intro e he
  refine strAt_congr fun p hp hpl => ?_
  rcases hrw.bytes p with hb | ⟨hw, -⟩
  · exact hb
  · exact absurd hw ((h e he).2 p hp hpl)

theorem Guarded.rewritten (hw : ∀ p, W p → p < n) (hkeys : KeysKept W n m es)
    (hf : ∀ e ∈ es, isListKey (strAt m e.key) = true → Fence A W n m e.val) (h : Rewritten W m m') :
    Guarded A n m' es := by
  have hsame := hkeys.same h
  refine Or.inr ⟨W, hw, fun e he => ?_, fun e he hlist => ?_⟩
  · rw [hsame e he]
    exact hkeys e he
  · rw [hsame e he] at hlist
    exact (hf e he hlist).rewritten h

/-- Where the elements start of the list that a field is, if it is one. -/
def fieldStarts (key val : Nat) (m : Mem) : List Nat :=
  if caseEq (strAt m key) (ascii "Alias") then
    (parseListToArrayWithChecks (write m val (lower (strAt m val))) val HOSTALIASZ).starts
  else if caseEq (strAt m key) (ascii "Context") then (parseListToArrayWithChecks m val CONTEXTSZ).starts
  else []

theorem contextAliasMem_rewritten (key val : Nat) (m : Mem) :
    Rewritten (fun _ => True) m (contextAliasMem key val m) := by
  unfold contextAliasMem
  split
  · exact (lower_rewritten fun _ _ _ => trivial).trans (putNuls_rewritten fun _ _ => trivial)
  split
  · exact putNuls_rewritten fun _ _ => trivial
  · exact Rewritten.refl _ m

theorem Guarded.field (hg : Guarded A n m es) (he : e ∈ es) :
    Guarded A n (contextAliasMem e.key e.val m) es ∧
      ∀ s ∈ fieldStarts e.key e.val m, A.Spells (strAt (contextAliasMem e.key e.val m) s) := by
  rcases hg with hfill | ⟨W, hw, hkeys, hf⟩
  · have hfill' := (contextAliasMem_rewritten e.key e.val m).fills hfill
    exact ⟨Or.inl hfill', fun s _ => hfill'.spells s⟩
  · unfold contextAliasMem fieldStarts
    split
    · rename_i halias
      have hfence := hf e he (by rw [isListKey, halias, Bool.true_or])
      obtain ⟨hrw, hspells⟩ := (hfence.rewritten hfence.lower).split HOSTALIASZ
      exact ⟨Guarded.rewritten hw hkeys hf (hfence.lower.trans hrw), hspells⟩
    split
    · rename_i hcontext
      have hfence := hf e he (by rw [isListKey, hcontext, Bool.or_true])
      obtain ⟨hrw, hspells⟩ := hfence.split CONTEXTSZ
      exact ⟨Guarded.rewritten hw hkeys hf hrw, hspells⟩
    · exact ⟨Or.inr ⟨W, hw, hkeys, hf⟩, nofun⟩

/-- The lists read so far are of the alphabet. -/
def Lists.Spelled (A : Alphabet) (st : Lists) : Prop := ∀ s, s ∈ st.aliases ∨ s ∈ st.contexts → A.Spells (strAt st.mem s)

theorem processContextAlias_ok {key val : Nat} {st ls : Lists} (h : processContextAlias key val st = .ok ls) :
    ls.mem = contextAliasMem key val st.mem ∧
      ∀ s, s ∈ ls.aliases ∨ s ∈ ls.contexts →
        (s ∈ st.aliases ∨ s ∈ st.contexts) ∨ s ∈ fieldStarts key val st.mem := by
  unfold processContextAlias at h
  unfold contextAliasMem fieldStarts
  simp only at h
  split at h
  · rename_i halias
    rw [if_pos halias, if_pos halias]
    split at h
    · cases h
      refine ⟨rfl, fun s hs => ?_⟩
      rcases hs with hs | hs
      · rcases List.mem_append.mp hs with hs | hs
        · exact Or.inl (Or.inl hs)
        · exact Or.inr hs
      · exact Or.inl (Or.inr hs)
    · split at h <;> cases h
  rename_i halias
  rw [if_neg halias, if_neg halias]
  split at h
  · rename_i hcontext
    rw [if_pos hcontext, if_pos hcontext]
    split at h
    · cases h
      refine ⟨rfl, fun s hs => ?_⟩
      rcases hs with hs | hs
      · exact Or.inl (Or.inl hs)
      · rcases List.mem_append.mp hs with hs | hs
        · exact Or.inl (Or.inr hs)
        · exact Or.inr hs
    · split at h <;> cases h
  · rename_i hcontext
    rw [if_neg hcontext, if_neg hcontext]
    cases h
    exact ⟨rfl, fun s hs => Or.inl hs⟩

theorem Guarded.list {st ls : Lists} (hg : Guarded A n st.mem es) (he : e ∈ es) (hst : st.Spelled A)
    (h : processContextAlias e.key e.val st = .ok ls) : Guarded A n ls.mem es ∧ ls.Spelled A := by
  obtain ⟨hmem, hstarts⟩ := processContextAlias_ok h
  obtain ⟨hguard, hnew⟩ := hg.field he
  refine ⟨by rw [hmem]; exact hguard, fun s hs => ?_⟩
  rw [hmem]
  rcases hstarts s hs with hold | hs
  · exact (contextAliasMem_rewritten e.key e.val st.mem).spells (hst s hold)
  · exact hnew s hs

/-- The tokens of the entries. -/
def entryPtr (es : List Entry) : List Nat := es.flatMap fun e => [e.key, e.val]

theorem entryPtr_cons (e : Entry) (es : List Entry) : entryPtr (e :: es) = e.key :: e.val :: entryPtr es := rfl

variable {httpd : Httpd}

theorem Guarded.appFields {es' : List Entry} (hsub : ∀ e ∈ es', e ∈ es) {st : Lists} {route : Str} {r : Str × Lists}
    (hg : Guarded A n st.mem es) (hst : st.Spelled A)
    (h : ModCluster.appFields httpd (entryPtr es') route st = .ok r) : r.2.Spelled A := by
  induction es' generalizing st route with
  | nil =>
    cases h
    exact hst
  | cons e es' ih =>
    rw [entryPtr_cons, ModCluster.appFields] at h
    split at h
    · cases h
    split at h
    · rename_i ls hls
      obtain ⟨hg', hst'⟩ := hg.list (hsub e List.mem_cons_self) hst hls
      exact ih (fun x hx => hsub x (List.mem_cons_of_mem _ hx)) hg' hst' h
    · cases h

theorem Guarded.parseApp {glob : Bool} {args : AppArgs} (hg : Guarded A n m es)
    (h : ModCluster.parseApp httpd glob ⟨m, entryPtr es⟩ = .ok args) :
    (∀ a ∈ args.aliases, A.Spells a) ∧ ∀ c ∈ args.contexts, A.Spells c := by
  unfold ModCluster.parseApp at h
  split at h
  · cases h
  rename_i route st hst
  have hspelled : st.Spelled A := Guarded.appFields (r := (route, st)) (fun _ he => he) hg (fun s hs => by simp at hs) hst
  split at h
  · cases h
  split at h
  · cases h
  split at h
  · cases h
  split at h
  · cases h
  cases h
  refine ⟨fun a ha => ?_, fun c hc => ?_⟩
  · obtain ⟨s, hs, rfl⟩ := List.mem_map.mp ha
    exact hspelled s (Or.inl hs)
  · obtain ⟨s, hs, rfl⟩ := List.mem_map.mp hc
    exact hspelled s (Or.inr hs)

theorem Guarded.fieldsMem {es' : List Entry} (hsub : ∀ e ∈ es', e ∈ es) (hg : Guarded A n m es) :
    Guarded A n (ModCluster.fieldsMem httpd (entryPtr es') m) es := by
  induction es' generalizing m with
  | nil => exact hg
  | cons e es' ih =>
    rw [entryPtr_cons, ModCluster.fieldsMem]
    split
    · exact hg
    split
    · exact ih (fun x hx => hsub x (List.mem_cons_of_mem _ hx)) (hg.field (hsub e List.mem_cons_self)).1
    · exact (hg.field (hsub e List.mem_cons_self)).1

/-! ## Nodes of a domain -/

/-- The first `n` bytes are the same. -/
def SameUpTo (n : Nat) (m m' : Mem) : Prop := ∀ p < n, byteAt m' p = byteAt m p

theorem sameUpTo_append (m tail : Mem) : SameUpTo m.length m (m ++ tail) := by
  intro p hp
  unfold byteAt
  rw [List.getD_eq_getElem?_getD, List.getD_eq_getElem?_getD, List.getElem?_append_left hp]

theorem sameUpTo_take (m : Mem) (n : Nat) : SameUpTo n m (m.take n) := by
  intro p hp
  unfold byteAt
  rw [List.getD_eq_getElem?_getD, List.getD_eq_getElem?_getD, List.getElem?_take_of_lt hp]

theorem SameUpTo.fence {val : Nat} (h : SameUpTo n m m') (hf : Fence A W n m val) : Fence A W n m' val := by
  obtain ⟨z, hle, hlt, hz, hcomma, hbytes⟩ := hf
  refine ⟨z, hle, hlt, by rw [h z hlt, hz], hcomma.imp_right fun hne => ?_, fun p hp hpz => ?_⟩
  · rw [h (z - 1) (by omega)]
    exact hne
  · rw [h p (by omega)]
    exact hbytes p hp hpz

theorem SameUpTo.key {key : Nat} (h : SameUpTo n m m') (hkey : key + (strAt m key).length < n) :
    strAt m' key = strAt m key :=
  strAt_congr fun p _ hp => h p (by omega)

theorem SameUpTo.keysKept (h : SameUpTo n m m') (hes : ∀ e ∈ es, e.key < n) (hk : KeysKept W n m es) :
    KeysKept W n m' es := by
  intro e he
  rw [h.key ((hk e he).1 (hes e he))]
  exact hk e he

theorem SameUpTo.lists (h : SameUpTo n m m') (hes : ∀ e ∈ es, e.key < n) (hk : KeysKept W n m es)
    (hf : ∀ e ∈ es, isListKey (strAt m e.key) = true → Fence A W n m e.val) :
    ∀ e ∈ es, isListKey (strAt m' e.key) = true → Fence A W n m' e.val := by
  intro e he hlist
  rw [h.key ((hk e he).1 (hes e he))] at hlist
  exact h.fence (hf e he hlist)

theorem Guarded.withRoute {route : Str} (hg : Guarded A m.length m es) (hes : ∀ e ∈ es, e.key < m.length)
    (hroute : A.Spells route) :
    Guarded A m.length (ModCluster.withRoute ⟨m, entryPtr es⟩ route).mem (es ++ [⟨m.length, m.length + 9⟩]) := by
  have hmem : (ModCluster.withRoute ⟨m, entryPtr es⟩ route).mem = m ++ (ascii "JVMRoute" ++ 0 :: (route ++ [0])) := by
    simp [ModCluster.withRoute]
  rw [hmem]
  rcases hg with hfill | ⟨W, hw, hkeys, hf⟩
  · refine Or.inl fun b hb => ?_
    rcases List.mem_append.mp hb with hb | hb
    · exact hfill b hb
    · rcases List.mem_append.mp hb with hb | hb
      · exact Or.inr (A.fixed _ (by simp [fixedNames]) b hb)
      · rcases List.mem_cons.mp hb with hb | hb
        · exact Or.inl hb
        · rcases List.mem_append.mp hb with hb | hb
          · exact Or.inr (hroute b hb)
          · exact Or.inl (List.mem_singleton.mp hb)
  · have hsame := sameUpTo_append m (ascii "JVMRoute" ++ 0 :: (route ++ [0]))
    have hkey : strAt (m ++ (ascii "JVMRoute" ++ 0 :: (route ++ [0]))) m.length = ascii "JVMRoute" :=
      strAt_token (by decide) m _
    refine Or.inr ⟨W, hw, fun e he => ?_, fun e he hlist => ?_⟩
    · rcases List.mem_append.mp he with he | he
      · exact hsame.keysKept hes hkeys e he
      · rw [List.mem_singleton.mp he]
        refine ⟨fun h => absurd h (Nat.lt_irrefl _), fun p hp _ hwp => ?_⟩
        exact absurd (hw p hwp) (Nat.not_lt_of_le hp)
    · rcases List.mem_append.mp he with he | he
      · exact hsame.lists hes hkeys hf e he hlist
      · rw [List.mem_singleton.mp he, hkey] at hlist
        exact absurd hlist (by decide)

theorem Guarded.take {more : List Entry} (hg : Guarded A n m (es ++ more)) (hes : ∀ e ∈ es, e.key < n) :
    Guarded A n (m.take n) es := by
  rcases hg with hfill | ⟨W, hw, hkeys, hf⟩
  · exact Or.inl fun b hb => hfill b (List.mem_of_mem_take hb)
  · have hsame := sameUpTo_take m n
    have hkeys' : KeysKept W n m es := fun e he => hkeys e (List.mem_append_left _ he)
    exact Or.inr ⟨W, hw, hsame.keysKept hes hkeys',
      hsame.lists hes hkeys' fun e he => hf e (List.mem_append_left _ he)⟩

end ModCluster
