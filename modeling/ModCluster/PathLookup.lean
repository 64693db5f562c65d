import ModCluster.Lib.PointerLoop
import ModCluster.Session

/-!
# Looking up a path parameter

`get_path_param` looks one byte behind each occurrence of the name, and goes on behind
the occurrences that follow a semicolon and fail. The value is the first token of what
follows the equals sign.
-/

open CString PointerLoop

namespace ModCluster

/-! ## The loop, turn by turn -/

def pathTurn (url : Text) (name : Str) (start : Nat) : Option (Option Str) ⊕ Nat :=
  match strstr (strAt url.mem start) name with
  | none => .inl none
  | some k =>
    let p := start + k
    if byteAt (url.before :: url.mem) p = ch ';' then
      let q := p + name.length
      if byteAt url.mem q = ch '=' then
        if byteAt url.mem (q + 1) ≠ 0 then .inl (some (strtok pathdelims (strAt url.mem (q + 1)))) else .inr (q + 2)
      else .inr (q + 1)
    else .inr (p + 1)

/-- The bytes that one turn reads, counted from the start of the URL. -/
def pathReads (url : Text) (name : Str) (start : Nat) : List Int :=
  let searched := (List.range' start ((strAt url.mem start).length + 1)).map Int.ofNat
  match strstr (strAt url.mem start) name with
  | none => searched
  | some k =>
    let p := start + k
    if byteAt (url.before :: url.mem) p = ch ';' then
      let q := p + name.length
      let value := if byteAt url.mem q = ch '=' then
          (List.range' (q + 1) ((strAt url.mem (q + 1)).length + 1)).map Int.ofNat
        else []
      searched ++ [(p : Int) - 1, (q : Int)] ++ value
    else searched ++ [(p : Int) - 1]

/-- What the lookup returns, and the pointers it searches from. -/
def pathLookup (url : Text) (name : Str) : Option (Option (Option Str) × List Nat) :=
  run (pathTurn url name) (url.mem.length + 1) 0

/-! ## What is looked for -/

/-- The name stands at `i` with the value `v`. -/
def ParamAt (h name : Str) (i : Nat) (v : Str) : Prop :=
  OccursAt h name i ∧ i ≠ 0 ∧ byteAt h (i - 1) = ch ';' ∧
    ∃ rest, h.drop (i + name.length) = ch '=' :: rest ∧ v = rest.takeWhile (fun b => !pathdelims.contains b) ∧ v ≠ []

def FirstParam (h name v : Str) : Prop :=
  ∃ i, ParamAt h name i v ∧ ∀ j < i, ∀ v', ¬ ParamAt h name j v'

/-- The lookup ends, reads no byte outside the URL and returns the first value. -/
def LooksUpParam (url : Text) (name : Str) : Prop :=
  ∃ found passed, pathLookup url name = some (found, passed) ∧
    (∀ p ∈ passed.flatMap (pathReads url name), 0 ≤ p ∧ p ≤ url.str.length) ∧
    (∀ v, found.join = some v ↔ FirstParam url.str name v) ∧
    (found.join = none ↔ ∀ i v, ¬ ParamAt url.str name i v)

/-! ## What the loop does with an occurrence -/

/-- An occurrence behind the start of the URL ends the loop with a token, or tells where to look next. -/
def pathJudge (h name : Str) (i : Nat) : Option Str ⊕ Nat :=
  if byteAt h (i - 1) = ch ';' then
    let q := i + name.length
    if byteAt h q = ch '=' then
      if byteAt h (q + 1) ≠ 0 then .inl (strtok pathdelims (h.drop (q + 1))) else .inr (q + 2)
    else .inr (q + 1)
  else .inr (i + 1)

/-- The occurrences that the loop tries. -/
abbrev TriedParam (h name : Str) : Nat → Prop := Tried (OccursAt h name) (pathJudge h name)

/-- An occurrence that is tried stands between a semicolon and `=`, and `rest` follows. -/
def TriedWith (h name : Str) (i : Nat) (rest : Str) : Prop :=
  TriedParam h name i ∧ byteAt h (i - 1) = ch ';' ∧ h.drop (i + name.length) = ch '=' :: rest

/-- The URL does not start with the name, no occurrence behind a semicolon that is tried stands at the end, and the
token behind the one that ends the loop is the first value. -/
structure ScansParams (h name : Str) : Prop where
  start : ¬ OccursAt h name 0
  inside : ∀ i, TriedParam h name i → byteAt h (i - 1) = ch ';' →
    h.drop (i + name.length) ≠ [] ∧ h.drop (i + name.length) ≠ [ch '=']
  same : ∀ v, FirstParam h name v → ∃ i rest, TriedWith h name i rest ∧ strtok pathdelims rest = some v
  missing : (∀ i v, ¬ ParamAt h name i v) → ∀ i rest, TriedWith h name i rest → ∀ b ∈ rest, b ∈ pathdelims

section Loop

variable {url : Text} {h name : Str} {start i : Nat} {v : Str}

theorem pathLoop_eq (url : Text) (name : Str) (fuel start : Nat) :
    pathLoop url name fuel start = ((run (pathTurn url name) fuel start).bind Prod.fst).join := by
  induction fuel generalizing start with
  | zero => rfl
  | succ fuel ih =>
    have hmap : ∀ p, (((run (pathTurn url name) fuel p).map fun out => (out.1, start :: out.2)).bind Prod.fst).join =
        pathLoop url name fuel p := by
      intro p
      rw [ih]
      cases run (pathTurn url name) fuel p <;> rfl
    rw [pathLoop, run, pathTurn]
    cases strstr (strAt url.mem start) name with
    | none => rfl
    | some k =>
      simp only
      split
      · split
        · split
          · rfl
          · exact (hmap _).symm
        · exact (hmap _).symm
      · exact (hmap _).symm

/-- The lookup is the loop of `get_path_param`. -/
theorem getPathParam_eq (url : Text) (name : Str) :
    getPathParam url name = ((pathLookup url name).bind Prod.fst).join :=
  pathLoop_eq url name (url.mem.length + 1) 0

theorem byteAt_behind (hi : i ≠ 0) : byteAt (url.before :: url.mem) i = byteAt url.mem (i - 1) := by
  obtain ⟨j, rfl⟩ := Nat.exists_eq_succ_of_ne_zero hi
  rfl

theorem pathTurn_goesOver (hname : name ≠ []) (hstart : ¬ OccursAt url.str name 0) :
    GoesOver (OccursAt url.str name) (pathJudge url.str name) (pathTurn url name) url.str.length where
  missing := by
    intro start hle hnone
    rw [pathTurn, strAt_drop hle]
    have hmissing : strstr (url.str.drop start) name = none := strstr_missing hname hnone
    rw [Text.str] at hmissing
    rw [hmissing]
  found := by
    intro start i hle hi
    have hlt := hi.2.1.lt_length hname
    have hend := hi.2.1.end_le hname
    have hpos : i ≠ 0 := by
      rintro rfl
      exact hstart hi.2.1
    have hfound : strstr (url.str.drop start) name = some (i - start) := strstr_firstFrom hname hi
    rw [pathTurn, strAt_drop hle]
    rw [Text.str] at hfound hlt hend ⊢
    rw [hfound]
    simp only
    rw [Nat.add_sub_cancel' hi.1, byteAt_behind hpos, byteAt_inside (p := i - 1) (by omega), byteAt_inside hend, pathJudge]
    simp only
    by_cases hsemi : byteAt (strAt url.mem 0) (i - 1) = ch ';'
    · rw [if_pos hsemi, if_pos hsemi]
      by_cases heq : byteAt (strAt url.mem 0) (i + name.length) = ch '='
      · have hinside := lt_length_of_byteAt (m := strAt url.mem 0) (p := i + name.length) (by rw [heq]; decide)
        rw [if_pos heq, if_pos heq, byteAt_inside hinside, strAt_drop hinside]
        by_cases hzero : byteAt (strAt url.mem 0) (i + name.length + 1) = 0
        · rw [if_neg (not_not_intro hzero), if_neg (not_not_intro hzero)]
          rfl
        · rw [if_pos hzero, if_pos hzero]
          rfl
      · rw [if_neg heq, if_neg heq]
        rfl
    · rw [if_neg hsemi, if_neg hsemi]
      rfl
  inside := fun i hi => hi.lt_length hname
  forward := by
    intro start q hturn
    unfold pathTurn at hturn
    split at hturn
    · cases hturn
    · simp only at hturn
      split at hturn
      · split at hturn
        · split at hturn
          · cases hturn
          · cases hturn
            omega
        · cases hturn
          omega
      · cases hturn
        omega

theorem mem_pathReads_start (url : Text) (name : Str) (start : Nat) : (start : Int) ∈ pathReads url name start := by
  have hmem : (start : Int) ∈ (List.range' start ((strAt url.mem start).length + 1)).map Int.ofNat :=
    List.mem_map_of_mem (by simp)
  unfold pathReads
  simp only
  split
  · exact hmem
  · split
    · exact List.mem_append_left _ (List.mem_append_left _ hmem)
    · exact List.mem_append_left _ hmem

theorem mem_pathReads_before (hname : name ≠ []) (hocc : OccursAt url.str name 0) : (-1 : Int) ∈ pathReads url name 0 := by
  have hfirst : FirstFrom (OccursAt url.str name) 0 0 := ⟨Nat.le_refl 0, hocc, fun j _ hj => absurd hj (Nat.not_lt_zero j)⟩
  have hfound := strstr_firstFrom hname hfirst
  rw [List.drop_zero, Nat.sub_self] at hfound
  have hread : (-1 : Int) ∈ [((0 + 0 : Nat) : Int) - 1] := List.mem_singleton.mpr rfl
  have hread' : (-1 : Int) ∈ [((0 + 0 : Nat) : Int) - 1, ((0 + 0 + name.length : Nat) : Int)] :=
    List.mem_cons_self
  rw [Text.str] at hfound
  unfold pathReads
  rw [hfound]
  simp only
  split
  · exact List.mem_append_left _ (List.mem_append_right _ hread')
  · exact List.mem_append_right _ hread

theorem range_inside {a n len : Nat} (h : a + n ≤ len + 1) :
    ∀ p ∈ (List.range' a n).map Int.ofNat, 0 ≤ p ∧ p ≤ (len : Int) := by
  intro p hp
  obtain ⟨b, hb, rfl⟩ := List.mem_map.mp hp
  rw [List.mem_range'_1] at hb
  have hle : b ≤ len := by omega
  exact ⟨Int.natCast_nonneg b, Int.ofNat_le.mpr hle⟩

theorem pathReads_inside (hname : name ≠ []) (hstart : ¬ OccursAt url.str name 0) (hle : start ≤ url.str.length) :
    ∀ p ∈ pathReads url name start, 0 ≤ p ∧ p ≤ url.str.length := by
  rw [Text.str] at hstart hle ⊢
  have hsearched := @range_inside start ((strAt url.mem start).length + 1) (strAt url.mem 0).length
    (by rw [strAt_drop hle, List.length_drop]; omega)
  unfold pathReads
  simp only
  cases hfind : strstr (strAt url.mem start) name with
  | none => exact hsearched
  | some k =>
    rw [strAt_drop hle, strstr_eq_some, occursAt_drop] at hfind
    have hend := hfind.2.1.end_le hname
    have hpos : start + k ≠ 0 := by
      intro h0
      rw [h0] at hfind
      exact hstart hfind.2.1
    have hvalue : ∀ p ∈ (if byteAt url.mem (start + k + name.length) = ch '=' then
        (List.range' (start + k + name.length + 1) ((strAt url.mem (start + k + name.length + 1)).length + 1)).map
          Int.ofNat else []), 0 ≤ p ∧ p ≤ ((strAt url.mem 0).length : Int) := by
      split
      · rename_i heq
        rw [byteAt_inside hend] at heq
        have hinside := lt_length_of_byteAt (m := strAt url.mem 0) (p := start + k + name.length) (by rw [heq]; decide)
        refine range_inside ?_
        rw [strAt_drop hinside, List.length_drop]
        omega
      · exact List.forall_mem_nil _
    simp only
    split
    · intro p hp
      rw [List.mem_append, List.mem_append, List.mem_cons, List.mem_singleton] at hp
      rcases hp with (hp | rfl | rfl) | hp
      · exact hsearched p hp
      · omega
      · omega
      · exact hvalue p hp
    · intro p hp
      rw [List.mem_append, List.mem_singleton] at hp
      rcases hp with hp | rfl
      · exact hsearched p hp
      · omega

theorem pathJudge_inl (hnul : 0 ∉ h) {x : Option Str} :
    pathJudge h name i = .inl x ↔ byteAt h (i - 1) = ch ';' ∧
      ∃ rest, h.drop (i + name.length) = ch '=' :: rest ∧ rest ≠ [] ∧ x = strtok pathdelims rest := by
  unfold pathJudge
  by_cases hsemi : byteAt h (i - 1) = ch ';'
  · rw [if_pos hsemi]
    simp only [hsemi, true_and]
    constructor
    · intro hjudge
      split at hjudge
      · rename_i heq
        have hlt := lt_length_of_byteAt (m := h) (p := i + name.length) (by rw [heq]; decide)
        split at hjudge
        · rename_i hne
          have hlt' := lt_length_of_byteAt hne
          refine ⟨h.drop (i + name.length + 1), ?_, ?_, (Sum.inl.inj hjudge).symm⟩
          · rw [drop_eq_byteAt_cons hlt, heq]
          · rw [Ne, List.drop_eq_nil_iff]
            omega
        · cases hjudge
      · cases hjudge
    · rintro ⟨rest, hdrop, hne, rfl⟩
      have hrest := drop_succ_of_drop hdrop
      have hnonzero : byteAt h (i + name.length + 1) ≠ 0 := by
        obtain ⟨b, rest', hcons⟩ := List.exists_cons_of_ne_nil hne
        rw [byteAt_of_drop (hrest.trans hcons)]
        rintro rfl
        exact hnul (List.mem_of_mem_drop (hrest.trans hcons ▸ List.mem_cons_self))
      rw [if_pos (byteAt_of_drop hdrop), if_pos hnonzero, hrest]
  · rw [if_neg hsemi]
    simp [hsemi]

theorem stays_iff_inside (hname : name ≠ []) (hnul : 0 ∉ h) :
    (∀ i t, TriedParam h name i → pathJudge h name i = .inr t → t ≤ h.length) ↔
      ∀ i, TriedParam h name i → byteAt h (i - 1) = ch ';' →
        h.drop (i + name.length) ≠ [] ∧ h.drop (i + name.length) ≠ [ch '='] := by
  constructor
  · intro hstays i hi hsemi
    have hend := hi.isOccurrence.end_le hname
    refine ⟨fun hnil => ?_, fun hlone => ?_⟩
    · have hle : h.length ≤ i + name.length := List.drop_eq_nil_iff.mp hnil
      have hjudge : pathJudge h name i = .inr (i + name.length + 1) := by
        unfold pathJudge
        simp only
        rw [if_pos hsemi, byteAt_of_length_le hle]
        rfl
      have := hstays i _ hi hjudge
      omega
    · have hnext : h.drop (i + name.length + 1) = [] := drop_succ_of_drop hlone
      have hle : h.length ≤ i + name.length + 1 := List.drop_eq_nil_iff.mp hnext
      have hjudge : pathJudge h name i = .inr (i + name.length + 2) := by
        unfold pathJudge
        simp only
        rw [if_pos hsemi, byteAt_of_drop hlone, byteAt_of_length_le hle]
        rfl
      have := hstays i _ hi hjudge
      omega
  · intro hinside i t hi hjudge
    have hlt := hi.isOccurrence.lt_length hname
    have hend := hi.isOccurrence.end_le hname
    unfold pathJudge at hjudge
    simp only at hjudge
    split at hjudge
    · rename_i hsemi
      obtain ⟨hne, hlone⟩ := hinside i hi hsemi
      have hpos : i + name.length < h.length := by
        rw [Ne, List.drop_eq_nil_iff] at hne
        omega
      split at hjudge
      · rename_i heq
        split at hjudge
        · cases hjudge
        · rename_i hzero
          -- Only the end of the URL reads as NUL.
          have hlong : i + name.length + 1 ≠ h.length := by
            intro hlen
            refine hlone ?_
            rw [drop_eq_byteAt_cons hpos, heq, List.drop_eq_nil_of_le hlen.ge]
          have hget : byteAt h (i + name.length + 1) ∈ h := by
            rw [byteAt, List.getD_eq_getElem?_getD, List.getElem?_eq_getElem (by omega)]
            exact List.getElem_mem _
          rw [not_not.mp hzero] at hget
          exact absurd hget hnul
      · cases hjudge
        exact hpos
    · cases hjudge
      exact hlt

theorem strtok_eq_none (delims s : Str) : strtok delims s = none ↔ ∀ b ∈ s, b ∈ delims := by
  unfold strtok
  cases hrest : s.dropWhile delims.contains with
  | nil =>
    rw [List.dropWhile_eq_nil_iff] at hrest
    simp only [List.contains_iff_mem] at hrest
    exact iff_of_true rfl hrest
  | cons b rest =>
    refine iff_of_false (Option.some_ne_none _) fun hall => ?_
    rw [List.dropWhile_eq_nil_iff.mpr fun b hb => List.contains_iff_mem.mpr (hall b hb)] at hrest
    cases hrest

theorem exists_firstParam (hi : ParamAt h name i v) : ∃ v, FirstParam h name v := by
  classical
  have hex : ∃ i, ∃ v, ParamAt h name i v := ⟨i, v, hi⟩
  obtain ⟨v, hv⟩ := Nat.find_spec hex
  exact ⟨v, Nat.find hex, hv, fun j hj v' hv' => Nat.find_min hex hj ⟨v', hv'⟩⟩

end Loop

theorem pathLookup_ends (url : Text) {name : Str} (hname : name ≠ []) :
    ∃ found passed, pathLookup url name = some (found, passed) := by
  have hmoves : ∀ p q, pathTurn url name p = .inr q → p < q ∧ p < url.mem.length := by
    intro p q hturn
    unfold pathTurn at hturn
    split at hturn
    · cases hturn
    · rename_i k hfind
      have hinside : p < url.mem.length := by
        by_contra hle
        have hnil : strAt url.mem p = [] := by
          rw [strAt, List.drop_eq_nil_of_le (Nat.le_of_not_lt hle)]
          rfl
        rw [hnil, strstr_eq_some] at hfind
        exact absurd (hfind.2.1.lt_length hname) (Nat.not_lt_zero k)
      simp only at hturn
      split at hturn
      · split at hturn
        · split at hturn
          · cases hturn
          · cases hturn
            omega
        · cases hturn
          omega
      · cases hturn
        omega
  obtain ⟨⟨found, passed⟩, hrun⟩ := run_ends hmoves (Nat.succ_pos url.mem.length) (p := 0) (by omega)
  exact ⟨found, passed, hrun⟩

/-- The lookup is exact and stays in the URL if and only if the URL does not start with the name, no occurrence that
fails at the end is tried, and what is tried gives the first value. -/
theorem looksUpParam_iff (url : Text) (name : Str) (hname : name ≠ []) :
    LooksUpParam url name ↔ ScansParams url.str name := by
  have hnul : (0 : Byte) ∉ url.str := fun hmem => ne_zero_of_mem_strAt hmem rfl
  obtain ⟨found, passed, hrun⟩ := pathLookup_ends url hname
  obtain ⟨hpassed, hends⟩ := run_spec hrun
  -- What is found is the token behind the occurrence that is tried.
  have hfound : ¬ OccursAt url.str name 0 →
      (∀ start, Passes (pathTurn url name) 0 start → start ≤ url.str.length) →
      ∀ x, found = some x ↔ ∃ i rest, TriedWith url.str name i rest ∧ rest ≠ [] ∧ strtok pathdelims rest = x := by
    intro h0 hstays x
    rw [(pathTurn_goesOver hname h0).ends_iff hstays hends]
    simp only [pathJudge_inl hnul]
    constructor
    · rintro ⟨i, hi, hsemi, rest, hdrop, hne, rfl⟩
      exact ⟨i, rest, ⟨hi, hsemi, hdrop⟩, hne, rfl⟩
    · rintro ⟨i, rest, ⟨hi, hsemi, hdrop⟩, hne, rfl⟩
      exact ⟨i, hi, hsemi, rest, hdrop, hne, rfl⟩
  have hjoin : ∀ v, found.join = some v ↔ found = some (some v) := fun v => by
    rw [Option.join_eq_some_iff]
  constructor
  · rintro ⟨found', passed', hrun', hreads, hsome, hnone⟩
    rw [hrun] at hrun'
    cases hrun'
    have h0 : ¬ OccursAt url.str name 0 := by
      intro hocc
      have hmem : 0 ∈ passed := (hpassed 0).mpr (passes_iff.mpr (Or.inl rfl))
      have := (hreads (-1) (List.mem_flatMap.mpr ⟨0, hmem, mem_pathReads_before hname hocc⟩)).1
      omega
    have hstays : ∀ start, Passes (pathTurn url name) 0 start → start ≤ url.str.length := by
      intro start hpass
      have hmem := mem_pathReads_start url name start
      have := (hreads start (List.mem_flatMap.mpr ⟨start, (hpassed start).mpr hpass, hmem⟩)).2
      omega
    refine ⟨h0, (stays_iff_inside hname hnul).mp ((pathTurn_goesOver hname h0).stays_iff.mp hstays), fun v hv => ?_,
      fun hno i rest htried => ?_⟩
    · obtain ⟨i, rest, htried, -, htok⟩ := (hfound h0 hstays _).mp ((hjoin v).mp ((hsome v).mpr hv))
      exact ⟨i, rest, htried, htok⟩
    · by_cases hne : rest = []
      · rw [hne]
        exact List.forall_mem_nil _
      · have hx := (hfound h0 hstays _).mpr ⟨i, rest, htried, hne, rfl⟩
        have hnone' := hnone.mpr hno
        rw [hx] at hnone'
        exact (strtok_eq_none _ _).mp hnone'
  · rintro ⟨h0, hinside, hsame, hmissing⟩
    have hstays := (pathTurn_goesOver hname h0).stays_iff.mpr ((stays_iff_inside hname hnul).mpr hinside)
    have hfirst : ∀ v, FirstParam url.str name v → found.join = some v := by
      intro v hv
      obtain ⟨i, rest, htried, htok⟩ := hsame v hv
      refine (hjoin v).mpr ((hfound h0 hstays _).mpr ⟨i, rest, htried, ?_, htok⟩)
      rintro rfl
      cases htok
    have hsound : ∀ v, found.join = some v → ∃ v', FirstParam url.str name v' := by
      intro v hv
      obtain ⟨i, rest, htried, -, htok⟩ := (hfound h0 hstays _).mp ((hjoin v).mp hv)
      by_contra hno
      have hall := hmissing (fun i v hi => hno (exists_firstParam hi)) i rest htried
      rw [(strtok_eq_none _ _).mpr hall] at htok
      cases htok
    refine ⟨found, passed, hrun, fun p hp => ?_, fun v => ⟨fun hv => ?_, hfirst v⟩, fun hnone i v hi => ?_, fun hno => ?_⟩
    · obtain ⟨start, hstart, hp⟩ := List.mem_flatMap.mp hp
      exact pathReads_inside hname h0 (hstays start ((hpassed start).mp hstart)) p hp
    · obtain ⟨v', hv'⟩ := hsound v hv
      rw [hfirst v' hv'] at hv
      cases hv
      exact hv'
    · obtain ⟨v', hv'⟩ := exists_firstParam hi
      rw [hfirst v' hv'] at hnone
      cases hnone
    · cases hf : found.join with
      | none => rfl
      | some v =>
        obtain ⟨v', i, hi, -⟩ := hsound v hf
        exact absurd hi (hno i v')

/-! ## An empty value -/

section Example

/-- A URL with the parameter once. -/
theorem sole_param_found : LooksUpParam (Text.ofStr (ascii "/a;id=5")) (ascii "id") := by
  refine (looksUpParam_iff (Text.ofStr (ascii "/a;id=5")) (ascii "id") (by decide)).mpr ?_
  have hstr : (Text.ofStr (ascii "/a;id=5")).str = ascii "/a;id=5" := by decide
  rw [hstr]
  have hfirst : FirstFrom (OccursAt (ascii "/a;id=5") (ascii "id")) 0 3 :=
    ⟨Nat.zero_le 3, by decide, fun j _ hj => by
      have hall : ∀ j < 3, ¬ OccursAt (ascii "/a;id=5") (ascii "id") j := by decide
      exact hall j hj⟩
  have hjudge : pathJudge (ascii "/a;id=5") (ascii "id") 3 = .inl (some (ascii "5")) := by decide
  have htried : ∀ i, TriedParam (ascii "/a;id=5") (ascii "id") i → i = 3 := by
    intro i hi
    induction hi with
    | first hi => exact hi.unique hfirst
    | next _ hnext _ ih =>
      rw [ih, hjudge] at hnext
      cases hnext
  have hparam : ParamAt (ascii "/a;id=5") (ascii "id") 3 (ascii "5") :=
    ⟨by decide, by decide, by decide, ascii "5", by decide, by decide, by decide⟩
  have htriedWith : TriedWith (ascii "/a;id=5") (ascii "id") 3 (ascii "5") := ⟨Tried.first hfirst, by decide, by decide⟩
  refine ⟨by decide, fun i hi _ => ?_, fun v hv => ?_, fun hno => absurd hparam (hno _ _)⟩
  · rw [htried i hi]
    decide
  · obtain ⟨i, ⟨hocc, -, -, rest, hdrop, rfl, -⟩, hleast⟩ := hv
    have hi : i = 3 := by
      rcases Nat.lt_trichotomy i 3 with hlt | rfl | hgt
      · exact absurd hocc (hfirst.2.2 i (Nat.zero_le i) hlt)
      · rfl
      · exact absurd hparam (hleast 3 hgt _)
    subst hi
    have hrest : rest = ascii "5" := by
      have := hdrop.symm.trans htriedWith.2.2
      exact (List.cons.inj this).2
    rw [hrest]
    exact ⟨3, ascii "5", htriedWith, by decide⟩

/-- An empty value is not passed over: what stands behind it is returned. A URL that starts with the name has the
byte in front of it read. -/
theorem empty_param_not_passed_over :
    ¬ LooksUpParam (Text.ofStr (ascii "/a;id=;id=5")) (ascii "id") ∧ ¬ LooksUpParam (Text.ofStr (ascii "id")) (ascii "id") := by
  constructor
  · rintro ⟨found, passed, hrun, -, hsome, -⟩
    have hlookup : pathLookup (Text.ofStr (ascii "/a;id=;id=5")) (ascii "id") = some (some (some (ascii "id=5")), [0]) := by
      decide
    rw [hlookup] at hrun
    cases hrun
    obtain ⟨i, ⟨hocc, -, -, rest, hdrop, hv, -⟩, -⟩ := (hsome (ascii "id=5")).mp rfl
    have hvalues : ∀ i < 11, OccursAt (ascii "/a;id=;id=5") (ascii "id") i →
        ((ascii "/a;id=;id=5").drop (i + 3)).takeWhile (fun b => !pathdelims.contains b) ≠ ascii "id=5" := by
      decide
    have hrest : (ascii "/a;id=;id=5").drop (i + 3) = rest := drop_succ_of_drop hdrop
    refine hvalues i (hocc.lt_length (by decide)) hocc ?_
    rw [hrest, ← hv]
  · rintro ⟨found, passed, hrun, hreads, -⟩
    have hlookup : pathLookup (Text.ofStr (ascii "id")) (ascii "id") = some (none, [0, 1]) := by decide
    rw [hlookup] at hrun
    cases hrun
    exact absurd (hreads (-1) (by decide)) (by decide)

end Example

end ModCluster
