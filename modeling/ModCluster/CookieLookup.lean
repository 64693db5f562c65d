import ModCluster.Lib.PointerLoop
import ModCluster.Session

/-!
# Looking up a cookie

`get_cookie_param` goes over the occurrences of the name in the Cookie header. One that
fails behind a delimiter sends the pointer over the white space behind it and one byte
further, past an occurrence that may stand there, or past the end of the header.
-/

open CString PointerLoop

namespace ModCluster

/-! ## The loop, turn by turn -/

def cookieTurn (cookies : Mem) (name : Str) (start : Nat) : Option Str ⊕ Nat :=
  match strstr (strAt cookies start) name with
  | none => .inl none
  | some k =>
    let p := start + k
    if startsCookie cookies p then
      let q := skipSpaces cookies cookies.length (p + name.length)
      if byteAt cookies q = ch '=' ∧ byteAt cookies (q + 1) ≠ 0 then .inl (some (cookieValue (strAt cookies (q + 1))))
      else .inr (q + 1)
    else .inr (p + 1)

/-- The bytes that one turn reads. -/
def cookieReads (cookies : Mem) (name : Str) (start : Nat) : List Nat :=
  let searched := List.range' start ((strAt cookies start).length + 1)
  match strstr (strAt cookies start) name with
  | none => searched
  | some k =>
    let p := start + k
    let behind := if p = 0 then [] else [p - 1]
    if startsCookie cookies p then
      let q := skipSpaces cookies cookies.length (p + name.length)
      let skipped := List.range' (p + name.length) (q + 1 - (p + name.length))
      let value := if byteAt cookies q = ch '=' then List.range' (q + 1) ((strAt cookies (q + 1)).length + 1) else []
      searched ++ behind ++ skipped ++ value
    else searched ++ behind

/-- What the lookup returns, and the pointers it searches from. -/
def cookieLookup (cookies : Mem) (name : Str) : Option (Option Str × List Nat) :=
  run (cookieTurn cookies name) (cookies.length + 1) 0

section Loop

variable {cookies : Mem} {name : Str} {start q : Nat}

theorem cookieLoop_eq (cookies : Mem) (name : Str) (fuel start : Nat) :
    cookieLoop cookies name fuel start = (run (cookieTurn cookies name) fuel start).bind Prod.fst := by
  induction fuel generalizing start with
  | zero => rfl
  | succ fuel ih =>
    have hmap : ∀ p, ((run (cookieTurn cookies name) fuel p).map fun out => (out.1, start :: out.2)).bind Prod.fst =
        cookieLoop cookies name fuel p := by
      intro p
      rw [ih]
      cases run (cookieTurn cookies name) fuel p <;> rfl
    rw [cookieLoop, run, cookieTurn]
    cases strstr (strAt cookies start) name with
    | none => rfl
    | some k =>
      simp only
      split
      · split
        · rfl
        · exact (hmap _).symm
      · exact (hmap _).symm

/-- The lookup is the loop of `get_cookie_param`. -/
theorem getCookieParam_eq (cookies : Mem) (name : Str) :
    getCookieParam (some cookies) name = (cookieLookup cookies name).bind Prod.fst :=
  cookieLoop_eq cookies name (cookies.length + 1) 0

theorem skipSpaces_eq (m : Mem) (fuel p : Nat) (hfuel : ((m.drop p).takeWhile isSpace).length ≤ fuel) :
    skipSpaces m fuel p = p + ((m.drop p).takeWhile isSpace).length := by
  induction fuel generalizing p with
  | zero => rw [skipSpaces, Nat.le_zero.mp hfuel, Nat.add_zero]
  | succ fuel ih =>
    rw [skipSpaces]
    cases hrest : m.drop p with
    | nil =>
      rw [byteAt_of_length_le (List.drop_eq_nil_iff.mp hrest)]
      rfl
    | cons b rest =>
      have hnext := drop_succ_of_drop hrest
      rw [byteAt_of_drop hrest]
      cases hspace : isSpace b with
      | false =>
        rw [if_neg Bool.false_ne_true, List.takeWhile_cons_of_neg (by rw [hspace]; exact Bool.false_ne_true)]
        rfl
      | true =>
        rw [hrest, List.takeWhile_cons_of_pos hspace, List.length_cons] at hfuel
        have := ih (p + 1) (by rw [hnext]; omega)
        rw [if_pos rfl, this, hnext, List.takeWhile_cons_of_pos hspace, List.length_cons]
        omega

theorem le_skipSpaces (m : Mem) (fuel p : Nat) : p ≤ skipSpaces m fuel p := by
  induction fuel generalizing p with
  | zero => exact Nat.le_refl p
  | succ fuel ih =>
    rw [skipSpaces]
    split
    · exact (Nat.le_succ p).trans (ih (p + 1))
    · exact Nat.le_refl p

theorem takeWhile_isSpace_inside {p : Nat} (hle : p ≤ (strAt cookies 0).length) :
    (cookies.drop p).takeWhile isSpace = ((strAt cookies 0).drop p).takeWhile isSpace := by
  have hrest : (cookies.dropWhile (· != 0)).takeWhile isSpace = [] := by
    have hnil := takeWhile_dropWhile (· != 0) cookies
    cases hrest : cookies.dropWhile (· != 0) with
    | nil => rfl
    | cons b rest =>
      have hb : b = 0 := by
        by_contra hne
        rw [hrest, List.takeWhile_cons_of_pos (p := fun x => x != 0) (bne_iff_ne.mpr hne)] at hnil
        cases hnil
      rw [hb]
      rfl
  conv_lhs => rw [← strAt_append_rest cookies]
  rw [List.drop_append_of_le_length hle, List.takeWhile_append, hrest, List.append_nil]
  split
  · rename_i hall
    exact (List.takeWhile_prefix isSpace).eq_of_length hall |>.symm
  · rfl

theorem startsCookie_inside (hle : start ≤ (strAt cookies 0).length) :
    startsCookie cookies start = startsCookie (strAt cookies 0) start := by
  unfold startsCookie
  rw [byteAt_inside (p := start - 1) (by omega)]

end Loop

/-! ## What is looked for -/

/-- One pair of enclosing quotes is removed. -/
def unquote (v : Str) : Str :=
  if 2 ≤ v.length ∧ v.head? = some (ch '"') ∧ v.getLast? = some (ch '"') then (v.drop 1).dropLast else v

/-- The name stands at `i` with the value `v`. -/
def CookieAt (h name : Str) (i : Nat) (v : Str) : Prop :=
  OccursAt h name i ∧
    (i = 0 ∨ byteAt h (i - 1) = ch ';' ∨ byteAt h (i - 1) = ch ',' ∨ isSpace (byteAt h (i - 1))) ∧
    ∃ spaces rest, h.drop (i + name.length) = spaces ++ ch '=' :: rest ∧ (∀ b ∈ spaces, isSpace b) ∧ rest ≠ [] ∧
      v = rest.takeWhile fun b => b != ch ';' && b != ch ','

def FirstCookie (h name v : Str) : Prop :=
  ∃ i, CookieAt h name i v ∧ ∀ j < i, ∀ v', ¬ CookieAt h name j v'

/-- The lookup ends, reads no byte outside the header and returns the first value. -/
def LooksUpCookie (cookies : Mem) (name : Str) : Prop :=
  ∃ found passed, cookieLookup cookies name = some (found, passed) ∧
    (∀ p ∈ passed.flatMap (cookieReads cookies name), p ≤ (strAt cookies 0).length) ∧
    (∀ v, found = some v ↔ ∃ raw, FirstCookie (strAt cookies 0) name raw ∧ v = unquote raw) ∧
    (found = none ↔ ∀ i v, ¬ CookieAt (strAt cookies 0) name i v)

/-! ## What the loop does with an occurrence -/

/-- Where the white space behind the name ends. -/
def afterSpaces (h name : Str) (i : Nat) : Nat :=
  i + name.length + ((h.drop (i + name.length)).takeWhile isSpace).length

/-- An occurrence in the header ends the loop with its value, or tells where to look next. -/
def cookieJudge (h name : Str) (i : Nat) : Str ⊕ Nat :=
  if startsCookie h i then
    let q := afterSpaces h name i
    if byteAt h q = ch '=' ∧ byteAt h (q + 1) ≠ 0 then .inl (cookieValue (h.drop (q + 1))) else .inr (q + 1)
  else .inr (i + 1)

/-- The occurrences that the loop tries. -/
abbrev TriedCookie (h name : Str) : Nat → Prop := Tried (OccursAt h name) (cookieJudge h name)

/-- As the code removes quotes: one quote is a pair. -/
def stripQuotes (v : Str) : Str := if v = [ch '"'] then [] else unquote v

section Judge

variable {cookies : Mem} {h name : Str} {start i : Nat} {v : Str}

theorem afterSpaces_le (hname : name ≠ []) (hi : OccursAt h name i) : afterSpaces h name i ≤ h.length := by
  have hend := hi.end_le hname
  have hle := (List.takeWhile_prefix isSpace (l := h.drop (i + name.length))).length_le
  rw [List.length_drop] at hle
  unfold afterSpaces
  omega

theorem skipSpaces_inside (hname : name ≠ []) (hi : OccursAt (strAt cookies 0) name i) :
    skipSpaces cookies cookies.length (i + name.length) = afterSpaces (strAt cookies 0) name i := by
  rw [skipSpaces_eq, takeWhile_isSpace_inside (hi.end_le hname)]
  · rfl
  · exact (List.takeWhile_prefix isSpace).length_le.trans (List.drop_suffix _ _).length_le

theorem cookieTurn_goesOver (hname : name ≠ []) :
    GoesOver (OccursAt (strAt cookies 0) name) (cookieJudge (strAt cookies 0) name) (cookieTurn cookies name)
      (strAt cookies 0).length where
  missing := by
    intro start hle hnone
    rw [cookieTurn, strAt_drop hle, strstr_missing hname hnone]
  found := by
    intro start i hle hi
    have hlt := hi.2.1.lt_length hname
    have hq := afterSpaces_le hname hi.2.1
    rw [cookieTurn, strAt_drop hle, strstr_firstFrom hname hi]
    simp only
    rw [Nat.add_sub_cancel' hi.1, startsCookie_inside hlt.le, skipSpaces_inside hname hi.2.1, cookieJudge]
    cases startsCookie (strAt cookies 0) i with
    | false => rfl
    | true =>
      simp only [if_true]
      rw [byteAt_inside hq]
      by_cases heq : byteAt (strAt cookies 0) (afterSpaces (strAt cookies 0) name i) = ch '='
      · have hinside := lt_length_of_byteAt (p := afterSpaces (strAt cookies 0) name i) (by rw [heq]; decide)
        rw [byteAt_inside hinside, strAt_drop hinside]
        split <;> rfl
      · rw [if_neg fun h => heq h.1, if_neg fun h => heq h.1]
        rfl
  inside := fun i hi => hi.lt_length hname
  forward := by
    intro start q hturn
    unfold cookieTurn at hturn
    split at hturn
    · cases hturn
    · rename_i k _
      simp only at hturn
      have hle := le_skipSpaces cookies cookies.length (start + k + name.length)
      split at hturn
      · split at hturn
        · cases hturn
        · cases hturn
          omega
      · cases hturn
        omega

theorem cookieReads_inside (hname : name ≠ []) :
    (∀ p ∈ cookieReads cookies name start, p ≤ (strAt cookies 0).length) ↔ start ≤ (strAt cookies 0).length := by
  have hstart : start ∈ cookieReads cookies name start := by
    have hmem : start ∈ List.range' start ((strAt cookies start).length + 1) := by simp
    unfold cookieReads
    simp only
    split
    · exact hmem
    · split
      · simp only [List.mem_append]
        exact Or.inl (Or.inl (Or.inl hmem))
      · exact List.mem_append_left _ hmem
  refine ⟨fun hall => hall start hstart, fun hle => ?_⟩
  have hsearched : ∀ p ∈ List.range' start ((strAt cookies start).length + 1), p ≤ (strAt cookies 0).length := by
    intro p hp
    rw [List.mem_range'_1, strAt_drop hle, List.length_drop] at hp
    omega
  unfold cookieReads
  simp only
  cases hfind : strstr (strAt cookies start) name with
  | none => exact hsearched
  | some k =>
    rw [strAt_drop hle, strstr_eq_some, occursAt_drop] at hfind
    have hend := hfind.2.1.end_le hname
    have hq := afterSpaces_le hname hfind.2.1
    have hbehind : ∀ p ∈ (if start + k = 0 then [] else [start + k - 1]), p ≤ (strAt cookies 0).length := by
      split
      · exact List.forall_mem_nil _
      · intro p hp
        rw [List.mem_singleton.mp hp]
        omega
    simp only
    rw [skipSpaces_inside hname hfind.2.1]
    split
    · have hskipped : ∀ p ∈ List.range' (start + k + name.length)
          (afterSpaces (strAt cookies 0) name (start + k) + 1 - (start + k + name.length)),
          p ≤ (strAt cookies 0).length := by
        intro p hp
        rw [List.mem_range'_1] at hp
        omega
      have hvalue : ∀ p ∈ (if byteAt cookies (afterSpaces (strAt cookies 0) name (start + k)) = ch '=' then
          List.range' (afterSpaces (strAt cookies 0) name (start + k) + 1)
            ((strAt cookies (afterSpaces (strAt cookies 0) name (start + k) + 1)).length + 1) else []),
          p ≤ (strAt cookies 0).length := by
        split
        · rename_i heq
          rw [byteAt_inside hq] at heq
          have hinside := lt_length_of_byteAt (m := strAt cookies 0) (by rw [heq]; decide)
          intro p hp
          rw [List.mem_range'_1, strAt_drop hinside, List.length_drop] at hp
          omega
        · exact List.forall_mem_nil _
      intro p hp
      rw [List.mem_append, List.mem_append, List.mem_append] at hp
      rcases hp with ((hp | hp) | hp) | hp
      · exact hsearched p hp
      · exact hbehind p hp
      · exact hskipped p hp
      · exact hvalue p hp
    · intro p hp
      rcases List.mem_append.mp hp with hp | hp
      · exact hsearched p hp
      · exact hbehind p hp

theorem startsCookie_iff : startsCookie h i = true ↔
    (i = 0 ∨ byteAt h (i - 1) = ch ';' ∨ byteAt h (i - 1) = ch ',' ∨ isSpace (byteAt h (i - 1))) := by
  unfold startsCookie
  rw [Bool.or_eq_true, Bool.or_eq_true, Bool.or_eq_true, beq_iff_eq, beq_iff_eq, beq_iff_eq, or_assoc, or_assoc]

theorem cookieValue_eq (rest : Str) :
    cookieValue rest = stripQuotes (rest.takeWhile fun b => b != ch ';' && b != ch ',') := by
  have htake : (rest.takeWhile (· != ch ';')).takeWhile (· != ch ',') =
      rest.takeWhile fun b => b != ch ';' && b != ch ',' := by
    rw [List.takeWhile_takeWhile]
    congr 1
    funext b
    rw [Bool.eq_iff_iff]
    simp [and_comm]
  unfold cookieValue stripQuotes unquote
  rw [htake]
  generalize (rest.takeWhile fun b => b != ch ';' && b != ch ',') = v
  cases v with
  | nil => rfl
  | cons b v =>
    cases v with
    | nil =>
      by_cases hb : b = ch '"'
      · simp [hb]
      · simp [hb]
    | cons c v => simp

theorem cookieJudge_inl (hnul : 0 ∉ h) (hi : OccursAt h name i) {a : Str} :
    cookieJudge h name i = .inl a ↔ ∃ v, CookieAt h name i v ∧ a = stripQuotes v := by
  unfold cookieJudge CookieAt
  rw [← startsCookie_iff]
  cases hstarts : startsCookie h i with
  | false => simp
  | true =>
    simp only [if_true, hi, true_and]
    have hsplit : h.drop (i + name.length) =
        (h.drop (i + name.length)).takeWhile isSpace ++ h.drop (afterSpaces h name i) := by
      have hspaces := List.takeWhile_prefix isSpace (l := h.drop (i + name.length))
      rw [afterSpaces, ← List.drop_drop (j := i + name.length), List.prefix_iff_eq_append.mp hspaces]
    have hall : ∀ b ∈ (h.drop (i + name.length)).takeWhile isSpace, isSpace b = true := fun b hb =>
      List.mem_takeWhile_imp hb
    constructor
    · intro hjudge
      split at hjudge
      · rename_i hvalue
        obtain ⟨heq, hne⟩ := hvalue
        have hlt := lt_length_of_byteAt (m := h) (by rw [heq]; decide)
        have hlt' := lt_length_of_byteAt hne
        have hrest : h.drop (afterSpaces h name i) = ch '=' :: h.drop (afterSpaces h name i + 1) := by
          rw [drop_eq_byteAt_cons hlt, heq]
        refine ⟨_, ⟨_, _, hsplit.trans (by rw [hrest]), hall, ?_, rfl⟩, ?_⟩
        · rw [Ne, List.drop_eq_nil_iff]
          omega
        · rw [← cookieValue_eq]
          exact (Sum.inl.inj hjudge).symm
      · cases hjudge
    · rintro ⟨v, ⟨spaces, rest, hdrop, hspaces, hne, rfl⟩, rfl⟩
      -- The white space ends at the equals sign.
      have htake : (h.drop (i + name.length)).takeWhile isSpace = spaces := by
        rw [hdrop, List.takeWhile_append_of_pos hspaces, List.takeWhile_cons_of_neg (by decide), List.append_nil]
      have hrest : h.drop (afterSpaces h name i) = ch '=' :: rest := by
        rw [htake] at hsplit
        exact List.append_cancel_left (hsplit.symm.trans hdrop)
      have hrest' := drop_succ_of_drop hrest
      have hnonzero : byteAt h (afterSpaces h name i + 1) ≠ 0 := by
        obtain ⟨b, rest', hcons⟩ := List.exists_cons_of_ne_nil hne
        rw [byteAt_of_drop (hrest'.trans hcons)]
        rintro rfl
        exact hnul (List.mem_of_mem_drop (hrest'.trans hcons ▸ List.mem_cons_self))
      rw [if_pos ⟨byteAt_of_drop hrest, hnonzero⟩, hrest', cookieValue_eq]

theorem cookieJudge_inr (hnul : 0 ∉ h) (hi : OccursAt h name i) {t : Nat} :
    cookieJudge h name i = .inr t ↔
      startsCookie h i = false ∧ t = i + 1 ∨
        startsCookie h i = true ∧ (∀ v, ¬ CookieAt h name i v) ∧ t = afterSpaces h name i + 1 := by
  cases hstarts : startsCookie h i with
  | false =>
    unfold cookieJudge
    rw [hstarts]
    simp [eq_comm]
  | true =>
    have hnone : (∀ v, ¬ CookieAt h name i v) ↔ ∀ a, cookieJudge h name i ≠ .inl a :=
      ⟨fun hno a ha => by
        obtain ⟨v, hv, -⟩ := (cookieJudge_inl hnul hi).mp ha
        exact hno v hv,
      fun hno v hv => hno _ ((cookieJudge_inl hnul hi).mpr ⟨v, hv, rfl⟩)⟩
    rw [hnone]
    unfold cookieJudge
    rw [hstarts]
    simp only [if_true]
    split
    · simp
    · simp [eq_comm]

/-- No occurrence that the loop tries sends it out of the header, and the first value it comes to is the one
of the first cookie. -/
structure ScansCookies (h name : Str) : Prop where
  inside : ∀ i, TriedCookie h name i → startsCookie h i → (∀ v, ¬ CookieAt h name i v) → afterSpaces h name i < h.length
  same : ∀ v, FirstCookie h name v → ∃ i v', TriedCookie h name i ∧ CookieAt h name i v' ∧ stripQuotes v' = unquote v

theorem stays_inside_iff (hname : name ≠ []) (hnul : 0 ∉ h) :
    (∀ i t, TriedCookie h name i → cookieJudge h name i = .inr t → t ≤ h.length) ↔
      ∀ i, TriedCookie h name i → startsCookie h i → (∀ v, ¬ CookieAt h name i v) → afterSpaces h name i < h.length := by
  constructor
  · intro hstays i hi hstarts hno
    exact hstays i _ hi ((cookieJudge_inr hnul hi.isOccurrence).mpr (Or.inr ⟨hstarts, hno, rfl⟩))
  · intro hinside i t hi hjudge
    rcases (cookieJudge_inr hnul hi.isOccurrence).mp hjudge with ⟨-, rfl⟩ | ⟨hstarts, hno, rfl⟩
    · exact hi.isOccurrence.lt_length hname
    · exact hinside i hi hstarts hno

theorem exists_firstCookie (hi : CookieAt h name i v) : ∃ v, FirstCookie h name v := by
  classical
  have hex : ∃ i, ∃ v, CookieAt h name i v := ⟨i, v, hi⟩
  obtain ⟨v, hv⟩ := Nat.find_spec hex
  exact ⟨v, Nat.find hex, hv, fun j hj v' hv' => Nat.find_min hex hj ⟨v', hv'⟩⟩

end Judge

theorem cookieLookup_ends (cookies : Mem) {name : Str} (hname : name ≠ []) :
    ∃ found passed, cookieLookup cookies name = some (found, passed) := by
  have hmoves : ∀ p q, cookieTurn cookies name p = .inr q → p < q ∧ p < cookies.length := by
    intro p q hturn
    refine ⟨(cookieTurn_goesOver hname).forward p q hturn, ?_⟩
    -- The name is found in what stands at the pointer.
    by_contra hle
    have hnil : strAt cookies p = [] := by
      rw [strAt, List.drop_eq_nil_of_le (Nat.le_of_not_lt hle)]
      rfl
    have hnone : strstr [] name = none := by
      rw [strstr_eq_none hname]
      intro k hk
      exact absurd (hk.lt_length hname) (Nat.not_lt_zero k)
    rw [cookieTurn, hnil, hnone] at hturn
    cases hturn
  obtain ⟨⟨found, passed⟩, hrun⟩ := run_ends hmoves (Nat.succ_pos cookies.length) (p := 0) (by omega)
  exact ⟨found, passed, hrun⟩

/-- The lookup is exact and stays in the header if and only if no candidate that fails at the end of the header is
tried and the first cookie with a value is not passed over. -/
theorem looksUpCookie_iff (cookies : Mem) (name : Str) (hname : name ≠ []) :
    LooksUpCookie cookies name ↔ ScansCookies (strAt cookies 0) name := by
  have hnul : (0 : Byte) ∉ strAt cookies 0 := fun hmem => ne_zero_of_mem_strAt hmem rfl
  have hover := @cookieTurn_goesOver cookies _ hname
  obtain ⟨found, passed, hrun⟩ := cookieLookup_ends cookies hname
  obtain ⟨hpassed, hends⟩ := run_spec hrun
  have hreads : (∀ p ∈ passed.flatMap (cookieReads cookies name), p ≤ (strAt cookies 0).length) ↔
      ∀ i, TriedCookie (strAt cookies 0) name i → startsCookie (strAt cookies 0) i →
        (∀ v, ¬ CookieAt (strAt cookies 0) name i v) →
          afterSpaces (strAt cookies 0) name i < (strAt cookies 0).length := by
    rw [← stays_inside_iff hname hnul, ← hover.stays_iff]
    simp only [List.mem_flatMap, forall_exists_index, and_imp, ← hpassed]
    constructor
    · intro hall start hstart
      exact (cookieReads_inside hname).mp fun p hp => hall p start hstart hp
    · intro hall p start hstart hp
      exact (cookieReads_inside hname).mpr (hall start hstart) p hp
  -- What is found is the value of the cookie that is tried.
  have hfound : (∀ start, Passes (cookieTurn cookies name) 0 start → start ≤ (strAt cookies 0).length) →
      ∀ a, found = some a ↔ ∃ i v, TriedCookie (strAt cookies 0) name i ∧ CookieAt (strAt cookies 0) name i v ∧
        stripQuotes v = a := by
    intro hstays a
    rw [hover.ends_iff hstays hends]
    constructor
    · rintro ⟨i, hi, hjudge⟩
      obtain ⟨v, hv, rfl⟩ := (cookieJudge_inl hnul hi.isOccurrence).mp hjudge
      exact ⟨i, v, hi, hv, rfl⟩
    · rintro ⟨i, v, hi, hv, rfl⟩
      exact ⟨i, hi, (cookieJudge_inl hnul hi.isOccurrence).mpr ⟨v, hv, rfl⟩⟩
  constructor
  · rintro ⟨found', passed', hrun', hinside, hsome, -⟩
    rw [hrun] at hrun'
    cases hrun'
    have hinside' := hreads.mp hinside
    refine ⟨hinside', fun v hv => ?_⟩
    exact (hfound (hover.stays_iff.mpr ((stays_inside_iff hname hnul).mpr hinside')) _).mp
      ((hsome _).mpr ⟨v, hv, rfl⟩)
  · rintro ⟨hinside, hsame⟩
    have hfound' := hfound (hover.stays_iff.mpr ((stays_inside_iff hname hnul).mpr hinside))
    have hfirst : ∀ v, FirstCookie (strAt cookies 0) name v → found = some (unquote v) := by
      intro v hv
      obtain ⟨i, v', hi, hv', heq⟩ := hsame v hv
      exact (hfound' _).mpr ⟨i, v', hi, hv', heq⟩
    refine ⟨found, passed, hrun, hreads.mpr hinside, fun a => ⟨fun ha => ?_, ?_⟩, fun hnone i v hv => ?_, fun hno => ?_⟩
    · obtain ⟨i, v, -, hv, -⟩ := (hfound' a).mp ha
      obtain ⟨raw, hraw⟩ := exists_firstCookie hv
      refine ⟨raw, hraw, ?_⟩
      have hsome := hfirst raw hraw
      rw [ha] at hsome
      exact Option.some.inj hsome
    · rintro ⟨raw, hraw, rfl⟩
      exact hfirst raw hraw
    · obtain ⟨raw, hraw⟩ := exists_firstCookie hv
      have hsome := hfirst raw hraw
      rw [hnone] at hsome
      cases hsome
    · cases hf : found with
      | none => rfl
      | some a =>
        obtain ⟨i, v, -, hv, -⟩ := (hfound' a).mp hf
        exact absurd hv (hno i v)

/-! ## A candidate in front of the cookie -/

section Example

theorem cookieAt_id {h : Str} {i : Nat} (hocc : OccursAt h (ascii "id") i) (hstarts : startsCookie h i = true)
    (hrest : h.drop (i + 2) = ascii "=5") : CookieAt h (ascii "id") i (ascii "5") :=
  ⟨hocc, startsCookie_iff.mp hstarts, [], ascii "5", hrest, List.forall_mem_nil _, by decide, by decide⟩

/-- A header with the cookie alone. -/
theorem sole_cookie_found : LooksUpCookie (ascii "id=5") (ascii "id") := by
  refine (looksUpCookie_iff (ascii "id=5") (ascii "id") (by decide)).mpr ?_
  have hcookie : CookieAt (strAt (ascii "id=5") 0) (ascii "id") 0 (ascii "5") :=
    cookieAt_id (by decide) (by decide) (by decide)
  have hfirst : FirstFrom (OccursAt (strAt (ascii "id=5") 0) (ascii "id")) 0 0 :=
    ⟨Nat.le_refl 0, by decide, fun j _ hj => absurd hj (Nat.not_lt_zero j)⟩
  have hjudge : cookieJudge (strAt (ascii "id=5") 0) (ascii "id") 0 = .inl (ascii "5") := by decide
  have htried : ∀ i, TriedCookie (strAt (ascii "id=5") 0) (ascii "id") i → i = 0 := by
    intro i hi
    induction hi with
    | first hi => exact hi.unique hfirst
    | next _ hnext _ ih =>
      rw [ih, hjudge] at hnext
      cases hnext
  constructor
  · intro i hi _ hno
    rw [htried i hi] at hno
    exact absurd hcookie (hno _)
  · rintro v ⟨i, hi, hleast⟩
    have hzero : i = 0 := by
      by_contra hne
      exact hleast 0 (Nat.pos_of_ne_zero hne) _ hcookie
    subst hzero
    have hstrip : cookieJudge (strAt (ascii "id=5") 0) (ascii "id") 0 = .inl (stripQuotes v) :=
      (cookieJudge_inl (by decide) hfirst.2.1).mpr ⟨v, hi, rfl⟩
    rw [hjudge] at hstrip
    have hv : v ≠ [ch '"'] := by
      rintro rfl
      exact absurd hstrip (by decide)
    exact ⟨0, v, Tried.first hfirst, hi, if_neg hv⟩

/-- A name in front of the cookie hides it, and a name at the end of the header leads past it. -/
theorem cookie_passed_over :
    ¬ LooksUpCookie (ascii "id id=5") (ascii "id") ∧ ¬ LooksUpCookie (ascii "id") (ascii "id") := by
  constructor
  · rintro ⟨found, passed, hrun, -, -, hnone⟩
    have hlookup : cookieLookup (ascii "id id=5") (ascii "id") = some (none, [0, 4]) := by decide
    rw [hlookup] at hrun
    cases hrun
    exact hnone.mp rfl 3 (ascii "5") (cookieAt_id (by decide) (by decide) (by decide))
  · rintro ⟨found, passed, hrun, hinside, -⟩
    have hlookup : cookieLookup (ascii "id") (ascii "id") = some (none, [0, 3]) := by decide
    rw [hlookup] at hrun
    cases hrun
    exact absurd (hinside 3 (by decide)) (by decide)

end Example

end ModCluster
