import ModCluster.CookieLookup
import ModCluster.FieldValues
import ModCluster.Handled
import ModCluster.PreRequest

/-!
# Removing a session

When a request is moved to another domain, `remove_session_route` is to take the session id
out of it. It goes by the name in the session-sticky note, which `cluster_get_sessionid`
writes: the name of the path parameter for an id that came from a cookie, and the name of
the cookie for an id that came from the path.
-/

open CString PointerLoop

namespace ModCluster

/-! ## Where a cookie is found -/

/-- The loop of `get_cookie_param`, which also starts that of `remove_session_route`: where
the name stands, and where the equals sign. -/
def cookiePlace (cookies : Mem) (name : Str) : (fuel : Nat) → (start : Nat) → Option (Nat × Nat)
  | 0, _ => none
  | fuel + 1, start =>
    match strstr (strAt cookies start) name with
    | none => none
    | some k =>
      let p := start + k
      if startsCookie cookies p then
        let q := skipSpaces cookies cookies.length (p + name.length)
        if byteAt cookies q = ch '=' ∧ byteAt cookies (q + 1) ≠ 0 then some (p, q)
        else cookiePlace cookies name fuel (q + 1)
      else cookiePlace cookies name fuel (p + 1)

/-- The first cookie of the header. -/
def firstPlace (cookies : Mem) (name : Str) : Option (Nat × Nat) := cookiePlace cookies name (cookies.length + 1) 0

/-- What stands behind the value at `q + 1`, from its delimiter on. -/
def behindValue (cookies : Mem) (q : Nat) : Str :=
  (strAt cookies (q + 1)).dropWhile fun b => b != ch ';' && b != ch ','

/-- What `remove_session_route` leaves behind the value: all from the next semicolon on,
and if there is none, from the next comma on. -/
def removalTail (cookies : Mem) (q : Nat) : Str :=
  match (strAt cookies (q + 1)).dropWhile (· != ch ';') with
  | [] => (strAt cookies (q + 1)).dropWhile (· != ch ',')
  | tail => tail

/-- Where the values of the further cookies of the name stand, from `start` on. -/
def laterPlaces (cookies : Mem) (name : Str) : (fuel : Nat) → (start : Nat) → List Nat
  | 0, _ => []
  | fuel + 1, start =>
    match strstr (strAt cookies start) name with
    | none => []
    | some k =>
      let p := start + k
      if startsCookie cookies p then
        let q := skipSpaces cookies cookies.length (p + name.length)
        if byteAt cookies q = ch '=' ∧ byteAt cookies (q + 1) ≠ 0 then q :: laterPlaces cookies name fuel (q + 2)
        else laterPlaces cookies name fuel (q + 1)
      else laterPlaces cookies name fuel (p + 1)

/-- What the code leaves of the header. -/
def withoutTails (cookies : Mem) (name : Str) (place : Nat × Nat) : Mem :=
  (strAt cookies 0).take (place.1 - 1) ++ removalTail cookies place.2 ++
    (laterPlaces cookies name (cookies.length + 1) (place.2 + 2)).flatMap (removalTail cookies)

section Loops

variable {cookies : Mem} {name : Str} {fuel fuel' start p q : Nat}

theorem cookieLoop_place (cookies : Mem) (name : Str) (fuel start : Nat) :
    cookieLoop cookies name fuel start =
      (cookiePlace cookies name fuel start).map fun place => cookieValue (strAt cookies (place.2 + 1)) := by
  induction fuel generalizing start with
  | zero => rfl
  | succ fuel ih =>
    rw [cookieLoop, cookiePlace]
    cases strstr (strAt cookies start) name with
    | none => rfl
    | some k =>
      simp only
      by_cases hstarts : startsCookie cookies (start + k) = true
      · rw [if_pos hstarts, if_pos hstarts]
        obtain ⟨q, hq⟩ : ∃ q, skipSpaces cookies cookies.length (start + k + name.length) = q := ⟨_, rfl⟩
        rw [hq]
        by_cases hvalue : byteAt cookies q = ch '=' ∧ byteAt cookies (q + 1) ≠ 0
        · rw [if_pos hvalue, if_pos hvalue]
          rfl
        · rw [if_neg hvalue, if_neg hvalue]
          exact ih _
      · rw [if_neg hstarts, if_neg hstarts]
        exact ih _

theorem lookup_place (cookies : Mem) (name : Str) :
    getCookieParam (some cookies) name =
      (firstPlace cookies name).map fun place => cookieValue (strAt cookies (place.2 + 1)) :=
  cookieLoop_place cookies name _ 0

theorem not_hasValue_behind (hp : cookies.length ≤ p) :
    let q := skipSpaces cookies cookies.length (p + name.length)
    ¬ (byteAt cookies q = ch '=' ∧ byteAt cookies (q + 1) ≠ 0) := by
  rintro q ⟨heq, -⟩
  have hle := le_skipSpaces cookies cookies.length (p + name.length)
  rw [byteAt_of_length_le (by omega)] at heq
  exact absurd heq (by decide)

theorem laterPlaces_behind (hstart : cookies.length ≤ start) : laterPlaces cookies name fuel start = [] := by
  induction fuel generalizing start with
  | zero => rfl
  | succ fuel ih =>
    rw [laterPlaces]
    cases strstr (strAt cookies start) name with
    | none => rfl
    | some k =>
      simp only
      have hle := le_skipSpaces cookies cookies.length (start + k + name.length)
      split
      · rw [if_neg (not_hasValue_behind (by omega))]
        exact ih (by omega)
      · exact ih (by omega)

theorem laterPlaces_fuel (hfuel : cookies.length ≤ fuel + start) (hfuel' : cookies.length ≤ fuel' + start) :
    laterPlaces cookies name fuel start = laterPlaces cookies name fuel' start := by
  induction fuel generalizing fuel' start with
  | zero =>
    rw [laterPlaces_behind (by omega), laterPlaces_behind (by omega)]
  | succ fuel ih =>
    cases fuel' with
    | zero => rw [laterPlaces_behind (by omega), laterPlaces_behind (by omega)]
    | succ fuel' =>
      rw [laterPlaces, laterPlaces]
      cases strstr (strAt cookies start) name with
      | none => rfl
      | some k =>
        simp only
        have hle := le_skipSpaces cookies cookies.length (start + k + name.length)
        by_cases hstarts : startsCookie cookies (start + k) = true
        · rw [if_pos hstarts, if_pos hstarts]
          obtain ⟨q, hq⟩ : ∃ q, skipSpaces cookies cookies.length (start + k + name.length) = q := ⟨_, rfl⟩
          rw [hq] at hle ⊢
          by_cases hvalue : byteAt cookies q = ch '=' ∧ byteAt cookies (q + 1) ≠ 0
          · rw [if_pos hvalue, if_pos hvalue, @ih fuel' _ (by omega) (by omega)]
          · rw [if_neg hvalue, if_neg hvalue]
            exact ih (by omega) (by omega)
        · rw [if_neg hstarts, if_neg hstarts]
          exact ih (by omega) (by omega)

theorem removeCookieLoop_later (hstart : 0 < start) (cut : Str) :
    removeCookieLoop cookies name fuel start (some cut) =
      some (cut ++ (laterPlaces cookies name fuel start).flatMap (removalTail cookies)) := by
  induction fuel generalizing start cut with
  | zero => rw [removeCookieLoop, laterPlaces, List.flatMap_nil, List.append_nil]
  | succ fuel ih =>
    rw [removeCookieLoop, laterPlaces]
    cases strstr (strAt cookies start) name with
    | none => simp only [List.flatMap_nil, List.append_nil]
    | some k =>
      simp only
      have hne : start + k ≠ 0 := by omega
      by_cases hstarts : startsCookie cookies (start + k) = true
      · rw [if_pos ⟨hstarts, Or.inl hne⟩, if_pos hstarts]
        obtain ⟨q, hq⟩ : ∃ q, skipSpaces cookies cookies.length (start + k + name.length) = q := ⟨_, rfl⟩
        rw [hq]
        by_cases hvalue : byteAt cookies q = ch '=' ∧ byteAt cookies (q + 1) ≠ 0
        · rw [if_pos hvalue, if_pos hvalue, ih (by omega), List.flatMap_cons, ← List.append_assoc]
          rfl
        · rw [if_neg hvalue, if_neg hvalue]
          exact ih (by omega) cut
      · rw [if_neg fun h => hstarts h.1, if_neg hstarts]
        exact ih (by omega) cut

theorem removeCookieLoop_eq (hfuel : cookies.length < fuel + start) :
    removeCookieLoop cookies name fuel start none =
      (cookiePlace cookies name fuel start).map (withoutTails cookies name) := by
  induction fuel generalizing start with
  | zero => rfl
  | succ fuel ih =>
    rw [removeCookieLoop, cookiePlace]
    cases strstr (strAt cookies start) name with
    | none => rfl
    | some k =>
      simp only
      have hle := le_skipSpaces cookies cookies.length (start + k + name.length)
      by_cases hstarts : startsCookie cookies (start + k) = true
      · rw [if_pos ⟨hstarts, Or.inr trivial⟩, if_pos hstarts]
        obtain ⟨q, hq⟩ : ∃ q, skipSpaces cookies cookies.length (start + k + name.length) = q := ⟨_, rfl⟩
        rw [hq] at hle ⊢
        by_cases hvalue : byteAt cookies q = ch '=' ∧ byteAt cookies (q + 1) ≠ 0
        · have htake : (if start + k ≠ 0 then start + k - 1 else start + k) = start + k - 1 := by
            split <;> omega
          rw [if_pos hvalue, if_pos hvalue, htake, removeCookieLoop_later (by omega),
            @laterPlaces_fuel cookies name fuel (cookies.length + 1) _ (by omega) (by omega)]
          rfl
        · rw [if_neg hvalue, if_neg hvalue]
          exact ih (by omega)
      · rw [if_neg fun h => hstarts h.1, if_neg hstarts]
        exact ih (by omega)

end Loops

/-! ## Where a path parameter is found -/

/-- The loop of `get_path_param`: where the name stands, and where the equals sign. -/
def paramLoop (url : Text) (name : Str) : (fuel : Nat) → (start : Nat) → Option (Nat × Nat)
  | 0, _ => none
  | fuel + 1, start =>
    match strstr (strAt url.mem start) name with
    | none => none
    | some k =>
      let p := start + k
      if byteAt (url.before :: url.mem) p = ch ';' then
        let q := p + name.length
        if byteAt url.mem q = ch '=' then
          if byteAt url.mem (q + 1) ≠ 0 then some (p, q) else paramLoop url name fuel (q + 2)
        else paramLoop url name fuel (q + 1)
      else paramLoop url name fuel (p + 1)

/-- The first path parameter of the URL. -/
def firstParamPlace (url : Text) (name : Str) : Option (Nat × Nat) := paramLoop url name (url.mem.length + 1) 0

/-- What stands behind the value at `q + 1`, from its delimiter on. -/
def behindParam (url : Mem) (q : Nat) : Str := (strAt url (q + 1)).dropWhile fun b => !pathdelims.contains b

/-- The first loop of `remove_session_route`, which asks for no delimiter before the name. -/
def textLoop (url : Text) (name : Str) : (fuel : Nat) → (pos : Nat) → Option (Nat × Nat)
  | 0, _ => none
  | fuel + 1, pos =>
    match strstr (strAt url.mem pos) name with
    | none => none
    | some k =>
      let p := pos + k
      let q := p + name.length
      if byteAt url.mem q = ch '=' then
        if byteAt url.mem (q + 1) ≠ 0 then some (p, q) else textLoop url name fuel (q + 2)
      else textLoop url name fuel (q + 1)

/-- The first text of the URL that is cut for the name. -/
def firstTextPlace (url : Text) (name : Str) : Option (Nat × Nat) := textLoop url name (url.mem.length + 1) 0

/-- What the code leaves of the file name. -/
def withoutText (url : Text) (place : Nat × Nat) : Text :=
  Text.ofStr (url.str.take (if byteAt (url.before :: url.mem) place.1 = ch '&' then place.1 - 1 else place.1) ++
    (strAt url.mem (place.2 + 1)).dropWhile (· != ch '&'))

section Params

variable {url : Text} {name : Str} {place : Nat × Nat}

theorem pathLoop_place (url : Text) (name : Str) (fuel start : Nat) :
    pathLoop url name fuel start =
      (paramLoop url name fuel start).bind fun place => strtok pathdelims (strAt url.mem (place.2 + 1)) := by
  induction fuel generalizing start with
  | zero => rfl
  | succ fuel ih =>
    rw [pathLoop, paramLoop]
    cases strstr (strAt url.mem start) name with
    | none => rfl
    | some k =>
      simp only
      by_cases hsemi : byteAt (url.before :: url.mem) (start + k) = ch ';'
      · rw [if_pos hsemi, if_pos hsemi]
        by_cases hequals : byteAt url.mem (start + k + name.length) = ch '='
        · rw [if_pos hequals, if_pos hequals]
          by_cases hvalue : byteAt url.mem (start + k + name.length + 1) ≠ 0
          · rw [if_pos hvalue, if_pos hvalue]
            rfl
          · rw [if_neg hvalue, if_neg hvalue]
            exact ih _
        · rw [if_neg hequals, if_neg hequals]
          exact ih _
      · rw [if_neg hsemi, if_neg hsemi]
        exact ih _

theorem removePathLoop_place (url : Text) (name : Str) (fuel pos : Nat) :
    removePathLoop url name fuel pos = (textLoop url name fuel pos).map (withoutText url) := by
  induction fuel generalizing pos with
  | zero => rfl
  | succ fuel ih =>
    rw [removePathLoop, textLoop]
    cases strstr (strAt url.mem pos) name with
    | none => rfl
    | some k =>
      simp only
      by_cases hequals : byteAt url.mem (pos + k + name.length) = ch '='
      · rw [if_pos hequals, if_pos hequals]
        by_cases hvalue : byteAt url.mem (pos + k + name.length + 1) ≠ 0
        · rw [if_pos hvalue, if_pos hvalue]
          rfl
        · rw [if_neg hvalue, if_neg hvalue]
          exact ih _
      · rw [if_neg hequals, if_neg hequals]
        exact ih _

theorem paramLoop_bounds {fuel start : Nat} (h : paramLoop url name fuel start = some place) :
    place.1 ≤ place.2 ∧ byteAt url.mem place.2 = ch '=' ∧ byteAt (url.before :: url.mem) place.1 = ch ';' := by
  induction fuel generalizing start with
  | zero => cases h
  | succ fuel ih =>
    rw [paramLoop] at h
    cases hocc : strstr (strAt url.mem start) name with
    | none => rw [hocc] at h; cases h
    | some k =>
      rw [hocc] at h
      simp only at h
      split at h
      next hsemi =>
        split at h
        next hequals =>
          split at h
          · cases h
            exact ⟨Nat.le_add_right _ _, hequals, hsemi⟩
          · exact ih h
        next => exact ih h
      next => exact ih h

theorem textLoop_bounds {fuel pos : Nat} (h : textLoop url name fuel pos = some place) :
    place.1 ≤ place.2 ∧ byteAt url.mem place.2 = ch '=' := by
  induction fuel generalizing pos with
  | zero => cases h
  | succ fuel ih =>
    rw [textLoop] at h
    cases hocc : strstr (strAt url.mem pos) name with
    | none => rw [hocc] at h; cases h
    | some k =>
      rw [hocc] at h
      simp only at h
      split at h
      next hequals =>
        split at h
        · cases h
          exact ⟨Nat.le_add_right _ _, hequals⟩
        · exact ih h
      next => exact ih h

end Params

section Cookies

variable {cookies : Mem} {name : Str} {place : Nat × Nat}

theorem cookiePlace_bounds {fuel start : Nat} (h : cookiePlace cookies name fuel start = some place) :
    place.1 ≤ place.2 ∧ byteAt cookies place.2 = ch '=' := by
  induction fuel generalizing start with
  | zero => cases h
  | succ fuel ih =>
    rw [cookiePlace] at h
    cases hocc : strstr (strAt cookies start) name with
    | none => rw [hocc] at h; cases h
    | some k =>
      rw [hocc] at h
      simp only at h
      split at h
      next =>
        split at h
        next hvalue =>
          cases h
          have hle := le_skipSpaces cookies cookies.length (start + k + name.length)
          exact ⟨by simp only; omega, hvalue.1⟩
        next => exact ih h
      next => exact ih h

end Cookies

/-! ## What is cut -/

theorem cut_ne {m : Mem} {a q : Nat} (f : Byte → Bool) (ha : a ≤ q) (hq : byteAt m q = ch '=') :
    (strAt m 0).take a ++ (strAt m (q + 1)).dropWhile f ≠ m := by
  intro heq
  have hlt : q < m.length := lt_length_of_byteAt (by rw [hq]; decide)
  have hlen := congrArg List.length heq
  have hdrop := ((strAt m (q + 1)).dropWhile_sublist f).length_le
  have hstr : (strAt m (q + 1)).length ≤ m.length - (q + 1) := by
    have h := ((m.drop (q + 1)).takeWhile_sublist (· != 0)).length_le
    rwa [List.length_drop] at h
  rw [List.length_append, List.length_take] at hlen
  omega

theorem dropWhile_eq_iff {f g : Byte → Bool} (hg : ∀ b, g b = true → f b = true) (l : Str) :
    l.dropWhile f = l.dropWhile g ↔ ∀ b ∈ l.takeWhile f, g b = true := by
  induction l with
  | nil => simp
  | cons b l ih =>
    cases hb : g b with
    | true =>
      rw [List.dropWhile_cons_of_pos (hg b hb), List.dropWhile_cons_of_pos hb, List.takeWhile_cons_of_pos (hg b hb),
        List.forall_mem_cons, ih]
      exact ⟨fun h => ⟨hb, h⟩, fun h => h.2⟩
    | false =>
      rw [@List.dropWhile_cons_of_neg _ g b l (by rw [hb]; decide)]
      cases hf : f b with
      | true =>
        rw [List.dropWhile_cons_of_pos hf, List.takeWhile_cons_of_pos hf, List.forall_mem_cons]
        refine ⟨fun heq => ?_, fun h => absurd h.1 (by rw [hb]; decide)⟩
        have hlen := congrArg List.length heq
        have hle := (l.dropWhile_sublist f).length_le
        rw [List.length_cons] at hlen
        omega
      | false =>
        rw [@List.dropWhile_cons_of_neg _ f b l (by rw [hf]; decide),
          @List.takeWhile_cons_of_neg _ f b l (by rw [hf]; decide)]
        exact ⟨fun _ => List.forall_mem_nil _, fun _ => rfl⟩

/-- No comma ends the value before a semicolon does. -/
def EndsAtSemicolon (cookies : Mem) (q : Nat) : Prop :=
  ch ';' ∈ strAt cookies (q + 1) → ch ',' ∉ (strAt cookies (q + 1)).takeWhile (· != ch ';')

theorem removalTail_append (cookies : Mem) (q : Nat) (later : Str) :
    removalTail cookies q ++ later = behindValue cookies q ↔ EndsAtSemicolon cookies q ∧ later = [] := by
  unfold removalTail behindValue EndsAtSemicolon
  generalize strAt cookies (q + 1) = rest
  have hboth : ∀ b : Byte, (b != ch ';' && b != ch ',') = true → (b != ch ';') = true := by
    intro b hb
    exact (Bool.and_eq_true_iff.1 hb).1
  cases htail : rest.dropWhile (· != ch ';') with
  | nil =>
    have hno : ch ';' ∉ rest := by
      intro hmem
      have h := List.dropWhile_eq_nil_iff.1 htail _ hmem
      exact absurd h (by decide)
    have hsame : (rest.dropWhile fun b => b != ch ';' && b != ch ',') = rest.dropWhile (· != ch ',') := by
      refine ((dropWhile_eq_iff (fun b hb => (Bool.and_eq_true_iff.1 hb).2) rest).2 ?_).symm
      intro b hb
      have hne : b ≠ ch ';' := fun h => hno (h ▸ (List.takeWhile_sublist _).subset hb)
      rw [List.mem_takeWhile_imp hb, Bool.and_true, bne_iff_ne]
      exact hne
    rw [hsame, List.append_right_eq_self]
    exact ⟨fun h => ⟨fun hmem => absurd hmem hno, h⟩, fun h => h.2⟩
  | cons c tail =>
    have hc : c = ch ';' := by
      have h := List.head?_dropWhile_not (· != ch ';') rest
      rw [htail, List.head?_cons] at h
      exact bne_eq_false_iff_eq.1 h
    have hmem : ch ';' ∈ rest := by
      rw [← hc]
      exact (List.dropWhile_sublist _).subset (by rw [htail]; exact List.mem_cons_self)
    have hcomma : (∀ b ∈ rest.takeWhile (· != ch ';'), (b != ch ';' && b != ch ',') = true) ↔
        ch ',' ∉ rest.takeWhile (· != ch ';') := by
      constructor
      · intro h hin
        exact absurd (h _ hin) (by decide)
      · intro h b hb
        rw [List.mem_takeWhile_imp hb, Bool.true_and, bne_iff_ne]
        exact fun heq => h (heq ▸ hb)
    have hiff := dropWhile_eq_iff hboth rest
    rw [htail, hcomma] at hiff
    constructor
    · intro heq
      -- What starts with a semicolon is not cut by the other loop either.
      have hsame : rest.dropWhile (· != ch ';') = rest.dropWhile fun b => b != ch ';' && b != ch ',' := by
        have hsplit := List.takeWhile_append_dropWhile (p := fun b => b != ch ';' && b != ch ',') (l := rest)
        have hfirst : ∀ b ∈ rest.takeWhile (fun b => b != ch ';' && b != ch ','), (b != ch ';') = true := by
          intro b hb
          have h := List.mem_takeWhile_imp hb
          exact hboth b h
        conv_lhs => rw [← hsplit]
        rw [List.dropWhile_append_of_pos hfirst, ← heq, hc]
        rfl
      rw [htail] at hsame
      rw [← hsame] at heq
      exact ⟨fun _ => hiff.1 hsame, List.append_right_eq_self.1 heq⟩
    · rintro ⟨hends, rfl⟩
      rw [List.append_nil]
      exact hiff.2 (hends hmem)

/-! ## What is to be cut -/

/-- The name of the session cookie. -/
def cookieName (stickyval : Str) : Str := stickyval.takeWhile (· != ch '|')

/-- The name of the path parameter. -/
def pathName (stickyval : Str) : Str := (after (ch '|') stickyval).getD stickyval

namespace Request

variable (r : Request) (name : Str) (place : Nat × Nat)

def cookiePlace : Option (Nat × Nat) := r.cookie.bind fun cookies => firstPlace cookies name

def paramPlace : Option (Nat × Nat) := r.filename.bind fun url => firstParamPlace url name

def textPlace : Option (Nat × Nat) := r.filename.bind fun url => firstTextPlace url name

/-- The request without a cookie and the delimiter before it. -/
def cutCookie : Request :=
  { r with cookie := r.cookie.map fun cookies =>
    (strAt cookies 0).take (place.1 - 1) ++ behindValue cookies place.2 }

/-- The request without a path parameter. The semicolon stays. -/
def cutParam : Request :=
  { r with filename := r.filename.map fun url => Text.ofStr (url.str.take place.1 ++ behindParam url.mem place.2) }

def cutTails : Request := { r with cookie := r.cookie.map fun cookies => withoutTails cookies name place }

def cutText : Request := { r with filename := r.filename.map fun url => withoutText url place }

/-- The URL that goes to the worker. -/
def forwardedUrl : Text := r.filename.getD r.uri

end Request

/-- The request without the cookie that the session id comes from, or else without the path parameter. -/
def withoutSession (r : Request) (stickyval : Str) : Request :=
  match r.cookiePlace (cookieName stickyval) with
  | some place => r.cutCookie place
  | none =>
    match r.paramPlace (pathName stickyval) with
    | some place => r.cutParam place
    | none => r

/-- Of the header and the URL only the session is gone, and a lookup does not give its id. -/
structure SessionRemoved (r r' : Request) (stickyval id : Str) : Prop where
  cookie : r'.cookie = (withoutSession r stickyval).cookie
  filename : r'.filename = (withoutSession r stickyval).filename
  gone : (clusterGetSessionid r' stickyval r'.forwardedUrl).1 ≠ some id

/-- Under the name of the note the code stops where the session is. -/
def SamePlace (r : Request) (stickyval : Str) : Prop :=
  match r.cookiePlace (cookieName stickyval) with
  | some place => r.cookiePlace (pathName stickyval) = some place
  | none => r.textPlace (cookieName stickyval) = r.paramPlace (pathName stickyval)

/-- Under the name of the note the code finds something to cut where there is a session, and
for a cookie it finds nothing in the file name. -/
def ReachesSession (r : Request) (stickyval : Str) : Prop :=
  match r.cookiePlace (cookieName stickyval) with
  | some _ => r.textPlace (pathName stickyval) = none ∧ (r.cookiePlace (pathName stickyval)).isSome = true
  | none => (r.textPlace (cookieName stickyval)).isSome = (r.paramPlace (pathName stickyval)).isSome

/-- The value ends where the code takes it to end, and the code goes on to nothing else. -/
def CutsOnly (r : Request) (stickyval : Str) : Prop :=
  match r.cookiePlace (cookieName stickyval) with
  | some place => r.textPlace (pathName stickyval) = none ∧ ∀ cookies ∈ r.cookie,
      EndsAtSemicolon cookies place.2 ∧
      ∀ q ∈ laterPlaces cookies (pathName stickyval) (cookies.length + 1) (place.2 + 2), removalTail cookies q = []
  | none => ∀ place ∈ r.paramPlace (pathName stickyval), ∀ url ∈ r.filename,
      ∀ b ∈ (strAt url.mem (place.2 + 1)).takeWhile (· != ch '&'), b ∉ pathdelims

/-! ## What the code cuts -/

section Cuts

variable {r r' : Request} {stickyval id note name : Str} {place : Nat × Nat}

theorem removeSessionRoute_eq (r : Request) (name : Str) :
    removeSessionRoute r name =
      match r.textPlace name with
      | some place => r.cutText place
      | none =>
        match r.cookiePlace name with
        | some place => r.cutTails name place
        | none => r := by
  have hcookies : ∀ cookies, removeCookieLoop cookies name (cookies.length + 1) 0 none =
      (firstPlace cookies name).map (withoutTails cookies name) :=
    fun cookies => removeCookieLoop_eq (by omega)
  obtain ⟨uri, unparsedUri, filename, cookie, serverName, notes⟩ := r
  unfold removeSessionRoute Request.textPlace Request.cookiePlace Request.cutText Request.cutTails
  have htext : (filename.bind fun url => removePathLoop url name (url.mem.length + 1) 0) =
      filename.bind fun url => (firstTextPlace url name).map (withoutText url) := by
    congr 1
    funext url
    exact removePathLoop_place url name _ 0
  simp only [htext]
  cases hplace : filename.bind fun url => firstTextPlace url name with
  | some place =>
    obtain ⟨url, rfl, hurl⟩ := Option.bind_eq_some_iff.1 hplace
    simp only [Option.bind_some, hurl, Option.map_some]
  | none =>
    have hnone : (filename.bind fun url => (firstTextPlace url name).map (withoutText url)) = none :=
      Option.bind_eq_none_iff.2 fun url hurl => by
        rw [Option.bind_eq_none_iff.1 hplace url hurl, Option.map_none]
    simp only [hnone]
    cases cookie with
    | none => rfl
    | some cookies =>
      simp only [hcookies, Option.bind_some]
      cases firstPlace cookies name <;> rfl

theorem cutText_ne (h : r.textPlace name = some place) : (r.cutText place).filename ≠ r.filename := by
  unfold Request.textPlace at h
  cases hfile : r.filename with
  | none => rw [hfile] at h; cases h
  | some url =>
    rw [hfile, Option.bind_some] at h
    have hbounds := textLoop_bounds h
    unfold Request.cutText
    rw [hfile]
    intro heq
    have hmem := congrArg Text.mem (Option.some.inj heq)
    refine cut_ne _ ?_ hbounds.2 hmem
    split <;> omega

theorem cutParam_ne (h : r.paramPlace name = some place) : (r.cutParam place).filename ≠ r.filename := by
  unfold Request.paramPlace at h
  cases hfile : r.filename with
  | none => rw [hfile] at h; cases h
  | some url =>
    rw [hfile, Option.bind_some] at h
    have hbounds := paramLoop_bounds h
    unfold Request.cutParam
    rw [hfile]
    intro heq
    have hmem := congrArg Text.mem (Option.some.inj heq)
    exact cut_ne _ hbounds.1 hbounds.2.1 hmem

theorem cutCookie_ne (h : r.cookiePlace name = some place) : (r.cutCookie place).cookie ≠ r.cookie := by
  unfold Request.cookiePlace at h
  cases hcookie : r.cookie with
  | none => rw [hcookie] at h; cases h
  | some cookies =>
    rw [hcookie, Option.bind_some] at h
    have hbounds := cookiePlace_bounds h
    unfold Request.cutCookie
    rw [hcookie]
    intro heq
    refine cut_ne _ ?_ hbounds.2 (Option.some.inj heq)
    omega

theorem cutTails_cookie_iff :
    (r.cutTails name place).cookie = (r.cutCookie place).cookie ↔ ∀ cookies ∈ r.cookie,
      EndsAtSemicolon cookies place.2 ∧
      ∀ q ∈ laterPlaces cookies name (cookies.length + 1) (place.2 + 2), removalTail cookies q = [] := by
  unfold Request.cutTails Request.cutCookie
  cases r.cookie with
  | none => simp
  | some cookies =>
    simp only [Option.map_some, Option.some.injEq, Option.mem_def, forall_eq', withoutTails, List.append_assoc,
      List.append_cancel_left_eq]
    rw [removalTail_append, List.flatMap_eq_nil_iff]

theorem cutText_filename_iff (h : r.paramPlace name = some place) :
    (r.cutText place).filename = (r.cutParam place).filename ↔ ∀ url ∈ r.filename,
      ∀ b ∈ (strAt url.mem (place.2 + 1)).takeWhile (· != ch '&'), b ∉ pathdelims := by
  unfold Request.paramPlace at h
  unfold Request.cutText Request.cutParam
  cases hfile : r.filename with
  | none => simp
  | some url =>
    rw [hfile, Option.bind_some] at h
    have hsemi := (paramLoop_bounds h).2.2
    have hdelims : ∀ b : Byte, (!pathdelims.contains b) = true → (b != ch '&') = true :=
      forall_byte (by decide +kernel)
    simp only [Option.map_some, Option.some.injEq, Option.mem_def, forall_eq', withoutText, Text.ofStr, hsemi]
    rw [if_neg (by decide)]
    simp only [Text.mk.injEq, true_and, List.append_cancel_left_eq, behindParam]
    rw [dropWhile_eq_iff hdelims]
    simp only [Bool.not_eq_true', List.contains_eq_mem, decide_eq_false_iff_not]

/-! ## The call -/

theorem getCookieParam_isSome (r : Request) (name : Str) :
    (getCookieParam r.cookie name).isSome = (r.cookiePlace name).isSome := by
  unfold Request.cookiePlace
  cases r.cookie with
  | none => rfl
  | some cookies =>
    rw [lookup_place, Option.bind_some]
    cases firstPlace cookies name <;> rfl

theorem note_eq {uri : Text} (h : clusterGetSessionid r stickyval uri = (some id, note)) :
    note = match r.cookiePlace (cookieName stickyval) with
      | some _ => pathName stickyval
      | none => cookieName stickyval := by
  have hsome := getCookieParam_isSome r (cookieName stickyval)
  unfold clusterGetSessionid at h
  cases hlookup : getCookieParam r.cookie (stickyval.takeWhile (· != ch '|')) with
  | some found =>
    rw [cookieName, hlookup] at hsome
    simp only [hlookup, Prod.mk.injEq] at h
    obtain ⟨place, hplace⟩ := Option.isSome_iff_exists.1 hsome.symm
    rw [cookieName, hplace]
    exact h.2.symm
  | none =>
    rw [cookieName, hlookup] at hsome
    simp only [hlookup, Prod.mk.injEq] at h
    have hnone : r.cookiePlace (stickyval.takeWhile (· != ch '|')) = none :=
      Option.isNone_iff_eq_none.1 (Option.isSome_eq_false_iff.1 hsome.symm)
    rw [cookieName, hnone]
    exact h.2.symm

theorem removeSessionRoute_changeRoute (r : Request) (name : Str) :
    removeSessionRoute r.changeRoute name = (removeSessionRoute r name).changeRoute := by
  rw [removeSessionRoute_eq, removeSessionRoute_eq]
  have htext : r.changeRoute.textPlace name = r.textPlace name := rfl
  have hcookie : r.changeRoute.cookiePlace name = r.cookiePlace name := rfl
  rw [htext, hcookie]
  cases r.textPlace name with
  | some place => rfl
  | none => cases r.cookiePlace name <;> rfl

theorem removeSessionRoute_uri (r : Request) (name : Str) : (removeSessionRoute r name).uri = r.uri := by
  rw [removeSessionRoute_eq]
  cases r.textPlace name with
  | some place => rfl
  | none => cases r.cookiePlace name <;> rfl

theorem withoutSession_uri (r : Request) (stickyval : Str) : (withoutSession r stickyval).uri = r.uri := by
  unfold withoutSession
  cases r.cookiePlace (cookieName stickyval) with
  | some place => rfl
  | none => cases r.paramPlace (pathName stickyval) <;> rfl

theorem noteElection_removes {balancer : ProxyBalancer} {route : Option Str} (hroute : route.isSome = true)
    (hlb : balancer.lbpname = MC_REMOVE_SESSION) (hdomain : r.notes.sessionDomainOk = false)
    (h : noteElection balancer route (some note) r = some r') :
    r'.cookie = (removeSessionRoute r note).cookie ∧ r'.filename = (removeSessionRoute r note).filename ∧
      r'.uri = r.uri := by
  unfold noteElection at h
  by_cases hsticky : balancer.sticky ≠ []
  · have hdomain' : ¬ r.changeRoute.notes.sessionDomainOk = true := by
      rw [Bool.not_eq_true]
      exact hdomain
    simp only [if_pos hsticky, if_pos (And.intro hroute (And.intro hlb hdomain')), Option.map_some,
      removeSessionRoute_changeRoute] at h
    cases h
    exact ⟨rfl, rfl, removeSessionRoute_uri r note⟩
  · have hdomain' : ¬ r.notes.sessionDomainOk = true := by
      rw [Bool.not_eq_true]
      exact hdomain
    simp only [if_neg hsticky, if_pos (And.intro hroute (And.intro hlb hdomain')), Option.map_some] at h
    cases h
    exact ⟨rfl, rfl, removeSessionRoute_uri r note⟩

/-! ## When the session is removed -/

/-- The header and the URL are those of the request without its session. -/
def CutOut (r r' : Request) (stickyval : Str) : Prop :=
  r'.cookie = (withoutSession r stickyval).cookie ∧ r'.filename = (withoutSession r stickyval).filename

theorem sessionRemoved_iff (huri : r'.uri = r.uri) :
    SessionRemoved r r' stickyval id ↔ CutOut r r' stickyval ∧
      (clusterGetSessionid (withoutSession r stickyval) stickyval (withoutSession r stickyval).forwardedUrl).1 ≠
        some id := by
  have hsame : CutOut r r' stickyval →
      clusterGetSessionid r' stickyval r'.forwardedUrl =
        clusterGetSessionid (withoutSession r stickyval) stickyval (withoutSession r stickyval).forwardedUrl := by
    rintro ⟨hcookie, hfilename⟩
    have hurl : r'.forwardedUrl = (withoutSession r stickyval).forwardedUrl := by
      unfold Request.forwardedUrl
      rw [hfilename, huri, withoutSession_uri]
    rw [hurl]
    exact clusterGetSessionid_congr hcookie stickyval _
  constructor
  · intro h
    have hcut : CutOut r r' stickyval := ⟨h.cookie, h.filename⟩
    refine ⟨hcut, ?_⟩
    rw [← hsame hcut]
    exact h.gone
  · rintro ⟨hcut, hgone⟩
    refine ⟨hcut.1, hcut.2, ?_⟩
    rw [hsame hcut]
    exact hgone

variable (hnote : note = match r.cookiePlace (cookieName stickyval) with
  | some _ => pathName stickyval
  | none => cookieName stickyval)

include hnote

theorem cutOut_reaches (hcut : CutOut r (removeSessionRoute r note) stickyval) : ReachesSession r stickyval := by
  unfold CutOut withoutSession at hcut
  unfold ReachesSession
  rw [removeSessionRoute_eq] at hcut
  cases hs : r.cookiePlace (cookieName stickyval) with
  | some place =>
    simp only [hs] at hnote hcut ⊢
    subst hnote
    cases htext : r.textPlace (pathName stickyval) with
    | some place' =>
      simp only [htext] at hcut
      exact absurd hcut.2 (cutText_ne htext)
    | none =>
      simp only [htext] at hcut
      cases hp : r.cookiePlace (pathName stickyval) with
      | some place' => exact ⟨rfl, rfl⟩
      | none =>
        simp only [hp] at hcut
        exact absurd hcut.1.symm (cutCookie_ne hs)
  | none =>
    simp only [hs] at hnote hcut ⊢
    subst hnote
    cases htext : r.textPlace (cookieName stickyval) with
    | some place =>
      simp only [htext] at hcut
      cases hp : r.paramPlace (pathName stickyval) with
      | some place' => rfl
      | none =>
        simp only [hp] at hcut
        exact absurd hcut.2 (cutText_ne htext)
    | none =>
      simp only [htext, hs] at hcut
      cases hp : r.paramPlace (pathName stickyval) with
      | some place' =>
        simp only [hp] at hcut
        exact absurd hcut.2.symm (cutParam_ne hp)
      | none => rfl

theorem cutOut_iff (hplace : SamePlace r stickyval) :
    CutOut r (removeSessionRoute r note) stickyval ↔ CutsOnly r stickyval := by
  unfold SamePlace at hplace
  unfold CutOut withoutSession CutsOnly
  rw [removeSessionRoute_eq]
  cases hs : r.cookiePlace (cookieName stickyval) with
  | some place =>
    simp only [hs] at hnote hplace ⊢
    subst hnote
    cases htext : r.textPlace (pathName stickyval) with
    | some place' =>
      simp only [reduceCtorEq, false_and, iff_false]
      exact fun hcut => cutText_ne htext hcut.2
    | none =>
      simp only [hplace, true_and]
      rw [cutTails_cookie_iff]
      exact and_iff_left rfl
  | none =>
    simp only [hs] at hnote hplace ⊢
    subst hnote
    cases hp : r.paramPlace (pathName stickyval) with
    | some place =>
      rw [hplace, hp]
      simp only [Option.mem_def, Option.some.injEq, forall_eq']
      rw [cutText_filename_iff hp]
      exact and_iff_right rfl
    | none =>
      rw [hplace, hp]
      simp only [hs, Option.mem_def, reduceCtorEq, true_and, false_imp_iff, implies_true]

omit hnote

/-- Where the session is removed, the code found something to cut under the name of the
note. Where that is the session itself, the session is removed if the code cuts nothing
else and no second session has the same id. -/
theorem session_removed_iff {balancer : ProxyBalancer} {route : Option Str} (hroute : route.isSome = true)
    (hlb : balancer.lbpname = MC_REMOVE_SESSION) (hdomain : r.notes.sessionDomainOk = false)
    (hfound : clusterGetSessionid r stickyval r.uri = (some id, note))
    (hcall : noteElection balancer route (some note) r = some r') :
    (SessionRemoved r r' stickyval id → ReachesSession r stickyval) ∧
    (SamePlace r stickyval → (SessionRemoved r r' stickyval id ↔ CutsOnly r stickyval ∧
      (clusterGetSessionid (withoutSession r stickyval) stickyval (withoutSession r stickyval).forwardedUrl).1 ≠
        some id)) := by
  have hnote := note_eq hfound
  obtain ⟨hcookie, hfilename, huri⟩ := noteElection_removes hroute hlb hdomain hcall
  have hcut : CutOut r r' stickyval ↔ CutOut r (removeSessionRoute r note) stickyval := by
    unfold CutOut
    rw [hcookie, hfilename]
  rw [sessionRemoved_iff huri, hcut]
  refine ⟨fun h => cutOut_reaches hnote h.1, fun hplace => ?_⟩
  rw [cutOut_iff hnote hplace]

end Cuts

/-! ## The default names -/

/-- A balancer with the cookie and the path parameter of the names. -/
def removingBalancer (sticky stickyPath : Str) : ProxyBalancer where
  name := ascii "balancer://mycluster"
  lbpname := MC_REMOVE_SESSION
  sticky := sticky
  stickyPath := stickyPath
  stickyForce := false
  timeout := 0
  maxAttempts := 1
  workers := []

def cookieRequest (header : Mem) : Request where
  uri := Text.ofStr (ascii "/app")
  unparsedUri := Text.ofStr (ascii "/app")
  filename := some (Text.ofStr (ascii "proxy:balancer://mycluster/app"))
  cookie := some header
  serverName := ascii "host"
  notes := Notes.empty

/-- Under one name for both, the cookie is cut out. -/
theorem one_name_removed :
    let r := cookieRequest (ascii "a=b; ID=5.n1; c=d")
    let stickyval := (removingBalancer (ascii "ID") (ascii "ID")).stickyval
    SessionRemoved r { r.changeRoute with cookie := some (ascii "a=b;; c=d") } stickyval (ascii "5.n1") := by
  intro r stickyval
  have hfacts : clusterGetSessionid r stickyval r.uri = (some (ascii "5.n1"), ascii "ID") ∧
      noteElection (removingBalancer (ascii "ID") (ascii "ID")) (some (ascii "n1")) (some (ascii "ID")) r =
        some { r.changeRoute with cookie := some (ascii "a=b;; c=d") } ∧
      (r.cookiePlace (cookieName stickyval) = some (5, 7) ∧ r.cookiePlace (pathName stickyval) = some (5, 7)) ∧
      r.textPlace (pathName stickyval) = none ∧
      (strAt (ascii "a=b; ID=5.n1; c=d") 8).takeWhile (· != ch ';') = ascii "5.n1" ∧
      laterPlaces (ascii "a=b; ID=5.n1; c=d") (pathName stickyval) 18 9 = [] ∧
      (clusterGetSessionid (withoutSession r stickyval) stickyval (withoutSession r stickyval).forwardedUrl).1 ≠
        some (ascii "5.n1") := by
    decide +kernel
  obtain ⟨hfound, hcall, ⟨hs, hp⟩, htext, hvalue, hlater, hgone⟩ := hfacts
  have hplace : SamePlace r stickyval := by
    unfold SamePlace
    rw [hs]
    exact hp
  have hcuts : CutsOnly r stickyval := by
    unfold CutsOnly
    rw [hs]
    refine ⟨htext, fun cookies hcookies => ?_⟩
    cases hcookies
    refine ⟨fun _ => ?_, ?_⟩
    · rw [hvalue]
      decide
    · have hlater' : laterPlaces (ascii "a=b; ID=5.n1; c=d") (pathName stickyval)
          ((ascii "a=b; ID=5.n1; c=d").length + 1) (7 + 2) = [] := hlater
      rw [hlater']
      exact List.forall_mem_nil _
  exact ((session_removed_iff rfl rfl rfl hfound hcall).2 hplace).2 ⟨hcuts, hgone⟩

/-- With the default names the code looks for a cookie of the other name. The header stays as it is. -/
theorem default_names_kept :
    let balancer := removingBalancer (ascii "JSESSIONID") (ascii "jsessionid")
    let r := cookieRequest (ascii "JSESSIONID=5.n1; a=b")
    ∃ note r', clusterGetSessionid r balancer.stickyval r.uri = (some (ascii "5.n1"), note) ∧
      noteElection balancer (some (ascii "n1")) (some note) r = some r' ∧ r'.cookie = r.cookie ∧
      ¬ SessionRemoved r r' balancer.stickyval (ascii "5.n1") := by
  intro balancer r
  have hfacts : clusterGetSessionid r balancer.stickyval r.uri = (some (ascii "5.n1"), ascii "jsessionid") ∧
      noteElection balancer (some (ascii "n1")) (some (ascii "jsessionid")) r = some r.changeRoute ∧
      (clusterGetSessionid r.changeRoute balancer.stickyval r.changeRoute.forwardedUrl).1 =
        some (ascii "5.n1") := by
    decide +kernel
  exact ⟨_, _, hfacts.1, hfacts.2.1, rfl, fun h => h.gone hfacts.2.2⟩

end ModCluster
