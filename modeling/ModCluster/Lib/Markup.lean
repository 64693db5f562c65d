import ModCluster.Lib.CString

/-!
# Reports in markup

A report is a root with sections, and a section has rows of one form, with holes for the
values. It is written as XML without any escaping, and read by its delimiters: character
data ends at a `<` and has no `&`, and the value of an attribute ends at its quote and has
neither. What is read is what was written as long as the values keep to that. The reader
minds nothing else that XML 1.0 forbids or changes: control characters, text that is not
UTF-8, white space in attributes, `]]>`.
-/

open CString

namespace Markup

/-! ## Character data -/

def isData (b : Byte) : Bool := b != ch '<' && b != ch '&'

def isQuoted (b : Byte) : Bool := isData b && b != ch '"'

def Data (s : Str) : Prop := ∀ b ∈ s, isData b = true

def Quoted (s : Str) : Prop := ∀ b ∈ s, isQuoted b = true

instance (s : Str) : Decidable (Data s) := List.decidableBAll _ s

instance (s : Str) : Decidable (Quoted s) := List.decidableBAll _ s

theorem Quoted.data {s : Str} (h : Quoted s) : Data s := by
  intro b hb
  have hq := h b hb
  unfold isQuoted at hq
  simp only [Bool.and_eq_true] at hq
  exact hq.1

def expect : (lit : Str) → Str → Option Str
  | [], s => some s
  | _ :: _, [] => none
  | b :: lit, c :: s => if b = c then expect lit s else none

/-- The bytes up to the next `stop`, which is passed. -/
def readUntil (stop : Byte) (ok : Byte → Bool) : Str → Option (Str × Str)
  | [] => none
  | b :: s =>
    if b = stop then some ([], s)
    else if ok b then (readUntil stop ok s).map fun r => (b :: r.1, r.2)
    else none

@[simp]
theorem expect_append (lit s : Str) : expect lit (lit ++ s) = some s := by
  induction lit with
  | nil => rfl
  | cons b lit ih => simp [expect, ih]

theorem readUntil_append {stop : Byte} {ok : Byte → Bool} {v : Str} (s : Str) (hstop : ok stop = false)
    (hv : ∀ b ∈ v, ok b = true) : readUntil stop ok (v ++ stop :: s) = some (v, s) := by
  induction v with
  | nil => simp [readUntil]
  | cons b v ih =>
    have hb : ok b = true := hv b (by simp)
    have hne : b ≠ stop := by
      rintro rfl
      rw [hstop] at hb
      cases hb
    simp [readUntil, hne, hb, ih fun c hc => hv c (by simp [hc])]

theorem readUntil_ok {stop : Byte} {ok : Byte → Bool} {s v rest : Str} (h : readUntil stop ok s = some (v, rest)) :
    ∀ b ∈ v, ok b = true := by
  induction s generalizing v with
  | nil => cases h
  | cons b s ih =>
    unfold readUntil at h
    split at h
    · simp only [Option.some.injEq, Prod.mk.injEq] at h
      simp [← h.1]
    split at h
    · rename_i hb
      rw [Option.map_eq_some_iff] at h
      obtain ⟨⟨w, t⟩, hw, heq⟩ := h
      simp only [Prod.mk.injEq] at heq
      obtain ⟨rfl, rfl⟩ := heq
      intro c hc
      rcases List.mem_cons.1 hc with rfl | hc
      · exact hb
      · exact ih hw c hc
    · cases h

/-! ## Attributes -/

@[simp]
def attributes : (names values : List Str) → Str
  | a :: as, v :: vs => ascii " " ++ (a ++ (ascii "=\"" ++ (v ++ (ascii "\"" ++ attributes as vs))))
  | _, _ => []

def readAttributes : (names : List Str) → Str → Option (List Str × Str)
  | [], s => some ([], s)
  | a :: as, s =>
    (expect (ascii " " ++ (a ++ ascii "=\"")) s).bind fun s =>
    (readUntil (ch '"') isQuoted s).bind fun r =>
    (readAttributes as r.2).map fun q => (r.1 :: q.1, q.2)

theorem readAttributes_append {names values : List Str} (s : Str) (hlen : values.length = names.length)
    (hv : ∀ v ∈ values, Quoted v) : readAttributes names (attributes names values ++ s) = some (values, s) := by
  induction names generalizing values with
  | nil =>
    obtain rfl := List.length_eq_zero_iff.1 hlen
    rfl
  | cons a as ih =>
    obtain ⟨v, vs, rfl⟩ := List.exists_cons_of_length_eq_add_one hlen
    have hquote : isQuoted (ch '"') = false := by decide
    have hread := readUntil_append (attributes as vs ++ s) hquote (hv v (by simp))
    have hrest := ih (by simpa using hlen) fun w hw => hv w (by simp [hw])
    have hlit : attributes (a :: as) (v :: vs) ++ s =
        (ascii " " ++ (a ++ ascii "=\"")) ++ (v ++ ch '"' :: (attributes as vs ++ s)) := by
      simp [attributes, ascii]
    rw [hlit, readAttributes, expect_append]
    simp [hread, hrest]

theorem readAttributes_quoted {names values : List Str} {s rest : Str}
    (h : readAttributes names s = some (values, rest)) : values.length = names.length ∧ ∀ v ∈ values, Quoted v := by
  induction names generalizing s values with
  | nil =>
    simp only [readAttributes, Option.some.injEq, Prod.mk.injEq] at h
    simp [← h.1]
  | cons a as ih =>
    simp only [readAttributes, Option.bind_eq_some_iff, Option.map_eq_some_iff, Prod.mk.injEq] at h
    obtain ⟨t, -, ⟨v, u⟩, hv, ⟨vs, w⟩, hvs, rfl, rfl⟩ := h
    obtain ⟨hlen, hquoted⟩ := ih hvs
    refine ⟨by simp [hlen], fun x hx => ?_⟩
    rcases List.mem_cons.1 hx with rfl | hx
    · exact readUntil_ok hv
    · exact hquoted x hx

/-! ## Parts of a row -/

inductive Part where
  | opening (name : Str) (names : List Str)
  | single (name : Str) (names : List Str)
  /-- An element with nothing but text in it. -/
  | field (name : Str) (names : List Str)
  | closing (name : Str)
  | blank (s : Str)

namespace Part

@[simp]
def arity : Part → Nat
  | opening _ names => names.length
  | single _ names => names.length
  | field _ names => names.length + 1
  | closing _ => 0
  | blank _ => 0

@[simp]
def write : Part → List Str → Str
  | opening name names, vs => ascii "<" ++ (name ++ (attributes names vs ++ ascii ">"))
  | single name names, vs => ascii "<" ++ (name ++ (attributes names vs ++ ascii "/>"))
  | field name names, vs =>
    ascii "<" ++ (name ++ (attributes names vs ++
      (ascii ">" ++ (vs.getLastD [] ++ (ascii "</" ++ (name ++ ascii ">"))))))
  | closing name, _ => ascii "</" ++ (name ++ ascii ">")
  | blank s, _ => s

def read : Part → Str → Option (List Str × Str)
  | opening name names, s =>
    (expect (ascii "<" ++ name) s).bind fun s =>
    (readAttributes names s).bind fun r =>
    (expect (ascii ">") r.2).map fun s => (r.1, s)
  | single name names, s =>
    (expect (ascii "<" ++ name) s).bind fun s =>
    (readAttributes names s).bind fun r =>
    (expect (ascii "/>") r.2).map fun s => (r.1, s)
  | field name names, s =>
    (expect (ascii "<" ++ name) s).bind fun s =>
    (readAttributes names s).bind fun r =>
    (expect (ascii ">") r.2).bind fun s =>
    (readUntil (ch '<') isData s).bind fun q =>
    (expect (ascii "/" ++ (name ++ ascii ">")) q.2).map fun s => (r.1 ++ [q.1], s)
  | closing name, s => (expect (ascii "</" ++ (name ++ ascii ">")) s).map fun s => ([], s)
  | blank lit, s => (expect lit s).map fun s => ([], s)

/-- The values can be told from what is around them. -/
@[simp]
def Safe : Part → List Str → Prop
  | opening _ _, vs => ∀ v ∈ vs, Quoted v
  | single _ _, vs => ∀ v ∈ vs, Quoted v
  | field _ _, vs => (∀ v ∈ vs.dropLast, Quoted v) ∧ Data (vs.getLastD [])
  | closing _, _ => True
  | blank _, _ => True

theorem attributes_take (names vs : List Str) : attributes names vs = attributes names (vs.take names.length) := by
  induction names generalizing vs with
  | nil => cases vs <;> rfl
  | cons a as ih =>
    cases vs with
    | nil => rfl
    | cons v vs => simp only [attributes, List.length_cons, List.take_succ_cons, ih vs]

theorem dropLast_getLastD {vs : List Str} (h : vs ≠ []) : vs.dropLast ++ [vs.getLastD []] = vs := by
  rw [List.getLastD_eq_getLast?, List.getLast?_eq_some_getLast h, Option.getD_some, List.dropLast_append_getLast]

theorem read_write {p : Part} {vs : List Str} (s : Str) (hlen : vs.length = p.arity) (hsafe : p.Safe vs) :
    p.read (p.write vs ++ s) = some (vs, s) := by
  cases p with
  | opening name names =>
    have htext : (opening name names).write vs ++ s =
        (ascii "<" ++ name) ++ (attributes names vs ++ (ascii ">" ++ s)) := by
      simp [write]
    rw [htext, read, expect_append, Option.bind_some, readAttributes_append _ hlen hsafe, Option.bind_some]
    simp only [expect_append, Option.map_some]
  | single name names =>
    have htext : (single name names).write vs ++ s =
        (ascii "<" ++ name) ++ (attributes names vs ++ (ascii "/>" ++ s)) := by
      simp [write]
    rw [htext, read, expect_append, Option.bind_some, readAttributes_append _ hlen hsafe, Option.bind_some]
    simp only [expect_append, Option.map_some]
  | field name names =>
    obtain ⟨hquoted, hdata⟩ := hsafe
    have hne : vs ≠ [] := by
      rintro rfl
      simp [arity] at hlen
    have hlast := dropLast_getLastD hne
    have hinit : vs.take names.length = vs.dropLast := by
      rw [List.dropLast_eq_take, hlen, arity, Nat.add_sub_cancel]
    have htext : (field name names).write vs ++ s = (ascii "<" ++ name) ++ (attributes names vs.dropLast ++
        (ascii ">" ++ (vs.getLastD [] ++ ch '<' :: ((ascii "/" ++ (name ++ ascii ">")) ++ s)))) := by
      rw [write, attributes_take, hinit]
      simp [ascii]
    have hstop : isData (ch '<') = false := by decide
    have hcount : vs.dropLast.length = names.length := by
      rw [List.length_dropLast, hlen, arity, Nat.add_sub_cancel]
    rw [htext, read, expect_append, Option.bind_some, readAttributes_append _ hcount hquoted, Option.bind_some]
    simp only [expect_append, Option.bind_some]
    rw [readUntil_append _ hstop hdata, Option.bind_some]
    simp only [expect_append, Option.map_some, hlast]
  | closing name =>
    obtain rfl := List.length_eq_zero_iff.1 hlen
    have htext : (closing name).write [] ++ s = (ascii "</" ++ (name ++ ascii ">")) ++ s := by
      simp [write]
    rw [htext, read, expect_append, Option.map_some]
  | blank lit =>
    obtain rfl := List.length_eq_zero_iff.1 hlen
    rw [read, write, expect_append, Option.map_some]

theorem read_safe {p : Part} {vs : List Str} {s rest : Str} (h : p.read s = some (vs, rest)) :
    vs.length = p.arity ∧ p.Safe vs := by
  cases p with
  | opening name names =>
    simp only [read, Option.bind_eq_some_iff, Option.map_eq_some_iff, Prod.mk.injEq] at h
    obtain ⟨_, _, r, hr, _, _, rfl, _⟩ := h
    exact readAttributes_quoted hr
  | single name names =>
    simp only [read, Option.bind_eq_some_iff, Option.map_eq_some_iff, Prod.mk.injEq] at h
    obtain ⟨_, _, r, hr, _, _, rfl, _⟩ := h
    exact readAttributes_quoted hr
  | field name names =>
    simp only [read, Option.bind_eq_some_iff, Option.map_eq_some_iff, Prod.mk.injEq] at h
    obtain ⟨_, _, r, hr, _, _, q, hq, _, _, rfl, _⟩ := h
    obtain ⟨hlen, hquoted⟩ := readAttributes_quoted hr
    refine ⟨by simp [arity, hlen], ?_, ?_⟩
    · simpa using hquoted
    · simpa [Data] using readUntil_ok hq
  | closing name =>
    simp only [read, Option.map_eq_some_iff, Prod.mk.injEq] at h
    obtain ⟨_, _, rfl, _⟩ := h
    exact ⟨rfl, trivial⟩
  | blank lit =>
    simp only [read, Option.map_eq_some_iff, Prod.mk.injEq] at h
    obtain ⟨_, _, rfl, _⟩ := h
    exact ⟨rfl, trivial⟩

end Part

/-! ## Rows -/

@[simp]
def rowArity (row : List Part) : Nat := (row.map Part.arity).sum

@[simp]
def writeRow : (row : List Part) → (values : List Str) → Str
  | [], _ => []
  | p :: ps, vs => p.write (vs.take p.arity) ++ writeRow ps (vs.drop p.arity)

def readRow : (row : List Part) → Str → Option (List Str × Str)
  | [], s => some ([], s)
  | p :: ps, s => (p.read s).bind fun r => (readRow ps r.2).map fun q => (r.1 ++ q.1, q.2)

@[simp]
def RowSafe : (row : List Part) → (values : List Str) → Prop
  | [], _ => True
  | p :: ps, vs => p.Safe (vs.take p.arity) ∧ RowSafe ps (vs.drop p.arity)

section Rows

variable {row : List Part} {vs : List Str} {s rest : Str}

theorem writeRow_append {row₂ : List Part} {us : List Str} (h : us.length = rowArity row) :
    writeRow (row ++ row₂) (us ++ vs) = writeRow row us ++ writeRow row₂ vs := by
  induction row generalizing us with
  | nil =>
    obtain rfl := List.length_eq_zero_iff.1 h
    rfl
  | cons p ps ih =>
    have hsum : us.length = p.arity + rowArity ps := by
      rw [h]
      simp
    have hdrop : (us.drop p.arity).length = rowArity ps := by
      rw [List.length_drop]
      omega
    rw [List.cons_append, writeRow, writeRow, List.take_append_of_le_length (by omega),
      List.drop_append_of_le_length (by omega), ih hdrop, List.append_assoc]

theorem rowSafe_append {row₂ : List Part} {us : List Str} (h : us.length = rowArity row) :
    RowSafe (row ++ row₂) (us ++ vs) ↔ RowSafe row us ∧ RowSafe row₂ vs := by
  induction row generalizing us with
  | nil =>
    obtain rfl := List.length_eq_zero_iff.1 h
    simp
  | cons p ps ih =>
    have hsum : us.length = p.arity + rowArity ps := by
      rw [h]
      simp
    have hdrop : (us.drop p.arity).length = rowArity ps := by
      rw [List.length_drop]
      omega
    rw [List.cons_append, RowSafe, RowSafe, List.take_append_of_le_length (by omega),
      List.drop_append_of_le_length (by omega), ih hdrop, and_assoc]

theorem readRow_write (s : Str) (hlen : vs.length = rowArity row) (hsafe : RowSafe row vs) :
    readRow row (writeRow row vs ++ s) = some (vs, s) := by
  induction row generalizing vs with
  | nil =>
    obtain rfl := List.length_eq_zero_iff.1 hlen
    rfl
  | cons p ps ih =>
    have hsum : vs.length = p.arity + rowArity ps := by
      rw [hlen]
      simp [rowArity]
    have htake : (vs.take p.arity).length = p.arity := by
      rw [List.length_take]
      omega
    have hdrop : (vs.drop p.arity).length = rowArity ps := by
      rw [List.length_drop]
      omega
    rw [writeRow, List.append_assoc, readRow, Part.read_write _ htake hsafe.1, Option.bind_some, ih hdrop hsafe.2,
      Option.map_some, List.take_append_drop]

theorem readRow_safe (h : readRow row s = some (vs, rest)) : RowSafe row vs := by
  induction row generalizing s vs with
  | nil => trivial
  | cons p ps ih =>
    simp only [readRow, Option.bind_eq_some_iff, Option.map_eq_some_iff, Prod.mk.injEq] at h
    obtain ⟨⟨us, t⟩, hus, ⟨ws, u⟩, hws, rfl, rfl⟩ := h
    obtain ⟨hlen, hsafe⟩ := Part.read_safe hus
    unfold RowSafe
    simp only
    rw [List.take_left' hlen, List.drop_left' hlen]
    exact ⟨hsafe, ih hws⟩

/-- Rows as long as there are any. -/
def readRows (row : List Part) : (fuel : Nat) → Str → List (List Str) × Str
  | 0, s => ([], s)
  | fuel + 1, s =>
    match readRow row s with
    | some (vs, s) => (vs :: (readRows row fuel s).1, (readRows row fuel s).2)
    | none => ([], s)

/-- A row that begins with the tag of an element. -/
inductive StartsRow : List Part → Prop
  | intro (b : Byte) (name : Str) (names : List Str) (rest : List Part) (hb : b ≠ ch '/') :
      StartsRow (.opening (b :: name) names :: rest)
  | field (b : Byte) (name : Str) (names : List Str) (rest : List Part) (hb : b ≠ ch '/') :
      StartsRow (.field (b :: name) names :: rest)

theorem readRow_closing (h : StartsRow row) (s : Str) : readRow row (ascii "</" ++ s) = none := by
  have hexpect (b : Byte) (hb : b ≠ ch '/') (name : Str) :
      expect (ascii "<" ++ b :: name) (ascii "</" ++ s) = none := by
    simp [ascii, expect, hb]
  cases h with
  | intro b name names rest hb => simp [readRow, Part.read, hexpect b hb name]
  | field b name names rest hb => simp [readRow, Part.read, hexpect b hb name]

theorem StartsRow.pos (h : StartsRow row) (vs : List Str) : 0 < (writeRow row vs).length := by
  have htag : 0 < (ascii "<").length := by decide
  cases h <;> simp only [writeRow, Part.write, List.length_append] <;> omega

theorem readRows_write (hstarts : StartsRow row) (s : Str) {values : List (List Str)}
    (hlen : ∀ vs ∈ values, vs.length = rowArity row) (hsafe : ∀ vs ∈ values, RowSafe row vs) {fuel : Nat}
    (hfuel : values.length ≤ fuel) :
    readRows row fuel (values.flatMap (writeRow row) ++ (ascii "</" ++ s)) = (values, ascii "</" ++ s) := by
  induction values generalizing fuel with
  | nil =>
    cases fuel with
    | zero => rfl
    | succ fuel =>
      rw [List.flatMap_nil, List.nil_append, readRows, readRow_closing hstarts]
  | cons vs values ih =>
    obtain ⟨fuel, rfl⟩ : ∃ k, fuel = k + 1 := ⟨fuel - 1, by simp at hfuel; omega⟩
    rw [List.flatMap_cons, List.append_assoc, readRows,
      readRow_write _ (hlen vs (by simp)) (hsafe vs (by simp))]
    simp only
    rw [ih (fun w hw => hlen w (by simp [hw])) (fun w hw => hsafe w (by simp [hw])) (by simpa using hfuel)]

theorem readRows_safe {fuel : Nat} : ∀ vs ∈ (readRows row fuel s).1, RowSafe row vs := by
  induction fuel generalizing s with
  | zero => simp [readRows]
  | succ fuel ih =>
    unfold readRows
    split
    · rename_i us t hus
      intro vs hvs
      rcases List.mem_cons.1 hvs with rfl | hvs
      · exact readRow_safe hus
      · exact ih vs hvs
    · simp

theorem length_le_writeRows (hstarts : StartsRow row) (values : List (List Str)) :
    values.length ≤ (values.flatMap (writeRow row)).length := by
  induction values with
  | nil => simp
  | cons vs values ih =>
    have hpos := hstarts.pos vs
    simp only [List.flatMap_cons, List.length_append, List.length_cons]
    omega

end Rows

/-! ## Reports -/

structure Section where
  name : Str
  row : List Part
  starts : StartsRow row

namespace Section

def write (sec : Section) (values : List (List Str)) : Str :=
  (ascii "<" ++ (sec.name ++ ascii ">")) ++
    (values.flatMap (writeRow sec.row) ++ (ascii "</" ++ (sec.name ++ ascii ">")))

def read (sec : Section) (s : Str) : Option (List (List Str) × Str) :=
  (expect (ascii "<" ++ (sec.name ++ ascii ">")) s).bind fun s =>
  (expect (ascii "</" ++ (sec.name ++ ascii ">")) (readRows sec.row s.length s).2).map fun t =>
    ((readRows sec.row s.length s).1, t)

/-- The values have the number that the rows have holes for. -/
def Fits (sec : Section) (values : List (List Str)) : Prop := ∀ vs ∈ values, vs.length = rowArity sec.row

def Safe (sec : Section) (values : List (List Str)) : Prop := ∀ vs ∈ values, RowSafe sec.row vs

variable {sec : Section} {values : List (List Str)}

theorem read_write (s : Str) (hfits : sec.Fits values) (hsafe : sec.Safe values) :
    sec.read (sec.write values ++ s) = some (values, s) := by
  have htext : sec.write values ++ s = (ascii "<" ++ (sec.name ++ ascii ">")) ++
      (values.flatMap (writeRow sec.row) ++ (ascii "</" ++ ((sec.name ++ ascii ">") ++ s))) := by
    simp [write]
  have hle : values.length ≤
      (values.flatMap (writeRow sec.row) ++ (ascii "</" ++ ((sec.name ++ ascii ">") ++ s))).length := by
    rw [List.length_append]
    exact Nat.le_add_right_of_le (length_le_writeRows sec.starts values)
  rw [htext, read, expect_append, Option.bind_some, readRows_write sec.starts _ hfits hsafe hle]
  have hclosing : ascii "</" ++ ((sec.name ++ ascii ">") ++ s) = (ascii "</" ++ (sec.name ++ ascii ">")) ++ s :=
    (List.append_assoc _ _ _).symm
  simp only
  rw [hclosing, expect_append, Option.map_some]

theorem read_safe {s rest : Str} (h : sec.read s = some (values, rest)) : sec.Safe values := by
  simp only [read, Option.bind_eq_some_iff, Option.map_eq_some_iff, Prod.mk.injEq] at h
  obtain ⟨_, _, _, _, rfl, _⟩ := h
  exact readRows_safe

end Section

/-- The sections one after the other. -/
def writeSections : (sections : List Section) → (values : List (List (List Str))) → Str
  | sec :: secs, v :: vs => sec.write v ++ writeSections secs vs
  | _, _ => []

def readSections : (sections : List Section) → Str → Option (List (List (List Str)) × Str)
  | [], s => some ([], s)
  | sec :: secs, s => (sec.read s).bind fun r => (readSections secs r.2).map fun q => (r.1 :: q.1, q.2)

structure Report where
  prolog : Str
  root : Str
  sections : List Section

namespace Report

def write (report : Report) (values : List (List (List Str))) : Str :=
  (report.prolog ++ (ascii "<" ++ (report.root ++ ascii ">"))) ++
    (writeSections report.sections values ++ (ascii "</" ++ (report.root ++ ascii ">")))

/-- The values of the rows of every section, when all of the text is the report. -/
def read (report : Report) (s : Str) : Option (List (List (List Str))) :=
  (expect (report.prolog ++ (ascii "<" ++ (report.root ++ ascii ">"))) s).bind fun s =>
  (readSections report.sections s).bind fun r =>
  if r.2 = ascii "</" ++ (report.root ++ ascii ">") then some r.1 else none

/-- There are values for each section, as many in every row as it has holes. -/
def Fits (report : Report) (values : List (List (List Str))) : Prop :=
  List.Forall₂ (fun sec v => sec.Fits v) report.sections values

def Safe (report : Report) (values : List (List (List Str))) : Prop :=
  List.Forall₂ (fun sec v => sec.Safe v) report.sections values

theorem readSections_write {sections : List Section} {values : List (List (List Str))} (s : Str)
    (hfits : List.Forall₂ (fun sec v => sec.Fits v) sections values)
    (hsafe : List.Forall₂ (fun sec v => sec.Safe v) sections values) :
    readSections sections (writeSections sections values ++ s) = some (values, s) := by
  induction hfits with
  | nil => rfl
  | cons hfit _ ih =>
    cases hsafe with
    | cons hs hrest =>
      rw [writeSections, List.append_assoc, readSections, Section.read_write _ hfit hs, Option.bind_some, ih hrest,
        Option.map_some]

theorem readSections_safe {sections : List Section} {values : List (List (List Str))} {s rest : Str}
    (h : readSections sections s = some (values, rest)) :
    List.Forall₂ (fun sec v => sec.Safe v) sections values := by
  induction sections generalizing s values with
  | nil =>
    simp only [readSections, Option.some.injEq, Prod.mk.injEq] at h
    rw [← h.1]
    exact .nil
  | cons sec secs ih =>
    simp only [readSections, Option.bind_eq_some_iff, Option.map_eq_some_iff, Prod.mk.injEq] at h
    obtain ⟨⟨v, t⟩, hv, ⟨vs, u⟩, hvs, rfl, rfl⟩ := h
    exact .cons (Section.read_safe hv) (ih hvs)

/-- A report reads back exactly when its values are safe. -/
theorem read_write_iff (report : Report) {values : List (List (List Str))} (hfits : report.Fits values) :
    report.read (report.write values) = some values ↔ report.Safe values := by
  constructor
  · intro h
    simp only [read, Option.bind_eq_some_iff] at h
    obtain ⟨_, _, ⟨vs, t⟩, hvs, hend⟩ := h
    split at hend
    · simp only [Option.some.injEq] at hend
      subst hend
      exact readSections_safe hvs
    · cases hend
  · intro hsafe
    rw [write, read, expect_append, Option.bind_some, readSections_write _ hfits hsafe, Option.bind_some]
    simp only [if_true]

end Report

end Markup
