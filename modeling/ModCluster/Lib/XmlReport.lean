import Mathlib.Data.List.Forall2
import ModCluster.Lib.Markup
import ModCluster.Lib.XmlPlain

/-!
# Reports as XML

What a reader of XML gives back of a report: the tags of its parts with the values in
them, when the values are plain. With other values it gives back something else, or
nothing.
-/

open CString

namespace Xml.Reader

/-! ## Reading what is plain -/

variable {r : Reader}

theorem run_content {brackets brackets' : Nat} {s : Str} (hmode : r.mode = .content brackets) (hinside : r.inside ≠ [])
    (h : s.foldlM textStep brackets = some brackets') :
    r.run s = some { r with read := r.read.add s, mode := .content brackets' } := by
  induction s generalizing r brackets with
  | nil =>
    cases h
    simp [Content.add, ← hmode]
  | cons b s ih =>
    rw [List.foldlM_cons] at h
    obtain ⟨mid, hmid, hrest⟩ := Option.bind_eq_some_iff.1 h
    have hb : b ≠ ch '<' ∧ b ≠ ch '&' := by
      unfold textStep at hmid
      split at hmid
      · cases hmid
      · rename_i hb
        exact not_or.1 hb
    have hstep : r.step b = some { r with read := r.read.add [b], mode := .content mid } := by
      simp [step, hmode, content, hb, hinside, hmid]
    have hread := @ih { r with read := r.read.add [b], mode := .content mid } mid rfl hinside hrest
    rw [run_cons, hstep, Option.bind_some, hread]
    simp [Content.add]

/-- A name is read byte by byte, whatever it is the name of. -/
theorem run_name {mode : Str → Mode} {name s : Str}
    (hstep : ∀ (r : Reader) (name : Str) (b : Byte), r.mode = mode name → isNameByte b = true →
      r.step b = some (r.turn (mode (name ++ [b]))))
    (hmode : r.mode = mode name) (h : ∀ b ∈ s, isNameByte b = true) : r.run s = some (r.turn (mode (name ++ s))) := by
  induction s generalizing r name with
  | nil => simp [turn, ← hmode]
  | cons b s ih =>
    have hrest := @ih (r.turn (mode (name ++ [b]))) (name ++ [b]) rfl fun c hc => h c (by simp [hc])
    rw [run_cons, hstep r name b hmode (h b (by simp)), Option.bind_some, hrest]
    simp [turn]

theorem run_opening {name s : Str} (hmode : r.mode = .opening name) (h : ∀ b ∈ s, isNameByte b = true) :
    r.run s = some (r.turn (.opening (name ++ s))) :=
  run_name (fun r name b hmode hb => by simp [step, hmode, opening, hb]) hmode h

theorem run_naming {t : StartTag} {name s : Str} (hmode : r.mode = .naming t name) (h : ∀ b ∈ s, isNameByte b = true) :
    r.run s = some (r.turn (.naming t (name ++ s))) :=
  run_name (fun r name b hmode hb => by simp [step, hmode, naming, hb]) hmode h

theorem run_closing {name s : Str} (hmode : r.mode = .closing name) (h : ∀ b ∈ s, isNameByte b = true) :
    r.run s = some (r.turn (.closing (name ++ s))) :=
  run_name (fun r name b hmode hb => by simp [step, hmode, closing, hb]) hmode h

theorem run_value {t : StartTag} {name value s : Str} (hmode : r.mode = .value ⟨t, name, false, value⟩)
    (h : PlainValue s) : r.run s = some (r.turn (.value ⟨t, name, false, value ++ s⟩)) := by
  induction s generalizing r value with
  | nil => simp [turn, ← hmode]
  | cons b s ih =>
    have hb := h b (by simp)
    unfold isPlain at hb
    simp only [Bool.and_eq_true, bne_iff_ne, ne_eq] at hb
    obtain ⟨⟨⟨⟨⟨hless, hand⟩, hquote⟩, htab⟩, hfeed⟩, hreturn⟩ := hb
    have hkept : (if isWhite b then 32 else b) = b := by
      by_cases hblank : b = 32
      · rw [hblank]
        rfl
      · simp [isWhite, hblank, htab, hfeed, hreturn]
    have hstep : r.step b = some (r.turn (.value ⟨t, name, false, value ++ [b]⟩)) := by
      simp [step, hmode, Reader.value, Attribute.quote, hless, hand, hquote, hkept]
    have hrest := @ih (r.turn (.value ⟨t, name, false, value ++ [b]⟩)) _ rfl fun c hc => h c (by simp [hc])
    rw [run_cons, hstep, Option.bind_some, hrest]
    simp [turn]

/-! ### Start tags -/

/-- The reader is in a start tag, behind its name or behind an attribute. -/
def Behind (mode : Mode) (t : StartTag) : Prop :=
  (mode = .opening t.name ∧ t.attributes = []) ∨ ∃ spaced, mode = .tag t spaced

theorem behind_space {t : StartTag} (h : Behind r.mode t) : r.step (ch ' ') = some (r.turn (.tag t true)) := by
  rcases h with ⟨hmode, hattributes⟩ | ⟨spaced, hmode⟩
  · obtain ⟨name, attributes⟩ := t
    subst hattributes
    simp [step, hmode, opening, show isNameByte (ch ' ') = false by decide, show isWhite (ch ' ') = true by decide]
  · simp [step, hmode, inTag, show isWhite (ch ' ') = true by decide]

theorem behind_slash {t : StartTag} (h : Behind r.mode t) : r.step (ch '/') = some (r.turn (.slash t)) := by
  rcases h with ⟨hmode, hattributes⟩ | ⟨spaced, hmode⟩
  · obtain ⟨name, attributes⟩ := t
    subst hattributes
    simp [step, hmode, opening, show isNameByte (ch '/') = false by decide, show isWhite (ch '/') = false by decide]
  · simp [step, hmode, inTag, show isWhite (ch '/') = false by decide]

theorem behind_end {t : StartTag} (h : Behind r.mode t) : r.step (ch '>') = r.enter t := by
  rcases h with ⟨hmode, hattributes⟩ | ⟨spaced, hmode⟩
  · obtain ⟨name, attributes⟩ := t
    subst hattributes
    simp [step, hmode, opening, show isNameByte (ch '>') = false by decide, show isWhite (ch '>') = false by decide,
      show ch '>' ≠ ch '/' by decide]
  · simp [step, hmode, inTag, show isWhite (ch '>') = false by decide, show ch '>' ≠ ch '/' by decide]

end Xml.Reader

namespace Xml

def isTagName (s : Str) : Bool := s.all isNameByte && isName s && encoded s && !s.contains 13

section Names

variable {name : Str}

theorem isTagName_bytes (h : isTagName name = true) : ∀ b ∈ name, isNameByte b = true := by
  simp only [isTagName, Bool.and_eq_true] at h
  exact List.all_eq_true.1 h.1.1.1

theorem isTagName_name (h : isTagName name = true) : isName name = true := by
  simp only [isTagName, Bool.and_eq_true] at h
  exact h.1.1.2

theorem isTagName_cons (h : isTagName name = true) : ∃ b s, name = b :: s := by
  cases name with
  | nil =>
    have hname := isTagName_name h
    cases hname
  | cons b s => exact ⟨b, s, rfl⟩

theorem weigh_name (h : isTagName name = true) : weigh name = 0 := by
  have hbytes := isTagName_bytes h
  clear h
  induction name with
  | nil => rfl
  | cons b s ih =>
    rw [weigh_cons, weight_eq_zero (by decide) (hbytes b (by simp)), ih fun c hc => hbytes c (by simp [hc])]

end Names

namespace Reader

variable {r : Reader}

theorem run_attribute {t : StartTag} {name value : Str} (hmode : Behind r.mode t) (hname : isTagName name = true)
    (hnew : name ∉ t.attributes.map (·.1)) (hvalue : PlainValue value) :
    r.run (ascii " " ++ (name ++ (ascii "=\"" ++ (value ++ ascii "\"")))) =
      some (r.turn (.tag ⟨t.name, t.attributes ++ [(name, value)]⟩ false)) := by
  obtain ⟨b, s, hcons⟩ := isTagName_cons hname
  have hbytes := isTagName_bytes hname
  rw [hcons] at hbytes
  have hb : isNameByte b = true := hbytes b (by simp)
  have hother (c : Byte) (hc : isNameByte c = false) : b ≠ c := by
    rintro rfl
    rw [hb] at hc
    cases hc
  have hfirst : (r.turn (.tag t true)).step b = some (r.turn (.naming t [b])) := by
    have hwhite : isWhite b = false := by
      simp [isWhite, hother 32 (by decide), hother 9 (by decide), hother 10 (by decide), hother 13 (by decide)]
    simp [step, inTag, turn, hwhite, hb, hother (ch '/') (by decide), hother (ch '>') (by decide)]
  have hrest := @run_naming (r.turn (.naming t [b])) t [b] s rfl fun c hc => hbytes c (by simp [hc])
  rw [List.singleton_append, ← hcons] at hrest
  have hequals : (r.turn (.naming t name)).step (ch '=') = some (r.turn (.quote t name)) := by
    simp [step, naming, turn, show isNameByte (ch '=') = false by decide, show isWhite (ch '=') = false by decide]
  have hquote : (r.turn (.quote t name)).step (ch '"') = some (r.turn (.value ⟨t, name, false, []⟩)) := by
    simp [step, quote, turn, show isWhite (ch '"') = false by decide, show (ch '"' == ch '\'') = false by decide]
  have hread := @run_value (r.turn (.value ⟨t, name, false, []⟩)) t name [] value rfl hvalue
  have hfresh : t.attributes.all (·.1 != name) = true := by
    rw [List.all_eq_true]
    exact fun a ha => bne_iff_ne.2 fun heq => hnew (heq ▸ List.mem_map_of_mem ha)
  have hend : (r.turn (.value ⟨t, name, false, value⟩)).step (ch '"') =
      some (r.turn (.tag ⟨t.name, t.attributes ++ [(name, value)]⟩ false)) := by
    simp only [step, turn, Reader.value, Attribute.quote, Bool.false_eq_true, if_false, if_true]
    rw [if_pos (by rw [isTagName_name hname, hfresh]; rfl)]
  have htext : ascii " " ++ (name ++ (ascii "=\"" ++ (value ++ ascii "\""))) =
      ch ' ' :: b :: (s ++ (ch '=' :: ch '"' :: (value ++ [ch '"']))) := by
    rw [hcons]
    rfl
  calc r.run (ascii " " ++ (name ++ (ascii "=\"" ++ (value ++ ascii "\""))))
      = (r.turn (.tag t true)).run (b :: (s ++ (ch '=' :: ch '"' :: (value ++ [ch '"'])))) := by
        rw [htext, run_cons, behind_space hmode, Option.bind_some]
    _ = (r.turn (.naming t name)).run (ch '=' :: ch '"' :: (value ++ [ch '"'])) := by
        rw [run_cons, hfirst, Option.bind_some, run_append, hrest, Option.bind_some]
        rfl
    _ = (r.turn (.value ⟨t, name, false, []⟩)).run (value ++ [ch '"']) := by
        rw [run_cons, hequals, Option.bind_some, run_cons, hquote, Option.bind_some]
    _ = (r.turn (.value ⟨t, name, false, value⟩)).run [ch '"'] := by
        rw [run_append, hread, Option.bind_some]
        rfl
    _ = some (r.turn (.tag ⟨t.name, t.attributes ++ [(name, value)]⟩ false)) := by
        rw [run_cons, hend, Option.bind_some, run_nil]

theorem run_attributes {t : StartTag} {names values : List Str} (hmode : Behind r.mode t)
    (hnames : ∀ a ∈ names, isTagName a = true) (hnodup : names.Nodup)
    (hnew : ∀ a ∈ names, a ∉ t.attributes.map (·.1)) (hvalues : ∀ v ∈ values, PlainValue v) :
    ∃ mode, r.run (Markup.attributes names values) = some (r.turn mode) ∧
      Behind mode ⟨t.name, t.attributes ++ names.zip values⟩ := by
  induction names generalizing r t values with
  | nil => exact ⟨r.mode, rfl, by simpa using hmode⟩
  | cons a as ih =>
    cases values with
    | nil => exact ⟨r.mode, rfl, by simpa using hmode⟩
    | cons v vs =>
      obtain ⟨hfresh, hrest⟩ := List.nodup_cons.1 hnodup
      have hfirst := run_attribute hmode (hnames a (by simp)) (hnew a (by simp)) (hvalues v (by simp))
      have hlater : ∀ b ∈ as, b ∉ (t.attributes ++ [(a, v)]).map (·.1) := by
        intro b hb
        rw [List.map_append, List.mem_append, not_or]
        refine ⟨hnew b (by simp [hb]), fun hmem => hfresh ?_⟩
        rw [List.map_singleton, List.mem_singleton] at hmem
        have heq : b = a := hmem
        exact heq ▸ hb
      obtain ⟨mode, hrun, hbehind⟩ := @ih (r.turn (.tag ⟨t.name, t.attributes ++ [(a, v)]⟩ false))
        ⟨t.name, t.attributes ++ [(a, v)]⟩ vs (Or.inr ⟨false, rfl⟩) (fun b hb => hnames b (by simp [hb])) hrest hlater
        fun w hw => hvalues w (by simp [hw])
      refine ⟨mode, ?_, by simpa using hbehind⟩
      have htext : Markup.attributes (a :: as) (v :: vs) =
          (ascii " " ++ (a ++ (ascii "=\"" ++ (v ++ ascii "\"")))) ++ Markup.attributes as vs := by
        simp [Markup.attributes]
      rw [htext, run_append, hfirst, Option.bind_some, hrun]
      rfl

/-- A start tag up to its end. -/
theorem run_start {brackets : Nat} {name : Str} {names values : List Str} (hmode : r.mode = .content brackets)
    (hroom : r.inside ≠ [] ∨ r.read.tags = []) (hname : isTagName name = true)
    (hnames : ∀ a ∈ names, isTagName a = true) (hnodup : names.Nodup) (hvalues : ∀ v ∈ values, PlainValue v) :
    ∃ mode, r.run (ascii "<" ++ (name ++ Markup.attributes names values)) = some (r.turn mode) ∧
      Behind mode ⟨name, names.zip values⟩ := by
  obtain ⟨b, s, hcons⟩ := isTagName_cons hname
  have hbytes := isTagName_bytes hname
  rw [hcons] at hbytes
  have hb : isNameByte b = true := hbytes b (by simp)
  have hother (c : Byte) (hc : isNameByte c = false) : b ≠ c := by
    rintro rfl
    rw [hb] at hc
    cases hc
  have hless : r.step (ch '<') = some (r.turn .markup) := by
    simp [step, hmode, content]
  have hfirst : (r.turn .markup).step b = some (r.turn (.opening [b])) := by
    simp [step, markup, turn, hb, hroom, hother (ch '/') (by decide), hother (ch '!') (by decide),
      hother (ch '?') (by decide)]
  have hrest := @run_opening (r.turn (.opening [b])) [b] s rfl fun c hc => hbytes c (by simp [hc])
  rw [List.singleton_append, ← hcons] at hrest
  obtain ⟨mode, hrun, hbehind⟩ := @run_attributes (r.turn (.opening name)) ⟨name, []⟩ names values (Or.inl ⟨rfl, rfl⟩)
    hnames hnodup (by simp) hvalues
  refine ⟨mode, ?_, by simpa using hbehind⟩
  have htext : ascii "<" ++ (name ++ Markup.attributes names values) =
      ch '<' :: b :: (s ++ Markup.attributes names values) := by
    rw [hcons]
    rfl
  rw [htext, run_cons, hless, Option.bind_some, run_cons, hfirst, Option.bind_some, run_append, hrest, Option.bind_some]
  exact hrun

theorem run_end {brackets : Nat} {name : Str} {inside : List Str} (hmode : r.mode = .content brackets)
    (hinside : r.inside = name :: inside) (hname : isTagName name = true) :
    r.run (ascii "</" ++ (name ++ ascii ">")) = some ⟨r.read.tag (.closing name), inside, .content 0⟩ := by
  have hless : r.step (ch '<') = some (r.turn .markup) := by
    simp [step, hmode, content]
  have hslash : (r.turn .markup).step (ch '/') = some (r.turn (.closing [])) := by
    simp [step, markup, turn]
  have hread := @run_closing (r.turn (.closing [])) [] name rfl (isTagName_bytes hname)
  have hend : (r.turn (.closing name)).step (ch '>') = some ⟨r.read.tag (.closing name), inside, .content 0⟩ := by
    simp [step, closing, leave, turn, hinside, show isNameByte (ch '>') = false by decide,
      show isWhite (ch '>') = false by decide]
  have htext : ascii "</" ++ (name ++ ascii ">") = ch '<' :: ch '/' :: (name ++ [ch '>']) := rfl
  rw [htext, run_cons, hless, Option.bind_some, run_cons, hslash, Option.bind_some, run_append, hread, Option.bind_some,
    List.nil_append]
  show (r.turn (.closing name)).run [ch '>'] = _
  rw [run_cons, hend, Option.bind_some, run_nil]

end Reader

end Xml

namespace Markup

open Xml

/-! ## Parts of a row -/

namespace Part

/-- What a reader makes of the part. -/
def put : Part → List Str → Content → Content
  | opening name names, vs, c => c.tag (.opening name (names.zip vs))
  | single name names, vs, c => (c.tag (.opening name (names.zip vs))).tag (.closing name)
  | field name names, vs, c => ((c.tag (.opening name (names.zip vs))).add (vs.getLastD [])).tag (.closing name)
  | closing name, _, c => c.tag (.closing name)
  | blank s, _, c => c.add s

/-- The elements that are open behind the part. -/
def inside : Part → List Str → Option (List Str)
  | opening name _, st => some (name :: st)
  | closing name, inner :: st => if inner = name then some st else none
  | closing _, [] => none
  | _, st => some st

def named : Part → Bool
  | opening name names => isTagName name && names.all isTagName && decide names.Nodup
  | single name names => isTagName name && names.all isTagName && decide names.Nodup
  | field name names => isTagName name && names.all isTagName && decide names.Nodup
  | closing name => isTagName name
  | blank s => s.foldlM textStep 0 == some 0 && encoded s && !s.contains 13

/-- The values stand as they are. -/
def Plain : Part → List Str → Prop
  | opening _ _, vs => ∀ v ∈ vs, PlainValue v
  | single _ _, vs => ∀ v ∈ vs, PlainValue v
  | field _ _, vs => (∀ v ∈ vs.dropLast, PlainValue v) ∧ PlainText (vs.getLastD [])
  | closing _, _ => True
  | blank _, _ => True

variable {p : Part} {vs : List Str}

theorem zip_take (names vs : List Str) : names.zip vs = names.zip (vs.take names.length) := by
  induction names generalizing vs with
  | nil => rfl
  | cons a as ih =>
    cases vs with
    | nil => rfl
    | cons v vs => rw [List.zip_cons_cons, List.length_cons, List.take_succ_cons, List.zip_cons_cons, ← ih vs]

theorem dropLast_arity {name : Str} {names : List Str} (h : vs.length = (field name names).arity) :
    vs.dropLast.length = names.length ∧ attributes names vs = attributes names vs.dropLast ∧
      names.zip vs = names.zip vs.dropLast := by
  rw [arity] at h
  have hinit : vs.take names.length = vs.dropLast := by
    rw [List.dropLast_eq_take, h, Nat.add_sub_cancel]
  exact ⟨by rw [List.length_dropLast, h, Nat.add_sub_cancel], by rw [attributes_take, hinit], by rw [zip_take, hinit]⟩

theorem run_write {r : Reader} {inside' : List Str} (hlen : vs.length = p.arity) (hnamed : p.named = true)
    (hplain : p.Plain vs) (hmode : r.mode = .content 0) (hroom : r.inside ≠ [] ∨ r.read.tags = [])
    (hblank : ∀ s, p = .blank s → r.inside ≠ []) (hinside : p.inside r.inside = some inside') :
    r.run (p.write vs) = some ⟨p.put vs r.read, inside', .content 0⟩ := by
  cases p with
  | opening name names =>
    cases hinside
    simp only [named, Bool.and_eq_true, decide_eq_true_eq, List.all_eq_true] at hnamed
    obtain ⟨⟨hname, hnames⟩, hnodup⟩ := hnamed
    obtain ⟨mode, hrun, hbehind⟩ := Reader.run_start hmode hroom hname hnames hnodup hplain
    have htext : (opening name names).write vs = (ascii "<" ++ (name ++ attributes names vs)) ++ [ch '>'] := by
      simp [write, ascii]
    have hend : (r.turn mode).step (ch '>') = (r.turn mode).enter ⟨name, names.zip vs⟩ := Reader.behind_end hbehind
    rw [htext, Reader.run_append, hrun, Option.bind_some, Reader.run_cons, hend, Reader.enter,
      if_pos (isTagName_name hname)]
    rfl
  | single name names =>
    cases hinside
    simp only [named, Bool.and_eq_true, decide_eq_true_eq, List.all_eq_true] at hnamed
    obtain ⟨⟨hname, hnames⟩, hnodup⟩ := hnamed
    obtain ⟨mode, hrun, hbehind⟩ := Reader.run_start hmode hroom hname hnames hnodup hplain
    have htext : (single name names).write vs =
        (ascii "<" ++ (name ++ attributes names vs)) ++ (ch '/' :: [ch '>']) := by
      simp [write, ascii]
    have hslash : (r.turn mode).step (ch '/') = some ((r.turn mode).turn (.slash ⟨name, names.zip vs⟩)) :=
      Reader.behind_slash hbehind
    have hend : ((r.turn mode).turn (.slash ⟨name, names.zip vs⟩)).step (ch '>') =
        some ⟨(single name names).put vs r.read, r.inside, .content 0⟩ := by
      simp [Reader.step, Reader.slash, Reader.enter, Reader.leave, Reader.turn, isTagName_name hname, put]
    rw [htext, Reader.run_append, hrun, Option.bind_some, Reader.run_cons, hslash, Option.bind_some, Reader.run_cons,
      hend, Option.bind_some, Reader.run_nil]
  | field name names =>
    cases hinside
    simp only [named, Bool.and_eq_true, decide_eq_true_eq, List.all_eq_true] at hnamed
    obtain ⟨⟨hname, hnames⟩, hnodup⟩ := hnamed
    obtain ⟨hvalues, htext⟩ := hplain
    obtain ⟨-, hattributes, hzip⟩ := dropLast_arity hlen
    obtain ⟨mode, hrun, hbehind⟩ := Reader.run_start hmode hroom hname hnames hnodup hvalues
    have hwrite : (field name names).write vs = (ascii "<" ++ (name ++ attributes names vs.dropLast)) ++
        (ch '>' :: (vs.getLastD [] ++ (ascii "</" ++ (name ++ ascii ">")))) := by
      rw [write, hattributes]
      simp [ascii]
    have hend : (r.turn mode).step (ch '>') = (r.turn mode).enter ⟨name, names.zip vs⟩ := by
      rw [hzip]
      exact Reader.behind_end hbehind
    obtain ⟨brackets, hbrackets⟩ := Option.isSome_iff_exists.1 htext
    have hdata := @Reader.run_content ⟨r.read.tag (.opening name (names.zip vs)), name :: r.inside, .content 0⟩ 0
      brackets (vs.getLastD []) rfl (List.cons_ne_nil _ _) hbrackets
    have hclose := @Reader.run_end ⟨(r.read.tag (.opening name (names.zip vs))).add (vs.getLastD []), name :: r.inside,
      .content brackets⟩ brackets name r.inside rfl rfl hname
    rw [hwrite, Reader.run_append, hrun, Option.bind_some, Reader.run_cons, hend, Reader.enter,
      if_pos (isTagName_name hname), Option.bind_some, Reader.run_append]
    show (Reader.run ⟨r.read.tag (.opening name (names.zip vs)), name :: r.inside, .content 0⟩ _).bind _ = _
    rw [hdata, Option.bind_some]
    exact hclose
  | closing name =>
    cases hst : r.inside with
    | nil =>
      rw [hst] at hinside
      cases hinside
    | cons inner st =>
      rw [hst, inside] at hinside
      split at hinside
      · rename_i heq
        cases hinside
        exact Reader.run_end hmode (heq ▸ hst) hnamed
      · cases hinside
  | blank s =>
    cases hinside
    simp only [named, Bool.and_eq_true, beq_iff_eq] at hnamed
    exact Reader.run_content hmode (hblank s rfl) hnamed.1.1

/-! ### Weights of parts -/

theorem weigh_attributes {names values : List Str} (hnames : ∀ a ∈ names, isTagName a = true) :
    weigh (attributes names values) = weighAttributes (names.zip values) := by
  induction names generalizing values with
  | nil => rfl
  | cons a as ih =>
    cases values with
    | nil => rfl
    | cons v vs =>
      have hzip : (a :: as).zip (v :: vs) = [(a, v)] ++ as.zip vs := rfl
      have hspace : weigh (ascii " ") = 0 := by decide
      have hopen : weigh (ascii "=\"") = 1 := by decide
      have hclose : weigh (ascii "\"") = 1 := by decide
      rw [hzip, weighAttributes_append, weighAttributes_one, ← ih fun b hb => hnames b (by simp [hb])]
      simp only [attributes, weigh_append, weigh_name (hnames a (by simp)), hspace, hopen, hclose]
      omega

/-- What a part adds weighs as much as its text. -/
theorem weigh_put (c : Content) (hlen : vs.length = p.arity) (hnamed : p.named = true) :
    (p.put vs c).weigh = c.weigh + weigh (p.write vs) := by
  have hless : weigh (ascii "<") = 0 := by decide
  have hend : weigh (ascii ">") = 0 := by decide
  have hsingle : weigh (ascii "/>") = 0 := by decide
  have hclose : weigh (ascii "</") = 0 := by decide
  cases p with
  | opening name names =>
    simp only [named, Bool.and_eq_true, decide_eq_true_eq, List.all_eq_true] at hnamed
    simp only [put, write, Content.weigh_tag, Tag.weigh, weigh_append, weigh_name hnamed.1.1,
      weigh_attributes hnamed.1.2, hless, hend]
    omega
  | single name names =>
    simp only [named, Bool.and_eq_true, decide_eq_true_eq, List.all_eq_true] at hnamed
    simp only [put, write, Content.weigh_tag, Tag.weigh, weigh_append, weigh_name hnamed.1.1,
      weigh_attributes hnamed.1.2, hless, hsingle]
    omega
  | field name names =>
    simp only [named, Bool.and_eq_true, decide_eq_true_eq, List.all_eq_true] at hnamed
    simp only [put, write, Content.weigh_tag, Content.weigh_add, Tag.weigh, weigh_append, weigh_name hnamed.1.1,
      weigh_attributes hnamed.1.2, hless, hend, hclose]
    omega
  | closing name =>
    simp only [put, write, Content.weigh_tag, Tag.weigh, weigh_append, weigh_name hnamed, hclose, hend]
  | blank s => rw [put, write, Content.weigh_add]

/-! ### What was plain -/

theorem put_tags (c : Content) : c.tags <+: (p.put vs c).tags := by
  cases p with
  | opening name names => exact List.prefix_append _ _
  | single name names => exact (List.prefix_append _ _).trans (List.prefix_append _ _)
  | field name names => exact (List.prefix_append _ _).trans (List.prefix_append _ _)
  | closing name => exact List.prefix_append _ _
  | blank s => exact List.prefix_rfl

theorem plainValues_of_zip {names values : List Str} (hlen : values.length = names.length)
    (h : PlainAttributes (names.zip values)) : ∀ v ∈ values, PlainValue v := by
  intro v hv
  rw [← List.map_snd_zip (Nat.le_of_eq hlen), List.mem_map] at hv
  obtain ⟨a, ha, rfl⟩ := hv
  exact h a ha

theorem plain_of_put {c : Content} (hlen : vs.length = p.arity) (h : PlainTags (p.put vs c).tags) : p.Plain vs := by
  cases p with
  | opening name names =>
    have htag := (h (c.text, .opening name (names.zip vs)) (by simp [put, Content.tag])).2
    exact plainValues_of_zip hlen htag
  | single name names =>
    have htag := (h (c.text, .opening name (names.zip vs)) (by simp [put, Content.tag])).2
    exact plainValues_of_zip hlen htag
  | field name names =>
    obtain ⟨hcount, -, hzip⟩ := dropLast_arity hlen
    have htag := (h (c.text, .opening name (names.zip vs)) (by simp [put, Content.tag, Content.add])).2
    have htext := (h (vs.getLastD [], .closing name) (by simp [put, Content.tag, Content.add])).1
    rw [hzip] at htag
    exact ⟨plainValues_of_zip hcount htag, htext⟩
  | closing name => trivial
  | blank s => trivial

/-! ### Different values -/

theorem zip_inj {names values values' : List Str} (hlen : values.length = names.length)
    (hlen' : values'.length = names.length) (h : names.zip values = names.zip values') : values = values' := by
  have hsnd := congrArg (List.map Prod.snd) h
  rwa [List.map_snd_zip (by omega), List.map_snd_zip (by omega)] at hsnd

theorem put_inj {us : List Str} {c d : Content} (hvs : vs.length = p.arity) (hus : us.length = p.arity)
    (h : p.put vs c = p.put us d) : vs = us ∧ c = d := by
  have hcontent {c d : Content} (htags : c.tags = d.tags) (htext : c.text = d.text) : c = d := by
    cases c
    cases d
    simp_all
  cases p with
  | opening name names =>
    simp only [put, Content.tag, Content.mk.injEq, and_true] at h
    obtain ⟨htags, hlast⟩ := List.append_inj' h rfl
    simp only [List.cons.injEq, Prod.mk.injEq, Tag.opening.injEq, true_and, and_true] at hlast
    exact ⟨zip_inj hvs hus hlast.2, hcontent htags hlast.1⟩
  | single name names =>
    simp only [put, Content.tag, Content.mk.injEq, and_true] at h
    obtain ⟨htags, hlast⟩ := List.append_inj' (List.append_inj' h rfl).1 rfl
    simp only [List.cons.injEq, Prod.mk.injEq, Tag.opening.injEq, true_and, and_true] at hlast
    exact ⟨zip_inj hvs hus hlast.2, hcontent htags hlast.1⟩
  | field name names =>
    simp only [put, Content.tag, Content.add, List.nil_append, Content.mk.injEq, and_true] at h
    obtain ⟨hfront, hvalue⟩ := List.append_inj' h rfl
    obtain ⟨htags, hlast⟩ := List.append_inj' hfront rfl
    simp only [List.cons.injEq, Prod.mk.injEq, Tag.opening.injEq, true_and, and_true] at hlast hvalue
    have hne {ws : List Str} (hws : ws.length = (field name names).arity) : ws ≠ [] := by
      rintro rfl
      cases hws
    obtain ⟨hcount, -, hzip⟩ := dropLast_arity hvs
    obtain ⟨hcount', -, hzip'⟩ := dropLast_arity hus
    have hattributes : names.zip vs.dropLast = names.zip us.dropLast := by rw [← hzip, ← hzip', hlast.2]
    refine ⟨?_, hcontent htags hlast.1⟩
    rw [← dropLast_getLastD (hne hvs), ← dropLast_getLastD (hne hus), zip_inj hcount hcount' hattributes, hvalue]
  | closing name =>
    simp only [put, Content.tag, Content.mk.injEq, and_true] at h
    obtain ⟨htags, hlast⟩ := List.append_inj' h rfl
    simp only [List.cons.injEq, Prod.mk.injEq, and_true] at hlast
    refine ⟨?_, hcontent htags hlast⟩
    rw [List.length_eq_zero_iff.1 hvs, List.length_eq_zero_iff.1 hus]
  | blank s =>
    simp only [put, Content.add, Content.mk.injEq] at h
    refine ⟨?_, hcontent h.1 (List.append_cancel_right h.2)⟩
    rw [List.length_eq_zero_iff.1 hvs, List.length_eq_zero_iff.1 hus]

end Part

/-! ## Rows -/

def putRow : (row : List Part) → (values : List Str) → Content → Content
  | [], _, c => c
  | p :: ps, vs, c => putRow ps (vs.drop p.arity) (p.put (vs.take p.arity) c)

/-- The elements that are open behind the row, in which nothing stands outside an element. -/
def rowInside : (row : List Part) → List Str → Option (List Str)
  | [], st => some st
  | p :: ps, st => if st = [] then none else (p.inside st).bind (rowInside ps)

def RowPlain : (row : List Part) → (values : List Str) → Prop
  | [], _ => True
  | p :: ps, vs => p.Plain (vs.take p.arity) ∧ RowPlain ps (vs.drop p.arity)

section Rows

variable {row : List Part} {vs us : List Str} {c d : Content}

theorem length_take_drop {p : Part} (h : vs.length = rowArity (p :: row)) :
    (vs.take p.arity).length = p.arity ∧ (vs.drop p.arity).length = rowArity row := by
  have hsum : vs.length = p.arity + rowArity row := by
    rw [h]
    simp
  rw [List.length_take, List.length_drop]
  omega

theorem run_writeRow {r : Reader} {inside' : List Str} (hlen : vs.length = rowArity row)
    (hnamed : ∀ p ∈ row, p.named = true) (hplain : RowPlain row vs) (hmode : r.mode = .content 0)
    (hinside : rowInside row r.inside = some inside') :
    r.run (writeRow row vs) = some ⟨putRow row vs r.read, inside', .content 0⟩ := by
  induction row generalizing r vs with
  | nil =>
    cases hinside
    rw [writeRow, Reader.run_nil, putRow, ← hmode]
  | cons p ps ih =>
    obtain ⟨htake, hdrop⟩ := length_take_drop hlen
    rw [rowInside] at hinside
    split at hinside
    · cases hinside
    rename_i hne
    obtain ⟨st, hst, hrest⟩ := Option.bind_eq_some_iff.1 hinside
    have hpart := Part.run_write htake (hnamed p (by simp)) hplain.1 hmode (Or.inl hne) (fun _ _ => hne) hst
    rw [writeRow, Reader.run_append, hpart, Option.bind_some]
    exact ih hdrop (fun q hq => hnamed q (by simp [hq])) hplain.2 rfl hrest

theorem weigh_putRow (hlen : vs.length = rowArity row) (hnamed : ∀ p ∈ row, p.named = true) :
    (putRow row vs c).weigh = c.weigh + weigh (writeRow row vs) := by
  induction row generalizing vs c with
  | nil => rfl
  | cons p ps ih =>
    obtain ⟨htake, hdrop⟩ := length_take_drop hlen
    rw [putRow, ih hdrop fun q hq => hnamed q (by simp [hq]), Part.weigh_put _ htake (hnamed p (by simp)), writeRow,
      weigh_append, Nat.add_assoc]

theorem putRow_tags : c.tags <+: (putRow row vs c).tags := by
  induction row generalizing vs c with
  | nil => exact List.prefix_rfl
  | cons p ps ih => exact (Part.put_tags c).trans ih

theorem plain_of_putRow (hlen : vs.length = rowArity row) (h : PlainTags (putRow row vs c).tags) : RowPlain row vs := by
  induction row generalizing vs c with
  | nil => trivial
  | cons p ps ih =>
    obtain ⟨htake, hdrop⟩ := length_take_drop hlen
    have hfront : (p.put (vs.take p.arity) c).tags <+: (putRow (p :: ps) vs c).tags := putRow_tags
    exact ⟨Part.plain_of_put htake fun x hx => h x (hfront.subset hx), ih hdrop h⟩

theorem putRow_inj (hvs : vs.length = rowArity row) (hus : us.length = rowArity row)
    (h : putRow row vs c = putRow row us d) : vs = us ∧ c = d := by
  induction row generalizing vs us c d with
  | nil =>
    rw [List.length_eq_zero_iff.1 hvs, List.length_eq_zero_iff.1 hus]
    exact ⟨rfl, h⟩
  | cons p ps ih =>
    obtain ⟨htake, hdrop⟩ := length_take_drop hvs
    obtain ⟨htake', hdrop'⟩ := length_take_drop hus
    obtain ⟨hrest, hput⟩ := ih hdrop hdrop' h
    obtain ⟨hfirst, hcontent⟩ := Part.put_inj htake htake' hput
    refine ⟨?_, hcontent⟩
    rw [← List.take_append_drop p.arity vs, ← List.take_append_drop p.arity us, hfirst, hrest]

/-- Nothing stands behind the tag that ends the root. -/
theorem putRow_text {st : List Str} (hst : st ≠ []) (h : rowInside row st = some []) : (putRow row vs c).text = [] := by
  induction row generalizing vs c st with
  | nil =>
    cases h
    exact absurd rfl hst
  | cons p ps ih =>
    rw [rowInside, if_neg hst] at h
    obtain ⟨st', hst', hrest⟩ := Option.bind_eq_some_iff.1 h
    by_cases hend : st' = []
    · subst hend
      cases ps with
      | nil =>
        cases p with
        | opening name names => cases hst'
        | single name names => exact rfl
        | field name names => exact rfl
        | closing name => exact rfl
        | blank s =>
          cases hst'
          exact absurd rfl hst
      | cons q qs =>
        rw [rowInside, if_pos rfl] at hrest
        cases hrest
    · exact ih hend hrest

end Rows

/-! ## Encoding -/

/-- The text is in the encoding of the document, and no line end in it changes. -/
def Stable (s : Str) : Prop := encoded s = true ∧ 13 ∉ s

instance (s : Str) : Decidable (Stable s) := inferInstanceAs (Decidable (_ ∧ _))

theorem stable_append {s : Str} (t : Str) (h : Stable s) : Stable (s ++ t) ↔ Stable t := by
  unfold Stable
  rw [encoded_append t h.1, List.mem_append, not_or, and_iff_right h.2]

theorem stable_cut {s : Str} {b : Byte} (t : Str) (hb : b < 128) :
    Stable (s ++ b :: t) ↔ Stable s ∧ Stable (b :: t) := by
  constructor
  · intro h
    have hs : Stable s := ⟨encoded_of_append hb h.1, fun hmem => h.2 (List.mem_append_left _ hmem)⟩
    exact ⟨hs, (stable_append _ hs).1 h⟩
  · intro h
    exact (stable_append _ h.1).2 h.2

theorem stable_name {name : Str} (h : isTagName name = true) : Stable name := by
  simp only [isTagName, Bool.and_eq_true, Bool.not_eq_true', List.contains_eq_mem, decide_eq_false_iff_not] at h
  exact ⟨h.1.2, h.2⟩

namespace Part

variable {p : Part} {vs : List Str}

theorem stable_attributes {names values : List Str} (s : Str) (hlen : values.length = names.length)
    (hnames : ∀ a ∈ names, isTagName a = true) :
    Stable (attributes names values ++ s) ↔ (∀ v ∈ values, Stable v) ∧ Stable s := by
  induction names generalizing values with
  | nil =>
    rw [List.length_eq_zero_iff.1 hlen]
    simp [attributes]
  | cons a as ih =>
    obtain ⟨v, vs, rfl⟩ := List.exists_cons_of_length_eq_add_one hlen
    have hspace : Stable (ascii " ") := by decide
    have hopen : Stable (ascii "=\"") := by decide
    have hclose : Stable (ascii "\"") := by decide
    have htext : attributes (a :: as) (v :: vs) ++ s =
        ascii " " ++ (a ++ (ascii "=\"" ++ (v ++ ch '"' :: (attributes as vs ++ s)))) := by
      simp [attributes, ascii]
    have hrest : ch '"' :: (attributes as vs ++ s) = ascii "\"" ++ (attributes as vs ++ s) := rfl
    rw [htext, stable_append _ hspace, stable_append _ (stable_name (hnames a (by simp))), stable_append _ hopen,
      stable_cut _ (by decide), hrest, stable_append _ hclose,
      ih (by simpa using hlen) fun b hb => hnames b (by simp [hb]), List.forall_mem_cons, and_assoc]

theorem stable_write (s : Str) (hlen : vs.length = p.arity) (hnamed : p.named = true) :
    Stable (p.write vs ++ s) ↔ (∀ v ∈ vs, Stable v) ∧ Stable s := by
  have hless : Stable (ascii "<") := by decide
  have hend : Stable (ascii ">") := by decide
  have hsingle : Stable (ascii "/>") := by decide
  have hclose : Stable (ascii "</") := by decide
  cases p with
  | opening name names =>
    simp only [named, Bool.and_eq_true, decide_eq_true_eq, List.all_eq_true] at hnamed
    simp only [write, List.append_assoc]
    rw [stable_append _ hless, stable_append _ (stable_name hnamed.1.1), stable_attributes _ hlen hnamed.1.2,
      stable_append _ hend]
  | single name names =>
    simp only [named, Bool.and_eq_true, decide_eq_true_eq, List.all_eq_true] at hnamed
    simp only [write, List.append_assoc]
    rw [stable_append _ hless, stable_append _ (stable_name hnamed.1.1), stable_attributes _ hlen hnamed.1.2,
      stable_append _ hsingle]
  | field name names =>
    simp only [named, Bool.and_eq_true, decide_eq_true_eq, List.all_eq_true] at hnamed
    obtain ⟨hcount, hattributes, -⟩ := dropLast_arity hlen
    have hne : vs ≠ [] := by
      rintro rfl
      cases hlen
    have hvalues : (∀ v ∈ vs, Stable v) ↔ (∀ v ∈ vs.dropLast, Stable v) ∧ Stable (vs.getLastD []) := by
      conv_lhs => rw [← dropLast_getLastD hne]
      simp only [List.forall_mem_append, List.forall_mem_singleton]
    have htext : (field name names).write vs ++ s = ascii "<" ++ (name ++ (attributes names vs.dropLast ++
        (ascii ">" ++ (vs.getLastD [] ++ ch '<' :: (ascii "/" ++ (name ++ (ascii ">" ++ s))))))) := by
      rw [write, hattributes]
      simp [ascii]
    have hrest : ch '<' :: (ascii "/" ++ (name ++ (ascii ">" ++ s))) = ascii "</" ++ (name ++ (ascii ">" ++ s)) := rfl
    rw [htext, stable_append _ hless, stable_append _ (stable_name hnamed.1.1), stable_attributes _ hcount hnamed.1.2,
      stable_append _ hend, stable_cut _ (by decide), hrest, stable_append _ hclose,
      stable_append _ (stable_name hnamed.1.1), stable_append _ hend, hvalues, and_assoc]
  | closing name =>
    rw [List.length_eq_zero_iff.1 hlen]
    simp only [write, List.append_assoc]
    rw [stable_append _ hclose, stable_append _ (stable_name hnamed), stable_append _ hend]
    simp
  | blank lit =>
    simp only [named, Bool.and_eq_true, Bool.not_eq_true', List.contains_eq_mem, decide_eq_false_iff_not] at hnamed
    rw [List.length_eq_zero_iff.1 hlen, write, stable_append _ ⟨hnamed.1.2, hnamed.2⟩]
    simp

end Part

theorem stable_writeRow {row : List Part} {vs : List Str} (hlen : vs.length = rowArity row)
    (hnamed : ∀ p ∈ row, p.named = true) : Stable (writeRow row vs) ↔ ∀ v ∈ vs, Stable v := by
  induction row generalizing vs with
  | nil =>
    rw [List.length_eq_zero_iff.1 hlen]
    simp [writeRow, show Stable [] by decide]
  | cons p ps ih =>
    obtain ⟨htake, hdrop⟩ := length_take_drop hlen
    rw [writeRow, Part.stable_write _ htake (hnamed p (by simp)), ih hdrop fun q hq => hnamed q (by simp [hq])]
    conv_rhs => rw [← List.take_append_drop p.arity vs]
    rw [List.forall_mem_append]

/-! ## Documents -/

/-- A value that is printed for another: it weighs no more, and is plain when that is. -/
structure PrintedFor (v u : Str) : Prop where
  weigh : Xml.weigh v ≤ Xml.weigh u
  value : PlainValue u → PlainValue v
  text : PlainText u → PlainText v

/-- What is printed up to a size. -/
theorem PrintedFor.cut {v u : Str} (h : v <+: u) : PrintedFor v u := by
  obtain ⟨rest, rfl⟩ := h
  refine ⟨by rw [weigh_append]; exact Nat.le_add_right _ _, fun hvalue b hb => hvalue b (List.mem_append_left _ hb), ?_⟩
  intro htext
  unfold PlainText at htext ⊢
  rw [List.foldlM_append] at htext
  cases hv : v.foldlM textStep 0 with
  | none =>
    rw [hv] at htext
    cases htext
  | some brackets => rfl

/-- Digits and other bytes that mean nothing to a reader. -/
def isNeutral (b : Byte) : Bool := isNameByte b && b < 128

structure Neutral (s : Str) : Prop where
  weigh : Xml.weigh s = 0
  value : PlainValue s
  text : PlainText s
  stable : Stable s

theorem neutral_byte : ∀ b : Byte, isNeutral b = true →
    weight b = 0 ∧ isPlain b = true ∧ textStep 0 b = some 0 ∧ Utf8.next .start b = some .start ∧ b ≠ 13 :=
  forall_byte (by decide +kernel)

theorem neutral_of_bytes {s : Str} (h : ∀ b ∈ s, isNeutral b = true) : Neutral s := by
  have hweigh : Xml.weigh s = 0 ∧ s.foldlM textStep 0 = some 0 ∧ s.foldlM Utf8.next .start = some .start := by
    induction s with
    | nil => exact ⟨rfl, rfl, rfl⟩
    | cons b s ih =>
      obtain ⟨hweight, -, htext, hnext, -⟩ := neutral_byte b (h b (by simp))
      obtain ⟨hrest, htexts, hnexts⟩ := ih fun c hc => h c (by simp [hc])
      refine ⟨by rw [weigh_cons, hweight, hrest], ?_, ?_⟩
      · rw [List.foldlM_cons, htext]
        exact htexts
      · rw [List.foldlM_cons, hnext]
        exact hnexts
  refine ⟨hweigh.1, fun b hb => (neutral_byte b (h b hb)).2.1, plainText_of_some hweigh.2.1, ?_, fun hmem => ?_⟩
  · rw [encoded, hweigh.2.2]
    rfl
  · exact (neutral_byte 13 (h 13 hmem)).2.2.2.2 rfl

theorem Neutral.printedFor {v : Str} (h : Neutral v) (u : Str) : PrintedFor v u :=
  ⟨h.weigh ▸ Nat.zero_le _, fun _ => h.value, fun _ => h.text⟩

theorem PrintedFor.refl (v : Str) : PrintedFor v v := ⟨Nat.le_refl _, id, id⟩

theorem forall₂_getLastD {vs us : List Str} {v u : Str} (h : List.Forall₂ PrintedFor vs us) (hlast : PrintedFor v u) :
    PrintedFor (vs.getLastD v) (us.getLastD u) := by
  induction h generalizing v u with
  | nil => exact hlast
  | cons hfirst _ ih =>
    rw [List.getLastD_cons, List.getLastD_cons]
    exact ih hfirst

theorem forall_printed {vs us : List Str} (h : List.Forall₂ PrintedFor vs us) (hplain : ∀ u ∈ us, PlainValue u) :
    ∀ v ∈ vs, PlainValue v := by
  induction h with
  | nil => nofun
  | cons hfirst _ ih =>
    rw [List.forall_mem_cons] at hplain ⊢
    exact ⟨hfirst.value hplain.1, ih hplain.2⟩

theorem weigh_attributes_le {vs us : List Str} (names : List Str) (h : List.Forall₂ PrintedFor vs us) :
    weigh (attributes names vs) ≤ weigh (attributes names us) := by
  induction h generalizing names with
  | nil => exact Nat.le_refl _
  | cons hfirst _ ih =>
    cases names with
    | nil => exact Nat.le_refl _
    | cons a as =>
      have hrest := ih as
      have hvalue := hfirst.weigh
      simp only [attributes, weigh_append]
      omega

theorem Part.weigh_write_le {vs us : List Str} (p : Part) (h : List.Forall₂ PrintedFor vs us) :
    weigh (p.write vs) ≤ weigh (p.write us) := by
  cases p with
  | opening name names =>
    have hattributes := weigh_attributes_le names h
    simp only [write, weigh_append]
    omega
  | single name names =>
    have hattributes := weigh_attributes_le names h
    simp only [write, weigh_append]
    omega
  | field name names =>
    have hattributes := weigh_attributes_le names h
    have htext := (forall₂_getLastD h (.refl [])).weigh
    simp only [write, weigh_append]
    omega
  | closing name => exact Nat.le_refl _
  | blank s => exact Nat.le_refl _

theorem Part.plain_printed {vs us : List Str} {p : Part} (h : List.Forall₂ PrintedFor vs us) (hplain : p.Plain us) :
    p.Plain vs := by
  cases p with
  | opening name names => exact forall_printed h hplain
  | single name names => exact forall_printed h hplain
  | field name names =>
    have hinit : List.Forall₂ PrintedFor vs.dropLast us.dropLast := by
      rw [List.dropLast_eq_take, List.dropLast_eq_take, h.length_eq]
      exact List.forall₂_take _ h
    exact ⟨forall_printed hinit hplain.1, (forall₂_getLastD h (.refl [])).text hplain.2⟩
  | closing name => trivial
  | blank s => trivial

theorem weigh_writeRow_le {vs us : List Str} (row : List Part) (h : List.Forall₂ PrintedFor vs us) :
    weigh (writeRow row vs) ≤ weigh (writeRow row us) := by
  induction row generalizing vs us with
  | nil => exact Nat.le_refl _
  | cons p ps ih =>
    rw [writeRow, writeRow, weigh_append, weigh_append]
    exact Nat.add_le_add (p.weigh_write_le (List.forall₂_take _ h)) (ih (List.forall₂_drop _ h))

theorem rowPlain_printed {vs us : List Str} {row : List Part} (h : List.Forall₂ PrintedFor vs us)
    (hplain : RowPlain row us) : RowPlain row vs := by
  induction row generalizing vs us with
  | nil => trivial
  | cons p ps ih => exact ⟨Part.plain_printed (List.forall₂_take _ h) hplain.1, ih (List.forall₂_drop _ h) hplain.2⟩

/-- The declaration that a document may begin with. -/
structure IsDeclaration (declared : Str) : Prop where
  stable : Stable declared
  read (s : Str) : afterDeclaration (declared ++ s) = some s

/-- A row that is one element. -/
structure IsElement (row : List Part) : Prop where
  named : ∀ p ∈ row, p.named = true
  inside : ∃ root rest, row = .opening root [] :: rest ∧ rowInside rest [root] = some []

/-- The tags of the row, with the values in them. -/
def rowDocument (row : List Part) (values : List Str) : List (Str × Tag) := (putRow row values ⟨[], []⟩).tags

section Documents

variable {declared : Str} {row : List Part} {vs us : List Str}

theorem putRow_element (hrow : IsElement row) : (putRow row vs ⟨[], []⟩).text = [] := by
  obtain ⟨root, rest, rfl, hrest⟩ := hrow.inside
  show (putRow rest (vs.drop 0) ((Part.opening root []).put (vs.take 0) ⟨[], []⟩)).text = []
  exact putRow_text (List.cons_ne_nil _ _) hrest

theorem rowDocument_ne_nil (hrow : IsElement row) : rowDocument row vs ≠ [] := by
  obtain ⟨root, rest, rfl, -⟩ := hrow.inside
  have hroot : ((Part.opening root []).put (vs.take 0) ⟨[], []⟩).tags <+: rowDocument (.opening root [] :: rest) vs :=
    putRow_tags
  exact List.ne_nil_of_mem (hroot.subset List.mem_cons_self)

theorem rowDocument_inj (hrow : IsElement row) (hvs : vs.length = rowArity row) (hus : us.length = rowArity row)
    (h : rowDocument row vs = rowDocument row us) : vs = us := by
  refine (putRow_inj hvs hus (c := ⟨[], []⟩) (d := ⟨[], []⟩) ?_).1
  have hvtext : (putRow row vs ⟨[], []⟩).text = [] := putRow_element hrow
  have hutext : (putRow row us ⟨[], []⟩).text = [] := putRow_element hrow
  have htext := hvtext.trans hutext.symm
  unfold rowDocument at h
  cases hv : putRow row vs ⟨[], []⟩
  cases hu : putRow row us ⟨[], []⟩
  rw [hv, hu] at h htext
  cases h
  cases htext
  rfl

theorem start_feed (s : Str) : Reader.start.run (10 :: s) = Reader.start.run s := rfl

theorem run_element (hrow : IsElement row) (hlen : vs.length = rowArity row) (hplain : RowPlain row vs) :
    Reader.start.run (writeRow row vs) = some ⟨putRow row vs ⟨[], []⟩, [], .content 0⟩ := by
  obtain ⟨root, rest, rfl, hrest⟩ := hrow.inside
  obtain ⟨htake, hdrop⟩ := length_take_drop hlen
  have hroot := @Part.run_write (.opening root []) (vs.take 0) Reader.start [root] htake (hrow.named _ (by simp))
    hplain.1 rfl (Or.inr rfl) nofun rfl
  have hbody := @run_writeRow rest (vs.drop 0) ⟨(Part.opening root []).put (vs.take 0) ⟨[], []⟩, [root], .content 0⟩ []
    hdrop (fun p hp => hrow.named p (by simp [hp])) hplain.2 rfl hrest
  show Reader.start.run ((Part.opening root []).write (vs.take 0) ++ writeRow rest (vs.drop 0)) = _
  rw [Reader.run_append, hroot, Option.bind_some]
  exact hbody

theorem read_declared (hdeclared : IsDeclaration declared) (s : Str) :
    Xml.read (declared ++ 10 :: s) =
      if encoded s = true then (Reader.start.run (lineEnds false s)).bind Reader.finish else none := by
  have hfeed : encoded (10 :: s) = encoded s := encoded_append s (show encoded [10] = true by decide)
  unfold Xml.read
  rw [encoded_append _ hdeclared.stable.1, hfeed, lineEnds_append _ hdeclared.stable.2]
  split
  · have hline : lineEnds false (10 :: s) = 10 :: lineEnds false s := rfl
    rw [hdeclared.read, Option.bind_some, hline, start_feed]
  · rfl

/-- What is printed for the values `us` is read back as these exactly when it is these, and
they are plain and in the encoding of the document. -/
theorem read_element_iff (hdeclared : IsDeclaration declared) (hrow : IsElement row) (hlen : us.length = rowArity row)
    (h : List.Forall₂ PrintedFor vs us) :
    Xml.read (declared ++ 10 :: writeRow row vs) = some (rowDocument row us) ↔
      vs = us ∧ RowPlain row vs ∧ ∀ v ∈ vs, Stable v := by
  have hvs : vs.length = rowArity row := h.length_eq.trans hlen
  have hread (hplain : RowPlain row vs) (hstable : ∀ v ∈ vs, Stable v) :
      Xml.read (declared ++ 10 :: writeRow row vs) = some (rowDocument row vs) := by
    obtain ⟨hencoded, hreturn⟩ := (stable_writeRow hvs hrow.named).2 hstable
    rw [read_declared hdeclared, if_pos hencoded, lineEnds_eq hreturn, run_element hrow hvs hplain, Option.bind_some,
      Reader.finish]
    exact if_pos ⟨rfl, rowDocument_ne_nil hrow⟩
  constructor
  · intro hdocument
    rw [read_declared hdeclared] at hdocument
    split at hdocument
    · rename_i hencoded
      have htotal : weighTags (rowDocument row us) = weigh (writeRow row us) := by
        have hput := weigh_putRow (c := ⟨[], []⟩) hlen hrow.named
        rw [Content.weigh, putRow_element hrow] at hput
        simpa [Content.weigh, rowDocument] using hput
      have hends := weigh_lineEnds false (writeRow row vs)
      have hle := weigh_writeRow_le row h
      obtain ⟨heq, htags⟩ := Reader.finish_plain hdocument (by omega)
      have hreturn : 13 ∉ writeRow row vs := hends.2 (by omega)
      have hplain := rowPlain_printed h (plain_of_putRow hlen htags)
      have hstable := (stable_writeRow hvs hrow.named).1 ⟨hencoded, hreturn⟩
      have hagain := hread hplain hstable
      rw [read_declared hdeclared, if_pos hencoded, hdocument, Option.some.injEq] at hagain
      exact ⟨rowDocument_inj hrow hvs hlen hagain.symm, hplain, hstable⟩
    · cases hdocument
  · rintro ⟨rfl, hplain, hstable⟩
    exact hread hplain hstable

end Documents

/-! ## Reports -/

theorem rowInside_append (row₁ row₂ : List Part) (st : List Str) :
    rowInside (row₁ ++ row₂) st = (rowInside row₁ st).bind (rowInside row₂) := by
  induction row₁ generalizing st with
  | nil => rfl
  | cons p ps ih =>
    rw [List.cons_append, rowInside, rowInside]
    split
    · rfl
    · rw [Option.bind_assoc]
      exact congrArg _ (funext ih)

theorem rowPlain_append {row₁ row₂ : List Part} {vs us : List Str} (h : vs.length = rowArity row₁) :
    RowPlain (row₁ ++ row₂) (vs ++ us) ↔ RowPlain row₁ vs ∧ RowPlain row₂ us := by
  induction row₁ generalizing vs with
  | nil =>
    rw [List.length_eq_zero_iff.1 h]
    exact (true_and _).to_iff.symm
  | cons p ps ih =>
    obtain ⟨htake, hdrop⟩ := length_take_drop h
    have hle : p.arity ≤ vs.length := by
      rw [List.length_take] at htake
      omega
    rw [List.cons_append, RowPlain, RowPlain, List.take_append_of_le_length hle, List.drop_append_of_le_length hle,
      ih hdrop, and_assoc]

theorem rowArity_append (row₁ row₂ : List Part) : rowArity (row₁ ++ row₂) = rowArity row₁ + rowArity row₂ := by
  simp

def Section.named (sec : Section) : Bool := isTagName sec.name && sec.row.all Part.named

def Report.named (report : Report) : Bool := isTagName report.root && report.sections.all Section.named

/-- The rows of a section leave open what was open. -/
structure Section.IsElement (sec : Section) : Prop where
  named : sec.named = true
  inside (inner : Str) (st : List Str) : rowInside sec.row (inner :: st) = some (inner :: st)

theorem Section.IsElement.name {sec : Section} (h : sec.IsElement) : isTagName sec.name = true :=
  ((Bool.and_eq_true _ _).mp h.named).1

theorem Section.IsElement.row {sec : Section} (h : sec.IsElement) : ∀ p ∈ sec.row, p.named = true :=
  List.all_eq_true.1 ((Bool.and_eq_true _ _).mp h.named).2

namespace Section

variable {sec : Section} {values : List (List Str)}

/-- All the rows as one. -/
def parts (sec : Section) (n : Nat) : List Part :=
  .opening sec.name [] :: ((List.replicate n sec.row).flatten ++ [.closing sec.name])

/-- The values stand as they are. -/
def Plain (sec : Section) (values : List (List Str)) : Prop := ∀ vs ∈ values, RowPlain sec.row vs

theorem rows_arity (hfits : sec.Fits values) :
    values.flatten.length = rowArity (List.replicate values.length sec.row).flatten := by
  induction values with
  | nil => rfl
  | cons vs values ih =>
    rw [List.flatten_cons, List.length_append, List.length_cons, List.replicate_succ, List.flatten_cons,
      rowArity_append, hfits vs (by simp), ih fun ws hws => hfits ws (by simp [hws])]

theorem parts_arity (hfits : sec.Fits values) : values.flatten.length = rowArity (sec.parts values.length) := by
  have hrows := rows_arity hfits
  rw [parts, ← List.singleton_append, rowArity_append, rowArity_append, ← hrows]
  simp

theorem writeRow_rows (hfits : sec.Fits values) :
    writeRow (List.replicate values.length sec.row).flatten values.flatten = values.flatMap (writeRow sec.row) := by
  induction values with
  | nil => rfl
  | cons vs values ih =>
    rw [List.flatten_cons, List.length_cons, List.replicate_succ, List.flatten_cons, List.flatMap_cons,
      writeRow_append (hfits vs (by simp)), ih fun ws hws => hfits ws (by simp [hws])]

theorem writeRow_parts (hfits : sec.Fits values) :
    writeRow (sec.parts values.length) values.flatten = sec.write values := by
  have hrows := @writeRow_append _ [] [.closing sec.name] _ (rows_arity hfits)
  rw [List.append_nil] at hrows
  show (Part.opening sec.name []).write [] ++ writeRow ((List.replicate values.length sec.row).flatten ++
    [.closing sec.name]) values.flatten = _
  rw [hrows, writeRow_rows hfits, write]
  simp [Part.write]

theorem rowPlain_rows (hfits : sec.Fits values) :
    RowPlain (List.replicate values.length sec.row).flatten values.flatten ↔ sec.Plain values := by
  induction values with
  | nil => exact ⟨fun _ => nofun, fun _ => trivial⟩
  | cons vs values ih =>
    rw [List.flatten_cons, List.length_cons, List.replicate_succ, List.flatten_cons,
      rowPlain_append (hfits vs (by simp)), ih fun ws hws => hfits ws (by simp [hws])]
    exact List.forall_mem_cons.symm

theorem rowPlain_parts (hfits : sec.Fits values) :
    RowPlain (sec.parts values.length) values.flatten ↔ sec.Plain values := by
  have hrows := @rowPlain_append _ [.closing sec.name] _ [] (rows_arity hfits)
  rw [List.append_nil] at hrows
  have hopening : RowPlain (sec.parts values.length) values.flatten ↔
      RowPlain ((List.replicate values.length sec.row).flatten ++ [.closing sec.name]) values.flatten :=
    and_iff_right nofun
  rw [hopening, hrows, rowPlain_rows hfits]
  exact and_iff_left ⟨trivial, trivial⟩

theorem parts_named (hsec : sec.IsElement) (n : Nat) : ∀ p ∈ sec.parts n, p.named = true := by
  intro p hp
  rcases List.mem_cons.1 hp with rfl | hp
  · simp [Part.named, hsec.name]
  rcases List.mem_append.1 hp with hp | hp
  · obtain ⟨row, hrow, hp⟩ := List.mem_flatten.1 hp
    rw [List.eq_of_mem_replicate hrow] at hp
    exact hsec.row p hp
  · rw [List.mem_singleton.1 hp]
    exact hsec.name

theorem rows_inside (hsec : sec.IsElement) (n : Nat) (inner : Str) (st : List Str) :
    rowInside (List.replicate n sec.row).flatten (inner :: st) = some (inner :: st) := by
  induction n with
  | zero => rfl
  | succ n ih => rw [List.replicate_succ, List.flatten_cons, rowInside_append, hsec.inside, Option.bind_some, ih]

theorem parts_inside (hsec : sec.IsElement) (n : Nat) (inner : Str) (st : List Str) :
    rowInside (sec.parts n) (inner :: st) = some (inner :: st) := by
  rw [parts, rowInside, if_neg (List.cons_ne_nil _ _)]
  show rowInside ((List.replicate n sec.row).flatten ++ [.closing sec.name]) (sec.name :: inner :: st) = _
  rw [rowInside_append, rows_inside hsec, Option.bind_some]
  simp [rowInside, Part.inside]

end Section

namespace Report

structure IsElement (report : Report) : Prop where
  root : isTagName report.root = true
  sections : ∀ sec ∈ report.sections, sec.IsElement

theorem isElement_of_named {report : Report} (hnamed : report.named = true)
    (hinside : ∀ sec ∈ report.sections, ∀ inner st, rowInside sec.row (inner :: st) = some (inner :: st)) :
    report.IsElement := by
  unfold Report.named at hnamed
  rw [Bool.and_eq_true, List.all_eq_true] at hnamed
  exact ⟨hnamed.1, fun sec hsec => ⟨hnamed.2 sec hsec, hinside sec hsec⟩⟩

def Plain (report : Report) (values : List (List (List Str))) : Prop :=
  List.Forall₂ (fun sec v => sec.Plain v) report.sections values

def sectionParts : (sections : List Section) → (values : List (List (List Str))) → List Part
  | sec :: secs, v :: vs => sec.parts v.length ++ sectionParts secs vs
  | _, _ => []

/-- The whole report as one row. -/
def parts (report : Report) (values : List (List (List Str))) : List Part :=
  .opening report.root [] :: (sectionParts report.sections values ++ [.closing report.root])

/-- What a reader of XML makes of the report with these values. -/
def document (report : Report) (values : List (List (List Str))) : List (Str × Tag) :=
  rowDocument (report.parts values) values.flatten.flatten

variable {report : Report} {sections : List Section} {vs us : List (List (List Str))}

theorem sections_arity (h : List.Forall₂ (fun sec v => Section.Fits sec v) sections vs) :
    vs.flatten.flatten.length = rowArity (sectionParts sections vs) := by
  induction h with
  | nil => rfl
  | cons hfits _ ih =>
    rw [List.flatten_cons, List.flatten_append, List.length_append, sectionParts, rowArity_append, ih,
      Section.parts_arity hfits]

theorem writeRow_sections (h : List.Forall₂ (fun sec v => Section.Fits sec v) sections vs) :
    writeRow (sectionParts sections vs) vs.flatten.flatten = writeSections sections vs := by
  induction h with
  | nil => rfl
  | cons hfits _ ih =>
    rw [List.flatten_cons, List.flatten_append, sectionParts, writeRow_append (Section.parts_arity hfits), ih,
      Section.writeRow_parts hfits, writeSections]

theorem rowPlain_sections (h : List.Forall₂ (fun sec v => Section.Fits sec v) sections vs) :
    RowPlain (sectionParts sections vs) vs.flatten.flatten ↔
      List.Forall₂ (fun sec v => Section.Plain sec v) sections vs := by
  induction h with
  | nil => exact ⟨fun _ => .nil, fun _ => trivial⟩
  | cons hfits _ ih =>
    rw [List.flatten_cons, List.flatten_append, sectionParts, rowPlain_append (Section.parts_arity hfits), ih,
      Section.rowPlain_parts hfits, List.forall₂_cons]

theorem sectionParts_named (h : ∀ sec ∈ sections, sec.IsElement) : ∀ p ∈ sectionParts sections vs, p.named = true := by
  induction sections generalizing vs with
  | nil => nofun
  | cons sec secs ih =>
    cases vs with
    | nil => nofun
    | cons v vs =>
      intro p hp
      rcases List.mem_append.1 hp with hp | hp
      · exact Section.parts_named (h sec (by simp)) _ p hp
      · exact ih (fun s hs => h s (by simp [hs])) p hp

theorem sectionParts_inside (h : ∀ sec ∈ sections, sec.IsElement) (inner : Str) (st : List Str) :
    rowInside (sectionParts sections vs) (inner :: st) = some (inner :: st) := by
  induction sections generalizing vs with
  | nil => rfl
  | cons sec secs ih =>
    cases vs with
    | nil => rfl
    | cons v vs =>
      rw [sectionParts, rowInside_append, Section.parts_inside (h sec (by simp)), Option.bind_some,
        ih fun s hs => h s (by simp [hs])]

theorem parts_arity (hfits : report.Fits vs) : vs.flatten.flatten.length = rowArity (report.parts vs) := by
  have hsections := sections_arity hfits
  rw [parts, ← List.singleton_append, rowArity_append, rowArity_append, ← hsections]
  simp

theorem write_parts (hfits : report.Fits vs) :
    report.write vs = report.prolog ++ writeRow (report.parts vs) vs.flatten.flatten := by
  have hsections := @writeRow_append _ [] [.closing report.root] _ (sections_arity hfits)
  rw [List.append_nil] at hsections
  have hparts : writeRow (report.parts vs) vs.flatten.flatten = (Part.opening report.root []).write [] ++
      writeRow (sectionParts report.sections vs ++ [.closing report.root]) vs.flatten.flatten := rfl
  rw [hparts, hsections, writeRow_sections hfits, write]
  simp [Part.write]

theorem rowPlain_parts (hfits : report.Fits vs) : RowPlain (report.parts vs) vs.flatten.flatten ↔ report.Plain vs := by
  have hsections := @rowPlain_append _ [.closing report.root] _ [] (sections_arity hfits)
  rw [List.append_nil] at hsections
  have hroot : RowPlain (report.parts vs) vs.flatten.flatten ↔
      RowPlain (sectionParts report.sections vs ++ [.closing report.root]) vs.flatten.flatten := and_iff_right nofun
  rw [hroot, hsections, rowPlain_sections hfits]
  exact and_iff_left ⟨trivial, trivial⟩

theorem parts_element (hreport : report.IsElement) : Markup.IsElement (report.parts vs) := by
  refine ⟨fun p hp => ?_, report.root, _, rfl, ?_⟩
  · rcases List.mem_cons.1 hp with rfl | hp
    · simp [Part.named, hreport.root]
    rcases List.mem_append.1 hp with hp | hp
    · exact sectionParts_named hreport.sections p hp
    · rw [List.mem_singleton.1 hp]
      exact hreport.root
  · rw [rowInside_append, sectionParts_inside hreport.sections, Option.bind_some]
    simp [rowInside, Part.inside]

theorem sectionParts_printed (secs : List Section) (h : List.Forall₂ (List.Forall₂ (List.Forall₂ PrintedFor)) vs us) :
    sectionParts secs vs = sectionParts secs us := by
  induction h generalizing secs with
  | nil => rfl
  | cons hfirst _ ih =>
    cases secs with
    | nil => rfl
    | cons sec secs => rw [sectionParts, sectionParts, hfirst.length_eq, ih]

theorem fits_printed (h : List.Forall₂ (List.Forall₂ (List.Forall₂ PrintedFor)) vs us) (hfits : report.Fits vs) :
    report.Fits us := by
  have hrows {sec : Section} {v u : List (List Str)} (h : List.Forall₂ (List.Forall₂ PrintedFor) v u)
      (hfits : sec.Fits v) : sec.Fits u := by
    induction h with
    | nil => nofun
    | cons hfirst _ ih =>
      unfold Section.Fits at hfits ⊢
      rw [List.forall_mem_cons] at hfits ⊢
      exact ⟨hfirst.length_eq.symm.trans hfits.1, ih hfits.2⟩
  unfold Fits at hfits ⊢
  generalize report.sections = secs at hfits ⊢
  induction hfits generalizing us with
  | nil =>
    cases h
    exact .nil
  | cons hfirst _ ih =>
    cases h with
    | cons hv hvs => exact .cons (hrows hv hfirst) (ih hvs)

theorem parts_printed (h : List.Forall₂ (List.Forall₂ (List.Forall₂ PrintedFor)) vs us) :
    report.parts vs = report.parts us := by
  rw [parts, parts, sectionParts_printed _ h]

theorem flatten_printed {α : Type} {R : α → α → Prop} {vs us : List (List α)}
    (h : List.Forall₂ (List.Forall₂ R) vs us) : List.Forall₂ R vs.flatten us.flatten := List.rel_flatten h

theorem flatten_inj {α : Type} {R : α → α → Prop} {vs us : List (List α)} (h : List.Forall₂ (List.Forall₂ R) vs us)
    (heq : vs.flatten = us.flatten) : vs = us := by
  induction h with
  | nil => rfl
  | cons hfirst _ ih =>
    rw [List.flatten_cons, List.flatten_cons] at heq
    obtain ⟨hhead, htail⟩ := List.append_inj heq hfirst.length_eq
    rw [hhead, ih htail]

/-- A report printed for the values `us` is read back as a document with these exactly when
it is these that are printed, and they are plain and in the encoding of the document. -/
theorem xml_read_iff {declared : Str} (hdeclared : IsDeclaration declared) (hprolog : report.prolog = declared ++ [10])
    (hreport : report.IsElement) (hfits : report.Fits vs)
    (h : List.Forall₂ (List.Forall₂ (List.Forall₂ PrintedFor)) vs us) :
    Xml.read (report.write vs) = some (report.document us) ↔
      vs = us ∧ report.Plain vs ∧ ∀ v ∈ vs.flatten.flatten, Stable v := by
  have hrows := flatten_printed h
  have htext : report.write vs = declared ++ 10 :: writeRow (report.parts us) vs.flatten.flatten := by
    rw [write_parts hfits, hprolog, parts_printed h]
    simp
  rw [htext, document, read_element_iff hdeclared (parts_element hreport) (parts_arity (fits_printed h hfits))
    (flatten_printed hrows), ← parts_printed h, rowPlain_parts hfits]
  refine and_congr_left' ⟨fun heq => flatten_inj h (flatten_inj hrows heq), fun heq => by rw [heq]⟩

end Report

end Markup
