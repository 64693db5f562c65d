import Mathlib.Data.List.Induction
import ModCluster.Lib.Xml

/-!
# Plain documents

Every byte has a weight, such that what a reader gives back never weighs more than what it
has read. It weighs as much only when nothing was resolved, taken out or normalised: then
all values are plain, and were written as they are read.
-/

open CString

namespace Xml

/-! ## Weights -/

/-- A reference ends with a byte that outweighs whatever it stands for. -/
def weight (b : Byte) : Nat :=
  if b = ch ';' then 3
  else if b = ch '\'' ∨ b = 13 then 2
  else if b = ch '&' ∨ b = ch '!' ∨ b = ch '?' ∨ b = ch '"' ∨ b = 9 ∨ b = 10 then 1
  else 0

def weigh (s : Str) : Nat := (s.map weight).sum

@[simp]
theorem weigh_nil : weigh [] = 0 := rfl

@[simp]
theorem weigh_cons (b : Byte) (s : Str) : weigh (b :: s) = weight b + weigh s := by
  simp [weigh]

@[simp]
theorem weigh_append (s t : Str) : weigh (s ++ t) = weigh s + weigh t := by
  simp [weigh]

theorem weight_le (b : Byte) : weight b ≤ 3 := by
  unfold weight
  split
  · omega
  split
  · omega
  split <;> omega

def heavy : List Byte := [ch ';', ch '\'', 13, ch '&', ch '!', ch '?', ch '"', 9, 10]

theorem weight_eq_zero {ok : Byte → Bool} {b : Byte} (h : heavy.all (fun c => !ok c) = true) (hb : ok b = true) :
    weight b = 0 := by
  have hne (c : Byte) (hc : c ∈ heavy) : b ≠ c := by
    rintro rfl
    have hnot := List.all_eq_true.1 h b hc
    rw [hb] at hnot
    cases hnot
  unfold weight
  rw [if_neg (hne _ (by decide)), if_neg, if_neg]
  · simp [hne (ch '&') (by decide), hne (ch '!') (by decide), hne (ch '?') (by decide), hne (ch '"') (by decide),
      hne 9 (by decide), hne 10 (by decide)]
  · simp [hne (ch '\'') (by decide), hne 13 (by decide)]

/-- An attribute stands in quotes. -/
def weighAttributes (attributes : List (Str × Str)) : Nat := (attributes.map fun a => weigh a.2 + 2).sum

@[simp]
theorem weighAttributes_append (as bs : List (Str × Str)) :
    weighAttributes (as ++ bs) = weighAttributes as + weighAttributes bs := by
  simp [weighAttributes]

@[simp]
theorem weighAttributes_one (name value : Str) : weighAttributes [(name, value)] = weigh value + 2 := by
  simp [weighAttributes]

@[simp]
def Tag.weigh : Tag → Nat
  | opening _ attributes => weighAttributes attributes
  | closing _ => 0

def weighTags (tags : List (Str × Tag)) : Nat := (tags.map fun x => Xml.weigh x.1 + x.2.weigh).sum

@[simp]
theorem weighTags_nil : weighTags [] = 0 := rfl

@[simp]
theorem weighTags_append (xs ys : List (Str × Tag)) : weighTags (xs ++ ys) = weighTags xs + weighTags ys := by
  simp [weighTags]

@[simp]
theorem weighTags_one (text : Str) (t : Tag) : weighTags [(text, t)] = weigh text + t.weigh := by
  simp [weighTags]

namespace Content

def weigh (c : Content) : Nat := weighTags c.tags + Xml.weigh c.text

@[simp]
theorem weigh_add (c : Content) (s : Str) : (c.add s).weigh = c.weigh + Xml.weigh s := by
  simp [weigh, add, Nat.add_assoc]

@[simp]
theorem weigh_tag (c : Content) (t : Tag) : (c.tag t).weigh = c.weigh + t.weigh := by
  simp [weigh, tag, Nat.add_assoc]

end Content

def Attribute.weigh (x : Attribute) : Nat := weighAttributes x.tag.attributes + 1 + Xml.weigh x.value

def Mode.weigh : Mode → Nat
  | tag t _ => weighAttributes t.attributes
  | slash t => weighAttributes t.attributes
  | naming t _ => weighAttributes t.attributes
  | equals t _ => weighAttributes t.attributes
  | quote t _ => weighAttributes t.attributes
  | value x => x.weigh
  | reference (some x) _ => x.weigh
  | _ => 0

def Reader.weigh (r : Reader) : Nat := r.read.weigh + r.mode.weigh

/-! ## Plain values -/

def isPlain (b : Byte) : Bool :=
  b != ch '<' && b != ch '&' && b != ch '"' && b != 9 && b != 10 && b != 13

/-- The value of an attribute that stands in double quotes as it is. -/
def PlainValue (s : Str) : Prop := ∀ b ∈ s, isPlain b = true

/-- Character data that stands as it is. -/
def PlainText (s : Str) : Prop := (s.foldlM textStep 0).isSome = true

instance (s : Str) : Decidable (PlainValue s) := List.decidableBAll _ s

instance (s : Str) : Decidable (PlainText s) := inferInstanceAs (Decidable (_ = true))

def PlainAttributes (attributes : List (Str × Str)) : Prop := ∀ a ∈ attributes, PlainValue a.2

@[simp]
def Tag.Plain : Tag → Prop
  | opening _ attributes => PlainAttributes attributes
  | closing _ => True

def PlainTags (tags : List (Str × Tag)) : Prop := ∀ x ∈ tags, PlainText x.1 ∧ x.2.Plain

def Mode.Plain (text : Str) : Mode → Prop
  | content brackets => text.foldlM textStep 0 = some brackets
  | markup => PlainText text
  | opening _ => PlainText text
  | tag t _ => PlainText text ∧ PlainAttributes t.attributes
  | slash t => PlainText text ∧ PlainAttributes t.attributes
  | naming t _ => PlainText text ∧ PlainAttributes t.attributes
  | equals t _ => PlainText text ∧ PlainAttributes t.attributes
  | quote t _ => PlainText text ∧ PlainAttributes t.attributes
  | value x => PlainText text ∧ PlainAttributes x.tag.attributes ∧ x.single = false ∧ PlainValue x.value
  | closing _ => PlainText text
  | closed _ => PlainText text
  | _ => False

/-- So far all was written as it is read. -/
structure Reader.Plain (r : Reader) : Prop where
  tags : PlainTags r.read.tags
  mode : r.mode.Plain r.read.text

theorem plainText_of_some {s : Str} {brackets : Nat} (h : s.foldlM textStep 0 = some brackets) : PlainText s := by
  simp [PlainText, h]

theorem PlainTags.tag {c : Content} {t : Tag} (h : PlainTags c.tags) (htext : PlainText c.text) (ht : t.Plain) :
    PlainTags (c.tag t).tags := by
  intro x hx
  rcases List.mem_append.1 hx with hx | hx
  · exact h x hx
  · rw [List.mem_singleton] at hx
    subst hx
    exact ⟨htext, ht⟩

theorem PlainAttributes.concat {attributes : List (Str × Str)} {name value : Str} (h : PlainAttributes attributes)
    (hvalue : PlainValue value) : PlainAttributes (attributes ++ [(name, value)]) := by
  intro a ha
  rcases List.mem_append.1 ha with ha | ha
  · exact h a ha
  · rw [List.mem_singleton] at ha
    subst ha
    exact hvalue

theorem suffix_concat {t s : Str} {a b : Byte} : t ++ [a] <:+ s ++ [b] ↔ b = a ∧ t <:+ s := by
  constructor
  · rintro ⟨front, h⟩
    rw [← List.append_assoc] at h
    obtain ⟨rfl, hlast⟩ := List.append_inj' h rfl
    exact ⟨(List.cons.inj hlast).1.symm, front, rfl⟩
  · rintro ⟨rfl, front, rfl⟩
    exact ⟨front, (List.append_assoc _ _ _).symm⟩

theorem textStep_brackets {s : Str} {brackets : Nat} (h : s.foldlM textStep 0 = some brackets) :
    brackets ≤ 2 ∧ (1 ≤ brackets ↔ [ch ']'] <:+ s) ∧ (brackets = 2 ↔ [ch ']', ch ']'] <:+ s) := by
  induction s using List.reverseRecOn generalizing brackets with
  | nil =>
    cases h
    simp
  | append_singleton s b ih =>
    rw [List.foldlM_append] at h
    obtain ⟨k, hk, hb⟩ := Option.bind_eq_some_iff.1 h
    obtain ⟨hle, hone, -⟩ := ih hk
    have hstep : textStep k b = some brackets := by simpa using hb
    have hlast : [ch ']'] <:+ s ++ [b] ↔ b = ch ']' := (@suffix_concat [] s _ b).trans (and_iff_left List.nil_suffix)
    have htwo : [ch ']', ch ']'] <:+ s ++ [b] ↔ b = ch ']' ∧ [ch ']'] <:+ s := @suffix_concat [ch ']'] s _ b
    rw [hlast, htwo, ← hone]
    unfold textStep at hstep
    split at hstep
    · cases hstep
    split at hstep
    · rename_i hbracket
      cases hstep
      simp only [hbracket, true_and, iff_true]
      omega
    split at hstep
    · cases hstep
    · rename_i hbracket _
      cases hstep
      simp [hbracket]

/-- Text is plain when it has no `<`, no `&` and no `]]>`. -/
theorem plainText_iff (s : Str) :
    PlainText s ↔ (∀ b ∈ s, b ≠ ch '<' ∧ b ≠ ch '&') ∧ ¬ [ch ']', ch ']', ch '>'] <:+: s := by
  induction s using List.reverseRecOn with
  | nil => simp [PlainText]
  | append_singleton s b ih =>
    have hends : [ch ']', ch ']', ch '>'] <:+: s ++ [b] ↔
        (b = ch '>' ∧ [ch ']', ch ']'] <:+ s) ∨ [ch ']', ch ']', ch '>'] <:+: s := by
      rw [List.infix_concat_iff]
      exact or_congr_left (@suffix_concat [ch ']', ch ']'] s _ b)
    rw [hends, not_or, List.forall_mem_append, List.forall_mem_singleton]
    unfold PlainText at ih ⊢
    rw [List.foldlM_append]
    cases hs : s.foldlM textStep 0 with
    | none =>
      rw [hs] at ih
      simp only [Option.bind_eq_bind, Option.bind_none, Option.isSome_none, Bool.false_eq_true, false_iff] at ih ⊢
      exact fun h => ih ⟨h.1.1, h.2.2⟩
    | some k =>
      rw [hs] at ih
      obtain ⟨hbytes, hnone⟩ := ih.1 rfl
      have htwo := (textStep_brackets hs).2.2
      have hone : (some k).bind (fun k => [b].foldlM textStep k) = textStep k b := by simp
      have hbracket : ch ']' ≠ ch '<' ∧ ch ']' ≠ ch '&' ∧ ch ']' ≠ ch '>' := by decide
      rw [and_iff_left hnone, ← htwo, and_iff_right hbytes, Option.bind_eq_bind, hone]
      unfold textStep
      split
      · rename_i hb
        refine iff_of_false nofun fun h => ?_
        exact hb.elim h.1.1 h.1.2
      split
      · rename_i hb
        refine iff_of_true rfl ⟨?_, fun h => hbracket.2.2 (hb.symm.trans h.1)⟩
        rw [hb]
        exact ⟨hbracket.1, hbracket.2.1⟩
      split
      · rename_i hb
        exact iff_of_false nofun fun h => h.2 hb
      · rename_i hb _ hend
        exact iff_of_true rfl ⟨not_or.1 hb, hend⟩

/-! ## What a step does to the weight -/

/-- The reader gives back at most what came in, and all of it only as it is. -/
structure Reader.Spends (r : Reader) (w : Nat) (r' : Reader) : Prop where
  weigh_le : r'.weigh ≤ r.weigh + w
  plain : r'.weigh = r.weigh + w → r.Plain → r'.Plain

namespace Reader

variable {r r' : Reader} {b : Byte} {w : Nat}

theorem Spends.of_lt (h : r'.weigh < r.weigh + w) : r.Spends w r' := ⟨Nat.le_of_lt h, fun heq => absurd heq (by omega)⟩

theorem Spends.of_not_plain (hle : r'.weigh ≤ r.weigh + w) (h : ¬ r.Plain) : r.Spends w r' :=
  ⟨hle, fun _ hp => absurd hp h⟩

/-- The content stays. -/
theorem Spends.turn {mode : Mode} (hle : mode.weigh ≤ r.mode.weigh + w)
    (hplain : mode.weigh = r.mode.weigh + w → r.mode.Plain r.read.text → mode.Plain r.read.text) :
    r.Spends w (r.turn mode) := by
  constructor
  · show r.read.weigh + mode.weigh ≤ r.read.weigh + r.mode.weigh + w
    omega
  · intro heq hp
    change r.read.weigh + mode.weigh = r.read.weigh + r.mode.weigh + w at heq
    exact ⟨hp.tags, hplain (by omega) hp.mode⟩

theorem Spends.same (r : Reader) (b : Byte) : r.Spends (weight b) r := ⟨Nat.le_add_right _ _, fun _ hp => hp⟩

/-- The reader is in the start tag `t`. -/
structure InTag (mode : Mode) (t : StartTag) : Prop where
  weigh : mode.weigh = weighAttributes t.attributes
  plain (text : Str) : mode.Plain text ↔ PlainText text ∧ PlainAttributes t.attributes

theorem InTag.opening (name : Str) : InTag (.opening name) ⟨name, []⟩ :=
  ⟨rfl, fun _ => (and_iff_left (by simp [PlainAttributes])).symm⟩

theorem InTag.tag (t : StartTag) (spaced : Bool) : InTag (.tag t spaced) t := ⟨rfl, fun _ => Iff.rfl⟩

theorem InTag.slash (t : StartTag) : InTag (.slash t) t := ⟨rfl, fun _ => Iff.rfl⟩

theorem InTag.naming (t : StartTag) (name : Str) : InTag (.naming t name) t := ⟨rfl, fun _ => Iff.rfl⟩

theorem InTag.equals (t : StartTag) (name : Str) : InTag (.equals t name) t := ⟨rfl, fun _ => Iff.rfl⟩

theorem InTag.quote (t : StartTag) (name : Str) : InTag (.quote t name) t := ⟨rfl, fun _ => Iff.rfl⟩

theorem InTag.turn {t : StartTag} {mode : Mode} (hr : InTag r.mode t) (hmode : InTag mode t) :
    r.Spends w (r.turn mode) := by
  refine .turn ?_ fun _ hp => (hmode.plain _).2 ((hr.plain _).1 hp)
  rw [hr.weigh, hmode.weigh]
  exact Nat.le_add_right _ _

theorem InTag.enter {t : StartTag} (hr : InTag r.mode t) (h : r.enter t = some r') : r.Spends (weight b) r' := by
  unfold Reader.enter at h
  split at h
  · cases h
    constructor
    · show (r.read.tag (.opening t.name t.attributes)).weigh + 0 ≤ r.read.weigh + r.mode.weigh + weight b
      rw [Content.weigh_tag, hr.weigh]
      exact Nat.le_add_right _ _
    · intro _ hp
      obtain ⟨htext, hattributes⟩ := (hr.plain _).1 hp.mode
      exact ⟨hp.tags.tag htext hattributes, rfl⟩
  · cases h

theorem leave_spends {name : Str} (h : r.leave name = some r')
    (hplain : r.mode.Plain r.read.text → PlainText r.read.text) : r.Spends (weight b) r' := by
  unfold leave at h
  split at h
  · split at h
    · cases h
      constructor
      · show (r.read.tag (.closing name)).weigh + 0 ≤ r.read.weigh + r.mode.weigh + weight b
        rw [Content.weigh_tag, Tag.weigh]
        omega
      · intro _ hp
        exact ⟨hp.tags.tag (hplain hp.mode) trivial, rfl⟩
    · cases h
  · cases h

/-! ### Character data and references -/

theorem content_spends {brackets : Nat} (hmode : r.mode = .content brackets) (h : r.content brackets b = some r') :
    r.Spends (weight b) r' := by
  unfold content at h
  split at h
  · cases h
    refine .turn (Nat.zero_le _) fun _ hp => ?_
    rw [hmode] at hp
    exact plainText_of_some hp
  split at h
  · split at h
    · cases h
      exact .same r b
    · cases h
  split at h
  · rename_i hb
    cases h
    subst hb
    refine .of_lt ?_
    show r.read.weigh + 0 < r.read.weigh + r.mode.weigh + weight (ch '&')
    have hweight : weight (ch '&') = 1 := by decide
    omega
  · rw [Option.map_eq_some_iff] at h
    obtain ⟨k, hk, rfl⟩ := h
    constructor
    · show (r.read.add [b]).weigh + 0 ≤ r.read.weigh + r.mode.weigh + weight b
      simp
    · intro _ hp
      refine ⟨hp.tags, ?_⟩
      have htext := hp.mode
      rw [hmode] at htext
      show (r.read.text ++ [b]).foldlM textStep 0 = some k
      rw [List.foldlM_append, htext]
      simpa using hk

theorem weigh_encode (c : Nat) : Xml.weigh (encode c) ≤ 3 := by
  have hor (lead x : Byte) (h : 128 ≤ lead) : weight (lead ||| x) = 0 := by
    refine @weight_eq_zero (fun b => decide (128 ≤ b)) _ (by decide) ?_
    rw [decide_eq_true_eq, UInt8.le_iff_toNat_le, UInt8.toNat_or]
    exact Nat.le_trans (UInt8.le_iff_toNat_le.1 h) Nat.left_le_or
  unfold encode
  split
  · rw [weigh_cons, weigh_nil]
    exact weight_le _
  split
  · simp [hor (128 ||| 64) _ (by decide), hor 128 _ (by decide)]
  split <;>
    simp [hor _ _ (show (128 : Byte) ≤ 0xE0 by decide), hor _ _ (show (128 : Byte) ≤ 0xF0 by decide),
      hor 128 _ (by decide)]

theorem weigh_resolve {body s : Str} (h : resolve body = some s) : Xml.weigh s ≤ 3 := by
  have hcharacter {c : Nat} (h : character c = some s) : Xml.weigh s ≤ 3 := by
    unfold character at h
    split at h
    · cases h
      exact weigh_encode c
    · cases h
  unfold resolve at h
  split at h
  · split at h
    · exact hcharacter h
    · cases h
  split at h
  · split at h
    · exact hcharacter h
    · cases h
  split at h
  · cases h
    decide
  split at h
  · cases h
    decide
  split at h
  · cases h
    decide
  split at h
  · cases h
    decide
  split at h
  · cases h
    decide
  · cases h

theorem reference_spends {place : Option Attribute} {body : Str} (hmode : r.mode = .reference place body)
    (h : r.reference place body b = some r') : r.Spends (weight b) r' := by
  have hplain : ¬ r.Plain := by
    intro hp
    have := hp.mode
    rw [hmode] at this
    exact this
  refine .of_not_plain ?_ hplain
  unfold reference at h
  split at h
  · rename_i hb
    rw [Option.map_eq_some_iff] at h
    obtain ⟨s, hs, heq⟩ := h
    have hle := weigh_resolve hs
    have hweight : weight b = 3 := by
      rw [hb]
      decide
    cases place with
    | none =>
      subst heq
      show (r.read.add s).weigh + 0 ≤ r.read.weigh + r.mode.weigh + weight b
      rw [Content.weigh_add]
      omega
    | some x =>
      subst heq
      show r.read.weigh + (weighAttributes x.tag.attributes + 1 + Xml.weigh (x.value ++ s)) ≤
        r.read.weigh + r.mode.weigh + weight b
      rw [hmode, weigh_append]
      show _ ≤ r.read.weigh + x.weigh + weight b
      unfold Attribute.weigh
      omega
  · cases h
    show r.read.weigh + (Mode.reference place (body ++ [b])).weigh ≤ r.read.weigh + r.mode.weigh + weight b
    rw [hmode]
    cases place <;> exact Nat.le_add_right _ _

/-! ### Tags -/

/-- Nothing plain starts with these. -/
theorem turn_unlike {mode : Mode} (hzero : mode.weigh = 0) (hweight : 0 < weight b) :
    r.Spends (weight b) (r.turn mode) := by
  refine .of_lt ?_
  show r.read.weigh + mode.weigh < r.read.weigh + r.mode.weigh + weight b
  omega

theorem markup_spends (hmode : r.mode = .markup) (h : r.markup b = some r') : r.Spends (weight b) r' := by
  have htext : r.mode.Plain r.read.text → PlainText r.read.text := by
    rw [hmode]
    exact id
  unfold markup at h
  split at h
  · cases h
    exact .turn (Nat.zero_le _) fun _ hp => htext hp
  split at h
  · rename_i hb
    cases h
    exact turn_unlike rfl (by rw [hb]; decide)
  split at h
  · rename_i hb
    cases h
    exact turn_unlike rfl (by rw [hb]; decide)
  split at h
  · cases h
    exact .turn (Nat.zero_le _) fun _ hp => htext hp
  · cases h

theorem opening_spends {name : Str} (hmode : InTag r.mode ⟨name, []⟩) (h : r.opening name b = some r') :
    r.Spends (weight b) r' := by
  unfold opening at h
  split at h
  · cases h
    exact hmode.turn ⟨rfl, (InTag.opening name).plain⟩
  split at h
  · cases h
    exact hmode.turn (.tag _ _)
  split at h
  · cases h
    exact hmode.turn (.slash _)
  split at h
  · exact hmode.enter h
  · cases h

theorem inTag_spends {t : StartTag} {spaced : Bool} (hmode : InTag r.mode t) (h : r.inTag t spaced b = some r') :
    r.Spends (weight b) r' := by
  unfold inTag at h
  split at h
  · cases h
    exact hmode.turn (.tag _ _)
  split at h
  · cases h
    exact hmode.turn (.slash _)
  split at h
  · exact hmode.enter h
  split at h
  · cases h
    exact hmode.turn (.naming _ _)
  · cases h

theorem slash_spends {t : StartTag} (hmode : InTag r.mode t) (h : r.slash t b = some r') :
    r.Spends (weight b) r' := by
  unfold slash at h
  split at h
  · rename_i hb
    subst hb
    rw [Option.bind_eq_some_iff] at h
    obtain ⟨mid, hmid, hleave⟩ := h
    have hnone : weight (ch '>') = 0 := by decide
    have henter : r.Spends (weight (ch '>')) mid := hmode.enter hmid
    have hend : mid.Spends (weight (ch '>')) r' := leave_spends hleave fun hp => by
      unfold Reader.enter at hmid
      split at hmid
      · cases hmid
        exact plainText_of_some hp
      · cases hmid
    have h1 := henter.weigh_le
    have h2 := hend.weigh_le
    exact ⟨by omega, fun heq hp => hend.plain (by omega) (henter.plain (by omega) hp)⟩
  · cases h

theorem naming_spends {t : StartTag} {name : Str} (hmode : InTag r.mode t) (h : r.naming t name b = some r') :
    r.Spends (weight b) r' := by
  unfold naming at h
  split at h
  · cases h
    exact hmode.turn (.naming _ _)
  split at h
  · cases h
    exact hmode.turn (.equals _ _)
  split at h
  · cases h
    exact hmode.turn (.quote _ _)
  · cases h

theorem equals_spends {t : StartTag} {name : Str} (hmode : InTag r.mode t) (h : r.equals t name b = some r') :
    r.Spends (weight b) r' := by
  unfold equals at h
  split at h
  · cases h
    exact .same r b
  split at h
  · cases h
    exact hmode.turn (.quote _ _)
  · cases h

/-- A single quote weighs more than the double quote it may be instead of. -/
theorem quote_spends {t : StartTag} {name : Str} (hmode : InTag r.mode t) (h : r.quote t name b = some r') :
    r.Spends (weight b) r' := by
  have hvalue : (Mode.value ⟨t, name, b == ch '\'', []⟩).weigh = r.mode.weigh + 1 := by rw [hmode.weigh]; rfl
  unfold quote at h
  split at h
  · cases h
    exact .same r b
  split at h
  · rename_i hquote
    cases h
    rcases hquote with rfl | rfl
    · have hdouble : weight (ch '"') = 1 := by decide
      refine .turn (by omega) fun _ hp => ?_
      obtain ⟨htext, hattributes⟩ := (hmode.plain _).1 hp
      exact ⟨htext, hattributes, rfl, nofun⟩
    · have hsingle : weight (ch '\'') = 2 := by decide
      exact .turn (by omega) fun heq => by omega
  · cases h

theorem value_spends {x : Attribute} (hmode : r.mode = .value x) (h : r.value x b = some r') :
    r.Spends (weight b) r' := by
  have hweigh : r.mode.weigh = weighAttributes x.tag.attributes + 1 + Xml.weigh x.value := by rw [hmode]; rfl
  have hdouble : weight (ch '"') = 1 := by decide
  have hsingle : weight (ch '\'') = 2 := by decide
  unfold value at h
  split at h
  · rename_i hb
    split at h
    · cases h
      subst hb
      have hend : (Mode.tag ⟨x.tag.name, x.tag.attributes ++ [(x.name, x.value)]⟩ false).weigh = r.mode.weigh + 1 := by
        rw [hweigh]
        simp only [Mode.weigh, weighAttributes_append, weighAttributes_one]
        omega
      cases hx : x.single with
      | true =>
        have hquote : x.quote = ch '\'' := by rw [Attribute.quote, if_pos hx]
        rw [hquote]
        exact .turn (by omega) fun heq => by omega
      | false =>
        have hquote : x.quote = ch '"' := by rw [Attribute.quote, if_neg (by simp [hx])]
        rw [hquote]
        refine .turn (by omega) fun _ hp => ?_
        rw [hmode] at hp
        obtain ⟨htext, hattributes, -, hvalue⟩ := hp
        exact ⟨htext, hattributes.concat hvalue⟩
    · cases h
  split at h
  · cases h
  split at h
  · rename_i hb
    cases h
    subst hb
    have hweight : weight (ch '&') = 1 := by decide
    refine .of_lt ?_
    show r.read.weigh + x.weigh < r.read.weigh + r.mode.weigh + weight (ch '&')
    unfold Attribute.weigh
    omega
  · rename_i hquote hless hand
    cases h
    have hmore : (Mode.value { x with value := x.value ++ [if isWhite b then 32 else b] }).weigh =
        r.mode.weigh + weight (if isWhite b then 32 else b) := by
      rw [hweigh]
      simp only [Mode.weigh, Attribute.weigh, weigh_append, weigh_cons, weigh_nil]
      omega
    have hblank : weight 32 = 0 := by decide
    refine .turn ?_ fun heq hp => ?_
    · rw [hmore]
      split <;> omega
    · rw [hmode] at hp
      obtain ⟨htext, hattributes, hx, hvalue⟩ := hp
      refine ⟨htext, hattributes, hx, fun c hc => ?_⟩
      rcases List.mem_append.1 hc with hc | hc
      · exact hvalue c hc
      rw [List.mem_singleton] at hc
      subst hc
      rw [hmore] at heq
      split
      · decide
      · rename_i hwhite
        rw [Attribute.quote, if_neg (by simp [hx])] at hquote
        unfold isWhite at hwhite
        simp only [Bool.or_eq_true, beq_iff_eq, not_or] at hwhite
        simp [isPlain, hquote, hless, hand, hwhite]

theorem closing_spends {name : Str} (hplain : r.mode.Plain r.read.text → PlainText r.read.text)
    (h : r.closing name b = some r') : r.Spends (weight b) r' := by
  unfold closing at h
  split at h
  · cases h
    exact .turn (Nat.zero_le _) fun _ hp => hplain hp
  split at h
  · cases h
    exact .turn (Nat.zero_le _) fun _ hp => hplain hp
  split at h
  · exact leave_spends h hplain
  · cases h

theorem closed_spends {name : Str} (hplain : r.mode.Plain r.read.text → PlainText r.read.text)
    (h : r.closed name b = some r') : r.Spends (weight b) r' := by
  unfold closed at h
  split at h
  · cases h
    exact .same r b
  split at h
  · exact leave_spends h hplain
  · cases h

/-! ### What is taken out -/

theorem turn_aside {mode : Mode} (hplain : ¬ r.mode.Plain r.read.text) (hzero : mode.weigh = 0) :
    r.Spends (weight b) (r.turn mode) :=
  .turn (by omega) fun _ hp => absurd hp hplain

theorem declared_spends {seen : Str} (hplain : ¬ r.mode.Plain r.read.text) (h : r.declared seen b = some r') :
    r.Spends (weight b) r' := by
  unfold declared at h
  split at h
  · cases h
    exact turn_aside hplain rfl
  split at h
  · cases h
    exact turn_aside hplain rfl
  split at h
  · cases h
    exact turn_aside hplain rfl
  · cases h

theorem comment_spends {hyphens : Nat} (hplain : ¬ r.mode.Plain r.read.text) (h : r.comment hyphens b = some r') :
    r.Spends (weight b) r' := by
  unfold comment at h
  split at h
  · split at h
    · cases h
      exact turn_aside hplain rfl
    · cases h
  split at h
  · cases h
    exact turn_aside hplain rfl
  · cases h
    exact turn_aside hplain rfl

theorem cdata_spends {brackets : Nat} (hplain : ¬ r.mode.Plain r.read.text) (h : r.cdata brackets b = some r') :
    r.Spends (weight b) r' := by
  have hbrackets : Xml.weigh (List.replicate brackets (ch ']')) = 0 := by
    simp [Xml.weigh, show weight (ch ']') = 0 by decide]
  have hp : ¬ r.Plain := fun hp => hplain hp.mode
  unfold cdata at h
  split at h
  · split at h
    · cases h
      refine .of_not_plain ?_ hp
      show (r.read.add [b]).weigh + r.mode.weigh ≤ r.read.weigh + r.mode.weigh + weight b
      rw [Content.weigh_add, weigh_cons, weigh_nil]
      omega
    · cases h
      exact turn_aside hplain rfl
  split at h
  · cases h
    exact turn_aside hplain rfl
  · cases h
    refine .of_not_plain ?_ hp
    show (r.read.add (List.replicate brackets (ch ']') ++ [b])).weigh + 0 ≤ r.read.weigh + r.mode.weigh + weight b
    rw [Content.weigh_add, weigh_append, weigh_cons, weigh_nil, hbrackets]
    omega

theorem target_spends {name : Str} (hplain : ¬ r.mode.Plain r.read.text) (h : r.target name b = some r') :
    r.Spends (weight b) r' := by
  unfold target at h
  split at h
  · cases h
    exact turn_aside hplain rfl
  split at h
  · split at h
    · cases h
      exact turn_aside hplain rfl
    split at h
    · cases h
      exact turn_aside hplain rfl
    · cases h
  · cases h

theorem instruction_spends {question : Bool} (hplain : ¬ r.mode.Plain r.read.text)
    (h : r.instruction question b = some r') : r.Spends (weight b) r' := by
  unfold instruction at h
  split at h
  · cases h
    exact turn_aside hplain rfl
  · cases h
    exact turn_aside hplain rfl

theorem instructed_spends (hplain : ¬ r.mode.Plain r.read.text) (h : r.instructed b = some r') :
    r.Spends (weight b) r' := by
  unfold instructed at h
  split at h
  · cases h
    exact turn_aside hplain rfl
  · cases h

/-! ### Steps and runs -/

theorem step_spends (h : r.step b = some r') : r.Spends (weight b) r' := by
  unfold step at h
  cases hmode : r.mode with
  | content brackets =>
    rw [hmode] at h
    exact content_spends hmode h
  | reference place body =>
    rw [hmode] at h
    exact reference_spends hmode h
  | markup =>
    rw [hmode] at h
    exact markup_spends hmode h
  | opening name =>
    rw [hmode] at h
    exact opening_spends (hmode ▸ .opening name) h
  | tag t spaced =>
    rw [hmode] at h
    exact inTag_spends (hmode ▸ .tag t spaced) h
  | slash t =>
    rw [hmode] at h
    exact slash_spends (hmode ▸ .slash t) h
  | naming t name =>
    rw [hmode] at h
    exact naming_spends (hmode ▸ .naming t name) h
  | equals t name =>
    rw [hmode] at h
    exact equals_spends (hmode ▸ .equals t name) h
  | quote t name =>
    rw [hmode] at h
    exact quote_spends (hmode ▸ .quote t name) h
  | value x =>
    rw [hmode] at h
    exact value_spends hmode h
  | closing name =>
    rw [hmode] at h
    exact closing_spends (fun hp => by rw [hmode] at hp; exact hp) h
  | closed name =>
    rw [hmode] at h
    exact closed_spends (fun hp => by rw [hmode] at hp; exact hp) h
  | declared seen =>
    rw [hmode] at h
    exact declared_spends (by rw [hmode]; exact id) h
  | comment hyphens =>
    rw [hmode] at h
    exact comment_spends (by rw [hmode]; exact id) h
  | cdata brackets =>
    rw [hmode] at h
    exact cdata_spends (by rw [hmode]; exact id) h
  | target name =>
    rw [hmode] at h
    exact target_spends (by rw [hmode]; exact id) h
  | instruction question =>
    rw [hmode] at h
    exact instruction_spends (by rw [hmode]; exact id) h
  | instructed =>
    rw [hmode] at h
    exact instructed_spends (by rw [hmode]; exact id) h

@[simp]
theorem run_nil (r : Reader) : r.run [] = some r := rfl

theorem run_cons (r : Reader) (b : Byte) (s : Str) : r.run (b :: s) = (r.step b).bind fun r => r.run s := rfl

theorem run_append (r : Reader) (s t : Str) : r.run (s ++ t) = (r.run s).bind fun r => r.run t := List.foldlM_append

theorem run_spends {s : Str} (h : r.run s = some r') : r.Spends (Xml.weigh s) r' := by
  induction s generalizing r with
  | nil =>
    cases h
    exact ⟨Nat.le_refl _, fun _ hp => hp⟩
  | cons b s ih =>
    rw [run_cons, Option.bind_eq_some_iff] at h
    obtain ⟨mid, hstep, hrun⟩ := h
    have hfirst := step_spends hstep
    have hrest := ih hrun
    have h1 := hfirst.weigh_le
    have h2 := hrest.weigh_le
    rw [weigh_cons]
    exact ⟨by omega, fun heq hp => hrest.plain (by omega) (hfirst.plain (by omega) hp)⟩

/-- A text that weighs no more than its tags was written as it is read. -/
theorem finish_plain {s : Str} {tags : List (Str × Tag)} (h : (start.run s).bind finish = some tags)
    (hweigh : Xml.weigh s ≤ weighTags tags) : weighTags tags = Xml.weigh s ∧ PlainTags tags := by
  rw [Option.bind_eq_some_iff] at h
  obtain ⟨r, hrun, hfinish⟩ := h
  have hspends := run_spends hrun
  have hle := hspends.weigh_le
  have hzero : start.weigh = 0 := rfl
  have htags : r.read.tags = tags := by
    unfold finish at hfinish
    split at hfinish
    · split at hfinish
      · exact Option.some.inj hfinish
      · cases hfinish
    · cases hfinish
  have hge : weighTags tags ≤ r.weigh := by
    rw [← htags]
    show _ ≤ weighTags r.read.tags + Xml.weigh r.read.text + r.mode.weigh
    omega
  have hplain : r.Plain := hspends.plain (by omega) ⟨nofun, rfl⟩
  exact ⟨by omega, htags ▸ hplain.tags⟩

end Reader

/-! ## Line ends -/

theorem weigh_lineEnds (afterReturn : Bool) (s : Str) :
    weigh (lineEnds afterReturn s) ≤ weigh s ∧ (weigh (lineEnds afterReturn s) = weigh s → 13 ∉ s) := by
  have hreturn : weight 13 = 2 := by decide
  have hfeed : weight 10 = 1 := by decide
  induction s generalizing afterReturn with
  | nil => exact ⟨Nat.le_refl _, fun _ => by simp⟩
  | cons b s ih =>
    unfold lineEnds
    split
    · rename_i hb
      have hrest := (ih true).1
      rw [weigh_cons, weigh_cons, hb]
      exact ⟨by omega, fun heq => by omega⟩
    split
    · rename_i hb
      have hrest := (ih false).1
      rw [weigh_cons, hb.1]
      exact ⟨by omega, fun heq => by omega⟩
    · rename_i hb _
      obtain ⟨hle, hkept⟩ := ih false
      rw [weigh_cons, weigh_cons]
      refine ⟨by omega, fun heq hmem => ?_⟩
      rcases List.mem_cons.1 hmem with rfl | hmem
      · exact hb rfl
      · exact hkept (by omega) hmem

theorem lineEnds_append {s : Str} (t : Str) (h : 13 ∉ s) : lineEnds false (s ++ t) = s ++ lineEnds false t := by
  induction s with
  | nil => rfl
  | cons b s ih =>
    have hb : b ≠ 13 := fun heq => h (heq ▸ List.mem_cons_self)
    rw [List.cons_append, lineEnds, if_neg hb, if_neg (by simp), ih fun hmem => h (List.mem_cons_of_mem _ hmem),
      List.cons_append]

theorem lineEnds_eq {s : Str} (h : 13 ∉ s) : lineEnds false s = s := by
  have heq := lineEnds_append [] h
  simpa [lineEnds] using heq

/-! ## Encoded parts -/

theorem utf8_ascii {state state' : Utf8} {b : Byte} (hb : b < 128) (h : state.next b = some state') :
    state = .start := by
  have hwithin (low high : Byte) (hlow : 128 ≤ low) (next : Utf8) : Utf8.within low high b next = none := by
    unfold Utf8.within
    rw [if_neg]
    simp only [Bool.and_eq_true, decide_eq_true_eq, not_and]
    intro hle
    exact absurd (UInt8.lt_of_lt_of_le hb (UInt8.le_trans hlow hle)) (UInt8.lt_irrefl b)
  have hne : b ≠ 0xBF := by
    rintro rfl
    exact absurd hb (by decide)
  cases state with
  | start => rfl
  | afterEF => simp [Utf8.next, hne, hwithin 0x80 0xBE (by decide)] at h
  | tail1 => simp [Utf8.next, hwithin 0x80 0xBF (by decide)] at h
  | tail2 => simp [Utf8.next, hwithin 0x80 0xBF (by decide)] at h
  | tail3 => simp [Utf8.next, hwithin 0x80 0xBF (by decide)] at h
  | afterE0 => simp [Utf8.next, hwithin 0xA0 0xBF (by decide)] at h
  | afterED => simp [Utf8.next, hwithin 0x80 0x9F (by decide)] at h
  | afterEFBF => simp [Utf8.next, hwithin 0x80 0xBD (by decide)] at h
  | afterF0 => simp [Utf8.next, hwithin 0x90 0xBF (by decide)] at h
  | afterF4 => simp [Utf8.next, hwithin 0x80 0x8F (by decide)] at h

theorem encoded_append {s : Str} (t : Str) (h : encoded s = true) : encoded (s ++ t) = encoded t := by
  unfold encoded at h ⊢
  rw [beq_iff_eq] at h
  rw [List.foldlM_append, h]
  rfl

/-- A text is cut at an ASCII character into texts. -/
theorem encoded_of_append {s : Str} {b : Byte} {t : Str} (hb : b < 128) (h : encoded (s ++ b :: t) = true) :
    encoded s = true := by
  unfold encoded at h ⊢
  rw [beq_iff_eq] at h ⊢
  rw [List.foldlM_append] at h
  obtain ⟨state, hstate, hrest⟩ := Option.bind_eq_some_iff.1 h
  rw [List.foldlM_cons] at hrest
  obtain ⟨_, hnext, -⟩ := Option.bind_eq_some_iff.1 hrest
  rw [hstate, utf8_ascii hb hnext]

end Xml
