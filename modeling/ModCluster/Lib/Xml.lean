import ModCluster.Lib.CString

/-!
# Reading XML

A reader of XML 1.0 for documents in UTF-8 that have no document type declaration. It
checks that the document is well formed and gives back its tags, each with the character
data before it: references resolved, CDATA sections and comments taken out, line ends and
the white space of attributes normalised.
-/

open CString

namespace Xml

/-! ## Encoding -/

/-- Where a reader of UTF-8 stands: the bytes of a character that are still to come. -/
inductive Utf8 where
  | start
  | tail1
  | tail2
  | tail3
  | afterE0
  | afterED
  | afterEF
  | afterEFBF
  | afterF0
  | afterF4
deriving DecidableEq, Repr

namespace Utf8

def within (low high b : Byte) (next : Utf8) : Option Utf8 := if low ≤ b && b ≤ high then some next else none

/-- Control characters, surrogates, U+FFFE and U+FFFF are no characters of XML. -/
def first (b : Byte) : Option Utf8 :=
  if b < 128 then if 32 ≤ b || b == 9 || b == 10 || b == 13 then some start else none
  else if b = 0xE0 then some afterE0
  else if b = 0xED then some afterED
  else if b = 0xEF then some afterEF
  else if b = 0xF0 then some afterF0
  else if b = 0xF4 then some afterF4
  else if b < 0xE0 then within 0xC2 0xDF b tail1
  else if b < 0xF0 then some tail2
  else within 0xF1 0xF3 b tail3

def next : Utf8 → Byte → Option Utf8
  | start, b => first b
  | tail1, b => within 0x80 0xBF b start
  | tail2, b => within 0x80 0xBF b tail1
  | tail3, b => within 0x80 0xBF b tail2
  | afterE0, b => within 0xA0 0xBF b tail1
  | afterED, b => within 0x80 0x9F b tail1
  | afterEF, b => if b = 0xBF then some afterEFBF else within 0x80 0xBE b tail1
  | afterEFBF, b => within 0x80 0xBD b start
  | afterF0, b => within 0x90 0xBF b tail2
  | afterF4, b => within 0x80 0x8F b tail2

end Utf8

/-- The text is UTF-8 and all its characters are characters of XML. -/
def encoded (s : Str) : Bool := s.foldlM Utf8.next .start == some .start

/-- A carriage return, with or without a line feed behind it, is a line feed. -/
def lineEnds (afterReturn : Bool) : Str → Str
  | [] => []
  | b :: s =>
    if b = 13 then 10 :: lineEnds true s
    else if b = 10 ∧ afterReturn = true then lineEnds false s
    else b :: lineEnds false s

/-! ## Names -/

def isWhite (b : Byte) : Bool := b == 32 || b == 9 || b == 10 || b == 13

def isNameByte (b : Byte) : Bool :=
  (65 ≤ b && b ≤ 90) || (97 ≤ b && b ≤ 122) || isDigit b || b == ch '-' || b == ch '.' || b == ch '_' || b == ch ':' ||
    128 ≤ b

/-- The last character comes first. -/
def addByte (characters : List Nat) (b : Byte) : List Nat :=
  if b < 128 then b.toNat :: characters
  else if b < 0xC0 then
    match characters with
    | c :: cs => (c * 64 + (b.toNat - 128)) :: cs
    | [] => []
  else (if b < 0xE0 then b.toNat - 0xC0 else if b < 0xF0 then b.toNat - 0xE0 else b.toNat - 0xF0) :: characters

def codePoints (s : Str) : List Nat := (s.foldl addByte []).reverse

def isNameStart (c : Nat) : Bool :=
  [(58, 58), (65, 90), (95, 95), (97, 122), (0xC0, 0xD6), (0xD8, 0xF6), (0xF8, 0x2FF), (0x370, 0x37D),
    (0x37F, 0x1FFF), (0x200C, 0x200D), (0x2070, 0x218F), (0x2C00, 0x2FEF), (0x3001, 0xD7FF), (0xF900, 0xFDCF),
    (0xFDF0, 0xFFFD), (0x10000, 0xEFFFF)].any fun range => range.1 ≤ c && c ≤ range.2

def isNameChar (c : Nat) : Bool :=
  isNameStart c || [(45, 46), (48, 57), (0xB7, 0xB7), (0x300, 0x36F), (0x203F, 0x2040)].any fun range =>
    range.1 ≤ c && c ≤ range.2

def isName (s : Str) : Bool :=
  match codePoints s with
  | c :: cs => isNameStart c && cs.all isNameChar
  | [] => false

/-! ## References -/

def isChar (c : Nat) : Bool :=
  [(9, 10), (13, 13), (32, 0xD7FF), (0xE000, 0xFFFD), (0x10000, 0x10FFFF)].any fun range =>
    range.1 ≤ c && c ≤ range.2

def encode (c : Nat) : Str :=
  if c < 0x80 then [c.toUInt8]
  else if c < 0x800 then [128 ||| 64 ||| (c / 64).toUInt8, 128 ||| (c % 64).toUInt8]
  else if c < 0x10000 then [0xE0 ||| (c / 4096).toUInt8, 128 ||| (c / 64 % 64).toUInt8, 128 ||| (c % 64).toUInt8]
  else [0xF0 ||| (c / 262144).toUInt8, 128 ||| (c / 4096 % 64).toUInt8, 128 ||| (c / 64 % 64).toUInt8,
    128 ||| (c % 64).toUInt8]

def hexValue (b : Byte) : Nat :=
  if isDigit b then b.toNat - 48 else if 97 ≤ b then b.toNat - 87 else b.toNat - 55

def character (c : Nat) : Option Str := if isChar c then some (encode c) else none

/-- What stands between `&` and `;`. Without a declaration there are five entities. -/
def resolve (body : Str) : Option Str :=
  if body.take 2 = ascii "#x" then
    if body.drop 2 ≠ [] ∧ (body.drop 2).all isXDigit = true then
      character ((body.drop 2).foldl (fun n b => n * 16 + hexValue b) 0)
    else none
  else if body.take 1 = ascii "#" then
    if body.drop 1 ≠ [] ∧ (body.drop 1).all isDigit = true then character (digits 0 (body.drop 1)) else none
  else if body = ascii "lt" then some (ascii "<")
  else if body = ascii "gt" then some (ascii ">")
  else if body = ascii "amp" then some (ascii "&")
  else if body = ascii "apos" then some (ascii "'")
  else if body = ascii "quot" then some (ascii "\"")
  else none

/-! ## The reader -/

inductive Tag where
  | opening (name : Str) (attributes : List (Str × Str))
  | closing (name : Str)
deriving DecidableEq

/-- The tags of a text with the character data before each, and what comes behind the last. -/
structure Content where
  tags : List (Str × Tag)
  text : Str
deriving DecidableEq

namespace Content

def add (c : Content) (s : Str) : Content := { c with text := c.text ++ s }

def tag (c : Content) (t : Tag) : Content := ⟨c.tags ++ [(c.text, t)], []⟩

end Content

structure StartTag where
  name : Str
  attributes : List (Str × Str)
deriving DecidableEq

/-- An attribute in the middle of its value. -/
structure Attribute where
  tag : StartTag
  name : Str
  single : Bool
  value : Str
deriving DecidableEq

def Attribute.quote (x : Attribute) : Byte := if x.single then ch '\'' else ch '"'

/-- What the reader is in the middle of. -/
inductive Mode where
  /-- Character data, behind so many closing brackets, of which two count. -/
  | content (brackets : Nat)
  /-- A reference, in an attribute or in character data. -/
  | reference (place : Option Attribute) (body : Str)
  | markup
  | opening (name : Str)
  | tag (t : StartTag) (spaced : Bool)
  | slash (t : StartTag)
  | naming (t : StartTag) (name : Str)
  | equals (t : StartTag) (name : Str)
  | quote (t : StartTag) (name : Str)
  | value (x : Attribute)
  | closing (name : Str)
  | closed (name : Str)
  /-- What came behind `<!`. -/
  | declared (seen : Str)
  | comment (hyphens : Nat)
  | cdata (brackets : Nat)
  | target (name : Str)
  | instruction (question : Bool)
  | instructed
deriving DecidableEq

structure Reader where
  read : Content
  /-- The elements that are open, the innermost first. -/
  inside : List Str
  mode : Mode
deriving DecidableEq

/-- Character data has no `<`, no `&` and no `]]>`. -/
def textStep (brackets : Nat) (b : Byte) : Option Nat :=
  if b = ch '<' ∨ b = ch '&' then none
  else if b = ch ']' then some (min 2 (brackets + 1))
  else if b = ch '>' ∧ brackets = 2 then none
  else some 0

namespace Reader

def start : Reader := ⟨⟨[], []⟩, [], .content 0⟩

def turn (r : Reader) (mode : Mode) : Reader := { r with mode := mode }

/-- Behind a start tag. -/
def enter (r : Reader) (t : StartTag) : Option Reader :=
  if isName t.name then some ⟨r.read.tag (.opening t.name t.attributes), t.name :: r.inside, .content 0⟩ else none

/-- Behind an end tag, which must be that of the innermost element. -/
def leave (r : Reader) (name : Str) : Option Reader :=
  match r.inside with
  | inner :: inside => if inner = name then some ⟨r.read.tag (.closing name), inside, .content 0⟩ else none
  | [] => none

/-- Outside the root there is only white space. -/
def content (r : Reader) (brackets : Nat) (b : Byte) : Option Reader :=
  if b = ch '<' then some (r.turn .markup)
  else if r.inside = [] then if isWhite b then some r else none
  else if b = ch '&' then some (r.turn (.reference none []))
  else (textStep brackets b).map fun brackets => { r with read := r.read.add [b], mode := .content brackets }

def reference (r : Reader) (place : Option Attribute) (body : Str) (b : Byte) : Option Reader :=
  if b = ch ';' then
    (resolve body).map fun s =>
      match place with
      | some x => r.turn (.value { x with value := x.value ++ s })
      | none => { r with read := r.read.add s, mode := .content 0 }
  else some (r.turn (.reference place (body ++ [b])))

/-- There is one root. -/
def markup (r : Reader) (b : Byte) : Option Reader :=
  if b = ch '/' then some (r.turn (.closing []))
  else if b = ch '!' then some (r.turn (.declared []))
  else if b = ch '?' then some (r.turn (.target []))
  else if isNameByte b = true ∧ (r.inside ≠ [] ∨ r.read.tags = []) then some (r.turn (.opening [b]))
  else none

def opening (r : Reader) (name : Str) (b : Byte) : Option Reader :=
  if isNameByte b then some (r.turn (.opening (name ++ [b])))
  else if isWhite b then some (r.turn (.tag ⟨name, []⟩ true))
  else if b = ch '/' then some (r.turn (.slash ⟨name, []⟩))
  else if b = ch '>' then r.enter ⟨name, []⟩
  else none

/-- White space stands before each attribute. -/
def inTag (r : Reader) (t : StartTag) (spaced : Bool) (b : Byte) : Option Reader :=
  if isWhite b then some (r.turn (.tag t true))
  else if b = ch '/' then some (r.turn (.slash t))
  else if b = ch '>' then r.enter t
  else if isNameByte b = true ∧ spaced = true then some (r.turn (.naming t [b]))
  else none

def slash (r : Reader) (t : StartTag) (b : Byte) : Option Reader :=
  if b = ch '>' then (r.enter t).bind fun r => r.leave t.name else none

def naming (r : Reader) (t : StartTag) (name : Str) (b : Byte) : Option Reader :=
  if isNameByte b then some (r.turn (.naming t (name ++ [b])))
  else if isWhite b then some (r.turn (.equals t name))
  else if b = ch '=' then some (r.turn (.quote t name))
  else none

def equals (r : Reader) (t : StartTag) (name : Str) (b : Byte) : Option Reader :=
  if isWhite b then some r else if b = ch '=' then some (r.turn (.quote t name)) else none

def quote (r : Reader) (t : StartTag) (name : Str) (b : Byte) : Option Reader :=
  if isWhite b then some r
  else if b = ch '"' ∨ b = ch '\'' then some (r.turn (.value ⟨t, name, b == ch '\'', []⟩))
  else none

/-- No tag has two attributes of one name. White space in a value is a blank. -/
def value (r : Reader) (x : Attribute) (b : Byte) : Option Reader :=
  if b = x.quote then
    if isName x.name && x.tag.attributes.all (·.1 != x.name) then
      some (r.turn (.tag ⟨x.tag.name, x.tag.attributes ++ [(x.name, x.value)]⟩ false))
    else none
  else if b = ch '<' then none
  else if b = ch '&' then some (r.turn (.reference (some x) []))
  else some (r.turn (.value { x with value := x.value ++ [if isWhite b then 32 else b] }))

def closing (r : Reader) (name : Str) (b : Byte) : Option Reader :=
  if isNameByte b then some (r.turn (.closing (name ++ [b])))
  else if isWhite b then some (r.turn (.closed name))
  else if b = ch '>' then r.leave name
  else none

def closed (r : Reader) (name : Str) (b : Byte) : Option Reader :=
  if isWhite b then some r else if b = ch '>' then r.leave name else none

/-- A comment, or a CDATA section where character data may stand. -/
def declared (r : Reader) (seen : Str) (b : Byte) : Option Reader :=
  if seen ++ [b] = ascii "--" then some (r.turn (.comment 0))
  else if seen ++ [b] = ascii "[CDATA[" ∧ r.inside ≠ [] then some (r.turn (.cdata 0))
  else if seen ++ [b] = ascii "-" ∨ (seen ++ [b]).isPrefixOf (ascii "[CDATA") = true then
    some (r.turn (.declared (seen ++ [b])))
  else none

def comment (r : Reader) (hyphens : Nat) (b : Byte) : Option Reader :=
  if hyphens = 2 then if b = ch '>' then some (r.turn (.content 0)) else none
  else if b = ch '-' then some (r.turn (.comment (hyphens + 1)))
  else some (r.turn (.comment 0))

/-- Brackets wait until it is known whether they end the section. -/
def cdata (r : Reader) (brackets : Nat) (b : Byte) : Option Reader :=
  if b = ch ']' then
    if brackets = 2 then some { r with read := r.read.add [b] } else some (r.turn (.cdata (brackets + 1)))
  else if b = ch '>' ∧ brackets = 2 then some (r.turn (.content 0))
  else some { r with read := r.read.add (List.replicate brackets (ch ']') ++ [b]), mode := .cdata 0 }

def target (r : Reader) (name : Str) (b : Byte) : Option Reader :=
  if isNameByte b then some (r.turn (.target (name ++ [b])))
  else if isName name = true ∧ caseEq name (ascii "xml") = false then
    if isWhite b then some (r.turn (.instruction false))
    else if b = ch '?' then some (r.turn .instructed)
    else none
  else none

def instruction (r : Reader) (question : Bool) (b : Byte) : Option Reader :=
  if b = ch '>' ∧ question = true then some (r.turn (.content 0)) else some (r.turn (.instruction (b == ch '?')))

def instructed (r : Reader) (b : Byte) : Option Reader :=
  if b = ch '>' then some (r.turn (.content 0)) else none

def step (r : Reader) (b : Byte) : Option Reader :=
  match r.mode with
  | .content brackets => r.content brackets b
  | .reference place body => r.reference place body b
  | .markup => r.markup b
  | .opening name => r.opening name b
  | .tag t spaced => r.inTag t spaced b
  | .slash t => r.slash t b
  | .naming t name => r.naming t name b
  | .equals t name => r.equals t name b
  | .quote t name => r.quote t name b
  | .value x => r.value x b
  | .closing name => r.closing name b
  | .closed name => r.closed name b
  | .declared seen => r.declared seen b
  | .comment hyphens => r.comment hyphens b
  | .cdata brackets => r.cdata brackets b
  | .target name => r.target name b
  | .instruction question => r.instruction question b
  | .instructed => r.instructed b

def run (r : Reader) (s : Str) : Option Reader := s.foldlM step r

/-- A document has a root, and nothing in it is left open. -/
def finish (r : Reader) : Option (List (Str × Tag)) :=
  match r.mode with
  | .content _ => if r.inside = [] ∧ r.read.tags ≠ [] then some r.read.tags else none
  | _ => none

end Reader

/-! ## Documents -/

def dropPrefix (lit s : Str) : Option Str := if lit.isPrefixOf s then some (s.drop lit.length) else none

def quoted (ok : Str → Bool) : Str → Option Str
  | [] => none
  | q :: s =>
    let v := s.takeWhile (· != q)
    if (q = ch '"' ∨ q = ch '\'') ∧ ok v = true ∧ v.length < s.length then some (s.drop (v.length + 1)) else none

def pseudoAttribute (name : String) (ok : Str → Bool) (s : Str) : Option Str :=
  if (s.head?.map isWhite).getD false then
    (dropPrefix (ascii name) (s.dropWhile isWhite)).bind fun s =>
    (dropPrefix (ascii "=") (s.dropWhile isWhite)).bind fun s => quoted ok (s.dropWhile isWhite)
  else none

def isVersion (s : Str) : Bool := s.take 2 == ascii "1." && s.drop 2 != [] && (s.drop 2).all isDigit

/-- What follows `<?xml`. -/
def declaration (s : Str) : Option Str :=
  (pseudoAttribute "version" isVersion s).bind fun s =>
  let s := (pseudoAttribute "encoding" (caseEq (ascii "UTF-8")) s).getD s
  let s := (pseudoAttribute "standalone" (fun v => v == ascii "yes" || v == ascii "no") s).getD s
  dropPrefix (ascii "?>") (s.dropWhile isWhite)

def afterDeclaration (s : Str) : Option Str :=
  match dropPrefix (ascii "<?xml") s with
  | some rest => if (rest.head?.map isWhite).getD false then declaration rest else some s
  | none => some s

/-- The tags of a well-formed document. -/
def read (document : Str) : Option (List (Str × Tag)) :=
  if encoded document then
    (afterDeclaration (lineEnds false document)).bind fun s => (Reader.start.run s).bind Reader.finish
  else none

example : read (ascii "<a b='&lt;'>&#x41;<!-- B -->C<![CDATA[<&]]></a>") =
    some [([], .opening (ascii "a") [(ascii "b", ascii "<")]), (ascii "AC<&", .closing (ascii "a"))] := by
  decide +kernel

example : read (ascii "<a>b & c</a>") = none := by decide +kernel

end Xml
