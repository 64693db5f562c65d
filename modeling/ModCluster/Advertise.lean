import ModCluster.Lib.Buffer
import Mathlib.Data.List.TakeWhile
import Mathlib.Data.Nat.Digits.Defs

/-!
# Advertisements

`mod_advertise` sends a datagram to a multicast group from time to time, and the workers
read in it where the manager listens. It is put together in a buffer by two bounded
prints and an append.
-/

open CString

namespace ModCluster

def MA_BSIZE : Nat := 4096

/-- `MA_ADVERTISE_SERVER` and `MA_ADVERTISE_STATUS`. -/
inductive AdvertiseType where
  | server
  | status
deriving DecidableEq, Repr

/-- What is configured for an advertisement. -/
structure AdvertiseConfig where
  maAdvertiseSrvs : CStr
  maAdvertiseSrvp : UInt16
  maAdvertiseSrvh : CStr
  maAdvertiseSrvm : CStr
  serverHostname : CStr

/-- What comes from the server and its libraries: the status line, the date, the salt and
the name of the server, and MD5. -/
structure AdvertiseEnv where
  asl : CStr
  dat : CStr
  ssalt : List Byte
  srvid : CStr
  md5 : List Byte → Vector Byte 16

/-- The array on the stack, with what was left in it. -/
structure AdvertiseStack where
  buf : Buffer MA_BSIZE
  add : Buffer 40

def crlf : Str := [13, 10]

def hex : Str := ascii "0123456789abcdef"

/-- A digest in hexadecimal. -/
def ssigOf (msig : Vector Byte 16) : Str :=
  msig.toList.flatMap fun b => [hex.getD (b.toNat / 16) 0, hex.getD (b.toNat % 16) 0]

/-- `MA_ADVERTISE_SERVER_FMT`. -/
def statusText (asl dat : Str) (sequence : Int) (ssig srvid : Str) : Str :=
  ascii "HTTP/1.0 " ++ asl ++ crlf ++
  (ascii "Date: " ++ dat ++ crlf) ++
  (ascii "Sequence: " ++ decimalInt sequence ++ crlf) ++
  (ascii "Digest: " ++ ssig ++ crlf) ++
  (ascii "Server: " ++ srvid ++ crlf)

def managerText (srvs : Str) (srvp : UInt16) (srvh srvm hostname : Str) : Str :=
  ascii "X-Manager-Address: " ++ srvs ++ ascii ":" ++ decimal srvp.toNat ++ crlf ++
  (ascii "X-Manager-Url: " ++ srvh ++ crlf) ++
  (ascii "X-Manager-Protocol: " ++ srvm ++ crlf) ++
  (ascii "X-Manager-Host: " ++ hostname ++ crlf)

/-- The number of the next advertisement: it starts again at 1 when it has wrapped. -/
def nextSequence (sequence : Int) : Int :=
  let next := (sequence + 1).bmod (2 ^ 64)
  if next < 1 then 1 else next

/-- The address that is printed. One with a colon is put into brackets in `add`. -/
def bracketed (add : Buffer 40) (srvs : CStr) : Option Str :=
  if ch ':' ∈ srvs.1 then do
    let (add, _) ← add.aprSnprintf 0 40 (ascii "[" ++ srvs.1 ++ ascii "]")
    return strAt add.bytes 0
  else some srvs.1

/-- The datagram and the new sequence number. There is no result when a write leaves its
array. -/
def maAdvertiseServer (env : AdvertiseEnv) (mconf : AdvertiseConfig) (stack : AdvertiseStack) (maSequence : Int)
    (type : AdvertiseType) : Option (Str × Int) := do
  let maSequence := nextSequence maSequence
  let buf ← stack.buf.sprintf (decimalInt maSequence)
  let ssig := ssigOf (env.md5 (env.ssalt ++ env.dat.1 ++ strAt buf.bytes 0 ++ env.srvid.1.drop 1))
  let l := MA_BSIZE - 8
  let (buf, n) ← buf.aprSnprintf 0 l (statusText env.asl.1 env.dat.1 maSequence ssig (env.srvid.1.drop 1))
  let (buf, n) ←
    match type with
    | .server => do
      let srvs ← bracketed stack.add mconf.maAdvertiseSrvs
      let (buf, m) ← buf.aprSnprintf n (l - n)
        (managerText srvs mconf.maAdvertiseSrvp mconf.maAdvertiseSrvh.1 mconf.maAdvertiseSrvm.1 mconf.serverHostname.1)
      pure (buf, n + m)
    | .status => pure (buf, n)
  let buf ← buf.strcat crlf
  return (buf.bytes.take (n + 2), maSequence)

/-! ## No NUL in the texts -/

theorem isDigit_ne_zero {b : Byte} (h : isDigit b = true) : b ≠ 0 := by
  rintro rfl
  revert h
  decide

theorem zero_notMem_decimal (n : Nat) : 0 ∉ decimal n := fun h => isDigit_ne_zero (isDigit_decimal n 0 h) rfl

theorem zero_notMem_decimalInt (n : Int) : 0 ∉ decimalInt n := by
  have hminus : (0 : Byte) ≠ ch '-' := by decide
  unfold decimalInt
  split <;> simp [zero_notMem_decimal, hminus]

theorem hex_ne_zero : ∀ i < 16, hex.getD i 0 ≠ 0 := by decide

theorem zero_notMem_ssigOf (msig : Vector Byte 16) : 0 ∉ ssigOf msig := by
  intro h
  obtain ⟨b, -, hb⟩ := List.mem_flatMap.1 h
  have hlt := b.toNat_lt
  simp only [List.mem_cons, List.not_mem_nil, or_false] at hb
  rcases hb with hb | hb
  · exact hex_ne_zero (b.toNat / 16) (by omega) hb.symm
  · exact hex_ne_zero (b.toNat % 16) (by omega) hb.symm

theorem zero_notMem_statusText (env : AdvertiseEnv) (sequence : Int) (msig : Vector Byte 16) :
    0 ∉ statusText env.asl.1 env.dat.1 sequence (ssigOf msig) (env.srvid.1.drop 1) := by
  have hfixed : 0 ∉ ascii "HTTP/1.0 " ∧ 0 ∉ crlf ∧ 0 ∉ ascii "Date: " ∧ 0 ∉ ascii "Sequence: " ∧
      0 ∉ ascii "Digest: " ∧ 0 ∉ ascii "Server: " := by decide
  have hsrvid : 0 ∉ env.srvid.1.drop 1 := fun h => env.srvid.2 (List.mem_of_mem_drop h)
  simp only [statusText, List.mem_append, not_or]
  simp only [hfixed, env.asl.2, env.dat.2, hsrvid, zero_notMem_decimalInt, zero_notMem_ssigOf, not_false_eq_true,
    and_self]

theorem zero_notMem_managerText (mconf : AdvertiseConfig) {srvs : Str} (hsrvs : 0 ∉ srvs) :
    0 ∉ managerText srvs mconf.maAdvertiseSrvp mconf.maAdvertiseSrvh.1 mconf.maAdvertiseSrvm.1
      mconf.serverHostname.1 := by
  have hfixed : 0 ∉ ascii "X-Manager-Address: " ∧ 0 ∉ ascii ":" ∧ 0 ∉ crlf ∧ 0 ∉ ascii "X-Manager-Url: " ∧
      0 ∉ ascii "X-Manager-Protocol: " ∧ 0 ∉ ascii "X-Manager-Host: " := by decide
  simp only [managerText, List.mem_append, not_or]
  simp only [hfixed, hsrvs, zero_notMem_decimal, mconf.maAdvertiseSrvh.2, mconf.maAdvertiseSrvm.2,
    mconf.serverHostname.2, not_false_eq_true, and_self]

/-! ## The datagram -/

/-- The address as it is put into the message. -/
def sentAddress (srvs : Str) : Str :=
  if ch ':' ∈ srvs then (ascii "[" ++ srvs ++ ascii "]").take 39 else srvs

theorem zero_notMem_sentAddress (srvs : CStr) : 0 ∉ sentAddress srvs.1 := by
  have hbrackets : 0 ∉ ascii "[" ∧ 0 ∉ ascii "]" := by decide
  unfold sentAddress
  split
  · intro h
    have h := List.mem_of_mem_take h
    simp [hbrackets, srvs.2] at h
  · exact srvs.2

theorem prints_begin {size l : Nat} {b : Buffer size} (hl : 0 < l) (hsize : l ≤ size) (s t : Str) :
    ∃ b₁ b₂ m, b.aprSnprintf 0 l s = some (b₁, min s.length (l - 1)) ∧
      b₁.aprSnprintf (min s.length (l - 1)) (l - min s.length (l - 1)) t = some (b₂, m) ∧
      b₁.Begins (s.take (l - 1)) ∧ b₂.Begins ((s ++ t).take (l - 1)) ∧
      min s.length (l - 1) + m = ((s ++ t).take (l - 1)).length := by
  obtain ⟨b₁, hfirst, hbegins⟩ := @Buffer.aprSnprintf_begins size b s [] 0 l hl (by omega) rfl
  have hlen : (s.take (l - 1)).length = min s.length (l - 1) := by rw [List.length_take, Nat.min_comm]
  have hfront : b₁.bytes.take (min s.length (l - 1)) = s.take (l - 1) := hlen ▸ hbegins.take
  obtain ⟨b₂, hsecond, hboth⟩ :=
    @Buffer.aprSnprintf_begins size b₁ t _ _ (l - min s.length (l - 1)) (by omega) (by omega) hfront
  have hrest : l - min s.length (l - 1) - 1 = l - 1 - s.length := by omega
  refine ⟨b₁, b₂, _, hfirst, hsecond, hbegins, ?_, ?_⟩
  · rw [List.take_append, ← hrest]
    exact hboth
  · simp only [List.length_take, List.length_append]
    omega

theorem bracketed_eq (add : Buffer 40) (srvs : CStr) : bracketed add srvs = some (sentAddress srvs.1) := by
  have hnul := zero_notMem_sentAddress srvs
  unfold bracketed
  unfold sentAddress at hnul ⊢
  split
  · rename_i hcolon
    rw [if_pos hcolon] at hnul
    obtain ⟨add', hprint, hbegins⟩ :=
      @Buffer.aprSnprintf_begins 40 add (ascii "[" ++ srvs.1 ++ ascii "]") [] 0 40 (by omega) (by omega) rfl
    rw [hprint]
    exact congrArg some (hbegins.strAt hnul)
  · rfl

theorem append_crlf {b : Buffer MA_BSIZE} {t : Str} (hbegins : b.Begins t) (ht : 0 ∉ t) (hlen : t.length ≤ 4087) :
    ∃ b', b.strcat crlf = some b' ∧ b'.bytes.take (t.length + 2) = t ++ crlf := by
  have hroom : t.length + crlf.length < MA_BSIZE := by
    simp only [crlf, MA_BSIZE, List.length_cons, List.length_nil]
    omega
  obtain ⟨b', hcat, hboth⟩ := Buffer.strcat_begins hbegins ht hroom
  exact ⟨b', hcat, by simpa [crlf] using hboth.take⟩

theorem sequence_short (k : Int) : (decimalInt (nextSequence k)).length < MA_BSIZE := by
  have hpos : 1 ≤ nextSequence k ∧ nextSequence k < 2 ^ 63 := by
    simp only [nextSequence, Int.bmod_def]
    omega
  have hlen : (decimal (nextSequence k).natAbs).length ≤ 19 := by
    rw [decimal, List.length_map]
    exact Nat.toDigits_length 10 _ 19 (by omega) (by omega)
  rw [decimalInt, if_neg (by omega), MA_BSIZE]
  omega

variable (env : AdvertiseEnv) (mconf : AdvertiseConfig) (stack : AdvertiseStack) (k : Int)

def digestOf : Vector Byte 16 :=
  env.md5 (env.ssalt ++ env.dat.1 ++ decimalInt (nextSequence k) ++ env.srvid.1.drop 1)

def statusLines : Str :=
  statusText env.asl.1 env.dat.1 (nextSequence k) (ssigOf (digestOf env k)) (env.srvid.1.drop 1)

def managerLines (address : Str) : Str :=
  managerText address mconf.maAdvertiseSrvp mconf.maAdvertiseSrvh.1 mconf.maAdvertiseSrvm.1 mconf.serverHostname.1

theorem sprintf_sequence (buf : Buffer MA_BSIZE) :
    ∃ buf', buf.sprintf (decimalInt (nextSequence k)) = some buf' ∧
      strAt buf'.bytes 0 = decimalInt (nextSequence k) := by
  obtain ⟨buf', hprint, hbegins⟩ := Buffer.sprintf_of_lt (b := buf) (sequence_short k)
  exact ⟨buf', hprint, hbegins.strAt (zero_notMem_decimalInt _)⟩

theorem maAdvertiseServer_server :
    maAdvertiseServer env mconf stack k .server =
      some ((statusLines env k ++ managerLines mconf (sentAddress mconf.maAdvertiseSrvs.1)).take 4087 ++ crlf,
        nextSequence k) := by
  obtain ⟨buf, hprint, hsequence⟩ := sprintf_sequence k stack.buf
  obtain ⟨b₁, b₂, m, hfirst, hsecond, -, hboth, hlen⟩ :=
    prints_begin (b := buf) (l := 4088) (by omega) (by decide) (statusLines env k)
      (managerLines mconf (sentAddress mconf.maAdvertiseSrvs.1))
  have hnul : 0 ∉ (statusLines env k ++ managerLines mconf (sentAddress mconf.maAdvertiseSrvs.1)).take 4087 := by
    intro h
    rcases List.mem_append.1 (List.mem_of_mem_take h) with h | h
    · exact zero_notMem_statusText env _ _ h
    · exact zero_notMem_managerText mconf (zero_notMem_sentAddress _) h
  obtain ⟨b₃, hcat, hdatagram⟩ := append_crlf hboth hnul (by rw [List.length_take]; omega)
  have hl : MA_BSIZE - 8 = 4088 := rfl
  unfold statusLines digestOf at hfirst hsecond
  unfold managerLines at hsecond
  simp only [maAdvertiseServer, hprint, Option.bind_eq_bind, Option.bind_some, hsequence, hl, hfirst, bracketed_eq,
    hsecond, Option.pure_def, hcat]
  unfold statusLines digestOf at hlen hdatagram ⊢
  rw [hlen, ← hdatagram]

theorem maAdvertiseServer_status :
    maAdvertiseServer env mconf stack k .status =
      some ((statusLines env k).take 4087 ++ crlf, nextSequence k) := by
  obtain ⟨buf, hprint, hsequence⟩ := sprintf_sequence k stack.buf
  obtain ⟨b₁, hfirst, hbegins⟩ :=
    @Buffer.aprSnprintf_begins MA_BSIZE buf (statusLines env k) [] 0 4088 (by omega) (by decide) rfl
  have hnul : 0 ∉ (statusLines env k).take 4087 :=
    fun h => zero_notMem_statusText env _ _ (List.mem_of_mem_take h)
  obtain ⟨b₂, hcat, hdatagram⟩ := append_crlf hbegins hnul (by rw [List.nil_append, List.length_take]; omega)
  have hlen : min (statusLines env k).length (4088 - 1) = ((statusLines env k).take 4087).length := by
    rw [List.length_take, Nat.min_comm]
  have hl : MA_BSIZE - 8 = 4088 := rfl
  unfold statusLines digestOf at hfirst
  simp only [maAdvertiseServer, hprint, Option.bind_eq_bind, Option.bind_some, hsequence, hl, hfirst,
    Option.pure_def, hcat]
  rw [List.nil_append] at hdatagram
  unfold statusLines digestOf at hlen hdatagram ⊢
  rw [hlen]
  exact congrArg (fun sent => some (sent, nextSequence k)) hdatagram

/-! ## Reading it -/

/-- Lines, each with its end. -/
def unlines (lines : List Str) : Str := lines.flatMap (· ++ crlf)

/-- The header lines of an advertisement, whatever stands in the address line. -/
def headerLines (address : Str) : List Str :=
  [ascii "HTTP/1.0 " ++ env.asl.1,
    ascii "Date: " ++ env.dat.1,
    ascii "Sequence: " ++ decimalInt (nextSequence k),
    ascii "Digest: " ++ ssigOf (digestOf env k),
    ascii "Server: " ++ env.srvid.1.drop 1,
    ascii "X-Manager-Address: " ++ address,
    ascii "X-Manager-Url: " ++ mconf.maAdvertiseSrvh.1,
    ascii "X-Manager-Protocol: " ++ mconf.maAdvertiseSrvm.1,
    ascii "X-Manager-Host: " ++ mconf.serverHostname.1]

/-- The header lines and an empty line. -/
def advertisement (address : Str) : Str := unlines (headerLines env mconf k address) ++ crlf

/-- How an address line is meant to be. -/
def addressLine (srvs : Str) (srvp : Nat) : Str :=
  (if ch ':' ∈ srvs then ascii "[" ++ srvs ++ ascii "]" else srvs) ++ (ascii ":" ++ decimal srvp)

def readPort (s : Str) : Option Nat :=
  if s ≠ [] ∧ s.all isDigit then some (digits 0 s) else none

/-- A host up to `stop`, then `behind` and a port. -/
def readHostPort (stop : Byte) (behind s : Str) : Option (Str × Nat) :=
  let rest := s.dropWhile (· != stop)
  if behind.isPrefixOf rest then (readPort (rest.drop behind.length)).map (s.takeWhile (· != stop), ·) else none

/-- Host, a colon and a port. A host with colons stands in brackets. -/
def readAddress (s : Str) : Option (Str × Nat) :=
  if s.head? = some (ch '[') then readHostPort (ch ']') (ascii "]:") (s.drop 1) else readHostPort (ch ':') (ascii ":") s

/-- IPv4 and IPv6 addresses are written with these characters. -/
def AddressText (s : Str) : Prop := s ≠ [] ∧ ∀ c ∈ s, isXDigit c ∨ c = ch ':' ∨ c = ch '.'

theorem lines_eq (srvs : Str) :
    statusLines env k ++ managerLines mconf srvs =
      unlines (headerLines env mconf k (srvs ++ (ascii ":" ++ decimal mconf.maAdvertiseSrvp.toNat))) := by
  simp [statusLines, managerLines, statusText, managerText, unlines, headerLines]

section Reading

variable {env mconf stack k} {srvs : Str}

theorem readPort_decimal (n : Nat) : readPort (decimal n) = some n := by
  have hne : decimal n ≠ [] := by
    rw [decimal_eq]
    simp
  rw [readPort, if_pos ⟨hne, List.all_eq_true.2 (isDigit_decimal n)⟩, digits_decimal]

theorem AddressText.no_bracket (h : AddressText srvs) : ∀ c ∈ srvs, (c != ch ']') = true ∧ c ≠ ch '[' := by
  have hbrackets : isXDigit (ch ']') = false ∧ isXDigit (ch '[') = false := by decide
  intro c hc
  rw [bne_iff_ne]
  constructor <;> rintro rfl
  · rcases h.2 _ hc with h | h | h
    · simp [hbrackets] at h
    all_goals exact absurd h (by decide)
  · rcases h.2 _ hc with h | h | h
    · simp [hbrackets] at h
    all_goals exact absurd h (by decide)

theorem readHostPort_of_ne {stop : Byte} {host behind : Str} (hhost : ∀ c ∈ host, (c != stop) = true)
    (hbehind : behind.head? = some stop) (p : Nat) :
    readHostPort stop behind (host ++ (behind ++ decimal p)) = some (host, p) := by
  obtain ⟨rest, rfl⟩ : ∃ rest, behind = stop :: rest := by
    cases behind with
    | nil => cases hbehind
    | cons b rest => exact ⟨rest, by simpa using hbehind⟩
  have hrest : (stop :: rest ++ decimal p).dropWhile (· != stop) = stop :: rest ++ decimal p ∧
      (stop :: rest ++ decimal p).takeWhile (· != stop) = [] := by simp
  have hbegins : (stop :: rest).isPrefixOf (stop :: rest ++ decimal p) = true :=
    List.isPrefixOf_iff_prefix.2 (List.prefix_append _ _)
  simp only [readHostPort, List.takeWhile_append_of_pos hhost, List.dropWhile_append_of_pos hhost, hrest, hbegins,
    if_true, List.append_nil]
  rw [List.drop_left, readPort_decimal]
  rfl

theorem readHostPort_none {stop : Byte} {s behind : Str} (hs : ∀ c ∈ s, (c != stop) = true)
    (hbehind : behind.head? = some stop) : readHostPort stop behind s = none := by
  have hnone : s.dropWhile (· != stop) = [] := by
    rw [List.dropWhile_eq_nil_iff]
    exact hs
  obtain ⟨rest, rfl⟩ : ∃ rest, behind = stop :: rest := by
    cases behind with
    | nil => cases hbehind
    | cons b rest => exact ⟨rest, by simpa using hbehind⟩
  rw [readHostPort, hnone]
  rfl

theorem readAddress_plain (h : AddressText srvs) (hcolon : ch ':' ∉ srvs) (p : Nat) :
    readAddress (srvs ++ (ascii ":" ++ decimal p)) = some (srvs, p) := by
  have hhead : (srvs ++ (ascii ":" ++ decimal p)).head? ≠ some (ch '[') := by
    obtain ⟨c, rest, rfl⟩ := List.exists_cons_of_ne_nil h.1
    simpa using (h.no_bracket c (by simp)).2
  rw [readAddress, if_neg hhead]
  apply readHostPort_of_ne
  · intro c hc
    rw [bne_iff_ne]
    rintro rfl
    exact hcolon hc
  · rfl

theorem readAddress_open (s : Str) : readAddress (ascii "[" ++ s) = readHostPort (ch ']') (ascii "]:") s :=
  if_pos rfl

theorem readAddress_bracketed (h : AddressText srvs) (p : Nat) :
    readAddress (ascii "[" ++ srvs ++ ascii "]" ++ (ascii ":" ++ decimal p)) = some (srvs, p) := by
  have hsplit : ascii "[" ++ srvs ++ ascii "]" ++ (ascii ":" ++ decimal p) =
      ascii "[" ++ (srvs ++ (ascii "]:" ++ decimal p)) := by
    have hclose : ascii "]:" = ascii "]" ++ ascii ":" := rfl
    simp only [hclose, List.append_assoc]
  rw [hsplit, readAddress_open]
  exact readHostPort_of_ne (fun c hc => (h.no_bracket c hc).1) rfl p

theorem readAddress_cut (h : AddressText srvs) (n p : Nat) :
    readAddress (ascii "[" ++ srvs.take n ++ (ascii ":" ++ decimal p)) = none := by
  have hcolon : (ch ':' != ch ']') = true := by decide
  rw [List.append_assoc, readAddress_open]
  apply readHostPort_none
  · intro c hc
    simp only [List.mem_append] at hc
    rcases hc with hc | hc | hc
    · exact (h.no_bracket c (List.mem_of_mem_take hc)).1
    · rw [List.mem_singleton.1 hc]
      exact hcolon
    · rw [bne_iff_ne]
      rintro rfl
      exact absurd (isDigit_decimal p _ hc) (by decide)
  · rfl

theorem readAddress_sentAddress (h : AddressText srvs) (p : Nat) :
    readAddress (sentAddress srvs ++ (ascii ":" ++ decimal p)) = some (srvs, p) ↔
      ch ':' ∉ srvs ∨ srvs.length ≤ 37 := by
  have hone : (ascii "[").length = 1 ∧ (ascii "]").length = 1 := by decide
  by_cases hcolon : ch ':' ∈ srvs
  · rw [sentAddress, if_pos hcolon]
    by_cases hlen : srvs.length ≤ 37
    · rw [List.take_of_length_le (by simp only [List.length_append]; omega), readAddress_bracketed h]
      simp [hlen]
    · have hcut : (ascii "[" ++ srvs ++ ascii "]").take 39 = ascii "[" ++ srvs.take 38 := by
        have hnone : 38 - srvs.length = 0 := by omega
        rw [List.append_assoc, List.take_append, List.take_of_length_le (by omega), hone.1, List.take_append, hnone,
          List.take_zero, List.append_nil]
      rw [hcut, readAddress_cut h]
      simp [hcolon, hlen]
  · rw [sentAddress, if_neg hcolon, readAddress_plain h hcolon]
    simp [hcolon]

theorem advertisement_inj {a a' : Str} (h : advertisement env mconf k a = advertisement env mconf k a') : a = a' := by
  simp only [advertisement, unlines, headerLines, List.flatMap_cons, List.append_assoc,
    List.append_cancel_left_eq] at h
  simpa only [← List.append_assoc, List.append_cancel_right_eq] using h

theorem length_advertisement_mono {a a' : Str} (h : a.length ≤ a'.length) :
    (advertisement env mconf k a).length ≤ (advertisement env mconf k a').length := by
  simp only [advertisement, unlines, headerLines, List.flatMap_cons, List.length_append]
  omega

theorem length_sentAddress_le (p : Nat) :
    (sentAddress srvs ++ (ascii ":" ++ decimal p)).length ≤ (addressLine srvs p).length := by
  unfold sentAddress addressLine
  split
  · simp only [List.length_append, List.length_take]
    omega
  · exact le_refl _

theorem maAdvertiseServer_of_fits
    (hfits : (advertisement env mconf k
      (addressLine mconf.maAdvertiseSrvs.1 mconf.maAdvertiseSrvp.toNat)).length ≤ MA_BSIZE - 8) :
    maAdvertiseServer env mconf stack k .server =
      some (advertisement env mconf k
        (sentAddress mconf.maAdvertiseSrvs.1 ++ (ascii ":" ++ decimal mconf.maAdvertiseSrvp.toNat)),
        nextSequence k) := by
  have hle := le_trans (length_advertisement_mono (length_sentAddress_le mconf.maAdvertiseSrvp.toNat)) hfits
  rw [maAdvertiseServer_server, lines_eq]
  unfold advertisement at hle ⊢
  rw [List.take_of_length_le]
  simp only [List.length_append, MA_BSIZE, crlf, List.length_cons] at hle
  omega

end Reading

/-- No write leaves its array. In a message that fits, the manager's address can be read back
unless it has a colon and more than 37 characters. -/
theorem address_advertised_iff :
    (∀ type, ∃ sent, maAdvertiseServer env mconf stack k type = some sent) ∧
    (AddressText mconf.maAdvertiseSrvs.1 →
      (advertisement env mconf k
        (addressLine mconf.maAdvertiseSrvs.1 mconf.maAdvertiseSrvp.toNat)).length ≤ MA_BSIZE - 8 →
      ((∃ address,
          maAdvertiseServer env mconf stack k .server = some (advertisement env mconf k address, nextSequence k) ∧
          readAddress address = some (mconf.maAdvertiseSrvs.1, mconf.maAdvertiseSrvp.toNat)) ↔
        ch ':' ∉ mconf.maAdvertiseSrvs.1 ∨ mconf.maAdvertiseSrvs.1.length ≤ 37)) := by
  constructor
  · rintro (_ | _)
    · exact ⟨_, maAdvertiseServer_server env mconf stack k⟩
    · exact ⟨_, maAdvertiseServer_status env mconf stack k⟩
  · intro htext hfits
    rw [maAdvertiseServer_of_fits hfits, ← readAddress_sentAddress htext mconf.maAdvertiseSrvp.toNat]
    constructor
    · rintro ⟨address, hsent, hread⟩
      simp only [Option.some.injEq, Prod.mk.injEq, and_true] at hsent
      rw [advertisement_inj hsent]
      exact hread
    · intro hread
      exact ⟨_, rfl, hread⟩

/-! ## An address of 39 characters -/

def longAddress : CStr := ⟨ascii "2001:0db8:85a3:0000:0000:8a2e:0370:7334", by decide⟩

def longConfig : AdvertiseConfig where
  maAdvertiseSrvs := longAddress
  maAdvertiseSrvp := 6666
  maAdvertiseSrvh := ⟨ascii "/", by decide⟩
  maAdvertiseSrvm := ⟨ascii "http", by decide⟩
  serverHostname := ⟨ascii "localhost", by decide⟩

def longEnv : AdvertiseEnv where
  asl := ⟨ascii "200 OK", by decide⟩
  dat := ⟨ascii "Thu, 01 Jan 1970 00:00:00 GMT", by decide⟩
  ssalt := List.replicate 16 0
  srvid := ⟨ascii "/0", by decide⟩
  md5 := fun _ => Vector.replicate 16 0

def cleanStack : AdvertiseStack where
  buf := ⟨List.replicate MA_BSIZE 0, List.length_replicate⟩
  add := ⟨List.replicate 40 0, List.length_replicate⟩

/-- The closing bracket is lost. -/
theorem long_address_lost :
    longAddress.1.length = 39 ∧
      (advertisement longEnv longConfig 0 (addressLine longAddress.1 6666)).length ≤ MA_BSIZE - 8 ∧
      ¬ ∃ address, maAdvertiseServer longEnv longConfig cleanStack 0 .server =
          some (advertisement longEnv longConfig 0 address, nextSequence 0) ∧
        readAddress address = some (longAddress.1, 6666) := by
  have hfits : (advertisement longEnv longConfig 0 (addressLine longAddress.1 6666)).length ≤ MA_BSIZE - 8 := by
    decide +kernel
  refine ⟨rfl, hfits, ?_⟩
  rintro ⟨address, hsent, hread⟩
  rw [@maAdvertiseServer_of_fits longEnv longConfig cleanStack 0 hfits] at hsent
  simp only [Option.some.injEq, Prod.mk.injEq, and_true] at hsent
  rw [← advertisement_inj hsent] at hread
  revert hread
  decide +kernel

end ModCluster
