import Mathlib.Algebra.Ring.Int.Defs
import Mathlib.Algebra.Ring.Nat
import Mathlib.Data.List.Basic

/-!
# C strings

Bytes, the strings they make up, and the part of the C library that works on
them. A string is a list of bytes without its NUL. Code that writes into a string
or walks past its end works on `Mem`, where a pointer is an offset.
-/

namespace CString

abbrev Byte := UInt8

abbrev Str := List Byte

def ch (c : Char) : Byte := c.toNat.toUInt8

def ascii (s : String) : Str := s.toList.map ch

/-! ## Characters -/

def isUpper (b : Byte) : Bool := 65 ≤ b && b ≤ 90

def isDigit (b : Byte) : Bool := 48 ≤ b && b ≤ 57

def isXDigit (b : Byte) : Bool := isDigit b || (65 ≤ b && b ≤ 70) || (97 ≤ b && b ≤ 102)

def isSpace (b : Byte) : Bool := b == 32 || (9 ≤ b && b ≤ 13)

def toLower (b : Byte) : Byte := if isUpper b then b + 32 else b

def lower (s : Str) : Str := s.map toLower

/-- `strcasecmp(a, b) == 0`. -/
def caseEq (a b : Str) : Bool := lower a == lower b

theorem forall_byte {P : Byte → Prop} (h : ∀ n : Fin 256, P (UInt8.ofNat n)) (b : Byte) : P b := by
  have hb := h ⟨b.toNat, b.toNat_lt⟩
  rwa [UInt8.ofNat_toNat] at hb

/-! ## Numbers -/

/-- The value of an `int` that is assigned `n`. -/
def toInt32 (n : Int) : Int := n.bmod (2 ^ 32)

def digits (acc : Nat) : Str → Nat
  | [] => acc
  | b :: rest => if isDigit b then digits (acc * 10 + (b.toNat - 48)) rest else acc

/-- `strtol` stops at the limits of a `long`. -/
def clampLong (n : Int) : Int := max (-2 ^ 63) (min n (2 ^ 63 - 1))

def atoi (s : Str) : Int :=
  match s.dropWhile isSpace with
  | 45 :: rest => toInt32 (clampLong (-(digits 0 rest : Int)))
  | 43 :: rest => toInt32 (clampLong (digits 0 rest))
  | rest => toInt32 (clampLong (digits 0 rest))

/-- `%d` of a number that is not negative. -/
def decimal (n : Nat) : Str := (Nat.toDigits 10 n).map ch

/-- `%d` and `%lld`. -/
def decimalInt (n : Int) : Str := if n < 0 then ch '-' :: decimal n.natAbs else decimal n.natAbs

theorem digits_append (acc : Nat) (s t : Str) (h : ∀ b ∈ s, isDigit b = true) :
    digits acc (s ++ t) = digits (digits acc s) t := by
  induction s generalizing acc with
  | nil => rfl
  | cons b s ih =>
    have hb : isDigit b = true := h b (by simp)
    simp [digits, hb, ih _ fun a ha => h a (by simp [ha])]

theorem decimal_eq (n : Nat) :
    decimal n = (if n < 10 then [] else decimal (n / 10)) ++ [ch (n % 10).digitChar] := by
  unfold decimal
  rw [Nat.toDigits_eq_if (by omega)]
  split
  · simp [Nat.mod_eq_of_lt (by omega : n < 10)]
  · simp

theorem digit_ch : ∀ d < 10, isDigit (ch d.digitChar) = true ∧ (ch d.digitChar).toNat = 48 + d := by
  decide

theorem isDigit_decimal (n : Nat) : ∀ b ∈ decimal n, isDigit b = true := by
  induction n using Nat.strong_induction_on with
  | _ n ih =>
    intro b hb
    rw [decimal_eq, List.mem_append, List.mem_singleton] at hb
    rcases hb with hb | rfl
    · split at hb
      · cases hb
      · exact ih (n / 10) (by omega) b hb
    · exact (digit_ch (n % 10) (by omega)).1

/-- `strtol` reads what `%d` has written. -/
theorem digits_decimal (n : Nat) : digits 0 (decimal n) = n := by
  induction n using Nat.strong_induction_on with
  | _ n ih =>
    obtain ⟨hdigit, hvalue⟩ := digit_ch (n % 10) (by omega)
    have hfront : digits 0 (if n < 10 then [] else decimal (n / 10)) = n / 10 := by
      split
      · rw [digits]
        omega
      · exact ih (n / 10) (by omega)
    rw [decimal_eq, digits_append, hfront]
    · simp only [digits, hdigit, hvalue, if_true]
      omega
    · intro b hb
      exact isDigit_decimal n b (decimal_eq n ▸ List.mem_append_left _ hb)

theorem decimal_injective : Function.Injective decimal :=
  Function.LeftInverse.injective digits_decimal

/-! ## Search -/

/-- Where `strstr(s, name)` points. -/
def strstr (s name : Str) : Option Nat :=
  (List.range (s.length + 1)).find? fun k => name.isPrefixOf (s.drop k)

/-- The first token that `strtok` gives. -/
def strtok (delims s : Str) : Option Str :=
  match s.dropWhile delims.contains with
  | [] => none
  | b :: rest => some (b :: rest.takeWhile fun b => !delims.contains b)

/-- What stands behind the first `c`. -/
def after (c : Byte) (s : Str) : Option Str :=
  match s.dropWhile (· != c) with
  | [] => none
  | _ :: rest => some rest

/-! ## Copies -/

/-- `strncpy(dst, s, n)` followed by a NUL in the last byte of `dst`. -/
def truncate (n : Nat) (s : Str) : Str := s.take n

/-! ## Memory -/

/-- A stretch of memory. What stands behind it reads as NUL. -/
abbrev Mem := List Byte

def byteAt (m : Mem) (p : Nat) : Byte := m.getD p 0

def strAt (m : Mem) (p : Nat) : Str := (m.drop p).takeWhile (· != 0)

/-- Write the bytes of `s` from `p` on. -/
def write (m : Mem) (p : Nat) (s : List Byte) : Mem :=
  m.take p ++ s ++ m.drop (p + s.length)

end CString
