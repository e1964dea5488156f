import Mathlib.Data.List.Basic
import Mathlib.Data.Nat.Digits.Defs

/-!
# Searching text and reading digits

The firmware has no parser: it finds a substring, skips a few characters and
reads a run of digits.  `indexOf` is the substring search of the Arduino `String`
class, and `digitsVal` the accumulation `v = v * 10 + (c - '0')` over a run that
must consist of digits only.
-/

namespace CovioFirmware
namespace Text

/-- The first position at which `pat` occurs (`String::indexOf`; `none` for -1). -/
def indexOf (pat : List Char) : List Char → Option ℕ
  | [] => if pat.isEmpty then some 0 else none
  | c :: s =>
      if pat.isPrefixOf (c :: s) then some 0 else (indexOf pat s).map (· + 1)

/-- The value of a run of ASCII digits; `none` if a character is no digit. -/
def digitsVal (s : List Char) : Option ℕ :=
  if s.all Char.isDigit then some (Nat.ofDigitChars 10 s 0) else none

theorem indexOf_of_prefix {pat s : List Char} (h : pat <+: s) : indexOf pat s = some 0 := by
  cases s with
  | nil =>
    rw [List.prefix_nil.mp h]
    rfl
  | cons c s =>
    rw [indexOf, if_pos (List.isPrefixOf_iff_prefix.mpr h)]

/-- A decimal numeral, possibly with zeros in front, is read as its number. -/
theorem digitsVal_toDigits (n k : ℕ) :
    digitsVal (List.replicate k '0' ++ Nat.toDigits 10 n) = some n := by
  have hall : (List.replicate k '0' ++ Nat.toDigits 10 n).all Char.isDigit = true := by
    rw [List.all_eq_true]
    intro c hc
    rcases List.mem_append.mp hc with h | h
    · rw [List.eq_of_mem_replicate h]
      rfl
    · exact Nat.isDigit_of_mem_toDigits (by omega) (by omega) h
  rw [digitsVal, if_pos hall, Nat.ofDigitChars_append, Nat.ofDigitChars_replicate_zero,
    Nat.mul_zero, Nat.ofDigitChars_ten_toDigits]

/-! ## Looking up a field -/

/-- The text as the C functions behind `String::indexOf` see it: up to the first
NUL. -/
def cString (s : List Char) : List Char := s.takeWhile (· ≠ '\x00')

/-- `"\"" + String(key) + "\""`. -/
def quoted (key : List Char) : List Char := '"' :: key ++ ['"']

/-- The text behind the first `c`, `none` if there is none. -/
def after (c : Char) (s : List Char) : Option (List Char) :=
  match s.dropWhile (· ≠ c) with
  | [] => none
  | _ :: rest => some rest

/-- The text behind the colon that follows the first occurrence of the quoted
key. -/
def fieldText (key : List Char) (body : List Char) : Option (List Char) :=
  (indexOf (quoted key) (cString body)).bind fun i => after ':' ((cString body).drop i)

/-- The run of digits a numeric field starts with, behind blanks and quotes. -/
def digitRun (s : List Char) : List Char :=
  (s.dropWhile fun c => c = ' ' ∨ c = '"').takeWhile Char.isDigit

end Text
end CovioFirmware
