import CovioFirmware.Bytes.Text
import Mathlib.Data.UInt

/-!
# `timestamp_parse.h` and `checked_field_parse.h`

Decimal numbers accumulated with a test against overflow before every step.  The
first parser fills a non-negative `int64_t`, the second narrows it to `uint32_t`;
both refuse an empty range, a character that is no digit, and a value that does not
fit.

The parsers stand here twice.  The callers use the ones on the text of a range, which
compute with numbers of any size.  `Raw` is the source line by line, on bytes, positions
and an out parameter, where a product or sum that `int64_t` cannot hold makes the result
undefined.
-/

namespace CovioFirmware
namespace Text

/-- `c - '0'`. -/
def digit (c : Char) : ℕ := c.toNat - '0'.toNat

/-- The loop of `parseNonNegativeInt64Checked`. -/
def accumulateChecked : ℕ → List Char → Option ℕ
  | v, [] => some v
  | v, c :: s =>
      if c.isDigit then
        if (2 ^ 63 - 1 - digit c) / 10 < v then none else accumulateChecked (v * 10 + digit c) s
      else none

/-- `parseNonNegativeInt64Checked`. -/
def parseNonNegativeInt64Checked (s : List Char) : Option ℕ :=
  if s.isEmpty then none else accumulateChecked 0 s

/-- `parseUint32Checked`. -/
def parseUint32Checked (s : List Char) : Option UInt32 :=
  (parseNonNegativeInt64Checked s).bind fun v => if 2 ^ 32 - 1 < v then none else some (.ofNat v)

/-! ## What they return -/

theorem digit_lt_ten {c : Char} (h : c.isDigit = true) : digit c < 10 := by
  have hc : c.toNat ≤ 57 := (Char.isDigit_iff_toNat.mp h).2
  show c.toNat - 48 < 10
  omega

/-- The accumulator never goes down. -/
theorem le_ofDigitChars (s : List Char) (v : ℕ) : v ≤ Nat.ofDigitChars 10 s v := by
  rw [Nat.ofDigitChars_eq_ofDigitChars_zero]
  have hpos : 0 < 10 ^ s.length := Nat.pow_pos (by omega)
  calc v ≤ 10 ^ s.length * v := Nat.le_mul_of_pos_left v hpos
    _ ≤ _ := Nat.le_add_right _ _

/-- The test before a step refuses exactly the sums beyond the limit. -/
theorem limit_lt_iff {v d : ℕ} (hd : d < 10) :
    (2 ^ 63 - 1 - d) / 10 < v ↔ 2 ^ 63 - 1 < v * 10 + d := by
  rw [Nat.div_lt_iff_lt_mul (by omega)]
  omega

/-- Once a sum is beyond the limit, so is the number. -/
theorem accumulateChecked_eq (s : List Char) : ∀ v, v ≤ 2 ^ 63 - 1 → accumulateChecked v s =
    if s.all Char.isDigit ∧ Nat.ofDigitChars 10 s v ≤ 2 ^ 63 - 1 then
      some (Nat.ofDigitChars 10 s v) else none := by
  induction s with
  | nil =>
    intro v hv
    rw [accumulateChecked, Nat.ofDigitChars_nil, if_pos ⟨rfl, hv⟩]
  | cons c s ih =>
    intro v hv
    rw [accumulateChecked, Nat.ofDigitChars_cons, List.all_cons]
    by_cases hc : c.isDigit = true
    · have hsum : 10 * v + (c.toNat - '0'.toNat) = v * 10 + digit c := by
        rw [digit, Nat.mul_comm]
      rw [if_pos hc, hc, Bool.true_and, hsum]
      by_cases hover : 2 ^ 63 - 1 < v * 10 + digit c
      · rw [if_pos ((limit_lt_iff (digit_lt_ten hc)).mpr hover), if_neg fun h => ?_]
        exact absurd (h.2.trans' (le_ofDigitChars s _)) (Nat.not_le.mpr hover)
      · rw [if_neg fun h => hover ((limit_lt_iff (digit_lt_ten hc)).mp h)]
        exact ih _ (Nat.not_lt.mp hover)
    · rw [if_neg hc, if_neg fun h => ?_]
      exact hc (Bool.and_eq_true_iff.mp h.1).1

theorem parseNonNegativeInt64Checked_eq (s : List Char) : parseNonNegativeInt64Checked s =
    if s ≠ [] ∧ s.all Char.isDigit ∧ Nat.ofDigitChars 10 s 0 ≤ 2 ^ 63 - 1 then
      some (Nat.ofDigitChars 10 s 0) else none := by
  unfold parseNonNegativeInt64Checked
  cases s with
  | nil => rfl
  | cons c s =>
    rw [List.isEmpty_cons, if_neg Bool.false_ne_true, accumulateChecked_eq _ _ (by omega)]
    simp only [ne_eq, reduceCtorEq, not_false_eq_true, true_and]

theorem parseUint32Checked_eq (s : List Char) : parseUint32Checked s =
    if s ≠ [] ∧ s.all Char.isDigit ∧ Nat.ofDigitChars 10 s 0 ≤ 2 ^ 32 - 1 then
      some (.ofNat (Nat.ofDigitChars 10 s 0)) else none := by
  rw [parseUint32Checked, parseNonNegativeInt64Checked_eq]
  by_cases h : s ≠ [] ∧ s.all Char.isDigit ∧ Nat.ofDigitChars 10 s 0 ≤ 2 ^ 63 - 1
  · rw [if_pos h, Option.bind_some]
    by_cases hfit : Nat.ofDigitChars 10 s 0 ≤ 2 ^ 32 - 1
    · rw [if_neg (Nat.not_lt.mpr hfit), if_pos ⟨h.1, h.2.1, hfit⟩]
    · rw [if_pos (Nat.not_le.mp hfit), if_neg fun h' => hfit h'.2.2]
  · rw [if_neg h, Option.bind_none, if_neg fun h' => h ⟨h'.1, h'.2.1, by omega⟩]

/-! ## Line by line -/

namespace Raw

/-- The result of an `int64_t` operation; `none` where the type cannot hold it. -/
def int64 (x : ℤ) : Option ℤ := if -2 ^ 63 ≤ x ∧ x < 2 ^ 63 then some x else none

/-- The loop of `parseNonNegativeInt64Checked` over `n` characters from position `i` on.
The inner result is `none` where it returns `false`; the outer one where it is
undefined. -/
def accumulate (s : List UInt8) : ℕ → ℕ → ℤ → Option (Option ℤ)
  | 0, _, v => some (some v)
  | n + 1, i, v => do
      let c ← s[i]?
      if c < 0x30 ∨ 0x39 < c then return none
      else
        let digit : ℤ := c.toNat - 0x30
        let room ← int64 (2 ^ 63 - 1 - digit)
        if room.tdiv 10 < v then return none
        else
          let product ← int64 (v * 10)
          let sum ← int64 (product + digit)
          accumulate s n (i + 1) sum

/-- `parseNonNegativeInt64Checked`: what it returns, and what is in `*out` then. -/
def parseNonNegativeInt64Checked (s : Option (List UInt8)) (start stop : ℕ) (out : ℤ) :
    Option (Bool × ℤ) :=
  match s with
  | none => some (false, out)
  | some s =>
      if stop ≤ start then some (false, out)
      else do
        match ← accumulate s (stop - start) start 0 with
        | none => return (false, out)
        | some v => return (true, v)

/-- `parseUint32Checked`. -/
def parseUint32Checked (s : Option (List UInt8)) (start stop : ℕ) (out : UInt32) :
    Option (Bool × UInt32) := do
  let (ok, v) ← parseNonNegativeInt64Checked s start stop 0
  if ¬ ok then return (false, out)
  else if 2 ^ 32 - 1 < v then return (false, out)
  else return (true, .ofNat v.toNat)

end Raw

/-! ## Nothing is undefined -/

/-- The characters of a byte string. -/
def ofBytes (s : List UInt8) : List Char := s.map fun c => Char.ofNat c.toNat

theorem toNat_ofNat_byte (c : UInt8) : (Char.ofNat c.toNat).toNat = c.toNat := by
  have hvalid : c.toNat.isValidChar := .inl (c.toNat_lt.trans (by decide))
  unfold Char.ofNat
  rw [dif_pos hvalid]
  rfl

theorem isDigit_byte (c : UInt8) :
    (Char.ofNat c.toNat).isDigit = true ↔ ¬ (c < 0x30 ∨ 0x39 < c) := by
  rw [Char.isDigit_iff_toNat, toNat_ofNat_byte, not_or, UInt8.not_lt, UInt8.not_lt,
    UInt8.le_iff_toNat_le, UInt8.le_iff_toNat_le]
  rfl

namespace Raw

theorem int64_of_le {x : ℤ} (h0 : 0 ≤ x) (h : x ≤ 2 ^ 63 - 1) : int64 x = some x :=
  if_pos ⟨by omega, by omega⟩

/-- **The loop as written computes the number of the range**: it is never undefined. -/
theorem accumulate_eq (s : List UInt8) : ∀ n i (v : ℕ), i + n ≤ s.length → v ≤ 2 ^ 63 - 1 →
    accumulate s n i v =
      some ((accumulateChecked v (ofBytes ((s.drop i).take n))).map fun m => (m : ℤ)) := by
  intro n
  induction n with
  | zero => exact fun i v _ _ => rfl
  | succ n ih =>
    intro i v hi hv
    have hlt : i < s.length := by omega
    have hrun : ofBytes ((s.drop i).take (n + 1)) =
        Char.ofNat s[i].toNat :: ofBytes ((s.drop (i + 1)).take n) := by
      rw [List.drop_eq_getElem_cons hlt]
      rfl
    rw [accumulate, List.getElem?_eq_getElem hlt, hrun, accumulateChecked]
    simp only [Option.bind_eq_bind, Option.bind_some]
    by_cases hc : s[i] < 0x30 ∨ 0x39 < s[i]
    · rw [if_pos hc, if_neg fun h => (isDigit_byte _).mp h hc]
      rfl
    · have hdigit := (isDigit_byte _).mpr hc
      have hten := digit_lt_ten hdigit
      have hd : ((s[i].toNat : ℤ) - 0x30) = (digit (Char.ofNat s[i].toNat) : ℕ) := by
        have hge := (Char.isDigit_iff_toNat.mp hdigit).1
        rw [digit, toNat_ofNat_byte]
        rw [toNat_ofNat_byte] at hge
        exact (Int.ofNat_sub hge).symm
      rw [if_neg hc, if_pos hdigit, hd]
      generalize digit (Char.ofNat s[i].toNat) = d at hten
      have hroom : ((2 ^ 63 - 1 - (d : ℤ)).tdiv 10 < (v : ℤ)) ↔ (2 ^ 63 - 1 - d) / 10 < v := by
        have hcast : (2 ^ 63 - 1 - (d : ℤ)) = ((2 ^ 63 - 1 - d : ℕ) : ℤ) := by omega
        rw [hcast, Int.tdiv_eq_ediv_of_nonneg (by omega)]
        omega
      rw [int64_of_le (by omega) (by omega), Option.bind_some]
      by_cases hover : (2 ^ 63 - 1 - d) / 10 < v
      · rw [if_pos (hroom.mpr hover), if_pos hover]
        rfl
      · have hsum : v * 10 + d ≤ 2 ^ 63 - 1 :=
          Nat.not_lt.mp fun h => hover ((limit_lt_iff hten).mpr h)
        rw [if_neg fun h => hover (hroom.mp h), if_neg hover,
          int64_of_le (by omega) (by omega), Option.bind_some, int64_of_le (by omega) (by omega),
          Option.bind_some]
        exact_mod_cast ih (i + 1) (v * 10 + d) (by omega) hsum

/-- The characters of `s[start..stop)`. -/
def range (s : List UInt8) (start stop : ℕ) : List Char :=
  ofBytes ((s.drop start).take (stop - start))

theorem range_eq_nil_iff {s : List UInt8} {start stop : ℕ} (h : stop ≤ s.length) :
    range s start stop = [] ↔ stop ≤ start := by
  unfold range ofBytes
  rw [List.map_eq_nil_iff, ← List.length_eq_zero_iff, List.length_take, List.length_drop]
  omega

/-- The parser of the text, on the text of the range. -/
theorem parseNonNegativeInt64Checked_eq {s : List UInt8} {start stop : ℕ} (h : stop ≤ s.length)
    (out : ℤ) : parseNonNegativeInt64Checked (some s) start stop out =
      some ((Text.parseNonNegativeInt64Checked (range s start stop)).elim (false, out)
        fun v => (true, (v : ℤ))) := by
  show (if stop ≤ start then _ else _) = _
  unfold Text.parseNonNegativeInt64Checked
  by_cases hempty : stop ≤ start
  · rw [if_pos hempty, (range_eq_nil_iff h).mpr hempty]
    rfl
  · have hrun := accumulate_eq s (stop - start) start 0 (by omega) (by omega)
    have hne : ¬ (range s start stop).isEmpty = true := fun hnil =>
      hempty ((range_eq_nil_iff h).mp (List.isEmpty_iff.mp hnil))
    rw [if_neg hempty, if_neg hne]
    show (accumulate s (stop - start) start ((0 : ℕ) : ℤ)).bind _ = _
    rw [hrun, Option.bind_some]
    unfold range
    cases accumulateChecked 0 (ofBytes ((s.drop start).take (stop - start))) <;> rfl

theorem parseUint32Checked_eq {s : List UInt8} {start stop : ℕ} (h : stop ≤ s.length)
    (out : UInt32) : parseUint32Checked (some s) start stop out =
      some ((Text.parseUint32Checked (range s start stop)).elim (false, out)
        fun v => (true, v)) := by
  unfold parseUint32Checked Text.parseUint32Checked
  rw [parseNonNegativeInt64Checked_eq h]
  cases hparse : Text.parseNonNegativeInt64Checked (range s start stop) with
  | none => rfl
  | some v =>
    show (if 2 ^ 32 - 1 < (v : ℤ) then some (false, out) else some (true, .ofNat v)) = _
    rw [Option.bind_some]
    by_cases hfit : 2 ^ 32 - 1 < v
    · rw [if_pos (by omega), if_pos hfit]
      rfl
    · rw [if_neg (by omega), if_neg hfit]
      rfl

end Raw

end Text
end CovioFirmware
