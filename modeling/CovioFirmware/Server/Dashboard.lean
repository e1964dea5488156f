import CovioFirmware.Server.Database
import Mathlib.Data.List.Dedup

/-!
# The consumption on the dashboard

`dashboard` groups the rows of `records` by device and shows for each device how many
there are, the pulses between the lowest and the highest totalizer, and the litres that
makes.  `MIN` and `MAX` pass over NULLs and compare like `ORDER BY`, texts by their code
points.  A totalizer that is a text cannot be subtracted: the `TypeError` takes the whole
page with it.

Where a REAL takes part, Python rounds; its arithmetic is left to a parameter (`Floats`).
-/

namespace CovioFirmware
namespace Server

/-- Python's `-` and `/` where a float takes part. -/
structure Floats where
  sub : Cell → Cell → Cell
  div : Cell → Cell → Cell

/-- The order of `MIN` and `MAX`. -/
def Cell.atMost : Cell → Cell → Bool
  | .text s, .text t => !t.lex s Nat.blt
  | a, b => a.le b

/-- `x or 0`. -/
def Cell.orZero : Cell → Cell
  | .null => .num 0
  | .text [] => .num 0
  | c => c

/-- The number, where it is stored as an INTEGER. -/
def Cell.integer? : Cell → Option ℤ
  | .num q => if q.den = 1 ∧ -(2 ^ 63) ≤ q.num ∧ q.num < 2 ^ 63 then some q.num else none
  | _ => none

/-- `a - b`; `none` for a `TypeError`. -/
def Cell.sub (F : Floats) : Cell → Cell → Option Cell
  | .text _, _ => none
  | _, .text _ => none
  | a, b =>
      match a.integer?, b.integer? with
      | some m, some n => some (.num (m - n : ℤ))
      | _, _ => some (F.sub a b)

/-- A row of the query. -/
structure SummaryRow where
  deviceId : Cell
  lo : Cell
  hi : Cell
  n : ℕ
  last : Cell

/-- `pulses`. -/
def SummaryRow.pulses (F : Floats) (r : SummaryRow) : Option Cell := r.hi.orZero.sub F r.lo.orZero

section

variable {before : Cell → Cell → Bool} {c : Cell} {cs : List Cell}

theorem Cell.atMost_num (p q : ℚ) : (Cell.num p).atMost (.num q) = decide (p ≤ q) := rfl

end

theorem Cell.integer?_natCast {n : ℕ} (h : n < 2 ^ 63) :
    (Cell.num n).integer? = some (n : ℤ) := by
  have hrange : (n : ℚ).den = 1 ∧ -(2 ^ 63) ≤ (n : ℚ).num ∧ (n : ℚ).num < 2 ^ 63 := by
    rw [Rat.num_natCast]
    exact ⟨Rat.den_natCast n, by omega, by omega⟩
  rw [Cell.integer?, if_pos hrange, Rat.num_natCast]

/-- Two INTEGERs are subtracted exactly. -/
theorem Cell.sub_of_integer {F : Floats} {p q : ℚ} {m n : ℤ} (hm : (Cell.num p).integer? = some m)
    (hn : (Cell.num q).integer? = some n) :
    (Cell.num p).sub F (.num q) = some (.num (m - n : ℤ)) := by
  have hsub : (Cell.num p).sub F (.num q) =
      match (Cell.num p).integer?, (Cell.num q).integer? with
      | some m, some n => some (.num (m - n : ℤ))
      | _, _ => some (F.sub (.num p) (.num q)) := rfl
  rw [hsub, hm, hn]

/-- The difference of two totals. -/
theorem SummaryRow.pulses_eq {F : Floats} {r : SummaryRow} {lo hi : ℕ} (hlo : r.lo = .num lo)
    (hhi : r.hi = .num hi) (h1 : lo < 2 ^ 63) (h2 : hi < 2 ^ 63) :
    r.pulses F = some (.num ((hi : ℤ) - lo : ℤ)) := by
  rw [SummaryRow.pulses, hlo, hhi]
  exact Cell.sub_of_integer (Cell.integer?_natCast h2) (Cell.integer?_natCast h1)

end Server
end CovioFirmware
