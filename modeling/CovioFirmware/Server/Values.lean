import Mathlib.Data.Rat.Defs
import Mathlib.Algebra.Order.Ring.Rat

/-!
# What the server is sent, and what SQLite makes of it

`server.py` takes a parsed JSON body and passes single values of it on to SQLite,
unchecked.  So three worlds of values meet in it.

* `Json` --- what `request.get_json` returns.  Python's integers are unbounded, its
  parser also reads `NaN` and `Infinity`, and its strings are sequences of code points
  in which lone surrogates may stand (`PyStr`).
* `Bound` --- what the `sqlite3` module can bind to a parameter.  Lists, objects,
  integers beyond 64 bits and strings with a lone surrogate raise an exception
  (`Json.bind`); a NaN is bound as NULL.
* `Cell` --- what a column holds, up to SQLite's equality: the numbers of all
  storage classes are one kind, for SQLite compares an INTEGER and a REAL by value.
  A column's affinity decides how a bound value becomes a cell.

How Python renders a value and how SQLite turns text into a number, or a REAL into
text, is left to a parameter (`Rendering`): nothing here depends on it.
-/

namespace CovioFirmware
namespace Server

/-- A Python string: its code points, lone surrogates included. -/
abbrev PyStr := List ℕ

/-- A string literal. -/
def py (s : String) : PyStr := s.toList.map Char.toNat

/-- The string has a UTF-8 form: no lone surrogate stands in it. -/
def PyStr.encodable (s : PyStr) : Bool := s.all fun c => !(decide (0xD800 ≤ c ∧ c ≤ 0xDFFF))

/-- A Python float. -/
inductive PyFloat where
  | finite (q : ℚ) : PyFloat
  | negZero : PyFloat
  | posInf : PyFloat
  | negInf : PyFloat
  | nan : PyFloat
  deriving DecidableEq

/-- A JSON value as Python parses it.  Of an object's equal keys the last one counts,
and the model keeps only that one. -/
inductive Json where
  | null : Json
  | bool (b : Bool) : Json
  | int (n : ℤ) : Json
  | float (x : PyFloat) : Json
  | str (s : PyStr) : Json
  | arr (xs : List Json) : Json
  | obj (fields : List (PyStr × Json)) : Json

/-- A Python `dict` with string keys. -/
abbrev Dict := List (PyStr × Json)

/-- `r[key]`, `none` for a `KeyError`. -/
def Dict.get? (r : Dict) (key : PyStr) : Option Json := List.lookup key r

/-- `r.get(key, default)`. -/
def Dict.getD (r : Dict) (key : PyStr) (default : Json) : Json := (r.get? key).getD default

/-- `r.get(key)`. -/
def Dict.get (r : Dict) (key : PyStr) : Json := r.getD key .null

/-- `v is None`. -/
def Json.isNone : Json → Bool
  | .null => true
  | _ => false

/-- `v == 1`, for the values that can be looked up in a set; `none` for the
`TypeError` of an unhashable one. -/
def Json.isOne : Json → Option Bool
  | .bool b => some b
  | .int n => some (n == 1)
  | .float (.finite q) => some (q == 1)
  | .arr _ => none
  | .obj _ => none
  | _ => some false

/-- A value bound to a parameter of a statement. -/
inductive Bound where
  | null : Bound
  | integer (n : ℤ) : Bound
  /-- A REAL; it is never a NaN. -/
  | real (x : PyFloat) : Bound
  | text (s : PyStr) : Bound
  deriving DecidableEq

/-- Binding a value; `none` for an exception. -/
def Json.bind : Json → Option Bound
  | .null => some .null
  | .bool b => some (.integer b.toNat)
  | .int n => if -(2 ^ 63) ≤ n ∧ n < 2 ^ 63 then some (.integer n) else none
  | .float .nan => some .null
  | .float x => some (.real x)
  | .str s => if s.encodable then some (.text s) else none
  | .arr _ => none
  | .obj _ => none

/-- What a column holds, up to equality in SQLite. -/
inductive Cell where
  | null : Cell
  | negInf : Cell
  | num (q : ℚ) : Cell
  | posInf : Cell
  | text (s : PyStr) : Cell
  deriving DecidableEq

/-- The cell of a REAL. -/
def PyFloat.cell : PyFloat → Cell
  | .finite q => .num q
  | .negZero => .num 0
  | .posInf => .posInf
  | .negInf => .negInf
  | .nan => .null

/-- How values turn into text and back. -/
structure Rendering where
  /-- Python's `%r`. -/
  repr : Json → PyStr
  /-- `json.dumps`. -/
  dumps : Dict → PyStr
  /-- SQLite's reading of a text as a number, `none` if it does not look like one. -/
  numeric : PyStr → Option PyFloat
  /-- SQLite's text of a REAL. -/
  realText : PyFloat → PyStr

/-- A value stored in a column of INTEGER affinity. -/
def Bound.toInteger (ρ : Rendering) : Bound → Cell
  | .null => .null
  | .integer n => .num n
  | .real x => x.cell
  | .text s =>
      match ρ.numeric s with
      | some x => x.cell
      | none => .text s

/-- A value stored in, or compared with, a column of TEXT affinity. -/
def Bound.toText (ρ : Rendering) : Bound → Cell
  | .null => .null
  | .integer n => .text (py (toString n))
  | .real x => .text (ρ.realText x)
  | .text s => .text s

/-- The cell a value becomes in a column of INTEGER affinity; NULL where it cannot even be
bound. -/
def Json.cell (ρ : Rendering) (v : Json) : Cell := (v.bind.map (Bound.toInteger ρ)).getD .null

/-- The same for a column of TEXT affinity. -/
def Json.textCell (ρ : Rendering) (v : Json) : Cell := (v.bind.map (Bound.toText ρ)).getD .null

/-- The order of cells in `ORDER BY`, without the collation among texts, which no
reader of a sorted result here distinguishes. -/
def Cell.le : Cell → Cell → Bool
  | .null, _ => true
  | _, .null => false
  | .negInf, _ => true
  | _, .negInf => false
  | .num p, .num q => p ≤ q
  | .num _, _ => true
  | _, .num _ => false
  | .posInf, _ => true
  | _, .posInf => false
  | .text _, .text _ => true

/-! ## Facts about cells -/

theorem Json.cell_eq {ρ : Rendering} {v : Json} {b : Bound} (h : v.bind = some b) :
    v.cell ρ = b.toInteger ρ := by
  rw [Json.cell, h]
  rfl

theorem Json.textCell_eq {ρ : Rendering} {v : Json} {b : Bound} (h : v.bind = some b) :
    v.textCell ρ = b.toText ρ := by
  rw [Json.textCell, h]
  rfl

theorem Json.cell_int (ρ : Rendering) (n : ℤ) :
    (Json.int n).cell ρ = if -(2 ^ 63) ≤ n ∧ n < 2 ^ 63 then .num n else .null := by
  unfold Json.cell
  simp only [Json.bind]
  split
  · rfl
  · rfl

/-- A value that equals 1 is stored as a number. -/
theorem Json.cell_of_isOne {ρ : Rendering} {v : Json} (h : v.isOne = some true) :
    v.cell ρ = .num 1 := by
  cases v with
  | bool b =>
    obtain rfl : b = true := Option.some.inj h
    rfl
  | int n =>
    obtain rfl : n = 1 := by simpa [Json.isOne] using h
    rfl
  | float x =>
    cases x with
    | finite q =>
      obtain rfl : q = 1 := by simpa [Json.isOne] using h
      rfl
    | _ => exact absurd h (by simp [Json.isOne])
  | _ => exact absurd h (by simp [Json.isOne])

theorem Cell.le_total (a b : Cell) : (a.le b || b.le a) = true := by
  cases a <;> cases b <;> simp [Cell.le, Std.Total.total]

theorem Cell.le_trans {a b c : Cell} (hab : a.le b = true) (hbc : b.le c = true) :
    a.le c = true := by
  cases a <;> cases b <;> cases c <;> simp_all [Cell.le]
  exact hab.trans hbc

end Server
end CovioFirmware
