import Mathlib.Data.List.Basic
import Mathlib.Tactic.Ring

/-!
# Files of fixed-size rows

An append-only log of fixed-size rows is read in strides: the row at offset `off`
is the next `size` bytes, and a reader that has fallen out of step never gets
back into it.  A `RowCodec` says how one row is written and read; `encAll` is the
file that holds a list of rows, and `rowsIn` lists the rows a strided reader
meets between two offsets.

`rowsIn_encAll` is the fact everything rests on: in a file that holds the rows
`l`, possibly with a torn tail behind them, a reader that starts at row `c` and
stays within the rows meets exactly `l.drop c`.
-/

namespace CovioFirmware
namespace Bytes

/-- Rows of one size, with their reader and writer. -/
structure RowCodec (α : Type) where
  /-- The number of bytes of a row. -/
  size : ℕ
  /-- The bytes of a row. -/
  enc : α → List UInt8
  /-- The row denoted by `size` bytes. -/
  dec : List UInt8 → α
  size_pos : 0 < size
  length_enc : ∀ a, (enc a).length = size
  dec_enc : ∀ a, dec (enc a) = a
  enc_dec : ∀ b, b.length = size → enc (dec b) = b

namespace RowCodec

variable {α : Type} (C : RowCodec α)

/-- The file that holds a list of rows. -/
def encAll (l : List α) : List UInt8 := l.flatMap C.enc

/-- The row at a byte offset, if the file is long enough. -/
def rowAt (b : List UInt8) (off : ℕ) : Option α :=
  if off + C.size ≤ b.length then some (C.dec ((b.drop off).take C.size)) else none

/-- The rows met in strides from `lo`, as long as they end by `hi` and inside the
file. -/
def rowsIn (b : List UInt8) (lo hi : ℕ) : List α :=
  (List.range ((min hi b.length - lo) / C.size)).map fun j =>
    C.dec ((b.drop (lo + C.size * j)).take C.size)

@[simp] theorem encAll_nil : C.encAll [] = [] := rfl

@[simp] theorem encAll_append (l l' : List α) :
    C.encAll (l ++ l') = C.encAll l ++ C.encAll l' := List.flatMap_append

@[simp] theorem encAll_cons (a : α) (l : List α) :
    C.encAll (a :: l) = C.enc a ++ C.encAll l := rfl

@[simp] theorem length_encAll : ∀ l : List α, (C.encAll l).length = C.size * l.length
  | [] => by simp
  | a :: l => by
    rw [encAll_cons, List.length_append, C.length_enc, length_encAll l, List.length_cons]
    ring

/-- The file from row `c` on. -/
theorem drop_encAll : ∀ (l : List α) (c : ℕ) (tail : List UInt8), c ≤ l.length →
    (C.encAll l ++ tail).drop (C.size * c) = C.encAll (l.drop c) ++ tail
  | l, 0, tail, _ => by simp
  | [], c + 1, tail, h => by simp at h
  | a :: l, c + 1, tail, h => by
    have hsplit : C.size * (c + 1) = (C.enc a).length + C.size * c := by
      rw [C.length_enc]; ring
    rw [encAll_cons, List.append_assoc, hsplit, ← List.drop_drop, List.drop_left,
      drop_encAll l c tail (by simpa using h), List.drop_succ_cons]

theorem take_encAll (l : List α) (tail : List UInt8) :
    (C.encAll l ++ tail).take (C.size * l.length) = C.encAll l :=
  List.take_left' (C.length_encAll l)

/-- The row at a stride of a file of rows. -/
theorem rowAt_encAll (l : List α) (tail : List UInt8) (j : ℕ) (h : j < l.length) :
    C.rowAt (C.encAll l ++ tail) (C.size * j) = some l[j] := by
  have hfit : C.size * j + C.size ≤ (C.encAll l ++ tail).length := by
    have hmul : C.size * (j + 1) ≤ C.size * l.length := Nat.mul_le_mul_left _ h
    rw [List.length_append, length_encAll]
    calc C.size * j + C.size = C.size * (j + 1) := by ring
      _ ≤ C.size * l.length := hmul
      _ ≤ _ := Nat.le_add_right _ _
  rw [rowAt, if_pos hfit, C.drop_encAll l j tail h.le, List.drop_eq_getElem_cons h,
    encAll_cons, List.append_assoc, List.take_left' (C.length_enc _), C.dec_enc]

/-! ## Strided reading, step by step -/

theorem rowsIn_of_lt {b : List UInt8} {lo hi : ℕ} (h : min hi b.length < lo + C.size) :
    C.rowsIn b lo hi = [] := by
  have hpos := C.size_pos
  have h0 : (min hi b.length - lo) / C.size = 0 := Nat.div_eq_of_lt (by omega)
  rw [rowsIn, h0, List.range_zero, List.map_nil]

theorem rowsIn_of_le {b : List UInt8} {lo hi : ℕ} (h : lo + C.size ≤ min hi b.length) :
    C.rowsIn b lo hi =
      C.dec ((b.drop lo).take C.size) :: C.rowsIn b (lo + C.size) hi := by
  have hpos := C.size_pos
  have hn : (min hi b.length - lo) / C.size = (min hi b.length - (lo + C.size)) / C.size + 1 := by
    rw [← Nat.add_div_right _ hpos]
    congr 1
    omega
  have hstride : ∀ j, lo + C.size * (j + 1) = lo + C.size + C.size * j := fun j => by ring
  rw [rowsIn, rowsIn, hn, List.range_succ_eq_map, List.map_cons, List.map_map]
  simp [Function.comp_def, hstride]

/-- A row inside the file and the limit is met first. -/
theorem rowsIn_of_rowAt {b : List UInt8} {lo hi : ℕ} {a : α} (h : C.rowAt b lo = some a)
    (hhi : lo + C.size ≤ hi) : C.rowsIn b lo hi = a :: C.rowsIn b (lo + C.size) hi := by
  rw [rowAt] at h
  split at h
  · rw [C.rowsIn_of_le (by omega), Option.some.inj h]
  · cases h

/-- **Reading a file of rows.** -/
theorem rowsIn_encAll (l : List α) (tail : List UInt8) :
    ∀ c, c ≤ l.length →
      C.rowsIn (C.encAll l ++ tail) (C.size * c) (C.size * l.length) = l.drop c := by
  intro c hc
  induction hk : l.length - c generalizing c with
  | zero =>
    have hpos := C.size_pos
    have hcl : c = l.length := by omega
    rw [hcl, C.rowsIn_of_lt (by omega), List.drop_length]
  | succ k ih =>
    have hlt : c < l.length := by omega
    have hstep : C.size * c + C.size = C.size * (c + 1) := by ring
    have hle : C.size * (c + 1) ≤ C.size * l.length := Nat.mul_le_mul_left _ hlt
    rw [C.rowsIn_of_rowAt (C.rowAt_encAll l tail c hlt) (by omega), hstep,
      ih (c + 1) hlt (by omega), ← List.drop_eq_getElem_cons hlt]

/-! ## Reading in pieces -/

theorem length_rowsIn (b : List UInt8) (lo hi : ℕ) :
    (C.rowsIn b lo hi).length = (min hi b.length - lo) / C.size := by
  rw [rowsIn, List.length_map, List.length_range]

/-- The rows of a file, one by one. -/
theorem getElem?_rowsIn (b : List UInt8) (lo j : ℕ) :
    (C.rowsIn b lo b.length)[j]? = C.rowAt b (lo + C.size * j) := by
  have hsucc : C.size * (j + 1) = C.size * j + C.size := by ring
  have hpos := C.size_pos
  have hfit : j < (b.length - lo) / C.size ↔ lo + C.size * j + C.size ≤ b.length := by
    rw [← Nat.succ_le_iff, Nat.le_div_iff_mul_le hpos, Nat.mul_comm, hsucc]
    omega
  rw [rowsIn, min_self, List.getElem?_map, rowAt]
  by_cases h : j < (b.length - lo) / C.size
  · rw [List.getElem?_range h, if_pos (hfit.mp h)]
    rfl
  · rw [List.getElem?_eq_none (by rw [List.length_range]; omega), if_neg (fun h' => h (hfit.mpr h'))]
    rfl

/-- A row in the front part of a file is read there, whatever stands behind that
part. -/
theorem rowAt_take_append {b tail : List UInt8} {off good : ℕ} (hoff : off + C.size ≤ good)
    (hgood : good ≤ b.length) : C.rowAt (b.take good ++ tail) off = C.rowAt b off := by
  have hlen : (b.take good).length = good := List.length_take_of_le hgood
  rw [rowAt, rowAt, if_pos (by rw [List.length_append, hlen]; omega), if_pos (by omega),
    List.drop_append_of_le_length (by omega), List.take_append_of_le_length, List.drop_take,
    List.take_take, Nat.min_eq_left (by omega)]
  rw [List.length_drop, hlen]
  omega

theorem drop_rowsIn (b : List UInt8) (hi : ℕ) : ∀ n lo, lo + C.size * n ≤ min hi b.length →
    (C.rowsIn b lo hi).drop n = C.rowsIn b (lo + C.size * n) hi
  | 0, lo, _ => by simp
  | n + 1, lo, h => by
    have hpos := C.size_pos
    have hstep : lo + C.size * (n + 1) = lo + C.size + C.size * n := by ring
    rw [hstep] at h ⊢
    rw [C.rowsIn_of_le (by omega), List.drop_succ_cons, drop_rowsIn b hi n (lo + C.size) h]

/-- The first rows, read out of a piece of the file. -/
theorem take_rowsIn (b : List UInt8) {lo hi n : ℕ} (h : lo + C.size * n ≤ min hi b.length) :
    (C.rowsIn b lo hi).take n =
      C.rowsIn ((b.drop lo).take (C.size * n)) 0 (C.size * n) := by
  have hlen : ((b.drop lo).take (C.size * n)).length = C.size * n := by
    rw [List.length_take, List.length_drop]
    omega
  have hcount : n ≤ (min hi b.length - lo) / C.size := by
    rw [Nat.le_div_iff_mul_le C.size_pos, Nat.mul_comm]
    omega
  rw [rowsIn, rowsIn, ← List.map_take, List.take_range, Nat.min_eq_left hcount, hlen, min_self,
    Nat.sub_zero, Nat.mul_div_cancel_left _ C.size_pos]
  refine List.map_congr_left fun j hj => ?_
  have hj' : C.size * (j + 1) ≤ C.size * n := Nat.mul_le_mul_left _ (List.mem_range.mp hj)
  have hsucc : C.size * (j + 1) = C.size * j + C.size := by ring
  rw [Nat.zero_add, List.drop_take, List.drop_drop, List.take_take, Nat.min_eq_left (by omega)]

/-- Reading from an offset is reading what is left. -/
theorem rowsIn_eq_drop (b : List UInt8) (lo hi : ℕ) :
    C.rowsIn b lo hi = C.rowsIn (b.drop lo) 0 (hi - lo) := by
  have hcount : min (hi - lo) (b.drop lo).length - 0 = min hi b.length - lo := by
    rw [List.length_drop]
    omega
  rw [rowsIn, rowsIn, hcount]
  refine List.map_congr_left fun j _ => ?_
  rw [List.drop_drop, Nat.zero_add]

/-- A file of rows with something behind them, read to its end. -/
theorem rowsIn_encAll_append (l : List α) (tail : List UInt8) :
    C.rowsIn (C.encAll l ++ tail) 0 (C.encAll l ++ tail).length =
      l ++ C.rowsIn tail 0 tail.length := by
  have hle : 0 + C.size * l.length ≤ min (C.encAll l ++ tail).length (C.encAll l ++ tail).length := by
    rw [min_self, List.length_append, length_encAll]
    omega
  have htake := C.take_rowsIn (C.encAll l ++ tail) hle
  rw [List.drop_zero, take_encAll] at htake
  have hself := C.rowsIn_encAll l [] 0 (Nat.zero_le _)
  rw [Nat.mul_zero, List.append_nil, List.drop_zero] at hself
  have hrest : C.rowsIn (C.encAll l ++ tail) (0 + C.size * l.length) (C.encAll l ++ tail).length =
      C.rowsIn tail 0 tail.length := by
    have hlen : (C.encAll l ++ tail).length - C.size * l.length = tail.length := by
      rw [List.length_append, length_encAll]
      omega
    rw [Nat.zero_add, C.rowsIn_eq_drop, hlen, C.drop_encAll l l.length tail le_rfl,
      List.drop_length, encAll_nil, List.nil_append]
  have hdrop := C.drop_rowsIn (C.encAll l ++ tail) (C.encAll l ++ tail).length l.length 0 hle
  have hsplit := List.take_append_drop l.length
    (C.rowsIn (C.encAll l ++ tail) 0 (C.encAll l ++ tail).length)
  rw [htake, hself, hdrop, hrest] at hsplit
  exact hsplit.symm

/-- What stands behind the limit does not matter. -/
theorem rowsIn_append_left (b tail : List UInt8) (lo : ℕ) {hi : ℕ} (h : hi ≤ b.length) :
    C.rowsIn (b ++ tail) lo hi = C.rowsIn b lo hi := by
  have hcount : min hi (b ++ tail).length = min hi b.length := by
    rw [List.length_append]
    omega
  rw [rowsIn, rowsIn, hcount]
  refine List.map_congr_left fun j hj => ?_
  have hfit : C.size * (j + 1) ≤ min hi b.length - lo :=
    (Nat.mul_le_mul_left _ (List.mem_range.mp hj)).trans (Nat.mul_div_le _ _)
  have hsucc : C.size * (j + 1) = C.size * j + C.size := by ring
  have hpos := C.size_pos
  rw [List.drop_append_of_le_length (by omega), List.take_append_of_le_length]
  rw [List.length_drop]
  omega

/-- A row written behind whole rows is read as the last one. -/
theorem rowsIn_append_row (b : List UInt8) (a : α) (lo : ℕ) (hlo : lo ≤ b.length)
    (hwhole : C.size ∣ b.length - lo) :
    C.rowsIn (b ++ C.enc a) lo (b.length + C.size) = C.rowsIn b lo b.length ++ [a] := by
  obtain ⟨m, hm⟩ := hwhole
  have hlen : (b ++ C.enc a).length = b.length + C.size := by
    rw [List.length_append, C.length_enc]
  induction m generalizing lo with
  | zero =>
    have hend : lo = b.length := by
      rw [Nat.mul_zero] at hm
      omega
    have hpos := C.size_pos
    rw [hend, C.rowsIn_of_le (by rw [hlen, min_self]), C.rowsIn_of_lt (b := b) (by omega),
      C.rowsIn_of_lt (by rw [hlen, min_self]; omega), List.drop_left,
      List.take_of_length_le (C.length_enc a).le, C.dec_enc]
    rfl
  | succ m ih =>
    have hstep : C.size * (m + 1) = C.size * m + C.size := by ring
    rw [C.rowsIn_of_le (by rw [hlen, min_self]; omega), C.rowsIn_of_le (b := b) (by omega),
      List.drop_append_of_le_length hlo, List.take_append_of_le_length, ih _ (by omega) (by omega)]
    · rfl
    · rw [List.length_drop]
      omega

/-- Less than a row, or exactly one. -/
theorem rowsIn_short {b : List UInt8} (h : b.length ≤ C.size) :
    C.rowsIn b 0 b.length = [] ∨ (b.length = C.size ∧ C.rowsIn b 0 b.length = [C.dec b]) := by
  by_cases hlt : b.length < C.size
  · exact .inl (C.rowsIn_of_lt (by omega))
  · have heq : b.length = C.size := by omega
    refine .inr ⟨heq, ?_⟩
    rw [C.rowsIn_of_le (by omega), C.rowsIn_of_lt (by have := C.size_pos; omega), List.drop_zero,
      List.take_of_length_le h]

end RowCodec

end Bytes
end CovioFirmware
