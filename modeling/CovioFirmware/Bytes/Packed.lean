import Mathlib.Algebra.BigOperators.Group.List.Basic
import Mathlib.Data.List.Basic
import Mathlib.Data.Nat.ModEq

/-!
# Packed little-endian records

A packed C structure is its fields one after another, each in its own number of
bytes, least significant byte first.  `leBytes` and `leNat` write and read one
field, `pack` and `unpack` a whole layout.

The two facts used later are `unpack_pack` --- reading back what was written
gives every value modulo the range of its field --- and `pack_unpack`, which
says that a structure read out of memory is written back byte for byte.
-/

namespace CovioFirmware
namespace Bytes

/-- The `k` low bytes of `n`, least significant first. -/
def leBytes : ℕ → ℕ → List UInt8
  | 0, _ => []
  | k + 1, n => UInt8.ofNat n :: leBytes k (n / 256)

/-- The number a little-endian byte string denotes. -/
def leNat : List UInt8 → ℕ
  | [] => 0
  | b :: bs => b.toNat + 256 * leNat bs

@[simp] theorem length_leBytes : ∀ k n, (leBytes k n).length = k
  | 0, _ => rfl
  | k + 1, n => by rw [leBytes, List.length_cons, length_leBytes]

theorem leNat_leBytes : ∀ k n, leNat (leBytes k n) = n % 256 ^ k
  | 0, n => by rw [leBytes, leNat, pow_zero, Nat.mod_one]
  | k + 1, n => by
    have hb : (UInt8.ofNat n).toNat = n % 256 := by simp
    rw [leBytes, leNat, leNat_leBytes k, hb, pow_succ', Nat.mod_mul]

theorem leNat_lt : ∀ bs, leNat bs < 256 ^ bs.length
  | [] => by simp [leNat]
  | b :: bs => by
    have hb := b.toNat_lt
    have ih := leNat_lt bs
    rw [leNat, List.length_cons, pow_succ']
    omega

theorem leBytes_leNat : ∀ bs, leBytes bs.length (leNat bs) = bs
  | [] => rfl
  | b :: bs => by
    have hb := b.toNat_lt
    have hdiv : (b.toNat + 256 * leNat bs) / 256 = leNat bs := by omega
    have hhead : UInt8.ofNat (b.toNat + 256 * leNat bs) = b := by
      apply UInt8.toNat_inj.mp
      rw [UInt8.toNat_ofNat']
      omega
    rw [List.length_cons, leNat, leBytes, hdiv, leBytes_leNat bs, hhead]

/-! ## Layouts -/

/-- The bytes of a packed record, given the width and the value of each field. -/
def pack : List (ℕ × ℕ) → List UInt8
  | [] => []
  | (w, v) :: fs => leBytes w v ++ pack fs

/-- The field values of a packed record with the given widths. -/
def unpack : List ℕ → List UInt8 → List ℕ
  | [], _ => []
  | w :: ws, b => leNat (b.take w) :: unpack ws (b.drop w)

@[simp] theorem length_pack : ∀ fs, (pack fs).length = (fs.map Prod.fst).sum
  | [] => rfl
  | (w, v) :: fs => by
    rw [pack, List.length_append, length_leBytes, length_pack fs, List.map_cons, List.sum_cons]

@[simp] theorem length_unpack : ∀ ws b, (unpack ws b).length = ws.length
  | [], _ => rfl
  | w :: ws, b => by rw [unpack, List.length_cons, length_unpack ws, List.length_cons]

/-- Every field read is in the range of its width. -/
theorem unpack_lt : ∀ ws b, List.Forall₂ (fun w v => v < 256 ^ w) ws (unpack ws b)
  | [], _ => .nil
  | w :: ws, b => by
    refine .cons ?_ (unpack_lt ws (b.drop w))
    calc leNat (b.take w) < 256 ^ (b.take w).length := leNat_lt _
      _ ≤ 256 ^ w := Nat.pow_le_pow_right (by omega) (by rw [List.length_take]; omega)

/-- Reading back a packed record, with anything behind it. -/
theorem unpack_pack : ∀ fs rest,
    unpack (fs.map Prod.fst) (pack fs ++ rest) = fs.map fun f => f.2 % 256 ^ f.1
  | [], _ => rfl
  | (w, v) :: fs, rest => by
    have htake : (leBytes w v ++ (pack fs ++ rest)).take w = leBytes w v :=
      List.take_left' (length_leBytes w v)
    have hdrop : (leBytes w v ++ (pack fs ++ rest)).drop w = pack fs ++ rest :=
      List.drop_left' (length_leBytes w v)
    rw [pack, List.map_cons, unpack, List.append_assoc, htake, hdrop, leNat_leBytes,
      unpack_pack fs rest, List.map_cons]

/-- Writing a record that was read out of memory gives the memory back. -/
theorem pack_unpack : ∀ (ws : List ℕ) (b : List UInt8), b.length = ws.sum → pack (ws.zip (unpack ws b)) = b
  | [], b, h => by
    rw [List.sum_nil] at h
    rw [List.eq_nil_of_length_eq_zero h]
    rfl
  | w :: ws, b, h => by
    rw [List.sum_cons] at h
    have hlen : (b.take w).length = w := by rw [List.length_take]; omega
    have hrest : (b.drop w).length = ws.sum := by rw [List.length_drop]; omega
    have hbytes : leBytes w (leNat (b.take w)) = b.take w := by
      have h' := leBytes_leNat (b.take w)
      rwa [hlen] at h'
    rw [unpack, List.zip_cons_cons, pack, hbytes, pack_unpack ws (b.drop w) hrest,
      List.take_append_drop]

end Bytes
end CovioFirmware
