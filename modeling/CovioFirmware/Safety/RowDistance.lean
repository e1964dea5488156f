import CovioFirmware.Bytes.SparseErrors
import CovioFirmware.Safety.CrcBursts

/-!
# Scattered bit errors in a row

`crc32_` runs over the 36 bytes of a row with the sum field zeroed, so a bit of the first
32 bytes is one of the powers 64 to 319 of its feedback and a bit of the field one of the
powers 0 to 31.  No four of these sum to nothing.  Hence two intact rows that are not the
same differ in five bits at least, and a row damaged in up to four bits, wherever they
are, is not intact any more: `sparse_damage_detected`.
-/

namespace CovioFirmware
namespace Device

open Bytes ShiftRegister

/-- How many bits of the two rows differ. -/
def QRow.distance (r r' : QRow) : ℕ :=
  (List.zipWith xor (bits (QRow.kind.bytes r)) (bits (QRow.kind.bytes r'))).count true

/-! ## The field as a register -/

theorem getD_bits_leBytes (k n i : ℕ) :
    (bits (leBytes k n)).getD i false = (decide (i < 8 * k) && n.testBit i) := by
  induction k generalizing n i with
  | zero => rfl
  | succ k ih =>
    rw [leBytes, bits, List.flatMap_cons, ← bits]
    by_cases h8 : i < 8
    · have hbyte : (UInt8.ofNat n).toBitVec.getLsbD i = n.testBit i := by
        rw [UInt8.toBitVec_ofNat', BitVec.getLsbD_ofNat, decide_eq_true h8, Bool.true_and]
      rw [List.getD_append _ _ _ _ (by simpa using h8), byteBits,
        List.getD_eq_getElem _ _ (by simpa using h8), List.getElem_map, List.getElem_range,
        hbyte, decide_eq_true (by omega), Bool.true_and]
    · have hdiv : (n / 256).testBit (i - 8) = n.testBit i := by
        rw [show (256 : ℕ) = 2 ^ 8 by rfl, Nat.testBit_div_two_pow, Nat.sub_add_cancel (by omega)]
      rw [List.getD_append_right _ _ _ _ (by simpa using h8), length_byteBits, ih, hdiv]
      congr 2
      simp only [eq_iff_iff]
      omega

theorem word_bits_leBytes (c : UInt32) :
    (word (bits (leBytes 4 c.toNat)) : BitVec 32) = c.toBitVec := by
  ext i hi
  rw [← BitVec.getLsbD_eq_getElem hi, ← BitVec.getLsbD_eq_getElem hi, getLsbD_word,
    getD_bits_leBytes, decide_eq_true hi, Bool.true_and, Bool.true_and]
  rfl

/-! ## The difference of two rows -/

theorem exponents_append_false (k m : ℕ) (l : List Bool) :
    exponents k (l ++ List.replicate m false) = exponents (k + m) l := by
  induction l with
  | nil =>
    induction m with
    | zero => rfl
    | succ m ih =>
      exact ih
  | cons b l ih =>
    rw [List.cons_append, exponents, exponents, ih, List.length_append, List.length_replicate,
      show k + (l.length + m) = k + m + l.length by omega]

section

variable (r r' : QRow)

/-- The bits of the first 32 bytes in which the rows differ. -/
def QRow.bodyChanges : List Bool := List.zipWith xor (bits r.body) (bits r'.body)

/-- The bits of the `crc32` field in which they differ. -/
def QRow.fieldChanges : List Bool :=
  List.zipWith xor (bits (leBytes 4 r.crc32.toNat)) (bits (leBytes 4 r'.crc32.toNat))

/-- The powers of the bits in which they differ. -/
def QRow.changedPowers : List ℕ :=
  exponents 64 (r.bodyChanges r') ++ exponents 0 (r.fieldChanges r')

@[simp] theorem QRow.length_bodyChanges : (r.bodyChanges r').length = 256 := by
  simp [QRow.bodyChanges]

@[simp] theorem QRow.length_fieldChanges : (r.fieldChanges r').length = 32 := by
  simp [QRow.fieldChanges]

/-- Each of them counts once. -/
theorem QRow.length_changedPowers : (r.changedPowers r').length = r.distance r' := by
  rw [QRow.changedPowers, QRow.distance, List.length_append, length_exponents, length_exponents,
    ← List.count_append, QRow.bytes_eq, QRow.bytes_eq, bits_append, bits_append,
    List.zipWith_append (by simp)]
  rfl

theorem QRow.changedPowers_lt {n : ℕ} (h : n ∈ r.changedPowers r') : n < 320 := by
  rcases List.mem_append.mp h with h | h
  · have := (lt_of_mem_exponents h).2
    rw [QRow.length_bodyChanges] at this
    omega
  · have := (lt_of_mem_exponents h).2
    rw [QRow.length_fieldChanges] at this
    omega

theorem QRow.pairwise_changedPowers : (r.changedPowers r').Pairwise fun a b => b < a := by
  refine List.pairwise_append.mpr ⟨pairwise_exponents _ _, pairwise_exponents _ _, ?_⟩
  intro a ha b hb
  have h64 := (lt_of_mem_exponents ha).1
  have h32 := (lt_of_mem_exponents hb).2
  rw [QRow.length_fieldChanges] at h32
  omega

variable {r r'}

/-- Two rows that do not differ in a bit are one row. -/
theorem QRow.eq_of_distance (h : r.distance r' = 0) : r = r' := by
  have hnone : ∀ (l l' : List Bool), l.length = l'.length →
      (List.zipWith xor l l').count true = 0 → l = l' := by
    intro l
    induction l with
    | nil => exact fun l' hlen _ => (List.eq_nil_of_length_eq_zero hlen.symm).symm
    | cons b l ih =>
      intro l' hlen hcount
      obtain ⟨b', l', rfl⟩ := List.exists_cons_of_length_eq_add_one hlen.symm
      rw [List.zipWith_cons_cons, List.count_cons, Nat.add_eq_zero_iff] at hcount
      have hb : b = b' := by
        cases b <;> cases b' <;> first | rfl | exact absurd hcount.2 (by decide)
      rw [hb, ih l' (Nat.succ.inj hlen) hcount.1]
  refine QRow.bytes_injective (bits_injective (hnone _ _ ?_ h))
  rw [length_bits, length_bits, QRow.bytes_eq, QRow.bytes_eq]
  simp

/-- **What intact rows differ in sums to nothing**: the sum of the changed bits of the
first 32 bytes is that of the changed bits of the field. -/
theorem QRow.total_changedPowers (hr : r.intact = true) (hr' : r'.intact = true) :
    total crcPoly (r.changedPowers r') = 0#32 := by
  have hsum : ∀ {r : QRow}, r.intact = true →
      run crcPoly (BitVec.allOnes 32) (bits r.body ++ List.replicate 32 false) =
        ~~~ r.crc32.toBitVec := by
    intro r hr
    have hzero : bits (leBytes 4 (0 : UInt32).toNat) = List.replicate 32 false := by decide
    rw [← hzero, ← bits_append, ← QRow.bytes_withCrc, ← crc32_of_intact hr, toBitVec_crc32,
      BitVec.not_not]
  have hbody : total crcPoly (exponents 64 (r.bodyChanges r')) =
      r.crc32.toBitVec ^^^ r'.crc32.toBitVec := by
    have hrun := run_xor_run crcPoly (BitVec.allOnes 32)
      (show (bits r.body ++ List.replicate 32 false).length =
        (bits r'.body ++ List.replicate 32 false).length by simp)
    rw [hsum hr, hsum hr', ← BitVec.not_xor_left, ← BitVec.not_xor_right, BitVec.not_not,
      List.zipWith_append (by simp), List.zipWith_replicate] at hrun
    rw [hrun]
    exact congrArg _ (exponents_append_false 32 32 _).symm
  have hfield : total crcPoly (exponents 0 (r.fieldChanges r')) =
      r.crc32.toBitVec ^^^ r'.crc32.toBitVec := by
    rw [← word_eq_total (by decide) (QRow.length_fieldChanges r r'), QRow.fieldChanges,
      word_xor (by simp), word_bits_leBytes, word_bits_leBytes]
  rw [QRow.changedPowers, total_append, hbody, hfield, BitVec.xor_self]

end

/-- No sum of up to four powers below 320 vanishes. -/
theorem separated_crcPoly : Separated crcPoly 320 := separated_sound (by decide +kernel)

/-- **Up to four damaged bits are detected**, wherever in the 36 bytes of the row they
are, the `crc32` field included. -/
theorem sparse_damage_detected (r r' : QRow) (hr : r.intact = true) (hne : r ≠ r')
    (hfew : r.distance r' ≤ 4) : r'.intact = false := by
  by_contra hr'
  rw [Bool.not_eq_false] at hr'
  have hsome : r.changedPowers r' ≠ [] := fun h =>
    hne (QRow.eq_of_distance (by rw [← QRow.length_changedPowers, h]; rfl))
  have hfive := length_of_separated (by decide) separated_crcPoly
    (QRow.pairwise_changedPowers r r') (fun _ => QRow.changedPowers_lt r r') hsome
    (QRow.total_changedPowers hr hr')
  rw [QRow.length_changedPowers] at hfive
  omega

/-- A bit each of the boot id, the seq and the total, and one of the sum. -/
theorem sparse_damage_detected_four :
    let r := QRow.kind.stamp ⟨0, 1, 1, 5, 6, 7, 8, 0, 60, 0⟩
    let r' := { r with bootId := 4, seq := 0x80000006, totalizer := 0x80000008,
                       crc32 := r.crc32 ^^^ 0x10000 }
    r.distance r' = 4 ∧ r'.intact = false := by
  intro r r'
  have hfour : r.distance r' = 4 := by decide +kernel
  refine ⟨hfour, sparse_damage_detected r r' (QRow.kind.intact_stamp _) (fun h => ?_) hfour.le⟩
  exact absurd (congrArg QRow.seq h) (by decide)

end Device
end CovioFirmware
