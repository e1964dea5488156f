import CovioFirmware.Bytes.ShiftRegister
import CovioFirmware.Device.Records

/-!
# Bursts in a row

`crc32_` is a shift register of 32 bits that is fed the row bit by bit, bytes in order
and the least significant bit of each first.  So a change of a row that stays inside 32
consecutive bits in front of its `crc32` field changes the sum, and one that stays
inside the field changes what the sum is compared with: `burst_detected`.
-/

namespace CovioFirmware
namespace Device

open Bytes ShiftRegister

/-- The feedback of `crc32_`. -/
def crcPoly : BitVec 32 := 0xEDB88320

/-- The bits of a byte, the least significant first. -/
def byteBits (d : UInt8) : List Bool := (List.range 8).map d.toBitVec.getLsbD

/-- The bits of a byte string, bytes in order. -/
def bits (d : List UInt8) : List Bool := d.flatMap byteBits

@[simp] theorem length_byteBits (d : UInt8) : (byteBits d).length = 8 := by
  rw [byteBits, List.length_map, List.length_range]

@[simp] theorem length_bits (d : List UInt8) : (bits d).length = 8 * d.length := by
  induction d with
  | nil => rfl
  | cons b d ih =>
    rw [bits, List.flatMap_cons, List.length_append, length_byteBits, List.length_cons]
    rw [bits] at ih
    omega

theorem byteBits_injective : Function.Injective byteBits := by
  intro a b h
  apply UInt8.toBitVec_inj.mp
  ext i hi
  rw [← BitVec.getLsbD_eq_getElem hi, ← BitVec.getLsbD_eq_getElem hi]
  exact List.map_inj_left.mp h i (List.mem_range.mpr hi)

theorem bits_injective : Function.Injective bits := by
  intro a
  induction a with
  | nil =>
    intro b h
    have hlen : 8 * b.length = 0 := by rw [← length_bits, ← h]; rfl
    exact (List.eq_nil_of_length_eq_zero (by omega)).symm
  | cons x a ih =>
    intro b h
    cases b with
    | nil =>
      have hlen : 8 * (x :: a).length = 0 := by rw [← length_bits, h]; rfl
      exact absurd hlen (by simp)
    | cons y b =>
      obtain ⟨hxy, hab⟩ := List.append_inj h (by rw [length_byteBits, length_byteBits])
      rw [byteBits_injective hxy, ih hab]

theorem bits_append (a b : List UInt8) : bits (a ++ b) = bits a ++ bits b :=
  List.flatMap_append

/-! ## The sum as a shift register -/

theorem toBitVec_crcBit (c : UInt32) : (crcBit c).toBitVec = shift crcPoly c.toBitVec := by
  have hlow : (c &&& 1).toBitVec = (BitVec.ofBool (c.toBitVec.getLsbD 0)).setWidth 32 :=
    BitVec.and_one_eq_setWidth_ofBool_getLsbD
  unfold crcBit shift
  rw [UInt32.toBitVec_xor, UInt32.toBitVec_and, UInt32.toBitVec_sub, hlow]
  cases c.toBitVec.getLsbD 0 <;> rfl

theorem word_byteBits (d : UInt8) : (word (byteBits d) : BitVec 32) = d.toUInt32.toBitVec := by
  ext i hi
  rw [← BitVec.getLsbD_eq_getElem hi, ← BitVec.getLsbD_eq_getElem hi, getLsbD_word,
    UInt8.toBitVec_toUInt32, BitVec.getLsbD_setWidth, byteBits]
  by_cases h8 : i < 8
  · rw [List.getD_eq_getElem _ _ (by simpa using h8), List.getElem_map, List.getElem_range]
  · rw [List.getD_eq_default _ _ (by simpa using h8), BitVec.getLsbD_of_ge _ _ (by omega)]

/-- A byte is eight message bits. -/
theorem toBitVec_crcByte (c : UInt32) (d : UInt8) :
    (crcByte c d).toBitVec = run crcPoly c.toBitVec (byteBits d) := by
  have hbits : ∀ (n : ℕ) (x : UInt32), ((List.range n).foldl (fun c _ => crcBit c) x).toBitVec =
      (shift crcPoly)^[n] x.toBitVec := by
    intro n x
    induction n with
    | zero => rfl
    | succ n ih =>
      rw [List.range_succ, List.foldl_append, Function.iterate_succ_apply', ← ih]
      exact toBitVec_crcBit _
  rw [run_eq_iterate _ (by simp), length_byteBits, word_byteBits, ← UInt32.toBitVec_xor]
  exact hbits 8 (c ^^^ d.toUInt32)

theorem toBitVec_crc32 (d : List UInt8) :
    (crc32 d).toBitVec = ~~~ run crcPoly (BitVec.allOnes 32) (bits d) := by
  have hfold : ∀ (d : List UInt8) (c : UInt32),
      (d.foldl crcByte c).toBitVec = run crcPoly c.toBitVec (bits d) := by
    intro d
    induction d with
    | nil => exact fun c => rfl
    | cons b d ih =>
      intro c
      rw [List.foldl_cons, ih, toBitVec_crcByte, ← run_append]
      rfl
  unfold crc32
  rw [UInt32.toBitVec_not, hfold]
  rfl

/-- **The sum notices bursts**: two byte strings of one length that differ, and only
inside 32 consecutive bits, have different sums. -/
theorem crc32_ne {d d' : List UInt8} (hlen : d.length = d'.length) (hne : d ≠ d') {k : ℕ}
    (hburst : ∀ i, (bits d)[i]? ≠ (bits d')[i]? → k ≤ i ∧ i < k + 32) : crc32 d ≠ crc32 d' := by
  intro h
  have hsum := congrArg UInt32.toBitVec h
  rw [toBitVec_crc32, toBitVec_crc32, BitVec.not_inj] at hsum
  exact run_ne (by decide) _ (by rw [length_bits, length_bits, hlen])
    (fun h => hne (bits_injective h)) hburst hsum

/-! ## The row -/

/-- What is in front of the `crc32` field. -/
def QRow.body (r : QRow) : List UInt8 :=
  pack [(4, r.magic.toNat), (2, r.schemaVersion.toNat), (2, r.recordType.toNat),
    (4, r.bootId.toNat), (4, r.seq.toNat), (4, r.ts.toNat), (8, r.totalizer.toNat),
    (2, r.quality.toNat), (2, r.rssiAbs.toNat)]

@[simp] theorem QRow.length_body (r : QRow) : r.body.length = 32 := by
  rw [QRow.body, length_pack]
  rfl

theorem QRow.bytes_withCrc (r : QRow) (c : UInt32) :
    QRow.kind.bytes (QRow.kind.withCrc r c) = r.body ++ leBytes 4 c.toNat := by
  show pack [(4, _), (2, _), (2, _), (4, _), (4, _), (4, _), (8, _), (2, _), (2, _), (4, _)] = _
  unfold QRow.body
  simp only [pack, List.append_assoc, List.append_nil]
  rfl

theorem QRow.bytes_eq (r : QRow) : QRow.kind.bytes r = r.body ++ leBytes 4 r.crc32.toNat :=
  QRow.bytes_withCrc r r.crc32

theorem QRow.bytes_injective : Function.Injective QRow.kind.bytes :=
  Function.LeftInverse.injective QRow.kind.ofBytes_bytes

/-- The two rows differ at most in the bits from `a` to `b`. -/
def ChangedWithin (r r' : QRow) (a b : ℕ) : Prop :=
  ∀ i, (bits (QRow.kind.bytes r))[i]? ≠ (bits (QRow.kind.bytes r'))[i]? → a ≤ i ∧ i < b

section

variable {r r' : QRow}

/-- A change in front of the `crc32` field leaves the field as it was. -/
theorem ChangedWithin.crc32_eq (h : ChangedWithin r r' 0 256) : r'.crc32 = r.crc32 := by
  have hback : bits (leBytes 4 r.crc32.toNat) = bits (leBytes 4 r'.crc32.toNat) := by
    refine List.ext_getElem? fun i => ?_
    have hbit := not_imp_comm.mp (h (256 + i)) fun hi => by omega
    rwa [QRow.bytes_eq, QRow.bytes_eq, bits_append, bits_append,
      List.getElem?_append_right (by simp), List.getElem?_append_right (by simp), length_bits,
      length_bits, QRow.length_body, QRow.length_body, Nat.add_sub_cancel_left] at hbit
  have hnat := congrArg leNat (bits_injective hback)
  rw [leNat_leBytes, leNat_leBytes, Nat.mod_eq_of_lt (u32_lt _), Nat.mod_eq_of_lt (u32_lt _)]
    at hnat
  exact (UInt32.toNat_inj.mp hnat).symm

/-- The bits in front of the field, whatever is in it. -/
theorem getElem?_bits_withCrc (r : QRow) (c : UInt32) {i : ℕ} (hi : i < 256) :
    (bits (QRow.kind.bytes (QRow.kind.withCrc r c)))[i]? = (bits r.body)[i]? := by
  rw [QRow.bytes_withCrc, bits_append, List.getElem?_append_left (by simpa using hi)]

/-- A change of the field leaves what is in front of it. -/
theorem ChangedWithin.body_eq (h : ChangedWithin r r' 256 288) : r'.body = r.body := by
  refine bits_injective (List.ext_getElem? fun i => ?_)
  by_cases hi : i < 256
  · have hbit := not_imp_comm.mp (h i) fun hi' => by omega
    rw [← getElem?_bits_withCrc r' r'.crc32 hi, ← getElem?_bits_withCrc r r.crc32 hi]
    exact hbit.symm
  · rw [List.getElem?_eq_none (by simpa using hi), List.getElem?_eq_none (by simpa using hi)]

/-- With the field zeroed the same bits differ. -/
theorem ChangedWithin.zeroed {k : ℕ} (h : ChangedWithin r r' k (k + 32)) (i : ℕ)
    (hi : (bits (QRow.kind.bytes (QRow.kind.withCrc r 0)))[i]? ≠
      (bits (QRow.kind.bytes (QRow.kind.withCrc r' 0)))[i]?) : k ≤ i ∧ i < k + 32 := by
  by_cases h256 : i < 256
  · rw [getElem?_bits_withCrc r 0 h256, getElem?_bits_withCrc r' 0 h256,
      ← getElem?_bits_withCrc r r.crc32 h256, ← getElem?_bits_withCrc r' r'.crc32 h256] at hi
    exact h i hi
  · refine absurd ?_ hi
    rw [QRow.bytes_withCrc, QRow.bytes_withCrc, bits_append, bits_append,
      List.getElem?_append_right (by simpa using h256),
      List.getElem?_append_right (by simpa using h256), length_bits, length_bits,
      QRow.length_body, QRow.length_body]

theorem crc32_of_intact (h : r.intact = true) :
    crc32 (QRow.kind.bytes (QRow.kind.withCrc r 0)) = r.crc32 :=
  beq_iff_eq.mp (Bool.and_eq_true_iff.mp h).2

end

/-- **Bursts in a row are detected**: a nonzero change of an intact row that stays
inside 32 consecutive bits of the first 32 bytes, or inside the `crc32` field behind
them, leaves a row whose sum is not the one it carries. -/
theorem burst_detected (r r' : QRow) (hr : r.intact = true) (hne : r' ≠ r)
    (hchange : (∃ k, ChangedWithin r r' k (k + 32) ∧ ChangedWithin r r' 0 256) ∨
      ChangedWithin r r' 256 288) :
    crc32 (QRow.kind.bytes (QRow.kind.withCrc r' 0)) ≠ r'.crc32 ∧ r'.intact = false := by
  have hsum : crc32 (QRow.kind.bytes (QRow.kind.withCrc r' 0)) ≠ r'.crc32 := by
    rcases hchange with ⟨k, hburst, hfront⟩ | hfield
    · rw [hfront.crc32_eq, ← crc32_of_intact hr]
      refine (crc32_ne (by simp) (fun h => hne ?_) hburst.zeroed).symm
      -- with the fields equal too, the rows are the same
      rw [QRow.bytes_withCrc, QRow.bytes_withCrc] at h
      apply QRow.bytes_injective
      rw [QRow.bytes_eq, QRow.bytes_eq, List.append_cancel_right h, hfront.crc32_eq]
    · rw [QRow.bytes_withCrc, hfield.body_eq, ← QRow.bytes_withCrc, crc32_of_intact hr]
      refine fun h => hne (QRow.bytes_injective ?_)
      rw [QRow.bytes_eq, QRow.bytes_eq, hfield.body_eq, h]
  refine ⟨hsum, ?_⟩
  show (_ && _) = false
  rw [Bool.and_eq_false_iff]
  exact .inr (beq_eq_false_iff_ne.mpr hsum)

/-- The highest bit of the boot id and the lowest of the seq behind it, in one burst. -/
theorem burst_detected_seq :
    let r := QRow.kind.stamp ⟨0, 1, 1, 5, 6, 7, 8, 0, 60, 0⟩
    let r' := { r with bootId := 0x80000005, seq := 7 }
    crc32 (QRow.kind.bytes (QRow.kind.withCrc r' 0)) ≠ r'.crc32 ∧ r'.intact = false := by
  intro r r'
  have hbits : ∀ i < 288, (bits (QRow.kind.bytes r))[i]? ≠ (bits (QRow.kind.bytes r'))[i]? →
      95 ≤ i ∧ i < 97 := by
    decide +kernel
  have hwithin : ChangedWithin r r' 95 97 := by
    intro i hi
    by_cases hlt : i < 288
    · exact hbits i hlt hi
    · refine absurd ?_ hi
      have hlen : 8 * QRow.kind.size ≤ i := Nat.not_lt.mp hlt
      rw [List.getElem?_eq_none (by simpa using hlen), List.getElem?_eq_none (by simpa using hlen)]
  refine burst_detected r r' (QRow.kind.intact_stamp _) (fun h => ?_) (.inl ⟨95, ?_, ?_⟩)
  · exact absurd (congrArg QRow.seq h) (by decide)
  · exact fun i hi => ⟨(hwithin i hi).1, (hwithin i hi).2.trans (by omega)⟩
  · exact fun i hi => ⟨Nat.zero_le i, (hwithin i hi).2.trans (by omega)⟩

end Device
end CovioFirmware
