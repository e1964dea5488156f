import CovioFirmware.Device.EventQueue

/-!
# What the row loops compute

The loops of `pendingImpl_` and `ackThrough` over the rows of one segment differ
in when they stop: `pending` skips what it does not return, `ackThrough` stops at
the first row that is not yet acknowledged.  Both stride over the same rows, so
both are said here in terms of `rowsIn`, for arbitrary file contents.

The 32-bit sum `off + sizeof(QRow)` does no harm below a limit that leaves room
for one more row, nor where the limit is the end of the file, nor in a file of less
than `2 ^ 32` bytes; one of the three is all these statements need to know
(`Strides`).
-/

namespace CovioFirmware
namespace Device
namespace EventQueue

open Bytes

/-- A row that `pending` returns: intact, and above the acknowledged seq. -/
def Live (ackedSeq : UInt32) (r : QRow) : Prop := r.intact = true ∧ ackedSeq < r.seq

instance (ackedSeq : UInt32) : DecidablePred (Live ackedSeq) := fun _ =>
  inferInstanceAs (Decidable (_ ∧ _))

theorem u32_row_le {off limit : ℕ} (h : off + 36 ≤ limit) : u32 (off + 36) ≤ limit :=
  (Nat.mod_le _ _).trans h

/-- The 32-bit sum of the row loops stops them where the sum itself would. -/
def Strides (b : Data) (limit : ℕ) : Prop :=
  limit + 36 < 2 ^ 32 ∨ b.length ≤ limit ∨ b.length < 2 ^ 32

theorem Strides.end (b : Data) : Strides b b.length := .inr (.inl le_rfl)

/-- A row loop stops where no whole row fits before the limit and the end of the
file. -/
theorem stop_of_lt {b : Data} {limit off : ℕ} (hlimit : Strides b limit)
    (hoff : off ≤ limit) (hend : min limit b.length < off + 36) :
    ¬ u32 (off + 36) ≤ limit ∨ QRow.codec.rowAt b off = none := by
  by_cases hlen : b.length < off + 36
  · exact .inr (if_neg (by rw [QRow.codec_size]; omega))
  · refine .inl ?_
    rw [u32_of_lt (by rcases hlimit with h | h | h <;> omega)]
    omega

/-- The row loop of `pending` returns the first `room` live rows. -/
theorem pendingRows_eq (ackedSeq : UInt32) (b : Data) (limit : ℕ)
    (hlimit : Strides b limit) :
    ∀ fuel off room, off ≤ limit → (b.length - off) / 36 < fuel →
      pendingRows ackedSeq b limit fuel off room =
        ((QRow.codec.rowsIn b off limit).filter fun r => Live ackedSeq r).take room := by
  intro fuel
  induction fuel with
  | zero => intro off room _ hf; omega
  | succ fuel ih =>
    intro off room hoff hf
    rw [pendingRows]
    by_cases hroom : room = 0
    · rw [if_neg (fun h => h.1 hroom), hroom, List.take_zero]
    by_cases hend : off + 36 ≤ min limit b.length
    · have hle : off + 36 ≤ limit := by omega
      have hrow : QRow.codec.rowAt b off = some _ := if_pos (by rw [QRow.codec_size]; omega)
      have hnext := ih (off + 36) (room - 1) hle (by omega)
      have hskip := ih (off + 36) room hle (by omega)
      rw [if_pos ⟨hroom, u32_row_le hle⟩, QRow.codec.rowsIn_of_rowAt hrow hle, hrow,
        List.filter_cons]
      obtain ⟨n, rfl⟩ : ∃ n, room = n + 1 := ⟨room - 1, by omega⟩
      generalize QRow.codec.dec ((b.drop off).take QRow.codec.size) = r
      by_cases hlive : Live ackedSeq r
      · have hlive' : r.intact = true ∧ ackedSeq < r.seq := hlive
        simp only [hlive', hlive, decide_true, if_true, List.take_succ_cons, and_self,
          QRow.codec_size]
        rw [hnext, Nat.add_sub_cancel]
      · have hlive' : ¬ (r.intact = true ∧ ackedSeq < r.seq) := hlive
        simp only [if_neg hlive', hlive, decide_false, Bool.false_eq_true, if_false,
          QRow.codec_size]
        exact hskip
    · have hempty : QRow.codec.rowsIn b off limit = [] :=
        QRow.codec.rowsIn_of_lt (by rw [QRow.codec_size]; omega)
      rw [hempty, List.filter_nil, List.take_nil]
      rcases stop_of_lt hlimit hoff (by omega) with hstop | hnone
      · rw [if_neg fun h => hstop h.2]
      · rw [hnone, ite_self]

/-- The row loop of `ackThrough` passes the rows before the first live one. -/
theorem ackRows_eq (ackedSeq : UInt32) (b : Data) (limit : ℕ)
    (hlimit : Strides b limit) :
    ∀ fuel off, off ≤ limit → (b.length - off) / 36 < fuel →
      ackRows ackedSeq b limit fuel off =
        (off + 36 * ((QRow.codec.rowsIn b off limit).takeWhile fun r => ¬ Live ackedSeq r).length,
          ((QRow.codec.rowsIn b off limit).takeWhile fun r => ¬ Live ackedSeq r).length) := by
  intro fuel
  induction fuel with
  | zero => intro off _ hf; omega
  | succ fuel ih =>
    intro off hoff hf
    rw [ackRows]
    by_cases hend : off + 36 ≤ min limit b.length
    · have hle : off + 36 ≤ limit := by omega
      have hrow : QRow.codec.rowAt b off = some _ := if_pos (by rw [QRow.codec_size]; omega)
      have hnext := ih (off + 36) hle (by omega)
      rw [if_pos (u32_row_le hle), QRow.codec.rowsIn_of_rowAt hrow hle, hrow, List.takeWhile_cons]
      generalize QRow.codec.dec ((b.drop off).take QRow.codec.size) = r
      by_cases hlive : Live ackedSeq r
      · have hlive' : r.intact = true ∧ ackedSeq < r.seq := hlive
        simp [hlive', hlive]
      · have hlive' : ¬ (r.intact = true ∧ ackedSeq < r.seq) := hlive
        simp only [if_neg hlive', hlive, not_false_eq_true, decide_true, if_true,
          List.length_cons, QRow.codec_size]
        rw [hnext]
        simp only [Prod.mk.injEq, and_true]
        ring
    · have hempty : QRow.codec.rowsIn b off limit = [] :=
        QRow.codec.rowsIn_of_lt (by rw [QRow.codec_size]; omega)
      rw [hempty, List.takeWhile_nil, List.length_nil]
      rcases stop_of_lt hlimit hoff (by omega) with hstop | hnone
      · rw [if_neg hstop]
        rfl
      · rw [hnone]
        exact ite_self _

/-- The segment loop of `ackThrough` moves forward, stays at or below the active
segment, and crosses only segments that exist. -/
theorem ackWalk_crosses (fs : Path → Option Data) (ackedSeq : UInt32) (activeSeg qOffset : ℕ) :
    ∀ fuel seg off consumed,
      let r := ackWalk fs ackedSeq activeSeg qOffset fuel seg off consumed
      seg ≤ r.1 ∧ r.1 ≤ max seg activeSeg ∧ ∀ s, seg ≤ s → s < r.1 → fs (.seg s) ≠ none := by
  intro fuel
  induction fuel with
  | zero =>
    intro seg off consumed
    refine ⟨le_rfl, le_max_left _ _, fun s h1 h2 => ?_⟩
    exact absurd h2 (Nat.not_lt.mpr h1)
  | succ fuel ih =>
    intro seg off consumed
    have hstay : ∀ r : ℕ × ℕ × ℕ, r.1 = seg → seg ≤ r.1 ∧ r.1 ≤ max seg activeSeg ∧
        ∀ s, seg ≤ s → s < r.1 → fs (.seg s) ≠ none := by
      rintro r rfl
      exact ⟨le_rfl, le_max_left _ _, fun s h1 h2 => absurd h2 (Nat.not_lt.mpr h1)⟩
    simp only [ackWalk]
    split
    · cases hb : fs (.seg seg) with
      | none => exact hstay _ rfl
      | some b =>
        simp only
        split
        · next hnext =>
          obtain ⟨h1, h2, h3⟩ := ih (seg + 1) 0 (consumed +
            (ackRows ackedSeq b (readLimit activeSeg qOffset seg b) (b.length / 36 + 1)
              (min off (readLimit activeSeg qOffset seg b))).2)
          refine ⟨by omega, by omega, fun s hs hlt => ?_⟩
          by_cases heq : s = seg
          · rw [heq, hb]
            simp
          · exact h3 s (by omega) hlt
        · exact hstay _ rfl
    · exact hstay _ rfl

/-- `pending` stops at a missing segment. -/
theorem pending_of_missing {fs : Path → Option Data} {q : EventQueue} {t : Totalizer}
    (h : fs (.seg q.ack.cursorSegment.toNat) = none) (maxN : ℕ) : q.pending fs t maxN = [] := by
  rw [pending]
  generalize t.queueOffsetSegment.toNat + 1 - q.ack.cursorSegment.toNat = fuel
  cases fuel with
  | zero => rfl
  | succ fuel => rw [pendingWalk, h, ite_self]

/-- The fuel the segment loops give the row loops is enough. -/
theorem rowFuel (b : Data) (off : ℕ) : (b.length - off) / 36 < b.length / 36 + 1 :=
  Nat.lt_succ_of_le (Nat.div_le_div_right (Nat.sub_le _ _))

end EventQueue
end Device
end CovioFirmware
