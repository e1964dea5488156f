import CovioFirmware.Queue.Appending
import CovioFirmware.Queue.Filling

/-!
# Rows stay in step with their readers

A reader strides through a segment in steps of 36 bytes and never gets back into
step, so `append` has to keep the write position a multiple of 36.  It does, on every
way it takes but one: a file that is shorter than the confirmed offset says is
believed, and its size becomes the offset, whatever it is.

`aligned_iff` says this for every size and contents of the file and every choice of
failing calls: an append that moves the write position leaves it a multiple of 36,
and its row within a reader's reach, exactly when that way is not taken with a size
that ends inside a row.
-/

namespace CovioFirmware
namespace Device
namespace EventQueue

open Bytes Crash

/-- A reader gets from the cursor to the last row before the write position: the
cursor is at a row, at or before that one, and no segment between is missing. -/
def InReach (fs : Path → Option Data) (ack : AckRec) (t : Totalizer) : Prop :=
  36 ∣ ack.cursorOffset.toNat ∧
    (ack.cursorSegment.toNat < t.cp.qSegment.toNat ∨
      ack.cursorSegment = t.cp.qSegment ∧
        ack.cursorOffset.toNat + 36 ≤ t.cp.qOffset.toNat) ∧
    ∀ i, ack.cursorSegment.toNat ≤ i → i < t.cp.qSegment.toNat → fs (.seg i) ≠ none

/-- The write position is at a row, and the row before it, if it is above the
acknowledged seq and within reach, is one an unbounded `pending` returns. -/
def StaysReadable (fs : Path → Option Data) (q : EventQueue) (t : Totalizer) (row : QRow) : Prop :=
  36 ∣ t.cp.qOffset.toNat ∧
    (q.ack.ackedSeq < row.seq → InReach fs q.ack t →
      ∀ N, (q.pending fs t N).length < N → QRow.kind.stamp row ∈ q.pending fs t N)

/-- The file is shorter than the confirmed offset, and ends inside a row. -/
def ClampsInsideRow (size goodOffset : ℕ) : Prop := size < goodOffset ∧ ¬ 36 ∣ size

instance (size goodOffset : ℕ) : Decidable (ClampsInsideRow size goodOffset) :=
  inferInstanceAs (Decidable (_ ∧ _))

/-- The row right behind a front part that holds whole rows is a confirmed row. -/
theorem mem_confirmedRows_last {fs : Path → Option Data} {ack : AckRec} {t : Totalizer}
    {row : QRow} {front : Data} (hreach : InReach fs ack t) (h36 : 36 ∣ front.length)
    (hsize : front.length + 72 < 2 ^ 32)
    (hfile : fs (.seg t.cp.qSegment.toNat) = some (front ++ QRow.kind.bytes row))
    (hoff : t.cp.qOffset.toNat = front.length + 36) : row ∈ confirmedRows fs ack t := by
  obtain ⟨hcursor, hbefore, hthere⟩ := hreach
  have hle : ack.cursorSegment.toNat ≤ t.cp.qSegment.toNat := by
    rcases hbefore with h | ⟨h, -⟩
    · exact h.le
    · rw [h]
  obtain ⟨l, hrows, -⟩ := rowsWalked_split fs fs t.cp.qSegment.toNat t.cp.qOffset.toNat
    t.cp.qOffset.toNat _ _ ack.cursorOffset.toNat hle rfl (fun _ _ _ => rfl) hthere
  have hlen : (QRow.kind.bytes row).length = 36 := QRow.kind.length_bytes row
  rw [confirmedRows, Totalizer.queueOffsetSegment, Totalizer.queueOffsetOffset, hrows]
  refine List.mem_append_right l ?_
  -- where the reader enters the last segment
  set off := if ack.cursorSegment.toNat = t.cp.qSegment.toNat then ack.cursorOffset.toNat else 0
    with hoffdef
  have hoff36 : 36 ∣ off := by
    rw [hoffdef]
    split
    · exact hcursor
    · exact Nat.dvd_zero _
  have hoffle : off ≤ front.length := by
    rw [hoffdef]
    split
    · next hsame =>
      rcases hbefore with h | ⟨-, h⟩
      · exact absurd hsame h.ne
      · omega
    · exact Nat.zero_le _
  have hread := QRow.codec.rowsIn_append_row front row off hoffle (Nat.dvd_sub h36 hoff36)
  rw [activeRows, hfile, hoff]
  simp only
  rw [Nat.min_eq_left (by omega), rowsRead_eq_rowsIn (.inl (by omega)) _ _ (by omega)
    (rowFuel _ _)]
  have hlast : row ∈ QRow.codec.rowsIn front off front.length ++ [row] := by simp
  rw [← hread] at hlast
  exact hlast

/-- **Rows stay aligned and readable**, unless the confirmed offset is clamped to a
size that ends inside a row. -/
theorem aligned_iff {ε : Type} (E : Env ε) (w : World ε) (q : EventQueue) (t : Totalizer)
    (row : QRow) (h36 : 36 ∣ t.cp.qOffset.toNat)
    (hsize : (w.old (.seg (target t).1)).length < 2 ^ 31) (q' : EventQueue) (t' : Totalizer)
    (w' : World ε) (hrun : Runs (sem E) (q.append t row) w (q', t') w') (hmoved : t' ≠ t) :
    StaysReadable w'.file q' t' row ↔
      ¬ ClampsInsideRow (w.old (.seg (target t).1)).length (target t).2 := by
  obtain ⟨s, goodOffset, htarget⟩ : ∃ s g, target t = (s, g) := ⟨_, _, rfl⟩
  rw [htarget] at hsize ⊢
  simp only at hsize ⊢
  have hs : s < 2 ^ 32 ∧ 36 ∣ goodOffset := by
    rw [target] at htarget
    split at htarget
    · obtain ⟨rfl, rfl⟩ := Prod.mk.inj htarget
      exact ⟨Nat.mod_lt _ (by decide), Nat.dvd_zero _⟩
    · obtain ⟨rfl, rfl⟩ := Prod.mk.inj htarget
      exact ⟨UInt32.toNat_lt _, h36⟩
  set b := w.old (.seg s) with hb
  have hguard : Guards E (.seg s) b goodOffset (Placed goodOffset b.length) :=
    fun w1 _ hlt => wp_guardedOffset_any hlt (by omega) fun good hle hG => ⟨rfl, hle, hG⟩
  have hclamp : b.length ≤ goodOffset → Placed goodOffset b.length b.length := by
    intro hle
    rw [Placed]
    split
    · rfl
    · exact ⟨0, by omega⟩
  have hresult := wp.runs (wp_append_front (q := q) (Q := fun r w' => r.2 ≠ t →
    (StaysReadable w'.file r.1 r.2 row ↔ ¬ ClampsInsideRow b.length goodOffset)) htarget
    hb.symm hguard hclamp (fun _ w' q' _ _ hne => absurd rfl hne) ?_) hrun
  · exact hresult hmoved
  intro w1 t1 good hle hgood _ hfile hseg hoff _ _
  have hoff1 : t1.cp.qOffset.toNat = good + 36 := by
    rw [hoff]
    exact u32_ofNat (by omega)
  have hseg1 : t1.cp.qSegment.toNat = s := by
    rw [hseg]
    exact u32_ofNat hs.1
  -- the row's place is a multiple of 36 unless the clamp has moved it inside a row
  have hplace : 36 ∣ good ↔ ¬ ClampsInsideRow b.length goodOffset := by
    rw [ClampsInsideRow]
    rw [Placed] at hgood
    split at hgood
    · next hlt =>
      rw [hgood]
      simp only [hlt, true_and, not_not]
    · next hge =>
      obtain ⟨m, rfl⟩ := hgood
      exact iff_of_true (Nat.dvd_add hs.2 (Nat.dvd_mul_right 36 m)) fun h => hge h.1
  have hfront : (b.take good).length = good := by
    rw [List.length_take]
    omega
  rw [← hplace, StaysReadable, hoff1]
  constructor
  · rintro ⟨h, -⟩
    omega
  · intro h
    refine ⟨by omega, fun hseq hreach N hN => ?_⟩
    have hmem : QRow.kind.stamp row ∈ confirmedRows w1.file q.ack t1 :=
      mem_confirmedRows_last hreach (by rw [hfront]; exact h) (by rw [hfront]; omega)
        (by rw [hseg1]; exact hfile) (by rw [hfront]; exact hoff1)
    rw [pending_unbounded hN, liveRows, List.mem_filter]
    exact ⟨hmem, decide_eq_true ⟨QRow.kind.intact_stamp row, hseq⟩⟩

/-- An active segment of one byte. -/
def oneByte : World Unit := fresh.set (.seg 0) (some [0])

/-- One byte behind an empty log is cut off, and the row goes to the front. -/
theorem aligned_firstRow :
    ∃ q' t' w', Runs (sem Env.calm) (unacknowledged.append (writingAt 0 0) firstRow)
        oneByte (q', t') w' ∧ StaysReadable w'.file q' t' firstRow := by
  have hrun := execute_runs (unacknowledged.append (writingAt 0 0) firstRow) oneByte
  have haligned := aligned_iff Env.calm oneByte unacknowledged (writingAt 0 0) firstRow
    (by decide) (by decide) _ _ _ hrun (by decide +kernel)
  exact ⟨_, _, _, hrun, haligned.mpr (by decide)⟩

/-- One byte where the checkpoint claims a row: the next row goes to offset 1. -/
theorem clamp_misaligns :
    ∃ q' t' w', Runs (sem Env.calm) (unacknowledged.append (writingAt 0 36) firstRow)
        oneByte (q', t') w' ∧ t' ≠ writingAt 0 36 ∧ t'.cp.qOffset = 37 ∧
      ¬ StaysReadable w'.file q' t' firstRow := by
  refine ⟨_, _, _, execute_runs _ _, by decide +kernel, by decide +kernel, fun h => ?_⟩
  exact absurd h.1 (by decide +kernel)

end EventQueue
end Device
end CovioFirmware
