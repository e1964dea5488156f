import CovioFirmware.Queue.Appending
import CovioFirmware.Queue.Filling

/-!
# What the truncate guard keeps

When a segment holds more than one row behind the confirmed offset, the checkpoint
has gone backwards, and `append` looks for rows to adopt before it truncates.  It
adopts a run: the intact rows from the confirmed offset on, up to the first row that
is not intact.  What stands behind that row is cut off, intact or not.

So no valid row is lost exactly when none stands behind the first damaged one, or
when the segment is full and the append leaves it for the next one
(`truncate_guard_iff`).
-/

namespace CovioFirmware
namespace Device

open Crash

/-- Every storage call but a bounded read may fail. -/
def Env.readable : Env Unit where
  succeeds _ _ := True
  fails c _ := ∀ p offset len, c ≠ .readAt p offset len
  tears _ _ := True
  serve _ e r e' := r = ⟨-1, []⟩ ∧ e' = e
  serveCut _ e e' := e' = e

theorem Env.readable_reads : Env.readable.Reads := fun _ _ _ _ h => h _ _ _ rfl

namespace EventQueue

open Bytes

/-- Every row-aligned, valid row at or beyond the confirmed offset is still there. -/
def KeepsValid (w w' : World Unit) (t : Totalizer) : Prop :=
  ∀ off r, 36 ∣ off → t.cp.qOffset.toNat ≤ off →
    QRow.codec.rowAt (w.old (.seg t.cp.qSegment.toNat)) off = some r → r.intact = true →
    QRow.codec.rowAt (w'.old (.seg t.cp.qSegment.toNat)) off = some r

/-- Behind the first row from `off` on that is not intact, no row is intact. -/
def NoneBeyond (b : Data) (off : ℕ) : Prop :=
  ∀ j r, (goodRows b off).length < j → QRow.codec.rowAt b (off + 36 * j) = some r →
    r.intact = false

/-- The row the scan stops at is not intact. -/
theorem not_intact_stop {b : Data} {off : ℕ} {r : QRow}
    (h : QRow.codec.rowAt b (off + 36 * (goodRows b off).length) = some r) :
    r.intact = false := by
  have hget := QRow.codec.getElem?_rowsIn b off (goodRows b off).length
  rw [QRow.codec_size, h] at hget
  conv at hget =>
    lhs
    rw [← List.takeWhile_append_dropWhile (p := QRow.intact) (l := QRow.codec.rowsIn b off b.length)]
  rw [← goodRows, List.getElem?_append_right le_rfl, Nat.sub_self, ← List.head?_eq_getElem?] at hget
  have hstop := List.head?_dropWhile_not QRow.intact (QRow.codec.rowsIn b off b.length)
  rw [hget] at hstop
  simpa using hstop

/-- A valid row at or beyond `off` belongs to the run the scan adopts. -/
theorem lt_goodRows {b : Data} {off j : ℕ} {r : QRow} (hnone : NoneBeyond b off)
    (h : QRow.codec.rowAt b (off + 36 * j) = some r) (hr : r.intact = true) :
    j < (goodRows b off).length := by
  by_contra hc
  rcases Nat.lt_or_ge (goodRows b off).length j with hlt | hge
  · rw [hnone j r hlt h] at hr
    cases hr
  · obtain rfl : j = (goodRows b off).length := by omega
    rw [not_intact_stop h] at hr
    cases hr

/-- **The guard's offset** where its reads do not fail: the end of the run. -/
theorem guards_reads {E : Env Unit} (hE : E.Reads) {p : Path} {b : Data} {goodOffset : ℕ}
    (hbehind : goodOffset + 36 < b.length) (hsize : b.length < 2 ^ 31) :
    Guards E p b goodOffset fun good => good = goodOffset + 36 * (goodRows b goodOffset).length := by
  intro w hb hlt
  have hfit : goodOffset + 36 * (goodRows b goodOffset).length ≤ b.length := by
    have hle := (List.takeWhile_prefix (l := QRow.codec.rowsIn b goodOffset b.length)
      QRow.intact).length_le
    rw [← goodRows, QRow.codec.length_rowsIn, min_self, QRow.codec_size] at hle
    have := Nat.mul_div_le (b.length - goodOffset) 36
    omega
  rw [guardedOffset, if_pos (by omega)]
  refine wp_adoptValidRows hE hb (by omega) trivial _ _ hlt.le ?_ ⟨rfl, hfit, rfl⟩
  have := Nat.div_le_div_right (c := 36) (Nat.sub_le b.length goodOffset)
  omega

section

variable {w : World Unit} {q : EventQueue} {t : Totalizer} {row : QRow}

/-- With room in the segment, the run is kept, and what replaces the rest of the file
is one row or less. -/
theorem wp_append_guarded {E : Env Unit} (hE : E.Reads) (hroom : t.cp.qOffset.toNat < 180000)
    (hsize : (w.old (.seg t.cp.qSegment.toNat)).length < 2 ^ 31)
    (hbehind : t.cp.qOffset.toNat + 36 < (w.old (.seg t.cp.qSegment.toNat)).length)
    {Q : EventQueue × Totalizer → World Unit → Prop}
    (hunchanged : ¬ E.Reliable → ∀ r w', w'.old (.seg t.cp.qSegment.toNat) =
      w.old (.seg t.cp.qSegment.toNat) → Q r w')
    (hfront : ∀ r w' tail,
      let b := w.old (.seg t.cp.qSegment.toNat)
      let good := t.cp.qOffset.toNat + 36 * (goodRows b t.cp.qOffset.toNat).length
      good ≤ b.length → w'.old (.seg t.cp.qSegment.toNat) = b.take good ++ tail →
      (E.Reliable → tail.length = 36) → Q r w') :
    wp (sem E) (q.append t row) Q (fun _ => True) w := by
  have htarget : target t = (t.cp.qSegment.toNat, t.cp.qOffset.toNat) := by
    rw [target, Totalizer.queueOffsetOffset, if_neg (by rw [queueSegmentRows]; omega),
      Totalizer.queueOffsetSegment]
  refine wp_append_front htarget rfl (guards_reads hE hbehind hsize) (fun h => by omega) ?_ ?_
  · rintro hno w' q' - (hsame | ⟨good, junk, hle, rfl, hjunk⟩)
    · exact hunchanged hno _ _ hsame
    · exact hfront _ _ junk hle hjunk fun hE => absurd hE hno
  · rintro w' t' good hle rfl - hfile - - -
    refine hfront _ _ _ hle (by rw [World.old, hfile, Option.getD_some]) fun _ => ?_
    exact QRow.kind.length_bytes _

/-- A full segment is left alone: the append works on the next one. -/
theorem wp_append_rollover {E : Env Unit} (hfull : 180000 ≤ t.cp.qOffset.toNat)
    (hsize : ∀ i, (w.old (.seg i)).length < 2 ^ 31) {Q : EventQueue × Totalizer → World Unit → Prop}
    (h : ∀ r w', w'.file (.seg t.cp.qSegment.toNat) = w.file (.seg t.cp.qSegment.toNat) → Q r w') :
    wp (sem E) (q.append t row) Q (fun _ => True) w := by
  have htarget : target t = (u32 (t.cp.qSegment.toNat + 1), 0) := by
    rw [target, Totalizer.queueOffsetOffset, if_pos (by rw [queueSegmentRows]; omega),
      Totalizer.queueOffsetSegment]
  have hne : t.cp.qSegment.toNat ≠ u32 (t.cp.qSegment.toNat + 1) := by
    have := t.cp.qSegment.toNat_lt
    rw [u32]
    omega
  have hnext := hsize (u32 (t.cp.qSegment.toNat + 1))
  refine wp_append_front (G := fun _ => True) htarget rfl (fun w1 _ hlt => ?_) (fun _ => trivial) ?_ ?_
  · exact wp_guardedOffset_any hlt (by omega) fun good hle _ => ⟨rfl, hle, trivial⟩
  · exact fun _ w' q' hothers _ => h _ w' (hothers _ hne)
  · exact fun w' t' _ _ _ hothers _ _ _ _ => h _ w' (hothers _ hne)

/-- **The truncate guard destroys no valid row**, whichever calls other than the reads
fail, exactly when the segment is full or no valid row stands behind the first
damaged one. -/
theorem truncate_guard_iff (w : World Unit) (q : EventQueue) (t : Totalizer) (row : QRow)
    (h36 : 36 ∣ t.cp.qOffset.toNat) (hsize : ∀ i, (w.old (.seg i)).length < 2 ^ 31)
    (hbehind : t.cp.qOffset.toNat + 36 < (w.old (.seg t.cp.qSegment.toNat)).length) :
    (∀ r w', Runs (sem Env.readable) (q.append t row) w r w' → KeepsValid w w' t) ↔
      180000 ≤ t.cp.qOffset.toNat ∨
        NoneBeyond (w.old (.seg t.cp.qSegment.toNat)) t.cp.qOffset.toNat := by
  constructor
  · intro h
    by_cases hfull : 180000 ≤ t.cp.qOffset.toNat
    · exact .inl hfull
    refine .inr fun j r hj hrow => ?_
    by_contra hc
    have hintact : r.intact = true := by simpa using hc
    -- the run in which no call fails
    have hreadable := execute_runs_of Env.readable (fun _ => false) (by simp)
      (fun _ _ => trivial) (fun _ => ⟨rfl, rfl⟩) (q.append t row) (w := w) rfl
    have hkept := h _ _ hreadable _ r (Nat.dvd_add h36 (Nat.dvd_mul_right 36 j))
      (Nat.le_add_right _ _) hrow hintact
    have hlen := wp.runs (wp_append_guarded (q := q) Env.calm_reliable.reads
      (by omega) (hsize _) hbehind (Q := fun _ w' =>
        (w'.old (.seg t.cp.qSegment.toNat)).length = t.cp.qOffset.toNat +
          36 * (goodRows (w.old (.seg t.cp.qSegment.toNat)) t.cp.qOffset.toNat).length + 36)
      (fun hno => absurd Env.calm_reliable hno) (fun _ w' tail hle hold htail => ?_))
      (execute_runs (q.append t row) w)
    · rw [RowCodec.rowAt, QRow.codec_size, if_neg] at hkept
      · cases hkept
      · rw [hlen]
        omega
    · rw [hold, List.length_append, List.length_take_of_le hle, htail Env.calm_reliable]
  · intro hcond r w' hrun off x h36' hle hrow hx
    by_cases hfull : 180000 ≤ t.cp.qOffset.toNat
    · refine wp.runs (wp_append_rollover (q := q) hfull hsize (Q := fun _ w' =>
        QRow.codec.rowAt (w'.old (.seg t.cp.qSegment.toNat)) off = some x) fun _ w' hsame => ?_) hrun
      rwa [World.old, hsame, ← World.old]
    · have hnone := hcond.resolve_left hfull
      obtain ⟨j, rfl⟩ : ∃ j, off = t.cp.qOffset.toNat + 36 * j := by
        obtain ⟨m, hm⟩ := Nat.dvd_sub h36' h36
        exact ⟨m, by omega⟩
      have hj := lt_goodRows hnone hrow hx
      refine wp.runs (wp_append_guarded (q := q) Env.readable_reads (by omega)
        (hsize _) hbehind (Q := fun _ w' =>
          QRow.codec.rowAt (w'.old (.seg t.cp.qSegment.toNat)) _ = some x)
        (fun _ _ w' hsame => by rw [hsame]; exact hrow) fun _ w' tail hgood hold _ => ?_) hrun
      rw [hold, QRow.codec.rowAt_take_append (by rw [QRow.codec_size]; omega) hgood]
      exact hrow

end

/-- A segment with the given bytes. -/
def holding (b : Data) : World Unit := fresh.set (.seg 0) (some b)

theorem old_holding (b : Data) : (holding b).old (.seg 0) = b := by
  rw [World.old, holding, World.file_set, Function.update_self, Option.getD_some]

theorem length_old_holding {b : Data} (hb : b.length < 2 ^ 31) (i : ℕ) :
    ((holding b).old (.seg i)).length < 2 ^ 31 := by
  by_cases hi : i = 0
  · rw [hi, old_holding]
    exact hb
  · rw [World.old, holding, World.file_set, Function.update_of_ne (by simpa using hi)]
    exact Nat.two_pow_pos 31

/-- A checkpoint that has gone back to the start, two intact rows and a torn byte: an
append keeps both rows. -/
theorem truncate_guard_two_rows :
    ∃ r w', Runs (sem Env.readable) (unacknowledged.append (writingAt 0 0) firstRow)
        (holding (firstRowBytes ++ (firstRowBytes ++ [0]))) r w' ∧
      KeepsValid (holding (firstRowBytes ++ (firstRowBytes ++ [0]))) w' (writingAt 0 0) := by
  have hrun := execute_runs_of Env.readable (fun _ => false) (by simp) (fun _ _ => trivial)
    (fun _ => ⟨rfl, rfl⟩) (unacknowledged.append (writingAt 0 0) firstRow)
    (w := holding (firstRowBytes ++ (firstRowBytes ++ [0]))) rfl
  have hlen : (firstRowBytes ++ (firstRowBytes ++ [0])).length = 73 := by
    simp only [List.length_append, length_firstRowBytes, List.length_singleton]
  have hgood : (goodRows (firstRowBytes ++ (firstRowBytes ++ [0])) 0).length = 2 := by
    decide +kernel
  have hiff := truncate_guard_iff (holding (firstRowBytes ++ (firstRowBytes ++ [0]))) unacknowledged
    (writingAt 0 0) firstRow (by decide) (length_old_holding (by rw [hlen]; decide))
    (by change 0 + 36 < ((holding _).old (.seg 0)).length
        rw [old_holding, hlen]
        decide)
  refine ⟨_, _, hrun, hiff.mpr (.inr ?_) _ _ hrun⟩
  intro j r hj hr
  change QRow.codec.rowAt ((holding _).old (.seg 0)) (0 + 36 * j) = some r at hr
  change (goodRows ((holding _).old (.seg 0)) 0).length < j at hj
  rw [old_holding] at hj hr
  rw [RowCodec.rowAt, QRow.codec_size, if_neg (by rw [hlen]; omega)] at hr
  cases hr

/-- A damaged row between two intact ones: the second one is cut off. -/
theorem row_behind_damage_removed :
    let b := firstRowBytes ++ (List.replicate 36 0 ++ firstRowBytes)
    (writingAt 0 0).cp.qOffset.toNat + 36 < ((holding b).old (.seg 0)).length ∧
      ¬ ∀ r w', Runs (sem Env.readable) (unacknowledged.append (writingAt 0 0) firstRow)
        (holding b) r w' → KeepsValid (holding b) w' (writingAt 0 0) := by
  refine ⟨by decide +kernel, fun h => ?_⟩
  have hrun := execute_runs_of Env.readable (fun _ => false) (by simp) (fun _ _ => trivial)
    (fun _ => ⟨rfl, rfl⟩) (unacknowledged.append (writingAt 0 0) firstRow)
    (w := holding (firstRowBytes ++ (List.replicate 36 0 ++ firstRowBytes))) rfl
  have hkept := h _ _ hrun 72 (QRow.kind.stamp firstRow) (by decide) (by decide)
    (by decide +kernel) (QRow.kind.intact_stamp firstRow)
  exact absurd hkept (by decide +kernel)

end EventQueue
end Device
end CovioFirmware
