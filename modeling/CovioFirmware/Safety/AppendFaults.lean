import CovioFirmware.Queue.Backlog
import CovioFirmware.Queue.Filling

/-!
# Appends that fail

An append opens the segment, cuts off what an earlier failure left behind the
confirmed bytes, writes its row and moves the checkpoint.  Each of these can fail, and
the cutting off can fail again.  What holds through all of it is that the file never
has more than a row's worth of bytes behind the confirmed ones, and none once the
segment is full (`Settled`): so the next append finds nothing it would have to think
about, and either adds its row behind the confirmed bytes or leaves them alone
(`Settled.wp_append`).

`appends_exact` says so for every sequence of appends, with any calls failing.  Two
32-bit counts bound it: the segment number, which comes round to zero in a rollover
out of segment `2 ^ 32 - 1`, and the failure count (`InRange`).
-/

namespace CovioFirmware
namespace Device
namespace EventQueue

open Crash Bytes

/-- The bytes the checkpoint vouches for: the closed segments whole, and the active
one up to the write position. -/
def confirmedBytes (fs : Path → Option Data) (t : Totalizer) : Data :=
  (List.range t.cp.qSegment.toNat).flatMap (fun i => (fs (.seg i)).getD []) ++
    ((fs (.seg t.cp.qSegment.toNat)).getD []).take t.cp.qOffset.toNat

/-- The two counts an append may move can move: it does not roll over out of the last
segment number, and the failure count is not at its limit. -/
def InRange (q : EventQueue) (t : Totalizer) : Prop :=
  ¬ (t.cp.qSegment.toNat = 2 ^ 32 - 1 ∧ 180000 ≤ t.cp.qOffset.toNat) ∧
    q.fail.failedWriteCount.toNat < 2 ^ 32 - 1

section

variable {ε : Type} {E : Env ε} {w w' : World ε} {q q' : EventQueue} {t t' : Totalizer}
  {row : QRow}

variable (E) in
/-- Sequences of appends from a state, every one of them in range.  The list holds the
rows of the successful ones, as they are written: those that moved the checkpoint. -/
inductive Appends (q0 : EventQueue) (t0 : Totalizer) (w0 : World ε) :
    List QRow → EventQueue → Totalizer → World ε → Prop where
  | start : Appends q0 t0 w0 [] q0 t0 w0
  | stored {rows : List QRow} {q q' : EventQueue} {t t' : Totalizer} {w w' : World ε} {row : QRow} :
      Appends q0 t0 w0 rows q t w → InRange q t → Runs (sem E) (q.append t row) w (q', t') w' →
      t' ≠ t → Appends q0 t0 w0 (rows ++ [QRow.kind.stamp row]) q' t' w'
  | failed {rows : List QRow} {q q' : EventQueue} {t : Totalizer} {w w' : World ε} {row : QRow} :
      Appends q0 t0 w0 rows q t w → InRange q t → Runs (sem E) (q.append t row) w (q', t) w' →
      Appends q0 t0 w0 rows q' t w'

/-- What a failed append has to leave alone, and the one count it moves. -/
structure LeftAlone (w w' : World ε) (t : Totalizer) (q q' : EventQueue) : Prop where
  checkpoint : ∀ b, w'.file (.tot b) = w.file (.tot b)
  pendingCount : q'.unackedCount = q.unackedCount
  closed : ∀ i, i < t.cp.qSegment.toNat → w'.file (.seg i) = w.file (.seg i)
  active : (w'.old (.seg t.cp.qSegment.toNat)).take t.cp.qOffset.toNat =
    (w.old (.seg t.cp.qSegment.toNat)).take t.cp.qOffset.toNat
  failedWriteCount : q'.fail.failedWriteCount.toNat = q.fail.failedWriteCount.toNat + 1

/-! ## The invariant -/

/-- Behind the confirmed bytes there is at most a row's worth of others: in the active
segment while it has room, in the next one when it is full. -/
structure Settled (w : World ε) (t : Totalizer) : Prop where
  lower : t.cp.qOffset.toNat ≤ (w.old (.seg t.cp.qSegment.toNat)).length
  upper : (w.old (.seg t.cp.qSegment.toNat)).length ≤ t.cp.qOffset.toNat + 36
  full : 180000 ≤ t.cp.qOffset.toNat →
    (w.old (.seg t.cp.qSegment.toNat)).length = t.cp.qOffset.toNat
  above : ∀ i, t.cp.qSegment.toNat < i → w.file (.seg i) = none ∨
    (i = t.cp.qSegment.toNat + 1 ∧ 180000 ≤ t.cp.qOffset.toNat ∧ (w.old (.seg i)).length ≤ 36)

theorem settled_start (hsize : (w.old (.seg t.cp.qSegment.toNat)).length = t.cp.qOffset.toNat)
    (hhigher : ∀ i, t.cp.qSegment.toNat < i → w.file (.seg i) = none) : Settled w t :=
  ⟨hsize.ge, by omega, fun _ => hsize, fun i hi => .inl (hhigher i hi)⟩

theorem confirmedBytes_congr
    (hclosed : ∀ i, i < t.cp.qSegment.toNat → w'.file (.seg i) = w.file (.seg i))
    (hactive : (w'.old (.seg t.cp.qSegment.toNat)).take t.cp.qOffset.toNat =
      (w.old (.seg t.cp.qSegment.toNat)).take t.cp.qOffset.toNat) :
    confirmedBytes w'.file t = confirmedBytes w.file t := by
  have hflat : (List.range t.cp.qSegment.toNat).flatMap (fun i => (w'.file (.seg i)).getD []) =
      (List.range t.cp.qSegment.toNat).flatMap fun i => (w.file (.seg i)).getD [] :=
    List.flatMap_congr fun i hi => by rw [hclosed i (List.mem_range.mp hi)]
  rw [confirmedBytes, confirmedBytes, hflat]
  exact congrArg _ hactive

/-- The row is behind the confirmed bytes of the active segment. -/
theorem confirmedBytes_here {row : QRow} (hlower : t.cp.qOffset.toNat ≤
      (w.old (.seg t.cp.qSegment.toNat)).length)
    (hclosed : ∀ i, i < t.cp.qSegment.toNat → w'.file (.seg i) = w.file (.seg i))
    (hfile : w'.file (.seg t.cp.qSegment.toNat) = some
      ((w.old (.seg t.cp.qSegment.toNat)).take t.cp.qOffset.toNat ++ QRow.kind.bytes row))
    (hseg : t'.cp.qSegment = t.cp.qSegment)
    (hoff : t'.cp.qOffset.toNat = t.cp.qOffset.toNat + 36) :
    confirmedBytes w'.file t' = confirmedBytes w.file t ++ QRow.kind.bytes row := by
  have hflat : (List.range t.cp.qSegment.toNat).flatMap (fun i => (w'.file (.seg i)).getD []) =
      (List.range t.cp.qSegment.toNat).flatMap fun i => (w.file (.seg i)).getD [] :=
    List.flatMap_congr fun i hi => by rw [hclosed i (List.mem_range.mp hi)]
  have hbytes : (QRow.kind.bytes row).length = 36 := QRow.kind.length_bytes row
  rw [confirmedBytes, confirmedBytes, hseg, hoff, hflat, hfile, Option.getD_some,
    List.take_of_length_le, List.append_assoc]
  · rfl
  · rw [List.length_append, List.length_take_of_le hlower, hbytes]

/-- The row is the first of the next segment. -/
theorem confirmedBytes_next {row : QRow}
    (hlen : (w.old (.seg t.cp.qSegment.toNat)).length = t.cp.qOffset.toNat)
    (hclosed : ∀ i, i ≤ t.cp.qSegment.toNat → w'.file (.seg i) = w.file (.seg i))
    (hfile : w'.file (.seg (t.cp.qSegment.toNat + 1)) = some (QRow.kind.bytes row))
    (hseg : t'.cp.qSegment.toNat = t.cp.qSegment.toNat + 1) (hoff : t'.cp.qOffset.toNat = 36) :
    confirmedBytes w'.file t' = confirmedBytes w.file t ++ QRow.kind.bytes row := by
  have hflat : (List.range (t.cp.qSegment.toNat + 1)).flatMap
      (fun i => (w'.file (.seg i)).getD []) =
      (List.range (t.cp.qSegment.toNat + 1)).flatMap fun i => (w.file (.seg i)).getD [] :=
    List.flatMap_congr fun i hi => by
      rw [hclosed i (Nat.lt_succ_iff.mp (List.mem_range.mp hi))]
  have hbytes : (QRow.kind.bytes row).length = 36 := QRow.kind.length_bytes row
  have htake : ((w.file (.seg t.cp.qSegment.toNat)).getD []).take t.cp.qOffset.toNat =
      (w.file (.seg t.cp.qSegment.toNat)).getD [] := List.take_of_length_le hlen.le
  rw [confirmedBytes, confirmedBytes, hseg, hoff, hflat, hfile, Option.getD_some, htake,
    List.take_of_length_le hbytes.le, List.range_succ, List.flatMap_append, List.flatMap_singleton]

/-! ## The reader's cursor -/

/-- The write position moves over a row of the active segment. -/
theorem Ahead.move_here {fs fs' : Path → Option Data} {ack : AckRec} (h : Ahead fs ack t)
    (hothers : ∀ i, i ≠ t.cp.qSegment.toNat → fs' (.seg i) = fs (.seg i))
    (hseg : t'.cp.qSegment = t.cp.qSegment) (hoff : t'.cp.qOffset.toNat = t.cp.qOffset.toNat + 36)
    (hlower : t'.cp.qOffset.toNat ≤ ((fs' (.seg t'.cp.qSegment.toNat)).getD []).length) :
    Ahead fs' ack t' := by
  refine ⟨?_, h.cursor, ?_, fun hc => ?_, fun i h1 h2 => ?_, hlower⟩
  · rw [hseg]
    exact h.cursor_le
  · rw [hoff]
    exact Nat.dvd_add h.offset (Nat.dvd_refl 36)
  · rw [hseg] at hc
    have := h.behind hc
    omega
  · rw [hseg] at h2
    rw [hothers i h2.ne]
    exact h.present i h1 h2

/-- The write position moves behind the first row of the next segment. -/
theorem Ahead.move_next {fs fs' : Path → Option Data} {ack : AckRec} (h : Ahead fs ack t)
    (hothers : ∀ i, i ≠ t.cp.qSegment.toNat + 1 → fs' (.seg i) = fs (.seg i))
    (hthere : fs (.seg t.cp.qSegment.toNat) ≠ none)
    (hseg : t'.cp.qSegment.toNat = t.cp.qSegment.toNat + 1) (hoff : t'.cp.qOffset.toNat = 36)
    (hlower : t'.cp.qOffset.toNat ≤ ((fs' (.seg t'.cp.qSegment.toNat)).getD []).length) :
    Ahead fs' ack t' := by
  have hle := h.cursor_le
  refine ⟨by omega, h.cursor, by rw [hoff], fun hc => by omega, fun i h1 h2 => ?_, hlower⟩
  rw [hothers i (by omega)]
  by_cases hi : i = t.cp.qSegment.toNat
  · rw [hi]
    exact hthere
  · exact h.present i h1 (by omega)

/-! ## One append -/

/-- How an append ends: it has failed and left everything confirmed alone, or its row
is confirmed. -/
inductive Outcome (w w' : World ε) (q q' : EventQueue) (t t' : Totalizer) (row : QRow) : Prop where
  | failed (ht : t' = t) (halone : LeftAlone w w' t q q') (hack : q'.ack = q.ack)
      (hsettled : Settled w' t)
      (hrows : Ahead w.file q.ack t → confirmedRows w'.file q.ack t = confirmedRows w.file q.ack t)
  | stored (ht : t' ≠ t) (hack : q'.ack = q.ack) (hsettled : Settled w' t')
      (hbytes : confirmedBytes w'.file t' = confirmedBytes w.file t ++ QRow.kind.bytes row)
      (hrows : Ahead w.file q.ack t → Ahead w'.file q.ack t' ∧
        confirmedRows w'.file q.ack t' = confirmedRows w.file q.ack t ++ [row])

theorem ne_of_writes (h : t'.cp.writes = t.cp.writes + 1) : t' ≠ t := by
  rintro rfl
  have hsucc := congrArg UInt32.toNat h
  rw [UInt32.toNat_add] at hsucc
  have hone : (1 : UInt32).toNat = 1 := rfl
  have := t'.cp.writes.toNat_lt
  omega

theorem failedWriteCount_succ (hrange : InRange q t) (h : FailedAppend w w' q q') :
    q'.fail.failedWriteCount.toNat = q.fail.failedWriteCount.toNat + 1 := by
  rw [h.failedWriteCount, UInt32.toNat_add]
  exact Nat.mod_eq_of_lt (by have := hrange.2; change _ + 1 < _; omega)

/-! ### What a failed append leaves behind the confirmed bytes -/

theorem Settled.none_above (h : Settled w t) (hroom : t.cp.qOffset.toNat < 180000) {i : ℕ}
    (hi : t.cp.qSegment.toNat < i) : w.file (.seg i) = none := by
  rcases h.above i hi with hnone | ⟨-, hfull, -⟩
  · exact hnone
  · omega

theorem Settled.none_above_next (h : Settled w t) {i : ℕ} (hi : t.cp.qSegment.toNat + 1 < i) :
    w.file (.seg i) = none := by
  rcases h.above i (by omega) with hnone | ⟨rfl, -, -⟩
  · exact hnone
  · omega

/-- At most a row's worth of other bytes in the active segment, which has room. -/
theorem Settled.left_here (h : Settled w t) (hroom : t.cp.qOffset.toNat < 180000)
    (hothers : ∀ i, i ≠ t.cp.qSegment.toNat → w'.file (.seg i) = w.file (.seg i))
    (hhere : w'.file (.seg t.cp.qSegment.toNat) = w.file (.seg t.cp.qSegment.toNat) ∨
      ∃ junk : Data, junk.length ≤ 36 ∧ w'.file (.seg t.cp.qSegment.toNat) =
        some ((w.old (.seg t.cp.qSegment.toNat)).take t.cp.qOffset.toNat ++ junk)) :
    Settled w' t ∧ (w'.old (.seg t.cp.qSegment.toNat)).take t.cp.qOffset.toNat =
      (w.old (.seg t.cp.qSegment.toNat)).take t.cp.qOffset.toNat := by
  have habove : ∀ i, t.cp.qSegment.toNat < i → w'.file (.seg i) = none := fun i hi =>
    (hothers i hi.ne').trans (h.none_above hroom hi)
  rcases hhere with hsame | ⟨junk, hj, hjunk⟩
  · have hold : w'.old (.seg t.cp.qSegment.toNat) = w.old (.seg t.cp.qSegment.toNat) := by
      rw [World.old, hsame, World.old]
    refine ⟨⟨?_, ?_, fun hfull => by omega, fun i hi => .inl (habove i hi)⟩, ?_⟩
    · exact hold ▸ h.lower
    · exact hold ▸ h.upper
    · rw [hold]
  · have hold : w'.old (.seg t.cp.qSegment.toNat) =
        (w.old (.seg t.cp.qSegment.toNat)).take t.cp.qOffset.toNat ++ junk := by
      rw [World.old, hjunk, Option.getD_some]
    have htake : ((w.old (.seg t.cp.qSegment.toNat)).take t.cp.qOffset.toNat).length =
        t.cp.qOffset.toNat := List.length_take_of_le h.lower
    have hlen : (w'.old (.seg t.cp.qSegment.toNat)).length =
        t.cp.qOffset.toNat + junk.length := by
      rw [hold, List.length_append, htake]
    refine ⟨⟨by omega, by omega, fun hfull => by omega, fun i hi => .inl (habove i hi)⟩, ?_⟩
    rw [hold, List.take_left' htake]

/-- At most a row's worth of other bytes in the next segment, the active one being full. -/
theorem Settled.left_next (h : Settled w t) (hfull : 180000 ≤ t.cp.qOffset.toNat)
    (hothers : ∀ i, i ≠ t.cp.qSegment.toNat + 1 → w'.file (.seg i) = w.file (.seg i))
    (hnext : (w'.old (.seg (t.cp.qSegment.toNat + 1))).length ≤ 36) : Settled w' t := by
  have hold : w'.old (.seg t.cp.qSegment.toNat) = w.old (.seg t.cp.qSegment.toNat) := by
    rw [World.old, hothers _ (by omega), World.old]
  refine ⟨hold ▸ h.lower, hold ▸ h.upper, fun hfull => hold ▸ h.full hfull, fun i hi => ?_⟩
  by_cases hi' : i = t.cp.qSegment.toNat + 1
  · exact .inr ⟨hi', hfull, hi' ▸ hnext⟩
  · exact .inl ((hothers i hi').trans (h.none_above_next (by omega)))

/-- **An append to the active segment.** -/
theorem Settled.wp_append_here (h : Settled w t) (hrange : InRange q t)
    (hroom : t.cp.qOffset.toNat < 180000) :
    wp (sem E) (q.append t row) (fun r w' => Outcome w w' q r.1 t r.2 (QRow.kind.stamp row))
      (fun _ => True) w := by
  have hlower := h.lower
  have hupper := h.upper
  set b := w.old (.seg t.cp.qSegment.toNat)
  have hBlen : (b.take t.cp.qOffset.toNat).length = t.cp.qOffset.toNat :=
    List.length_take_of_le hlower
  have htarget : target t = (t.cp.qSegment.toNat, (b.take t.cp.qOffset.toNat).length) := by
    rw [target, Totalizer.queueOffsetOffset, if_neg (by rw [queueSegmentRows]; omega),
      Totalizer.queueOffsetSegment, hBlen]
  have htail : (b.drop t.cp.qOffset.toNat).length ≤ 36 := by
    rw [List.length_drop]
    omega
  refine wp_append_any htarget (List.take_append_drop _ _).symm htail
    (fun w1 w' q' h1 h' hleft => ?_) fun w1 w' t' h1 hrow h' hseg hoff hwrites => ?_
  · have hothers : ∀ i, i ≠ t.cp.qSegment.toNat → w'.file (.seg i) = w.file (.seg i) :=
      fun i hi => (h' i).trans (h1.others i hi)
    -- the file is as it was, or its confirmed bytes with something behind them
    have hhere : w'.file (.seg t.cp.qSegment.toNat) = w.file (.seg t.cp.qSegment.toNat) ∨
        ∃ junk : Data, junk.length ≤ 36 ∧ w'.file (.seg t.cp.qSegment.toNat) =
          some (b.take t.cp.qOffset.toNat ++ junk) := by
      rw [h']
      exact h1.tail
    obtain ⟨hsettled, hactive⟩ := h.left_here hroom hothers hhere
    refine .failed rfl ⟨hleft.checkpoint, hleft.unackedCount, fun i hi => hothers i hi.ne, hactive,
      failedWriteCount_succ hrange hleft⟩ hleft.ack hsettled fun hahead =>
      hahead.confirmedRows_eq (fun i hi => hothers i hi.ne) ?_
    refine hhere.imp_right fun hjunk => ⟨hroom, ?_⟩
    obtain ⟨junk, -, hjunk⟩ := hjunk
    exact ⟨junk, hjunk⟩
  · have hothers : ∀ i, i ≠ t.cp.qSegment.toNat → w'.file (.seg i) = w.file (.seg i) :=
      fun i hi => (h' i).trans (h1.others i hi)
    have hseg' : t'.cp.qSegment = t.cp.qSegment := hseg.trans UInt32.ofNat_toNat
    have hoff' : t'.cp.qOffset.toNat = t.cp.qOffset.toNat + 36 := by
      rw [hoff, hBlen]
      exact u32_ofNat (by omega)
    have hfile : w'.file (.seg t.cp.qSegment.toNat) = some (b.take t.cp.qOffset.toNat ++
        QRow.kind.bytes (QRow.kind.stamp row)) := (h' _).trans hrow
    have hlen : (w'.old (.seg t'.cp.qSegment.toNat)).length = t'.cp.qOffset.toNat := by
      rw [hseg', World.old, hfile, Option.getD_some, List.length_append, hBlen, hoff']
      exact congrArg _ (QRow.kind.length_bytes _)
    have hhigher : ∀ i, t'.cp.qSegment.toNat < i → w'.file (.seg i) = none := by
      intro i hi
      rw [hseg'] at hi
      exact (hothers i hi.ne').trans (h.none_above hroom hi)
    refine .stored (ne_of_writes hwrites) rfl (settled_start hlen hhigher)
      (confirmedBytes_here hlower (fun i hi => hothers i hi.ne) hfile hseg' hoff') fun hahead =>
      ⟨hahead.move_here hothers hseg' hoff' hlen.ge,
        hahead.append_here hroom hothers hfile hseg' hoff'⟩

/-- **An append that opens the next segment.** -/
theorem Settled.wp_append_next (h : Settled w t) (hrange : InRange q t)
    (hfull : 180000 ≤ t.cp.qOffset.toNat) :
    wp (sem E) (q.append t row) (fun r w' => Outcome w w' q r.1 t r.2 (QRow.kind.stamp row))
      (fun _ => True) w := by
  have hA : t.cp.qSegment.toNat + 1 < 2 ^ 32 := by
    have := t.cp.qSegment.toNat_lt
    have := hrange.1
    omega
  have hlen := h.full hfull
  have htarget : target t = (t.cp.qSegment.toNat + 1, ([] : Data).length) := by
    rw [target, Totalizer.queueOffsetOffset, if_pos (by rw [queueSegmentRows]; omega),
      Totalizer.queueOffsetSegment, u32_of_lt hA, List.length_nil]
  have hnext : (w.old (.seg (t.cp.qSegment.toNat + 1))).length ≤ 36 := by
    rcases h.above _ (Nat.lt_succ_self _) with hnone | ⟨-, -, hle⟩
    · rw [World.old, hnone]
      exact Nat.zero_le _
    · exact hle
  refine wp_append_any htarget (List.nil_append _).symm hnext
    (fun w1 w' q' h1 h' hleft => ?_) fun w1 w' t' h1 hrow h' hseg hoff hwrites => ?_
  · have hothers : ∀ i, i ≠ t.cp.qSegment.toNat + 1 → w'.file (.seg i) = w.file (.seg i) :=
      fun i hi => (h' i).trans (h1.others i hi)
    have hnext' : (w'.old (.seg (t.cp.qSegment.toNat + 1))).length ≤ 36 := by
      rw [World.old, h']
      rcases h1.tail with hsame | ⟨junk, hj, hjunk⟩
      · rw [hsame, ← World.old]
        exact hnext
      · rw [hjunk, Option.getD_some, List.nil_append]
        exact hj
    refine .failed rfl ⟨hleft.checkpoint, hleft.unackedCount, fun i hi => hothers i (by omega), ?_,
      failedWriteCount_succ hrange hleft⟩ hleft.ack (h.left_next hfull hothers hnext') fun hahead =>
      hahead.confirmedRows_eq (fun i hi => hothers i (by omega)) (.inl (hothers _ (by omega)))
    rw [World.old, hothers _ (by omega), World.old]
  · have hothers : ∀ i, i ≠ t.cp.qSegment.toNat + 1 → w'.file (.seg i) = w.file (.seg i) :=
      fun i hi => (h' i).trans (h1.others i hi)
    have hseg' : t'.cp.qSegment.toNat = t.cp.qSegment.toNat + 1 := by
      rw [hseg]
      exact u32_ofNat (by simpa using hA)
    have hoff' : t'.cp.qOffset.toNat = 36 := by
      rw [hoff]
      exact u32_ofNat (by simp)
    have hfile : w'.file (.seg (t.cp.qSegment.toNat + 1)) =
        some (QRow.kind.bytes (QRow.kind.stamp row)) := by
      rw [h', hrow, List.nil_append]
    have hlen' : (w'.old (.seg t'.cp.qSegment.toNat)).length = t'.cp.qOffset.toNat := by
      rw [hseg', World.old, hfile, Option.getD_some, hoff']
      exact QRow.kind.length_bytes _
    have hhigher : ∀ i, t'.cp.qSegment.toNat < i → w'.file (.seg i) = none := by
      intro i hi
      rw [hseg'] at hi
      exact (hothers i hi.ne').trans (h.none_above_next hi)
    refine .stored (ne_of_writes hwrites) rfl (settled_start hlen' hhigher)
      (confirmedBytes_next hlen (fun i hi => hothers i (by omega)) hfile hseg' hoff') fun hahead =>
      ⟨hahead.move_next hothers (fun hnone => ?_) hseg' hoff' hlen'.ge,
        hahead.append_next hfull hlen hothers hfile hseg' hoff'⟩
    rw [World.old, hnone, Option.getD_none, List.length_nil] at hlen
    omega

theorem Settled.wp_append (h : Settled w t) (hrange : InRange q t) :
    wp (sem E) (q.append t row) (fun r w' => Outcome w w' q r.1 t r.2 (QRow.kind.stamp row))
      (fun _ => True) w := by
  by_cases hfull : 180000 ≤ t.cp.qOffset.toNat
  · exact h.wp_append_next hrange hfull
  · exact h.wp_append_here hrange (by omega)

/-! ## A sequence of appends -/

/-- What the rows of the successful appends have added since the start. -/
structure Added (q0 : EventQueue) (t0 : Totalizer) (w0 : World ε) (rows : List QRow)
    (q : EventQueue) (t : Totalizer) (w : World ε) : Prop where
  settled : Settled w t
  ack : q.ack = q0.ack
  bytes : confirmedBytes w.file t = confirmedBytes w0.file t0 ++ QRow.codec.encAll rows
  rows : Ahead w0.file q0.ack t0 → Ahead w.file q.ack t ∧
    confirmedRows w.file q.ack t = confirmedRows w0.file q0.ack t0 ++ rows

theorem Appends.added {q0 : EventQueue} {t0 : Totalizer} {w0 : World ε} (h0 : Settled w0 t0)
    {rows : List QRow} (h : Appends E q0 t0 w0 rows q t w) : Added q0 t0 w0 rows q t w := by
  induction h with
  | start =>
    exact ⟨h0, rfl, (List.append_nil _).symm, fun hahead => ⟨hahead, (List.append_nil _).symm⟩⟩
  | @stored rows q q' t t' w w' row _ hrange hrun hne ih =>
    rcases (ih.settled.wp_append (E := E) hrange).runs hrun with
      ⟨ht, -, -, -, -⟩ | ⟨-, hack, hsettled, hbytes, hrows⟩
    · exact absurd ht hne
    · refine ⟨hsettled, hack.trans ih.ack, ?_, fun hahead => ?_⟩
      · rw [hbytes, ih.bytes, List.append_assoc, RowCodec.encAll_append, RowCodec.encAll_cons,
          RowCodec.encAll_nil, List.append_nil]
        rfl
      · obtain ⟨hahead, hold⟩ := ih.rows hahead
        rw [hack]
        obtain ⟨hahead', hnew⟩ := hrows hahead
        exact ⟨hahead', by rw [hnew, hold, List.append_assoc]⟩
  | @failed rows q q' t w w' row _ hrange hrun ih =>
    rcases (ih.settled.wp_append (E := E) hrange).runs hrun with
      ⟨-, halone, hack, hsettled, hrows⟩ | ⟨hne, -, -, -, -⟩
    · refine ⟨hsettled, hack.trans ih.ack, ?_, fun hahead => ?_⟩
      · rw [confirmedBytes_congr halone.closed halone.active, ih.bytes]
      · obtain ⟨hahead, hold⟩ := ih.rows hahead
        rw [hack, hrows hahead]
        refine ⟨⟨hahead.cursor_le, hahead.cursor, hahead.offset, hahead.behind, fun i h1 h2 => ?_,
          hsettled.lower⟩, hold⟩
        rw [halone.closed i h2]
        exact hahead.present i h1 h2
    · exact absurd rfl hne

/-- **Appends under injected faults.**  After any sequence of appends in range from a
state with nothing behind the confirmed bytes, the confirmed bytes are the initial
ones and then the rows of the successful appends, in order; where a reader's cursor is
at or before the write position with no segment missing, it meets the initial rows and
then those; and a further append that fails leaves everything confirmed alone. -/
theorem appends_exact (E : Env ε) (q0 : EventQueue) (t0 : Totalizer) (w0 : World ε)
    (hsize : (w0.old (.seg t0.cp.qSegment.toNat)).length = t0.cp.qOffset.toNat)
    (hhigher : ∀ i, t0.cp.qSegment.toNat < i → w0.file (.seg i) = none) (rows : List QRow)
    (q : EventQueue) (t : Totalizer) (w : World ε) (h : Appends E q0 t0 w0 rows q t w) :
    confirmedBytes w.file t = confirmedBytes w0.file t0 ++ QRow.codec.encAll rows ∧
      (Ahead w0.file q0.ack t0 →
        confirmedRows w.file q.ack t = confirmedRows w0.file q0.ack t0 ++ rows) ∧
      ∀ row q' w', InRange q t → Runs (sem E) (q.append t row) w (q', t) w' →
        LeftAlone w w' t q q' := by
  have hadded := h.added (settled_start hsize hhigher)
  refine ⟨hadded.bytes, fun hahead => (hadded.rows hahead).2, fun row q' w' hrange hrun => ?_⟩
  rcases (hadded.settled.wp_append (E := E) hrange).runs hrun with
    ⟨-, halone, -, -, -⟩ | ⟨hne, -, -, -, -⟩
  · exact halone
  · exact absurd rfl hne

end

/-- An append that fails to open the segment, and one that succeeds. -/
theorem appends_exact_firstRow :
    ∃ q t w, Appends Env.flaky unacknowledged (writingAt 0 0) fresh [QRow.kind.stamp firstRow]
        q t w ∧ confirmedBytes w.file t = firstRowBytes := by
  set s1 := execute (fun _ => true) (unacknowledged.append (writingAt 0 0) firstRow) fresh with h1
  have hsame : s1.1 = (s1.1.1, writingAt 0 0) := Prod.ext rfl (by rw [h1]; decide +kernel)
  have hrun1 : Runs (sem Env.flaky) (unacknowledged.append (writingAt 0 0) firstRow) fresh
      (s1.1.1, writingAt 0 0) s1.2 := hsame ▸ execute_runs_flaky _ _ _
  have hrun2 := execute_runs_flaky (fun _ => false) (s1.1.1.append (writingAt 0 0) firstRow) s1.2
  have happends : Appends Env.flaky unacknowledged (writingAt 0 0) fresh
      ([] ++ [QRow.kind.stamp firstRow]) _ _ _ :=
    .stored (.failed .start ⟨by decide, by decide⟩ hrun1)
      ⟨by decide, by rw [h1]; decide +kernel⟩ hrun2 (by rw [h1]; decide +kernel)
  have hexact := (appends_exact Env.flaky unacknowledged (writingAt 0 0) fresh (by rfl)
    (fun _ _ => rfl) _ _ _ _ happends).1
  refine ⟨_, _, _, happends, hexact.trans ?_⟩
  rw [List.nil_append, RowCodec.encAll_cons, RowCodec.encAll_nil, List.append_nil]
  rfl

/-- The confirmed bytes of the active segment are among the confirmed bytes. -/
theorem le_length_confirmedBytes {fs : Path → Option Data} {t : Totalizer}
    (h : t.cp.qOffset.toNat ≤ ((fs (.seg t.cp.qSegment.toNat)).getD []).length) :
    t.cp.qOffset.toNat ≤ (confirmedBytes fs t).length := by
  rw [confirmedBytes, List.length_append, List.length_take_of_le h]
  exact Nat.le_add_left _ _

/-- With the first segment active there are no others. -/
theorem length_confirmedBytes_first {fs : Path → Option Data} {t : Totalizer}
    (h : t.cp.qSegment = 0) : (confirmedBytes fs t).length ≤ t.cp.qOffset.toNat := by
  have hzero : t.cp.qSegment.toNat = 0 := congrArg UInt32.toNat h
  rw [confirmedBytes, hzero, List.range_zero, List.flatMap_nil, List.nil_append]
  exact List.length_take_le _ _

/-- The last segment number, full. -/
def lastSegmentFull : World Unit := fresh.set (.seg 4294967295) (some (List.replicate 180000 0))

theorem length_lastSegmentFull :
    (lastSegmentFull.old (.seg (writingAt 4294967295 180000).cp.qSegment.toNat)).length =
      (writingAt 4294967295 180000).cp.qOffset.toNat := by
  change (lastSegmentFull.old (.seg 4294967295)).length = 180000
  rw [World.old, lastSegmentFull, World.file_set, Function.update_self, Option.getD_some,
    List.length_replicate]

/-- The next append moves the write position to segment 0, and the confirmed bytes
are gone. -/
theorem rollover_wraps :
    (lastSegmentFull.old (.seg (writingAt 4294967295 180000).cp.qSegment.toNat)).length =
        (writingAt 4294967295 180000).cp.qOffset.toNat ∧
      (∀ i, 4294967295 < i → lastSegmentFull.file (.seg i) = none) ∧
      ∃ q t w, Runs (sem Env.calm)
          (unacknowledged.append (writingAt 4294967295 180000) firstRow) lastSegmentFull (q, t) w ∧
        t ≠ writingAt 4294967295 180000 ∧
        confirmedBytes w.file t ≠
          confirmedBytes lastSegmentFull.file (writingAt 4294967295 180000) ++
            QRow.codec.encAll [QRow.kind.stamp firstRow] := by
  obtain ⟨q, t, w, hrun, hne, hseg, hoff⟩ : ∃ q t w, Runs (sem Env.calm)
      (unacknowledged.append (writingAt 4294967295 180000) firstRow) lastSegmentFull (q, t) w ∧
        t ≠ writingAt 4294967295 180000 ∧ t.cp.qSegment = 0 ∧ t.cp.qOffset = 36 :=
    ⟨_, _, _, execute_runs _ _, by decide +kernel, by decide +kernel, by decide +kernel⟩
  refine ⟨length_lastSegmentFull, fun i hi => ?_, q, t, w, hrun, hne, fun h => ?_⟩
  · rw [lastSegmentFull, World.file_set, Function.update_of_ne (by simpa using hi.ne')]
    rfl
  · have hbefore : (writingAt 4294967295 180000).cp.qOffset.toNat ≤
        (confirmedBytes lastSegmentFull.file (writingAt 4294967295 180000)).length :=
      le_length_confirmedBytes length_lastSegmentFull.ge
    have hafter : (confirmedBytes w.file t).length ≤ t.cp.qOffset.toNat :=
      length_confirmedBytes_first hseg
    have h180000 : (writingAt 4294967295 180000).cp.qOffset.toNat = 180000 := by decide
    have h36 : t.cp.qOffset.toNat = 36 := congrArg UInt32.toNat hoff
    rw [h, List.length_append] at hafter
    omega

end EventQueue
end Device
end CovioFirmware
