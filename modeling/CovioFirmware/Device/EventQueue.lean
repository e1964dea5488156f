import CovioFirmware.Device.Totalizer

/-!
# `queue.h`

The persistent telemetry queue.  Rows are appended to numbered segment files; the
write position (segment, offset) is part of the totalizer's checkpoint and moves
only after a row is on flash; the read cursor and the acknowledged seq are the
`AckRec`, which moves only on a confirmed acknowledgement.

Positions are natural numbers here.  The fields they are stored in are `uint32_t`
and are converted where the source converts them; the one sum a reader compares
with a limit, `off + sizeof(QRow)`, keeps its 32-bit wrap-around (`u32`).

The reading walks (`pendingWalk`, `ackWalk`, `countWalk`) are the nested loops of
the source with the number of remaining segments, and of remaining rows, as their
measure.
-/

namespace CovioFirmware
namespace Device

open Crash

/-- Conversion to `uint32_t`. -/
def u32 (n : ℕ) : ℕ := n % 2 ^ 32

theorem u32_of_lt {n : ℕ} (h : n < 2 ^ 32) : u32 n = n := Nat.mod_eq_of_lt h

/-- `QUEUE_SEGMENT_ROWS`. -/
def queueSegmentRows : ℕ := 5000

/-- `MAX_ORPHAN_CANDIDATES`. -/
def maxOrphanCandidates : ℕ := 32

/-- `QueueFailCode`. -/
inductive QueueFailCode where
  | none | segmentOpen | truncate | writeShort
  deriving DecidableEq

/-- The enumerator's value. -/
def QueueFailCode.value : QueueFailCode → UInt32
  | .none => 0
  | .segmentOpen => 1
  | .truncate => 2
  | .writeShort => 3

/-- The two slots of the acknowledgement record. -/
def ackSlots : Slots AckRec where
  kind := AckRec.kind
  path := .ack
  load := AckRec.kind.loadWhole
  zero := AckRec.blank
  writes := AckRec.writes
  setWrites r n := { r with writes := n }
  path_injective _ _ h := Path.ack.inj h
  unreadable_iff _ _ := Iff.rfl
  load_bytes _ h := AckRec.kind.loadWhole_bytes h
  writes_setWrites _ _ := rfl
  writes_stamp _ _ := rfl

/-- The two slots of the failure record. -/
def failSlots : Slots FailureState where
  kind := FailureState.kind
  path := .fail
  load := FailureState.kind.loadWhole
  zero := FailureState.blank
  writes := FailureState.writes
  setWrites r n := { r with writes := n }
  path_injective _ _ h := Path.fail.inj h
  unreadable_iff _ _ := Iff.rfl
  load_bytes _ h := FailureState.kind.loadWhole_bytes h
  writes_setWrites _ _ := rfl
  writes_stamp _ _ := rfl

/-- The object's members. -/
structure EventQueue where
  /-- `ack_`. -/
  ack : AckRec
  /-- `fail_`. -/
  fail : FailureState
  /-- `unackedCount_`. -/
  unackedCount : UInt32
  deriving DecidableEq

namespace EventQueue

/-! ## Persisting the two records of the queue -/

/-- `persistAck_`. -/
def persistAck (q : EventQueue) : Fw EventQueue := do
  let ack ← ackSlots.persist q.ack
  return { q with ack := ack }

/-- `persistFail_`. -/
def persistFail (q : EventQueue) : Fw EventQueue := do
  let fail ← failSlots.persist q.fail
  return { q with fail := fail }

/-- `recordWriteFailure_`. -/
def recordWriteFailure (q : EventQueue) (code : QueueFailCode) : Fw EventQueue := do
  let now ← Fw.millis
  let nowS := now / 1000
  persistFail { q with fail := { q.fail with
    firstFailureUptimeS :=
      if q.fail.failedWriteCount = 0 then nowS else q.fail.firstFailureUptimeS
    failedWriteCount := q.fail.failedWriteCount + 1
    lastFailureUptimeS := nowS
    lastErrorCode := code.value } }

/-! ## The regression scan -/

/-- How many of the rows in a buffer are intact before the first that is not. -/
def validPrefix (buf : Data) : ℕ :=
  ((QRow.codec.rowsIn buf 0 buf.length).takeWhile QRow.intact).length

/-- `adoptValidRows_`: the end of the run of intact rows from `off`, read in
chunks of 32 rows.  Every pass over the loop ends it or advances by a row. -/
def adoptValidRows (p : Path) (fileSize : ℕ) : ℕ → ℕ → Fw ℕ
  | 0, off => return off
  | fuel + 1, off =>
      if u32 (off + 36) ≤ fileSize then do
        let want := min (u32 (fileSize + 2 ^ 32 - off)) (36 * 32)
        let want := want - want % 36
        match ← Fw.readAt p off want with
        | none => return off
        | some buf =>
            if buf.length < 36 then return off
            else
              let n := buf.length / 36
              let m := validPrefix buf
              if m < n then return u32 (off + 36 * m)
              else adoptValidRows p fileSize fuel (u32 (off + 36 * n))
      else return off

/-! ## Appending -/

/-- The truncate guard of `append`: more than one row behind the confirmed offset
means the checkpoint went backwards, and the intact rows there are adopted. -/
def guardedOffset (p : Path) (goodOffset actualSize : ℕ) : Fw ℕ :=
  if 36 < actualSize - goodOffset then
    adoptValidRows p actualSize (actualSize / 36 + 1) goodOffset
  else return goodOffset

/-- The reconciliation of the file's size with the confirmed offset that `append`
makes before it writes: torn tails are cut off, an impossible offset is clamped.
`none` when the truncation failed. -/
def reconcile (p : Path) (goodOffset actualSize : ℕ) : Fw (Option ℕ) := do
  if goodOffset < actualSize then do
    let goodOffset ← guardedOffset p goodOffset actualSize
    if goodOffset < actualSize then do
      let ok ← Fw.truncateTo p goodOffset
      if ok then return some goodOffset else return none
    else return some goodOffset
  else return some actualSize

/-- The segment and offset `append` works at: the next segment once the active
one holds `QUEUE_SEGMENT_ROWS` confirmed rows. -/
def target (t : Totalizer) : ℕ × ℕ :=
  if queueSegmentRows * 36 ≤ t.queueOffsetOffset.toNat then
    (u32 (t.queueOffsetSegment.toNat + 1), 0)
  else (t.queueOffsetSegment.toNat, t.queueOffsetOffset.toNat)

/-- `append`. -/
def append (q : EventQueue) (t : Totalizer) (rowIn : QRow) : Fw (EventQueue × Totalizer) := do
  let row := QRow.kind.stamp rowIn
  let (activeSeg, goodOffset) := target t
  let path := Path.seg activeSeg
  match ← Fw.appendOpenSize path with
  | none => return (← recordWriteFailure q .segmentOpen, t)
  | some actualSize =>
      match ← reconcile path goodOffset actualSize with
      | none => return (← recordWriteFailure q .truncate, t)
      | some goodOffset =>
          match ← Fw.appendWrite path (QRow.kind.bytes row) with
          | none => return (← recordWriteFailure q .writeShort, t)
          | some written =>
              if written ≠ 36 then return (← recordWriteFailure q .writeShort, t)
              else do
                let t ← t.setQueueOffset (.ofNat activeSeg) (.ofNat (goodOffset + 36))
                return ({ q with unackedCount := q.unackedCount + 1 }, t)

/-! ## Reading -/

/-- How far a reader may read in a segment: the confirmed offset in the active
one, the whole file in a closed one. -/
def readLimit (activeSeg qOffset seg : ℕ) (b : Data) : ℕ :=
  if seg = activeSeg then qOffset else b.length

/-- The row loop of `pendingImpl_`: up to `room` intact rows above `ackedSeq`. -/
def pendingRows (ackedSeq : UInt32) (b : Data) (limit : ℕ) : ℕ → ℕ → ℕ → List QRow
  | 0, _, _ => []
  | fuel + 1, off, room =>
      if room ≠ 0 ∧ u32 (off + 36) ≤ limit then
        match QRow.codec.rowAt b off with
        | none => []
        | some r =>
            if r.intact ∧ ackedSeq < r.seq then
              r :: pendingRows ackedSeq b limit fuel (off + 36) (room - 1)
            else pendingRows ackedSeq b limit fuel (off + 36) room
      else []

/-- The segment loop of `pendingImpl_`. -/
def pendingWalk (fs : Path → Option Data) (ackedSeq : UInt32) (activeSeg qOffset : ℕ) :
    ℕ → ℕ → ℕ → ℕ → List QRow
  | 0, _, _, _ => []
  | fuel + 1, seg, off, room =>
      if room ≠ 0 ∧ seg ≤ activeSeg then
        match fs (.seg seg) with
        | none => []
        | some b =>
            let limit := readLimit activeSeg qOffset seg b
            let got := pendingRows ackedSeq b limit (b.length / 36 + 1) (min off limit) room
            if seg = activeSeg then got
            else got ++ pendingWalk fs ackedSeq activeSeg qOffset fuel (seg + 1) 0
              (room - got.length)
      else []

/-- `pending`: up to `maxN` unacknowledged rows from the cursor on. -/
def pending (fs : Path → Option Data) (q : EventQueue) (t : Totalizer) (maxN : ℕ) : List QRow :=
  let seg := q.ack.cursorSegment.toNat
  let activeSeg := t.queueOffsetSegment.toNat
  pendingWalk fs q.ack.ackedSeq activeSeg t.queueOffsetOffset.toNat (activeSeg + 1 - seg) seg
    q.ack.cursorOffset.toNat maxN

/-- The row loop of `computeUnackedCount_`. -/
def countRows (ackedSeq : UInt32) (b : Data) (limit : ℕ) : ℕ → ℕ → ℕ
  | 0, _ => 0
  | fuel + 1, off =>
      if u32 (off + 36) ≤ limit then
        match QRow.codec.rowAt b off with
        | none => 0
        | some r =>
            (if r.intact ∧ ackedSeq < r.seq then 1 else 0) +
              countRows ackedSeq b limit fuel (off + 36)
      else 0

/-- The segment loop of `computeUnackedCount_`. -/
def countWalk (fs : Path → Option Data) (ackedSeq : UInt32) (activeSeg qOffset : ℕ) :
    ℕ → ℕ → ℕ → ℕ
  | 0, _, _ => 0
  | fuel + 1, seg, off =>
      if seg ≤ activeSeg then
        match fs (.seg seg) with
        | none => 0
        | some b =>
            let limit := readLimit activeSeg qOffset seg b
            let n := countRows ackedSeq b limit (b.length / 36 + 1) (min off limit)
            if seg = activeSeg then n
            else n + countWalk fs ackedSeq activeSeg qOffset fuel (seg + 1) 0
      else 0

/-- `computeUnackedCount_`. -/
def computeUnackedCount (fs : Path → Option Data) (ack : AckRec) (t : Totalizer) : ℕ :=
  let seg := ack.cursorSegment.toNat
  let activeSeg := t.queueOffsetSegment.toNat
  countWalk fs ack.ackedSeq activeSeg t.queueOffsetOffset.toNat (activeSeg + 1 - seg) seg
    ack.cursorOffset.toNat

/-! ## Acknowledging -/

/-- The row loop of `ackThrough`: the offset of the first intact row above
`ackedSeq`, and the number of rows passed on the way. -/
def ackRows (ackedSeq : UInt32) (b : Data) (limit : ℕ) : ℕ → ℕ → ℕ × ℕ
  | 0, off => (off, 0)
  | fuel + 1, off =>
      if u32 (off + 36) ≤ limit then
        match QRow.codec.rowAt b off with
        | none => (off, 0)
        | some r =>
            if r.intact ∧ ackedSeq < r.seq then (off, 0)
            else
              let next := ackRows ackedSeq b limit fuel (off + 36)
              (next.1, next.2 + 1)
      else (off, 0)

/-- The segment loop of `ackThrough`: the new cursor and the number of rows
passed. -/
def ackWalk (fs : Path → Option Data) (ackedSeq : UInt32) (activeSeg qOffset : ℕ) :
    ℕ → ℕ → ℕ → ℕ → ℕ × ℕ × ℕ
  | 0, seg, off, consumed => (seg, off, consumed)
  | fuel + 1, seg, off, consumed =>
      if seg ≤ activeSeg then
        match fs (.seg seg) with
        | none => (seg, off, consumed)
        | some b =>
            let limit := readLimit activeSeg qOffset seg b
            let next := ackRows ackedSeq b limit (b.length / 36 + 1) (min off limit)
            if seg < activeSeg ∧ limit ≤ next.1 then
              ackWalk fs ackedSeq activeSeg qOffset fuel (seg + 1) 0 (consumed + next.2)
            else (seg, next.1, consumed + next.2)
      else (seg, off, consumed)

/-- Removing segment files one after another. -/
def removeAll : List ℕ → Fw Unit
  | [] => return ()
  | s :: l => do
      Fw.remove (.seg s)
      removeAll l

/-- The acknowledgement record `ackThrough` persists. -/
def advanced (ack : AckRec) (ackedSeq bootId : UInt32) (seg off : ℕ) : AckRec :=
  { ack with
    ackedSeq := ackedSeq, bootId := bootId
    cursorSegment := .ofNat seg, cursorOffset := .ofNat off }

/-- Where `ackThrough` moves the cursor, with the number of rows it passes. -/
def ackCursor (fs : Path → Option Data) (q : EventQueue) (t : Totalizer) (ackedSeq : UInt32) :
    ℕ × ℕ × ℕ :=
  let firstSeg := q.ack.cursorSegment.toNat
  let activeSeg := t.queueOffsetSegment.toNat
  ackWalk fs ackedSeq activeSeg t.queueOffsetOffset.toNat (activeSeg + 1 - firstSeg) firstSeg
    q.ack.cursorOffset.toNat 0

/-- `ackThrough`: move the cursor, persist it, then delete the segments it
crossed. -/
def ackThrough (q : EventQueue) (t : Totalizer) (ackedSeq bootId : UInt32) : Fw EventQueue := do
  if ackedSeq ≤ q.ack.ackedSeq then return q
  else do
    let firstSeg := q.ack.cursorSegment.toNat
    let fs ← Fw.files
    let (seg, off, consumed) := ackCursor fs q t ackedSeq
    let q ← persistAck { q with
      ack := advanced q.ack ackedSeq bootId seg off
      unackedCount :=
        if consumed ≤ q.unackedCount.toNat then q.unackedCount - .ofNat consumed else 0 }
    removeAll (List.range' firstSeg (seg - firstSeg))
    return q

/-! ## The operator's commands -/

/-- `recoverQueueStorage`: drop the first segment and start over at its beginning.
The backlog counter is left as it is. -/
def recoverQueueStorage (q : EventQueue) (t : Totalizer) : Fw (EventQueue × Totalizer) := do
  Fw.remove (.seg 0)
  let t ← t.setQueueOffset 0 0
  let q ← persistAck { q with ack := { q.ack with cursorSegment := 0, cursorOffset := 0 } }
  return (q, t)

/-- `resetAckToCurrentPosition`: everything up to the write position is abandoned. -/
def resetAckToCurrentPosition (q : EventQueue) (t : Totalizer) (currentSeq : UInt32) :
    Fw EventQueue :=
  persistAck { q with
    ack := { q.ack with
      ackedSeq := currentSeq
      cursorSegment := t.queueOffsetSegment, cursorOffset := t.queueOffsetOffset }
    unackedCount := 0 }

/-! ## Booting -/

/-- `cleanupOrphanSegments_`: adopt the highest segment when the checkpoint has
gone backwards, else delete what lies above the active segment or below the
cursor, at most `MAX_ORPHAN_CANDIDATES` files per boot. -/
def cleanupOrphanSegments (ack : AckRec) (t : Totalizer) : Fw Totalizer := do
  let activeSeg := t.queueOffsetSegment.toNat
  let names ← Fw.openDir
  let ids := names.filterMap parseSegmentId
  let maxSegSeen := ids.foldl max 0
  let deleteIds := (ids.filter fun id =>
    activeSeg < id || id < ack.cursorSegment.toNat).take maxOrphanCandidates
  if ids ≠ [] ∧ u32 (activeSeg + 1) < maxSegSeen then do
    let fs ← Fw.files
    let sz := ((fs (.seg maxSegSeen)).getD []).length
    let adopted ← adoptValidRows (.seg maxSegSeen) sz (sz / 36 + 1) 0
    t.setQueueOffset (.ofNat maxSegSeen) (.ofNat adopted)
  else do
    removeAll deleteIds
    return t

/-- `begin`: recover the acknowledgement record, reconcile the segments, recover
the failure record, count the backlog. -/
def begin (t : Totalizer) : Fw (EventQueue × Totalizer) := do
  let fs ← Fw.files
  let ack := ackSlots.recover fs
  let t ← cleanupOrphanSegments ack t
  let fs ← Fw.files
  let fail := failSlots.recover fs
  return ({ ack := ack, fail := fail, unackedCount := .ofNat (computeUnackedCount fs ack t) }, t)

/-- The record `ackThrough` persists: its count goes up by one and, like the old
one, stays at or below its acknowledged seq; so the count cannot wrap. -/
theorem next_advanced {a : AckRec} (hcount : a.writes.toNat ≤ a.ackedSeq.toNat)
    {ackedSeq : UInt32} (bootId : UInt32) {seg : ℕ} (off : ℕ) (hk : a.ackedSeq < ackedSeq)
    (hlt : seg < 2 ^ 32) :
    let a' := ackSlots.next (advanced a ackedSeq bootId seg off)
    a'.writes.toNat = a.writes.toNat + 1 ∧ a'.writes.toNat ≤ a'.ackedSeq.toNat ∧
      a'.cursorSegment.toNat = seg := by
  have hw : (ackSlots.next (advanced a ackedSeq bootId seg off)).writes = a.writes + 1 :=
    ackSlots.writes_next _
  have hk' : a.ackedSeq.toNat < ackedSeq.toNat := UInt32.lt_iff_toNat_lt.mp hk
  have hkl := ackedSeq.toNat_lt
  have hsucc : (a.writes + 1).toNat = a.writes.toNat + 1 := by
    rw [UInt32.toNat_add]
    change (a.writes.toNat + 1) % 2 ^ 32 = _
    rw [Nat.mod_eq_of_lt (by omega)]
  refine ⟨by rw [hw, hsucc], ?_, ?_⟩
  · rw [hw, hsucc]
    change _ ≤ ackedSeq.toNat
    omega
  · change (UInt32.ofNat seg).toNat = seg
    exact u32_ofNat (by simpa using hlt)

/-! ## Rules -/

section Rules

variable {ε : Type} {E : Env ε} {Q : EventQueue → World ε → Prop} {C : World ε → Prop}
  {w : World ε} {q : EventQueue}

theorem wp_persistAck
    (h : wp (sem E) (ackSlots.persist q.ack) (fun ack w' => Q { q with ack := ack } w') C w) :
    wp (sem E) q.persistAck Q C w := wp_map h

/-- Recording a failure persists the failure record with other contents, and one more
failure in them. -/
theorem wp_recordWriteFailure {code : QueueFailCode} (hC : C w)
    (h : ∀ fail, fail.writes = q.fail.writes →
      fail.failedWriteCount = q.fail.failedWriteCount + 1 →
      wp (sem E) (failSlots.persist fail) (fun fail' w' => Q { q with fail := fail' } w') C w) :
    wp (sem E) (q.recordWriteFailure code) Q C w :=
  wp_sense (by simp) hC fun _ => wp_map (h _ rfl rfl)

/-- `append` where the storage does not fail: open, reconcile, write, move the
checkpoint. -/
theorem wp_append (hE : E.Reliable) {t : Totalizer} {row : QRow}
    {Q : EventQueue × Totalizer → World ε → Prop} {seg off : ℕ} (htarget : target t = (seg, off))
    (hC : C w) (hopen : C (w.set (.seg seg) (some (w.old (.seg seg)))))
    (hrec : wp (sem E) (reconcile (.seg seg) off (w.old (.seg seg)).length)
      (fun good w1 => match good with
        | none => wp (sem E) (q.recordWriteFailure .truncate) (fun q' w' => Q (q', t) w') C w1
        | some good =>
            (∀ junk : Data, junk.length ≤ 36 →
              C (w1.set (.seg seg) (some (w1.old (.seg seg) ++ junk)))) ∧
            wp (sem E) (t.setQueueOffset (.ofNat seg) (.ofNat (good + 36)))
              (fun t' w' => Q ({ q with unackedCount := q.unackedCount + 1 }, t') w') C
              (w1.set (.seg seg) (some
                (w1.old (.seg seg) ++ QRow.kind.bytes (QRow.kind.stamp row)))))
      C (w.set (.seg seg) (some (w.old (.seg seg))))) :
    wp (sem E) (q.append t row) Q C w := by
  have hlen : (QRow.kind.bytes (QRow.kind.stamp row)).length = 36 := QRow.kind.length_bytes _
  simp only [append, htarget, Fw.appendOpenSize_bind, Fw.appendWrite_bind, Prog.pure_eq_ret]
  refine wp_appendOpenSize hC hopen ?_ fun hf => absurd hf (hE _ _)
  refine wp_bind_of (wp_ret_cut hrec) (fun _ hw => hw) fun good w1 ⟨hC1, h1⟩ => ?_
  cases good with
  | none => exact wp_map h1
  | some good =>
    refine wp_appendWrite hC1 (fun junk hj _ => h1.1 junk (hlen ▸ hj)) ?_
      (fun hf => absurd hf (hE _ _)) fun hf => absurd hf (hE _ _)
    rw [hlen]
    exact wp_map h1.2

/-- `ackThrough`: nothing for an old acknowledgement, else persist the advanced
record, then delete the segments the cursor crossed. -/
theorem wp_ackThrough {t : Totalizer} {ackedSeq bootId : UInt32} (hC : C w)
    (hold : ackedSeq ≤ q.ack.ackedSeq → Q q w)
    (hnew : q.ack.ackedSeq < ackedSeq → ∀ seg off consumed,
      ackCursor w.file q t ackedSeq = (seg, off, consumed) → ∀ count,
      wp (sem E) (ackSlots.persist (advanced q.ack ackedSeq bootId seg off))
        (fun ack w1 => wp (sem E) (removeAll (List.range' q.ack.cursorSegment.toNat
            (seg - q.ack.cursorSegment.toNat)))
          (fun _ w2 => Q { q with ack := ack, unackedCount := count } w2) C w1) C w) :
    wp (sem E) (q.ackThrough t ackedSeq bootId) Q C w := by
  simp only [ackThrough, Fw.files_bind, Prog.pure_eq_ret]
  by_cases hle : ackedSeq ≤ q.ack.ackedSeq
  · rw [if_pos hle]
    exact ⟨hC, hold hle⟩
  · rw [if_neg hle]
    refine wp_files ?_
    obtain ⟨⟨seg, off, consumed⟩, hcur⟩ : ∃ r, ackCursor w.file q t ackedSeq = r := ⟨_, rfl⟩
    simp only [hcur]
    refine wp_bind (wp_persistAck ?_)
    exact wp_mono (hnew (UInt32.not_le.mp hle) seg off consumed hcur _)
      (fun ack w1 h1 => wp_map h1) fun _ hw => hw

theorem wp_cleanupOrphanSegments {ack : AckRec} {t : Totalizer} {Q : Totalizer → World ε → Prop}
    (hC : C w)
    (h : ∀ names, List.Perm names w.flash.queueDir →
      let activeSeg := t.queueOffsetSegment.toNat
      let ids := names.filterMap parseSegmentId
      let maxSegSeen := ids.foldl max 0
      let sz := ((w.file (.seg maxSegSeen)).getD []).length
      ((ids ≠ [] ∧ u32 (activeSeg + 1) < maxSegSeen) →
        wp (sem E) (adoptValidRows (.seg maxSegSeen) sz (sz / 36 + 1) 0)
          (fun adopted w' => wp (sem E)
            (t.setQueueOffset (.ofNat maxSegSeen) (.ofNat adopted)) Q C w') C w) ∧
      (¬ (ids ≠ [] ∧ u32 (activeSeg + 1) < maxSegSeen) →
        wp (sem E) (removeAll ((ids.filter fun id =>
          activeSeg < id || id < ack.cursorSegment.toNat).take maxOrphanCandidates))
          (fun _ w' => Q t w') C w)) :
    wp (sem E) (cleanupOrphanSegments ack t) Q C w := by
  simp only [cleanupOrphanSegments, Fw.openDir_bind, Fw.files_bind, Prog.pure_eq_ret]
  refine wp_openDir hC fun names hn => ?_
  obtain ⟨hadopt, hdelete⟩ := h names hn
  split
  · next hc => exact wp_files (wp_bind (hadopt hc))
  · next hc => exact wp_map (hdelete hc)

/-- `begin` recovers the records before and after the reconciliation of the
segments. -/
theorem wp_begin {t : Totalizer} {Q : EventQueue × Totalizer → World ε → Prop}
    (h : wp (sem E) (cleanupOrphanSegments (ackSlots.recover w.file) t)
      (fun t' w' => Q (⟨ackSlots.recover w.file, failSlots.recover w'.file,
        .ofNat (computeUnackedCount w'.file (ackSlots.recover w.file) t')⟩, t') w') C w) :
    wp (sem E) (begin t) Q C w := by
  simp only [begin, Fw.files_bind, Prog.pure_eq_ret]
  refine wp_files (wp_bind_of (wp_ret_cut h) (fun _ hw => hw) fun t' w' hw => ?_)
  exact wp_files hw

end Rules

end EventQueue

end Device
end CovioFirmware
