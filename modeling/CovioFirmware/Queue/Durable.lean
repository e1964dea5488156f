import CovioFirmware.Queue.Routines

/-!
# The queue and the two records that describe it

The write position lives in the checkpoint and the cursor in the acknowledgement
record.  `Durable w cp ack log` says that `cp` and `ack` are the last completely
written records of the two pairs of slots and that the files are laid out for
them.  It is a statement about the flash alone, so it is what a power cut leaves
and what a boot starts from; while the device runs, the records in memory agree
with it up to the boot id (`Ram`).

Every routine of the queue keeps `Durable`, for the log as it was or for the log
with one more row, and a cut in the middle of it leaves one of the two.  A
completed write of the checkpoint is only known to be the last one while the
32-bit count has not come round (`Counted`), so the statements ask for that of the
state they are about.

`Durable` is made of three layers: that the two records are the last ones written
(`Coherent`), that the files are laid out for them (`Stored`), and that the number of
acknowledgement writes is bounded by the acknowledged seq, which only holds while
nothing but acknowledgements writes that record.
-/

namespace CovioFirmware
namespace Device

open Crash Bytes

/-- `cp` and `ack` are the last completely written records, and their numbers count
the writes. -/
structure Coherent {ε : Type} (w : World ε) (cp : Checkpoint) (ack : AckRec) : Prop where
  ckptLast : ckptSlots.Last w.file cp
  ackLast : ackSlots.Last w.file ack
  numbered : cp.writes.toNat ≤ w.flash.checkpoints
  ackNumbered : ack.writes.toNat ≤ w.flash.acks

/-- The flash is laid out for them. -/
structure Stored {ε : Type} (w : World ε) (cp : Checkpoint) (ack : AckRec) (log : List QRow) :
    Prop extends Coherent w cp ack where
  length : log.length ≤ w.flash.checkpoints
  laid : LaidOut w.file cp ack log

/-- The same where every write of the acknowledgement record has moved its seq, so that
the number of its writes is bounded by the seq. -/
structure Durable {ε : Type} (w : World ε) (cp : Checkpoint) (ack : AckRec) (log : List QRow) :
    Prop extends Stored w cp ack log where
  count : ack.writes.toNat ≤ ack.ackedSeq.toNat

/-- The checkpoint in memory is the stored one, under the present boot id. -/
structure Ram (c cp : Checkpoint) : Prop where
  writes : c.writes = cp.writes
  seq : c.seq = cp.seq
  segment : c.qSegment = cp.qSegment
  offset : c.qOffset = cp.qOffset

/-- A log no longer than the count keeps the segment ids within six digits. -/
theorem Layout.segment_lt {fs : Path → Option Data} {A O cs co : ℕ} {acked : UInt32}
    {log : List QRow} (h : Layout fs A O cs co acked log) (hlen : log.length < 2 ^ 32) :
    A + 1 < 10 ^ 6 := by
  have := h.lower
  omega

theorem Ram.refl (c : Checkpoint) : Ram c c := ⟨rfl, rfl, rfl, rfl⟩

variable {ε : Type} {E : Env ε} {w w' : World ε} {cp c : Checkpoint} {ack : AckRec}
  {log : List QRow}

theorem Ram.laid (h : Ram c cp) {fs : Path → Option Data} (hl : LaidOut fs cp ack log) :
    LaidOut fs c ack log := by
  rw [LaidOut, h.segment, h.offset]
  exact hl

theorem Ram.laid_symm (h : Ram c cp) {fs : Path → Option Data} (hl : LaidOut fs c ack log) :
    LaidOut fs cp ack log := by
  rw [LaidOut, ← h.segment, ← h.offset]
  exact hl

theorem Stored.segment_lt (h : Stored w cp ack log) (hc : w.flash.Counted) :
    cp.qSegment.toNat + 1 < 10 ^ 6 := h.laid.segment_lt (lt_of_le_of_lt h.length hc)

/-! ## Changes of the flash -/

theorem Coherent.sameSlots (h : Coherent w cp ack) (hw : SameSlots w w') : Coherent w' cp ack :=
  ⟨hw.slots (by simp [ckptSlots]) h.ckptLast, hw.slots (by simp [ackSlots]) h.ackLast,
    (checkpoints_congr hw.done).symm ▸ h.numbered, (acks_congr hw.done).symm ▸ h.ackNumbered⟩

theorem Stored.sameSlots (h : Stored w cp ack log) (hw : SameSlots w w')
    (hl : LaidOut w'.file cp ack log) : Stored w' cp ack log :=
  ⟨h.toCoherent.sameSlots hw, (checkpoints_congr hw.done).symm ▸ h.length, hl⟩

theorem Durable.sameSlots (h : Durable w cp ack log) (hw : SameSlots w w')
    (hl : LaidOut w'.file cp ack log) : Durable w' cp ack log :=
  ⟨h.toStored.sameSlots hw hl, h.count⟩

/-- Only the flash matters. -/
theorem Durable.of_flash (h : Durable w cp ack log) (hw : w'.flash = w.flash) :
    Durable w' cp ack log := by
  have hfile : w'.file = w.file := congrArg Flash.file hw
  exact ⟨⟨⟨hfile ▸ h.ckptLast, hfile ▸ h.ackLast, hw ▸ h.numbered, hw ▸ h.ackNumbered⟩,
    hw ▸ h.length, hfile ▸ h.laid⟩, h.count⟩

/-- A factory-fresh flash holds an empty log. -/
theorem Durable.fresh (e : ε) : Durable (⟨Flash.empty, e⟩ : World ε) Checkpoint.blank AckRec.blank [] :=
  ⟨⟨⟨.blank fun _ => rfl, .blank fun _ => rfl, Nat.zero_le _, Nat.zero_le _⟩, Nat.zero_le _,
    Layout.empty fun _ => rfl⟩, le_rfl⟩

/-- A checkpoint slot becomes unreadable while it is being written. -/
theorem Coherent.tearCkpt (h : Coherent w cp ack) (hr : c.writes = cp.writes) {x : Option Data}
    (hx : Unreadable (ckptSlots.path (slotOf (ckptSlots.writes c + 1))) x) :
    Coherent (w.set (ckptSlots.path (slotOf (ckptSlots.writes c + 1))) x) cp ack := by
  have hn : ckptSlots.writes (ckptSlots.next c) = ckptSlots.writes cp + 1 := by
    rw [Slots.writes_next]
    exact congrArg (· + 1) hr
  have hdone := World.done_set w (ckptSlots.path (slotOf (ckptSlots.writes c + 1))) x
  refine ⟨?_, h.ackLast.congr fun b => ?_, (checkpoints_congr hdone).symm ▸ h.numbered,
    (acks_congr hdone).symm ▸ h.ackNumbered⟩
  · rw [World.file_set, ← Slots.writes_next]
    rw [← Slots.writes_next] at hx
    exact Slots.Last.torn h.ckptLast hn hx
  · rw [World.file_set, Function.update_of_ne (by simp [ackSlots, ckptSlots])]

theorem Stored.tearCkpt (h : Stored w cp ack log) (hr : c.writes = cp.writes) {x : Option Data}
    (hx : Unreadable (ckptSlots.path (slotOf (ckptSlots.writes c + 1))) x) :
    Stored (w.set (ckptSlots.path (slotOf (ckptSlots.writes c + 1))) x) cp ack log := by
  have hdone := World.done_set w (ckptSlots.path (slotOf (ckptSlots.writes c + 1))) x
  refine ⟨h.toCoherent.tearCkpt hr hx, (checkpoints_congr hdone).symm ▸ h.length,
    h.laid.congr fun i => ?_⟩
  rw [World.file_set, Function.update_of_ne (by simp [ckptSlots])]

/-- A completed persist of a checkpoint. -/
abbrev World.persisted (w : World ε) (c : Checkpoint) : World ε :=
  w.write (ckptSlots.path (slotOf (ckptSlots.writes c + 1))) (ckptSlots.kind.bytes (ckptSlots.next c))

theorem Coherent.writes_succ (h : Coherent w cp ack) (hr : c.writes = cp.writes)
    (hc : (w.persisted c).flash.Counted) :
    (ckptSlots.next c).writes.toNat = cp.writes.toNat + 1 := by
  have hn : (ckptSlots.next c).writes = cp.writes + 1 := by
    rw [← hr]
    exact ckptSlots.writes_next c
  have hlt := h.numbered
  have hadd : (cp.writes + 1).toNat = (cp.writes.toNat + 1) % 2 ^ 32 := UInt32.toNat_add _ _
  rw [Flash.Counted, checkpoints_write] at hc
  rw [hn, hadd, Nat.mod_eq_of_lt (by omega)]

/-- A completed checkpoint write. -/
theorem Coherent.writeCkpt (h : Coherent w cp ack) (hr : c.writes = cp.writes)
    (hc : (w.persisted c).flash.Counted) :
    Coherent (w.persisted c) (ckptSlots.next c) ack := by
  have hsucc := h.writes_succ hr hc
  have hn : ckptSlots.writes (ckptSlots.next c) = ckptSlots.writes cp + 1 := by
    rw [Slots.writes_next]
    exact congrArg (· + 1) hr
  have hne : ckptSlots.writes (ckptSlots.next c) ≠ 0 := by
    intro hz
    have hz' : (ckptSlots.next c).writes.toNat = 0 := congrArg UInt32.toNat hz
    omega
  refine ⟨?_, h.ackLast.congr fun b => ?_, ?_, ?_⟩
  · rw [World.file_write, ← Slots.writes_next]
    exact Slots.Last.written h.ckptLast hn hne (ckptSlots.load_next c)
  · rw [World.file_write, Function.update_of_ne (by simp [ackSlots, ckptSlots])]
  · rw [hsucc, checkpoints_write]
    exact Nat.succ_le_succ h.numbered
  · rw [acks_write_ckpt]
    exact h.ackNumbered

/-- The same, for whatever log its position is right for. -/
theorem Stored.writeCkpt (h : Stored w cp ack log) (hr : c.writes = cp.writes)
    {log' : List QRow} (hl : LaidOut w.file c ack log') (hlen : log'.length ≤ log.length + 1)
    (hc : (w.persisted c).flash.Counted) :
    Stored (w.persisted c) (ckptSlots.next c) ack log' := by
  have hold := h.length
  refine ⟨h.toCoherent.writeCkpt hr hc, ?_, ?_⟩
  · rw [checkpoints_write]
    omega
  · have hl' : LaidOut w.file (ckptSlots.next c) ack log' := hl
    refine hl'.congr fun i => ?_
    rw [World.file_write, Function.update_of_ne (by simp [ckptSlots])]

/-- A slot of the acknowledgement record becomes unreadable while it is being
written. -/
theorem Coherent.tearAck (h : Coherent w cp ack) {a : AckRec} (ha : a.writes = ack.writes)
    {x : Option Data} (hx : Unreadable (ackSlots.path (slotOf (ackSlots.writes a + 1))) x) :
    Coherent (w.set (ackSlots.path (slotOf (ackSlots.writes a + 1))) x) cp ack := by
  have hn : ackSlots.writes (ackSlots.next a) = ackSlots.writes ack + 1 := by
    rw [Slots.writes_next]
    exact congrArg (· + 1) ha
  have hdone := World.done_set w (ackSlots.path (slotOf (ackSlots.writes a + 1))) x
  refine ⟨h.ckptLast.congr fun b => ?_, ?_, (checkpoints_congr hdone).symm ▸ h.numbered,
    (acks_congr hdone).symm ▸ h.ackNumbered⟩
  · rw [World.file_set, Function.update_of_ne (by simp [ackSlots, ckptSlots])]
  · rw [← Slots.writes_next] at hx ⊢
    rw [World.file_set]
    exact Slots.Last.torn h.ackLast hn hx

/-- A completed write of the acknowledgement record. -/
abbrev World.acknowledged (w : World ε) (a : AckRec) : World ε :=
  w.write (ackSlots.path (slotOf (ackSlots.writes a + 1))) (ackSlots.kind.bytes (ackSlots.next a))

/-- The number of a write of the acknowledgement record, as long as it does not come
round. -/
theorem AckRec.writes_next {a ack : AckRec} (ha : a.writes = ack.writes)
    (hwrap : ack.writes.toNat + 1 < 2 ^ 32) :
    (ackSlots.next a).writes.toNat = ack.writes.toNat + 1 := by
  have hn : (ackSlots.next a).writes = ack.writes + 1 := by
    rw [← ha]
    exact ackSlots.writes_next a
  rw [hn, UInt32.toNat_add]
  exact Nat.mod_eq_of_lt hwrap

theorem Coherent.writeAck (h : Coherent w cp ack) {a : AckRec} (ha : a.writes = ack.writes)
    (hwrap : ack.writes.toNat + 1 < 2 ^ 32) :
    Coherent (w.acknowledged a) cp (ackSlots.next a) := by
  have hsucc := AckRec.writes_next ha hwrap
  have hn : ackSlots.writes (ackSlots.next a) = ackSlots.writes ack + 1 := by
    rw [Slots.writes_next]
    exact congrArg (· + 1) ha
  have hne : ackSlots.writes (ackSlots.next a) ≠ 0 := by
    intro hz
    have hz' : (ackSlots.next a).writes.toNat = 0 := congrArg UInt32.toNat hz
    omega
  refine ⟨h.ckptLast.congr fun b => ?_, ?_, ?_, ?_⟩
  · rw [World.file_write, Function.update_of_ne (by simp [ackSlots, ckptSlots])]
  · rw [World.file_write, ← Slots.writes_next]
    exact Slots.Last.written h.ackLast hn hne (ackSlots.load_next a)
  · rw [checkpoints_write_ack]
    exact h.numbered
  · rw [hsucc, acks_write]
    exact Nat.succ_le_succ h.ackNumbered

/-! ## The routines -/

/-- The world in which `append` persists its checkpoint `c`: the row is in place,
and the layout holds for the old position and for the new one. -/
structure RowPlaced (w : World ε) (cp : Checkpoint) (ack : AckRec) (log : List QRow) (row : QRow)
    (c : Checkpoint) (w' : World ε) : Prop where
  slots : SameSlots w w'
  before : LaidOut w'.file cp ack log
  after : LaidOut w'.file c ack (log ++ [row])
  writes : c.writes = cp.writes
  seq : c.seq = cp.seq

/-- A checkpoint persist whose position may already be that of another log. -/
theorem Stored.wp_persist (hE : E.Reliable) {Q : Checkpoint → World ε → Prop}
    {C : World ε → Prop} (h : Stored w cp ack log) (hr : c.writes = cp.writes)
    (hC : ∀ w', Stored w' cp ack log → w'.flash.done = w.flash.done → w'.peer = w.peer → C w')
    (hnew : C (w.persisted c) ∧ Q (ckptSlots.next c) (w.persisted c)) :
    wp (sem E) (ckptSlots.persist c) Q C w := by
  refine Slots.wp_persist (hC w h rfl rfl) (fun x hx => hC _ (h.tearCkpt hr hx) ?_ rfl) hnew
    fun p d hf => absurd hf (hE _ _)
  exact World.done_set _ _ _

/-- The persist that confirms a row. -/
theorem RowPlaced.stored {w1 : World ε} {row : QRow} (hp : RowPlaced w cp ack log row c w1)
    (h : Stored w cp ack log) (hc : (w1.persisted c).flash.Counted) :
    Stored (w1.persisted c) (ckptSlots.next c) ack (log ++ [row]) := by
  have h1 : Stored w1 cp ack log := h.sameSlots hp.slots hp.before
  exact h1.writeCkpt hp.writes hp.after (by simp) hc

theorem RowPlaced.durable {w1 : World ε} {row : QRow} (hp : RowPlaced w cp ack log row c w1)
    (h : Durable w cp ack log) (hc : (w1.persisted c).flash.Counted) :
    Durable (w1.persisted c) (ckptSlots.next c) ack (log ++ [row]) :=
  ⟨hp.stored h.toStored hc, h.count⟩

/-- The write position moves forward. -/
theorem RowPlaced.segment_le {w1 : World ε} {row : QRow} (hp : RowPlaced w cp ack log row c w1) :
    cp.qSegment.toNat ≤ c.qSegment.toNat := by
  have h1 := hp.before.lower
  have h2 := hp.after.upper
  rw [List.length_append, List.length_singleton] at h2
  omega

/-- The row is in the segment the position is in. -/
theorem RowPlaced.behind {w1 : World ε} {row : QRow} (hp : RowPlaced w cp ack log row c w1) :
    5000 * c.qSegment.toNat < (log ++ [row]).length := by
  have hlow := hp.before.lower
  have hup := hp.before.upper
  have hlow' := hp.after.lower
  rw [List.length_append, List.length_singleton] at hlow' ⊢
  by_contra hc
  -- the position would be at the start of a segment that does not exist yet
  have hseg : c.qSegment.toNat = cp.qSegment.toNat + 1 := by omega
  rcases hp.after.rooted with hz | hfile
  · omega
  · have hnext := (hp.before.next (hseg ▸ hfile)).1
    omega

/-- The row that ends at the write position of the newest checkpoint. -/
def confirmedRow (fs : Path → Option Data) : Option QRow :=
  let cp := ckptSlots.recover fs
  (fs (.seg cp.qSegment.toNat)).bind fun b => QRow.codec.rowAt b (cp.qOffset.toNat - 36)

theorem Stored.confirmedRow_eq {row : QRow} (h : Stored w cp ack (log ++ [row]))
    (hpos : 5000 * cp.qSegment.toNat < (log ++ [row]).length) :
    confirmedRow w.file = some row := by
  rw [confirmedRow, h.ckptLast.recover]
  exact h.laid.last_row hpos

/-- A persist that leaves the position of the queue alone. -/
theorem Stored.repersist {seq : UInt32} (h : Stored w cp ack log)
    (hr : Ram c { cp with seq := seq }) (hc : (w.persisted c).flash.Counted) :
    Stored (w.persisted c) (ckptSlots.next c) ack log := by
  have hl : LaidOut w.file c ack log := by
    rw [LaidOut, hr.segment, hr.offset]
    exact h.laid
  exact h.writeCkpt hr.writes hl (by omega) hc

theorem Durable.repersist {seq : UInt32} (h : Durable w cp ack log)
    (hr : Ram c { cp with seq := seq }) (hc : (w.persisted c).flash.Counted) :
    Durable (w.persisted c) (ckptSlots.next c) ack log :=
  ⟨h.toStored.repersist hr hc, h.count⟩

/-- **`append`** leaves the log as it was or persists the checkpoint of the log
with the row: the one in memory at the new position. -/
theorem Stored.wp_append_placed (hE : E.Reliable) {q : EventQueue} {t : Totalizer} {row : QRow}
    {Q : EventQueue × Totalizer → World ε → Prop} {C : World ε → Prop}
    (h : Stored w cp ack log) (ht : Ram t.cp cp) (hcount : w.flash.Counted)
    (hC : ∀ w', Stored w' cp ack log → w'.flash.done = w.flash.done → w'.peer = w.peer → C w')
    (hnew : ∀ w1 seg off, RowPlaced w cp ack log (QRow.kind.stamp row)
        { t.cp with qSegment := seg, qOffset := off } w1 →
      C (w1.persisted { t.cp with qSegment := seg, qOffset := off }) ∧
      Q ({ q with unackedCount := q.unackedCount + 1 },
        { t with cp := ckptSlots.next { t.cp with qSegment := seg, qOffset := off } })
        (w1.persisted { t.cp with qSegment := seg, qOffset := off })) :
    wp (sem E) (q.append t row) Q C w := by
  have hA := h.segment_lt hcount
  refine LaidOut.wp_append hE (ht.laid h.laid) (by rw [ht.segment]; omega) (fun w' hs hl => ?_) ?_
  · exact hC w' (h.sameSlots hs (ht.laid_symm hl)) hs.done hs.peer
  · intro w1 seg off hs hold hafter
    have h1 : Stored w1 cp ack log := h.sameSlots hs (ht.laid_symm hold)
    have hplaced : RowPlaced w cp ack log (QRow.kind.stamp row)
        { t.cp with qSegment := seg, qOffset := off } w1 :=
      ⟨hs, ht.laid_symm hold, hafter, ht.writes, ht.seq⟩
    exact Totalizer.wp_persist (h1.wp_persist hE ht.writes
      (fun w' hw' hd hp => hC w' hw' (hd.trans hs.done) (hp.trans hs.peer))
      (hnew w1 seg off hplaced))

/-- The same for a caller who does not ask which checkpoint it is. -/
theorem Stored.wp_append (hE : E.Reliable) {q : EventQueue} {t : Totalizer} {row : QRow}
    {Q : EventQueue × Totalizer → World ε → Prop} {C : World ε → Prop}
    (h : Stored w cp ack log) (ht : Ram t.cp cp) (hcount : w.flash.Counted)
    (hC : ∀ w', Stored w' cp ack log → w'.flash.done = w.flash.done → w'.peer = w.peer → C w')
    (hnew : ∀ w1 c, RowPlaced w cp ack log (QRow.kind.stamp row) c w1 →
      C (w1.persisted c) ∧ Q ({ q with unackedCount := q.unackedCount + 1 },
        { t with cp := ckptSlots.next c }) (w1.persisted c)) :
    wp (sem E) (q.append t row) Q C w :=
  h.wp_append_placed hE ht hcount hC fun w1 _ _ hplaced => hnew w1 _ hplaced

theorem Durable.wp_append (hE : E.Reliable) {q : EventQueue} {t : Totalizer} {row : QRow}
    {Q : EventQueue × Totalizer → World ε → Prop} {C : World ε → Prop}
    (h : Durable w cp ack log) (ht : Ram t.cp cp) (hcount : w.flash.Counted)
    (hC : ∀ w', Durable w' cp ack log → w'.flash.done = w.flash.done → w'.peer = w.peer → C w')
    (hnew : ∀ w1 c, RowPlaced w cp ack log (QRow.kind.stamp row) c w1 →
      C (w1.persisted c) ∧ Q ({ q with unackedCount := q.unackedCount + 1 },
        { t with cp := ckptSlots.next c }) (w1.persisted c)) :
    wp (sem E) (q.append t row) Q C w :=
  h.toStored.wp_append hE ht hcount (fun w' hw' => hC w' ⟨hw', h.count⟩) hnew

/-- **`service`** moves the seq and the total, not the queue. -/
theorem Stored.wp_service (hE : E.Reliable) {t : Totalizer} {seq : UInt32}
    {Q : Totalizer → World ε → Prop} {C : World ε → Prop}
    (h : Stored w cp ack log) (ht : Ram t.cp cp)
    (hC : ∀ w', Stored w' cp ack log → w'.flash.done = w.flash.done → w'.peer = w.peer → C w')
    (hnew : ∀ c t', Ram c { cp with seq := seq } → t'.cp = ckptSlots.next c →
      C (w.persisted c) ∧ Q t' (w.persisted c)) :
    wp (sem E) (t.service seq) Q C w := by
  refine Totalizer.wp_service (hC w h rfl rfl) fun acc total => Totalizer.wp_persist ?_
  refine h.wp_persist hE ht.writes hC ?_
  exact hnew _ { t with
    accumulated := acc
    cp := ckptSlots.next { t.cp with total := total, seq := seq } }
    ⟨ht.writes, rfl, ht.segment, ht.offset⟩ rfl

theorem Durable.wp_service (hE : E.Reliable) {t : Totalizer} {seq : UInt32}
    {Q : Totalizer → World ε → Prop} {C : World ε → Prop}
    (h : Durable w cp ack log) (ht : Ram t.cp cp)
    (hC : ∀ w', Durable w' cp ack log → w'.flash.done = w.flash.done → w'.peer = w.peer → C w')
    (hnew : ∀ c t', Ram c { cp with seq := seq } → t'.cp = ckptSlots.next c →
      C (w.persisted c) ∧ Q t' (w.persisted c)) :
    wp (sem E) (t.service seq) Q C w :=
  h.toStored.wp_service hE ht (fun w' hw' => hC w' ⟨hw', h.count⟩) hnew

/-- No completed checkpoint write carries a segment above `n`. -/
def Flash.Past (f : Flash) (n : ℕ) : Prop :=
  ∀ b d, (Path.tot b, d) ∈ f.done → (ckptSlots.kind.ofBytes d).qSegment.toNat ≤ n

theorem Flash.Past.congr {f f' : Flash} {n : ℕ} (h : f.Past n) (hd : f'.done = f.done) :
    f'.Past n := fun b d hm => h b d (hd ▸ hm)

theorem Flash.Past.mono {f : Flash} {m n : ℕ} (h : f.Past m) (hmn : m ≤ n) : f.Past n :=
  fun b d hm => (h b d hm).trans hmn

theorem Flash.Past.persisted {n : ℕ} (h : w.flash.Past n) (hc : c.qSegment.toNat ≤ n) :
    (w.persisted c).flash.Past n := by
  intro b d hm
  rcases List.mem_cons.mp hm with hm | hm
  · rw [(Prod.mk.inj hm).2, ckptSlots.kind.ofBytes_bytes]
    exact hc
  · exact h b d hm

/-- What becomes of the acknowledgement record in a call of `ackThrough`. -/
def Acked (a a' : AckRec) (k : UInt32) : Prop := a' = a ∨ (a.ackedSeq < k ∧ a'.ackedSeq = k)

theorem Acked.le {a a' : AckRec} {k : UInt32} (h : Acked a a' k) : a.ackedSeq ≤ a'.ackedSeq := by
  rcases h with rfl | ⟨hlt, rfl⟩
  · exact UInt32.le_refl _
  · exact UInt32.le_of_lt hlt

/-- The flash keeps its checkpoint history. -/
structure SameCkpts (w w' : World ε) : Prop where
  checkpoints : w'.flash.checkpoints = w.flash.checkpoints
  past : ∀ n, w.flash.Past n → w'.flash.Past n
  peer : w'.peer = w.peer

theorem SameCkpts.of_done (hd : w'.flash.done = w.flash.done) (hp : w'.peer = w.peer) :
    SameCkpts w w' := ⟨checkpoints_congr hd, fun _ h => h.congr hd, hp⟩

/-- A write of the acknowledgement record. -/
theorem Coherent.wp_persistAck (hE : E.Reliable) {Q : AckRec → World ε → Prop}
    {C : World ε → Prop} (h : Coherent w cp ack) {a : AckRec} (ha : a.writes = ack.writes)
    (hC : ∀ w', Coherent w' cp ack → (∀ i, w'.file (.seg i) = w.file (.seg i)) →
      w'.flash.done = w.flash.done → w'.peer = w.peer → C w')
    (hnew : C (w.acknowledged a) ∧ Q (ackSlots.next a) (w.acknowledged a)) :
    wp (sem E) (ackSlots.persist a) Q C w := by
  refine Slots.wp_persist (hC w h (fun _ => rfl) rfl rfl) (fun x hx => ?_) hnew
    fun p d hf => absurd hf (hE _ _)
  refine hC _ (h.tearAck ha hx) (fun i => ?_) (World.done_set _ _ _) rfl
  rw [World.file_set, Function.update_of_ne (by simp [ackSlots])]

/-- **`ackThrough`** leaves the log as it is and moves the cursor over acknowledged
rows, as long as the count of the record's writes does not come round. -/
theorem Stored.wp_ackThrough (hE : E.Reliable) {q : EventQueue} {t : Totalizer}
    {k bootId : UInt32} {Q : EventQueue → World ε → Prop} {C : World ε → Prop}
    (h : Stored w cp ack log) (ht : Ram t.cp cp) (hq : q.ack = ack)
    (hwrap : ack.ackedSeq < k → ack.writes.toNat + 1 < 2 ^ 32)
    (hC : ∀ w' a', Stored w' cp a' log → Acked ack a' k →
      a'.writes.toNat ≤ ack.writes.toNat + 1 → SameCkpts w w' → C w')
    (hQ : ∀ w' q', Stored w' cp q'.ack log → Acked ack q'.ack k →
      q'.ack.writes.toNat ≤ ack.writes.toNat + 1 → SameCkpts w w' → Q q' w') :
    wp (sem E) (q.ackThrough t k bootId) Q C w := by
  subst hq
  have hself : SameCkpts w w := .of_done rfl rfl
  have hle : q.ack.writes.toNat ≤ q.ack.writes.toNat + 1 := Nat.le_succ _
  refine EventQueue.wp_ackThrough (hC w q.ack h (.inl rfl) hle hself)
    (fun _ => hQ w q h (.inl rfl) hle hself) fun hk seg off n hcur count => ?_
  obtain ⟨seg', off', n', hcur', hseg, hoff, -, hlaid⟩ := (ht.laid h.laid).ackCursor_eq hk
  rw [hcur] at hcur'
  simp only [Prod.mk.injEq] at hcur'
  obtain ⟨rfl, rfl, rfl⟩ := hcur'
  have hlt : seg < 2 ^ 32 := lt_of_le_of_lt hlaid.cursor_le t.cp.qSegment.toNat_lt
  set a := EventQueue.advanced q.ack k bootId seg off with ha
  have hs : (ackSlots.next a).cursorSegment.toNat = seg := u32_ofNat hlt
  have hco : (ackSlots.next a).cursorOffset.toNat = off := u32_ofNat (by omega)
  have hacked : Acked q.ack (ackSlots.next a) k := .inr ⟨hk, rfl⟩
  have hwrites : (ackSlots.next a).writes.toNat ≤ q.ack.writes.toNat + 1 :=
    (AckRec.writes_next (a := a) rfl (hwrap hk)).le
  -- the layout for the new cursor, in any world with the same segments
  have hnew : ∀ w' : World ε, (∀ i, w'.file (.seg i) = w.file (.seg i)) →
      LaidOut w'.file cp (ackSlots.next a) log := by
    intro w' hw'
    have hl : Layout w'.file cp.qSegment.toNat cp.qOffset.toNat seg off k log := by
      rw [← ht.segment, ← ht.offset]
      exact hlaid.congr hw'
    rw [LaidOut, hs, hco]
    exact hl
  refine h.toCoherent.wp_persistAck hE (a := a) rfl (fun w' hw' hsegs hd hp => ?_) ?_
  · exact hC w' q.ack ⟨hw', (checkpoints_congr hd).symm ▸ h.length, h.laid.congr hsegs⟩ (.inl rfl)
      hle (.of_done hd hp)
  · -- the advanced record is durable; now the segments it crossed go
    have hsegs : ∀ i, (w.acknowledged a).file (.seg i) = w.file (.seg i) := fun i => by
      rw [World.file_write, Function.update_of_ne (by simp [ackSlots])]
    have hckpts : SameCkpts w (w.acknowledged a) := by
      refine ⟨checkpoints_write_ack _ _ _, fun n hn b d hm => ?_, rfl⟩
      rcases List.mem_cons.mp hm with hm | hm
      · cases (Prod.mk.inj hm).1
      · exact hn b d hm
    have h1 : Stored (w.acknowledged a) cp (ackSlots.next a) log :=
      ⟨h.toCoherent.writeAck (a := a) rfl (hwrap hk), hckpts.checkpoints.symm ▸ h.length,
        hnew _ hsegs⟩
    have hend : ∀ w2, SameSlots (w.acknowledged a) w2 →
        (∀ i, w2.file (.seg i) = (w.acknowledged a).file (.seg i) ∨
          (w2.file (.seg i) = none ∧ i < seg)) →
        Stored w2 cp (ackSlots.next a) log ∧ SameCkpts w w2 := by
      intro w2 hs2 hrem
      refine ⟨h1.sameSlots hs2 (h1.laid.remove_dead fun i => (hrem i).imp_right fun hi => ?_),
        ⟨(checkpoints_congr hs2.done).trans hckpts.checkpoints, fun n hn => ?_,
          hs2.peer.trans hckpts.peer⟩⟩
      · exact ⟨hi.1, .inl (by rw [hs]; exact hi.2)⟩
      · exact (hckpts.past n hn).congr hs2.done
    refine ⟨hC _ _ h1 hacked hwrites hckpts, ?_⟩
    refine wp_mono (EventQueue.wp_removeAll (fun s => s < seg) _ (fun s hs' => ?_)
      (SameSlots.refl _) fun _ => .inl rfl) ?_ ?_
    · have := List.mem_range'_1.mp hs'
      omega
    · rintro _ w2 ⟨hs2, hrem⟩
      exact hQ w2 _ (hend w2 hs2 hrem).1 hacked hwrites (hend w2 hs2 hrem).2
    · rintro w2 ⟨hs2, hrem⟩
      exact hC w2 _ (hend w2 hs2 hrem).1 hacked hwrites (hend w2 hs2 hrem).2

/-- Where every write has moved the acknowledged seq, the count cannot come round: it
is at most that seq, and the next one is larger. -/
theorem Durable.wp_ackThrough (hE : E.Reliable) {q : EventQueue} {t : Totalizer}
    {k bootId : UInt32} {Q : EventQueue → World ε → Prop} {C : World ε → Prop}
    (h : Durable w cp ack log) (ht : Ram t.cp cp) (hq : q.ack = ack)
    (hC : ∀ w' a', Durable w' cp a' log → Acked ack a' k → SameCkpts w w' → C w')
    (hQ : ∀ w' q', Durable w' cp q'.ack log → Acked ack q'.ack k → SameCkpts w w' → Q q' w') :
    wp (sem E) (q.ackThrough t k bootId) Q C w := by
  have hold := h.count
  have hcount : ∀ a' : AckRec, Acked ack a' k → a'.writes.toNat ≤ ack.writes.toNat + 1 →
      a'.writes.toNat ≤ a'.ackedSeq.toNat := by
    rintro a' (rfl | ⟨hlt, hk⟩) hw
    · exact hold
    · have hlt' := UInt32.lt_iff_toNat_lt.mp hlt
      rw [hk]
      omega
  refine h.toStored.wp_ackThrough hE ht hq (fun hlt => ?_) (fun w' a' hw' ha hw hs => ?_)
    fun w' q' hw' ha hw hs => ?_
  · have hlt' := UInt32.lt_iff_toNat_lt.mp hlt
    have := k.toNat_lt
    omega
  · exact hC w' a' ⟨hw', hcount a' ha hw⟩ ha hs
  · exact hQ w' q' ⟨hw', hcount q'.ack ha hw⟩ ha hs

/-! ## Booting -/

/-- What a boot makes of the checkpoint: the recovered one stays in force, or is
written once more. -/
structure Resumed (w : World ε) (cp : Checkpoint) (w' : World ε) (cp' : Checkpoint) : Prop where
  writes : cp.writes.toNat ≤ cp'.writes.toNat
  seq : cp'.seq = cp.seq
  segment : cp'.qSegment = cp.qSegment
  offset : cp'.qOffset = cp.qOffset
  total : cp'.total = cp.total
  past : ∀ n, cp.qSegment.toNat ≤ n → w.flash.Past n → w'.flash.Past n
  peer : w'.peer = w.peer

theorem Resumed.refl (w : World ε) (cp : Checkpoint) : Resumed w cp w cp :=
  ⟨le_rfl, rfl, rfl, rfl, rfl, fun _ _ h => h, rfl⟩

theorem Resumed.of_done {w1 : World ε} {cp1 : Checkpoint} (h : Resumed w cp w1 cp1)
    (hd : w'.flash.done = w1.flash.done) (hp : w'.peer = w1.peer) : Resumed w cp w' cp1 :=
  ⟨h.writes, h.seq, h.segment, h.offset, h.total, fun n hn hw => (h.past n hn hw).congr hd,
    hp.trans h.peer⟩

/-- **`EventQueue::begin`** recovers the record of the last acknowledgement and
sweeps dead segments. -/
theorem Stored.wp_beginQueue {t : Totalizer} {Q : EventQueue × Totalizer → World ε → Prop}
    {C : World ε → Prop} (h : Stored w cp ack log) (ht : Ram t.cp cp)
    (hA : cp.qSegment.toNat + 1 < 10 ^ 6)
    (hC : ∀ w', SameSlots w w' → Stored w' cp ack log → C w')
    (hQ : ∀ w' q, SameSlots w w' → Stored w' cp ack log → q.ack = ack → Q (q, t) w') :
    wp (sem E) (EventQueue.begin t) Q C w := by
  refine EventQueue.wp_begin ?_
  rw [h.ackLast.recover]
  refine LaidOut.wp_cleanup (ht.laid h.laid) (ht.segment ▸ hA) (fun w' hs hl => ?_)
    fun w' hs hl => ?_
  · exact hC w' hs (h.sameSlots hs (ht.laid_symm hl))
  · exact hQ w' _ hs (h.sameSlots hs (ht.laid_symm hl)) rfl

/-- **`setup`** comes back with the last completely written records. -/
theorem Stored.wp_setup (hE : E.Reliable) {bootId : UInt32} {Q : Globals → World ε → Prop}
    {C : World ε → Prop} (h : Stored w cp ack log) (hcount : w.flash.Counted)
    (hC : ∀ w' cp', Resumed w cp w' cp' → Stored w' cp' ack log → C w')
    (hQ : ∀ w' cp' d, Resumed w cp w' cp' → Stored w' cp' ack log → Ram d.tot.cp cp' →
      d.q.ack = ack → d.seq = resumeSeqFloor cp.seq ack.ackedSeq → Q d w') :
    wp (sem E) (setup bootId) (fun d w' => w'.flash.Counted → Q d w')
      (fun w' => w'.flash.Counted → C w') w := by
  have hA := h.segment_lt hcount
  -- the second half, from the flash the first half leaves
  have hrest : ∀ w1 cp1 t, Resumed w cp w1 cp1 → Stored w1 cp1 ack log → Ram t.cp cp1 →
      wp (sem E) (EventQueue.begin t >>= fun r => .ret
        { tot := r.2, q := r.1, seq := resumeSeqFloor r.2.lastSeq r.1.ack.ackedSeq,
          bootId := bootId : Globals })
      (fun d w' => w'.flash.Counted → Q d w') (fun w' => w'.flash.Counted → C w') w1 := by
    intro w1 cp1 t hcp h1 ht
    refine wp_map (h1.wp_beginQueue ht (hcp.segment ▸ hA) (fun w' hs h' _ => ?_)
      fun w' q hs h' hq _ => ?_)
    · exact hC w' cp1 (hcp.of_done hs.done hs.peer) h'
    · refine hQ w' cp1 _ (hcp.of_done hs.done hs.peer) h' ht hq ?_
      rw [← hcp.seq, ← ht.seq, ← hq]
      rfl
  have hself := hC w cp (.refl w cp) h
  refine wp_bind (Totalizer.wp_begin (fun _ => hself) ?_)
  rw [h.ckptLast.recover]
  refine ⟨hrest w cp _ (.refl w cp) h ⟨rfl, rfl, rfl, rfl⟩, fun _ => Totalizer.wp_persist ?_⟩
  refine h.wp_persist hE rfl (fun w' h' hd hp _ => hC w' cp ((Resumed.refl w cp).of_done hd hp) h') ?_
  set c : Checkpoint := { cp with bootId := bootId } with hc
  have hwrite : (w.persisted c).flash.Counted →
      Stored (w.persisted c) (ckptSlots.next c) ack log ∧
        Resumed w cp (w.persisted c) (ckptSlots.next c) := by
    intro hcount
    have hl : LaidOut w.file c ack log := h.laid
    have hsucc := h.writes_succ (c := c) rfl hcount
    exact ⟨h.writeCkpt (c := c) rfl hl (by omega) hcount, by omega, rfl, rfl, rfl, rfl,
      fun n hn hw => hw.persisted hn, rfl⟩
  refine ⟨fun hU => hC _ _ (hwrite hU).2 (hwrite hU).1, wp_of_counted fun hU => ?_⟩
  exact hrest _ _ _ (hwrite hU).2 (hwrite hU).1 (.refl _)

theorem Durable.wp_setup (hE : E.Reliable) {bootId : UInt32} {Q : Globals → World ε → Prop}
    {C : World ε → Prop} (h : Durable w cp ack log) (hcount : w.flash.Counted)
    (hC : ∀ w' cp', Resumed w cp w' cp' → Durable w' cp' ack log → C w')
    (hQ : ∀ w' cp' d, Resumed w cp w' cp' → Durable w' cp' ack log → Ram d.tot.cp cp' →
      d.q.ack = ack → d.seq = resumeSeqFloor cp.seq ack.ackedSeq → Q d w') :
    wp (sem E) (setup bootId) (fun d w' => w'.flash.Counted → Q d w')
      (fun w' => w'.flash.Counted → C w') w :=
  h.toStored.wp_setup hE hcount (fun w' cp' hcp hw' => hC w' cp' hcp ⟨hw', h.count⟩)
    fun w' cp' d hcp hw' => hQ w' cp' d hcp ⟨hw', h.count⟩

/-! ## What a boot takes over from the checkpoint

This holds over any files, also where the checkpoint's slots are lost and the queue's
files are adopted. -/

/-- A routine that leaves the total and the seq alone. -/
structure SameCounts (t t' : Totalizer) : Prop where
  base : t'.base = t.base
  accumulated : t'.accumulated = t.accumulated
  total : t'.cp.total = t.cp.total
  seq : t'.cp.seq = t.cp.seq

theorem SameCounts.refl (t : Totalizer) : SameCounts t t := ⟨rfl, rfl, rfl, rfl⟩

theorem SameCounts.persist {t t' : Totalizer} (h : SameCounts t t') :
    t'.persist.Returns (SameCounts t) := by
  have hnext : (ckptSlots.persist t'.cp).Returns
      fun cp => cp.total = t'.cp.total ∧ cp.seq = t'.cp.seq := by
    intro r
    exact (⟨rfl, rfl⟩ : (ckptSlots.next t'.cp).total = t'.cp.total ∧
      (ckptSlots.next t'.cp).seq = t'.cp.seq)
  exact hnext.bind fun cp hcp =>
    ⟨h.base, h.accumulated, hcp.1.trans h.total, hcp.2.trans h.seq⟩

theorem EventQueue.begin_returns (t : Totalizer) :
    (EventQueue.begin t).Returns fun r => SameCounts t r.2 := by
  have hclean : ∀ ack, (EventQueue.cleanupOrphanSegments ack t).Returns (SameCounts t) := by
    intro ack names
    change Prog.Returns _ (if _ then _ else _)
    split
    · intro fs
      refine (Prog.Returns.trivial (EventQueue.adoptValidRows _ _ _ _)).bind fun adopted _ => ?_
      exact SameCounts.persist ⟨rfl, rfl, rfl, rfl⟩
    · exact (Prog.Returns.trivial _).bind fun _ _ => .refl t
  exact fun fs => (hclean _).bind fun t' ht' _ => ht'

/-- A boot starts from the recovered total, and hands out seqs behind the recovered and
the acknowledged one. -/
theorem wp_setup_resumes (bootId : UInt32) (w : World ε) :
    wp (sem E) (setup bootId) (fun d _ => d.tot.base = (ckptSlots.recover w.file).total ∧
      d.tot.accumulated = 0 ∧ d.tot.cp.total = (ckptSlots.recover w.file).total ∧
      d.seq = resumeSeqFloor (ckptSlots.recover w.file).seq d.q.ack.ackedSeq)
      (fun _ => True) w := by
  set c := ckptSlots.recover w.file
  have hrest : ∀ (t : Totalizer) (w' : World ε), t.base = c.total → t.accumulated = 0 →
      t.cp.total = c.total → t.cp.seq = c.seq →
      wp (sem E) (EventQueue.begin t >>= fun r => .ret
        { tot := r.2, q := r.1, seq := resumeSeqFloor r.2.lastSeq r.1.ack.ackedSeq,
          bootId := bootId : Globals })
        (fun d _ => d.tot.base = c.total ∧ d.tot.accumulated = 0 ∧ d.tot.cp.total = c.total ∧
          d.seq = resumeSeqFloor c.seq d.q.ack.ackedSeq) (fun _ => True) w' := by
    intro t w' hb ha ht hs
    refine Prog.Returns.wp ((EventQueue.begin_returns t).bind fun r hr => ?_) w'
    refine ⟨hr.base.trans hb, hr.accumulated.trans ha, hr.total.trans ht, ?_⟩
    rw [← hs, ← hr.seq]
    rfl
  refine wp_bind (Totalizer.wp_begin trivial ⟨hrest _ w rfl rfl rfl rfl, fun _ => ?_⟩)
  refine wp_mono ((SameCounts.refl _).persist.wp w) (fun t w' ht => ?_) fun _ _ => trivial
  exact hrest t w' ht.base ht.accumulated ht.total ht.seq

end Device
end CovioFirmware
