import CovioFirmware.Queue.Filling

/-!
# After `recover_queue`

The operator's command drops segment 0 and moves the write position and the cursor to
its start.  Segments above it stay where they are, and a later boot takes them for
evidence that the checkpoint has gone backwards: it adopts the highest one, and what
is appended from then on lies behind a segment that does not exist
(`recovery_strands_rows`).

With no segment but the first, the command does yield an empty queue.  The history
value of a run is the list of the rows confirmed since the last completed recovery,
or nothing before the first one; `recovered_queue_exact` says that `pending` returns
exactly those of them that are above the acknowledged seq.  The recoveries of a run
may start from any flash whose two records are coherent, whatever the segments hold.

Unlike an acknowledgement, the command writes the acknowledgement record without
moving its seq, so the number of those writes is no longer bounded by the seq; the
runs are asked not to exhaust it.
-/

namespace CovioFirmware
namespace Device

open Crash EventQueue

/-- The device with the operator at the console, on a working file system. -/
def operatedMachine : Machine Call Call.Reply (World Unit) Globals UInt32 ConsoleOp where
  sem := sem Env.calm
  boot := setup
  op := ConsoleOp.run
  env _ _ := False

/-- The rows confirmed since the last completed recovery.  A reset of the cursor
abandons rows, and an interrupted recovery has to be repeated. -/
def sinceRecovery (a : Action UInt32 ConsoleOp) (n n' : Node Globals (World Unit))
    (log : Option (List QRow)) : Option (List QRow) :=
  match a, n' with
  | .op (.queue (.append row)), n' =>
      if n.store.flash.checkpoints < n'.store.flash.checkpoints then
        log.map (· ++ [QRow.kind.stamp row])
      else log
  | .op (.resetAck _), _ => none
  | .op .recoverQueue, .on _ _ => some []
  | .op .recoverQueue, .off _ => none
  | _, _ => log

/-- A recovery finds no segment but the first, and the count of the acknowledgement
record's writes does not come round. -/
def FirstOnly : Action UInt32 ConsoleOp → Node Globals (World Unit) → Option (List QRow) → Prop
  | .op .recoverQueue, n, _ =>
      (∀ i, 0 < i → n.store.file (.seg i) = none) ∧ n.store.flash.acks + 1 < 2 ^ 32
  | .op (.resetAck _), n, _ => n.store.flash.acks + 1 < 2 ^ 32
  | .op (.queue (.ackThrough _ _)), n, _ => n.store.flash.acks + 1 < 2 ^ 32
  | _, _, _ => True

/-- The states of the runs whose moves satisfy `ok`, from any flash with coherent
records, with the rows confirmed since the last recovery. -/
abbrev OperatedRuns
    (ok : Action UInt32 ConsoleOp → Node Globals (World Unit) → Option (List QRow) → Prop)
    (n : Node Globals (World Unit)) (log : Option (List QRow)) : Prop :=
  Reach operatedMachine ok sinceRecovery
    (fun n log => (∃ w cp ack, n = .off w ∧ Coherent w cp ack) ∧ log = none) n log

/-! ## The invariant -/

/-- The records are coherent, and since a recovery the flash is laid out for the rows
confirmed since. -/
def Resting (w : World Unit) : Option (List QRow) → Prop
  | none => ∃ cp ack, Coherent w cp ack
  | some log => ∃ cp ack, Stored w cp ack log

/-- The same with the records in memory. -/
def Operating (d : Globals) (w : World Unit) : Option (List QRow) → Prop
  | none => ∃ cp, Coherent w cp d.q.ack ∧ d.tot.cp.writes = cp.writes
  | some log => ∃ cp, Stored w cp d.q.ack log ∧ Ram d.tot.cp cp

theorem Resting.forget {w : World Unit} : ∀ {log : Option (List QRow)}, Resting w log →
    Resting w none
  | none, h => h
  | some _, ⟨cp, a, h⟩ => ⟨cp, a, h.toCoherent⟩

theorem Operating.forget {d : Globals} {w : World Unit} : ∀ {log : Option (List QRow)},
    Operating d w log → Operating d w none
  | none, h => h
  | some _, ⟨cp, h, hram⟩ => ⟨cp, h.toCoherent, hram.writes⟩

/-! ## The records, whatever the segments hold -/

/-- The checkpoint in memory carries the number of the last one written. -/
def InStep (t : Totalizer) (w : World Unit) (ack : AckRec) : Prop :=
  ∃ cp, Coherent w cp ack ∧ t.cp.writes = cp.writes

section

variable {w w' : World Unit} {t t' : Totalizer} {ack : AckRec} {cp : Checkpoint} {d : Globals}

theorem InStep.resting (h : InStep t w ack) : Resting w none :=
  ⟨_, ack, h.choose_spec.1⟩

theorem InStep.sameSlots (h : InStep t w ack) (hs : SameSlots w w') : InStep t w' ack := by
  obtain ⟨cp, hcoh, hwrites⟩ := h
  exact ⟨cp, hcoh.sameSlots hs, hwrites⟩

/-- A checkpoint write of whatever position. -/
theorem InStep.wp_persist (h : InStep t w ack) (hw : t'.cp.writes = t.cp.writes) :
    wp (sem Env.calm) t'.persist (fun t'' w' => w'.flash.Counted → InStep t'' w' ack)
      (fun w' => w'.flash.Counted → Resting w' none) w := by
  obtain ⟨cp, hcoh, hwrites⟩ := h
  have hr : t'.cp.writes = cp.writes := hw.trans hwrites
  refine Totalizer.wp_persist (Slots.wp_persist (fun _ => ⟨cp, ack, hcoh⟩)
    (fun x hx _ => ⟨cp, ack, hcoh.tearCkpt hr hx⟩) ⟨fun hc => ?_, fun hc => ?_⟩
    fun p x hf => hf.elim)
  · exact ⟨_, ack, hcoh.writeCkpt hr hc⟩
  · exact ⟨_, hcoh.writeCkpt hr hc, rfl⟩

/-- A write of the acknowledgement record with whatever cursor and seq. -/
theorem InStep.wp_persistAck {q : EventQueue} {a : AckRec} (h : InStep t w ack)
    (ha : a.writes = ack.writes) (hacks : w.flash.acks + 1 < 2 ^ 32) :
    wp (sem Env.calm) (persistAck { q with ack := a }) (fun q' w' => InStep t w' q'.ack)
      (fun w' => Resting w' none) w := by
  obtain ⟨cp, hcoh, hwrites⟩ := h
  have hwrap : ack.writes.toNat + 1 < 2 ^ 32 := by
    have := hcoh.ackNumbered
    omega
  refine EventQueue.wp_persistAck (hcoh.wp_persistAck Env.calm_reliable ha
    (fun w' hw' _ _ _ => ⟨cp, ack, hw'⟩) ⟨⟨cp, _, hcoh.writeAck ha hwrap⟩, ?_⟩)
  exact ⟨cp, hcoh.writeAck ha hwrap, hwrites⟩

/-- A failure record does not touch the two others. -/
theorem InStep.wp_recordWriteFailure {q : EventQueue} (h : InStep t w q.ack)
    (code : QueueFailCode) :
    wp (sem Env.calm) (q.recordWriteFailure code) (fun q' w' => InStep t w' q'.ack)
      (fun w' => Resting w' none) w := by
  obtain ⟨cp, hcoh, hwrites⟩ := h
  have hkept : ∀ w' : World Unit, (∀ p, (∀ b, p ≠ .fail b) → w'.file p = w.file p) →
      w.flash.checkpoints ≤ w'.flash.checkpoints → w.flash.acks ≤ w'.flash.acks →
      Coherent w' cp q.ack := fun w' hf hc ha =>
    ⟨hcoh.ckptLast.congr fun b => hf _ (by simp [ckptSlots]),
      hcoh.ackLast.congr fun b => hf _ (by simp [ackSlots]), hcoh.numbered.trans hc,
      hcoh.ackNumbered.trans ha⟩
  refine EventQueue.wp_recordWriteFailure ⟨cp, _, hcoh⟩ fun fail _ _ => ?_
  refine Slots.wp_persist ⟨cp, _, hcoh⟩ (fun x _ => ⟨cp, q.ack, hkept _ (fun p hp => ?_) ?_ ?_⟩) ?_
    fun p x hf => hf.elim
  · rw [World.file_set, Function.update_of_ne (show p ≠ failSlots.path _ from hp _)]
  · exact (checkpoints_congr (World.done_set _ _ _)).ge
  · exact (acks_congr (World.done_set _ _ _)).ge
  · have hwritten : Coherent (w.write (failSlots.path (slotOf (failSlots.writes fail + 1)))
        (failSlots.kind.bytes (failSlots.next fail))) cp q.ack := by
      refine hkept _ (fun p hp => ?_) (List.sublist_cons_self _ _).countP_le
        (List.sublist_cons_self _ _).countP_le
      rw [World.file_write, Function.update_of_ne (show p ≠ failSlots.path _ from hp _)]
    exact ⟨⟨cp, q.ack, hwritten⟩, cp, hwritten, hwrites⟩

theorem InStep.wp_append (h : InStep d.tot w d.q.ack) (row : QRow) :
    wp (sem Env.calm) (d.append row) (fun d' w' => w'.flash.Counted → Operating d' w' none)
      (fun w' => w'.flash.Counted → Resting w' none) w := by
  have hrest : ∀ {w' : World Unit}, SameSlots w w' → w'.flash.Counted → Resting w' none :=
    fun hs _ => (h.sameSlots hs).resting
  have hself := SameSlots.refl w
  -- a failure leaves the checkpoint as it is
  have hfail : ∀ code w', SameSlots w w' →
      wp (sem Env.calm) (d.q.recordWriteFailure code >>= fun q => .ret (q, d.tot))
        (fun r w' => w'.flash.Counted → Operating { d with q := r.1, tot := r.2 } w' none)
        (fun w' => w'.flash.Counted → Resting w' none) w' := by
    intro code w' hs
    refine wp_map (wp_mono ((h.sameSlots hs).wp_recordWriteFailure code)
      (fun _ _ h' _ => h') fun _ h' _ => h')
  refine wp_map ?_
  obtain ⟨⟨seg, off⟩, htarget⟩ : ∃ r, target d.tot = r := ⟨_, rfl⟩
  simp only [EventQueue.append, htarget, Fw.appendOpenSize_bind, Fw.appendWrite_bind,
    Prog.pure_eq_ret]
  have hopen := hself.set_seg seg (some (w.old (.seg seg)))
  refine wp_appendOpenSize (hrest hself) (hrest hopen) ?_ fun hf => hf.elim
  refine wp_bind_of (SegmentOnly.wp (segmentOnly_reconcile seg off _) hopen)
    (fun _ hs => hrest hs) fun good w1 hs1 => ?_
  cases good with
  | none => exact hfail _ _ hs1
  | some good =>
    refine wp_appendWrite (hrest hs1) (fun _ _ _ => hrest (hs1.set_seg seg _)) ?_
      (fun hf => hf.elim) fun hf => hf.elim
    have hlen : (QRow.kind.bytes (QRow.kind.stamp row)).length = 36 := QRow.kind.length_bytes _
    simp only [hlen, ne_eq, not_true, if_false]
    refine wp_map (wp_mono ((h.sameSlots (hs1.set_seg seg _)).wp_persist rfl) ?_ fun _ h' => h')
    exact fun t w' h' hc => h' hc

theorem InStep.wp_service (h : InStep d.tot w d.q.ack) (seq : UInt32) :
    wp (sem Env.calm) (QueueOp.run (.service seq) d)
      (fun d' w' => w'.flash.Counted → Operating d' w' none)
      (fun w' => w'.flash.Counted → Resting w' none) w := by
  refine wp_map (Totalizer.wp_service (fun _ => h.resting) fun acc total => ?_)
  exact h.wp_persist rfl

theorem InStep.wp_ackThrough (h : InStep d.tot w d.q.ack) (hacks : w.flash.acks + 1 < 2 ^ 32)
    (k bootId : UInt32) :
    wp (sem Env.calm) (d.ackThrough k bootId) (fun d' w' => Operating d' w' none)
      (fun w' => Resting w' none) w := by
  have hold : Operating d w none := h
  refine wp_map ?_
  simp only [EventQueue.ackThrough, Fw.files_bind, Prog.pure_eq_ret]
  by_cases hle : k ≤ d.q.ack.ackedSeq
  · rw [if_pos hle]
    exact ⟨h.resting, hold⟩
  · rw [if_neg hle]
    refine wp_files ?_
    obtain ⟨⟨seg, off, consumed⟩, hcur⟩ : ∃ r, ackCursor w.file d.q d.tot k = r := ⟨_, rfl⟩
    simp only [hcur]
    generalize (if consumed ≤ d.q.unackedCount.toNat then d.q.unackedCount - .ofNat consumed
      else 0) = count
    refine wp_bind (wp_mono (h.wp_persistAck (q := { d.q with unackedCount := count })
      (a := advanced d.q.ack k bootId seg off) rfl hacks) (fun q w1 h1 => ?_) fun _ h' => h')
    refine wp_map (wp_mono (SegmentOnly.wp (segmentOnly_removeAll _) (SameSlots.refl w1)) ?_ ?_)
    · exact fun _ w2 hs => h1.sameSlots hs
    · exact fun w2 hs => (h1.sameSlots hs).resting

theorem InStep.wp_resetAck (h : InStep d.tot w d.q.ack) (hacks : w.flash.acks + 1 < 2 ^ 32)
    (currentSeq : UInt32) :
    wp (sem Env.calm) (d.resetAckToCurrentPosition currentSeq)
      (fun d' w' => Operating d' w' none) (fun w' => Resting w' none) w :=
  wp_map (wp_mono (h.wp_persistAck (q := { d.q with unackedCount := 0 }) rfl hacks)
    (fun _ _ h' => h') fun _ h' => h')

/-- A boot takes the records as they are, whatever it does about the segments. -/
theorem Coherent.wp_setup (h : Coherent w cp ack) (bootId : UInt32) :
    wp (sem Env.calm) (setup bootId) (fun d w' => w'.flash.Counted → Operating d w' none)
      (fun w' => w'.flash.Counted → Resting w' none) w := by
  have hself : Resting w none := ⟨cp, ack, h⟩
  have hrest : ∀ (w1 : World Unit) t, InStep t w1 ack →
      wp (sem Env.calm) (EventQueue.begin t >>= fun r => .ret
        { tot := r.2, q := r.1, seq := resumeSeqFloor r.2.lastSeq r.1.ack.ackedSeq,
          bootId := bootId : Globals })
        (fun d w' => w'.flash.Counted → Operating d w' none)
        (fun w' => w'.flash.Counted → Resting w' none) w1 := by
    intro w1 t h1
    have hrec : ackSlots.recover w1.file = ack := h1.choose_spec.1.ackLast.recover
    have hself1 := SameSlots.refl w1
    refine wp_map (EventQueue.wp_begin ?_)
    rw [hrec]
    refine EventQueue.wp_cleanupOrphanSegments (fun _ => h1.resting) fun names _ =>
      ⟨fun _ => ?_, fun _ => ?_⟩
    · refine wp_mono (SegmentOnly.wp (segmentOnly_adoptValidRows _ _ _ _) hself1)
        (fun adopted w2 hs => ?_) fun w2 hs _ => (h1.sameSlots hs).resting
      exact wp_mono ((h1.sameSlots hs).wp_persist rfl) (fun _ _ h' => h') fun _ h' => h'
    · refine wp_mono (SegmentOnly.wp (segmentOnly_removeAll _) hself1)
        (fun _ w2 hs _ => ?_) fun w2 hs _ => (h1.sameSlots hs).resting
      exact h1.sameSlots hs
  refine wp_bind (Totalizer.wp_begin (fun _ => hself) ?_)
  rw [h.ckptLast.recover]
  have hstep : ∀ t : Totalizer, t.cp.writes = cp.writes → InStep t w ack := fun t ht =>
    ⟨cp, h, ht⟩
  refine ⟨hrest w _ (hstep _ rfl), fun _ => Totalizer.wp_persist ?_⟩
  refine Slots.wp_persist (fun _ => hself) (fun x hx _ => ⟨cp, ack, h.tearCkpt rfl hx⟩)
    ⟨fun hc => ⟨_, ack, h.writeCkpt rfl hc⟩, wp_of_counted fun hc => ?_⟩ fun p x hf => hf.elim
  exact hrest _ _ ⟨_, h.writeCkpt rfl hc, rfl⟩

/-- What a completed recovery leaves: both positions at the start of segment 0, which
is gone, and every other segment as it was. -/
structure Emptied (q : EventQueue) (w : World Unit) (d' : Globals) (w' : World Unit) : Prop where
  records : ∃ cp, Coherent w' cp d'.q.ack ∧ Ram d'.tot.cp cp
  segment : d'.tot.cp.qSegment = 0
  offset : d'.tot.cp.qOffset = 0
  cursorSegment : d'.q.ack.cursorSegment = 0
  cursorOffset : d'.q.ack.cursorOffset = 0
  ackedSeq : d'.q.ack.ackedSeq = q.ack.ackedSeq
  first : w'.file (.seg 0) = none
  others : ∀ i, 0 < i → w'.file (.seg i) = w.file (.seg i)

/-- **`recoverQueueStorage`**, on any coherent records. -/
theorem InStep.wp_recoverQueueStorage (h : InStep d.tot w d.q.ack)
    (hwrap : d.q.ack.writes.toNat + 1 < 2 ^ 32) :
    wp (sem Env.calm) d.recoverQueueStorage
      (fun d' w' => w'.flash.checkpoints = w.flash.checkpoints + 1 ∧
        (w'.flash.Counted → Emptied d.q w d' w'))
      (fun w' => w'.flash.Counted → Resting w' none) w := by
  have hremoved := (SameSlots.refl w).set_seg 0 none
  obtain ⟨cp, hcoh, hwrites⟩ := h.sameSlots hremoved
  set c : Checkpoint := { d.tot.cp with qSegment := 0, qOffset := 0 } with hc
  set a : AckRec := { d.q.ack with cursorSegment := 0, cursorOffset := 0 } with ha
  have hr : c.writes = cp.writes := hwrites
  refine wp_map ?_
  simp only [EventQueue.recoverQueueStorage, Fw.remove_bind, Prog.pure_eq_ret]
  refine wp_remove (fun _ => h.resting) (wp_bind (Totalizer.wp_persist ?_))
  set w1 := (w.set (.seg 0) none).persisted c with hw1
  have hgrew : w1.flash.checkpoints = w.flash.checkpoints + 1 := by
    rw [hw1, checkpoints_write, checkpoints_congr hremoved.done]
  have hcoh1 : w1.flash.Counted → Coherent w1 (ckptSlots.next c) d.q.ack := fun hcount =>
    hcoh.writeCkpt hr hcount
  have hcut1 : w1.flash.Counted → Resting w1 none := fun hcount => ⟨_, _, hcoh1 hcount⟩
  refine Slots.wp_persist (r := c) (fun _ => ⟨cp, _, hcoh⟩)
    (fun x hx _ => ⟨cp, _, hcoh.tearCkpt hr hx⟩) ⟨hcut1, ?_⟩ fun p x hf => hf.elim
  refine wp_map (EventQueue.wp_persistAck ?_)
  -- the acknowledgement record, from a world whose count may have come round
  have hsame : ∀ {w' : World Unit}, w'.flash.done = w1.flash.done → w'.flash.Counted →
      w1.flash.Counted := fun hd hcount => by rwa [Flash.Counted, ← checkpoints_congr hd]
  have hback : (w1.acknowledged a).flash.checkpoints = w1.flash.checkpoints :=
    checkpoints_write_ack _ _ _
  have hcounted : (w1.acknowledged a).flash.Counted → w1.flash.Counted := fun hcount => by
    rwa [Flash.Counted, ← hback]
  have hcoh2 : (w1.acknowledged a).flash.Counted →
      Coherent (w1.acknowledged a) (ckptSlots.next c) (ackSlots.next a) := fun hcount =>
    (hcoh1 (hcounted hcount)).writeAck rfl hwrap
  refine Slots.wp_persist (r := a) hcut1 (fun x hx hcount => ?_)
    ⟨fun hcount => ⟨_, _, hcoh2 hcount⟩, hback.trans hgrew, fun hcount => ?_⟩
    fun p x hf => hf.elim
  · exact ⟨_, _, (hcoh1 (hsame (World.done_set _ _ _) hcount)).tearAck rfl hx⟩
  · have hfile : ∀ i, (w1.acknowledged a).file (.seg i) =
        (w.set (.seg 0) none).file (.seg i) := fun i => by
      rw [World.file_write, Function.update_of_ne (by simp [ackSlots]), hw1, World.file_write,
        Function.update_of_ne (by simp [ckptSlots])]
    refine ⟨⟨_, hcoh2 hcount, .refl _⟩, rfl, rfl, rfl, rfl, rfl, ?_, fun i hi => ?_⟩
    · rw [hfile, World.file_set, Function.update_self]
    · rw [hfile, World.file_set, Function.update_of_ne (by simpa using hi.ne')]

/-- **A recovery with no segment but the first** leaves a queue laid out for no row. -/
theorem InStep.wp_recoverQueue (h : InStep d.tot w d.q.ack)
    (hothers : ∀ i, 0 < i → w.file (.seg i) = none) (hacks : w.flash.acks + 1 < 2 ^ 32) :
    wp (sem Env.calm) d.recoverQueueStorage
      (fun d' w' => w'.flash.Counted → Operating d' w' (some []))
      (fun w' => w'.flash.Counted → Resting w' none) w := by
  have hwrap : d.q.ack.writes.toNat + 1 < 2 ^ 32 := by
    have := h.choose_spec.1.ackNumbered
    omega
  refine wp_mono (h.wp_recoverQueueStorage hwrap) (fun d' w' ⟨_, hpost⟩ hcount => ?_) fun _ h' => h'
  obtain ⟨⟨cp, hcoh, hram⟩, hseg, hoff, hcs, hco, -, hfirst, hrest⟩ := hpost hcount
  refine ⟨cp, ⟨hcoh, Nat.zero_le _, hram.laid_symm ?_⟩, hram⟩
  rw [LaidOut, hseg, hoff, hcs, hco]
  refine Layout.empty fun i => ?_
  rcases Nat.eq_zero_or_pos i with rfl | hi
  · exact hfirst
  · rw [hrest i hi]
    exact hothers i hi

end

/-! ## Since the recovery -/

section

variable {w : World Unit} {d : Globals} {log : List QRow}

theorem sinceRecovery_kept {row : QRow} {n n' : Node Globals (World Unit)}
    {log : Option (List QRow)} (h : n'.store.flash.done = n.store.flash.done) :
    sinceRecovery (.op (.queue (.append row))) n n' log = log := by
  refine if_neg ?_
  rw [checkpoints_congr h]
  exact lt_irrefl _

theorem sinceRecovery_written {row : QRow} {n n' : Node Globals (World Unit)}
    (h : n'.store.flash.checkpoints = n.store.flash.checkpoints + 1) :
    sinceRecovery (.op (.queue (.append row))) n n' (some log) =
      some (log ++ [QRow.kind.stamp row]) := by
  refine if_pos ?_
  rw [h]
  exact Nat.lt_succ_self _

theorem sinceRecovery_none {row : QRow} {n n' : Node Globals (World Unit)} :
    sinceRecovery (.op (.queue (.append row))) n n' none = none := ite_self _

theorem Operating.wp_append (h : Operating d w (some log)) (hcount : w.flash.Counted) (row : QRow) :
    wp (sem Env.calm) (d.append row)
      (fun d' w' => w'.flash.Counted → Operating d' w'
        (sinceRecovery (.op (.queue (.append row))) (.on d w) (.on d' w') (some log)))
      (fun w' => w'.flash.Counted → Resting w'
        (sinceRecovery (.op (.queue (.append row))) (.on d w) (.off w') (some log))) w := by
  obtain ⟨cp, hst, hram⟩ := h
  refine wp_map (hst.wp_append Env.calm_reliable hram hcount (fun w' hw' hdone _ _ => ?_)
    fun w1 c hplaced => ?_)
  · rw [sinceRecovery_kept (by exact hdone)]
    exact ⟨cp, d.q.ack, hw'⟩
  · have hgrew : (w1.persisted c).flash.checkpoints = w.flash.checkpoints + 1 := by
      rw [checkpoints_write, checkpoints_congr hplaced.slots.done]
    rw [sinceRecovery_written (by exact hgrew), sinceRecovery_written (by exact hgrew)]
    exact ⟨fun hc => ⟨_, _, hplaced.stored hst hc⟩, fun hc => ⟨_, hplaced.stored hst hc, .refl _⟩⟩

theorem Operating.wp_service (h : Operating d w (some log)) (seq : UInt32) :
    wp (sem Env.calm) (QueueOp.run (.service seq) d)
      (fun d' w' => w'.flash.Counted → Operating d' w' (some log))
      (fun w' => w'.flash.Counted → Resting w' (some log)) w := by
  obtain ⟨cp, hst, hram⟩ := h
  refine wp_map (hst.wp_service Env.calm_reliable hram (fun w' hw' _ _ _ => ⟨cp, d.q.ack, hw'⟩)
    fun c t' hc ht' => ⟨fun hcount => ⟨_, _, hst.repersist hc hcount⟩, fun hcount => ?_⟩)
  exact ⟨_, hst.repersist hc hcount, ht' ▸ .refl _⟩

theorem Operating.wp_ackThrough (h : Operating d w (some log)) (hacks : w.flash.acks + 1 < 2 ^ 32)
    (k bootId : UInt32) :
    wp (sem Env.calm) (d.ackThrough k bootId) (fun d' w' => Operating d' w' (some log))
      (fun w' => Resting w' (some log)) w := by
  obtain ⟨cp, hst, hram⟩ := h
  refine wp_map (hst.wp_ackThrough Env.calm_reliable hram rfl (fun _ => ?_)
    (fun w' a' hw' _ _ _ => ⟨cp, a', hw'⟩) fun w' q' hw' _ _ _ => ⟨cp, hw', hram⟩)
  have := hst.ackNumbered
  omega

theorem Stored.wp_setup_operating {cp : Checkpoint} {ack : AckRec} (h : Stored w cp ack log)
    (hcount : w.flash.Counted) (bootId : UInt32) :
    wp (sem Env.calm) (setup bootId) (fun d w' => w'.flash.Counted → Operating d w' (some log))
      (fun w' => w'.flash.Counted → Resting w' (some log)) w :=
  h.wp_setup Env.calm_reliable hcount (fun _ cp' _ hw' => ⟨cp', ack, hw'⟩)
    fun _ cp' _ _ hw' hram hack _ => ⟨cp', hack.symm ▸ hw', hram⟩

end

/-- **The invariant holds in every state of every such run.** -/
theorem OperatedRuns.holds {n : Node Globals (World Unit)} {log : Option (List QRow)}
    (h : OperatedRuns FirstOnly n log) :
    n.Holds (fun w log => w.flash.Counted → Resting w log)
      (fun d w log => w.flash.Counted → Operating d w log) log := by
  refine Reach.invariant ?_ ?_ ?_ (fun _ _ _ _ (he : False) => he.elim) h
  · rintro n log ⟨⟨w, cp, ack, rfl, hcoh⟩, rfl⟩ _
    exact ⟨cp, ack, hcoh⟩
  · intro bootId w log _ hw
    refine wp_of_counted fun hc => ?_
    cases log with
    | none =>
      obtain ⟨cp, ack, hcoh⟩ := hw hc
      exact hcoh.wp_setup bootId
    | some log =>
      obtain ⟨cp, ack, hst⟩ := hw hc
      exact hst.wp_setup_operating hc bootId
  · intro i d w log hok hw
    refine wp_of_counted fun hc => ?_
    have hop := hw hc
    have hstep : InStep d.tot w d.q.ack := hop.forget
    cases i with
    | recoverQueue => exact hstep.wp_recoverQueue hok.1 hok.2
    | resetAck currentSeq =>
      exact wp_mono (hstep.wp_resetAck hok currentSeq) (fun _ _ h' _ => h') fun _ h' _ => h'
    | queue i =>
      cases log with
      | none =>
        cases i with
        | append row =>
          simp only [sinceRecovery_none]
          exact hstep.wp_append row
        | service seq => exact hstep.wp_service seq
        | ackThrough k bootId =>
          exact wp_mono (hstep.wp_ackThrough hok k bootId) (fun _ _ h' _ => h') fun _ h' _ => h'
      | some log =>
        cases i with
        | append row => exact hop.wp_append hc row
        | service seq => exact hop.wp_service seq
        | ackThrough k bootId =>
          exact wp_mono (hop.wp_ackThrough hok k bootId) (fun _ _ h' _ => h') fun _ h' _ => h'

/-- `pending` returns, up to the number asked for, the rows of the log above the
acknowledged seq. -/
def ReturnsSince (d : Globals) (fs : Path → Option Data) (log : List QRow) : Prop :=
  ∀ maxN, d.pending fs maxN = (log.filter fun r => d.q.ack.ackedSeq < r.seq).take maxN

/-- **A recovered queue holds exactly what was appended since**, in every state of every
run whose recoveries found no segment but the first. -/
theorem recovered_queue_exact {d : Globals} {w : World Unit} {log : List QRow}
    (h : OperatedRuns FirstOnly (.on d w) (some log)) (hc : w.flash.Counted) :
    ReturnsSince d w.file log := by
  obtain ⟨cp, hst, hram⟩ := OperatedRuns.holds h hc
  exact (hram.laid hst.laid).pending_eq

/-- One more operation of a run. -/
theorem operated_step
    {ok : Action UInt32 ConsoleOp → Node Globals (World Unit) → Option (List QRow) → Prop}
    {d d' : Globals} {w w' : World Unit} {log : Option (List QRow)} (i : ConsoleOp)
    (h : OperatedRuns ok (.on d w) log) (hok : ok (.op i) (.on d w) log)
    (hr : Runs (sem Env.calm) (i.run d) w d' w') :
    OperatedRuns ok (.on d' w') (sinceRecovery (.op i) (.on d w) (.on d' w') log) :=
  .step h hok (.op hr)

/-! ## A new queue, recovered -/

/-- A factory-fresh device boots, recovers its queue and appends a row. -/
theorem recovered_then_appended : ∃ d w, OperatedRuns FirstOnly (.on d w)
    (some [QRow.kind.stamp firstRow]) ∧ w.flash.Counted ∧
    ReturnsSince d w.file [QRow.kind.stamp firstRow] := by
  have hfresh : (worked []).2 = fresh := by rfl
  have hboot : OperatedRuns FirstOnly (.on (worked []).1 (worked []).2) none :=
    .step (a := .boot 1) (.init ⟨⟨_, _, _, rfl, durable_fresh.toCoherent⟩, rfl⟩) trivial
      (.boot (execute_runs _ _))
  have hrec : OperatedRuns FirstOnly (.on (worked [.recoverQueue]).1 (worked [.recoverQueue]).2)
      (some []) := by
    refine operated_step .recoverQueue hboot ?_ (execute_runs _ _)
    rw [hfresh]
    exact ⟨fun _ _ => rfl, by decide⟩
  have hgrew : (worked [.queue (.append firstRow), .recoverQueue]).2.flash.checkpoints =
      (worked [.recoverQueue]).2.flash.checkpoints + 1 := by decide +kernel
  have hcount : (worked [.queue (.append firstRow), .recoverQueue]).2.flash.Counted := by
    rw [Flash.Counted]
    decide +kernel
  have happ : OperatedRuns FirstOnly (.on (worked [.queue (.append firstRow), .recoverQueue]).1
      (worked [.queue (.append firstRow), .recoverQueue]).2) (some [QRow.kind.stamp firstRow]) := by
    have hstep := operated_step (.queue (.append firstRow)) hrec trivial (execute_runs _ _)
    rwa [sinceRecovery_written (by exact hgrew), List.nil_append] at hstep
  exact ⟨_, _, happ, hcount, recovered_queue_exact happ hcount⟩

/-! ## A queue with three segments, recovered -/

section

variable {w : World Unit} {d : Globals}

/-- Every routine can complete. -/
theorem completes {α : Type} (p : Fw α) (w : World Unit) : ∃ a w', Runs (sem Env.calm) p w a w' :=
  ⟨_, _, execute_runs p w⟩

/-- Filling a device is one of the runs of this file, without a recovery. -/
theorem Fills.operatedRuns {rows : List QRow} (h : Fills Env.calm fresh rows d w) :
    OperatedRuns (fun _ _ _ => True) (.on d w) none := by
  induction h with
  | boot hr =>
    exact .step (a := .boot 1) (.init ⟨⟨_, _, _, rfl, durable_fresh.toCoherent⟩, rfl⟩) trivial
      (.boot hr)
  | append _ hr _ ih =>
    have hstep := operated_step (.queue (.append _)) ih trivial hr
    rwa [sinceRecovery_none] at hstep

/-- A boot from a checkpoint at segment 0 moves to the highest segment it finds, if
that is above 1. -/
theorem wp_setup_adopts {ack : AckRec} {M : ℕ} (hcp : (ckptSlots.recover w.file).qSegment = 0)
    (hack : ackSlots.recover w.file = ack) (hM : w.file (.seg M) ≠ none) (hlow : 1 < M)
    (hhigh : M < 10 ^ 6) (htop : ∀ i, w.file (.seg i) ≠ none → i ≤ M) (bootId : UInt32) :
    wp (sem Env.calm) (setup bootId) (fun d w' => d.tot.cp.qSegment.toNat = M ∧ d.q.ack = ack ∧
      (∀ i, w'.file (.seg i) = w.file (.seg i)) ∧
      w'.flash.checkpoints ≤ w.flash.checkpoints + 2) (fun _ => True) w := by
  have hrest : ∀ (w1 : World Unit) t, (∀ b, w1.file (.ack b) = w.file (.ack b)) →
      (∀ i, w1.file (.seg i) = w.file (.seg i)) → t.cp.qSegment = 0 →
      w1.flash.checkpoints ≤ w.flash.checkpoints + 1 →
      wp (sem Env.calm) (EventQueue.begin t >>= fun r => .ret
        { tot := r.2, q := r.1, seq := resumeSeqFloor r.2.lastSeq r.1.ack.ackedSeq,
          bootId := bootId : Globals })
        (fun d w' => d.tot.cp.qSegment.toNat = M ∧ d.q.ack = ack ∧
          (∀ i, w'.file (.seg i) = w.file (.seg i)) ∧
          w'.flash.checkpoints ≤ w.flash.checkpoints + 2) (fun _ => True) w1 := by
    intro w1 t hacks hsegs hzero hcount
    have hrec : ackSlots.recover w1.file = ack := by
      rw [← hack, Slots.recover, Slots.recover, Slots.slot, Slots.slot, Slots.slot, Slots.slot]
      exact congrArg₂ _ (congrArg _ (hacks true)) (congrArg _ (hacks false))
    refine wp_map (EventQueue.wp_begin ?_)
    rw [hrec]
    refine EventQueue.wp_cleanupOrphanSegments trivial fun names hn => ?_
    have hids : ∀ i, i ∈ names.filterMap parseSegmentId ↔ w.file (.seg i) ≠ none := fun i => by
      rw [← hsegs i]
      refine mem_segmentIds hn fun j hj => ?_
      have := htop j (hsegs j ▸ hj)
      omega
    have hmem : M ∈ names.filterMap parseSegmentId := (hids M).mpr hM
    have hmax : (names.filterMap parseSegmentId).foldl max 0 = M := by
      refine le_antisymm ?_ ((le_foldl_max _ 0).2 M hmem)
      rcases foldl_max_mem (names.filterMap parseSegmentId) 0 with h0 | hm
      · rw [h0]
        exact Nat.zero_le M
      · exact htop _ ((hids _).mp hm)
    have hactive : t.queueOffsetSegment.toNat = 0 := congrArg UInt32.toNat hzero
    simp only [hmax, hactive]
    have hone : u32 (0 + 1) < M := hlow
    refine ⟨fun _ => ?_, fun hno => absurd ⟨List.ne_nil_of_mem hmem, hone⟩ hno⟩
    refine wp_mono (Senses.wp (EventQueue.makes_adoptValidRows (fun _ hc => hc.1) _ _ _ _) w1)
      (fun adopted w2 hw2 => ?_) fun _ _ => trivial
    rw [hw2]
    refine Totalizer.wp_persist (Slots.wp_persist trivial (fun _ _ => trivial)
      ⟨trivial, u32_ofNat (by omega), trivial, fun i => ?_, ?_⟩ fun p x hf => hf.elim)
    · rw [World.file_write, Function.update_of_ne (by simp [ckptSlots])]
      exact hsegs i
    · rw [checkpoints_write]
      omega
  refine wp_bind (Totalizer.wp_begin trivial ⟨?_, fun _ => Totalizer.wp_persist ?_⟩)
  · exact hrest w _ (fun _ => rfl) (fun _ => rfl) hcp (Nat.le_succ _)
  · refine Slots.wp_persist trivial (fun _ _ => trivial) ⟨trivial, hrest _ _ (fun b => ?_)
      (fun i => ?_) hcp (checkpoints_write _ _ _).le⟩ fun p x hf => hf.elim
    · rw [World.file_write, Function.update_of_ne (by simp [ckptSlots])]
    · rw [World.file_write, Function.update_of_ne (by simp [ckptSlots])]

/-- On a working file system the reconciliation of a file that is there succeeds. -/
theorem wp_reconcile_present {i : ℕ} {b : Data} (hb : w.file (.seg i) = some b) (off : ℕ) :
    wp (sem Env.calm) (reconcile (.seg i) off b.length) (fun good _ => good ≠ none)
      (fun _ => True) w := by
  rw [reconcile]
  split
  · have hread : (guardedOffset (.seg i) off b.length).Makes Call.Senses := by
      rw [guardedOffset]
      split
      · exact makes_adoptValidRows (fun _ hc => hc.1) _ _ _ _
      · exact trivial
    refine wp_bind_of (Senses.wp hread w) (fun _ _ => trivial) fun good w1 hw1 => ?_
    rw [hw1]
    split
    · rw [Fw.truncateTo_bind]
      exact wp_truncateTo hb trivial (fun _ _ _ => trivial) ⟨trivial, by simp⟩ fun hf => hf.elim
    · exact ⟨trivial, by simp⟩
  · exact ⟨trivial, by simp⟩

/-- On a working file system an append completes its checkpoint write, wherever the
position is. -/
theorem wp_append_persists {seg off : ℕ} (htarget : target d.tot = (seg, off)) (row : QRow) :
    wp (sem Env.calm) (d.append row) (fun d' w' => d'.q.ack = d.q.ack ∧
      w'.flash.checkpoints = w.flash.checkpoints + 1 ∧
      ∀ i, i ≠ seg → w'.file (.seg i) = w.file (.seg i)) (fun _ => True) w := by
  have hopen := (SameSlots.refl w).set_seg seg (some (w.old (.seg seg)))
  have hfile : (w.set (.seg seg) (some (w.old (.seg seg)))).file (.seg seg) =
      some (w.old (.seg seg)) := by simp
  have htouch : Touches (· = .seg seg) (reconcile (.seg seg) off (w.old (.seg seg)).length) :=
    makes_reconcile (fun _ hc => hc.1.touches _) (fun _ x hx => (Option.some.inj hx).symm) _ _
  have hothers : ∀ q, ¬ q = .seg seg →
      (w.set (.seg seg) (some (w.old (.seg seg)))).file q = w.file q := fun q hq => by
    rw [World.file_set, Function.update_of_ne hq]
  refine wp_map (EventQueue.wp_append Env.calm_reliable htarget trivial trivial ?_)
  refine wp_mono (wp_and (wp_reconcile_present hfile off)
    (wp_and (SegmentOnly.wp (segmentOnly_reconcile seg off _) hopen) (htouch.wp hothers)))
    (fun good w1 ⟨hgood, hs1, hf1⟩ => ?_) fun _ _ => trivial
  cases good with
  | none => exact absurd rfl hgood
  | some good =>
    refine ⟨fun _ _ => trivial, Totalizer.wp_persist (Slots.wp_persist trivial
      (fun _ _ => trivial) ⟨trivial, rfl, ?_, fun i hi => ?_⟩ fun p x hf => hf.elim)⟩
    · rw [checkpoints_write, checkpoints_congr (hs1.set_seg seg _).done]
    · rw [World.file_write, Function.update_of_ne (by simp [ckptSlots]), World.file_set,
        Function.update_of_ne (by simpa using hi)]
      exact hf1 _ (by simpa using hi)

/-- **A recovery strands what comes after it.**  The queue has filled segments 0 and 1
and is at segment 2 when it is recovered; the device is switched off and on, and
appends a row.  The boot has moved to segment 2, the cursor is at segment 0, which
does not exist, and `pending` returns nothing. -/
theorem recovery_strands_rows : ∃ d w log, OperatedRuns (fun _ _ _ => True) (.on d w) (some log) ∧
    w.flash.Counted ∧ ¬ ReturnsSince d w.file log := by
  obtain ⟨n, hn⟩ : ∃ n, n = 10001 := ⟨_, rfl⟩
  obtain ⟨d, w, cp, hfills, h⟩ := exists_fills (List.replicate n firstRow)
    (by rw [List.length_replicate, hn]; decide)
  set rows := (List.replicate n firstRow).map QRow.kind.stamp with hrows
  have hlen : rows.length = n := by rw [hrows, List.length_map, List.length_replicate]
  -- segment 2 is the active one
  have hlaid := h.durable.laid
  have hactive : cp.qSegment.toNat = 2 := by
    have hlow := hlaid.lower
    have hup := hlaid.upper
    omega
  have htwo : w.file (.seg 2) ≠ none := by
    rcases hlaid.rooted with h0 | hpresent
    · omega
    · rwa [hactive] at hpresent
  have htop : ∀ i, w.file (.seg i) ≠ none → i ≤ 2 := by
    intro i hi
    have hle := hlaid.present_le hi
    by_contra hc
    have heq : i = cp.qSegment.toNat + 1 := by omega
    have hfull := (hlaid.next (heq ▸ hi)).1
    omega
  -- the recovery
  have hwrap : d.q.ack.writes.toNat + 1 < 2 ^ 32 := by
    rw [h.ack]
    decide
  have hin : InStep d.tot w d.q.ack := ⟨cp, h.durable.toCoherent, h.ram.writes⟩
  obtain ⟨d1, w1, hrun⟩ := completes d.recoverQueueStorage w
  obtain ⟨hgrew, hpost⟩ := (hin.wp_recoverQueueStorage hwrap).runs hrun
  have hcount1 : w1.flash.checkpoints = n + 1 := by rw [hgrew, h.checkpoints, hlen]
  have hempty := hpost (by rw [Flash.Counted, hcount1, hn]; decide)
  obtain ⟨cp1, hcoh1, hram1⟩ := hempty.records
  have hseg1 : (ckptSlots.recover w1.file).qSegment = 0 := by
    rw [hcoh1.ckptLast.recover, ← hram1.segment]
    exact hempty.segment
  -- the boot after it
  obtain ⟨d2, w2, hboot⟩ := completes (setup 2) w1
  have hsegs : ∀ i, w1.file (.seg i) ≠ none → i ≤ 2 := by
    intro i hi
    rcases Nat.eq_zero_or_pos i with rfl | hpos
    · omega
    · exact htop i (hempty.others i hpos ▸ hi)
  obtain ⟨hseg2, hack2, hfiles2, hcount2⟩ := (wp_setup_adopts hseg1 hcoh1.ackLast.recover
    (hempty.others 2 (by omega) ▸ htwo) (by omega) (by omega) hsegs 2).runs hboot
  -- the row after that
  obtain ⟨⟨seg, off⟩, htarget⟩ : ∃ r, target d2.tot = r := ⟨_, rfl⟩
  have hpos : seg ≠ 0 := by
    intro hz
    have hfst : (target d2.tot).1 = 0 := by rw [htarget, hz]
    rw [target, Totalizer.queueOffsetSegment, hseg2] at hfst
    split at hfst
    · exact absurd hfst (by decide)
    · cases hfst
  obtain ⟨d3, w3, happend⟩ := completes (d2.append firstRow) w2
  obtain ⟨hack3, hcount3, hfiles3⟩ := (wp_append_persists htarget firstRow).runs happend
  have hrecovered : OperatedRuns (fun _ _ _ => True) (.on d1 w1) (some []) :=
    operated_step .recoverQueue hfills.operatedRuns trivial hrun
  have hoff : OperatedRuns (fun _ _ _ => True) (.off w1) (some []) :=
    .step (a := .op (.queue (.service 0))) hrecovered trivial
      (.opCut (i := ConsoleOp.queue (.service 0)) (.here _ _))
  have hon : OperatedRuns (fun _ _ _ => True) (.on d2 w2) (some []) :=
    .step (a := .boot 2) hoff trivial (.boot hboot)
  have hlast : OperatedRuns (fun _ _ _ => True) (.on d3 w3) (some [QRow.kind.stamp firstRow]) := by
    have hstep := operated_step (.queue (.append firstRow)) hon trivial happend
    rwa [sinceRecovery_written (by exact hcount3), List.nil_append] at hstep
  have hcounted : w3.flash.Counted := by
    rw [Flash.Counted, hcount3]
    omega
  refine ⟨d3, w3, _, hlast, hcounted, fun hno => ?_⟩
  have hack : d3.q.ack = d1.q.ack := hack3.trans hack2
  have hgone : w3.file (.seg d3.q.ack.cursorSegment.toNat) = none := by
    rw [hack, hempty.cursorSegment]
    exact (hfiles3 0 hpos.symm).trans ((hfiles2 0).trans hempty.first)
  have hzero : d3.q.ack.ackedSeq = 0 := by
    rw [hack, hempty.ackedSeq, h.ack]
    rfl
  have hone : (QRow.kind.stamp firstRow).seq = 1 := rfl
  have hnone := hno 1
  rw [Globals.pending, pending_of_missing hgone, hzero, List.filter_cons_of_pos (by
    rw [hone]
    decide)] at hnone
  exact absurd hnone (List.cons_ne_nil _ _).symm

end

end Device
end CovioFirmware
