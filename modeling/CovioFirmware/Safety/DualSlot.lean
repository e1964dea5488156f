import CovioFirmware.Device.Frames

/-!
# What a reboot recovers

The three records of the firmware are each kept in two slots.  This file shows
that a reboot recovers the last one that was completely written: for every
starting pair of slots the scheme can have left, in either checkpoint format,
and for every run of the routines that persist, with power cuts anywhere.

The invariant is one statement per record (`Held`): the last completed write ---
or the starting record, if none has completed yet --- is the `Last` one of its
slots.  While the device runs, the count in memory is also that record's count
(`Synced`), so the next write goes to the other slot.  Both are stated for runs
in which the 32-bit count has not come round; nothing else is assumed of the
flash, and the segment files may hold anything.
-/

namespace CovioFirmware
namespace Device

open Crash

namespace Slots

variable {R R' : Type} {S : Slots R} {S' : Slots R'} {ε : Type} {E : Env ε} {w w' : World ε}
  {r0 r : R} {r0' r' : R'}

/-- The last completed write, or the starting record. -/
def held (S : Slots R) (r0 : R) (f : Flash) : R := (S.latest f).getD r0

/-- The slots hold the last completed write. -/
def Held (S : Slots R) (r0 : R) (w : World ε) : Prop :=
  S.Unwrapped w.flash → S.Last w.file (S.held r0 w.flash)

/-- The count in memory is that of the last completed write. -/
def Synced (S : Slots R) (r0 r : R) (w : World ε) : Prop :=
  S.Unwrapped w.flash → S.writes r = S.writes (S.held r0 w.flash)

theorem held_congr {f f' : Flash} (h : f'.done = f.done) : S.held r0 f' = S.held r0 f := by
  rw [held, latest, h, ← latest, ← held]

theorem unwrapped_congr {f f' : Flash} (h : f'.done = f.done) : S.Unwrapped f' ↔ S.Unwrapped f := by
  rw [Unwrapped, h, ← Unwrapped]

theorem Held.sameSlots (hS : ∀ b i, S.path b ≠ .seg i) (h : S.Held r0 w) (hw : SameSlots w w') :
    S.Held r0 w' := by
  intro hU
  rw [unwrapped_congr hw.done] at hU
  rw [held_congr hw.done]
  exact hw.slots hS (h hU)

theorem Synced.sameSlots (h : S.Synced r0 r w) (hw : SameSlots w w') : S.Synced r0 r w' := by
  intro hU
  rw [unwrapped_congr hw.done] at hU
  rw [held_congr hw.done]
  exact h hU

/-- A persist moves the record on. -/
theorem wp_persist_held (hE : E.Reliable) (h : S.Held r0 w) (hs : S.Synced r0 r w) :
    wp (sem E) (S.persist r) (fun r' w' => S.Held r0 w' ∧ S.Synced r0 r' w') (S.Held r0) w := by
  have hnext : S.Unwrapped w.flash → S.writes (S.next r) = S.writes (S.held r0 w.flash) + 1 :=
    fun hU => by rw [writes_next, hs hU]
  set p := S.path (slotOf (S.writes r + 1)) with hp
  have hpn : p = S.path (slotOf (S.writes (S.next r))) := by rw [writes_next]
  have hheld : S.held r0 (w.write p (S.kind.bytes (S.next r))).flash = S.next r := by
    rw [held, hp, latest_write, Option.getD_some]
  have hok : S.Held r0 (w.write p (S.kind.bytes (S.next r))) := by
    intro hU
    obtain ⟨hU0, hne⟩ := unwrapped_write hU
    have hne' : S.writes (S.next r) ≠ 0 := by simpa using hne _ hp
    rw [hheld, World.file_write, hpn]
    exact Last.written (h hU0) (hnext hU0) hne' (S.load_next r)
  refine wp_persist h ?_ ⟨hok, hok, fun _ => by rw [hheld]⟩ fun p d hf => absurd hf (hE _ _)
  intro c hc hU
  rw [unwrapped_set] at hU
  rw [held, latest_set, ← held, World.file_set, ← hp, hpn]
  exact Last.torn (h hU) (hnext hU) (hpn ▸ hc)

theorem wp_persist_latest (hE : E.Reliable) (r0 : R) :
    wp (sem E) (S.persist r) (fun r' w' => r' = S.next r ∧ S.held r0 w'.flash = S.next r)
      (fun w' => S.held r0 w'.flash = S.held r0 w.flash ∨ S.held r0 w'.flash = S.next r) w := by
  have hheld : ∀ b, S.held r0 (w.write (S.path b) (S.kind.bytes (S.next r))).flash = S.next r :=
    fun b => by rw [held, latest_write, Option.getD_some]
  refine wp_persist (.inl rfl) (fun c _ => .inl ?_) ⟨.inr (hheld _), rfl, hheld _⟩
    fun p d hf => absurd hf (hE _ _)
  rw [held, latest_set, ← held]

/-- A persist of another record leaves this one alone. -/
theorem wp_persist_other (hE : E.Reliable) (hd : ∀ b b', S'.path b ≠ S.path b')
    (h : S.Held r0 w) (hs : S.Synced r0 r w) :
    wp (sem E) (S'.persist r') (fun _ w' => S.Held r0 w' ∧ S.Synced r0 r w') (S.Held r0) w := by
  have hset : ∀ b c, S.Held r0 (w.set (S'.path b) c) := by
    intro b c hU
    rw [unwrapped_set] at hU
    rw [held, latest_set, ← held]
    refine (h hU).congr fun b' => ?_
    rw [World.file_set, Function.update_of_ne fun hc => hd b b' hc.symm]
  have hheld : ∀ b d, S.held r0 (w.write (S'.path b) d).flash = S.held r0 w.flash := by
    intro b d
    rw [held, latest_write_of_ne w (fun b' hc => hd b b' hc.symm), ← held]
  have hwrite : ∀ b d, S.Held r0 (w.write (S'.path b) d) := by
    intro b d hU
    rw [hheld]
    refine (h (unwrapped_write hU).1).congr fun b' => ?_
    rw [World.file_write, Function.update_of_ne fun hc => hd b b' hc.symm]
  refine wp_persist h (fun c _ => hset _ c) ⟨hwrite _ _, hwrite _ _, fun hU => ?_⟩
    fun p d hf => absurd hf (hE _ _)
  rw [hheld]
  exact hs (unwrapped_write hU).1

end Slots

/-! ## The three records together -/

/-- All three pairs of slots hold the last completed write of their record. -/
structure Kept {ε : Type} (c0 : Checkpoint) (a0 : AckRec) (x0 : FailureState) (w : World ε) :
    Prop where
  ckptHeld : ckptSlots.Held c0 w
  ackHeld : ackSlots.Held a0 w
  failHeld : failSlots.Held x0 w

/-- In addition, the counts in memory are those of the last completed writes. -/
structure KeptOn {ε : Type} (c0 : Checkpoint) (a0 : AckRec) (x0 : FailureState) (cp : Checkpoint)
    (ack : AckRec) (fail : FailureState) (w : World ε) : Prop extends Kept c0 a0 x0 w where
  ckptSynced : ckptSlots.Synced c0 cp w
  ackSynced : ackSlots.Synced a0 ack w
  failSynced : failSlots.Synced x0 fail w

section Routines

variable {ε : Type} {E : Env ε} {w w' : World ε} {c0 cp : Checkpoint} {a0 ack : AckRec}
  {x0 fail : FailureState}

theorem Kept.sameSlots (h : Kept c0 a0 x0 w) (hw : SameSlots w w') : Kept c0 a0 x0 w' :=
  ⟨h.ckptHeld.sameSlots (by simp [ckptSlots]) hw, h.ackHeld.sameSlots (by simp [ackSlots]) hw,
    h.failHeld.sameSlots (by simp [failSlots]) hw⟩

theorem KeptOn.sameSlots (h : KeptOn c0 a0 x0 cp ack fail w) (hw : SameSlots w w') :
    KeptOn c0 a0 x0 cp ack fail w' :=
  ⟨h.toKept.sameSlots hw, h.ckptSynced.sameSlots hw, h.ackSynced.sameSlots hw,
    h.failSynced.sameSlots hw⟩

theorem KeptOn.wp_persist (hE : E.Reliable) (h : KeptOn c0 a0 x0 cp ack fail w) :
    wp (sem E) (ckptSlots.persist cp) (fun cp' w' => KeptOn c0 a0 x0 cp' ack fail w')
      (Kept c0 a0 x0) w := by
  refine wp_mono (wp_and (Slots.wp_persist_held hE h.ckptHeld h.ckptSynced)
    (wp_and (Slots.wp_persist_other hE (by simp [ckptSlots, ackSlots]) h.ackHeld h.ackSynced)
      (Slots.wp_persist_other hE (by simp [ckptSlots, failSlots]) h.failHeld h.failSynced))) ?_ ?_
  · rintro cp' w' ⟨⟨hc, hcs⟩, ⟨ha, has⟩, hf, hfs⟩
    exact ⟨⟨hc, ha, hf⟩, hcs, has, hfs⟩
  · rintro w' ⟨hc, ha, hf⟩
    exact ⟨hc, ha, hf⟩

theorem KeptOn.wp_persistAck (hE : E.Reliable) (h : KeptOn c0 a0 x0 cp ack fail w) :
    wp (sem E) (ackSlots.persist ack) (fun ack' w' => KeptOn c0 a0 x0 cp ack' fail w')
      (Kept c0 a0 x0) w := by
  refine wp_mono (wp_and (Slots.wp_persist_held hE h.ackHeld h.ackSynced)
    (wp_and (Slots.wp_persist_other hE (by simp [ckptSlots, ackSlots]) h.ckptHeld h.ckptSynced)
      (Slots.wp_persist_other hE (by simp [ackSlots, failSlots]) h.failHeld h.failSynced))) ?_ ?_
  · rintro ack' w' ⟨⟨ha, has⟩, ⟨hc, hcs⟩, hf, hfs⟩
    exact ⟨⟨hc, ha, hf⟩, hcs, has, hfs⟩
  · rintro w' ⟨ha, hc, hf⟩
    exact ⟨hc, ha, hf⟩

theorem KeptOn.wp_persistFail (hE : E.Reliable) (h : KeptOn c0 a0 x0 cp ack fail w) :
    wp (sem E) (failSlots.persist fail) (fun fail' w' => KeptOn c0 a0 x0 cp ack fail' w')
      (Kept c0 a0 x0) w := by
  refine wp_mono (wp_and (Slots.wp_persist_held hE h.failHeld h.failSynced)
    (wp_and (Slots.wp_persist_other hE (by simp [ckptSlots, failSlots]) h.ckptHeld h.ckptSynced)
      (Slots.wp_persist_other hE (by simp [ackSlots, failSlots]) h.ackHeld h.ackSynced))) ?_ ?_
  · rintro fail' w' ⟨⟨hf, hfs⟩, ⟨hc, hcs⟩, ha, has⟩
    exact ⟨⟨hc, ha, hf⟩, hcs, has, hfs⟩
  · rintro w' ⟨hf, hc, ha⟩
    exact ⟨hc, ha, hf⟩

/-- The routines, with the members of the two objects in place of the records. -/
abbrev KeptAt (c0 : Checkpoint) (a0 : AckRec) (x0 : FailureState) (t : Totalizer) (q : EventQueue)
    (w : World ε) : Prop := KeptOn c0 a0 x0 t.cp q.ack q.fail w

variable {t : Totalizer} {q : EventQueue}

theorem KeptAt.wp_persist (hE : E.Reliable) (h : KeptAt c0 a0 x0 t q w) :
    wp (sem E) t.persist (fun t' w' => KeptAt c0 a0 x0 t' q w') (Kept c0 a0 x0) w :=
  Totalizer.wp_persist (KeptOn.wp_persist hE h)

theorem KeptAt.wp_setQueueOffset (hE : E.Reliable) (h : KeptAt c0 a0 x0 t q w)
    (segment offset : UInt32) :
    wp (sem E) (t.setQueueOffset segment offset) (fun t' w' => KeptAt c0 a0 x0 t' q w')
      (Kept c0 a0 x0) w :=
  KeptAt.wp_persist hE ⟨h.toKept, h.ckptSynced, h.ackSynced, h.failSynced⟩

theorem KeptAt.wp_service (hE : E.Reliable) (h : KeptAt c0 a0 x0 t q w) (seq : UInt32) :
    wp (sem E) (t.service seq) (fun t' w' => KeptAt c0 a0 x0 t' q w') (Kept c0 a0 x0) w :=
  Totalizer.wp_service h.toKept fun _ _ =>
    KeptAt.wp_persist hE ⟨h.toKept, h.ckptSynced, h.ackSynced, h.failSynced⟩

theorem KeptAt.wp_recordWriteFailure (hE : E.Reliable) (h : KeptAt c0 a0 x0 t q w)
    (code : QueueFailCode) :
    wp (sem E) (q.recordWriteFailure code) (fun q' w' => KeptAt c0 a0 x0 t q' w')
      (Kept c0 a0 x0) w := by
  refine EventQueue.wp_recordWriteFailure h.toKept fun fail hw _ => KeptOn.wp_persistFail hE ?_
  refine ⟨h.toKept, h.ckptSynced, h.ackSynced, fun hU => ?_⟩
  exact hw.trans (h.failSynced hU)

/-- A part of a routine that stays away from the slots. -/
theorem KeptAt.wp_segmentOnly {α : Type} {p : Fw α} (hp : SegmentOnly p)
    (h : KeptAt c0 a0 x0 t q w) :
    wp (sem E) p (fun _ w' => KeptAt c0 a0 x0 t q w') (Kept c0 a0 x0) w := by
  refine wp_mono (hp.wp (SameSlots.refl w)) ?_ ?_
  · intro _ w' hw
    exact h.sameSlots hw
  · intro w' hw
    exact h.toKept.sameSlots hw

theorem KeptAt.wp_append (hE : E.Reliable) (h : KeptAt c0 a0 x0 t q w) (row : QRow) :
    wp (sem E) (q.append t row) (fun r w' => KeptAt c0 a0 x0 r.2 r.1 w') (Kept c0 a0 x0) w := by
  have hset : ∀ {w' : World ε} i c, KeptAt c0 a0 x0 t q w' →
      KeptAt c0 a0 x0 t q (w'.set (.seg i) c) :=
    fun {w'} i c h' => h'.sameSlots ((SameSlots.refl w').set_seg i c)
  refine EventQueue.wp_append hE rfl h.toKept (hset _ _ h).toKept ?_
  refine wp_mono (KeptAt.wp_segmentOnly (EventQueue.segmentOnly_reconcile _ _ _) (hset _ _ h)) ?_
    fun _ hw => hw
  intro good w1 h1
  cases good with
  | none => exact KeptAt.wp_recordWriteFailure hE h1 .truncate
  | some goodOffset =>
    exact ⟨fun junk _ => (hset _ _ h1).toKept, KeptAt.wp_setQueueOffset hE (hset _ _ h1) _ _⟩

theorem KeptAt.wp_ackThrough (hE : E.Reliable) (h : KeptAt c0 a0 x0 t q w)
    (ackedSeq bootId : UInt32) :
    wp (sem E) (q.ackThrough t ackedSeq bootId) (fun q' w' => KeptAt c0 a0 x0 t q' w')
      (Kept c0 a0 x0) w := by
  refine EventQueue.wp_ackThrough h.toKept (fun _ => h) fun _ seg off consumed _ count => ?_
  refine wp_mono (KeptOn.wp_persistAck hE
    ⟨h.toKept, h.ckptSynced, h.ackSynced, h.failSynced⟩) (fun ack' w1 h1 => ?_) fun _ hw => hw
  refine wp_mono ((EventQueue.segmentOnly_removeAll _).wp (SameSlots.refl w1)) ?_
    fun w' hw => h1.toKept.sameSlots hw
  exact fun _ w2 hw => h1.sameSlots hw

/-- What is recovered is in step with the slots it was recovered from. -/
theorem Kept.recovered {R : Type} {S : Slots R} {r0 : R} (h : S.Held r0 w) :
    S.Synced r0 (S.recover w.file) w := fun hU => by rw [(h hU).recover]

theorem Kept.wp_setup (hE : E.Reliable) (h : Kept c0 a0 x0 w) (bootId : UInt32) :
    wp (sem E) (setup bootId) (fun d w' => KeptAt c0 a0 x0 d.tot d.q w') (Kept c0 a0 x0) w := by
  -- the recovered records stand in for the queue's members until the queue has begun
  have hbegin : wp (sem E) (Totalizer.begin bootId) (fun t w' => Kept c0 a0 x0 w' ∧
      ckptSlots.Synced c0 t.cp w') (Kept c0 a0 x0) w := by
    have h1 : KeptOn c0 a0 x0 { ckptSlots.recover w.file with bootId := bootId }
        (ackSlots.recover w.file) (failSlots.recover w.file) w :=
      ⟨h, Kept.recovered h.ckptHeld, Kept.recovered h.ackHeld, Kept.recovered h.failHeld⟩
    refine Totalizer.wp_begin h ⟨⟨h, h1.ckptSynced⟩, fun _ => ?_⟩
    refine Totalizer.wp_persist (wp_mono (KeptOn.wp_persist hE h1) ?_ fun _ hw => hw)
    exact fun cp' w' h' => ⟨h'.toKept, h'.ckptSynced⟩
  refine wp_bind_of hbegin (fun _ hw => hw) fun t w1 ⟨h1, hs1⟩ => ?_
  refine wp_map (EventQueue.wp_begin ?_)
  have h2 : KeptOn c0 a0 x0 t.cp (ackSlots.recover w1.file) (failSlots.recover w1.file) w1 :=
    ⟨h1, hs1, Kept.recovered h1.ackHeld, Kept.recovered h1.failHeld⟩
  have hend : ∀ {cp' : Checkpoint} {w' : World ε},
      KeptOn c0 a0 x0 cp' (ackSlots.recover w1.file) (failSlots.recover w1.file) w' →
      KeptOn c0 a0 x0 cp' (ackSlots.recover w1.file) (failSlots.recover w'.file) w' :=
    fun {cp' w'} h' => ⟨h'.toKept, h'.ckptSynced, h'.ackSynced, Kept.recovered h'.failHeld⟩
  refine EventQueue.wp_cleanupOrphanSegments h1 fun names _ => ⟨fun _ => ?_, fun _ => ?_⟩
  · refine wp_mono ((EventQueue.segmentOnly_adoptValidRows _ _ _ _).wp (SameSlots.refl w1)) ?_
      fun w' hw => h1.sameSlots hw
    intro adopted w2 hw2
    have h3 := h2.sameSlots hw2
    refine Totalizer.wp_persist (wp_mono (KeptOn.wp_persist hE
      ⟨h3.toKept, h3.ckptSynced, h3.ackSynced, h3.failSynced⟩) ?_ fun _ hw => hw)
    exact fun cp' w' h' => hend h'
  · refine wp_mono ((EventQueue.segmentOnly_removeAll _).wp (SameSlots.refl w1)) ?_
      fun w' hw => h1.sameSlots hw
    exact fun _ w2 hw2 => hend (h2.sameSlots hw2)

end Routines

/-! ## The machine of persists and reboots -/

/-- The routines that persist a record. -/
inductive PersistOp where
  | setQueueOffset (segment offset : UInt32) : PersistOp
  | service (seq : UInt32) : PersistOp
  | append (row : QRow) : PersistOp
  | ackThrough (ackedSeq bootId : UInt32) : PersistOp
  | recordWriteFailure (code : QueueFailCode) : PersistOp

/-- The device with those routines as its operations. -/
def persistMachine : Machine Call Call.Reply (World Unit) Globals UInt32 PersistOp where
  sem := sem Env.calm
  boot := setup
  op
    | .setQueueOffset segment offset, d => do
        let t ← d.tot.setQueueOffset segment offset
        return { d with tot := t }
    | .service seq, d => do
        let t ← d.tot.service seq
        return { d with tot := t }
    | .append row, d => d.append row
    | .ackThrough ackedSeq bootId, d => d.ackThrough ackedSeq bootId
    | .recordWriteFailure code, d => do
        let q ← d.q.recordWriteFailure code
        return { d with q := q }
  env _ _ := False

/-- The runs of a machine from one flash, with no condition and no history. -/
abbrev RunsFrom {R β ι ε : Type} (D : Machine Call Call.Reply (World ε) R β ι) (w0 : World ε)
    (n : Node R (World ε)) : Prop :=
  Reach D (fun _ _ _ => True) (fun _ _ _ g => g) (fun n _ => n = .off w0) n ()

theorem persistMachine_kept {w0 : World Unit} {c0 : Checkpoint} {a0 : AckRec} {x0 : FailureState}
    (h0 : Kept c0 a0 x0 w0) {n : Node Globals (World Unit)} (h : RunsFrom persistMachine w0 n) :
    Kept c0 a0 x0 n.store := by
  have hE := Env.calm_reliable
  have hinv := Reach.invariant (F := fun w (_ : Unit) => Kept c0 a0 x0 w)
    (N := fun d w _ => KeptAt c0 a0 x0 d.tot d.q w) ?_ ?_ ?_ ?_ h
  · cases n with
    | off w => exact hinv
    | on d w => exact hinv.toKept
  · rintro n g rfl
    exact h0
  · intro b w g _ hw
    exact hw.wp_setup hE b
  · intro i d w g _ hw
    cases i with
    | setQueueOffset segment offset => exact wp_map (KeptAt.wp_setQueueOffset hE hw segment offset)
    | service seq => exact wp_map (KeptAt.wp_service hE hw seq)
    | append row => exact wp_map (KeptAt.wp_append hE hw row)
    | ackThrough ackedSeq bootId => exact wp_map (KeptAt.wp_ackThrough hE hw ackedSeq bootId)
    | recordWriteFailure code => exact wp_map (KeptAt.wp_recordWriteFailure hE hw code)
  · intro n n' g _ hn
    exact hn.elim

/-! ## What the two `begin` routines return -/

/-- The data of a checkpoint, apart from its boot id, count and CRC. -/
def Checkpoint.SameData (c c' : Checkpoint) : Prop :=
  c.total = c'.total ∧ c.seq = c'.seq ∧ c.qSegment = c'.qSegment ∧ c.qOffset = c'.qOffset

theorem Totalizer.wp_begin_recovers {ε : Type} {E : Env ε} {w : World ε} (bootId : UInt32) :
    wp (sem E) (Totalizer.begin bootId)
      (fun t _ => t.base = (ckptSlots.recover w.file).total ∧ t.accumulated = 0 ∧
        (t.cp = { ckptSlots.recover w.file with bootId := bootId } ∨
          t.cp = ckptSlots.next { ckptSlots.recover w.file with bootId := bootId }))
      (fun _ => True) w := by
  refine Totalizer.wp_begin trivial ⟨⟨rfl, rfl, .inl rfl⟩, fun _ => Totalizer.wp_persist ?_⟩
  exact Slots.wp_persist trivial (fun _ _ => trivial) ⟨trivial, rfl, rfl, .inr rfl⟩
    fun _ _ _ _ _ => ⟨rfl, rfl, .inr rfl⟩

theorem EventQueue.wp_begin_recovers {ε : Type} {E : Env ε} {w : World ε} (t : Totalizer) :
    wp (sem E) (EventQueue.begin t)
      (fun r _ => r.1.ack = ackSlots.recover w.file ∧ r.1.fail = failSlots.recover w.file)
      (fun _ => True) w := by
  -- nothing the reconciliation does touches a slot of the failure record
  have hfail : ∀ w' : World ε, (∀ b, w'.file (.fail b) = w.file (.fail b)) →
      failSlots.recover w'.file = failSlots.recover w.file := by
    intro w' h
    have hslot : failSlots.slot w'.file = failSlots.slot w.file := by
      funext b
      exact congrArg failSlots.load (h b)
    rw [Slots.recover, Slots.recover, hslot]
  refine EventQueue.wp_begin (EventQueue.wp_cleanupOrphanSegments trivial fun names _ =>
    ⟨fun _ => ?_, fun _ => ?_⟩)
  · refine wp_mono ((segmentOnly_adoptValidRows _ _ _ _).wp (SameSlots.refl w)) ?_
      fun _ _ => trivial
    intro adopted w1 h1
    have hf : ∀ b, w1.file (.fail b) = w.file (.fail b) := fun b => h1.file _ (by simp)
    have hne : ∀ b c, Path.fail b ≠ ckptSlots.path c := fun b c => by simp [ckptSlots]
    refine Totalizer.wp_persist (Slots.wp_persist trivial (fun _ _ => trivial)
      ⟨trivial, rfl, hfail _ fun b => ?_⟩ fun _ _ _ c _ => ⟨rfl, hfail _ fun b => ?_⟩)
    · rw [World.file_write, Function.update_of_ne (hne b _), hf]
    · rw [World.file_set, Function.update_of_ne (hne b _), hf]
  · refine wp_mono ((segmentOnly_removeAll _).wp (SameSlots.refl w)) ?_ fun _ _ => trivial
    exact fun _ w1 h1 => ⟨rfl, hfail _ fun b => h1.file _ (by simp)⟩

/-- Boots that come no further than the checkpoint, each possibly cut: the legacy
migration. -/
def migrationMachine : Machine Call Call.Reply (World Unit) Totalizer UInt32 Empty where
  sem := sem Env.calm
  boot := Totalizer.begin
  op i _ := i.elim
  env _ _ := False

theorem migrationMachine_kept {w0 : World Unit} {c0 : Checkpoint} (h0 : ckptSlots.Held c0 w0)
    (hdone : w0.flash.done = []) {n : Node Totalizer (World Unit)}
    (h : RunsFrom migrationMachine w0 n) :
    ckptSlots.Held c0 n.store ∧ (ckptSlots.Unwrapped n.store.flash →
      (ckptSlots.held c0 n.store.flash).SameData c0) := by
  have hE := Env.calm_reliable
  let Good : World Unit → Prop := fun w => ckptSlots.Held c0 w ∧
    (ckptSlots.Unwrapped w.flash → (ckptSlots.held c0 w.flash).SameData c0)
  have hinv := Reach.invariant (F := fun w (_ : Unit) => Good w) (N := fun _ w _ => Good w)
    ?_ ?_ (fun i => i.elim) ?_ h
  · cases n <;> exact hinv
  · rintro n g rfl
    refine ⟨h0, fun _ => ?_⟩
    rw [Slots.held, Slots.latest, hdone]
    exact ⟨rfl, rfl, rfl, rfl⟩
  · rintro b w g - ⟨hw, hdata⟩
    refine Totalizer.wp_begin ⟨hw, hdata⟩ ⟨⟨hw, hdata⟩, fun _ => Totalizer.wp_persist ?_⟩
    have hrec : ckptSlots.Unwrapped w.flash →
        (ckptSlots.next { ckptSlots.recover w.file with bootId := b }).SameData c0 := by
      intro hU
      have hd := hdata hU
      rw [← (hw hU).recover] at hd
      exact hd
    have hU : ∀ w' : World Unit, w.flash.done <:+ w'.flash.done →
        ckptSlots.Unwrapped w'.flash → ckptSlots.Unwrapped w.flash :=
      fun _ hs hU' => hU'.of_suffix hs
    refine wp_mono (wp_and (wp_history _ List.suffix_rfl)
      (wp_and (Slots.wp_persist_held hE hw (Kept.recovered hw))
        (Slots.wp_persist_latest hE c0))) ?_ ?_
    · rintro cp' w' ⟨hs, ⟨hheld, -⟩, -, hlast⟩
      refine ⟨hheld, fun hU' => ?_⟩
      rw [hlast]
      exact hrec (hU _ hs hU')
    · rintro w' ⟨hs, hheld, hlast⟩
      refine ⟨hheld, fun hU' => ?_⟩
      rcases hlast with hlast | hlast
      · rw [hlast]
        exact hdata (hU _ hs hU')
      · rw [hlast]
        exact hrec (hU _ hs hU')
  · intro n n' g _ hn
    exact hn.elim

/-- **A reboot recovers the last completely written record.**  From every pair of
slots the scheme can have left, and after every run of persists, cuts and
reboots: `Totalizer::begin` takes up the last checkpoint whose write completed
(under the new boot id, and written once more if it was in the legacy format),
and `EventQueue::begin` the last acknowledgement record and the last failure
record.  A migration that is cut any number of times keeps the lifetime total,
the seq and the queue position. -/
theorem begin_recovers_last_write {w0 : World Unit} (hdone : w0.flash.done = [])
    {c0 : Checkpoint} {a0 : AckRec} {x0 : FailureState} (hc : ckptSlots.Last w0.file c0)
    (ha : ackSlots.Last w0.file a0) (hx : failSlots.Last w0.file x0) :
    (∀ n, RunsFrom persistMachine w0 n →
      (ckptSlots.Unwrapped n.store.flash → ∀ b t w',
        Runs (sem Env.calm) (Totalizer.begin b) n.store t w' →
          let last := ckptSlots.held c0 n.store.flash
          t.base = last.total ∧ (t.cp = { last with bootId := b } ∨
            t.cp = ckptSlots.next { last with bootId := b })) ∧
      (ackSlots.Unwrapped n.store.flash → ∀ t q t' w',
        Runs (sem Env.calm) (EventQueue.begin t) n.store (q, t') w' →
          q.ack = ackSlots.held a0 n.store.flash) ∧
      (failSlots.Unwrapped n.store.flash → ∀ t q t' w',
        Runs (sem Env.calm) (EventQueue.begin t) n.store (q, t') w' →
          q.fail = failSlots.held x0 n.store.flash)) ∧
    (∀ n, RunsFrom migrationMachine w0 n → ckptSlots.Unwrapped n.store.flash →
      (ckptSlots.recover n.store.file).SameData c0) := by
  have h0 : ∀ {R : Type} {S : Slots R} {r : R}, S.Last w0.file r → S.Held r w0 := by
    intro R S r h _
    rw [Slots.held, Slots.latest, hdone]
    exact h
  refine ⟨fun n hn => ?_, fun n hn hU => ?_⟩
  · have hk := persistMachine_kept ⟨h0 hc, h0 ha, h0 hx⟩ hn
    refine ⟨fun hU b t w' hr => ?_, fun hU t q t' w' hr => ?_, fun hU t q t' w' hr => ?_⟩
    · obtain ⟨hbase, -, hcp⟩ := (Totalizer.wp_begin_recovers b).runs hr
      rw [(hk.ckptHeld hU).recover] at hbase hcp
      exact ⟨hbase, hcp⟩
    · have hq := ((EventQueue.wp_begin_recovers t).runs hr).1
      rw [hq, (hk.ackHeld hU).recover]
    · have hq := ((EventQueue.wp_begin_recovers t).runs hr).2
      rw [hq, (hk.failHeld hU).recover]
  · obtain ⟨hheld, hdata⟩ := migrationMachine_kept (h0 hc) hdone hn
    rw [(hheld hU).recover]
    exact hdata hU

/-- A flash as the pre-Phase-2 firmware leaves it: slot `A` holds write number 1
in the legacy format. -/
def legacyWorld : World Unit :=
  ⟨Flash.empty.set (.tot true) (some (LegacyCheckpoint.kind.bytes
    (LegacyCheckpoint.kind.stamp ⟨0, 1000, 1, 7, 1, 0⟩))), ()⟩

/-- On that flash `begin` finds the lifetime total 1000. -/
theorem legacyWorld_recovers :
    legacyWorld.flash.done = [] ∧ ∃ t w',
      Runs (sem Env.calm) (Totalizer.begin 2) legacyWorld t w' ∧ t.base = 1000 := by
  have hslot : ckptSlots.slot legacyWorld.file true = some ⟨ckptMagic, 1000, 1, 7, 1, 0, 0, 0⟩ := by
    decide +kernel
  have hc : ckptSlots.Last legacyWorld.file ⟨ckptMagic, 1000, 1, 7, 1, 0, 0, 0⟩ :=
    PingPong.Last.written hslot fun r' hr' => by cases hr'
  have hrun := execute_runs (Totalizer.begin 2) legacyWorld
  have h := begin_recovers_last_write (show legacyWorld.flash.done = [] from rfl) hc
    (PingPong.Last.blank fun b => by cases b <;> rfl)
    (PingPong.Last.blank fun b => by cases b <;> rfl)
  have hbase := ((h.1 _ (.init rfl)).1 (fun b d hd => by cases hd) _ _ _ hrun).1
  exact ⟨rfl, _, _, hrun, hbase⟩

end Device
end CovioFirmware
