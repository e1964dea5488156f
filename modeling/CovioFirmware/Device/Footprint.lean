import CovioFirmware.Device.Sync

/-!
# The calls a routine makes

For each routine, the calls it can make, whatever they answer: `makes_append` says
that every call of `append` satisfies `P`, given that `P` holds of the calls on
segment files, of the writes of the two records it may persist and of the calls
that only read.  What a routine leaves alone, and where it cannot fail, is read off
from here by a choice of `P`.
-/

namespace CovioFirmware
namespace Device

open Crash

/-- The calls that change nothing. -/
def Call.Senses : Call → Prop
  | .files => True
  | .readAt _ _ _ => True
  | .openDir => True
  | .pcntGet => True
  | .pcntClear => True
  | .millis => True
  | .online => True
  | .httpBegin => True
  | .get => True
  | .random => True
  | _ => False

/-- Those of them that leave the pulse counter alone. -/
def Call.Consults (c : Call) : Prop := c.Senses ∧ c ≠ .pcntGet ∧ c ≠ .pcntClear

/-- The calls `append` makes on the segment file. -/
def Call.Appends : Call → Prop
  | .appendOpenSize _ => True
  | .truncateTo _ _ => True
  | .appendWrite _ _ => True
  | _ => False

variable {P : Call → Prop}

/-- A program all of whose calls are allowed. -/
theorem makes_of_forall {α : Type} (hP : ∀ c, P c) : ∀ p : Fw α, p.Makes P
  | .ret _ => trivial
  | .call c k => .call (hP c) fun r => makes_of_forall hP (k r)

theorem Slots.makes_persist {R : Type} (S : Slots R) (hP : ∀ b d, P (.writeWhole (S.path b) d))
    (r : R) : (S.persist r).Makes P := .call (hP _ _) fun _ => trivial

/-! ## `totalizer.h` -/

namespace Totalizer

theorem makes_persist (htot : ∀ b d, P (.writeWhole (.tot b) d)) (t : Totalizer) :
    t.persist.Makes P := (ckptSlots.makes_persist htot t.cp).bind fun _ => trivial

theorem makes_service (hs : ∀ c : Call, c.Senses → P c) (htot : ∀ b d, P (.writeWhole (.tot b) d))
    (t : Totalizer) (seq : UInt32) : (t.service seq).Makes P := by
  have hdrain : t.drain.Makes P := by
    simp only [drain, Fw.pcntGet_bind, Fw.pcntClear_bind, Prog.pure_eq_ret]
    refine .call (hs _ trivial) fun (c : UInt16) => ?_
    split
    · exact .call (hs _ trivial) fun _ => trivial
    · exact trivial
  exact hdrain.bind fun t' => .call (hs _ trivial) fun _ => makes_persist htot _

/-- `begin` sets the counter up, and has no more to do with it. -/
theorem begin_starts (hs : ∀ c : Call, c.Consults → P c) (htot : ∀ b d, P (.writeWhole (.tot b) d))
    (bootId : UInt32) :
    ∃ k, Totalizer.begin bootId = .call .pcntClear k ∧ (k ()).Makes P := by
  simp only [begin, Fw.pcntClear_bind, Fw.files_bind, Prog.pure_eq_ret]
  refine ⟨_, rfl, .call (hs _ ⟨trivial, by simp⟩) fun fs => ?_⟩
  split
  · exact makes_persist htot _
  · exact trivial

theorem makes_begin (hs : ∀ c : Call, c.Senses → P c) (htot : ∀ b d, P (.writeWhole (.tot b) d))
    (bootId : UInt32) : (Totalizer.begin bootId).Makes P := by
  obtain ⟨k, hk, hmakes⟩ := begin_starts (fun c hc => hs c hc.1) htot bootId
  rw [hk]
  exact .call (hs _ trivial) fun (_ : Unit) => hmakes

end Totalizer

/-! ## `queue.h` -/

namespace EventQueue

theorem makes_removeAll (hrm : ∀ i, P (.remove (.seg i))) : ∀ l, (removeAll l).Makes P
  | [] => trivial
  | _ :: l => .call (hrm _) fun _ => makes_removeAll hrm l

theorem makes_adoptValidRows (hs : ∀ c : Call, c.Consults → P c) (p : Path) (fileSize : ℕ) :
    ∀ fuel off, (adoptValidRows p fileSize fuel off).Makes P
  | 0, _ => trivial
  | fuel + 1, off => by
    rw [adoptValidRows]
    split
    · refine .call (hs _ ⟨trivial, by simp⟩) fun r => ?_
      cases r with
      | none => exact trivial
      | some buf =>
        change Prog.Makes P (if _ then _ else _)
        split
        · exact trivial
        · split
          · exact trivial
          · exact makes_adoptValidRows hs p fileSize fuel _
    · exact trivial

theorem makes_reconcile (hs : ∀ c : Call, c.Consults → P c) {i : ℕ}
    (htr : ∀ n, P (.truncateTo (.seg i) n)) (goodOffset actualSize : ℕ) :
    (reconcile (.seg i) goodOffset actualSize).Makes P := by
  rw [reconcile]
  split
  · refine Prog.Makes.bind ?_ fun off => ?_
    · rw [guardedOffset]
      split
      · exact makes_adoptValidRows hs _ _ _ _
      · exact trivial
    · split
      · refine .call (htr _) fun (ok : Bool) => ?_
        cases ok <;> exact trivial
      · exact trivial
  · exact trivial

theorem makes_recordWriteFailure (hs : ∀ c : Call, c.Consults → P c)
    (hfail : ∀ b d, P (.writeWhole (.fail b) d)) (q : EventQueue) (code : QueueFailCode) :
    (q.recordWriteFailure code).Makes P :=
  .call (hs _ ⟨trivial, by simp⟩) fun _ => (failSlots.makes_persist hfail _).bind fun _ => trivial

theorem makes_append (hs : ∀ c : Call, c.Consults → P c)
    (hopen : ∀ i, P (.appendOpenSize (.seg i))) (htr : ∀ i n, P (.truncateTo (.seg i) n))
    (hwr : ∀ i d, P (.appendWrite (.seg i) d)) (htot : ∀ b d, P (.writeWhole (.tot b) d))
    (hfail : ∀ b d, P (.writeWhole (.fail b) d)) (q : EventQueue) (t : Totalizer) (row : QRow) :
    (q.append t row).Makes P := by
  have hrec : ∀ code, Prog.Makes P (do return (← q.recordWriteFailure code, t)) := fun code =>
    (q.makes_recordWriteFailure hs hfail code).bind fun _ => trivial
  obtain ⟨⟨seg, off⟩, htarget⟩ : ∃ r, target t = r := ⟨_, rfl⟩
  simp only [append, htarget, Fw.appendOpenSize_bind, Fw.appendWrite_bind]
  refine .call (hopen _) fun (r : Option ℕ) => ?_
  cases r with
  | none => exact hrec .segmentOpen
  | some size =>
    refine (makes_reconcile hs (htr _) _ _).bind fun good => ?_
    cases good with
    | none => exact hrec .truncate
    | some good =>
      refine .call (hwr _ _) fun (r : Option ℕ) => ?_
      cases r with
      | none => exact hrec .writeShort
      | some n =>
        simp only
        split
        · exact hrec .writeShort
        · exact (Totalizer.makes_persist htot _).bind fun _ => trivial

theorem makes_ackThrough (hs : ∀ c : Call, c.Consults → P c)
    (hack : ∀ b d, P (.writeWhole (.ack b) d)) (hrm : ∀ i, P (.remove (.seg i)))
    (q : EventQueue) (t : Totalizer) (ackedSeq bootId : UInt32) :
    (q.ackThrough t ackedSeq bootId).Makes P := by
  have hpersist : ∀ q : EventQueue, q.persistAck.Makes P := fun q =>
    (ackSlots.makes_persist hack q.ack).bind fun _ => trivial
  simp only [ackThrough, Fw.files_bind, Prog.pure_eq_ret]
  split
  · exact trivial
  · exact .call (hs _ ⟨trivial, by simp⟩) fun fs => (hpersist _).bind fun _ =>
      (makes_removeAll hrm _).bind fun _ => trivial

theorem makes_begin (hs : ∀ c : Call, c.Consults → P c) (htot : ∀ b d, P (.writeWhole (.tot b) d))
    (hrm : ∀ i, P (.remove (.seg i))) (t : Totalizer) : (EventQueue.begin t).Makes P := by
  simp only [begin, cleanupOrphanSegments, Fw.files_bind, Fw.openDir_bind, Prog.pure_eq_ret]
  refine .call (hs _ ⟨trivial, by simp⟩) fun fs => Prog.Makes.bind ?_ fun _ =>
    .call (hs _ ⟨trivial, by simp⟩) fun _ => trivial
  refine .call (hs _ ⟨trivial, by simp⟩) fun names => ?_
  split
  · exact .call (hs _ ⟨trivial, by simp⟩) fun _ => (makes_adoptValidRows hs _ _ _ _).bind fun _ =>
      Totalizer.makes_persist htot _
  · exact (makes_removeAll hrm _).bind fun _ => trivial

end EventQueue

/-! ## `covio_firmware.ino` -/

/-- So does `setup`. -/
theorem setup_starts (hs : ∀ c : Call, c.Consults → P c) (htot : ∀ b d, P (.writeWhole (.tot b) d))
    (hrm : ∀ i, P (.remove (.seg i))) (bootId : UInt32) :
    ∃ k, setup bootId = .call .pcntClear k ∧ (k ()).Makes P := by
  obtain ⟨k, hk, hmakes⟩ := Totalizer.begin_starts hs htot bootId
  rw [setup, hk]
  exact ⟨_, rfl, hmakes.bind fun t => (EventQueue.makes_begin hs htot hrm t).bind fun _ => trivial⟩

theorem makes_setup (hs : ∀ c : Call, c.Senses → P c) (htot : ∀ b d, P (.writeWhole (.tot b) d))
    (hrm : ∀ i, P (.remove (.seg i))) (bootId : UInt32) : (setup bootId).Makes P := by
  obtain ⟨k, hk, hmakes⟩ := setup_starts (fun c hc => hs c hc.1) htot hrm bootId
  rw [hk]
  exact .call (hs _ trivial) fun (_ : Unit) => hmakes

/-! ## `sync.h` -/

namespace Sync

theorem makes_notePushFailureBackoff (hs : ∀ c : Call, c.Consults → P c) (s : Sync) :
    s.notePushFailureBackoff.Makes P :=
  .call (hs _ ⟨trivial, by simp⟩) fun _ => .call (hs _ ⟨trivial, by simp⟩) fun _ => trivial

theorem makes_acknowledge (hs : ∀ c : Call, c.Consults → P c)
    (hack : ∀ b d, P (.writeWhole (.ack b) d)) (hrm : ∀ i, P (.remove (.seg i)))
    (s : Sync) (d : Globals) (last : QRow) (body : List Char) :
    (s.acknowledge d last body).Makes P := by
  refine Prog.Makes.bind ((EventQueue.makes_ackThrough hs hack hrm d.q d.tot _ _).bind
    fun _ => trivial) fun d => ?_
  simp only
  split
  · exact trivial
  · exact .call (hs _ ⟨trivial, by simp⟩) fun _ => trivial

theorem makes_send (hs : ∀ c : Call, c.Consults → P c) (hpost : ∀ batch, P (.post batch))
    (hack : ∀ b d, P (.writeWhole (.ack b) d)) (hrm : ∀ i, P (.remove (.seg i)))
    (s : Sync) (d : Globals) (batch : List QRow) (last : QRow) :
    (s.send d batch last).Makes P := by
  refine .call (hs _ ⟨trivial, by simp⟩) fun (began : Bool) => ?_
  cases began with
  | false => exact trivial
  | true =>
    refine .call (hpost _) fun (r : HttpReply) => ?_
    change Prog.Makes _ (if _ then _ else _)
    split
    · exact (makes_acknowledge hs hack hrm s d last _).bind fun _ => trivial
    · exact (makes_notePushFailureBackoff hs s).bind fun _ => trivial

theorem makes_backingOff (hs : ∀ c : Call, c.Consults → P c) (s : Sync) :
    s.backingOff.Makes P := by
  unfold backingOff
  split
  · exact .call (hs _ ⟨trivial, by simp⟩) fun _ => trivial
  · exact trivial

theorem makes_pushOnce (hs : ∀ c : Call, c.Consults → P c) (hpost : ∀ batch, P (.post batch))
    (hack : ∀ b d, P (.writeWhole (.ack b) d)) (hrm : ∀ i, P (.remove (.seg i)))
    (s : Sync) (d : Globals) : (s.pushOnce d).Makes P := by
  simp only [pushOnce, Fw.online_bind, Fw.files_bind, Prog.pure_eq_ret]
  refine .call (hs _ ⟨trivial, by simp⟩) fun (on : Bool) => ?_
  cases on with
  | false => exact trivial
  | true =>
    refine (makes_backingOff hs s).bind fun wait => ?_
    cases wait with
    | true => exact trivial
    | false =>
      refine .call (hs _ ⟨trivial, by simp⟩) fun fs => ?_
      cases (d.pending fs pushBatchMax).getLast? with
      | none => exact trivial
      | some last => exact makes_send hs hpost hack hrm s d _ last

end Sync

end Device
end CovioFirmware
