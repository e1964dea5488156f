import CovioFirmware.Bytes.CheckedParse
import CovioFirmware.Device.Loop

/-!
# `sync.h`

The sync engine: send the oldest unacknowledged rows, take the `ack_seq` of the
answer, and hand it to the queue; fetch the calibration.  A push is skipped while
its backoff runs, and anything but a status of 200 with a readable `ack_seq` counts
as a failure that widens the backoff.

`long` has 32 bits on the target.  The counters kept for the operator, the
calibration values and the text of the requests are left out.
-/

namespace CovioFirmware
namespace Device

/-- `PUSH_BATCH_MAX`. -/
def pushBatchMax : ℕ := 50

/-- `PUSH_PERIOD_MS`. -/
def pushPeriodMs : UInt32 := 5000

/-- `boundAckSeq` (`ack_validation.h`). -/
def boundAckSeq (parsedAck maxSentSeq : UInt32) : UInt32 :=
  if maxSentSeq < parsedAck then maxSentSeq else parsedAck

/-- The wall clock as the last acknowledged push reported it. -/
structure ServerTime where
  haveServerTime : Bool := false
  serverUnixS : Int32 := 0
  serverTimeCapturedAtMs : UInt32 := 0
  deriving DecidableEq

/-- `estimatedUnixNow`, at the uptime `now`. -/
def ServerTime.estimatedUnixNow (s : ServerTime) (now : UInt32) : Int32 :=
  if s.haveServerTime then s.serverUnixS + ((now - s.serverTimeCapturedAtMs) / 1000).toInt32
  else -1

/-- The object's members. -/
structure Sync where
  pushBackoffMs : UInt32 := 0
  lastPushFailMs : UInt32 := 0
  time : ServerTime := {}
  deriving DecidableEq

namespace Sync

/-- `extractLong_`: a field that holds a `uint32_t`, converted to `long`; `-1` where
there is none. -/
def extractLong (body : List Char) (key : List Char) : Int32 :=
  match (Text.fieldText key body).bind fun s => Text.parseUint32Checked (Text.digitRun s) with
  | none => -1
  | some v => v.toInt32

/-- `extractInt64_`. -/
def extractInt64 (body : List Char) (key : List Char) : Option ℕ :=
  (Text.fieldText key body).bind fun s => Text.parseNonNegativeInt64Checked (Text.digitRun s)

/-- The acknowledged seq a push response carries; negative if it carries none. -/
def ackSeq (body : List Char) : Int32 := extractLong body "ack_seq".toList

/-- `notePushFailureBackoff_`. -/
def notePushFailureBackoff (s : Sync) : Fw Sync := do
  let now ← Fw.millis
  let jitter ← Fw.random
  let backoff := if s.pushBackoffMs ≠ 0 then min (s.pushBackoffMs * 2) 120000 else 2 * pushPeriodMs
  return { s with lastPushFailMs := now, pushBackoffMs := backoff + jitter % 1000 }

/-- The backoff of the last failed push is still running. -/
def backingOff (s : Sync) : Fw Bool :=
  if s.pushBackoffMs ≠ 0 then do
    let now ← Fw.millis
    return decide (now - s.lastPushFailMs < s.pushBackoffMs)
  else return false

/-- The part of `pushOnce` behind an answer that acknowledges: clamp the
acknowledgement to what was sent, apply it, take the time. -/
def acknowledge (s : Sync) (d : Globals) (last : QRow) (body : List Char) :
    Fw (Sync × Globals) := do
  let d ← d.ackThrough (boundAckSeq (ackSeq body).toUInt32 last.seq) d.bootId
  let s := { s with pushBackoffMs := 0 }
  match extractInt64 body "server_time_ms".toList with
  | none => return (s, d)
  | some ms => do
      let now ← Fw.millis
      return ({ s with time := {
        haveServerTime := true
        serverUnixS := .ofNat (ms / 1000)
        serverTimeCapturedAtMs := now } }, d)

/-- The part of `pushOnce` behind a nonempty batch. -/
def send (s : Sync) (d : Globals) (batch : List QRow) (last : QRow) :
    Fw (Bool × Sync × Globals) := do
  let began ← Fw.httpBegin
  if began then do
    let r ← Fw.post batch
    if r.code = 200 ∧ 0 ≤ ackSeq r.body then do
      let (s, d) ← s.acknowledge d last r.body
      return (true, s, d)
    else do
      let s ← s.notePushFailureBackoff
      return (false, s, d)
  else return (false, s, d)

/-- `pushOnce`: whether the queue was acknowledged, with the new state. -/
def pushOnce (s : Sync) (d : Globals) : Fw (Bool × Sync × Globals) := do
  let on ← Fw.online
  if on then do
    let wait ← s.backingOff
    if wait then return (false, s, d)
    else do
      let fs ← Fw.files
      let batch := d.pending fs pushBatchMax
      match batch.getLast? with
      | none => return (false, s, d)
      | some last => s.send d batch last
  else return (false, s, d)

/-- `pollConfig`. -/
def pollConfig : Fw Unit := do
  let on ← Fw.online
  if on then do
    let began ← Fw.httpBegin
    if began then do
      let _ ← Fw.get
      return ()
    else return ()
  else return ()

/-! ## What a push does -/

section Rules

open Crash

variable {ε : Type} {E : Env ε} {C : World ε → Prop} {w : World ε} {s : Sync} {d : Globals}

theorem wp_backingOff {Q : Bool → World ε → Prop} (hC : C w) (h : ∀ wait, Q wait w) :
    wp (sem E) s.backingOff Q C w := by
  unfold backingOff
  split
  · exact wp_sense (by simp) hC fun _ => ⟨hC, h _⟩
  · exact ⟨hC, h _⟩

theorem wp_notePushFailureBackoff {Q : Sync → World ε → Prop} (hC : C w) (h : ∀ s', Q s' w) :
    wp (sem E) s.notePushFailureBackoff Q C w := by
  simp only [notePushFailureBackoff, Fw.millis_bind, Fw.random_bind, Prog.pure_eq_ret]
  exact wp_sense (by simp) hC fun _ => wp_sense (by simp) hC fun _ => ⟨hC, h _⟩

/-- The acknowledgement is all an answer does to the queue. -/
theorem wp_acknowledge {last : QRow} {body : List Char} {Q : Sync × Globals → World ε → Prop}
    (h : wp (sem E) (d.ackThrough (boundAckSeq (ackSeq body).toUInt32 last.seq) d.bootId)
      (fun d' w' => ∀ s', Q (s', d') w') C w) :
    wp (sem E) (s.acknowledge d last body) Q C w := by
  refine wp_bind_of (wp_ret_cut h) (fun _ hw => hw) fun d' w' ⟨hC, hw⟩ => ?_
  simp only
  split
  · exact ⟨hC, hw _⟩
  · exact wp_sense (by simp) hC fun _ => ⟨hC, hw _⟩

/-- **What `pushOnce` does**: nothing, or one exchange with the server about the
rows `pending` returns; and only an answer of 200 that carries an `ack_seq` reaches
the queue. -/
theorem wp_pushOnce {Q : Bool × Sync × Globals → World ε → Prop} (hC : C w)
    (hskip : ∀ s', Q (false, s', d) w)
    (hcut : ∀ w', d.pending w.file pushBatchMax ≠ [] → w'.flash = w.flash →
      E.serveCut (d.pending w.file pushBatchMax) w.peer w'.peer → C w')
    (hpost : ∀ last r w', (d.pending w.file pushBatchMax).getLast? = some last →
      w'.flash = w.flash → E.serve (d.pending w.file pushBatchMax) w.peer r w'.peer →
      C w' ∧ (¬ (r.code = 200 ∧ 0 ≤ ackSeq r.body) → ∀ s', Q (false, s', d) w') ∧
        (r.code = 200 → 0 ≤ ackSeq r.body →
        wp (sem E) (d.ackThrough (boundAckSeq (ackSeq r.body).toUInt32 last.seq) d.bootId)
          (fun d' w'' => ∀ s', Q (true, s', d') w'') C w')) :
    wp (sem E) (s.pushOnce d) Q C w := by
  simp only [pushOnce, Fw.online_bind, Fw.files_bind, Prog.pure_eq_ret]
  refine wp_sense (c := .online) (by simp) hC fun (on : Bool) => ?_
  cases on with
  | false => exact ⟨hC, hskip s⟩
  | true =>
    refine wp_bind (wp_backingOff hC fun wait => ?_)
    cases wait with
    | true => exact ⟨hC, hskip s⟩
    | false =>
      refine wp_files ?_
      obtain ⟨last?, hlast⟩ : ∃ l, (d.pending w.file pushBatchMax).getLast? = l := ⟨_, rfl⟩
      simp only [hlast]
      cases last? with
      | none => exact ⟨hC, hskip s⟩
      | some last =>
        have hne : d.pending w.file pushBatchMax ≠ [] := by
          intro hnil
          rw [hnil] at hlast
          cases hlast
        simp only [send, Fw.httpBegin_bind, Fw.post_bind, Prog.pure_eq_ret]
        refine wp_sense (c := .httpBegin) (by simp) hC fun (began : Bool) => ?_
        cases began with
        | false => exact ⟨hC, hskip s⟩
        | true =>
          refine wp_call hC (fun w' hw' => hcut w' hne hw'.1 hw'.2) fun (r : HttpReply) w' hw' => ?_
          obtain ⟨hC', hno, hack⟩ := hpost last r w' hlast hw'.1 hw'.2
          by_cases hr : r.code = 200 ∧ 0 ≤ ackSeq r.body
          · rw [if_pos hr]
            exact wp_map (wp_acknowledge (hack hr.1 hr.2))
          · rw [if_neg hr]
            exact wp_map (wp_notePushFailureBackoff hC' (hno hr))

end Rules

end Sync

end Device
end CovioFirmware
