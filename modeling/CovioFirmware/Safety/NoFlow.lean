import CovioFirmware.Bytes.Uptime
import CovioFirmware.Monitor.SensorHealth
import CovioFirmware.Monitor.SensorStuck

/-!
# How long a no-flow alarm holds

Both detectors keep the clock's reading at the last change of the total and compare
a 32-bit difference with their threshold.  The difference is the true idle time up
to multiples of `2 ^ 32` milliseconds.  So an alarm that is due holds exactly as
long as what is left of the idle time after dividing by `2 ^ 32` is still at least
the threshold (`alarms_hold_iff`): a machine that stands still for 49.7 days is
reported as running for the length of the threshold.

A run mixes the two calls of the detectors: an update, which shows the total to
both, and a query of `isStuck`, which changes nothing.
-/

namespace CovioFirmware
namespace Monitor

/-- A call at a true time in milliseconds. -/
inductive FlowCall where
  | update (total : UInt64) (time : ℕ)
  | isStuck (time : ℕ)
  deriving DecidableEq

namespace FlowCall

/-- The true time of a call. -/
def time : FlowCall → ℕ
  | update _ t => t
  | isStuck t => t

/-- The call shows a total to both detectors. -/
def IsUpdate : FlowCall → Prop
  | update _ _ => True
  | isStuck _ => False

end FlowCall

/-- The two detectors. -/
structure Detectors where
  stuck : SensorStuckDetector
  health : SensorHealthMonitor

namespace Detectors

/-- The detectors as they are constructed. -/
def make (thresholdMs suspectThresholdMs : UInt32) : Detectors where
  stuck := { thresholdMs := thresholdMs }
  health := { suspectThresholdMs := suspectThresholdMs }

/-- A call, with the clock's reading of its time. -/
def step (d : Detectors) : FlowCall → Detectors
  | .update total t => ⟨(d.stuck.update total (.ofNat t)).2, d.health.update total (.ofNat t)⟩
  | .isStuck _ => d

/-- What `update` or `isStuck` of the stuck detector reports at a call. -/
def reportsStuck (d : Detectors) : FlowCall → Bool
  | .update total t => (d.stuck.update total (.ofNat t)).1
  | .isStuck t => d.stuck.isStuck (.ofNat t)

/-- What `SensorHealthMonitor::update` returns at a call; a query does not reach
it. -/
def healthState (d : Detectors) : FlowCall → Option SensorHealthState
  | .update total t => some (d.health.update total (.ofNat t)).state
  | .isStuck _ => none

end Detectors

/-! ## The observation and the alarms that are due -/

/-- The total last observed, and the true time of the call that first showed it. -/
structure Seen where
  total : UInt64
  since : ℕ

/-- What has been observed after a call. -/
def Seen.observe : Option Seen → FlowCall → Option Seen
  | none, .update total t => some ⟨total, t⟩
  | some s, .update total t => if total = s.total then some s else some ⟨total, t⟩
  | s, .isStuck _ => s

/-- How long the total has been unchanged at a call: nothing when no total has been
observed yet, or when the call shows a new one. -/
def Seen.idle : Option Seen → FlowCall → Option ℕ
  | none, _ => none
  | some s, .update total t => if total = s.total then some (t - s.since) else none
  | some s, .isStuck t => some (t - s.since)

/-- `P` holds at every call of a run: it is told the detectors and the observation
before the call, and the call. -/
def AtEveryCall (P : Detectors → Option Seen → FlowCall → Prop) :
    Detectors → Option Seen → List FlowCall → Prop
  | _, _, [] => True
  | d, s, c :: cs => P d s c ∧ AtEveryCall P (d.step c) (Seen.observe s c) cs

/-- The alarms that are due at a call are given. -/
def AlarmsHold (d : Detectors) (s : Option Seen) (c : FlowCall) : Prop :=
  ∀ idle, Seen.idle s c = some idle →
    (d.stuck.thresholdMs.toNat ≤ idle → d.reportsStuck c = true) ∧
    (d.health.suspectThresholdMs ≠ 0 → d.health.suspectThresholdMs.toNat ≤ idle →
      ∀ state, d.healthState c = some state → state = .suspect)

/-- Where an alarm is due at a call, the idle time is still as long as the threshold
when whole turns of the clock are taken off.  This speaks of the calls and of the
two settings only. -/
def VisiblyIdle (thresholdMs suspectThresholdMs : UInt32) (s : Option Seen) (c : FlowCall) :
    Prop :=
  ∀ idle, Seen.idle s c = some idle →
    (thresholdMs.toNat ≤ idle → thresholdMs.toNat ≤ idle % 2 ^ 32) ∧
    (suspectThresholdMs ≠ 0 → suspectThresholdMs.toNat ≤ idle →
      c.IsUpdate → suspectThresholdMs.toNat ≤ idle % 2 ^ 32)

/-- The calls that follow the time `last`, in order. -/
def FlowOrdered : ℕ → List FlowCall → Prop
  | _, [] => True
  | last, c :: cs => last ≤ c.time ∧ FlowOrdered c.time cs

/-! ## What the detectors remember -/

/-- The detectors know what has been observed, up to the clock. -/
def Tracks (d : Detectors) : Option Seen → Prop
  | none => d.stuck.initialized = false ∧ d.health.initialized = false
  | some s =>
      (d.stuck.initialized = true ∧ d.stuck.lastTotal = s.total ∧
        d.stuck.lastChangeMs = .ofNat s.since) ∧
      d.health.initialized = true ∧ d.health.lastTotal = s.total ∧
        d.health.lastPulseMs = .ofNat s.since

/-- An update of the health monitor that shows the total it has keeps the clock's
reading; only the state may move. -/
theorem SensorHealthMonitor.update_same {m : SensorHealthMonitor} (hi : m.initialized = true)
    (nowMs : UInt32) :
    (m.update m.lastTotal nowMs).initialized = true ∧
      (m.update m.lastTotal nowMs).lastTotal = m.lastTotal ∧
      (m.update m.lastTotal nowMs).lastPulseMs = m.lastPulseMs ∧
      (m.update m.lastTotal nowMs).suspectThresholdMs = m.suspectThresholdMs := by
  simp only [update, hi, not_true_eq_false, if_false, ne_eq]
  refine ⟨?_, ?_, ?_, ?_⟩ <;> split_ifs <;> first | rfl | exact hi

/-- **A call keeps the detectors in step with what has been observed.** -/
theorem tracks_step {d : Detectors} {s : Option Seen} (h : Tracks d s) (c : FlowCall) :
    Tracks (d.step c) (Seen.observe s c) := by
  cases c with
  | isStuck t => cases s <;> exact h
  | update total t =>
    cases s with
    | none =>
      obtain ⟨hs, hh⟩ := h
      simp [Detectors.step, Seen.observe, Tracks, SensorStuckDetector.update,
        SensorHealthMonitor.update, hs, hh]
    | some s =>
      obtain ⟨⟨hi, ht, hc⟩, hhi, hht, hhc⟩ := h
      by_cases heq : total = s.total
      · subst heq
        have hsame := SensorHealthMonitor.update_same hhi (.ofNat t)
        rw [hht, hhc] at hsame
        simp only [Detectors.step, Seen.observe, if_true, Tracks]
        refine ⟨?_, hsame.1, hsame.2.1, hsame.2.2.1⟩
        simp [SensorStuckDetector.update, hi, ht, hc]
      · have hs : total ≠ d.stuck.lastTotal := by rw [ht]; exact heq
        have hh : total ≠ d.health.lastTotal := by rw [hht]; exact heq
        simp [Detectors.step, Seen.observe, heq, Tracks, SensorStuckDetector.update,
          SensorHealthMonitor.update, hi, hhi, hs, hh]

/-- The thresholds are settings. -/
theorem thresholds_step (d : Detectors) (c : FlowCall) :
    (d.step c).stuck.thresholdMs = d.stuck.thresholdMs ∧
      (d.step c).health.suspectThresholdMs = d.health.suspectThresholdMs := by
  cases c with
  | isStuck t => exact ⟨rfl, rfl⟩
  | update total t =>
    simp only [Detectors.step, SensorStuckDetector.update, SensorHealthMonitor.update]
    constructor <;> split_ifs <;> rfl

/-! ## One call -/

/-- What the stuck detector reports while the total stands still. -/
theorem reportsStuck_iff {d : Detectors} {s : Seen} (h : Tracks d (some s)) {c : FlowCall}
    (hle : s.since ≤ c.time) {idle : ℕ} (hidle : Seen.idle (some s) c = some idle) :
    d.reportsStuck c = true ↔ d.stuck.thresholdMs.toNat ≤ idle % 2 ^ 32 := by
  obtain ⟨⟨hi, ht, hc⟩, -⟩ := h
  cases c with
  | isStuck t =>
    obtain rfl : t - s.since = idle := Option.some.inj hidle
    have hle : s.since ≤ t := hle
    rw [← Uptime.le_sub_iff hle]
    simp [Detectors.reportsStuck, SensorStuckDetector.isStuck,
      SensorStuckDetector.elapsedSinceChange, hi, hc]
  | update total t =>
    by_cases heq : total = s.total
    · simp only [Seen.idle, heq, if_true] at hidle
      obtain rfl : t - s.since = idle := Option.some.inj hidle
      have hle : s.since ≤ t := hle
      rw [← Uptime.le_sub_iff hle]
      simp [Detectors.reportsStuck, SensorStuckDetector.update,
        SensorStuckDetector.elapsedSinceChange, hi, ht, hc, heq]
    · simp [Seen.idle, heq] at hidle

/-- A total that stands still makes the monitor suspicious exactly when the clock's
difference has reached an armed threshold. -/
theorem SensorHealthMonitor.state_update_same {m : SensorHealthMonitor}
    (hi : m.initialized = true) (hz : m.suspectThresholdMs ≠ 0) (nowMs : UInt32) :
    (m.update m.lastTotal nowMs).state = .suspect ↔
      m.suspectThresholdMs ≤ nowMs - m.lastPulseMs := by
  simp only [update, hi, not_true_eq_false, if_false, ne_eq, hz, not_false_eq_true, true_and]
  split_ifs with hgap hhold hstate
  · exact ⟨fun _ => hgap, fun _ => rfl⟩
  · exact ⟨fun h => (by cases h), fun h => absurd h hgap⟩
  · exact ⟨fun h => (by rw [hstate] at h; cases h), fun h => absurd h hgap⟩
  · exact ⟨fun h => (by cases h), fun h => absurd h hgap⟩

/-- What the health monitor returns while the total stands still. -/
theorem healthState_iff {d : Detectors} {s : Seen} (h : Tracks d (some s)) {c : FlowCall}
    (hle : s.since ≤ c.time) (hz : d.health.suspectThresholdMs ≠ 0) {idle : ℕ}
    (hidle : Seen.idle (some s) c = some idle) :
    (∀ state, d.healthState c = some state → state = .suspect) ↔
      (c.IsUpdate → d.health.suspectThresholdMs.toNat ≤ idle % 2 ^ 32) := by
  obtain ⟨-, hi, ht, hc⟩ := h
  cases c with
  | isStuck t => simp [Detectors.healthState, FlowCall.IsUpdate]
  | update total t =>
    by_cases heq : total = s.total
    · simp only [Seen.idle, heq, if_true] at hidle
      obtain rfl : t - s.since = idle := Option.some.inj hidle
      have hle : s.since ≤ t := hle
      have hstate := d.health.state_update_same hi hz (.ofNat t)
      rw [ht, hc, Uptime.le_sub_iff hle] at hstate
      simp [Detectors.healthState, FlowCall.IsUpdate, heq, hstate]
    · simp [Seen.idle, heq] at hidle

/-- What has been observed lies in the past. -/
def Past (last : ℕ) (s : Option Seen) : Prop := ∀ x, s = some x → x.since ≤ last

theorem past_observe {last : ℕ} {s : Option Seen} (h : Past last s) {c : FlowCall}
    (hc : last ≤ c.time) : Past c.time (Seen.observe s c) := by
  intro x hx
  cases c with
  | isStuck t => cases s <;> exact (h x hx).trans hc
  | update total t =>
    cases s with
    | none =>
      obtain rfl : ⟨total, t⟩ = x := Option.some.inj hx
      exact le_rfl
    | some s =>
      rw [Seen.observe] at hx
      split_ifs at hx
      · exact (h x hx).trans hc
      · obtain rfl : ⟨total, t⟩ = x := Option.some.inj hx
        exact le_rfl

/-- **At one call** the alarms that are due are given exactly when the idle time
shows on the clock. -/
theorem alarmsHold_iff {d : Detectors} {s : Option Seen} (h : Tracks d s) {c : FlowCall}
    (hpast : Past c.time s) :
    AlarmsHold d s c ↔
      VisiblyIdle d.stuck.thresholdMs d.health.suspectThresholdMs s c := by
  cases s with
  | none => exact ⟨fun _ _ h => (by cases h), fun _ _ h => (by cases h)⟩
  | some s =>
    refine forall_congr' fun idle => forall_congr' fun hidle => ?_
    have hle := hpast s rfl
    refine and_congr ?_ ?_
    · exact forall_congr' fun _ => reportsStuck_iff h hle hidle
    · refine forall_congr' fun hz => forall_congr' fun _ => ?_
      exact healthState_iff h hle hz hidle

/-! ## A run -/

theorem atEveryCall_iff {cs : List FlowCall} {d : Detectors} {s : Option Seen} {last : ℕ}
    (h : Tracks d s) (hpast : Past last s) (hcs : FlowOrdered last cs) :
    AtEveryCall AlarmsHold d s cs ↔
      AtEveryCall (fun _ => VisiblyIdle d.stuck.thresholdMs d.health.suspectThresholdMs)
        d s cs := by
  induction cs generalizing d s last with
  | nil => exact Iff.rfl
  | cons c cs ih =>
    have hat : Past c.time s := fun x hx => (hpast x hx).trans hcs.1
    have hrest := ih (tracks_step h c) (past_observe hpast hcs.1) hcs.2
    rw [(thresholds_step d c).1, (thresholds_step d c).2] at hrest
    exact and_congr (alarmsHold_iff h hat) hrest

/-- **No-flow alarms.**  In every run of calls in order, the alarms that are due are
given at every call exactly when at every call the idle time, less whole turns of
the clock, is still as long as the threshold. -/
theorem alarms_hold_iff (thresholdMs suspectThresholdMs : UInt32) (cs : List FlowCall)
    (h : FlowOrdered 0 cs) :
    AtEveryCall AlarmsHold (Detectors.make thresholdMs suspectThresholdMs) none cs ↔
      AtEveryCall (fun _ => VisiblyIdle thresholdMs suspectThresholdMs)
        (Detectors.make thresholdMs suspectThresholdMs) none cs :=
  atEveryCall_iff (d := Detectors.make thresholdMs suspectThresholdMs) (s := none)
    ⟨rfl, rfl⟩ (fun _ hx => by cases hx) h

/-- Three updates and a query within one turn of the clock. -/
theorem alarms_hold_iff_day :
    AtEveryCall AlarmsHold (Detectors.make 1000 5000) none
      [.update 42 7, .update 42 1006, .isStuck 1007, .update 42 86400000] := by
  have hordered : FlowOrdered 0
      [.update 42 7, .update 42 1006, .isStuck 1007, .update 42 86400000] :=
    ⟨by decide, by decide, by decide, by decide, trivial⟩
  refine (alarms_hold_iff 1000 5000 _ hordered).mpr ⟨?_, ?_, ?_, ?_, trivial⟩
  · rintro idle ⟨⟩
  · rintro idle ⟨⟩
    exact ⟨by decide, fun _ h _ => (by revert h; decide)⟩
  · rintro idle ⟨⟩
    exact ⟨by decide, fun _ h _ => (by revert h; decide)⟩
  · rintro idle ⟨⟩
    exact ⟨by decide, fun _ h _ => (by revert h; decide)⟩

/-- A total that stands still for exactly one turn of the clock: both alarms are
off again, at calls no more than `2 ^ 31` ms apart. -/
theorem alarms_off_after_turn :
    ¬ AtEveryCall AlarmsHold (Detectors.make 1000 5000) none
      [.update 42 0, .update 42 2147483648, .update 42 4294967296] := by
  rintro ⟨-, -, h, -⟩
  exact absurd ((h 4294967296 (by decide)).1 (by decide)) (by decide)

end Monitor
end CovioFirmware
