import Mathlib.Data.UInt

/-!
# `pulse_plausibility.h`

The pulse-rate monitor of the wire-drawing profile.  It is handed the lifetime
total once per telemetry cycle and watches the rate between two readings: three
readings in a row above the ceiling raise its flag, five in a row at or below the
ceiling clear it.  It never touches the count.

All arithmetic is the machine's: the time step is a 32-bit difference, the rate is
computed in 64 bits and kept in 32.
-/

namespace CovioFirmware
namespace Monitor

/-- The object's members. -/
structure PulsePlausibilityMonitor where
  maxHz : UInt32
  initialized : Bool := false
  suspect : Bool := false
  lastTotal : UInt64 := 0
  lastMs : UInt32 := 0
  peakHz : UInt32 := 0
  violations : UInt32 := 0
  overStreak : UInt8 := 0
  normalStreak : UInt8 := 0
  deriving DecidableEq

/-- The rate between two readings: pulses gained, per second of uptime. -/
def pulseHz (lastTotal total : UInt64) (dtMs : UInt32) : UInt32 :=
  let delta := if lastTotal ≤ total then total - lastTotal else 0
  (delta * 1000 / dtMs.toUInt64).toUInt32

namespace PulsePlausibilityMonitor

/-- `setMaxHz`: a new ceiling starts the streaks afresh. -/
def setMaxHz (m : PulsePlausibilityMonitor) (maxHz : UInt32) : PulsePlausibilityMonitor :=
  { m with
    maxHz := maxHz
    overStreak := 0
    normalStreak := 0
    suspect := if maxHz = 0 then false else m.suspect }

/-- The part of `update` behind the test for a disabled monitor. -/
def judge (m : PulsePlausibilityMonitor) (hz : UInt32) : PulsePlausibilityMonitor :=
  if m.maxHz < hz then
    { m with
      violations := m.violations + 1
      normalStreak := 0
      overStreak := m.overStreak + 1
      suspect := m.suspect || decide (3 ≤ m.overStreak + 1) }
  else if m.suspect then
    { m with
      overStreak := 0
      normalStreak := m.normalStreak + 1
      suspect := decide (m.normalStreak + 1 < 5) }
  else { m with overStreak := 0 }

/-- `update`; the value it returns is the new `suspect`. -/
def update (m : PulsePlausibilityMonitor) (total : UInt64) (nowMs : UInt32) :
    PulsePlausibilityMonitor :=
  if ¬ m.initialized then
    { m with initialized := true, lastTotal := total, lastMs := nowMs }
  else
    let dtMs := nowMs - m.lastMs
    if dtMs = 0 then m
    else
      let hz := pulseHz m.lastTotal total dtMs
      let m := { m with
        lastTotal := total
        lastMs := nowMs
        peakHz := if m.peakHz < hz then hz else m.peakHz }
      if m.maxHz = 0 then m else m.judge hz

/-- One reading above the ceiling does not raise the flag when no streak stands
behind it. -/
theorem judge_suspect {m : PulsePlausibilityMonitor} (hs : m.suspect = false)
    (ho : m.overStreak = 0) (hz : UInt32) : (m.judge hz).suspect = false := by
  unfold judge
  split
  · simp only [hs, ho, Bool.false_or]
    decide
  · rw [if_neg (by simp [hs])]
    exact hs

/-- **A reload before a reading keeps the flag down.**  `setMaxHz` empties the
streak, so the reading after it counts as the first of its kind. -/
theorem suspect_update_setMaxHz {m : PulsePlausibilityMonitor} (hs : m.suspect = false)
    (maxHz : UInt32) (total : UInt64) (nowMs : UInt32) :
    ((m.setMaxHz maxHz).update total nowMs).suspect = false := by
  have hset : (m.setMaxHz maxHz).suspect = false := by
    simp only [setMaxHz, hs, ite_self]
  unfold update
  split
  · exact hset
  · simp only
    split
    · exact hset
    · split
      · exact hset
      · refine judge_suspect ?_ rfl _
        exact hset

end PulsePlausibilityMonitor

end Monitor
end CovioFirmware
