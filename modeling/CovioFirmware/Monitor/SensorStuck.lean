import Mathlib.Data.UInt

/-!
# `sensor_stuck.h`

The detector of a meter that has stopped moving.  It remembers the last total it
was shown and the clock's reading when that total first appeared; an alarm is a
32-bit difference of two readings.
-/

namespace CovioFirmware
namespace Monitor

/-- The object's members. -/
structure SensorStuckDetector where
  thresholdMs : UInt32
  initialized : Bool := false
  lastTotal : UInt64 := 0
  lastChangeMs : UInt32 := 0
  deriving DecidableEq

namespace SensorStuckDetector

/-- `elapsedSinceChange_`. -/
def elapsedSinceChange (d : SensorStuckDetector) (nowMs : UInt32) : UInt32 :=
  nowMs - d.lastChangeMs

/-- `update`: the alarm, and the object afterwards. -/
def update (d : SensorStuckDetector) (total : UInt64) (nowMs : UInt32) :
    Bool × SensorStuckDetector :=
  if ¬ d.initialized then
    (false, { d with initialized := true, lastTotal := total, lastChangeMs := nowMs })
  else if total ≠ d.lastTotal then
    (false, { d with lastTotal := total, lastChangeMs := nowMs })
  else (decide (d.thresholdMs ≤ d.elapsedSinceChange nowMs), d)

/-- `isStuck`. -/
def isStuck (d : SensorStuckDetector) (nowMs : UInt32) : Bool :=
  d.initialized && decide (d.thresholdMs ≤ d.elapsedSinceChange nowMs)

end SensorStuckDetector

end Monitor
end CovioFirmware
