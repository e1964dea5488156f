import Mathlib.Data.UInt

/-!
# `sensor_health.h`

The second monitor of the wire-drawing profile: it watches how long the lifetime
total has stood still.  Like the rate monitor it only reports.
-/

namespace CovioFirmware
namespace Monitor

/-- `SensorHealthState`. -/
inductive SensorHealthState where
  | starting | active | idle | suspect
  deriving DecidableEq

/-- The object's members. -/
structure SensorHealthMonitor where
  suspectThresholdMs : UInt32
  initialized : Bool := false
  state : SensorHealthState := .starting
  lastTotal : UInt64 := 0
  lastPulseMs : UInt32 := 0
  deriving DecidableEq

namespace SensorHealthMonitor

/-- `ACTIVE_HOLD_MS`. -/
def activeHoldMs : UInt32 := 10000

/-- `setSuspectThresholdMs`. -/
def setSuspectThresholdMs (m : SensorHealthMonitor) (v : UInt32) : SensorHealthMonitor :=
  { m with suspectThresholdMs := v }

/-- `update`; the value it returns is the new `state`. -/
def update (m : SensorHealthMonitor) (total : UInt64) (nowMs : UInt32) : SensorHealthMonitor :=
  if ¬ m.initialized then
    { m with initialized := true, lastTotal := total, lastPulseMs := nowMs, state := .starting }
  else if total ≠ m.lastTotal then
    { m with lastTotal := total, lastPulseMs := nowMs, state := .active }
  else
    let gap := nowMs - m.lastPulseMs
    if m.suspectThresholdMs ≠ 0 ∧ m.suspectThresholdMs ≤ gap then { m with state := .suspect }
    else if activeHoldMs ≤ gap then { m with state := .idle }
    else if m.state ≠ .starting then { m with state := .active }
    else m

end SensorHealthMonitor

end Monitor
end CovioFirmware
