import CovioFirmware.Device.Sync
import CovioFirmware.Device.Footprint

/-!
# `loop()`

One iteration of `loop()` in the blocks of the source: the provisioning branch, the
telemetry cycle, and at most one network transaction --- push, configuration poll or
update poll, whichever is due first.  The first two may find the device healthy and
confirm the running image.

Whether provisioning mode is active, and what a telemetry row carries besides the
totalizer, are told to the iteration by parts that are not modelled (`Tick`).
-/

namespace CovioFirmware
namespace Device

/-- `TELEMETRY_PERIOD_MS`. -/
def telemetryPeriodMs : UInt32 := 1000

/-- `CONFIG_POLL_MS`. -/
def configPollMs : UInt32 := 60000

/-- `OTA_POLL_MS`. -/
def otaPollMs : UInt32 := 300000

/-- The global objects and timers of the firmware. -/
structure Main where
  d : Globals
  net : Sync := {}
  tTelemetry : UInt32 := 0
  tPush : UInt32 := 0
  tConfig : UInt32 := 0
  tOta : UInt32 := 0
  /-- The timer inside `covioBackgroundService`. -/
  tBgTot : UInt32 := 0
  healthySignalled : Bool := false

/-- What one iteration is told. -/
structure Tick where
  sample : Sample
  /-- `wifiProvision.active()`. -/
  provisioning : Bool

namespace Main

/-- `covioBackgroundService`. -/
def covioBackgroundService (m : Main) : Fw Main := do
  let now ← Fw.millis
  if 30000 ≤ now - m.tBgTot then do
    let d ← m.d.backgroundService
    return { m with d := d, tBgTot := now }
  else return m

/-- The telemetry block. -/
def telemetry (m : Main) (now : UInt32) (s : Sample) : Fw Main := do
  if telemetryPeriodMs ≤ now - m.tTelemetry then do
    let d ← m.d.telemetryCycle s
    return { m with d := d, tTelemetry := now }
  else return m

/-- `ota.confirmHealthyBoot()`, once per boot. -/
def signalHealthy (m : Main) (healthy : Bool) : Fw Main := do
  if healthy ∧ ¬ m.healthySignalled then do
    Fw.confirmHealthyBoot
    return { m with healthySignalled := true }
  else return m

/-- The push block, when it is due. -/
def push (m : Main) (now : UInt32) : Fw Main := do
  let (acked, net, d) ← m.net.pushOnce m.d
  signalHealthy { m with net := net, d := d, tPush := now } acked

/-- The configuration block, when it is due. -/
def config (m : Main) (now : UInt32) : Fw Main := do
  Sync.pollConfig
  let on ← Fw.online
  signalHealthy { m with tConfig := now } on

/-- The update block, when it is due. -/
def ota (m : Main) (now : UInt32) : Fw Main := do
  let _ ← Fw.online
  Fw.otaPoll
  return { m with tOta := now }

/-- The three network blocks: the first that is due runs. -/
def network (m : Main) (now : UInt32) : Fw Main :=
  if pushPeriodMs ≤ now - m.tPush then m.push now
  else if configPollMs ≤ now - m.tConfig then m.config now
  else if otaPollMs ≤ now - m.tOta then m.ota now
  else return m

/-- `loop()`. -/
def loop (m : Main) (t : Tick) : Fw Main := do
  let now ← Fw.millis
  if t.provisioning then m.covioBackgroundService
  else do
    let m ← m.telemetry now t.sample
    m.network now

/-- `loop()` again and again. -/
def loops : Main → List Tick → Fw Main
  | m, [] => return m
  | m, t :: ts => do
      let m ← m.loop t
      loops m ts

/-- A boot, and the iterations that follow. -/
def run (bootId : UInt32) (ts : List Tick) : Fw Main := do
  let d ← setup bootId
  loops { d := d } ts

end Main

end Device
end CovioFirmware
