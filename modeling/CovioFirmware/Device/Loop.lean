import CovioFirmware.Device.EventQueue
import CovioFirmware.Crash.System

/-!
# `covio_firmware.ino`

The parts of `setup()` and `loop()` that touch the totalizer and the queue: the
recovery at boot, the telemetry cycle (count the seq, take the total, append the
row, then checkpoint), and the checkpoint that keeps counting alive while the
device is being provisioned or updated.

What a telemetry row carries besides total, seq and boot id --- the uptime, the
signal strength, the advisory quality bits of the sensor profile --- comes from
parts that are not modelled and is handed in as a `Sample`.
-/

namespace CovioFirmware
namespace Device

/-- `resumeSeqFloor` (`ack_validation.h`). -/
def resumeSeqFloor (checkpointSeq ackedSeq : UInt32) : UInt32 :=
  if ackedSeq ≤ checkpointSeq then checkpointSeq else ackedSeq

/-- `QUEUE_HIGHWATER`. -/
def queueHighwater : UInt32 := 20000

/-- What the clock, the radio and the sensor profile contribute to a row. -/
structure Sample where
  uptimeSec : UInt32
  rssiAbs : UInt16
  /-- `QUALITY_SUSPECT_RATE`, `QUALITY_SENSOR_SUSPECT`, as far as they apply. -/
  qualityBits : UInt16

/-- `Telemetry::build`, with the advisory bits `loop()` adds before the append. -/
def telemetryBuild (s : Sample) (bootId : UInt32) (total : UInt64) (seq : UInt32)
    (backlogHigh : Bool) : QRow where
  magic := 0
  schemaVersion := 1
  recordType := 1
  bootId := bootId
  seq := seq
  ts := s.uptimeSec
  totalizer := total
  quality := (if backlogHigh then 1 else 0) ||| s.qualityBits
  rssiAbs := s.rssiAbs
  crc32 := 0

/-- The global objects of the firmware, as far as they matter here. -/
structure Globals where
  tot : Totalizer
  q : EventQueue
  /-- `seq`: the last seq handed out. -/
  seq : UInt32
  bootId : UInt32
  deriving DecidableEq

/-- The recovery steps of `setup()`. -/
def setup (bootId : UInt32) : Fw Globals := do
  let t ← Totalizer.begin bootId
  let (q, t) ← EventQueue.begin t
  return { tot := t, q := q, seq := resumeSeqFloor t.lastSeq q.ack.ackedSeq, bootId := bootId }

namespace Globals

/-- The telemetry block of `loop()`. -/
def telemetryCycle (d : Globals) (s : Sample) : Fw Globals := do
  let seq := d.seq + 1
  let total ← d.tot.total
  let row := telemetryBuild s d.bootId total seq (decide (queueHighwater < d.q.unackedCount))
  let (q, t) ← d.q.append d.tot row
  let t ← t.service seq
  return { d with tot := t, q := q, seq := seq }

/-- `covioBackgroundService`, on the ticks at which it does something. -/
def backgroundService (d : Globals) : Fw Globals := do
  let t ← d.tot.service d.tot.lastSeq
  return { d with tot := t }

/-- `eventQueue.append(row)`. -/
def append (d : Globals) (row : QRow) : Fw Globals := do
  let (q, t) ← d.q.append d.tot row
  return { d with tot := t, q := q }

/-- `eventQueue.ackThrough(ackedSeq, bootId)`. -/
def ackThrough (d : Globals) (ackedSeq bootId : UInt32) : Fw Globals := do
  let q ← d.q.ackThrough d.tot ackedSeq bootId
  return { d with q := q }

/-- `eventQueue.pending(out, maxN)` on the present files. -/
def pending (d : Globals) (fs : Path → Option Data) (maxN : ℕ) : List QRow :=
  d.q.pending fs d.tot maxN

/-- `eventQueue.recoverQueueStorage()`. -/
def recoverQueueStorage (d : Globals) : Fw Globals := do
  let (q, t) ← d.q.recoverQueueStorage d.tot
  return { d with tot := t, q := q }

/-- `eventQueue.resetAckToCurrentPosition(currentSeq)`. -/
def resetAckToCurrentPosition (d : Globals) (currentSeq : UInt32) : Fw Globals := do
  let q ← d.q.resetAckToCurrentPosition d.tot currentSeq
  return { d with q := q }

end Globals

/-! ## The operations on the queue -/

/-- The calls that move the queue.  `pending` only reads. -/
inductive QueueOp where
  | append (row : QRow) : QueueOp
  | service (seq : UInt32) : QueueOp
  | ackThrough (ackedSeq bootId : UInt32) : QueueOp

/-- The operations as routines. -/
def QueueOp.run : QueueOp → Globals → Fw Globals
  | .append row, d => d.append row
  | .service seq, d => do
      let t ← d.tot.service seq
      return { d with tot := t }
  | .ackThrough ackedSeq bootId, d => d.ackThrough ackedSeq bootId

/-- The same with the operator at the console. -/
inductive ConsoleOp where
  | queue (i : QueueOp) : ConsoleOp
  | resetAck (currentSeq : UInt32) : ConsoleOp
  | recoverQueue : ConsoleOp

/-- The operations as routines. -/
def ConsoleOp.run : ConsoleOp → Globals → Fw Globals
  | .queue i, d => i.run d
  | .resetAck currentSeq, d => d.resetAckToCurrentPosition currentSeq
  | .recoverQueue, d => d.recoverQueueStorage

end Device
end CovioFirmware
