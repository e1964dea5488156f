import CovioFirmware.Bytes.JsonText
import CovioFirmware.Device.Records
import CovioFirmware.Upgrade.Health

/-!
# The body of a push

`Telemetry::toJson` builds the text by appending to a string: the envelope with the
device's identity, the reason of its last reset and the outcome of its last update,
and the records.  Two members are conditional, and so are the commas between the
records and between the members of `ota`.

What the build compiles in, and what the store answers, are inputs.
-/

namespace CovioFirmware
namespace Device

open JsonText Upgrade

/-- `String(n)` for an unsigned number. -/
def decimal (n : ℕ) : List Char := Nat.toDigits 10 n

/-! ## What is sent of the device -/

/-- `FW_VERSION` and `DEVICE_MODEL`. -/
structure Build where
  fwVersion : List Char
  deviceModel : List Char

/-- The build of the oil-flow meter. -/
def oilflowBuild : Build := ⟨"1.4.0".toList, "covio-oilflow-v1".toList⟩

/-- The build of the Miki unit. -/
def mikiWireBuild : Build := ⟨"1.4.0".toList, "miki-wire-v1".toList⟩

/-- `%0kX`. -/
def hexUpper (k n : ℕ) : List Char :=
  List.replicate (k - (Nat.toDigits 16 n).length) '0' ++ (Nat.toDigits 16 n).map Char.toUpper

/-- `chipId`, of the address in the fuses. -/
def chipId (mac : UInt64) : List Char :=
  "esp32-".toList ++ hexUpper 4 (mac >>> 32).toUInt16.toNat ++ hexUpper 8 mac.toUInt32.toNat

/-- What the store answers. -/
structure StoreFields where
  deviceId : List Char
  cfgVer : UInt32
  bootId : UInt32
  restartCount : UInt32
  watchdogResetCount : UInt32
  brownoutResetCount : UInt32
  securityVersion : UInt32

/-- `resetReasonName`, by the number of the reason. -/
def resetReasonName (r : Int32) : Option (List Char) :=
  match r.toInt with
  | 1 => some "power_on".toList
  | 2 => some "external_pin".toList
  | 3 => some "software".toList
  | 4 => some "panic".toList
  | 5 => some "watchdog".toList
  | 6 => some "watchdog".toList
  | 7 => some "watchdog".toList
  | 9 => some "brownout".toList
  | 8 => some "deepsleep".toList
  | _ => none

/-- `OtaState`. -/
inductive OtaState where
  | none | pendingVerify | confirmed | failed
  deriving DecidableEq

/-- `otaStateStr`. -/
def otaStateStr : OtaState → List Char
  | .pendingVerify => "pending_verify".toList
  | .confirmed => "confirmed".toList
  | .failed => "failed".toList
  | .none => "none".toList

/-- `otaVerdictStr`. -/
def otaVerdictStr : OtaVerdict → List Char
  | .accept => "accept".toList
  | .missingMetadata => "missing_metadata".toList
  | .malformedVersion => "malformed_version".toList
  | .downgrade => "downgrade_rejected".toList
  | .hwMismatch => "hardware_mismatch".toList
  | .schemaMismatch => "schema_mismatch".toList

/-! ## `Telemetry::toJson` -/

/-- The text of the reset reason. -/
def resetReasonText (r : Int32) : List Char :=
  match resetReasonName r with
  | some name => name
  | none => "unknown(".toList ++ int r.toInt ++ ")".toList

/-- The block `boot`. -/
def bootText (st : StoreFields) (rr : Int32) : List Char :=
  ",\"boot\":\x7b\"boot_id\":".toList ++ decimal st.bootId.toNat ++
  ",\"reset_reason\":\"".toList ++
  resetReasonText rr ++
  "\"".toList ++
  ",\"reset_reason_raw\":".toList ++ int rr.toInt ++
  ",\"restart_count\":".toList ++ decimal st.restartCount.toNat ++
  ",\"watchdog_reset_count\":".toList ++ decimal st.watchdogResetCount.toNat ++
  ",\"brownout_reset_count\":".toList ++ decimal st.brownoutResetCount.toNat ++
  "\x7d".toList

/-- The member `state` of the block `ota`. -/
def otaStateText (otaState : Option (List Char)) : List Char :=
  match otaState with
  | some s => "\"state\":\"".toList ++ s ++ "\"".toList
  | none => []

/-- The member `last_reject_reason`, with a comma unless it is the first one. -/
def otaRejectText (first : Bool) (otaReject : Option (List Char)) : List Char :=
  match otaReject with
  | some s =>
      (if first then [] else ",".toList) ++ "\"last_reject_reason\":\"".toList ++ s ++ "\"".toList
  | none => []

/-- The block `ota`. -/
def otaText (st : StoreFields) (otaState otaReject : Option (List Char)) : List Char :=
  if otaState.isSome ∨ otaReject.isSome then
    ",\"ota\":\x7b".toList ++
    otaStateText otaState ++
    otaRejectText otaState.isNone otaReject ++
    ",\"security_version\":".toList ++ decimal st.securityVersion.toNat ++
    "\x7d".toList
  else []

/-- One record. -/
def recordText (r : QRow) : List Char :=
  "\x7b\"schema_version\":".toList ++ decimal r.schemaVersion.toNat ++
  ",\"record_type\":".toList ++ decimal r.recordType.toNat ++
  ",\"boot_id\":".toList ++ decimal r.bootId.toNat ++
  ",\"seq\":".toList ++ decimal r.seq.toNat ++
  ",\"ts\":".toList ++ decimal r.ts.toNat ++
  ",\"totalizer\":".toList ++ decimal r.totalizer.toNat ++
  ",\"quality\":".toList ++ decimal r.quality.toNat ++
  ",\"rssi\":-".toList ++ decimal r.rssiAbs.toNat ++
  "\x7d".toList

/-- The loop over the records, from the one of index `i` on. -/
def recordsText (i : ℕ) : List QRow → List Char
  | [] => []
  | r :: rows => (if i ≠ 0 then ",".toList else []) ++ recordText r ++ recordsText (i + 1) rows

/-- `toJson`, for the `n` rows of a batch. -/
def toJson (b : Build) (st : StoreFields) (rr : Int32) (rows : List QRow)
    (otaState otaReject : Option (List Char)) : List Char :=
  "\x7b\"device_id\":\"".toList ++ st.deviceId ++ "\"".toList ++
  ",\"fw\":\"".toList ++ b.fwVersion ++ "\"".toList ++
  ",\"model\":\"".toList ++ b.deviceModel ++ "\"".toList ++
  ",\"kfactor_version\":".toList ++ decimal st.cfgVer.toNat ++
  bootText st rr ++
  otaText st otaState otaReject ++
  ",\"records\":[".toList ++
  recordsText 0 rows ++
  "]\x7d".toList

end Device
end CovioFirmware
