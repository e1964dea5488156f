import CovioFirmware.Server.Values

/-!
# `device_events`

The audit trail.  Every event is written by `record_event`, on the connection of its
caller, so that it is committed with the change it records, or not at all.  The table
is append-only and its ids ascend; the model has it as the list of its rows.
-/

namespace CovioFirmware
namespace Server

/-- The row of `calibration`. -/
structure Calibration where
  kFactor : Cell
  density : Cell
  tRef : Cell
  version : ℕ
  deriving DecidableEq

/-- The `event_type`s. -/
inductive EventType where
  | adminAuthFailed | apiAuthFailed | deviceProvisioned | keyRevoked | keyRotated
  | calibrationChanged
  deriving DecidableEq

/-- The text of the column. -/
def EventType.text : EventType → PyStr
  | .adminAuthFailed => py "ADMIN_AUTH_FAILED"
  | .apiAuthFailed => py "API_AUTH_FAILED"
  | .deviceProvisioned => py "DEVICE_PROVISIONED"
  | .keyRevoked => py "KEY_REVOKED"
  | .keyRotated => py "KEY_ROTATED"
  | .calibrationChanged => py "CALIBRATION_CHANGED"

/-- The `severity`s that are written. -/
inductive Severity where
  | info | warning
  deriving DecidableEq

/-- The text of the column. -/
def Severity.text : Severity → PyStr
  | .info => py "INFO"
  | .warning => py "WARNING"

/-- The dictionaries dumped into `detail_json`. -/
inductive EventDetail where
  /-- `path` and `remote_addr`. -/
  | adminRequest (path remoteAddr : PyStr) : EventDetail
  /-- `asset_label` and `logical_device_id`. -/
  | provisioned (assetLabel : Option PyStr) (logicalDeviceId : PyStr) : EventDetail
  /-- `old` and `new`. -/
  | calibration (old new : Calibration) : EventDetail
  deriving DecidableEq

/-- A row of `device_events`. -/
structure DeviceEvent where
  deviceId : Option PyStr
  eventType : EventType
  severity : Severity
  message : PyStr
  detail : Option EventDetail
  createdAtMs : ℤ
  deriving DecidableEq

/-- `record_event`. -/
def recordEvent (events : List DeviceEvent) (e : DeviceEvent) : List DeviceEvent := events ++ [e]

end Server
end CovioFirmware
