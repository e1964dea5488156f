import CovioFirmware.Server.Registry

/-!
# The requests that administer the fleet

The handlers of `server.py` that change the registry, each a program on a connection of
its own, with the audit event each of them records.  The clock readings and the
generated key are part of a request; `hashApiKey` is a parameter.

Note where `allocate_logical_device_id` commits: on the connection of
`provision_device`, in the middle of its transaction.
-/

namespace CovioFirmware
namespace Server

open Admin Sql

/-- `"COV-%06d"`. -/
def formatLogicalId (n : ℕ) : PyStr :=
  py "COV-" ++ (List.replicate (6 - (Nat.toDigits 10 n).length) '0' ++ Nat.toDigits 10 n).map
    Char.toNat

/-- `allocate_logical_device_id`. -/
def allocateLogicalDeviceId : Admin PyStr := do
  exec .incrementCounter
  commit
  let value ← query .counter
  return formatLogicalId value

/-- The body of a request to provision a device, with the key generated for it and the
clock. -/
structure ProvisionRequest where
  deviceId : PyStr
  assetLabel : Option PyStr
  apiKey : PyStr
  nowMs : ℤ
  createdAtMs : ℤ

/-- What `provision_device` answers. -/
inductive ProvisionAnswer where
  /-- 400, `DEVICE_ID_REQUIRED`. -/
  | deviceIdRequired : ProvisionAnswer
  | provisioned (deviceId apiKey : PyStr) (provisionedAtMs : ℤ) (logicalDeviceId : PyStr) :
      ProvisionAnswer
  deriving DecidableEq

/-- The event of a provisioned device. -/
def ProvisionRequest.event (r : ProvisionRequest) (logicalDeviceId : PyStr) : DeviceEvent where
  deviceId := some r.deviceId
  eventType := .deviceProvisioned
  severity := .info
  message := py "Device provisioned with a new unique API key."
  detail := some (.provisioned r.assetLabel logicalDeviceId)
  createdAtMs := r.createdAtMs

/-- The logical id the device has already, if it is not empty. -/
def existingLogicalId (existing : Option DeviceRow) : Option PyStr :=
  (existing.bind DeviceRow.logicalDeviceId).filter (· ≠ [])

/-- The `INSERT` or `UPDATE` of `provision_device`. -/
def upsertDevice (hashApiKey : PyStr → PyStr) (r : ProvisionRequest) :
    Option DeviceRow → Admin Unit
  | some _ => exec (.updateProvisioned r.deviceId (hashApiKey r.apiKey) r.assetLabel r.nowMs)
  | none => exec (.insertProvisioned r.deviceId (hashApiKey r.apiKey) r.assetLabel r.nowMs)

/-- The end of `provision_device`, behind the logical id. -/
def finishProvisioning (r : ProvisionRequest) (logicalDeviceId : PyStr) :
    Admin ProvisionAnswer := do
  exec (.insertEvent (r.event logicalDeviceId))
  commit
  return .provisioned r.deviceId r.apiKey r.nowMs logicalDeviceId

/-- The part of `provision_device` behind its first statement: the logical id is allocated
if the device has none. -/
def completeProvisioning (r : ProvisionRequest) (existing : Option DeviceRow) :
    Admin ProvisionAnswer :=
  match existingLogicalId existing with
  | some logicalDeviceId => finishProvisioning r logicalDeviceId
  | none => do
      let logicalDeviceId ← allocateLogicalDeviceId
      exec (.setLogicalId r.deviceId logicalDeviceId)
      finishProvisioning r logicalDeviceId

/-- `provision_device`. -/
def provisionDevice (hashApiKey : PyStr → PyStr) (r : ProvisionRequest) :
    Admin ProvisionAnswer := do
  if r.deviceId = [] then return .deviceIdRequired
  else do
    let existing ← query (.device r.deviceId)
    upsertDevice hashApiKey r existing
    completeProvisioning r existing

/-! ## What provisioning writes -/

/-- The row of the device after the first statement. -/
def ProvisionRequest.row (hashApiKey : PyStr → PyStr) (r : ProvisionRequest) :
    Option DeviceRow → DeviceRow
  | some x => x.provisioned (hashApiKey r.apiKey) r.assetLabel r.nowMs
  | none => provisionedRow r.deviceId (hashApiKey r.apiKey) r.assetLabel r.nowMs

/-- A registry with the device's row written: nothing else has changed. -/
structure Upserted (hashApiKey : PyStr → PyStr) (r : ProvisionRequest) (d d' : Registry) :
    Prop where
  calibration : d'.calibration = d.calibration
  counter : d'.logicalIdCounter = d.logicalIdCounter
  events : d'.events = d.events
  mem : ∀ y, y ∈ d'.devices.rows ↔ y ∈ d.devices.rows ∧ y.deviceId ≠ some r.deviceId ∨
    y = r.row hashApiKey (d.read (.device r.deviceId))

variable {hashApiKey : PyStr → PyStr} {r : ProvisionRequest} {d d' : Registry}

theorem provisionDevice_eq (hid : r.deviceId ≠ []) : provisionDevice hashApiKey r =
    .call (.query (D := registryDialect) (Query.device r.deviceId)) fun existing =>
      upsertDevice hashApiKey r existing >>= fun _ => completeProvisioning r existing := by
  rw [provisionDevice, if_neg hid]
  rfl

theorem upserted_of_update {x : DeviceRow} (hx : d.read (.device r.deviceId) = some x)
    (h : d.updateDevice (some r.deviceId)
      (·.provisioned (hashApiKey r.apiKey) r.assetLabel r.nowMs) = some d') :
    Upserted hashApiKey r d d' := by
  obtain ⟨hmem, hid⟩ := Registry.read_device_eq_some_iff.mp hx
  have hrest := (Registry.updateDevice_eq_some h).1
  refine ⟨by rw [hrest], by rw [hrest], by rw [hrest], fun y => ?_⟩
  rw [Registry.mem_of_updateDevice h, hx]
  refine or_congr_right ⟨?_, ?_⟩
  · rintro ⟨z, hz, hzid, rfl⟩
    rw [Registry.eq_of_deviceId hz hmem hzid hid]
    rfl
  · rintro rfl
    exact ⟨x, hmem, hid, rfl⟩

theorem upserted_of_insert (hnone : d.read (.device r.deviceId) = none)
    (h : d.insertDevice (provisionedRow r.deviceId (hashApiKey r.apiKey) r.assetLabel r.nowMs) =
      some d') : Upserted hashApiKey r d d' := by
  obtain ⟨hrest, -, hrows⟩ := Registry.insertDevice_eq_some h
  refine ⟨by rw [hrest], by rw [hrest], by rw [hrest], fun y => ?_⟩
  rw [hrows, List.mem_append, List.mem_singleton, hnone]
  exact or_congr_left (and_iff_left_of_imp (Registry.read_device_eq_none_iff.mp hnone y)).symm

/-- The first statement is one call, and what it leaves is known. -/
theorem upserted_of_step {α : Type} {f : Unit → Admin α} {c : Call registryDialect}
    {k : c.Reply → Admin α} {a : c.Reply} {s s' : Store Registry}
    (hcall : upsertDevice hashApiKey r (s.current.read (.device r.deviceId)) >>= f = .call c k)
    (hstep : c.step s = some (a, s')) :
    k a = f () ∧ ∃ d', s' = ⟨s.committed, some d'⟩ ∧ Upserted hashApiKey r s.current d' := by
  cases hread : s.current.read (.device r.deviceId) with
  | some x =>
    rw [hread] at hcall
    cases hcall
    obtain ⟨d₁, hwrite, rfl⟩ := Call.of_step_exec hstep
    obtain ⟨d₂, hupdate, hb⟩ := Option.map_eq_some_iff.mp hwrite
    obtain ⟨-, rfl⟩ := Prod.mk.inj hb
    exact ⟨rfl, d₂, rfl, upserted_of_update hread hupdate⟩
  | none =>
    rw [hread] at hcall
    cases hcall
    obtain ⟨d₁, hwrite, rfl⟩ := Call.of_step_exec hstep
    obtain ⟨d₂, hinsert, hb⟩ := Option.map_eq_some_iff.mp hwrite
    obtain ⟨-, rfl⟩ := Prod.mk.inj hb
    exact ⟨rfl, d₂, rfl, upserted_of_insert hread hinsert⟩

/-- It succeeds with a key nobody has. -/
theorem exists_step_upsertDevice {α : Type} (f : Unit → Admin α) {s : Store Registry}
    (hfresh : ∀ x ∈ s.current.devices.rows, x.apiKeyHash ≠ some (hashApiKey r.apiKey)) :
    ∃ (c : Call registryDialect) (k : c.Reply → Admin α) (a : c.Reply) (s' : Store Registry),
      upsertDevice hashApiKey r (s.current.read (.device r.deviceId)) >>= f = .call c k ∧
        c.step s = some (a, s') := by
  cases hread : s.current.read (.device r.deviceId) with
  | some x =>
    obtain ⟨d', hd'⟩ : ∃ d', s.current.updateDevice (some r.deviceId)
        (·.provisioned (hashApiKey r.apiKey) r.assetLabel r.nowMs) = some d' := by
      refine Registry.exists_updateDevice (fun _ => rfl) fun x hx y hy hxid hyid => ⟨?_, ?_⟩
      · exact sameText_eq_false.mpr (.inr (hfresh y hy).symm)
      · have hclash := Registry.clash_of_ne hx hy fun h => hyid (h ▸ hxid)
        exact (Bool.or_eq_false_iff.mp hclash).2
    let w : Write := .updateProvisioned r.deviceId (hashApiKey r.apiKey) r.assetLabel r.nowMs
    have hwrite : registryDialect.write w s.current = some ((), d') :=
      congrArg (Option.map ((), ·)) hd'
    exact ⟨.exec w, fun _ => f (), (), _, rfl, Call.step_exec hwrite⟩
  | none =>
    have hnone := Registry.read_device_eq_none_iff.mp hread
    obtain ⟨d', hd'⟩ : ∃ d', s.current.insertDevice
        (provisionedRow r.deviceId (hashApiKey r.apiKey) r.assetLabel r.nowMs) = some d' := by
      refine Registry.exists_insertDevice (Registry.accepts_iff.mpr fun y hy => ?_)
      have hid := sameText_eq_false.mpr (.inr (hnone y hy))
      have hhash := sameText_eq_false.mpr (.inr (hfresh y hy))
      rw [DeviceRow.clash, provisionedRow, hid, hhash, sameText_comm]
      rfl
    let w : Write := .insertProvisioned r.deviceId (hashApiKey r.apiKey) r.assetLabel r.nowMs
    have hwrite : registryDialect.write w s.current = some ((), d') :=
      congrArg (Option.map ((), ·)) hd'
    exact ⟨.exec w, fun _ => f (), (), _, rfl, Call.step_exec hwrite⟩

/-- What the two requests about a key answer. -/
inductive KeyAnswer where
  /-- 404, `DEVICE_NOT_FOUND`. -/
  | notFound : KeyAnswer
  | done : KeyAnswer
  deriving DecidableEq

/-- `revoke_device_key`. -/
def revokeDeviceKey (deviceId : PyStr) (createdAtMs : ℤ) : Admin KeyAnswer := do
  let row ← query (.device deviceId)
  if row.isNone then return .notFound
  else do
    exec (.revoke deviceId)
    exec (.insertEvent ⟨some deviceId, .keyRevoked, .warning,
      py "API key revoked via admin action.", none, createdAtMs⟩)
    commit
    return .done

/-- `rotate_device_key`. -/
def rotateDeviceKey (hashApiKey : PyStr → PyStr) (deviceId apiKey : PyStr) (createdAtMs : ℤ) :
    Admin KeyAnswer := do
  let row ← query (.device deviceId)
  if row.isNone then return .notFound
  else do
    exec (.setKey deviceId (hashApiKey apiKey))
    exec (.insertEvent ⟨some deviceId, .keyRotated, .info,
      py "API key rotated via admin action.", none, createdAtMs⟩)
    commit
    return .done

/-- What `require_api_key` decides. -/
inductive AuthAnswer where
  | accepted : AuthAnswer
  /-- 401, `MISSING_API_KEY`. -/
  | missing : AuthAnswer
  /-- 401, `INVALID_API_KEY`. -/
  | invalid : AuthAnswer
  deriving DecidableEq

/-- The event of a rejected key. -/
def apiAuthFailed (row : Option DeviceRow) (createdAtMs : ℤ) : DeviceEvent where
  deviceId := row.bind DeviceRow.deviceId
  eventType := .apiAuthFailed
  severity := .warning
  message := py "Rejected request with a missing, unrecognized, or revoked API key."
  detail := none
  createdAtMs := createdAtMs

/-- The key this row holds is not accepted. -/
def rejects (row : Option DeviceRow) : Bool := row.all fun x => x.revoked ≠ 0

/-- `require_api_key`. -/
def requireApiKey (hashApiKey : PyStr → PyStr) (key : Option PyStr) (createdAtMs : ℤ) :
    Admin AuthAnswer :=
  match key with
  | none => return .missing
  | some [] => return .missing
  | some key => do
      let row ← query (.keyHolder (hashApiKey key))
      if rejects row then do
        exec (.insertEvent (apiAuthFailed row createdAtMs))
        commit
        return .invalid
      else return .accepted

/-- The part of `push` that writes the registry. -/
def syncTwin (u : TwinUpdate) : Admin Unit := do
  let rowcount ← exec (.touchTwin u)
  if rowcount = 0 then do
    exec (.insertTwin u)
    commit
  else commit

/-- What `push` answers. -/
inductive PushAnswer where
  /-- 401. -/
  | refused (auth : AuthAnswer) : PushAnswer
  /-- 400, `bad payload`. -/
  | badPayload : PushAnswer
  | acknowledged : PushAnswer
  deriving DecidableEq

/-- `push`, as far as the registry goes, with what its body says of the twin; `none` for
a body without records. -/
def pushRegistry (hashApiKey : PyStr → PyStr) (key : Option PyStr) (createdAtMs : ℤ)
    (body : Option TwinUpdate) : Admin PushAnswer := do
  let auth ← requireApiKey hashApiKey key createdAtMs
  if auth = .accepted then
    match body with
    | none => return .badPayload
    | some u => do
        syncTwin u
        return .acknowledged
  else return .refused auth

/-- The form of a calibration change, and the clock.  The values are floats. -/
structure KfactorRequest where
  k : PyFloat
  d : PyFloat
  tr : PyFloat
  createdAtMs : ℤ

/-- The event of a calibration change. -/
def KfactorRequest.event (r : KfactorRequest) (old : Calibration) : DeviceEvent where
  deviceId := none
  eventType := .calibrationChanged
  severity := .info
  message := py "K-factor/density/T_ref changed via admin dashboard."
  detail := some (.calibration old ⟨r.k.cell, r.d.cell, r.tr.cell, old.version + 1⟩)
  createdAtMs := r.createdAtMs

/-- The transaction of `set_kfactor`, once the old row is read. -/
def changeCalibration (r : KfactorRequest) (old : Calibration) : Admin Unit := do
  exec (.setCalibration r.k.cell r.d.cell r.tr.cell)
  exec (.insertEvent (r.event old))
  commit

/-- `set_kfactor`. -/
def setKfactor (r : KfactorRequest) : Admin Unit := do
  let old ← query .calibration
  changeCalibration r old

end Server
end CovioFirmware
