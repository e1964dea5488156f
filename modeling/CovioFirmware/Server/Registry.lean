import CovioFirmware.Server.Events
import CovioFirmware.Server.Table
import CovioFirmware.Sql.Session
import Mathlib.Data.List.Pairwise

/-!
# The device registry

The tables the administration of the fleet works on, as `init_db` leaves them, and the
statements of `server.py` that touch them: the devices with the hashes of their keys,
the calibration, the counter of logical ids, and the audit trail.

The parameters of a statement are given as SQLite binds them: texts where the column
has TEXT affinity.  A request with a value that cannot be bound ends before its first
statement.  The columns of `devices` that no statement writes are left out.
-/

namespace CovioFirmware
namespace Server

open Sql

/-- Two values of a column violate its UNIQUE constraint: they are equal, and not
NULL. -/
def sameText (a b : Option PyStr) : Bool := a.isSome && a == b

/-- The part of a device's row that its pushes write: `last_fw_version` and so on. -/
structure Twin where
  lastFwVersion : Cell
  lastKfactorVersion : Cell
  lastSeenMs : Cell
  lastPushTotalizer : Cell
  derivedHealthState : Cell
  deriving DecidableEq

/-- The twin of a device that has never pushed. -/
def Twin.unseen : Twin := ⟨.null, .null, .null, .null, .null⟩

/-- A row of `devices`. -/
structure DeviceRow where
  deviceId : Option PyStr
  apiKeyHash : Option PyStr
  assetLabel : Option PyStr
  revoked : ℤ
  provisionedAtMs : Option ℤ
  twin : Twin
  logicalDeviceId : Option PyStr
  deriving DecidableEq

/-- The PRIMARY KEY, the UNIQUE constraint of the hash and the unique index on the
logical id. -/
def DeviceRow.clash (x y : DeviceRow) : Bool :=
  sameText x.deviceId y.deviceId || sameText x.apiKeyHash y.apiKeyHash ||
    sameText x.logicalDeviceId y.logicalDeviceId

/-- The schema of `devices`. -/
def deviceSchema : Schema DeviceRow := ⟨fun _ => true, DeviceRow.clash⟩

/-- The database, as far as the fleet's administration goes. -/
@[ext] structure Registry where
  devices : Table deviceSchema
  calibration : Calibration
  /-- The value of the counter `logical_device_id`. -/
  logicalIdCounter : ℕ
  events : List DeviceEvent

/-- The seed of `calibration`; 0.84 is the nearest double. -/
def seedCalibration : Calibration where
  kFactor := .num 1000
  density := .num (7566047373982433 / 9007199254740992)
  tRef := .num 15
  version := 1

/-- `BOOTSTRAP_DEFAULT_API_KEY`. -/
def bootstrapDefaultApiKey : PyStr := py "dev-key-change-me"

/-- The device the bootstrap key belongs to. -/
def legacyDefaultKey : PyStr := py "legacy-default-key"

/-- The row `init_db` seeds. -/
def bootstrapDevice (hashApiKey : PyStr → PyStr) : DeviceRow where
  deviceId := some legacyDefaultKey
  apiKeyHash := some (hashApiKey bootstrapDefaultApiKey)
  assetLabel := none
  revoked := 0
  provisionedAtMs := none
  twin := .unseen
  logicalDeviceId := none

/-- The registry after the first start. -/
def Registry.fresh (hashApiKey : PyStr → PyStr) : Registry where
  devices := ⟨[bootstrapDevice hashApiKey], fun _ _ => rfl, List.pairwise_singleton _ _⟩
  calibration := seedCalibration
  logicalIdCounter := 0
  events := []

/-- What a push writes into the twin of its device. -/
structure TwinUpdate where
  deviceId : Option PyStr
  fw : Cell
  kver : Cell
  nowMs : ℤ
  totalizer : Cell

/-- `COALESCE(a, b)`. -/
def Cell.coalesce (a b : Cell) : Cell := if a = .null then b else a

/-- The columns set by the push's `UPDATE`. -/
def TwinUpdate.apply (u : TwinUpdate) (t : Twin) : Twin where
  lastFwVersion := u.fw.coalesce t.lastFwVersion
  lastKfactorVersion := u.kver
  lastSeenMs := .num u.nowMs
  lastPushTotalizer := u.totalizer.coalesce t.lastPushTotalizer
  derivedHealthState := .text (py "ok")

/-- The row a device's first push inserts. -/
def TwinUpdate.row (u : TwinUpdate) : DeviceRow where
  deviceId := u.deviceId
  apiKeyHash := none
  assetLabel := none
  revoked := 0
  provisionedAtMs := none
  twin := ⟨u.fw, u.kver, .num u.nowMs, u.totalizer, .text (py "ok")⟩
  logicalDeviceId := none

/-- The row `provision_device` inserts. -/
def provisionedRow (deviceId hash : PyStr) (label : Option PyStr) (nowMs : ℤ) : DeviceRow where
  deviceId := some deviceId
  apiKeyHash := some hash
  assetLabel := label
  revoked := 0
  provisionedAtMs := some nowMs
  twin := .unseen
  logicalDeviceId := none

/-- The columns set by the `UPDATE` of `provision_device`. -/
def DeviceRow.provisioned (x : DeviceRow) (hash : PyStr) (label : Option PyStr) (nowMs : ℤ) :
    DeviceRow :=
  { x with
    apiKeyHash := some hash
    assetLabel := label.or x.assetLabel
    revoked := 0
    provisionedAtMs := some nowMs }

/-! ## Statements -/

/-- The queries. -/
inductive Query where
  /-- `SELECT … FROM devices WHERE device_id=?`. -/
  | device (deviceId : PyStr) : Query
  /-- `SELECT … FROM devices WHERE api_key_hash=?`. -/
  | keyHolder (hash : PyStr) : Query
  /-- `SELECT … FROM calibration WHERE id=1`. -/
  | calibration : Query
  /-- `SELECT value FROM id_counters WHERE name='logical_device_id'`. -/
  | counter : Query

/-- The statements. -/
inductive Write where
  /-- `INSERT INTO devices` of `provision_device`. -/
  | insertProvisioned (deviceId hash : PyStr) (label : Option PyStr) (nowMs : ℤ) : Write
  /-- `UPDATE devices` of `provision_device`. -/
  | updateProvisioned (deviceId hash : PyStr) (label : Option PyStr) (nowMs : ℤ) : Write
  /-- `UPDATE id_counters SET value = value + 1`. -/
  | incrementCounter : Write
  /-- `UPDATE devices SET logical_device_id=?`. -/
  | setLogicalId (deviceId logical : PyStr) : Write
  /-- `UPDATE devices SET revoked=1`. -/
  | revoke (deviceId : PyStr) : Write
  /-- `UPDATE devices SET api_key_hash=?, revoked=0`. -/
  | setKey (deviceId hash : PyStr) : Write
  /-- `UPDATE devices` of `push`; it answers the number of rows. -/
  | touchTwin (u : TwinUpdate) : Write
  /-- `INSERT INTO devices` of `push`. -/
  | insertTwin (u : TwinUpdate) : Write
  /-- `UPDATE calibration SET …, version=version+1`. -/
  | setCalibration (k d tr : Cell) : Write
  /-- `INSERT INTO device_events`. -/
  | insertEvent (e : DeviceEvent) : Write

/-- What a query answers. -/
abbrev Query.Answer : Query → Type
  | .device _ => Option DeviceRow
  | .keyHolder _ => Option DeviceRow
  | .calibration => Calibration
  | .counter => ℕ

/-- What a statement answers. -/
abbrev Write.Result : Write → Type
  | .touchTwin _ => ℕ
  | _ => Unit

namespace Registry

def read (r : Registry) : (q : Query) → q.Answer
  | .device deviceId => r.devices.rows.find? (sameText (some deviceId) ·.deviceId)
  | .keyHolder hash => r.devices.rows.find? (sameText (some hash) ·.apiKeyHash)
  | .calibration => r.calibration
  | .counter => r.logicalIdCounter

/-- `UPDATE devices SET … WHERE device_id=?`. -/
def updateDevice (r : Registry) (deviceId : Option PyStr) (f : DeviceRow → DeviceRow) :
    Option Registry :=
  (r.devices.update (sameText deviceId ·.deviceId) f).map fun t => { r with devices := t }

/-- `INSERT INTO devices`. -/
def insertDevice (r : Registry) (row : DeviceRow) : Option Registry :=
  (r.devices.insert row).map fun t => { r with devices := t }

/-- The statements.  A NULL in `calibration` fails its NOT NULL constraint. -/
def write (r : Registry) : (w : Write) → Option (w.Result × Registry)
  | .insertProvisioned deviceId hash label nowMs =>
      (r.insertDevice (provisionedRow deviceId hash label nowMs)).map ((), ·)
  | .updateProvisioned deviceId hash label nowMs =>
      (r.updateDevice (some deviceId) (·.provisioned hash label nowMs)).map ((), ·)
  | .incrementCounter => some ((), { r with logicalIdCounter := r.logicalIdCounter + 1 })
  | .setLogicalId deviceId logical =>
      (r.updateDevice (some deviceId) ({ · with logicalDeviceId := some logical })).map ((), ·)
  | .revoke deviceId => (r.updateDevice (some deviceId) ({ · with revoked := 1 })).map ((), ·)
  | .setKey deviceId hash =>
      (r.updateDevice (some deviceId)
        ({ · with apiKeyHash := some hash, revoked := 0 })).map ((), ·)
  | .touchTwin u =>
      (r.updateDevice u.deviceId fun x => { x with twin := u.apply x.twin }).map
        (r.devices.rows.countP (sameText u.deviceId ·.deviceId), ·)
  | .insertTwin u => (r.insertDevice u.row).map ((), ·)
  | .setCalibration k d tr =>
      if k = .null ∨ d = .null ∨ tr = .null then none
      else some ((), { r with calibration := ⟨k, d, tr, r.calibration.version + 1⟩ })
  | .insertEvent e => some ((), { r with events := recordEvent r.events e })

end Registry

/-- The dialect. -/
def registryDialect : Dialect Registry where
  Query := Query
  Answer := Query.Answer
  read q r := r.read q
  Write := Write
  Result := Write.Result
  write w r := r.write w

/-- A program over the registry. -/
abbrev Admin (α : Type) := Session registryDialect α

namespace Admin

def query (q : Query) : Admin q.Answer := Session.query (D := registryDialect) q

def exec (w : Write) : Admin w.Result := Session.exec (D := registryDialect) w

def commit : Admin Unit := Session.commit

end Admin

/-! ## What the statements do -/

theorem sameText_some_iff {a : PyStr} {b : Option PyStr} :
    sameText (some a) b = true ↔ b = some a := by
  rw [sameText, Option.isSome_some, Bool.true_and, beq_iff_eq]
  exact eq_comm

@[simp] theorem sameText_none (b : Option PyStr) : sameText none b = false := rfl

theorem sameText_eq_false {a b : Option PyStr} : sameText a b = false ↔ a = none ∨ a ≠ b := by
  cases a with
  | none => simp
  | some a => simp [sameText]

theorem sameText_comm (a b : Option PyStr) : sameText a b = sameText b a := by
  rw [Bool.eq_iff_iff]
  cases a with
  | none => cases b <;> simp [sameText]
  | some a =>
    cases b with
    | none => simp [sameText]
    | some b => rw [sameText_some_iff, sameText_some_iff]; exact eq_comm

theorem DeviceRow.clash_comm (x y : DeviceRow) : x.clash y = y.clash x := by
  rw [clash, clash, sameText_comm, sameText_comm x.apiKeyHash, sameText_comm x.logicalDeviceId]

namespace Registry

variable {r r' : Registry} {deviceId : PyStr} {x y : DeviceRow}

/-- Two rows that share a unique value are one. -/
theorem eq_of_clash (hx : x ∈ r.devices.rows) (hy : y ∈ r.devices.rows)
    (h : x.clash y = true) : x = y := by
  by_contra hne
  have : Std.Symm fun x y : DeviceRow => deviceSchema.clash x y = false :=
    ⟨fun x y hxy => (DeviceRow.clash_comm y x).trans hxy⟩
  have hfalse := r.devices.keyed.forall hx hy hne
  exact absurd (h.symm.trans hfalse) (by simp)

theorem clash_of_ne (hx : x ∈ r.devices.rows) (hy : y ∈ r.devices.rows) (h : x ≠ y) :
    x.clash y = false := by
  by_contra hclash
  exact h (eq_of_clash hx hy (by simpa using hclash))

theorem eq_of_deviceId (hx : x ∈ r.devices.rows) (hy : y ∈ r.devices.rows)
    (h : x.deviceId = some deviceId) (h' : y.deviceId = some deviceId) : x = y :=
  eq_of_clash hx hy (by simp [DeviceRow.clash, h, h', sameText])

/-- A row found by a column holds the value. -/
theorem of_find?_eq_some {col : DeviceRow → Option PyStr} {a : PyStr} {rows : List DeviceRow}
    (h : rows.find? (fun x => sameText (some a) (col x)) = some x) :
    x ∈ rows ∧ col x = some a := by
  have hcol := List.find?_some h
  exact ⟨List.mem_of_find?_eq_some h, sameText_some_iff.mp hcol⟩

/-- **Looking up a device** finds its row. -/
theorem read_device_eq_some_iff : r.read (.device deviceId) = some x ↔
    x ∈ r.devices.rows ∧ x.deviceId = some deviceId := by
  constructor
  · exact fun h => of_find?_eq_some h
  · rintro ⟨hx, hid⟩
    cases hfind : r.read (.device deviceId) with
    | none =>
      have hnone := List.find?_eq_none.mp hfind x hx
      exact absurd (sameText_some_iff.mpr hid) hnone
    | some y =>
      obtain ⟨hy, hid'⟩ := of_find?_eq_some hfind
      rw [eq_of_deviceId hy hx hid' hid]

theorem read_device_eq_none_iff : r.read (.device deviceId) = none ↔
    ∀ x ∈ r.devices.rows, x.deviceId ≠ some deviceId := by
  refine List.find?_eq_none.trans (forall₂_congr fun x _ => not_congr sameText_some_iff)

/-- What an `UPDATE` of a device leaves. -/
theorem updateDevice_eq_some {f : DeviceRow → DeviceRow}
    (h : r.updateDevice (some deviceId) f = some r') :
    r' = { r with devices := r'.devices } ∧ r'.devices.rows =
      r.devices.rows.map fun x => if x.deviceId = some deviceId then f x else x := by
  obtain ⟨t, ht, rfl⟩ := Option.map_eq_some_iff.mp h
  refine ⟨rfl, (Table.rows_of_update ht).trans (List.map_congr_left fun x _ => ?_)⟩
  simp only [sameText_some_iff]

theorem mem_of_updateDevice {f : DeviceRow → DeviceRow}
    (h : r.updateDevice (some deviceId) f = some r') : y ∈ r'.devices.rows ↔
      y ∈ r.devices.rows ∧ y.deviceId ≠ some deviceId ∨
        ∃ x, x ∈ r.devices.rows ∧ x.deviceId = some deviceId ∧ f x = y := by
  rw [(updateDevice_eq_some h).2, List.mem_map]
  constructor
  · rintro ⟨x, hx, rfl⟩
    split_ifs with hid
    · exact .inr ⟨x, hx, hid, rfl⟩
    · exact .inl ⟨hx, hid⟩
  · rintro (⟨hy, hid⟩ | ⟨x, hx, hid, rfl⟩)
    · exact ⟨y, hy, if_neg hid⟩
    · exact ⟨x, hx, if_pos hid⟩

/-- An `UPDATE` of a device succeeds, if what it writes is in no other row. -/
theorem exists_updateDevice {f : DeviceRow → DeviceRow} (hid : ∀ x, (f x).deviceId = x.deviceId)
    (hfresh : ∀ x ∈ r.devices.rows, ∀ y ∈ r.devices.rows, x.deviceId = some deviceId →
      y.deviceId ≠ some deviceId → sameText (f x).apiKeyHash y.apiKeyHash = false ∧
        sameText (f x).logicalDeviceId y.logicalDeviceId = false) :
    ∃ r', r.updateDevice (some deviceId) f = some r' := by
  have hother : ∀ x ∈ r.devices.rows, ∀ y ∈ r.devices.rows, x.deviceId = some deviceId →
      y.deviceId ≠ some deviceId → (f x).clash y = false := by
    intro x hx y hy hxid hyid
    obtain ⟨hhash, hlogical⟩ := hfresh x hx y hy hxid hyid
    have hids : sameText (f x).deviceId y.deviceId = false := by
      rw [hid, hxid]
      exact sameText_eq_false.mpr (.inr fun h => hyid h.symm)
    rw [DeviceRow.clash, hids, hhash, hlogical]
    rfl
  obtain ⟨t, ht, -⟩ := r.devices.exists_update (p := (sameText (some deviceId) ·.deviceId))
    (f := f) (fun _ _ _ => rfl) (by
      rw [Table.updateRows, List.pairwise_map]
      refine r.devices.keyed.imp_of_mem fun {x y} hx hy hxy => ?_
      simp only [sameText_some_iff]
      split_ifs with hxid hyid hyid
      · have heq := eq_of_deviceId hx hy hxid hyid
        rw [heq] at hxy
        simp [deviceSchema, DeviceRow.clash, hyid, sameText] at hxy
      · exact hother x hx y hy hxid hyid
      · exact (DeviceRow.clash_comm x (f y)).trans (hother y hy x hx hyid hxid)
      · exact hxy)
  exact ⟨{ r with devices := t }, by rw [updateDevice, ht]; rfl⟩

/-- What an `INSERT` of a device leaves. -/
theorem insertDevice_eq_some (h : r.insertDevice x = some r') :
    r' = { r with devices := r'.devices } ∧ r.devices.Accepts x ∧
      r'.devices.rows = r.devices.rows ++ [x] := by
  obtain ⟨t, ht, rfl⟩ := Option.map_eq_some_iff.mp h
  exact ⟨rfl, Table.rows_of_insert ht⟩

/-- A row may be inserted, if what it holds is in no other row. -/
theorem accepts_iff : r.devices.Accepts x ↔ ∀ y ∈ r.devices.rows, y.clash x = false :=
  and_iff_right rfl

theorem exists_insertDevice (h : r.devices.Accepts x) : ∃ r', r.insertDevice x = some r' := by
  refine ⟨{ r with devices := r.devices.insertOrIgnore x }, ?_⟩
  rw [insertDevice, Table.insert, if_pos h]
  rfl

end Registry

end Server
end CovioFirmware
