import CovioFirmware.Server.Administration
import CovioFirmware.Server.Database

/-!
# Starting the server on the database there is

`init_db` runs at every start.  It creates the tables that are missing, replaces a
`devices` table of the original shape, adds the column of the logical ids, and seeds
the bootstrap row.  So the database is a value in which a table may be missing or have
one of several shapes (`Catalog`), and `initDb` is a program on a connection, whose
cuts are its crash points.

The statements of a script commit themselves, one by one.  The swap of the table is one
transaction.  Behind it a transaction is opened by the first record of a version, and
the two records of versions, the new column and its index are committed together.
-/

namespace CovioFirmware
namespace Server

open Sql

/-- The columns of `devices`. -/
inductive Column where
  | deviceId | apiKeyHash | assetLabel | revoked | provisionedAtMs | lastFwVersion
  | lastKfactorVersion | lastSeenMs | lastPushTotalizer | derivedHealthState | serverUrl
  | wifiSsid | queueBacklog | otaState | logicalDeviceId
  deriving DecidableEq

/-- A row of the original `devices`, and of a registry as far as its keys go. -/
@[ext] structure LegacyRow where
  deviceId : Option PyStr
  apiKeyHash : Option PyStr
  revoked : ℤ
  deriving DecidableEq

/-- The three columns. -/
def DeviceRow.legacy (x : DeviceRow) : LegacyRow := ⟨x.deviceId, x.apiKeyHash, x.revoked⟩

/-- A row carried forward. -/
def LegacyRow.carried (l : LegacyRow) : DeviceRow where
  deviceId := l.deviceId
  apiKeyHash := l.apiKeyHash
  assetLabel := none
  revoked := l.revoked
  provisionedAtMs := none
  twin := .unseen
  logicalDeviceId := none

/-- The schema of a registry whose logical ids have no index, with or without their
column.  Without it no row has a logical id. -/
def registrySchema (column : Bool) : Schema DeviceRow where
  admits x := column || x.logicalDeviceId.isNone
  clash x y := sameText x.deviceId y.deviceId || sameText x.apiKeyHash y.apiKeyHash

/-- The shapes of `devices`. -/
inductive DevicesTable where
  /-- The original one, without constraints. -/
  | legacy (rows : List LegacyRow) : DevicesTable
  | registry (column : Bool) (t : Table (registrySchema column)) : DevicesTable
  | indexed (t : Table deviceSchema) : DevicesTable

/-- What `devices_new` can be. -/
inductive StagingTable where
  /-- Left behind by an interrupted migration of an older version, in whatever shape. -/
  | orphan : StagingTable
  | staged (t : Table (registrySchema false)) : StagingTable

/-- `device_events`, and whether it has its index. -/
structure EventTable where
  rows : List DeviceEvent
  indexed : Bool

/-- A database file.  The tables of one row have an optional row. -/
@[ext] structure Catalog where
  records : Option (Table ⟨RecordRow.admits, RecordRow.clash⟩)
  calibration : Option (Option Calibration)
  quarantinedRecords : Option (Table ⟨QuarantineRow.admits, QuarantineRow.clash⟩)
  /-- The versions, and when they were applied. -/
  schemaMigrations : Option (List (ℕ × ℤ))
  deviceEvents : Option EventTable
  idCounters : Option (Option ℕ)
  devices : Option DevicesTable
  devicesNew : Option StagingTable

/-- A new file. -/
def Catalog.empty : Catalog := ⟨none, none, none, none, none, none, none, none⟩

namespace DevicesTable

/-- `PRAGMA table_info`. -/
def columns : DevicesTable → List Column
  | .legacy _ => [.deviceId, .apiKeyHash, .revoked]
  | .registry column _ => registryColumns ++ if column then [.logicalDeviceId] else []
  | .indexed _ => registryColumns ++ [.logicalDeviceId]
where
  registryColumns := [.deviceId, .apiKeyHash, .assetLabel, .revoked, .provisionedAtMs,
    .lastFwVersion, .lastKfactorVersion, .lastSeenMs, .lastPushTotalizer, .derivedHealthState,
    .serverUrl, .wifiSsid, .queueBacklog, .otaState]

/-- `SELECT device_id, api_key_hash, revoked FROM devices`. -/
def legacyRows : DevicesTable → List LegacyRow
  | .legacy rows => rows
  | .registry _ t => t.rows.map DeviceRow.legacy
  | .indexed t => t.rows.map DeviceRow.legacy

/-- `INSERT OR IGNORE INTO devices (device_id, api_key_hash, revoked)`. -/
def seed (l : LegacyRow) : DevicesTable → DevicesTable
  | .legacy rows => .legacy (rows ++ [l])
  | .registry column t => .registry column (t.insertOrIgnore l.carried)
  | .indexed t => .indexed (t.insertOrIgnore l.carried)

/-- `ALTER TABLE devices ADD COLUMN logical_device_id`; `none` if there is the column.  A
`devices` of the original shape is replaced before. -/
def addColumn : DevicesTable → Option DevicesTable
  | .registry false t => some (.registry true ⟨t.rows, fun _ _ => rfl, t.keyed⟩)
  | _ => none

/-- `CREATE UNIQUE INDEX IF NOT EXISTS`; `none` if there is no column, or two rows have
one logical id. -/
def createIndex : DevicesTable → Option DevicesTable
  | .registry true t =>
      if h : t.rows.Pairwise fun x y => sameText x.logicalDeviceId y.logicalDeviceId = false then
        some (.indexed ⟨t.rows, fun _ _ => rfl, t.keyed.imp₂
          (fun _ _ hkey hlogical => Bool.or_eq_false_iff.mpr ⟨hkey, hlogical⟩) h⟩)
      else none
  | .indexed t => some (.indexed t)
  | _ => none

end DevicesTable

/-! ## Statements -/

/-- The statements of the script, in its order. -/
inductive ScriptStatement where
  | createRecords | createCalibration | seedCalibration | createQuarantinedRecords
  | createSchemaMigrations | createDeviceEvents | createDeviceEventsIndex | createIdCounters
  | seedIdCounters

/-- The statements. -/
inductive CatalogWrite where
  | script (s : ScriptStatement) : CatalogWrite
  /-- `SELECT 1 FROM schema_migrations WHERE version=?`. -/
  | hasVersion (version : ℕ) : CatalogWrite
  /-- `SELECT device_id, api_key_hash, revoked FROM devices`. -/
  | legacyRows : CatalogWrite
  /-- `DROP TABLE IF EXISTS devices_new`. -/
  | dropDevicesNew : CatalogWrite
  /-- `CREATE TABLE devices_new`. -/
  | createDevicesNew : CatalogWrite
  /-- `INSERT INTO devices_new`; it answers whether the row violates no constraint. -/
  | carry (l : LegacyRow) : CatalogWrite
  /-- `DROP TABLE devices`. -/
  | dropDevices : CatalogWrite
  /-- `ALTER TABLE devices_new RENAME TO devices`. -/
  | renameDevicesNew : CatalogWrite
  /-- `ALTER TABLE devices ADD COLUMN logical_device_id`. -/
  | addLogicalDeviceId : CatalogWrite
  /-- `CREATE UNIQUE INDEX IF NOT EXISTS idx_devices_logical_device_id`. -/
  | createLogicalIndex : CatalogWrite
  /-- `INSERT OR IGNORE INTO schema_migrations`. -/
  | recordVersion (version : ℕ) (nowMs : ℤ) : CatalogWrite
  /-- `INSERT OR IGNORE INTO devices`. -/
  | seedDevice (l : LegacyRow) : CatalogWrite

/-- What a statement answers. -/
abbrev CatalogWrite.Result : CatalogWrite → Type
  | .hasVersion _ => Bool
  | .legacyRows => List LegacyRow
  | .carry _ => Bool
  | _ => Unit

/-- The questions about the schema. -/
inductive CatalogQuery where
  /-- `_table_exists(c, "devices")`. -/
  | tableExists : CatalogQuery
  /-- `_column_names(c, "devices")`. -/
  | columnNames : CatalogQuery

/-- What a question is answered with. -/
abbrev CatalogQuery.Answer : CatalogQuery → Type
  | .tableExists => Bool
  | .columnNames => List Column

/-- A statement of the script.  A seed needs its table, and the index too. -/
def ScriptStatement.apply (f : Catalog) : ScriptStatement → Option Catalog
  | .createRecords => some { f with records := some (f.records.getD .empty) }
  | .createCalibration => some { f with calibration := some (f.calibration.getD none) }
  | .seedCalibration => f.calibration.map fun row =>
      { f with calibration := some (some (row.getD Server.seedCalibration)) }
  | .createQuarantinedRecords =>
      some { f with quarantinedRecords := some (f.quarantinedRecords.getD .empty) }
  | .createSchemaMigrations =>
      some { f with schemaMigrations := some (f.schemaMigrations.getD []) }
  | .createDeviceEvents =>
      some { f with deviceEvents := some (f.deviceEvents.getD ⟨[], false⟩) }
  | .createDeviceEventsIndex => f.deviceEvents.map fun t =>
      { f with deviceEvents := some { t with indexed := true } }
  | .createIdCounters => some { f with idCounters := some (f.idCounters.getD none) }
  | .seedIdCounters => f.idCounters.map fun row =>
      { f with idCounters := some (some (row.getD 0)) }

/-- A version is recorded once. -/
def recordVersion (rows : List (ℕ × ℤ)) (version : ℕ) (nowMs : ℤ) : List (ℕ × ℤ) :=
  if rows.any (·.1 = version) then rows else rows ++ [(version, nowMs)]

namespace Catalog

def read (f : Catalog) : (q : CatalogQuery) → q.Answer
  | .tableExists => f.devices.isSome
  | .columnNames => f.devices.elim [] DevicesTable.columns

def write (f : Catalog) : (w : CatalogWrite) → Option (w.Result × Catalog)
  | .script s => (s.apply f).map ((), ·)
  | .hasVersion version => f.schemaMigrations.map fun rows => (rows.any (·.1 = version), f)
  | .legacyRows => f.devices.map fun t => (t.legacyRows, f)
  | .dropDevicesNew => some ((), { f with devicesNew := none })
  | .createDevicesNew =>
      if f.devicesNew.isSome then none else some ((), { f with devicesNew := some (.staged .empty) })
  | .carry l =>
      match f.devicesNew with
      | some (.staged t) =>
          some (decide (t.Accepts l.carried),
            { f with devicesNew := some (.staged (t.insertOrIgnore l.carried)) })
      | _ => none
  | .dropDevices => f.devices.map fun _ => ((), { f with devices := none })
  | .renameDevicesNew =>
      match f.devicesNew, f.devices with
      | some (.staged t), none =>
          some ((), { f with devices := some (.registry false t), devicesNew := none })
      | _, _ => none
  | .addLogicalDeviceId =>
      (f.devices.bind DevicesTable.addColumn).map fun t => ((), { f with devices := some t })
  | .createLogicalIndex =>
      (f.devices.bind DevicesTable.createIndex).map fun t => ((), { f with devices := some t })
  | .recordVersion version nowMs => f.schemaMigrations.map fun rows =>
      ((), { f with schemaMigrations := some (recordVersion rows version nowMs) })
  | .seedDevice l => f.devices.map fun t => ((), { f with devices := some (t.seed l) })

end Catalog

/-- The dialect. -/
def catalogDialect : Dialect Catalog where
  Query := CatalogQuery
  Answer := CatalogQuery.Answer
  read q f := f.read q
  Write := CatalogWrite
  Result := CatalogWrite.Result
  write w f := f.write w

/-- A program over the file. -/
abbrev Startup (α : Type) := Session catalogDialect α

namespace Startup

def query (q : CatalogQuery) : Startup q.Answer := Session.query (D := catalogDialect) q

def exec (w : CatalogWrite) : Startup w.Result := Session.exec (D := catalogDialect) w

def ddl (w : CatalogWrite) : Startup w.Result := Session.ddl (D := catalogDialect) w

def start : Startup Unit := Session.start

def commit : Startup Unit := Session.commit

end Startup

/-! ## `init_db` -/

open Startup

/-- `c.executescript`. -/
def executescript : List ScriptStatement → Startup Unit
  | [] => return ()
  | s :: rest => do
      ddl (.script s)
      executescript rest

/-- The script. -/
def initScript : List ScriptStatement :=
  [.createRecords, .createCalibration, .seedCalibration, .createQuarantinedRecords,
    .createSchemaMigrations, .createDeviceEvents, .createDeviceEventsIndex, .createIdCounters,
    .seedIdCounters]

/-- The loop that carries the rows forward.  A row that violates a constraint is
dropped, with a warning. -/
def carryRows : List LegacyRow → Startup Unit
  | [] => return ()
  | l :: rest => do
      let _carried ← exec (.carry l)
      carryRows rest

/-- The swap of the tables. -/
def swapDevices (needsMigration : Bool) : Startup Unit := do
  start
  ddl .dropDevicesNew
  ddl .createDevicesNew
  if needsMigration then do
    let oldRows ← ddl .legacyRows
    carryRows oldRows
    ddl .dropDevices
    ddl .renameDevicesNew
    commit
  else do
    ddl .renameDevicesNew
    commit

/-- `DEVICES_SCHEMA_VERSION`. -/
def devicesSchemaVersion : ℕ := 2

/-- `DEVICES_SCHEMA_VERSION_LOGICAL_ID`. -/
def devicesSchemaVersionLogicalId : ℕ := 3

/-- The body of `_migrate_devices_table`, behind its guard. -/
def migrateDevicesTableBody (nowMs : ℤ) : Startup Unit := do
  let exists₁ ← query .tableExists
  let columns ← if exists₁ then query .columnNames else pure []
  let needsMigration := exists₁ && .assetLabel ∉ columns
  let exists₂ ← query .tableExists
  if needsMigration || !exists₂ then do
    swapDevices needsMigration
    exec (.recordVersion devicesSchemaVersion nowMs)
  else exec (.recordVersion devicesSchemaVersion nowMs)

/-- `_migrate_devices_table`. -/
def migrateDevicesTable (nowMs : ℤ) : Startup Unit := do
  let already ← ddl (.hasVersion devicesSchemaVersion)
  if already then return () else migrateDevicesTableBody nowMs

/-- The end of `_migrate_logical_device_id_column`. -/
def finishLogicalDeviceIdColumn (nowMs : ℤ) : Startup Unit := do
  ddl .createLogicalIndex
  exec (.recordVersion devicesSchemaVersionLogicalId nowMs)
  commit

/-- `_migrate_logical_device_id_column`. -/
def migrateLogicalDeviceIdColumn (nowMs : ℤ) : Startup Unit := do
  let already ← ddl (.hasVersion devicesSchemaVersionLogicalId)
  if already then return ()
  else do
    let columns ← query .columnNames
    if .logicalDeviceId ∉ columns then do
      ddl .addLogicalDeviceId
      finishLogicalDeviceIdColumn nowMs
    else finishLogicalDeviceIdColumn nowMs

/-- The row `init_db` seeds. -/
def bootstrapRow (hashApiKey : PyStr → PyStr) : LegacyRow :=
  ⟨some legacyDefaultKey, some (hashApiKey bootstrapDefaultApiKey), 0⟩

/-- `init_db`, with the two clock readings of the migrations. -/
def initDb (hashApiKey : PyStr → PyStr) (nowMs nowMs' : ℤ) : Startup Unit := do
  executescript initScript
  migrateDevicesTable nowMs
  migrateLogicalDeviceIdColumn nowMs'
  exec (.seedDevice (bootstrapRow hashApiKey))
  commit

/-! ## The registry in the file -/

namespace Catalog

/-- The tables of the registry, once `init_db` has run. -/
def registry (f : Catalog) : Option Registry :=
  match f.devices, f.calibration, f.idCounters, f.deviceEvents with
  | some (.indexed t), some (some calibration), some (some counter), some events =>
      some ⟨t, calibration, counter, events.rows⟩
  | _, _, _, _ => none

/-- The file with its registry replaced. -/
def withRegistry (f : Catalog) (r : Registry) : Catalog :=
  { f with
    devices := some (.indexed r.devices)
    calibration := some (some r.calibration)
    idCounters := some (some r.logicalIdCounter)
    deviceEvents := some ⟨r.events, true⟩ }

/-- A request on a connection of its own: what it commits, and its answer unless it ends
with an exception. -/
def request {α : Type} (f : Catalog) (p : Admin α) : Catalog × Option α :=
  match f.registry with
  | none => (f, none)
  | some r => (f.withRegistry (p.perform (.idle r)).1, (p.perform (.idle r)).2)

end Catalog

end Server
end CovioFirmware
