import CovioFirmware.Server.Migration

/-!
# Credentials survive the migration

`init_db` can be interrupted at any statement, and then the next start finds what has
been committed.  There are three such states: the legacy table as it was, the table
swapped but no version recorded, and both versions recorded with the column and its
index.  The second one is where the two migrations meet: the swap is committed by
itself, and the record of its version only with the record of the other one.

`Migrating` lists the states, `completes_initDb` runs `init_db` from any of them, and
`migration_preserves` is about any number of interrupted runs and a complete one.
-/

namespace CovioFirmware
namespace Server

open Sql Crash

/-- The two columns have no value twice. -/
def UniqueKeys (rows : List LegacyRow) : Prop :=
  rows.Pairwise fun x y => sameText x.deviceId y.deviceId = false ∧
    sameText x.apiKeyHash y.apiKeyHash = false

instance (rows : List LegacyRow) : Decidable (UniqueKeys rows) :=
  inferInstanceAs (Decidable (List.Pairwise _ _))

/-- Neither the id nor the hash of the bootstrap row is present. -/
def BootstrapMissing (hashApiKey : PyStr → PyStr) (rows : List LegacyRow) : Prop :=
  ∀ l ∈ rows, l.deviceId ≠ (bootstrapRow hashApiKey).deviceId ∧
    l.apiKeyHash ≠ (bootstrapRow hashApiKey).apiKeyHash

instance (hashApiKey : PyStr → PyStr) (rows : List LegacyRow) :
    Decidable (BootstrapMissing hashApiKey rows) := List.decidableBAll _ _

/-- The rows, and the bootstrap row if it is missing. -/
def withBootstrap (hashApiKey : PyStr → PyStr) (rows : List LegacyRow) : List LegacyRow :=
  if BootstrapMissing hashApiKey rows then rows ++ [bootstrapRow hashApiKey] else rows

/-- What the database can be after runs of `init_db`, each interrupted somewhere. -/
inductive Interrupted (hashApiKey : PyStr → PyStr) (f : Catalog) : Catalog → Prop where
  | start : Interrupted hashApiKey f f
  | run {g : Catalog} {s : Store Catalog} (nowMs nowMs' : ℤ) : Interrupted hashApiKey f g →
      Cuts (sem catalogDialect) (initDb hashApiKey nowMs nowMs') (.idle g) s →
        Interrupted hashApiKey f s.committed

variable {hashApiKey : PyStr → PyStr} {rows : List LegacyRow} {f g : Catalog}

/-! ## The script -/

namespace Catalog

/-- The versions recorded, and when they were applied. -/
def versions (f : Catalog) : List (ℕ × ℤ) := f.schemaMigrations.getD []

/-- The file behind the script. -/
def created (f : Catalog) : Catalog where
  records := some (f.records.getD .empty)
  calibration := some (some ((f.calibration.getD none).getD seedCalibration))
  quarantinedRecords := some (f.quarantinedRecords.getD .empty)
  schemaMigrations := some f.versions
  deviceEvents := some ⟨(f.deviceEvents.getD ⟨[], false⟩).rows, true⟩
  idCounters := some (some ((f.idCounters.getD none).getD 0))
  devices := f.devices
  devicesNew := f.devicesNew

end Catalog

/-- **The script** completes, and none of its statements touches the devices. -/
theorem completes_executescript {C : Catalog → Prop}
    (hC : ∀ g : Catalog, g.devices = f.devices → g.versions = f.versions → C g) :
    Completes (fun _ s => s = .idle f.created) C (executescript initScript) (.idle f) := by
  refine completes_ddl (hC _ rfl rfl) rfl ?_
  refine completes_ddl (hC _ rfl rfl) rfl ?_
  refine completes_ddl (hC _ rfl rfl) rfl ?_
  refine completes_ddl (hC _ rfl rfl) rfl ?_
  refine completes_ddl (hC _ rfl rfl) rfl ?_
  refine completes_ddl (hC _ rfl rfl) rfl ?_
  refine completes_ddl (hC _ rfl rfl) rfl ?_
  refine completes_ddl (hC _ rfl rfl) rfl ?_
  refine completes_ddl (hC _ rfl rfl) rfl ?_
  exact ⟨hC _ rfl rfl, rfl⟩

/-- On tables that are there the statements of the script change nothing. -/
theorem completes_executescript_created (script : List ScriptStatement) :
    Completes (fun _ s => s = .idle f.created) (· = f.created) (executescript script)
      (.idle f.created) := by
  induction script with
  | nil => exact ⟨rfl, rfl⟩
  | cons st rest ih =>
    have hstep : st.apply f.created = some f.created := by cases st <;> rfl
    have hwrite : f.created.write (.script st) = some ((), f.created) := by
      rw [Catalog.write, hstep]
      rfl
    exact completes_ddl rfl hwrite ih

/-! ## The copy -/

/-- The table the loop leaves. -/
def carryAll (t : Table (registrySchema false)) (rows : List LegacyRow) :
    Table (registrySchema false) := rows.foldl (fun t l => t.insertOrIgnore l.carried) t

/-- Rows without a common key are all carried. -/
theorem rows_carryAll {t : Table (registrySchema false)}
    (h : UniqueKeys (t.rows.map DeviceRow.legacy ++ rows)) :
    (carryAll t rows).rows = t.rows ++ rows.map LegacyRow.carried := by
  induction rows generalizing t with
  | nil => exact (List.append_nil _).symm
  | cons l rows ih =>
    have hacc : t.Accepts l.carried := by
      refine ⟨rfl, fun x hx => ?_⟩
      obtain ⟨hid, hhash⟩ := (List.pairwise_append.mp h).2.2 x.legacy (List.mem_map_of_mem hx) l
        List.mem_cons_self
      exact Bool.or_eq_false_iff.mpr ⟨hid, hhash⟩
    have hrows : (t.insertOrIgnore l.carried).rows = t.rows ++ [l.carried] := by
      rw [Table.rows_insertOrIgnore, if_pos hacc]
    have hnext : UniqueKeys ((t.insertOrIgnore l.carried).rows.map DeviceRow.legacy ++ rows) := by
      rw [hrows, List.map_append, List.append_assoc]
      exact h
    show (carryAll (t.insertOrIgnore l.carried) rows).rows = _
    rw [ih hnext, hrows, List.append_assoc]
    rfl

/-- **The loop** over the rows. -/
theorem completes_carryRows {C : Catalog → Prop} {c : Catalog} (hC : C c)
    {t : Table (registrySchema false)} (hf : f.devicesNew = some (.staged t)) :
    Completes (fun _ s => s = ⟨c, some { f with devicesNew := some (.staged (carryAll t rows)) }⟩)
      C (carryRows rows) ⟨c, some f⟩ := by
  induction rows generalizing f t with
  | nil =>
    refine ⟨hC, ?_⟩
    rw [carryAll, List.foldl_nil, ← hf]
  | cons l rows ih =>
    have hwrite : f.write (.carry l) = some (decide (t.Accepts l.carried),
        { f with devicesNew := some (.staged (t.insertOrIgnore l.carried)) }) := by
      rw [Catalog.write, hf]
    refine completes_exec hC hwrite ?_
    exact ih (f := { f with devicesNew := some (.staged (t.insertOrIgnore l.carried)) }) rfl

/-! ## The swap -/

/-- The table of the registry, as the swap leaves it. -/
def swapped (rows : List LegacyRow) : Table (registrySchema false) := carryAll .empty rows

theorem rows_swapped (h : UniqueKeys rows) : (swapped rows).rows = rows.map LegacyRow.carried :=
  rows_carryAll h

/-- The rows there are to be carried: those of the legacy table, or none in a new file. -/
def DevicesTable.HasLegacy (rows : List LegacyRow) : Option DevicesTable → Prop
  | none => rows = []
  | some t => t = .legacy rows

/-- **The swap** is one transaction. -/
theorem completes_swapDevices {C : Catalog → Prop} (h : DevicesTable.HasLegacy rows f.devices)
    (hC : C f) (hC' : C { f with devices := some (.registry false (swapped rows)),
                                 devicesNew := none }) :
    Completes (fun _ s => s = .idle { f with devices := some (.registry false (swapped rows)),
                                             devicesNew := none })
      C (swapDevices f.devices.isSome) (.idle f) := by
  refine completes_start hC ?_
  refine completes_ddl_pending hC rfl ?_
  refine completes_ddl_pending hC rfl ?_
  cases hd : f.devices with
  | none =>
    rw [hd] at h
    obtain rfl : rows = [] := h
    refine completes_ddl_pending hC rfl ?_
    exact completes_commit hC ⟨hC', rfl⟩
  | some t =>
    rw [hd] at h
    obtain rfl : t = .legacy rows := h
    refine completes_ddl_pending hC rfl ?_
    show Completes _ _ (carryRows rows >>= _) _
    refine completes_bind (completes_carryRows hC rfl) ?_
    rintro - s rfl
    refine completes_ddl_pending hC rfl ?_
    refine completes_ddl_pending hC rfl ?_
    exact completes_commit hC ⟨hC', rfl⟩

/-! ## Where a migration stands -/

/-- The table as the two migrations leave it. -/
def logicalTable (t : Table (registrySchema false)) : Table deviceSchema where
  rows := t.rows
  admitted _ _ := rfl
  keyed := t.keyed.imp_of_mem fun {x y} hx _ hkey => by
    have hnone : x.logicalDeviceId = none := by simpa [registrySchema] using t.admitted x hx
    exact Bool.or_eq_false_iff.mpr ⟨hkey, by rw [hnone]; rfl⟩

/-- The versions, as the two migrations record them. -/
def recorded (nowMs nowMs' : ℤ) : List (ℕ × ℤ) :=
  [(devicesSchemaVersion, nowMs), (devicesSchemaVersionLogicalId, nowMs')]

/-- The table with the bootstrap row seeded. -/
def seededTable (hashApiKey : PyStr → PyStr) (rows : List LegacyRow) : Table deviceSchema :=
  (logicalTable (swapped rows)).insertOrIgnore (bootstrapRow hashApiKey).carried

/-- What is committed while the rows are migrated. -/
inductive Migrating (hashApiKey : PyStr → PyStr) (rows : List LegacyRow) (f : Catalog) : Prop where
  | legacy : DevicesTable.HasLegacy rows f.devices → f.versions = [] → Migrating hashApiKey rows f
  /-- The table is swapped, and no version recorded. -/
  | swapped : f.devices = some (.registry false (swapped rows)) → f.versions = [] →
      Migrating hashApiKey rows f
  | migrated (nowMs nowMs' : ℤ) : f.devices = some (.indexed (logicalTable (Server.swapped rows))) →
      f.versions = recorded nowMs nowMs' → Migrating hashApiKey rows f
  | seeded (nowMs nowMs' : ℤ) : f.devices = some (.indexed (seededTable hashApiKey rows)) →
      f.versions = recorded nowMs nowMs' → Migrating hashApiKey rows f

/-- The end: every table is there, and the bootstrap row seeded. -/
structure Migrated (hashApiKey : PyStr → PyStr) (rows : List LegacyRow) (f : Catalog) : Prop where
  created : f.created = f
  devices : f.devices = some (.indexed (seededTable hashApiKey rows))
  versions : ∃ nowMs nowMs', f.versions = recorded nowMs nowMs'

/-- The rows in the end. -/
theorem rows_seededTable (h : UniqueKeys rows) :
    (seededTable hashApiKey rows).rows = (withBootstrap hashApiKey rows).map LegacyRow.carried := by
  have hrows : (logicalTable (swapped rows)).rows = rows.map LegacyRow.carried := rows_swapped h
  have haccepts : (logicalTable (swapped rows)).Accepts (bootstrapRow hashApiKey).carried ↔
      BootstrapMissing hashApiKey rows := by
    rw [Table.Accepts, hrows, List.forall_mem_map]
    refine (and_iff_right rfl).trans (forall₂_congr fun l _ => ?_)
    have hclash : deviceSchema.clash l.carried (bootstrapRow hashApiKey).carried =
        (sameText (bootstrapRow hashApiKey).deviceId l.deviceId ||
          sameText (bootstrapRow hashApiKey).apiKeyHash l.apiKeyHash) := by
      rw [sameText_comm, sameText_comm (bootstrapRow hashApiKey).apiKeyHash]
      exact Bool.or_false _
    rw [hclash, Bool.or_eq_false_iff, bootstrapRow, Bool.eq_false_iff, Bool.eq_false_iff, ne_eq,
      ne_eq, sameText_some_iff, sameText_some_iff]
  rw [seededTable, Table.rows_insertOrIgnore, withBootstrap, hrows]
  by_cases hmissing : BootstrapMissing hashApiKey rows
  · rw [if_pos (haccepts.mpr hmissing), if_pos hmissing, List.map_append]
    rfl
  · rw [if_neg (fun h => hmissing (haccepts.mp h)), if_neg hmissing]

theorem Migrating.congr (h : Migrating hashApiKey rows f) (hdevices : g.devices = f.devices)
    (hversions : g.versions = f.versions) : Migrating hashApiKey rows g := by
  cases h with
  | legacy hd hv => exact .legacy (hdevices ▸ hd) (hversions.trans hv)
  | swapped hd hv => exact .swapped (hdevices.trans hd) (hversions.trans hv)
  | migrated _ _ hd hv => exact .migrated _ _ (hdevices.trans hd) (hversions.trans hv)
  | seeded _ _ hd hv => exact .seeded _ _ (hdevices.trans hd) (hversions.trans hv)

theorem Migrated.migrating (h : Migrated hashApiKey rows f) : Migrating hashApiKey rows f := by
  obtain ⟨nowMs, nowMs', hv⟩ := h.versions
  exact .seeded nowMs nowMs' h.devices hv

/-- What a table says about its versions, behind the script. -/
theorem Catalog.schemaMigrations_of_created (h : f.created = f) :
    f.schemaMigrations = some f.versions := congrArg Catalog.schemaMigrations h.symm

/-- Both versions are found once they are recorded. -/
theorem write_hasVersion (hcreated : f.created = f) {n n' : ℤ} (hv : f.versions = recorded n n')
    {version : ℕ} (h : version = devicesSchemaVersion ∨ version = devicesSchemaVersionLogicalId) :
    f.write (.hasVersion version) = some (true, f) := by
  have hm := hv ▸ f.schemaMigrations_of_created hcreated
  rw [Catalog.write, hm]
  rcases h with rfl | rfl <;> rfl

/-! ## The first migration -/

/-- The transaction the first migration leaves open: the swapped table is committed, the
record of its version is not. -/
structure AwaitsColumn (rows : List LegacyRow) (nowMs : ℤ) (s : Store Catalog) : Prop where
  created : s.committed.created = s.committed
  devices : s.committed.devices = some (.registry false (swapped rows))
  versions : s.committed.versions = []
  pending : s.pending =
    some { s.committed with schemaMigrations := some [(devicesSchemaVersion, nowMs)] }

/-- The record of the first version. -/
theorem completes_recordVersion {nowMs : ℤ} (hcreated : f.created = f)
    (hdevices : f.devices = some (.registry false (swapped rows))) (hversions : f.versions = []) :
    Completes (fun _ => AwaitsColumn rows nowMs) (Migrating hashApiKey rows)
      (Startup.exec (.recordVersion devicesSchemaVersion nowMs)) (.idle f) := by
  have hv : f.schemaMigrations = some [] := hversions ▸ f.schemaMigrations_of_created hcreated
  have hwrite : f.write (.recordVersion devicesSchemaVersion nowMs) =
      some ((), { f with schemaMigrations := some [(devicesSchemaVersion, nowMs)] }) := by
    rw [Catalog.write, hv]
    rfl
  have hC : Migrating hashApiKey rows f := .swapped hdevices hversions
  exact completes_exec hC hwrite ⟨hC, hcreated, hdevices, hversions, rfl⟩

/-- **The first migration.** -/
theorem completes_migrateDevicesTable {nowMs : ℤ} (hcreated : f.created = f)
    (h : DevicesTable.HasLegacy rows f.devices ∨
      f.devices = some (.registry false (swapped rows)))
    (hversions : f.versions = []) :
    Completes (fun _ => AwaitsColumn rows nowMs) (Migrating hashApiKey rows)
      (migrateDevicesTable nowMs) (.idle f) := by
  have hv : f.schemaMigrations = some [] := hversions ▸ f.schemaMigrations_of_created hcreated
  have hC : Migrating hashApiKey rows f := h.elim (.legacy · hversions) (.swapped · hversions)
  have hselect : f.write (.hasVersion devicesSchemaVersion) = some (false, f) := by
    rw [Catalog.write, hv]
    rfl
  have hswap : ∀ h : DevicesTable.HasLegacy rows f.devices,
      Completes (fun _ => AwaitsColumn rows nowMs) (Migrating hashApiKey rows)
        (swapDevices f.devices.isSome >>= fun _ =>
          Startup.exec (.recordVersion devicesSchemaVersion nowMs)) (.idle f) := by
    intro h
    refine completes_bind (completes_swapDevices h hC (.swapped rfl hversions)) ?_
    rintro - s rfl
    let swap (g : Catalog) : Catalog :=
      { g with devices := some (.registry false (swapped rows)), devicesNew := none }
    exact completes_recordVersion (congrArg swap hcreated) rfl hversions
  refine completes_ddl hC hselect ?_
  refine completes_query hC ?_
  obtain ⟨records, calibration, quarantined, migrations, events, counters, devices, new⟩ := f
  rcases h with hlegacy | hswapped
  · cases devices with
    | none =>
      refine completes_query hC ?_
      exact hswap hlegacy
    | some t =>
      obtain rfl : t = .legacy rows := hlegacy
      refine completes_query hC ?_
      refine completes_query hC ?_
      exact hswap rfl
  · obtain rfl : devices = some (.registry false (swapped rows)) := hswapped
    refine completes_query hC ?_
    refine completes_query hC ?_
    exact completes_recordVersion hcreated rfl hversions

/-! ## The second migration, and the seed -/

/-- The column and its index. -/
theorem addColumn_createIndex (t : Table (registrySchema false)) :
    (DevicesTable.addColumn (.registry false t)).bind DevicesTable.createIndex =
      some (.indexed (logicalTable t)) := by
  have hlogical : t.rows.Pairwise fun x y =>
      sameText x.logicalDeviceId y.logicalDeviceId = false := by
    refine t.keyed.imp_of_mem fun {x y} hx _ _ => ?_
    have hnone : x.logicalDeviceId = none := by simpa [registrySchema] using t.admitted x hx
    rw [hnone]
    rfl
  exact dif_pos hlogical

/-- **The second migration** commits what the first one left open. -/
theorem completes_migrateLogicalDeviceIdColumn {nowMs nowMs' : ℤ} {s : Store Catalog}
    (h : AwaitsColumn rows nowMs s) :
    Completes (fun _ s => ∃ g : Catalog, s = .idle g ∧ g.created = g ∧
        g.devices = some (.indexed (logicalTable (swapped rows))) ∧
          g.versions = recorded nowMs nowMs')
      (Migrating hashApiKey rows) (migrateLogicalDeviceIdColumn nowMs') s := by
  obtain ⟨f, pending⟩ := s
  obtain ⟨hcreated, hdevices, hversions, hpending⟩ := h
  have hC : Migrating hashApiKey rows f := .swapped hdevices hversions
  obtain rfl : pending =
    some { f with schemaMigrations := some [(devicesSchemaVersion, nowMs)] } := hpending
  obtain ⟨records, calibration, quarantined, migrations, events, counters, devices, new⟩ := f
  obtain rfl : devices = some (.registry false (swapped rows)) := hdevices
  refine completes_ddl_pending hC rfl ?_
  refine completes_query hC ?_
  refine completes_ddl_pending hC rfl ?_
  have hindex : Catalog.write (.mk records calibration quarantined
      (some [(devicesSchemaVersion, nowMs)]) events counters
      (DevicesTable.addColumn (.registry false (swapped rows))) new) .createLogicalIndex =
        some ((), .mk records calibration quarantined
          (some [(devicesSchemaVersion, nowMs)]) events counters
          (some (.indexed (logicalTable (swapped rows)))) new) :=
    congrArg (Option.map _) (addColumn_createIndex _)
  refine completes_ddl_pending hC hindex ?_
  refine completes_exec hC rfl ?_
  refine completes_commit hC ⟨.migrated nowMs nowMs' rfl rfl, _, rfl, ?_, rfl, rfl⟩
  let swap (g : Catalog) : Catalog :=
    { g with devices := some (.indexed (logicalTable (swapped rows))),
             schemaMigrations := some (recorded nowMs nowMs') }
  exact congrArg swap hcreated

/-- Seeding once more changes nothing. -/
theorem seed_seededTable : (seededTable hashApiKey rows).insertOrIgnore
    (bootstrapRow hashApiKey).carried = seededTable hashApiKey rows := by
  rw [Table.insertOrIgnore_eq_self_iff, Table.not_accepts_iff]
  intro hadmits
  rcases Table.mem_insertOrIgnore_or (t := logicalTable (swapped rows)) hadmits with h | h
  · exact ⟨_, h, by simp [deviceSchema, DeviceRow.clash, LegacyRow.carried, bootstrapRow, sameText]⟩
  · obtain ⟨x, hx, hclash⟩ := h
    exact ⟨x, Table.mem_insertOrIgnore.mpr (.inl hx), hclash⟩

/-- **The seed.** -/
theorem completes_seed {g : Catalog} (hcreated : g.created = g)
    (hdevices : g.devices = some (.indexed (logicalTable (swapped rows))) ∨
      g.devices = some (.indexed (seededTable hashApiKey rows)))
    (hversions : ∃ nowMs nowMs', g.versions = recorded nowMs nowMs') :
    Completes (fun _ s => ∃ g, s = .idle g ∧ Migrated hashApiKey rows g)
      (Migrating hashApiKey rows)
      (Startup.exec (.seedDevice (bootstrapRow hashApiKey)) >>= fun _ => Startup.commit)
      (.idle g) := by
  obtain ⟨nowMs, nowMs', hv⟩ := hversions
  have hC : Migrating hashApiKey rows g :=
    hdevices.elim (.migrated nowMs nowMs' · hv) (.seeded nowMs nowMs' · hv)
  have hwrite : g.write (.seedDevice (bootstrapRow hashApiKey)) =
      some ((), { g with devices := some (.indexed (seededTable hashApiKey rows)) }) := by
    rw [Catalog.write]
    rcases hdevices with hd | hd
    · rw [hd]
      rfl
    · rw [hd, Option.map_some, DevicesTable.seed, seed_seededTable]
  let seed (g : Catalog) : Catalog :=
    { g with devices := some (.indexed (seededTable hashApiKey rows)) }
  refine completes_exec hC hwrite (completes_commit hC ?_)
  exact ⟨.seeded nowMs nowMs' rfl hv, seed g, rfl, congrArg seed hcreated, rfl, nowMs, nowMs', hv⟩

/-! ## Any number of starts -/

/-- **`init_db` completes** wherever a migration stands, and ends it. -/
theorem completes_initDb (h : Migrating hashApiKey rows f) (nowMs nowMs' : ℤ) :
    Completes (fun _ s => ∃ g, s = .idle g ∧ Migrated hashApiKey rows g)
      (Migrating hashApiKey rows) (initDb hashApiKey nowMs nowMs') (.idle f) := by
  have hcreated : Migrating hashApiKey rows f.created := h.congr rfl rfl
  have hscript := completes_executescript (C := Migrating hashApiKey rows)
    fun g hd hv => h.congr hd hv
  refine completes_bind hscript ?_
  rintro - s rfl
  -- a migration that is recorded is not repeated
  have hrecorded : ∀ {g : Catalog} {n n' : ℤ}, g.created = g → g.versions = recorded n n' →
      Migrating hashApiKey rows g →
      g.devices = some (.indexed (logicalTable (swapped rows))) ∨
        g.devices = some (.indexed (seededTable hashApiKey rows)) →
      Completes (fun _ s => ∃ g, s = .idle g ∧ Migrated hashApiKey rows g)
        (Migrating hashApiKey rows) (do
          migrateDevicesTable nowMs
          migrateLogicalDeviceIdColumn nowMs'
          Startup.exec (.seedDevice (bootstrapRow hashApiKey))
          Startup.commit) (.idle g) := by
    intro g n n' hc hv hC hd
    refine completes_ddl hC (write_hasVersion hc hv (.inl rfl)) ?_
    refine completes_ddl hC (write_hasVersion hc hv (.inr rfl)) ?_
    exact completes_seed hc hd ⟨n, n', hv⟩
  -- one that is not recorded is made
  have hopen : f.created.versions = [] → DevicesTable.HasLegacy rows f.created.devices ∨
      f.created.devices = some (.registry false (swapped rows)) →
      Completes (fun _ s => ∃ g, s = .idle g ∧ Migrated hashApiKey rows g)
        (Migrating hashApiKey rows) (do
          migrateDevicesTable nowMs
          migrateLogicalDeviceIdColumn nowMs'
          Startup.exec (.seedDevice (bootstrapRow hashApiKey))
          Startup.commit) (.idle f.created) := by
    intro hv hd
    refine completes_bind (completes_migrateDevicesTable rfl hd hv) fun _ s hs => ?_
    refine completes_bind (completes_migrateLogicalDeviceIdColumn hs) ?_
    rintro - s ⟨g, rfl, hc, hd, hv⟩
    exact completes_seed hc (.inl hd) ⟨nowMs, nowMs', hv⟩
  cases hcreated with
  | legacy hd hv => exact hopen hv (.inl hd)
  | swapped hd hv => exact hopen hv (.inr hd)
  | migrated n n' hd hv => exact hrecorded rfl hv (.migrated n n' hd hv) (.inl hd)
  | seeded n n' hd hv => exact hrecorded rfl hv (.seeded n n' hd hv) (.inr hd)

/-- Nothing is left to be done: the tables are there, the versions recorded, and the
bootstrap row would be ignored. -/
structure Settled (hashApiKey : PyStr → PyStr) (f : Catalog) : Prop where
  created : f.created = f
  versions : ∃ nowMs nowMs', f.versions = recorded nowMs nowMs'
  seeded : ∃ t, f.devices = some t ∧ t.seed (bootstrapRow hashApiKey) = t

theorem Migrated.settled (h : Migrated hashApiKey rows f) : Settled hashApiKey f :=
  ⟨h.created, h.versions, _, h.devices, congrArg DevicesTable.indexed seed_seededTable⟩

/-- **A run on a settled database** commits nothing new. -/
theorem completes_initDb_settled (h : Settled hashApiKey f) (nowMs nowMs' : ℤ) :
    Completes (fun _ s => s = .idle f) (· = f) (initDb hashApiKey nowMs nowMs') (.idle f) := by
  obtain ⟨n, n', hv⟩ := h.versions
  obtain ⟨t, hdevices, ht⟩ := h.seeded
  have hseed : f.write (.seedDevice (bootstrapRow hashApiKey)) = some ((), f) := by
    rw [Catalog.write, hdevices, Option.map_some, ht, ← hdevices]
  have hscript := completes_executescript_created (f := f) initScript
  rw [h.created] at hscript
  refine completes_bind hscript ?_
  rintro - s rfl
  refine completes_ddl rfl (write_hasVersion h.created hv (.inl rfl)) ?_
  refine completes_ddl rfl (write_hasVersion h.created hv (.inr rfl)) ?_
  exact completes_exec rfl hseed (completes_commit rfl ⟨rfl, rfl⟩)

/-- **Interrupted runs** leave the migration at one of its three states. -/
theorem Interrupted.migrating (h : Migrating hashApiKey rows f)
    (hrun : Interrupted hashApiKey f g) : Migrating hashApiKey rows g := by
  induction hrun with
  | start => exact h
  | run nowMs nowMs' _ hcut ih => exact (completes_initDb ih nowMs nowMs').cuts hcut

/-- **The migration preserves the credentials.**  Any number of runs of `init_db` may be
interrupted; a complete one leaves the legacy rows, and the bootstrap row if it was
missing, in a table with the column and the index of the logical ids, and no run after
it changes anything. -/
theorem migration_preserves (hashApiKey : PyStr → PyStr) (f : Catalog) (rows : List LegacyRow)
    (hdevices : f.devices = some (.legacy rows)) (hunique : UniqueKeys rows)
    (hversions : f.versions = []) {g : Catalog} (hrun : Interrupted hashApiKey f g)
    (nowMs nowMs' : ℤ) :
    ∃ g' t, (initDb hashApiKey nowMs nowMs').perform (.idle g) = (g', some ()) ∧
      g'.devices = some (.indexed t) ∧
      t.rows = (withBootstrap hashApiKey rows).map LegacyRow.carried ∧
      ∀ n n', (initDb hashApiKey n n').perform (.idle g') = (g', some ()) ∧
        ∀ s, Cuts (sem catalogDialect) (initDb hashApiKey n n') (.idle g') s →
          s.committed = g' := by
  have hstart : Migrating hashApiKey rows f := .legacy (hdevices ▸ rfl) hversions
  have hrun := completes_initDb (hrun.migrating hstart) nowMs nowMs'
  obtain ⟨_, s, hperform, -, g', rfl, hmigrated⟩ := hrun.perform
  refine ⟨g', _, hperform, hmigrated.devices, rows_seededTable hunique, fun n n' => ⟨?_, ?_⟩⟩
  · obtain ⟨_, s, hperform, -, rfl⟩ := (completes_initDb_settled hmigrated.settled n n').perform
    exact hperform
  · exact fun s hcut => (completes_initDb_settled hmigrated.settled n n').cuts hcut

/-- One device and a revoked one. -/
def legacyRows : List LegacyRow :=
  [⟨some (py "flow-01"), some (py "h1"), 0⟩, ⟨some (py "flow-02"), some (py "h2"), 1⟩]

/-- A database of the first version. -/
def legacyFile : Catalog := { Catalog.empty with devices := some (.legacy legacyRows) }

/-- A power cut between the swap and the record of its version. -/
theorem migration_preserves_legacyFile : ∃ g, Interrupted id legacyFile g ∧ g.versions = [] ∧
    g.devices = some (.registry false (swapped legacyRows)) ∧
    ∃ g' t, (initDb id 2000 2001).perform (.idle g) = (g', some ()) ∧
      g'.devices = some (.indexed t) ∧
      t.rows = (legacyRows ++ [bootstrapRow id]).map LegacyRow.carried ∧
      ∀ n n', (initDb id n n').perform (.idle g') = (g', some ()) ∧
        ∀ s, Cuts (sem catalogDialect) (initDb id n n') (.idle g') s → s.committed = g' := by
  have hrun : Interrupted id legacyFile ((initDb id 1000 1001).after 22 (.idle legacyFile)).committed :=
    .run 1000 1001 .start (Session.cuts_after _ _ _)
  refine ⟨_, hrun, rfl, rfl, ?_⟩
  exact migration_preserves id legacyFile legacyRows rfl (by decide) rfl hrun 2000 2001

end Server
end CovioFirmware
