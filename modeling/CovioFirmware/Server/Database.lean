import CovioFirmware.Server.Table
import CovioFirmware.Server.Values

/-!
# The two tables of the receiver

`records` and `quarantined_records`, as `init_db` creates them.  Both are written by
`INSERT OR IGNORE` alone, which skips a row that violates a NOT NULL constraint or
the primary key.  A primary key that contains a NULL violates nothing: SQLite takes
no two NULLs to be equal.  That concerns `quarantined_records`, whose key columns `seq`
and `schema_version` may be NULL.
-/

namespace CovioFirmware
namespace Server

/-- The value of a column equals the value it is compared with, as `=` in SQLite. -/
def Cell.same (a b : Cell) : Bool := a ≠ .null && a == b

/-- A row of `records`. -/
structure RecordRow where
  deviceId : Cell
  bootId : Cell
  seq : Cell
  ts : Cell
  totalizer : Cell
  quality : Cell
  rssi : Cell
  recvMs : Cell
  kfactorVersion : Cell
  schemaVersion : Cell
  recordType : Cell
  deriving DecidableEq

/-- The NOT NULL columns of `records` are filled. -/
def RecordRow.admits (r : RecordRow) : Bool :=
  [r.deviceId, r.bootId, r.seq, r.ts, r.totalizer, r.quality, r.recvMs, r.schemaVersion,
    r.recordType].all (· ≠ .null)

/-- `PRIMARY KEY (device_id, seq)`. -/
def RecordRow.clash (r r' : RecordRow) : Bool :=
  r.deviceId.same r'.deviceId && r.seq.same r'.seq

/-- A row of `quarantined_records`. -/
structure QuarantineRow where
  deviceId : Cell
  bootId : Cell
  seq : Cell
  schemaVersion : Cell
  recordType : Cell
  reason : PyStr
  rawJson : PyStr
  recvMs : Cell
  deriving DecidableEq

/-- The NOT NULL columns of `quarantined_records` are filled. -/
def QuarantineRow.admits (r : QuarantineRow) : Bool :=
  [r.deviceId, r.recvMs].all (· ≠ .null)

/-- `PRIMARY KEY (device_id, seq, schema_version)`. -/
def QuarantineRow.clash (r r' : QuarantineRow) : Bool :=
  r.deviceId.same r'.deviceId && r.seq.same r'.seq && r.schemaVersion.same r'.schemaVersion

/-- The database, as far as a push reads it again. -/
@[ext] structure Database where
  records : Table ⟨RecordRow.admits, RecordRow.clash⟩
  quarantined : Table ⟨QuarantineRow.admits, QuarantineRow.clash⟩

/-- The tables after `init_db`. -/
def Database.empty : Database := ⟨.empty, .empty⟩

/-- What a push stores for one record. -/
inductive Insert where
  | record (row : RecordRow) : Insert
  | quarantine (row : QuarantineRow) : Insert

/-- The statement executed. -/
def Database.insert (db : Database) : Insert → Database
  | .record row => ⟨db.records.insertOrIgnore row, db.quarantined⟩
  | .quarantine row => ⟨db.records, db.quarantined.insertOrIgnore row⟩

/-- A row of this device and seq is in one of the tables. -/
def Database.Present (db : Database) (device seq : Cell) : Prop :=
  (∃ r ∈ db.records.rows, device.same r.deviceId ∧ seq.same r.seq) ∨
    ∃ r ∈ db.quarantined.rows, device.same r.deviceId ∧ seq.same r.seq

instance (db : Database) (device seq : Cell) : Decidable (db.Present device seq) :=
  inferInstanceAs (Decidable ((∃ r ∈ db.records.rows, _) ∨ ∃ r ∈ db.quarantined.rows, _))

/-- The columns that decide a statement's fate: its device and seq, and whether its NOT
NULL columns are filled. -/
def Insert.deviceId : Insert → Cell
  | .record row => row.deviceId
  | .quarantine row => row.deviceId

def Insert.seq : Insert → Cell
  | .record row => row.seq
  | .quarantine row => row.seq

def Insert.admits : Insert → Bool
  | .record row => row.admits
  | .quarantine row => row.admits

/-! ## What a statement does -/

@[simp] theorem Cell.same_iff {a b : Cell} : a.same b = true ↔ a ≠ .null ∧ a = b := by
  simp [Cell.same]

theorem RecordRow.admits_iff {r : RecordRow} :
    r.admits = true ↔ r.deviceId ≠ .null ∧ r.bootId ≠ .null ∧ r.seq ≠ .null ∧ r.ts ≠ .null ∧
      r.totalizer ≠ .null ∧ r.quality ≠ .null ∧ r.recvMs ≠ .null ∧ r.schemaVersion ≠ .null ∧
        r.recordType ≠ .null := by
  simp [RecordRow.admits]

theorem QuarantineRow.admits_iff {r : QuarantineRow} :
    r.admits = true ↔ r.deviceId ≠ .null ∧ r.recvMs ≠ .null := by
  simp [QuarantineRow.admits]

/-- **One statement.**  Afterwards those keys are present that were, and the key of
the row if it is admitted. -/
theorem present_insert {db : Database} {i : Insert} {device seq : Cell} :
    (db.insert i).Present device seq ↔ db.Present device seq ∨
      i.admits = true ∧ device.same i.deviceId ∧ seq.same i.seq := by
  -- both tables alike: what a statement does, read at the two columns of the key
  have htable : ∀ {α : Type} {S : Schema α} (dev sq : α → Cell) (t : Table S) (row : α),
      (∀ x, S.clash x row = true → dev x = dev row ∧ sq x = sq row) →
      ((∃ x ∈ (t.insertOrIgnore row).rows, device.same (dev x) ∧ seq.same (sq x)) ↔
        (∃ x ∈ t.rows, device.same (dev x) ∧ seq.same (sq x)) ∨
          S.admits row = true ∧ device.same (dev row) ∧ seq.same (sq row)) := by
    intro α S dev sq t row hclash
    constructor
    · rintro ⟨x, hx, hkey⟩
      rcases Table.mem_insertOrIgnore.mp hx with hx | ⟨hacc, rfl⟩
      · exact .inl ⟨x, hx, hkey⟩
      · exact .inr ⟨hacc.1, hkey⟩
    · rintro (⟨x, hx, hkey⟩ | ⟨hadm, hkey⟩)
      · exact ⟨x, Table.mem_insertOrIgnore.mpr (.inl hx), hkey⟩
      · rcases Table.mem_insertOrIgnore_or (t := t) hadm with hx | ⟨x, hx, hc⟩
        · exact ⟨row, hx, hkey⟩
        · obtain ⟨hdev, hseq⟩ := hclash x hc
          exact ⟨x, Table.mem_insertOrIgnore.mpr (.inl hx), hdev ▸ hseq ▸ hkey⟩
  cases i with
  | record row =>
    have h := htable RecordRow.deviceId RecordRow.seq db.records row fun x hx => by
      simp only [RecordRow.clash, Bool.and_eq_true, Cell.same_iff] at hx
      exact ⟨hx.1.2, hx.2.2⟩
    exact (or_congr_left h).trans or_right_comm
  | quarantine row =>
    have h := htable QuarantineRow.deviceId QuarantineRow.seq db.quarantined row fun x hx => by
      simp only [QuarantineRow.clash, Bool.and_eq_true, Cell.same_iff] at hx
      exact ⟨hx.1.1.2, hx.1.2.2⟩
    exact (or_congr_right h).trans or_assoc.symm

end Server
end CovioFirmware
