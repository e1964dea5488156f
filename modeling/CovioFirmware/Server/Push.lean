import CovioFirmware.Server.Database
import Mathlib.Data.List.Dedup
import Mathlib.Data.List.Infix
import Mathlib.Data.List.Sort

/-!
# `push()`

The receiver of a device's batches, behind `require_api_key`.  Each record is stored
in one of the two tables or quarantined, everything is committed together, and the
answer acknowledges the seqs that are resolved without a gap.

An exception before the commit (a value that cannot be bound, looked up in a set, or
indexed by a name) ends the request with status 500 and rolls everything back; so it
does not matter at which record it is raised, and the model has one outcome for it.
After the commit only the ack scan can raise one, where it compares a text with a
number.

Left out are the Twin's row in `devices` and the audit event in `device_events`, which
no push reads: of the values written there the model keeps the ones whose binding may
fail.  `max(accepted_totals)` is not among them, for every total has been bound before.
-/

namespace CovioFirmware
namespace Server

/-- Why a record is quarantined: the text of the `reason` column. -/
inductive Reason where
  | unsupportedSchemaVersion (sv : Json) : Reason
  | unknownRecordType (rt : Json) : Reason
  | missingField (name : String) : Reason

/-- `"unsupported_schema_version:%r"`, `"unknown_record_type:%r"` and
`"missing_field:%s"`; the text of a `KeyError` is its key in quotes. -/
def Reason.text (ρ : Rendering) : Reason → PyStr
  | .unsupportedSchemaVersion sv => py "unsupported_schema_version:" ++ ρ.repr sv
  | .unknownRecordType rt => py "unknown_record_type:" ++ ρ.repr rt
  | .missingField name => py "missing_field:'" ++ py name ++ py "'"

namespace Dict

/-- `r.get("schema_version", None)`. -/
def schemaVersion (r : Dict) : Json := r.get (py "schema_version")

/-- `r.get("record_type", RECORD_TYPE_TELEMETRY)`. -/
def recordType (r : Dict) : Json := r.getD (py "record_type") (.int 1)

/-- The fields read by `r["boot_id"], r["seq"], r["ts"], r["totalizer"]`, in this
order. -/
def requiredFields : List String := ["boot_id", "seq", "ts", "totalizer"]

/-- The first required field that is missing. -/
def missingField (r : Dict) : Option String :=
  requiredFields.find? fun name => (r.get? (py name)).isNone

/-- The acceptance rule: `none` for a `TypeError` of an unhashable value, else why the
record is quarantined, if it is.  `ACCEPTED_SCHEMA_VERSIONS` and `KNOWN_RECORD_TYPES`
are `{1}`. -/
def quarantineReason (r : Dict) : Option (Option Reason) := do
  let accepted ← r.schemaVersion.isOne
  if accepted then do
    let known ← r.recordType.isOne
    if known then return r.missingField.map .missingField
    else return some (.unknownRecordType r.recordType)
  else return some (.unsupportedSchemaVersion r.schemaVersion)

end Dict

/-- What all records of a push share: its device, its K-factor version and its time. -/
structure Sender where
  device : Json
  kver : Json
  nowMs : ℤ

/-- `INSERT OR IGNORE INTO quarantined_records`; `none` if a value cannot be bound. -/
def quarantineInsert (ρ : Rendering) (s : Sender) (r : Dict) (reason : Reason) :
    Option Insert := do
  let dev ← s.device.bind
  let bootId ← (r.get (py "boot_id")).bind
  let seq ← (r.get (py "seq")).bind
  let sv ← r.schemaVersion.bind
  let rt ← r.recordType.bind
  return .quarantine {
    deviceId := dev.toText ρ
    bootId := bootId.toInteger ρ
    seq := seq.toInteger ρ
    schemaVersion := sv.toInteger ρ
    recordType := rt.toInteger ρ
    reason := reason.text ρ
    rawJson := ρ.dumps r
    recvMs := .num s.nowMs }

/-- `INSERT OR IGNORE INTO records`; `none` if a value cannot be bound. -/
def recordInsert (ρ : Rendering) (s : Sender) (r : Dict) : Option Insert := do
  let dev ← s.device.bind
  let bootId ← (r.get (py "boot_id")).bind
  let seq ← (r.get (py "seq")).bind
  let ts ← (r.get (py "ts")).bind
  let totalizer ← (r.get (py "totalizer")).bind
  let quality ← (r.getD (py "quality") (.int 0)).bind
  let rssi ← (r.getD (py "rssi") (.int 0)).bind
  let kver ← s.kver.bind
  let sv ← r.schemaVersion.bind
  let rt ← r.recordType.bind
  return .record {
    deviceId := dev.toText ρ
    bootId := bootId.toInteger ρ
    seq := seq.toInteger ρ
    ts := ts.toInteger ρ
    totalizer := totalizer.toInteger ρ
    quality := quality.toInteger ρ
    rssi := rssi.toInteger ρ
    recvMs := .num s.nowMs
    kfactorVersion := kver.toInteger ρ
    schemaVersion := sv.toInteger ρ
    recordType := rt.toInteger ρ }

/-- The statement of one record. -/
def recordStatement (ρ : Rendering) (s : Sender) (r : Dict) : Option Insert := do
  let verdict ← r.quarantineReason
  match verdict with
  | some reason => quarantineInsert ρ s r reason
  | none => recordInsert ρ s r

/-- An entry of `newly_quarantined`. -/
structure Disposition where
  seq : Json
  reason : PyStr

/-- The loop over the records: the database, and `newly_quarantined`. -/
def recordLoop (ρ : Rendering) (s : Sender) :
    List Dict → Database × List Disposition → Option (Database × List Disposition)
  | [], acc => some acc
  | r :: rs, (db, told) => do
      let verdict ← r.quarantineReason
      let i ← recordStatement ρ s r
      let told := match verdict with
        | some reason =>
            if (r.get (py "seq")).isNone then told
            else told ++ [⟨r.get (py "seq"), reason.text ρ⟩]
        | none => told
      recordLoop ρ s rs (db.insert i, told)

/-- The value as an object; only a `dict` has `get`. -/
def Json.asDict : Json → Option Dict
  | .obj r => some r
  | _ => none

/-- The elements a `for` loop over a value runs through, as objects; `none` for an
exception. -/
def Json.records : Json → Option (List Dict)
  | .arr xs => xs.mapM Json.asDict
  | .obj [] => some []
  | .str [] => some []
  | _ => none

/-- A list of objects is read as these objects. -/
theorem records_arr (rs : List Dict) : (Json.arr (rs.map .obj)).records = some rs := by
  induction rs with
  | nil => rfl
  | cons r rs ih =>
    have htail : (rs.map Json.obj).mapM Json.asDict = some rs := ih
    rw [List.map_cons, Json.records, List.mapM_cons, htail]
    rfl

/-- The device, version and time of a push. -/
def Dict.sender (body : Dict) (nowMs : ℤ) : Sender where
  device := body.getD (py "device_id") (.str (py "unknown"))
  kver := body.getD (py "kfactor_version") (.int 0)
  nowMs := nowMs

/-- The part of `push` up to the commit; `none` for an exception. -/
def pushCommit (ρ : Rendering) (nowMs : ℤ) (body : Dict) (db : Database) :
    Option (Database × List Disposition) := do
  let rs ← (body.get (py "records")).records
  let out ← recordLoop ρ (body.sender nowMs) rs (db, [])
  -- the row of `devices`
  let _ ← (body.get (py "fw")).bind
  let _ ← (body.sender nowMs).kver.bind
  let _ ← (body.sender nowMs).device.bind
  return out

/-! ## The acknowledgement -/

/-- The seqs of a device in both tables. -/
def Database.seqs (db : Database) (device : Cell) : List Cell :=
  (db.records.rows.filter fun r => device.same r.deviceId).map RecordRow.seq ++
    ((db.quarantined.rows.filter fun r => device.same r.deviceId).map QuarantineRow.seq).filter
      (· ≠ .null)

/-- The rows of the `UNION`, sorted. -/
def Database.resolved (db : Database) (device : Cell) : List Cell :=
  (db.seqs device).dedup.insertionSort fun a b => a.le b = true

/-- The ack scan; `none` for the `TypeError` of comparing a text with a number. -/
def contiguous : ℤ → List Cell → Option ℤ
  | contig, [] => some contig
  | contig, .num q :: rows =>
      if q = contig + 1 then contiguous (contig + 1) rows
      else if contig + 1 < q then some contig
      else contiguous contig rows
  | contig, .negInf :: rows => contiguous contig rows
  | contig, .posInf :: _ => some contig
  | _, .text _ :: _ => none
  | _, .null :: _ => none

/-- `ack_seq` for a device. -/
def ackSeq (db : Database) (device : Cell) : Option ℤ := contiguous 0 (db.resolved device)

/-- The answers. -/
inductive Response where
  /-- Status 200. -/
  | ack (ackSeq : ℤ) (quarantined : List Disposition) (serverTimeMs : ℤ) : Response
  /-- Status 400. -/
  | badPayload : Response
  /-- Status 500. -/
  | exception : Response

/-- The device of a push, as the tables have it. -/
def Dict.device (ρ : Rendering) (body : Dict) : Cell :=
  (body.getD (py "device_id") (.str (py "unknown"))).textCell ρ

/-- The HTTP status. -/
def Response.status : Response → ℕ
  | .ack _ _ _ => 200
  | .badPayload => 400
  | .exception => 500

/-- The `ack_seq` of an answer. -/
def Response.ack? : Response → Option ℤ
  | .ack n _ _ => some n
  | _ => none

theorem Response.status_eq_ok_iff {r : Response} : r.status = 200 ↔ r.ack? ≠ none := by
  cases r <;> simp [Response.status, Response.ack?]

/-- The clock readings of a push: at its start, and when it answers. -/
structure Times where
  nowMs : ℤ
  answerMs : ℤ

/-- `push` for a body that is an object with `records`. -/
def pushRecords (ρ : Rendering) (t : Times) (body : Dict) (db : Database) :
    Response × Database :=
  match pushCommit ρ t.nowMs body db with
  | none => (.exception, db)
  | some (db', told) =>
      match ackSeq db' (body.device ρ) with
      | none => (.exception, db')
      | some n => (.ack n told t.answerMs, db')

/-- `bool(v)`. -/
def Json.truthy : Json → Bool
  | .null => false
  | .bool b => b
  | .int n => n ≠ 0
  | .float x => x ≠ .finite 0 && x ≠ .negZero
  | .str s => !s.isEmpty
  | .arr xs => !xs.isEmpty
  | .obj fields => !fields.isEmpty

/-- `v == s`, for a string `s`. -/
def Json.equalsText (s : PyStr) : Json → Bool
  | .str t => t == s
  | _ => false

/-- `"records" in v`; `none` for a `TypeError`. -/
def Json.mentionsRecords : Json → Option Bool
  | .obj fields => some (fields.any fun f => f.1 == py "records")
  | .arr xs => some (xs.any (Json.equalsText (py "records")))
  | .str s => some (decide (py "records" <:+: s))
  | _ => none

/-- `push`, of a request whose body was parsed to `body` (`none` where it is no
JSON). -/
def push (ρ : Rendering) (t : Times) (body : Option Json) (db : Database) :
    Response × Database :=
  match body with
  | none => (.badPayload, db)
  | some v =>
      if v.truthy then
        match v.mentionsRecords with
        | none => (.exception, db)
        | some false => (.badPayload, db)
        | some true =>
            match v with
            | .obj fields => pushRecords ρ t fields db
            -- only a `dict` has `get`
            | _ => (.exception, db)
      else (.badPayload, db)

/-! ## A record in order -/

/-- What the rendering of values does with the few that the examples below render: a
`None`, and a record that is its seq alone. -/
def plain : Rendering where
  repr _ := py "None"
  dumps _ := py "\x7b\"seq\": 1\x7d"
  numeric _ := none
  realText _ := py "0.0"

/-- A record as a device sends it. -/
def telemetry (seq : ℤ) : Dict :=
  [(py "schema_version", .int 1), (py "record_type", .int 1), (py "boot_id", .int 1),
    (py "seq", .int seq), (py "ts", .int 1000), (py "totalizer", .int 42),
    (py "quality", .int 0), (py "rssi", .int (-60))]

/-- A push of the device `flow-1`. -/
def pushOf (records : List Dict) : Dict :=
  [(py "device_id", .str (py "flow-1")), (py "records", .arr (records.map .obj))]

end Server
end CovioFirmware
