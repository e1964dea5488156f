import CovioFirmware.Safety.ServerAck
import Mathlib.Data.List.Pairwise

/-!
# The rows a push leaves

`ServerAck` follows which seqs are present; here it is the rows themselves.  A push adds
to the tables nothing but the rows of the statements it runs (`store_eq`), and those
carry the device of the push, so a push of another device leaves the rows of this one
alone (`Database.Own.store_other`).
-/

namespace CovioFirmware
namespace Server

variable {ρ : Rendering} {device : Cell}

/-- What the statements leave of `records`: what was there, and rows of their own. -/
theorem mem_records_foldl {is : List Insert} {db : Database} {x : RecordRow}
    (h : x ∈ (is.foldl Database.insert db).records.rows) :
    x ∈ db.records.rows ∨ Insert.record x ∈ is := by
  induction is generalizing db with
  | nil => exact .inl h
  | cons i is ih =>
    rcases ih h with h | h
    · cases i with
      | record row =>
        rcases Table.mem_insertOrIgnore.mp h with h | ⟨-, rfl⟩
        · exact .inl h
        · exact .inr List.mem_cons_self
      | quarantine row => exact .inl h
    · exact .inr (List.mem_cons_of_mem _ h)

theorem mem_quarantined_foldl {is : List Insert} {db : Database} {x : QuarantineRow}
    (h : x ∈ (is.foldl Database.insert db).quarantined.rows) :
    x ∈ db.quarantined.rows ∨ Insert.quarantine x ∈ is := by
  induction is generalizing db with
  | nil => exact .inl h
  | cons i is ih =>
    rcases ih h with h | h
    · cases i with
      | record row => exact .inl h
      | quarantine row =>
        rcases Table.mem_insertOrIgnore.mp h with h | ⟨-, rfl⟩
        · exact .inl h
        · exact .inr List.mem_cons_self
    · exact .inr (List.mem_cons_of_mem _ h)

/-- **A push runs the statements of its records**, or changes nothing. -/
theorem store_eq (ρ : Rendering) (q : Request) (db : Database) :
    q.store ρ db = db ∨ ∃ fields : Dict, q.body = some (.obj fields) ∧
      q.store ρ db = (q.records.filterMap
        (recordStatement ρ (fields.sender q.times.nowMs))).foldl Database.insert db := by
  by_cases hproc : q.Processable
  · obtain ⟨fields, rs, hbody, hproc⟩ := hproc
    obtain ⟨told, hcommit, -⟩ := push_of_processable (ρ := ρ) hproc db
    rw [← hbody] at hcommit
    obtain ⟨rs', hproc', hloop⟩ := pushCommit_eq_some_iff.mp hcommit
    have hrecords : q.records = rs' := by
      simp only [Request.records, hbody]
      rw [show (Dict.get fields (py "records")).records = some rs' from hproc'.records]
      rfl
    exact .inr ⟨fields, hbody, hrecords.symm ▸ recordLoop_spec hloop⟩
  · exact .inl (push_of_not_processable (ρ := ρ) db hproc).1

/-- Every row of the device is one of these, and none is quarantined. -/
structure Database.Own (db : Database) (device : Cell) (P : RecordRow → Prop) : Prop where
  records : ∀ x ∈ db.records.rows, x.deviceId = device → P x
  quarantined : ∀ x ∈ db.quarantined.rows, x.deviceId ≠ device

theorem Database.Own.mono {db : Database} {P P' : RecordRow → Prop} (h : db.Own device P)
    (hP : ∀ x, P x → P' x) : db.Own device P' :=
  ⟨fun x hx hd => hP x (h.records x hx hd), h.quarantined⟩

/-- What a push may add to the rows of the device. -/
theorem Database.Own.store {db : Database} {P : RecordRow → Prop} (h : db.Own device P)
    {q : Request} (hq : ∀ fields : Dict, q.body = some (.obj fields) → ∀ r ∈ q.records, ∀ i,
      recordStatement ρ (fields.sender q.times.nowMs) r = some i → i.deviceId = device →
        ∃ x, i = .record x ∧ P x) : (q.store ρ db).Own device P := by
  rcases store_eq ρ q db with hsame | ⟨fields, hbody, hstore⟩
  · rwa [hsame]
  · rw [hstore]
    refine ⟨fun x hx hd => ?_, fun x hx hd => ?_⟩
    · rcases mem_records_foldl hx with hx | hx
      · exact h.records x hx hd
      · obtain ⟨r, hr, hi⟩ := List.mem_filterMap.mp hx
        obtain ⟨y, hy, hP⟩ := hq fields hbody r hr _ hi hd
        cases hy
        exact hP
    · rcases mem_quarantined_foldl hx with hx | hx
      · exact h.quarantined x hx hd
      · obtain ⟨r, hr, hi⟩ := List.mem_filterMap.mp hx
        obtain ⟨y, hy, -⟩ := hq fields hbody r hr _ hi hd
        cases hy

/-- **Another device's push** leaves the rows of this one alone. -/
theorem Database.Own.store_other {db : Database} {P : RecordRow → Prop} (h : db.Own device P)
    {q : Request} (hq : q.sentBy ρ device = false) : (q.store ρ db).Own device P := by
  refine h.store fun fields hbody r _ i hi hdevice => ?_
  have hsent : q.sentBy ρ device = true :=
    Request.sentBy_iff.mpr ⟨fields, hbody, (recordStatement_spec hi).1.symm.trans hdevice⟩
  rw [hq] at hsent
  cases hsent

theorem Cell.same_comm (a b : Cell) : a.same b = b.same a := by
  rw [Bool.eq_iff_iff, Cell.same_iff, Cell.same_iff]
  constructor
  · rintro ⟨h, rfl⟩
    exact ⟨h, rfl⟩
  · rintro ⟨h, rfl⟩
    exact ⟨h, rfl⟩

/-- Two rows of `records` under one device and seq are one row. -/
theorem records_unique {db : Database} {x y : RecordRow} (hx : x ∈ db.records.rows)
    (hy : y ∈ db.records.rows) (hdevice : x.deviceId = y.deviceId) (hseq : x.seq = y.seq) :
    x = y := by
  have : Std.Symm fun x y : RecordRow => x.clash y = false := by
    refine ⟨fun x y h => ?_⟩
    rw [RecordRow.clash, Cell.same_comm, Cell.same_comm y.seq]
    exact h
  have hfilled := RecordRow.admits_iff.mp (db.records.admitted x hx)
  by_contra hne
  have hclash : x.clash y = false := List.Pairwise.forall db.records.keyed hx hy hne
  have hsame : x.clash y = true := by
    simp only [RecordRow.clash, Bool.and_eq_true, Cell.same_iff]
    exact ⟨⟨hfilled.1, hdevice⟩, hfilled.2.2.1, hseq⟩
  rw [hsame] at hclash
  cases hclash

end Server
end CovioFirmware
