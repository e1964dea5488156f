import CovioFirmware.Server.Commit

/-!
# Which pushes dispose of every record

`push()` means to store every record of a batch in one of the two tables, and to let no
record stop it.  Three things break that:

* a value that Python cannot hash or SQLite cannot bind raises an exception, and the
  whole batch is rolled back with status 500;
* an accepted record with a NULL in one of the NOT NULL columns is skipped by `INSERT OR
  IGNORE`, and is then in neither table;
* a seq that is stored as text raises an exception in the ack scan, where it stands
  right behind the resolved numbers --- after the commit, and again at every later push.

`push_disposes_iff` says that nothing else does: a push answers 200 with every record
disposed of exactly if its values can be processed, each of its seqs is stored
already or belongs to a record that fills its row, and no text stands behind the run
(`Disposable`).  The condition reads the body and the tables before the push.
-/

namespace CovioFirmware
namespace Server

variable {ρ : Rendering}

/-- A seq of the push's device that is present already, or that a record of the push
brings to its table. -/
def Resolves (ρ : Rendering) (nowMs : ℤ) (body : Dict) (rs : List Dict) (db : Database)
    (seq : Cell) : Prop :=
  db.Present (body.device ρ) seq ∨
    seq ≠ .null ∧ ∃ r ∈ rs, r.Stored ρ (body.sender nowMs) ∧ r.seqCell ρ = seq

/-- Among these seqs a text follows a run of numbers without a gap. -/
def TextBehindRun (seqs : Cell → Prop) : Prop :=
  ∃ n : ℤ, (0 ≤ n ∧ ∀ i : ℤ, 1 ≤ i → i ≤ n → seqs (.num i)) ∧
    (∀ q, seqs (.num q) → q < (n : ℚ) + 1) ∧ ¬ seqs .posInf ∧ ∃ s, seqs (.text s)

/-- The pushes that dispose of every record. -/
structure Disposable (ρ : Rendering) (nowMs : ℤ) (body : Dict) (rs : List Dict)
    (db : Database) : Prop where
  readable : ∀ r ∈ rs, r.Readable (body.sender nowMs)
  fw : (body.get (py "fw")).Bindable
  kver : (body.sender nowMs).kver.Bindable
  device : (body.sender nowMs).device.Bindable
  resolved : ∀ r ∈ rs, (r.get (py "seq")).isNone = false →
    Resolves ρ nowMs body rs db (r.seqCell ρ)
  scannable : ¬ TextBehindRun (Resolves ρ nowMs body rs db)

/-- The push answers 200, and every record with a seq is in one of the tables. -/
def Disposes (ρ : Rendering) (t : Times) (body : Dict) (rs : List Dict) (db : Database) : Prop :=
  (push ρ t (some (.obj body)) db).1.status = 200 ∧
    ∀ r ∈ rs, (r.get (py "seq")).isNone = false →
      (push ρ t (some (.obj body)) db).2.Present (body.device ρ) (r.seqCell ρ)

/-- **When every record gets a durable disposition.** -/
theorem push_disposes_iff (ρ : Rendering) (t : Times) (body : Dict) (rs : List Dict)
    (db : Database) (hrs : body.get? (py "records") = some (.arr (rs.map .obj))) :
    Disposes ρ t body rs db ↔ Disposable ρ t.nowMs body rs db := by
  have hrecords : (body.get (py "records")).records = some rs := by
    rw [Dict.get, Dict.getD, hrs, Option.getD_some, records_arr]
  by_cases hproc : body.Processable t.nowMs rs
  · obtain ⟨told, hcommit, hack⟩ := push_of_processable (ρ := ρ) hproc db
    have hpresent : ∀ seq, (push ρ t (some (.obj body)) db).2.Present (body.device ρ) seq ↔
        Resolves ρ t.nowMs body rs db seq := fun seq =>
      (present_pushCommit hrecords hcommit).trans (or_congr_right (and_iff_right rfl))
    have hstatus : (push ρ t (some (.obj body)) db).1.status = 200 ↔
        ¬ TextBehindRun (Resolves ρ t.nowMs body rs db) := by
      rw [Response.status_eq_ok_iff, hack, ne_eq, ackSeq_eq_none_iff]
      simp only [Database.ResolvedTo, hpresent]
      rfl
    unfold Disposes
    simp only [hstatus, hpresent]
    constructor
    · rintro ⟨hscan, hall⟩
      exact ⟨hproc.readable, hproc.fw, hproc.kver, hproc.device, hall, hscan⟩
    · intro h
      exact ⟨h.scannable, h.resolved⟩
  · refine iff_of_false ?_ fun h => hproc ⟨hrecords, h.readable, h.fw, h.kver, h.device⟩
    rintro ⟨hstatus, -⟩
    refine Response.status_eq_ok_iff.mp hstatus (push_of_not_processable _ ?_).2
    rintro ⟨fields, rs', hfields, hproc'⟩
    cases hfields
    obtain rfl : rs = rs' := Option.some.inj (hrecords.symm.trans hproc'.records)
    exact hproc hproc'

/-- A batch of one record in order is disposed of, on empty tables. -/
theorem telemetry_disposed :
    Disposes plain ⟨0, 0⟩ (pushOf [telemetry 1]) [telemetry 1] .empty := by
  refine (push_disposes_iff plain ⟨0, 0⟩ (pushOf [telemetry 1]) [telemetry 1] .empty rfl).mpr ?_
  have hstored : (telemetry 1).Stored plain ((pushOf [telemetry 1]).sender 0) :=
    ⟨by decide +kernel, fun _ => by decide +kernel⟩
  have hresolves : ∀ seq, Resolves plain 0 (pushOf [telemetry 1]) [telemetry 1] .empty seq →
      seq = .num 1 := by
    rintro seq (hold | ⟨-, r, hr, -, rfl⟩)
    · rcases hold with ⟨r, hr, -⟩ | ⟨r, hr, -⟩
      · exact absurd hr List.not_mem_nil
      · exact absurd hr List.not_mem_nil
    · rw [List.mem_singleton.mp hr]
      decide +kernel
  refine ⟨?_, rfl, rfl, rfl, ?_, ?_⟩
  · intro r hr
    rw [List.mem_singleton.mp hr]
    exact ⟨by decide +kernel, rfl, rfl, rfl, rfl, rfl, fun _ => ⟨rfl, rfl, rfl, rfl, rfl⟩⟩
  · intro r hr _
    exact .inr ⟨by rw [List.mem_singleton.mp hr]; decide +kernel, r, hr,
      by rw [List.mem_singleton.mp hr]; exact hstored, rfl⟩
  · rintro ⟨n, -, -, -, s, hs⟩
    cases hresolves _ hs

/-- An accepted record whose `ts` is null. -/
def nullTs : Dict :=
  [(py "schema_version", .int 1), (py "record_type", .int 1), (py "boot_id", .int 1),
    (py "seq", .int 1), (py "ts", .null), (py "totalizer", .int 42)]

/-- The record with the null `ts` is in neither table. -/
theorem null_ts_dropped :
    ¬ ∀ (ρ : Rendering) (t : Times) (body : Dict) (rs : List Dict) (db : Database),
      body.get? (py "records") = some (.arr (rs.map .obj)) → Disposes ρ t body rs db := by
  intro h
  have hnull := (h plain ⟨0, 0⟩ (pushOf [nullTs]) [nullTs] .empty rfl).2 nullTs
    List.mem_cons_self rfl
  exact absurd hnull (by decide +kernel)

end Server
end CovioFirmware
