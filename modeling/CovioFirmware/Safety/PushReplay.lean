import CovioFirmware.Server.Commit

/-!
# Pushing a batch again

A device that misses an answer sends the same batch again, so a push must not store
anything twice.  Both tables lean on their primary keys for that.  The key of `records`
has no NULL in it; the key of `quarantined_records` may, and then the row clashes with
none, not even with its own copy.

So a batch can be pushed again without a change exactly if none of its quarantined
records has a NULL in its key (`push_replay_iff`).  A record without a `schema_version`
is quarantined for just that reason, and its `schema_version` column is NULL
(`no_version_grows`).
-/

namespace CovioFirmware
namespace Server

variable {ρ : Rendering}

/-! ## Statements that change nothing -/

/-- The row's key is complete: it clashes with its own copy. -/
def Insert.keyed : Insert → Bool
  | .record row => row.clash row
  | .quarantine row => row.clash row

/-- The row's key is taken. -/
def Database.Takes (db : Database) : Insert → Prop
  | .record row => ∃ x ∈ db.records.rows, x.clash row = true
  | .quarantine row => ∃ x ∈ db.quarantined.rows, x.clash row = true

theorem insert_eq_self_iff {db : Database} {i : Insert} :
    db.insert i = db ↔ (i.admits = true → db.Takes i) := by
  cases i with
  | record row =>
    rw [Database.insert, Database.ext_iff]
    simp only [and_true]
    exact Table.insertOrIgnore_eq_self_iff.trans Table.not_accepts_iff
  | quarantine row =>
    rw [Database.insert, Database.ext_iff]
    simp only [true_and]
    exact Table.insertOrIgnore_eq_self_iff.trans Table.not_accepts_iff

/-- A key with a NULL is never taken. -/
theorem Database.Takes.keyed {db : Database} {i : Insert} (h : db.Takes i) : i.keyed = true := by
  cases i with
  | record row =>
    obtain ⟨x, -, hx⟩ := h
    simp only [Insert.keyed, RecordRow.clash, Bool.and_eq_true, Cell.same_iff] at hx ⊢
    rw [← hx.1.2, ← hx.2.2]
    exact ⟨⟨hx.1.1, trivial⟩, hx.2.1, trivial⟩
  | quarantine row =>
    obtain ⟨x, -, hx⟩ := h
    simp only [Insert.keyed, QuarantineRow.clash, Bool.and_eq_true, Cell.same_iff] at hx ⊢
    rw [← hx.1.1.2, ← hx.1.2.2, ← hx.2.2]
    exact ⟨⟨⟨hx.1.1.1, trivial⟩, hx.1.2.1, trivial⟩, hx.2.1, trivial⟩

/-- A complete key is taken once its statement has run. -/
theorem takes_insert {db : Database} {i : Insert} (hadm : i.admits = true)
    (hkey : i.keyed = true) : (db.insert i).Takes i := by
  have htable : ∀ {α : Type} {S : Schema α} (t : Table S) (row : α), S.admits row = true →
      S.clash row row = true → ∃ x ∈ (t.insertOrIgnore row).rows, S.clash x row = true := by
    intro α S t row hrow hclash
    rcases Table.mem_insertOrIgnore_or (t := t) hrow with hmem | ⟨x, hx, hc⟩
    · exact ⟨row, hmem, hclash⟩
    · exact ⟨x, Table.mem_insertOrIgnore.mpr (.inl hx), hc⟩
  cases i with
  | record row => exact htable db.records row hadm hkey
  | quarantine row => exact htable db.quarantined row hadm hkey

/-- A key stays taken. -/
theorem Database.Takes.insert {db : Database} {i : Insert} (h : db.Takes i) (j : Insert) :
    (db.insert j).Takes i := by
  cases i <;> cases j
  case record.record row row' =>
    obtain ⟨x, hx, hc⟩ := h
    exact ⟨x, Table.mem_insertOrIgnore.mpr (.inl hx), hc⟩
  case quarantine.quarantine row row' =>
    obtain ⟨x, hx, hc⟩ := h
    exact ⟨x, Table.mem_insertOrIgnore.mpr (.inl hx), hc⟩
  all_goals exact h

theorem Database.Takes.foldl {is : List Insert} {db : Database} {i : Insert} (h : db.Takes i) :
    (is.foldl Database.insert db).Takes i := by
  induction is generalizing db with
  | nil => exact h
  | cons j is ih => exact ih (h.insert j)

/-- Every complete key of a batch is taken after it. -/
theorem takes_foldl {is : List Insert} {db : Database} {i : Insert} (hi : i ∈ is)
    (hadm : i.admits = true) (hkey : i.keyed = true) :
    (is.foldl Database.insert db).Takes i := by
  induction is generalizing db with
  | nil => exact absurd hi List.not_mem_nil
  | cons j is ih =>
    rcases List.mem_cons.mp hi with rfl | hi
    · exact (takes_insert hadm hkey).foldl
    · exact ih hi

/-- The number of rows. -/
def Database.size (db : Database) : ℕ := db.records.rows.length + db.quarantined.rows.length

/-- A statement changes nothing, or adds a row. -/
theorem size_insert (db : Database) (i : Insert) :
    db.insert i = db ∨ (db.insert i).size = db.size + 1 := by
  cases i with
  | record row =>
    by_cases h : db.records.Accepts row
    · right
      rw [Database.insert, Database.size, Table.rows_insertOrIgnore, if_pos h]
      simp only [List.length_append, List.length_singleton, Database.size]
      omega
    · exact .inl (by rw [Database.insert, Table.insertOrIgnore_eq_self_iff.mpr h])
  | quarantine row =>
    by_cases h : db.quarantined.Accepts row
    · right
      rw [Database.insert, Database.size, Table.rows_insertOrIgnore, if_pos h]
      simp only [List.length_append, List.length_singleton, Database.size]
      omega
    · exact .inl (by rw [Database.insert, Table.insertOrIgnore_eq_self_iff.mpr h])

theorem size_le_foldl (is : List Insert) (db : Database) :
    db.size ≤ (is.foldl Database.insert db).size := by
  induction is generalizing db with
  | nil => exact Nat.le_refl _
  | cons i is ih =>
    refine Nat.le_trans ?_ (ih _)
    rcases size_insert db i with h | h
    · rw [h]
    · omega

/-- **A batch changes nothing** exactly if none of its statements does. -/
theorem foldl_eq_self_iff {is : List Insert} {db : Database} :
    is.foldl Database.insert db = db ↔ ∀ i ∈ is, db.insert i = db := by
  induction is with
  | nil => simp
  | cons i is ih =>
    rw [List.foldl_cons, List.forall_mem_cons]
    constructor
    · intro h
      have hi : db.insert i = db := by
        rcases size_insert db i with hi | hi
        · exact hi
        · have hle := size_le_foldl is (db.insert i)
          rw [h] at hle
          omega
      rw [hi] at h
      exact ⟨hi, ih.mp h⟩
    · rintro ⟨hi, his⟩
      rw [hi]
      exact ih.mpr his

/-! ## The statements of a replay -/

/-- The same record at another time: only the time of receipt differs, which neither the
constraints nor the keys read. -/
theorem recordStatement_at (n' : ℤ) {device kver : Json} {n : ℤ} {r : Dict} {i : Insert}
    (h : recordStatement ρ ⟨device, kver, n⟩ r = some i) :
    ∃ i', recordStatement ρ ⟨device, kver, n'⟩ r = some i' ∧
      (∀ db : Database, db.Takes i' ↔ db.Takes i) ∧ i'.admits = i.admits := by
  unfold recordStatement at h ⊢
  cases hreason : r.quarantineReason with
  | none => simp [hreason] at h
  | some verdict =>
    rw [hreason, Option.bind_eq_bind, Option.bind_some] at h
    rw [Option.bind_eq_bind, Option.bind_some]
    cases verdict with
    | some reason =>
      obtain ⟨hbind, rfl⟩ := quarantineInsert_eq_some.mp h
      exact ⟨_, quarantineInsert_eq_some.mpr ⟨hbind, rfl⟩, fun _ => Iff.rfl, rfl⟩
    | none =>
      obtain ⟨hbind, hbind', rfl⟩ := recordInsert_eq_some.mp h
      exact ⟨_, recordInsert_eq_some.mpr ⟨hbind, hbind', rfl⟩, fun _ => Iff.rfl, rfl⟩

/-- The record can be pushed again: it is accepted, or quarantined with a key that has no
NULL in it.  Without a device nothing is stored at all. -/
def Dict.Replayable (ρ : Rendering) (s : Sender) (r : Dict) : Prop :=
  s.device.textCell ρ ≠ .null → r.quarantineReason ≠ some none →
    r.seqCell ρ ≠ .null ∧ r.schemaVersion.cell ρ ≠ .null

/-- A statement has a complete key, if it is admitted, exactly for such a record. -/
theorem keyed_iff {s : Sender} {r : Dict} {i : Insert} (h : recordStatement ρ s r = some i) :
    (i.admits = true → i.keyed = true) ↔ r.Replayable ρ s := by
  unfold recordStatement at h
  cases hreason : r.quarantineReason with
  | none => simp [hreason] at h
  | some verdict =>
    rw [hreason, Option.bind_eq_bind, Option.bind_some] at h
    cases verdict with
    | some reason =>
      obtain ⟨-, rfl⟩ := quarantineInsert_eq_some.mp h
      simp only [Insert.admits, QuarantineRow.admits_iff, Insert.keyed, QuarantineRow.clash,
        Bool.and_eq_true, Cell.same_iff, Dict.Replayable, hreason]
      constructor
      · intro hkey hdevice _
        have hk := hkey ⟨hdevice, by simp⟩
        exact ⟨hk.1.2.1, hk.2.1⟩
      · rintro hkey ⟨hdevice, -⟩
        obtain ⟨hseq, hsv⟩ := hkey hdevice (by simp)
        exact ⟨⟨⟨hdevice, trivial⟩, hseq, trivial⟩, hsv, trivial⟩
    | none =>
      obtain ⟨-, -, rfl⟩ := recordInsert_eq_some.mp h
      refine iff_of_true (fun hadm => ?_) fun _ hno => absurd hreason hno
      have hfilled := RecordRow.admits_iff.mp hadm
      simp only [Insert.keyed, RecordRow.clash, Bool.and_eq_true, Cell.same_iff]
      exact ⟨⟨hfilled.1, trivial⟩, hfilled.2.2.1, trivial⟩

/-- What a push does does not depend on its time, apart from the time itself. -/
theorem Dict.Processable.at {body : Dict} {n : ℤ} {rs : List Dict}
    (h : body.Processable n rs) (n' : ℤ) : body.Processable n' rs where
  records := h.records
  readable r hr :=
    let hr := h.readable r hr
    ⟨hr.hashable, hr.device, hr.bootId, hr.seq, hr.schemaVersion, hr.recordType, hr.accepted⟩
  fw := h.fw
  kver := h.kver
  device := h.device

/-- The statements of a push. -/
def statements (ρ : Rendering) (body : Dict) (rs : List Dict) (n : ℤ) : List Insert :=
  rs.filterMap (recordStatement ρ (body.sender n))

theorem push_eq_foldl {t : Times} {body : Dict} {rs : List Dict}
    (h : body.Processable t.nowMs rs) (db : Database) :
    (push ρ t (some (.obj body)) db).2 =
      (statements ρ body rs t.nowMs).foldl Database.insert db := by
  obtain ⟨told, hcommit, -⟩ := push_of_processable (ρ := ρ) h db
  obtain ⟨rs', hproc, hloop⟩ := pushCommit_eq_some_iff.mp hcommit
  obtain rfl : rs = rs' := Option.some.inj (h.records.symm.trans hproc.records)
  exact recordLoop_spec hloop

/-- **When a batch can be pushed again.**  Replays of a batch that was answered leave
both tables as they are, however many there are and whenever they come, exactly if each
of its quarantined records has a seq and a version to be keyed by. -/
theorem push_replay_iff (ρ : Rendering) (t : Times) (body : Dict) (rs : List Dict)
    (db : Database) (hrs : (body.get (py "records")).records = some rs)
    (hok : (push ρ t (some (.obj body)) db).1.status = 200) :
    (∀ ts : List Times,
      ts.foldl (fun db t => (push ρ t (some (.obj body)) db).2)
        (push ρ t (some (.obj body)) db).2 = (push ρ t (some (.obj body)) db).2) ↔
      ∀ r ∈ rs, r.Replayable ρ (body.sender t.nowMs) := by
  have hproc : body.Processable t.nowMs rs := by
    by_contra hno
    refine Response.status_eq_ok_iff.mp hok (push_of_not_processable _ ?_).2
    rintro ⟨fields, rs', hfields, hproc⟩
    cases hfields
    obtain rfl : rs = rs' := Option.some.inj (hrs.symm.trans hproc.records)
    exact hno hproc
  generalize hdb' : (push ρ t (some (.obj body)) db).2 = db'
  -- one replay, statement by statement
  have hone : ∀ t' : Times, (push ρ t' (some (.obj body)) db').2 = db' ↔
      ∀ i ∈ statements ρ body rs t.nowMs, i.admits = true → db'.Takes i := by
    intro t'
    rw [push_eq_foldl (hproc.at t'.nowMs), foldl_eq_self_iff]
    simp only [insert_eq_self_iff, statements, List.mem_filterMap]
    constructor
    · rintro h i ⟨r, hr, hi⟩ hadm
      obtain ⟨i', hi', htakes, hadm'⟩ := recordStatement_at t'.nowMs hi
      exact (htakes db').mp (h i' ⟨r, hr, hi'⟩ (hadm'.trans hadm))
    · rintro h i ⟨r, hr, hi⟩ hadm
      obtain ⟨i', hi', htakes, hadm'⟩ := recordStatement_at t.nowMs hi
      exact (htakes db').mp (h i' ⟨r, hr, hi'⟩ (hadm'.trans hadm))
  have hkeyed : (∀ i ∈ statements ρ body rs t.nowMs, i.admits = true → db'.Takes i) ↔
      ∀ r ∈ rs, r.Replayable ρ (body.sender t.nowMs) := by
    constructor
    · intro h r hr
      obtain ⟨i, hi⟩ := Option.isSome_iff_exists.mp
        (recordStatement_isSome_iff (ρ := ρ).mpr (hproc.readable r hr))
      exact (keyed_iff hi).mp fun hadm =>
        (h i (List.mem_filterMap.mpr ⟨r, hr, hi⟩) hadm).keyed
    · intro h i hi hadm
      obtain ⟨r, hr, hri⟩ := List.mem_filterMap.mp hi
      rw [← hdb', push_eq_foldl hproc]
      exact takes_foldl hi hadm ((keyed_iff hri).mpr (h r hr) hadm)
  constructor
  · intro h
    exact hkeyed.mp ((hone t).mp (h [t]))
  · intro h ts
    induction ts with
    | nil => rfl
    | cons t' ts ih =>
      rw [List.foldl_cons, (hone t').mpr (hkeyed.mpr h)]
      exact ih

/-- A batch of one record in order, pushed three times. -/
theorem telemetry_replayed :
    let push1 := fun t db => (push plain t (some (.obj (pushOf [telemetry 1]))) db).2
    push1 ⟨2, 2⟩ (push1 ⟨1, 1⟩ (push1 ⟨0, 0⟩ .empty)) = push1 ⟨0, 0⟩ .empty := by
  refine (push_replay_iff plain ⟨0, 0⟩ (pushOf [telemetry 1]) [telemetry 1] .empty rfl
    (by decide +kernel)).mpr ?_ [⟨1, 1⟩, ⟨2, 2⟩]
  intro r hr _ hno
  rw [List.mem_singleton.mp hr] at hno
  exact absurd rfl hno

/-- A record that is its seq alone is quarantined without a version, and the replay adds a
second row for it. -/
theorem no_version_grows :
    ¬ ∀ (ρ : Rendering) (t t' : Times) (body : Dict) (rs : List Dict) (db : Database),
      (body.get (py "records")).records = some rs →
      (∀ r ∈ rs, (r.get (py "seq")).isNone = false) →
      (push ρ t (some (.obj body)) db).1.status = 200 →
        (push ρ t' (some (.obj body)) (push ρ t (some (.obj body)) db).2).2 =
          (push ρ t (some (.obj body)) db).2 := by
  intro h
  have hseq : ∀ r ∈ [[(py "seq", Json.int 1)]], (Dict.get r (py "seq")).isNone = false := by
    intro r hr
    rw [List.mem_singleton.mp hr]
    rfl
  have hsame := h plain ⟨0, 0⟩ ⟨1, 1⟩ (pushOf [[(py "seq", .int 1)]]) _ .empty rfl hseq
    (by decide +kernel)
  exact absurd (congrArg Database.size hsame) (by decide +kernel)

end Server
end CovioFirmware
