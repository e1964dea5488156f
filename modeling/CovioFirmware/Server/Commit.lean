import CovioFirmware.Server.Push
import Mathlib.Order.Bounds.Defs

/-!
# What a push commits and acknowledges

`recordLoop_eq` takes the loop over the records apart: it fails if one of the
statements cannot be built, and otherwise runs them in order.  What is present
afterwards is what was present before, and the key of every record whose statement
is admitted (`present_pushCommit`); which records these are can be read off the record
(`Dict.Stored`).

`contiguous_eq_some` and `contiguous_eq_none_iff` do the same for the ack scan over a
sorted list: it stops at the end of the seqs without a gap, and fails only where a text
stands right behind them.
-/

namespace CovioFirmware
namespace Server

variable {ρ : Rendering}

/-! ## One record -/

/-- The value can be bound to a parameter. -/
def Json.Bindable (v : Json) : Prop := v.bind.isSome = true

/-- The code can process the record: it can hash what it looks up in a set, and bind
what it stores. -/
structure Dict.Readable (s : Sender) (r : Dict) : Prop where
  hashable : r.quarantineReason ≠ none
  device : s.device.Bindable
  bootId : (r.get (py "boot_id")).Bindable
  seq : (r.get (py "seq")).Bindable
  schemaVersion : r.schemaVersion.Bindable
  recordType : r.recordType.Bindable
  accepted : r.quarantineReason = some none →
    (r.get (py "ts")).Bindable ∧ (r.get (py "totalizer")).Bindable ∧
      (r.getD (py "quality") (.int 0)).Bindable ∧ (r.getD (py "rssi") (.int 0)).Bindable ∧
        s.kver.Bindable

/-- The device and seq of a record as the tables have them. -/
def Dict.seqCell (ρ : Rendering) (r : Dict) : Cell := (r.get (py "seq")).cell ρ

/-- The record leaves no NOT NULL column of its row empty.  In `quarantined_records` none of
them is filled from the record. -/
def Dict.Filled (ρ : Rendering) (r : Dict) : Prop :=
  r.quarantineReason = some none →
    (r.get (py "boot_id")).cell ρ ≠ .null ∧ r.seqCell ρ ≠ .null ∧
      (r.get (py "ts")).cell ρ ≠ .null ∧ (r.get (py "totalizer")).cell ρ ≠ .null ∧
        (r.getD (py "quality") (.int 0)).cell ρ ≠ .null

/-- No NOT NULL column of the record's row is NULL. -/
def Dict.Stored (ρ : Rendering) (s : Sender) (r : Dict) : Prop :=
  s.device.textCell ρ ≠ .null ∧ r.Filled ρ

/-- An accepted record has the accepted version and type. -/
theorem isOne_of_accepted {r : Dict} (h : r.quarantineReason = some none) :
    r.schemaVersion.isOne = some true ∧ r.recordType.isOne = some true := by
  unfold Dict.quarantineReason at h
  cases hsv : r.schemaVersion.isOne with
  | none => simp [hsv] at h
  | some accepted =>
    cases accepted with
    | false => simp [hsv] at h
    | true =>
      cases hrt : r.recordType.isOne with
      | none => simp [hsv, hrt] at h
      | some known =>
        cases known with
        | false => simp [hsv, hrt] at h
        | true => exact ⟨rfl, rfl⟩

/-- The statement of a quarantined record. -/
theorem quarantineInsert_eq_some {s : Sender} {r : Dict} {reason : Reason} {i : Insert} :
    quarantineInsert ρ s r reason = some i ↔
      (s.device.Bindable ∧ (r.get (py "boot_id")).Bindable ∧ (r.get (py "seq")).Bindable ∧
        r.schemaVersion.Bindable ∧ r.recordType.Bindable) ∧
      i = .quarantine
        { deviceId := s.device.textCell ρ
          bootId := (r.get (py "boot_id")).cell ρ
          seq := r.seqCell ρ
          schemaVersion := r.schemaVersion.cell ρ
          recordType := r.recordType.cell ρ
          reason := reason.text ρ
          rawJson := ρ.dumps r
          recvMs := .num s.nowMs } := by
  unfold quarantineInsert Json.Bindable Dict.seqCell Json.cell Json.textCell
  cases s.device.bind <;> cases (r.get (py "boot_id")).bind <;>
    cases (r.get (py "seq")).bind <;> cases r.schemaVersion.bind <;>
    cases r.recordType.bind <;> simp [eq_comm]

/-- The statement of an accepted record. -/
theorem recordInsert_eq_some {s : Sender} {r : Dict} {i : Insert} :
    recordInsert ρ s r = some i ↔
      (s.device.Bindable ∧ (r.get (py "boot_id")).Bindable ∧ (r.get (py "seq")).Bindable ∧
        r.schemaVersion.Bindable ∧ r.recordType.Bindable) ∧
      ((r.get (py "ts")).Bindable ∧ (r.get (py "totalizer")).Bindable ∧
        (r.getD (py "quality") (.int 0)).Bindable ∧ (r.getD (py "rssi") (.int 0)).Bindable ∧
          s.kver.Bindable) ∧
      i = .record
        { deviceId := s.device.textCell ρ
          bootId := (r.get (py "boot_id")).cell ρ
          seq := r.seqCell ρ
          ts := (r.get (py "ts")).cell ρ
          totalizer := (r.get (py "totalizer")).cell ρ
          quality := (r.getD (py "quality") (.int 0)).cell ρ
          rssi := (r.getD (py "rssi") (.int 0)).cell ρ
          recvMs := .num s.nowMs
          kfactorVersion := s.kver.cell ρ
          schemaVersion := r.schemaVersion.cell ρ
          recordType := r.recordType.cell ρ } := by
  constructor
  · intro h
    simp only [recordInsert, Option.bind_eq_bind, Option.bind_eq_some_iff, Option.pure_def,
      Option.some.injEq] at h
    obtain ⟨dev, hdev, boot, hboot, seq, hseq, ts, hts, tot, htot, q, hq, rssi, hrssi, k, hk, sv,
      hsv, rt, hrt, rfl⟩ := h
    simp only [Dict.seqCell, Json.Bindable, Json.cell_eq hboot, Json.cell_eq hseq,
      Json.cell_eq hts, Json.cell_eq htot, Json.cell_eq hq, Json.cell_eq hrssi, Json.cell_eq hk,
      Json.cell_eq hsv, Json.cell_eq hrt, Json.textCell_eq hdev]
    simp [hdev, hboot, hseq, hts, htot, hq, hrssi, hk, hsv, hrt]
  · rintro ⟨⟨hdev, hboot, hseq, hsv, hrt⟩, ⟨hts, htot, hq, hrssi, hk⟩, rfl⟩
    obtain ⟨dev, hdev⟩ := Option.isSome_iff_exists.mp hdev
    obtain ⟨boot, hboot⟩ := Option.isSome_iff_exists.mp hboot
    obtain ⟨seq, hseq⟩ := Option.isSome_iff_exists.mp hseq
    obtain ⟨sv, hsv⟩ := Option.isSome_iff_exists.mp hsv
    obtain ⟨rt, hrt⟩ := Option.isSome_iff_exists.mp hrt
    obtain ⟨ts, hts⟩ := Option.isSome_iff_exists.mp hts
    obtain ⟨tot, htot⟩ := Option.isSome_iff_exists.mp htot
    obtain ⟨q, hq⟩ := Option.isSome_iff_exists.mp hq
    obtain ⟨rssi, hrssi⟩ := Option.isSome_iff_exists.mp hrssi
    obtain ⟨k, hk⟩ := Option.isSome_iff_exists.mp hk
    simp only [recordInsert, Dict.seqCell, Json.cell_eq hboot, Json.cell_eq hseq,
      Json.cell_eq hts, Json.cell_eq htot, Json.cell_eq hq, Json.cell_eq hrssi, Json.cell_eq hk,
      Json.cell_eq hsv, Json.cell_eq hrt, Json.textCell_eq hdev]
    simp [hdev, hboot, hseq, hts, htot, hq, hrssi, hk, hsv, hrt]

/-- **One record.**  Its statement can be built exactly if the code can process the
record; it is for the record's device and seq, and admitted exactly if the record can be
stored. -/
theorem recordStatement_isSome_iff {s : Sender} {r : Dict} :
    (recordStatement ρ s r).isSome = true ↔ r.Readable s := by
  unfold recordStatement
  cases hreason : r.quarantineReason with
  | none =>
    simp only [Option.bind_eq_bind, Option.bind_none, Option.isSome_none, Bool.false_eq_true,
      false_iff]
    exact fun h => h.hashable hreason
  | some verdict =>
    rw [Option.bind_eq_bind, Option.bind_some, Option.isSome_iff_exists]
    cases verdict with
    | some reason =>
      simp only [quarantineInsert_eq_some, exists_and_left, exists_eq, and_true]
      refine ⟨fun ⟨h1, h2, h3, h4, h5⟩ => ⟨?_, h1, h2, h3, h4, h5, ?_⟩,
        fun h => ⟨h.device, h.bootId, h.seq, h.schemaVersion, h.recordType⟩⟩
      · simp [hreason]
      · simp [hreason]
    | none =>
      simp only [recordInsert_eq_some, exists_and_left, exists_eq, and_true]
      refine ⟨fun ⟨⟨h1, h2, h3, h4, h5⟩, h6⟩ => ⟨?_, h1, h2, h3, h4, h5, fun _ => h6⟩,
        fun h => ⟨⟨h.device, h.bootId, h.seq, h.schemaVersion, h.recordType⟩,
          h.accepted hreason⟩⟩
      simp [hreason]

theorem recordStatement_spec {s : Sender} {r : Dict} {i : Insert}
    (h : recordStatement ρ s r = some i) :
    i.deviceId = s.device.textCell ρ ∧ i.seq = r.seqCell ρ ∧
      (i.admits = true ↔ r.Stored ρ s) := by
  unfold recordStatement at h
  cases hreason : r.quarantineReason with
  | none => simp [hreason] at h
  | some verdict =>
    rw [hreason, Option.bind_eq_bind, Option.bind_some] at h
    cases verdict with
    | some reason =>
      obtain ⟨-, rfl⟩ := quarantineInsert_eq_some.mp h
      refine ⟨rfl, rfl, ?_⟩
      simp [Insert.admits, QuarantineRow.admits_iff, Dict.Stored, Dict.Filled, hreason]
    | none =>
      obtain ⟨-, -, rfl⟩ := recordInsert_eq_some.mp h
      obtain ⟨hsv, hrt⟩ := isOne_of_accepted hreason
      refine ⟨rfl, rfl, ?_⟩
      simp [Insert.admits, RecordRow.admits_iff, Dict.Stored, Dict.Filled, hreason,
        Json.cell_of_isOne hsv, Json.cell_of_isOne hrt]

/-! ## The loop -/

/-- What a sequence of statements leaves. -/
theorem present_foldl {is : List Insert} {db : Database} {device seq : Cell} :
    (is.foldl Database.insert db).Present device seq ↔ db.Present device seq ∨
      ∃ i ∈ is, i.admits = true ∧ device.same i.deviceId ∧ seq.same i.seq := by
  induction is generalizing db with
  | nil => simp
  | cons i is ih =>
    rw [List.foldl_cons, ih, present_insert, or_assoc]
    simp only [List.mem_cons, exists_eq_or_imp]

/-- **The loop** runs the statements of the records in order. -/
theorem recordLoop_spec {s : Sender} {rs : List Dict} {db db' : Database}
    {told told' : List Disposition} (h : recordLoop ρ s rs (db, told) = some (db', told')) :
    db' = (rs.filterMap (recordStatement ρ s)).foldl Database.insert db := by
  induction rs generalizing db told with
  | nil => exact (Prod.mk.inj (Option.some.inj h)).1.symm
  | cons r rs ih =>
    simp only [recordLoop, Option.bind_eq_bind, Option.bind_eq_some_iff] at h
    obtain ⟨verdict, -, i, hi, hrest⟩ := h
    rw [List.filterMap_cons_some hi, List.foldl_cons]
    exact ih hrest

theorem recordLoop_isSome_iff {s : Sender} {rs : List Dict} {db : Database}
    {told : List Disposition} :
    (recordLoop ρ s rs (db, told)).isSome = true ↔ ∀ r ∈ rs, r.Readable s := by
  induction rs generalizing db told with
  | nil => simp [recordLoop]
  | cons r rs ih =>
    rw [List.forall_mem_cons, ← recordStatement_isSome_iff (ρ := ρ), recordLoop]
    cases hreason : r.quarantineReason with
    | none => simp [recordStatement, hreason]
    | some verdict =>
      cases hi : recordStatement ρ s r with
      | none => simp
      | some i =>
        rw [Option.bind_eq_bind, Option.bind_some, Option.bind_eq_bind, Option.bind_some, ih]
        simp

/-- The push can be processed: the code can run through its records and process each,
and bind what it writes to the row of `devices`. -/
structure Dict.Processable (body : Dict) (nowMs : ℤ) (rs : List Dict) : Prop where
  records : (body.get (py "records")).records = some rs
  readable : ∀ r ∈ rs, r.Readable (body.sender nowMs)
  fw : (body.get (py "fw")).Bindable
  kver : (body.sender nowMs).kver.Bindable
  device : (body.sender nowMs).device.Bindable

theorem pushCommit_eq_some_iff {nowMs : ℤ} {body : Dict} {db : Database}
    {out : Database × List Disposition} :
    pushCommit ρ nowMs body db = some out ↔
      ∃ rs, body.Processable nowMs rs ∧
        recordLoop ρ (body.sender nowMs) rs (db, []) = some out := by
  simp only [pushCommit, Option.bind_eq_bind, Option.bind_eq_some_iff, Option.pure_def,
    Option.some.injEq]
  constructor
  · rintro ⟨rs, hrs, out', hout, fw, hfw, kver, hkver, dev, hdev, rfl⟩
    refine ⟨rs, ⟨hrs, ?_, ?_, ?_, ?_⟩, hout⟩
    · exact recordLoop_isSome_iff.mp (Option.isSome_iff_exists.mpr ⟨_, hout⟩)
    · exact Option.isSome_iff_exists.mpr ⟨fw, hfw⟩
    · exact Option.isSome_iff_exists.mpr ⟨kver, hkver⟩
    · exact Option.isSome_iff_exists.mpr ⟨dev, hdev⟩
  · rintro ⟨rs, h, hout⟩
    obtain ⟨fw, hfw⟩ := Option.isSome_iff_exists.mp h.fw
    obtain ⟨kver, hkver⟩ := Option.isSome_iff_exists.mp h.kver
    obtain ⟨dev, hdev⟩ := Option.isSome_iff_exists.mp h.device
    exact ⟨rs, h.records, out, hout, fw, hfw, kver, hkver, dev, hdev, rfl⟩

/-- A push that can be processed is committed. -/
theorem Dict.Processable.commits {nowMs : ℤ} {body : Dict} {rs : List Dict}
    (h : body.Processable nowMs rs) (db : Database) :
    ∃ out, pushCommit ρ nowMs body db = some out := by
  have hloop : (recordLoop ρ (body.sender nowMs) rs (db, [])).isSome = true :=
    recordLoop_isSome_iff.mpr h.readable
  obtain ⟨out, hout⟩ := Option.isSome_iff_exists.mp hloop
  exact ⟨out, pushCommit_eq_some_iff.mpr ⟨rs, h, hout⟩⟩

/-- **What a push commits.**  The keys present before, and for the device of the push the
seqs of the records that can be stored. -/
theorem present_pushCommit {nowMs : ℤ} {body : Dict} {rs : List Dict} {db db' : Database}
    {told : List Disposition} (hrs : (body.get (py "records")).records = some rs)
    (h : pushCommit ρ nowMs body db = some (db', told)) {device seq : Cell} :
    db'.Present device seq ↔ db.Present device seq ∨
      device = body.device ρ ∧ seq ≠ .null ∧
        ∃ r ∈ rs, r.Stored ρ (body.sender nowMs) ∧ r.seqCell ρ = seq := by
  obtain ⟨rs', hproc, hloop⟩ := pushCommit_eq_some_iff.mp h
  obtain rfl : rs = rs' := Option.some.inj (hrs.symm.trans hproc.records)
  rw [recordLoop_spec hloop, present_foldl]
  refine or_congr_right ?_
  simp only [Cell.same_iff]
  constructor
  · rintro ⟨i, hi, hadm, ⟨hdev0, hdev⟩, hseq0, hseq⟩
    obtain ⟨r, hr, hri⟩ := List.mem_filterMap.mp hi
    obtain ⟨hidev, hiseq, hiadm⟩ := recordStatement_spec hri
    exact ⟨hdev.trans hidev, hseq0, r, hr, hiadm.mp hadm, (hseq.trans hiseq).symm⟩
  · rintro ⟨rfl, hseq0, r, hr, hstored, rfl⟩
    obtain ⟨i, hri⟩ := Option.isSome_iff_exists.mp
      (recordStatement_isSome_iff (ρ := ρ).mpr (hproc.readable r hr))
    obtain ⟨hidev, hiseq, hiadm⟩ := recordStatement_spec hri
    exact ⟨i, List.mem_filterMap.mpr ⟨r, hr, hri⟩, hiadm.mpr hstored, ⟨hstored.1, hidev.symm⟩, hseq0, hiseq.symm⟩

/-! ## The ack scan -/

/-- The seqs the scan sees are the ones present. -/
theorem mem_resolved {db : Database} {device seq : Cell} :
    seq ∈ db.resolved device ↔ db.Present device seq := by
  simp only [Database.resolved, List.mem_insertionSort, List.mem_dedup, Database.seqs,
    List.mem_append, List.mem_filter, List.mem_map, Database.Present, Cell.same_iff, ne_eq,
    decide_not, Bool.not_eq_true', decide_eq_false_iff_not]
  refine or_congr ?_ ?_
  · constructor
    · rintro ⟨r, ⟨hr, hdev⟩, rfl⟩
      exact ⟨r, hr, hdev, (RecordRow.admits_iff.mp (db.records.admitted r hr)).2.2.1, rfl⟩
    · rintro ⟨r, hr, hdev, -, hseq⟩
      exact ⟨r, ⟨hr, hdev⟩, hseq.symm⟩
  · constructor
    · rintro ⟨⟨r, ⟨hr, hdev⟩, rfl⟩, hseq⟩
      exact ⟨r, hr, hdev, hseq, rfl⟩
    · rintro ⟨r, hr, hdev, hseq, rfl⟩
      exact ⟨⟨r, ⟨hr, hdev⟩, rfl⟩, hseq⟩

theorem pairwise_resolved (db : Database) (device : Cell) :
    (db.resolved device).Pairwise fun a b => a.le b = true := by
  have : Std.Total fun a b : Cell => a.le b = true :=
    ⟨fun a b => Bool.or_eq_true_iff.mp (Cell.le_total a b)⟩
  have : IsTrans Cell fun a b => a.le b = true := ⟨fun _ _ _ => Cell.le_trans⟩
  exact List.pairwise_insertionSort _ _

/-- Where the scan stops: the next number is not in the list. -/
theorem contiguous_eq_some {rows : List Cell} {contig n : ℤ}
    (hsorted : rows.Pairwise fun a b => a.le b = true) (h : contiguous contig rows = some n) :
    contig ≤ n ∧ (∀ i : ℤ, contig < i → i ≤ n → Cell.num i ∈ rows) ∧
      Cell.num ((n : ℚ) + 1) ∉ rows := by
  induction rows generalizing contig with
  | nil =>
    obtain rfl := Option.some.inj h
    exact ⟨le_rfl, fun i hi hi' => by omega, List.not_mem_nil⟩
  | cons c rows ih =>
    rw [List.pairwise_cons] at hsorted
    cases c with
    | null => cases h
    | text s => cases h
    | negInf =>
      obtain ⟨hle, hrun, hnext⟩ := ih hsorted.2 h
      exact ⟨hle, fun i hi hi' => List.mem_cons_of_mem _ (hrun i hi hi'), by simpa using hnext⟩
    | posInf =>
      obtain rfl := Option.some.inj h
      refine ⟨le_rfl, fun i hi hi' => by omega, fun hmem => ?_⟩
      rcases List.mem_cons.mp hmem with hc | hmem
      · cases hc
      · exact absurd (hsorted.1 _ hmem) (by simp [Cell.le])
    | num q =>
      rw [contiguous] at h
      split at h
      · next hq =>
        -- the next seq: the scan goes on behind it
        obtain ⟨hle, hrun, hnext⟩ := ih hsorted.2 h
        refine ⟨by omega, fun i hi hi' => ?_, ?_⟩
        · rcases eq_or_lt_of_le (Int.add_one_le_iff.mpr hi) with rfl | hlt
          · rw [hq]
            exact_mod_cast List.mem_cons_self
          · exact List.mem_cons_of_mem _ (hrun i hlt hi')
        · rw [List.mem_cons, not_or]
          refine ⟨fun hc => ?_, hnext⟩
          have hn : (n : ℚ) + 1 = contig + 1 := (Cell.num.inj hc).trans hq
          have : n = contig := by exact_mod_cast (add_right_cancel hn)
          omega
      · next hne =>
        split at h
        · next hgap =>
          -- a gap: everything that follows is larger still
          obtain rfl := Option.some.inj h
          refine ⟨le_rfl, fun i hi hi' => by omega, fun hmem => ?_⟩
          rcases List.mem_cons.mp hmem with hc | hmem
          · exact hne (Cell.num.inj hc).symm
          · have hle : q ≤ (contig : ℚ) + 1 := by simpa [Cell.le] using hsorted.1 _ hmem
            exact absurd hle (not_le.mpr hgap)
        · next hgap =>
          -- at or below the end of the run
          obtain ⟨hle, hrun, hnext⟩ := ih hsorted.2 h
          refine ⟨hle, fun i hi hi' => List.mem_cons_of_mem _ (hrun i hi hi'), ?_⟩
          rw [List.mem_cons, not_or]
          refine ⟨fun hc => ?_, hnext⟩
          have hq : q < (contig : ℚ) + 1 := lt_of_le_of_ne (not_lt.mp hgap) hne
          have hn : (n : ℚ) + 1 = q := Cell.num.inj hc
          have hrun' : (contig : ℚ) ≤ n := by exact_mod_cast hle
          exact absurd (hn ▸ hq) (not_lt.mpr (add_le_add hrun' le_rfl))

/-- The scan fails exactly where a text stands right behind the run. -/
theorem contiguous_eq_none_iff {rows : List Cell} {contig : ℤ}
    (hsorted : rows.Pairwise fun a b => a.le b = true) (hnull : Cell.null ∉ rows) :
    contiguous contig rows = none ↔ ∃ n : ℤ, contig ≤ n ∧
      (∀ i : ℤ, contig < i → i ≤ n → Cell.num i ∈ rows) ∧
      (∀ q, Cell.num q ∈ rows → q < (n : ℚ) + 1) ∧ Cell.posInf ∉ rows ∧
        ∃ s, Cell.text s ∈ rows := by
  induction rows generalizing contig with
  | nil => simp [contiguous]
  | cons c rows ih =>
    rw [List.mem_cons, not_or] at hnull
    rw [List.pairwise_cons] at hsorted
    cases c with
    | null => exact absurd rfl hnull.1
    | negInf => simp [contiguous, ih hsorted.2 hnull.2]
    | posInf => simp [contiguous]
    | text s =>
      -- behind a text there are only texts
      have hbehind : ∀ c ∈ rows, ∃ s', c = Cell.text s' := by
        intro c hc
        have hle := hsorted.1 c hc
        cases c with
        | text s' => exact ⟨s', rfl⟩
        | _ => exact absurd hle (by simp [Cell.le])
      refine iff_of_true rfl ⟨contig, le_rfl, fun i hi hi' => by omega, fun q hq => ?_, fun hp => ?_,
        s, List.mem_cons_self⟩
      · rcases List.mem_cons.mp hq with hq | hq
        · cases hq
        · obtain ⟨s', hs'⟩ := hbehind _ hq
          cases hs'
      · rcases List.mem_cons.mp hp with hp | hp
        · cases hp
        · obtain ⟨s', hs'⟩ := hbehind _ hp
          cases hs'
    | num q =>
      rw [contiguous]
      split
      · next hq =>
        rw [ih hsorted.2 hnull.2]
        constructor
        · rintro ⟨n, hle, hrun, hmax, hpos, s, hs⟩
          refine ⟨n, by omega, fun i hi hi' => ?_, fun p hp => ?_, by simpa using hpos, s,
            List.mem_cons_of_mem _ hs⟩
          · rcases eq_or_lt_of_le (Int.add_one_le_iff.mpr hi) with rfl | hlt
            · rw [hq]
              exact_mod_cast List.mem_cons_self
            · exact List.mem_cons_of_mem _ (hrun i hlt hi')
          · rcases List.mem_cons.mp hp with hp | hp
            · rw [Cell.num.inj hp, hq]
              exact_mod_cast Int.lt_add_one_iff.mpr hle
            · exact hmax p hp
        · rintro ⟨n, hle, hrun, hmax, hpos, s, hs⟩
          have hlt : q < (n : ℚ) + 1 := hmax q List.mem_cons_self
          have hn : contig + 1 < n + 1 := by
            rw [hq] at hlt
            exact_mod_cast hlt
          refine ⟨n, by omega, fun i hi hi' => ?_, fun p hp => hmax p (List.mem_cons_of_mem _ hp),
            fun hp => hpos (List.mem_cons_of_mem _ hp), s, by simpa using hs⟩
          rcases List.mem_cons.mp (hrun i (by omega) hi') with hc | hmem
          · have : (i : ℚ) = contig + 1 := (Cell.num.inj hc).trans hq
            have : i = contig + 1 := by exact_mod_cast this
            omega
          · exact hmem
      · next hne =>
        split
        · next hgap =>
          -- a gap before the first text ends the scan
          refine iff_of_false (by simp) ?_
          rintro ⟨n, hle, hrun, hmax, -⟩
          have hlt : contig + 1 < n + 1 := by
            exact_mod_cast hgap.trans (hmax q List.mem_cons_self)
          rcases List.mem_cons.mp (hrun (contig + 1) (by omega) (by omega)) with hc | hmem
          · exact hne (by simpa using (Cell.num.inj hc).symm)
          · have hq : q ≤ (contig : ℚ) + 1 := by simpa [Cell.le] using hsorted.1 _ hmem
            exact absurd hq (not_le.mpr hgap)
        · next hgap =>
          have hq : q < (contig : ℚ) + 1 := lt_of_le_of_ne (not_lt.mp hgap) hne
          rw [ih hsorted.2 hnull.2]
          refine exists_congr fun n => and_congr_right fun hle => ?_
          have hqn : q < (n : ℚ) + 1 := hq.trans_le (add_le_add (by exact_mod_cast hle) le_rfl)
          have hrun : (∀ i : ℤ, contig < i → i ≤ n → Cell.num (i : ℚ) ∈ rows) ↔
              ∀ i : ℤ, contig < i → i ≤ n → Cell.num (i : ℚ) ∈ Cell.num q :: rows := by
            refine forall_congr' fun i => forall_congr' fun hi => forall_congr' fun _ => ?_
            rw [List.mem_cons, or_iff_right]
            intro hc
            have hi' : (contig : ℚ) + 1 ≤ i := by exact_mod_cast hi
            exact absurd hq (not_lt.mpr (Cell.num.inj hc ▸ hi'))
          rw [hrun]
          simp [hqn]

/-- The seqs of a device are resolved from 1 on up to this number. -/
def Database.ResolvedTo (db : Database) (device : Cell) (n : ℤ) : Prop :=
  0 ≤ n ∧ ∀ i : ℤ, 1 ≤ i → i ≤ n → db.Present device (.num i)

/-- **The acknowledged seq** is the greatest one up to which the device's seqs are
resolved. -/
theorem isGreatest_ackSeq {db : Database} {device : Cell} {n : ℤ}
    (h : ackSeq db device = some n) : IsGreatest {m | db.ResolvedTo device m} n := by
  obtain ⟨hle, hrun, hnext⟩ := contiguous_eq_some (pairwise_resolved db device) h
  simp only [mem_resolved] at hrun hnext
  refine ⟨⟨hle, fun i hi => hrun i (by omega)⟩, fun m hm => ?_⟩
  by_contra hlt
  have hpresent := hm.2 (n + 1) (by omega) (by omega)
  rw [Int.cast_add, Int.cast_one] at hpresent
  exact hnext hpresent

/-- The ack scan fails exactly where the device has a text for a seq, and its numbers
leave no gap. -/
theorem ackSeq_eq_none_iff {db : Database} {device : Cell} :
    ackSeq db device = none ↔ ∃ n, db.ResolvedTo device n ∧
      (∀ q, db.Present device (.num q) → q < (n : ℚ) + 1) ∧ ¬ db.Present device .posInf ∧
        ∃ s, db.Present device (.text s) := by
  have hnull : Cell.null ∉ db.resolved device := by
    rw [mem_resolved]
    rintro (⟨r, -, -, h⟩ | ⟨r, -, -, h⟩)
    · exact (Cell.same_iff.mp h).1 rfl
    · exact (Cell.same_iff.mp h).1 rfl
  rw [ackSeq, contiguous_eq_none_iff (pairwise_resolved db device) hnull]
  simp only [mem_resolved, Database.ResolvedTo, Int.lt_iff_add_one_le, zero_add, and_assoc]

/-! ## The answer -/

/-- A body that is an object with `records` reaches the loop. -/
theorem push_obj {t : Times} {body : Dict} {v : Json} {db : Database}
    (h : body.get? (py "records") = some v) :
    push ρ t (some (.obj body)) db = pushRecords ρ t body db := by
  have hmem : body.any (fun f => f.1 == py "records") = true := by
    by_contra hno
    have hnone : List.lookup (py "records") body = none := by
      rw [List.lookup_eq_none_iff]
      intro f hf
      by_contra hc
      refine hno (List.any_eq_true.mpr ⟨f, hf, ?_⟩)
      rw [bne_iff_ne, not_not] at hc
      exact beq_iff_eq.mpr hc.symm
    cases hnone.symm.trans h
  have hne : body ≠ [] := by
    rintro rfl
    cases h
  simp only [push, Json.truthy, Json.mentionsRecords, hmem]
  rw [if_pos (by simpa using hne)]

/-- A push that can be processed is committed, whatever the tables hold. -/
theorem push_of_processable {t : Times} {body : Dict} {rs : List Dict}
    (h : body.Processable t.nowMs rs) (db : Database) :
    ∃ told, pushCommit ρ t.nowMs body db = some ((push ρ t (some (.obj body)) db).2, told) ∧
      (push ρ t (some (.obj body)) db).1.ack? =
        ackSeq (push ρ t (some (.obj body)) db).2 (body.device ρ) := by
  obtain ⟨v, hv⟩ : ∃ v, body.get? (py "records") = some v := by
    cases hv : body.get? (py "records") with
    | none =>
      have hrecords := h.records
      rw [Dict.get, Dict.getD, hv] at hrecords
      cases hrecords
    | some v => exact ⟨v, rfl⟩
  obtain ⟨⟨db', told⟩, hout⟩ := h.commits (ρ := ρ) db
  refine ⟨told, ?_⟩
  rw [push_obj hv, pushRecords, hout]
  simp only
  cases hack : ackSeq db' (body.device ρ) with
  | none => exact ⟨rfl, hack.symm⟩
  | some n => exact ⟨rfl, hack.symm⟩

/-- A push that cannot be processed changes nothing and acknowledges nothing. -/
theorem push_of_not_processable {t : Times} {body : Option Json} (db : Database)
    (h : ¬ ∃ (fields : Dict) (rs : List Dict), body = some (.obj fields) ∧
      fields.Processable t.nowMs rs) :
    (push ρ t body db).2 = db ∧ (push ρ t body db).1.ack? = none := by
  unfold push
  cases body with
  | none => exact ⟨rfl, rfl⟩
  | some v =>
    simp only
    split
    · cases hm : v.mentionsRecords with
      | none => exact ⟨rfl, rfl⟩
      | some b =>
        cases b with
        | false => exact ⟨rfl, rfl⟩
        | true =>
          cases v with
          | obj fields =>
            have hnone : pushCommit ρ t.nowMs fields db = none := by
              by_contra hsome
              obtain ⟨out, hout⟩ := Option.ne_none_iff_exists'.mp hsome
              obtain ⟨rs, hproc, -⟩ := pushCommit_eq_some_iff.mp hout
              exact h ⟨fields, rs, rfl, hproc⟩
            simp only [pushRecords, hnone]
            exact ⟨trivial, rfl⟩
          | _ => exact ⟨rfl, rfl⟩
    · exact ⟨rfl, rfl⟩

end Server
end CovioFirmware
