import CovioFirmware.Server.Commit
import Mathlib.Order.Bounds.Basic

/-!
# What the server acknowledges

A device prunes its queue by the `ack_seq` of the answers, so that number is a promise
over all pushes so far.  `server_ack_law` states it for every history of requests ---
any devices, any bodies, any times, repetitions and failures among them --- in which the
records of the device in question carry integers for their seqs:

* each answer acknowledges the greatest `n` for which the seqs `1 … n` are all in one of
  the two tables, and a push of the device that is not answered has stored nothing;
* the acknowledged numbers never decrease;
* they are the same without the requests of other devices;
* the last of them depends only on the set of records in the answered pushes.

What carries the last three is that the ack scan reads of a database only which seqs of
the device are present (`ackSeq_congr`), and that these are the seqs of the records
that were answered and leave no NOT NULL column empty (`present_serve`).
-/

namespace CovioFirmware
namespace Server

/-- A request, with the clock readings of its push. -/
structure Request where
  times : Times
  body : Option Json

namespace Request

/-- The request is a push of this device. -/
def sentBy (ρ : Rendering) (device : Cell) (q : Request) : Bool :=
  match q.body with
  | some (.obj fields) => Dict.device ρ fields == device
  | _ => false

/-- The records of a push. -/
def records (q : Request) : List Dict :=
  match q.body with
  | some (.obj fields) => ((Dict.get fields (py "records")).records).getD []
  | _ => []

/-- The push can be processed. -/
def Processable (q : Request) : Prop :=
  ∃ (fields : Dict) (rs : List Dict), q.body = some (.obj fields) ∧
    fields.Processable q.times.nowMs rs

/-- Its answer. -/
def answer (ρ : Rendering) (q : Request) (db : Database) : Response :=
  (push ρ q.times q.body db).1

/-- The database it leaves. -/
def store (ρ : Rendering) (q : Request) (db : Database) : Database :=
  (push ρ q.times q.body db).2

end Request

/-- The database after a sequence of requests. -/
def serve (ρ : Rendering) (db : Database) (h : List Request) : Database :=
  h.foldl (fun db q => q.store ρ db) db

/-- The seqs a device was acknowledged, in order. -/
def acks (ρ : Rendering) (device : Cell) : Database → List Request → List ℤ
  | _, [] => []
  | db, q :: h =>
      (if q.sentBy ρ device then (q.answer ρ db).ack?.toList else []) ++
        acks ρ device (q.store ρ db) h

/-- The records of the pushes of a device that were answered. -/
def answered (ρ : Rendering) (device : Cell) : Database → List Request → List Dict
  | _, [] => []
  | db, q :: h =>
      (if q.sentBy ρ device ∧ (q.answer ρ db).ack?.isSome then q.records else []) ++
        answered ρ device (q.store ρ db) h

/-- The records of a device's pushes have integers for their seqs. -/
def IntegerSeqs (ρ : Rendering) (device : Cell) (h : List Request) : Prop :=
  ∀ q ∈ h, q.sentBy ρ device = true → ∀ r ∈ q.records, ∃ n, r.get? (py "seq") = some (.int n)

/-- The seqs stored for a device are integers. -/
def StoredIntegers (db : Database) (device : Cell) : Prop :=
  ∀ seq, db.Present device seq → ∃ n : ℤ, seq = .num n

variable {ρ : Rendering} {device : Cell}

/-! ## One push -/

theorem Request.sentBy_iff {q : Request} :
    q.sentBy ρ device = true ↔
      ∃ fields : Dict, q.body = some (.obj fields) ∧ fields.device ρ = device := by
  unfold Request.sentBy
  split
  · next fields hbody => simp [hbody]
  · next hbody =>
    refine iff_of_false Bool.false_ne_true ?_
    rintro ⟨fields, hfields, -⟩
    exact hbody fields hfields

/-- **What a push leaves**, seen from one device: what was there, or also the seqs of its
records, if it was committed. -/
theorem present_store (ρ : Rendering) (device : Cell) (q : Request) (db : Database) :
    (¬ (q.sentBy ρ device = true ∧ q.Processable) ∧
        (∀ seq, (q.store ρ db).Present device seq ↔ db.Present device seq) ∧
        (q.sentBy ρ device = true → (q.answer ρ db).ack? = none)) ∨
      (q.sentBy ρ device = true ∧ q.Processable) ∧
        (q.answer ρ db).ack? = ackSeq (q.store ρ db) device ∧
        ∀ seq, (q.store ρ db).Present device seq ↔ db.Present device seq ∨
          seq ≠ .null ∧ device ≠ .null ∧ ∃ r ∈ q.records, r.Filled ρ ∧ r.seqCell ρ = seq := by
  by_cases hproc : q.Processable
  · obtain ⟨fields, rs, hbody, hproc'⟩ := hproc
    obtain ⟨told, hcommit, hack⟩ := push_of_processable (ρ := ρ) hproc' db
    rw [← hbody] at hcommit hack
    have hpresent : ∀ seq, (q.store ρ db).Present device seq ↔ db.Present device seq ∨
        device = fields.device ρ ∧ seq ≠ .null ∧ ∃ r ∈ rs,
          r.Stored ρ (fields.sender q.times.nowMs) ∧ r.seqCell ρ = seq :=
      fun seq => present_pushCommit hproc'.records hcommit
    by_cases hdevice : fields.device ρ = device
    · have hsent : q.sentBy ρ device = true := Request.sentBy_iff.mpr ⟨fields, hbody, hdevice⟩
      refine .inr ⟨⟨hsent, fields, rs, hbody, hproc'⟩, hdevice ▸ hack,
        fun seq => (hpresent seq).trans (or_congr_right ?_)⟩
      have hrecords : q.records = rs := by
        simp only [Request.records, hbody]
        rw [show (Dict.get fields (py "records")).records = some rs from hproc'.records]
        rfl
      rw [hrecords, and_iff_right hdevice.symm]
      refine and_congr_right fun _ => ?_
      constructor
      · rintro ⟨r, hr, hstored, hseq⟩
        exact ⟨by rw [← hdevice]; exact hstored.1, r, hr, hstored.2, hseq⟩
      · rintro ⟨hnull, r, hr, hfilled, hseq⟩
        exact ⟨r, hr, ⟨by rw [← hdevice] at hnull; exact hnull, hfilled⟩, hseq⟩
    · have hsent : q.sentBy ρ device ≠ true := by
        intro hsent
        obtain ⟨fields', hbody', hdevice'⟩ := Request.sentBy_iff.mp hsent
        cases hbody.symm.trans hbody'
        exact hdevice hdevice'
      exact .inl ⟨fun h => hsent h.1, fun seq => (hpresent seq).trans
        (or_iff_left fun h => hdevice h.1.symm), fun h => absurd h hsent⟩
  · obtain ⟨hdb, hack⟩ := push_of_not_processable (ρ := ρ) db hproc
    refine .inl ⟨fun h => hproc h.2, fun seq => ?_, fun _ => hack⟩
    rw [show q.store ρ db = db from hdb]

/-- The ack scan reads of a database which seqs of the device are present. -/
theorem ackSeq_congr {db db' : Database}
    (h : ∀ seq, db'.Present device seq ↔ db.Present device seq) :
    ackSeq db' device = ackSeq db device := by
  have hresolved : ∀ n, db'.ResolvedTo device n ↔ db.ResolvedTo device n := fun n => by
    simp only [Database.ResolvedTo, h]
  cases hack : ackSeq db device with
  | none =>
    rw [ackSeq_eq_none_iff] at hack ⊢
    simpa only [hresolved, h] using hack
  | some n =>
    cases hack' : ackSeq db' device with
    | none =>
      rw [ackSeq_eq_none_iff] at hack'
      simp only [hresolved, h] at hack'
      rw [ackSeq_eq_none_iff.mpr hack'] at hack
      cases hack
    | some n' =>
      have hgreatest : IsGreatest {m | db.ResolvedTo device m} n' := by
        simpa only [hresolved] using isGreatest_ackSeq hack'
      rw [hgreatest.unique (isGreatest_ackSeq hack)]

/-- A device whose stored seqs are integers can always be acknowledged. -/
theorem StoredIntegers.ackSeq_ne_none {db : Database} (h : StoredIntegers db device) :
    ackSeq db device ≠ none := by
  rw [ne_eq, ackSeq_eq_none_iff]
  rintro ⟨-, -, -, -, s, hs⟩
  obtain ⟨n, hn⟩ := h _ hs
  cases hn

/-- Integers for seqs stay integers. -/
theorem StoredIntegers.store {db : Database} {q : Request} (h : StoredIntegers db device)
    (hq : q.sentBy ρ device = true → ∀ r ∈ q.records, ∃ n, r.get? (py "seq") = some (.int n)) :
    StoredIntegers (q.store ρ db) device := by
  intro seq hseq
  rcases present_store ρ device q db with ⟨-, hsame, -⟩ | ⟨⟨hsent, -⟩, -, hpresent⟩
  · exact h seq ((hsame seq).mp hseq)
  · rcases (hpresent seq).mp hseq with hold | ⟨hnull, -, r, hr, -, rfl⟩
    · exact h seq hold
    · obtain ⟨n, hn⟩ := hq hsent r hr
      have hcell : r.seqCell ρ = (Json.int n).cell ρ := by
        simp only [Dict.seqCell, Dict.get, Dict.getD, hn, Option.getD_some]
      rw [hcell, Json.cell_int] at hnull ⊢
      split at hnull
      · next hrange => exact ⟨n, if_pos hrange⟩
      · exact absurd rfl hnull

/-! ## Histories -/

theorem serve_cons (db : Database) (q : Request) (h : List Request) :
    serve ρ db (q :: h) = serve ρ (q.store ρ db) h := rfl

theorem present_mono {q : Request} {db : Database} {seq : Cell} (h : db.Present device seq) :
    (q.store ρ db).Present device seq := by
  rcases present_store ρ device q db with ⟨-, hsame, -⟩ | ⟨-, -, hpresent⟩
  · exact (hsame seq).mpr h
  · exact (hpresent seq).mpr (.inl h)

/-- What an answered push of the device acknowledges is what it leaves resolved. -/
theorem ack_of_sentBy {q : Request} {db : Database} (hsent : q.sentBy ρ device = true) {n : ℤ}
    (h : (q.answer ρ db).ack? = some n) : ackSeq (q.store ρ db) device = some n := by
  rcases present_store ρ device q db with ⟨-, -, hnone⟩ | ⟨-, hack, -⟩
  · rw [hnone hsent] at h
    cases h
  · rw [← hack, h]

/-- **The law of the answered records.**  The seqs present after a history are those
present before, and those of the answered records that fill their row. -/
theorem present_serve {db : Database} {h : List Request} (hdb : StoredIntegers db device)
    (hint : IntegerSeqs ρ device h) (seq : Cell) :
    (serve ρ db h).Present device seq ↔ db.Present device seq ∨
      seq ≠ .null ∧ device ≠ .null ∧
        ∃ r ∈ answered ρ device db h, r.Filled ρ ∧ r.seqCell ρ = seq := by
  induction h generalizing db with
  | nil => simp [serve, answered]
  | cons q h ih =>
    have hq := hint q List.mem_cons_self
    have hdb' := hdb.store hq
    rw [serve_cons, ih hdb' fun p hp => hint p (List.mem_cons_of_mem _ hp), answered]
    have hpush : (q.store ρ db).Present device seq ↔ db.Present device seq ∨
        seq ≠ .null ∧ device ≠ .null ∧ ∃ r ∈ (if q.sentBy ρ device = true ∧
          (q.answer ρ db).ack?.isSome = true then q.records else []),
            r.Filled ρ ∧ r.seqCell ρ = seq := by
      rcases present_store ρ device q db with ⟨-, hsame, hnone⟩ | ⟨⟨hsent, -⟩, hack, hpresent⟩
      · have hskip : ¬ (q.sentBy ρ device = true ∧ (q.answer ρ db).ack?.isSome = true) := by
          rintro ⟨hsent, hsome⟩
          rw [hnone hsent] at hsome
          cases hsome
        rw [if_neg hskip, hsame]
        simp
      · have htake : q.sentBy ρ device = true ∧ (q.answer ρ db).ack?.isSome = true := by
          refine ⟨hsent, ?_⟩
          rw [hack, Option.isSome_iff_ne_none]
          exact hdb'.ackSeq_ne_none
        rw [if_pos htake, hpresent]
    rw [hpush, or_assoc, ← and_or_left, ← and_or_left]
    simp only [List.mem_append, or_and_right, exists_or]

theorem resolvedTo_mono {q : Request} {db : Database} {n : ℤ} (h : db.ResolvedTo device n) :
    (q.store ρ db).ResolvedTo device n :=
  ⟨h.1, fun i hi hi' => present_mono (h.2 i hi hi')⟩

/-- The members of the acks of a history: the first push's, and the others'. -/
theorem mem_acks_cons {q : Request} {h : List Request} {db : Database} {n : ℤ} :
    n ∈ acks ρ device db (q :: h) ↔
      (q.sentBy ρ device = true ∧ (q.answer ρ db).ack? = some n) ∨
        n ∈ acks ρ device (q.store ρ db) h := by
  rw [acks, List.mem_append]
  refine or_congr_left ?_
  split
  · next hsent => simp [hsent]
  · next hsent => simp [hsent]

/-- What is resolved already is acknowledged from then on. -/
theorem le_of_mem_acks {h : List Request} {db : Database} {n m : ℤ}
    (hn : db.ResolvedTo device n) (hm : m ∈ acks ρ device db h) : n ≤ m := by
  induction h generalizing db with
  | nil => exact absurd hm List.not_mem_nil
  | cons q h ih =>
    rcases mem_acks_cons.mp hm with ⟨hsent, hack⟩ | hm
    · exact (isGreatest_ackSeq (ack_of_sentBy hsent hack)).2 (resolvedTo_mono hn)
    · exact ih (resolvedTo_mono hn) hm

/-- **The acknowledged seqs never decrease.** -/
theorem pairwise_acks (h : List Request) (db : Database) :
    (acks ρ device db h).Pairwise (· ≤ ·) := by
  induction h generalizing db with
  | nil => exact .nil
  | cons q h ih =>
    rw [acks, List.pairwise_append]
    refine ⟨?_, ih _, fun n hn m hm => ?_⟩
    · split
      · cases (q.answer ρ db).ack? with
        | none => exact .nil
        | some n => exact List.pairwise_singleton _ n
      · exact .nil
    · split at hn
      · next hsent =>
        rw [Option.mem_toList] at hn
        exact le_of_mem_acks (isGreatest_ackSeq (ack_of_sentBy hsent hn)).1 hm
      · exact absurd hn List.not_mem_nil

/-- Two databases in which the same seqs of a device are present answer its pushes with
the same acknowledgement, and are left with the same seqs present. -/
theorem store_congr {q : Request} {db db' : Database}
    (h : ∀ seq, db'.Present device seq ↔ db.Present device seq) :
    (∀ seq, (q.store ρ db').Present device seq ↔ (q.store ρ db).Present device seq) ∧
      (q.sentBy ρ device = true → (q.answer ρ db').ack? = (q.answer ρ db).ack?) := by
  rcases present_store ρ device q db with ⟨hno, hsame, hnone⟩ | ⟨hyes, hack, hpresent⟩
  · rcases present_store ρ device q db' with ⟨-, hsame', hnone'⟩ | ⟨hyes, -⟩
    · exact ⟨fun seq => (hsame' seq).trans ((h seq).trans (hsame seq).symm),
        fun hsent => (hnone' hsent).trans (hnone hsent).symm⟩
    · exact absurd hyes hno
  · rcases present_store ρ device q db' with ⟨hno, -⟩ | ⟨-, hack', hpresent'⟩
    · exact absurd hyes hno
    · have hsame : ∀ seq, (q.store ρ db').Present device seq ↔
          (q.store ρ db).Present device seq := fun seq =>
        (hpresent' seq).trans ((or_congr_left (h seq)).trans (hpresent seq).symm)
      exact ⟨hsame, fun _ => hack'.trans ((ackSeq_congr hsame).trans hack.symm)⟩

/-- **Other devices' requests do not matter.** -/
theorem acks_filter {h : List Request} {db db' : Database}
    (hpresent : ∀ seq, db'.Present device seq ↔ db.Present device seq) :
    acks ρ device db' (h.filter (Request.sentBy ρ device)) = acks ρ device db h := by
  induction h generalizing db db' with
  | nil => rfl
  | cons q h ih =>
    cases hsent : q.sentBy ρ device with
    | true =>
      obtain ⟨hsame, hack⟩ := store_congr (q := q) hpresent
      rw [List.filter_cons_of_pos hsent, acks, acks, hack hsent, ih hsame]
    | false =>
      have hsame : ∀ seq, db'.Present device seq ↔ (q.store ρ db).Present device seq := by
        rcases present_store ρ device q db with ⟨-, hsame, -⟩ | ⟨⟨hyes, -⟩, -⟩
        · exact fun seq => (hpresent seq).trans (hsame seq).symm
        · rw [hsent] at hyes
          cases hyes
      rw [List.filter_cons_of_neg (by simp [hsent]), acks, hsent, ih hsame]
      rfl

/-- Without an acknowledgement no push was answered. -/
theorem answered_eq_nil {h : List Request} {db : Database} (hnil : acks ρ device db h = []) :
    answered ρ device db h = [] := by
  induction h generalizing db with
  | nil => rfl
  | cons q h ih =>
    rw [acks, List.append_eq_nil_iff] at hnil
    rw [answered, ih hnil.2, List.append_nil, ite_eq_right_iff]
    rintro ⟨hsent, hsome⟩
    rw [if_pos hsent] at hnil
    obtain ⟨n, hn⟩ := Option.isSome_iff_exists.mp hsome
    rw [hn] at hnil
    cases hnil.1

/-- The last acknowledged seq is what the tables say in the end. -/
theorem ackSeq_of_getLast {h : List Request} {db : Database} {n : ℤ}
    (hdb : StoredIntegers db device) (hint : IntegerSeqs ρ device h)
    (hn : (acks ρ device db h).getLast? = some n) : ackSeq (serve ρ db h) device = some n := by
  induction h generalizing db with
  | nil => cases hn
  | cons q h ih =>
    have hq := hint q List.mem_cons_self
    have hint' : IntegerSeqs ρ device h := fun p hp => hint p (List.mem_cons_of_mem _ hp)
    have hdb' := hdb.store hq
    rw [acks, List.getLast?_append] at hn
    cases hlast : (acks ρ device (q.store ρ db) h).getLast? with
    | some m =>
      rw [hlast, Option.some_or] at hn
      rw [serve_cons]
      exact ih hdb' hint' (hlast.trans hn)
    | none =>
      -- no later push of the device was answered, so nothing of it was stored later
      rw [hlast, Option.none_or] at hn
      have hnil : answered ρ device (q.store ρ db) h = [] :=
        answered_eq_nil (List.getLast?_eq_none_iff.mp hlast)
      have hsame : ∀ seq, (serve ρ (q.store ρ db) h).Present device seq ↔
          (q.store ρ db).Present device seq := by
        intro seq
        rw [present_serve hdb' hint', hnil]
        simp
      rw [serve_cons, ackSeq_congr hsame]
      split at hn
      · next hsent =>
        refine ack_of_sentBy hsent ?_
        cases hack : (q.answer ρ db).ack? with
        | none =>
          rw [hack] at hn
          cases hn
        | some m =>
          rw [hack] at hn
          exact hn
      · cases hn

theorem storedIntegers_empty : StoredIntegers .empty device := by
  rintro seq (⟨r, hr, -⟩ | ⟨r, hr, -⟩)
  · exact absurd hr List.not_mem_nil
  · exact absurd hr List.not_mem_nil

theorem storedIntegers_serve {db : Database} {h : List Request} (hdb : StoredIntegers db device)
    (hint : IntegerSeqs ρ device h) : StoredIntegers (serve ρ db h) device := by
  induction h generalizing db with
  | nil => exact hdb
  | cons q h ih =>
    exact ih (hdb.store (hint q List.mem_cons_self))
      fun p hp => hint p (List.mem_cons_of_mem _ hp)

theorem serve_append_singleton (db : Database) (h : List Request) (q : Request) :
    serve ρ db (h ++ [q]) = q.store ρ (serve ρ db h) :=
  List.foldl_append

/-- A push of the device that gets no acknowledgement has stored nothing. -/
theorem store_eq_self {q : Request} {db : Database}
    (hdb : StoredIntegers (q.store ρ db) device) (hsent : q.sentBy ρ device = true)
    (hack : (q.answer ρ db).ack? = none) : q.store ρ db = db := by
  rcases present_store ρ device q db with ⟨hno, -⟩ | ⟨-, hsome, -⟩
  · exact (push_of_not_processable _ fun hproc => hno ⟨hsent, hproc⟩).1
  · exact absurd (hsome.symm.trans hack) hdb.ackSeq_ne_none

/-- **What the server acknowledges**, over every history of requests in which the records
of the device carry integers for their seqs. -/
theorem server_ack_law (ρ : Rendering) (device : Cell) (h : List Request)
    (hint : IntegerSeqs ρ device h) :
    (∀ before q after, h = before ++ q :: after → q.sentBy ρ device = true →
      (∀ n, (q.answer ρ (serve ρ .empty before)).ack? = some n →
        IsGreatest {m | (serve ρ .empty (before ++ [q])).ResolvedTo device m} n) ∧
      ((q.answer ρ (serve ρ .empty before)).ack? = none →
        serve ρ .empty (before ++ [q]) = serve ρ .empty before)) ∧
    (acks ρ device .empty h).Pairwise (· ≤ ·) ∧
    acks ρ device .empty (h.filter (Request.sentBy ρ device)) = acks ρ device .empty h ∧
    ∀ h', IntegerSeqs ρ device h' →
      (∀ r, r ∈ answered ρ device .empty h ↔ r ∈ answered ρ device .empty h') →
        ∀ n n', (acks ρ device .empty h).getLast? = some n →
          (acks ρ device .empty h').getLast? = some n' → n = n' := by
  refine ⟨?_, pairwise_acks h _, acks_filter fun _ => Iff.rfl, ?_⟩
  · rintro before q after rfl hsent
    rw [serve_append_singleton]
    refine ⟨fun n hn => isGreatest_ackSeq (ack_of_sentBy hsent hn), store_eq_self ?_ hsent⟩
    rw [← serve_append_singleton]
    refine storedIntegers_serve storedIntegers_empty fun p hp => hint p ?_
    rw [List.append_cons]
    exact List.mem_append_left _ hp
  · intro h' hint' hsame n n' hn hn'
    have hack := ackSeq_of_getLast storedIntegers_empty hint hn
    have hack' := ackSeq_of_getLast storedIntegers_empty hint' hn'
    have hpresent : ∀ seq, (serve ρ .empty h').Present device seq ↔
        (serve ρ .empty h).Present device seq := by
      intro seq
      rw [present_serve storedIntegers_empty hint, present_serve storedIntegers_empty hint']
      simp only [hsame]
    rw [ackSeq_congr hpresent, hack] at hack'
    exact Option.some.inj hack'

/-- Seq 2 and then seq 1 of one device: the second push resolves both. -/
theorem two_pushes_acknowledged :
    let q1 : Request := ⟨⟨0, 0⟩, some (.obj (pushOf [telemetry 2]))⟩
    let q2 : Request := ⟨⟨1, 1⟩, some (.obj (pushOf [telemetry 1]))⟩
    IsGreatest {m | (serve plain .empty [q1, q2]).ResolvedTo (.text (py "flow-1")) m} 2 := by
  intro q1 q2
  have hint : IntegerSeqs plain (.text (py "flow-1")) [q1, q2] := by
    have hone : ∀ n r, r ∈ [telemetry n] → ∃ n, r.get? (py "seq") = some (.int n) := by
      intro n r hr
      rw [List.mem_singleton.mp hr]
      exact ⟨n, rfl⟩
    rintro q hq -
    rcases List.mem_cons.mp hq with rfl | hq
    · exact hone 2
    · rw [List.mem_singleton.mp hq]
      exact hone 1
  exact ((server_ack_law plain _ [q1, q2] hint).1 [q1] q2 [] rfl (by decide +kernel)).1 2
    (by decide +kernel)

end Server
end CovioFirmware
