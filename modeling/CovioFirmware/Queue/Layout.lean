import CovioFirmware.Queue.Walks
import Mathlib.Data.List.TakeWhile

/-!
# How the queue lies on flash

The queue is a log of rows cut into segments of 5000.  Which rows are in the log
is decided by the write position `(A, O)` in the checkpoint, and where the reader
starts by the cursor `(cs, co)` in the acknowledgement record; the files only
have to agree with the two.  `Layout` says how:

* closed segments below `A` hold exactly their 5000 rows; those below the cursor
  may be gone;
* the active segment `A` holds the rest of the log, with at most one row's worth
  of unconfirmed bytes behind it; unless it is the first, it exists;
* the next segment exists at most as the remains of an interrupted rollover, and
  nothing exists above it;
* everything before the cursor is acknowledged.

The readers are then functions of the log: `pending` returns its unacknowledged
rows in order (`Layout.pending_eq`), and `ackThrough` moves the cursor to the
first row it may not pass (`Layout.ackWalk_eq`).  The second half of the file
says which changes of the files and of the two positions keep the layout.
-/

namespace CovioFirmware
namespace Device

open Bytes

/-! ## Cutting the log -/

/-- The rows of the log that segment `i` holds. -/
def chunk (log : List QRow) (i : ℕ) : List QRow := (log.drop (5000 * i)).take 5000

theorem length_chunk (log : List QRow) (i : ℕ) :
    (chunk log i).length = min 5000 (log.length - 5000 * i) := by
  rw [chunk, List.length_take, List.length_drop]

/-- The log from a row of segment `i` on. -/
theorem drop_eq_chunk (log : List QRow) (i : ℕ) {c : ℕ} (hc : c ≤ (chunk log i).length) :
    log.drop (5000 * i + c) = (chunk log i).drop c ++ log.drop (5000 * (i + 1)) := by
  have hsplit : log.drop (5000 * i) = chunk log i ++ log.drop (5000 * (i + 1)) := by
    have h := List.take_append_drop 5000 (log.drop (5000 * i))
    rw [List.drop_drop] at h
    rw [chunk, Nat.mul_succ]
    exact h.symm
  rw [← List.drop_drop, hsplit, List.drop_append_of_le_length hc]

theorem chunk_append_of_le {log : List QRow} {i : ℕ} (h : 5000 * (i + 1) ≤ log.length)
    (l : List QRow) : chunk (log ++ l) i = chunk log i := by
  have hle : 5000 * i ≤ log.length := by omega
  rw [chunk, List.drop_append_of_le_length hle, List.take_append_of_le_length, chunk]
  rw [List.length_drop]
  omega

/-- A row added to the log goes to the segment that is not full. -/
theorem chunk_append_row {log : List QRow} {i : ℕ} (hlow : 5000 * i ≤ log.length)
    (hup : log.length < 5000 * (i + 1)) (r : QRow) :
    chunk (log ++ [r]) i = chunk log i ++ [r] := by
  have hlen : (log.drop (5000 * i)).length + 1 ≤ 5000 := by
    rw [List.length_drop]
    omega
  rw [chunk, List.drop_append_of_le_length hlow, List.take_of_length_le, chunk,
    List.take_of_length_le (by omega)]
  rw [List.length_append]
  exact hlen

theorem chunk_eq_nil {log : List QRow} {i : ℕ} (h : log.length ≤ 5000 * i) : chunk log i = [] := by
  rw [chunk, List.drop_eq_nil_of_le h, List.take_nil]

/-! ## The layout -/

/-- The files agree with the log, the write position and the cursor. -/
structure Layout (fs : Path → Option Data) (A O cs co : ℕ) (acked : UInt32) (log : List QRow) :
    Prop where
  intact : ∀ r ∈ log, r.intact = true
  lower : 5000 * A ≤ log.length
  upper : log.length ≤ 5000 * (A + 1)
  offset : O = 36 * (log.length - 5000 * A)
  closed : ∀ i < A, fs (.seg i) = some (QRow.codec.encAll (chunk log i)) ∨
    (i < cs ∧ fs (.seg i) = none)
  active : ∃ tail : Data, (fs (.seg A)).getD [] = QRow.codec.encAll (chunk log A) ++ tail ∧
    tail.length ≤ 36 ∧ (log.length = 5000 * (A + 1) → tail = [])
  next : fs (.seg (A + 1)) ≠ none →
    log.length = 5000 * (A + 1) ∧ ((fs (.seg (A + 1))).getD []).length ≤ 36
  above : ∀ i, A + 1 < i → fs (.seg i) = none
  rooted : A = 0 ∨ fs (.seg A) ≠ none
  cursor_le : cs ≤ A
  /-- The cursor is at a row of its segment, or at the segment's end. -/
  cursor : ∃ k, k ≤ log.length ∧ 5000 * cs ≤ k ∧ k ≤ 5000 * (cs + 1) ∧ co = 36 * (k - 5000 * cs) ∧
    ∀ r ∈ log.take k, r.seq ≤ acked

namespace Layout

variable {fs fs' : Path → Option Data} {A O cs co : ℕ} {acked : UInt32} {log : List QRow}

theorem length_active (h : Layout fs A O cs co acked log) :
    (chunk log A).length = log.length - 5000 * A := by
  have h1 := h.lower
  have h2 := h.upper
  rw [length_chunk]
  omega

theorem offset_eq (h : Layout fs A O cs co acked log) : O = 36 * (chunk log A).length := by
  rw [h.offset, h.length_active]

theorem length_closed (h : Layout fs A O cs co acked log) {i : ℕ} (hi : i < A) :
    (chunk log i).length = 5000 := by
  have h1 := h.lower
  rw [length_chunk]
  omega

/-! ## Reading -/

/-- The rows of a file of the layout that a reader meets from row `c` on. -/
theorem rowsIn_chunk {rows : List QRow} {tail : Data} {c : ℕ} (hc : c ≤ rows.length) :
    QRow.codec.rowsIn (QRow.codec.encAll rows ++ tail) (36 * c) (36 * rows.length) =
      rows.drop c := QRow.codec.rowsIn_encAll rows tail c hc

theorem live_iff (h : ∀ r ∈ log, r.intact = true) {r : QRow} (hr : r ∈ log) {a : UInt32} :
    EventQueue.Live a r ↔ a < r.seq := by
  rw [EventQueue.Live, h r hr, eq_self_iff_true, true_and]

theorem mem_of_mem_chunk {r : QRow} {i : ℕ} (h : r ∈ chunk log i) : r ∈ log :=
  List.mem_of_mem_drop (List.mem_of_mem_take h)

/-- The segment loop of `pending` from any row of the log. -/
theorem pendingWalk_eq (h : Layout fs A O cs co acked log) (a : UInt32) :
    ∀ fuel seg c room, cs ≤ seg → seg ≤ A → A < seg + fuel → c ≤ (chunk log seg).length →
      EventQueue.pendingWalk fs a A O fuel seg (36 * c) room =
        ((log.drop (5000 * seg + c)).filter fun r => a < r.seq).take room := by
  have hfilter : ∀ l : List QRow, (∀ r ∈ l, r ∈ log) →
      (l.filter fun r => EventQueue.Live a r) = l.filter fun r => a < r.seq := by
    intro l hl
    refine List.filter_congr fun r hr => ?_
    rw [decide_eq_decide, live_iff h.intact (hl r hr)]
  intro fuel
  induction fuel with
  | zero => intro seg c room _ h2 h3; omega
  | succ fuel ih =>
    intro seg c room hcs hseg hfuel hc
    have hlen : (chunk log seg).length ≤ 5000 := by rw [length_chunk]; omega
    rw [EventQueue.pendingWalk]
    by_cases hroom : room = 0
    · rw [if_neg (fun hc => hc.1 hroom), hroom, List.take_zero]
    rw [if_pos ⟨hroom, hseg⟩, drop_eq_chunk log seg hc]
    have hsub : ∀ r ∈ (chunk log seg).drop c, r ∈ log := fun r hr =>
      mem_of_mem_chunk (List.mem_of_mem_drop hr)
    -- what the row loop returns for a file that holds the chunk
    have hrows : ∀ tail : Data, EventQueue.pendingRows a (QRow.codec.encAll (chunk log seg) ++ tail)
        (36 * (chunk log seg).length)
        ((QRow.codec.encAll (chunk log seg) ++ tail).length / 36 + 1) (36 * c) room =
        (((chunk log seg).drop c).filter fun r => a < r.seq).take room := by
      intro tail
      rw [EventQueue.pendingRows_eq a _ _ (.inl (by omega)) _ _ _ (by omega) (EventQueue.rowFuel _ _),
        rowsIn_chunk hc, hfilter _ hsub]
    by_cases hA : seg = A
    · -- the active segment
      subst hA
      have hrest : log.drop (5000 * (seg + 1)) = [] := List.drop_eq_nil_of_le h.upper
      rw [hrest, List.append_nil]
      obtain ⟨tail, hfile, -, -⟩ := h.active
      cases hfs : fs (.seg seg) with
      | none =>
        rw [hfs, Option.getD_none] at hfile
        have hnil : (chunk log seg).length = 0 := by
          have hz := congrArg List.length hfile
          rw [List.length_append, RowCodec.length_encAll, QRow.codec_size, List.length_nil] at hz
          omega
        simp [List.eq_nil_of_length_eq_zero hnil]
      | some b =>
        rw [hfs, Option.getD_some] at hfile
        subst hfile
        have hlimit : EventQueue.readLimit seg O seg (QRow.codec.encAll (chunk log seg) ++ tail) =
            36 * (chunk log seg).length := by
          rw [EventQueue.readLimit, if_pos rfl, h.offset_eq]
        have hmin : min (36 * c) (36 * (chunk log seg).length) = 36 * c := by omega
        simp only [hlimit, hmin, hrows, if_true]
    · -- a closed segment, then the rest
      have hlt : seg < A := by omega
      have hfs : fs (.seg seg) = some (QRow.codec.encAll (chunk log seg)) := by
        rcases h.closed seg hlt with hfs | ⟨hcs', -⟩
        · exact hfs
        · omega
      have hlimit : EventQueue.readLimit A O seg (QRow.codec.encAll (chunk log seg)) =
          36 * (chunk log seg).length := by
        rw [EventQueue.readLimit, if_neg hA, RowCodec.length_encAll, QRow.codec_size]
      have hmin : min (36 * c) (36 * (chunk log seg).length) = 36 * c := by omega
      have hgot := hrows []
      rw [List.append_nil] at hgot
      have hnext := ih (seg + 1) 0 (room - ((((chunk log seg).drop c).filter
        fun r => a < r.seq).take room).length) (by omega) hlt (by omega) (Nat.zero_le _)
      rw [Nat.mul_zero, Nat.add_zero] at hnext
      simp only [hfs, hlimit, hmin, hgot, if_neg hA, hnext]
      rw [List.filter_append, List.take_append, List.length_take]
      congr 2
      omega

/-- **`pending` returns the unacknowledged rows of the log, in order.** -/
theorem pending_eq {q : EventQueue} {t : Totalizer}
    (h : Layout fs t.cp.qSegment.toNat t.cp.qOffset.toNat q.ack.cursorSegment.toNat
      q.ack.cursorOffset.toNat q.ack.ackedSeq log) (maxN : ℕ) :
    q.pending fs t maxN = (log.filter fun r => q.ack.ackedSeq < r.seq).take maxN := by
  obtain ⟨k, hk, hlow, hup, hco, hacked⟩ := h.cursor
  have hcA := h.cursor_le
  have hc : k - 5000 * q.ack.cursorSegment.toNat ≤
      (chunk log q.ack.cursorSegment.toNat).length := by
    rw [length_chunk]
    omega
  have hskip : (log.take k).filter (fun r => q.ack.ackedSeq < r.seq) = [] := by
    rw [List.filter_eq_nil_iff]
    intro r hr
    rw [decide_eq_true_eq]
    exact UInt32.not_lt.mpr (hacked r hr)
  have hall : log.filter (fun r => q.ack.ackedSeq < r.seq) =
      (log.drop k).filter fun r => q.ack.ackedSeq < r.seq := by
    rw [← List.take_append_drop k log, List.filter_append, hskip, List.nil_append,
      List.take_append_drop]
  have hwalk := h.pendingWalk_eq q.ack.ackedSeq (t.cp.qSegment.toNat + 1 -
    q.ack.cursorSegment.toNat) q.ack.cursorSegment.toNat (k - 5000 * q.ack.cursorSegment.toNat)
    maxN le_rfl hcA (by omega) hc
  have hk' : 5000 * q.ack.cursorSegment.toNat + (k - 5000 * q.ack.cursorSegment.toNat) = k := by
    omega
  rw [hk', ← hco] at hwalk
  rw [hall, ← hwalk]
  rfl

/-- The row before the write position is the last of the log. -/
theorem last_row {row : QRow} (h : Layout fs A O cs co acked (log ++ [row]))
    (hpos : 5000 * A < (log ++ [row]).length) :
    ((fs (.seg A)).bind fun b => QRow.codec.rowAt b (O - 36)) = some row := by
  have hup := h.upper
  have hoff := h.offset_eq
  rw [List.length_append, List.length_singleton] at hpos hup
  obtain ⟨tail, hfile, -, -⟩ := h.active
  rw [chunk_append_row (by omega) (by omega)] at hfile hoff
  rw [List.length_append, List.length_singleton] at hoff
  cases hfs : fs (.seg A) with
  | none =>
    have hlen := congrArg List.length hfile
    rw [hfs, Option.getD_none, List.length_append, RowCodec.length_encAll, QRow.codec_size,
      List.length_append, List.length_singleton, List.length_nil] at hlen
    omega
  | some b =>
    rw [hfs, Option.getD_some] at hfile
    have hrow := QRow.codec.rowAt_encAll (chunk log A ++ [row]) tail (chunk log A).length
      (by simp)
    have hat : O - 36 = QRow.codec.size * (chunk log A).length := by
      rw [QRow.codec_size]
      omega
    rw [Option.bind_some, hat, hfile, hrow]
    simp

/-! ## Moving the cursor -/

theorem takeWhile_congr_mem {α : Type} {p p' : α → Bool} :
    ∀ {l : List α}, (∀ x ∈ l, p x = p' x) → l.takeWhile p = l.takeWhile p'
  | [], _ => rfl
  | x :: l, h => by
    rw [List.takeWhile_cons, List.takeWhile_cons, h x List.mem_cons_self,
      takeWhile_congr_mem fun y hy => h y (List.mem_cons_of_mem _ hy)]

/-- How many rows from row `k` on an acknowledgement of `a` passes. -/
def passed (log : List QRow) (a : UInt32) (k : ℕ) : ℕ :=
  ((log.drop k).takeWhile fun r => r.seq ≤ a).length

theorem passed_le (log : List QRow) (a : UInt32) (k : ℕ) : passed log a k ≤ log.length - k := by
  have h := (List.takeWhile_prefix (l := log.drop k) fun r => decide (r.seq ≤ a)).length_le
  rwa [List.length_drop] at h

/-- Everything passed is acknowledged. -/
theorem seq_le_of_passed {a : UInt32} {k : ℕ} {r : QRow}
    (hr : r ∈ (log.drop k).take (passed log a k)) : r.seq ≤ a := by
  have htake : (log.drop k).take (passed log a k) =
      (log.drop k).takeWhile fun r => r.seq ≤ a :=
    (List.prefix_iff_eq_take.mp (List.takeWhile_prefix _)).symm
  rw [htake] at hr
  simpa using List.mem_takeWhile_imp hr

theorem ackWalk_eq (h : Layout fs A O cs co acked log) (a : UInt32) :
    ∀ fuel seg c consumed, cs ≤ seg → seg ≤ A → A < seg + fuel → c ≤ (chunk log seg).length →
      ∃ seg' n, EventQueue.ackWalk fs a A O fuel seg (36 * c) consumed =
          (seg', 36 * (5000 * seg + c + passed log a (5000 * seg + c) - 5000 * seg'), n) ∧
        seg ≤ seg' ∧ seg' ≤ A ∧ 5000 * seg' ≤ 5000 * seg + c + passed log a (5000 * seg + c) ∧
        (5000 * seg + c + passed log a (5000 * seg + c) < 5000 * (seg' + 1) ∨ seg' = A) := by
  intro fuel
  induction fuel with
  | zero => intro seg c consumed _ h2 h3; omega
  | succ fuel ih =>
    intro seg c consumed hcs hseg hfuel hc
    have hlen : (chunk log seg).length ≤ 5000 := by rw [length_chunk]; omega
    set here := ((chunk log seg).drop c).takeWhile fun r => r.seq ≤ a with hhere
    have hherele : here.length ≤ (chunk log seg).length - c := by
      have hp := (List.takeWhile_prefix (l := (chunk log seg).drop c)
        fun r => decide (r.seq ≤ a)).length_le
      rwa [List.length_drop] at hp
    -- passing from row c of this segment: either the segment's rows run out or not
    have hpassed : passed log a (5000 * seg + c) =
        if here.length = (chunk log seg).length - c then
          here.length + passed log a (5000 * (seg + 1)) else here.length := by
      rw [passed, drop_eq_chunk log seg hc, List.takeWhile_append, ← hhere, List.length_drop]
      split
      · next hall => rw [List.length_append, List.length_drop, hall, passed]
      · rfl
    have hrows : ∀ tail : Data, EventQueue.ackRows a (QRow.codec.encAll (chunk log seg) ++ tail)
        (36 * (chunk log seg).length)
        ((QRow.codec.encAll (chunk log seg) ++ tail).length / 36 + 1) (36 * c) =
        (36 * c + 36 * here.length, here.length) := by
      intro tail
      have hwhile : ((chunk log seg).drop c).takeWhile (fun r => ¬ EventQueue.Live a r) = here := by
        rw [hhere]
        refine takeWhile_congr_mem fun r hr => ?_
        rw [decide_eq_decide, live_iff h.intact (mem_of_mem_chunk (List.mem_of_mem_drop hr)),
          UInt32.not_lt]
      rw [EventQueue.ackRows_eq a _ _ (.inl (by omega)) _ _ (by omega) (EventQueue.rowFuel _ _),
        rowsIn_chunk hc, hwhile]
    rw [EventQueue.ackWalk, if_pos hseg]
    by_cases hA : seg = A
    · -- the active segment: the walk ends here
      subst hA
      have hrest : passed log a (5000 * (seg + 1)) = 0 := by
        rw [passed, List.drop_eq_nil_of_le h.upper]
        rfl
      have hpass : passed log a (5000 * seg + c) = here.length := by
        rw [hpassed, hrest, Nat.add_zero, ite_self]
      rw [hpass]
      obtain ⟨tail, hfile, -, -⟩ := h.active
      cases hfs : fs (.seg seg) with
      | none =>
        rw [hfs, Option.getD_none] at hfile
        have hnil : (chunk log seg).length = 0 := by
          have hz := congrArg List.length hfile
          rw [List.length_append, RowCodec.length_encAll, QRow.codec_size, List.length_nil] at hz
          omega
        refine ⟨seg, consumed, ?_, le_rfl, hseg, by omega, .inr rfl⟩
        simp only [Prod.mk.injEq, true_and, and_true]
        omega
      | some b =>
        rw [hfs, Option.getD_some] at hfile
        subst hfile
        have hlimit : EventQueue.readLimit seg O seg (QRow.codec.encAll (chunk log seg) ++ tail) =
            36 * (chunk log seg).length := by
          rw [EventQueue.readLimit, if_pos rfl, h.offset_eq]
        have hmin : min (36 * c) (36 * (chunk log seg).length) = 36 * c := by omega
        refine ⟨seg, consumed + here.length, ?_, le_rfl, hseg, by omega, .inr rfl⟩
        simp only [hlimit, hmin, hrows, lt_irrefl, false_and, if_false, Prod.mk.injEq, true_and,
          and_true]
        omega
    · have hlt : seg < A := by omega
      have hfs : fs (.seg seg) = some (QRow.codec.encAll (chunk log seg)) := by
        rcases h.closed seg hlt with hfs | ⟨hcs', -⟩
        · exact hfs
        · omega
      have hlimit : EventQueue.readLimit A O seg (QRow.codec.encAll (chunk log seg)) =
          36 * (chunk log seg).length := by
        rw [EventQueue.readLimit, if_neg hA, RowCodec.length_encAll, QRow.codec_size]
      have hmin : min (36 * c) (36 * (chunk log seg).length) = 36 * c := by omega
      have hfull := h.length_closed hlt
      have hgot := hrows []
      rw [List.append_nil] at hgot
      simp only [hfs, hlimit, hmin, hgot]
      by_cases hall : here.length = (chunk log seg).length - c
      · -- the closed segment is passed entirely
        rw [if_pos ⟨hlt, by omega⟩]
        obtain ⟨seg', n, hwalk, h1, h2, h3, h4⟩ := ih (seg + 1) 0 (consumed + here.length)
          (by omega) hlt (by omega) (Nat.zero_le _)
        rw [if_pos hall] at hpassed
        simp only [Nat.mul_zero, Nat.add_zero] at hwalk h3 h4
        refine ⟨seg', n, ?_, by omega, h2, by omega, ?_⟩
        · rw [hwalk]
          simp only [Prod.mk.injEq, true_and, and_true]
          omega
        · rcases h4 with h4 | h4
          · exact .inl (by omega)
          · exact .inr h4
      · rw [if_neg (fun hc' => hall (by omega))]
        rw [if_neg hall] at hpassed
        refine ⟨seg, consumed + here.length, ?_, le_rfl, hseg, by omega, .inl (by omega)⟩
        simp only [Prod.mk.injEq, true_and, and_true]
        omega

/-- **Where `ackThrough` moves the cursor**: past every row it may pass, and no
further; the layout holds with the new cursor. -/
theorem ackCursor_eq {q : EventQueue} {t : Totalizer}
    (h : Layout fs t.cp.qSegment.toNat t.cp.qOffset.toNat q.ack.cursorSegment.toNat
      q.ack.cursorOffset.toNat q.ack.ackedSeq log) {a : UInt32} (ha : q.ack.ackedSeq < a) :
    ∃ seg off n, EventQueue.ackCursor fs q t a = (seg, off, n) ∧
      q.ack.cursorSegment.toNat ≤ seg ∧ off ≤ 180000 ∧
      (((∀ r ∈ log, r.seq ≤ a) → seg = t.cp.qSegment.toNat) ∧
        Layout fs t.cp.qSegment.toNat t.cp.qOffset.toNat seg off a log) := by
  obtain ⟨k, hk, hlow, hup, hco, hacked⟩ := h.cursor
  have hcA := h.cursor_le
  have hlower := h.lower
  have hupper := h.upper
  have hc : k - 5000 * q.ack.cursorSegment.toNat ≤
      (chunk log q.ack.cursorSegment.toNat).length := by
    rw [length_chunk]
    omega
  obtain ⟨seg, n, hwalk, h1, h2, h3, h4⟩ := h.ackWalk_eq a (t.cp.qSegment.toNat + 1 -
    q.ack.cursorSegment.toNat) q.ack.cursorSegment.toNat (k - 5000 * q.ack.cursorSegment.toNat)
    0 le_rfl hcA (by omega) hc
  have hk' : 5000 * q.ack.cursorSegment.toNat + (k - 5000 * q.ack.cursorSegment.toNat) = k := by
    omega
  rw [hk'] at hwalk h3 h4
  rw [← hco] at hwalk
  have hple := passed_le log a k
  refine ⟨seg, _, n, hwalk, h1, ?_, fun hall => ?_, ?_⟩
  · rcases h4 with h4 | h4
    · omega
    · subst h4
      omega
  · -- everything is acknowledged, so the walk only stops at the active segment
    have hpass : passed log a k = log.length - k := by
      rw [passed, List.takeWhile_eq_self_iff.mpr, List.length_drop]
      intro r hr
      simpa using hall r (List.mem_of_mem_drop hr)
    rcases h4 with h4 | h4
    · omega
    · exact h4
  · refine ⟨h.intact, h.lower, h.upper, h.offset, fun i hi => ?_, h.active, h.next, h.above,
      h.rooted, h2,
      k + passed log a k, by omega, h3, ?_, rfl, fun r hr => ?_⟩
    · rcases h.closed i hi with hf | ⟨hf, hn⟩
      · exact .inl hf
      · exact .inr ⟨by omega, hn⟩
    · rcases h4 with h4 | h4
      · omega
      · subst h4
        omega
    · rw [List.take_add] at hr
      rcases List.mem_append.mp hr with hr | hr
      · exact UInt32.le_trans (hacked r hr) (UInt32.le_of_lt ha)
      · exact seq_le_of_passed hr

/-! ## Changes of the files -/

theorem congr (h : Layout fs A O cs co acked log) (hfs : ∀ i, fs' (.seg i) = fs (.seg i)) :
    Layout fs' A O cs co acked log := by
  refine ⟨h.intact, h.lower, h.upper, h.offset, ?_, ?_, ?_, ?_, ?_, h.cursor_le, h.cursor⟩
  · simpa only [hfs] using h.closed
  · simpa only [hfs] using h.active
  · simpa only [hfs] using h.next
  · simpa only [hfs] using h.above
  · simpa only [hfs] using h.rooted

/-- Unconfirmed bytes behind the active segment come and go. -/
theorem set_tail (h : Layout fs A O cs co acked log)
    (hother : ∀ i, i ≠ A → fs' (.seg i) = fs (.seg i)) {tail : Data}
    (hA : fs' (.seg A) = some (QRow.codec.encAll (chunk log A) ++ tail))
    (htail : tail.length ≤ 36) (hfull : log.length = 5000 * (A + 1) → tail = []) :
    Layout fs' A O cs co acked log := by
  refine ⟨h.intact, h.lower, h.upper, h.offset, fun i hi => ?_, ⟨tail, ?_, htail, hfull⟩, ?_,
    fun i hi => ?_, .inr (by rw [hA]; simp), h.cursor_le, h.cursor⟩
  · rw [hother i (by omega)]
    exact h.closed i hi
  · rw [hA, Option.getD_some]
  · rw [hother (A + 1) (by omega)]
    exact h.next
  · rw [hother i (by omega)]
    exact h.above i hi

/-- The remains of a rollover come and go. -/
theorem set_next (h : Layout fs A O cs co acked log)
    (hother : ∀ i, i ≠ A + 1 → fs' (.seg i) = fs (.seg i))
    (hnext : fs' (.seg (A + 1)) ≠ none →
      log.length = 5000 * (A + 1) ∧ ((fs' (.seg (A + 1))).getD []).length ≤ 36) :
    Layout fs' A O cs co acked log := by
  refine ⟨h.intact, h.lower, h.upper, h.offset, fun i hi => ?_, ?_, hnext, fun i hi => ?_,
    hother A (by omega) ▸ h.rooted, h.cursor_le, h.cursor⟩
  · rw [hother i (by omega)]
    exact h.closed i hi
  · rw [hother A (by omega)]
    exact h.active
  · rw [hother i (by omega)]
    exact h.above i hi

/-- Segments below the cursor or above the active one may go. -/
theorem remove_dead (h : Layout fs A O cs co acked log)
    (hfs : ∀ i, fs' (.seg i) = fs (.seg i) ∨ (fs' (.seg i) = none ∧ (i < cs ∨ A < i))) :
    Layout fs' A O cs co acked log := by
  have hcA := h.cursor_le
  have hactive : fs' (.seg A) = fs (.seg A) := by
    rcases hfs A with hA | ⟨-, hlt | hlt⟩
    · exact hA
    · omega
    · omega
  refine ⟨h.intact, h.lower, h.upper, h.offset, fun i hi => ?_, ?_, fun hne => ?_, fun i hi => ?_,
    hactive ▸ h.rooted, h.cursor_le, h.cursor⟩
  · rcases hfs i with hi' | ⟨hn, hlt | hlt⟩
    · rw [hi']
      exact h.closed i hi
    · exact .inr ⟨hlt, hn⟩
    · omega
  · rw [hactive]
    exact h.active
  · rcases hfs (A + 1) with hA | ⟨hn, -⟩
    · rw [hA] at hne ⊢
      exact h.next hne
    · exact absurd hn hne
  · rcases hfs i with hi' | ⟨hn, -⟩
    · rw [hi']
      exact h.above i hi
    · exact hn

/-! ## A row becomes confirmed -/

/-- The row is behind the rows of the active segment and the offset moves over
it. -/
theorem append_here (h : Layout fs A O cs co acked log) (hroom : log.length < 5000 * (A + 1))
    {row : QRow} (hrow : row.intact = true)
    (hA : fs (.seg A) = some (QRow.codec.encAll (chunk log A) ++ QRow.kind.bytes row)) :
    Layout fs A (O + 36) cs co acked (log ++ [row]) := by
  have hlow := h.lower
  obtain ⟨k, hk, h1, h2, h3, h4⟩ := h.cursor
  refine ⟨fun r hr => ?_, ?_, ?_, ?_, fun i hi => ?_, ⟨[], ?_, by simp, fun _ => rfl⟩, fun hne => ?_,
    h.above, .inr (by rw [hA]; simp), h.cursor_le, k, ?_, h1, h2, h3, fun r hr => ?_⟩
  · rcases List.mem_append.mp hr with hr | hr
    · exact h.intact r hr
    · rw [List.mem_singleton.mp hr, hrow]
  · rw [List.length_append]
    omega
  · rw [List.length_append, List.length_singleton]
    omega
  · rw [h.offset, List.length_append, List.length_singleton]
    omega
  · rw [chunk_append_of_le (by omega)]
    exact h.closed i hi
  · rw [hA, Option.getD_some, chunk_append_row hlow hroom, RowCodec.encAll_append,
      RowCodec.encAll_cons, RowCodec.encAll_nil, List.append_nil, List.append_nil]
    rfl
  · have := (h.next hne).1
    omega
  · rw [List.length_append]
    omega
  · rw [List.take_append_of_le_length hk] at hr
    exact h4 r hr

/-- A full active segment holds its rows and nothing else. -/
theorem file_full (h : Layout fs A O cs co acked log) (hfull : log.length = 5000 * (A + 1)) :
    fs (.seg A) = some (QRow.codec.encAll (chunk log A)) := by
  obtain ⟨tail, hfile, -, htail⟩ := h.active
  rw [htail hfull, List.append_nil] at hfile
  have hlen : (QRow.codec.encAll (chunk log A)).length = 36 * 5000 := by
    rw [RowCodec.length_encAll, QRow.codec_size, length_chunk]
    omega
  cases hfs : fs (.seg A) with
  | none =>
    rw [hfs, Option.getD_none] at hfile
    rw [← hfile, List.length_nil] at hlen
    omega
  | some b =>
    rw [hfs, Option.getD_some] at hfile
    rw [hfile]

/-- The row is the first of the next segment and the position moves there. -/
theorem append_next (h : Layout fs A O cs co acked log) (hfull : log.length = 5000 * (A + 1))
    {row : QRow} (hrow : row.intact = true) (hA : fs (.seg (A + 1)) = some (QRow.kind.bytes row)) :
    Layout fs (A + 1) 36 cs co acked (log ++ [row]) := by
  obtain ⟨k, hk, h1, h2, h3, h4⟩ := h.cursor
  refine ⟨fun r hr => ?_, ?_, ?_, ?_, fun i hi => ?_, ⟨[], ?_, by simp, fun _ => rfl⟩, fun hne => ?_,
    fun i hi => h.above i (by omega), .inr (by rw [hA]; simp), by have := h.cursor_le; omega, k, ?_,
    h1, h2, h3,
    fun r hr => ?_⟩
  · rcases List.mem_append.mp hr with hr | hr
    · exact h.intact r hr
    · rw [List.mem_singleton.mp hr, hrow]
  · rw [List.length_append]
    omega
  · rw [List.length_append, List.length_singleton]
    omega
  · rw [List.length_append, List.length_singleton, hfull]
    omega
  · rw [chunk_append_of_le (by omega)]
    by_cases hi' : i < A
    · exact h.closed i hi'
    · -- the segment that was active is full, so nothing stands behind its rows
      have hiA : i = A := by omega
      subst hiA
      exact .inl (h.file_full hfull)
  · have hnil : chunk log (A + 1) = [] := chunk_eq_nil (by omega)
    rw [hA, Option.getD_some, chunk_append_row (by omega) (by omega), hnil, List.nil_append,
      RowCodec.encAll_cons, RowCodec.encAll_nil, List.append_nil, List.append_nil]
    rfl
  · exact absurd (h.above (A + 1 + 1) (by omega)) hne
  · rw [List.length_append]
    omega
  · rw [List.take_append_of_le_length hk] at hr
    exact h4 r hr

/-- A flash without segments. -/
theorem empty (hfs : ∀ i, fs (.seg i) = none) : Layout fs 0 0 0 0 acked [] := by
  refine ⟨by simp, by simp, by simp, by simp, by simp, ⟨[], ?_, by simp, fun _ => rfl⟩, ?_,
    fun i _ => hfs i, .inl rfl, le_rfl, 0, by simp, by simp, by simp, by simp, by simp⟩
  · rw [hfs, chunk_eq_nil (by simp)]
    rfl
  · intro hne
    exact absurd (hfs 1) hne

end Layout

end Device
end CovioFirmware
