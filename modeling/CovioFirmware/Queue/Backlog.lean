import CovioFirmware.Queue.Routines

/-!
# The rows between the cursor and the write position

`pending`, the boot-time count and the walk of `ackThrough` stride over the same
rows: those between the cursor and the write position, up to the first segment that
is missing.  `confirmedRows` names them, for arbitrary file contents, and each of the
three loops is then a function of that list: `pending` filters it, the boot counts
what the filter keeps, and `ackThrough` drops the rows up to the first that is live.

The second half says how the list changes.  An append adds its row to it, as long as
the files are `Tidy`; an acknowledgement takes the rows it passed off its front.
-/

namespace CovioFirmware
namespace Device
namespace EventQueue

open Bytes Crash

/-! ## One segment -/

/-- The rows a row loop strides over. -/
def rowsRead (b : Data) (limit : ℕ) : ℕ → ℕ → List QRow
  | 0, _ => []
  | fuel + 1, off =>
      if u32 (off + 36) ≤ limit then
        match QRow.codec.rowAt b off with
        | none => []
        | some r => r :: rowsRead b limit fuel (off + 36)
      else []

theorem filter_live_cons (a : UInt32) (r : QRow) (l : List QRow) :
    (r :: l).filter (fun r => Live a r) = if r.intact = true ∧ a < r.seq then
      r :: l.filter fun r => Live a r else l.filter fun r => Live a r := by
  by_cases hlive : Live a r
  · have h : r.intact = true ∧ a < r.seq := hlive
    rw [if_pos h, List.filter_cons, decide_eq_true hlive]
    rfl
  · have h : ¬ (r.intact = true ∧ a < r.seq) := hlive
    rw [if_neg h, List.filter_cons, decide_eq_false hlive]
    rfl

theorem pendingRows_eq_rowsRead (ackedSeq : UInt32) (b : Data) (limit : ℕ) :
    ∀ fuel off room, pendingRows ackedSeq b limit fuel off room =
      ((rowsRead b limit fuel off).filter fun r => Live ackedSeq r).take room := by
  intro fuel
  induction fuel with
  | zero => exact fun off room => List.take_nil.symm
  | succ fuel ih =>
    intro off room
    rw [pendingRows, rowsRead]
    by_cases hroom : room = 0
    · rw [if_neg (fun h => h.1 hroom), hroom, List.take_zero]
    by_cases hlimit : u32 (off + 36) ≤ limit
    · rw [if_pos ⟨hroom, hlimit⟩, if_pos hlimit]
      cases QRow.codec.rowAt b off with
      | none => exact List.take_nil.symm
      | some r =>
        obtain ⟨n, rfl⟩ : ∃ n, room = n + 1 := ⟨room - 1, by omega⟩
        simp only [ih]
        rw [filter_live_cons]
        split
        · rw [List.take_succ_cons, Nat.add_sub_cancel]
        · rfl
    · rw [if_neg (fun h => hlimit h.2), if_neg hlimit, List.filter_nil, List.take_nil]

theorem countRows_eq_rowsRead (ackedSeq : UInt32) (b : Data) (limit : ℕ) :
    ∀ fuel off, countRows ackedSeq b limit fuel off =
      ((rowsRead b limit fuel off).filter fun r => Live ackedSeq r).length := by
  intro fuel
  induction fuel with
  | zero => exact fun off => rfl
  | succ fuel ih =>
    intro off
    rw [countRows, rowsRead]
    split
    · cases QRow.codec.rowAt b off with
      | none => rfl
      | some r =>
        simp only [ih]
        rw [filter_live_cons]
        split
        · rw [List.length_cons, Nat.add_comm]
        · rw [Nat.zero_add]
    · rfl

/-- Where the 32-bit sum does no harm, these are the rows of the file. -/
theorem rowsRead_eq_rowsIn {b : Data} {limit : ℕ}
    (hlimit : Strides b limit) :
    ∀ fuel off, off ≤ limit → (b.length - off) / 36 < fuel →
      rowsRead b limit fuel off = QRow.codec.rowsIn b off limit := by
  intro fuel
  induction fuel with
  | zero => intro off _ hf; omega
  | succ fuel ih =>
    intro off hoff hf
    rw [rowsRead]
    by_cases hend : off + 36 ≤ min limit b.length
    · have hle : off + 36 ≤ limit := by omega
      have hrow : QRow.codec.rowAt b off = some _ := if_pos (by rw [QRow.codec_size]; omega)
      rw [if_pos (u32_row_le hle), QRow.codec.rowsIn_of_rowAt hrow hle, hrow]
      exact congrArg (_ :: ·) (ih (off + 36) hle (by omega))
    · have hempty : QRow.codec.rowsIn b off limit = [] :=
        QRow.codec.rowsIn_of_lt (by rw [QRow.codec_size]; omega)
      rw [hempty]
      rcases stop_of_lt hlimit hoff (by omega) with hstop | hnone
      · rw [if_neg hstop]
      · rw [hnone, ite_self]

/-! ## The segments -/

/-- The rows a segment loop strides over. -/
def rowsWalked (fs : Path → Option Data) (activeSeg qOffset : ℕ) : ℕ → ℕ → ℕ → List QRow
  | 0, _, _ => []
  | fuel + 1, seg, off =>
      if seg ≤ activeSeg then
        match fs (.seg seg) with
        | none => []
        | some b =>
            let limit := readLimit activeSeg qOffset seg b
            let here := rowsRead b limit (b.length / 36 + 1) (min off limit)
            if seg = activeSeg then here
            else here ++ rowsWalked fs activeSeg qOffset fuel (seg + 1) 0
      else []

/-- The rows from the cursor to the write position, up to the first missing
segment. -/
def confirmedRows (fs : Path → Option Data) (ack : AckRec) (t : Totalizer) : List QRow :=
  rowsWalked fs t.queueOffsetSegment.toNat t.queueOffsetOffset.toNat
    (t.queueOffsetSegment.toNat + 1 - ack.cursorSegment.toNat) ack.cursorSegment.toNat
    ack.cursorOffset.toNat

/-- The confirmed rows that `pending` returns. -/
def liveRows (fs : Path → Option Data) (ack : AckRec) (t : Totalizer) : List QRow :=
  (confirmedRows fs ack t).filter fun r => Live ack.ackedSeq r

section Loops

variable (fs : Path → Option Data)

theorem pendingWalk_eq_rowsWalked (ackedSeq : UInt32) (activeSeg qOffset : ℕ) :
    ∀ fuel seg off room, pendingWalk fs ackedSeq activeSeg qOffset fuel seg off room =
      ((rowsWalked fs activeSeg qOffset fuel seg off).filter fun r => Live ackedSeq r).take room := by
  intro fuel
  induction fuel with
  | zero => exact fun seg off room => List.take_nil.symm
  | succ fuel ih =>
    intro seg off room
    rw [pendingWalk, rowsWalked]
    by_cases hroom : room = 0
    · rw [if_neg (fun h => h.1 hroom), hroom, List.take_zero]
    by_cases hseg : seg ≤ activeSeg
    · rw [if_pos ⟨hroom, hseg⟩, if_pos hseg]
      cases fs (.seg seg) with
      | none => exact List.take_nil.symm
      | some b =>
        simp only [pendingRows_eq_rowsRead, ih]
        split
        · rfl
        · rw [List.filter_append, List.take_append, List.length_take]
          congr 2
          omega
    · rw [if_neg (fun h => hseg h.2), if_neg hseg, List.filter_nil, List.take_nil]

theorem countWalk_eq_rowsWalked (ackedSeq : UInt32) (activeSeg qOffset : ℕ) :
    ∀ fuel seg off, countWalk fs ackedSeq activeSeg qOffset fuel seg off =
      ((rowsWalked fs activeSeg qOffset fuel seg off).filter fun r => Live ackedSeq r).length := by
  intro fuel
  induction fuel with
  | zero => exact fun seg off => rfl
  | succ fuel ih =>
    intro seg off
    rw [countWalk, rowsWalked]
    split
    · cases fs (.seg seg) with
      | none => rfl
      | some b =>
        simp only [countRows_eq_rowsRead, ih]
        split
        · rfl
        · rw [List.filter_append, List.length_append]
    · rfl

/-- **`pending` returns the live ones of the confirmed rows.** -/
theorem pending_eq_liveRows (q : EventQueue) (t : Totalizer) (maxN : ℕ) :
    q.pending fs t maxN = (liveRows fs q.ack t).take maxN :=
  pendingWalk_eq_rowsWalked fs _ _ _ _ _ _ _

/-- What an unbounded `pending` returns: the live ones of the confirmed rows. -/
theorem pending_unbounded {fs : Path → Option Data} {q : EventQueue} {t : Totalizer} {N : ℕ}
    (h : (q.pending fs t N).length < N) : q.pending fs t N = liveRows fs q.ack t := by
  rw [pending_eq_liveRows] at h ⊢
  rw [List.length_take] at h
  exact List.take_of_length_le (by omega)

/-- **The boot counts the live ones of the confirmed rows.** -/
theorem computeUnackedCount_eq (ack : AckRec) (t : Totalizer) :
    computeUnackedCount fs ack t = (liveRows fs ack t).length :=
  countWalk_eq_rowsWalked fs _ _ _ _ _ _

end Loops

/-- The rows depend on the segments from the first one read on. -/
theorem rowsWalked_congr {fs fs' : Path → Option Data} {A O : ℕ} :
    ∀ fuel seg off : ℕ, (∀ i, seg ≤ i → fs' (.seg i) = fs (.seg i)) →
      rowsWalked fs' A O fuel seg off = rowsWalked fs A O fuel seg off
  | 0, _, _, _ => rfl
  | fuel + 1, seg, off, h => by
    rw [rowsWalked, rowsWalked, h seg le_rfl]
    cases fs (.seg seg) with
    | none => rfl
    | some b =>
      have hrest := rowsWalked_congr (A := A) (O := O) fuel (seg + 1) 0
        fun i hi => h i (by omega)
      simp only [hrest]

/-! ## Acknowledging -/

/-- In one file the rows before the first live one are passed, and the others are
read again from there. -/
theorem ackRows_eq_rowsRead {b : Data} {limit off : ℕ} (k : UInt32)
    (hlimit : Strides b limit) (hoff : off ≤ limit) :
    let rows := rowsRead b limit (b.length / 36 + 1) off
    let n := (rows.takeWhile fun r => ¬ Live k r).length
    ackRows k b limit (b.length / 36 + 1) off = (off + 36 * n, n) ∧ off + 36 * n ≤ limit ∧
      rowsRead b limit (b.length / 36 + 1) (off + 36 * n) =
        rows.dropWhile fun r => ¬ Live k r := by
  intro rows n
  have hrows : rows = QRow.codec.rowsIn b off limit :=
    rowsRead_eq_rowsIn hlimit _ _ hoff (rowFuel b off)
  have hn : n ≤ (min limit b.length - off) / 36 := by
    have hle := (List.takeWhile_prefix (l := rows) fun r => decide (¬ Live k r)).length_le
    rwa [hrows, QRow.codec.length_rowsIn, QRow.codec_size, ← hrows] at hle
  have hfit := Nat.mul_div_le (min limit b.length - off) 36
  have hend : off + 36 * n ≤ limit := by omega
  refine ⟨?_, hend, ?_⟩
  · rw [ackRows_eq k b limit hlimit _ _ hoff (rowFuel b off), ← hrows]
  · have hdrop : rows.drop n = rows.dropWhile fun r => ¬ Live k r := by
      conv_lhs => rw [← List.takeWhile_append_dropWhile (p := fun r => decide (¬ Live k r)) (l := rows)]
      exact List.drop_left
    rw [rowsRead_eq_rowsIn hlimit _ _ hend (rowFuel b _), ← hdrop, hrows]
    by_cases hz : n = 0
    · rw [hz]
      rfl
    · exact (QRow.codec.drop_rowsIn b limit n off (by rw [QRow.codec_size]; omega)).symm

/-- Closed segments hold whole rows, and no more than a segment takes. -/
def Whole (fs : Path → Option Data) (cs A : ℕ) : Prop :=
  ∀ i, cs ≤ i → i < A → ∃ b, fs (.seg i) = some b ∧ 36 ∣ b.length ∧ b.length ≤ 180000

/-- The segment loop of `ackThrough`: the rows before the first live one are passed,
and the others are met again from the new cursor. -/
theorem ackWalk_eq_rowsWalked {fs : Path → Option Data} {cs A O : ℕ} (k : UInt32)
    (hwhole : Whole fs cs A) (hO : O < 2 ^ 32)
    (hlimit : ∀ b, fs (.seg A) = some b → Strides b O) :
    ∀ fuel seg off consumed, cs ≤ seg → seg ≤ A → fuel = A + 1 - seg → 36 ∣ off → off < 2 ^ 32 →
      ∃ seg' off', ackWalk fs k A O fuel seg off consumed = (seg', off', consumed +
          ((rowsWalked fs A O fuel seg off).takeWhile fun r => ¬ Live k r).length) ∧
        seg ≤ seg' ∧ seg' ≤ A ∧ off' < 2 ^ 32 ∧
        rowsWalked fs A O (A + 1 - seg') seg' off' =
          (rowsWalked fs A O fuel seg off).dropWhile fun r => ¬ Live k r := by
  intro fuel
  induction fuel with
  | zero => intro seg off _ _ h2 h3; omega
  | succ fuel ih =>
    intro seg off consumed hcs hseg hfuel h36 hoff
    rw [ackWalk, rowsWalked, if_pos hseg, if_pos hseg]
    by_cases hA : seg = A
    · -- the active segment: the walk ends here
      subst hA
      have hone : seg + 1 - seg = 1 := by omega
      cases hfs : fs (.seg seg) with
      | none =>
        refine ⟨seg, off, rfl, le_rfl, le_rfl, hoff, ?_⟩
        rw [hone, rowsWalked, if_pos le_rfl, hfs]
        rfl
      | some b =>
        have hreadLimit : readLimit seg O seg b = O := if_pos rfl
        obtain ⟨hrows, hend, hrest⟩ := ackRows_eq_rowsRead k (hlimit b hfs) (min_le_right off O)
        simp only [hreadLimit, hrows, lt_irrefl, false_and, if_false, if_true]
        refine ⟨seg, _, rfl, le_rfl, le_rfl, lt_of_le_of_lt hend hO, ?_⟩
        rw [hone, rowsWalked, if_pos le_rfl, hfs]
        simp only [hreadLimit, if_true]
        rw [Nat.min_eq_left hend, hrest]
    · have hlt : seg < A := by omega
      obtain ⟨b, hfs, hb36, hb⟩ := hwhole seg hcs hlt
      have hreadLimit : readLimit A O seg b = b.length := if_neg hA
      obtain ⟨hrows, hend, hrest⟩ := ackRows_eq_rowsRead k (Strides.end b)
        (min_le_right off b.length)
      have hlen : (rowsRead b b.length (b.length / 36 + 1) (min off b.length)).length =
          (b.length - min off b.length) / 36 := by
        rw [rowsRead_eq_rowsIn (Strides.end b) _ _ (min_le_right _ _) (rowFuel _ _),
          QRow.codec.length_rowsIn, min_self, QRow.codec_size]
      simp only [hfs, hreadLimit, hrows, if_neg hA]
      set rows := rowsRead b b.length (b.length / 36 + 1) (min off b.length) with hrowsdef
      rw [List.takeWhile_append, List.dropWhile_append]
      have hmin : min off b.length + 36 * ((b.length - min off b.length) / 36) = b.length := by
        have hdiv : 36 ∣ b.length - min off b.length := by
          rcases min_choice off b.length with h | h
          · rw [h]
            exact Nat.dvd_sub hb36 h36
          · rw [h, Nat.sub_self]
            exact Nat.dvd_zero _
        rw [Nat.mul_div_cancel' hdiv]
        omega
      by_cases hall : (rows.takeWhile fun r => ¬ Live k r).length = rows.length
      · -- the closed segment is passed entirely
        have hdrop : rows.dropWhile (fun r => ¬ Live k r) = [] := by
          refine List.eq_nil_of_length_eq_zero ?_
          have hsum := congrArg List.length
            (List.takeWhile_append_dropWhile (p := fun r => decide (¬ Live k r)) (l := rows))
          rw [List.length_append] at hsum
          omega
        obtain ⟨seg', off', hwalk, h1, h2, h3, h4⟩ := ih (seg + 1) 0 (consumed + rows.length)
          (by omega) hlt (by omega) (Nat.dvd_zero _) (by omega)
        refine ⟨seg', off', ?_, by omega, h2, h3, ?_⟩
        · rw [if_pos hall, if_pos ⟨hlt, by rw [hall, hlen, hmin]⟩, hall, hwalk, List.length_append,
            Nat.add_assoc]
        · rw [hdrop, h4]
          rfl
      · have hle : (rows.takeWhile fun r => ¬ Live k r).length ≤ rows.length :=
          (List.takeWhile_prefix _).length_le
        have hdrop : rows.dropWhile (fun r => ¬ Live k r) ≠ [] := by
          intro hnil
          have hsum := congrArg List.length
            (List.takeWhile_append_dropWhile (p := fun r => decide (¬ Live k r)) (l := rows))
          rw [List.length_append, hnil, List.length_nil] at hsum
          exact hall hsum
        refine ⟨seg, _, ?_, le_rfl, hseg, lt_of_le_of_lt hend (by omega), ?_⟩
        · rw [if_neg hall, if_neg (fun h => ?_)]
          have hlt' : (rows.takeWhile fun r => ¬ Live k r).length < rows.length :=
            lt_of_le_of_ne hle hall
          rw [hlen] at hlt'
          have := h.2
          omega
        · rw [← hfuel, rowsWalked, if_pos hseg]
          simp only [hfs, hreadLimit, if_neg hA, Nat.min_eq_left hend, hrest]
          rw [if_neg (by simpa using hdrop)]

/-! ## Appending -/

/-- The files between the cursor and the write position are as the queue leaves them:
whole rows throughout, no segment missing, at most a row's worth of unconfirmed bytes
behind the write position, and nothing but such bytes where the next row will go. -/
structure Tidy (fs : Path → Option Data) (ack : AckRec) (t : Totalizer) : Prop where
  cursor_le : ack.cursorSegment.toNat ≤ t.cp.qSegment.toNat
  cursor : 36 ∣ ack.cursorOffset.toNat
  offset : 36 ∣ t.cp.qOffset.toNat
  behind : ack.cursorSegment.toNat = t.cp.qSegment.toNat →
    ack.cursorOffset.toNat ≤ t.cp.qOffset.toNat
  whole : Whole fs ack.cursorSegment.toNat t.cp.qSegment.toNat
  lower : t.cp.qOffset.toNat ≤ ((fs (.seg t.cp.qSegment.toNat)).getD []).length
  upper : ((fs (.seg t.cp.qSegment.toNat)).getD []).length ≤ t.cp.qOffset.toNat + 36
  full : 180000 ≤ t.cp.qOffset.toNat →
    ((fs (.seg t.cp.qSegment.toNat)).getD []).length = t.cp.qOffset.toNat ∧
      ((fs (.seg (t.cp.qSegment.toNat + 1))).getD []).length ≤ 36 ∧
      t.cp.qSegment.toNat + 1 < 2 ^ 32

/-- The cursor is at a row at or before the write position, no segment between the two
is missing, and the active one reaches the write position. -/
structure Ahead (fs : Path → Option Data) (ack : AckRec) (t : Totalizer) : Prop where
  cursor_le : ack.cursorSegment.toNat ≤ t.cp.qSegment.toNat
  cursor : 36 ∣ ack.cursorOffset.toNat
  offset : 36 ∣ t.cp.qOffset.toNat
  behind : ack.cursorSegment.toNat = t.cp.qSegment.toNat →
    ack.cursorOffset.toNat ≤ t.cp.qOffset.toNat
  present : ∀ i, ack.cursorSegment.toNat ≤ i → i < t.cp.qSegment.toNat → fs (.seg i) ≠ none
  lower : t.cp.qOffset.toNat ≤ ((fs (.seg t.cp.qSegment.toNat)).getD []).length

theorem Tidy.ahead {fs : Path → Option Data} {ack : AckRec} {t : Totalizer} (h : Tidy fs ack t) :
    Ahead fs ack t := by
  refine ⟨h.cursor_le, h.cursor, h.offset, h.behind, fun i h1 h2 => ?_, h.lower⟩
  obtain ⟨b, hb, -⟩ := h.whole i h1 h2
  rw [hb]
  simp

/-- The rows of the active segment from an offset on. -/
def activeRows (fs : Path → Option Data) (A O off : ℕ) : List QRow :=
  match fs (.seg A) with
  | none => []
  | some b => rowsRead b O (b.length / 36 + 1) (min off O)

/-- The closed segments contribute the same rows whatever the active one holds. -/
theorem rowsWalked_split (fs fs' : Path → Option Data) (A O O' : ℕ) :
    ∀ fuel seg off, seg ≤ A → fuel = A + 1 - seg →
      (∀ i, seg ≤ i → i < A → fs' (.seg i) = fs (.seg i)) →
      (∀ i, seg ≤ i → i < A → fs (.seg i) ≠ none) →
      ∃ l, rowsWalked fs A O fuel seg off = l ++ activeRows fs A O (if seg = A then off else 0) ∧
        rowsWalked fs' A O' fuel seg off = l ++ activeRows fs' A O' (if seg = A then off else 0) := by
  intro fuel
  induction fuel with
  | zero => intro seg off h1 h2; omega
  | succ fuel ih =>
    intro seg off hseg hfuel hsame hthere
    rw [rowsWalked, rowsWalked, if_pos hseg, if_pos hseg]
    by_cases hA : seg = A
    · subst hA
      refine ⟨[], ?_, ?_⟩
      · rw [if_pos rfl, List.nil_append, activeRows]
        cases fs (.seg seg) with
        | none => rfl
        | some b => simp only [readLimit, if_true]
      · rw [if_pos rfl, List.nil_append, activeRows]
        cases fs' (.seg seg) with
        | none => rfl
        | some b => simp only [readLimit, if_true]
    · obtain ⟨b, hb⟩ := Option.ne_none_iff_exists'.mp (hthere seg le_rfl (by omega))
      obtain ⟨l, h1, h2⟩ := ih (seg + 1) 0 (by omega) (by omega)
        (fun i hi => hsame i (by omega)) fun i hi => hthere i (by omega)
      rw [ite_self] at h1 h2
      rw [hsame seg le_rfl (by omega), hb]
      simp only [readLimit, if_neg hA, h1, h2, ← List.append_assoc]
      exact ⟨_, rfl, rfl⟩

/-- A full segment is closed and the next one opened with one row. -/
theorem rowsWalked_next {fs fs' : Path → Option Data} {A O : ℕ} {row : QRow}
    (hlen : ∃ b, fs (.seg A) = some b ∧ b.length = O)
    (hnext : fs' (.seg (A + 1)) = some (QRow.kind.bytes row)) :
    ∀ fuel seg off, seg ≤ A → fuel = A + 1 - seg →
      (∀ i, seg ≤ i → i ≤ A → fs' (.seg i) = fs (.seg i)) →
      (∀ i, seg ≤ i → i < A → fs (.seg i) ≠ none) →
      rowsWalked fs' (A + 1) 36 (fuel + 1) seg off = rowsWalked fs A O fuel seg off ++ [row] := by
  have hrow : rowsRead (QRow.kind.bytes row) 36 ((QRow.kind.bytes row).length / 36 + 1)
      (min 0 36) = [row] := by
    have hb : (QRow.kind.bytes row).length = 36 := QRow.kind.length_bytes row
    rw [rowsRead_eq_rowsIn (.inl (by omega)) _ _ (by omega) (rowFuel _ _)]
    have hone := QRow.codec.rowsIn_append_row [] row 0 le_rfl (Nat.dvd_zero _)
    rw [QRow.codec.rowsIn_of_lt (b := []) (by simp)] at hone
    exact hone
  intro fuel
  induction fuel with
  | zero => intro seg off h1 h2; omega
  | succ fuel ih =>
    intro seg off hseg hfuel hsame hthere
    conv_lhs => rw [rowsWalked, if_pos (by omega), hsame seg le_rfl hseg]
    conv_rhs => rw [rowsWalked, if_pos hseg]
    have hne : seg ≠ A + 1 := by omega
    by_cases hA : seg = A
    · subst hA
      obtain ⟨b, hb, rfl⟩ := hlen
      obtain rfl : fuel = 0 := by omega
      rw [hb]
      simp only [readLimit, if_neg hne, if_true]
      rw [rowsWalked, if_pos le_rfl, hnext]
      simp only [readLimit, if_true]
      rw [hrow]
    · obtain ⟨b, hb⟩ := Option.ne_none_iff_exists'.mp (hthere seg le_rfl (by omega))
      rw [hb]
      simp only [readLimit, if_neg hne, if_neg hA]
      rw [ih (seg + 1) 0 (by omega) (by omega) (fun i hi => hsame i (by omega))
        (fun i hi => hthere i (by omega)), List.append_assoc]

section Tidy

variable {ε : Type} {E : Env ε} {w w' : World ε} {q : EventQueue} {t : Totalizer}

/-- What the active segment contributes does not depend on what stands behind the
write position. -/
theorem activeRows_eq (fs : Path → Option Data) {A O : ℕ}
    (hlen : O ≤ ((fs (.seg A)).getD []).length) (hO : O + 36 < 2 ^ 32) (off : ℕ) :
    activeRows fs A O off =
      QRow.codec.rowsIn (((fs (.seg A)).getD []).take O) (min off O) O := by
  rw [activeRows]
  cases hfs : fs (.seg A) with
  | none =>
    rw [hfs, Option.getD_none, List.length_nil] at hlen
    rw [Option.getD_none, List.take_nil, QRow.codec.rowsIn_of_lt]
    rw [QRow.codec_size]
    simp
  | some b =>
    rw [hfs, Option.getD_some] at hlen
    have htake : (b.take O).length = O := by
      rw [List.length_take]
      omega
    have hsplit := QRow.codec.rowsIn_append_left (b.take O) (b.drop O) (min off O) htake.ge
    rw [List.take_append_drop] at hsplit
    simp only [Option.getD_some]
    rw [rowsRead_eq_rowsIn (.inl hO) _ _ (min_le_right _ _) (rowFuel _ _), hsplit]

/-- The row stands behind the confirmed bytes and the write position moves over it. -/
theorem Ahead.append_here {ack : AckRec} {fs fs' : Path → Option Data} (h : Ahead fs ack t)
    (hroom : t.cp.qOffset.toNat < 180000)
    (hother : ∀ i, i ≠ t.cp.qSegment.toNat → fs' (.seg i) = fs (.seg i)) {row : QRow}
    (hA : fs' (.seg t.cp.qSegment.toNat) = some
      (((fs (.seg t.cp.qSegment.toNat)).getD []).take t.cp.qOffset.toNat ++ QRow.kind.bytes row))
    {t' : Totalizer} (hseg : t'.cp.qSegment = t.cp.qSegment)
    (hoff : t'.cp.qOffset.toNat = t.cp.qOffset.toNat + 36) :
    confirmedRows fs' ack t' = confirmedRows fs ack t ++ [row] := by
  have hlower := h.lower
  obtain ⟨l, h1, h2⟩ := rowsWalked_split fs fs' t.cp.qSegment.toNat
    t.cp.qOffset.toNat (t.cp.qOffset.toNat + 36) _ _ ack.cursorOffset.toNat h.cursor_le rfl (fun i _ hi => hother i (by omega)) h.present
  set off := if ack.cursorSegment.toNat = t.cp.qSegment.toNat then ack.cursorOffset.toNat else 0
    with hoffdef
  have hle : off ≤ t.cp.qOffset.toNat := by
    rw [hoffdef]
    split
    · next hc => exact h.behind hc
    · exact Nat.zero_le _
  have hdvd : 36 ∣ off := by
    rw [hoffdef]
    split
    · exact h.cursor
    · exact Nat.dvd_zero _
  set B := ((fs (.seg t.cp.qSegment.toNat)).getD []).take t.cp.qOffset.toNat with hB
  have hBlen : B.length = t.cp.qOffset.toNat := by
    rw [hB, List.length_take]
    omega
  have hrowlen : (QRow.kind.bytes row).length = 36 := QRow.kind.length_bytes row
  have hnew : activeRows fs' t.cp.qSegment.toNat (t.cp.qOffset.toNat + 36) off =
      activeRows fs t.cp.qSegment.toNat t.cp.qOffset.toNat off ++ [row] := by
    rw [activeRows_eq fs hlower (by omega), ← hB, activeRows_eq fs' ?_ (by omega), hA,
      Option.getD_some, List.take_of_length_le (by rw [List.length_append, hBlen, hrowlen]),
      Nat.min_eq_left hle, Nat.min_eq_left (by omega)]
    · have hrow := QRow.codec.rowsIn_append_row B row off (hBlen ▸ hle)
        (hBlen.symm ▸ Nat.dvd_sub h.offset hdvd)
      rw [hBlen] at hrow
      exact hrow
    · rw [hA, Option.getD_some, List.length_append, hBlen, hrowlen]
  rw [confirmedRows, confirmedRows, Totalizer.queueOffsetSegment, Totalizer.queueOffsetSegment,
    Totalizer.queueOffsetOffset, Totalizer.queueOffsetOffset, hseg, hoff, h1, h2, hnew,
    List.append_assoc]

/-- The active segment is full and the row is the first of the next one. -/
theorem Ahead.append_next {ack : AckRec} {fs fs' : Path → Option Data} (h : Ahead fs ack t)
    (hfull : 180000 ≤ t.cp.qOffset.toNat)
    (hlen : ((fs (.seg t.cp.qSegment.toNat)).getD []).length = t.cp.qOffset.toNat)
    (hother : ∀ i, i ≠ t.cp.qSegment.toNat + 1 → fs' (.seg i) = fs (.seg i)) {row : QRow}
    (hA : fs' (.seg (t.cp.qSegment.toNat + 1)) = some (QRow.kind.bytes row))
    {t' : Totalizer} (hseg : t'.cp.qSegment.toNat = t.cp.qSegment.toNat + 1)
    (hoff : t'.cp.qOffset.toNat = 36) :
    confirmedRows fs' ack t' = confirmedRows fs ack t ++ [row] := by
  have hthere : ∃ b, fs (.seg t.cp.qSegment.toNat) = some b ∧ b.length = t.cp.qOffset.toNat := by
    cases hfs : fs (.seg t.cp.qSegment.toNat) with
    | none =>
      rw [hfs, Option.getD_none, List.length_nil] at hlen
      omega
    | some b =>
      rw [hfs, Option.getD_some] at hlen
      exact ⟨b, rfl, hlen⟩
  have hcs := h.cursor_le
  have hnext := rowsWalked_next hthere hA _ ack.cursorSegment.toNat ack.cursorOffset.toNat hcs rfl
    (fun i _ hi => hother i (by omega)) h.present
  have hfuel : t.cp.qSegment.toNat + 1 + 1 - ack.cursorSegment.toNat =
      t.cp.qSegment.toNat + 1 - ack.cursorSegment.toNat + 1 := by omega
  rw [confirmedRows, confirmedRows, Totalizer.queueOffsetSegment, Totalizer.queueOffsetSegment,
    Totalizer.queueOffsetOffset, Totalizer.queueOffsetOffset, hseg, hoff, hfuel, hnext]

/-- Bytes behind the write position, and the next segment, do not matter. -/
theorem Ahead.confirmedRows_eq {ack : AckRec} {fs fs' : Path → Option Data} (h : Ahead fs ack t)
    (hother : ∀ i, i < t.cp.qSegment.toNat → fs' (.seg i) = fs (.seg i))
    (hA : fs' (.seg t.cp.qSegment.toNat) = fs (.seg t.cp.qSegment.toNat) ∨
      (t.cp.qOffset.toNat < 180000 ∧ ∃ junk, fs' (.seg t.cp.qSegment.toNat) = some
        (((fs (.seg t.cp.qSegment.toNat)).getD []).take t.cp.qOffset.toNat ++ junk))) :
    confirmedRows fs' ack t = confirmedRows fs ack t := by
  have hlower := h.lower
  obtain ⟨l, h1, h2⟩ := rowsWalked_split fs fs' t.cp.qSegment.toNat
    t.cp.qOffset.toNat t.cp.qOffset.toNat _ _ ack.cursorOffset.toNat h.cursor_le rfl (fun i _ hi => hother i hi) h.present
  have hsame : ∀ off, activeRows fs' t.cp.qSegment.toNat t.cp.qOffset.toNat off =
      activeRows fs t.cp.qSegment.toNat t.cp.qOffset.toNat off := by
    intro off
    rcases hA with hA | ⟨hroom, junk, hA⟩
    · rw [activeRows, activeRows, hA]
    · have hlen : (((fs (.seg t.cp.qSegment.toNat)).getD []).take t.cp.qOffset.toNat).length =
          t.cp.qOffset.toNat := by
        rw [List.length_take]
        omega
      rw [activeRows_eq fs hlower (by omega), activeRows_eq fs' ?_ (by omega), hA,
        Option.getD_some, List.take_left' hlen]
      rw [hA, Option.getD_some, List.length_append, hlen]
      exact Nat.le_add_right _ _
  rw [confirmedRows, confirmedRows, Totalizer.queueOffsetSegment, Totalizer.queueOffsetOffset, h1,
    h2, hsame]

/-! ### The routines -/

/-- What a failed append leaves as it was, and the count it moves. -/
structure FailedAppend (w w' : World ε) (q q' : EventQueue) : Prop where
  ack : q'.ack = q.ack
  unackedCount : q'.unackedCount = q.unackedCount
  failedWriteCount : q'.fail.failedWriteCount = q.fail.failedWriteCount + 1
  checkpoint : ∀ b, w'.file (.tot b) = w.file (.tot b)

/-- `append` at a position with at most a row's worth of bytes behind it, whichever of
its calls fail: the row is in place and the position moves over it, or nothing but
unconfirmed bytes has changed. -/
theorem wp_append_any {row : QRow} {Q : EventQueue × Totalizer → World ε → Prop} {s : ℕ}
    {B tail : Data} (htarget : target t = (s, B.length)) (hold : w.old (.seg s) = B ++ tail)
    (htail : tail.length ≤ 36)
    (hfail : ∀ w1 w' q', Unconfirmed w w1 s B → (∀ i, w'.file (.seg i) = w1.file (.seg i)) →
      FailedAppend w w' q q' → Q (q', t) w')
    (hok : ∀ w1 w' t', Unconfirmed w w1 s B →
      w1.file (.seg s) = some (B ++ QRow.kind.bytes (QRow.kind.stamp row)) →
      (∀ i, w'.file (.seg i) = w1.file (.seg i)) → t'.cp.qSegment = .ofNat s →
      t'.cp.qOffset = .ofNat (B.length + 36) → t'.cp.writes = t.cp.writes + 1 →
      Q ({ q with unackedCount := q.unackedCount + 1 }, t') w') :
    wp (sem E) (q.append t row) Q (fun _ => True) w := by
  have hself : Unconfirmed w w s B := ⟨SameSlots.refl w, fun _ _ => rfl, .inl rfl⟩
  have hbytes : (QRow.kind.bytes (QRow.kind.stamp row)).length = 36 := QRow.kind.length_bytes _
  have hopen : Unconfirmed w (w.set (.seg s) (some (B ++ tail))) s B := hself.set tail htail
  -- a failure is recorded away from the segments
  have hrecord : ∀ code w1, Unconfirmed w w1 s B →
      wp (sem E) (q.recordWriteFailure code) (fun q' w' => Q (q', t) w') (fun _ => True) w1 := by
    intro code w1 h1
    refine wp_recordWriteFailure trivial fun fail _ hcount => ?_
    have hslots : ∀ b, w1.file (.tot b) = w.file (.tot b) := fun b => h1.slots.file _ (by simp)
    refine Slots.wp_persist trivial (fun _ _ => trivial) ⟨trivial, ?_⟩ fun _ _ _ c _ => ?_
    · refine hfail w1 _ _ h1 (fun i => ?_) ⟨rfl, rfl, hcount, fun b => ?_⟩
      · rw [World.file_write, Function.update_of_ne (by simp [failSlots])]
      · rw [World.file_write, Function.update_of_ne (by simp [failSlots]), hslots]
    · refine hfail w1 _ _ h1 (fun i => ?_) ⟨rfl, rfl, hcount, fun b => ?_⟩
      · rw [World.file_set, Function.update_of_ne (by simp [failSlots])]
      · rw [World.file_set, Function.update_of_ne (by simp [failSlots]), hslots]
  -- from here on the segment holds the confirmed bytes only
  have hwrite : ∀ K : Option ℕ → Fw (EventQueue × Totalizer),
      K none = (q.recordWriteFailure .writeShort >>= fun q' => .ret (q', t)) →
      (∀ j, j ≠ 36 → K (some j) = (q.recordWriteFailure .writeShort >>= fun q' => .ret (q', t))) →
      K (some 36) = (t.setQueueOffset (.ofNat s) (.ofNat (B.length + 36)) >>= fun t' =>
        .ret ({ q with unackedCount := q.unackedCount + 1 }, t')) →
      ∀ w1, Unconfirmed w w1 s B → w1.file (.seg s) = some B →
      wp (sem E) (.call (.appendWrite (.seg s) (QRow.kind.bytes (QRow.kind.stamp row))) K)
        Q (fun _ => True) w1 := by
    intro K hnone hshort hwhole w1 h1 hB
    have hold1 : w1.old (.seg s) = B := by rw [World.old, hB, Option.getD_some]
    refine wp_appendWrite trivial (fun _ _ _ => trivial) ?_ (fun _ => ?_) fun _ j hj => ?_
    · rw [hbytes, hwhole, hold1]
      have hset := h1.set (QRow.kind.bytes (QRow.kind.stamp row)) hbytes.le
      refine wp_map (Totalizer.wp_persist ?_)
      refine Slots.wp_persist trivial (fun _ _ => trivial) ⟨trivial, ?_⟩ fun _ _ _ c _ => ?_
      · refine hok _ _ _ hset (by simp) (fun i => ?_) rfl rfl rfl
        rw [World.file_write, Function.update_of_ne (by simp [ckptSlots])]
      · refine hok _ _ _ hset (by simp) (fun i => ?_) rfl rfl rfl
        rw [World.file_set, Function.update_of_ne (by simp [ckptSlots])]
    · rw [hnone]
      exact wp_map (hrecord _ _ h1)
    · rw [hshort j (by omega), hold1]
      refine wp_map (hrecord _ _ (h1.set _ ?_))
      rw [List.length_take]
      omega
  simp only [append, htarget, Fw.appendOpenSize_bind, Fw.appendWrite_bind, Prog.pure_eq_ret]
  refine wp_appendOpenSize trivial trivial ?_ fun _ => wp_map (hrecord _ _ hself)
  rw [hold]
  refine wp_bind (wp_reconcile_any (by simp) htail trivial (fun _ _ => trivial) (fun hnil => ?_)
    ?_ fun _ => wp_map (hrecord _ _ hopen))
  · refine hwrite _ rfl (fun j hj => if_pos hj) (if_neg (by simp)) _ hopen ?_
    rw [hnil, List.append_nil]
    simp
  · refine hwrite _ rfl (fun j hj => if_pos hj) (if_neg (by simp)) _ ?_ (by simp)
    have hcutoff := hopen.set [] (by simp)
    rw [List.append_nil] at hcutoff
    exact hcutoff

/-- **`append` to tidy files** adds the row to the confirmed rows or leaves them as
they are. -/
theorem Tidy.wp_append (h : Tidy w.file q.ack t) {row : QRow}
    {Q : EventQueue × Totalizer → World ε → Prop}
    (hfail : ∀ w' q', q'.ack = q.ack → q'.unackedCount = q.unackedCount →
      confirmedRows w'.file q.ack t = confirmedRows w.file q.ack t → Q (q', t) w')
    (hok : ∀ w' t', confirmedRows w'.file q.ack t' =
        confirmedRows w.file q.ack t ++ [QRow.kind.stamp row] →
      Q ({ q with unackedCount := q.unackedCount + 1 }, t') w') :
    wp (sem E) (q.append t row) Q (fun _ => True) w := by
  by_cases hfull : 180000 ≤ t.cp.qOffset.toNat
  · obtain ⟨hlen, hnext, hlt⟩ := h.full hfull
    have htarget : target t = (t.cp.qSegment.toNat + 1, ([] : Data).length) := by
      rw [target, Totalizer.queueOffsetOffset, if_pos (by exact hfull),
        Totalizer.queueOffsetSegment, u32_of_lt hlt, List.length_nil]
    have hothers : ∀ {w1 w' : World ε}, Unconfirmed w w1 (t.cp.qSegment.toNat + 1) [] →
        (∀ i, w'.file (.seg i) = w1.file (.seg i)) → ∀ i, i ≠ t.cp.qSegment.toNat + 1 →
        w'.file (.seg i) = w.file (.seg i) := fun h1 h' i hi => (h' i).trans (h1.others i hi)
    refine wp_append_any htarget (List.nil_append _).symm hnext (fun w1 w' q' h1 h' hleft => ?_)
      fun w1 w' t' h1 hrow h' hseg hoff _ => ?_
    · refine hfail w' q' hleft.ack hleft.unackedCount (h.ahead.confirmedRows_eq (fun i hi => ?_) (.inl ?_))
      · exact hothers h1 h' i (by omega)
      · exact hothers h1 h' _ (by omega)
    · refine hok w' t' (h.ahead.append_next hfull hlen (hothers h1 h') ?_ ?_ ?_)
      · rw [h', hrow, List.nil_append]
      · rw [hseg]
        exact u32_ofNat (by simpa using hlt)
      · rw [hoff]
        exact u32_ofNat (by simp)
  · have hlower := h.lower
    have hupper := h.upper
    set b := (w.file (.seg t.cp.qSegment.toNat)).getD [] with hb
    have hBlen : (b.take t.cp.qOffset.toNat).length = t.cp.qOffset.toNat := by
      rw [List.length_take]
      omega
    have htarget : target t = (t.cp.qSegment.toNat, (b.take t.cp.qOffset.toNat).length) := by
      rw [target, Totalizer.queueOffsetOffset, if_neg (by exact hfull),
        Totalizer.queueOffsetSegment, hBlen]
    have htail : (b.drop t.cp.qOffset.toNat).length ≤ 36 := by
      rw [List.length_drop]
      omega
    refine wp_append_any htarget (List.take_append_drop _ _).symm htail
      (fun w1 w' q' h1 h' hleft => ?_) fun w1 w' t' h1 hrow h' hseg hoff _ => ?_
    · refine hfail w' q' hleft.ack hleft.unackedCount (h.ahead.confirmedRows_eq (fun i hi => ?_) ?_)
      · exact (h' i).trans (h1.others i (by omega))
      · rw [h', ← hb]
        rcases h1.tail with htail | ⟨junk, -, htail⟩
        · exact .inl htail
        · exact .inr ⟨by omega, junk, htail⟩
    · refine hok w' t' (h.ahead.append_here (by omega) (fun i hi => (h' i).trans (h1.others i hi)) ?_ ?_ ?_)
      · rw [h', hrow]
      · rw [hseg]
        exact UInt32.ofNat_toNat
      · rw [hoff, hBlen]
        exact u32_ofNat (by omega)

/-- **`ackThrough` on tidy files** drops the rows before the first live one, and counts
them. -/
theorem Tidy.wp_ackThrough (h : Tidy w.file q.ack t) {k bootId : UInt32}
    {Q : EventQueue → World ε → Prop} (hold : k ≤ q.ack.ackedSeq → Q q w)
    (hnew : q.ack.ackedSeq < k → ∀ w' ack',
      let n := ((confirmedRows w.file q.ack t).takeWhile fun r => ¬ Live k r).length
      ack'.ackedSeq = k →
      confirmedRows w'.file ack' t =
        (confirmedRows w.file q.ack t).dropWhile (fun r => ¬ Live k r) →
      Q { q with
        ack := ack'
        unackedCount := if n ≤ q.unackedCount.toNat then q.unackedCount - .ofNat n else 0 } w') :
    wp (sem E) (q.ackThrough t k bootId) Q (fun _ => True) w := by
  have hlimit : ∀ b, w.file (.seg t.cp.qSegment.toNat) = some b →
      Strides b t.cp.qOffset.toNat := by
    intro b hb
    by_cases hfull : 180000 ≤ t.cp.qOffset.toNat
    · have hlen := (h.full hfull).1
      rw [hb, Option.getD_some] at hlen
      exact .inr (.inl hlen.le)
    · exact .inl (by omega)
  obtain ⟨seg', off', hwalk, h1, h2, h3, h4⟩ := ackWalk_eq_rowsWalked k h.whole
    t.cp.qOffset.toNat_lt hlimit _ q.ack.cursorSegment.toNat q.ack.cursorOffset.toNat 0 le_rfl
    h.cursor_le rfl h.cursor q.ack.cursorOffset.toNat_lt
  rw [Nat.zero_add] at hwalk
  refine wp_ackThrough_moves hold fun hk seg off n hcur w' ack' hack hs ho hfile => ?_
  obtain ⟨rfl, rfl, rfl⟩ : seg' = seg ∧ off' = off ∧ _ = n := by
    simpa only [Prod.mk.injEq] using hwalk.symm.trans hcur
  refine hnew hk w' ack' hack ?_
  have hseg' : ack'.cursorSegment.toNat = seg' := by
    rw [hs]
    exact u32_ofNat (lt_of_le_of_lt h2 t.cp.qSegment.toNat_lt)
  have hoff' : ack'.cursorOffset.toNat = off' := by
    rw [ho]
    exact u32_ofNat h3
  rw [confirmedRows, Totalizer.queueOffsetSegment, Totalizer.queueOffsetOffset, hseg', hoff']
  -- the segments the cursor crossed are not read any more
  exact (rowsWalked_congr _ _ _ fun i hi => (hfile i).trans (if_neg (by omega))).trans h4

end Tidy

end EventQueue
end Device
end CovioFirmware
