import CovioFirmware.Queue.Backlog
import CovioFirmware.Queue.Filling

/-!
# What an acknowledgement does to the queue

`ackThrough` walks the rows `pending` walks, with other rules for stopping: it stops
at the first live row, and it stays in a closed segment it could not read to the last
byte.  Wherever it stops, only rows that are not live have been passed
(`ackWalk_live`), so an unbounded `pending` loses the acknowledged rows and nothing
else (`pending_ackThrough`).

Staying in a closed segment is another matter.  A closed file whose size leaves part
of a row behind keeps the cursor, and with it every later segment.  So an
acknowledgement of everything reclaims everything exactly when no closed segment has
such a tail (`full_ack_reclaims_iff`).
-/

namespace CovioFirmware
namespace Device

open Crash Bytes

namespace EventQueue

/-! ## Only rows that are not live are passed -/

theorem filter_dropWhile_live (k : UInt32) (l : List QRow) :
    (l.dropWhile fun r => ¬ Live k r).filter (fun r => Live k r) =
      l.filter fun r => Live k r := by
  have hnone : (l.takeWhile fun r => ¬ Live k r).filter (fun r => Live k r) = [] := by
    refine List.filter_eq_nil_iff.mpr fun r hr => ?_
    simpa using List.mem_takeWhile_imp hr
  conv_rhs => rw [← List.takeWhile_append_dropWhile (p := fun r => decide (¬ Live k r)) (l := l)]
  rw [List.filter_append, hnone, List.nil_append]

section Walk

variable {fs : Path → Option Data} {A O : ℕ}

/-- A file that is there contributes its rows, and the next segment unless it is the
active one. -/
theorem rowsWalked_here {seg : ℕ} (hseg : seg ≤ A) {b : Data} (hfs : fs (.seg seg) = some b)
    (fuel off : ℕ) :
    rowsWalked fs A O (fuel + 1) seg off =
      rowsRead b (readLimit A O seg b) (b.length / 36 + 1) (min off (readLimit A O seg b)) ++
        if seg = A then [] else rowsWalked fs A O fuel (seg + 1) 0 := by
  rw [rowsWalked, if_pos hseg, hfs]
  by_cases hA : seg = A
  · simp only [if_pos hA, List.append_nil]
  · simp only [if_neg hA]

/-- How far a reader may read in a file that is there. -/
theorem readLimit_lt (hO : O < 2 ^ 32) {seg : ℕ} {b : Data} (hb : b.length < 2 ^ 32) :
    readLimit A O seg b < 2 ^ 32 := by
  rw [readLimit]
  split
  · exact hO
  · exact hb

/-- **The live rows from the walk's end on are the live rows from its start on.** -/
theorem ackWalk_live (k : UInt32) (hO : O < 2 ^ 32)
    (hsize : ∀ i b, fs (.seg i) = some b → b.length < 2 ^ 32) :
    ∀ fuel seg off consumed, fuel = A + 1 - seg → off < 2 ^ 32 →
      let r := ackWalk fs k A O fuel seg off consumed
      r.2.1 < 2 ^ 32 ∧
        (rowsWalked fs A O (A + 1 - r.1) r.1 r.2.1).filter (fun r => Live k r) =
          (rowsWalked fs A O fuel seg off).filter fun r => Live k r := by
  intro fuel
  induction fuel with
  | zero =>
    intro seg off consumed hfuel hoff
    exact ⟨hoff, by rw [ackWalk, ← hfuel]⟩
  | succ fuel ih =>
    intro seg off consumed hfuel hoff
    have hseg : seg ≤ A := by omega
    cases hfs : fs (.seg seg) with
    | none =>
      simp only [ackWalk, if_pos hseg, hfs]
      exact ⟨hoff, by rw [hfuel]⟩
    | some b =>
      have hb := hsize seg b hfs
      have hlimit : readLimit A O seg b < 2 ^ 32 := readLimit_lt hO hb
      obtain ⟨hrows, hend, hrest⟩ := ackRows_eq_rowsRead k (.inr (.inr hb))
        (min_le_right off (readLimit A O seg b))
      simp only [ackWalk, if_pos hseg, hfs, hrows]
      split
      · next hnext =>
        -- a closed segment is left behind: none of its rows is live
        obtain ⟨h1, h2⟩ := ih (seg + 1) 0 (consumed + _) (by omega) (by omega)
        refine ⟨h1, h2.trans ?_⟩
        rw [Nat.le_antisymm hend hnext.2, rowsRead_eq_rowsIn (.inr (.inr hb)) _ _ le_rfl
          (rowFuel b _), QRow.codec.rowsIn_of_lt (by rw [QRow.codec_size]; omega)] at hrest
        have hnone : (rowsRead b (readLimit A O seg b) (b.length / 36 + 1)
            (min off (readLimit A O seg b))).filter (fun r => Live k r) = [] := by
          rw [← filter_dropWhile_live, ← hrest, List.filter_nil]
        rw [rowsWalked_here hseg hfs, if_neg (by omega), List.filter_append, hnone, List.nil_append]
      · refine ⟨lt_of_le_of_lt hend hlimit, ?_⟩
        rw [← hfuel, rowsWalked_here hseg hfs, rowsWalked_here hseg hfs, Nat.min_eq_left hend,
          hrest, List.filter_append, List.filter_append, filter_dropWhile_live]

end Walk

/-- **`ackThrough` and `pending` agree.**  Whatever the flash holds and whichever
storage calls fail, the acknowledgement takes the rows it covers out of an unbounded
`pending`, and leaves the others in their order. -/
theorem pending_ackThrough {ε : Type} (E : Env ε) (w : World ε) (q : EventQueue) (t : Totalizer)
    (k bootId : UInt32) (hsize : ∀ i b, w.file (.seg i) = some b → b.length < 2 ^ 32) (N : ℕ)
    (hN : (q.pending w.file t N).length < N) (q' : EventQueue) (w' : World ε)
    (hrun : Runs (sem E) (q.ackThrough t k bootId) w q' w') :
    q'.pending w'.file t N = (q.pending w.file t N).filter fun r => k < r.seq := by
  have hlive := pending_unbounded hN
  revert hrun
  refine fun hrun => wp.runs (wp_ackThrough_moves (Q := fun q' w' =>
    q'.pending w'.file t N = (q.pending w.file t N).filter fun r => k < r.seq) ?_ ?_) hrun
  · -- an old acknowledgement covers nothing that is pending
    intro hold
    refine (List.filter_eq_self.mpr fun r hr => decide_eq_true ?_).symm
    rw [hlive, liveRows, List.mem_filter] at hr
    exact UInt32.lt_of_le_of_lt hold (of_decide_eq_true hr.2).2
  · intro hk seg off n hcur w' ack' hack hs ho hfile
    obtain ⟨hoff, hrows⟩ := ackWalk_live k t.cp.qOffset.toNat_lt hsize _
      q.ack.cursorSegment.toNat _ 0 rfl q.ack.cursorOffset.toNat_lt
    obtain ⟨-, hle, -⟩ := ackWalk_crosses w.file k t.cp.qSegment.toNat t.cp.qOffset.toNat
      (t.cp.qSegment.toNat + 1 - q.ack.cursorSegment.toNat) q.ack.cursorSegment.toNat
      q.ack.cursorOffset.toNat 0
    have hwalk : ackWalk w.file k t.cp.qSegment.toNat t.cp.qOffset.toNat
      (t.cp.qSegment.toNat + 1 - q.ack.cursorSegment.toNat) q.ack.cursorSegment.toNat
      q.ack.cursorOffset.toNat 0 = (seg, off, n) := hcur
    rw [hwalk] at hoff hrows hle
    have hseg' : ack'.cursorSegment.toNat = seg := by
      rw [hs]
      exact u32_ofNat (lt_of_le_of_lt hle (max_lt q.ack.cursorSegment.toNat_lt t.cp.qSegment.toNat_lt))
    have hoff' : ack'.cursorOffset.toNat = off := by
      rw [ho]
      exact u32_ofNat hoff
    have hafter : confirmedRows w'.file ack' t =
        rowsWalked w.file t.cp.qSegment.toNat t.cp.qOffset.toNat (t.cp.qSegment.toNat + 1 - seg)
          seg off := by
      rw [confirmedRows, hseg', hoff']
      exact rowsWalked_congr _ _ _ fun i hi => (hfile i).trans (if_neg (by omega))
    have hfilter : (liveRows w.file q.ack t).filter (fun r => k < r.seq) =
        (confirmedRows w.file q.ack t).filter fun r => Live k r := by
      rw [liveRows, List.filter_filter]
      refine List.filter_congr fun r _ => ?_
      rw [← Bool.decide_and, decide_eq_decide]
      exact ⟨fun h => ⟨h.2.1, h.1⟩, fun h => ⟨h.2, h.1, UInt32.lt_trans hk h.2⟩⟩
    have hnew : liveRows w'.file ack' t = (liveRows w.file q.ack t).filter fun r => k < r.seq := by
      rw [hfilter, liveRows, hack, hafter]
      exact hrows
    rw [hlive, ← hnew, pending_eq_liveRows]
    refine List.take_of_length_le ?_
    change (liveRows w'.file ack' t).length ≤ N
    rw [hnew, ← hlive]
    exact (List.length_filter_le _ _).trans hN.le

/-- A closed segment with the given bytes, and an active one that is empty. -/
def closedThenEmpty (b : Data) : World Unit :=
  (fresh.set (.seg 0) (some b)).set (.seg 1) (some [])

theorem file_closedThenEmpty {b c : Data} {i : ℕ}
    (h : (closedThenEmpty b).file (.seg i) = some c) : (i = 0 ∧ c = b) ∨ (i = 1 ∧ c = []) := by
  simp only [closedThenEmpty, World.file_set] at h
  by_cases h1 : i = 1
  · subst h1
    rw [Function.update_self] at h
    exact .inr ⟨rfl, (Option.some.inj h).symm⟩
  · rw [Function.update_of_ne (by simpa using h1)] at h
    by_cases h0 : i = 0
    · subst h0
      rw [Function.update_self] at h
      exact .inl ⟨rfl, (Option.some.inj h).symm⟩
    · rw [Function.update_of_ne (by simpa using h0)] at h
      cases h

theorem lt_of_closedThenEmpty {b : Data} (hb : b.length < 2 ^ 32) :
    ∀ i c, (closedThenEmpty b).file (.seg i) = some c → c.length < 2 ^ 32 := by
  intro i c hc
  rcases file_closedThenEmpty hc with ⟨-, rfl⟩ | ⟨-, rfl⟩
  · exact hb
  · decide

/-- The only row of a queue is acknowledged. -/
theorem pending_ackThrough_firstRow :
    ∃ q' w', Runs (sem Env.calm) (unacknowledged.ackThrough (writingAt 1 0) 1 0)
        (closedThenEmpty firstRowBytes) q' w' ∧
      q'.pending w'.file (writingAt 1 0) 2 = [] := by
  have hrun := execute_runs (unacknowledged.ackThrough (writingAt 1 0) 1 0)
    (closedThenEmpty firstRowBytes)
  have hsize := lt_of_closedThenEmpty (b := firstRowBytes) (by rw [length_firstRowBytes]; decide)
  refine ⟨_, _, hrun, ?_⟩
  rw [pending_ackThrough Env.calm (closedThenEmpty firstRowBytes) unacknowledged (writingAt 1 0) 1 0
    hsize 2 (by decide +kernel) _ _ hrun]
  decide +kernel

/-! ## A full acknowledgement -/

/-- `k` is at least the seq of every valid row of the file. -/
def Covers (k : UInt32) (b : Data) : Prop :=
  ∀ r ∈ QRow.codec.rowsIn b 0 b.length, r.intact = true → r.seq ≤ k

/-- Where everything is covered, the row loop passes every row there is. -/
theorem ackRows_of_covers {k : UInt32} {b : Data} {limit off : ℕ} (hcover : Covers k b)
    (hb : b.length < 2 ^ 32) (hlimit : limit ≤ b.length) (h36 : 36 ∣ off) :
    (ackRows k b limit (b.length / 36 + 1) (min off limit)).1 =
      min off limit + 36 * ((limit - min off limit) / 36) := by
  have hpass : ∀ r ∈ QRow.codec.rowsIn b (min off limit) limit, ¬ Live k r := by
    intro r hr hlive
    rcases Nat.lt_or_ge off limit with hlt | hge
    · -- an offset that is not clamped is a row's, so the rows are rows of the file
      rw [Nat.min_eq_left hlt.le] at hr
      obtain ⟨m, rfl⟩ := h36
      obtain ⟨j, hj, rfl⟩ := List.mem_map.mp hr
      have hmem : QRow.codec.dec ((b.drop (36 * m + QRow.codec.size * j)).take QRow.codec.size) ∈
          QRow.codec.rowsIn b 0 b.length := by
        refine List.mem_map.mpr ⟨m + j, ?_, ?_⟩
        · rw [List.mem_range, QRow.codec_size] at hj ⊢
          omega
        · rw [QRow.codec_size, Nat.mul_add, Nat.zero_add]
      exact absurd hlive.2 (UInt32.not_lt.mpr (hcover _ hmem hlive.1))
    · rw [Nat.min_eq_right hge, QRow.codec.rowsIn_of_lt (by rw [QRow.codec_size]; omega)] at hr
      cases hr
  have hall : (QRow.codec.rowsIn b (min off limit) limit).takeWhile (fun r => ¬ Live k r) =
      QRow.codec.rowsIn b (min off limit) limit :=
    List.takeWhile_eq_self_iff.mpr fun r hr => decide_eq_true (hpass r hr)
  rw [ackRows_eq k b limit (.inr (.inr hb)) _ _ (min_le_right _ _) (rowFuel b _), hall,
    QRow.codec.length_rowsIn, QRow.codec_size, Nat.min_eq_left hlimit]

/-- **The walk of a full acknowledgement** arrives at the write position exactly when
no closed segment on its way ends in part of a row. -/
theorem ackWalk_covers {fs : Path → Option Data} {A O : ℕ} (k : UInt32) (hO : 36 ∣ O)
    (hactive : ∀ b, fs (.seg A) = some b → O ≤ b.length) :
    ∀ fuel seg off consumed, seg ≤ A → fuel = A + 1 - seg → 36 ∣ off →
      (∀ i, seg ≤ i → i ≤ A → ∃ b, fs (.seg i) = some b ∧ b.length < 2 ^ 32 ∧ Covers k b) →
      let r := ackWalk fs k A O fuel seg off consumed
      (r.1 = A ∧ r.2.1 = O) ↔
        ∀ i b, seg ≤ i → i < A → fs (.seg i) = some b →
          (i = seg ∧ b.length ≤ off) ∨ 36 ∣ b.length := by
  intro fuel
  induction fuel with
  | zero => intro seg off consumed h1 h2; omega
  | succ fuel ih =>
    intro seg off consumed hseg hfuel h36 hthere
    obtain ⟨b, hfs, hb, hcover⟩ := hthere seg le_rfl hseg
    simp only [ackWalk, if_pos hseg, hfs]
    by_cases hA : seg = A
    · -- the active segment: the walk ends at the write position
      subst hA
      have hlimit : readLimit seg O seg b = O := if_pos rfl
      have hrows := @ackRows_of_covers k b _ off hcover hb (hactive b hfs) h36
      rw [hlimit, if_neg (fun h => lt_irrefl _ h.1)]
      refine iff_of_true ⟨rfl, hrows.trans ?_⟩ fun i b h1 h2 => absurd h2 (Nat.not_lt.mpr h1)
      rcases min_choice off O with h | h <;> rw [h]
      · have := Nat.mul_div_cancel' (Nat.dvd_sub hO h36)
        omega
      · rw [Nat.sub_self, Nat.zero_div, Nat.mul_zero, Nat.add_zero]
    · have hlt : seg < A := by omega
      have hlimit : readLimit A O seg b = b.length := if_neg hA
      have hrows := @ackRows_of_covers k b _ off hcover hb le_rfl h36
      rw [hlimit, hrows]
      -- the walk goes on exactly when this segment ends with a whole row
      have hwhole : b.length ≤ min off b.length + 36 * ((b.length - min off b.length) / 36) ↔
          b.length ≤ off ∨ 36 ∣ b.length := by
        rcases min_choice off b.length with h | h <;> rw [h] <;> omega
      split
      · next hnext =>
        refine (ih (seg + 1) 0 _ hlt (by omega) (Nat.dvd_zero _)
          fun i hi => hthere i (by omega)).trans ?_
        constructor
        · intro h i b' h1 h2 hb'
          by_cases hi : i = seg
          · subst hi
            rw [hfs] at hb'
            rw [← Option.some.inj hb']
            exact (hwhole.mp hnext.2).imp_left fun h => ⟨rfl, h⟩
          · rcases h i b' (by omega) h2 hb' with ⟨-, h0⟩ | h
            · rw [Nat.le_zero.mp h0]
              exact .inr (Nat.dvd_zero _)
            · exact .inr h
        · intro h i b' h1 h2 hb'
          rcases h i b' (by omega) h2 hb' with ⟨rfl, -⟩ | h
          · omega
          · exact .inr h
      · next hnext =>
        refine iff_of_false (fun h => hA h.1) fun h => hnext ⟨hlt, hwhole.mpr ?_⟩
        exact (h seg b le_rfl hlt hfs).imp_left And.right

/-- **A full acknowledgement reclaims everything**, that is, the cursor arrives at the
write position and the segments behind it are gone, exactly when every closed segment
from the cursor on holds whole rows only, or ends before the cursor. -/
theorem full_ack_reclaims_iff {ε : Type} (E : Env ε) (w : World ε) (q : EventQueue)
    (t : Totalizer) (k bootId : UInt32) (hk : q.ack.ackedSeq < k)
    (hle : q.ack.cursorSegment.toNat ≤ t.cp.qSegment.toNat)
    (hthere : ∀ i, q.ack.cursorSegment.toNat ≤ i → i ≤ t.cp.qSegment.toNat →
      ∃ b, w.file (.seg i) = some b ∧ Covers k b)
    (hsize : ∀ i b, w.file (.seg i) = some b → b.length < 2 ^ 32)
    (hactive : ∀ b, w.file (.seg t.cp.qSegment.toNat) = some b → t.cp.qOffset.toNat ≤ b.length)
    (hcursor : 36 ∣ q.ack.cursorOffset.toNat) (hoffset : 36 ∣ t.cp.qOffset.toNat)
    (q' : EventQueue) (w' : World ε)
    (hrun : Runs (sem E) (q.ackThrough t k bootId) w q' w') :
    (q'.ack.cursorSegment = t.cp.qSegment ∧ q'.ack.cursorOffset = t.cp.qOffset ∧
        ∀ i, q.ack.cursorSegment.toNat ≤ i → i < t.cp.qSegment.toNat →
          w'.file (.seg i) = none) ↔
      ∀ i b, q.ack.cursorSegment.toNat ≤ i → i < t.cp.qSegment.toNat → w.file (.seg i) = some b →
        (i = q.ack.cursorSegment.toNat ∧ b.length ≤ q.ack.cursorOffset.toNat) ∨
          36 ∣ b.length := by
  have hend := @ackWalk_covers w.file _ _ k hoffset hactive _ _ _ 0 hle rfl hcursor
    fun i h1 h2 => by
      obtain ⟨b, hb, hcover⟩ := hthere i h1 h2
      exact ⟨b, hb, hsize i b hb, hcover⟩
  obtain ⟨hoff, -⟩ := @ackWalk_live w.file _ _ k t.cp.qOffset.toNat_lt hsize _
    q.ack.cursorSegment.toNat _ 0 rfl q.ack.cursorOffset.toNat_lt
  obtain ⟨-, hlast, -⟩ := ackWalk_crosses w.file k t.cp.qSegment.toNat t.cp.qOffset.toNat
    (t.cp.qSegment.toNat + 1 - q.ack.cursorSegment.toNat) q.ack.cursorSegment.toNat
    q.ack.cursorOffset.toNat 0
  refine Iff.trans ?_ hend
  refine wp.runs (wp_ackThrough_moves (Q := fun q' w' =>
    (q'.ack.cursorSegment = t.cp.qSegment ∧ q'.ack.cursorOffset = t.cp.qOffset ∧
        ∀ i, q.ack.cursorSegment.toNat ≤ i → i < t.cp.qSegment.toNat →
          w'.file (.seg i) = none) ↔ _) (fun h => absurd h (UInt32.not_le.mpr hk)) ?_) hrun
  intro _ seg off n hcur w' ack' _ hs ho hfile
  have hwalk : ackWalk w.file k t.cp.qSegment.toNat t.cp.qOffset.toNat
    (t.cp.qSegment.toNat + 1 - q.ack.cursorSegment.toNat) q.ack.cursorSegment.toNat
    q.ack.cursorOffset.toNat 0 = (seg, off, n) := hcur
  rw [hwalk] at hoff hlast ⊢
  have hseg' : (UInt32.ofNat seg).toNat = seg :=
    u32_ofNat (lt_of_le_of_lt hlast (max_lt q.ack.cursorSegment.toNat_lt t.cp.qSegment.toNat_lt))
  have hoff' : (UInt32.ofNat off).toNat = off := u32_ofNat hoff
  constructor
  · rintro ⟨h1, h2, -⟩
    exact ⟨hseg'.symm.trans (congrArg UInt32.toNat (hs.symm.trans h1)),
      hoff'.symm.trans (congrArg UInt32.toNat (ho.symm.trans h2))⟩
  · rintro ⟨rfl, rfl⟩
    exact ⟨hs.trans UInt32.ofNat_toNat, ho.trans UInt32.ofNat_toNat,
      fun i h1 h2 => (hfile i).trans (if_pos ⟨h1, h2⟩)⟩

theorem covers_firstRow : Covers 1 firstRowBytes ∧ Covers 1 [] ∧ Covers 1 [0] := by
  refine ⟨?_, ?_, ?_⟩
  · intro r hr _
    have hone : QRow.codec.rowsIn firstRowBytes 0 firstRowBytes.length =
        [QRow.kind.stamp firstRow] := by decide +kernel
    rw [hone, List.mem_singleton] at hr
    rw [hr]
    decide
  · rintro r ⟨⟩
  · rintro r ⟨⟩

/-- One whole closed segment: it is removed, and the cursor stands at the write
position. -/
theorem full_ack_reclaims_firstRow :
    ∃ q' w', Runs (sem Env.calm) (unacknowledged.ackThrough (writingAt 1 0) 1 0)
        (closedThenEmpty firstRowBytes) q' w' ∧
      q'.ack.cursorSegment = 1 ∧ q'.ack.cursorOffset = 0 ∧ w'.file (.seg 0) = none := by
  have hrun := execute_runs (unacknowledged.ackThrough (writingAt 1 0) 1 0)
    (closedThenEmpty firstRowBytes)
  have hsize := lt_of_closedThenEmpty (b := firstRowBytes) (by rw [length_firstRowBytes]; decide)
  have hiff := full_ack_reclaims_iff Env.calm (closedThenEmpty firstRowBytes) unacknowledged
    (writingAt 1 0) 1 0 (by decide) (by decide) ?_ hsize ?_ (by decide) (by decide) _ _ hrun
  · obtain ⟨h1, h2, h3⟩ := hiff.mpr fun i b _ hi hb => by
      rcases file_closedThenEmpty hb with ⟨-, rfl⟩ | ⟨-, rfl⟩
      · exact .inr (by rw [length_firstRowBytes])
      · exact .inr (Nat.dvd_zero _)
    exact ⟨_, _, hrun, h1, h2, h3 0 le_rfl (by decide)⟩
  · intro i _ hi
    have hi : i ≤ 1 := hi
    obtain rfl | rfl : i = 0 ∨ i = 1 := by omega
    · exact ⟨firstRowBytes, by rfl, covers_firstRow.1⟩
    · exact ⟨[], by rfl, covers_firstRow.2.1⟩
  · intro b _
    exact Nat.zero_le _

/-- A closed segment of one byte: everything is acknowledged, and the cursor stays in
front of it. -/
theorem partial_tail_keeps_cursor :
    ∃ q' w', Runs (sem Env.calm) (unacknowledged.ackThrough (writingAt 1 0) 1 0)
        (closedThenEmpty [0]) q' w' ∧
      (∀ i b, (closedThenEmpty [0]).file (.seg i) = some b → Covers 1 b) ∧
      ¬ (q'.ack.cursorSegment = 1 ∧ q'.ack.cursorOffset = 0 ∧ w'.file (.seg 0) = none) := by
  refine ⟨_, _, execute_runs _ _, fun i b hb => ?_, ?_⟩
  · rcases file_closedThenEmpty hb with ⟨-, rfl⟩ | ⟨-, rfl⟩
    · exact covers_firstRow.2.2
    · exact covers_firstRow.2.1
  · decide +kernel

end EventQueue

end Device
end CovioFirmware
