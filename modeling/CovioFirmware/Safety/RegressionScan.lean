import CovioFirmware.Queue.Adoption
import Mathlib.Order.Bounds.Basic

/-!
# The regression scan

`adoptValidRows_` reads in chunks of 32 rows, and a read may come back with any part of
what was asked for, a row or more.  `adopts_longest_run` says that neither matters: the
scan returns the end of the longest run of intact rows that starts at the offset and
lies within the size it was given.
-/

namespace CovioFirmware
namespace Device

open Crash Bytes

/-- A file system on which a read of the file `b` hands out a row or more of its true
contents. -/
def partialReads (b : Data) : Sem Call Call.Reply Unit where
  post
    | .readAt _ off len, _, r, _ => ∃ buf, r = some buf ∧ EventQueue.ReadOf b off len buf
    | _, _, _, _ => True
  cut _ _ _ := True

/-- Row `j` behind `start` lies within `size` and is intact. -/
def IntactAt (b : Data) (start size j : ℕ) : Prop :=
  start + 36 * (j + 1) ≤ size ∧
    ∃ r, QRow.codec.rowAt b (start + 36 * j) = some r ∧ r.intact = true

/-- The elements in front of the first that fails a test. -/
theorem isGreatest_length_takeWhile {α : Type} (p : α → Bool) (l : List α) :
    IsGreatest {m | ∀ j < m, ∃ a, l[j]? = some a ∧ p a = true} (l.takeWhile p).length := by
  induction l with
  | nil =>
    refine ⟨fun j hj => absurd hj (Nat.not_lt_zero j), fun m hm => ?_⟩
    by_contra hc
    obtain ⟨a, ha, -⟩ := hm 0 (Nat.lt_of_not_le fun h => hc (h.trans (Nat.zero_le _)))
    cases ha
  | cons x l ih =>
    by_cases hx : p x = true
    · rw [List.takeWhile_cons_of_pos hx, List.length_cons]
      refine ⟨fun j hj => ?_, fun m hm => ?_⟩
      · cases j with
        | zero => exact ⟨x, rfl, hx⟩
        | succ j => exact ih.1 j (Nat.lt_of_succ_lt_succ hj)
      · cases m with
        | zero => exact Nat.zero_le _
        | succ m => exact Nat.succ_le_succ (ih.2 fun j hj => hm (j + 1) (Nat.succ_lt_succ hj))
    · rw [List.takeWhile_cons_of_neg hx]
      refine ⟨fun j hj => absurd hj (Nat.not_lt_zero j), fun m hm => ?_⟩
      by_contra hc
      obtain ⟨a, ha, hpa⟩ := hm 0 (Nat.lt_of_not_le fun h => hc (h.trans (Nat.zero_le _)))
      exact hx (Option.some.inj ha ▸ hpa)

/-- The rows a strided reader meets are those within the limit and the file. -/
theorem getElem?_rowsIn {b : Data} {start size j : ℕ} {r : QRow} :
    (QRow.codec.rowsIn b start size)[j]? = some r ↔
      start + 36 * (j + 1) ≤ size ∧ QRow.codec.rowAt b (start + 36 * j) = some r := by
  have hlt : j < (min size b.length - start) / 36 ↔
      start + 36 * (j + 1) ≤ size ∧ start + 36 * j + 36 ≤ b.length := by
    rw [← Nat.succ_le_iff, Nat.le_div_iff_mul_le (by omega)]
    omega
  have hnone : ¬ j < (min size b.length - start) / 36 →
      (List.range ((min size b.length - start) / 36))[j]? = none := fun h =>
    List.getElem?_eq_none (by rw [List.length_range]; exact Nat.not_lt.mp h)
  unfold RowCodec.rowsIn RowCodec.rowAt
  rw [QRow.codec_size, List.getElem?_map]
  by_cases hfit : start + 36 * j + 36 ≤ b.length
  · rw [if_pos hfit]
    by_cases hsize : start + 36 * (j + 1) ≤ size
    · rw [List.getElem?_range (hlt.mpr ⟨hsize, hfit⟩)]
      exact (and_iff_right hsize).symm
    · rw [hnone fun h => hsize (hlt.mp h).1]
      exact iff_of_false (Option.some_ne_none _).symm fun h => hsize h.1
  · rw [if_neg hfit, hnone fun h => hfit (hlt.mp h).2]
    exact iff_of_false (Option.some_ne_none _).symm fun h => (Option.some_ne_none _).symm h.2

/-- The run the scan adopts is the longest one. -/
theorem isGreatest_run (b : Data) (start size : ℕ) :
    IsGreatest {m | ∀ j < m, IntactAt b start size j}
      ((QRow.codec.rowsIn b start size).takeWhile QRow.intact).length := by
  have hrows := isGreatest_length_takeWhile QRow.intact (QRow.codec.rowsIn b start size)
  simp only [getElem?_rowsIn, and_assoc, exists_and_left] at hrows
  exact hrows

/-- Where the file reaches the size, reads that hand out all that was asked for bring
the scan to its end. -/
theorem exists_scan {b : Data} {size : ℕ} (p : Path) (hb : size ≤ b.length)
    (hsize : size + 36 < 2 ^ 32) : ∀ fuel off, off + 36 < 2 ^ 32 →
      ∃ m, Runs (partialReads b) (EventQueue.adoptValidRows p size fuel off) () m () := by
  intro fuel
  induction fuel with
  | zero => exact fun off _ => ⟨off, .ret _ _⟩
  | succ fuel ih =>
    intro off hoff
    rw [EventQueue.adoptValidRows, u32_of_lt hoff]
    by_cases hfit : off + 36 ≤ size
    · have hroom : u32 (size + 2 ^ 32 - off) = size - off := by
        unfold u32
        omega
      rw [if_pos hfit, Fw.readAt_bind, hroom]
      set want := min (size - off) (36 * 32) - min (size - off) (36 * 32) % 36 with hwant
      have hlen : ((b.drop off).take want).length = want := by
        rw [List.length_take, List.length_drop]
        omega
      have hread : (partialReads b).post (.readAt p off want) () (some ((b.drop off).take want))
          () :=
        ⟨_, rfl, List.take_prefix _ _, by omega, hlen.le⟩
      have hnext := Nat.mul_div_le want 36
      obtain ⟨m, hm⟩ := ih (u32 (off + 36 * (want / 36))) (by rw [u32_of_lt (by omega)]; omega)
      simp only [Prog.pure_eq_ret]
      by_cases hstop : EventQueue.validPrefix ((b.drop off).take want) < want / 36
      · refine ⟨u32 (off + 36 * EventQueue.validPrefix ((b.drop off).take want)),
          .call hread ?_⟩
        simp only [hlen, if_neg (show ¬ want < 36 by omega), if_pos hstop]
        exact .ret _ _
      · refine ⟨m, .call hread ?_⟩
        simp only [hlen, if_neg (show ¬ want < 36 by omega), if_neg hstop]
        exact hm
    · rw [if_neg hfit]
      exact ⟨off, .ret _ _⟩

/-- An offset behind the size is returned as it is. -/
theorem adoptValidRows_behind {b : Data} {p : Path} {size start fuel off : ℕ}
    (hfile : b.length < 2 ^ 32) (hstart : start < 2 ^ 32) (hlt : size < start)
    (hrun : Runs (partialReads b) (EventQueue.adoptValidRows p size fuel start) () off ()) :
    off = start := by
  cases fuel with
  | zero =>
    cases hrun
    rfl
  | succ fuel =>
    rw [EventQueue.adoptValidRows] at hrun
    by_cases hfit : u32 (start + 36) ≤ size
    · -- only where the test wraps: no read can hand out a row there
      rw [if_pos hfit, Fw.readAt_bind] at hrun
      unfold u32 at hfit
      cases hrun with
      | call hread _ =>
        obtain ⟨buf, -, hbuf⟩ := hread
        have hle := hbuf.contents.length_le
        have hrow := hbuf.row_le
        rw [List.length_drop] at hle
        omega
    · rw [if_neg hfit] at hrun
      cases hrun
      rfl

/-- **The scan equals its specification**, for every file, every offset and size, and
every sequence of reads that hand out a row or more of true contents; and where the file
reaches the size there are such reads. -/
theorem adopts_longest_run (p : Path) (b : Data) (start size : UInt32) (fuel : ℕ)
    (hfile : b.length < 2 ^ 32) (hfuel : size.toNat / 36 < fuel) :
    (∀ off, Runs (partialReads b)
        (EventQueue.adoptValidRows p size.toNat fuel start.toNat) () off () →
      ∃ m, IsGreatest {m | ∀ j < m, IntactAt b start.toNat size.toNat j} m ∧
        off = start.toNat + 36 * m) ∧
    (size.toNat ≤ b.length → size.toNat + 36 < 2 ^ 32 → start.toNat + 36 < 2 ^ 32 →
      ∃ off, Runs (partialReads b)
        (EventQueue.adoptValidRows p size.toNat fuel start.toNat) () off ()) := by
  refine ⟨fun off hrun => ?_, fun hb hsize hstart => exists_scan p hb hsize fuel _ hstart⟩
  refine ⟨_, isGreatest_run b start.toNat size.toNat, ?_⟩
  rcases Nat.lt_or_ge size.toNat start.toNat with hlt | hle
  · have hnil : QRow.codec.rowsIn b start.toNat size.toNat = [] :=
      QRow.codec.rowsIn_of_lt (by rw [QRow.codec_size]; omega)
    rw [hnil, adoptValidRows_behind hfile start.toNat_lt hlt hrun]
    rfl
  · have hdiv := Nat.div_le_div_right (c := 36) (Nat.sub_le size.toNat start.toNat)
    have hscan := EventQueue.wp_scan (M := partialReads b) (I := fun _ => True)
      (C := fun _ => True) (p := p) (b := b) size.toNat_lt (fun _ _ => trivial)
      (fun _ _ _ _ _ _ => trivial) (fun _ _ _ _ _ _ hpost _ _ => ⟨trivial, hpost⟩)
      fuel start.toNat () hle (by omega) trivial
    exact (hscan.runs hrun).2

/-- Two rows and a torn one: the scan stops behind the second. -/
theorem adopts_two_rows :
    let row := QRow.kind.bytes (QRow.kind.stamp ⟨0, 1, 1, 5, 6, 7, 8, 0, 60, 0⟩)
    let b := row ++ row ++ row.take 20
    ∃ off, Runs (partialReads b) (EventQueue.adoptValidRows (.seg 0) 92 3 0) () off () ∧
      ∃ m, IsGreatest {m | ∀ j < m, IntactAt b 0 92 j} m ∧ off = 0 + 36 * m := by
  intro row b
  have hsize : QRow.kind.size = 36 := rfl
  have hb : b.length = 92 := by simp [b, row, hsize]
  have hscan := adopts_longest_run (.seg 0) b 0 92 3 (by rw [hb]; decide) (by decide)
  obtain ⟨off, hrun⟩ := hscan.2 hb.ge (by decide) (by decide)
  exact ⟨off, hrun, hscan.1 off hrun⟩

end Device
end CovioFirmware
