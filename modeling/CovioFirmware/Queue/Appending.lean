import CovioFirmware.Queue.Adoption
import CovioFirmware.Queue.Backlog

/-!
# Appending to files of any size

`append` finds the file it works on longer or shorter than the confirmed offset says,
by any amount, and each of its calls may fail.  Two things hold all the same.  The
reconciliation leaves a front part of the file, and the row goes right behind it; and
where that part ends is one of few places: behind the confirmed offset by whole rows,
or, for a file that is too short, at its end (`Placed`).
-/

namespace CovioFirmware
namespace Device
namespace EventQueue

open Bytes Crash

variable {ε : Type} {E : Env ε} {w : World ε}

/-- The rows before the first that is not intact fit into the buffer. -/
theorem validPrefix_le (buf : Data) : validPrefix buf ≤ buf.length / 36 := by
  have hle := (List.takeWhile_prefix (l := QRow.codec.rowsIn buf 0 buf.length) QRow.intact).length_le
  rwa [QRow.codec.length_rowsIn, min_self, Nat.sub_zero, QRow.codec_size] at hle

/-- The scan moves over whole rows and stays in the file, also where its reads fail or
come back short. -/
theorem wp_adoptValidRows_any {Q : ℕ → World ε → Prop} {p : Path} {size : ℕ} :
    ∀ fuel off, off ≤ size → (∀ m, off + 36 * m ≤ size → Q (off + 36 * m) w) →
      size + 36 < 2 ^ 32 → wp (sem E) (adoptValidRows p size fuel off) Q (fun _ => True) w := by
  intro fuel
  induction fuel with
  | zero => exact fun off hoff hQ _ => ⟨trivial, hQ 0 hoff⟩
  | succ fuel ih =>
    intro off hoff hQ hsize
    have hstay : Q off w := hQ 0 hoff
    have hroom : u32 (size + 2 ^ 32 - off) = size - off := by
      unfold u32
      omega
    rw [adoptValidRows, u32_of_lt (by omega), hroom]
    by_cases hfit : off + 36 ≤ size
    · rw [if_pos hfit, Fw.readAt_bind]
      set want := min (size - off) (36 * 32) - min (size - off) (36 * 32) % 36 with hwant
      refine wp_call trivial (fun _ _ => trivial) ?_
      rintro r _ ⟨rfl, hr⟩
      -- whatever comes back is no longer than what was asked for
      have hlen : ∀ buf, r = some buf → buf.length ≤ want := by
        rintro buf rfl
        rcases hr with ⟨-, hr⟩ | ⟨-, hr | ⟨j, hr⟩⟩
        · obtain ⟨b, -, rfl⟩ := Option.map_eq_some_iff.mp hr.symm
          exact List.length_take_le _ _
        · cases hr
        · obtain ⟨b, -, rfl⟩ := Option.map_eq_some_iff.mp hr.symm
          exact (List.length_take_le' _ _).trans (List.length_take_le _ _)
      cases r with
      | none => exact ⟨trivial, hstay⟩
      | some buf =>
        have hbuf := hlen buf rfl
        have hprefix := validPrefix_le buf
        have hrows := Nat.div_mul_le_self buf.length 36
        have hmove : ∀ n, 36 * n ≤ buf.length → off + 36 * n ≤ size := by
          intro n hn
          omega
        have hn := hmove (buf.length / 36) (by omega)
        have hm := hmove (validPrefix buf) (by omega)
        simp only [Prog.pure_eq_ret]
        rw [u32_of_lt (by omega), u32_of_lt (by omega)]
        split
        · exact ⟨trivial, hstay⟩
        · split
          · exact ⟨trivial, hQ _ hm⟩
          · refine ih _ hn (fun m hm => ?_) hsize
            have hsum : off + 36 * (buf.length / 36) + 36 * m =
                off + 36 * (buf.length / 36 + m) := by ring
            rw [hsum] at hm ⊢
            exact hQ _ hm
    · rw [if_neg hfit]
      exact ⟨trivial, hstay⟩

/-- The offsets at which the row may go: behind the confirmed offset by whole rows, or
at the end of a file that does not reach it. -/
def Placed (goodOffset size good : ℕ) : Prop :=
  if size < goodOffset then good = size else ∃ m, good = goodOffset + 36 * m

theorem wp_guardedOffset_any {Q : ℕ → World ε → Prop} {p : Path} {goodOffset size : ℕ}
    (hlt : goodOffset < size) (hsize : size + 36 < 2 ^ 32)
    (hQ : ∀ good, good ≤ size → Placed goodOffset size good → Q good w) :
    wp (sem E) (guardedOffset p goodOffset size) Q (fun _ => True) w := by
  have hplaced : ∀ m, Placed goodOffset size (goodOffset + 36 * m) := by
    intro m
    rw [Placed, if_neg (by omega)]
    exact ⟨m, rfl⟩
  rw [guardedOffset]
  split
  · exact wp_adoptValidRows_any _ _ hlt.le (fun m hm => hQ _ hm (hplaced m)) hsize
  · exact ⟨trivial, hQ goodOffset hlt.le (hplaced 0)⟩

/-! ## The routine -/

/-- What the guard may answer: an offset in the file that satisfies `G`. -/
def Guards (E : Env ε) (p : Path) (b : Data) (goodOffset : ℕ) (G : ℕ → Prop) : Prop :=
  ∀ w : World ε, w.file p = some b → goodOffset < b.length →
    wp (sem E) (guardedOffset p goodOffset b.length)
      (fun good w' => w' = w ∧ good ≤ b.length ∧ G good) (fun _ => True) w

/-- The reconciliation keeps the front of the file up to the offset it answers, and
touches nothing else. -/
theorem wp_reconcile_front {Q : Option ℕ → World ε → Prop} {p : Path} {b : Data}
    {goodOffset : ℕ} {G : ℕ → Prop} (hb : w.file p = some b) (hguard : Guards E p b goodOffset G)
    (hclamp : b.length ≤ goodOffset → G b.length) (hnone : ¬ E.Reliable → Q none w)
    (hsome : ∀ good w', good ≤ b.length → G good → w'.file p = some (b.take good) →
      (∀ p', p' ≠ p → w'.file p' = w.file p') → Q (some good) w') :
    wp (sem E) (reconcile p goodOffset b.length) Q (fun _ => True) w := by
  rw [reconcile]
  split
  · next hlt =>
    refine wp_bind_of (hguard w hb hlt) (fun _ h => h) ?_
    rintro good _ ⟨rfl, hle, hG⟩
    split
    · next hcut =>
      rw [Fw.truncateTo_bind]
      refine wp_truncateTo hb trivial (fun _ _ _ => trivial) ?_ fun hf => ?_
      · rw [if_pos rfl]
        refine ⟨trivial, hsome good _ hle hG ?_ fun p' hp => ?_⟩
        · rw [World.file_set, Function.update_self, truncated, Nat.sub_eq_zero_of_le hle]
          exact congrArg some (List.append_nil _)
        · rw [World.file_set, Function.update_of_ne hp]
      · exact ⟨trivial, hnone fun hE => hE _ _ hf⟩
    · next hkeep =>
      refine ⟨trivial, hsome good _ hle hG ?_ fun _ _ => rfl⟩
      rw [hb, List.take_of_length_le (by omega)]
  · next hlt =>
    refine ⟨trivial, hsome b.length w le_rfl (hclamp (by omega)) ?_ fun _ _ => rfl⟩
    rw [hb, List.take_length]

/-- **`append`, whichever of its calls fail.**  Either the row stands right behind a
front part of the file and the write position behind the row, or a call has failed,
the position is unmoved and the file is a front part with something behind it. -/
theorem wp_append_front {q : EventQueue} {t : Totalizer} {row : QRow}
    {Q : EventQueue × Totalizer → World ε → Prop} {s goodOffset : ℕ} {b : Data} {G : ℕ → Prop}
    (htarget : target t = (s, goodOffset)) (hold : w.old (.seg s) = b)
    (hguard : Guards E (.seg s) b goodOffset G) (hclamp : b.length ≤ goodOffset → G b.length)
    (hfail : ¬ E.Reliable → ∀ w' q', (∀ i, i ≠ s → w'.file (.seg i) = w.file (.seg i)) →
      (w'.old (.seg s) = b ∨ ∃ good junk, good ≤ b.length ∧ G good ∧
        w'.old (.seg s) = b.take good ++ junk) → Q (q', t) w')
    (hok : ∀ w' t' good, good ≤ b.length → G good →
      (∀ i, i ≠ s → w'.file (.seg i) = w.file (.seg i)) →
      w'.file (.seg s) = some (b.take good ++ QRow.kind.bytes (QRow.kind.stamp row)) →
      t'.cp.qSegment = .ofNat s → t'.cp.qOffset = .ofNat (good + 36) →
      t'.cp.writes = t.cp.writes + 1 →
      Q ({ q with unackedCount := q.unackedCount + 1 }, t') w') :
    wp (sem E) (q.append t row) Q (fun _ => True) w := by
  have hbytes : (QRow.kind.bytes (QRow.kind.stamp row)).length = 36 := QRow.kind.length_bytes _
  -- a failure is recorded away from the segments
  have hrecord : ∀ (code : QueueFailCode) (w1 : World ε), ¬ E.Reliable →
      (∀ i, i ≠ s → w1.file (.seg i) = w.file (.seg i)) →
      (w1.old (.seg s) = b ∨ ∃ good junk, good ≤ b.length ∧ G good ∧
        w1.old (.seg s) = b.take good ++ junk) →
      wp (sem E) (q.recordWriteFailure code >>= fun q' => .ret (q', t)) Q (fun _ => True) w1 := by
    intro code w1 hE hothers hhere
    have hframe : ∀ w' : World ε, (∀ i, w'.file (.seg i) = w1.file (.seg i)) →
        ∀ q', Q (q', t) w' := by
      intro w' h' q'
      refine hfail hE w' q' (fun i hi => (h' i).trans (hothers i hi)) ?_
      rwa [World.old, h', ← World.old]
    refine wp_map (wp_recordWriteFailure trivial fun fail _ _ => ?_)
    refine Slots.wp_persist trivial (fun _ _ => trivial) ⟨trivial, hframe _ (fun i => ?_) _⟩
      fun _ _ _ c _ => hframe _ (fun i => ?_) _
    · rw [World.file_write, Function.update_of_ne (by simp [failSlots])]
    · rw [World.file_set, Function.update_of_ne (by simp [failSlots])]
  simp only [append, htarget, Fw.appendOpenSize_bind, Fw.appendWrite_bind, Prog.pure_eq_ret]
  refine wp_appendOpenSize trivial trivial ?_ fun hf =>
    hrecord _ w (fun hE => hE _ _ hf) (fun _ _ => rfl) (.inl hold)
  rw [hold]
  have hopened : (w.set (.seg s) (some b)).file (.seg s) = some b := by simp
  have hothers : ∀ i, i ≠ s → (w.set (.seg s) (some b)).file (.seg i) = w.file (.seg i) := by
    intro i hi
    rw [World.file_set, Function.update_of_ne (by simpa using hi)]
  refine wp_bind (wp_reconcile_front hopened hguard hclamp ?_ ?_)
  · exact fun hE => hrecord _ _ hE hothers (.inl (by rw [World.old, hopened, Option.getD_some]))
  intro good w1 hle hG hfront h1
  have hothers1 : ∀ i, i ≠ s → w1.file (.seg i) = w.file (.seg i) := fun i hi =>
    (h1 _ (by simpa using hi)).trans (hothers i hi)
  have hold1 : w1.old (.seg s) = b.take good := by rw [World.old, hfront, Option.getD_some]
  have hset : ∀ data : Data, (∀ i, i ≠ s →
      (w1.set (.seg s) (some data)).file (.seg i) = w.file (.seg i)) := by
    intro data i hi
    rw [World.file_set, Function.update_of_ne (by simpa using hi), hothers1 i hi]
  refine wp_appendWrite trivial (fun _ _ _ => trivial) ?_ (fun hf => ?_) fun hf j hj => ?_
  · rw [hbytes, hold1]
    simp only [ne_eq, not_true_eq_false, if_false]
    refine wp_map (Totalizer.wp_persist ?_)
    refine Slots.wp_persist trivial (fun _ _ => trivial) ⟨trivial, ?_⟩ fun _ _ _ c _ => ?_
    · refine hok _ _ good hle hG (fun i hi => ?_) ?_ rfl rfl rfl
      · rw [World.file_write, Function.update_of_ne (by simp [ckptSlots]), hset _ i hi]
      · rw [World.file_write, Function.update_of_ne (by simp [ckptSlots])]
        simp
    · refine hok _ _ good hle hG (fun i hi => ?_) ?_ rfl rfl rfl
      · rw [World.file_set, Function.update_of_ne (by simp [ckptSlots]), hset _ i hi]
      · rw [World.file_set, Function.update_of_ne (by simp [ckptSlots])]
        simp
  · exact hrecord _ w1 (fun hE => hE _ _ hf) hothers1
      (.inr ⟨good, [], hle, hG, by rw [hold1, List.append_nil]⟩)
  · have hne : (some j : Option ℕ) ≠ some 36 := by
      rw [hbytes] at hj
      simpa using hj.ne
    rw [hold1]
    simp only
    rw [if_pos (by simpa using hne)]
    refine hrecord _ _ (fun hE => hE _ _ hf) (hset _)
      (.inr ⟨good, (QRow.kind.bytes (QRow.kind.stamp row)).take j, hle, hG, ?_⟩)
    rw [World.old, World.file_set, Function.update_self, Option.getD_some]

end EventQueue
end Device
end CovioFirmware
