import CovioFirmware.Device.Frames
import CovioFirmware.Queue.Layout

/-!
# The routines of the queue on a laid-out flash

`append` and the boot-time reconciliation, said in terms of the layout.  The
point of both statements is what a power cut can leave: until the checkpoint
moves, only the unconfirmed bytes behind the log change, so the layout holds for
the log as it was; once the row is in place, the layout holds for both positions,
the old one and the new one, and the persist that follows decides between them.
-/

namespace CovioFirmware
namespace Device

open Crash Bytes

variable {ε : Type} {E : Env ε} {C : World ε → Prop} {w : World ε}

namespace EventQueue

/-! ## The torn tail -/

/-- With at most one row of unconfirmed bytes behind the confirmed ones, the
reconciliation cuts them off or reports that it could not. -/
theorem wp_reconcile_any {Q : Option ℕ → World ε → Prop} {p : Path}
    {B tail : Data} (hfile : w.file p = some (B ++ tail)) (htail : tail.length ≤ 36) (hC : C w)
    (hcut : ∀ junk : Data, junk.length ≤ 36 → C (w.set p (some (B ++ junk))))
    (hkeep : tail = [] → Q (some B.length) w)
    (htrunc : Q (some B.length) (w.set p (some B)))
    (hfail : E.fails (.truncateTo p B.length) w.peer → Q none w) :
    wp (sem E) (reconcile p B.length (B ++ tail).length) Q C w := by
  have hlen : (B ++ tail).length = B.length + tail.length := List.length_append
  rw [reconcile]
  by_cases hnil : tail = []
  · rw [if_neg (by rw [hlen, hnil, List.length_nil]; omega), hlen, hnil]
    exact ⟨hC, hkeep hnil⟩
  · have hpos : 0 < tail.length := List.length_pos_iff.mpr hnil
    have hno : ¬ 36 < (B ++ tail).length - B.length := by rw [hlen]; omega
    rw [if_pos (by rw [hlen]; omega), guardedOffset, if_neg hno, Prog.pure_eq_ret, Prog.ret_bind,
      if_pos (by rw [hlen]; omega), Fw.truncateTo_bind]
    have htake : (B ++ tail).take B.length = B := List.take_left' rfl
    refine wp_truncateTo hfile hC (fun junk hj _ => ?_) ?_ fun hf => ⟨hC, hfail hf⟩
    · rw [htake]
      exact hcut junk (by rw [hlen] at hj; omega)
    · have hcuttail : truncated (B ++ tail) B.length = B := by
        rw [truncated, htake, hlen, Nat.sub_eq_zero_of_le (by omega)]
        exact List.append_nil B
      rw [hcuttail]
      have hCB := hcut [] (by simp)
      rw [List.append_nil] at hCB
      exact ⟨hCB, htrunc⟩

/-- Where the storage does not fail, the unconfirmed bytes are cut off. -/
theorem wp_reconcile_tail (hE : E.Reliable) {Q : Option ℕ → World ε → Prop} {p : Path}
    {B tail : Data} (hfile : w.file p = some (B ++ tail)) (htail : tail.length ≤ 36) (hC : C w)
    (hcut : ∀ junk : Data, junk.length ≤ 36 → C (w.set p (some (B ++ junk))))
    (hkeep : tail = [] → Q (some B.length) w)
    (htrunc : Q (some B.length) (w.set p (some B))) :
    wp (sem E) (reconcile p B.length (B ++ tail).length) Q C w :=
  wp_reconcile_any hfile htail hC hcut hkeep htrunc fun hf => absurd hf (hE _ _)

/-- `w'` differs from `w` only in unconfirmed bytes behind `B` in segment `s`. -/
structure Unconfirmed (w w' : World ε) (s : ℕ) (B : Data) : Prop where
  slots : SameSlots w w'
  others : ∀ i, i ≠ s → w'.file (.seg i) = w.file (.seg i)
  tail : w'.file (.seg s) = w.file (.seg s) ∨
    ∃ junk : Data, junk.length ≤ 36 ∧ w'.file (.seg s) = some (B ++ junk)

theorem Unconfirmed.set {w w' : World ε} {s : ℕ} {B : Data} (h : Unconfirmed w w' s B)
    (junk : Data) (hj : junk.length ≤ 36) : Unconfirmed w (w'.set (.seg s) (some (B ++ junk))) s B := by
  refine ⟨h.slots.set_seg s _, fun i hi => ?_, .inr ⟨junk, hj, by simp⟩⟩
  rw [World.file_set, Function.update_of_ne (by simpa using hi), h.others i hi]

/-- `append` up to its persist: at every cut only unconfirmed bytes have changed,
and at the persist the row is in place. -/
theorem wp_append_tail (hE : E.Reliable) {q : EventQueue} {t : Totalizer} {row : QRow}
    {Q : EventQueue × Totalizer → World ε → Prop} {s : ℕ} {B tail : Data}
    (htarget : target t = (s, B.length)) (hold : w.old (.seg s) = B ++ tail)
    (htail : tail.length ≤ 36) (hC : ∀ w', Unconfirmed w w' s B → C w')
    (hset : ∀ w', Unconfirmed w w' s B →
      w'.file (.seg s) = some (B ++ QRow.kind.bytes (QRow.kind.stamp row)) →
      wp (sem E) (t.setQueueOffset (.ofNat s) (.ofNat (B.length + 36)))
        (fun t' w' => Q ({ q with unackedCount := q.unackedCount + 1 }, t') w') C w') :
    wp (sem E) (q.append t row) Q C w := by
  have hself : Unconfirmed w w s B := ⟨SameSlots.refl w, fun _ _ => rfl, .inl rfl⟩
  have hbytes : (QRow.kind.bytes (QRow.kind.stamp row)).length = 36 := QRow.kind.length_bytes _
  have hopen : Unconfirmed w (w.set (.seg s) (some (w.old (.seg s)))) s B := by
    rw [hold]
    exact hself.set tail htail
  -- from here on the segment holds the confirmed bytes only
  have hwrite : ∀ w1, Unconfirmed w w1 s B → w1.file (.seg s) = some B →
      (∀ junk : Data, junk.length ≤ 36 →
        C (w1.set (.seg s) (some (w1.old (.seg s) ++ junk)))) ∧
      wp (sem E) (t.setQueueOffset (.ofNat s) (.ofNat (B.length + 36)))
        (fun t' w' => Q ({ q with unackedCount := q.unackedCount + 1 }, t') w') C
        (w1.set (.seg s) (some (w1.old (.seg s) ++ QRow.kind.bytes (QRow.kind.stamp row)))) := by
    intro w1 h1 hB
    rw [World.old, hB, Option.getD_some]
    exact ⟨fun junk hj => hC _ (h1.set junk hj), hset _ (h1.set _ hbytes.le) (by simp)⟩
  refine wp_append hE htarget (hC w hself) (hC _ hopen) ?_
  rw [hold] at hopen ⊢
  refine wp_reconcile_tail hE (by simp) htail (hC _ hopen) (fun junk hj => hC _ (hopen.set junk hj))
    (fun hnil => ?_) ?_
  · refine hwrite _ hopen ?_
    rw [hnil, List.append_nil]
    simp
  · have hcutoff : Unconfirmed w ((w.set (.seg s) (some (B ++ tail))).set (.seg s) (some B)) s B := by
      have h2 := hopen.set [] (by simp)
      rwa [List.append_nil] at h2
    exact hwrite _ hcutoff (by simp)

/-! ## The acknowledgement -/

/-- What `ackThrough` does, whichever of its calls fail: nothing for an old
acknowledgement, else the cursor is where the walk ends, and the segments before it
are gone. -/
theorem wp_ackThrough_moves {q : EventQueue} {t : Totalizer} {k bootId : UInt32}
    {Q : EventQueue → World ε → Prop} (hold : k ≤ q.ack.ackedSeq → Q q w)
    (hnew : q.ack.ackedSeq < k → ∀ seg off n, ackCursor w.file q t k = (seg, off, n) →
      ∀ w' ack', ack'.ackedSeq = k → ack'.cursorSegment = .ofNat seg →
        ack'.cursorOffset = .ofNat off →
        (∀ i, w'.file (.seg i) =
          if q.ack.cursorSegment.toNat ≤ i ∧ i < seg then none else w.file (.seg i)) →
        Q { q with
          ack := ack'
          unackedCount := if n ≤ q.unackedCount.toNat then q.unackedCount - .ofNat n else 0 } w') :
    wp (sem E) (q.ackThrough t k bootId) Q (fun _ => True) w := by
  simp only [ackThrough, Fw.files_bind, Prog.pure_eq_ret]
  by_cases hle : k ≤ q.ack.ackedSeq
  · rw [if_pos hle]
    exact ⟨trivial, hold hle⟩
  · rw [if_neg hle]
    refine wp_files ?_
    obtain ⟨⟨seg, off, n⟩, hcur⟩ : ∃ r, ackCursor w.file q t k = r := ⟨_, rfl⟩
    simp only [hcur]
    -- the persist, whatever its outcome, does not touch the segments
    have hrest : ∀ w1 : World ε, (∀ i, w1.file (.seg i) = w.file (.seg i)) → ∀ ack' : AckRec,
        ack'.ackedSeq = k → ack'.cursorSegment = .ofNat seg → ack'.cursorOffset = .ofNat off →
        wp (sem E) (removeAll (List.range' q.ack.cursorSegment.toNat
            (seg - q.ack.cursorSegment.toNat)) >>= fun _ => .ret { q with
              ack := ack'
              unackedCount := if n ≤ q.unackedCount.toNat then q.unackedCount - .ofNat n else 0 })
          Q (fun _ => True) w1 := by
      intro w1 hw1 ack' hk hs ho
      refine wp_map (wp_mono (wp_removeAll_file _) (fun _ w2 h2 => ?_) fun _ h => h)
      refine hnew (UInt32.not_le.mp hle) seg off n hcur w2 ack' hk hs ho fun i => ?_
      rw [h2 i, hw1 i]
      refine if_congr ?_ rfl rfl
      rw [List.mem_range'_1]
      omega
    refine wp_bind (wp_persistAck ?_)
    refine Slots.wp_persist trivial (fun _ _ => trivial) ⟨trivial, ?_⟩ fun _ _ _ c _ => ?_
    · refine hrest _ (fun i => ?_) _ rfl rfl rfl
      rw [World.file_write, Function.update_of_ne (by simp [ackSlots])]
    · refine hrest _ (fun i => ?_) _ rfl rfl rfl
      rw [World.file_set, Function.update_of_ne (by simp [ackSlots])]

end EventQueue

/-! ## Appending to the log -/

/-- The layout for the position in a checkpoint and the cursor in an
acknowledgement record. -/
abbrev LaidOut (fs : Path → Option Data) (cp : Checkpoint) (ack : AckRec) (log : List QRow) : Prop :=
  Layout fs cp.qSegment.toNat cp.qOffset.toNat ack.cursorSegment.toNat ack.cursorOffset.toNat
    ack.ackedSeq log

theorem LaidOut.wp_append (hE : E.Reliable) {q : EventQueue} {t : Totalizer} {ack : AckRec}
    {log : List QRow} (h : LaidOut w.file t.cp ack log) (hA : t.cp.qSegment.toNat + 1 < 2 ^ 32)
    {row : QRow} {Q : EventQueue × Totalizer → World ε → Prop}
    (hC : ∀ w', SameSlots w w' → LaidOut w'.file t.cp ack log → C w')
    (hset : ∀ w' seg off, SameSlots w w' → LaidOut w'.file t.cp ack log →
      LaidOut w'.file { t.cp with qSegment := seg, qOffset := off } ack
        (log ++ [QRow.kind.stamp row]) →
      wp (sem E) (t.setQueueOffset seg off)
        (fun t' w' => Q ({ q with unackedCount := q.unackedCount + 1 }, t') w') C w') :
    wp (sem E) (q.append t row) Q C w := by
  have hupper := h.upper
  have hlower := h.lower
  have hoff := h.offset
  have hrow : QRow.intact (QRow.kind.stamp row) = true := QRow.kind.intact_stamp row
  have hlen36 : (QRow.kind.bytes (QRow.kind.stamp row)).length = 36 := QRow.kind.length_bytes _
  by_cases hfull : log.length = 5000 * (t.cp.qSegment.toNat + 1)
  · -- the active segment is full: the row starts the next one
    have htarget : EventQueue.target t = (t.cp.qSegment.toNat + 1, ([] : Data).length) := by
      have hge : queueSegmentRows * 36 ≤ t.cp.qOffset.toNat := by
        rw [queueSegmentRows, hoff]
        omega
      rw [EventQueue.target, Totalizer.queueOffsetOffset, if_pos hge,
        Totalizer.queueOffsetSegment, u32_of_lt hA, List.length_nil]
    have hold : (w.old (.seg (t.cp.qSegment.toNat + 1))).length ≤ 36 := by
      rw [World.old]
      by_cases hnone : w.file (.seg (t.cp.qSegment.toNat + 1)) = none
      · rw [hnone]
        simp
      · exact (h.next hnone).2
    have hstep : ∀ w', EventQueue.Unconfirmed w w' (t.cp.qSegment.toNat + 1) [] →
        LaidOut w'.file t.cp ack log := by
      intro w' hu
      refine h.set_next hu.others fun hne => ?_
      rcases hu.tail with htail | ⟨junk, hj, htail⟩
      · rw [htail] at hne ⊢
        exact h.next hne
      · rw [htail]
        exact ⟨hfull, hj⟩
    refine EventQueue.wp_append_tail hE htarget (List.nil_append _).symm hold (fun w' hu => hC w' hu.slots
      (hstep w' hu)) fun w' hu hfile => ?_
    have hseg : (UInt32.ofNat (t.cp.qSegment.toNat + 1)).toNat = t.cp.qSegment.toNat + 1 :=
      u32_ofNat (by simpa using hA)
    refine hset w' _ _ hu.slots (hstep w' hu) ?_
    rw [List.nil_append] at hfile
    have hnext := (hstep w' hu).append_next hfull hrow hfile
    have h36 : (UInt32.ofNat (([] : Data).length + 36)).toNat = 36 := u32_ofNat (by simp)
    simp only [LaidOut, hseg, h36]
    exact hnext
  · -- there is room in the active segment
    have hroom : log.length < 5000 * (t.cp.qSegment.toNat + 1) := by omega
    have hBlen : (QRow.codec.encAll (chunk log t.cp.qSegment.toNat)).length =
        t.cp.qOffset.toNat := by
      rw [RowCodec.length_encAll, QRow.codec_size, h.offset_eq]
    have htarget : EventQueue.target t = (t.cp.qSegment.toNat,
        (QRow.codec.encAll (chunk log t.cp.qSegment.toNat)).length) := by
      have hlt : ¬ queueSegmentRows * 36 ≤ t.cp.qOffset.toNat := by
        rw [queueSegmentRows, hoff]
        omega
      rw [EventQueue.target, Totalizer.queueOffsetOffset, if_neg hlt, hBlen,
        Totalizer.queueOffsetSegment]
    obtain ⟨tail, hfile0, htail, -⟩ := h.active
    have hstep : ∀ w', EventQueue.Unconfirmed w w' t.cp.qSegment.toNat
        (QRow.codec.encAll (chunk log t.cp.qSegment.toNat)) → LaidOut w'.file t.cp ack log := by
      intro w' hu
      rcases hu.tail with hsame | ⟨junk, hj, hjunk⟩
      · refine h.congr fun i => ?_
        by_cases hi : i = t.cp.qSegment.toNat
        · rw [hi, hsame]
        · exact hu.others i hi
      · exact h.set_tail hu.others hjunk hj fun hc => absurd hc hfull
    refine EventQueue.wp_append_tail hE htarget hfile0 htail (fun w' hu => hC w' hu.slots
      (hstep w' hu)) fun w' hu hfile => ?_
    have hseg : UInt32.ofNat t.cp.qSegment.toNat = t.cp.qSegment := UInt32.ofNat_toNat
    have hoffset : (UInt32.ofNat (t.cp.qOffset.toNat + 36)).toNat = t.cp.qOffset.toNat + 36 :=
      u32_ofNat (by omega)
    rw [hseg, hBlen]
    refine hset w' _ _ hu.slots (hstep w' hu) ?_
    have hhere := (hstep w' hu).append_here hroom hrow hfile
    simp only [LaidOut, hoffset]
    exact hhere

/-! ## Reconciling the segments at boot -/

/-- The largest element of a list of ids, zero for the empty list. -/
theorem le_foldl_max : ∀ (l : List ℕ) (m : ℕ), m ≤ l.foldl max m ∧ ∀ i ∈ l, i ≤ l.foldl max m
  | [], m => ⟨le_rfl, by simp⟩
  | x :: l, m => by
    obtain ⟨h1, h2⟩ := le_foldl_max l (max m x)
    rw [List.foldl_cons]
    refine ⟨(le_max_left m x).trans h1, fun i hi => ?_⟩
    rcases List.mem_cons.mp hi with rfl | hi
    · exact (le_max_right m i).trans h1
    · exact h2 i hi

theorem foldl_max_mem : ∀ (l : List ℕ) (m : ℕ), l.foldl max m = m ∨ l.foldl max m ∈ l
  | [], m => .inl rfl
  | x :: l, m => by
    rw [List.foldl_cons]
    rcases foldl_max_mem l (max m x) with h | h
    · rw [h]
      rcases max_choice m x with hm | hm
      · exact .inl hm
      · exact .inr (by rw [hm]; exact List.mem_cons_self)
    · exact .inr (List.mem_cons_of_mem _ h)

/-- The ids read from a listing of the queue directory are those of the segment
files, as long as the file names have room for them. -/
theorem mem_segmentIds {f : Flash} {names : List (List Char)} (hn : List.Perm names f.queueDir)
    (hsmall : ∀ i, f.file (.seg i) ≠ none → i < 10 ^ 6) {i : ℕ} :
    i ∈ names.filterMap parseSegmentId ↔ f.file (.seg i) ≠ none := by
  rw [List.mem_filterMap]
  constructor
  · rintro ⟨name, hname, hparse⟩
    obtain ⟨p, hp, hpn⟩ := Flash.mem_queueDir.mp (hn.subset hname)
    cases p with
    | tot b => cases hpn
    | ack b =>
      obtain ⟨hA, hB, -, -⟩ := parseSegmentId_ackName
      cases b <;> cases hpn
      · exact absurd (hB.symm.trans hparse) (by simp)
      · exact absurd (hA.symm.trans hparse) (by simp)
    | fail b =>
      obtain ⟨-, -, hA, hB⟩ := parseSegmentId_ackName
      cases b <;> cases hpn
      · exact absurd (hB.symm.trans hparse) (by simp)
      · exact absurd (hA.symm.trans hparse) (by simp)
    | seg j =>
      cases hpn
      rw [parseSegmentId_segmentName (hsmall j hp), Option.some.injEq] at hparse
      rw [← hparse]
      exact hp
  · intro hi
    exact ⟨segmentName i, hn.symm.subset (Flash.mem_queueDir.mpr ⟨.seg i, hi, rfl⟩),
      parseSegmentId_segmentName (hsmall i hi)⟩

/-- In a laid-out flash the segments present lie at most one above the active
one. -/
theorem Layout.present_le {fs : Path → Option Data} {A O cs co : ℕ} {acked : UInt32}
    {log : List QRow} (h : Layout fs A O cs co acked log) {i : ℕ} (hi : fs (.seg i) ≠ none) :
    i ≤ A + 1 := by
  by_contra hc
  exact hi (h.above i (by omega))

/-- The reconciliation deletes only what the layout can spare. -/
theorem LaidOut.wp_cleanup {t : Totalizer} {ack : AckRec} {log : List QRow}
    (h : LaidOut w.file t.cp ack log) (hA : t.cp.qSegment.toNat + 1 < 10 ^ 6)
    {Q : Totalizer → World ε → Prop}
    (hC : ∀ w', SameSlots w w' → LaidOut w'.file t.cp ack log → C w')
    (hQ : ∀ w', SameSlots w w' → LaidOut w'.file t.cp ack log → Q t w') :
    wp (sem E) (EventQueue.cleanupOrphanSegments ack t) Q C w := by
  refine EventQueue.wp_cleanupOrphanSegments (hC w (SameSlots.refl w) h) fun names hn => ?_
  have hsmall : ∀ i, w.flash.file (.seg i) ≠ none → i < 10 ^ 6 := fun i hi => by
    have := h.present_le hi
    omega
  have hids : ∀ i, i ∈ names.filterMap parseSegmentId ↔ w.file (.seg i) ≠ none := fun i =>
    mem_segmentIds hn hsmall
  have hmax : (names.filterMap parseSegmentId).foldl max 0 ≤ t.cp.qSegment.toNat + 1 := by
    rcases foldl_max_mem (names.filterMap parseSegmentId) 0 with h0 | hmem
    · rw [h0]
      omega
    · exact h.present_le ((hids _).mp hmem)
  have hu32 : u32 (t.queueOffsetSegment.toNat + 1) = t.cp.qSegment.toNat + 1 :=
    u32_of_lt (by change t.cp.qSegment.toNat + 1 < 2 ^ 32; omega)
  refine ⟨fun hc => absurd hc.2 (by rw [hu32]; omega), fun _ => ?_⟩
  -- what is listed for deletion lies above the active segment or below the cursor
  refine wp_mono (EventQueue.wp_removeAll (fun s => t.cp.qSegment.toNat < s ∨
    s < ack.cursorSegment.toNat) _ ?_ (SameSlots.refl w) fun _ => .inl rfl) ?_ ?_
  · intro s hs
    have hf := (List.mem_filter.mp (List.mem_of_mem_take hs)).2
    rw [Bool.or_eq_true, decide_eq_true_eq, decide_eq_true_eq] at hf
    exact hf
  · rintro _ w' ⟨hsame, hkeep⟩
    exact hQ w' hsame (h.remove_dead fun i => (hkeep i).imp_right fun hi => ⟨hi.1, hi.2.symm⟩)
  · rintro w' ⟨hsame, hkeep⟩
    exact hC w' hsame (h.remove_dead fun i => (hkeep i).imp_right fun hi => ⟨hi.1, hi.2.symm⟩)

end Device
end CovioFirmware
