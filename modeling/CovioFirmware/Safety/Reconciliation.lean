import CovioFirmware.Safety.Durability

/-!
# What the boot-time sweep deletes

`cleanupOrphanSegments_` deletes what lies above the active segment or below the
cursor.  The active segment it goes by is the one of the recovered checkpoint,
and that can be an older one than the flash was written under.  The routine
recognises this when the highest segment present is at least two above the
recovered one, and then adopts it; one above looks like the remains of an
interrupted rollover and is deleted.

So the case that goes wrong is a regression by exactly one segment.  For every
flash a run can leave, and every checkpoint a boot can come back with,
`sweep_safe_iff` says that nothing confirmed and unacknowledged is deleted
exactly if that is not the case, or the rollover beyond the true segment had
begun, or the true segment is acknowledged.
-/

namespace CovioFirmware
namespace Device

open Crash Bytes

/-- The rows of a segment that the checkpoint on flash has confirmed. -/
def confirmedIn (fs : Path → Option Data) (s : ℕ) : List QRow :=
  let cp := ckptSlots.recover fs
  match fs (.seg s) with
  | none => []
  | some b => QRow.codec.rowsIn b 0
      (if s < cp.qSegment.toNat then b.length
        else if s = cp.qSegment.toNat then cp.qOffset.toNat else 0)

/-- The checkpoints a boot may come back with: the one that is on flash, one that
was there before, or none. -/
inductive Recoverable (w : World Unit) : Checkpoint → Prop where
  | present : Recoverable w (ckptSlots.recover w.file)
  | older {b : Bool} {d : Data} : (.tot b, d) ∈ w.flash.done →
      Recoverable w (ckptSlots.kind.ofBytes d)
  | zeroed : Recoverable w Checkpoint.blank

/-- The sweep of a boot that came back with the checkpoint `c`. -/
def sweep (w : World Unit) (c : Checkpoint) (bootId : UInt32) : Fw Totalizer :=
  EventQueue.cleanupOrphanSegments (ackSlots.recover w.file)
    { cp := { c with bootId := bootId }, base := c.total, accumulated := 0 }

/-- At no moment of the sweep is a segment gone that held a confirmed row above
the acknowledged seq. -/
def SweepsOnlyDead (w : World Unit) (c : Checkpoint) (bootId : UInt32) : Prop :=
  ∀ w', Cuts (sem Env.calm) (sweep w c bootId) w w' → ∀ s, w'.file (.seg s) = none →
    ∀ r ∈ confirmedIn w.file s, r.intact = true → r.seq ≤ (ackSlots.recover w.file).ackedSeq

/-- The recovered checkpoint is one segment behind, the segment after the true one
has not been started, and the true one holds something the server does not
have. -/
def OneBehind (fs : Path → Option Data) (c : Checkpoint) : Prop :=
  (ckptSlots.recover fs).qSegment.toNat = c.qSegment.toNat + 1 ∧
    fs (.seg ((ckptSlots.recover fs).qSegment.toNat + 1)) = none ∧
    ∃ r ∈ confirmedIn fs (ckptSlots.recover fs).qSegment.toNat,
      r.intact = true ∧ (ackSlots.recover fs).ackedSeq < r.seq

/-! ## The flash of a run -/

section

variable {w : World Unit} {cp c : Checkpoint} {ack : AckRec} {log : List QRow} {bootId : UInt32}

/-- What is confirmed in a segment is the segment's part of the log. -/
theorem Durable.confirmedIn_eq (h : Durable w cp ack log) {s : ℕ} (hs : w.file (.seg s) ≠ none) :
    confirmedIn w.file s = chunk log s := by
  rw [confirmedIn, h.ckptLast.recover]
  obtain ⟨b, hb⟩ := Option.ne_none_iff_exists'.mp hs
  simp only [hb]
  have hread : ∀ tail : Data, QRow.codec.rowsIn (QRow.codec.encAll (chunk log s) ++ tail) 0
      (36 * (chunk log s).length) = chunk log s := fun tail =>
    Layout.rowsIn_chunk (c := 0) (Nat.zero_le _)
  by_cases hlt : s < cp.qSegment.toNat
  · rw [if_pos hlt]
    rcases h.laid.closed s hlt with hfile | ⟨-, hnone⟩
    · rw [hb] at hfile
      rw [Option.some.inj hfile, RowCodec.length_encAll, QRow.codec_size]
      have := hread []
      rwa [List.append_nil] at this
    · exact absurd hnone hs
  · rw [if_neg hlt]
    by_cases heq : s = cp.qSegment.toNat
    · rw [if_pos heq]
      subst heq
      obtain ⟨tail, hfile, -, -⟩ := h.laid.active
      rw [hb, Option.getD_some] at hfile
      rw [hfile, h.laid.offset_eq]
      exact hread tail
    · have hupper := h.laid.upper
      rw [if_neg heq, QRow.codec.rowsIn_of_lt (by rw [QRow.codec_size]; omega),
        chunk_eq_nil (by omega)]

theorem confirmedIn_of_none {fs : Path → Option Data} {s : ℕ} (h : fs (.seg s) = none) :
    confirmedIn fs s = [] := by
  rw [confirmedIn, h]

/-- Below the cursor everything is acknowledged. -/
theorem LaidOut.acked_of_lt {fs : Path → Option Data} (h : LaidOut fs cp ack log) {s : ℕ}
    (hs : s < ack.cursorSegment.toNat) {r : QRow} (hr : r ∈ chunk log s) : r.seq ≤ ack.ackedSeq := by
  obtain ⟨k, -, hlow, -, -, hacked⟩ := h.cursor
  refine hacked r ?_
  have hsub : chunk log s <+: (log.take k).drop (5000 * s) := by
    rw [chunk, List.drop_take]
    exact List.take_prefix_take_left (by omega)
  exact List.mem_of_mem_drop (hsub.subset hr)

/-- A segment that is present and lies above the true one is the next. -/
theorem LaidOut.present_cases {fs : Path → Option Data} (h : LaidOut fs cp ack log) {s : ℕ}
    (hs : fs (.seg s) ≠ none) :
    s ≤ cp.qSegment.toNat ∨ (s = cp.qSegment.toNat + 1 ∧ fs (.seg (cp.qSegment.toNat + 1)) ≠ none) := by
  have hle := h.present_le hs
  by_cases heq : s = cp.qSegment.toNat + 1
  · exact .inr ⟨heq, heq ▸ hs⟩
  · exact .inl (by omega)

theorem Recoverable.segment_le (h : Holding w cp ack log) (hc : Recoverable w c) :
    c.qSegment.toNat ≤ cp.qSegment.toNat := by
  cases hc with
  | present => rw [h.durable.ckptLast.recover]
  | older hm => exact h.past _ _ hm
  | zeroed => exact Nat.zero_le _

theorem Holding.sweepsOnlyDead (h : Holding w cp ack log) (hcount : w.flash.Counted) (hc : Recoverable w c)
    (hno : ¬ OneBehind w.file c) : SweepsOnlyDead w c bootId := by
  have hA := h.durable.segment_lt hcount
  have hR := hc.segment_le h
  have hrec : ckptSlots.recover w.file = cp := h.durable.ckptLast.recover
  have hack : ackSlots.recover w.file = ack := h.durable.ackLast.recover
  set C : World Unit → Prop := fun w' => ∀ s, w'.file (.seg s) = none →
    ∀ r ∈ confirmedIn w.file s, r.intact = true → r.seq ≤ (ackSlots.recover w.file).ackedSeq with hCdef
  have hgood : ∀ w' : World Unit, (∀ s, w'.file (.seg s) = w.file (.seg s) ∨
      (w'.file (.seg s) = none ∧ ∀ r ∈ confirmedIn w.file s, r.seq ≤ ack.ackedSeq)) → C w' := by
    intro w' hw' s hs r hr _
    rw [hack]
    rcases hw' s with hsame | ⟨-, hdead⟩
    · rw [hsame] at hs
      rw [confirmedIn_of_none hs] at hr
      cases hr
    · exact hdead r hr
  intro w' hcut
  refine wp.cuts (Q := fun _ _ => True) (C := C) ?_ hcut
  refine EventQueue.wp_cleanupOrphanSegments (hgood w fun _ => .inl rfl) fun names hn => ?_
  have hids : ∀ i, i ∈ names.filterMap parseSegmentId ↔ w.file (.seg i) ≠ none := fun i =>
    mem_segmentIds hn fun j hj => by
      have := h.durable.laid.present_le hj
      omega
  have hmax := (le_foldl_max (names.filterMap parseSegmentId) 0).2
  have hu : u32 (c.qSegment.toNat + 1) = c.qSegment.toNat + 1 := u32_of_lt (by omega)
  refine ⟨fun _ => ?_, fun hkeep => ?_⟩
  · -- adoption reads and persists, and leaves the segments alone
    refine wp_mono (Touches.wp (P := fun _ => False) (EventQueue.makes_adoptValidRows
      (fun _ hs => hs.1.touches _) _ _ _ _) fun _ _ => rfl) (fun adopted w1 h1 => ?_) fun w1 h1 => ?_
    · refine wp_mono (Touches.wp (P := fun p => ∃ b, p = .tot b) (Totalizer.makes_persist
        (fun b d x hx => ⟨b, (Option.some.inj hx).symm⟩) _) fun _ _ => rfl)
        (fun _ _ _ => trivial) fun w2 h2 => hgood w2 fun s => .inl ?_
      rw [h2 _ (by simp), h1 _ id]
    · exact hgood w1 fun s => .inl (h1 _ id)
  · -- what is deleted is below the cursor or above the true segment
    refine wp_mono (EventQueue.wp_removeAll (fun s => ∀ r ∈ confirmedIn w.file s,
      r.seq ≤ ack.ackedSeq) _ (fun s hs => ?_) (SameSlots.refl w) fun _ => .inl rfl)
      (fun _ _ _ => trivial) fun w2 h2 => hgood w2 h2.2
    obtain ⟨hmem, hf⟩ := List.mem_filter.mp (List.mem_of_mem_take hs)
    have hpresent := (hids s).mp hmem
    rw [h.durable.confirmedIn_eq hpresent]
    intro r hr
    rw [Bool.or_eq_true, decide_eq_true_eq, decide_eq_true_eq, hack] at hf
    rcases hf with hf | hf
    · change c.qSegment.toNat < s at hf
      have hne : names.filterMap parseSegmentId ≠ [] := List.ne_nil_of_mem hmem
      have hle : (names.filterMap parseSegmentId).foldl max 0 ≤ c.qSegment.toNat + 1 := by
        by_contra hlt
        refine hkeep ⟨hne, ?_⟩
        change u32 (c.qSegment.toNat + 1) < _
        rw [hu]
        omega
      rcases h.durable.laid.present_cases hpresent with hsT | ⟨rfl, -⟩
      · -- only the segment right above the recovered one is left: the true one
        have hT := hmax _ ((hids _).mpr (h.durable.laid.rooted.resolve_left (by omega)))
        have hsT' : s = cp.qSegment.toNat := by omega
        subst hsT'
        by_contra hlive
        refine hno ⟨by rw [hrec]; omega, ?_, r, ?_, h.durable.laid.intact r
          (Layout.mem_of_mem_chunk hr), ?_⟩
        · rw [hrec]
          by_contra hnext
          have := hmax _ ((hids _).mpr hnext)
          omega
        · rw [hrec, h.durable.confirmedIn_eq hpresent]
          exact hr
        · rw [hack]
          exact UInt32.not_le.mp hlive
      · -- nothing in the segment after the true one is confirmed
        rw [chunk_eq_nil (by have := h.durable.laid.upper; omega)] at hr
        cases hr
    · exact h.durable.laid.acked_of_lt hf hr

theorem Holding.not_sweepsOnlyDead (h : Holding w cp ack log) (hcount : w.flash.Counted)
    (hone : OneBehind w.file c) :
    ¬ SweepsOnlyDead w c bootId := by
  have hA := h.durable.segment_lt hcount
  have hrec : ckptSlots.recover w.file = cp := h.durable.ckptLast.recover
  rw [OneBehind, hrec] at hone
  obtain ⟨hT, hnext, r, hr, hintact, hlive⟩ := hone
  have hpresent : w.file (.seg cp.qSegment.toNat) ≠ none := by
    intro hnone
    rw [confirmedIn_of_none hnone] at hr
    cases hr
  -- a listing of the directory that starts with the true segment
  have hmem : segmentName cp.qSegment.toNat ∈ w.flash.queueDir :=
    Flash.mem_queueDir.mpr ⟨.seg cp.qSegment.toNat, hpresent, rfl⟩
  have hperm : List.Perm (segmentName cp.qSegment.toNat ::
      w.flash.queueDir.erase (segmentName cp.qSegment.toNat)) w.flash.queueDir :=
    (List.perm_cons_erase hmem).symm
  set rest := w.flash.queueDir.erase (segmentName cp.qSegment.toNat) with hrest
  have hparse : (segmentName cp.qSegment.toNat :: rest).filterMap parseSegmentId =
      cp.qSegment.toNat :: rest.filterMap parseSegmentId :=
    List.filterMap_cons_some (parseSegmentId_segmentName (by omega))
  have hids : ∀ i, i ∈ (segmentName cp.qSegment.toNat :: rest).filterMap parseSegmentId ↔
      w.file (.seg i) ≠ none := fun i => mem_segmentIds hperm fun j hj => by
    have := h.durable.laid.present_le hj
    omega
  have hmax : ((segmentName cp.qSegment.toNat :: rest).filterMap parseSegmentId).foldl max 0 ≤
      cp.qSegment.toNat := by
    rcases foldl_max_mem ((segmentName cp.qSegment.toNat :: rest).filterMap parseSegmentId) 0 with
      h0 | hm
    · rw [h0]
      exact Nat.zero_le _
    · rcases h.durable.laid.present_cases ((hids _).mp hm) with hle | ⟨-, hne⟩
      · exact hle
      · exact absurd hnext hne
  intro hsafe
  refine absurd (hsafe (w.set (.seg cp.qSegment.toNat) none) ?_ cp.qSegment.toNat (by simp) r hr
    hintact) (UInt32.not_le.mpr hlive)
  simp only [sweep, EventQueue.cleanupOrphanSegments, Fw.openDir_bind]
  refine .later (i := Call.openDir) (r := segmentName cp.qSegment.toNat :: rest) ⟨hperm, rfl⟩ ?_
  have hno : ¬ ((segmentName cp.qSegment.toNat :: rest).filterMap parseSegmentId ≠ [] ∧
      u32 (c.qSegment.toNat + 1) <
        ((segmentName cp.qSegment.toNat :: rest).filterMap parseSegmentId).foldl max 0) := by
    rintro ⟨-, hlt⟩
    rw [u32_of_lt (by omega)] at hlt
    omega
  have hdelete : decide (c.qSegment.toNat < cp.qSegment.toNat) = true := by
    rw [decide_eq_true_eq]
    omega
  obtain ⟨tail, hlist⟩ : ∃ tail,
      ((segmentName cp.qSegment.toNat :: rest).filterMap parseSegmentId).filter
        (fun id => decide (c.qSegment.toNat < id) ||
          decide (id < (ackSlots.recover w.file).cursorSegment.toNat)) =
      cp.qSegment.toNat :: tail := by
    rw [hparse]
    exact ⟨_, List.filter_cons_of_pos (by rw [hdelete, Bool.true_or])⟩
  refine Eq.mpr (congrArg (fun p => Cuts (sem Env.calm) p w _) (if_neg hno)) (Cuts.bind ?_ _)
  refine Eq.mpr (congrArg (fun l => Cuts (sem Env.calm) (EventQueue.removeAll (l.take 32)) w _)
    hlist) ?_
  exact .during (i := Call.remove (.seg cp.qSegment.toNat)) rfl

end

/-! ## The condition -/

/-- **The sweep deletes only dead segments, except one segment behind.**  For
every flash a run can leave and every checkpoint a boot can come back with. -/
theorem sweep_safe_iff {n : Node Globals (World Unit)} {log : List QRow} (h : QueueRuns n log)
    (hcount : n.store.flash.Counted) {c : Checkpoint} (hc : Recoverable n.store c)
    (bootId : UInt32) :
    SweepsOnlyDead n.store c bootId ↔ ¬ OneBehind n.store.file c := by
  obtain ⟨cp, ack, hold⟩ : ∃ cp ack, Holding n.store cp ack log := by
    have hall := QueueRuns.holds h
    cases n with
    | off w => exact hall hcount
    | on d w =>
      obtain ⟨cp, serve⟩ := hall hcount
      exact ⟨cp, d.q.ack, serve.holding⟩
  exact ⟨fun hsafe hone => hold.not_sweepsOnlyDead hcount hone hsafe, hold.sweepsOnlyDead hcount hc⟩

/-- With the true checkpoint in hand, one row on flash. -/
theorem one_row_survives_sweep : ∃ d w, QueueRuns (.on d w) [QRow.kind.stamp firstRow] ∧
    SweepsOnlyDead w (ckptSlots.recover w.file) 1 := by
  obtain ⟨d, w, cp, hfills, h⟩ := exists_fills [firstRow] (by decide)
  have hcounted : w.flash.Counted := by
    rw [Flash.Counted, h.checkpoints]
    decide
  refine ⟨d, w, hfills.queueRuns, (sweep_safe_iff hfills.queueRuns hcounted .present 1).mpr ?_⟩
  rintro ⟨hT, -⟩
  exact Nat.succ_ne_self _ hT.symm

/-- A full segment and one row more, and both checkpoint slots lost: the boot
takes the second segment for the remains of a rollover and deletes it, with an
unacknowledged row in it. -/
theorem zeroed_checkpoint_sweeps_live_row : ∃ d w log, QueueRuns (.on d w) log ∧
    w.flash.Counted ∧ Recoverable w Checkpoint.blank ∧ ¬ SweepsOnlyDead w Checkpoint.blank 1 := by
  obtain ⟨n, hn⟩ : ∃ n, n = 5001 := ⟨_, rfl⟩
  obtain ⟨d, w, cp, hfills, h⟩ := exists_fills (List.replicate n firstRow)
    (by rw [List.length_replicate]; omega)
  have hlen : ((List.replicate n firstRow).map QRow.kind.stamp).length = n := by
    rw [List.length_map, List.length_replicate]
  have hcounted : w.flash.Counted := by
    rw [Flash.Counted, h.checkpoints, hlen]
    omega
  obtain ⟨cp', serve⟩ := QueueRuns.holds hfills.queueRuns hcounted
  refine ⟨d, w, _, hfills.queueRuns, hcounted, .zeroed,
    serve.holding.not_sweepsOnlyDead hcounted ?_⟩
  have hrec : ckptSlots.recover w.file = cp := h.durable.ckptLast.recover
  have hack : ackSlots.recover w.file = AckRec.blank :=
    h.durable.ackLast.recover.trans h.ack
  have hlower := h.durable.laid.lower
  have hupper := h.durable.laid.upper
  have hT : cp.qSegment.toNat = 1 := by omega
  have hpresent := h.durable.laid.rooted.resolve_left (by omega)
  -- the one row of the second segment
  have hrow : QRow.kind.stamp firstRow ∈
      chunk ((List.replicate n firstRow).map QRow.kind.stamp) 1 := by
    rw [chunk, List.map_replicate, List.drop_replicate, List.take_replicate, hn]
    exact List.mem_replicate.mpr ⟨by decide, rfl⟩
  rw [OneBehind, hrec, hack]
  refine ⟨by rw [hT]; rfl, ?_, QRow.kind.stamp firstRow, ?_, QRow.kind.intact_stamp _, ?_⟩
  · by_contra hne
    have := (h.durable.laid.next hne).1
    omega
  · rw [h.durable.confirmedIn_eq hpresent, hT]
    exact hrow
  · decide

end Device
end CovioFirmware
