import CovioFirmware.Queue.Adoption
import CovioFirmware.Safety.Durability

/-!
# Both slots of a record are lost

A record both of whose slots fail their check is recovered as zeros.  For the
checkpoint that is a write position at the start of segment 0, for the acknowledgement
record a cursor there.

`cleanupOrphanSegments_` notices a lost checkpoint by a segment above 1, and adopts the
highest one.  While the queue is still in its first two segments it does not: the position
stays at zero, `pending` reads nothing of what segment 0 holds, and segment 1 is swept as
the remains of a rollover.  A lost acknowledgement record is not noticed at all: where
segment 0 has been pruned, `pending` stops at the missing file.

Where neither is the case the loss costs nothing: every row that was confirmed before it
and is not acknowledged is still in the log the queue reads (`no_stranded_rows`).
-/

namespace CovioFirmware
namespace Device

open Crash Bytes

/-! ## Runs with losses -/

/-- The two records that describe the queue. -/
inductive QueueRecord where
  | ckpt | ack
  deriving DecidableEq

/-- The files of their slots. -/
def QueueRecord.path : QueueRecord → Bool → Path
  | .ckpt => .tot
  | .ack => .ack

/-- Both slots of a record come to fail their checks. -/
def World.lose (w : World Unit) (k : QueueRecord) (a b : Option Data) : World Unit :=
  (w.set (k.path true) a).set (k.path false) b

/-- While the device is off, the records may be lost that `allowed` lets be. -/
inductive Loses (allowed : QueueRecord → World Unit → Prop) :
    Node Globals (World Unit) → Node Globals (World Unit) → Prop
  | lose {k : QueueRecord} {w : World Unit} {a b : Option Data} : allowed k w →
      Unreadable (k.path true) a → Unreadable (k.path false) b →
      Loses allowed (.off w) (.off (w.lose k a b))

/-- The device on a working file system whose records may be lost. -/
def lossyMachine (allowed : QueueRecord → World Unit → Prop) :
    Machine Call Call.Reply (World Unit) Globals UInt32 QueueOp :=
  { queueMachine with env := Loses allowed }

/-- The rows confirmed so far, and those that were before the latest loss. -/
structure Confirmed where
  rows : List QRow
  before : List QRow

/-- A loss puts the rows confirmed so far behind it. -/
def noteLoss (a : Action UInt32 QueueOp) (n n' : Node Globals (World Unit)) (g : Confirmed) :
    Confirmed :=
  match a with
  | .env => ⟨g.rows, g.rows⟩
  | a => ⟨confirm a n n' g.rows, g.before⟩

/-- The states of all runs from a factory-fresh device. -/
abbrev LossyRuns (allowed : QueueRecord → World Unit → Prop) (n : Node Globals (World Unit))
    (g : Confirmed) : Prop :=
  Reach (lossyMachine allowed) (fun _ _ _ => True) noteLoss
    (fun n g => n = .off fresh ∧ g = ⟨[], []⟩) n g

/-- The losses that do no harm: of the checkpoint while a segment above 1 gives it away,
or the queue is empty; of the acknowledgement record while nothing has been pruned. -/
def Harmless : QueueRecord → World Unit → Prop
  | .ckpt, w => (∃ i, 2 ≤ i ∧ w.file (.seg i) ≠ none) ∨ ∀ i, w.file (.seg i) = none
  | .ack, w => ∀ i j, i < j → w.file (.seg j) ≠ none → w.file (.seg i) ≠ none

/-! ## The invariant -/

/-- The flash behind the loss of the checkpoint: the files are laid out for a position
that is not recorded, in a segment above 1. -/
structure Regressed (w : World Unit) (ack : AckRec) (log : List QRow) : Prop where
  lost : ∀ b, ckptSlots.slot w.file b = none
  ackLast : ackSlots.Last w.file ack
  ackNumbered : ack.writes.toNat ≤ w.flash.acks
  count : ack.writes.toNat ≤ ack.ackedSeq.toNat
  length : log.length ≤ w.flash.checkpoints
  laid : ∃ A O, w.flash.Past A ∧
    Layout w.file A O ack.cursorSegment.toNat ack.cursorOffset.toNat ack.ackedSeq log
  beyond : ∃ i, 2 ≤ i ∧ w.file (.seg i) ≠ none

/-- With the device off. -/
def Surviving (w : World Unit) (log : List QRow) : Prop :=
  (∃ cp ack, Holding w cp ack log) ∨ ∃ ack, Regressed w ack log

/-! ## What a loss leaves -/

namespace Layout

variable {fs : Path → Option Data} {A O cs co : ℕ} {acked : UInt32} {log : List QRow}

/-- Where nothing has been pruned the cursor may go back to the start. -/
theorem rewind (h : Layout fs A O cs co acked log)
    (hall : ∀ i j, i < j → fs (.seg j) ≠ none → fs (.seg i) ≠ none) (acked' : UInt32) :
    Layout fs A O 0 0 acked' log := by
  refine { h with closed := fun i hi => .inl ?_, cursor_le := Nat.zero_le _, cursor := ?_ }
  · have hA : fs (.seg A) ≠ none := h.rooted.resolve_left (Nat.ne_of_gt (Nat.zero_lt_of_lt hi))
    exact (h.closed i hi).resolve_right fun hno => hall i A hi hA hno.2
  · exact ⟨0, Nat.zero_le _, Nat.zero_le _, Nat.zero_le _, rfl, fun r hr => absurd hr (by simp)⟩

/-- Without files the log is empty. -/
theorem eq_nil_of_missing (h : Layout fs A O cs co acked log) (hno : ∀ i, fs (.seg i) = none) :
    log = [] ∧ A = 0 ∧ O = 0 := by
  have hA : A = 0 := h.rooted.resolve_right fun hne => hne (hno A)
  obtain ⟨tail, hfile, -, -⟩ := h.active
  have hup := h.upper
  rw [hno A, Option.getD_none] at hfile
  have hlen := congrArg List.length hfile
  rw [List.length_append, RowCodec.length_encAll, QRow.codec_size, h.length_active,
    List.length_nil] at hlen
  have hnil : log.length = 0 := by omega
  have hoff := h.offset
  exact ⟨List.length_eq_zero_iff.mp hnil, hA, by omega⟩

/-- The highest segments hold no more than a segment's rows and one row's worth of
bytes. -/
theorem length_le_of_top (h : Layout fs A O cs co acked log) {M : ℕ} {b : Data}
    (hM : fs (.seg M) = some b) (hA : A ≤ M) : b.length ≤ 36 * 5001 := by
  have hpresent : fs (.seg M) ≠ none := by simp [hM]
  have hle := h.present_le hpresent
  by_cases hMA : M = A
  · subst hMA
    obtain ⟨tail, hfile, htail, -⟩ := h.active
    rw [hM, Option.getD_some] at hfile
    have hchunk := length_chunk log M
    rw [hfile, List.length_append, RowCodec.length_encAll, QRow.codec_size]
    omega
  · obtain rfl : M = A + 1 := by omega
    have hshort := (h.next hpresent).2
    rw [hM, Option.getD_some] at hshort
    omega

end Layout

/-- Two slots that fail their checks hold nothing. -/
theorem Slots.slot_lost {R : Type} (S : Slots R) (fs : Path → Option Data) {a b : Option Data}
    (ha : S.load a = none) (hb : S.load b = none) (c : Bool) :
    S.slot (Function.update (Function.update fs (S.path true) a) (S.path false) b) c = none := by
  rw [S.slot_update, S.slot_update, ha, hb]
  cases c <;> rfl

section

variable {w w' : World Unit} {ack : AckRec} {cp : Checkpoint} {log : List QRow} {k : QueueRecord}
  {a b : Option Data}

namespace World

theorem file_lose (w : World Unit) (k : QueueRecord) (a b : Option Data) :
    (w.lose k a b).file = Function.update (Function.update w.file (k.path true) a)
      (k.path false) b := by
  rw [lose, World.file_set, World.file_set]

theorem segment_lose (w : World Unit) (k : QueueRecord) (a b : Option Data) (i : ℕ) :
    (w.lose k a b).file (.seg i) = w.file (.seg i) := by
  cases k <;> simp [file_lose, QueueRecord.path]

theorem done_lose (w : World Unit) (k : QueueRecord) (a b : Option Data) :
    (w.lose k a b).flash.done = w.flash.done := by
  rw [lose, World.done_set, World.done_set]

theorem counted_lose : (w.lose k a b).flash.Counted ↔ w.flash.Counted := by
  rw [Flash.Counted, Flash.Counted, checkpoints_congr (w.done_lose k a b)]

end World

/-- The checkpoint is lost. -/
theorem Holding.lose_ckpt (h : Holding w cp ack log) (hw : Harmless .ckpt w)
    (ha : Unreadable (.tot true) a) (hb : Unreadable (.tot false) b) :
    Surviving (w.lose .ckpt a b) log := by
  have hdone := w.done_lose .ckpt a b
  have hlost : ∀ c, ckptSlots.slot (w.lose .ckpt a b).file c = none := fun c => by
    rw [World.file_lose]
    exact ckptSlots.slot_lost _ ((ckptSlots.unreadable_iff true a).mp ha)
      ((ckptSlots.unreadable_iff false b).mp hb) c
  have hack : ackSlots.Last (w.lose .ckpt a b).file ack := h.durable.ackLast.congr fun c => by
    rw [World.file_lose]
    simp [ackSlots, QueueRecord.path]
  have hnumbered : ack.writes.toNat ≤ (w.lose .ckpt a b).flash.acks :=
    (acks_congr hdone).symm ▸ h.durable.ackNumbered
  have hlength : log.length ≤ (w.lose .ckpt a b).flash.checkpoints :=
    (checkpoints_congr hdone).symm ▸ h.durable.length
  have hlaid : LaidOut (w.lose .ckpt a b).file cp ack log :=
    h.durable.laid.congr (w.segment_lose .ckpt a b)
  have hpast := h.past.congr hdone
  rcases hw with ⟨i, hi, hfile⟩ | hno
  · refine .inr ⟨ack, hlost, hack, hnumbered, h.durable.count, hlength, ⟨_, _, hpast, hlaid⟩,
      i, hi, ?_⟩
    rw [World.segment_lose]
    exact hfile
  · -- there is nothing to lose
    obtain ⟨-, hA, hO⟩ := h.durable.laid.eq_nil_of_missing hno
    rw [LaidOut, hA, hO] at hlaid
    rw [hA] at hpast
    exact .inl ⟨Checkpoint.blank, ack, ⟨⟨⟨.blank hlost, hack, Nat.zero_le _, hnumbered⟩, hlength,
      hlaid⟩, h.durable.count⟩, hpast⟩

/-- The acknowledgement record is lost. -/
theorem ackSlots_last_lose (w : World Unit) (ha : Unreadable (.ack true) a)
    (hb : Unreadable (.ack false) b) : ackSlots.Last (w.lose .ack a b).file AckRec.blank := by
  refine .blank fun c => ?_
  rw [World.file_lose]
  exact ackSlots.slot_lost _ ((ackSlots.unreadable_iff true a).mp ha)
    ((ackSlots.unreadable_iff false b).mp hb) c

theorem Holding.lose_ack (h : Holding w cp ack log) (hw : Harmless .ack w)
    (ha : Unreadable (.ack true) a) (hb : Unreadable (.ack false) b) :
    Holding (w.lose .ack a b) cp AckRec.blank log := by
  have hdone := w.done_lose .ack a b
  refine ⟨⟨⟨⟨h.durable.ckptLast.congr fun c => ?_, ackSlots_last_lose w ha hb,
    (checkpoints_congr hdone).symm ▸ h.durable.numbered, Nat.zero_le _⟩,
    (checkpoints_congr hdone).symm ▸ h.durable.length, ?_⟩, le_rfl⟩, h.past.congr hdone⟩
  · rw [World.file_lose]
    simp [ckptSlots, QueueRecord.path]
  · exact (h.durable.laid.rewind hw _).congr (w.segment_lose .ack a b)

theorem Regressed.lose_ckpt (h : Regressed w ack log) (ha : Unreadable (.tot true) a)
    (hb : Unreadable (.tot false) b) : Regressed (w.lose .ckpt a b) ack log := by
  have hdone := w.done_lose .ckpt a b
  obtain ⟨A, O, hpast, hlaid⟩ := h.laid
  obtain ⟨i, hi, hfile⟩ := h.beyond
  refine ⟨fun c => ?_, h.ackLast.congr fun c => ?_, (acks_congr hdone).symm ▸ h.ackNumbered,
    h.count, (checkpoints_congr hdone).symm ▸ h.length,
    ⟨A, O, hpast.congr hdone, hlaid.congr (w.segment_lose .ckpt a b)⟩, i, hi, ?_⟩
  · rw [World.file_lose]
    exact ckptSlots.slot_lost _ ((ckptSlots.unreadable_iff true a).mp ha)
      ((ckptSlots.unreadable_iff false b).mp hb) c
  · rw [World.file_lose]
    simp [ackSlots, QueueRecord.path]
  · rw [World.segment_lose]
    exact hfile

theorem Regressed.lose_ack (h : Regressed w ack log) (hw : Harmless .ack w)
    (ha : Unreadable (.ack true) a) (hb : Unreadable (.ack false) b) :
    Regressed (w.lose .ack a b) AckRec.blank log := by
  have hdone := w.done_lose .ack a b
  obtain ⟨A, O, hpast, hlaid⟩ := h.laid
  obtain ⟨i, hi, hfile⟩ := h.beyond
  refine ⟨fun c => ?_, ackSlots_last_lose w ha hb, Nat.zero_le _, le_rfl,
    (checkpoints_congr hdone).symm ▸ h.length,
    ⟨A, O, hpast.congr hdone, (hlaid.rewind hw _).congr (w.segment_lose .ack a b)⟩, i, hi, ?_⟩
  · rw [← h.lost c, World.file_lose]
    simp [ckptSlots, QueueRecord.path, Slots.slot]
  · rw [World.segment_lose]
    exact hfile

/-- **A harmless loss keeps the log.** -/
theorem Surviving.lose (h : Surviving w log) (hw : Harmless k w)
    (ha : Unreadable (k.path true) a) (hb : Unreadable (k.path false) b) :
    Surviving (w.lose k a b) log := by
  rcases h with ⟨cp, ack, h⟩ | ⟨ack, h⟩
  · cases k with
    | ckpt => exact h.lose_ckpt hw ha hb
    | ack => exact .inl ⟨cp, _, h.lose_ack hw ha hb⟩
  · cases k with
    | ckpt => exact .inr ⟨ack, h.lose_ckpt ha hb⟩
    | ack => exact .inr ⟨_, h.lose_ack hw ha hb⟩

/-! ## The boot behind it -/

/-- The checkpoint slots stay lost while one of them is being written. -/
theorem Regressed.tear (h : Regressed w ack log) (c : Bool) {x : Option Data}
    (hx : Unreadable (ckptSlots.path c) x) : Regressed (w.set (ckptSlots.path c) x) ack log := by
  have hdone := World.done_set w (ckptSlots.path c) x
  have hsegs : ∀ i, (w.set (ckptSlots.path c) x).file (.seg i) = w.file (.seg i) := fun i => by
    rw [World.file_set, Function.update_of_ne (by simp [ckptSlots])]
  obtain ⟨A, O, hpast, hlaid⟩ := h.laid
  obtain ⟨i, hi, hfile⟩ := h.beyond
  refine ⟨fun c' => ?_, h.ackLast.congr fun c' => ?_, (acks_congr hdone).symm ▸ h.ackNumbered,
    h.count, (checkpoints_congr hdone).symm ▸ h.length,
    ⟨A, O, hpast.congr hdone, hlaid.congr hsegs⟩, i, hi, ?_⟩
  · rw [World.file_set, Slots.slot_update, (ckptSlots.unreadable_iff c x).mp hx]
    by_cases hc : c' = c
    · rw [hc, Function.update_self]
    · rw [Function.update_of_ne hc, h.lost c']
  · rw [World.file_set, Function.update_of_ne (by simp [ackSlots, ckptSlots])]
  · rw [hsegs]
    exact hfile

/-- The records behind the loss are coherent. -/
theorem Regressed.coherent (h : Regressed w ack log) : Coherent w Checkpoint.blank ack :=
  ⟨.blank h.lost, h.ackLast, Nat.zero_le _, h.ackNumbered⟩

/-- Writing the position of the highest segment. -/
theorem Regressed.adopt (h : Regressed w ack log) (hcount : w.flash.Counted) {M : ℕ} {f : Data}
    (hM : w.file (.seg M) = some f) (htop : ∀ i, w.file (.seg i) ≠ none → i ≤ M)
    {c : Checkpoint} (hw : c.writes = 0) (hseg : c.qSegment = .ofNat M)
    (hoff : c.qOffset = .ofNat (36 * (goodRows f 0).length))
    (hc : (w.persisted c).flash.Counted) :
    ∃ log', (∀ r ∈ log, r ∈ log') ∧ Holding (w.persisted c) (ckptSlots.next c) ack log' := by
  obtain ⟨A, O, hpast, hlaid⟩ := h.laid
  obtain ⟨log', hlog, hfound⟩ := hlaid.adopt hM htop
  have hA := hlaid.segment_lt (lt_of_le_of_lt h.length hcount)
  have hMA := hlaid.present_le (i := M) (by simp [hM])
  have hup := hfound.upper
  have hlen : log'.length ≤ log.length + 1 ∧ ∀ r ∈ log, r ∈ log' := by
    rcases hlog with rfl | ⟨x, rfl⟩
    · exact ⟨Nat.le_succ _, fun r hr => hr⟩
    · exact ⟨by simp, fun r hr => List.mem_append_left _ hr⟩
  have hnew : LaidOut w.file c ack log' := by
    have hoffset := hfound.offset
    rw [LaidOut, hseg, hoff, u32_ofNat (by omega), u32_ofNat (by omega)]
    exact hfound
  have hold := h.length
  have hAM : A ≤ M := by
    rcases hlaid.rooted with h0 | hne
    · omega
    · exact htop A hne
  have hcM : c.qSegment.toNat = M := by rw [hseg, u32_ofNat (by omega)]
  refine ⟨log', hlen.2, ⟨⟨h.coherent.writeCkpt hw hc, ?_, ?_⟩, h.count⟩,
    (hpast.mono (hcM ▸ hAM)).persisted le_rfl⟩
  · rw [checkpoints_write]
    omega
  · have hnext : LaidOut w.file (ckptSlots.next c) ack log' := hnew
    refine hnext.congr fun i => ?_
    rw [World.file_write, Function.update_of_ne (by simp [ckptSlots])]

/-- **A boot behind a lost checkpoint** adopts the highest segment, and finds the log
again. -/
theorem Regressed.wp_setup (h : Regressed w ack log) (hcount : w.flash.Counted)
    (bootId : UInt32) :
    wp (sem Env.calm) (setup bootId)
      (fun d w' => w'.flash.Counted → ∃ cp log', (∀ r ∈ log, r ∈ log') ∧ Serving d w' cp log')
      (fun w' => w'.flash.Counted → ∃ log', (∀ r ∈ log, r ∈ log') ∧ Surviving w' log') w := by
  have hkept : ∀ {w' : World Unit}, Regressed w' ack log → w'.flash.Counted →
      ∃ log', (∀ r ∈ log, r ∈ log') ∧ Surviving w' log' :=
    fun h' _ => ⟨log, fun r hr => hr, .inr ⟨ack, h'⟩⟩
  obtain ⟨A, O, hpast, hlaid⟩ := h.laid
  obtain ⟨i, hi, hfile⟩ := h.beyond
  have hA := hlaid.segment_lt (lt_of_le_of_lt h.length hcount)
  have hslot : ∀ c, loadSlot (w.file (.tot c)) = none := fun c => Option.map_eq_none_iff.mp (h.lost c)
  refine wp_bind (Totalizer.wp_begin (hkept h) ⟨?_, fun hlegacy => ?_⟩)
  · rw [Slots.recover_none h.lost]
    refine wp_map (EventQueue.wp_begin ?_)
    rw [h.ackLast.recover]
    refine EventQueue.wp_cleanupOrphanSegments (hkept h) fun names hn => ?_
    have hids : ∀ j, j ∈ names.filterMap parseSegmentId ↔ w.file (.seg j) ≠ none := fun j =>
      mem_segmentIds hn fun j' hj' => by
        have := hlaid.present_le hj'
        omega
    obtain ⟨M, hmax⟩ : ∃ M, (names.filterMap parseSegmentId).foldl max 0 = M := ⟨_, rfl⟩
    have htop : ∀ j, w.file (.seg j) ≠ none → j ≤ M := fun j hj =>
      hmax ▸ (le_foldl_max _ 0).2 j ((hids j).mpr hj)
    have hMi := htop i hfile
    have hpresent : w.file (.seg M) ≠ none := by
      rcases foldl_max_mem (names.filterMap parseSegmentId) 0 with h0 | hmem
      · omega
      · exact hmax ▸ (hids _).mp hmem
    obtain ⟨f, hf⟩ := Option.ne_none_iff_exists'.mp hpresent
    simp only [hmax, hf, Option.getD_some]
    have hadopts : names.filterMap parseSegmentId ≠ [] ∧ u32 (0 + 1) < M :=
      ⟨List.ne_nil_of_mem ((hids i).mpr hfile), lt_of_lt_of_le Nat.one_lt_two (hi.trans hMi)⟩
    refine ⟨fun _ => ?_, fun hno => absurd hadopts hno⟩
    have hAM : A ≤ M := by
      rcases hlaid.rooted with h0 | hne
      · omega
      · exact htop A hne
    have hsize := hlaid.length_le_of_top hf hAM
    refine EventQueue.wp_adoptValidRows Env.calm_reliable.reads hf (by omega) (hkept h) _ 0
      (Nat.zero_le _) (Nat.lt_succ_self _) ?_
    rw [Nat.zero_add]
    refine Totalizer.wp_persist (Slots.wp_persist (hkept h) (fun x hx => hkept (h.tear _ hx)) ?_
      fun p x hfails => hfails.elim)
    have hadopted := h.adopt hcount hf htop (c := { Checkpoint.blank with
      bootId := bootId, qSegment := .ofNat M, qOffset := .ofNat (36 * (goodRows f 0).length) })
      rfl rfl rfl
    refine ⟨fun hc => ?_, fun hc => ?_⟩
    · obtain ⟨log', hsub, hd⟩ := hadopted hc
      exact ⟨log', hsub, .inl ⟨_, ack, hd⟩⟩
    · obtain ⟨log', hsub, hd⟩ := hadopted hc
      exact ⟨_, log', hsub, ⟨hd, .refl _⟩⟩
  · rw [hslot, hslot] at hlegacy
    cases hlegacy

end

/-! ## Every run -/

/-- A list that holds another still does behind the same append. -/
theorem confirm_subset {a : Action UInt32 QueueOp} {n n' : Node Globals (World Unit)}
    {rows log : List QRow} (h : ∀ r ∈ rows, r ∈ log) :
    ∀ r ∈ confirm a n n' rows, r ∈ confirm a n n' log := by
  intro r hr
  cases a with
  | op i =>
    cases i with
    | append row =>
      unfold confirm at hr ⊢
      split_ifs at hr ⊢
      · rcases List.mem_append.mp hr with hr | hr
        · exact List.mem_append_left _ (h r hr)
        · exact List.mem_append_right _ hr
      · exact h r hr
    | service seq => exact h r hr
    | ackThrough ackedSeq bootId => exact h r hr
  | boot bootId => exact h r hr
  | env => exact h r hr

theorem mem_confirm (a : Action UInt32 QueueOp) (n n' : Node Globals (World Unit))
    {log : List QRow} {r : QRow} (h : r ∈ log) : r ∈ confirm a n n' log := by
  cases a with
  | op i =>
    cases i with
    | append row =>
      unfold confirm
      split_ifs
      · exact List.mem_append_left _ h
      · exact h
    | service seq => exact h
    | ackThrough ackedSeq bootId => exact h
  | boot bootId => exact h
  | env => exact h

/-- Every row confirmed, before the latest loss or since, is in the log. -/
def Confirmed.In (g : Confirmed) (log : List QRow) : Prop :=
  (∀ r ∈ g.rows, r ∈ log) ∧ ∀ r ∈ g.before, r ∈ log

theorem Confirmed.In.mono {g : Confirmed} {log log' : List QRow} (h : g.In log)
    (hsub : ∀ r ∈ log, r ∈ log') : g.In log' :=
  ⟨fun r hr => hsub r (h.1 r hr), fun r hr => hsub r (h.2 r hr)⟩

/-- An operation confirms in the log what it confirms. -/
theorem Confirmed.In.confirm {g : Confirmed} {log : List QRow} (h : g.In log)
    (a : Action UInt32 QueueOp) (n n' : Node Globals (World Unit)) :
    Confirmed.In ⟨Device.confirm a n n' g.rows, g.before⟩ (Device.confirm a n n' log) :=
  ⟨confirm_subset h.1, fun r hr => mem_confirm a n n' (h.2 r hr)⟩

/-- **The log survives every run whose losses are harmless.** -/
theorem LossyRuns.holds {n : Node Globals (World Unit)} {g : Confirmed}
    (h : LossyRuns Harmless n g) :
    n.Holds (fun w g => w.flash.Counted → ∃ log, g.In log ∧ Surviving w log)
      (fun d w g => w.flash.Counted → ∃ log cp, g.In log ∧ Serving d w cp log) g := by
  refine Reach.invariant ?_ ?_ ?_ ?_ h
  · rintro n g ⟨rfl, rfl⟩ _
    exact ⟨[], ⟨fun r hr => hr, fun r hr => hr⟩, .inl ⟨_, _, durable_fresh,
      fun _ _ hm => absurd hm List.not_mem_nil⟩⟩
  · intro bootId w g _ hw
    refine wp_of_counted fun hc => ?_
    obtain ⟨log, hin, ⟨cp, ack, hold⟩ | ⟨ack, hlost⟩⟩ := hw hc
    · exact wp_mono (hold.wp_setup hc bootId)
        (fun d w' h' hc' => (h' hc').elim fun cp' hs => ⟨log, cp', hin, hs⟩)
        fun w' h' hc' => ⟨log, hin, .inl (h' hc')⟩
    · exact wp_mono (hlost.wp_setup hc bootId)
        (fun d w' h' hc' => (h' hc').elim fun cp' hs => hs.elim fun log' hs =>
          ⟨log', cp', hin.mono hs.1, hs.2⟩)
        fun w' h' hc' => (h' hc').elim fun log' hs => ⟨log', hin.mono hs.1, hs.2⟩
  · intro i d w g _ hw
    refine wp_of_counted fun hc => ?_
    obtain ⟨log, cp, hin, serve⟩ := hw hc
    cases i with
    | append row =>
      exact wp_mono (serve.wp_append hc row)
        (fun d' w' h' hc' => (h' hc').elim fun cp' hs => ⟨_, cp', hin.confirm _ _ _, hs⟩)
        fun w' h' hc' => ⟨_, hin.confirm _ _ _, .inl (h' hc')⟩
    | service seq =>
      exact wp_mono (serve.wp_service seq)
        (fun d' w' h' hc' => (h' hc').elim fun cp' hs => ⟨log, cp', hin, hs⟩)
        fun w' h' hc' => ⟨log, hin, .inl (h' hc')⟩
    | ackThrough ackedSeq bootId =>
      exact wp_mono (serve.wp_ackThrough ackedSeq bootId)
        (fun d' w' h' _ => ⟨log, cp, hin, h'⟩) fun w' h' _ => ⟨log, hin, .inl ⟨cp, h'⟩⟩
  · intro n n' g _ hloses hw
    obtain ⟨hallowed, ha, hb⟩ := hloses
    intro hc
    obtain ⟨log, hin, hs⟩ := hw (World.counted_lose.mp hc)
    exact ⟨log, ⟨hin.1, hin.1⟩, hs.lose hallowed ha hb⟩

/-! ## What `pending` returns behind a loss -/

/-- A row that stands somewhere in the segment files. -/
def OnFlash (fs : Path → Option Data) (r : QRow) : Prop :=
  ∃ i b, fs (.seg i) = some b ∧ r ∈ QRow.codec.rowsIn b 0 b.length

/-- While the flash holds an intact row, confirmed before the latest loss, above the
acknowledged seq, `pending` returns something. -/
def NotStranded (d : Globals) (w : World Unit) (before : List QRow) : Prop :=
  ∀ r ∈ before, OnFlash w.file r → r.intact → d.q.ack.ackedSeq < r.seq →
    ∀ maxN, 1 ≤ maxN → d.pending w.file maxN ≠ []

/-- **No row is stranded** in any state of any run whose losses are harmless, until the
checkpoint's count comes round. -/
theorem no_stranded_rows {d : Globals} {w : World Unit} {g : Confirmed}
    (h : LossyRuns Harmless (.on d w) g) (hc : w.flash.Counted) :
    NotStranded d w g.before := by
  obtain ⟨log, cp, hin, serve⟩ := LossyRuns.holds h hc
  intro r hr _ _ hlive maxN hmax hnil
  rw [serve.returnsConfirmed.2 maxN] at hnil
  have hmem : r ∈ log.filter fun r => d.q.ack.ackedSeq < r.seq :=
    List.mem_filter.mpr ⟨hin.2 r hr, by simpa using hlive⟩
  have hlen := List.length_pos_of_mem hmem
  have hzero := congrArg List.length hnil
  rw [List.length_take, List.length_nil] at hzero
  omega

/-- A new device after its first boot and the append of one row. -/
def oneRow : Globals × World Unit :=
  let boot := execute (fun _ => false) (setup 1) fresh
  execute (fun _ => false) (boot.1.append firstRow) boot.2

/-- A slot of the right size in which every bit is set. -/
def erased : QueueRecord → Option Data
  | .ckpt => some (List.replicate Checkpoint.kind.size 255)
  | .ack => some (List.replicate AckRec.kind.size 255)

theorem unreadable_erased (k : QueueRecord) (c : Bool) : Unreadable (k.path c) (erased k) := by
  cases k <;> cases c <;> exact Option.isNone_iff_eq_none.mp (by decide +kernel)

/-- The device is booted again after the loss of a record. -/
def afterLoss (k : QueueRecord) : Globals × World Unit :=
  execute (fun _ => false) (setup 2) (oneRow.2.lose k (erased k) (erased k))

/-- The run that loses it. -/
theorem afterLoss_runs {allowed : QueueRecord → World Unit → Prop} {k : QueueRecord}
    (h : allowed k oneRow.2) : LossyRuns allowed (.on (afterLoss k).1 (afterLoss k).2)
      ⟨[QRow.kind.stamp firstRow], [QRow.kind.stamp firstRow]⟩ := by
  have hboot := execute_runs (setup 1) fresh
  have happend := execute_runs
    ((execute (fun _ => false) (setup 1) fresh).1.append firstRow)
    (execute (fun _ => false) (setup 1) fresh).2
  have hon : LossyRuns allowed (.on oneRow.1 oneRow.2) _ :=
    .step (.step (.init ⟨rfl, rfl⟩) trivial (.boot hboot)) trivial
      (.op (i := QueueOp.append firstRow) happend)
  have hoff : LossyRuns allowed (.off oneRow.2) _ :=
    .step hon trivial (.opCut (i := QueueOp.service 1) (.here _ _))
  have hlost : LossyRuns allowed (.off (oneRow.2.lose k (erased k) (erased k))) _ :=
    .step hoff trivial (.env (.lose h (unreadable_erased k true) (unreadable_erased k false)))
  exact .step hlost trivial (.boot (execute_runs (setup 2) _))

theorem afterLoss_counted (k : QueueRecord) : (afterLoss k).2.flash.Counted := by
  rw [Flash.Counted]
  cases k
  · decide +kernel
  · decide +kernel

/-- Nothing has been pruned, and the acknowledgement record is lost. -/
theorem lost_ack_returns_row : ∃ d w g, LossyRuns Harmless (.on d w) g ∧ w.flash.Counted ∧
    g.before = [QRow.kind.stamp firstRow] ∧ NotStranded d w g.before := by
  have hkept : Harmless .ack oneRow.2 := by
    intro i j hij hj
    have hlater : ∀ m, oneRow.2.file (.seg (m + 1)) = none := fun m => by rfl
    obtain ⟨m, rfl⟩ : ∃ m, j = m + 1 := ⟨j - 1, by omega⟩
    exact absurd (hlater m) hj
  exact ⟨_, _, _, afterLoss_runs hkept, afterLoss_counted .ack, rfl,
    no_stranded_rows (afterLoss_runs hkept) (afterLoss_counted .ack)⟩

/-- One row in segment 0, and both slots of the checkpoint fail their check: the write
position is recovered as the start of segment 0, and the row is not read again. -/
theorem lost_checkpoint_strands_row : ∃ d w g, LossyRuns (fun _ _ => True) (.on d w) g ∧
    w.flash.Counted ∧ ¬ NotStranded d w g.before := by
  refine ⟨_, _, _, afterLoss_runs (k := .ckpt) trivial, afterLoss_counted .ckpt, fun hns => ?_⟩
  exact hns (QRow.kind.stamp firstRow) (List.mem_singleton.mpr rfl)
    ⟨0, firstRowBytes, by decide +kernel, by decide +kernel⟩ (by decide +kernel)
    (by decide +kernel) 1 le_rfl (by decide +kernel)

end Device
end CovioFirmware
