import CovioFirmware.Queue.Filling

/-!
# Sequence numbers without a row

The server acknowledges a device up to the end of the gap-free run of seqs it
has, so a seq that is checkpointed without a row behind it would hold the device
up for good.  The telemetry cycle counts the seq, appends the row and checkpoints
the seq in this order, so that a power cut cannot burn one.

The argument is about power cuts only.  `append` does not report that it failed,
and the cycle checkpoints the seq all the same: one refused open is enough
(`failed_append_burns_seq`).  `no_burned_seq` is the other half: in every run in
which the storage calls of `append` go through, every seq between the acknowledged
one and the checkpointed one has its row, as long as fewer than 2^32 checkpoint
writes have completed.

The invariant (`Covered`) says that of the flash alone; while the device runs, the
last seq handed out is at most the larger of the checkpointed and the acknowledged
one.
-/

namespace CovioFirmware
namespace Device

open Crash

/-- A file system that may fail the calls of `append` while the flag is down. -/
def Env.patchy : Env Bool where
  succeeds _ _ := True
  fails c e := e = false ∧ c.Appends
  tears _ _ := True
  serve _ e r e' := r = ⟨-1, []⟩ ∧ e' = e
  serveCut _ e e' := e' = e

/-- What `loop()` does with the queue. -/
inductive LoopOp where
  | cycle (s : Sample) : LoopOp
  | background : LoopOp
  | ackThrough (ackedSeq bootId : UInt32) : LoopOp

/-- The operations as routines. -/
def LoopOp.run : LoopOp → Globals → Fw Globals
  | .cycle s, d => d.telemetryCycle s
  | .background, d => d.backgroundService
  | .ackThrough ackedSeq bootId, d => d.ackThrough ackedSeq bootId

/-- The device on that file system; the flag may change between two
operations. -/
def patchyMachine : Machine Call Call.Reply (World Bool) Globals UInt32 LoopOp where
  sem := sem Env.patchy
  boot := setup
  op := LoopOp.run
  env n n' := ∃ e, n' = match n with
    | .off w => .off { w with peer := e }
    | .on d w => .on d { w with peer := e }

/-- Every telemetry cycle finds the flag up: none of its storage calls fails. -/
def AppendsWork : Action UInt32 LoopOp → Node Globals (World Bool) → Unit → Prop
  | .op (.cycle _), n, _ => n.store.peer = true
  | _, _, _ => True

/-- The states of the runs from a factory-fresh device whose moves satisfy
`ok`. -/
abbrev LoopRuns (ok : Action UInt32 LoopOp → Node Globals (World Bool) → Unit → Prop)
    (n : Node Globals (World Bool)) : Prop :=
  Reach patchyMachine ok (fun _ _ _ g => g) (fun n _ => ∃ e, n = .off ⟨Flash.empty, e⟩) n ()

/-! ## The invariant -/

/-- Every seq between the acknowledged and the checkpointed one has its row. -/
def Covered (cp : Checkpoint) (ack : AckRec) (log : List QRow) : Prop :=
  ∀ s, ack.ackedSeq < s → s ≤ cp.seq → ∃ r ∈ log, r.seq = s

/-- The flash is laid out for a log that covers its checkpoint. -/
def Stocked (w : World Unit) : Prop :=
  ∃ cp ack log, Durable w cp ack log ∧ Covered cp ack log

/-- The same with the device running: no seq beyond the two recorded ones has been
handed out. -/
def Cycling (d : Globals) (w : World Unit) : Prop :=
  ∃ cp log, Durable w cp d.q.ack log ∧ Covered cp d.q.ack log ∧ Ram d.tot.cp cp ∧
     (d.seq ≤ cp.seq ∨ d.seq ≤ d.q.ack.ackedSeq)

section

variable {w : World Unit} {d : Globals} {log : List QRow} {cp cp' : Checkpoint} {ack ack' : AckRec}

theorem Covered.mono (h : Covered cp ack log) (hseq : cp'.seq = cp.seq)
    (hack : ack.ackedSeq ≤ ack'.ackedSeq) : Covered cp' ack' log :=
  fun s hs hs' => h s (UInt32.lt_of_le_of_lt hack hs) (hseq ▸ hs')

/-- The next row covers the next seq, also where the seq comes round to zero. -/
theorem Covered.append (h : Covered cp ack log) {seq : UInt32}
    (hseq : seq ≤ cp.seq ∨ seq ≤ ack.ackedSeq) {row : QRow} (hrow : row.seq = seq + 1)
    (hcp : cp'.seq = seq + 1) : Covered cp' ack (log ++ [row]) := by
  intro s hs hs'
  by_cases hlast : s = seq + 1
  · exact ⟨row, by simp, hrow.trans hlast.symm⟩
  · have hle : s ≤ seq := by
      have hadd : (seq + 1).toNat = (seq.toNat + 1) % 2 ^ 32 := UInt32.toNat_add _ _
      have hne : s.toNat ≠ (seq + 1).toNat := fun hc => hlast (UInt32.toNat_inj.mp hc)
      have hs'' : s.toNat ≤ (seq + 1).toNat := UInt32.le_iff_toNat_le.mp (hcp ▸ hs')
      have hmod := Nat.mod_le (seq.toNat + 1) (2 ^ 32)
      exact UInt32.le_iff_toNat_le.mpr (by omega)
    rcases hseq with hseq | hseq
    · obtain ⟨r, hr, hrs⟩ := h s hs (UInt32.le_trans hle hseq)
      exact ⟨r, List.mem_append_left _ hr, hrs⟩
    · exact absurd (UInt32.le_trans hle hseq) (UInt32.not_le.mpr hs)

theorem Cycling.wp_telemetryCycle (h : Cycling d w) (hcount : w.flash.Counted) (s : Sample) :
    wp (sem Env.calm) (d.telemetryCycle s) (fun d' w' => w'.flash.Counted → Cycling d' w')
      (fun w' => w'.flash.Counted → Stocked w') w := by
  obtain ⟨cp, log, hd, hcov, hram, hseq⟩ := h
  have hself : Stocked w := ⟨cp, d.q.ack, log, hd, hcov⟩
  refine Totalizer.wp_total (fun _ => hself) fun total => wp_bind ?_
  refine hd.wp_append Env.calm_reliable hram hcount
    (fun w' hw' _ _ _ => ⟨cp, d.q.ack, log, hw', hcov⟩) fun w1 c hplaced => ?_
  set row := QRow.kind.stamp (telemetryBuild s d.bootId total (d.seq + 1)
    (decide (queueHighwater < d.q.unackedCount))) with hrow
  -- between the append and the checkpoint the row is there and its seq is not counted yet
  have hcovmid : Covered (ckptSlots.next c) d.q.ack (log ++ [row]) := by
    intro x hx hx'
    obtain ⟨r, hr, hrs⟩ := hcov x hx ((show (ckptSlots.next c).seq = cp.seq from hplaced.seq) ▸ hx')
    exact ⟨r, List.mem_append_left _ hr, hrs⟩
  refine ⟨fun hc => ⟨_, _, _, hplaced.durable hd hc, hcovmid⟩, wp_of_counted fun hc => ?_⟩
  have hd2 := hplaced.durable hd hc
  refine wp_map (hd2.wp_service Env.calm_reliable (.refl _)
    (fun w' hw' _ _ _ => ⟨_, _, _, hw', hcovmid⟩) fun c' t' hc' ht' => ?_)
  have hseq' : (ckptSlots.next c').seq = d.seq + 1 := hc'.seq
  have hcov' : Covered (ckptSlots.next c') d.q.ack (log ++ [row]) :=
    hcov.append hseq rfl hseq'
  refine ⟨fun hcount => ⟨_, _, _, hd2.repersist hc' hcount, hcov'⟩, fun hcount => ?_⟩
  exact ⟨_, _, hd2.repersist hc' hcount, hcov', ht' ▸ .refl _, .inl (hseq' ▸ UInt32.le_refl _)⟩

theorem Cycling.wp_backgroundService (h : Cycling d w) :
    wp (sem Env.calm) d.backgroundService (fun d' w' => w'.flash.Counted → Cycling d' w')
      (fun w' => w'.flash.Counted → Stocked w') w := by
  obtain ⟨cp, log, hd, hcov, hram, hseq⟩ := h
  refine wp_map (hd.wp_service Env.calm_reliable hram
    (fun w' hw' _ _ _ => ⟨cp, d.q.ack, log, hw', hcov⟩) fun c t' hc ht' => ?_)
  have hsame : (ckptSlots.next c).seq = cp.seq := hc.seq.trans hram.seq
  have hcov' := hcov.mono hsame (UInt32.le_refl _)
  refine ⟨fun hcount => ⟨_, _, _, hd.repersist hc hcount, hcov'⟩, fun hcount => ?_⟩
  exact ⟨_, _, hd.repersist hc hcount, hcov', ht' ▸ .refl _, hsame.symm ▸ hseq⟩

theorem Cycling.wp_ackThrough (h : Cycling d w) (ackedSeq bootId : UInt32) :
    wp (sem Env.calm) (d.ackThrough ackedSeq bootId) (fun d' w' => Cycling d' w') Stocked w := by
  obtain ⟨cp, log, hd, hcov, hram, hseq⟩ := h
  refine wp_map (hd.wp_ackThrough Env.calm_reliable hram rfl (fun w' a' hw' ha _ => ?_)
    fun w' q' hw' ha _ => ?_)
  · exact ⟨cp, a', log, hw', hcov.mono rfl ha.le⟩
  · exact ⟨cp, log, hw', hcov.mono rfl ha.le, hram,
      hseq.imp_right fun h => UInt32.le_trans h ha.le⟩

theorem Stocked.wp_setup (h : Stocked w) (hcount : w.flash.Counted) (bootId : UInt32) :
    wp (sem Env.calm) (setup bootId) (fun d w' => w'.flash.Counted → Cycling d w')
      (fun w' => w'.flash.Counted → Stocked w') w := by
  obtain ⟨cp, ack, log, hd, hcov⟩ := h
  refine hd.wp_setup Env.calm_reliable hcount (fun w' cp' hcp hw' => ?_)
    fun w' cp' d hcp hw' hram hack hseq => ?_
  · exact ⟨cp', ack, log, hw', hcov.mono hcp.seq (UInt32.le_refl _)⟩
  · refine ⟨cp', log, hack.symm ▸ hw',
      hack.symm ▸ hcov.mono hcp.seq (UInt32.le_refl _), hram, ?_⟩
    rw [hseq, hcp.seq, hack, resumeSeqFloor]
    split
    · exact .inl (UInt32.le_refl _)
    · exact .inr (UInt32.le_refl _)

end

/-- **The invariant holds in every state of every run whose appends work.** -/
theorem LoopRuns.holds {n : Node Globals (World Bool)} (h : LoopRuns AppendsWork n) :
    n.Holds (fun w (_ : Unit) => w.flash.Counted → Stocked w.alone)
      (fun d w _ => w.flash.Counted → Cycling d w.alone) () := by
  -- a routine that makes no failing call is as on a working file system
  have hcalm : ∀ {w : World Bool} {p : Fw Globals},
      p.Makes (fun c => ¬ Env.patchy.fails c w.peer) →
      wp (sem Env.calm) p (fun d w' => w'.flash.Counted → Cycling d w')
        (fun w' => w'.flash.Counted → Stocked w') w.alone →
      wp (sem Env.patchy) p (fun d w' => w'.flash.Counted → Cycling d w'.alone)
        (fun w' => w'.flash.Counted → Stocked w'.alone) w := fun hp hw =>
    wp_mono (wp_of_calm hp (fun _ _ _ h => h) (fun _ _ h => h) hw) (fun _ _ h => h.1) fun _ h => h.1
  have hquiet : ∀ {w : World Bool} {c : Call}, ¬ c.Appends → ¬ Env.patchy.fails c w.peer :=
    fun hc hf => hc hf.2
  have hsense : ∀ {w : World Bool} (c : Call), c.Senses → ¬ Env.patchy.fails c w.peer :=
    fun c hc => hquiet (by cases c <;> first | exact id | exact hc.elim)
  refine Reach.invariant ?_ ?_ ?_ ?_ h
  · rintro n g ⟨e, rfl⟩ _
    exact ⟨_, _, _, durable_fresh, fun s hs hs' => absurd hs (UInt32.not_lt.mpr hs')⟩
  · intro bootId w g _ hw
    exact hcalm (makes_setup hsense (fun _ _ => hquiet id) (fun _ => hquiet id) bootId)
      (wp_of_counted fun hc => (hw hc).wp_setup hc bootId)
  · intro i d w g hok hw
    cases i with
    | cycle s =>
      have hup : w.peer = true := hok
      refine hcalm (makes_of_forall (fun c hf => ?_) _)
        (wp_of_counted fun hc => (hw hc).wp_telemetryCycle hc s)
      exact absurd (hf.1.symm.trans hup) (by simp)
    | background =>
      exact hcalm ((Totalizer.makes_service hsense (fun _ _ => hquiet id) _ _).bind fun _ => trivial)
        (wp_of_counted fun hc => (hw hc).wp_backgroundService)
    | ackThrough ackedSeq bootId =>
      refine hcalm ((EventQueue.makes_ackThrough (fun c hc => hsense c hc.1) (fun _ _ => hquiet id) (fun _ => hquiet id)
        _ _ _ _).bind fun _ => trivial)
        (wp_of_counted fun hc => ?_)
      exact wp_mono ((hw hc).wp_ackThrough ackedSeq bootId) (fun _ _ h' _ => h') fun _ h' _ => h'
  · rintro n n' g - ⟨e, rfl⟩ hn
    cases n <;> exact hn

/-! ## The seqs the server waits for -/

/-- Every seq above the acknowledged one, up to the checkpointed one, is the seq of
an intact row that `pending` returns when asked for enough rows. -/
def NoBurnedSeq (d : Globals) (fs : Path → Option Data) : Prop :=
  ∀ s, d.q.ack.ackedSeq < s → s ≤ (ckptSlots.recover fs).seq →
    ∃ maxN, ∃ r ∈ d.pending fs maxN, r.intact = true ∧ r.seq = s

/-- **No seq is burned while appends work**: in every state of every run in which
the storage calls of `append` go through, until the checkpoint's count comes
round. -/
theorem no_burned_seq {d : Globals} {w : World Bool} (h : LoopRuns AppendsWork (.on d w))
    (hc : w.flash.Counted) : NoBurnedSeq d w.file := by
  obtain ⟨cp, log, hd, hcov, hram, -⟩ := LoopRuns.holds h hc
  intro s hs hs'
  have hrec : ckptSlots.recover w.file = cp := hd.ckptLast.recover
  obtain ⟨r, hr, hrs⟩ := hcov s hs (hrec ▸ hs')
  have hpending := (hram.laid hd.laid).pending_eq log.length
  have hmem : r ∈ log.filter fun r => d.q.ack.ackedSeq < r.seq :=
    List.mem_filter.mpr ⟨hr, by simpa [hrs] using hs⟩
  refine ⟨log.length, r, ?_, hd.laid.intact r hr, hrs⟩
  change r ∈ d.q.pending w.file d.tot log.length
  have hfile : w.alone.file = w.file := rfl
  rw [← hfile, hpending, List.take_of_length_le (List.length_filter_le _ _)]
  exact hmem

/-- A sample with nothing to report. -/
def plainSample : Sample := ⟨0, 0, 0⟩

/-- On a new device, the first cycle that goes through leaves no gap. -/
theorem first_cycle_burns_nothing : ∃ d w, LoopRuns AppendsWork (.on d w) ∧ w.flash.Counted ∧
    (ckptSlots.recover w.file).seq = 1 ∧ NoBurnedSeq d w.file := by
  have hrun : ∀ (p : Fw Globals) (w : World Bool), w.peer = true → Runs (sem Env.patchy) p w
      (execute (fun _ => false) p w).1 (execute (fun _ => false) p w).2 := fun p w hw =>
    execute_runs_of Env.patchy _ (by simp) (fun _ _ => trivial) (fun _ => ⟨rfl, rfl⟩) p hw
  have hboot := hrun (setup 1) ⟨Flash.empty, true⟩ rfl
  set d0 := (execute (fun _ => false) (setup 1) (⟨Flash.empty, true⟩ : World Bool)).1 with hd0
  set w0 := (execute (fun _ => false) (setup 1) (⟨Flash.empty, true⟩ : World Bool)).2 with hw0
  have hup : w0.peer = true := by rfl
  have hreach : LoopRuns AppendsWork (.on (execute (fun _ => false) (d0.telemetryCycle plainSample)
      w0).1 (execute (fun _ => false) (d0.telemetryCycle plainSample) w0).2) :=
    .step (a := .op (LoopOp.cycle plainSample))
      (.step (a := .boot 1) (.init ⟨true, rfl⟩) trivial (.boot hboot)) hup (.op (hrun _ w0 hup))
  have hcounted : (execute (fun _ => false) (d0.telemetryCycle plainSample) w0).2.flash.Counted := by
    rw [Flash.Counted, hd0, hw0]
    decide +kernel
  refine ⟨_, _, hreach, hcounted, ?_, no_burned_seq hreach hcounted⟩
  rw [hd0, hw0]
  decide +kernel

/-- A refused open of the segment file: the row is lost, the failure is counted,
and the seq is checkpointed all the same. -/
theorem failed_append_burns_seq : ∃ d w, LoopRuns (fun _ _ _ => True) (.on d w) ∧
    w.flash.Counted ∧ ¬ NoBurnedSeq d w.file := by
  have hboot : Runs (sem Env.patchy) (setup 1) ⟨Flash.empty, false⟩ _ _ :=
    execute_runs_of Env.patchy (fun _ => false) (by simp) (fun _ _ => trivial)
      (fun _ => ⟨rfl, rfl⟩) _ rfl
  set d0 := (execute (fun _ => false) (setup 1) (⟨Flash.empty, false⟩ : World Bool)).1 with hd0
  set w0 := (execute (fun _ => false) (setup 1) (⟨Flash.empty, false⟩ : World Bool)).2 with hw0
  set faulty : Call → Bool := fun c => match c with
    | .appendOpenSize _ => true
    | _ => false with hfaulty
  have hcycle : Runs (sem Env.patchy) (d0.telemetryCycle plainSample) w0
      (execute faulty (d0.telemetryCycle plainSample) w0).1
      (execute faulty (d0.telemetryCycle plainSample) w0).2 := by
    refine execute_runs_of Env.patchy faulty (fun c hc => ⟨rfl, ?_⟩) (fun _ _ => trivial)
      (fun _ => ⟨rfl, rfl⟩) _ rfl
    cases c <;> trivial
  refine ⟨_, _, .step (.step (.init ⟨false, rfl⟩) trivial (.boot hboot)) trivial
    (.op (i := LoopOp.cycle plainSample) hcycle), ?_, fun hno => ?_⟩
  · rw [Flash.Counted, hd0, hw0, hfaulty]
    decide +kernel
  · obtain ⟨maxN, r, hr, -⟩ := hno 1 (by rw [hd0, hw0, hfaulty]; decide +kernel)
      (by rw [hd0, hw0, hfaulty]; decide +kernel)
    rw [Globals.pending, EventQueue.pending_of_missing
      (by rw [hd0, hw0, hfaulty]; decide +kernel)] at hr
    cases hr

end Device
end CovioFirmware
