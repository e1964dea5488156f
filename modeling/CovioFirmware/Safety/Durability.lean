import CovioFirmware.Queue.Filling

/-!
# What the queue keeps over power cuts

The runs of this file boot the device, append rows, checkpoint, acknowledge and
lose power anywhere, on a file system that works.  The history value of a run is
the list of the rows whose append got as far as its checkpoint write; nothing in
the firmware knows it.

`pending_eq_confirmed` says that in every state such a run reaches, `pending`
returns exactly those of them that are above the acknowledged seq, in order, as
long as fewer than 2^32 checkpoint writes have completed.  The invariant is
`Durable` for that list.

The condition is needed: the record that ends the 2^32nd write is numbered zero,
the slot with the larger number wins, and the row is gone after the next boot
(`wrapped_count_loses_row`).
-/

namespace CovioFirmware
namespace Device

open Crash

/-- The device on a working file system. -/
def queueMachine : Machine Call Call.Reply (World Unit) Globals UInt32 QueueOp where
  sem := sem Env.calm
  boot := setup
  op := QueueOp.run
  env _ _ := False

/-- The rows confirmed so far: an `append` confirms its row when its checkpoint
write completes. -/
def confirm (a : Action UInt32 QueueOp) (n n' : Node Globals (World Unit)) (log : List QRow) :
    List QRow :=
  match a with
  | .op (.append row) =>
      if n.store.flash.checkpoints < n'.store.flash.checkpoints then log ++ [QRow.kind.stamp row]
      else log
  | _ => log

theorem confirm_kept {a : Action UInt32 QueueOp} {n n' : Node Globals (World Unit)}
    {log : List QRow} (h : n'.store.flash.done = n.store.flash.done) :
    confirm a n n' log = log := by
  have hsame : ¬ n.store.flash.checkpoints < n'.store.flash.checkpoints := by
    rw [checkpoints_congr h]
    exact lt_irrefl _
  cases a with
  | op i =>
    cases i with
    | append row => exact if_neg hsame
    | service seq => rfl
    | ackThrough ackedSeq bootId => rfl
  | boot bootId => rfl
  | env => rfl

theorem confirm_written {row : QRow} {n n' : Node Globals (World Unit)} {log : List QRow}
    (h : n'.store.flash.checkpoints = n.store.flash.checkpoints + 1) :
    confirm (.op (.append row)) n n' log = log ++ [QRow.kind.stamp row] :=
  if_pos (by omega)

/-- The states of all runs from a factory-fresh device, with the rows confirmed
on the way. -/
abbrev QueueRuns (n : Node Globals (World Unit)) (log : List QRow) : Prop :=
  Reach queueMachine (fun _ _ _ => True) confirm (fun n log => n = .off fresh ∧ log = []) n log

/-! ## The invariant -/

/-- The flash holds the log, and earlier checkpoints are at or below the present
segment. -/
structure Holding (w : World Unit) (cp : Checkpoint) (ack : AckRec) (log : List QRow) : Prop where
  durable : Durable w cp ack log
  past : w.flash.Past cp.qSegment.toNat

/-- The same, with the records in memory. -/
structure Serving (d : Globals) (w : World Unit) (cp : Checkpoint) (log : List QRow) : Prop where
  holding : Holding w cp d.q.ack log
  ram : Ram d.tot.cp cp

section

variable {w : World Unit} {log : List QRow} {cp : Checkpoint} {ack : AckRec}

theorem Serving.wp_append {d : Globals} (h : Serving d w cp log) (hcount : w.flash.Counted)
    (row : QRow) :
    wp (sem Env.calm) (d.append row)
      (fun d' w' => w'.flash.Counted → ∃ cp',
        Serving d' w' cp' (confirm (.op (.append row)) (.on d w) (.on d' w') log))
      (fun w' => w'.flash.Counted → ∃ cp' ack',
        Holding w' cp' ack' (confirm (.op (.append row)) (.on d w) (.off w') log)) w := by
  refine wp_map (h.holding.durable.wp_append Env.calm_reliable h.ram hcount
    (fun w' hw' hdone _ _ => ?_) ?_)
  · rw [confirm_kept (by exact hdone)]
    exact ⟨cp, d.q.ack, hw', h.holding.past.congr hdone⟩
  · intro w1 c hplaced
    have hgrew : (w1.persisted c).flash.checkpoints = w.flash.checkpoints + 1 := by
      rw [checkpoints_write, checkpoints_congr hplaced.slots.done]
    have hnew : (w1.persisted c).flash.Counted →
        Holding (w1.persisted c) (ckptSlots.next c) d.q.ack (log ++ [QRow.kind.stamp row]) := by
      intro hc
      refine ⟨hplaced.durable h.holding.durable hc, Flash.Past.persisted ?_ le_rfl⟩
      exact (h.holding.past.mono hplaced.segment_le).congr hplaced.slots.done
    rw [confirm_written (by exact hgrew), confirm_written (by exact hgrew)]
    exact ⟨fun hc => ⟨_, _, hnew hc⟩, fun hc => ⟨_, hnew hc, .refl _⟩⟩

theorem Serving.wp_service {d : Globals} (h : Serving d w cp log) (seq : UInt32) :
    wp (sem Env.calm) (QueueOp.run (.service seq) d)
      (fun d' w' => w'.flash.Counted → ∃ cp', Serving d' w' cp' log)
      (fun w' => w'.flash.Counted → ∃ cp' ack', Holding w' cp' ack' log) w := by
  refine wp_map (h.holding.durable.wp_service Env.calm_reliable h.ram
    (fun w' hw' hdone _ _ => ?_) fun c t' hc ht' => ?_)
  · exact ⟨cp, d.q.ack, hw', h.holding.past.congr hdone⟩
  · have hnew : (w.persisted c).flash.Counted →
        Holding (w.persisted c) (ckptSlots.next c) d.q.ack log := by
      intro hcount
      have hseg : (ckptSlots.next c).qSegment = cp.qSegment := hc.segment
      refine ⟨h.holding.durable.repersist hc hcount, hseg ▸ h.holding.past.persisted (le_of_eq ?_)⟩
      exact congrArg UInt32.toNat hc.segment
    exact ⟨fun hcount => ⟨_, _, hnew hcount⟩, fun hcount => ⟨_, hnew hcount, ht' ▸ .refl _⟩⟩

theorem Serving.wp_ackThrough {d : Globals} (h : Serving d w cp log) (ackedSeq bootId : UInt32) :
    wp (sem Env.calm) (d.ackThrough ackedSeq bootId) (fun d' w' => Serving d' w' cp log)
      (fun w' => ∃ ack', Holding w' cp ack' log) w := by
  refine wp_map (h.holding.durable.wp_ackThrough Env.calm_reliable h.ram rfl
    (fun w' a' hw' _ hs => ?_) fun w' q' hw' _ hs => ?_)
  · exact ⟨a', hw', hs.past _ h.holding.past⟩
  · exact ⟨⟨hw', hs.past _ h.holding.past⟩, h.ram⟩

theorem Holding.wp_setup (h : Holding w cp ack log) (hcount : w.flash.Counted) (bootId : UInt32) :
    wp (sem Env.calm) (setup bootId)
      (fun d w' => w'.flash.Counted → ∃ cp', Serving d w' cp' log)
      (fun w' => w'.flash.Counted → ∃ cp' ack', Holding w' cp' ack' log) w := by
  refine h.durable.wp_setup Env.calm_reliable hcount (fun w' cp' hcp hw' => ?_)
    fun w' cp' d hcp hw' hram hack _ => ?_
  · exact ⟨cp', ack, hw', hcp.segment ▸ hcp.past _ le_rfl h.past⟩
  · exact ⟨cp', ⟨hack.symm ▸ hw',
      hcp.segment ▸ hcp.past _ le_rfl h.past⟩, hram⟩

end

/-- **The invariant holds in every state of every run.** -/
theorem QueueRuns.holds {n : Node Globals (World Unit)} {log : List QRow} (h : QueueRuns n log) :
    n.Holds (fun w log => w.flash.Counted → ∃ cp ack, Holding w cp ack log)
      (fun d w log => w.flash.Counted → ∃ cp, Serving d w cp log) log := by
  refine Reach.invariant ?_ ?_ ?_ (fun _ _ _ _ (he : False) => he.elim) h
  · rintro n log ⟨rfl, rfl⟩ _
    exact ⟨_, _, durable_fresh, fun _ _ hm => absurd hm List.not_mem_nil⟩
  · intro bootId w log _ hw
    refine wp_of_counted fun hc => ?_
    obtain ⟨cp, ack, hold⟩ := hw hc
    exact hold.wp_setup hc bootId
  · intro i d w log _ hw
    refine wp_of_counted fun hc => ?_
    obtain ⟨cp, serve⟩ := hw hc
    cases i with
    | append row => exact serve.wp_append hc row
    | service seq => exact serve.wp_service seq
    | ackThrough ackedSeq bootId =>
      exact wp_mono (serve.wp_ackThrough ackedSeq bootId) (fun _ _ h' _ => ⟨cp, h'⟩)
        fun _ h' _ => ⟨cp, h'⟩

/-! ## Long runs -/

/-- Filling a device is a run of this machine. -/
theorem Fills.queueRuns {rows : List QRow} {d : Globals} {w : World Unit}
    (h : Fills Env.calm fresh rows d w) : QueueRuns (.on d w) (rows.map QRow.kind.stamp) := by
  induction h with
  | boot hr => exact .step (.init ⟨rfl, rfl⟩) trivial (.boot hr)
  | @append rows row d d' w w' _ hr hgrew ih =>
    have hstep : QueueRuns (.on d' w') _ := .step ih trivial (.op (i := QueueOp.append row) hr)
    rwa [confirm_written (by exact hgrew), ← List.map_singleton, ← List.map_append] at hstep

/-- A completed write whose number has come round to zero is not recovered: the
other slot has the larger number. -/
theorem Slots.Last.recover_wrapped {R : Type} {S : Slots R} {fs : Path → Option Data} {r r' : R}
    (h : S.Last fs r) (hr : S.num r ≠ S.num S.zero) (hw : S.writes r' = S.writes r + 1)
    (hzero : S.writes r' = 0) {data : Data} (hdata : S.load (some data) = some r') :
    S.recover (Function.update fs (S.path (slotOf (S.writes r'))) (some data)) = r := by
  have hparity : slotOf (S.writes r') = !PingPong.parity (S.num r) := by
    rw [hw, slotOf_succ, slotOf_eq_parity]
  cases h with
  | blank _ => exact absurd rfl hr
  | written hslot _ =>
    have hkept : PingPong.newest S.num
        (Function.update (S.slot fs) (slotOf (S.writes r')) (some r') true)
        (Function.update (S.slot fs) (slotOf (S.writes r')) (some r') false) = some r := by
      refine PingPong.newest_of_gt (b := PingPong.parity (S.num r)) ?_ fun x hx => ?_
      · rw [Function.update_of_ne (by rw [hparity]; simp), hslot]
      · rw [← hparity, Function.update_self] at hx
        have hx0 : S.num x = 0 := by
          rw [← Option.some.inj hx, Slots.num, hzero]
          rfl
        have hne : S.num r ≠ 0 := by
          intro hc
          have hz : S.writes r = 0 := UInt32.toNat_inj.mp hc
          rw [hz, hzero] at hw
          cases hw
        omega
    rw [Slots.recover_eq, Slots.slot_update, hdata, PingPong.recover, hkept, Option.getD_some]

/-! ## What `pending` returns -/

/-- `pending` returns, up to the number asked for, the rows of the log above the
acknowledged seq, and that seq is the one a reboot recovers. -/
def ReturnsConfirmed (d : Globals) (w : World Unit) (log : List QRow) : Prop :=
  d.q.ack = ackSlots.recover w.file ∧
    ∀ maxN, d.pending w.file maxN = (log.filter fun r => d.q.ack.ackedSeq < r.seq).take maxN

theorem Serving.returnsConfirmed {d : Globals} {w : World Unit} {cp : Checkpoint}
    {log : List QRow} (h : Serving d w cp log) : ReturnsConfirmed d w log :=
  ⟨h.holding.durable.ackLast.recover.symm, (h.ram.laid h.holding.durable.laid).pending_eq⟩

/-- **No confirmed row is lost, none comes twice, and nothing else is
returned**, in every state of every run, until the checkpoint's count comes
round. -/
theorem pending_eq_confirmed {d : Globals} {w : World Unit} {log : List QRow}
    (h : QueueRuns (.on d w) log) (hc : w.flash.Counted) : ReturnsConfirmed d w log := by
  obtain ⟨cp, serve⟩ := QueueRuns.holds h hc
  exact serve.returnsConfirmed

/-- One row, appended to a fresh device. -/
theorem one_row_returned : ∃ d w, QueueRuns (.on d w) [QRow.kind.stamp firstRow] ∧
    w.flash.Counted ∧ ReturnsConfirmed d w [QRow.kind.stamp firstRow] := by
  obtain ⟨d, w, cp, hfills, h⟩ := exists_fills [firstRow] (by decide)
  have hcounted : w.flash.Counted := by
    rw [Flash.Counted, h.checkpoints]
    decide
  exact ⟨d, w, hfills.queueRuns, hcounted, pending_eq_confirmed hfills.queueRuns hcounted⟩

/-- After 2^32 - 1 appends, the next one writes its checkpoint under number zero,
to the slot that does not hold the last one; a reboot recovers the last one, and
the row whose append had completed is not returned.  There are fewer than 10^6
segments at that point. -/
theorem wrapped_count_loses_row : ∃ d w log, QueueRuns (.on d w) log ∧
    (∀ i, w.file (.seg i) ≠ none → i < 10 ^ 6) ∧ ¬ ReturnsConfirmed d w log := by
  obtain ⟨n, hn⟩ : ∃ n, n + 1 = 2 ^ 32 := ⟨2 ^ 32 - 1, rfl⟩
  obtain ⟨d, w, cp, hfills, h⟩ := exists_fills (List.replicate n firstRow)
    (by rw [List.length_replicate]; omega)
  set log := (List.replicate n firstRow).map QRow.kind.stamp with hlog
  have hlen : log.length = n := by rw [hlog, List.length_map, List.length_replicate]
  -- the append that brings the count round, and a power cut right after it
  have hrun := execute_runs (d.append firstRow) w
  obtain ⟨w1, c, hw', hplaced, -, -⟩ := (h.wp_append (by omega) firstRow).runs hrun
  rw [hw'] at hrun
  have hoff : QueueRuns (.off (w1.persisted c)) (log ++ [QRow.kind.stamp firstRow]) := by
    have hstep : QueueRuns (.off (w1.persisted c)) _ :=
      .step hfills.queueRuns trivial (.opCut (i := QueueOp.append firstRow) hrun.cuts)
    rwa [confirm_written] at hstep
    change (w1.persisted c).flash.checkpoints = w.flash.checkpoints + 1
    rw [checkpoints_write, checkpoints_congr hplaced.slots.done]
  -- what the next boot finds
  have h1 : Durable w1 cp d.q.ack log := h.durable.sameSlots hplaced.slots hplaced.before
  have hnext : ckptSlots.writes (ckptSlots.next c) = ckptSlots.writes cp + 1 := by
    rw [Slots.writes_next]
    exact congrArg (· + 1) hplaced.writes
  have hmax : cp.writes.toNat = n := h.writes.trans hlen
  have hwrap : ckptSlots.writes (ckptSlots.next c) = 0 := by
    rw [hnext]
    change cp.writes + 1 = 0
    refine UInt32.toNat_inj.mp ?_
    rw [UInt32.toNat_add, hmax]
    change (n + 1) % 2 ^ 32 = 0
    omega
  have hrec : ckptSlots.recover (w1.persisted c).file = cp := by
    rw [World.file_write, ← Slots.writes_next]
    refine h1.ckptLast.recover_wrapped ?_ hnext hwrap (ckptSlots.load_next c)
    change cp.writes.toNat ≠ 0
    omega
  have hack : ackSlots.recover (w1.persisted c).file = d.q.ack := by
    refine (h1.ackLast.congr fun b => ?_).recover
    rw [World.file_write, Function.update_of_ne (by simp [ackSlots, ckptSlots])]
  have hlaid : LaidOut (w1.persisted c).file cp d.q.ack log := by
    refine h1.laid.congr fun i => ?_
    rw [World.file_write, Function.update_of_ne (by simp [ckptSlots])]
  have hA := hlaid.segment_lt (by omega)
  have hboot := execute_runs (setup 1) (w1.persisted c)
  obtain ⟨hack', hlaid'⟩ := (LaidOut.wp_setup hlaid hrec hack hA).runs hboot
  refine ⟨_, _, _, .step hoff trivial (.boot hboot), fun i hi => ?_, ?_⟩
  · have := hlaid'.present_le hi
    have := hlaid'.segment_lt (by omega)
    omega
  · rintro ⟨-, hpending⟩
    rw [← hack'] at hlaid'
    have hall : _ = ((log ++ [QRow.kind.stamp firstRow]).filter _).take (n + 1) := hpending (n + 1)
    rw [Globals.pending, hlaid'.pending_eq, hack', h.ack, List.filter_append] at hall
    have hlive : [QRow.kind.stamp firstRow].filter (fun r => AckRec.blank.ackedSeq < r.seq) =
        [QRow.kind.stamp firstRow] := List.filter_cons_of_pos (by rfl)
    have hfilter := List.length_filter_le (fun r : QRow => AckRec.blank.ackedSeq < r.seq) log
    have hcount := congrArg List.length hall
    rw [hlive, List.length_take, List.length_take, List.length_append, List.length_singleton,
      hlen.symm] at hcount
    omega

end Device
end CovioFirmware
