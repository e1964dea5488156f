import CovioFirmware.Queue.Backlog
import CovioFirmware.Queue.Filling

/-!
# The backlog counter

`pendingCount()` is kept by hand: the boot counts the rows `pending` would return, an
append adds one, an acknowledgement subtracts the rows its walk passes, and
`resetAckToCurrentPosition` sets it to zero.  The three do not mean the same rows.
The walk passes rows that were never counted (damaged ones, and ones that were
already acknowledged), an append counts its row whether or not it is above the
acknowledged seq, and `recoverQueueStorage` empties the queue without touching the
counter (`recovery_keeps_count`).

`count_exact` is what is left: from a boot on arbitrary flash contents, with calls
that may fail at any time, the counter stays exact as long as every acknowledgement
passes counted rows only, every append is of a row above the acknowledged seq, and
the operator recovers the queue only when nothing is pending (`Countable`).
-/

namespace CovioFirmware
namespace Device

open Crash EventQueue

/-- The device with the operator at the console; any storage call may fail. -/
def consoleMachine : Machine Call Call.Reply (World Unit) Globals UInt32 ConsoleOp where
  sem := sem Env.flaky
  boot := setup
  op := ConsoleOp.run
  env _ _ := False

/-- An acknowledgement up to `k` passes rows that were counted, and leaves none of
those it covers behind. -/
structure Passable (ackedSeq k : UInt32) (rows : List QRow) : Prop where
  passed : ∀ r ∈ rows.takeWhile fun r => ¬ Live k r, Live ackedSeq r
  left : ∀ r ∈ rows.dropWhile fun r => ¬ Live k r, Live ackedSeq r → Live k r
  few : rows.length < 2 ^ 32

/-- What the counter relies on, before each operation. -/
def Countable : Action UInt32 ConsoleOp → Node Globals (World Unit) → Unit → Prop
  | .op (.queue (.append row)), .on d w, _ =>
      d.q.ack.ackedSeq < row.seq ∧ Tidy w.file d.q.ack d.tot
  | .op (.queue (.ackThrough ackedSeq _)), .on d w, _ => d.q.ack.ackedSeq < ackedSeq →
      Tidy w.file d.q.ack d.tot ∧
        Passable d.q.ack.ackedSeq ackedSeq (confirmedRows w.file d.q.ack d.tot)
  | .op (.resetAck _), .on d _, _ => d.tot.cp.qOffset.toNat + 36 < 2 ^ 32
  | .op .recoverQueue, .on d w, _ =>
      ∀ r ∈ confirmedRows w.file d.q.ack d.tot, ¬ Live d.q.ack.ackedSeq r
  | _, _, _ => True

/-- The states of the runs from any flash contents whose moves satisfy `ok`. -/
abbrev ConsoleRuns (ok : Action UInt32 ConsoleOp → Node Globals (World Unit) → Unit → Prop)
    (n : Node Globals (World Unit)) : Prop :=
  Reach consoleMachine ok (fun _ _ _ g => g) (fun n _ => ∃ w, n = .off w) n ()

/-- `pendingCount()`, as the `uint32_t` it is, is the number of rows `pending` returns
when it is asked for enough. -/
def CountsPending (d : Globals) (fs : Path → Option Data) : Prop :=
  ∃ n, d.q.unackedCount = .ofNat n ∧ ∀ maxN, (d.pending fs maxN).length = min maxN n

/-! ## The invariant -/

/-- The counter counts the live rows. -/
def Counting (d : Globals) (w : World Unit) : Prop :=
  d.q.unackedCount = .ofNat (liveRows w.file d.q.ack d.tot).length

section

variable {w : World Unit} {d : Globals}

theorem Counting.countsPending (h : Counting d w) : CountsPending d w.file := by
  refine ⟨_, h, fun maxN => ?_⟩
  rw [Globals.pending, pending_eq_liveRows, List.length_take]

/-- The boot counts what it finds. -/
theorem wp_setup_counting (bootId : UInt32) :
    wp (sem Env.flaky) (setup bootId) Counting (fun _ => True) w := by
  refine wp_bind_of ((Prog.Returns.trivial _).wp w) (fun _ h => h) fun t w1 _ => ?_
  refine wp_map (EventQueue.wp_begin ?_)
  refine wp_mono ((Prog.Returns.trivial _).wp w1) (fun t' w2 _ => ?_) fun _ h => h
  exact congrArg UInt32.ofNat (computeUnackedCount_eq w2.file _ t')

theorem Counting.wp_append (h : Counting d w) {row : QRow} (hrow : d.q.ack.ackedSeq < row.seq)
    (htidy : Tidy w.file d.q.ack d.tot) :
    wp (sem Env.flaky) (d.append row) Counting (fun _ => True) w := by
  refine wp_map (htidy.wp_append (fun w' q' hack hcount hrows => ?_) fun w' t' hrows => ?_)
  · have hlive : liveRows w'.file q'.ack d.tot = liveRows w.file d.q.ack d.tot := by
      rw [liveRows, hack, hrows, ← liveRows]
    exact hcount.trans (h.trans (congrArg (fun l : List QRow => UInt32.ofNat l.length) hlive.symm))
  · have hstamp : Live d.q.ack.ackedSeq (QRow.kind.stamp row) := ⟨QRow.kind.intact_stamp row, hrow⟩
    have hlive : (liveRows w'.file d.q.ack t').length =
        (liveRows w.file d.q.ack d.tot).length + 1 := by
      rw [liveRows, hrows, List.filter_append, List.length_append, ← liveRows,
        List.filter_cons_of_pos (by simpa using hstamp), List.filter_nil, List.length_singleton]
    change d.q.unackedCount + 1 = .ofNat (liveRows w'.file d.q.ack t').length
    rw [hlive, show d.q.unackedCount = _ from h]
    exact (UInt32.ofNat_add _ 1).symm

/-- What an acknowledgement takes off the counter is what it takes off the rows. -/
theorem Passable.length_live {ackedSeq k : UInt32} {rows : List QRow}
    (h : Passable ackedSeq k rows) (hk : ackedSeq < k) :
    (rows.filter fun r => Live ackedSeq r).length =
      (rows.takeWhile fun r => ¬ Live k r).length +
        ((rows.dropWhile fun r => ¬ Live k r).filter fun r => Live k r).length := by
  have hpassed : (rows.takeWhile fun r => ¬ Live k r).filter (fun r => Live ackedSeq r) =
      rows.takeWhile fun r => ¬ Live k r :=
    List.filter_eq_self.mpr fun r hr => decide_eq_true (h.passed r hr)
  have hleft : (rows.dropWhile fun r => ¬ Live k r).filter (fun r => Live ackedSeq r) =
      (rows.dropWhile fun r => ¬ Live k r).filter fun r => Live k r := by
    refine List.filter_congr fun r hr => ?_
    rw [decide_eq_decide]
    exact ⟨h.left r hr, fun hlive => ⟨hlive.1, UInt32.lt_trans hk hlive.2⟩⟩
  conv_lhs => rw [← List.takeWhile_append_dropWhile (p := fun r => decide (¬ Live k r)) (l := rows)]
  rw [List.filter_append, List.length_append, hpassed, hleft]

theorem Counting.wp_ackThrough (h : Counting d w) (k bootId : UInt32)
    (hok : d.q.ack.ackedSeq < k → Tidy w.file d.q.ack d.tot ∧
      Passable d.q.ack.ackedSeq k (confirmedRows w.file d.q.ack d.tot)) :
    wp (sem Env.flaky) (d.ackThrough k bootId) Counting (fun _ => True) w := by
  refine wp_map ?_
  by_cases hk : d.q.ack.ackedSeq < k
  · obtain ⟨htidy, hpass⟩ := hok hk
    set n := ((confirmedRows w.file d.q.ack d.tot).takeWhile fun r => ¬ Live k r).length with hn
    refine htidy.wp_ackThrough (fun _ => h) fun _ w' ack' hack hrows => ?_
    have hlive : liveRows w'.file ack' d.tot = ((confirmedRows w.file d.q.ack d.tot).dropWhile
        fun r => ¬ Live k r).filter fun r => Live k r := by
      rw [liveRows, hrows, hack]
    have hcount : (liveRows w.file d.q.ack d.tot).length =
        n + (liveRows w'.file ack' d.tot).length := by
      rw [hlive]
      exact hpass.length_live hk
    have hfew : (liveRows w.file d.q.ack d.tot).length < 2 ^ 32 :=
      lt_of_le_of_lt (List.length_filter_le _ _) hpass.few
    have hnat : d.q.unackedCount.toNat = (liveRows w.file d.q.ack d.tot).length := by
      rw [show d.q.unackedCount = _ from h]
      exact u32_ofNat hfew
    change (if n ≤ d.q.unackedCount.toNat then d.q.unackedCount - .ofNat n else 0) =
      UInt32.ofNat (liveRows w'.file ack' d.tot).length
    rw [if_pos (by omega), show d.q.unackedCount = _ from h, hcount, UInt32.ofNat_add,
      UInt32.add_comm, UInt32.add_sub_cancel]
  · exact EventQueue.wp_ackThrough trivial (fun _ => h) fun hlt => absurd hlt hk

/-- What does not move the write position or touch the segments leaves the count. -/
theorem Counting.kept (h : Counting d w) {w' : World Unit} {t : Totalizer}
    (hseg : t.cp.qSegment = d.tot.cp.qSegment) (hoff : t.cp.qOffset = d.tot.cp.qOffset)
    (hfile : ∀ i, w'.file (.seg i) = w.file (.seg i)) : Counting { d with tot := t } w' := by
  have hrows : confirmedRows w'.file d.q.ack t = confirmedRows w.file d.q.ack d.tot := by
    rw [confirmedRows, confirmedRows, Totalizer.queueOffsetSegment, Totalizer.queueOffsetSegment,
      Totalizer.queueOffsetOffset, Totalizer.queueOffsetOffset, hseg, hoff]
    exact rowsWalked_congr _ _ _ fun i _ => hfile i
  rw [Counting, liveRows, hrows]
  exact h

theorem Counting.wp_service (h : Counting d w) (seq : UInt32) :
    wp (sem Env.flaky) (QueueOp.run (.service seq) d) Counting (fun _ => True) w := by
  refine wp_map (Totalizer.wp_service trivial fun acc total => Totalizer.wp_persist ?_)
  refine Slots.wp_persist trivial (fun _ _ => trivial) ⟨trivial, ?_⟩ fun _ _ _ c _ => ?_
  · refine h.kept rfl rfl fun i => ?_
    rw [World.file_write, Function.update_of_ne (by simp [ckptSlots])]
  · refine h.kept rfl rfl fun i => ?_
    rw [World.file_set, Function.update_of_ne (by simp [ckptSlots])]

/-- At the write position there is nothing left to read. -/
theorem confirmedRows_at_end {fs : Path → Option Data} {ack : AckRec} {t : Totalizer}
    (hseg : ack.cursorSegment = t.cp.qSegment) (hoff : ack.cursorOffset = t.cp.qOffset)
    (hlt : t.cp.qOffset.toNat + 36 < 2 ^ 32) : confirmedRows fs ack t = [] := by
  have hfuel : t.cp.qSegment.toNat + 1 - t.cp.qSegment.toNat = 1 := by omega
  rw [confirmedRows, Totalizer.queueOffsetSegment, Totalizer.queueOffsetOffset, hseg, hoff, hfuel,
    rowsWalked, if_pos le_rfl]
  cases fs (.seg t.cp.qSegment.toNat) with
  | none => rfl
  | some b =>
    simp only [readLimit, if_true, min_self]
    rw [rowsRead, if_neg]
    rw [u32_of_lt hlt]
    omega

theorem wp_resetAck_counting (hoff : d.tot.cp.qOffset.toNat + 36 < 2 ^ 32) (currentSeq : UInt32) :
    wp (sem Env.flaky) (d.resetAckToCurrentPosition currentSeq) Counting (fun _ => True) w := by
  have hzero : ∀ (w' : World Unit) (q : EventQueue), q.unackedCount = 0 →
      q.ack.cursorSegment = d.tot.cp.qSegment → q.ack.cursorOffset = d.tot.cp.qOffset →
      Counting { d with q := q } w' := by
    intro w' q hcount hs ho
    rw [Counting, liveRows, confirmedRows_at_end hs ho hoff]
    exact hcount
  refine wp_map (EventQueue.wp_persistAck ?_)
  refine Slots.wp_persist trivial (fun _ _ => trivial) ⟨trivial, ?_⟩ fun _ _ _ c _ => ?_
  · exact hzero _ _ rfl rfl rfl
  · exact hzero _ _ rfl rfl rfl

theorem Counting.wp_recoverQueue (h : Counting d w)
    (hnone : ∀ r ∈ confirmedRows w.file d.q.ack d.tot, ¬ Live d.q.ack.ackedSeq r) :
    wp (sem Env.flaky) d.recoverQueueStorage Counting (fun _ => True) w := by
  have hcount : d.q.unackedCount = 0 := by
    have hnil : liveRows w.file d.q.ack d.tot = [] :=
      List.filter_eq_nil_iff.mpr fun r hr hlive => hnone r hr (of_decide_eq_true hlive)
    rw [Counting, hnil] at h
    exact h
  have hzero : ∀ (w' : World Unit) (q : EventQueue) (t : Totalizer), q.unackedCount = 0 →
      q.ack.cursorSegment = 0 → q.ack.cursorOffset = 0 → t.cp.qSegment = 0 → t.cp.qOffset = 0 →
      Counting { d with q := q, tot := t } w' := by
    intro w' q t hq hs ho hts hto
    have hlt : t.cp.qOffset.toNat + 36 < 2 ^ 32 := by
      rw [hto]
      decide
    rw [Counting, liveRows, confirmedRows_at_end (hs.trans hts.symm) (ho.trans hto.symm) hlt]
    exact hq
  refine wp_map ?_
  simp only [EventQueue.recoverQueueStorage, Fw.remove_bind, Prog.pure_eq_ret]
  refine wp_remove trivial (wp_bind (Totalizer.wp_persist ?_))
  have hlast : ∀ (w' : World Unit) (t : Totalizer), t.cp.qSegment = 0 → t.cp.qOffset = 0 →
      wp (sem Env.flaky) (persistAck { d.q with
          ack := { d.q.ack with cursorSegment := 0, cursorOffset := 0 } } >>= fun q => .ret (q, t))
        (fun r w' => Counting { d with q := r.1, tot := r.2 } w') (fun _ => True) w' := by
    intro w' t hts hto
    refine wp_map (EventQueue.wp_persistAck ?_)
    refine Slots.wp_persist trivial (fun _ _ => trivial) ⟨trivial, ?_⟩ fun _ _ _ c _ => ?_
    · exact hzero _ _ _ hcount rfl rfl hts hto
    · exact hzero _ _ _ hcount rfl rfl hts hto
  refine Slots.wp_persist trivial (fun _ _ => trivial) ⟨trivial, ?_⟩ fun _ _ _ c _ => ?_
  · exact hlast _ _ rfl rfl
  · exact hlast _ _ rfl rfl

end

/-- **The invariant holds in every state of every such run.** -/
theorem ConsoleRuns.holds {n : Node Globals (World Unit)} (h : ConsoleRuns Countable n) :
    n.Holds (fun _ (_ : Unit) => True) (fun d w _ => Counting d w) () := by
  refine Reach.invariant ?_ ?_ ?_ (fun _ _ _ _ (he : False) => he.elim) h
  · rintro n g ⟨w, rfl⟩
    trivial
  · exact fun bootId w g _ _ => wp_setup_counting bootId
  · intro i d w g hok hw
    cases i with
    | queue i =>
      cases i with
      | append row => exact hw.wp_append hok.1 hok.2
      | service seq => exact hw.wp_service seq
      | ackThrough ackedSeq bootId => exact hw.wp_ackThrough ackedSeq bootId hok
    | resetAck currentSeq => exact wp_resetAck_counting hok currentSeq
    | recoverQueue => exact hw.wp_recoverQueue hok

/-- **The counter is exact** in every state of every run from arbitrary flash contents
whose operations are `Countable`. -/
theorem count_exact {d : Globals} {w : World Unit} (h : ConsoleRuns Countable (.on d w)) :
    CountsPending d w.file :=
  Counting.countsPending (ConsoleRuns.holds h)

/-! ## Two runs of a new device -/

theorem worked_boot : ConsoleRuns Countable (.on (worked []).1 (worked []).2) :=
  .step (a := .boot 1) (.init ⟨_, rfl⟩) trivial (.boot (execute_runs_flaky _ _ _))

theorem worked_step {ok : Action UInt32 ConsoleOp → Node Globals (World Unit) → Unit → Prop}
    {ops : List ConsoleOp} (h : ConsoleRuns ok (.on (worked ops).1 (worked ops).2)) (i : ConsoleOp)
    (hok : ok (.op i) (.on (worked ops).1 (worked ops).2) ()) :
    ConsoleRuns ok (.on (worked (i :: ops)).1 (worked (i :: ops)).2) := by
  rw [worked]
  exact .step (a := .op i) h hok (.op (execute_runs_flaky _ _ _))

/-- One row, appended: the counter stands at one. -/
theorem appended_row_counted : ∃ d w, ConsoleRuns Countable (.on d w) ∧ d.q.unackedCount = 1 ∧
    CountsPending d w.file := by
  have hw : (worked []).2 = ⟨Flash.empty, ()⟩ := by rfl
  have hcp : (worked []).1.tot.cp = { Checkpoint.blank with bootId := 1 } := by rfl
  have hack : (worked []).1.q.ack = AckRec.blank := by rfl
  have htidy : Tidy (worked []).2.file (worked []).1.q.ack (worked []).1.tot := by
    rw [hw, hack]
    refine ⟨Nat.zero_le _, Nat.dvd_zero _, ?_, fun _ => Nat.zero_le _, fun i _ hi => ?_, ?_, ?_,
      fun hfull => ?_⟩
    · rw [hcp]
      exact Nat.dvd_zero _
    · rw [hcp] at hi
      exact absurd hi (Nat.not_lt_zero i)
    · rw [hcp]
      exact Nat.zero_le _
    · exact Nat.zero_le _
    · rw [hcp] at hfull
      exact absurd hfull (by decide)
  have hruns : ConsoleRuns Countable
      (.on (worked [.queue (.append firstRow)]).1 (worked [.queue (.append firstRow)]).2) := by
    refine worked_step worked_boot (.queue (.append firstRow)) ⟨?_, htidy⟩
    rw [hack]
    decide
  have hcount : (worked [.queue (.append firstRow)]).1.q.unackedCount = 1 := by decide +kernel
  exact ⟨_, _, hruns, hcount, count_exact hruns⟩

/-- The same row, then `recover_queue`: the queue is empty and the counter still stands
at one. -/
theorem recovery_keeps_count : ∃ d w, ConsoleRuns (fun _ _ _ => True) (.on d w) ∧
    ¬ CountsPending d w.file := by
  have hboot : ConsoleRuns (fun _ _ _ => True) (.on (worked []).1 (worked []).2) :=
    Reach.mono (fun _ _ _ _ => trivial) worked_boot
  have hruns := worked_step (worked_step hboot (.queue (.append firstRow)) trivial) .recoverQueue
    trivial
  have hcount : (worked [.recoverQueue, .queue (.append firstRow)]).1.q.unackedCount = 1 := by
    decide +kernel
  have hgone : (worked [.recoverQueue, .queue (.append firstRow)]).2.file (.seg
      (worked [.recoverQueue, .queue (.append firstRow)]).1.q.ack.cursorSegment.toNat) = none := by
    decide +kernel
  generalize worked [.recoverQueue, .queue (.append firstRow)] = r at hruns hcount hgone
  refine ⟨r.1, r.2, hruns, ?_⟩
  rintro ⟨n, hn, hpending⟩
  have hnil : r.1.pending r.2.file n = [] := pending_of_missing hgone n
  have hlen := hpending n
  rw [hnil, min_self, List.length_nil] at hlen
  rw [hcount, ← hlen] at hn
  exact absurd hn (by decide)

end Device
end CovioFirmware
