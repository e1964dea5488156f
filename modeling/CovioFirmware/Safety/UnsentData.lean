import CovioFirmware.Device.Sync
import CovioFirmware.Queue.Filling

/-!
# What a hostile server can make the device drop

A row is dropped once its seq is acknowledged, and the acknowledgement is a number
read out of the body of an HTTP answer.  `pushOnce` clamps that number to the seq of
the last row of the batch it has just sent, which is the largest one sent as long as
the queue is ordered by seq.  So whatever the server answers, the acknowledged seq
never passes what has been transmitted (`ack_within_sent`).

The server of this file remembers the rows it was sent and answers anything at all.
The history value of a run is the list of the seqs whose row was confirmed.

The order of the queue holds as long as the seq does not come round.  A cycle writes
the checkpoint twice, so the bound on the checkpoint's count is enough; after 2^32
cycles a row is queued under seq 0, which counts as acknowledged on a device that has
never been online (`wrapped_seq_unsent`).
-/

namespace CovioFirmware
namespace Device

open Crash

/-- A server that keeps the rows it is sent and answers what it likes.  A push whose
exchange fails may or may not have delivered its rows. -/
def Env.hostile : Env (List QRow) where
  succeeds _ _ := True
  fails _ _ := False
  tears _ _ := True
  serve batch e r e' := e' = e ++ batch ∨ (r.code < 0 ∧ e' = e)
  serveCut batch e e' := e' = e ++ batch ∨ e' = e

theorem Env.hostile_reliable : Env.hostile.Reliable := fun _ _ h => h

/-- What `loop()` does while it may be online. -/
inductive NetOp where
  | cycle (s : Sample) : NetOp
  | background : NetOp
  | push : NetOp

/-- The operations as routines. -/
def NetOp.run : NetOp → Globals × Sync → Fw (Globals × Sync)
  | .cycle s, (d, n) => do
      let d ← d.telemetryCycle s
      return (d, n)
  | .background, (d, n) => do
      let d ← d.backgroundService
      return (d, n)
  | .push, (d, n) => do
      let (_, n, d) ← n.pushOnce d
      return (d, n)

/-- The device in front of that server. -/
def netMachine : Machine Call Call.Reply (World (List QRow)) (Globals × Sync) UInt32 NetOp where
  sem := sem Env.hostile
  boot bootId := do
    let d ← setup bootId
    return (d, {})
  op := NetOp.run
  env _ _ := False

/-- The seqs confirmed so far: the first checkpoint write of a cycle is that of its
append. -/
def confirmSeq (a : Action UInt32 NetOp) (n n' : Node (Globals × Sync) (World (List QRow)))
    (seqs : List UInt32) : List UInt32 :=
  match a, n with
  | .op (.cycle _), .on (d, _) w =>
      if w.flash.checkpoints < n'.store.flash.checkpoints then seqs ++ [d.seq + 1] else seqs
  | _, _ => seqs

/-- The states of all runs from a factory-fresh device, with the seqs confirmed on
the way. -/
abbrev NetRuns (n : Node (Globals × Sync) (World (List QRow))) (seqs : List UInt32) : Prop :=
  Reach netMachine (fun _ _ _ => True) confirmSeq
    (fun n seqs => n = .off ⟨Flash.empty, []⟩ ∧ seqs = []) n seqs

/-- The acknowledged seq is at most one that was transmitted, and whatever it covers
of the confirmed seqs was transmitted. -/
structure WithinSent (acked : UInt32) (seqs : List UInt32) (sent : List QRow) : Prop where
  bounded : acked = 0 ∨ ∃ r ∈ sent, acked ≤ r.seq
  covered : ∀ s ∈ seqs, s ≤ acked → ∃ r ∈ sent, r.seq = s

/-! ## The invariant -/

/-- The log is in order of the seqs, which the count of checkpoints bounds, and what
was sent came out of it. -/
structure Ordered (w : World (List QRow)) (cp : Checkpoint) (ack : AckRec) (log : List QRow) :
    Prop where
  durable : Durable w cp ack log
  sorted : log.Pairwise fun r r' => r.seq ≤ r'.seq
  counted : ∀ r ∈ log, r.seq.toNat ≤ w.flash.checkpoints
  seqCounted : cp.seq.toNat ≤ w.flash.checkpoints
  sent : ∀ r ∈ w.peer, r ∈ log
  within : WithinSent ack.ackedSeq (log.map QRow.seq) w.peer

/-- The flash: no row is more than one ahead of the seqs the next boot resumes
from. -/
def Shelved (w : World (List QRow)) (seqs : List UInt32) : Prop :=
  ∃ cp ack log, Ordered w cp ack log ∧ log.map QRow.seq = seqs ∧
    ∀ r ∈ log, r.seq.toNat ≤ max cp.seq.toNat ack.ackedSeq.toNat + 1

/-- The same with the device running: no row is more than one ahead of the seq handed
out last. -/
def Serviced (d : Globals) (w : World (List QRow)) (seqs : List UInt32) : Prop :=
  ∃ cp log, Ordered w cp d.q.ack log ∧ log.map QRow.seq = seqs ∧ Ram d.tot.cp cp ∧
    (∀ r ∈ log, r.seq.toNat ≤ d.seq.toNat + 1) ∧
    (d.seq ≤ cp.seq ∨ d.seq ≤ d.q.ack.ackedSeq)

section

variable {w w' : World (List QRow)} {d : Globals} {seqs : List UInt32} {log : List QRow}
  {cp cp' : Checkpoint} {ack : AckRec}

/-- Nothing acknowledged is beyond what was ever checkpointed. -/
theorem Ordered.acked_le (h : Ordered w cp ack log) :
    ack.ackedSeq.toNat ≤ w.flash.checkpoints := by
  rcases h.within.bounded with hz | ⟨r, hr, hle⟩
  · rw [hz]
    exact Nat.zero_le _
  · exact (UInt32.le_iff_toNat_le.mp hle).trans (h.counted r (h.sent r hr))

theorem Ordered.seq_le (h : Ordered w cp ack log) {seq : UInt32}
    (hseq : seq ≤ cp.seq ∨ seq ≤ ack.ackedSeq) : seq.toNat ≤ w.flash.checkpoints := by
  rcases hseq with hseq | hseq
  · exact (UInt32.le_iff_toNat_le.mp hseq).trans h.seqCounted
  · exact (UInt32.le_iff_toNat_le.mp hseq).trans h.acked_le

/-- The same log under another checkpoint. -/
theorem Ordered.redurable (h : Ordered w cp ack log) (hd : Durable w' cp' ack log)
    (hpeer : w'.peer = w.peer) (hcount : w.flash.checkpoints ≤ w'.flash.checkpoints)
    (hseq : cp'.seq.toNat ≤ w'.flash.checkpoints) : Ordered w' cp' ack log :=
  ⟨hd, h.sorted, fun r hr => (h.counted r hr).trans hcount, hseq, hpeer ▸ h.sent,
    hpeer ▸ h.within⟩

/-- The same log and checkpoint after a failed or cut write. -/
theorem Ordered.kept (h : Ordered w cp ack log) (hd : Durable w' cp ack log)
    (hdone : w'.flash.done = w.flash.done) (hpeer : w'.peer = w.peer) : Ordered w' cp ack log :=
  h.redurable hd hpeer (checkpoints_congr hdone).ge
    ((checkpoints_congr hdone).symm ▸ h.seqCounted)

/-- The seq handed out last is that of the checkpoint or of an acknowledgement. -/
theorem Ordered.shelved (h : Ordered w cp ack log) (hseqs : log.map QRow.seq = seqs)
    {seq : UInt32} (hnear : ∀ r ∈ log, r.seq.toNat ≤ seq.toNat + 1)
    (hseq : seq ≤ cp.seq ∨ seq ≤ ack.ackedSeq) : Shelved w seqs := by
  refine ⟨cp, ack, log, h, hseqs, fun r hr => (hnear r hr).trans (Nat.succ_le_succ ?_)⟩
  exact hseq.elim (fun hle => le_max_of_le_left (UInt32.le_iff_toNat_le.mp hle))
    fun hle => le_max_of_le_right (UInt32.le_iff_toNat_le.mp hle)

theorem Serviced.shelved (h : Serviced d w seqs) : Shelved w seqs := by
  obtain ⟨cp, log, hord, hseqs, -, hnear, hseq⟩ := h
  exact hord.shelved hseqs hnear hseq

/-- A row that was just numbered joins the log. -/
theorem Ordered.append (h : Ordered w cp ack log) {seq : UInt32} {row : QRow}
    (hnear : ∀ r ∈ log, r.seq.toNat ≤ seq.toNat + 1) (hrow : row.seq.toNat = seq.toNat + 1)
    (hd : Durable w' cp' ack (log ++ [row])) (hpeer : w'.peer = w.peer)
    (hcount : w.flash.checkpoints + 1 = w'.flash.checkpoints) (hseq : cp'.seq = cp.seq)
    (hle : seq.toNat ≤ w.flash.checkpoints) : Ordered w' cp' ack (log ++ [row]) := by
  refine ⟨hd, ?_, fun r hr => ?_, ?_, fun r hr => ?_, ?_, fun s hs hack => ?_⟩
  · refine List.pairwise_append.mpr ⟨h.sorted, List.pairwise_singleton _ _, fun r hr r' hr' => ?_⟩
    rw [List.mem_singleton.mp hr']
    exact UInt32.le_iff_toNat_le.mpr (hrow ▸ hnear r hr)
  · rcases List.mem_append.mp hr with hr | hr
    · exact (h.counted r hr).trans (by omega)
    · rw [List.mem_singleton.mp hr]
      omega
  · rw [hseq]
    exact h.seqCounted.trans (by omega)
  · exact List.mem_append_left _ (h.sent r (hpeer ▸ hr))
  · exact hpeer ▸ h.within.bounded
  · rw [List.map_append, List.mem_append] at hs
    rw [hpeer]
    rcases hs with hs | hs
    · exact h.within.covered s hs hack
    · -- the new seq can only be acknowledged if a row with it was sent before
      rw [List.map_singleton, List.mem_singleton] at hs
      rw [hs] at hack ⊢
      have hack' := UInt32.le_iff_toNat_le.mp hack
      rcases h.within.bounded with hz | ⟨r, hr, hle'⟩
      · have hz' : ack.ackedSeq.toNat = 0 := congrArg UInt32.toNat hz
        omega
      · have h1 := UInt32.le_iff_toNat_le.mp hle'
        have h2 := hnear r (h.sent r hr)
        exact ⟨r, hr, UInt32.toNat_inj.mp (by omega)⟩

/-- A cycle that completes no checkpoint write confirms nothing. -/
theorem confirmSeq_same {s : Sample} {r : Globals × Sync}
    {m : Node (Globals × Sync) (World (List QRow))}
    (h : m.store.flash.checkpoints = w.flash.checkpoints) :
    confirmSeq (.op (.cycle s)) (.on r w) m seqs = seqs := if_neg h.not_gt

theorem confirmSeq_row {s : Sample} {r : Globals × Sync}
    {m : Node (Globals × Sync) (World (List QRow))}
    (h : w.flash.checkpoints < m.store.flash.checkpoints) :
    confirmSeq (.op (.cycle s)) (.on r w) m seqs = seqs ++ [r.1.seq + 1] := if_pos h

/-- The row behind a seq is confirmed, and no checkpoint has that seq yet. -/
structure RowJoined (w : World (List QRow)) (cp : Checkpoint) (ack : AckRec) (log : List QRow)
    (seq : UInt32) (row : QRow) (c : Checkpoint) (w' : World (List QRow)) : Prop where
  ordered : Ordered w' c ack (log ++ [row])
  near : ∀ r ∈ log ++ [row], r.seq.toNat ≤ seq.toNat + 1
  row : row.seq.toNat = seq.toNat + 1
  seq : c.seq = cp.seq
  checkpoints : w'.flash.checkpoints = w.flash.checkpoints + 1

/-- The checkpoint write of an append confirms its row.  The seq does not come round
while the count does not. -/
theorem Ordered.join (h : Ordered w cp ack log) {seq : UInt32} {row : QRow} {c : Checkpoint}
    {w1 : World (List QRow)} (hnear : ∀ r ∈ log, r.seq.toNat ≤ seq.toNat + 1)
    (hseq : seq ≤ cp.seq ∨ seq ≤ ack.ackedSeq) (hrow : row.seq = seq + 1)
    (hp : RowPlaced w cp ack log row c w1) (hc : (w1.persisted c).flash.Counted) :
    RowJoined w cp ack log seq row (ckptSlots.next c) (w1.persisted c) := by
  have hgrew : (w1.persisted c).flash.checkpoints = w.flash.checkpoints + 1 := by
    rw [checkpoints_write, checkpoints_congr hp.slots.done]
  have hle := h.seq_le hseq
  have hnext : row.seq.toNat = seq.toNat + 1 := by
    rw [Flash.Counted, hgrew] at hc
    have hadd : (seq + 1).toNat = (seq.toNat + 1) % 2 ^ 32 := UInt32.toNat_add _ _
    rw [Nat.mod_eq_of_lt (by omega)] at hadd
    rw [hrow, hadd]
  refine ⟨h.append hnear hnext (hp.durable h.durable hc) hp.slots.peer hgrew.symm hp.seq hle,
    fun r hr => ?_, hnext, hp.seq, hgrew⟩
  rcases List.mem_append.mp hr with hr | hr
  · exact hnear r hr
  · rw [List.mem_singleton.mp hr, hnext]

/-- A cut before the service: the next boot hands out the same seq again. -/
theorem RowJoined.cut {seq : UInt32} {row : QRow} {c : Checkpoint} {w1 : World (List QRow)}
    (h : RowJoined w cp ack log seq row c w1) (hseqs : log.map QRow.seq = seqs)
    (hseq : seq ≤ cp.seq ∨ seq ≤ ack.ackedSeq) (hd : Durable w' c ack (log ++ [row]))
    (hdone : w'.flash.done = w1.flash.done) (hpeer : w'.peer = w1.peer) :
    Shelved w' (seqs ++ [row.seq]) := by
  refine (h.ordered.kept hd hdone hpeer).shelved ?_ h.near (h.seq.symm ▸ hseq)
  rw [List.map_append, hseqs, List.map_singleton]

/-- The service behind the append checkpoints the seq. -/
theorem RowJoined.service {row : QRow} {c c' : Checkpoint} {w1 : World (List QRow)}
    (h : RowJoined w cp d.q.ack log d.seq row c w1) (hseqs : log.map QRow.seq = seqs)
    (hrow : row.seq = d.seq + 1) (hc' : Ram c' { c with seq := d.seq + 1 })
    (hle : d.seq.toNat ≤ w.flash.checkpoints) (hcount : (w1.persisted c').flash.Counted)
    {d' : Globals} (hack : d'.q.ack = d.q.ack) (htot : d'.tot.cp = ckptSlots.next c')
    (hd' : d'.seq = d.seq + 1) : Serviced d' (w1.persisted c') (seqs ++ [d.seq + 1]) := by
  have hgrew : (w1.persisted c').flash.checkpoints = w.flash.checkpoints + 2 := by
    rw [checkpoints_write, h.checkpoints]
  have hseq : (ckptSlots.next c').seq = d.seq + 1 := hc'.seq
  have hnat : (d.seq + 1).toNat = d.seq.toNat + 1 := hrow ▸ h.row
  rw [Serviced, hack, hd', htot]
  refine ⟨_, log ++ [row], h.ordered.redurable (h.ordered.durable.repersist hc' hcount) rfl ?_ ?_,
    ?_, .refl _, fun r hr => ?_, .inl (hseq ▸ UInt32.le_refl _)⟩
  · rw [hgrew, h.checkpoints]
    exact Nat.le_succ _
  · rw [hseq, hnat, hgrew]
    omega
  · rw [List.map_append, hseqs, List.map_singleton, hrow]
  · exact (h.near r hr).trans (by omega)

/-- **A cycle confirms its row under the next seq**, or nothing. -/
theorem Serviced.wp_telemetryCycle (h : Serviced d w seqs) (hcount : w.flash.Counted) (s : Sample)
    (n : Sync) :
    wp (sem Env.hostile) (d.telemetryCycle s)
      (fun d' w' => w'.flash.Counted →
        Serviced d' w' (confirmSeq (.op (.cycle s)) (.on (d, n) w) (.on (d', n) w') seqs))
      (fun w' => w'.flash.Counted →
        Shelved w' (confirmSeq (.op (.cycle s)) (.on (d, n) w) (.off w') seqs)) w := by
  obtain ⟨cp, log, hord, hseqs, hram, hnear, hseq⟩ := h
  -- until the append's checkpoint write completes nothing is confirmed
  have hkept : ∀ w' : World (List QRow), Durable w' cp d.q.ack log →
      w'.flash.done = w.flash.done → w'.peer = w.peer → w'.flash.Counted →
      Shelved w' (confirmSeq (.op (.cycle s)) (.on (d, n) w) (.off w') seqs) := by
    intro w' hd hdone hpeer _
    rw [confirmSeq_same (m := .off w') (checkpoints_congr hdone)]
    exact (hord.kept hd hdone hpeer).shelved hseqs hnear hseq
  refine Totalizer.wp_total (hkept w hord.durable rfl rfl) fun total => wp_bind ?_
  refine hord.durable.wp_append Env.hostile_reliable hram hcount hkept fun w1 c hplaced => ?_
  set row := QRow.kind.stamp (telemetryBuild s d.bootId total (d.seq + 1)
    (decide (queueHighwater < d.q.unackedCount)))
  have hjoin : (w1.persisted c).flash.Counted →
      RowJoined w cp d.q.ack log d.seq row (ckptSlots.next c) (w1.persisted c) :=
    hord.join hnear hseq rfl hplaced
  -- the row is confirmed, its seq is not checkpointed yet
  have hcut : ∀ w' : World (List QRow), (w1.persisted c).flash.Counted →
      Durable w' (ckptSlots.next c) d.q.ack (log ++ [row]) →
      w'.flash.done = (w1.persisted c).flash.done → w'.peer = (w1.persisted c).peer →
      Shelved w' (confirmSeq (.op (.cycle s)) (.on (d, n) w) (.off w') seqs) := by
    intro w' hc hd hdone hpeer
    have hmore : w.flash.checkpoints < w'.flash.checkpoints := by
      rw [checkpoints_congr hdone, (hjoin hc).checkpoints]
      exact Nat.lt_succ_self _
    rw [confirmSeq_row (m := .off w') hmore]
    exact (hjoin hc).cut hseqs hseq hd hdone hpeer
  refine ⟨fun hc => hcut _ hc (hjoin hc).ordered.durable rfl rfl, wp_of_counted fun hc => ?_⟩
  refine wp_map ((hjoin hc).ordered.durable.wp_service Env.hostile_reliable (.refl _)
    (fun w' hw' hdone hpeer _ => hcut w' hc hw' hdone hpeer) fun c' t' hc' ht' => ?_)
  have hserved : ((w1.persisted c).persisted c').flash.Counted →
      Serviced { d with
        q := { d.q with unackedCount := d.q.unackedCount + 1 }, tot := t', seq := d.seq + 1 }
        ((w1.persisted c).persisted c') (seqs ++ [d.seq + 1]) := fun hcount' =>
    (hjoin hc).service hseqs rfl hc' (hord.seq_le hseq) hcount' rfl ht' rfl
  have hmore : w.flash.checkpoints < ((w1.persisted c).persisted c').flash.checkpoints := by
    rw [checkpoints_write, (hjoin hc).checkpoints]
    omega
  refine ⟨fun hcount' => ?_, fun hcount' => ?_⟩
  · rw [confirmSeq_row (m := .off ((w1.persisted c).persisted c')) hmore]
    exact (hserved hcount').shelved
  · rw [confirmSeq_row (m := .on _ ((w1.persisted c).persisted c')) hmore]
    exact hserved hcount'

theorem Serviced.wp_backgroundService (h : Serviced d w seqs) :
    wp (sem Env.hostile) d.backgroundService
      (fun d' w' => w'.flash.Counted → Serviced d' w' seqs)
      (fun w' => w'.flash.Counted → Shelved w' seqs) w := by
  obtain ⟨cp, log, hord, hseqs, hram, hnear, hseq⟩ := h
  refine wp_map (hord.durable.wp_service Env.hostile_reliable hram
    (fun w' hw' hdone hpeer _ => ?_) fun c t' hc ht' => ?_)
  · exact Serviced.shelved (d := d) ⟨cp, log, hord.kept hw' hdone hpeer, hseqs, hram, hnear, hseq⟩
  · have hsame : (ckptSlots.next c).seq = cp.seq := hc.seq.trans hram.seq
    have hserved : (w.persisted c).flash.Counted →
        Serviced { d with tot := t' } (w.persisted c) seqs := by
      intro hcount
      refine ⟨_, log, hord.redurable (hord.durable.repersist hc hcount) rfl ?_ ?_, hseqs,
        ht' ▸ .refl _, hnear, hsame.symm ▸ hseq⟩
      · rw [checkpoints_write]
        exact Nat.le_succ _
      · rw [hsame, checkpoints_write]
        exact hord.seqCounted.trans (Nat.le_succ _)
    exact ⟨fun hcount => (hserved hcount).shelved, hserved⟩

/-! ## One exchange -/

/-- In a list ordered by seq, the seqs up to that of the last row taken were taken. -/
theorem seq_taken {l : List QRow} (hl : l.Pairwise fun r r' => r.seq ≤ r'.seq) {n : ℕ}
    {last r : QRow} (hlast : (l.take n).getLast? = some last) (hr : r ∈ l)
    (hle : r.seq ≤ last.seq) : ∃ r' ∈ l.take n, r'.seq = r.seq := by
  have hmem : last ∈ l.take n := List.mem_of_getLast? hlast
  rw [← List.take_append_drop n l] at hl hr
  rcases List.mem_append.mp hr with hr | hr
  · exact ⟨r, hr, rfl⟩
  · have hge := (List.pairwise_append.mp hl).2.2 last hmem r hr
    exact ⟨last, hmem, UInt32.le_antisymm hge hle⟩

/-- Rows of the log are delivered. -/
theorem Ordered.deliver (h : Ordered w cp ack log) {batch : List QRow}
    (hbatch : ∀ r ∈ batch, r ∈ log) (hflash : w'.flash = w.flash)
    (hpeer : w'.peer = w.peer ++ batch) : Ordered w' cp ack log := by
  refine ⟨h.durable.of_flash hflash, h.sorted, hflash ▸ h.counted, hflash ▸ h.seqCounted,
    fun r hr => ?_, ?_, fun s hs hack => ?_⟩
  · rw [hpeer] at hr
    rcases List.mem_append.mp hr with hr | hr
    · exact h.sent r hr
    · exact hbatch r hr
  · rw [hpeer]
    refine h.within.bounded.imp_right ?_
    rintro ⟨r, hr, hle⟩
    exact ⟨r, List.mem_append_left _ hr, hle⟩
  · obtain ⟨r, hr, hrs⟩ := h.within.covered s hs hack
    rw [hpeer]
    exact ⟨r, List.mem_append_left _ hr, hrs⟩

/-- An acknowledgement up to the last row of a delivered batch. -/
theorem Ordered.acknowledge (h : Ordered w cp ack log) {k : UInt32} {n : ℕ} {last : QRow}
    (hlast : ((log.filter fun r => ack.ackedSeq < r.seq).take n).getLast? = some last)
    (hsent : ∀ r ∈ (log.filter fun r => ack.ackedSeq < r.seq).take n, r ∈ w.peer)
    (hk : k ≤ last.seq) {ack' : AckRec} (hd : Durable w' cp ack' log) (ha : Acked ack ack' k)
    (hs : SameCkpts w w') : Ordered w' cp ack' log := by
  refine ⟨hd, h.sorted, hs.checkpoints ▸ h.counted, hs.checkpoints ▸ h.seqCounted,
    hs.peer ▸ h.sent, ?_⟩
  rw [hs.peer]
  rcases ha with rfl | ⟨-, hacked⟩
  · exact h.within
  · refine ⟨.inr ⟨last, hsent last (List.mem_of_getLast? hlast), hacked ▸ hk⟩, fun s hs hle => ?_⟩
    rw [hacked] at hle
    by_cases hold : s ≤ ack.ackedSeq
    · exact h.within.covered s hs hold
    · obtain ⟨r, hr, rfl⟩ := List.mem_map.mp hs
      have hr' : r ∈ log.filter fun r => ack.ackedSeq < r.seq :=
        List.mem_filter.mpr ⟨hr, decide_eq_true (UInt32.not_le.mp hold)⟩
      obtain ⟨r', hr', hseq⟩ := seq_taken (h.sorted.sublist List.filter_sublist) hlast hr'
        (UInt32.le_trans hle hk)
      exact ⟨r', hsent r' hr', hseq⟩

theorem boundAckSeq_le (parsedAck maxSentSeq : UInt32) :
    boundAckSeq parsedAck maxSentSeq ≤ maxSentSeq := by
  unfold boundAckSeq
  split
  · exact UInt32.le_refl _
  · next h => exact UInt32.not_lt.mp h

/-- **Whatever the answer, a push stays within what was sent.** -/
theorem Serviced.wp_pushOnce (h : Serviced d w seqs) (n : Sync) :
    wp (sem Env.hostile) (n.pushOnce d) (fun r w' => Serviced r.2.2 w' seqs)
      (fun w' => Shelved w' seqs) w := by
  have hself := h
  obtain ⟨cp, log, hord, hseqs, hram, hnear, hseq⟩ := h
  have hbatch : d.pending w.file pushBatchMax =
      (log.filter fun r => d.q.ack.ackedSeq < r.seq).take pushBatchMax :=
    (hram.laid hord.durable.laid).pending_eq pushBatchMax
  have hsub : ∀ r ∈ d.pending w.file pushBatchMax, r ∈ log := fun r hr =>
    (List.mem_filter.mp (List.mem_of_mem_take (hbatch ▸ hr))).1
  have hdelivered : ∀ w' : World (List QRow), w'.flash = w.flash →
      (w'.peer = w.peer ++ d.pending w.file pushBatchMax ∨ w'.peer = w.peer) →
      Ordered w' cp d.q.ack log := by
    rintro w' hflash (hpeer | hpeer)
    · exact hord.deliver hsub hflash hpeer
    · exact hord.deliver (fun r (hr : r ∈ []) => absurd hr (by simp)) hflash (by simpa using hpeer)
  have hserved : ∀ w' : World (List QRow), Ordered w' cp d.q.ack log → Serviced d w' seqs :=
    fun w' h' => ⟨cp, log, h', hseqs, hram, hnear, hseq⟩
  refine Sync.wp_pushOnce hself.shelved (fun _ => hself) (fun w' _ hflash hcut => ?_)
    fun last r w' hlast hflash hserve => ?_
  · exact (hserved w' (hdelivered w' hflash hcut)).shelved
  · have hord' := hdelivered w' hflash (hserve.imp_right fun h => h.2)
    refine ⟨(hserved w' hord').shelved, fun _ _ => hserved w' hord', fun hcode _ => ?_⟩
    have hsent : w'.peer = w.peer ++ d.pending w.file pushBatchMax := by
      rcases hserve with hs | ⟨hneg, -⟩
      · exact hs
      · rw [hcode] at hneg
        cases hneg
    have hin : ∀ r ∈ (log.filter fun r => d.q.ack.ackedSeq < r.seq).take pushBatchMax,
        r ∈ w'.peer := fun r hr => by
      rw [hsent]
      exact List.mem_append_right _ (hbatch.symm ▸ hr)
    rw [hbatch] at hlast
    have hk := boundAckSeq_le (Sync.ackSeq r.body).toUInt32 last.seq
    refine wp_map (hord'.durable.wp_ackThrough Env.hostile_reliable hram rfl
      (fun w2 a' hw2 ha hs => ?_) fun w2 q' hw2 ha hs s' => ?_)
    · refine Serviced.shelved (d := { d with q := { d.q with ack := a' } })
        ⟨cp, log, hord'.acknowledge hlast hin hk hw2 ha hs, hseqs, hram, hnear, ?_⟩
      exact hseq.imp_right fun h => UInt32.le_trans h ha.le
    · refine ⟨cp, log, hord'.acknowledge hlast hin hk hw2 ha hs, hseqs, hram, hnear, ?_⟩
      exact hseq.imp_right fun h => UInt32.le_trans h ha.le

/-- The next boot resumes behind every row of the log. -/
theorem Shelved.wp_setup (h : Shelved w seqs) (hcount : w.flash.Counted) (bootId : UInt32) :
    wp (sem Env.hostile) (setup bootId) (fun d w' => w'.flash.Counted → Serviced d w' seqs)
      (fun w' => w'.flash.Counted → Shelved w' seqs) w := by
  obtain ⟨cp, ack, log, hord, hseqs, hnear⟩ := h
  have hkept : ∀ (w' : World (List QRow)) cp', w.flash.checkpoints ≤ w'.flash.checkpoints →
      Resumed w cp w' cp' → Durable w' cp' ack log → Ordered w' cp' ack log := by
    intro w' cp' hgrew hcp hd
    refine hord.redurable hd hcp.peer hgrew ?_
    rw [hcp.seq]
    exact hord.seqCounted.trans hgrew
  refine wp_mono (wp_and (wp_checkpoints (setup bootId) w)
    (hord.durable.wp_setup Env.hostile_reliable hcount
      (C := fun w' => ∃ cp', Resumed w cp w' cp' ∧ Durable w' cp' ack log)
      (Q := fun d w' => ∃ cp', Resumed w cp w' cp' ∧ Durable w' cp' ack log ∧ Ram d.tot.cp cp' ∧
        d.q.ack = ack ∧ d.seq = resumeSeqFloor cp.seq ack.ackedSeq)
      (fun w' cp' hcp hd => ⟨cp', hcp, hd⟩)
      fun w' cp' d hcp hd hram hack hseq => ⟨cp', hcp, hd, hram, hack, hseq⟩)) ?_ ?_
  · rintro d w' ⟨hgrew, hset⟩ hc
    obtain ⟨cp', hcp, hd, hram, rfl, hseq⟩ := hset hc
    have hfloor : d.seq.toNat = max cp.seq.toNat d.q.ack.ackedSeq.toNat := by
      rw [hseq, resumeSeqFloor]
      split
      · next hle => exact (max_eq_left (UInt32.le_iff_toNat_le.mp hle)).symm
      · next hle => exact (max_eq_right (UInt32.le_iff_toNat_le.mp
          (UInt32.le_of_lt (UInt32.not_le.mp hle)))).symm
    refine ⟨cp', log, hkept w' cp' hgrew hcp hd, hseqs, hram, fun r hr => hfloor ▸ hnear r hr, ?_⟩
    rw [hseq, resumeSeqFloor, hcp.seq]
    split
    · exact .inl (UInt32.le_refl _)
    · exact .inr (UInt32.le_refl _)
  · rintro w' ⟨hgrew, hset⟩ hc
    obtain ⟨cp', hcp, hd⟩ := hset hc
    exact ⟨cp', ack, log, hkept w' cp' hgrew hcp hd, hseqs, hcp.seq.symm ▸ hnear⟩

end

/-- **The invariant holds in every state of every run.** -/
theorem NetRuns.holds {n : Node (Globals × Sync) (World (List QRow))} {seqs : List UInt32}
    (h : NetRuns n seqs) :
    n.Holds (fun w seqs => w.flash.Counted → Shelved w seqs)
      (fun d w seqs => w.flash.Counted → Serviced d.1 w seqs) seqs := by
  refine Reach.invariant ?_ ?_ ?_ (fun _ _ _ _ (he : False) => he.elim) h
  · rintro n seqs ⟨rfl, rfl⟩ _
    refine ⟨Checkpoint.blank, AckRec.blank, [], ⟨.fresh [], .nil, ?_, Nat.zero_le _, ?_, .inl rfl,
      ?_⟩, rfl, ?_⟩
    · exact fun r hr => absurd hr (by simp)
    · exact fun r hr => absurd hr (by simp)
    · exact fun s hs => absurd hs (by simp)
    · exact fun r hr => absurd hr (by simp)
  · intro bootId w seqs _ hw
    exact wp_of_counted fun hc => wp_map ((hw hc).wp_setup hc bootId)
  · rintro i ⟨d, n⟩ w seqs _ hw
    refine wp_of_counted fun hc => ?_
    cases i with
    | cycle s => exact wp_map ((hw hc).wp_telemetryCycle hc s n)
    | background => exact wp_map (hw hc).wp_backgroundService
    | push =>
      refine wp_map (wp_mono ((hw hc).wp_pushOnce n) ?_ ?_)
      · exact fun r w' h' _ => h'
      · exact fun w' h' _ => h'

/-- **No answer makes the device drop what it has not sent**, in any state of any
run, until the checkpoint's count comes round. -/
theorem ack_within_sent {d : Globals} {n : Sync} {w : World (List QRow)} {seqs : List UInt32}
    (h : NetRuns (.on (d, n) w) seqs) (hc : w.flash.Counted) :
    WithinSent d.q.ack.ackedSeq seqs w.peer := by
  obtain ⟨cp, log, hord, rfl, -⟩ := NetRuns.holds h hc
  exact hord.within

/-! ## A lying server -/

/-- Answers of a working device and of a server that acknowledges seq 7 whatever it
is sent. -/
def lying : (c : Call) → World (List QRow) → c.Reply × World (List QRow)
  | .post batch, w =>
      (⟨200, "\x7b\"ack_seq\":7\x7d".toList⟩, { w with peer := w.peer ++ batch })
  | c, w => respond (fun _ => false) c w

theorem lying_reply (c : Call) (w : World (List QRow)) :
    (sem Env.hostile).post c w (lying c w).1 (lying c w).2 := by
  have hrespond : ∀ c : Call, (sem Env.hostile).post c w (respond (fun _ => false) c w).1
      (respond (fun _ => false) c w).2 :=
    respond_reply (by simp) (fun _ _ => trivial) fun _ => .inr ⟨by decide, rfl⟩
  cases c with
  | post batch => exact ⟨rfl, .inl rfl⟩
  | files | openDir | pcntGet | pcntClear | millis | online | httpBegin | get | random
  | confirmHealthyBoot | otaPoll => exact hrespond _
  | appendOpenSize p | truncateTo p n | appendWrite p d | readAt p o n | writeWhole p d
  | remove p => exact hrespond _

theorem lying_runs {α : Type} (p : Fw α) (w : World (List QRow)) :
    Runs (sem Env.hostile) p w (p.exec lying w).1 (p.exec lying w).2 :=
  Prog.exec_runs (I := fun _ => True) (fun c w _ => ⟨lying_reply c w, trivial⟩) p trivial

/-- A new device after its boot and the given operations, the latest first. -/
def liedTo : List NetOp → (Globals × Sync) × World (List QRow)
  | [] => (netMachine.boot 1).exec lying ⟨Flash.empty, []⟩
  | i :: ops => (netMachine.op i (liedTo ops).1).exec lying (liedTo ops).2

theorem liedTo_runs : ∀ ops, ∃ seqs, NetRuns (.on (liedTo ops).1 (liedTo ops).2) seqs
  | [] => by
    rw [liedTo]
    exact ⟨_, .step (a := .boot 1) (.init ⟨rfl, rfl⟩) trivial (.boot (lying_runs _ _))⟩
  | i :: ops => by
    obtain ⟨seqs, h⟩ := liedTo_runs ops
    rw [liedTo]
    exact ⟨_, .step (a := .op i) h trivial (.op (lying_runs _ _))⟩

/-- One row is queued under seq 1 and sent; the server acknowledges seq 7, and the
device takes seq 1. -/
theorem lie_clamped : ∃ d n w seqs, NetRuns (.on (d, n) w) seqs ∧ w.flash.Counted ∧
    d.q.ack.ackedSeq = 1 ∧ WithinSent d.q.ack.ackedSeq seqs w.peer := by
  obtain ⟨seqs, hruns⟩ := liedTo_runs [.push, .cycle ⟨0, 0, 0⟩]
  have hcounted : (liedTo [.push, .cycle ⟨0, 0, 0⟩]).2.flash.checkpoints < 2 ^ 32 := by
    decide +kernel
  have hack : (liedTo [.push, .cycle ⟨0, 0, 0⟩]).1.1.q.ack.ackedSeq = 1 := by decide +kernel
  generalize liedTo [.push, .cycle ⟨0, 0, 0⟩] = r at hruns hcounted hack
  obtain ⟨⟨d, n⟩, w⟩ := r
  exact ⟨d, n, w, seqs, hruns, hcounted, hack, ack_within_sent hruns hcounted⟩

/-! ## When the seq comes round -/

/-- A cycle on a laid-out device that stays switched on. -/
theorem LaidOut.wp_telemetryCycle {d : Globals} {w : World (List QRow)} {log : List QRow}
    (h : LaidOut w.file d.tot.cp d.q.ack log) (hA : d.tot.cp.qSegment.toNat + 1 < 2 ^ 32)
    (s : Sample) :
    wp (sem Env.hostile) (d.telemetryCycle s)
      (fun d' w' => (∃ row, LaidOut w'.file d'.tot.cp d'.q.ack (log ++ [row])) ∧
        d'.q.ack = d.q.ack ∧ d'.seq = d.seq + 1 ∧ w'.peer = w.peer ∧
        w.flash.checkpoints < w'.flash.checkpoints)
      (fun _ => True) w := by
  have hcong : ∀ {w : World (List QRow)} {cp : Checkpoint} {log : List QRow} (b : Bool) (x : Data),
      LaidOut w.file cp d.q.ack log →
        LaidOut (w.write (ckptSlots.path b) x).file cp d.q.ack log := by
    intro w cp log b x hl
    refine hl.congr fun i => ?_
    rw [World.file_write, Function.update_of_ne (by simp [ckptSlots])]
  refine Totalizer.wp_total trivial fun total => wp_bind ?_
  refine LaidOut.wp_append Env.hostile_reliable h hA (fun _ _ _ => trivial)
    fun w1 seg off hs _ hafter => Totalizer.wp_persist ?_
  refine Slots.wp_persist trivial (fun _ _ => trivial) ⟨trivial, ?_⟩ fun p x hf => hf.elim
  refine wp_map (Totalizer.wp_service trivial fun acc total => Totalizer.wp_persist ?_)
  refine Slots.wp_persist trivial (fun _ _ => trivial) ⟨trivial, ?_⟩ fun p x hf => hf.elim
  refine ⟨⟨_, hcong _ _ (hcong _ _ hafter)⟩, rfl, rfl, hs.peer, ?_⟩
  rw [checkpoints_write, checkpoints_write, checkpoints_congr hs.done]
  omega

/-- Any number of cycles on a device that is never online. -/
theorem exists_cycles (n : ℕ) (hn : n ≤ 2 ^ 32) : ∃ d net w log seqs,
    NetRuns (.on (d, net) w) seqs ∧ LaidOut w.file d.tot.cp d.q.ack log ∧ log.length = n ∧
      d.q.ack.ackedSeq = 0 ∧ w.peer = [] ∧ d.seq.toNat = n % 2 ^ 32 ∧
      (0 < n → d.seq ∈ seqs) := by
  induction n with
  | zero =>
    have hrun := lying_runs (netMachine.boot 1) ⟨Flash.empty, []⟩
    have hw : ((netMachine.boot 1).exec lying ⟨Flash.empty, []⟩).2 = ⟨Flash.empty, []⟩ := by rfl
    have hcp : ((netMachine.boot 1).exec lying ⟨Flash.empty, []⟩).1.1.tot.cp =
      { Checkpoint.blank with bootId := 1 } := by rfl
    have hack : ((netMachine.boot 1).exec lying ⟨Flash.empty, []⟩).1.1.q.ack = AckRec.blank := by rfl
    have hseq : ((netMachine.boot 1).exec lying ⟨Flash.empty, []⟩).1.1.seq = 0 := by rfl
    generalize (netMachine.boot 1).exec lying ⟨Flash.empty, []⟩ = r at hrun hw hcp hack hseq
    refine ⟨r.1.1, r.1.2, r.2, [], _, .step (a := .boot 1) (.init ⟨rfl, rfl⟩) trivial (.boot hrun),
      ?_, rfl, ?_, ?_, ?_, fun h => absurd h (by simp)⟩
    · rw [hw, LaidOut, hcp, hack]
      exact Layout.empty fun _ => rfl
    · rw [hack]
      rfl
    · rw [hw]
    · rw [hseq]
      rfl
  | succ n ih =>
    obtain ⟨d, net, w, log, seqs, hruns, hlaid, hlen, hack, hpeer, hseq, -⟩ := ih (by omega)
    have hA := hlaid.lower
    have hrun := lying_runs (netMachine.op (.cycle ⟨0, 0, 0⟩) (d, net)) w
    obtain ⟨⟨⟨row, hlaid'⟩, hack', hseq', hpeer', hgrew⟩, hnet⟩ := (wp_map (f := fun d' => (d', net))
      (Q := fun r w' => ((∃ row, LaidOut w'.file r.1.tot.cp r.1.q.ack (log ++ [row])) ∧
        r.1.q.ack = d.q.ack ∧ r.1.seq = d.seq + 1 ∧ w'.peer = w.peer ∧
        w.flash.checkpoints < w'.flash.checkpoints) ∧ r.2 = net)
      (wp_mono (hlaid.wp_telemetryCycle (by omega) ⟨0, 0, 0⟩) (fun _ _ h => ⟨h, rfl⟩)
        fun _ h => h)).runs hrun
    generalize (netMachine.op (.cycle ⟨0, 0, 0⟩) (d, net)).exec lying w = r at *
    obtain ⟨⟨d', net'⟩, w'⟩ := r
    have hstep := Reach.step (D := netMachine) (a := .op (.cycle ⟨0, 0, 0⟩)) hruns trivial (.op hrun)
    rw [show confirmSeq (.op (.cycle ⟨0, 0, 0⟩)) (.on (d, net) w) (.on (d', net') w') seqs =
      seqs ++ [d.seq + 1] from if_pos hgrew] at hstep
    refine ⟨d', net', w', _, _, hstep, hlaid', ?_, ?_, hpeer'.trans hpeer, ?_, fun _ => ?_⟩
    · rw [List.length_append, hlen, List.length_singleton]
    · rw [hack', hack]
    · have hadd : (d.seq + 1).toNat = (d.seq.toNat + 1) % 2 ^ 32 := UInt32.toNat_add _ _
      rw [hseq', hadd, hseq]
      omega
    · exact List.mem_append_right _ (List.mem_singleton.mpr hseq')

/-- After 2^32 cycles without a push, a row is confirmed under seq 0, which counts as
acknowledged; nothing has been sent. -/
theorem wrapped_seq_unsent : ∃ d n w seqs, NetRuns (.on (d, n) w) seqs ∧
    ¬ WithinSent d.q.ack.ackedSeq seqs w.peer := by
  obtain ⟨k, hk⟩ : ∃ k, k = 2 ^ 32 := ⟨_, rfl⟩
  obtain ⟨d, n, w, log, seqs, hruns, -, -, hack, hpeer, hseq, hmem⟩ := exists_cycles k (by omega)
  refine ⟨d, n, w, seqs, hruns, fun hwithin => ?_⟩
  have hzero : d.seq = 0 := UInt32.toNat_inj.mp (by rw [hseq, hk]; rfl)
  have hcovered := hwithin.covered d.seq (hmem (by omega))
  rw [hzero, hack, hpeer] at hcovered
  obtain ⟨r, hr, -⟩ := hcovered (UInt32.le_refl _)
  cases hr

end Device
end CovioFirmware
