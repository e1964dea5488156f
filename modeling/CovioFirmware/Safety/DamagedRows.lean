import CovioFirmware.Queue.Backlog
import CovioFirmware.Safety.Receiver
import CovioFirmware.Safety.UnsentData

/-!
# A damaged row in front

`pending` skips a row that fails its check, and the server acknowledges the seqs it has
without a gap.  If the damaged row is the one right behind the acknowledged seq, the two
do not meet: the batch leaves the row out, the server stores the batch and answers with
the old number, `ackThrough` does nothing, and the next push sends the same batch again
(`damaged_row_stalls`).

`push_advances_iff` says for every contents of the queue and every state of the server
when an answered push gets ahead: when the next seq is in the batch, or is already in the
database, and the acknowledged number still fits a `long`.
-/

namespace CovioFirmware
namespace Device

open Crash Server

/-- A seq the server has once it has stored the batch. -/
def Receiver.Has (R : Receiver) (db : Database) (batch : List QRow) (i : ℤ) : Prop :=
  db.Present R.device (.num i) ∨ ∃ r ∈ batch, (r.seq.toNat : ℤ) = i

/-- The server will have the next seq, and does not have all seqs up to 2^31. -/
def Receiver.MovesOn (R : Receiver) (db : Database) (batch : List QRow) (acked : UInt32) : Prop :=
  R.Has db batch (acked.toNat + 1) ∧ ∃ i, 1 ≤ i ∧ i ≤ 2 ^ 31 ∧ ¬ R.Has db batch i

/-! ## The device's part -/

/-- What an acknowledgement makes of the acknowledged seq. -/
theorem wp_ackThrough_acked {ε : Type} {E : Env ε} {w : World ε} (d : Globals)
    (k bootId : UInt32) :
    wp (sem E) (d.ackThrough k bootId)
      (fun d' w' => w'.peer = w.peer ∧
        (d.q.ack.ackedSeq < d'.q.ack.ackedSeq ↔ d.q.ack.ackedSeq < k))
      (fun _ => True) w := by
  have hpeer := wp_peer (E := E) (EventQueue.makes_ackThrough
    (P := fun c => ∀ batch, c ≠ .post batch) (fun c hc batch h => by subst h; exact hc.1)
    (fun _ _ _ => by simp) (fun _ _ => by simp) d.q d.tot k bootId) w
  have hmoves : wp (sem E) (d.q.ackThrough d.tot k bootId)
      (fun q' _ => d.q.ack.ackedSeq < q'.ack.ackedSeq ↔ d.q.ack.ackedSeq < k) (fun _ => True) w :=
    EventQueue.wp_ackThrough_moves
      (fun hold => iff_of_false (UInt32.lt_irrefl _) (UInt32.not_lt.mpr hold))
      fun hnew seg off n _ w' ack' hacked _ _ _ => iff_of_true (hacked.symm ▸ hnew) hnew
  exact wp_map (wp_mono (wp_and hpeer hmoves) (fun _ _ h => h) fun _ _ => trivial)

/-- Every row of a batch is above the acknowledged seq. -/
theorem Globals.lt_of_mem_pending {d : Globals} {fs : Path → Option Data} {maxN : ℕ} {r : QRow}
    (h : r ∈ d.pending fs maxN) : d.q.ack.ackedSeq < r.seq := by
  rw [Globals.pending, EventQueue.pending_eq_liveRows] at h
  have hlive := (List.mem_filter.mp (List.mem_of_mem_take h)).2
  exact (of_decide_eq_true hlive).2

/-! ## The server's part -/

/-- The number of the answer is a new one that fits a `long` exactly if the server moves
on. -/
theorem Receiver.movesOn_iff {R : Receiver} {batch : List QRow} {q : Request} {db : Database}
    {acked : UInt32} {n : ℤ} (h : R.Carries batch q) (hn : (q.answer R.ρ db).ack? = some n)
    (hres : db.ResolvedTo R.device acked.toNat) :
    R.MovesOn db batch acked ↔ (acked.toNat : ℤ) < n ∧ n < 2 ^ 31 := by
  have hgreatest := isGreatest_of_ack h hn
  have hhas : ∀ i : ℤ, R.Has db batch i ↔ (q.store R.ρ db).Present R.device (.num i) := fun i =>
    (present_iff h (by rw [hn]; simp) i).symm
  have hres' : (q.store R.ρ db).ResolvedTo R.device acked.toNat := resolvedTo_mono hres
  unfold MovesOn
  simp only [hhas]
  constructor
  · rintro ⟨hnext, i, hlow, hup, hmissing⟩
    have hmore : (q.store R.ρ db).ResolvedTo R.device (acked.toNat + 1) := by
      refine ⟨by omega, fun i h1 h2 => ?_⟩
      rcases Int.lt_or_eq_of_le h2 with hlt | rfl
      · exact hres'.2 i h1 (by omega)
      · exact hnext
    refine ⟨Int.lt_of_add_one_le (hgreatest.2 hmore), ?_⟩
    by_contra hbig
    exact hmissing (hgreatest.1.2 i hlow (by omega))
  · rintro ⟨hlt, hfit⟩
    refine ⟨hgreatest.1.2 _ (by omega) (by omega), ?_⟩
    by_contra hall
    push Not at hall
    have hfull : (q.store R.ρ db).ResolvedTo R.device (2 ^ 31) := ⟨by norm_num, hall⟩
    exact absurd (hgreatest.2 hfull) (by omega)

/-! ## The exchange -/

/-- If an answer of 200 has arrived, the acknowledged seq has moved exactly if the server
moved on. -/
def Receiver.Agrees (R : Receiver) (d : Globals) (w : World Backend) (d' : Globals)
    (w' : World Backend) : Prop :=
  ∀ resp : Response, w'.peer.delivered = w.peer.delivered ++ [resp] → resp.status = 200 →
    (d.q.ack.ackedSeq < d'.q.ack.ackedSeq ↔
      R.MovesOn w.peer.db (d.pending w.file pushBatchMax) d.q.ack.ackedSeq)

/-- Without an answer there is nothing to show. -/
theorem Receiver.agrees_of_silent {R : Receiver} {d d' : Globals} {w w' : World Backend}
    (h : w'.peer.delivered = w.peer.delivered) : R.Agrees d w d' w' := by
  intro resp hresp
  rw [h] at hresp
  simp at hresp

/-- The same, of what the device does with a reply it takes the state `w'` with. -/
def Receiver.Settles (R : Receiver) (d : Globals) (w w' : World Backend) (last : QRow)
    (r : HttpReply) : Prop :=
  (¬ (r.code = 200 ∧ 0 ≤ Sync.ackSeq r.body) → ∀ _ : Sync, R.Agrees d w d w') ∧
    (r.code = 200 → 0 ≤ Sync.ackSeq r.body →
      wp (sem R.env) (d.ackThrough (boundAckSeq (Sync.ackSeq r.body).toUInt32 last.seq) d.bootId)
        (fun d' w'' => ∀ _ : Sync, R.Agrees d w d' w'') (fun _ => True) w')

section

variable {R : Receiver} {d : Globals} {w w' : World Backend} {q : Request} {last : QRow}
  {r : HttpReply}

theorem Receiver.settles_of_silent (h : w'.peer.delivered = w.peer.delivered) :
    R.Settles d w w' last r :=
  ⟨fun _ _ => agrees_of_silent h, fun _ _ => wp_mono (wp_ackThrough_acked d _ d.bootId)
    (fun _ _ h' _ => agrees_of_silent ((congrArg Backend.delivered h'.1).trans h))
    fun _ _ => trivial⟩

/-- An answer that arrives, with the number the server gave. -/
theorem Receiver.settles_of_ack (hcarries : R.Carries (d.pending w.file pushBatchMax) q)
    (hres : w.peer.db.ResolvedTo R.device d.q.ack.ackedSeq.toNat)
    (hlive : d.q.ack.ackedSeq < last.seq)
    {n ms : ℤ} {told : List Disposition} (hans : q.answer R.ρ w.peer.db = .ack n told ms) :
    R.Settles d w w' last ⟨200, R.text (.ack n told ms)⟩ := by
  have hn : (q.answer R.ρ w.peer.db).ack? = some n := by
    rw [hans]
    rfl
  have hmoves := movesOn_iff hcarries hn hres
  obtain ⟨hfits, hval⟩ : (0 ≤ Sync.ackSeq (R.text (.ack n told ms)) ↔ n < 2 ^ 31) ∧ (n < 2 ^ 31 →
      ((Sync.ackSeq (R.text (.ack n told ms))).toUInt32.toNat : ℤ) = n) :=
    ackSeq_text (isGreatest_of_ack hcarries hn).1.1
  refine ⟨fun hno _ resp _ _ => iff_of_false (UInt32.lt_irrefl _) fun hm => hno ⟨rfl, ?_⟩,
    fun _ hread => wp_mono (wp_ackThrough_acked d _ d.bootId) (fun d' w'' h _ resp _ _ => ?_)
      fun _ _ => trivial⟩
  · exact hfits.mpr (hmoves.mp hm).2
  · have hsmall := hfits.mp hread
    have hk := hval hsmall
    have hlt := UInt32.lt_iff_toNat_lt.mp hlive
    rw [h.2, hmoves, and_iff_left hsmall, UInt32.lt_iff_toNat_lt]
    -- the clamp is above the acknowledged seq
    unfold boundAckSeq
    split
    · next hclamped =>
      have hclamped := UInt32.lt_iff_toNat_lt.mp hclamped
      simp only at hclamped
      omega
    · simp only
      omega

/-- **An answered push gets ahead exactly if the server moves on.** -/
theorem Receiver.wp_pushOnce_agrees (s : Sync)
    (hres : w.peer.db.ResolvedTo R.device d.q.ack.ackedSeq.toNat) :
    wp (sem R.env) (s.pushOnce d) (fun r w' => R.Agrees d w r.2.2 w') (fun _ => True) w := by
  refine Sync.wp_pushOnce trivial (fun _ => agrees_of_silent rfl) (fun _ _ _ _ => trivial)
    fun last r w' hlast _ hserve => ⟨trivial, ?_⟩
  show R.Settles d w w' last r
  obtain ⟨e', he'⟩ : ∃ e', w'.peer = e' := ⟨_, rfl⟩
  change R.Serves _ _ _ _ at hserve
  rw [he'] at hserve
  cases hserve with
  | lost hcode => exact settles_of_silent (by rw [he'])
  | broken hcarries hbody => exact settles_of_silent (by rw [he'])
  | @whole q hcarries =>
    have hlive : d.q.ack.ackedSeq < last.seq :=
      Globals.lt_of_mem_pending (List.mem_of_getLast? hlast)
    have hrefused : ∀ {resp : Response}, resp.status ≠ 200 →
        q.answer R.ρ w.peer.db = resp → R.Settles d w w' last ⟨resp.status, R.text resp⟩ := by
      intro resp hno hans
      have hcode : (resp.status : ℤ) ≠ 200 := by exact_mod_cast hno
      refine ⟨fun _ _ resp' hgot hok => ?_, fun hok => absurd hok hcode⟩
      rw [he'] at hgot
      have hsame := List.append_cancel_left hgot
      rw [List.singleton_inj, hans] at hsame
      exact absurd (hsame ▸ hok) hno
    cases hans : q.answer R.ρ w.peer.db with
    | badPayload => exact hrefused (by decide) hans
    | exception => exact hrefused (by decide) hans
    | ack n told ms => exact settles_of_ack hcarries hres hlive hans

end

/-- **When an answered push gets ahead**: for every contents of the queue, and every state
of the server that has the seqs up to the acknowledged one. -/
theorem push_advances_iff (R : Receiver) (s s' : Sync) (d d' : Globals) (w w' : World Backend)
    (ok : Bool) (resp : Response)
    (hres : w.peer.db.ResolvedTo R.device d.q.ack.ackedSeq.toNat)
    (hrun : Runs (sem R.env) (s.pushOnce d) w (ok, s', d') w')
    (hgot : w'.peer.delivered = w.peer.delivered ++ [resp]) (hok : resp.status = 200) :
    d.q.ack.ackedSeq < d'.q.ack.ackedSeq ↔
      R.MovesOn w.peer.db (d.pending w.file pushBatchMax) d.q.ack.ackedSeq :=
  (Receiver.wp_pushOnce_agrees s hres).runs hrun resp hgot hok

/-! ## Two rows -/

/-- The row behind the first. -/
def secondRow : QRow := telemetryBuild ⟨0, 0, 0⟩ 1 0 2 false

/-- A queue of two rows that has not been acknowledged. -/
def twoQueued : Globals where
  tot := EventQueue.writingAt 0 72
  q := EventQueue.unacknowledged
  seq := 2
  bootId := 1

/-- Its segment, with the given bytes in the place of the first row, and a server that has
received nothing. -/
def twoRows (first : Data) : World Backend where
  flash := Flash.empty.set (.seg 0) (some (first ++ QRow.kind.bytes (QRow.kind.stamp secondRow)))
  peer := ⟨.empty, []⟩

/-- A push that is answered. -/
def answeredPush (first : Data) : (Bool × Sync × Globals) × World Backend :=
  (({} : Sync).pushOnce twoQueued).exec answering (twoRows first)

theorem resolvedTo_zero (first : Data) : (twoRows first).peer.db.ResolvedTo benchReceiver.device
    twoQueued.q.ack.ackedSeq.toNat :=
  ⟨by decide, fun i h1 h2 => absurd (h1.trans h2) (by decide)⟩

theorem answeredPush_runs (first : Data) :
    Runs (sem benchReceiver.env) (({} : Sync).pushOnce twoQueued) (twoRows first)
      (answeredPush first).1 (answeredPush first).2 :=
  answering_runs _ _

/-- Both rows are in order, and the push gets ahead. -/
theorem whole_queue_advances : ∃ (d' : Globals) (w' : World Backend) (resp : Response),
    w'.peer.delivered = [resp] ∧ resp.status = 200 ∧ d'.q.ack.ackedSeq = 2 ∧
      (twoQueued.q.ack.ackedSeq < d'.q.ack.ackedSeq ↔
        benchReceiver.MovesOn (twoRows firstRowBytes).peer.db
          (twoQueued.pending (twoRows firstRowBytes).file pushBatchMax)
          twoQueued.q.ack.ackedSeq) := by
  have hrun := answeredPush_runs firstRowBytes
  have hstatus : (answeredPush firstRowBytes).2.peer.delivered.map Response.status = [200] := by
    decide +kernel
  have hacked : (answeredPush firstRowBytes).1.2.2.q.ack.ackedSeq = 2 := by decide +kernel
  generalize answeredPush firstRowBytes = r at hrun hstatus hacked
  obtain ⟨⟨ok, s', d'⟩, w'⟩ := r
  obtain ⟨resp, hgot, hok⟩ := List.map_eq_singleton_iff.mp hstatus
  exact ⟨d', w', resp, hgot, hok, hacked, push_advances_iff benchReceiver {} s' twoQueued d'
    (twoRows firstRowBytes) w' ok resp (resolvedTo_zero _) hrun hgot hok⟩

/-- A bit of the first row is lost: the second one is sent and stored, the answer
acknowledges nothing, and the acknowledged seq stays. -/
theorem damaged_row_stalls : ∃ (R : Receiver) (s s' : Sync) (d d' : Globals)
    (w w' : World Backend) (ok : Bool) (resp : Response),
    w.peer.db.ResolvedTo R.device d.q.ack.ackedSeq.toNat ∧
      Runs (sem R.env) (s.pushOnce d) w (ok, s', d') w' ∧ d.pending w.file pushBatchMax ≠ [] ∧
      w'.peer.delivered = w.peer.delivered ++ [resp] ∧ resp.status = 200 ∧
      ¬ d.q.ack.ackedSeq < d'.q.ack.ackedSeq := by
  have hrun := answeredPush_runs (firstRowBytes.set 12 9)
  have hstatus : (answeredPush (firstRowBytes.set 12 9)).2.peer.delivered.map Response.status =
      [200] := by decide +kernel
  have hacked : ¬ twoQueued.q.ack.ackedSeq <
      (answeredPush (firstRowBytes.set 12 9)).1.2.2.q.ack.ackedSeq := by decide +kernel
  generalize answeredPush (firstRowBytes.set 12 9) = r at hrun hstatus hacked
  obtain ⟨⟨ok, s', d'⟩, w'⟩ := r
  obtain ⟨resp, hgot, hok⟩ := List.map_eq_singleton_iff.mp hstatus
  exact ⟨benchReceiver, {}, s', twoQueued, d', twoRows (firstRowBytes.set 12 9), w', ok, resp,
    resolvedTo_zero _, hrun, by decide +kernel, hgot, hok, hacked⟩

end Device
end CovioFirmware
