import CovioFirmware.Safety.DamagedRows
import CovioFirmware.Safety.Delivery

/-!
# The backlog drains

A push whose answer arrives acknowledges its whole batch: the batch has every seq from the
acknowledged one up to that of its last row, so the server has all seqs up to there.
Hence the backlog is never above a count that goes up by one with each confirmed row and
down by a batch with each push that completes with such an answer (`pending_le`), whatever
happens in between: cuts, boots, lost and broken answers, requests that arrive late.

The number of an answer is read into a `long`, so this holds while fewer than 2^31
checkpoint writes have completed.
-/

namespace CovioFirmware
namespace Device

open JsonText Server Crash

/-- An answer that acknowledges something has reached the device whole. -/
def Channel.answered (c c' : Channel) : Bool :=
  (c'.server.delivered.drop c.server.delivered.length).any fun resp => resp.ack?.isSome

/-- What a run has confirmed, and a bound on what still waits of it. -/
structure Account where
  journal : Journal := {}
  backlog : ℕ := 0

/-- A confirmed row is one more to send; an answered push takes a batch off. -/
def Account.track (a : Action UInt32 NetOp) (n n' : Node (Globals × Sync) (World Channel))
    (g : Account) : Account where
  journal := g.journal.track a n n'
  backlog := match a, n, n' with
    | .op (.cycle _), .on _ w, n' =>
        if w.flash.checkpoints < n'.store.flash.checkpoints then g.backlog + 1 else g.backlog
    | .op .push, .on _ w, .on _ w' =>
        if w.peer.answered w'.peer then g.backlog - pushBatchMax else g.backlog
    | _, _, _ => g.backlog

/-- The runs of `Delivery`, with their account. -/
abbrev AccountRuns (R : Receiver) (n : Node (Globals × Sync) (World Channel)) (g : Account) :
    Prop :=
  Reach R.machine (fun _ _ _ => True) Account.track
    (fun n g => ∃ e, n = .off ⟨Flash.empty, e, []⟩ ∧ e.db.Own R.device (fun _ => False) ∧ g = {})
    n g

theorem AccountRuns.deliveryRuns {R : Receiver} {n : Node (Globals × Sync) (World Channel)}
    {g : Account} (h : AccountRuns R n g) : DeliveryRuns R n g.journal := by
  refine Reach.forget (h := Account.journal) ?_ (fun _ _ _ _ => trivial) (fun _ _ _ _ => rfl) h
  rintro n g ⟨e, rfl, hown, rfl⟩
  exact ⟨e, rfl, hown, rfl⟩

/-! ## An answered push -/

section

variable {R : Receiver} {k : UInt32} {d : Globals} {w w' : World Channel} {g : Journal}
  {batch : List QRow} {q : Request}

/-- Behind a batch without gaps the server has all seqs up to its last one. -/
theorem resolved_of_batch {db : Database} {acked : UInt32} {last : QRow}
    (hq : R.Carries batch q) (hack : (q.answer R.ρ db).ack? ≠ none)
    (hres : db.ResolvedTo R.device acked.toNat)
    (hfull : ∀ s : UInt32, acked < s → s ≤ last.seq → ∃ r ∈ batch, r.seq = s) :
    (q.store R.ρ db).ResolvedTo R.device last.seq.toNat := by
  refine ⟨Int.natCast_nonneg _, fun i h1 h2 => (Receiver.present_iff hq hack i).mpr ?_⟩
  by_cases hi : i ≤ acked.toNat
  · exact .inl (hres.2 i h1 hi)
  · obtain ⟨m, rfl⟩ := Int.eq_ofNat_of_zero_le (Int.le_trans Int.one_nonneg h1)
    have hm : (UInt32.ofNat m).toNat = m := u32_ofNat (by have := last.seq.toNat_lt; omega)
    obtain ⟨r, hr, hrs⟩ := hfull (.ofNat m) (UInt32.lt_iff_toNat_lt.mpr (by omega))
      (UInt32.le_iff_toNat_le.mpr (by omega))
    exact .inr ⟨r, hr, by rw [hrs, hm]⟩

/-- The device takes the seq it is told. -/
theorem wp_ackThrough_takes {ε : Type} {E : Env ε} {w : World ε} (d : Globals)
    {k bootId : UInt32} (hk : d.q.ack.ackedSeq < k) :
    wp (sem E) (d.ackThrough k bootId) (fun d' _ => d'.q.ack.ackedSeq = k) (fun _ => True) w :=
  wp_map (EventQueue.wp_ackThrough_moves (fun hold => absurd hk (UInt32.not_lt.mpr hold))
    fun _ _ _ _ _ _ _ hacked _ _ _ => hacked)

/-- The seqs of a batch leave no gap behind the acknowledged one. -/
theorem Relaying.batch_full (h : Relaying R k d w g)
    (hsorted : g.rows.Pairwise fun r r' => r.seq ≤ r'.seq)
    (hnear : ∀ r ∈ g.rows, r.seq.toNat ≤ d.seq.toNat + 1) {maxN : ℕ} {last : QRow}
    (hlast : (d.pending w.file maxN).getLast? = some last) {s : UInt32}
    (hs : d.q.ack.ackedSeq < s) (hle : s ≤ last.seq) :
    ∃ r ∈ d.pending w.file maxN, r.seq = s := by
  have hmem : last ∈ d.pending w.file maxN := List.mem_of_getLast? hlast
  by_cases heq : s = last.seq
  · exact ⟨last, hmem, heq.symm⟩
  · have hlog : last ∈ g.rows := h.pending_subset last hmem
    obtain ⟨cp, hp, hram, hseq⟩ := h
    -- the last row is at most one ahead of the seqs that are checkpointed
    have hlt : s ≤ d.seq := by
      have h1 := hnear last hlog
      have h2 := UInt32.le_iff_toNat_le.mp hle
      have h3 : s.toNat ≠ last.seq.toNat := fun hc => heq (UInt32.toNat_inj.mp hc)
      exact UInt32.le_iff_toNat_le.mpr (by omega)
    have hckpt : s ≤ cp.seq := by
      rcases hseq with hseq | hseq
      · exact UInt32.le_trans hlt hseq
      · exact absurd (UInt32.le_trans hlt hseq) (UInt32.not_le.mpr hs)
    obtain ⟨r, hr, rfl⟩ := hp.covered s hs hckpt
    have hpending : d.pending w.file maxN =
        (g.rows.filter fun r => d.q.ack.ackedSeq < r.seq).take maxN :=
      (hram.laid hp.durable.laid).pending_eq maxN
    rw [hpending] at hlast ⊢
    exact seq_taken (hsorted.sublist List.filter_sublist) hlast
      (List.mem_filter.mpr ⟨hr, decide_eq_true hs⟩) hle

/-- No answer acknowledges more than was ever checkpointed. -/
theorem Shipped.ack_le {c : Channel} {acked : UInt32} {rows : List QRow} {bound : ℕ} {m : ℤ}
    (h : Shipped R c acked rows) (hbound : ∀ r ∈ rows, r.seq.toNat ≤ bound)
    (hm : c.server.db.ResolvedTo R.device m) : m ≤ bound := by
  rcases lt_or_ge 0 m with hpos | hzero
  · obtain ⟨s, rfl⟩ := Int.eq_ofNat_of_zero_le hm.1
    obtain ⟨x, hx, hdevice, hseq⟩ := Receiver.exists_recorded (s := s) h.own
      (by exact_mod_cast hm.2 s (by omega) le_rfl)
    obtain ⟨r, hr, hrow⟩ := h.own.records x hx hdevice
    have hsame : (s : ℚ) = r.seq.toNat := Cell.num.inj (hseq.symm.trans hrow.seq)
    rw [Nat.cast_inj] at hsame
    exact_mod_cast hsame ▸ hbound r hr
  · exact hzero.trans (Int.natCast_nonneg _)

/-- **An answer that arrives acknowledges the batch.** -/
theorem Relaying.wp_pushOnce_answered (h : Relaying R k d w g)
    (hsorted : g.rows.Pairwise fun r r' => r.seq ≤ r'.seq)
    (hnear : ∀ r ∈ g.rows, r.seq.toNat ≤ w.flash.checkpoints ∧ r.seq.toNat ≤ d.seq.toNat + 1)
    (hsmall : w.flash.checkpoints < 2 ^ 31) (n : Sync) :
    wp (sem R.channel) (n.pushOnce d)
      (fun r w' => w.peer.answered w'.peer = true → ∃ last,
        (d.pending w.file pushBatchMax).getLast? = some last ∧ r.2.2.q.ack.ackedSeq = last.seq)
      (fun _ => True) w := by
  have hsilent : ∀ c : Channel, c.server.delivered = w.peer.server.delivered →
      w.peer.answered c ≠ true := by
    intro c hc
    rw [Channel.answered, hc, List.drop_length]
    exact Bool.false_ne_true
  have hself := h
  obtain ⟨cp, hp, -⟩ := h
  refine Sync.wp_pushOnce trivial (fun _ ha => absurd ha (hsilent _ rfl)) (fun _ _ _ _ => trivial)
    fun last r w' hlast _ hserve => ⟨trivial, ?_⟩
  -- an exchange without a whole answer, and what `ackThrough` then does
  have hquiet : w'.peer.server.delivered = w.peer.server.delivered →
      (¬ (r.code = 200 ∧ 0 ≤ Sync.ackSeq r.body) → Sync → w.peer.answered w'.peer = true →
        ∃ last, (d.pending w.file pushBatchMax).getLast? = some last ∧
          d.q.ack.ackedSeq = last.seq) ∧
      (r.code = 200 → 0 ≤ Sync.ackSeq r.body →
        wp (sem R.channel)
          (d.ackThrough (boundAckSeq (Sync.ackSeq r.body).toUInt32 last.seq) d.bootId)
          (fun d' w'' => Sync → w.peer.answered w''.peer = true → ∃ last,
            (d.pending w.file pushBatchMax).getLast? = some last ∧
              d'.q.ack.ackedSeq = last.seq) (fun _ => True) w') := fun hd =>
    ⟨fun _ _ ha => absurd ha (hsilent _ hd), fun _ _ => wp_mono (wp_ackThrough_acked d _ d.bootId)
      (fun d' w'' h' _ ha => absurd ha (hsilent _ (h'.1 ▸ hd))) fun _ _ => trivial⟩
  obtain ⟨hs, hsent⟩ := hserve
  obtain ⟨hshipped, -⟩ := hp.shipped.serve hp.logged.kind hself.pending_subset hs hsent
  obtain ⟨e', he'⟩ : ∃ e', w'.peer.server = e' := ⟨_, rfl⟩
  rw [he'] at hs
  cases hs with
  | lost hcode => exact hquiet (by rw [he'])
  | broken hq hans => exact hquiet (by rw [he'])
  | @whole q hq =>
    have hdelivered : w'.peer.server.delivered =
        w.peer.server.delivered ++ [q.answer R.ρ w.peer.server.db] := by rw [he']
    have hanswered : ∀ c : Channel, c.server.delivered = w'.peer.server.delivered →
        (w.peer.answered c = true ↔ (q.answer R.ρ w.peer.server.db).ack?.isSome = true) := by
      intro c hc
      rw [Channel.answered, hc, hdelivered, List.drop_left, List.any_cons, List.any_nil,
        Bool.or_false]
    have hlive : d.q.ack.ackedSeq < last.seq :=
      Globals.lt_of_mem_pending (List.mem_of_getLast? hlast)
    cases hans : q.answer R.ρ w.peer.server.db with
    | ack m told ms =>
      have hack : (q.answer R.ρ w.peer.server.db).ack? = some m := by
        rw [hans]
        rfl
      have hgreatest := Receiver.isGreatest_of_ack hq hack
      have hm : m ≤ w.flash.checkpoints := by
        refine hshipped.ack_le (fun r hr => (hnear r hr).1) ?_
        rw [he']
        exact hgreatest.1
      have hge : (last.seq.toNat : ℤ) ≤ m := hgreatest.2 (resolved_of_batch hq (by simp [hack])
        hp.shipped.resolved fun s h1 h2 =>
          hself.batch_full hsorted (fun r hr => (hnear r hr).2) hlast h1 h2)
      obtain ⟨hfits, hval⟩ : (0 ≤ Sync.ackSeq (R.text (.ack m told ms)) ↔ m < 2 ^ 31) ∧
          (m < 2 ^ 31 → ((Sync.ackSeq (R.text (.ack m told ms))).toUInt32.toNat : ℤ) = m) :=
        Receiver.ackSeq_text hgreatest.1.1
      have hread := hval (by omega)
      -- the number is clamped to the last row of the batch
      have hbound : boundAckSeq (Sync.ackSeq (R.text (.ack m told ms))).toUInt32 last.seq =
          last.seq := by
        unfold boundAckSeq
        split
        · rfl
        · next hno =>
          have hle := UInt32.le_iff_toNat_le.mp (UInt32.not_lt.mp hno)
          exact UInt32.toNat_inj.mp (by omega)
      refine ⟨fun hno => absurd ⟨rfl, hfits.mpr (by omega)⟩ hno, fun _ _ => ?_⟩
      refine wp_mono (wp_ackThrough_takes d (k := boundAckSeq _ _) ?_)
        (fun d' w'' h' _ _ => ⟨last, hlast, h'.trans hbound⟩) fun _ _ => trivial
      exact hbound.symm ▸ hlive
    | badPayload | exception =>
      have hno : ∀ c : Channel, c.server.delivered = w'.peer.server.delivered →
          w.peer.answered c ≠ true := by
        intro c hc ha
        rw [hanswered c hc, hans] at ha
        cases ha
      refine ⟨fun _ _ ha => absurd ha (hno _ rfl), fun hcode => ?_⟩
      cases hcode

end

/-! ## The backlog -/

/-- The rows that still wait. -/
def waiting (ack : AckRec) (rows : List QRow) : List QRow :=
  rows.filter fun r => ack.ackedSeq < r.seq

/-- They are within the account. -/
def Account.Bounds (w : World Channel) (g : Account) : Prop :=
  ∃ cp ack, Durable w cp ack g.journal.rows ∧ (waiting ack g.journal.rows).length ≤ g.backlog

section

variable {R : Receiver} {k : UInt32} {d : Globals} {w w' : World Channel} {g : Account}
  {ack ack' : AckRec} {rows : List QRow}

/-- An acknowledgement makes fewer rows wait. -/
theorem waiting_le (h : ack.ackedSeq ≤ ack'.ackedSeq) (rows : List QRow) :
    (waiting ack' rows).length ≤ (waiting ack rows).length := by
  refine (List.monotone_filter_right rows fun r hr => ?_).length_le
  exact decide_eq_true (UInt32.lt_of_le_of_lt h (of_decide_eq_true hr))

/-- The next row makes one more wait. -/
theorem waiting_append_le (ack : AckRec) (rows : List QRow) (row : QRow) :
    (waiting ack (rows ++ [row])).length ≤ (waiting ack rows).length + 1 := by
  rw [waiting, List.filter_append, List.length_append]
  exact Nat.add_le_add_left (List.length_filter_le _ _) _

/-- **A batch less waits** once its last row is acknowledged. -/
theorem waiting_acked (hsorted : rows.Pairwise fun r r' => r.seq ≤ r'.seq) {n : ℕ} {last : QRow}
    (hlast : ((waiting ack rows).take n).getLast? = some last)
    (hacked : ack'.ackedSeq = last.seq) :
    (waiting ack' rows).length ≤ (waiting ack rows).length - n := by
  have hmem : last ∈ (waiting ack rows).take n := List.mem_of_getLast? hlast
  have hlive : ack.ackedSeq < last.seq :=
    of_decide_eq_true (List.mem_filter.mp (List.mem_of_mem_take hmem)).2
  -- what still waits was waiting, and behind the batch
  have hsub : waiting ack' rows = waiting ack' ((waiting ack rows).drop n) := by
    have hwas : waiting ack' rows = waiting ack' (waiting ack rows) := by
      rw [waiting, waiting, waiting, List.filter_filter]
      refine List.filter_congr fun r _ => ?_
      rw [hacked, ← Bool.decide_and, decide_eq_decide]
      exact ⟨fun h => ⟨h, UInt32.lt_trans hlive h⟩, And.left⟩
    have hnone : waiting ack' ((waiting ack rows).take n) = [] := by
      refine List.filter_eq_nil_iff.mpr fun r hr => ?_
      have hle : r.seq ≤ last.seq := by
        have htake : ((waiting ack rows).take n).Pairwise fun r r' => r.seq ≤ r'.seq :=
          (hsorted.sublist List.filter_sublist).sublist (List.take_sublist n _)
        obtain ⟨front, hfront⟩ := List.getLast?_eq_some_iff.mp hlast
        rw [hfront] at htake hr
        rcases List.mem_append.mp hr with hr | hr
        · exact (List.pairwise_append.mp htake).2.2 r hr last (List.mem_singleton_self _)
        · rw [List.mem_singleton.mp hr]
          exact UInt32.le_refl _
      rw [hacked, decide_eq_true_eq]
      exact UInt32.not_lt.mpr hle
    calc waiting ack' rows
        = waiting ack' ((waiting ack rows).take n ++ (waiting ack rows).drop n) := by
          rw [List.take_append_drop, hwas]
      _ = waiting ack' ((waiting ack rows).take n) ++ waiting ack' ((waiting ack rows).drop n) :=
          List.filter_append ..
      _ = waiting ack' ((waiting ack rows).drop n) := by rw [hnone, List.nil_append]
  rw [hsub]
  exact (List.length_filter_le _ _).trans (List.length_drop ..).le

theorem Parked.bounds (h : Parked R k w g.journal)
    (hg : ∀ ack : AckRec, k ≤ ack.ackedSeq →
      (waiting ack g.journal.rows).length ≤ g.backlog) : g.Bounds w := by
  obtain ⟨cp, ack, hp⟩ := h
  exact ⟨cp, ack, hp.durable, hg ack hp.floor⟩

/-- The floor may be raised to the acknowledged seq. -/
theorem Relaying.raise (h : Relaying R k d w g.journal) :
    Relaying R d.q.ack.ackedSeq d w g.journal := by
  obtain ⟨cp, hp, hrest⟩ := h
  exact ⟨cp, { hp with floor := UInt32.le_refl _ }, hrest⟩

/-- The account speaks of the record the device goes by. -/
theorem Account.Bounds.of_relaying (h : g.Bounds w) (hw : Relaying R k d w g.journal) :
    (waiting d.q.ack g.journal.rows).length ≤ g.backlog := by
  obtain ⟨cp, ack, hd, hle⟩ := h
  obtain ⟨cp', hp, -⟩ := hw
  have hsame : ack = d.q.ack := hd.ackLast.recover.symm.trans hp.durable.ackLast.recover
  exact hsame ▸ hle

/-- A cycle's account: its row waits once it is confirmed. -/
theorem Account.bounds_cycle {s : Sample} {r : Globals × Sync}
    {m : Node (Globals × Sync) (World Channel)}
    (h : Parked R k m.store (g.track (.op (.cycle s)) (.on r w) m).journal)
    (hg : ∀ ack : AckRec, k ≤ ack.ackedSeq →
      (waiting ack g.journal.rows).length ≤ g.backlog) :
    (g.track (.op (.cycle s)) (.on r w) m).Bounds m.store := by
  refine h.bounds fun ack hack => ?_
  have hle := hg ack hack
  obtain ⟨d, n⟩ := r
  show (waiting ack (Journal.track (.op (.cycle s)) (.on (d, n) w) m g.journal).rows).length ≤
    if w.flash.checkpoints < m.store.flash.checkpoints then g.backlog + 1 else g.backlog
  rw [Journal.track]
  split
  · cases confirmedRow m.store.file with
    | none =>
      rw [Option.toList_none, List.append_nil]
      exact hle.trans (Nat.le_succ _)
    | some row => exact (waiting_append_le _ _ _).trans (Nat.succ_le_succ hle)
  · exact hle

/-- An answered push takes a batch off the account. -/
theorem Account.bounds_push (h : Relaying R k d w g.journal) {d' : Globals} {n n' : Sync}
    (h' : Relaying R d.q.ack.ackedSeq d' w' g.journal)
    (hsorted : g.journal.rows.Pairwise fun r r' => r.seq ≤ r'.seq)
    (hle : (waiting d.q.ack g.journal.rows).length ≤ g.backlog)
    (hanswered : w.peer.answered w'.peer = true → ∃ last,
      (d.pending w.file pushBatchMax).getLast? = some last ∧ d'.q.ack.ackedSeq = last.seq) :
    (g.track (.op .push) (.on (d, n) w) (.on (d', n') w')).Bounds w' := by
  obtain ⟨cp, hp, hram, -⟩ := h
  obtain ⟨cp', hp', -⟩ := h'
  refine ⟨cp', d'.q.ack, hp'.durable, ?_⟩
  show (waiting d'.q.ack g.journal.rows).length ≤
    if w.peer.answered w'.peer then g.backlog - pushBatchMax else g.backlog
  split
  · next ha =>
    obtain ⟨last, hlast, hacked⟩ := hanswered ha
    have hpending : d.pending w.file pushBatchMax =
        (waiting d.q.ack g.journal.rows).take pushBatchMax :=
      (hram.laid hp.durable.laid).pending_eq pushBatchMax
    exact (waiting_acked hsorted (hpending ▸ hlast) hacked).trans (Nat.sub_le_sub_right hle _)
  · exact (waiting_le hp'.floor _).trans hle

end

/-- What is wanted only of states with fewer checkpoint writes may assume that of the state
before. -/
theorem wp_of_fewer {ε α : Type} {E : Env ε} {b : ℕ} {p : Fw α} {Q : α → World ε → Prop}
    {C : World ε → Prop} {w : World ε}
    (h : w.flash.checkpoints < b →
      wp (sem E) p (fun a w' => w'.flash.checkpoints < b → Q a w')
        (fun w' => w'.flash.checkpoints < b → C w') w) :
    wp (sem E) p (fun a w' => w'.flash.checkpoints < b → Q a w')
      (fun w' => w'.flash.checkpoints < b → C w') w := by
  by_cases hb : w.flash.checkpoints < b
  · exact h hb
  · refine wp_mono (wp_checkpoints p w) (fun _ w' hle hb' => ?_) fun w' hle hb' => ?_
    · exact absurd (hle.trans_lt hb') hb
    · exact absurd (hle.trans_lt hb') hb

/-- **The account is right in every state of every run.** -/
theorem AccountRuns.holds {R : Receiver} {n : Node (Globals × Sync) (World Channel)}
    {g : Account} (h : AccountRuns R n g) :
    n.Holds (fun w g => w.flash.checkpoints < 2 ^ 31 → g.Bounds w)
      (fun _ w g => w.flash.checkpoints < 2 ^ 31 → g.Bounds w) g := by
  have hcounted : ∀ {w : World Channel}, w.flash.checkpoints < 2 ^ 31 → w.flash.Counted :=
    fun hc => hc.trans (by norm_num)
  have hfloor : ∀ {g : Account} {ack : AckRec},
      (waiting ack g.journal.rows).length ≤ g.backlog → ∀ ack' : AckRec,
        ack.ackedSeq ≤ ack'.ackedSeq → (waiting ack' g.journal.rows).length ≤ g.backlog :=
    fun hle _ hack => (waiting_le hack _).trans hle
  refine Reach.invariant ?_ ?_ ?_ ?_ h.guarded
  · rintro n g ⟨e, rfl, -, rfl⟩ _
    exact ⟨_, _, .fresh _, le_rfl⟩
  · rintro bootId w g ⟨-, hreach⟩ hg
    refine wp_of_fewer fun hc => ?_
    obtain ⟨cp, ack, hd, hle⟩ := hg hc
    have hrest : Parked R ack.ackedSeq w g.journal := by
      obtain ⟨cp', ack', hp⟩ := DeliveryRuns.holds (AccountRuns.deliveryRuns hreach) (hcounted hc)
      have hsame : ack' = ack := hp.durable.ackLast.recover.symm.trans hd.ackLast.recover
      exact ⟨cp', ack', { hp with floor := hsame ▸ UInt32.le_refl _ }⟩
    refine wp_map (wp_mono (hrest.wp_setup (hcounted hc) bootId) (fun d w' h' hc' => ?_)
      fun w' h' hc' => ?_)
    · exact (h' (hcounted hc')).parked.bounds (hfloor hle)
    · exact (h' (hcounted hc')).bounds (hfloor hle)
  · rintro i ⟨d, n⟩ w g ⟨-, hreach⟩ hg
    refine wp_of_fewer fun hc => ?_
    have hrun := AccountRuns.deliveryRuns hreach
    have hw : Relaying R 0 d w g.journal := DeliveryRuns.holds hrun (hcounted hc)
    have hle := (hg hc).of_relaying hw
    obtain ⟨hsorted, hnear⟩ := hrun.ordered (hcounted hc)
    cases i with
    | cycle s =>
      obtain ⟨cp, log, hord, -, -, -, hseq⟩ := NetRuns.holds hrun.netRuns (hcounted hc)
      refine wp_map (wp_mono (hw.raise.wp_telemetryCycle (hcounted hc) (hord.seq_le hseq) s n)
        (fun d' w' h' hc' => ?_) fun w' h' hc' => ?_)
      · exact Account.bounds_cycle (m := .on (d', n) w') (h' (hcounted hc')).parked (hfloor hle)
      · exact Account.bounds_cycle (m := .off w') (h' (hcounted hc')) (hfloor hle)
    | background =>
      refine wp_map (wp_mono hw.raise.wp_backgroundService (fun d' w' h' hc' => ?_)
        fun w' h' hc' => ?_)
      · exact (h' (hcounted hc')).parked.bounds (hfloor hle)
      · exact (h' (hcounted hc')).bounds (hfloor hle)
    | push =>
      refine wp_map (wp_mono (wp_and (hw.raise.wp_pushOnce n)
        (hw.wp_pushOnce_answered hsorted hnear hc n)) (fun r w' h' _ => ?_) fun w' h' _ => ?_)
      · exact Account.bounds_push hw h'.1 hsorted hle h'.2
      · exact h'.1.bounds (hfloor hle)
  · rintro n n' g - ⟨q, -, rfl⟩ hg
    have hstore : ∀ {w : World Channel}, g.Bounds w →
        g.Bounds (w.seen (Channel.arrive R · q)) := by
      rintro w ⟨cp, ack, hd, hle⟩
      exact ⟨cp, ack, hd.of_flash rfl, hle⟩
    cases n with
    | off w => exact fun hc => hstore (hg hc)
    | on d w => exact fun hc => hstore (hg hc)

/-- **The backlog** of every state reached is within the account. -/
theorem pending_le {R : Receiver} {d : Globals} {n : Sync} {w : World Channel} {g : Account}
    (h : AccountRuns R (.on (d, n) w) g) (hc : w.flash.checkpoints < 2 ^ 31) (maxN : ℕ) :
    (d.pending w.file maxN).length ≤ g.backlog := by
  have hw : Relaying R 0 d w g.journal :=
    DeliveryRuns.holds h.deliveryRuns (hc.trans (by norm_num))
  have hle := (AccountRuns.holds h hc).of_relaying hw
  obtain ⟨cp, hp, hram, -⟩ := hw
  have hpending : d.pending w.file maxN = (waiting d.q.ack g.journal.rows).take maxN :=
    (hram.laid hp.durable.laid).pending_eq maxN
  rw [hpending]
  exact (List.length_take_le' ..).trans hle

/-- The account of a bench run. -/
def benchAccount : List NetOp → Account
  | [] => {}
  | i :: ops => (benchAccount ops).track (.op i) (.on (bench ops).1 (bench ops).2.1)
      (.on (bench (i :: ops)).1 (bench (i :: ops)).2.1)

theorem benchAccount_runs : ∀ ops, AccountRuns benchReceiver (.on (bench ops).1 (bench ops).2.1)
    (benchAccount ops)
  | [] => by
    have hinit : AccountRuns benchReceiver (.off ⟨Flash.empty, ⟨.empty, []⟩, []⟩) {} :=
      .init ⟨_, rfl, unknown_empty _, rfl⟩
    exact .step (a := .boot 1) hinit trivial (.boot bench_boot)
  | i :: ops => .step (a := .op i) (benchAccount_runs ops) trivial (.op (bench_op i ops))

/-- Two rows are queued and pushed, and a third one waits. -/
theorem pending_le_bench : ∃ d n w g, AccountRuns benchReceiver (.on (d, n) w) g ∧
    g.journal.rows.length = 3 ∧ g.backlog = 1 ∧ (d.pending w.file 3).length ≤ g.backlog := by
  obtain ⟨ops, hops⟩ : ∃ ops : List NetOp,
    ops = [.cycle ⟨0, 0, 0⟩, .push, .cycle ⟨0, 0, 0⟩, .cycle ⟨0, 0, 0⟩] := ⟨_, rfl⟩
  have hruns := benchAccount_runs ops
  have hsmall : (bench ops).2.1.flash.checkpoints < 2 ^ 31 := by
    rw [hops]
    decide +kernel
  have hrows : (benchAccount ops).journal.rows.length = 3 := by
    rw [hops]
    decide +kernel
  have hbacklog : (benchAccount ops).backlog = 1 := by
    rw [hops]
    decide +kernel
  generalize bench ops = b at hruns hsmall
  obtain ⟨⟨d, n⟩, w, j⟩ := b
  exact ⟨d, n, w, _, hruns, hrows, hbacklog, pending_le hruns hsmall 3⟩

end Device
end CovioFirmware
