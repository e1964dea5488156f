import CovioFirmware.Device.PulseCounter
import CovioFirmware.Safety.UnsentData

/-!
# The totals of the queued rows

The server subtracts the totals of consecutive rows, so a total below an earlier one is
a negative quantity.  A cycle takes the total of its row from the counter and persists
the totals of its checkpoints at two other moments: the checkpoint that confirms the row
still carries the total of the previous service, and only the service behind the append
catches up with the row.

A power cut between these two writes leaves a confirmed row above the checkpointed
total, and the next boot starts below it (`total_goes_back`).  It is the only way:
`totals_nondecreasing` shows the totals in order for every run in which no such cut
falls into a cycle that had counted a pulse since the service before it, as long as the
counter does not reach its limit, fewer than 2^32 checkpoint writes have completed and
fewer than 2^64 pulses have been sent.

Whether the cycle had counted a pulse is read off the counter: what the reading before
a completed checkpoint write covered is the same as it was for the write before
(`Line.saved`).
-/

namespace CovioFirmware
namespace Device

open Crash

variable {ε : Type}

/-- The device with its pulse counter. -/
def countingMachine (E : Env ε) (train : Train) :
    Machine Call Call.Reply (Line ε) (Globals × Sync) UInt32 NetOp where
  sem := metered E train
  boot bootId := do
    let d ← setup bootId
    return (d, {})
  op := NetOp.run
  env := Line.Passes train

/-- What a run has confirmed. -/
structure Ledger where
  /-- The totals of the confirmed rows, in append order. -/
  totals : List UInt64 := []
  /-- A cut has left a row above the checkpoint. -/
  exposed : Prop := False

/-- A cycle confirms its row with its first completed checkpoint write.  It is exposed
if it does not complete a second one although the counter has moved since the last. -/
def Ledger.track (a : Action UInt32 NetOp) (n n' : Node (Globals × Sync) (Line ε)) (g : Ledger) :
    Ledger :=
  match a, n with
  | .op (.cycle _), .on _ x =>
      let x' := n'.store
      if x.world.flash.checkpoints < x'.world.flash.checkpoints then
        { totals := g.totals ++ ((confirmedRow x'.world.file).map QRow.totalizer).toList
          exposed := x'.world.flash.checkpoints = x.world.flash.checkpoints + 1 ∧
            x'.saved ≠ x.saved }
      else g
  | _, _ => g

/-- Every move starts where the counter has not reached its limit and no row is above
the checkpoint. -/
def Sheltered (_ : Action UInt32 NetOp) (n : Node (Globals × Sync) (Line ε)) (g : Ledger) : Prop :=
  n.store.pcnt.wraps = 0 ∧ ¬ g.exposed

/-- The runs from a factory-fresh device whose moves satisfy `ok`. -/
abbrev CountingRuns (E : Env ε) (train : Train)
    (ok : Action UInt32 NetOp → Node (Globals × Sync) (Line ε) → Ledger → Prop)
    (n : Node (Globals × Sync) (Line ε)) (g : Ledger) : Prop :=
  Reach (countingMachine E train) (fun a n g => FromDark a n ∧ ok a n g) Ledger.track
    (fun n g => ∃ e t, n = .off (Line.dark ⟨Flash.empty, e⟩ t) ∧ g = {}) n g

/-- The counts have not come round: that of the checkpoint writes, that of the counter
and the total itself. -/
structure Within (train : Train) (x : Line ε) : Prop where
  counted : x.world.flash.Counted
  straight : x.pcnt.wraps = 0
  fits : train x.pcnt.now < 2 ^ 64

/-! ## They do not come round before the end -/

section Within

variable {E : Env ε} {train : Train} {α : Type}

/-- The three counts have grown. -/
structure Line.Before (x x' : Line ε) : Prop where
  checkpoints : x.world.flash.checkpoints ≤ x'.world.flash.checkpoints
  wraps : x.pcnt.wraps ≤ x'.pcnt.wraps
  now : x.pcnt.now ≤ x'.pcnt.now

theorem Line.Before.trans {x x' x'' : Line ε} (h : x.Before x') (h' : x'.Before x'') :
    x.Before x'' :=
  ⟨h.checkpoints.trans h'.checkpoints, h.wraps.trans h'.wraps, h.now.trans h'.now⟩

theorem Within.of_before {x x' : Line ε} (h : Within train x') (hx : x.Before x') :
    Within train x :=
  ⟨lt_of_le_of_lt hx.checkpoints h.counted, Nat.le_zero.mp (hx.wraps.trans h.straight.le),
    lt_of_le_of_lt (train.monotone hx.now) h.fits⟩

theorem Line.Before.of_measured {c : Call} {x x' : Line ε} {r : c.Reply}
    (h : measured E train c x r x') : x.Before x' := by
  obtain ⟨t, w', ht, hw, -, rfl⟩ := h
  refine ⟨(reply_done hw).sublist.countP_le, ?_, ?_⟩
  · exact Pcnt.wraps_le_advance.trans (Pcnt.wraps_handle _ c).ge
  · exact ht.trans (Pcnt.handle_now (x.pcnt.advance train t) c).ge

theorem Line.Before.of_halted {c : Call} {x x' : Line ε} (h : halted E train c x x') :
    x.Before x' := by
  obtain ⟨t, w', ht, hw, rfl⟩ := h
  exact ⟨(checkpoints_congr (torn_done hw)).ge, Pcnt.wraps_le_advance, ht⟩

theorem wp_before (p : Fw α) {x0 x : Line ε} (h : x0.Before x) :
    wp (metered E train) p (fun _ x' => x0.Before x') (fun x' => x0.Before x') x := by
  induction p generalizing x with
  | ret a => exact ⟨h, h⟩
  | call c k ih =>
    exact wp_call h (fun _ hc => h.trans (.of_halted hc)) fun r _ hr =>
      ih r (h.trans (.of_measured hr))

/-- What is wanted only of states within the counts may assume that of the state
before. -/
theorem wp_of_within {p : Fw α} {Q : α → Line ε → Prop} {C : Line ε → Prop} {x : Line ε}
    (h : Within train x → wp (metered E train) p (fun a x' => Within train x' → Q a x')
      (fun x' => Within train x' → C x') x) :
    wp (metered E train) p (fun a x' => Within train x' → Q a x')
      (fun x' => Within train x' → C x') x := by
  by_cases hx : Within train x
  · exact h hx
  · refine wp_mono (wp_before p (⟨le_rfl, le_rfl, le_rfl⟩ : x.Before x)) ?_ ?_
    · exact fun _ x' hb hx' => absurd (hx'.of_before hb) hx
    · exact fun x' hb hx' => absurd (hx'.of_before hb) hx

end Within

/-! ## The total in memory -/

/-- What the totalizer makes of the counter. -/
def reading (base accumulated : UInt64) (p : Pcnt) : ℕ :=
  base.toNat + accumulated.toNat + p.level

section Reading

variable {train : Train} {base acc acc' : UInt64} {p p' : Pcnt}

/-- No more is reported than has been sent. -/
theorem reading_advance (h : reading base acc p ≤ train p.now) {u : ℕ} (hu : p.now ≤ u) :
    reading base acc (p.advance train u) ≤ train u := by
  have hl : (p.advance train u).level + train p.now ≤ p.level + train u :=
    Pcnt.advance_level_le hu
  simp only [reading] at h ⊢
  omega

/-- The 64-bit sum is the reading. -/
theorem toNat_total (h : reading base acc p ≤ train p.now) (hw : p.wraps = 0)
    (hfits : train p.now < 2 ^ 64) :
    (base + acc + UInt64.ofNat p.count).toNat = reading base acc p := by
  simp only [reading] at h ⊢
  rw [Pcnt.count_eq_level hw, UInt64.toNat_add, UInt64.toNat_add, UInt64.toNat_ofNat',
    Nat.mod_eq_of_lt (by omega : p.level < 2 ^ 64),
    Nat.mod_eq_of_lt (by omega : base.toNat + acc.toNat < 2 ^ 64), Nat.mod_eq_of_lt (by omega)]

/-- A drain moves the reading forward, and not beyond what has been sent. -/
theorem reading_drained (h : reading base acc p ≤ train p.now)
    (hd : p.Drained train acc acc' p') (hw : p'.wraps = 0) (hfits : train p'.now < 2 ^ 64) :
    reading base acc p ≤ reading base acc' p' ∧ reading base acc' p' ≤ train p'.now := by
  obtain ⟨t, ht, ⟨-, rfl, rfl⟩ | ⟨-, rfl, u, hu, rfl⟩⟩ := hd
  · exact ⟨Nat.add_le_add_left Pcnt.level_le_advance _, reading_advance h ht⟩
  · have hle : train t ≤ train u := train.monotone hu
    have hfits' : train u < 2 ^ 64 := hfits
    have hread : reading base acc (p.advance train t) ≤ train t := reading_advance h ht
    have hlevel : p.level ≤ (p.advance train t).level := Pcnt.level_le_advance
    rw [Pcnt.wraps_clear] at hw
    have hstraight : (p.advance train t).wraps = 0 :=
      Nat.le_zero.mp (Pcnt.wraps_le_advance.trans hw.le)
    have hzero : reading 0 acc (p.advance train t) ≤ train (p.advance train t).now := by
      simp only [reading, UInt64.toNat_zero] at hread ⊢
      exact le_trans (by omega) hread
    have hsum := toNat_total hzero hstraight (hle.trans_lt hfits')
    rw [UInt64.zero_add] at hsum
    simp only [reading, UInt64.toNat_zero, Nat.zero_add] at h hread hsum ⊢
    rw [hsum]
    change _ ∧ _ + 0 ≤ train u
    change _ ≤ _ + 0 ∧ _
    omega

end Reading

/-! ## Services and appends on a line -/

/-- The checkpointed total is what the counter showed at the reading that was saved. -/
structure Abreast (train : Train) (t : Totalizer) (x : Line ε) : Prop where
  bounded : reading t.base t.accumulated x.pcnt ≤ train x.pcnt.now
  total : t.cp.total.toNat = t.base.toNat + t.accumulated.toNat + x.saved
  saved : x.saved ≤ x.pcnt.level

/-- No checkpoint write has completed since `x`. -/
structure Pending (x : Line ε) (cp : Checkpoint) (ack : AckRec) (log : List QRow) (x' : Line ε) :
    Prop where
  durable : Durable x'.world cp ack log
  checkpoints : x'.world.flash.checkpoints = x.world.flash.checkpoints
  saved : x'.saved = x.saved
  later : x.pcnt.now ≤ x'.pcnt.now

/-- A service begun in `x` has written its checkpoint `c`. -/
structure Caught (train : Train) (x : Line ε) (t : Totalizer) (cp : Checkpoint) (ack : AckRec)
    (log : List QRow) (c : Checkpoint) (x' : Line ε) : Prop where
  durable : Durable x'.world c ack log
  checkpoints : x'.world.flash.checkpoints = x.world.flash.checkpoints + 1
  segment : c.qSegment = cp.qSegment
  ahead : reading t.base t.accumulated x.pcnt ≤ c.total.toNat
  bounded : c.total.toNat ≤ train x'.pcnt.now

/-- An append begun in `x` has confirmed its row under the checkpoint `c`, which still
carries the old total. -/
structure Joined (train : Train) (x : Line ε) (t : Totalizer) (ack : AckRec) (log : List QRow)
    (c : Checkpoint) (x' : Line ε) : Prop where
  durable : Durable x'.world c ack log
  behind : 5000 * c.qSegment.toNat < log.length
  checkpoints : x'.world.flash.checkpoints = x.world.flash.checkpoints + 1
  total : c.total = t.cp.total
  saved : x'.saved = x.pcnt.seen
  later : x.pcnt.now ≤ x'.pcnt.now
  pcnt : x'.pcnt = x.pcnt.advance train x'.pcnt.now

section

variable {E : Env ε} {train : Train} {x x' : Line ε} {t : Totalizer} {cp c : Checkpoint}
  {ack : AckRec} {log : List QRow}

theorem Line.Onward.saved_of_eq (h : x.Onward train x')
    (hsame : x'.world.flash.checkpoints = x.world.flash.checkpoints) : x'.saved = x.saved := by
  rw [h.saved, if_neg hsame.not_gt]

theorem Line.Onward.saved_of_lt (h : x.Onward train x')
    (hmore : x.world.flash.checkpoints < x'.world.flash.checkpoints) :
    x'.saved = x.pcnt.seen := by
  rw [h.saved, if_pos hmore]

theorem Line.Quiet.pending (h : Durable x.world cp ack log) (hq : x.Quiet x') :
    Pending x cp ack log x' :=
  ⟨hq.world.symm ▸ h, congrArg (·.flash.checkpoints) hq.world, hq.saved, hq.later⟩

/-- **A service catches up** with everything counted before it. -/
theorem Durable.wp_service_line (hE : E.Reliable) (h : Durable x.world cp ack log)
    (ht : Ram t.cp cp) (hread : reading t.base t.accumulated x.pcnt ≤ train x.pcnt.now)
    (seq : UInt32) :
    wp (metered E train) (t.service seq)
      (fun t' x' => Within train x' →
        Caught train x t cp ack log t'.cp x' ∧ Abreast train t' x')
      (fun x' => Within train x' →
        Pending x cp ack log x' ∨ ∃ c, Caught train x t cp ack log c x') x := by
  refine Totalizer.wp_service_line (fun x' hq _ => .inl (hq.pending h))
    fun acc p u hd hlater hu => ?_
  set x1 : Line ε := { x with pcnt := (p.advance train u).get } with hx1
  set c : Checkpoint := { t.cp with
    total := t.base + acc + UInt64.ofNat (p.advance train u).count, seq := seq } with hc
  set t' : Totalizer := { t with accumulated := acc, cp := ckptSlots.next c } with ht'
  -- what the completed write leaves
  have hcaught : ∀ x' : Line ε, x1.Onward train x' → x'.world = x.world.persisted c →
      Within train x' → Caught train x t cp ack log t'.cp x' ∧ Abreast train t' x' := by
    intro x' hon hw hin
    have hnow : u ≤ x'.pcnt.now := hon.later
    have hpcnt : x'.pcnt = (p.advance train u).get.advance train x'.pcnt.now := hon.pcnt
    have hlevel : (p.advance train u).level ≤ x'.pcnt.level := hon.pcntLater.level
    have hwraps : (p.advance train u).wraps = 0 := by
      have hle : (p.advance train u).get.wraps ≤ x'.pcnt.wraps := by
        rw [hpcnt]
        exact Pcnt.wraps_le_advance
      exact Nat.le_zero.mp (hle.trans hin.straight.le)
    have hfits : train u < 2 ^ 64 := (train.monotone hnow).trans_lt hin.fits
    obtain ⟨hmore, hbound⟩ := reading_drained hread hd
      (Nat.le_zero.mp (Pcnt.wraps_le_advance.trans hwraps.le))
      ((train.monotone hu).trans_lt hfits)
    have hsum := toNat_total (reading_advance hbound hu) hwraps hfits
    have htotal : (ckptSlots.next c).total.toNat = reading t.base acc (p.advance train u) := hsum
    have hup : reading t.base acc p ≤ reading t.base acc (p.advance train u) :=
      Nat.add_le_add_left Pcnt.level_le_advance _
    have hlast : reading t.base acc (p.advance train u) ≤ train u := reading_advance hbound hu
    have hsaved : x'.saved = (p.advance train u).level := hon.saved_of_lt (by
      rw [hw, checkpoints_write]
      exact Nat.lt_succ_self _)
    have hcounted : (x.world.persisted c).flash.Counted := hw ▸ hin.counted
    refine ⟨⟨?_, ?_, ht.segment, ?_, ?_⟩, ?_, ?_, ?_⟩
    · rw [hw]
      have hram : Ram c { cp with seq := seq } := ⟨ht.writes, rfl, ht.segment, ht.offset⟩
      exact h.repersist hram hcounted
    · rw [hw, checkpoints_write]
    · exact (hmore.trans hup).trans htotal.ge
    · exact (htotal.le.trans hlast).trans (train.monotone hnow)
    · rw [hpcnt]
      exact reading_advance (p := (p.advance train u).get) hlast hnow
    · rw [hsaved]
      exact htotal
    · exact hsaved ▸ hlevel
  refine wp_mono (wp_idle (x := x1)
    (Q := fun r w' => r = t' ∧ w' = x.world.persisted c)
    (C := fun w' => (Durable w' cp ack log ∧ w'.flash.checkpoints = x.world.flash.checkpoints) ∨
      w' = x.world.persisted c)
    (Totalizer.makes_persist (fun _ _ => ⟨by simp, by simp⟩) _) (.refl x1) ?_) ?_ ?_
  · refine Totalizer.wp_persist (h.wp_persist hE ht.writes (fun w' hw' hdone _ => ?_) ?_)
    · exact .inl ⟨⟨hw', h.count⟩, checkpoints_congr hdone⟩
    · exact ⟨.inr rfl, rfl, rfl⟩
  · rintro _ x' ⟨⟨rfl, hw⟩, hon⟩ hin
    exact hcaught x' hon hw hin
  · rintro x' ⟨⟨hd', hsame⟩ | hw, hon⟩ hin
    · exact .inl ⟨hd', hsame, hon.saved_of_eq hsame, (hlater.trans hu).trans hon.later⟩
    · exact .inr ⟨_, (hcaught x' hon hw hin).1⟩

/-- **An append** confirms its row under the total of the service before it. -/
theorem Durable.wp_append_line (hE : E.Reliable) (h : Durable x.world cp ack log)
    (ht : Ram t.cp cp) (hcount : x.world.flash.Counted) (q : EventQueue) (row : QRow) :
    wp (metered E train) (q.append t row)
      (fun r x' => Within train x' → ∃ c,
        r = ({ q with unackedCount := q.unackedCount + 1 }, { t with cp := c }) ∧
          Joined train x t ack (log ++ [QRow.kind.stamp row]) c x')
      (fun x' => Within train x' → Pending x cp ack log x' ∨
        ∃ c, Joined train x t ack (log ++ [QRow.kind.stamp row]) c x') x := by
  have hjoined : ∀ (x' : Line ε) w1 c', x.Onward train x' →
      RowPlaced x.world cp ack log (QRow.kind.stamp row) c' w1 → c'.total = t.cp.total →
      x'.world = w1.persisted c' → Within train x' →
      Joined train x t ack (log ++ [QRow.kind.stamp row]) (ckptSlots.next c') x' := by
    intro x' w1 c' hon hp htotal hw hin
    have hgrew : x'.world.flash.checkpoints = x.world.flash.checkpoints + 1 := by
      rw [hw, checkpoints_write, checkpoints_congr hp.slots.done]
    refine ⟨?_, hp.behind, hgrew, htotal, hon.saved_of_lt (by omega), hon.later, hon.pcnt⟩
    rw [hw]
    exact hp.durable h (hw ▸ hin.counted)
  refine wp_mono (wp_idle (x := x)
    (Q := fun r w' => ∃ w1 seg off, RowPlaced x.world cp ack log (QRow.kind.stamp row)
        { t.cp with qSegment := seg, qOffset := off } w1 ∧
      r = ({ q with unackedCount := q.unackedCount + 1 },
        { t with cp := ckptSlots.next { t.cp with qSegment := seg, qOffset := off } }) ∧
      w' = w1.persisted { t.cp with qSegment := seg, qOffset := off })
    (C := fun w' => (Durable w' cp ack log ∧ w'.flash.checkpoints = x.world.flash.checkpoints) ∨
      ∃ w1 seg off, RowPlaced x.world cp ack log (QRow.kind.stamp row)
        { t.cp with qSegment := seg, qOffset := off } w1 ∧
      w' = w1.persisted { t.cp with qSegment := seg, qOffset := off })
    (EventQueue.makes_append (fun _ hc => hc.idle) (fun _ => ⟨by simp, by simp⟩)
      (fun _ _ => ⟨by simp, by simp⟩) (fun _ _ => ⟨by simp, by simp⟩)
      (fun _ _ => ⟨by simp, by simp⟩) (fun _ _ => ⟨by simp, by simp⟩) q t row) (.refl x) ?_) ?_ ?_
  · refine h.wp_append_placed hE ht hcount (fun w' hw' hdone _ => ?_) fun w1 seg off hp => ?_
    · exact .inl ⟨⟨hw', h.count⟩, checkpoints_congr hdone⟩
    · exact ⟨.inr ⟨w1, seg, off, hp, rfl⟩, w1, seg, off, hp, rfl, rfl⟩
  · rintro r x' ⟨⟨w1, seg, off, hp, rfl, hw⟩, hon⟩ hin
    exact ⟨_, rfl, hjoined x' w1 _ hon hp rfl hw hin⟩
  · rintro x' ⟨⟨hd', hsame⟩ | ⟨w1, seg, off, hp, hw⟩, hon⟩ hin
    · exact .inl ⟨hd', hsame, hon.saved_of_eq hsame, hon.later⟩
    · exact .inr ⟨_, hjoined x' w1 _ hon hp rfl hw hin⟩

end

/-! ## The invariant -/

/-- The ledger is that of the log, its totals are in order, and unless a cut has
exposed the last row they are at most the checkpointed one. -/
structure InOrder (cp : Checkpoint) (log : List QRow) (g : Ledger) : Prop where
  totals : log.map QRow.totalizer = g.totals
  sorted : g.totals.Pairwise (· ≤ ·)
  below : ¬ g.exposed → ∀ t ∈ g.totals, t ≤ cp.total

/-- The flash, while the power is off. -/
def Shelf (train : Train) (x : Line ε) (g : Ledger) : Prop :=
  ∃ cp ack log, Durable x.world cp ack log ∧ InOrder cp log g ∧
    cp.total.toNat ≤ train x.pcnt.now

/-- The device and its flash, while it runs. -/
def Rising (train : Train) (d : Globals) (x : Line ε) (g : Ledger) : Prop :=
  ∃ cp log, Durable x.world cp d.q.ack log ∧ Ram d.tot.cp cp ∧ d.tot.cp.total = cp.total ∧
    InOrder cp log g ∧ Abreast train d.tot x

section

variable {E : Env ε} {train : Train} {x x' : Line ε} {d : Globals} {t : Totalizer}
  {cp c : Checkpoint} {ack : AckRec} {log : List QRow} {g : Ledger}

theorem Abreast.total_le (h : Abreast train t x) : t.cp.total.toNat ≤ train x.pcnt.now := by
  have h1 := h.bounded
  have h2 := h.saved
  rw [h.total]
  simp only [reading] at h1
  omega

/-- A row that is not below the checkpoint joins the ledger. -/
theorem InOrder.append (h : InOrder cp log g) (hex : ¬ g.exposed) {row : QRow} {exposed : Prop}
    (hrow : cp.total ≤ row.totalizer) (hc : ¬ exposed → row.totalizer ≤ c.total) :
    InOrder c (log ++ [row]) ⟨g.totals ++ [row.totalizer], exposed⟩ := by
  have hall : ∀ t ∈ g.totals, t ≤ row.totalizer := fun t ht =>
    UInt64.le_trans (h.below hex t ht) hrow
  refine ⟨?_, ?_, fun hne t ht => ?_⟩
  · rw [List.map_append, h.totals]
    rfl
  · refine List.pairwise_append.mpr ⟨h.sorted, List.pairwise_singleton _ _, fun t ht u hu => ?_⟩
    rw [List.mem_singleton.mp hu]
    exact hall t ht
  · rcases List.mem_append.mp ht with ht | ht
    · exact UInt64.le_trans (hall t ht) (hc hne)
    · rw [List.mem_singleton.mp ht]
      exact hc hne

/-- A higher checkpoint for the same log. -/
theorem InOrder.raise (h : InOrder cp log g) (hc : cp.total ≤ c.total) : InOrder c log g :=
  ⟨h.totals, h.sorted, fun hex t ht => UInt64.le_trans (h.below hex t ht) hc⟩

theorem Pending.shelf (hp : Pending x cp ack log x') (ho : InOrder cp log g)
    (hle : cp.total.toNat ≤ train x.pcnt.now) : Shelf train x' g :=
  ⟨cp, ack, log, hp.durable, ho, hle.trans (train.monotone hp.later)⟩

theorem Rising.shelf (h : Rising train d x g) : Shelf train x g := by
  obtain ⟨cp, log, hd, -, htotal, ho, hab⟩ := h
  exact ⟨cp, d.q.ack, log, hd, ho, htotal ▸ hab.total_le⟩

theorem Rising.wp_backgroundService (hE : E.Reliable) (h : Rising train d x g) :
    wp (metered E train) d.backgroundService (fun d' x' => Within train x' → Rising train d' x' g)
      (fun x' => Within train x' → Shelf train x' g) x := by
  obtain ⟨cp, log, hd, hram, htotal, ho, hab⟩ := h
  have hraise : ∀ c x', Caught train x d.tot cp d.q.ack log c x' → InOrder c log g := by
    intro c x' hc
    refine ho.raise (UInt64.le_iff_toNat_le.mpr (le_trans ?_ hc.ahead))
    have hsaved := hab.saved
    rw [← htotal, hab.total]
    simp only [reading]
    omega
  refine wp_map (wp_mono (hd.wp_service_line hE hram hab.bounded d.tot.lastSeq) ?_ ?_)
  · intro t' x' hc hin
    obtain ⟨hcaught, hab'⟩ := hc hin
    exact ⟨_, log, hcaught.durable, .refl _, rfl, hraise _ x' hcaught, hab'⟩
  · intro x' hc hin
    rcases hc hin with hp | ⟨c, hc⟩
    · exact hp.shelf ho (htotal ▸ hab.total_le)
    · exact ⟨c, _, log, hc.durable, hraise c x' hc, hc.bounded⟩

/-- A move that completes no checkpoint write confirms nothing. -/
theorem Ledger.track_same {s : Sample} {r : Globals × Sync} {m : Node (Globals × Sync) (Line ε)}
    (h : m.store.world.flash.checkpoints = x.world.flash.checkpoints) :
    Ledger.track (.op (.cycle s)) (.on r x) m g = g := if_neg h.not_gt

/-- A cycle that completes one confirms the row that its checkpoint ends at. -/
theorem Ledger.track_row {s : Sample} {r : Globals × Sync} {m : Node (Globals × Sync) (Line ε)}
    {row : QRow} (hd : Durable m.store.world c ack (log ++ [row]))
    (hpos : 5000 * c.qSegment.toNat < (log ++ [row]).length)
    (hmore : x.world.flash.checkpoints < m.store.world.flash.checkpoints) :
    Ledger.track (.op (.cycle s)) (.on r x) m g = ⟨g.totals ++ [row.totalizer],
      m.store.world.flash.checkpoints = x.world.flash.checkpoints + 1 ∧
        m.store.saved ≠ x.saved⟩ := by
  change (if _ then _ else _) = _
  rw [if_pos hmore, hd.confirmedRow_eq hpos]
  rfl

/-- A cut between the two writes: unless the counter has moved since the last saved
reading, the old total is that of the row. -/
theorem InOrder.cut (ho : InOrder cp log g) (hex : ¬ g.exposed) (hab : Abreast train t x)
    (hcp : t.cp.total = cp.total) {row : QRow} {seen : ℕ} (hseen : x.saved ≤ seen)
    (hrow : row.totalizer.toNat = t.base.toNat + t.accumulated.toNat + seen)
    (hc : c.total = t.cp.total) (hsaved : x'.saved = seen)
    (hmore : x'.world.flash.checkpoints = x.world.flash.checkpoints + 1) :
    InOrder c (log ++ [row]) ⟨g.totals ++ [row.totalizer],
      x'.world.flash.checkpoints = x.world.flash.checkpoints + 1 ∧ x'.saved ≠ x.saved⟩ := by
  have htotal := hab.total
  refine ho.append hex (UInt64.le_iff_toNat_le.mpr ?_) fun hsame =>
    UInt64.le_iff_toNat_le.mpr ?_
  · rw [← hcp, htotal, hrow]
    omega
  · have heq : x'.saved = x.saved := by
      by_contra hne
      exact hsame ⟨hmore, hne⟩
    rw [hc, htotal, hrow]
    omega

/-- **A cycle keeps the totals in order**; a cut between its two checkpoint writes
exposes its row if the counter has moved. -/
theorem Rising.wp_telemetryCycle (hE : E.Reliable) (h : Rising train d x g) (hex : ¬ g.exposed)
    (s : Sample) (n : Sync) :
    wp (metered E train) (d.telemetryCycle s)
      (fun d' x' => Within train x' →
        Rising train d' x' (Ledger.track (.op (.cycle s)) (.on (d, n) x) (.on (d', n) x') g))
      (fun x' => Within train x' →
        Shelf train x' (Ledger.track (.op (.cycle s)) (.on (d, n) x) (.off x') g)) x := by
  obtain ⟨cp, log, hd, hram, hcp, ho, hab⟩ := h
  -- until the append's checkpoint write completes the ledger is as it was
  have hkept : ∀ x', Pending x cp d.q.ack log x' →
      Shelf train x' (Ledger.track (.op (.cycle s)) (.on (d, n) x) (.off x') g) := by
    intro x' hp
    rw [Ledger.track_same (m := .off x') hp.checkpoints]
    exact hp.shelf ho (hcp ▸ hab.total_le)
  refine Totalizer.wp_total_line (fun x' hq _ => hkept x' (hq.pending hd)) fun u hu => ?_
  set p := x.pcnt.advance train u with hp
  set total := d.tot.base + d.tot.accumulated + UInt64.ofNat p.count with htotal
  set row := QRow.kind.stamp (telemetryBuild s d.bootId total (d.seq + 1)
    (decide (queueHighwater < d.q.unackedCount))) with hrow
  refine wp_of_within fun hin1 => wp_bind ?_
  have hlevel : x.pcnt.level ≤ p.level := Pcnt.level_le_advance
  have hbound : reading d.tot.base d.tot.accumulated p ≤ train u :=
    reading_advance hab.bounded hu
  have htot : row.totalizer.toNat = d.tot.base.toNat + d.tot.accumulated.toNat + p.level :=
    toNat_total hbound hin1.straight hin1.fits
  have hge : cp.total ≤ row.totalizer := by
    refine UInt64.le_iff_toNat_le.mpr ?_
    have hsaved := hab.saved
    rw [← hcp, hab.total, htot]
    omega
  -- between the two writes
  have hcut : ∀ c x', Durable x'.world c d.q.ack (log ++ [row]) →
      5000 * c.qSegment.toNat < (log ++ [row]).length →
      x'.world.flash.checkpoints = x.world.flash.checkpoints + 1 → c.total = d.tot.cp.total →
      x'.saved = p.level → x.pcnt.now ≤ x'.pcnt.now →
      Shelf train x' (Ledger.track (.op (.cycle s)) (.on (d, n) x) (.off x') g) := by
    intro c x' hd' hpos hmore hc hsaved hnow
    rw [Ledger.track_row (m := .off x') hd' hpos (hmore ▸ Nat.lt_succ_self _)]
    refine ⟨c, _, _, hd', ho.cut hex hab hcp (hab.saved.trans hlevel) htot hc hsaved hmore, ?_⟩
    rw [hc]
    exact hab.total_le.trans (train.monotone hnow)
  refine wp_mono
    (hd.wp_append_line (x := { x with pcnt := p.get }) hE hram hin1.counted d.q _) ?_ ?_
  · intro r x2 hjoined
    refine wp_of_within fun hin2 => ?_
    obtain ⟨c, rfl, hj⟩ := hjoined hin2
    have hpcnt : x2.pcnt = p.get.advance train x2.pcnt.now := hj.pcnt
    have hmore : x2.world.flash.checkpoints = x.world.flash.checkpoints + 1 := hj.checkpoints
    have hup : p.level ≤ x2.pcnt.level := hpcnt ▸ Pcnt.level_le_advance (p := p.get)
    have hread : reading d.tot.base d.tot.accumulated x2.pcnt ≤ train x2.pcnt.now := by
      rw [hpcnt]
      exact reading_advance (p := p.get) hbound hj.later
    -- the service behind the append catches up with the row
    have hcaught : ∀ c' x', Caught train x2 { d.tot with cp := c } c d.q.ack (log ++ [row]) c' x' →
        5000 * c'.qSegment.toNat < (log ++ [row]).length ∧
          x.world.flash.checkpoints < x'.world.flash.checkpoints ∧
            row.totalizer ≤ c'.total := by
      intro c' x' hc
      refine ⟨hc.segment ▸ hj.behind, by rw [hc.checkpoints]; omega,
        UInt64.le_iff_toNat_le.mpr (htot.le.trans (le_trans ?_ hc.ahead))⟩
      exact Nat.add_le_add_left hup _
    refine wp_map (wp_mono (hj.durable.wp_service_line (t := { d.tot with cp := c }) hE (.refl c)
      hread (d.seq + 1)) ?_ ?_)
    · intro t' x' hc hin'
      obtain ⟨hc, hab'⟩ := hc hin'
      obtain ⟨hpos, hlt, hle⟩ := hcaught _ x' hc
      rw [Ledger.track_row (m := .on _ x') hc.durable hpos hlt]
      exact ⟨_, _, hc.durable, .refl _, rfl, ho.append hex hge fun _ => hle, hab'⟩
    · intro x' hc hin'
      rcases hc hin' with hp' | ⟨c', hc⟩
      · exact hcut c x' hp'.durable hj.behind (hp'.checkpoints.trans hmore) hj.total
          (hp'.saved.trans hj.saved) ((hu.trans hj.later).trans hp'.later)
      · obtain ⟨hpos, hlt, hle⟩ := hcaught c' x' hc
        rw [Ledger.track_row (m := .off x') hc.durable hpos hlt]
        exact ⟨_, _, _, hc.durable, ho.append hex hge fun _ => hle, hc.bounded⟩
  · intro x' hc hin'
    rcases hc hin' with hp' | ⟨c, hj⟩
    · exact hkept x' ⟨hp'.durable, hp'.checkpoints, hp'.saved, hu.trans hp'.later⟩
    · exact hcut c x' hj.durable hj.behind hj.checkpoints hj.total hj.saved (hu.trans hj.later)

/-- **A push** moves the cursor, and neither the log nor the checkpoint. -/
theorem Durable.wp_pushOnce (hE : E.Reliable) {w : World ε} (h : Durable w cp d.q.ack log)
    (ht : Ram d.tot.cp cp) (n : Sync) :
    wp (sem E) (n.pushOnce d)
      (fun r w' => (Durable w' cp r.2.2.q.ack log ∧ r.2.2.tot = d.tot) ∧
        w'.flash.checkpoints = w.flash.checkpoints)
      (fun w' => (∃ a, Durable w' cp a log) ∧ w'.flash.checkpoints = w.flash.checkpoints) w := by
  have hsame : ∀ w' : World ε, w'.flash = w.flash →
      Durable w' cp d.q.ack log ∧ w'.flash.checkpoints = w.flash.checkpoints := fun w' hw =>
    ⟨h.of_flash hw, congrArg Flash.checkpoints hw⟩
  refine Sync.wp_pushOnce ⟨⟨_, h⟩, rfl⟩ (fun _ => ⟨⟨h, rfl⟩, rfl⟩)
    (fun w' _ hw _ => ⟨⟨_, (hsame w' hw).1⟩, (hsame w' hw).2⟩) fun last r w' _ hw _ => ?_
  obtain ⟨hd, hck⟩ := hsame w' hw
  refine ⟨⟨⟨_, hd⟩, hck⟩, fun _ _ => ⟨⟨hd, rfl⟩, hck⟩, fun _ _ => ?_⟩
  refine wp_map (hd.wp_ackThrough hE ht rfl (fun w2 a hw2 _ hs => ?_) fun w2 q hw2 _ hs s' => ?_)
  · exact ⟨⟨a, hw2⟩, hs.checkpoints.trans hck⟩
  · exact ⟨⟨hw2, rfl⟩, hs.checkpoints.trans hck⟩

theorem Rising.wp_pushOnce (hE : E.Reliable) (h : Rising train d x g) (n : Sync) :
    wp (metered E train) (n.pushOnce d) (fun r x' => Rising train r.2.2 x' g)
      (fun x' => Shelf train x' g) x := by
  obtain ⟨cp, log, hd, hram, hcp, ho, hab⟩ := h
  refine wp_mono (wp_idle (Sync.makes_pushOnce (fun _ hc => hc.idle) (fun _ => ⟨by simp, by simp⟩)
    (fun _ _ => ⟨by simp, by simp⟩) (fun _ => ⟨by simp, by simp⟩) n d) (.refl x)
    (hd.wp_pushOnce hE hram n)) ?_ ?_
  · rintro r x' ⟨⟨⟨hd', htot⟩, hck⟩, hon⟩
    rw [Rising, htot]
    refine ⟨cp, log, hd', hram, hcp, ho, ?_, ?_, ?_⟩
    · rw [hon.pcnt]
      exact reading_advance hab.bounded hon.later
    · rw [hon.saved_of_eq hck]
      exact hab.total
    · rw [hon.saved_of_eq hck]
      exact hab.saved.trans hon.pcntLater.level
  · rintro x' ⟨⟨⟨a, hd'⟩, hck⟩, hon⟩
    exact Pending.shelf ⟨hd', hck, hon.saved_of_eq hck, hon.later⟩ ho (hcp ▸ hab.total_le)

/-! ## Booting -/

/-- **A boot** resumes at the checkpointed total. -/
theorem Shelf.wp_setup (hE : E.Reliable) (h : Shelf train x g)
    (hdark : x = Line.dark x.world x.pcnt.now) (hcount : x.world.flash.Counted) (bootId : UInt32) :
    wp (metered E train) (setup bootId) (fun d x' => Within train x' → Rising train d x' g)
      (fun x' => Within train x' → Shelf train x' g) x := by
  obtain ⟨cp, ack, log, hd, ho, hle⟩ := h
  obtain ⟨k, hk, hmakes⟩ := setup_starts (P := Call.Idle) (fun _ hc => hc.idle)
    (fun _ _ => ⟨by simp, by simp⟩) (fun _ => ⟨by simp, by simp⟩) bootId
  refine wp_mono (wp_startup hk hmakes (wp_and (wp_setup_resumes bootId x.world)
    (hd.wp_setup hE hcount
      (C := fun w' => ∃ cp', Resumed x.world cp w' cp' ∧ Durable w' cp' ack log)
      (Q := fun d w' => ∃ cp', Resumed x.world cp w' cp' ∧ Durable w' cp' ack log ∧
        Ram d.tot.cp cp' ∧ d.q.ack = ack)
      (fun w' cp' hcp hd' => ⟨cp', hcp, hd'⟩)
      fun w' cp' d hcp hd' hram hack _ => ⟨cp', hcp, hd', hram, hack⟩))) ?_ ?_
  · rintro d x' ⟨⟨⟨hbase, hacc, htotal, -⟩, hset⟩, u, hu, hon⟩ hin
    obtain ⟨cp', hcp, hd', hram, rfl⟩ := hset hin.counted
    rw [hd.ckptLast.recover] at hbase htotal
    rw [Line.clear_dark hdark] at hon
    have hnow : u ≤ x'.pcnt.now := hon.later
    have hsaved : x'.saved = 0 := by
      have hzero : x.saved = 0 := by rw [hdark]; rfl
      rw [hon.saved, hzero]
      exact ite_self _
    have hbound : reading cp.total 0 ({ now := u, running := true } : Pcnt) ≤ train u :=
      hle.trans (train.monotone hu)
    refine ⟨cp', log, hd', hram, htotal.trans hcp.total.symm,
      ho.raise (hcp.total ▸ UInt64.le_refl _), ?_, ?_, ?_⟩
    · rw [hbase, hacc, hon.pcnt]
      exact reading_advance hbound hnow
    · rw [htotal, hbase, hacc, hsaved]
      rfl
    · rw [hsaved]
      exact Nat.zero_le _
  · rintro x' ⟨⟨-, hset⟩, hnow⟩ hin
    obtain ⟨cp', hcp, hd'⟩ := hset hin.counted
    exact ⟨cp', ack, log, hd', ho.raise (hcp.total ▸ UInt64.le_refl _),
      hcp.total ▸ hle.trans (train.monotone hnow)⟩

end

/-! ## Runs -/

/-- **The invariant holds in every state of every such run.** -/
theorem CountingRuns.holds {E : Env ε} {train : Train} (hE : E.Reliable)
    {n : Node (Globals × Sync) (Line ε)} {g : Ledger} (h : CountingRuns E train Sheltered n g) :
    n.Holds (fun x g => Within train x → Shelf train x g)
      (fun d x g => Within train x → Rising train d.1 x g) g := by
  refine Reach.invariant ?_ ?_ ?_ ?_ h
  · rintro n g ⟨e, t, rfl, rfl⟩ -
    exact ⟨_, _, _, .fresh e, ⟨rfl, .nil, fun _ t ht => absurd ht (by simp)⟩, Nat.zero_le _⟩
  · rintro bootId x g ⟨hdark, -⟩ hx
    exact wp_of_within fun hin => wp_map ((hx hin).wp_setup hE hdark hin.counted bootId)
  · rintro i ⟨d, n⟩ x g ⟨-, -, hex⟩ hx
    refine wp_of_within fun hin => ?_
    cases i with
    | cycle s => exact wp_map ((hx hin).wp_telemetryCycle hE hex s n)
    | background => exact wp_map ((hx hin).wp_backgroundService hE)
    | push =>
      refine wp_map (wp_mono ((hx hin).wp_pushOnce hE n) ?_ ?_)
      · exact fun r x' h' _ => h'
      · exact fun x' h' _ => h'
  · rintro n n' g ⟨-, hw, -⟩ hn hx
    cases n with
    | off x =>
      obtain ⟨u, hu, rfl⟩ := hn
      intro hin
      obtain ⟨cp, ack, log, hd, ho, hle⟩ := hx ⟨hin.counted, hw,
        (train.monotone hu).trans_lt hin.fits⟩
      exact ⟨cp, ack, log, hd, ho, hle.trans (train.monotone hu)⟩
    | on d x =>
      obtain ⟨u, hu, rfl⟩ := hn
      intro hin
      have hon : x.Onward train (x.wait train u) := .wait hu
      obtain ⟨cp, log, hd, hram, hcp, ho, hab⟩ := hx (hin.of_before
        ⟨le_rfl, Pcnt.wraps_le_advance, hu⟩)
      exact ⟨cp, log, hd, hram, hcp, ho, reading_advance hab.bounded hu, hab.total,
        hab.saved.trans hon.pcntLater.level⟩

section Steps

variable {E : Env ε} {train : Train}
  {ok : Action UInt32 NetOp → Node (Globals × Sync) (Line ε) → Ledger → Prop}
  {r r' : Globals × Sync} {x x' : Line ε} {g : Ledger}

theorem CountingRuns.boot {w : World ε} {t : ℕ}
    (h : CountingRuns E train ok (.off (Line.dark w t)) g) (bootId : UInt32)
    (hok : ok (.boot bootId) (.off (Line.dark w t)) g)
    (hrun : Runs (metered E train) ((countingMachine E train).boot bootId) (Line.dark w t) r x) :
    CountingRuns E train ok (.on r x) g :=
  .step (a := .boot bootId) h ⟨rfl, hok⟩ (.boot hrun)

theorem CountingRuns.wait (h : CountingRuns E train ok (.on r x) g) {t : ℕ} (ht : x.pcnt.now ≤ t)
    (hok : ok .env (.on r x) g) : CountingRuns E train ok (.on r (x.wait train t)) g :=
  .step (a := .env) h ⟨trivial, hok⟩ (.env ⟨t, ht, rfl⟩)

theorem CountingRuns.cycle (h : CountingRuns E train ok (.on r x) g) (s : Sample)
    (hok : ok (.op (.cycle s)) (.on r x) g)
    (hrun : Runs (metered E train) (NetOp.run (.cycle s) r) x r' x') :
    CountingRuns E train ok (.on r' x')
      (Ledger.track (.op (.cycle s)) (.on r x) (.on r' x') g) :=
  .step (a := .op (.cycle s)) h ⟨trivial, hok⟩
    (.op (D := countingMachine E train) (i := .cycle s) hrun)

/-- Power fails in a cycle, and comes back at once. -/
theorem CountingRuns.cut (h : CountingRuns E train ok (.on r x) g) (s : Sample)
    (hok : ok (.op (.cycle s)) (.on r x) g)
    (hcut : Cuts (metered E train) (NetOp.run (.cycle s) r) x x')
    (hdark : ok .env (.off x') (Ledger.track (.op (.cycle s)) (.on r x) (.off x') g)) :
    CountingRuns E train ok (.off (Line.dark x'.world x'.pcnt.now))
      (Ledger.track (.op (.cycle s)) (.on r x) (.off x') g) :=
  .step (a := .env) (.step (a := .op (.cycle s)) h ⟨trivial, hok⟩
    (.opCut (D := countingMachine E train) (i := .cycle s) hcut)) ⟨trivial, hdark⟩
    (.env ⟨_, le_rfl, rfl⟩)

end Steps

end Device
end CovioFirmware
