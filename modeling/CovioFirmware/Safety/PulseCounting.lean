import CovioFirmware.Device.PulseCounter

/-!
# Every pulse is counted once

`total()` adds what was drained out of the counter since boot to what the counter
shows.  `service()` drains it by reading it, adding the reading and clearing it, from
30000 on; the counter itself goes back to 0 on reaching 32767.

So there are two ways for a pulse to be missed.  It may arrive between the reading and
the clear of a drain, and be cleared away unseen (`total_exact_iff_nothing_lost`); and
the counter may reach its limit before a service finds it above the threshold
(`total_exact_iff_no_turn`).  Neither corrects the other up to 2^64, so the total is
exact if and only if neither happened --- up to multiples of 2^64, since totals are
64-bit.

The counter is left with up to 29999 pulses by a service.  It can take 2767 more before
it reaches the limit, so the period of the services protects it up to 92 pulses a
second, not up to the 500 the sensor can deliver (`fast_line_wraps`).

The run is that of the totalizer alone, over a file system that may do what it likes:
its calls come in any order, with time passing in each of them and in between, and
power may fail at any moment.
-/

namespace CovioFirmware
namespace Device

open Crash

/-- The calls on the totalizer. -/
inductive TotalizerOp where
  | total : TotalizerOp
  | service (seq : UInt32) : TotalizerOp
  | injectSoftPulses (n : UInt32) : TotalizerOp
  | setQueueOffset (segment offset : UInt32) : TotalizerOp

/-- The calls as routines. -/
def TotalizerOp.run : TotalizerOp → Totalizer → Fw Totalizer
  | .total, t => do
      let _ ← t.total
      return t
  | .service seq, t => t.service seq
  | .injectSoftPulses n, t => return t.injectSoftPulses n
  | .setQueueOffset segment offset, t => t.setQueueOffset segment offset

variable {ε : Type}

/-- The totalizer, its counter and its files. -/
def totalizerMachine (E : Env ε) (train : Train) :
    Machine Call Call.Reply (Line ε) Totalizer UInt32 TotalizerOp where
  sem := metered E train
  boot := Totalizer.begin
  op := TotalizerOp.run
  env := Line.Passes train

/-- What has happened since boot. -/
structure Tally where
  /-- The total the boot recovered. -/
  base : UInt64 := 0
  /-- The soft pulses injected. -/
  soft : ℕ := 0
  /-- The pulses counted when the last service began. -/
  served : ℕ := 0
  /-- When it began. -/
  since : ℕ := 0
  /-- The most pulses counted from the beginning of one service to the end of the next,
  or to the present. -/
  busiest : ℕ := 0

/-- How a move changes the tally. -/
def Tally.track (a : Action UInt32 TotalizerOp) (n n' : Node Totalizer (Line ε)) (g : Tally) :
    Tally :=
  let p := n.store.pcnt
  let p' := n'.store.pcnt
  let g' := { g with busiest := max g.busiest (p'.pulses - g.served) }
  match a with
  | .boot _ =>
      { base := (ckptSlots.recover n.store.world.file).total, since := p'.now
        busiest := p'.pulses }
  | .op (.service _) => { g' with served := p.pulses, since := p.now }
  | .op (.injectSoftPulses m) => { g' with soft := g.soft + m.toNat }
  | _ => g'

/-- The runs from any flash, whose moves satisfy `ok`. -/
abbrev CountRuns (E : Env ε) (train : Train)
    (ok : Action UInt32 TotalizerOp → Node Totalizer (Line ε) → Tally → Prop)
    (n : Node Totalizer (Line ε)) (g : Tally) : Prop :=
  Reach (totalizerMachine E train) (fun a n g => FromDark a n ∧ ok a n g) Tally.track
    (fun n g => ∃ w t, n = .off (Line.dark w t) ∧ g = {}) n g

/-! ## What a drain keeps -/

/-- What was drained, with the full turns and the lost pulses, is what was counted
before the last clear. -/
def Balanced (p : Pcnt) (acc : UInt64) (soft : ℕ) : Prop :=
  p.turns = 0 ∨ p.lost = 0 →
    UInt64.ofNat (soft + p.past) = acc + UInt64.ofNat (pcntLimit * p.turns + p.lost)

section

variable {train : Train} {p p' : Pcnt} {acc acc' : UInt64} {soft : ℕ}

theorem Balanced.of_frame (h : Balanced p acc soft) (hpast : p'.past = p.past)
    (hturns : p'.turns = p.turns) (hlost : p'.lost = p.lost) : Balanced p' acc soft := by
  rw [Balanced, hpast, hturns, hlost]
  exact h

/-- A clear, behind a reading whose value was added. -/
theorem Balanced.clear (h : Balanced p acc soft) {seen : ℕ} (hseen : p.seen = seen)
    (hle : seen ≤ p.level) :
    Balanced p.clear (acc + UInt64.ofNat (seen % pcntLimit)) soft := by
  intro hor
  change UInt64.ofNat (soft + (p.past + p.level)) = _ + UInt64.ofNat
    (pcntLimit * (p.turns + p.level / pcntLimit) + (p.lost + (p.level - p.seen)))
  have hor' : p.turns = 0 ∧ p.level < pcntLimit ∨ p.lost = 0 ∧ p.level = seen := by
    rcases hor with hor | hor
    · exact .inl (Pcnt.wraps_eq_zero.mp hor)
    · have hz : p.lost + (p.level - p.seen) = 0 := hor
      omega
  have hsum := h (hor'.imp And.left And.left)
  have hlevel : p.level = seen % pcntLimit + (pcntLimit * (p.level / pcntLimit) +
      (p.level - seen)) := by
    rcases hor' with ⟨-, hlt⟩ | ⟨-, heq⟩
    · rw [Nat.mod_eq_of_lt (hle.trans_lt hlt), Nat.div_eq_of_lt hlt]
      omega
    · rw [heq, Nat.sub_self, Nat.add_zero, Nat.mod_add_div]
  calc UInt64.ofNat (soft + (p.past + p.level))
      = UInt64.ofNat (soft + p.past) + UInt64.ofNat p.level := by
        rw [← UInt64.ofNat_add, Nat.add_assoc]
    _ = acc + UInt64.ofNat (pcntLimit * p.turns + p.lost) + UInt64.ofNat
          (seen % pcntLimit + (pcntLimit * (p.level / pcntLimit) + (p.level - seen))) := by
        rw [hsum, ← hlevel]
    _ = _ := by
        rw [UInt64.add_assoc, UInt64.add_assoc, ← UInt64.ofNat_add, ← UInt64.ofNat_add, hseen]
        congr 2
        ring

/-- **A drain keeps the balance**, whenever the pulses arrive. -/
theorem Balanced.drained (h : Balanced p acc soft)
    (hd : p.Drained train acc acc' p') : Balanced p' acc' soft := by
  obtain ⟨t, ht, ⟨-, rfl, rfl⟩ | ⟨-, rfl, u, hu, rfl⟩⟩ := hd
  · exact h.of_frame rfl rfl rfl
  · refine Balanced.clear (p := (p.advance train t).get.advance train u)
      (h.of_frame rfl rfl rfl) rfl ?_
    exact Pcnt.level_le_advance (p := (p.advance train t).get)

theorem Pcnt.Drained.pulses_le (hd : p.Drained train acc acc' p') : p.pulses ≤ p'.pulses := by
  obtain ⟨t, -, ⟨-, -, rfl⟩ | ⟨-, -, u, -, rfl⟩⟩ := hd
  · exact Pcnt.pulses_le_advance
  · exact Pcnt.pulses_le_advance.trans (Pcnt.pulses_le_advance (p := (p.advance train t).get))

/-- A drain in time: as long as no more than 2767 pulses have come since the last one
began, the counter has not reached its limit, and it is left with less than 30000. -/
theorem Pcnt.Drained.paced {served : ℕ} (hd : p.Drained train acc acc' p') (hturns : p.turns = 0)
    (hlevel : p.level ≤ 29999 + (p.pulses - served)) (hserved : served ≤ p.pulses)
    (hnext : p'.pulses - served ≤ 2767) :
    p'.turns = 0 ∧ p'.level ≤ 29999 + (p'.pulses - p.pulses) := by
  obtain ⟨t, -, ⟨hlow, -, rfl⟩ | ⟨-, -, u, -, rfl⟩⟩ := hd
  · have hmore : p.level ≤ (p.advance train t).level := Pcnt.level_le_advance
    have hsum : p.past + (p.advance train t).level - served ≤ 2767 := hnext
    simp only [Pcnt.pulses] at hlevel hserved ⊢
    have hcount : (p.advance train t).count = (p.advance train t).level :=
      Nat.mod_eq_of_lt (by simp only [pcntLimit]; omega)
    change p.turns = 0 ∧ (p.advance train t).level ≤
      29999 + (p.past + (p.advance train t).level - (p.past + p.level))
    omega
  · set q := (p.advance train t).get.advance train u with hq
    have hmore : p.level ≤ q.level :=
      Pcnt.level_le_advance.trans (Pcnt.level_le_advance (p := (p.advance train t).get))
    have hsum : p.past + q.level - served ≤ 2767 := hnext
    simp only [Pcnt.pulses] at hlevel hserved
    have hzero : q.wraps = 0 :=
      Pcnt.wraps_eq_zero.mpr ⟨hturns, by simp only [pcntLimit]; omega⟩
    exact ⟨hzero, Nat.zero_le _⟩

end

/-! ## The invariant -/

/-- What every run keeps while the device is on. -/
structure Tallied (t : Totalizer) (p : Pcnt) (g : Tally) : Prop where
  base : t.base = g.base
  balanced : Balanced p t.accumulated g.soft
  served : g.served ≤ p.pulses
  busiest : p.pulses - g.served ≤ g.busiest
  paced : g.busiest ≤ 2767 → p.turns = 0 ∧ p.level ≤ 29999 + (p.pulses - g.served)

section

variable {train : Train} {t t' : Totalizer} {p p' q : Pcnt} {acc : UInt64} {g : Tally}

theorem Tallied.later (h : Tallied t p g) (hp : p.Later p') (hbase : t'.base = t.base)
    (hacc : t'.accumulated = t.accumulated) :
    Tallied t' p' { g with busiest := max g.busiest (p'.pulses - g.served) } := by
  have hlevel := hp.level
  have hserved := h.served
  refine ⟨hbase.trans h.base, hacc ▸ h.balanced.of_frame hp.past hp.turns hp.lost, ?_,
    le_max_right _ _, fun hb => ?_⟩
  · simp only [Pcnt.pulses, hp.past] at hserved ⊢
    omega
  · obtain ⟨hturns, hpaced⟩ := h.paced ((le_max_left _ _).trans hb)
    simp only [Pcnt.pulses, hp.past] at hpaced hserved ⊢
    exact ⟨hp.turns.trans hturns, by omega⟩

theorem Tallied.service (h : Tallied t p g) (hd : p.Drained train t.accumulated acc q)
    (hq : q.Later p')
    (hbase : t'.base = t.base) (hacc : t'.accumulated = acc) (hle : p.pulses ≤ q.pulses) :
    Tallied t' p' { g with
      busiest := max g.busiest (p'.pulses - g.served), served := p.pulses, since := p.now } := by
  have hlevel := hq.level
  have hserved := h.served
  have hmore : q.pulses ≤ p'.pulses := by
    simp only [Pcnt.pulses, hq.past]
    omega
  refine ⟨hbase.trans h.base, hacc ▸ (h.balanced.drained hd).of_frame hq.past hq.turns hq.lost,
    hle.trans hmore, le_max_of_le_right (by simp only; omega), fun hb => ?_⟩
  simp only at hb ⊢
  obtain ⟨hturns, hpaced⟩ := h.paced ((le_max_left _ _).trans hb)
  have hnext := (le_max_right g.busiest (p'.pulses - g.served)).trans hb
  obtain ⟨hturns', hlevel'⟩ := hd.paced hturns hpaced hserved (by omega)
  refine ⟨hq.turns.trans hturns', ?_⟩
  simp only [Pcnt.pulses, hq.past] at hlevel' hle ⊢
  omega

end

section

variable {E : Env ε} {train : Train} {t : Totalizer} {x : Line ε} {g : Tally}

/-- Persisting changes neither part of the total. -/
theorem wp_persist_line (t : Totalizer) (x : Line ε) :
    wp (metered E train) t.persist (fun t' x' => (t'.base = t.base ∧
      t'.accumulated = t.accumulated) ∧ x.Onward train x') (fun _ => True) x := by
  have hreturns : t.persist.Returns fun t' => t'.base = t.base ∧ t'.accumulated = t.accumulated :=
    (Prog.Returns.trivial _).bind fun _ _ => ⟨rfl, rfl⟩
  exact wp_mono (wp_idle (Totalizer.makes_persist (fun _ _ => ⟨by simp, by simp⟩) t) (.refl x)
    (hreturns.wp x.world)) (fun _ _ h => h) fun _ _ => trivial

theorem Tallied.wp_run (h : Tallied t x.pcnt g) (i : TotalizerOp) :
    wp (metered E train) (i.run t)
      (fun t' x' => Tallied t' x'.pcnt (Tally.track (.op i) (.on t x) (.on t' x') g))
      (fun _ => True) x := by
  cases i with
  | total =>
    refine Totalizer.wp_total_line (fun _ _ => trivial) fun u _ => ⟨trivial, ?_⟩
    exact h.later (Pcnt.Later.advance _ _).get rfl rfl
  | service seq =>
    refine Totalizer.wp_service_line (fun _ _ => trivial) fun acc q u hd _ _ => ?_
    refine wp_mono (wp_persist_line _ _) ?_ fun _ _ => trivial
    rintro t' x' ⟨⟨hbase, hacc⟩, hon⟩
    have hq : q.Later x'.pcnt := (Pcnt.Later.advance q u).get.trans hon.pcntLater
    exact h.service hd hq hbase hacc hd.pulses_le
  | injectSoftPulses n =>
    refine ⟨trivial, ?_⟩
    have hsame : x.pcnt.Later x.pcnt := ⟨le_rfl, rfl, rfl, rfl⟩
    have hlater := h.later hsame rfl rfl
    refine ⟨hlater.base, fun hor => ?_, hlater.served, hlater.busiest, hlater.paced⟩
    have hsum := hlater.balanced hor
    change UInt64.ofNat (g.soft + x.pcnt.past) = _ at hsum
    change UInt64.ofNat (g.soft + n.toNat + x.pcnt.past) = t.accumulated + n.toUInt64 + _
    have hn : n.toUInt64 = UInt64.ofNat n.toNat := by
      rw [← UInt64.toNat_inj, UInt32.toNat_toUInt64, UInt64.toNat_ofNat',
        Nat.mod_eq_of_lt (n.toNat_lt.trans (by decide))]
    rw [Nat.add_right_comm, UInt64.ofNat_add, hsum, hn, UInt64.add_assoc, UInt64.add_assoc,
      UInt64.add_comm (UInt64.ofNat n.toNat)]
  | setQueueOffset segment offset =>
    refine wp_mono (wp_persist_line _ _) ?_ fun _ _ => trivial
    rintro t' x' ⟨⟨hbase, hacc⟩, hon⟩
    exact h.later hon.pcntLater hbase hacc

/-- A boot starts the tally anew. -/
theorem wp_begin_line (hdark : x = Line.dark x.world x.pcnt.now) (bootId : UInt32) :
    wp (metered E train) (Totalizer.begin bootId)
      (fun t x' => Tallied t x'.pcnt (Tally.track (.boot bootId) (.off x) (.on t x') g))
      (fun _ => True) x := by
  obtain ⟨k, hk, hmakes⟩ := Totalizer.begin_starts (P := Call.Idle) (fun _ hc => hc.idle)
    (fun _ _ => ⟨by simp, by simp⟩) bootId
  have hbegin : wp (sem E) (Totalizer.begin bootId)
      (fun t _ => t.base = (ckptSlots.recover x.world.file).total ∧ t.accumulated = 0)
      (fun _ => True) x.world :=
    Totalizer.wp_begin trivial ⟨⟨rfl, rfl⟩, fun _ => Totalizer.wp_persist (wp_mono
      ((Prog.Returns.trivial _).wp _) (fun _ _ _ => ⟨rfl, rfl⟩) fun _ _ => trivial)⟩
  refine wp_mono (wp_startup hk hmakes hbegin) ?_ fun _ _ => trivial
  rintro t x' ⟨⟨hbase, hacc⟩, u, -, hon⟩
  have hl := hon.pcntLater
  rw [Line.clear_dark hdark] at hl
  have hpast : x'.pcnt.past = 0 := hl.past
  have hturns : x'.pcnt.turns = 0 := hl.turns
  have hlost : x'.pcnt.lost = 0 := hl.lost
  refine ⟨hbase, fun _ => ?_, Nat.zero_le _, le_rfl, fun _ => ⟨hturns, ?_⟩⟩
  · rw [hacc, hpast, hturns, hlost]
    rfl
  · change x'.pcnt.level ≤ 29999 + (x'.pcnt.past + x'.pcnt.level)
    omega

end

/-- **The invariant holds in every state of every run.** -/
theorem CountRuns.kept {E : Env ε} {train : Train}
    {ok : Action UInt32 TotalizerOp → Node Totalizer (Line ε) → Tally → Prop} {t : Totalizer}
    {x : Line ε} {g : Tally} (h : CountRuns E train ok (.on t x) g) : Tallied t x.pcnt g := by
  refine Reach.invariant (F := fun _ _ => True) (N := fun t x g => Tallied t x.pcnt g)
    ?_ ?_ ?_ ?_ h
  · rintro n g ⟨w, t, rfl, -⟩
    trivial
  · rintro bootId x g ⟨hdark, -⟩ -
    exact wp_begin_line hdark bootId
  · rintro i t x g - hk
    exact hk.wp_run i
  · rintro n n' g - hn hk
    cases n with
    | off x =>
      obtain ⟨u, -, rfl⟩ := hn
      trivial
    | on t x =>
      obtain ⟨u, -, rfl⟩ := hn
      exact hk.later (.advance _ u) rfl rfl

/-! ## What `total()` reports -/

/-- The base, the soft pulses and every pulse counted since boot. -/
def Exact (g : Tally) (p : Pcnt) (total : UInt64) : Prop :=
  total = g.base + UInt64.ofNat (g.soft + p.pulses)

theorem u64_ofNat_eq_zero {n : ℕ} : UInt64.ofNat n = 0 ↔ 2 ^ 64 ∣ n := by
  rw [← UInt64.toNat_inj, UInt64.toNat_ofNat', Nat.dvd_iff_mod_eq_zero]
  rfl

/-- The total falls short by the full turns and the lost pulses. -/
theorem Tallied.exact_iff {t : Totalizer} {p : Pcnt} {g : Tally} (h : Tallied t p g)
    (hor : p.wraps = 0 ∨ p.lost = 0) :
    Exact g p (t.base + t.accumulated + UInt64.ofNat p.count) ↔
      2 ^ 64 ∣ pcntLimit * p.wraps + p.lost := by
  have hsum := h.balanced (hor.imp_left fun hz => (Pcnt.wraps_eq_zero.mp hz).1)
  have hcount : pcntLimit * p.turns + p.lost + p.level =
      p.count + (pcntLimit * p.wraps + p.lost) := by
    have hlevel := p.level_eq
    rw [Pcnt.wraps, Nat.mul_add]
    omega
  have htotal : UInt64.ofNat (g.soft + p.pulses) =
      t.accumulated + UInt64.ofNat p.count + UInt64.ofNat (pcntLimit * p.wraps + p.lost) := by
    calc UInt64.ofNat (g.soft + p.pulses)
        = UInt64.ofNat (g.soft + p.past) + UInt64.ofNat p.level := by
          rw [← UInt64.ofNat_add, Pcnt.pulses, Nat.add_assoc]
      _ = t.accumulated + UInt64.ofNat (pcntLimit * p.turns + p.lost + p.level) := by
          rw [hsum, UInt64.add_assoc, ← UInt64.ofNat_add]
      _ = _ := by rw [hcount, UInt64.ofNat_add, ← UInt64.add_assoc]
  rw [Exact, htotal, h.base, ← UInt64.add_assoc, ← UInt64.add_assoc, UInt64.left_eq_add,
    u64_ofNat_eq_zero]

/-- `total()` takes its reading at some moment of the call. -/
theorem total_runs {E : Env ε} {train : Train} {t : Totalizer} {x x' : Line ε} {r : UInt64}
    (h : Runs (metered E train) t.total x r x') : x.pcnt.Later x'.pcnt ∧
      r = t.base + t.accumulated + UInt64.ofNat x'.pcnt.count := by
  refine wp.runs (Q := fun r x' => x.pcnt.Later x'.pcnt ∧
    r = t.base + t.accumulated + UInt64.ofNat x'.pcnt.count) (C := fun _ => True) ?_ h
  have htotal : t.total = (t.total >>= fun r => .ret r) := by rfl
  rw [htotal]
  exact Totalizer.wp_total_line (fun _ _ => trivial) fun u _ =>
    ⟨trivial, (Pcnt.Later.advance _ u).get, rfl⟩

section

variable {E : Env ε} {train : Train}
  {ok : Action UInt32 TotalizerOp → Node Totalizer (Line ε) → Tally → Prop} {t : Totalizer}
  {x x' : Line ε} {g : Tally} {r : UInt64}

theorem CountRuns.exact_iff (h : CountRuns E train ok (.on t x) g)
    (hr : Runs (metered E train) t.total x r x') (hor : x'.pcnt.wraps = 0 ∨ x'.pcnt.lost = 0) :
    Exact g x'.pcnt r ↔ 2 ^ 64 ∣ pcntLimit * x'.pcnt.wraps + x'.pcnt.lost := by
  obtain ⟨hlater, rfl⟩ := total_runs hr
  have hk : Tallied t _ _ := h.kept.later hlater rfl rfl
  exact hk.exact_iff hor

/-- **While the counter stays below its limit, the total is exact if and only if no
pulse fell between the reading and the clear of a drain.** -/
theorem total_exact_iff_nothing_lost (h : CountRuns E train ok (.on t x) g)
    (hr : Runs (metered E train) t.total x r x') (hwraps : x'.pcnt.wraps = 0) :
    Exact g x'.pcnt r ↔ 2 ^ 64 ∣ x'.pcnt.lost := by
  rw [h.exact_iff hr (.inl hwraps), hwraps, Nat.mul_zero, Nat.zero_add]

/-- **While no pulse falls between a reading and a clear, the total is exact if and
only if the counter has not reached its limit**, which it does not as long as no more
than 2767 pulses come from the beginning of one service to the end of the next. -/
theorem total_exact_iff_no_turn (h : CountRuns E train ok (.on t x) g)
    (hr : Runs (metered E train) t.total x r x') (hlost : x'.pcnt.lost = 0) :
    (Exact g x'.pcnt r ↔ 2 ^ 64 ∣ x'.pcnt.wraps) ∧
      (g.busiest ≤ 2767 → x'.pcnt.pulses - g.served ≤ 2767 → x'.pcnt.wraps = 0) := by
  refine ⟨?_, fun hb hs => ?_⟩
  · rw [h.exact_iff hr (.inr hlost), hlost, Nat.add_zero]
    exact (Nat.Coprime.dvd_mul_left (by decide : Nat.Coprime (2 ^ 64) pcntLimit))
  · have hk : Tallied t _ _ := h.kept.later (total_runs hr).1 rfl rfl
    obtain ⟨hturns, hlevel⟩ := hk.paced (max_le hb hs)
    refine Pcnt.wraps_eq_zero.mpr ⟨hturns, ?_⟩
    simp only at hlevel
    simp only [pcntLimit]
    omega

end

/-! ## Runs on a pulse every two milliseconds -/

/-- A pulse every two milliseconds: at most 500 in any second.  The unit of time is the
microsecond. -/
def everyTwoMs : Train := ⟨fun t => t / 2000, fun _ _ h => Nat.div_le_div_right h⟩

theorem everyTwoMs_rate (t : ℕ) : everyTwoMs (t + 1000000) ≤ everyTwoMs t + 500 := by
  change (t + 1000000) / 2000 ≤ t / 2000 + 500
  omega

/-- While the device is on, the last service, or the boot, is at most 30 s ago. -/
def Punctual (_ : Action UInt32 TotalizerOp) : Node Totalizer (Line ε) → Tally → Prop
  | .off _, _ => True
  | .on _ x, g => x.pcnt.now ≤ g.since + 30000000

/-- A running device with its tally. -/
structure Scene where
  t : Totalizer
  x : Line Unit
  g : Tally

namespace Scene

/-- After a boot from an empty flash. -/
def booted (train : Train) : Scene :=
  let x := Line.dark ⟨Flash.empty, ()⟩ 0
  let r := (Totalizer.begin 1).exec (answer train fun _ => 0) x
  ⟨r.1, r.2, Tally.track (.boot 1) (.off x) (.on r.1 r.2) {}⟩

/-- Waiting until a moment. -/
def waiting (train : Train) (s : Scene) (u : ℕ) : Scene :=
  let x := s.x.wait train u
  ⟨s.t, x, Tally.track .env (.on s.t s.x) (.on s.t x) s.g⟩

/-- A call, whose steps take as long as `tick` says. -/
def call (train : Train) (tick : Call → ℕ) (s : Scene) (i : TotalizerOp) : Scene :=
  let r := (i.run s.t).exec (answer train tick) s.x
  ⟨r.1, r.2, Tally.track (.op i) (.on s.t s.x) (.on r.1 r.2) s.g⟩

/-- The scene belongs to a run whose moves satisfy `ok`. -/
def Runs (train : Train)
    (ok : Action UInt32 TotalizerOp → Node Totalizer (Line Unit) → Tally → Prop) (s : Scene) :
    Prop :=
  CountRuns Env.calm train ok (.on s.t s.x) s.g

variable {train : Train}
  {ok : Action UInt32 TotalizerOp → Node Totalizer (Line Unit) → Tally → Prop} {s : Scene}

theorem booted_runs (hok : ok (.boot 1) (.off (Line.dark ⟨Flash.empty, ()⟩ 0)) {}) :
    (booted train).Runs train ok :=
  .step (a := .boot 1) (.init ⟨_, _, rfl, rfl⟩) ⟨rfl, hok⟩ (.boot (answer_runs train _ _ _))

theorem Runs.waiting (h : s.Runs train ok) {u : ℕ} (hu : s.x.pcnt.now ≤ u)
    (hok : ok .env (.on s.t s.x) s.g) : (s.waiting train u).Runs train ok :=
  .step (a := .env) h ⟨trivial, hok⟩ (.env ⟨u, hu, rfl⟩)

theorem Runs.call (h : s.Runs train ok) (tick : Call → ℕ) {i : TotalizerOp}
    (hok : ok (.op i) (.on s.t s.x) s.g) : (s.call train tick i).Runs train ok :=
  .step (a := .op i) h ⟨trivial, hok⟩ (.op (answer_runs train tick _ _))

end Scene

/-- No step takes any time. -/
def atOnce (_ : Call) : ℕ := 0

/-- Five seconds after the boot, 2500 pulses are counted. -/
theorem five_seconds_exact : ∃ t x g r x', CountRuns Env.calm everyTwoMs Punctual (.on t x) g ∧
    Runs (metered Env.calm everyTwoMs) t.total x r x' ∧ x'.pcnt.pulses = 2500 ∧
    Exact g x'.pcnt r ∧ x'.pcnt.wraps = 0 := by
  have hruns : ((Scene.booted everyTwoMs).waiting everyTwoMs 5000000).Runs everyTwoMs Punctual :=
    (Scene.booted_runs trivial).waiting (by decide +kernel)
      (show _ ≤ _ by decide +kernel)
  have htotal := answer_runs everyTwoMs atOnce
    ((Scene.booted everyTwoMs).waiting everyTwoMs 5000000).t.total
    ((Scene.booted everyTwoMs).waiting everyTwoMs 5000000).x
  have hexact := total_exact_iff_no_turn hruns htotal (by decide +kernel)
  have hwraps := hexact.2 (by decide +kernel) (by decide +kernel)
  exact ⟨_, _, _, _, _, hruns, htotal, by decide +kernel, hexact.1.mpr (hwraps ▸ dvd_zero _),
    hwraps⟩

/-- A pulse every two milliseconds, a service every 30 s: the second one finds 29999
pulses and leaves them, and the counter reaches its limit before the third. -/
theorem fast_line_wraps : (∀ t, everyTwoMs (t + 1000000) ≤ everyTwoMs t + 500) ∧
    ∃ t x g r x', CountRuns Env.calm everyTwoMs Punctual (.on t x) g ∧
      x'.pcnt.now ≤ g.since + 30000000 ∧
      Runs (metered Env.calm everyTwoMs) t.total x r x' ∧ x'.pcnt.lost = 0 ∧
      ¬ Exact g x'.pcnt r := by
  refine ⟨everyTwoMs_rate, ?_⟩
  set s1 := (Scene.booted everyTwoMs).waiting everyTwoMs 29999000 with hs1
  set s2 := (s1.call everyTwoMs atOnce (.service 0)).waiting everyTwoMs 59998000 with hs2
  set s3 := (s2.call everyTwoMs atOnce (.service 0)).waiting everyTwoMs 89997000 with hs3
  have h1 : s1.Runs everyTwoMs Punctual :=
    (Scene.booted_runs trivial).waiting (by decide +kernel) (show _ ≤ _ by decide +kernel)
  have h2 : s2.Runs everyTwoMs Punctual :=
    (h1.call atOnce (show _ ≤ _ by decide +kernel)).waiting (by decide +kernel)
      (show _ ≤ _ by decide +kernel)
  have h3 : s3.Runs everyTwoMs Punctual :=
    (h2.call atOnce (show _ ≤ _ by decide +kernel)).waiting (by decide +kernel)
      (show _ ≤ _ by decide +kernel)
  refine ⟨_, _, _, _, _, h3, ?_, answer_runs everyTwoMs atOnce s3.t.total s3.x, ?_, ?_⟩
  · decide +kernel
  · decide +kernel
  · rw [Exact]
    decide +kernel

/-- After a minute the counter is drained at once, and nothing is lost. -/
theorem drained_at_once_exact : ∃ t x g r x',
    CountRuns Env.calm everyTwoMs (fun _ _ _ => True) (.on t x) g ∧
      Runs (metered Env.calm everyTwoMs) t.total x r x' ∧ x'.pcnt.past = 30000 ∧
      Exact g x'.pcnt r := by
  set s := ((Scene.booted everyTwoMs).waiting everyTwoMs 60000000).call everyTwoMs atOnce
    (.service 0) with hs
  have h : s.Runs everyTwoMs fun _ _ _ => True :=
    ((Scene.booted_runs trivial).waiting (by decide +kernel) trivial).call atOnce trivial
  have htotal := answer_runs everyTwoMs atOnce s.t.total s.x
  have hexact := total_exact_iff_nothing_lost h htotal (by decide +kernel)
  exact ⟨_, _, _, _, _, h, htotal, by decide +kernel, hexact.mpr (by decide +kernel)⟩

/-- The clear comes a microsecond after the reading, and a pulse in between. -/
theorem pulse_cleared_unseen : ∃ t x g r x',
    CountRuns Env.calm everyTwoMs (fun _ _ _ => True) (.on t x) g ∧
      Runs (metered Env.calm everyTwoMs) t.total x r x' ∧ x'.pcnt.wraps = 0 ∧
      ¬ Exact g x'.pcnt r := by
  set tick : Call → ℕ := fun c => if c = .pcntClear then 1 else 0 with htick
  set s := ((Scene.booted everyTwoMs).waiting everyTwoMs 60001999).call everyTwoMs tick
    (.service 0) with hs
  have h : s.Runs everyTwoMs fun _ _ _ => True :=
    ((Scene.booted_runs trivial).waiting (by decide +kernel) trivial).call tick trivial
  refine ⟨_, _, _, _, _, h, answer_runs everyTwoMs atOnce s.t.total s.x, ?_, ?_⟩
  · decide +kernel
  · rw [Exact]
    decide +kernel

end Device
end CovioFirmware
