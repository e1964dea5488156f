import CovioFirmware.Device.Frames
import Mathlib.Order.Hom.Basic

/-!
# The pulse counter

`Device/Calls` lets a reading of the counter answer anything, since nothing the queue
does with its files depends on the answer.  What the totalizer reports does.  So here
the counter is a peripheral that counts on its own, and time passes during every call
and between any two of them.

The pulses are a `train`: the number of them up to each moment.  The counter counts
those that arrive while it runs and shows the number modulo its upper limit, on which
it goes back to 0.  A reading may happen at any moment of its call, so the pulses
before it and the pulses behind it are any that the train has in that time; the same
goes for a clear.

The counter keeps three histories that the firmware cannot see: how many pulses it had
counted before it was last cleared (`past`), how often it had gone round by then
(`turns`), and how many pulses the clears have thrown away that no reading had shown
(`lost`).

A world with the counter is a `Line`.  A program that makes no call on the counter
does to the world of a line what it does to the world alone, while the counter goes on
(`wp_idle`).
-/

namespace CovioFirmware
namespace Device

open Crash

/-- The pulses of a line: how many there have been by each moment. -/
abbrev Train := ℕ →o ℕ

/-- `cfg.counter_h_lim`: on reaching it the counter goes back to 0. -/
def pcntLimit : ℕ := 32767

/-- The counter. -/
@[ext] structure Pcnt where
  /-- The time it is. -/
  now : ℕ
  /-- Whether `setupPCNT_` has been called since power came back. -/
  running : Bool := false
  /-- The pulses since the last clear. -/
  level : ℕ := 0
  /-- Those of them that the last reading covered. -/
  seen : ℕ := 0
  /-- The pulses counted before the last clear. -/
  past : ℕ := 0
  /-- How often the counter had reached its limit by then. -/
  turns : ℕ := 0
  /-- The pulses cleared away that no reading had covered. -/
  lost : ℕ := 0
  deriving DecidableEq

namespace Pcnt

/-- What the counter shows. -/
def count (p : Pcnt) : ℕ := p.level % pcntLimit

/-- The pulses counted since power came back. -/
def pulses (p : Pcnt) : ℕ := p.past + p.level

/-- How often the counter has reached its limit since then. -/
def wraps (p : Pcnt) : ℕ := p.turns + p.level / pcntLimit

/-- The counter at a later moment. -/
def advance (train : Train) (p : Pcnt) (t : ℕ) : Pcnt :=
  { p with
    now := t
    level := if p.running then p.level + (train t - train p.now) else p.level }

/-- `pcnt_get_counter_value`. -/
def get (p : Pcnt) : Pcnt := { p with seen := p.level }

/-- `pcnt_counter_clear`, and `setupPCNT_`, after which the counter runs. -/
def clear (p : Pcnt) : Pcnt where
  now := p.now
  running := true
  past := p.pulses
  turns := p.wraps
  lost := p.lost + (p.level - p.seen)

/-- What a call of the firmware does to the counter. -/
def handle (p : Pcnt) : Call → Pcnt
  | .pcntGet => p.get
  | .pcntClear => p.clear
  | _ => p

/-- A clear forgets no turn. -/
@[simp] theorem wraps_clear (p : Pcnt) : p.clear.wraps = p.wraps := by simp [clear, wraps]

@[simp] theorem handle_now (p : Pcnt) (c : Call) : (p.handle c).now = p.now := by cases c <;> rfl

theorem wraps_handle (p : Pcnt) (c : Call) : (p.handle c).wraps = p.wraps := by
  cases c <;> first | rfl | exact p.wraps_clear

/-! ## Time passes -/

section Advance

variable {train : Train} {p : Pcnt} {t u : ℕ}

@[simp] theorem advance_now : (p.advance train t).now = t := rfl

@[simp] theorem advance_running : (p.advance train t).running = p.running := rfl

@[simp] theorem advance_seen : (p.advance train t).seen = p.seen := rfl

@[simp] theorem advance_past : (p.advance train t).past = p.past := rfl

@[simp] theorem advance_turns : (p.advance train t).turns = p.turns := rfl

@[simp] theorem advance_lost : (p.advance train t).lost = p.lost := rfl

@[simp] theorem advance_self : p.advance train p.now = p := by
  ext <;> simp [advance]

/-- Waiting twice is waiting once. -/
theorem advance_advance (ht : p.now ≤ t) (hu : t ≤ u) :
    (p.advance train t).advance train u = p.advance train u := by
  have h1 := train.monotone ht
  have h2 := train.monotone hu
  ext <;> simp only [advance]
  split <;> omega

theorem level_le_advance : p.level ≤ (p.advance train t).level := by
  simp only [advance]
  split <;> omega

theorem pulses_le_advance : p.pulses ≤ (p.advance train t).pulses :=
  Nat.add_le_add_left level_le_advance _

theorem wraps_le_advance : p.wraps ≤ (p.advance train t).wraps :=
  Nat.add_le_add_left (Nat.div_le_div_right level_le_advance) _

/-- No more pulses are counted than there are. -/
theorem advance_level_le (ht : p.now ≤ t) :
    (p.advance train t).level + train p.now ≤ p.level + train t := by
  have h := train.monotone ht
  simp only [advance]
  split <;> omega

end Advance

section Later

variable {train : Train} {p p' q : Pcnt}

/-- Later, and possibly read: only the pulses behind the last clear have grown. -/
structure Later (p p' : Pcnt) : Prop where
  level : p.level ≤ p'.level
  past : p'.past = p.past
  turns : p'.turns = p.turns
  lost : p'.lost = p.lost

theorem Later.advance (p : Pcnt) (u : ℕ) : p.Later (p.advance train u) :=
  ⟨Pcnt.level_le_advance, rfl, rfl, rfl⟩

theorem Later.trans (h : p.Later p') (h' : p'.Later q) : p.Later q :=
  ⟨h.level.trans h'.level, h'.past.trans h.past, h'.turns.trans h.turns, h'.lost.trans h.lost⟩

theorem Later.get (h : p.Later p') : p.Later p'.get := ⟨h.level, h.past, h.turns, h.lost⟩

end Later

/-! ## What the counter shows -/

section

variable {p : Pcnt}

theorem count_lt : p.count < pcntLimit := Nat.mod_lt _ (by decide)

/-- Pulses, and what is shown of them. -/
theorem level_eq : p.count + pcntLimit * (p.level / pcntLimit) = p.level := Nat.mod_add_div _ _

theorem wraps_eq_zero : p.wraps = 0 ↔ p.turns = 0 ∧ p.level < pcntLimit := by
  rw [wraps, Nat.add_eq_zero_iff, Nat.div_eq_zero_iff]
  simp [pcntLimit]

theorem count_eq_level (h : p.wraps = 0) : p.count = p.level :=
  Nat.mod_eq_of_lt (wraps_eq_zero.mp h).2

/-- The 16 bits of a reading hold the count. -/
theorem toNat_reading : (UInt16.ofNat p.count).toNat = p.count := by
  have h : p.count < 32767 := count_lt
  rw [UInt16.toNat_ofNat', Nat.mod_eq_of_lt (by omega)]

theorem reading_toUInt64 : (UInt16.ofNat p.count).toUInt64 = UInt64.ofNat p.count := by
  rw [← UInt64.toNat_inj, UInt16.toNat_toUInt64, toNat_reading, UInt64.toNat_ofNat',
    Nat.mod_eq_of_lt]
  have h : p.count < 32767 := count_lt
  omega

end

end Pcnt

/-- A world with the counter. -/
structure Line (ε : Type) where
  world : World ε
  pcnt : Pcnt
  /-- How many of the pulses since the last clear the reading had covered that came
  before the last completed checkpoint write. -/
  saved : ℕ := 0

variable {ε α : Type}

namespace Line

/-- The same line later. -/
def wait (train : Train) (x : Line ε) (t : ℕ) : Line ε :=
  { x with pcnt := x.pcnt.advance train t }

/-- Power comes back over some files at some time; the counter stands still at 0. -/
def dark (w : World ε) (t : ℕ) : Line ε := { world := w, pcnt := { now := t } }

/-- Set up after power came back, the counter runs from 0. -/
theorem clear_dark {train : Train} {x : Line ε} (h : x = dark x.world x.pcnt.now) (u : ℕ) :
    (x.pcnt.advance train u).clear = { now := u, running := true } := by
  rw [h]
  ext <;> simp [Pcnt.clear, Pcnt.advance, Pcnt.pulses, Pcnt.wraps, dark]

/-- A call is over: it has left `w`, and has done to the counter what it does. -/
def after (x : Line ε) (c : Call) (w : World ε) : Line ε where
  world := w
  pcnt := x.pcnt.handle c
  saved := if x.world.flash.checkpoints < w.flash.checkpoints then x.pcnt.seen else x.saved

end Line

/-- The answers that depend on the counter. -/
def Pcnt.Shows (p : Pcnt) : (c : Call) → c.Reply → Prop
  | .pcntGet, r => r = UInt16.ofNat p.count
  | _, _ => True

/-- The answers and effects of completed calls: some time passes, then the call
does its work. -/
def measured (E : Env ε) (train : Train) (c : Call) (x : Line ε) (r : c.Reply) (x' : Line ε) :
    Prop :=
  ∃ t w', x.pcnt.now ≤ t ∧ reply E c x.world r w' ∧ (x.pcnt.advance train t).Shows c r ∧
    x' = (x.wait train t).after c w'

/-- What power lost inside a call may leave. -/
def halted (E : Env ε) (train : Train) (c : Call) (x x' : Line ε) : Prop :=
  ∃ t w', x.pcnt.now ≤ t ∧ torn E c x.world w' ∧ x' = { x.wait train t with world := w' }

/-- The semantics of firmware routines while pulses arrive. -/
def metered (E : Env ε) (train : Train) : Sem Call Call.Reply (Line ε) :=
  ⟨measured E train, halted E train⟩

/-! ## What the programs of the queue do on a line -/

section Rules

variable {E : Env ε} {train : Train}

/-- What is known of a program in a world holds on a line, together with what every
one of its calls keeps of the counter. -/
theorem wp_line {P : Call → Prop} {I : Line ε → Prop}
    (hpost : ∀ c, P c → ∀ x r x', I x → measured E train c x r x' → I x')
    (hcut : ∀ c, P c → ∀ x x', I x → halted E train c x x' → I x')
    {p : Fw α} (hp : p.Makes P) {Q : α → World ε → Prop} {C : World ε → Prop} {x : Line ε}
    (hx : I x) (h : wp (sem E) p Q C x.world) :
    wp (metered E train) p (fun a x' => Q a x'.world ∧ I x') (fun x' => C x'.world ∧ I x') x := by
  refine wp_simulate (f := Line.world) (fun c hc x r x' hi hr => ⟨?_, hpost c hc x r x' hi hr⟩)
    (fun c hc x x' hi hr => ⟨?_, hcut c hc x x' hi hr⟩) hp hx h
  · obtain ⟨t, w', -, hw, -, rfl⟩ := hr
    exact hw
  · obtain ⟨t, w', -, hw, rfl⟩ := hr
    exact hw

/-- The calls that leave the counter alone. -/
def Call.Idle (c : Call) : Prop := c ≠ .pcntGet ∧ c ≠ .pcntClear

theorem Call.Consults.idle {c : Call} (h : c.Consults) : c.Idle := h.2

theorem Pcnt.handle_idle (p : Pcnt) {c : Call} (h : c.Idle) : p.handle c = p := by
  cases c with
  | pcntGet => exact absurd rfl h.1
  | pcntClear => exact absurd rfl h.2
  | _ => rfl

/-- Time has passed and files have been written; the counter has been left alone. -/
structure Line.Onward (train : Train) (x x' : Line ε) : Prop where
  later : x.pcnt.now ≤ x'.pcnt.now
  pcnt : x'.pcnt = x.pcnt.advance train x'.pcnt.now
  grew : x.world.flash.checkpoints ≤ x'.world.flash.checkpoints
  saved : x'.saved = if x.world.flash.checkpoints < x'.world.flash.checkpoints then x.pcnt.seen
    else x.saved

namespace Line.Onward

variable {x x' x'' : Line ε}

theorem refl (x : Line ε) : x.Onward train x :=
  ⟨le_rfl, Pcnt.advance_self.symm, le_rfl, (if_neg (lt_irrefl _)).symm⟩

theorem trans (h : x.Onward train x') (h' : x'.Onward train x'') :
    x.Onward train x'' := by
  refine ⟨h.later.trans h'.later, ?_, h.grew.trans h'.grew, ?_⟩
  · rw [h'.pcnt, h.pcnt]
    exact Pcnt.advance_advance h.later (by simpa using h'.later)
  · have h1 := h.grew
    have h2 := h'.grew
    have hseen : x'.pcnt.seen = x.pcnt.seen := by
      rw [h.pcnt]
      rfl
    rw [h'.saved, h.saved, hseen]
    split_ifs <;> first | rfl | omega

theorem of_measured {c : Call} (hc : c.Idle) {r : c.Reply} (h : measured E train c x r x') :
    x.Onward train x' := by
  obtain ⟨t, w', ht, hw, -, rfl⟩ := h
  refine ⟨?_, ?_, (reply_done hw).sublist.countP_le, rfl⟩ <;>
  · simp only [Line.after, Line.wait, Pcnt.handle_idle _ hc]
    first | exact ht | rfl

theorem of_halted {c : Call} (h : halted E train c x x') : x.Onward train x' := by
  obtain ⟨t, w', ht, hw, rfl⟩ := h
  have hsame := checkpoints_congr (torn_done hw)
  exact ⟨ht, rfl, hsame.ge, (if_neg hsame.not_gt).symm⟩

theorem wait {t : ℕ} (ht : x.pcnt.now ≤ t) : x.Onward train (x.wait train t) :=
  ⟨ht, rfl, le_rfl, (if_neg (lt_irrefl _)).symm⟩

end Line.Onward

theorem Line.Onward.pcntLater {x x' : Line ε} (h : x.Onward train x') : x.pcnt.Later x'.pcnt :=
  h.pcnt ▸ .advance _ _

/-- **A program that makes no call on the counter** does to the world what it does
without one. -/
theorem wp_idle {p : Fw α} (hp : p.Makes Call.Idle)
    {Q : α → World ε → Prop} {C : World ε → Prop} {x0 x : Line ε} (hx : x0.Onward train x)
    (h : wp (sem E) p Q C x.world) :
    wp (metered E train) p (fun a x' => Q a x'.world ∧ x0.Onward train x')
      (fun x' => C x'.world ∧ x0.Onward train x') x :=
  wp_line (fun _ hc _ _ _ hi hr => hi.trans (.of_measured hc hr))
    (fun _ _ _ _ hi hr => hi.trans (.of_halted hr)) hp hx h

/-- A reading, at some moment of the call. -/
theorem wp_pcntGet {k : UInt16 → Fw α} {Q : α → Line ε → Prop} {C : Line ε → Prop} {x : Line ε}
    (hC : ∀ t, x.pcnt.now ≤ t → C (x.wait train t))
    (h : ∀ t, x.pcnt.now ≤ t → wp (metered E train) (k (.ofNat (x.pcnt.advance train t).count)) Q C
      { x with pcnt := (x.pcnt.advance train t).get }) :
    wp (metered E train) (.call .pcntGet k) Q C x := by
  have hx : x.wait train x.pcnt.now = x := by rw [Line.wait, Pcnt.advance_self]
  refine wp_call (hx ▸ hC _ le_rfl) ?_ ?_
  · rintro _ ⟨t, _, ht, rfl, rfl⟩
    exact hC t ht
  · rintro r _ ⟨t, _, ht, rfl, rfl, rfl⟩
    simpa [Line.after, Line.wait, Pcnt.handle] using h t ht

/-- A clear, at some moment of the call. -/
theorem wp_pcntClear {k : Unit → Fw α} {Q : α → Line ε → Prop} {C : Line ε → Prop} {x : Line ε}
    (hC : ∀ t, x.pcnt.now ≤ t → C (x.wait train t))
    (h : ∀ t, x.pcnt.now ≤ t → wp (metered E train) (k ()) Q C
      { x with pcnt := (x.pcnt.advance train t).clear }) :
    wp (metered E train) (.call .pcntClear k) Q C x := by
  have hx : x.wait train x.pcnt.now = x := by rw [Line.wait, Pcnt.advance_self]
  refine wp_call (hx ▸ hC _ le_rfl) ?_ ?_
  · rintro _ ⟨t, _, ht, rfl, rfl⟩
    exact hC t ht
  · rintro ⟨⟩ _ ⟨t, _, ht, rfl, -, rfl⟩
    simpa [Line.after, Line.wait, Pcnt.handle] using h t ht

/-- A program that sets the counter up first and then leaves it alone. -/
theorem wp_startup {p : Fw α} {k : Unit → Fw α} (hp : p = .call .pcntClear k)
    (hk : (k ()).Makes Call.Idle) {Q : α → World ε → Prop} {C : World ε → Prop} {x : Line ε}
    (h : wp (sem E) p Q C x.world) :
    wp (metered E train) p
      (fun a x' => Q a x'.world ∧ ∃ u, x.pcnt.now ≤ u ∧
        Line.Onward train { x with pcnt := (x.pcnt.advance train u).clear } x')
      (fun x' => C x'.world ∧ x.pcnt.now ≤ x'.pcnt.now) x := by
  subst hp
  refine wp_pcntClear (fun u hu => ⟨h.1, hu⟩) fun u hu => ?_
  refine wp_mono (wp_idle (x := { x with pcnt := (x.pcnt.advance train u).clear }) hk (.refl _)
    (h.2.2 () x.world rfl)) ?_ ?_
  · exact fun a x' hx => ⟨hx.1, u, hu, hx.2⟩
  · exact fun x' hx => ⟨hx.1, hu.trans hx.2.later⟩

/-! ## `totalizer.h` on a line -/

/-- Time has passed and readings have been taken; the files are as they were. -/
structure Line.Quiet (x x' : Line ε) : Prop where
  later : x.pcnt.now ≤ x'.pcnt.now
  world : x'.world = x.world
  saved : x'.saved = x.saved

/-- What draining makes of the counter and of what was drained before: a reading, and
from 30000 on a clear behind it. -/
def Pcnt.Drained (train : Train) (p : Pcnt) (acc acc' : UInt64) (p' : Pcnt) : Prop :=
  ∃ t, p.now ≤ t ∧
    (((p.advance train t).count < 30000 ∧ acc' = acc ∧ p' = (p.advance train t).get) ∨
      (30000 ≤ (p.advance train t).count ∧
        acc' = acc + UInt64.ofNat (p.advance train t).count ∧
        ∃ u, t ≤ u ∧ p' = ((p.advance train t).get.advance train u).clear))

namespace Totalizer

variable {t : Totalizer} {C : Line ε → Prop} {x : Line ε}

theorem wp_total_line {k : UInt64 → Fw α} {Q : α → Line ε → Prop}
    (hC : ∀ x', x.Quiet x' → C x')
    (h : ∀ u, x.pcnt.now ≤ u →
      wp (metered E train) (k (t.base + t.accumulated + UInt64.ofNat (x.pcnt.advance train u).count))
        Q C { x with pcnt := (x.pcnt.advance train u).get }) :
    wp (metered E train) (t.total >>= k) Q C x := by
  refine wp_pcntGet (fun u hu => hC _ ⟨hu, rfl, rfl⟩) fun u hu => ?_
  have hk := h u hu
  rw [← Pcnt.reading_toUInt64] at hk
  exact hk

theorem wp_drain_line (hC : ∀ x', x.Quiet x' → C x') :
    wp (metered E train) t.drain
      (fun t' x' => x.Quiet x' ∧ ∃ acc, t' = { t with accumulated := acc } ∧
        x.pcnt.Drained train t.accumulated acc x'.pcnt) C x := by
  simp only [drain, Fw.pcntGet_bind, Fw.pcntClear_bind, Prog.pure_eq_ret]
  refine wp_pcntGet (fun u hu => hC _ ⟨hu, rfl, rfl⟩) fun u hu => ?_
  have hle : (30000 : UInt16) ≤ UInt16.ofNat (x.pcnt.advance train u).count ↔
      30000 ≤ (x.pcnt.advance train u).count := by
    rw [UInt16.le_iff_toNat_le, Pcnt.toNat_reading]
    rfl
  by_cases hfull : 30000 ≤ (x.pcnt.advance train u).count
  · rw [if_pos (hle.mpr hfull)]
    refine wp_pcntClear (fun v hv => hC _ ⟨hu.trans hv, rfl, rfl⟩) fun v hv => ?_
    have hlate : x.Quiet { x with pcnt := ((x.pcnt.advance train u).get.advance train v).clear } :=
      ⟨hu.trans hv, rfl, rfl⟩
    refine ⟨hC _ hlate, hlate, _, rfl, u, hu, .inr ⟨hfull, ?_, v, hv, rfl⟩⟩
    rw [Pcnt.reading_toUInt64]
  · rw [if_neg fun hc => hfull (hle.mp hc)]
    have hlate : x.Quiet { x with pcnt := (x.pcnt.advance train u).get } := ⟨hu, rfl, rfl⟩
    exact ⟨hC _ hlate, hlate, _, rfl, u, hu, .inl ⟨Nat.not_le.mp hfull, rfl, rfl⟩⟩

/-- `service` drains, reads once more and persists the sum. -/
theorem wp_service_line {seq : UInt32} {Q : Totalizer → Line ε → Prop}
    (hC : ∀ x', x.Quiet x' → C x')
    (h : ∀ acc p u, x.pcnt.Drained train t.accumulated acc p → x.pcnt.now ≤ p.now → p.now ≤ u →
      wp (metered E train) (persist { t with
        accumulated := acc
        cp := { t.cp with
          total := t.base + acc + UInt64.ofNat (p.advance train u).count, seq := seq } }) Q C
        { x with pcnt := (p.advance train u).get }) :
    wp (metered E train) (t.service seq) Q C x := by
  refine wp_bind_of (wp_drain_line hC) (fun _ hx => hx) ?_
  rintro _ x1 ⟨hq, acc, rfl, hd⟩
  have hx1 : { x with pcnt := x1.pcnt } = x1 := by
    obtain ⟨-, hw, hs⟩ := hq
    cases x1
    subst hw hs
    rfl
  refine wp_pcntGet (fun u hu => hC _ ⟨hq.later.trans hu, hq.world, hq.saved⟩) fun u hu => ?_
  have hk := h acc x1.pcnt u hd hq.later hu
  rw [← Pcnt.reading_toUInt64] at hk
  rw [← hx1]
  exact hk

end Totalizer

end Rules

/-! ## Between the operations -/

/-- Time passes; while the power is off, it may come back. -/
def Line.Passes {R : Type} (train : Train) : Node R (Line ε) → Node R (Line ε) → Prop
  | .off x, n' => ∃ t, x.pcnt.now ≤ t ∧ n' = .off (Line.dark x.world t)
  | .on r x, n' => ∃ t, x.pcnt.now ≤ t ∧ n' = .on r (x.wait train t)

/-- A boot finds the counter without a past. -/
def FromDark {R β ι : Type} : Action β ι → Node R (Line ε) → Prop
  | .boot _, n => n.store = Line.dark n.store.world n.store.pcnt.now
  | _, _ => True

/-! ## One answer to every call -/

/-- An answer that shows the counter. -/
def Pcnt.shown (p : Pcnt) : (c : Call) → c.Reply → c.Reply
  | .pcntGet, _ => UInt16.ofNat p.count
  | _, r => r

/-- What a call answers that takes as long as `tick` says, when nothing fails. -/
def answer (train : Train) (tick : Call → ℕ) (c : Call) (x : Line ε) : c.Reply × Line ε :=
  let y := x.wait train (x.pcnt.now + tick c)
  let out := respond (fun _ => false) c x.world
  (y.pcnt.shown c out.1, y.after c out.2)

theorem answer_measured (train : Train) (tick : Call → ℕ) (c : Call) (x : Line Unit) :
    measured Env.calm train c x (answer train tick c x).1 (answer train tick c x).2 := by
  have hreply : ∀ p : Pcnt, reply Env.calm c x.world
      (p.shown c (respond (fun _ => false) c x.world).1) (respond (fun _ => false) c x.world).2 := by
    intro p
    have h : (sem Env.calm).post c x.world (respond (fun _ => false) c x.world).1
        (respond (fun _ => false) c x.world).2 :=
      respond_reply (E := Env.calm) (w := x.world) (by simp) (fun _ _ => trivial)
        (fun _ => ⟨rfl, rfl⟩) c
    cases c <;> exact h
  refine ⟨_, _, Nat.le_add_right _ _, hreply _, ?_, rfl⟩
  cases c <;> first | rfl | trivial

/-- Every choice of durations is a run. -/
theorem answer_runs (train : Train) (tick : Call → ℕ) (p : Fw α) (x : Line Unit) :
    Runs (metered Env.calm train) p x (p.exec (answer train tick) x).1
      (p.exec (answer train tick) x).2 :=
  Prog.exec_runs (I := fun _ => True) (fun c x _ => ⟨answer_measured train tick c x, trivial⟩) p
    trivial

end Device
end CovioFirmware
