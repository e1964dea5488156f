import CovioFirmware.Bytes.Uptime
import CovioFirmware.Monitor.SensorCt

/-!
# The pulses of a current-transformer build

A run is a list of `service` calls at true times; the object sees each time through
the 32-bit clock.  What the calls return obeys one conservation law: a thousand
times the pulses handed out, and the remainder kept, are the rate times the
milliseconds that counted (`thousand_mul_pulses`).  The law is exact, so the pulses
are the quotient, and they do not depend on how an interval is cut into calls.
-/

namespace CovioFirmware
namespace Monitor
namespace SensorCt

/-- A call of `service`: the raw level, and the true time in milliseconds. -/
structure Call where
  rawActive : Bool
  time : ℕ

/-- The object as it is constructed. -/
def make (pulseHz debounceMs : UInt32) : SensorCt where
  pulseHz := pulseHz
  debounceMs := debounceMs

/-- A call, with the clock's reading of its time. -/
def call (s : SensorCt) (c : Call) : UInt32 × SensorCt :=
  s.service c.rawActive (.ofNat c.time)

/-- The object after a run. -/
def after : SensorCt → List Call → SensorCt
  | s, [] => s
  | s, c :: cs => after (s.call c).2 cs

/-- The pulses returned in a run, in total. -/
def pulses : SensorCt → List Call → ℕ
  | _, [] => 0
  | s, c :: cs => (s.call c).1.toNat + pulses (s.call c).2 cs

/-- The milliseconds in front of the calls that leave the debounced level active;
`last` is the time of the call before the run. -/
def activeMs : SensorCt → ℕ → List Call → ℕ
  | _, _, [] => 0
  | s, last, c :: cs =>
      (if (s.call c).2.stable then c.time - last else 0) + activeMs (s.call c).2 c.time cs

/-- The same for a run that starts with the object's first call, which has no
interval in front of it. -/
def countedMs (s : SensorCt) : List Call → ℕ
  | [] => 0
  | c :: cs => activeMs (s.call c).2 c.time cs

/-- The time of the last call. -/
def endTime : ℕ → List Call → ℕ
  | t, [] => t
  | _, c :: cs => endTime c.time cs

/-- The calls that follow the time `last`: times do not run backwards, and two calls
in a row are less than `2 ^ 32` ms apart. -/
def Follows : ℕ → List Call → Prop
  | _, [] => True
  | last, c :: cs => (last ≤ c.time ∧ c.time < last + 2 ^ 32) ∧ Follows c.time cs

/-- A run that may start at any time. -/
def Timely : List Call → Prop
  | [] => True
  | c :: cs => Follows c.time cs

/-- Every call of the run leaves the debounced level at `b`. -/
def Steady (b : Bool) : SensorCt → List Call → Prop
  | _, [] => True
  | s, c :: cs => (s.call c).2.stable = b ∧ Steady b (s.call c).2 cs

/-! ## One call -/

/-- The object has made its last call at the true time `last`, and keeps less than
one pulse. -/
structure Ready (s : SensorCt) (last : ℕ) : Prop where
  initialized : s.initialized = true
  clock : s.lastServiceMs = .ofNat last
  rate : s.pulseHz.toNat ≤ 1000
  frac : s.fracMilliPulses.toNat < 1000

/-- **A call after the first** keeps the object ready, and hands out or keeps
exactly what its interval is worth. -/
theorem call_ready {s : SensorCt} {last : ℕ} (h : Ready s last) {c : Call}
    (hc : last ≤ c.time ∧ c.time < last + 2 ^ 32) :
    Ready (s.call c).2 c.time ∧ (s.call c).2.pulseHz = s.pulseHz ∧
      1000 * (s.call c).1.toNat + (s.call c).2.fracMilliPulses.toNat =
        s.fracMilliPulses.toNat +
          s.pulseHz.toNat * (if (s.call c).2.stable then c.time - last else 0) := by
  obtain ⟨hhz, hini, hclock, hfrac⟩ := s.debounce_frame c.rawActive (.ofNat c.time)
  have hel := Uptime.toNat_sub_of_lt hc.1 hc.2
  by_cases hst : (s.debounce c.rawActive (.ofNat c.time)).stable = true
  · have hcall : s.call c = (s.debounce c.rawActive (.ofNat c.time)).integrate
        (.ofNat c.time - .ofNat last) := by
      simp [call, service, h.initialized, hst, h.clock]
    obtain ⟨hwhole, hkeep⟩ := integrate_exact (by rw [hfrac]; exact h.frac)
      (by rw [hhz]; exact h.rate) (.ofNat c.time - .ofNat last)
    rw [hfrac, hhz, hel] at hwhole hkeep
    rw [hcall]
    refine ⟨⟨hini.trans h.initialized, hclock, (congrArg UInt32.toNat hhz).trans_le h.rate, ?_⟩,
      hhz, ?_⟩
    · rw [hkeep]
      exact Nat.mod_lt _ (by decide)
    · have hstable : ((s.debounce c.rawActive (.ofNat c.time)).integrate
          (.ofNat c.time - .ofNat last)).2.stable = true := hst
      rw [hwhole, hkeep, hstable, if_pos rfl, Nat.mul_comm s.pulseHz.toNat]
      exact Nat.div_add_mod _ 1000
  · have hcall : s.call c = (0, s.debounce c.rawActive (.ofNat c.time)) := by
      simp [call, service, h.initialized, hst]
    rw [hcall]
    refine ⟨⟨hini.trans h.initialized, hclock, by rw [hhz]; exact h.rate,
      by rw [hfrac]; exact h.frac⟩, hhz, ?_⟩
    rw [if_neg hst, hfrac]
    exact Nat.zero_add _

/-- The first call makes the object ready, with no pulse handed out or kept. -/
theorem call_first {pulseHz debounceMs : UInt32} (h : pulseHz.toNat ≤ 1000) (c : Call) :
    Ready ((make pulseHz debounceMs).call c).2 c.time ∧
      ((make pulseHz debounceMs).call c).2.pulseHz = pulseHz ∧
      ((make pulseHz debounceMs).call c).1.toNat = 0 ∧
      ((make pulseHz debounceMs).call c).2.fracMilliPulses = 0 := by
  have hini : (make pulseHz debounceMs).initialized = false := rfl
  obtain ⟨hone, hi, hhz, hclock, hfrac⟩ := service_first hini c.rawActive (.ofNat c.time)
  refine ⟨⟨hi, hclock, ?_, ?_⟩, hhz, ?_, hfrac⟩
  · exact (congrArg UInt32.toNat hhz).trans_le h
  · exact (congrArg UInt64.toNat hfrac).trans_lt (Nat.succ_pos 999)
  · exact congrArg UInt32.toNat hone

/-! ## A run -/

/-- **The conservation law.** -/
theorem thousand_mul_pulses {cs : List Call} {s : SensorCt} {last : ℕ} (h : Ready s last)
    (ht : Follows last cs) :
    (s.after cs).fracMilliPulses.toNat < 1000 ∧
      1000 * s.pulses cs + (s.after cs).fracMilliPulses.toNat =
        s.fracMilliPulses.toNat + s.pulseHz.toNat * s.activeMs last cs := by
  induction cs generalizing s last with
  | nil => exact ⟨h.frac, Nat.zero_add _⟩
  | cons c cs ih =>
    obtain ⟨hready, hhz, hone⟩ := call_ready h ht.1
    obtain ⟨hfrac, hrest⟩ := ih hready ht.2
    refine ⟨hfrac, ?_⟩
    rw [hhz] at hrest
    simp only [pulses, after, activeMs, Nat.mul_add]
    omega

/-- The pulses of a run are the whole part of the rate times the counted time. -/
theorem pulses_eq {pulseHz debounceMs : UInt32} (h : pulseHz.toNat ≤ 1000) {cs : List Call}
    (ht : Timely cs) :
    (make pulseHz debounceMs).pulses cs =
      pulseHz.toNat * (make pulseHz debounceMs).countedMs cs / 1000 := by
  cases cs with
  | nil => simp [pulses, countedMs]
  | cons c cs =>
    obtain ⟨hready, hhz, hzero, hfrac⟩ := @call_first _ debounceMs h c
    obtain ⟨hlt, hlaw⟩ := thousand_mul_pulses hready ht
    rw [hfrac, hhz, UInt64.toNat_zero, Nat.zero_add] at hlaw
    rw [pulses, hzero, Nat.zero_add, countedMs, ← hlaw]
    omega

/-! ## How an interval is cut -/

theorem activeMs_append (cs ds : List Call) (s : SensorCt) (last : ℕ) :
    s.activeMs last (cs ++ ds) =
      s.activeMs last cs + (s.after cs).activeMs (endTime last cs) ds := by
  induction cs generalizing s last with
  | nil => exact (Nat.zero_add _).symm
  | cons c cs ih =>
    have h := ih (s.call c).2 c.time
    simp only [List.cons_append, activeMs, after, endTime, h, Nat.add_assoc]

theorem le_endTime {cs : List Call} {last : ℕ} (ht : Follows last cs) :
    last ≤ endTime last cs := by
  induction cs generalizing last with
  | nil => exact le_rfl
  | cons c cs ih => exact ht.1.1.trans (ih ht.2)

/-- Under a steady level the counted time is the length of the interval, or
nothing. -/
theorem activeMs_steady {b : Bool} {cs : List Call} {s : SensorCt} {last : ℕ}
    (hb : Steady b s cs) (ht : Follows last cs) :
    s.activeMs last cs = if b then endTime last cs - last else 0 := by
  induction cs generalizing s last with
  | nil => simp [activeMs, endTime]
  | cons c cs ih =>
    have hle := le_endTime ht.2
    have hc := ht.1.1
    rw [activeMs, ih hb.2 ht.2, hb.1, endTime]
    cases b
    · rfl
    · simp only [if_true]
      omega

theorem endTime_append (cs ds : List Call) (t : ℕ) :
    endTime t (cs ++ ds) = endTime (endTime t cs) ds := by
  induction cs generalizing t with
  | nil => rfl
  | cons c cs ih => exact ih c.time

theorem follows_append {cs ds : List Call} {last : ℕ} (h : Follows last (cs ++ ds)) :
    Follows (endTime last cs) ds := by
  induction cs generalizing last with
  | nil => exact h
  | cons c cs ih => exact ih h.2

/-- What a run counts, when a stretch of steady level ends it. -/
theorem countedMs_append {b : Bool} {s : SensorCt} {c : Call} {cs ds : List Call}
    (ht : Timely (c :: cs ++ ds)) (hb : Steady b (s.after (c :: cs)) ds) :
    s.countedMs (c :: cs ++ ds) = s.countedMs (c :: cs) +
      if b then endTime 0 (c :: cs ++ ds) - endTime 0 (c :: cs) else 0 := by
  have hrest := activeMs_steady hb (@follows_append cs _ _ ht)
  have happ := activeMs_append cs ds (s.call c).2 c.time
  rw [List.cons_append, countedMs, countedMs, happ, endTime, endTime, endTime_append]
  exact congrArg _ hrest

/-- **CT pulse accounting.**  The pulses returned so far are the whole part of the
rate times the counted milliseconds; and two ways to cut a stretch of steady level
into calls, behind the same run and up to the same time, count the same. -/
theorem ct_pulses_exact (pulseHz debounceMs : UInt32) (h : pulseHz ≤ 1000) (cs : List Call)
    (ht : Timely cs) :
    (make pulseHz debounceMs).pulses cs =
        pulseHz.toNat * (make pulseHz debounceMs).countedMs cs / 1000 ∧
      ∀ (b : Bool) (ds es : List Call), cs ≠ [] → Timely (cs ++ ds) → Timely (cs ++ es) →
        Steady b ((make pulseHz debounceMs).after cs) ds →
        Steady b ((make pulseHz debounceMs).after cs) es →
        endTime 0 (cs ++ ds) = endTime 0 (cs ++ es) →
        (make pulseHz debounceMs).pulses (cs ++ ds) =
          (make pulseHz debounceMs).pulses (cs ++ es) := by
  have hhz : pulseHz.toNat ≤ 1000 := UInt32.le_iff_toNat_le.mp h
  refine ⟨pulses_eq hhz ht, ?_⟩
  intro b ds es hne hds hes hd he hend
  obtain ⟨c, cs, rfl⟩ := List.exists_cons_of_ne_nil hne
  rw [pulses_eq hhz hds, pulses_eq hhz hes, countedMs_append hds hd, countedMs_append hes he, hend]

/-- Three pulses a second, a chatter shorter than the debounce time, and a blocking
gap across the clock's wraparound. -/
theorem ct_pulses_exact_wrap :
    (make 3 100).pulses [⟨true, 0⟩, ⟨false, 50⟩, ⟨true, 333⟩, ⟨true, 4294967400⟩] =
      3 * 4294967400 / 1000 := by
  have h := (ct_pulses_exact 3 100 (by decide)
    [⟨true, 0⟩, ⟨false, 50⟩, ⟨true, 333⟩, ⟨true, 4294967400⟩]
    ⟨by decide, by decide, by decide, trivial⟩).1
  have hms : (make 3 100).countedMs
      [⟨true, 0⟩, ⟨false, 50⟩, ⟨true, 333⟩, ⟨true, 4294967400⟩] = 4294967400 := by decide
  rw [h, hms]
  rfl

end SensorCt
end Monitor
end CovioFirmware
