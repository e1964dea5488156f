import CovioFirmware.Monitor.PulsePlausibility

/-!
# The hysteresis of the rate monitor

The monitor counts two streaks in eight bits.  One counts the readings above the
ceiling, and goes on counting and wraps while the flag is up; the other counts normal
readings, and only while the flag is up.  `reference` keeps the whole history instead:
the third reading in a row above the ceiling raises the flag, the fifth in a row at or
below it takes it down.  `suspect_eq_reference` shows that the two agree after every
call, however long the run.

A call at the tick of the one before is no reading, and what it was handed is measured
with the next one: the increment that has to stay below 2^22 is the one since the last
reading.  If it is bounded from call to call only, calls at one tick add up to a rate
that 32 bits do not hold (`rate_wraps`).
-/

namespace CovioFirmware
namespace Monitor
namespace PulsePlausibilityMonitor

/-- What one call of `update` is handed. -/
structure Call where
  total : UInt64
  nowMs : UInt32

/-- The calls from a fresh monitor on. -/
def run (maxHz : UInt32) (calls : List Call) : PulsePlausibilityMonitor :=
  calls.foldl (fun m c => m.update c.total c.nowMs) { maxHz := maxHz }

/-! ## The reference machine -/

/-- What an effective call measures: pulses and milliseconds since the last one. -/
structure Reading where
  delta : ℕ
  dtMs : ℕ

/-- The reading of a call, `last` being the effective call before it. -/
def reading (last c : Call) : Reading where
  delta := c.total.toNat - last.total.toNat
  dtMs := (c.nowMs - last.nowMs).toNat

/-- The readings of the calls behind `last`, in order. -/
def readingsFrom : Call → List Call → List Reading
  | _, [] => []
  | last, c :: cs =>
      if (reading last c).dtMs = 0 then readingsFrom last cs
      else reading last c :: readingsFrom c cs

/-- The readings of a run; its first call only sets the base. -/
def readings : List Call → List Reading
  | [] => []
  | first :: cs => readingsFrom first cs

/-- The rate of a reading is above the ceiling. -/
def Reading.isAbove (maxHz : UInt32) (r : Reading) : Bool :=
  decide (maxHz.toNat < 1000 * r.delta / r.dtMs)

/-- The reference machine on the readings so far, the latest first: for each, whether it
was above the ceiling. -/
def reference : List Bool → Bool
  | [] => false
  | true :: h => reference h || decide (2 ≤ (h.takeWhile id).length)
  | false :: h => reference h && decide ((h.takeWhile not).length < 4)

/-! ## The streaks -/

/-- The monitor behind a history: the flag of the reference machine, and the streak
that can change it. -/
structure Follows (m : PulsePlausibilityMonitor) (h : List Bool) : Prop where
  suspect : m.suspect = reference h
  above : m.suspect = false →
    m.overStreak.toNat = (h.takeWhile id).length ∧ m.overStreak.toNat < 3
  normal : m.suspect = true →
    m.normalStreak.toNat = (h.takeWhile not).length ∧ m.normalStreak.toNat < 5

theorem toNat_succ_of_lt {x : UInt8} (h : x.toNat < 5) : (x + 1).toNat = x.toNat + 1 := by
  rw [UInt8.toNat_add]
  exact Nat.mod_eq_of_lt (by change x.toNat + 1 < 256; omega)

/-- A reading above the ceiling. -/
theorem Follows.judge_above {m : PulsePlausibilityMonitor} {h : List Bool} (hm : m.Follows h)
    {hz : UInt32} (hover : m.maxHz < hz) : (m.judge hz).Follows (true :: h) := by
  unfold PulsePlausibilityMonitor.judge
  rw [if_pos hover]
  cases hs : m.suspect with
  | true =>
    refine ⟨?_, fun hnew => ?_, fun _ => ⟨rfl, Nat.zero_lt_succ _⟩⟩
    · rw [reference, ← hm.suspect, hs]
      rfl
    · exact absurd hnew Bool.noConfusion
  | false =>
    obtain ⟨hstreak, hlt⟩ := hm.above hs
    have hsucc := toNat_succ_of_lt (hlt.trans (by omega))
    have hthird : (3 : UInt8) ≤ m.overStreak + 1 ↔ 2 ≤ (h.takeWhile id).length := by
      rw [UInt8.le_iff_toNat_le, hsucc, ← hstreak]
      show 3 ≤ _ ↔ _
      omega
    refine ⟨?_, fun hnew => ?_, fun _ => ⟨rfl, Nat.zero_lt_succ _⟩⟩
    · rw [reference, ← hm.suspect, hs]
      exact decide_eq_decide.mpr hthird
    · have hstill : ¬ 2 ≤ (h.takeWhile id).length := fun hle =>
        of_decide_eq_false (p := (3 : UInt8) ≤ m.overStreak + 1) hnew (hthird.mpr hle)
      refine ⟨?_, ?_⟩
      · show (m.overStreak + 1).toNat = _
        rw [hsucc, hstreak]
        rfl
      · show (m.overStreak + 1).toNat < 3
        omega

/-- A reading at or below the ceiling. -/
theorem Follows.judge_normal {m : PulsePlausibilityMonitor} {h : List Bool} (hm : m.Follows h)
    {hz : UInt32} (hover : ¬ m.maxHz < hz) : (m.judge hz).Follows (false :: h) := by
  unfold PulsePlausibilityMonitor.judge
  rw [if_neg hover]
  cases hs : m.suspect with
  | true =>
    obtain ⟨hstreak, hlt⟩ := hm.normal hs
    have hsucc := toNat_succ_of_lt hlt
    have hfifth : m.normalStreak + 1 < 5 ↔ (h.takeWhile not).length < 4 := by
      rw [UInt8.lt_iff_toNat_lt, hsucc, ← hstreak]
      show _ < 5 ↔ _
      omega
    rw [if_pos rfl]
    refine ⟨?_, fun _ => ⟨rfl, Nat.zero_lt_succ _⟩, fun hnew => ?_⟩
    · rw [reference, ← hm.suspect, hs]
      exact decide_eq_decide.mpr hfifth
    · have hstill := hfifth.mp (of_decide_eq_true hnew)
      refine ⟨?_, ?_⟩
      · show (m.normalStreak + 1).toNat = _
        rw [hsucc, hstreak]
        rfl
      · show (m.normalStreak + 1).toNat < 5
        omega
  | false =>
    rw [if_neg Bool.false_ne_true]
    refine ⟨?_, fun _ => ⟨rfl, Nat.zero_lt_succ _⟩, fun hnew => ?_⟩
    · rw [reference, ← hm.suspect, hs]
      rfl
    · exact absurd hnew Bool.false_ne_true

theorem Follows.judge {m : PulsePlausibilityMonitor} {h : List Bool} (hm : m.Follows h)
    (hz : UInt32) : (m.judge hz).Follows (decide (m.maxHz < hz) :: h) := by
  by_cases hover : m.maxHz < hz
  · rw [decide_eq_true hover]
    exact hm.judge_above hover
  · rw [decide_eq_false hover]
    exact hm.judge_normal hover

/-! ## The run -/

/-- The pulses of a reading, as `update` subtracts them. -/
theorem toNat_delta (last total : UInt64) :
    (if last ≤ total then total - last else 0).toNat = total.toNat - last.toNat := by
  by_cases hle : last ≤ total
  · rw [if_pos hle, UInt64.toNat_sub_of_le _ _ hle]
  · rw [if_neg hle]
    have hlt := UInt64.lt_iff_toNat_lt.mp (UInt64.not_le.mp hle)
    show 0 = _
    omega

/-- The rate of a reading; it fits into 32 bits. -/
theorem toNat_pulseHz {last c : Call} (hdelta : (reading last c).delta < 2 ^ 22) :
    (pulseHz last.total c.total (c.nowMs - last.nowMs)).toNat =
      1000 * (reading last c).delta / (reading last c).dtMs := by
  unfold pulseHz
  have hd : (if last.total ≤ c.total then c.total - last.total else 0).toNat =
      (reading last c).delta := toNat_delta _ _
  generalize (if last.total ≤ c.total then c.total - last.total else 0) = delta at hd
  have hprod : (delta * 1000).toNat = 1000 * (reading last c).delta := by
    rw [UInt64.toNat_mul, hd, Nat.mul_comm]
    exact Nat.mod_eq_of_lt (by change 1000 * _ < 2 ^ 64; omega)
  have hquot : 1000 * (reading last c).delta / (reading last c).dtMs < 2 ^ 32 :=
    (Nat.div_le_self _ _).trans_lt (by omega)
  rw [UInt64.toNat_toUInt32, UInt64.toNat_div, hprod, UInt32.toNat_toUInt64]
  exact Nat.mod_eq_of_lt hquot

/-- The monitor behind a run: it holds the last effective call, and follows the
readings. -/
structure Tracks (maxHz : UInt32) (m : PulsePlausibilityMonitor) (last : Call) (h : List Bool) :
    Prop where
  maxHz_eq : m.maxHz = maxHz
  initialized : m.initialized = true
  lastTotal : m.lastTotal = last.total
  lastMs : m.lastMs = last.nowMs
  follows : m.Follows h

section

variable {maxHz : UInt32} {m : PulsePlausibilityMonitor} {last c : Call} {h : List Bool}

theorem Tracks.judge (hm : Tracks maxHz m last h) (hz : UInt32) :
    Tracks maxHz (m.judge hz) last (decide (m.maxHz < hz) :: h) := by
  have hkeep : (m.judge hz).maxHz = m.maxHz ∧ (m.judge hz).initialized = m.initialized ∧
      (m.judge hz).lastTotal = m.lastTotal ∧ (m.judge hz).lastMs = m.lastMs := by
    unfold PulsePlausibilityMonitor.judge
    split
    · exact ⟨rfl, rfl, rfl, rfl⟩
    · split <;> exact ⟨rfl, rfl, rfl, rfl⟩
  exact ⟨hkeep.1.trans hm.maxHz_eq, hkeep.2.1.trans hm.initialized,
    hkeep.2.2.1.trans hm.lastTotal, hkeep.2.2.2.trans hm.lastMs, hm.follows.judge hz⟩

/-- A call at the tick of the last effective one has no effect. -/
theorem Tracks.update_same (hm : Tracks maxHz m last h) (hdt : (reading last c).dtMs = 0) :
    m.update c.total c.nowMs = m := by
  have hzero : c.nowMs - m.lastMs = 0 := by
    rw [hm.lastMs]
    exact UInt32.toNat_inj.mp hdt
  unfold PulsePlausibilityMonitor.update
  rw [if_neg (not_not_intro hm.initialized)]
  exact if_pos hzero

/-- An effective call is one reading. -/
theorem Tracks.update (hm : Tracks maxHz m last h) (hmax : maxHz ≠ 0)
    (hdt : (reading last c).dtMs ≠ 0) (hdelta : (reading last c).delta < 2 ^ 22) :
    Tracks maxHz (m.update c.total c.nowMs) c ((reading last c).isAbove maxHz :: h) := by
  have hne : c.nowMs - m.lastMs ≠ 0 := by
    rw [hm.lastMs]
    exact fun hzero => hdt (congrArg UInt32.toNat hzero)
  have hmax' : m.maxHz ≠ 0 := hm.maxHz_eq ▸ hmax
  have hover : decide (m.maxHz < pulseHz m.lastTotal c.total (c.nowMs - m.lastMs)) =
      (reading last c).isAbove maxHz := by
    rw [hm.maxHz_eq, hm.lastTotal, hm.lastMs]
    refine decide_eq_decide.mpr ?_
    rw [UInt32.lt_iff_toNat_lt, toNat_pulseHz hdelta]
  rw [← hover]
  unfold PulsePlausibilityMonitor.update
  rw [if_neg (not_not_intro hm.initialized)]
  simp only
  rw [if_neg hne, if_neg hmax']
  generalize pulseHz m.lastTotal c.total (c.nowMs - m.lastMs) = hz
  have hbase : Tracks maxHz { m with
      lastTotal := c.total
      lastMs := c.nowMs
      peakHz := if m.peakHz < hz then hz else m.peakHz } c h :=
    ⟨hm.maxHz_eq, hm.initialized, rfl, rfl,
      hm.follows.suspect, hm.follows.above, hm.follows.normal⟩
  exact hbase.judge hz

/-- The calls behind an effective one. -/
theorem Tracks.suspect_run (hmax : maxHz ≠ 0) (cs : List Call) (hm : Tracks maxHz m last h)
    (hsmall : ∀ r ∈ readingsFrom last cs, r.delta < 2 ^ 22) :
    (cs.foldl (fun m c => m.update c.total c.nowMs) m).suspect =
      reference (((readingsFrom last cs).map (·.isAbove maxHz)).reverse ++ h) := by
  induction cs generalizing m last h with
  | nil => exact hm.follows.suspect
  | cons c cs ih =>
    rw [List.foldl_cons]
    unfold readingsFrom at hsmall ⊢
    by_cases hdt : (reading last c).dtMs = 0
    · rw [if_pos hdt] at hsmall ⊢
      rw [hm.update_same hdt]
      exact ih hm hsmall
    · rw [if_neg hdt] at hsmall ⊢
      obtain ⟨hdelta, hrest⟩ := List.forall_mem_cons.mp hsmall
      rw [ih (hm.update hmax hdt hdelta) hrest, List.map_cons, List.reverse_cons,
        List.append_assoc]
      rfl

end

/-- **The monitor is the reference machine**, for every ceiling and every run of calls
in which fewer than 2^22 pulses come in between two effective ones. -/
theorem suspect_eq_reference (maxHz : UInt32) (hmax : maxHz ≠ 0) (calls : List Call)
    (hsmall : ∀ r ∈ readings calls, r.delta < 2 ^ 22) :
    (run maxHz calls).suspect = reference ((readings calls).map (·.isAbove maxHz)).reverse := by
  cases calls with
  | nil => rfl
  | cons first cs =>
    have hfirst : Tracks maxHz
        (PulsePlausibilityMonitor.update { maxHz := maxHz } first.total first.nowMs) first [] :=
      ⟨rfl, rfl, rfl, rfl, rfl, fun _ => ⟨rfl, Nat.zero_lt_succ _⟩, fun hs => absurd hs
        Bool.false_ne_true⟩
    refine (hfirst.suspect_run hmax cs hsmall).trans ?_
    rw [List.append_nil]
    rfl

/-- Three seconds of 600 pulses against a ceiling of 500 Hz raise the flag. -/
theorem suspect_third_reading :
    (run 500 [⟨0, 0⟩, ⟨600, 1000⟩, ⟨1200, 2000⟩, ⟨1800, 3000⟩]).suspect = true :=
  (suspect_eq_reference 500 (by decide) _ (by decide)).trans (by decide)

/-- The increments from call to call are below 2^22. -/
def Increments (calls : List Call) : Prop :=
  calls.IsChain fun a b => (reading a b).delta < 2 ^ 22

/-- Two calls at one tick, each within its increment: the third reading in a row above
the ceiling wraps, and the flag stays down. -/
theorem rate_wraps :
    ¬ ∀ (maxHz : UInt32) (calls : List Call), maxHz ≠ 0 → Increments calls →
      (run maxHz calls).suspect = reference ((readings calls).map (·.isAbove maxHz)).reverse := by
  intro h
  have hcalls := h 4100000000
    [⟨0, 0⟩, ⟨4194303, 1⟩, ⟨8388606, 2⟩, ⟨12582909, 2⟩, ⟨16777212, 3⟩] (by decide)
    (by unfold Increments; decide)
  exact absurd hcalls (by decide)

end PulsePlausibilityMonitor
end Monitor
end CovioFirmware
