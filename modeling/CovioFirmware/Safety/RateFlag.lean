import CovioFirmware.Device.Loop
import CovioFirmware.Monitor.PulsePlausibility
import CovioFirmware.Monitor.SensorHealth

/-!
# The rate flag in the telemetry cycle

`loop()` hands the configured ceiling to the rate monitor in every telemetry
cycle, so that a change made on the console takes effect at once, and asks it for
its verdict right after.  `setMaxHz` empties the monitor's streak, so no cycle
ever finds a streak behind it: the flag, which needs three readings in a row,
never comes up (`suspect_stamp`), and no row carries `QUALITY_SUSPECT_RATE`
(`quality_rows`).

A row is due for the flag from the third over-ceiling cycle in a row until five
normal cycles in a row have followed (`Due`).  The rows that are due are marked
exactly in the runs in which no row is due, that is, in which the rate never stays
above the ceiling for three cycles (`rate_flag_iff`).
-/

namespace CovioFirmware
namespace Device

open Monitor

/-- `QUALITY_SUSPECT_RATE`. -/
def qualitySuspectRate : UInt16 := 4

/-- `QUALITY_SENSOR_SUSPECT`. -/
def qualitySensorSuspect : UInt16 := 8

/-- The two monitors of the wire-drawing profile. -/
structure Miki where
  pulsePlausibility : PulsePlausibilityMonitor
  sensorHealth : SensorHealthMonitor

/-- What one telemetry cycle reads: the lifetime total, the uptime, the silence
the console allows the sensor, and what else goes into the row. -/
structure Cycle where
  total : UInt64
  now : UInt32
  suspectGapS : UInt32
  rssiAbs : UInt16
  bootId : UInt32
  seq : UInt32
  backlogHigh : Bool

namespace Miki

/-- The monitors as `setup()` leaves them: built disabled, then armed. -/
def armed (maxHz suspectGapS : UInt32) : Miki where
  pulsePlausibility := PulsePlausibilityMonitor.setMaxHz { maxHz := 0 } maxHz
  sensorHealth := SensorHealthMonitor.setSuspectThresholdMs
    { suspectThresholdMs := 0 } (suspectGapS * 1000)

/-- The live reload and the two updates of a telemetry cycle. -/
def reload (m : Miki) (maxHz : UInt32) (c : Cycle) : Miki where
  pulsePlausibility := (m.pulsePlausibility.setMaxHz maxHz).update c.total c.now
  sensorHealth :=
    (m.sensorHealth.setSuspectThresholdMs (c.suspectGapS * 1000)).update c.total c.now

/-- The advisory bits the monitors' verdicts set. -/
def qualityBits (m : Miki) : UInt16 :=
  (if m.pulsePlausibility.suspect then qualitySuspectRate else 0) |||
    (if m.sensorHealth.state = .suspect then qualitySensorSuspect else 0)

/-- The row of a cycle, as it is appended. -/
def row (m : Miki) (c : Cycle) : QRow :=
  telemetryBuild ⟨c.now / 1000, c.rssiAbs, m.qualityBits⟩ c.bootId c.total c.seq c.backlogHigh

/-- The rows appended in a run of cycles under one configured ceiling. -/
def rows (maxHz : UInt32) : Miki → List Cycle → List QRow
  | _, [] => []
  | m, c :: cs =>
      let m := m.reload maxHz c
      m.row c :: rows maxHz m cs

end Miki

/-- The row carries `QUALITY_SUSPECT_RATE`. -/
def QRow.SuspectRate (r : QRow) : Prop := r.quality &&& qualitySuspectRate ≠ 0

instance (r : QRow) : Decidable r.SuspectRate := inferInstanceAs (Decidable (_ ≠ _))

/-! ## When the flag is due -/

/-- Between the cycles `a` and `b` time has passed and the rate was above the
ceiling. -/
def Cycle.Over (maxHz : UInt32) (a b : Cycle) : Prop :=
  b.now - a.now ≠ 0 ∧ maxHz < pulseHz a.total b.total (b.now - a.now)

/-- Between the cycles `a` and `b` time has passed and the rate was not above the
ceiling. -/
def Cycle.Normal (maxHz : UInt32) (a b : Cycle) : Prop :=
  b.now - a.now ≠ 0 ∧ ¬ maxHz < pulseHz a.total b.total (b.now - a.now)

/-- Cycle `i` of a run has a predecessor, and the two satisfy `P`. -/
def AtCycle (P : Cycle → Cycle → Prop) (cs : List Cycle) (i : ℕ) : Prop :=
  ∃ k a b, i = k + 1 ∧ cs[k]? = some a ∧ cs[k + 1]? = some b ∧ P a b

/-- Cycles `i`, `i + 1`, `i + 2` of the run are above the ceiling. -/
def Sustained (maxHz : UInt32) (cs : List Cycle) (i : ℕ) : Prop :=
  ∀ n < 3, AtCycle (Cycle.Over maxHz) cs (i + n)

/-- The row of cycle `i` has to be flagged: a third over-ceiling cycle in a row
has been reached, and five normal cycles in a row have not followed it yet. -/
def Due (maxHz : UInt32) (cs : List Cycle) (i : ℕ) : Prop :=
  ∃ j, j + 2 ≤ i ∧ Sustained maxHz cs j ∧
    ¬ ∃ k, j + 2 < k ∧ k + 4 ≤ i ∧ ∀ n < 5, AtCycle (Cycle.Normal maxHz) cs (k + n)

/-! ## The flag never comes up -/

namespace Miki

theorem suspect_armed (maxHz suspectGapS : UInt32) :
    (armed maxHz suspectGapS).pulsePlausibility.suspect = false := by
  simp only [armed, PulsePlausibilityMonitor.setMaxHz, ite_self]

/-- A cycle that starts with the flag down ends with it down. -/
theorem suspect_reload {m : Miki} (h : m.pulsePlausibility.suspect = false) (maxHz : UInt32)
    (c : Cycle) : (m.reload maxHz c).pulsePlausibility.suspect = false :=
  PulsePlausibilityMonitor.suspect_update_setMaxHz h maxHz c.total c.now

theorem not_suspectRate_row {m : Miki} (h : m.pulsePlausibility.suspect = false) (c : Cycle) :
    ¬ (m.row c).SuspectRate := by
  have hbits : m.qualityBits =
      if m.sensorHealth.state = .suspect then qualitySensorSuspect else 0 := by
    rw [qualityBits, h]
    exact UInt16.zero_or
  have hq : (m.row c).quality = (if c.backlogHigh then 1 else 0) ||| m.qualityBits := rfl
  rw [QRow.SuspectRate, hq, hbits]
  cases c.backlogHigh <;> by_cases hs : m.sensorHealth.state = .suspect <;> simp only [hs] <;>
    decide

/-- **No row of any run is flagged.** -/
theorem not_suspectRate_rows {m : Miki} (h : m.pulsePlausibility.suspect = false)
    (maxHz : UInt32) (cs : List Cycle) : ∀ r ∈ m.rows maxHz cs, ¬ r.SuspectRate := by
  induction cs generalizing m with
  | nil => exact fun r hr => absurd hr List.not_mem_nil
  | cons c cs ih =>
    have hc := suspect_reload h maxHz c
    intro r hr
    rcases List.mem_cons.mp hr with rfl | hr
    · exact not_suspectRate_row hc c
    · exact ih hc r hr

theorem length_rows (m : Miki) (maxHz : UInt32) (cs : List Cycle) :
    (m.rows maxHz cs).length = cs.length := by
  induction cs generalizing m with
  | nil => rfl
  | cons c cs ih =>
    have h := ih (m.reload maxHz c)
    simp only [rows, List.length_cons, h]

end Miki

/-- A cycle that satisfies a condition with its predecessor is a cycle of the
run. -/
theorem AtCycle.lt {P : Cycle → Cycle → Prop} {cs : List Cycle} {i : ℕ} (h : AtCycle P cs i) :
    i < cs.length := by
  obtain ⟨k, a, b, rfl, -, hb, -⟩ := h
  exact (List.getElem?_eq_some_iff.mp hb).1

/-- **The rate flag.**  In a run of telemetry cycles under one configured ceiling,
every row that is due for `QUALITY_SUSPECT_RATE` carries it exactly when the rate
is never above the ceiling in three cycles in a row. -/
theorem rate_flag_iff (maxHz suspectGapS : UInt32) (cs : List Cycle) :
    (∀ (i : ℕ) (r : QRow), ((Miki.armed maxHz suspectGapS).rows maxHz cs)[i]? = some r →
      Due maxHz cs i → r.SuspectRate) ↔ ∀ j, ¬ Sustained maxHz cs j := by
  have hnone := Miki.not_suspectRate_rows (Miki.suspect_armed maxHz suspectGapS) maxHz cs
  constructor
  · intro h j hj
    -- the row of the third over-ceiling cycle is due
    have hlt : j + 2 < ((Miki.armed maxHz suspectGapS).rows maxHz cs).length := by
      rw [Miki.length_rows]
      exact (hj 2 (by omega)).lt
    refine hnone _ (List.getElem_mem hlt) (h (j + 2) _ (List.getElem?_eq_getElem hlt) ?_)
    refine ⟨j, le_rfl, hj, ?_⟩
    rintro ⟨k, hk, hk', -⟩
    omega
  · rintro h i r - ⟨j, -, hj, -⟩
    exact absurd hj (h j)

/-- A run of four cycles at 900 pulses a second under a ceiling of 500: the row of
the last one is due and not flagged. -/
theorem third_over_row_not_flagged :
    let cycle (n : ℕ) : Cycle := ⟨900 * .ofNat n, 1000 * .ofNat n, 0, 0, 1, .ofNat n, false⟩
    let cs := (List.range 4).map cycle
    ∃ r, ((Miki.armed 500 0).rows 500 cs)[3]? = some r ∧ Due 500 cs 3 ∧ ¬ r.SuspectRate := by
  refine ⟨_, rfl, ⟨1, le_rfl, ?_, ?_⟩, by decide⟩
  · intro n hn
    obtain rfl | rfl | rfl : n = 0 ∨ n = 1 ∨ n = 2 := by omega
    · exact ⟨0, _, _, rfl, rfl, rfl, by decide, by decide⟩
    · exact ⟨1, _, _, rfl, rfl, rfl, by decide, by decide⟩
    · exact ⟨2, _, _, rfl, rfl, rfl, by decide, by decide⟩
  · rintro ⟨k, hk, hk', -⟩
    omega

end Device
end CovioFirmware
