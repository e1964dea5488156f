import Mathlib.Data.UInt

/-!
# `sensor_ct.h`

The acquisition path of a current-transformer build.  There is no pulse to count:
each call turns the milliseconds since the call before it into whole pulses, as
long as the debounced level says that current flows, and keeps what is left of a
pulse for the next call.
-/

namespace CovioFirmware
namespace Monitor

/-- The object's members. -/
structure SensorCt where
  pulseHz : UInt32
  debounceMs : UInt32
  initialized : Bool := false
  stable : Bool := false
  candidate : Bool := false
  candidateSinceMs : UInt32 := 0
  lastServiceMs : UInt32 := 0
  fracMilliPulses : UInt64 := 0
  deriving DecidableEq

namespace SensorCt

/-- The timing part of `service`: the clock of the last call, the raw level's own
clock, and the debounced level. -/
def debounce (s : SensorCt) (rawActive : Bool) (nowMs : UInt32) : SensorCt :=
  let s := { s with lastServiceMs := nowMs }
  let s := if rawActive ≠ s.candidate then
      { s with candidate := rawActive, candidateSinceMs := nowMs } else s
  if s.candidate ≠ s.stable ∧ s.debounceMs ≤ nowMs - s.candidateSinceMs then
    { s with stable := s.candidate } else s

/-- The counting part of `service`: whole pulses out, the remainder kept. -/
def integrate (s : SensorCt) (elapsedMs : UInt32) : UInt32 × SensorCt :=
  let frac := s.fracMilliPulses + elapsedMs.toUInt64 * s.pulseHz.toUInt64
  let whole := (frac / 1000).toUInt32
  (whole, { s with fracMilliPulses := frac - whole.toUInt64 * 1000 })

/-- `service`. -/
def service (s : SensorCt) (rawActive : Bool) (nowMs : UInt32) : UInt32 × SensorCt :=
  if ¬ s.initialized then
    (0, { s with
      initialized := true
      stable := rawActive
      candidate := rawActive
      candidateSinceMs := nowMs
      lastServiceMs := nowMs })
  else
    let elapsedMs := nowMs - s.lastServiceMs
    let s := s.debounce rawActive nowMs
    if ¬ s.stable then (0, s) else s.integrate elapsedMs

/-! ## What a call leaves alone -/

/-- The debouncing moves neither the settings nor the remainder, and notes the
time of the call. -/
theorem debounce_frame (s : SensorCt) (rawActive : Bool) (nowMs : UInt32) :
    (s.debounce rawActive nowMs).pulseHz = s.pulseHz ∧
      (s.debounce rawActive nowMs).initialized = s.initialized ∧
      (s.debounce rawActive nowMs).lastServiceMs = nowMs ∧
      (s.debounce rawActive nowMs).fracMilliPulses = s.fracMilliPulses := by
  simp only [debounce]
  split_ifs <;> exact ⟨rfl, rfl, rfl, rfl⟩

/-- The first call counts nothing. -/
theorem service_first {s : SensorCt} (h : s.initialized = false) (rawActive : Bool)
    (nowMs : UInt32) :
    (s.service rawActive nowMs).1 = 0 ∧
      (s.service rawActive nowMs).2.initialized = true ∧
      (s.service rawActive nowMs).2.pulseHz = s.pulseHz ∧
      (s.service rawActive nowMs).2.lastServiceMs = nowMs ∧
      (s.service rawActive nowMs).2.fracMilliPulses = s.fracMilliPulses := by
  simp [service, h]

/-- The integral in exact arithmetic.  A remainder below one pulse, a rate of at
most 1000 pulses a second and an interval on the 32-bit clock leave the 64-bit sum
and the 32-bit count of whole pulses exact. -/
theorem integrate_exact {s : SensorCt} (hf : s.fracMilliPulses.toNat < 1000)
    (hz : s.pulseHz.toNat ≤ 1000) (elapsedMs : UInt32) :
    (s.integrate elapsedMs).1.toNat =
        (s.fracMilliPulses.toNat + elapsedMs.toNat * s.pulseHz.toNat) / 1000 ∧
      (s.integrate elapsedMs).2.fracMilliPulses.toNat =
        (s.fracMilliPulses.toNat + elapsedMs.toNat * s.pulseHz.toNat) % 1000 := by
  have hprod : elapsedMs.toNat * s.pulseHz.toNat ≤ (2 ^ 32 - 1) * 1000 :=
    Nat.mul_le_mul (by have := elapsedMs.toNat_lt; omega) hz
  have hk : (1000 : UInt64).toNat = 1000 := rfl
  have hsum : (s.fracMilliPulses + elapsedMs.toUInt64 * s.pulseHz.toUInt64).toNat =
      s.fracMilliPulses.toNat + elapsedMs.toNat * s.pulseHz.toNat := by
    simp only [UInt64.toNat_add, UInt64.toNat_mul, UInt32.toNat_toUInt64]
    omega
  have hwhole : (s.integrate elapsedMs).1.toNat =
      (s.fracMilliPulses.toNat + elapsedMs.toNat * s.pulseHz.toNat) / 1000 := by
    simp only [integrate, UInt64.toNat_toUInt32, UInt64.toNat_div, hsum, hk]
    omega
  refine ⟨hwhole, ?_⟩
  have hle : (s.integrate elapsedMs).1.toUInt64 * 1000 ≤
      s.fracMilliPulses + elapsedMs.toUInt64 * s.pulseHz.toUInt64 := by
    rw [UInt64.le_iff_toNat_le, UInt64.toNat_mul, UInt32.toNat_toUInt64, hsum, hwhole, hk]
    omega
  have hsub : (s.integrate elapsedMs).2.fracMilliPulses =
      s.fracMilliPulses + elapsedMs.toUInt64 * s.pulseHz.toUInt64 -
        (s.integrate elapsedMs).1.toUInt64 * 1000 := rfl
  rw [hsub, UInt64.toNat_sub_of_le _ _ hle, UInt64.toNat_mul, UInt32.toNat_toUInt64, hsum, hwhole,
    hk]
  omega

end SensorCt

end Monitor
end CovioFirmware
