import Mathlib.Data.UInt

/-!
# The uptime clock

`millis()` is a clock of milliseconds read in 32 bits.  The difference of two readings
is the true time between them, less the whole turns of the clock.
-/

namespace CovioFirmware
namespace Uptime

variable {a b : ℕ}

/-- The difference of two readings. -/
theorem toNat_sub (h : a ≤ b) :
    (UInt32.ofNat b - UInt32.ofNat a).toNat = (b - a) % 2 ^ 32 := by
  rw [← UInt32.ofNat_sub h, UInt32.toNat_ofNat']

/-- Less than a turn apart it is the true time. -/
theorem toNat_sub_of_lt (h : a ≤ b) (hlt : b < a + 2 ^ 32) :
    (UInt32.ofNat b - UInt32.ofNat a).toNat = b - a := by
  rw [toNat_sub h]
  exact Nat.mod_eq_of_lt (by omega)

/-- A threshold on the difference is one on the time less whole turns. -/
theorem le_sub_iff (h : a ≤ b) (threshold : UInt32) :
    threshold ≤ UInt32.ofNat b - UInt32.ofNat a ↔ threshold.toNat ≤ (b - a) % 2 ^ 32 := by
  rw [UInt32.le_iff_toNat_le, toNat_sub h]

end Uptime
end CovioFirmware
