import Mathlib.Logic.Function.Basic
import Mathlib.Data.Nat.Basic

/-!
# One record in two slots

A record that is too large to be replaced atomically is kept in two slots, and
writes alternate between them.  The record carries the number of its write;
record number `n` goes to the slot of its parity, and recovery takes the valid
slot with the larger number.  A write that is cut tears only the slot it was
writing, and that is never the slot of the last completed write.

`Last slot r` is the invariant: `r` is the last completely written record, it
stands in the slot of its parity, and the other slot is invalid or holds the
record before it.  `Last.recover` says recovery returns it, `Last.tear` that a
torn write leaves it the last one, `Last.write` that the next completed write
takes its place.

A slot is represented by what recovery can read from it: `none` when it is
missing or fails its checks.
-/

namespace CovioFirmware
namespace Crash
namespace PingPong

variable {R : Type} (num : R → ℕ) (zero : R)

/-- The slot of a write number: `true` is the odd one. -/
def parity (n : ℕ) : Bool := n % 2 = 1

theorem parity_succ (n : ℕ) : parity (n + 1) = !parity n := by
  unfold parity
  rcases Nat.mod_two_eq_zero_or_one n with h | h
  · have h' : (n + 1) % 2 = 1 := by omega
    simp [h, h']
  · have h' : (n + 1) % 2 = 0 := by omega
    simp [h, h']

/-- Recovery: the valid slot with the larger number, the odd slot on a tie. -/
def newest (a b : Option R) : Option R :=
  match a, b with
  | some a, some b => if num b ≤ num a then some a else some b
  | some a, none => some a
  | none, b => b

/-- Recovery with the value used when neither slot is valid. -/
def recover (slot : Bool → Option R) : R := (newest num (slot true) (slot false)).getD zero

/-- `r` is the last completely written record. -/
inductive Last (slot : Bool → Option R) : R → Prop where
  | blank : (∀ b, slot b = none) → Last slot zero
  | written {r : R} : slot (parity (num r)) = some r →
      (∀ r', slot (!parity (num r)) = some r' → num r' + 1 = num r) → Last slot r

variable {num zero}

theorem newest_eq_none {a b : Option R} : newest num a b = none ↔ a = none ∧ b = none := by
  cases a <;> cases b <;> simp only [newest]
  · simp
  · simp
  · simp
  · split <;> simp

/-- Recovery never makes a record up. -/
theorem newest_mem {a b : Option R} {r : R} (h : newest num a b = some r) :
    a = some r ∨ b = some r := by
  cases a with
  | none => exact .inr (by simpa [newest] using h)
  | some x =>
    cases b with
    | none => exact .inl (by simpa [newest] using h)
    | some y =>
      simp only [newest] at h
      split at h
      · exact .inl h
      · exact .inr h

/-- A record with a larger number than the other slot's is recovered. -/
theorem newest_of_gt {slot : Bool → Option R} {b : Bool} {r : R} (h : slot b = some r)
    (hgt : ∀ r', slot (!b) = some r' → num r' < num r) :
    newest num (slot true) (slot false) = some r := by
  cases b with
  | true =>
    cases hb : slot false with
    | none => rw [h]; rfl
    | some y =>
      have hlt := hgt y hb
      rw [h]
      exact if_pos (Nat.le_of_lt hlt)
  | false =>
    cases hb : slot true with
    | none => rw [h]; rfl
    | some y =>
      have hlt := hgt y hb
      rw [h]
      exact if_neg (by omega)

/-- **Recovery returns the last completely written record.** -/
theorem Last.recover {slot : Bool → Option R} {r : R} (h : Last num zero slot r) :
    recover num zero slot = r := by
  cases h with
  | blank hb => rw [PingPong.recover, hb true, hb false]; rfl
  | written hr ho =>
    rw [PingPong.recover, newest_of_gt hr fun r' hr' => by have := ho r' hr'; omega]
    rfl

/-- A torn write: the slot of the next number becomes unreadable. -/
theorem Last.tear {slot : Bool → Option R} {r : R} (h : Last num zero slot r) {b : Bool}
    (hb : b = parity (num r + 1)) : Last num zero (Function.update slot b none) r := by
  cases h with
  | blank h0 =>
    refine .blank fun b' => ?_
    by_cases hbb : b' = b
    · rw [hbb, Function.update_self]
    · rw [Function.update_of_ne hbb, h0]
  | written hr ho =>
    have hb' : b = !parity (num r) := hb.trans (parity_succ _)
    have hne : parity (num r) ≠ b := by rw [hb']; simp
    refine .written ?_ fun r' hr' => ?_
    · rw [Function.update_of_ne hne, hr]
    · rw [← hb', Function.update_self] at hr'
      cases hr'

/-- A completed write. -/
theorem Last.write {slot : Bool → Option R} {r r' : R} (h : Last num zero slot r)
    (hnum : num r' = num r + 1) {b : Bool} (hb : b = parity (num r')) :
    Last num zero (Function.update slot b (some r')) r' := by
  refine .written ?_ fun x hx => ?_
  · rw [← hb, Function.update_self]
  · have hne : (!parity (num r')) ≠ b := by rw [hb]; simp
    rw [Function.update_of_ne hne, hnum, parity_succ, Bool.not_not] at hx
    cases h with
    | blank hbl => rw [hbl] at hx; cases hx
    | written hr _ =>
      rw [hr] at hx
      rw [← Option.some.inj hx, hnum]

end PingPong
end Crash
end CovioFirmware
