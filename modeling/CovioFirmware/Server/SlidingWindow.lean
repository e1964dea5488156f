import Mathlib.Algebra.Order.Group.Defs
import Mathlib.Data.List.TakeWhile

/-!
# A sliding window over a bounded deque

A limiter that keeps the times of the last failures in a deque of bounded length.  Old
times are dropped only when the next attempt is checked, and only at the front; so
between two checks the deque says nothing by itself.  What it means is a statement
about all the times ever pushed (`Holds`): those missing from it are out of the
window.  From this, what a check leaves in the deque are the recent ones among all
the times (`Holds.expire_eq`).
-/

namespace CovioFirmware
namespace SlidingWindow

variable {α : Type} [AddCommGroup α] [LinearOrder α]

/-- `while q and now - q[0] > w: q.popleft()`. -/
def expire (w now : α) (q : List α) : List α := q.dropWhile fun t => w < now - t

/-- `q.append(t)` on a `deque(maxlen=m)`. -/
def push (m : ℕ) (t : α) (q : List α) : List α := (q ++ [t]).drop (q.length + 1 - m)

/-- The times not longer ago than the window. -/
def recent (w now : α) (times : List α) : List α := times.filter fun t => now - t ≤ w

/-- The deque is what the times pushed so far leave in it: those missing are out of the
window, seen from the last reading of the clock. -/
structure Holds (w clock : α) (times q : List α) : Prop where
  sorted : times.Pairwise (· ≤ ·)
  past : ∀ t ∈ times, t ≤ clock
  dropped : ∃ old, times = old ++ q ∧ ∀ t ∈ old, w < clock - t

variable {w clock now t : α} {times q : List α} {m : ℕ}

theorem Holds.nil : Holds w clock [] [] :=
  ⟨.nil, by simp, [], rfl, by simp⟩

omit [AddCommGroup α] [LinearOrder α] in
theorem push_of_lt (h : q.length < m) : push m t q = q ++ [t] := by
  rw [push, Nat.sub_eq_zero_of_le h, List.drop_zero]

variable [IsOrderedAddMonoid α]

/-- Time passes. -/
theorem Holds.mono (h : Holds w clock times q) (hclock : clock ≤ now) : Holds w now times q := by
  obtain ⟨old, hold, hfar⟩ := h.dropped
  refine ⟨h.sorted, fun t ht => (h.past t ht).trans hclock, old, hold, fun t ht => ?_⟩
  exact (hfar t ht).trans_le (sub_le_sub_right hclock t)

/-- **What a check leaves** are the recent times among all that were pushed. -/
theorem Holds.expire_eq (h : Holds w now times q) : expire w now q = recent w now times := by
  obtain ⟨old, rfl, hfar⟩ := h.dropped
  have hold : recent w now old = [] := by
    rw [recent, List.filter_eq_nil_iff]
    exact fun t ht => by simpa only [decide_eq_true_eq, not_le] using hfar t ht
  have hsorted : q.Pairwise (· ≤ ·) := (List.pairwise_append.mp h.sorted).2.1
  have hq : expire w now q = recent w now q := by
    clear h hfar hold
    induction q with
    | nil => rfl
    | cons t q ih =>
      rw [List.pairwise_cons] at hsorted
      by_cases ht : w < now - t
      · have hnot : ¬ now - t ≤ w := not_le.mpr ht
        rw [expire, List.dropWhile_cons_of_pos (by simpa using ht), recent,
          List.filter_cons_of_neg (by simpa using hnot)]
        exact ih hsorted.2
      · -- the first time left is recent, and those behind it are more so
        have hall : ∀ u ∈ t :: q, now - u ≤ w := by
          intro u hu
          rcases List.mem_cons.mp hu with rfl | hu
          · exact not_lt.mp ht
          · exact (sub_le_sub_left (hsorted.1 u hu) now).trans (not_lt.mp ht)
        rw [expire, List.dropWhile_cons_of_neg (by simpa using ht), recent,
          List.filter_eq_self.mpr fun u hu => by simpa using hall u hu]
  rw [hq, recent, recent, List.filter_append]
  rw [recent] at hold
  rw [hold, List.nil_append]

/-- A check keeps the meaning of the deque. -/
theorem Holds.expire (h : Holds w clock times q) (hclock : clock ≤ now) :
    Holds w now times (expire w now q) := by
  have hnow := h.mono hclock
  obtain ⟨old, hold, hfar⟩ := hnow.dropped
  refine ⟨h.sorted, hnow.past, old ++ q.takeWhile fun t => w < now - t, ?_, fun t ht => ?_⟩
  · rw [SlidingWindow.expire, List.append_assoc, List.takeWhile_append_dropWhile]
    exact hold
  · rcases List.mem_append.mp ht with ht | ht
    · exact hfar t ht
    · simpa using List.mem_takeWhile_imp ht

/-- A new time is pushed while there is room. -/
theorem Holds.push (h : Holds w clock times q) (hclock : clock ≤ t) (hroom : q.length < m) :
    Holds w t (times ++ [t]) (push m t q) := by
  have hnow := h.mono hclock
  obtain ⟨old, hold, hfar⟩ := hnow.dropped
  refine ⟨?_, ?_, old, ?_, hfar⟩
  · rw [List.pairwise_append]
    refine ⟨h.sorted, List.pairwise_singleton _ _, fun u hu v hv => ?_⟩
    rw [List.mem_singleton.mp hv]
    exact hnow.past u hu
  · intro u hu
    rcases List.mem_append.mp hu with hu | hu
    · exact hnow.past u hu
    · exact (List.mem_singleton.mp hu).le
  · rw [push_of_lt hroom, ← List.append_assoc, hold]

end SlidingWindow
end CovioFirmware
