import Mathlib.Data.List.GetD
import Mathlib.Logic.Function.Iterate

/-!
# Linear feedback shift registers

A register of `w` bits takes a message bit into its lowest position and then moves
down one place, adding the feedback `p` where the bit that falls out is set.  This is
the division of a reflected cyclic redundancy check, one bit at a time.

Moving down is linear, and injective as soon as the top bit of `p` is set: that bit
tells whether the feedback was added.  Up to `w` message bits can be put into the
register at once (`run_eq_iterate`), since a bit at position `i` reaches the bottom
after `i` moves without meeting the feedback.  So two messages that differ only inside
a window of `w` bits leave the register in different states (`run_ne`).
-/

namespace CovioFirmware
namespace ShiftRegister

variable {w : ℕ}

/-- One move down. -/
def shift (p c : BitVec w) : BitVec w :=
  (c >>> 1) ^^^ if c.getLsbD 0 then p else 0#w

/-- A message bit at the lowest position. -/
def bit (b : Bool) : BitVec w := (BitVec.ofBool b).setWidth w

/-- One message bit. -/
def feed (p c : BitVec w) (b : Bool) : BitVec w := shift p (c ^^^ bit b)

/-- A message. -/
def run (p c : BitVec w) (l : List Bool) : BitVec w := l.foldl (feed p) c

/-- A message of at most `w` bits, the first one lowest. -/
def word : List Bool → BitVec w
  | [] => 0#w
  | b :: l => bit b ^^^ word l <<< 1

/-! ## Moving down -/

theorem shift_xor (p a b : BitVec w) : shift p (a ^^^ b) = shift p a ^^^ shift p b := by
  unfold shift
  rw [BitVec.ushiftRight_xor_distrib, BitVec.getLsbD_xor]
  -- where both feed back, the two feedbacks cancel
  ext i hi
  cases a.getLsbD 0 <;> cases b.getLsbD 0 <;> simp <;> grind

/-- A register whose lowest bit is clear only moves down. -/
theorem shift_of_even (p : BitVec w) {c : BitVec w} (h : c.getLsbD 0 = false) :
    shift p c = c >>> 1 := by
  unfold shift
  rw [h, if_neg Bool.false_ne_true]
  exact BitVec.xor_zero

/-- The top bit tells whether the feedback was added. -/
theorem msb_shift {p : BitVec w} (hp : p.msb = true) (c : BitVec w) :
    (shift p c).msb = c.getLsbD 0 := by
  unfold shift
  rw [BitVec.msb_xor]
  cases c.getLsbD 0 <;> simp [hp]

theorem eq_zero_of_shift {p : BitVec w} (hp : p.msb = true) {c : BitVec w}
    (h : shift p c = 0#w) : c = 0#w := by
  have heven : c.getLsbD 0 = false := by
    rw [← msb_shift hp c, h]
    exact BitVec.msb_zero
  rw [shift_of_even p heven] at h
  ext i hi
  rw [BitVec.getElem_zero, ← BitVec.getLsbD_eq_getElem hi]
  cases i with
  | zero => exact heven
  | succ i =>
    have hbit : (c >>> 1).getLsbD i = false := by rw [h]; exact BitVec.getLsbD_zero
    rwa [BitVec.getLsbD_ushiftRight, Nat.add_comm] at hbit

theorem shift_injective {p : BitVec w} (hp : p.msb = true) : Function.Injective (shift p) := by
  intro a b h
  have hzero : shift p (a ^^^ b) = 0#w := by
    rw [shift_xor, h]
    exact BitVec.xor_self
  exact BitVec.xor_eq_zero_iff.mp (eq_zero_of_shift hp hzero)

/-! ## Messages -/

theorem run_append (p c : BitVec w) (l l' : List Bool) :
    run p c (l ++ l') = run p (run p c l) l' := List.foldl_append

theorem run_injective {p : BitVec w} (hp : p.msb = true) (l : List Bool) :
    Function.Injective fun c => run p c l := by
  induction l with
  | nil => exact fun _ _ h => h
  | cons b l ih => exact fun c c' h => (BitVec.xor_left_inj _).mp (shift_injective hp (ih h))

theorem getLsbD_bit (b : Bool) (i : ℕ) :
    (bit b : BitVec w).getLsbD i = (decide (i < w) && decide (i = 0) && b) := by
  unfold bit
  rw [BitVec.getLsbD_setWidth, BitVec.getLsbD_ofBool, Bool.and_assoc]

theorem getLsbD_word (l : List Bool) (i : ℕ) :
    (word l : BitVec w).getLsbD i = (decide (i < w) && l.getD i false) := by
  induction l generalizing i with
  | nil => simp [word]
  | cons b l ih =>
    rw [word, BitVec.getLsbD_xor, getLsbD_bit, BitVec.getLsbD_shiftLeft]
    cases i with
    | zero => simp
    | succ i =>
      rw [Nat.add_sub_cancel, ih]
      by_cases hi : i + 1 < w <;> simp [hi]
      omega

/-- A bit on its way down meets no feedback. -/
theorem shift_word (p : BitVec w) {l : List Bool} (h : l.length < w) :
    shift p (word l <<< 1) = word l := by
  have heven : ((word l : BitVec w) <<< 1).getLsbD 0 = false := by simp
  rw [shift_of_even p heven]
  ext i hi
  rw [← BitVec.getLsbD_eq_getElem, ← BitVec.getLsbD_eq_getElem, BitVec.getLsbD_ushiftRight,
    BitVec.getLsbD_shiftLeft, Nat.add_sub_cancel_left]
  by_cases htop : 1 + i < w
  · simp [htop]
  · rw [getLsbD_word, List.getD_eq_default _ _ (by omega)]
    simp

/-- **Up to `w` bits go in at once.** -/
theorem run_eq_iterate (p : BitVec w) {l : List Bool} (h : l.length ≤ w) (c : BitVec w) :
    run p c l = (shift p)^[l.length] (c ^^^ word l) := by
  induction l generalizing c with
  | nil => exact BitVec.xor_zero.symm
  | cons b l ih =>
    calc run p c (b :: l) = run p (feed p c b) l := rfl
      _ = (shift p)^[l.length] (feed p c b ^^^ word l) := ih (Nat.le_of_succ_le h) _
      _ = (shift p)^[l.length] (shift p ((c ^^^ bit b) ^^^ word l <<< 1)) := by
        rw [shift_xor, shift_word p h]
        rfl
      _ = (shift p)^[(b :: l).length] (c ^^^ word (b :: l)) := by
        rw [BitVec.xor_assoc]
        rfl

theorem word_injective {l l' : List Bool} (hlen : l.length = l'.length) (hw : l.length ≤ w)
    (h : (word l : BitVec w) = word l') : l = l' := by
  refine List.ext_getElem hlen fun i hi hi' => ?_
  have hbit : (word l : BitVec w).getLsbD i = (word l' : BitVec w).getLsbD i := by rw [h]
  have hiw : decide (i < w) = true := decide_eq_true (Nat.lt_of_lt_of_le hi hw)
  rwa [getLsbD_word, getLsbD_word, hiw, Bool.true_and, Bool.true_and, List.getD_eq_getElem _ _ hi,
    List.getD_eq_getElem _ _ hi'] at hbit

/-- **Windows of `w` bits**: two messages that differ, and only inside such a window,
leave different registers. -/
theorem run_ne {p : BitVec w} (hp : p.msb = true) (c : BitVec w) {l l' : List Bool}
    (hlen : l.length = l'.length) (hne : l ≠ l') {k : ℕ}
    (hwin : ∀ i, l[i]? ≠ l'[i]? → k ≤ i ∧ i < k + w) : run p c l ≠ run p c l' := by
  have hsplit : ∀ m : List Bool, m = m.take k ++ ((m.drop k).take w ++ m.drop (k + w)) := by
    intro m
    rw [← List.drop_drop, List.take_append_drop, List.take_append_drop]
  have hfront : l.take k = l'.take k := by
    refine List.ext_getElem? fun i => ?_
    rw [List.getElem?_take, List.getElem?_take]
    by_cases hi : i < k
    · rw [if_pos hi, if_pos hi]
      exact not_imp_comm.mp (hwin i) fun h => by omega
    · rw [if_neg hi, if_neg hi]
  have hback : l.drop (k + w) = l'.drop (k + w) := by
    refine List.ext_getElem? fun i => ?_
    rw [List.getElem?_drop, List.getElem?_drop]
    exact not_imp_comm.mp (hwin _) fun h => by omega
  have hlenw : ((l.drop k).take w).length = ((l'.drop k).take w).length := by simp [hlen]
  have hle : ((l.drop k).take w).length ≤ w := List.length_take_le _ _
  have hle' : ((l'.drop k).take w).length ≤ w := List.length_take_le _ _
  intro h
  rw [hsplit l, hsplit l', hfront, hback, run_append, run_append, run_append, run_append] at h
  have hin : run p (run p c (l'.take k)) ((l.drop k).take w) =
      run p (run p c (l'.take k)) ((l'.drop k).take w) := run_injective hp _ h
  rw [run_eq_iterate p hle, run_eq_iterate p hle', hlenw] at hin
  have hreg := (shift_injective hp).iterate _ hin
  have hword := word_injective hlenw hle ((BitVec.xor_right_inj _).mp hreg)
  exact hne (by rw [hsplit l, hsplit l', hfront, hback, hword])

end ShiftRegister
end CovioFirmware
