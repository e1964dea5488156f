import CovioFirmware.Bytes.ShiftRegister
import Mathlib.Data.Nat.Bitwise

/-!
# How many errors a shift register notices

A register that holds its top bit alone and moves down `n` times is the power `n` of the
feedback.  A message is, as far as the register goes, the sum of the powers of its set
bits (`run_eq_total`), so two messages leave the same register exactly if the powers of
the bits in which they differ sum to nothing.

Moving down is injective, so a sum of at most four powers that vanishes may be taken to
contain power 0.  Whether one exists below a bound is then a matter of finding a sum of
power 0 and two others among the powers: `separated` looks for one, and
`length_of_separated` says that where it finds none, five powers are needed.
-/

namespace CovioFirmware
namespace ShiftRegister

variable {w : ℕ}

/-- The top bit, moved down `n` times. -/
def power (p : BitVec w) (n : ℕ) : BitVec w := (shift p)^[n] (BitVec.twoPow w (w - 1))

/-- The sum of the powers. -/
def total (p : BitVec w) (s : List ℕ) : BitVec w := s.foldr (fun n v => power p n ^^^ v) 0#w

/-- The powers of the set bits of a message, where its last bit has power `k`. -/
def exponents (k : ℕ) : List Bool → List ℕ
  | [] => []
  | b :: l => if b then (k + l.length) :: exponents k l else exponents k l

/-! ## Messages as sums of powers -/

theorem total_cons (p : BitVec w) (n : ℕ) (s : List ℕ) :
    total p (n :: s) = power p n ^^^ total p s := rfl

theorem iterate_shift_xor (p : BitVec w) (n : ℕ) (a b : BitVec w) :
    (shift p)^[n] (a ^^^ b) = (shift p)^[n] a ^^^ (shift p)^[n] b := by
  induction n generalizing a b with
  | zero => rfl
  | succ n ih => rw [Function.iterate_succ_apply, shift_xor, ih]; rfl

theorem iterate_shift_zero (p : BitVec w) (n : ℕ) : (shift p)^[n] 0#w = 0#w := by
  have h := iterate_shift_xor p n 0#w 0#w
  rwa [BitVec.xor_self, BitVec.xor_self] at h

/-- A sum of powers moves down term by term. -/
theorem iterate_shift_total (p : BitVec w) (n : ℕ) (s : List ℕ) :
    (shift p)^[n] (total p s) = total p (s.map (n + ·)) := by
  induction s with
  | nil => exact iterate_shift_zero p n
  | cons a s ih =>
    rw [total_cons, iterate_shift_xor, ih, List.map_cons, total_cons, power, power,
      Function.iterate_add_apply]

theorem total_append (p : BitVec w) (s s' : List ℕ) :
    total p (s ++ s') = total p s ^^^ total p s' := by
  induction s with
  | nil => exact BitVec.zero_xor.symm
  | cons a s ih =>
    rw [List.cons_append, total_cons, total_cons, ih, BitVec.xor_assoc]

/-- A bit at the bottom has come down from the top. -/
theorem power_pred (p : BitVec w) : power p (w - 1) = bit true := by
  have hdown : ∀ k < w, power p k = BitVec.twoPow w (w - 1 - k) := by
    intro k
    induction k with
    | zero => exact fun _ => rfl
    | succ k ih =>
      intro hk
      have heven : (BitVec.twoPow w (w - 1 - k)).getLsbD 0 = false := by
        rw [BitVec.getLsbD_twoPow]
        simp
        omega
      rw [power, Function.iterate_succ_apply', ← power, ih (by omega), shift_of_even p heven]
      ext i hi
      rw [← BitVec.getLsbD_eq_getElem, ← BitVec.getLsbD_eq_getElem, BitVec.getLsbD_ushiftRight,
        BitVec.getLsbD_twoPow, BitVec.getLsbD_twoPow]
      by_cases hik : w - 1 - (k + 1) = i
      · simp [hik, hi]
        omega
      · simp [hik]
        omega
  rcases Nat.eq_zero_or_pos w with rfl | hw
  · exact Subsingleton.elim _ _
  · rw [hdown _ (by omega), Nat.sub_self]
    ext i hi
    rw [← BitVec.getLsbD_eq_getElem, ← BitVec.getLsbD_eq_getElem, getLsbD_bit,
      BitVec.getLsbD_twoPow]
    simp [hi, hw, eq_comm]

/-- What a message adds to the register. -/
theorem run_eq_xor (p c : BitVec w) (l : List Bool) :
    run p c l = (shift p)^[l.length] c ^^^ run p 0#w l := by
  induction l generalizing c with
  | nil => exact BitVec.xor_zero.symm
  | cons b l ih =>
    have hzero : run p 0#w (b :: l) =
        (shift p)^[l.length] (shift p (bit b)) ^^^ run p 0#w l := by
      rw [show run p 0#w (b :: l) = run p (feed p 0#w b) l from rfl, ih, feed, BitVec.zero_xor]
    calc run p c (b :: l) = (shift p)^[l.length] (feed p c b) ^^^ run p 0#w l := ih _
      _ = ((shift p)^[l.length] (shift p c) ^^^ (shift p)^[l.length] (shift p (bit b))) ^^^
          run p 0#w l := by rw [feed, shift_xor, iterate_shift_xor]
      _ = (shift p)^[(b :: l).length] c ^^^ run p 0#w (b :: l) := by
        rw [hzero, BitVec.xor_assoc]
        rfl

/-- **A message is the sum of the powers of its set bits.** -/
theorem run_eq_total (p : BitVec w) (l : List Bool) : run p 0#w l = total p (exponents w l) := by
  induction l with
  | nil => rfl
  | cons b l ih =>
    have hrun : run p 0#w (b :: l) =
        (shift p)^[l.length] (shift p (bit b)) ^^^ run p 0#w l := by
      rw [show run p 0#w (b :: l) = run p (feed p 0#w b) l from rfl, run_eq_xor, feed,
        BitVec.zero_xor]
    rw [hrun, ih, exponents]
    cases b with
    | false =>
      have hbit : (bit false : BitVec w) = 0#w := by
        ext i hi
        rw [← BitVec.getLsbD_eq_getElem, getLsbD_bit]
        simp
      rw [hbit, ← Function.iterate_succ_apply, iterate_shift_zero, BitVec.zero_xor]
      rfl
    | true =>
      rw [if_pos rfl, total_cons]
      congr 1
      rcases Nat.eq_zero_or_pos w with rfl | hw
      · exact Subsingleton.elim _ _
      · rw [← Function.iterate_succ_apply, ← power_pred p, power, power,
          ← Function.iterate_add_apply,
          show l.length.succ + (w - 1) = w + l.length by omega]

theorem bit_xor (b b' : Bool) : (bit (xor b b') : BitVec w) = bit b ^^^ bit b' := by
  ext i hi
  rw [BitVec.getElem_xor, ← BitVec.getLsbD_eq_getElem, ← BitVec.getLsbD_eq_getElem,
    ← BitVec.getLsbD_eq_getElem, getLsbD_bit, getLsbD_bit, getLsbD_bit]
  cases b <;> cases b' <;> simp

theorem word_xor {l l' : List Bool} (h : l.length = l'.length) :
    (word (List.zipWith xor l l') : BitVec w) = word l ^^^ word l' := by
  induction l generalizing l' with
  | nil =>
    obtain rfl := List.eq_nil_of_length_eq_zero h.symm
    exact BitVec.xor_zero.symm
  | cons b l ih =>
    obtain ⟨b', l', rfl⟩ := List.exists_cons_of_length_eq_add_one h.symm
    rw [List.zipWith_cons_cons, word, word, word, ih (Nat.succ.inj h), bit_xor,
      BitVec.shiftLeft_xor_distrib]
    ac_rfl

/-- The register is linear in its content and the message. -/
theorem run_xor (p : BitVec w) {l l' : List Bool} (h : l.length = l'.length) (c c' : BitVec w) :
    run p (c ^^^ c') (List.zipWith xor l l') = run p c l ^^^ run p c' l' := by
  induction l generalizing l' c c' with
  | nil =>
    obtain rfl := List.eq_nil_of_length_eq_zero h.symm
    rfl
  | cons b l ih =>
    obtain ⟨b', l', rfl⟩ := List.exists_cons_of_length_eq_add_one h.symm
    have hfeed : feed p (c ^^^ c') (xor b b') = feed p c b ^^^ feed p c' b' := by
      rw [feed, feed, feed, ← shift_xor, bit_xor]
      congr 1
      ac_rfl
    calc run p (c ^^^ c') (List.zipWith xor (b :: l) (b' :: l'))
        = run p (feed p (c ^^^ c') (xor b b')) (List.zipWith xor l l') := rfl
      _ = run p (feed p c b) l ^^^ run p (feed p c' b') l' := by
        rw [hfeed]
        exact ih (Nat.succ.inj h) _ _

/-- **Two messages differ, for the register, by the powers of the bits in which they
differ.** -/
theorem run_xor_run (p c : BitVec w) {l l' : List Bool} (h : l.length = l'.length) :
    run p c l ^^^ run p c l' = total p (exponents w (List.zipWith xor l l')) := by
  rw [← run_eq_total, ← run_xor p h, BitVec.xor_self]

/-- A register is the sum of the powers of its own bits. -/
theorem word_eq_total {p : BitVec w} (hp : p.msb = true) {l : List Bool} (h : l.length = w) :
    word l = total p (exponents 0 l) := by
  have hshift : ∀ (k : ℕ) (l : List Bool), exponents k l = (exponents 0 l).map (k + ·) := by
    intro k l
    induction l with
    | nil => rfl
    | cons b l ih =>
      rw [exponents, exponents, ih]
      split <;> simp
  have hrun : (shift p)^[w] (word l) = (shift p)^[w] (total p (exponents 0 l)) := by
    rw [iterate_shift_total, ← hshift, ← run_eq_total, run_eq_iterate p h.le, h,
      BitVec.zero_xor]
  exact (shift_injective hp).iterate w hrun

/-! ## Few powers -/

theorem lt_of_mem_exponents {k n : ℕ} {l : List Bool} (h : n ∈ exponents k l) :
    k ≤ n ∧ n < k + l.length := by
  induction l with
  | nil => exact absurd h List.not_mem_nil
  | cons b l ih =>
    rw [exponents] at h
    rw [List.length_cons]
    split at h
    · rcases List.mem_cons.mp h with rfl | h
      · omega
      · have := ih h
        omega
    · have := ih h
      omega

/-- They come in descending order. -/
theorem pairwise_exponents (k : ℕ) (l : List Bool) :
    (exponents k l).Pairwise fun a b => b < a := by
  induction l with
  | nil => exact .nil
  | cons b l ih =>
    rw [exponents]
    split
    · exact List.pairwise_cons.mpr ⟨fun a ha => (lt_of_mem_exponents ha).2, ih⟩
    · exact ih

theorem length_exponents (k : ℕ) (l : List Bool) : (exponents k l).length = l.count true := by
  induction l with
  | nil => rfl
  | cons b l ih =>
    rw [exponents]
    cases b with
    | true => rw [if_pos rfl, List.length_cons, ih, List.count_cons_self]
    | false => rw [if_neg Bool.false_ne_true, ih, List.count_cons_of_ne (by decide)]

/-! ## The search

Registers are numbers here, and intermediate ones are evaluated before they are passed on,
so that the kernel can carry the search out. -/

/-- `f v`, where `v` is evaluated first. -/
def eagerly {α : Type} (v : ℕ) (f : ℕ → α) : α :=
  match v with
  | 0 => f 0
  | k + 1 => f (k + 1)

/-- `shift`. -/
def shiftNat (p c : ℕ) : ℕ := if c % 2 = 1 then (c / 2) ^^^ p else c / 2

/-- The first `n` registers from `c` on. -/
def powersFrom (p : ℕ) : ℕ → ℕ → List ℕ
  | 0, _ => []
  | n + 1, c => c :: eagerly (shiftNat p c) (powersFrom p n)

/-- The leading digits that occur in the list. -/
def marks (s : List ℕ) : ℕ := s.foldr (fun v m => m ||| 1 <<< (v / 2 ^ 14)) 0

/-- The number is not in the list; most are told by their leading digits. -/
def outside (s : List ℕ) (m v : ℕ) : Bool :=
  match Nat.land 1 (Nat.shiftRight m (v / 2 ^ 14)) with
  | 0 => true
  | _ + 1 => s.all fun x => !(Nat.beq x v)

/-- No two of the numbers make, with `t`, a number of the list `s`. -/
def pairsOutside (s : List ℕ) (m t : ℕ) : List ℕ → Bool
  | [] => true
  | x :: xs =>
      eagerly (t ^^^ x) (fun v => xs.all fun y => outside s m (Nat.xor v y)) &&
        pairsOutside s m t xs

/-- No sum of power 0 and one to three other powers below `n` vanishes. -/
def separated (p : BitVec w) (n : ℕ) : Bool :=
  match powersFrom p.toNat n (BitVec.twoPow w (w - 1)).toNat with
  | [] => true
  | t :: xs => eagerly (marks (0 :: t :: xs)) fun m => pairsOutside (0 :: t :: xs) m t (0 :: xs)

theorem eagerly_eq {α : Type} (v : ℕ) (f : ℕ → α) : eagerly v f = f v := by
  cases v <;> rfl

theorem shiftNat_toNat (p c : BitVec w) : shiftNat p.toNat c.toNat = (shift p c).toNat := by
  have hlow : c.getLsbD 0 = decide (c.toNat % 2 = 1) := by
    rw [BitVec.getLsbD, Nat.testBit_zero]
  rw [shiftNat, shift, hlow, BitVec.toNat_xor, BitVec.toNat_ushiftRight, Nat.shiftRight_one]
  by_cases h : c.toNat % 2 = 1
  · rw [if_pos h, if_pos (decide_eq_true h)]
  · rw [if_neg h, if_neg (by simpa using h), BitVec.toNat_zero, Nat.xor_zero]

theorem powersFrom_toNat (p : BitVec w) (n : ℕ) (c : BitVec w) :
    powersFrom p.toNat n c.toNat = (List.range n).map fun i => ((shift p)^[i] c).toNat := by
  induction n generalizing c with
  | zero => rfl
  | succ n ih =>
    rw [powersFrom, eagerly_eq, shiftNat_toNat, ih, List.range_succ_eq_map, List.map_cons,
      List.map_map]
    rfl

theorem testBit_marks {s : List ℕ} {v : ℕ} (h : v ∈ s) : (marks s).testBit (v / 2 ^ 14) = true := by
  induction s with
  | nil => exact absurd h List.not_mem_nil
  | cons x s ih =>
    rw [marks, List.foldr_cons, ← marks, Nat.testBit_or, Bool.or_eq_true]
    rcases List.mem_cons.mp h with rfl | h
    · refine .inr ?_
      rw [Nat.one_shiftLeft, Nat.testBit_two_pow_self]
    · exact .inl (ih h)

theorem notMem_of_outside {s : List ℕ} {v : ℕ} (h : outside s (marks s) v = true) : v ∉ s := by
  intro hv
  have hmark : Nat.land 1 (Nat.shiftRight (marks s) (v / 2 ^ 14)) ≠ 0 :=
    bne_iff_ne.mp (testBit_marks hv)
  unfold outside at h
  split at h
  · next hz => exact hmark hz
  · have hself := List.all_eq_true.mp h v hv
    rw [Nat.beq_refl] at hself
    cases hself

theorem pairwise_of_pairsOutside {s : List ℕ} {t : ℕ} {l : List ℕ}
    (h : pairsOutside s (marks s) t l = true) : l.Pairwise fun x y => t ^^^ x ^^^ y ∉ s := by
  induction l with
  | nil => exact .nil
  | cons x xs ih =>
    rw [pairsOutside, eagerly_eq, Bool.and_eq_true] at h
    exact List.pairwise_cons.mpr ⟨fun y hy => notMem_of_outside (List.all_eq_true.mp h.1 y hy),
      ih h.2⟩

/-- What the search has found not to exist. -/
structure Separated (p : BitVec w) (n : ℕ) : Prop where
  two : ∀ a, 0 < a → a < n → power p 0 ^^^ power p a ≠ 0#w
  three : ∀ a b, 0 < b → b < a → a < n → power p 0 ^^^ power p b ^^^ power p a ≠ 0#w
  four : ∀ a b c, 0 < b → b < a → a < n → c < n →
    power p 0 ^^^ power p b ^^^ power p a ≠ power p c

/-- **What the search does not find is not there.** -/
theorem separated_sound {p : BitVec w} {n : ℕ} (h : separated p n = true) : Separated p n := by
  cases n with
  | zero => exact ⟨fun _ _ h => by omega, fun _ _ _ _ h => by omega, fun _ _ _ _ _ h => by omega⟩
  | succ n =>
    have hpowers : powersFrom p.toNat (n + 1) (BitVec.twoPow w (w - 1)).toNat =
        (power p 0).toNat :: (List.range n).map fun i => (power p (i + 1)).toNat := by
      rw [powersFrom_toNat, List.range_succ_eq_map, List.map_cons, List.map_map]
      rfl
    rw [separated, hpowers] at h
    simp only [eagerly_eq] at h
    set xs := (List.range n).map fun i => (power p (i + 1)).toNat with hxs
    set all := 0 :: (power p 0).toNat :: xs
    obtain ⟨hzero, hpair⟩ := List.pairwise_cons.mp (pairwise_of_pairsOutside h)
    have hmem : ∀ a, 0 < a → a < n + 1 → (power p a).toNat ∈ xs := by
      intro a h1 h2
      obtain ⟨i, rfl⟩ := Nat.exists_eq_add_of_lt h1
      rw [hxs, List.mem_map]
      exact ⟨i, List.mem_range.mpr (by omega), by rw [Nat.zero_add]⟩
    have hall : ∀ c < n + 1, (power p c).toNat ∈ all := by
      intro c hc
      rcases Nat.eq_zero_or_pos c with rfl | hpos
      · exact List.mem_cons_of_mem _ List.mem_cons_self
      · exact List.mem_cons_of_mem _ (List.mem_cons_of_mem _ (hmem c hpos hc))
    have hthree : ∀ a b, 0 < b → b < a → a < n + 1 →
        (power p 0 ^^^ power p b ^^^ power p a).toNat ∉ all := by
      intro a b h1 h2 h3
      obtain ⟨i, rfl⟩ := Nat.exists_eq_add_of_lt h1
      obtain ⟨j, rfl⟩ := Nat.exists_eq_add_of_lt h2
      have hij := List.pairwise_iff_getElem.mp (List.pairwise_map.mp hpair) i (i + j + 1)
        (by rw [List.length_range]; omega) (by rw [List.length_range]; omega) (by omega)
      rw [List.getElem_range, List.getElem_range] at hij
      rw [BitVec.toNat_xor, BitVec.toNat_xor, Nat.zero_add,
        show i + 1 + j + 1 = i + j + 1 + 1 by omega]
      exact hij
    refine ⟨fun a h1 h2 hz => ?_, fun a b h1 h2 h3 hz => ?_, fun a b c h1 h2 h3 h4 hc => ?_⟩
    · refine hzero _ (hmem a h1 h2) ?_
      rw [Nat.xor_zero, ← BitVec.toNat_xor, hz]
      exact List.mem_cons_self
    · refine hthree a b h1 h2 h3 ?_
      rw [hz]
      exact List.mem_cons_self
    · exact hthree a b h1 h2 h3 (hc ▸ hall c h4)

/-- A single power does not vanish. -/
theorem power_ne_zero {p : BitVec w} (hp : p.msb = true) (n : ℕ) : power p n ≠ 0#w := by
  intro h
  have htop : BitVec.twoPow w (w - 1) = 0#w :=
    (shift_injective hp).iterate n (h.trans (iterate_shift_zero p n).symm)
  have hw : 0 < w := by
    rcases Nat.eq_zero_or_pos w with rfl | hw
    · rw [Subsingleton.elim p 0#0] at hp
      cases hp
    · exact hw
  have hbit : (BitVec.twoPow w (w - 1)).getLsbD (w - 1) = true := by
    rw [BitVec.getLsbD_twoPow, decide_eq_true (show w - 1 < w by omega), decide_eq_true rfl]
    rfl
  rw [htop, BitVec.getLsbD_zero] at hbit
  cases hbit

/-- **Five powers at least** sum to nothing. -/
theorem length_of_separated {p : BitVec w} (hp : p.msb = true) {n : ℕ} (h : Separated p n)
    {s : List ℕ} (hs : s.Pairwise fun a b => b < a) (hlt : ∀ a ∈ s, a < n) (hne : s ≠ [])
    (hzero : total p s = 0#w) : 4 < s.length := by
  -- the least of them may be taken to be power 0
  obtain ⟨front, k, rfl⟩ := (List.eq_nil_or_concat s).resolve_left hne
  rw [List.concat_eq_append] at hs hlt hzero ⊢
  obtain ⟨hfront, -, hlast⟩ := List.pairwise_append.mp hs
  have hbelow : ∀ a ∈ front, k < a ∧ a < n := fun a ha =>
    ⟨hlast a ha k (List.mem_singleton_self k), hlt a (List.mem_append_left _ ha)⟩
  have hshift : front ++ [k] = (front.map (· - k) ++ [0]).map (k + ·) := by
    have hback : (front.map (· - k)).map (k + ·) = front := by
      rw [List.map_map]
      refine (List.map_congr_left fun a ha => ?_).trans (List.map_id front)
      exact Nat.add_sub_cancel' (hbelow a ha).1.le
    rw [List.map_append, hback]
    rfl
  have hdown : total p (front.map (· - k) ++ [0]) = 0#w := by
    rw [hshift, ← iterate_shift_total] at hzero
    exact (shift_injective hp).iterate k (hzero.trans (iterate_shift_zero p k).symm)
  rw [total_append, BitVec.xor_comm] at hdown
  change (power p 0 ^^^ 0#w) ^^^ total p (front.map (· - k)) = 0#w at hdown
  rw [BitVec.xor_zero] at hdown
  rw [List.length_append, List.length_singleton]
  by_contra hfew
  rcases front with _ | ⟨a, _ | ⟨b, _ | ⟨c, _ | ⟨d, rest⟩⟩⟩⟩
  · refine power_ne_zero hp 0 ?_
    rwa [List.map_nil, total, List.foldr_nil, BitVec.xor_zero] at hdown
  · have ha := hbelow a (List.mem_singleton_self a)
    refine h.two (a - k) (by omega) (by omega) ?_
    rwa [List.map_singleton, total_cons, total, List.foldr_nil, BitVec.xor_zero] at hdown
  · have ha := hbelow a List.mem_cons_self
    have hb := hbelow b (List.mem_cons_of_mem _ List.mem_cons_self)
    have hab : b < a := List.rel_of_pairwise_cons hfront List.mem_cons_self
    refine h.three (a - k) (b - k) (by omega) (by omega) (by omega) ?_
    rw [← hdown, List.map_cons, List.map_singleton, total_cons, total_cons, total, List.foldr_nil]
    rw [BitVec.xor_zero, BitVec.xor_assoc, BitVec.xor_comm (power p (b - k))]
  · have ha := hbelow a List.mem_cons_self
    have hb := hbelow b (List.mem_cons_of_mem _ List.mem_cons_self)
    have hc := hbelow c (List.mem_cons_of_mem _ (List.mem_cons_of_mem _ List.mem_cons_self))
    have hab : b < a := List.rel_of_pairwise_cons hfront List.mem_cons_self
    have hbc : c < b := List.rel_of_pairwise_cons (List.pairwise_cons.mp hfront).2
      List.mem_cons_self
    refine h.four (b - k) (c - k) (a - k) (by omega) (by omega) (by omega) (by omega) ?_
    rw [← BitVec.xor_eq_zero_iff, ← hdown, List.map_cons, List.map_cons, List.map_singleton,
      total_cons, total_cons, total_cons, total, List.foldr_nil, BitVec.xor_zero]
    ac_rfl
  · simp only [List.length_cons] at hfew
    omega

end ShiftRegister
end CovioFirmware
