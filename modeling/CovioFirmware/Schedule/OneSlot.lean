import Mathlib.Algebra.Group.Pi.Basic
import Mathlib.Data.Fintype.Card
import Mathlib.Order.Fin.Basic
import Mathlib.Order.WellFounded

/-!
# Periodic tasks that share one slot

A loop serves at most one task in each iteration: the first one in the order of their
numbers whose period has passed since it was last served.  A task of high number may so
have to wait for those before it.

It waits for each of them at most once (`served_within`), and so for no more than as many
iterations as there are tasks before it, if no period is so short that a task before it
comes due again while those iterations last.
-/

namespace CovioFirmware
namespace Schedule

variable {n : ℕ}

/-- The period of the task has passed. -/
def Due (period last : Fin n → ℕ) (now : ℕ) (k : Fin n) : Prop := period k ≤ now - last k

instance (period last : Fin n → ℕ) (now : ℕ) : DecidablePred (Due period last now) :=
  fun k => inferInstanceAs (Decidable (period k ≤ now - last k))

/-- The task that is served. -/
def pick (period last : Fin n → ℕ) (now : ℕ) : Option (Fin n) :=
  (List.finRange n).find? fun k => decide (Due period last now k)

/-- When the tasks were last served, after an iteration. -/
def serve (period last : Fin n → ℕ) (now : ℕ) : Fin n → ℕ :=
  match pick period last now with
  | some k => Function.update last k now
  | none => last

/-- The same after the first iterations of a run. -/
def marks (period last : Fin n → ℕ) (time : ℕ → ℕ) : ℕ → Fin n → ℕ
  | 0 => last
  | i + 1 => serve period (marks period last time i) (time i)

/-- The task an iteration serves. -/
def served (period last : Fin n → ℕ) (time : ℕ → ℕ) (i : ℕ) : Option (Fin n) :=
  pick period (marks period last time i) (time i)

section

variable {period last : Fin n → ℕ} {now : ℕ} {k j : Fin n}

/-- A task that is due is served, or one before it. -/
theorem pick_of_due (h : Due period last now k) : ∃ j ≤ k, pick period last now = some j := by
  cases hp : pick period last now with
  | none =>
    rw [pick, List.find?_eq_none] at hp
    exact absurd (decide_eq_true h) (hp k (List.mem_finRange k))
  | some j =>
    refine ⟨j, ?_, rfl⟩
    obtain ⟨-, as, bs, hsplit, hnone⟩ := List.find?_eq_some_iff_append.mp hp
    have hsorted : (as ++ j :: bs).Pairwise (· < ·) := hsplit ▸ List.pairwise_lt_finRange n
    rcases List.mem_append.mp (hsplit ▸ List.mem_finRange k) with hk | hk
    · have := hnone k hk
      rw [decide_eq_true h] at this
      cases this
    · rcases List.mem_cons.mp hk with rfl | hk
      · exact le_rfl
      · have hright := (List.pairwise_append.mp hsorted).2.1
        exact (List.rel_of_pairwise_cons hright hk).le

theorem due_of_pick (h : pick period last now = some k) : Due period last now k :=
  of_decide_eq_true (List.find?_some (p := fun k => decide (Due period last now k)) h)

/-- The first task is served whenever it is due. -/
theorem pick_eq_of_due (h : Due period last now k) (hk : ∀ j, k ≤ j) :
    pick period last now = some k := by
  obtain ⟨j, hj, hp⟩ := pick_of_due h
  rw [hp, le_antisymm hj (hk j)]

end

/-! ## Runs -/

section Runs

variable {period last : Fin n → ℕ} {time : ℕ → ℕ} {k : Fin n}

theorem marks_succ (i : ℕ) (j : Fin n) : marks period last time (i + 1) j =
    if served period last time i = some j then time i else marks period last time i j := by
  rw [marks, serve, ← served]
  cases served period last time i with
  | none => rw [if_neg (by simp)]
  | some l =>
    by_cases h : l = j
    · subst h
      simp
    · rw [if_neg (by simpa using h)]
      exact Function.update_of_ne (Ne.symm h) _ _

/-- A task keeps its mark until it is served. -/
theorem marks_eq_of_not_served {a b : ℕ} (hab : a ≤ b)
    (h : ∀ i, a ≤ i → i < b → served period last time i ≠ some k) :
    marks period last time b k = marks period last time a k := by
  induction b, hab using Nat.le_induction with
  | base => rfl
  | succ b hab ih =>
    rw [marks_succ, if_neg (h b hab (Nat.lt_succ_self b))]
    exact ih fun i h1 h2 => h i h1 (h2.trans (Nat.lt_succ_self b))

variable (hmono : StrictMono time)

include hmono

/-- What was served is marked from then on. -/
theorem time_le_marks {a b : ℕ} (hab : a < b) (ha : served period last time a = some k) :
    time a ≤ marks period last time b k := by
  induction b, hab using Nat.le_induction with
  | base => rw [marks_succ, if_pos ha]
  | succ b hab ih =>
    rw [marks_succ]
    split
    · exact hmono.monotone (Nat.le_of_succ_le hab)
    · exact ih

/-- No mark is in the future. -/
theorem marks_le (hlast : ∀ j, last j ≤ time 0) (i : ℕ) (j : Fin n) :
    marks period last time i j ≤ time i := by
  induction i with
  | zero => exact hlast j
  | succ i ih =>
    rw [marks_succ]
    have := hmono.monotone (Nat.le_succ i)
    split
    · exact this
    · exact ih.trans this

/-- Between two services of a task lies its period. -/
theorem period_le {a b : ℕ} (hab : a < b) (ha : served period last time a = some k)
    (hb : served period last time b = some k) : period k ≤ time b - time a := by
  have hdue : Due period (marks period last time b) (time b) k := due_of_pick hb
  exact hdue.trans (Nat.sub_le_sub_left (time_le_marks hmono hab ha) _)

variable {D : ℕ} (hgap : ∀ i, time (i + 1) ≤ time i + D)

include hgap

omit hmono in
theorem time_add_le (i o : ℕ) : time (i + o) ≤ time i + o * D := by
  induction o with
  | zero => simp
  | succ o ih =>
    rw [← Nat.add_assoc, Nat.succ_mul]
    have := hgap (i + o)
    omega

/-- **A task that is due waits once for each task before it.** -/
theorem served_of_due (hk : ∀ j < k, k.val * D < period j) {i : ℕ}
    (hdue : Due period (marks period last time i) (time i) k) :
    ∃ o ≤ k.val, served period last time (i + o) = some k := by
  by_contra hno
  have hnot : ∀ o ≤ k.val, served period last time (i + o) ≠ some k :=
    fun o ho h => hno ⟨o, ho, h⟩
  -- all the while it stays due, so that one before it is served
  have hbefore : ∀ o : Fin (k.val + 1), ∃ j : Fin k.val,
      served period last time (i + o) = some ⟨j, j.isLt.trans k.isLt⟩ := by
    intro o
    have hsame : marks period last time (i + o) k = marks period last time i k := by
      refine marks_eq_of_not_served (Nat.le_add_right i o) fun b h1 h2 => ?_
      obtain ⟨c, rfl⟩ := Nat.exists_eq_add_of_le h1
      exact hnot c (by omega)
    have hdue' : Due period (marks period last time (i + o)) (time (i + o)) k := by
      rw [Due, hsame]
      exact hdue.trans (Nat.sub_le_sub_right (hmono.monotone (Nat.le_add_right i o)) _)
    obtain ⟨j, hj, hp⟩ := pick_of_due hdue'
    have hne : j ≠ k := fun h => hnot o (by omega) (h ▸ hp)
    have hlt : j.val < k.val := lt_of_le_of_ne hj fun h => hne (Fin.ext h)
    exact ⟨⟨j, hlt⟩, hp⟩
  choose task htask using hbefore
  -- and none of them twice
  have hinj : Function.Injective task := by
    intro a b hab
    by_contra hne
    wlog hlt : a < b generalizing a b with hsymm
    · exact hsymm hab.symm (Ne.symm hne) (lt_of_le_of_ne (not_lt.mp hlt) (Ne.symm hne))
    have hperiod := period_le hmono (Nat.add_lt_add_left hlt i) (htask a)
      ((htask b).trans (by rw [hab]))
    have hlen := time_add_le hgap (i + a) (b.val - a.val)
    rw [show i + a.val + (b.val - a.val) = i + b.val by omega] at hlen
    have hshort := hk ⟨task a, (task a).isLt.trans k.isLt⟩ (task a).isLt
    have hle : (b.val - a.val) * D ≤ k.val * D := Nat.mul_le_mul_right D (by omega)
    omega
  have := Fintype.card_le_of_injective task hinj
  rw [Fintype.card_fin, Fintype.card_fin] at this
  omega

/-- **A task is served within its period and one gap more than there are tasks before
it**, if none of these can come due twice in so many gaps. -/
theorem served_within (hlast : ∀ j, last j ≤ time 0) (hk : ∀ j < k, k.val * D < period j)
    (i : ℕ) : ∃ j ≥ i, served period last time j = some k ∧
      time j ≤ time i + period k + (k.val + 1) * D := by
  have hmarks : ∀ i, marks period last time i k ≤ time i := fun i => marks_le hmono hlast i k
  -- the first iteration in which it is due
  have hex : ∃ f, i ≤ f ∧ marks period last time i k + period k ≤ time f :=
    ⟨i + (marks period last time i k + period k), Nat.le_add_right _ _,
      (Nat.le_add_left _ _).trans (hmono.le_apply)⟩
  obtain ⟨hif, hfirst⟩ := Nat.find_spec hex
  set f := Nat.find hex
  have hearly : ∀ b, i ≤ b → b < f → time b < marks period last time i k + period k :=
    fun b h1 h2 => Nat.lt_of_not_le fun h => Nat.find_min hex h2 ⟨h1, h⟩
  have hsame : ∀ b, i ≤ b → b ≤ f →
      marks period last time b k = marks period last time i k := by
    intro b hb
    induction b, hb using Nat.le_induction with
    | base => exact fun _ => rfl
    | succ b hb ih =>
      intro hbf
      have hkept := ih (Nat.le_of_succ_le hbf)
      rw [marks_succ, if_neg ?_, hkept]
      intro hs
      have hdue : Due period (marks period last time b) (time b) k := due_of_pick hs
      rw [Due, hkept] at hdue
      have h1 := hearly b hb hbf
      have h2 := hmarks i
      have h3 := hmono.monotone hb
      omega
  have hdue : Due period (marks period last time f) (time f) k := by
    rw [Due, hsame f hif le_rfl]
    omega
  have hsoon : time f ≤ time i + period k + D := by
    have h2 := hmarks i
    rcases Nat.eq_or_lt_of_le hif with heq | hlt
    · rw [← heq]
      omega
    · have h1 := hearly (f - 1) (by omega) (by omega)
      have h3 := hgap (f - 1)
      rw [Nat.sub_add_cancel (by omega)] at h3
      omega
  obtain ⟨o, ho, hs⟩ := served_of_due hmono hgap hk hdue
  refine ⟨f + o, hif.trans (Nat.le_add_right f o), hs, ?_⟩
  have h1 := time_add_le hgap f o
  have h2 : o * D ≤ k.val * D := Nat.mul_le_mul_right D ho
  rw [Nat.succ_mul]
  omega

/-- The time since a task was last served is bounded. -/
theorem time_le_marks_add (hlast : ∀ j, last j ≤ time 0) (hk : ∀ j < k, k.val * D < period j)
    (i : ℕ) : time i ≤ marks period last time i k + (time 0 + period k + (k.val + 2) * D) := by
  have hnext : ∃ j ≥ i, served period last time j = some k ∧
      time j ≤ marks period last time i k + (time 0 + period k + (k.val + 2) * D) := by
    induction i with
    | zero =>
      obtain ⟨j, hj, hs, hle⟩ := served_within hmono hgap hlast hk 0
      exact ⟨j, hj, hs, by rw [Nat.add_mul] at hle ⊢; omega⟩
    | succ i ih =>
      obtain ⟨j, hj, hs, hle⟩ := ih
      rw [marks_succ]
      split
      · obtain ⟨l, hl, hsl, hlel⟩ := served_within hmono hgap hlast hk (i + 1)
        have := hgap i
        exact ⟨l, hl, hsl, by rw [Nat.add_mul] at hlel ⊢; omega⟩
      · next hne =>
        refine ⟨j, lt_of_le_of_ne hj fun h => hne (h ▸ hs), hs, hle⟩
  obtain ⟨j, hj, -, hle⟩ := hnext
  exact (hmono.monotone hj).trans hle

end Runs

end Schedule
end CovioFirmware
