import CovioFirmware.Sql.Session
import Mathlib.Data.Fintype.Basic

/-!
# Several connections at once

Requests that run concurrently, each on a connection of its own.  The unit of
interleaving is one call.  The database serialises writers: while one connection has
an open transaction that has written, a statement on another waits; readers see what
is committed.  A wait is a statement that has not been executed yet, and a request
that waits too long ends with an exception; so may any request at any time
(`Event.abort`), and what its transaction wrote is rolled back.

`Reach` collects the states of all runs whose events satisfy a condition, with the
history that `track` accumulates, and `Reach.invariant` is the induction over them.
That two connections never write at the same time is an invariant of every run and is
supplied by the rule (`Net.OneWriter`).
-/

namespace CovioFirmware
namespace Sql

open Crash

variable {δ : Type} {D : Dialect δ} {ι α : Type} {γ : Type}

/-- A request: under way or returned, or ended with an exception. -/
inductive Thread (D : Dialect δ) (α : Type) where
  /-- The rest of its program; a returned one is a program without calls. -/
  | running (p : Session D α) : Thread D α
  /-- A statement failed. -/
  | raised (w : D.Write) : Thread D α
  /-- An exception that is no matter of the data. -/
  | aborted : Thread D α

/-- The request has returned this. -/
def Thread.returned (a : α) : Thread D α := .running (.ret a)

/-- The call a request makes next. -/
def Thread.next : Thread D α → Option (Call D)
  | .running (.call c _) => some c
  | _ => none

/-- The database with its connections. -/
structure Net (D : Dialect δ) (ι α : Type) where
  committed : δ
  pending : ι → Option δ
  threads : ι → Thread D α

/-- The statement needs the write lock. -/
def Call.locks : Call D → Bool
  | .query _ => false
  | .commit => false
  | _ => true

namespace Net

/-- What one connection sees. -/
def view (n : Net D ι α) (i : ι) : Store δ := ⟨n.committed, n.pending i⟩

/-- No other connection writes. -/
def Free (n : Net D ι α) (i : ι) : Prop := ∀ j, j ≠ i → n.pending j = none

/-- At most one connection writes. -/
def OneWriter (n : Net D ι α) : Prop := ∀ i, n.pending i ≠ none → n.Free i

/-- Requests that have not begun. -/
def initial (d : δ) (p : ι → Session D α) : Net D ι α := ⟨d, fun _ => none, fun i => .running (p i)⟩

variable [DecidableEq ι]

/-- One connection has moved. -/
def advance (n : Net D ι α) (i : ι) (t : Thread D α) (s : Store δ) : Net D ι α :=
  ⟨s.committed, Function.update n.pending i s.pending, Function.update n.threads i t⟩

end Net

/-- What happens: a request makes a call, fails with a statement, or is given up. -/
inductive Event (ι : Type) where
  | step (i : ι) : Event ι
  | raise (i : ι) : Event ι
  | abort (i : ι) : Event ι

variable [DecidableEq ι]

/-- The moves of the connections. -/
inductive Step : Event ι → Net D ι α → Net D ι α → Prop where
  | step {n : Net D ι α} {i : ι} {c : Call D} {k : c.Reply → Session D α} {r : c.Reply}
      {s : Store δ} : n.threads i = .running (.call c k) → (c.locks = true → n.Free i) →
      c.step (n.view i) = some (r, s) → Step (.step i) n (n.advance i (.running (k r)) s)
  | raise {n : Net D ι α} {i : ι} {w : D.Write} {k : D.Result w → Session D α} :
      n.threads i = .running (.call (.exec w) k) → n.Free i →
      D.write w (n.view i).current = none →
      Step (.raise i) n (n.advance i (.raised w) (.idle n.committed))
  | abort {n : Net D ι α} {i : ι} {c : Call D} {k : c.Reply → Session D α} :
      n.threads i = .running (.call c k) →
      Step (.abort i) n (n.advance i .aborted (.idle n.committed))

/-- The states of the runs from `init` whose events all satisfy `ok`, each with its
history. -/
inductive Reach (ok : Event ι → Net D ι α → Prop) (track : Event ι → Net D ι α → γ → γ)
    (init : Net D ι α) (g₀ : γ) : Net D ι α → γ → Prop where
  | init : Reach ok track init g₀ init g₀
  | step {n n' : Net D ι α} {g : γ} {e : Event ι} : Reach ok track init g₀ n g → ok e n →
      Step e n n' → Reach ok track init g₀ n' (track e n g)

/-! ## The connection that moved, and the others -/

namespace Net

variable {n : Net D ι α} {i j : ι} {t : Thread D α} {s : Store δ}

@[simp] theorem committed_advance : (n.advance i t s).committed = s.committed := rfl

@[simp] theorem threads_advance : (n.advance i t s).threads i = t := Function.update_self ..

@[simp] theorem view_advance : (n.advance i t s).view i = s := by
  simp [view, advance]

theorem threads_advance_of_ne (h : j ≠ i) : (n.advance i t s).threads j = n.threads j :=
  Function.update_of_ne h ..

@[simp] theorem pending_advance : (n.advance i t s).pending i = s.pending :=
  Function.update_self ..

theorem pending_advance_of_ne (h : j ≠ i) : (n.advance i t s).pending j = n.pending j :=
  Function.update_of_ne h ..

end Net

omit [DecidableEq ι] in
/-- A call leaves a transaction open only if it was open, or the call needed the lock. -/
theorem Call.pending_step {c : Call D} {s s' : Store δ} {r : c.Reply}
    (h : c.step s = some (r, s')) : s'.pending ≠ none → s.pending ≠ none ∨ c.locks = true := by
  cases c with
  | query q =>
    obtain ⟨-, rfl⟩ := Prod.mk.inj (Option.some.inj h)
    exact .inl
  | commit =>
    obtain ⟨-, rfl⟩ := Prod.mk.inj (Option.some.inj h)
    exact fun hne => absurd rfl hne
  | _ => exact fun _ => .inr rfl

/-- Two connections never write at the same time. -/
theorem Step.oneWriter {e : Event ι} {n n' : Net D ι α} (h : n.OneWriter) (hstep : Step e n n') :
    n'.OneWriter := by
  have hclose : ∀ i t s, s.pending = none ∨ n.Free i → (n.advance i t s).OneWriter := by
    intro i t s hs j hj k hk
    by_cases hji : j = i
    · subst hji
      rw [Net.pending_advance] at hj
      rw [Net.pending_advance_of_ne hk]
      exact hs.resolve_left hj k hk
    · rw [Net.pending_advance_of_ne hji] at hj
      by_cases hki : k = i
      · subst hki
        rw [Net.pending_advance]
        exact hs.resolve_right fun hfree => hj (hfree j hji)
      · rw [Net.pending_advance_of_ne hki]
        exact h j hj k hk
  cases hstep with
  | @step _ i c k r s hthread hlock hstep =>
    refine hclose i _ _ ?_
    by_cases hs : s.pending = none
    · exact .inl hs
    · rcases Call.pending_step hstep hs with hopen | hlocks
      · exact .inr (h i hopen)
      · exact .inr (hlock hlocks)
  | raise => exact hclose _ _ _ (.inl rfl)
  | abort => exact hclose _ _ _ (.inl rfl)

omit [DecidableEq ι] in
theorem Net.oneWriter_initial (d : δ) (p : ι → Session D α) : (Net.initial d p).OneWriter :=
  fun _ h => absurd rfl h

/-- **The invariant rule.** -/
theorem Reach.invariant {ok : Event ι → Net D ι α → Prop} {track : Event ι → Net D ι α → γ → γ}
    {d : δ} {p : ι → Session D α} {g₀ : γ} {J : Net D ι α → γ → Prop}
    (hinit : J (.initial d p) g₀)
    (hstep : ∀ e n n' g, J n g → n.OneWriter → ok e n → Step e n n' → J n' (track e n g))
    {n : Net D ι α} {g : γ} (h : Reach ok track (.initial d p) g₀ n g) : J n g := by
  suffices hboth : J n g ∧ n.OneWriter from hboth.1
  induction h with
  | init => exact ⟨hinit, Net.oneWriter_initial d p⟩
  | step _ hok hs ih => exact ⟨hstep _ _ _ _ ih.1 ih.2 hok hs, Step.oneWriter ih.2 hs⟩

/-! ## Schedules -/

section Schedule

variable [Fintype ι]

omit [DecidableEq ι] [Fintype ι] in
theorem Net.free_iff {n : Net D ι α} {i : ι} :
    n.Free i ↔ ∀ j, (n.pending j).isNone = true ∨ j = i :=
  forall_congr' fun j => by rw [Option.isNone_iff_eq_none, or_comm, or_iff_not_imp_left]

instance (n : Net D ι α) (i : ι) : Decidable (n.Free i) := decidable_of_iff _ Net.free_iff.symm

/-- The state an event leads to, `none` if it cannot happen. -/
def Net.move (n : Net D ι α) : Event ι → Option (Net D ι α)
  | .step i =>
      match n.threads i with
      | .running (.call c k) =>
          if c.locks = true → n.Free i then
            (c.step (n.view i)).map fun x => n.advance i (.running (k x.1)) x.2
          else none
      | _ => none
  | .raise i =>
      match n.threads i with
      | .running (.call (.exec w) _) =>
          if n.Free i ∧ (D.write w (n.view i).current).isNone = true then
            some (n.advance i (.raised w) (.idle n.committed))
          else none
      | _ => none
  | .abort i =>
      match n.threads i with
      | .running (.call _ _) => some (n.advance i .aborted (.idle n.committed))
      | _ => none

/-- The state a schedule leads to, with the history. -/
def Net.run (track : Event ι → Net D ι α → γ → γ) :
    List (Event ι) → Net D ι α → γ → Option (Net D ι α × γ)
  | [], n, g => some (n, g)
  | e :: es, n, g => (n.move e).bind fun n' => Net.run track es n' (track e n g)

theorem Net.step_of_move {n n' : Net D ι α} {e : Event ι} (h : n.move e = some n') :
    Step e n n' := by
  unfold Net.move at h
  split at h
  · split at h
    · next i c k hthread =>
      obtain ⟨hlock, hstep⟩ := Option.ite_none_right_eq_some.mp h
      obtain ⟨⟨r, s⟩, hcall, rfl⟩ := Option.map_eq_some_iff.mp hstep
      exact .step hthread hlock hcall
    · cases h
  · split at h
    · next i w k hthread =>
      obtain ⟨⟨hfree, hfails⟩, h⟩ := Option.ite_none_right_eq_some.mp h
      obtain rfl := Option.some.inj h
      exact .raise hthread hfree (Option.isNone_iff_eq_none.mp hfails)
    · cases h
  · split at h
    · next i c k hthread =>
      obtain rfl := Option.some.inj h
      exact .abort hthread
    · cases h

/-- A schedule is a run, where nothing is asked of its events. -/
theorem Reach.of_run {ok : Event ι → Net D ι α → Prop} (hok : ∀ e n, ok e n)
    {track : Event ι → Net D ι α → γ → γ} {init n n' : Net D ι α} {g₀ g g' : γ}
    (es : List (Event ι)) (h : Reach ok track init g₀ n g)
    (hrun : Net.run track es n g = some (n', g')) : Reach ok track init g₀ n' g' := by
  induction es generalizing n g with
  | nil =>
    obtain ⟨rfl, rfl⟩ := Prod.mk.inj (Option.some.inj hrun)
    exact h
  | cons e es ih =>
    obtain ⟨n₁, hmove, hrest⟩ := Option.bind_eq_some_iff.mp hrun
    exact ih (.step h (hok e n) (Net.step_of_move hmove)) hrest

end Schedule

end Sql
end CovioFirmware
