import CovioFirmware.Crash.Program

/-!
# Keeping a log of the calls

Some properties are about the calls themselves: a call is made only after others
have been answered in a certain way.  `Sem.logged` is the same environment with a
log beside its state, newest entry first, in which every completed call stands
with its answer and a call during which power was lost stands without one.  The
log is a history; no program reads it.
-/

namespace CovioFirmware
namespace Crash

universe u

/-- A call that was made: completed with an answer, or under way when power was
lost. -/
inductive Entry (ι : Type) (ρ : ι → Type) : Type where
  | done (i : ι) (r : ρ i) : Entry ι ρ
  | lost (i : ι) : Entry ι ρ

/-- The call of an entry. -/
def Entry.call {ι : Type} {ρ : ι → Type} : Entry ι ρ → ι
  | .done i _ => i
  | .lost i => i

variable {ι : Type} {ρ : ι → Type} {σ : Type u} {α : Type}

@[simp] theorem Entry.call_done (i : ι) (r : ρ i) : (Entry.done i r).call = i := rfl

@[simp] theorem Entry.call_lost (i : ι) : (Entry.lost i : Entry ι ρ).call = i := rfl

/-- The environment with a log of the calls. -/
def Sem.logged (M : Sem ι ρ σ) : Sem ι ρ (σ × List (Entry ι ρ)) where
  post i s r s' := M.post i s.1 r s'.1 ∧ s'.2 = .done i r :: s.2
  cut i s s' := M.cut i s.1 s'.1 ∧ s'.2 = .lost i :: s.2

/-- The call `i` stands in the log. -/
def Called (i : ι) (log : List (Entry ι ρ)) : Prop := ∃ e ∈ log, e.call = i

instance [DecidableEq ι] (i : ι) (log : List (Entry ι ρ)) : Decidable (Called i log) :=
  inferInstanceAs (Decidable (∃ e ∈ log, e.call = i))

theorem not_called_nil (i : ι) : ¬ Called i ([] : List (Entry ι ρ)) := by
  rintro ⟨e, he, -⟩
  exact absurd he List.not_mem_nil

@[simp] theorem called_cons {i : ι} {e : Entry ι ρ} {log : List (Entry ι ρ)} :
    Called i (e :: log) ↔ e.call = i ∨ Called i log := by
  simp only [Called, List.mem_cons, exists_eq_or_imp]

variable {M : Sem ι ρ σ}

/-- One call under a log. -/
theorem wp_logged_call {i : ι} {k : ρ i → Prog ι ρ α}
    {Q : α → σ × List (Entry ι ρ) → Prop} {C : σ × List (Entry ι ρ) → Prop} {s : σ}
    {log : List (Entry ι ρ)} (hC : C (s, log))
    (hcut : ∀ s', M.cut i s s' → C (s', .lost i :: log))
    (hpost : ∀ r s', M.post i s r s' → wp M.logged (k r) Q C (s', .done i r :: log)) :
    wp M.logged (.call i k) Q C (s, log) := by
  refine wp_call hC ?_ ?_
  · rintro ⟨s', log'⟩ ⟨h, rfl⟩
    exact hcut s' h
  · rintro r ⟨s', log'⟩ ⟨h, rfl⟩
    exact hpost r s' h

/-- What is said of the state alone does not depend on the log. -/
theorem wp_logged_iff {p : Prog ι ρ α} {Q : α → σ → Prop} {C : σ → Prop} {s : σ}
    {log : List (Entry ι ρ)} :
    wp M.logged p (fun a s' => Q a s'.1) (fun s' => C s'.1) (s, log) ↔ wp M p Q C s := by
  induction p generalizing s log with
  | ret a => exact Iff.rfl
  | call i k ih =>
    constructor
    · rintro ⟨hs, hcut, hpost⟩
      refine ⟨hs, fun s' h => hcut (s', .lost i :: log) ⟨h, rfl⟩, fun r s' h => ?_⟩
      exact (ih r).mp (hpost r (s', .done i r :: log) ⟨h, rfl⟩)
    · rintro ⟨hs, hcut, hpost⟩
      exact wp_logged_call hs (fun s' h => hcut s' h) fun r s' h => (ih r).mpr (hpost r s' h)

/-- A program whose calls all satisfy `P` adds only such calls to the log. -/
theorem Prog.Makes.wp_logged {P : ι → Prop} {p : Prog ι ρ α} (hp : p.Makes P) (s : σ)
    (log : List (Entry ι ρ)) :
    wp M.logged p (fun _ s' => ∃ new, s'.2 = new ++ log ∧ ∀ e ∈ new, P e.call)
      (fun s' => ∃ new, s'.2 = new ++ log ∧ ∀ e ∈ new, P e.call) (s, log) := by
  have hnil : ∃ new, log = new ++ log ∧ ∀ e ∈ new, P (Entry.call e) :=
    ⟨[], rfl, fun _ h => absurd h List.not_mem_nil⟩
  induction p generalizing s log with
  | ret a => exact ⟨hnil, hnil⟩
  | call i k ih =>
    refine wp_logged_call hnil (fun s' _ => ⟨[.lost i], rfl, ?_⟩) fun r s' _ => ?_
    · rintro e he
      rw [List.mem_singleton.mp he]
      exact hp.1
    · -- what the rest adds stands in front of the entry of this call
      have hstep : ∀ l : List (Entry ι ρ), (∃ new, l = new ++ .done i r :: log ∧
          ∀ e ∈ new, P e.call) → ∃ new, l = new ++ log ∧ ∀ e ∈ new, P e.call := by
        rintro _ ⟨new, rfl, hnew⟩
        refine ⟨new ++ [.done i r], (List.append_cons new _ log), fun e he => ?_⟩
        rcases List.mem_append.mp he with he | he
        · exact hnew e he
        · rw [List.mem_singleton.mp he]
          exact hp.1
      exact wp_mono (ih r (hp.2 r) s' _ ⟨[], rfl, fun _ h => absurd h List.not_mem_nil⟩)
        (fun _ s' h => hstep s'.2 h) fun s' h => hstep s'.2 h

/-- A program adds to the log. -/
theorem wp_logged_append (p : Prog ι ρ α) (s : σ) (log : List (Entry ι ρ)) :
    wp M.logged p (fun _ s' => ∃ new, s'.2 = new ++ log) (fun s' => ∃ new, s'.2 = new ++ log)
      (s, log) :=
  wp_mono ((Prog.Makes.trivial p).wp_logged s log) (fun _ _ h => ⟨h.choose, h.choose_spec.1⟩)
    fun _ h => ⟨h.choose, h.choose_spec.1⟩

/-- One chosen answer to every call, with the log kept. -/
def logAnswers (f : (i : ι) → σ → ρ i × σ) (i : ι) (s : σ × List (Entry ι ρ)) :
    ρ i × (σ × List (Entry ι ρ)) :=
  ((f i s.1).1, ((f i s.1).2, .done i (f i s.1).1 :: s.2))

/-- Executions keep the log of their run. -/
theorem Prog.exec_logged_runs {f : (i : ι) → σ → ρ i × σ}
    (hf : ∀ i s, M.post i s (f i s).1 (f i s).2) (p : Prog ι ρ α)
    (s : σ × List (Entry ι ρ)) :
    Runs M.logged p s (p.exec (logAnswers f) s).1 (p.exec (logAnswers f) s).2 :=
  Prog.exec_runs (M := M.logged) (f := logAnswers f) (I := fun _ => True)
    (fun i s _ => ⟨⟨hf i s.1, rfl⟩, trivial⟩) p trivial

end Crash
end CovioFirmware
