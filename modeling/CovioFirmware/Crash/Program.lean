import Mathlib.Logic.Function.Basic

/-!
# Programs that can lose power

A firmware routine is a sequence of calls into its environment --- the file
system, the counter peripheral, the network --- with ordinary computation in
between.  Power can be lost before, during or after any of those calls, and what
a cut leaves behind depends only on the call that was under way.  So the routine
is a tree of calls (`Prog`), the environment says what each call may answer and
what a cut inside it may leave (`Sem`), and everything else follows from those
two.

## Two kinds of outcome

`Runs M p s a s'` says that `p`, started in `s`, can return `a` and leave `s'`.
`Cuts M p s s'` says that a power cut at some moment of that run can leave `s'`;
the moments before the first call and after the last one are included, so
`Cuts` also collects *every intermediate state* of the run.

## How properties are proved

`wp M p Q C s` is the weakest precondition with a crash condition: every return
satisfies `Q` and every cut satisfies `C`.  It is computed along the tree, so a
routine is verified call by call (`wp_call`), sub-routines are used through
their own specification (`wp_bind`, `wp_mono`), and `wp_iff` connects the result
with the two relations.
-/

namespace CovioFirmware
namespace Crash

universe u

variable {ι : Type} {ρ : ι → Type} {σ : Type u} {α β : Type}

/-- A program over an interface with calls `ι` answered by `ρ`: it returns, or
it makes one call and goes on with the answer. -/
inductive Prog (ι : Type) (ρ : ι → Type) (α : Type) : Type where
  | ret (a : α) : Prog ι ρ α
  | call (i : ι) (k : ρ i → Prog ι ρ α) : Prog ι ρ α

namespace Prog

/-- Sequencing. -/
def bind : Prog ι ρ α → (α → Prog ι ρ β) → Prog ι ρ β
  | ret a, f => f a
  | call i k, f => call i fun r => (k r).bind f

/-- The program that makes one call and returns its answer. -/
def lift (i : ι) : Prog ι ρ (ρ i) := call i ret

instance : Monad (Prog ι ρ) where
  pure := ret
  bind := bind

@[simp] theorem pure_eq_ret (a : α) : (pure a : Prog ι ρ α) = ret a := rfl

@[simp] theorem ret_bind (a : α) (f : α → Prog ι ρ β) : (ret a >>= f) = f a := rfl

@[simp] theorem call_bind (i : ι) (k : ρ i → Prog ι ρ α) (f : α → Prog ι ρ β) :
    (call i k >>= f) = call i fun r => k r >>= f := rfl

@[simp] theorem lift_bind (i : ι) (f : ρ i → Prog ι ρ β) :
    ((lift i : Prog ι ρ (ρ i)) >>= f) = call i f := rfl

end Prog

/-- What an environment does with the calls: the answers and states a completed
call may give, and the states a power cut inside the call may leave. -/
structure Sem (ι : Type) (ρ : ι → Type) (σ : Type u) where
  /-- `post i s r s'`: the call `i` made in `s` may answer `r` and leave `s'`. -/
  post : (i : ι) → σ → ρ i → σ → Prop
  /-- `cut i s s'`: power lost inside the call `i` made in `s` may leave `s'`. -/
  cut : ι → σ → σ → Prop

variable (M : Sem ι ρ σ)

/-- The completed runs of a program. -/
inductive Runs : Prog ι ρ α → σ → α → σ → Prop where
  | ret (a : α) (s : σ) : Runs (.ret a) s a s
  | call {i : ι} {k : ρ i → Prog ι ρ α} {s s' s'' : σ} {r : ρ i} {a : α} :
      M.post i s r s' → Runs (k r) s' a s'' → Runs (.call i k) s a s''

/-- The states a power cut can leave: the state between two calls, a state inside
the call under way, or a state of the rest of the run. -/
inductive Cuts : Prog ι ρ α → σ → σ → Prop where
  | here (p : Prog ι ρ α) (s : σ) : Cuts p s s
  | during {i : ι} {k : ρ i → Prog ι ρ α} {s s' : σ} :
      M.cut i s s' → Cuts (.call i k) s s'
  | later {i : ι} {k : ρ i → Prog ι ρ α} {s s' s'' : σ} {r : ρ i} :
      M.post i s r s' → Cuts (k r) s' s'' → Cuts (.call i k) s s''

/-- The weakest precondition for `Q` on return and `C` at every cut. -/
def wp : Prog ι ρ α → (α → σ → Prop) → (σ → Prop) → σ → Prop
  | .ret a, Q, C, s => C s ∧ Q a s
  | .call i k, Q, C, s =>
      C s ∧ (∀ s', M.cut i s s' → C s') ∧
        ∀ r s', M.post i s r s' → wp (k r) Q C s'

variable {M}

@[simp] theorem wp_ret (a : α) (Q : α → σ → Prop) (C : σ → Prop) (s : σ) :
    wp M (.ret a : Prog ι ρ α) Q C s ↔ C s ∧ Q a s := Iff.rfl

theorem wp_call {i : ι} {k : ρ i → Prog ι ρ α} {Q : α → σ → Prop} {C : σ → Prop} {s : σ}
    (hs : C s) (hcut : ∀ s', M.cut i s s' → C s')
    (hpost : ∀ r s', M.post i s r s' → wp M (k r) Q C s') :
    wp M (.call i k) Q C s := ⟨hs, hcut, hpost⟩

/-- A cut may come before the first call. -/
theorem wp_here {p : Prog ι ρ α} {Q : α → σ → Prop} {C : σ → Prop} {s : σ}
    (h : wp M p Q C s) : C s := by
  cases p with
  | ret a => exact h.1
  | call i k => exact h.1

/-- **Consequence.** -/
theorem wp_mono {p : Prog ι ρ α} {Q Q' : α → σ → Prop} {C C' : σ → Prop} {s : σ}
    (h : wp M p Q C s) (hQ : ∀ a s', Q a s' → Q' a s') (hC : ∀ s', C s' → C' s') :
    wp M p Q' C' s := by
  induction p generalizing s with
  | ret a => exact ⟨hC s h.1, hQ a s h.2⟩
  | call i k ih =>
    exact ⟨hC s h.1, fun s' hs' => hC s' (h.2.1 s' hs'),
      fun r s' hr => ih r (h.2.2 r s' hr)⟩

/-- **Sequencing.**  The crash condition is shared; the return condition of the
first program is the precondition of the second. -/
theorem wp_bind {p : Prog ι ρ α} {f : α → Prog ι ρ β} {Q : β → σ → Prop}
    {C : σ → Prop} {s : σ}
    (h : wp M p (fun a s' => wp M (f a) Q C s') C s) : wp M (p >>= f) Q C s := by
  induction p generalizing s with
  | ret a => exact h.2
  | call i k ih => exact ⟨h.1, h.2.1, fun r s' hr => ih r (h.2.2 r s' hr)⟩

/-- Using the specification of a sub-routine inside a longer one. -/
theorem wp_bind_of {p : Prog ι ρ α} {f : α → Prog ι ρ β} {Q : α → σ → Prop}
    {Q' : β → σ → Prop} {C C' : σ → Prop} {s : σ}
    (h : wp M p Q C s) (hC : ∀ s', C s' → C' s')
    (hf : ∀ a s', Q a s' → wp M (f a) Q' C' s') : wp M (p >>= f) Q' C' s :=
  wp_bind (wp_mono h hf hC)

/-- The crash condition holds of the return state too. -/
theorem wp_ret_cut {p : Prog ι ρ α} {Q : α → σ → Prop} {C : σ → Prop} {s : σ}
    (h : wp M p Q C s) : wp M p (fun a s' => C s' ∧ Q a s') C s := by
  induction p generalizing s with
  | ret a => exact ⟨h.1, h⟩
  | call i k ih => exact ⟨h.1, h.2.1, fun r s' hr => ih r (h.2.2 r s' hr)⟩

/-- A routine that ends by repackaging the result of another one. -/
theorem wp_map {p : Prog ι ρ α} {f : α → β} {Q : β → σ → Prop} {C : σ → Prop} {s : σ}
    (h : wp M p (fun a s' => Q (f a) s') C s) : wp M (p >>= fun a => .ret (f a)) Q C s := by
  induction p generalizing s with
  | ret a => exact h
  | call i k ih => exact ⟨h.1, h.2.1, fun r s' hr => ih r (h.2.2 r s' hr)⟩

/-- **Soundness and completeness** of the weakest precondition. -/
theorem wp_iff {p : Prog ι ρ α} {Q : α → σ → Prop} {C : σ → Prop} {s : σ} :
    wp M p Q C s ↔
      (∀ a s', Runs M p s a s' → Q a s') ∧ ∀ s', Cuts M p s s' → C s' := by
  induction p generalizing s with
  | ret a =>
    constructor
    · rintro ⟨hC, hQ⟩
      refine ⟨fun b s' h => ?_, fun s' h => ?_⟩
      · cases h; exact hQ
      · cases h; exact hC
    · rintro ⟨hQ, hC⟩
      exact ⟨hC s (.here _ s), hQ a s (.ret a s)⟩
  | call i k ih =>
    constructor
    · rintro ⟨hs, hcut, hpost⟩
      refine ⟨fun b s' h => ?_, fun s' h => ?_⟩
      · cases h with
        | call hr hk => exact (ih _ |>.mp (hpost _ _ hr)).1 b s' hk
      · cases h with
        | here => exact hs
        | during hc => exact hcut _ hc
        | later hr hk => exact (ih _ |>.mp (hpost _ _ hr)).2 s' hk
    · rintro ⟨hQ, hC⟩
      refine ⟨hC s (.here _ s), fun s' hc => hC s' (.during hc), fun r s' hr => ?_⟩
      exact (ih r).mpr ⟨fun b s'' hk => hQ b s'' (.call hr hk),
        fun s'' hk => hC s'' (.later hr hk)⟩

theorem wp.runs {p : Prog ι ρ α} {Q : α → σ → Prop} {C : σ → Prop} {s : σ}
    (h : wp M p Q C s) {a : α} {s' : σ} (hr : Runs M p s a s') : Q a s' :=
  (wp_iff.mp h).1 a s' hr

theorem wp.cuts {p : Prog ι ρ α} {Q : α → σ → Prop} {C : σ → Prop} {s : σ}
    (h : wp M p Q C s) {s' : σ} (hc : Cuts M p s s') : C s' :=
  (wp_iff.mp h).2 s' hc

/-- Two specifications of one program hold together. -/
theorem wp_and {p : Prog ι ρ α} {Q Q' : α → σ → Prop} {C C' : σ → Prop} {s : σ}
    (h : wp M p Q C s) (h' : wp M p Q' C' s) :
    wp M p (fun a s' => Q a s' ∧ Q' a s') (fun s' => C s' ∧ C' s') s :=
  wp_iff.mpr ⟨fun _ _ hr => ⟨h.runs hr, h'.runs hr⟩, fun _ hc => ⟨h.cuts hc, h'.cuts hc⟩⟩

/-! ## Facts about the result alone -/

/-- Whatever the calls answer, the result satisfies `P`. -/
def Prog.Returns (P : α → Prop) : Prog ι ρ α → Prop
  | .ret a => P a
  | .call _ k => ∀ r, (k r).Returns P

theorem Prog.Returns.bind {P : α → Prop} {P' : β → Prop} {p : Prog ι ρ α} {f : α → Prog ι ρ β}
    (hp : p.Returns P) (hf : ∀ a, P a → (f a).Returns P') : (p >>= f).Returns P' := by
  induction p with
  | ret a => exact hf a hp
  | call i k ih => exact fun r => ih r (hp r)

theorem Prog.Returns.trivial : ∀ p : Prog ι ρ α, p.Returns fun _ => True
  | .ret _ => True.intro
  | .call _ k => fun r => Prog.Returns.trivial (k r)

theorem Prog.Returns.wp {P : α → Prop} {p : Prog ι ρ α} (hp : p.Returns P) (s : σ) :
    Crash.wp M p (fun a _ => P a) (fun _ => True) s := by
  induction p generalizing s with
  | ret a => exact ⟨True.intro, hp⟩
  | call i k ih => exact ⟨True.intro, fun _ _ => True.intro, fun r s' _ => ih r (hp r) s'⟩

/-! ## Simulation -/

/-- Every call of the program, whatever the answers, satisfies `P`. -/
def Prog.Makes (P : ι → Prop) : Prog ι ρ α → Prop
  | .ret _ => True
  | .call i k => P i ∧ ∀ r, (k r).Makes P

theorem Prog.Makes.call {P : ι → Prop} {i : ι} {k : ρ i → Prog ι ρ α} (hi : P i)
    (hk : ∀ r, (k r).Makes P) : (Prog.call i k).Makes P := ⟨hi, hk⟩

theorem Prog.Makes.bind {P : ι → Prop} {p : Prog ι ρ α} {f : α → Prog ι ρ β}
    (hp : p.Makes P) (hf : ∀ a, (f a).Makes P) : (p >>= f).Makes P := by
  induction p with
  | ret a => exact hf a
  | call i k ih => exact ⟨hp.1, fun r => ih r (hp.2 r)⟩

theorem Prog.Makes.trivial : ∀ p : Prog ι ρ α, p.Makes fun _ => True
  | .ret _ => True.intro
  | .call _ k => ⟨True.intro, fun r => Prog.Makes.trivial (k r)⟩

/-- **A specification moves along a simulation.**  If, in the states where `I`
holds, what `M` does with the calls of a program is something `M'` may do with
them on the images under `f`, then what is known of the program under `M'` holds
under `M`. -/
theorem wp_simulate {τ : Type u} {M' : Sem ι ρ τ} {P : ι → Prop} {f : σ → τ} {I : σ → Prop}
    (hpost : ∀ i, P i → ∀ s r s', I s → M.post i s r s' → M'.post i (f s) r (f s') ∧ I s')
    (hcut : ∀ i, P i → ∀ s s', I s → M.cut i s s' → M'.cut i (f s) (f s') ∧ I s')
    {p : Prog ι ρ α} (hp : p.Makes P) {Q : α → τ → Prop} {C : τ → Prop} {s : σ} (hs : I s)
    (h : wp M' p Q C (f s)) :
    wp M p (fun a s' => Q a (f s') ∧ I s') (fun s' => C (f s') ∧ I s') s := by
  induction p generalizing s with
  | ret a => exact ⟨⟨h.1, hs⟩, h.2, hs⟩
  | call i k ih =>
    refine ⟨⟨h.1, hs⟩, fun s' hs' => ?_, fun r s' hr => ?_⟩
    · obtain ⟨h1, h2⟩ := hcut i hp.1 s s' hs hs'
      exact ⟨h.2.1 _ h1, h2⟩
    · obtain ⟨h1, h2⟩ := hpost i hp.1 s r s' hs hr
      exact ih r (hp.2 r) h2 (h.2.2 r _ h1)

/-! ## Runs -/

/-- The state a completed run leaves is also one a cut can leave. -/
theorem Runs.cuts {p : Prog ι ρ α} {s s' : σ} {a : α} (h : Runs M p s a s') :
    Cuts M p s s' := by
  induction h with
  | ret a s => exact .here _ s
  | call hr _ ih => exact .later hr ih

/-! ## Running a program with one chosen answer to every call -/

/-- Runs the program with the answers of `f`. -/
def Prog.exec (f : (i : ι) → σ → ρ i × σ) : Prog ι ρ α → σ → α × σ
  | .ret a, s => (a, s)
  | .call i k, s => (k (f i s).1).exec f (f i s).2

/-- If every answer of `f` is one the environment may give in the states the
execution goes through, the execution is a run. -/
theorem Prog.exec_runs {f : (i : ι) → σ → ρ i × σ} {I : σ → Prop}
    (hf : ∀ i s, I s → M.post i s (f i s).1 (f i s).2 ∧ I (f i s).2) (p : Prog ι ρ α) {s : σ}
    (hs : I s) : Runs M p s (p.exec f s).1 (p.exec f s).2 := by
  induction p generalizing s with
  | ret a => exact .ret a s
  | call i k ih => exact .call (hf i s hs).1 (ih _ (hf i s hs).2)

/-- Runs compose along sequencing. -/
theorem Runs.bind {p : Prog ι ρ α} {f : α → Prog ι ρ β} {s s' s'' : σ} {a : α} {b : β}
    (h : Runs M p s a s') (hf : Runs M (f a) s' b s'') : Runs M (p >>= f) s b s'' := by
  induction h with
  | ret a s => exact hf
  | call hr _ ih => exact .call hr (ih hf)

/-- A cut of the first part is a cut of the whole. -/
theorem Cuts.bind {p : Prog ι ρ α} {s s' : σ} (h : Cuts M p s s') (f : α → Prog ι ρ β) :
    Cuts M (p >>= f) s s' := by
  induction h with
  | here p s => exact .here _ s
  | during hc => exact .during hc
  | later hr _ ih => exact .later hr ih

/-- A cut of the second part, after the first has completed. -/
theorem Runs.bind_cuts {p : Prog ι ρ α} {f : α → Prog ι ρ β} {s s' s'' : σ} {a : α}
    (h : Runs M p s a s') (hf : Cuts M (f a) s' s'') : Cuts M (p >>= f) s s'' := by
  induction h with
  | ret a s => exact hf
  | call hr _ ih => exact .later hr (ih hf)

end Crash
end CovioFirmware
