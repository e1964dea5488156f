import CovioFirmware.Crash.Program

/-!
# Machines that are switched off and on

A machine keeps part of its state in a store that survives a power cut and the
rest in memory that does not.  Between cuts it performs operations; after a cut
it boots, and the boot routine rebuilds the memory from the store.  The boot
routine is a program like any other, so it can itself be cut.

A configuration is therefore `Node.off s` (only the store is left) or
`Node.on r s` (memory `r` over store `s`).  `Step` gives the moves, and `Reach`
the configurations of all runs whose moves satisfy a condition `ok`, carrying
along a history value that the machine itself never reads.

`Reach.invariant` is the induction rule: an invariant is a pair of predicates,
one for the store alone and one for the store with the memory, and it is enough
to give one weakest precondition per operation and one for the boot routine.
-/

namespace CovioFirmware
namespace Crash

universe u v

/-- A configuration: power off, or memory over a store. -/
inductive Node (R : Type) (σ : Type u) where
  | off (s : σ) : Node R σ
  | on (r : R) (s : σ) : Node R σ

/-- The store of a configuration. -/
def Node.store {R : Type} {σ : Type u} : Node R σ → σ
  | .off s => s
  | .on _ s => s

/-- What a move is an instance of: a boot, an operation, or a move of the
surroundings. -/
inductive Action (β ι : Type) where
  | boot (b : β) : Action β ι
  | op (i : ι) : Action β ι
  | env : Action β ι

/-- A machine: its environment, its boot routine and its operations, and the
moves of its surroundings. -/
structure Machine (κ : Type) (ρ : κ → Type) (σ : Type u) (R β ι : Type) where
  /-- The environment the programs run in. -/
  sem : Sem κ ρ σ
  /-- The boot routine, with what it is told by parts outside the model. -/
  boot : β → Prog κ ρ R
  /-- The operations. -/
  op : ι → R → Prog κ ρ R
  /-- What else may happen between two operations. -/
  env : Node R σ → Node R σ → Prop

variable {κ : Type} {ρ : κ → Type} {σ : Type u} {R β ι : Type} {γ : Type v}

/-- The moves.  Boots and operations complete or are cut. -/
inductive Step (D : Machine κ ρ σ R β ι) : Action β ι → Node R σ → Node R σ → Prop where
  | boot {b : β} {s s' : σ} {r : R} :
      Runs D.sem (D.boot b) s r s' → Step D (.boot b) (.off s) (.on r s')
  | bootCut {b : β} {s s' : σ} :
      Cuts D.sem (D.boot b) s s' → Step D (.boot b) (.off s) (.off s')
  | op {i : ι} {s s' : σ} {r r' : R} :
      Runs D.sem (D.op i r) s r' s' → Step D (.op i) (.on r s) (.on r' s')
  | opCut {i : ι} {s s' : σ} {r : R} :
      Cuts D.sem (D.op i r) s s' → Step D (.op i) (.on r s) (.off s')
  | env {n n' : Node R σ} : D.env n n' → Step D .env n n'

/-- The configurations of the runs from `init` whose moves all satisfy `ok`, each
with the history that `track` accumulates along the run. -/
inductive Reach (D : Machine κ ρ σ R β ι)
    (ok : Action β ι → Node R σ → γ → Prop)
    (track : Action β ι → Node R σ → Node R σ → γ → γ)
    (init : Node R σ → γ → Prop) : Node R σ → γ → Prop where
  | init {n : Node R σ} {g : γ} : init n g → Reach D ok track init n g
  | step {n n' : Node R σ} {g : γ} {a : Action β ι} :
      Reach D ok track init n g → ok a n g → Step D a n n' →
      Reach D ok track init n' (track a n n' g)

/-- The two halves of an invariant, read on a configuration. -/
def Node.Holds (Off : σ → γ → Prop) (On : R → σ → γ → Prop) : Node R σ → γ → Prop
  | .off s, g => Off s g
  | .on r s, g => On r s g

section Invariant

variable {D : Machine κ ρ σ R β ι} {ok : Action β ι → Node R σ → γ → Prop}
  {track : Action β ι → Node R σ → Node R σ → γ → γ} {init : Node R σ → γ → Prop}

/-- **The invariant rule.**  One weakest precondition for the boot routine, one
for each operation, and one implication for the surroundings. -/
theorem Reach.invariant {F : σ → γ → Prop} {N : R → σ → γ → Prop}
    (hinit : ∀ n g, init n g → n.Holds F N g)
    (hboot : ∀ b s g, ok (.boot b) (.off s) g → F s g →
      wp D.sem (D.boot b)
        (fun r s' => N r s' (track (.boot b) (.off s) (.on r s') g))
        (fun s' => F s' (track (.boot b) (.off s) (.off s') g)) s)
    (hop : ∀ i r s g, ok (.op i) (.on r s) g → N r s g →
      wp D.sem (D.op i r)
        (fun r' s' => N r' s' (track (.op i) (.on r s) (.on r' s') g))
        (fun s' => F s' (track (.op i) (.on r s) (.off s') g)) s)
    (henv : ∀ n n' g, ok .env n g → D.env n n' → n.Holds F N g →
      n'.Holds F N (track .env n n' g))
    {n : Node R σ} {g : γ} (h : Reach D ok track init n g) : n.Holds F N g := by
  induction h with
  | init hi => exact hinit _ _ hi
  | step _ hok hstep ih =>
    cases hstep with
    | boot hr => exact (hboot _ _ _ hok ih).runs hr
    | bootCut hc => exact (hboot _ _ _ hok ih).cuts hc
    | op hr => exact (hop _ _ _ _ hok ih).runs hr
    | opCut hc => exact (hop _ _ _ _ hok ih).cuts hc
    | env he => exact henv _ _ _ hok he ih

/-- Dropping the condition on the moves only adds runs. -/
theorem Reach.mono {ok' : Action β ι → Node R σ → γ → Prop}
    (hok : ∀ a n g, ok a n g → ok' a n g) {n : Node R σ} {g : γ}
    (h : Reach D ok track init n g) : Reach D ok' track init n g := by
  induction h with
  | init hi => exact .init hi
  | step _ ha hstep ih => exact .step ih (hok _ _ _ ha) hstep

end Invariant

end Crash
end CovioFirmware
