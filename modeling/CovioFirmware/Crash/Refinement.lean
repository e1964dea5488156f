import CovioFirmware.Crash.System

/-!
# Machines seen through a map of their stores

One machine refines another along a map `f` of the stores when it has the same routines,
when what its environment does with a call is, seen through `f`, something the other
environment may do, and when a move of its surroundings is one there or does not show.
Then its runs are runs of the other machine (`Reach.refines`), so that what is known of
every run there holds here.

`Reach.guarded` lets a proof by `Reach.invariant` use such facts: at every move it may
assume that the configuration it starts in is reached.  `Reach.wp_op` and `Reach.wp_boot`
say of an operation and of the boot routine that what they leave is reached again; with
these a machine whose routines are made of those of another one is shown to stay inside
the runs of that one.
-/

namespace CovioFirmware
namespace Crash

universe u v

variable {κ : Type} {ρ : κ → Type} {σ τ : Type u} {R β ι α : Type} {γ γ' : Type v}

section Image

variable {M : Sem κ ρ σ} {M' : Sem κ ρ τ} {f : σ → τ} {p : Prog κ ρ α} {s s' : σ} {a : α}

/-- A run seen through a map of the states. -/
theorem Runs.image (hpost : ∀ i s r s', M.post i s r s' → M'.post i (f s) r (f s'))
    (h : Runs M p s a s') : Runs M' p (f s) a (f s') := by
  induction h with
  | ret a s => exact .ret a (f s)
  | call hr _ ih => exact .call (hpost _ _ _ _ hr) ih

theorem Cuts.image (hpost : ∀ i s r s', M.post i s r s' → M'.post i (f s) r (f s'))
    (hcut : ∀ i s s', M.cut i s s' → M'.cut i (f s) (f s')) (h : Cuts M p s s') :
    Cuts M' p (f s) (f s') := by
  induction h with
  | here p s => exact .here p (f s)
  | during hc => exact .during (hcut _ _ _ hc)
  | later hr _ ih => exact .later (hpost _ _ _ _ hr) ih

end Image

/-- The configuration seen through the map. -/
def Node.map (f : σ → τ) : Node R σ → Node R τ
  | .off s => .off (f s)
  | .on r s => .on r (f s)

@[simp] theorem Node.store_map (f : σ → τ) (n : Node R σ) : (n.map f).store = f n.store := by
  cases n <;> rfl

/-- What `D` does is, seen through `f`, something that `D'` may do. -/
structure Refines (D : Machine κ ρ σ R β ι) (D' : Machine κ ρ τ R β ι) (f : σ → τ) : Prop where
  post : ∀ i s r s', D.sem.post i s r s' → D'.sem.post i (f s) r (f s')
  cut : ∀ i s s', D.sem.cut i s s' → D'.sem.cut i (f s) (f s')
  boot : ∀ b, D'.boot b = D.boot b
  op : ∀ i r, D'.op i r = D.op i r
  env : ∀ n n', D.env n n' → D'.env (n.map f) (n'.map f) ∨ n'.map f = n.map f

section Refinement

variable {D : Machine κ ρ σ R β ι} {D' : Machine κ ρ τ R β ι} {f : σ → τ}
  {ok : Action β ι → Node R σ → γ → Prop} {ok' : Action β ι → Node R τ → γ' → Prop}
  {track : Action β ι → Node R σ → Node R σ → γ → γ}
  {track' : Action β ι → Node R τ → Node R τ → γ' → γ'}
  {init : Node R σ → γ → Prop} {init' : Node R τ → γ' → Prop} {h : γ → γ'}

/-- A move of `D` is one of `D'`, or does not show. -/
theorem Refines.step (hD : Refines D D' f) {a : Action β ι} {n n' : Node R σ}
    (hn : Step D a n n') :
    Step D' a (n.map f) (n'.map f) ∨ a = .env ∧ n'.map f = n.map f := by
  cases hn with
  | boot hr => exact .inl (.boot ((hD.boot _).symm ▸ hr.image hD.post))
  | bootCut hc => exact .inl (.bootCut ((hD.boot _).symm ▸ hc.image hD.post hD.cut))
  | op hr => exact .inl (.op ((hD.op _ _).symm ▸ hr.image hD.post))
  | opCut hc => exact .inl (.opCut ((hD.op _ _).symm ▸ hc.image hD.post hD.cut))
  | env he => exact (hD.env _ _ he).imp .env fun hsame => ⟨rfl, hsame⟩

/-- **The runs of `D` are runs of `D'`**, and their histories go with them. -/
theorem Reach.refines (hD : Refines D D' f) (hinit : ∀ n g, init n g → init' (n.map f) (h g))
    (hok : ∀ a n g, ok a n g → ok' a (n.map f) (h g))
    (htrack : ∀ a n n' g, h (track a n n' g) = track' a (n.map f) (n'.map f) (h g))
    (hstill : ∀ n g, track' .env n n g = g) {n : Node R σ} {g : γ}
    (hn : Reach D ok track init n g) : Reach D' ok' track' init' (n.map f) (h g) := by
  induction hn with
  | init hi => exact .init (hinit _ _ hi)
  | step _ ha hstep ih =>
    rcases hD.step hstep with hs | ⟨rfl, hsame⟩
    · exact htrack _ _ _ _ ▸ .step ih (hok _ _ _ ha) hs
    · rw [htrack, hsame, hstill]
      exact ih

/-- The same run with less of its history. -/
theorem Reach.forget {ok' : Action β ι → Node R σ → γ' → Prop}
    {track' : Action β ι → Node R σ → Node R σ → γ' → γ'} {init' : Node R σ → γ' → Prop}
    (hinit : ∀ n g, init n g → init' n (h g)) (hok : ∀ a n g, ok a n g → ok' a n (h g))
    (htrack : ∀ a n n' g, h (track a n n' g) = track' a n n' (h g)) {n : Node R σ} {g : γ}
    (hn : Reach D ok track init n g) : Reach D ok' track' init' n (h g) := by
  induction hn with
  | init hi => exact .init (hinit _ _ hi)
  | step _ ha hstep ih => exact htrack _ _ _ _ ▸ .step ih (hok _ _ _ ha) hstep

/-- Every move of a run starts in a configuration that is itself reached. -/
theorem Reach.guarded {n : Node R σ} {g : γ} (hn : Reach D ok track init n g) :
    Reach D (fun a n g => ok a n g ∧ Reach D ok track init n g) track init n g := by
  induction hn with
  | init hi => exact .init hi
  | step hn hok hstep ih => exact .step ih ⟨hok, hn⟩ hstep

/-- An operation leaves what is reached. -/
theorem Reach.wp_op {i : ι} {r : R} {s : σ} {g : γ} (h : Reach D ok track init (.on r s) g)
    (hok : ok (.op i) (.on r s) g) :
    wp D.sem (D.op i r)
      (fun r' s' => Reach D ok track init (.on r' s') (track (.op i) (.on r s) (.on r' s') g))
      (fun s' => Reach D ok track init (.off s') (track (.op i) (.on r s) (.off s') g)) s :=
  wp_iff.mpr ⟨fun _ _ hr => .step h hok (.op hr), fun _ hc => .step h hok (.opCut hc)⟩

theorem Reach.wp_boot {b : β} {s : σ} {g : γ} (h : Reach D ok track init (.off s) g)
    (hok : ok (.boot b) (.off s) g) :
    wp D.sem (D.boot b)
      (fun r s' => Reach D ok track init (.on r s') (track (.boot b) (.off s) (.on r s') g))
      (fun s' => Reach D ok track init (.off s') (track (.boot b) (.off s) (.off s') g)) s :=
  wp_iff.mpr ⟨fun _ _ hr => .step h hok (.boot hr), fun _ hc => .step h hok (.bootCut hc)⟩

end Refinement

/-- A routine without the repackaging at its end. -/
theorem wp_of_map {M : Sem κ ρ σ} {α' : Type} {p : Prog κ ρ α} {f : α → α'}
    {Q : α' → σ → Prop} {C : σ → Prop} {s : σ} (h : wp M (p >>= fun a => .ret (f a)) Q C s) :
    wp M p (fun a s' => Q (f a) s') C s := by
  induction p generalizing s with
  | ret a => exact h
  | call i k ih => exact ⟨h.1, h.2.1, fun r s' hr => ih r (h.2.2 r s' hr)⟩

end Crash
end CovioFirmware
