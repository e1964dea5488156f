import CovioFirmware.Crash.Program

/-!
# One connection to a database

What a program sees of a transactional database through one connection, with the
transaction control of Python's `sqlite3`: a statement that changes rows opens a
transaction if none is open, a statement that changes the schema does not, and what
an open transaction has written is lost unless it is committed.

The database is a value, and a dialect (`Dialect`) says what its queries answer and
what its statements do.  A statement may fail, for a constraint or a missing table;
the program then ends with an exception, and closing its connection rolls back.  So
the store of a connection is two values, the committed one and the one its open
transaction has made of it, and a program over the calls (`Call`) is a `Prog`, whose
cuts are its crash and exception points: what survives one is the committed value.
-/

namespace CovioFirmware
namespace Sql

open Crash

/-- The queries and statements of a database of type `δ`. -/
structure Dialect (δ : Type) where
  Query : Type
  Answer : Query → Type
  read : (q : Query) → δ → Answer q
  Write : Type
  Result : Write → Type
  /-- What a statement answers and leaves, `none` if it fails. -/
  write : (w : Write) → δ → Option (Result w × δ)

variable {δ : Type} {D : Dialect δ} {α β : Type}

/-- The calls on a connection. -/
inductive Call (D : Dialect δ) where
  /-- `SELECT`. -/
  | query (q : D.Query) : Call D
  /-- `INSERT` or `UPDATE`. -/
  | exec (w : D.Write) : Call D
  /-- A statement that does not open a transaction: one that changes the schema, one of a
  script, or a `SELECT` that can fail. -/
  | ddl (w : D.Write) : Call D
  /-- `BEGIN`. -/
  | start : Call D
  | commit : Call D

/-- What a call answers. -/
abbrev Call.Reply : Call D → Type
  | .query q => D.Answer q
  | .exec w => D.Result w
  | .ddl w => D.Result w
  | .start => Unit
  | .commit => Unit

/-- The database as a connection sees it. -/
structure Store (δ : Type) where
  committed : δ
  /-- What the open transaction has made of it, if one is open. -/
  pending : Option δ

/-- What the connection reads. -/
def Store.current (s : Store δ) : δ := s.pending.getD s.committed

/-- The store of a connection without a transaction. -/
def Store.idle (d : δ) : Store δ := ⟨d, none⟩

/-- One call, `none` if it fails. -/
def Call.step : (c : Call D) → Store δ → Option (c.Reply × Store δ)
  | .query q, s => some (D.read q s.current, s)
  | .exec w, s => (D.write w s.current).map fun x => (x.1, ⟨s.committed, some x.2⟩)
  | .ddl w, s => (D.write w s.current).map fun x =>
      (x.1, if s.pending.isSome then ⟨s.committed, some x.2⟩ else ⟨x.2, none⟩)
  | .start, s => if s.pending.isSome then none else some ((), ⟨s.committed, some s.committed⟩)
  | .commit, s => some ((), ⟨s.current, none⟩)

/-- A program that uses one connection. -/
abbrev Session (D : Dialect δ) (α : Type) := Prog (Call D) Call.Reply α

namespace Session

def query (q : D.Query) : Session D (D.Answer q) := .call (.query q) .ret

def exec (w : D.Write) : Session D (D.Result w) := .call (.exec w) .ret

def ddl (w : D.Write) : Session D (D.Result w) := .call (.ddl w) .ret

def start : Session D Unit := .call .start .ret

def commit : Session D Unit := .call .commit .ret

end Session

/-- The calls as an environment.  A call happens or does not happen, so that the moments
between the calls are the only ones at which a program can be cut. -/
def sem (D : Dialect δ) : Sem (Call D) Call.Reply (Store δ) where
  post c s r s' := c.step s = some (r, s')
  cut _ _ _ := False

/-- A program run to its end, or up to the exception: what is committed then, and the
result if there is one. -/
def Session.perform : Session D α → Store δ → δ × Option α
  | .ret a, s => (s.committed, some a)
  | .call c k, s =>
      match c.step s with
      | none => (s.committed, none)
      | some x => Session.perform (k x.1) x.2

/-- The store after `n` calls, or at the end. -/
def Session.after : Nat → Session D α → Store δ → Store δ
  | 0, _, s => s
  | _ + 1, .ret _, s => s
  | n + 1, .call c k, s =>
      match c.step s with
      | none => s
      | some x => Session.after n (k x.1) x.2

/-- A program can be cut after any number of calls. -/
theorem Session.cuts_after (n : Nat) (p : Session D α) (s : Store δ) :
    Cuts (sem D) p s (p.after n s) := by
  induction n generalizing p s with
  | zero => exact .here p s
  | succ n ih =>
    cases p with
    | ret a => exact .here _ s
    | call c k =>
      rw [Session.after]
      cases hstep : c.step s with
      | none => exact .here _ s
      | some x => exact .later hstep (ih (k x.1) x.2)

/-! ## Call by call -/

theorem Call.step_exec {w : D.Write} {s : Store δ} {a : D.Result w} {d : δ}
    (h : D.write w s.current = some (a, d)) :
    (Call.exec w).step s = some (a, ⟨s.committed, some d⟩) := by
  rw [Call.step, h]
  rfl

theorem Call.of_step_exec {w : D.Write} {s s' : Store δ} {a : D.Result w}
    (h : (Call.exec w).step s = some (a, s')) :
    ∃ d, D.write w s.current = some (a, d) ∧ s' = ⟨s.committed, some d⟩ := by
  obtain ⟨⟨b, d⟩, hwrite, hx⟩ := Option.map_eq_some_iff.mp h
  obtain ⟨rfl, rfl⟩ := Prod.mk.inj hx
  exact ⟨d, hwrite, rfl⟩

section Wp

variable {Q : α → Store δ → Prop} {C : Store δ → Prop} {s : Store δ}

theorem wp_step {c : Call D} {k : c.Reply → Session D α} (hs : C s)
    (h : ∀ r s', c.step s = some (r, s') → wp (sem D) (k r) Q C s') :
    wp (sem D) (.call c k) Q C s := ⟨hs, fun _ h => h.elim, h⟩

theorem wp_query {q : D.Query} {k : D.Answer q → Session D α} (hs : C s)
    (h : wp (sem D) (k (D.read q s.current)) Q C s) :
    wp (sem D) (.call (.query q) k) Q C s := by
  refine wp_step hs fun r s' hr => ?_
  obtain ⟨rfl, rfl⟩ := Prod.mk.inj (Option.some.inj hr)
  exact h

theorem wp_exec {w : D.Write} {k : D.Result w → Session D α} (hs : C s)
    (h : ∀ r d, D.write w s.current = some (r, d) →
      wp (sem D) (k r) Q C ⟨s.committed, some d⟩) :
    wp (sem D) (.call (.exec w) k) Q C s := by
  refine wp_step hs fun r s' hr => ?_
  obtain ⟨d, hw, rfl⟩ := Call.of_step_exec hr
  exact h r d hw

theorem wp_commit {k : Unit → Session D α} (hs : C s)
    (h : wp (sem D) (k ()) Q C (.idle s.current)) : wp (sem D) (.call .commit k) Q C s := by
  refine wp_step hs fun r s' hr => ?_
  obtain ⟨rfl, rfl⟩ := Prod.mk.inj (Option.some.inj hr)
  exact h

end Wp

/-! ## Programs that write little -/

/-- The statement of the call, if it is one that writes, is of this kind. -/
def Call.Writes (W : D.Write → Prop) : Call D → Prop
  | .exec w => W w
  | .ddl w => W w
  | _ => True

/-- Every statement of the program is of this kind. -/
def Session.Writes (W : D.Write → Prop) : Session D α → Prop
  | .ret _ => True
  | .call c k => c.Writes W ∧ ∀ r, Session.Writes W (k r)

theorem Session.writes_bind {W : D.Write → Prop} {p : Session D α} {f : α → Session D β}
    (h : p.Writes W) (hf : ∀ a, (f a).Writes W) : Session.Writes W (p >>= f) := by
  induction p with
  | ret a => exact hf a
  | call c k ih => exact ⟨h.1, fun r => ih r (h.2 r)⟩

/-- **An invariant** of the statements of a program is one of the program, whatever
happens to it. -/
theorem Session.perform_invariant {W : D.Write → Prop} {I : δ → Prop}
    (hI : ∀ w, W w → ∀ d r d', D.write w d = some (r, d') → I d → I d') {p : Session D α}
    (h : p.Writes W) {s : Store δ} (hs : I s.committed) (hcurrent : I s.current) :
    I (p.perform s).1 := by
  induction p generalizing s with
  | ret a => exact hs
  | call c k ih =>
    rw [Session.perform]
    cases hstep : c.step s with
    | none => exact hs
    | some x =>
      have hnext : I x.2.committed ∧ I x.2.current := by
        cases c with
        | query q => obtain rfl := Option.some.inj hstep; exact ⟨hs, hcurrent⟩
        | exec w =>
          obtain ⟨⟨r, d⟩, hwrite, rfl⟩ := Option.map_eq_some_iff.mp hstep
          exact ⟨hs, hI w h.1 _ _ _ hwrite hcurrent⟩
        | ddl w =>
          obtain ⟨⟨r, d⟩, hwrite, rfl⟩ := Option.map_eq_some_iff.mp hstep
          have hd := hI w h.1 _ _ _ hwrite hcurrent
          dsimp only
          split
          · exact ⟨hs, hd⟩
          · exact ⟨hd, hd⟩
        | start =>
          obtain ⟨-, hx⟩ := Option.ite_none_left_eq_some.mp hstep
          obtain rfl := Option.some.inj hx
          exact ⟨hs, hs⟩
        | commit => obtain rfl := Option.some.inj hstep; exact ⟨hcurrent, hcurrent⟩
      exact ih x.1 (h.2 x.1) hnext.1 hnext.2

/-! ## Programs that come to their end

A connection is deterministic, so a program that is alone on the database has one run.
`Completes` says that this run meets no exception, what it returns, and what is
committed on the way. -/

/-- The program runs to its end, in a store that satisfies `Q`, and at every moment what
is committed satisfies `C`. -/
def Completes (Q : α → Store δ → Prop) (C : δ → Prop) : Session D α → Store δ → Prop
  | .ret a, s => C s.committed ∧ Q a s
  | .call c k, s => C s.committed ∧ ∃ r s', c.step s = some (r, s') ∧ Completes Q C (k r) s'

section Completes

variable {Q : α → Store δ → Prop} {C : δ → Prop} {s : Store δ}

theorem completes_step {c : Call D} {k : c.Reply → Session D α} {r : c.Reply} {s' : Store δ}
    (hs : C s.committed) (hstep : c.step s = some (r, s')) (h : Completes Q C (k r) s') :
    Completes Q C (.call c k) s := ⟨hs, r, s', hstep, h⟩

theorem completes_query {q : D.Query} {k : D.Answer q → Session D α} (hs : C s.committed)
    (h : Completes Q C (k (D.read q s.current)) s) : Completes Q C (.call (.query q) k) s :=
  completes_step hs rfl h

theorem completes_exec {w : D.Write} {k : D.Result w → Session D α} {r : D.Result w} {d : δ}
    (hs : C s.committed) (hw : D.write w s.current = some (r, d))
    (h : Completes Q C (k r) ⟨s.committed, some d⟩) : Completes Q C (.call (.exec w) k) s :=
  completes_step hs (Call.step_exec hw) h

theorem completes_ddl {w : D.Write} {k : D.Result w → Session D α} {r : D.Result w} {c d : δ}
    (hs : C c) (hw : D.write w c = some (r, d)) (h : Completes Q C (k r) (.idle d)) :
    Completes Q C (.call (.ddl w) k) (.idle c) := by
  refine completes_step hs ?_ h
  show (D.write w c).map _ = _
  rw [hw]
  rfl

theorem completes_ddl_pending {w : D.Write} {k : D.Result w → Session D α} {r : D.Result w}
    {c d d' : δ} (hs : C c) (hw : D.write w d = some (r, d'))
    (h : Completes Q C (k r) ⟨c, some d'⟩) : Completes Q C (.call (.ddl w) k) ⟨c, some d⟩ := by
  refine completes_step hs ?_ h
  show (D.write w d).map _ = _
  rw [hw]
  rfl

theorem completes_start {k : Unit → Session D α} {d : δ} (hs : C d)
    (h : Completes Q C (k ()) ⟨d, some d⟩) : Completes Q C (.call .start k) (.idle d) :=
  completes_step hs rfl h

theorem completes_commit {k : Unit → Session D α} (hs : C s.committed)
    (h : Completes Q C (k ()) (.idle s.current)) : Completes Q C (.call .commit k) s :=
  completes_step hs rfl h

/-- **Sequencing.** -/
theorem completes_bind {p : Session D α} {f : α → Session D β} {Q' : β → Store δ → Prop}
    (h : Completes Q C p s) (hf : ∀ a s, Q a s → Completes Q' C (f a) s) :
    Completes Q' C (p >>= f) s := by
  induction p generalizing s with
  | ret a => exact hf a s h.2
  | call c k ih =>
    obtain ⟨hs, r, s', hstep, h⟩ := h
    exact ⟨hs, r, s', hstep, ih r h⟩

/-- What is committed on the way satisfies `C`. -/
theorem Completes.committed {p : Session D α} (h : Completes Q C p s) : C s.committed := by
  cases p with
  | ret a => exact h.1
  | call c k => exact h.1

/-- A program that completes returns. -/
theorem Completes.perform {p : Session D α} (h : Completes Q C p s) :
    ∃ a s', p.perform s = (s'.committed, some a) ∧ C s'.committed ∧ Q a s' := by
  induction p generalizing s with
  | ret a => exact ⟨a, s, rfl, h⟩
  | call c k ih =>
    obtain ⟨-, r, s', hstep, h⟩ := h
    rw [Session.perform, hstep]
    exact ih r h

/-- A crash leaves what was committed. -/
theorem Completes.cuts {p : Session D α} {s' : Store δ} (h : Completes Q C p s)
    (hcut : Cuts (sem D) p s s') : C s'.committed := by
  induction hcut with
  | here => exact h.committed
  | during hduring => exact hduring.elim
  | later hpost _ ih =>
    obtain ⟨-, r, s', hstep, h⟩ := h
    obtain ⟨rfl, rfl⟩ := Prod.mk.inj (Option.some.inj (hpost.symm.trans hstep))
    exact ih h

end Completes

end Sql
end CovioFirmware
