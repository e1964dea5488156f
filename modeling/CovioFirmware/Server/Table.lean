import Mathlib.Data.List.Basic

/-!
# Tables with constraints

A table of a relational database, as far as its constraints go: rows that satisfy the
NOT NULL constraints, no two of which have one primary key.  `Schema` names the two
conditions, `Table` carries them, and `insertOrIgnore` is the statement that skips a
row which would violate either.

A key may contain a NULL, and then no row has the same key, not even the row itself;
so `clash` need not be reflexive, and `not_accepts_iff` is what decides whether a
statement that was run before changes anything when it is run again.
-/

namespace CovioFirmware
namespace Server

/-- The constraints of a table: whether a row may stand in it, and whether two rows
have one key. -/
structure Schema (α : Type) where
  admits : α → Bool
  clash : α → α → Bool

/-- A table. -/
@[ext] structure Table {α : Type} (S : Schema α) where
  rows : List α
  admitted : ∀ x ∈ rows, S.admits x = true
  keyed : rows.Pairwise fun x y => S.clash x y = false

namespace Table

variable {α : Type} {S : Schema α}

/-- The table without rows. -/
def empty : Table S := ⟨[], fun _ h => absurd h List.not_mem_nil, .nil⟩

/-- The row may be added. -/
def Accepts (t : Table S) (row : α) : Prop :=
  S.admits row = true ∧ ∀ x ∈ t.rows, S.clash x row = false

instance (t : Table S) (row : α) : Decidable (t.Accepts row) :=
  inferInstanceAs (Decidable (_ ∧ ∀ x ∈ t.rows, _))

/-- `INSERT OR IGNORE`. -/
def insertOrIgnore (t : Table S) (row : α) : Table S :=
  if h : t.Accepts row then
    { rows := t.rows ++ [row]
      admitted := by
        intro x hx
        rcases List.mem_append.mp hx with hx | hx
        · exact t.admitted x hx
        · rw [List.mem_singleton.mp hx]
          exact h.1
      keyed := by
        rw [List.pairwise_append]
        refine ⟨t.keyed, List.pairwise_singleton _ _, fun x hx y hy => ?_⟩
        rw [List.mem_singleton.mp hy]
        exact h.2 x hx }
  else t

/-- `INSERT`; `none` for an `IntegrityError`. -/
def insert (t : Table S) (row : α) : Option (Table S) :=
  if t.Accepts row then some (t.insertOrIgnore row) else none

/-- The rows of `UPDATE … WHERE p`. -/
def updateRows (t : Table S) (p : α → Bool) (f : α → α) : List α :=
  t.rows.map fun x => if p x then f x else x

/-- `UPDATE … WHERE p`; `none` for an `IntegrityError`. -/
def update (t : Table S) (p : α → Bool) (f : α → α) : Option (Table S) :=
  if h : (∀ x ∈ t.updateRows p f, S.admits x = true) ∧
      (t.updateRows p f).Pairwise fun x y => S.clash x y = false then
    some ⟨t.updateRows p f, h.1, h.2⟩
  else none

theorem rows_insertOrIgnore (t : Table S) (row : α) :
    (t.insertOrIgnore row).rows = if t.Accepts row then t.rows ++ [row] else t.rows := by
  unfold insertOrIgnore
  split
  · rfl
  · rfl

theorem rows_of_insert {t t' : Table S} {row : α} (h : t.insert row = some t') :
    t.Accepts row ∧ t'.rows = t.rows ++ [row] := by
  obtain ⟨hacc, h⟩ := Option.ite_none_right_eq_some.mp h
  rw [← Option.some.inj h, rows_insertOrIgnore, if_pos hacc]
  exact ⟨hacc, rfl⟩

theorem rows_of_update {t t' : Table S} {p : α → Bool} {f : α → α} (h : t.update p f = some t') :
    t'.rows = t.updateRows p f := by
  unfold update at h
  split at h
  · rw [← Option.some.inj h]
  · cases h

/-- An update is refused only for a row it changed. -/
theorem exists_update {t : Table S} {p : α → Bool} {f : α → α}
    (hadmits : ∀ x ∈ t.rows, p x = true → S.admits (f x) = true)
    (hkeyed : (t.updateRows p f).Pairwise fun x y => S.clash x y = false) :
    ∃ t', t.update p f = some t' ∧ t'.rows = t.updateRows p f := by
  have hall : ∀ x ∈ t.updateRows p f, S.admits x = true := by
    intro x hx
    obtain ⟨y, hy, rfl⟩ := List.mem_map.mp hx
    split
    · next h => exact hadmits y hy h
    · exact t.admitted y hy
  refine ⟨⟨t.updateRows p f, hall, hkeyed⟩, ?_, rfl⟩
  rw [update, dif_pos ⟨hall, hkeyed⟩]

/-- What stands in the table after a statement. -/
theorem mem_insertOrIgnore {t : Table S} {row x : α} :
    x ∈ (t.insertOrIgnore row).rows ↔ x ∈ t.rows ∨ t.Accepts row ∧ x = row := by
  rw [rows_insertOrIgnore]
  split
  · next h => simp [h]
  · next h => simp [h]

theorem insertOrIgnore_eq_self_iff {t : Table S} {row : α} :
    t.insertOrIgnore row = t ↔ ¬ t.Accepts row := by
  rw [Table.ext_iff, rows_insertOrIgnore]
  split
  · next h => simp [h]
  · next h => simp [h]

/-- A row is not accepted if it is not admitted, or its key is taken. -/
theorem not_accepts_iff {t : Table S} {row : α} :
    ¬ t.Accepts row ↔ (S.admits row = true → ∃ x ∈ t.rows, S.clash x row = true) := by
  simp only [Accepts, not_and, not_forall, Bool.not_eq_false, exists_prop]

/-- An admitted row is in the table after its statement, or one of its key was. -/
theorem mem_insertOrIgnore_or {t : Table S} {row : α} (hrow : S.admits row = true) :
    row ∈ (t.insertOrIgnore row).rows ∨ ∃ x ∈ t.rows, S.clash x row = true := by
  by_cases h : t.Accepts row
  · exact .inl (mem_insertOrIgnore.mpr (.inr ⟨h, rfl⟩))
  · exact .inr (not_accepts_iff.mp h hrow)

end Table

end Server
end CovioFirmware
