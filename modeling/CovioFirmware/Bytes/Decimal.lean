import CovioFirmware.Bytes.Text

/-!
# Decimal numerals and joined fields

What `%ld`, Python's `str` and `String(n)` write for a number, and what it takes to
read a text back that was made by joining fields with a separator character: as many
fields as were joined, and none of them containing the separator on one side
(`intercalate_injective`).
-/

namespace CovioFirmware
namespace Text

/-- The numeral of an integer. -/
theorem toList_toString (n : ℤ) : (toString n).toList =
    if 0 ≤ n then Nat.toDigits 10 n.toNat else '-' :: Nat.toDigits 10 (-n).toNat := by
  rw [Int.toString_eq_repr, Int.repr_eq_if]
  split
  · simp [Nat.repr]
  · simp [Nat.repr]

theorem isDigit_of_mem_toDigits {n : ℕ} {c : Char} (h : c ∈ Nat.toDigits 10 n) :
    c.isDigit = true := Nat.isDigit_of_mem_toDigits (by omega) (by omega) h

/-- A numeral consists of digits and a sign. -/
theorem mem_toString {n : ℤ} {c : Char} (h : c ∈ (toString n).toList) :
    c.isDigit = true ∨ c = '-' := by
  rw [toList_toString] at h
  split at h
  · exact .inl (isDigit_of_mem_toDigits h)
  · rcases List.mem_cons.mp h with h | h
    · exact .inr h
    · exact .inl (isDigit_of_mem_toDigits h)

theorem toDigits_injective {m n : ℕ} (h : Nat.toDigits 10 m = Nat.toDigits 10 n) : m = n := by
  rw [← Nat.ofDigitChars_ten_toDigits (n := m), h, Nat.ofDigitChars_ten_toDigits]

/-- Numerals determine their numbers. -/
theorem toString_injective {m n : ℤ} (h : (toString m).toList = (toString n).toList) :
    m = n := by
  have hsign : ∀ {k : ℕ} {l : List Char}, Nat.toDigits 10 k ≠ '-' :: l := by
    intro k l hk
    have hdigit := isDigit_of_mem_toDigits (hk ▸ List.mem_cons_self : '-' ∈ Nat.toDigits 10 k)
    exact absurd hdigit (by decide)
  rw [toList_toString, toList_toString] at h
  split at h
  · split at h
    · have := toDigits_injective h
      omega
    · exact absurd h hsign
  · split at h
    · exact absurd h.symm hsign
    · have := toDigits_injective (List.cons.inj h).2
      omega

/-- The numeral of a positive number starts with another digit than `0`. -/
theorem exists_toDigits_eq_cons {n : ℕ} (hn : 0 < n) :
    ∃ c s, Nat.toDigits 10 n = c :: s ∧ c ≠ '0' := by
  induction n using Nat.strong_induction_on with
  | _ n ih =>
    have hdigit : ∀ m < 10, 0 < m → m.digitChar ≠ '0' := by decide
    by_cases hlt : n < 10
    · exact ⟨n.digitChar, [], Nat.toDigits_of_lt_base hlt, hdigit n hlt hn⟩
    · obtain ⟨c, s, hs, hc⟩ := ih (n / 10) (by omega) (by omega)
      refine ⟨c, s ++ [(n % 10).digitChar], ?_, hc⟩
      rw [Nat.toDigits_of_base_le (by omega) (by omega), hs, List.cons_append]

/-! ## Joined fields -/

theorem count_intercalate {α : Type} [BEq α] [LawfulBEq α] (sep : α) (x : List α)
    (xs : List (List α)) : ([sep].intercalate (x :: xs)).count sep =
      xs.length + ((x :: xs).map (List.count sep)).sum := by
  induction xs generalizing x with
  | nil => simp
  | cons y ys ih =>
    rw [List.intercalate_cons_cons, List.count_append, List.count_append, ih]
    simp only [List.count_singleton_self, List.length_cons, List.map_cons, List.sum_cons]
    omega

/-- **Joined fields are determined** by the joined text, if on one side none of them
contains the separator and both sides have the same number of them. -/
theorem intercalate_injective {α : Type} [BEq α] [LawfulBEq α] {sep : α} {xs ys : List (List α)}
    (hlen : xs.length = ys.length) (hys : ∀ y ∈ ys, sep ∉ y)
    (h : [sep].intercalate xs = [sep].intercalate ys) : xs = ys := by
  cases xs with
  | nil => exact (List.length_eq_zero_iff.mp hlen.symm).symm
  | cons x xs =>
    cases ys with
    | nil => cases hlen
    | cons y ys =>
      -- the separators counted on both sides leave none for the fields of the left one
      have hcount := congrArg (List.count sep) h
      rw [count_intercalate, count_intercalate] at hcount
      have hzero : ((y :: ys).map (List.count sep)).sum = 0 := by
        rw [List.sum_eq_zero_iff_forall_eq_nat]
        intro n hn
        obtain ⟨l, hl, rfl⟩ := List.mem_map.mp hn
        exact List.count_eq_zero.mpr (hys l hl)
      have hxs : ∀ l ∈ x :: xs, sep ∉ l := by
        intro l hl
        have hsum : ((x :: xs).map (List.count sep)).sum = 0 := by
          simp only [List.length_cons] at hlen
          omega
        exact List.count_eq_zero.mp
          (List.sum_eq_zero_iff_forall_eq_nat.mp hsum _ (List.mem_map_of_mem hl))
      have hsplit := congrArg (List.splitOn sep) h
      rwa [List.splitOn_intercalate sep hxs (List.cons_ne_nil _ _),
        List.splitOn_intercalate sep hys (List.cons_ne_nil _ _)] at hsplit

end Text
end CovioFirmware
