import CovioFirmware.Bytes.Decimal

/-!
# Writing JSON

What `json.dumps` and `JSON.stringify` write for a flat object of strings and
integers.  Both put the members one after the other in the order they were given, in
a layout of their own (`ObjectStyle`); both escape quotes, backslashes and control
characters inside a string, and Python every character outside printable ASCII as
well.
-/

namespace CovioFirmware
namespace JsonText

/-- Four hexadecimal digits, lower case. -/
def hex4 (n : ℕ) : List Char :=
  [Nat.digitChar (n / 4096 % 16), Nat.digitChar (n / 256 % 16), Nat.digitChar (n / 16 % 16),
    Nat.digitChar (n % 16)]

/-- The escape sequence of a character.  A character beyond the basic plane is
written as two surrogates. -/
def escapeSequence (c : Char) : List Char :=
  match c with
  | '"' => ['\\', '"']
  | '\\' => ['\\', '\\']
  | '\x08' => ['\\', 'b']
  | '\t' => ['\\', 't']
  | '\n' => ['\\', 'n']
  | '\x0c' => ['\\', 'f']
  | '\r' => ['\\', 'r']
  | c =>
      if c.toNat < 0x10000 then '\\' :: 'u' :: hex4 c.toNat
      else '\\' :: 'u' :: hex4 (0xD800 + (c.toNat - 0x10000) / 1024) ++
        '\\' :: 'u' :: hex4 (0xDC00 + (c.toNat - 0x10000) % 1024)

/-- The characters `json.dumps` escapes: all but printable ASCII, quotes and
backslashes. -/
def pythonEscapes (c : Char) : Bool :=
  c = '"' ∨ c = '\\' ∨ ¬ (' '.toNat ≤ c.toNat ∧ c.toNat ≤ '~'.toNat)

/-- The characters `JSON.stringify` escapes: quotes, backslashes and controls. -/
def scriptEscapes (c : Char) : Bool := c = '"' ∨ c = '\\' ∨ c.toNat < ' '.toNat

/-- The text holds nothing that `JSON.stringify` escapes: it may stand in a string
literal as it is. -/
def Plain (s : List Char) : Prop := ∀ c ∈ s, scriptEscapes c = false

instance (s : List Char) : Decidable (Plain s) := List.decidableBAll _ _

theorem Plain.quote_notMem {s : List Char} (h : Plain s) : '"' ∉ s :=
  fun hc => absurd (h _ hc) (by decide)

theorem Plain.append {s t : List Char} (hs : Plain s) (ht : Plain t) : Plain (s ++ t) :=
  List.forall_mem_append.mpr ⟨hs, ht⟩

/-- The inside of a string literal. -/
def escaped (escapes : Char → Bool) (s : List Char) : List Char :=
  s.flatMap fun c => if escapes c then escapeSequence c else [c]

/-- A string literal. -/
def string (escapes : Char → Bool) (s : List Char) : List Char :=
  Text.quoted (escaped escapes s)

/-- An integer. -/
def int (n : ℤ) : List Char := (toString n).toList

/-- No digit and no sign is escaped. -/
theorem plain_int (n : ℤ) : Plain (int n) := by
  intro c hc
  rcases Text.mem_toString hc with hdigit | rfl
  · simp only [Char.isDigit, Bool.and_eq_true, decide_eq_true_eq] at hdigit
    have hlow : 48 ≤ c.toNat := hdigit.1
    have hhigh : c.toNat ≤ 57 := hdigit.2
    refine decide_eq_false ?_
    rintro (rfl | rfl | h)
    · exact absurd hlow (by decide)
    · exact absurd hhigh (by decide)
    · exact absurd h (by simp; omega)
  · rfl

/-- What an encoder puts around the members of an object.  None of it can be taken
for a quote or a colon. -/
structure ObjectStyle where
  opening : List Char
  separator : List Char
  /-- Between the colon and the value. -/
  gap : List Char
  closing : List Char
  opening_clean : '"' ∉ opening
  separator_clean : '"' ∉ separator ∧ ':' ∉ separator
  gap_clean : '"' ∉ gap

/-- `JSON.stringify(v)`. -/
def compact : ObjectStyle := ⟨['{'], [','], [], ['}'], by decide, by decide, by decide⟩

/-- `json.dumps(v, indent=2)`. -/
def indented : ObjectStyle :=
  ⟨'{' :: "\n  ".toList, ",\n  ".toList, [' '], ['\n', '}'], by decide, by decide, by decide⟩

namespace ObjectStyle

/-- A member: its key and the text of its value. -/
def member (st : ObjectStyle) (f : List Char × List Char) : List Char :=
  Text.quoted f.1 ++ ':' :: st.gap ++ f.2

/-- The text behind a member: the members that follow, and the closing brace. -/
def tail (st : ObjectStyle) : List (List Char × List Char) → List Char
  | [] => st.closing
  | f :: fs => st.separator ++ st.member f ++ st.tail fs

/-- An object with the given members. -/
def object (st : ObjectStyle) : List (List Char × List Char) → List Char
  | [] => ['{', '}']
  | f :: fs => st.opening ++ st.member f ++ st.tail fs

end ObjectStyle

/-- The elements that follow, and the closing bracket. -/
def arrayTail : List (List Char) → List Char
  | [] => [']']
  | s :: ss => ',' :: s ++ arrayTail ss

/-- An array of the given texts, without white space. -/
def array : List (List Char) → List Char
  | [] => ['[', ']']
  | s :: ss => '[' :: s ++ arrayTail ss

/-! ## What is escaped -/

@[simp] theorem escaped_nil (escapes : Char → Bool) : escaped escapes [] = [] := rfl

theorem escaped_cons (escapes : Char → Bool) (c : Char) (s : List Char) :
    escaped escapes (c :: s) =
      (if escapes c then escapeSequence c else [c]) ++ escaped escapes s := by
  simp only [escaped, List.flatMap_cons]

/-- A text none of whose characters is escaped is written as it is. -/
theorem escaped_of_plain {escapes : Char → Bool} {s : List Char}
    (h : ∀ c ∈ s, escapes c = false) : escaped escapes s = s := by
  induction s with
  | nil => rfl
  | cons c s ih =>
    rw [escaped_cons, if_neg (by simp [h c List.mem_cons_self]),
      ih fun d hd => h d (List.mem_cons_of_mem _ hd)]
    rfl

/-- An escape sequence has at least two characters. -/
theorem two_le_length_escapeSequence (c : Char) : 2 ≤ (escapeSequence c).length := by
  unfold escapeSequence
  split <;> try exact le_rfl
  split
  · simp [hex4]
  · simp [hex4]

theorem mem_hex4 {n : ℕ} {c : Char} (h : c ∈ hex4 n) : ∃ m < 16, c = Nat.digitChar m := by
  simp only [hex4, List.mem_cons, List.not_mem_nil, or_false] at h
  rcases h with rfl | rfl | rfl | rfl <;> exact ⟨_, Nat.mod_lt _ (by decide), rfl⟩

/-- The characters an escape sequence consists of. -/
theorem mem_escapeSequence {c d : Char} (h : d ∈ escapeSequence c) :
    d = '"' ∧ c = '"' ∨ d ∈ "\\btnfru".toList ∨ ∃ m < 16, d = Nat.digitChar m := by
  unfold escapeSequence at h
  split at h
  · rcases List.mem_cons.mp h with h | h
    · exact .inr (.inl (by simp [h]))
    · exact .inl ⟨by simpa using h, rfl⟩
  all_goals first
    | (split at h
       · rcases List.mem_cons.mp h with h | h
         · exact .inr (.inl (by simp [h]))
         · rcases List.mem_cons.mp h with h | h
           · exact .inr (.inl (by simp [h]))
           · exact .inr (.inr (mem_hex4 h))
       · simp only [List.cons_append, List.mem_cons, List.mem_append] at h
         rcases h with h | h | h | h | h | h
         · exact .inr (.inl (by simp [h]))
         · exact .inr (.inl (by simp [h]))
         · exact .inr (.inr (mem_hex4 h))
         · exact .inr (.inl (by simp [h]))
         · exact .inr (.inl (by simp [h]))
         · exact .inr (.inr (mem_hex4 h)))
    | (refine .inr (.inl ?_)
       simp only [List.mem_cons, List.not_mem_nil, or_false] at h
       rcases h with rfl | rfl <;> decide)

/-- A character that is no letter of an escape sequence, and is escaped itself or does not
occur, is not in the escaped text. -/
theorem notMem_escaped {escapes : Char → Bool} {s : List Char} {d : Char}
    (hself : escapes d = true ∨ d ∉ s) (hquote : d = '"' → '"' ∉ s)
    (hletter : d ∉ "\\btnfru".toList) (hdigit : ∀ m < 16, d ≠ Nat.digitChar m) :
    d ∉ escaped escapes s := by
  intro h
  obtain ⟨c, hc, hd⟩ := List.mem_flatMap.mp h
  split at hd
  · rcases mem_escapeSequence hd with ⟨rfl, rfl⟩ | hl | ⟨m, hm, hdm⟩
    · exact hquote rfl hc
    · exact hletter hl
    · exact hdigit m hm hdm
  · next hplain =>
    obtain rfl := List.mem_singleton.mp hd
    rcases hself with h | h
    · exact hplain h
    · exact h hc

theorem length_le_escaped (escapes : Char → Bool) (s : List Char) :
    s.length ≤ (escaped escapes s).length := by
  induction s with
  | nil => exact le_rfl
  | cons c s ih =>
    rw [escaped_cons, List.length_append, List.length_cons]
    have hc := two_le_length_escapeSequence c
    split
    · omega
    · rw [List.length_singleton]
      omega

/-- Only a text without characters to be escaped is written as it is. -/
theorem escaped_eq_self_iff {escapes : Char → Bool} {s : List Char} :
    escaped escapes s = s ↔ ∀ c ∈ s, escapes c = false := by
  refine ⟨fun h => ?_, escaped_of_plain⟩
  induction s with
  | nil => exact fun c hc => absurd hc List.not_mem_nil
  | cons c s ih =>
    have hlen := congrArg List.length h
    have hs := length_le_escaped escapes s
    have hc := two_le_length_escapeSequence c
    rw [escaped_cons, List.length_append, List.length_cons] at hlen
    rw [escaped_cons] at h
    cases hplain : escapes c with
    | true =>
      rw [hplain, if_pos rfl] at hlen
      omega
    | false =>
      rw [hplain, if_neg Bool.false_ne_true, List.singleton_append, List.cons.injEq] at h
      exact List.forall_mem_cons.mpr ⟨hplain, ih h.2⟩

/-- No text holds a NUL where controls are escaped. -/
theorem nul_notMem_string {escapes : Char → Bool} (h : escapes '\x00' = true) (s : List Char) :
    '\x00' ∉ string escapes s := by
  have hbody := notMem_escaped (s := s) (.inl h) (by simp) (by decide) (by decide)
  simp [string, Text.quoted, hbody]

theorem nul_notMem_int (n : ℤ) : '\x00' ∉ int n := by
  intro h
  rcases Text.mem_toString h with h | h
  · exact absurd h (by decide)
  · exact absurd h (by decide)

/-- The members hold no NUL. -/
theorem ObjectStyle.nul_notMem_object {st : ObjectStyle}
    (hst : '\x00' ∉ st.opening ++ st.separator ++ st.gap ++ st.closing)
    {fs : List (List Char × List Char)} (hfs : ∀ f ∈ fs, '\x00' ∉ f.1 ∧ '\x00' ∉ f.2) :
    '\x00' ∉ st.object fs := by
  simp only [List.mem_append, not_or] at hst
  have hmember : ∀ f, '\x00' ∉ f.1 ∧ '\x00' ∉ f.2 → '\x00' ∉ st.member f := by
    intro f hf
    simp [ObjectStyle.member, Text.quoted, hf, hst]
  have htail : ∀ fs : List (List Char × List Char),
      (∀ f ∈ fs, '\x00' ∉ f.1 ∧ '\x00' ∉ f.2) → '\x00' ∉ st.tail fs := by
    intro fs
    induction fs with
    | nil => exact fun _ => hst.2
    | cons f fs ih =>
      intro hfs
      rw [List.forall_mem_cons] at hfs
      simp [ObjectStyle.tail, hmember f hfs.1, ih hfs.2, hst]
  cases fs with
  | nil => simp [ObjectStyle.object]
  | cons f fs =>
    rw [List.forall_mem_cons] at hfs
    simp [ObjectStyle.object, hmember f hfs.1, htail fs hfs.2, hst]

end JsonText
end CovioFirmware
