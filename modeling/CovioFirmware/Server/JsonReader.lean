import CovioFirmware.Bytes.JsonText
import CovioFirmware.Server.Values
import Mathlib.Data.List.TakeDrop

/-!
# `json.loads`

What Python makes of the text of a request: the grammar of JSON with its white space,
strings with their escapes, numbers, and Python's additions (`NaN`, `Infinity`, lone
surrogates).  Of an object's equal keys the last value counts.

A value is read with a bound on the depth and on the number of members, which the
length of the text is.  What `float` makes of a numeral with a fraction or an exponent
is a parameter.

`Reads s v` says that a text is read as a value wherever it stands, and there is a rule
for every way in which a writer composes texts.
-/

namespace CovioFirmware
namespace Server

/-- White space. -/
def isJsonSpace (c : Char) : Bool := c = ' ' ∨ c = '\t' ∨ c = '\n' ∨ c = '\r'

def skipSpace (s : List Char) : List Char := s.dropWhile isJsonSpace

/-! ## Strings -/

/-- The value of a hexadecimal digit. -/
def hexVal (c : Char) : Option ℕ :=
  if c.isDigit then some (c.toNat - '0'.toNat)
  else if 'a'.toNat ≤ c.toNat ∧ c.toNat ≤ 'f'.toNat then some (c.toNat - 'a'.toNat + 10)
  else if 'A'.toNat ≤ c.toNat ∧ c.toNat ≤ 'F'.toNat then some (c.toNat - 'A'.toNat + 10)
  else none

/-- Four hexadecimal digits, and the text behind them. -/
def scanHex4 : List Char → Option (ℕ × List Char)
  | a :: b :: c :: d :: rest => do
      let a ← hexVal a
      let b ← hexVal b
      let c ← hexVal c
      let d ← hexVal d
      return (((a * 16 + b) * 16 + c) * 16 + d, rest)
  | _ => none

/-- The code point behind `\u`.  Two surrogates that follow one another are one code
point. -/
def scanCodePoint (s : List Char) : Option (ℕ × List Char) := do
  let (high, rest) ← scanHex4 s
  if 0xD800 ≤ high ∧ high ≤ 0xDBFF then
    match rest with
    | '\\' :: 'u' :: rest' => do
        let (low, rest') ← scanHex4 rest'
        if 0xDC00 ≤ low ∧ low ≤ 0xDFFF then
          return (0x10000 + (high - 0xD800) * 1024 + (low - 0xDC00), rest')
        else return (high, rest)
    | _ => return (high, rest)
  else return (high, rest)

/-- What stands behind a backslash. -/
def scanEscape : List Char → Option (ℕ × List Char)
  | [] => none
  | c :: rest =>
      if c = '"' ∨ c = '\\' ∨ c = '/' then some (c.toNat, rest)
      else if c = 'b' then some (0x08, rest)
      else if c = 'f' then some (0x0C, rest)
      else if c = 'n' then some (0x0A, rest)
      else if c = 'r' then some (0x0D, rest)
      else if c = 't' then some (0x09, rest)
      else if c = 'u' then scanCodePoint rest
      else none

/-- A string behind its opening quote, and the text behind the closing one.  Control
characters are refused. -/
def scanString : ℕ → List Char → Option (PyStr × List Char)
  | 0, _ => none
  | _ + 1, [] => none
  | n + 1, c :: rest =>
      if c = '"' then some ([], rest)
      else if c = '\\' then do
        let (code, rest) ← scanEscape rest
        let (s, rest) ← scanString n rest
        return (code :: s, rest)
      else if c.toNat < 0x20 then none
      else do
        let (s, rest) ← scanString n rest
        return (c.toNat :: s, rest)

/-! ## Numbers -/

/-- `0`, or digits that start with another one. -/
def scanInt : List Char → Option (List Char × List Char)
  | [] => none
  | c :: rest =>
      if c = '0' then some (['0'], rest)
      else if c.isDigit then some ((c :: rest).span Char.isDigit)
      else none

/-- A fraction, if one follows. -/
def scanFraction : List Char → List Char × List Char
  | c :: d :: rest =>
      if c = '.' ∧ d.isDigit then
        ('.' :: ((d :: rest).span Char.isDigit).1, ((d :: rest).span Char.isDigit).2)
      else ([], c :: d :: rest)
  | s => ([], s)

/-- The digits of an exponent, behind its sign. -/
def scanExponentDigits (mark s whole : List Char) : List Char × List Char :=
  if (s.span Char.isDigit).1 = [] then ([], whole)
  else (mark ++ (s.span Char.isDigit).1, (s.span Char.isDigit).2)

/-- An exponent, if one follows. -/
def scanExponent : List Char → List Char × List Char
  | c :: d :: rest =>
      if c = 'e' ∨ c = 'E' then
        if d = '+' ∨ d = '-' then scanExponentDigits [c, d] rest (c :: d :: rest)
        else scanExponentDigits [c] (d :: rest) (c :: d :: rest)
      else ([], c :: d :: rest)
  | s => ([], s)

/-- A sign, if there is one. -/
def scanSign : List Char → List Char × List Char
  | [] => ([], [])
  | c :: rest => if c = '-' then (['-'], rest) else ([], c :: rest)

/-- A number. -/
def scanNumber (float : List Char → PyFloat) (s : List Char) : Option (Json × List Char) := do
  let (sign, rest) := scanSign s
  let (digits, rest) ← scanInt rest
  let (fraction, rest) := scanFraction rest
  let (exponent, rest) := scanExponent rest
  if fraction = [] ∧ exponent = [] then
    let n := Nat.ofDigitChars 10 digits 0
    return (.int (if sign = [] then n else -n), rest)
  else return (.float (float (sign ++ digits ++ fraction ++ exponent)), rest)

/-! ## Values -/

/-- The words that stand for values. -/
def jsonWords : List (List Char × Json) :=
  [("null".toList, .null), ("true".toList, .bool true), ("false".toList, .bool false),
    ("NaN".toList, .float .nan), ("Infinity".toList, .float .posInf),
    ("-Infinity".toList, .float .negInf)]

/-- A word or a number. -/
def scanScalar (float : List Char → PyFloat) (s : List Char) : Option (Json × List Char) :=
  match jsonWords.find? fun w => w.1.isPrefixOf s with
  | some w => some (w.2, s.drop w.1.length)
  | none => scanNumber float s

/-- `d[key] = v`. -/
def Dict.insert (d : Dict) (key : PyStr) (v : Json) : Dict :=
  if d.any fun f => f.1 == key then d.map fun f => if f.1 = key then (key, v) else f
  else d ++ [(key, v)]

mutual

/-- A value that starts here, and the text behind it. -/
def scanValue (float : List Char → PyFloat) : ℕ → List Char → Option (Json × List Char)
  | 0, _ => none
  | _ + 1, [] => none
  | n + 1, c :: rest =>
      if c = '{' then
        if (skipSpace rest).head? = some '}' then some (.obj [], (skipSpace rest).tail)
        else scanMembers float n [] (skipSpace rest)
      else if c = '[' then
        if (skipSpace rest).head? = some ']' then some (.arr [], (skipSpace rest).tail)
        else (scanElements float n (skipSpace rest)).map fun x => (.arr x.1, x.2)
      else if c = '"' then (scanString (rest.length + 1) rest).map fun x => (.str x.1, x.2)
      else scanScalar float (c :: rest)

/-- The members of an object from a key on, behind the members `d`. -/
def scanMembers (float : List Char → PyFloat) :
    ℕ → Dict → List Char → Option (Json × List Char)
  | 0, _, _ => none
  | _ + 1, _, [] => none
  | n + 1, d, c :: rest =>
      if c = '"' then do
        let (key, rest) ← scanString (rest.length + 1) rest
        if (skipSpace rest).head? = some ':' then do
          let (v, rest) ← scanValue float n (skipSpace (skipSpace rest).tail)
          match (skipSpace rest).head? with
          | some '}' => return (.obj (d.insert key v), (skipSpace rest).tail)
          | some ',' => scanMembers float n (d.insert key v) (skipSpace (skipSpace rest).tail)
          | _ => none
        else none
      else none

/-- The elements of an array from a value on. -/
def scanElements (float : List Char → PyFloat) : ℕ → List Char → Option (List Json × List Char)
  | 0, _ => none
  | n + 1, s => do
      let (v, rest) ← scanValue float n s
      match (skipSpace rest).head? with
      | some ']' => return ([v], (skipSpace rest).tail)
      | some ',' => do
          let (vs, rest) ← scanElements float n (skipSpace (skipSpace rest).tail)
          return (v :: vs, rest)
      | _ => none

end

/-- `json.loads`; `none` for a text that is no JSON. -/
def loads (float : List Char → PyFloat) (s : List Char) : Option Json := do
  let (v, rest) ← scanValue float (s.length + 1) (skipSpace s)
  if skipSpace rest = [] then return v else none

/-! ## Texts that are read -/

open JsonText

variable {float : List Char → PyFloat} {s rest : List Char} {v : Json}

/-- What stands behind a value inside another one, or nothing. -/
def Ends (rest : List Char) : Prop :=
  ∀ c, rest.head? = some c → c = ',' ∨ c = '}' ∨ c = ']'

/-- The text is read as the value, whatever stands behind it. -/
structure Reads (float : List Char → PyFloat) (s : List Char) (v : Json) : Prop where
  starts : ∃ c t, s = c :: t ∧ isJsonSpace c = false ∧ c ≠ ']'
  reads : ∀ n rest, s.length ≤ n → Ends rest → scanValue float n (s ++ rest) = some (v, rest)

theorem ends_cons {c : Char} (h : c = ',' ∨ c = '}' ∨ c = ']') (rest : List Char) :
    Ends (c :: rest) := by
  intro d hd
  obtain rfl := Option.some.inj hd
  exact h

theorem skipSpace_cons {c : Char} (h : isJsonSpace c = false) (rest : List Char) :
    skipSpace (c :: rest) = c :: rest := List.dropWhile_cons_of_neg (by simp [h])

/-- There is no white space before a text that is read. -/
theorem Reads.skipSpace (h : Reads float s v) (rest : List Char) :
    skipSpace (s ++ rest) = s ++ rest := by
  obtain ⟨c, t, rfl, hc, -⟩ := h.starts
  exact skipSpace_cons hc _

/-! ### Strings -/

theorem scanString_of_plain (hs : Plain s) {n : ℕ} (hn : s.length < n) :
    scanString n (s ++ '"' :: rest) = some (s.map Char.toNat, rest) := by
  induction s generalizing n with
  | nil =>
    obtain ⟨n, rfl⟩ := Nat.exists_eq_succ_of_ne_zero (Nat.ne_zero_of_lt hn)
    rfl
  | cons c s ih =>
    obtain ⟨n, rfl⟩ := Nat.exists_eq_succ_of_ne_zero (Nat.ne_zero_of_lt hn)
    have hplain := hs c List.mem_cons_self
    simp only [scriptEscapes, decide_eq_false_iff_not, not_or] at hplain
    obtain ⟨hquote, hbackslash, hcontrol⟩ := hplain
    replace hcontrol : ¬ c.toNat < 0x20 := hcontrol
    have hrest := ih (fun d hd => hs d (List.mem_cons_of_mem c hd)) (Nat.lt_of_succ_lt_succ hn)
    rw [List.cons_append, scanString, if_neg hquote, if_neg hbackslash, if_neg hcontrol, hrest]
    rfl

theorem reads_string (hs : Plain s) : Reads float (Text.quoted s) (.str (s.map Char.toNat)) := by
  refine ⟨⟨'"', s ++ ['"'], rfl, rfl, by decide⟩, fun n rest hn _ => ?_⟩
  obtain ⟨n, rfl⟩ := Nat.exists_eq_add_of_le' (Nat.le_trans (Nat.le_add_left 1 _) hn)
  have htext : Text.quoted s ++ rest = '"' :: (s ++ '"' :: rest) := by simp [Text.quoted]
  have hlen : s.length < (s ++ '"' :: rest).length + 1 := by
    rw [List.length_append]
    omega
  rw [htext, scanValue, if_neg (by decide), if_neg (by decide), if_pos rfl,
    scanString_of_plain hs hlen]
  rfl

/-! ### Numbers -/

/-- The words start with letters, or with a sign and a letter. -/
theorem exists_of_mem_jsonWords {w : List Char × Json} (h : w ∈ jsonWords) :
    ∃ a b u, w.1 = a :: b :: u ∧ a.isDigit = false ∧ (a = '-' → b.isDigit = false) := by
  simp only [jsonWords, List.mem_cons, List.not_mem_nil, or_false] at h
  rcases h with rfl | rfl | rfl | rfl | rfl | rfl <;> exact ⟨_, _, _, rfl, rfl, by decide⟩

/-- A digit, or a sign and a digit, starts a number. -/
theorem scanScalar_eq_scanNumber {c : Char}
    (h : c.isDigit = true ∨ c = '-' ∧ ∃ d t, s = d :: t ∧ d.isDigit = true) :
    scanScalar float (c :: s) = scanNumber float (c :: s) := by
  have hnone : jsonWords.find? (fun w => w.1.isPrefixOf (c :: s)) = none := by
    refine List.find?_eq_none.mpr fun w hw hprefix => ?_
    obtain ⟨a, b, u, hword, ha, hb⟩ := exists_of_mem_jsonWords hw
    obtain ⟨t, ht⟩ := List.isPrefixOf_iff_prefix.mp hprefix
    rw [hword] at ht
    obtain ⟨rfl, htail⟩ := List.cons.inj ht
    rcases h with h | ⟨rfl, d, t', rfl, hd⟩
    · exact absurd (ha.symm.trans h) Bool.false_ne_true
    · obtain ⟨rfl, -⟩ := List.cons.inj htail
      exact absurd ((hb rfl).symm.trans hd) Bool.false_ne_true
  rw [scanScalar, hnone]

theorem scanInt_toDigits (m : ℕ) (hrest : Ends rest) :
    scanInt (Nat.toDigits 10 m ++ rest) = some (Nat.toDigits 10 m, rest) := by
  rcases Nat.eq_zero_or_pos m with rfl | hm
  · rfl
  · obtain ⟨c, t, ht, hc⟩ := Text.exists_toDigits_eq_cons hm
    have hdigits : ∀ d ∈ c :: t, d.isDigit = true := fun d hd =>
      Text.isDigit_of_mem_toDigits (n := m) (ht ▸ hd)
    have hend : ∀ d, rest.head? = some d → d.isDigit = false := by
      intro d hd
      rcases hrest d hd with rfl | rfl | rfl <;> rfl
    have hspan : ((c :: t) ++ rest).span Char.isDigit = (c :: t, rest) := by
      rw [List.span_eq_takeWhile_dropWhile, List.takeWhile_append_of_pos hdigits,
        List.dropWhile_append_of_pos hdigits]
      cases rest with
      | nil => simp
      | cons d rest => simp [hend d rfl]
    rw [ht, List.cons_append, scanInt, if_neg hc, if_pos (hdigits c List.mem_cons_self),
      ← List.cons_append, hspan]

theorem scanFraction_of_ends (hrest : Ends rest) : scanFraction rest = ([], rest) := by
  rcases rest with _ | ⟨c, _ | ⟨d, rest⟩⟩
  · rfl
  · rfl
  · refine if_neg fun h => ?_
    rcases hrest c rfl with rfl | rfl | rfl <;> exact absurd h.1 (by decide)

theorem scanExponent_of_ends (hrest : Ends rest) : scanExponent rest = ([], rest) := by
  rcases rest with _ | ⟨c, _ | ⟨d, rest⟩⟩
  · rfl
  · rfl
  · refine if_neg fun h => ?_
    rcases hrest c rfl with rfl | rfl | rfl <;> exact absurd h (by decide)

/-- A numeral behind its sign. -/
theorem scanNumber_toDigits {sign : List Char} (m : ℕ) (hsign : sign = [] ∨ sign = ['-'])
    (hrest : Ends rest) : scanNumber float (sign ++ Nat.toDigits 10 m ++ rest) =
      some (.int (if sign = [] then m else -m), rest) := by
  have hscan : scanSign (sign ++ Nat.toDigits 10 m ++ rest) =
      (sign, Nat.toDigits 10 m ++ rest) := by
    rcases hsign with rfl | rfl
    · obtain ⟨c, t, ht⟩ := List.exists_cons_of_ne_nil (Nat.toDigits_ne_nil (n := m) (b := 10))
      have hc : c.isDigit = true := Text.isDigit_of_mem_toDigits (n := m) (ht ▸ List.mem_cons_self)
      rw [ht]
      refine if_neg fun h => ?_
      rw [h] at hc
      exact absurd hc (by decide)
    · rfl
  rw [scanNumber, hscan]
  simp only [scanInt_toDigits m hrest, Option.bind_eq_bind, Option.bind_some,
    scanFraction_of_ends hrest, scanExponent_of_ends hrest, and_self, if_true,
    Nat.ofDigitChars_ten_toDigits]
  rfl

theorem reads_numeral {sign : List Char} (m : ℕ) (hsign : sign = [] ∨ sign = ['-']) :
    Reads float (sign ++ Nat.toDigits 10 m) (.int (if sign = [] then m else -m)) := by
  obtain ⟨d, t, ht⟩ := List.exists_cons_of_ne_nil (Nat.toDigits_ne_nil (n := m) (b := 10))
  have hd : d.isDigit = true := Text.isDigit_of_mem_toDigits (n := m) (ht ▸ List.mem_cons_self)
  obtain ⟨c, u, hcu, hc⟩ : ∃ c u, sign ++ Nat.toDigits 10 m = c :: u ∧
      (c.isDigit = true ∨ c = '-' ∧ ∃ d t, u = d :: t ∧ d.isDigit = true) := by
    rw [ht]
    rcases hsign with rfl | rfl
    · exact ⟨d, t, rfl, .inl hd⟩
    · exact ⟨'-', d :: t, rfl, .inr ⟨rfl, d, t, rfl, hd⟩⟩
  have hother : ∀ a : Char, a.isDigit = false → a ≠ '-' → c ≠ a := by
    rintro a ha hminus rfl
    rcases hc with hc | ⟨hc, -⟩
    · exact absurd (ha.symm.trans hc) Bool.false_ne_true
    · exact hminus hc
  refine ⟨⟨c, u, hcu, ?_, hother _ rfl (by decide)⟩, fun n rest hn hrest => ?_⟩
  · simp only [isJsonSpace, hother ' ' rfl (by decide), hother '\t' rfl (by decide),
      hother '\n' rfl (by decide), hother '\r' rfl (by decide), or_self, decide_false]
  · have hscan : scanNumber float _ = _ := scanNumber_toDigits m hsign hrest
    rw [hcu] at hn hscan ⊢
    obtain ⟨n, rfl⟩ := Nat.exists_eq_add_of_le' (Nat.le_trans (Nat.le_add_left 1 _) hn)
    rw [List.cons_append, scanValue, if_neg (hother _ rfl (by decide)),
      if_neg (hother _ rfl (by decide)), if_neg (hother _ rfl (by decide)),
      scanScalar_eq_scanNumber ?_]
    · exact hscan
    · refine hc.imp id fun ⟨hminus, d, t, hu, hd⟩ => ⟨hminus, d, t ++ rest, ?_, hd⟩
      rw [hu]
      rfl

theorem reads_nat (m : ℕ) : Reads float (Nat.toDigits 10 m) (.int m) :=
  reads_numeral m (.inl rfl)

/-- A minus sign before a zero is lost. -/
theorem reads_neg (m : ℕ) : Reads float ('-' :: Nat.toDigits 10 m) (.int (-m)) :=
  reads_numeral m (.inr rfl)

theorem reads_int (n : ℤ) : Reads float (int n) (.int n) := by
  rw [int, Text.toList_toString]
  split
  · next h =>
    have hread : Reads float _ _ := reads_nat n.toNat
    rwa [Int.toNat_of_nonneg h] at hread
  · next h =>
    have hread : Reads float _ _ := reads_neg (-n).toNat
    rwa [Int.toNat_of_nonneg (by omega), neg_neg] at hread

/-! ### Objects -/

/-- A member as it is written and read: its key, and the text and the value of what
stands behind it. -/
structure Member where
  key : List Char
  text : List Char
  value : Json

namespace Member

/-- The member as it is written. -/
def written (m : Member) : List Char × List Char := (m.key, m.text)

/-- The member as it is read. -/
def field (m : Member) : PyStr × Json := (m.key.map Char.toNat, m.value)

/-- The member is read as it should be. -/
structure Ok (float : List Char → PyFloat) (m : Member) : Prop where
  key : Plain m.key
  value : Reads float m.text m.value

end Member

variable {m : Member} {ms : List Member}

theorem Dict.insert_of_notMem {d : Dict} {key : PyStr} (h : key ∉ d.map Prod.fst) :
    d.insert key v = d ++ [(key, v)] := by
  refine if_neg fun hany => h ?_
  obtain ⟨f, hf, hkey⟩ := List.any_eq_true.mp hany
  rw [← beq_iff_eq.mp hkey]
  exact List.mem_map_of_mem hf

/-- Among members whose keys differ, each is found under its key. -/
theorem get?_field (hkeys : (ms.map Member.field).Pairwise fun f g => f.1 ≠ g.1) (hm : m ∈ ms) :
    Dict.get? (ms.map Member.field) m.field.1 = some m.value := by
  obtain ⟨before, behind, rfl⟩ := List.append_of_mem hm
  rw [List.map_append, List.map_cons] at hkeys ⊢
  refine List.lookup_eq_some_iff.mpr ⟨before.map Member.field, behind.map Member.field, rfl, ?_⟩
  intro f hf
  have hne : f.1 ≠ m.field.1 :=
    (List.pairwise_append.mp hkeys).2.2 f hf m.field List.mem_cons_self
  exact bne_iff_ne.mpr hne.symm

theorem ends_tail (fs : List (List Char × List Char)) (rest : List Char) :
    Ends (compact.tail fs ++ rest) := by
  cases fs with
  | nil => exact ends_cons (.inr (.inl rfl)) _
  | cons f fs => exact ends_cons (.inl rfl) _

theorem skipSpace_of_ends (h : Ends rest) : skipSpace rest = rest := by
  cases rest with
  | nil => rfl
  | cons c rest =>
    refine skipSpace_cons ?_ rest
    rcases h c rfl with rfl | rfl | rfl <;> rfl

/-- One member, and then what stands behind it. -/
theorem scanMembers_member {d fs : Dict} (hm : m.Ok float)
    (hkeys : (d ++ m.field :: fs).Pairwise fun f g => f.1 ≠ g.1) {n : ℕ}
    (hn : (compact.member m.written).length ≤ n + 1) (hrest : Ends rest) :
    scanMembers float (n + 1) d (compact.member m.written ++ rest) =
      match rest.head? with
      | some '}' => some (.obj (d ++ [m.field]), rest.tail)
      | some ',' => scanMembers float n (d ++ [m.field]) (skipSpace rest.tail)
      | _ => none := by
  have hkey : m.key.map Char.toNat ∉ d.map Prod.fst := by
    intro hmem
    obtain ⟨f, hf, heq⟩ := List.mem_map.mp hmem
    exact (List.pairwise_append.mp hkeys).2.2 f hf m.field List.mem_cons_self heq
  have htext : compact.member m.written ++ rest =
      '"' :: (m.key ++ '"' :: ':' :: (m.text ++ rest)) := by
    simp [ObjectStyle.member, Text.quoted, compact, Member.written]
  have hkeylen : m.key.length < (m.key ++ '"' :: ':' :: (m.text ++ rest)).length + 1 := by
    rw [List.length_append]
    omega
  have hlen : m.text.length ≤ n := by
    simp only [ObjectStyle.member, Text.quoted, Member.written, List.length_append,
      List.length_cons] at hn
    omega
  rw [htext, scanMembers, if_pos rfl, scanString_of_plain hm.key hkeylen]
  have hcolon : ∀ t, skipSpace (':' :: t) = ':' :: t := skipSpace_cons rfl
  simp only [Option.bind_eq_bind, Option.bind_some, hcolon, List.head?_cons, if_true,
    List.tail_cons, hm.value.skipSpace, hm.value.reads n rest hlen hrest,
    skipSpace_of_ends hrest, Dict.insert_of_notMem hkey]
  rfl

theorem skipSpace_member (rest : List Char) : skipSpace (compact.member m.written ++ rest) =
    compact.member m.written ++ rest := skipSpace_cons rfl _

/-- The members from one on are read one after the other. -/
theorem scanMembers_compact {d : Dict} (h : ∀ m' ∈ m :: ms, m'.Ok float)
    (hkeys : (d ++ (m :: ms).map Member.field).Pairwise fun f g => f.1 ≠ g.1) {n : ℕ}
    (hn : (compact.member m.written ++ compact.tail (ms.map Member.written)).length ≤ n + 1) :
    scanMembers float (n + 1) d (compact.member m.written ++
      (compact.tail (ms.map Member.written) ++ rest)) =
        some (.obj (d ++ (m :: ms).map Member.field), rest) := by
  rw [List.length_append] at hn
  rw [scanMembers_member (h m List.mem_cons_self) hkeys (by omega) (ends_tail _ _)]
  induction ms generalizing d m n with
  | nil => rfl
  | cons m' ms ih =>
    obtain ⟨hm, hms⟩ := List.forall_mem_cons.mp h
    have htail : compact.tail ((m' :: ms).map Member.written) =
        ',' :: (compact.member m'.written ++ compact.tail (ms.map Member.written)) := rfl
    have hkeys' : ((d ++ [m.field]) ++ (m' :: ms).map Member.field).Pairwise
        fun f g => f.1 ≠ g.1 := by
      rwa [List.append_assoc]
    have hpos : 1 ≤ (compact.member m.written).length := Nat.le_add_left 1 _
    rw [htail, List.length_cons, List.length_append] at hn
    obtain ⟨n, rfl⟩ := Nat.exists_eq_add_of_le' (show 1 ≤ n by omega)
    have hrest := ih hms hkeys' (n := n) (by omega)
    rw [htail, List.cons_append, List.append_assoc]
    show scanMembers float (n + 1) (d ++ [m.field]) (skipSpace (compact.member m'.written ++ _)) = _
    rw [skipSpace_member, scanMembers_member (hms m' List.mem_cons_self) hkeys' (by omega)
      (ends_tail _ _), hrest, List.append_assoc]
    rfl

/-- **An object** whose keys differ. -/
theorem reads_object (h : ∀ m' ∈ m :: ms, m'.Ok float)
    (hkeys : ((m :: ms).map Member.field).Pairwise fun f g => f.1 ≠ g.1) :
    Reads float (compact.object ((m :: ms).map Member.written))
      (.obj ((m :: ms).map Member.field)) := by
  refine ⟨⟨'{', _, rfl, rfl, by decide⟩, fun n rest hn _ => ?_⟩
  have htext : compact.object ((m :: ms).map Member.written) ++ rest =
      '{' :: (compact.member m.written ++ (compact.tail (ms.map Member.written) ++ rest)) := by
    simp [ObjectStyle.object, compact]
  have hlen : (compact.object ((m :: ms).map Member.written)).length =
      (compact.member m.written ++ compact.tail (ms.map Member.written)).length + 1 := by
    simp [ObjectStyle.object, compact]
  rw [hlen] at hn
  have hpos : 1 ≤ (compact.member m.written ++ compact.tail (ms.map Member.written)).length :=
    Nat.le_add_left 1 _
  obtain ⟨n, rfl⟩ := Nat.exists_eq_add_of_le' (show 2 ≤ n by omega)
  have hread : scanMembers float (n + 1) [] (compact.member m.written ++
      (compact.tail (ms.map Member.written) ++ rest)) = _ :=
    scanMembers_compact h hkeys (by omega)
  have hquote : (compact.member m.written ++ (compact.tail (ms.map Member.written) ++ rest)).head? ≠
      some '}' := by
    simp [ObjectStyle.member, Text.quoted]
  rw [htext, scanValue, if_pos rfl, skipSpace_member, if_neg hquote, hread]
  rfl

/-! ### Arrays -/

theorem length_arrayTail_pos (ss : List (List Char)) : 0 < (arrayTail ss).length := by
  cases ss <;> exact Nat.succ_pos _

/-- The elements from one on are read one after the other. -/
theorem scanElements_array {e : List Char × Json} {es : List (List Char × Json)}
    (h : ∀ e' ∈ e :: es, Reads float e'.1 e'.2) {n : ℕ}
    (hn : (e.1 ++ arrayTail (es.map Prod.fst)).length ≤ n + 1) :
    scanElements float (n + 1) (e.1 ++ (arrayTail (es.map Prod.fst) ++ rest)) =
      some ((e :: es).map Prod.snd, rest) := by
  induction es generalizing e n with
  | nil =>
    have hread := (h e List.mem_cons_self).reads n (']' :: rest)
      (by rw [List.length_append] at hn; exact Nat.le_of_succ_le_succ hn)
      (ends_cons (.inr (.inr rfl)) rest)
    show scanElements float (n + 1) (e.1 ++ ']' :: rest) = _
    rw [scanElements, hread]
    rfl
  | cons e' es ih =>
    obtain ⟨he, hes⟩ := List.forall_mem_cons.mp h
    have htail : arrayTail ((e' :: es).map Prod.fst) =
        ',' :: (e'.1 ++ arrayTail (es.map Prod.fst)) := rfl
    rw [htail, List.length_append, List.length_cons] at hn
    have hpos := length_arrayTail_pos (es.map Prod.fst)
    have hlen : (e'.1 ++ arrayTail (es.map Prod.fst)).length = _ := List.length_append
    obtain ⟨n, rfl⟩ := Nat.exists_eq_add_of_le' (show 1 ≤ n by omega)
    have hread := he.reads (n + 1) (',' :: (e'.1 ++ (arrayTail (es.map Prod.fst) ++ rest)))
      (by omega) (ends_cons (.inl rfl) _)
    rw [htail, List.cons_append, List.append_assoc, scanElements, hread]
    show (scanElements float (n + 1) (skipSpace (e'.1 ++ _))).bind _ = _
    rw [(hes e' List.mem_cons_self).skipSpace, ih hes (by omega)]
    rfl

/-- **An array.** -/
theorem reads_array {es : List (List Char × Json)} (h : ∀ e ∈ es, Reads float e.1 e.2) :
    Reads float (array (es.map Prod.fst)) (.arr (es.map Prod.snd)) := by
  cases es with
  | nil =>
    refine ⟨⟨'[', [']'], rfl, rfl, by decide⟩, fun n rest hn _ => ?_⟩
    obtain ⟨n, rfl⟩ := Nat.exists_eq_add_of_le' (Nat.le_trans (Nat.le_add_left 1 _) hn)
    rfl
  | cons e es =>
    refine ⟨⟨'[', _, rfl, rfl, by decide⟩, fun n rest hn _ => ?_⟩
    have htext : array ((e :: es).map Prod.fst) ++ rest =
        '[' :: (e.1 ++ (arrayTail (es.map Prod.fst) ++ rest)) := by
      simp [array]
    have hlen : (array ((e :: es).map Prod.fst)).length =
        (e.1 ++ arrayTail (es.map Prod.fst)).length + 1 := rfl
    have hpos := length_arrayTail_pos (es.map Prod.fst)
    have happend : (e.1 ++ arrayTail (es.map Prod.fst)).length = _ := List.length_append
    rw [hlen] at hn
    obtain ⟨n, rfl⟩ := Nat.exists_eq_add_of_le' (show 2 ≤ n by omega)
    obtain ⟨c, t, hstart, -, hbracket⟩ := (h e List.mem_cons_self).starts
    have hhead : (e.1 ++ (arrayTail (es.map Prod.fst) ++ rest)).head? ≠ some ']' := by
      rw [hstart]
      exact fun hc => hbracket (Option.some.inj hc)
    rw [htext, scanValue, if_neg (by decide), if_pos rfl, (h e List.mem_cons_self).skipSpace,
      if_neg hhead, scanElements_array h (by omega)]
    rfl

/-- **A whole text** is read as its value. -/
theorem Reads.loads_eq (h : Reads float s v) : loads float s = some v := by
  have hspace : Server.skipSpace s = s := by
    have hspace := h.skipSpace []
    rwa [List.append_nil] at hspace
  have hread := h.reads (s.length + 1) [] (Nat.le_succ _) fun c hc => by cases hc
  rw [List.append_nil] at hread
  rw [loads, hspace, hread]
  rfl

end Server
end CovioFirmware
