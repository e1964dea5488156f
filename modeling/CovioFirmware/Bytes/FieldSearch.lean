import CovioFirmware.Bytes.JsonText
import Mathlib.Data.List.TakeWhile

/-!
# Reading a field without a parser

`fieldText` looks for the quoted key, wherever it stands.  In the text of an object
whose members' keys and values contain no quotes of their own, a quoted key can stand
in two places: where it is a key, and where a string value happens to be the key's
name.

* `fieldText_object`: the first member of that key is found, if no string value
  before it has the key's name.
* `fieldText_object_of_value`: if one has, what is found is the value of the member
  behind it.

A text that breaks off is searched like the whole (`fieldText_mono`): what is found in
it is found in the whole, at the same place.
-/

namespace CovioFirmware
namespace Text

/-- The text from the first occurrence of a pattern on. -/
def find (pat s : List Char) : Option (List Char) := (indexOf pat s).map fun i => s.drop i

theorem find_cons {pat : List Char} {c : Char} {s : List Char} :
    find pat (c :: s) = if pat <+: c :: s then some (c :: s) else find pat s := by
  rw [find, indexOf]
  by_cases h : pat <+: c :: s
  · rw [if_pos (List.isPrefixOf_iff_prefix.mpr h), if_pos h]
    rfl
  · rw [if_neg (fun hc => h (List.isPrefixOf_iff_prefix.mp hc)), if_neg h, Option.map_map]
    rfl

/-- A text without quotes does not hold the start of a quoted key. -/
theorem find_append {key a s : List Char} (ha : '"' ∉ a) :
    find (quoted key) (a ++ s) = find (quoted key) s := by
  induction a with
  | nil => rfl
  | cons c a ih =>
    rw [List.mem_cons, not_or] at ha
    rw [List.cons_append, find_cons, if_neg, ih ha.2]
    rintro ⟨t, ht⟩
    exact ha.1 (List.cons.inj ht).1

/-- The text between two quotes is the key, or the search goes on behind it. -/
theorem find_quoted {key s rest : List Char} (hs : '"' ∉ s) (hkey : '"' ∉ key) :
    find (quoted key) (quoted s ++ rest) =
      if s = key then some (quoted s ++ rest) else find (quoted key) ('"' :: rest) := by
  have hstarts : quoted key <+: quoted s ++ rest ↔ s = key := by
    constructor
    · rintro ⟨t, ht⟩
      simp only [quoted, List.cons_append, List.append_assoc, List.nil_append, List.cons.injEq,
        true_and] at ht
      have htake := congrArg (List.takeWhile fun c => decide (c ≠ '"')) ht
      rw [List.takeWhile_append_of_pos, List.takeWhile_append_of_pos] at htake
      · simpa using htake.symm
      · exact fun c hc => by simpa using fun (h : c = '"') => hs (h ▸ hc)
      · exact fun c hc => by simpa using fun (h : c = '"') => hkey (h ▸ hc)
    · rintro rfl
      exact List.prefix_append _ _
  have hcons : quoted s ++ rest = '"' :: (s ++ '"' :: rest) := by simp [quoted]
  by_cases h : s = key
  · rw [if_pos h, hcons, find_cons, if_pos (hcons ▸ hstarts.mpr h)]
  · rw [if_neg h, hcons, find_cons, if_neg fun hc => h (hstarts.mp (hcons ▸ hc)), find_append hs]

theorem fieldText_eq_find {key body : List Char} (h : '\x00' ∉ body) :
    fieldText key body = (find (quoted key) body).bind (after ':') := by
  have hbody : cString body = body := by
    rw [cString, List.takeWhile_eq_self_iff]
    exact fun c hc => by simpa using fun (hnul : c = '\x00') => h (hnul ▸ hc)
  rw [fieldText, hbody, find]
  cases indexOf (quoted key) body <;> rfl

theorem after_append {c : Char} {a s : List Char} (h : c ∉ a) : after c (a ++ s) = after c s := by
  rw [after, after, List.dropWhile_append_of_pos]
  exact fun d hd => by simpa using fun (hc : d = c) => h (hc ▸ hd)

@[simp] theorem after_cons (c : Char) (s : List Char) : after c (c :: s) = some s := by
  simp [after]

/-! ## The members of an object -/

/-- The search for a key passes this member. -/
structure Passes (key : List Char) (f : List Char × List Char) : Prop where
  name : '"' ∉ f.1 ∧ f.1 ≠ key
  value : '"' ∉ f.2 ∨ ∃ s, f.2 = quoted s ∧ '"' ∉ s ∧ s ≠ key

/-- What a key must be like for the text between two members not to be taken for
it. -/
structure SearchKey (st : JsonText.ObjectStyle) (key : List Char) : Prop where
  quote : '"' ∉ key
  colon : ':' ∉ key
  separator : st.separator ≠ key

variable {st : JsonText.ObjectStyle} {key : List Char}

open JsonText (ObjectStyle)

/-- Behind the key of a passed member the search goes on at the text that follows
the member. -/
theorem find_behind_key (hkey : SearchKey st key) {v rest : List Char}
    (hv : '"' ∉ v ∨ ∃ s, v = quoted s ∧ '"' ∉ s ∧ s ≠ key) :
    find (quoted key) ('"' :: (':' :: st.gap ++ v ++ (st.separator ++ '"' :: rest))) =
      find (quoted key) ('"' :: rest) := by
  have hcolon : ∀ {s : List Char}, ':' :: s ≠ key := by
    intro s hs
    exact hkey.colon (hs ▸ List.mem_cons_self)
  rcases hv with hv | ⟨s, rfl, hs, hne⟩
  · -- the text between the key and the next one holds a colon
    have hclean : '"' ∉ ':' :: st.gap ++ v ++ st.separator := by
      simp [st.gap_clean, hv, st.separator_clean.1]
    have htext : '"' :: (':' :: st.gap ++ v ++ (st.separator ++ '"' :: rest)) =
        quoted (':' :: st.gap ++ v ++ st.separator) ++ rest := by simp [quoted]
    rw [htext, find_quoted hclean hkey.quote, if_neg (by exact hcolon)]
  · have hgap : '"' ∉ ':' :: st.gap := by simp [st.gap_clean]
    have htext : '"' :: (':' :: st.gap ++ quoted s ++ (st.separator ++ '"' :: rest)) =
        quoted (':' :: st.gap) ++ (s ++ '"' :: (st.separator ++ '"' :: rest)) := by simp [quoted]
    have hvalue : '"' :: (s ++ '"' :: (st.separator ++ '"' :: rest)) =
        quoted s ++ (st.separator ++ '"' :: rest) := by simp [quoted]
    have hsep : '"' :: (st.separator ++ '"' :: rest) = quoted st.separator ++ rest := by
      simp [quoted]
    rw [htext, find_quoted hgap hkey.quote, if_neg (by exact hcolon), hvalue,
      find_quoted hs hkey.quote, if_neg hne, hsep,
      find_quoted st.separator_clean.1 hkey.quote, if_neg hkey.separator]

/-- The search passes the members that it passes. -/
theorem find_members (hkey : SearchKey st key) {pre : List (List Char × List Char)}
    (hpre : ∀ f ∈ pre, Passes key f) (f : List Char × List Char) (post) :
    find (quoted key) (st.object (pre ++ f :: post)) =
      find (quoted key) (st.member f ++ st.tail post) := by
  -- the text before the first key, and between two keys, differ; behind it they are alike
  have hstep : ∀ (g : List Char × List Char) (fs : List (List Char × List Char)) (h),
      Passes key g → find (quoted key) (st.member g ++ st.tail (h :: fs)) =
        find (quoted key) (st.member h ++ st.tail fs) := by
    intro g fs h hg
    have htext : st.member g ++ st.tail (h :: fs) = quoted g.1 ++
        (':' :: st.gap ++ g.2 ++ (st.separator ++ '"' ::
          (h.1 ++ '"' :: (':' :: st.gap ++ h.2 ++ st.tail fs)))) := by
      simp [ObjectStyle.member, ObjectStyle.tail, quoted]
    rw [htext, find_quoted hg.name.1 hkey.quote, if_neg hg.name.2, find_behind_key hkey hg.value]
    simp [ObjectStyle.member, quoted]
  have hwalk : ∀ (pre : List (List Char × List Char)) (g), (∀ f ∈ g :: pre, Passes key f) →
      find (quoted key) (st.member g ++ st.tail (pre ++ f :: post)) =
        find (quoted key) (st.member f ++ st.tail post) := by
    intro pre
    induction pre with
    | nil => exact fun g hg => hstep g post f (hg g List.mem_cons_self)
    | cons h pre ih =>
      intro g hg
      rw [List.cons_append, hstep g _ h (hg g List.mem_cons_self)]
      exact ih h fun f hf => hg f (List.mem_cons_of_mem _ hf)
  cases pre with
  | nil =>
    rw [List.nil_append, ObjectStyle.object, List.append_assoc, find_append st.opening_clean]
  | cons g pre =>
    rw [List.cons_append, ObjectStyle.object, List.append_assoc, find_append st.opening_clean]
    exact hwalk pre g hpre

/-- **The member of a key is found** behind members the search passes. -/
theorem fieldText_object (hkey : SearchKey st key) {pre : List (List Char × List Char)}
    (hpre : ∀ f ∈ pre, Passes key f) {v : List Char} {post}
    (hnul : '\x00' ∉ st.object (pre ++ (key, v) :: post)) :
    fieldText key (st.object (pre ++ (key, v) :: post)) = some (st.gap ++ v ++ st.tail post) := by
  have htext : st.member (key, v) ++ st.tail post =
      quoted key ++ (':' :: st.gap ++ v ++ st.tail post) := by simp [ObjectStyle.member]
  have hclean : ':' ∉ quoted key := by simp [quoted, hkey.colon]
  rw [fieldText_eq_find hnul, find_members hkey hpre, htext, find_quoted hkey.quote hkey.quote,
    if_pos rfl, Option.bind_some, after_append hclean]
  simp

/-- **A value of the key's name is taken for the key**, and what is found is the value
of the next member. -/
theorem fieldText_object_of_value (hkey : SearchKey st key) {pre : List (List Char × List Char)}
    (hpre : ∀ f ∈ pre, Passes key f) {k k' w : List Char} {post} (hk : '"' ∉ k ∧ k ≠ key)
    (hk' : ':' ∉ k') (hnul : '\x00' ∉ st.object (pre ++ (k, quoted key) :: (k', w) :: post)) :
    fieldText key (st.object (pre ++ (k, quoted key) :: (k', w) :: post)) =
      some (st.gap ++ w ++ st.tail post) := by
  have hgap : '"' ∉ ':' :: st.gap := by simp [st.gap_clean]
  have hcolon : ':' :: st.gap ≠ key := fun h => hkey.colon (h ▸ List.mem_cons_self)
  have htext : st.member (k, quoted key) ++ st.tail ((k', w) :: post) = quoted k ++
      (':' :: st.gap ++ quoted key ++ (st.separator ++ st.member (k', w) ++ st.tail post)) := by
    simp [ObjectStyle.member, ObjectStyle.tail]
  have hopen : '"' :: (':' :: st.gap ++ quoted key ++
      (st.separator ++ st.member (k', w) ++ st.tail post)) = quoted (':' :: st.gap) ++
        (key ++ '"' :: (st.separator ++ st.member (k', w) ++ st.tail post)) := by simp [quoted]
  have hvalue : '"' :: (key ++ '"' :: (st.separator ++ st.member (k', w) ++ st.tail post)) =
      quoted key ++ (st.separator ++ st.member (k', w) ++ st.tail post) := by simp [quoted]
  have hnext : quoted key ++ (st.separator ++ st.member (k', w) ++ st.tail post) =
      (quoted key ++ st.separator ++ quoted k') ++ ':' :: (st.gap ++ w ++ st.tail post) := by
    simp [ObjectStyle.member]
  have hclean : ':' ∉ quoted key ++ st.separator ++ quoted k' := by
    simp [quoted, hkey.colon, st.separator_clean.2, hk']
  rw [fieldText_eq_find hnul, find_members hkey hpre, htext, find_quoted hk.1 hkey.quote,
    if_neg hk.2, hopen, find_quoted hgap hkey.quote, if_neg hcolon, hvalue,
    find_quoted hkey.quote hkey.quote, if_pos rfl, Option.bind_some, hnext, after_append hclean,
    after_cons]

/-- In an object whose first members have different keys, the search for one of these
finds its member, whatever follows them. -/
theorem fieldText_object_of_mem (hkey : SearchKey st key)
    {good more : List (List Char × List Char)} {v : List Char}
    (hgood : ∀ f ∈ good, f.1 = key ∨ Passes key f) (hmem : (key, v) ∈ good)
    (hnodup : (good.map Prod.fst).Nodup) (hnul : '\x00' ∉ st.object (good ++ more)) :
    ∃ post, fieldText key (st.object (good ++ more)) = some (st.gap ++ v ++ st.tail post) := by
  obtain ⟨pre, post, rfl⟩ := List.append_of_mem hmem
  refine ⟨post ++ more, ?_⟩
  rw [List.append_assoc, List.cons_append] at hnul ⊢
  refine fieldText_object hkey (fun f hf => ?_) hnul
  refine (hgood f (List.mem_append_left _ hf)).resolve_left fun h => ?_
  rw [List.map_append, List.map_cons, List.nodup_append] at hnodup
  exact hnodup.2.2 f.1 (List.mem_map_of_mem hf) key List.mem_cons_self h

/-! ## A text that breaks off -/

section Truncated

variable {pat s t u : List Char} {c : Char}

theorem prefix_of_find (h : find pat s = some u) : pat <+: u ∧ u.length ≤ s.length := by
  induction s with
  | nil =>
    rw [find, indexOf] at h
    split at h
    · next hempty =>
      rw [List.isEmpty_iff.mp hempty]
      exact ⟨List.nil_prefix, by simp [← Option.some.inj h]⟩
    · cases h
  | cons c s ih =>
    rw [find_cons] at h
    split at h
    · next hpat => exact Option.some.inj h ▸ ⟨hpat, le_rfl⟩
    · exact ⟨(ih h).1, (ih h).2.trans (Nat.le_succ _)⟩

/-- The first occurrence in a text is the first in every longer one. -/
theorem find_mono (hst : s <+: t) (h : find pat s = some u) :
    ∃ v, find pat t = some v ∧ u <+: v := by
  induction s generalizing t with
  | nil =>
    obtain ⟨hpat, hlen⟩ := prefix_of_find h
    have hu : u = [] := List.length_eq_zero_iff.mp (Nat.le_zero.mp hlen)
    subst hu
    rw [List.prefix_nil.mp hpat, find, indexOf_of_prefix List.nil_prefix]
    exact ⟨_, rfl, List.nil_prefix⟩
  | cons c s ih =>
    obtain ⟨r, rfl⟩ := hst
    have hfront : c :: s <+: c :: (s ++ r) := List.prefix_append (c :: s) r
    rw [List.cons_append, find_cons]
    rw [find_cons] at h
    by_cases hpat : pat <+: c :: s
    · rw [if_pos hpat] at h
      rw [if_pos (hpat.trans hfront), ← Option.some.inj h]
      exact ⟨_, rfl, hfront⟩
    · rw [if_neg hpat] at h
      obtain ⟨hstart, hlen⟩ := prefix_of_find h
      -- an occurrence at the front of the longer text would lie in the shorter one
      rw [if_neg fun hc => hpat (List.prefix_of_prefix_length_le hc hfront
        ((hstart.length_le.trans hlen).trans (Nat.le_succ _)))]
      exact ih (List.prefix_append s r) h

theorem takeWhile_mono (p : Char → Bool) (h : s <+: t) : s.takeWhile p <+: t.takeWhile p := by
  obtain ⟨r, rfl⟩ := h
  rw [List.takeWhile_append]
  split
  · next hall =>
    rw [List.takeWhile_eq_self_iff.mpr fun c hc => ?_]
    · exact List.prefix_append _ _
    · rw [← (List.takeWhile_prefix p).eq_of_length hall] at hc
      exact List.mem_takeWhile_imp hc
  · exact List.prefix_refl _

theorem dropWhile_mono (p : Char → Bool) (h : s <+: t) : s.dropWhile p <+: t.dropWhile p := by
  obtain ⟨r, rfl⟩ := h
  rw [List.dropWhile_append]
  split
  · next hall => rw [List.isEmpty_iff.mp hall]; exact List.nil_prefix
  · exact List.prefix_append _ _

theorem after_mono (hst : s <+: t) (h : after c s = some u) :
    ∃ v, after c t = some v ∧ u <+: v := by
  have hdrop := dropWhile_mono (· ≠ c) hst
  unfold after at h ⊢
  cases hs : s.dropWhile (· ≠ c) with
  | nil =>
    rw [hs] at h
    cases h
  | cons d rest =>
    rw [hs] at h hdrop
    obtain ⟨r, hr⟩ := hdrop
    rw [← hr]
    exact ⟨rest ++ r, rfl, Option.some.inj h ▸ List.prefix_append _ r⟩

/-- **What is found in a text that breaks off** is found in the whole. -/
theorem fieldText_mono {key : List Char} (hst : s <+: t) (h : fieldText key s = some u) :
    ∃ v, fieldText key t = some v ∧ u <+: v := by
  have hfind : ∀ body, fieldText key body = (find (quoted key) (cString body)).bind (after ':') :=
    fun body => by
      rw [fieldText, find]
      cases indexOf (quoted key) (cString body) <;> rfl
  rw [hfind] at h ⊢
  obtain ⟨a, ha, hafter⟩ := Option.bind_eq_some_iff.mp h
  obtain ⟨a', ha', hpre⟩ := find_mono (takeWhile_mono _ hst) ha
  rw [cString, ha', Option.bind_some]
  exact after_mono hpre hafter

/-- A run of digits that breaks off. -/
theorem digitRun_mono (h : s <+: t) : digitRun s <+: digitRun t :=
  takeWhile_mono _ (dropWhile_mono _ h)

end Truncated

end Text
end CovioFirmware
