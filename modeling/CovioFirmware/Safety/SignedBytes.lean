import CovioFirmware.Upgrade.Signing

/-!
# The signed bytes

The signature of a release covers one string.  Two things have to hold of it: the
device rebuilds from the published file the string that was signed
(`rebuilt_eq_signed`), and no other fields lead to the same string
(`canonicalFields_injective`).

The first is about the device's extractors, which search the file for a quoted key:
they find a member of it as long as no value is the name of a key.  The second is
about the newlines, of which the signed string has ten.  The fields of a signed
manifest use none of them up, and so no other fields can.
-/

namespace CovioFirmware
namespace Upgrade

open JsonText

/-! ## The device rebuilds what was signed -/

/-- A text the encoder writes as it is, and that is no key of a manifest. -/
structure PlainValue (s : List Char) : Prop where
  printable : ∀ c ∈ s, pythonEscapes c = false
  notKey : s ∉ manifestKeys

namespace PlainValue

variable {s : List Char}

theorem string_eq (h : PlainValue s) : string pythonEscapes s = Text.quoted s := by
  rw [string, escaped_of_plain h.printable]

theorem quote_notMem (h : PlainValue s) : '"' ∉ s := fun hc => by
  have := h.printable _ hc
  simp [pythonEscapes] at this

end PlainValue

theorem quote_notMem_int (n : ℤ) : '"' ∉ int n := by
  intro h
  rcases Text.mem_toString h with h | h
  · exact absurd h (by decide)
  · exact absurd h (by decide)

/-- What the signer needs of the fields for the device to find them all. -/
structure ReleaseFields.Readable (f : ReleaseFields) : Prop where
  strings : ∀ s ∈ f.strings, PlainValue s
  numbers : ∀ n ∈ f.numbers, 0 ≤ n ∧ n < 2 ^ 31

namespace ReleaseFields

variable {f : ReleaseFields} {keyId sigB64 : List Char}

theorem nul_notMem_signManifest : '\x00' ∉ signManifest f keyId sigB64 := by
  refine ObjectStyle.nul_notMem_object (by decide) ?_
  simp only [signedMembers, List.cons_append, List.nil_append, List.forall_mem_cons,
    nul_notMem_string (show pythonEscapes '\x00' = true by decide), nul_notMem_int,
    not_false_eq_true, and_true]
  decide

/-- The search for one signed key passes the members of the others. -/
theorem passes_signedMembers (hf : f.Readable) {key : List Char} (hkey : key ∈ manifestKeys) :
    ∀ g ∈ f.signedMembers, g.1 = key ∨ Text.Passes key g := by
  intro g hg
  rw [or_iff_not_imp_left]
  intro hne
  have hname : ∀ h ∈ f.signedMembers, '"' ∉ h.1 := by
    simp only [signedMembers, List.forall_mem_cons]
    decide
  have hstring : ∀ s ∈ f.strings, '"' ∉ string pythonEscapes s ∨
      ∃ t, string pythonEscapes s = Text.quoted t ∧ '"' ∉ t ∧ t ≠ key := by
    intro s hs
    have hplain := hf.strings s hs
    exact .inr ⟨s, hplain.string_eq, hplain.quote_notMem, fun h => hplain.notKey (h ▸ hkey)⟩
  have hvalue : ∀ h ∈ f.signedMembers, '"' ∉ h.2 ∨
      ∃ t, h.2 = Text.quoted t ∧ '"' ∉ t ∧ t ≠ key := by
    simp only [strings, List.forall_mem_cons] at hstring
    simp only [signedMembers, List.forall_mem_cons, hstring, quote_notMem_int, not_false_eq_true,
      true_or, List.not_mem_nil, false_imp_iff, implies_true, and_true]
  exact ⟨⟨hname g hg, hne⟩, hvalue g hg⟩

/-- The device finds every signed member. -/
theorem fieldText_signManifest (keyId sigB64 : List Char) (hf : f.Readable) {key v : List Char}
    (hkey : key ∈ manifestKeys) (hmem : (key, v) ∈ f.signedMembers) :
    ∃ post, Text.fieldText key (signManifest f keyId sigB64) =
      some (' ' :: v ++ indented.tail post) := by
  have hsearch : ∀ key ∈ manifestKeys, Text.SearchKey indented key := by
    have hall : ∀ key ∈ manifestKeys, '"' ∉ key ∧ ':' ∉ key ∧ indented.separator ≠ key := by
      decide
    exact fun key h => ⟨(hall key h).1, (hall key h).2.1, (hall key h).2.2⟩
  have hnodup : (f.signedMembers.map Prod.fst).Nodup := by
    simp only [signedMembers, List.map_cons, List.map_nil]
    decide
  exact Text.fieldText_object_of_mem (hsearch key hkey) (passes_signedMembers hf hkey) hmem hnodup
    nul_notMem_signManifest

theorem extractStr_signManifest (hf : f.Readable) {key s : List Char} (hkey : key ∈ manifestKeys)
    (hs : s ∈ f.strings) (hmem : (key, string pythonEscapes s) ∈ f.signedMembers) :
    extractStr (signManifest f keyId sigB64) key = s := by
  obtain ⟨post, h⟩ := fieldText_signManifest keyId sigB64 hf hkey hmem
  rw [(hf.strings s hs).string_eq, ← List.singleton_append] at h
  rw [extractStr_of_fieldText h (by decide), takeWhile_quote (hf.strings s hs).quote_notMem]

theorem extractLong_signManifest (hf : f.Readable) {key : List Char} {n : ℤ}
    (hkey : key ∈ manifestKeys) (hn : n ∈ f.numbers) (hmem : (key, int n) ∈ f.signedMembers) :
    (extractLong (signManifest f keyId sigB64) key).toInt = n := by
  obtain ⟨post, h⟩ := fieldText_signManifest keyId sigB64 hf hkey hmem
  obtain ⟨hpos, hlt⟩ := hf.numbers n hn
  have hint : int n = Nat.toDigits 10 n.toNat := by
    rw [int, Text.toList_toString, if_pos hpos]
  have hend : ∀ c ∈ (indented.tail post).head?, c.isDigit = false := by
    intro c hc
    cases post with
    | nil =>
      obtain rfl : '\n' = c := Option.some.inj hc
      rfl
    | cons g post =>
      obtain rfl : ',' = c := Option.some.inj hc
      rfl
  rw [hint] at h
  rw [extractLong_of_fieldText h hend]
  have hsize : n.toNat < 2 ^ 31 := by omega
  rw [Int32.toInt_ofNat_of_lt hsize]
  omega

/-- **Signer and device agree.**  The device rebuilds the string that was signed, or
refuses it for its length. -/
theorem rebuilt_eq_signed (f : ReleaseFields) (hf : f.Readable) (keyId sigB64 : List Char) :
    buildCanonicalManifestString (manifestFields (signManifest f keyId sigB64)) =
      if 512 ≤ (buildCanonicalString f).length then none else some (buildCanonicalString f) := by
  have hstr : ∀ {key s : List Char}, key ∈ manifestKeys → s ∈ f.strings →
      (key, string pythonEscapes s) ∈ f.signedMembers →
        extractStr (signManifest f keyId sigB64) key = s := extractStr_signManifest hf
  have hint : ∀ {key : List Char} {n : ℤ}, key ∈ manifestKeys → n ∈ f.numbers →
      (key, int n) ∈ f.signedMembers →
        decimal (extractLong (signManifest f keyId sigB64) key) = int n := by
    intro key n hkey hn hmem
    rw [decimal, extractLong_signManifest hf hkey hn hmem, int]
  have hfields : (manifestFields (signManifest f keyId sigB64)).canonicalFields =
      [f.hwCompat, f.version, int f.securityVersion, int f.schemaVersion, int f.imageSize,
        f.imageSha256, f.imageUrl, f.channel, int f.issuedAt, int f.expiresAt, f.manifestId] := by
    simp only [SignedManifestFields.canonicalFields, manifestFields]
    rw [hstr (s := f.hwCompat), hstr (s := f.version), hint (n := f.securityVersion),
      hint (n := f.schemaVersion), hint (n := f.imageSize), hstr (s := f.imageSha256),
      hstr (s := f.imageUrl), hstr (s := f.channel), hint (n := f.issuedAt),
      hint (n := f.expiresAt), hstr (s := f.manifestId)] <;>
      simp [manifestKeys, strings, numbers, signedMembers]
  rw [buildCanonicalManifestString_eq, buildCanonicalManifestStringInto, hfields]
  rfl

end ReleaseFields

/-- A release the signer can cut. -/
def sampleRelease : ReleaseFields where
  hwCompat := "covio-m1".toList
  version := "1.4.1".toList
  securityVersion := 3
  schemaVersion := 1
  imageSize := 1048576
  imageSha256 := List.replicate 64 'a'
  imageUrl := "https://ota.example/fw.bin".toList
  channel := "stable".toList
  issuedAt := 1700000000
  expiresAt := 1702592000
  manifestId := "1.4.1-1700000000".toList

theorem rebuilt_eq_signed_sampleRelease : sampleRelease.Readable ∧
    buildCanonicalManifestString (manifestFields (signManifest sampleRelease
      "release-1".toList "MEUC".toList)) = some (buildCanonicalString sampleRelease) := by
  have hstrings : ∀ s ∈ sampleRelease.strings,
      (s.all fun c => !pythonEscapes c) = true ∧ s ∉ manifestKeys := by decide +kernel
  have hplain : ∀ s ∈ sampleRelease.strings, ∀ c ∈ s, pythonEscapes c = false :=
    fun s hs c hc => by simpa using List.all_eq_true.mp (hstrings s hs).1 c hc
  have hreadable : sampleRelease.Readable :=
    ⟨fun s hs => ⟨hplain s hs, (hstrings s hs).2⟩, by decide⟩
  refine ⟨hreadable, ?_⟩
  rw [ReleaseFields.rebuilt_eq_signed sampleRelease hreadable, if_neg (by decide +kernel)]

/-! ## No other fields have the same signed string -/

namespace SignedManifestFields

variable {f g : SignedManifestFields}

theorem decimal_injective {m n : Int32} (h : decimal m = decimal n) : m = n :=
  Int32.toInt_inj.mp (Text.toString_injective h)

theorem newline_notMem_decimal (n : Int32) : '\n' ∉ decimal n := by
  intro h
  rcases Text.mem_toString h with h | h
  · exact absurd h (by decide)
  · exact absurd h (by decide)

/-- The fields in signing order determine the manifest's fields. -/
theorem eq_of_canonicalFields (h : f.canonicalFields = g.canonicalFields) : f = g := by
  simp only [canonicalFields, List.cons.injEq, and_true] at h
  obtain ⟨hhw, hversion, hsecurity, hschema, hsize, hsha, hurl, hchannel, hissued, hexpires,
    hid⟩ := h
  ext1
  · exact hhw
  · exact hversion
  · exact decimal_injective hsecurity
  · exact decimal_injective hschema
  · exact decimal_injective hsize
  · exact hsha
  · exact hurl
  · exact hchannel
  · exact decimal_injective hissued
  · exact decimal_injective hexpires
  · exact hid

theorem newline_notMem_canonicalFields (hg : ∀ s ∈ g.strings, '\n' ∉ s) :
    ∀ s ∈ g.canonicalFields, '\n' ∉ s := by
  simp only [strings, List.forall_mem_cons] at hg
  simp only [canonicalFields, List.forall_mem_cons, newline_notMem_decimal, hg,
    not_false_eq_true, List.not_mem_nil, false_imp_iff, implies_true, and_true]

end SignedManifestFields

/-- **The signed string is unambiguous.**  Fields that lead to the string of a release
without newlines in its own fields are the fields of this release, whatever characters
the other ones consist of. -/
theorem canonicalString_unambiguous {outCap outCap' : ℕ} {f g : SignedManifestFields}
    {s : List Char} (hg : ∀ t ∈ g.strings, '\n' ∉ t)
    (hsigned : buildCanonicalManifestStringInto outCap g = some s)
    (hread : buildCanonicalManifestStringInto outCap' f = some s) : f = g := by
  have hjoined : ∀ {cap : ℕ} {h : SignedManifestFields},
      buildCanonicalManifestStringInto cap h = some s →
        ['\n'].intercalate h.canonicalFields = s := by
    intro cap h hs
    rw [buildCanonicalManifestStringInto] at hs
    exact Option.some.inj (Option.ite_none_left_eq_some.mp hs).2
  have hsame : ['\n'].intercalate f.canonicalFields = ['\n'].intercalate g.canonicalFields := by
    rw [hjoined hread, hjoined hsigned]
  exact SignedManifestFields.eq_of_canonicalFields (Text.intercalate_injective rfl
    (SignedManifestFields.newline_notMem_canonicalFields hg) hsame)

/-- The fields of the sample release, as the device holds them. -/
def sampleFields : SignedManifestFields where
  hwCompat := "covio-m1".toList
  version := "1.4.1".toList
  securityVersion := 3
  schemaVersion := 1
  imageSize := 1048576
  imageSha256Hex := List.replicate 64 'a'
  imageUrl := "https://ota.example/fw.bin".toList
  channel := "stable".toList
  issuedAt := 1700000000
  expiresAt := 1702592000
  manifestId := "1.4.1-1700000000".toList

theorem canonicalString_unambiguous_sampleRelease :
    manifestFields (signManifest sampleRelease "release-1".toList "MEUC".toList) = sampleFields :=
  @canonicalString_unambiguous 256 512 _ _ (buildCanonicalString sampleRelease)
    (by decide +kernel) (by decide +kernel) (by decide +kernel)

end Upgrade
end CovioFirmware
