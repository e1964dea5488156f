import CovioFirmware.Bytes.FieldSearch
import CovioFirmware.Upgrade.Manifest

/-!
# `sign_manifest.py`

The offline tool that cuts a release.  It signs the canonical string of eleven
fields and publishes the fields in a JSON file, from which the device rebuilds the
string.  The tool and `buildCanonicalManifestString` are two implementations of one
format.

Left out are the key pair, the reading of the image and the command line: the fields
are given, and so are the key id and the signature in Base64.
-/

namespace CovioFirmware
namespace Upgrade

open JsonText

/-- `fields` of `sign_manifest`. -/
structure ReleaseFields where
  hwCompat : List Char
  version : List Char
  securityVersion : ℤ
  schemaVersion : ℤ
  imageSize : ℤ
  imageSha256 : List Char
  imageUrl : List Char
  channel : List Char
  issuedAt : ℤ
  expiresAt : ℤ
  manifestId : List Char

/-- `build_canonical_string`. -/
def buildCanonicalString (f : ReleaseFields) : List Char :=
  ['\n'].intercalate [f.hwCompat, f.version, int f.securityVersion, int f.schemaVersion,
    int f.imageSize, f.imageSha256, f.imageUrl, f.channel, int f.issuedAt, int f.expiresAt,
    f.manifestId]

namespace ReleaseFields

/-- The strings among the fields. -/
def strings (f : ReleaseFields) : List (List Char) :=
  [f.version, f.imageUrl, f.hwCompat, f.imageSha256, f.channel, f.manifestId]

/-- The numbers among the fields. -/
def numbers (f : ReleaseFields) : List ℤ :=
  [f.securityVersion, f.schemaVersion, f.imageSize, f.issuedAt, f.expiresAt]

/-- The members of `manifest` that are signed. -/
def signedMembers (f : ReleaseFields) : List (List Char × List Char) :=
  [("version".toList, string pythonEscapes f.version),
    ("url".toList, string pythonEscapes f.imageUrl),
    ("security_version".toList, int f.securityVersion),
    ("hw_compat".toList, string pythonEscapes f.hwCompat),
    ("schema_version".toList, int f.schemaVersion),
    ("image_size".toList, int f.imageSize),
    ("image_sha256".toList, string pythonEscapes f.imageSha256),
    ("channel".toList, string pythonEscapes f.channel),
    ("issued_at".toList, int f.issuedAt),
    ("expires_at".toList, int f.expiresAt),
    ("manifest_id".toList, string pythonEscapes f.manifestId)]

end ReleaseFields

/-- The file `sign_manifest` writes: `json.dumps(manifest, indent=2)`. -/
def signManifest (f : ReleaseFields) (keyId sigB64 : List Char) : List Char :=
  indented.object (f.signedMembers ++ [("key_id".toList, string pythonEscapes keyId),
    ("signature".toList, string pythonEscapes sigB64)])

/-- The keys of a manifest. -/
def manifestKeys : List (List Char) :=
  ["version".toList, "url".toList, "security_version".toList, "hw_compat".toList,
    "schema_version".toList, "image_size".toList, "image_sha256".toList, "channel".toList,
    "issued_at".toList, "expires_at".toList, "manifest_id".toList, "key_id".toList,
    "signature".toList]

attribute [ext] SignedManifestFields

namespace SignedManifestFields

/-- The fields in the order in which they are signed. -/
def canonicalFields (f : SignedManifestFields) : List (List Char) :=
  [f.hwCompat, f.version, decimal f.securityVersion, decimal f.schemaVersion,
    decimal f.imageSize, f.imageSha256Hex, f.imageUrl, f.channel, decimal f.issuedAt,
    decimal f.expiresAt, f.manifestId]

/-- The strings among the fields. -/
def strings (f : SignedManifestFields) : List (List Char) :=
  [f.hwCompat, f.version, f.imageSha256Hex, f.imageUrl, f.channel, f.manifestId]

end SignedManifestFields

/-- `buildCanonicalManifestString` into a buffer of `outCap` characters; `none` for
-1. -/
def buildCanonicalManifestStringInto (outCap : ℕ) (f : SignedManifestFields) :
    Option (List Char) :=
  let s := ['\n'].intercalate f.canonicalFields
  if outCap ≤ s.length then none else some s

theorem buildCanonicalManifestString_eq (f : SignedManifestFields) :
    buildCanonicalManifestString f = buildCanonicalManifestStringInto 512 f := rfl

/-! ## What the extractors make of a located value -/

/-- A string value is read up to its first quote. -/
theorem extractStr_of_fieldText {body key gap s rest : List Char}
    (h : Text.fieldText key body = some (gap ++ Text.quoted s ++ rest)) (hgap : '"' ∉ gap) :
    extractStr body key = (s ++ ['"']).takeWhile (· ≠ '"') := by
  have htext : gap ++ Text.quoted s ++ rest = (gap ++ ['"']) ++ (s ++ ['"'] ++ rest) := by
    simp [Text.quoted]
  have hafter : Text.after '"' (gap ++ Text.quoted s ++ rest) = some (s ++ ['"'] ++ rest) := by
    rw [htext, List.append_assoc, Text.after_append hgap, List.singleton_append, Text.after_cons]
  have hmem : '"' ∈ s ++ ['"'] ++ rest := by simp
  rw [extractStr, h, Option.bind_some, hafter]
  simp only [hmem, if_true]
  -- the run ends at the closing quote or before it
  have hstop : ∀ l : List Char, (l ++ '"' :: rest).takeWhile (· ≠ '"') =
      (l ++ ['"']).takeWhile (· ≠ '"') := by
    intro l
    induction l with
    | nil => simp
    | cons c l ih =>
      by_cases hc : c = '"'
      · simp [hc]
      · simpa [hc] using ih
  rw [List.append_assoc, List.singleton_append]
  exact hstop s

/-- A value without quotes is read as it is. -/
theorem takeWhile_quote {s : List Char} (h : '"' ∉ s) :
    (s ++ ['"']).takeWhile (· ≠ '"') = s := by
  rw [List.takeWhile_append_of_pos]
  · simp
  · exact fun c hc => by simpa using fun (hq : c = '"') => h (hq ▸ hc)

theorem accumulateLong_eq (s : List Char) :
    accumulateLong s = .ofNat (Nat.ofDigitChars 10 s 0) := by
  have hrun : ∀ (s : List Char) (v : ℕ), s.foldl (fun v c => v * 10 +
      Int32.ofNat (c.toNat - '0'.toNat)) (Int32.ofNat v) = .ofNat (Nat.ofDigitChars 10 s v) := by
    intro s
    induction s with
    | nil => exact fun v => rfl
    | cons c s ih =>
      intro v
      rw [List.foldl_cons, Nat.ofDigitChars_cons, ← ih, Int32.ofNat_add, Int32.ofNat_mul,
        Int32.mul_comm]
      rfl
  exact hrun s 0

/-- A number is read as it is, where it fits into 32 bits. -/
theorem extractLong_of_fieldText {body key rest : List Char} {n : ℕ}
    (h : Text.fieldText key body = some (' ' :: Nat.toDigits 10 n ++ rest))
    (hrest : ∀ c ∈ rest.head?, c.isDigit = false) : extractLong body key = .ofNat n := by
  obtain ⟨d, ds, hds⟩ : ∃ d ds, Nat.toDigits 10 n = d :: ds :=
    List.exists_cons_of_ne_nil Nat.toDigits_ne_nil
  have hdigit : ∀ c ∈ Nat.toDigits 10 n, c.isDigit = true := fun c =>
    Text.isDigit_of_mem_toDigits
  have hd : d.isDigit = true := hdigit d (hds ▸ List.mem_cons_self)
  have hrun : Text.digitRun (' ' :: Nat.toDigits 10 n ++ rest) = Nat.toDigits 10 n := by
    have hblank : d ≠ ' ' ∧ d ≠ '"' := by
      constructor <;> rintro rfl <;> exact absurd hd (by decide)
    have hdrop : (' ' :: Nat.toDigits 10 n ++ rest).dropWhile (fun c => c = ' ' ∨ c = '"') =
        Nat.toDigits 10 n ++ rest := by
      rw [hds]
      simp [hblank]
    rw [Text.digitRun, hdrop, List.takeWhile_append_of_pos hdigit]
    cases rest with
    | nil => simp
    | cons c rest => simp [hrest c (by simp)]
  rw [extractLong, h]
  simp only [hrun]
  rw [hds, List.isEmpty_cons, ← hds, if_neg Bool.false_ne_true, accumulateLong_eq,
    Nat.ofDigitChars_ten_toDigits]

end Upgrade
end CovioFirmware
