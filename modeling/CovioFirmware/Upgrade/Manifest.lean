import CovioFirmware.Bytes.Text
import CovioFirmware.Device.Sync
import CovioFirmware.Upgrade.Health

/-!
# The update manifest

`ota.h` reads the manifest with two extractors, a string one and an integer one
without overflow check; `long` has 32 bits on the target, and the accumulation wraps.
What it reads is judged by three policy functions --- `evaluateOtaCandidate`
(`ota_version_policy.h`), `manifestHasRequiredFields` and `checkManifestTimeValidity`
(`ota_manifest_auth.h`) --- and authenticated by a signature over the canonical
string of the fields.

The cryptography is not part of the repository and is a parameter (`Crypto`).
-/

namespace CovioFirmware
namespace Upgrade

open Crash
open Device (ServerTime)

/-- `mbedtls`: Base64 into the 256-byte buffer, SHA-256, and the check of a digest and a
signature under the compiled-in public key, `none` if that key does not parse. -/
structure Crypto where
  base64Decode : List Char → Option Data
  sha256 : Data → Data
  verify : Option (Data → Data → Bool)

/-- What is compiled into a firmware: its version pair, `DEVICE_MODEL`,
`SCHEMA_VERSION_CURRENT` and `COVIO_OTA_KEY_ID`. -/
structure Build where
  image : Image
  deviceModel : List Char
  schemaVersion : Int32
  keyId : List Char

/-! ## Extractors -/

/-- `extractStr_`. -/
def extractStr (body key : List Char) : List Char :=
  match (Text.fieldText key body).bind (Text.after '"') with
  | none => []
  | some s => if '"' ∈ s then s.takeWhile (· ≠ '"') else []

/-- `v = v * 10 + (c - '0')` in 32 bits. -/
def accumulateLong (s : List Char) : Int32 :=
  s.foldl (fun v c => v * 10 + .ofNat (c.toNat - '0'.toNat)) 0

/-- `extractLong_`. -/
def extractLong (body key : List Char) : Int32 :=
  match Text.fieldText key body with
  | none => -1
  | some s =>
      let digits := Text.digitRun s
      if digits.isEmpty then -1 else accumulateLong digits

/-! ## Policy -/

/-- `OtaCandidate`. -/
structure OtaCandidate where
  hasSecurityVersion : Bool
  securityVersion : Int32
  hasHwCompat : Bool
  hwCompat : List Char
  hasSchemaVersion : Bool
  schemaVersion : Int32

/-- `evaluateOtaCandidate`. -/
def evaluateOtaCandidate (c : OtaCandidate) (acceptedSecurityFloor : UInt32)
    (deviceModel : List Char) (currentSchemaVersion : Int32) : OtaVerdict :=
  if ¬ c.hasSecurityVersion then .missingMetadata
  else if c.securityVersion < 0 then .malformedVersion
  else if c.securityVersion.toUInt32 < acceptedSecurityFloor then .downgrade
  else if c.hasHwCompat ∧ c.hwCompat ≠ deviceModel then .hwMismatch
  else if c.hasSchemaVersion ∧ c.schemaVersion ≠ currentSchemaVersion then .schemaMismatch
  else .accept

/-- `SignedManifestFields`. -/
structure SignedManifestFields where
  hwCompat : List Char
  version : List Char
  securityVersion : Int32
  schemaVersion : Int32
  imageSize : Int32
  imageSha256Hex : List Char
  imageUrl : List Char
  channel : List Char
  issuedAt : Int32
  expiresAt : Int32
  manifestId : List Char

/-- `%ld`. -/
def decimal (v : Int32) : List Char := (toString v.toInt).toList

/-- `buildCanonicalManifestString` into a buffer of 512 characters. -/
def buildCanonicalManifestString (f : SignedManifestFields) : Option (List Char) :=
  let s := ['\n'].intercalate [f.hwCompat, f.version, decimal f.securityVersion,
    decimal f.schemaVersion, decimal f.imageSize, f.imageSha256Hex, f.imageUrl, f.channel,
    decimal f.issuedAt, decimal f.expiresAt, f.manifestId]
  if 512 ≤ s.length then none else some s

/-- `ManifestTimeVerdict`. -/
inductive ManifestTimeVerdict where
  | ok | expired | notYetValid
  deriving DecidableEq

/-- `checkManifestTimeValidity`. -/
def checkManifestTimeValidity (issuedAt expiresAt nowEstimate allowedSkewSeconds : Int32) :
    ManifestTimeVerdict :=
  if expiresAt + allowedSkewSeconds < nowEstimate then .expired
  else if nowEstimate + allowedSkewSeconds < issuedAt then .notYetValid
  else .ok

/-- `OTA_MANIFEST_TIME_SKEW_S`. -/
def otaManifestTimeSkewS : Int32 := 3600

/-- The fields of a manifest body, as `poll` fills them in. -/
def manifestFields (body : List Char) : SignedManifestFields where
  hwCompat := extractStr body "hw_compat".toList
  version := extractStr body "version".toList
  securityVersion := extractLong body "security_version".toList
  schemaVersion := extractLong body "schema_version".toList
  imageSize := extractLong body "image_size".toList
  imageSha256Hex := extractStr body "image_sha256".toList
  imageUrl := extractStr body "url".toList
  channel := extractStr body "channel".toList
  issuedAt := extractLong body "issued_at".toList
  expiresAt := extractLong body "expires_at".toList
  manifestId := extractStr body "manifest_id".toList

/-- The candidate `poll` builds from the same values. -/
def SignedManifestFields.candidate (f : SignedManifestFields) : OtaCandidate where
  hasSecurityVersion := decide (0 ≤ f.securityVersion)
  securityVersion := f.securityVersion
  hasHwCompat := !f.hwCompat.isEmpty
  hwCompat := f.hwCompat
  hasSchemaVersion := decide (0 ≤ f.schemaVersion)
  schemaVersion := f.schemaVersion

/-- `manifestHasRequiredFields`. -/
def manifestHasRequiredFields (f : SignedManifestFields) (keyId sigB64 : List Char) : Bool :=
  decide (0 ≤ f.imageSize) && f.imageSha256Hex.length == 64 && !f.channel.isEmpty &&
    decide (0 ≤ f.issuedAt) && decide (0 ≤ f.expiresAt) && !f.manifestId.isEmpty &&
    !keyId.isEmpty && !sigB64.isEmpty && !f.hwCompat.isEmpty

/-- The bytes of a text. -/
def textBytes (s : List Char) : Data := s.map fun c => .ofNat c.toNat

/-- The part of `verifyManifestAuthenticity_` behind the clock: the signature. -/
def verifySignature (crypto : Crypto) (fields : SignedManifestFields) (sigB64 : List Char) :
    OtaAuthVerdict :=
  match buildCanonicalManifestString fields with
  | none => .missingFields
  | some canonical =>
      match crypto.base64Decode sigB64 with
      | none => .badSignatureEncoding
      | some sigDer =>
          match crypto.verify with
          | none => .sigVerifyFailed
          | some verify =>
              if verify (crypto.sha256 (textBytes canonical)) sigDer then .ok else .sigVerifyFailed

/-- `verifyManifestAuthenticity_`. -/
def verifyManifestAuthenticity (crypto : Crypto) (build : Build) (time : ServerTime)
    (fields : SignedManifestFields) (keyId sigB64 : List Char) : Fw OtaAuthVerdict := do
  if keyId ≠ build.keyId then return .unknownKeyId
  else if ¬ time.haveServerTime then return .noTimeSource
  else do
    let now ← Fw.millis
    if checkManifestTimeValidity fields.issuedAt fields.expiresAt (time.estimatedUnixNow now)
        otaManifestTimeSkewS ≠ .ok then return .timeInvalid
    else return verifySignature crypto fields sigB64

end Upgrade
end CovioFirmware
