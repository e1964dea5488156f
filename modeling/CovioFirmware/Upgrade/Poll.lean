import CovioFirmware.Device.Main
import CovioFirmware.Upgrade.Manifest

/-!
# `Ota::poll`

Fetch the manifest, judge it, and, if everything about it is in order, download the
image into the spare partition, hashing it on the way, and commit it.

The download loop runs until the image is complete, the connection is gone, the
stream has stalled for 15 seconds or a write falls short; how many passes that takes
is up to the network, and the model bounds them by a number that every result leaves
open.  A pass beyond the bound ends the poll without a further call.  A restart ends
the run of the firmware; where the model goes on after it, it makes no further call
either.
-/

namespace CovioFirmware
namespace Upgrade

open Crash
open Device (ServerTime)

/-- `String::equalsIgnoreCase`. -/
def equalsIgnoreCase (a b : List Char) : Bool := a.map Char.toLower == b.map Char.toLower

/-- One byte as `%02x`. -/
def hexByte (b : UInt8) : List Char := [Nat.digitChar (b.toNat / 16), Nat.digitChar (b.toNat % 16)]

/-- A digest in hexadecimal. -/
def hexDigest (d : Data) : List Char := d.flatMap hexByte

/-- How the download loop ends: whether an I/O error broke it off, the bytes hashed,
and `totalWritten`. -/
structure Downloaded where
  ioError : Bool
  hashed : Data
  totalWritten : ℕ

/-- The download loop of `doVerifiedUpdate_`. -/
def download (expectedSize : ℕ) : ℕ → Data → ℕ → UInt32 → Fw (Option Downloaded)
  | 0, _, _, _ => return none
  | fuel + 1, hashed, totalWritten, lastDataMs =>
      if totalWritten < expectedSize then do
        Fw.service
        let avail ← Fw.available
        if avail = 0 then do
          let conn ← Fw.connected
          if conn then do
            let now ← Fw.millis
            if 15000 < now - lastDataMs then return some ⟨true, hashed, totalWritten⟩
            else do
              Fw.delay 5
              download expectedSize fuel hashed totalWritten lastDataMs
          else return some ⟨false, hashed, totalWritten⟩
        else do
          let buf ← Fw.readBytes (min avail 1024)
          if buf.length = 0 then download expectedSize fuel hashed totalWritten lastDataMs
          else do
            let now ← Fw.millis
            let written ← Fw.updateWrite buf
            if written ≠ buf.length then return some ⟨true, hashed ++ buf, totalWritten⟩
            else download expectedSize fuel (hashed ++ buf) (totalWritten + buf.length) now
      else return some ⟨false, hashed, totalWritten⟩

namespace Ota

/-- The part of `doVerifiedUpdate_` behind the download: check the size and the hash,
commit, restart. -/
def finishUpdate (crypto : Crypto) (o : Ota) (expectedSize : ℕ) (expectedSha256Hex : List Char)
    (got : Downloaded) : Fw Ota := do
  if got.ioError ∨ got.totalWritten ≠ expectedSize then do
    Fw.updateAbort
    return { o with failed := true }
  else if ¬ equalsIgnoreCase expectedSha256Hex (hexDigest (crypto.sha256 got.hashed)) then do
    Fw.updateAbort
    return { o with failed := true }
  else do
    let ok ← Fw.updateEnd
    if ok then do
      Fw.restart
      return o
    else return { o with failed := true }

/-- `doVerifiedUpdate_`. -/
def doVerifiedUpdate (crypto : Crypto) (passes : ℕ) (o : Ota) (binUrl : List Char)
    (expectedSize : ℕ) (expectedSha256Hex : List Char) : Fw Ota := do
  let o := { o with failed := false }
  let began ← Fw.httpBegin binUrl
  if began then do
    let code ← Fw.httpGet
    if code ≠ 200 then return { o with failed := true }
    else do
      let contentLen ← Fw.httpSize
      if 0 ≤ contentLen ∧ contentLen ≠ expectedSize then return { o with failed := true }
      else do
        let ok ← Fw.updateBegin expectedSize
        if ok then do
          let now ← Fw.millis
          let got ← download expectedSize passes [] 0 now
          match got with
          | none => return o
          | some got => o.finishUpdate crypto expectedSize expectedSha256Hex got
        else return { o with failed := true }
  else return { o with failed := true }

/-- The retry window `poll` sets after an update attempt. -/
def noteAttempt (o : Ota) : Fw Ota := do
  if o.failed then do
    let now ← Fw.millis
    return { o with
      lastOtaFailMs := now
      otaBackoffMs :=
        if o.otaBackoffMs ≠ 0 then min (o.otaBackoffMs * 2) 3600000 else 2 * Device.otaPollMs }
  else return { o with otaBackoffMs := 0 }

/-- The part of `poll` behind the manifest's body. -/
def pollBody (crypto : Crypto) (build : Build) (time : ServerTime) (passes : ℕ) (o : Ota)
    (body : List Char) : Fw Ota := do
  let f := manifestFields body
  if f.version.isEmpty ∨ f.imageUrl.isEmpty then return o
  else if f.version = build.image.version then return { o with failed := false }
  else do
    let n ← Fw.nvs
    let verdict := evaluateOtaCandidate f.candidate n.secVer build.deviceModel build.schemaVersion
    if verdict ≠ .accept then return { o with lastRejectReason := verdict }
    else do
      let keyId := extractStr body "key_id".toList
      let sigB64 := extractStr body "signature".toList
      if ¬ manifestHasRequiredFields f keyId sigB64 then
        return { o with lastAuthReject := .missingFields }
      else do
        let authVerdict ← verifyManifestAuthenticity crypto build time f keyId sigB64
        if authVerdict ≠ .ok then return { o with lastAuthReject := authVerdict }
        else do
          let o ← o.doVerifiedUpdate crypto passes f.imageUrl f.imageSize.toInt.toNat
            f.imageSha256Hex
          o.noteAttempt

/-- The retry window is still running. -/
def waiting (o : Ota) : Fw Bool :=
  if o.otaBackoffMs ≠ 0 then do
    let now ← Fw.millis
    return decide (now - o.lastOtaFailMs < o.otaBackoffMs)
  else return false

/-- `PATH_OTA_MANIFEST`. -/
def pathOtaManifest : List Char := "/api/iot/flow/ota/manifest".toList

/-- `poll`. -/
def poll (crypto : Crypto) (build : Build) (time : ServerTime) (passes : ℕ) (o : Ota)
    (online : Bool) : Fw Ota := do
  if online then do
    let wait ← o.waiting
    if wait then return o
    else do
      let url ← Fw.serverUrl
      let began ← Fw.httpBegin (url ++ pathOtaManifest)
      if began then do
        let code ← Fw.httpGet
        if code ≠ 200 then return o
        else do
          let len ← Fw.httpSize
          if 4096 < len then return o
          else do
            let body ← Fw.httpString
            o.pollBody crypto build time passes body
      else return o
  else return o

end Ota

end Upgrade
end CovioFirmware
