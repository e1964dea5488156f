import CovioFirmware.Bytes.Packed
import CovioFirmware.Bytes.Rows

/-!
# The records on flash

Everything the firmware keeps on flash is a packed structure with a magic number
in front and a CRC-32 behind: the telemetry row `QRow`, the acknowledgement
record `AckRec` and the failure record `FailureState` of `queue.h`, and the
`Checkpoint` of `totalizer.h` with its pre-Phase-2 layout `LegacyCheckpoint`.

All five are written the same way --- set the magic, compute the CRC over the
structure with the CRC field zeroed, store it --- and checked the same way.  That
common part is stated once, for a `RecordKind`; each structure keeps its own
fields, widths and magic number.
-/

namespace CovioFirmware
namespace Device

open Bytes

/-! ## CRC-32 -/

/-- One bit of the reflected CRC: `(crc >> 1) ^ (0xEDB88320 & -(crc & 1))`. -/
def crcBit (crc : UInt32) : UInt32 := (crc >>> 1) ^^^ (0xEDB88320 &&& (0 - (crc &&& 1)))

/-- One byte: eight bits after mixing it in. -/
def crcByte (crc : UInt32) (d : UInt8) : UInt32 :=
  (List.range 8).foldl (fun c _ => crcBit c) (crc ^^^ d.toUInt32)

/-- `crc32_` of `queue.h` and `totalizer.h`. -/
def crc32 (d : List UInt8) : UInt32 := ~~~(d.foldl crcByte 0xFFFFFFFF)

example : crc32 [0x31, 0x32, 0x33, 0x34, 0x35, 0x36, 0x37, 0x38, 0x39] = 0xCBF43926 := by
  decide +kernel

/-! ## What the five structures share -/

/-- A packed structure with a magic number and a CRC field. -/
structure RecordKind (R : Type) where
  /-- The magic number records of this kind carry. -/
  magicWord : UInt32
  /-- Field widths in bytes, in order. -/
  widths : List ℕ
  /-- Field values, in order. -/
  values : R → List ℕ
  /-- The structure with the given field values. -/
  build : List ℕ → R
  magic : R → UInt32
  crc : R → UInt32
  withMagic : R → UInt32 → R
  withCrc : R → UInt32 → R
  widths_pos : 0 < widths.sum
  values_lt : ∀ r, List.Forall₂ (fun w v => v < 256 ^ w) widths (values r)
  build_values : ∀ r, build (values r) = r
  values_build : ∀ vs, List.Forall₂ (fun w v => v < 256 ^ w) widths vs → values (build vs) = vs
  magic_withMagic : ∀ r m, magic (withMagic r m) = m
  magic_withCrc : ∀ r c, magic (withCrc r c) = magic r
  crc_withCrc : ∀ r c, crc (withCrc r c) = c
  withCrc_withCrc : ∀ r c c', withCrc (withCrc r c) c' = withCrc r c'

namespace RecordKind

variable {R : Type} (K : RecordKind R)

/-- `sizeof` the structure. -/
def size : ℕ := K.widths.sum

/-- The structure as it lies in memory. -/
def bytes (r : R) : List UInt8 := pack (K.widths.zip (K.values r))

/-- The structure that memory holds. -/
def ofBytes (b : List UInt8) : R := K.build (unpack K.widths b)

/-- Magic number right, and the CRC over the structure with its CRC field zeroed
equal to the stored one. -/
def intact (r : R) : Bool :=
  K.magic r == K.magicWord && crc32 (K.bytes (K.withCrc r 0)) == K.crc r

/-- Setting the magic number and the CRC, as every writer does. -/
def stamp (r : R) : R :=
  let r := K.withCrc (K.withMagic r K.magicWord) 0
  K.withCrc r (crc32 (K.bytes r))

/-- The check of a slot whose file must have exactly the structure's size
(`Totalizer::load_`, `loadLegacy_`). -/
def loadExact (file : Option (List UInt8)) : Option R :=
  match file with
  | none => none
  | some b =>
      if b.length ≠ K.size then none
      else if K.intact (K.ofBytes b) then some (K.ofBytes b) else none

/-- The check of a slot read through `StorageBackend::readWhole`, which hands out
at most the structure's size (`loadAck_`, `loadFail_`). -/
def loadWhole (file : Option (List UInt8)) : Option R :=
  match file with
  | none => none
  | some b =>
      if (b.take K.size).length ≠ K.size then none
      else if K.intact (K.ofBytes (b.take K.size)) then some (K.ofBytes (b.take K.size)) else none

theorem length_values (r : R) : K.widths.length = (K.values r).length :=
  (K.values_lt r).length_eq

@[simp] theorem length_bytes (r : R) : (K.bytes r).length = K.size := by
  rw [bytes, length_pack, List.map_fst_zip (K.length_values r).le, size]

theorem zip_mod {ws vs : List ℕ} (h : List.Forall₂ (fun w v => v < 256 ^ w) ws vs) :
    (ws.zip vs).map (fun f => f.2 % 256 ^ f.1) = vs := by
  induction h with
  | nil => rfl
  | cons hv _ ih => rw [List.zip_cons_cons, List.map_cons, ih, Nat.mod_eq_of_lt hv]

@[simp] theorem ofBytes_bytes (r : R) : K.ofBytes (K.bytes r) = r := by
  have h := unpack_pack (K.widths.zip (K.values r)) []
  rw [List.append_nil, List.map_fst_zip (K.length_values r).le,
    zip_mod (K.values_lt r)] at h
  rw [ofBytes, bytes, h, K.build_values]

theorem bytes_ofBytes {b : List UInt8} (h : b.length = K.size) : K.bytes (K.ofBytes b) = b := by
  rw [bytes, ofBytes, K.values_build _ (unpack_lt K.widths b), pack_unpack K.widths b h]

/-- **A stamped record passes its check.** -/
@[simp] theorem intact_stamp (r : R) : K.intact (K.stamp r) = true := by
  simp [intact, stamp, K.magic_withMagic, K.magic_withCrc, K.crc_withCrc, K.withCrc_withCrc]

@[simp] theorem loadExact_none : K.loadExact none = none := rfl

@[simp] theorem loadWhole_none : K.loadWhole none = none := rfl

theorem loadExact_bytes {r : R} (h : K.intact r = true) :
    K.loadExact (some (K.bytes r)) = some r := by
  simp [loadExact, h]

theorem loadWhole_bytes {r : R} (h : K.intact r = true) :
    K.loadWhole (some (K.bytes r)) = some r := by
  have htake : (K.bytes r).take K.size = K.bytes r :=
    List.take_of_length_le (K.length_bytes r).le
  simp [loadWhole, htake, h]

/-- The rows of a file of such structures. -/
def codec : RowCodec R where
  size := K.size
  enc := K.bytes
  dec := K.ofBytes
  size_pos := K.widths_pos
  length_enc := K.length_bytes
  dec_enc := K.ofBytes_bytes
  enc_dec _ h := K.bytes_ofBytes h

end RecordKind

/-! ## The telemetry row -/

/-- `QRow`: one queued telemetry row, 36 bytes. -/
structure QRow where
  magic : UInt32
  schemaVersion : UInt16
  recordType : UInt16
  bootId : UInt32
  seq : UInt32
  ts : UInt32
  totalizer : UInt64
  quality : UInt16
  rssiAbs : UInt16
  crc32 : UInt32
  deriving DecidableEq, Repr, Inhabited

/-- `AckRec`: the acknowledgement record with the persisted read cursor. -/
structure AckRec where
  magic : UInt32
  ackedSeq : UInt32
  bootId : UInt32
  writes : UInt32
  cursorSegment : UInt32
  cursorOffset : UInt32
  crc32 : UInt32
  deriving DecidableEq, Repr, Inhabited

/-- `FailureState`: the history of failed appends. -/
structure FailureState where
  magic : UInt32
  failedWriteCount : UInt32
  firstFailureUptimeS : UInt32
  lastFailureUptimeS : UInt32
  lastErrorCode : UInt32
  writes : UInt32
  crc32 : UInt32
  deriving DecidableEq, Repr, Inhabited

/-- `Checkpoint`: lifetime total, last committed seq and queue write offset. -/
structure Checkpoint where
  magic : UInt32
  total : UInt64
  bootId : UInt32
  seq : UInt32
  writes : UInt32
  qSegment : UInt32
  qOffset : UInt32
  crc32 : UInt32
  deriving DecidableEq, Repr, Inhabited

/-- `LegacyCheckpoint`: the 28-byte layout written before Phase 2. -/
structure LegacyCheckpoint where
  magic : UInt32
  total : UInt64
  bootId : UInt32
  seq : UInt32
  writes : UInt32
  crc32 : UInt32
  deriving DecidableEq, Repr, Inhabited

/-- `QROW_MAGIC`. -/
def qrowMagic : UInt32 := 0x51524F57
/-- `ACK_MAGIC`. -/
def ackMagic : UInt32 := 0xAC4ED000
/-- `FAIL_MAGIC`. -/
def failMagic : UInt32 := 0xFA17ED00
/-- `CKPT_MAGIC`. -/
def ckptMagic : UInt32 := 0xC0A17071

/-! The ranges of the machine integers, in the form the field lists need. -/

theorem u16_lt (x : UInt16) : x.toNat < 256 ^ 2 := x.toNat_lt
theorem u32_lt (x : UInt32) : x.toNat < 256 ^ 4 := x.toNat_lt
theorem u64_lt (x : UInt64) : x.toNat < 256 ^ 8 := x.toNat_lt

theorem u16_ofNat {n : ℕ} (h : n < 256 ^ 2) : (UInt16.ofNat n).toNat = n := by
  rw [UInt16.toNat_ofNat']
  exact Nat.mod_eq_of_lt h
theorem u32_ofNat {n : ℕ} (h : n < 256 ^ 4) : (UInt32.ofNat n).toNat = n := by
  rw [UInt32.toNat_ofNat']
  exact Nat.mod_eq_of_lt h
theorem u64_ofNat {n : ℕ} (h : n < 256 ^ 8) : (UInt64.ofNat n).toNat = n := by
  rw [UInt64.toNat_ofNat']
  exact Nat.mod_eq_of_lt h

/-- The telemetry row as a record kind. -/
def QRow.kind : RecordKind QRow where
  magicWord := qrowMagic
  widths := [4, 2, 2, 4, 4, 4, 8, 2, 2, 4]
  values r := [r.magic.toNat, r.schemaVersion.toNat, r.recordType.toNat, r.bootId.toNat,
    r.seq.toNat, r.ts.toNat, r.totalizer.toNat, r.quality.toNat, r.rssiAbs.toNat, r.crc32.toNat]
  build
    | [m, sv, rt, b, s, t, tot, q, rs, c] =>
      ⟨.ofNat m, .ofNat sv, .ofNat rt, .ofNat b, .ofNat s, .ofNat t, .ofNat tot, .ofNat q,
        .ofNat rs, .ofNat c⟩
    | _ => default
  magic := QRow.magic
  crc := QRow.crc32
  withMagic r m := { r with magic := m }
  withCrc r c := { r with crc32 := c }
  widths_pos := by decide
  values_lt r := by
    simp only [List.forall₂_cons, u16_lt, u32_lt, u64_lt, List.Forall₂.nil, and_self]
  build_values r := by simp
  values_build vs h := by
    simp only [List.forall₂_cons_left_iff, List.forall₂_nil_left_iff] at h
    obtain ⟨m, _, hm, ⟨sv, _, hsv, ⟨rt, _, hrt, ⟨b, _, hb, ⟨s, _, hs, ⟨t, _, ht,
      ⟨tot, _, htot, ⟨q, _, hq, ⟨rs, _, hrs, ⟨c, _, hc, rfl, rfl⟩, rfl⟩, rfl⟩, rfl⟩, rfl⟩,
      rfl⟩, rfl⟩, rfl⟩, rfl⟩, rfl⟩ := h
    simp only [u32_ofNat hm, u16_ofNat hsv, u16_ofNat hrt, u32_ofNat hb, u32_ofNat hs,
      u32_ofNat ht, u64_ofNat htot, u16_ofNat hq, u16_ofNat hrs, u32_ofNat hc]
  magic_withMagic _ _ := rfl
  magic_withCrc _ _ := rfl
  crc_withCrc _ _ := rfl
  withCrc_withCrc _ _ _ := rfl

/-- The acknowledgement record as a record kind. -/
def AckRec.kind : RecordKind AckRec where
  magicWord := ackMagic
  widths := [4, 4, 4, 4, 4, 4, 4]
  values r := [r.magic.toNat, r.ackedSeq.toNat, r.bootId.toNat, r.writes.toNat,
    r.cursorSegment.toNat, r.cursorOffset.toNat, r.crc32.toNat]
  build
    | [m, a, b, w, s, o, c] =>
      ⟨.ofNat m, .ofNat a, .ofNat b, .ofNat w, .ofNat s, .ofNat o, .ofNat c⟩
    | _ => default
  magic := AckRec.magic
  crc := AckRec.crc32
  withMagic r m := { r with magic := m }
  withCrc r c := { r with crc32 := c }
  widths_pos := by decide
  values_lt r := by
    simp only [List.forall₂_cons, u32_lt, List.Forall₂.nil, and_self]
  build_values r := by simp
  values_build vs h := by
    simp only [List.forall₂_cons_left_iff, List.forall₂_nil_left_iff] at h
    obtain ⟨m, _, hm, ⟨a, _, ha, ⟨b, _, hb, ⟨w, _, hw, ⟨s, _, hs, ⟨o, _, ho,
      ⟨c, _, hc, rfl, rfl⟩, rfl⟩, rfl⟩, rfl⟩, rfl⟩, rfl⟩, rfl⟩ := h
    simp only [u32_ofNat hm, u32_ofNat ha, u32_ofNat hb, u32_ofNat hw, u32_ofNat hs,
      u32_ofNat ho, u32_ofNat hc]
  magic_withMagic _ _ := rfl
  magic_withCrc _ _ := rfl
  crc_withCrc _ _ := rfl
  withCrc_withCrc _ _ _ := rfl

/-- The failure record as a record kind. -/
def FailureState.kind : RecordKind FailureState where
  magicWord := failMagic
  widths := [4, 4, 4, 4, 4, 4, 4]
  values r := [r.magic.toNat, r.failedWriteCount.toNat, r.firstFailureUptimeS.toNat,
    r.lastFailureUptimeS.toNat, r.lastErrorCode.toNat, r.writes.toNat, r.crc32.toNat]
  build
    | [m, n, f, l, e, w, c] =>
      ⟨.ofNat m, .ofNat n, .ofNat f, .ofNat l, .ofNat e, .ofNat w, .ofNat c⟩
    | _ => default
  magic := FailureState.magic
  crc := FailureState.crc32
  withMagic r m := { r with magic := m }
  withCrc r c := { r with crc32 := c }
  widths_pos := by decide
  values_lt r := by
    simp only [List.forall₂_cons, u32_lt, List.Forall₂.nil, and_self]
  build_values r := by simp
  values_build vs h := by
    simp only [List.forall₂_cons_left_iff, List.forall₂_nil_left_iff] at h
    obtain ⟨m, _, hm, ⟨n, _, hn, ⟨f, _, hf, ⟨l, _, hl, ⟨e, _, he, ⟨w, _, hw,
      ⟨c, _, hc, rfl, rfl⟩, rfl⟩, rfl⟩, rfl⟩, rfl⟩, rfl⟩, rfl⟩ := h
    simp only [u32_ofNat hm, u32_ofNat hn, u32_ofNat hf, u32_ofNat hl, u32_ofNat he,
      u32_ofNat hw, u32_ofNat hc]
  magic_withMagic _ _ := rfl
  magic_withCrc _ _ := rfl
  crc_withCrc _ _ := rfl
  withCrc_withCrc _ _ _ := rfl

/-- The checkpoint as a record kind. -/
def Checkpoint.kind : RecordKind Checkpoint where
  magicWord := ckptMagic
  widths := [4, 8, 4, 4, 4, 4, 4, 4]
  values r := [r.magic.toNat, r.total.toNat, r.bootId.toNat, r.seq.toNat, r.writes.toNat,
    r.qSegment.toNat, r.qOffset.toNat, r.crc32.toNat]
  build
    | [m, t, b, s, w, g, o, c] =>
      ⟨.ofNat m, .ofNat t, .ofNat b, .ofNat s, .ofNat w, .ofNat g, .ofNat o, .ofNat c⟩
    | _ => default
  magic := Checkpoint.magic
  crc := Checkpoint.crc32
  withMagic r m := { r with magic := m }
  withCrc r c := { r with crc32 := c }
  widths_pos := by decide
  values_lt r := by
    simp only [List.forall₂_cons, u32_lt, u64_lt, List.Forall₂.nil, and_self]
  build_values r := by simp
  values_build vs h := by
    simp only [List.forall₂_cons_left_iff, List.forall₂_nil_left_iff] at h
    obtain ⟨m, _, hm, ⟨t, _, ht, ⟨b, _, hb, ⟨s, _, hs, ⟨w, _, hw, ⟨g, _, hg, ⟨o, _, ho,
      ⟨c, _, hc, rfl, rfl⟩, rfl⟩, rfl⟩, rfl⟩, rfl⟩, rfl⟩, rfl⟩, rfl⟩ := h
    simp only [u32_ofNat hm, u64_ofNat ht, u32_ofNat hb, u32_ofNat hs, u32_ofNat hw,
      u32_ofNat hg, u32_ofNat ho, u32_ofNat hc]
  magic_withMagic _ _ := rfl
  magic_withCrc _ _ := rfl
  crc_withCrc _ _ := rfl
  withCrc_withCrc _ _ _ := rfl

/-- The pre-Phase-2 checkpoint as a record kind. -/
def LegacyCheckpoint.kind : RecordKind LegacyCheckpoint where
  magicWord := ckptMagic
  widths := [4, 8, 4, 4, 4, 4]
  values r := [r.magic.toNat, r.total.toNat, r.bootId.toNat, r.seq.toNat, r.writes.toNat,
    r.crc32.toNat]
  build
    | [m, t, b, s, w, c] =>
      ⟨.ofNat m, .ofNat t, .ofNat b, .ofNat s, .ofNat w, .ofNat c⟩
    | _ => default
  magic := LegacyCheckpoint.magic
  crc := LegacyCheckpoint.crc32
  withMagic r m := { r with magic := m }
  withCrc r c := { r with crc32 := c }
  widths_pos := by decide
  values_lt r := by
    simp only [List.forall₂_cons, u32_lt, u64_lt, List.Forall₂.nil, and_self]
  build_values r := by simp
  values_build vs h := by
    simp only [List.forall₂_cons_left_iff, List.forall₂_nil_left_iff] at h
    obtain ⟨m, _, hm, ⟨t, _, ht, ⟨b, _, hb, ⟨s, _, hs, ⟨w, _, hw,
      ⟨c, _, hc, rfl, rfl⟩, rfl⟩, rfl⟩, rfl⟩, rfl⟩, rfl⟩ := h
    simp only [u32_ofNat hm, u64_ofNat ht, u32_ofNat hb, u32_ofNat hs, u32_ofNat hw, u32_ofNat hc]
  magic_withMagic _ _ := rfl
  magic_withCrc _ _ := rfl
  crc_withCrc _ _ := rfl
  withCrc_withCrc _ _ _ := rfl

/-! ## Loading the slots -/

/-- Rows as the readers of `queue.h` see them, in strides of `sizeof(QRow)`. -/
abbrev QRow.codec : RowCodec QRow := QRow.kind.codec

/-- The check every reader makes of a row: magic and CRC. -/
abbrev QRow.intact (r : QRow) : Bool := QRow.kind.intact r

@[simp] theorem QRow.codec_size : QRow.codec.size = 36 := rfl

/-- `Totalizer::loadLegacy_`: a pre-Phase-2 slot, upconverted in memory.  The
queue position defaults to zero and the CRC field is left zero. -/
def loadLegacy (file : Option (List UInt8)) : Option Checkpoint :=
  (LegacyCheckpoint.kind.loadExact file).map fun l =>
    { magic := ckptMagic, total := l.total, bootId := l.bootId, seq := l.seq, writes := l.writes,
      qSegment := 0, qOffset := 0, crc32 := 0 }

/-- What `Totalizer::begin` makes of one slot: the new format, else the legacy
one, with whether the legacy one was used. -/
def loadSlot (file : Option (List UInt8)) : Option (Checkpoint × Bool) :=
  match Checkpoint.kind.loadExact file with
  | some c => some (c, false)
  | none => (loadLegacy file).map fun c => (c, true)

/-- The zeroed acknowledgement record recovery falls back to. -/
def AckRec.blank : AckRec := ⟨ackMagic, 0, 0, 0, 0, 0, 0⟩

/-- The zeroed failure record. -/
def FailureState.blank : FailureState := ⟨failMagic, 0, 0, 0, 0, 0, 0⟩

/-- The zeroed checkpoint. -/
def Checkpoint.blank : Checkpoint := ⟨ckptMagic, 0, 0, 0, 0, 0, 0, 0⟩

end Device
end CovioFirmware
