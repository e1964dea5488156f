import CovioFirmware.Bytes.Text

/-!
# Segment file names

A segment's id is in its file name, written by `segmentPath_` with the format
`seg_%06u.bin` and read back from the directory listing by `parseSegmentId_`.
The writer pads to six digits; the reader takes exactly six.  The two agree for
ids below one million (`parseSegmentId_segmentName`).
-/

namespace CovioFirmware
namespace Device

/-- The base name `segmentPath_` gives a segment: the id in at least six digits. -/
def segmentName (id : ℕ) : List Char :=
  "seg_".toList ++ (List.replicate (6 - (Nat.toDigits 10 id).length) '0' ++ Nat.toDigits 10 id) ++
    ".bin".toList

/-- `parseSegmentId_`: the six digits after the first `seg_`. -/
def parseSegmentId (name : List Char) : Option ℕ :=
  match Text.indexOf "seg_".toList name with
  | none => none
  | some i =>
      let i := i + 4
      if name.length < i + 6 then none else Text.digitsVal ((name.drop i).take 6)

/-- The base names of the other files in the queue directory carry no segment
id. -/
theorem parseSegmentId_ackName : parseSegmentId "ackA.bin".toList = none ∧
    parseSegmentId "ackB.bin".toList = none ∧ parseSegmentId "failA.bin".toList = none ∧
    parseSegmentId "failB.bin".toList = none := by decide

/-- **The name of a segment below one million gives its id back.** -/
theorem parseSegmentId_segmentName {id : ℕ} (h : id < 10 ^ 6) :
    parseSegmentId (segmentName id) = some id := by
  have hlen : (Nat.toDigits 10 id).length ≤ 6 :=
    (Nat.length_toDigits_le_iff (by omega) (by omega)).mpr h
  set d := List.replicate (6 - (Nat.toDigits 10 id).length) '0' ++ Nat.toDigits 10 id with hd
  have hd6 : d.length = 6 := by
    rw [hd, List.length_append, List.length_replicate]
    omega
  have hname : segmentName id = "seg_".toList ++ (d ++ ".bin".toList) := by
    rw [segmentName, List.append_assoc]
  have hidx : Text.indexOf "seg_".toList (segmentName id) = some 0 :=
    Text.indexOf_of_prefix (hname ▸ List.prefix_append _ _)
  have hdrop : (segmentName id).drop (0 + 4) = d ++ ".bin".toList := by
    rw [hname]; rfl
  have hlong : ¬ (segmentName id).length < 0 + 4 + 6 := by
    rw [hname, List.length_append, List.length_append, hd6]
    decide
  simp only [parseSegmentId, hidx, if_neg hlong, hdrop, List.take_left' hd6]
  rw [hd]
  exact Text.digitsVal_toDigits id _

end Device
end CovioFirmware
