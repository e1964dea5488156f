import CovioFirmware.Device.Telemetry
import CovioFirmware.Server.JsonReader
import CovioFirmware.Server.Push

/-!
# A batch arrives as it was sent

The text `toJson` builds is read back by `json.loads`, and the records `push` then
finds in it are the rows of the batch.  First the text is brought into the form of an
object with its members, whatever commas and blocks the code has put together
(`toJson_eq`); then the rules of the reader apply (`reads_object`, `reads_array`).
-/

namespace CovioFirmware
namespace Device

open JsonText Server Upgrade

variable {float : List Char → PyFloat}

/-! ## The texts as objects -/

/-- A member whose value is a number. -/
def numberMember (key : String) (n : ℕ) : Member := ⟨key.toList, decimal n, .int n⟩

/-- A member whose value is a text. -/
def textMember (key : String) (s : List Char) : Member :=
  ⟨key.toList, Text.quoted s, .str (s.map Char.toNat)⟩

/-- A member whose value is an object. -/
def objectMember (key : String) (ms : List Member) : Member :=
  ⟨key.toList, compact.object (ms.map Member.written), .obj (ms.map Member.field)⟩

/-- The members of a record. -/
def recordMembers (r : QRow) : List Member :=
  [numberMember "schema_version" r.schemaVersion.toNat,
    numberMember "record_type" r.recordType.toNat, numberMember "boot_id" r.bootId.toNat,
    numberMember "seq" r.seq.toNat, numberMember "ts" r.ts.toNat,
    numberMember "totalizer" r.totalizer.toNat, numberMember "quality" r.quality.toNat,
    ⟨"rssi".toList, '-' :: decimal r.rssiAbs.toNat, .int (-r.rssiAbs.toNat)⟩]

/-- The members of `boot`. -/
def bootMembers (st : StoreFields) (rr : Int32) : List Member :=
  [numberMember "boot_id" st.bootId.toNat, textMember "reset_reason" (resetReasonText rr),
    ⟨"reset_reason_raw".toList, int rr.toInt, .int rr.toInt⟩,
    numberMember "restart_count" st.restartCount.toNat,
    numberMember "watchdog_reset_count" st.watchdogResetCount.toNat,
    numberMember "brownout_reset_count" st.brownoutResetCount.toNat]

/-- The members of `ota`. -/
def otaMembers (st : StoreFields) (otaState otaReject : Option (List Char)) : List Member :=
  otaState.toList.map (textMember "state") ++
    otaReject.toList.map (textMember "last_reject_reason") ++
    [numberMember "security_version" st.securityVersion.toNat]

/-- The block `ota`, if there is one. -/
def otaMember (st : StoreFields) (otaState otaReject : Option (List Char)) : List Member :=
  if otaState.isSome ∨ otaReject.isSome then
    [objectMember "ota" (otaMembers st otaState otaReject)]
  else []

/-- The records. -/
def recordsMember (rows : List QRow) : Member :=
  ⟨"records".toList, array (rows.map recordText),
    .arr (rows.map fun r => .obj ((recordMembers r).map Member.field))⟩

/-- The members behind the first one. -/
def envelopeMembers (b : Build) (st : StoreFields) (rr : Int32) (rows : List QRow)
    (otaState otaReject : Option (List Char)) : List Member :=
  [textMember "fw" b.fwVersion, textMember "model" b.deviceModel,
    numberMember "kfactor_version" st.cfgVer.toNat, objectMember "boot" (bootMembers st rr)] ++
    otaMember st otaState otaReject ++ [recordsMember rows]

theorem recordText_eq (r : QRow) :
    recordText r = compact.object ((recordMembers r).map Member.written) := by
  unfold recordText recordMembers
  simp only [numberMember, Member.written, List.map_cons, List.map_nil, compact,
    ObjectStyle.object, ObjectStyle.member, ObjectStyle.tail, Text.quoted, String.reduceToList,
    List.append_assoc, List.cons_append, List.nil_append]

/-- The text of members behind another one. -/
def following (ms : List Member) : List Char :=
  ms.flatMap fun m => ',' :: compact.member m.written

theorem tail_eq_following (ms : List Member) :
    compact.tail (ms.map Member.written) = following ms ++ ['}'] := by
  induction ms with
  | nil => rfl
  | cons m ms ih =>
    rw [List.map_cons, ObjectStyle.tail, ih, following, following, List.flatMap_cons,
      List.append_assoc, List.append_assoc]
    rfl

theorem bootText_eq (st : StoreFields) (rr : Int32) :
    bootText st rr = following [objectMember "boot" (bootMembers st rr)] := by
  unfold bootText bootMembers following
  simp only [objectMember, numberMember, textMember, Member.written, List.map_cons, List.map_nil,
    List.flatMap_cons, List.flatMap_nil, compact, ObjectStyle.object, ObjectStyle.member,
    ObjectStyle.tail, Text.quoted, String.reduceToList, List.append_assoc, List.cons_append,
    List.nil_append, List.append_nil]

theorem otaText_eq (st : StoreFields) (otaState otaReject : Option (List Char)) :
    otaText st otaState otaReject = following (otaMember st otaState otaReject) := by
  unfold otaText otaMember
  split_ifs with h
  · unfold otaStateText otaRejectText otaMembers following
    cases otaState <;> cases otaReject <;>
      simp only [objectMember, numberMember, textMember, Member.written, Option.isNone_none,
        Option.isNone_some, if_true, Bool.false_eq_true, if_false, Option.toList_none,
        Option.toList_some, List.map_cons, List.map_nil, List.flatMap_cons, List.flatMap_nil,
        compact, ObjectStyle.object, ObjectStyle.member, ObjectStyle.tail, Text.quoted,
        String.reduceToList, List.append_assoc, List.cons_append, List.nil_append,
        List.append_nil]
    · exact absurd h (by simp)
  · rfl

theorem recordsText_succ (i : ℕ) (rows : List QRow) :
    recordsText (i + 1) rows ++ [']'] = arrayTail (rows.map recordText) := by
  induction rows generalizing i with
  | nil => rfl
  | cons r rows ih =>
    have hcomma : ",".toList = [','] := rfl
    rw [recordsText, if_pos (Nat.succ_ne_zero i), hcomma, List.append_assoc, ih, List.map_cons,
      arrayTail, List.singleton_append]

theorem recordsText_eq (rows : List QRow) :
    '[' :: (recordsText 0 rows ++ [']']) = array (rows.map recordText) := by
  cases rows with
  | nil => rfl
  | cons r rows =>
    rw [recordsText, if_neg (by simp), List.nil_append, List.append_assoc, recordsText_succ]
    rfl

/-- **The body is an object** with the members of the envelope. -/
theorem toJson_eq (b : Build) (st : StoreFields) (rr : Int32) (rows : List QRow)
    (otaState otaReject : Option (List Char)) :
    toJson b st rr rows otaState otaReject =
      compact.object ((textMember "device_id" st.deviceId ::
        envelopeMembers b st rr rows otaState otaReject).map Member.written) := by
  rw [List.map_cons, ObjectStyle.object, tail_eq_following, envelopeMembers]
  have hrecords : following [recordsMember rows] =
      ",\"records\":[".toList ++ (recordsText 0 rows ++ [']']) := by
    unfold following recordsMember
    rw [← recordsText_eq]
    simp only [Member.written, List.flatMap_cons, List.flatMap_nil, compact, ObjectStyle.member,
      Text.quoted, String.reduceToList, List.append_assoc, List.cons_append, List.nil_append,
      List.append_nil]
  have happend : ∀ ms ms', following (ms ++ ms') = following ms ++ following ms' :=
    fun _ _ => List.flatMap_append
  unfold toJson
  rw [bootText_eq, otaText_eq, happend, happend, hrecords]
  unfold following
  simp only [textMember, numberMember, Member.written, List.flatMap_cons, List.flatMap_nil,
    compact, ObjectStyle.member, Text.quoted, String.reduceToList, List.append_assoc,
    List.cons_append, List.nil_append, List.append_nil]

/-! ## Texts that need no escape -/

theorem plain_otaStateStr (o : OtaState) : Plain (otaStateStr o) := by
  cases o <;> decide

theorem plain_otaVerdictStr (v : OtaVerdict) : Plain (otaVerdictStr v) := by
  cases v <;> decide

theorem plain_resetReasonName {r : Int32} {name : List Char}
    (h : resetReasonName r = some name) : Plain name := by
  unfold resetReasonName at h
  split at h <;> simp only [Option.some.injEq, reduceCtorEq] at h <;> subst h <;> decide

theorem plain_resetReasonText (r : Int32) : Plain (resetReasonText r) := by
  unfold resetReasonText
  split
  · next name h => exact plain_resetReasonName h
  · exact (Plain.append (by decide) (plain_int _)).append (by decide)

theorem plain_hexUpper (k n : ℕ) : Plain (hexUpper k n) := by
  have hdigits : ∀ n, Plain ((Nat.toDigits 16 n).map Char.toUpper) := by
    intro n
    induction n using Nat.strongRecOn with
    | ind n ih =>
      have hdigit : ∀ d : ℕ, d < 16 → Plain [(Nat.digitChar d).toUpper] := by decide
      rw [Nat.toDigits_eq_if (by omega)]
      split
      · next hn => exact hdigit n hn
      · rw [List.map_append]
        exact (ih (n / 16) (by omega)).append (hdigit _ (Nat.mod_lt n (by omega)))
  refine Plain.append (fun c hc => ?_) (hdigits n)
  rw [List.eq_of_mem_replicate hc]
  rfl

/-- The device's identity needs no escape, whatever its address. -/
theorem plain_chipId (mac : UInt64) : Plain (chipId mac) :=
  (Plain.append (by decide) (plain_hexUpper 4 _)).append (plain_hexUpper 8 _)

/-! ## The members are read -/

theorem numberMember_ok {key : String} (hkey : Plain key.toList) (n : ℕ) :
    (numberMember key n).Ok float := ⟨hkey, reads_nat n⟩

theorem textMember_ok {key : String} (hkey : Plain key.toList) {s : List Char} (hs : Plain s) :
    (textMember key s).Ok float := ⟨hkey, reads_string hs⟩

/-- Members whose keys differ are read into fields whose keys differ. -/
theorem pairwise_field {ms : List Member} (h : (ms.map Member.key).Nodup) :
    (ms.map Member.field).Pairwise fun f g => f.1 ≠ g.1 := by
  rw [List.Nodup, List.pairwise_map] at h
  rw [List.pairwise_map]
  exact h.imp fun hne heq =>
    hne (List.map_injective_iff.mpr (fun _ _ => Char.toNat_inj.mp) heq)

theorem objectMember_ok {key : String} (hkey : Plain key.toList) {ms : List Member}
    (hne : ms ≠ []) (h : ∀ m ∈ ms, m.Ok float) (hkeys : (ms.map Member.key).Nodup) :
    (objectMember key ms).Ok float := by
  obtain ⟨m, ms, rfl⟩ := List.exists_cons_of_ne_nil hne
  exact ⟨hkey, reads_object h (pairwise_field hkeys)⟩

theorem nodup_recordMembers (r : QRow) : ((recordMembers r).map Member.key).Nodup := by
  show ["schema_version".toList, "record_type".toList, "boot_id".toList, "seq".toList,
    "ts".toList, "totalizer".toList, "quality".toList, "rssi".toList].Nodup
  decide

theorem reads_recordText (r : QRow) :
    Reads float (recordText r) (.obj ((recordMembers r).map Member.field)) := by
  rw [recordText_eq]
  refine reads_object ?_ (pairwise_field (nodup_recordMembers r))
  simp only [List.forall_mem_cons, List.not_mem_nil, false_implies, implies_true, and_true]
  exact ⟨numberMember_ok (by decide) _, numberMember_ok (by decide) _,
    numberMember_ok (by decide) _, numberMember_ok (by decide) _, numberMember_ok (by decide) _,
    numberMember_ok (by decide) _, numberMember_ok (by decide) _,
    ⟨show Plain "rssi".toList by decide, reads_neg _⟩⟩

theorem recordsMember_ok (rows : List QRow) : (recordsMember rows).Ok float := by
  have hrecords : ∀ e ∈ rows.map fun r =>
      (recordText r, Json.obj ((recordMembers r).map Member.field)), Reads float e.1 e.2 := by
    intro e he
    obtain ⟨r, -, rfl⟩ := List.mem_map.mp he
    exact reads_recordText r
  have hread := reads_array hrecords
  rw [List.map_map, List.map_map] at hread
  exact ⟨show Plain "records".toList by decide, hread⟩

theorem bootMembers_ok (st : StoreFields) (rr : Int32) :
    (objectMember "boot" (bootMembers st rr)).Ok float := by
  refine objectMember_ok (by decide) (List.cons_ne_nil _ _) ?_ ?_
  · simp only [bootMembers, List.forall_mem_cons, List.not_mem_nil, false_implies, implies_true,
      and_true]
    exact ⟨numberMember_ok (by decide) _,
      textMember_ok (by decide) (plain_resetReasonText rr),
      ⟨show Plain "reset_reason_raw".toList by decide, reads_int _⟩,
      numberMember_ok (by decide) _, numberMember_ok (by decide) _,
      numberMember_ok (by decide) _⟩
  · show ["boot_id".toList, "reset_reason".toList, "reset_reason_raw".toList,
      "restart_count".toList, "watchdog_reset_count".toList,
      "brownout_reset_count".toList].Nodup
    decide

/-- The texts of an update are names out of the firmware's tables. -/
theorem otaMembers_ok (st : StoreFields) (state : Option OtaState) (reject : Option OtaVerdict) :
    ∀ m ∈ otaMembers st (state.map otaStateStr) (reject.map otaVerdictStr), m.Ok float := by
  intro m hm
  rcases List.mem_append.mp hm with hm | hm
  · rcases List.mem_append.mp hm with hm | hm
    · obtain ⟨s, hs, rfl⟩ := List.mem_map.mp hm
      obtain ⟨o, -, rfl⟩ := Option.map_eq_some_iff.mp (Option.mem_toList.mp hs)
      exact textMember_ok (by decide) (plain_otaStateStr o)
    · obtain ⟨s, hs, rfl⟩ := List.mem_map.mp hm
      obtain ⟨v, -, rfl⟩ := Option.map_eq_some_iff.mp (Option.mem_toList.mp hs)
      exact textMember_ok (by decide) (plain_otaVerdictStr v)
  · obtain rfl := List.mem_singleton.mp hm
    exact numberMember_ok (by decide) _

theorem nodup_otaMembers (st : StoreFields) (otaState otaReject : Option (List Char)) :
    ((otaMembers st otaState otaReject).map Member.key).Nodup := by
  have hall : ["state".toList, "last_reject_reason".toList, "security_version".toList].Nodup := by
    decide
  refine hall.sublist ?_
  cases otaState <;> cases otaReject
  · exact ((List.Sublist.refl _).cons _).cons _
  · exact (List.Sublist.refl _).cons _
  · exact ((List.Sublist.refl _).cons _).cons_cons _
  · exact List.Sublist.refl _

theorem otaMember_ok (st : StoreFields) (state : Option OtaState) (reject : Option OtaVerdict) :
    ∀ m ∈ otaMember st (state.map otaStateStr) (reject.map otaVerdictStr), m.Ok float := by
  intro m hm
  unfold otaMember at hm
  split_ifs at hm
  · obtain rfl := List.mem_singleton.mp hm
    exact objectMember_ok (by decide) (List.append_ne_nil_of_right_ne_nil _ (List.cons_ne_nil _ _))
      (otaMembers_ok st state reject) (nodup_otaMembers st _ _)
  · exact absurd hm List.not_mem_nil

/-- No key of the envelope stands in it twice, with and without `ota`. -/
theorem nodup_envelope (b : Build) (st : StoreFields) (rr : Int32) (rows : List QRow)
    (otaState otaReject : Option (List Char)) :
    ((textMember "device_id" st.deviceId ::
      envelopeMembers b st rr rows otaState otaReject).map Member.key).Nodup := by
  unfold envelopeMembers otaMember
  split_ifs
  · show ["device_id".toList, "fw".toList, "model".toList, "kfactor_version".toList,
      "boot".toList, "ota".toList, "records".toList].Nodup
    decide
  · show ["device_id".toList, "fw".toList, "model".toList, "kfactor_version".toList,
      "boot".toList, "records".toList].Nodup
    decide

/-! ## What `push` reads -/

/-- A dictionary has the values of a row where `push` looks for them. -/
structure ReadsAs (d : Dict) (r : QRow) : Prop where
  schemaVersion : d.schemaVersion = .int r.schemaVersion.toNat
  recordType : d.recordType = .int r.recordType.toNat
  bootId : d.get? (py "boot_id") = some (.int r.bootId.toNat)
  seq : d.get? (py "seq") = some (.int r.seq.toNat)
  ts : d.get? (py "ts") = some (.int r.ts.toNat)
  totalizer : d.get? (py "totalizer") = some (.int r.totalizer.toNat)
  quality : d.getD (py "quality") (.int 0) = .int r.quality.toNat
  rssi : d.getD (py "rssi") (.int 0) = .int (-r.rssiAbs.toNat)

theorem readsAs_recordMembers (r : QRow) :
    ReadsAs ((recordMembers r).map Member.field) r := by
  have hget : ∀ m ∈ recordMembers r,
      Dict.get? ((recordMembers r).map Member.field) m.field.1 = some m.value := fun _ =>
    get?_field (pairwise_field (nodup_recordMembers r))
  unfold recordMembers at hget ⊢
  simp only [List.forall_mem_cons] at hget
  obtain ⟨hsv, hrt, hboot, hseq, hts, htotal, hquality, hrssi, -⟩ := hget
  have hdefault : ∀ {d : Dict} {key : PyStr} {v : Json} (default : Json),
      d.get? key = some v → d.getD key default = v := by
    intro d key v default h
    rw [Dict.getD, h, Option.getD_some]
  exact ⟨hdefault .null hsv, hdefault (.int 1) hrt, hboot, hseq, hts, htotal,
    hdefault (.int 0) hquality, hdefault (.int 0) hrssi⟩

theorem recordsMember_mem (b : Build) (st : StoreFields) (rr : Int32) (rows : List QRow)
    (otaState otaReject : Option (List Char)) :
    recordsMember rows ∈ textMember "device_id" st.deviceId ::
      envelopeMembers b st rr rows otaState otaReject :=
  List.mem_cons_of_mem _ (List.mem_append_right _ List.mem_cons_self)

/-- The body is read as the object of its members. -/
theorem loads_toJson (b : Build) (st : StoreFields) (rr : Int32) (rows : List QRow)
    (state : Option OtaState) (reject : Option OtaVerdict) (hid : Plain st.deviceId)
    (hfw : Plain b.fwVersion) (hmodel : Plain b.deviceModel) :
    loads float (toJson b st rr rows (state.map otaStateStr) (reject.map otaVerdictStr)) =
      some (.obj ((textMember "device_id" st.deviceId :: envelopeMembers b st rr rows
        (state.map otaStateStr) (reject.map otaVerdictStr)).map Member.field)) := by
  rw [toJson_eq]
  refine (reads_object ?_ (pairwise_field (nodup_envelope b st rr rows _ _))).loads_eq
  unfold envelopeMembers
  simp only [List.forall_mem_cons, List.forall_mem_append, List.not_mem_nil, false_implies,
    implies_true, and_true]
  exact ⟨textMember_ok (by decide) hid, ⟨⟨textMember_ok (by decide) hfw,
    textMember_ok (by decide) hmodel, numberMember_ok (by decide) _, bootMembers_ok st rr⟩,
    otaMember_ok st state reject⟩, recordsMember_ok rows⟩

/-- **A batch arrives as it was sent**: the body is JSON, and what `push` finds in it are
as many records as rows were sent, in their order and with their values. -/
theorem push_reads_rows (float : List Char → PyFloat) (b : Build) (st : StoreFields)
    (rr : Int32) (rows : List QRow) (state : Option OtaState) (reject : Option OtaVerdict)
    (hid : Plain st.deviceId) (hfw : Plain b.fwVersion) (hmodel : Plain b.deviceModel) :
    ∃ body rs, loads float (toJson b st rr rows (state.map otaStateStr)
        (reject.map otaVerdictStr)) = some (.obj body) ∧
      (Json.obj body).truthy = true ∧ (Json.obj body).mentionsRecords = some true ∧
      (Dict.get body (py "records")).records = some rs ∧ List.Forall₂ ReadsAs rs rows := by
  have hrecords := recordsMember_mem b st rr rows (state.map otaStateStr) (reject.map otaVerdictStr)
  refine ⟨_, rows.map fun r => (recordMembers r).map Member.field,
    loads_toJson b st rr rows state reject hid hfw hmodel, rfl, ?_, ?_, ?_⟩
  · exact congrArg some (List.any_eq_true.mpr
      ⟨_, List.mem_map_of_mem hrecords, beq_self_eq_true (py "records")⟩)
  · have hget := get?_field (pairwise_field (nodup_envelope b st rr rows _ _)) hrecords
    show (Option.getD (Dict.get? _ (recordsMember rows).field.1) Json.null).records = _
    rw [hget, Option.getD_some, ← records_arr, List.map_map]
    rfl
  · rw [List.forall₂_map_left_iff]
    exact List.forall₂_same.mpr fun r _ => readsAs_recordMembers r

/-- The store of a unit that has started once. -/
def benchStore : StoreFields where
  deviceId := chipId 0x0000a1b2c3d4e5f6
  cfgVer := 3
  bootId := 1
  restartCount := 1
  watchdogResetCount := 0
  brownoutResetCount := 0
  securityVersion := 1

/-- The rows of a first batch. -/
def benchRows : List QRow :=
  [⟨0, 1, 1, 1, 1, 0, 4294967296, 1, 61, 0⟩, ⟨0, 1, 1, 1, 2, 1720000000, 4294967300, 0, 0, 0⟩]

theorem push_reads_rows_benchRows :
    ∃ body rs, loads (fun _ => .nan) (toJson oilflowBuild benchStore 1 benchRows
        ((some OtaState.confirmed).map otaStateStr)
        ((none : Option OtaVerdict).map otaVerdictStr)) = some (.obj body) ∧
      (Json.obj body).truthy = true ∧ (Json.obj body).mentionsRecords = some true ∧
      (Dict.get body (py "records")).records = some rs ∧ List.Forall₂ ReadsAs rs benchRows :=
  push_reads_rows (fun _ => .nan) oilflowBuild benchStore 1 benchRows (some .confirmed) none
    (plain_chipId 0x0000a1b2c3d4e5f6) (by decide) (by decide)

/-- A version that ends in a tab. -/
def tabBuild : Build := { oilflowBuild with fwVersion := "1.4.0\t".toList }

/-- A control character in a compiled string makes the body one that is refused: it is
put into the literal as it is. -/
theorem tab_refused : ('"' ∉ tabBuild.fwVersion ∧ '\\' ∉ tabBuild.fwVersion) ∧
    loads (fun _ => .nan) (toJson tabBuild benchStore 1 benchRows none none) = none :=
  ⟨by decide, Option.isNone_iff_eq_none.mp (by decide +kernel)⟩

end Device
end CovioFirmware
