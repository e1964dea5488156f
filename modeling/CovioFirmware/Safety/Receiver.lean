import CovioFirmware.Bytes.FieldSearch
import CovioFirmware.Device.Sync
import CovioFirmware.Safety.FieldExtractors
import CovioFirmware.Safety.ServerAck
import CovioFirmware.Safety.WireRoundTrip

/-!
# The device and its receiver

The environment in which a device is answered by a server that runs `push` on its
database.  A request may be lost, or processed while its answer is lost, replaced by an
error or broken off; requests of other devices, and late ones of this device, may be
processed at any time.

* `Receiver.isGreatest_of_ack`: the number in an answer is the greatest up to which the
  seqs of the device are resolved in the database behind it.
* `Receiver.ackSeq_text`, `Receiver.ackSeq_le_of_cut`: what `pushOnce` reads out of the
  answer: this number if it fits a `long`, and out of an answer that breaks off no larger
  one.
* `Receiver.present_iff`: a batch that was answered is in the database.
-/

namespace CovioFirmware
namespace Device

open JsonText Server Crash

/-- The server, and the device as far as it names itself to it.  `jsonify` writes the
members of the answer in the order of their keys, which is also the order in which `push`
gives them. -/
structure Receiver where
  ρ : Rendering
  float : List Char → PyFloat
  /-- The address in the fuses. -/
  mac : UInt64
  build : Build
  /-- How `jsonify` lays out an object. -/
  style : ObjectStyle
  /-- The members behind `ack_seq`. -/
  more : List Disposition → ℤ → List (List Char × List Char)
  /-- The body of an answer that is none. -/
  refusal : List Char
  plain_build : Plain build.fwVersion ∧ Plain build.deviceModel
  gap_blank : ∀ c ∈ style.gap, c = ' '
  separator_ne : style.separator ≠ "ack_seq".toList
  tail_digit : ∀ told ms, ∀ c ∈ (style.tail (more told ms)).head?, c.isDigit = false
  text_clean : ∀ n told ms, '\x00' ∉ style.object (("ack_seq".toList, int n) :: more told ms)

/-- The server's state, and the answers that reached the device whole. -/
structure Backend where
  db : Database
  delivered : List Response

namespace Receiver

variable (R : Receiver)

/-- The device as the tables have it. -/
def device : Cell := .text ((chipId R.mac).map Char.toNat)

/-- The body of an answer. -/
def text : Response → List Char
  | .ack n told ms => R.style.object (("ack_seq".toList, int n) :: R.more told ms)
  | _ => R.refusal

/-- The request carries the batch. -/
def Carries (batch : List QRow) (q : Request) : Prop :=
  ∃ (st : StoreFields) (rr : Int32) (state : Option OtaState) (reject : Option Upgrade.OtaVerdict),
    st.deviceId = chipId R.mac ∧ q.body = loads R.float (toJson R.build st rr batch
      (state.map otaStateStr) (reject.map otaVerdictStr))

/-- What may become of a push. -/
inductive Serves (batch : List QRow) : Backend → HttpReply → Backend → Prop
  /-- The request is lost. -/
  | lost {e : Backend} {r : HttpReply} : r.code ≠ 200 → Serves batch e r e
  /-- The request is processed, and its answer is lost, turned into an error, or breaks
  off. -/
  | broken {e : Backend} {r : HttpReply} {q : Request} : R.Carries batch q →
      (r.code = 200 → (q.answer R.ρ e.db).status = 200 ∧ r.body <+: R.text (q.answer R.ρ e.db)) →
      Serves batch e r { e with db := q.store R.ρ e.db }
  /-- The answer arrives. -/
  | whole {e : Backend} {q : Request} : R.Carries batch q →
      Serves batch e ⟨(q.answer R.ρ e.db).status, R.text (q.answer R.ρ e.db)⟩
        ⟨q.store R.ρ e.db, e.delivered ++ [q.answer R.ρ e.db]⟩

/-- The device on a working file system, in front of this server. -/
def env : Env Backend where
  succeeds _ _ := True
  fails _ _ := False
  tears _ _ := True
  serve := R.Serves
  serveCut batch e e' := ∃ r, R.Serves batch e r e'

theorem env_reliable : R.env.Reliable := fun _ _ h => h

variable {R}

/-! ## The request -/

section

variable {batch : List QRow} {q : Request}

/-- The members of the body. -/
def bodyMembers (R : Receiver) (st : StoreFields) (rr : Int32) (batch : List QRow)
    (state : Option OtaState) (reject : Option Upgrade.OtaVerdict) : List Member :=
  textMember "device_id" st.deviceId :: envelopeMembers R.build st rr batch
    (state.map otaStateStr) (reject.map otaVerdictStr)

theorem Carries.body_eq (h : R.Carries batch q) : ∃ st rr state reject,
    st.deviceId = chipId R.mac ∧
      q.body = some (.obj ((R.bodyMembers st rr batch state reject).map Member.field)) := by
  obtain ⟨st, rr, state, reject, hid, hbody⟩ := h
  refine ⟨st, rr, state, reject, hid, hbody.trans ?_⟩
  exact loads_toJson R.build st rr batch state reject (hid ▸ plain_chipId R.mac) R.plain_build.1
    R.plain_build.2

/-- A member of the body is found under its key. -/
theorem get?_bodyMembers {st : StoreFields} {rr : Int32} {state : Option OtaState}
    {reject : Option Upgrade.OtaVerdict} {m : Member}
    (hm : m ∈ R.bodyMembers st rr batch state reject) :
    Dict.get? ((R.bodyMembers st rr batch state reject).map Member.field) m.field.1 =
      some m.value :=
  get?_field (pairwise_field (nodup_envelope R.build st rr batch _ _)) hm

/-- No character of a text is a surrogate. -/
theorem encodable_toNat (s : List Char) : PyStr.encodable (s.map Char.toNat) = true := by
  refine List.all_eq_true.mpr fun c hc => ?_
  obtain ⟨ch, -, rfl⟩ := List.mem_map.mp hc
  have hvalid : ch.toNat < 0xD800 ∨ 0xDFFF < ch.toNat ∧ ch.toNat < 0x110000 := ch.valid
  simp only [Bool.not_eq_eq_eq_not, Bool.not_true, decide_eq_false_iff_not]
  omega

/-- The request is a push of the device. -/
theorem Carries.sentBy (h : R.Carries batch q) : q.sentBy R.ρ R.device = true := by
  obtain ⟨st, rr, state, reject, hid, hbody⟩ := h.body_eq
  refine Request.sentBy_iff.mpr ⟨_, hbody, ?_⟩
  have hmem : textMember "device_id" st.deviceId ∈ R.bodyMembers st rr batch state reject :=
    List.mem_cons_self
  have hget := get?_bodyMembers hmem
  have hdevice : Dict.getD ((R.bodyMembers st rr batch state reject).map Member.field)
      (py "device_id") (.str (py "unknown")) = .str (st.deviceId.map Char.toNat) := by
    show Option.getD (Dict.get? _ (textMember "device_id" st.deviceId).field.1) _ = _
    rw [hget]
    rfl
  have hbind : (Json.str ((chipId R.mac).map Char.toNat)).bind =
      some (.text ((chipId R.mac).map Char.toNat)) := if_pos (encodable_toNat _)
  rw [Dict.device, hdevice, hid]
  exact Json.textCell_eq hbind

/-- What `push` finds in it. -/
theorem Carries.records (h : R.Carries batch q) :
    q.records = batch.map fun r => (recordMembers r).map Member.field := by
  obtain ⟨st, rr, state, reject, -, hbody⟩ := h.body_eq
  have hget := get?_bodyMembers (R := R) (recordsMember_mem R.build st rr batch
    (state.map otaStateStr) (reject.map otaVerdictStr))
  have hrecords : Dict.get ((R.bodyMembers st rr batch state reject).map Member.field)
      (py "records") = (recordsMember batch).value := by
    show Option.getD (Dict.get? _ (recordsMember batch).field.1) _ = _
    rw [hget]
    rfl
  simp only [Request.records, hbody]
  rw [hrecords]
  show Option.getD (Json.arr (batch.map fun r => .obj ((recordMembers r).map Member.field))).records
    [] = _
  have hread := records_arr (batch.map fun r => (recordMembers r).map Member.field)
  rw [List.map_map] at hread
  exact congrArg (Option.getD · []) hread

end

/-! ## The answer -/

section

variable {n : ℤ} {told : List Disposition} {ms : ℤ}

/-- The numeral stands in the answer where `extractLong_` looks for it. -/
theorem digitRun_text (hn : 0 ≤ n) : ∃ s,
    Text.fieldText "ack_seq".toList (R.text (.ack n told ms)) = some s ∧
      Text.digitRun s = decimal n.toNat := by
  have hkey : Text.SearchKey R.style "ack_seq".toList := ⟨by decide, by decide, R.separator_ne⟩
  have hfirst : ∀ f ∈ ([] : List (List Char × List Char)), Text.Passes "ack_seq".toList f :=
    fun f hf => absurd hf List.not_mem_nil
  have hfield : Text.fieldText "ack_seq".toList (R.text (.ack n told ms)) =
      some (R.style.gap ++ int n ++ R.style.tail (R.more told ms)) :=
    Text.fieldText_object hkey hfirst (R.text_clean n told ms)
  refine ⟨_, hfield, ?_⟩
  have hint : int n = decimal n.toNat := by
    rw [int, Text.toList_toString, if_pos hn]
    rfl
  have hdigits : ∀ c ∈ decimal n.toNat, c.isDigit = true := fun c hc =>
    Text.isDigit_of_mem_toDigits hc
  have hne : decimal n.toNat ≠ [] := Nat.toDigits_ne_nil
  obtain ⟨c, rest, hcons⟩ := List.exists_cons_of_ne_nil hne
  have hskip : ∀ c ∈ R.style.gap, decide (c = ' ' ∨ c = '"') = true := fun c hc =>
    decide_eq_true (.inl (R.gap_blank c hc))
  have hstop : decide (c = ' ' ∨ c = '"') = false := by
    have hc := hdigits c (hcons ▸ List.mem_cons_self)
    refine decide_eq_false ?_
    rintro (rfl | rfl) <;> exact absurd hc (by decide)
  rw [Text.digitRun, hint, List.append_assoc, List.dropWhile_append_of_pos hskip]
  rw [hcons, List.cons_append, List.dropWhile_cons_of_neg (by simpa using hstop),
    ← List.cons_append, ← hcons, List.takeWhile_append_of_pos hdigits]
  cases htail : R.style.tail (R.more told ms) with
  | nil => simp
  | cons d tl =>
    have hd : d.isDigit = false := R.tail_digit told ms d (by rw [htail]; rfl)
    rw [List.takeWhile_cons_of_neg (by simp [hd]), List.append_nil]

/-- The number of a run, as a `long`. -/
theorem nonneg_ofNat_iff {v : ℕ} (hv : v < 2 ^ 32) : 0 ≤ Int32.ofNat v ↔ v < 2 ^ 31 := by
  have hzero : (0 : Int32).toInt = 0 := rfl
  have hsize : (Int32.size : ℤ) = 4294967296 := rfl
  rw [Int32.le_iff_toInt_le, hzero, Int32.toInt_ofNat', Int.bmod_def, hsize]
  omega

theorem toNat_toUInt32_ofNat {v : ℕ} (hv : v < 2 ^ 32) :
    (Int32.ofNat v).toUInt32.toNat = v := UInt32.toNat_ofNat_of_lt hv

/-- **What is read out of a whole answer**: its number, if it fits. -/
theorem ackSeq_text (hn : 0 ≤ n) : (0 ≤ Sync.ackSeq (R.text (.ack n told ms)) ↔ n < 2 ^ 31) ∧
    (n < 2 ^ 31 → ((Sync.ackSeq (R.text (.ack n told ms))).toUInt32.toNat : ℤ) = n) := by
  obtain ⟨s, hs, hrun⟩ : ∃ s, Text.fieldText "ack_seq".toList (R.text (.ack n told ms)) = some s ∧
      Text.digitRun s = decimal n.toNat := digitRun_text hn
  have hloc : located (R.text (.ack n told ms)) "ack_seq".toList = some (decimal n.toNat) := by
    have hne : decimal n.toNat ≠ [] := Nat.toDigits_ne_nil
    rw [located, hs, Option.map_some, hrun]
    exact Option.filter_eq_some_iff.mpr ⟨rfl, by simpa using hne⟩
  have hval : runValue (decimal n.toNat) = n.toNat := Nat.ofDigitChars_ten_toDigits
  have hread : Sync.ackSeq (R.text (.ack n told ms)) = _ := sync_extractLong hloc
  rw [hread, hval]
  by_cases hfit : n.toNat < 2 ^ 32
  · rw [if_pos hfit, nonneg_ofNat_iff hfit, toNat_toUInt32_ofNat hfit]
    exact ⟨by omega, fun _ => by omega⟩
  · rw [if_neg hfit]
    have hneg : ¬ (0 : Int32) ≤ -1 := by decide
    exact ⟨⟨fun h => absurd h hneg, fun h => absurd h (by omega)⟩, fun h => absurd h (by omega)⟩

/-- **An answer that breaks off** carries no larger number. -/
theorem ackSeq_le_of_cut (hn : 0 ≤ n) {body : List Char}
    (hpre : body <+: R.text (.ack n told ms)) (hpos : 0 ≤ Sync.ackSeq body) :
    ((Sync.ackSeq body).toUInt32.toNat : ℤ) ≤ n := by
  have hneg : ¬ (0 : Int32) ≤ -1 := by decide
  cases hloc : located body "ack_seq".toList with
  | none =>
    rw [Sync.ackSeq, (extractLong_of_located_none hloc).1] at hpos
    exact absurd hpos hneg
  | some run =>
    have hread : Sync.ackSeq body = _ := sync_extractLong hloc
    obtain ⟨s, hs, rfl, -, -⟩ := of_located hloc
    obtain ⟨s', hs', hrun'⟩ : ∃ s',
        Text.fieldText "ack_seq".toList (R.text (.ack n told ms)) = some s' ∧
          Text.digitRun s' = decimal n.toNat := digitRun_text hn
    obtain ⟨v, hv, hsv⟩ := Text.fieldText_mono hpre hs
    rw [hs', Option.some.injEq] at hv
    subst hv
    obtain ⟨rest, hrest⟩ := Text.digitRun_mono hsv
    have hle : runValue (Text.digitRun s) ≤ n.toNat := by
      have hwhole : runValue (decimal n.toNat) = n.toNat := Nat.ofDigitChars_ten_toDigits
      rw [← hwhole, ← hrun', ← hrest, runValue, runValue, Nat.ofDigitChars_append]
      exact Text.le_ofDigitChars rest _
    rw [hread] at hpos ⊢
    split_ifs at hpos ⊢ with hfit
    · rw [toNat_toUInt32_ofNat hfit]
      omega
    · exact absurd hpos hneg

end

/-! ## The exchange -/

section

variable {batch : List QRow} {q : Request} {db : Database}

/-- **The number in an answer** is the greatest up to which the device's seqs are
resolved. -/
theorem isGreatest_of_ack (h : R.Carries batch q) {n : ℤ} (hn : (q.answer R.ρ db).ack? = some n) :
    IsGreatest {m | (q.store R.ρ db).ResolvedTo R.device m} n :=
  isGreatest_ackSeq (ack_of_sentBy h.sentBy hn)

/-- A row of the batch as the tables have it. -/
theorem seqCell_of_readsAs {d : Dict} {r : QRow} (h : ReadsAs d r) :
    d.seqCell R.ρ = .num r.seq.toNat := by
  have hlt := r.seq.toNat_lt
  rw [Dict.seqCell, Dict.get, Dict.getD, h.seq, Option.getD_some, Json.cell_int, if_pos (by omega)]
  rfl

/-- No column of a row that can be bound is left empty. -/
theorem filled_of_readsAs {d : Dict} {r : QRow} {s : Sender} (h : ReadsAs d r)
    (hread : d.Readable s) : d.Filled R.ρ := by
  have hcell : ∀ {v : Json} {m : ℤ}, v = .int m → v.Bindable → v.cell R.ρ ≠ .null := by
    rintro v m rfl hbind hnull
    obtain ⟨b, hb⟩ := Option.isSome_iff_exists.mp hbind
    have hrange : -(2 ^ 63) ≤ m ∧ m < 2 ^ 63 := by
      by_contra hout
      simp only [Json.bind, if_neg hout] at hb
      cases hb
    rw [Json.cell_int, if_pos hrange] at hnull
    cases hnull
  have hget : ∀ {key : PyStr} {v : Json}, d.get? key = some v → d.get key = v := by
    intro key v hv
    rw [Dict.get, Dict.getD, hv, Option.getD_some]
  intro haccepted
  obtain ⟨hts, htotal, hquality, -, -⟩ := hread.accepted haccepted
  exact ⟨hcell (hget h.bootId) hread.bootId, hcell (hget h.seq) hread.seq, hcell (hget h.ts) hts,
    hcell (hget h.totalizer) htotal, hcell h.quality hquality⟩

/-- **An answered batch is in the database.** -/
theorem present_iff (h : R.Carries batch q) (hack : (q.answer R.ρ db).ack? ≠ none) (i : ℤ) :
    (q.store R.ρ db).Present R.device (.num i) ↔
      db.Present R.device (.num i) ∨ ∃ r ∈ batch, (r.seq.toNat : ℤ) = i := by
  rcases present_store R.ρ R.device q db with ⟨-, -, hnone⟩ | ⟨⟨-, hproc⟩, -, hpresent⟩
  · exact absurd (hnone h.sentBy) hack
  · rw [hpresent]
    refine or_congr_right ?_
    obtain ⟨fields, rs, hbody, hproc⟩ := hproc
    have hrs : rs = batch.map fun r => (recordMembers r).map Member.field := by
      rw [← h.records, Request.records, hbody]
      simp only
      rw [show (Dict.get fields (py "records")).records = some rs from hproc.records]
      rfl
    rw [h.records]
    constructor
    · rintro ⟨-, -, d, hd, -, hseq⟩
      obtain ⟨r, hr, rfl⟩ := List.mem_map.mp hd
      rw [seqCell_of_readsAs (readsAs_recordMembers r), Cell.num.injEq] at hseq
      exact ⟨r, hr, by exact_mod_cast hseq⟩
    · rintro ⟨r, hr, hri⟩
      have hmem : (recordMembers r).map Member.field ∈
          batch.map fun r => (recordMembers r).map Member.field := List.mem_map_of_mem hr
      refine ⟨by simp, by simp [device], _, hmem, filled_of_readsAs (readsAs_recordMembers r)
        (hproc.readable _ (hrs ▸ hmem)), ?_⟩
      rw [seqCell_of_readsAs (readsAs_recordMembers r), Cell.num.injEq, ← hri]
      norm_cast

end

end Receiver

/-! ## A server that answers -/

/-- The layout of `jsonify` without white space. -/
def jsonifyStyle : ObjectStyle := { compact with closing := ['}', '\n'] }

theorem nul_notMem_int (n : ℤ) : '\x00' ∉ int n := fun h => absurd (plain_int n _ h) (by decide)

/-- The server of one oil-flow meter, which quarantines nothing. -/
def benchReceiver : Receiver where
  ρ := plain
  float _ := .nan
  mac := 0x0000a1b2c3d4e5f6
  build := oilflowBuild
  style := jsonifyStyle
  more _ ms := [("server_time_ms".toList, int ms)]
  refusal := []
  plain_build := by decide
  gap_blank _ hc := absurd hc List.not_mem_nil
  separator_ne := by decide
  tail_digit told ms c hc := by
    obtain rfl := Option.some.inj hc
    rfl
  text_clean n told ms := by
    simp only [ObjectStyle.object, ObjectStyle.member, ObjectStyle.tail, jsonifyStyle, compact,
      Text.quoted,
      String.reduceToList, List.mem_append, List.mem_cons, List.not_mem_nil, not_or,
      nul_notMem_int]
    decide

/-- The request of that device. -/
def benchRequest (batch : List QRow) : Request :=
  ⟨⟨0, 0⟩, some (.obj ((benchReceiver.bodyMembers benchStore 1 batch none none).map Member.field))⟩

theorem benchRequest_carries (batch : List QRow) :
    benchReceiver.Carries batch (benchRequest batch) :=
  ⟨benchStore, 1, none, none, rfl, (loads_toJson oilflowBuild benchStore 1 batch none none
    (plain_chipId _) benchReceiver.plain_build.1 benchReceiver.plain_build.2).symm⟩

/-- Answers of a working device, and of the server to each push. -/
def answering : (c : Call) → World Backend → c.Reply × World Backend
  | .post batch, w =>
      let resp := (benchRequest batch).answer plain w.peer.db
      (⟨resp.status, benchReceiver.text resp⟩,
        { w with peer := ⟨(benchRequest batch).store plain w.peer.db, w.peer.delivered ++ [resp]⟩ })
  | c, w => respond (fun _ => false) c w

theorem answering_reply (c : Call) (w : World Backend) :
    (sem benchReceiver.env).post c w (answering c w).1 (answering c w).2 := by
  have hrespond : ∀ c : Call, (sem benchReceiver.env).post c w (respond (fun _ => false) c w).1
      (respond (fun _ => false) c w).2 :=
    respond_reply (by simp) (fun _ _ => trivial) fun _ => .lost (by decide)
  cases c with
  | post batch => exact ⟨rfl, .whole (benchRequest_carries batch)⟩
  | files | openDir | pcntGet | pcntClear | millis | online | httpBegin | get | random
  | confirmHealthyBoot | otaPoll => exact hrespond _
  | appendOpenSize p | truncateTo p n | appendWrite p d | readAt p o n | writeWhole p d
  | remove p => exact hrespond _

theorem answering_runs {α : Type} (p : Fw α) (w : World Backend) :
    Runs (sem benchReceiver.env) p w (p.exec answering w).1 (p.exec answering w).2 :=
  Prog.exec_runs (I := fun _ => True) (fun c w _ => ⟨answering_reply c w, trivial⟩) p trivial

end Device
end CovioFirmware
