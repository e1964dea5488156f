import CovioFirmware.Device.Sync
import CovioFirmware.Upgrade.Signing

/-!
# Reading integers

`checked_parse` is the contract of the two decimal parsers, for every range of every
byte string: they accept exactly the nonempty runs of digits whose value fits, and no
step of theirs leaves `int64_t`, although a run may be of any length.

The two `extractLong_` read the same run of digits and return a 32-bit `long`.  The one
of `sync.h` checks against `UINT32_MAX` and then converts, so a value from 2^31 on comes
out negative; the one of `ota.h` accumulates in 32 bits without a check.  `wrong_number`
is the least such value.  `right_number` says for which runs both return the value or
`-1`: those below 2^31, and by chance the ones whose wrapped value is `-1`.
-/

namespace CovioFirmware

open Text

/-- A nonempty run of digits whose value is at most `limit`. -/
def Numeral (limit : ℕ) (run : List Char) : Prop :=
  run ≠ [] ∧ run.all Char.isDigit ∧ Nat.ofDigitChars 10 run 0 ≤ limit

instance (limit : ℕ) (run : List Char) : Decidable (Numeral limit run) :=
  inferInstanceAs (Decidable (_ ∧ _ ∧ _))

/-- **Checked decimal parsing**: true and the value for a numeral within the limit,
false and `out` as it was for anything else.  The result is never undefined: no product
and no sum on the way is one that `int64_t` cannot hold. -/
theorem checked_parse (s : List UInt8) (start stop : ℕ) (hstop : stop ≤ s.length) :
    (∀ out, Raw.parseNonNegativeInt64Checked (some s) start stop out =
      some (if Numeral (2 ^ 63 - 1) (Raw.range s start stop) then
        (true, ↑(Nat.ofDigitChars 10 (Raw.range s start stop) 0)) else (false, out))) ∧
    ∀ out, Raw.parseUint32Checked (some s) start stop out =
      some (if Numeral (2 ^ 32 - 1) (Raw.range s start stop) then
        (true, .ofNat (Nat.ofDigitChars 10 (Raw.range s start stop) 0)) else (false, out)) := by
  refine ⟨fun out => ?_, fun out => ?_⟩
  · rw [Raw.parseNonNegativeInt64Checked_eq hstop, parseNonNegativeInt64Checked_eq]
    show some (Option.elim (if Numeral (2 ^ 63 - 1) _ then _ else _) _ _) = _
    by_cases h : Numeral (2 ^ 63 - 1) (Raw.range s start stop)
    · rw [if_pos h, if_pos h]
      rfl
    · rw [if_neg h, if_neg h]
      rfl
  · rw [Raw.parseUint32Checked_eq hstop, parseUint32Checked_eq]
    show some (Option.elim (if Numeral (2 ^ 32 - 1) _ then _ else _) _ _) = _
    by_cases h : Numeral (2 ^ 32 - 1) (Raw.range s start stop)
    · rw [if_pos h, if_pos h]
      rfl
    · rw [if_neg h, if_neg h]
      rfl

/-- `4294967296` does not fit `uint32_t`, and its first nine digits do. -/
theorem checked_parse_limit :
    let digits := [0x34, 0x32, 0x39, 0x34, 0x39, 0x36, 0x37, 0x32, 0x39, 0x36]
    Raw.parseUint32Checked (some digits) 0 10 7 = some (false, 7) ∧
      Raw.parseUint32Checked (some digits) 0 9 7 = some (true, 429496729) := by
  intro digits
  refine ⟨((checked_parse digits 0 10 (by decide)).2 7).trans ?_,
    ((checked_parse digits 0 9 (by decide)).2 7).trans ?_⟩
  · rw [if_neg (by decide)]
  · rw [if_pos (by decide)]
    rfl

/-! ## The two `extractLong_` -/

/-- The run of digits both extractors locate for `key`. -/
def located (body key : List Char) : Option (List Char) :=
  ((fieldText key body).map digitRun).filter fun run => ¬ run.isEmpty

/-- The integer a run of digits stands for. -/
def runValue (run : List Char) : ℕ := Nat.ofDigitChars 10 run 0

/-- What is asked of the extractors at one body and key: both return the value of the
run or `-1`, the one of `sync.h` the value wherever it is below 2^32, and they agree
below 2^31. -/
structure ReadsRight (body key : List Char) : Prop where
  sync_exact : Device.Sync.extractLong body key = -1 ∨
    ∃ run ∈ located body key, (Device.Sync.extractLong body key).toInt = runValue run
  ota_exact : Upgrade.extractLong body key = -1 ∨
    ∃ run ∈ located body key, (Upgrade.extractLong body key).toInt = runValue run
  sync_below : ∀ run ∈ located body key, runValue run < 2 ^ 32 →
    (Device.Sync.extractLong body key).toInt = runValue run
  agree : ∀ run ∈ located body key, runValue run < 2 ^ 31 →
    Device.Sync.extractLong body key = Upgrade.extractLong body key

section

variable {body key run : List Char}

/-- Without a run both return `-1`. -/
theorem extractLong_of_located_none (h : located body key = none) :
    Device.Sync.extractLong body key = -1 ∧ Upgrade.extractLong body key = -1 := by
  unfold located at h
  unfold Device.Sync.extractLong Upgrade.extractLong
  cases hf : fieldText key body with
  | none => exact ⟨rfl, rfl⟩
  | some s =>
    have hempty : digitRun s = [] := by
      rw [hf, Option.map_some, Option.filter_eq_none_iff] at h
      simpa using h _ rfl
    refine ⟨?_, ?_⟩
    · rw [Option.bind_some, hempty]
      rfl
    · show (if (digitRun s).isEmpty then -1 else _) = _
      rw [hempty]
      rfl

/-- A located run is a nonempty run of digits. -/
theorem of_located (h : located body key = some run) :
    ∃ s, fieldText key body = some s ∧ digitRun s = run ∧ run ≠ [] ∧ run.all Char.isDigit := by
  obtain ⟨hmap, hne⟩ := Option.filter_eq_some_iff.mp h
  obtain ⟨s, hs, rfl⟩ := Option.map_eq_some_iff.mp hmap
  refine ⟨s, hs, rfl, by simpa using hne, ?_⟩
  exact List.all_eq_true.mpr fun c hc => List.mem_takeWhile_imp hc

/-- The extractor of `sync.h` on a run: nothing at all from 2^32 on. -/
theorem sync_extractLong (h : located body key = some run) :
    Device.Sync.extractLong body key =
      if runValue run < 2 ^ 32 then .ofNat (runValue run) else -1 := by
  obtain ⟨s, hs, rfl, hne, hdigits⟩ := of_located h
  unfold Device.Sync.extractLong
  rw [hs, Option.bind_some, parseUint32Checked_eq]
  by_cases hfit : runValue (digitRun s) < 2 ^ 32
  · rw [if_pos ⟨hne, hdigits, Nat.le_sub_one_of_lt hfit⟩, if_pos hfit]
    rfl
  · rw [if_neg fun hn => hfit (Nat.lt_of_le_sub_one (by decide) hn.2.2), if_neg hfit]

/-- The extractor of `ota.h` on a run: the value modulo 2^32. -/
theorem ota_extractLong (h : located body key = some run) :
    Upgrade.extractLong body key = .ofNat (runValue run) := by
  obtain ⟨s, hs, rfl, hne, -⟩ := of_located h
  unfold Upgrade.extractLong
  rw [hs]
  show (if (digitRun s).isEmpty then -1 else Upgrade.accumulateLong (digitRun s)) = _
  rw [if_neg (by simpa using hne), Upgrade.accumulateLong_eq]
  rfl

end

/-- A 32-bit `long` is `-1` for the values that leave the remainder 2^32 - 1. -/
theorem ofNat_eq_neg_one_iff (v : ℕ) : Int32.ofNat v = -1 ↔ v % 2 ^ 32 = 2 ^ 32 - 1 := by
  have hneg : (-1 : Int32).toInt = -1 := rfl
  have hsize : (Int32.size : ℤ) = 4294967296 := rfl
  rw [← Int32.toInt_inj, Int32.toInt_ofNat', hneg, Int.bmod_def, hsize]
  omega

/-- It is the value for the values below 2^31. -/
theorem toInt_ofNat_eq_iff (v : ℕ) : (Int32.ofNat v).toInt = v ↔ v < 2 ^ 31 := by
  refine ⟨fun h => ?_, Int32.toInt_ofNat_of_lt⟩
  have hlt := Int32.toInt_lt (Int32.ofNat v)
  omega

/-- **Where the extractors are right**: without a run, below 2^31, and where the value
is at least 2^32 and wraps to `-1`. -/
theorem right_number (body key : List Char) : ReadsRight body key ↔
    ∀ run ∈ located body key,
      runValue run < 2 ^ 31 ∨ 2 ^ 32 ≤ runValue run ∧ runValue run % 2 ^ 32 = 2 ^ 32 - 1 := by
  cases hloc : located body key with
  | none =>
    obtain ⟨hsync, hota⟩ := extractLong_of_located_none hloc
    refine ⟨fun _ run hrun => (Option.not_mem_none run hrun).elim, fun _ => ?_⟩
    exact ⟨.inl hsync, .inl hota, fun run hrun => by simp [hloc] at hrun,
      fun _ _ _ => hsync.trans hota.symm⟩
  | some run =>
    have hsync := sync_extractLong hloc
    have hota := ota_extractLong hloc
    have hmem : ∀ run', run' ∈ located body key ↔ run' = run := fun run' => by
      rw [hloc, Option.mem_some, eq_comm]
    simp only [Option.mem_some, forall_eq']
    refine ⟨fun h => ?_, fun h => ?_⟩
    · by_cases hfit : runValue run < 2 ^ 32
      · -- below 2^32 `sync.h` must return the value
        have hval := h.sync_below run ((hmem run).mpr rfl) hfit
        rw [hsync, if_pos hfit, toInt_ofNat_eq_iff] at hval
        exact .inl hval
      · -- from there on the value cannot be returned, so `ota.h` must return `-1`
        refine .inr ⟨Nat.not_lt.mp hfit, ?_⟩
        rcases h.ota_exact with hneg | ⟨run', hrun', hval⟩
        · rwa [hota, ofNat_eq_neg_one_iff] at hneg
        · rw [(hmem run').mp hrun', hota, toInt_ofNat_eq_iff] at hval
          omega
    · rcases h with hlt | ⟨hge, hmod⟩
      · have hval := (toInt_ofNat_eq_iff (runValue run)).mpr hlt
        rw [if_pos (by omega)] at hsync
        refine ⟨.inr ⟨run, (hmem run).mpr rfl, hsync ▸ hval⟩,
          .inr ⟨run, (hmem run).mpr rfl, hota ▸ hval⟩, fun run' hrun' _ => ?_,
          fun _ _ _ => hsync.trans hota.symm⟩
        rw [(hmem run').mp hrun', hsync, hval]
      · rw [if_neg (Nat.not_lt.mpr hge)] at hsync
        have hneg := (ofNat_eq_neg_one_iff (runValue run)).mpr hmod
        refine ⟨.inl hsync, .inl (hota.trans hneg), fun run' hrun' hlt => ?_,
          fun run' hrun' hlt => ?_⟩ <;>
        · rw [(hmem run').mp hrun'] at hlt
          omega

/-- The acknowledgement 2^31 is read as a negative number. -/
theorem wrong_number :
    ¬ ReadsRight "\x7b\"ack_seq\":2147483648\x7d".toList "ack_seq".toList := by
  intro h
  have hloc : located "\x7b\"ack_seq\":2147483648\x7d".toList "ack_seq".toList =
      some "2147483648".toList := by decide
  have hval := h.sync_below _ hloc (by decide)
  exact absurd hval (by decide)

end CovioFirmware
