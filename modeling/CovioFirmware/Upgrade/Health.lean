import CovioFirmware.Upgrade.Calls
import CovioFirmware.Crash.System

/-!
# Boot health

`setup()` counts the boots of an image that has never been confirmed and gives up
on it at the `UNHEALTHY_BOOT_STREAK_LIMIT`-th; `Ota::confirmHealthyBoot` records
the version pair of the running image as the one confirmed last, empties the
count, and raises the security floor (`store.h`, `boot_health.h`, `ota.h`).
-/

namespace CovioFirmware
namespace Upgrade

open Crash

/-- `UNHEALTHY_BOOT_STREAK_LIMIT`. -/
def unhealthyBootStreakLimit : UInt32 := 3

/-- `isBootOnTrial`. -/
def isBootOnTrial (lastConfirmedVersion : List Char) (lastConfirmedSecVer : UInt32)
    (runningVersion : List Char) (runningSecVer : UInt32) : Bool :=
  lastConfirmedVersion ≠ runningVersion || lastConfirmedSecVer ≠ runningSecVer

/-- The image has not been the last one confirmed. -/
def SecurityNvs.onTrial (n : SecurityNvs) (image : Image) : Bool :=
  isBootOnTrial n.lastOkVer n.lastOkSecVer image.version image.securityVersion.toUInt32

/-- The unhealthy-boot block of `setup()`. -/
def setupStreak (image : Image) : Fw Unit := do
  let n ← Fw.nvs
  if n.onTrial image then do
    -- `incrementUnhealthyBootStreak`
    let n ← Fw.nvs
    Fw.putUnhealthyStreak (n.unhealthyStreak + 1)
    let n ← Fw.nvs
    if unhealthyBootStreakLimit ≤ n.unhealthyStreak then Fw.rollbackAndReboot
    else return ()
  else return ()

/-- `OtaVerdict`. -/
inductive OtaVerdict where
  | accept | missingMetadata | malformedVersion | downgrade | hwMismatch | schemaMismatch
  deriving DecidableEq

/-- `OtaAuthVerdict`. -/
inductive OtaAuthVerdict where
  | ok | missingFields | unknownKeyId | noTimeSource | timeInvalid | badSignatureEncoding
  | sigVerifyFailed
  deriving DecidableEq

/-- The object's members. -/
structure Ota where
  otaBackoffMs : UInt32 := 0
  lastOtaFailMs : UInt32 := 0
  pendingVerify : Bool := false
  confirmed : Bool := false
  failed : Bool := false
  lastRejectReason : OtaVerdict := .accept
  lastAuthReject : OtaAuthVerdict := .ok
  deriving DecidableEq

namespace Ota

/-- `noteBoot`. -/
def noteBoot (o : Ota) : Fw Ota := do
  let state ← Fw.imgState
  match state with
  | none => return o
  | some pending => return { o with pendingVerify := pending }

/-- `Store::recordHealthyBoot`. -/
def recordHealthyBoot (image : Image) : Fw Unit := do
  Fw.putLastOkVer image.version
  Fw.putLastOkSecVer image.securityVersion.toUInt32
  let n ← Fw.nvs
  if n.unhealthyStreak ≠ 0 then Fw.putUnhealthyStreak 0 else return ()

/-- The advance of the security floor in `confirmHealthyBoot`. -/
def advanceFloor (image : Image) : Fw Unit := do
  let n ← Fw.nvs
  if n.secVer.toInt32 < image.securityVersion then
    Fw.putSecVer image.securityVersion.toUInt32
  else return ()

/-- The cancellation of the bootloader's trial in `confirmHealthyBoot`, where there
is one. -/
def cancelRollback (o : Ota) : Fw Bool :=
  if o.pendingVerify then Fw.markAppValid else return true

/-- `confirmHealthyBoot`. -/
def confirmHealthyBoot (o : Ota) (image : Image) : Fw Ota := do
  if o.confirmed then return o
  else do
    let ok ← o.cancelRollback
    if ok then do
      recordHealthyBoot image
      advanceFloor image
      return { o with confirmed := true }
    else return o

end Ota

/-- A running image. -/
structure Running where
  image : Image
  ota : Ota

/-- What `setup()` does for the update side. -/
def setup (image : Image) : Fw Running := do
  setupStreak image
  let ota ← Ota.noteBoot {}
  return { image := image, ota := ota }

/-! ## Specifications -/

theorem onTrial_iff {n : SecurityNvs} {image : Image} :
    n.onTrial image = true ↔
      ¬ (n.lastOkVer = image.version ∧ n.lastOkSecVer = image.securityVersion.toUInt32) := by
  simp only [SecurityNvs.onTrial, isBootOnTrial, ne_eq, decide_not, Bool.or_eq_true,
    Bool.not_eq_true', decide_eq_false_iff_not, not_and_or]

/-- A boot leaves the security namespace as it was, except that an image on trial
may have counted itself. -/
def Booted (image : Image) (n n' : SecurityNvs) : Prop :=
  n' = n ∨ n.onTrial image = true ∧ n' = { n with unhealthyStreak := n.unhealthyStreak + 1 }

theorem wp_setupStreak {image : Image} {w : World} :
    wp sem (setupStreak image)
      (fun _ w' => w'.nvs = if w.nvs.onTrial image then
        { w.nvs with unhealthyStreak := w.nvs.unhealthyStreak + 1 } else w.nvs)
      (fun w' => Booted image w.nvs w'.nvs) w := by
  simp only [setupStreak, Fw.nvs_bind, Fw.putUnhealthyStreak_bind, Prog.pure_eq_ret]
  have hC : Booted image w.nvs w.nvs := .inl rfl
  refine wp_nvs ?_
  by_cases htrial : w.nvs.onTrial image = true
  · rw [if_pos htrial, if_pos htrial]
    have hC1 : Booted image w.nvs (w.putUnhealthyStreak (w.nvs.unhealthyStreak + 1)).nvs :=
      .inr ⟨htrial, rfl⟩
    refine wp_nvs (wp_put (fun _ => Iff.rfl) (fun _ _ => Iff.rfl) hC (fun _ => wp_nvs ?_) ⟨()⟩)
    split
    · refine wp_call hC1 ?_ ?_
      · rintro w' (rfl | ⟨b, rfl⟩)
        · exact hC1
        · exact hC1
      · rintro _ w' rfl
        exact ⟨hC1, rfl⟩
    · exact ⟨hC1, rfl⟩
  · rw [if_neg htrial, if_neg htrial]
    exact ⟨hC, rfl⟩

theorem wp_setup {image : Image} {w : World} :
    wp sem (setup image)
      (fun r w' => r.image = image ∧ r.ota.confirmed = false ∧
        w'.nvs = if w.nvs.onTrial image then
          { w.nvs with unhealthyStreak := w.nvs.unhealthyStreak + 1 } else w.nvs)
      (fun w' => Booted image w.nvs w'.nvs) w := by
  refine wp_bind_of (wp_ret_cut wp_setupStreak) (fun _ h => h) ?_
  rintro _ w' ⟨hC, hw'⟩
  refine wp_sense (fun _ h => h) (fun _ _ h => h) hC ?_
  rintro (_ | pending)
  · exact ⟨hC, rfl, rfl, hw'⟩
  · exact ⟨hC, rfl, rfl, hw'⟩

/-- What a confirmation may do to the version pair confirmed last and to the count:
record the pair of the running image, then empty the count. -/
def Confirming (image : Image) (n n' : SecurityNvs) : Prop :=
  (n'.onTrial image = true → n.onTrial image = true) ∧
    (n'.unhealthyStreak = n.unhealthyStreak ∨ n'.unhealthyStreak = 0)

theorem Confirming.refl (image : Image) (n : SecurityNvs) : Confirming image n n := ⟨id, .inl rfl⟩

/-- Once both values are recorded the image is on trial no longer. -/
theorem Confirming.of_recorded {image : Image} {n n' : SecurityNvs}
    (hver : n'.lastOkVer = image.version)
    (hsec : n'.lastOkSecVer = image.securityVersion.toUInt32)
    (hstreak : n'.unhealthyStreak = n.unhealthyStreak ∨ n'.unhealthyStreak = 0) :
    Confirming image n n' :=
  ⟨fun h => absurd ⟨hver, hsec⟩ (onTrial_iff.mp h), hstreak⟩

theorem wp_recordHealthyBoot {image : Image} {w : World} :
    wp sem (Ota.recordHealthyBoot image)
      (fun _ w' => w'.nvs.lastOkVer = image.version ∧
        w'.nvs.lastOkSecVer = image.securityVersion.toUInt32 ∧ w'.nvs.unhealthyStreak = 0)
      (fun w' => Confirming image w.nvs w'.nvs) w := by
  simp only [Ota.recordHealthyBoot, Fw.putLastOkVer_bind, Fw.putLastOkSecVer_bind, Fw.nvs_bind,
    Prog.pure_eq_ret]
  have hver : Confirming image w.nvs (w.putLastOkVer image.version).nvs := by
    refine ⟨fun h => ?_, .inl rfl⟩
    rw [onTrial_iff] at h ⊢
    exact fun hw => h ⟨rfl, hw.2⟩
  have hsec : Confirming image w.nvs ((w.putLastOkVer image.version).putLastOkSecVer
      image.securityVersion.toUInt32).nvs := .of_recorded rfl rfl (.inl rfl)
  refine wp_put (fun _ => Iff.rfl) (fun _ _ => Iff.rfl) (.refl image w.nvs) (fun _ => ?_) ⟨()⟩
  refine wp_put (fun _ => Iff.rfl) (fun _ _ => Iff.rfl) hver (fun _ => wp_nvs ?_) ⟨()⟩
  split
  · exact wp_put (fun _ => Iff.rfl) (fun _ _ => Iff.rfl) hsec
      (fun _ => ⟨.of_recorded rfl rfl (.inr rfl), rfl, rfl, rfl⟩) ⟨()⟩
  · next h0 => exact ⟨hsec, rfl, rfl, not_not.mp h0⟩

/-- Whether the floor moves, and where to. -/
def Advanced (image : Image) (n n' : SecurityNvs) : Prop :=
  n' = n ∨ n.secVer.toInt32 < image.securityVersion ∧
    n' = { n with secVer := image.securityVersion.toUInt32 }

theorem wp_advanceFloor {image : Image} {w : World} :
    wp sem (Ota.advanceFloor image) (fun _ w' => Advanced image w.nvs w'.nvs)
      (fun w' => Advanced image w.nvs w'.nvs) w := by
  simp only [Ota.advanceFloor, Fw.nvs_bind, Prog.pure_eq_ret]
  have hC : Advanced image w.nvs w.nvs := .inl rfl
  refine wp_nvs ?_
  split
  · next hlt =>
    have hput : Advanced image w.nvs (w.putSecVer image.securityVersion.toUInt32).nvs :=
      .inr ⟨hlt, rfl⟩
    exact wp_put (fun _ => Iff.rfl) (fun _ _ => Iff.rfl) hC (fun _ => ⟨hput, hput⟩) ⟨()⟩
  · exact ⟨hC, hC⟩

theorem Advanced.streak {image : Image} {n n' : SecurityNvs} (h : Advanced image n n') :
    n'.unhealthyStreak = n.unhealthyStreak := by
  rcases h with rfl | ⟨-, rfl⟩
  · rfl
  · rfl

theorem Advanced.confirming {image : Image} {n n' n'' : SecurityNvs} (h : Advanced image n' n'')
    (hn : Confirming image n n') : Confirming image n n'' := by
  rcases h with rfl | ⟨-, rfl⟩
  · exact hn
  · exact hn

/-- **A confirmation that completes has emptied the count.** -/
theorem wp_confirmHealthyBoot {o : Ota} {image : Image} {w : World}
    (ho : o.confirmed = true → w.nvs.unhealthyStreak = 0) :
    wp sem (o.confirmHealthyBoot image)
      (fun o' w' => Confirming image w.nvs w'.nvs ∧
        (o'.confirmed = true → w'.nvs.unhealthyStreak = 0))
      (fun w' => Confirming image w.nvs w'.nvs) w := by
  have hrefl := Confirming.refl image w.nvs
  -- the part behind the cancelled trial
  have hrecord : wp sem (do
        Ota.recordHealthyBoot image
        Ota.advanceFloor image
        return { o with confirmed := true })
      (fun o' w' => Confirming image w.nvs w'.nvs ∧
        (o'.confirmed = true → w'.nvs.unhealthyStreak = 0))
      (fun w' => Confirming image w.nvs w'.nvs) w := by
    refine wp_bind_of wp_recordHealthyBoot (fun _ h => h) ?_
    rintro _ w1 ⟨hver, hsec, hstreak⟩
    have h1 : Confirming image w.nvs w1.nvs := .of_recorded hver hsec (.inr hstreak)
    refine wp_bind_of wp_advanceFloor (fun _ h => h.confirming h1) fun _ w2 h2 => ?_
    exact ⟨h2.confirming h1, h2.confirming h1, fun _ => h2.streak.trans hstreak⟩
  unfold Ota.confirmHealthyBoot Ota.cancelRollback
  by_cases hconf : o.confirmed = true
  · rw [if_pos hconf]
    exact ⟨hrefl, hrefl, fun _ => ho hconf⟩
  · rw [if_neg hconf]
    by_cases hpend : o.pendingVerify = true
    · rw [if_pos hpend]
      refine wp_sense (fun _ h => h) (fun _ _ h => h) hrefl ?_
      rintro (_ | _)
      · exact ⟨hrefl, hrefl, fun h => absurd h hconf⟩
      · exact hrecord
    · rw [if_neg hpend]
      exact hrecord

end Upgrade
end CovioFirmware
