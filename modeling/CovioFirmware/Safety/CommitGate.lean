import CovioFirmware.Upgrade.Poll

/-!
# The update commit gate

`Update.end(true)` is the moment at which a downloaded image becomes the one the
device boots next.  `Gate` collects what has to be true of it: the manifest that was
fetched names the compiled-in key and this device's model, its signature verifies
over the canonical string of the very fields that are used, a server time was known
and lay in the manifest's window, its security version is at least the stored floor,
and the bytes that were passed to `Update.write` are as many as the signed size and
hash to the signed digest.

The properties are read off the log of a poll's calls: whenever `Update.end` is
called, the calls before it show a manifest, a clock reading and written bytes that
pass the gate (`EveryEnd`).  Nothing else a run of the update side does moves the boot
image, except the rollback of `setup()`, and the stored floor never goes down
(`ota_commit_gate`).
-/

namespace CovioFirmware
namespace Upgrade

open Crash
open Device (ServerTime)

/-- The calls of a poll so far, latest first. -/
abbrev CallLog := List (Entry Call Call.Reply)

/-- What a manifest body has to satisfy at the clock reading `now`, against the stored
floor.  Sums and comparisons are those of the integers. -/
structure Offered (crypto : Crypto) (build : Build) (time : ServerTime) (floor : UInt32)
    (body : List Char) (now : UInt32) : Prop where
  signature : ∃ canonical sigDer verify,
    buildCanonicalManifestString (manifestFields body) = some canonical ∧
      crypto.base64Decode (extractStr body "signature".toList) = some sigDer ∧
      crypto.verify = some verify ∧ verify (crypto.sha256 (textBytes canonical)) sigDer = true
  keyId : extractStr body "key_id".toList = build.keyId
  timeKnown : time.haveServerTime = true
  window : (manifestFields body).issuedAt.toInt ≤ (time.estimatedUnixNow now).toInt + 3600 ∧
    (time.estimatedUnixNow now).toInt ≤ (manifestFields body).expiresAt.toInt + 3600
  hwCompat : (manifestFields body).hwCompat = build.deviceModel
  securityVersion : (floor.toNat : ℤ) ≤ (manifestFields body).securityVersion.toInt

/-- The gate: a manifest in order, and written bytes of the signed size and digest. -/
structure Gate (crypto : Crypto) (build : Build) (time : ServerTime) (floor : UInt32)
    (body : List Char) (now : UInt32) (written : Data) : Prop
    extends Offered crypto build time floor body now where
  size : (written.length : ℤ) = (manifestFields body).imageSize.toInt
  digest : equalsIgnoreCase (manifestFields body).imageSha256Hex
    (hexDigest (crypto.sha256 written)) = true

/-- A verified signature is one over the canonical string of the fields. -/
theorem verifySignature_eq_ok {crypto : Crypto} {f : SignedManifestFields} {sigB64 : List Char} :
    verifySignature crypto f sigB64 = .ok ↔
      ∃ canonical sigDer verify, buildCanonicalManifestString f = some canonical ∧
        crypto.base64Decode sigB64 = some sigDer ∧ crypto.verify = some verify ∧
        verify (crypto.sha256 (textBytes canonical)) sigDer = true := by
  unfold verifySignature
  constructor
  · intro h
    split at h
    · cases h
    · next canonical hcanonical =>
      split at h
      · cases h
      · next sigDer hsig =>
        split at h
        · cases h
        · next verify hverify =>
          split at h
          · next hok => exact ⟨canonical, sigDer, verify, hcanonical, hsig, hverify, hok⟩
          · cases h
  · rintro ⟨canonical, sigDer, verify, hcanonical, hsig, hverify, hok⟩
    simp only [hcanonical, hsig, hverify, hok, if_true]

/-- The window of a manifest, in integers: a sum that wraps around only narrows it. -/
theorem window_of_ok {issuedAt expiresAt now : Int32}
    (h : checkManifestTimeValidity issuedAt expiresAt now otaManifestTimeSkewS = .ok) :
    issuedAt.toInt ≤ now.toInt + 3600 ∧ now.toInt ≤ expiresAt.toInt + 3600 := by
  have hwrap : ∀ a : Int32, (a + otaManifestTimeSkewS).toInt ≤ a.toInt + 3600 := by
    intro a
    have hskew : otaManifestTimeSkewS.toInt = 3600 := by decide
    have hlow := a.le_toInt
    rw [Int32.toInt_add, hskew, Int.bmod_def]
    split
    · omega
    · omega
  unfold checkManifestTimeValidity at h
  split at h
  · cases h
  · next hexp =>
    split at h
    · cases h
    · next hiss =>
      rw [Int32.not_lt, Int32.le_iff_toInt_le] at hexp hiss
      exact ⟨hiss.trans (hwrap now), hexp.trans (hwrap expiresAt)⟩

/-- What an accepted candidate satisfies. -/
theorem accepted {f : SignedManifestFields} {floor : UInt32} {deviceModel : List Char}
    {schemaVersion : Int32}
    (h : evaluateOtaCandidate f.candidate floor deviceModel schemaVersion = .accept) :
    (floor.toNat : ℤ) ≤ f.securityVersion.toInt ∧
      (f.hwCompat.isEmpty = false → f.hwCompat = deviceModel) := by
  unfold evaluateOtaCandidate SignedManifestFields.candidate at h
  split at h
  · cases h
  · next hhas =>
    split at h
    · cases h
    · split at h
      · cases h
      · next hfloor =>
        split at h
        · cases h
        · next hhw =>
          have hnonneg : 0 ≤ f.securityVersion.toInt := by
            simpa [Int32.le_iff_toInt_le] using hhas
          refine ⟨?_, fun hne => ?_⟩
          · rw [UInt32.not_lt, UInt32.le_iff_toNat_le] at hfloor
            rw [Int32.toNat_toUInt32_of_le (Int32.le_iff_toInt_le.mpr hnonneg)] at hfloor
            calc (floor.toNat : ℤ) ≤ (f.securityVersion.toNatClampNeg : ℤ) := by exact_mod_cast hfloor
              _ = f.securityVersion.toInt := Int.toNat_of_nonneg hnonneg
          · simpa [hne] using hhw

/-- The bytes passed to `Update.write` since the latest `Update.begin`, in order. -/
def passed : CallLog → Data
  | [] => []
  | .done (.updateBegin _) _ :: _ => []
  | .done (.updateWrite d) _ :: log => passed log ++ d
  | _ :: log => passed log

/-- Whenever `Update.end` was called, the calls before it satisfy `P`. -/
def EveryEnd (P : CallLog → Prop) : CallLog → Prop
  | [] => True
  | e :: log => (e.call = .updateEnd → P log) ∧ EveryEnd P log

theorem everyEnd_of_not_called {P : CallLog → Prop} {log : CallLog}
    (h : ¬ Called .updateEnd log) : EveryEnd P log := by
  induction log with
  | nil => trivial
  | cons e log ih =>
    rw [called_cons, not_or] at h
    exact ⟨fun he => absurd he h.1, ih h.2⟩

/-- A manifest, a clock reading, a download of the signed URL and written bytes that pass
the gate stand in the log. -/
def Passes (crypto : Crypto) (build : Build) (time : ServerTime) (floor : UInt32)
    (log : CallLog) : Prop :=
  ∃ body now, .done .httpString body ∈ log ∧ .done .millis now ∈ log ∧
    .done (.httpBegin (manifestFields body).imageUrl) true ∈ log ∧
    Gate crypto build time floor body now (passed log)

/-! ## The calls that only read -/

/-- The calls that touch neither the NVS nor the `Update`. -/
def Call.Reads : Call → Prop
  | .nvs => True
  | .serverUrl => True
  | .clear => True
  | .imgState => True
  | .markAppValid => True
  | .millis => True
  | .httpBegin _ => True
  | .httpGet => True
  | .httpSize => True
  | .httpString => True
  | .available => True
  | .connected => True
  | .readBytes _ => True
  | .service => True
  | .delay _ => True
  | .restart => True
  | _ => False

theorem Call.Reads.reply_eq {c : Call} (hc : c.Reads) {w w' : World} {r : c.Reply}
    (h : reply c w r w') : w' = w := by
  cases c <;> first | exact hc.elim | exact h | exact h.2

theorem Call.Reads.torn_eq {c : Call} (hc : c.Reads) {w w' : World} (h : torn c w w') :
    w' = w := by
  cases c <;> first | exact hc.elim | exact h

theorem Call.Reads.ne_updateEnd {c : Call} (hc : c.Reads) : c ≠ .updateEnd := by
  rintro rfl
  exact hc

theorem passed_cons_of_reads {e : Entry Call Call.Reply} (he : e.call.Reads) (log : CallLog) :
    passed (e :: log) = passed log := by
  cases e with
  | done c r => cases c <;> first | rfl | exact he.elim
  | lost c => rfl

theorem torn_boot {c : Call} {w w' : World} (h : torn c w w') :
    c = .updateEnd ∨ c = .rollbackAndReboot ∨ w'.boot = w.boot := by
  cases c with
  | updateEnd => exact .inl rfl
  | rollbackAndReboot => exact .inr (.inl rfl)
  | putSecVer v => rcases h with rfl | rfl <;> exact .inr (.inr rfl)
  | putLastOkVer v => rcases h with rfl | rfl <;> exact .inr (.inr rfl)
  | putLastOkSecVer v => rcases h with rfl | rfl <;> exact .inr (.inr rfl)
  | putUnhealthyStreak v => rcases h with rfl | rfl <;> exact .inr (.inr rfl)
  | _ => exact .inr (.inr (congrArg World.boot h))

theorem reply_boot {c : Call} {w w' : World} {r : c.Reply} (h : reply c w r w') :
    c = .updateEnd ∨ c = .rollbackAndReboot ∨ w'.boot = w.boot := by
  cases c with
  | updateEnd => exact .inl rfl
  | rollbackAndReboot => exact .inr (.inl rfl)
  | nvs => exact .inr (.inr (congrArg World.boot h.2))
  | readBytes n => exact .inr (.inr (congrArg World.boot h.2))
  | updateBegin n => rcases h with ⟨-, rfl⟩ | ⟨-, rfl⟩ <;> exact .inr (.inr rfl)
  | updateWrite d =>
    obtain ⟨k, -, -, rfl⟩ := h
    exact .inr (.inr rfl)
  | putSecVer v | putLastOkVer v | putLastOkSecVer v | putUnhealthyStreak v | updateAbort =>
    rw [show w' = _ from h]
    exact .inr (.inr rfl)
  | _ => exact .inr (.inr (congrArg World.boot h))

section Wp

variable {α : Type} {w : World}

/-- Nothing has been committed yet. -/
def Open (w : World) (s : World × CallLog) : Prop :=
  ¬ Called .updateEnd s.2 ∧ s.1.boot = w.boot ∧ s.1.nvs = w.nvs

theorem Open.cons {e : Entry Call Call.Reply} {w1 : World} {log : CallLog}
    (h : Open w (w1, log)) (he : e.call ≠ .updateEnd) : Open w (w1, e :: log) := by
  refine ⟨?_, h.2⟩
  rw [called_cons, not_or]
  exact ⟨he, h.1⟩

theorem Open.done {c : Call} {w1 : World} {log : CallLog} (h : Open w (w1, log))
    (hc : c ≠ .updateEnd) (r : c.Reply) : Open w (w1, .done c r :: log) := h.cons hc

/-- One reading call. -/
theorem wp_read {c : Call} {k : c.Reply → Fw α} (hc : c.Reads)
    {Q : α → World × CallLog → Prop} {C : World × CallLog → Prop} {w1 : World} {log : CallLog}
    (hC : C (w1, log)) (hlost : C (w1, .lost c :: log))
    (h : ∀ r, wp sem.logged (k r) Q C (w1, .done c r :: log)) :
    wp sem.logged (.call c k) Q C (w1, log) := by
  refine wp_logged_call hC (fun w' h' => ?_) fun r w' h' => ?_
  · rw [hc.torn_eq h']
    exact hlost
  · rw [hc.reply_eq h']
    exact h r

/-- One reading call before anything is committed. -/
theorem wp_read_open {c : Call} {k : c.Reply → Fw α} (hc : c.Reads)
    {Q : α → World × CallLog → Prop} {C : World × CallLog → Prop} (hCO : ∀ s, Open w s → C s)
    {w1 : World} {log : CallLog} (ho : Open w (w1, log))
    (h : ∀ r, Open w (w1, .done c r :: log) →
      wp sem.logged (k r) Q C (w1, .done c r :: log)) :
    wp sem.logged (.call c k) Q C (w1, log) :=
  wp_read hc (hCO _ ho) (hCO _ (ho.cons hc.ne_updateEnd)) fun r => h r (ho.cons hc.ne_updateEnd)

/-! ## The download -/

/-- What is known of the log while an image is downloaded: the manifest and the clock
reading behind it, and the bytes passed on so far. -/
def Loading (w : World) (facts : CallLog) (hashed : Data) (s : World × CallLog) : Prop :=
  Open w s ∧ facts ⊆ s.2 ∧ passed s.2 = hashed

theorem Loading.read {facts : CallLog} {hashed : Data} {w1 : World} {log : CallLog}
    (h : Loading w facts hashed (w1, log)) {e : Entry Call Call.Reply} (he : e.call.Reads) :
    Loading w facts hashed (w1, e :: log) :=
  ⟨h.1.cons he.ne_updateEnd, List.Subset.trans h.2.1 (List.subset_cons_self _ _),
    (passed_cons_of_reads he log).trans h.2.2⟩

theorem Loading.begun {facts log : CallLog} {w1 : World} {last : UInt32} {n : ℕ}
    (h : Open w (w1, .done .millis last :: .done (.updateBegin n) true :: log))
    (hfacts : facts ⊆ log) :
    Loading w facts [] (w1, .done .millis last :: .done (.updateBegin n) true :: log) :=
  ⟨h, fun e he => by simp [hfacts he], rfl⟩

/-- **What the loop hashes is what it writes.**  When the loop ends without an error,
the bytes hashed are the ones passed to `Update.write`, and `totalWritten` is their
number. -/
theorem wp_download {facts : CallLog} {expectedSize : ℕ} (fuel : ℕ) {hashed : Data}
    {last : UInt32} {w1 : World} {log : CallLog} (h : Loading w facts hashed (w1, log)) :
    wp sem.logged (download expectedSize fuel hashed hashed.length last)
      (fun got s => Open w s ∧ facts ⊆ s.2 ∧ ∀ d, got = some d → d.ioError = false →
        passed s.2 = d.hashed ∧ d.hashed.length = d.totalWritten)
      (Open w) (w1, log) := by
  induction fuel generalizing hashed last w1 log with
  | zero => exact ⟨h.1, h.1, h.2.1, fun _ h => absurd h (by simp)⟩
  | succ fuel ih =>
    have hopen : ∀ s, Open w s → Open w s := fun _ hs => hs
    unfold download
    by_cases hlt : hashed.length < expectedSize
    · rw [if_pos hlt]
      refine wp_read_open (c := .service) trivial hopen h.1 fun _ _ => ?_
      have h0 := h.read (e := .done .service ()) trivial
      refine wp_read_open (c := .available) trivial hopen h0.1 fun (avail : ℕ) _ => ?_
      have h1 := h0.read (e := .done .available avail) trivial
      change wp _ (if avail = 0 then _ else _) _ _ _
      by_cases havail : avail = 0
      · rw [if_pos havail]
        refine wp_read_open (c := .connected) trivial hopen h1.1 fun (conn : Bool) _ => ?_
        have h2 := h1.read (e := .done .connected conn) trivial
        cases conn with
        | false =>
          exact ⟨h2.1, h2.1, h2.2.1, fun d hd _ => by
            obtain rfl := Option.some.inj hd
            exact ⟨h2.2.2, rfl⟩⟩
        | true =>
          refine wp_read_open (c := .millis) trivial hopen h2.1 fun (now : UInt32) _ => ?_
          have h3 := h2.read (e := .done .millis now) trivial
          change wp _ (if 15000 < now - last then _ else _) _ _ _
          split
          · exact ⟨h3.1, h3.1, h3.2.1, fun d hd hio => by
              obtain rfl := Option.some.inj hd
              cases hio⟩
          · refine wp_read_open (c := .delay 5) trivial hopen h3.1 fun _ _ => ?_
            exact ih (h3.read (e := .done (.delay 5) ()) trivial)
      · rw [if_neg havail]
        refine wp_read_open (c := .readBytes (min avail 1024)) trivial hopen h1.1
          fun (buf : Data) _ => ?_
        have h2 := h1.read (e := .done (.readBytes (min avail 1024)) buf) trivial
        change wp _ (if buf.length = 0 then _ else _) _ _ _
        split
        · exact ih h2
        · refine wp_read_open (c := .millis) trivial hopen h2.1 fun (now : UInt32) _ => ?_
          have h3 := h2.read (e := .done .millis now) trivial
          refine wp_logged_call h3.1 (fun w2 hw2 => ?_) fun (written : ℕ) w2 hw2 => ?_
          · rw [show w2 = w1 from hw2]
            exact h3.1.cons (by simp)
          · obtain ⟨_, -, rfl, rfl⟩ := hw2
            have h4 : Loading w facts (hashed ++ buf)
                ({ w1 with session := w1.session.map (· ++ buf.take written) },
                  .done (.updateWrite buf) written :: .done .millis now ::
                    .done (.readBytes (min avail 1024)) buf :: .done .available avail ::
                    .done .service () :: log) := by
              refine ⟨⟨(h3.1.done (c := .updateWrite buf) (by simp) written).1, h3.1.2⟩,
                List.Subset.trans h3.2.1 (List.subset_cons_self _ _), ?_⟩
              exact congrArg (· ++ buf) h3.2.2
            change wp _ (if written ≠ buf.length then _ else _) _ _ _
            split
            · exact ⟨h4.1, h4.1, h4.2.1, fun d hd hio => by
                obtain rfl := Option.some.inj hd
                cases hio⟩
            · rw [← List.length_append]
              exact ih h4
    · rw [if_neg hlt]
      exact ⟨h.1, h.1, h.2.1, fun d hd _ => by
        obtain rfl := Option.some.inj hd
        exact ⟨h.2.2, rfl⟩⟩

/-! ## The poll -/

variable {crypto : Crypto} {build : Build} {time : ServerTime}

/-- What holds at every moment of a poll: every `Update.end` passed the gate, the boot
image moves only with one, and the NVS stays as it is. -/
def Gated (crypto : Crypto) (build : Build) (time : ServerTime) (w : World)
    (s : World × CallLog) : Prop :=
  EveryEnd (Passes crypto build time w.nvs.secVer) s.2 ∧
    (s.1.boot = w.boot ∨ Called .updateEnd s.2) ∧ s.1.nvs = w.nvs

theorem Open.gated {s : World × CallLog} (h : Open w s) : Gated crypto build time w s :=
  ⟨everyEnd_of_not_called h.1, .inl h.2.1, h.2.2⟩

/-- **The commit.**  With a manifest in order behind it, the end of an update is
reached only with the bytes the manifest signs. -/
theorem wp_finishUpdate {o : Ota} {body : List Char} {now : UInt32}
    (hoffer : Offered crypto build time w.nvs.secVer body now)
    (hsize : 0 ≤ (manifestFields body).imageSize.toInt) {got : Downloaded} {w1 : World}
    {log : CallLog} (ho : Open w (w1, log))
    (hfacts : [.done .httpString body, .done .millis now,
      .done (.httpBegin (manifestFields body).imageUrl) true] ⊆ log)
    (hgot : got.ioError = false →
      passed log = got.hashed ∧ got.hashed.length = got.totalWritten) :
    wp sem.logged (o.finishUpdate crypto (manifestFields body).imageSize.toInt.toNat
        (manifestFields body).imageSha256Hex got)
      (fun _ => Gated crypto build time w) (Gated crypto build time w) (w1, log) := by
  have habort : ∀ o' : Ota, wp sem.logged (.call .updateAbort fun _ => .ret o')
      (fun _ => Gated crypto build time w) (Gated crypto build time w) (w1, log) := by
    intro o'
    refine wp_logged_call ho.gated (fun w2 hw2 => ?_) fun _ w2 hw2 => ?_
    · rw [show w2 = w1 from hw2]
      exact (ho.cons (e := .lost .updateAbort) (by simp)).gated
    · have h2 : Open w (w2, .done .updateAbort () :: log) := by
        rw [show w2 = { w1 with session := none } from hw2]
        exact ⟨(ho.done (c := .updateAbort) (by simp) ()).1, ho.2⟩
      exact ⟨h2.gated, h2.gated⟩
  simp only [Ota.finishUpdate, Fw.updateAbort_bind, Fw.updateEnd_bind, Fw.restart_bind,
    Prog.pure_eq_ret]
  by_cases hbad : got.ioError = true ∨
      got.totalWritten ≠ (manifestFields body).imageSize.toInt.toNat
  · rw [if_pos hbad]
    exact habort _
  · rw [if_neg hbad]
    rw [not_or, Bool.not_eq_true, not_not] at hbad
    obtain ⟨hpassed, hlen⟩ := hgot hbad.1
    by_cases hhash : equalsIgnoreCase (manifestFields body).imageSha256Hex
        (hexDigest (crypto.sha256 got.hashed)) = true
    · rw [if_neg (not_not.mpr hhash)]
      have hpasses : Passes crypto build time w.nvs.secVer log := by
        refine ⟨body, now, hfacts (by simp), hfacts (by simp), hfacts (by simp), hoffer, ?_, ?_⟩
        · rw [hpassed, hlen, hbad.2, Int.toNat_of_nonneg hsize]
        · rw [hpassed]
          exact hhash
      -- from here on the log shows an end that passed the gate
      have hend : ∀ (e : Entry Call Call.Reply) (w2 : World), e.call = .updateEnd →
          w2.nvs = w1.nvs → Gated crypto build time w (w2, e :: log) := by
        intro e w2 he hw2
        exact ⟨⟨fun _ => hpasses, everyEnd_of_not_called ho.1⟩, .inr (called_cons.mpr (.inl he)),
          hw2.trans ho.2.2⟩
      refine wp_logged_call ho.gated (fun w2 hw2 => hend _ w2 rfl ?_) fun (ok : Bool) w2 hw2 => ?_
      · rcases hw2 with rfl | ⟨b, -, rfl⟩
        · rfl
        · rfl
      · have hnvs : w2.nvs = w1.nvs := by
          rcases hw2 with ⟨-, b, -, rfl⟩ | ⟨-, rfl⟩
          · rfl
          · rfl
        have h2 := hend (.done .updateEnd ok) w2 rfl hnvs
        cases ok with
        | false => exact ⟨h2, h2⟩
        | true =>
          have h3 : ∀ e : Entry Call Call.Reply, e.call ≠ .updateEnd →
              Gated crypto build time w (w2, e :: .done .updateEnd true :: log) :=
            fun e he => ⟨⟨fun h => absurd h he, h2.1⟩, .inr (called_cons.mpr (.inr
              (called_cons.mpr (.inl rfl)))), h2.2.2⟩
          exact wp_read (c := .restart) trivial h2 (h3 _ (by simp)) fun _ => ⟨h3 _ (by simp), h3 _ (by simp)⟩
    · rw [if_pos hhash]
      exact habort _

/-- The download and the commit of an image whose manifest is in order. -/
theorem wp_doVerifiedUpdate {passes : ℕ} {o : Ota} {body : List Char} {now : UInt32}
    (hoffer : Offered crypto build time w.nvs.secVer body now)
    (hsize : 0 ≤ (manifestFields body).imageSize.toInt) {log : CallLog} (ho : Open w (w, log))
    (hfacts : [.done .httpString body, .done .millis now] ⊆ log) :
    wp sem.logged (o.doVerifiedUpdate crypto passes (manifestFields body).imageUrl
        (manifestFields body).imageSize.toInt.toNat (manifestFields body).imageSha256Hex)
      (fun _ => Gated crypto build time w) (Gated crypto build time w) (w, log) := by
  have hopen : ∀ s, Open w s → Gated crypto build time w s := fun _ hs => hs.gated
  have hstop : ∀ (o' : Ota) {w1 : World} {log : CallLog}, Open w (w1, log) →
      wp sem.logged (.ret o') (fun _ => Gated crypto build time w) (Gated crypto build time w)
        (w1, log) := fun _ _ _ h => ⟨h.gated, h.gated⟩
  -- the three facts stand in the log once the image's URL has been opened
  have hopened : ∀ (len code : ℤ), [.done .httpString body, .done .millis now,
      .done (.httpBegin (manifestFields body).imageUrl) true] ⊆
      (.done .httpSize len :: .done .httpGet code ::
        .done (.httpBegin (manifestFields body).imageUrl) true :: log : CallLog) := by
    intro len code
    rw [List.cons_subset, List.cons_subset] at hfacts
    simp [hfacts.1, hfacts.2.1]
  simp only [Ota.doVerifiedUpdate, Fw.httpBegin_bind, Fw.httpGet_bind, Fw.httpSize_bind,
    Fw.updateBegin_bind, Fw.millis_bind, Prog.pure_eq_ret]
  refine wp_read_open (c := .httpBegin _) trivial hopen ho fun (began : Bool) h1 => ?_
  cases began with
  | false => exact hstop _ h1
  | true =>
    refine wp_read_open (c := .httpGet) trivial hopen h1 fun (code : ℤ) h2 => ?_
    by_cases hcode : code = 200
    · rw [if_neg (not_not.mpr hcode)]
      refine wp_read_open (c := .httpSize) trivial hopen h2 fun (len : ℤ) h3 => ?_
      change wp _ (if _ then _ else _) _ _ _
      split
      · exact hstop _ h3
      · refine wp_logged_call h3.gated (fun w2 hw2 => ?_) fun (ok : Bool) w2 hw2 => ?_
        · rw [show w2 = w from hw2]
          exact (h3.cons (e := .lost (.updateBegin _)) (by simp)).gated
        · obtain ⟨session, rfl⟩ : ∃ session, w2 = { w with session := session } := by
            rcases hw2 with ⟨-, h⟩ | ⟨-, h⟩
            · exact ⟨_, h⟩
            · exact ⟨_, h⟩
          have h4 := h3.done (c := .updateBegin (manifestFields body).imageSize.toInt.toNat)
            (by simp) ok
          cases ok with
          | false => exact hstop _ ⟨h4.1, h4.2⟩
          | true =>
            have h5 : Open w ({ w with session := session }, _) := ⟨h4.1, h4.2⟩
            refine wp_read_open (c := .millis) trivial hopen h5 fun (last : UInt32) h6 => ?_
            have hload := Loading.begun h6 (hopened len code)
            refine wp_bind_of (wp_ret_cut (wp_download passes hload)) (fun _ h => h.gated) ?_
            rintro (_ | got) ⟨w3, log3⟩ ⟨-, ho3, hfacts3, hgot⟩
            · exact hstop _ ho3
            · exact wp_finishUpdate hoffer hsize ho3 hfacts3 (hgot got rfl)
    · rw [if_pos hcode]
      exact hstop _ h2

/-- The last step of a poll sets a timer. -/
theorem wp_noteAttempt {o : Ota} {s : World × CallLog} (h : Gated crypto build time w s) :
    wp sem.logged o.noteAttempt (fun _ => Gated crypto build time w)
      (Gated crypto build time w) s := by
  have hcons : ∀ e : Entry Call Call.Reply, e.call ≠ .updateEnd →
      Gated crypto build time w (s.1, e :: s.2) := fun e he =>
    ⟨⟨fun h => absurd h he, h.1⟩, h.2.1.imp id fun h => called_cons.mpr (.inr h), h.2.2⟩
  unfold Ota.noteAttempt
  split
  · exact wp_read (c := .millis) trivial h (hcons _ (by simp)) fun _ => ⟨hcons _ (by simp), hcons _ (by simp)⟩
  · exact ⟨h, h⟩

/-- An authentic manifest carries the compiled key and a signature over its fields, and
was judged at a reading of the clock. -/
theorem wp_verifyManifestAuthenticity {f : SignedManifestFields} {keyId sigB64 : List Char}
    {log : CallLog} (ho : Open w (w, log)) :
    wp sem.logged (verifyManifestAuthenticity crypto build time f keyId sigB64)
      (fun verdict s => s.1 = w ∧ Open w s ∧ log ⊆ s.2 ∧ (verdict = .ok →
        keyId = build.keyId ∧ time.haveServerTime = true ∧
          verifySignature crypto f sigB64 = .ok ∧ ∃ now, .done .millis now ∈ s.2 ∧
            checkManifestTimeValidity f.issuedAt f.expiresAt (time.estimatedUnixNow now)
              otaManifestTimeSkewS = .ok))
      (Open w) (w, log) := by
  unfold verifyManifestAuthenticity
  by_cases hkey : keyId = build.keyId
  · rw [if_neg (not_not.mpr hkey)]
    by_cases htime : time.haveServerTime = true
    · rw [if_neg (not_not.mpr htime)]
      refine wp_read_open (c := .millis) trivial (fun _ hs => hs) ho fun (now : UInt32) h1 => ?_
      have hsub : log ⊆ .done .millis now :: log := List.subset_cons_self _ _
      change wp _ (if _ then _ else _) _ _ _
      split
      · exact ⟨h1, rfl, h1, hsub, fun h => by cases h⟩
      · next hcheck =>
        exact ⟨h1, rfl, h1, hsub, fun hsig =>
          ⟨hkey, htime, hsig, now, List.mem_cons_self, not_not.mp hcheck⟩⟩
    · rw [if_pos htime]
      exact ⟨ho, rfl, ho, List.Subset.refl _, fun h => by cases h⟩
  · rw [if_pos hkey]
    exact ⟨ho, rfl, ho, List.Subset.refl _, fun h => by cases h⟩

/-- A manifest that was accepted and found authentic is in order. -/
theorem Offered.of_verdicts {body : List Char} {floor : UInt32} {now : UInt32}
    (haccept : evaluateOtaCandidate (manifestFields body).candidate floor build.deviceModel
      build.schemaVersion = .accept)
    (hrequired : manifestHasRequiredFields (manifestFields body)
      (extractStr body "key_id".toList) (extractStr body "signature".toList) = true)
    (hkey : extractStr body "key_id".toList = build.keyId) (htime : time.haveServerTime = true)
    (hsig : verifySignature crypto (manifestFields body)
      (extractStr body "signature".toList) = .ok)
    (hwindow : checkManifestTimeValidity (manifestFields body).issuedAt
      (manifestFields body).expiresAt (time.estimatedUnixNow now) otaManifestTimeSkewS = .ok) :
    Offered crypto build time floor body now where
  signature := verifySignature_eq_ok.mp hsig
  keyId := hkey
  timeKnown := htime
  window := window_of_ok hwindow
  hwCompat := by
    have hne : (manifestFields body).hwCompat.isEmpty = false := by
      simp only [manifestHasRequiredFields, Bool.and_eq_true, Bool.not_eq_true'] at hrequired
      exact hrequired.2
    exact (accepted haccept).2 hne
  securityVersion := (accepted haccept).1

/-- The part of a poll behind the manifest's body. -/
theorem wp_pollBody {passes : ℕ} {o : Ota} {body : List Char} {log : CallLog}
    (ho : Open w (w, log)) (hbody : .done .httpString body ∈ log) :
    wp sem.logged (o.pollBody crypto build time passes body)
      (fun _ => Gated crypto build time w) (Gated crypto build time w) (w, log) := by
  have hstop : ∀ (o' : Ota) {log : CallLog}, Open w (w, log) →
      wp sem.logged (.ret o') (fun _ => Gated crypto build time w) (Gated crypto build time w)
        (w, log) := fun _ _ h => ⟨h.gated, h.gated⟩
  unfold Ota.pollBody
  by_cases hempty : (manifestFields body).version.isEmpty ∨ (manifestFields body).imageUrl.isEmpty
  · rw [if_pos hempty]
    exact hstop _ ho
  · rw [if_neg hempty]
    by_cases hsame : (manifestFields body).version = build.image.version
    · rw [if_pos hsame]
      exact hstop _ ho
    · rw [if_neg hsame]
      refine wp_logged_call ho.gated (fun w' hw' => ?_) fun (n : SecurityNvs) w' hw' => ?_
      · rw [show w' = w from hw']
        exact (ho.cons (e := .lost .nvs) (by simp)).gated
      · obtain ⟨rfl, rfl⟩ := hw'
        have h1 := ho.done (c := .nvs) (by simp) w'.nvs
        change wp _ (if _ then _ else _) _ _ _
        split
        · exact hstop _ h1
        · next haccept =>
          change wp _ (if _ then _ else _) _ _ _
          split
          · exact hstop _ h1
          · next hrequired =>
            rw [not_not] at haccept hrequired
            refine wp_bind_of (wp_verifyManifestAuthenticity h1) (fun _ h => h.gated) ?_
            rintro verdict ⟨w2, log2⟩ ⟨rfl, h2, hsub, hok⟩
            change wp _ (if _ then _ else _) _ _ _
            split
            · exact hstop _ h2
            · next hverdict =>
              obtain ⟨hkey, htime, hsig, now, hnow, hwindow⟩ := hok (not_not.mp hverdict)
              have hoffer := Offered.of_verdicts haccept hrequired hkey htime hsig hwindow
              have hsize : 0 ≤ (manifestFields body).imageSize.toInt := by
                have h : 0 ≤ (manifestFields body).imageSize := by
                  simp only [manifestHasRequiredFields, Bool.and_eq_true, decide_eq_true_eq]
                    at hrequired
                  exact hrequired.1.1.1.1.1.1.1.1
                exact Int32.le_iff_toInt_le.mp h
              have hfacts : [.done .httpString body, .done .millis now] ⊆ log2 := by
                simp [hnow, hsub (List.mem_cons_of_mem _ hbody)]
              exact wp_bind_of (wp_doVerifiedUpdate hoffer hsize h2 hfacts) (fun _ h => h)
                fun _ _ h => wp_noteAttempt h

/-- **One poll.** -/
theorem wp_poll {passes : ℕ} {o : Ota} {online : Bool} :
    wp sem.logged (o.poll crypto build time passes online)
      (fun _ => Gated crypto build time w) (Gated crypto build time w) (w, []) := by
  have hopen : ∀ s, Open w s → Gated crypto build time w s := fun _ hs => hs.gated
  have hstop : ∀ {log : CallLog}, Open w (w, log) →
      wp sem.logged (.ret o) (fun _ => Gated crypto build time w) (Gated crypto build time w)
        (w, log) := fun h => ⟨h.gated, h.gated⟩
  have h0 : Open w (w, []) := ⟨not_called_nil _, rfl, rfl⟩
  -- the part behind the retry window
  have hfetch : ∀ {log : CallLog}, Open w (w, log) → wp sem.logged (do
      let url ← Fw.serverUrl
      let began ← Fw.httpBegin (url ++ Ota.pathOtaManifest)
      if began then do
        let code ← Fw.httpGet
        if code ≠ 200 then return o
        else do
          let len ← Fw.httpSize
          if 4096 < len then return o
          else do
            let body ← Fw.httpString
            o.pollBody crypto build time passes body
      else return o)
      (fun _ => Gated crypto build time w) (Gated crypto build time w) (w, log) := by
    intro log h1
    refine wp_read_open (c := .serverUrl) trivial hopen h1 fun (url : List Char) h2 => ?_
    refine wp_read_open (c := .httpBegin _) trivial hopen h2 fun (began : Bool) h3 => ?_
    cases began with
    | false => exact hstop h3
    | true =>
      refine wp_read_open (c := .httpGet) trivial hopen h3 fun (code : ℤ) h4 => ?_
      change wp _ (if _ then _ else _) _ _ _
      split
      · exact hstop h4
      · refine wp_read_open (c := .httpSize) trivial hopen h4 fun (len : ℤ) h5 => ?_
        change wp _ (if _ then _ else _) _ _ _
        split
        · exact hstop h5
        · exact wp_read_open (c := .httpString) trivial hopen h5 fun (body : List Char) h6 =>
            wp_pollBody h6 List.mem_cons_self
  unfold Ota.poll Ota.waiting
  cases online with
  | false => exact hstop h0
  | true =>
    rw [if_pos rfl]
    by_cases hback : o.otaBackoffMs ≠ 0
    · rw [if_pos hback]
      refine wp_read_open (c := .millis) trivial hopen h0 fun (now : UInt32) h1 => ?_
      change wp _ (if _ then _ else _) _ _ _
      split
      · exact hstop h1
      · exact hfetch h1
    · rw [if_neg hback]
      exact hfetch h0

/-! ## The boot image and the floor -/

/-- Only a commit and a rollback move the boot image. -/
theorem wp_boot_moves (p : Fw α) (log : CallLog) :
    wp sem.logged p (fun _ _ => True)
      (fun s => s.1.boot = w.boot ∨ Called .updateEnd s.2 ∨ Called .rollbackAndReboot s.2)
      (w, log) := by
  suffices h : ∀ (w1 : World) (log : CallLog),
      (w1.boot = w.boot ∨ Called .updateEnd log ∨ Called .rollbackAndReboot log) →
      wp sem.logged p (fun _ _ => True)
        (fun s => s.1.boot = w.boot ∨ Called .updateEnd s.2 ∨ Called .rollbackAndReboot s.2)
        (w1, log) from h w log (.inl rfl)
  intro w1 log h
  induction p generalizing w1 log with
  | ret a => exact ⟨h, trivial⟩
  | call c k ih =>
    have hgrow : ∀ e : Entry Call Call.Reply, Called .updateEnd log ∨ Called .rollbackAndReboot log →
        Called .updateEnd (e :: log) ∨ Called .rollbackAndReboot (e :: log) := fun e h =>
      h.imp (fun h => called_cons.mpr (.inr h)) fun h => called_cons.mpr (.inr h)
    have hstep : ∀ (e : Entry Call Call.Reply) (w2 : World),
        (e.call = .updateEnd ∨ e.call = .rollbackAndReboot ∨ w2.boot = w1.boot) →
        w2.boot = w.boot ∨ Called .updateEnd (e :: log) ∨ Called .rollbackAndReboot (e :: log) := by
      rintro e w2 (he | he | hw2)
      · exact .inr (.inl (called_cons.mpr (.inl he)))
      · exact .inr (.inr (called_cons.mpr (.inl he)))
      · exact h.imp (fun h => hw2.trans h) (hgrow e)
    refine wp_logged_call h (fun w2 hw2 => hstep _ _ ?_) fun r w2 hw2 => ih r w2 _ (hstep _ _ ?_)
    · exact torn_boot hw2
    · exact reply_boot hw2

/-- A routine without commit and rollback leaves the boot image. -/
theorem wp_boot_kept {p : Fw α} (hp : p.Makes fun c => c ≠ .updateEnd ∧ c ≠ .rollbackAndReboot) :
    wp sem.logged p (fun _ _ => True) (fun s => ¬ Called .updateEnd s.2 ∧ s.1.boot = w.boot)
      (w, []) := by
  refine wp_mono (wp_and (hp.wp_logged w []) (wp_boot_moves p [])) (fun _ _ _ => trivial) ?_
  rintro s ⟨⟨new, hs, hnew⟩, hboot⟩
  rw [List.append_nil] at hs
  have hend : ¬ Called .updateEnd s.2 := fun ⟨e, he, hcall⟩ => (hnew e (hs ▸ he)).1 hcall
  have hback : ¬ Called .rollbackAndReboot s.2 := fun ⟨e, he, hcall⟩ =>
    (hnew e (hs ▸ he)).2 hcall
  exact ⟨hend, hboot.resolve_right fun h => h.elim hend hback⟩

/-- What a confirmation does to the floor: nothing, or it becomes the version of an image
above it. -/
def Raised (image : Image) (n n' : SecurityNvs) : Prop :=
  n'.secVer = n.secVer ∨ n.secVer.toInt32 < image.securityVersion ∧
    n'.secVer = image.securityVersion.toUInt32

theorem wp_confirmHealthyBoot_floor (o : Ota) (image : Image) :
    wp sem (o.confirmHealthyBoot image) (fun _ w' => Raised image w.nvs w'.nvs)
      (fun w' => Raised image w.nvs w'.nvs) w := by
  have hkept : ∀ w' : World, w'.nvs.secVer = w.nvs.secVer → Raised image w.nvs w'.nvs :=
    fun _ h => .inl h
  have hrecord : wp sem (Ota.recordHealthyBoot image) (fun _ w' => w'.nvs.secVer = w.nvs.secVer)
      (fun w' => w'.nvs.secVer = w.nvs.secVer) w := by
    simp only [Ota.recordHealthyBoot, Fw.putLastOkVer_bind, Fw.putLastOkSecVer_bind, Fw.nvs_bind,
      Prog.pure_eq_ret]
    refine wp_put (fun _ => Iff.rfl) (fun _ _ => Iff.rfl) rfl (fun _ => ?_) ⟨()⟩
    refine wp_put (fun _ => Iff.rfl) (fun _ _ => Iff.rfl) rfl (fun _ => wp_nvs ?_) ⟨()⟩
    split
    · exact wp_put (fun _ => Iff.rfl) (fun _ _ => Iff.rfl) rfl (fun _ => ⟨rfl, rfl⟩) ⟨()⟩
    · exact ⟨rfl, rfl⟩
  have hconfirm : wp sem (do
        Ota.recordHealthyBoot image
        Ota.advanceFloor image
        return { o with confirmed := true })
      (fun _ w' => Raised image w.nvs w'.nvs) (fun w' => Raised image w.nvs w'.nvs) w := by
    refine wp_bind_of hrecord hkept fun _ w1 h1 => ?_
    have hraised : ∀ w2 : World, Advanced image w1.nvs w2.nvs → Raised image w.nvs w2.nvs := by
      rintro w2 (h2 | ⟨hlt, h2⟩)
      · exact hkept w2 (h2 ▸ h1)
      · rw [h1] at hlt
        exact .inr ⟨hlt, by rw [h2]⟩
    exact wp_bind_of wp_advanceFloor hraised fun _ w2 h2 => ⟨hraised w2 h2, hraised w2 h2⟩
  unfold Ota.confirmHealthyBoot Ota.cancelRollback
  split
  · exact ⟨hkept w rfl, hkept w rfl⟩
  · split
    · refine wp_sense (fun _ h => h) (fun _ _ h => h) (hkept w rfl) fun (ok : Bool) => ?_
      cases ok with
      | false => exact ⟨hkept w rfl, hkept w rfl⟩
      | true => exact hconfirm
    · exact hconfirm

end Wp

/-! ## Runs -/

/-- A firmware: its build, and the cryptography with the key compiled into it. -/
structure Firmware where
  crypto : Crypto
  build : Build

/-- A running firmware. -/
structure RunningFirmware where
  fw : Firmware
  ota : Ota

/-- What happens on the update side between two boots. -/
inductive UpdateOp where
  /-- `loop()` polls: with the wall clock of the sync engine, the state of WiFi, and the
  number of passes the network allows the download loop. -/
  | poll (time : ServerTime) (online : Bool) (passes : ℕ) : UpdateOp
  | confirmHealthyBoot : UpdateOp
  | factoryReset : UpdateOp

/-- The operation as a routine. -/
def UpdateOp.run (r : RunningFirmware) : UpdateOp → Fw RunningFirmware
  | .poll time online passes => do
      let ota ← r.ota.poll r.fw.crypto r.fw.build time passes online
      return { r with ota := ota }
  | .confirmHealthyBoot => do
      let ota ← r.ota.confirmHealthyBoot r.fw.build.image
      return { r with ota := ota }
  | .factoryReset => do
      Fw.clear
      return r

/-- The device as the update side sees it.  Any firmware may boot. -/
def updateMachine : Machine Call Call.Reply World RunningFirmware Firmware UpdateOp where
  sem := sem
  boot fw := do
    let r ← setup fw.build.image
    return { fw := fw, ota := r.ota }
  op op r := op.run r
  env _ _ := False

/-- The calls of a poll pass the gate of the running firmware; other operations commit
nothing. -/
def UpdateOp.Commits (r : RunningFirmware) (floor : UInt32) (log : CallLog) : UpdateOp → Prop
  | .poll time _ _ => Passes r.fw.crypto r.fw.build time floor log
  | _ => False

/-- What holds at every moment of an operation. -/
structure OpGated (op : UpdateOp) (r : RunningFirmware) (w : World) (s : World × CallLog) :
    Prop where
  gate : EveryEnd (fun log => op.Commits r w.nvs.secVer log) s.2
  boot : s.1.boot = w.boot ∨ Called .updateEnd s.2
  floor : w.nvs.secVer ≤ s.1.nvs.secVer

/-- What holds at every moment of a boot. -/
structure BootGated (w : World) (s : World × CallLog) : Prop where
  gate : ¬ Called .updateEnd s.2
  boot : s.1.boot = w.boot ∨ Called .rollbackAndReboot s.2
  floor : s.1.nvs.secVer = w.nvs.secVer

/-- The stored floor, read as a `long`, is not negative. -/
def FloorInRange (w : World) : Prop := 0 ≤ w.nvs.secVer.toInt32

theorem Raised.le {image : Image} {n n' : SecurityNvs} (h : Raised image n n')
    (hn : 0 ≤ n.secVer.toInt32) : n.secVer ≤ n'.secVer ∧ 0 ≤ n'.secVer.toInt32 := by
  rcases h with h | ⟨hlt, h⟩
  · rw [h]
    exact ⟨UInt32.le_refl _, hn⟩
  · have himage : 0 ≤ image.securityVersion := Int32.le_trans hn (Int32.le_of_lt hlt)
    have hfloor : n.secVer.toNat = n.secVer.toInt32.toNatClampNeg := by
      rw [← Int32.toNat_toUInt32_of_le hn, UInt32.toUInt32_toInt32]
    rw [h, Int32.toInt32_toUInt32]
    refine ⟨?_, himage⟩
    rw [UInt32.le_iff_toNat_le, Int32.toNat_toUInt32_of_le himage, hfloor]
    exact Int.toNat_le_toNat (Int32.le_iff_toInt_le.mp (Int32.le_of_lt hlt))

section Runs

variable {w : World}

theorem makes_confirmHealthyBoot (o : Ota) (image : Image) :
    (o.confirmHealthyBoot image).Makes fun c => c ≠ .updateEnd ∧ c ≠ .rollbackAndReboot := by
  have hconfirm : (do
        Ota.recordHealthyBoot image
        Ota.advanceFloor image
        return { o with confirmed := true } : Fw Ota).Makes
      fun c => c ≠ .updateEnd ∧ c ≠ .rollbackAndReboot := by
    refine ⟨by simp, fun _ => ⟨by simp, fun _ => ⟨by simp, fun n => ?_⟩⟩⟩
    have hadvance : ∀ a : Unit, (do
          Ota.advanceFloor image
          return { o with confirmed := true } : Fw Ota).Makes
        fun c => c ≠ .updateEnd ∧ c ≠ .rollbackAndReboot := by
      refine fun _ => ⟨by simp, fun n => Prog.Makes.bind ?_ fun _ => trivial⟩
      change Prog.Makes _ (if _ then _ else _)
      split
      · exact ⟨by simp, fun _ => trivial⟩
      · trivial
    refine Prog.Makes.bind ?_ hadvance
    change Prog.Makes _ (if _ then _ else _)
    split
    · exact ⟨by simp, fun _ => trivial⟩
    · trivial
  unfold Ota.confirmHealthyBoot Ota.cancelRollback
  split
  · trivial
  · split
    · refine ⟨by simp, fun (ok : Bool) => ?_⟩
      cases ok with
      | false => trivial
      | true => exact hconfirm
    · exact hconfirm

theorem makes_boot (fw : Firmware) : (updateMachine.boot fw).Makes (· ≠ .updateEnd) := by
  have hstreak : (setupStreak fw.build.image).Makes (· ≠ .updateEnd) := by
    refine ⟨by simp, fun (n : SecurityNvs) => ?_⟩
    change Prog.Makes _ (if _ then _ else _)
    split
    · refine ⟨by simp, fun (n : SecurityNvs) => ⟨by simp, fun _ => ⟨by simp, fun n => ?_⟩⟩⟩
      change Prog.Makes _ (if _ then _ else _)
      split
      · exact ⟨by simp, fun _ => trivial⟩
      · trivial
    · trivial
  refine Prog.Makes.bind (Prog.Makes.bind hstreak fun _ => ⟨by simp, ?_⟩) fun _ => trivial
  rintro (_ | pending)
  · trivial
  · trivial

/-- **A boot commits nothing** and leaves the floor. -/
theorem wp_boot (fw : Firmware) :
    wp sem.logged (updateMachine.boot fw) (fun _ s => s.1.nvs.secVer = w.nvs.secVer)
      (BootGated w) (w, []) := by
  have hfloor : wp sem (updateMachine.boot fw) (fun _ w' => w'.nvs.secVer = w.nvs.secVer)
      (fun w' => w'.nvs.secVer = w.nvs.secVer) w := by
    have hbooted : ∀ w' : World, Booted fw.build.image w.nvs w'.nvs →
        w'.nvs.secVer = w.nvs.secVer := by
      rintro w' (h | ⟨-, h⟩)
      · rw [h]
      · rw [h]
    refine wp_bind_of (wp_ret_cut wp_setup) hbooted ?_
    rintro r w' ⟨h, -⟩
    exact ⟨hbooted w' h, hbooted w' h⟩
  refine wp_mono (wp_and (wp_and ((makes_boot fw).wp_logged w []) (wp_boot_moves _ []))
    (wp_logged_iff.mpr hfloor)) (fun _ _ h => h.2) ?_
  rintro s ⟨⟨⟨new, hs, hnew⟩, hboot⟩, hsec⟩
  rw [List.append_nil] at hs
  have hend : ¬ Called .updateEnd s.2 := fun ⟨e, he, hcall⟩ => hnew e (hs ▸ he) hcall
  exact ⟨hend, hboot.imp id fun h => h.resolve_left hend, hsec⟩

/-- **An operation commits only what passes the gate**, and lowers no floor. -/
theorem wp_op (op : UpdateOp) {r : RunningFirmware} (hw : FloorInRange w) :
    wp sem.logged (op.run r) (fun _ s => OpGated op r w s ∧ FloorInRange s.1)
      (fun s => OpGated op r w s ∧ FloorInRange s.1) (w, []) := by
  cases op with
  | poll time online passes =>
    have hgated : ∀ s : World × CallLog, Gated r.fw.crypto r.fw.build time w s →
        OpGated (.poll time online passes) r w s ∧ FloorInRange s.1 := by
      rintro s ⟨hgate, hboot, hnvs⟩
      refine ⟨⟨hgate, hboot, ?_⟩, ?_⟩
      · rw [hnvs]
        exact UInt32.le_refl _
      · unfold FloorInRange
        rw [hnvs]
        exact hw
    exact wp_map (wp_mono wp_poll (fun _ => hgated) hgated)
  | confirmHealthyBoot =>
    have hgated : ∀ s : World × CallLog, (¬ Called .updateEnd s.2 ∧ s.1.boot = w.boot) ∧
        Raised r.fw.build.image w.nvs s.1.nvs →
        OpGated .confirmHealthyBoot r w s ∧ FloorInRange s.1 := fun s h =>
      ⟨⟨everyEnd_of_not_called h.1.1, .inl h.1.2, (h.2.le hw).1⟩, (h.2.le hw).2⟩
    have hkept := wp_boot_kept (w := w) (makes_confirmHealthyBoot r.ota r.fw.build.image)
    have hfloor := wp_confirmHealthyBoot_floor (w := w) r.ota r.fw.build.image
    refine wp_map (wp_mono (wp_ret_cut (wp_and hkept (wp_logged_iff.mpr hfloor)))
      (fun _ s h => hgated s h.1) hgated)
  | factoryReset =>
    have hgated : ∀ e : List (Entry Call Call.Reply), ¬ Called .updateEnd e →
        OpGated .factoryReset r w (w, e) ∧ FloorInRange w := fun e he =>
      ⟨⟨everyEnd_of_not_called he, .inl rfl, UInt32.le_refl _⟩, hw⟩
    refine wp_read (c := .clear) trivial (hgated _ (not_called_nil _)) (hgated _ ?_) fun _ =>
      ⟨hgated _ ?_, hgated _ ?_⟩
    all_goals simp [Entry.call, not_called_nil]

end Runs

end Upgrade
end CovioFirmware
