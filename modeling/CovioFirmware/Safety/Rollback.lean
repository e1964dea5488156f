import CovioFirmware.Upgrade.Health

/-!
# When `setup()` gives up on an image

`setup()` rolls back once the stored count of unhealthy boots has reached
`UNHEALTHY_BOOT_STREAK_LIMIT`.  The count is meant for the running image, but it
is one number for all of them: a boot of another image goes on counting where the
last one stopped, unless a confirmation emptied the count in between.

So the rollback strikes an image that has itself failed often enough exactly as
long as the count is only ever carried from one boot to the next of the same
version pair (`CountsOneImage`).  In runs whose boots all find it so, the stored
count is at most the number of boots in a row, up to the latest, of the version
pair on trial (`Inv`), and the rollback is justified (`rollback_justified`).
Without the condition a freshly installed image is rolled back at its first boot
(`fresh_image_rolled_back`).
-/

namespace CovioFirmware
namespace Upgrade

open Crash

/-- A boot, with whether a confirmation completed in it. -/
structure Boot where
  image : Image
  confirmed : Bool

/-- The number of boots in a row, up to the latest, of this version pair and
without a confirmation.  The latest boot comes first. -/
def failedBoots (image : Image) : List Boot → ℕ
  | [] => 0
  | b :: h => if b.image = image ∧ b.confirmed = false then failedBoots image h + 1 else 0

/-- The latest boot has been confirmed. -/
def markConfirmed : List Boot → List Boot
  | [] => []
  | b :: h => { b with confirmed := true } :: h

/-- The operation on a running image: some part of `loop()` calls
`confirmHealthyBoot`. -/
inductive HealthOp where
  | confirmHealthyBoot : HealthOp

/-- The device as boot health sees it.  Which image boots is up to the
surroundings: installations, rollbacks and reflashes happen between boots. -/
def healthMachine : Machine Call Call.Reply World Running Image HealthOp where
  sem := sem
  boot := setup
  op
    | .confirmHealthyBoot, r => do
        let ota ← r.ota.confirmHealthyBoot r.image
        return { r with ota := ota }
  env _ _ := False

/-- The boots so far. -/
def boots : Action Image HealthOp → Node Running World → Node Running World → List Boot → List Boot
  | .boot image, _, _, h => ⟨image, false⟩ :: h
  | .op _, _, .on r _, h => if r.ota.confirmed then markConfirmed h else h
  | _, _, _, h => h

/-- A device whose security namespace has never been written. -/
def Fresh (n : Node Running World) (h : List Boot) : Prop :=
  ∃ b, n = .off ⟨SecurityNvs.empty, none, b⟩ ∧ h = []

/-- A boot on trial finds the count empty, or belongs to the version pair that
booted last. -/
def CountsOneImage (a : Action Image HealthOp) (n : Node Running World) (h : List Boot) : Prop :=
  ∀ image, a = .boot image → n.store.nvs.onTrial image = true →
    h.head?.map Boot.image = some image ∨ n.store.nvs.unhealthyStreak = 0

/-- In no run of the boot of `image` from `w` does `setup()` ask for a rollback,
unless the image has failed `UNHEALTHY_BOOT_STREAK_LIMIT` boots in a row. -/
def RollbackJustified (image : Image) (w : World) (h : List Boot) : Prop :=
  ∀ w' log, Cuts sem.logged (setup image) (w, []) (w', log) → Called .rollbackAndReboot log →
    unhealthyBootStreakLimit.toNat ≤ failedBoots image (⟨image, false⟩ :: h)

/-! ## When the rollback is asked for -/

/-- Reading the boot state asks for no rollback. -/
theorem makes_noteBoot (o : Ota) (image : Image) :
    (do
      let ota ← o.noteBoot
      return ({ image := image, ota := ota } : Running) : Fw Running).Makes
      (· ≠ .rollbackAndReboot) := by
  refine ⟨by simp, fun state => ?_⟩
  cases state with
  | none => trivial
  | some pending => trivial

/-- **What the unhealthy-boot block does.**  `setup()` asks for a rollback only if
the image is on trial and its boot brings the count to the limit. -/
theorem of_called_rollback {image : Image} {w w' : World} {log : List (Entry Call Call.Reply)}
    (hcut : Cuts sem.logged (setup image) (w, []) (w', log))
    (hcall : Called .rollbackAndReboot log) :
    w.nvs.onTrial image = true ∧ unhealthyBootStreakLimit ≤ w.nvs.unhealthyStreak + 1 := by
  by_contra hno
  -- nothing in the log so far is the rollback, and the rest of the boot adds none
  have hrest : ∀ w1 log, ¬ Called .rollbackAndReboot log →
      wp sem.logged (do
        let ota ← Ota.noteBoot {}
        return ({ image := image, ota := ota } : Running) : Fw Running) (fun _ _ => True)
        (fun s => ¬ Called .rollbackAndReboot s.2) (w1, log) := by
    intro w1 log hlog
    refine wp_mono ((makes_noteBoot {} image).wp_logged w1 log) (fun _ _ _ => trivial) ?_
    rintro s ⟨new, hnew, hs⟩ ⟨e, he, hcall⟩
    rw [hnew] at he
    rcases List.mem_append.mp he with he | he
    · exact hs e he hcall
    · exact hlog ⟨e, he, hcall⟩
  have hstreak : wp sem.logged (setupStreak image) (fun _ s => ¬ Called .rollbackAndReboot s.2)
      (fun s => ¬ Called .rollbackAndReboot s.2) (w, []) := by
    simp only [setupStreak, Fw.nvs_bind, Fw.putUnhealthyStreak_bind, Prog.pure_eq_ret]
    refine wp_logged_call (not_called_nil _) (fun _ _ => by simp [Entry.call, not_called_nil]) ?_
    rintro n w1 ⟨hn, hw1⟩
    rw [hn, hw1]
    by_cases htrial : w.nvs.onTrial image = true
    · rw [if_pos htrial]
      refine wp_logged_call (by simp [Entry.call, not_called_nil])
        (fun _ _ => by simp [Entry.call, not_called_nil]) ?_
      rintro n w1 ⟨hn, hw1⟩
      rw [hn, hw1]
      refine wp_logged_call (by simp [Entry.call, not_called_nil])
        (fun _ _ => by simp [Entry.call, not_called_nil]) ?_
      rintro _ w1 hw1
      refine wp_logged_call (by simp [Entry.call, not_called_nil])
        (fun _ _ => by simp [Entry.call, not_called_nil]) ?_
      rintro n w2 ⟨hn, -⟩
      have hlt : ¬ unhealthyBootStreakLimit ≤ SecurityNvs.unhealthyStreak n := by
        rw [hn, show w1 = _ from hw1]
        exact fun h => hno ⟨htrial, h⟩
      rw [if_neg hlt]
      simp [Entry.call, not_called_nil]
    · rw [if_neg htrial]
      simp [Entry.call, not_called_nil]
  exact (wp_bind_of hstreak (fun _ h => h) fun _ s h => hrest s.1 s.2 h).cuts hcut hcall

/-! ## The count -/

/-- The version pair that booted last, if it is on trial, has failed at least as
many boots in a row as are counted. -/
def CountedBoots (w : World) (h : List Boot) : Prop :=
  (h = [] → w.nvs.unhealthyStreak = 0) ∧
    ∀ b h', h = b :: h' → w.nvs.onTrial b.image = true →
      w.nvs.unhealthyStreak.toNat ≤ failedBoots b.image h

/-- The same of a running image, with what it remembers of its confirmation. -/
def CountedRun (r : Running) (w : World) (h : List Boot) : Prop :=
  (∃ b h', h = b :: h' ∧ b.image = r.image) ∧ CountedBoots w h ∧
    (r.ota.confirmed = true → w.nvs.unhealthyStreak = 0)

/-- A boot that may count itself finds no more failed boots counted than it has. -/
theorem CountedBoots.le {w : World} {h : List Boot} (hinv : CountedBoots w h) {image : Image}
    (hok : CountsOneImage (.boot image) (.off w) h) (htrial : w.nvs.onTrial image = true) :
    w.nvs.unhealthyStreak.toNat ≤ failedBoots image h := by
  rcases hok image rfl htrial with hlast | hzero
  · cases h with
    | nil => simp at hlast
    | cons b h' =>
      obtain rfl : b.image = image := by simpa using hlast
      exact hinv.2 b h' rfl htrial
  · rw [show w.nvs.unhealthyStreak = 0 from hzero]
    exact Nat.zero_le _

theorem failedBoots_boot (image : Image) (h : List Boot) :
    failedBoots image (⟨image, false⟩ :: h) = failedBoots image h + 1 :=
  if_pos ⟨rfl, rfl⟩

theorem succ_toNat_le (n : UInt32) : (n + 1).toNat ≤ n.toNat + 1 := by
  rw [UInt32.toNat_add]
  exact Nat.mod_le _ _

theorem CountedBoots.booted {w w' : World} {h : List Boot} (hinv : CountedBoots w h)
    {image : Image} (hok : CountsOneImage (.boot image) (.off w) h)
    (hw' : Booted image w.nvs w'.nvs) : CountedBoots w' (⟨image, false⟩ :: h) := by
  refine ⟨fun h => absurd h (List.cons_ne_nil _ _), fun b h' hb htrial => ?_⟩
  obtain ⟨rfl, rfl⟩ := List.cons.inj hb
  rw [failedBoots_boot]
  rcases hw' with hw' | ⟨-, hw'⟩
  · rw [hw'] at htrial ⊢
    exact Nat.le_succ_of_le (hinv.le hok htrial)
  · rw [hw'] at htrial ⊢
    exact (succ_toNat_le _).trans (Nat.succ_le_succ (hinv.le hok htrial))

/-- **The invariant.**  In runs whose boots all find the count empty or their own,
the count belongs to the version pair that booted last. -/
theorem counted_of_reach {n : Node Running World} {h : List Boot}
    (hreach : Reach healthMachine CountsOneImage boots Fresh n h) :
    n.Holds CountedBoots CountedRun h := by
  refine Reach.invariant ?_ ?_ ?_ (fun _ _ _ _ (he : False) => he.elim) hreach
  · rintro n h ⟨b, rfl, rfl⟩
    exact ⟨fun _ => rfl, fun _ _ h => absurd h.symm (List.cons_ne_nil _ _)⟩
  · intro image w h hok hinv
    refine wp_mono wp_setup ?_ fun w' hw' => hinv.booted hok hw'
    rintro r w' ⟨himage, hconf, hw'⟩
    refine ⟨⟨_, _, rfl, himage.symm⟩, hinv.booted hok ?_, fun h => by simp [hconf] at h⟩
    rw [hw']
    split
    · next htrial => exact .inr ⟨htrial, rfl⟩
    · exact .inl rfl
  · rintro ⟨⟩ r w h - ⟨⟨b, h', rfl, hb⟩, hinv, hconf⟩
    have hkeep : ∀ w' : World, Confirming r.image w.nvs w'.nvs →
        CountedBoots w' (b :: h') := by
      rintro w' ⟨htrial', hstreak⟩
      refine ⟨fun h => absurd h (List.cons_ne_nil _ _), fun b1 h1 hb1 htrial => ?_⟩
      obtain ⟨rfl, rfl⟩ := List.cons.inj hb1
      rcases hstreak with hstreak | hstreak
      · rw [hstreak]
        exact hinv.2 b h' rfl (hb ▸ htrial' (hb ▸ htrial))
      · rw [hstreak]
        exact Nat.zero_le _
    refine wp_map (wp_mono (wp_confirmHealthyBoot hconf) ?_ hkeep)
    rintro o w' ⟨hw', hzero⟩
    change CountedRun _ _ (if o.confirmed then markConfirmed (b :: h') else b :: h')
    split
    · next ho =>
      -- a confirmed boot ends the row of failed ones, and the count with it
      refine ⟨⟨_, _, rfl, hb⟩, ⟨fun h => absurd h (List.cons_ne_nil _ _), fun b1 h1 _ _ => ?_⟩, hzero⟩
      rw [hzero ho]
      exact Nat.zero_le _
    · exact ⟨⟨b, h', rfl, hb⟩, hkeep w' hw', hzero⟩

/-- **`setup()` gives up only on an image that has failed often enough**, in runs
in which every boot on trial finds the count empty or its own. -/
theorem rollback_justified {w : World} {h : List Boot}
    (hreach : Reach healthMachine CountsOneImage boots Fresh (.off w) h) {image : Image}
    (hok : CountsOneImage (.boot image) (.off w) h) : RollbackJustified image w h := by
  intro w' log hcut hcall
  have hinv : CountedBoots w h := counted_of_reach hreach
  obtain ⟨htrial, hlimit⟩ := of_called_rollback hcut hcall
  calc unhealthyBootStreakLimit.toNat
      ≤ (w.nvs.unhealthyStreak + 1).toNat := UInt32.le_iff_toNat_le.mp hlimit
    _ ≤ w.nvs.unhealthyStreak.toNat + 1 := succ_toNat_le _
    _ ≤ failedBoots image h + 1 := Nat.succ_le_succ (hinv.le hok htrial)
    _ = failedBoots image (⟨image, false⟩ :: h) := (failedBoots_boot image h).symm

/-! ## Runs -/

/-- The image of the source. -/
def covio140 : Image := ⟨"1.4.0".toList, 2⟩

/-- A device never used. -/
def freshWorld : World := ⟨SecurityNvs.empty, none, []⟩

/-- An image that boots and loses power before anything confirms it. -/
theorem reach_failed_boot {ok : Action Image HealthOp → Node Running World → List Boot → Prop}
    {w : World} {h : List Boot} (hreach : Reach healthMachine ok boots Fresh (.off w) h)
    {image : Image} (hok : ok (.boot image) (.off w) h) :
    Reach healthMachine ok boots Fresh (.off (execute (setup image) w).2)
      (⟨image, false⟩ :: h) :=
  .step (a := .boot image) hreach hok (.bootCut (execute_runs (setup image) w).cuts)

/-- The third failed boot in a row of one image asks for a rollback, and may. -/
theorem third_failed_boot_justified :
    let w := (execute (setup covio140) (execute (setup covio140) freshWorld).2).2
    RollbackJustified covio140 w [⟨covio140, false⟩, ⟨covio140, false⟩] := by
  refine rollback_justified ?_ fun _ hb _ => .inl (by cases hb; rfl)
  refine reach_failed_boot ?_ fun _ hb _ => .inl (by cases hb; rfl)
  refine reach_failed_boot (.init ⟨[], rfl, rfl⟩) fun _ hb _ => .inr rfl

/-- Two failed boots of one image, then the first boot of another: the rollback
strikes an image that has failed no boot yet. -/
theorem fresh_image_rolled_back :
    ∃ w h, Reach healthMachine (fun _ _ _ => True) boots Fresh (.off w) h ∧
      ¬ RollbackJustified ⟨"1.5.0".toList, 2⟩ w h := by
  let w := (execute (setup covio140) (execute (setup covio140) freshWorld).2).2
  let image : Image := ⟨"1.5.0".toList, 2⟩
  refine ⟨w, [⟨covio140, false⟩, ⟨covio140, false⟩], ?_, fun hjust => ?_⟩
  · refine reach_failed_boot ?_ trivial
    exact reach_failed_boot (.init ⟨[], rfl, rfl⟩) trivial
  · have hrun := Prog.exec_logged_runs (M := sem) respond_reply (setup image) (w, [])
    refine absurd (hjust _ _ hrun.cuts (by decide +kernel)) ?_
    decide

end Upgrade
end CovioFirmware
