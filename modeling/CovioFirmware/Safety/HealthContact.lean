import CovioFirmware.Crash.Log
import CovioFirmware.Device.Main

/-!
# Confirming an image only after the server was reached

`loop()` confirms the running image from two places.  After a push it asks whether
the queue was acknowledged, which takes an answer of the server with a readable
`ack_seq`.  After a configuration poll it asks only whether WiFi is up, and
`pollConfig` does not say whether the poll succeeded: a poll that fails on a device
that is online confirms the image although the server was never reached.

`ConfigProven` is the condition on the surroundings under which the second question
is as good as the first: whenever WiFi is up right after a configuration poll that
failed, the server had been reached before.  Under it every confirmation follows a
contact (`confirmed_after_contact`); without it the first confirmation can come with
no contact at all (`confirmed_without_contact`).
-/

namespace CovioFirmware
namespace Device

open Crash

/-- The calls of a boot so far, latest first. -/
abbrev CallLog := List (Entry Call Call.Reply)

/-- The server was reached: a push response with an `ack_seq`, or a configuration
response with status 200. -/
def isContact : Entry Call Call.Reply → Bool
  | .done (.post _) r => decide (HttpReply.code r = 200 ∧ 0 ≤ Sync.ackSeq (HttpReply.body r))
  | .done .get r => decide (HttpReply.code r = 200)
  | _ => false

/-- How a configuration poll that fails ends: WiFi was down, the request could not
be started, or it was not answered with 200. -/
def pollFailed : Entry Call Call.Reply → Bool
  | .done .online r => not r
  | .done .httpBegin r => not r
  | .done .get r => decide (HttpReply.code r ≠ 200)
  | _ => false

/-- WiFi was found up. -/
def wifiUp : Entry Call Call.Reply → Bool
  | .done .online r => r
  | _ => false

/-- Every confirmation comes after a contact. -/
def Justified : CallLog → Prop
  | [] => True
  | e :: log => (e.call = .confirmHealthyBoot → ∃ c ∈ log, isContact c) ∧ Justified log

/-- If the latest call ended a configuration poll that failed, a contact came
before. -/
def FailureCovered : CallLog → Prop
  | [] => True
  | f :: rest => pollFailed f → ∃ c ∈ rest, isContact c

/-- Whenever WiFi is up right after a failed configuration poll, a contact came
before. -/
def ConfigProven : CallLog → Prop
  | [] => True
  | e :: log => (wifiUp e → FailureCovered log) ∧ ConfigProven log

instance Justified.decidable : DecidablePred Justified
  | [] => isTrue trivial
  | e :: log =>
      have : Decidable (Justified log) := Justified.decidable log
      inferInstanceAs (Decidable ((e.call = .confirmHealthyBoot → ∃ c ∈ log, isContact c) ∧
        Justified log))

instance : DecidablePred FailureCovered
  | [] => isTrue trivial
  | f :: rest => inferInstanceAs (Decidable (pollFailed f → ∃ c ∈ rest, isContact c))

instance ConfigProven.decidable : DecidablePred ConfigProven
  | [] => isTrue trivial
  | e :: log =>
      have : Decidable (ConfigProven log) := ConfigProven.decidable log
      inferInstanceAs (Decidable ((wifiUp e → FailureCovered log) ∧ ConfigProven log))

/-- What is to be shown of every log. -/
def Sound (log : CallLog) : Prop := ConfigProven log → Justified log

theorem ConfigProven.of_append {new log : CallLog} (h : ConfigProven (new ++ log)) :
    ConfigProven log := by
  induction new with
  | nil => exact h
  | cons e new ih => exact ih h.2

theorem Justified.append {new log : CallLog} (h : Justified log)
    (hnew : ∀ e ∈ new, e.call ≠ .confirmHealthyBoot) : Justified (new ++ log) := by
  induction new with
  | nil => exact h
  | cons e new ih =>
    have he := hnew e List.mem_cons_self
    exact ⟨fun hc => absurd hc he, ih fun f hf => hnew f (List.mem_cons_of_mem _ hf)⟩

theorem Sound.append {new log : CallLog} (h : Sound log)
    (hnew : ∀ e ∈ new, e.call ≠ .confirmHealthyBoot) : Sound (new ++ log) :=
  fun hp => (h hp.of_append).append hnew

theorem Sound.cons {e : Entry Call Call.Reply} {log : CallLog} (h : Sound log)
    (he : e.call ≠ .confirmHealthyBoot) : Sound (e :: log) :=
  show Sound ([e] ++ log) from h.append fun f hf => by rwa [List.mem_singleton.mp hf]

theorem Sound.done {c : Call} {log : CallLog} (h : Sound log) (hc : c ≠ .confirmHealthyBoot)
    (r : c.Reply) : Sound (.done c r :: log) := h.cons hc

theorem Sound.lost {c : Call} {log : CallLog} (h : Sound log) (hc : c ≠ .confirmHealthyBoot) :
    Sound (.lost c :: log) := h.cons hc

/-- A confirmation after a contact. -/
theorem Sound.confirm {e : Entry Call Call.Reply} {log : CallLog} (h : Sound log)
    (hc : ConfigProven log → ∃ c ∈ log, isContact c) : Sound (e :: log) :=
  fun hp => ⟨fun _ => hc hp.2, h hp.2⟩

variable {ε : Type} {E : Env ε} {α : Type}

/-- A routine that does not confirm. -/
theorem wp_sound {p : Fw α} (hp : p.Makes (· ≠ .confirmHealthyBoot)) {w : World ε} {log : CallLog}
    (h : Sound log) :
    wp (sem E).logged p (fun _ s => Sound s.2) (fun s => Sound s.2) (w, log) := by
  have happend : ∀ l : CallLog, (∃ new, l = new ++ log ∧ ∀ e ∈ new, e.call ≠ .confirmHealthyBoot) →
      Sound l := by
    rintro _ ⟨new, rfl, hnew⟩
    exact h.append hnew
  exact wp_mono (hp.wp_logged w log) (fun _ s hs => happend s.2 hs) fun s hs => happend s.2 hs

/-! ## The routines that do not confirm -/

theorem Call.Senses.ne_confirm {c : Call} (h : c.Senses) : c ≠ .confirmHealthyBoot := by
  rintro rfl
  exact h

theorem Totalizer.service_ne_confirm (t : Totalizer) (seq : UInt32) :
    (t.service seq).Makes (· ≠ .confirmHealthyBoot) :=
  makes_service (fun _ h => h.ne_confirm) (fun _ _ => by simp) t seq

theorem Globals.telemetryCycle_ne_confirm (d : Globals) (s : Sample) :
    (d.telemetryCycle s).Makes (· ≠ .confirmHealthyBoot) := by
  have htotal : d.tot.total.Makes (· ≠ .confirmHealthyBoot) := .call (by simp) fun _ => trivial
  refine htotal.bind fun _ => Prog.Makes.bind ?_ fun r => ?_
  · exact EventQueue.makes_append (fun _ h => h.1.ne_confirm) (fun _ => by simp) (fun _ _ => by simp)
      (fun _ _ => by simp) (fun _ _ => by simp) (fun _ _ => by simp) _ _ _
  · exact (Totalizer.service_ne_confirm _ _).bind fun _ => trivial

namespace Sync

theorem pushOnce_ne_confirm (s : Sync) (d : Globals) :
    (s.pushOnce d).Makes (· ≠ .confirmHealthyBoot) :=
  makes_pushOnce (fun _ h => h.1.ne_confirm) (fun _ => by simp) (fun _ _ => by simp)
    (fun _ => by simp) s d

end Sync

/-! ## The two questions -/

theorem exists_contact_append {new log : CallLog} (h : ∃ c ∈ log, isContact c) :
    ∃ c ∈ new ++ log, isContact c := by
  obtain ⟨c, hc, hcontact⟩ := h
  exact ⟨c, List.mem_append_right new hc, hcontact⟩

/-- Once the server has been reached it stays so. -/
theorem wp_contact (p : Fw α) {w : World ε} {log : CallLog} (h : ∃ c ∈ log, isContact c) :
    wp (sem E).logged p (fun _ s => ∃ c ∈ s.2, isContact c) (fun _ => True) (w, log) := by
  refine wp_mono (wp_logged_append p w log) (fun _ s hs => ?_) fun _ _ => trivial
  obtain ⟨new, hnew⟩ := hs
  rw [hnew]
  exact exists_contact_append h

/-- A routine whose result does not matter. -/
theorem wp_any (p : Fw α) (Q : α → World ε × CallLog → Prop) (hQ : ∀ a s, Q a s)
    (s : World ε × CallLog) : wp (sem E).logged p Q (fun _ => True) s :=
  wp_mono ((Prog.Returns.trivial p).wp s) (fun a s _ => hQ a s) fun _ h => h

/-- **The first question is sound**: a push that acknowledges has had an answer. -/
theorem Sync.wp_pushOnce_contact (s : Sync) (d : Globals) (w : World ε) (log : CallLog) :
    wp (sem E).logged (s.pushOnce d) (fun r s' => r.1 = true → ∃ c ∈ s'.2, isContact c)
      (fun _ => True) (w, log) := by
  simp only [pushOnce, Fw.online_bind, Fw.files_bind, Prog.pure_eq_ret]
  refine wp_logged_call trivial (fun _ _ => trivial) fun (on : Bool) w1 _ => ?_
  cases on with
  | false => exact ⟨trivial, fun h => absurd h (by simp)⟩
  | true =>
    refine wp_bind_of (wp_logged_append s.backingOff w1 _) (fun _ _ => trivial) ?_
    rintro (wait : Bool) ⟨w2, log2⟩ -
    cases wait with
    | true => exact ⟨trivial, fun h => absurd h (by simp)⟩
    | false =>
      refine wp_logged_call trivial (fun _ _ => trivial) fun fs w3 _ => ?_
      cases (d.pending fs pushBatchMax).getLast? with
      | none => exact ⟨trivial, fun h => absurd h (by simp)⟩
      | some last =>
        simp only [send, Fw.httpBegin_bind, Fw.post_bind, Prog.pure_eq_ret]
        refine wp_logged_call trivial (fun _ _ => trivial) fun (began : Bool) w4 _ => ?_
        cases began with
        | false => exact ⟨trivial, fun h => absurd h (by simp)⟩
        | true =>
          refine wp_logged_call trivial (fun _ _ => trivial) fun (r : HttpReply) w5 _ => ?_
          by_cases hr : r.code = 200 ∧ 0 ≤ ackSeq r.body
          · rw [if_pos hr]
            refine wp_map (wp_mono (wp_contact (s.acknowledge d last r.body)
              ⟨_, List.mem_cons_self, ?_⟩) (fun _ _ h _ => h) fun _ h => h)
            exact decide_eq_true hr
          · rw [if_neg hr]
            exact wp_map (wp_any _ _ (fun _ _ h => absurd h (by simp)) _)

/-- What a configuration poll leaves behind: a contact, or its failure as the latest
call. -/
def Polled (log : CallLog) : Prop :=
  (∃ c ∈ log, isContact c) ∨ ∃ f rest, log = f :: rest ∧ pollFailed f

theorem Sync.wp_pollConfig {w : World ε} {log : CallLog} (h : Sound log) :
    wp (sem E).logged pollConfig (fun _ s => Sound s.2 ∧ Polled s.2) (fun s => Sound s.2)
      (w, log) := by
  simp only [pollConfig, Fw.online_bind, Fw.httpBegin_bind, Fw.get_bind, Prog.pure_eq_ret]
  refine wp_logged_call h (fun _ _ => h.lost (by simp)) fun (on : Bool) w1 _ => ?_
  have h1 : Sound (.done .online on :: log) := h.done (by simp) _
  cases on with
  | false => exact ⟨h1, h1, .inr ⟨_, _, rfl, rfl⟩⟩
  | true =>
    refine wp_logged_call h1 (fun _ _ => h1.lost (by simp)) fun (began : Bool) w2 _ => ?_
    have h2 : Sound (.done .httpBegin began :: .done .online true :: log) := h1.done (by simp) _
    cases began with
    | false => exact ⟨h2, h2, .inr ⟨_, _, rfl, rfl⟩⟩
    | true =>
      refine wp_logged_call h2 (fun _ _ => h2.lost (by simp)) fun (r : HttpReply) w3 _ => ?_
      have h3 : Sound (.done .get r :: .done .httpBegin true :: .done .online true :: log) :=
        h2.done (by simp) _
      refine ⟨h3, h3, ?_⟩
      by_cases hr : r.code = 200
      · exact .inl ⟨_, List.mem_cons_self, decide_eq_true hr⟩
      · exact .inr ⟨_, _, rfl, decide_eq_true hr⟩

/-! ## `loop()` -/

namespace Main

theorem wp_signalHealthy {m : Main} {healthy : Bool} {w : World ε} {log : CallLog} (h : Sound log)
    (hc : healthy = true → ConfigProven log → ∃ c ∈ log, isContact c) :
    wp (sem E).logged (m.signalHealthy healthy) (fun _ s => Sound s.2) (fun s => Sound s.2)
      (w, log) := by
  simp only [signalHealthy, Fw.confirmHealthyBoot_bind, Prog.pure_eq_ret]
  by_cases hh : healthy = true ∧ ¬ m.healthySignalled = true
  · rw [if_pos hh]
    refine wp_logged_call h (fun _ _ => h.confirm (hc hh.1)) fun _ _ _ => ?_
    exact ⟨h.confirm (hc hh.1), h.confirm (hc hh.1)⟩
  · rw [if_neg hh]
    exact ⟨h, h⟩

theorem wp_push {m : Main} {now : UInt32} {w : World ε} {log : CallLog} (h : Sound log) :
    wp (sem E).logged (m.push now) (fun _ s => Sound s.2) (fun s => Sound s.2) (w, log) := by
  have hpush := wp_and (wp_sound (E := E) (w := w) (m.net.pushOnce_ne_confirm m.d) h)
    (m.net.wp_pushOnce_contact m.d w log)
  refine wp_bind_of hpush (fun _ hs => hs.1) ?_
  rintro ⟨acked, net, d⟩ ⟨w1, log1⟩ ⟨h1, hacked⟩
  exact wp_signalHealthy h1 fun hh _ => hacked hh

/-- **The second question**: WiFi up after the poll is evidence only where a poll
that failed would have found it down. -/
theorem wp_config {m : Main} {now : UInt32} {w : World ε} {log : CallLog} (h : Sound log) :
    wp (sem E).logged (m.config now) (fun _ s => Sound s.2) (fun s => Sound s.2) (w, log) := by
  refine wp_bind_of (wp_ret_cut (Sync.wp_pollConfig h)) (fun _ hs => hs) ?_
  rintro _ ⟨w1, log1⟩ ⟨h1, -, hpolled⟩
  refine wp_logged_call h1 (fun _ _ => h1.lost (by simp)) fun (on : Bool) w2 _ => ?_
  refine wp_signalHealthy (h1.done (by simp) _) ?_
  rintro rfl hp
  rcases hpolled with hc | ⟨f, rest, rfl, hf⟩
  · obtain ⟨c, hc, hcontact⟩ := hc
    exact ⟨c, List.mem_cons_of_mem _ hc, hcontact⟩
  · obtain ⟨c, hc, hcontact⟩ := hp.1 rfl hf
    exact ⟨c, List.mem_cons_of_mem _ (List.mem_cons_of_mem _ hc), hcontact⟩

theorem ota_ne_confirm (m : Main) (now : UInt32) :
    (m.ota now).Makes (· ≠ .confirmHealthyBoot) := by
  simp only [ota, Fw.online_bind, Fw.otaPoll_bind, Prog.pure_eq_ret]
  exact .call (by simp) fun _ => .call (by simp) fun _ => trivial

theorem covioBackgroundService_ne_confirm (m : Main) :
    m.covioBackgroundService.Makes (· ≠ .confirmHealthyBoot) := by
  simp only [covioBackgroundService, Fw.millis_bind, Prog.pure_eq_ret]
  refine .call (by simp) fun now => ?_
  split
  · refine Prog.Makes.bind ?_ fun _ => trivial
    exact (Totalizer.service_ne_confirm _ _).bind fun _ => trivial
  · exact trivial

theorem telemetry_ne_confirm (m : Main) (now : UInt32) (s : Sample) :
    (m.telemetry now s).Makes (· ≠ .confirmHealthyBoot) := by
  unfold telemetry
  split
  · exact (m.d.telemetryCycle_ne_confirm _).bind fun _ => trivial
  · exact trivial

theorem wp_network {m : Main} {now : UInt32} {w : World ε} {log : CallLog} (h : Sound log) :
    wp (sem E).logged (m.network now) (fun _ s => Sound s.2) (fun s => Sound s.2) (w, log) := by
  unfold network
  split
  · exact wp_push h
  · split
    · exact wp_config h
    · split
      · exact wp_sound (m.ota_ne_confirm now) h
      · exact ⟨h, h⟩

/-- One iteration. -/
theorem wp_loop {m : Main} {t : Tick} {w : World ε} {log : CallLog} (h : Sound log) :
    wp (sem E).logged (m.loop t) (fun _ s => Sound s.2) (fun s => Sound s.2) (w, log) := by
  simp only [loop, Fw.millis_bind]
  refine wp_logged_call h (fun _ _ => h.lost (by simp)) fun (now : UInt32) w1 _ => ?_
  have h1 : Sound (.done .millis now :: log) := h.done (by simp) _
  by_cases hprov : t.provisioning = true
  · rw [if_pos hprov]
    exact wp_sound m.covioBackgroundService_ne_confirm h1
  · rw [if_neg hprov]
    exact wp_bind_of (wp_sound (m.telemetry_ne_confirm now t.sample) h1) (fun _ hs => hs)
      fun m s hs => wp_network hs

/-- Any number of iterations. -/
theorem wp_loops {m : Main} {ts : List Tick} {w : World ε} {log : CallLog} (h : Sound log) :
    wp (sem E).logged (loops m ts) (fun _ s => Sound s.2) (fun s => Sound s.2) (w, log) := by
  induction ts generalizing m w log with
  | nil => exact ⟨h, h⟩
  | cons t ts ih => exact wp_bind_of (wp_loop h) (fun _ hs => hs) fun _ s hs => ih hs

end Main

/-- **An image is confirmed only after the server was reached**, at every moment of
every boot in which WiFi is never up right after a failed configuration poll
unless the server had been reached before. -/
theorem confirmed_after_contact (E : Env ε) (bootId : UInt32) (ts : List Tick) (w w' : World ε)
    (log : CallLog) (hcut : Cuts (sem E).logged (Main.run bootId ts) (w, []) (w', log))
    (hproven : ConfigProven log) : Justified log := by
  have hsetup : (setup bootId).Makes (· ≠ .confirmHealthyBoot) :=
    makes_setup (fun _ h => h.ne_confirm) (fun _ _ => by simp) (fun _ => by simp) bootId
  have hnil : Sound [] := fun _ => trivial
  exact (wp_bind_of (wp_sound hsetup hnil) (fun _ h => h)
    fun _ s hs => Main.wp_loops hs).cuts hcut hproven

/-! ## Two iterations on a device that is online -/

/-- Answers of a working device with WiFi, a clock that runs, a server out of reach
of the pushes, and a configuration endpoint that answers with the given status. -/
def answers (status : ℤ) : (c : Call) → World Unit × CallLog → c.Reply × (World Unit × CallLog)
  | .millis, s =>
      let now : UInt32 := 60000 + .ofNat s.2.length
      (now, s.1, .done .millis now :: s.2)
  | .get, s => (⟨status, []⟩, s.1, .done .get (⟨status, []⟩ : HttpReply) :: s.2)
  | c, s =>
      let r := respond (fun _ => false) c s.1
      (r.1, r.2, .done c r.1 :: s.2)

theorem answers_reply (status : ℤ) (c : Call) (s : World Unit × CallLog) :
    (sem Env.calm).logged.post c s (answers status c s).1 (answers status c s).2 := by
  have hrespond : ∀ c : Call, (sem Env.calm).post c s.1 (respond (fun _ => false) c s.1).1
      (respond (fun _ => false) c s.1).2 :=
    respond_reply (by simp) (fun _ _ => trivial) fun _ => ⟨rfl, rfl⟩
  cases c with
  | millis | get => exact ⟨rfl, rfl⟩
  | files | openDir | pcntGet | pcntClear | online | httpBegin | random | confirmHealthyBoot
  | otaPoll => exact ⟨hrespond _, rfl⟩
  | appendOpenSize p | truncateTo p n | appendWrite p d | readAt p o n | writeWhole p d | remove p
  | post b => exact ⟨hrespond _, rfl⟩

/-- A boot on empty flash and two iterations: the first pushes, the second polls the
configuration. -/
@[irreducible] def twoTicks (status : ℤ) : Main × (World Unit × CallLog) :=
  (Main.run 1 [⟨⟨0, 0, 0⟩, false⟩, ⟨⟨0, 0, 0⟩, false⟩]).exec (answers status) (⟨Flash.empty, ()⟩, [])

theorem cuts_answers (status : ℤ) {β : Type} (p : Fw β) (s : World Unit × CallLog) :
    Cuts (sem Env.calm).logged p s (p.exec (answers status) s).2 :=
  (Prog.exec_runs (I := fun _ => True) (fun c s _ => ⟨answers_reply status c s, trivial⟩) p
    trivial).cuts

theorem cuts_twoTicks (status : ℤ) :
    Cuts (sem Env.calm).logged (Main.run 1 [⟨⟨0, 0, 0⟩, false⟩, ⟨⟨0, 0, 0⟩, false⟩])
      (⟨Flash.empty, ()⟩, []) (twoTicks status).2 := by
  unfold twoTicks
  exact cuts_answers status _ _

theorem configProven_twoTicks : ConfigProven (twoTicks 200).2.2 := by decide +kernel

theorem called_twoTicks : Called .confirmHealthyBoot (twoTicks 200).2.2 := by decide +kernel

theorem not_justified_twoTicks : ¬ Justified (twoTicks 500).2.2 := by decide +kernel

/-- A configuration response with status 200: the image is confirmed after it. -/
theorem confirmed_after_poll :
    Called .confirmHealthyBoot (twoTicks 200).2.2 ∧ Justified (twoTicks 200).2.2 := by
  have hcut := cuts_twoTicks 200
  have hproven := configProven_twoTicks
  refine ⟨called_twoTicks, ?_⟩
  generalize (twoTicks 200).2 = s at hcut hproven ⊢
  exact confirmed_after_contact Env.calm 1 _ _ s.1 s.2 hcut hproven

/-- A configuration response with status 500: the image is confirmed, and the server
was never reached. -/
theorem confirmed_without_contact :
    ∃ (E : Env Unit) (bootId : UInt32) (ts : List Tick) (w w' : World Unit) (log : CallLog),
      Cuts (sem E).logged (Main.run bootId ts) (w, []) (w', log) ∧ ¬ Justified log := by
  have hcut := cuts_twoTicks 500
  have hnot := not_justified_twoTicks
  generalize (twoTicks 500).2 = s at hcut hnot
  exact ⟨Env.calm, 1, _, _, s.1, s.2, hcut, hnot⟩

end Device
end CovioFirmware
