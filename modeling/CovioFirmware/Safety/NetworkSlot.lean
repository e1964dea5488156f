import CovioFirmware.Bytes.Uptime
import CovioFirmware.Safety.Delivery
import CovioFirmware.Device.Main
import CovioFirmware.Schedule.OneSlot
import Mathlib.Tactic.FinCases

/-!
# The network slot

An iteration of `loop()` makes at most one network transaction: the push if its period has
passed, else the configuration poll, else the update poll.  The timers all start at boot,
so the three come due together, and a poll that loses the slot is meant to have it "a few
ms later".

That holds as long as an iteration takes less than half the push period: then each of the
three runs within its period and one iteration more than there are before it
(`network_served`).  It fails for iterations as long as the push period: a push that is due
again as soon as it is over keeps the slot, and the polls never run again
(`pushes_keep_slot`).
-/

namespace CovioFirmware
namespace Device

open Crash Schedule

/-- An iteration behind the reading of the clock. -/
def Main.iteration (m : Main) (now : UInt32) (t : Tick) : Fw Main :=
  if t.provisioning then m.covioBackgroundService
  else do
    let m ← m.telemetry now t.sample
    m.network now

theorem Main.loop_eq (m : Main) (t : Tick) :
    m.loop t = Fw.millis >>= fun now => m.iteration now t := rfl

/-- The transactions in the order of their blocks: push, configuration, update. -/
abbrev Transaction := Fin 3

namespace Transaction

/-- `PUSH_PERIOD_MS`, `CONFIG_POLL_MS` and `OTA_POLL_MS`. -/
def periodMs : Transaction → UInt32
  | 0 => pushPeriodMs
  | 1 => configPollMs
  | 2 => otaPollMs

/-- The same as numbers. -/
def period (k : Transaction) : ℕ := k.periodMs.toNat

theorem period_bounds : ∀ k : Transaction, pushPeriodMs.toNat ≤ k.period ∧ k.period ≤ 300000 := by
  decide

/-- The transaction whose period has passed, the first of them. -/
def due (timers : Transaction → UInt32) (now : UInt32) : Option Transaction :=
  (List.finRange 3).find? fun k => decide (k.periodMs ≤ now - timers k)

end Transaction

namespace Main

/-- The timers of the three. -/
def timers (m : Main) : Transaction → UInt32
  | 0 => m.tPush
  | 1 => m.tConfig
  | 2 => m.tOta

/-- The transaction an iteration makes at the time `now`. -/
def slot (m : Main) (now : UInt32) : Option Transaction := Transaction.due m.timers now

/-- The block of a transaction. -/
def transact (m : Main) (now : UInt32) : Transaction → Fw Main
  | 0 => m.push now
  | 1 => m.config now
  | 2 => m.ota now

theorem slot_eq (m : Main) (now : UInt32) : m.slot now =
    if pushPeriodMs ≤ now - m.tPush then some 0
    else if configPollMs ≤ now - m.tConfig then some 1
    else if otaPollMs ≤ now - m.tOta then some 2
    else none := by
  have hrange : List.finRange 3 = [0, 1, 2] := rfl
  rw [slot, Transaction.due, hrange, List.find?_cons, List.find?_cons, List.find?_cons,
    List.find?_nil]
  by_cases h0 : Transaction.periodMs 0 ≤ now - m.timers 0
  · rw [decide_eq_true h0]
    exact (if_pos h0).symm
  · rw [decide_eq_false h0]
    by_cases h1 : Transaction.periodMs 1 ≤ now - m.timers 1
    · rw [decide_eq_true h1]
      exact ((if_neg h0).trans (if_pos h1)).symm
    · rw [decide_eq_false h1]
      by_cases h2 : Transaction.periodMs 2 ≤ now - m.timers 2
      · rw [decide_eq_true h2]
        exact ((if_neg h0).trans ((if_neg h1).trans (if_pos h2))).symm
      · rw [decide_eq_false h2]
        exact ((if_neg h0).trans ((if_neg h1).trans (if_neg h2))).symm

theorem slot_eq_push_iff (m : Main) (now : UInt32) :
    m.slot now = some 0 ↔ pushPeriodMs ≤ now - m.tPush := by
  rw [slot_eq]
  split
  · next h => exact iff_of_true rfl h
  · next h =>
    refine iff_of_false (fun heq => ?_) h
    split at heq
    · exact absurd heq (by decide)
    · split at heq
      · exact absurd heq (by decide)
      · cases heq

/-- **The slot decides which block runs.** -/
theorem network_eq (m : Main) (now : UInt32) : m.network now =
    match m.slot now with
    | some k => m.transact now k
    | none => pure m := by
  rw [slot_eq, network]
  split
  · rfl
  · split
    · rfl
    · split <;> rfl

/-! ## What an iteration does to the timers -/

section

variable {m : Main} {now : UInt32}

theorem returns_signalHealthy {healthy : Bool} {ts : Transaction → UInt32} (h : m.timers = ts) :
    (m.signalHealthy healthy).Returns fun m' => m'.timers = ts := by
  simp only [signalHealthy, Fw.confirmHealthyBoot_bind, Prog.pure_eq_ret]
  split
  · exact fun _ => h
  · exact h

/-- A transaction sets its timer. -/
theorem returns_transact (k : Transaction) :
    (m.transact now k).Returns fun m' => m'.timers = Function.update m.timers k now := by
  match k with
  | 0 =>
    refine (Prog.Returns.trivial _).bind fun r _ => returns_signalHealthy ?_
    funext j
    fin_cases j <;> rfl
  | 1 =>
    refine (Prog.Returns.trivial _).bind fun _ _ => fun _ => returns_signalHealthy ?_
    funext j
    fin_cases j <;> rfl
  | 2 =>
    refine fun _ _ => ?_
    funext j
    fin_cases j <;> rfl

theorem returns_network : (m.network now).Returns fun m' =>
    m'.timers = match m.slot now with
      | some k => Function.update m.timers k now
      | none => m.timers := by
  rw [network_eq]
  cases m.slot now with
  | none => exact rfl
  | some k => exact m.returns_transact k

theorem returns_telemetry (s : Sample) :
    (m.telemetry now s).Returns fun m' => m'.timers = m.timers := by
  unfold telemetry
  split
  · exact (Prog.Returns.trivial _).bind fun _ _ => rfl
  · exact rfl

/-- An iteration in normal operation sets the timer of the transaction it makes. -/
theorem returns_iteration {t : Tick} (ht : t.provisioning = false) :
    (m.iteration now t).Returns fun m' =>
      m'.timers = match m.slot now with
        | some k => Function.update m.timers k now
        | none => m.timers := by
  rw [iteration, ht]
  refine (returns_telemetry t.sample).bind fun m' h => ?_
  have hnet := @returns_network m' now
  rw [slot, h, ← slot] at hnet
  exact hnet

end

end Main

/-! ## Iterations one after another -/

/-- The iterations after a boot, in normal operation, and the true times at which they
begin.  What answers the calls is any environment, and may be another in each. -/
structure Iterations {ε : Type} (E : Env ε) where
  main : ℕ → Main
  time : ℕ → ℕ
  step : ∀ i, ∃ t w w', t.provisioning = false ∧
    Runs (sem E) ((main i).iteration (UInt32.ofNat (time i)) t) w (main (i + 1)) w'
  booted : (main 0).timers = fun _ => 0
  later : StrictMono time

namespace Iterations

variable {ε : Type} {E : Env ε} (r : Iterations E)

/-- The transaction of an iteration. -/
def slot (i : ℕ) : Option Transaction := (r.main i).slot (UInt32.ofNat (r.time i))

theorem timers_succ (i : ℕ) (k : Transaction) : (r.main (i + 1)).timers k =
    if r.slot i = some k then UInt32.ofNat (r.time i) else (r.main i).timers k := by
  obtain ⟨t, w, w', ht, hrun⟩ := r.step i
  have h := ((r.main i).returns_iteration ht |>.wp w).runs hrun
  rw [h, slot]
  cases hs : (r.main i).slot (UInt32.ofNat (r.time i)) with
  | none => rw [if_neg (by simp)]
  | some j =>
    by_cases hj : j = k
    · subst hj
      simp
    · rw [if_neg (by simpa using hj)]
      exact Function.update_of_ne (Ne.symm hj) _ _

/-! ### Short iterations -/

/-- With the timers of true times, none of them a turn of the clock ago. -/
theorem due_eq_pick {timers : Transaction → UInt32} {last : Transaction → ℕ} {now : ℕ}
    (ht : ∀ k, timers k = UInt32.ofNat (last k)) (hle : ∀ k, last k ≤ now)
    (hlt : ∀ k, now < last k + 2 ^ 32) :
    Transaction.due timers (UInt32.ofNat now) = pick Transaction.period last now := by
  rw [Transaction.due, pick]
  congr 1
  funext k
  rw [decide_eq_decide, ht, UInt32.le_iff_toNat_le, Uptime.toNat_sub_of_lt (hle k) (hlt k)]
  rfl

variable {D : ℕ} (hgap : ∀ i, r.time (i + 1) ≤ r.time i + D)
  (hshort : 2 * D < pushPeriodMs.toNat) (hboot : r.time 0 < 2 ^ 31)

include hgap hshort hboot

omit hgap hboot in
/-- No transaction comes due twice in three iterations. -/
theorem lt_period (k j : Transaction) : k.val * D < j.period := by
  have h1 : k.val * D ≤ 2 * D := Nat.mul_le_mul_right D (by omega)
  have h2 := (Transaction.period_bounds j).1
  omega

/-- The timers are the true times of the transactions. -/
theorem timers_eq_marks (i : ℕ) : (∀ k, (r.main i).timers k =
    UInt32.ofNat (marks Transaction.period (fun _ => 0) r.time i k)) ∧
      r.slot i = served Transaction.period (fun _ => 0) r.time i := by
  have hnear : ∀ i k, r.time i < marks Transaction.period (fun _ => 0) r.time i k + 2 ^ 32 := by
    intro i k
    have h1 : r.time i ≤ marks Transaction.period (fun _ => 0) r.time i k +
        (r.time 0 + Transaction.period k + (k.val + 2) * D) :=
      time_le_marks_add r.later hgap (fun _ => Nat.zero_le _) (fun j _ => lt_period hshort k j) i
    have h2 := (Transaction.period_bounds k).2
    have h3 : (k.val + 2) * D ≤ 4 * D := Nat.mul_le_mul_right D (by omega)
    have h4 : pushPeriodMs.toNat = 5000 := rfl
    omega
  have hslot : ∀ i, (∀ k, (r.main i).timers k =
      UInt32.ofNat (marks Transaction.period (fun _ => 0) r.time i k)) →
        r.slot i = served Transaction.period (fun _ => 0) r.time i := fun i ht =>
    due_eq_pick ht (marks_le r.later (fun _ => Nat.zero_le _) i) (hnear i)
  induction i with
  | zero =>
    have h0 : ∀ k, (r.main 0).timers k =
        UInt32.ofNat (marks Transaction.period (fun _ => 0) r.time 0 k) := fun k => by
      rw [r.booted]
      rfl
    exact ⟨h0, hslot 0 h0⟩
  | succ i ih =>
    have hsucc : ∀ k, (r.main (i + 1)).timers k =
        UInt32.ofNat (marks Transaction.period (fun _ => 0) r.time (i + 1) k) := fun k => by
      rw [r.timers_succ, marks_succ, ih.2, ih.1 k]
      split <;> rfl
    exact ⟨hsucc, hslot (i + 1) hsucc⟩

/-- **Each of the three has its turn**: within its period, and one iteration more than
there are before it. -/
theorem network_served (k : Transaction) (i : ℕ) :
    ∃ j ≥ i, r.slot j = some k ∧ r.time j ≤ r.time i + k.period + (k.val + 1) * D := by
  have hk : ∀ j : Transaction, j < k → k.val * D < j.period := fun j _ =>
    lt_period hshort k j
  obtain ⟨j, hj, hs, hle⟩ : ∃ j ≥ i, served Transaction.period (fun _ => 0) r.time j = some k ∧
      r.time j ≤ r.time i + k.period + (k.val + 1) * D :=
    served_within r.later hgap (fun _ => Nat.zero_le _) hk i
  exact ⟨j, hj, (r.timers_eq_marks hgap hshort hboot j).2.trans hs, hle⟩

omit hgap hshort hboot

/-! ### Long iterations -/

/-- After a push the next comes in the next iteration if that begins a period later. -/
theorem slot_succ_of_push {b : ℕ} (hb : r.slot b = some 0)
    (hlt : r.time (b + 1) < r.time b + 2 ^ 32) :
    r.slot (b + 1) = some 0 ↔ pushPeriodMs.toNat ≤ r.time (b + 1) - r.time b := by
  have htimer : (r.main (b + 1)).tPush = UInt32.ofNat (r.time b) :=
    (r.timers_succ b 0).trans (if_pos hb)
  rw [slot, Main.slot_eq_push_iff, htimer, UInt32.le_iff_toNat_le,
    Uptime.toNat_sub_of_lt (r.later (Nat.lt_succ_self b)).le hlt]

/-- **The push keeps the slot exactly if its iterations take its period**: then neither
poll runs again. -/
theorem pushes_keep_slot {a : ℕ} (ha : r.slot a = some 0)
    (hlt : ∀ b, r.time (b + 1) < r.time b + 2 ^ 32) :
    (∀ b ≥ a, r.slot b = some 0) ↔
      ∀ b ≥ a, pushPeriodMs.toNat ≤ r.time (b + 1) - r.time b := by
  constructor
  · exact fun h b hb => (r.slot_succ_of_push (h b hb) (hlt b)).mp (h (b + 1) (by omega))
  · intro h b hb
    induction b, hb using Nat.le_induction with
    | base => exact ha
    | succ b hb ih => exact (r.slot_succ_of_push ih (hlt b)).mpr (h b hb)

/-! ## A run of either kind -/

/-- The iterations of a device that has just booted, at the given times. -/
def trace (time : ℕ → ℕ) : ℕ → Main × World Channel
  | 0 => ({ d := (bench []).1.1 }, (bench []).2.1)
  | i + 1 => ((trace time i).1.iteration (UInt32.ofNat (time i)) ⟨⟨0, 0, 0⟩, false⟩).exec
      answeringChannel (trace time i).2

/-- They are a run. -/
def ofTimes {time : ℕ → ℕ} (h : StrictMono time) : Iterations benchReceiver.channel where
  main i := (trace time i).1
  time := time
  step i := ⟨⟨⟨0, 0, 0⟩, false⟩, _, _, rfl,
    Prog.exec_runs (I := fun _ => True) (fun c w _ => ⟨answeringChannel_reply c w, trivial⟩) _
      trivial⟩
  booted := funext fun k => by fin_cases k <;> rfl
  later := h

theorem strictMono_every {d : ℕ} (hd : 0 < d) : StrictMono fun i : ℕ => d * i :=
  fun _ _ h => Nat.mul_lt_mul_of_pos_left h hd

/-- Iterations of 5 ms: the update poll has its turn. -/
theorem network_served_short : ∃ r : Iterations benchReceiver.channel, ∀ i, ∃ j ≥ i,
    r.slot j = some 2 ∧ r.time j ≤ r.time i + 300000 + 3 * 5 :=
  ⟨ofTimes (strictMono_every (d := 5) (by decide)), fun i =>
    network_served _ (D := 5) (fun i => (Nat.mul_succ 5 i).le) (by decide) (by decide) 2 i⟩

/-- Iterations of 6 s: nothing but pushes after the first. -/
theorem pushes_keep_slot_long : ∃ r : Iterations benchReceiver.channel,
    ∀ b ≥ 1, r.slot b = some 0 := by
  let r := ofTimes (strictMono_every (d := 6000) (by decide))
  have hgap : ∀ b, r.time (b + 1) = r.time b + 6000 := fun b => Nat.mul_succ 6000 b
  have hfirst : r.slot 1 = some 0 := by
    have htimer : (r.main 1).tPush = 0 := by
      refine (r.timers_succ 0 0).trans ?_
      split
      · rfl
      · exact congrFun r.booted 0
    refine (r.main 1).slot_eq_push_iff _ |>.mpr ?_
    rw [htimer]
    decide
  refine ⟨r, (pushes_keep_slot r hfirst fun b => ?_).mpr fun b _ => ?_⟩
  · rw [hgap]
    omega
  · rw [hgap, Nat.add_sub_cancel_left]
    decide

end Iterations

end Device
end CovioFirmware
