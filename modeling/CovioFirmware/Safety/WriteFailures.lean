import CovioFirmware.Safety.DualSlot

/-!
# Persists that fail while the device keeps running

Two slots protect against one torn write, because a reboot follows and starts
counting again from the record that was recovered.  A write that *fails* is
different: the device keeps running, the count in memory has already moved on,
and the next attempt goes to the other slot.  So two failures in a row leave
both slots invalid, and one failure never does.

`persist_survives_iff` says this for every sequence of attempts.  The history
kept along a run is the list of outcomes, newest first; what makes the induction
go through is that the slot of the present count tells the last outcome and the
other slot the one before.
-/

namespace CovioFirmware
namespace Device

open Crash

variable {R : Type}

/-- A record that is persisted again and again with whatever contents, on a
device that is not switched off. -/
def attemptMachine (S : Slots R) : Machine Call Call.Reply (World Unit) R Empty R where
  sem := sem Env.flaky
  boot b := b.elim
  op contents r := S.persist (S.setWrites contents (S.writes r))
  env _ _ := False

/-- The outcomes of the attempts, newest first: an attempt succeeded if it
completed a write. -/
def outcomes (_ : Action Empty R) (n n' : Node R (World Unit)) (g : List Bool) : List Bool :=
  decide (n.store.flash.done.length < n'.store.flash.done.length) :: g

/-- The attempts from a record in memory and a flash. -/
abbrev Attempts (S : Slots R) (r0 : R) (w0 : World Unit) (n : Node R (World Unit))
    (g : List Bool) : Prop :=
  Reach (attemptMachine S) (fun _ _ _ => True) outcomes (fun n g => n = .on r0 w0 ∧ g = []) n g

/-- A record that was in a slot at the start or whose write has completed since. -/
def Persisted (S : Slots R) (w0 w : World Unit) (r : R) : Prop :=
  (∃ b, S.slot w0.file b = some r) ∨
    ∃ b d, (S.path b, d) ∈ w.flash.done ∧ S.kind.ofBytes d = r

/-- What the slots say about the last two outcomes. -/
structure Outcomes (S : Slots R) (w0 w : World Unit) (r : R) (g : List Bool) : Prop where
  persisted : ∀ b x, S.slot w.file b = some x → Persisted S w0 w x
  intact : ∀ b x, S.slot w.file b = some x → S.kind.intact x = true
  last : ∀ o g', g = o :: g' → (S.slot w.file (slotOf (S.writes r))).isSome = o
  before : ∀ o o' g', g = o :: o' :: g' → (S.slot w.file (!slotOf (S.writes r))).isSome = o'

section

variable {S : Slots R} {w0 w : World Unit} {r : R} {g : List Bool}

/-- One more attempt changes the slot of the next count and no other. -/
theorem Outcomes.step (h : Outcomes S w0 w r g) {w' : World Unit} {r' : R} {o : Bool}
    (hw : S.writes r' = S.writes r + 1)
    (hdone : w.flash.done <:+ w'.flash.done)
    (hslot : S.slot w'.file = Function.update (S.slot w.file) (slotOf (S.writes r'))
      (if o then some r' else none))
    (hnew : o = true → Persisted S w0 w' r' ∧ S.kind.intact r' = true) :
    Outcomes S w0 w' r' (o :: g) := by
  have hne : (!slotOf (S.writes r')) ≠ slotOf (S.writes r') := by simp
  have hprev : (!slotOf (S.writes r')) = slotOf (S.writes r) := by
    rw [hw, slotOf_succ, Bool.not_not]
  have hmono : ∀ x, Persisted S w0 w x → Persisted S w0 w' x := by
    rintro x (hx | ⟨b, d, hd, hx⟩)
    · exact .inl hx
    · exact .inr ⟨b, d, hdone.subset hd, hx⟩
  refine ⟨fun b x hx => ?_, fun b x hx => ?_, ?_, ?_⟩
  · rw [hslot] at hx
    by_cases hb : b = slotOf (S.writes r')
    · rw [hb, Function.update_self] at hx
      cases o with
      | false => cases hx
      | true =>
        cases hx
        exact (hnew rfl).1
    · rw [Function.update_of_ne hb] at hx
      exact hmono x (h.persisted b x hx)
  · rw [hslot] at hx
    by_cases hb : b = slotOf (S.writes r')
    · rw [hb, Function.update_self] at hx
      cases o with
      | false => cases hx
      | true =>
        cases hx
        exact (hnew rfl).2
    · rw [Function.update_of_ne hb] at hx
      exact h.intact b x hx
  · rintro o' g' hg
    rw [List.cons.injEq] at hg
    rw [hslot, Function.update_self, ← hg.1]
    cases o <;> rfl
  · rintro o' o'' g' hg
    rw [List.cons.injEq] at hg
    rw [hslot, Function.update_of_ne hne, hprev]
    exact h.last o'' g' hg.2

theorem Attempts.outcomes {r0 : R} (h0 : ∀ b x, S.slot w0.file b = some x → S.kind.intact x = true)
    {n : Node R (World Unit)} (h : Attempts S r0 w0 n g) :
    n.Holds (fun _ _ => True) (fun r w g => Outcomes S w0 w r g) g := by
  refine Reach.invariant ?_ (fun b => b.elim) ?_ ?_ h
  · rintro n g ⟨rfl, rfl⟩
    exact ⟨fun b x hx => .inl ⟨b, hx⟩, h0, by simp, by simp⟩
  · intro contents r w g _ hr
    set x := S.setWrites contents (S.writes r) with hx
    have hwx : S.writes x + 1 = S.writes r + 1 := by rw [hx, S.writes_setWrites]
    have hnext : S.writes (S.next x) = S.writes r + 1 := by rw [Slots.writes_next, hwx]
    refine Slots.wp_persist trivial (fun _ _ => trivial) ⟨trivial, ?_⟩ ?_
    · -- the write completed
      have ho : decide (w.flash.done.length < (w.write (S.path (slotOf (S.writes x + 1)))
          (S.kind.bytes (S.next x))).flash.done.length) = true := by simp
      change Outcomes S w0 _ _ (decide _ :: g)
      rw [Node.store, Node.store, ho]
      refine hr.step hnext (List.suffix_cons _ _) ?_ fun _ => ⟨.inr ?_, S.intact_next x⟩
      · rw [World.file_write, Slots.slot_update, Slots.writes_next, Slots.load_next, if_pos rfl]
      · exact ⟨slotOf (S.writes x + 1), S.kind.bytes (S.next x), List.mem_cons_self,
          S.kind.ofBytes_bytes _⟩
    · -- the write failed and left an unreadable slot
      intro p d _ c hc
      have ho : decide (w.flash.done.length <
          (w.set (S.path (slotOf (S.writes x + 1))) c).flash.done.length) = false := by simp
      change Outcomes S w0 _ _ (decide _ :: g)
      rw [Node.store, Node.store, ho]
      refine hr.step hnext (World.done_set w _ c ▸ List.suffix_rfl) ?_ (by simp)
      rw [World.file_set, Slots.slot_update, Slots.writes_next,
        (S.unreadable_iff _ c).mp hc, if_neg (by simp)]
  · intro n n' g _ hn
    exact hn.elim

/-- For one record: what a reboot would recover after a sequence of attempts. -/
theorem Attempts.survives_iff (hzero : S.kind.intact S.zero = false) {r0 : R}
    (h0 : ∀ b x, S.slot w0.file b = some x → S.kind.intact x = true)
    (h : Attempts S r0 w0 (.on r w) g) (hone : true ∈ g) :
    (Persisted S w0 w (S.recover w.file) ∧ S.recover w.file ≠ S.zero) ↔
      ¬ ∃ g', g = false :: false :: g' := by
  have hout : Outcomes S w0 w r g := h.outcomes h0
  constructor
  · rintro ⟨-, hne⟩ ⟨g', rfl⟩
    -- both slots answer to a failed attempt
    refine hne (Slots.recover_none fun b => ?_)
    have hlast : S.slot w.file (slotOf (S.writes r)) = none := by
      simpa using hout.last _ _ rfl
    have hbefore : S.slot w.file (!slotOf (S.writes r)) = none := by
      simpa using hout.before _ _ _ rfl
    by_cases hb : b = slotOf (S.writes r)
    · rw [hb, hlast]
    · have hb' : b = !slotOf (S.writes r) := by
        revert hb; cases b <;> cases slotOf (S.writes r) <;> simp
      rw [hb', hbefore]
  · intro hno
    have hsome : ∃ b x, S.slot w.file b = some x := by
      match g, hone, hno, hout with
      | true :: g', _, _, hout => exact ⟨_, Option.isSome_iff_exists.mp (hout.last _ _ rfl)⟩
      | [false], hone, _, _ => simp at hone
      | false :: true :: g', _, _, hout =>
        exact ⟨_, Option.isSome_iff_exists.mp (hout.before _ _ _ rfl)⟩
      | false :: false :: g', _, hno, _ => exact absurd ⟨g', rfl⟩ hno
    obtain ⟨b, x, hx⟩ := hsome
    obtain ⟨b', hb'⟩ := Slots.recover_mem hx
    refine ⟨hout.persisted b' _ hb', fun hc => ?_⟩
    have hint := hout.intact b' _ hb'
    rw [hc, hzero] at hint
    cases hint

end

/-- **Write failures and the record.**  After any sequence of attempts with at
least one success among them, a reboot recovers a record that was persisted
before exactly if the last two attempts did not both fail.  This holds of the
checkpoint (`Totalizer::persist_`) and of the acknowledgement record
(`EventQueue::persistAck_`). -/
theorem persist_survives_iff (w0 w : World Unit) (g : List Bool) (hone : true ∈ g) :
    (∀ r0 r : Checkpoint,
      (∀ b x, ckptSlots.slot w0.file b = some x → Checkpoint.kind.intact x = true) →
      Attempts ckptSlots r0 w0 (.on r w) g →
      ((Persisted ckptSlots w0 w (ckptSlots.recover w.file) ∧
        ckptSlots.recover w.file ≠ Checkpoint.blank) ↔ ¬ ∃ g', g = false :: false :: g')) ∧
    (∀ r0 r : AckRec,
      (∀ b x, ackSlots.slot w0.file b = some x → AckRec.kind.intact x = true) →
      Attempts ackSlots r0 w0 (.on r w) g →
      ((Persisted ackSlots w0 w (ackSlots.recover w.file) ∧
        ackSlots.recover w.file ≠ AckRec.blank) ↔ ¬ ∃ g', g = false :: false :: g')) := by
  have hc : ckptSlots.kind.intact ckptSlots.zero = false := by decide +kernel
  have ha : ackSlots.kind.intact ackSlots.zero = false := by decide +kernel
  exact ⟨fun _ _ h0 h => h.survives_iff hc h0 hone, fun _ _ h0 h => h.survives_iff ha h0 hone⟩

/-- An attempt with chosen failures, as a step of a run. -/
theorem Attempts.execute {S : Slots R} {w0 w : World Unit} {r0 r : R} {g : List Bool}
    (h : Attempts S r0 w0 (.on r w) g) (contents : R) (faulty : Call → Bool) :
    let out := Device.execute faulty (S.persist (S.setWrites contents (S.writes r))) w
    Attempts S r0 w0 (.on out.1 out.2)
      (decide (w.flash.done.length < out.2.flash.done.length) :: g) :=
  .step h trivial (.op (execute_runs_flaky faulty _ w))

/-- The checkpoint attempts on a fresh flash, for a list of outcomes. -/
def freshAttempts : List Bool → Checkpoint × World Unit
  | [] => (Checkpoint.blank, ⟨Flash.empty, ()⟩)
  | o :: g =>
      let before := freshAttempts g
      Device.execute (fun _ => !o) (ckptSlots.persist before.1) before.2

theorem freshAttempts_attempts : ∀ g, Attempts ckptSlots Checkpoint.blank ⟨Flash.empty, ()⟩
    (.on (freshAttempts g).1 (freshAttempts g).2) g
  | [] => .init ⟨rfl, rfl⟩
  | o :: g => by
    have h : Attempts ckptSlots Checkpoint.blank ⟨Flash.empty, ()⟩
        (.on (freshAttempts (o :: g)).1 (freshAttempts (o :: g)).2)
        (decide ((freshAttempts g).2.flash.done.length <
          (freshAttempts (o :: g)).2.flash.done.length) :: g) :=
      (freshAttempts_attempts g).execute (freshAttempts g).1 fun _ => !o
    have ho : decide ((freshAttempts g).2.flash.done.length <
        (freshAttempts (o :: g)).2.flash.done.length) = o := by
      cases o <;> simp [freshAttempts, Device.execute, Slots.persist, Prog.exec, respond]
    rwa [ho] at h

/-- One success and then two failures: the zeroed checkpoint is recovered. -/
theorem two_failures_lose_checkpoint :
    ∃ r w, Attempts ckptSlots Checkpoint.blank ⟨Flash.empty, ()⟩ (.on r w) [false, false, true] ∧
      ckptSlots.recover w.file = Checkpoint.blank := by
  refine ⟨_, _, freshAttempts_attempts [false, false, true], ?_⟩
  decide +kernel

/-- After a success, a failure and a success a persisted record is recovered. -/
theorem alternating_failures_keep_checkpoint :
    ∃ r w, Attempts ckptSlots Checkpoint.blank ⟨Flash.empty, ()⟩ (.on r w) [true, false, true] ∧
      Persisted ckptSlots ⟨Flash.empty, ()⟩ w (ckptSlots.recover w.file) := by
  have hrun := freshAttempts_attempts [true, false, true]
  have hblank : ∀ b x, ckptSlots.slot (World.file ⟨Flash.empty, ()⟩) b = some x →
      Checkpoint.kind.intact x = true := by
    intro b x hx
    cases hx
  have hiff := (persist_survives_iff _ _ _ (by simp)).1 _ _ hblank hrun
  exact ⟨_, _, hrun, (hiff.mpr (by simp)).1⟩

end Device
end CovioFirmware
