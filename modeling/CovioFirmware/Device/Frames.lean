import CovioFirmware.Device.Footprint

/-!
# What a routine leaves alone

Two facts that hold of routines by their shape, before anything is known about
what they compute.  The history of completed writes only grows.  And a routine
that makes no call on a slot file leaves the slots and the history as they were;
the reconciliation of a segment, the regression scan and the deletion loops are
of that kind.

With the first of them, a fact that is wanted only as long as the count of the
checkpoint writes has not come round may assume so before the routine as well
(`wp_of_counted`).
-/

namespace CovioFirmware
namespace Device

open Crash

variable {ε : Type} {E : Env ε} {α : Type}

/-! ## The history grows -/

theorem reply_done {c : Call} {w w' : World ε} {r : c.Reply} (h : reply E c w r w') :
    w.flash.done <:+ w'.flash.done := by
  cases c with
  | files => exact h.2 ▸ List.suffix_rfl
  | appendOpenSize p =>
    rcases h with ⟨-, -, rfl⟩ | ⟨-, -, rfl⟩
    · simp
    · exact List.suffix_rfl
  | truncateTo p n =>
    rcases h with ⟨-, b, -, -, rfl⟩ | ⟨-, -, rfl⟩
    · simp
    · exact List.suffix_rfl
  | appendWrite p data =>
    rcases h with ⟨-, -, rfl⟩ | ⟨-, ⟨-, rfl⟩ | ⟨k, -, -, rfl⟩⟩
    · simp
    · exact List.suffix_rfl
    · simp
  | readAt p offset len => exact h.1 ▸ List.suffix_rfl
  | writeWhole p data =>
    rcases h with ⟨-, -, rfl⟩ | ⟨-, -, c, -, rfl⟩
    · exact List.suffix_cons _ _
    · simp
  | remove p =>
    change w' = w.set p none at h
    exact h ▸ (World.done_set w p none).symm ▸ List.suffix_rfl
  | openDir => exact h.2 ▸ List.suffix_rfl
  | pcntGet => exact (show w' = w from h) ▸ List.suffix_rfl
  | pcntClear => exact (show w' = w from h) ▸ List.suffix_rfl
  | millis => exact (show w' = w from h) ▸ List.suffix_rfl
  | online => exact (show w' = w from h) ▸ List.suffix_rfl
  | httpBegin | get | random | confirmHealthyBoot | otaPoll => exact (show w' = w from h) ▸ List.suffix_rfl
  | post batch => exact h.1 ▸ List.suffix_rfl

theorem torn_done {c : Call} {w w' : World ε} (h : torn E c w w') :
    w'.flash.done = w.flash.done := by
  cases c with
  | appendOpenSize p =>
    change w' = _ at h
    rw [h, World.done_set]
  | truncateTo p n =>
    obtain ⟨junk, -, -, rfl⟩ := h
    exact World.done_set _ _ _
  | appendWrite p data =>
    obtain ⟨junk, -, -, rfl⟩ := h
    exact World.done_set _ _ _
  | writeWhole p data =>
    obtain ⟨c, -, rfl⟩ := h
    exact World.done_set _ _ _
  | remove p =>
    change w' = _ at h
    rw [h, World.done_set]
  | post batch => rw [h.1]
  | files => exact congrArg (·.flash.done) (show w' = w from h)
  | readAt p offset len => exact congrArg (·.flash.done) (show w' = w from h)
  | openDir => exact congrArg (·.flash.done) (show w' = w from h)
  | pcntGet => exact congrArg (·.flash.done) (show w' = w from h)
  | pcntClear => exact congrArg (·.flash.done) (show w' = w from h)
  | millis => exact congrArg (·.flash.done) (show w' = w from h)
  | online => exact congrArg (·.flash.done) (show w' = w from h)
  | httpBegin | get | random | confirmHealthyBoot | otaPoll => exact congrArg (·.flash.done) (show w' = w from h)

/-- **No routine rewrites history.** -/
theorem wp_history (p : Fw α) {w0 w : World ε} (h : w0.flash.done <:+ w.flash.done) :
    wp (sem E) p (fun _ w' => w0.flash.done <:+ w'.flash.done)
      (fun w' => w0.flash.done <:+ w'.flash.done) w := by
  induction p generalizing w with
  | ret a => exact ⟨h, h⟩
  | call c k ih =>
    refine wp_call h (fun w' hc => ?_) fun r w' hr => ih r (h.trans (reply_done hr))
    rw [torn_done hc]
    exact h

theorem Slots.Unwrapped.of_suffix {R : Type} {S : Slots R} {f f' : Flash} (h : S.Unwrapped f')
    (hs : f.done <:+ f'.done) : S.Unwrapped f :=
  fun b d hd => h b d (hs.subset hd)

/-! ## Counting the checkpoint writes -/

/-- The number of checkpoint writes that have completed. -/
def Flash.checkpoints (f : Flash) : ℕ := f.done.countP fun e => e.1 = .tot true ∨ e.1 = .tot false

/-- Fewer than 2^32 checkpoint writes have completed, so their 32-bit count has
not come round. -/
def Flash.Counted (f : Flash) : Prop := f.checkpoints < 2 ^ 32

theorem checkpoints_congr {f f' : Flash} (h : f'.done = f.done) :
    f'.checkpoints = f.checkpoints := by
  rw [Flash.checkpoints, h, ← Flash.checkpoints]

theorem checkpoints_write (w : World ε) (b : Bool) (d : Data) :
    (w.write (ckptSlots.path b) d).flash.checkpoints = w.flash.checkpoints + 1 := by
  have hb : ckptSlots.path b = .tot true ∨ ckptSlots.path b = .tot false := by
    cases b <;> simp [ckptSlots]
  rw [Flash.checkpoints, World.done_write, List.countP_cons_of_pos (by simpa using hb),
    ← Flash.checkpoints]

theorem Flash.Counted.of_suffix {f f' : Flash} (h : f'.Counted) (hs : f.done <:+ f'.done) :
    f.Counted := lt_of_le_of_lt (hs.sublist.countP_le) h

/-- No routine takes a checkpoint write back. -/
theorem wp_checkpoints (p : Fw α) (w : World ε) :
    wp (sem E) p (fun _ w' => w.flash.checkpoints ≤ w'.flash.checkpoints)
      (fun w' => w.flash.checkpoints ≤ w'.flash.checkpoints) w :=
  wp_mono (wp_history p List.suffix_rfl) (fun _ _ hs => hs.sublist.countP_le)
    fun _ hs => hs.sublist.countP_le

/-- The number of writes of the acknowledgement record that have completed. -/
def Flash.acks (f : Flash) : ℕ := f.done.countP fun e => e.1 = .ack true ∨ e.1 = .ack false

theorem acks_congr {f f' : Flash} (h : f'.done = f.done) : f'.acks = f.acks := by
  rw [Flash.acks, h, ← Flash.acks]

theorem acks_write (w : World ε) (b : Bool) (d : Data) :
    (w.write (ackSlots.path b) d).flash.acks = w.flash.acks + 1 := by
  have hb : ackSlots.path b = .ack true ∨ ackSlots.path b = .ack false := by
    cases b <;> simp [ackSlots]
  rw [Flash.acks, World.done_write, List.countP_cons_of_pos (by simpa using hb), ← Flash.acks]

/-- A write of the one record does not count as a write of the other. -/
theorem acks_write_ckpt (w : World ε) (b : Bool) (d : Data) :
    (w.write (ckptSlots.path b) d).flash.acks = w.flash.acks := by
  rw [Flash.acks, World.done_write, List.countP_cons_of_neg (by simp [ckptSlots]), ← Flash.acks]

theorem checkpoints_write_ack (w : World ε) (b : Bool) (d : Data) :
    (w.write (ackSlots.path b) d).flash.checkpoints = w.flash.checkpoints := by
  rw [Flash.checkpoints, World.done_write, List.countP_cons_of_neg (by simp [ackSlots]),
    ← Flash.checkpoints]

/-- A fact about states whose checkpoint count has not come round may assume that
of the state before. -/
theorem wp_of_counted {p : Fw α} {Q : α → World ε → Prop}
    {C : World ε → Prop} {w : World ε}
    (h : w.flash.Counted → wp (sem E) p (fun a w' => w'.flash.Counted → Q a w')
      (fun w' => w'.flash.Counted → C w') w) :
    wp (sem E) p (fun a w' => w'.flash.Counted → Q a w') (fun w' => w'.flash.Counted → C w') w := by
  by_cases hc : w.flash.Counted
  · exact h hc
  · refine wp_mono (wp_history p List.suffix_rfl) ?_ ?_
    · intro _ w' hs hc'
      exact absurd (hc'.of_suffix hs) hc
    · intro w' hs hc'
      exact absurd (hc'.of_suffix hs) hc

/-! ## Routines that stay away from the slots -/

/-- The calls that can change nothing but segment files. -/
def Call.SegmentOnly : Call → Prop
  | .appendOpenSize p => ∃ i, p = .seg i
  | .truncateTo p _ => ∃ i, p = .seg i
  | .appendWrite p _ => ∃ i, p = .seg i
  | .remove p => ∃ i, p = .seg i
  | .writeWhole _ _ => False
  | .post _ => False
  | _ => True

/-- Routines made of such calls. -/
def SegmentOnly (p : Fw α) : Prop := p.Makes Call.SegmentOnly

theorem Call.Senses.segmentOnly {c : Call} (h : c.Senses) : c.SegmentOnly := by
  cases c <;> trivial

/-- Two worlds that differ in segment files only. -/
structure SameSlots (w w' : World ε) : Prop where
  file : ∀ p, (∀ i, p ≠ .seg i) → w'.file p = w.file p
  done : w'.flash.done = w.flash.done
  peer : w'.peer = w.peer

theorem SameSlots.refl (w : World ε) : SameSlots w w := ⟨fun _ _ => rfl, rfl, rfl⟩

theorem SameSlots.set_seg {w w' : World ε} (h : SameSlots w w') (i : ℕ) (c : Option Data) :
    SameSlots w (w'.set (.seg i) c) := by
  refine ⟨fun p hp => ?_, ?_, h.peer⟩
  · rw [World.file_set, Function.update_of_ne (hp i), h.file p hp]
  · rw [World.done_set, h.done]

theorem SameSlots.slots {R : Type} {S : Slots R} {w w' : World ε} (h : SameSlots w w')
    (hS : ∀ b i, S.path b ≠ .seg i) {r : R} (hl : S.Last w.file r) : S.Last w'.file r :=
  hl.congr fun b => h.file _ (hS b)

theorem SameSlots.trans {w w' w'' : World ε} (h : SameSlots w w') (h' : SameSlots w' w'') :
    SameSlots w w'' :=
  ⟨fun p hp => (h'.file p hp).trans (h.file p hp), h'.done.trans h.done, h'.peer.trans h.peer⟩

/-- **Such a routine leaves the slots and the history alone**, whenever it is
cut. -/
theorem SegmentOnly.wp {p : Fw α} (hp : SegmentOnly p) {w0 w : World ε} (h : SameSlots w0 w) :
    Crash.wp (sem E) p (fun _ w' => SameSlots w0 w') (fun w' => SameSlots w0 w') w := by
  induction p generalizing w with
  | ret a => exact ⟨h, h⟩
  | call c k ih =>
    obtain ⟨hc, hk⟩ := hp
    have hnext : ∀ r w', SameSlots w0 w' → Crash.wp (sem E) (k r)
      (fun _ w' => SameSlots w0 w') (fun w' => SameSlots w0 w') w' := fun r w' h' => ih r (hk r) h'
    cases c with
    | appendOpenSize p =>
      obtain ⟨i, rfl⟩ := hc
      exact wp_appendOpenSize h (h.set_seg i _) (hnext _ _ (h.set_seg i _)) fun _ => hnext _ _ h
    | truncateTo p n =>
      obtain ⟨i, rfl⟩ := hc
      refine wp_call h ?_ ?_
      · rintro _ ⟨junk, -, -, rfl⟩
        exact h.set_seg i _
      · rintro r _ (⟨-, b, -, -, rfl⟩ | ⟨-, -, rfl⟩)
        · exact hnext _ _ (h.set_seg i _)
        · exact hnext _ _ h
    | appendWrite p data =>
      obtain ⟨i, rfl⟩ := hc
      exact wp_appendWrite h (fun _ _ _ => h.set_seg i _) (hnext _ _ (h.set_seg i _))
        (fun _ => hnext _ _ h) fun _ j _ => hnext _ _ (h.set_seg i _)
    | remove p =>
      obtain ⟨i, rfl⟩ := hc
      exact wp_remove h (hnext _ _ (h.set_seg i _))
    | files => exact wp_files (hnext _ _ h)
    | readAt p offset len =>
      refine wp_call h ?_ ?_
      · rintro _ rfl
        exact h
      · rintro r _ ⟨rfl, -⟩
        exact hnext _ _ h
    | openDir => exact wp_openDir h fun _ _ => hnext _ _ h
    | pcntGet => exact wp_sense (by simp) h fun _ => hnext _ _ h
    | pcntClear => exact wp_sense (by simp) h fun _ => hnext _ _ h
    | millis => exact wp_sense (by simp) h fun _ => hnext _ _ h
    | online => exact wp_sense (by simp) h fun _ => hnext _ _ h
    | httpBegin | get | random | confirmHealthyBoot | otaPoll => exact wp_sense (by simp) h fun _ => hnext _ _ h
    | writeWhole p data => exact hc.elim
    | post batch => exact hc.elim

/-! ## The routines of the queue that are of this kind -/

namespace EventQueue

theorem segmentOnly_removeAll (l : List ℕ) : SegmentOnly (removeAll l) :=
  makes_removeAll (fun i => ⟨i, rfl⟩) l

theorem segmentOnly_adoptValidRows (p : Path) (fileSize fuel off : ℕ) :
    SegmentOnly (adoptValidRows p fileSize fuel off) :=
  makes_adoptValidRows (fun _ h => h.1.segmentOnly) p fileSize fuel off

theorem segmentOnly_reconcile (i goodOffset actualSize : ℕ) :
    SegmentOnly (reconcile (.seg i) goodOffset actualSize) :=
  makes_reconcile (fun _ h => h.1.segmentOnly) (fun _ => ⟨i, rfl⟩) goodOffset actualSize

/-- `removeAll` removes the listed segments and nothing else. -/
theorem wp_removeAll {w w0 : World ε} (P : ℕ → Prop) :
    ∀ l : List ℕ, (∀ s ∈ l, P s) → SameSlots w0 w →
      (∀ s, w.file (.seg s) = w0.file (.seg s) ∨ (w.file (.seg s) = none ∧ P s)) →
      wp (sem E) (removeAll l)
        (fun _ w' => SameSlots w0 w' ∧
          ∀ s, w'.file (.seg s) = w0.file (.seg s) ∨ (w'.file (.seg s) = none ∧ P s))
        (fun w' => SameSlots w0 w' ∧
          ∀ s, w'.file (.seg s) = w0.file (.seg s) ∨ (w'.file (.seg s) = none ∧ P s)) w := by
  intro l
  induction l generalizing w with
  | nil => exact fun _ h1 h2 => ⟨⟨h1, h2⟩, h1, h2⟩
  | cons x l ih =>
    intro hl h1 h2
    refine wp_remove ⟨h1, h2⟩ (ih (fun s hs => hl s (List.mem_cons_of_mem _ hs))
      (h1.set_seg x none) fun s => ?_)
    rw [World.file_set]
    by_cases hs : s = x
    · rw [hs, Function.update_self]
      exact .inr ⟨rfl, hl x List.mem_cons_self⟩
    · rw [Function.update_of_ne (by simpa using hs)]
      exact h2 s

/-- Which segments are there afterwards. -/
theorem wp_removeAll_file {w : World ε} (l : List ℕ) :
    wp (sem E) (removeAll l)
      (fun _ w' => ∀ i, w'.file (.seg i) = if i ∈ l then none else w.file (.seg i))
      (fun _ => True) w := by
  induction l generalizing w with
  | nil => exact ⟨trivial, fun i => (if_neg List.not_mem_nil).symm⟩
  | cons x l ih =>
    refine wp_remove trivial (wp_mono ih (fun _ w' h i => ?_) fun _ h => h)
    rw [h i, World.file_set]
    by_cases hx : i = x
    · subst hx
      rw [Function.update_self, ite_self, if_pos List.mem_cons_self]
    · rw [Function.update_of_ne (by simpa using hx)]
      simp only [List.mem_cons, hx, false_or]

end EventQueue

/-! ## The files a routine can change -/

/-- The file a call can change. -/
def Call.target : Call → Option Path
  | .appendOpenSize p => some p
  | .truncateTo p _ => some p
  | .appendWrite p _ => some p
  | .writeWhole p _ => some p
  | .remove p => some p
  | _ => none

/-- Every file the routine can change satisfies `P`. -/
def Touches (P : Path → Prop) (p : Fw α) : Prop := p.Makes fun c => ∀ x, c.target = some x → P x

/-- A call that changes nothing touches no file. -/
theorem Call.Senses.touches {c : Call} (h : c.Senses) (P : Path → Prop) :
    ∀ x, c.target = some x → P x := by
  intro x hx
  cases c <;> first | exact h.elim | cases hx

theorem reply_file {c : Call} {w w' : World ε} {r : c.Reply} (h : reply E c w r w') {q : Path}
    (hq : c.target ≠ some q) : w'.file q = w.file q := by
  have hset : ∀ {p x}, some p ≠ some q → (w.set p x).file q = w.file q := by
    intro p x hp
    have hne : q ≠ p := fun hc => hp (congrArg some hc.symm)
    rw [World.file_set, Function.update_of_ne hne]
  cases c with
  | files => rw [h.2]
  | appendOpenSize p =>
    rcases h with ⟨-, -, rfl⟩ | ⟨-, -, rfl⟩
    · exact hset hq
    · rfl
  | truncateTo p n =>
    rcases h with ⟨-, b, -, -, rfl⟩ | ⟨-, -, rfl⟩
    · exact hset hq
    · rfl
  | appendWrite p data =>
    rcases h with ⟨-, -, rfl⟩ | ⟨-, ⟨-, rfl⟩ | ⟨k, -, -, rfl⟩⟩
    · exact hset hq
    · rfl
    · exact hset hq
  | readAt p offset len => rw [h.1]
  | writeWhole p data =>
    rcases h with ⟨-, -, rfl⟩ | ⟨-, -, c, -, rfl⟩
    · have hne : q ≠ p := fun hc => hq (congrArg some hc.symm)
      rw [World.file_write, Function.update_of_ne hne]
    · exact hset hq
  | remove p =>
    change w' = w.set p none at h
    exact h ▸ hset hq
  | openDir => rw [h.2]
  | pcntGet => rw [show w' = w from h]
  | pcntClear => rw [show w' = w from h]
  | millis => rw [show w' = w from h]
  | online => rw [show w' = w from h]
  | httpBegin | get | random | confirmHealthyBoot | otaPoll => rw [show w' = w from h]
  | post batch => rw [World.file, h.1]

theorem torn_file {c : Call} {w w' : World ε} (h : torn E c w w') {q : Path}
    (hq : c.target ≠ some q) : w'.file q = w.file q := by
  have hset : ∀ {p x}, some p ≠ some q → (w.set p x).file q = w.file q := by
    intro p x hp
    have hne : q ≠ p := fun hc => hp (congrArg some hc.symm)
    rw [World.file_set, Function.update_of_ne hne]
  cases c with
  | appendOpenSize p =>
    change w' = _ at h
    exact h ▸ hset hq
  | truncateTo p n =>
    obtain ⟨junk, -, -, rfl⟩ := h
    exact hset hq
  | appendWrite p data =>
    obtain ⟨junk, -, -, rfl⟩ := h
    exact hset hq
  | writeWhole p data =>
    obtain ⟨c, -, rfl⟩ := h
    exact hset hq
  | remove p =>
    change w' = _ at h
    exact h ▸ hset hq
  | post batch => rw [World.file, h.1]
  | files => rw [show w' = w from h]
  | readAt p offset len => rw [show w' = w from h]
  | openDir => rw [show w' = w from h]
  | pcntGet => rw [show w' = w from h]
  | pcntClear => rw [show w' = w from h]
  | millis => rw [show w' = w from h]
  | online => rw [show w' = w from h]
  | httpBegin | get | random | confirmHealthyBoot | otaPoll => rw [show w' = w from h]

/-- **A routine leaves every other file alone**, whenever it is cut. -/
theorem Touches.wp {P : Path → Prop} {p : Fw α} (hp : Touches P p) {w0 w : World ε}
    (h : ∀ q, ¬ P q → w.file q = w0.file q) :
    Crash.wp (sem E) p (fun _ w' => ∀ q, ¬ P q → w'.file q = w0.file q)
      (fun w' => ∀ q, ¬ P q → w'.file q = w0.file q) w := by
  induction p generalizing w with
  | ret a => exact ⟨h, h⟩
  | call c k ih =>
    refine wp_call h (fun w' hc q hq => ?_) fun r w' hr => ih r (hp.2 r) fun q hq => ?_
    · rw [torn_file hc fun ht => hq (hp.1 q ht), h q hq]
    · rw [reply_file hr fun ht => hq (hp.1 q ht), h q hq]

/-- Only a push reaches the server. -/
theorem reply_peer {c : Call} {w w' : World ε} {r : c.Reply} (h : reply E c w r w')
    (hc : ∀ batch, c ≠ .post batch) : w'.peer = w.peer := by
  cases c with
  | files => exact h.2 ▸ rfl
  | appendOpenSize p =>
    rcases h with ⟨-, -, rfl⟩ | ⟨-, -, rfl⟩ <;> rfl
  | truncateTo p n =>
    rcases h with ⟨-, b, -, -, rfl⟩ | ⟨-, -, rfl⟩ <;> rfl
  | appendWrite p data =>
    rcases h with ⟨-, -, rfl⟩ | ⟨-, ⟨-, rfl⟩ | ⟨k, -, -, rfl⟩⟩ <;> rfl
  | readAt p offset len => exact h.1 ▸ rfl
  | writeWhole p data =>
    rcases h with ⟨-, -, rfl⟩ | ⟨-, -, c, -, rfl⟩ <;> rfl
  | remove p => exact (show w' = w.set p none from h) ▸ rfl
  | openDir => exact h.2 ▸ rfl
  | pcntGet | pcntClear | millis | online => exact (show w' = w from h) ▸ rfl
  | httpBegin | get | random | confirmHealthyBoot | otaPoll => exact (show w' = w from h) ▸ rfl
  | post batch => exact absurd rfl (hc batch)

/-- **A routine that does not push keeps the server as it is**, if it completes. -/
theorem wp_peer {p : Fw α} (hp : p.Makes fun c => ∀ batch, c ≠ .post batch) (w : World ε) :
    Crash.wp (sem E) p (fun _ w' => w'.peer = w.peer) (fun _ => True) w := by
  induction p generalizing w with
  | ret a => exact ⟨trivial, rfl⟩
  | call c k ih =>
    refine wp_call trivial (fun _ _ => trivial) fun r w' hr => ?_
    rw [← reply_peer hr hp.1]
    exact ih r (hp.2 r) w'

/-- **A routine that only reads leaves the world as it is.** -/
theorem Senses.wp {p : Fw α} (hp : p.Makes Call.Senses) (w : World ε) :
    Crash.wp (sem E) p (fun _ w' => w' = w) (fun w' => w' = w) w := by
  induction p with
  | ret a => exact ⟨rfl, rfl⟩
  | call c k ih =>
    obtain ⟨hc, hk⟩ := hp
    refine wp_call rfl (fun w' h => ?_) fun r w' h => ?_
    · change torn E c w w' at h
      cases c <;> first | exact hc.elim | exact h
    · have hsame : w' = w := by
        change reply E c w r w' at h
        cases c with
        | files => exact h.2
        | readAt p offset len => exact h.1
        | openDir => exact h.2
        | pcntGet | pcntClear | millis | online | httpBegin | get | random => exact h
        | appendOpenSize | truncateTo | appendWrite | writeWhole | remove => exact hc.elim
        | post | confirmHealthyBoot | otaPoll => exact hc.elim
      rw [hsame]
      exact ih r (hk r)

/-! ## Routines that meet no failure -/

/-- The flash without the surroundings. -/
abbrev World.alone (w : World ε) : World Unit := ⟨w.flash, ()⟩

/-- **A routine none of whose calls can fail runs as on a working file system**,
as long as the server is out of reach. -/
theorem wp_of_calm {p : Fw α} {w : World ε} (hp : p.Makes fun c => ¬ E.fails c w.peer)
    (hserve : ∀ b r e, E.serve b w.peer r e → r = ⟨-1, []⟩ ∧ e = w.peer)
    (hcut : ∀ b e, E.serveCut b w.peer e → e = w.peer)
    {Q : α → World Unit → Prop} {C : World Unit → Prop} (h : wp (sem Env.calm) p Q C w.alone) :
    wp (sem E) p (fun a w' => Q a w'.alone ∧ w'.peer = w.peer)
      (fun w' => C w'.alone ∧ w'.peer = w.peer) w := by
  refine wp_simulate (f := World.alone) (I := fun w' => w'.peer = w.peer) ?_ ?_ hp rfl h
  · intro c hc w1 r w2 hw1 hr
    rw [← hw1] at hc hserve ⊢
    change reply E c w1 r w2 at hr
    change reply Env.calm c w1.alone r w2.alone ∧ _
    cases c with
    | files => exact ⟨⟨hr.1, by rw [hr.2]⟩, by rw [hr.2]⟩
    | appendOpenSize p =>
      rcases hr with ⟨-, h1, rfl⟩ | ⟨hf, -⟩
      · exact ⟨.inl ⟨trivial, h1, rfl⟩, rfl⟩
      · exact absurd hf hc
    | truncateTo p n =>
      rcases hr with ⟨-, b, hb, h1, rfl⟩ | ⟨hf | hb, h1, rfl⟩
      · exact ⟨.inl ⟨trivial, b, hb, h1, rfl⟩, rfl⟩
      · exact absurd hf hc
      · exact ⟨.inr ⟨.inr hb, h1, rfl⟩, rfl⟩
    | appendWrite p data =>
      rcases hr with ⟨-, h1, rfl⟩ | ⟨hf, -⟩
      · exact ⟨.inl ⟨trivial, h1, rfl⟩, rfl⟩
      · exact absurd hf hc
    | readAt p offset len =>
      obtain ⟨rfl, ⟨-, h1⟩ | ⟨hf, -⟩⟩ := hr
      · exact ⟨⟨rfl, .inl ⟨trivial, h1⟩⟩, rfl⟩
      · exact absurd hf hc
    | writeWhole p data =>
      rcases hr with ⟨-, h1, rfl⟩ | ⟨hf, -⟩
      · exact ⟨.inl ⟨trivial, h1, rfl⟩, rfl⟩
      · exact absurd hf hc
    | remove p =>
      change w2 = w1.set p none at hr
      rw [hr]
      exact ⟨rfl, rfl⟩
    | openDir => exact ⟨⟨hr.1, by rw [hr.2]⟩, by rw [hr.2]⟩
    | pcntGet => exact (show w2 = w1 from hr) ▸ ⟨rfl, rfl⟩
    | pcntClear => exact (show w2 = w1 from hr) ▸ ⟨rfl, rfl⟩
    | millis => exact (show w2 = w1 from hr) ▸ ⟨rfl, rfl⟩
    | online => exact (show w2 = w1 from hr) ▸ ⟨rfl, rfl⟩
    | httpBegin | get | random | confirmHealthyBoot | otaPoll => exact (show w2 = w1 from hr) ▸ ⟨rfl, rfl⟩
    | post batch =>
      obtain ⟨h1, h2⟩ := hr
      exact ⟨⟨h1, (hserve _ _ _ h2).1, rfl⟩, (hserve _ _ _ h2).2⟩
  · intro c _ w1 w2 hw1 hr
    rw [← hw1] at hcut ⊢
    change torn E c w1 w2 at hr
    change torn Env.calm c w1.alone w2.alone ∧ _
    cases c with
    | appendOpenSize p =>
      change w2 = _ at hr
      exact hr ▸ ⟨rfl, rfl⟩
    | truncateTo p n =>
      obtain ⟨junk, hj, -, rfl⟩ := hr
      exact ⟨⟨junk, hj, trivial, rfl⟩, rfl⟩
    | appendWrite p data =>
      obtain ⟨junk, hj, -, rfl⟩ := hr
      exact ⟨⟨junk, hj, trivial, rfl⟩, rfl⟩
    | writeWhole p data =>
      obtain ⟨x, hx, rfl⟩ := hr
      exact ⟨⟨x, hx, rfl⟩, rfl⟩
    | remove p =>
      change w2 = _ at hr
      exact hr ▸ ⟨rfl, rfl⟩
    | post batch => exact ⟨⟨hr.1, rfl⟩, hcut _ _ hr.2⟩
    | files => exact (show w2 = w1 from hr) ▸ ⟨rfl, rfl⟩
    | readAt p offset len => exact (show w2 = w1 from hr) ▸ ⟨rfl, rfl⟩
    | openDir => exact (show w2 = w1 from hr) ▸ ⟨rfl, rfl⟩
    | pcntGet => exact (show w2 = w1 from hr) ▸ ⟨rfl, rfl⟩
    | pcntClear => exact (show w2 = w1 from hr) ▸ ⟨rfl, rfl⟩
    | millis => exact (show w2 = w1 from hr) ▸ ⟨rfl, rfl⟩
    | online => exact (show w2 = w1 from hr) ▸ ⟨rfl, rfl⟩
    | httpBegin | get | random | confirmHealthyBoot | otaPoll => exact (show w2 = w1 from hr) ▸ ⟨rfl, rfl⟩

/-! ## The members a routine keeps -/

/-- `append` does not move the acknowledgement record. -/
theorem EventQueue.append_returns (q : EventQueue) (t : Totalizer) (row : QRow) :
    (q.append t row).Returns fun r => r.1.ack = q.ack := by
  have hrec : ∀ code, Prog.Returns (fun r : EventQueue × Totalizer => r.1.ack = q.ack)
      (do return (← q.recordWriteFailure code, t)) := by
    intro code
    simp only [recordWriteFailure, persistFail, Slots.persist, Fw.millis_bind, Fw.writeWhole_bind,
      Prog.pure_eq_ret]
    exact fun _ _ => rfl
  obtain ⟨⟨seg, off⟩, htarget⟩ : ∃ r, target t = r := ⟨_, rfl⟩
  simp only [append, htarget, Fw.appendOpenSize_bind, Fw.appendWrite_bind]
  rintro (_ | size)
  · exact hrec .segmentOpen
  · refine (Prog.Returns.trivial _).bind fun good _ => ?_
    cases good with
    | none => exact hrec .truncate
    | some good =>
      rintro (_ | n)
      · exact hrec .writeShort
      · simp only
        split
        · exact hrec .writeShort
        · exact (Prog.Returns.trivial _).bind fun _ _ => rfl

end Device
end CovioFirmware
