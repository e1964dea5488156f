import CovioFirmware.Device.Slots

/-!
# `totalizer.h`

The totalizer counts pulses and keeps the checkpoint: lifetime total, last
committed seq and the write position of the queue.  The checkpoint lives in two
slots; `persist` numbers each write and sends it to the slot of its parity, and
`begin` recovers the newest slot that passes its checks, in the present format or
the pre-Phase-2 one.

The pulse counter is a peripheral: the calls that read and clear it are answered
by the environment.
-/

namespace CovioFirmware
namespace Device

open Crash

/-- The two slots of the checkpoint. -/
def ckptSlots : Slots Checkpoint where
  kind := Checkpoint.kind
  path := .tot
  load c := (loadSlot c).map Prod.fst
  zero := Checkpoint.blank
  writes := Checkpoint.writes
  setWrites r n := { r with writes := n }
  path_injective _ _ h := Path.tot.inj h
  unreadable_iff _ c := by simp [Unreadable]
  load_bytes r h := by simp [loadSlot, Checkpoint.kind.loadExact_bytes h]
  writes_setWrites _ _ := rfl
  writes_stamp _ _ := rfl

/-- The object's members. -/
structure Totalizer where
  /-- `cp_`. -/
  cp : Checkpoint
  /-- `base_`: the total before this boot. -/
  base : UInt64
  /-- `accumulated_`: counts drained out of the peripheral this boot. -/
  accumulated : UInt64
  deriving DecidableEq

namespace Totalizer

/-- `lastSeq`. -/
def lastSeq (t : Totalizer) : UInt32 := t.cp.seq

/-- `queueOffsetSegment`. -/
def queueOffsetSegment (t : Totalizer) : UInt32 := t.cp.qSegment

/-- `queueOffsetOffset`. -/
def queueOffsetOffset (t : Totalizer) : UInt32 := t.cp.qOffset

/-- `persist_`. -/
def persist (t : Totalizer) : Fw Totalizer := do
  let cp ← ckptSlots.persist t.cp
  return { t with cp := cp }

/-- `setQueueOffset`. -/
def setQueueOffset (t : Totalizer) (segment offset : UInt32) : Fw Totalizer :=
  persist { t with cp := { t.cp with qSegment := segment, qOffset := offset } }

/-- `total`: the persisted base, what was drained, and what the counter holds. -/
def total (t : Totalizer) : Fw UInt64 := do
  let c ← Fw.pcntGet
  return t.base + t.accumulated + c.toUInt64

/-- The first half of `service`: drain the counter before it can wrap. -/
def drain (t : Totalizer) : Fw Totalizer := do
  let c ← Fw.pcntGet
  if 30000 ≤ c then do
    let _ ← Fw.pcntClear
    return { t with accumulated := t.accumulated + c.toUInt64 }
  else return t

/-- `service`: drain the counter, then checkpoint the total and the seq. -/
def service (t : Totalizer) (seq : UInt32) : Fw Totalizer := do
  let t ← t.drain
  let c2 ← Fw.pcntGet
  persist { t with cp := { t.cp with
    total := t.base + t.accumulated + c2.toUInt64, seq := seq } }

/-- `injectSoftPulses`. -/
def injectSoftPulses (t : Totalizer) (n : UInt32) : Totalizer :=
  { t with accumulated := t.accumulated + n.toUInt64 }

/-- The choice `begin` makes between what it could read from the two slots; the
flag says whether the chosen one was in the legacy format. -/
def choose (a b : Option (Checkpoint × Bool)) : Checkpoint × Bool :=
  match a, b with
  | some a, some b => if b.1.writes ≤ a.1.writes then a else b
  | some a, none => a
  | none, some b => b
  | none, none => (Checkpoint.blank, false)

/-- `begin`.  A checkpoint found in the legacy format is persisted again at
once. -/
def begin (bootId : UInt32) : Fw Totalizer := do
  let _ ← Fw.pcntClear
  let fs ← Fw.files
  let (cp, usedLegacy) := choose (loadSlot (fs (.tot true))) (loadSlot (fs (.tot false)))
  let t : Totalizer := { cp := { cp with bootId := bootId }, base := cp.total, accumulated := 0 }
  if usedLegacy then persist t else return t

/-- Apart from the format flag, `begin` makes the choice every record's recovery
makes. -/
theorem choose_fst (fs : Path → Option Data) :
    (choose (loadSlot (fs (.tot true))) (loadSlot (fs (.tot false)))).1 = ckptSlots.recover fs := by
  change _ = ckptSlots.choose ((loadSlot (fs (.tot true))).map Prod.fst)
    ((loadSlot (fs (.tot false))).map Prod.fst)
  cases loadSlot (fs (.tot true)) with
  | none => cases loadSlot (fs (.tot false)) <;> rfl
  | some a =>
    cases loadSlot (fs (.tot false)) with
    | none => rfl
    | some b =>
      simp only [choose, Slots.choose, Option.map_some]
      change _ = if b.1.writes ≤ a.1.writes then a.1 else b.1
      split <;> rfl

/-! ## Rules -/

section Rules

variable {ε α : Type} {E : Env ε} {C : World ε → Prop} {w : World ε} {t : Totalizer}

theorem wp_total {k : UInt64 → Fw α} {Q : α → World ε → Prop} (hC : C w)
    (h : ∀ n, wp (sem E) (k n) Q C w) : wp (sem E) (t.total >>= k) Q C w :=
  wp_sense (by simp) hC fun _ => h _

theorem wp_persist {Q : Totalizer → World ε → Prop}
    (h : wp (sem E) (ckptSlots.persist t.cp) (fun cp w' => Q { t with cp := cp } w') C w) :
    wp (sem E) t.persist Q C w := wp_map h

/-- `service` persists the checkpoint with a new total and the given seq. -/
theorem wp_service {seq : UInt32} {Q : Totalizer → World ε → Prop} (hC : C w)
    (h : ∀ acc total, wp (sem E) (persist { t with
      accumulated := acc, cp := { t.cp with total := total, seq := seq } }) Q C w) :
    wp (sem E) (t.service seq) Q C w := by
  have hdrain : wp (sem E) t.drain (fun t' w' => w' = w ∧ ∃ acc, t' = { t with accumulated := acc })
      C w := by
    simp only [drain, Fw.pcntGet_bind, Fw.pcntClear_bind, Prog.pure_eq_ret]
    refine wp_sense (by simp) hC fun c => ?_
    by_cases hc : (30000 : UInt16) ≤ c
    · rw [if_pos hc]
      exact wp_sense (by simp) hC fun _ => ⟨hC, rfl, _, rfl⟩
    · rw [if_neg hc]
      exact ⟨hC, rfl, t.accumulated, rfl⟩
  refine wp_bind_of hdrain (fun _ hw => hw) ?_
  rintro _ _ ⟨rfl, acc, rfl⟩
  exact wp_sense (by simp) hC fun c => h acc _

/-- `begin` takes the recovered checkpoint under the new boot id, and persists it
once more if it was in the legacy format. -/
theorem wp_begin {bootId : UInt32} {Q : Totalizer → World ε → Prop} (hC : C w)
    (h : let c := ckptSlots.recover w.file
      let t : Totalizer := { cp := { c with bootId := bootId }, base := c.total, accumulated := 0 }
      Q t w ∧ ((choose (loadSlot (w.file (.tot true))) (loadSlot (w.file (.tot false)))).2 = true →
        wp (sem E) t.persist Q C w)) :
    wp (sem E) (begin bootId) Q C w := by
  simp only [begin, Fw.pcntClear_bind, Fw.files_bind, choose_fst, Prog.pure_eq_ret]
  refine wp_sense (by simp) hC fun _ => wp_files ?_
  split
  · next hlegacy => exact h.2 hlegacy
  · exact ⟨hC, h.1⟩

end Rules

end Totalizer

end Device
end CovioFirmware
