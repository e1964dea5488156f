import CovioFirmware.Crash.PingPong
import CovioFirmware.Device.Calls

/-!
# The records that live in two slots

The checkpoint, the acknowledgement record and the failure record are persisted
by the same few lines: count the write, stamp the record, write it whole to the
slot of the new count's parity, and do not look at the outcome.  They are
recovered by the same few lines too: of the slots that pass their check, the one
with the larger count, slot `A` on a tie.

`Slots R` collects what those lines need to know about a record.  `Slots.Last`
is the ping-pong invariant for it, and the rest of the file says what the calls
of the firmware do to that invariant: a file that is not a slot leaves it alone,
a torn write leaves it alone, a completed write moves it on unless the 32-bit
count has come round to zero.
-/

namespace CovioFirmware
namespace Device

open Crash

/-- The slot a write number selects: `(writes & 1) ? A : B`. -/
def slotOf (writes : UInt32) : Bool := (writes &&& 1) != 0

theorem slotOf_eq_parity (w : UInt32) : slotOf w = PingPong.parity w.toNat := by
  have h : (w &&& 1).toNat = w.toNat % 2 := by
    rw [UInt32.toNat_and]
    exact Nat.and_one_is_mod w.toNat
  unfold slotOf PingPong.parity
  rw [Bool.eq_iff_iff, bne_iff_ne, ne_eq, decide_eq_true_eq, ← UInt32.toNat_inj, h]
  change ¬ w.toNat % 2 = 0 ↔ _
  omega

theorem toNat_succ {w : UInt32} (h : w + 1 ≠ 0) : (w + 1).toNat = w.toNat + 1 := by
  have hlt := w.toNat_lt
  have hadd : (w + 1).toNat = (w.toNat + 1) % 2 ^ 32 := UInt32.toNat_add w 1
  by_contra hc
  refine h (UInt32.toNat_inj.mp ?_)
  rw [hadd] at hc ⊢
  change (w.toNat + 1) % 2 ^ 32 = 0
  omega

/-- Consecutive writes go to different slots, also where the count wraps. -/
theorem slotOf_succ (w : UInt32) : slotOf (w + 1) = !slotOf w := by
  rw [slotOf_eq_parity, slotOf_eq_parity, ← PingPong.parity_succ, UInt32.toNat_add]
  unfold PingPong.parity
  change decide ((w.toNat + 1) % 2 ^ 32 % 2 = 1) = _
  rw [Nat.mod_mod_of_dvd _ ⟨2 ^ 31, by norm_num⟩]

/-- A record kept in two slots. -/
structure Slots (R : Type) where
  kind : RecordKind R
  /-- The two files; `true` is slot `A`. -/
  path : Bool → Path
  /-- What recovery makes of one slot. -/
  load : Option Data → Option R
  /-- The record recovery starts from when neither slot is valid. -/
  zero : R
  writes : R → UInt32
  setWrites : R → UInt32 → R
  path_injective : Function.Injective path
  unreadable_iff : ∀ b c, Unreadable (path b) c ↔ load c = none
  load_bytes : ∀ r, kind.intact r = true → load (some (kind.bytes r)) = some r
  writes_setWrites : ∀ r n, writes (setWrites r n) = n
  writes_stamp : ∀ r n, writes (kind.stamp (setWrites r n)) = n

namespace Slots

variable {R : Type} (S : Slots R)

/-- The record as the next persist writes it. -/
def next (r : R) : R := S.kind.stamp (S.setWrites r (S.writes r + 1))

/-- `persist_`, `persistAck_`, `persistFail_`.  The outcome of the write is not
looked at. -/
def persist (r : R) : Fw R := do
  let r := S.next r
  let _ ← Fw.writeWhole (S.path (slotOf (S.writes r))) (S.kind.bytes r)
  return r

/-- What recovery can read from the slots. -/
def slot (fs : Path → Option Data) (b : Bool) : Option R := S.load (fs (S.path b))

/-- The choice recovery makes between the two slots. -/
def choose (a b : Option R) : R :=
  match a, b with
  | some a, some b => if S.writes b ≤ S.writes a then a else b
  | some a, none => a
  | none, some b => b
  | none, none => S.zero

/-- The record recovered from the two slots. -/
def recover (fs : Path → Option Data) : R := S.choose (S.slot fs true) (S.slot fs false)

/-- The number of a record's write. -/
abbrev num (r : R) : ℕ := (S.writes r).toNat

/-- `r` is the last completely written record. -/
def Last (fs : Path → Option Data) (r : R) : Prop := PingPong.Last S.num S.zero (S.slot fs) r

/-- The last write of the record that completed, read off the history. -/
def latest (f : Flash) : Option R :=
  (f.done.find? fun e => e.1 = S.path true ∨ e.1 = S.path false).map fun e => S.kind.ofBytes e.2

/-- The count of the record's writes has not come round: no completed write
carries the number zero. -/
def Unwrapped (f : Flash) : Prop :=
  ∀ b d, (S.path b, d) ∈ f.done → S.writes (S.kind.ofBytes d) ≠ 0

/-! ## What the definitions compute -/

@[simp] theorem writes_next (r : R) : S.writes (S.next r) = S.writes r + 1 := S.writes_stamp r _

@[simp] theorem intact_next (r : R) : S.kind.intact (S.next r) = true := S.kind.intact_stamp _

theorem load_next (r : R) : S.load (some (S.kind.bytes (S.next r))) = some (S.next r) :=
  S.load_bytes _ (S.intact_next r)

theorem recover_eq (fs : Path → Option Data) :
    S.recover fs = PingPong.recover S.num S.zero (S.slot fs) := by
  unfold recover choose PingPong.recover PingPong.newest
  cases S.slot fs true with
  | none => cases S.slot fs false <;> rfl
  | some a =>
    cases S.slot fs false with
    | none => rfl
    | some b =>
      simp only [UInt32.le_iff_toNat_le]
      split <;> rfl

theorem Last.recover {S : Slots R} {fs : Path → Option Data} {r : R} (h : S.Last fs r) :
    S.recover fs = r := (S.recover_eq fs).trans (PingPong.Last.recover h)

@[simp] theorem slot_update (fs : Path → Option Data) (b : Bool) (c : Option Data) :
    S.slot (Function.update fs (S.path b) c) = Function.update (S.slot fs) b (S.load c) := by
  funext b'
  by_cases h : b' = b
  · rw [h, slot, Function.update_self, Function.update_self]
  · rw [slot, Function.update_of_ne (S.path_injective.ne h), Function.update_of_ne h, slot]

theorem slot_update_of_ne {fs : Path → Option Data} {p : Path} (h : ∀ b, S.path b ≠ p)
    (c : Option Data) : S.slot (Function.update fs p c) = S.slot fs := by
  funext b
  rw [slot, Function.update_of_ne (h b), slot]

/-! ## The invariant under the calls of the firmware -/

variable {S}

/-- A record is recovered from some slot, unless both are unreadable. -/
theorem recover_mem {fs : Path → Option Data} {b : Bool} {x : R}
    (hx : S.slot fs b = some x) : ∃ b', S.slot fs b' = some (S.recover fs) := by
  rw [S.recover_eq, PingPong.recover]
  cases hn : PingPong.newest S.num (S.slot fs true) (S.slot fs false) with
  | none =>
    obtain ⟨ht, hf⟩ := PingPong.newest_eq_none.mp hn
    cases b <;> simp_all
  | some y =>
    rcases PingPong.newest_mem hn with h | h
    · exact ⟨true, h⟩
    · exact ⟨false, h⟩

theorem recover_none {fs : Path → Option Data}
    (h : ∀ b, S.slot fs b = none) : S.recover fs = S.zero := by
  rw [Slots.recover, h, h]
  rfl

theorem Last.congr {fs fs' : Path → Option Data} {r : R} (h : S.Last fs r)
    (hfs : ∀ b, fs' (S.path b) = fs (S.path b)) : S.Last fs' r := by
  have hslot : S.slot fs' = S.slot fs := by
    funext b
    rw [slot, hfs, slot]
  rw [Last, hslot]
  exact h

/-- A write to the next slot that leaves it unreadable. -/
theorem Last.torn {fs : Path → Option Data} {r r' : R} (h : S.Last fs r)
    (hw : S.writes r' = S.writes r + 1) {c : Option Data}
    (hc : Unreadable (S.path (slotOf (S.writes r'))) c) :
    S.Last (Function.update fs (S.path (slotOf (S.writes r'))) c) r := by
  rw [Last, slot_update, (S.unreadable_iff _ c).mp hc]
  refine PingPong.Last.tear h ?_
  rw [hw, slotOf_succ, slotOf_eq_parity, PingPong.parity_succ]

/-- A completed write to the next slot. -/
theorem Last.written {fs : Path → Option Data} {r r' : R} (h : S.Last fs r)
    (hw : S.writes r' = S.writes r + 1) (hne : S.writes r' ≠ 0) {d : Data}
    (hd : S.load (some d) = some r') :
    S.Last (Function.update fs (S.path (slotOf (S.writes r'))) (some d)) r' := by
  rw [Last, slot_update, hd]
  refine PingPong.Last.write h ?_ (slotOf_eq_parity _)
  change (S.writes r').toNat = (S.writes r).toNat + 1
  rw [hw] at hne ⊢
  exact toNat_succ hne

@[simp] theorem latest_set {ε : Type} (w : World ε) (p : Path) (c : Option Data) :
    S.latest (w.set p c).flash = S.latest w.flash := by
  rw [latest, World.done_set, latest]

theorem latest_write {ε : Type} (w : World ε) (b : Bool) (r : R) :
    S.latest (w.write (S.path b) (S.kind.bytes r)).flash = some r := by
  have hb : S.path b = S.path true ∨ S.path b = S.path false := by cases b <;> simp
  rw [latest, World.done_write, List.find?_cons_of_pos (by simpa using hb), Option.map_some,
    S.kind.ofBytes_bytes]

theorem latest_write_of_ne {ε : Type} (w : World ε) {p : Path} (h : ∀ b, S.path b ≠ p) (d : Data) :
    S.latest (w.write p d).flash = S.latest w.flash := by
  have hp : ¬ (p = S.path true ∨ p = S.path false) := fun hc =>
    hc.elim (fun h' => h true h'.symm) fun h' => h false h'.symm
  rw [latest, World.done_write, List.find?_cons_of_neg (by simpa using hp), latest]

@[simp] theorem unwrapped_set {ε : Type} (w : World ε) (p : Path) (c : Option Data) :
    S.Unwrapped (w.set p c).flash ↔ S.Unwrapped w.flash := by
  rw [Unwrapped, World.done_set, Unwrapped]

theorem unwrapped_write {ε : Type} {w : World ε} {p : Path} {d : Data}
    (h : S.Unwrapped (w.write p d).flash) :
    S.Unwrapped w.flash ∧ ∀ b, p = S.path b → S.writes (S.kind.ofBytes d) ≠ 0 := by
  refine ⟨fun b d' hd' => h b d' ?_, fun b hb => h b d ?_⟩
  · rw [World.done_write]
    exact List.mem_cons_of_mem _ hd'
  · rw [World.done_write, hb]
    exact List.mem_cons_self

/-! ## Persisting -/

section Rules

variable {ε : Type} {E : Env ε} {Q : R → World ε → Prop} {C : World ε → Prop} {w : World ε}

theorem wp_persist {r : R} (hC : C w)
    (hcut : ∀ c, Unreadable (S.path (slotOf (S.writes r + 1))) c →
      C (w.set (S.path (slotOf (S.writes r + 1))) c))
    (hok : let w' := w.write (S.path (slotOf (S.writes r + 1))) (S.kind.bytes (S.next r))
      C w' ∧ Q (S.next r) w')
    (hfail : ∀ p d, E.fails (.writeWhole p d) w.peer → ∀ c,
      Unreadable (S.path (slotOf (S.writes r + 1))) c →
      Q (S.next r) (w.set (S.path (slotOf (S.writes r + 1))) c)) :
    wp (sem E) (S.persist r) Q C w := by
  simp only [persist, Fw.writeWhole_bind, Prog.pure_eq_ret, writes_next]
  refine wp_writeWhole hC hcut (fun _ => hok) fun hf c hc => ?_
  exact ⟨hcut c hc, hfail _ _ hf c hc⟩

end Rules

end Slots

end Device
end CovioFirmware
