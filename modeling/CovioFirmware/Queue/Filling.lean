import CovioFirmware.Queue.Durable
import Mathlib.Data.List.Induction

/-!
# Filling a fresh device

How long a queue can get is decided by counters that are far beyond any run one
could write down, so the states in question are shown to exist instead: for every
list of rows short enough for the checkpoint's count there is a run that boots a
factory-fresh device and appends them, and what it leaves is the layout of those
rows.

The last part moves such a run to another environment in which the same calls
succeed, and says what a boot makes of a laid-out flash when all that is known of
the checkpoint is which record is recovered.
-/

namespace CovioFirmware
namespace Device

open Crash Bytes

/-- The runs that boot from `w0` and append the rows, each append completing its
checkpoint write. -/
inductive Fills {ε : Type} (E : Env ε) (w0 : World ε) : List QRow → Globals → World ε → Prop where
  | boot {d : Globals} {w : World ε} : Runs (sem E) (setup 1) w0 d w → Fills E w0 [] d w
  | append {rows : List QRow} {row : QRow} {d d' : Globals} {w w' : World ε} :
      Fills E w0 rows d w → Runs (sem E) (d.append row) w d' w' →
      w'.flash.checkpoints = w.flash.checkpoints + 1 →
      Fills E w0 (rows ++ [row]) d' w'

/-- The flash of a new device. -/
abbrev fresh : World Unit := ⟨Flash.empty, ()⟩

theorem durable_fresh : Durable fresh Checkpoint.blank AckRec.blank [] :=
  .fresh ()

/-- What a filled device looks like. -/
structure Filled (d : Globals) (w : World Unit) (log : List QRow) (cp : Checkpoint) : Prop where
  durable : Durable w cp d.q.ack log
  ram : Ram d.tot.cp cp
  writes : cp.writes.toNat = log.length
  checkpoints : w.flash.checkpoints = log.length
  ack : d.q.ack = AckRec.blank
  seq : cp.seq = 0

/-- A row appended to a filled device. -/
theorem Filled.wp_append {d : Globals} {w : World Unit} {log : List QRow} {cp : Checkpoint}
    (h : Filled d w log cp) (hlen : log.length < 2 ^ 32) (row : QRow) :
    wp (sem Env.calm) (d.append row) (fun d' w' => ∃ w1 c, w' = w1.persisted c ∧
      RowPlaced w cp d.q.ack log (QRow.kind.stamp row) c w1 ∧ d'.tot.cp = ckptSlots.next c ∧
      d'.q.ack = d.q.ack) (fun _ => True) w := by
  have hcount : w.flash.Counted := by
    rw [Flash.Counted, h.checkpoints]
    exact hlen
  refine wp_map (h.durable.wp_append Env.calm_reliable h.ram hcount (fun _ _ _ _ => trivial) ?_)
  exact fun w1 c hplaced => ⟨trivial, w1, c, rfl, hplaced, rfl, rfl⟩

theorem Filled.appended {d d' : Globals} {w w1 : World Unit} {log : List QRow}
    {cp c : Checkpoint} {row : QRow} (h : Filled d w log cp) (hlen : log.length + 1 < 2 ^ 32)
    (hplaced : RowPlaced w cp d.q.ack log row c w1) (hcp : d'.tot.cp = ckptSlots.next c)
    (hack : d'.q.ack = d.q.ack) :
    Filled d' (w1.persisted c) (log ++ [row]) (ckptSlots.next c) := by
  have h1 : Durable w1 cp d.q.ack log := h.durable.sameSlots hplaced.slots hplaced.before
  have hchk : (w1.persisted c).flash.checkpoints = log.length + 1 := by
    rw [checkpoints_write, checkpoints_congr hplaced.slots.done, h.checkpoints]
  have hcounted : (w1.persisted c).flash.Counted := by
    rw [Flash.Counted, hchk]
    exact hlen
  refine ⟨hack.symm ▸ hplaced.durable h.durable hcounted, hcp ▸ .refl _, ?_, ?_,
    hack.trans h.ack, hplaced.seq.trans h.seq⟩
  · rw [h1.writes_succ hplaced.writes hcounted, h.writes, List.length_append, List.length_singleton]
  · rw [hchk, List.length_append, List.length_singleton]

/-- **Every number of rows the count has room for can be appended.** -/
theorem exists_fills (rows : List QRow) (hlen : rows.length < 2 ^ 32) :
    ∃ d w cp, Fills Env.calm fresh rows d w ∧ Filled d w (rows.map QRow.kind.stamp) cp := by
  induction rows using List.reverseRecOn with
  | nil =>
    refine ⟨_, _, Checkpoint.blank, .boot (execute_runs (setup 1) fresh), ?_⟩
    have hw : (execute (fun _ => false) (setup 1) fresh).2 = fresh := by rfl
    have hcp : (execute (fun _ => false) (setup 1) fresh).1.tot.cp =
      { Checkpoint.blank with bootId := 1 } := by rfl
    have hack : (execute (fun _ => false) (setup 1) fresh).1.q.ack = AckRec.blank := by rfl
    rw [hw]
    exact ⟨hack.symm ▸ durable_fresh, hcp ▸ ⟨rfl, rfl, rfl, rfl⟩, rfl, rfl, hack, rfl⟩
  | append_singleton rows row ih =>
    rw [List.length_append, List.length_singleton] at hlen
    obtain ⟨d, w, cp, hfills, h⟩ := ih (by omega)
    have hlog : (rows.map QRow.kind.stamp).length = rows.length := List.length_map _
    have hrun := execute_runs (d.append row) w
    obtain ⟨w1, c, hw', hplaced, hcp, hack⟩ := (h.wp_append (by omega) row).runs hrun
    refine ⟨_, _, ckptSlots.next c, .append hfills hrun ?_, ?_⟩
    · rw [hw', checkpoints_write, checkpoints_congr hplaced.slots.done]
    · rw [List.map_append, List.map_singleton, hw']
      exact h.appended (by omega) hplaced hcp hack

/-- A row with seq 1. -/
def firstRow : QRow := telemetryBuild ⟨0, 0, 0⟩ 1 0 1 false

/-- Its bytes. -/
def firstRowBytes : Data := QRow.kind.bytes (QRow.kind.stamp firstRow)

theorem length_firstRowBytes : firstRowBytes.length = 36 := QRow.kind.length_bytes _

/-- A queue that has never been acknowledged. -/
def EventQueue.unacknowledged : EventQueue := ⟨AckRec.blank, FailureState.blank, 0⟩

/-- A totalizer whose checkpoint holds a write position. -/
def EventQueue.writingAt (segment offset : UInt32) : Totalizer where
  cp := { Checkpoint.blank with qSegment := segment, qOffset := offset }
  base := 0
  accumulated := 0

/-- A new device after its boot and the given operations, the latest first, on storage
that works. -/
def worked : List ConsoleOp → Globals × World Unit
  | [] => execute (fun _ => false) (setup 1) fresh
  | i :: ops => execute (fun _ => false) (i.run (worked ops).1) (worked ops).2

/-! ## Moving a run to another environment -/

/-- A run on a working file system, in an environment where the calls succeed
too. -/
theorem runs_transfer {α ε : Type} {E : Env ε} {e : ε} (hs : ∀ c, E.succeeds c e)
    (hserve : ∀ b, E.serve b e ⟨-1, []⟩ e) {p : Fw α} {w w' : World Unit} {a : α}
    (h : Runs (sem Env.calm) p w a w') : Runs (sem E) p ⟨w.flash, e⟩ a ⟨w'.flash, e⟩ := by
  induction h with
  | ret a w => exact .ret a _
  | @call c k w w1 w2 r a hr _ ih =>
    refine .call (r := r) ?_ ih
    change reply Env.calm c w r w1 at hr
    change reply E c ⟨w.flash, e⟩ r ⟨w1.flash, e⟩
    cases c with
    | files => exact ⟨hr.1, by rw [hr.2]⟩
    | appendOpenSize p =>
      rcases hr with ⟨-, h1, rfl⟩ | ⟨hf, -⟩
      · exact .inl ⟨hs _, h1, rfl⟩
      · exact hf.elim
    | truncateTo p n =>
      rcases hr with ⟨-, b, hb, h1, rfl⟩ | ⟨hf | hb, h1, rfl⟩
      · exact .inl ⟨hs _, b, hb, h1, rfl⟩
      · exact hf.elim
      · exact .inr ⟨.inr hb, h1, rfl⟩
    | appendWrite p data =>
      rcases hr with ⟨-, h1, rfl⟩ | ⟨hf, -⟩
      · exact .inl ⟨hs _, h1, rfl⟩
      · exact hf.elim
    | readAt p offset len =>
      obtain ⟨rfl, ⟨-, h1⟩ | ⟨hf, -⟩⟩ := hr
      · exact ⟨rfl, .inl ⟨hs _, h1⟩⟩
      · exact hf.elim
    | writeWhole p data =>
      rcases hr with ⟨-, h1, rfl⟩ | ⟨hf, -⟩
      · exact .inl ⟨hs _, h1, rfl⟩
      · exact hf.elim
    | remove p =>
      change w1 = w.set p none at hr
      rw [hr]
      rfl
    | openDir => exact ⟨hr.1, by rw [hr.2]⟩
    | pcntGet => exact congrArg (fun x : World Unit => (⟨x.flash, e⟩ : World ε)) hr
    | pcntClear => exact congrArg (fun x : World Unit => (⟨x.flash, e⟩ : World ε)) hr
    | millis => exact congrArg (fun x : World Unit => (⟨x.flash, e⟩ : World ε)) hr
    | online => exact congrArg (fun x : World Unit => (⟨x.flash, e⟩ : World ε)) hr
    | httpBegin | get | random | confirmHealthyBoot | otaPoll => exact congrArg (fun x : World Unit => (⟨x.flash, e⟩ : World ε)) hr
    | post batch =>
      obtain ⟨h1, rfl, -⟩ := hr
      exact ⟨h1, hserve batch⟩

/-! ## Booting from whatever checkpoint is recovered -/

/-- A boot takes the recovered position as it is, and keeps the layout that goes
with it. -/
theorem LaidOut.wp_setup {ε : Type} {E : Env ε} {w : World ε} {cp : Checkpoint} {ack : AckRec}
    {log : List QRow} {bootId : UInt32} (h : LaidOut w.file cp ack log)
    (hcp : ckptSlots.recover w.file = cp) (hack : ackSlots.recover w.file = ack)
    (hA : cp.qSegment.toNat + 1 < 10 ^ 6) :
    wp (sem E) (setup bootId) (fun d w' => d.q.ack = ack ∧ LaidOut w'.file d.tot.cp ack log)
      (fun _ => True) w := by
  have hrest : ∀ w1 : World ε, (∀ b, w1.file (.ack b) = w.file (.ack b)) →
      (∀ i, w1.file (.seg i) = w.file (.seg i)) → ∀ t : Totalizer,
      t.cp.qSegment = cp.qSegment → t.cp.qOffset = cp.qOffset →
      wp (sem E) (EventQueue.begin t >>= fun r => .ret
        { tot := r.2, q := r.1, seq := resumeSeqFloor r.2.lastSeq r.1.ack.ackedSeq,
          bootId := bootId : Globals })
      (fun d w' => d.q.ack = ack ∧ LaidOut w'.file d.tot.cp ack log) (fun _ => True) w1 := by
    intro w1 hacks hsegs t hseg hoff
    have hrec : ackSlots.recover w1.file = ack := by
      rw [← hack, Slots.recover, Slots.recover, Slots.slot, Slots.slot, Slots.slot, Slots.slot]
      exact congrArg₂ _ (congrArg _ (hacks true)) (congrArg _ (hacks false))
    have hl : LaidOut w1.file t.cp ack log := by
      rw [LaidOut, hseg, hoff]
      exact h.congr hsegs
    refine wp_map (EventQueue.wp_begin ?_)
    rw [hrec]
    exact hl.wp_cleanup (hseg ▸ hA) (fun _ _ _ => trivial) fun w' _ hl' => ⟨rfl, hl'⟩
  refine wp_bind (Totalizer.wp_begin trivial ?_)
  rw [hcp]
  refine ⟨hrest w (fun _ => rfl) (fun _ => rfl) _ rfl rfl, fun _ => Totalizer.wp_persist ?_⟩
  refine Slots.wp_persist trivial (fun _ _ => trivial) ⟨trivial, ?_⟩ fun p d _ c _ => ?_
  · refine hrest _ (fun b => ?_) (fun i => ?_) _ rfl rfl
    · rw [World.file_write, Function.update_of_ne (by simp [ckptSlots])]
    · rw [World.file_write, Function.update_of_ne (by simp [ckptSlots])]
  · refine hrest _ (fun b => ?_) (fun i => ?_) _ rfl rfl
    · rw [World.file_set, Function.update_of_ne (by simp [ckptSlots])]
    · rw [World.file_set, Function.update_of_ne (by simp [ckptSlots])]

end Device
end CovioFirmware
