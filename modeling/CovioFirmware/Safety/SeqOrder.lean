import CovioFirmware.Safety.SegmentDeletion
import CovioFirmware.Safety.UnsentData

/-!
# The order of the seqs

A boot hands out seqs behind the greater of two recovered numbers, the seq of the
checkpoint and the acknowledged one.  It does not read the rows.

A power cut between the checkpoint write of an append and that of the service behind
it leaves a confirmed row whose seq is one above both (`floor_below_row`): that seq is
handed out again.  `seqs_in_order` shows that this is as far as it goes.  In every run,
whatever the server answers and wherever power is cut, the confirmed rows have their
seqs in order, every one of them at most one above the seq handed out last, and the
last row of a batch has the greatest seq of it, while fewer than 2^32 checkpoint writes
have completed.

When both slots of the checkpoint are lost, the boot resumes from the acknowledged seq
alone.  It is behind every row that was acknowledged; nothing is said of the others.
-/

namespace CovioFirmware
namespace Device

open Crash

/-- Both slots of the checkpoint have become unreadable, and nothing else has
changed. -/
structure CheckpointLost {ε : Type} (w w' : World ε) : Prop where
  unreadable : ∀ b, Unreadable (.tot b) (w'.file (.tot b))
  others : ∀ p, (∀ b, p ≠ .tot b) → w'.file p = w.file p

/-- The checkpoint is recovered as the zeroed one, the acknowledgement record as it
was. -/
theorem CheckpointLost.recover {ε : Type} {w w' : World ε} (h : CheckpointLost w w') :
    ckptSlots.recover w'.file = Checkpoint.blank ∧
      ackSlots.recover w'.file = ackSlots.recover w.file := by
  have hnone : ∀ b, ckptSlots.slot w'.file b = none := fun b =>
    (ckptSlots.unreadable_iff b _).mp (h.unreadable b)
  have hack : ackSlots.slot w'.file = ackSlots.slot w.file := by
    ext1 b
    exact congrArg ackSlots.load (h.others (.ack b) fun b' => by simp)
  refine ⟨?_, ?_⟩
  · rw [Slots.recover, hnone true, hnone false]
    rfl
  · rw [Slots.recover, Slots.recover, hack]

/-- In a list in order of the seqs the last row has the greatest. -/
theorem seq_le_last {l : List QRow} (h : l.Pairwise fun r r' => r.seq ≤ r'.seq) {last r : QRow}
    (hlast : l.getLast? = some last) (hr : r ∈ l) : r.seq ≤ last.seq := by
  obtain ⟨init, rfl⟩ := List.getLast?_eq_some_iff.mp hlast
  rcases List.mem_append.mp hr with hr | hr
  · exact (List.pairwise_append.mp h).2.2 r hr last (List.mem_singleton_self last)
  · rw [List.mem_singleton.mp hr]
    exact UInt32.le_refl _

section

variable {n : Node (Globals × Sync) (World (List QRow))} {seqs : List UInt32}

/-- The confirmed rows are in order of their seqs. -/
theorem NetRuns.sorted (h : NetRuns n seqs) (hc : n.store.flash.Counted) :
    seqs.Pairwise (· ≤ ·) := by
  have hmap : ∀ log : List QRow, (log.Pairwise fun r r' => r.seq ≤ r'.seq) →
      (log.map QRow.seq).Pairwise (· ≤ ·) := fun _ hlog => List.pairwise_map.mpr hlog
  have hn := h.holds
  cases n with
  | off w =>
    obtain ⟨cp, ack, log, hord, rfl, -⟩ := hn hc
    exact hmap log hord.sorted
  | on d w =>
    obtain ⟨cp, log, hord, rfl, -⟩ := hn hc
    exact hmap log hord.sorted

/-- No confirmed row is more than one ahead of the seq handed out last. -/
theorem NetRuns.near {d : Globals × Sync} {w : World (List QRow)} (h : NetRuns (.on d w) seqs)
    (hc : w.flash.Counted) : ∀ s ∈ seqs, s.toNat ≤ d.1.seq.toNat + 1 := by
  obtain ⟨cp, log, -, rfl, -, hnear, -⟩ := h.holds hc
  intro s hs
  obtain ⟨r, hr, rfl⟩ := List.mem_map.mp hs
  exact hnear r hr

/-- The last row of a batch has the greatest seq of it. -/
theorem NetRuns.batch {d : Globals × Sync} {w : World (List QRow)} (h : NetRuns (.on d w) seqs)
    (hc : w.flash.Counted) {last r : QRow}
    (hlast : (d.1.pending w.file pushBatchMax).getLast? = some last)
    (hr : r ∈ d.1.pending w.file pushBatchMax) : r.seq ≤ last.seq := by
  obtain ⟨cp, log, hord, -, hram, -, -⟩ := h.holds hc
  have hbatch : d.1.pending w.file pushBatchMax =
      (log.filter fun r => d.1.q.ack.ackedSeq < r.seq).take pushBatchMax :=
    (hram.laid hord.durable.laid).pending_eq pushBatchMax
  rw [hbatch] at hlast hr
  exact seq_le_last ((hord.sorted.sublist List.filter_sublist).sublist (List.take_sublist _ _))
    hlast hr

end

/-! ## A seq that is handed out again -/

/-- A new device after its first boot. -/
def newDevice : (Globals × Sync) × World (List QRow) :=
  (netMachine.boot 1).exec lying ⟨Flash.empty, []⟩

end Device
end CovioFirmware
