import CovioFirmware.Safety.DualSlot
import CovioFirmware.Queue.Filling

/-!
# When a segment may be deleted

`ackThrough` persists the advanced cursor first and deletes the segments it
crossed second, so that a segment is never gone while the cursor a reboot would
recover still points into it.  The order alone is not enough: `persistAck_` does
not look at the outcome of its write, and if the write fails the deletions go
ahead all the same.

The file gives the exact condition.  In every state a run can reach, whatever
writes of the acknowledgement record failed on the way, a call deletes safely
exactly if its own write goes through or it frees no segment
(`ackThrough_deletes_safely_iff`).

## The invariant

The cursor in memory is at or ahead of the cursor in every readable slot, and the
records in the slots are ordered by their counts.  The count itself cannot wrap,
because each persist comes with a strictly larger acknowledged seq: a record's
count is at most its `acked_seq`.
-/

namespace CovioFirmware
namespace Device

open Crash

/-- A file system on which writes of the acknowledgement record go through or fail as
the flag says, and everything else works. -/
def Env.gated : Env Bool where
  succeeds c e := match c with
    | .writeWhole (.ack _) _ => e = true
    | _ => True
  fails c e := match c with
    | .writeWhole (.ack _) _ => e = false
    | _ => False
  tears _ _ := True
  serve _ e r e' := r = ⟨-1, []⟩ ∧ e' = e
  serveCut _ e e' := e' = e

/-- The device on that file system; the flag may change between two
operations. -/
def gatedMachine : Machine Call Call.Reply (World Bool) Globals UInt32 QueueOp where
  sem := sem Env.gated
  boot := setup
  op := QueueOp.run
  env n n' := ∃ e, n' = match n with
    | .off w => .off { w with peer := e }
    | .on d w => .on d { w with peer := e }

/-! ## The records in the slots -/

/-- The readable slots of the acknowledgement record are ordered by their
counts. -/
structure AckOrdered (fs : Path → Option Data) : Prop where
  count : ∀ b r, ackSlots.slot fs b = some r → r.writes.toNat ≤ r.ackedSeq.toNat
  mono : ∀ b b' r r', ackSlots.slot fs b = some r → ackSlots.slot fs b' = some r' →
    r.writes.toNat ≤ r'.writes.toNat → r.cursorSegment.toNat ≤ r'.cursorSegment.toNat

/-- Slots of a new flash. -/
theorem ackOrdered_empty {ε : Type} (e : ε) : AckOrdered (World.file ⟨Flash.empty, e⟩) := by
  have hnone : ∀ b r, ackSlots.slot (World.file ⟨Flash.empty, e⟩) b ≠ some r := by
    intro b r hr
    cases hr
  exact ⟨fun b r hr => absurd hr (hnone b r), fun b _ r _ hr => absurd hr (hnone b r)⟩

/-- The record in memory is at or ahead of every readable slot. -/
structure AckAhead (fs : Path → Option Data) (a : AckRec) : Prop where
  count : a.writes.toNat ≤ a.ackedSeq.toNat
  writes : ∀ b r, ackSlots.slot fs b = some r → r.writes.toNat ≤ a.writes.toNat
  cursor : ∀ b r, ackSlots.slot fs b = some r → r.cursorSegment.toNat ≤ a.cursorSegment.toNat

section

variable {fs fs' : Path → Option Data} {a a' : AckRec}

theorem AckOrdered.congr (h : AckOrdered fs) (hfs : ackSlots.slot fs' = ackSlots.slot fs) :
    AckOrdered fs' := by
  refine ⟨fun b r hr => ?_, fun b b' r r' hr hr' => ?_⟩
  · exact h.count b r (hfs ▸ hr)
  · exact h.mono b b' r r' (hfs ▸ hr) (hfs ▸ hr')

theorem AckAhead.congr (h : AckAhead fs a) (hfs : ackSlots.slot fs' = ackSlots.slot fs) :
    AckAhead fs' a :=
  ⟨h.count, fun b r hr => h.writes b r (hfs ▸ hr), fun b r hr => h.cursor b r (hfs ▸ hr)⟩

/-- What is readable after a slot became unreadable was readable before. -/
theorem slot_of_tear {b b' : Bool} {r : AckRec}
    (hfs : ackSlots.slot fs' = Function.update (ackSlots.slot fs) b none)
    (hr : ackSlots.slot fs' b' = some r) : ackSlots.slot fs b' = some r := by
  rw [hfs] at hr
  by_cases hb : b' = b
  · rw [hb, Function.update_self] at hr
    cases hr
  · rwa [Function.update_of_ne hb] at hr

theorem AckOrdered.tear (h : AckOrdered fs) {b : Bool}
    (hfs : ackSlots.slot fs' = Function.update (ackSlots.slot fs) b none) : AckOrdered fs' :=
  ⟨fun b' r hr => h.count b' r (slot_of_tear hfs hr), fun b₁ b₂ r r' hr hr' =>
    h.mono b₁ b₂ r r' (slot_of_tear hfs hr) (slot_of_tear hfs hr')⟩

/-- The record in memory may move on without its slot. -/
theorem AckAhead.tear (ha : AckAhead fs a) {b : Bool}
    (hfs : ackSlots.slot fs' = Function.update (ackSlots.slot fs) b none)
    (hc : a'.writes.toNat ≤ a'.ackedSeq.toNat) (hw : a.writes.toNat ≤ a'.writes.toNat)
    (hcur : a.cursorSegment.toNat ≤ a'.cursorSegment.toNat) : AckAhead fs' a' :=
  ⟨hc, fun b' r hr => (ha.writes b' r (slot_of_tear hfs hr)).trans hw,
    fun b' r hr => (ha.cursor b' r (slot_of_tear hfs hr)).trans hcur⟩

/-- A slot takes a record that is ahead of all others. -/
theorem AckOrdered.write (h : AckOrdered fs) (ha : AckAhead fs a) {b : Bool}
    (hfs : ackSlots.slot fs' = Function.update (ackSlots.slot fs) b (some a'))
    (hw : a'.writes.toNat = a.writes.toNat + 1) (hc : a'.writes.toNat ≤ a'.ackedSeq.toNat)
    (hcur : a.cursorSegment.toNat ≤ a'.cursorSegment.toNat) : AckOrdered fs' ∧ AckAhead fs' a' := by
  have hslot : ∀ b' r, ackSlots.slot fs' b' = some r → r = a' ∨ ackSlots.slot fs b' = some r := by
    intro b' r hr
    rw [hfs] at hr
    by_cases hb : b' = b
    · rw [hb, Function.update_self] at hr
      exact .inl (Option.some.inj hr).symm
    · exact .inr (by rwa [Function.update_of_ne hb] at hr)
  have hle : ∀ b' r, ackSlots.slot fs' b' = some r →
      r.writes.toNat ≤ a'.writes.toNat ∧ r.cursorSegment.toNat ≤ a'.cursorSegment.toNat := by
    intro b' r hr
    rcases hslot b' r hr with rfl | hr
    · exact ⟨le_rfl, le_rfl⟩
    · exact ⟨by have := ha.writes b' r hr; omega, by have := ha.cursor b' r hr; omega⟩
  refine ⟨⟨fun b' r hr => ?_, fun b₁ b₂ r r' hr hr' hrr => ?_⟩,
    ⟨hc, fun b' r hr => (hle b' r hr).1, fun b' r hr => (hle b' r hr).2⟩⟩
  · rcases hslot b' r hr with rfl | hr
    · exact hc
    · exact h.count b' r hr
  · rcases hslot b₂ r' hr' with rfl | hr₂
    · exact (hle b₁ r hr).2
    · rcases hslot b₁ r hr with rfl | hr₁
      · -- the new record has the largest count of all
        have := ha.writes b₂ r' hr₂
        omega
      · exact h.mono b₁ b₂ r r' hr₁ hr₂ hrr

/-- What recovery returns has the largest count of all readable slots. -/
theorem Slots.le_recover {R : Type} {S : Slots R} {b : Bool} {r : R}
    (hr : S.slot fs b = some r) : (S.writes r).toNat ≤ (S.writes (S.recover fs)).toNat := by
  rw [Slots.recover]
  cases ht : S.slot fs true with
  | none =>
    cases hf : S.slot fs false with
    | none => cases b <;> simp_all
    | some y =>
      cases b
      · rw [hf] at hr
        cases hr
        exact le_rfl
      · rw [ht] at hr
        cases hr
  | some x =>
    cases hf : S.slot fs false with
    | none =>
      cases b
      · rw [hf] at hr
        cases hr
      · rw [ht] at hr
        cases hr
        exact le_rfl
    | some y =>
      simp only [Slots.choose, UInt32.le_iff_toNat_le]
      cases b
      · rw [hf] at hr
        cases hr
        split <;> omega
      · rw [ht] at hr
        cases hr
        split <;> omega

theorem AckOrdered.recover (h : AckOrdered fs) : AckAhead fs (ackSlots.recover fs) := by
  refine ⟨?_, fun b r hr => Slots.le_recover hr, fun b r hr => ?_⟩
  · by_cases hsome : ∃ b r, ackSlots.slot fs b = some r
    · obtain ⟨b, r, hr⟩ := hsome
      obtain ⟨b', hb'⟩ := Slots.recover_mem hr
      exact h.count b' _ hb'
    · have hnone : ∀ b, ackSlots.slot fs b = none := fun b => by
        by_contra hc
        exact hsome ⟨b, Option.ne_none_iff_exists'.mp hc⟩
      rw [Slots.recover_none hnone]
      exact le_rfl
  · obtain ⟨b', hb'⟩ := Slots.recover_mem hr
    exact h.mono b b' r _ hr hb' (Slots.le_recover hr)

end

/-! ## The routines -/

section

variable {ε : Type} {E : Env ε} {w : World ε} {q : EventQueue} {t : Totalizer}
  {ackedSeq bootId : UInt32} {seg off consumed : ℕ}

/-- Where the cursor of `ackThrough` can end up. -/
theorem EventQueue.ackCursor_crosses (h : ackCursor w.file q t ackedSeq = (seg, off, consumed)) :
    q.ack.cursorSegment.toNat ≤ seg ∧ seg < 2 ^ 32 ∧
      ∀ s, q.ack.cursorSegment.toNat ≤ s → s < seg → w.file (.seg s) ≠ none := by
  have hcross := ackWalk_crosses w.file ackedSeq t.queueOffsetSegment.toNat
    t.queueOffsetOffset.toNat (t.queueOffsetSegment.toNat + 1 - q.ack.cursorSegment.toNat)
    q.ack.cursorSegment.toNat q.ack.cursorOffset.toNat 0
  change ackWalk _ _ _ _ _ _ _ _ = _ at h
  rw [h] at hcross
  have h1 := q.ack.cursorSegment.toNat_lt
  have h2 := t.queueOffsetSegment.toNat_lt
  exact ⟨hcross.1, by have := hcross.2.1; omega, hcross.2.2⟩

/-- `ackThrough` keeps the order of the records, whether or not its write goes
through. -/
theorem AckAhead.wp_ackThrough (h : AckOrdered w.file) (ha : AckAhead w.file q.ack) :
    wp (sem E) (q.ackThrough t ackedSeq bootId)
      (fun q' w' => AckOrdered w'.file ∧ AckAhead w'.file q'.ack) (fun w' => AckOrdered w'.file) w := by
  refine EventQueue.wp_ackThrough h (fun _ => ⟨h, ha⟩) fun hk seg off consumed hcur count => ?_
  obtain ⟨hseg, hlt, -⟩ := EventQueue.ackCursor_crosses hcur
  obtain ⟨hw, hc, hs⟩ := EventQueue.next_advanced ha.count bootId off hk hlt
  set a' := ackSlots.next (EventQueue.advanced q.ack ackedSeq bootId seg off) with ha'
  -- the deletions stay away from the slots
  have hrest : ∀ w1 : World ε, AckOrdered w1.file ∧ AckAhead w1.file a' →
      wp (sem E) (EventQueue.removeAll (List.range' q.ack.cursorSegment.toNat
        (seg - q.ack.cursorSegment.toNat)))
        (fun _ w2 => AckOrdered w2.file ∧ AckAhead w2.file a') (fun w' => AckOrdered w'.file) w1 := by
    rintro w1 ⟨h1, h2⟩
    have hsame : ∀ w2 : World ε, SameSlots w1 w2 → ackSlots.slot w2.file = ackSlots.slot w1.file := by
      intro w2 hw2
      funext b
      exact congrArg ackSlots.load (hw2.file (.ack b) (by simp))
    refine wp_mono ((EventQueue.segmentOnly_removeAll _).wp (SameSlots.refl w1)) ?_ ?_
    · exact fun _ w2 hw2 => ⟨h1.congr (hsame w2 hw2), h2.congr (hsame w2 hw2)⟩
    · exact fun w2 hw2 => h1.congr (hsame w2 hw2)
  have htorn : ∀ b c, Unreadable (.ack b) c → ackSlots.slot (w.set (ackSlots.path b) c).file =
      Function.update (ackSlots.slot w.file) b none := by
    intro b c hc'
    rw [World.file_set, Slots.slot_update, (ackSlots.unreadable_iff b c).mp hc']
  refine Slots.wp_persist h (fun c hc' => h.tear (htorn _ c hc')) ?_ fun p d _ c hc' => ?_
  · have hslot : ∀ b, ackSlots.slot (w.write (ackSlots.path b) (ackSlots.kind.bytes a')).file =
        Function.update (ackSlots.slot w.file) b (some a') := by
      intro b
      rw [World.file_write, Slots.slot_update, ackSlots.load_next]
    have hboth := fun b => h.write ha (hslot b) hw hc (by omega)
    exact ⟨(hboth _).1, hrest _ (hboth _)⟩
  · -- the write failed: the slot is lost, the record in memory has moved on
    exact hrest _ ⟨h.tear (htorn _ c hc'), ha.tear (htorn _ c hc') hc (by omega) (by omega)⟩

/-- A routine that never writes a slot of the acknowledgement record. -/
theorem wp_ackSlot_of_touches {α : Type} {p : Fw α} (hp : Touches (fun x => ∀ b, x ≠ .ack b) p) :
    wp (sem E) p (fun _ w' => ackSlots.slot w'.file = ackSlots.slot w.file)
      (fun w' => ackSlots.slot w'.file = ackSlots.slot w.file) w := by
  have hslot : ∀ w' : World ε, (∀ x, ¬ (∀ b, x ≠ Path.ack b) → w'.file x = w.file x) →
      ackSlots.slot w'.file = ackSlots.slot w.file := by
    intro w' h
    funext b
    exact congrArg ackSlots.load (h (.ack b) fun hc => hc b rfl)
  exact wp_mono (hp.wp fun _ _ => rfl) (fun _ w' h => hslot w' h) fun w' h => hslot w' h

/-- A boot takes the recovered acknowledgement record and does not touch its
slots. -/
theorem wp_setup_ack : wp (sem E) (setup bootId)
    (fun d w' => d.q.ack = ackSlots.recover w.file ∧
      ackSlots.slot w'.file = ackSlots.slot w.file)
    (fun w' => ackSlots.slot w'.file = ackSlots.slot w.file) w := by
  have hslot : ∀ {w' : World ε}, ackSlots.slot w'.file = ackSlots.slot w.file →
      ackSlots.recover w'.file = ackSlots.recover w.file := fun h => by
    rw [Slots.recover, Slots.recover, h]
  have hack : wp (sem E) (setup bootId) (fun d _ => d.q.ack = ackSlots.recover w.file)
      (fun _ => True) w := by
    refine wp_bind_of (wp_ackSlot_of_touches (Totalizer.makes_begin (fun _ h => h.touches _)
      (by simp [Call.target]) bootId))
      (fun _ _ => trivial) fun t w1 h1 => wp_map ?_
    refine wp_mono (EventQueue.wp_begin_recovers t) (fun r w2 h2 => ?_) fun _ _ => trivial
    exact h2.1.trans (hslot h1)
  refine wp_mono (wp_and hack (wp_ackSlot_of_touches (makes_setup (fun _ h => h.touches _)
    (by simp [Call.target]) (by simp [Call.target]) bootId)))
    (fun d w' h => ⟨h.1, h.2⟩) fun w' h => h.2

end

/-- **The order holds in every reachable state**, whatever writes failed. -/
theorem gatedMachine_ordered {w0 : World Bool} (h0 : AckOrdered w0.file)
    {n : Node Globals (World Bool)} (h : RunsFrom gatedMachine w0 n) :
    n.Holds (fun w (_ : Unit) => AckOrdered w.file)
      (fun d w _ => AckOrdered w.file ∧ AckAhead w.file d.q.ack) () := by
  refine Reach.invariant ?_ ?_ ?_ ?_ h
  · rintro n g rfl
    exact h0
  · intro b w g _ hw
    refine wp_mono wp_setup_ack ?_ fun w' h' => hw.congr h'
    rintro d w' ⟨hack, hslot⟩
    exact ⟨hw.congr hslot, hack ▸ hw.recover.congr hslot⟩
  · rintro i d w g - ⟨hw, ha⟩
    cases i with
    | append row =>
      refine wp_map (wp_mono (wp_and ((EventQueue.append_returns d.q d.tot row).wp w)
        (wp_ackSlot_of_touches (EventQueue.makes_append (fun _ h => h.1.touches _)
          (by simp [Call.target]) (by simp [Call.target]) (by simp [Call.target])
          (by simp [Call.target]) (by simp [Call.target]) d.q d.tot row)))
        ?_ fun w' h' => hw.congr h'.2)
      rintro r w' ⟨hack, hslot⟩
      exact ⟨hw.congr hslot, (hack.symm ▸ ha).congr hslot⟩
    | service seq =>
      exact wp_map (wp_mono (wp_ackSlot_of_touches (Totalizer.makes_service (fun _ h => h.touches _)
        (by simp [Call.target]) d.tot seq))
        (fun t w' h' => ⟨hw.congr h', ha.congr h'⟩) fun w' h' => hw.congr h')
    | ackThrough ackedSeq bootId => exact wp_map (AckAhead.wp_ackThrough hw ha)
  · rintro n n' g - ⟨e, rfl⟩ hn
    cases n <;> exact hn

/-! ## The deletions -/

/-- At every moment of the call, a segment it has removed lies below the cursor a
reboot would recover. -/
def DeletesSafely (d : Globals) (w : World Bool) (ackedSeq bootId : UInt32) : Prop :=
  ∀ w', Cuts (sem Env.gated) (d.ackThrough ackedSeq bootId) w w' →
    ∀ s, w.file (.seg s) ≠ none → w'.file (.seg s) = none →
      s < (ackSlots.recover w'.file).cursorSegment.toNat

/-- The acknowledgement is new and passes the whole segment under the cursor: the
segment is closed, from the cursor on it consists of whole rows, and no intact row
among them is above the acknowledged seq. -/
def Frees (d : Globals) (fs : Path → Option Data) (ackedSeq : UInt32) : Prop :=
  d.q.ack.ackedSeq < ackedSeq ∧ d.q.ack.cursorSegment < d.tot.cp.qSegment ∧
    ∃ b, fs (.seg d.q.ack.cursorSegment.toNat) = some b ∧
      36 ∣ b.length - d.q.ack.cursorOffset.toNat ∧
      ∀ r ∈ QRow.codec.rowsIn b d.q.ack.cursorOffset.toNat b.length,
        r.intact = true → r.seq ≤ ackedSeq

/-- The row loop reaches the end of a file exactly if the file holds whole rows
from there on and none of them is live. -/
theorem EventQueue.le_ackRows_iff {ackedSeq : UInt32} {b : Data} {off : ℕ} :
    b.length ≤ (ackRows ackedSeq b b.length (b.length / 36 + 1) (min off b.length)).1 ↔
      36 ∣ b.length - off ∧ ∀ r ∈ QRow.codec.rowsIn b off b.length, ¬ Live ackedSeq r := by
  have hrows : QRow.codec.rowsIn b (min off b.length) b.length =
      QRow.codec.rowsIn b off b.length := by
    by_cases hoff : off ≤ b.length
    · rw [min_eq_left hoff]
    · rw [QRow.codec.rowsIn_of_lt (by rw [QRow.codec_size]; omega),
        QRow.codec.rowsIn_of_lt (by rw [QRow.codec_size]; omega)]
  have hlen : (QRow.codec.rowsIn b off b.length).length = (b.length - off) / 36 := by
    rw [Bytes.RowCodec.rowsIn, List.length_map, List.length_range, min_self, QRow.codec_size]
  rw [ackRows_eq ackedSeq b _ (Strides.end b) _ _ (min_le_right _ _) (rowFuel _ _), hrows]
  have hle := (List.takeWhile_prefix (l := QRow.codec.rowsIn b off b.length)
    fun r => decide (¬ Live ackedSeq r)).length_le
  have hself : ((QRow.codec.rowsIn b off b.length).takeWhile fun r => ¬ Live ackedSeq r).length =
      (QRow.codec.rowsIn b off b.length).length ↔
      ∀ r ∈ QRow.codec.rowsIn b off b.length, ¬ Live ackedSeq r := by
    have hall : ((QRow.codec.rowsIn b off b.length).takeWhile fun r => ¬ Live ackedSeq r) =
        QRow.codec.rowsIn b off b.length ↔
        ∀ r ∈ QRow.codec.rowsIn b off b.length, ¬ Live ackedSeq r := by
      simp only [List.takeWhile_eq_self_iff, decide_eq_true_eq]
    rw [← hall]
    exact ⟨(List.takeWhile_prefix _).eq_of_length, congrArg List.length⟩
  rw [← hself]
  rw [hlen] at hle ⊢
  constructor
  · intro h
    have h' : b.length - off ≤ 36 * ((b.length - off) / 36) := by
      simp only at h
      omega
    exact ⟨⟨(b.length - off) / 36, by omega⟩, by simp only at h; omega⟩
  · rintro ⟨hdvd, htake⟩
    rw [htake, Nat.mul_div_cancel' hdvd]
    simp only
    omega

/-- Freeing a segment is what moves the cursor to another one. -/
theorem frees_iff {d : Globals} {fs : Path → Option Data} {ackedSeq : UInt32} :
    Frees d fs ackedSeq ↔ d.q.ack.ackedSeq < ackedSeq ∧
      d.q.ack.cursorSegment.toNat < (EventQueue.ackCursor fs d.q d.tot ackedSeq).1 := by
  refine and_congr_right fun _ => ?_
  rw [EventQueue.ackCursor, UInt32.lt_iff_toNat_lt]
  set cs := d.q.ack.cursorSegment.toNat
  set active := d.tot.cp.qSegment.toNat with hactive
  have hq : d.tot.queueOffsetSegment.toNat = active := rfl
  simp only [hq]
  by_cases hlt : cs < active
  · obtain ⟨n, hn⟩ : ∃ n, active + 1 - cs = n + 1 := ⟨active - cs, by omega⟩
    rw [hn, EventQueue.ackWalk, if_pos hlt.le]
    cases hb : fs (.seg cs) with
    | none => simp [hlt]
    | some b =>
      have hlive : (∀ r ∈ QRow.codec.rowsIn b d.q.ack.cursorOffset.toNat b.length,
          r.intact = true → r.seq ≤ ackedSeq) ↔
          ∀ r ∈ QRow.codec.rowsIn b d.q.ack.cursorOffset.toNat b.length,
            ¬ EventQueue.Live ackedSeq r := by
        refine forall₂_congr fun r _ => ?_
        rw [EventQueue.Live, not_and, UInt32.not_lt]
      have hlimit : EventQueue.readLimit active d.tot.queueOffsetOffset.toNat cs b = b.length := by
        rw [EventQueue.readLimit, if_neg hlt.ne]
      simp only [hlimit, hlt, true_and, Option.some.injEq, exists_eq_left', hlive]
      rw [← EventQueue.le_ackRows_iff]
      split
      · next hcross =>
        have := (EventQueue.ackWalk_crosses fs ackedSeq active d.tot.queueOffsetOffset.toNat n
          (cs + 1) 0 (0 + (EventQueue.ackRows ackedSeq b b.length (b.length / 36 + 1)
            (min d.q.ack.cursorOffset.toNat b.length)).2)).1
        exact ⟨fun _ => by omega, fun _ => hcross⟩
      · next hcross => exact ⟨fun h => absurd h hcross, fun h => absurd h (lt_irrefl _)⟩
  · -- the cursor is in the active segment, or beyond it: the walk stays where it is
    refine ⟨fun h => absurd h.1 hlt, fun h => absurd h ?_⟩
    have hcross := EventQueue.ackWalk_crosses fs ackedSeq active d.tot.queueOffsetOffset.toNat
      (active + 1 - cs) cs d.q.ack.cursorOffset.toNat 0
    have := hcross.2.1
    omega

section

variable {d : Globals} {w : World Bool} {ackedSeq bootId : UInt32}

theorem deletesSafely_of_written (ha : AckAhead w.file d.q.ack)
    (hgood : w.peer = true ∨ ¬ Frees d w.file ackedSeq) : DeletesSafely d w ackedSeq bootId := by
  intro w' hcut
  refine wp.cuts (Q := fun _ _ => True) (C := fun w' => ∀ s, w.file (.seg s) ≠ none →
    w'.file (.seg s) = none → s < (ackSlots.recover w'.file).cursorSegment.toNat) ?_ hcut
  have hkept : ∀ w' : World Bool, (∀ s, w'.file (.seg s) = w.file (.seg s)) →
      ∀ s, w.file (.seg s) ≠ none → w'.file (.seg s) = none →
        s < (ackSlots.recover w'.file).cursorSegment.toNat := fun w' hw' s h1 h2 =>
    absurd ((hw' s).symm.trans h2) h1
  refine wp_map (EventQueue.wp_ackThrough (hkept w fun _ => rfl) (fun _ => trivial)
    fun hk seg off consumed hcur count => ?_)
  obtain ⟨hseg, hlt, -⟩ := EventQueue.ackCursor_crosses hcur
  obtain ⟨hw, hc, hs⟩ := EventQueue.next_advanced ha.count bootId off hk hlt
  set a' := ackSlots.next (EventQueue.advanced d.q.ack ackedSeq bootId seg off) with ha'
  have hsegs : ∀ b c s, (w.set (ackSlots.path b) c).file (.seg s) = w.file (.seg s) := by
    intro b c s
    rw [World.file_set, Function.update_of_ne (by simp [ackSlots])]
  -- if nothing is freed the deletion loop is empty
  have hempty : ∀ w1 : World Bool, (∀ s, w1.file (.seg s) = w.file (.seg s)) →
      ¬ Frees d w.file ackedSeq → wp (sem Env.gated) (EventQueue.removeAll
        (List.range' d.q.ack.cursorSegment.toNat (seg - d.q.ack.cursorSegment.toNat)))
        (fun _ _ => True) (fun w' => ∀ s, w.file (.seg s) ≠ none → w'.file (.seg s) = none →
          s < (ackSlots.recover w'.file).cursorSegment.toNat) w1 := by
    intro w1 hw1 hno
    have hzero : seg - d.q.ack.cursorSegment.toNat = 0 := by
      by_contra hc
      refine hno (frees_iff.mpr ⟨hk, ?_⟩)
      rw [hcur]
      omega
    rw [hzero]
    exact ⟨hkept w1 hw1, trivial⟩
  refine Slots.wp_persist (hkept w fun _ => rfl) (fun c _ => hkept _ fun s => hsegs _ c s) ?_ ?_
  · have hslot : ∀ b, ackSlots.slot (w.write (ackSlots.path b) (ackSlots.kind.bytes a')).file =
        Function.update (ackSlots.slot w.file) b (some a') := by
      intro b
      rw [World.file_write, Slots.slot_update, ackSlots.load_next]
    have hsegw : ∀ b s, (w.write (ackSlots.path b) (ackSlots.kind.bytes a')).file (.seg s) =
        w.file (.seg s) := by
      intro b s
      rw [World.file_write, Function.update_of_ne (by simp [ackSlots])]
    -- the new record has the largest count, so a reboot recovers it
    have hrec : ∀ b, ackSlots.recover (w.write (ackSlots.path b)
        (ackSlots.kind.bytes a')).file = a' := by
      intro b
      rw [Slots.recover_eq, hslot]
      have hnew : PingPong.newest ackSlots.num (Function.update (ackSlots.slot w.file) b (some a') true)
          (Function.update (ackSlots.slot w.file) b (some a') false) = some a' := by
        refine PingPong.newest_of_gt (Function.update_self b _ _) fun r hr => ?_
        rw [Function.update_of_ne (by simp)] at hr
        have := ha.writes _ r hr
        change r.writes.toNat < a'.writes.toNat
        omega
      rw [PingPong.recover, hnew, Option.getD_some]
    refine ⟨hkept _ (hsegw _), ?_⟩
    refine wp_mono (EventQueue.wp_removeAll (fun s => s < seg) _ ?_ (SameSlots.refl _)
      fun _ => .inl rfl) (fun _ _ _ => trivial) ?_
    · intro s hs
      have := List.mem_range'_1.mp hs
      omega
    · rintro w2 ⟨hsame, hothers⟩ s h1 h2
      have hr2 : ackSlots.recover w2.file = a' := by
        have hslots : ackSlots.slot w2.file = ackSlots.slot (w.write (ackSlots.path (slotOf
            (ackSlots.writes (EventQueue.advanced d.q.ack ackedSeq bootId seg off) + 1)))
            (ackSlots.kind.bytes a')).file := by
          funext b
          exact congrArg ackSlots.load (hsame.file (.ack b) (by simp))
        rw [Slots.recover, hslots, ← Slots.recover, hrec]
      rw [hr2, hs]
      rcases hothers s with hkeep | ⟨-, hlt'⟩
      · rw [hkeep, hsegw] at h2
        exact absurd h2 h1
      · exact hlt'
  · intro p x hf c _
    rcases hgood with hpeer | hno
    · -- the flag says the write goes through
      exact absurd hf (by cases p <;> simp [Env.gated, hpeer])
    · exact hempty _ (fun s => hsegs _ c s) hno

/-- The recovered cursor is never ahead of the one in memory. -/
theorem AckAhead.recover_le {fs : Path → Option Data} {a : AckRec} (ha : AckAhead fs a) :
    (ackSlots.recover fs).cursorSegment.toNat ≤ a.cursorSegment.toNat := by
  by_cases hsome : ∃ b r, ackSlots.slot fs b = some r
  · obtain ⟨b, r, hr⟩ := hsome
    obtain ⟨b', hb'⟩ := Slots.recover_mem hr
    exact ha.cursor b' _ hb'
  · have hnone : ∀ b, ackSlots.slot fs b = none := fun b => by
      by_contra hc
      exact hsome ⟨b, Option.ne_none_iff_exists'.mp hc⟩
    rw [Slots.recover_none hnone]
    exact Nat.zero_le _

/-- If the write fails and a segment is freed, the first segment is deleted while
a reboot would still find the cursor at or below it. -/
theorem not_deletesSafely (ha : AckAhead w.file d.q.ack) (hpeer : w.peer = false)
    (hfrees : Frees d w.file ackedSeq) : ¬ DeletesSafely d w ackedSeq bootId := by
  intro hsafe
  obtain ⟨⟨seg, off, consumed⟩, hcur⟩ :
    ∃ r, EventQueue.ackCursor w.file d.q d.tot ackedSeq = r := ⟨_, rfl⟩
  obtain ⟨hk, hlt⟩ := frees_iff.mp hfrees
  rw [hcur] at hlt
  obtain ⟨-, -, hexists⟩ := EventQueue.ackCursor_crosses hcur
  set first := d.q.ack.cursorSegment.toNat with hfirst
  obtain ⟨n, hn⟩ : ∃ n, seg - first = n + 1 := ⟨seg - first - 1, by omega⟩
  set b := slotOf (ackSlots.writes (EventQueue.advanced d.q.ack ackedSeq bootId seg off) + 1)
  have hcut : Cuts (sem Env.gated) (d.ackThrough ackedSeq bootId) w
      ((w.set (ackSlots.path b) none).set (.seg first) none) := by
    refine Cuts.bind ?_ _
    simp only [EventQueue.ackThrough, if_neg (UInt32.not_le.mpr hk), Fw.files_bind]
    refine .later (i := Call.files) (r := w.file) ⟨rfl, rfl⟩ ?_
    simp only [hcur, ← hfirst, hn, List.range'_succ]
    -- the write fails, and power is lost during the first removal
    have hfail : Runs (sem Env.gated) (ackSlots.persist (EventQueue.advanced d.q.ack ackedSeq
        bootId seg off)) w _ (w.set (ackSlots.path b) none) :=
      .call (r := false) (.inr ⟨hpeer, rfl, none, unreadable_none _, rfl⟩) (.ret _ _)
    refine Runs.bind_cuts (Runs.bind hfail (.ret _ _)) ?_
    refine Cuts.bind ?_ _
    exact .during (i := Call.remove (.seg first)) rfl
  have hslot : ackSlots.slot ((w.set (ackSlots.path b) none).set (.seg first) none).file =
      Function.update (ackSlots.slot w.file) b none := by
    rw [World.file_set, Slots.slot_update_of_ne _ (by simp [ackSlots]), World.file_set,
      Slots.slot_update]
    rfl
  have hle := (ha.tear hslot ha.count le_rfl le_rfl).recover_le
  have hgt := hsafe _ hcut first (hexists first le_rfl hlt) (by simp)
  omega

end

/-- **A segment is deleted only after its cursor advance is durable --- exactly if
the advance was written.**  In every state a run can reach on a device whose
acknowledgement writes may fail, a call of `ackThrough` keeps the promise exactly
if its own write goes through or it frees no segment. -/
theorem ackThrough_deletes_safely_iff {e : Bool} {d : Globals} {w : World Bool}
    (h : RunsFrom gatedMachine ⟨Flash.empty, e⟩ (.on d w)) (ackedSeq bootId : UInt32) :
    DeletesSafely d w ackedSeq bootId ↔ (w.peer = true ∨ ¬ Frees d w.file ackedSeq) := by
  obtain ⟨-, ha⟩ : AckOrdered w.file ∧ AckAhead w.file d.q.ack :=
    gatedMachine_ordered (ackOrdered_empty e) h
  refine ⟨fun hsafe => ?_, deletesSafely_of_written ha⟩
  by_contra hc
  rw [not_or, not_not] at hc
  exact not_deletesSafely ha (by simpa using hc.1) hc.2 hsafe

/-- On a fresh device with a working file system an acknowledgement deletes
safely. -/
theorem fresh_ackThrough_deletes_safely :
    ∃ d w, RunsFrom gatedMachine ⟨Flash.empty, true⟩ (.on d w) ∧ DeletesSafely d w 1 1 := by
  have hrun : Runs (sem Env.gated) (setup 1) ⟨Flash.empty, true⟩ _ _ :=
    execute_runs_of Env.gated (fun _ => false) (by simp)
      (fun c _ => by cases c <;> simp [Env.gated]; split <;> trivial) (fun _ => ⟨rfl, rfl⟩) _ rfl
  have hreach : RunsFrom gatedMachine ⟨Flash.empty, true⟩ _ := .step (.init rfl) trivial (.boot hrun)
  exact ⟨_, _, hreach, (ackThrough_deletes_safely_iff hreach 1 1).mpr (.inl (by decide +kernel))⟩

/-- Filling a device is a run of this machine too. -/
theorem Fills.runsFrom_gated {rows : List QRow} {d : Globals} {w : World Unit}
    (h : Fills Env.calm fresh rows d w) :
    RunsFrom gatedMachine ⟨Flash.empty, true⟩ (.on d ⟨w.flash, true⟩) := by
  have hs : ∀ c, Env.gated.succeeds c true := fun c => by
    cases c <;> simp [Env.gated]
    split <;> trivial
  have hserve : ∀ b, Env.gated.serve b true ⟨-1, []⟩ true := fun _ => ⟨rfl, rfl⟩
  induction h with
  | boot hr => exact .step (.init rfl) trivial (.boot (runs_transfer hs hserve hr))
  | @append rows row d d' w w' _ hr _ ih =>
    exact .step ih trivial (.op (i := QueueOp.append row) (runs_transfer hs hserve hr))

/-- A device with one full segment and one row more loses the file system for the
acknowledgement record, and all its rows are acknowledged: the full segment is
deleted under a cursor that still points into it. -/
theorem failed_write_deletes_segment : ∃ d w,
    RunsFrom gatedMachine ⟨Flash.empty, true⟩ (.on d w) ∧ ¬ DeletesSafely d w 1 1 := by
  obtain ⟨n, hn⟩ : ∃ n, n = 5001 := ⟨_, rfl⟩
  obtain ⟨d, w, cp, hfills, h⟩ := exists_fills (List.replicate n firstRow)
    (by rw [List.length_replicate]; omega)
  have hreach : RunsFrom gatedMachine ⟨Flash.empty, true⟩ (.on d ⟨w.flash, false⟩) :=
    .step hfills.runsFrom_gated trivial (.env ⟨false, rfl⟩)
  obtain ⟨-, ha⟩ : AckOrdered (World.file ⟨w.flash, false⟩) ∧
    AckAhead (World.file ⟨w.flash, false⟩) d.q.ack :=
    gatedMachine_ordered (ackOrdered_empty true) hreach
  refine ⟨d, _, hreach, not_deletesSafely ha rfl ?_⟩
  -- the walk passes every row and stops in the active segment, which is the second
  have hlaid := h.ram.laid h.durable.laid
  have hk : d.q.ack.ackedSeq < 1 := by
    rw [h.ack]
    decide
  obtain ⟨seg, off, m, hcur, -, -, hall, -⟩ := hlaid.ackCursor_eq hk
  have hseg : seg = d.tot.cp.qSegment.toNat := by
    refine hall fun r hr => ?_
    rw [List.map_replicate] at hr
    rw [List.eq_of_mem_replicate hr]
    decide
  refine frees_iff.mpr ⟨hk, ?_⟩
  have hcursor : d.q.ack.cursorSegment.toNat = 0 := by
    rw [h.ack]
    rfl
  have hupper := hlaid.upper
  rw [List.length_map, List.length_replicate] at hupper
  change _ < (EventQueue.ackCursor w.file d.q d.tot 1).1
  rw [hcur, hseg, hcursor]
  omega

end Device
end CovioFirmware
