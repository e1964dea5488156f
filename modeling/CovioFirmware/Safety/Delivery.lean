import CovioFirmware.Crash.Refinement
import CovioFirmware.Safety.BurnedSeq
import CovioFirmware.Safety.Receiver
import CovioFirmware.Safety.UnsentData
import CovioFirmware.Server.Stored

/-!
# From the pulse to the table

The device of `UnsentData` in front of the server of `Receiver`, over a network that loses
requests, loses or breaks off answers, and delivers copies of earlier requests at any time,
while other devices push as well.  Power may fail at any moment.

* `resolved_or_queued`: the acknowledged seq is resolved on the server, and a confirmed row
  is in `records` under its seq, or waits in the queue.
* `stored_once`: under the name of the device the server has confirmed rows only, one for
  each acknowledged seq.

The machine is seen as that of `UnsentData` by forgetting the server (`sees`), so what holds
there of all runs holds here: the order of the log, and what bounds its seqs.
-/

namespace CovioFirmware
namespace Device

open JsonText Server Crash

/-! ## Surroundings seen through a map -/

section Surroundings

variable {ε ε' : Type} {E : Env ε} {E' : Env ε'} {φ : ε → ε'}

/-- The world with the peer seen through the map. -/
def World.seen (φ : ε → ε') (w : World ε) : World ε' := ⟨w.flash, φ w.peer⟩

/-- What the surroundings do is, seen through the map, what the others may do. -/
structure Env.Sees (E : Env ε) (E' : Env ε') (φ : ε → ε') : Prop where
  succeeds : ∀ c e, E.succeeds c e → E'.succeeds c (φ e)
  fails : ∀ c e, E.fails c e → E'.fails c (φ e)
  tears : ∀ data junk, E.tears data junk → E'.tears data junk
  serve : ∀ batch e r e', E.serve batch e r e' → E'.serve batch (φ e) r (φ e')
  serveCut : ∀ batch e e', E.serveCut batch e e' → E'.serveCut batch (φ e) (φ e')

theorem reply_seen (h : E.Sees E' φ) {c : Call} {w w' : World ε} {r : c.Reply}
    (hr : reply E c w r w') : reply E' c (w.seen φ) r (w'.seen φ) := by
  cases c with
  | appendOpenSize p =>
    rcases hr with ⟨hs, rfl, rfl⟩ | ⟨hf, rfl, rfl⟩
    · exact .inl ⟨h.succeeds _ _ hs, rfl, rfl⟩
    · exact .inr ⟨h.fails _ _ hf, rfl, rfl⟩
  | truncateTo p n =>
    rcases hr with ⟨hs, b, hb, rfl, rfl⟩ | ⟨hf, rfl, rfl⟩
    · exact .inl ⟨h.succeeds _ _ hs, b, hb, rfl, rfl⟩
    · exact .inr ⟨hf.imp_left (h.fails _ _), rfl, rfl⟩
  | appendWrite p data =>
    rcases hr with ⟨hs, rfl, rfl⟩ | ⟨hf, ⟨rfl, rfl⟩ | ⟨k, hk, rfl, rfl⟩⟩
    · exact .inl ⟨h.succeeds _ _ hs, rfl, rfl⟩
    · exact .inr ⟨h.fails _ _ hf, .inl ⟨rfl, rfl⟩⟩
    · exact .inr ⟨h.fails _ _ hf, .inr ⟨k, hk, rfl, rfl⟩⟩
  | readAt p offset len =>
    obtain ⟨rfl, hr⟩ := hr
    exact ⟨rfl, hr.imp (And.imp_left (h.succeeds _ _)) (And.imp_left (h.fails _ _))⟩
  | writeWhole p data =>
    rcases hr with ⟨hs, rfl, rfl⟩ | ⟨hf, rfl, c, hc, rfl⟩
    · exact .inl ⟨h.succeeds _ _ hs, rfl, rfl⟩
    · exact .inr ⟨h.fails _ _ hf, rfl, c, hc, rfl⟩
  | post batch => exact ⟨hr.1, h.serve _ _ _ _ hr.2⟩
  | files | openDir =>
    obtain ⟨hr, rfl⟩ := hr
    exact ⟨hr, rfl⟩
  | remove p =>
    obtain rfl := hr
    exact rfl
  | pcntGet | pcntClear | millis | online | httpBegin | get | random | confirmHealthyBoot
  | otaPoll =>
    obtain rfl := hr
    exact rfl

theorem torn_seen (h : E.Sees E' φ) {c : Call} {w w' : World ε} (hc : torn E c w w') :
    torn E' c (w.seen φ) (w'.seen φ) := by
  cases c with
  | truncateTo p n =>
    obtain ⟨junk, hlen, ht, rfl⟩ := hc
    exact ⟨junk, hlen, h.tears _ _ ht, rfl⟩
  | appendWrite p data =>
    obtain ⟨junk, hlen, ht, rfl⟩ := hc
    exact ⟨junk, hlen, h.tears _ _ ht, rfl⟩
  | writeWhole p data =>
    obtain ⟨x, hx, rfl⟩ := hc
    exact ⟨x, hx, rfl⟩
  | post batch => exact ⟨hc.1, h.serveCut _ _ _ hc.2⟩
  | appendOpenSize p | remove p =>
    obtain rfl := hc
    exact rfl
  | files | openDir | readAt p o n | pcntGet | pcntClear | millis | online | httpBegin | get
  | random | confirmHealthyBoot | otaPoll =>
    obtain rfl := hc
    exact rfl

end Surroundings

/-! ## The network -/

/-- The server, and the batches the device has sent. -/
structure Channel where
  server : Backend
  sent : List (List QRow)

/-- A request is processed of which the device learns nothing. -/
def Channel.arrive (R : Receiver) (c : Channel) (q : Request) : Channel :=
  { c with server := { c.server with db := q.store R.ρ c.server.db } }

namespace Receiver

variable (R : Receiver)

/-- A push, remembered. -/
def channel : Env Channel where
  succeeds _ _ := True
  fails _ _ := False
  tears _ _ := True
  serve batch e r e' := R.Serves batch e.server r e'.server ∧ e'.sent = e.sent ++ [batch]
  serveCut batch e e' := (∃ r, R.Serves batch e.server r e'.server) ∧ e'.sent = e.sent ++ [batch]

theorem channel_reliable : R.channel.Reliable := fun _ _ h => h

/-- A request that may arrive by itself: one of another device, or a copy of one this
device has sent. -/
def Strays (c : Channel) (q : Request) : Prop :=
  q.sentBy R.ρ R.device = false ∨ ∃ batch ∈ c.sent, R.Carries batch q

/-- The device in front of this server. -/
def machine : Machine Call Call.Reply (World Channel) (Globals × Sync) UInt32 NetOp where
  sem := sem R.channel
  boot := netMachine.boot
  op := NetOp.run
  env n n' := ∃ q, R.Strays n.store.peer q ∧ n' = n.map (World.seen (Channel.arrive R · q))

end Receiver

/-- What a run has confirmed: the rows, and the seqs they were given. -/
structure Journal where
  seqs : List UInt32 := []
  rows : List QRow := []

/-- A cycle confirms its row with its first completed checkpoint write. -/
def Journal.track (a : Action UInt32 NetOp) (n n' : Node (Globals × Sync) (World Channel))
    (g : Journal) : Journal :=
  match a, n with
  | .op (.cycle _), .on (d, _) w =>
      if w.flash.checkpoints < n'.store.flash.checkpoints then
        ⟨g.seqs ++ [d.seq + 1], g.rows ++ (confirmedRow n'.store.file).toList⟩
      else g
  | _, _ => g

/-- The states of all runs from a factory-fresh device whose name the server does not
know. -/
abbrev DeliveryRuns (R : Receiver) (n : Node (Globals × Sync) (World Channel)) (g : Journal) :
    Prop :=
  Reach R.machine (fun _ _ _ => True) Journal.track
    (fun n g => ∃ e, n = .off ⟨Flash.empty, e, []⟩ ∧ e.db.Own R.device (fun _ => False) ∧ g = {})
    n g

/-- The world without the server: the rows that were sent. -/
abbrev World.outbox (w : World Channel) : World (List QRow) :=
  w.seen fun c => c.sent.flatten

theorem channel_sees (R : Receiver) : R.channel.Sees Env.hostile fun c => c.sent.flatten where
  succeeds _ _ _ := trivial
  fails _ _ h := h
  tears _ _ _ := trivial
  serve batch e r e' h := by
    refine .inl ?_
    rw [h.2, List.flatten_append, List.flatten_singleton]
  serveCut batch e e' h := by
    refine .inl ?_
    rw [h.2, List.flatten_append, List.flatten_singleton]

theorem machine_refines (R : Receiver) :
    Refines R.machine netMachine World.outbox where
  post _ _ _ _ h := reply_seen (channel_sees R) h
  cut _ _ _ h := torn_seen (channel_sees R) h
  boot _ := rfl
  op _ _ := rfl
  env n n' h := by
    obtain ⟨q, -, rfl⟩ := h
    exact .inr (by cases n <;> rfl)

/-- **The device does not see the server**: its runs are runs in front of any. -/
theorem DeliveryRuns.netRuns {R : Receiver} {n : Node (Globals × Sync) (World Channel)}
    {g : Journal} (h : DeliveryRuns R n g) : NetRuns (n.map World.outbox) g.seqs := by
  refine Reach.refines (h := Journal.seqs) (machine_refines R) ?_ (fun _ _ _ _ => trivial) ?_
    (fun _ _ => rfl) h
  · rintro n g ⟨e, rfl, -, rfl⟩
    exact ⟨rfl, rfl⟩
  · rintro (b | (s | - | -) | -) (w | ⟨⟨d, n⟩, w⟩) n' g <;> try rfl
    show _ = if w.flash.checkpoints < (n'.map World.outbox).store.flash.checkpoints then
      g.seqs ++ [d.seq + 1] else g.seqs
    rw [Node.store_map, Journal.track]
    exact apply_ite Journal.seqs _ _ _

/-! ## What the server has of a log -/

/-- The row in the columns of `records` that are taken from it. -/
structure RecordOf (r : QRow) (x : RecordRow) : Prop where
  bootId : x.bootId = .num r.bootId.toNat
  seq : x.seq = .num r.seq.toNat
  ts : x.ts = .num r.ts.toNat
  totalizer : x.totalizer = .num r.totalizer.toNat
  quality : x.quality = .num r.quality.toNat
  rssi : x.rssi = .num (-r.rssiAbs.toNat)
  schemaVersion : x.schemaVersion = .num 1
  recordType : x.recordType = .num 1
  /-- The total is an INTEGER of SQLite. -/
  fits : r.totalizer.toNat < 2 ^ 63

/-- A row of the kind a cycle queues. -/
def QRow.Telemetry (r : QRow) : Prop := r.schemaVersion = 1 ∧ r.recordType = 1

/-- The server has acknowledged what it has, and has nothing but rows of the log. -/
structure Shipped (R : Receiver) (c : Channel) (acked : UInt32) (log : List QRow) : Prop where
  sent : ∀ batch ∈ c.sent, ∀ r ∈ batch, r ∈ log
  resolved : c.server.db.ResolvedTo R.device acked.toNat
  own : c.server.db.Own R.device fun x => ∃ r ∈ log, RecordOf r x

section

variable {R : Receiver} {c : Channel} {acked : UInt32} {log : List QRow} {batch : List QRow}
  {q : Request} {r : QRow} {d : Dict} {ρ : Rendering}

/-- An integer that can be bound is one of 64 bits. -/
theorem fits_of_bindable {n : ℤ} (h : (Json.int n).Bindable) : -(2 ^ 63) ≤ n ∧ n < 2 ^ 63 := by
  by_contra hout
  rw [Json.Bindable, Json.bind, if_neg hout] at h
  cases h

/-- It is stored as it is. -/
theorem cell_of_bindable {n : ℤ} (h : (Json.int n).Bindable) : (Json.int n).cell ρ = .num n := by
  rw [Json.cell_int, if_pos (fits_of_bindable h)]

/-- A telemetry row is accepted. -/
theorem accepted_of_readsAs (h : ReadsAs d r) (hr : r.Telemetry) :
    d.quarantineReason = some none := by
  have hsv : d.schemaVersion.isOne = some true := by
    rw [h.schemaVersion, hr.1]
    rfl
  have hrt : d.recordType.isOne = some true := by
    rw [h.recordType, hr.2]
    rfl
  have hpresent : d.missingField = none := by
    rw [Dict.missingField, Dict.requiredFields, List.find?_eq_none]
    simp [h.bootId, h.seq, h.ts, h.totalizer]
  rw [Dict.quarantineReason, hsv, hrt, hpresent]
  rfl

/-- **Its statement** is an insert into `records` of the row, column by column. -/
theorem recordStatement_of_readsAs (h : ReadsAs d r) (hr : r.Telemetry) {s : Sender} {i : Insert}
    (hi : recordStatement ρ s d = some i) : ∃ x, i = .record x ∧ RecordOf r x := by
  have hinsert : recordInsert ρ s d = some i := by
    rw [recordStatement, accepted_of_readsAs h hr] at hi
    exact hi
  obtain ⟨⟨-, hboot, hseq, hsv, hrt⟩, ⟨hts, htotal, hquality, hrssi, -⟩, rfl⟩ :=
    recordInsert_eq_some.mp hinsert
  have hcell : ∀ {v : Json} {n : ℤ}, v.Bindable → v = .int n → v.cell ρ = .num n := by
    rintro v n hbind rfl
    exact cell_of_bindable hbind
  have hget : ∀ {key : PyStr} {v : Json}, d.get? key = some v → d.get key = v := by
    intro key v hv
    rw [Dict.get, Dict.getD, hv, Option.getD_some]
  have hfits : (r.totalizer.toNat : ℤ) < 2 ^ 63 :=
    (fits_of_bindable (hget h.totalizer ▸ htotal)).2
  refine ⟨_, rfl, hcell hboot (hget h.bootId), hcell hseq (hget h.seq), hcell hts (hget h.ts),
    hcell htotal (hget h.totalizer), hcell hquality h.quality, ?_, ?_, ?_, by omega⟩
  · refine (hcell hrssi h.rssi).trans ?_
    push_cast
    rfl
  · refine (hcell hsv h.schemaVersion).trans ?_
    rw [hr.1]
    rfl
  · refine (hcell hrt h.recordType).trans ?_
    rw [hr.2]
    rfl

theorem Shipped.append (h : Shipped R c acked log) (row : QRow) :
    Shipped R c acked (log ++ [row]) :=
  ⟨fun batch hb r hr => List.mem_append_left _ (h.sent batch hb r hr), h.resolved,
    h.own.mono fun _ ⟨r, hr, hx⟩ => ⟨r, List.mem_append_left _ hr, hx⟩⟩

/-- A request of the device adds rows of the log. -/
theorem Shipped.store (h : Shipped R c acked log) (hkind : ∀ r ∈ log, r.Telemetry)
    (hq : R.Carries batch q) (hbatch : ∀ r ∈ batch, r ∈ log) :
    Shipped R (c.arrive R q) acked log := by
  refine ⟨h.sent, resolvedTo_mono h.resolved, h.own.store fun fields _ d hd i hi _ => ?_⟩
  rw [hq.records] at hd
  obtain ⟨r, hr, rfl⟩ := List.mem_map.mp hd
  obtain ⟨x, rfl, hx⟩ := recordStatement_of_readsAs (readsAs_recordMembers r)
    (hkind r (hbatch r hr)) hi
  exact ⟨x, rfl, r, hbatch r hr, hx⟩

/-- **A stray request** changes nothing of that. -/
theorem Shipped.stray (h : Shipped R c acked log) (hkind : ∀ r ∈ log, r.Telemetry)
    (hq : R.Strays c q) : Shipped R (c.arrive R q) acked log := by
  rcases hq with hq | ⟨batch, hb, hq⟩
  · exact ⟨h.sent, resolvedTo_mono h.resolved, h.own.store_other hq⟩
  · exact h.store hkind hq (h.sent batch hb)

/-- The device reads no more out of an answer than the server has. -/
def Receiver.Truthful (R : Receiver) (r : HttpReply) (c : Channel) : Prop :=
  r.code = 200 → 0 ≤ Sync.ackSeq r.body →
    c.server.db.ResolvedTo R.device (Sync.ackSeq r.body).toUInt32.toNat

theorem resolvedTo_of_le {db : Database} {device : Cell} {m n : ℤ}
    (h : db.ResolvedTo device n) (hm : 0 ≤ m) (hmn : m ≤ n) : db.ResolvedTo device m :=
  ⟨hm, fun i h1 h2 => h.2 i h1 (h2.trans hmn)⟩

/-- What `pushOnce` reads out of the answer, whole or broken off, is resolved. -/
theorem truthful_of_answer {db : Database} (hq : R.Carries batch q) {r : HttpReply}
    (h : r.code = 200 → (q.answer R.ρ db).status = 200 ∧
      r.body <+: R.text (q.answer R.ρ db)) (hcode : r.code = 200) (hpos : 0 ≤ Sync.ackSeq r.body) :
    (q.store R.ρ db).ResolvedTo R.device (Sync.ackSeq r.body).toUInt32.toNat := by
  obtain ⟨hstatus, hbody⟩ := h hcode
  rw [Response.status_eq_ok_iff] at hstatus
  cases hans : q.answer R.ρ db with
  | ack n told ms =>
    have hack : (q.answer R.ρ db).ack? = some n := by
      rw [hans]
      rfl
    have hgreatest := Receiver.isGreatest_of_ack hq hack
    rw [hans] at hbody
    exact resolvedTo_of_le hgreatest.1 (Int.natCast_nonneg _)
      (Receiver.ackSeq_le_of_cut hgreatest.1.1 hbody hpos)
  | badPayload | exception =>
    rw [hans] at hstatus
    exact absurd rfl hstatus

/-- **An exchange** keeps all of it, and its answer is truthful. -/
theorem Shipped.serve (h : Shipped R c acked log) (hkind : ∀ r ∈ log, r.Telemetry)
    (hbatch : ∀ r ∈ batch, r ∈ log) {r : HttpReply} {c' : Channel}
    (hs : R.Serves batch c.server r c'.server) (hsent : c'.sent = c.sent ++ [batch]) :
    Shipped R c' acked log ∧ R.Truthful r c' := by
  have hin : ∀ b ∈ c'.sent, ∀ r ∈ b, r ∈ log := by
    intro b hb
    rw [hsent, List.mem_append, List.mem_singleton] at hb
    rcases hb with hb | rfl
    · exact h.sent b hb
    · exact hbatch
  obtain ⟨e', sent'⟩ := c'
  cases hs with
  | lost hcode => exact ⟨⟨hin, h.resolved, h.own⟩, fun h200 => absurd h200 hcode⟩
  | broken hq hans =>
    have hstore := h.store hkind hq hbatch
    refine ⟨⟨hin, hstore.resolved, hstore.own⟩, fun hcode hpos => ?_⟩
    exact truthful_of_answer hq hans hcode hpos
  | whole hq =>
    have hstore := h.store hkind hq hbatch
    refine ⟨⟨hin, hstore.resolved, hstore.own⟩, fun hcode hpos => ?_⟩
    exact truthful_of_answer hq (fun hcode => ⟨Int.ofNat_inj.mp hcode, List.prefix_refl _⟩)
      hcode hpos

/-- What the device takes of it was resolved. -/
theorem Shipped.acknowledge (h : Shipped R c acked log) {a a' : AckRec} {k n : UInt32}
    (hacked : a.ackedSeq = acked) (hn : c.server.db.ResolvedTo R.device n.toNat) (hk : k ≤ n)
    (ha : Acked a a' k) : Shipped R c a'.ackedSeq log := by
  refine ⟨h.sent, ?_, h.own⟩
  rcases ha with rfl | ⟨-, hk'⟩
  · exact hacked ▸ h.resolved
  · rw [hk']
    exact resolvedTo_of_le hn (Int.natCast_nonneg _)
      (by exact_mod_cast UInt32.le_iff_toNat_le.mp hk)

end

/-! ## The invariant -/

/-- The rows of a run, with their seqs. -/
structure Logged (g : Journal) : Prop where
  seqs : g.rows.map QRow.seq = g.seqs
  kind : ∀ r ∈ g.rows, r.Telemetry
  pos : ∀ r ∈ g.rows, r.seq ≠ 0

/-- The rows confirmed so far are the log, which covers its checkpoint, and of which the
server has what was acknowledged.  The seq `k` is one acknowledged before. -/
structure Posted (R : Receiver) (k : UInt32) (w : World Channel) (cp : Checkpoint) (ack : AckRec)
    (g : Journal) : Prop where
  durable : Durable w cp ack g.rows
  logged : Logged g
  covered : Covered cp ack g.rows
  shipped : Shipped R w.peer ack.ackedSeq g.rows
  floor : k ≤ ack.ackedSeq

/-- Flash and server while the device is off. -/
def Parked (R : Receiver) (k : UInt32) (w : World Channel) (g : Journal) : Prop :=
  ∃ cp ack, Posted R k w cp ack g

/-- The same with the device running. -/
def Relaying (R : Receiver) (k : UInt32) (d : Globals) (w : World Channel) (g : Journal) : Prop :=
  ∃ cp, Posted R k w cp d.q.ack g ∧ Ram d.tot.cp cp ∧ (d.seq ≤ cp.seq ∨ d.seq ≤ d.q.ack.ackedSeq)

section

variable {R : Receiver} {k : UInt32} {d : Globals} {w w' : World Channel} {g : Journal}
  {cp cp' : Checkpoint} {ack : AckRec}

theorem Relaying.parked (h : Relaying R k d w g) : Parked R k w g := by
  obtain ⟨cp, hp, -⟩ := h
  exact ⟨cp, _, hp⟩

/-- The same log under another checkpoint of the same seq. -/
theorem Posted.redurable (h : Posted R k w cp ack g) (hd : Durable w' cp' ack g.rows)
    (hseq : cp'.seq = cp.seq) (hpeer : w'.peer = w.peer) : Posted R k w' cp' ack g :=
  ⟨hd, h.logged, h.covered.mono hseq (UInt32.le_refl _), hpeer ▸ h.shipped, h.floor⟩

theorem Journal.track_same {s : Sample} {r : Globals × Sync}
    {m : Node (Globals × Sync) (World Channel)}
    (h : m.store.flash.checkpoints = w.flash.checkpoints) :
    Journal.track (.op (.cycle s)) (.on r w) m g = g := if_neg h.not_gt

/-- A cycle that got as far as a checkpoint write has confirmed its row. -/
theorem Journal.track_row {s : Sample} {r : Globals × Sync}
    {m : Node (Globals × Sync) (World Channel)} {row : QRow} {rows : List QRow}
    (hd : Durable m.store cp ack (rows ++ [row]))
    (hpos : 5000 * cp.qSegment.toNat < (rows ++ [row]).length)
    (hlt : w.flash.checkpoints < m.store.flash.checkpoints) :
    Journal.track (.op (.cycle s)) (.on r w) m g =
      ⟨g.seqs ++ [r.1.seq + 1], g.rows ++ [row]⟩ := by
  rw [Journal.track, if_pos hlt, hd.confirmedRow_eq hpos, Option.toList_some]

/-- The journal with the next row. -/
theorem Logged.append (h : Logged g) {row : QRow} {seq : UInt32} (hrow : row.seq = seq)
    (hkind : row.Telemetry) (hpos : seq ≠ 0) : Logged ⟨g.seqs ++ [seq], g.rows ++ [row]⟩ := by
  refine ⟨?_, fun r hr => ?_, fun r hr => ?_⟩
  · rw [List.map_append, h.seqs, List.map_singleton, hrow]
  · rcases List.mem_append.mp hr with hr | hr
    · exact h.kind r hr
    · rwa [List.mem_singleton.mp hr]
  · rcases List.mem_append.mp hr with hr | hr
    · exact h.pos r hr
    · rw [List.mem_singleton.mp hr, hrow]
      exact hpos

/-- **A cycle confirms its row**, or nothing. -/
theorem Relaying.wp_telemetryCycle (h : Relaying R k d w g) (hcount : w.flash.Counted)
    (hle : d.seq.toNat ≤ w.flash.checkpoints) (s : Sample) (n : Sync) :
    wp (sem R.channel) (d.telemetryCycle s)
      (fun d' w' => w'.flash.Counted →
        Relaying R k d' w' (Journal.track (.op (.cycle s)) (.on (d, n) w) (.on (d', n) w') g))
      (fun w' => w'.flash.Counted →
        Parked R k w' (Journal.track (.op (.cycle s)) (.on (d, n) w) (.off w') g)) w := by
  obtain ⟨cp, hp, hram, hseq⟩ := h
  -- until the append's checkpoint write completes nothing is confirmed
  have hkept : ∀ w' : World Channel, Durable w' cp d.q.ack g.rows →
      w'.flash.done = w.flash.done → w'.peer = w.peer → w'.flash.Counted →
      Parked R k w' (Journal.track (.op (.cycle s)) (.on (d, n) w) (.off w') g) := by
    intro w' hd hdone hpeer _
    rw [Journal.track_same (m := .off w') (checkpoints_congr hdone)]
    exact ⟨cp, d.q.ack, hp.redurable hd rfl hpeer⟩
  refine Totalizer.wp_total (hkept w hp.durable rfl rfl) fun total => wp_bind ?_
  refine hp.durable.wp_append R.channel_reliable hram hcount hkept fun w1 c hplaced => ?_
  set row := QRow.kind.stamp (telemetryBuild s d.bootId total (d.seq + 1)
    (decide (queueHighwater < d.q.unackedCount)))
  have hgrew : (w1.persisted c).flash.checkpoints = w.flash.checkpoints + 1 := by
    rw [checkpoints_write, checkpoints_congr hplaced.slots.done]
  have hlogged : (w1.persisted c).flash.Counted →
      Logged ⟨g.seqs ++ [d.seq + 1], g.rows ++ [row]⟩ := by
    intro hc
    refine hp.logged.append rfl ⟨rfl, rfl⟩ fun hz => ?_
    have hz' : (d.seq + 1).toNat = 0 := congrArg UInt32.toNat hz
    have hadd : (d.seq + 1).toNat = (d.seq.toNat + 1) % 2 ^ 32 := UInt32.toNat_add _ _
    rw [Flash.Counted, hgrew] at hc
    omega
  have hshipped : Shipped R w.peer d.q.ack.ackedSeq (g.rows ++ [row]) := hp.shipped.append row
  -- the row is there and its seq is not counted yet
  have hcovered : Covered (ckptSlots.next c) d.q.ack (g.rows ++ [row]) := by
    intro x hx hx'
    obtain ⟨r, hr, hrs⟩ := hp.covered x hx
      ((show (ckptSlots.next c).seq = cp.seq from hplaced.seq) ▸ hx')
    exact ⟨r, List.mem_append_left _ hr, hrs⟩
  have hcut : ∀ w' : World Channel, (w1.persisted c).flash.Counted →
      Durable w' (ckptSlots.next c) d.q.ack (g.rows ++ [row]) →
      w'.flash.done = (w1.persisted c).flash.done → w'.peer = (w1.persisted c).peer →
      Parked R k w' (Journal.track (.op (.cycle s)) (.on (d, n) w) (.off w') g) := by
    intro w' hc hd hdone hpeer
    have hmore : w.flash.checkpoints < w'.flash.checkpoints := by
      rw [checkpoints_congr hdone, hgrew]
      exact Nat.lt_succ_self _
    rw [Journal.track_row (m := .off w') hd hplaced.behind hmore]
    exact ⟨_, _, hd, hlogged hc, hcovered, (hpeer.trans hplaced.slots.peer) ▸ hshipped, hp.floor⟩
  have hd2 := fun hc => hplaced.durable hp.durable hc
  refine ⟨fun hc => hcut _ hc (hd2 hc) rfl rfl, wp_of_counted fun hc => ?_⟩
  refine wp_map ((hd2 hc).wp_service R.channel_reliable (.refl _)
    (fun w' hw' hdone hpeer _ => hcut w' hc hw' hdone hpeer) fun c' t' hc' ht' => ?_)
  -- the service behind the append checkpoints the seq
  have hseq' : (ckptSlots.next c').seq = d.seq + 1 := hc'.seq
  have hposted : ((w1.persisted c).persisted c').flash.Counted →
      Posted R k ((w1.persisted c).persisted c') (ckptSlots.next c') d.q.ack
        ⟨g.seqs ++ [d.seq + 1], g.rows ++ [row]⟩ := fun hcount' =>
    ⟨(hd2 hc).repersist hc' hcount', hlogged hc, hp.covered.append hseq rfl hseq',
      (show ((w1.persisted c).persisted c').peer = w.peer from hplaced.slots.peer) ▸ hshipped,
      hp.floor⟩
  have hmore : w.flash.checkpoints < ((w1.persisted c).persisted c').flash.checkpoints := by
    rw [checkpoints_write, hgrew]
    omega
  have hbehind : 5000 * (ckptSlots.next c').qSegment.toNat < (g.rows ++ [row]).length := by
    rw [show (ckptSlots.next c').qSegment = c.qSegment from hc'.segment]
    exact hplaced.behind
  refine ⟨fun hcount' => ?_, fun hcount' => ?_⟩
  · rw [Journal.track_row (m := .off ((w1.persisted c).persisted c')) (hposted hcount').durable
      hbehind hmore]
    exact ⟨_, _, hposted hcount'⟩
  · rw [Journal.track_row (m := .on _ ((w1.persisted c).persisted c')) (hposted hcount').durable
      hbehind hmore]
    exact ⟨_, hposted hcount', ht' ▸ .refl _, .inl (hseq' ▸ UInt32.le_refl _)⟩

theorem Relaying.wp_backgroundService (h : Relaying R k d w g) :
    wp (sem R.channel) d.backgroundService
      (fun d' w' => w'.flash.Counted → Relaying R k d' w' g)
      (fun w' => w'.flash.Counted → Parked R k w' g) w := by
  obtain ⟨cp, hp, hram, hseq⟩ := h
  refine wp_map (hp.durable.wp_service R.channel_reliable hram
    (fun w' hw' _ hpeer _ => ⟨cp, _, hp.redurable hw' rfl hpeer⟩) fun c t' hc ht' => ?_)
  have hsame : (ckptSlots.next c).seq = cp.seq := hc.seq.trans hram.seq
  have hposted : (w.persisted c).flash.Counted →
      Posted R k (w.persisted c) (ckptSlots.next c) d.q.ack g := fun hcount =>
    hp.redurable (hp.durable.repersist hc hcount) hsame rfl
  exact ⟨fun hcount => ⟨_, _, hposted hcount⟩,
    fun hcount => ⟨_, hposted hcount, ht' ▸ .refl _, hsame.symm ▸ hseq⟩⟩

/-- The rows a push sends are rows of the log. -/
theorem Relaying.pending_subset (h : Relaying R k d w g) {maxN : ℕ} :
    ∀ r ∈ d.pending w.file maxN, r ∈ g.rows := by
  obtain ⟨cp, hp, hram, -⟩ := h
  intro r hr
  have hpending : d.pending w.file maxN =
      (g.rows.filter fun r => d.q.ack.ackedSeq < r.seq).take maxN :=
    (hram.laid hp.durable.laid).pending_eq maxN
  exact (List.mem_filter.mp (List.mem_of_mem_take (hpending ▸ hr))).1

/-- **A push** acknowledges what the server has. -/
theorem Relaying.wp_pushOnce (h : Relaying R k d w g) (n : Sync) :
    wp (sem R.channel) (n.pushOnce d) (fun r w' => Relaying R k r.2.2 w' g)
      (fun w' => Parked R k w' g) w := by
  have hself := h
  obtain ⟨cp, hp, hram, hseq⟩ := h
  have hexchange : ∀ (w' : World Channel) (r : HttpReply), w'.flash = w.flash →
      R.Serves (d.pending w.file pushBatchMax) w.peer.server r w'.peer.server →
      w'.peer.sent = w.peer.sent ++ [d.pending w.file pushBatchMax] →
      Posted R k w' cp d.q.ack g ∧ R.Truthful r w'.peer := by
    intro w' r hflash hs hsent
    obtain ⟨hshipped, htruth⟩ := hp.shipped.serve hp.logged.kind hself.pending_subset hs hsent
    exact ⟨⟨hp.durable.of_flash hflash, hp.logged, hp.covered, hshipped, hp.floor⟩, htruth⟩
  refine Sync.wp_pushOnce hself.parked (fun _ => hself) (fun w' _ hflash hcut => ?_)
    fun last r w' _ hflash hserve => ?_
  · obtain ⟨⟨r, hs⟩, hsent⟩ := hcut
    exact ⟨cp, _, (hexchange w' r hflash hs hsent).1⟩
  · obtain ⟨hp', htruth⟩ := hexchange w' r hflash hserve.1 hserve.2
    refine ⟨⟨cp, _, hp'⟩, fun _ _ => ⟨cp, hp', hram, hseq⟩, fun hcode hpos => ?_⟩
    have hk : boundAckSeq (Sync.ackSeq r.body).toUInt32 last.seq ≤
        (Sync.ackSeq r.body).toUInt32 := by
      unfold boundAckSeq
      split
      · next h => exact UInt32.le_of_lt h
      · exact UInt32.le_refl _
    have hacked : ∀ {w2 : World Channel} {a' : AckRec},
        Acked d.q.ack a' (boundAckSeq (Sync.ackSeq r.body).toUInt32 last.seq) →
        Durable w2 cp a' g.rows → SameCkpts w' w2 → Posted R k w2 cp a' g := by
      intro w2 a' ha hd hs
      exact ⟨hd, hp'.logged, hp'.covered.mono rfl ha.le,
        hs.peer ▸ hp'.shipped.acknowledge rfl (htruth hcode hpos) hk ha,
        UInt32.le_trans hp'.floor ha.le⟩
    refine wp_map (hp'.durable.wp_ackThrough R.channel_reliable hram rfl
      (fun w2 a' hw2 ha hs => ⟨cp, a', hacked ha hw2 hs⟩) fun w2 q' hw2 ha hs s' => ?_)
    exact ⟨cp, hacked ha hw2 hs, hram, hseq.imp_right fun h => UInt32.le_trans h ha.le⟩

/-- **The next boot** finds what the last one left. -/
theorem Parked.wp_setup (h : Parked R k w g) (hcount : w.flash.Counted) (bootId : UInt32) :
    wp (sem R.channel) (setup bootId) (fun d w' => w'.flash.Counted → Relaying R k d w' g)
      (fun w' => w'.flash.Counted → Parked R k w' g) w := by
  obtain ⟨cp, ack, hp⟩ := h
  refine hp.durable.wp_setup R.channel_reliable hcount (fun w' cp' hcp hw' => ?_)
    fun w' cp' d hcp hw' hram hack hseq => ?_
  · exact ⟨cp', ack, hp.redurable hw' hcp.seq hcp.peer⟩
  · refine ⟨cp', hack.symm ▸ hp.redurable hw' hcp.seq hcp.peer, hram, ?_⟩
    rw [hseq, hcp.seq, hack, resumeSeqFloor]
    split
    · exact .inl (UInt32.le_refl _)
    · exact .inr (UInt32.le_refl _)

end

/-- A stray request does not show on the device. -/
theorem Posted.stray {R : Receiver} {k : UInt32} {w : World Channel} {cp : Checkpoint}
    {ack : AckRec} {g : Journal} (h : Posted R k w cp ack g) {q : Request}
    (hq : R.Strays w.peer q) : Posted R k (w.seen (Channel.arrive R · q)) cp ack g :=
  ⟨h.durable.of_flash rfl, h.logged, h.covered, h.shipped.stray h.logged.kind hq, h.floor⟩

/-- **The invariant holds in every state of every run.** -/
theorem DeliveryRuns.holds {R : Receiver} {n : Node (Globals × Sync) (World Channel)}
    {g : Journal} (h : DeliveryRuns R n g) :
    n.Holds (fun w g => w.flash.Counted → Parked R 0 w g)
      (fun d w g => w.flash.Counted → Relaying R 0 d.1 w g) g := by
  refine Reach.invariant ?_ ?_ ?_ ?_ h.guarded
  · rintro n g ⟨e, rfl, hown, rfl⟩ _
    refine ⟨_, _, .fresh _, ⟨rfl, ?_, ?_⟩, ?_, ⟨?_, ?_, ?_⟩, UInt32.le_refl _⟩
    · exact fun r hr => absurd hr List.not_mem_nil
    · exact fun r hr => absurd hr List.not_mem_nil
    · exact fun s hs hs' => absurd hs (UInt32.not_lt.mpr hs')
    · exact fun b hb => absurd hb List.not_mem_nil
    · exact ⟨le_rfl, fun i h1 h2 => absurd (h1.trans h2) (by decide)⟩
    · exact hown.mono fun x hx => hx.elim
  · intro bootId w g _ hw
    exact wp_of_counted fun hc => wp_map ((hw hc).wp_setup hc bootId)
  · rintro i ⟨d, n⟩ w g ⟨-, hreach⟩ hw
    refine wp_of_counted fun hc => ?_
    cases i with
    | cycle s =>
      obtain ⟨cp, log, hord, -, -, -, hseq⟩ := NetRuns.holds (DeliveryRuns.netRuns hreach) hc
      exact wp_map ((hw hc).wp_telemetryCycle hc (hord.seq_le hseq) s n)
    | background => exact wp_map (hw hc).wp_backgroundService
    | push =>
      refine wp_map (wp_mono ((hw hc).wp_pushOnce n) ?_ ?_)
      · exact fun r w' h' _ => h'
      · exact fun w' h' _ => h'
  · rintro n n' g - ⟨q, hq, rfl⟩ hn
    cases n with
    | off w =>
      intro hc
      obtain ⟨cp, ack, hp⟩ := hn hc
      exact ⟨cp, ack, hp.stray hq⟩
    | on d w =>
      intro hc
      obtain ⟨cp, hp, hram, hseq⟩ := hn hc
      exact ⟨cp, hp.stray hq, hram, hseq⟩

/-- The order of the log, and what bounds its seqs. -/
theorem DeliveryRuns.ordered {R : Receiver} {d : Globals} {n : Sync} {w : World Channel}
    {g : Journal} (h : DeliveryRuns R (.on (d, n) w) g) (hc : w.flash.Counted) :
    (g.rows.Pairwise fun r r' => r.seq ≤ r'.seq) ∧
      ∀ r ∈ g.rows, r.seq.toNat ≤ w.flash.checkpoints ∧ r.seq.toNat ≤ d.seq.toNat + 1 := by
  obtain ⟨cp, hp, -⟩ : Relaying R 0 d w g := DeliveryRuns.holds h hc
  obtain ⟨cp', log, hord, hseqs, -, hnear, -⟩ := NetRuns.holds h.netRuns hc
  have hsame : g.rows.map QRow.seq = log.map QRow.seq := hp.logged.seqs.trans hseqs.symm
  refine ⟨?_, fun r hr => ?_⟩
  · have hsorted := List.pairwise_map (f := QRow.seq) (R := (· ≤ ·)) (l := log).mpr hord.sorted
    rw [← hsame] at hsorted
    exact List.pairwise_map.mp hsorted
  · obtain ⟨r', hr', hseq⟩ := List.mem_map.mp (hsame ▸ List.mem_map_of_mem hr)
    exact hseq ▸ ⟨hord.counted r' hr', hnear r' hr'⟩

/-! ## A bench run -/

/-- Answers of a working device, and of the server to each push. -/
def answeringChannel : (c : Call) → World Channel → c.Reply × World Channel
  | .post batch, w =>
      let resp := (benchRequest batch).answer plain w.peer.server.db
      (⟨resp.status, benchReceiver.text resp⟩,
        { w with peer := ⟨⟨(benchRequest batch).store plain w.peer.server.db,
          w.peer.server.delivered ++ [resp]⟩, w.peer.sent ++ [batch]⟩ })
  | c, w => respond (fun _ => false) c w

theorem answeringChannel_reply (c : Call) (w : World Channel) :
    (sem benchReceiver.channel).post c w (answeringChannel c w).1 (answeringChannel c w).2 := by
  -- where nothing is sent, the server does not matter
  have hrespond : reply { benchReceiver.channel with serve := fun _ _ _ _ => True } c w
      (respond (fun _ => false) c w).1 (respond (fun _ => false) c w).2 :=
    respond_reply (by simp) (fun _ _ => trivial) (fun _ => trivial) c
  cases c with
  | post batch => exact ⟨rfl, .whole (benchRequest_carries batch), rfl⟩
  | files | openDir | pcntGet | pcntClear | millis | online | httpBegin | get | random
  | confirmHealthyBoot | otaPoll => exact hrespond
  | appendOpenSize p | truncateTo p n | appendWrite p d | readAt p o n | writeWhole p d
  | remove p => exact hrespond

/-- The device, with what it has done to its flash and the server, and its journal. -/
abbrev BenchState := (Globals × Sync) × World Channel × Journal

/-- A new device after its boot and the given operations, the latest first. -/
def bench : List NetOp → BenchState
  | [] =>
      let out := (benchReceiver.machine.boot 1).exec answeringChannel
        ⟨Flash.empty, ⟨.empty, []⟩, []⟩
      (out.1, out.2, {})
  | i :: ops =>
      let b := bench ops
      let out := (benchReceiver.machine.op i b.1).exec answeringChannel b.2.1
      (out.1, out.2, Journal.track (.op i) (.on b.1 b.2.1) (.on out.1 out.2) b.2.2)

theorem bench_boot : Runs (sem benchReceiver.channel) (benchReceiver.machine.boot 1)
    ⟨Flash.empty, ⟨.empty, []⟩, []⟩ (bench []).1 (bench []).2.1 :=
  Prog.exec_runs (I := fun _ => True) (fun c w _ => ⟨answeringChannel_reply c w, trivial⟩) _ trivial

theorem bench_op (i : NetOp) (ops : List NetOp) :
    Runs (sem benchReceiver.channel) (benchReceiver.machine.op i (bench ops).1) (bench ops).2.1
      (bench (i :: ops)).1 (bench (i :: ops)).2.1 :=
  Prog.exec_runs (I := fun _ => True) (fun c w _ => ⟨answeringChannel_reply c w, trivial⟩) _ trivial

theorem unknown_empty (device : Cell) : Database.empty.Own device fun _ => False :=
  ⟨fun _ hx => absurd hx List.not_mem_nil, fun _ hx => absurd hx List.not_mem_nil⟩

theorem bench_runs : ∀ ops, DeliveryRuns benchReceiver (.on (bench ops).1 (bench ops).2.1)
    (bench ops).2.2
  | [] => .step (a := .boot 1) (.init ⟨_, rfl, unknown_empty _, rfl⟩) trivial (.boot bench_boot)
  | i :: ops => .step (a := .op i) (bench_runs ops) trivial (.op (bench_op i ops))

/-- Two rows, the first of which is acknowledged. -/
def benchTwo : BenchState := bench [.cycle ⟨0, 0, 0⟩, .push, .cycle ⟨0, 0, 0⟩]

theorem benchTwo_runs : DeliveryRuns benchReceiver (.on benchTwo.1 benchTwo.2.1) benchTwo.2.2 := by
  rw [benchTwo]
  exact bench_runs _

theorem benchTwo_counted : benchTwo.2.1.flash.Counted := by
  rw [Flash.Counted]
  decide +kernel

/-! ## What arrives -/

/-- The server has the device's row of this seq in `records`. -/
def Receiver.Recorded (R : Receiver) (db : Database) (seq : ℕ) (x : RecordRow) : Prop :=
  x ∈ db.records.rows ∧ x.deviceId = R.device ∧ x.seq = .num seq

/-- Where nothing is quarantined, what is present is in `records`. -/
theorem Receiver.exists_recorded {R : Receiver} {db : Database} {P : RecordRow → Prop}
    (h : db.Own R.device P) {s : ℕ} (hs : db.Present R.device (.num s)) :
    ∃ x, R.Recorded db s x := by
  rcases hs with ⟨x, hx, hdevice, hseq⟩ | ⟨x, hx, hdevice, -⟩
  · exact ⟨x, hx, (Cell.same_iff.mp hdevice).2.symm, (Cell.same_iff.mp hseq).2.symm⟩
  · exact absurd (Cell.same_iff.mp hdevice).2.symm (h.quarantined x hx)

/-- **Stored once**: whether the device is on or off, the server has only confirmed rows
under its name, column by column, and exactly one for each acknowledged seq. -/
theorem stored_once {R : Receiver} {n : Node (Globals × Sync) (World Channel)} {g : Journal}
    (h : DeliveryRuns R n g) (hc : n.store.flash.Counted) :
    n.store.peer.server.db.Own R.device (fun x => ∃ r ∈ g.rows, RecordOf r x) ∧
      ∀ s : ℕ, 1 ≤ s → s ≤ (ackSlots.recover n.store.file).ackedSeq.toNat →
        ∃! x, R.Recorded n.store.peer.server.db s x := by
  obtain ⟨cp, ack, hp⟩ : Parked R 0 n.store g := by
    have hn := DeliveryRuns.holds h
    cases n with
    | off w => exact hn hc
    | on d w => exact (hn hc).parked
  refine ⟨hp.shipped.own, fun s h1 h2 => ?_⟩
  rw [hp.durable.ackLast.recover] at h2
  have hpresent := hp.shipped.resolved.2 s (by omega) (by omega)
  obtain ⟨x, hx⟩ := Receiver.exists_recorded (s := s) hp.shipped.own (by exact_mod_cast hpresent)
  exact ⟨x, hx, fun y hy => records_unique hy.1 hx.1 (hy.2.1.trans hx.2.1.symm)
    (hy.2.2.trans hx.2.2.symm)⟩

theorem stored_once_benchTwo : ∃ n g, DeliveryRuns benchReceiver n g ∧
    (ackSlots.recover n.store.file).ackedSeq = 1 ∧
      n.store.peer.server.db.Own benchReceiver.device (fun x => ∃ r ∈ g.rows, RecordOf r x) ∧
      ∀ s : ℕ, 1 ≤ s → s ≤ (ackSlots.recover n.store.file).ackedSeq.toNat →
        ∃! x, benchReceiver.Recorded n.store.peer.server.db s x := by
  have hruns := benchTwo_runs
  have hcounted := benchTwo_counted
  have hacked : (ackSlots.recover benchTwo.2.1.file).ackedSeq = 1 := by decide +kernel
  generalize benchTwo = b at hruns hcounted hacked
  obtain ⟨r, w, g⟩ := b
  exact ⟨.on r w, g, hruns, hacked, stored_once hruns hcounted⟩

end Device
end CovioFirmware
