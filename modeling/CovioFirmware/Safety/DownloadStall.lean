import CovioFirmware.Bytes.Uptime
import CovioFirmware.Upgrade.Poll

/-!
# A download that stops

The download loop gives up when no byte has come for 15 seconds, but it looks at the
clock only where `available()` finds nothing.  Where bytes are reported and
`readBytes()` then hands out none, the loop starts over without a look at the clock, and
its service callback feeds the watchdog on the way: a stream that behaves like that for
ever holds the device for ever (`empty_reads_hold`).

`dead_transfer_ends` says that there is nothing else.  In every run in which no such
read is made by an iteration that began more than 15 seconds after the last byte, and in
which the clock is read within 2^32 milliseconds of that byte, no iteration starts later
than 15 seconds and the length of one iteration after it, and an update that is not
handed all its bytes is aborted.
-/

namespace CovioFirmware
namespace Upgrade

open Crash

/-! ## The clock and the stream -/

/-- The clock, and what has happened in a download. -/
structure Transfer where
  /-- The uptime in milliseconds, which does not wrap. -/
  now : ℕ
  /-- When a byte was last delivered; the begin of the update counts as one. -/
  lastByte : ℕ
  /-- `Update.begin` has succeeded. -/
  begun : Bool
  /-- The start of the iteration under way. -/
  iteration : Option ℕ
  /-- An iteration has started too late. -/
  late : Bool
  /-- The number of bytes delivered. -/
  delivered : ℕ
  /-- `Update.abort` has been called. -/
  aborted : Bool
  deriving DecidableEq

namespace Transfer

/-- Before the update. -/
def start (now : ℕ) : Transfer := ⟨now, now, false, none, false, 0, false⟩

/-- The clock moves on. -/
def moveTo (t : Transfer) (now : ℕ) : Transfer := { t with now := now }

/-- An iteration starts.  It is late if more than 15 seconds and the length of the
iteration before it have passed since the last byte. -/
def startIteration (t : Transfer) : Transfer :=
  { t with
    iteration := some t.now
    late := t.late || t.iteration.any fun s => t.lastByte + 15000 + (t.now - s) < t.now }

/-- A read has handed out `buf`. -/
def deliver (t : Transfer) (buf : Data) : Transfer :=
  if buf = [] then t
  else { t with lastByte := t.now, delivered := t.delivered + buf.length }

theorem deliver_nil (t : Transfer) : t.deliver [] = t := if_pos rfl

theorem deliver_of_ne (t : Transfer) {buf : Data} (h : buf ≠ []) :
    t.deliver buf = { t with lastByte := t.now, delivered := t.delivered + buf.length } := if_neg h

/-- A read leaves the clock and the verdicts alone. -/
theorem deliver_frame (t : Transfer) (buf : Data) : (t.deliver buf).now = t.now ∧
    (t.deliver buf).late = t.late ∧ (t.deliver buf).begun = t.begun := by
  unfold deliver
  split <;> exact ⟨rfl, rfl, rfl⟩

/-- The update is begun. -/
def beginUpdate (t : Transfer) : Transfer :=
  { t with lastByte := t.now, begun := true }

end Transfer

/-- What the calls answer, and what they do to the clock and the download.  A call may
take any time, `delay` takes what it was asked for, and a read that hands out nothing
has waited for it.  The clock itself is read at once. -/
def answers : (c : Call) → Transfer → c.Reply → Transfer → Prop
  | .millis, t, r, t' => r = .ofNat t.now ∧ t' = t
  | .service, t, _, t' => ∃ now ≥ t.now, t' = t.startIteration.moveTo now
  | .delay ms, t, _, t' => ∃ now ≥ t.now + ms, t' = t.moveTo now
  | .readBytes n, t, r, t' =>
      List.length r ≤ n ∧ ∃ now ≥ t.now, (r = [] → t.now < now) ∧ t' = (t.moveTo now).deliver r
  | .updateBegin _, t, r, t' =>
      ∃ now ≥ t.now, (r = true ∧ t' = (t.moveTo now).beginUpdate) ∨
        (r = false ∧ t' = t.moveTo now)
  | .updateWrite d, t, r, t' => (∃ k ≤ d.length, r = k) ∧ ∃ now ≥ t.now, t' = t.moveTo now
  | .updateAbort, t, _, t' => ∃ now ≥ t.now, t' = { t.moveTo now with aborted := true }
  | _, t, _, t' => ∃ now ≥ t.now, t' = t.moveTo now

/-- A network whose answers satisfy `P`. -/
def network (P : (c : Call) → Transfer → c.Reply → Prop) : Sem Call Call.Reply Transfer where
  post c t r t' := answers c t r t' ∧ P c t r
  cut _ t t' := t' = t

/-- Any network. -/
def Anything : (c : Call) → Transfer → c.Reply → Prop := fun _ _ _ => True

/-- No iteration that began more than 15 seconds after the last byte makes a read that
hands out nothing, and the clock is read within 2^32 milliseconds of that byte. -/
def Attended : (c : Call) → Transfer → c.Reply → Prop
  | .readBytes _, t, r => r = [] → ∀ s ∈ t.iteration, s ≤ t.lastByte + 15000
  | .millis, t, _ => t.now < t.lastByte + 2 ^ 32
  | _, _, _ => True

/-! ## The loop -/

/-- The loop between two iterations: it knows when the last byte came, and the iteration
behind it began in time. -/
structure Waiting (totalWritten : ℕ) (lastDataMs : UInt32) (t : Transfer) : Prop where
  last_eq : lastDataMs = .ofNat t.lastByte
  last_le : t.lastByte ≤ t.now
  in_time : t.late = false
  began_le : ∀ s ∈ t.iteration, s ≤ t.now ∧ s ≤ t.lastByte + 15000
  delivered_eq : t.delivered = totalWritten

/-- How many iterations are left at most: 15 seconds for every byte that is missing, and
what is left of the ones that have begun. -/
def patience (expectedSize totalWritten : ℕ) (t : Transfer) : ℕ :=
  (expectedSize - totalWritten) * 15002 + (15001 - (t.now - t.lastByte))

/-- The end of the loop: no iteration was late, what was written without an error is
what was delivered, and the loop did not run out of iterations it could have had. -/
def LoopEnd (expectedSize totalWritten fuel : ℕ) (t : Transfer) (got : Option Downloaded)
    (t' : Transfer) : Prop :=
  t'.late = false ∧ t'.begun = t.begun ∧
    (∀ d, got = some d → d.ioError = false → d.totalWritten = t'.delivered) ∧
    (patience expectedSize totalWritten t < fuel → got ≠ none)

section

variable {P : (c : Call) → Transfer → c.Reply → Prop} {α : Type} {Q : α → Transfer → Prop}

/-- A call that only takes time. -/
theorem wp_pass {c : Call} {k : c.Reply → Fw α} {t : Transfer}
    (hc : ∀ r t', answers c t r t' → ∃ now ≥ t.now, t' = t.moveTo now)
    (h : ∀ r now, t.now ≤ now → wp (network P) (k r) Q (fun _ => True) (t.moveTo now)) :
    wp (network P) (.call c k) Q (fun _ => True) t := by
  refine wp_call trivial (fun _ _ => trivial) ?_
  rintro r t' ⟨ht, -⟩
  obtain ⟨now, hle, rfl⟩ := hc r t' ht
  exact h r now hle

end

section

variable {expectedSize n fuel : ℕ} {last : UInt32} {t t1 t' : Transfer} {got : Option Downloaded}

theorem LoopEnd.here {d : Downloaded} (hlate : t1.late = false) (hbegun : t1.begun = t.begun)
    (hd : d.ioError = false → d.totalWritten = t1.delivered) :
    LoopEnd expectedSize n (fuel + 1) t (some d) t1 :=
  ⟨hlate, hbegun, fun _ hd' hio => Option.some.inj hd' ▸ hd (Option.some.inj hd' ▸ hio),
    fun _ => Option.some_ne_none _⟩

theorem LoopEnd.next {n' : ℕ} (h : LoopEnd expectedSize n' fuel t1 got t')
    (hbegun : t1.begun = t.begun)
    (hless : patience expectedSize n' t1 < patience expectedSize n t) :
    LoopEnd expectedSize n (fuel + 1) t got t' :=
  ⟨h.1, h.2.1.trans hbegun, h.2.2.1, fun hlt => h.2.2.2 (by omega)⟩

/-- An iteration that starts in time. -/
theorem Waiting.late_startIteration (h : Waiting n last t) : t.startIteration.late = false := by
  show (t.late || t.iteration.any _) = false
  rw [h.in_time, Bool.false_or, Option.any_eq_false]
  intro s hs
  obtain ⟨hnow, hlast⟩ := h.began_le s hs
  exact decide_eq_false (by omega)

/-- An iteration that has found nothing goes on only within 15 seconds of the last
byte, and then has waited. -/
theorem Waiting.idle (h : Waiting n last t) {now later : ℕ} (hnow : t.now ≤ now)
    (hlast : now ≤ t.lastByte + 15000) (hlater : now < later) :
    Waiting n last (t.startIteration.moveTo later) ∧
      patience expectedSize n (t.startIteration.moveTo later) < patience expectedSize n t := by
  have hle := h.last_le
  refine ⟨⟨h.last_eq, ?_, h.late_startIteration, ?_, h.delivered_eq⟩, ?_⟩
  · show t.lastByte ≤ later
    omega
  · intro s hs
    obtain rfl : t.now = s := Option.some.inj hs
    exact ⟨hnow.trans hlater.le, hnow.trans hlast⟩
  · show _ + (15001 - (later - t.lastByte)) < _ + (15001 - (t.now - t.lastByte))
    omega

/-- An iteration that has delivered bytes. -/
theorem Waiting.fed (h : Waiting n last t) {now later : ℕ} {buf : Data} (hnow : t.now ≤ now)
    (hlater : now ≤ later) (hbuf : buf ≠ []) (hlt : n < expectedSize) :
    Waiting (n + buf.length) (.ofNat now)
        (((t.startIteration.moveTo now).deliver buf).moveTo later) ∧
      patience expectedSize (n + buf.length)
        (((t.startIteration.moveTo now).deliver buf).moveTo later) < patience expectedSize n t := by
  have hpos := List.length_pos_iff.mpr hbuf
  rw [Transfer.deliver_of_ne _ hbuf]
  refine ⟨⟨rfl, hlater, h.late_startIteration, ?_, ?_⟩, ?_⟩
  · intro s hs
    obtain rfl : t.now = s := Option.some.inj hs
    exact ⟨hnow.trans hlater, hnow.trans (Nat.le_add_right _ _)⟩
  · show t.delivered + buf.length = n + buf.length
    rw [h.delivered_eq]
  · show (expectedSize - (n + buf.length)) * 15002 + (15001 - (later - now)) <
      (expectedSize - n) * 15002 + (15001 - (t.now - t.lastByte))
    omega

end

/-- **The loop**, while it is attended: it starts every iteration in time, and it
ends. -/
theorem wp_download_stall {expectedSize : ℕ} : ∀ fuel {hashed : Data} {n : ℕ} {last : UInt32}
    {t : Transfer}, Waiting n last t →
      wp (network Attended) (download expectedSize fuel hashed n last)
        (LoopEnd expectedSize n fuel t) (fun _ => True) t := by
  intro fuel
  induction fuel with
  | zero =>
    intro hashed n last t h
    exact ⟨trivial, h.in_time, rfl, fun d hd => (Option.some_ne_none d hd.symm).elim,
      fun hlt => absurd hlt (Nat.not_lt_zero _)⟩
  | succ fuel ih =>
    intro hashed n last t h
    unfold download
    by_cases hlt : n < expectedSize
    · rw [if_pos hlt]
      have hstart := h.late_startIteration
      refine wp_call trivial (fun _ _ => trivial) ?_
      rintro _ _ ⟨⟨now1, hnow1, rfl⟩, -⟩
      refine wp_pass (c := .available) (fun _ _ h => h) fun (avail : ℕ) now2 hnow2 => ?_
      change wp _ (if avail = 0 then _ else _) _ _ (t.startIteration.moveTo now2)
      by_cases havail : avail = 0
      · rw [if_pos havail]
        refine wp_pass (c := .connected) (fun _ _ h => h) fun (conn : Bool) now3 hnow3 => ?_
        cases conn with
        | false =>
          exact ⟨trivial, .here hstart rfl fun _ => h.delivered_eq.symm⟩
        | true =>
          refine wp_call trivial (fun _ _ => trivial) ?_
          rintro _ _ ⟨⟨rfl, rfl⟩, hturn⟩
          have hle : t.lastByte ≤ now3 := h.last_le.trans (hnow1.trans (hnow2.trans hnow3))
          have helapsed : (UInt32.ofNat now3 - last).toNat = now3 - t.lastByte := by
            rw [h.last_eq]
            exact Uptime.toNat_sub_of_lt hle hturn
          change wp _ (if 15000 < UInt32.ofNat now3 - last then _ else _) _ _ _
          by_cases hstall : 15000 < UInt32.ofNat now3 - last
          · rw [if_pos hstall]
            exact ⟨trivial, .here hstart rfl fun hio => Bool.noConfusion hio⟩
          · rw [if_neg hstall]
            have hpatient : now3 ≤ t.lastByte + 15000 := by
              rw [UInt32.not_lt, UInt32.le_iff_toNat_le, helapsed] at hstall
              change now3 - t.lastByte ≤ 15000 at hstall
              omega
            refine wp_call trivial (fun _ _ => trivial) ?_
            rintro _ _ ⟨⟨later, hlater, rfl⟩, -⟩
            change now3 + 5 ≤ later at hlater
            obtain ⟨hwaiting, hless⟩ := h.idle (hnow1.trans (hnow2.trans hnow3)) hpatient
              (Nat.lt_of_lt_of_le (by omega) hlater)
            exact wp_mono (ih hwaiting) (fun _ _ hend => hend.next rfl hless) fun _ h => h
      · rw [if_neg havail]
        refine wp_call trivial (fun _ _ => trivial) ?_
        rintro buf _ ⟨⟨-, now3, hnow3, hwait, rfl⟩, hattended⟩
        change wp _ (if List.length buf = 0 then _ else _) _ _ _
        by_cases hbuf : buf = []
        · -- nothing was handed out, so the iteration began in time
          obtain rfl : buf = [] := hbuf
          rw [if_pos List.length_nil, Transfer.deliver_nil]
          obtain ⟨hwaiting, hless⟩ := h.idle le_rfl (hattended rfl t.now rfl)
            (Nat.lt_of_le_of_lt (hnow1.trans hnow2) (hwait rfl))
          exact wp_mono (ih hwaiting) (fun _ _ hend => hend.next rfl hless) fun _ h => h
        · rw [if_neg fun hlen => hbuf (List.length_eq_zero_iff.mp hlen)]
          refine wp_call trivial (fun _ _ => trivial) ?_
          rintro _ _ ⟨⟨rfl, rfl⟩, -⟩
          obtain ⟨hclock, hlate, hbegun⟩ :=
            Transfer.deliver_frame (t.startIteration.moveTo now3) buf
          refine wp_call trivial (fun _ _ => trivial) ?_
          rintro (written : ℕ) _ ⟨⟨-, later, hlater, rfl⟩, -⟩
          change ((t.startIteration.moveTo now3).deliver buf).now ≤ later at hlater
          rw [hclock] at hlater
          change wp _ (if written ≠ List.length buf then _ else _) _ _ _
          by_cases hwritten : written ≠ List.length buf
          · rw [if_pos hwritten]
            exact ⟨trivial, .here (hlate.trans hstart) hbegun fun hio => Bool.noConfusion hio⟩
          · rw [if_neg hwritten]
            obtain ⟨hwaiting, hless⟩ := h.fed (hnow1.trans (hnow2.trans hnow3)) hlater hbuf hlt
            change wp _ (download _ _ _ _ (.ofNat ((t.startIteration.moveTo now3).deliver buf).now))
              _ _ _
            rw [hclock]
            exact wp_mono (ih hwaiting) (fun _ _ hend => hend.next hbegun hless) fun _ h => h
    · rw [if_neg hlt]
      exact ⟨trivial, .here h.in_time rfl fun _ => h.delivered_eq.symm⟩

/-! ## The update -/

/-- No iteration started too late, and with the iterations it may need, an update that
was begun and not handed all its bytes was aborted. -/
def Ended (expectedSize passes : ℕ) (t : Transfer) : Prop :=
  t.late = false ∧ ((expectedSize + 1) * 15002 ≤ passes → t.begun = true →
    t.delivered < expectedSize → t.aborted = true)

section

variable {crypto : Crypto} {o : Ota} {expectedSize passes : ℕ} {sha256Hex : List Char}

/-- Behind the loop an update that is not complete is aborted. -/
theorem wp_finishUpdate_stall {got : Downloaded} {t : Transfer} (hlate : t.late = false)
    (hgot : got.ioError = false → got.totalWritten = t.delivered) :
    wp (network Attended) (o.finishUpdate crypto expectedSize sha256Hex got)
      (fun _ => Ended expectedSize passes) (fun _ => True) t := by
  have habort : ∀ k : Fw Ota, (∀ t' : Transfer, t'.late = false → t'.aborted = true →
      wp (network Attended) k (fun _ => Ended expectedSize passes) (fun _ => True) t') →
      wp (network Attended) (Fw.updateAbort >>= fun _ => k) (fun _ => Ended expectedSize passes)
        (fun _ => True) t := by
    intro k hk
    refine wp_call trivial (fun _ _ => trivial) ?_
    rintro _ _ ⟨⟨now, -, rfl⟩, -⟩
    exact hk _ hlate rfl
  unfold Ota.finishUpdate
  split
  · exact habort _ fun t' hl ha => ⟨trivial, hl, fun _ _ _ => ha⟩
  · next hcomplete =>
    split
    · exact habort _ fun t' hl ha => ⟨trivial, hl, fun _ _ _ => ha⟩
    · -- the image is complete
      have hfull : t.delivered = expectedSize := by
        rw [not_or, not_not, Bool.not_eq_true] at hcomplete
        exact (hgot hcomplete.1).symm.trans hcomplete.2
      have hend : ∀ now, Ended expectedSize passes (t.moveTo now) := fun now =>
        ⟨hlate, fun _ _ hlt => absurd hfull hlt.ne⟩
      refine wp_pass (c := .updateEnd) (fun _ _ h => h) fun (ok : Bool) now _ => ?_
      cases ok with
      | false => exact ⟨trivial, hend now⟩
      | true =>
        refine wp_pass (c := .restart) (fun _ _ h => h) fun _ later _ => ?_
        exact ⟨trivial, hend later⟩

/-- **An update**, while it is attended. -/
theorem wp_doVerifiedUpdate_stall {binUrl : List Char} (now : ℕ) :
    wp (network Attended) (o.doVerifiedUpdate crypto passes binUrl expectedSize sha256Hex)
      (fun _ => Ended expectedSize passes) (fun _ => True) (.start now) := by
  -- nothing has begun
  have hidle : ∀ now', Ended expectedSize passes ((Transfer.start now).moveTo now') := fun _ =>
    ⟨rfl, fun _ hbegun => Bool.noConfusion hbegun⟩
  unfold Ota.doVerifiedUpdate
  refine wp_pass (c := .httpBegin binUrl) (fun _ _ h => h) fun (began : Bool) now1 _ => ?_
  cases began with
  | false => exact ⟨trivial, hidle now1⟩
  | true =>
    refine wp_pass (c := .httpGet) (fun _ _ h => h) fun (code : ℤ) now2 _ => ?_
    change wp _ (if code ≠ 200 then _ else _) _ _ _
    split
    · exact ⟨trivial, hidle now2⟩
    · refine wp_pass (c := .httpSize) (fun _ _ h => h) fun (len : ℤ) now3 _ => ?_
      change wp _ (if 0 ≤ len ∧ len ≠ expectedSize then _ else _) _ _ _
      split
      · exact ⟨trivial, hidle now3⟩
      · refine wp_call trivial (fun _ _ => trivial) ?_
        rintro _ _ ⟨⟨now4, -, ⟨rfl, rfl⟩ | ⟨rfl, rfl⟩⟩, -⟩
        · refine wp_call trivial (fun _ _ => trivial) ?_
          rintro _ _ ⟨⟨rfl, rfl⟩, -⟩
          have hwaiting : Waiting 0 (.ofNat now4) ((Transfer.start now).moveTo now4).beginUpdate :=
            ⟨rfl, le_rfl, rfl, fun s hs => (Option.not_mem_none s hs).elim, rfl⟩
          change wp _ (download expectedSize passes [] 0 (.ofNat now4) >>= _) _ _ _
          refine wp_bind_of (wp_download_stall passes hwaiting) (fun _ h => h) ?_
          rintro (_ | got) t ⟨hlate, -, hgot, hfuel⟩
          · refine ⟨trivial, hlate, fun hpasses => ?_⟩
            refine absurd rfl (hfuel ?_)
            show (expectedSize - 0) * 15002 + (15001 - (now4 - now4)) < passes
            omega
          · exact wp_finishUpdate_stall hlate (hgot got rfl)
        · exact ⟨trivial, hidle now4⟩

end

/-- **A dead transfer ends**, while it is attended: in every run no iteration of the loop
starts more than 15 seconds and one iteration after the last byte, and an update that was
begun and not handed all its bytes was aborted. -/
theorem dead_transfer_ends (crypto : Crypto) (passes : ℕ) (o : Ota) (binUrl : List Char)
    (expectedSize : ℕ) (sha256Hex : List Char) (now : ℕ) {o' : Ota} {t : Transfer}
    (hrun : Runs (network Attended)
      (o.doVerifiedUpdate crypto passes binUrl expectedSize sha256Hex) (.start now) o' t) :
    Ended expectedSize passes t :=
  (wp_doVerifiedUpdate_stall now).runs hrun

/-! ## A stream that hands out nothing -/

/-- What is behind an iteration in which bytes are reported and a read of 20 seconds
hands out none. -/
def Transfer.emptyRead (t : Transfer) : Transfer := t.startIteration.moveTo (t.now + 20000)

/-- Such iterations go on for ever, whatever the number of them the loop may have. -/
theorem empty_reads_go_on (passes : ℕ) (hashed : Data) (last : UInt32) (t : Transfer) :
    Runs (network Anything) (download 1 passes hashed 0 last) t none
      (Transfer.emptyRead^[passes] t) := by
  induction passes generalizing t with
  | zero => exact .ret _ _
  | succ n ih =>
    have hservice : (network Anything).post .service t () t.startIteration :=
      ⟨⟨t.now, le_rfl, rfl⟩, trivial⟩
    have havailable : (network Anything).post .available t.startIteration (1 : ℕ)
        t.startIteration := ⟨⟨t.now, le_rfl, rfl⟩, trivial⟩
    have hread : (network Anything).post (.readBytes (min 1 1024)) t.startIteration ([] : Data)
        t.emptyRead :=
      ⟨⟨Nat.zero_le _, t.now + 20000, Nat.le_add_right _ _, fun _ => Nat.lt_add_of_pos_right
        (by decide), rfl⟩, trivial⟩
    unfold download
    rw [if_pos Nat.zero_lt_one, Function.iterate_succ_apply]
    exact .call hservice (.call havailable (.call hread (ih _)))

/-- An update that is begun with such a stream: nothing is delivered, iterations start
too late, and nothing is aborted. -/
theorem empty_reads_hold :
    ¬ ∀ (passes : ℕ) (o : Ota) (t : Transfer), Runs (network Anything)
      (Ota.doVerifiedUpdate ⟨fun _ => none, id, none⟩ passes {} [] 1 []) (.start 0) o t →
      Ended 1 passes t := by
  intro h
  have hpass : ∀ (c : Call) (r : c.Reply) (t : Transfer), answers c t r t →
      (network Anything).post c t r t := fun _ _ _ hc => ⟨hc, trivial⟩
  have hbegin : (network Anything).post (.updateBegin 1) (.start 0) true
      (Transfer.start 0).beginUpdate := ⟨⟨0, le_rfl, .inl ⟨rfl, rfl⟩⟩, trivial⟩
  have hloop := empty_reads_go_on 3 [] 0 (Transfer.start 0).beginUpdate
  have hrun : Runs (network Anything)
      (Ota.doVerifiedUpdate ⟨fun _ => none, id, none⟩ 3 {} [] 1 []) (.start 0) {}
      (Transfer.emptyRead^[3] (Transfer.start 0).beginUpdate) := by
    refine .call (hpass (.httpBegin []) true _ ⟨0, le_rfl, rfl⟩) ?_
    refine .call (hpass .httpGet (200 : ℤ) _ ⟨0, le_rfl, rfl⟩) ?_
    refine .call (hpass .httpSize (-1 : ℤ) _ ⟨0, le_rfl, rfl⟩) ?_
    refine .call hbegin (.call (hpass .millis (0 : UInt32) _ ⟨rfl, rfl⟩) ?_)
    exact hloop.bind (.ret _ _)
  exact absurd (h 3 _ _ hrun).1 (by decide)

/-- A connection that is closed before the first byte: the update is aborted. -/
theorem closed_connection_aborts :
    ∃ (o : Ota) (t : Transfer), Runs (network Attended)
      (Ota.doVerifiedUpdate ⟨fun _ => none, id, none⟩ 30004 {} [] 1 []) (.start 0) o t ∧
      t.begun = true ∧ t.aborted = true := by
  have hpass : ∀ (c : Call) (r : c.Reply) (t t' : Transfer), answers c t r t' → Attended c t r →
      (network Attended).post c t r t' := fun _ _ _ _ hc ha => ⟨hc, ha⟩
  let t := (Transfer.start 0).beginUpdate
  have hloop : ∀ n, Runs (network Attended) (download 1 (n + 1) [] 0 0) t
      (some ⟨false, [], 0⟩) t.startIteration := by
    intro n
    unfold download
    refine .call (hpass .service () t t.startIteration ⟨0, le_rfl, rfl⟩ trivial) ?_
    refine .call (hpass .available (0 : ℕ) _ t.startIteration ⟨0, le_rfl, rfl⟩ trivial) ?_
    exact .call (hpass .connected false _ t.startIteration ⟨0, le_rfl, rfl⟩ trivial) (.ret _ _)
  have hfinish : Runs (network Attended) (Ota.finishUpdate ⟨fun _ => none, id, none⟩ {} 1 []
      ⟨false, [], 0⟩) t.startIteration { failed := true }
      { t.startIteration with aborted := true } :=
    .call (hpass .updateAbort () _ _ ⟨0, le_rfl, rfl⟩ trivial) (.ret _ _)
  have hrun : ∀ n, Runs (network Attended)
      (Ota.doVerifiedUpdate ⟨fun _ => none, id, none⟩ (n + 1) {} [] 1 []) (.start 0)
      { failed := true } { t.startIteration with aborted := true } := by
    intro n
    refine .call (hpass (.httpBegin []) true _ (.start 0) ⟨0, le_rfl, rfl⟩ trivial) ?_
    refine .call (hpass .httpGet (200 : ℤ) _ (.start 0) ⟨0, le_rfl, rfl⟩ trivial) ?_
    refine .call (hpass .httpSize (-1 : ℤ) _ (.start 0) ⟨0, le_rfl, rfl⟩ trivial) ?_
    refine .call (hpass (.updateBegin 1) true _ t ⟨0, le_rfl, .inl ⟨rfl, rfl⟩⟩ trivial) ?_
    have hclock : Attended .millis t (0 : UInt32) := by
      show 0 < 0 + 2 ^ 32
      omega
    refine .call (hpass .millis (0 : UInt32) t t ⟨rfl, rfl⟩ hclock) ?_
    exact (hloop n).bind hfinish
  exact ⟨_, _, hrun 30003, rfl,
    (dead_transfer_ends _ 30004 {} [] 1 [] 0 (hrun 30003)).2 (by decide) rfl Nat.zero_lt_one⟩

end Upgrade
end CovioFirmware
