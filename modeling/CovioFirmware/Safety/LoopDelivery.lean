import CovioFirmware.Device.Main
import CovioFirmware.Safety.Delivery

/-!
# `loop()` in front of the server

`Delivery` lets the device do its cycles, its background checkpoints and its pushes in any
order.  `loop()` does them in an order of its own: by its timers, at most one network
transaction in an iteration, and nothing but the background checkpoint while the device is
being provisioned; between them it polls the configuration and the update manifest and
confirms the running image.  None of that shows on the flash or on the server, so whatever
`setup()` and `loop()` reach is reached by the machine of `Delivery`: `loop_delivers`.
-/

namespace CovioFirmware
namespace Device

open Server Crash

/-- The firmware in front of the server. -/
def Receiver.loopMachine (R : Receiver) :
    Machine Call Call.Reply (World Channel) Main UInt32 Tick where
  sem := sem R.channel
  boot bootId := do
    let d ← setup bootId
    return { d := d }
  op t m := m.loop t
  env n n' := ∃ q, R.Strays n.store.peer q ∧ n' = n.map (World.seen (Channel.arrive R · q))

/-- The states of all runs of the firmware from a factory-fresh device whose name the
server does not know. -/
abbrev FirmwareRuns (R : Receiver) (n : Node Main (World Channel)) : Prop :=
  Reach R.loopMachine (fun _ _ _ => True) (fun _ _ _ _ => ())
    (fun n _ => ∃ e, n = .off ⟨Flash.empty, e, []⟩ ∧ e.db.Own R.device (fun _ => False)) n ()

/-- The flash is one that the machine of `Delivery` leaves. -/
def Halted (R : Receiver) (w : World Channel) : Prop := ∃ g, DeliveryRuns R (.off w) g

/-- So is the flash under these globals. -/
def Carried (R : Receiver) (d : Globals) (n : Sync) (w : World Channel) : Prop :=
  ∃ g, DeliveryRuns R (.on (d, n) w) g

namespace Main

section

variable {R : Receiver} {m : Main} {w : World Channel} {now : UInt32}

theorem halted (h : Carried R m.d m.net w) : Halted R w := by
  obtain ⟨g, hg⟩ := h
  exact ⟨_, .step (a := .op .background) hg trivial (.opCut (.here _ _))⟩

/-- An operation of that machine. -/
theorem wp_netOp (h : Carried R m.d m.net w) (i : NetOp) :
    wp (sem R.channel) (NetOp.run i (m.d, m.net)) (fun r w' => Carried R r.1 r.2 w')
      (Halted R) w := by
  obtain ⟨g, hg⟩ := h
  refine wp_mono (Reach.wp_op (D := R.machine) (i := i) hg trivial) ?_ ?_
  · exact fun r w' hr => ⟨_, hr⟩
  · exact fun w' hw => ⟨_, hw⟩

theorem wp_background (h : Carried R m.d m.net w) :
    wp (sem R.channel) m.d.backgroundService (fun d w' => Carried R d m.net w') (Halted R) w :=
  wp_of_map (f := fun d => (d, m.net)) (wp_netOp h .background)

theorem wp_cycle (h : Carried R m.d m.net w) (s : Sample) :
    wp (sem R.channel) (m.d.telemetryCycle s) (fun d w' => Carried R d m.net w') (Halted R) w :=
  wp_of_map (f := fun d => (d, m.net)) (wp_netOp h (.cycle s))

theorem wp_pushOnce (h : Carried R m.d m.net w) :
    wp (sem R.channel) (m.net.pushOnce m.d) (fun r w' => Carried R r.2.2 r.2.1 w') (Halted R) w :=
  wp_of_map (f := fun r : Bool × Sync × Globals => (r.2.2, r.2.1)) (wp_netOp h .push)

/-! ## The blocks of an iteration -/

/-- What a block leaves. -/
abbrev Keeps (R : Receiver) (p : Fw Main) (w : World Channel) : Prop :=
  wp (sem R.channel) p (fun m w' => Carried R m.d m.net w') (Halted R) w

theorem keeps_covioBackgroundService (h : Carried R m.d m.net w) :
    Keeps R m.covioBackgroundService w := by
  simp only [Keeps, covioBackgroundService, Fw.millis_bind, Prog.pure_eq_ret]
  refine wp_sense (by simp) (halted h) fun (now : UInt32) => ?_
  split
  · exact wp_map (wp_background h)
  · exact ⟨halted h, h⟩

theorem keeps_telemetry (h : Carried R m.d m.net w) (s : Sample) :
    Keeps R (m.telemetry now s) w := by
  simp only [Keeps, telemetry, Prog.pure_eq_ret]
  split
  · exact wp_map (wp_cycle h s)
  · exact ⟨halted h, h⟩

theorem keeps_signalHealthy {healthy : Bool} (h : Carried R m.d m.net w) :
    Keeps R (m.signalHealthy healthy) w := by
  simp only [Keeps, signalHealthy, Fw.confirmHealthyBoot_bind, Prog.pure_eq_ret]
  split
  · exact wp_sense (by simp) (halted h) fun _ => ⟨halted h, h⟩
  · exact ⟨halted h, h⟩

theorem keeps_push (h : Carried R m.d m.net w) : Keeps R (m.push now) w := by
  refine wp_bind_of (wp_pushOnce h) (fun _ hw => hw) ?_
  rintro ⟨acked, net, d⟩ w' hr
  exact keeps_signalHealthy hr

theorem keeps_config (h : Carried R m.d m.net w) : Keeps R (m.config now) w := by
  have hpoll : wp (sem R.channel) Sync.pollConfig (fun _ w' => w' = w) (Halted R) w := by
    simp only [Sync.pollConfig, Fw.online_bind, Fw.httpBegin_bind, Fw.get_bind, Prog.pure_eq_ret]
    refine wp_sense (c := .online) (by simp) (halted h) fun (on : Bool) => ?_
    split
    · refine wp_sense (c := .httpBegin) (by simp) (halted h) fun (began : Bool) => ?_
      split
      · exact wp_sense (by simp) (halted h) fun _ => ⟨halted h, rfl⟩
      · exact ⟨halted h, rfl⟩
    · exact ⟨halted h, rfl⟩
  refine wp_bind_of hpoll (fun _ hw => hw) ?_
  rintro _ w' rfl
  exact wp_sense (by simp) (halted h) fun _ => keeps_signalHealthy h

theorem keeps_ota (h : Carried R m.d m.net w) : Keeps R (m.ota now) w := by
  simp only [Keeps, ota, Fw.online_bind, Fw.otaPoll_bind, Prog.pure_eq_ret]
  exact wp_sense (by simp) (halted h) fun _ => wp_sense (by simp) (halted h) fun _ =>
    ⟨halted h, h⟩

theorem keeps_network (h : Carried R m.d m.net w) : Keeps R (m.network now) w := by
  unfold network
  split
  · exact keeps_push h
  · split
    · exact keeps_config h
    · split
      · exact keeps_ota h
      · exact ⟨halted h, h⟩

/-- **An iteration.** -/
theorem keeps_loop (h : Carried R m.d m.net w) (t : Tick) : Keeps R (m.loop t) w := by
  simp only [loop, Fw.millis_bind]
  refine wp_sense (by simp) (halted h) fun (now : UInt32) => ?_
  split
  · exact keeps_covioBackgroundService h
  · exact wp_bind_of (keeps_telemetry h t.sample) (fun _ hw => hw) fun _ _ h' => keeps_network h'

end

end Main

/-- **Every state the firmware reaches** is one of the machine of `Delivery`. -/
theorem FirmwareRuns.holds {R : Receiver} {n : Node Main (World Channel)} (h : FirmwareRuns R n) :
    n.Holds (fun w _ => Halted R w) (fun m w _ => Carried R m.d m.net w) () := by
  refine Reach.invariant ?_ ?_ ?_ ?_ h
  · rintro n - ⟨e, rfl, hown⟩
    exact ⟨{}, .init ⟨e, rfl, hown, rfl⟩⟩
  · rintro bootId w - - ⟨g, hg⟩
    have hboot : wp (sem R.channel) (R.machine.boot bootId)
        (fun r w' => Carried R r.1 r.2 w') (Halted R) w := by
      refine wp_mono (Reach.wp_boot (D := R.machine) (b := bootId) hg trivial) ?_ ?_
      · exact fun r w' hr => ⟨_, hr⟩
      · exact fun w' hw => ⟨_, hw⟩
    exact wp_map (wp_of_map (f := fun d => (d, ({} : Sync))) hboot)
  · rintro t m w - - hm
    exact Main.keeps_loop hm t
  · intro n n' _ _ hstray hn
    obtain ⟨q, hq, rfl⟩ := hstray
    cases n with
    | off w =>
      obtain ⟨g, hg⟩ := hn
      exact ⟨_, .step (a := .env) hg trivial (.env ⟨q, hq, rfl⟩)⟩
    | on m w =>
      obtain ⟨g, hg⟩ := hn
      exact ⟨_, .step (a := .env) hg trivial (.env ⟨q, hq, rfl⟩)⟩

end Device
end CovioFirmware
