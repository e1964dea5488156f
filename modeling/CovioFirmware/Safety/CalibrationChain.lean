import CovioFirmware.Server.Administration
import CovioFirmware.Sql.Interleaving

/-!
# The audit trail of the calibration

Every change of the calibration is recorded with the values before and after it, and
read in order the records are to form a chain from the seed to the row in force.
`set_kfactor` reads the old row before its transaction begins, and the increment of
the version happens inside the `UPDATE`.  So the record is about the row that was
read, and the change about the row that is there when the lock is granted.  The two
are the same as long as nobody commits in between (`calibrationChain_of_reach`); two
requests that both read before either writes are enough to break the chain
(`not_calibrationChain_of_overlap`).
-/

namespace CovioFirmware
namespace Server

open Sql Crash

/-! ## The chain -/

/-- The change an event records. -/
def DeviceEvent.change (e : DeviceEvent) : Option (Calibration × Calibration) :=
  match e.eventType, e.detail with
  | .calibrationChanged, some (.calibration old new) => some (old, new)
  | _, _ => none

/-- The changes the audit trail records, in the order of their ids. -/
def Registry.changes (r : Registry) : List (Calibration × Calibration) :=
  r.events.filterMap DeviceEvent.change

/-- The changes form a chain from the seed to the row in force. -/
structure CalibrationChain (r : Registry) : Prop where
  /-- A change starts from what the one before it led to, the first from the seed. -/
  linked : r.changes.map Prod.fst = (seedCalibration :: r.changes.map Prod.snd).dropLast
  /-- The new versions are 2, 3 and so on, each once, -/
  versions : r.changes.map (·.2.version) = List.range' 2 r.changes.length
  /-- up to the one in force. -/
  current : r.calibration.version = r.changes.length + 1
  /-- The last change led to the row in force. -/
  last : (seedCalibration :: r.changes.map Prod.snd).getLast (List.cons_ne_nil _ _) =
    r.calibration

theorem calibrationChain_fresh (hashApiKey : PyStr → PyStr) :
    CalibrationChain (.fresh hashApiKey) := ⟨rfl, rfl, rfl, rfl⟩

/-- **A recorded change** of the row in force keeps the chain. -/
theorem CalibrationChain.append {r r' : Registry} (h : CalibrationChain r)
    (hchanges : r'.changes = r.changes ++ [(r.calibration, r'.calibration)])
    (hversion : r'.calibration.version = r.calibration.version + 1) : CalibrationChain r' := by
  refine ⟨?_, ?_, ?_, ?_⟩
  · rw [hchanges, List.map_append, List.map_append, h.linked, List.map_singleton,
      List.map_singleton, ← h.last, ← List.cons_append, List.dropLast_concat]
    exact List.dropLast_append_getLast _
  · rw [hchanges, List.map_append, h.versions, List.length_append, List.length_singleton,
      List.range'_concat, List.map_singleton, hversion, h.current]
    congr 2
    omega
  · rw [hversion, h.current, hchanges, List.length_append, List.length_singleton]
  · simp [hchanges]

/-! ## A request under way -/

/-- The row a request leads to. -/
def KfactorRequest.new (r : KfactorRequest) (old : Calibration) : Calibration :=
  ⟨r.k.cell, r.d.cell, r.tr.cell, old.version + 1⟩

theorem KfactorRequest.change_event (r : KfactorRequest) (old : Calibration) :
    (r.event old).change = some (old, r.new old) := rfl

/-- Where a request stands, over what is committed, and what its transaction has
written. -/
inductive Phase (r : KfactorRequest) (d : Registry) : Admin Unit → Option Registry → Prop where
  | reading : Phase r d (setKfactor r) none
  /-- The row it has read is still the one in force. -/
  | updating : Phase r d (changeCalibration r d.calibration) none
  | recording {d' : Registry} : d'.events = d.events → d'.calibration = r.new d.calibration →
      Phase r d (do
        Admin.exec (.insertEvent (r.event d.calibration))
        Admin.commit) (some d')
  | committing {d' : Registry} : d'.events = d.events ++ [r.event d.calibration] →
      d'.calibration = r.new d.calibration → Phase r d Admin.commit (some d')
  | returned : Phase r d (.ret ()) none

/-- The same for a request that may have failed. -/
def Standing (r : KfactorRequest) (d : Registry) (pending : Option Registry) :
    Thread registryDialect Unit → Prop
  | .running p => Phase r d p pending
  | _ => pending = none

/-- The request has read the old row, and has not written yet. -/
def Overlapped (t : Thread registryDialect Unit) : Prop :=
  ∃ k d tr, t.next = some (.exec (.setCalibration k d tr))

variable {r : KfactorRequest} {d d' : Registry} {pending : Option Registry}

/-- One call of a request. -/
theorem Phase.step {c : Call registryDialect} {k : c.Reply → Admin Unit} {a : c.Reply}
    {s : Store Registry} (h : Phase r d (.call c k) pending)
    (hstep : c.step ⟨d, pending⟩ = some (a, s)) :
    Phase r s.committed (k a) s.pending ∧ (s.committed = d ∨
      c = .commit ∧ pending = some s.committed ∧
        (CalibrationChain d → CalibrationChain s.committed)) := by
  cases h with
  | reading =>
    obtain ⟨rfl, rfl⟩ := Prod.mk.inj (Option.some.inj hstep)
    exact ⟨.updating, .inl rfl⟩
  | updating =>
    obtain ⟨⟨a, d'⟩, hwrite, hx⟩ := Option.map_eq_some_iff.mp hstep
    obtain ⟨rfl, rfl⟩ := Prod.mk.inj hx
    obtain ⟨-, hd'⟩ := Option.ite_none_left_eq_some.mp hwrite
    obtain ⟨-, rfl⟩ := Prod.mk.inj (Option.some.inj hd')
    exact ⟨.recording rfl rfl, .inl rfl⟩
  | recording hevents hcal =>
    obtain ⟨rfl, rfl⟩ := Prod.mk.inj (Option.some.inj hstep)
    refine ⟨.committing ?_ hcal, .inl rfl⟩
    exact congrArg (· ++ [r.event d.calibration]) hevents
  | @committing d' hevents hcal =>
    obtain ⟨rfl, rfl⟩ := Prod.mk.inj (Option.some.inj hstep)
    refine ⟨.returned, .inr ⟨rfl, rfl, fun h => h.append ?_ ?_⟩⟩
    · change d'.events.filterMap _ = d.events.filterMap _ ++ [(d.calibration, d'.calibration)]
      rw [hevents, List.filterMap_append, List.filterMap_cons_some (r.change_event _),
        List.filterMap_nil, hcal]
    · exact congrArg Calibration.version hcal

/-- A commit of another request does not concern one that is not overlapped. -/
theorem Standing.of_commit {t : Thread registryDialect Unit} (h : Standing r d none t)
    (hover : ¬ Overlapped t) : Standing r d' none t := by
  cases t with
  | running p =>
    cases h with
    | reading => exact Phase.reading
    | updating => exact absurd ⟨_, _, _, rfl⟩ hover
    | returned => exact Phase.returned
  | raised w => exact h
  | aborted => exact h

/-! ## Runs -/

variable {ι : Type} [DecidableEq ι]

/-- No commit falls between the read and the `UPDATE` of another request. -/
def noOverlap : Event ι → Net registryDialect ι Unit → Prop
  | .step i, n =>
      (n.threads i).next = some .commit → ∀ j, j ≠ i → ¬ Overlapped (n.threads j)
  | _, _ => True

/-- The runs of concurrent requests `rs` from `d`, whose events satisfy `ok`. -/
def KfactorRun (ok : Event ι → Net registryDialect ι Unit → Prop) (d : Registry)
    (rs : ι → KfactorRequest) (n : Net registryDialect ι Unit) : Prop :=
  Reach ok (fun _ _ g => g) (.initial d fun i => setKfactor (rs i)) () n ()

/-- **The chain holds** in every run without an overlap, whatever else the requests do
and whichever of them fail. -/
theorem calibrationChain_of_reach {d : Registry} {rs : ι → KfactorRequest}
    (hd : CalibrationChain d) {n : Net registryDialect ι Unit} (h : KfactorRun noOverlap d rs n) :
    CalibrationChain n.committed := by
  have hinv : CalibrationChain n.committed ∧
      ∀ i, Standing (rs i) n.committed (n.pending i) (n.threads i) := by
    refine Reach.invariant (J := fun n _ => CalibrationChain n.committed ∧
      ∀ i, Standing (rs i) n.committed (n.pending i) (n.threads i)) ⟨hd, fun i => .reading⟩ ?_ h
    rintro e n n' - ⟨hchain, hall⟩ hone hok hstep
    -- a request that fails leaves what is committed alone
    have hclose : ∀ (i : ι) (t : Thread registryDialect Unit), Standing (rs i) n.committed none t →
        CalibrationChain (n.advance i t (.idle n.committed)).committed ∧ ∀ j, Standing (rs j)
          (n.advance i t (.idle n.committed)).committed
          ((n.advance i t (.idle n.committed)).pending j)
          ((n.advance i t (.idle n.committed)).threads j) := by
      intro i t ht
      refine ⟨hchain, fun j => ?_⟩
      by_cases hj : j = i
      · subst hj
        rw [Net.pending_advance, Net.threads_advance]
        exact ht
      · rw [Net.pending_advance_of_ne hj, Net.threads_advance_of_ne hj]
        exact hall j
    cases hstep with
    | @step _ i c k a s hthread hlock hcall =>
      have hphase := hall i
      rw [hthread] at hphase
      obtain ⟨hnext, hcommitted⟩ := Phase.step hphase hcall
      refine ⟨?_, fun j => ?_⟩
      · rcases hcommitted with hsame | ⟨-, -, hkeep⟩
        · rw [Net.committed_advance, hsame]
          exact hchain
        · exact hkeep hchain
      · by_cases hj : j = i
        · subst hj
          rw [Net.pending_advance, Net.threads_advance]
          exact hnext
        · rw [Net.pending_advance_of_ne hj, Net.threads_advance_of_ne hj, Net.committed_advance]
          rcases hcommitted with hsame | ⟨rfl, hopen, -⟩
          · rw [hsame]
            exact hall j
          · have hnone : n.pending j = none := hone i (by rw [hopen]; simp) j hj
            have hother := hall j
            rw [hnone] at hother ⊢
            exact hother.of_commit (hok (by rw [hthread]; rfl) j hj)
    | raise hthread => exact hclose _ _ rfl
    | abort hthread => exact hclose _ _ rfl
  exact hinv.1

/-- A change of the K-factor alone. -/
def kfactorTo (k : ℚ) : KfactorRequest := ⟨.finite k, .finite 1, .finite 15, 0⟩

theorem calibrationChain_of_reach_kfactorTo : ∃ n : Net registryDialect Unit Unit,
    KfactorRun noOverlap (.fresh id) (fun _ => kfactorTo 1010) n ∧ n.committed.calibration.version = 2 ∧
      CalibrationChain n.committed := by
  have hok : ∀ (e : Event Unit) (n : Net registryDialect Unit Unit), noOverlap e n := by
    intro e n
    cases e with
    | step i => exact fun _ j hj => absurd rfl hj
    | raise i => trivial
    | abort i => trivial
  have hrun : KfactorRun noOverlap (.fresh id) (fun _ : Unit => kfactorTo 1010) _ :=
    Reach.of_run hok (List.replicate 4 (.step ())) .init rfl
  exact ⟨_, hrun, rfl, calibrationChain_of_reach (calibrationChain_fresh id) hrun⟩

/-- **Two changes at once**: the second one waits for the lock with the row it read
before. -/
theorem not_calibrationChain_of_overlap : ∃ n : Net registryDialect Bool Unit,
    KfactorRun (fun _ _ => True) (.fresh id) (fun i => kfactorTo (if i then 1010 else 1020)) n ∧
      (∀ i, n.threads i = .running (.ret ())) ∧ ¬ CalibrationChain n.committed := by
  have hrun : KfactorRun (fun _ _ => True) (.fresh id)
      (fun i : Bool => kfactorTo (if i then 1010 else 1020)) _ :=
    Reach.of_run (fun _ _ => trivial) [.step true, .step false, .step true, .step true,
      .step true, .step false, .step false, .step false] .init rfl
  refine ⟨_, hrun, ?_, fun h => ?_⟩
  · rintro (_ | _) <;> rfl
  · have hlinked := h.linked
    revert hlinked
    decide +kernel

end Server
end CovioFirmware
