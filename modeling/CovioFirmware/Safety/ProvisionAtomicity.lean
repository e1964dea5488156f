import CovioFirmware.Server.Administration

/-!
# Keys without a trace

`record_event` writes on the connection of its caller, so that an event and the change
it records are committed together.  In `provision_device` they are not: the logical id
is allocated between the two, and the allocation commits.  A crash or an exception
behind this commit leaves a key that opens the server and that no event speaks of.

A device that has a logical id is provisioned without an allocation, and then nothing
is committed before the end.  `provisionAtomic_iff` says that this is the only case.
-/

namespace CovioFirmware
namespace Server

open Sql Crash

variable {hashApiKey : PyStr → PyStr} {r : ProvisionRequest} {d d' : Registry}

/-- The key of the request is the device's key. -/
def KeyActive (hashApiKey : PyStr → PyStr) (r : ProvisionRequest) (d' : Registry) : Prop :=
  ∃ x ∈ d'.devices.rows, x.deviceId = some r.deviceId ∧
    x.apiKeyHash = some (hashApiKey r.apiKey)

/-- It is, the device has a logical id, and the event of both has been recorded since
`d`. -/
def KeyTraced (hashApiKey : PyStr → PyStr) (r : ProvisionRequest) (d d' : Registry) : Prop :=
  ∃ x ∈ d'.devices.rows, x.deviceId = some r.deviceId ∧
    x.apiKeyHash = some (hashApiKey r.apiKey) ∧ ∃ logicalDeviceId, logicalDeviceId ≠ [] ∧
      x.logicalDeviceId = some logicalDeviceId ∧ d'.events = d.events ++ [r.event logicalDeviceId]

/-- Of a request made in `d`, a database holds both the key and its event, or neither. -/
def ProvisionAtomic (hashApiKey : PyStr → PyStr) (r : ProvisionRequest) (d d' : Registry) : Prop :=
  KeyTraced hashApiKey r d d' ∨ ¬ KeyActive hashApiKey r d' ∧ d'.events = d.events

/-- The device has a logical id. -/
def HasLogicalId (d : Registry) (deviceId : PyStr) : Prop :=
  ∃ x ∈ d.devices.rows, x.deviceId = some deviceId ∧
    ∃ logicalDeviceId, logicalDeviceId ≠ [] ∧ x.logicalDeviceId = some logicalDeviceId

/-- The request finds the logical id the device has. -/
theorem existingLogicalId_eq_some_iff {l : PyStr} {existing : Option DeviceRow} :
    existingLogicalId existing = some l ↔
      l ≠ [] ∧ ∃ x, existing = some x ∧ x.logicalDeviceId = some l := by
  rw [existingLogicalId, Option.filter_eq_some_iff, Option.bind_eq_some_iff, and_comm]
  simp

theorem hasLogicalId_iff : HasLogicalId d r.deviceId ↔
    ∃ l, existingLogicalId (d.read (.device r.deviceId)) = some l := by
  constructor
  · rintro ⟨x, hx, hid, l, hl, hlogical⟩
    refine ⟨l, existingLogicalId_eq_some_iff.mpr ⟨hl, x, ?_, hlogical⟩⟩
    exact Registry.read_device_eq_some_iff.mpr ⟨hx, hid⟩
  · rintro ⟨l, h⟩
    obtain ⟨hl, x, hread, hlogical⟩ := existingLogicalId_eq_some_iff.mp h
    obtain ⟨hx, hid⟩ := Registry.read_device_eq_some_iff.mp hread
    exact ⟨x, hx, hid, l, hl, hlogical⟩

/-- The row written first carries the key, and the logical id the device had. -/
theorem row_spec (hashApiKey : PyStr → PyStr) (r : ProvisionRequest) (d : Registry) :
    (r.row hashApiKey (d.read (.device r.deviceId))).deviceId = some r.deviceId ∧
      (r.row hashApiKey (d.read (.device r.deviceId))).apiKeyHash =
        some (hashApiKey r.apiKey) ∧
      (r.row hashApiKey (d.read (.device r.deviceId))).logicalDeviceId =
        (d.read (.device r.deviceId)).bind DeviceRow.logicalDeviceId := by
  cases hread : d.read (.device r.deviceId) with
  | some x => exact ⟨(Registry.read_device_eq_some_iff.mp hread).2, rfl, rfl⟩
  | none => exact ⟨rfl, rfl, rfl⟩

/-- A key nobody has. -/
def KeyFresh (hashApiKey : PyStr → PyStr) (r : ProvisionRequest) (d : Registry) : Prop :=
  ∀ x ∈ d.devices.rows, x.apiKeyHash ≠ some (hashApiKey r.apiKey)

/-- Before the request the key is active nowhere. -/
theorem KeyFresh.not_keyActive (h : KeyFresh hashApiKey r d) : ¬ KeyActive hashApiKey r d := by
  rintro ⟨x, hx, -, hhash⟩
  exact h x hx hhash

/-- A registry with the row written holds the key. -/
theorem Upserted.keyActive (h : Upserted hashApiKey r d d') : KeyActive hashApiKey r d' := by
  obtain ⟨hid, hhash, -⟩ := row_spec hashApiKey r d
  exact ⟨_, (h.mem _).mpr (.inr rfl), hid, hhash⟩

/-- Nothing is committed before the end, if the device has a logical id. -/
theorem provisionAtomic_of_hasLogicalId (hfresh : KeyFresh hashApiKey r d)
    (h : HasLogicalId d r.deviceId) {s : Store Registry}
    (hcut : Cuts (sem registryDialect) (provisionDevice hashApiKey r) (.idle d) s) :
    ProvisionAtomic hashApiKey r d s.committed := by
  obtain ⟨l, hl⟩ := hasLogicalId_iff.mp h
  obtain ⟨hne, x, hread, hlogical⟩ := existingLogicalId_eq_some_iff.mp hl
  have hnothing : ProvisionAtomic hashApiKey r d d := .inr ⟨hfresh.not_keyActive, rfl⟩
  refine wp.cuts (Q := fun _ _ => True)
    (C := fun s => ProvisionAtomic hashApiKey r d s.committed) ?_ hcut
  by_cases hid : r.deviceId = []
  · rw [provisionDevice, if_pos hid]
    exact ⟨hnothing, trivial⟩
  · rw [provisionDevice_eq hid]
    refine wp_query hnothing ?_
    have hupsert : ∀ (c : Call registryDialect) (k : c.Reply → Admin ProvisionAnswer),
        upsertDevice hashApiKey r (d.read (.device r.deviceId)) >>=
          (fun _ => completeProvisioning r (d.read (.device r.deviceId))) = .call c k →
        wp (sem registryDialect) (.call c k) (fun _ _ => True)
          (fun s => ProvisionAtomic hashApiKey r d s.committed) (.idle d) := by
      intro c k hck
      refine wp_step hnothing fun a s' hstep => ?_
      obtain ⟨hk, d₁, rfl, hd₁⟩ := upserted_of_step (s := .idle d) hck hstep
      replace hd₁ : Upserted hashApiKey r d d₁ := hd₁
      rw [hk, completeProvisioning, hl]
      refine wp_exec hnothing fun _ d₂ hwrite => ?_
      obtain ⟨-, rfl⟩ := Prod.mk.inj (Option.some.inj hwrite)
      refine wp_commit hnothing ⟨?_, trivial⟩
      -- what is committed at the end
      obtain ⟨hrowid, hhash, hrowl⟩ := row_spec hashApiKey r d
      refine .inl ⟨_, (hd₁.mem _).mpr (.inr rfl), hrowid, hhash, l, hne, ?_, ?_⟩
      · rw [hrowl, hread]
        exact hlogical
      · exact congrArg (recordEvent · (r.event l)) hd₁.events
    obtain ⟨c, k, -, -, hck, -⟩ := exists_step_upsertDevice (s := .idle d)
      (fun _ => completeProvisioning r (d.read (.device r.deviceId))) hfresh
    exact hck ▸ hupsert c k hck

/-- **The allocation commits the key** of a device without a logical id. -/
theorem exists_cut_of_not_hasLogicalId (hfresh : KeyFresh hashApiKey r d)
    (hid : r.deviceId ≠ []) (h : ¬ HasLogicalId d r.deviceId) :
    ∃ s, Cuts (sem registryDialect) (provisionDevice hashApiKey r) (.idle d) s ∧
      KeyActive hashApiKey r s.committed ∧ s.committed.events = d.events := by
  have hnone : existingLogicalId (d.read (.device r.deviceId)) = none := by
    rw [Option.eq_none_iff_forall_ne_some]
    exact fun l hl => h (hasLogicalId_iff.mpr ⟨l, hl⟩)
  obtain ⟨c, k, a, s', hck, hstep⟩ := exists_step_upsertDevice (s := .idle d)
    (fun _ => completeProvisioning r (d.read (.device r.deviceId))) hfresh
  obtain ⟨hk, d₁, rfl, hd₁⟩ := upserted_of_step (s := .idle d) hck hstep
  replace hd₁ : Upserted hashApiKey r d d₁ := hd₁
  have hcommit : Cuts (sem registryDialect) (k a) ⟨d, some d₁⟩
      (.idle { d₁ with logicalIdCounter := d₁.logicalIdCounter + 1 }) := by
    rw [hk, completeProvisioning, hnone]
    exact .later (Call.step_exec rfl) (.later rfl (.here _ _))
  refine ⟨.idle { d₁ with logicalIdCounter := d₁.logicalIdCounter + 1 }, ?_, hd₁.keyActive,
    hd₁.events⟩
  rw [provisionDevice_eq hid]
  exact .later rfl (hck ▸ .later hstep hcommit)

/-- **Provisioning is atomic** with its event at every crash and exception point, exactly
if the device has a logical id already. -/
theorem provisionAtomic_iff (hashApiKey : PyStr → PyStr) (r : ProvisionRequest) (d : Registry)
    (hfresh : KeyFresh hashApiKey r d) :
    (∀ s, Cuts (sem registryDialect) (provisionDevice hashApiKey r) (.idle d) s →
        ProvisionAtomic hashApiKey r d s.committed) ↔
      r.deviceId = [] ∨ HasLogicalId d r.deviceId := by
  constructor
  · intro h
    by_contra hnot
    rw [not_or] at hnot
    obtain ⟨s, hcut, hactive, hevents⟩ := exists_cut_of_not_hasLogicalId hfresh hnot.1 hnot.2
    rcases h s hcut with ⟨x, -, -, -, l, -, -, hevent⟩ | ⟨hinactive, -⟩
    · rw [hevents] at hevent
      exact absurd (congrArg List.length hevent) (by simp)
    · exact hinactive hactive
  · rintro (hid | h)
    · intro s hcut
      rw [provisionDevice, if_pos hid] at hcut
      cases hcut
      exact .inr ⟨hfresh.not_keyActive, rfl⟩
    · exact fun s hcut => provisionAtomic_of_hasLogicalId hfresh h hcut

/-- A request for a new device. -/
def newDevice : ProvisionRequest := ⟨py "flow-01", none, py "k1", 1000, 1001⟩

/-- **A crash behind the allocation** of a new device's logical id. -/
theorem not_provisionAtomic_newDevice : ∃ s,
    Cuts (sem registryDialect) (provisionDevice id newDevice) (.idle (.fresh id)) s ∧
      ¬ ProvisionAtomic id newDevice (.fresh id) s.committed := by
  have hfresh : KeyFresh id newDevice (.fresh id) := by
    intro x hx
    obtain rfl := List.mem_singleton.mp hx
    decide
  have hnone : ¬ HasLogicalId (.fresh id) newDevice.deviceId := by
    rintro ⟨x, hx, hid, -⟩
    obtain rfl := List.mem_singleton.mp hx
    exact absurd hid (by decide)
  obtain ⟨s, hcut, hactive, hevents⟩ := exists_cut_of_not_hasLogicalId hfresh (by decide) hnone
  refine ⟨s, hcut, ?_⟩
  rintro (⟨x, -, -, -, l, -, -, hevent⟩ | ⟨hinactive, -⟩)
  · rw [hevents] at hevent
    exact absurd (congrArg List.length hevent) (by simp)
  · exact hinactive hactive

/-- The registry with one device that has its logical id. -/
def oneDevice : Registry where
  devices := ⟨[{ provisionedRow (py "flow-01") (py "k0") none 900 with
    logicalDeviceId := some (formatLogicalId 1) }], fun _ _ => rfl, List.pairwise_singleton _ _⟩
  calibration := seedCalibration
  logicalIdCounter := 1
  events := []

theorem provisionAtomic_iff_oneDevice : HasLogicalId oneDevice newDevice.deviceId ∧
    ∀ s, Cuts (sem registryDialect) (provisionDevice id newDevice) (.idle oneDevice) s →
      ProvisionAtomic id newDevice oneDevice s.committed := by
  have hfresh : KeyFresh id newDevice oneDevice := by
    intro x hx
    obtain rfl := List.mem_singleton.mp hx
    decide
  have hlogical : HasLogicalId oneDevice newDevice.deviceId :=
    ⟨_, List.mem_singleton_self _, rfl, _, by decide, rfl⟩
  exact ⟨hlogical, (provisionAtomic_iff id newDevice oneDevice hfresh).mpr (.inr hlogical)⟩

end Server
end CovioFirmware
