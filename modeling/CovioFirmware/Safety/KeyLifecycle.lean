import CovioFirmware.Safety.LogicalIds
import CovioFirmware.Safety.ProvisionAtomicity
import CovioFirmware.Safety.RegistryMigration

/-!
# Which keys open the server

A key is assigned to a device by provisioning it or by rotating its key, and the
device is revoked by a request of its own; pushes and restarts write the same table.
The history of a run is the list of these events, read off the answers
(`KeyOp.serve`), and a key is current if it is the last one assigned to some device,
which has not been revoked since (`IsCurrent`).

`accepts_iff_isCurrent` says that the gate accepts exactly the current keys.  The
invariant (`KeysKept`) is about the rows that hold a hash: each belongs to a device,
the hash is that of a key issued, and the device's last event is this assignment if
and only if the row is not revoked.
-/

namespace CovioFirmware
namespace Server

open Sql

/-- What the operator is told of a key. -/
inductive KeyEvent where
  | assigned (deviceId key : PyStr) : KeyEvent
  | revoked (deviceId : PyStr) : KeyEvent
  deriving DecidableEq

namespace KeyEvent

def deviceId : KeyEvent → PyStr
  | assigned deviceId _ => deviceId
  | revoked deviceId => deviceId

/-- The key the device has behind the event. -/
def key : KeyEvent → Option PyStr
  | assigned _ key => some key
  | revoked _ => none

end KeyEvent

/-- The requests and restarts. -/
inductive KeyOp where
  | restart (nowMs nowMs' : ℤ) : KeyOp
  | provision (r : ProvisionRequest) : KeyOp
  | rotate (deviceId apiKey : PyStr) (createdAtMs : ℤ) : KeyOp
  | revoke (deviceId : PyStr) (createdAtMs : ℤ) : KeyOp
  | push (key : Option PyStr) (createdAtMs : ℤ) (body : Option TwinUpdate) : KeyOp

namespace KeyOp

/-- The key generated for a request. -/
def newKey : KeyOp → Option PyStr
  | provision r => some r.apiKey
  | rotate _ apiKey _ => some apiKey
  | _ => none

/-- What the answer to `provision_device` says. -/
def provisionEvents : Option ProvisionAnswer → List KeyEvent
  | some (.provisioned deviceId apiKey _ _) => [.assigned deviceId apiKey]
  | _ => []

/-- What the answer to a request about a key says: `e`, if it was done. -/
def keyEvents (e : KeyEvent) : Option KeyAnswer → List KeyEvent
  | some .done => [e]
  | _ => []

/-- One operation: the file it leaves, and what the operator is told. -/
def serve (hashApiKey : PyStr → PyStr) (f : Catalog) : KeyOp → Catalog × List KeyEvent
  | restart nowMs nowMs' => (((initDb hashApiKey nowMs nowMs').perform (.idle f)).1, [])
  | provision r =>
      let x := f.request (provisionDevice hashApiKey r)
      (x.1, provisionEvents x.2)
  | rotate deviceId apiKey createdAtMs =>
      let x := f.request (rotateDeviceKey hashApiKey deviceId apiKey createdAtMs)
      (x.1, keyEvents (.assigned deviceId apiKey) x.2)
  | revoke deviceId createdAtMs =>
      let x := f.request (revokeDeviceKey deviceId createdAtMs)
      (x.1, keyEvents (.revoked deviceId) x.2)
  | push key createdAtMs body => ((f.request (pushRegistry hashApiKey key createdAtMs body)).1, [])

end KeyOp

/-- The first start, on a new file.  The bootstrap key counts as assigned. -/
def firstStart (hashApiKey : PyStr → PyStr) (nowMs nowMs' : ℤ) : Catalog × List KeyEvent :=
  (((initDb hashApiKey nowMs nowMs').perform (.idle .empty)).1,
    [.assigned legacyDefaultKey bootstrapDefaultApiKey])

/-- A sequence of operations behind the first start: the file, and the history. -/
def serveAll (hashApiKey : PyStr → PyStr) (nowMs nowMs' : ℤ) (ops : List KeyOp) :
    Catalog × List KeyEvent :=
  ops.foldl (fun s op => ((op.serve hashApiKey s.1).1, s.2 ++ (op.serve hashApiKey s.1).2))
    (firstStart hashApiKey nowMs nowMs')

/-- The keys issued. -/
def issuedKeys (ops : List KeyOp) : List PyStr :=
  bootstrapDefaultApiKey :: ops.filterMap KeyOp.newKey

/-- `require_api_key` accepts the key presented. -/
def Accepts (hashApiKey : PyStr → PyStr) (f : Catalog) (key : Option PyStr) (createdAtMs : ℤ) :
    Prop := (f.request (requireApiKey hashApiKey key createdAtMs)).2 = some .accepted

/-- The key is the one most recently assigned to the device, which has not been revoked
since. -/
def IsCurrent (history : List KeyEvent) (deviceId key : PyStr) : Prop :=
  ∃ pre post, history = pre ++ .assigned deviceId key :: post ∧ ∀ e ∈ post, e.deviceId ≠ deviceId

/-! ## Histories -/

/-- The key a device has behind a history. -/
def keyOf (deviceId : PyStr) (history : List KeyEvent) : Option PyStr :=
  history.foldl (fun key e => if e.deviceId = deviceId then e.key else key) none

variable {deviceId key : PyStr} {history : List KeyEvent} {e : KeyEvent}

theorem keyOf_append_singleton : keyOf deviceId (history ++ [e]) =
    if e.deviceId = deviceId then e.key else keyOf deviceId history := by
  rw [keyOf, List.foldl_append]
  rfl

/-- An event of the device. -/
theorem keyOf_append_self : keyOf e.deviceId (history ++ [e]) = e.key :=
  keyOf_append_singleton.trans (if_pos rfl)

/-- An event of another device. -/
theorem keyOf_append_of_ne (h : e.deviceId ≠ deviceId) :
    keyOf deviceId (history ++ [e]) = keyOf deviceId history := by
  rw [keyOf_append_singleton, if_neg h]

theorem isCurrent_iff_keyOf : IsCurrent history deviceId key ↔ keyOf deviceId history = some key := by
  constructor
  · rintro ⟨pre, post, rfl, hpost⟩
    induction post using List.reverseRecOn with
    | nil => exact keyOf_append_self (e := .assigned deviceId key)
    | append_singleton post e ih =>
      rw [List.forall_mem_append, List.forall_mem_singleton] at hpost
      rw [← List.cons_append, ← List.append_assoc, keyOf_append_of_ne hpost.2]
      exact ih hpost.1
  · intro h
    induction history using List.reverseRecOn with
    | nil => cases h
    | append_singleton history e ih =>
      rw [keyOf_append_singleton] at h
      split_ifs at h with he
      · cases e with
        | assigned dev k =>
          obtain rfl : dev = deviceId := he
          obtain rfl := Option.some.inj h
          exact ⟨history, [], rfl, by simp⟩
        | revoked dev => cases h
      · obtain ⟨pre, post, rfl, hpost⟩ := ih h
        refine ⟨pre, post ++ [e], by simp, ?_⟩
        rw [List.forall_mem_append, List.forall_mem_singleton]
        exact ⟨hpost, he⟩

/-! ## What the requests do to the keys -/

variable {hashApiKey : PyStr → PyStr} {d d' : Registry} {used : List PyStr}

/-- The logical ids are ids of numbers counted. -/
def Registry.Issued (d : Registry) : Prop := IssuedBy d.logicalIdCounter d.logicalIds

/-- The device's row is one with this hash, not revoked, and the others are as they
were. -/
structure SetsKey (deviceId hash : PyStr) (d d' : Registry) : Prop where
  rows : ∃ row : DeviceRow, row.legacy = ⟨some deviceId, some hash, 0⟩ ∧
    ∀ y, y ∈ d'.devices.rows ↔ y ∈ d.devices.rows ∧ y.deviceId ≠ some deviceId ∨ y = row
  issued : d'.Issued

/-- The device's row is revoked, and the others are as they were. -/
structure RevokesKey (deviceId : PyStr) (d d' : Registry) : Prop where
  rows : ∀ y, y ∈ d'.devices.rows ↔ y ∈ d.devices.rows ∧ y.deviceId ≠ some deviceId ∨
    ∃ x, x ∈ d.devices.rows ∧ x.deviceId = some deviceId ∧ { x with revoked := 1 } = y
  issued : d'.Issued

/-- No row that holds a hash has appeared or changed, and none has disappeared. -/
structure SameKeys (d d' : Registry) : Prop where
  kept : ∀ x ∈ d.devices.rows, ∃ y ∈ d'.devices.rows, y.legacy = x.legacy
  old : ∀ y ∈ d'.devices.rows, y.apiKeyHash ≠ none → ∃ x ∈ d.devices.rows, x.legacy = y.legacy
  issued : d'.Issued

/-- **The invariant** of the table and the history. -/
structure KeysKept (hashApiKey : PyStr → PyStr) (used : List PyStr) (history : List KeyEvent)
    (d : Registry) : Prop where
  held : ∀ x ∈ d.devices.rows, ∀ hash, x.apiKeyHash = some hash →
    ∃ deviceId, x.deviceId = some deviceId ∧ ∃ key ∈ used, hash = hashApiKey key ∧
      keyOf deviceId history = if x.revoked = 0 then some key else none
  current : ∀ deviceId key, keyOf deviceId history = some key →
    ∃ x ∈ d.devices.rows, x.deviceId = some deviceId ∧ x.apiKeyHash = some (hashApiKey key)
  bootstrap : ∃ x ∈ d.devices.rows, x.deviceId = some legacyDefaultKey
  issued : d.Issued

theorem KeysKept.assign (h : KeysKept hashApiKey used history d)
    (hset : SetsKey deviceId (hashApiKey key) d d') :
    KeysKept hashApiKey (used ++ [key]) (history ++ [.assigned deviceId key]) d' := by
  obtain ⟨⟨row, hrow, hmem⟩, hissued⟩ := hset
  obtain ⟨hid, hhash, hrevoked⟩ := LegacyRow.ext_iff.mp hrow
  have hnew : row ∈ d'.devices.rows := (hmem row).mpr (.inr rfl)
  have hself : keyOf deviceId (history ++ [.assigned deviceId key]) = some key :=
    keyOf_append_self (e := .assigned deviceId key)
  have hother : ∀ dev, deviceId ≠ dev →
      keyOf dev (history ++ [.assigned deviceId key]) = keyOf dev history :=
    fun dev hne => keyOf_append_of_ne hne
  refine ⟨fun x hx hash hxhash => ?_, fun dev k hk => ?_, ?_, hissued⟩
  · rcases (hmem x).mp hx with ⟨hx, hne⟩ | rfl
    · obtain ⟨dev, hdev, k, hk, hhash, hkey⟩ := h.held x hx hash hxhash
      refine ⟨dev, hdev, k, List.mem_append_left _ hk, hhash, ?_⟩
      rw [hother dev fun heq => hne (heq ▸ hdev), hkey]
    · refine ⟨deviceId, hid, key, List.mem_append_right _ List.mem_cons_self, ?_, ?_⟩
      · exact Option.some.inj (hxhash.symm.trans hhash)
      · exact hself.trans (if_pos hrevoked).symm
  · by_cases hdev : deviceId = dev
    · subst hdev
      rw [hself] at hk
      obtain rfl := Option.some.inj hk
      exact ⟨row, hnew, hid, hhash⟩
    · rw [hother dev hdev] at hk
      obtain ⟨x, hx, hxid, hxhash⟩ := h.current dev k hk
      refine ⟨x, (hmem x).mpr (.inl ⟨hx, ?_⟩), hxid, hxhash⟩
      rw [hxid]
      exact fun heq => hdev (Option.some.inj heq).symm
  · obtain ⟨x, hx, hxid⟩ := h.bootstrap
    by_cases hdev : x.deviceId = some deviceId
    · exact ⟨row, hnew, hid.trans (hdev.symm.trans hxid)⟩
    · exact ⟨x, (hmem x).mpr (.inl ⟨hx, hdev⟩), hxid⟩

theorem KeysKept.revoke (h : KeysKept hashApiKey used history d)
    (hrevoke : RevokesKey deviceId d d') :
    KeysKept hashApiKey used (history ++ [.revoked deviceId]) d' := by
  obtain ⟨hmem, hissued⟩ := hrevoke
  have hself : keyOf deviceId (history ++ [.revoked deviceId]) = none :=
    keyOf_append_self (e := .revoked deviceId)
  have hother : ∀ dev, deviceId ≠ dev →
      keyOf dev (history ++ [.revoked deviceId]) = keyOf dev history :=
    fun dev hne => keyOf_append_of_ne hne
  refine ⟨fun x hx hash hxhash => ?_, fun dev k hk => ?_, ?_, hissued⟩
  · rcases (hmem x).mp hx with ⟨hx, hne⟩ | ⟨z, hz, hzid, rfl⟩
    · obtain ⟨dev, hdev, k, hk, hhash, hkey⟩ := h.held x hx hash hxhash
      refine ⟨dev, hdev, k, hk, hhash, ?_⟩
      rw [hother dev fun heq => hne (heq ▸ hdev), hkey]
    · obtain ⟨dev, hdev, k, hk, hhash, -⟩ := h.held z hz hash hxhash
      obtain rfl := Option.some.inj (hzid.symm.trans hdev)
      exact ⟨deviceId, hzid, k, hk, hhash, hself⟩
  · by_cases hdev : deviceId = dev
    · subst hdev
      rw [hself] at hk
      cases hk
    · rw [hother dev hdev] at hk
      obtain ⟨x, hx, hxid, hxhash⟩ := h.current dev k hk
      refine ⟨x, (hmem x).mpr (.inl ⟨hx, ?_⟩), hxid, hxhash⟩
      rw [hxid]
      exact fun heq => hdev (Option.some.inj heq).symm
  · obtain ⟨x, hx, hxid⟩ := h.bootstrap
    by_cases hdev : x.deviceId = some deviceId
    · exact ⟨{ x with revoked := 1 }, (hmem _).mpr (.inr ⟨x, hx, hdev, rfl⟩), hxid⟩
    · exact ⟨x, (hmem x).mpr (.inl ⟨hx, hdev⟩), hxid⟩

theorem KeysKept.same (h : KeysKept hashApiKey used history d) (hsame : SameKeys d d') :
    KeysKept hashApiKey used history d' := by
  refine ⟨fun y hy hash hyhash => ?_, fun dev k hk => ?_, ?_, hsame.issued⟩
  · obtain ⟨x, hx, hlegacy⟩ := hsame.old y hy (by rw [hyhash]; simp)
    obtain ⟨hid, hhash, -⟩ := LegacyRow.ext_iff.mp hlegacy
    have hrevoked : x.revoked = y.revoked := congrArg LegacyRow.revoked hlegacy
    obtain ⟨dev, hdev, k, hk, heq, hkey⟩ := h.held x hx hash (hhash.trans hyhash)
    exact ⟨dev, hid.symm.trans hdev, k, hk, heq, hrevoked ▸ hkey⟩
  · obtain ⟨x, hx, hxid, hxhash⟩ := h.current dev k hk
    obtain ⟨y, hy, hlegacy⟩ := hsame.kept x hx
    obtain ⟨hid, hhash, -⟩ := LegacyRow.ext_iff.mp hlegacy
    exact ⟨y, hy, hid.trans hxid, hhash.trans hxhash⟩
  · obtain ⟨x, hx, hxid⟩ := h.bootstrap
    obtain ⟨y, hy, hlegacy⟩ := hsame.kept x hx
    exact ⟨y, hy, (congrArg LegacyRow.deviceId hlegacy).trans hxid⟩

/-- More keys may have been issued than are kept. -/
theorem KeysKept.mono {used' : List PyStr} (h : KeysKept hashApiKey used history d)
    (hused : used ⊆ used') : KeysKept hashApiKey used' history d := by
  refine ⟨fun x hx hash hxhash => ?_, h.current, h.bootstrap, h.issued⟩
  obtain ⟨dev, hdev, k, hk, hrest⟩ := h.held x hx hash hxhash
  exact ⟨dev, hdev, k, hused hk, hrest⟩

/-- An operation that tells nothing. -/
theorem KeysKept.silent (h : KeysKept hashApiKey used history d) (new : List PyStr) :
    KeysKept hashApiKey (used ++ new) (history ++ []) d := by
  rw [List.append_nil]
  exact h.mono (List.subset_append_left used new)

/-- **The gate** accepts the keys that are kept. -/
theorem requireApiKey_accepts_iff (h : KeysKept hashApiKey used history d)
    (hinj : Set.InjOn hashApiKey {k | k ∈ key :: used}) (hkey : key ≠ []) (createdAtMs : ℤ) :
    ((requireApiKey hashApiKey (some key) createdAtMs).perform (.idle d)).2 = some .accepted ↔
      ∃ deviceId, keyOf deviceId history = some key := by
  have hanswer : ((requireApiKey hashApiKey (some key) createdAtMs).perform (.idle d)).2 =
      some (if rejects (d.read (.keyHolder (hashApiKey key))) then .invalid else .accepted) := by
    cases key with
    | nil => exact absurd rfl hkey
    | cons c key =>
      show (Session.perform (if rejects (d.read (.keyHolder (hashApiKey (c :: key)))) then _
        else _) _).2 = _
      split_ifs <;> rfl
  have hholder : ∀ x, d.read (.keyHolder (hashApiKey key)) = some x ↔
      x ∈ d.devices.rows ∧ x.apiKeyHash = some (hashApiKey key) := by
    refine fun x => ⟨fun hfind => Registry.of_find?_eq_some hfind, fun ⟨hx, hhash⟩ => ?_⟩
    cases hfind : d.read (.keyHolder (hashApiKey key)) with
    | none => exact absurd (sameText_some_iff.mpr hhash) (List.find?_eq_none.mp hfind x hx)
    | some y =>
      obtain ⟨hy, hhash'⟩ := Registry.of_find?_eq_some hfind
      have hclash : y.clash x = true := by simp [DeviceRow.clash, hhash, hhash', sameText]
      rw [Registry.eq_of_clash hy hx hclash]
  rw [hanswer]
  constructor
  · intro haccepted
    cases hread : d.read (.keyHolder (hashApiKey key)) with
    | none => rw [hread] at haccepted; cases haccepted
    | some x =>
      obtain ⟨hx, hhash⟩ := (hholder x).mp hread
      obtain ⟨dev, -, k, hk, heq, hkept⟩ := h.held x hx _ hhash
      obtain rfl : key = k := hinj List.mem_cons_self (List.mem_cons_of_mem _ hk) heq
      have hrevoked : x.revoked = 0 := by
        by_contra hne
        rw [hread, rejects, Option.all_some, if_pos (by simpa using hne)] at haccepted
        cases haccepted
      exact ⟨dev, hkept.trans (if_pos hrevoked)⟩
  · rintro ⟨dev, hcurrent⟩
    obtain ⟨x, hx, hid, hhash⟩ := h.current dev key hcurrent
    obtain ⟨dev', hdev', k, -, -, hkept⟩ := h.held x hx _ hhash
    obtain rfl := Option.some.inj (hid.symm.trans hdev')
    have hrevoked : x.revoked = 0 := by
      by_contra hne
      rw [if_neg hne, hcurrent] at hkept
      cases hkept
    rw [(hholder x).mpr ⟨hx, hhash⟩, rejects, Option.all_some, if_neg (by simp [hrevoked])]

/-! ## Provisioning -/

section Provision

variable {r : ProvisionRequest} {d₁ d₂ : Registry}

theorem row_legacy (hashApiKey : PyStr → PyStr) (r : ProvisionRequest) (d : Registry) :
    (r.row hashApiKey (d.read (.device r.deviceId))).legacy =
      ⟨some r.deviceId, some (hashApiKey r.apiKey), 0⟩ := by
  cases hread : d.read (.device r.deviceId) with
  | some x =>
    have hid := (Registry.read_device_eq_some_iff.mp hread).2
    exact LegacyRow.ext hid rfl rfl
  | none => rfl

/-- The row written first brings no logical id. -/
theorem Upserted.logicalIds_subset (h : Upserted hashApiKey r d d₁) :
    d₁.logicalIds ⊆ d.logicalIds := by
  rintro l ⟨y, hy, hl⟩
  rcases (h.mem y).mp hy with ⟨hy, -⟩ | rfl
  · exact ⟨y, hy, hl⟩
  · rw [(row_spec hashApiKey r d).2.2, Option.bind_eq_some_iff] at hl
    obtain ⟨x, hread, hl⟩ := hl
    exact ⟨x, (Registry.read_device_eq_some_iff.mp hread).1, hl⟩

/-- With the device's row written, and an event. -/
theorem Upserted.setsKey (h : Upserted hashApiKey r d d₁) (hd : d.Issued)
    (hrows : d₂.devices = d₁.devices) (hcounter : d₂.logicalIdCounter = d₁.logicalIdCounter) :
    SetsKey r.deviceId (hashApiKey r.apiKey) d d₂ := by
  refine ⟨⟨_, row_legacy hashApiKey r d, fun y => ?_⟩, ?_⟩
  · rw [hrows]
    exact h.mem y
  · rintro l ⟨y, hy, hl⟩
    rw [hcounter, h.counter]
    exact hd l (h.logicalIds_subset ⟨y, hrows ▸ hy, hl⟩)

/-- With the number counted written too. -/
theorem Upserted.setsKey_of_setLogicalId (h : Upserted hashApiKey r d d₁) (hd : d.Issued)
    (hwrite : Registry.updateDevice { d₁ with logicalIdCounter := d.logicalIdCounter + 1 }
      (some r.deviceId)
      ({ · with logicalDeviceId := some (formatLogicalId (d.logicalIdCounter + 1)) }) = some d₂) :
    SetsKey r.deviceId (hashApiKey r.apiKey) d d₂ := by
  refine ⟨⟨{ r.row hashApiKey (d.read (.device r.deviceId)) with
    logicalDeviceId := some (formatLogicalId (d.logicalIdCounter + 1)) }, ?_, fun y => ?_⟩, ?_⟩
  · exact row_legacy hashApiKey r d
  · have hid := (row_spec hashApiKey r d).1
    rw [Registry.mem_of_updateDevice hwrite]
    constructor
    · rintro (⟨hy, hne⟩ | ⟨x, hx, hxid, rfl⟩)
      · rcases (h.mem y).mp hy with hold | rfl
        · exact .inl hold
        · exact absurd hid hne
      · rcases (h.mem x).mp hx with ⟨-, hne⟩ | rfl
        · exact absurd hxid hne
        · exact .inr rfl
    · rintro (⟨hy, hne⟩ | rfl)
      · exact .inl ⟨(h.mem y).mpr (.inl ⟨hy, hne⟩), hne⟩
      · exact .inr ⟨_, (h.mem _).mpr (.inr rfl), hid, rfl⟩
  · have hcounter : d₂.logicalIdCounter = d.logicalIdCounter + 1 := by
      rw [(Registry.updateDevice_eq_some hwrite).1]
    have hnew : ∀ (x : DeviceRow) (l : PyStr),
        (some (formatLogicalId (d.logicalIdCounter + 1)) : Option PyStr) = some l →
          x.logicalDeviceId = some l ∨ l ∈ ({formatLogicalId (d.logicalIdCounter + 1)} : Set PyStr) :=
      fun _ l hl => .inr (Option.some.inj hl).symm
    intro l hl
    rw [hcounter]
    rcases logicalIds_of_update hnew hwrite hl with hl | rfl
    · obtain ⟨m, hm, heq⟩ := hd l (h.logicalIds_subset hl)
      exact ⟨m, by omega, heq⟩
    · exact ⟨_, le_rfl, rfl⟩

/-- **Provisioning** with a key nobody has succeeds. -/
theorem completes_provisionDevice (hid : r.deviceId ≠ []) (hfresh : KeyFresh hashApiKey r d)
    (hd : d.Issued) :
    Completes (fun a s => ∃ l d', a = .provisioned r.deviceId r.apiKey r.nowMs l ∧ s = .idle d' ∧
        SetsKey r.deviceId (hashApiKey r.apiKey) d d')
      (fun _ => True) (provisionDevice hashApiKey r) (.idle d) := by
  rw [provisionDevice_eq hid]
  refine completes_query trivial ?_
  obtain ⟨c, k, a, s, hcall, hstep⟩ := exists_step_upsertDevice (s := .idle d)
    (fun _ => completeProvisioning r (d.read (.device r.deviceId))) hfresh
  obtain ⟨hk, d₁, rfl, hd₁⟩ := upserted_of_step (s := .idle d) hcall hstep
  replace hd₁ : Upserted hashApiKey r d d₁ := hd₁
  show Completes _ _ (upsertDevice hashApiKey r ((Store.idle d).current.read (.device r.deviceId))
    >>= fun _ => completeProvisioning r (d.read (.device r.deviceId))) _
  rw [hcall]
  refine completes_step trivial hstep ?_
  rw [hk, completeProvisioning]
  cases existingLogicalId (d.read (.device r.deviceId)) with
  | some l =>
    refine completes_exec trivial rfl (completes_commit trivial ⟨trivial, l, _, rfl, rfl, ?_⟩)
    exact hd₁.setsKey hd rfl rfl
  | none =>
    refine completes_exec trivial rfl (completes_commit trivial (completes_query trivial ?_))
    have hcounter := hd₁.counter
    have hissued : formatLogicalId (d₁.logicalIdCounter + 1) ∉
        Registry.logicalIds { d₁ with logicalIdCounter := d₁.logicalIdCounter + 1 } := by
      rw [hcounter]
      exact fun hl => formatLogicalId_notMem hd (Nat.lt_succ_self _) (hd₁.logicalIds_subset hl)
    have hsome : Registry.write _ (.setLogicalId r.deviceId _) ≠ none :=
      exists_setLogicalId hissued
    obtain ⟨⟨u, d₂⟩, hwrite⟩ := Option.ne_none_iff_exists'.mp hsome
    refine completes_exec trivial hwrite ?_
    refine completes_exec trivial rfl (completes_commit trivial ⟨trivial, _, _, rfl, rfl, ?_⟩)
    obtain ⟨d₃, hupdate, hx⟩ := Option.map_eq_some_iff.mp hwrite
    obtain ⟨-, rfl⟩ := Prod.mk.inj hx
    rw [hcounter] at hupdate
    obtain ⟨hrows, hissued⟩ := hd₁.setsKey_of_setLogicalId hd hupdate
    exact ⟨hrows, hissued⟩

end Provision

/-! ## The other requests -/

theorem Registry.Issued.of_update {f : DeviceRow → DeviceRow} (hd : d.Issued)
    (h : d.updateDevice (some deviceId) f = some d')
    (hf : ∀ x, (f x).logicalDeviceId = x.logicalDeviceId) : d'.Issued := by
  have hkeep : ∀ x l, (f x).logicalDeviceId = some l →
      x.logicalDeviceId = some l ∨ l ∈ (∅ : Set PyStr) := fun x l hl => .inl ((hf x).symm.trans hl)
  have hcounter : d'.logicalIdCounter = d.logicalIdCounter := by
    rw [(Registry.updateDevice_eq_some h).1]
  intro l hl
  rw [hcounter]
  exact (logicalIds_of_update hkeep h hl).elim (hd l) fun hl => absurd hl (Set.notMem_empty l)

/-- **Rotating** to a key nobody has. -/
theorem completes_rotateDeviceKey (deviceId : PyStr) (hfresh : ∀ x ∈ d.devices.rows,
    x.apiKeyHash ≠ some (hashApiKey key)) (hd : d.Issued) (createdAtMs : ℤ) :
    Completes (fun a s => ∃ d', s = .idle d' ∧ (a = .notFound ∧ d' = d ∨
        a = .done ∧ SetsKey deviceId (hashApiKey key) d d'))
      (fun _ => True) (rotateDeviceKey hashApiKey deviceId key createdAtMs) (.idle d) := by
  refine completes_query trivial ?_
  show Completes _ _ (if (d.read (.device deviceId)).isNone then _ else _) _
  cases hread : d.read (.device deviceId) with
  | none => exact ⟨trivial, d, rfl, .inl ⟨rfl, rfl⟩⟩
  | some x =>
    obtain ⟨hx, hid⟩ := Registry.read_device_eq_some_iff.mp hread
    obtain ⟨d₁, hupdate⟩ : ∃ d₁, d.updateDevice (some deviceId)
        ({ · with apiKeyHash := some (hashApiKey key), revoked := 0 }) = some d₁ := by
      refine Registry.exists_updateDevice (fun _ => rfl) fun x hx y hy hxid hyid => ⟨?_, ?_⟩
      · exact sameText_eq_false.mpr (.inr (hfresh y hy).symm)
      · have hclash := Registry.clash_of_ne hx hy fun h => hyid (h ▸ hxid)
        exact (Bool.or_eq_false_iff.mp hclash).2
    have hwrite : d.write (.setKey deviceId (hashApiKey key)) = some ((), d₁) :=
      congrArg (Option.map ((), ·)) hupdate
    have hset : SetsKey deviceId (hashApiKey key) d d₁ := by
      let row : DeviceRow := { x with apiKeyHash := some (hashApiKey key), revoked := 0 }
      have hrow : row.legacy = ⟨some deviceId, some (hashApiKey key), 0⟩ :=
        congrArg (LegacyRow.mk · _ 0) hid
      refine ⟨⟨row, hrow, fun y => ?_⟩, hd.of_update hupdate fun _ => rfl⟩
      rw [Registry.mem_of_updateDevice hupdate]
      refine or_congr_right ⟨?_, ?_⟩
      · rintro ⟨z, hz, hzid, rfl⟩
        rw [Registry.eq_of_deviceId hz hx hzid hid]
      · rintro rfl
        exact ⟨x, hx, hid, rfl⟩
    refine completes_exec trivial hwrite (completes_exec trivial rfl ?_)
    exact completes_commit trivial ⟨trivial, _, rfl, .inr ⟨rfl, hset.rows, hset.issued⟩⟩

/-- **Revoking.** -/
theorem completes_revokeDeviceKey (deviceId : PyStr) (hd : d.Issued) (createdAtMs : ℤ) :
    Completes (fun a s => ∃ d', s = .idle d' ∧ (a = .notFound ∧ d' = d ∨
        a = .done ∧ RevokesKey deviceId d d'))
      (fun _ => True) (revokeDeviceKey deviceId createdAtMs) (.idle d) := by
  refine completes_query trivial ?_
  show Completes _ _ (if (d.read (.device deviceId)).isNone then _ else _) _
  cases hread : d.read (.device deviceId) with
  | none => exact ⟨trivial, d, rfl, .inl ⟨rfl, rfl⟩⟩
  | some x =>
    obtain ⟨d₁, hupdate⟩ : ∃ d₁, d.updateDevice (some deviceId) ({ · with revoked := 1 }) =
        some d₁ := by
      refine Registry.exists_updateDevice (fun _ => rfl) fun x hx y hy hxid hyid => ?_
      have hclash := Registry.clash_of_ne hx hy fun h => hyid (h ▸ hxid)
      obtain ⟨hkeys, hlogical⟩ := Bool.or_eq_false_iff.mp hclash
      exact ⟨(Bool.or_eq_false_iff.mp hkeys).2, hlogical⟩
    have hwrite : d.write (.revoke deviceId) = some ((), d₁) :=
      congrArg (Option.map ((), ·)) hupdate
    have hrevoke : RevokesKey deviceId d d₁ :=
      ⟨fun y => Registry.mem_of_updateDevice hupdate, hd.of_update hupdate fun _ => rfl⟩
    refine completes_exec trivial hwrite (completes_exec trivial rfl ?_)
    exact completes_commit trivial ⟨trivial, _, rfl, .inr ⟨rfl, hrevoke.rows, hrevoke.issued⟩⟩

/-- The statements of a push. -/
def IsPushWrite : Write → Prop
  | .insertEvent _ => True
  | .touchTwin _ => True
  | .insertTwin _ => True
  | _ => False

theorem SameKeys.refl (hd : d.Issued) : SameKeys d d :=
  ⟨fun x hx => ⟨x, hx, rfl⟩, fun y hy _ => ⟨y, hy, rfl⟩, hd⟩

theorem SameKeys.trans {d₁ d₂ : Registry} (h : SameKeys d d₁) (h' : SameKeys d₁ d₂) :
    SameKeys d d₂ := by
  refine ⟨fun x hx => ?_, fun z hz hhash => ?_, h'.issued⟩
  · obtain ⟨y, hy, heq⟩ := h.kept x hx
    obtain ⟨z, hz, heq'⟩ := h'.kept y hy
    exact ⟨z, hz, heq'.trans heq⟩
  · obtain ⟨y, hy, heq⟩ := h'.old z hz hhash
    have hyhash : y.apiKeyHash = z.apiKeyHash := congrArg LegacyRow.apiKeyHash heq
    obtain ⟨x, hx, heq'⟩ := h.old y hy (hyhash ▸ hhash)
    exact ⟨x, hx, heq'.trans heq⟩

/-- None of them changes a key. -/
theorem sameKeys_of_write {w : Write} (hw : IsPushWrite w) {a : w.Result}
    (h : d.write w = some (a, d')) (hd : d.Issued) : SameKeys d d' := by
  cases w with
  | insertEvent e =>
    obtain ⟨-, rfl⟩ := Prod.mk.inj (Option.some.inj h)
    exact ⟨(SameKeys.refl hd).kept, (SameKeys.refl hd).old, hd⟩
  | touchTwin u =>
    obtain ⟨d₁, hupdate, hx⟩ := Option.map_eq_some_iff.mp h
    obtain ⟨-, rfl⟩ := Prod.mk.inj hx
    obtain ⟨t, ht, rfl⟩ := Option.map_eq_some_iff.mp hupdate
    have hrows := Table.rows_of_update ht
    have hmem : ∀ y, y ∈ t.rows ↔ ∃ x ∈ d.devices.rows,
        (if sameText u.deviceId x.deviceId then { x with twin := u.apply x.twin } else x) = y := by
      intro y
      rw [hrows, Table.updateRows, List.mem_map]
    refine ⟨fun x hx => ?_, fun y hy _ => ?_, ?_⟩
    · refine ⟨_, (hmem _).mpr ⟨x, hx, rfl⟩, ?_⟩
      split_ifs <;> rfl
    · obtain ⟨x, hx, rfl⟩ := (hmem y).mp hy
      refine ⟨x, hx, ?_⟩
      split_ifs <;> rfl
    · rintro l ⟨y, hy, hl⟩
      obtain ⟨x, hx, rfl⟩ := (hmem y).mp hy
      refine hd l ⟨x, hx, ?_⟩
      split_ifs at hl
      · exact hl
      · exact hl
  | insertTwin u =>
    obtain ⟨d₁, hinsert, hx⟩ := Option.map_eq_some_iff.mp h
    obtain ⟨-, rfl⟩ := Prod.mk.inj hx
    obtain ⟨hrest, -, hrows⟩ := Registry.insertDevice_eq_some hinsert
    refine ⟨fun x hx => ⟨x, ?_, rfl⟩, fun y hy hhash => ?_, ?_⟩
    · rw [hrows]
      exact List.mem_append_left _ hx
    · rw [hrows, List.mem_append, List.mem_singleton] at hy
      rcases hy with hy | rfl
      · exact ⟨y, hy, rfl⟩
      · exact absurd rfl hhash
    · rintro l ⟨y, hy, hl⟩
      rw [hrows, List.mem_append, List.mem_singleton] at hy
      rw [hrest]
      rcases hy with hy | rfl
      · exact hd l ⟨y, hy, hl⟩
      · cases hl
  | _ => exact hw.elim

theorem writes_requireApiKey (key : Option PyStr) (createdAtMs : ℤ) :
    (requireApiKey hashApiKey key createdAtMs).Writes IsPushWrite := by
  rcases key with _ | _ | ⟨c, key⟩
  · trivial
  · trivial
  · refine ⟨trivial, fun row => ?_⟩
    show Session.Writes _ (if rejects row then _ else _)
    split_ifs
    · exact ⟨trivial, fun _ => ⟨trivial, fun _ => trivial⟩⟩
    · trivial

/-- **A push** changes no key. -/
theorem sameKeys_of_push (hashApiKey : PyStr → PyStr) (hd : d.Issued) (key : Option PyStr) (createdAtMs : ℤ)
    (body : Option TwinUpdate) :
    SameKeys d ((pushRegistry hashApiKey key createdAtMs body).perform (.idle d)).1 := by
  have hwrites : (pushRegistry hashApiKey key createdAtMs body).Writes IsPushWrite := by
    refine Session.writes_bind (writes_requireApiKey key createdAtMs) fun auth => ?_
    split_ifs
    · cases body with
      | none => trivial
      | some u =>
        refine ⟨trivial, fun (rowcount : ℕ) => ?_⟩
        show Session.Writes _ ((if rowcount = 0 then _ else _) >>= _)
        refine Session.writes_bind ?_ fun _ => trivial
        split_ifs
        · exact ⟨trivial, fun _ => ⟨trivial, fun _ => trivial⟩⟩
        · exact ⟨trivial, fun _ => trivial⟩
    · trivial
  have hself := SameKeys.refl hd
  refine Session.perform_invariant (I := SameKeys d) (fun w hw d₁ a d₂ hwrite h₁ => ?_) hwrites
    hself hself
  exact h₁.trans (sameKeys_of_write hw hwrite h₁.issued)

/-! ## The file -/

variable {f : Catalog}

/-- The file holds the registry, and nothing is left to be migrated. -/
structure Serving (f : Catalog) (d : Registry) : Prop where
  created : f.created = f
  versions : ∃ nowMs nowMs', f.versions = recorded nowMs nowMs'
  registry : f.registry = some d

theorem Serving.devices (h : Serving f d) : f.devices = some (.indexed d.devices) := by
  have hregistry := h.registry
  unfold Catalog.registry at hregistry
  split at hregistry
  · next hdevices _ _ _ =>
    obtain rfl := Option.some.inj hregistry
    exact hdevices
  · cases hregistry

theorem Serving.withRegistry (h : Serving f d) (d' : Registry) :
    Serving (f.withRegistry d') d' :=
  ⟨congrArg (Catalog.withRegistry · d') h.created, h.versions, rfl⟩

theorem Serving.request {α : Type} (h : Serving f d) (p : Admin α) :
    f.request p = (f.withRegistry (p.perform (.idle d)).1, (p.perform (.idle d)).2) := by
  rw [Catalog.request, h.registry]

/-- The bootstrap row is not seeded a second time. -/
theorem Serving.settled (h : Serving f d)
    (hbootstrap : ∃ x ∈ d.devices.rows, x.deviceId = some legacyDefaultKey) :
    Settled hashApiKey f := by
  refine ⟨h.created, h.versions, _, h.devices, congrArg DevicesTable.indexed ?_⟩
  rw [Table.insertOrIgnore_eq_self_iff, Table.not_accepts_iff]
  obtain ⟨x, hx, hid⟩ := hbootstrap
  exact fun _ => ⟨x, hx, by
    simp [deviceSchema, DeviceRow.clash, LegacyRow.carried, bootstrapRow, sameText, hid]⟩

/-- **The first start** leaves the fresh registry. -/
theorem serving_firstStart (hashApiKey : PyStr → PyStr) (nowMs nowMs' : ℤ) :
    Serving (firstStart hashApiKey nowMs nowMs').1 (.fresh hashApiKey) :=
  ⟨rfl, ⟨nowMs, nowMs', rfl⟩, rfl⟩

theorem keysKept_fresh (hashApiKey : PyStr → PyStr) :
    KeysKept hashApiKey [bootstrapDefaultApiKey]
      [.assigned legacyDefaultKey bootstrapDefaultApiKey] (.fresh hashApiKey) := by
  have hself : keyOf legacyDefaultKey [.assigned legacyDefaultKey bootstrapDefaultApiKey] =
      some bootstrapDefaultApiKey := rfl
  refine ⟨fun x hx hash hhash => ?_, fun dev k hk => ?_, ?_, issuedBy_fresh⟩
  · obtain rfl := List.mem_singleton.mp hx
    exact ⟨_, rfl, _, List.mem_singleton_self _, (Option.some.inj hhash).symm, hself⟩
  · by_cases hdev : legacyDefaultKey = dev
    · subst hdev
      obtain rfl := Option.some.inj (hself.symm.trans hk)
      exact ⟨_, List.mem_singleton_self _, rfl, rfl⟩
    · have hother : keyOf dev [.assigned legacyDefaultKey bootstrapDefaultApiKey] = none :=
        if_neg hdev
      cases hother.symm.trans hk
  · exact ⟨_, List.mem_singleton_self _, rfl⟩

/-! ## Any sequence of operations -/

/-- **One operation**, with a key whose hash is new. -/
theorem KeysKept.serve (h : KeysKept hashApiKey used history d) (hf : Serving f d) {op : KeyOp}
    (hnew : ∀ key, op.newKey = some key → ∀ k ∈ used, hashApiKey k ≠ hashApiKey key) :
    ∃ d', Serving (op.serve hashApiKey f).1 d' ∧ KeysKept hashApiKey (used ++ op.newKey.toList)
      (history ++ (op.serve hashApiKey f).2) d' := by
  have hfresh : ∀ key, op.newKey = some key → ∀ x ∈ d.devices.rows,
      x.apiKeyHash ≠ some (hashApiKey key) := by
    intro key hkey x hx hhash
    obtain ⟨-, -, k, hk, heq, -⟩ := h.held x hx _ hhash
    exact hnew key hkey k hk heq.symm
  cases op with
  | restart nowMs nowMs' =>
    obtain ⟨_, s, hperform, -, rfl⟩ :=
      (completes_initDb_settled (hf.settled h.bootstrap) nowMs nowMs').perform
    refine ⟨d, ?_, h.silent []⟩
    show Serving ((initDb hashApiKey nowMs nowMs').perform (.idle f)).1 d
    rw [hperform]
    exact hf
  | provision r =>
    rw [KeyOp.serve, hf.request]
    by_cases hid : r.deviceId = []
    · rw [provisionDevice, if_pos hid]
      exact ⟨d, hf.withRegistry d, h.silent [r.apiKey]⟩
    · obtain ⟨_, _, hperform, -, l, d', rfl, rfl, hset⟩ :=
        (completes_provisionDevice hid (hfresh _ rfl) h.issued).perform
      rw [hperform]
      exact ⟨d', hf.withRegistry d', h.assign hset⟩
  | rotate deviceId key createdAtMs =>
    obtain ⟨_, _, hperform, -, d', rfl, hcase⟩ :=
      (completes_rotateDeviceKey deviceId (hfresh key rfl) h.issued createdAtMs).perform
    rw [KeyOp.serve, hf.request, hperform]
    refine ⟨d', hf.withRegistry d', ?_⟩
    rcases hcase with ⟨rfl, rfl⟩ | ⟨rfl, hset⟩
    · exact h.silent [key]
    · exact h.assign hset
  | revoke deviceId createdAtMs =>
    obtain ⟨_, _, hperform, -, d', rfl, hcase⟩ :=
      (completes_revokeDeviceKey deviceId h.issued createdAtMs).perform
    rw [KeyOp.serve, hf.request, hperform]
    refine ⟨d', hf.withRegistry d', ?_⟩
    rcases hcase with ⟨rfl, rfl⟩ | ⟨rfl, hrevoke⟩
    · exact h.silent []
    · exact (h.revoke hrevoke).mono (List.subset_append_left used [])
  | push key createdAtMs body =>
    have hsame := sameKeys_of_push hashApiKey h.issued key createdAtMs body
    rw [KeyOp.serve, hf.request]
    exact ⟨_, hf.withRegistry _, (h.same hsame).silent []⟩

/-- Generated keys are fresh.  They are 48 hexadecimal digits, so none is empty. -/
structure FreshKeys (ops : List KeyOp) : Prop where
  distinct : (issuedKeys ops).Nodup
  nonempty : [] ∉ issuedKeys ops

theorem issuedKeys_append_singleton (ops : List KeyOp) (op : KeyOp) :
    issuedKeys (ops ++ [op]) = issuedKeys ops ++ op.newKey.toList := by
  rw [issuedKeys, issuedKeys, List.filterMap_append, List.cons_append]
  cases op <;> rfl

/-- **The invariant** holds behind every sequence of operations. -/
theorem keysKept_serveAll {ops : List KeyOp} (hdistinct : (issuedKeys ops).Nodup)
    (hinj : Set.InjOn hashApiKey {k | k ∈ issuedKeys ops}) (nowMs nowMs' : ℤ) :
    ∃ d, Serving (serveAll hashApiKey nowMs nowMs' ops).1 d ∧
      KeysKept hashApiKey (issuedKeys ops) (serveAll hashApiKey nowMs nowMs' ops).2 d := by
  induction ops using List.reverseRecOn with
  | nil => exact ⟨_, serving_firstStart hashApiKey nowMs nowMs', keysKept_fresh hashApiKey⟩
  | append_singleton ops op ih =>
    rw [issuedKeys_append_singleton] at hdistinct hinj ⊢
    rw [serveAll, List.foldl_append]
    obtain ⟨hbefore, -, hnew⟩ := List.nodup_append.mp hdistinct
    obtain ⟨d, hf, h⟩ := ih hbefore (hinj.mono fun k hk => List.mem_append_left _ hk)
    refine h.serve hf fun key hkey k hk heq => ?_
    have hkey : key ∈ op.newKey.toList := Option.mem_toList.mpr hkey
    exact hnew k hk key hkey (hinj (List.mem_append_left _ hk) (List.mem_append_right _ hkey) heq)

/-- **The key lifecycle.**  Behind every sequence of operations the gate accepts exactly
the keys that are current. -/
theorem accepts_iff_isCurrent (hashApiKey : PyStr → PyStr) (nowMs nowMs' : ℤ)
    (ops : List KeyOp) (key : Option PyStr) (createdAtMs : ℤ) (hfresh : FreshKeys ops)
    (hinj : Set.InjOn hashApiKey {k | k ∈ issuedKeys ops ∨ key = some k}) :
    Accepts hashApiKey (serveAll hashApiKey nowMs nowMs' ops).1 key createdAtMs ↔
      ∃ k deviceId, key = some k ∧
        IsCurrent (serveAll hashApiKey nowMs nowMs' ops).2 deviceId k := by
  obtain ⟨d, hf, h⟩ := keysKept_serveAll hfresh.distinct (hinj.mono fun k hk => .inl hk)
    nowMs nowMs'
  rw [Accepts, hf.request]
  -- the key of a device is one that was issued
  have hissued : ∀ {k deviceId}, IsCurrent (serveAll hashApiKey nowMs nowMs' ops).2 deviceId k →
      k ≠ [] := by
    rintro k deviceId hk rfl
    obtain ⟨x, hx, hid, hhash⟩ := h.current deviceId [] (isCurrent_iff_keyOf.mp hk)
    obtain ⟨dev, hdev, k', hk', -, hkept⟩ := h.held x hx _ hhash
    obtain rfl := Option.some.inj (hid.symm.trans hdev)
    rw [isCurrent_iff_keyOf.mp hk] at hkept
    split_ifs at hkept
    obtain rfl := Option.some.inj hkept
    exact hfresh.nonempty hk'
  have hmissing : key = none ∨ key = some [] → (∃ k deviceId, key = some k ∧
      IsCurrent (serveAll hashApiKey nowMs nowMs' ops).2 deviceId k) → False := by
    rintro hkey ⟨k, deviceId, rfl, hk⟩
    rcases hkey with hkey | hkey
    · cases hkey
    · exact hissued hk (Option.some.inj hkey)
  rcases key with _ | k
  · refine iff_of_false (fun haccepted => ?_) (hmissing (.inl rfl))
    cases haccepted
  · by_cases hk : k = []
    · subst hk
      refine iff_of_false (fun haccepted => ?_) (hmissing (.inr rfl))
      cases haccepted
    · have hinj' : Set.InjOn hashApiKey {k' | k' ∈ k :: issuedKeys ops} := by
        refine hinj.mono fun k' hk' => ?_
        rcases List.mem_cons.mp hk' with rfl | hk'
        · exact .inr rfl
        · exact .inl hk'
      rw [requireApiKey_accepts_iff h hinj' hk]
      simp only [← isCurrent_iff_keyOf]
      constructor
      · rintro ⟨deviceId, hcurrent⟩
        exact ⟨k, deviceId, rfl, hcurrent⟩
      · rintro ⟨k', deviceId, heq, hcurrent⟩
        obtain rfl := Option.some.inj heq
        exact ⟨deviceId, hcurrent⟩

/-- A device is provisioned, its key rotated and the bootstrap key revoked; then the
server is restarted. -/
def siteOps : List KeyOp :=
  [.push (some bootstrapDefaultApiKey) 1 (some ⟨some (py "flow-01"), .null, .null, 1, .null⟩),
    .provision ⟨py "flow-01", none, py "k1", 2, 2⟩, .rotate (py "flow-01") (py "k2") 3,
    .revoke legacyDefaultKey 4, .restart 5 5]

theorem accepts_iff_isCurrent_siteOps : (serveAll id 0 0 siteOps).2 =
      [.assigned legacyDefaultKey bootstrapDefaultApiKey, .assigned (py "flow-01") (py "k1"),
        .assigned (py "flow-01") (py "k2"), .revoked legacyDefaultKey] ∧
    Accepts id (serveAll id 0 0 siteOps).1 (some (py "k2")) 6 := by
  have hhistory : (serveAll id 0 0 siteOps).2 =
      [.assigned legacyDefaultKey bootstrapDefaultApiKey, .assigned (py "flow-01") (py "k1"),
        .assigned (py "flow-01") (py "k2"), .revoked legacyDefaultKey] := by decide +kernel
  refine ⟨hhistory, (accepts_iff_isCurrent id 0 0 siteOps (some (py "k2")) 6
    ⟨by decide, by decide⟩ (Set.injOn_id _)).mpr ⟨_, py "flow-01", rfl, ?_⟩⟩
  rw [hhistory]
  exact ⟨[_, _], [_], rfl, by decide⟩

end Server
end CovioFirmware
