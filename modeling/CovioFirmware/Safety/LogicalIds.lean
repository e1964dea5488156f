import CovioFirmware.Bytes.Text
import CovioFirmware.Server.Administration
import CovioFirmware.Sql.Interleaving

/-!
# Logical ids under concurrent provisioning

`allocate_logical_device_id` increments a counter, commits, and reads the counter back.
The increments are serialised, but the value read back is that of the last commit, and
between a request's commit and its reading another request can commit an increment of
its own.  Then both read the same value, and the second of them fails at the unique
index (`not_distinct_of_overtaking`).

In a run without such an overtaking every value read back is new
(`logicalIds_of_reach`).  The argument is that a request about to read back is the
only one, and that the counter stands above all ids there are: those in the table and
those read by requests that have not written them yet.
-/

namespace CovioFirmware
namespace Server

open Sql Crash

/-! ## Ids and their numbers -/

theorem formatLogicalId_injective {m n : ℕ} (h : formatLogicalId m = formatLogicalId n) :
    m = n := by
  have hchars := List.map_injective_iff.mpr (fun _ _ => Char.toNat_inj.mp) (List.append_cancel_left h)
  have hval := congrArg Text.digitsVal hchars
  rw [Text.digitsVal_toDigits, Text.digitsVal_toDigits] at hval
  exact Option.some.inj hval

/-- The logical ids in the table. -/
def Registry.logicalIds (d : Registry) : Set PyStr :=
  {l | ∃ x ∈ d.devices.rows, x.logicalDeviceId = some l}

/-- The ids are ids of numbers up to the counter. -/
def IssuedBy (n : ℕ) (ids : Set PyStr) : Prop := ∀ l ∈ ids, ∃ m ≤ n, l = formatLogicalId m

theorem formatLogicalId_notMem {ids : Set PyStr} {m n : ℕ} (h : IssuedBy n ids) (hm : n < m) :
    formatLogicalId m ∉ ids := by
  intro hmem
  obtain ⟨k, hk, heq⟩ := h _ hmem
  have := formatLogicalId_injective heq
  omega

variable {r : ProvisionRequest} {d d' : Registry} {hashApiKey : PyStr → PyStr}

theorem logicalIds_of_update {deviceId : PyStr} {f : DeviceRow → DeviceRow} {new : Set PyStr}
    (hf : ∀ x l, (f x).logicalDeviceId = some l → x.logicalDeviceId = some l ∨ l ∈ new)
    (h : d.updateDevice (some deviceId) f = some d') :
    d'.logicalIds ⊆ d.logicalIds ∪ new := by
  rintro l ⟨y, hy, hl⟩
  rcases (Registry.mem_of_updateDevice h).mp hy with ⟨hy, -⟩ | ⟨x, hx, -, rfl⟩
  · exact .inl ⟨y, hy, hl⟩
  · exact (hf x l hl).imp (fun hl => ⟨x, hx, hl⟩) id

/-- The call reads the counter back. -/
def isReadBack : Call registryDialect → Bool
  | .query Query.counter => true
  | _ => false

/-- The request reads the counter back next. -/
def readsBack (t : Thread registryDialect ProvisionAnswer) : Bool := t.next.any isReadBack

theorem readsBack_upsertDevice {f : Unit → Admin ProvisionAnswer} (existing : Option DeviceRow) :
    readsBack (.running (upsertDevice hashApiKey r existing >>= f)) = false := by
  cases existing <;> rfl

theorem readsBack_provisionDevice (r : ProvisionRequest) :
    readsBack (.running (provisionDevice hashApiKey r)) = false := by
  by_cases hid : r.deviceId = []
  · rw [provisionDevice, if_pos hid]
    rfl
  · rw [provisionDevice_eq hid]
    rfl

/-- The first statement of a request writes no logical id. -/
theorem logicalIds_of_upsert {existing : Option DeviceRow} {α : Type} {f : Unit → Admin α}
    {c : Call registryDialect} {k : c.Reply → Admin α} {a : c.Reply} {s : Store Registry}
    (hcall : upsertDevice hashApiKey r existing >>= f = .call c k)
    (hstep : c.step (.idle d) = some (a, s)) :
    isReadBack c = false ∧ k a = f () ∧ ∃ d', s = ⟨d, some d'⟩ ∧
      d'.logicalIds ⊆ d.logicalIds ∧ d'.logicalIdCounter = d.logicalIdCounter := by
  cases existing with
  | some x =>
    cases hcall
    obtain ⟨d₁, hwrite, rfl⟩ := Call.of_step_exec hstep
    obtain ⟨d₂, hupdate, hb⟩ := Option.map_eq_some_iff.mp hwrite
    obtain ⟨-, rfl⟩ := Prod.mk.inj hb
    refine ⟨rfl, rfl, d₂, rfl, ?_, by rw [(Registry.updateDevice_eq_some hupdate).1]; rfl⟩
    have hkeep : ∀ (z : DeviceRow) (l : PyStr),
        (z.provisioned (hashApiKey r.apiKey) r.assetLabel r.nowMs).logicalDeviceId = some l →
          z.logicalDeviceId = some l ∨ l ∈ (∅ : Set PyStr) := fun _ _ hl => .inl hl
    have hsub := logicalIds_of_update hkeep hupdate
    rwa [Set.union_empty] at hsub
  | none =>
    cases hcall
    obtain ⟨d₁, hwrite, rfl⟩ := Call.of_step_exec hstep
    obtain ⟨d₂, hinsert, hb⟩ := Option.map_eq_some_iff.mp hwrite
    obtain ⟨-, rfl⟩ := Prod.mk.inj hb
    obtain ⟨hrest, -, hrows⟩ := Registry.insertDevice_eq_some hinsert
    refine ⟨rfl, rfl, d₂, rfl, ?_, by rw [hrest]; rfl⟩
    rintro l ⟨y, hy, hl⟩
    rw [hrows, List.mem_append, List.mem_singleton] at hy
    rcases hy with hy | rfl
    · exact ⟨y, hy, hl⟩
    · cases hl

/-- An id nobody has can be written. -/
theorem exists_setLogicalId {deviceId l : PyStr} (hl : l ∉ d.logicalIds) :
    d.write (.setLogicalId deviceId l) ≠ none := by
  obtain ⟨d', hd'⟩ : ∃ d', d.updateDevice (some deviceId)
      ({ · with logicalDeviceId := some l }) = some d' := by
    refine Registry.exists_updateDevice (fun _ => rfl) fun x hx y hy hxid hyid => ⟨?_, ?_⟩
    · have hclash := Registry.clash_of_ne hx hy fun h => hyid (h ▸ hxid)
      exact (Bool.or_eq_false_iff.mp (Bool.or_eq_false_iff.mp hclash).1).2
    · exact sameText_eq_false.mpr (.inr fun h => hl ⟨y, hy, h.symm⟩)
  rw [Registry.write, hd']
  simp

/-! ## A request under way -/

/-- The end of a request that has to allocate, from the allocation's own commit on, in
three stages. -/
def afterIncrement (r : ProvisionRequest) : Admin ProvisionAnswer := do
  Admin.commit
  let value ← Admin.query .counter
  Admin.exec (.setLogicalId r.deviceId (formatLogicalId value))
  finishProvisioning r (formatLogicalId value)

def afterCommit (r : ProvisionRequest) : Admin ProvisionAnswer := do
  let value ← Admin.query .counter
  Admin.exec (.setLogicalId r.deviceId (formatLogicalId value))
  finishProvisioning r (formatLogicalId value)

def afterReadBack (r : ProvisionRequest) (l : PyStr) : Admin ProvisionAnswer := do
  Admin.exec (.setLogicalId r.deviceId l)
  finishProvisioning r l

variable {ι : Type}

/-- Where request `i` stands, over what is committed and the ids read back so far, and
what its transaction has written. -/
inductive Allocating (hashApiKey : PyStr → PyStr) (r : ProvisionRequest) (i : ι) (d : Registry)
    (ids : ι → Option PyStr) : Admin ProvisionAnswer → Option Registry → Prop where
  | start : ids i = none →
      Allocating hashApiKey r i d ids (do
        let existing ← Admin.query (.device r.deviceId)
        upsertDevice hashApiKey r existing
        completeProvisioning r existing) none
  | writing {existing : Option DeviceRow} {p : Admin ProvisionAnswer} :
      upsertDevice hashApiKey r existing >>= (fun _ => completeProvisioning r existing) = p →
      ids i = none → Allocating hashApiKey r i d ids p none
  | counting {d' : Registry} : ids i = none → d'.logicalIds ⊆ d.logicalIds →
      d'.logicalIdCounter = d.logicalIdCounter →
      Allocating hashApiKey r i d ids (do
        Admin.exec .incrementCounter
        afterIncrement r) (some d')
  | counted {d' : Registry} : ids i = none → d'.logicalIds ⊆ d.logicalIds →
      d'.logicalIdCounter = d.logicalIdCounter + 1 →
      Allocating hashApiKey r i d ids (afterIncrement r) (some d')
  /-- Nobody has the id that will be read back. -/
  | readingBack : ids i = none → (∀ j, ids j ≠ some (formatLogicalId d.logicalIdCounter)) →
      formatLogicalId d.logicalIdCounter ∉ d.logicalIds →
      Allocating hashApiKey r i d ids (afterCommit r) none
  /-- The id read back is not in the table yet. -/
  | assigning {l : PyStr} : ids i = some l → l ∉ d.logicalIds →
      Allocating hashApiKey r i d ids (afterReadBack r l) none
  | recording {d' : Registry} {l : PyStr} :
      d'.logicalIds ⊆ d.logicalIds ∪ {l | ids i = some l} →
      d'.logicalIdCounter = d.logicalIdCounter →
      Allocating hashApiKey r i d ids (finishProvisioning r l) (some d')
  | finishing {d' : Registry} {a : ProvisionAnswer} :
      d'.logicalIds ⊆ d.logicalIds ∪ {l | ids i = some l} →
      d'.logicalIdCounter = d.logicalIdCounter →
      Allocating hashApiKey r i d ids (do
        Admin.commit
        return a) (some d')
  | returned {a : ProvisionAnswer} : Allocating hashApiKey r i d ids (.ret a) none

/-- What the table and the requests hold of ids. -/
structure IdsOk (d : Registry) (ids : ι → Option PyStr) : Prop where
  table : IssuedBy d.logicalIdCounter d.logicalIds
  held : ∀ i, IssuedBy d.logicalIdCounter {l | ids i = some l}
  distinct : ∀ i j l, ids i = some l → ids j = some l → i = j

/-- What one call of request `i` does to what is committed. -/
inductive Effect (i : ι) (c : Call registryDialect) (d : Registry) (ids : ι → Option PyStr)
    (pending : Option Registry) (d' : Registry) : Prop where
  | silent : isReadBack c = false → d' = d → Effect i c d ids pending d'
  | read : isReadBack c = true → d' = d → pending = none →
      (∀ j, ids j ≠ some (formatLogicalId d.logicalIdCounter)) → Effect i c d ids pending d'
  /-- The commit of an allocation. -/
  | counted : c = .commit → pending = some d' → d'.logicalIds ⊆ d.logicalIds →
      d'.logicalIdCounter = d.logicalIdCounter + 1 → Effect i c d ids pending d'
  /-- The last commit. -/
  | committed : c = .commit → pending = some d' →
      d'.logicalIds ⊆ d.logicalIds ∪ {l | ids i = some l} →
      d'.logicalIdCounter = d.logicalIdCounter → Effect i c d ids pending d'

/-- The call commits an incremented counter. -/
def CommitsCount (c : Call registryDialect) (d : Registry) (pending : Option Registry) : Prop :=
  c = .commit ∧ ∃ d', pending = some d' ∧ d'.logicalIdCounter ≠ d.logicalIdCounter

variable [DecidableEq ι]

/-- The ids read back, with what a call of request `i` reads. -/
def afterCall (i : ι) (c : Call registryDialect) (d : Registry) (ids : ι → Option PyStr) :
    ι → Option PyStr :=
  if isReadBack c then Function.update ids i (some (formatLogicalId d.logicalIdCounter)) else ids

variable {i j : ι} {ids ids' : ι → Option PyStr} {pending : Option Registry}

/-- **One call of a request.** -/
theorem Allocating.step (hok : IdsOk d ids) {c : Call registryDialect}
    {k : c.Reply → Admin ProvisionAnswer} {a : c.Reply} {s : Store Registry}
    (h : Allocating hashApiKey r i d ids (.call c k) pending)
    (hstep : c.step ⟨d, pending⟩ = some (a, s)) : Effect i c d ids pending s.committed ∧
      Allocating hashApiKey r i s.committed (afterCall i c d ids) (k a) s.pending ∧
      (readsBack (.running (k a)) = true → CommitsCount c d pending) := by
  cases h with
  | start hnone =>
    obtain ⟨rfl, rfl⟩ := Prod.mk.inj (Option.some.inj hstep)
    exact ⟨.silent rfl rfl, .writing rfl hnone, fun h =>
      absurd ((readsBack_upsertDevice _).symm.trans h) Bool.false_ne_true⟩
  | writing hcall hnone =>
    obtain ⟨hback, hk, d', rfl, hids, hcounter⟩ := logicalIds_of_upsert hcall hstep
    rw [hk, afterCall, if_neg (by simp [hback])]
    refine ⟨.silent hback rfl, ?_⟩
    rename_i existing
    unfold completeProvisioning
    cases existingLogicalId existing with
    | some l =>
      exact ⟨.recording (hids.trans Set.subset_union_left) hcounter, fun h => absurd h Bool.false_ne_true⟩
    | none => exact ⟨.counting hnone hids hcounter, fun h => absurd h Bool.false_ne_true⟩
  | counting hnone hids hcounter =>
    obtain ⟨rfl, rfl⟩ := Prod.mk.inj (Option.some.inj hstep)
    exact ⟨.silent rfl rfl, .counted hnone hids (congrArg (· + 1) hcounter),
      fun h => absurd h Bool.false_ne_true⟩
  | @counted d' hnone hids hcounter =>
    obtain ⟨rfl, rfl⟩ := Prod.mk.inj (Option.some.inj hstep)
    have hlt : d.logicalIdCounter < d'.logicalIdCounter := by omega
    refine ⟨.counted rfl rfl hids hcounter, .readingBack hnone (fun j => ?_) fun hmem => ?_,
      fun _ => ⟨rfl, d', rfl, hlt.ne'⟩⟩
    · exact formatLogicalId_notMem (hok.held j) hlt
    · exact formatLogicalId_notMem hok.table hlt (hids hmem)
  | readingBack hnone hheld htable =>
    obtain ⟨rfl, rfl⟩ := Prod.mk.inj (Option.some.inj hstep)
    exact ⟨.read rfl rfl rfl hheld, .assigning (Function.update_self ..) htable,
      fun h => absurd h Bool.false_ne_true⟩
  | @assigning l hl htable =>
    obtain ⟨d₁, hwrite, rfl⟩ := Call.of_step_exec hstep
    obtain ⟨d₂, hupdate, hb⟩ := Option.map_eq_some_iff.mp hwrite
    obtain ⟨-, rfl⟩ := Prod.mk.inj hb
    have hnew : ∀ (x : DeviceRow) (l' : PyStr), (some l : Option PyStr) = some l' →
        x.logicalDeviceId = some l' ∨ l' ∈ {l | ids i = some l} := by
      rintro x l' hl'
      obtain rfl := Option.some.inj hl'
      exact .inr hl
    refine ⟨.silent rfl rfl, .recording (logicalIds_of_update hnew hupdate) ?_,
      fun h => absurd h Bool.false_ne_true⟩
    rw [(Registry.updateDevice_eq_some hupdate).1]
    rfl
  | recording hids hcounter =>
    obtain ⟨rfl, rfl⟩ := Prod.mk.inj (Option.some.inj hstep)
    exact ⟨.silent rfl rfl, .finishing hids hcounter, fun h => absurd h Bool.false_ne_true⟩
  | finishing hids hcounter =>
    obtain ⟨rfl, rfl⟩ := Prod.mk.inj (Option.some.inj hstep)
    exact ⟨.committed rfl rfl hids hcounter, .returned, fun h => absurd h Bool.false_ne_true⟩

omit [DecidableEq ι] in
/-- What another request reads back does not concern one that does not read back
itself. -/
theorem Allocating.of_read {p : Admin ProvisionAnswer}
    (h : Allocating hashApiKey r j d ids p pending) (hj : ids' j = ids j)
    (hback : readsBack (.running p) = false) : Allocating hashApiKey r j d ids' p pending := by
  cases h with
  | start hnone => exact .start (hj.trans hnone)
  | writing hp hnone => exact .writing hp (hj.trans hnone)
  | counting hnone hids hcounter => exact .counting (hj.trans hnone) hids hcounter
  | counted hnone hids hcounter => exact .counted (hj.trans hnone) hids hcounter
  | readingBack => exact absurd hback Bool.true_eq_false.mp
  | assigning hl htable => exact .assigning (hj.trans hl) htable
  | recording hids hcounter => exact .recording (by rwa [hj]) hcounter
  | finishing hids hcounter => exact .finishing (by rwa [hj]) hcounter
  | returned => exact .returned

omit [DecidableEq ι] in
/-- What another request commits concerns one only if it reads the counter back. -/
theorem Allocating.of_commit (hok : IdsOk d ids) (hij : i ≠ j) {p : Admin ProvisionAnswer}
    (h : Allocating hashApiKey r j d ids p none)
    (hids : d'.logicalIds ⊆ d.logicalIds ∪ {l | ids i = some l})
    (hcounter : d'.logicalIdCounter = d.logicalIdCounter ∨ readsBack (.running p) = false) :
    Allocating hashApiKey r j d' ids p none := by
  cases h with
  | start hnone => exact .start hnone
  | writing hp hnone => exact .writing hp hnone
  | readingBack hnone hheld htable =>
    have hsame := hcounter.resolve_right Bool.true_eq_false.mp
    refine .readingBack hnone (by rwa [hsame]) fun hmem => ?_
    rw [hsame] at hmem
    exact (hids hmem).elim htable (hheld i)
  | assigning hl htable =>
    refine .assigning hl fun hmem => (hids hmem).elim htable fun hi => ?_
    exact hij (hok.distinct i j _ hi hl)
  | returned => exact .returned

theorem IssuedBy.mono {m n : ℕ} {s t : Set PyStr} (h : IssuedBy m s) (hmn : m ≤ n)
    (hts : t ⊆ s) : IssuedBy n t := by
  intro l hl
  obtain ⟨k, hk, rfl⟩ := h l (hts hl)
  exact ⟨k, hk.trans hmn, rfl⟩

/-- **One call keeps the ids apart.** -/
theorem IdsOk.step (hok : IdsOk d ids) {c : Call registryDialect}
    (h : Effect i c d ids pending d') : IdsOk d' (afterCall i c d ids) := by
  cases h with
  | silent hback heq =>
    subst heq
    rwa [afterCall, if_neg (by simp [hback])]
  | read hback heq _ hheld =>
    subst heq
    rw [afterCall, if_pos hback]
    refine ⟨hok.table, fun j => ?_, fun j k l hj hk => ?_⟩
    · by_cases hj : j = i
      · subst hj
        intro l hl
        rw [Set.mem_ofPred_eq, Function.update_self] at hl
        exact ⟨_, le_rfl, (Option.some.inj hl).symm⟩
      · intro l hl
        rw [Set.mem_ofPred_eq, Function.update_of_ne hj] at hl
        exact hok.held j l hl
    · by_cases hji : j = i
      · by_cases hki : k = i
        · exact hji.trans hki.symm
        · rw [hji, Function.update_self] at hj
          rw [Function.update_of_ne hki] at hk
          exact absurd (hk.trans hj.symm) (hheld k)
      · rw [Function.update_of_ne hji] at hj
        by_cases hki : k = i
        · rw [hki, Function.update_self] at hk
          exact absurd (hj.trans hk.symm) (hheld j)
        · rw [Function.update_of_ne hki] at hk
          exact hok.distinct j k l hj hk
  | counted hc _ hids hcounter =>
    subst hc
    exact ⟨hok.table.mono (by omega) hids, fun j => (hok.held j).mono (by omega) le_rfl,
      hok.distinct⟩
  | committed hc _ hids hcounter =>
    subst hc
    refine ⟨fun l hl => ?_, fun j => (hok.held j).mono hcounter.ge le_rfl, hok.distinct⟩
    rw [hcounter]
    exact (hids hl).elim (hok.table l) (hok.held i l)

omit [DecidableEq ι] in
/-- A request never fails for a duplicate id. -/
theorem Allocating.ne_setLogicalId {w : Write} {k : w.Result → Admin ProvisionAnswer}
    (h : Allocating hashApiKey r i d ids (.call (.exec (D := registryDialect) w) k) pending)
    (hfails : registryDialect.write w (Store.current ⟨d, pending⟩) = none) :
    ∀ deviceId l, w ≠ .setLogicalId deviceId l := by
  rintro deviceId l rfl
  cases h with
  | @writing existing p hcall hnone => cases existing <;> cases hcall
  | assigning hl htable => exact exists_setLogicalId htable hfails

/-! ## Runs -/

/-- No allocation is committed while another request stands between its own commit and
its reading. -/
def noOvertaking : Event ι → Net registryDialect ι ProvisionAnswer → Prop
  | .step i, n => ∀ c, (n.threads i).next = some c → CommitsCount c n.committed (n.pending i) →
      ∀ j, j ≠ i → readsBack (n.threads j) = false
  | _, _ => True

/-- The history of a run: the id each allocation has returned. -/
def allocated : Event ι → Net registryDialect ι ProvisionAnswer → (ι → Option PyStr) →
    ι → Option PyStr
  | .step i, n, ids =>
      match (n.threads i).next with
      | some c => afterCall i c (n.view i).current ids
      | none => ids
  | _, _, ids => ids

/-- The runs of concurrent requests `rs` from `d`, whose events satisfy `ok`, with the
ids allocated in them. -/
def ProvisionRun (ok : Event ι → Net registryDialect ι ProvisionAnswer → Prop)
    (hashApiKey : PyStr → PyStr) (d : Registry) (rs : ι → ProvisionRequest)
    (n : Net registryDialect ι ProvisionAnswer) (ids : ι → Option PyStr) : Prop :=
  Reach ok allocated (.initial d fun i => provisionDevice hashApiKey (rs i)) (fun _ => none) n ids

/-- Where a request stands that may have failed. -/
def AllocStanding (hashApiKey : PyStr → PyStr) (r : ProvisionRequest) (i : ι) (d : Registry)
    (ids : ι → Option PyStr) (pending : Option Registry) :
    Thread registryDialect ProvisionAnswer → Prop
  | .running p => Allocating hashApiKey r i d ids p pending
  | .raised w => pending = none ∧ ∀ deviceId l, w ≠ .setLogicalId deviceId l
  | .aborted => pending = none

/-- The invariant of a run without overtaking. -/
structure AllocInv (hashApiKey : PyStr → PyStr) (rs : ι → ProvisionRequest)
    (n : Net registryDialect ι ProvisionAnswer) (ids : ι → Option PyStr) : Prop where
  ok : IdsOk n.committed ids
  standing : ∀ i, AllocStanding hashApiKey (rs i) i n.committed ids (n.pending i) (n.threads i)
  one : ∀ i j, readsBack (n.threads i) = true → readsBack (n.threads j) = true → i = j

variable {rs : ι → ProvisionRequest} {n n' : Net registryDialect ι ProvisionAnswer}

/-- A call of one request leaves the others where they stand. -/
theorem AllocStanding.other (hok : IdsOk d ids) (hij : i ≠ j) {c : Call registryDialect}
    {t : Thread registryDialect ProvisionAnswer} {mine : Option Registry}
    (heffect : Effect i c d ids mine d') (hone : mine ≠ none → pending = none)
    (hback : isReadBack c = true ∨ CommitsCount c d mine → readsBack t = false)
    (h : AllocStanding hashApiKey r j d ids pending t) :
    AllocStanding hashApiKey r j d' (afterCall i c d ids) pending t := by
  cases t with
  | raised w => exact h
  | aborted => exact h
  | running p =>
    cases heffect with
    | silent hsilent heq =>
      subst heq
      rwa [afterCall, if_neg (by simp [hsilent])]
    | read hread heq _ _ =>
      subst heq
      rw [afterCall, if_pos hread]
      exact Allocating.of_read h (Function.update_of_ne hij.symm ..) (hback (.inl hread))
    | counted hc hmine hids hcounter =>
      have hnone : pending = none := hone (by rw [hmine]; simp)
      subst hc hnone
      have hcount : CommitsCount .commit d mine := ⟨rfl, d', hmine, by omega⟩
      exact Allocating.of_commit hok hij h (hids.trans Set.subset_union_left)
        (.inr (hback (.inr hcount)))
    | committed hc hmine hids hcounter =>
      have hnone : pending = none := hone (by rw [hmine]; simp)
      subst hc hnone
      exact Allocating.of_commit hok hij h hids (.inl hcounter)

/-- One event of a run. -/
theorem AllocInv.step {e : Event ι} (h : AllocInv hashApiKey rs n ids) (hwriter : n.OneWriter)
    (hok : noOvertaking e n) (hstep : Step e n n') :
    AllocInv hashApiKey rs n' (allocated e n ids) := by
  -- a request that fails leaves what is committed alone
  have hclose : ∀ (i : ι) (t : Thread registryDialect ProvisionAnswer), readsBack t = false →
      AllocStanding hashApiKey (rs i) i n.committed ids none t →
        AllocInv hashApiKey rs (n.advance i t (.idle n.committed)) ids := by
    intro i t hback ht
    refine ⟨h.ok, fun j => ?_, fun j k hj hk => ?_⟩
    · by_cases hji : j = i
      · subst hji
        rw [Net.pending_advance, Net.threads_advance]
        exact ht
      · rw [Net.pending_advance_of_ne hji, Net.threads_advance_of_ne hji]
        exact h.standing j
    · have hne : ∀ j, readsBack ((n.advance i t (.idle n.committed)).threads j) = true → j ≠ i := by
        rintro j hj rfl
        rw [Net.threads_advance, hback] at hj
        cases hj
      rw [Net.threads_advance_of_ne (hne j hj)] at hj
      rw [Net.threads_advance_of_ne (hne k hk)] at hk
      exact h.one j k hj hk
  cases hstep with
  | @step _ i c k a s hthread hlock hcall =>
    have hphase := h.standing i
    rw [hthread] at hphase
    obtain ⟨heffect, hnew, hback⟩ := Allocating.step h.ok hphase hcall
    have hids : allocated (.step i) n ids = afterCall i c n.committed ids := by
      rw [allocated, hthread]
      cases heffect with
      | read _ _ hnone _ => rw [Net.view, hnone]; rfl
      | silent hsilent _ => simp [Thread.next, afterCall, hsilent]
      | counted hc => subst hc; rfl
      | committed hc => subst hc; rfl
    have hothers : ∀ j, j ≠ i → isReadBack c = true ∨ CommitsCount c n.committed (n.pending i) →
        readsBack (n.threads j) = false := by
      rintro j hj (hread | hcount)
      · by_contra hjback
        refine hj (h.one j i (by simpa using hjback) ?_)
        rw [hthread]
        exact hread
      · exact hok c (by rw [hthread]; rfl) hcount j hj
    rw [hids]
    refine ⟨h.ok.step heffect, fun j => ?_, fun j l hj hk => ?_⟩
    · by_cases hji : j = i
      · subst hji
        rw [Net.pending_advance, Net.threads_advance]
        exact hnew
      · rw [Net.pending_advance_of_ne hji, Net.threads_advance_of_ne hji]
        exact AllocStanding.other h.ok (Ne.symm hji) heffect (fun hne => hwriter i hne j hji)
          (hothers j hji) (h.standing j)
    · -- the one that moved reads back only behind the commit of its allocation
      have hmoved : ∀ m, m ≠ i → readsBack (.running (k a)) = true →
          readsBack (n.threads m) = false := fun m hm hnew =>
        hok c (by rw [hthread]; rfl) (hback hnew) m hm
      by_cases hji : j = i
      · by_cases hli : l = i
        · exact hji.trans hli.symm
        · rw [hji, Net.threads_advance] at hj
          rw [Net.threads_advance_of_ne hli, hmoved l hli hj] at hk
          cases hk
      · rw [Net.threads_advance_of_ne hji] at hj
        by_cases hli : l = i
        · rw [hli, Net.threads_advance] at hk
          rw [hmoved j hji hk] at hj
          cases hj
        · rw [Net.threads_advance_of_ne hli] at hk
          exact h.one j l hj hk
  | @raise _ i w k hthread hfree hfails =>
    have hphase := h.standing i
    rw [hthread] at hphase
    exact hclose _ _ rfl ⟨rfl, Allocating.ne_setLogicalId hphase hfails⟩
  | abort hthread => exact hclose _ _ rfl rfl

/-- **Logical ids are never shared** in a run without overtaking: the ids allocated are
distinct, and no request fails for a duplicate one. -/
theorem logicalIds_of_reach {d : Registry} {rs : ι → ProvisionRequest}
    (hd : IssuedBy d.logicalIdCounter d.logicalIds) {n : Net registryDialect ι ProvisionAnswer}
    {ids : ι → Option PyStr} (h : ProvisionRun noOvertaking hashApiKey d rs n ids) :
    (∀ i j l, ids i = some l → ids j = some l → i = j) ∧
      ∀ i deviceId l, n.threads i ≠ .raised (.setLogicalId deviceId l) := by
  have hstart : ∀ i, Allocating hashApiKey (rs i) i d (fun _ => none)
      (provisionDevice hashApiKey (rs i)) none := by
    intro i
    by_cases hid : (rs i).deviceId = []
    · rw [provisionDevice, if_pos hid]
      exact .returned
    · rw [provisionDevice_eq hid]
      exact .start rfl
  have hinit : AllocInv hashApiKey rs (.initial d fun i => provisionDevice hashApiKey (rs i))
      fun _ => none := by
    refine ⟨⟨hd, fun i l hl => ?_, fun i j l hl => ?_⟩, hstart, fun i j hi => ?_⟩
    · cases hl
    · cases hl
    · exact absurd ((readsBack_provisionDevice (rs i)).symm.trans hi) Bool.false_ne_true
  have hinv : AllocInv hashApiKey rs n ids := by
    refine Reach.invariant (J := AllocInv hashApiKey rs) hinit ?_ h
    intro e n n' g hinv hwriter hok hstep
    exact hinv.step hwriter hok hstep
  refine ⟨hinv.ok.distinct, fun i deviceId l hraised => ?_⟩
  have hstanding := hinv.standing i
  rw [hraised] at hstanding
  exact hstanding.2 deviceId l rfl

theorem issuedBy_fresh : IssuedBy (Registry.fresh hashApiKey).logicalIdCounter
    (Registry.fresh hashApiKey).logicalIds := by
  rintro l ⟨x, hx, hl⟩
  obtain rfl := List.mem_singleton.mp hx
  cases hl

/-- A request for a device of this name. -/
def provisionNamed (name : String) : ProvisionRequest := ⟨py name, none, py name, 1000, 1001⟩

theorem logicalIds_of_reach_provisionNamed :
    ∃ n ids, ProvisionRun noOvertaking id (.fresh id) (fun _ : Unit => provisionNamed "flow-01") n ids ∧
      ids () = some (py "COV-000001") ∧
      ∀ i deviceId l, n.threads i ≠ .raised (.setLogicalId deviceId l) := by
  have hok : ∀ (e : Event Unit) (n : Net registryDialect Unit ProvisionAnswer),
      noOvertaking e n := by
    intro e n
    cases e with
    | step i => exact fun _ _ _ j hj => absurd rfl hj
    | raise i => trivial
    | abort i => trivial
  have hrun : ProvisionRun noOvertaking id (.fresh id) (fun _ : Unit => provisionNamed "flow-01") _ _ :=
    Reach.of_run hok (List.replicate 8 (.step ())) .init rfl
  exact ⟨_, _, hrun, by decide +kernel, (logicalIds_of_reach issuedBy_fresh hrun).2⟩

/-- **Two requests at once**: the first one reads back what the second has counted, and
the second fails at the unique index. -/
theorem not_distinct_of_overtaking :
    ∃ n ids, ProvisionRun (fun _ _ => True) id (.fresh id)
        (fun i : Bool => provisionNamed (if i then "flow-01" else "flow-02")) n ids ∧
      ids true = some (py "COV-000002") ∧ ids false = some (py "COV-000002") ∧
      n.threads false = .raised (.setLogicalId (py "flow-02") (py "COV-000002")) := by
  have hrun : ProvisionRun (fun _ _ => True) id (.fresh id)
      (fun i : Bool => provisionNamed (if i then "flow-01" else "flow-02")) _ _ :=
    Reach.of_run (fun _ _ => trivial) ([true, true, true, true, false, false, false, false, true,
      false, true, true, true].map .step ++ [.raise false]) .init rfl
  exact ⟨_, _, hrun, by decide +kernel, by decide +kernel, rfl⟩

end Server
end CovioFirmware
