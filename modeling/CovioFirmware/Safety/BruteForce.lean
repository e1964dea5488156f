import CovioFirmware.Server.AdminGate
import Mathlib.Data.List.Induction
import Mathlib.Tactic.Linarith

/-!
# How often a password can be guessed

A source that has failed five times within sixty seconds is to be refused, so that no
window of sixty seconds holds more than five guesses.  The limiter counts what was
recorded; so the bound stands and falls with every failed evaluation being recorded,
and the exception of `compare_digest` is a way out of the evaluation that records
nothing.  `bruteForceBound_iff` says that it is the only one: the bound holds of a run
exactly if no invalid guess is made whose comparison raises.
-/

namespace CovioFirmware
namespace Server

open SlidingWindow

/-! ## Valid credentials -/

/-- The credentials are those of a user who may see the view. -/
def AdminCreds.grants (creds : AdminCreds) (role : Role) (a : Authorization) : Bool :=
  a.username == some (py "admin") && creds.adminPassword == some a.presented ||
    role == .viewer && a.username == some (py "viewer") && creds.viewerPassword == some a.presented

/-- The request carries the credentials its view demands. -/
def AdminRequest.valid (creds : AdminCreds) (r : AdminRequest) : Bool :=
  r.authorization.any (creds.grants r.role)

/-- The password and what it is compared with, if it is compared, are ASCII strings. -/
def AdminRequest.comparable (creds : AdminCreds) (r : AdminRequest) : Bool :=
  r.authorization.all fun a =>
    (creds.expected r.role a).all fun pw => a.presented.isAscii && pw.isAscii

theorem AdminCreds.grants_iff {creds : AdminCreds} {role : Role} {a : Authorization} :
    creds.grants role a = true ↔ creds.expected role a = some a.presented := by
  have hne : some (py "admin") ≠ some (py "viewer") := by decide
  simp only [AdminCreds.grants, Bool.or_eq_true, Bool.and_eq_true, beq_iff_eq, and_assoc]
  unfold AdminCreds.expected
  by_cases hadmin : a.username = some (py "admin")
  · cases hpw : creds.adminPassword with
    | none => simp [hadmin, hne]
    | some pw => simp [hadmin, hne]
  · simp [hadmin, and_assoc]

/-- **The check** decides validity, where it does not raise. -/
theorem check_eq (creds : AdminCreds) (r : AdminRequest) : creds.check r.role r.authorization =
    if r.comparable creds then some (r.valid creds) else none := by
  unfold AdminRequest.comparable AdminRequest.valid AdminCreds.check
  cases r.authorization with
  | none => rfl
  | some a =>
    rw [Option.all_some, Option.any_some]
    have hgrants : creds.grants r.role a = true ↔ creds.expected r.role a = some a.presented :=
      AdminCreds.grants_iff
    cases hexpected : creds.expected r.role a with
    | none => simpa [hexpected] using hgrants
    | some pw =>
      have heq : creds.grants r.role a = (a.presented == pw) := by
        rw [Bool.eq_iff_iff, hgrants, hexpected, beq_iff_eq, Option.some_inj]
        exact eq_comm
      simp [hexpected, compareDigest, heq]

/-! ## What the deques hold -/

/-- The clock does not go backwards from one request to the next. -/
def ClockOrder (rs : List AdminRequest) : Prop :=
  rs.Pairwise fun r r' => r.recordedAt ≤ r'.checkedAt

/-- The failures recorded for a source. -/
def recordedFailures (source : PyStr) (xs : List (AdminRequest × Outcome)) : List AdminRequest :=
  (xs.filter fun x => x.1.source = source ∧ x.2 = .unauthorized).map Prod.fst

variable {creds : AdminCreds} {s : GateState} {rs : List AdminRequest} {r : AdminRequest}

theorem recordedFailures_concat (source : PyStr) (xs : List (AdminRequest × Outcome))
    (x : AdminRequest × Outcome) : recordedFailures source (xs ++ [x]) =
      recordedFailures source xs ++
        if x.1.source = source ∧ x.2 = .unauthorized then [x.1] else [] := by
  unfold recordedFailures
  rw [List.filter_append, List.map_append]
  by_cases h : x.1.source = source ∧ x.2 = .unauthorized <;> simp [h]

/-- The deque of a source holds the times of its recorded failures, up to those out of
the window. -/
theorem holds_failures (hclock : ClockOrder rs) (source : PyStr) {now : ℚ}
    (hnow : ∀ r ∈ rs, r.recordedAt ≤ now) :
    Holds adminRateLimitWindowS now
      ((recordedFailures source (served creds .start rs)).map AdminRequest.recordedAt)
      ((afterRequests creds .start rs).failures source) := by
  induction rs using List.reverseRecOn generalizing now with
  | nil => exact .nil
  | append_singleton rs r ih =>
    obtain ⟨hrs, -, hlast⟩ := List.pairwise_append.mp hclock
    have hbefore : ∀ r' ∈ rs, r'.recordedAt ≤ r.checkedAt := fun r' h => hlast r' h r (by simp)
    have hr : r.recordedAt ≤ now := hnow r (by simp)
    have hchecked := r.clock
    have hind := ih hrs hbefore
    rw [served_concat, afterRequests_concat, recordedFailures_concat]
    have hother : source ≠ r.source → ∀ out : Outcome, Holds adminRateLimitWindowS now
        ((recordedFailures source (served creds .start rs) ++
          if r.source = source ∧ out = .unauthorized then [r] else []).map AdminRequest.recordedAt)
        ((afterRequests creds .start rs).failures source) := by
      intro hne out
      rw [if_neg fun h => hne h.1.symm, List.append_nil]
      exact hind.mono (hchecked.trans hr)
    have hchecks : ∀ out : Outcome, out ≠ .unauthorized → Holds adminRateLimitWindowS now
        ((recordedFailures source (served creds .start rs) ++
          if r.source = source ∧ out = .unauthorized then [r] else []).map AdminRequest.recordedAt)
        (((afterRequests creds .start rs).setFailures r.source
          ((afterRequests creds .start rs).expired r)).failures source) := by
      intro out hout
      by_cases hsource : source = r.source
      · subst hsource
        rw [if_neg fun h => hout h.2, List.append_nil, GateState.failures_setFailures]
        exact (hind.expire le_rfl).mono (hchecked.trans hr)
      · rw [GateState.failures_setFailures_of_ne hsource]
        exact hother hsource out
    rcases requireAdmin_cases creds (afterRequests creds .start rs) r with
      ⟨-, h⟩ | ⟨-, -, h⟩ | ⟨-, -, h⟩ | ⟨hfree, -, h⟩
    · rw [h]
      exact hchecks .rateLimited (by decide)
    · rw [h]
      exact hchecks .error (by decide)
    · rw [h]
      exact hchecks .view (by decide)
    · rw [h]
      by_cases hsource : source = r.source
      · subst hsource
        have hroom : ((afterRequests creds .start rs).expired r).length <
            adminRateLimitMaxFailures := by simpa [GateState.limited] using hfree
        rw [if_pos ⟨rfl, rfl⟩, GateState.failures_reject, GateState.failures_setFailures,
          List.map_append]
        exact ((hind.expire le_rfl).push hchecked hroom).mono hr
      · rw [GateState.failures_reject_of_ne hsource, GateState.failures_setFailures_of_ne hsource]
        exact hother hsource .unauthorized

/-- **The limiter decides** by the failures recorded within the window. -/
theorem limited_iff (hclock : ClockOrder (rs ++ [r])) :
    (afterRequests creds .start rs).limited r = true ↔ adminRateLimitMaxFailures ≤
      (served creds .start rs).countP fun x => x.1.source = r.source ∧ x.2 = .unauthorized ∧
        r.checkedAt - x.1.recordedAt ≤ adminRateLimitWindowS := by
  obtain ⟨hrs, -, hlast⟩ := List.pairwise_append.mp hclock
  have hholds := @holds_failures creds rs hrs r.source r.checkedAt
    fun r' h => hlast r' h r (by simp)
  rw [GateState.limited, GateState.expired, hholds.expire_eq, recent, recordedFailures,
    List.map_map, List.filter_map, List.length_map, List.filter_filter,
    ← List.countP_eq_length_filter, decide_eq_true_eq]
  refine iff_of_eq (congrArg _ (List.countP_congr fun x _ => ?_))
  simp only [Function.comp_apply, Bool.and_eq_true, decide_eq_true_eq]
  tauto

/-! ## The bound -/

/-- A guess: the credentials were evaluated, and are not valid. -/
def isGuess (creds : AdminCreds) (x : AdminRequest × Outcome) : Bool :=
  x.2 ≠ .rateLimited && !x.1.valid creds

/-- What the gate is to ensure in a run. -/
structure BruteForceBound (creds : AdminCreds) (rs : List AdminRequest) : Prop where
  /-- Only valid credentials lead to the view. -/
  granted : ∀ x ∈ served creds .start rs, x.2 = .view → x.1.valid creds = true
  /-- A window holds at most five guesses of one source, whenever between the readings
  of the clock each of them was evaluated. -/
  bounded : ∀ time : AdminRequest → ℚ,
    (∀ r ∈ rs, r.checkedAt ≤ time r ∧ time r ≤ r.recordedAt) → ∀ (source : PyStr) (t₀ : ℚ),
      ((served creds .start rs).countP fun x => x.1.source = source ∧ isGuess creds x ∧
        t₀ ≤ time x.1 ∧ time x.1 ≤ t₀ + adminRateLimitWindowS) ≤ adminRateLimitMaxFailures
  /-- Every guess is recorded. -/
  recorded : (afterRequests creds .start rs).events =
    ((served creds .start rs).filter (isGuess creds)).map (·.1.authFailed)
  /-- A source is refused only for its own recorded failures. -/
  throttled : ∀ pre r post, rs = pre ++ r :: post →
    (requireAdmin creds (afterRequests creds .start pre) r).2 = .rateLimited →
      adminRateLimitMaxFailures ≤ (served creds .start pre).countP fun x =>
        x.1.source = r.source ∧ x.2 = .unauthorized ∧
          r.checkedAt - x.1.recordedAt ≤ adminRateLimitWindowS
  /-- A source is treated as if there were no other. -/
  independent : ∀ source : PyStr, (served creds .start rs).filter (·.1.source = source) =
    served creds .start (rs.filter (·.source = source))

/-- The outcomes of an evaluated request. -/
theorem outcome_eq (creds : AdminCreds) (s : GateState) (r : AdminRequest) :
    (requireAdmin creds s r).2 =
      if s.limited r = true then .rateLimited
      else if r.comparable creds = false then .error
      else if r.valid creds = true then .view else .unauthorized := by
  rcases requireAdmin_cases creds s r with ⟨hl, h⟩ | ⟨hl, hc, h⟩ | ⟨hl, hc, h⟩ | ⟨hl, hc, h⟩
  · simp [h, hl]
  all_goals
    rw [check_eq] at hc
    cases hcomp : r.comparable creds with
    | false => simp_all
    | true => simp_all

/-- What ends with 401 was a guess. -/
theorem isGuess_of_unauthorized {s : GateState} {x : AdminRequest × Outcome}
    (hx : x ∈ served creds s rs) (h : x.2 = .unauthorized) : isGuess creds x = true := by
  obtain ⟨pre, post, rfl, hout⟩ := mem_served_iff.mp hx
  rw [h, outcome_eq] at hout
  rw [isGuess, h]
  cases hv : x.1.valid creds with
  | false => rfl
  | true => split_ifs at hout

/-- A guess whose comparison does not raise ends with 401. -/
theorem unauthorized_of_isGuess {s : GateState} {r : AdminRequest}
    (h : s.limited r = false → r.valid creds = false → r.comparable creds = true)
    (hguess : isGuess creds (r, (requireAdmin creds s r).2) = true) :
    (requireAdmin creds s r).2 = .unauthorized := by
  have hguess : (requireAdmin creds s r).2 ≠ .rateLimited ∧ r.valid creds = false := by
    simpa [isGuess] using hguess
  have hfree : s.limited r = false := by
    by_contra hl
    exact hguess.1 (by rw [outcome_eq, if_pos (by simpa using hl)])
  rw [outcome_eq, if_neg (by simp [hfree]), if_neg (by simp [h hfree hguess.2]),
    if_neg (by simp [hguess.2])]

/-- Where all guesses are recorded, each of them ended with 401. -/
theorem unauthorized_of_recorded (hrecorded : (afterRequests creds .start rs).events =
      ((served creds .start rs).filter (isGuess creds)).map (·.1.authFailed)) :
    ∀ x ∈ served creds .start rs, isGuess creds x = true → x.2 = .unauthorized := by
  intro x hx hguess
  have hlen := congrArg List.length ((events_afterRequests rs).symm.trans hrecorded)
  rw [show GateState.start.events = [] from rfl, List.nil_append, List.length_map,
    List.length_map] at hlen
  have hfilter : (served creds .start rs).filter (·.2 = .unauthorized) =
      ((served creds .start rs).filter (isGuess creds)).filter (·.2 = .unauthorized) := by
    rw [List.filter_filter]
    refine List.filter_congr fun y hy => ?_
    rw [Bool.eq_iff_iff, Bool.and_eq_true, decide_eq_true_eq]
    exact ⟨fun h => ⟨h, isGuess_of_unauthorized hy h⟩, And.left⟩
  rw [hfilter, List.length_filter_eq_length_iff] at hlen
  simpa using hlen x (List.mem_filter.mpr ⟨hx, hguess⟩)

/-- A window holds at most five guesses, if every guess is recorded. -/
theorem countP_isGuess_le (hclock : ClockOrder rs)
    (hrecorded : ∀ x ∈ served creds .start rs, isGuess creds x = true → x.2 = .unauthorized)
    {time : AdminRequest → ℚ} (htime : ∀ r ∈ rs, r.checkedAt ≤ time r ∧ time r ≤ r.recordedAt)
    (source : PyStr) (t₀ : ℚ) :
    ((served creds .start rs).countP fun x => x.1.source = source ∧ isGuess creds x ∧
      t₀ ≤ time x.1 ∧ time x.1 ≤ t₀ + adminRateLimitWindowS) ≤ adminRateLimitMaxFailures := by
  induction rs using List.reverseRecOn with
  | nil => exact Nat.zero_le _
  | append_singleton rs r ih =>
    obtain ⟨hrs, -, -⟩ := List.pairwise_append.mp hclock
    rw [served_concat] at hrecorded ⊢
    have hind := ih hrs (fun x hx => hrecorded x (List.mem_append_left _ hx))
      fun r hr => htime r (List.mem_append_left _ hr)
    rw [List.countP_append, List.countP_singleton]
    split
    · next hcounts =>
      -- the last guess was let pass, and every guess of the window before it was recorded
      simp only [decide_eq_true_eq] at hcounts
      obtain ⟨rfl, hguess, -, hlate⟩ := hcounts
      have hout := hrecorded _ (List.mem_append_right _ List.mem_cons_self) hguess
      have hfree : (afterRequests creds .start rs).limited r ≠ true := by
        intro hl
        rw [outcome_eq, if_pos hl] at hout
        cases hout
      rw [Ne, limited_iff hclock, not_le] at hfree
      refine Nat.succ_le_of_lt (lt_of_le_of_lt (List.countP_mono_left fun x hx h => ?_) hfree)
      simp only [decide_eq_true_eq] at h ⊢
      obtain ⟨pre, post, rfl, -⟩ := mem_served_iff.mp hx
      refine ⟨h.1, hrecorded x (List.mem_append_left _ hx) h.2.1, ?_⟩
      have hx := htime x.1 (by simp)
      have hr := htime r (by simp)
      linarith [h.2.2.1]
    · exact hind

/-- **The brute-force bound** holds of a run exactly if no invalid credentials are
evaluated whose comparison raises an exception. -/
theorem bruteForceBound_iff (creds : AdminCreds) (rs : List AdminRequest)
    (hclock : ClockOrder rs) : BruteForceBound creds rs ↔
      ∀ pre r post, rs = pre ++ r :: post → (afterRequests creds .start pre).limited r = false →
        r.valid creds = false → r.comparable creds = true := by
  constructor
  · rintro h pre r post rfl hfree hvalid
    by_contra hraises
    have hout : (requireAdmin creds (afterRequests creds .start pre) r).2 = .error := by
      rw [outcome_eq, if_neg (by simp [hfree]), if_pos (by simpa using hraises)]
    have hmem : (r, Outcome.error) ∈ served creds .start (pre ++ r :: post) :=
      mem_served_iff.mpr ⟨pre, post, rfl, hout.symm⟩
    have hun := unauthorized_of_recorded h.recorded _ hmem (by simp [isGuess, hvalid])
    cases hun
  · intro h
    have hun : ∀ x ∈ served creds .start rs, isGuess creds x = true → x.2 = .unauthorized := by
      intro x hx hguess
      obtain ⟨pre, post, hrs, hout⟩ := mem_served_iff.mp hx
      rw [hout]
      exact unauthorized_of_isGuess (h pre x.1 post hrs) (hout ▸ hguess)
    refine ⟨fun x hx hview => ?_, fun time htime => countP_isGuess_le hclock hun htime, ?_, ?_,
      fun source => served_filter rs rfl⟩
    · obtain ⟨pre, post, rfl, hout⟩ := mem_served_iff.mp hx
      rw [hview, outcome_eq] at hout
      by_contra hv
      split_ifs at hout
    · rw [events_afterRequests, show GateState.start.events = [] from rfl, List.nil_append]
      congr 1
      refine List.filter_congr fun x hx => ?_
      rw [Bool.eq_iff_iff, decide_eq_true_eq]
      exact ⟨isGuess_of_unauthorized hx, hun x hx⟩
    · rintro pre r post rfl hout
      have hpre : ClockOrder (pre ++ [r]) := by
        refine hclock.sublist (List.Sublist.append_left ?_ pre)
        simp
      rw [← limited_iff hpre]
      by_contra hl
      rw [outcome_eq, if_neg hl] at hout
      split_ifs at hout

/-- An attempt on the administrator's password. -/
def attempt (password : String) (t : ℚ) : AdminRequest where
  remoteAddr := some (py "10.0.0.7")
  role := .admin
  path := py "/admin/devices"
  authorization := some ⟨some (py "admin"), some (py password)⟩
  checkedAt := t
  recordedAt := t
  createdAtMs := 0
  clock := le_rfl

/-- The credentials of a server whose viewer is not configured. -/
def plantCreds : AdminCreds := ⟨some (py "correct horse"), none⟩

/-- **Six guesses in one second**, none of them recorded: the password is not ASCII. -/
theorem not_bruteForceBound_of_nonAscii :
    ClockOrder (List.replicate 6 (attempt "é" 0)) ∧
      ¬ BruteForceBound plantCreds (List.replicate 6 (attempt "é" 0)) := by
  refine ⟨List.pairwise_replicate.mpr (.inr le_rfl), fun h => ?_⟩
  have hsix := h.bounded AdminRequest.checkedAt
    (fun r hr => by rw [List.eq_of_mem_replicate hr]; exact ⟨le_rfl, le_rfl⟩) (py "10.0.0.7") 0
  revert hsix
  decide +kernel

theorem bruteForceBound_iff_attempts :
    BruteForceBound plantCreds [attempt "guess" 0, attempt "correct horse" 1] := by
  refine (bruteForceBound_iff plantCreds _ (by simp [ClockOrder, attempt])).mpr ?_
  have hall : ∀ r ∈ [attempt "guess" 0, attempt "correct horse" 1],
      r.comparable plantCreds = true := by simp +decide
  rintro pre r post hrs - -
  exact hall r (by simp [hrs])

end Server
end CovioFirmware
