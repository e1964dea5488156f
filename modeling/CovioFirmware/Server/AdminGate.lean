import CovioFirmware.Server.Events
import CovioFirmware.Server.SlidingWindow

/-!
# `require_admin`

The gate in front of every `/admin/*` view: HTTP Basic credentials, compared in
constant time, behind a limiter of the failures of one source.  The limiter lives in
the memory of the process, the events it records in the database.

`secrets.compare_digest` takes two strings only if both are ASCII, and raises a
`TypeError` otherwise.  Nothing catches it: the request ends with status 500, and the
step that records a failure is not reached.

Times are the readings of `time.time()`, whose differences of nearby values floating
point computes exactly.
-/

namespace CovioFirmware
namespace Server

open SlidingWindow

/-- The two roles, `ADMIN_ROLES`. -/
inductive Role where
  | admin | viewer
  deriving DecidableEq

/-- `ADMIN_PASSWORD` and `VIEWER_PASSWORD`. -/
structure AdminCreds where
  adminPassword : Option PyStr
  viewerPassword : Option PyStr

/-- `request.authorization`. -/
structure Authorization where
  username : Option PyStr
  password : Option PyStr

/-- `auth.password or ""`. -/
def Authorization.presented (a : Authorization) : PyStr := a.password.getD []

/-- A request for a protected view, with the role the view demands and the clock as the
gate reads it. -/
structure AdminRequest where
  remoteAddr : Option PyStr
  role : Role
  path : PyStr
  authorization : Option Authorization
  /-- Read by `_admin_rate_limited`. -/
  checkedAt : ℚ
  /-- Read by `_record_admin_auth_failure`, if it is reached. -/
  recordedAt : ℚ
  /-- Read by `record_event`, if it is reached. -/
  createdAtMs : ℤ
  clock : checkedAt ≤ recordedAt

/-- `request.remote_addr or "unknown"`. -/
def AdminRequest.source (r : AdminRequest) : PyStr :=
  match r.remoteAddr with
  | none => py "unknown"
  | some [] => py "unknown"
  | some a => a

/-- `ADMIN_RATE_LIMIT_MAX_FAILURES`. -/
def adminRateLimitMaxFailures : ℕ := 5

/-- `ADMIN_RATE_LIMIT_WINDOW_S`. -/
def adminRateLimitWindowS : ℚ := 60

/-- The string consists of ASCII characters. -/
def PyStr.isAscii (s : PyStr) : Bool := s.all fun c => c < 128

/-- `secrets.compare_digest` of two strings; `none` for its `TypeError`. -/
def compareDigest (a b : PyStr) : Option Bool :=
  if a.isAscii ∧ b.isAscii then some (a == b) else none

/-- The password a user name is checked against, `none` if there is none. -/
def AdminCreds.expected (creds : AdminCreds) (role : Role) (a : Authorization) : Option PyStr :=
  if a.username = some (py "admin") ∧ creds.adminPassword.isSome then creds.adminPassword
  else if role = .viewer ∧ a.username = some (py "viewer") then creds.viewerPassword
  else none

/-- The value of `ok`; `none` for the exception. -/
def AdminCreds.check (creds : AdminCreds) (role : Role) : Option Authorization → Option Bool
  | none => some false
  | some a =>
      match creds.expected role a with
      | none => some false
      | some pw => compareDigest a.presented pw

/-- What a request ends with. -/
inductive Outcome where
  /-- The protected view runs. -/
  | view : Outcome
  /-- 401, `ADMIN_AUTH_REQUIRED`. -/
  | unauthorized : Outcome
  /-- 429, `RATE_LIMITED`. -/
  | rateLimited : Outcome
  /-- 500, for an exception. -/
  | error : Outcome
  deriving DecidableEq

/-- `_admin_auth_failures`, and the events the gate has committed. -/
structure GateState where
  failures : PyStr → List ℚ
  events : List DeviceEvent

namespace GateState

/-- A process that has just started. -/
def start : GateState := ⟨fun _ => [], []⟩

/-- The deque of a source replaced. -/
def setFailures (s : GateState) (source : PyStr) (q : List ℚ) : GateState :=
  { s with failures := Function.update s.failures source q }

/-- What `_admin_rate_limited` leaves in the deque of the source. -/
def expired (s : GateState) (r : AdminRequest) : List ℚ :=
  expire adminRateLimitWindowS r.checkedAt (s.failures r.source)

/-- `_admin_rate_limited`. -/
def limited (s : GateState) (r : AdminRequest) : Bool :=
  decide (adminRateLimitMaxFailures ≤ (s.expired r).length)

end GateState

/-- The event of a rejected request. -/
def AdminRequest.authFailed (r : AdminRequest) : DeviceEvent where
  deviceId := none
  eventType := .adminAuthFailed
  severity := .warning
  message := py "Rejected admin request: missing/invalid credentials."
  detail := some (.adminRequest r.path r.source)
  createdAtMs := r.createdAtMs

/-- `_record_admin_auth_failure` and `record_event`. -/
def GateState.reject (s : GateState) (r : AdminRequest) : GateState where
  failures := Function.update s.failures r.source
    (push adminRateLimitMaxFailures r.recordedAt (s.failures r.source))
  events := recordEvent s.events r.authFailed

/-- `wrapped` of `require_admin`. -/
def requireAdmin (creds : AdminCreds) (s : GateState) (r : AdminRequest) : GateState × Outcome :=
  let s' := s.setFailures r.source (s.expired r)
  if s.limited r then (s', .rateLimited)
  else
    match creds.check r.role r.authorization with
    | none => (s', .error)
    | some true => (s', .view)
    | some false => (s'.reject r, .unauthorized)

/-- The state after requests processed one after the other. -/
def afterRequests (creds : AdminCreds) (s : GateState) (rs : List AdminRequest) : GateState :=
  rs.foldl (fun s r => (requireAdmin creds s r).1) s

/-- The requests, each with what it ended with. -/
def served (creds : AdminCreds) : GateState → List AdminRequest → List (AdminRequest × Outcome)
  | _, [] => []
  | s, r :: rs => (r, (requireAdmin creds s r).2) :: served creds (requireAdmin creds s r).1 rs

/-! ## One request -/

variable {creds : AdminCreds} {s : GateState} {r : AdminRequest}

namespace GateState

theorem failures_setFailures (source : PyStr) (q : List ℚ) :
    (s.setFailures source q).failures source = q := Function.update_self ..

theorem failures_setFailures_of_ne {a source : PyStr} (h : a ≠ source) (q : List ℚ) :
    (s.setFailures source q).failures a = s.failures a := Function.update_of_ne h ..

theorem failures_reject : (s.reject r).failures r.source =
    push adminRateLimitMaxFailures r.recordedAt (s.failures r.source) := Function.update_self ..

theorem failures_reject_of_ne {a : PyStr} (h : a ≠ r.source) :
    (s.reject r).failures a = s.failures a := Function.update_of_ne h ..

end GateState

/-- **What a request can do.** -/
theorem requireAdmin_cases (creds : AdminCreds) (s : GateState) (r : AdminRequest) :
    s.limited r = true ∧
        requireAdmin creds s r = (s.setFailures r.source (s.expired r), .rateLimited) ∨
      s.limited r = false ∧ creds.check r.role r.authorization = none ∧
        requireAdmin creds s r = (s.setFailures r.source (s.expired r), .error) ∨
      s.limited r = false ∧ creds.check r.role r.authorization = some true ∧
        requireAdmin creds s r = (s.setFailures r.source (s.expired r), .view) ∨
      s.limited r = false ∧ creds.check r.role r.authorization = some false ∧
        requireAdmin creds s r = ((s.setFailures r.source (s.expired r)).reject r, .unauthorized) := by
  unfold requireAdmin
  cases hlimited : s.limited r with
  | true => simp
  | false =>
    cases hcheck : creds.check r.role r.authorization with
    | none => simp
    | some b => cases b <;> simp

theorem served_append (rs rs' : List AdminRequest) : served creds s (rs ++ rs') =
    served creds s rs ++ served creds (afterRequests creds s rs) rs' := by
  induction rs generalizing s with
  | nil => rfl
  | cons r rs ih => rw [List.cons_append, served, served, ih]; rfl

theorem served_concat (rs : List AdminRequest) (r : AdminRequest) : served creds s (rs ++ [r]) =
    served creds s rs ++ [(r, (requireAdmin creds (afterRequests creds s rs) r).2)] := by
  rw [served_append]
  rfl

theorem afterRequests_concat (rs : List AdminRequest) (r : AdminRequest) :
    afterRequests creds s (rs ++ [r]) = (requireAdmin creds (afterRequests creds s rs) r).1 := by
  rw [afterRequests, List.foldl_append]
  rfl

/-- A request was processed in the state its predecessors left. -/
theorem mem_served_iff {rs : List AdminRequest} {x : AdminRequest × Outcome} :
    x ∈ served creds s rs ↔ ∃ pre post, rs = pre ++ x.1 :: post ∧
      x.2 = (requireAdmin creds (afterRequests creds s pre) x.1).2 := by
  constructor
  · intro h
    induction rs generalizing s with
    | nil => cases h
    | cons r rs ih =>
      rcases List.mem_cons.mp h with rfl | h
      · exact ⟨[], rs, rfl, rfl⟩
      · obtain ⟨pre, post, rfl, hx⟩ := ih h
        exact ⟨r :: pre, post, rfl, hx⟩
  · rintro ⟨pre, post, rfl, hx⟩
    rw [served_append, List.mem_append, served, ← hx]
    exact .inr List.mem_cons_self

/-- The events are those of the rejected requests. -/
theorem events_afterRequests (rs : List AdminRequest) : (afterRequests creds s rs).events =
    s.events ++ ((served creds s rs).filter (·.2 = .unauthorized)).map (·.1.authFailed) := by
  induction rs generalizing s with
  | nil => simp [afterRequests, served]
  | cons r rs ih =>
    rw [afterRequests, List.foldl_cons, ← afterRequests, ih, served]
    rcases requireAdmin_cases creds s r with ⟨-, h⟩ | ⟨-, -, h⟩ | ⟨-, -, h⟩ | ⟨-, -, h⟩ <;>
      simp [h, GateState.setFailures, GateState.reject, recordEvent]

/-- Two processes that agree on a source treat it alike. -/
theorem served_filter {source : PyStr} {t : GateState} (rs : List AdminRequest)
    (h : s.failures source = t.failures source) :
    (served creds s rs).filter (·.1.source = source) =
      served creds t (rs.filter (·.source = source)) := by
  induction rs generalizing s t with
  | nil => rfl
  | cons r rs ih =>
    by_cases hsource : r.source = source
    · have hexpired : s.expired r = t.expired r := by
        rw [GateState.expired, GateState.expired, hsource, h]
      have hlimited : s.limited r = t.limited r := by
        rw [GateState.limited, GateState.limited, hexpired]
      have hstep : (requireAdmin creds s r).2 = (requireAdmin creds t r).2 ∧
          (requireAdmin creds s r).1.failures source =
            (requireAdmin creds t r).1.failures source := by
        subst hsource
        unfold requireAdmin
        rw [hlimited, hexpired]
        split
        · exact ⟨rfl, by rw [GateState.failures_setFailures, GateState.failures_setFailures]⟩
        · split
          · exact ⟨rfl, by rw [GateState.failures_setFailures, GateState.failures_setFailures]⟩
          · exact ⟨rfl, by rw [GateState.failures_setFailures, GateState.failures_setFailures]⟩
          · refine ⟨rfl, ?_⟩
            rw [GateState.failures_reject, GateState.failures_reject,
              GateState.failures_setFailures, GateState.failures_setFailures]
      rw [served, List.filter_cons_of_pos (by simpa using hsource),
        List.filter_cons_of_pos (by simpa using hsource), served, hstep.1, ih hstep.2]
    · have hne : source ≠ r.source := fun h => hsource h.symm
      have hframe : (requireAdmin creds s r).1.failures source = s.failures source := by
        rcases requireAdmin_cases creds s r with ⟨-, h⟩ | ⟨-, -, h⟩ | ⟨-, -, h⟩ | ⟨-, -, h⟩ <;>
          simp only [h, GateState.failures_reject_of_ne hne,
            GateState.failures_setFailures_of_ne hne]
      rw [served, List.filter_cons_of_neg (by simpa using hsource),
        List.filter_cons_of_neg (by simpa using hsource), ih (hframe.trans h)]

end Server
end CovioFirmware
