import CovioFirmware.Crash.Log
import Mathlib.Data.UInt

/-!
# The update side of the device and its surroundings

What the update and boot-health code does to the outside world: the security
namespace of the NVS (`store.h`), the boot states of `esp_ota_ops.h`, the HTTP
client of `ota.h`, the `Update` object and the clock.

Each value of the NVS is written as a whole, as `Preferences` promises: power lost
during a write leaves the old value or the new one.  The network, the clock and
the boot states answer anything.  An `Update` that was begun keeps the bytes it
accepts, in order; ending it makes them the image the device boots next, and
nothing else does, except a rollback, which returns to an image of its own choice.
-/

namespace CovioFirmware
namespace Upgrade

open Crash

/-- Bytes. -/
abbrev Data := List UInt8

/-- The version pair compiled into an image: `FW_VERSION` and
`FW_SECURITY_VERSION`. -/
structure Image where
  version : List Char
  securityVersion : Int32
  deriving DecidableEq

/-- The security namespace of the NVS, which no factory reset clears. -/
structure SecurityNvs where
  /-- `NVS_KEY_SEC_VER`: the floor below which no image is accepted. -/
  secVer : UInt32
  /-- `NVS_KEY_LAST_OK_VER`, `NVS_KEY_LAST_OK_SECVER`: the version pair confirmed
  last. -/
  lastOkVer : List Char
  lastOkSecVer : UInt32
  /-- `NVS_KEY_UNHEALTHY_STRK`. -/
  unhealthyStreak : UInt32
  deriving DecidableEq

/-- The values read from an empty namespace. -/
def SecurityNvs.empty : SecurityNvs := ⟨0, [], 0, 0⟩

/-- The calls. -/
inductive Call where
  /-- Reading the security namespace. -/
  | nvs : Call
  | putSecVer (v : UInt32) : Call
  | putLastOkVer (v : List Char) : Call
  | putLastOkSecVer (v : UInt32) : Call
  | putUnhealthyStreak (v : UInt32) : Call
  /-- `p_.getString(NVS_KEY_SERVER_URL)`. -/
  | serverUrl : Call
  /-- `p_.clear()`: the other namespace. -/
  | clear : Call
  /-- `esp_ota_get_state_partition`: whether the image is on trial, `none` on an
  error. -/
  | imgState : Call
  /-- `esp_ota_mark_app_valid_cancel_rollback() == ESP_OK`. -/
  | markAppValid : Call
  /-- `esp_ota_mark_app_invalid_rollback_and_reboot`; returns only where there is
  nothing to roll back to. -/
  | rollbackAndReboot : Call
  | millis : Call
  | httpBegin (url : List Char) : Call
  /-- `http.GET`. -/
  | httpGet : Call
  | httpSize : Call
  | httpString : Call
  /-- `stream->available()`. -/
  | available : Call
  | connected : Call
  | readBytes (n : ℕ) : Call
  /-- `serviceCb_()`: the background service, which acts on nothing the routines here
  read. -/
  | service : Call
  | delay (ms : ℕ) : Call
  | updateBegin (size : ℕ) : Call
  | updateWrite (data : Data) : Call
  | updateAbort : Call
  /-- `Update.end(true)`. -/
  | updateEnd : Call
  /-- `ESP.restart()`. -/
  | restart : Call
  deriving DecidableEq

/-- The answers. -/
def Call.Reply : Call → Type
  | .nvs => SecurityNvs
  | .serverUrl => List Char
  | .imgState => Option Bool
  | .markAppValid => Bool
  | .millis => UInt32
  | .httpBegin _ => Bool
  | .httpGet => ℤ
  | .httpSize => ℤ
  | .httpString => List Char
  | .available => ℕ
  | .connected => Bool
  | .readBytes _ => Data
  | .updateBegin _ => Bool
  | .updateWrite _ => ℕ
  | .updateEnd => Bool
  | _ => Unit

/-- Routines of the update side. -/
abbrev Fw := Prog Call Call.Reply

/-- What the calls act on. -/
structure World where
  nvs : SecurityNvs
  /-- The bytes the `Update` under way has accepted. -/
  session : Option Data
  /-- The image the device boots next. -/
  boot : Data

namespace World

/-- Writing one value of the security namespace. -/
def putSecVer (w : World) (v : UInt32) : World := { w with nvs := { w.nvs with secVer := v } }

def putLastOkVer (w : World) (v : List Char) : World :=
  { w with nvs := { w.nvs with lastOkVer := v } }

def putLastOkSecVer (w : World) (v : UInt32) : World :=
  { w with nvs := { w.nvs with lastOkSecVer := v } }

def putUnhealthyStreak (w : World) (v : UInt32) : World :=
  { w with nvs := { w.nvs with unhealthyStreak := v } }

end World

/-- The answers and effects of completed calls. -/
def reply : (c : Call) → World → c.Reply → World → Prop
  | .nvs, w, r, w' => r = w.nvs ∧ w' = w
  | .putSecVer v, w, _, w' => w' = w.putSecVer v
  | .putLastOkVer v, w, _, w' => w' = w.putLastOkVer v
  | .putLastOkSecVer v, w, _, w' => w' = w.putLastOkSecVer v
  | .putUnhealthyStreak v, w, _, w' => w' = w.putUnhealthyStreak v
  | .readBytes n, w, r, w' => List.length r ≤ n ∧ w' = w
  | .updateBegin _, w, r, w' =>
      (r = true ∧ w' = { w with session := some [] }) ∨
      (r = false ∧ w' = { w with session := none })
  | .updateWrite d, w, r, w' =>
      ∃ k ≤ d.length, r = k ∧ w' = { w with session := w.session.map (· ++ d.take k) }
  | .updateAbort, w, _, w' => w' = { w with session := none }
  | .updateEnd, w, r, w' =>
      (r = true ∧ ∃ b, w.session = some b ∧ w' = { w with session := none, boot := b }) ∨
      (r = false ∧ w' = { w with session := none })
  | _, w, _, w' => w' = w

/-- What power lost inside a call may leave. -/
def torn : Call → World → World → Prop
  | .putSecVer v, w, w' => w' = w ∨ w' = w.putSecVer v
  | .putLastOkVer v, w, w' => w' = w ∨ w' = w.putLastOkVer v
  | .putLastOkSecVer v, w, w' => w' = w ∨ w' = w.putLastOkSecVer v
  | .putUnhealthyStreak v, w, w' => w' = w ∨ w' = w.putUnhealthyStreak v
  | .rollbackAndReboot, w, w' => w' = w ∨ ∃ b, w' = { w with boot := b }
  | .updateEnd, w, w' => w' = w ∨ ∃ b, w.session = some b ∧ w' = { w with boot := b }
  | _, w, w' => w' = w

/-- The semantics of the routines. -/
def sem : Sem Call Call.Reply World := ⟨reply, torn⟩

/-! The calls as routines of their own. -/

namespace Fw

def nvs : Fw SecurityNvs := Prog.lift Call.nvs
def putSecVer (v : UInt32) : Fw Unit := Prog.lift (Call.putSecVer v)
def putLastOkVer (v : List Char) : Fw Unit := Prog.lift (Call.putLastOkVer v)
def putLastOkSecVer (v : UInt32) : Fw Unit := Prog.lift (Call.putLastOkSecVer v)
def putUnhealthyStreak (v : UInt32) : Fw Unit := Prog.lift (Call.putUnhealthyStreak v)
def serverUrl : Fw (List Char) := Prog.lift Call.serverUrl
def clear : Fw Unit := Prog.lift Call.clear
def imgState : Fw (Option Bool) := Prog.lift Call.imgState
def markAppValid : Fw Bool := Prog.lift Call.markAppValid
def rollbackAndReboot : Fw Unit := Prog.lift Call.rollbackAndReboot
def millis : Fw UInt32 := Prog.lift Call.millis
def httpBegin (url : List Char) : Fw Bool := Prog.lift (Call.httpBegin url)
def httpGet : Fw ℤ := Prog.lift Call.httpGet
def httpSize : Fw ℤ := Prog.lift Call.httpSize
def httpString : Fw (List Char) := Prog.lift Call.httpString
def available : Fw ℕ := Prog.lift Call.available
def connected : Fw Bool := Prog.lift Call.connected
def readBytes (n : ℕ) : Fw Data := Prog.lift (Call.readBytes n)
def service : Fw Unit := Prog.lift Call.service
def delay (ms : ℕ) : Fw Unit := Prog.lift (Call.delay ms)
def updateBegin (size : ℕ) : Fw Bool := Prog.lift (Call.updateBegin size)
def updateWrite (data : Data) : Fw ℕ := Prog.lift (Call.updateWrite data)
def updateAbort : Fw Unit := Prog.lift Call.updateAbort
def updateEnd : Fw Bool := Prog.lift Call.updateEnd
def restart : Fw Unit := Prog.lift Call.restart

variable {α : Type}

@[simp] theorem nvs_bind (f : SecurityNvs → Fw α) :
    (nvs >>= f) = .call .nvs f := rfl

@[simp] theorem putSecVer_bind (v : UInt32) (f : Unit → Fw α) :
    (putSecVer v >>= f) = .call (.putSecVer v) f := rfl

@[simp] theorem putLastOkVer_bind (v : List Char) (f : Unit → Fw α) :
    (putLastOkVer v >>= f) = .call (.putLastOkVer v) f := rfl

@[simp] theorem putLastOkSecVer_bind (v : UInt32) (f : Unit → Fw α) :
    (putLastOkSecVer v >>= f) = .call (.putLastOkSecVer v) f := rfl

@[simp] theorem putUnhealthyStreak_bind (v : UInt32) (f : Unit → Fw α) :
    (putUnhealthyStreak v >>= f) = .call (.putUnhealthyStreak v) f := rfl

@[simp] theorem serverUrl_bind (f : List Char → Fw α) :
    (serverUrl >>= f) = .call .serverUrl f := rfl

@[simp] theorem imgState_bind (f : Option Bool → Fw α) :
    (imgState >>= f) = .call .imgState f := rfl

@[simp] theorem markAppValid_bind (f : Bool → Fw α) :
    (markAppValid >>= f) = .call .markAppValid f := rfl

@[simp] theorem rollbackAndReboot_bind (f : Unit → Fw α) :
    (rollbackAndReboot >>= f) = .call .rollbackAndReboot f := rfl

@[simp] theorem millis_bind (f : UInt32 → Fw α) :
    (millis >>= f) = .call .millis f := rfl

@[simp] theorem httpBegin_bind (url : List Char) (f : Bool → Fw α) :
    (httpBegin url >>= f) = .call (.httpBegin url) f := rfl

@[simp] theorem httpGet_bind (f : ℤ → Fw α) :
    (httpGet >>= f) = .call .httpGet f := rfl

@[simp] theorem httpSize_bind (f : ℤ → Fw α) :
    (httpSize >>= f) = .call .httpSize f := rfl

@[simp] theorem httpString_bind (f : List Char → Fw α) :
    (httpString >>= f) = .call .httpString f := rfl

@[simp] theorem available_bind (f : ℕ → Fw α) :
    (available >>= f) = .call .available f := rfl

@[simp] theorem connected_bind (f : Bool → Fw α) :
    (connected >>= f) = .call .connected f := rfl

@[simp] theorem readBytes_bind (n : ℕ) (f : Data → Fw α) :
    (readBytes n >>= f) = .call (.readBytes n) f := rfl

@[simp] theorem service_bind (f : Unit → Fw α) :
    (service >>= f) = .call .service f := rfl

@[simp] theorem delay_bind (ms : ℕ) (f : Unit → Fw α) :
    (delay ms >>= f) = .call (.delay ms) f := rfl

@[simp] theorem updateBegin_bind (size : ℕ) (f : Bool → Fw α) :
    (updateBegin size >>= f) = .call (.updateBegin size) f := rfl

@[simp] theorem updateWrite_bind (data : Data) (f : ℕ → Fw α) :
    (updateWrite data >>= f) = .call (.updateWrite data) f := rfl

@[simp] theorem updateAbort_bind (f : Unit → Fw α) :
    (updateAbort >>= f) = .call .updateAbort f := rfl

@[simp] theorem updateEnd_bind (f : Bool → Fw α) :
    (updateEnd >>= f) = .call .updateEnd f := rfl

@[simp] theorem restart_bind (f : Unit → Fw α) :
    (restart >>= f) = .call .restart f := rfl

end Fw

/-! ## One rule per kind of call -/

section Rules

variable {α : Type} {Q : α → World → Prop} {C : World → Prop} {w : World}

theorem wp_nvs {k : SecurityNvs → Fw α} (h : wp sem (k w.nvs) Q C w) :
    wp sem (.call .nvs k) Q C w := by
  refine wp_call (wp_here h) ?_ ?_
  · rintro _ rfl
    exact wp_here h
  · rintro r _ ⟨rfl, rfl⟩
    exact h

/-- A write to the security namespace, under the effect it has. -/
theorem wp_put {c : Call} {k : c.Reply → Fw α} {w1 : World}
    (hcut : ∀ w', torn c w w' ↔ w' = w ∨ w' = w1) (hpost : ∀ r w', reply c w r w' ↔ w' = w1)
    (hC : C w) (h : ∀ r, wp sem (k r) Q C w1) (hr : Nonempty c.Reply) :
    wp sem (.call c k) Q C w := by
  refine wp_call hC ?_ ?_
  · intro w' hw'
    rcases (hcut w').mp hw' with rfl | rfl
    · exact hC
    · exact wp_here (h hr.some)
  · intro r w' hw'
    rw [(hpost r w').mp hw']
    exact h r

/-- A call that only reports something. -/
theorem wp_sense {c : Call} {k : c.Reply → Fw α} (hcut : ∀ w', torn c w w' → w' = w)
    (hpost : ∀ r w', reply c w r w' → w' = w) (hC : C w) (h : ∀ r, wp sem (k r) Q C w) :
    wp sem (.call c k) Q C w := by
  refine wp_call hC ?_ ?_
  · intro w' hw'
    rw [hcut w' hw']
    exact hC
  · intro r w' hw'
    rw [hpost r w' hw']
    exact h r

end Rules

/-! ## One answer to every call -/

/-- What a call answers on a device with one partition and no network: writes
succeed, nothing is on trial, and there is nothing to roll back to. -/
def respond : (c : Call) → World → c.Reply × World
  | .nvs, w => (w.nvs, w)
  | .putSecVer v, w => ((), w.putSecVer v)
  | .putLastOkVer v, w => ((), w.putLastOkVer v)
  | .putLastOkSecVer v, w => ((), w.putLastOkSecVer v)
  | .putUnhealthyStreak v, w => ((), w.putUnhealthyStreak v)
  | .serverUrl, w => (([] : List Char), w)
  | .clear, w => ((), w)
  | .imgState, w => ((some false : Option Bool), w)
  | .markAppValid, w => (true, w)
  | .rollbackAndReboot, w => ((), w)
  | .millis, w => ((0 : UInt32), w)
  | .httpBegin _, w => (false, w)
  | .httpGet, w => ((-1 : ℤ), w)
  | .httpSize, w => ((-1 : ℤ), w)
  | .httpString, w => (([] : List Char), w)
  | .available, w => ((0 : ℕ), w)
  | .connected, w => (false, w)
  | .readBytes _, w => (([] : Data), w)
  | .service, w => ((), w)
  | .delay _, w => ((), w)
  | .updateBegin _, w => (false, { w with session := none })
  | .updateWrite _, w => ((0 : ℕ), { w with session := w.session.map (· ++ []) })
  | .updateAbort, w => ((), { w with session := none })
  | .updateEnd, w => (false, { w with session := none })
  | .restart, w => ((), w)

theorem respond_reply (c : Call) (w : World) : reply c w (respond c w).1 (respond c w).2 := by
  cases c with
  | nvs => exact ⟨rfl, rfl⟩
  | readBytes n => exact ⟨Nat.zero_le _, rfl⟩
  | updateBegin n => exact .inr ⟨rfl, rfl⟩
  | updateWrite d => exact ⟨0, Nat.zero_le _, rfl, rfl⟩
  | updateEnd => exact .inr ⟨rfl, rfl⟩
  | _ => exact rfl

/-- A routine run with those answers. -/
def execute {α : Type} (p : Fw α) (w : World) : α × World := p.exec respond w

theorem execute_runs {α : Type} (p : Fw α) (w : World) :
    Runs sem p w (execute p w).1 (execute p w).2 :=
  Prog.exec_runs (I := fun _ => True) (fun c w _ => ⟨respond_reply c w, trivial⟩) p trivial

end Upgrade
end CovioFirmware
