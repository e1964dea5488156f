import CovioFirmware.Bytes.FieldSearch
import CovioFirmware.Upgrade.Signing

/-!
# Provisioning over WiFi

The device's setup portal, `wifi_provision.h`.  Two requests write the four strings of
the configuration: the form of the captive portal (`handleSubmit_`), whose arguments
the web server decodes, and the JSON endpoint of the device manager
(`handleConfigApi_`), whose body is read by the extractor of the update manifest.  The
device manager builds that body with `JSON.stringify` (`postConfig` of
`deviceClient.js`).

Texts are sequences of characters, on the wire and in NVS in UTF-8; the searched
characters are ASCII, so that a search among bytes and one among characters are the
same.
-/

namespace CovioFirmware
namespace Device

open JsonText

/-- The four strings, as the device manager submits them and as NVS holds them. -/
@[ext] structure WifiConfig where
  wifiSsid : List Char
  wifiPass : List Char
  serverUrl : List Char
  apiKey : List Char
  deriving DecidableEq

/-- The body `postConfig` sends. -/
def postConfigBody (f : WifiConfig) : List Char :=
  compact.object [("wifi_ssid".toList, string scriptEscapes f.wifiSsid),
    ("wifi_pass".toList, string scriptEscapes f.wifiPass),
    ("server_url".toList, string scriptEscapes f.serverUrl),
    ("api_key".toList, string scriptEscapes f.apiKey)]

/-- The `errCode` of `validateFields_`. -/
inductive ConfigError where
  | missingField | invalidUrl
  deriving DecidableEq

def ConfigError.code : ConfigError → List Char
  | .missingField => "CONFIG_MISSING_FIELD".toList
  | .invalidUrl => "CONFIG_INVALID_URL".toList

def ConfigError.message : ConfigError → List Char
  | .missingField =>
      "wifi_ssid, wifi_pass, server_url, and api_key are all required together".toList
  | .invalidUrl => "server_url must start with http:// or https://".toList

/-- `validateFields_`, `none` if the fields are valid. -/
def validateFields (f : WifiConfig) : Option ConfigError :=
  if f.wifiSsid.isEmpty ∨ f.wifiPass.isEmpty ∨ f.serverUrl.isEmpty ∨ f.apiKey.isEmpty then
    some .missingField
  else if "http://".toList <+: f.serverUrl ∨ "https://".toList <+: f.serverUrl then none
  else some .invalidUrl

/-- An answer: its status and its body. -/
structure Answer where
  status : ℕ
  body : List Char
  deriving DecidableEq

/-- The answer to a configuration that was written. -/
def Answer.success : Answer := ⟨200, compact.object [("success".toList, "true".toList)]⟩

/-- The answer to a configuration that was refused. -/
def Answer.refusal (e : ConfigError) : Answer where
  status := 400
  body := compact.object [("error".toList, compact.object
    [("code".toList, Text.quoted e.code), ("message".toList, Text.quoted e.message)])]

/-- The fields `handleConfigApi_` reads from a body. -/
def configFields (body : List Char) : WifiConfig where
  wifiSsid := Upgrade.extractStr body "wifi_ssid".toList
  wifiPass := Upgrade.extractStr body "wifi_pass".toList
  serverUrl := Upgrade.extractStr body "server_url".toList
  apiKey := Upgrade.extractStr body "api_key".toList

/-- `handleConfigApi_`, up to the restart: what NVS holds afterwards, and the answer. -/
def handleConfigApi (nvs : WifiConfig) (body : List Char) : WifiConfig × Answer :=
  match validateFields (configFields body) with
  | some e => (nvs, .refusal e)
  | none => (configFields body, .success)

/-- `handleSubmit_`, up to the page that is sent; `connects` is the live test of the
credentials. -/
def handleSubmit (connects : List Char → List Char → Bool) (nvs : WifiConfig)
    (args : WifiConfig) : WifiConfig × Bool :=
  match validateFields args with
  | some _ => (nvs, false)
  | none => if connects args.wifiSsid args.wifiPass then (args, true) else (nvs, false)

/-! ## The fields are stored or the request is refused -/

theorem validateFields_eq_none_iff {f : WifiConfig} : validateFields f = none ↔
    (f.wifiSsid ≠ [] ∧ f.wifiPass ≠ [] ∧ f.serverUrl ≠ [] ∧ f.apiKey ≠ []) ∧
      ("http://".toList <+: f.serverUrl ∨ "https://".toList <+: f.serverUrl) := by
  unfold validateFields
  simp only [List.isEmpty_iff]
  split_ifs with hmissing hurl
  · exact iff_of_false (by simp) fun h => by tauto
  · exact iff_of_true rfl ⟨by tauto, hurl⟩
  · exact iff_of_false (by simp) fun h => hurl h.2

/-- A request succeeds exactly with valid fields, and then they are what is stored. -/
theorem handleConfigApi_eq_iff {nvs : WifiConfig} {f : WifiConfig} {body : List Char} :
    handleConfigApi nvs body = (f, .success) ↔
      configFields body = f ∧ validateFields f = none := by
  unfold handleConfigApi
  cases h : validateFields (configFields body) with
  | none =>
    constructor
    · rintro hf
      obtain rfl := (Prod.mk.inj hf).1
      exact ⟨rfl, h⟩
    · rintro ⟨rfl, -⟩
      rfl
  | some e =>
    constructor
    · intro hf
      have hstatus := congrArg Answer.status (Prod.mk.inj hf).2
      exact absurd hstatus (by simp [Answer.refusal, Answer.success])
    · rintro ⟨rfl, hf⟩
      rw [h] at hf
      cases hf

/-- The form stores what was typed. -/
theorem handleSubmit_stores {connects : List Char → List Char → Bool} {nvs args : WifiConfig}
    (h : (handleSubmit connects nvs args).2 = true) :
    (handleSubmit connects nvs args).1 = args := by
  unfold handleSubmit at h ⊢
  split at h
  · cases h
  · split_ifs at h ⊢
    rfl

end Device
end CovioFirmware
