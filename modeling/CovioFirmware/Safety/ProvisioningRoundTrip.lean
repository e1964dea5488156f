import CovioFirmware.Device.Provisioning

/-!
# What the device stores of what the operator typed

`JSON.stringify` escapes quotes, backslashes and control characters, and the device's
extractor neither undoes an escape nor knows where a string ends if a quote stands in
it.  So a text is read back exactly if nothing in it is escaped (`readBack_iff`).

There is a second way to go wrong.  The extractor looks for a quoted key, and an SSID
or a password that happens to be the name of a later key is found first; what is then
read is the next value.  For some keys this is the right one all the same.
`stores_iff` puts the two together.
-/

namespace CovioFirmware
namespace Device

open JsonText Text

/-- What the extractor makes of the value of a text. -/
def readBack (s : List Char) : List Char :=
  (escaped scriptEscapes s ++ ['"']).takeWhile (· ≠ '"')

/-- **A text is read back** exactly if nothing in it is escaped. -/
theorem readBack_iff {s : List Char} : readBack s = s ↔ Plain s := by
  constructor
  · intro h
    have hquote : '"' ∉ s := by
      rw [← h]
      exact fun hc => by simpa using List.mem_takeWhile_imp hc
    have hescaped : '"' ∉ escaped scriptEscapes s :=
      notMem_escaped (.inr hquote) (fun _ => hquote) (by decide) (by decide)
    rw [readBack, Upgrade.takeWhile_quote hescaped] at h
    exact escaped_eq_self_iff.mp h
  · intro h
    rw [readBack, escaped_of_plain h, Upgrade.takeWhile_quote h.quote_notMem]

/-! ## The search for a key among the members -/

/-- The four keys. -/
def configKeys : List (List Char) :=
  ["wifi_ssid".toList, "wifi_pass".toList, "server_url".toList, "api_key".toList]

theorem searchKey_of_mem {key : List Char} (h : key ∈ configKeys) : SearchKey compact key := by
  have hall : ∀ key ∈ configKeys, '"' ∉ key ∧ ':' ∉ key ∧ compact.separator ≠ key := by decide
  exact ⟨(hall key h).1, (hall key h).2.1, (hall key h).2.2⟩

variable {f : WifiConfig}

theorem nul_notMem_postConfigBody : '\x00' ∉ postConfigBody f := by
  refine ObjectStyle.nul_notMem_object (by decide) ?_
  simp only [List.forall_mem_cons, nul_notMem_string (show scriptEscapes '\x00' = true by decide),
    not_false_eq_true, and_true]
  decide

/-- A member whose value is plain, and neither of whose texts is the key, is passed. -/
theorem passes_of_plain {key k s : List Char} (hk : k ∈ configKeys) (hne : k ≠ key)
    (hs : Plain s) (hsne : s ≠ key) : Passes key (k, string scriptEscapes s) := by
  refine ⟨⟨(searchKey_of_mem hk).quote, hne⟩, .inr ⟨s, ?_, hs.quote_notMem, hsne⟩⟩
  rw [string, escaped_of_plain hs]

/-- The value of a located member. -/
theorem extractStr_of_located {key s rest : List Char}
    (h : fieldText key (postConfigBody f) =
      some (compact.gap ++ string scriptEscapes s ++ rest)) :
    Upgrade.extractStr (postConfigBody f) key = readBack s :=
  Upgrade.extractStr_of_fieldText h (by decide)

/-- The value found behind a member that has the key's name for its value. -/
theorem extractStr_of_value (pre : List (List Char × List Char)) {post}
    {key k k' s t : List Char}
    (hbody : postConfigBody f = compact.object (pre ++ (k, string scriptEscapes t) ::
      (k', string scriptEscapes s) :: post))
    (hkey : key ∈ configKeys) (hk : k ∈ configKeys) (hk' : k' ∈ configKeys) (hne : k ≠ key)
    (hpre : ∀ g ∈ pre, Passes key g) (ht : t = key) :
    Upgrade.extractStr (postConfigBody f) key = readBack s := by
  have hplain : ∀ key ∈ configKeys, Plain key := by decide +kernel
  subst ht
  rw [string, escaped_of_plain (hplain t hkey)] at hbody
  have hfound := fieldText_object_of_value (searchKey_of_mem hkey) hpre
    ⟨(searchKey_of_mem hk).quote, hne⟩ (searchKey_of_mem hk').colon
    (hbody ▸ nul_notMem_postConfigBody)
  rw [← hbody] at hfound
  exact extractStr_of_located hfound

/-- The value found at the key itself. -/
theorem extractStr_of_key (pre : List (List Char × List Char)) {post} {key s : List Char}
    (hbody : postConfigBody f = compact.object (pre ++ (key, string scriptEscapes s) :: post))
    (hkey : key ∈ configKeys) (hpre : ∀ g ∈ pre, Passes key g) :
    Upgrade.extractStr (postConfigBody f) key = readBack s := by
  have hfound := fieldText_object (searchKey_of_mem hkey) hpre (hbody ▸ nul_notMem_postConfigBody)
  rw [← hbody] at hfound
  exact extractStr_of_located hfound

/-! ## The four fields -/

theorem configFields_wifiSsid : (configFields (postConfigBody f)).wifiSsid = readBack f.wifiSsid :=
  extractStr_of_key [] rfl (by decide) (by simp)

theorem configFields_wifiPass (hssid : Plain f.wifiSsid) :
    (configFields (postConfigBody f)).wifiPass = readBack f.wifiPass := by
  by_cases h : f.wifiSsid = "wifi_pass".toList
  · exact extractStr_of_value [] rfl (by decide) (by decide) (by decide) (by decide)
      (by simp) h
  · refine extractStr_of_key [_] rfl (by decide) ?_
    rw [List.forall_mem_singleton]
    exact passes_of_plain (by decide) (by decide) hssid h

theorem configFields_serverUrl (hssid : Plain f.wifiSsid) (hpass : Plain f.wifiPass) :
    (configFields (postConfigBody f)).serverUrl =
      readBack (if f.wifiSsid = "server_url".toList then f.wifiPass else f.serverUrl) := by
  split_ifs with h
  · exact extractStr_of_value [] rfl (by decide) (by decide) (by decide) (by decide)
      (by simp) h
  · have hfirst : Passes "server_url".toList ("wifi_ssid".toList, string scriptEscapes f.wifiSsid) :=
      passes_of_plain (by decide) (by decide) hssid h
    by_cases h' : f.wifiPass = "server_url".toList
    · refine extractStr_of_value [_] rfl (by decide) (by decide) (by decide) (by decide)
        ?_ h'
      exact List.forall_mem_singleton.mpr hfirst
    · refine extractStr_of_key [_, _] rfl (by decide) ?_
      rw [List.forall_mem_cons, List.forall_mem_singleton]
      exact ⟨hfirst, passes_of_plain (by decide) (by decide) hpass h'⟩

theorem configFields_apiKey (hssid : Plain f.wifiSsid) (hpass : Plain f.wifiPass)
    (hurl : Plain f.serverUrl) (hkey : f.serverUrl ≠ "api_key".toList) :
    (configFields (postConfigBody f)).apiKey =
      readBack (if f.wifiSsid = "api_key".toList then f.wifiPass
        else if f.wifiPass = "api_key".toList then f.serverUrl else f.apiKey) := by
  split_ifs with h h'
  · exact extractStr_of_value [] rfl (by decide) (by decide) (by decide) (by decide)
      (by simp) h
  · refine extractStr_of_value [_] rfl (by decide) (by decide) (by decide) (by decide)
      ?_ h'
    exact List.forall_mem_singleton.mpr
      (passes_of_plain (by decide) (by decide) hssid h)
  · refine extractStr_of_key [_, _, _] rfl (by decide) ?_
    rw [List.forall_mem_cons, List.forall_mem_cons, List.forall_mem_singleton]
    exact ⟨passes_of_plain (by decide) (by decide) hssid h,
      passes_of_plain (by decide) (by decide) hpass h',
      passes_of_plain (by decide) (by decide) hurl hkey⟩

/-! ## The round trip -/

/-- What the operator has to enter for the device to read it. -/
structure Transmissible (f : WifiConfig) : Prop where
  ssid : Plain f.wifiSsid
  pass : Plain f.wifiPass
  url : Plain f.serverUrl
  key : Plain f.apiKey
  /-- An SSID that is the name of a later key leads to the password. -/
  ssid_url : f.wifiSsid = "server_url".toList → f.wifiPass = f.serverUrl
  ssid_key : f.wifiSsid = "api_key".toList → f.wifiPass = f.apiKey
  /-- A password that is the name of the last key leads to the URL. -/
  pass_key : f.wifiSsid ≠ "api_key".toList → f.wifiPass = "api_key".toList →
    f.serverUrl = f.apiKey

/-- The device reads the fields exactly if they are transmissible. -/
theorem configFields_eq_iff (hkey : f.serverUrl ≠ "api_key".toList) :
    configFields (postConfigBody f) = f ↔ Transmissible f := by
  constructor
  · intro h
    have hssid : Plain f.wifiSsid :=
      readBack_iff.mp (configFields_wifiSsid.symm.trans (congrArg WifiConfig.wifiSsid h))
    have hpass : Plain f.wifiPass :=
      readBack_iff.mp ((configFields_wifiPass hssid).symm.trans (congrArg WifiConfig.wifiPass h))
    have hurl := (configFields_serverUrl hssid hpass).symm.trans (congrArg WifiConfig.serverUrl h)
    have hplain : Plain f.serverUrl ∧
        (f.wifiSsid = "server_url".toList → f.wifiPass = f.serverUrl) := by
      split_ifs at hurl with hs
      · rw [readBack_iff.mpr hpass] at hurl
        exact ⟨hurl ▸ hpass, fun _ => hurl⟩
      · exact ⟨readBack_iff.mp hurl, fun hc => absurd hc hs⟩
    have hapi := (configFields_apiKey hssid hpass hplain.1 hkey).symm.trans
      (congrArg WifiConfig.apiKey h)
    split_ifs at hapi with hs hp
    · rw [readBack_iff.mpr hpass] at hapi
      exact ⟨hssid, hpass, hplain.1, hapi ▸ hpass, hplain.2, fun _ => hapi, fun hc => absurd hs hc⟩
    · rw [readBack_iff.mpr hplain.1] at hapi
      exact ⟨hssid, hpass, hplain.1, hapi ▸ hplain.1, hplain.2, fun hc => absurd hc hs,
        fun _ _ => hapi⟩
    · exact ⟨hssid, hpass, hplain.1, readBack_iff.mp hapi, hplain.2, fun hc => absurd hc hs,
        fun _ hc => absurd hc hp⟩
  · intro h
    ext1
    · rw [configFields_wifiSsid, readBack_iff.mpr h.ssid]
    · rw [configFields_wifiPass h.ssid, readBack_iff.mpr h.pass]
    · rw [configFields_serverUrl h.ssid h.pass]
      split_ifs with hs
      · rw [readBack_iff.mpr h.pass, h.ssid_url hs]
      · exact readBack_iff.mpr h.url
    · rw [configFields_apiKey h.ssid h.pass h.url hkey]
      split_ifs with hs hp
      · rw [readBack_iff.mpr h.pass, h.ssid_key hs]
      · rw [readBack_iff.mpr h.url, h.pass_key hs hp]
      · exact readBack_iff.mpr h.key

/-- **The round trip** of a valid configuration succeeds exactly if nothing in it is
escaped, and neither the SSID nor the password leads the search for a later key to a
value other than this key's. -/
theorem stores_iff (nvs f : WifiConfig)
    (hnonempty : f.wifiSsid ≠ [] ∧ f.wifiPass ≠ [] ∧ f.serverUrl ≠ [] ∧ f.apiKey ≠ [])
    (hurl : "http://".toList <+: f.serverUrl ∨ "https://".toList <+: f.serverUrl) :
    handleConfigApi nvs (postConfigBody f) = (f, .success) ↔ Transmissible f := by
  have hkey : f.serverUrl ≠ "api_key".toList := by
    intro h
    rw [h] at hurl
    exact absurd hurl (by decide)
  rw [handleConfigApi_eq_iff, configFields_eq_iff hkey, and_iff_left]
  exact validateFields_eq_none_iff.mpr ⟨hnonempty, hurl⟩

/-- A network as a site may have it. -/
def siteConfig (pass : String) : WifiConfig where
  wifiSsid := "Plant 7".toList
  wifiPass := pass.toList
  serverUrl := "https://covio.example".toList
  apiKey := "k1".toList

theorem stores_iff_siteConfig : handleConfigApi (siteConfig "old") (postConfigBody
    (siteConfig "correct horse")) = (siteConfig "correct horse", .success) :=
  (stores_iff (siteConfig "old") (siteConfig "correct horse") (by decide) (by decide)).mpr
    ⟨by decide +kernel, by decide +kernel, by decide +kernel, by decide +kernel, by decide,
      by decide, by decide⟩

/-- **A password with a quote** is cut off at it, and the answer reports success. -/
theorem not_stores_of_quote : validateFields (siteConfig "open\"sesame") = none ∧
    handleConfigApi (siteConfig "old") (postConfigBody (siteConfig "open\"sesame")) =
      (siteConfig "open\\", .success) ∧
    siteConfig "open\\" ≠ siteConfig "open\"sesame" := by
  decide +kernel

end Device
end CovioFirmware
