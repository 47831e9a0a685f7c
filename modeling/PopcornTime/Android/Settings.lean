import Mathlib.Data.Rat.Defs
import PopcornTime.Lib.Machine
import PopcornTime.Android.Config

namespace PopcornTime.Android

open PopcornTime

/-!
# Android — the settings and the views that show them

The settings are kept in memory and in the preferences, and every view of the settings is told each
of them when it is attached and whenever it changes.  One of them has a default that comes with the
configuration.  A view that is never detached is forgotten in silence.

* `SettingsRepository`, `SettingsUseCase` — the thirteen settings under their keys.
* `SettingsPresenter` — the values that the views are told, between the first view and the last.
* `SettingsRun.next` — settings, configurations, views that come, go and are forgotten, and
  restarts.
* `SettingsRun.run_shows` — every view that is attached shows what holds, and every setting is the
  last one that was made.
-/

/-! ### The settings -/

inductive Setting
  | language
  | startPage
  | playerHardwareAcceleration
  | subtitlesLanguage
  | subtitlesFontSize
  | subtitlesFontColor
  | downloadsCheckVpn
  | downloadsWifiOnly
  | downloadsConnectionsLimit
  | downloadsDownloadSpeed
  | downloadsUploadSpeed
  | downloadsCacheFolder
  | downloadsClearCacheFolder
deriving DecidableEq, Repr

/-- A `File` with an absolute path, which has no slash that `File` leaves out. -/
structure AbsoluteFile where
  path : String
  isAbsolute : ['/'] <+: path.toList
  isNormal : ¬['/', '/'] <:+: path.toList ∧ (['/'] <:+ path.toList → path = "/")
deriving DecidableEq

/-- The type of a setting. -/
abbrev Setting.Value : Setting → Type
  | .language | .subtitlesLanguage | .subtitlesFontColor => String
  | .startPage | .playerHardwareAcceleration | .downloadsConnectionsLimit
  | .downloadsDownloadSpeed | .downloadsUploadSpeed => Int32
  | .subtitlesFontSize => ℚ
  | .downloadsCheckVpn | .downloadsWifiOnly | .downloadsClearCacheFolder => Bool
  | .downloadsCacheFolder => AbsoluteFile

/-- A value of a setting in the preferences. -/
inductive SettingPreference
  | string (text : String)
  | int (n : Int32)
  | float (x : ℚ)
  | boolean (b : Bool)
deriving DecidableEq

namespace SettingsRepository

def DEFAULT_START_PAGE : Int32 := 0
def AUTOMATIC : Int32 := -1
def NORMAL : ℚ := 1
def WHITE : String := "#ffffff"
def MINIMUM_SPEED : Int32 := 100000
def DEFAULT_DOWNLOAD_SPEED : Int32 := 0
def DEFAULT_UPLOAD_SPEED : Int32 := MINIMUM_SPEED
def DEFAULT_CONNECTIONS_LIMIT : Int32 := 200
def DEFAULT_CLEAR : Bool := true

def key : Setting → String
  | .language => "app-locale"
  | .startPage => "start-page"
  | .playerHardwareAcceleration => "hardware-acceleration"
  | .subtitlesLanguage => "subtitle-language"
  | .subtitlesFontSize => "subtitle-font-size"
  | .subtitlesFontColor => "subtitle-font-color"
  | .downloadsCheckVpn => "check-vpn"
  | .downloadsWifiOnly => "only-wifi-connection"
  | .downloadsConnectionsLimit => "connections-limit"
  | .downloadsDownloadSpeed => "maximum-download-speed"
  | .downloadsUploadSpeed => "maximum-upload-speed"
  | .downloadsCacheFolder => "chache-folder-path"
  | .downloadsClearCacheFolder => "clear-on-exit"

/-- What stands for a setting that is not there; `none` is a null. -/
def default : (setting : Setting) → Option setting.Value
  | .language => none
  | .startPage => some DEFAULT_START_PAGE
  | .playerHardwareAcceleration => some AUTOMATIC
  | .subtitlesLanguage => none
  | .subtitlesFontSize => some NORMAL
  | .subtitlesFontColor => some WHITE
  | .downloadsCheckVpn => none
  | .downloadsWifiOnly => some false
  | .downloadsConnectionsLimit => some DEFAULT_CONNECTIONS_LIMIT
  | .downloadsDownloadSpeed => some DEFAULT_DOWNLOAD_SPEED
  | .downloadsUploadSpeed => some DEFAULT_UPLOAD_SPEED
  | .downloadsCacheFolder => none
  | .downloadsClearCacheFolder => some DEFAULT_CLEAR

/-- How a setting is written. -/
def put : (setting : Setting) → setting.Value → SettingPreference
  | .language, text | .subtitlesLanguage, text | .subtitlesFontColor, text => .string text
  | .startPage, n | .playerHardwareAcceleration, n | .downloadsConnectionsLimit, n
  | .downloadsDownloadSpeed, n | .downloadsUploadSpeed, n => .int n
  | .subtitlesFontSize, x => .float x
  | .downloadsCheckVpn, b | .downloadsWifiOnly, b | .downloadsClearCacheFolder, b => .boolean b
  | .downloadsCacheFolder, file => .string file.path

/-- How a setting that has been written is read; `File` takes a path as it is where it is absolute
    and has no slash too many.  What is of another type is not written. -/
def read : (setting : Setting) → SettingPreference → Option setting.Value
  | .language, .string text | .subtitlesLanguage, .string text
  | .subtitlesFontColor, .string text => some text
  | .startPage, .int n | .playerHardwareAcceleration, .int n | .downloadsConnectionsLimit, .int n
  | .downloadsDownloadSpeed, .int n | .downloadsUploadSpeed, .int n => some n
  | .subtitlesFontSize, .float x => some x
  | .downloadsCheckVpn, .boolean b | .downloadsWifiOnly, .boolean b
  | .downloadsClearCacheFolder, .boolean b => some b
  | .downloadsCacheFolder, .string path =>
    if h : ['/'] <+: path.toList ∧ ¬['/', '/'] <:+: path.toList ∧
        (['/'] <:+ path.toList → path = "/") then some ⟨path, h.1, h.2⟩
    else none
  | setting, _ => default setting

/-- What is written is read as it was. -/
theorem read_put (setting : Setting) (value : setting.Value) :
    read setting (put setting value) = some value := by
  cases setting with
  | downloadsCacheFolder => exact dif_pos ⟨value.isAbsolute, value.isNormal⟩
  | _ => rfl

/-- The keys are different. -/
theorem key_injective : Function.Injective key := by
  intro a b h
  cases a <;> cases b <;> first | rfl | exact absurd h (by decide)

end SettingsRepository

/-- The preferences, in which every setting has been written, or there is none. -/
structure SettingPreferences where
  value : String → Option SettingPreference
  written : ∀ setting preference, value (SettingsRepository.key setting) = some preference →
    ∃ value, preference = SettingsRepository.put setting value

namespace SettingsRepository

/-- `getLanguage` and its like. -/
def get (preferences : SettingPreferences) (setting : Setting) : Option setting.Value :=
  match preferences.value (key setting) with
  | some value => read setting value
  | none => default setting

/-- `setLanguage` and its like. -/
def set (preferences : SettingPreferences) (setting : Setting) (value : setting.Value) :
    SettingPreferences where
  value := Function.update preferences.value (key setting) (some (put setting value))
  written := by
    intro other preference h
    by_cases hother : other = setting
    · subst hother
      rw [Function.update_self] at h
      exact ⟨value, (Option.some.inj h).symm⟩
    · have hkey : key other ≠ key setting := fun heq => hother (key_injective heq)
      rw [Function.update_of_ne hkey] at h
      exact preferences.written other preference h

/-- Settings have different keys. -/
theorem get_set (preferences : SettingPreferences) (setting : Setting) (value : setting.Value) :
    get (set preferences setting value) =
      Function.update (get preferences) setting (some value) := by
  funext other
  by_cases h : other = setting
  · subst h
    rw [get, set]
    dsimp only
    rw [Function.update_self, Function.update_self]
    exact read_put other value
  · have hkey : key other ≠ key setting := fun heq => h (key_injective heq)
    rw [Function.update_of_ne h, get, set]
    dsimp only
    rw [Function.update_of_ne hkey, get]

end SettingsRepository

/-- The values of the settings in memory; `none` is a null. -/
abbrev SettingsUseCase := (setting : Setting) → Option setting.Value

/-! ### What a view is told -/

/-- What a view shows. -/
structure Shown where
  setting : (setting : Setting) → Option setting.Value
  checkVpnOptionEnabled : Bool
  siteUrl : Option String
  forumUrl : Option String

namespace Shown

/-- What is to be shown: the check for a VPN has a default in the configuration. -/
def current (settings : SettingsUseCase) (config : Config) : Shown where
  setting := Function.update settings .downloadsCheckVpn
    (some ((settings .downloadsCheckVpn).getD config.vpnConfig.checkVpnOptionDefault))
  checkVpnOptionEnabled := config.vpnConfig.checkVpnOptionEnabled
  siteUrl := config.siteUrl
  forumUrl := config.forumUrl

/-- The call of a view for one setting: `onLanguage` and its like; `onDownloadsCheckVpn` tells more
    than its setting. -/
def onSetting (view states : Shown) (setting : Setting) : Shown :=
  { view with
    setting := Function.update view.setting setting (states.setting setting)
    checkVpnOptionEnabled :=
      if setting = .downloadsCheckVpn then states.checkVpnOptionEnabled
      else view.checkVpnOptionEnabled }

def onAboutSite (view states : Shown) : Shown := { view with siteUrl := states.siteUrl }

def onAboutForum (view states : Shown) : Shown := { view with forumUrl := states.forumUrl }

/-- `onAttach`: the view is told everything, in the order of the source. -/
def onAttach (view states : Shown) : Shown :=
  ([Setting.language, .startPage, .playerHardwareAcceleration, .subtitlesLanguage,
    .subtitlesFontSize, .subtitlesFontColor, .downloadsCheckVpn, .downloadsWifiOnly,
    .downloadsConnectionsLimit, .downloadsDownloadSpeed, .downloadsUploadSpeed,
    .downloadsCacheFolder, .downloadsClearCacheFolder].foldl
      (fun view setting => view.onSetting states setting) view)
    |>.onAboutSite states |>.onAboutForum states

/-- The calls of `onAttach` tell a view everything that it shows. -/
theorem onAttach_eq (view states : Shown) : view.onAttach states = states := by
  have hsetting : (view.onAttach states).setting = states.setting := by
    funext setting
    cases setting <;> rfl
  calc view.onAttach states
      = { states with setting := (view.onAttach states).setting } := rfl
    _ = states := by rw [hsetting]

@[simp] theorem onSetting_self (states : Shown) (setting : Setting) :
    states.onSetting states setting = states := by
  unfold onSetting
  rw [Function.update_eq_self, ite_self]

end Shown

/-! ### The presenter -/

/-- The settings, the configuration, and the presenter of the settings with the views that are
    attached.  `states` are its view states, null without a view; `subscriptions` counts how often
    it has subscribed to the changes; `shown` is what each view has been told last. -/
structure SettingsRun (V : Type) where
  preferences : SettingPreferences
  settings : SettingsUseCase
  config : Config
  views : List V
  states : Option Shown
  subscriptions : ℕ
  shown : V → Shown

namespace SettingsRun

variable {V : Type} [DecidableEq V]

/-- `apply` of a view state: every view is told. -/
def tell (s : SettingsRun V) (call : Shown → Shown) : SettingsRun V :=
  { s with shown := fun v => if v ∈ s.views then call (s.shown v) else s.shown v }

/-- The consumer of a setting; `none` is a null pointer. -/
def onChanged (setting : Setting) (value : setting.Value) (s : SettingsRun V) :
    Option (SettingsRun V) :=
  s.states.map fun states =>
    let states := { states with setting := Function.update states.setting setting (some value) }
    { s with states := some states }.tell fun view => view.onSetting states setting

/-- The consumer of the configuration. -/
def onConfig (config : Config) (s : SettingsRun V) : Option (SettingsRun V) :=
  s.states.map fun states =>
    let states :=
      if (s.settings .downloadsCheckVpn).isNone then
        { states with
          setting := Function.update states.setting .downloadsCheckVpn
            (some config.vpnConfig.checkVpnOptionDefault) }
      else states
    let states := { states with
      checkVpnOptionEnabled := config.vpnConfig.checkVpnOptionEnabled }
    let s := { s with states := some states }.tell fun view =>
      view.onSetting states .downloadsCheckVpn
    let states := { states with siteUrl := config.siteUrl }
    let s := { s with states := some states }.tell fun view => view.onAboutSite states
    let states := { states with forumUrl := config.forumUrl }
    { s with states := some states }.tell fun view => view.onAboutForum states

/-- `onNext` of a subject: each subscription has its consumer called. -/
def onNext (consumer : SettingsRun V → Option (SettingsRun V)) :
    ℕ → SettingsRun V → Option (SettingsRun V)
  | 0, s => some s
  | n + 1, s => (consumer s).bind (onNext consumer n)

/-- `setLanguage` and its like. -/
def set (setting : Setting) (value : setting.Value) (s : SettingsRun V) : Option (SettingsRun V) :=
  onNext (onChanged setting value) s.subscriptions { s with
    settings := Function.update s.settings setting (some value)
    preferences := SettingsRepository.set s.preferences setting value }

/-- `setConfig`, which throws before it tells anyone if the providers are null. -/
def setConfig (config : Config) (s : SettingsRun V) : Option (SettingsRun V) :=
  if config.vpnConfig.providers = none then some { s with config := config }
  else onNext (onConfig config) s.subscriptions { s with config := config }

def onCreate (s : SettingsRun V) : SettingsRun V :=
  { s with
    states := some (Shown.current s.settings s.config)
    subscriptions := s.subscriptions + 1 }

def onDestroy (s : SettingsRun V) : SettingsRun V := { s with states := none, subscriptions := 0 }

/-- `attach`; `none` is a null pointer. -/
def attach (v : V) (s : SettingsRun V) : Option (SettingsRun V) :=
  if v ∈ s.views then some s
  else
    let s := if s.views = [] then s.onCreate else s
    s.states.map fun states => { s with
      views := v :: s.views
      shown := Function.update s.shown v ((s.shown v).onAttach states) }

def detach (v : V) (s : SettingsRun V) : SettingsRun V :=
  if v ∈ s.views then
    let s := { s with views := s.views.erase v }
    if s.views = [] then s.onDestroy else s
  else s

/-- The views are in a weak set: one that nothing else refers to is no longer there. -/
def forget (v : V) (s : SettingsRun V) : SettingsRun V := { s with views := s.views.erase v }

/-- A new process, with a configuration that was saved. -/
def launch (builtin : Config) (preferences : SettingPreferences) (saved : Config)
    (shown : V → Shown) : SettingsRun V where
  preferences := preferences
  settings := SettingsRepository.get preferences
  config := ConfigUseCase.merge saved builtin
  views := []
  states := none
  subscriptions := 0
  shown := shown

inductive Event (V : Type)
  | set (setting : Setting) (value : setting.Value)
  | remote (config : Config)
  | attach (v : V)
  | detach (v : V)
  | forget (v : V)
  | restart (saved : Config)

def next (builtin : Config) (s : SettingsRun V) : Event V → Option (SettingsRun V)
  | .set setting value => s.set setting value
  | .remote config => s.setConfig (ConfigUseCase.merge config s.config)
  | .attach v => s.attach v
  | .detach v => some (s.detach v)
  | .forget v => some (s.forget v)
  | .restart saved => some (launch builtin s.preferences saved s.shown)

/-! ### What is kept -/

variable {s r : SettingsRun V} {setting : Setting} {value : setting.Value} {builtin : Config}

/-- One setting in what is shown is that of the settings. -/
theorem current_set (settings : SettingsUseCase) (config : Config) (setting : Setting)
    (value : setting.Value) :
    { Shown.current settings config with
      setting := Function.update (Shown.current settings config).setting setting (some value) } =
      Shown.current (Function.update settings setting (some value)) config := by
  have hsetting : Function.update (Shown.current settings config).setting setting (some value) =
      (Shown.current (Function.update settings setting (some value)) config).setting := by
    unfold Shown.current
    by_cases h : setting = .downloadsCheckVpn
    · subst h
      rw [Function.update_idem, Function.update_idem, Function.update_self]
      rfl
    · rw [Function.update_of_ne (Ne.symm h), Function.update_comm h]
  rw [hsetting]
  rfl

/-- Before the first view and after the last. -/
structure Closed (s : SettingsRun V) : Prop where
  states : s.states = none
  subscriptions : s.subscriptions = 0
  views : s.views = []

/-- Between the two, and after all views have been forgotten. -/
structure Open (s : SettingsRun V) : Prop where
  states : s.states = some (Shown.current s.settings s.config)
  subscriptions : s.subscriptions ≠ 0
  shown : ∀ v ∈ s.views, s.shown v = Shown.current s.settings s.config

/-- What holds in every run. -/
structure Inv (s : SettingsRun V) : Prop where
  presents : s.Closed ∨ s.Open
  stored : SettingsRepository.get s.preferences = s.settings
  providers : s.config.vpnConfig.providers ≠ none

/-- Telling the views what they show already. -/
theorem tell_self {call : Shown → Shown} (h : ∀ v ∈ s.views, call (s.shown v) = s.shown v) :
    s.tell call = s := by
  have hshown : (s.tell call).shown = s.shown := by
    funext v
    unfold tell
    dsimp only
    split_ifs with hv
    · exact h v hv
    · rfl
  calc s.tell call = { s with shown := (s.tell call).shown } := rfl
    _ = s := by rw [hshown]

omit [DecidableEq V] in
/-- Where the first call of a consumer leads to a state that it leaves alone, all of them do. -/
theorem onNext_eq {consumer : SettingsRun V → Option (SettingsRun V)} (hfirst : consumer s = some r)
    (hidle : consumer r = some r) {n : ℕ} (hn : n ≠ 0) : onNext consumer n s = some r := by
  have hmore : ∀ n, onNext consumer n r = some r := by
    intro n
    induction n with
    | zero => rfl
    | succ n ih => rw [onNext, hidle, Option.bind_some, ih]
  cases n with
  | zero => exact absurd rfl hn
  | succ n => rw [onNext, hfirst, Option.bind_some, hmore]

/-- The consumer of a setting tells the views what there is to be shown. -/
theorem onChanged_eq {before : SettingsUseCase}
    (hstates : s.states = some (Shown.current before s.config))
    (hsettings : s.settings = Function.update before setting (some value)) :
    onChanged setting value s =
      some ({ s with states := some (Shown.current s.settings s.config) }.tell fun view =>
        view.onSetting (Shown.current s.settings s.config) setting) := by
  rw [onChanged, hstates, Option.map_some]
  dsimp only
  rw [current_set, hsettings]

/-- A second call of it tells them nothing new. -/
theorem onChanged_idle (h : s.Open) (hvalue : s.settings setting = some value) :
    onChanged setting value s = some s := by
  have hsame : s.settings = Function.update s.settings setting (some value) := by
    rw [← hvalue, Function.update_eq_self]
  rw [onChanged_eq h.states hsame, ← h.states]
  congr 1
  apply tell_self
  intro v hv
  rw [h.shown v hv, Shown.onSetting_self]

/-- One setting more makes up for the difference. -/
theorem onSetting_current (settings : SettingsUseCase) (config : Config) (setting : Setting)
    (value : setting.Value) :
    (Shown.current settings config).onSetting
      (Shown.current (Function.update settings setting (some value)) config) setting =
        Shown.current (Function.update settings setting (some value)) config := by
  have h := current_set settings config setting value
  rw [← h]
  unfold Shown.onSetting
  dsimp only
  rw [Function.update_self]
  congr 1
  split_ifs
  · rfl
  · rfl

/-- **A setting** that is made is stored and told. -/
theorem Inv.set (h : Inv s) (setting : Setting) (value : setting.Value) :
    ∃ r, s.set setting value = some r ∧ Inv r ∧
      r.settings = Function.update s.settings setting (some value) := by
  have hstored : SettingsRepository.get (SettingsRepository.set s.preferences setting value) =
      Function.update s.settings setting (some value) := by
    rw [SettingsRepository.get_set, h.stored]
  rw [SettingsRun.set]
  rcases h.presents with hclosed | hopen
  · rw [hclosed.subscriptions]
    exact ⟨_, rfl, ⟨.inl ⟨hclosed.states, rfl, hclosed.views⟩, hstored, h.providers⟩, rfl⟩
  · -- the first subscription's consumer brings all up to date, the others change nothing
    set changed : SettingsRun V := { s with
      settings := Function.update s.settings setting (some value)
      preferences := SettingsRepository.set s.preferences setting value } with hchanged
    set told : SettingsRun V :=
      { changed with states := some (Shown.current changed.settings s.config) }.tell fun view =>
        view.onSetting (Shown.current changed.settings s.config) setting with htold
    have hfirst : onChanged setting value changed = some told := onChanged_eq hopen.states rfl
    have hopen' : told.Open := by
      refine ⟨rfl, hopen.subscriptions, fun v hv => ?_⟩
      calc told.shown v
          = (s.shown v).onSetting (Shown.current changed.settings s.config) setting := if_pos hv
        _ = Shown.current told.settings told.config := by
          rw [hopen.shown v hv]
          exact onSetting_current _ _ _ _
    have hidle : onChanged setting value told = some told :=
      onChanged_idle hopen' (Function.update_self _ _ _)
    exact ⟨told, onNext_eq hfirst hidle hopen.subscriptions,
      ⟨.inr hopen', hstored, h.providers⟩, rfl⟩

/-! ### The configuration -/

/-- The default of the check for a VPN is that of the new configuration. -/
theorem setting_current (settings : SettingsUseCase) (before config : Config) :
    (if (settings .downloadsCheckVpn).isNone then
      { Shown.current settings before with
        setting := Function.update (Shown.current settings before).setting .downloadsCheckVpn
          (some config.vpnConfig.checkVpnOptionDefault) }
      else Shown.current settings before) =
    { Shown.current settings before with setting := (Shown.current settings config).setting } := by
  cases hvalue : settings .downloadsCheckVpn with
  | none =>
    have hsetting : Function.update (Shown.current settings before).setting .downloadsCheckVpn
        (some config.vpnConfig.checkVpnOptionDefault) =
          (Shown.current settings config).setting := by
      unfold Shown.current
      dsimp only
      -- an option that was never set shows the default of the configuration
      rw [Function.update_idem, hvalue]
      rfl
    rw [if_pos (Option.isNone_none), hsetting]
  | some value =>
    have hsetting : (Shown.current settings before).setting =
        (Shown.current settings config).setting := by
      unfold Shown.current
      dsimp only
      rw [hvalue]
      rfl
    have hsome : ¬(some value).isNone = true := Bool.false_ne_true
    rw [if_neg hsome, ← hsetting]

/-- What a view is told of a configuration. -/
def onConfigured (view states : Shown) : Shown :=
  ((view.onSetting states .downloadsCheckVpn).onAboutSite states).onAboutForum states

/-- Of a configuration there is no more to be told than this. -/
theorem onConfigured_current (settings : SettingsUseCase) (before config : Config) :
    onConfigured (Shown.current settings before) (Shown.current settings config) =
      Shown.current settings config := by
  unfold onConfigured Shown.onSetting Shown.current Shown.onAboutSite Shown.onAboutForum
  dsimp only
  rw [Function.update_idem, Function.update_self]
  rfl

/-- The consumer of a configuration leads to the states of the configuration, whatever the states
    were before. -/
theorem onConfig_eq {before : Config}
    (hstates : s.states = some (Shown.current s.settings before)) :
    onConfig s.config s =
      some ({ s with states := some (Shown.current s.settings s.config) }.tell fun view =>
        onConfigured view (Shown.current s.settings s.config)) := by
  rw [onConfig, hstates, Option.map_some]
  dsimp only
  rw [setting_current s.settings before s.config]
  unfold tell
  congr 2
  funext v
  dsimp only
  split_ifs
  · rfl
  · rfl

/-- A second call of its consumer tells the views nothing new. -/
theorem onConfig_idle (h : s.Open) : onConfig s.config s = some s := by
  rw [onConfig_eq h.states, ← h.states]
  congr 1
  apply tell_self
  intro v hv
  rw [h.shown v hv, onConfigured_current]

omit [DecidableEq V] in
/-- A configuration without providers leaves those there were. -/
theorem providers_merge (config : Config) {before : Config}
    (h : before.vpnConfig.providers ≠ none) :
    (ConfigUseCase.merge config before).vpnConfig.providers ≠ none := by
  change (if config.vpnConfig.providers = none then before.vpnConfig.providers
    else config.vpnConfig.providers) ≠ none
  split_ifs with hnone
  · exact h
  · exact hnone

/-- **A configuration** is told, and no setting changes. -/
theorem Inv.setConfig (h : Inv s) (config : Config) :
    ∃ r, s.setConfig (ConfigUseCase.merge config s.config) = some r ∧ Inv r ∧
      r.settings = s.settings := by
  set merged := ConfigUseCase.merge config s.config with hmerged
  have hproviders : merged.vpnConfig.providers ≠ none := providers_merge config h.providers
  rw [SettingsRun.setConfig, if_neg hproviders]
  rcases h.presents with hclosed | hopen
  · rw [hclosed.subscriptions]
    exact ⟨_, rfl, ⟨.inl ⟨hclosed.states, rfl, hclosed.views⟩, h.stored, hproviders⟩, rfl⟩
  · set told : SettingsRun V :=
      { s with
        config := merged
        states := some (Shown.current s.settings merged) }.tell fun view =>
          onConfigured view (Shown.current s.settings merged) with htold
    have hfirst : onConfig merged { s with config := merged } = some told :=
      onConfig_eq (s := { s with config := merged }) hopen.states
    have hopen' : told.Open := by
      refine ⟨rfl, hopen.subscriptions, fun v hv => ?_⟩
      calc told.shown v
          = onConfigured (s.shown v) (Shown.current s.settings merged) := if_pos hv
        _ = Shown.current told.settings told.config := by
          rw [hopen.shown v hv]
          exact onConfigured_current _ _ _
    -- a further subscription of the same listener finds nothing left to tell
    have hidle : onConfig merged told = some told := onConfig_idle hopen'
    exact ⟨told, onNext_eq hfirst hidle hopen.subscriptions,
      ⟨.inr hopen', h.stored, hproviders⟩, rfl⟩

/-! ### The views -/

omit [DecidableEq V] in
/-- The first view has the states made. -/
theorem onCreate_open (hviews : s.views = []) : s.onCreate.Open where
  states := rfl
  subscriptions := Nat.succ_ne_zero _
  shown := by
    intro v hv
    have hmem : v ∈ s.views := hv
    rw [hviews] at hmem
    exact absurd hmem (List.not_mem_nil)

/-- **A view that comes** is told everything. -/
theorem Inv.attach (h : Inv s) (v : V) :
    ∃ r, s.attach v = some r ∧ Inv r ∧ r.settings = s.settings := by
  unfold SettingsRun.attach
  by_cases hv : v ∈ s.views
  · rw [if_pos hv]
    exact ⟨s, rfl, h, rfl⟩
  · rw [if_neg hv]
    dsimp only
    -- the presenter is created for the first view, and after all have been forgotten
    set created := if s.views = [] then s.onCreate else s with hcreated
    have hopen : created.Open := by
      rw [hcreated]
      split_ifs with hviews
      · exact onCreate_open hviews
      · exact h.presents.resolve_left fun hclosed => hviews hclosed.views
    have hkept : created.preferences = s.preferences ∧ created.settings = s.settings ∧
        created.config = s.config ∧ created.views = s.views := by
      rw [hcreated]
      split_ifs
      · exact ⟨rfl, rfl, rfl, rfl⟩
      · exact ⟨rfl, rfl, rfl, rfl⟩
    obtain ⟨hpreferences, hsettings, hconfig, -⟩ := hkept
    rw [hopen.states, Option.map_some]
    refine ⟨_, rfl, ⟨.inr ⟨rfl, hopen.subscriptions, ?_⟩, ?_, ?_⟩, hsettings⟩
    · intro w hw
      change Function.update created.shown v _ w = Shown.current created.settings created.config
      by_cases hwv : w = v
      · rw [hwv, Function.update_self, Shown.onAttach_eq]
      · rw [Function.update_of_ne hwv]
        exact hopen.shown w ((List.mem_cons.1 hw).resolve_left hwv)
    · change SettingsRepository.get created.preferences = created.settings
      rw [hpreferences, hsettings]
      exact h.stored
    · change created.config.vpnConfig.providers ≠ none
      rw [hconfig]
      exact h.providers

/-- **A view that is forgotten** is not there, and the presenter does not notice. -/
theorem Inv.forget (h : Inv s) (v : V) : Inv (s.forget v) := by
  refine ⟨?_, h.stored, h.providers⟩
  rcases h.presents with hclosed | hopen
  · refine .inl ⟨hclosed.states, hclosed.subscriptions, ?_⟩
    change s.views.erase v = []
    rw [hclosed.views]
    rfl
  · exact .inr ⟨hopen.states, hopen.subscriptions, fun w hw =>
      hopen.shown w (List.mem_of_mem_erase hw)⟩

/-- **A view that goes**: the presenter is destroyed with the last one. -/
theorem Inv.detach (h : Inv s) (v : V) : Inv (s.detach v) := by
  unfold SettingsRun.detach
  by_cases hv : v ∈ s.views
  · rw [if_pos hv]
    dsimp only
    split_ifs with hviews
    · exact ⟨.inl ⟨rfl, rfl, hviews⟩, h.stored, h.providers⟩
    · exact h.forget v
  · rw [if_neg hv]
    exact h

omit [DecidableEq V] in
/-- A new process has read the settings and shows nothing. -/
theorem Inv.launch (hproviders : builtin.vpnConfig.providers ≠ none)
    (preferences : SettingPreferences) (saved : Config) (shown : V → Shown) :
    Inv (launch builtin preferences saved shown) :=
  ⟨.inl ⟨rfl, rfl, rfl⟩, rfl, providers_merge saved hproviders⟩

/-! ### Runs -/

/-- The settings that are made. -/
def made (settings : SettingsUseCase) : Event V → SettingsUseCase
  | .set setting value => Function.update settings setting (some value)
  | _ => settings

/-- One event keeps what holds, and changes no setting that it does not make. -/
theorem Inv.next (h : Inv s) (hproviders : builtin.vpnConfig.providers ≠ none)
    (event : Event V) :
    ∃ r, next builtin s event = some r ∧ Inv r ∧ r.settings = made s.settings event := by
  cases event with
  | set setting value => exact h.set setting value
  | remote config => exact h.setConfig config
  | attach v => exact h.attach v
  | detach v =>
    have hsettings : (s.detach v).settings = s.settings := by
      unfold SettingsRun.detach
      dsimp only
      split_ifs
      · rfl
      · rfl
      · rfl
    exact ⟨_, rfl, h.detach v, hsettings⟩
  | forget v => exact ⟨_, rfl, h.forget v, rfl⟩
  | restart saved => exact ⟨_, rfl, Inv.launch hproviders _ saved s.shown, h.stored⟩

/-- Events keep what holds, whatever they are. -/
theorem Inv.runEvents (h : Inv s) (hproviders : builtin.vpnConfig.providers ≠ none)
    (events : List (Event V)) :
    ∃ r, Machine.runEvents (SettingsRun.next builtin) s events = some r ∧ Inv r ∧
      r.settings = events.foldl made s.settings := by
  induction events generalizing s with
  | nil => exact ⟨s, rfl, h, rfl⟩
  | cons event events ih =>
    obtain ⟨t, hnext, ht, hmade⟩ := h.next hproviders event
    obtain ⟨r, hrun, hr, hsettings⟩ := ih ht
    refine ⟨r, ?_, hr, ?_⟩
    · calc Machine.runEvents (SettingsRun.next builtin) s (event :: events)
          = (SettingsRun.next builtin s event).bind
              (fun t => Machine.runEvents (SettingsRun.next builtin) t events) := List.foldlM_cons
        _ = some r := by rw [hnext, Option.bind_some, hrun]
    · rw [hsettings, hmade, List.foldl_cons]

omit [DecidableEq V] in
/-- An attached view shows what holds. -/
theorem Inv.shown_eq (h : Inv s) {v : V} (hv : v ∈ s.views) :
    s.shown v = Shown.current s.settings s.config := by
  rcases h.presents with hclosed | hopen
  · rw [hclosed.views] at hv
    exact absurd hv (List.not_mem_nil)
  · exact hopen.shown v hv

/-- **Every view that is attached shows what holds**, and every setting is the last one that was
    made, in memory as in the preferences: in every run of an application whose build has
    providers, whichever views are forgotten. -/
theorem run_shows (hproviders : builtin.vpnConfig.providers ≠ none)
    (preferences : SettingPreferences) (saved : Config) (shown : V → Shown)
    (events : List (Event V)) :
    ∃ s, Machine.runEvents (next builtin) (launch builtin preferences saved shown) events = some s ∧
      s.settings = events.foldl made (SettingsRepository.get preferences) ∧
      SettingsRepository.get s.preferences = s.settings ∧
      ∀ v ∈ s.views, s.shown v = Shown.current s.settings s.config := by
  obtain ⟨s, hrun, hs, hsettings⟩ :=
    (Inv.launch hproviders preferences saved shown).runEvents hproviders events
  exact ⟨s, hrun, hsettings, hs.stored, fun v hv => hs.shown_eq hv⟩

/-- A configuration of a build with one provider. -/
def oneProvider : Config where
  urls := none
  updaterUrls := none
  shareUrls := none
  analyticsId := none
  cinemaUrl := none
  animeUrl := none
  posterUrl := none
  subtitlesUrl := none
  siteUrl := some "http://site.example"
  forumUrl := none
  facebookUrl := none
  twitterUrl := none
  youtubeUrl := none
  imdbUrl := none
  referrerRegex := none
  vpnConfig :=
    { providers := some [some "provider"]
      checkVpnOptionEnabled := false
      checkVpnOptionDefault := true
      alertEnabled := false
      alert := none
      notice := none }

/-- The preferences before anything is written. -/
def nothingWritten : SettingPreferences where
  value _ := none
  written := nofun

def nothingShown : Shown where
  setting := fun _ => none
  checkVpnOptionEnabled := false
  siteUrl := none
  forumUrl := none

/-- A view is forgotten and another one comes before a setting is made; a restart; a view again. -/
def sampleEvents : List (Event Bool) :=
  [.attach true, .set .language "de", .forget true, .attach false, .set .downloadsWifiOnly true,
    .remote oneProvider, .detach false, .restart oneProvider, .attach true, .set .language "fr"]

/-- A build with one provider, and the sample of events. -/
theorem run_shows_sample :
    ∃ s, Machine.runEvents (next oneProvider)
        (launch oneProvider nothingWritten oneProvider fun _ => nothingShown) sampleEvents = some s ∧
      s.settings = sampleEvents.foldl made (SettingsRepository.get nothingWritten) ∧
      SettingsRepository.get s.preferences = s.settings ∧
      ∀ v ∈ s.views, s.shown v = Shown.current s.settings s.config :=
  run_shows (Option.some_ne_none _) nothingWritten oneProvider (fun _ => nothingShown) sampleEvents

def noProvider : Config :=
  { oneProvider with vpnConfig := { oneProvider.vpnConfig with providers := none } }

/-- Where no providers are known, a configuration does not reach the views that are attached. -/
example :
    (Machine.runEvents (next noProvider)
        (launch noProvider nothingWritten noProvider fun _ => nothingShown)
        [.attach true, .remote { noProvider with siteUrl := some "http://other.example" }]).map
      (fun s => (s.config.siteUrl, (s.shown true).siteUrl)) =
    some (some "http://other.example", some "http://site.example") := by decide +kernel

end SettingsRun

end PopcornTime.Android
