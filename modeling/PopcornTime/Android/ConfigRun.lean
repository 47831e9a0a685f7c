import PopcornTime.Lib.Machine
import PopcornTime.Android.ConfigFields

namespace PopcornTime.Android

open PopcornTime

/-!
# Android configuration — runs of `ConfigUseCase`

The application starts with what it has saved before, completed by its built-in configuration, and
each remote configuration is completed by the one before it and saved.  Nothing is saved while the
providers are null.

* `ConfigRun.next` — remote configurations and restarts.
* `ConfigRun.Right` — every field has the last value supplied that is not empty.
* `ConfigRun.Guard` — the remote configurations and the restarts that keep it.
* `ConfigRun.configuration_of_guard` — in every run that meets the guard all is right, and the guard
  is exact.
-/

/-! ### The built-in configuration -/

/-- The constants of the build that the built-in configuration takes. -/
structure BuildConfig where
  CONFIG_DOMAINS : Option (List (Option String))
  UPDATER_DOMAINS : Option (List (Option String))
  SHARE_DOMAINS : Option (List (Option String))
  ANALYTICS_TRACKER_ID : Option String
  API_DOMAIN : Option String
  API_ANIME_DOMAIN : Option String
  POSTER_DOMAIN : Option String
  SUBTITLE_DOMAIN : Option String
  APP_SITE : Option String
  APP_FORUM : Option String
  APP_FACEBOOK : Option String
  APP_TWITTER : Option String
  APP_YOUTUBE : Option String
  IMDB_URL : Option String
  VPN_PROVIDERS : Option (List (Option String))

/-- The texts of the built-in notice, in the language of the application. -/
structure NoticeStrings where
  security_recommendation : String
  security_recommendation_msg : String

/-- The configuration that `PopcornApplication.onCreate` builds. -/
def PopcornApplication.config (build : BuildConfig) (strings : NoticeStrings) : Config where
  urls := build.CONFIG_DOMAINS
  updaterUrls := build.UPDATER_DOMAINS
  shareUrls := build.SHARE_DOMAINS
  analyticsId := build.ANALYTICS_TRACKER_ID
  cinemaUrl := build.API_DOMAIN
  animeUrl := build.API_ANIME_DOMAIN
  posterUrl := build.POSTER_DOMAIN
  subtitlesUrl := build.SUBTITLE_DOMAIN
  siteUrl := build.APP_SITE
  forumUrl := build.APP_FORUM
  facebookUrl := build.APP_FACEBOOK
  twitterUrl := build.APP_TWITTER
  youtubeUrl := build.APP_YOUTUBE
  imdbUrl := build.IMDB_URL
  referrerRegex := none
  vpnConfig := {
    providers := build.VPN_PROVIDERS
    checkVpnOptionEnabled := false
    checkVpnOptionDefault := false
    alertEnabled := false
    alert := some {
      title := "<b>YOU'RE BEING MONITORED!</b>"
      texts := [
        { text := "<b>Streaming without a secure VPN connection will expose your identity and can " ++
            "get you in trouble</b>"
          lines := 2 },
        { text := "Please take 1 minute to activate the <b>built-in unlimited VPN</b> connection " ++
            "before streaming"
          lines := 2 }] }
    notice := some {
      iconUrl := none
      title := strings.security_recommendation
      text := strings.security_recommendation_msg } }

/-! ### Starting -/

namespace ConfigUseCase

/-- The configuration that a `ConfigUseCase` is constructed with. -/
def construct (gson : Gson) (preferences : SharedPreferences) (toArray : List (Option String))
    (config : Config) : Option Config :=
  (ConfigLocalRepository.getConfig gson preferences toArray).map (merge · config)

/-- `getRemoteConfig` at an index: the url that is asked, if one is left. -/
def getRemoteConfig (config : Config) (index : ℕ) : Option (Option String) :=
  config.urls.bind (·[index]?)

end ConfigUseCase

def SharedPreferences.empty : SharedPreferences :=
  fun _ => none

/-! ### Runs -/

/-- The use case with the preferences it saves to, and the remote configurations that have been
    read. -/
structure ConfigRun where
  config : Config
  preferences : SharedPreferences
  supplied : List JsonElement

inductive ConfigEvent
  | response (json : JsonElement)
  | restart (toArray : List (Option String))

/-- A configuration with other providers. -/
def Config.withProviders (config : Config) (providers : List (Option String)) : Config :=
  { config with vpnConfig := { config.vpnConfig with providers := some providers } }

theorem Config.fields_withProviders (config : Config) (providers : List (Option String)) :
    (config.withProviders providers).fields =
      { config.fields with providers := some providers } := by
  unfold Config.fields
  congr 1
  · funext field
    cases field <;> rfl
  · funext field
    cases field <;> rfl

theorem Config.Based.withProviders {builtin config : Config} (h : builtin.Based config)
    (providers : List (Option String)) : builtin.Based (config.withProviders providers) where
  string := by
    intro field
    rw [show field.value (config.withProviders providers) = field.value config by
      cases field <;> rfl]
    exact h.string field
  urls := by
    intro field
    rw [show field.value (config.withProviders providers) = field.value config by
      cases field <;> rfl]
    exact h.urls field
  providers := fun hnone => absurd hnone (Option.some_ne_none providers)
  alert := h.alert
  notice := h.notice

namespace ConfigRun

/-- `setConfig`; the configuration is set also where it cannot be saved. -/
def setConfig (s : ConfigRun) (config : Config) : ConfigRun :=
  { s with
    config := config
    preferences := (ConfigLocalRepository.setConfig s.preferences config).getD s.preferences }

/-- The set of the providers that is saved. -/
def savedProviders (s : ConfigRun) : Option (Finset (Option String)) :=
  s.preferences.getStringSet ConfigLocalRepository.KEY_VPN_PROVIDERS

section

variable (gson : Gson) (builtin : Config)

def init (s : ConfigRun) : Prop :=
  ConfigUseCase.construct gson .empty [] builtin = some s.config ∧ s.preferences = .empty ∧
    s.supplied = []

/-- A response, which may not be a configuration, and a restart with the saved providers in some
    order. -/
def next (s : ConfigRun) : ConfigEvent → Option ConfigRun
  | .response json =>
    match ConfigMapper.deserialize json with
    -- the error is printed, and the configuration stays
    | none => some s
    | some remote => some { s.setConfig (ConfigUseCase.merge remote s.config) with
        supplied := s.supplied ++ [json] }
  | .restart toArray =>
    -- the set is read back in an order of its own
    if ∀ values ∈ s.savedProviders, toArray.Nodup ∧ toArray.toFinset = values then
      (ConfigUseCase.construct gson s.preferences toArray builtin).map
        (fun config => { s with config := config })
    else none

def machine : Machine ConfigRun ConfigEvent :=
  .ofFun (init gson builtin) (next gson builtin)

/-- **The configuration has survived**: every field has the last value supplied that is not
    empty. -/
def Right (s : ConfigRun) : Prop :=
  s.config.fields.Agrees (ConfigFields.last (s.supplied.map JsonElement.fields) builtin.fields)

/-- A remote configuration has to be harmless; a restart must not find saved providers that were
    repeated, nor be the first after changes while nothing can be saved. -/
def Guard (s : ConfigRun) : ConfigEvent → Prop
  | .response json => ∀ remote, ConfigMapper.deserialize json = some remote →
      remote.fields.Harmless s.config.fields
  | .restart _ =>
    match s.savedProviders with
    | some _ => ∀ providers ∈ s.config.vpnConfig.providers, providers.Nodup
    | none => s.config.fields.Agrees builtin.fields

/-- The configuration is on top of the built-in one, and it is the one that is saved if one is. -/
structure Inv (s : ConfigRun) : Prop where
  based : builtin.Based s.config
  saved : s.preferences = .empty ∨
    ∃ preferences, ConfigLocalRepository.setConfig preferences s.config = some s.preferences

end

variable {gson : Gson} {builtin : Config} {s s' : ConfigRun}

/-- Without anything saved the application starts with its built-in configuration. -/
theorem construct_empty (gson : Gson) (hreferrer : builtin.referrerRegex = none)
    (toArray : List (Option String)) :
    ∃ config, ConfigUseCase.construct gson .empty toArray builtin = some config ∧
      config.fields = builtin.fields ∧ builtin.Based config := by
  refine ⟨_, rfl, ?_, (Config.Based.refl builtin).merge _⟩
  unfold Config.fields
  congr 1
  · funext field
    cases field with
    | referrerRegex => exact hreferrer.symm
    | _ => rfl
  · funext field
    cases field <;> rfl

/-- With its configuration saved it starts with the same, but for the order of the providers. -/
theorem construct_saved (gson : Gson) {preferences preferences' : SharedPreferences}
    {config : Config} (hbased : builtin.Based config)
    (h : ConfigLocalRepository.setConfig preferences config = some preferences')
    (toArray : List (Option String)) :
    ConfigUseCase.construct gson preferences' toArray builtin =
      some (config.withProviders toArray) := by
  rw [ConfigUseCase.construct, ConfigLocalRepository.getConfig_setConfig gson h, Option.map_some]
  exact congrArg some (hbased.withProviders toArray).merge_eq_left

/-- The saved set stands for each of its orders. -/
theorem setConfig_withProviders (preferences : SharedPreferences) {config : Config}
    {providers toArray : List (Option String)} (h : config.vpnConfig.providers = some providers)
    (hset : toArray.toFinset = providers.toFinset) :
    ConfigLocalRepository.setConfig preferences (config.withProviders toArray) =
      ConfigLocalRepository.setConfig preferences config := by
  unfold ConfigLocalRepository.setConfig
  rw [h, Option.map_some, Config.withProviders, Option.map_some, hset]

theorem inv_init (hreferrer : builtin.referrerRegex = none) (h : init gson builtin s) :
    Inv builtin s := by
  obtain ⟨config, hconfig, -, hbased⟩ := construct_empty gson hreferrer []
  obtain rfl := Option.some.inj (hconfig.symm.trans h.1)
  exact ⟨hbased, .inl h.2.1⟩

/-- A configuration that is set is saved, unless nothing has been saved before. -/
theorem inv_setConfig (h : Inv builtin s) (remote : Config) :
    Inv builtin (s.setConfig (ConfigUseCase.merge remote s.config)) where
  based := h.based.merge remote
  saved := by
    unfold setConfig
    dsimp only
    cases hproviders : (ConfigUseCase.merge remote s.config).vpnConfig.providers with
    | some providers =>
      right
      exact ⟨s.preferences, by rw [ConfigLocalRepository.setConfig, hproviders]; rfl⟩
    | none =>
      left
      rw [ConfigLocalRepository.setConfig, hproviders, Option.map_none, Option.getD_none]
      refine h.saved.resolve_right (fun ⟨preferences, hsaved⟩ => ?_)
      obtain ⟨providers, hbefore, -⟩ := Option.map_eq_some_iff.mp hsaved
      have hmerge : (if remote.vpnConfig.providers = none then s.config.vpnConfig.providers
          else remote.vpnConfig.providers) = none := hproviders
      split at hmerge
      · rw [hbefore] at hmerge
        contradiction
      · contradiction

/-- What a restart finds, and what it comes to. -/
theorem next_restart (h : Inv builtin s) (hreferrer : builtin.referrerRegex = none)
    {toArray : List (Option String)} (hstep : next gson builtin s (.restart toArray) = some s') :
    (s.preferences = .empty ∧ s.savedProviders = none ∧ s'.config.fields = builtin.fields ∧
      builtin.Based s'.config ∧ s'.preferences = .empty ∧ s'.supplied = s.supplied) ∨
    ∃ providers, s.config.vpnConfig.providers = some providers ∧
      s.savedProviders = some providers.toFinset ∧ toArray.Nodup ∧
      toArray.toFinset = providers.toFinset ∧
      s' = { s with config := s.config.withProviders toArray } := by
  obtain ⟨hset, hstep⟩ := Option.ite_none_right_eq_some.mp hstep
  obtain ⟨config, hconfig, rfl⟩ := Option.map_eq_some_iff.mp hstep
  obtain hempty | ⟨preferences, hsaved⟩ := h.saved
  · left
    obtain ⟨config', hconfig', hfields, hbased⟩ := construct_empty gson hreferrer toArray
    rw [hempty] at hconfig
    obtain rfl := Option.some.inj (hconfig'.symm.trans hconfig)
    exact ⟨hempty, by rw [savedProviders, hempty]; rfl, hfields, hbased, hempty, rfl⟩
  · right
    obtain ⟨providers, hproviders, -⟩ := Option.map_eq_some_iff.mp hsaved
    have hvalues : s.savedProviders = some providers.toFinset := by
      rw [savedProviders, ConfigLocalRepository.getStringSet_setConfig hsaved, hproviders,
        Option.map_some]
    obtain ⟨hnodup, hfinset⟩ := hset _ hvalues
    rw [construct_saved gson h.based hsaved] at hconfig
    obtain rfl := Option.some.inj hconfig
    exact ⟨providers, hproviders, hvalues, hnodup, hfinset, rfl⟩

/-- What a response comes to. -/
theorem next_response {json : JsonElement}
    (hstep : next gson builtin s (.response json) = some s') :
    (ConfigMapper.deserialize json = none ∧ s' = s) ∨
    ∃ remote, ConfigMapper.deserialize json = some remote ∧
      s' = { s.setConfig (ConfigUseCase.merge remote s.config) with
        supplied := s.supplied ++ [json] } := by
  rw [next] at hstep
  split at hstep
  · exact .inl ⟨‹_›, (Option.some.inj hstep).symm⟩
  · exact .inr ⟨_, ‹_›, (Option.some.inj hstep).symm⟩

theorem inv_step (hreferrer : builtin.referrerRegex = none) (h : Inv builtin s) (e : ConfigEvent)
    (hstep : next gson builtin s e = some s') : Inv builtin s' := by
  cases e with
  | response json =>
    obtain ⟨-, rfl⟩ | ⟨remote, -, rfl⟩ := next_response hstep
    · exact h
    · exact ⟨(inv_setConfig h remote).based, (inv_setConfig h remote).saved⟩
  | restart toArray =>
    obtain ⟨-, -, -, hbased, hempty, -⟩ | ⟨providers, hproviders, hvalues, -, hset, rfl⟩ :=
      next_restart h hreferrer hstep
    · exact ⟨hbased, .inl hempty⟩
    · refine ⟨h.based.withProviders toArray, h.saved.imp id (fun ⟨preferences, hsaved⟩ => ?_)⟩
      exact ⟨preferences, (setConfig_withProviders preferences hproviders hset).trans hsaved⟩

theorem inv_of_reachable (hreferrer : builtin.referrerRegex = none)
    (h : (machine gson builtin).Reachable s) : Inv builtin s := by
  refine Machine.Reachable.invariant (I := Inv builtin) ?_ ?_ h
  · exact fun s hinit => inv_init hreferrer hinit
  · exact fun s e s' hinv hstep => inv_step hreferrer hinv e hstep

/-- **Every restart goes through**, whichever order the saved providers come in. -/
theorem restart_enabled (hreferrer : builtin.referrerRegex = none)
    (h : (machine gson builtin).Reachable s) {toArray : List (Option String)}
    (hset : ∀ values ∈ s.savedProviders, toArray.Nodup ∧ toArray.toFinset = values) :
    ∃ s', next gson builtin s (.restart toArray) = some s' := by
  have hinv := inv_of_reachable hreferrer h
  rw [next, if_pos hset]
  obtain hempty | ⟨preferences, hsaved⟩ := hinv.saved
  · obtain ⟨config, hconfig, -⟩ := construct_empty gson hreferrer toArray
    rw [hempty, hconfig]
    exact ⟨_, rfl⟩
  · rw [construct_saved gson hinv.based hsaved]
    exact ⟨_, rfl⟩

/-- A list without repetitions comes back from its set up to its order, and no other does. -/
theorem perm_toArray_iff {providers toArray : List (Option String)} (hnodup : toArray.Nodup)
    (hset : toArray.toFinset = providers.toFinset) :
    toArray.Perm providers ↔ providers.Nodup :=
  ⟨fun hperm => hperm.nodup_iff.mp hnodup,
    fun h => List.perm_of_nodup_nodup_toFinset_eq hnodup h hset⟩

/-- `Guard` is exact. -/
theorem guard_exact (gson : Gson) (builtin : Config) (hreferrer : builtin.referrerRegex = none) :
    (machine gson builtin).ExactGuard (fun _ => True) (Guard builtin) (Right builtin) where
  init_iff := fun s hinit => by
    obtain ⟨config, hconfig, hfields, -⟩ := construct_empty gson hreferrer []
    obtain rfl := Option.some.inj (hconfig.symm.trans hinit.1)
    rw [Right, hinit.2.2, hfields]
    exact iff_true_intro (.refl _)
  step_iff := fun s e s' hreach hright hstep => by
    have hinv := inv_of_reachable hreferrer hreach
    cases e with
    | response json =>
      obtain ⟨hnone, rfl⟩ | ⟨remote, hremote, rfl⟩ := next_response hstep
      · exact iff_of_true hright (fun remote hremote => by simp [hnone] at hremote)
      · -- a configuration that is read changes the fields as the merge does
        have hmerge := ConfigFields.agrees_merge_iff remote hright
        rw [fields_of_deserialize hremote, ← ConfigFields.last_concat] at hmerge
        rw [Right, List.map_append, Guard]
        refine hmerge.trans ⟨fun hharmless remote' hremote' => ?_, fun hguard => ?_⟩
        · rwa [fields_of_deserialize hremote']
        · rw [← fields_of_deserialize hremote]
          exact hguard remote hremote
    | restart toArray =>
      obtain ⟨-, hvalues, hfields, -, -, hsupplied⟩ |
        ⟨providers, hproviders, hvalues, hnodup, hset, rfl⟩ := next_restart hinv hreferrer hstep
      · rw [Right, hfields, hsupplied, Guard, hvalues]
        exact ⟨fun h => hright.trans h.symm, fun h => h.symm.trans hright⟩
      · -- a restart reads the providers back from a set: each of them once
        have hperm : Option.Rel List.Perm (some toArray) s.config.fields.providers ↔
            ∀ providers ∈ s.config.vpnConfig.providers, providers.Nodup := by
          change Option.Rel List.Perm (some toArray) s.config.vpnConfig.providers ↔ _
          rw [hproviders, Option.rel_some_some, perm_toArray_iff hnodup hset]
          simp
        rw [Right, Config.fields_withProviders, Guard, hvalues]
        exact (hright.withProviders_iff toArray).trans hperm

/-- Nothing that is set is reset where all is right before and after. -/
theorem staySet_of_right (hreferrer : builtin.referrerRegex = none)
    (hreach : (machine gson builtin).Reachable s) {e : ConfigEvent}
    (hstep : (machine gson builtin).step s e s') (hright : Right builtin s)
    (hright' : Right builtin s') : s.config.fields.StaySet s'.config.fields := by
  cases e with
  | response json =>
    obtain ⟨-, rfl⟩ | ⟨remote, -, rfl⟩ := next_response hstep
    · exact .refl _
    · refine (ConfigFields.staySet_supply _ json.fields).of_agrees hright ?_
      rwa [Right, List.map_append, List.map_singleton, ConfigFields.last_concat] at hright'
  | restart toArray =>
    refine (ConfigFields.StaySet.refl _).of_agrees hright ?_
    have hsupplied : s'.supplied = s.supplied := by
      obtain ⟨-, -, -, -, -, hsupplied⟩ | ⟨providers, -, -, -, -, rfl⟩ :=
        next_restart (inv_of_reachable hreferrer hreach) hreferrer hstep
      · exact hsupplied
      · rfl
    rwa [Right, hsupplied] at hright'

/-- Where all is right there is a url to ask again, if there is a built-in one. -/
theorem getRemoteConfig_of_right (hright : Right builtin s)
    (hset : IsSet List.isEmpty builtin.urls) :
    ∃ url, ConfigUseCase.getRemoteConfig s.config 0 = some url := by
  have hlast : IsSet List.isEmpty s.config.urls := by
    have hurls : s.config.urls = _ := hright.urls .urls
    rw [hurls]
    exact isSet_lastSupplied List.isEmpty _ hset
  obtain ⟨urls, hurls, hne⟩ := hlast
  obtain ⟨url, rest, rfl⟩ := List.exists_cons_of_ne_nil (List.isEmpty_eq_false_iff.mp hne)
  exact ⟨url, by rw [ConfigUseCase.getRemoteConfig, hurls]; rfl⟩

/-- **The configuration survives** every run in which the remote configurations are harmless and no
    restart finds a repeated provider or changes that could not be saved: each field is the last
    one supplied, what is set is never reset, and there is always a url to ask.  The guard is
    exact. -/
theorem configuration_of_guard (gson : Gson) (build : BuildConfig) (strings : NoticeStrings) :
    (∀ s, (machine gson (PopcornApplication.config build strings)).RunUnder (fun _ => True)
        (Guard (PopcornApplication.config build strings)) s →
      Right (PopcornApplication.config build strings) s ∧
      (∀ e s', Guard (PopcornApplication.config build strings) s e →
        (machine gson (PopcornApplication.config build strings)).step s e s' →
        s.config.fields.StaySet s'.config.fields) ∧
      (IsSet List.isEmpty build.CONFIG_DOMAINS →
        ∃ url, ConfigUseCase.getRemoteConfig s.config 0 = some url)) ∧
    (machine gson (PopcornApplication.config build strings)).ExactGuard (fun _ => True)
      (Guard (PopcornApplication.config build strings))
      (Right (PopcornApplication.config build strings)) := by
  have hexact := guard_exact gson (PopcornApplication.config build strings) rfl
  refine ⟨fun s hrun => ?_, hexact⟩
  have hright := hexact.runUnder hrun
  refine ⟨hright, fun e s' hguard hstep => ?_, getRemoteConfig_of_right hright⟩
  have hright' := hexact.runUnder (hrun.next hguard hstep)
  exact staySet_of_right rfl hrun.reachable hstep hright hright'

/-- A build with a url to ask for the configuration. -/
def sampleBuild : BuildConfig where
  CONFIG_DOMAINS := some [some "https://config.example/"]
  UPDATER_DOMAINS := none
  SHARE_DOMAINS := none
  ANALYTICS_TRACKER_ID := none
  API_DOMAIN := none
  API_ANIME_DOMAIN := none
  POSTER_DOMAIN := none
  SUBTITLE_DOMAIN := none
  APP_SITE := none
  APP_FORUM := none
  APP_FACEBOOK := none
  APP_TWITTER := none
  APP_YOUTUBE := none
  IMDB_URL := none
  VPN_PROVIDERS := none

def sampleStrings : NoticeStrings where
  security_recommendation := "Security Warning"
  security_recommendation_msg :=
    "We strongly recommend our users to use VPN to make themselves anonymous while downloading"

def sampleBuiltin : Config :=
  PopcornApplication.config sampleBuild sampleStrings

def sampleStart : ConfigRun where
  config := (ConfigUseCase.construct .standard .empty [] sampleBuiltin).getD sampleBuiltin
  preferences := .empty
  supplied := []

theorem sampleStart_reachable : (machine .standard sampleBuiltin).Reachable sampleStart :=
  .start ⟨rfl, rfl, rfl⟩

/-- A run that ends with another value in a field than it should. -/
theorem exists_not_right {α : Type} (events : List ConfigEvent) (get : ConfigFields → α)
    (hget : ∀ fields₁ fields₂ : ConfigFields, fields₁.Agrees fields₂ → get fields₁ = get fields₂)
    (value expected : α) (hne : value ≠ expected)
    (hrun : (Machine.runEvents (next .standard sampleBuiltin) sampleStart events).map
        (fun s => (get s.config.fields,
          get (ConfigFields.last (s.supplied.map JsonElement.fields) sampleBuiltin.fields))) =
      some (value, expected)) :
    ∃ s, (machine .standard sampleBuiltin).Reachable s ∧ ¬ Right sampleBuiltin s ∧
      get s.config.fields = value := by
  obtain ⟨s, hreach, heq⟩ := Machine.Reachable.exists_of_runEvents
    (show (machine .standard sampleBuiltin).Reachable _ from sampleStart_reachable) hrun
  obtain ⟨hvalue, hexpected⟩ := Prod.mk.inj heq
  refine ⟨s, hreach, fun hright => hne ?_, hvalue⟩
  rw [← hvalue, ← hexpected]
  exact hget _ _ hright

/-- **The configuration is lost** where a remote one has an empty list of urls, with no url left to
    ask; where one says nothing of the referrer expression; and at a restart, where no providers
    have been supplied. -/
theorem configuration_lost :
    (∃ s, (machine .standard sampleBuiltin).Reachable s ∧ ¬ Right sampleBuiltin s ∧
      ConfigUseCase.getRemoteConfig s.config 0 = none) ∧
    (∃ s, (machine .standard sampleBuiltin).Reachable s ∧ ¬ Right sampleBuiltin s ∧
      s.config.referrerRegex = none) ∧
    ∃ s, (machine .standard sampleBuiltin).Reachable s ∧ ¬ Right sampleBuiltin s ∧
      s.config.siteUrl = none := by
  refine ⟨?_, ?_, ?_⟩
  · obtain ⟨s, hreach, hwrong, hurls⟩ := exists_not_right
      [.response (.object [("configDomains", .array [])])]
      (fun fields => fields.urls .urls) (fun _ _ h => h.urls .urls)
      (some []) (some [some "https://config.example/"]) (by decide) (by decide +kernel)
    refine ⟨s, hreach, hwrong, ?_⟩
    rw [ConfigUseCase.getRemoteConfig, show s.config.urls = some [] from hurls]
    rfl
  · exact exists_not_right
      [.response (.object [("referrerRegex", .string "utm_(.*)")]), .response (.object [])]
      (fun fields => fields.string .referrerRegex) (fun _ _ h => h.string .referrerRegex)
      none (some "utm_(.*)") (by decide) (by decide +kernel)
  · exact exists_not_right
      [.response (.object [("appSite", .string "site.example")]), .restart []]
      (fun fields => fields.string .siteUrl) (fun _ _ h => h.string .siteUrl)
      none (some "site.example") (by decide) (by decide +kernel)

end ConfigRun

end PopcornTime.Android
