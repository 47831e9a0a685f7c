import PopcornTime.Lib.LastSupplied
import PopcornTime.Android.Config

namespace PopcornTime.Android

open PopcornTime

/-!
# Android configuration — its fields by kind

* `ConfigFields` — the fields that should survive, of a configuration and of a remote JSON.
* `ConfigFields.last` — of each field the last value that is not empty, or the built-in one.
* `ConfigFields.agrees_merge_iff` — which remote configurations the merge brings to it.
* `Config.Based` — a configuration that the built-in one completes by nothing.
-/

/-! ### The fields -/

/-- The fields that are a `String`. -/
inductive StringField
  | analyticsId
  | cinemaUrl
  | animeUrl
  | posterUrl
  | subtitlesUrl
  | siteUrl
  | forumUrl
  | facebookUrl
  | twitterUrl
  | youtubeUrl
  | imdbUrl
  | referrerRegex
deriving DecidableEq

namespace StringField

def value : StringField → Config → Option String
  | analyticsId => Config.analyticsId
  | cinemaUrl => Config.cinemaUrl
  | animeUrl => Config.animeUrl
  | posterUrl => Config.posterUrl
  | subtitlesUrl => Config.subtitlesUrl
  | siteUrl => Config.siteUrl
  | forumUrl => Config.forumUrl
  | facebookUrl => Config.facebookUrl
  | twitterUrl => Config.twitterUrl
  | youtubeUrl => Config.youtubeUrl
  | imdbUrl => Config.imdbUrl
  | referrerRegex => Config.referrerRegex

/-- The member of a remote configuration. -/
def key : StringField → String
  | analyticsId => "analyticsTrackerId"
  | cinemaUrl => "apiDomain"
  | animeUrl => "apiAnimeDomain"
  | posterUrl => "posterDomain"
  | subtitlesUrl => "subtitleDomain"
  | siteUrl => "appSite"
  | forumUrl => "appForum"
  | facebookUrl => "appFacebook"
  | twitterUrl => "appTwitter"
  | youtubeUrl => "appYoutube"
  | imdbUrl => "imdbUrl"
  | referrerRegex => "referrerRegex"

end StringField

/-- The fields that are lists of urls. -/
inductive UrlsField
  | urls
  | updaterUrls
  | shareUrls
deriving DecidableEq

namespace UrlsField

def value : UrlsField → Config → Option (List (Option String))
  | urls => Config.urls
  | updaterUrls => Config.updaterUrls
  | shareUrls => Config.shareUrls

/-- The member of a remote configuration. -/
def key : UrlsField → String
  | urls => "configDomains"
  | updaterUrls => "updaterDomains"
  | shareUrls => "shareDomains"

end UrlsField

/-- The fields that should survive. -/
structure ConfigFields where
  string : StringField → Option String
  urls : UrlsField → Option (List (Option String))
  providers : Option (List (Option String))
  alert : Option Alert
  notice : Option Notice

def Config.fields (config : Config) : ConfigFields where
  string := fun field => field.value config
  urls := fun field => field.value config
  providers := config.vpnConfig.providers
  alert := config.vpnConfig.alert
  notice := config.vpnConfig.notice

namespace JsonElement

def members : JsonElement → List (String × JsonElement)
  | .object members => members
  | _ => []

/-- The list of texts under a key. -/
def getAsStrings (json : JsonElement) (key : String) : Option (List (Option String)) :=
  (strings? (json.members.lookup key)).getD none

/-- What a remote configuration supplies. -/
def fields (json : JsonElement) : ConfigFields where
  string := fun field => GsonUtils.getAsString json.members field.key
  urls := fun field => json.getAsStrings field.key
  providers := json.getAsStrings "vpn_providers"
  alert := (VpnConfigAlertMapper.deserialize (json.members.lookup "vpn_alert")).getD none
  notice := (VpnConfigNoticeMapper.deserialize (json.members.lookup "vpn_notice")).getD none

end JsonElement

theorem fields_of_deserialize {json : JsonElement} {config : Config}
    (h : ConfigMapper.deserialize json = some config) : config.fields = json.fields := by
  cases json with
  | object members =>
    simp only [ConfigMapper.deserialize, VpnConfigMapper.deserialize, Option.pure_def,
      Option.bind_eq_bind, Option.bind_eq_some_iff, Option.some.injEq] at h
    obtain ⟨urls, hurls, updaterUrls, hupdaterUrls, shareUrls, hshareUrls, vpnConfig,
      ⟨providers, hproviders, alert, halert, notice, hnotice, rfl⟩, rfl⟩ := h
    have hread : ∀ {key : String} {texts : Option (List (Option String))},
        JsonElement.strings? (members.lookup key) = some texts →
          JsonElement.getAsStrings (.object members) key = texts := fun h => by
      rw [JsonElement.getAsStrings, JsonElement.members, h, Option.getD_some]
    unfold Config.fields JsonElement.fields
    congr 1
    · funext field
      cases field <;> rfl
    · funext field
      cases field with
      | urls => exact (hread hurls).symm
      | updaterUrls => exact (hread hupdaterUrls).symm
      | shareUrls => exact (hread hshareUrls).symm
    · exact (hread hproviders).symm
    · exact (congrArg (Option.getD · none) halert).symm
    · exact (congrArg (Option.getD · none) hnotice).symm
  | _ => exact absurd h (by simp [ConfigMapper.deserialize])

/-! ### The last values that are not empty -/

/-- Nothing is in the alert. -/
def Alert.isBlank (alert : Alert) : Bool :=
  isEmpty alert.title && alert.texts.isEmpty

/-- Nothing is in the notice. -/
def Notice.isBlank (notice : Notice) : Bool :=
  isEmpty notice.iconUrl && isEmpty notice.title && isEmpty notice.text

/-- A text that is missing or empty is replaced by the one before it. -/
theorem merge_eq_supplyValue (text before : Option String) :
    (if isEmpty text then before else text) =
      supplyValue (fun text => isEmpty (some text)) before text := by
  unfold supplyValue
  cases text with
  | none => rfl
  | some text =>
    rw [Option.filter_some]
    cases hempty : isEmpty (some text) <;> simp [hempty]

/-- A text that is not merged. -/
theorem eq_supplyValue_iff (text : Option String) {before last : Option String}
    (h : before = last) :
    text = supplyValue (fun text => isEmpty (some text)) last text ↔
      (isEmpty text = true → text = before) := by
  rw [h, ← merge_eq_supplyValue]
  cases isEmpty text <;> simp

namespace ConfigFields

/-- Of each field the last value supplied that is not empty, or the built-in one. -/
def last (supplied : List ConfigFields) (builtin : ConfigFields) : ConfigFields where
  string := fun field =>
    lastSupplied (fun text => isEmpty (some text)) (·.string field) supplied builtin
  urls := fun field => lastSupplied List.isEmpty (·.urls field) supplied builtin
  providers := lastSupplied List.isEmpty (·.providers) supplied builtin
  alert := lastSupplied Alert.isBlank (·.alert) supplied builtin
  notice := lastSupplied Notice.isBlank (·.notice) supplied builtin

/-- Each field in the place of the one before, unless it is missing or empty. -/
def supply (before fields : ConfigFields) : ConfigFields where
  string := fun field =>
    supplyValue (fun text => isEmpty (some text)) (before.string field) (fields.string field)
  urls := fun field => supplyValue List.isEmpty (before.urls field) (fields.urls field)
  providers := supplyValue List.isEmpty before.providers fields.providers
  alert := supplyValue Alert.isBlank before.alert fields.alert
  notice := supplyValue Notice.isBlank before.notice fields.notice

@[simp] theorem last_nil (builtin : ConfigFields) : last [] builtin = builtin := rfl

theorem last_concat (supplied : List ConfigFields) (fields builtin : ConfigFields) :
    last (supplied ++ [fields]) builtin = (last supplied builtin).supply fields := by
  simp only [last, supply, lastSupplied_concat]

/-- The same values, the providers up to their order. -/
structure Agrees (fields₁ fields₂ : ConfigFields) : Prop where
  string : ∀ field, fields₁.string field = fields₂.string field
  urls : ∀ field, fields₁.urls field = fields₂.urls field
  providers : Option.Rel List.Perm fields₁.providers fields₂.providers
  alert : fields₁.alert = fields₂.alert
  notice : fields₁.notice = fields₂.notice

/-- What is set before is set after. -/
structure StaySet (before after : ConfigFields) : Prop where
  string : ∀ field, IsSet (fun text => isEmpty (some text)) (before.string field) →
    IsSet (fun text => isEmpty (some text)) (after.string field)
  urls : ∀ field, IsSet List.isEmpty (before.urls field) → IsSet List.isEmpty (after.urls field)
  providers : IsSet List.isEmpty before.providers → IsSet List.isEmpty after.providers
  alert : IsSet Alert.isBlank before.alert → IsSet Alert.isBlank after.alert
  notice : IsSet Notice.isBlank before.notice → IsSet Notice.isBlank after.notice

/-- Nothing empty is supplied where the merge takes it: a list, the alert and the notice may be
    null instead, and the referrer expression may not be missing either. -/
structure Harmless (supplied before : ConfigFields) : Prop where
  referrerRegex : isEmpty (supplied.string .referrerRegex) = true →
    supplied.string .referrerRegex = before.string .referrerRegex
  urls : ∀ field, ∀ urls ∈ supplied.urls field, urls.isEmpty = true → before.urls field = some urls
  providers : supplied.providers = some [] → before.providers = some []
  alert : ∀ alert ∈ supplied.alert, alert.isBlank = true → before.alert = some alert
  notice : ∀ notice ∈ supplied.notice, notice.isBlank = true → before.notice = some notice

variable {fields fields' fields₁ fields₂ : ConfigFields}

namespace Agrees

theorem refl (fields : ConfigFields) : fields.Agrees fields where
  string := fun _ => rfl
  urls := fun _ => rfl
  providers := by
    cases fields.providers with
    | none => exact .none
    | some l => exact .some (List.Perm.refl l)
  alert := rfl
  notice := rfl

theorem symm (h : fields₁.Agrees fields₂) : fields₂.Agrees fields₁ where
  string := fun field => (h.string field).symm
  urls := fun field => (h.urls field).symm
  providers := relPerm_symm h.providers
  alert := h.alert.symm
  notice := h.notice.symm

theorem trans (h₁ : fields₁.Agrees fields) (h₂ : fields.Agrees fields₂) :
    fields₁.Agrees fields₂ where
  string := fun field => (h₁.string field).trans (h₂.string field)
  urls := fun field => (h₁.urls field).trans (h₂.urls field)
  providers := relPerm_trans h₁.providers h₂.providers
  alert := h₁.alert.trans h₂.alert
  notice := h₁.notice.trans h₂.notice

/-- Only the providers have changed. -/
theorem withProviders_iff (h : fields₁.Agrees fields₂) (l : List (Option String)) :
    ({ fields₁ with providers := some l } : ConfigFields).Agrees fields₂ ↔
      Option.Rel List.Perm (some l) fields₁.providers :=
  ⟨fun h' => relPerm_trans h'.providers (relPerm_symm h.providers),
    fun hl => ⟨h.string, h.urls, relPerm_trans hl h.providers, h.alert, h.notice⟩⟩

end Agrees

theorem StaySet.refl (fields : ConfigFields) : fields.StaySet fields :=
  ⟨fun _ h => h, fun _ h => h, fun h => h, fun h => h, fun h => h⟩

theorem staySet_supply (before fields : ConfigFields) : before.StaySet (before.supply fields) where
  string := fun field h => h.supplied (fields.string field)
  urls := fun field h => h.supplied (fields.urls field)
  providers := fun h => h.supplied fields.providers
  alert := fun h => h.supplied fields.alert
  notice := fun h => h.supplied fields.notice

/-- Fields that agree may stand for each other. -/
theorem StaySet.of_agrees (h : fields₁.StaySet fields₂) (h₁ : fields.Agrees fields₁)
    (h₂ : fields'.Agrees fields₂) : fields.StaySet fields' where
  string := fun field hset => by
    rw [h₂.string]
    exact h.string field (h₁.string field ▸ hset)
  urls := fun field hset => by
    rw [h₂.urls]
    exact h.urls field (h₁.urls field ▸ hset)
  providers := fun hset =>
    (h.providers (hset.of_rel_perm h₁.providers)).of_rel_perm (relPerm_symm h₂.providers)
  alert := fun hset => by
    rw [h₂.alert]
    exact h.alert (h₁.alert ▸ hset)
  notice := fun hset => by
    rw [h₂.notice]
    exact h.notice (h₁.notice ▸ hset)

end ConfigFields

/-! ### Merging, field by field -/

theorem value_merge_string {field : StringField} (hfield : field ≠ .referrerRegex)
    (config₁ config₂ : Config) :
    field.value (ConfigUseCase.merge config₁ config₂) =
      if isEmpty (field.value config₁) then field.value config₂ else field.value config₁ := by
  cases field with
  | referrerRegex => exact absurd rfl hfield
  | _ => rfl

theorem value_merge_urls (field : UrlsField) (config₁ config₂ : Config) :
    field.value (ConfigUseCase.merge config₁ config₂) =
      if field.value config₁ = none then field.value config₂ else field.value config₁ := by
  cases field <;> rfl

/-- A configuration is given by its fields. -/
theorem Config.eq_of_values {config₁ config₂ : Config}
    (hstring : ∀ field : StringField, field.value config₁ = field.value config₂)
    (hurls : ∀ field : UrlsField, field.value config₁ = field.value config₂)
    (hvpnConfig : config₁.vpnConfig = config₂.vpnConfig) : config₁ = config₂ := by
  cases config₁
  cases config₂
  simp only [Config.mk.injEq]
  exact ⟨hurls .urls, hurls .updaterUrls, hurls .shareUrls, hstring .analyticsId,
    hstring .cinemaUrl, hstring .animeUrl, hstring .posterUrl, hstring .subtitlesUrl,
    hstring .siteUrl, hstring .forumUrl, hstring .facebookUrl, hstring .twitterUrl,
    hstring .youtubeUrl, hstring .imdbUrl, hstring .referrerRegex, hvpnConfig⟩

/-- **A remote configuration is merged right** exactly when it is harmless. -/
theorem ConfigFields.agrees_merge_iff (config : Config) {before : Config} {last : ConfigFields}
    (h : before.fields.Agrees last) :
    (ConfigUseCase.merge config before).fields.Agrees (last.supply config.fields) ↔
      config.fields.Harmless before.fields := by
  -- the referrer is taken as it comes, the other texts only when they are not empty
  have hreferrer := eq_supplyValue_iff config.referrerRegex (h.string .referrerRegex)
  have hurls : ∀ field : UrlsField, field.value (ConfigUseCase.merge config before) =
      supplyValue List.isEmpty (last.urls field) (field.value config) ↔
      ∀ urls ∈ field.value config, urls.isEmpty = true → field.value before = some urls := by
    intro field
    rw [value_merge_urls]
    exact mergeNull_eq_supplyValue_iff List.isEmpty _ (h.urls field)
  have hproviders := mergeNull_perm_supplyValue_iff config.vpnConfig.providers h.providers
  have halert := mergeNull_eq_supplyValue_iff Alert.isBlank config.vpnConfig.alert h.alert
  have hnotice := mergeNull_eq_supplyValue_iff Notice.isBlank config.vpnConfig.notice h.notice
  constructor
  · intro hagrees
    exact {
      referrerRegex := hreferrer.mp (hagrees.string .referrerRegex)
      urls := fun field => (hurls field).mp (hagrees.urls field)
      providers := hproviders.mp hagrees.providers
      alert := halert.mp hagrees.alert
      notice := hnotice.mp hagrees.notice }
  · intro hharmless
    refine {
      string := ?_
      urls := fun field => (hurls field).mpr (hharmless.urls field)
      providers := hproviders.mpr hharmless.providers
      alert := halert.mpr hharmless.alert
      notice := hnotice.mpr hharmless.notice }
    intro field
    by_cases hfield : field = .referrerRegex
    · rw [hfield]
      exact hreferrer.mpr hharmless.referrerRegex
    · -- the texts other than the referrer are merged as they are supplied
      have hstring := value_merge_string hfield config before
      rw [merge_eq_supplyValue] at hstring
      exact hstring.trans (congrArg (supplyValue _ · (field.value config)) (h.string field))

/-! ### Configurations on top of the built-in one -/

/-- What is missing in the configuration is missing in the built-in one. -/
structure Config.Based (builtin config : Config) : Prop where
  string : ∀ field : StringField, field ≠ .referrerRegex → isEmpty (field.value config) = true →
    field.value builtin = field.value config
  urls : ∀ field : UrlsField, field.value config = none → field.value builtin = none
  providers : config.vpnConfig.providers = none → builtin.vpnConfig.providers = none
  alert : config.vpnConfig.alert = none → builtin.vpnConfig.alert = none
  notice : config.vpnConfig.notice = none → builtin.vpnConfig.notice = none

namespace Config.Based

variable {builtin config : Config}

theorem refl (builtin : Config) : builtin.Based builtin :=
  ⟨fun _ _ _ => rfl, fun _ h => h, fun h => h, fun h => h, fun h => h⟩

/-- A remote configuration keeps it. -/
theorem merge (h : builtin.Based config) (remote : Config) :
    builtin.Based (ConfigUseCase.merge remote config) := by
  have hnull : ∀ {α : Type} {a b c : Option α} [Decidable (a = none)],
      (b = none → c = none) → (if a = none then b else a) = none → c = none := by
    intro α a b c _ hb hab
    split at hab
    · exact hb hab
    · contradiction
  constructor
  · intro field hfield hempty
    rw [value_merge_string hfield] at hempty ⊢
    split at hempty
    · rw [if_pos ‹_›]
      exact h.string field hfield hempty
    · contradiction
  · intro field
    rw [value_merge_urls]
    exact hnull (h.urls field)
  · exact hnull h.providers
  · exact hnull h.alert
  · exact hnull h.notice

/-- Then the built-in configuration completes nothing. -/
theorem merge_eq_left (h : builtin.Based config) : ConfigUseCase.merge config builtin = config := by
  have hnull : ∀ {α : Type} {a b : Option α} [Decidable (a = none)], (a = none → b = none) →
      (if a = none then b else a) = a := by
    intro α a b _ hab
    split
    · rw [hab ‹_›, ‹a = none›]
    · rfl
  refine eq_of_values (fun field => ?_) (fun field => ?_) ?_
  · by_cases hfield : field = .referrerRegex
    · rw [hfield]
      rfl
    · rw [value_merge_string hfield]
      split
      · exact h.string field hfield ‹_›
      · rfl
  · rw [value_merge_urls]
    exact hnull (h.urls field)
  · change ConfigUseCase.mergeVpn config.vpnConfig builtin.vpnConfig = config.vpnConfig
    unfold ConfigUseCase.mergeVpn
    rw [hnull h.providers, hnull h.alert, hnull h.notice]

end Config.Based

end PopcornTime.Android
