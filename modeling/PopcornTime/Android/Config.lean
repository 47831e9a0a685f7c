import Mathlib.Data.Finset.Dedup
import Mathlib.Logic.Function.Basic
import PopcornTime.Android.GsonUtils
import PopcornTime.Android.TorrentUtil

namespace PopcornTime.Android

open PopcornTime

/-!
# Android configuration — `Config` and the four lists of its fields

A configuration goes through four lists of fields written by hand: the mapper of the remote JSON,
the merge with the configuration before it, and saving to and loading from the preferences.

* `ConfigMapper.deserialize`, `VpnConfigMapper.deserialize` — a remote configuration.
* `ConfigUseCase.merge` — the fields of the first configuration, and of the second where they are
  missing.
* `ConfigLocalRepository.setConfig`, `getConfig` — saving and loading, and
  `getConfig_setConfig`: what is saved comes back, up to the order of the providers.
-/

/-! ### Configurations -/

/-- `VpnConfig.Alert.Text` -/
structure AlertText where
  text : Option String
  lines : Int32
deriving DecidableEq

/-- `VpnConfig.Alert` -/
structure Alert where
  title : Option String
  texts : List AlertText
deriving DecidableEq

/-- `VpnConfig.Notice` -/
structure Notice where
  iconUrl : Option String
  title : Option String
  text : Option String
deriving DecidableEq

structure VpnConfig where
  providers : Option (List (Option String))
  checkVpnOptionEnabled : Bool
  checkVpnOptionDefault : Bool
  alertEnabled : Bool
  alert : Option Alert
  notice : Option Notice
deriving DecidableEq

/-- `Config`.  Its `VpnConfig` is never null: the mapper, the repository and the application all set
    one. -/
structure Config where
  urls : Option (List (Option String))
  updaterUrls : Option (List (Option String))
  shareUrls : Option (List (Option String))
  analyticsId : Option String
  cinemaUrl : Option String
  animeUrl : Option String
  posterUrl : Option String
  subtitlesUrl : Option String
  siteUrl : Option String
  forumUrl : Option String
  facebookUrl : Option String
  twitterUrl : Option String
  youtubeUrl : Option String
  imdbUrl : Option String
  referrerRegex : Option String
  vpnConfig : VpnConfig
deriving DecidableEq

/-! ### The remote configuration -/

namespace VpnConfigAlertMapper

def KEY_TITLE : String := "title"
def KEY_TEXTS : String := "texts"
def KEY_TEXT_TEXT : String := "text"
def KEY_TEXT_LINES : String := "lines"

def deserializeText : JsonElement → Option AlertText
  | .object jsonText => (GsonUtils.getAsInt jsonText KEY_TEXT_LINES).map (fun lines =>
      { text := GsonUtils.getAsString jsonText KEY_TEXT_TEXT, lines := lines })
  | _ => none

/-- `deserialize`, for a member that may be missing; the outer `none` is an exception. -/
def deserialize : Option JsonElement → Option (Option Alert)
  | none | some .null => some none
  | some (.object jsonAlert) =>
    match jsonAlert.lookup KEY_TEXTS with
    | none => some none
    -- one text that cannot be read throws, and the whole configuration is lost
    | some (.array jsonTexts) => (jsonTexts.mapM deserializeText).map (fun texts =>
        some { title := GsonUtils.getAsString jsonAlert KEY_TITLE, texts := texts })
    | some _ => none
  | some _ => none

def serializeText (text : AlertText) : JsonElement :=
  .object [(KEY_TEXT_TEXT, .ofString text.text), (KEY_TEXT_LINES, .ofInt text.lines)]

/-- `serialize`; a null is written as such. -/
def serialize : Option Alert → JsonElement
  | none => .null
  | some src =>
    .object [(KEY_TITLE, .ofString src.title), (KEY_TEXTS, .array (src.texts.map serializeText))]

end VpnConfigAlertMapper

namespace VpnConfigNoticeMapper

def KEY_ICON_URL : String := "iconUrl"
def KEY_TITLE : String := "title"
def KEY_TEXT : String := "text"

/-- `deserialize`, for a member that may be missing; the outer `none` is an exception. -/
def deserialize : Option JsonElement → Option (Option Notice)
  | none | some .null => some none
  | some (.object jsonNotice) => some (some
      { iconUrl := GsonUtils.getAsString jsonNotice KEY_ICON_URL
        title := GsonUtils.getAsString jsonNotice KEY_TITLE
        text := GsonUtils.getAsString jsonNotice KEY_TEXT })
  | some _ => none

/-- `serialize`; a null is written as such. -/
def serialize : Option Notice → JsonElement
  | none => .null
  | some src => .object [(KEY_ICON_URL, .ofString src.iconUrl), (KEY_TITLE, .ofString src.title),
      (KEY_TEXT, .ofString src.text)]

end VpnConfigNoticeMapper

namespace VpnConfigMapper

def KEY_PROVIDERS : String := "vpn_providers"
def KEY_CHECK_VPN_OPTION_ENABLED : String := "showCheckVpnPopupOption"
def KEY_CHECK_VPN_OPTION_DEFAULT : String := "defOptionState"
def KEY_ALERT_ENABLED : String := "showVpnAlert"
def KEY_ALERT : String := "vpn_alert"
def KEY_NOTICE : String := "vpn_notice"

def deserialize (jsonVpnConfig : List (String × JsonElement)) : Option VpnConfig := do
  let providers ← JsonElement.strings? (jsonVpnConfig.lookup KEY_PROVIDERS)
  let alert ← VpnConfigAlertMapper.deserialize (jsonVpnConfig.lookup KEY_ALERT)
  let notice ← VpnConfigNoticeMapper.deserialize (jsonVpnConfig.lookup KEY_NOTICE)
  return {
    providers := providers
    checkVpnOptionEnabled :=
      GsonUtils.getAsBoolean jsonVpnConfig KEY_CHECK_VPN_OPTION_ENABLED false
    checkVpnOptionDefault := GsonUtils.getAsBoolean jsonVpnConfig KEY_CHECK_VPN_OPTION_DEFAULT true
    alertEnabled := GsonUtils.getAsBoolean jsonVpnConfig KEY_ALERT_ENABLED true
    alert := alert
    notice := notice }

end VpnConfigMapper

namespace ConfigMapper

def KEY_CONFIG_URLS : String := "configDomains"
def KEY_UPDATER_URLS : String := "updaterDomains"
def KEY_SHARE_URLS : String := "shareDomains"
def KEY_ANALYTICS_ID : String := "analyticsTrackerId"
def KEY_CINEMA_URL : String := "apiDomain"
def KEY_ANIME_URL : String := "apiAnimeDomain"
def KEY_POSTER_URL : String := "posterDomain"
def KEY_SUBTITLES_URL : String := "subtitleDomain"
def KEY_SITE_URL : String := "appSite"
def KEY_FORUM_URL : String := "appForum"
def KEY_FACEBOOK_URL : String := "appFacebook"
def KEY_TWITTER_URL : String := "appTwitter"
def KEY_YOUTUBE_URL : String := "appYoutube"
def KEY_IMDB_URL : String := "imdbUrl"
def KEY_REFERRER_REGEX : String := "referrerRegex"

/-- `deserialize`; `none` is an exception, and no configuration. -/
def deserialize : JsonElement → Option Config
  | .object jsonConfig => do
    let urls ← JsonElement.strings? (jsonConfig.lookup KEY_CONFIG_URLS)
    let updaterUrls ← JsonElement.strings? (jsonConfig.lookup KEY_UPDATER_URLS)
    let shareUrls ← JsonElement.strings? (jsonConfig.lookup KEY_SHARE_URLS)
    let vpnConfig ← VpnConfigMapper.deserialize jsonConfig
    return {
      urls := urls
      updaterUrls := updaterUrls
      shareUrls := shareUrls
      analyticsId := GsonUtils.getAsString jsonConfig KEY_ANALYTICS_ID
      cinemaUrl := GsonUtils.getAsString jsonConfig KEY_CINEMA_URL
      animeUrl := GsonUtils.getAsString jsonConfig KEY_ANIME_URL
      posterUrl := GsonUtils.getAsString jsonConfig KEY_POSTER_URL
      subtitlesUrl := GsonUtils.getAsString jsonConfig KEY_SUBTITLES_URL
      siteUrl := GsonUtils.getAsString jsonConfig KEY_SITE_URL
      forumUrl := GsonUtils.getAsString jsonConfig KEY_FORUM_URL
      facebookUrl := GsonUtils.getAsString jsonConfig KEY_FACEBOOK_URL
      twitterUrl := GsonUtils.getAsString jsonConfig KEY_TWITTER_URL
      youtubeUrl := GsonUtils.getAsString jsonConfig KEY_YOUTUBE_URL
      imdbUrl := GsonUtils.getAsString jsonConfig KEY_IMDB_URL
      referrerRegex := GsonUtils.getAsString jsonConfig KEY_REFERRER_REGEX
      vpnConfig := vpnConfig }
  | _ => none

end ConfigMapper

/-! ### Merging -/

namespace ConfigUseCase

def mergeVpn (vpnConfig1 vpnConfig2 : VpnConfig) : VpnConfig :=
  { vpnConfig1 with
    providers := if vpnConfig1.providers = none then vpnConfig2.providers else vpnConfig1.providers
    alert := if vpnConfig1.alert = none then vpnConfig2.alert else vpnConfig1.alert
    notice := if vpnConfig1.notice = none then vpnConfig2.notice else vpnConfig1.notice }

/-- `merge`; the referrer expression is not among its fields. -/
def merge (config1 config2 : Config) : Config :=
  { config1 with
    urls := if config1.urls = none then config2.urls else config1.urls
    updaterUrls := if config1.updaterUrls = none then config2.updaterUrls else config1.updaterUrls
    shareUrls := if config1.shareUrls = none then config2.shareUrls else config1.shareUrls
    analyticsId := if isEmpty config1.analyticsId then config2.analyticsId else config1.analyticsId
    cinemaUrl := if isEmpty config1.cinemaUrl then config2.cinemaUrl else config1.cinemaUrl
    animeUrl := if isEmpty config1.animeUrl then config2.animeUrl else config1.animeUrl
    posterUrl := if isEmpty config1.posterUrl then config2.posterUrl else config1.posterUrl
    subtitlesUrl :=
      if isEmpty config1.subtitlesUrl then config2.subtitlesUrl else config1.subtitlesUrl
    siteUrl := if isEmpty config1.siteUrl then config2.siteUrl else config1.siteUrl
    forumUrl := if isEmpty config1.forumUrl then config2.forumUrl else config1.forumUrl
    facebookUrl := if isEmpty config1.facebookUrl then config2.facebookUrl else config1.facebookUrl
    twitterUrl := if isEmpty config1.twitterUrl then config2.twitterUrl else config1.twitterUrl
    youtubeUrl := if isEmpty config1.youtubeUrl then config2.youtubeUrl else config1.youtubeUrl
    imdbUrl := if isEmpty config1.imdbUrl then config2.imdbUrl else config1.imdbUrl
    vpnConfig := mergeVpn config1.vpnConfig config2.vpnConfig }

end ConfigUseCase

/-! ### The preferences -/

/-- A value of the preferences.  A text that Gson has written is kept as what it was written
    from. -/
inductive Preference
  | string (text : String)
  | json (value : JsonElement)
  | boolean (value : Bool)
  | stringSet (values : Finset (Option String))

/-- `SharedPreferences` -/
abbrev SharedPreferences := String → Option Preference

namespace SharedPreferences

/-- `putString`; a null removes the key. -/
def putString (preferences : SharedPreferences) (key : String) (text : Option String) :
    SharedPreferences :=
  Function.update preferences key (text.map .string)

/-- `putString` of a text that Gson writes. -/
def putJson (preferences : SharedPreferences) (key : String) (value : JsonElement) :
    SharedPreferences :=
  Function.update preferences key (some (.json value))

def putBoolean (preferences : SharedPreferences) (key : String) (value : Bool) :
    SharedPreferences :=
  Function.update preferences key (some (.boolean value))

def putStringSet (preferences : SharedPreferences) (key : String)
    (values : Finset (Option String)) : SharedPreferences :=
  Function.update preferences key (some (.stringSet values))

def getString (preferences : SharedPreferences) (key : String) : Option String :=
  match preferences key with
  | some (.string text) => some text
  | _ => none

/-- `getString` of a text that Gson has written, and reads. -/
def getJson (preferences : SharedPreferences) (gson : Gson) (key : String) : Option JsonElement :=
  match preferences key with
  | some (.json value) => some (gson.reread value)
  | _ => none

def getBoolean (preferences : SharedPreferences) (key : String) (defValue : Bool) : Bool :=
  match preferences key with
  | some (.boolean value) => value
  | _ => defValue

def getStringSet (preferences : SharedPreferences) (key : String) :
    Option (Finset (Option String)) :=
  match preferences key with
  | some (.stringSet values) => some values
  | _ => none

end SharedPreferences

namespace ConfigLocalRepository

def KEY_CONFIG_URLS : String := "config-domains"
def KEY_UPDATER_URLS : String := "updater-domains"
def KEY_SHARE_URLS : String := "share-domains"
def KEY_ANALYTICS_ID : String := "analytics-tracker-id"
def KEY_CINEMA_URL : String := "api-domain"
def KEY_ANIME_URL : String := "api-anime-domain"
def KEY_POSTER_URL : String := "poster-domain"
def KEY_SUBTITLE_URL : String := "subtitles-domain"
def KEY_SITE_URL : String := "app-site"
def KEY_FORUM_URL : String := "app-forum"
def KEY_FACEBOOK_URL : String := "facebook-url"
def KEY_TWITTER_URL : String := "twitter-url"
def KEY_YOUTUBE_URL : String := "youtube-url"
def KEY_IMDB_URL : String := "imdb-url"
def KEY_REFERRER_REGEX : String := "referrer-regex"
def KEY_VPN_PROVIDERS : String := "vpn-providers"
def KEY_CHECK_VPN_OPTION_ENABLED : String := "show-check-vpn-option"
def KEY_CHECK_VPN_OPTION_DEFAULT : String := "check-vpn-connection"
def KEY_ALERT_ENABLED : String := "show-vpn-alert"
def KEY_ALERT : String := "vpn-alert"
def KEY_NOTICE : String := "vpn-notice"

/-- `setConfig`; `none` is the exception of `Arrays.asList` where the providers are null, with
    nothing saved. -/
def setConfig (preferences : SharedPreferences) (config : Config) : Option SharedPreferences :=
  config.vpnConfig.providers.map (fun providers =>
    preferences
      |>.putJson KEY_CONFIG_URLS (.ofStrings config.urls)
      |>.putJson KEY_UPDATER_URLS (.ofStrings config.updaterUrls)
      |>.putJson KEY_SHARE_URLS (.ofStrings config.shareUrls)
      |>.putString KEY_ANALYTICS_ID config.analyticsId
      |>.putString KEY_CINEMA_URL config.cinemaUrl
      |>.putString KEY_ANIME_URL config.animeUrl
      |>.putString KEY_POSTER_URL config.posterUrl
      |>.putString KEY_SUBTITLE_URL config.subtitlesUrl
      |>.putString KEY_SITE_URL config.siteUrl
      |>.putString KEY_FORUM_URL config.forumUrl
      |>.putString KEY_FACEBOOK_URL config.facebookUrl
      |>.putString KEY_TWITTER_URL config.twitterUrl
      |>.putString KEY_YOUTUBE_URL config.youtubeUrl
      |>.putString KEY_IMDB_URL config.imdbUrl
      |>.putString KEY_REFERRER_REGEX config.referrerRegex
      -- as a set: order and repetitions are lost
      |>.putStringSet KEY_VPN_PROVIDERS providers.toFinset
      |>.putBoolean KEY_CHECK_VPN_OPTION_ENABLED config.vpnConfig.checkVpnOptionEnabled
      |>.putBoolean KEY_CHECK_VPN_OPTION_DEFAULT config.vpnConfig.checkVpnOptionDefault
      |>.putBoolean KEY_ALERT_ENABLED config.vpnConfig.alertEnabled
      |>.putJson KEY_ALERT (VpnConfigAlertMapper.serialize config.vpnConfig.alert)
      |>.putJson KEY_NOTICE (VpnConfigNoticeMapper.serialize config.vpnConfig.notice))

/-- `getUrls`; a text that is no `String[]` counts as none. -/
def getUrls (urls : Option JsonElement) : Option (List (Option String)) :=
  (JsonElement.strings? urls).getD none

/-- `getVpnConfig`; the set of providers comes in the order `toArray`. -/
def getVpnConfig (gson : Gson) (preferences : SharedPreferences) (toArray : List (Option String)) :
    Option VpnConfig := do
  let alert ← VpnConfigAlertMapper.deserialize (preferences.getJson gson KEY_ALERT)
  let notice ← VpnConfigNoticeMapper.deserialize (preferences.getJson gson KEY_NOTICE)
  return {
    providers := (preferences.getStringSet KEY_VPN_PROVIDERS).map (fun _ => toArray)
    checkVpnOptionEnabled := preferences.getBoolean KEY_CHECK_VPN_OPTION_ENABLED false
    checkVpnOptionDefault := preferences.getBoolean KEY_CHECK_VPN_OPTION_DEFAULT true
    alertEnabled := preferences.getBoolean KEY_ALERT_ENABLED true
    alert := alert
    notice := notice }

/-- `getConfig`; `none` is an exception. -/
def getConfig (gson : Gson) (preferences : SharedPreferences) (toArray : List (Option String)) :
    Option Config := do
  let vpnConfig ← getVpnConfig gson preferences toArray
  return {
    urls := getUrls (preferences.getJson gson KEY_CONFIG_URLS)
    updaterUrls := getUrls (preferences.getJson gson KEY_UPDATER_URLS)
    shareUrls := getUrls (preferences.getJson gson KEY_SHARE_URLS)
    analyticsId := preferences.getString KEY_ANALYTICS_ID
    cinemaUrl := preferences.getString KEY_CINEMA_URL
    animeUrl := preferences.getString KEY_ANIME_URL
    posterUrl := preferences.getString KEY_POSTER_URL
    subtitlesUrl := preferences.getString KEY_SUBTITLE_URL
    siteUrl := preferences.getString KEY_SITE_URL
    forumUrl := preferences.getString KEY_FORUM_URL
    facebookUrl := preferences.getString KEY_FACEBOOK_URL
    twitterUrl := preferences.getString KEY_TWITTER_URL
    youtubeUrl := preferences.getString KEY_YOUTUBE_URL
    imdbUrl := preferences.getString KEY_IMDB_URL
    referrerRegex := preferences.getString KEY_REFERRER_REGEX
    vpnConfig := vpnConfig }

/-! ### What is saved comes back -/

theorem deserializeText_reread (gson : Gson) (text : AlertText) :
    VpnConfigAlertMapper.deserializeText (gson.reread (VpnConfigAlertMapper.serializeText text)) =
      some text := by
  have hkeys : VpnConfigAlertMapper.KEY_TEXT_TEXT ≠ VpnConfigAlertMapper.KEY_TEXT_LINES := by decide
  rw [VpnConfigAlertMapper.serializeText, gson.reread_members,
    VpnConfigAlertMapper.deserializeText, GsonUtils.getAsInt,
    gson.lookup_rereadMembers_of_ne hkeys.symm, gson.lookup_rereadMembers_cons,
    if_pos ⟨rfl, rfl⟩, gson.reread_ofInt]
  dsimp only
  rw [JsonElement.int?_ofInt, gson.getAsString_rereadMembers]
  · rfl
  · rw [gson.lookup_rereadMembers_of_ne hkeys]
    rfl

theorem deserialize_reread_alert (gson : Gson) (alert : Option Alert) :
    VpnConfigAlertMapper.deserialize
      (some (gson.reread (VpnConfigAlertMapper.serialize alert))) = some alert := by
  cases alert with
  | none =>
    rw [VpnConfigAlertMapper.serialize, gson.reread_null]
    rfl
  | some src =>
    have hkeys : VpnConfigAlertMapper.KEY_TITLE ≠ VpnConfigAlertMapper.KEY_TEXTS := by decide
    have htexts : ((src.texts.map VpnConfigAlertMapper.serializeText).map gson.reread).mapM
        VpnConfigAlertMapper.deserializeText = some src.texts := by
      rw [List.map_map]
      exact Gson.mapM_map_eq_some (deserializeText_reread gson) src.texts
    rw [VpnConfigAlertMapper.serialize, gson.reread_members, VpnConfigAlertMapper.deserialize,
      gson.lookup_rereadMembers_of_ne hkeys.symm, gson.lookup_rereadMembers_cons,
      if_pos ⟨rfl, rfl⟩, gson.reread_array]
    dsimp only
    rw [htexts, gson.getAsString_rereadMembers]
    · rfl
    · rw [gson.lookup_rereadMembers_of_ne hkeys]
      rfl

theorem deserialize_reread_notice (gson : Gson) (notice : Option Notice) :
    VpnConfigNoticeMapper.deserialize
      (some (gson.reread (VpnConfigNoticeMapper.serialize notice))) = some notice := by
  cases notice with
  | none =>
    rw [VpnConfigNoticeMapper.serialize, gson.reread_null]
    rfl
  | some src =>
    have hicon : VpnConfigNoticeMapper.KEY_ICON_URL ≠ VpnConfigNoticeMapper.KEY_TITLE := by decide
    have hicon' : VpnConfigNoticeMapper.KEY_ICON_URL ≠ VpnConfigNoticeMapper.KEY_TEXT := by decide
    have htitle : VpnConfigNoticeMapper.KEY_TITLE ≠ VpnConfigNoticeMapper.KEY_TEXT := by decide
    rw [VpnConfigNoticeMapper.serialize, gson.reread_members, VpnConfigNoticeMapper.deserialize,
      gson.getAsString_rereadMembers, gson.getAsString_rereadMembers_of_ne hicon.symm,
      gson.getAsString_rereadMembers, gson.getAsString_rereadMembers_of_ne hicon'.symm,
      gson.getAsString_rereadMembers_of_ne htitle.symm, gson.getAsString_rereadMembers]
    · rfl
    · rw [gson.lookup_rereadMembers_of_ne htitle]
      rfl
    · rw [gson.lookup_rereadMembers_of_ne hicon, gson.lookup_rereadMembers_of_ne hicon']
      rfl

/-- **What is saved comes back**, with the providers in the order of their set. -/
theorem getConfig_setConfig (gson : Gson) {preferences preferences' : SharedPreferences}
    {config : Config} (h : setConfig preferences config = some preferences')
    (toArray : List (Option String)) :
    getConfig gson preferences' toArray =
      some { config with vpnConfig := { config.vpnConfig with providers := some toArray } } := by
  obtain ⟨providers, hproviders, rfl⟩ := Option.map_eq_some_iff.mp h
  have hstring : ∀ text : Option String, (match text.map Preference.string with
      | some (Preference.string text) => some text
      | _ => none) = text := fun text => by cases text <;> rfl
  -- each key is read behind the one write to it
  simp [getConfig, getVpnConfig, getUrls, SharedPreferences.getString, SharedPreferences.getJson,
    SharedPreferences.getBoolean, SharedPreferences.getStringSet, SharedPreferences.putString,
    SharedPreferences.putJson, SharedPreferences.putBoolean, SharedPreferences.putStringSet,
    KEY_CONFIG_URLS, KEY_UPDATER_URLS, KEY_SHARE_URLS, KEY_ANALYTICS_ID, KEY_CINEMA_URL,
    KEY_ANIME_URL, KEY_POSTER_URL, KEY_SUBTITLE_URL, KEY_SITE_URL, KEY_FORUM_URL,
    KEY_FACEBOOK_URL, KEY_TWITTER_URL, KEY_YOUTUBE_URL, KEY_IMDB_URL, KEY_REFERRER_REGEX,
    KEY_VPN_PROVIDERS, KEY_CHECK_VPN_OPTION_ENABLED, KEY_CHECK_VPN_OPTION_DEFAULT,
    KEY_ALERT_ENABLED, KEY_ALERT, KEY_NOTICE, hstring, deserialize_reread_alert,
    deserialize_reread_notice, gson.strings?_reread_ofStrings]

/-- The set of the providers as it is saved. -/
theorem getStringSet_setConfig {preferences preferences' : SharedPreferences} {config : Config}
    (h : setConfig preferences config = some preferences') :
    preferences'.getStringSet KEY_VPN_PROVIDERS =
      config.vpnConfig.providers.map List.toFinset := by
  obtain ⟨providers, hproviders, rfl⟩ := Option.map_eq_some_iff.mp h
  rw [hproviders]
  rfl

end ConfigLocalRepository

end PopcornTime.Android
