import Mathlib.Data.Int.Notation
import Mathlib.Tactic.SplitIfs
import PopcornTime.Android.Database

namespace PopcornTime.Android

/-!
# Android details — `DetailsUseCase`

The properties of the details page.  A property that is set notifies its subscribers, which derive
the next one: the seasons of a video, the episodes of a season, the dubbings of an episode or a
movie, the torrents of a dubbing.  A torrent that is chosen makes `PopcornApplication` ask for
subtitles; where none is left, the subtitles are cleared.

* `ChoiceProperty` — items and a position.
* `Details.setVideoInfo`, `setSeasonPosition`, … — the calls of the pages, with all they notify.
* `Details.setSubtitles` — what a reply to a request for subtitles does.
* `KeepsOrClears` — a cascade of notifications keeps the subtitles or clears them.
-/

/-! ### The data -/

/-- `ChoiceProperty`, without its observers. -/
structure ChoiceProperty (α : Type) where
  items : Option (List α)
  position : ℤ
deriving DecidableEq

namespace ChoiceProperty

variable {α : Type}

def getDefaultPosition : Option (List α) → ℤ
  | some (_ :: _) => 0
  | _ => -1

def new : ChoiceProperty α := ⟨none, getDefaultPosition (none : Option (List α))⟩

def setItems (items : Option (List α)) (_ : ChoiceProperty α) : ChoiceProperty α :=
  ⟨items, getDefaultPosition items⟩

def setPosition (position : ℤ) (p : ChoiceProperty α) : ChoiceProperty α :=
  { p with position := position }

def getItem (p : ChoiceProperty α) : Option α :=
  if 0 ≤ p.position then p.items.bind fun items => items[p.position.toNat]? else none

end ChoiceProperty

/-- `Torrent`, as far as the choice of subtitles reads it. -/
structure Torrent where
  hash : String
deriving DecidableEq

/-- The torrents by the language of their dubbing; a list may be null. -/
abbrev LangTorrents := List (String × Option (List Torrent))

/-- `Episode` -/
structure Episode where
  number : ℤ
  langTorrents : Option LangTorrents
deriving DecidableEq

/-- `Season` -/
structure Season where
  number : ℤ
  episodes : Option (List Episode)
deriving DecidableEq

/-- `Subtitles` -/
structure Subtitles where
  url : String
  delay : ℤ
deriving DecidableEq

/-- The subtitles by language. -/
abbrev LangSubtitles := List (String × List Subtitles)

def Anime.TYPE_MOVIES : String := "anime-list"

/-- The four classes of `VideoInfo`. -/
inductive VideoInfo
  | cinemaMovies (imdb : String) (langTorrents : Option LangTorrents)
  | cinemaTvShows (imdb : String) (seasons : Option (List Season))
  | animeMovies (imdb : String) (langTorrents : Option LangTorrents)
  | animeTvShows (imdb : String) (seasons : Option (List Season))
deriving DecidableEq

namespace VideoInfo

def getType : VideoInfo → String
  | cinemaMovies .. => Cinema.TYPE_MOVIES
  | cinemaTvShows .. => Cinema.TYPE_TV_SHOWS
  | animeMovies .. => Anime.TYPE_MOVIES
  | animeTvShows .. => Anime.TYPE_TV_SHOWS

def getImdb : VideoInfo → String
  | cinemaMovies imdb _ | cinemaTvShows imdb _ | animeMovies imdb _ | animeTvShows imdb _ => imdb

end VideoInfo

/-- `WatchInfo`, as far as the choice of subtitles reads it. -/
structure WatchInfo where
  imdb : String
  type : String
  season : ℤ
  episode : ℤ
deriving DecidableEq

/-- A request of `SubtitlesRepository`: a movie has no season and episode, and an empty number is
    none. -/
structure SubtitlesRequest where
  imdb : String
  numbers : Option (Option ℤ × Option ℤ)
  hash : Option String
deriving DecidableEq

namespace SubtitlesProvider

/-- `getSubtitlesProvider` by type: the content providers of anime have none. -/
def ofType (type : String) : Bool :=
  type == Cinema.TYPE_MOVIES || type == Cinema.TYPE_TV_SHOWS

/-- `getSubtitles` for a details page; `none` is the error of a wrong type. -/
def getSubtitles (videoInfo : VideoInfo) (season : Option Season) (episode : Option Episode)
    (torrent : Option Torrent) : Option SubtitlesRequest :=
  match videoInfo with
  | .cinemaMovies imdb _ => some ⟨imdb, none, torrent.map Torrent.hash⟩
  | .cinemaTvShows imdb _ =>
    some ⟨imdb, some (season.map Season.number, episode.map Episode.number),
      torrent.map Torrent.hash⟩
  | .animeMovies .. | .animeTvShows .. => none

/-- `getSubtitles` for a watch. -/
def getSubtitlesOfWatch (watchInfo : WatchInfo) : Option SubtitlesRequest :=
  if watchInfo.type = Cinema.TYPE_MOVIES then some ⟨watchInfo.imdb, none, none⟩
  else if watchInfo.type = Cinema.TYPE_TV_SHOWS then
    some ⟨watchInfo.imdb, some (some watchInfo.season, some watchInfo.episode), none⟩
  else none

end SubtitlesProvider

/-- The properties of `DetailsUseCase`, and the subscription of `PopcornApplication` to subtitles
    while it is open. -/
structure Details where
  videoInfo : Option VideoInfo
  season : ChoiceProperty Season
  episode : ChoiceProperty Episode
  dubbing : ChoiceProperty (String × Option (List Torrent))
  torrent : ChoiceProperty Torrent
  langSubtitles : ChoiceProperty (String × List Subtitles)
  subtitles : ChoiceProperty Subtitles
  customSubtitles : Option Subtitles
  subtitlesDisposable : Option SubtitlesRequest
deriving DecidableEq

namespace Details

/-- The properties when the application starts. -/
def new : Details :=
  ⟨none, .new, .new, .new, .new, .new, .new, none, none⟩

/-! ### What the properties notify, the last one first -/

/-- `langSubtitlesChoiceProperty.setItems`, with its subscriber. -/
def setLangSubtitles (items : Option LangSubtitles) (position : ℤ) (d : Details) : Details :=
  let langSubtitles : ChoiceProperty (String × List Subtitles) := ⟨items, position⟩
  { d with
    langSubtitles := langSubtitles
    subtitles := d.subtitles.setItems (langSubtitles.getItem.map Prod.snd) }

/-- The subscriber of `DetailsUseCase` to the torrents. -/
def clearSubtitles (d : Details) : Details :=
  match d.torrent.getItem with
  | some _ => d
  | none =>
    { d.setLangSubtitles none (ChoiceProperty.getDefaultPosition (none : Option LangSubtitles)) with
      customSubtitles := none }

/-- The subscriber of `PopcornApplication` to the torrents: an open request is disposed of, and a
    torrent that is chosen makes a new one. -/
def requestSubtitles (d : Details) : Details :=
  { d with
    subtitlesDisposable :=
      match d.videoInfo, d.torrent.getItem with
      | some videoInfo, some torrent =>
        if SubtitlesProvider.ofType videoInfo.getType then
          SubtitlesProvider.getSubtitles videoInfo d.season.getItem d.episode.getItem (some torrent)
        else none
      | _, _ => none }

/-- The subscribers to the torrents, in the order of their subscription. -/
def notifyTorrent (d : Details) : Details :=
  requestSubtitles (clearSubtitles d)

def updateTorrentChoiceProperty (torrents : Option (List Torrent)) (d : Details) : Details :=
  notifyTorrent { d with torrent := d.torrent.setItems torrents }

def notifyDubbing (d : Details) : Details :=
  d.updateTorrentChoiceProperty (d.dubbing.getItem.bind Prod.snd)

def updateDubbingChoiceProperty (langTorrents : Option LangTorrents) (d : Details) : Details :=
  notifyDubbing { d with dubbing := d.dubbing.setItems langTorrents }

def notifyEpisode (d : Details) : Details :=
  d.updateDubbingChoiceProperty (d.episode.getItem.bind Episode.langTorrents)

def updateEpisodeChoiceProperty (episodes : Option (List Episode)) (d : Details) : Details :=
  notifyEpisode { d with episode := d.episode.setItems episodes }

def notifySeason (d : Details) : Details :=
  d.updateEpisodeChoiceProperty (d.season.getItem.bind Season.episodes)

def updateSeasonChoiceProperty (seasons : Option (List Season)) (d : Details) : Details :=
  notifySeason { d with season := d.season.setItems seasons }

/-! ### The calls -/

/-- `videoInfoProperty.setValue` -/
def setVideoInfo (videoInfo : Option VideoInfo) (d : Details) : Details :=
  let d := { d with videoInfo := videoInfo }
  match videoInfo with
  | none => d.updateSeasonChoiceProperty none
  | some (.cinemaMovies _ langTorrents) | some (.animeMovies _ langTorrents) =>
    (d.updateSeasonChoiceProperty none).updateDubbingChoiceProperty langTorrents
  | some (.cinemaTvShows _ seasons) | some (.animeTvShows _ seasons) =>
    d.updateSeasonChoiceProperty seasons

/-- `seasonChoiceProperty.setPosition` -/
def setSeasonPosition (position : ℤ) (d : Details) : Details :=
  notifySeason { d with season := d.season.setPosition position }

/-- `episodeChoiceProperty.setPosition` -/
def setEpisodePosition (position : ℤ) (d : Details) : Details :=
  notifyEpisode { d with episode := d.episode.setPosition position }

/-- `dubbingChoiceProperty.setPosition` -/
def setDubbingPosition (position : ℤ) (d : Details) : Details :=
  notifyDubbing { d with dubbing := d.dubbing.setPosition position }

/-- `torrentChoiceProperty.setPosition` -/
def setTorrentPosition (position : ℤ) (d : Details) : Details :=
  notifyTorrent { d with torrent := d.torrent.setPosition position }

/-- `onNext` of a request for subtitles: the language of the settings is chosen, or none.
    `isoToName` is `SubtitlesLanguage.subtitlesIsoToName`. -/
def setSubtitles (isoToName : String → String) (subLang : String) (subtitles : LangSubtitles)
    (d : Details) : Details :=
  let position : ℤ :=
    if subLang = "" then -1
    else
      match subtitles.findIdx? fun entry => subLang == isoToName entry.1 with
      | some i => i
      | none => -1
  d.setLangSubtitles (some subtitles) position

/-- `onError` and `onComplete` of the request of `PopcornApplication`. -/
def endSubtitles (d : Details) : Details :=
  { d with subtitlesDisposable := none }

/-- `buildWatchInfo`; `none` is a `NullPointerException`. -/
def buildWatchInfo (d : Details) : Option WatchInfo :=
  match d.videoInfo with
  | none => none
  | some videoInfo =>
    match videoInfo with
    -- a film has season and episode zero
    | .cinemaMovies .. | .animeMovies .. => some ⟨videoInfo.getImdb, videoInfo.getType, 0, 0⟩
    | .cinemaTvShows .. | .animeTvShows .. => do
      let season ← d.season.getItem
      let episode ← d.episode.getItem
      return ⟨videoInfo.getImdb, videoInfo.getType, season.number, episode.number⟩

/-! ### Cascades and the subtitles -/

variable {d : Details}

@[simp] theorem langSubtitles_requestSubtitles :
    d.requestSubtitles.langSubtitles = d.langSubtitles := rfl

/-- The subtitles of `d` are kept in `d'`, or cleared. -/
def KeepsOrClears (d d' : Details) : Prop :=
  d'.langSubtitles.items = d.langSubtitles.items ∨ d'.langSubtitles.items = none

/-- One cascade behind another. -/
theorem KeepsOrClears.trans {d₁ d₂ d₃ : Details} (h₁ : d₁.KeepsOrClears d₂)
    (h₂ : d₂.KeepsOrClears d₃) : d₁.KeepsOrClears d₃ := by
  rcases h₂ with hkept | hcleared
  · rw [KeepsOrClears, hkept]
    exact h₁
  · exact .inr hcleared

/-- A notification keeps the subtitles, or clears them where no torrent is chosen. -/
theorem keepsOrClears_notifyTorrent : d.KeepsOrClears d.notifyTorrent := by
  rw [KeepsOrClears, notifyTorrent, langSubtitles_requestSubtitles, clearSubtitles]
  cases d.torrent.getItem with
  | none => exact .inr rfl
  | some torrent => exact .inl rfl

/-! A notification of one property ends in a notification of the torrents. -/

/-- Of the dubbing, -/
theorem keepsOrClears_notifyDubbing : d.KeepsOrClears d.notifyDubbing :=
  keepsOrClears_notifyTorrent
    (d := { d with torrent := d.torrent.setItems (d.dubbing.getItem.bind Prod.snd) })

/-- of new dubbings, -/
theorem keepsOrClears_updateDubbingChoiceProperty {langTorrents : Option LangTorrents} :
    d.KeepsOrClears (d.updateDubbingChoiceProperty langTorrents) :=
  keepsOrClears_notifyDubbing (d := { d with dubbing := d.dubbing.setItems langTorrents })

/-- of the episode, -/
theorem keepsOrClears_notifyEpisode : d.KeepsOrClears d.notifyEpisode :=
  keepsOrClears_updateDubbingChoiceProperty

/-- of the season, -/
theorem keepsOrClears_notifySeason : d.KeepsOrClears d.notifySeason :=
  keepsOrClears_notifyEpisode
    (d := { d with episode := d.episode.setItems (d.season.getItem.bind Season.episodes) })

/-- and of new seasons. -/
theorem keepsOrClears_updateSeasonChoiceProperty {seasons : Option (List Season)} :
    d.KeepsOrClears (d.updateSeasonChoiceProperty seasons) :=
  keepsOrClears_notifySeason (d := { d with season := d.season.setItems seasons })

/-- A new video, which for a movie is two cascades. -/
theorem keepsOrClears_setVideoInfo {videoInfo : Option VideoInfo} :
    d.KeepsOrClears (d.setVideoInfo videoInfo) := by
  have hseasons : ∀ seasons, d.KeepsOrClears
      ({ d with videoInfo := videoInfo }.updateSeasonChoiceProperty seasons) := fun _ =>
    keepsOrClears_updateSeasonChoiceProperty (d := { d with videoInfo := videoInfo })
  cases videoInfo with
  | none => exact hseasons none
  | some videoInfo =>
    cases videoInfo with
    | cinemaMovies | animeMovies =>
      exact (hseasons none).trans keepsOrClears_updateDubbingChoiceProperty
    | cinemaTvShows _ seasons | animeTvShows _ seasons => exact hseasons seasons

/-- The choice of a season, -/
theorem keepsOrClears_setSeasonPosition {position : ℤ} :
    d.KeepsOrClears (d.setSeasonPosition position) :=
  keepsOrClears_notifySeason (d := { d with season := d.season.setPosition position })

/-- of an episode, -/
theorem keepsOrClears_setEpisodePosition {position : ℤ} :
    d.KeepsOrClears (d.setEpisodePosition position) :=
  keepsOrClears_notifyEpisode (d := { d with episode := d.episode.setPosition position })

/-- of a dubbing, -/
theorem keepsOrClears_setDubbingPosition {position : ℤ} :
    d.KeepsOrClears (d.setDubbingPosition position) :=
  keepsOrClears_notifyDubbing (d := { d with dubbing := d.dubbing.setPosition position })

/-- and of a torrent. -/
theorem keepsOrClears_setTorrentPosition {position : ℤ} :
    d.KeepsOrClears (d.setTorrentPosition position) :=
  keepsOrClears_notifyTorrent (d := { d with torrent := d.torrent.setPosition position })

end Details

end PopcornTime.Android
