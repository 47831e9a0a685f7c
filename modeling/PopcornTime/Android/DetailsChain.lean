import PopcornTime.Lib.Machine
import PopcornTime.Android.DetailsUseCase

namespace PopcornTime.Android

open PopcornTime

/-!
# Android details — the chain of selections

Season, episode, dubbing and torrent are derived from each other by notifications inside
notifications.  All of them end in the subscribers to the torrents, which leave the four
properties alone: a cascade is what `Selection.fromSeason` and its likes say in one step.

* `Selection` — the part of the details that the chain is about.
* `Selection.Chained` — the items of each property are those of what the one before it stands at.
* `SelectionEvent`, `Details.next` — the calls of the pages, and what fills the subtitles.
* `chained_of_calls` — the chain in every state, and what each call leaves behind.
-/

/-! ### What is derived from what -/

namespace ChoiceProperty

variable {α : Type}

/-- Items that are derived anew. -/
def first (items : Option (List α)) : ChoiceProperty α := ⟨items, getDefaultPosition items⟩

/-- At the first item, or at `-1` where there is none. -/
def AtFirst (p : ChoiceProperty α) : Prop :=
  (∃ a rest, p.items = some (a :: rest) ∧ p.position = 0 ∧ p.getItem = some a) ∨
    (p.items = none ∨ p.items = some []) ∧ p.position = -1 ∧ p.getItem = none

/-- An index of the items there are. -/
def IsIndex (p : ChoiceProperty α) (position : ℤ) : Prop :=
  ∃ items ∈ p.items, 0 ≤ position ∧ position < items.length

instance {p : ChoiceProperty α} {position : ℤ} : Decidable (p.IsIndex position) :=
  inferInstanceAs (Decidable (∃ items ∈ p.items, _))

/-- What is derived anew stands at its first item. -/
theorem atFirst_first {items : Option (List α)} : (first items).AtFirst := by
  match items with
  | none => exact .inr ⟨.inl rfl, rfl, rfl⟩
  | some [] => exact .inr ⟨.inr rfl, rfl, rfl⟩
  | some (a :: rest) => exact .inl ⟨a, rest, rfl, rfl, rfl⟩

/-- Without items none is selected. -/
theorem getItem_of_items_eq_none {p : ChoiceProperty α} (h : p.items = none) :
    p.getItem = none := by
  rw [getItem, h]
  simp

end ChoiceProperty

namespace VideoInfo

/-- The seasons of a show; a movie has none. -/
def seasons : VideoInfo → Option (List Season)
  | cinemaMovies .. | animeMovies .. => none
  | cinemaTvShows _ seasons | animeTvShows _ seasons => seasons

/-- The dubbings of a movie; those of a show are its episodes'. -/
def movieTorrents : VideoInfo → Option (Option LangTorrents)
  | cinemaMovies _ langTorrents | animeMovies _ langTorrents => some langTorrents
  | cinemaTvShows .. | animeTvShows .. => none

end VideoInfo

/-- The video and what is selected of it. -/
structure Selection where
  videoInfo : Option VideoInfo
  season : ChoiceProperty Season
  episode : ChoiceProperty Episode
  dubbing : ChoiceProperty (String × Option (List Torrent))
  torrent : ChoiceProperty Torrent

namespace Selection

/-- The dubbings there are to choose from: those of the movie or of the selected episode. -/
def langTorrents (s : Selection) : Option LangTorrents :=
  match s.videoInfo.bind VideoInfo.movieTorrents with
  | some langTorrents => langTorrents
  | none => s.episode.getItem.bind Episode.langTorrents

/-- The items of each property are derived from the one before it. -/
structure Chained (s : Selection) : Prop where
  season : s.season.items = s.videoInfo.bind VideoInfo.seasons
  episode : s.episode.items = s.season.getItem.bind Season.episodes
  dubbing : s.dubbing.items = s.langTorrents
  torrent : s.torrent.items = s.dubbing.getItem.bind Prod.snd

/-- The properties behind the dubbing, the episode or the season, derived anew. -/
def fromDubbing (s : Selection) : Selection :=
  { s with torrent := .first (s.dubbing.getItem.bind Prod.snd) }

def fromEpisode (s : Selection) : Selection :=
  fromDubbing { s with dubbing := .first (s.episode.getItem.bind Episode.langTorrents) }

def fromSeason (s : Selection) : Selection :=
  fromEpisode { s with episode := .first (s.season.getItem.bind Season.episodes) }

variable {s : Selection}

/-- Only a show has seasons to choose from. -/
theorem Chained.not_movie_of_season (h : s.Chained) (hitems : s.season.items ≠ none) :
    s.videoInfo.bind VideoInfo.movieTorrents = none := by
  rw [h.season] at hitems
  match hvideo : s.videoInfo with
  | none => rfl
  | some (.cinemaMovies ..) | some (.animeMovies ..) =>
    rw [hvideo] at hitems
    exact absurd rfl hitems
  | some (.cinemaTvShows ..) | some (.animeTvShows ..) => rfl

/-- Only a show has episodes to choose from. -/
theorem Chained.not_movie_of_episode (h : s.Chained) (hitems : s.episode.items ≠ none) :
    s.videoInfo.bind VideoInfo.movieTorrents = none := by
  refine h.not_movie_of_season fun hseason => hitems ?_
  rw [h.episode, ChoiceProperty.getItem_of_items_eq_none hseason]
  rfl

/-- The chain is closed behind the dubbing, -/
theorem chained_fromDubbing (hseason : s.season.items = s.videoInfo.bind VideoInfo.seasons)
    (hepisode : s.episode.items = s.season.getItem.bind Season.episodes)
    (hdubbing : s.dubbing.items = s.langTorrents) : s.fromDubbing.Chained :=
  ⟨hseason, hepisode, hdubbing, rfl⟩

/-- behind the episode of a show, -/
theorem chained_fromEpisode (hseason : s.season.items = s.videoInfo.bind VideoInfo.seasons)
    (hepisode : s.episode.items = s.season.getItem.bind Season.episodes)
    (hshow : s.videoInfo.bind VideoInfo.movieTorrents = none) : s.fromEpisode.Chained := by
  refine chained_fromDubbing hseason hepisode ?_
  rw [langTorrents, hshow]
  rfl

/-- and behind its season. -/
theorem chained_fromSeason (hseason : s.season.items = s.videoInfo.bind VideoInfo.seasons)
    (hshow : s.videoInfo.bind VideoInfo.movieTorrents = none) : s.fromSeason.Chained :=
  chained_fromEpisode hseason rfl hshow

end Selection

/-! ### The cascades -/

namespace Details

variable {d : Details}

def selection (d : Details) : Selection :=
  ⟨d.videoInfo, d.season, d.episode, d.dubbing, d.torrent⟩

/-- Where no torrent is selected, there are no subtitles. -/
def Cleared (d : Details) : Prop :=
  d.torrent.getItem = none →
    d.langSubtitles = .first none ∧ d.subtitles = .first none ∧ d.customSubtitles = none

/-- The subscribers to the torrents leave the selection alone. -/
theorem selection_notifyTorrent : d.notifyTorrent.selection = d.selection := by
  rw [notifyTorrent, clearSubtitles]
  cases d.torrent.getItem with
  | none => rfl
  | some torrent => rfl

/-- And they clear the subtitles where there is no torrent. -/
theorem cleared_notifyTorrent : d.notifyTorrent.Cleared := by
  intro hnone
  have htorrent : d.notifyTorrent.torrent = d.torrent :=
    congrArg Selection.torrent selection_notifyTorrent
  rw [htorrent] at hnone
  rw [notifyTorrent, clearSubtitles, hnone]
  exact ⟨rfl, rfl, rfl⟩

/-! Every cascade is a notification of the torrents in the end. -/

/-- The one of the dubbing derives the torrents. -/
theorem selection_notifyDubbing : d.notifyDubbing.selection = d.selection.fromDubbing :=
  selection_notifyTorrent

/-- The one of the episode derives the dubbings first. -/
theorem selection_notifyEpisode : d.notifyEpisode.selection = d.selection.fromEpisode :=
  selection_notifyTorrent

/-- The one of the season derives the episodes before that. -/
theorem selection_notifySeason : d.notifySeason.selection = d.selection.fromSeason :=
  selection_notifyTorrent

/-- New dubbings are one cascade, -/
theorem selection_updateDubbing {langTorrents : Option LangTorrents} :
    (d.updateDubbingChoiceProperty langTorrents).selection =
      { d.selection with dubbing := .first langTorrents }.fromDubbing :=
  selection_notifyTorrent

/-- as are new seasons. -/
theorem selection_updateSeason {seasons : Option (List Season)} :
    (d.updateSeasonChoiceProperty seasons).selection =
      { d.selection with season := .first seasons }.fromSeason :=
  selection_notifyTorrent

/-- A video that is no movie derives everything from its seasons. -/
theorem selection_setVideoInfo_of_not_movie {videoInfo : Option VideoInfo}
    (h : videoInfo.bind VideoInfo.movieTorrents = none) :
    (d.setVideoInfo videoInfo).selection =
      { d.selection with
        videoInfo := videoInfo
        season := .first (videoInfo.bind VideoInfo.seasons) }.fromSeason := by
  match videoInfo, h with
  | none, _ => exact selection_updateSeason
  | some (.cinemaTvShows ..), _ | some (.animeTvShows ..), _ => exact selection_updateSeason

/-- A movie first clears the seasons and what hangs on them. -/
theorem selection_setVideoInfo_of_movie {videoInfo : Option VideoInfo}
    {langTorrents : Option LangTorrents}
    (h : videoInfo.bind VideoInfo.movieTorrents = some langTorrents) :
    (d.setVideoInfo videoInfo).selection =
      { videoInfo := videoInfo
        season := .first none
        episode := .first none
        dubbing := .first langTorrents
        torrent := .first none : Selection }.fromDubbing := by
  match videoInfo, h with
  | some (.cinemaMovies ..), rfl | some (.animeMovies ..), rfl =>
    rw [setVideoInfo, selection_updateDubbing, selection_updateSeason]
    rfl

/-- A new video ends in the notification of its torrents. -/
theorem cleared_setVideoInfo {videoInfo : Option VideoInfo} :
    (d.setVideoInfo videoInfo).Cleared := by
  match videoInfo with
  | none | some (.cinemaMovies ..) | some (.animeMovies ..) | some (.cinemaTvShows ..)
  | some (.animeTvShows ..) => exact cleared_notifyTorrent

end Details

/-! ### Calls in any order -/

/-- The calls of the pages, and what else changes the subtitles: a reply to a request, its end, and
    the choice of a language, of one of its subtitles or of a file. -/
inductive SelectionEvent
  | videoInfo (videoInfo : Option VideoInfo)
  | season (position : ℤ)
  | episode (position : ℤ)
  | dubbing (position : ℤ)
  | torrent (position : ℤ)
  | subtitles (subLang : String) (subtitles : LangSubtitles)
  | endSubtitles
  | langSubtitles (position : ℤ)
  | variant (position : ℤ)
  | customSubtitles (subtitles : Option Subtitles)

/-- The five calls that the chain is about. -/
def SelectionEvent.IsCall : SelectionEvent → Prop
  | .videoInfo _ | .season _ | .episode _ | .dubbing _ | .torrent _ => True
  | .subtitles .. | .endSubtitles | .langSubtitles _ | .variant _ | .customSubtitles _ => False

namespace Details

/-- The code that runs on an event; a position is an index of the current items, or `none` is
    returned. -/
def next (isoToName : String → String) (d : Details) : SelectionEvent → Option Details
  | .videoInfo videoInfo => some (d.setVideoInfo videoInfo)
  | .season position =>
    if d.season.IsIndex position then some (d.setSeasonPosition position) else none
  | .episode position =>
    if d.episode.IsIndex position then some (d.setEpisodePosition position) else none
  | .dubbing position =>
    if d.dubbing.IsIndex position then some (d.setDubbingPosition position) else none
  | .torrent position =>
    if d.torrent.IsIndex position then some (d.setTorrentPosition position) else none
  | .subtitles subLang subtitles => some (d.setSubtitles isoToName subLang subtitles)
  | .endSubtitles => some d.endSubtitles
  | .langSubtitles position => some (d.setLangSubtitles d.langSubtitles.items position)
  | .variant position => some { d with subtitles := d.subtitles.setPosition position }
  | .customSubtitles subtitles => some { d with customSubtitles := subtitles }

def machine (isoToName : String → String) : Machine Details SelectionEvent :=
  Machine.ofFun (fun d => d = new) (next isoToName)

/-- What a call is asked for: the video, or an item of one property; what is before that property
    stays as it was. -/
def Asked (before after : Selection) : SelectionEvent → Prop
  | .videoInfo videoInfo => after.videoInfo = videoInfo
  | .season position =>
    after.videoInfo = before.videoInfo ∧ after.season = before.season.setPosition position
  | .episode position =>
    after.videoInfo = before.videoInfo ∧ after.season = before.season ∧
      after.episode = before.episode.setPosition position
  | .dubbing position =>
    after.videoInfo = before.videoInfo ∧ after.season = before.season ∧
      after.episode = before.episode ∧ after.dubbing = before.dubbing.setPosition position
  | .torrent position =>
    after = { before with torrent := before.torrent.setPosition position }
  | _ => after = before

/-- The properties that a call derives anew are at their first item. -/
def FirstItems (after : Selection) : SelectionEvent → Prop
  | .videoInfo _ =>
    after.season.AtFirst ∧ after.episode.AtFirst ∧ after.dubbing.AtFirst ∧ after.torrent.AtFirst
  | .season _ => after.episode.AtFirst ∧ after.dubbing.AtFirst ∧ after.torrent.AtFirst
  | .episode _ => after.dubbing.AtFirst ∧ after.torrent.AtFirst
  | .dubbing _ => after.torrent.AtFirst
  | _ => True

open ChoiceProperty (atFirst_first)

variable {isoToName : String → String} {d d' : Details} {e : SelectionEvent}

/-- What fills the subtitles leaves the selection alone. -/
theorem selection_of_not_call (hnext : d.next isoToName e = some d') (he : ¬e.IsCall) :
    d'.selection = d.selection := by
  cases e with
  | videoInfo | season | episode | dubbing | torrent => exact absurd trivial he
  | subtitles | endSubtitles | langSubtitles | variant | customSubtitles =>
    rw [next, Option.some.injEq] at hnext
    rw [← hnext]
    rfl

/-- **A call.**  It keeps the chain, does what it is asked for, puts what it derives anew at its
    first item, and clears the subtitles where no torrent is selected. -/
theorem call_spec (hchained : d.selection.Chained) (hnext : d.next isoToName e = some d')
    (he : e.IsCall) :
    d'.selection.Chained ∧ Asked d.selection d'.selection e ∧ FirstItems d'.selection e ∧
      d'.Cleared := by
  cases e with
  | videoInfo videoInfo =>
    rw [next, Option.some.injEq] at hnext
    subst hnext
    -- a movie brings its torrents at once, a show begins at its seasons
    cases hmovie : videoInfo.bind VideoInfo.movieTorrents with
    | none =>
      rw [selection_setVideoInfo_of_not_movie hmovie]
      exact ⟨Selection.chained_fromSeason rfl hmovie, rfl,
        ⟨atFirst_first, atFirst_first, atFirst_first, atFirst_first⟩, cleared_setVideoInfo⟩
    | some langTorrents =>
      rw [selection_setVideoInfo_of_movie hmovie]
      refine ⟨Selection.chained_fromDubbing ?_ rfl ?_, rfl,
        ⟨atFirst_first, atFirst_first, atFirst_first, atFirst_first⟩, cleared_setVideoInfo⟩
      · match videoInfo, hmovie with
        | some (.cinemaMovies ..), _ | some (.animeMovies ..), _ => rfl
      · rw [Selection.langTorrents, hmovie]
        rfl
  | season position =>
    obtain ⟨⟨items, hitems, -⟩, rfl⟩ := Machine.of_ite_eq_some hnext
    -- seasons are offered for a show only
    have hshow := hchained.not_movie_of_season (Option.ne_none_iff_exists'.mpr ⟨items, hitems⟩)
    rw [setSeasonPosition, selection_notifySeason]
    exact ⟨Selection.chained_fromSeason hchained.season hshow, ⟨rfl, rfl⟩,
      ⟨atFirst_first, atFirst_first, atFirst_first⟩, cleared_notifyTorrent⟩
  | episode position =>
    obtain ⟨⟨items, hitems, -⟩, rfl⟩ := Machine.of_ite_eq_some hnext
    -- and so are episodes
    have hshow := hchained.not_movie_of_episode (Option.ne_none_iff_exists'.mpr ⟨items, hitems⟩)
    rw [setEpisodePosition, selection_notifyEpisode]
    exact ⟨Selection.chained_fromEpisode hchained.season hchained.episode hshow, ⟨rfl, rfl, rfl⟩,
      ⟨atFirst_first, atFirst_first⟩, cleared_notifyTorrent⟩
  | dubbing position =>
    obtain ⟨-, rfl⟩ := Machine.of_ite_eq_some hnext
    rw [setDubbingPosition, selection_notifyDubbing]
    exact ⟨Selection.chained_fromDubbing hchained.season hchained.episode hchained.dubbing,
      ⟨rfl, rfl, rfl, rfl⟩, atFirst_first, cleared_notifyTorrent⟩
  | torrent position =>
    obtain ⟨-, rfl⟩ := Machine.of_ite_eq_some hnext
    rw [setTorrentPosition, selection_notifyTorrent]
    exact ⟨⟨hchained.season, hchained.episode, hchained.dubbing, hchained.torrent⟩, rfl, trivial,
      cleared_notifyTorrent⟩
  | subtitles | endSubtitles | langSubtitles | variant | customSubtitles => exact absurd he id

/-- **Every run** keeps the chain. -/
theorem chained_of_reachable (h : (machine isoToName).Reachable d) : d.selection.Chained := by
  refine Machine.Reachable.invariant (I := fun d => d.selection.Chained) ?_ ?_ h
  · rintro d rfl
    exact ⟨rfl, rfl, rfl, rfl⟩
  · intro d e d' hchained hnext
    by_cases he : e.IsCall
    · exact (call_spec hchained hnext he).1
    · rw [selection_of_not_call hnext he]
      exact hchained

/-- **The chain of selections.**  In every state of every run each property has the items of what
    the one before it stands at.  Each call moves only its own property and those behind it, puts
    these at their first items, and leaves no subtitles where no torrent is selected; nothing else
    touches the selection. -/
theorem chained_of_calls (isoToName : String → String) :
    (∀ d, (machine isoToName).Reachable d → d.selection.Chained) ∧
    (∀ d e d', (machine isoToName).Reachable d → d.next isoToName e = some d' → e.IsCall →
      d'.selection.Chained ∧ Asked d.selection d'.selection e ∧ FirstItems d'.selection e ∧
        d'.Cleared) ∧
    ∀ d e d', (machine isoToName).Reachable d → d.next isoToName e = some d' → ¬e.IsCall →
      d'.selection = d.selection :=
  ⟨fun _ hreach => chained_of_reachable hreach,
    fun _ _ _ hreach hnext he => call_spec (chained_of_reachable hreach) hnext he,
    fun _ _ _ _ hnext he => selection_of_not_call hnext he⟩

end Details

end PopcornTime.Android
