import Mathlib.Logic.Function.Basic
import PopcornTime.Android.ContentRepository
import PopcornTime.Android.DetailsChain
import PopcornTime.Lib.Machine

namespace PopcornTime.Android

open PopcornTime

/-!
# Android details — the views

What the pages of a video are told about the properties of `DetailsUseCase`, and what they do with
it.  A property that is set notifies the one derived from it before it notifies the page, so that
the torrents are shown first and the seasons last; a page that attaches is told everything.  The
data are those of `ContentRepository`, with their nulls.

* `ViewCall.works` — the calls of the views, and whether they throw; a list that is shown has a text
  made of each of its items.
* `DetailsViews.next` — videos that are set, pages that come and go, and what the user chooses, from
  lists that were offered earlier.
* `ViewsGuard` — what may be set, chosen and attached.
* `views_of_guard` — no call throws in a run that meets the guard, and the guard is exact.
-/

namespace Content

/-- A `VideoInfo`, as far as the properties are derived from it. -/
inductive DetailsVideo
  | movie (langTorrents : LangTorrents)
  | tvShow (seasons : Option (List Season))
deriving DecidableEq

/-- `DetailsMovieFragment` and `DetailsTvShowFragment` -/
inductive DetailsFragment
  | movie
  | tvShow
deriving DecidableEq, Repr

/-- What the user chooses. -/
inductive Choice
  | season
  | episode
  | dubbing
  | torrent
deriving DecidableEq, Repr

/-! ### The views -/

/-- An array access is inside bounds. -/
def InBounds {α : Type} (items : List α) (position : ℤ) : Prop :=
  0 ≤ position ∧ position < items.length

instance {α : Type} {items : List α} {position : ℤ} : Decidable (InBounds items position) :=
  inferInstanceAs (Decidable (_ ∧ _))

/-- `ItemSelectButton.setItems` shows the text of an item, or none where the position is out of
    bounds. -/
def ItemSelectButton.setItems {α : Type} (hasText : α → Bool) (items : List α) (position : ℤ) :
    Bool :=
  if InBounds items position then (items[position.toNat]?).all hasText else true

/-- `onSeasons`; a season is never null. -/
def onSeasons : Option (List Season) → ℤ → Bool
  | none, _ | some [], _ => true
  | some seasons, position => ItemSelectButton.setItems (fun _ => true) seasons position

/-- `onEpisodes`, which asks for the video and the season of an episode; the adapter shows the
    number of each. -/
def onEpisodes (videoInfo : Option DetailsVideo) (season : Option Season) :
    Option (List (Option Episode)) → ℤ → Bool
  | none, _ => true
  | some episodes, position =>
    decide (InBounds episodes position) &&
      (episodes[position.toNat]?.join.isNone || (videoInfo.isSome && season.isSome)) &&
      episodes.all Option.isSome

/-- `onDubbing`; a language is never null. -/
def onDubbing : Option (List String) → ℤ → Bool
  | none, _ | some [], _ => true
  | some languages, position => ItemSelectButton.setItems (fun _ => true) languages position

/-- `onTorrents`; the button shows the text of one torrent, and its dialog that of each. -/
def onTorrents : Option (List (Option Torrent)) → ℤ → Bool
  | none, _ | some [], _ => true
  | some torrents, position =>
    ItemSelectButton.setItems Option.isSome torrents position &&
      decide (InBounds torrents position) && torrents.all Option.isSome

/-- `onLangSubtitles`, with two items in front of the languages. -/
def onLangSubtitles (isCustom : Bool) (languages : Option (List String)) (position : ℤ) : Bool :=
  let position := if isCustom then -2 else position
  ItemSelectButton.setItems (fun _ => true) ("" :: "" :: languages.getD [])
    (if 0 ≤ position then position + 2 else if position = -2 then 1 else 0)

/-- A call of a view, with what it reads of the properties. -/
inductive ViewCall
  | onSeasons (seasons : Option (List Season)) (position : ℤ)
  | onEpisodes (videoInfo : Option DetailsVideo) (season : Option Season)
      (episodes : Option (List (Option Episode))) (position : ℤ)
  | onDubbing (languages : Option (List String)) (position : ℤ)
  | onTorrents (torrents : Option (List (Option Torrent))) (position : ℤ)
  | onLangSubtitles (isCustom : Bool) (languages : Option (List String)) (position : ℤ)

/-- Every array is indexed inside its bounds, and nothing null is dereferenced. -/
def ViewCall.works : ViewCall → Bool
  | .onSeasons seasons position => Content.onSeasons seasons position
  | .onEpisodes videoInfo season episodes position =>
    Content.onEpisodes videoInfo season episodes position
  | .onDubbing languages position => Content.onDubbing languages position
  | .onTorrents torrents position => Content.onTorrents torrents position
  | .onLangSubtitles isCustom languages position =>
    Content.onLangSubtitles isCustom languages position

/-! ### The properties -/

/-- The properties, of the subtitles their languages only; the page that is attached; how many items
    the user was last offered of each kind; and the calls of the views. -/
structure DetailsViews where
  videoInfo : Option DetailsVideo
  season : ChoiceProperty Season
  episode : ChoiceProperty (Option Episode)
  dubbing : ChoiceProperty (String × Option (List (Option Torrent)))
  torrent : ChoiceProperty (Option Torrent)
  langSubtitles : ChoiceProperty String
  isCustom : Bool
  page : Option DetailsFragment
  offered : Choice → ℕ
  calls : List ViewCall

namespace DetailsViews

/-- The properties when the application starts. -/
def new : DetailsViews :=
  ⟨none, .new, .new, .new, .new, .new, false, none, fun _ => 0, []⟩

/-- A view is called if it is there. -/
def notifyView (isShown : Bool) (call : ViewCall) (d : DetailsViews) : DetailsViews :=
  { d with calls := if isShown then d.calls ++ [call] else d.calls }

def showSeasons (d : DetailsViews) : DetailsViews :=
  d.notifyView (d.page == some .tvShow) (.onSeasons d.season.items d.season.position)

def showEpisodes (d : DetailsViews) : DetailsViews :=
  d.notifyView (d.page == some .tvShow)
    (.onEpisodes d.videoInfo d.season.getItem d.episode.items d.episode.position)

def showDubbing (d : DetailsViews) : DetailsViews :=
  d.notifyView d.page.isSome (.onDubbing (d.dubbing.items.map (·.map Prod.fst)) d.dubbing.position)

def showTorrents (d : DetailsViews) : DetailsViews :=
  d.notifyView d.page.isSome (.onTorrents d.torrent.items d.torrent.position)

def showLangSubtitles (d : DetailsViews) : DetailsViews :=
  d.notifyView d.page.isSome
    (.onLangSubtitles d.isCustom d.langSubtitles.items d.langSubtitles.position)

/-! A property notifies `DetailsUseCase`, and then the page. -/

def setLangSubtitles (languages : Option (List String)) (position : ℤ) (d : DetailsViews) :
    DetailsViews :=
  showLangSubtitles { d with langSubtitles := ⟨languages, position⟩ }

def clearSubtitles (d : DetailsViews) : DetailsViews :=
  match d.torrent.getItem.join with
  | some _ => d
  | none => { d.setLangSubtitles none (-1) with isCustom := false }

def notifyTorrent (d : DetailsViews) : DetailsViews :=
  showTorrents d.clearSubtitles

def updateTorrentChoiceProperty (torrents : Option (List (Option Torrent))) (d : DetailsViews) :
    DetailsViews :=
  notifyTorrent { d with torrent := d.torrent.setItems torrents }

def notifyDubbing (d : DetailsViews) : DetailsViews :=
  showDubbing (d.updateTorrentChoiceProperty (d.dubbing.getItem.bind Prod.snd))

def updateDubbingChoiceProperty (langTorrents : Option LangTorrents) (d : DetailsViews) :
    DetailsViews :=
  notifyDubbing { d with dubbing := d.dubbing.setItems langTorrents }

def notifyEpisode (d : DetailsViews) : DetailsViews :=
  showEpisodes (d.updateDubbingChoiceProperty (d.episode.getItem.join.map Episode.langTorrents))

def updateEpisodeChoiceProperty (episodes : Option (List (Option Episode))) (d : DetailsViews) :
    DetailsViews :=
  notifyEpisode { d with episode := d.episode.setItems episodes }

def notifySeason (d : DetailsViews) : DetailsViews :=
  showSeasons (d.updateEpisodeChoiceProperty (d.season.getItem.bind Season.episodes))

def updateSeasonChoiceProperty (seasons : Option (List Season)) (d : DetailsViews) :
    DetailsViews :=
  notifySeason { d with season := d.season.setItems seasons }

/-- `videoInfoProperty.setValue` -/
def setVideoInfo (videoInfo : Option DetailsVideo) (d : DetailsViews) : DetailsViews :=
  let d := { d with videoInfo := videoInfo }
  match videoInfo with
  | none => d.updateSeasonChoiceProperty none
  | some (.movie langTorrents) =>
    (d.updateSeasonChoiceProperty none).updateDubbingChoiceProperty (some langTorrents)
  | some (.tvShow seasons) => d.updateSeasonChoiceProperty seasons

/-- `onAttach` of the presenters. -/
def onAttach (fragment : DetailsFragment) (d : DetailsViews) : DetailsViews :=
  let d := { d with page := some fragment }
  d.showDubbing.showTorrents.showLangSubtitles.showSeasons.showEpisodes

/-- `setPosition` of the property that is chosen from. -/
def setPosition (position : ℤ) (d : DetailsViews) : Choice → DetailsViews
  | .season => notifySeason { d with season := d.season.setPosition position }
  | .episode => notifyEpisode { d with episode := d.episode.setPosition position }
  | .dubbing => notifyDubbing { d with dubbing := d.dubbing.setPosition position }
  | .torrent => notifyTorrent { d with torrent := d.torrent.setPosition position }

/-- How many items there are to choose from. -/
def count (d : DetailsViews) : Choice → ℕ
  | .season => (d.season.items.getD []).length
  | .episode => (d.episode.items.getD []).length
  | .dubbing => (d.dubbing.items.getD []).length
  | .torrent => (d.torrent.items.getD []).length

/-- The page has something to choose from. -/
def hasChoice (d : DetailsViews) : Choice → Bool
  | .season | .episode => d.page == some .tvShow
  | .dubbing | .torrent => d.page.isSome

/-- `onItemChosen`: a dialog is dismissed, the episodes stay. -/
def dismiss (choice : Choice) (d : DetailsViews) : DetailsViews :=
  if choice = .episode then d else { d with offered := Function.update d.offered choice 0 }

end DetailsViews

/-- A movie or a show is set by the start of its page, or by a provider of details; a show has its
    seasons from an earlier reply, or not yet. -/
inductive DetailsEvent
  | movie (json : JsonElement)
  | tvShow (json : JsonElement) (seasons : Option JsonElement)
  | clear
  | attach (fragment : DetailsFragment)
  | detach
  /-- A dialog is opened, or the episodes are laid out. -/
  | offer (choice : Choice)
  | choose (choice : Choice) (position : ℕ)
  /-- A reply to a request for subtitles. -/
  | subtitles (languages : List String) (position : ℤ)
  | chooseSubtitles (position : ℤ)
  | customSubtitles (isCustom : Bool)

namespace DetailsViews

variable {R : Type} [Zero R] (parseFloat : String → Option R)

/-- The seasons of a show; the outer `none` is an exception. -/
def showSeasons? : Option JsonElement → Option (Option (List Season))
  | none => some none
  | some json => (ContentRepository.seasons? json).map some

def next (d : DetailsViews) : DetailsEvent → Option DetailsViews
  | .movie json =>
    (ContentRepository.movie? parseFloat json).map fun movie =>
      d.setVideoInfo (some (.movie movie.2))
  | .tvShow json seasons =>
    (ContentRepository.tvShow? parseFloat json).bind fun _ =>
      (showSeasons? seasons).map fun seasons => d.setVideoInfo (some (.tvShow seasons))
  | .clear => some (d.setVideoInfo none)
  | .attach fragment => if d.page = none then some (d.onAttach fragment) else none
  | .detach => some { d with page := none }
  | .offer choice =>
    if d.hasChoice choice then
      some { d with offered := Function.update d.offered choice (d.count choice) }
    else none
  | .choose choice position =>
    if d.hasChoice choice ∧ position < d.offered choice then
      some ((d.dismiss choice).setPosition position choice)
    else none
  | .subtitles languages position => some (d.setLangSubtitles (some languages) position)
  | .chooseSubtitles position =>
    some ({ d with isCustom := false }.setLangSubtitles d.langSubtitles.items position)
  | .customSubtitles isCustom => some { d with isCustom := isCustom }

def machine : Machine DetailsViews DetailsEvent :=
  Machine.ofFun (fun d => d = new) (next parseFloat)

/-! ### What may be shown -/

/-- No call has thrown. -/
def AllWork (d : DetailsViews) : Prop :=
  ∀ call ∈ d.calls, call.works = true

/-- A list without nulls, or none. -/
def NoNull {α : Type} (items : Option (List (Option α))) : Prop :=
  ∀ l ∈ items, ∀ a ∈ l, a.isSome = true

/-- The torrents that are derived first. -/
def firstTorrents (langTorrents : Option LangTorrents) : Option (List (Option Torrent)) :=
  (langTorrents.bind List.head?).bind Prod.snd

/-- The torrents that are derived from an episode. -/
def episodeTorrents (episode : Option Episode) : Option (List (Option Torrent)) :=
  firstTorrents (episode.map Episode.langTorrents)

/-- The torrents are none, or the position is one of them and none is null. -/
def TorrentsAt (torrent : ChoiceProperty (Option Torrent)) : Prop :=
  ∀ l ∈ torrent.items, l ≠ [] → InBounds l torrent.position ∧ NoNull (some l)

/-- The same for the episodes, where a list must not be empty. -/
def EpisodesAt (episode : ChoiceProperty (Option Episode)) : Prop :=
  ∀ l ∈ episode.items, InBounds l episode.position ∧ NoNull (some l)

/-- A season that a page shows has episodes, if any list of them, without nulls, and the torrents
    of the first have none. -/
def MayShow (page : Option DetailsFragment) (season : Option Season) : Prop :=
  let episodes := season.bind Season.episodes
  (page = some .tvShow → episodes ≠ some [] ∧ NoNull episodes) ∧
    (page ≠ none → NoNull (episodeTorrents (episodes.bind List.head?).join))

/-- What is set, chosen or there as a page attaches. -/
def ViewsGuard (d : DetailsViews) : DetailsEvent → Prop
  | .movie json => ∀ fields langTorrents,
    ContentRepository.movie? parseFloat json = some (fields, langTorrents) →
      d.page ≠ none → NoNull (firstTorrents (some langTorrents))
  | .tvShow _ seasons => ∀ l, showSeasons? seasons = some l → MayShow d.page (l.bind List.head?)
  | .attach fragment =>
    TorrentsAt d.torrent ∧ (fragment = .tvShow → EpisodesAt d.episode)
  | .choose .season position => MayShow d.page (d.season.setPosition position).getItem
  | .choose .episode position =>
    EpisodesAt (d.episode.setPosition position) ∧
      NoNull (episodeTorrents (d.episode.setPosition position).getItem.join)
  | .choose .dubbing position =>
    NoNull ((d.dubbing.setPosition position).getItem.bind Prod.snd)
  | .choose .torrent position => TorrentsAt (d.torrent.setPosition position)
  | .clear | .detach | .offer _ | .subtitles .. | .chooseSubtitles _ | .customSubtitles _ => True

/-! ### Single calls -/

/-- A button works whose items all have a text, wherever the position is. -/
theorem works_showsItem {α : Type} {hasText : α → Bool} {items : List α} {position : ℤ}
    (h : ∀ a ∈ items, hasText a = true) :
    ItemSelectButton.setItems hasText items position = true := by
  unfold ItemSelectButton.setItems
  split
  · rw [Option.all_eq_true]
    intro a ha
    exact h a (List.mem_of_getElem? ha)
  · rfl

/-- The view of the seasons always works. -/
theorem works_onSeasons {seasons : Option (List Season)} {position : ℤ} :
    (ViewCall.onSeasons seasons position).works = true := by
  show onSeasons seasons position = true
  unfold onSeasons
  split
  · rfl
  · rfl
  · exact works_showsItem fun _ _ => rfl

/-- So does that of the dubbings. -/
theorem works_onDubbing {languages : Option (List String)} {position : ℤ} :
    (ViewCall.onDubbing languages position).works = true := by
  show onDubbing languages position = true
  unfold onDubbing
  split
  · rfl
  · rfl
  · exact works_showsItem fun _ _ => rfl

/-- And that of the languages, whose two items in front are always there. -/
theorem works_onLangSubtitles {isCustom : Bool} {languages : Option (List String)} {position : ℤ} :
    (ViewCall.onLangSubtitles isCustom languages position).works = true :=
  works_showsItem fun _ _ => rfl

/-- A list is without nulls as the adapters test it. -/
theorem noNull_some_iff {α : Type} {l : List (Option α)} :
    NoNull (some l) ↔ l.all Option.isSome = true := by
  simp [NoNull]

/-- The torrents work where the position is one of them and none is null. -/
theorem works_onTorrents {torrent : ChoiceProperty (Option Torrent)} :
    onTorrents torrent.items torrent.position = true ↔ TorrentsAt torrent := by
  obtain ⟨items, position⟩ := torrent
  match items with
  | none => simp [onTorrents, TorrentsAt]
  | some [] => simp [onTorrents, TorrentsAt]
  | some (t :: torrents) =>
    have htext : NoNull (some (t :: torrents)) →
        ItemSelectButton.setItems Option.isSome (t :: torrents) position = true := fun h =>
      works_showsItem (h _ rfl)
    rw [noNull_some_iff] at htext
    simp only [onTorrents, TorrentsAt, Option.mem_some_iff, forall_eq', Bool.and_eq_true,
      decide_eq_true_eq, noNull_some_iff]
    constructor
    · exact fun h _ => ⟨h.1.2, h.2⟩
    · intro h
      obtain ⟨hbounds, hnull⟩ := h (List.cons_ne_nil t torrents)
      exact ⟨⟨htext hnull, hbounds⟩, hnull⟩

/-- The episodes work where they are derived from a season of a video. -/
theorem works_onEpisodes {videoInfo : Option DetailsVideo} {season : Option Season}
    {episode : ChoiceProperty (Option Episode)}
    (hderived : ∀ l ∈ episode.items, videoInfo.isSome = true ∧ season.isSome = true) :
    onEpisodes videoInfo season episode.items episode.position = true ↔ EpisodesAt episode := by
  unfold onEpisodes EpisodesAt
  split
  · simp [*]
  · rename_i episodes hitems
    obtain ⟨hvideo, hseason⟩ := hderived episodes hitems
    rw [hitems, hvideo, hseason]
    simp [noNull_some_iff]

/-! ### Items that are set -/

section Items

variable {α : Type} {p : ChoiceProperty α} {items : Option (List α)}

/-- A property that is set is at its first item. -/
theorem getItem_setItems : (p.setItems items).getItem = items.bind List.head? := by
  match items with
  | none => rfl
  | some [] => rfl
  | some (a :: l) => rfl

end Items

/-- Derived torrents are at the first one. -/
theorem torrentsAt_setItems {p : ChoiceProperty (Option Torrent)}
    {torrents : Option (List (Option Torrent))} :
    TorrentsAt (p.setItems torrents) ↔ NoNull torrents := by
  match torrents with
  | none => simp [TorrentsAt, NoNull, ChoiceProperty.setItems]
  | some [] => simp [TorrentsAt, NoNull, ChoiceProperty.setItems]
  | some (t :: l) =>
    simp [TorrentsAt, ChoiceProperty.setItems, ChoiceProperty.getDefaultPosition, InBounds]

/-- Derived episodes are at the first one, so that there has to be one. -/
theorem episodesAt_setItems {p : ChoiceProperty (Option Episode)}
    {episodes : Option (List (Option Episode))} :
    EpisodesAt (p.setItems episodes) ↔ episodes ≠ some [] ∧ NoNull episodes := by
  match episodes with
  | none => simp [EpisodesAt, NoNull, ChoiceProperty.setItems]
  | some [] =>
    simp [EpisodesAt, ChoiceProperty.setItems, ChoiceProperty.getDefaultPosition, InBounds]
  | some (e :: l) =>
    simp [EpisodesAt, ChoiceProperty.setItems, ChoiceProperty.getDefaultPosition, InBounds]

/-! ### Cascades -/

variable {d : DetailsViews}

/-! What the subtitles leave alone, and with them all that a property notifies behind it. -/

@[simp] theorem videoInfo_clearSubtitles : d.clearSubtitles.videoInfo = d.videoInfo := by
  unfold clearSubtitles
  split <;> rfl

@[simp] theorem season_clearSubtitles : d.clearSubtitles.season = d.season := by
  unfold clearSubtitles
  split <;> rfl

@[simp] theorem episode_clearSubtitles : d.clearSubtitles.episode = d.episode := by
  unfold clearSubtitles
  split <;> rfl

@[simp] theorem torrent_clearSubtitles : d.clearSubtitles.torrent = d.torrent := by
  unfold clearSubtitles
  split <;> rfl

@[simp] theorem page_clearSubtitles : d.clearSubtitles.page = d.page := by
  unfold clearSubtitles
  split <;> rfl

/-- A view that is called has to work. -/
theorem allWork_notifyView {isShown : Bool} {call : ViewCall} :
    (d.notifyView isShown call).AllWork ↔ d.AllWork ∧ (isShown = true → call.works = true) := by
  cases isShown with
  | false => simp [notifyView, AllWork]
  | true =>
    simp only [notifyView, AllWork, if_true, List.forall_mem_append, List.forall_mem_singleton,
      true_implies]

/-- A call that always works makes no difference. -/
theorem allWork_notifyView_of_works {isShown : Bool} {call : ViewCall} (h : call.works = true) :
    (d.notifyView isShown call).AllWork ↔ d.AllWork := by
  rw [allWork_notifyView, and_iff_left fun _ => h]

/-- The subtitles make no difference to what works. -/
theorem allWork_setLangSubtitles {languages : Option (List String)} {position : ℤ} :
    (d.setLangSubtitles languages position).AllWork ↔ d.AllWork :=
  allWork_notifyView_of_works works_onLangSubtitles

/-- Nor do they where they are cleared. -/
theorem allWork_clearSubtitles : d.clearSubtitles.AllWork ↔ d.AllWork := by
  unfold clearSubtitles
  split
  · exact Iff.rfl
  · exact allWork_setLangSubtitles

/-- A torrent that is notified is shown by any page. -/
theorem allWork_notifyTorrent :
    d.notifyTorrent.AllWork ↔ d.AllWork ∧ (d.page ≠ none → TorrentsAt d.torrent) := by
  rw [notifyTorrent, showTorrents, allWork_notifyView, allWork_clearSubtitles, page_clearSubtitles,
    torrent_clearSubtitles, Option.isSome_iff_ne_none]
  exact and_congr_right' (imp_congr_right fun _ => works_onTorrents)

/-- A dubbing has its torrents derived, which are shown at the first one. -/
theorem allWork_notifyDubbing :
    d.notifyDubbing.AllWork ↔
      d.AllWork ∧ (d.page ≠ none → NoNull (d.dubbing.getItem.bind Prod.snd)) := by
  rw [notifyDubbing, showDubbing, allWork_notifyView_of_works works_onDubbing,
    updateTorrentChoiceProperty, allWork_notifyTorrent, torrentsAt_setItems]
  exact Iff.rfl

/-- Dubbings that are derived are at the first one. -/
theorem allWork_updateDubbing {langTorrents : Option LangTorrents} :
    (d.updateDubbingChoiceProperty langTorrents).AllWork ↔
      d.AllWork ∧ (d.page ≠ none → NoNull (firstTorrents langTorrents)) := by
  rw [updateDubbingChoiceProperty, allWork_notifyDubbing, getItem_setItems]
  exact Iff.rfl

/-- The episodes are those of a season of a video. -/
def EpisodesDerived (d : DetailsViews) : Prop :=
  ∀ l ∈ d.episode.items, d.videoInfo.isSome = true ∧ d.season.getItem.isSome = true

/-- The episodes are shown by the page of a show only. -/
theorem allWork_showEpisodes (h : d.EpisodesDerived) :
    d.showEpisodes.AllWork ↔ d.AllWork ∧ (d.page = some .tvShow → EpisodesAt d.episode) := by
  rw [showEpisodes, allWork_notifyView, beq_iff_eq]
  exact and_congr_right' (imp_congr_right fun _ => works_onEpisodes h)

/-- The dubbings that an episode notifies leave what is before them. -/
theorem episodesDerived_updateDubbing {langTorrents : Option LangTorrents} :
    (d.updateDubbingChoiceProperty langTorrents).EpisodesDerived ↔ d.EpisodesDerived := by
  simp [EpisodesDerived, updateDubbingChoiceProperty, notifyDubbing, showDubbing, notifyView,
    updateTorrentChoiceProperty, notifyTorrent, showTorrents]

/-- An episode has its torrents derived before the episodes are shown. -/
theorem allWork_notifyEpisode (h : d.EpisodesDerived) :
    d.notifyEpisode.AllWork ↔ d.AllWork ∧ (d.page = some .tvShow → EpisodesAt d.episode) ∧
      (d.page ≠ none → NoNull (episodeTorrents d.episode.getItem.join)) := by
  have hpage : ∀ m, (d.updateDubbingChoiceProperty m).page = d.page := fun _ =>
    page_clearSubtitles
  have hepisode : ∀ m, (d.updateDubbingChoiceProperty m).episode = d.episode := fun _ =>
    episode_clearSubtitles
  rw [notifyEpisode, allWork_showEpisodes (episodesDerived_updateDubbing.mpr h),
    allWork_updateDubbing, hpage, hepisode, and_assoc, and_comm (a := _ → NoNull _)]
  exact Iff.rfl

/-- Seasons are those of a video. -/
def SeasonsDerived (d : DetailsViews) : Prop :=
  ∀ l ∈ d.season.items, d.videoInfo.isSome = true

/-- A season there is has a video. -/
theorem SeasonsDerived.isSome (h : d.SeasonsDerived) {season : Season}
    (hseason : d.season.getItem = some season) : d.videoInfo.isSome = true := by
  cases hitems : d.season.items with
  | none =>
    rw [ChoiceProperty.getItem_of_items_eq_none hitems] at hseason
    cases hseason
  | some l => exact h l hitems

/-- The episodes of the season there is are derived. -/
theorem episodesDerived_setItems (h : d.SeasonsDerived) :
    EpisodesDerived { d with
      episode := d.episode.setItems (d.season.getItem.bind Season.episodes) } := by
  intro l hl
  obtain ⟨season, hseason, -⟩ := Option.bind_eq_some_iff.mp hl
  refine ⟨h.isSome hseason, ?_⟩
  show d.season.getItem.isSome = true
  rw [hseason]
  rfl

/-- A season has its episodes derived, and the torrents of the first of them. -/
theorem allWork_notifySeason (h : d.SeasonsDerived) :
    d.notifySeason.AllWork ↔ d.AllWork ∧ MayShow d.page d.season.getItem := by
  rw [notifySeason, showSeasons, allWork_notifyView_of_works works_onSeasons,
    updateEpisodeChoiceProperty, allWork_notifyEpisode (episodesDerived_setItems h),
    episodesAt_setItems, getItem_setItems]
  exact Iff.rfl

/-- A page may show that there is no season. -/
theorem mayShow_none {page : Option DetailsFragment} : MayShow page none := by
  simp [MayShow, NoNull, episodeTorrents, firstTorrents]

/-- Seasons that are derived are at the first one. -/
theorem allWork_updateSeason {seasons : Option (List Season)}
    (h : ∀ l ∈ seasons, d.videoInfo.isSome = true) :
    (d.updateSeasonChoiceProperty seasons).AllWork ↔
      d.AllWork ∧ MayShow d.page (seasons.bind List.head?) := by
  have hseason := allWork_notifySeason (d := { d with season := d.season.setItems seasons }) h
  rw [getItem_setItems] at hseason
  exact hseason

/-- A movie clears the seasons, which always works, and then has its dubbings derived. -/
theorem allWork_setVideoInfo_movie {langTorrents : LangTorrents} :
    (d.setVideoInfo (some (.movie langTorrents))).AllWork ↔
      d.AllWork ∧ (d.page ≠ none → NoNull (firstTorrents (some langTorrents))) := by
  have hpage : ∀ d : DetailsViews, (d.updateSeasonChoiceProperty none).page = d.page := fun _ =>
    page_clearSubtitles
  have hnone : ∀ d : DetailsViews, (d.updateSeasonChoiceProperty none).AllWork ↔ d.AllWork :=
    fun _ => (allWork_updateSeason fun _ h => by cases h).trans (and_iff_left mayShow_none)
  rw [setVideoInfo, allWork_updateDubbing, hpage, hnone]
  exact Iff.rfl

/-- A page that attaches shows the torrents and, of a show, the episodes where they are at that
    time. -/
theorem allWork_onAttach {fragment : DetailsFragment} (h : d.EpisodesDerived) :
    (d.onAttach fragment).AllWork ↔
      d.AllWork ∧ TorrentsAt d.torrent ∧ (fragment = .tvShow → EpisodesAt d.episode) := by
  have hshown : ∀ d : DetailsViews, d.showSeasons.AllWork ↔ d.AllWork := fun _ =>
    allWork_notifyView_of_works works_onSeasons
  have hlangs : ∀ d : DetailsViews, d.showLangSubtitles.AllWork ↔ d.AllWork := fun _ =>
    allWork_notifyView_of_works works_onLangSubtitles
  have hdubbing : ∀ d : DetailsViews, d.showDubbing.AllWork ↔ d.AllWork := fun _ =>
    allWork_notifyView_of_works works_onDubbing
  have htorrents : ∀ d : DetailsViews, d.showTorrents.AllWork ↔
      d.AllWork ∧ (d.page.isSome = true → TorrentsAt d.torrent) := fun _ =>
    allWork_notifyView.trans (and_congr_right' (imp_congr_right fun _ => works_onTorrents))
  have hepisodes : EpisodesDerived
      { d with page := some fragment }.showDubbing.showTorrents.showLangSubtitles.showSeasons := h
  rw [onAttach, allWork_showEpisodes hepisodes, hshown, hlangs, htorrents, hdubbing, and_assoc]
  refine and_congr_right' (and_congr ?_ ?_)
  · exact forall_prop_of_true rfl
  · exact imp_congr_left Option.some_inj

/-! ### What is derived stays derived -/

/-- Seasons come from a video, and episodes from one of its seasons. -/
structure Derived (d : DetailsViews) : Prop where
  seasons : d.SeasonsDerived
  episodes : d.EpisodesDerived

variable {d' : DetailsViews}

/-- What is derived depends on the video, the season and the items of the episodes only. -/
theorem Derived.of_eq (h : d.Derived) (hvideo : d'.videoInfo = d.videoInfo)
    (hseason : d'.season = d.season) (hepisode : d'.episode.items = d.episode.items) :
    d'.Derived where
  seasons := by
    unfold SeasonsDerived
    rw [hvideo, hseason]
    exact h.seasons
  episodes := by
    unfold EpisodesDerived
    rw [hvideo, hseason, hepisode]
    exact h.episodes

/-- A view that is called changes no property. -/
theorem Derived.notifyView (h : d.Derived) {isShown : Bool} {call : ViewCall} :
    (d.notifyView isShown call).Derived :=
  h.of_eq rfl rfl rfl

/-! What is notified behind a property leaves it and those before it alone. -/

theorem Derived.notifyTorrent (h : d.Derived) : d.notifyTorrent.Derived :=
  h.of_eq videoInfo_clearSubtitles season_clearSubtitles
    (congrArg ChoiceProperty.items episode_clearSubtitles)

theorem Derived.notifyDubbing (h : d.Derived) : d.notifyDubbing.Derived := by
  have htorrent : Derived { d with
      torrent := d.torrent.setItems (d.dubbing.getItem.bind Prod.snd) } := h.of_eq rfl rfl rfl
  exact htorrent.notifyTorrent.of_eq rfl rfl rfl

theorem Derived.updateDubbing (h : d.Derived) (langTorrents : Option LangTorrents) :
    (d.updateDubbingChoiceProperty langTorrents).Derived := by
  have hdubbing : Derived { d with dubbing := d.dubbing.setItems langTorrents } :=
    h.of_eq rfl rfl rfl
  exact hdubbing.notifyDubbing

theorem Derived.notifyEpisode (h : d.Derived) : d.notifyEpisode.Derived :=
  (h.updateDubbing _).of_eq rfl rfl rfl

/-- A season that is notified has its episodes derived. -/
theorem derived_notifySeason (h : d.SeasonsDerived) : d.notifySeason.Derived := by
  have hepisode : Derived { d with
      episode := d.episode.setItems (d.season.getItem.bind Season.episodes) } :=
    ⟨h, episodesDerived_setItems h⟩
  exact hepisode.notifyEpisode.of_eq rfl rfl rfl

/-- Seasons of a video that are set have all behind them derived. -/
theorem derived_updateSeason {seasons : Option (List Season)}
    (h : ∀ l ∈ seasons, d.videoInfo.isSome = true) :
    (d.updateSeasonChoiceProperty seasons).Derived :=
  derived_notifySeason (d := { d with season := d.season.setItems seasons }) h

/-- A video that is set has everything derived, whatever was there. -/
theorem derived_setVideoInfo (videoInfo : Option DetailsVideo) :
    (d.setVideoInfo videoInfo).Derived := by
  have hnone : ∀ d : DetailsViews, (d.updateSeasonChoiceProperty none).Derived := fun _ =>
    derived_updateSeason fun _ h => by cases h
  match videoInfo with
  | none => exact hnone _
  | some (.movie langTorrents) => exact (hnone _).updateDubbing _
  | some (.tvShow seasons) => exact derived_updateSeason fun _ _ => rfl

/-- A choice leaves all before it alone, and has all behind it derived. -/
theorem Derived.setPosition (h : d.Derived) (position : ℤ) (choice : Choice) :
    (d.setPosition position choice).Derived := by
  cases choice with
  | season =>
    exact derived_notifySeason (d := { d with season := d.season.setPosition position }) h.seasons
  | episode =>
    have hepisode : Derived { d with episode := d.episode.setPosition position } :=
      h.of_eq rfl rfl rfl
    exact hepisode.notifyEpisode
  | dubbing =>
    have hdubbing : Derived { d with dubbing := d.dubbing.setPosition position } :=
      h.of_eq rfl rfl rfl
    exact hdubbing.notifyDubbing
  | torrent =>
    have htorrent : Derived { d with torrent := d.torrent.setPosition position } :=
      h.of_eq rfl rfl rfl
    exact htorrent.notifyTorrent

/-- A dialog that is dismissed changes what is offered only. -/
theorem exists_dismiss (choice : Choice) (d : DetailsViews) :
    ∃ offered, d.dismiss choice = { d with offered := offered } := by
  unfold dismiss
  split
  · exact ⟨d.offered, rfl⟩
  · exact ⟨_, rfl⟩

variable {parseFloat} {e : DetailsEvent}

/-- Each event keeps what is derived derived. -/
theorem Derived.next (h : d.Derived) (hnext : d.next parseFloat e = some d') : d'.Derived := by
  cases e with
  | movie json =>
    obtain ⟨m, -, rfl⟩ := Option.map_eq_some_iff.mp hnext
    exact derived_setVideoInfo _
  | tvShow json seasons =>
    obtain ⟨_, -, hnext⟩ := Option.bind_eq_some_iff.mp hnext
    obtain ⟨l, -, rfl⟩ := Option.map_eq_some_iff.mp hnext
    exact derived_setVideoInfo _
  | clear =>
    obtain rfl := Option.some.inj hnext
    exact derived_setVideoInfo _
  | attach fragment =>
    obtain ⟨-, rfl⟩ := Machine.of_ite_eq_some hnext
    have hpage : Derived { d with page := some fragment } := h.of_eq rfl rfl rfl
    exact hpage.notifyView.notifyView.notifyView.notifyView.notifyView
  | offer choice =>
    obtain ⟨-, rfl⟩ := Machine.of_ite_eq_some hnext
    exact h.of_eq rfl rfl rfl
  | choose choice position =>
    obtain ⟨-, rfl⟩ := Machine.of_ite_eq_some hnext
    obtain ⟨offered, hdismiss⟩ := exists_dismiss choice d
    have hoffered : Derived { d with offered := offered } := h.of_eq rfl rfl rfl
    rw [hdismiss]
    exact hoffered.setPosition position choice
  | detach | subtitles | chooseSubtitles | customSubtitles =>
    obtain rfl := Option.some.inj hnext
    exact h.of_eq rfl rfl rfl

/-- In every run seasons come from a video, and episodes from a season of it. -/
theorem derived_of_reachable (h : (machine parseFloat).Reachable d) : d.Derived := by
  refine h.invariant ?_ fun _ _ _ hderived hnext => hderived.next hnext
  rintro d rfl
  refine ⟨fun l hl => ?_, fun l hl => ?_⟩
  · cases hl
  · cases hl

/-! ### Runs -/

/-- A choice works exactly if it meets the guard. -/
theorem Derived.allWork_setPosition (h : d.Derived) (hwork : d.AllWork) {choice : Choice}
    (hchoice : d.hasChoice choice = true) {position : ℕ} :
    (d.setPosition position choice).AllWork ↔
      ViewsGuard parseFloat d (.choose choice position) := by
  cases choice with
  | season =>
    have hseason := allWork_notifySeason
      (d := { d with season := d.season.setPosition position }) h.seasons
    exact hseason.trans (and_iff_right hwork)
  | episode =>
    have hpage : d.page = some .tvShow := beq_iff_eq.mp hchoice
    have hepisode := allWork_notifyEpisode
      (d := { d with episode := d.episode.setPosition position }) h.episodes
    refine hepisode.trans ((and_iff_right hwork).trans (and_congr ?_ ?_))
    · exact forall_prop_of_true hpage
    · exact forall_prop_of_true (hpage ▸ Option.some_ne_none _)
  | dubbing =>
    exact allWork_notifyDubbing.trans ((and_iff_right hwork).trans
      (forall_prop_of_true (Option.isSome_iff_ne_none.mp hchoice)))
  | torrent =>
    exact allWork_notifyTorrent.trans ((and_iff_right hwork).trans
      (forall_prop_of_true (Option.isSome_iff_ne_none.mp hchoice)))

/-- A step is shown without an exception exactly if it meets the guard. -/
theorem allWork_next_iff (h : d.Derived) (hwork : d.AllWork)
    (hnext : d.next parseFloat e = some d') : d'.AllWork ↔ ViewsGuard parseFloat d e := by
  cases e with
  | movie json =>
    obtain ⟨⟨fields, langTorrents⟩, hmovie, rfl⟩ := Option.map_eq_some_iff.mp hnext
    rw [allWork_setVideoInfo_movie, and_iff_right hwork]
    constructor
    · intro hnull fields' langTorrents' hmovie'
      -- the JSON is read the same way twice
      obtain ⟨-, rfl⟩ := Prod.mk.inj (Option.some.inj (hmovie.symm.trans hmovie'))
      exact hnull
    · exact fun hguard => hguard fields langTorrents hmovie
  | tvShow json seasons =>
    obtain ⟨_, -, hnext⟩ := Option.bind_eq_some_iff.mp hnext
    obtain ⟨l, hseasons, rfl⟩ := Option.map_eq_some_iff.mp hnext
    have hshow : (d.setVideoInfo (some (.tvShow l))).AllWork ↔
        d.AllWork ∧ MayShow d.page (l.bind List.head?) := allWork_updateSeason fun _ _ => rfl
    rw [hshow, and_iff_right hwork, ViewsGuard, hseasons]
    simp
  | clear =>
    obtain rfl := Option.some.inj hnext
    exact iff_of_true ((allWork_updateSeason fun _ h => by cases h).mpr ⟨hwork, mayShow_none⟩)
      trivial
  | attach fragment =>
    obtain ⟨-, rfl⟩ := Machine.of_ite_eq_some hnext
    exact (allWork_onAttach h.episodes).trans (and_iff_right hwork)
  | choose choice position =>
    obtain ⟨⟨hchoice, -⟩, rfl⟩ := Machine.of_ite_eq_some hnext
    obtain ⟨offered, hdismiss⟩ := exists_dismiss choice d
    -- closing the dialog changes only what is offered
    have hoffered : Derived { d with offered := offered } := h.of_eq rfl rfl rfl
    rw [hdismiss]
    exact hoffered.allWork_setPosition hwork hchoice
  | offer choice =>
    obtain ⟨-, rfl⟩ := Machine.of_ite_eq_some hnext
    exact iff_of_true hwork trivial
  | detach | customSubtitles =>
    obtain rfl := Option.some.inj hnext
    exact iff_of_true hwork trivial
  | subtitles | chooseSubtitles =>
    obtain rfl := Option.some.inj hnext
    exact iff_of_true (allWork_setLangSubtitles.mpr hwork) trivial

/-- When the application starts no view has been called, and each step decides. -/
theorem viewsGuard_exact :
    (machine parseFloat).ExactGuard (fun _ => True) (ViewsGuard parseFloat) AllWork where
  init_iff := by
    rintro d rfl
    exact iff_of_true (fun _ h => by cases h) trivial
  step_iff := fun _ _ _ hreach hwork hnext =>
    allWork_next_iff (derived_of_reachable hreach) hwork hnext

/-- **The details views.**  In every run that meets the guard no call of a view indexes outside the
    bounds or dereferences a null; and the guard is exact. -/
theorem views_of_guard (parseFloat : String → Option R) (d : DetailsViews) :
    ((machine parseFloat).RunUnder (fun _ => True) (ViewsGuard parseFloat) d → d.AllWork) ∧
    (machine parseFloat).ExactGuard (fun _ => True) (ViewsGuard parseFloat) AllWork :=
  ⟨viewsGuard_exact.runUnder, viewsGuard_exact⟩

/-- A run after which not all calls have worked. -/
theorem not_allWork_of_runEvents {β : Type} (events : List DetailsEvent) {f : DetailsViews → β}
    {b : β} (h : (Machine.runEvents (next parseFloat) new events).map
      (fun d => (f d, d.calls.all ViewCall.works)) = some (b, false)) :
    ∃ d, (machine parseFloat).Reachable d ∧ f d = b ∧ ¬d.AllWork := by
  have hstart : (machine parseFloat).Reachable new := .start rfl
  obtain ⟨d, hreach, heq⟩ := hstart.exists_of_runEvents h
  obtain ⟨hf, hcalls⟩ := Prod.mk.inj heq
  refine ⟨d, hreach, hf, fun hwork => ?_⟩
  rw [List.all_eq_true.mpr hwork] at hcalls
  cases hcalls

/-- A movie with one torrent, and with two that are dubbed. -/
def dubbedMovie : JsonElement :=
  .object [("items", .array [.object []]),
    ("items_lang", .array [.object [("language", .string "ru")],
      .object [("language", .string "ru")]])]

/-- A first season that has no episodes is shown at the position `-1`; a torrent that is null is
    asked for its name; and a torrent that is chosen from the list of a dubbing, after a reply with
    the details of the movie has brought back the shorter list of another one, is looked for behind
    its end. -/
theorem season_without_episodes :
    (∃ d, (machine (R := ℚ) fun _ => none).Reachable d ∧ d.episode = ⟨some [], -1⟩ ∧ ¬d.AllWork) ∧
    (∃ d, (machine (R := ℚ) fun _ => none).Reachable d ∧ d.torrent = ⟨some [none], 0⟩ ∧
      ¬d.AllWork) ∧
    ∃ d, (machine (R := ℚ) fun _ => none).Reachable d ∧
      (d.torrent.position, d.count .torrent) = (1, 1) ∧ ¬d.AllWork := by
  refine ⟨?_, ?_, ?_⟩
  · refine not_allWork_of_runEvents [.tvShow (.object []) none, .attach .tvShow,
      .tvShow (.object []) (some (.object [("1", .array [])]))] ?_
    decide +kernel
  · refine not_allWork_of_runEvents [.movie (.object [("items", .array [.null])]),
      .attach .movie] ?_
    decide +kernel
  · refine not_allWork_of_runEvents [.movie dubbedMovie, .attach .movie, .offer .dubbing,
      .choose .dubbing 1, .offer .torrent, .movie dubbedMovie, .choose .torrent 1] ?_
    decide +kernel

end DetailsViews

end Content

end PopcornTime.Android
