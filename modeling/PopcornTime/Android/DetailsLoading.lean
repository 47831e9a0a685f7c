import Mathlib.Data.Int.Notation
import Mathlib.Logic.Function.Basic
import PopcornTime.Lib.Machine

namespace PopcornTime.Android

open PopcornTime

/-!
# Android details — loading

`DetailsActivity.start` sets the video, which makes `PopcornApplication` ask the details providers
of its type, all in one subscription.  There is one slot for subscriptions: while it is busy, a
new video is asked nothing for.  Each reply sets the video it is about, the first failure ends the
subscription for all of its providers, and a page that was left sets null when it is destroyed,
whatever the video is then.

* `DetailsLoading.next` — pages that are opened, left and destroyed, and what the providers do.
* `DetailsLoading.Right` — the video is that of the page opened last, everything it lacks has been
  asked for, and no answer is lost to a failure of another provider.
* `LoadingGuard` — what may happen while the slot is busy or an earlier page still lives.
* `loading_of_guard` — in every run that meets the guard all is right, and the guard is exact.
-/

/-- The types of videos. -/
inductive VideoType
  | cinemaMovies
  | cinemaTvShows
  | animeMovies
  | animeTvShows
deriving DecidableEq, Repr

/-- A `VideoInfo`, as an object. -/
structure VideoRef where
  id : ℕ
  type : VideoType
deriving DecidableEq, Repr

/-- The fields of a video that say whether it has its details. -/
structure VideoDetails where
  durationMinutes : ℤ
  backdrops : Option (List String)
deriving DecidableEq, Repr

/-- `TmdbProvider` and `TvShowsSeasonsProvider` -/
inductive DetailsProvider
  | tmdb
  | seasons
deriving DecidableEq, Repr

def DetailsProvider.isDetailsExists (details : VideoDetails) : DetailsProvider → Bool
  | tmdb => decide (0 < details.durationMinutes) && details.backdrops.isSome
  | seasons => false

/-- `contentUseCase.getDetailsProviders`; null is the empty list. -/
def getDetailsProviders : VideoType → List DetailsProvider
  | .cinemaMovies => [.tmdb]
  | .cinemaTvShows => [.tmdb, .seasons]
  | .animeMovies => []
  | .animeTvShows => [.seasons]

/-- A subscription to the merged details of a video: the providers that have not completed yet, and
    those that the failure of another one has ended. -/
structure DetailsRequest where
  video : VideoRef
  active : List DetailsProvider
  killed : List DetailsProvider
deriving DecidableEq, Repr

/-- The merge ends with its last provider, or with the first that fails. -/
def DetailsRequest.isDisposed (request : DetailsRequest) : Bool :=
  request.active.isEmpty

/-- A details page; `clear` is set as it is left. -/
structure DetailsPage where
  video : VideoRef
  clear : Bool
  destroyed : Bool
deriving DecidableEq, Repr

/-- The video property, the slot, the videos there are, and the pages in the order of their start;
    what was lacking at a start and is not asked for, and the answers that were lost. -/
structure DetailsLoading where
  videoInfo : Option VideoRef
  detailsDisposable : Option DetailsRequest
  details : VideoRef → VideoDetails
  pages : List DetailsPage
  unasked : List (VideoRef × DetailsProvider)
  suppressed : List (VideoRef × DetailsProvider)

inductive LoadingEvent
  | start (video : VideoRef)
  | onBackPressed (n : ℕ)
  | onDestroy (n : ℕ)
  /-- A provider answers, and has changed the video to `details`. -/
  | reply (provider : DetailsProvider) (details : VideoDetails)
  | complete (provider : DetailsProvider)
  | fail (provider : DetailsProvider)

namespace DetailsLoading

/-- The providers of what a video lacks. -/
def missing (video : VideoRef) (s : DetailsLoading) : List DetailsProvider :=
  (getDetailsProviders video.type).filter fun p => !p.isDetailsExists (s.details video)

/-- The slot can take a subscription. -/
def isFree (s : DetailsLoading) : Bool :=
  s.detailsDisposable.all DetailsRequest.isDisposed

/-- The subscriber of `PopcornApplication`. -/
def onVideoInfo (s : DetailsLoading) : Option VideoRef → Option DetailsRequest
  | some video =>
    if s.isFree then
      if getDetailsProviders video.type = [] then s.detailsDisposable
      else some ⟨video, s.missing video, []⟩
    else s.detailsDisposable
  | none => none

/-- `videoInfoProperty.setValue` -/
def setVideoInfo (videoInfo : Option VideoRef) (s : DetailsLoading) : DetailsLoading :=
  { s with videoInfo := videoInfo, detailsDisposable := s.onVideoInfo videoInfo }

/-- The provider is being asked for the video. -/
def IsAsked (s : DetailsLoading) (video : VideoRef) (provider : DetailsProvider) : Prop :=
  ∃ request ∈ s.detailsDisposable, request.video = video ∧ provider ∈ request.active

instance {s : DetailsLoading} {video : VideoRef} {provider : DetailsProvider} :
    Decidable (s.IsAsked video provider) :=
  inferInstanceAs (Decidable (∃ request ∈ s.detailsDisposable, _))

/-- `DetailsActivity.start` -/
def start (video : VideoRef) (s : DetailsLoading) : DetailsLoading :=
  { s.setVideoInfo (some video) with
    pages := s.pages ++ [⟨video, false, false⟩]
    unasked := s.unasked ++ ((s.missing video).filter fun p =>
      !decide ((s.setVideoInfo (some video)).IsAsked video p)).map (video, ·) }

def setPage (n : ℕ) (page : DetailsPage) (s : DetailsLoading) : DetailsLoading :=
  { s with pages := s.pages.set n page }

/-- `onNext`: the answer of a provider sets its video.  One that was ended is not heard. -/
def onReply (request : DetailsRequest) (provider : DetailsProvider) (details : VideoDetails)
    (s : DetailsLoading) : Option DetailsLoading :=
  if provider ∈ request.active then
    some ({ s with details := Function.update s.details request.video details }.setVideoInfo
      (some request.video))
  -- a provider that another one's error has ended: its answer is dropped
  else if provider ∈ request.killed then
    some { s with
      suppressed :=
        if s.videoInfo = some request.video then s.suppressed ++ [(request.video, provider)]
        else s.suppressed }
  else none

/-- `onComplete` of a provider, and of one that was ended. -/
def onComplete (request : DetailsRequest) (provider : DetailsProvider) (s : DetailsLoading) :
    Option DetailsLoading :=
  if provider ∈ request.active then
    some { s with
      detailsDisposable := some { request with active := request.active.erase provider } }
  else if provider ∈ request.killed then
    some { s with
      detailsDisposable := some { request with killed := request.killed.erase provider } }
  else none

/-- `onError` of a provider ends the others. -/
def onError (request : DetailsRequest) (provider : DetailsProvider) (s : DetailsLoading) :
    Option DetailsLoading :=
  if provider ∈ request.active then
    some { s with detailsDisposable := some ⟨request.video, [], request.active.erase provider⟩ }
  else if provider ∈ request.killed then
    some { s with
      detailsDisposable := some { request with killed := request.killed.erase provider } }
  else none

/-- The code that runs on an event; `none` where it cannot happen.  A page that has not been left
    comes back after `onDestroy`. -/
def next (s : DetailsLoading) : LoadingEvent → Option DetailsLoading
  | .start video => some (s.start video)
  | .onBackPressed n => do
    let page ← s.pages[n]?
    if page.destroyed then none else some (s.setPage n { page with clear := true })
  | .onDestroy n => do
    let page ← s.pages[n]?
    if page.destroyed then none
    else if page.clear then some ((s.setPage n { page with destroyed := true }).setVideoInfo none)
    else some s
  | .reply provider details => do s.onReply (← s.detailsDisposable) provider details
  | .complete provider => do s.onComplete (← s.detailsDisposable) provider
  | .fail provider => do s.onError (← s.detailsDisposable) provider

/-- Before the first page, with any details. -/
def Init (s : DetailsLoading) : Prop :=
  ∃ details, s = ⟨none, none, details, [], [], []⟩

def machine : Machine DetailsLoading LoadingEvent :=
  Machine.ofFun Init next

/-! ### What should hold -/

/-- The page opened last. -/
def lastPage (s : DetailsLoading) : Option DetailsPage :=
  s.pages.getLast?

/-- The video is that of the last page, or null once the page was left, and null when it has been
    destroyed behind that. -/
def Shown (s : DetailsLoading) : Prop :=
  match s.lastPage with
  | none => s.videoInfo = none
  | some page =>
    if page.destroyed then s.videoInfo = none
    else s.videoInfo = some page.video ∨ (page.clear = true ∧ s.videoInfo = none)

/-- The right video, everything asked for and nothing lost. -/
structure Right (s : DetailsLoading) : Prop where
  shown : s.Shown
  asked : s.unasked = []
  heard : s.suppressed = []

/-- A page is started while the slot is free, or while all that its video lacks is being asked for;
    a page is destroyed behind its `onBackPressed` only if the last one has been left; a provider
    answers only for the video of the last page; and one that was ended does not answer while its
    video is shown. -/
def LoadingGuard (s : DetailsLoading) : LoadingEvent → Prop
  | .start video => s.isFree = true ∨ ∀ p ∈ s.missing video, s.IsAsked video p
  | .onDestroy n => ∀ page, s.pages[n]? = some page → page.clear = true →
    ∀ last ∈ s.lastPage, last.clear = true
  | .reply provider _ => ∀ request ∈ s.detailsDisposable,
    if provider ∈ request.active then ∀ page ∈ s.lastPage, request.video = page.video
    else s.videoInfo ≠ some request.video
  | .onBackPressed _ | .complete _ | .fail _ => True

/-- What is known without the guard: the slot is taken only while the last page lives, and a page
    is destroyed only behind `onBackPressed`. -/
structure Inv (s : DetailsLoading) : Prop where
  living : s.detailsDisposable ≠ none → ∃ page ∈ s.lastPage, page.destroyed = false
  left : ∀ page ∈ s.pages, page.destroyed = true → page.clear = true

variable {s s' : DetailsLoading} {e : LoadingEvent} {n : ℕ} {page : DetailsPage}
  {request : DetailsRequest} {provider : DetailsProvider} {video : VideoRef}

/-! ### The pages -/

/-- The page that is started is the last one. -/
theorem lastPage_start : (s.start video).lastPage = some ⟨video, false, false⟩ :=
  List.getLast?_concat

/-- A page that changes is the last one only at the end. -/
theorem lastPage_setPage (hpage : s.pages[n]? = some page) (page' : DetailsPage) :
    (s.setPage n page').lastPage =
      if n + 1 = s.pages.length then some page' else s.lastPage := by
  obtain ⟨hn, -⟩ := List.getElem?_eq_some_iff.mp hpage
  rw [lastPage, lastPage, setPage, List.getLast?_eq_getElem?, List.getLast?_eq_getElem?,
    List.length_set, List.getElem?_set]
  by_cases hlast : n + 1 = s.pages.length
  · rw [if_pos (by omega), if_pos hlast, if_pos (by omega)]
  · rw [if_neg (by omega), if_neg hlast]

/-- The page at the end is the last one. -/
theorem lastPage_of_length (hpage : s.pages[n]? = some page) (hlast : n + 1 = s.pages.length) :
    s.lastPage = some page := by
  rw [lastPage, List.getLast?_eq_getElem?, ← hlast, Nat.add_sub_cancel, hpage]

/-- The other pages stay. -/
theorem mem_pages_setPage {page' : DetailsPage} (h : page' ∈ (s.setPage n page).pages) :
    page' ∈ s.pages ∨ page' = page :=
  List.mem_or_eq_of_mem_set h

/-! ### The steps -/

/-- What is missing is asked for if the slot is free, or is being asked for already. -/
theorem isAsked_setVideoInfo (hmissing : provider ∈ s.missing video) :
    (s.setVideoInfo (some video)).IsAsked video provider ↔
      s.isFree = true ∨ s.IsAsked video provider := by
  have hproviders : getDetailsProviders video.type ≠ [] := fun hnil => by
    rw [missing, hnil] at hmissing
    exact absurd hmissing (by simp)
  by_cases hfree : s.isFree = true
  · refine iff_of_true ⟨⟨video, s.missing video, []⟩, ?_, rfl, hmissing⟩ (.inl hfree)
    show s.onVideoInfo (some video) = _
    rw [onVideoInfo, if_pos hfree, if_neg hproviders]
  · rw [or_iff_right hfree]
    have hslot : (s.setVideoInfo (some video)).detailsDisposable = s.detailsDisposable := by
      show s.onVideoInfo (some video) = _
      rw [onVideoInfo, if_neg hfree]
    rw [IsAsked, IsAsked, hslot]

/-- Everything is asked for where the slot is free, or where it is being asked for. -/
theorem unasked_start : (s.start video).unasked = [] ↔
    s.unasked = [] ∧ (s.isFree = true ∨ ∀ p ∈ s.missing video, s.IsAsked video p) := by
  have hall : (∀ p ∈ s.missing video, (s.setVideoInfo (some video)).IsAsked video p) ↔
      s.isFree = true ∨ ∀ p ∈ s.missing video, s.IsAsked video p := by
    by_cases hfree : s.isFree = true
    · exact iff_of_true (fun p hp => (isAsked_setVideoInfo hp).mpr (.inl hfree)) (.inl hfree)
    · rw [or_iff_right hfree]
      exact forall₂_congr fun p hp => by rw [isAsked_setVideoInfo hp, or_iff_right hfree]
  show s.unasked ++ _ = [] ↔ _
  rw [List.append_eq_nil_iff, List.map_eq_nil_iff, List.filter_eq_nil_iff, ← hall]
  simp

/-- A reply is only heard while the slot is busy, so the slot stays as it is. -/
theorem onReply_of_mem {details : VideoDetails} (hslot : s.detailsDisposable = some request)
    (hactive : provider ∈ request.active) :
    s.onReply request provider details = some { s with
      details := Function.update s.details request.video details
      videoInfo := some request.video } := by
  have hbusy : request.isDisposed = false := by
    rw [DetailsRequest.isDisposed, List.isEmpty_eq_false_iff]
    exact List.ne_nil_of_mem hactive
  rw [onReply, if_pos hactive, Option.some.injEq, setVideoInfo, onVideoInfo, isFree, hslot]
  simp [hbusy]

/-- What the events are, the guard apart. -/
theorem next_cases (hnext : s.next e = some s') :
    (∃ video, e = .start video ∧ s' = s.start video) ∨
    (∃ n page, e = .onBackPressed n ∧ s.pages[n]? = some page ∧ page.destroyed = false ∧
      s' = s.setPage n { page with clear := true }) ∨
    (∃ n page, e = .onDestroy n ∧ s.pages[n]? = some page ∧ page.destroyed = false ∧
      page.clear = true ∧ s' = (s.setPage n { page with destroyed := true }).setVideoInfo none) ∨
    (∃ n page, e = .onDestroy n ∧ s.pages[n]? = some page ∧ page.clear = false ∧ s' = s) ∨
    (∃ request provider details, e = .reply provider details ∧
      s.detailsDisposable = some request ∧ s.onReply request provider details = some s') ∨
    ∃ request request', s.detailsDisposable = some request ∧
      s' = { s with detailsDisposable := some request' } ∧
      ∃ provider, e = .complete provider ∨ e = .fail provider := by
  cases e with
  | start video => exact .inl ⟨video, rfl, (Option.some.inj hnext).symm⟩
  | onBackPressed n =>
    obtain ⟨page, hpage, hstep⟩ := Option.bind_eq_some_iff.mp hnext
    split_ifs at hstep with hdestroyed
    exact .inr (.inl ⟨n, page, rfl, hpage, by simpa using hdestroyed, (Option.some.inj hstep).symm⟩)
  | onDestroy n =>
    obtain ⟨page, hpage, hstep⟩ := Option.bind_eq_some_iff.mp hnext
    split_ifs at hstep with hdestroyed hclear
    · exact .inr (.inr (.inl
        ⟨n, page, rfl, hpage, by simpa using hdestroyed, hclear, (Option.some.inj hstep).symm⟩))
    · exact .inr (.inr (.inr (.inl
        ⟨n, page, rfl, hpage, by simpa using hclear, (Option.some.inj hstep).symm⟩)))
  | reply provider details =>
    obtain ⟨request, hslot, hstep⟩ := Option.bind_eq_some_iff.mp hnext
    exact .inr (.inr (.inr (.inr (.inl ⟨request, provider, details, rfl, hslot, hstep⟩))))
  | complete provider =>
    obtain ⟨request, hslot, hstep⟩ := Option.bind_eq_some_iff.mp hnext
    rw [onComplete] at hstep
    split_ifs at hstep
    · exact .inr (.inr (.inr (.inr (.inr
        ⟨request, _, hslot, (Option.some.inj hstep).symm, provider, .inl rfl⟩))))
    · exact .inr (.inr (.inr (.inr (.inr
        ⟨request, _, hslot, (Option.some.inj hstep).symm, provider, .inl rfl⟩))))
  | fail provider =>
    obtain ⟨request, hslot, hstep⟩ := Option.bind_eq_some_iff.mp hnext
    rw [onError] at hstep
    split_ifs at hstep
    · exact .inr (.inr (.inr (.inr (.inr
        ⟨request, _, hslot, (Option.some.inj hstep).symm, provider, .inr rfl⟩))))
    · exact .inr (.inr (.inr (.inr (.inr
        ⟨request, _, hslot, (Option.some.inj hstep).symm, provider, .inr rfl⟩))))

/-- An answer is heard, or it is one of a provider that was ended. -/
theorem onReply_cases {details : VideoDetails} (hslot : s.detailsDisposable = some request)
    (hstep : s.onReply request provider details = some s') :
    (provider ∈ request.active ∧ s' = { s with
      details := Function.update s.details request.video details
      videoInfo := some request.video }) ∨
    provider ∉ request.active ∧ s' = { s with
      suppressed :=
        if s.videoInfo = some request.video then s.suppressed ++ [(request.video, provider)]
        else s.suppressed } := by
  by_cases hactive : provider ∈ request.active
  · rw [onReply_of_mem hslot hactive] at hstep
    exact .inl ⟨hactive, (Option.some.inj hstep).symm⟩
  · rw [onReply, if_neg hactive] at hstep
    obtain ⟨-, heq⟩ := Machine.of_ite_eq_some hstep
    exact .inr ⟨hactive, heq⟩

/-- **One event** keeps the invariant. -/
theorem Inv.next (h : s.Inv) (hnext : s.next e = some s') : s'.Inv := by
  rcases next_cases hnext with ⟨video, -, rfl⟩ | ⟨n, page, -, hpage, hdestroyed, rfl⟩ |
    ⟨n, page, -, hpage, -, hclear, rfl⟩ | ⟨n, page, -, -, -, rfl⟩ |
    ⟨request, provider, details, -, hslot, hstep⟩ | ⟨request, request', hslot, rfl, -⟩
  · refine ⟨fun _ => ⟨_, lastPage_start, rfl⟩, fun page hpage => ?_⟩
    rcases List.mem_append.mp hpage with hold | hnew
    · exact h.left page hold
    · rw [List.mem_singleton.mp hnew]
      exact nofun
  · refine ⟨fun hne => ?_, fun page' hpage' => ?_⟩
    · -- going back clears a page, and leaves it alive
      obtain ⟨last, hlast, hliving⟩ := h.living hne
      rw [lastPage_setPage hpage]
      split_ifs
      · exact ⟨_, rfl, hdestroyed⟩
      · exact ⟨last, hlast, hliving⟩
    · rcases mem_pages_setPage hpage' with hold | rfl
      · exact h.left page' hold
      · exact fun _ => rfl
  · refine ⟨fun hne => absurd rfl hne, fun page' hpage' => ?_⟩
    rcases mem_pages_setPage hpage' with hold | rfl
    · exact h.left page' hold
    · exact fun _ => hclear
  · exact h
  · rcases onReply_cases hslot hstep with ⟨-, rfl⟩ | ⟨-, rfl⟩
    · exact ⟨h.living, h.left⟩
    · exact ⟨h.living, h.left⟩
  · exact ⟨fun _ => h.living (by rw [hslot]; exact nofun), h.left⟩

/-- **Every run** keeps the invariant. -/
theorem inv_of_reachable (h : machine.Reachable s) : s.Inv := by
  refine Machine.Reachable.invariant ?_ (fun s e s' hinv hnext => hinv.next hnext) h
  rintro s ⟨details, rfl⟩
  exact ⟨fun hne => absurd rfl hne, by simp⟩

/-! ### When the loading is right -/

/-- What is to be shown with a last page. -/
theorem shown_of_lastPage (h : s.lastPage = some page) : s.Shown ↔
    if page.destroyed then s.videoInfo = none
    else s.videoInfo = some page.video ∨ (page.clear = true ∧ s.videoInfo = none) := by
  rw [Shown, h]

/-- A start is right if everything is asked for. -/
theorem right_start_iff (hright : s.Right) :
    (s.start video).Right ↔ s.isFree = true ∨ ∀ p ∈ s.missing video, s.IsAsked video p := by
  have hshown : (s.start video).Shown := (shown_of_lastPage lastPage_start).mpr (.inl rfl)
  constructor
  · exact fun h => (unasked_start.mp h.asked).2
  · exact fun h => ⟨hshown, unasked_start.mpr ⟨hright.asked, h⟩, hright.heard⟩

/-- A page that is left shows its video until it is destroyed. -/
theorem right_onBackPressed (hright : s.Right) (hpage : s.pages[n]? = some page)
    (hdestroyed : page.destroyed = false) : (s.setPage n { page with clear := true }).Right := by
  refine ⟨?_, hright.asked, hright.heard⟩
  have hlast := lastPage_setPage hpage { page with clear := true }
  split_ifs at hlast with hn
  · have hshown := (shown_of_lastPage (lastPage_of_length hpage hn)).mp hright.shown
    rw [hdestroyed] at hshown
    rw [shown_of_lastPage hlast, if_neg (by simp [hdestroyed])]
    exact hshown.imp id fun h => ⟨rfl, h.2⟩
  · rw [Shown, hlast]
    exact hright.shown

/-- Whichever page is destroyed, the video is null then. -/
theorem right_onDestroy_iff (h : s.Inv) (hright : s.Right) (hpage : s.pages[n]? = some page)
    (hclear : page.clear = true) :
    ((s.setPage n { page with destroyed := true }).setVideoInfo none).Right ↔
      ∀ last ∈ s.lastPage, last.clear = true := by
  have hlast : ((s.setPage n { page with destroyed := true }).setVideoInfo none).lastPage =
      if n + 1 = s.pages.length then some { page with destroyed := true } else s.lastPage :=
    lastPage_setPage hpage _
  -- only what is shown can go wrong: nothing is asked for or heard here
  suffices hshown : ((s.setPage n { page with destroyed := true }).setVideoInfo none).Shown ↔
      ∀ last ∈ s.lastPage, last.clear = true by
    rw [← hshown]
    exact ⟨fun hr => hr.shown, fun hs => ⟨hs, hright.asked, hright.heard⟩⟩
  split_ifs at hlast with hn
  · refine iff_of_true ((shown_of_lastPage hlast).mpr rfl) ?_
    rw [lastPage_of_length hpage hn]
    rintro last ⟨⟩
    exact hclear
  · cases hold : s.lastPage with
    | none =>
      refine iff_of_true ?_ (by simp)
      rw [Shown, hlast.trans hold]
      rfl
    | some last =>
      rw [shown_of_lastPage (hlast.trans hold)]
      have hmem : last ∈ s.pages := List.mem_of_getLast? hold
      cases hdestroyed : last.destroyed with
      | true => simp [setVideoInfo, h.left last hmem hdestroyed]
      | false => simp [setVideoInfo]

/-- An answer is right for the video of the last page, or where it is lost and not looked for. -/
theorem right_reply_iff (h : s.Inv) (hright : s.Right) {details : VideoDetails}
    (hslot : s.detailsDisposable = some request)
    (hstep : s.onReply request provider details = some s') :
    s'.Right ↔ if provider ∈ request.active then ∀ page ∈ s.lastPage, request.video = page.video
      else s.videoInfo ≠ some request.video := by
  obtain ⟨last, hlast, hliving⟩ := h.living (by rw [hslot]; exact nofun)
  rcases onReply_cases hslot hstep with ⟨hactive, rfl⟩ | ⟨hkilled, rfl⟩
  · rw [if_pos hactive, hlast]
    have hshown := shown_of_lastPage (s := { s with
      details := Function.update s.details request.video details
      videoInfo := some request.video }) hlast
    rw [hliving] at hshown
    constructor
    · rintro hr page ⟨⟩
      simpa using hshown.mp hr.shown
    · exact fun hvideo => ⟨hshown.mpr (.inl (congrArg some (hvideo last rfl))), hright.asked,
        hright.heard⟩
  · rw [if_neg hkilled]
    constructor
    · intro hr hvideo
      have hheard := hr.heard
      simp [hvideo] at hheard
    · intro hvideo
      exact ⟨hright.shown, hright.asked, (if_neg hvideo).trans hright.heard⟩

/-- **One event** keeps all right exactly if it meets the guard. -/
theorem right_next_iff (h : s.Inv) (hright : s.Right) (hnext : s.next e = some s') :
    s'.Right ↔ s.LoadingGuard e := by
  rcases next_cases hnext with ⟨video, rfl, rfl⟩ | ⟨n, page, rfl, hpage, hdestroyed, rfl⟩ |
    ⟨n, page, rfl, hpage, -, hclear, rfl⟩ | ⟨n, page, rfl, hpage, hclear, rfl⟩ |
    ⟨request, provider, details, rfl, hslot, hstep⟩ | ⟨request, request', hslot, rfl, provider, he⟩
  · exact right_start_iff hright
  · exact iff_of_true (right_onBackPressed hright hpage hdestroyed) trivial
  · rw [right_onDestroy_iff h hright hpage hclear, LoadingGuard, hpage]
    constructor
    · exact fun hall _ _ _ => hall
    · exact fun hall => hall page rfl hclear
  · refine iff_of_true hright fun page' hpage' hclear' => ?_
    obtain rfl := Option.some.inj (hpage.symm.trans hpage')
    rw [hclear] at hclear'
    exact absurd hclear' (by simp)
  · rw [right_reply_iff h hright hslot hstep, LoadingGuard, hslot]
    constructor
    · rintro hguard request' ⟨⟩
      exact hguard
    · exact fun hguard => hguard request rfl
  · refine iff_of_true ⟨hright.shown, hright.asked, hright.heard⟩ ?_
    rcases he with rfl | rfl
    · trivial
    · trivial

/-- The guard is met exactly by the events that keep all right. -/
theorem loadingGuard_exact : machine.ExactGuard (fun _ => True) LoadingGuard Right where
  init_iff := by
    rintro s ⟨details, rfl⟩
    exact iff_of_true ⟨rfl, rfl, rfl⟩ trivial
  step_iff := fun _ _ _ hreach hright hnext => right_next_iff (inv_of_reachable hreach) hright hnext

/-- **The loading of details.**  In every run that meets the guard the video is that of the page
    opened last, or null behind it, whatever it lacked has been asked for, and no failure has
    suppressed an answer.  The guard is exact. -/
theorem loading_of_guard (s : DetailsLoading) :
    (machine.RunUnder (fun _ => True) LoadingGuard s → s.Right) ∧
    machine.ExactGuard (fun _ => True) LoadingGuard Right :=
  ⟨loadingGuard_exact.runUnder, loadingGuard_exact⟩

/-- Two shows that lack everything. -/
def firstShow : VideoRef := ⟨0, .cinemaTvShows⟩

def secondShow : VideoRef := ⟨1, .cinemaTvShows⟩

/-- The start, with no details anywhere. -/
def bare : DetailsLoading := ⟨none, none, fun _ => ⟨0, none⟩, [], [], []⟩

/-- The second show is opened before the page of the first one is destroyed: nothing is asked for
    it, and the destruction clears it; or a reply brings the first show back.  And a show whose
    backdrops fail never gets its seasons. -/
theorem second_show_lost :
    (∃ s, machine.Reachable s ∧ s.videoInfo = none ∧
      s.lastPage = some ⟨secondShow, false, false⟩ ∧ s.unasked.length = 2) ∧
    (∃ s, machine.Reachable s ∧ s.videoInfo = some firstShow ∧
      s.lastPage = some ⟨secondShow, false, false⟩) ∧
    ∃ s, machine.Reachable s ∧ s.suppressed = [(firstShow, .seasons)] := by
  have hstart : machine.Reachable bare := .start ⟨_, rfl⟩
  refine ⟨?_, ?_, ?_⟩
  · have hrun : (Machine.runEvents next bare
        [.start firstShow, .onBackPressed 0, .start secondShow, .onDestroy 0]).map
          (fun s => (s.videoInfo, s.lastPage, s.unasked.length)) =
        some (none, some ⟨secondShow, false, false⟩, 2) := by
      decide
    obtain ⟨s, hreach, heq⟩ := Machine.Reachable.exists_of_runEvents
      (show machine.Reachable _ from hstart) hrun
    simp only [Prod.mk.injEq] at heq
    exact ⟨s, hreach, heq⟩
  · have hrun : (Machine.runEvents next bare
        [.start firstShow, .onBackPressed 0, .start secondShow, .reply .seasons ⟨0, none⟩]).map
          (fun s => (s.videoInfo, s.lastPage)) =
        some (some firstShow, some ⟨secondShow, false, false⟩) := by
      decide
    obtain ⟨s, hreach, heq⟩ := Machine.Reachable.exists_of_runEvents
      (show machine.Reachable _ from hstart) hrun
    simp only [Prod.mk.injEq] at heq
    exact ⟨s, hreach, heq⟩
  · have hrun : (Machine.runEvents next bare
        [.start firstShow, .fail .tmdb, .reply .seasons ⟨0, none⟩]).map
          (fun s => s.suppressed) = some [(firstShow, .seasons)] := by
      decide
    exact Machine.Reachable.exists_of_runEvents (show machine.Reachable _ from hstart) hrun

end DetailsLoading

end PopcornTime.Android
