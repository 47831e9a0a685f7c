import PopcornTime.Lib.Machine
import PopcornTime.Android.DetailsUseCase

namespace PopcornTime.Android

open PopcornTime

/-!
# Android watch — whose subtitles

The language subtitles of `DetailsUseCase` are filled by the request of `PopcornApplication` for the
torrent that is chosen and by the requests of watches that find none.  They are cleared only where
no torrent is chosen; a watch takes over whatever it finds.

* `SubtitlesRun.next` — details pages, watches, replies and ends of requests, in any order.
* `SubtitlesRun.OwnSubtitles` — the subtitles a watch leaves `LOAD_SUBTITLES` with answer a request
  for its own video.
* `ownSubtitles_of_guard` — when that holds.
-/

/-- Where the thread of a watch is: before `loadSubtitles`, behind `subscribe`, in `wait()`, at its
    end, or out by an `InterruptedException`.  `left` tells the subtitles there were, as the request
    that they answer. -/
inductive SubtitlesPhase
  | loading
  | subscribed
  | waiting
  | leaving
  | left (offered : Option (Option SubtitlesRequest))
  | interrupted
deriving DecidableEq

/-- A watch, with the request it has subscribed to while that is open. -/
structure SubtitlesWatch where
  watchInfo : WatchInfo
  phase : SubtitlesPhase
  request : Option SubtitlesRequest
deriving DecidableEq

/-- The request asks for the imdb, the season and the episode of the watch. -/
def WatchInfo.Asks (watchInfo : WatchInfo) (request : SubtitlesRequest) : Prop :=
  ∃ own ∈ SubtitlesProvider.getSubtitlesOfWatch watchInfo,
    request.imdb = own.imdb ∧ request.numbers = own.numbers

instance {watchInfo : WatchInfo} {request : SubtitlesRequest} :
    Decidable (watchInfo.Asks request) :=
  inferInstanceAs (Decidable (∃ own ∈ SubtitlesProvider.getSubtitlesOfWatch watchInfo, _))

/-- Behind its look at the subtitles and not out of `LOAD_SUBTITLES` yet. -/
def SubtitlesPhase.isInside : SubtitlesPhase → Bool
  | .subscribed | .waiting | .leaving => true
  | .loading | .left _ | .interrupted => false

namespace SubtitlesWatch

/-- The subtitles, if there are any, answer a request for the video of the watch. -/
def Owns (w : SubtitlesWatch) (offered : Option (Option SubtitlesRequest)) : Prop :=
  ∀ answered ∈ offered, ∃ request ∈ answered, w.watchInfo.Asks request

/-- In `LOAD_SUBTITLES` the subtitles there are are its own, as those it has left with. -/
def Fine (w : SubtitlesWatch) (offered : Option (Option SubtitlesRequest)) : Prop :=
  match w.phase with
  | .loading | .interrupted => True
  | .subscribed | .waiting | .leaving => w.Owns offered
  | .left offered => w.Owns offered

theorem owns_none {w : SubtitlesWatch} : w.Owns none := by
  simp [Owns]

theorem Fine.of_none {w : SubtitlesWatch} {offered : Option (Option SubtitlesRequest)}
    (h : w.Fine offered) : w.Fine none := by
  rw [Fine] at h ⊢
  cases hphase : w.phase with
  | loading | interrupted => trivial
  | subscribed | waiting | leaving => exact owns_none
  | left offered => simpa [hphase] using h

end SubtitlesWatch

/-- The application: the properties of the details, the request that the language subtitles answer,
    and the watches in the order of their start. -/
structure SubtitlesRun where
  details : Details
  answered : Option SubtitlesRequest
  watches : List SubtitlesWatch
deriving DecidableEq

namespace SubtitlesRun

inductive Event
  /-- A details page opens or is left, or the details of a video arrive. -/
  | videoInfo (videoInfo : Option VideoInfo)
  | season (position : ℤ)
  | episode (position : ℤ)
  | dubbing (position : ℤ)
  | torrent (position : ℤ)
  /-- A watch from the details page, and one from the downloads list. -/
  | watch
  | watchDownload (watchInfo : WatchInfo)
  /-- `onNext` of the request of the application, and its `onError` or `onComplete`. -/
  | reply (subLang : String) (subtitles : LangSubtitles)
  | terminate
  /-- The same of the request of a watch. -/
  | watchReply (i : ℕ) (subLang : String) (subtitles : LangSubtitles)
  | watchTerminate (i : ℕ)
  /-- The thread of a watch goes on. -/
  | advance (i : ℕ)
  /-- `wait()` ends without a notification. -/
  | wakeUp (i : ℕ)
  | interrupt (i : ℕ)

/-- A new watch. -/
def startWatch (watchInfo : WatchInfo) (s : SubtitlesRun) : SubtitlesRun :=
  { s with watches := s.watches ++ [⟨watchInfo, .loading, none⟩] }

def setWatch (i : ℕ) (w : SubtitlesWatch) (s : SubtitlesRun) : SubtitlesRun :=
  { s with watches := s.watches.set i w }

/-- The subtitles there are, as the request that they answer. -/
def offered (s : SubtitlesRun) : Option (Option SubtitlesRequest) :=
  s.details.langSubtitles.items.map fun _ => s.answered

/-- `loadSubtitles` up to `wait()`, and what follows it. -/
def advance (s : SubtitlesRun) (i : ℕ) (w : SubtitlesWatch) : Option SubtitlesRun :=
  match w.phase with
  | .loading =>
    -- asked before the subscription: another page may fill the items meanwhile
    if s.details.langSubtitles.items = none ∧ SubtitlesProvider.ofType w.watchInfo.type then
      some (s.setWatch i { w with
        phase := .subscribed, request := SubtitlesProvider.getSubtitlesOfWatch w.watchInfo })
    else some (s.setWatch i { w with phase := .leaving })
  | .subscribed => some (s.setWatch i { w with phase := .waiting })
  | .leaving => some (s.setWatch i { w with phase := .left s.offered })
  | .waiting | .left _ | .interrupted => none

/-- `notify`: a thread that waits goes on. -/
def notify (w : SubtitlesWatch) : SubtitlesWatch :=
  if w.phase = .waiting then { w with phase := .leaving } else w

/-- The code that runs on an event; `none` where the event cannot happen. -/
def next (isoToName : String → String) (s : SubtitlesRun) : Event → Option SubtitlesRun
  | .videoInfo videoInfo => some { s with details := s.details.setVideoInfo videoInfo }
  | .season position => some { s with details := s.details.setSeasonPosition position }
  | .episode position => some { s with details := s.details.setEpisodePosition position }
  | .dubbing position => some { s with details := s.details.setDubbingPosition position }
  | .torrent position => some { s with details := s.details.setTorrentPosition position }
  | .watch => s.details.buildWatchInfo.map s.startWatch
  | .watchDownload watchInfo => some (s.startWatch watchInfo)
  | .reply subLang subtitles => do
    let request ← s.details.subtitlesDisposable
    return { s with
      details := s.details.setSubtitles isoToName subLang subtitles, answered := some request }
  | .terminate => some { s with details := s.details.endSubtitles }
  | .watchReply i subLang subtitles => do
    let w ← s.watches[i]?
    let request ← w.request
    return { s with
      details := s.details.setSubtitles isoToName subLang subtitles, answered := some request }
  | .watchTerminate i => do
    let w ← s.watches[i]?
    if w.request = none then none else return s.setWatch i (notify { w with request := none })
  | .advance i => do
    let w ← s.watches[i]?
    s.advance i w
  | .wakeUp i => do
    let w ← s.watches[i]?
    if w.phase = .waiting then some (s.setWatch i { w with phase := .leaving }) else none
  | .interrupt i => do
    let w ← s.watches[i]?
    match w.phase with
    -- before `wait()` the request is disposed of, in `wait()` it stays
    | .subscribed => some (s.setWatch i { w with phase := .interrupted, request := none })
    | .waiting => some (s.setWatch i { w with phase := .interrupted })
    | _ => none

/-- The application when it starts. -/
def start : SubtitlesRun := ⟨.new, none, []⟩

def machine (isoToName : String → String) : Machine SubtitlesRun Event :=
  Machine.ofFun (fun s => s = start) (next isoToName)

/-! ### Whose subtitles -/

/-- Every watch that has left `LOAD_SUBTITLES` left it with subtitles of its own. -/
def OwnSubtitles (s : SubtitlesRun) : Prop :=
  ∀ w ∈ s.watches, ∀ offered, w.phase = .left offered → w.Owns offered

/-- So far every watch is fine. -/
def Fresh (s : SubtitlesRun) : Prop :=
  ∀ w ∈ s.watches, w.Fine s.offered

/-- A watch takes over subtitles only of its own, and no subtitles of another video arrive while it
    is in `LOAD_SUBTITLES` behind that. -/
def SubtitlesGuard (s : SubtitlesRun) : Event → Prop
  | .advance i => ∀ w, s.watches[i]? = some w → w.phase = .loading → w.Owns s.offered
  | .reply _ _ =>
    ∀ w ∈ s.watches, w.phase.isInside = true →
      ∀ request, s.details.subtitlesDisposable = some request → w.watchInfo.Asks request
  | .watchReply i _ _ =>
    ∀ w ∈ s.watches, w.phase.isInside = true →
      ∀ w' request, s.watches[i]? = some w' → w'.request = some request →
        w.watchInfo.Asks request
  | _ => True

variable {isoToName : String → String} {s s' : SubtitlesRun} {w w' : SubtitlesWatch} {i : ℕ}

/-- Without subtitles every watch is fine that has not left with others. -/
theorem Fresh.keepsOrClears (h : s.Fresh) {d : Details} (hd : s.details.KeepsOrClears d) :
    Fresh { s with details := d } := by
  intro w hw
  rcases hd with hkept | hcleared
  · have hoffered : offered { s with details := d } = s.offered := by
      rw [offered, offered, hkept]
    rw [hoffered]
    exact h w hw
  · have hoffered : offered { s with details := d } = none := by
      rw [offered, hcleared]
      rfl
    rw [hoffered]
    exact (h w hw).of_none

theorem fresh_startWatch (h : s.Fresh) {watchInfo : WatchInfo} :
    (s.startWatch watchInfo).Fresh := by
  intro w hw
  rcases List.mem_append.mp hw with hold | hnew
  · exact h w hold
  · rw [List.mem_singleton.mp hnew]
    trivial

/-- A watch that goes on keeps the others fine. -/
theorem fresh_setWatch_iff (h : s.Fresh) (hw : s.watches[i]? = some w) :
    (s.setWatch i w').Fresh ↔ w'.Fine s.offered := by
  have hi : i < s.watches.length := (List.getElem?_eq_some_iff.mp hw).1
  constructor
  · intro hfresh
    exact hfresh w' (List.mem_set hi w')
  · intro hfine v hv
    rcases List.mem_or_eq_of_mem_set hv with hold | rfl
    · exact h v hold
    · exact hfine

/-- Subtitles that arrive are to be those of every watch in `LOAD_SUBTITLES`. -/
theorem fresh_reply_iff (h : s.Fresh) {subLang : String} {subtitles : LangSubtitles}
    {request : SubtitlesRequest} :
    Fresh { s with
      details := s.details.setSubtitles isoToName subLang subtitles, answered := some request } ↔
      ∀ w ∈ s.watches, w.phase.isInside = true → w.watchInfo.Asks request := by
  -- whoever asked, the reply is what is offered from now on
  have hoffered : offered { s with
      details := s.details.setSubtitles isoToName subLang subtitles, answered := some request } =
      some (some request) := rfl
  refine forall₂_congr fun w hw => ?_
  rw [hoffered]
  have hold := h w hw
  cases hphase : w.phase with
  | loading | interrupted =>
    simp [SubtitlesWatch.Fine, hphase, SubtitlesPhase.isInside]
  -- what a watch has left with is behind it
  | left offered =>
    simpa [SubtitlesWatch.Fine, hphase, SubtitlesPhase.isInside] using hold
  | subscribed | waiting | leaving =>
    simp [SubtitlesWatch.Fine, hphase, SubtitlesPhase.isInside, SubtitlesWatch.Owns]

/-- The thread of a watch keeps everything fine exactly if it takes over nothing of others. -/
theorem fresh_advance_iff (h : s.Fresh) (hw : s.watches[i]? = some w)
    (hstep : s.advance i w = some s') : s'.Fresh ↔ s.SubtitlesGuard (.advance i) := by
  have hold := h w (List.mem_of_getElem? hw)
  have hguard : s.SubtitlesGuard (.advance i) ↔ (w.phase = .loading → w.Owns s.offered) := by
    simp [SubtitlesGuard, hw]
  rw [hguard]
  unfold SubtitlesRun.advance at hstep
  cases hphase : w.phase with
  | loading =>
    simp only [hphase] at hstep
    split_ifs at hstep with hask
    · -- there are no subtitles, and it asks for its own
      rw [Option.some.injEq] at hstep
      have hnone : s.offered = none := by
        rw [offered, hask.1]
        rfl
      rw [← hstep, fresh_setWatch_iff h hw, SubtitlesWatch.Fine, hnone]
      simp [SubtitlesWatch.Owns]
    · -- there are subtitles, or it cannot ask: it takes what is offered
      rw [Option.some.injEq] at hstep
      rw [← hstep, fresh_setWatch_iff h hw, SubtitlesWatch.Fine]
      simp [SubtitlesWatch.Owns]
  | subscribed =>
    simp only [hphase, Option.some.injEq] at hstep
    rw [SubtitlesWatch.Fine, hphase] at hold
    rw [← hstep, fresh_setWatch_iff h hw, SubtitlesWatch.Fine]
    exact iff_of_true hold (by simp)
  | leaving =>
    simp only [hphase, Option.some.injEq] at hstep
    rw [SubtitlesWatch.Fine, hphase] at hold
    rw [← hstep, fresh_setWatch_iff h hw, SubtitlesWatch.Fine]
    exact iff_of_true hold (by simp)
  | waiting | left | interrupted => simp [hphase] at hstep

theorem notify_fine {offered : Option (Option SubtitlesRequest)} (h : w.Fine offered) :
    (notify w).Fine offered := by
  unfold notify
  split_ifs with hwaiting
  · rw [SubtitlesWatch.Fine, hwaiting] at h
    exact h
  · exact h

/-- **One event** keeps everything fine exactly if it meets the guard. -/
theorem fresh_iff {e : Event} (h : s.Fresh) (hstep : s.next isoToName e = some s') :
    s'.Fresh ↔ s.SubtitlesGuard e := by
  cases e with
  -- the cascades of the page keep the subtitles or clear them
  | videoInfo videoInfo =>
    rw [← Option.some.inj hstep]
    exact iff_of_true (h.keepsOrClears Details.keepsOrClears_setVideoInfo) trivial
  | season position =>
    rw [← Option.some.inj hstep]
    exact iff_of_true (h.keepsOrClears Details.keepsOrClears_setSeasonPosition) trivial
  | episode position =>
    rw [← Option.some.inj hstep]
    exact iff_of_true (h.keepsOrClears Details.keepsOrClears_setEpisodePosition) trivial
  | dubbing position =>
    rw [← Option.some.inj hstep]
    exact iff_of_true (h.keepsOrClears Details.keepsOrClears_setDubbingPosition) trivial
  | torrent position =>
    rw [← Option.some.inj hstep]
    exact iff_of_true (h.keepsOrClears Details.keepsOrClears_setTorrentPosition) trivial
  | watch =>
    obtain ⟨watchInfo, -, rfl⟩ := Option.map_eq_some_iff.mp hstep
    exact iff_of_true (fresh_startWatch h) trivial
  | watchDownload watchInfo =>
    rw [← Option.some.inj hstep]
    exact iff_of_true (fresh_startWatch h) trivial
  | reply subLang subtitles =>
    obtain ⟨request, hrequest, hset⟩ := Option.bind_eq_some_iff.mp hstep
    rw [← Option.some.inj hset, fresh_reply_iff h]
    simp [SubtitlesGuard, hrequest]
  | terminate =>
    rw [← Option.some.inj hstep]
    exact iff_of_true h trivial
  -- the reply to one watch reaches every other
  | watchReply i subLang subtitles =>
    obtain ⟨w, hw, hstep⟩ := Option.bind_eq_some_iff.mp hstep
    obtain ⟨request, hrequest, hset⟩ := Option.bind_eq_some_iff.mp hstep
    rw [← Option.some.inj hset, fresh_reply_iff h]
    refine forall₃_congr fun v _ _ => ⟨fun hasks w' request' hw' hrequest' => ?_, fun hasks => ?_⟩
    · rw [hw, Option.some.injEq] at hw'
      rw [← hw', hrequest, Option.some.injEq] at hrequest'
      exact hrequest' ▸ hasks
    · exact hasks w request hw hrequest
  | watchTerminate i =>
    obtain ⟨w, hw, hstep⟩ := Option.bind_eq_some_iff.mp hstep
    split_ifs at hstep
    rw [← Option.some.inj hstep, fresh_setWatch_iff h hw]
    exact iff_of_true (notify_fine (h w (List.mem_of_getElem? hw))) trivial
  | advance i =>
    obtain ⟨w, hw, hstep⟩ := Option.bind_eq_some_iff.mp hstep
    exact fresh_advance_iff h hw hstep
  -- behind `wait` it takes what is offered
  | wakeUp i =>
    obtain ⟨w, hw, hstep⟩ := Option.bind_eq_some_iff.mp hstep
    have hold := h w (List.mem_of_getElem? hw)
    split_ifs at hstep with hwaiting
    rw [SubtitlesWatch.Fine, hwaiting] at hold
    rw [← Option.some.inj hstep, fresh_setWatch_iff h hw]
    exact iff_of_true hold trivial
  | interrupt i =>
    obtain ⟨w, hw, hstep⟩ := Option.bind_eq_some_iff.mp hstep
    cases hphase : w.phase with
    | subscribed | waiting =>
      rw [hphase] at hstep
      rw [← Option.some.inj hstep, fresh_setWatch_iff h hw]
      exact iff_of_true trivial trivial
    | loading | leaving | left | interrupted =>
      rw [hphase] at hstep
      cases hstep

theorem subtitlesGuard_exact (isoToName : String → String) :
    (machine isoToName).ExactGuard (fun _ => True) SubtitlesGuard Fresh where
  init_iff := by
    rintro s rfl
    exact iff_of_true (fun w hw => absurd hw List.not_mem_nil) trivial
  step_iff := fun _ _ _ _ hfresh hstep => fresh_iff hfresh hstep

theorem Fresh.ownSubtitles (h : s.Fresh) : s.OwnSubtitles := by
  intro w hw offered hphase
  have hfine := h w hw
  rw [SubtitlesWatch.Fine, hphase] at hfine
  exact hfine

/-! ### Behind a step that breaks the guard -/

theorem getElem?_setWatch_self (hw : s.watches[i]? = some w) :
    (s.setWatch i w').watches[i]? = some w' := by
  have hi : i < s.watches.length := (List.getElem?_eq_some_iff.mp hw).1
  simp [setWatch, hi]

/-- A watch in `LOAD_SUBTITLES` may leave it with the subtitles there are. -/
theorem exists_left (isoToName : String → String) (hw : s.watches[i]? = some w)
    (hinside : w.phase.isInside = true) : ∃ s', ((machine isoToName).goingOn s).Reachable s' ∧
      ∃ w' ∈ s'.watches, w'.watchInfo = w.watchInfo ∧ w'.phase = .left s.offered := by
  -- from the end backwards: each phase takes one step to the next
  have hleave : ∀ (s₁ : SubtitlesRun) {w₁ : SubtitlesWatch},
      ((machine isoToName).goingOn s).Reachable s₁ → s₁.watches[i]? = some w₁ →
      w₁.phase = .leaving → s₁.offered = s.offered → w₁.watchInfo = w.watchInfo →
      ∃ s', ((machine isoToName).goingOn s).Reachable s' ∧
        ∃ w' ∈ s'.watches, w'.watchInfo = w.watchInfo ∧ w'.phase = .left s.offered := by
    intro s₁ w₁ hreach hw₁ hphase hoffered hinfo
    refine ⟨s₁.setWatch i { w₁ with phase := .left s₁.offered },
      hreach.next (e := .advance i) ?_, _,
      List.mem_of_getElem? (getElem?_setWatch_self hw₁), hinfo, ?_⟩
    · show s₁.next isoToName (.advance i) = _
      simp [next, hw₁, SubtitlesRun.advance, hphase]
    · rw [hoffered]
  have hwait : ∀ (s₁ : SubtitlesRun) {w₁ : SubtitlesWatch},
      ((machine isoToName).goingOn s).Reachable s₁ → s₁.watches[i]? = some w₁ →
      w₁.phase = .waiting → s₁.offered = s.offered → w₁.watchInfo = w.watchInfo →
      ∃ s', ((machine isoToName).goingOn s).Reachable s' ∧
        ∃ w' ∈ s'.watches, w'.watchInfo = w.watchInfo ∧ w'.phase = .left s.offered := by
    intro s₁ w₁ hreach hw₁ hphase hoffered hinfo
    refine hleave (s₁.setWatch i { w₁ with phase := .leaving })
      (hreach.next (e := .wakeUp i) ?_) (getElem?_setWatch_self hw₁) rfl hoffered hinfo
    show s₁.next isoToName (.wakeUp i) = _
    simp [next, hw₁, hphase]
  have hstart : ((machine isoToName).goingOn s).Reachable s := Machine.Reachable.start rfl
  cases hphase : w.phase with
  -- not inside
  | loading | left | interrupted => simp [SubtitlesPhase.isInside, hphase] at hinside
  | leaving => exact hleave _ hstart hw hphase rfl rfl
  | waiting => exact hwait _ hstart hw hphase rfl rfl
  | subscribed =>
    refine hwait (s.setWatch i { w with phase := .waiting })
      (hstart.next (e := .advance i) ?_) (getElem?_setWatch_self hw) rfl rfl rfl
    show s.next isoToName (.advance i) = _
    simp [next, hw, SubtitlesRun.advance, hphase]

/-- Where a watch is not fine, the run may go on to where it leaves with the subtitles of another
    video. -/
theorem exists_not_ownSubtitles (h : ¬s.Fresh) :
    ∃ s', ((machine isoToName).goingOn s).Reachable s' ∧ ¬s'.OwnSubtitles := by
  simp only [Fresh, not_forall] at h
  obtain ⟨w, hw, hfine⟩ := h
  cases hphase : w.phase with
  | loading | interrupted =>
    rw [SubtitlesWatch.Fine, hphase] at hfine
    exact absurd trivial hfine
  -- it has left with them already
  | left offered =>
    rw [SubtitlesWatch.Fine, hphase] at hfine
    exact ⟨s, Machine.Reachable.start rfl, fun hown => hfine (hown w hw offered hphase)⟩
  | subscribed | waiting | leaving =>
    rw [SubtitlesWatch.Fine, hphase] at hfine
    obtain ⟨i, hi⟩ := List.mem_iff_getElem?.mp hw
    -- it leaves with what is offered now
    obtain ⟨s', hreach, w', hw', hinfo, hleft⟩ :=
      exists_left isoToName hi (by rw [hphase]; rfl)
    refine ⟨s', hreach, fun hown => hfine ?_⟩
    have howns := hown w' hw' _ hleft
    rw [SubtitlesWatch.Owns, hinfo] at howns
    exact howns

/-- **Whose subtitles.**  In every run that meets the guard each watch leaves `LOAD_SUBTITLES` with
    subtitles of its own video, or with none; the guard says exactly when a step keeps every watch
    fine, and behind a step that breaks it the run may go on to where a watch leaves with the
    subtitles of another video. -/
theorem ownSubtitles_of_guard (isoToName : String → String) :
    (∀ s, (machine isoToName).RunUnder (fun _ => True) SubtitlesGuard s → s.OwnSubtitles) ∧
    (machine isoToName).ExactGuard (fun _ => True) SubtitlesGuard Fresh ∧
    ∀ s e s', (machine isoToName).Reachable s → s.Fresh → (machine isoToName).step s e s' →
      ¬s.SubtitlesGuard e →
      ∃ s'', ((machine isoToName).goingOn s').Reachable s'' ∧ ¬s''.OwnSubtitles :=
  ⟨fun _ hrun => ((subtitlesGuard_exact isoToName).runUnder hrun).ownSubtitles,
    subtitlesGuard_exact isoToName,
    fun _ _ _ _ hfresh hstep hguard =>
      exists_not_ownSubtitles fun hfresh' => hguard ((fresh_iff hfresh hstep).mp hfresh')⟩

/-- A show of one season with two episodes. -/
def twoEpisodes : VideoInfo :=
  .cinemaTvShows "tt1" (some [⟨1, some
    [⟨1, some [("", some [⟨"a"⟩])]⟩, ⟨2, some [("", some [⟨"b"⟩])]⟩]⟩])

/-- The subtitles of the first episode have come when the second is chosen and watched; those of the
    second have not. -/
theorem subtitles_of_other_episode :
    ∃ s, (machine id).Reachable s ∧ ∃ w ∈ s.watches,
      w.watchInfo = ⟨"tt1", Cinema.TYPE_TV_SHOWS, 1, 2⟩ ∧
      w.phase = .left (some (some ⟨"tt1", some (some 1, some 1), some "a"⟩)) := by
  have hrun : (Machine.runEvents (next id) start
      [.videoInfo (some twoEpisodes), .reply "" [("en", [⟨"u", 0⟩])], .terminate, .episode 1, .watch,
        .advance 0, .advance 0]).map watches =
      some [⟨⟨"tt1", Cinema.TYPE_TV_SHOWS, 1, 2⟩,
        .left (some (some ⟨"tt1", some (some 1, some 1), some "a"⟩)), none⟩] := by
    rfl
  obtain ⟨s, hreach, hwatches⟩ := Machine.Reachable.exists_of_runEvents
    (show (machine id).Reachable _ from .start rfl) hrun
  refine ⟨s, hreach, _,
    hwatches ▸ List.mem_cons_self, rfl, rfl⟩

end SubtitlesRun

end PopcornTime.Android
