import PopcornTime.Desktop.CastSession

namespace PopcornTime.Desktop

open PopcornTime

/-!
# Desktop casting — a media with its subtitles

The processors load a media when they know what becomes of its subtitles, `/load` and `/subtitles`
of the googlecast processor and `parseSubTitles` of the dlna processor.  All of it runs in callbacks,
where nothing catches what is thrown.  The googlecast processor goes on as the receiver answers; its
requests come alone here, and those that meet others are in `CastSession`.

* `Cast` — the loads a callback makes, and whether it throws.
* `CastAnswer` — what comes of something that the receiver is asked for.
* `SubtitlesRequest.run` — the three processors.
* `loadsOnce_iff` — when there is one load, with the subtitles there are.
-/

/-- The media and the options of a `MediaController`.  The url of a track is told by the file it asks
    for. -/
structure CastMedia where
  tracks : List (List Char)
  activeTrackIds : List ℕ
deriving DecidableEq, Repr

/-- The track that is shown. -/
def CastMedia.subtitles (m : CastMedia) : Option (List Char) :=
  if 1 ∈ m.activeTrackIds then m.tracks.head? else none

/-- What the callbacks of a request do: the subtitles of every load they make, and whether one of
    them throws. -/
structure Cast where
  loads : List (Option (List Char))
  uncaught : Bool
deriving DecidableEq, Repr

namespace Cast

def nothing : Cast := ⟨[], false⟩

/-- A `TypeError`, or what `node-captions` throws. -/
def throws : Cast := ⟨[], true⟩

/-- What follows is not reached behind a throw. -/
def andThen (first second : Cast) : Cast :=
  if first.uncaught then first else ⟨first.loads ++ second.loads, second.uncaught⟩

theorem throws_andThen (second : Cast) : throws.andThen second = throws := if_pos rfl

theorem nothing_andThen (second : Cast) : nothing.andThen second = second :=
  if_neg Bool.false_ne_true

/-- The answer to a load comes later, and its callback may throw. -/
def answered (cast : Cast) (throws : Bool) : Cast :=
  if cast.loads = [] ∨ cast.uncaught then cast else { cast with uncaught := throws }

end Cast

/-- What comes of something that the receiver is asked for. -/
inductive CastAnswer (α : Type)
  | never
  /-- The callback is called with an error. -/
  | error
  /-- `castv2-client` throws where it reads the answer, which has no status or no application. -/
  | unreadable
  | value (a : α)
deriving DecidableEq, Repr

/-- What comes of a connection; `fails` is an error that nobody listens to. -/
inductive ConnectAnswer
  | never
  | fails
  | connected
deriving DecidableEq, Repr

/-- The answers to a `/load`. -/
structure LoadAnswers where
  connect : ConnectAnswer
  launch : CastAnswer Unit
  load : CastAnswer Unit
deriving DecidableEq, Repr

/-- The answers to a `/subtitles`.  `status` is the first of the list that `getStatus` is told, if the
    list has one; the last load is followed by a `seek`. -/
structure SubtitlesAnswers where
  status : CastAnswer (Option Unit)
  load : CastAnswer Unit
  seek : CastAnswer Unit
deriving DecidableEq, Repr

/-- The media that `load` of `/load` makes. -/
def loadedMedia (subtitlesFileResult : Option (List Char)) : CastMedia :=
  match subtitlesFileResult with
  | some result => ⟨[result], [1]⟩
  | none => ⟨[], []⟩

/-- The media that `load` of `/subtitles` makes of the last one. -/
def reloadedMedia (media : CastMedia) (subtitlesFileResult : Option (List Char)) : CastMedia :=
  match subtitlesFileResult with
  | some result =>
    match media.tracks with
    | [] => ⟨[result], [1]⟩
    | _ :: tracks => ⟨result :: tracks, [1]⟩
  | none => ⟨[], []⟩

/-- `load` of `/load` -/
def load (subtitlesFileResult : Option (List Char)) : Cast :=
  ⟨[(loadedMedia subtitlesFileResult).subtitles], false⟩

/-- `load` of `/subtitles`.  Before the first load the controller has no options, and a status that is
    undefined has no `currentTime`. -/
def reload (media : Option CastMedia) (status : Option Unit)
    (subtitlesFileResult : Option (List Char)) : Cast :=
  match media, status with
  | some media, some _ => ⟨[(reloadedMedia media subtitlesFileResult).subtitles], false⟩
  | _, _ => .throws

/-- `convertFile` of the converter that has been found, with the listeners of its events; there is
    nothing to call it on where none was found. -/
def convertWith (c : Captions) (ext subtitlesFile : List Char) (onError : Cast)
    (onReady : List Char → Cast) : Cast :=
  if getConvertor ext then
    match (convertFile c subtitlesFile).converted with
    | .error => onError
    | .ready result => onReady result
    | .uncaught => .throws
  else .throws

/-- The callback of `launch`, from the subtitles on. -/
def loadSubtitles (c : Captions) (subtitles : Option (List Char)) : Cast :=
  let subtitlesFile := subtitles.getD []
  if subtitlesFile ≠ [] then
    let ext := subtitleExt subtitlesFile
    if ext = dotVtt then load (some subtitlesFile)
    else convertWith c ext subtitlesFile (load none) fun result => load (some result)
  else load none

/-- The callback of `load` in `/load` throws: it reads `muted` if there is a `volume`. -/
def loadCallbackThrows (query : LoadQuery) : CastAnswer Unit → Bool
  | .never => false
  | .unreadable => true
  | .error | .value _ => query.volume && !query.muted

/-- `/load`.  What `connect` throws without an address is caught; behind an error of `launch` the
    client is closed. -/
def processLoad (c : Captions) (query : LoadQuery) (answers : LoadAnswers) : Cast :=
  if query.deviceIP = none then .nothing
  else
    match answers.connect with
    | .never => .nothing
    | .fails => .throws
    | .connected =>
      match answers.launch with
      | .never | .error => .nothing
      | .unreadable => .throws
      | .value _ =>
        -- `torrentFile` is read without a check
        if query.torrentFile = none then .throws
        else (loadSubtitles c query.subtitles).answered (loadCallbackThrows query answers.load)

/-- The callback of `getStatus` in `/subtitles`, with a status. -/
def reloadSubtitles (c : Captions) (media : Option CastMedia) (status : Option Unit)
    (subtitles : Option (List Char)) : Cast :=
  let subtitlesFile := subtitles.getD []
  if subtitlesFile ≠ [] then
    let ext := subtitleExt subtitlesFile
    -- a ready file is loaded, and the search for a converter goes on all the same
    let first := if ext = dotVtt then reload media status (some subtitlesFile) else .nothing
    first.andThen
      (convertWith c ext subtitlesFile .nothing fun result => reload media status (some result))
  else reload media status none

/-- The callback of `load` in `/subtitles` throws, or that of the `seek` it makes. -/
def reloadCallbackThrows (answers : SubtitlesAnswers) : Bool :=
  match answers.load with
  | .never | .error => false
  | .unreadable => true
  | .value _ => decide (answers.seek = .unreadable)

/-- `/subtitles`; `player` is the media of the session's player, if there is a session. -/
def processSubtitles (c : Captions) (player : Option (Option CastMedia))
    (subtitles : Option (List Char)) (answers : SubtitlesAnswers) : Cast :=
  match player with
  | none => .nothing
  | some media =>
    match answers.status with
    | .never | .error => .nothing
    | .unreadable => .throws
    | .value status =>
      (reloadSubtitles c media status subtitles).answered (reloadCallbackThrows answers)

/-- `parseSubTitles` of the dlna processor, with the `load` of its callback. -/
def parseSubTitles (c : Captions) (subtitles : Option (List Char)) : Cast :=
  let cb := fun subfile : Option (List Char) => (⟨[subfile], false⟩ : Cast)
  let subtitlesFile := subtitles.getD []
  if subtitlesFile ≠ [] then
    let ext := subtitleExt subtitlesFile
    if ext = dotVtt then cb (some subtitlesFile)
    else convertWith c ext subtitlesFile (cb none) fun result => cb (some result)
  else cb none

/-! ### One load -/

/-- A request for a media, with what is there and what is answered. -/
inductive SubtitlesRequest
  | load (query : LoadQuery) (answers : LoadAnswers)
  | subtitles (player : Option (Option CastMedia)) (subtitles : Option (List Char))
      (answers : SubtitlesAnswers)
  | dlna (subtitles : Option (List Char))

namespace SubtitlesRequest

def run (c : Captions) : SubtitlesRequest → Cast
  | .load query answers => processLoad c query answers
  | .subtitles player file answers => processSubtitles c player file answers
  | .dlna file => parseSubTitles c file

/-- The file that is asked for; an empty one is none. -/
def subtitlesFile : SubtitlesRequest → List Char
  | .load query _ => query.subtitles.getD []
  | .subtitles _ file _ | .dlna file => file.getD []

end SubtitlesRequest

/-- The track that can be used: the file itself, or what it is converted to. -/
def usableTrack (c : Captions) (subtitlesFile : List Char) : Option (List Char) :=
  if subtitlesFile = [] then none
  else if subtitleExt subtitlesFile = dotVtt then some subtitlesFile
  else if getConvertor (subtitleExt subtitlesFile) then
    match (convertFile c subtitlesFile).converted with
    | .ready result => some result
    | _ => none
  else none

/-- **One load**, with the subtitles there are, and nothing is thrown. -/
def LoadsOnce (c : Captions) (r : SubtitlesRequest) : Prop :=
  r.run c = ⟨[usableTrack c r.subtitlesFile], false⟩

/-- No subtitles, `.vtt`, or a file with a converter that does not throw. -/
def ConverterGuard (c : Captions) (subtitlesFile : List Char) : Prop :=
  subtitlesFile = [] ∨ subtitleExt subtitlesFile = dotVtt ∨
    (getConvertor (subtitleExt subtitlesFile) = true ∧
      (convertFile c subtitlesFile).converted ≠ .uncaught)

/-- `/load` and `parseSubTitles` need a file that a converter does not throw for, `/subtitles` none or
    one that can be converted.  The receiver has to answer: to the launch with a player, to
    `getStatus` with a status, and to the load, if at all, with something that can be read.
    `/subtitles` needs a session with a media, `/load` a device, a media, and a `muted` if there is a
    `volume`. -/
def LoadGuard (c : Captions) : SubtitlesRequest → Prop
  | .load query answers =>
    (query.deviceIP ≠ none ∧ answers.connect = .connected ∧ answers.launch = .value () ∧
      query.torrentFile ≠ none) ∧ ConverterGuard c (query.subtitles.getD []) ∧
      answers.load ≠ .unreadable ∧ (answers.load = .never ∨ query.volume = false ∨ query.muted = true)
  | .subtitles player subtitles answers =>
    ((∃ media, player = some (some media)) ∧ answers.status = .value (some ())) ∧
      (subtitles.getD [] = [] ∨ (getConvertor (subtitleExt (subtitles.getD [])) = true ∧
        ∃ vtt, (convertFile c (subtitles.getD [])).converted = .ready vtt)) ∧
      answers.load ≠ .unreadable ∧ (answers.load = .value () → answers.seek ≠ .unreadable)
  | .dlna subtitles => ConverterGuard c (subtitles.getD [])

@[simp] theorem subtitles_loadedMedia (result : Option (List Char)) :
    (loadedMedia result).subtitles = result := by
  cases result <;> rfl

@[simp] theorem subtitles_reloadedMedia (media : CastMedia) (result : Option (List Char)) :
    (reloadedMedia media result).subtitles = result := by
  unfold reloadedMedia
  cases result with
  | none => rfl
  | some result => cases media.tracks <;> rfl

theorem load_eq (result : Option (List Char)) : load result = ⟨[result], false⟩ := by
  rw [load, subtitles_loadedMedia]

theorem reload_some (media : CastMedia) (result : Option (List Char)) :
    reload (some media) (some ()) result = ⟨[result], false⟩ := by
  rw [reload, subtitles_reloadedMedia]

/-- Without a media or a status nothing can be loaded again. -/
theorem reload_throws {media : Option CastMedia} {status : Option Unit}
    (h : media = none ∨ status = none) (result : Option (List Char)) :
    reload media status result = .throws := by
  unfold reload
  cases media with
  | none => rfl
  | some media =>
    cases status with
    | none => rfl
    | some status => exact absurd h (by simp)

/-- `/load` loads what `parseSubTitles` hands to its callback. -/
theorem loadSubtitles_eq (c : Captions) (subtitles : Option (List Char)) :
    loadSubtitles c subtitles = parseSubTitles c subtitles := by
  unfold loadSubtitles parseSubTitles
  simp only [load_eq]

/-- A load stays the only one exactly if the callback of its answer does not throw. -/
theorem Cast.answered_eq_iff {cast : Cast} {throws : Bool} {track : Option (List Char)} :
    cast.answered throws = ⟨[track], false⟩ ↔ cast = ⟨[track], false⟩ ∧ throws = false := by
  obtain ⟨loads, uncaught⟩ := cast
  unfold Cast.answered
  cases loads with
  | nil => simp
  | cons head tail =>
    cases uncaught with
    | true => simp
    | false => simp

theorem loadCallbackThrows_eq_false {query : LoadQuery} {answer : CastAnswer Unit} :
    loadCallbackThrows query answer = false ↔ answer ≠ .unreadable ∧
      (answer = .never ∨ query.volume = false ∨ query.muted = true) := by
  cases answer <;> simp [loadCallbackThrows]
  <;> cases query.volume <;> simp

theorem reloadCallbackThrows_eq_false {answers : SubtitlesAnswers} :
    reloadCallbackThrows answers = false ↔ answers.load ≠ .unreadable ∧
      (answers.load = .value () → answers.seek ≠ .unreadable) := by
  unfold reloadCallbackThrows
  cases answers.load <;> simp

/-- There is no converter for `.vtt`. -/
theorem getConvertor_dotVtt : getConvertor dotVtt = false := by
  decide

section LoadsOnce

variable {c : Captions} {subtitlesFile : List Char} {subtitles : Option (List Char)}

theorem usableTrack_of_convertor (hne : subtitlesFile ≠ [])
    (hfound : getConvertor (subtitleExt subtitlesFile) = true) :
    usableTrack c subtitlesFile =
      match (convertFile c subtitlesFile).converted with
      | .ready result => some result
      | _ => none := by
  have hext : subtitleExt subtitlesFile ≠ dotVtt := by
    intro hext
    rw [hext, getConvertor_dotVtt] at hfound
    exact absurd hfound nofun
  unfold usableTrack
  rw [if_neg hne, if_neg hext, if_pos hfound]

/-- Where a load follows every event of the converter, all is well unless it throws. -/
theorem parseSubTitles_iff :
    parseSubTitles c subtitles = ⟨[usableTrack c (subtitles.getD [])], false⟩ ↔
      ConverterGuard c (subtitles.getD []) := by
  unfold parseSubTitles ConverterGuard
  generalize subtitles.getD [] = subtitlesFile
  dsimp only
  by_cases hempty : subtitlesFile = []
  · rw [if_neg (not_not.mpr hempty)]
    refine iff_of_true ?_ (Or.inl hempty)
    rw [usableTrack, if_pos hempty]
  · rw [if_pos hempty, or_iff_right hempty]
    by_cases hext : subtitleExt subtitlesFile = dotVtt
    · rw [if_pos hext]
      refine iff_of_true ?_ (Or.inl hext)
      rw [usableTrack, if_neg hempty, if_pos hext]
    · rw [if_neg hext, or_iff_right hext]
      unfold convertWith
      cases hfound : getConvertor (subtitleExt subtitlesFile) with
      | false => simp [Cast.throws]
      | true =>
        rw [usableTrack_of_convertor hempty hfound]
        cases (convertFile c subtitlesFile).converted <;> simp [Cast.throws]

/-- Without a converter `/subtitles` throws, behind a load or not. -/
theorem uncaught_reloadSubtitles (media : Option CastMedia) (status : Option Unit)
    (hne : subtitles.getD [] ≠ []) (hfound : getConvertor (subtitleExt (subtitles.getD [])) = false) :
    (reloadSubtitles c media status subtitles).uncaught = true := by
  have hthrows : ∀ first : Cast, (first.andThen .throws).uncaught = true := by
    intro first
    unfold Cast.andThen
    split_ifs with hfirst
    · exact hfirst
    · rfl
  unfold reloadSubtitles convertWith
  dsimp only
  rw [if_pos hne, hfound, if_neg Bool.false_ne_true]
  exact hthrows _

/-- `/subtitles` loads once only where a converter succeeds, or without subtitles. -/
theorem reloadSubtitles_iff (media : CastMedia) :
    reloadSubtitles c (some media) (some ()) subtitles =
        ⟨[usableTrack c (subtitles.getD [])], false⟩ ↔
      subtitles.getD [] = [] ∨ (getConvertor (subtitleExt (subtitles.getD [])) = true ∧
        ∃ vtt, (convertFile c (subtitles.getD [])).converted = .ready vtt) := by
  by_cases hempty : subtitles.getD [] = []
  · unfold reloadSubtitles
    dsimp only
    rw [if_neg (not_not.mpr hempty), usableTrack, if_pos hempty]
    simp [reload_some, hempty]
  · rw [or_iff_right hempty]
    cases hfound : getConvertor (subtitleExt (subtitles.getD [])) with
    | false =>
      refine iff_of_false (fun h => ?_) (by simp)
      -- no converter for the extension: the source calls it all the same
      have huncaught := uncaught_reloadSubtitles (c := c) (some media) (some ()) hempty hfound
      rw [h] at huncaught
      exact absurd huncaught nofun
    | true =>
      have hext : subtitleExt (subtitles.getD []) ≠ dotVtt := by
        intro hext
        rw [hext, getConvertor_dotVtt] at hfound
        exact absurd hfound nofun
      unfold reloadSubtitles convertWith
      dsimp only
      rw [if_pos hempty, if_neg hext, usableTrack_of_convertor hempty hfound, hfound]
      cases (convertFile c (subtitles.getD [])).converted with
      | error => simp [Cast.andThen, Cast.nothing]
      | uncaught => simp [Cast.andThen, Cast.nothing, Cast.throws]
      | ready vtt => simp [Cast.andThen, Cast.nothing, reload_some]

/-- Without a media or a status no load is made, whatever comes of the subtitles. -/
theorem loads_reloadSubtitles (c : Captions) (subtitles : Option (List Char))
    {media : Option CastMedia} {status : Option Unit} (h : media = none ∨ status = none) :
    (reloadSubtitles c media status subtitles).loads = [] := by
  have hconvert : (convertWith c (subtitleExt (subtitles.getD [])) (subtitles.getD []) .nothing
      fun result => reload media status (some result)).loads = [] := by
    unfold convertWith
    simp only [reload_throws h]
    split_ifs
    · cases (convertFile c (subtitles.getD [])).converted <;> rfl
    · rfl
  unfold reloadSubtitles
  dsimp only
  rw [reload_throws h, reload_throws h]
  split_ifs
  · rw [Cast.throws_andThen]
    rfl
  · rw [Cast.nothing_andThen]
    exact hconvert
  · rfl

theorem processLoad_iff (query : LoadQuery) (answers : LoadAnswers) :
    processLoad c query answers = ⟨[usableTrack c (query.subtitles.getD [])], false⟩ ↔
      LoadGuard c (.load query answers) := by
  -- the receiver is there and has launched: what remains are the converter and the callback
  have hload : (loadSubtitles c query.subtitles).answered (loadCallbackThrows query answers.load) =
      ⟨[usableTrack c (query.subtitles.getD [])], false⟩ ↔
        ConverterGuard c (query.subtitles.getD []) ∧ answers.load ≠ .unreadable ∧
          (answers.load = .never ∨ query.volume = false ∨ query.muted = true) := by
    rw [Cast.answered_eq_iff, loadSubtitles_eq, parseSubTitles_iff, loadCallbackThrows_eq_false]
  obtain ⟨connect, launch, answer⟩ := answers
  unfold processLoad LoadGuard
  by_cases hdevice : query.deviceIP = none
  · rw [if_pos hdevice]
    exact iff_of_false (by simp [Cast.nothing]) fun h => h.1.1 hdevice
  · rw [if_neg hdevice]
    cases connect with
    | never => simp [Cast.nothing]
    | fails => simp [Cast.throws]
    | connected =>
      cases launch with
      | never => simp [Cast.nothing]
      | error => simp [Cast.nothing]
      | unreadable => simp [Cast.throws]
      | value _ =>
        dsimp only
        by_cases htorrent : query.torrentFile = none
        · rw [if_pos htorrent]
          exact iff_of_false (by simp [Cast.throws]) fun h => h.1.2.2.2 htorrent
        · rw [if_neg htorrent, hload]
          exact (and_iff_right ⟨hdevice, rfl, rfl, htorrent⟩).symm

theorem processSubtitles_iff (player : Option (Option CastMedia)) (answers : SubtitlesAnswers) :
    processSubtitles c player subtitles answers = ⟨[usableTrack c (subtitles.getD [])], false⟩ ↔
      LoadGuard c (.subtitles player subtitles answers) := by
  -- without a session or a status nothing is loaded, whatever the answers
  have hnone : ∀ {media status}, media = none ∨ status = none →
      (reloadSubtitles c media status subtitles).answered (reloadCallbackThrows answers) ≠
        ⟨[usableTrack c (subtitles.getD [])], false⟩ := by
    intro media status h heq
    have hloads := loads_reloadSubtitles c subtitles h
    rw [(Cast.answered_eq_iff.mp heq).1] at hloads
    cases hloads
  obtain ⟨status, answer, seek⟩ := answers
  unfold processSubtitles LoadGuard
  cases player with
  | none => simp [Cast.nothing]
  | some media =>
    cases status with
    | never => simp [Cast.nothing]
    | error => simp [Cast.nothing]
    | unreadable => simp [Cast.throws]
    | value status =>
      cases media with
      | none => exact iff_of_false (hnone (.inl rfl)) fun h => by simp at h
      | some media =>
        cases status with
        | none => exact iff_of_false (hnone (.inr rfl)) fun h => by simp at h
        | some status =>
          dsimp only
          rw [Cast.answered_eq_iff, reloadSubtitles_iff, reloadCallbackThrows_eq_false]
          exact (and_iff_right ⟨⟨media, rfl⟩, rfl⟩).symm

/-- **When a media is loaded once**, with the subtitles there are. -/
theorem loadsOnce_iff (c : Captions) (r : SubtitlesRequest) : LoadsOnce c r ↔ LoadGuard c r := by
  unfold LoadsOnce
  cases r with
  | load query answers => exact processLoad_iff query answers
  | subtitles player subtitles answers => exact processSubtitles_iff player answers
  | dlna subtitles => exact parseSubTitles_iff

/-- A format without a converter throws, and the media is never loaded, though the receiver answers
    all it is asked. -/
theorem not_loadsOnce_ass :
    ¬LoadsOnce anyFiles (.load
        ⟨some "10.0.0.2".toList, some "http://10.0.0.1/m".toList, some "a.ass".toList, false, false⟩
        ⟨.connected, .value (), .value ()⟩) ∧
      SubtitlesRequest.run anyFiles (.load
        ⟨some "10.0.0.2".toList, some "http://10.0.0.1/m".toList, some "a.ass".toList, false, false⟩
        ⟨.connected, .value (), .value ()⟩) = ⟨[], true⟩ := by
  have hrun : SubtitlesRequest.run anyFiles (.load
      ⟨some "10.0.0.2".toList, some "http://10.0.0.1/m".toList, some "a.ass".toList, false, false⟩
      ⟨.connected, .value (), .value ()⟩) = ⟨[], true⟩ := by
    decide
  refine ⟨fun h => ?_, hrun⟩
  rw [LoadsOnce, hrun] at h
  exact absurd h nofun

end LoadsOnce

end PopcornTime.Desktop
