import PopcornTime.Android.GsonUtils
import PopcornTime.Lib.Machine

namespace PopcornTime.Android

open PopcornTime

/-!
# Android sharing — the prompt behind a video

For each video that is opened `ShareUseCase` asks the server whether and from where on it is to be
shared.  It keeps one answer, that of the request that has come back last, and `share` looks at it
whichever video it is called for.

* `VideoShareData`, `ShareRemoteRepository.deserialize` — what the server returns.
* `ShareUseCase.loadVideoShare`, `ShareUseCase.share` — the request, and what the observer gets.
* `VideoShares` — the use case, the requests under way and the dialogs that call it.
* `VideoShares.sharesRight_iff` — the runs in which the right data are shown and kept.
-/

namespace VideoShare

/-- `double`, with what is done to it: `quotient a b` is `(double) a / (double) b`. -/
structure DoubleOps (R : Type) where
  parseDouble : String → Option R
  quotient : Int64 → Int64 → R

/-- `VideoShareData`, with the fields of `ShareData`. -/
structure VideoShareData (R : Type) where
  type : Option String
  text : Option String
  isShow : Bool
  dialogTitle : Option String
  dialogText1 : Option String
  dialogText2 : Option String
  dialogText3 : Option String
  dialogText4 : Option String
  dialogButton : Option String
  imdb : Option String
  rate : R

def TYPE_VIDEO_SHARE : String := "video_share"

variable {R : Type}

namespace VideoShareData

/-- The default constructor. -/
def new [Zero R] : VideoShareData R where
  type := none
  text := none
  isShow := false
  dialogTitle := none
  dialogText1 := none
  dialogText2 := none
  dialogText3 := none
  dialogText4 := none
  dialogButton := none
  imdb := none
  rate := 0

/-- `VideoShareDataRxMapper` -/
def forImdb (d : VideoShareData R) (imdb : String) : VideoShareData R :=
  { d with type := some TYPE_VIDEO_SHARE, imdb := some imdb }

end VideoShareData

/-! ### The repository -/

/-- Whom `ShareRemoteRepository` asks: without a url nobody. -/
inductive Api
  | empty
  | server
deriving DecidableEq, Repr

/-- A call of `getVideoShare` under way. -/
structure VideoRequest where
  imdb : String
  api : Api
deriving DecidableEq, Repr

namespace ShareRemoteRepository

/-- `VideoShareDataGsonMapper`; a missing `dialogText` is a null that is dereferenced. -/
def deserialize [Zero R] (E : DoubleOps R) : JsonElement → Option (VideoShareData R)
  | .object members =>
    match members.lookup "dialogText" with
    | some (.object dialog) => do
      let rate ← GsonUtils.getAsDouble E.parseDouble members "shareRate"
      return { (VideoShareData.new : VideoShareData R) with
        text := GsonUtils.getAsString members "shareText"
        isShow := GsonUtils.getAsBoolean members "showShare" false
        dialogTitle := GsonUtils.getAsString dialog "title"
        dialogText1 := GsonUtils.getAsString dialog "text1"
        dialogText2 := GsonUtils.getAsString dialog "text2"
        dialogText3 := GsonUtils.getAsString dialog "text3"
        dialogText4 := GsonUtils.getAsString dialog "text4"
        dialogButton := GsonUtils.getAsString dialog "buttonText"
        rate := rate }
    | _ => none
  | _ => none

/-- `setUrl`; Retrofit throws at a url that is not usable. -/
def setUrl (usable : String → Bool) (api : Option Api) : Option String → Option Api
  | none => some .empty
  | some url =>
    if url = "" then some .empty
    else if usable url then some .server
    else api

end ShareRemoteRepository

/-- What a request comes to, in front of the mapper; `none` is a failure, and `answer` what the server
    sends if it is asked. -/
def VideoRequest.result [Zero R] (E : DoubleOps R) (request : VideoRequest)
    (answer : Option JsonElement) : Option (VideoShareData R) :=
  match request.api with
  | .empty => some .new
  | .server => answer.bind (ShareRemoteRepository.deserialize E)

/-! ### The use case -/

/-- The fields of `ShareUseCase` that videos are about; `api` is that of its repository. -/
structure ShareUseCase (R : Type) where
  observer : Option ℕ
  videoShareData : Option (VideoShareData R)
  api : Option Api

namespace ShareUseCase

def new : ShareUseCase R where
  observer := none
  videoShareData := none
  api := none

def subscribe (u : ShareUseCase R) (observer : ℕ) : ShareUseCase R :=
  { u with observer := some observer }

def unsubscribe (u : ShareUseCase R) (observer : ℕ) : ShareUseCase R :=
  if u.observer = some observer then { u with observer := none } else u

def setUrls (usable : String → Bool) (u : ShareUseCase R) (urls : Option (List (Option String))) :
    ShareUseCase R :=
  { u with api := ShareRemoteRepository.setUrl usable u.api ((urls.bind List.head?).join) }

/-- `loadVideoShare`: the request it makes.  In front of the first `setUrls` it throws. -/
def loadVideoShare (u : ShareUseCase R) (imdb : String) : Option VideoRequest :=
  if u.videoShareData.bind VideoShareData.imdb = some imdb then none
  else u.api.map fun api => ⟨imdb, api⟩

/-- `share`: the data that the observer is handed. -/
def share [LE R] [DecidableLE R] (E : DoubleOps R) (u : ShareUseCase R) (_imdb : String)
    (length position : Int64) : Option (VideoShareData R) :=
  match u.videoShareData with
  | none => none
  | some d =>
    -- these may be the data of another video, and a length of zero divides too
    if d.isShow = true ∧ u.observer.isSome = true ∧ d.rate ≤ E.quotient position length then some d
    else none

end ShareUseCase

/-! ### Runs -/

/-- A `share` that `onActivityResult` of a dialog has posted. -/
structure PostedShare where
  dialog : ℕ
  length : Int64
  position : Int64

/-- The use case and who takes part: the requests under way, the video that was requested last, what
    the server has returned for which video, the video of each `WatchDialog` and what is posted. -/
structure VideoShares (R : Type) where
  useCase : ShareUseCase R
  requests : List VideoRequest
  lastRequested : Option String
  returned : List (String × VideoShareData R)
  watchInfo : ℕ → Option String
  posted : List PostedShare

namespace VideoShares

def new : VideoShares R where
  useCase := .new
  requests := []
  lastRequested := none
  returned := []
  watchInfo := fun _ => none
  posted := []

/-- What may happen; requests and posted calls are taken in any order. -/
inductive Event
  | setUrls (urls : Option (List (Option String)))
  | subscribe (observer : ℕ)
  | unsubscribe (observer : ℕ)
  | loadVideoShare (imdb : String)
  | reply (i : ℕ) (answer : Option JsonElement)
  | share (imdb : String) (length position : Int64)
  /-- A dialog gets its `WatchInfo`. -/
  | setWatchInfo (dialog : ℕ) (imdb : String)
  | onCreate (dialog : ℕ)
  | onActivityResult (dialog : ℕ) (requestCode resultCode : Int32) (length position : Option Int64)
      (attached : Bool)
  /-- The call posted by a dialog. -/
  | run (i : ℕ)

/-- `Activity.RESULT_OK` -/
def RESULT_OK : Int32 := -1

def loadVideoShare (s : VideoShares R) (imdb : String) : VideoShares R :=
  { s with
    requests := s.requests ++ (s.useCase.loadVideoShare imdb).toList
    lastRequested := some imdb }

/-- The answer to a request is taken up, whatever has been requested since. -/
def accept (s : VideoShares R) (request : VideoRequest) (d : VideoShareData R) : VideoShares R :=
  { s with
    useCase := { s.useCase with videoShareData := some (d.forImdb request.imdb) }
    returned :=
      if request.api = .server then (request.imdb, d) :: s.returned else s.returned }

/-- `onActivityResult` -/
def onActivityResult (s : VideoShares R) (dialog : ℕ) (requestCode resultCode : Int32)
    (length position : Option Int64) (attached : Bool) : VideoShares R :=
  if resultCode = RESULT_OK ∧ requestCode = 111 ∧ attached = true then
    { s with posted := s.posted ++ [⟨dialog, length.getD 0, position.getD 0⟩] }
  else s

section Next

variable [Zero R]

def reply (E : DoubleOps R) (s : VideoShares R) (i : ℕ) (answer : Option JsonElement) :
    VideoShares R :=
  match s.requests[i]? with
  | none => s
  | some request =>
    let s := { s with requests := s.requests.eraseIdx i }
    match request.result E answer with
    | none => s
    | some d => s.accept request d

/-- One event; `share` leaves everything as it is. -/
def next (E : DoubleOps R) (usable : String → Bool) (s : VideoShares R) : Event → VideoShares R
  | .setUrls urls => { s with useCase := s.useCase.setUrls usable urls }
  | .subscribe observer => { s with useCase := s.useCase.subscribe observer }
  | .unsubscribe observer => { s with useCase := s.useCase.unsubscribe observer }
  | .loadVideoShare imdb => s.loadVideoShare imdb
  | .reply i answer => s.reply E i answer
  | .share _ _ _ => s
  | .setWatchInfo dialog imdb =>
    { s with watchInfo := Function.update s.watchInfo dialog (some imdb) }
  | .onCreate dialog =>
    -- a dialog may come back without its `WatchInfo`
    match s.watchInfo dialog with
    | none => s
    | some imdb => s.loadVideoShare imdb
  | .onActivityResult dialog requestCode resultCode length position attached =>
    s.onActivityResult dialog requestCode resultCode length position attached
  | .run i => { s with posted := s.posted.eraseIdx i }

end Next

/-! ### What is meant -/

section Meant

variable [LE R] [DecidableLE R]

/-- The dialog is shown only with data that the server has returned for this video, and where they
    say so. -/
def ShareRight (E : DoubleOps R) (s : VideoShares R) (imdb : String) (length position : Int64) :
    Prop :=
  ∀ d ∈ s.useCase.share E imdb length position,
    (∃ data, (imdb, data) ∈ s.returned ∧ d = data.forImdb imdb) ∧ d.isShow = true ∧
      0 < length ∧ d.rate ≤ E.quotient position length

/-- The condition of a `share`: data that are to be shown now are those of the video, and the length
    is known. -/
def ShareGuard (E : DoubleOps R) (s : VideoShares R) (imdb : String) (length position : Int64) :
    Prop :=
  ∀ d ∈ s.useCase.videoShareData, d.isShow = true → s.useCase.observer.isSome = true →
    d.rate ≤ E.quotient position length → d.imdb = some imdb ∧ 0 < length

variable [Zero R]

/-- The reply to a request for another video than the last one leaves the data of the last one. -/
def ReplyRight (E : DoubleOps R) (s : VideoShares R) (i : ℕ) (answer : Option JsonElement) : Prop :=
  ∀ request ∈ s.requests[i]?, some request.imdb ≠ s.lastRequested →
    ∀ d ∈ s.useCase.videoShareData, d.imdb = s.lastRequested →
      (s.reply E i answer).useCase.videoShareData = some d

/-- The condition of a reply: behind the data of the last video, those to other requests are
    failures. -/
def ReplyGuard (E : DoubleOps R) (s : VideoShares R) (i : ℕ) (answer : Option JsonElement) : Prop :=
  ∀ request ∈ s.requests[i]?, some request.imdb ≠ s.lastRequested →
    ∀ d ∈ s.useCase.videoShareData, d.imdb = s.lastRequested → request.result E answer = none

/-- What is meant of an event. -/
def Right (E : DoubleOps R) (s : VideoShares R) : Event → Prop
  | .share imdb length position => s.ShareRight E imdb length position
  | .run i => ∀ call ∈ s.posted[i]?, ∀ imdb ∈ s.watchInfo call.dialog,
      s.ShareRight E imdb call.length call.position
  | .reply i answer => s.ReplyRight E i answer
  | _ => True

/-- The condition of an event. -/
def Guard (E : DoubleOps R) (s : VideoShares R) : Event → Prop
  | .share imdb length position => s.ShareGuard E imdb length position
  | .run i => ∀ call ∈ s.posted[i]?, ∀ imdb ∈ s.watchInfo call.dialog,
      s.ShareGuard E imdb call.length call.position
  | .reply i answer => s.ReplyGuard E i answer
  | _ => True

end Meant

/-- The data are what the server has returned for their video, or are not to be shown. -/
def Inv (s : VideoShares R) : Prop :=
  ∀ d ∈ s.useCase.videoShareData, ∃ imdb, d.imdb = some imdb ∧
    (d.isShow = false ∨ ∃ data, (imdb, data) ∈ s.returned ∧ d = data.forImdb imdb)

variable {E : DoubleOps R} {usable : String → Bool} {s s' : VideoShares R} {imdb : String}
  {length position : Int64} {i : ℕ} {answer : Option JsonElement}

/-- Where the data stay. -/
theorem Inv.of_same (h : s.Inv) (hdata : s'.useCase.videoShareData = s.useCase.videoShareData)
    (hreturned : s'.returned = s.returned) : s'.Inv := by
  unfold Inv
  rw [hdata, hreturned]
  exact h

section Steps

variable [Zero R]

/-- Data without a server are not to be shown. -/
theorem inv_accept {request : VideoRequest} {d : VideoShareData R}
    (hd : request.result E answer = some d) : (s.accept request d).Inv := by
  rintro _ ⟨⟩
  refine ⟨request.imdb, rfl, ?_⟩
  cases hapi : request.api with
  | empty =>
    -- nobody has been asked, and the default is not to show anything
    rw [VideoRequest.result, hapi, Option.some.injEq] at hd
    exact .inl (hd ▸ rfl)
  | server => exact .inr ⟨d, by simp [accept, hapi], rfl⟩

theorem Inv.reply (h : s.Inv) : (s.reply E i answer).Inv := by
  unfold VideoShares.reply
  cases hrequest : s.requests[i]? with
  | none => exact h
  | some request =>
    dsimp only
    cases hresult : request.result E answer with
    | none => exact h
    | some d => exact inv_accept hresult

theorem Inv.next (h : s.Inv) (e : Event) : (s.next E usable e).Inv := by
  cases e with
  | reply i answer => exact h.reply
  | unsubscribe observer =>
    refine h.of_same ?_ rfl
    show (s.useCase.unsubscribe observer).videoShareData = _
    unfold ShareUseCase.unsubscribe
    split_ifs <;> rfl
  | onCreate dialog =>
    unfold VideoShares.next
    dsimp only
    split
    · exact h
    · exact h.of_same rfl rfl
  | onActivityResult =>
    unfold VideoShares.next onActivityResult
    dsimp only
    split_ifs
    · exact h.of_same rfl rfl
    · exact h
  | setUrls | subscribe | loadVideoShare | share | setWatchInfo | run => exact h.of_same rfl rfl

/-- The data that a reply brings are those of its own video. -/
theorem replyRight_iff : s.ReplyRight E i answer ↔ s.ReplyGuard E i answer := by
  refine forall₃_congr fun request hrequest hother => forall₃_congr fun d hd hlast => ?_
  unfold VideoShares.reply
  rw [Option.mem_def.mp hrequest]
  dsimp only
  cases hresult : request.result E answer with
  | none => exact iff_of_true hd rfl
  | some d' =>
    -- if these were the data kept, the video of the request would be the last one
    refine iff_of_false ?_ (Option.some_ne_none d')
    intro hkept
    refine hother ?_
    rw [← hlast, ← Option.some.inj hkept]
    rfl

end Steps

theorem inv_new : (new : VideoShares R).Inv := by
  rintro _ ⟨⟩

section Meant

variable [LE R] [DecidableLE R]

theorem mem_share_iff {u : ShareUseCase R} {d : VideoShareData R} :
    d ∈ u.share E imdb length position ↔ d ∈ u.videoShareData ∧ d.isShow = true ∧
      u.observer.isSome = true ∧ d.rate ≤ E.quotient position length := by
  unfold ShareUseCase.share
  cases u.videoShareData with
  | none => simp
  | some d' =>
    dsimp only
    rw [Option.mem_def, Option.ite_none_right_eq_some, Option.mem_def]
    constructor
    · rintro ⟨hdue, ⟨⟩⟩
      exact ⟨rfl, hdue⟩
    · rintro ⟨⟨⟩, hdue⟩
      exact ⟨hdue, rfl⟩

/-- A `share` looks at nothing but the data there are. -/
theorem shareRight_iff (h : s.Inv) :
    s.ShareRight E imdb length position ↔ s.ShareGuard E imdb length position := by
  constructor
  · intro hright d hd hshow hobserver hrate
    obtain ⟨⟨data, -, rfl⟩, -, hlength, -⟩ :=
      hright d (mem_share_iff.mpr ⟨hd, hshow, hobserver, hrate⟩)
    exact ⟨rfl, hlength⟩
  · intro hguard d hd
    obtain ⟨hdata, hshow, hobserver, hrate⟩ := mem_share_iff.mp hd
    obtain ⟨himdb, hlength⟩ := hguard d hdata hshow hobserver hrate
    obtain ⟨imdb', himdb', hfrom⟩ := h d hdata
    obtain rfl : imdb = imdb' := Option.some.inj (himdb.symm.trans himdb')
    -- data that nobody has returned are not shown
    refine ⟨hfrom.resolve_left ?_, hshow, hlength, hrate⟩
    rw [hshow]
    exact Bool.noConfusion

variable [Zero R]

theorem right_iff (h : s.Inv) {e : Event} : s.Right E e ↔ s.Guard E e := by
  cases e with
  | share imdb length position => exact shareRight_iff h
  | run i => exact forall₄_congr fun call _ imdb _ => shareRight_iff h
  | reply i answer => exact replyRight_iff
  | setUrls | subscribe | unsubscribe | loadVideoShare | setWatchInfo | onCreate
  | onActivityResult => exact Iff.rfl

/-- **The prompt.**  In a run only the data that the server has returned for the very video are
    shown, where they say so, and those of the last video requested are kept, exactly if every event
    meets the guard. -/
theorem sharesRight_iff (E : DoubleOps R) (usable : String → Bool) (events : List Event) :
    EachCall (next E usable) (Right E) new events ↔ EachCall (next E usable) (Guard E) new events :=
  eachCall_iff (I := Inv) (fun _ _ h => right_iff h) (fun _ e h _ => h.next e) inv_new events

end Meant

/-! ### The data of another video -/

/-- Doubles read as exact numbers. -/
def rationals : DoubleOps ℚ where
  parseDouble text := (JsonElement.decimal? text).map fun n => n
  quotient a b := a.toInt / b.toInt

/-- The server says that the video is to be shared, from its start on. -/
def toShow : Option JsonElement :=
  some (.object [("showShare", .bool true), ("dialogText", .object [])])

/-- The first video has been answered and the second one has not. -/
def unanswered : List Event :=
  [.setUrls (some [some "http://share/"]), .subscribe 0, .loadVideoShare "tt1", .reply 0 toShow,
    .loadVideoShare "tt2"]

/-- The second video has been answered and the first one has not. -/
def overtaken : List Event :=
  [.setUrls (some [some "http://share/"]), .subscribe 0, .loadVideoShare "tt1",
    .loadVideoShare "tt2", .reply 1 toShow]

/-- Behind the second video the data of the first one are shown, and a late reply puts them in the
    place of its own. -/
theorem data_of_other_video :
    ¬EachCall (next rationals fun _ => true) (Right rationals) new
        (unanswered ++ [.share "tt2" 100 90]) ∧
      ¬EachCall (next rationals fun _ => true) (Right rationals) new
        (overtaken ++ [.reply 0 toShow]) := by
  constructor
  · intro h
    obtain ⟨hshare, -⟩ := h.of_append
    have hrate : (0 : ℚ) ≤ rationals.quotient 90 100 := by decide +kernel
    obtain ⟨⟨data, -, hdata⟩, -⟩ := hshare _ (mem_share_iff.mpr ⟨rfl, rfl, rfl, hrate⟩)
    have himdb : some "tt1" = some "tt2" := congrArg VideoShareData.imdb hdata
    exact absurd himdb (by decide)
  · intro h
    obtain ⟨hreply, -⟩ := h.of_append
    have hfails := replyRight_iff.mp hreply _ rfl (by decide) _ rfl rfl
    cases hfails

end VideoShares

end VideoShare

end PopcornTime.Android
