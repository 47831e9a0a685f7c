import Mathlib.Data.Int.Notation
import Mathlib.Tactic.SplitIfs
import PopcornTime.Lib.Machine

namespace PopcornTime.Desktop

open PopcornTime

/-!
# Desktop — the cast state machine

`ChromeCast` follows two kinds of tokens of the cast process: `DSTAT` switches `isCasting`, `MSTAT`
sets the player's state.  Each of the two is believed without a look at the other.

* `handleCastingSwitch`, `parseMStat`, `stop`, `onListItemClicked` — the slots.
* `returnsToIdle` — how often a list of states comes back to `Idle`.
* `castRight_of_guard` — when a player that is not casting is `Idle`.
-/

/-- `ChromeCast::State` -/
inductive CastState
  | idle
  | opening
  | buffering
  | playing
  | paused
deriving DecidableEq, Repr

/-- `CAST_DEVICETYPE` -/
inductive CastDeviceType
  | invalid
  | chromecast
  | airplay
  | dlna
deriving DecidableEq, Repr

/-- `CAST_DEVICETYPE_USER_STRING` -/
def CastDeviceType.userString : CastDeviceType → String
  | .invalid => ""
  | .chromecast => "Google Cast"
  | .airplay => "AirPlay"
  | .dlna => "DLNA"

/-- The image that `parseMStat` shows for a device. -/
def CastDeviceType.image : CastDeviceType → String
  | .invalid => ""
  | .chromecast => ":/chromecast_icon"
  | .airplay => ":/airplay_icon"
  | .dlna => ":/dlna_icon"

/-- `CastDevice`; a null `ip` is `none`. -/
structure CastDevice where
  type : CastDeviceType
  name : String
  ip : Option String
  url : String
deriving DecidableEq, Repr

namespace CastDevice

/-- The default constructor. -/
def empty : CastDevice where
  type := .invalid
  name := ""
  ip := none
  url := ""

def isValid (d : CastDevice) : Bool :=
  decide (d.type ≠ .invalid) && !d.name.isEmpty && d.ip.isSome && !d.url.isEmpty

/-- `operator==` -/
def same (d src : CastDevice) : Bool :=
  decide (src.type = d.type) && decide (src.name = d.name) && decide (src.ip = d.ip)

end CastDevice

/-- The commands a cast device is sent, with times in milliseconds. -/
inductive CastCommand
  | stop
  | pause
  | play
  | seek (time : ℤ)
  | mute (muted : Bool)
  | volume (volume : ℤ)
  | subtitles (file : String)
  | fontSize (fontSize : ℤ)
  | mediaState
deriving DecidableEq, Repr

/-- The requests to the cast process. -/
inductive CastRequest
  | load (serverUrl : String) (device : CastDevice) (mediaFile : String) (fontSize : ℤ)
  | command (serverUrl : String) (device : CastDevice) (command : CastCommand)
deriving DecidableEq, Repr

/-- The signals of `ChromeCast`. -/
inductive CastSignal
  | lengthChanged (time : ℤ)
  | timeChanged (time : ℤ)
  | stopped
  | opening
  | playing
  | paused
  | deviceSelected
  | stateText (text : String)
  | stateImage (resource : String)
  | castingSwitched (casting : Bool)
  | stateChanged
deriving DecidableEq, Repr

/-- The object of an `MSTAT` token, with its times in milliseconds; a value that is missing is
    `none`. -/
structure MediaStatus where
  playerState : Option String
  duration : Option ℤ
  currentTime : Option ℤ
deriving DecidableEq, Repr

/-- The media status sets a state. -/
def MediaStatus.Active (data : MediaStatus) : Prop :=
  data.playerState = some "BUFFERING" ∨ data.playerState = some "PLAYING" ∨
    data.playerState = some "PAUSED"

/-- What a call of `stop` goes on with. -/
inductive StopCaller
  | user
  | err
  | listItem (text : String)
deriving DecidableEq, Repr

structure ChromeCast where
  isCasting : Bool
  /-- `m_state` -/
  state : CastState
  startTime : ℤ
  currentTime : ℤ
  lastVolume : ℤ
  fontSize : ℤ
  /-- The counter of `timerEvent`. -/
  counter : ℕ
  serverUrl : String
  subtitleFile : String
  mediaFile : String
  currentDevice : CastDevice
  devs : List CastDevice
  /-- The calls of `stop` whose event loop runs, the innermost first. -/
  stops : List StopCaller
  signals : List CastSignal
  requests : List CastRequest
  /-- The states between the events so far. -/
  states : List CastState

namespace ChromeCast

def CHROMECAST_DEVICE_TEXT_LOCAL : String := "Popcorn Time"
def CHROMECAST_REFRESH_TIMER_INTERVAL : ℤ := 500

/-- `CHROMECAST_REFRESH_INTERVAL_CC / CHROMECAST_REFRESH_TIMER_INTERVAL` -/
def CC_INTERVAL : ℕ := 2

/-- `CHROMECAST_REFRESH_INTERVAL_OTHER / CHROMECAST_REFRESH_TIMER_INTERVAL` -/
def OTHER_INTERVAL : ℕ := 60

/-- The constructor; it leaves `currentTime` and `lastVolume` as they are. -/
def new (currentTime lastVolume : ℤ) : ChromeCast where
  isCasting := false
  state := .idle
  startTime := 0
  currentTime := currentTime
  lastVolume := lastVolume
  fontSize := 0
  counter := 0
  serverUrl := ""
  subtitleFile := ""
  mediaFile := ""
  currentDevice := .empty
  devs := []
  stops := []
  signals := []
  requests := []
  states := [.idle]

def emit (s : ChromeCast) (signal : CastSignal) : ChromeCast :=
  { s with signals := s.signals ++ [signal] }

/-! ### Commands -/

/-- `issueCommand` returns a reply. -/
def answers (s : ChromeCast) : Bool :=
  decide (s.state = .paused) || decide (s.state = .playing)

def issueCommand (s : ChromeCast) (command : CastCommand) : ChromeCast :=
  if s.answers then
    { s with requests := s.requests ++ [.command s.serverUrl s.currentDevice command] }
  else s

/-- `isPlaying` -/
def isPlaying (s : ChromeCast) : Bool :=
  decide (s.state = .playing) || decide (s.state = .buffering)

def pause (s : ChromeCast) : ChromeCast :=
  if s.state ≠ .paused then s.issueCommand .pause else s

def setTime (s : ChromeCast) (time : ℤ) : ChromeCast :=
  if s.state = .opening ∨ s.state = .idle then { s with startTime := time }
  else s.issueCommand (.seek time)

def setPause (s : ChromeCast) (setPause : Bool) : ChromeCast :=
  if setPause && decide (s.state = .paused) then s
  else if !setPause && s.isPlaying then s
  else s.issueCommand (if setPause then .pause else .play)

/-- `setVolume`; whether it is too early for a command is up to the clock. -/
def setVolume (s : ChromeCast) (volume : ℤ) (blocked : Bool) : ChromeCast :=
  if s.lastVolume = volume then s
  else if blocked then { s with lastVolume := volume }
  else { s with lastVolume := volume }.issueCommand (.volume volume)

/-- `setSubtitleFileV`; the only supported ending is `srt`. -/
def setSubtitleFileV (s : ChromeCast) (fileName : String) : ChromeCast :=
  let s := { s with subtitleFile := fileName }
  if fileName.toLower.endsWith "srt" then s.issueCommand (.subtitles fileName)
  else s.issueCommand (.subtitles "")

def setFontSize (s : ChromeCast) (fontSize : ℤ) : ChromeCast :=
  let fontSize := if fontSize > 2 then 2 else fontSize
  let fontSize := if fontSize < -2 then -2 else fontSize
  { s with fontSize := fontSize }.issueCommand (.fontSize fontSize)

/-- The timer that `setState` starts behind `Opening`. -/
def onStartTimer (s : ChromeCast) : ChromeCast :=
  { s.issueCommand (.seek s.startTime) with startTime := 0 }

def timerEvent (s : ChromeCast) : ChromeCast :=
  let period := if s.currentDevice.type = .chromecast then CC_INTERVAL else OTHER_INTERVAL
  let currentTime := s.currentTime + CHROMECAST_REFRESH_TIMER_INTERVAL
  let s := { s with currentTime := currentTime }.emit (.timeChanged currentTime)
  if s.counter ≥ period then { s.issueCommand .mediaState with counter := 0 }
  else { s with counter := s.counter + 1 }

/-! ### The state -/

/-- The end of `setState`: the signals. -/
def announce (s : ChromeCast) (oldState newState : CastState) : ChromeCast :=
  let s :=
    match newState with
    | .idle => { s with startTime := 0 }.emit .stopped
    | .opening => s.emit .opening
    | .playing => if oldState ≠ CastState.buffering then s.emit .playing else s
    | .paused => s.emit .paused
    | .buffering => s
  s.emit .stateChanged

def setState (s : ChromeCast) (newState : CastState) : ChromeCast :=
  if s.state = newState then s
  else
    let changed := { s with state := newState }
    let changed :=
      -- the subtitles are sent when the film has opened
      if s.state = .opening ∧ (newState = .paused ∨ newState = .playing) then
        changed.setSubtitleFileV s.subtitleFile
      else changed
    changed.announce s.state newState

/-- The state that `handleCastingSwitch` sets. -/
def switchState (s : ChromeCast) (switchedToEnable : Bool) : ChromeCast :=
  if switchedToEnable then if s.state = .idle then s.setState .opening else s
  else if s.state ≠ .idle then s.setState .idle else s

def handleCastingSwitch (s : ChromeCast) (switchedToEnable : Bool) : ChromeCast :=
  if switchedToEnable = s.isCasting then s
  else
    let switched := { s.switchState switchedToEnable with isCasting := switchedToEnable }
    let switched := switched.emit (.castingSwitched switchedToEnable)
    -- the same text for both directions
    let switched := switched.emit (.stateText "Starting Casting...")
    { switched with
      lastVolume := 100
      currentTime := 0
      currentDevice := if switchedToEnable then s.currentDevice else .empty }

/-- The first part of `parseMStat`: the state, and the text for it. -/
def parsePlayerState (s : ChromeCast) (data : MediaStatus) : ChromeCast × String :=
  match data.playerState with
  | some "BUFFERING" =>
    (if s.state = .opening then
      match data.duration with
      | some time => if time ≥ 0 then s.emit (.lengthChanged time) else s
      | none => s
    else s.setState .buffering, "Buffering")
  | some "PLAYING" => (s.setState .playing, "Playing")
  | some "PAUSED" => (s.setState .paused, "Paused")
  | some theState => (s, if theState = "INVALID_VALUE" then "" else theState)
  | none => (s, "")

/-- The last part of `parseMStat`: the text, the image and the time. -/
def showMStat (s : ChromeCast) (theState : String) (data : MediaStatus) : ChromeCast :=
  let s :=
    if theState.isEmpty then s
    else s.emit (.stateText (s.currentDevice.type.userString ++ " " ++ theState))
  let s := s.emit (.stateImage s.currentDevice.type.image)
  match data.currentTime with
  | some time => if time ≥ 0 then { s.emit (.timeChanged time) with currentTime := time } else s
  | none => s

def parseMStat (s : ChromeCast) (data : Option MediaStatus) : ChromeCast :=
  match data with
  | none => s
  | some data => (s.parsePlayerState data).1.showMStat (s.parsePlayerState data).2 data

/-! ### Stopping -/

/-- `onListItemClicked` behind its `stop`. -/
def selectDevice (s : ChromeCast) (text : String) : ChromeCast :=
  let s := { s with currentDevice := .empty }
  if text = CHROMECAST_DEVICE_TEXT_LOCAL then s
  else
    match s.devs.find? (fun dev => decide (text = dev.name)) with
    | none => s
    | some dev => { s with currentDevice := dev }.emit .deviceSelected

/-- `stop` behind its event loop, and its caller behind it.  The exit of the killed process is an
    event of its own. -/
def finishStop (s : ChromeCast) (caller : StopCaller) : ChromeCast :=
  let s := { s with startTime := 0 }
  match caller with
  | .user => s
  | .err => s.emit (.stateText "Casting error")
  | .listItem text => s.selectDevice text

/-- `stop`: a reply is waited for in an event loop, in which everything else may happen. -/
def stop (s : ChromeCast) (caller : StopCaller) : ChromeCast :=
  if s.isCasting && s.answers then { s.issueCommand .stop with stops := caller :: s.stops }
  else s.finishStop caller

def onListItemClicked (s : ChromeCast) (text : String) : ChromeCast :=
  if text = s.currentDevice.name then s else s.stop (.listItem text)

/-- `buttonClicked`: the button is checkable while casting, else it shows the devices. -/
def buttonClicked (s : ChromeCast) : ChromeCast :=
  if s.isCasting then s.stop .user else s

def addDevice (s : ChromeCast) (device : CastDevice) : ChromeCast :=
  if !device.isValid || s.devs.any device.same then s else { s with devs := s.devs ++ [device] }

/-- The tokens of the two processes, with their JSON parsed. -/
inductive Token
  | deviceFound (device : Option CastDevice)
  | listenUrl (url : String)
  | dstat (value : String)
  | mstat (data : Option MediaStatus)
  | err (value : String)
deriving DecidableEq, Repr

def parseNjsData (s : ChromeCast) : Token → ChromeCast
  | .deviceFound none => s
  | .deviceFound (some device) => s.addDevice device
  | .listenUrl url =>
    { s with
      serverUrl := url
      requests := s.requests ++ [.load url s.currentDevice s.mediaFile s.fontSize] }
  | .dstat value => s.handleCastingSwitch (decide (value = "CONNECTED"))
  | .mstat data => s.parseMStat data
  -- any error ends the cast
  | .err _ => s.stop .err

/-! ### The machine -/

inductive Event
  | token (token : Token)
  /-- The cast process has ended. -/
  | serverStopped
  | buttonClicked
  | stop
  | pause
  | setTime (time : ℤ)
  | setStartTime (time : ℤ)
  | setMute (muted : Bool)
  | setPause (setPause : Bool)
  | setVolume (volume : ℤ) (blocked : Bool)
  | setSubtitleFileV (fileName : String)
  | setFontSize (fontSize : ℤ)
  | setMediaFile (filename : String)
  | onListItemClicked (text : String)
  | onVolumeTimer
  | onStartTimer
  | timerEvent
  /-- The innermost event loop of `stop` quits. -/
  | loopQuit

/-- The slot that runs on an event; `none` where there is none. -/
def handle (s : ChromeCast) : Event → Option ChromeCast
  | .token token => some (s.parseNjsData token)
  | .serverStopped => some (s.handleCastingSwitch false)
  | .buttonClicked => some s.buttonClicked
  | .stop => some (s.stop .user)
  | .pause => some s.pause
  | .setTime time => some (s.setTime time)
  | .setStartTime time => some { s with startTime := time }
  | .setMute muted => some (s.issueCommand (.mute muted))
  | .setPause setPause => some (s.setPause setPause)
  | .setVolume volume blocked => some (s.setVolume volume blocked)
  | .setSubtitleFileV fileName => some (s.setSubtitleFileV fileName)
  | .setFontSize fontSize => some (s.setFontSize fontSize)
  | .setMediaFile filename => some { s with mediaFile := filename }
  | .onListItemClicked text => some (s.onListItemClicked text)
  | .onVolumeTimer => some (s.issueCommand (.volume s.lastVolume))
  | .onStartTimer => some s.onStartTimer
  -- the timer runs while casting only
  | .timerEvent => if s.isCasting then some s.timerEvent else none
  -- the innermost event loop of `stop` ends first
  | .loopQuit =>
    match s.stops with
    | [] => none
    | caller :: rest => some ({ s with stops := rest }.finishStop caller)

/-- An event, with the state it leaves put down. -/
def next (s : ChromeCast) (e : Event) : Option ChromeCast :=
  (s.handle e).map fun s => { s with states := s.states ++ [s.state] }

/-- The machine of all sequences of tokens, exits and commands. -/
def machine : Machine ChromeCast Event :=
  Machine.ofFun (fun s => ∃ currentTime lastVolume, s = new currentTime lastVolume) next

/-- How often a list of states comes back to `Idle`. -/
def returnsToIdle : List CastState → ℕ
  | a :: b :: rest => (if a ≠ .idle ∧ b = .idle then 1 else 0) + returnsToIdle (b :: rest)
  | _ => 0

/-- A player that is not casting is `Idle`. -/
def CastRight (s : ChromeCast) : Prop :=
  s.isCasting = false → s.state = .idle

/-- The condition of an event: a media status that sets a state comes while casting. -/
def CastGuard (s : ChromeCast) : Event → Prop
  | .token (.mstat (some data)) => data.Active → s.isCasting = true
  | _ => True

variable {s s' : ChromeCast}

/-! ### Slots that leave the state alone -/

/-- Neither switch is touched, and `stopped` is not emitted. -/
structure SameCast (s s' : ChromeCast) : Prop where
  isCasting : s'.isCasting = s.isCasting
  state : s'.state = s.state
  states : s'.states = s.states
  stopped : s'.signals.count .stopped = s.signals.count .stopped

/-- What does nothing leaves the state alone. -/
theorem SameCast.refl (s : ChromeCast) : SameCast s s :=
  ⟨rfl, rfl, rfl, rfl⟩

/-- Two slots that leave it alone are one that does. -/
theorem SameCast.trans {s'' : ChromeCast} (h : SameCast s s') (h' : SameCast s' s'') :
    SameCast s s'' :=
  ⟨h'.isCasting.trans h.isCasting, h'.state.trans h.state, h'.states.trans h.states,
    h'.stopped.trans h.stopped⟩

/-- Any signal but `stopped` may be emitted. -/
theorem sameCast_emit {signal : CastSignal} (h : signal ≠ .stopped) :
    SameCast s (s.emit signal) :=
  ⟨rfl, rfl, rfl, by simp [emit, h]⟩

/-- A command is a request, or nothing while the player is `Idle`. -/
theorem sameCast_issueCommand (command : CastCommand) : SameCast s (s.issueCommand command) := by
  unfold issueCommand
  split_ifs
  · exact ⟨rfl, rfl, rfl, rfl⟩
  · exact SameCast.refl s

/-- The file of the subtitles is put down, and sent by a command. -/
theorem sameCast_setSubtitleFileV (fileName : String) :
    SameCast s (s.setSubtitleFileV fileName) := by
  unfold setSubtitleFileV
  dsimp only
  have hfile : SameCast s { s with subtitleFile := fileName } := ⟨rfl, rfl, rfl, rfl⟩
  split_ifs
  · exact hfile.trans (sameCast_issueCommand _)
  · exact hfile.trans (sameCast_issueCommand _)

/-- A seek is a command. -/
theorem sameCast_setTime (time : ℤ) : SameCast s (s.setTime time) := by
  unfold setTime
  split_ifs
  · exact ⟨rfl, rfl, rfl, rfl⟩
  · exact sameCast_issueCommand _

/-- So are a pause and its end. -/
theorem sameCast_setPause (b : Bool) : SameCast s (s.setPause b) := by
  unfold setPause
  split_ifs
  · exact SameCast.refl s
  · exact SameCast.refl s
  · exact sameCast_issueCommand _
  · exact sameCast_issueCommand _

/-- The volume is put down, and sent at once or by the timer. -/
theorem sameCast_setVolume (volume : ℤ) (blocked : Bool) :
    SameCast s (s.setVolume volume blocked) := by
  unfold setVolume
  have hvolume : SameCast s { s with lastVolume := volume } := ⟨rfl, rfl, rfl, rfl⟩
  split_ifs
  · exact SameCast.refl s
  · exact hvolume
  · exact hvolume.trans (sameCast_issueCommand _)

/-- The timer moves the time on, and asks for the status now and then. -/
theorem sameCast_timerEvent : SameCast s s.timerEvent := by
  unfold timerEvent
  dsimp only
  generalize s.currentTime + CHROMECAST_REFRESH_TIMER_INTERVAL = currentTime
  generalize (if s.currentDevice.type = .chromecast then CC_INTERVAL else OTHER_INTERVAL) = period
  have hcurrent : SameCast s { s with currentTime := currentTime } := ⟨rfl, rfl, rfl, rfl⟩
  have htime : SameCast s ({ s with currentTime := currentTime }.emit (.timeChanged currentTime)) :=
    hcurrent.trans (sameCast_emit (by simp))
  split_ifs
  · exact (htime.trans (sameCast_issueCommand _)).trans ⟨rfl, rfl, rfl, rfl⟩
  · exact htime.trans ⟨rfl, rfl, rfl, rfl⟩

/-- A device that is selected is not connected yet. -/
theorem sameCast_selectDevice (text : String) : SameCast s (s.selectDevice text) := by
  unfold selectDevice
  dsimp only
  split_ifs
  · exact ⟨rfl, rfl, rfl, rfl⟩
  · split
    · exact ⟨rfl, rfl, rfl, rfl⟩
    · rename_i dev _
      have hdevice : SameCast s { s with currentDevice := dev } := ⟨rfl, rfl, rfl, rfl⟩
      exact hdevice.trans (sameCast_emit (by simp))

/-- What is behind the event loop of `stop` sets no state. -/
theorem sameCast_finishStop (caller : StopCaller) : SameCast s (s.finishStop caller) := by
  have htime : SameCast s { s with startTime := 0 } := ⟨rfl, rfl, rfl, rfl⟩
  cases caller with
  | user => exact htime
  | err => exact htime.trans (sameCast_emit (by simp))
  | listItem text => exact htime.trans (sameCast_selectDevice text)

/-- Nor does `stop` itself: the state comes back with the exit of the process. -/
theorem sameCast_stop (caller : StopCaller) : SameCast s (s.stop caller) := by
  unfold stop
  split_ifs
  · exact (sameCast_issueCommand _).trans ⟨rfl, rfl, rfl, rfl⟩
  · exact sameCast_finishStop caller

/-! ### Slots that set the state -/

/-- `stopped` is emitted exactly if the state comes back to `Idle`. -/
structure Moved (s s' : ChromeCast) : Prop where
  states : s'.states = s.states
  stopped : s'.signals.count .stopped =
    s.signals.count .stopped + if s.state ≠ .idle ∧ s'.state = .idle then 1 else 0

/-- A slot that leaves the state alone emits no `stopped`, as it must not. -/
theorem SameCast.moved (h : SameCast s s') : Moved s s' where
  states := h.states
  stopped := by
    rw [h.stopped, h.state]
    by_cases hidle : s.state = .idle <;> simp [hidle]

/-- A slot that leaves the state alone may follow one that sets it. -/
theorem Moved.trans_same {s'' : ChromeCast} (h : Moved s s') (h' : SameCast s' s'') :
    Moved s s'' where
  states := h'.states.trans h.states
  stopped := by rw [h'.stopped, h'.state, h.stopped]

/-- The signals of a new state change none of it; `stopped` is that of `Idle`. -/
theorem announce_spec (oldState newState : CastState) :
    (s.announce oldState newState).isCasting = s.isCasting ∧
      (s.announce oldState newState).state = s.state ∧
      (s.announce oldState newState).states = s.states ∧
      (s.announce oldState newState).signals.count .stopped =
        s.signals.count .stopped + if newState = .idle then 1 else 0 := by
  unfold announce
  cases newState with
  | idle | opening | buffering | paused => simp [emit]
  | playing =>
    dsimp only
    split_ifs <;> simp_all [emit]

/-- What `setState` does. -/
theorem setState_spec (newState : CastState) :
    Moved s (s.setState newState) ∧ (s.setState newState).state = newState ∧
      (s.setState newState).isCasting = s.isCasting := by
  unfold setState
  dsimp only
  by_cases heq : s.state = newState
  · rw [if_pos heq]
    exact ⟨(SameCast.refl s).moved, heq, rfl⟩
  · rw [if_neg heq]
    have hfile : SameCast { s with state := newState }
        (if s.state = .opening ∧ (newState = .paused ∨ newState = .playing) then
          { s with state := newState }.setSubtitleFileV s.subtitleFile
        else { s with state := newState }) := by
      split_ifs
      · exact sameCast_setSubtitleFileV _
      · exact SameCast.refl _
    -- the subtitles of a file that has just opened do not matter here
    generalize (if s.state = .opening ∧ (newState = .paused ∨ newState = .playing) then
      { s with state := newState }.setSubtitleFileV s.subtitleFile
      else { s with state := newState }) = changed at hfile ⊢
    obtain ⟨hcasting, hstate, hstates, hstopped⟩ :=
      changed.announce_spec s.state newState
    refine ⟨⟨hstates.trans hfile.states, ?_⟩, hstate.trans hfile.state,
      hcasting.trans hfile.isCasting⟩
    rw [hstopped, hfile.stopped, hstate, hfile.state]
    -- `stopped` is announced for `Idle` alone
    by_cases hidle : newState = .idle
    · subst hidle
      simp [heq]
    · simp [hidle]

/-- A switch sets `Opening` or `Idle`; switched off, the player is `Idle` in any case. -/
theorem switchState_spec (switchedToEnable : Bool) :
    Moved s (s.switchState switchedToEnable) ∧
      (switchedToEnable = false → (s.switchState switchedToEnable).state = .idle) := by
  unfold switchState
  split_ifs with hon hidle hidle
  · exact ⟨(setState_spec _).1, by simp [hon]⟩
  · exact ⟨(SameCast.refl s).moved, by simp [hon]⟩
  · exact ⟨(setState_spec _).1, fun _ => (setState_spec _).2.1⟩
  · exact ⟨(SameCast.refl s).moved, fun _ => not_not.mp hidle⟩

/-- What `handleCastingSwitch` does where it does something. -/
theorem handleCastingSwitch_spec {switchedToEnable : Bool}
    (hne : switchedToEnable ≠ s.isCasting) :
    Moved s (s.handleCastingSwitch switchedToEnable) ∧
      (s.handleCastingSwitch switchedToEnable).isCasting = switchedToEnable ∧
      (switchedToEnable = false → (s.handleCastingSwitch switchedToEnable).state = .idle) := by
  obtain ⟨hmoved, hidle⟩ := s.switchState_spec switchedToEnable
  unfold handleCastingSwitch
  rw [if_neg hne]
  refine ⟨⟨hmoved.states, ?_⟩, rfl, hidle⟩
  have hstopped := hmoved.stopped
  simpa [emit] using hstopped

/-- A switch emits `stopped` if it brings the player back to `Idle`. -/
theorem moved_handleCastingSwitch (switchedToEnable : Bool) :
    Moved s (s.handleCastingSwitch switchedToEnable) := by
  by_cases heq : switchedToEnable = s.isCasting
  · rw [handleCastingSwitch, if_pos heq]
    exact (SameCast.refl s).moved
  · exact (handleCastingSwitch_spec heq).1

/-- What the player state of an `MSTAT` does: one that sets a state leaves the player in a state
    that is not `Idle`. -/
theorem parsePlayerState_spec (data : MediaStatus) :
    Moved s (s.parsePlayerState data).1 ∧ (s.parsePlayerState data).1.isCasting = s.isCasting ∧
      (data.Active → (s.parsePlayerState data).1.state ≠ .idle) ∧
      (¬data.Active → (s.parsePlayerState data).1 = s) := by
  unfold parsePlayerState MediaStatus.Active
  split
  · rename_i hstate
    dsimp only
    split_ifs with hopening
    · -- the first `BUFFERING` of an opening only announces the length
      have hlength : SameCast s (match data.duration with
          | some time => if time ≥ 0 then s.emit (.lengthChanged time) else s
          | none => s) := by
        split
        · split_ifs
          · exact sameCast_emit (by simp)
          · exact SameCast.refl s
        · exact SameCast.refl s
      refine ⟨hlength.moved, hlength.isCasting, fun _ => ?_, fun hnot => by simp [hstate] at hnot⟩
      rw [hlength.state, hopening]
      simp
    · obtain ⟨hmoved, hset, hcasting⟩ := s.setState_spec .buffering
      exact ⟨hmoved, hcasting, fun _ => by simp [hset], fun hnot => by simp [hstate] at hnot⟩
  · rename_i hstate
    obtain ⟨hmoved, hset, hcasting⟩ := s.setState_spec .playing
    exact ⟨hmoved, hcasting, fun _ => by simp [hset], fun hnot => by simp [hstate] at hnot⟩
  · rename_i hstate
    obtain ⟨hmoved, hset, hcasting⟩ := s.setState_spec .paused
    exact ⟨hmoved, hcasting, fun _ => by simp [hset], fun hnot => by simp [hstate] at hnot⟩
  · rename_i theState hbuffering hplaying hpaused hstate
    -- any other text, and no text
    refine ⟨(SameCast.refl s).moved, rfl, fun hactive => ?_, fun _ => rfl⟩
    rw [hstate] at hactive
    simp only [Option.some.injEq] at hactive
    rcases hactive with h | h | h
    · exact absurd h hbuffering
    · exact absurd h hplaying
    · exact absurd h hpaused
  · rename_i hstate
    exact ⟨(SameCast.refl s).moved, rfl, by simp [hstate], fun _ => rfl⟩

/-- The text, the image and the time of a status are signals only. -/
theorem sameCast_showMStat (theState : String) (data : MediaStatus) :
    SameCast s (s.showMStat theState data) := by
  unfold showMStat
  dsimp only
  have htext : SameCast s (if theState.isEmpty then s
      else s.emit (.stateText (s.currentDevice.type.userString ++ " " ++ theState))) := by
    split_ifs
    · exact SameCast.refl s
    · exact sameCast_emit (by simp)
  generalize (if theState.isEmpty then s
    else s.emit (.stateText (s.currentDevice.type.userString ++ " " ++ theState))) = s₁ at htext ⊢
  have himage : SameCast s (s₁.emit (.stateImage s₁.currentDevice.type.image)) :=
    htext.trans (sameCast_emit (by simp))
  generalize s₁.emit (.stateImage s₁.currentDevice.type.image) = s₂ at himage ⊢
  split
  · rename_i time _
    split_ifs
    · have htime : SameCast s₂ (s₂.emit (.timeChanged time)) := sameCast_emit (by simp)
      exact (himage.trans htime).trans ⟨rfl, rfl, rfl, rfl⟩
    · exact himage
  · exact himage

/-- What `parseMStat` does. -/
theorem parseMStat_spec (data : MediaStatus) :
    Moved s (s.parseMStat (some data)) ∧ (s.parseMStat (some data)).isCasting = s.isCasting ∧
      (data.Active → (s.parseMStat (some data)).state ≠ .idle) ∧
      (¬data.Active → (s.parseMStat (some data)).state = s.state) := by
  obtain ⟨hmoved, hcasting, hactive, hinactive⟩ := s.parsePlayerState_spec data
  have hrest : SameCast (s.parsePlayerState data).1 (s.parseMStat (some data)) :=
    sameCast_showMStat _ _
  refine ⟨hmoved.trans_same hrest, hrest.isCasting.trans hcasting, fun h => ?_, fun h => ?_⟩
  · rw [hrest.state]
    exact hactive h
  · rw [hrest.state, hinactive h]

/-! ### One event -/

/-- Every event but a switch and a media status leaves the state alone. -/
def Event.Sets : Event → Prop
  | .token (.dstat _) | .token (.mstat (some _)) | .serverStopped => True
  | _ => False

/-! The commands of the user go through `issueCommand` or `stop`. -/

/-- The button stops the cast, or shows the devices. -/
theorem sameCast_buttonClicked : SameCast s s.buttonClicked := by
  unfold buttonClicked
  split_ifs
  · exact sameCast_stop _
  · exact SameCast.refl s

/-- `pause` is a command. -/
theorem sameCast_pause : SameCast s s.pause := by
  unfold pause
  split_ifs
  · exact sameCast_issueCommand _
  · exact SameCast.refl s

/-- The size is put down within its bounds, and sent. -/
theorem sameCast_setFontSize (fontSize : ℤ) : SameCast s (s.setFontSize fontSize) := by
  unfold setFontSize
  dsimp only
  -- whatever the size is cut to
  generalize (if (if fontSize > 2 then 2 else fontSize) < -2 then -2
    else if fontSize > 2 then 2 else fontSize) = size
  have hsize : SameCast s { s with fontSize := size } := ⟨rfl, rfl, rfl, rfl⟩
  exact hsize.trans (sameCast_issueCommand _)

/-- Another device is selected behind a `stop`. -/
theorem sameCast_onListItemClicked (text : String) : SameCast s (s.onListItemClicked text) := by
  unfold onListItemClicked
  split_ifs
  · exact SameCast.refl s
  · exact sameCast_stop _

/-- The start time is sought by a command. -/
theorem sameCast_onStartTimer : SameCast s s.onStartTimer :=
  (sameCast_issueCommand (.seek s.startTime)).trans ⟨rfl, rfl, rfl, rfl⟩

/-- A device that is found is only listed. -/
theorem sameCast_addDevice (device : CastDevice) : SameCast s (s.addDevice device) := by
  unfold addDevice
  split_ifs
  · exact SameCast.refl s
  · exact ⟨rfl, rfl, rfl, rfl⟩

/-- A token that is no switch and no media status. -/
theorem sameCast_parseNjsData {token : Token} (he : ¬(Event.token token).Sets) :
    SameCast s (s.parseNjsData token) := by
  cases token with
  | deviceFound device =>
    cases device with
    | none => exact SameCast.refl s
    | some device => exact sameCast_addDevice device
  | listenUrl url => exact ⟨rfl, rfl, rfl, rfl⟩
  | dstat value => exact absurd trivial he
  | mstat data =>
    cases data with
    | none => exact SameCast.refl s
    | some data => exact absurd trivial he
  | err value => exact sameCast_stop _

/-- **An event that is no switch and no media status** leaves the state alone. -/
theorem sameCast_handle {e : Event} (he : ¬e.Sets) (hstep : s.handle e = some s') :
    SameCast s s' := by
  cases e with
  | token token => exact Option.some.inj hstep ▸ sameCast_parseNjsData he
  | serverStopped => exact absurd trivial he
  | buttonClicked => exact Option.some.inj hstep ▸ sameCast_buttonClicked
  | pause => exact Option.some.inj hstep ▸ sameCast_pause
  | stop => exact Option.some.inj hstep ▸ sameCast_stop _
  | setTime time => exact Option.some.inj hstep ▸ sameCast_setTime time
  | setStartTime time => exact Option.some.inj hstep ▸ ⟨rfl, rfl, rfl, rfl⟩
  | setMute muted => exact Option.some.inj hstep ▸ sameCast_issueCommand _
  | setPause setPause => exact Option.some.inj hstep ▸ sameCast_setPause setPause
  | setVolume volume blocked => exact Option.some.inj hstep ▸ sameCast_setVolume volume blocked
  | setSubtitleFileV fileName => exact Option.some.inj hstep ▸ sameCast_setSubtitleFileV fileName
  | setFontSize fontSize => exact Option.some.inj hstep ▸ sameCast_setFontSize fontSize
  | setMediaFile filename => exact Option.some.inj hstep ▸ ⟨rfl, rfl, rfl, rfl⟩
  | onListItemClicked text => exact Option.some.inj hstep ▸ sameCast_onListItemClicked text
  | onVolumeTimer => exact Option.some.inj hstep ▸ sameCast_issueCommand _
  | onStartTimer => exact Option.some.inj hstep ▸ sameCast_onStartTimer
  | timerEvent =>
    rw [handle] at hstep
    split_ifs at hstep
    exact Option.some.inj hstep ▸ sameCast_timerEvent
  | loopQuit =>
    simp only [handle] at hstep
    split at hstep
    · cases hstep
    · rename_i caller rest _
      -- the call that had to wait goes on
      have hstops : SameCast s { s with stops := rest } := ⟨rfl, rfl, rfl, rfl⟩
      exact Option.some.inj hstep ▸ hstops.trans (sameCast_finishStop caller)

/-- **Every event** emits `stopped` exactly if it brings the player back to `Idle`. -/
theorem moved_handle {e : Event} (hstep : s.handle e = some s') : Moved s s' := by
  by_cases he : e.Sets
  · cases e with
    | serverStopped => exact Option.some.inj hstep ▸ moved_handleCastingSwitch false
    | token token =>
      cases token with
      | dstat value => exact Option.some.inj hstep ▸ moved_handleCastingSwitch _
      | mstat data =>
        cases data with
        | none => exact absurd he id
        | some data => exact Option.some.inj hstep ▸ (s.parseMStat_spec data).1
      | _ => exact absurd he id
    | _ => exact absurd he id
  · exact (sameCast_handle he hstep).moved

/-- A switch keeps a right player right. -/
theorem castRight_handleCastingSwitch (h : s.CastRight) (switchedToEnable : Bool) :
    (s.handleCastingSwitch switchedToEnable).CastRight := by
  by_cases heq : switchedToEnable = s.isCasting
  · rw [handleCastingSwitch, if_pos heq]
    exact h
  · obtain ⟨-, hcasting, hidle⟩ := handleCastingSwitch_spec heq
    exact fun hoff => hidle (hcasting.symm.trans hoff)

/-- **One event** keeps a player that is not casting `Idle` exactly if it meets the guard. -/
theorem castRight_iff {e : Event} (h : s.CastRight) (hstep : s.next e = some s') :
    s'.CastRight ↔ s.CastGuard e := by
  obtain ⟨s₁, hhandle, rfl⟩ := Option.map_eq_some_iff.mp hstep
  show s₁.CastRight ↔ s.CastGuard e
  -- three events set the variables; the switch keeps them together, a status need not
  by_cases he : e.Sets
  · cases e with
    | serverStopped =>
      exact iff_of_true (Option.some.inj hhandle ▸ castRight_handleCastingSwitch h false) trivial
    | token token =>
      cases token with
      | dstat value =>
        exact iff_of_true (Option.some.inj hhandle ▸ castRight_handleCastingSwitch h _) trivial
      | mstat data =>
        cases data with
        | none => exact absurd he id
        | some data =>
          rw [handle, Option.some.injEq] at hhandle
          subst hhandle
          obtain ⟨-, hcasting, hactive, hinactive⟩ := s.parseMStat_spec data
          unfold CastRight CastGuard
          show ((s.parseMStat (some data)).isCasting = false →
            (s.parseMStat (some data)).state = .idle) ↔ (data.Active → s.isCasting = true)
          rw [hcasting]
          -- an active status leaves the state busy, so only casting makes it right
          by_cases ha : data.Active
          · cases hc : s.isCasting <;> simp [ha, hactive ha]
          · rw [hinactive ha]
            exact iff_of_true h fun h => absurd h ha
      | _ => exact absurd he id
    | _ => exact absurd he id
  · have hsame := sameCast_handle he hhandle
    have hright : s₁.CastRight := fun hoff => hsame.state.trans (h (hsame.isCasting.symm.trans hoff))
    refine iff_of_true hright ?_
    cases e with
    | token token =>
      cases token with
      | mstat data =>
        cases data with
        | none => trivial
        | some data => exact absurd trivial he
      | _ => trivial
    | _ => trivial

/-- A new player is `Idle`, and each event decides. -/
theorem castGuard_exact : machine.ExactGuard (fun _ => True) CastGuard CastRight where
  init_iff := by
    rintro s ⟨currentTime, lastVolume, rfl⟩
    exact iff_of_true (fun _ => rfl) trivial
  step_iff := fun _ _ _ _ h hstep => castRight_iff h hstep

/-! ### Whole runs -/

/-- A state that is put down adds a return if it is `Idle` and the one before it is not. -/
theorem returnsToIdle_append {states : List CastState} {a b : CastState}
    (h : states.getLast? = some a) :
    returnsToIdle (states ++ [b]) =
      returnsToIdle states + if a ≠ .idle ∧ b = .idle then 1 else 0 := by
  induction states with
  | nil => simp at h
  | cons x rest ih =>
    cases rest with
    | nil =>
      simp only [List.getLast?_singleton, Option.some.injEq] at h
      subst h
      simp [returnsToIdle]
    -- the appended step is counted behind the first two states
    | cons y rest =>
      rw [List.getLast?_cons_cons] at h
      have hrest := ih h
      simp only [List.cons_append, returnsToIdle] at hrest ⊢
      omega

/-- **The signal.**  In every run `stopped` is emitted once for each return to `Idle`. -/
theorem stopped_of_reachable (h : machine.Reachable s) :
    s.signals.count .stopped = returnsToIdle s.states := by
  have hinv : s.signals.count .stopped = returnsToIdle s.states ∧
      s.states.getLast? = some s.state := by
    refine Machine.Reachable.invariant (I := fun s => s.signals.count .stopped =
      returnsToIdle s.states ∧ s.states.getLast? = some s.state) ?_ ?_ h
    · rintro s ⟨currentTime, lastVolume, rfl⟩
      exact ⟨rfl, rfl⟩
    · rintro s e s' ⟨hcount, hlast⟩ hstep
      obtain ⟨s₁, hhandle, rfl⟩ := Option.map_eq_some_iff.mp hstep
      have hmoved := moved_handle hhandle
      refine ⟨?_, by simp⟩
      show s₁.signals.count .stopped = returnsToIdle (s₁.states ++ [s₁.state])
      rw [hmoved.states, returnsToIdle_append hlast, hmoved.stopped, hcount]
  exact hinv.1

/-- A player that is not casting and not `Idle` stays so until the device is connected. -/
theorem not_castRight_next {e : Event} (h : ¬s.CastRight) (hstep : s.next e = some s')
    (he : e ≠ .token (.dstat "CONNECTED")) : ¬s'.CastRight := by
  obtain ⟨s₁, hhandle, rfl⟩ := Option.map_eq_some_iff.mp hstep
  simp only [CastRight, Classical.not_imp] at h
  obtain ⟨hoff, hstate⟩ := h
  have hnot : ∀ s₂ : ChromeCast, s₂.isCasting = s.isCasting → s₂.state ≠ .idle → ¬s₂.CastRight :=
    fun s₂ hcasting hne hright => hne (hright (hcasting.trans hoff))
  -- a switch to where it is does nothing
  have hswitch : s.handleCastingSwitch false = s := by
    rw [handleCastingSwitch, if_pos hoff.symm]
  show ¬s₁.CastRight
  by_cases hsets : e.Sets
  · cases e with
    | serverStopped =>
      rw [handle, hswitch, Option.some.injEq] at hhandle
      exact hhandle ▸ hnot s rfl hstate
    | token token =>
      cases token with
      | dstat value =>
        have hvalue : value ≠ "CONNECTED" := fun heq => he (heq ▸ rfl)
        rw [handle, parseNjsData, decide_eq_false hvalue, hswitch, Option.some.injEq] at hhandle
        exact hhandle ▸ hnot s rfl hstate
      | mstat data =>
        cases data with
        | none => exact absurd hsets id
        | some data =>
          rw [handle, Option.some.injEq] at hhandle
          subst hhandle
          obtain ⟨-, hcasting, hactive, hinactive⟩ := s.parseMStat_spec data
          refine hnot _ hcasting ?_
          by_cases ha : data.Active
          · exact hactive ha
          · show (s.parseMStat (some data)).state ≠ .idle
            rw [hinactive ha]
            exact hstate
      | _ => exact absurd hsets id
    | _ => exact absurd hsets id
  · have hsame := sameCast_handle hsets hhandle
    exact hnot s₁ hsame.isCasting (hsame.state ▸ hstate)

/-- An `Idle` player sends no command. -/
theorem issueCommand_of_idle (h : s.state = .idle) (command : CastCommand) :
    s.issueCommand command = s := by
  simp [issueCommand, answers, h]

/-- **The cast state machine.**  In every run that meets the guard a player that is not casting is
    `Idle` and sends no command.  The guard is exact, and behind a step that breaks it the player
    stays as it is until the device is connected.  In every run `stopped` is emitted exactly once
    for each return to `Idle`. -/
theorem castRight_of_guard (s : ChromeCast) :
    (machine.RunUnder (fun _ => True) CastGuard s → s.isCasting = false →
      s.state = .idle ∧ ∀ command, s.issueCommand command = s) ∧
    machine.ExactGuard (fun _ => True) CastGuard CastRight ∧
    (∀ e s', ¬s.CastRight → e ≠ .token (.dstat "CONNECTED") → machine.step s e s' →
      ¬s'.CastRight) ∧
    (machine.Reachable s → s.signals.count .stopped = returnsToIdle s.states) := by
  refine ⟨fun h hoff => ?_, castGuard_exact, fun e s' h he hstep => not_castRight_next h hstep he,
    stopped_of_reachable⟩
  have hidle := castGuard_exact.runUnder h hoff
  exact ⟨hidle, issueCommand_of_idle hidle⟩

/-- A media status that comes before the device is connected leaves the player playing, and one
    that comes after it is disconnected leaves it paused. -/
theorem playing_not_casting :
    (∃ s, machine.Reachable s ∧ s.isCasting = false ∧ s.state = .playing ∧ s.requests ≠ []) ∧
    ∃ s, machine.Reachable s ∧ s.isCasting = false ∧ s.state = .paused := by
  constructor
  · have hrun : (Machine.runEvents next (new 0 0)
        [.token (.mstat (some ⟨some "PLAYING", none, none⟩)), .serverStopped, .pause]).map
          (fun s => (s.isCasting, s.state, s.requests)) =
        some (false, .playing, [.command "" .empty .pause]) := by
      decide
    obtain ⟨s, hreach, heq⟩ := Machine.Reachable.exists_of_runEvents
      (show machine.Reachable _ from .start ⟨0, 0, rfl⟩) hrun
    simp only [Prod.mk.injEq] at heq
    exact ⟨s, hreach, heq.1, heq.2.1, by simp [heq]⟩
  · have hrun : (Machine.runEvents next (new 0 0)
        [.token (.dstat "CONNECTED"), .token (.dstat "DISCONNECTED"),
          .token (.mstat (some ⟨some "PAUSED", none, none⟩))]).map
          (fun s => (s.isCasting, s.state)) = some (false, .paused) := by
      decide
    obtain ⟨s, hreach, heq⟩ := Machine.Reachable.exists_of_runEvents
      (show machine.Reachable _ from .start ⟨0, 0, rfl⟩) hrun
    simp only [Prod.mk.injEq] at heq
    exact ⟨s, hreach, heq⟩

end ChromeCast

end PopcornTime.Desktop
