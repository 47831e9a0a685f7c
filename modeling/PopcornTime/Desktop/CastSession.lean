import Mathlib.Tactic.SplitIfs
import PopcornTime.Desktop.SubtitlesConverter
import PopcornTime.Lib.Machine

namespace PopcornTime.Desktop

open PopcornTime

/-!
# Desktop casting — the session of the googlecast processor

A `/load` connects to a device, launches its receiver, waits for the subtitles and loads the media,
each in a callback of the one before.  The callbacks find the client, the player and the address of
the device in variables of the module, where another request may have put its own; an exception in
one of them ends the process.

* `CastSession.next` — requests, and the callbacks of the connections, the receivers and the
  converters.
* `CastSession.Right` — each media is loaded on its own device, and nothing is thrown.
* `CastSession.guard_exact` — when each callback keeps it.
* `CastSession.right_of_turns` — requests that come in turn keep it.
-/

/-- The query of a `/load`, as far as its callbacks read it; whether there is a `volume` and a
    `muted`. -/
structure LoadQuery where
  deviceIP : Option (List Char)
  torrentFile : Option (List Char)
  subtitles : Option (List Char)
  volume : Bool
  muted : Bool
deriving DecidableEq, Repr

/-- What becomes of the subtitles of a `/load`. -/
inductive SubtitlesPlan
  | load (subtitlesFileResult : Option (List Char))
  | convert (subtitlesFile : List Char)
  /-- There is no converter to call. -/
  | throws
deriving DecidableEq, Repr

def LoadQuery.plan (query : LoadQuery) : SubtitlesPlan :=
  let subtitlesFile := query.subtitles.getD []
  if subtitlesFile = [] then .load none
  else if subtitleExt subtitlesFile = dotVtt then .load (some subtitlesFile)
  else if getConvertor (subtitleExt subtitlesFile) then .convert subtitlesFile
  else .throws

/-- The connection of a client.  `idle` is one that has no address. -/
inductive CastConnection
  | idle
  | connecting
  | connected
  | closed
deriving DecidableEq, Repr

/-- A callback: the client that is to answer and the request that is waiting.  The player of a launch
    is told by it as well. -/
structure CastCallback where
  client : ℕ
  request : ℕ
deriving DecidableEq, Repr

/-- A request whose subtitles are converted, with the device that its own address was matched to. -/
structure CastConversion where
  request : ℕ
  deviceIP : List Char
deriving DecidableEq, Repr

/-- A media that has been loaded: the client of the player, the request, the device that the address
    was matched to, and the subtitles. -/
structure CastLoad where
  client : ℕ
  request : ℕ
  deviceIP : List Char
  subtitles : Option (List Char)
deriving DecidableEq, Repr

/-- The module.  Requests and their clients are told by how many requests came before.  `players` are
    those that the device has not closed. -/
structure CastSession where
  requests : ℕ
  query : ℕ → LoadQuery
  connection : ℕ → CastConnection
  client : Option ℕ
  sessionPlayer : Option CastCallback
  deviceIP : Option (List Char)
  launches : List CastCallback
  players : List CastCallback
  conversions : List CastConversion
  loading : List CastCallback
  stops : List ℕ
  loads : List CastLoad
  uncaught : Bool

/-- A query that can be played. -/
structure LoadQuery.IsPlayable (query : LoadQuery) : Prop where
  deviceIP : query.deviceIP ≠ none
  torrentFile : query.torrentFile ≠ none
  plan : query.plan ≠ .throws
  muted : query.volume = true → query.muted = true

namespace CastSession

/-- A callback throws, and the process ends. -/
def throws (s : CastSession) : CastSession := { s with uncaught := true }

/-- The media is loaded on the player of the session. -/
def load (s : CastSession) (conversion : CastConversion) (subtitlesFileResult : Option (List Char)) :
    CastSession :=
  match s.sessionPlayer with
  | none => s.throws
  | some player =>
    -- a player that the device has closed has no `session`
    if player ∈ s.players ∧ s.connection player.client = .connected then
      { s with
        loads := s.loads ++
          [⟨player.client, conversion.request, conversion.deviceIP, subtitlesFileResult⟩]
        loading := s.loading ++ [⟨player.client, conversion.request⟩] }
    else s.throws

/-- The callback of `connect`: the receiver is launched. -/
def onConnected (s : CastSession) (request : ℕ) : CastSession :=
  match s.client with
  | none => s.throws
  | some client =>
    if s.connection client = .connected then
      { s with launches := s.launches ++ [⟨client, request⟩] }
    else s.throws

/-- The callback of `launch` with an error: the client is closed. -/
def onLaunchError (s : CastSession) : CastSession :=
  match s.client with
  | none => s.throws
  | some client =>
    if s.connection client = .connecting ∨ s.connection client = .connected then
      { s with client := none }
    else s.throws

/-- The callback of `launch` with a player. -/
def onLaunched (s : CastSession) (launch : CastCallback) : CastSession :=
  -- the player of the request that was launched last, whoever asked
  let s := { s with sessionPlayer := some launch, players := launch :: s.players }
  match s.deviceIP, (s.query launch.request).torrentFile with
  | some deviceIP, some _ =>
    match (s.query launch.request).plan with
    | .load subtitlesFileResult => s.load ⟨launch.request, deviceIP⟩ subtitlesFileResult
    | .convert _ => { s with conversions := s.conversions ++ [⟨launch.request, deviceIP⟩] }
    | .throws => s.throws
  | _, _ => s.throws

/-- The callback of `load`: the volume is set. -/
def onLoaded (s : CastSession) (request : ℕ) : CastSession :=
  if (s.query request).volume then
    match s.client with
    | none => s.throws
    | some client =>
      if (s.query request).muted = true ∧ s.connection client = .connected then s else s.throws
  else s

inductive Event
  | load (query : LoadQuery)
  /-- `/stop`, and the `close` of the processor. -/
  | stop
  | connected (request : ℕ)
  | connectFails (request : ℕ)
  | closed (request : ℕ)
  | launchError (launch : CastCallback)
  | launched (launch : CastCallback)
  /-- The event of the converter: `ready`, or `error` without a result. -/
  | converted (conversion : CastConversion) (result : Option (List Char))
  | converterThrows (conversion : CastConversion)
  | loaded (load : CastCallback)
  | stopped (client : ℕ)
  /-- The device closes a player. -/
  | disconnect (player : CastCallback)
  /-- An answer throws where it is read: it has no application or no status, or is no JSON. -/
  | unreadable (client : ℕ)
deriving DecidableEq, Repr

def next (s : CastSession) (e : Event) : Option CastSession :=
  if s.uncaught then none
  else match e with
  | .load query =>
    some { s with
      requests := s.requests + 1
      query := Function.update s.query s.requests query
      connection := Function.update s.connection s.requests
        (if query.deviceIP = none then .idle else .connecting)
      client := some s.requests
      deviceIP := query.deviceIP }
  | .stop =>
    match s.client, s.sessionPlayer with
    | some client, some player =>
      -- what is thrown here is caught
      if player ∈ s.players ∧ s.connection client = .connected then
        some { s with stops := s.stops ++ [client] }
      else some s
    | _, _ => some s
  | .connected request =>
    if s.connection request = .connecting then
      some (onConnected { s with
        connection := Function.update s.connection request .connected } request)
    else none
  | .connectFails request =>
    if s.connection request = .connecting then some s.throws else none
  | .closed request =>
    if s.connection request = .connected then
      some { s with connection := Function.update s.connection request .closed }
    else none
  | .launchError launch =>
    if launch ∈ s.launches ∧ s.connection launch.client = .connected then
      some { s with launches := s.launches.erase launch }.onLaunchError
    else none
  | .launched launch =>
    if launch ∈ s.launches ∧ s.connection launch.client = .connected then
      some (onLaunched { s with launches := s.launches.erase launch } launch)
    else none
  | .converted conversion result =>
    if conversion ∈ s.conversions then
      some (load { s with conversions := s.conversions.erase conversion } conversion result)
    else none
  | .converterThrows conversion =>
    if conversion ∈ s.conversions then some s.throws else none
  | .loaded load =>
    if load ∈ s.loading ∧ s.connection load.client = .connected then
      some (onLoaded { s with loading := s.loading.erase load } load.request)
    else none
  | .stopped client =>
    if client ∈ s.stops ∧ s.connection client = .connected then
      some { s with stops := s.stops.erase client, sessionPlayer := none, client := none }
    else none
  | .disconnect player =>
    if player ∈ s.players ∧ s.connection player.client = .connected then
      some { s with players := s.players.erase player }
    else none
  | .unreadable client => if s.connection client = .connected then some s.throws else none

/-- The module when it is loaded. -/
def start : CastSession where
  requests := 0
  query _ := ⟨none, none, none, false, false⟩
  connection _ := .idle
  client := none
  sessionPlayer := none
  deviceIP := none
  launches := []
  players := []
  conversions := []
  loading := []
  stops := []
  loads := []
  uncaught := false

def machine : Machine CastSession Event := .ofFun (fun s => s = start) next

/-! ### What is right -/

/-- A media belongs on its own device, with an address that is matched to it. -/
def CastLoad.IsOwn (query : ℕ → LoadQuery) (load : CastLoad) : Prop :=
  load.client = load.request ∧ (query load.request).deviceIP = some load.deviceIP

/-- **Nothing is thrown**, and what has been launched, converted and loaded is each request's own. -/
structure Right (s : CastSession) : Prop where
  uncaught : s.uncaught = false
  launches : ∀ launch ∈ s.launches, launch.client = launch.request
  conversions : ∀ conversion ∈ s.conversions,
    (s.query conversion.request).deviceIP = some conversion.deviceIP
  loads : ∀ load ∈ s.loads, CastLoad.IsOwn s.query load

/-- What each callback must find in the variables of the module. -/
def Guard (s : CastSession) : Event → Prop
  | .connected request => s.client = some request
  | .connectFails _ | .converterThrows _ | .unreadable _ => False
  | .launchError _ => ∃ client, s.client = some client ∧
      (s.connection client = .connecting ∨ s.connection client = .connected)
  | .launched launch => s.deviceIP ≠ none ∧ (s.query launch.request).deviceIP = s.deviceIP ∧
      (s.query launch.request).torrentFile ≠ none ∧ (s.query launch.request).plan ≠ .throws
  | .converted conversion _ => ∃ player ∈ s.players, s.sessionPlayer = some player ∧
      player.client = conversion.request ∧ s.connection player.client = .connected
  | .loaded load => (s.query load.request).volume = false ∨
      ((s.query load.request).muted = true ∧
        ∃ client, s.client = some client ∧ s.connection client = .connected)
  | _ => True

variable {s s' : CastSession}

/-- A session in which a callback has thrown is not right. -/
theorem not_right_throws (s : CastSession) : ¬s.throws.Right :=
  fun h => Bool.noConfusion h.uncaught

/-! ### Callbacks of requests that came -/

/-- Who waits is a request that came. -/
structure Inv (s : CastSession) : Prop where
  launches : ∀ launch ∈ s.launches, launch.request < s.requests
  conversions : ∀ conversion ∈ s.conversions, conversion.request < s.requests
  loads : ∀ load ∈ s.loads, load.request < s.requests
  connecting : ∀ request, s.connection request = .connecting → request < s.requests

/-- A throw leaves what waits as it is. -/
theorem Inv.throws (h : Inv s) : Inv s.throws :=
  ⟨h.launches, h.conversions, h.loads, h.connecting⟩

/-- The load that is sent waits for the request whose media it is. -/
theorem Inv.load (h : Inv s) {conversion : CastConversion} (hrequest : conversion.request < s.requests)
    (subtitlesFileResult : Option (List Char)) : Inv (s.load conversion subtitlesFileResult) := by
  unfold CastSession.load
  cases s.sessionPlayer with
  | none => exact h.throws
  | some player =>
    dsimp only
    split_ifs
    · refine ⟨h.launches, h.conversions, fun load hload => ?_, h.connecting⟩
      rcases List.mem_append.mp hload with hold | hnew
      · exact h.loads load hold
      · rw [List.mem_singleton.mp hnew]
        exact hrequest
    · exact h.throws

/-- The launch that is sent waits for the request that has connected. -/
theorem Inv.onConnected (h : Inv s) {request : ℕ} (hrequest : request < s.requests) :
    Inv (s.onConnected request) := by
  unfold CastSession.onConnected
  cases s.client with
  | none => exact h.throws
  | some client =>
    dsimp only
    split_ifs
    · refine ⟨fun launch hlaunch => ?_, h.conversions, h.loads, h.connecting⟩
      rcases List.mem_append.mp hlaunch with hold | hnew
      · exact h.launches launch hold
      · rw [List.mem_singleton.mp hnew]
        exact hrequest
    · exact h.throws

/-- The close behind a failed launch adds nothing that waits. -/
theorem Inv.onLaunchError (h : Inv s) : Inv s.onLaunchError := by
  unfold CastSession.onLaunchError
  cases s.client with
  | none => exact h.throws
  | some client =>
    dsimp only
    split_ifs
    · exact ⟨h.launches, h.conversions, h.loads, h.connecting⟩
    · exact h.throws

/-- What waits behind a launch, a conversion or a load, is for the request that launched. -/
theorem Inv.onLaunched (h : Inv s) {launch : CastCallback} (hrequest : launch.request < s.requests) :
    Inv (s.onLaunched launch) := by
  have hplayer : Inv { s with sessionPlayer := some launch, players := launch :: s.players } :=
    ⟨h.launches, h.conversions, h.loads, h.connecting⟩
  unfold CastSession.onLaunched
  dsimp only
  split
  · split
    · exact hplayer.load hrequest _
    · refine ⟨h.launches, fun conversion hconversion => ?_, h.loads, h.connecting⟩
      rcases List.mem_append.mp hconversion with hold | hnew
      · exact h.conversions conversion hold
      · rw [List.mem_singleton.mp hnew]
        exact hrequest
    · exact hplayer.throws
  · exact hplayer.throws

/-- The volume that is set behind a load adds nothing that waits. -/
theorem Inv.onLoaded (h : Inv s) (request : ℕ) : Inv (s.onLoaded request) := by
  unfold CastSession.onLoaded
  split_ifs with hvolume
  · cases s.client with
    | none => exact h.throws
    | some client =>
      dsimp only
      split_ifs
      · exact h
      · exact h.throws
  · exact h

/-- Only other connections are connecting after one is not connecting any more. -/
theorem update_eq_connecting_iff {connections : ℕ → CastConnection} {connection : CastConnection}
    (hconnection : connection ≠ .connecting) {request other : ℕ} :
    Function.update connections request connection other = .connecting ↔
      other ≠ request ∧ connections other = .connecting := by
  rcases eq_or_ne other request with rfl | hne
  · rw [Function.update_self]
    exact iff_of_false hconnection fun h => h.1 rfl
  · rw [Function.update_of_ne hne]
    exact (and_iff_right hne).symm

/-- A connection that is not begun does not have to be that of a request that came. -/
theorem Inv.update_connection (h : Inv s) (request : ℕ) {connection : CastConnection}
    (hconnection : connection ≠ .connecting) :
    Inv { s with connection := Function.update s.connection request connection } :=
  ⟨h.launches, h.conversions, h.loads,
    fun other hother => h.connecting other ((update_eq_connecting_iff hconnection).mp hother).2⟩

/-- Nothing happens behind an uncaught exception. -/
theorem next_eq_some {e : Event} (hstep : next s e = some s') : s.uncaught = false := by
  cases huncaught : s.uncaught with
  | false => rfl
  | true =>
    rw [next.eq_def, huncaught, if_pos rfl] at hstep
    cases hstep

/-- **Every callback is one of a request that came**, and each event keeps it so. -/
theorem Inv.of_next (h : Inv s) {e : Event} (hstep : next s e = some s') : Inv s' := by
  have huncaught : ¬s.uncaught = true := Bool.eq_false_iff.mp (next_eq_some hstep)
  rw [next.eq_def, if_neg huncaught] at hstep
  cases e with
  | load query =>
    obtain rfl := Option.some.inj hstep
    -- the new request takes the next number, above all those in use
    refine ⟨fun launch hlaunch => ?_, fun conversion hconversion => ?_, fun load hload => ?_,
      fun request hrequest => ?_⟩
    · exact Nat.lt_succ_of_lt (h.launches launch hlaunch)
    · exact Nat.lt_succ_of_lt (h.conversions conversion hconversion)
    · exact Nat.lt_succ_of_lt (h.loads load hload)
    · rcases eq_or_ne request s.requests with rfl | hne
      · exact Nat.lt_succ_self _
      · exact Nat.lt_succ_of_lt
          (h.connecting request (Function.update_of_ne hne _ s.connection ▸ hrequest))
  | stop =>
    dsimp only at hstep
    split at hstep
    · split_ifs at hstep
      · obtain rfl := Option.some.inj hstep
        exact ⟨h.launches, h.conversions, h.loads, h.connecting⟩
      · exact Option.some.inj hstep ▸ h
    · exact Option.some.inj hstep ▸ h
  | connected request =>
    obtain ⟨hconnecting, rfl⟩ := Machine.of_ite_eq_some hstep
    -- the request's connection is settled first, then its answer runs
    exact (h.update_connection request (by decide)).onConnected (h.connecting request hconnecting)
  | connectFails request =>
    obtain ⟨-, rfl⟩ := Machine.of_ite_eq_some hstep
    exact h.throws
  | closed request =>
    obtain ⟨-, rfl⟩ := Machine.of_ite_eq_some hstep
    exact h.update_connection request (by decide)
  | launchError launch =>
    obtain ⟨-, rfl⟩ := Machine.of_ite_eq_some hstep
    apply Inv.onLaunchError
    exact ⟨fun other hother => h.launches other (List.mem_of_mem_erase hother), h.conversions,
      h.loads, h.connecting⟩
  | launched launch =>
    obtain ⟨⟨hlaunch, -⟩, rfl⟩ := Machine.of_ite_eq_some hstep
    refine Inv.onLaunched ?_ (h.launches launch hlaunch)
    exact ⟨fun other hother => h.launches other (List.mem_of_mem_erase hother), h.conversions,
      h.loads, h.connecting⟩
  | converted conversion result =>
    obtain ⟨hconversion, rfl⟩ := Machine.of_ite_eq_some hstep
    -- a conversion that has ended leaves the list, the others keep their numbers
    have herase : Inv { s with conversions := s.conversions.erase conversion } :=
      ⟨h.launches, fun other hother => h.conversions other (List.mem_of_mem_erase hother), h.loads,
        h.connecting⟩
    exact herase.load (h.conversions conversion hconversion) result
  | converterThrows conversion =>
    obtain ⟨-, rfl⟩ := Machine.of_ite_eq_some hstep
    exact h.throws
  | loaded load =>
    obtain ⟨-, rfl⟩ := Machine.of_ite_eq_some hstep
    apply Inv.onLoaded
    exact ⟨h.launches, h.conversions, h.loads, h.connecting⟩
  | stopped client =>
    obtain ⟨-, rfl⟩ := Machine.of_ite_eq_some hstep
    exact ⟨h.launches, h.conversions, h.loads, h.connecting⟩
  | disconnect player =>
    obtain ⟨-, rfl⟩ := Machine.of_ite_eq_some hstep
    exact ⟨h.launches, h.conversions, h.loads, h.connecting⟩
  | unreadable client =>
    obtain ⟨-, rfl⟩ := Machine.of_ite_eq_some hstep
    exact h.throws

/-- In every run each callback is one of a request that came. -/
theorem machine_inv (h : machine.Reachable s) : Inv s := by
  refine h.invariant ?_ (fun _ _ _ hinv hstep => hinv.of_next hstep)
  rintro _ rfl
  exact ⟨nofun, nofun, nofun, nofun⟩

/-! ### What each callback keeps -/

/-- A load is right if the player of the session is one that is there, over the open connection of
    the request itself, and the address is the request's own. -/
theorem right_load_iff (h : Right s) (conversion : CastConversion)
    (subtitlesFileResult : Option (List Char)) :
    (s.load conversion subtitlesFileResult).Right ↔
      ∃ player ∈ s.players, s.sessionPlayer = some player ∧
        s.connection player.client = .connected ∧ player.client = conversion.request ∧
        (s.query conversion.request).deviceIP = some conversion.deviceIP := by
  unfold CastSession.load
  cases hplayer : s.sessionPlayer with
  | none =>
    refine iff_of_false (not_right_throws s) ?_
    rintro ⟨_, _, hnone, _⟩
    cases hnone
  | some player =>
    dsimp only
    split_ifs with hopen
    · constructor
      · intro hright
        -- the new load goes to the session's player, which must be the request's own
        have hown := hright.loads ⟨player.client, _, _, _⟩
          (List.mem_append.mpr (.inr (List.mem_singleton.mpr rfl)))
        exact ⟨player, hopen.1, rfl, hopen.2, hown.1, hown.2⟩
      · rintro ⟨other, _, hother, _, hclient, hdeviceIP⟩
        obtain rfl := Option.some.inj hother
        refine ⟨h.uncaught, h.launches, h.conversions, fun load hload => ?_⟩
        rcases List.mem_append.mp hload with hold | hnew
        · exact h.loads load hold
        · rw [List.mem_singleton.mp hnew]
          exact ⟨hclient, hdeviceIP⟩
    · refine iff_of_false (not_right_throws s) ?_
      rintro ⟨other, hmem, hother, hconnected, _⟩
      obtain rfl := Option.some.inj hother
      exact hopen ⟨hmem, hconnected⟩

/-- A launch is sent over the connection of the request exactly if the module's client is still that
    of the request. -/
theorem right_onConnected_iff (h : Right s) {request : ℕ}
    (hconnected : s.connection request = .connected) :
    (s.onConnected request).Right ↔ s.client = some request := by
  unfold CastSession.onConnected
  cases hclient : s.client with
  | none => exact iff_of_false (not_right_throws s) nofun
  | some client =>
    dsimp only
    split_ifs with hopen
    · constructor
      · intro hright
        have hown := hright.launches ⟨client, request⟩
          (List.mem_append.mpr (.inr (List.mem_singleton.mpr rfl)))
        exact congrArg some hown
      · intro hown
        refine ⟨h.uncaught, fun launch hlaunch => ?_, h.conversions, h.loads⟩
        rcases List.mem_append.mp hlaunch with hold | hnew
        · exact h.launches launch hold
        · rw [List.mem_singleton.mp hnew]
          exact Option.some.inj hown
    · refine iff_of_false (not_right_throws s) fun hown => hopen ?_
      rw [Option.some.inj hown]
      exact hconnected

/-- An error of a launch throws unless some client of the module can still be closed. -/
theorem right_onLaunchError_iff (h : Right s) :
    s.onLaunchError.Right ↔ ∃ client, s.client = some client ∧
      (s.connection client = .connecting ∨ s.connection client = .connected) := by
  unfold CastSession.onLaunchError
  cases s.client with
  | none =>
    refine iff_of_false (not_right_throws s) ?_
    rintro ⟨_, hnone, _⟩
    cases hnone
  | some client =>
    dsimp only
    split_ifs with hopen
    · exact iff_of_true ⟨h.uncaught, h.launches, h.conversions, h.loads⟩ ⟨client, rfl, hopen⟩
    · refine iff_of_false (not_right_throws s) ?_
      rintro ⟨_, hclient, hconnection⟩
      exact hopen (Option.some.inj hclient ▸ hconnection)

/-- Behind a load the volume is set only if the query says so; then it must say `muted` as well, and
    the client of the module must be connected. -/
theorem right_onLoaded_iff (h : Right s) (request : ℕ) :
    (s.onLoaded request).Right ↔ (s.query request).volume = false ∨
      ((s.query request).muted = true ∧
        ∃ client, s.client = some client ∧ s.connection client = .connected) := by
  unfold CastSession.onLoaded
  split_ifs with hvolume
  · rw [or_iff_right (Bool.not_eq_false _ ▸ hvolume)]
    cases s.client with
    | none =>
      refine iff_of_false (not_right_throws s) ?_
      rintro ⟨_, _, hnone, _⟩
      cases hnone
    | some client =>
      dsimp only
      split_ifs with hopen
      · exact iff_of_true h ⟨hopen.1, client, rfl, hopen.2⟩
      · refine iff_of_false (not_right_throws s) ?_
        rintro ⟨hmuted, _, hclient, hconnection⟩
        exact hopen ⟨hmuted, Option.some.inj hclient ▸ hconnection⟩
  · exact iff_of_true h (.inl (Bool.eq_false_iff.mpr hvolume))

/-- What is done with a player that has been launched is right if the address of the module is still
    the request's own, there is a media to load and its subtitles have a converter. -/
theorem right_onLaunched_iff (h : Right s) {launch : CastCallback}
    (hown : launch.client = launch.request) (hconnected : s.connection launch.client = .connected) :
    (s.onLaunched launch).Right ↔ s.deviceIP ≠ none ∧
      (s.query launch.request).deviceIP = s.deviceIP ∧
      (s.query launch.request).torrentFile ≠ none ∧ (s.query launch.request).plan ≠ .throws := by
  have hplayer (deviceIP : Option (List Char)) : Right { s with
      sessionPlayer := some launch
      players := launch :: s.players
      deviceIP := deviceIP } :=
    ⟨h.uncaught, h.launches, h.conversions, h.loads⟩
  unfold CastSession.onLaunched
  dsimp only
  cases s.deviceIP with
  | none => exact iff_of_false (not_right_throws _) fun hguard => hguard.1 rfl
  | some deviceIP =>
    cases (s.query launch.request).torrentFile with
    | none => exact iff_of_false (not_right_throws _) fun hguard => hguard.2.2.1 rfl
    | some torrentFile =>
      dsimp only
      have hsome : some deviceIP ≠ none := nofun
      have htorrentFile : some torrentFile ≠ none := nofun
      cases (s.query launch.request).plan with
      | load subtitlesFileResult =>
        apply (right_load_iff (hplayer (some deviceIP)) _ _).trans
        constructor
        · rintro ⟨_, _, _, _, _, hmatched⟩
          exact ⟨hsome, hmatched, htorrentFile, nofun⟩
        · rintro ⟨_, hmatched, _, _⟩
          -- the player that the media is loaded on has just been launched
          exact ⟨launch, List.mem_cons_self, rfl, hconnected, hown, hmatched⟩
      | convert subtitlesFile =>
        constructor
        · intro hright
          have hmatched := hright.conversions ⟨launch.request, deviceIP⟩
            (List.mem_append.mpr (.inr (List.mem_singleton.mpr rfl)))
          exact ⟨hsome, hmatched, htorrentFile, nofun⟩
        · rintro ⟨_, hmatched, _, _⟩
          refine ⟨h.uncaught, h.launches, fun conversion hconversion => ?_, h.loads⟩
          rcases List.mem_append.mp hconversion with hold | hnew
          · exact h.conversions conversion hold
          · rw [List.mem_singleton.mp hnew]
            exact hmatched
      | throws => exact iff_of_false (not_right_throws _) fun hguard => hguard.2.2.2 rfl

/-- The requests before a new one have kept their queries. -/
theorem Right.of_load (h : Right s) (hinv : Inv s) (query : LoadQuery)
    {connection : ℕ → CastConnection} {client : Option ℕ} {deviceIP : Option (List Char)} :
    Right { s with
      requests := s.requests + 1
      query := Function.update s.query s.requests query
      connection := connection
      client := client
      deviceIP := deviceIP } := by
  refine ⟨h.uncaught, h.launches, fun conversion hconversion => ?_, fun load hload => ?_⟩
  · have hne : conversion.request ≠ s.requests := (hinv.conversions conversion hconversion).ne
    show (Function.update s.query s.requests query conversion.request).deviceIP = _
    rw [Function.update_of_ne hne]
    exact h.conversions conversion hconversion
  · have hne : load.request ≠ s.requests := (hinv.loads load hload).ne
    obtain ⟨hclient, hdeviceIP⟩ := h.loads load hload
    refine ⟨hclient, ?_⟩
    show (Function.update s.query s.requests query load.request).deviceIP = _
    rw [Function.update_of_ne hne]
    exact hdeviceIP

/-- **What a callback must find** so that everything stays right. -/
theorem guard_exact : machine.ExactGuard (fun _ => True) Guard Right := by
  refine ⟨?_, fun s e s' hreach h hstep => ?_⟩
  · rintro _ rfl
    exact iff_of_true ⟨rfl, nofun, nofun, nofun⟩ trivial
  · have hnext : next s e = some s' := hstep
    have huncaught : ¬s.uncaught = true := Bool.eq_false_iff.mp h.uncaught
    rw [next.eq_def, if_neg huncaught] at hnext
    cases e with
    | load query =>
      obtain rfl := Option.some.inj hnext
      exact iff_of_true (h.of_load (machine_inv hreach) query) trivial
    | stop =>
      refine iff_of_true ?_ trivial
      dsimp only at hnext
      split at hnext
      · split_ifs at hnext
        · obtain rfl := Option.some.inj hnext
          exact ⟨h.uncaught, h.launches, h.conversions, h.loads⟩
        · exact Option.some.inj hnext ▸ h
      · exact Option.some.inj hnext ▸ h
    | connected request =>
      obtain ⟨-, rfl⟩ := Machine.of_ite_eq_some hnext
      have hconnected : Right { s with
          connection := Function.update s.connection request .connected } :=
        ⟨h.uncaught, h.launches, h.conversions, h.loads⟩
      exact right_onConnected_iff hconnected (Function.update_self ..)
    | connectFails request =>
      obtain ⟨-, rfl⟩ := Machine.of_ite_eq_some hnext
      exact iff_of_false (not_right_throws s) id
    | closed request =>
      obtain ⟨-, rfl⟩ := Machine.of_ite_eq_some hnext
      exact iff_of_true ⟨h.uncaught, h.launches, h.conversions, h.loads⟩ trivial
    | launchError launch =>
      obtain ⟨-, rfl⟩ := Machine.of_ite_eq_some hnext
      have herase : Right { s with launches := s.launches.erase launch } :=
        ⟨h.uncaught, fun other hother => h.launches other (List.mem_of_mem_erase hother),
          h.conversions, h.loads⟩
      exact right_onLaunchError_iff herase
    | launched launch =>
      obtain ⟨⟨hlaunch, hconnected⟩, rfl⟩ := Machine.of_ite_eq_some hnext
      have herase : Right { s with launches := s.launches.erase launch } :=
        ⟨h.uncaught, fun other hother => h.launches other (List.mem_of_mem_erase hother),
          h.conversions, h.loads⟩
      exact right_onLaunched_iff herase (h.launches launch hlaunch) hconnected
    | converted conversion result =>
      obtain ⟨hconversion, rfl⟩ := Machine.of_ite_eq_some hnext
      have herase : Right { s with conversions := s.conversions.erase conversion } :=
        ⟨h.uncaught, h.launches,
          fun other hother => h.conversions other (List.mem_of_mem_erase hother), h.loads⟩
      apply (right_load_iff herase conversion result).trans
      constructor
      · rintro ⟨player, hplayer, hsession, hconnected, hclient, _⟩
        exact ⟨player, hplayer, hsession, hclient, hconnected⟩
      · rintro ⟨player, hplayer, hsession, hclient, hconnected⟩
        -- the address was matched when the conversion began
        exact ⟨player, hplayer, hsession, hconnected, hclient, h.conversions conversion hconversion⟩
    | converterThrows conversion =>
      obtain ⟨-, rfl⟩ := Machine.of_ite_eq_some hnext
      exact iff_of_false (not_right_throws s) id
    | loaded load =>
      obtain ⟨-, rfl⟩ := Machine.of_ite_eq_some hnext
      have herase : Right { s with loading := s.loading.erase load } :=
        ⟨h.uncaught, h.launches, h.conversions, h.loads⟩
      exact right_onLoaded_iff herase load.request
    | stopped client =>
      obtain ⟨-, rfl⟩ := Machine.of_ite_eq_some hnext
      exact iff_of_true ⟨h.uncaught, h.launches, h.conversions, h.loads⟩ trivial
    | disconnect player =>
      obtain ⟨-, rfl⟩ := Machine.of_ite_eq_some hnext
      exact iff_of_true ⟨h.uncaught, h.launches, h.conversions, h.loads⟩ trivial
    | unreadable client =>
      obtain ⟨-, rfl⟩ := Machine.of_ite_eq_some hnext
      exact iff_of_false (not_right_throws s) id

/-! ### Requests in turn -/

/-- Some callback of a `/load` waits. -/
def IsLoading (s : CastSession) : Prop :=
  s.launches ≠ [] ∨ s.conversions ≠ [] ∨ s.loading ≠ [] ∨
    ∃ request, s.connection request = .connecting

/-- A `/load` that can be played comes when nothing waits, a `/stop` when no `/load` does; the device
    of a `/load` answers, and stays while it waits. -/
def InTurn (s : CastSession) : Event → Prop
  | .load query => ¬s.IsLoading ∧ s.stops = [] ∧ query.IsPlayable
  | .stop => ¬s.IsLoading
  | .closed request => s.IsLoading → s.client ≠ some request
  | .disconnect player => s.IsLoading → s.client ≠ some player.client
  | .connectFails _ | .converterThrows _ | .unreadable _ => False
  | _ => True

/-- The callbacks that wait. -/
structure Waits (s : CastSession) (launches : List CastCallback) (conversions : List CastConversion)
    (loading : List CastCallback) : Prop where
  launches : s.launches = launches
  conversions : s.conversions = conversions
  loading : s.loading = loading

/-- The request whose client and address are those of the module. -/
structure IsCurrent (s : CastSession) (request : ℕ) : Prop where
  client : s.client = some request
  deviceIP : (s.query request).deviceIP = s.deviceIP
  query : (s.query request).IsPlayable
  stops : s.stops = []

/-- The connections while a `/load` goes on over the one of `request`. -/
structure IsOpen (s : CastSession) (request : ℕ) : Prop where
  connected : s.connection request = .connected
  connecting : ∀ other, s.connection other ≠ .connecting

/-- Where the only `/load` is that goes on. -/
inductive Stage (s : CastSession) : Prop
  | idle (hwaits : s.Waits [] [] []) (hconnecting : ∀ other, s.connection other ≠ .connecting)
  | connecting (request : ℕ) (hcurrent : s.IsCurrent request) (hwaits : s.Waits [] [] [])
      (hconnecting : ∀ other, s.connection other = .connecting ↔ other = request)
  | launching (request : ℕ) (hcurrent : s.IsCurrent request)
      (hwaits : s.Waits [⟨request, request⟩] [] []) (hopen : s.IsOpen request)
  | converting (request : ℕ) (deviceIP : List Char) (hcurrent : s.IsCurrent request)
      (hwaits : s.Waits [] [⟨request, deviceIP⟩] []) (hopen : s.IsOpen request)
      (hplayer : ⟨request, request⟩ ∈ s.players)
      (hsession : s.sessionPlayer = some ⟨request, request⟩)
  | loading (request : ℕ) (hcurrent : s.IsCurrent request)
      (hwaits : s.Waits [] [] [⟨request, request⟩]) (hopen : s.IsOpen request)

/-- Nothing waits that is not loading. -/
theorem Waits.of_not_isLoading (h : ¬s.IsLoading) :
    s.Waits [] [] [] ∧ ∀ other, s.connection other ≠ .connecting := by
  simp only [IsLoading, not_or, not_not, not_exists] at h
  exact ⟨⟨h.1, h.2.1, h.2.2.1⟩, h.2.2.2⟩

/-- The connection of another client is closed. -/
theorem IsOpen.of_closed {request other : ℕ} (h : s.IsOpen request) (hne : request ≠ other) :
    IsOpen { s with connection := Function.update s.connection other .closed } request := by
  refine ⟨?_, fun another hconnecting => ?_⟩
  · show Function.update s.connection other .closed request = .connected
    rw [Function.update_of_ne hne]
    exact h.connected
  · exact h.connecting another ((update_eq_connecting_iff (by decide)).mp hconnecting).2

/-- A `/load` that comes when nothing waits is the one that goes on from here. -/
theorem Stage.of_load (hloading : ¬s.IsLoading) (hstops : s.stops = []) {query : LoadQuery}
    (hquery : query.IsPlayable) {s' : CastSession} (hstep : next s (.load query) = some s') :
    Stage s' := by
  obtain ⟨hwaits, hconnecting⟩ := Waits.of_not_isLoading hloading
  have huncaught : ¬s.uncaught = true := Bool.eq_false_iff.mp (next_eq_some hstep)
  rw [next.eq_def, if_neg huncaught] at hstep
  obtain rfl := Option.some.inj hstep
  have hself : Function.update s.query s.requests query s.requests = query := Function.update_self ..
  refine .connecting s.requests ⟨rfl, ?_, ?_, hstops⟩
    ⟨hwaits.launches, hwaits.conversions, hwaits.loading⟩ fun other => ?_
  · exact congrArg LoadQuery.deviceIP hself
  · show (Function.update s.query s.requests query s.requests).IsPlayable
    rw [hself]
    exact hquery
  · show Function.update s.connection s.requests _ other = _ ↔ _
    rw [if_neg hquery.deviceIP]
    rcases eq_or_ne other s.requests with rfl | hne
    · exact iff_of_true (Function.update_self ..) rfl
    · rw [Function.update_of_ne hne]
      exact iff_of_false (hconnecting other) hne

/-- The client that connects is that of the `/load` that goes on. -/
theorem Stage.of_connected (h : Stage s) {request : ℕ}
    (hconnecting : s.connection request = .connecting) :
    s.client = some request ∧ Stage (onConnected { s with
      connection := Function.update s.connection request .connected } request) := by
  cases h with
  | connecting current hcurrent hwaits hall =>
    obtain rfl := (hall request).mp hconnecting
    have hself : Function.update s.connection request CastConnection.connected request = .connected :=
      Function.update_self ..
    refine ⟨hcurrent.client, ?_⟩
    simp only [onConnected, hcurrent.client, hself, if_true]
    refine .launching request ⟨rfl, hcurrent.deviceIP, hcurrent.query, hcurrent.stops⟩
      ⟨?_, hwaits.conversions, hwaits.loading⟩ ⟨hself, fun other hother => ?_⟩
    · exact congrArg (· ++ [_]) hwaits.launches
    · obtain ⟨hne, hother⟩ := (update_eq_connecting_iff (by decide)).mp hother
      exact hne ((hall other).mp hother)
  | idle _ hnone => exact absurd hconnecting (hnone request)
  | launching _ _ _ hopen => exact absurd hconnecting (hopen.connecting request)
  | converting _ _ _ _ hopen => exact absurd hconnecting (hopen.connecting request)
  | loading _ _ _ hopen => exact absurd hconnecting (hopen.connecting request)

/-- A launch that waits is the one of the stage. -/
theorem Stage.of_launch (h : Stage s) {launch : CastCallback} (hlaunch : launch ∈ s.launches) :
    ∃ request, launch = ⟨request, request⟩ ∧ s.IsCurrent request ∧
      s.Waits [⟨request, request⟩] [] [] ∧ s.IsOpen request := by
  cases h with
  | launching request hcurrent hwaits hopen =>
    rw [hwaits.launches] at hlaunch
    exact ⟨request, List.mem_singleton.mp hlaunch, hcurrent, hwaits, hopen⟩
  | idle hwaits _ => rw [hwaits.launches] at hlaunch; cases hlaunch
  | connecting _ _ hwaits _ => rw [hwaits.launches] at hlaunch; cases hlaunch
  | converting _ _ _ hwaits => rw [hwaits.launches] at hlaunch; cases hlaunch
  | loading _ _ hwaits => rw [hwaits.launches] at hlaunch; cases hlaunch

/-- The launch that waits is over. -/
theorem Waits.erase_launch {request : ℕ} (h : s.Waits [⟨request, request⟩] [] []) :
    s.launches.erase ⟨request, request⟩ = [] := by
  rw [h.launches]
  exact List.erase_cons_head ..

/-- The player that is launched finds the address of its own request, and is converted for or loaded
    on. -/
theorem Stage.of_launched (h : Stage s) {launch : CastCallback} (hlaunch : launch ∈ s.launches) :
    Guard s (.launched launch) ∧
      Stage (onLaunched { s with launches := s.launches.erase launch } launch) := by
  obtain ⟨request, rfl, hcurrent, hwaits, hopen⟩ := h.of_launch hlaunch
  have hquery := hcurrent.query
  refine ⟨⟨hcurrent.deviceIP ▸ hquery.deviceIP, hcurrent.deviceIP, hquery.torrentFile, hquery.plan⟩, ?_⟩
  obtain ⟨deviceIP, hdeviceIP⟩ := Option.ne_none_iff_exists'.mp hquery.deviceIP
  obtain ⟨torrentFile, htorrentFile⟩ := Option.ne_none_iff_exists'.mp hquery.torrentFile
  have hmatched : s.deviceIP = some deviceIP := hcurrent.deviceIP.symm.trans hdeviceIP
  simp only [onLaunched, hmatched, htorrentFile]
  cases hplan : (s.query request).plan with
  | load subtitlesFileResult =>
    simp only [load, List.mem_cons_self, hopen.connected, and_self, if_true]
    refine .loading request ⟨hcurrent.client, hdeviceIP, hquery, hcurrent.stops⟩
      ⟨hwaits.erase_launch, hwaits.conversions, ?_⟩ ⟨hopen.connected, hopen.connecting⟩
    exact congrArg (· ++ [_]) hwaits.loading
  | convert subtitlesFile =>
    refine .converting request deviceIP ⟨hcurrent.client, hdeviceIP, hquery, hcurrent.stops⟩
      ⟨hwaits.erase_launch, ?_, hwaits.loading⟩ ⟨hopen.connected, hopen.connecting⟩
      List.mem_cons_self rfl
    exact congrArg (· ++ [_]) hwaits.conversions
  | throws => exact absurd hplan hquery.plan

/-- A launch that fails finds its own client open, and nothing waits any more. -/
theorem Stage.of_launchError (h : Stage s) {launch : CastCallback} (hlaunch : launch ∈ s.launches) :
    Guard s (.launchError launch) ∧
      Stage (onLaunchError { s with launches := s.launches.erase launch }) := by
  obtain ⟨request, rfl, hcurrent, hwaits, hopen⟩ := h.of_launch hlaunch
  refine ⟨⟨request, hcurrent.client, .inr hopen.connected⟩, ?_⟩
  simp only [onLaunchError, hcurrent.client, hopen.connected, or_true, if_true]
  exact .idle ⟨hwaits.erase_launch, hwaits.conversions, hwaits.loading⟩ hopen.connecting

/-- The subtitles that are converted find the player of their own request. -/
theorem Stage.of_converted (h : Stage s) {conversion : CastConversion}
    (hconversion : conversion ∈ s.conversions) (result : Option (List Char)) :
    Guard s (.converted conversion result) ∧
      Stage (load { s with conversions := s.conversions.erase conversion } conversion result) := by
  cases h with
  | converting request deviceIP hcurrent hwaits hopen hplayer hsession =>
    rw [hwaits.conversions] at hconversion
    obtain rfl := List.mem_singleton.mp hconversion
    refine ⟨⟨_, hplayer, hsession, rfl, hopen.connected⟩, ?_⟩
    simp only [load, hsession, hplayer, hopen.connected, and_self, if_true]
    refine .loading request
      ⟨hcurrent.client, hcurrent.deviceIP, hcurrent.query, hcurrent.stops⟩
      ⟨hwaits.launches, ?_, ?_⟩ ⟨hopen.connected, hopen.connecting⟩
    · show s.conversions.erase _ = []
      rw [hwaits.conversions]
      exact List.erase_cons_head ..
    · exact congrArg (· ++ [_]) hwaits.loading
  | idle hwaits _ => rw [hwaits.conversions] at hconversion; cases hconversion
  | connecting _ _ hwaits _ => rw [hwaits.conversions] at hconversion; cases hconversion
  | launching _ _ hwaits => rw [hwaits.conversions] at hconversion; cases hconversion
  | loading _ _ hwaits => rw [hwaits.conversions] at hconversion; cases hconversion

/-- The load that is answered ends the `/load`; its client is still connected. -/
theorem Stage.of_loaded (h : Stage s) {callback : CastCallback} (hload : callback ∈ s.loading) :
    Guard s (.loaded callback) ∧
      Stage (onLoaded { s with loading := s.loading.erase callback } callback.request) := by
  cases h with
  | loading request hcurrent hwaits hopen =>
    rw [hwaits.loading] at hload
    obtain rfl := List.mem_singleton.mp hload
    have hidle : Stage { s with loading := s.loading.erase ⟨request, request⟩ } := by
      refine .idle ⟨hwaits.launches, hwaits.conversions, ?_⟩ hopen.connecting
      show s.loading.erase _ = []
      rw [hwaits.loading]
      exact List.erase_cons_head ..
    cases hvolume : (s.query request).volume with
    | false =>
      refine ⟨.inl hvolume, ?_⟩
      simp only [onLoaded, hvolume, Bool.false_eq_true, if_false]
      exact hidle
    | true =>
      -- a query with a volume says too whether it is muted, so the client is told
      have hmuted := hcurrent.query.muted hvolume
      refine ⟨.inr ⟨hmuted, request, hcurrent.client, hopen.connected⟩, ?_⟩
      simp only [onLoaded, hvolume, hmuted, hcurrent.client, hopen.connected, and_self, if_true]
      exact hcurrent.client ▸ hidle
  | idle hwaits _ => rw [hwaits.loading] at hload; cases hload
  | connecting _ _ hwaits _ => rw [hwaits.loading] at hload; cases hload
  | launching _ _ hwaits => rw [hwaits.loading] at hload; cases hload
  | converting _ _ _ hwaits => rw [hwaits.loading] at hload; cases hload

/-- Where nothing waits, no `/load` goes on. -/
theorem Stage.of_idle (hloading : ¬s.IsLoading) : Stage s :=
  .idle (Waits.of_not_isLoading hloading).1 (Waits.of_not_isLoading hloading).2

/-- The request of the module's client is not that of another client. -/
theorem IsCurrent.ne {request other : ℕ} (h : s.IsCurrent request) (hother : s.client ≠ some other) :
    request ≠ other := by
  rintro rfl
  exact hother h.client

/-- A `/load` that goes on is not touched by a connection of another client. -/
theorem Stage.of_closed (h : Stage s) {other : ℕ} (hother : s.IsLoading → s.client ≠ some other) :
    Stage { s with connection := Function.update s.connection other .closed } := by
  cases h with
  | idle hwaits hnone =>
    refine .idle ⟨hwaits.launches, hwaits.conversions, hwaits.loading⟩ fun another hconnecting => ?_
    exact hnone another ((update_eq_connecting_iff (by decide)).mp hconnecting).2
  | connecting request hcurrent hwaits hall =>
    -- in every stage of a load the closed connection is another one
    have hloading : s.IsLoading := .inr (.inr (.inr ⟨request, (hall request).mpr rfl⟩))
    refine .connecting request ⟨hcurrent.client, hcurrent.deviceIP, hcurrent.query, hcurrent.stops⟩
      ⟨hwaits.launches, hwaits.conversions, hwaits.loading⟩ fun another => ?_
    apply (update_eq_connecting_iff (by decide)).trans
    rw [hall another, and_iff_right_iff_imp]
    rintro rfl
    exact hcurrent.ne (hother hloading)
  | launching request hcurrent hwaits hopen =>
    have hloading : s.IsLoading := .inl (hwaits.launches ▸ List.cons_ne_nil _ _)
    exact .launching request ⟨hcurrent.client, hcurrent.deviceIP, hcurrent.query, hcurrent.stops⟩
      ⟨hwaits.launches, hwaits.conversions, hwaits.loading⟩
      (hopen.of_closed (hcurrent.ne (hother hloading)))
  | converting request deviceIP hcurrent hwaits hopen hplayer hsession =>
    have hloading : s.IsLoading := .inr (.inl (hwaits.conversions ▸ List.cons_ne_nil _ _))
    exact .converting request deviceIP
      ⟨hcurrent.client, hcurrent.deviceIP, hcurrent.query, hcurrent.stops⟩
      ⟨hwaits.launches, hwaits.conversions, hwaits.loading⟩
      (hopen.of_closed (hcurrent.ne (hother hloading))) hplayer hsession
  | loading request hcurrent hwaits hopen =>
    have hloading : s.IsLoading := .inr (.inr (.inl (hwaits.loading ▸ List.cons_ne_nil _ _)))
    exact .loading request ⟨hcurrent.client, hcurrent.deviceIP, hcurrent.query, hcurrent.stops⟩
      ⟨hwaits.launches, hwaits.conversions, hwaits.loading⟩
      (hopen.of_closed (hcurrent.ne (hother hloading)))

/-- A player that disconnects is not that of the `/load` that goes on. -/
theorem Stage.of_disconnect (h : Stage s) {player : CastCallback}
    (hother : s.IsLoading → s.client ≠ some player.client) :
    Stage { s with players := s.players.erase player } := by
  cases h with
  | idle hwaits hnone => exact .idle ⟨hwaits.launches, hwaits.conversions, hwaits.loading⟩ hnone
  | connecting request hcurrent hwaits hall =>
    exact .connecting request
      ⟨hcurrent.client, hcurrent.deviceIP, hcurrent.query, hcurrent.stops⟩
      ⟨hwaits.launches, hwaits.conversions, hwaits.loading⟩ hall
  | launching request hcurrent hwaits hopen =>
    exact .launching request ⟨hcurrent.client, hcurrent.deviceIP, hcurrent.query, hcurrent.stops⟩
      ⟨hwaits.launches, hwaits.conversions, hwaits.loading⟩ ⟨hopen.connected, hopen.connecting⟩
  | converting request deviceIP hcurrent hwaits hopen hplayer hsession =>
    have hloading : s.IsLoading := .inr (.inl (hwaits.conversions ▸ List.cons_ne_nil _ _))
    have hne : (⟨request, request⟩ : CastCallback) ≠ player := by
      rintro rfl
      exact hother hloading hcurrent.client
    exact .converting request deviceIP
      ⟨hcurrent.client, hcurrent.deviceIP, hcurrent.query, hcurrent.stops⟩
      ⟨hwaits.launches, hwaits.conversions, hwaits.loading⟩ ⟨hopen.connected, hopen.connecting⟩
      ((List.mem_erase_of_ne hne).mpr hplayer) hsession
  | loading request hcurrent hwaits hopen =>
    exact .loading request ⟨hcurrent.client, hcurrent.deviceIP, hcurrent.query, hcurrent.stops⟩
      ⟨hwaits.launches, hwaits.conversions, hwaits.loading⟩ ⟨hopen.connected, hopen.connecting⟩

/-- Where a `/stop` waits for its answer, nothing goes on. -/
theorem Stage.of_stopped (h : Stage s) {client : ℕ} (hstop : client ∈ s.stops) :
    Stage { s with
      stops := s.stops.erase client
      sessionPlayer := none
      client := none } := by
  have hstops : s.stops ≠ [] := List.ne_nil_of_mem hstop
  cases h with
  | idle hwaits hnone => exact .idle ⟨hwaits.launches, hwaits.conversions, hwaits.loading⟩ hnone
  | connecting _ hcurrent => exact absurd hcurrent.stops hstops
  | launching _ hcurrent => exact absurd hcurrent.stops hstops
  | converting _ _ hcurrent => exact absurd hcurrent.stops hstops
  | loading _ hcurrent => exact absurd hcurrent.stops hstops

/-- A `/stop` comes between two of them. -/
theorem Stage.of_stop (hloading : ¬s.IsLoading) (hstep : next s .stop = some s') : Stage s' := by
  have hidle := Stage.of_idle hloading
  have huncaught : ¬s.uncaught = true := Bool.eq_false_iff.mp (next_eq_some hstep)
  rw [next.eq_def, if_neg huncaught] at hstep
  dsimp only at hstep
  split at hstep
  · split_ifs at hstep
    · obtain rfl := Option.some.inj hstep
      exact .of_idle hloading
    · exact Option.some.inj hstep ▸ hidle
  · exact Option.some.inj hstep ▸ hidle

/-- Requests that come in turn keep the stage, and find what they must. -/
theorem Stage.of_next (h : Stage s) {e : Event} (hturn : InTurn s e) (hstep : next s e = some s') :
    Guard s e ∧ Stage s' := by
  -- the lemmas of the stages take the step as it is, the cases below its result
  have hnext := hstep
  have huncaught : ¬s.uncaught = true := Bool.eq_false_iff.mp (next_eq_some hstep)
  rw [next.eq_def, if_neg huncaught] at hnext
  cases e with
  | load query => exact ⟨trivial, .of_load hturn.1 hturn.2.1 hturn.2.2 hstep⟩
  | stop => exact ⟨trivial, .of_stop hturn hstep⟩
  | connected request =>
    obtain ⟨hconnecting, rfl⟩ := Machine.of_ite_eq_some hnext
    exact h.of_connected hconnecting
  | closed request =>
    obtain ⟨-, rfl⟩ := Machine.of_ite_eq_some hnext
    exact ⟨trivial, h.of_closed hturn⟩
  | launchError launch =>
    obtain ⟨⟨hlaunch, -⟩, rfl⟩ := Machine.of_ite_eq_some hnext
    exact h.of_launchError hlaunch
  | launched launch =>
    obtain ⟨⟨hlaunch, -⟩, rfl⟩ := Machine.of_ite_eq_some hnext
    exact h.of_launched hlaunch
  | converted conversion result =>
    obtain ⟨hconversion, rfl⟩ := Machine.of_ite_eq_some hnext
    exact h.of_converted hconversion result
  | loaded load =>
    obtain ⟨⟨hload, -⟩, rfl⟩ := Machine.of_ite_eq_some hnext
    exact h.of_loaded hload
  | stopped client =>
    obtain ⟨⟨hstop, -⟩, rfl⟩ := Machine.of_ite_eq_some hnext
    exact ⟨trivial, h.of_stopped hstop⟩
  | disconnect player =>
    obtain ⟨-, rfl⟩ := Machine.of_ite_eq_some hnext
    exact ⟨trivial, h.of_disconnect hturn⟩
  | connectFails request => exact hturn.elim
  | converterThrows conversion => exact hturn.elim
  | unreadable client => exact hturn.elim

/-- A run of requests in turn meets the guard at every step. -/
theorem runUnder_guard (h : machine.RunUnder (fun _ => True) InTurn s) :
    machine.RunUnder (fun _ => True) Guard s ∧ Stage s := by
  induction h with
  | start hinit _ =>
    refine ⟨.start hinit trivial, ?_⟩
    obtain rfl := hinit
    exact .idle ⟨rfl, rfl, rfl⟩ nofun
  | next _ hturn hstep ih =>
    obtain ⟨hguard, hstage⟩ := ih.2.of_next hturn hstep
    exact ⟨.next ih.1 hguard hstep, hstage⟩

/-- **Each media is loaded on its own device and nothing is thrown** as long as each callback finds
    its own client, player and address in the variables of the module, and no longer; requests that
    come in turn, to devices that answer, leave them so. -/
theorem right_of_turns : machine.ExactGuard (fun _ => True) Guard Right ∧
    ∀ s, machine.RunUnder (fun _ => True) InTurn s → s.uncaught = false ∧
      ∀ load ∈ s.loads, CastLoad.IsOwn s.query load := by
  refine ⟨guard_exact, fun s hrun => ?_⟩
  have hright := guard_exact.runUnder (runUnder_guard hrun).1
  exact ⟨hright.uncaught, hright.loads⟩

/-- A second `/load` comes while the subtitles of the first one are converted: the first media goes
    to the second device, over its own. -/
example : (Machine.runEvents next start
    [.load ⟨some ['a'], some ['x'], some "s.srt".toList, false, false⟩, .connected 0,
      .launched ⟨0, 0⟩, .load ⟨some ['b'], some ['y'], none, false, false⟩, .connected 1,
      .launched ⟨1, 1⟩, .converted ⟨0, ['a']⟩ (some ['v'])]).map CastSession.loads =
    some [⟨1, 1, ['b'], none⟩, ⟨1, 0, ['a'], some ['v']⟩] := by decide

end CastSession

end PopcornTime.Desktop
