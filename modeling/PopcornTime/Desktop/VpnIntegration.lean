import Mathlib.Data.List.Infix
import PopcornTime.Lib.LineReads
import PopcornTime.Lib.Machine
import PopcornTime.Desktop.NjsProcess

namespace PopcornTime.Desktop

open PopcornTime

/-!
# Desktop — the commands of the VPN client

`TVpnIntegrationServer` listens on a local socket for the lines of the VPN client.  Each
`readyRead` of the socket runs `onSocketReadyRead`, which leaves its loop behind a status line or a
line it does not know, and takes what has arrived of a line for the whole of it.

* `TVpnIntegrationServer.onSocketReadyRead` — the slot, for one client, with what it emits and
  writes.
* `vpnLines` — the slot as a reader of lines, and `Follows.onSocketReadyRead`: it is that.
* `VpnRun.answered_of_guard` — when the lines are answered one by one, however they are cut.
-/

/-- The bytes of a text in the source. -/
def latin1 (text : String) : QByteArray :=
  text.toList.map (fun c => UInt8.ofNat c.toNat)

def VPN_STATUS_CONNECTED : QByteArray := latin1 "Connected"
def VPN_STATUS_DISCONNECTED : QByteArray := latin1 "Disconnected"
def VPN_STATUS_ACKNOWLEDGED : QByteArray := latin1 "Acknowledged"

def VPN_COMMAND_CONNECT : QByteArray := latin1 "Connect"
def VPN_COMMAND_DISCONNECT : QByteArray := latin1 "Disconnect"
def VPN_COMMAND_STATUS : QByteArray := latin1 "Status"

/-- `'\n'` -/
def lineFeed : UInt8 := 0x0A

/-- The signals of the server. -/
inductive VpnSignal
  | connectCommand
  | disconnectCommand
deriving DecidableEq, Repr

/-! ### The server -/

/-- `TVpnIntegrationServer` with one client: what has arrived on its socket and not been read, what
    has been written to it, and the signals emitted. -/
structure TVpnIntegrationServer where
  connected : Bool
  bytesAvailable : QByteArray
  written : List QByteArray
  emitted : List VpnSignal

namespace TVpnIntegrationServer

def sendMessage (s : TVpnIntegrationServer) (data : QByteArray) : TVpnIntegrationServer :=
  { s with written := s.written ++ [data ++ [lineFeed]] }

def sendStatus (s : TVpnIntegrationServer) : TVpnIntegrationServer :=
  s.sendMessage (if s.connected then VPN_STATUS_CONNECTED else VPN_STATUS_DISCONNECTED)

/-- `onServerConnect`: the client is told the status. -/
def onServerConnect (connected : Bool) : TVpnIntegrationServer :=
  sendStatus { connected := connected, bytesAvailable := [], written := [], emitted := [] }

/-- `emit` -/
def emitSignal (s : TVpnIntegrationServer) (signal : VpnSignal) : TVpnIntegrationServer :=
  { s with emitted := s.emitted ++ [signal] }

/-- The loop of `onSocketReadyRead`, as long as there is `fuel`. -/
def readLoop : ℕ → TVpnIntegrationServer → TVpnIntegrationServer
  | 0, s => s
  | fuel + 1, s =>
    if s.bytesAvailable = [] then s
    else
      let (line, rest) := LineReads.readLine lineFeed s.bytesAvailable
      let s := { s with bytesAvailable := rest }
      -- this branch returns, and what is left waits for the next signal
      if VPN_COMMAND_STATUS <:+: line then s.sendStatus
      else if VPN_COMMAND_CONNECT <:+: line then
        readLoop fuel ((s.emitSignal .connectCommand).sendMessage VPN_STATUS_ACKNOWLEDGED)
      else if VPN_COMMAND_DISCONNECT <:+: line then
        readLoop fuel ((s.emitSignal .disconnectCommand).sendMessage VPN_STATUS_ACKNOWLEDGED)
      -- an unknown line ends the loop as well
      else s

/-- `onSocketReadyRead`; every turn of its loop reads a byte at least. -/
def onSocketReadyRead (s : TVpnIntegrationServer) : TVpnIntegrationServer :=
  s.readLoop s.bytesAvailable.length

end TVpnIntegrationServer

/-! ### The slot as a reader of lines -/

/-- What a line is answered with. -/
inductive VpnAnswer
  | status
  | connect
  | disconnect
deriving DecidableEq, Repr

namespace VpnAnswer

def signal? : VpnAnswer → Option VpnSignal
  | status => none
  | connect => some .connectCommand
  | disconnect => some .disconnectCommand

/-- What is written back. -/
def reply (connected : Bool) : VpnAnswer → QByteArray
  | status => (if connected then VPN_STATUS_CONNECTED else VPN_STATUS_DISCONNECTED) ++ [lineFeed]
  | connect | disconnect => VPN_STATUS_ACKNOWLEDGED ++ [lineFeed]

end VpnAnswer

/-- The command in a line, if there is one. -/
def vpnAnswer (line : QByteArray) : Option VpnAnswer :=
  if VPN_COMMAND_STATUS <:+: line then some .status
  else if VPN_COMMAND_CONNECT <:+: line then some .connect
  else if VPN_COMMAND_DISCONNECT <:+: line then some .disconnect
  else none

/-- The loop goes on behind these two commands only. -/
def vpnLines : LineReader UInt8 VpnAnswer where
  sep := lineFeed
  answer := vpnAnswer
  goesOn := fun line =>
    decide (vpnAnswer line = some .connect ∨ vpnAnswer line = some .disconnect)

/-- The server has done what the answers of the reader say. -/
structure Follows (connected : Bool) (s : TVpnIntegrationServer)
    (taken : LineReader.State UInt8 VpnAnswer) : Prop where
  connected_eq : s.connected = connected
  unread : s.bytesAvailable = taken.unread
  emitted : s.emitted = (LineReader.answers taken).filterMap VpnAnswer.signal?
  written : s.written = (TVpnIntegrationServer.onServerConnect connected).written ++
    (LineReader.answers taken).map (VpnAnswer.reply connected)

variable {connected : Bool} {s : TVpnIntegrationServer}
  {taken : LineReader.State UInt8 VpnAnswer}

/-- One line is answered. -/
theorem Follows.take (h : Follows connected s taken) (s' : TVpnIntegrationServer)
    {line : QByteArray} (hconnected : s'.connected = s.connected)
    (hemitted : s'.emitted = s.emitted ++ (vpnAnswer line).toList.filterMap VpnAnswer.signal?)
    (hwritten : s'.written =
      s.written ++ (vpnAnswer line).toList.map (VpnAnswer.reply connected)) :
    Follows connected s' (vpnLines.take { taken with unread := s'.bytesAvailable } line) where
  connected_eq := hconnected.trans h.connected_eq
  unread := (LineReader.unread_take (R := vpnLines)
    (s := { taken with unread := s'.bytesAvailable }) line).symm
  emitted := by
    rw [LineReader.answers_take, List.filterMap_append, hemitted, h.emitted]
    rfl
  written := by
    rw [LineReader.answers_take, List.map_append, hwritten, h.written, List.append_assoc]
    rfl

theorem Follows.takeStatus (h : Follows connected s taken) {line : QByteArray}
    (hanswer : vpnAnswer line = some .status) (rest : QByteArray) :
    Follows connected (TVpnIntegrationServer.sendStatus { s with bytesAvailable := rest })
      (vpnLines.take { taken with unread := rest } line) := by
  refine h.take (TVpnIntegrationServer.sendStatus { s with bytesAvailable := rest }) rfl ?_ ?_
  · rw [hanswer]
    exact (List.append_nil s.emitted).symm
  · rw [hanswer, ← h.connected_eq]
    rfl

/-- A command has one signal and one message. -/
theorem Follows.takeCommand (h : Follows connected s taken) {line : QByteArray}
    {answer : VpnAnswer} {signal : VpnSignal} (hanswer : vpnAnswer line = some answer)
    (hsignal : answer.signal? = some signal)
    (hreply : answer.reply connected = VPN_STATUS_ACKNOWLEDGED ++ [lineFeed])
    (rest : QByteArray) :
    Follows connected
      ((TVpnIntegrationServer.emitSignal { s with bytesAvailable := rest } signal).sendMessage
        VPN_STATUS_ACKNOWLEDGED)
      (vpnLines.take { taken with unread := rest } line) := by
  refine h.take ((TVpnIntegrationServer.emitSignal { s with bytesAvailable := rest }
    signal).sendMessage VPN_STATUS_ACKNOWLEDGED) rfl ?_ ?_
  · rw [hanswer, Option.toList_some, List.filterMap_cons_some hsignal]
    rfl
  · rw [hanswer, Option.toList_some, List.map_singleton, hreply]
    rfl

theorem Follows.takeNone (h : Follows connected s taken) {line : QByteArray}
    (hanswer : vpnAnswer line = none) (rest : QByteArray) :
    Follows connected { s with bytesAvailable := rest }
      (vpnLines.take { taken with unread := rest } line) := by
  refine h.take { s with bytesAvailable := rest } rfl ?_ ?_
  · rw [hanswer]
    exact (List.append_nil s.emitted).symm
  · rw [hanswer]
    exact (List.append_nil s.written).symm

/-- **The slot is the reader**, turn by turn. -/
theorem Follows.readLoop (h : Follows connected s taken) (fuel : ℕ) :
    Follows connected (s.readLoop fuel) (vpnLines.loop fuel taken) := by
  induction fuel generalizing s taken with
  | zero => exact h
  | succ fuel ih =>
    by_cases hunread : taken.unread = []
    · rw [TVpnIntegrationServer.readLoop, if_pos (h.unread.trans hunread),
        LineReader.loop_nil _ hunread]
      exact h
    rw [TVpnIntegrationServer.readLoop, if_neg (by rw [h.unread]; exact hunread),
      LineReader.loop_succ _ hunread, h.unread]
    dsimp only
    generalize hread : LineReads.readLine lineFeed taken.unread = read
    rw [show LineReads.readLine vpnLines.sep taken.unread = read from hread]
    obtain ⟨line, rest⟩ := read
    dsimp only
    by_cases hstatus : VPN_COMMAND_STATUS <:+: line
    · -- a status line ends the loop
      have hanswer : vpnAnswer line = some .status := if_pos hstatus
      rw [if_pos hstatus, if_neg (by simp [vpnLines, hanswer])]
      exact h.takeStatus hanswer rest
    by_cases hconnect : VPN_COMMAND_CONNECT <:+: line
    · have hanswer : vpnAnswer line = some .connect := by
        rw [vpnAnswer, if_neg hstatus, if_pos hconnect]
      rw [if_neg hstatus, if_pos hconnect, if_pos (by simp [vpnLines, hanswer])]
      exact ih (h.takeCommand hanswer rfl rfl rest)
    by_cases hdisconnect : VPN_COMMAND_DISCONNECT <:+: line
    · have hanswer : vpnAnswer line = some .disconnect := by
        rw [vpnAnswer, if_neg hstatus, if_neg hconnect, if_pos hdisconnect]
      rw [if_neg hstatus, if_neg hconnect, if_pos hdisconnect,
        if_pos (by simp [vpnLines, hanswer])]
      exact ih (h.takeCommand hanswer rfl rfl rest)
    · -- so does a line that is no command
      have hanswer : vpnAnswer line = none := by
        rw [vpnAnswer, if_neg hstatus, if_neg hconnect, if_neg hdisconnect]
      rw [if_neg hstatus, if_neg hconnect, if_neg hdisconnect,
        if_neg (by simp [vpnLines, hanswer])]
      exact h.takeNone hanswer rest

theorem Follows.onSocketReadyRead (h : Follows connected s taken) (chunk : QByteArray) :
    Follows connected
      ({ s with bytesAvailable := s.bytesAvailable ++ chunk } : TVpnIntegrationServer).onSocketReadyRead
      (vpnLines.read taken chunk) := by
  have harrived : Follows connected { s with bytesAvailable := s.bytesAvailable ++ chunk }
      { taken with unread := taken.unread ++ chunk } :=
    ⟨h.connected_eq, by rw [h.unread], h.emitted, h.written⟩
  have hloop := harrived.readLoop (s.bytesAvailable ++ chunk).length
  unfold TVpnIntegrationServer.onSocketReadyRead LineReader.read
  rw [h.unread] at hloop ⊢
  exact hloop

/-! ### Runs -/

/-- A run of the server: all bytes the client's socket has received, and which lines the server has
    taken of them. -/
structure VpnRun where
  server : TVpnIntegrationServer
  arrived : QByteArray
  taken : LineReader.State UInt8 VpnAnswer

namespace VpnRun

/-- The client connects. -/
def start (connected : Bool) : VpnRun where
  server := TVpnIntegrationServer.onServerConnect connected
  arrived := []
  taken := LineReader.start

/-- A `readyRead` with the bytes that have come since the last one. -/
def next (s : VpnRun) (chunk : QByteArray) : Option VpnRun :=
  if chunk ≠ [] then
    some
      { server := ({ s.server with bytesAvailable := s.server.bytesAvailable ++ chunk } :
          TVpnIntegrationServer).onSocketReadyRead
        arrived := s.arrived ++ chunk
        taken := vpnLines.read s.taken chunk }
  else none

def machine (connected : Bool) : Machine VpnRun QByteArray :=
  Machine.ofFun (fun s => s = start connected) next

/-- The invariant of a run. -/
structure Inv (connected : Bool) (s : VpnRun) : Prop where
  follows : Follows connected s.server s.taken
  received : LineReader.received s.taken = s.arrived
  taken : vpnLines.Inv s.taken
  torn : s.taken.torn ≠ [] → s.taken.unread = []

/-- Every line is answered for itself: those taken as whole ones, and where the stream stands behind
    a line end no command is left unread. -/
def LineByLine (s : VpnRun) : Prop :=
  vpnLines.Right s.taken

/-- Where the client has written whole lines, the signals and the messages written back are those of
    the lines, in order. -/
def Answered (connected : Bool) (s : VpnRun) : Prop :=
  LineReads.AtLineEnd lineFeed s.arrived →
    s.server.emitted = ((LineReads.lines lineFeed s.arrived).filterMap vpnAnswer).filterMap
      VpnAnswer.signal? ∧
    s.server.written = (TVpnIntegrationServer.onServerConnect connected).written ++
      ((LineReads.lines lineFeed s.arrived).filterMap vpnAnswer).map (VpnAnswer.reply connected)

/-- The condition of a `readyRead`: if it ends a line of which a part has been taken for the whole,
    the answers to the parts are the answer to the line; and if it ends a line at all, no command
    stands behind the first line that ends the loop. -/
def Guard (s : VpnRun) (chunk : QByteArray) : Prop :=
  vpnLines.Guard s.taken chunk

variable {r r' : VpnRun}

theorem Inv.next (h : Inv connected r) {chunk : QByteArray} (hstep : r.next chunk = some r') :
    chunk ≠ [] ∧ r'.taken = vpnLines.read r.taken chunk ∧ Inv connected r' := by
  obtain ⟨hne, rfl⟩ := Machine.of_ite_eq_some hstep
  obtain ⟨htaken, htorn⟩ := h.taken.read chunk
  refine ⟨hne, rfl, h.follows.onSocketReadyRead chunk, ?_, htaken, htorn⟩
  rw [LineReader.received_read, h.received]

theorem inv_of_reachable (h : (machine connected).Reachable r) : Inv connected r := by
  refine Machine.Reachable.invariant (I := Inv connected) ?_ ?_ h
  · rintro s rfl
    exact ⟨⟨rfl, rfl, rfl, by simp [start, LineReader.answers, LineReader.start]⟩, rfl,
      LineReader.inv_start vpnLines, fun _ => rfl⟩
  · intro s chunk s' hinv hstep
    exact (hinv.next hstep).2.2

theorem guard_exact (connected : Bool) :
    (machine connected).ExactGuard (fun _ => True) Guard LineByLine where
  init_iff := by
    rintro s rfl
    refine iff_of_true ⟨?_, ?_⟩ trivial
    · simp [start, LineReader.start, LineReader.LogRight]
    · simp [start, LineReader.start]
  step_iff := by
    intro s chunk s' hreach hright hstep
    obtain ⟨hne, htaken, -⟩ := (inv_of_reachable hreach).next hstep
    unfold LineByLine Guard
    rw [htaken]
    exact LineReader.right_read_iff (inv_of_reachable hreach).taken hright hne

/-- Lines that are answered for themselves are answered in order. -/
theorem LineByLine.answered (h : r.LineByLine) (hinv : Inv connected r) : r.Answered connected := by
  intro hend
  rw [← hinv.received] at hend
  have hanswers := LineReader.Right.answers_eq h hinv.taken hinv.torn hend
  rw [hinv.received] at hanswers
  exact ⟨hinv.follows.emitted.trans (congrArg _ hanswers),
    hinv.follows.written.trans (congrArg _ (congrArg _ hanswers))⟩

/-- **The commands of the VPN client.**  In every run of guarded reads, wherever the client has
    written whole lines, each of them has been answered once and in order; and the guard is exact:
    a read that breaks it answers a line wrongly, or leaves a command unread. -/
theorem answered_of_guard (connected : Bool) :
    (∀ s, (machine connected).RunUnder (fun _ => True) Guard s → s.Answered connected) ∧
    (machine connected).ExactGuard (fun _ => True) Guard LineByLine :=
  ⟨fun _ hrun => LineByLine.answered ((guard_exact connected).runUnder hrun)
    (inv_of_reachable hrun.reachable), guard_exact connected⟩

/-- Reads of whole lines whose signals are not those of the lines. -/
theorem exists_not_answered (reads : List QByteArray) {text : QByteArray}
    (signals : List VpnSignal)
    (hrun : (Machine.runEvents next (start connected) reads).map
      (fun s => (s.arrived, s.server.emitted)) = some (text, signals))
    (hend : text.getLast? = some lineFeed)
    (hne : signals ≠ ((LineReads.lines lineFeed text).filterMap vpnAnswer).filterMap
      VpnAnswer.signal?) :
    ∃ s, (machine connected).Reachable s ∧ s.arrived = text ∧ ¬s.Answered connected := by
  obtain ⟨s, hreach, heq⟩ := Machine.Reachable.exists_of_runEvents
    (show (machine connected).Reachable _ from .start rfl) hrun
  simp only [Prod.mk.injEq] at heq
  obtain ⟨rfl, rfl⟩ := heq
  exact ⟨s, hreach, rfl, fun h => hne (h (Or.inr hend)).1⟩

/-- A status line and a command in one read: the command stays unread.  A command in two reads:
    neither part is one. -/
theorem command_lost :
    (∃ s, (machine true).Reachable s ∧ s.arrived = latin1 "Status\nConnect\n" ∧
      ¬s.Answered true) ∧
    ∃ s, (machine true).Reachable s ∧ s.arrived = latin1 "Connect\n" ∧ ¬s.Answered true :=
  ⟨exists_not_answered [latin1 "Status\nConnect\n"] []
      (by decide +kernel) (by decide +kernel) (by decide +kernel),
    exists_not_answered [latin1 "Con", latin1 "nect\n"] []
      (by decide +kernel) (by decide +kernel) (by decide +kernel)⟩

end VpnRun

end PopcornTime.Desktop
