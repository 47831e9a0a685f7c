import Mathlib.Tactic.SplitIfs
import PopcornTime.Lib.Machine

namespace PopcornTime.Android

open PopcornTime

/-!
# Android — torrents on Wi-Fi only

With the setting, the session of the torrents is to be paused on any other network.  It is told to
when the network changes and when the main client is connected for the first time; a session that is
started runs.  Changes of the network are broadcast, and what the service is told is queued, so that
both come late.

* `Connectivity.next` — the network, the setting, the receiver, the service and the main client.
* `Connectivity.outcome` — what the session comes to when the queue is empty.
* `Connectivity.guard_exact` — the steps after which it is not what the setting says.
* `Connectivity.paused_of_guard` — and that it is in every run without them.
-/

/-- The type of a network. -/
inductive NetworkType
  | wifi
  | other
deriving DecidableEq, Repr

inductive TorrentServiceAction
  | resume
  | pause
  | stopWatch
deriving DecidableEq, Repr

/-- What is posted to the service. -/
inductive ServiceMessage
  | startCommand (action : Option TorrentServiceAction)
  | destroy
deriving DecidableEq, Repr

namespace TorrentService

/-- `onStartCommand`: there is a session afterwards, and whether it is paused. -/
def onStartCommand (session : Option Bool) : Option TorrentServiceAction → Bool
  | some .resume => false
  | some .pause => true
  -- a session that is started here runs
  | some .stopWatch | none => session.getD false

/-- The session of the service, and whether it is paused, after a message. -/
def onMessage (session : Option Bool) : ServiceMessage → Option Bool
  | .startCommand action => some (onStartCommand session action)
  | .destroy => none

end TorrentService

/-- The network that is connected, the setting, the broadcasts that have not been received, the
    main client that has not been connected yet, and the service. -/
structure Connectivity where
  activeNetwork : Option NetworkType
  isDownloadsWifiOnly : Bool
  broadcasts : ℕ
  binding : Bool
  messages : List ServiceMessage
  session : Option Bool

namespace Connectivity

def startService (s : Connectivity) (action : Option TorrentServiceAction) : Connectivity :=
  { s with messages := s.messages ++ [.startCommand action] }

/-- Whether the session is to be paused on a network. -/
def pauses (s : Connectivity) (network : NetworkType) : Bool :=
  s.isDownloadsWifiOnly && network != .wifi

/-- `checkWifiConnection` -/
def checkWifiConnection (s : Connectivity) : Connectivity :=
  match s.activeNetwork with
  | some network => s.startService (some (if s.pauses network then .pause else .resume))
  | none => s

inductive Event
  | connectivity (network : Option NetworkType)
  | receive
  | setDownloadsWifiOnly (wifiOnly : Bool)
  /-- The main activity starts the service and binds its client. -/
  | create
  | clientConnected
  /-- The main activity goes; with other clients the service stays. -/
  | destroyActivity (otherClients : Bool)
  | stopWatch
  /-- The last client is gone, and the service is not to run any more. -/
  | bringDown
  | deliver
  /-- The process ends. -/
  | kill
  /-- The system starts the service again, without an action. -/
  | sticky
deriving DecidableEq, Repr

def next (s : Connectivity) : Event → Option Connectivity
  | .connectivity network =>
    some { s with activeNetwork := network, broadcasts := s.broadcasts + 1 }
  -- the receiver runs later, and reads the network as it is then
  | .receive =>
    if s.broadcasts ≠ 0 then
      some { s with broadcasts := s.broadcasts - 1 }.checkWifiConnection
    else none
  | .setDownloadsWifiOnly wifiOnly => some { s with isDownloadsWifiOnly := wifiOnly }
  | .create => some { s.startService none with binding := true }
  -- a binding that was dropped does not connect any more
  | .clientConnected =>
    if s.binding then some { s with binding := false }.checkWifiConnection else none
  | .destroyActivity otherClients =>
    let s := { s with binding := false }
    some (if otherClients then s else { s with messages := s.messages ++ [.destroy] })
  | .stopWatch => some (s.startService (some .stopWatch))
  | .bringDown => some { s with messages := s.messages ++ [.destroy] }
  | .deliver =>
    match s.messages with
    | message :: messages => some { s with
        messages := messages
        session := TorrentService.onMessage s.session message }
    | [] => none
  -- the preferences, the network and the broadcasts to come outlive the process
  | .kill => some { s with binding := false, messages := [], session := none }
  | .sticky => some (s.startService none)

/-- Before the application is started for the first time. -/
def init (s : Connectivity) : Prop := s.binding = false ∧ s.messages = [] ∧ s.session = none

def machine : Machine Connectivity Event := .ofFun init next

/-! ### What the session comes to -/

/-- The session when everything that is posted has been delivered. -/
def outcome (s : Connectivity) : Option Bool :=
  s.messages.foldl TorrentService.onMessage s.session

/-- The connection is still to be checked. -/
def IsPending (s : Connectivity) : Prop := s.broadcasts ≠ 0 ∨ s.binding = true

/-- **The setting is kept**: unless the connection is still to be checked, the session comes to what
    the setting says of the network. -/
def Kept (s : Connectivity) : Prop :=
  s.IsPending ∨ ∀ network paused, s.activeNetwork = some network → s.outcome = some paused →
    paused = s.pauses network

variable {s s' : Connectivity}

theorem outcome_startService (s : Connectivity) (action : Option TorrentServiceAction) :
    (s.startService action).outcome = some (TorrentService.onStartCommand s.outcome action) := by
  unfold outcome startService
  rw [List.foldl_append]
  rfl

theorem outcome_destroy (s : Connectivity) :
    outcome { s with messages := s.messages ++ [.destroy] } = none := by
  unfold outcome
  rw [List.foldl_append]
  rfl

/-- What is delivered has been reckoned with. -/
theorem outcome_deliver {message : ServiceMessage} {messages : List ServiceMessage}
    (h : s.messages = message :: messages) :
    outcome { s with
      messages := messages
      session := TorrentService.onMessage s.session message } = s.outcome := by
  unfold outcome
  rw [h, List.foldl_cons]

/-- A check sets it right. -/
theorem kept_checkWifiConnection (s : Connectivity) : s.checkWifiConnection.Kept := by
  right
  intro network paused hnetwork houtcome
  cases hactive : s.activeNetwork with
  | none =>
    rw [checkWifiConnection, hactive] at hnetwork
    exact absurd (hactive.symm.trans hnetwork) nofun
  | some active =>
    rw [checkWifiConnection, hactive] at hnetwork houtcome ⊢
    dsimp only at hnetwork houtcome ⊢
    obtain rfl : active = network := Option.some.inj (hactive.symm.trans hnetwork)
    rw [outcome_startService] at houtcome
    obtain rfl := Option.some.inj houtcome
    show _ = s.pauses active
    cases s.pauses active with
    | true => rfl
    | false => rfl

/-- A service that is started without a check: the session runs if there was none. -/
theorem kept_startService_iff {action : Option TorrentServiceAction}
    (haction : ∀ session, TorrentService.onStartCommand session action = session.getD false)
    (h : s.Kept) :
    (s.startService action).Kept ↔
      s.IsPending ∨ s.outcome ≠ none ∨ s.activeNetwork ≠ some .other ∨
        s.isDownloadsWifiOnly = false := by
  have hkept : (s.startService action).Kept ↔ s.IsPending ∨
      ∀ network paused, s.activeNetwork = some network →
        some (s.outcome.getD false) = some paused → paused = s.pauses network := by
    unfold Kept
    rw [outcome_startService, haction]
    rfl
  rw [hkept]
  by_cases hpending : s.IsPending
  · exact iff_of_true (.inl hpending) (.inl hpending)
  rw [or_iff_right hpending, or_iff_right hpending]
  -- no message is pending, so what is said of the session holds now
  have hbefore := h.resolve_left hpending
  cases houtcome : s.outcome with
  | some paused =>
    refine iff_of_true ?_ (.inl nofun)
    intro network paused' hnetwork heq
    obtain rfl := Option.some.inj heq
    exact hbefore network paused hnetwork houtcome
  | none =>
    rw [or_iff_right (not_not.mpr rfl)]
    constructor
    · intro hall
      -- a new session is not paused: wrong on another network with the wifi setting
      by_cases hother : s.activeNetwork = some .other
      · have hpauses := hall .other false hother rfl
        rw [pauses] at hpauses
        right
        cases hwifiOnly : s.isDownloadsWifiOnly with
        | false => rfl
        | true =>
          rw [hwifiOnly] at hpauses
          exact absurd hpauses (by decide)
      · exact .inl hother
    · rintro hright network paused hnetwork heq
      obtain rfl : false = paused := Option.some.inj heq
      rw [pauses]
      cases network with
      | wifi => rw [show (NetworkType.wifi != .wifi) = false from rfl, Bool.and_false]
      | other =>
        rcases hright with hne | hfalse
        · exact absurd hnetwork hne
        · rw [hfalse, Bool.false_and]

/-- Another setting is kept where it makes no difference. -/
theorem kept_setDownloadsWifiOnly_iff (h : s.Kept) (wifiOnly : Bool) :
    Kept { s with isDownloadsWifiOnly := wifiOnly } ↔
      s.IsPending ∨ s.outcome = none ∨ s.activeNetwork ≠ some .other ∨
        wifiOnly = s.isDownloadsWifiOnly := by
  have hkept : Kept { s with isDownloadsWifiOnly := wifiOnly } ↔ s.IsPending ∨
      ∀ network paused, s.activeNetwork = some network → s.outcome = some paused →
        paused = (wifiOnly && network != .wifi) := Iff.rfl
  rw [hkept]
  by_cases hpending : s.IsPending
  · exact iff_of_true (.inl hpending) (.inl hpending)
  rw [or_iff_right hpending, or_iff_right hpending]
  have hbefore := h.resolve_left hpending
  constructor
  · intro hall
    cases houtcome : s.outcome with
    | none => exact .inl rfl
    | some paused =>
      refine .inr ?_
      -- the setting matters on a network that is not wifi
      by_cases hother : s.activeNetwork = some .other
      · have hold := hbefore .other paused hother houtcome
        have hnew := hall .other paused hother houtcome
        rw [pauses] at hold
        have hne : (NetworkType.other != .wifi) = true := rfl
        rw [hne, Bool.and_true] at hold hnew
        exact .inr (hnew.symm.trans hold)
      · exact .inl hother
  · rintro hright network paused hnetwork houtcome
    have hold := hbefore network paused hnetwork houtcome
    rw [pauses] at hold
    rcases hright with hnone | hne | rfl
    · exact absurd (hnone.symm.trans houtcome) nofun
    · cases network with
      | wifi =>
        have hsame : (NetworkType.wifi != .wifi) = false := rfl
        rw [hsame, Bool.and_false] at hold ⊢
        exact hold
      | other => exact absurd hnetwork hne
    · exact hold

theorem kept_of_outcome_none (h : s.outcome = none) : s.Kept := by
  right
  intro network paused _ houtcome
  exact absurd (h.symm.trans houtcome) nofun

/-- The steps that keep the setting: it is not changed on another network, the service is not
    started there without a session, and the main client is connected if the service stays,
    unless it makes no difference or the connection is still to be checked. -/
def Guard (s : Connectivity) : Event → Prop
  | .setDownloadsWifiOnly wifiOnly => s.IsPending ∨ s.outcome = none ∨
      s.activeNetwork ≠ some .other ∨ wifiOnly = s.isDownloadsWifiOnly
  | .stopWatch | .sticky => s.IsPending ∨ s.outcome ≠ none ∨ s.activeNetwork ≠ some .other ∨
      s.isDownloadsWifiOnly = false
  | .destroyActivity otherClients => otherClients = false ∨ s.binding = false ∨ s.broadcasts ≠ 0 ∨
      ∀ network paused, s.activeNetwork = some network → s.outcome = some paused →
        paused = s.pauses network
  | _ => True

theorem guard_exact : machine.ExactGuard (fun _ => True) Guard Kept where
  init_iff := by
    rintro s ⟨-, hmessages, hsession⟩
    refine iff_of_true (kept_of_outcome_none ?_) trivial
    rw [outcome, hmessages, hsession]
    rfl
  step_iff := by
    intro s e s' _ h hstep
    cases e with
    | connectivity network =>
      obtain rfl := Option.some.inj hstep
      exact iff_of_true (.inl (.inl (Nat.succ_ne_zero _))) trivial
    | receive =>
      obtain ⟨-, rfl⟩ := Machine.of_ite_eq_some hstep
      exact iff_of_true (kept_checkWifiConnection _) trivial
    | setDownloadsWifiOnly wifiOnly =>
      obtain rfl := Option.some.inj hstep
      exact kept_setDownloadsWifiOnly_iff h wifiOnly
    | create =>
      obtain rfl := Option.some.inj hstep
      exact iff_of_true (.inl (.inr rfl)) trivial
    | clientConnected =>
      obtain ⟨-, rfl⟩ := Machine.of_ite_eq_some hstep
      exact iff_of_true (kept_checkWifiConnection _) trivial
    | destroyActivity otherClients =>
      obtain rfl := Option.some.inj hstep
      cases otherClients with
      | false => exact iff_of_true (kept_of_outcome_none (outcome_destroy _)) (.inl rfl)
      | true =>
        -- the client that was to check the connection is gone
        show (s.broadcasts ≠ 0 ∨ false = true) ∨ _ ↔ _
        have hstays : ¬true = false := nofun
        rw [or_iff_left Bool.false_ne_true, Guard, or_iff_right hstays]
        constructor
        · exact .inr
        · rintro (hbinding | hright)
          · rcases h with (hbroadcasts | htrue) | hall
            · exact .inl hbroadcasts
            · exact absurd (hbinding.symm.trans htrue) Bool.false_ne_true
            · exact .inr hall
          · exact hright
    | stopWatch =>
      obtain rfl := Option.some.inj hstep
      exact kept_startService_iff (fun _ => rfl) h
    | bringDown =>
      obtain rfl := Option.some.inj hstep
      exact iff_of_true (kept_of_outcome_none (outcome_destroy _)) trivial
    | deliver =>
      have hnext : next s .deliver = some s' := hstep
      cases hmessages : s.messages with
      | nil => simp [next, hmessages] at hnext
      | cons message messages =>
        rw [next, hmessages] at hnext
        obtain rfl := Option.some.inj hnext
        refine iff_of_true ?_ trivial
        rcases h with hpending | hall
        · exact .inl hpending
        · right
          intro network paused hnetwork houtcome
          rw [outcome_deliver hmessages] at houtcome
          exact hall network paused hnetwork houtcome
    | kill =>
      obtain rfl := Option.some.inj hstep
      exact iff_of_true (kept_of_outcome_none rfl) trivial
    | sticky =>
      obtain rfl := Option.some.inj hstep
      exact kept_startService_iff (fun _ => rfl) h

/-- **The session is paused as the setting says** whenever nothing is on its way, in every run whose
    steps meet the guard; and a step that does not meet it leads away from the setting. -/
theorem paused_of_guard : machine.ExactGuard (fun _ => True) Guard Kept ∧
    ∀ s, machine.RunUnder (fun _ => True) Guard s → ¬s.IsPending → s.messages = [] →
      ∀ network paused, s.activeNetwork = some network → s.session = some paused →
        paused = (s.isDownloadsWifiOnly && network != .wifi) := by
  refine ⟨guard_exact, fun s hrun hpending hmessages network paused hnetwork hsession => ?_⟩
  apply (guard_exact.runUnder hrun).resolve_left hpending network paused hnetwork
  rw [outcome, hmessages, hsession]
  rfl

/-- The setting is made on a mobile network: the session goes on until the network changes. -/
example : (Machine.runEvents next ⟨some .other, false, 0, false, [], none⟩
    [.create, .deliver, .clientConnected, .deliver, .setDownloadsWifiOnly true]).map
      (fun s => (s.session, s.messages, s.broadcasts)) = some (some false, [], 0) := by decide

end Connectivity

end PopcornTime.Android
