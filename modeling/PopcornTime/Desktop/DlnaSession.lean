import Mathlib.Data.List.Nodup
import Mathlib.Tactic.SplitIfs
import PopcornTime.Lib.Machine

namespace PopcornTime.Desktop

open PopcornTime

/-!
# Desktop casting — how the dlna processor finds its device

Most commands of the processor are callbacks of `getClient`, which searches the network for the device
of the request while there is no client.  A search hears from every renderer that is there.  What it
finds is remembered in `Device.devices` for as long as the process runs, and only what is not there
yet is told of.

* `DlnaSession.next` — the commands, and the answers of the network.
* `DlnaSession.Right` — each callback has its own query and its own device.
* `DlnaSession.answered_of_new` — when that is so, and that no device is ever found twice.
-/

/-- The query of a request, as far as `getClient` reads it. -/
structure DlnaQuery where
  deviceIP : Option (List Char)
deriving DecidableEq, Repr

/-- The commands, by what they do with the client. -/
inductive DlnaCommand
  | load
  /-- `/play`, `/pause`, `/stop`, `/seek`, `/mediaState` and `/subtitles`. -/
  | withClient
  /-- `/mute`, `/volume`, `/deviceState` and `/fontSize`. -/
  | other
deriving DecidableEq, Repr

/-- A callback of `getClient` that is called: the request that it comes from, the one whose query it
    reads, and the device. -/
structure DlnaCall where
  request : ℕ
  query : ℕ
  deviceIP : List Char
deriving DecidableEq, Repr

/-- The module, with the `devices` that searches have found.  Requests, and the browsers that they
    start, are told by how many requests came before; `query` is the one that the variable is of. -/
structure DlnaSession where
  requests : ℕ
  queries : ℕ → DlnaQuery
  query : ℕ
  devices : List (List Char)
  client : Option (List Char)
  deviceIP : Option (List Char)
  searching : ℕ → Bool
  /-- The browsers that a description is fetched for. -/
  fetching : List ℕ
  calls : List DlnaCall

namespace DlnaSession

/-- The callback of a request is called. -/
def call (s : DlnaSession) (request : ℕ) (deviceIP : List Char) : DlnaSession :=
  { s with calls := s.calls ++ [⟨request, s.query, deviceIP⟩] }

/-- `getClient` with the callback of a request. -/
def getClient (s : DlnaSession) (request : ℕ) : DlnaSession :=
  match s.client with
  | some deviceIP => s.call request deviceIP
  | none =>
    { s with
      deviceIP := (s.queries s.query).deviceIP
      searching := Function.update s.searching request true }

/-- A request has come, and the variable `query` is its. -/
def came (s : DlnaSession) (query : DlnaQuery) : DlnaSession :=
  { s with
    requests := s.requests + 1
    queries := Function.update s.queries s.requests query
    query := s.requests }

/-- `processCommand`, up to the callbacks. -/
def processCommand (s : DlnaSession) (command : DlnaCommand) (query : DlnaQuery) : DlnaSession :=
  match command with
  | .load => { s.came query with client := none }.getClient s.requests
  | .withClient => (s.came query).getClient s.requests
  | .other => s.came query

/-- The `deviceOn` of a browser: a device that is wanted becomes the client. -/
def deviceOn (s : DlnaSession) (browser : ℕ) (ip : List Char) : DlnaSession :=
  if some ip = s.deviceIP then
    call { s with
      searching := Function.update s.searching browser false
      client := some ip } browser ip
  else s

/-- The end of `getDeviceInfo`, with the host of the description; there is none if the request failed
    or the description has no name. -/
def found (s : DlnaSession) (browser : ℕ) : Option (List Char) → DlnaSession
  | none => s
  | some ip =>
    if ip ∈ s.devices then s else { s with devices := s.devices ++ [ip] }.deviceOn browser ip

/-- A renderer has answered a search, and its description is asked for. -/
def heard (s : DlnaSession) (browser : ℕ) : DlnaSession :=
  { s with fetching := s.fetching ++ [browser] }

/-- The description is there, or is not to be had. -/
def fetched (s : DlnaSession) (browser : ℕ) : DlnaSession :=
  { s with fetching := s.fetching.erase browser }

inductive Event
  | command (command : DlnaCommand) (query : DlnaQuery)
  /-- A renderer answers a search. -/
  | response (browser : ℕ)
  | fetched (browser : ℕ) (ip : Option (List Char))
  | timeout (browser : ℕ)
deriving DecidableEq, Repr

def next (s : DlnaSession) : Event → Option DlnaSession
  | .command command query => some (s.processCommand command query)
  | .response browser =>
    if s.searching browser = true then some (s.heard browser) else none
  | .fetched browser ip =>
    if browser ∈ s.fetching then some ((s.fetched browser).found browser ip) else none
  | .timeout browser =>
    some { s with searching := Function.update s.searching browser false }

/-- The module when it is loaded. -/
def start : DlnaSession where
  requests := 0
  queries _ := ⟨none⟩
  query := 0
  devices := []
  client := none
  deviceIP := none
  searching _ := false
  fetching := []
  calls := []

def machine : Machine DlnaSession Event := .ofFun (fun s => s = start) next

/-! ### What is right -/

/-- A callback has the query and the device of its own request. -/
def DlnaCall.IsOwn (queries : ℕ → DlnaQuery) (call : DlnaCall) : Prop :=
  call.query = call.request ∧ (queries call.request).deviceIP = some call.deviceIP

def Right (s : DlnaSession) : Prop := ∀ call ∈ s.calls, DlnaCall.IsOwn s.queries call

/-- A client is used for its own device, and a device is found while no later command has come. -/
def Guard (s : DlnaSession) : Event → Prop
  | .command .withClient query => s.client = none ∨ query.deviceIP = s.client
  | .fetched browser (some ip) => ip ∉ s.devices → some ip = s.deviceIP → s.query = browser
  | _ => True

variable {s s' : DlnaSession}

/-! ### What every run keeps -/

/-- Who searches is a request that came; the address that is wanted is that of the last command if it
    still searches. -/
structure Inv (s : DlnaSession) : Prop where
  nodup : s.devices.Nodup
  calls : ∀ call ∈ s.calls, call.request < s.requests
  searching : ∀ browser, s.searching browser = true → browser < s.requests
  fetching : ∀ browser ∈ s.fetching, browser < s.requests
  wanted : ∀ browser, s.searching browser = true ∨ browser ∈ s.fetching → s.query = browser →
    s.deviceIP = (s.queries browser).deviceIP

/-- A callback is called for a request that came. -/
theorem Inv.call (h : Inv s) {request : ℕ} (hrequest : request < s.requests) (ip : List Char) :
    Inv (s.call request ip) := by
  refine ⟨h.nodup, fun call hcall => ?_, h.searching, h.fetching, h.wanted⟩
  rcases List.mem_append.mp hcall with hold | hnew
  · exact h.calls call hold
  · rw [List.mem_singleton.mp hnew]
    exact hrequest

/-- Without a client the request starts its search. -/
theorem Inv.getClient (h : Inv s) {request : ℕ} (hrequest : request < s.requests) :
    Inv (s.getClient request) := by
  unfold DlnaSession.getClient
  split
  · exact h.call hrequest _
  · refine ⟨h.nodup, h.calls, fun browser hbrowser => ?_, h.fetching, fun browser _ hquery => ?_⟩
    · rcases eq_or_ne browser request with rfl | hne
      · exact hrequest
      · exact h.searching browser (Function.update_of_ne hne true s.searching ▸ hbrowser)
    · exact congrArg (fun query => (s.queries query).deviceIP) hquery

/-- A browser that stops searching. -/
theorem Inv.stop (h : Inv s) (browser : ℕ) :
    Inv { s with searching := Function.update s.searching browser false } := by
  have hold (other : ℕ) (hother : Function.update s.searching browser false other = true) :
      s.searching other = true := by
    rcases eq_or_ne other browser with rfl | hne
    · rw [Function.update_self] at hother
      cases hother
    · exact Function.update_of_ne hne false s.searching ▸ hother
  refine ⟨h.nodup, h.calls, fun other hother => h.searching other (hold other hother), h.fetching, ?_⟩
  exact fun other hother => h.wanted other (hother.imp_left (hold other))

/-- A device is remembered once. -/
theorem Inv.found (h : Inv s) {browser : ℕ} (hbrowser : browser < s.requests)
    (ip : Option (List Char)) : Inv (s.found browser ip) := by
  fun_cases DlnaSession.found s browser ip with
  | case1 => exact h
  | case2 ip hmem => exact h
  | case3 ip hmem =>
    have hnodup : (s.devices ++ [ip]).Nodup :=
      List.nodup_append.mpr ⟨h.nodup, List.nodup_singleton ip, fun _ hold _ hnew heq =>
        hmem (List.mem_singleton.mp hnew ▸ heq ▸ hold)⟩
    have hdevices : Inv { s with devices := s.devices ++ [ip] } :=
      ⟨hnodup, h.calls, h.searching, h.fetching, h.wanted⟩
    unfold DlnaSession.deviceOn
    split_ifs
    · have hclient : Inv { s with
          devices := s.devices ++ [ip]
          searching := Function.update s.searching browser false
          client := some ip } := by
        have hstop := hdevices.stop browser
        exact ⟨hstop.nodup, hstop.calls, hstop.searching, hstop.fetching, hstop.wanted⟩
      exact hclient.call hbrowser ip
    · exact hdevices

/-- A command that has come: no browser of an earlier one is of the query in the variable. -/
theorem Inv.of_query (h : Inv s) (query : DlnaQuery) (client : Option (List Char)) : Inv { s with
    requests := s.requests + 1
    queries := Function.update s.queries s.requests query
    query := s.requests
    client := client } := by
  refine ⟨h.nodup, fun call hcall => ?_, fun browser hbrowser => ?_, fun browser hbrowser => ?_,
    fun browser hbrowser hquery => ?_⟩
  · exact Nat.lt_succ_of_lt (h.calls call hcall)
  · exact Nat.lt_succ_of_lt (h.searching browser hbrowser)
  · exact Nat.lt_succ_of_lt (h.fetching browser hbrowser)
  · have hlt : browser < s.requests := hbrowser.elim (h.searching browser) (h.fetching browser)
    exact absurd hquery (Nat.ne_of_gt hlt)

/-- A command keeps the invariant. -/
theorem Inv.processCommand (h : Inv s) (command : DlnaCommand) (query : DlnaQuery) :
    Inv (s.processCommand command query) := by
  cases command with
  | load => exact (h.of_query query none).getClient (Nat.lt_succ_self _)
  | withClient => exact (h.of_query query s.client).getClient (Nat.lt_succ_self _)
  | other => exact h.of_query query s.client

/-- **One event** keeps the invariant. -/
theorem Inv.of_next (h : Inv s) {e : Event} (hstep : next s e = some s') : Inv s' := by
  cases e with
  | command command query => exact Option.some.inj hstep ▸ h.processCommand command query
  | response browser =>
    obtain ⟨hsearching, rfl⟩ := Machine.of_ite_eq_some hstep
    have hold (other : ℕ) (hother : other ∈ s.fetching ++ [browser]) :
        s.searching other = true ∨ other ∈ s.fetching := by
      rcases List.mem_append.mp hother with hmem | hnew
      · exact .inr hmem
      · exact .inl (List.mem_singleton.mp hnew ▸ hsearching)
    refine ⟨h.nodup, h.calls, h.searching, fun other hother => ?_, fun other hother => ?_⟩
    · exact (hold other hother).elim (h.searching other) (h.fetching other)
    · exact h.wanted other (hother.elim .inl (hold other))
  | fetched browser ip =>
    obtain ⟨hfetching, rfl⟩ := Machine.of_ite_eq_some hstep
    have herase : Inv { s with fetching := s.fetching.erase browser } :=
      ⟨h.nodup, h.calls, h.searching,
        fun other hother => h.fetching other (List.mem_of_mem_erase hother),
        fun other hother => h.wanted other (hother.imp_right List.mem_of_mem_erase)⟩
    exact herase.found (h.fetching browser hfetching) ip
  | timeout browser => exact Option.some.inj hstep ▸ h.stop browser

/-- **Every run** keeps the invariant. -/
theorem machine_inv (h : machine.Reachable s) : Inv s := by
  refine h.invariant ?_ (fun _ _ _ hinv hstep => hinv.of_next hstep)
  rintro _ rfl
  exact ⟨List.nodup_nil, nofun, nofun, nofun, nofun⟩

/-! ### What each event keeps -/

/-- A callback is right if the query in the variable is its own, and the device that of its
    query. -/
theorem right_call_iff (h : Right s) (request : ℕ) (ip : List Char) :
    (s.call request ip).Right ↔
      s.query = request ∧ (s.queries request).deviceIP = some ip := by
  constructor
  · intro hright
    exact hright ⟨request, s.query, ip⟩ (List.mem_append.mpr (.inr (List.mem_singleton.mpr rfl)))
  · intro hown call hcall
    rcases List.mem_append.mp hcall with hold | hnew
    · exact h call hold
    · rw [List.mem_singleton.mp hnew]
      exact hown

/-- The callbacks of earlier requests have kept their queries. -/
theorem Right.of_query (h : Right s) (hinv : Inv s) (query : DlnaQuery)
    (client : Option (List Char)) : Right { s with
      requests := s.requests + 1
      queries := Function.update s.queries s.requests query
      query := s.requests
      client := client } := by
  intro call hcall
  have hne : call.request ≠ s.requests := Nat.ne_of_lt (hinv.calls call hcall)
  obtain ⟨hquery, hdeviceIP⟩ := h call hcall
  refine ⟨hquery, ?_⟩
  show (Function.update s.queries s.requests query call.request).deviceIP = _
  rw [Function.update_of_ne hne]
  exact hdeviceIP

/-- A `getClient` that searches calls nothing. -/
theorem right_getClient_of_none (h : Right s) (hclient : s.client = none) (request : ℕ) :
    (s.getClient request).Right := by
  unfold getClient
  rw [hclient]
  exact h

/-- A command calls at once only where there is a client. -/
theorem right_processCommand_iff (h : Right s) (hinv : Inv s) (command : DlnaCommand)
    (query : DlnaQuery) :
    (s.processCommand command query).Right ↔ Guard s (.command command query) := by
  cases command with
  | load =>
    exact iff_of_true (right_getClient_of_none (h.of_query hinv query none) rfl s.requests) trivial
  | other => exact iff_of_true (h.of_query hinv query s.client) trivial
  | withClient =>
    have hquery : (s.came query).Right := h.of_query hinv query s.client
    show ((s.came query).getClient s.requests).Right ↔ (s.client = none ∨ query.deviceIP = s.client)
    cases hclient : s.client with
    | none =>
      have hnone : (s.came query).client = none := hclient
      exact iff_of_true (right_getClient_of_none hquery hnone s.requests) (.inl rfl)
    | some ip =>
      -- the client that is there is used, whatever device the query names
      have hcall : (s.came query).getClient s.requests = (s.came query).call s.requests ip := by
        have hsome : (s.came query).client = some ip := hclient
        rw [getClient, hsome]
      rw [hcall]
      apply (right_call_iff hquery s.requests ip).trans
      have hself : Function.update s.queries s.requests query s.requests = query :=
        Function.update_self ..
      show s.requests = s.requests ∧
        (Function.update s.queries s.requests query s.requests).deviceIP = some ip ↔ _
      rw [hself, and_iff_right rfl]
      exact (or_iff_right (Option.some_ne_none ip)).symm

/-- A device is told of where it is new and wanted. -/
theorem right_found_iff (h : Right s) (browser : ℕ) (ip : List Char)
    (hwanted : s.query = browser → s.deviceIP = (s.queries browser).deviceIP) :
    (s.found browser (some ip)).Right ↔
      (ip ∉ s.devices → some ip = s.deviceIP → s.query = browser) := by
  unfold found deviceOn
  dsimp only
  split_ifs with hmem hdeviceIP
  · exact iff_of_true h fun hnot => absurd hmem hnot
  · have hclient : Right { s with
        devices := s.devices ++ [ip]
        searching := Function.update s.searching browser false
        client := some ip } := h
    apply (right_call_iff hclient browser ip).trans
    constructor
    · exact fun hown _ _ => hown.1
    · intro hguard
      have hquery := hguard hmem hdeviceIP
      exact ⟨hquery, (hwanted hquery).symm.trans hdeviceIP.symm⟩
  · exact iff_of_true h fun _ heq => absurd heq hdeviceIP

/-- **When a callback is called with its own query and its own device.** -/
theorem guard_exact : machine.ExactGuard (fun _ => True) Guard Right := by
  refine ⟨?_, fun s e s' hreach h hstep => ?_⟩
  · rintro _ rfl
    exact iff_of_true nofun trivial
  · have hinv := machine_inv hreach
    cases e with
    | command command query =>
      obtain rfl := Option.some.inj hstep
      exact right_processCommand_iff h hinv command query
    | response browser =>
      obtain ⟨-, rfl⟩ := Machine.of_ite_eq_some hstep
      exact iff_of_true h trivial
    | fetched browser ip =>
      obtain ⟨hfetching, rfl⟩ := Machine.of_ite_eq_some hstep
      cases ip with
      | none => exact iff_of_true h trivial
      | some ip =>
        have herase : Right { s with fetching := s.fetching.erase browser } := h
        exact right_found_iff herase browser ip (hinv.wanted browser (.inr hfetching))
    | timeout browser =>
      obtain rfl := Option.some.inj hstep
      exact iff_of_true h trivial

/-! ### Devices that have been found -/

/-- A callback is called with a device that had not been found. -/
theorem found_spec (browser : ℕ) (ip : Option (List Char)) :
    (∀ device ∈ s.devices, device ∈ (s.found browser ip).devices) ∧
    ∀ call ∈ (s.found browser ip).calls, call ∈ s.calls ∨ call.deviceIP ∉ s.devices := by
  fun_cases DlnaSession.found s browser ip with
  | case1 => exact ⟨fun _ hdevice => hdevice, fun _ hcall => .inl hcall⟩
  | case2 ip hmem => exact ⟨fun _ hdevice => hdevice, fun _ hcall => .inl hcall⟩
  | case3 ip hmem =>
    unfold deviceOn
    split_ifs
    · refine ⟨fun _ hdevice => List.mem_append_left _ hdevice, fun call hcall => ?_⟩
      rcases List.mem_append.mp hcall with hold | hnew
      · exact .inl hold
      · rw [List.mem_singleton.mp hnew]
        exact .inr hmem
    · exact ⟨fun _ hdevice => List.mem_append_left _ hdevice, fun _ hcall => .inl hcall⟩

/-- `getClient` calls its own callback only. -/
theorem getClient_spec (request : ℕ) : (s.getClient request).requests = s.requests ∧
    (s.getClient request).devices = s.devices ∧
    ∀ call ∈ (s.getClient request).calls, call ∈ s.calls ∨ call.request = request := by
  unfold getClient
  split
  · refine ⟨rfl, rfl, fun call hcall => ?_⟩
    rcases List.mem_append.mp hcall with hold | hnew
    · exact .inl hold
    · rw [List.mem_singleton.mp hnew]
      exact .inr rfl
  · exact ⟨rfl, rfl, fun _ hcall => .inl hcall⟩

/-- No request comes by a device. -/
theorem found_requests (browser : ℕ) (ip : Option (List Char)) :
    (s.found browser ip).requests = s.requests := by
  fun_cases DlnaSession.found s browser ip with
  | case1 => rfl
  | case2 => rfl
  | case3 ip hmem =>
    unfold deviceOn
    split_ifs
    · rfl
    · rfl

/-- **What a step does**: devices stay found, and a callback of an earlier request is called with one
    that had not been found. -/
theorem next_spec {e : Event} (hstep : next s e = some s') : s.requests ≤ s'.requests ∧
    (∀ device ∈ s.devices, device ∈ s'.devices) ∧
    ∀ call ∈ s'.calls, call ∈ s.calls ∨ s.requests ≤ call.request ∨ call.deviceIP ∉ s.devices := by
  cases e with
  | command command query =>
    obtain rfl := Option.some.inj hstep
    cases command with
    | other => exact ⟨Nat.le_succ _, fun _ hdevice => hdevice, fun _ hcall => .inl hcall⟩
    | load =>
      exact ⟨Nat.le_succ _, fun _ hdevice => hdevice, fun _ hcall => .inl hcall⟩
    | withClient =>
      obtain ⟨hrequests, hdevices, hcalls⟩ := (s.came query).getClient_spec s.requests
      refine ⟨?_, fun device hdevice => ?_, fun call hcall => ?_⟩
      · exact hrequests ▸ Nat.le_succ s.requests
      · exact hdevices ▸ hdevice
      · exact (hcalls call hcall).imp_right fun hrequest => .inl (Nat.le_of_eq hrequest.symm)
  | response browser =>
    obtain ⟨-, rfl⟩ := Machine.of_ite_eq_some hstep
    exact ⟨Nat.le_refl _, fun _ hdevice => hdevice, fun _ hcall => .inl hcall⟩
  | fetched browser ip =>
    obtain ⟨-, rfl⟩ := Machine.of_ite_eq_some hstep
    obtain ⟨hdevices, hcalls⟩ := (s.fetched browser).found_spec browser ip
    refine ⟨?_, hdevices, fun call hcall => (hcalls call hcall).imp_right .inr⟩
    exact Nat.le_of_eq ((s.fetched browser).found_requests browser ip).symm
  | timeout browser =>
    obtain rfl := Option.some.inj hstep
    exact ⟨Nat.le_refl _, fun _ hdevice => hdevice, fun _ hcall => .inl hcall⟩

/-- A `/load` of a device that has been found is never answered on it. -/
theorem not_mem_devices_of_call {s₀ : DlnaSession} {request : ℕ} (hrequest : request < s₀.requests)
    (hnone : ∀ call ∈ s₀.calls, call.request ≠ request) (h : (machine.goingOn s₀).Reachable s)
    {call : DlnaCall} (hcall : call ∈ s.calls) (hown : call.request = request) :
    call.deviceIP ∉ s₀.devices := by
  have hkept : request < s.requests ∧ (∀ device ∈ s₀.devices, device ∈ s.devices) ∧
      ∀ call ∈ s.calls, call.request = request → call.deviceIP ∉ s₀.devices := by
    refine h.goingOn_invariant (I := fun s => request < s.requests ∧
      (∀ device ∈ s₀.devices, device ∈ s.devices) ∧
      ∀ call ∈ s.calls, call.request = request → call.deviceIP ∉ s₀.devices) ?_ ?_
    · exact ⟨hrequest, fun _ hdevice => hdevice, fun call hcall hown => absurd hown (hnone call hcall)⟩
    · rintro s e s' ⟨hlt, hdevices, hcalls⟩ hstep
      obtain ⟨hrequests, hstay, hnew⟩ := next_spec hstep
      refine ⟨Nat.lt_of_lt_of_le hlt hrequests,
        fun device hdevice => hstay device (hdevices device hdevice), fun call hcall hown => ?_⟩
      rcases hnew call hcall with hold | hlater | hfresh
      · exact hcalls call hold hown
      · exact absurd (hown ▸ hlater) (Nat.not_le.mpr hlt)
      · exact fun hdevice => hfresh (hdevices _ hdevice)
  exact hkept.2.2 call hcall hown

/-- A device that is new and wanted is found: the callback of its search is called with it. -/
theorem mem_calls_found {browser : ℕ} {ip : List Char} (hnew : ip ∉ s.devices)
    (hwanted : s.deviceIP = some ip) :
    ⟨browser, s.query, ip⟩ ∈ (s.found browser (some ip)).calls := by
  unfold found deviceOn
  dsimp only
  rw [if_neg hnew, if_pos hwanted.symm]
  exact List.mem_append.mpr (.inr (List.mem_singleton.mpr rfl))

/-- A `/load` of a device that has not been found is answered if its renderer answers first. -/
theorem exists_call_of_load (query : DlnaQuery) {ip : List Char} (hdeviceIP : query.deviceIP = some ip)
    (hnew : ip ∉ s.devices) :
    ∃ s', (machine.goingOn (s.processCommand .load query)).Reachable s' ∧
      ∃ call ∈ s'.calls, call.request = s.requests ∧ call.deviceIP = ip := by
  -- the request searches for the address of its query
  have hsearching : (s.processCommand .load query).searching s.requests = true :=
    Function.update_self ..
  have hwanted : (s.processCommand .load query).deviceIP = some ip := by
    show (Function.update s.queries s.requests query s.requests).deviceIP = some ip
    rw [Function.update_self]
    exact hdeviceIP
  have hheard : next (s.processCommand .load query) (.response s.requests) =
      some ((s.processCommand .load query).heard s.requests) := if_pos hsearching
  have hmem : s.requests ∈ ((s.processCommand .load query).heard s.requests).fetching :=
    List.mem_append.mpr (.inr (List.mem_singleton.mpr rfl))
  have hfetched : next ((s.processCommand .load query).heard s.requests)
      (.fetched s.requests (some ip)) = some ((((s.processCommand .load query).heard
        s.requests).fetched s.requests).found s.requests (some ip)) := if_pos hmem
  exact ⟨_, Machine.Reachable.next (.next (.start rfl) hheard) hfetched,
    ⟨s.requests, s.requests, ip⟩, mem_calls_found hnew hwanted, rfl, rfl⟩

/-- **Devices that are new.**  A callback is called with its own query and its own device exactly as
    long as the guard is met.  No device is found twice in a run, and a `/load` can be answered on its
    device exactly if no search has found that before. -/
theorem answered_of_new : machine.ExactGuard (fun _ => True) Guard Right ∧
    ∀ s, machine.Reachable s → s.devices.Nodup ∧
      ∀ query ip, query.deviceIP = some ip →
        ((∃ s', (machine.goingOn (s.processCommand .load query)).Reachable s' ∧
          ∃ call ∈ s'.calls, call.request = s.requests ∧ call.deviceIP = ip) ↔ ip ∉ s.devices) := by
  refine ⟨guard_exact, fun s hreach => ⟨(machine_inv hreach).nodup, fun query ip hdeviceIP => ?_⟩⟩
  constructor
  · rintro ⟨s', hreach', call, hcall, hrequest, rfl⟩
    have hnone (call : DlnaCall) (hcall : call ∈ (s.processCommand .load query).calls) :
        call.request ≠ s.requests := Nat.ne_of_lt ((machine_inv hreach).calls call hcall)
    exact not_mem_devices_of_call (Nat.lt_succ_self s.requests) hnone hreach' hcall hrequest
  · exact exists_call_of_load query hdeviceIP

/-- The second `/load` of a device is heard, and not answered. -/
example : (Machine.runEvents next start
    [.command .load ⟨some ['a']⟩, .response 0, .fetched 0 (some ['a']), .command .load ⟨some ['a']⟩,
      .response 1, .fetched 1 (some ['a'])]).map (fun s => (s.client, s.calls)) =
    some (none, [⟨0, 0, ['a']⟩]) := by decide

end DlnaSession

end PopcornTime.Desktop
