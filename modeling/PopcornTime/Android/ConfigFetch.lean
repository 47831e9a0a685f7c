import PopcornTime.Android.Config
import PopcornTime.Lib.Attempts
import PopcornTime.Lib.Machine

namespace PopcornTime.Android

open PopcornTime

/-!
# Android configuration — fetching the remote one

`getRemoteConfig()` asks the urls of the configuration one after the other: a request that fails
makes the next one in its callback.  `disposable` is the request that was assigned last, which is
not the one in flight where a request has failed before its `subscribe` returned.

* `ConfigFetch.next` — calls, and responses to the requests in flight.
* `ConfigFetch.Right` — one request is in flight at most, and a call that is left alone asks the urls
  in order until one answers.
* `ConfigFetch.fetchRight_of_guard` — the runs that keep it.
-/

abbrev ConfigRequest := Attempt (Option String) Config

/-- A call with nothing in flight: the configuration it finds, and how many requests were made
    before. -/
structure ConfigCall where
  config : Config
  first : ℕ

/-- The fields of `ConfigUseCase`, with the requests that were made, which `disposable` points into,
    and the last call, unless it came with a request in flight. -/
structure ConfigFetch where
  config : Config
  preferences : SharedPreferences
  index : ℕ
  disposable : Option ℕ
  requests : List ConfigRequest
  call : Option ConfigCall

/-- `getUrls()`; of null no element is asked for. -/
def Config.urlList (config : Config) : List (Option String) :=
  config.urls.getD []

namespace ConfigFetch

/-- `disposable != null && !disposable.isDisposed()` -/
def running (s : ConfigFetch) : Bool :=
  (s.disposable.bind (s.requests[·]?)).any Attempt.isPending

/-- A request is in flight. -/
def inFlight (s : ConfigFetch) : Bool :=
  s.requests.any Attempt.isPending

section

variable (immediate : ℕ → Bool)

/-- `getRemoteConfig(urls)` and `getRemoteConfig(url)` for the urls from the index on; `immediate`
    are the requests that fail during `subscribe`. -/
def getRemoteConfigFrom (s : ConfigFetch) : List (Option String) → ConfigFetch
  | [] => s
  | url :: rest =>
    let s := { s with index := s.index + 1 }
    if s.running then s
    else
      let id := s.requests.length
      if immediate id then
        -- the callback makes the next request before the field is assigned
        let s := getRemoteConfigFrom { s with requests := s.requests ++ [⟨url, .failed⟩] } rest
        { s with disposable := some id }
      else { s with requests := s.requests ++ [⟨url, .pending⟩], disposable := some id }

/-- `getRemoteConfig(config.getUrls())` -/
def getRemoteConfig (s : ConfigFetch) : ConfigFetch :=
  s.getRemoteConfigFrom immediate (s.config.urlList.drop s.index)

def settle (s : ConfigFetch) (id : ℕ) (r : ConfigRequest) (outcome : Outcome Config) :
    ConfigFetch :=
  { s with requests := s.requests.set id { r with outcome := outcome } }

/-- The callback of a response; where the configuration cannot be saved its exception goes to the
    other callback. -/
def accept (s : ConfigFetch) (config : Config) : ConfigFetch :=
  let config := ConfigUseCase.merge config s.config
  match ConfigLocalRepository.setConfig s.preferences config with
  | some preferences => { s with config := config, preferences := preferences }
  | none => { s with config := config }.getRemoteConfig immediate

inductive Event
  | getRemoteConfig
  | success (id : ℕ) (config : Config)
  | failure (id : ℕ)

def next (s : ConfigFetch) : Event → Option ConfigFetch
  | .getRemoteConfig =>
    let call := if s.inFlight then none else some ⟨s.config, s.requests.length⟩
    some ({ s with index := 0, call := call }.getRemoteConfig immediate)
  | .success id config => s.requests[id]?.bind fun r =>
    if r.isPending then some ((s.settle id r (.succeeded config)).accept immediate config) else none
  | .failure id => s.requests[id]?.bind fun r =>
    if r.isPending then some ((s.settle id r .failed).getRemoteConfig immediate) else none

/-- At the start nothing has been asked. -/
def init (s : ConfigFetch) : Prop :=
  s.index = 0 ∧ s.disposable = none ∧ s.requests = [] ∧ s.call = none

def machine : Machine ConfigFetch Event :=
  .ofFun init (next immediate)

/-! ### What is meant -/

/-- The requests of a call ask the urls in order until one answers, whose configuration is merged
    into the one there was. -/
def Fetches (s : ConfigFetch) (call : ConfigCall) : Prop :=
  Attempt.InOrder call.config.urlList (s.requests.drop call.first) ∧
    s.config = (Attempt.result? (s.requests.drop call.first)).elim call.config
      (ConfigUseCase.merge · call.config)

structure Right (s : ConfigFetch) : Prop where
  single : s.requests.countP Attempt.isPending ≤ 1
  fetches : ∀ call ∈ s.call, s.Fetches call

/-- A call does not come with a request in flight that `disposable` does not know, unless all the
    urls fail at once; and the configuration of a response can be saved, or no url is left. -/
def Guard (s : ConfigFetch) : Event → Prop
  | .getRemoteConfig => s.inFlight = true → s.running = true ∨
      ∀ i < s.config.urlList.length, immediate (s.requests.length + i) = true
  | .success _ config => s.call.isSome →
      (ConfigUseCase.merge config s.config).vpnConfig.providers ≠ none ∨
        (ConfigUseCase.merge config s.config).urlList.length ≤ s.index
  | .failure _ => True

end

variable {immediate : ℕ → Bool} {s s' : ConfigFetch} {e : Event} {call : ConfigCall} {id : ℕ}
  {r r' : ConfigRequest} {rest : List (Option String)}

/-! ### One call -/

/-- With nothing in flight nothing is running. -/
theorem running_of_settled (h : ∀ t ∈ s.requests, t.isPending = false) : s.running = false := by
  rw [Bool.eq_false_iff, ne_eq, running, Option.any_eq_true]
  rintro ⟨t, ht, hpending⟩
  obtain ⟨id, -, hid⟩ := Option.bind_eq_some_iff.mp ht
  rw [h t (List.mem_of_getElem? hid)] at hpending
  cases hpending

/-- A failed request more does not count. -/
theorem running_append {url : Option String} (h : s.running = false) :
    running { s with requests := s.requests ++ [⟨url, .failed⟩] } = false := by
  rw [Bool.eq_false_iff, ne_eq, running, Option.any_eq_true] at h ⊢
  rintro ⟨t, ht, hpending⟩
  obtain ⟨id, hdisposable, hid⟩ := Option.bind_eq_some_iff.mp ht
  rw [List.getElem?_append] at hid
  split_ifs at hid
  · exact h ⟨t, by rw [hdisposable]; exact hid, hpending⟩
  · obtain rfl := List.mem_singleton.mp (List.mem_of_getElem? hid)
    cases hpending

/-- The requests of a call. -/
def asked (immediate : ℕ → Bool) (s : ConfigFetch) (rest : List (Option String)) :
    List ConfigRequest :=
  Attempt.burst immediate s.requests.length rest

/-- **A call** makes its requests behind the ones there are. -/
theorem getRemoteConfigFrom_eq (h : s.running = false) :
    s.getRemoteConfigFrom immediate rest =
      { s with
        index := s.index + (s.asked immediate rest).length
        requests := s.requests ++ s.asked immediate rest
        disposable := if rest = [] then s.disposable else some s.requests.length } := by
  induction rest generalizing s with
  | nil => simp [getRemoteConfigFrom, asked, Attempt.burst]
  | cons url rest ih =>
    have h' : running { s with index := s.index + 1 } = false := h
    rw [getRemoteConfigFrom, asked, Attempt.burst]
    simp only [h', Bool.false_eq_true, if_false, reduceCtorEq]
    split_ifs with himmediate
    · rw [ih (running_append h')]
      simp [asked, Nat.add_assoc, Nat.add_comm 1]
    · rfl

/-- With the request known that is in flight nothing is asked. -/
theorem requests_of_running (h : s.running = true) :
    (s.getRemoteConfigFrom immediate rest).requests = s.requests := by
  cases rest with
  | nil => rfl
  | cons url rest =>
    have h' : running { s with index := s.index + 1 } = true := h
    rw [getRemoteConfigFrom]
    simp only [h', if_true]

/-- What a call leaves alone. -/
theorem call_getRemoteConfigFrom : (s.getRemoteConfigFrom immediate rest).call = s.call := by
  by_cases h : s.running = true
  · cases rest with
    | nil => rfl
    | cons url rest =>
      have h' : running { s with index := s.index + 1 } = true := h
      rw [getRemoteConfigFrom]
      simp only [h', if_true]
  · rw [getRemoteConfigFrom_eq (Bool.eq_false_iff.mpr h)]

/-- A response leaves the call that is known. -/
theorem call_accept {config : Config} : (s.accept immediate config).call = s.call := by
  unfold accept
  dsimp only
  split
  · rfl
  · exact call_getRemoteConfigFrom

/-! ### What is known of a call that was left alone -/

/-- Its requests are the last ones, as many as the index says, and only the last one may be in
    flight. -/
structure Tracked (s : ConfigFetch) (call : ConfigCall) : Prop where
  count : call.first + s.index = s.requests.length
  onlyLast : Attempt.OnlyLast s.requests
  settled : s.index = 0 → ∀ t ∈ s.requests, t.isPending = false

/-- If only the last request may be in flight, one is at most. -/
theorem countP_of_onlyLast (h : Attempt.OnlyLast s.requests) :
    s.requests.countP Attempt.isPending ≤ 1 := by
  obtain hnil | ⟨front, t, hfront⟩ := List.eq_nil_or_concat s.requests
  · simp [hnil]
  · have hzero : front.countP Attempt.isPending = 0 := by
      rw [List.countP_eq_zero]
      intro u hu
      rw [h u (by simpa [hfront] using hu)]
      exact Bool.false_ne_true
    rw [hfront, List.concat_eq_append, List.countP_append, hzero, Nat.zero_add]
    exact List.countP_le_length

/-- With its only request in flight settled, nothing is in flight. -/
theorem settled_set (hsingle : s.requests.countP Attempt.isPending ≤ 1)
    (hid : s.requests[id]? = some r) (hr : r.isPending = true) (hr' : r'.isPending = false) :
    ∀ t ∈ s.requests.set id r', t.isPending = false := by
  obtain ⟨hlt, hget⟩ := List.getElem?_eq_some_iff.mp hid
  have hzero : (s.requests.set id r').countP Attempt.isPending = 0 := by
    rw [List.countP_set hlt, hget, if_pos hr, if_neg (by simp [hr'])]
    omega
  intro t ht
  exact Bool.eq_false_iff.mpr (List.countP_eq_zero.mp hzero t ht)

/-- A call that goes on from settled requests. -/
theorem Tracked.asked (hcount : call.first + s.index = s.requests.length)
    (hsettled : ∀ t ∈ s.requests, t.isPending = false) :
    (s.getRemoteConfigFrom immediate rest).Tracked call := by
  rw [getRemoteConfigFrom_eq (running_of_settled hsettled)]
  refine ⟨?_, Attempt.onlyLast_append_burst hsettled, fun hindex => ?_⟩
  · show call.first + (s.index + _) = (s.requests ++ _).length
    rw [List.length_append]
    omega
  · have hnil : s.asked immediate rest = [] :=
      List.length_eq_zero_iff.mp (Nat.add_eq_zero_iff.mp hindex).2
    show ∀ t ∈ s.requests ++ _, _
    rwa [hnil, List.append_nil]

/-- A response settles the last request. -/
theorem Tracked.settle (h : s.Tracked call) (hid : s.requests[id]? = some r)
    (hr : r.isPending = true) (outcome : Outcome Config)
    (houtcome : Attempt.isPending (⟨r.target, outcome⟩ : ConfigRequest) = false) :
    call.first + s.index = (s.settle id r outcome).requests.length ∧
      ∀ t ∈ (s.settle id r outcome).requests, t.isPending = false := by
  refine ⟨?_, settled_set (countP_of_onlyLast h.onlyLast) hid hr houtcome⟩
  show _ = (s.requests.set id _).length
  rw [List.length_set]
  exact h.count

/-- And where it cannot be saved the call goes on from there. -/
theorem Tracked.accept {config : Config} (hcount : call.first + s.index = s.requests.length)
    (hsettled : ∀ t ∈ s.requests, t.isPending = false) :
    (s.accept immediate config).Tracked call := by
  unfold ConfigFetch.accept
  dsimp only
  split
  · exact ⟨hcount, fun t ht => hsettled t (List.dropLast_subset _ ht), fun _ => hsettled⟩
  · exact Tracked.asked hcount hsettled

/-- Nothing is in flight where all requests are settled. -/
theorem not_inFlight_iff : s.inFlight = false ↔ ∀ t ∈ s.requests, t.isPending = false := by
  rw [inFlight, List.any_eq_false]
  simp only [Bool.not_eq_true]

/-- A response comes to a request that is in flight. -/
theorem of_bind_eq_some {f : ConfigRequest → ConfigFetch}
    (h : (s.requests[id]?.bind fun r => if r.isPending then some (f r) else none) = some s') :
    ∃ r, s.requests[id]? = some r ∧ r.isPending = true ∧ s' = f r := by
  obtain ⟨r, hid, h⟩ := Option.bind_eq_some_iff.mp h
  obtain ⟨hr, rfl⟩ := Machine.of_ite_eq_some h
  exact ⟨r, hid, hr, rfl⟩

/-- **One event** keeps track of the call. -/
theorem tracked_next (h : ∀ call ∈ s.call, s.Tracked call) (hstep : s.next immediate e = some s') :
    ∀ call ∈ s'.call, s'.Tracked call := by
  cases e with
  | getRemoteConfig =>
    obtain rfl := Option.some.inj hstep
    intro call hcall
    rw [getRemoteConfig, call_getRemoteConfigFrom] at hcall
    cases hflight : s.inFlight with
    | true => simp [hflight] at hcall
    | false =>
      rw [hflight] at hcall
      cases hcall
      exact Tracked.asked (Nat.add_zero _) (not_inFlight_iff.mp hflight)
  | success id config =>
    obtain ⟨r, hid, hr, rfl⟩ := of_bind_eq_some hstep
    intro call hcall
    rw [call_accept] at hcall
    obtain ⟨hcount, hsettled⟩ := (h call hcall).settle hid hr (.succeeded config) rfl
    exact Tracked.accept hcount hsettled
  | failure id =>
    obtain ⟨r, hid, hr, rfl⟩ := of_bind_eq_some hstep
    intro call hcall
    rw [getRemoteConfig, call_getRemoteConfigFrom] at hcall
    obtain ⟨hcount, hsettled⟩ := (h call hcall).settle hid hr .failed rfl
    exact Tracked.asked hcount hsettled

/-- **Every run** does. -/
theorem tracked_of_reachable (h : (machine immediate).Reachable s) :
    ∀ call ∈ s.call, s.Tracked call := by
  refine Machine.Reachable.invariant (I := fun s => ∀ call ∈ s.call, s.Tracked call) ?_
    (fun s e s' hs hstep => tracked_next hs hstep) h
  rintro s ⟨-, -, -, hnone⟩ call hcall
  rw [hnone] at hcall
  cases hcall

/-! ### What the events do -/

/-- The call that a response belongs to: its requests up to the one in flight, and what stands there
    once that is settled. -/
theorem Fetches.split (h : s.Fetches call) (ht : s.Tracked call) (hid : s.requests[id]? = some r)
    (hr : r.isPending = true) :
    ∃ pre url, r = ⟨url, .pending⟩ ∧
      Attempt.InOrder call.config.urlList (pre ++ [⟨url, .pending⟩]) ∧
      s.config = call.config ∧ s.index = pre.length + 1 ∧
      ∀ r' post, (s.requests.set id r' ++ post).drop call.first = pre ++ r' :: post := by
  obtain ⟨front, hfront, rfl⟩ := ht.onlyLast.eq_append hid hr
  -- a call that has settled has no request pending
  have hindex : s.index ≠ 0 := by
    intro hzero
    have hsettled := ht.settled hzero _ (List.mem_of_getElem? hid)
    rw [hr] at hsettled
    cases hsettled
  obtain ⟨url, outcome⟩ := r
  cases outcome with
  | failed | succeeded config => cases hr
  | pending =>
    have hcount := ht.count
    rw [hfront, List.length_append, List.length_singleton] at hcount
    have hfirst : call.first ≤ front.length := by omega
    obtain ⟨horder, hconfig⟩ := h
    rw [hfront, List.drop_append_of_le_length hfirst] at horder hconfig
    refine ⟨front.drop call.first, url, rfl, horder, ?_, ?_, fun r' post => ?_⟩
    · rw [hconfig, Attempt.result?_append_cons, Attempt.result?_eq_none horder]
      rfl
    · rw [List.length_drop]
      omega
    · rw [hfront, List.set_append_right _ _ (Nat.le_refl _), Nat.sub_self, List.set_cons_zero,
        List.append_assoc, List.drop_append_of_le_length hfirst]
      rfl

/-- Of the requests of a call the last one may be in flight. -/
theorem countP_asked_le (hsettled : ∀ t ∈ s.requests, t.isPending = false) :
    (s.requests ++ s.asked immediate rest).countP Attempt.isPending ≤ 1 := by
  have hzero : s.requests.countP Attempt.isPending = 0 := by
    rw [List.countP_eq_zero]
    intro t ht
    rw [hsettled t ht]
    exact Bool.false_ne_true
  rw [List.countP_append, hzero, asked, Attempt.countP_burst]
  split_ifs <;> omega

/-- **A failure** keeps everything right. -/
theorem Right.failure (h : s.Right) (ht : ∀ call ∈ s.call, s.Tracked call)
    (hid : s.requests[id]? = some r) (hr : r.isPending = true) :
    ((s.settle id r .failed).getRemoteConfig immediate).Right := by
  have hsettled : ∀ t ∈ (s.settle id r .failed).requests, t.isPending = false :=
    settled_set h.single hid hr rfl
  unfold getRemoteConfig
  rw [getRemoteConfigFrom_eq (running_of_settled hsettled)]
  refine ⟨countP_asked_le hsettled, fun call hcall => ?_⟩
  obtain ⟨pre, url, rfl, horder, hconfig, hindex, hdrop⟩ :=
    (h.fetches call hcall).split (ht call hcall) hid hr
  unfold Fetches
  show Attempt.InOrder _ ((s.requests.set id ⟨url, .failed⟩ ++ _).drop _) ∧
    s.config = (Attempt.result? ((s.requests.set id ⟨url, .failed⟩ ++ _).drop _)).elim _ _
  rw [hdrop, Attempt.inOrder_failed_iff horder, Attempt.result?_append_cons,
    Attempt.result?_eq_none horder]
  refine ⟨?_, ?_⟩
  · show Attempt.InOrder _ (Attempt.burst _ _ (s.config.urlList.drop s.index))
    rw [hconfig, hindex]
    exact Attempt.inOrder_burst
  · show s.config = (Attempt.result? (Attempt.burst _ _ _)).elim _ _
    rw [Attempt.result?_burst]
    exact hconfig

/-- What a response leads to. -/
theorem accept_eq (immediate : ℕ → Bool) (config : Config)
    (hsettled : ∀ t ∈ s.requests, t.isPending = false) :
    ∃ post, (s.accept immediate config).requests = s.requests ++ post ∧
      (s.accept immediate config).config = ConfigUseCase.merge config s.config ∧
      post.countP Attempt.isPending ≤ 1 ∧
      (post = [] ↔ (ConfigUseCase.merge config s.config).vpnConfig.providers ≠ none ∨
        (ConfigUseCase.merge config s.config).urlList.length ≤ s.index) := by
  unfold accept
  dsimp only
  cases hproviders : (ConfigUseCase.merge config s.config).vpnConfig.providers with
  | some providers =>
    simp only [ConfigLocalRepository.setConfig, hproviders, Option.map_some]
    exact ⟨[], (List.append_nil _).symm, trivial, by simp, by simp⟩
  | none =>
    simp only [ConfigLocalRepository.setConfig, hproviders, Option.map_none]
    have hrunning : running { s with config := ConfigUseCase.merge config s.config } = false :=
      running_of_settled hsettled
    unfold getRemoteConfig
    rw [getRemoteConfigFrom_eq hrunning]
    refine ⟨_, rfl, rfl, ?_, ?_⟩
    · rw [asked, Attempt.countP_burst]
      split_ifs <;> omega
    · rw [asked, Attempt.burst_eq_nil, List.drop_eq_nil_iff]
      simp

/-- **A response** is the end of its call exactly if it meets the guard. -/
theorem right_success_iff (h : s.Right) (ht : ∀ call ∈ s.call, s.Tracked call)
    (hid : s.requests[id]? = some r) (hr : r.isPending = true) (config : Config) :
    ((s.settle id r (.succeeded config)).accept immediate config).Right ↔
      s.Guard immediate (.success id config) := by
  have hsettled : ∀ t ∈ (s.settle id r (.succeeded config)).requests, t.isPending = false :=
    settled_set h.single hid hr rfl
  -- `post` are the requests that the new configuration starts at once
  obtain ⟨post, hrequests, hmerged, hpost, hnil⟩ := accept_eq immediate config hsettled
  have hsingle : ((s.settle id r (.succeeded config)).accept immediate config).requests.countP
      Attempt.isPending ≤ 1 := by
    -- the settled request was the only one pending
    have hzero : (s.settle id r (.succeeded config)).requests.countP Attempt.isPending = 0 := by
      rw [List.countP_eq_zero]
      intro t ht
      rw [hsettled t ht]
      exact Bool.false_ne_true
    rw [hrequests, List.countP_append, hzero, Nat.zero_add]
    exact hpost
  have hfetches : ∀ call ∈ s.call,
      (((s.settle id r (.succeeded config)).accept immediate config).Fetches call ↔ post = []) := by
    intro call hcall
    obtain ⟨pre, url, rfl, horder, hconfig, hindex, hdrop⟩ :=
      (h.fetches call hcall).split (ht call hcall) hid hr
    unfold Fetches
    rw [hrequests, hmerged]
    show Attempt.InOrder _ ((s.requests.set id ⟨url, .succeeded config⟩ ++ _).drop _) ∧
      ConfigUseCase.merge config s.config =
        (Attempt.result? ((s.requests.set id ⟨url, .succeeded config⟩ ++ _).drop _)).elim _ _ ↔ _
    rw [hdrop, Attempt.inOrder_succeeded_iff horder, Attempt.result?_append_cons,
      Attempt.result?_eq_none horder, hconfig]
    exact and_iff_left rfl
  constructor
  · intro hright hcall
    obtain ⟨call, hcall⟩ := Option.isSome_iff_exists.mp hcall
    refine hnil.mp ((hfetches call hcall).mp (hright.fetches call ?_))
    rw [call_accept]
    exact hcall
  · intro hguard
    refine ⟨hsingle, fun call hcall => ?_⟩
    rw [call_accept] at hcall
    exact (hfetches call hcall).mpr (hnil.mpr (hguard (Option.isSome_of_mem hcall)))

/-- A call with nothing in flight. -/
theorem right_of_settled (hsettled : ∀ t ∈ s.requests, t.isPending = false)
    (hcall : s.call = some ⟨s.config, s.requests.length⟩) :
    (s.getRemoteConfigFrom immediate s.config.urlList).Right := by
  rw [getRemoteConfigFrom_eq (running_of_settled hsettled)]
  refine ⟨countP_asked_le hsettled, fun call h => ?_⟩
  obtain rfl := Option.some.inj (hcall.symm.trans h)
  unfold Fetches
  simp only [List.drop_left]
  exact ⟨Attempt.inOrder_burst, by rw [asked, Attempt.result?_burst]; rfl⟩

/-- A call with a request in flight: it asks for nothing if the field knows that request. -/
theorem right_inFlight_iff (hsingle : s.requests.countP Attempt.isPending ≤ 1)
    (hcall : s.call = none) (hflight : s.inFlight = true) :
    (s.getRemoteConfigFrom immediate rest).Right ↔
      s.running = true ∨ ∀ i < rest.length, immediate (s.requests.length + i) = true := by
  have hright : (s.getRemoteConfigFrom immediate rest).Right ↔
      (s.getRemoteConfigFrom immediate rest).requests.countP Attempt.isPending ≤ 1 := by
    refine ⟨Right.single, fun hsingle => ⟨hsingle, fun call h => ?_⟩⟩
    rw [call_getRemoteConfigFrom, hcall] at h
    cases h
  rw [hright]
  cases hrunning : s.running with
  | true =>
    rw [requests_of_running hrunning]
    exact iff_of_true hsingle (.inl rfl)
  | false =>
    have hone : s.requests.countP Attempt.isPending = 1 :=
      Nat.le_antisymm hsingle (List.countP_pos_iff.mpr (List.any_eq_true.mp hflight))
    rw [getRemoteConfigFrom_eq hrunning]
    show (s.requests ++ s.asked immediate rest).countP Attempt.isPending ≤ 1 ↔ _
    rw [List.countP_append, hone, asked, Attempt.countP_burst]
    split_ifs with hall
    · exact iff_of_true (Nat.le_refl _) (.inr hall)
    · exact iff_of_false (by omega) (by simpa using hall)

/-- **A call** leaves one request in flight exactly if it meets the guard. -/
theorem right_getRemoteConfig_iff (h : s.Right)
    (hstep : s.next immediate .getRemoteConfig = some s') :
    s'.Right ↔ s.Guard immediate .getRemoteConfig := by
  cases hflight : s.inFlight with
  | false =>
    have hs' : s' = { s with index := 0, call := some ⟨s.config, s.requests.length⟩ }.getRemoteConfig
        immediate := by
      simpa [next, hflight] using hstep.symm
    subst hs'
    refine iff_of_true (right_of_settled (not_inFlight_iff.mp hflight) rfl) fun h' => ?_
    rw [hflight] at h'
    cases h'
  | true =>
    have hs' : s' = { s with index := 0, call := none }.getRemoteConfig immediate := by
      simpa [next, hflight] using hstep.symm
    subst hs'
    refine Iff.trans ?_ (imp_iff_right hflight).symm
    exact right_inFlight_iff (s := { s with index := 0, call := none }) h.single rfl hflight

/-- **One event** keeps all right exactly if it meets the guard. -/
theorem right_iff (h : s.Right) (ht : ∀ call ∈ s.call, s.Tracked call)
    (hstep : s.next immediate e = some s') : s'.Right ↔ s.Guard immediate e := by
  cases e with
  | getRemoteConfig => exact right_getRemoteConfig_iff h hstep
  | success id config =>
    obtain ⟨r, hid, hr, rfl⟩ := of_bind_eq_some hstep
    exact right_success_iff h ht hid hr config
  | failure id =>
    obtain ⟨r, hid, hr, rfl⟩ := of_bind_eq_some hstep
    exact iff_of_true (h.failure ht hid hr) trivial

/-- The guard is met exactly by the events that keep all right. -/
theorem guard_exact (immediate : ℕ → Bool) :
    (machine immediate).ExactGuard (fun _ => True) (Guard immediate) Right where
  init_iff := by
    rintro s ⟨-, -, hrequests, hcall⟩
    refine iff_of_true ⟨by simp [hrequests], fun call h => ?_⟩ trivial
    rw [hcall] at h
    cases h
  step_iff _ _ _ hreach h hstep := right_iff h (tracked_of_reachable hreach) hstep

/-- **Fetching.**  In every run whose steps meet the guard all is right in every state, and from
    such a state of any run a step that does not meet it leads to one where it is not. -/
theorem fetchRight_of_guard (immediate : ℕ → Bool) (s : ConfigFetch) :
    ((machine immediate).RunUnder (fun _ => True) (Guard immediate) s → s.Right) ∧
      (machine immediate).ExactGuard (fun _ => True) (Guard immediate) Right :=
  ⟨(guard_exact immediate).runUnder, guard_exact immediate⟩

/-- A configuration with an unusable url in front of another one. -/
def unusableFirst : Config where
  urls := some [some "", some "http://a/"]
  updaterUrls := none
  shareUrls := none
  analyticsId := none
  cinemaUrl := none
  animeUrl := none
  posterUrl := none
  subtitlesUrl := none
  siteUrl := none
  forumUrl := none
  facebookUrl := none
  twitterUrl := none
  youtubeUrl := none
  imdbUrl := none
  referrerRegex := none
  vpnConfig := ⟨some [], false, false, false, none, none⟩

/-- The request for the second url is in flight, but the field has the one for the first: a second
    call makes another one. -/
theorem second_call_doubles :
    ∃ s, (machine fun n => n % 2 == 0).Reachable s ∧ s.requests.countP Attempt.isPending = 2 ∧
      ¬s.Right := by
  let start : ConfigFetch := ⟨unusableFirst, fun _ => none, 0, none, [], none⟩
  have hrun : (Machine.runEvents (next fun n => n % 2 == 0) start
      [.getRemoteConfig, .getRemoteConfig]).map (fun s => s.requests.countP Attempt.isPending) =
        some 2 := by
    decide
  have hstart : (machine fun n => n % 2 == 0).Reachable start := .start ⟨rfl, rfl, rfl, rfl⟩
  obtain ⟨s, hs, hcount⟩ := Machine.Reachable.exists_of_runEvents hstart hrun
  refine ⟨s, hs, hcount, fun h => ?_⟩
  have hsingle := h.single
  omega

end ConfigFetch

end PopcornTime.Android
