import PopcornTime.Lib.Machine

namespace PopcornTime.Android

open PopcornTime

/-!
# Android messages — `MessagingUseCase`

A push message is a dialog, a dialog with a page or a notification; one that cannot be parsed is
null.  A dialog that finds no observer stays in `messagingData` with `messagingDataNotShown` set,
and the next `subscribe` calls `show` with what is in `messagingData` then.  A notification or a
null in between replaces the dialog and leaves the flag alone.

* `show`, `subscribe`, `unsubscribe` — the use case; the second result is the message that an
  observer is called with.
* `MessagingRun` — calls in any order, with what has been shown, owed and missed.
* `MessagingGuard` — nothing but a dialog arrives while a dialog is owed.
* `delivered_of_guard` — in every run that meets the guard the messages are delivered as they
  should be, and the guard is exact.
-/

/-- The classes of `IMessagingData`. -/
inductive MessagingKind
  | dialog
  | dialogHtml
  | notification
deriving DecidableEq, Repr

/-- Shown by an `Observer`, and kept for one. -/
def MessagingKind.isDialog : MessagingKind → Bool
  | dialog | dialogHtml => true
  | notification => false

/-- A message, told from the others by the call of `show` it came with. -/
structure Message where
  id : ℕ
  kind : MessagingKind
deriving DecidableEq, Repr

/-- `MessagingUseCase`, with observers of dialogs in `O` and of notifications in `N`. -/
structure MessagingUseCase (O N : Type) where
  observer : Option O
  notificationObserver : Option N
  messagingData : Option Message
  messagingDataNotShown : Bool
deriving DecidableEq, Repr

namespace MessagingUseCase

variable {O N : Type}

def new : MessagingUseCase O N := ⟨none, none, none, false⟩

/-- `show` -/
def showData (data : Option Message) (u : MessagingUseCase O N) :
    MessagingUseCase O N × Option Message :=
  let u := { u with messagingData := data }
  match data with
  | none => (u, none)
  | some m =>
    if m.kind.isDialog then
      match u.observer with
      | some _ => ({ u with messagingDataNotShown := false }, some m)
      -- owed to the next observer
      | none => ({ u with messagingDataNotShown := true }, none)
    else
      -- a notification that nobody observes is lost
      match u.notificationObserver with
      | some _ => (u, some m)
      | none => (u, none)

def subscribe (observer : O) (u : MessagingUseCase O N) :
    MessagingUseCase O N × Option Message :=
  if u.messagingDataNotShown then
    match u.messagingData with
    | some m => showData (some m) { u with observer := some observer }
    | none => ({ u with observer := some observer }, none)
  else ({ u with observer := some observer }, none)

def unsubscribe [DecidableEq O] (observer : O) (u : MessagingUseCase O N) :
    MessagingUseCase O N :=
  if u.observer = some observer then { u with observer := none } else u

/-- `subscribe(NotificationObserver)` -/
def subscribeNotifications (observer : N) (u : MessagingUseCase O N) : MessagingUseCase O N :=
  { u with notificationObserver := some observer }

variable {u : MessagingUseCase O N} {m : Message} {observer : O}

/-! ### What `show` and `subscribe` do -/

/-- A dialog is shown to the observer there is, -/
theorem showData_observed (hkind : m.kind.isDialog = true) (hobs : u.observer = some observer) :
    u.showData (some m) =
      ({ u with messagingData := some m, messagingDataNotShown := false }, some m) := by
  simp only [showData, hkind, hobs, if_true]

/-- or it is kept, and the flag goes up. -/
theorem showData_unobserved (hkind : m.kind.isDialog = true) (hobs : u.observer = none) :
    u.showData (some m) =
      ({ u with messagingData := some m, messagingDataNotShown := true }, none) := by
  simp only [showData, hkind, hobs, if_true]

/-- A notification only replaces the data, whether it is shown or not. -/
theorem showData_notification (hkind : m.kind.isDialog = false) :
    ∃ shown, u.showData (some m) = ({ u with messagingData := some m }, shown) ∧
      (shown = none ∨ shown = some m) := by
  cases hobs : u.notificationObserver with
  | none => exact ⟨none, by simp [showData, hkind, hobs], .inl rfl⟩
  | some n => exact ⟨some m, by simp [showData, hkind, hobs], .inr rfl⟩

/-- With the flag down an observer is called with nothing. -/
theorem subscribe_of_shown (hflag : u.messagingDataNotShown = false) :
    u.subscribe observer = ({ u with observer := some observer }, none) := by
  rw [subscribe, hflag]
  rfl

/-- A dialog that is kept is shown to the new observer. -/
theorem subscribe_of_dialog (hflag : u.messagingDataNotShown = true)
    (hdata : u.messagingData = some m) (hkind : m.kind.isDialog = true) :
    u.subscribe observer =
      ({ u with
        observer := some observer, messagingData := some m, messagingDataNotShown := false },
        some m) := by
  rw [subscribe, if_pos hflag, hdata]
  exact showData_observed (u := { u with observer := some observer }) hkind rfl

/-- A message changes the data to itself, and is shown or not. -/
theorem showData_some : (u.showData (some m)).1.observer = u.observer ∧
    (u.showData (some m)).1.messagingData = some m ∧
    ((u.showData (some m)).2 = none ∨ (u.showData (some m)).2 = some m) := by
  cases hkind : m.kind.isDialog with
  | true =>
    cases hobs : u.observer with
    | none =>
      rw [showData_unobserved hkind hobs]
      exact ⟨hobs, rfl, .inl rfl⟩
    | some observer =>
      rw [showData_observed hkind hobs]
      exact ⟨hobs, rfl, .inr rfl⟩
  | false =>
    obtain ⟨shown, heq, hshown⟩ := showData_notification (u := u) hkind
    rw [heq]
    exact ⟨rfl, rfl, hshown⟩

/-- An observer is called with what is in the data, or not at all. -/
theorem subscribe_spec (u : MessagingUseCase O N) (observer : O) :
    (u.subscribe observer).1.observer = some observer ∧
    (u.subscribe observer).1.messagingData = u.messagingData ∧
    ((u.subscribe observer).2 = none ∨ (u.subscribe observer).2 = u.messagingData) := by
  rw [subscribe]
  split_ifs
  · cases hdata : u.messagingData with
    | none => exact ⟨rfl, rfl, .inl rfl⟩
    | some m => exact showData_some (u := ⟨some observer, u.notificationObserver, _, _⟩)
  · exact ⟨rfl, rfl, .inl rfl⟩

end MessagingUseCase

/-! ### Calls in any order -/

/-- The use case, the number of messages so far, those that have been shown, in order, the dialog
    that the next observer is owed, and the dialogs that an observer was owed and did not get. -/
structure MessagingRun (O N : Type) where
  useCase : MessagingUseCase O N
  nextId : ℕ
  shown : List Message
  owed : Option Message
  missed : List Message
deriving DecidableEq, Repr

/-- The calls.  `show` is called by `onMessageReceived`, with null for what cannot be parsed. -/
inductive MessagingEvent (O N : Type)
  | receive (kind : Option MessagingKind)
  | subscribe (observer : O)
  | unsubscribe (observer : O)
  | subscribeNotifications (observer : N)

namespace MessagingRun

variable {O N : Type}

def start : MessagingRun O N := ⟨.new, 0, [], none, []⟩

/-- A message arrives: a dialog without an observer is owed to the next one, in place of an
    earlier dialog. -/
def receive (kind : MessagingKind) (s : MessagingRun O N) : MessagingRun O N :=
  { s with
    useCase := (s.useCase.showData (some ⟨s.nextId, kind⟩)).1
    nextId := s.nextId + 1
    shown := s.shown ++ (s.useCase.showData (some ⟨s.nextId, kind⟩)).2.toList
    owed :=
      if kind.isDialog then if s.useCase.observer.isSome then none else some ⟨s.nextId, kind⟩
      else s.owed }

/-- An observer subscribes: what it is owed is due now. -/
def subscribe (observer : O) (s : MessagingRun O N) : MessagingRun O N :=
  { s with
    useCase := (s.useCase.subscribe observer).1
    shown := s.shown ++ (s.useCase.subscribe observer).2.toList
    owed := none
    missed :=
      if (s.useCase.subscribe observer).2 = s.owed then s.missed
      else s.missed ++ s.owed.toList }

variable [DecidableEq O]

/-- The code that runs on a call. -/
def next (s : MessagingRun O N) : MessagingEvent O N → Option (MessagingRun O N)
  | .receive none => some { s with useCase := (s.useCase.showData none).1 }
  | .receive (some kind) => some (s.receive kind)
  | .subscribe observer => some (s.subscribe observer)
  | .unsubscribe observer => some { s with useCase := s.useCase.unsubscribe observer }
  | .subscribeNotifications observer =>
    some { s with useCase := s.useCase.subscribeNotifications observer }

variable (O N) in
def machine : Machine (MessagingRun O N) (MessagingEvent O N) :=
  Machine.ofFun (fun s => s = start) next

/-- No message has been shown twice, and no observer has missed a dialog it was owed. -/
def Right (s : MessagingRun O N) : Prop :=
  (s.shown.map Message.id).Nodup ∧ s.missed = []

/-- All is right, and it is after the next `subscribe`, whoever that is. -/
def Delivered (s : MessagingRun O N) : Prop :=
  s.Right ∧ ∀ observer, (s.subscribe observer).Right

/-- While a dialog is owed, only another dialog arrives: no notification and no null. -/
def MessagingGuard (s : MessagingRun O N) : MessagingEvent O N → Prop
  | .receive kind => s.owed = none ∨ ∃ k ∈ kind, k.isDialog = true
  | .subscribe _ | .unsubscribe _ | .subscribeNotifications _ => True

/-! ### What holds of every run -/

/-- What is known without the guard: the flag stands for the dialog that is owed as long as none
    has been missed. -/
structure Inv (s : MessagingRun O N) : Prop where
  shown_lt : ∀ m ∈ s.shown, m.id < s.nextId
  data_lt : ∀ m ∈ s.useCase.messagingData, m.id < s.nextId
  owed_lt : ∀ m ∈ s.owed, m.id < s.nextId
  owed_dialog : ∀ m ∈ s.owed, m.kind.isDialog = true
  owed_new : ∀ m ∈ s.owed, ∀ m' ∈ s.shown, m'.id ≠ m.id
  unobserved : s.owed ≠ none → s.useCase.observer = none
  flag : s.missed = [] → (s.useCase.messagingDataNotShown = true ↔ s.owed ≠ none)

variable {s s' : MessagingRun O N} {e : MessagingEvent O N} {observer : O} {kind : MessagingKind}

omit [DecidableEq O]

/-- Messages that are shown are those from before, or the one the observer is called with. -/
theorem shown_lt_append {shown : Option Message} {m : Message} {n : ℕ}
    (h : ∀ m ∈ s.shown, m.id < n) (hshown : shown = none ∨ shown = some m) (hm : m.id < n) :
    ∀ m ∈ s.shown ++ shown.toList, m.id < n := by
  intro m' hm'
  rcases List.mem_append.mp hm' with hold | hnew
  · exact h m' hold
  · rcases hshown with rfl | rfl
    · simp at hnew
    · simp only [Option.toList_some, List.mem_singleton] at hnew
      exact hnew ▸ hm

/-- What has been shown is no newer than the message that arrives. -/
theorem Inv.shown_receive (h : s.Inv) : ∀ m ∈ (s.receive kind).shown, m.id < s.nextId + 1 := by
  obtain ⟨-, -, hshown⟩ := MessagingUseCase.showData_some (u := s.useCase) (m := ⟨s.nextId, kind⟩)
  exact shown_lt_append (fun m hm => Nat.lt_succ_of_lt (h.shown_lt m hm)) hshown
    (Nat.lt_succ_self _)

/-- And what is in the data is that message. -/
theorem data_receive : ∀ m ∈ (s.receive kind).useCase.messagingData, m.id < s.nextId + 1 := by
  obtain ⟨-, hdata, -⟩ := MessagingUseCase.showData_some (u := s.useCase) (m := ⟨s.nextId, kind⟩)
  intro m hm
  obtain rfl : (⟨s.nextId, kind⟩ : Message) = m := Option.some.inj (hdata.symm.trans hm)
  exact Nat.lt_succ_self _

/-- A dialog that nobody sees is owed. -/
theorem Inv.receive_unobserved (h : s.Inv) (hkind : kind.isDialog = true)
    (hobserver : s.useCase.observer = none) : (s.receive kind).Inv := by
  obtain ⟨hobs, -, -⟩ := MessagingUseCase.showData_some (u := s.useCase) (m := ⟨s.nextId, kind⟩)
  have heq := MessagingUseCase.showData_unobserved (m := ⟨s.nextId, kind⟩) hkind hobserver
  have howed : (s.receive kind).owed = some ⟨s.nextId, kind⟩ := by
    simp [MessagingRun.receive, hkind, hobserver]
  refine ⟨h.shown_receive, data_receive, ?_, ?_, ?_, fun _ => hobs.trans hobserver, fun _ => ?_⟩
  · rw [howed]
    rintro m ⟨⟩
    exact Nat.lt_succ_self _
  · rw [howed]
    rintro m ⟨⟩
    exact hkind
  · rw [howed]
    rintro m ⟨⟩ m' hm'
    have hm' : m' ∈ s.shown := by simpa [MessagingRun.receive, heq] using hm'
    exact Nat.ne_of_lt (h.shown_lt m' hm')
  · rw [howed]
    simp [MessagingRun.receive, heq]

/-- A dialog that is shown at once is owed to nobody. -/
theorem Inv.receive_observed (h : s.Inv) (hkind : kind.isDialog = true)
    (hobserver : s.useCase.observer = some observer) : (s.receive kind).Inv := by
  have heq := MessagingUseCase.showData_observed (m := ⟨s.nextId, kind⟩) hkind hobserver
  have howed : (s.receive kind).owed = none := by
    simp [MessagingRun.receive, hkind, hobserver]
  refine ⟨h.shown_receive, data_receive, ?_, ?_, ?_, fun hne => absurd howed hne, fun _ => ?_⟩
  · simp [howed]
  · simp [howed]
  · simp [howed]
  · rw [howed]
    simp [MessagingRun.receive, heq]

/-- A notification changes nothing in what is owed. -/
theorem Inv.receive_notification (h : s.Inv) (hkind : kind.isDialog = false) :
    (s.receive kind).Inv := by
  obtain ⟨hobs, -, -⟩ := MessagingUseCase.showData_some (u := s.useCase) (m := ⟨s.nextId, kind⟩)
  obtain ⟨shown, heq, hshown⟩ :=
    MessagingUseCase.showData_notification (u := s.useCase) (m := ⟨s.nextId, kind⟩) hkind
  have howed : (s.receive kind).owed = s.owed := by simp [MessagingRun.receive, hkind]
  refine ⟨h.shown_receive, data_receive, ?_, ?_, ?_, ?_, ?_⟩
  · rw [howed]
    exact fun m hm => Nat.lt_succ_of_lt (h.owed_lt m hm)
  · rw [howed]
    exact h.owed_dialog
  · rw [howed]
    intro m hm m' hm'
    have hm' : m' ∈ s.shown ∨ m' ∈ shown := by simpa [MessagingRun.receive, heq] using hm'
    rcases hm' with hold | hnew
    · exact h.owed_new m hm m' hold
    · -- the notification is a new message
      rcases hshown with rfl | rfl
      · exact absurd hnew (by simp)
      · obtain rfl := Option.some.inj hnew
        exact Nat.ne_of_gt (h.owed_lt m hm)
  · rw [howed]
    exact fun hne => hobs.trans (h.unobserved hne)
  · rw [howed]
    simpa [MessagingRun.receive, heq] using h.flag

/-- A message keeps the invariant, of whatever kind it is. -/
theorem Inv.receive (h : s.Inv) : (s.receive kind).Inv := by
  cases hkind : kind.isDialog with
  | true =>
    cases hobserver : s.useCase.observer with
    | none => exact h.receive_unobserved hkind hobserver
    | some observer => exact h.receive_observed hkind hobserver
  | false => exact h.receive_notification hkind

/-- What a `subscribe` does as long as no dialog has been missed: nothing is owed and nothing shown,
    or what is owed is in the data and shown, or it is not in the data. -/
theorem Inv.subscribe_cases (h : s.Inv) (observer : O) (hmissed : s.missed = []) :
    (s.owed = none ∧
      s.useCase.subscribe observer = ({ s.useCase with observer := some observer }, none)) ∨
    (∃ m, s.owed = some m ∧ s.useCase.messagingData = some m ∧
      s.useCase.subscribe observer = ({ s.useCase with
        observer := some observer, messagingData := some m, messagingDataNotShown := false },
        some m)) ∨
    ∃ m, s.owed = some m ∧ s.useCase.messagingData ≠ some m := by
  cases howed : s.owed with
  | none =>
    have hflag : s.useCase.messagingDataNotShown = false := by
      rw [← Bool.not_eq_true, h.flag hmissed, howed]
      simp
    exact .inl ⟨rfl, MessagingUseCase.subscribe_of_shown hflag⟩
  | some m =>
    have hflag : s.useCase.messagingDataNotShown = true := (h.flag hmissed).mpr (by simp [howed])
    by_cases hdata : s.useCase.messagingData = some m
    · exact .inr (.inl ⟨m, rfl, hdata,
        MessagingUseCase.subscribe_of_dialog hflag hdata (h.owed_dialog m howed)⟩)
    · exact .inr (.inr ⟨m, rfl, hdata⟩)

/-- What is owed and not shown is missed. -/
theorem missed_subscribe_of_ne (h : (s.useCase.subscribe observer).2 ≠ s.owed) :
    (s.subscribe observer).missed = s.missed ++ s.owed.toList := if_neg h

/-- A dialog that is not in the data any more is missed. -/
theorem missed_subscribe_ne_nil {m : Message} (howed : s.owed = some m)
    (hdata : s.useCase.messagingData ≠ some m) : (s.subscribe observer).missed ≠ [] := by
  obtain ⟨-, -, hshown⟩ := MessagingUseCase.subscribe_spec s.useCase observer
  have hne : (s.useCase.subscribe observer).2 ≠ s.owed := by
    rw [howed]
    rcases hshown with hnone | hsome
    · rw [hnone]
      exact nofun
    · rw [hsome]
      exact hdata
  rw [missed_subscribe_of_ne hne, howed]
  simp

/-- The next `subscribe` goes right if the dialog that is owed is still in the data. -/
theorem subscribe_right_iff (h : s.Inv) (hright : s.Right) :
    (s.subscribe observer).Right ↔ ∀ m ∈ s.owed, s.useCase.messagingData = some m := by
  rcases h.subscribe_cases observer hright.2 with
    ⟨howed, heq⟩ | ⟨m, howed, hdata, heq⟩ | ⟨m, howed, hdata⟩
  · refine iff_of_true ?_ (by simp [howed])
    simpa [Right, MessagingRun.subscribe, heq, howed] using hright
  · refine iff_of_true ⟨?_, ?_⟩ (by simp [howed, hdata])
    · have hnew : m.id ∉ s.shown.map Message.id := fun hmem => by
        obtain ⟨m', hm', hid⟩ := List.mem_map.mp hmem
        exact h.owed_new m howed m' hm' hid
      simp only [MessagingRun.subscribe, heq, Option.toList_some, List.map_append, List.map_cons,
        List.map_nil]
      exact List.nodup_append.mpr ⟨hright.1, by simp, by simpa using hnew⟩
    · simpa [MessagingRun.subscribe, heq, howed] using hright.2
  · exact iff_of_false (fun hs => missed_subscribe_ne_nil howed hdata hs.2)
      fun hall => hdata (hall m howed)

/-- A `subscribe` keeps the invariant. -/
theorem Inv.subscribe (h : s.Inv) : (s.subscribe observer).Inv := by
  obtain ⟨-, hdata, hshown⟩ :=
    MessagingUseCase.subscribe_spec s.useCase observer
  refine ⟨?_, ?_, fun m hm => absurd hm (by simp [MessagingRun.subscribe]),
    fun m hm => absurd hm (by simp [MessagingRun.subscribe]),
    fun m hm => absurd hm (by simp [MessagingRun.subscribe]),
    fun hne => absurd rfl hne, fun hmissed => ?_⟩
  · intro m hm
    rcases List.mem_append.mp hm with hold | hnew
    · exact h.shown_lt m hold
    · rcases hshown with heq | heq
      · simp [heq] at hnew
      · rw [heq, Option.mem_toList] at hnew
        exact h.data_lt m hnew
  · exact fun m hm => h.data_lt m (hdata ▸ hm)
  · have hold : s.missed = [] := by
      by_cases hall : (s.useCase.subscribe observer).2 = s.owed
      · simpa [MessagingRun.subscribe, hall] using hmissed
      · rw [missed_subscribe_of_ne hall, List.append_eq_nil_iff] at hmissed
        exact hmissed.1
    -- a dialog that was owed has been shown, so the flag is down
    rcases h.subscribe_cases observer hold with
      ⟨howed, heq⟩ | ⟨m, -, -, heq⟩ | ⟨m, howed, hne⟩
    · have hflag : ¬s.useCase.messagingDataNotShown = true := fun hf => (h.flag hold).mp hf howed
      simpa [MessagingRun.subscribe, heq] using hflag
    · simp [MessagingRun.subscribe, heq]
    · exact absurd hmissed (missed_subscribe_ne_nil howed hne)

/-- A call that shows nothing and owes nothing, and leaves the data and the flag alone. -/
theorem Inv.of_useCase (h : s.Inv) {u : MessagingUseCase O N}
    (hdata : ∀ m ∈ u.messagingData, s.useCase.messagingData = some m)
    (hflag : u.messagingDataNotShown = s.useCase.messagingDataNotShown)
    (hobs : s.useCase.observer = none → u.observer = none) :
    Inv { s with useCase := u } where
  shown_lt := h.shown_lt
  data_lt := fun m hm => h.data_lt m (hdata m hm)
  owed_lt := h.owed_lt
  owed_dialog := h.owed_dialog
  owed_new := h.owed_new
  unobserved := fun hne => hobs (h.unobserved hne)
  flag := fun hmissed => by
    show u.messagingDataNotShown = true ↔ _
    rw [hflag]
    exact h.flag hmissed

/-- All is delivered as long as what is owed is in the data. -/
theorem delivered_iff [Inhabited O] (h : s.Inv) :
    s.Delivered ↔ s.Right ∧ ∀ m ∈ s.owed, s.useCase.messagingData = some m :=
  ⟨fun hd => ⟨hd.1, (subscribe_right_iff h hd.1).mp (hd.2 default)⟩,
    fun hd => ⟨hd.1, fun _ => (subscribe_right_iff h hd.1).mpr hd.2⟩⟩

variable [DecidableEq O]

/-- `unsubscribe` may take the observer away, and leaves the rest alone. -/
theorem unsubscribe_spec (u : MessagingUseCase O N) (observer : O) :
    (u.unsubscribe observer).messagingData = u.messagingData ∧
      (u.unsubscribe observer).messagingDataNotShown = u.messagingDataNotShown ∧
      (u.observer = none → (u.unsubscribe observer).observer = none) := by
  unfold MessagingUseCase.unsubscribe
  split_ifs
  · exact ⟨rfl, rfl, fun _ => rfl⟩
  · exact ⟨rfl, rfl, id⟩

/-- **One call** keeps the invariant. -/
theorem Inv.next (h : s.Inv) (hnext : s.next e = some s') : s'.Inv := by
  cases e with
  | receive kind =>
    cases kind with
    | none =>
      obtain rfl := Option.some.inj hnext
      exact h.of_useCase (by simp [MessagingUseCase.showData]) rfl id
    | some kind =>
      obtain rfl := Option.some.inj hnext
      exact h.receive
  | subscribe observer =>
    obtain rfl := Option.some.inj hnext
    exact h.subscribe
  | unsubscribe observer =>
    obtain rfl := Option.some.inj hnext
    obtain ⟨hdata, hflag, hobs⟩ := unsubscribe_spec s.useCase observer
    exact h.of_useCase (fun m hm => hdata ▸ hm) hflag hobs
  | subscribeNotifications observer =>
    obtain rfl := Option.some.inj hnext
    exact h.of_useCase (fun _ hm => hm) rfl id

/-- **Every run** keeps the invariant. -/
theorem inv_of_reachable (h : (machine O N).Reachable s) : s.Inv := by
  refine Machine.Reachable.invariant ?_ (fun s e s' hinv hnext => hinv.next hnext) h
  rintro s rfl
  exact ⟨by simp [start], by simp [start, MessagingUseCase.new], by simp [start], by simp [start],
    by simp [start], by simp [start], by simp [start, MessagingUseCase.new]⟩

/-! ### When the messages are delivered -/

omit [DecidableEq O] in
/-- A message that arrives is new. -/
theorem Inv.right_receive (h : s.Inv) (hright : s.Right) : (s.receive kind).Right := by
  obtain ⟨-, -, hshown⟩ := MessagingUseCase.showData_some (u := s.useCase)
    (m := ⟨s.nextId, kind⟩)
  refine ⟨?_, hright.2⟩
  rcases hshown with heq | heq
  · simpa [MessagingRun.receive, heq] using hright.1
  · simp only [MessagingRun.receive, heq, Option.toList_some, List.map_append, List.map_cons,
      List.map_nil]
    refine List.nodup_append.mpr ⟨hright.1, by simp, ?_⟩
    rintro i hi j hj rfl
    obtain ⟨m, hm, rfl⟩ := List.mem_map.mp hi
    exact Nat.ne_of_lt (h.shown_lt m hm) (List.mem_singleton.mp hj)

omit [DecidableEq O] in
/-- A message that arrives takes the place of what is owed if it is a dialog, and of the data in
    any case. -/
theorem Inv.delivered_receive_iff [Inhabited O] (h : s.Inv) (hright : s.Right) :
    (s.receive kind).Delivered ↔ s.owed = none ∨ kind.isDialog = true := by
  obtain ⟨-, hdata, -⟩ := MessagingUseCase.showData_some (u := s.useCase)
    (m := ⟨s.nextId, kind⟩)
  rw [delivered_iff h.receive, and_iff_right (h.right_receive hright)]
  show (∀ m ∈ (s.receive kind).owed, (s.useCase.showData _).1.messagingData = some m) ↔ _
  rw [hdata]
  cases hkind : kind.isDialog with
  | true =>
    refine iff_of_true (fun m hm => ?_) (.inr rfl)
    simp only [MessagingRun.receive, hkind, if_true] at hm
    split_ifs at hm
    · exact absurd hm (by simp)
    · exact hm
  | false =>
    have howed : (s.receive kind).owed = s.owed := by simp [MessagingRun.receive, hkind]
    rw [howed]
    cases hs : s.owed with
    | none => simp
    | some m =>
      refine iff_of_false (fun hall => ?_) (by simp)
      obtain rfl := Option.some.inj (hall m rfl)
      exact Nat.lt_irrefl _ (h.owed_lt _ hs)

/-- A call that changes neither the data nor what is owed. -/
theorem delivered_of_useCase [Inhabited O] (h : s.Inv) (hd : s.Delivered)
    (hnext : s.next e = some s') (hdata : s'.useCase.messagingData = s.useCase.messagingData)
    (howed : s'.owed = s.owed) (hshown : s'.shown = s.shown) (hmissed : s'.missed = s.missed) :
    s'.Delivered := by
  obtain ⟨hright, hkept⟩ := (delivered_iff h).mp hd
  rw [delivered_iff (h.next hnext), Right, hshown, hmissed, howed, hdata]
  exact ⟨hright, hkept⟩

/-- **One call** keeps the messages delivered exactly if it meets the guard. -/
theorem delivered_next_iff [Inhabited O] (h : s.Inv) (hd : s.Delivered)
    (hnext : s.next e = some s') : s'.Delivered ↔ s.MessagingGuard e := by
  cases e with
  | receive kind =>
    cases kind with
    | none =>
      rw [delivered_iff (h.next hnext)]
      obtain rfl := Option.some.inj hnext
      have hright : Right { s with useCase := (s.useCase.showData none).1 } := hd.1
      rw [and_iff_right hright]
      cases hs : s.owed <;> simp [MessagingGuard, hs, MessagingUseCase.showData]
    | some kind =>
      obtain rfl := Option.some.inj hnext
      rw [h.delivered_receive_iff hd.1]
      simp [MessagingGuard]
  | subscribe observer =>
    refine iff_of_true ?_ trivial
    rw [delivered_iff (h.next hnext)]
    obtain rfl := Option.some.inj hnext
    -- the pending dialog goes to the observer that comes, and nothing is owed any more
    exact ⟨hd.2 observer, fun m hm => absurd hm (by simp [MessagingRun.subscribe])⟩
  | unsubscribe observer =>
    refine iff_of_true (delivered_of_useCase h hd hnext ?_ ?_ ?_ ?_) trivial
    all_goals obtain rfl := Option.some.inj hnext
    · exact (unsubscribe_spec s.useCase observer).1
    all_goals rfl
  | subscribeNotifications observer =>
    refine iff_of_true (delivered_of_useCase h hd hnext ?_ ?_ ?_ ?_) trivial
    all_goals obtain rfl := Option.some.inj hnext
    all_goals rfl

/-- The guard is met exactly by the calls that keep them delivered. -/
theorem messagingGuard_exact (O N : Type) [DecidableEq O] [Inhabited O] :
    (machine O N).ExactGuard (fun _ => True) MessagingGuard Delivered where
  init_iff := by
    rintro s rfl
    refine iff_of_true ?_ trivial
    rw [delivered_iff (inv_of_reachable (Machine.Reachable.start rfl))]
    exact ⟨⟨List.nodup_nil, rfl⟩, by simp [start]⟩
  step_iff := fun _ _ _ hreach hd hnext => delivered_next_iff (inv_of_reachable hreach) hd hnext

/-- **Push messages.**  In every run in which only dialogs arrive while a dialog is owed, no
    message is shown twice and a dialog that finds no observer is shown to the next one, unless a
    later dialog takes its place.  The guard is exact: behind the first call that breaks it, the
    next `subscribe` misses the dialog. -/
theorem delivered_of_guard (O N : Type) [DecidableEq O] [Inhabited O] :
    (∀ s, (machine O N).RunUnder (fun _ => True) MessagingGuard s → s.Delivered) ∧
    (machine O N).ExactGuard (fun _ => True) MessagingGuard Delivered :=
  ⟨fun _ => (messagingGuard_exact O N).runUnder, messagingGuard_exact O N⟩

/-- A dialog arrives without an observer, then a notification: the next observer is not called with
    the dialog, and the notification is shown a second time.  A null in place of the notification
    loses the dialog as well. -/
theorem notification_behind_dialog :
    (∃ s, (machine ℕ ℕ).Reachable s ∧ ¬(s.shown.map Message.id).Nodup ∧ s.missed ≠ []) ∧
    ∃ s, (machine ℕ ℕ).Reachable s ∧ s.shown = [] ∧ s.missed ≠ [] := by
  constructor
  · have hrun : (Machine.runEvents next (start : MessagingRun ℕ ℕ)
        [.subscribeNotifications 0, .receive (some .dialog), .receive (some .notification),
          .subscribe 0]).map (fun s => (s.shown.map Message.id, s.missed)) =
        some ([1, 1], [⟨0, .dialog⟩]) := by
      decide
    obtain ⟨s, hreach, heq⟩ := Machine.Reachable.exists_of_runEvents
      (show (machine ℕ ℕ).Reachable _ from .start rfl) hrun
    simp only [Prod.mk.injEq] at heq
    exact ⟨s, hreach, by rw [heq.1]; decide, by rw [heq.2]; decide⟩
  · have hrun : (Machine.runEvents next (start : MessagingRun ℕ ℕ)
        [.receive (some .dialogHtml), .receive none, .subscribe 0]).map
          (fun s => (s.shown, s.missed)) = some ([], [⟨0, .dialogHtml⟩]) := by
      decide
    obtain ⟨s, hreach, heq⟩ := Machine.Reachable.exists_of_runEvents
      (show (machine ℕ ℕ).Reachable _ from .start rfl) hrun
    simp only [Prod.mk.injEq] at heq
    exact ⟨s, hreach, heq.1, by rw [heq.2]; decide⟩

end MessagingRun

end PopcornTime.Android
