import PopcornTime.TorrentLib.SparseArrayRuns

namespace PopcornTime.TorrentLib

open PopcornTime

/-!
# Torrent library — who hears of an alert

The session keeps a list of listeners for every alert type, in `listeners`, and an array with the
same listeners, in `listenerSnapshots`, from which the alerts are fired while the lists change.  The
key `-1` has the listeners of all types.

* `SessionListeners` — the two sparse arrays; `modifyListeners`, `fireAlert`, one round of
  `alertsLoop`.
* `heard` — who has to hear of a type after what has been added and removed; `results`, what each
  call has to come to.
* `run_delivers` — every alert is delivered to them and to the listeners of all types, and a call
  throws for a `-1` among the types of its listener and for nothing else.
-/

/-- `listeners` has references to array lists; `lists` are the ones that have been made. -/
structure SessionListeners (L : Type) where
  lists : List (List L)
  listeners : SparseArray ℕ
  listenerSnapshots : SparseArray (List L)

inductive SessionCall (L : Type)
  | addListener (listener : Option L)
  | removeListener (listener : Option L)
  | alert (type : ℤ)

/-- What a call comes to.  An `IllegalArgumentException` goes to the caller, who has caught it when
    the next call is made. -/
inductive SessionResult (L : Type)
  | returned
  | illegalArgument
  | delivered (type : ℤ) (listeners : List L)
deriving DecidableEq

namespace SessionListeners

variable {L : Type} [DecidableEq L]

def new : SessionListeners L := ⟨[], .new 10, .new 10⟩

/-- `if (adding) l.add(listener) else l.remove(listener)`. -/
def modified (adding : Bool) (listener : L) (l : List L) : List L :=
  if adding then l ++ [listener] else l.erase listener

/-- The list of a type, a new one if there is none. -/
def listOf (s : SessionListeners L) (type : ℤ) : Option (SessionListeners L × ℕ) := do
  match ← s.listeners.get type none with
  | some l => some (s, l)
  | none =>
    let l := s.lists.length
    let listeners ← s.listeners.append type (some l)
    some ({ s with lists := s.lists ++ [[]], listeners := listeners }, l)

/-- `modifyListeners` for one type. -/
def modifyType (s : SessionListeners L) (adding : Bool) (type : ℤ) (listener : L) :
    Option (SessionListeners L) := do
  let (s, l) ← s.listOf type
  let list := modified adding listener (s.lists.getD l [])
  let listenerSnapshots ← s.listenerSnapshots.append type (some list)
  some { s with lists := s.lists.set l list, listenerSnapshots := listenerSnapshots }

/-- The loop over the types of a listener.  It throws at the key of all, `-1`, and what it has
    written before stays. -/
def modifyTypes (adding : Bool) (listener : L) (s : SessionListeners L) :
    List ℤ → Option (SessionListeners L × SessionResult L)
  | [] => some (s, .returned)
  | type :: types =>
    if type = -1 then some (s, .illegalArgument)
    else (s.modifyType adding type listener).bind fun s => modifyTypes adding listener s types

/-- `modifyListeners`; `types` is what `types()` returns. -/
def modifyListeners (types : L → Option (List ℤ)) (s : SessionListeners L) (adding : Bool)
    (listener : Option L) : Option (SessionListeners L × SessionResult L) :=
  match listener with
  | none => some (s, .returned)
  | some listener =>
    match types listener with
    | none => (s.modifyType adding (-1) listener).map fun s => (s, .returned)
    | some types => s.modifyTypes adding listener types

/-- The listeners that `fireAlert` calls, one after the other; what one throws is caught. -/
def fireAlert (s : SessionListeners L) (type : ℤ) : Option (List L) := do
  match ← s.listenerSnapshots.get type none with
  | none => some []
  | some listeners => some listeners

/-- `if (listeners.indexOfKey(type) >= 0)` in `alertsLoop`. -/
def fireListened (s : SessionListeners L) (type : ℤ) : Option (SessionListeners L × List L) := do
  let (i, listeners) := s.listeners.indexOfKey type
  let s := { s with listeners := listeners }
  let called ← if 0 ≤ (← i) then s.fireAlert type else some []
  some (s, called)

/-- One alert in `alertsLoop`, with the listeners that are called. -/
def onAlert (s : SessionListeners L) (type : ℤ) : Option (SessionListeners L × List L) := do
  let (s, ofType) ← s.fireListened type
  let (s, ofAll) ← s.fireListened (-1)
  some (s, ofType ++ ofAll)

/-- A call to the session. -/
def run (types : L → Option (List ℤ)) (s : SessionListeners L) :
    SessionCall L → Option (SessionListeners L × SessionResult L)
  | .addListener listener => s.modifyListeners types true listener
  | .removeListener listener => s.modifyListeners types false listener
  | .alert type => (s.onAlert type).map fun p => (p.1, .delivered type p.2)

/-- The calls in their order, with what they come to. -/
def runAll (types : L → Option (List ℤ)) (s : SessionListeners L) :
    List (SessionCall L) → Option (SessionListeners L × List (SessionResult L))
  | [] => some (s, [])
  | call :: calls => do
    let (s, result) ← s.run types call
    let (s, rest) ← runAll types s calls
    some (s, result :: rest)

end SessionListeners

/-! ### Who has to hear -/

section Subscribed

variable {L : Type} [DecidableEq L]

/-- The keys that a listener is put under: all its types, or those before the first `-1`. -/
def keys (types : Option (List ℤ)) : List ℤ :=
  match types with
  | none => [-1]
  | some types => types.takeWhile (· ≠ -1)

/-- The listeners of each type. -/
def subscribe (types : L → Option (List ℤ)) (adding : Bool) (listener : Option L)
    (subscribed : ℤ → List L) : ℤ → List L :=
  match listener with
  | none => subscribed
  | some listener => (keys (types listener)).foldl (fun subscribed type =>
      Function.update subscribed type
        (SessionListeners.modified adding listener (subscribed type))) subscribed

/-- The listeners of each type after a call. -/
def heard (types : L → Option (List ℤ)) (subscribed : ℤ → List L) : SessionCall L → ℤ → List L
  | .addListener listener => subscribe types true listener subscribed
  | .removeListener listener => subscribe types false listener subscribed
  | .alert _ => subscribed

/-- The types of the listener have the key of all among them. -/
def HasKeyOfAll (types : L → Option (List ℤ)) (listener : Option L) : Prop :=
  ∃ l ∈ listener, ∃ keys ∈ types l, -1 ∈ keys

instance (types : L → Option (List ℤ)) (listener : Option L) :
    Decidable (HasKeyOfAll types listener) :=
  inferInstanceAs (Decidable (∃ l ∈ listener, ∃ keys ∈ types l, -1 ∈ keys))

/-- What a call has to come to. -/
def result (types : L → Option (List ℤ)) (subscribed : ℤ → List L) : SessionCall L → SessionResult L
  | .addListener listener | .removeListener listener =>
    if HasKeyOfAll types listener then .illegalArgument else .returned
  | .alert type => .delivered type (subscribed type ++ subscribed (-1))

def results (types : L → Option (List ℤ)) (subscribed : ℤ → List L) :
    List (SessionCall L) → List (SessionResult L)
  | [] => []
  | call :: calls => result types subscribed call :: results types (heard types subscribed call) calls

end Subscribed

namespace SessionListeners

variable {L : Type} [DecidableEq L] {s : SessionListeners L} {types : L → Option (List ℤ)}
  {subscribed : ℤ → List L} {n : ℕ}

/-- **The invariant.**  `refs` is the list of each type, and `snaps` the array with the same
    listeners; there are at most `n` types. -/
structure Holds (s : SessionListeners L) (subscribed : ℤ → List L) (n : ℕ)
    (refs : ℤ → Option ℕ) (snaps : ℤ → Option (List L)) : Prop where
  listeners : s.listeners.Represents fun type => (refs type).map some
  listenerSnapshots : s.listenerSnapshots.Represents fun type => (snaps type).map some
  lists : ∀ type l, refs type = some l → s.lists[l]? = some (subscribed type)
  fresh : ∀ type, refs type = none → subscribed type = []
  snapshot : ∀ type, (snaps type).getD [] = subscribed type
  injective : ∀ type type' l, refs type = some l → refs type' = some l → type = type'
  mSize_le : s.listeners.mSize ≤ n ∧ s.listenerSnapshots.mSize ≤ n

theorem update_map {β γ : Type} (f : β → γ) (m : ℤ → Option β) (key : ℤ) (b : β) :
    Function.update (fun k => (m k).map f) key (some (f b)) =
      fun k => (Function.update m key (some b) k).map f := by
  funext k
  rcases eq_or_ne k key with rfl | hne
  · rw [Function.update_self, Function.update_self, Option.map_some]
  · rw [Function.update_of_ne hne, Function.update_of_ne hne]

omit [DecidableEq L] in
theorem new_holds : (new : SessionListeners L).Holds (fun _ => []) 0 (fun _ => none) fun _ => none where
  listeners := SparseArray.new_spec 10
  listenerSnapshots := SparseArray.new_spec 10
  lists := fun _ _ h => by cases h
  fresh := fun _ _ => rfl
  snapshot := fun _ => rfl
  injective := fun _ _ _ h => by cases h
  mSize_le := ⟨le_refl 0, le_refl 0⟩

omit [DecidableEq L] in
/-- A type that has no list gets an empty one, to which nobody else refers. -/
theorem Holds.listOf {refs snaps} (h : s.Holds subscribed n refs snaps) (type : ℤ)
    (hn : n + 1 < 2 ^ 29) :
    ∃ s' l refs', s.listOf type = some (s', l) ∧ refs' type = some l ∧
      s'.Holds subscribed (n + 1) refs' snaps ∧ s'.listenerSnapshots = s.listenerSnapshots := by
  have hsize := h.mSize_le
  have hget := SparseArray.get_spec h.listeners type none
  cases hrefs : refs type with
  | some l =>
    rw [hrefs] at hget
    refine ⟨s, l, refs, ?_, hrefs, ⟨h.listeners, h.listenerSnapshots, h.lists, h.fresh, h.snapshot,
      h.injective, by omega⟩, rfl⟩
    rw [SessionListeners.listOf, hget]
    rfl
  | none =>
    rw [hrefs] at hget
    -- no list for the type yet: an empty one is made and put into the array
    obtain ⟨listeners, happend, hrep, hle⟩ := SparseArray.append_spec h.listeners type
      (some s.lists.length) (by omega)
    rw [update_map] at hrep
    -- the new list is at the end, so it is not the list of another type
    have hnew : ∀ type' l, refs type' = some l → l < s.lists.length := fun type' l hl =>
      (List.getElem?_eq_some_iff.mp (h.lists type' l hl)).1
    refine ⟨{ s with lists := s.lists ++ [[]], listeners := listeners }, s.lists.length,
      Function.update refs type (some s.lists.length), ?_, Function.update_self .., ?_, rfl⟩
    · rw [SessionListeners.listOf, hget]
      simp [happend]
    · refine ⟨hrep, h.listenerSnapshots, fun type' l hl => ?_, fun type' hl => ?_, h.snapshot,
        fun type' type'' l hl hl' => ?_, hle.trans (by omega), hsize.2.trans (Nat.le_succ n)⟩
      · rcases eq_or_ne type' type with rfl | hne
        · rw [Function.update_self, Option.some.injEq] at hl
          rw [← hl, h.fresh type' hrefs]
          exact List.getElem?_concat_length
        · rw [Function.update_of_ne hne] at hl
          rw [List.getElem?_append_left (hnew type' l hl)]
          exact h.lists type' l hl
      · rcases eq_or_ne type' type with rfl | hne
        · rw [Function.update_self] at hl
          cases hl
        · rw [Function.update_of_ne hne] at hl
          exact h.fresh type' hl
      · rcases eq_or_ne type' type with rfl | hne <;> rcases eq_or_ne type'' type' with rfl | hne'
        · rfl
        · rw [Function.update_self, Option.some.injEq] at hl
          rw [Function.update_of_ne hne'] at hl'
          exact absurd (hnew type'' l hl') (by omega)
        · rfl
        · rw [Function.update_of_ne hne] at hl
          rcases eq_or_ne type'' type with rfl | hne''
          · rw [Function.update_self, Option.some.injEq] at hl'
            exact absurd (hnew type' l hl) (by omega)
          · rw [Function.update_of_ne hne''] at hl'
            exact h.injective type' type'' l hl hl'

/-- The list of the type changes, and its array with it; all the others stay. -/
theorem Holds.modifyType {refs snaps} (h : s.Holds subscribed n refs snaps) (adding : Bool)
    (type : ℤ) (listener : L) (hn : n + 1 < 2 ^ 29) :
    ∃ s' refs' snaps', s.modifyType adding type listener = some s' ∧
      s'.Holds (Function.update subscribed type (modified adding listener (subscribed type)))
        (n + 1) refs' snaps' := by
  obtain ⟨s₁, l, refs', hlist, hl, h₁, hsame⟩ := h.listOf type hn
  have hsize := h.mSize_le.2
  -- the list of the type is the one that is changed, its snapshot is made anew
  have hcontent : s₁.lists.getD l [] = subscribed type := by
    rw [List.getD_eq_getElem?_getD, h₁.lists type l hl, Option.getD_some]
  have hlt : l < s₁.lists.length := (List.getElem?_eq_some_iff.mp (h₁.lists type l hl)).1
  obtain ⟨snapshots, happend, hrep, hle⟩ := SparseArray.append_spec h₁.listenerSnapshots type
    (some (modified adding listener (subscribed type)))
    (by rw [hsame]; omega)
  rw [update_map] at hrep
  refine ⟨{ s₁ with
      lists := s₁.lists.set l (modified adding listener (subscribed type))
      listenerSnapshots := snapshots }, refs',
    Function.update snaps type (some (modified adding listener (subscribed type))), ?_, ?_⟩
  · rw [SessionListeners.modifyType, hlist]
    simp only [Option.bind_eq_bind, Option.bind_some, hcontent, happend]
  · refine ⟨h₁.listeners, hrep, fun type' l' hl' => ?_, fun type' hl' => ?_, fun type' => ?_,
      h₁.injective, h₁.mSize_le.1, hle.trans (by rw [hsame]; omega)⟩
    · rcases eq_or_ne type' type with rfl | hne
      · rw [hl, Option.some.injEq] at hl'
        rw [← hl', Function.update_self]
        exact List.getElem?_set_self hlt
      · -- no two types share a list
        have hother : l ≠ l' := fun heq => hne (h₁.injective type' type l' hl' (heq ▸ hl))
        rw [Function.update_of_ne hne, List.getElem?_set_ne hother]
        exact h₁.lists type' l' hl'
    · have hne : type' ≠ type := fun heq => by
        rw [heq, hl] at hl'
        cases hl'
      rw [Function.update_of_ne hne]
      exact h₁.fresh type' hl'
    · rcases eq_or_ne type' type with rfl | hne
      · rw [Function.update_self, Function.update_self, Option.getD_some]
      · rw [Function.update_of_ne hne, Function.update_of_ne hne]
        exact h₁.snapshot type'

/-- The number of types that a listener is put under. -/
def written (types : L → Option (List ℤ)) (listener : Option L) : ℕ :=
  match listener with
  | none => 0
  | some listener => (keys (types listener)).length

def writes (types : L → Option (List ℤ)) : SessionCall L → ℕ
  | .addListener listener | .removeListener listener => written types listener
  | .alert _ => 0

/-- The loop writes the types before the first `-1`, and throws where there is one. -/
theorem Holds.modifyTypes {refs snaps} (h : s.Holds subscribed n refs snaps) (adding : Bool)
    (listener : L) (types : List ℤ) (hn : n + (keys (some types)).length < 2 ^ 29) :
    ∃ s' refs' snaps', SessionListeners.modifyTypes adding listener s types =
        some (s', if -1 ∈ types then .illegalArgument else .returned) ∧
      s'.Holds ((keys (some types)).foldl (fun subscribed type => Function.update subscribed type
        (modified adding listener (subscribed type))) subscribed)
        (n + (keys (some types)).length) refs' snaps' := by
  -- on the types: the ones before a -1 are changed, then the call throws
  induction types generalizing s subscribed n refs snaps with
  | nil => exact ⟨s, refs, snaps, rfl, h⟩
  | cons type types ih =>
    rcases eq_or_ne type (-1) with rfl | hne
    · exact ⟨s, refs, snaps, by simp [SessionListeners.modifyTypes], by simpa [keys] using h⟩
    · have hkeys : keys (some (type :: types)) = type :: keys (some types) := by
        simp [keys, hne]
      rw [hkeys, List.length_cons] at hn ⊢
      obtain ⟨s₁, refs₁, snaps₁, hmodify, h₁⟩ := h.modifyType adding type listener (by omega)
      obtain ⟨s', refs', snaps', hrest, h'⟩ := ih h₁ (by omega)
      refine ⟨s', refs', snaps', ?_, ?_⟩
      · rw [SessionListeners.modifyTypes, if_neg hne, hmodify, Option.bind_some, hrest]
        simp [hne.symm]
      · rw [List.foldl_cons]
        have hlength : n + ((keys (some types)).length + 1) =
            n + 1 + (keys (some types)).length := by
          omega
        rw [hlength]
        exact h'

theorem Holds.modifyListeners {refs snaps} (h : s.Holds subscribed n refs snaps) (adding : Bool)
    (listener : Option L) (hn : n + written types listener < 2 ^ 29) :
    ∃ s' refs' snaps', s.modifyListeners types adding listener =
        some (s', if HasKeyOfAll types listener then .illegalArgument else .returned) ∧
      s'.Holds (subscribe types adding listener subscribed) (n + written types listener)
        refs' snaps' := by
  cases listener with
  | none => exact ⟨s, refs, snaps, by simp [SessionListeners.modifyListeners, HasKeyOfAll], h⟩
  | some listener =>
    unfold SessionListeners.modifyListeners subscribe
    unfold written at hn ⊢
    dsimp only at hn ⊢
    cases htypes : types listener with
    | none =>
      rw [htypes] at hn
      obtain ⟨s', refs', snaps', hmodify, h'⟩ := h.modifyType adding (-1) listener hn
      exact ⟨s', refs', snaps', by simp [hmodify, HasKeyOfAll, htypes], h'⟩
    | some ts =>
      rw [htypes] at hn
      obtain ⟨s', refs', snaps', hmodify, h'⟩ := h.modifyTypes adding listener ts hn
      exact ⟨s', refs', snaps', by simp [hmodify, HasKeyOfAll, htypes], h'⟩

omit [DecidableEq L] in
theorem Holds.fireAlert {refs snaps} (h : s.Holds subscribed n refs snaps) (type : ℤ) :
    s.fireAlert type = some (subscribed type) := by
  rw [SessionListeners.fireAlert, SparseArray.get_spec h.listenerSnapshots type, ← h.snapshot type]
  cases snaps type <;> rfl

omit [DecidableEq L] in
/-- A type without a list has no listeners. -/
theorem Holds.fireListened {refs snaps} (h : s.Holds subscribed n refs snaps) (type : ℤ) :
    ∃ s', s.fireListened type = some (s', subscribed type) ∧ s'.Holds subscribed n refs snaps := by
  have hw := h.listeners.toWellFormed
  have hcollected : { s with listeners := s.listeners.collect }.Holds subscribed n refs snaps :=
    { h with
      listeners := h.listeners.collect
      mSize_le := ⟨(SparseArray.collect_mSize_le hw).trans h.mSize_le.1, h.mSize_le.2⟩ }
  obtain ⟨i, hindex, hlistened⟩ := SparseArray.indexOfKey_spec h.listeners type
  refine ⟨_, ?_, hcollected⟩
  rw [SessionListeners.fireListened]
  show (s.listeners.indexOfKey type).1.bind _ = _
  rw [hindex, Option.bind_some]
  by_cases hi : 0 ≤ i
  · rw [if_pos hi, hcollected.fireAlert type]
    rfl
  · have hnone : refs type = none := by
      have hm := not_not.mp (mt hlistened.mpr hi)
      exact Option.map_eq_none_iff.mp hm
    rw [if_neg hi, h.fresh type hnone]
    rfl

omit [DecidableEq L] in
theorem Holds.onAlert {refs snaps} (h : s.Holds subscribed n refs snaps) (type : ℤ) :
    ∃ s', s.onAlert type = some (s', subscribed type ++ subscribed (-1)) ∧
      s'.Holds subscribed n refs snaps := by
  obtain ⟨s₁, hfire, h₁⟩ := h.fireListened type
  obtain ⟨s', hfire', h'⟩ := h₁.fireListened (-1)
  refine ⟨s', ?_, h'⟩
  rw [SessionListeners.onAlert, hfire]
  simp only [Option.bind_eq_bind, Option.bind_some, hfire']

/-- One call, and what it comes to. -/
theorem Holds.run {refs snaps} (h : s.Holds subscribed n refs snaps) (call : SessionCall L)
    (hn : n + writes types call < 2 ^ 29) :
    ∃ s' refs' snaps', s.run types call = some (s', result types subscribed call) ∧
      s'.Holds (heard types subscribed call) (n + writes types call) refs' snaps' := by
  cases call with
  | addListener listener => exact h.modifyListeners true listener hn
  | removeListener listener => exact h.modifyListeners false listener hn
  | alert type =>
    obtain ⟨s', halert, h'⟩ := h.onAlert type
    exact ⟨s', refs, snaps, by rw [SessionListeners.run, halert]; rfl, h'⟩

/-- **Every alert is delivered** to the listeners of its type, in the order in which they were
    added, and then to the listeners of all types, whatever has been added and removed before.  A
    call throws exactly if `-1` is among the types of its listener. -/
theorem run_delivers (types : L → Option (List ℤ)) (calls : List (SessionCall L))
    (hcalls : (calls.map (writes types)).sum < 2 ^ 29) :
    ∃ s, new.runAll types calls = some (s, results types (fun _ => []) calls) := by
  suffices go : ∀ (s : SessionListeners L) subscribed n refs snaps, s.Holds subscribed n refs snaps →
      n + (calls.map (writes types)).sum < 2 ^ 29 →
      ∃ s', s.runAll types calls = some (s', results types subscribed calls) from
    go new _ 0 _ _ new_holds (by omega)
  clear hcalls
  induction calls with
  | nil => exact fun s _ _ _ _ _ _ => ⟨s, rfl⟩
  | cons call calls ih =>
    intro s subscribed n refs snaps h hsum
    rw [List.map_cons, List.sum_cons] at hsum
    have hfits : n + writes types call < 2 ^ 29 := by omega
    obtain ⟨s₁, refs₁, snaps₁, hrun, h₁⟩ := h.run call hfits
    obtain ⟨s', hrest⟩ := ih s₁ _ _ refs₁ snaps₁ h₁ (by omega)
    refine ⟨s', ?_⟩
    rw [runAll, hrun]
    simp only [Option.bind_eq_bind, Option.bind_some, hrest]
    rfl

/-- A listener of the types 3 and 7 that is added twice hears an alert of type 7 twice, and one of
    all types hears it last; the listener of the types 7, -1 and 3 hears it although its call has
    thrown. -/
theorem run_delivers_four : ∃ s, (new : SessionListeners ℕ).runAll
    (fun listener => [none, some [3, 7], some [7, -1, 3]].getD listener none)
    [.addListener (some 0), .addListener (some 1), .addListener (some 1), .addListener (some 2),
      .alert 7] =
      some (s, [.returned, .returned, .returned, .illegalArgument, .delivered 7 [1, 1, 2, 0]]) :=
  run_delivers (fun listener => [none, some [3, 7], some [7, -1, 3]].getD listener none)
    [.addListener (some 0), .addListener (some 1), .addListener (some 1), .addListener (some 2),
      .alert 7] (by decide)

end SessionListeners

end PopcornTime.TorrentLib
