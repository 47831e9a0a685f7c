import Mathlib.Data.List.Basic
import Mathlib.Tactic.Cases
import Mathlib.Tactic.SplitIfs
import PopcornTime.Lib.Machine

namespace PopcornTime.TorrentLib

open PopcornTime

/-!
# Torrent library — the registry of the client

The client keeps a set of handles, the torrents it has been given, beside libtorrent's own session.
`add` puts a handle in the set when it adds the torrent to the session; for an https uri a task adds
the torrent later, and the handle stays outside.  `remove` takes the torrent out of the session at
once and leaves its handle in the set until the session's alert comes.

* `Session` — the torrents of libtorrent's session.
* `Registry` — the handles and the set, with `add`, `remove` and the alerts.
* `Run` — a registry with what has been returned and removed so far; `machine` — its steps.
* `Registered`, `AddsOnce`, `AddsAgain` — what is to hold; `Guard` — when a step keeps it.
-/

inductive Scheme
  | file
  | http
  | https
  | magnet
  | other
deriving DecidableEq, Repr

structure Uri where
  scheme : Scheme
  schemeSpecificPart : String
deriving DecidableEq, Repr

/-! ### The session -/

/-- libtorrent's session: for every torrent there has ever been what it is known by, its info hash or
    its url, and the torrents that are in it. -/
structure Session where
  known : List ℕ
  torrents : List ℕ
  lt_known : ∀ id ∈ torrents, id < known.length
  eq_of_known : ∀ id ∈ torrents, ∀ id' ∈ torrents, known[id]? = known[id']? → id = id'
deriving DecidableEq, Repr

namespace Session

def empty : Session := ⟨[], [], by simp, by simp⟩

/-- A torrent with a key of its own comes in. -/
def insert (s : Session) (key : ℕ) (h : ∀ id ∈ s.torrents, s.known[id]? ≠ some key) : Session where
  known := s.known ++ [key]
  torrents := s.torrents ++ [s.known.length]
  lt_known := by
    intro id hid
    rw [List.length_append, List.length_singleton]
    rcases List.mem_append.mp hid with hid | hid
    · exact Nat.lt_succ_of_lt (s.lt_known id hid)
    · rw [List.mem_singleton.mp hid]
      exact Nat.lt_succ_self _
  eq_of_known := by
    have hold : ∀ id ∈ s.torrents, (s.known ++ [key])[id]? = s.known[id]? := fun id hid =>
      List.getElem?_append_left (s.lt_known id hid)
    have hnew : (s.known ++ [key])[s.known.length]? = some key := List.getElem?_concat_length
    intro id hid id' hid' hkey
    rcases List.mem_append.mp hid with hid | hid <;> rcases List.mem_append.mp hid' with hid' | hid'
    · rw [hold id hid, hold id' hid'] at hkey
      exact s.eq_of_known id hid id' hid' hkey
    · rw [List.mem_singleton.mp hid', hold id hid, hnew] at hkey
      exact absurd hkey (h id hid)
    · rw [List.mem_singleton.mp hid, hold id' hid', hnew] at hkey
      exact absurd hkey.symm (h id' hid')
    · rw [List.mem_singleton.mp hid, List.mem_singleton.mp hid']

/-- `add_torrent`: a torrent that is there already is returned again. -/
def addTorrent (s : Session) (key : ℕ) : Session × ℕ :=
  match h : s.torrents.find? fun id => s.known[id]? = some key with
  | some id => (s, id)
  | none =>
    (s.insert key fun id hid hkey =>
      absurd (List.find?_eq_none.mp h id hid) (not_not_intro (decide_eq_true hkey)), s.known.length)

def removeTorrent (s : Session) (id : ℕ) : Session where
  known := s.known
  torrents := s.torrents.filter (· ≠ id)
  lt_known := fun _ hid => s.lt_known _ (List.mem_filter.mp hid).1
  eq_of_known := fun _ hid _ hid' =>
    s.eq_of_known _ (List.mem_filter.mp hid).1 _ (List.mem_filter.mp hid').1

end Session

/-! ### The registry -/

/-- A `LibTorrentHandle`, with the torrent that it is a handle of, or null. -/
structure LibTorrentHandle where
  uri : Uri
  torrent : Option ℕ
deriving DecidableEq, Repr

inductive Alert
  | torrentAdded
  | torrentRemoved
  | torrentResumed
  | torrentPaused
  | torrentChecked
  | torrentFinished
  | torrentError
  | addTorrent
  | metadataReceived
  | metadataFailed
  | pieceFinished
  | blockFinished
  | saveResumeData
deriving DecidableEq, Repr

inductive TorrentListenerCall
  | onTorrentAdded
  | onTorrentRemoved
  | onTorrentResumed
  | onTorrentPaused
  | onTorrentChecked
  | onTorrentFinished
  | onTorrentError
  | onMetadataReceived
  | onMetadataFailed
  | onPieceFinished
  | onBlockFinished
  | onSaveResumeData
deriving DecidableEq, Repr

/-- The call by which the listeners hear of an alert. -/
def Alert.call : Alert → TorrentListenerCall
  | .torrentAdded | .addTorrent => .onTorrentAdded
  | .torrentRemoved => .onTorrentRemoved
  | .torrentResumed => .onTorrentResumed
  | .torrentPaused => .onTorrentPaused
  | .torrentChecked => .onTorrentChecked
  | .torrentFinished => .onTorrentFinished
  | .torrentError => .onTorrentError
  | .metadataReceived => .onMetadataReceived
  | .metadataFailed => .onMetadataFailed
  | .pieceFinished => .onPieceFinished
  | .blockFinished => .onBlockFinished
  | .saveResumeData => .onSaveResumeData

/-- The client, as far as its handles go; a handle is its place in `handles`. -/
structure Registry where
  session : Session
  /-- All handles that have been constructed. -/
  handles : List LibTorrentHandle
  /-- `getTorrents()` -/
  torrents : List ℕ
  /-- The handles whose `LibTorrentAddTask` has not returned. -/
  loading : List ℕ
  /-- The torrents that have left the session, until its alert. -/
  removing : List ℕ
  /-- What the listeners have heard. -/
  calls : List (TorrentListenerCall × ℕ)
deriving DecidableEq, Repr

namespace Registry

def getTorrent (r : Registry) (handle : ℕ) : Option ℕ :=
  (r.handles[handle]?).bind LibTorrentHandle.torrent

def findTorrent (r : Registry) (torrent : ℕ) : Option ℕ :=
  r.torrents.find? fun handle => r.getTorrent handle = some torrent

def addTorrent (r : Registry) (handle : ℕ) : Registry :=
  { r with torrents := r.torrents ++ [handle] }

def removeTorrent (r : Registry) (handle : ℕ) : Registry :=
  { r with torrents := r.torrents.filter (· ≠ handle) }

def call (r : Registry) (c : TorrentListenerCall) (handle : ℕ) : Registry :=
  { r with calls := r.calls ++ [(c, handle)] }

/-- `add` with the params of a torrent. -/
def addParams (r : Registry) (uri : Uri) (key : ℕ) : Registry × Option ℕ :=
  let (session, th) := r.session.addTorrent key
  let r := { r with session := session }
  match r.findTorrent th with
  -- another uri of a torrent that is there: the handle is the old one
  | some handle => (r, some handle)
  | none =>
    let handle := r.handles.length
    let r : Registry := { r with handles := r.handles ++ [⟨uri, some th⟩] }
    (r.addTorrent handle, some handle)

/-- `add`, and what it returns; `params` is what a uri gives the torrent to be known by, or nothing
    where libtorrent cannot read it: the magnet is then answered with null, the file with an
    exception. -/
def add (params : Uri → Option ℕ) (r : Registry) (uri : Uri) : Registry × Option ℕ :=
  match r.torrents.find? fun handle => (r.handles[handle]?).map LibTorrentHandle.uri = some uri with
  | some handle => (r, some handle)
  | none =>
    match uri.scheme with
    | .file | .http | .magnet =>
      match params uri with
      | none => (r, none)
      | some key => r.addParams uri key
    -- the file is fetched first, so the handle has no torrent yet
    | .https =>
      ({ r with
          handles := r.handles ++ [⟨uri, none⟩]
          loading := r.loading ++ [r.handles.length] }, some r.handles.length)
    | .other => (r, none)

/-- `onMetadataLoaded` and `onMetadataLoadError`; the metadata may be of any torrent, or of none. -/
def metadataLoaded (r : Registry) (handle : ℕ) (key : Option ℕ) : Registry :=
  let r := { r with loading := r.loading.filter (· ≠ handle) }
  match key with
  | none => r
  | some key =>
    -- the handle gets its torrent, but no place among the tracked ones
    let (session, th) := r.session.addTorrent key
    { r with
      session := session
      handles := r.handles.modify handle fun h => { h with torrent := some th } }

/-- `remove`, or nothing where it throws: `op_eq` takes no null. -/
def remove (r : Registry) (handle : ℕ) : Option Registry :=
  match r.getTorrent handle with
  | some th =>
    if th ∈ r.session.torrents then
      some { r with session := r.session.removeTorrent th, removing := r.removing ++ [th] }
    -- the session has lost it: the listeners hear of the removal at once
    else some ((r.removeTorrent handle).call .onTorrentRemoved handle)
  | none =>
    -- no torrent to compare with, so nothing throws
    if r.session.torrents = [] then some ((r.removeTorrent handle).call .onTorrentRemoved handle)
    else none

/-- The client's alert listener. -/
def onAlert (r : Registry) (alert : Alert) (torrent : ℕ) : Registry :=
  match r.findTorrent torrent with
  | none => r
  | some handle =>
    if alert = .torrentRemoved then (r.removeTorrent handle).call alert.call handle
    else r.call alert.call handle

end Registry

/-! ### The steps -/

/-- A registry with the uris that have been added, each with the handle that was returned, and the
    handles for which `remove` has returned true. -/
structure Run where
  registry : Registry
  returned : List (Uri × ℕ)
  removed : List ℕ
deriving DecidableEq, Repr

inductive RegistryEvent
  | add (uri : Uri)
  | remove (handle : ℕ)
  | metadataLoaded (handle : ℕ) (key : Option ℕ)
  | alert (alert : Alert) (torrent : ℕ)
deriving DecidableEq, Repr

namespace Run

def start : Run := ⟨⟨.empty, [], [], [], [], []⟩, [], []⟩

def add (params : Uri → Option ℕ) (s : Run) (uri : Uri) : Run :=
  { s with
    registry := (s.registry.add params uri).1
    returned := s.returned ++ ((s.registry.add params uri).2.map fun handle => (uri, handle)).toList }

def remove (s : Run) (handle : ℕ) : Run :=
  match s.registry.remove handle with
  | none => s
  | some r => { s with registry := r, removed := s.removed ++ [handle] }

/-- The alerts of a removal come once for each; the other ones may come late. -/
def onAlert (s : Run) (alert : Alert) (torrent : ℕ) : Option Run :=
  if alert = .torrentRemoved then
    if torrent ∈ s.registry.removing then
      some { s with registry := { s.registry with
        removing := s.registry.removing.filter (· ≠ torrent) }.onAlert alert torrent }
    else none
  else if torrent < s.registry.session.known.length then
    some { s with registry := s.registry.onAlert alert torrent }
  else none

def next (params : Uri → Option ℕ) (s : Run) : RegistryEvent → Option Run
  | .add uri => some (s.add params uri)
  | .remove handle => if handle < s.registry.handles.length then some (s.remove handle) else none
  | .metadataLoaded handle key =>
    if handle ∈ s.registry.loading then
      some { s with registry := s.registry.metadataLoaded handle key }
    else none
  | .alert alert torrent => s.onAlert alert torrent

def machine (params : Uri → Option ℕ) : Machine Run RegistryEvent :=
  .ofFun (· = start) (next params)

/-- The torrent of a handle is in the session. -/
def InSession (s : Run) (handle : ℕ) : Prop :=
  ∃ torrent ∈ s.registry.session.torrents, s.registry.getTorrent handle = some torrent

instance (s : Run) (handle : ℕ) : Decidable (s.InSession handle) :=
  inferInstanceAs (Decidable (∃ torrent ∈ s.registry.session.torrents, _))

/-- `remove` has returned true for a handle, or for another one of the same torrent. -/
def Removed (s : Run) (handle : ℕ) : Prop :=
  ∃ handle' ∈ s.removed, handle' = handle ∨
    s.registry.getTorrent handle' = s.registry.getTorrent handle ∧
      s.registry.getTorrent handle ≠ none

instance (s : Run) (handle : ℕ) : Decidable (s.Removed handle) :=
  inferInstanceAs (Decidable (∃ handle' ∈ s.removed, _))

/-! ### What is to hold along a run -/

/-- **Every torrent in the session** has exactly one tracked handle, by which every alert about it
    reaches the listeners. -/
def Registered (s : Run) : Prop :=
  ∀ torrent ∈ s.registry.session.torrents, ∃ handle,
    (∀ handle', handle' ∈ s.registry.torrents ∧ s.registry.getTorrent handle' = some torrent ↔
      handle' = handle) ∧
    ∀ alert, (s.registry.onAlert alert torrent).calls = s.registry.calls ++ [(alert.call, handle)]

/-- A uri that is present is answered with its handle, and the session does not change. -/
def AddsOnce (params : Uri → Option ℕ) (s : Run) (uri : Uri) : Prop :=
  ∀ handle, (uri, handle) ∈ s.returned → s.InSession handle →
    (s.registry.add params uri).2 = some handle ∧
      (s.registry.add params uri).1.session = s.registry.session

/-- A uri that has been removed is answered with a handle of a torrent in the session. -/
def AddsAgain (params : Uri → Option ℕ) (s : Run) (uri : Uri) : Prop :=
  (∃ handle, (uri, handle) ∈ s.returned ∧ s.Removed handle) →
    ∃ handle, (s.registry.add params uri).2 = some handle ∧ (s.add params uri).InSession handle

/-- The step is right. -/
def Keeps (params : Uri → Option ℕ) (s : Run) (e : RegistryEvent) (s' : Run) : Prop :=
  s'.Registered ∧ ∀ uri, e = .add uri → s.AddsOnce params uri ∧ s.AddsAgain params uri

/-- The torrents of the tracked handles of an added uri are in the session; an https uri is neither
    present nor removed; and loaded metadata is of a torrent in the session. -/
def Guard (s : Run) : RegistryEvent → Prop
  | .add uri =>
    (∀ handle ∈ s.registry.torrents,
      (s.registry.handles[handle]?).map LibTorrentHandle.uri = some uri → s.InSession handle) ∧
    (uri.scheme = .https → ∀ p ∈ s.returned, p.1 = uri → ¬ s.InSession p.2 ∧ ¬ s.Removed p.2)
  | .metadataLoaded _ (some key) =>
    ∃ torrent ∈ s.registry.session.torrents, s.registry.session.known[torrent]? = some key
  | _ => True

instance (s : Run) (e : RegistryEvent) : Decidable (s.Guard e) :=
  match e with
  | .add _ => inferInstanceAs (Decidable (_ ∧ _))
  | .metadataLoaded _ (some key) =>
    inferInstanceAs (Decidable (∃ torrent ∈ s.registry.session.torrents, _ = some key))
  | .metadataLoaded _ none => isTrue trivial
  | .remove _ => isTrue trivial
  | .alert _ _ => isTrue trivial

end Run

/-! ### The calls -/

/-- The torrent of the key, or a new one where the key is not in the session. -/
theorem Session.addTorrent_cases (s : Session) (key : ℕ) :
    (∃ id ∈ s.torrents, s.known[id]? = some key ∧ s.addTorrent key = (s, id)) ∨
      ∃ h : ∀ id ∈ s.torrents, s.known[id]? ≠ some key,
        s.addTorrent key = (s.insert key h, s.known.length) := by
  unfold Session.addTorrent
  split
  next id hfind =>
    have hkey := List.find?_some hfind
    exact .inl ⟨id, List.mem_of_find?_eq_some hfind, of_decide_eq_true hkey, rfl⟩
  next hfind =>
    have hne : ∀ id ∈ s.torrents, s.known[id]? ≠ some key := fun id hid hkey =>
      absurd (List.find?_eq_none.mp hfind id hid) (not_not_intro (decide_eq_true hkey))
    exact .inr ⟨hne, rfl⟩

/-- A torrent that comes in is known from then on. -/
theorem Session.length_insert (s : Session) {key : ℕ}
    (h : ∀ id ∈ s.torrents, s.known[id]? ≠ some key) :
    (s.insert key h).known.length = s.known.length + 1 :=
  List.length_append

/-- It is the last one known. -/
theorem Session.lt_length_insert (s : Session) {key : ℕ}
    (h : ∀ id ∈ s.torrents, s.known[id]? ≠ some key) :
    s.known.length < (s.insert key h).known.length := by
  rw [s.length_insert h]
  exact Nat.lt_succ_self _

/-- A torrent that has been known before is known by the same key, and is in the session as before. -/
theorem Session.insert_of_lt (s : Session) {key : ℕ} (h : ∀ id ∈ s.torrents, s.known[id]? ≠ some key)
    {id : ℕ} (hlt : id < s.known.length) : (s.insert key h).known[id]? = s.known[id]? ∧
      (id ∈ (s.insert key h).torrents ↔ id ∈ s.torrents) := by
  refine ⟨List.getElem?_append_left hlt, ?_⟩
  show id ∈ s.torrents ++ [s.known.length] ↔ id ∈ s.torrents
  rw [List.mem_append, List.mem_singleton]
  exact or_iff_left (Nat.ne_of_lt hlt)

namespace Registry

variable {params : Uri → Option ℕ} {r : Registry}

/-- A handle has a torrent if it was constructed or filled with it. -/
theorem getTorrent_eq_some_iff {handle torrent : ℕ} :
    r.getTorrent handle = some torrent ↔ ∃ uri, r.handles[handle]? = some ⟨uri, some torrent⟩ := by
  unfold getTorrent
  rw [Option.bind_eq_some_iff]
  constructor
  · rintro ⟨⟨uri, t⟩, hget, rfl⟩
    exact ⟨uri, hget⟩
  · rintro ⟨uri, hget⟩
    exact ⟨_, hget, rfl⟩

/-- Only a constructed handle has a torrent. -/
theorem getTorrent_lt {handle torrent : ℕ} (h : r.getTorrent handle = some torrent) :
    handle < r.handles.length := by
  obtain ⟨uri, hget⟩ := getTorrent_eq_some_iff.mp h
  exact (List.getElem?_eq_some_iff.mp hget).1

/-- No handle is found where no tracked one has the torrent. -/
theorem findTorrent_eq_none_iff {torrent : ℕ} :
    r.findTorrent torrent = none ↔ ∀ handle ∈ r.torrents, r.getTorrent handle ≠ some torrent := by
  simp [findTorrent]

/-- The handle that is found is tracked, and has the torrent. -/
theorem of_findTorrent {handle torrent : ℕ} (h : r.findTorrent torrent = some handle) :
    handle ∈ r.torrents ∧ r.getTorrent handle = some torrent :=
  ⟨List.mem_of_find?_eq_some h, of_decide_eq_true (List.find?_some h :)⟩

/-- `add` itself adds the torrent of the uri. -/
def Direct (uri : Uri) : Prop :=
  uri.scheme ≠ .https ∧ uri.scheme ≠ .other

/-- No tracked handle has the uri. -/
def Unknown (r : Registry) (uri : Uri) : Prop :=
  ∀ handle ∈ r.torrents, (r.handles[handle]?).map LibTorrentHandle.uri ≠ some uri

/-- **What `add` does**, answer by answer. -/
inductive Adds (params : Uri → Option ℕ) (r : Registry) (uri : Uri) : Registry × Option ℕ → Prop
  | known {handle : ℕ} (hmem : handle ∈ r.torrents)
      (huri : (r.handles[handle]?).map LibTorrentHandle.uri = some uri) :
      Adds params r uri (r, some handle)
  | loading (hunknown : r.Unknown uri) (hscheme : uri.scheme = .https) :
      Adds params r uri ({ r with
        handles := r.handles ++ [⟨uri, none⟩]
        loading := r.loading ++ [r.handles.length] }, some r.handles.length)
  | null (hunknown : r.Unknown uri) (hscheme : uri.scheme ≠ .https)
      (hnull : uri.scheme = .other ∨ params uri = none) : Adds params r uri (r, none)
  | found {handle torrent : ℕ} (hunknown : r.Unknown uri) (hdirect : Direct uri)
      (hkey : r.session.known[torrent]? = params uri) (hsession : torrent ∈ r.session.torrents)
      (hmem : handle ∈ r.torrents) (htorrent : r.getTorrent handle = some torrent) :
      Adds params r uri (r, some handle)
  | untracked {torrent : ℕ} (hunknown : r.Unknown uri) (hdirect : Direct uri)
      (hkey : r.session.known[torrent]? = params uri) (hsession : torrent ∈ r.session.torrents)
      (hnone : ∀ handle ∈ r.torrents, r.getTorrent handle ≠ some torrent) :
      Adds params r uri ({ r with
        handles := r.handles ++ [⟨uri, some torrent⟩]
        torrents := r.torrents ++ [r.handles.length] }, some r.handles.length)
  | inserted {key : ℕ} (hunknown : r.Unknown uri) (hdirect : Direct uri)
      (hkey : params uri = some key) (hnew : ∀ id ∈ r.session.torrents, r.session.known[id]? ≠ some key) :
      Adds params r uri ({ r with
        session := r.session.insert key hnew
        handles := r.handles ++ [⟨uri, some r.session.known.length⟩]
        torrents := r.torrents ++ [r.handles.length] }, some r.handles.length)

/-- The answer of `add` for a uri that is read as a torrent and has no tracked handle. -/
theorem adds_addParams {uri : Uri} {key : ℕ} (hunknown : r.Unknown uri)
    (hdirect : Direct uri) (hkey : params uri = some key)
    (hlt : ∀ handle torrent, r.getTorrent handle = some torrent → torrent < r.session.known.length) :
    Adds params r uri (r.addParams uri key) := by
  unfold addParams
  rcases r.session.addTorrent_cases key with ⟨torrent, hsession, hknown, hadd⟩ | ⟨hnew, hadd⟩
  · rw [hadd]
    dsimp only
    split
    next handle hfind =>
      obtain ⟨hmem, htorrent⟩ := of_findTorrent hfind
      exact .found hunknown hdirect (hknown.trans hkey.symm) hsession hmem htorrent
    next hfind =>
      exact .untracked hunknown hdirect (hknown.trans hkey.symm) hsession
        (findTorrent_eq_none_iff.mp hfind)
  · rw [hadd]
    dsimp only
    split
    next handle hfind =>
      -- no handle can have the new torrent
      have htorrent : r.getTorrent handle = some _ := (of_findTorrent hfind).2
      exact absurd (hlt _ _ htorrent) (Nat.lt_irrefl _)
    next hfind => exact .inserted hunknown hdirect hkey hnew

/-- Every answer of `add` is one of those. -/
theorem adds (params : Uri → Option ℕ) (r : Registry) (uri : Uri)
    (hlt : ∀ handle torrent, r.getTorrent handle = some torrent → torrent < r.session.known.length) :
    Adds params r uri (r.add params uri) := by
  unfold add
  split
  next handle hfind =>
    exact .known (List.mem_of_find?_eq_some hfind) (of_decide_eq_true (List.find?_some hfind :))
  next hfind =>
    have hunknown : r.Unknown uri := fun handle hhandle huri =>
      absurd (List.find?_eq_none.mp hfind handle hhandle) (not_not_intro (decide_eq_true huri))
    have hparams (hdirect : Direct uri) : Adds params r uri
        (match params uri with
          | none => (r, none)
          | some key => r.addParams uri key) := by
      cases hkey : params uri with
      | none => exact .null hunknown hdirect.1 (.inr hkey)
      | some key => exact adds_addParams hunknown hdirect hkey hlt
    split
    next hscheme => exact hparams (by simp [Direct, hscheme])
    next hscheme => exact hparams (by simp [Direct, hscheme])
    next hscheme => exact hparams (by simp [Direct, hscheme])
    next hscheme => exact .loading hunknown hscheme
    next hscheme => exact .null hunknown (by simp [hscheme]) (.inl hscheme)

/-! ### What becomes of the handles -/

/-- A new handle has its own torrent, the others have theirs. -/
theorem getTorrent_concat (r r' : Registry) {x : LibTorrentHandle} (h : r'.handles = r.handles ++ [x])
    (handle : ℕ) : r'.getTorrent handle =
      if handle = r.handles.length then x.torrent else r.getTorrent handle := by
  unfold getTorrent
  rw [h]
  split_ifs with hlen
  · rw [hlen, List.getElem?_concat_length]
    rfl
  · by_cases hlt : handle < r.handles.length
    · rw [List.getElem?_append_left hlt]
    · rw [List.getElem?_eq_none (by rw [List.length_append, List.length_singleton]; omega),
        List.getElem?_eq_none (by omega)]

/-- A handle is given a torrent, the others have theirs. -/
theorem getTorrent_modify (r r' : Registry) {handle torrent : ℕ} (hlt : handle < r.handles.length)
    (h : r'.handles = r.handles.modify handle fun h => { h with torrent := some torrent })
    (handle' : ℕ) : r'.getTorrent handle' =
      if handle' = handle then some torrent else r.getTorrent handle' := by
  unfold getTorrent
  rw [h, List.getElem?_modify]
  by_cases heq : handle' = handle
  · subst heq
    simp [List.getElem?_eq_getElem hlt]
  · have hne : handle ≠ handle' := fun h => heq h.symm
    simp [heq, hne]

end Registry

namespace Run

open Registry

variable {params : Uri → Option ℕ} {s : Run}

/-- **What holds in every run.** -/
structure Consistent (params : Uri → Option ℕ) (s : Run) : Prop where
  tracked : ∀ handle ∈ s.registry.torrents, ∃ uri torrent,
    s.registry.handles[handle]? = some ⟨uri, some torrent⟩ ∧ Direct uri ∧
      s.registry.session.known[torrent]? = params uri ∧ (uri, handle) ∈ s.returned
  eq_of_uri : ∀ handle ∈ s.registry.torrents, ∀ handle' ∈ s.registry.torrents,
    (s.registry.handles[handle]?).map LibTorrentHandle.uri =
      (s.registry.handles[handle']?).map LibTorrentHandle.uri → handle = handle'
  eq_of_torrent : ∀ handle ∈ s.registry.torrents, ∀ handle' ∈ s.registry.torrents,
    s.registry.getTorrent handle = s.registry.getTorrent handle' → handle = handle'
  lt_known : ∀ handle torrent, s.registry.getTorrent handle = some torrent →
    torrent < s.registry.session.known.length
  of_returned : ∀ p ∈ s.returned, p.1.scheme ≠ .other ∧ p.2 < s.registry.handles.length
  returned : ∀ p ∈ s.returned, p.1.scheme ≠ .https → ∃ torrent,
    s.registry.getTorrent p.2 = some torrent ∧ s.registry.session.known[torrent]? = params p.1 ∧
      (torrent ∈ s.registry.session.torrents → p.2 ∈ s.registry.torrents)
  loading : ∀ handle ∈ s.registry.loading, handle < s.registry.handles.length ∧
    handle ∉ s.registry.torrents ∧ s.registry.getTorrent handle = none
  removing : ∀ torrent ∈ s.registry.removing, torrent < s.registry.session.known.length ∧
    torrent ∉ s.registry.session.torrents
  gone : ∀ torrent < s.registry.session.known.length, torrent ∉ s.registry.session.torrents →
    ∃ handle ∈ s.removed, s.registry.getTorrent handle = some torrent

namespace Consistent

/-- A tracked handle has been constructed. -/
theorem lt_handles (hc : s.Consistent params) {handle : ℕ} (h : handle ∈ s.registry.torrents) :
    handle < s.registry.handles.length := by
  obtain ⟨uri, torrent, hget, -⟩ := hc.tracked handle h
  exact (List.getElem?_eq_some_iff.mp hget).1

/-- A tracked handle, by its uri. -/
theorem of_uri (hc : s.Consistent params) {handle : ℕ} {uri : Uri} (h : handle ∈ s.registry.torrents)
    (huri : (s.registry.handles[handle]?).map LibTorrentHandle.uri = some uri) :
    Direct uri ∧ (uri, handle) ∈ s.returned ∧ ∃ torrent,
      s.registry.getTorrent handle = some torrent ∧ s.registry.session.known[torrent]? = params uri := by
  obtain ⟨uri', torrent, hget, hscheme, hkey, hreturned⟩ := hc.tracked handle h
  rw [hget] at huri
  obtain rfl := Option.some.inj huri
  exact ⟨hscheme, hreturned, torrent, getTorrent_eq_some_iff.mpr ⟨_, hget⟩, hkey⟩

/-- A tracked handle is returned once more. -/
theorem answered (hc : s.Consistent params) {handle torrent : ℕ} {uri : Uri} (hdirect : Direct uri)
    (h : handle ∈ s.registry.torrents) (htorrent : s.registry.getTorrent handle = some torrent)
    (hkey : s.registry.session.known[torrent]? = params uri) :
    Consistent params { s with returned := s.returned ++ [(uri, handle)] } where
  tracked := by
    intro handle' h'
    obtain ⟨uri', torrent', hget, hscheme, hkey', hreturned⟩ := hc.tracked handle' h'
    exact ⟨uri', torrent', hget, hscheme, hkey', List.mem_append_left _ hreturned⟩
  eq_of_uri := hc.eq_of_uri
  eq_of_torrent := hc.eq_of_torrent
  lt_known := hc.lt_known
  of_returned := by
    intro p hp
    rcases List.mem_append.mp hp with hp | hp
    · exact hc.of_returned p hp
    · rw [List.mem_singleton.mp hp]
      exact ⟨hdirect.2, hc.lt_handles h⟩
  returned := by
    intro p hp hscheme
    rcases List.mem_append.mp hp with hp | hp
    · exact hc.returned p hp hscheme
    · rw [List.mem_singleton.mp hp]
      exact ⟨torrent, htorrent, hkey, fun _ => h⟩
  loading := hc.loading
  removing := hc.removing
  gone := hc.gone

/-- A torrent comes into the session. -/
theorem insert (hc : s.Consistent params) {key : ℕ}
    (hnew : ∀ id ∈ s.registry.session.torrents, s.registry.session.known[id]? ≠ some key) :
    Consistent params { s with
      registry := { s.registry with session := s.registry.session.insert key hnew } } := by
  have hlen := s.registry.session.length_insert hnew
  -- the new torrent takes the next number, the older ones are what they were
  have hsame : ∀ {torrent : ℕ}, torrent < s.registry.session.known.length → _ :=
    s.registry.session.insert_of_lt hnew
  refine ⟨?_, hc.eq_of_uri, hc.eq_of_torrent, ?_, hc.of_returned, ?_, hc.loading, ?_, ?_⟩
  · intro handle h
    obtain ⟨uri, torrent, hget, hdirect, hkey, hreturned⟩ := hc.tracked handle h
    have hlt := hc.lt_known handle torrent (getTorrent_eq_some_iff.mpr ⟨uri, hget⟩)
    exact ⟨uri, torrent, hget, hdirect, (hsame hlt).1.trans hkey, hreturned⟩
  · intro handle torrent h
    exact hlen ▸ Nat.lt_succ_of_lt (hc.lt_known handle torrent h)
  · intro p hp hscheme
    obtain ⟨torrent, htorrent, hkey, htracked⟩ := hc.returned p hp hscheme
    have hlt := hc.lt_known _ _ htorrent
    exact ⟨torrent, htorrent, (hsame hlt).1.trans hkey, fun h => htracked ((hsame hlt).2.mp h)⟩
  · intro torrent h
    obtain ⟨hlt, hout⟩ := hc.removing torrent h
    exact ⟨hlen ▸ Nat.lt_succ_of_lt hlt, fun h => hout ((hsame hlt).2.mp h)⟩
  · intro torrent hlt hout
    rcases Nat.lt_succ_iff_lt_or_eq.mp (hlen ▸ hlt) with hlt | rfl
    · exact hc.gone torrent hlt fun h => hout ((hsame hlt).2.mpr h)
    · exact absurd (List.mem_append_right _ (List.mem_singleton_self _)) hout

/-- A handle is constructed. -/
theorem construct (hc : s.Consistent params) (x : LibTorrentHandle)
    (hx : ∀ torrent, x.torrent = some torrent → torrent < s.registry.session.known.length) :
    Consistent params { s with
      registry := { s.registry with handles := s.registry.handles ++ [x] } } := by
  have hlen : (s.registry.handles ++ [x]).length = s.registry.handles.length + 1 := List.length_append
  have hget : ∀ handle ∈ s.registry.torrents,
      (s.registry.handles ++ [x])[handle]? = s.registry.handles[handle]? := fun _ h =>
    List.getElem?_append_left (hc.lt_handles h)
  have htorrent := getTorrent_concat s.registry
    { s.registry with handles := s.registry.handles ++ [x] } rfl
  -- the new handle is at the end, so the older ones keep their numbers
  have hsame : ∀ handle < s.registry.handles.length,
      Registry.getTorrent { s.registry with handles := s.registry.handles ++ [x] } handle =
        s.registry.getTorrent handle := fun handle h => by
    rw [htorrent, if_neg (Nat.ne_of_lt h)]
  refine ⟨?_, ?_, ?_, ?_, ?_, ?_, ?_, hc.removing, ?_⟩
  · intro handle h
    obtain ⟨uri, torrent, hold, hrest⟩ := hc.tracked handle h
    exact ⟨uri, torrent, (hget handle h).trans hold, hrest⟩
  · intro handle h handle' h' huri
    rw [hget handle h, hget handle' h'] at huri
    exact hc.eq_of_uri handle h handle' h' huri
  · intro handle h handle' h' heq
    rw [hsame handle (hc.lt_handles h), hsame handle' (hc.lt_handles h')] at heq
    exact hc.eq_of_torrent handle h handle' h' heq
  · intro handle torrent h
    rw [htorrent] at h
    split_ifs at h
    · exact hx torrent h
    · exact hc.lt_known handle torrent h
  · intro p hp
    obtain ⟨hscheme, hlt⟩ := hc.of_returned p hp
    exact ⟨hscheme, hlen ▸ Nat.lt_succ_of_lt hlt⟩
  · intro p hp hscheme
    rw [hsame p.2 (hc.of_returned p hp).2]
    exact hc.returned p hp hscheme
  · intro handle h
    obtain ⟨hlt, hout, hnull⟩ := hc.loading handle h
    exact ⟨hlen ▸ Nat.lt_succ_of_lt hlt, hout, (hsame handle hlt).trans hnull⟩
  · intro torrent hlt hout
    obtain ⟨handle, hremoved, h⟩ := hc.gone torrent hlt hout
    exact ⟨handle, hremoved, (hsame handle (getTorrent_lt h)).trans h⟩

/-- A handle is tracked and returned. -/
theorem track (hc : s.Consistent params) {handle torrent : ℕ} {uri : Uri}
    (hget : s.registry.handles[handle]? = some ⟨uri, some torrent⟩) (hdirect : Direct uri)
    (hkey : s.registry.session.known[torrent]? = params uri) (hunknown : s.registry.Unknown uri)
    (hnone : ∀ handle ∈ s.registry.torrents, s.registry.getTorrent handle ≠ some torrent) :
    Consistent params { s with
      registry := { s.registry with torrents := s.registry.torrents ++ [handle] }
      returned := s.returned ++ [(uri, handle)] } := by
  have htorrent : s.registry.getTorrent handle = some torrent :=
    getTorrent_eq_some_iff.mpr ⟨uri, hget⟩
  have hself : handle ∈ s.registry.torrents ++ [handle] :=
    List.mem_append_right _ (List.mem_singleton_self _)
  -- every tracked handle is an old one or the one just added
  have hlast : ∀ {handle' : ℕ}, handle' ∈ s.registry.torrents ++ [handle] →
      handle' ∈ s.registry.torrents ∨ handle' = handle := fun h =>
    (List.mem_append.mp h).imp_right List.mem_singleton.mp
  refine ⟨?_, ?_, ?_, hc.lt_known, ?_, ?_, ?_, hc.removing, hc.gone⟩
  · intro handle' h
    rcases hlast h with h | rfl
    · obtain ⟨uri', torrent', hold, hscheme', hkey', hreturned⟩ := hc.tracked handle' h
      exact ⟨uri', torrent', hold, hscheme', hkey', List.mem_append_left _ hreturned⟩
    · exact ⟨uri, torrent, hget, hdirect, hkey,
        List.mem_append_right _ (List.mem_singleton_self _)⟩
  · intro handle₁ h₁ handle₂ h₂ heq
    rcases hlast h₁ with hold₁ | rfl <;> rcases hlast h₂ with hold₂ | rfl
    · exact hc.eq_of_uri handle₁ hold₁ handle₂ hold₂ heq
    · -- no tracked handle has the uri
      exact absurd (heq.trans (congrArg _ hget)) (hunknown handle₁ hold₁)
    · exact absurd (heq.symm.trans (congrArg _ hget)) (hunknown handle₂ hold₂)
    · rfl
  · intro handle₁ h₁ handle₂ h₂ heq
    rcases hlast h₁ with hold₁ | rfl <;> rcases hlast h₂ with hold₂ | rfl
    · exact hc.eq_of_torrent handle₁ hold₁ handle₂ hold₂ heq
    · -- nor has a tracked handle this torrent
      exact absurd (heq.trans htorrent) (hnone handle₁ hold₁)
    · exact absurd (heq.symm.trans htorrent) (hnone handle₂ hold₂)
    · rfl
  · intro p hp
    rcases List.mem_append.mp hp with hp | hp
    · exact hc.of_returned p hp
    · rw [List.mem_singleton.mp hp]
      exact ⟨hdirect.2, getTorrent_lt htorrent⟩
  · intro p hp hscheme'
    rcases List.mem_append.mp hp with hp | hp
    · obtain ⟨torrent', h, hkey', htracked⟩ := hc.returned p hp hscheme'
      exact ⟨torrent', h, hkey', fun h => List.mem_append_left _ (htracked h)⟩
    · rw [List.mem_singleton.mp hp]
      exact ⟨torrent, htorrent, hkey, fun _ => hself⟩
  · intro handle' h
    obtain ⟨hlt, hout, hnull⟩ := hc.loading handle' h
    refine ⟨hlt, fun h => ?_, hnull⟩
    rcases hlast h with h | rfl
    · exact hout h
    · exact absurd (hnull.symm.trans htorrent) nofun

/-- A handle is constructed, tracked and returned. -/
theorem construct_track (hc : s.Consistent params) {torrent : ℕ} {uri : Uri}
    (hunknown : s.registry.Unknown uri) (hdirect : Direct uri)
    (hkey : s.registry.session.known[torrent]? = params uri)
    (hlt : torrent < s.registry.session.known.length)
    (hnone : ∀ handle ∈ s.registry.torrents, s.registry.getTorrent handle ≠ some torrent) :
    Consistent params { s with
      registry := { s.registry with
        handles := s.registry.handles ++ [⟨uri, some torrent⟩]
        torrents := s.registry.torrents ++ [s.registry.handles.length] }
      returned := s.returned ++ [(uri, s.registry.handles.length)] } := by
  have hconstruct := hc.construct ⟨uri, some torrent⟩ fun _ h => Option.some.inj h ▸ hlt
  refine hconstruct.track List.getElem?_concat_length hdirect hkey ?_ ?_
  · intro handle h
    have hget : (s.registry.handles ++ [⟨uri, some torrent⟩])[handle]? = s.registry.handles[handle]? :=
      List.getElem?_append_left (hc.lt_handles h)
    rw [hget]
    exact hunknown handle h
  · intro handle h
    rw [getTorrent_concat s.registry _ rfl, if_neg (Nat.ne_of_lt (hc.lt_handles h))]
    exact hnone handle h

/-- A handle is returned while its metadata is loaded. -/
theorem load (hc : s.Consistent params) {handle : ℕ} {uri : Uri}
    (hget : s.registry.handles[handle]? = some ⟨uri, none⟩) (hscheme : uri.scheme = .https) :
    Consistent params { s with
      registry := { s.registry with loading := s.registry.loading ++ [handle] }
      returned := s.returned ++ [(uri, handle)] } := by
  have hlt : handle < s.registry.handles.length := (List.getElem?_eq_some_iff.mp hget).1
  refine ⟨?_, hc.eq_of_uri, hc.eq_of_torrent, hc.lt_known, ?_, ?_, ?_, hc.removing, hc.gone⟩
  · intro handle' h
    obtain ⟨uri', torrent', hold, hscheme', hkey', hreturned⟩ := hc.tracked handle' h
    exact ⟨uri', torrent', hold, hscheme', hkey', List.mem_append_left _ hreturned⟩
  · intro p hp
    rcases List.mem_append.mp hp with hp | hp
    · exact hc.of_returned p hp
    · rw [List.mem_singleton.mp hp]
      exact ⟨by simp [hscheme], hlt⟩
  · intro p hp hscheme'
    rcases List.mem_append.mp hp with hp | hp
    · exact hc.returned p hp hscheme'
    · rw [List.mem_singleton.mp hp] at hscheme'
      exact absurd hscheme hscheme'
  · intro handle' h
    rcases List.mem_append.mp h with h | h
    · exact hc.loading handle' h
    · rw [List.mem_singleton.mp h]
      refine ⟨hlt, fun hmem => ?_, ?_⟩
      · -- a tracked handle has its torrent, this one has none yet
        obtain ⟨uri', torrent', hold, -⟩ := hc.tracked handle hmem
        simp [hget] at hold
      · unfold Registry.getTorrent
        rw [hget]
        rfl

/-- The metadata that a handle has been waiting for is of a torrent. -/
theorem attach (hc : s.Consistent params) {handle torrent : ℕ} (h : handle ∈ s.registry.loading)
    (hlt : torrent < s.registry.session.known.length) :
    Consistent params { s with registry := { s.registry with
      loading := s.registry.loading.filter (· ≠ handle)
      handles := s.registry.handles.modify handle fun h => { h with torrent := some torrent } } } := by
  obtain ⟨hhandle, huntracked, hnull⟩ := hc.loading handle h
  -- a handle that waits for its metadata is not tracked, so no tracked one changes
  have hget : ∀ handle' ∈ s.registry.torrents, (s.registry.handles.modify handle
      fun h => { h with torrent := some torrent })[handle']? = s.registry.handles[handle']? := by
    intro handle' h'
    have hne : handle ≠ handle' := fun h => huntracked (h ▸ h')
    rw [List.getElem?_modify]
    simp [hne]
  have htorrent := getTorrent_modify s.registry { s.registry with
    loading := s.registry.loading.filter (· ≠ handle)
    handles := s.registry.handles.modify handle fun h => { h with torrent := some torrent } }
    hhandle rfl
  have hsame : ∀ handle', handle' ≠ handle → _ := fun handle' hne =>
    (htorrent handle').trans (if_neg hne)
  have hne : ∀ handle' ∈ s.registry.torrents, handle' ≠ handle := fun handle' h' h =>
    huntracked (h ▸ h')
  refine ⟨?_, ?_, ?_, ?_, ?_, ?_, ?_, hc.removing, ?_⟩
  · intro handle' h'
    obtain ⟨uri, torrent', hold, hrest⟩ := hc.tracked handle' h'
    exact ⟨uri, torrent', (hget handle' h').trans hold, hrest⟩
  · intro handle₁ h₁ handle₂ h₂ huri
    rw [hget handle₁ h₁, hget handle₂ h₂] at huri
    exact hc.eq_of_uri handle₁ h₁ handle₂ h₂ huri
  · intro handle₁ h₁ handle₂ h₂ heq
    rw [hsame handle₁ (hne handle₁ h₁), hsame handle₂ (hne handle₂ h₂)] at heq
    exact hc.eq_of_torrent handle₁ h₁ handle₂ h₂ heq
  · intro handle' torrent' h'
    rw [htorrent] at h'
    split_ifs at h'
    · exact Option.some.inj h' ▸ hlt
    · exact hc.lt_known handle' torrent' h'
  · intro p hp
    rw [List.length_modify]
    exact hc.of_returned p hp
  · intro p hp hscheme
    obtain ⟨torrent', h', hrest⟩ := hc.returned p hp hscheme
    -- what was returned has a torrent, the waiting handle has none
    have hne : p.2 ≠ handle := fun h => by simp [h, hnull] at h'
    exact ⟨torrent', (hsame p.2 hne).trans h', hrest⟩
  · intro handle' h'
    obtain ⟨hmem, hne⟩ := List.mem_filter.mp h'
    obtain ⟨hlt', hout, hnull'⟩ := hc.loading handle' hmem
    rw [List.length_modify]
    exact ⟨hlt', hout, (hsame handle' (of_decide_eq_true hne)).trans hnull'⟩
  · intro torrent' hlt' hout
    obtain ⟨handle', hremoved, h'⟩ := hc.gone torrent' hlt' hout
    have hne : handle' ≠ handle := fun h => by simp [h, hnull] at h'
    exact ⟨handle', hremoved, (hsame handle' hne).trans h'⟩

/-- A handle whose torrent is not in the session is tracked no more. -/
theorem untrack (hc : s.Consistent params) {handle : ℕ} (h : ¬ s.InSession handle)
    (calls : List (TorrentListenerCall × ℕ)) :
    Consistent params { s with registry := { s.registry with
      torrents := s.registry.torrents.filter (· ≠ handle)
      calls := calls } } := by
  have hold : ∀ {handle' : ℕ}, handle' ∈ s.registry.torrents.filter (· ≠ handle) →
      handle' ∈ s.registry.torrents := fun h => (List.mem_filter.mp h).1
  refine ⟨fun handle' h' => hc.tracked handle' (hold h'), ?_, ?_, hc.lt_known, hc.of_returned, ?_, ?_,
    hc.removing, hc.gone⟩
  · exact fun handle₁ h₁ handle₂ h₂ => hc.eq_of_uri handle₁ (hold h₁) handle₂ (hold h₂)
  · exact fun handle₁ h₁ handle₂ h₂ => hc.eq_of_torrent handle₁ (hold h₁) handle₂ (hold h₂)
  · intro p hp hscheme
    obtain ⟨torrent, htorrent, hkey, htracked⟩ := hc.returned p hp hscheme
    refine ⟨torrent, htorrent, hkey, fun hsession => ?_⟩
    have hne : p.2 ≠ handle := fun heq => h ⟨torrent, hsession, heq ▸ htorrent⟩
    exact List.mem_filter.mpr ⟨htracked hsession, decide_eq_true hne⟩
  · intro handle' h'
    obtain ⟨hlt, hout, hnull⟩ := hc.loading handle' h'
    exact ⟨hlt, fun h => hout (hold h), hnull⟩

/-- `remove` returns true. -/
theorem remove_append (hc : s.Consistent params) (handle : ℕ) :
    Consistent params { s with removed := s.removed ++ [handle] } := by
  refine ⟨hc.tracked, hc.eq_of_uri, hc.eq_of_torrent, hc.lt_known, hc.of_returned, hc.returned,
    hc.loading, hc.removing, fun torrent hlt hout => ?_⟩
  obtain ⟨handle', hremoved, h⟩ := hc.gone torrent hlt hout
  exact ⟨handle', List.mem_append_left _ hremoved, h⟩

/-- A torrent is taken out of the session. -/
theorem removeTorrent (hc : s.Consistent params) {handle torrent : ℕ}
    (h : s.registry.getTorrent handle = some torrent) :
    Consistent params { s with
      registry := { s.registry with
        session := s.registry.session.removeTorrent torrent
        removing := s.registry.removing ++ [torrent] }
      removed := s.removed ++ [handle] } := by
  have hold : ∀ {torrent' : ℕ}, torrent' ∈ s.registry.session.torrents.filter (· ≠ torrent) →
      torrent' ∈ s.registry.session.torrents := fun h => (List.mem_filter.mp h).1
  refine ⟨hc.tracked, hc.eq_of_uri, hc.eq_of_torrent, hc.lt_known, hc.of_returned, ?_, hc.loading, ?_,
    ?_⟩
  · intro p hp hscheme
    obtain ⟨torrent', htorrent, hkey, htracked⟩ := hc.returned p hp hscheme
    exact ⟨torrent', htorrent, hkey, fun h => htracked (hold h)⟩
  · intro torrent' h'
    rcases List.mem_append.mp h' with h' | h'
    · obtain ⟨hlt, hout⟩ := hc.removing torrent' h'
      exact ⟨hlt, fun h => hout (hold h)⟩
    · rw [List.mem_singleton.mp h']
      exact ⟨hc.lt_known handle torrent h, fun h => of_decide_eq_true (List.mem_filter.mp h).2 rfl⟩
  · intro torrent' hlt hout
    by_cases heq : torrent' = torrent
    · exact ⟨handle, List.mem_append_right _ (List.mem_singleton_self _), heq ▸ h⟩
    · -- any other torrent that is gone was gone before
      have hout' : torrent' ∉ s.registry.session.torrents := fun hmem =>
        hout (List.mem_filter.mpr ⟨hmem, decide_eq_true heq⟩)
      obtain ⟨handle', hremoved, h'⟩ := hc.gone torrent' hlt hout'
      exact ⟨handle', List.mem_append_left _ hremoved, h'⟩

end Consistent

/-! ### Step by step -/

/-- `add` keeps the invariant, whatever it answers. -/
theorem consistent_add (hc : s.Consistent params) (uri : Uri) :
    (s.add params uri).Consistent params := by
  have hadds := adds params s.registry uri hc.lt_known
  unfold add
  generalize s.registry.add params uri = answer at hadds ⊢
  cases hadds with
  | known hmem huri =>
    obtain ⟨hdirect, -, torrent, htorrent, hkey⟩ := hc.of_uri hmem huri
    exact hc.answered hdirect hmem htorrent hkey
  | loading hunknown hscheme =>
    exact (hc.construct ⟨uri, none⟩ nofun).load List.getElem?_concat_length hscheme
  | null hunknown hscheme hnull =>
    simpa using hc
  | found hunknown hdirect hkey hsession hmem htorrent =>
    exact hc.answered hdirect hmem htorrent hkey
  | untracked hunknown hdirect hkey hsession hnone =>
    exact hc.construct_track hunknown hdirect hkey (s.registry.session.lt_known _ hsession) hnone
  | inserted hunknown hdirect hkey hnew =>
    have hlt := s.registry.session.lt_length_insert hnew
    refine (hc.insert hnew).construct_track hunknown hdirect ?_ hlt ?_
    · rw [hkey]
      exact List.getElem?_concat_length
    · intro handle _ h
      exact absurd (hc.lt_known handle _ h) (Nat.lt_irrefl _)

/-- **What `remove` does**. -/
theorem remove_cases (s : Run) (handle : ℕ) :
    (∃ torrent ∈ s.registry.session.torrents, s.registry.getTorrent handle = some torrent ∧
      s.remove handle = { s with
        registry := { s.registry with
          session := s.registry.session.removeTorrent torrent
          removing := s.registry.removing ++ [torrent] }
        removed := s.removed ++ [handle] }) ∨
    (¬ s.InSession handle ∧ ∃ calls, s.remove handle = { s with
        registry := { s.registry with
          torrents := s.registry.torrents.filter (· ≠ handle)
          calls := calls }
        removed := s.removed ++ [handle] }) ∨
    s.remove handle = s := by
  unfold remove Registry.remove
  cases htorrent : s.registry.getTorrent handle with
  | some torrent =>
    dsimp only
    split_ifs with hsession
    · exact .inl ⟨torrent, hsession, rfl, rfl⟩
    · refine .inr (.inl ⟨?_, _, rfl⟩)
      rintro ⟨torrent', hsession', h'⟩
      -- a torrent that the session does not hold any more
      exact hsession (Option.some.inj (htorrent.symm.trans h') ▸ hsession')
  | none =>
    dsimp only
    split_ifs with hempty
    · refine .inr (.inl ⟨?_, _, rfl⟩)
      rintro ⟨torrent', -, h'⟩
      exact absurd (htorrent.symm.trans h') nofun
    · exact .inr (.inr rfl)

/-- `remove` keeps the invariant. -/
theorem consistent_remove (hc : s.Consistent params) (handle : ℕ) :
    (s.remove handle).Consistent params := by
  rcases s.remove_cases handle with ⟨torrent, -, htorrent, hremove⟩ | ⟨hout, calls, hremove⟩ | hremove
  · rw [hremove]
    exact hc.removeTorrent htorrent
  · rw [hremove]
    exact (hc.untrack hout calls).remove_append handle
  · rw [hremove]
    exact hc

/-- The end of a `LibTorrentAddTask` keeps the invariant. -/
theorem consistent_metadataLoaded (hc : s.Consistent params) {handle : ℕ}
    (h : handle ∈ s.registry.loading) (key : Option ℕ) :
    Consistent params { s with registry := s.registry.metadataLoaded handle key } := by
  cases key with
  | none =>
    refine ⟨hc.tracked, hc.eq_of_uri, hc.eq_of_torrent, hc.lt_known, hc.of_returned, hc.returned, ?_,
      hc.removing, hc.gone⟩
    exact fun handle' h' => hc.loading handle' (List.mem_filter.mp h').1
  | some key =>
    rcases s.registry.session.addTorrent_cases key with ⟨torrent, hsession, -, hadd⟩ | ⟨hnew, hadd⟩
    · have hattach := hc.attach h (s.registry.session.lt_known torrent hsession)
      simp only [metadataLoaded, hadd]
      exact hattach
    · have hlt := s.registry.session.lt_length_insert hnew
      have hattach := (hc.insert hnew).attach h hlt
      simp only [metadataLoaded, hadd]
      exact hattach

/-- **What an alert does**. -/
theorem onAlert_cases (hc : s.Consistent params) {alert : Alert} {torrent : ℕ} {s' : Run}
    (h : s.onAlert alert torrent = some s') :
    ∃ removing calls, (∀ torrent ∈ removing, torrent ∈ s.registry.removing) ∧
      (s' = { s with registry := { s.registry with removing := removing, calls := calls } } ∨
        ∃ handle, ¬ s.InSession handle ∧ s' = { s with registry := { s.registry with
          removing := removing
          torrents := s.registry.torrents.filter (· ≠ handle)
          calls := calls } }) := by
  unfold onAlert at h
  split_ifs at h with hremoved hmem hlt
  · have hfewer : ∀ torrent' ∈ s.registry.removing.filter (· ≠ torrent),
        torrent' ∈ s.registry.removing := fun _ h => (List.mem_filter.mp h).1
    obtain rfl := Option.some.inj h
    unfold Registry.onAlert
    split
    next hfind => exact ⟨_, _, hfewer, .inl rfl⟩
    next handle hfind =>
      have htorrent : s.registry.getTorrent handle = some torrent := (of_findTorrent hfind).2
      refine ⟨_, _, hfewer, .inr ⟨handle, ?_, by rw [if_pos hremoved]; rfl⟩⟩
      rintro ⟨torrent', hsession, h'⟩
      -- a torrent being removed has left the session already
      exact (hc.removing torrent hmem).2 (Option.some.inj (htorrent.symm.trans h') ▸ hsession)
  · obtain rfl := Option.some.inj h
    unfold Registry.onAlert
    split
    next hfind => exact ⟨s.registry.removing, _, fun _ h => h, .inl rfl⟩
    next handle hfind =>
      exact ⟨s.registry.removing, _, fun _ h => h, .inl (by rw [if_neg hremoved]; rfl)⟩

/-- An alert keeps the invariant. -/
theorem consistent_onAlert (hc : s.Consistent params) {alert : Alert} {torrent : ℕ} {s' : Run}
    (h : s.onAlert alert torrent = some s') : s'.Consistent params := by
  obtain ⟨removing, calls, hremoving, rfl | ⟨handle, hout, rfl⟩⟩ := onAlert_cases hc h
  · exact ⟨hc.tracked, hc.eq_of_uri, hc.eq_of_torrent, hc.lt_known, hc.of_returned, hc.returned,
      hc.loading, fun torrent h => hc.removing torrent (hremoving torrent h), hc.gone⟩
  · have huntrack := hc.untrack hout calls
    exact ⟨huntrack.tracked, huntrack.eq_of_uri, huntrack.eq_of_torrent, huntrack.lt_known,
      huntrack.of_returned, huntrack.returned, huntrack.loading,
      fun torrent h => hc.removing torrent (hremoving torrent h), huntrack.gone⟩

/-- **A step** keeps the invariant. -/
theorem consistent_next (hc : s.Consistent params) {e : RegistryEvent} {s' : Run}
    (h : s.next params e = some s') : s'.Consistent params := by
  cases e with
  | add uri => exact Option.some.inj h ▸ consistent_add hc uri
  | remove handle =>
    obtain ⟨-, rfl⟩ := Machine.of_ite_eq_some h
    exact consistent_remove hc handle
  | metadataLoaded handle key =>
    obtain ⟨hmem, rfl⟩ := Machine.of_ite_eq_some h
    exact consistent_metadataLoaded hc hmem key
  | alert alert torrent => exact consistent_onAlert hc h

/-- There is nothing at the start. -/
theorem consistent_start : start.Consistent params where
  tracked := nofun
  eq_of_uri := nofun
  eq_of_torrent := nofun
  lt_known := nofun
  of_returned := nofun
  returned := nofun
  loading := nofun
  removing := nofun
  gone := nofun

/-- **Every run** keeps the invariant. -/
theorem consistent_of_reachable (h : (machine params).Reachable s) : s.Consistent params := by
  refine h.invariant (I := Consistent params) ?_ fun _ _ _ hc hstep => consistent_next hc hstep
  rintro _ rfl
  exact consistent_start

/-! ### The registered torrents -/

/-- The torrents in the session have tracked handles. -/
def Tracked (s : Run) : Prop :=
  ∀ torrent ∈ s.registry.session.torrents,
    ∃ handle ∈ s.registry.torrents, s.registry.getTorrent handle = some torrent

/-- A torrent with a tracked handle has only that one, so the alerts are heard by it. -/
theorem registered_iff (hc : s.Consistent params) : s.Registered ↔ s.Tracked := by
  constructor
  · intro h torrent hsession
    obtain ⟨handle, hiff, -⟩ := h torrent hsession
    exact ⟨handle, (hiff handle).mpr rfl⟩
  · intro h torrent hsession
    obtain ⟨handle, hmem, htorrent⟩ := h torrent hsession
    have hunique : ∀ handle', handle' ∈ s.registry.torrents →
        s.registry.getTorrent handle' = some torrent → handle' = handle := fun handle' h' ht =>
      hc.eq_of_torrent handle' h' handle hmem (ht.trans htorrent.symm)
    refine ⟨handle, fun handle' => ⟨fun h' => hunique handle' h'.1 h'.2, ?_⟩, fun alert => ?_⟩
    · rintro rfl
      exact ⟨hmem, htorrent⟩
    · unfold Registry.onAlert
      split
      next hfind => exact absurd htorrent (findTorrent_eq_none_iff.mp hfind handle hmem)
      next handle' hfind =>
        obtain ⟨h', ht⟩ := of_findTorrent hfind
        rw [hunique handle' h' ht]
        split_ifs <;> rfl

/-- `add` leaves every torrent in the session a tracked handle. -/
theorem tracked_add (hc : s.Consistent params) (ht : s.Tracked) (uri : Uri) :
    (s.add params uri).Tracked := by
  have hadds := adds params s.registry uri hc.lt_known
  unfold Tracked add
  generalize s.registry.add params uri = answer at hadds ⊢
  -- the handles that are tracked keep their torrents
  have hold : ∀ (r : Registry) (x : LibTorrentHandle), r.handles = s.registry.handles ++ [x] →
      ∀ handle ∈ s.registry.torrents, r.getTorrent handle = s.registry.getTorrent handle := by
    intro r x hr handle h
    rw [getTorrent_concat s.registry r hr, if_neg (Nat.ne_of_lt (hc.lt_handles h))]
  cases hadds with
  | known hmem huri => exact ht
  | loading hunknown hscheme =>
    intro torrent hsession
    obtain ⟨handle, hmem, htorrent⟩ := ht torrent hsession
    exact ⟨handle, hmem, (hold _ _ rfl handle hmem).trans htorrent⟩
  | null hunknown hscheme hnull => exact ht
  | found hunknown hdirect hkey hsession hmem htorrent => exact ht
  | untracked hunknown hdirect hkey hsession hnone =>
    obtain ⟨handle, hmem, htorrent⟩ := ht _ hsession
    exact absurd htorrent (hnone handle hmem)
  | inserted hunknown hdirect hkey hnew =>
    intro torrent hsession
    rcases List.mem_append.mp hsession with hsession | hsession
    · obtain ⟨handle, hmem, htorrent⟩ := ht torrent hsession
      exact ⟨handle, List.mem_append_left _ hmem, (hold _ _ rfl handle hmem).trans htorrent⟩
    · refine ⟨s.registry.handles.length, List.mem_append_right _ (List.mem_singleton_self _), ?_⟩
      rw [getTorrent_concat s.registry _ rfl, if_pos rfl, List.mem_singleton.mp hsession]

/-- A handle that is of no torrent in the session can go. -/
theorem Tracked.untrack (ht : s.Tracked) {handle : ℕ} (hout : ¬ s.InSession handle) :
    ∀ torrent ∈ s.registry.session.torrents, ∃ handle' ∈ s.registry.torrents.filter (· ≠ handle),
      s.registry.getTorrent handle' = some torrent := by
  intro torrent hsession
  obtain ⟨handle', hmem, htorrent⟩ := ht torrent hsession
  have hne : handle' ≠ handle := fun h => hout ⟨torrent, hsession, h ▸ htorrent⟩
  exact ⟨handle', List.mem_filter.mpr ⟨hmem, decide_eq_true hne⟩, htorrent⟩

/-- `remove` takes torrents out of the session only. -/
theorem tracked_remove (ht : s.Tracked) (handle : ℕ) : (s.remove handle).Tracked := by
  rcases s.remove_cases handle with ⟨torrent, -, -, hremove⟩ | ⟨hout, calls, hremove⟩ | hremove
  · rw [hremove]
    exact fun torrent' hsession => ht torrent' (List.mem_filter.mp hsession).1
  · rw [hremove]
    exact ht.untrack hout
  · rw [hremove]
    exact ht

/-- An alert untracks handles of torrents that have left only. -/
theorem tracked_onAlert (hc : s.Consistent params) (ht : s.Tracked) {alert : Alert} {torrent : ℕ}
    {s' : Run} (h : s.onAlert alert torrent = some s') : s'.Tracked := by
  obtain ⟨removing, calls, -, rfl | ⟨handle, hout, rfl⟩⟩ := onAlert_cases hc h
  · exact ht
  · exact ht.untrack hout

/-- **Loaded metadata** must be of a torrent that is there already. -/
theorem tracked_metadataLoaded_iff (hc : s.Consistent params) (ht : s.Tracked) {handle : ℕ}
    (h : handle ∈ s.registry.loading) (key : Option ℕ) :
    Tracked { s with registry := s.registry.metadataLoaded handle key } ↔
      s.Guard (.metadataLoaded handle key) := by
  cases key with
  | none => exact iff_of_true ht trivial
  | some key =>
    obtain ⟨hlt, huntracked, -⟩ := hc.loading handle h
    have hold : ∀ r : Registry, (∃ torrent, r.handles =
        s.registry.handles.modify handle fun h => { h with torrent := some torrent }) →
        ∀ handle' ∈ s.registry.torrents, r.getTorrent handle' = s.registry.getTorrent handle' := by
      rintro r ⟨torrent, hr⟩ handle' h'
      have hne : handle' ≠ handle := fun heq => huntracked (heq ▸ h')
      rw [getTorrent_modify s.registry r hlt hr, if_neg hne]
    rcases s.registry.session.addTorrent_cases key with ⟨torrent, hsession, hkey, hadd⟩ | ⟨hnew, hadd⟩
    · refine iff_of_true ?_ ⟨torrent, hsession, hkey⟩
      simp only [metadataLoaded, hadd]
      intro torrent' hsession'
      obtain ⟨handle', hmem, htorrent⟩ := ht torrent' hsession'
      exact ⟨handle', hmem, (hold _ ⟨_, rfl⟩ handle' hmem).trans htorrent⟩
    · refine iff_of_false ?_ ?_
      · simp only [metadataLoaded, hadd]
        intro htracked
        obtain ⟨handle', hmem, htorrent⟩ :=
          htracked _ (List.mem_append_right _ (List.mem_singleton_self _))
        have hlt := hc.lt_known handle' _ ((hold _ ⟨_, rfl⟩ handle' hmem).symm.trans htorrent)
        exact absurd hlt (Nat.lt_irrefl _)
      · rintro ⟨torrent, hsession, hkey⟩
        exact hnew torrent hsession hkey

/-! ### The answers of `add` -/

/-- A present uri is answered with its handle. -/
theorem addsOnce_of_guard (hc : s.Consistent params) {uri : Uri} (hguard : s.Guard (.add uri)) :
    s.AddsOnce params uri := by
  intro handle hreturned hin
  have hscheme : uri.scheme ≠ .https := fun h => (hguard.2 h _ hreturned rfl).1 hin
  obtain ⟨torrent, htorrent, hkey, htracked⟩ := hc.returned _ hreturned hscheme
  obtain ⟨torrent', hsession, htorrent'⟩ := hin
  obtain rfl := Option.some.inj (htorrent.symm.trans htorrent')
  have hlt := s.registry.session.lt_known torrent hsession
  -- what has the key of the torrent in the session is its handle
  have hsame : ∀ handle' ∈ s.registry.torrents, ∀ torrent' ∈ s.registry.session.torrents,
      s.registry.getTorrent handle' = some torrent' →
      s.registry.session.known[torrent']? = params uri → handle' = handle := by
    intro handle' h' torrent' hsession' ht hkey'
    obtain rfl := s.registry.session.eq_of_known torrent' hsession' torrent hsession
      (hkey'.trans hkey.symm)
    exact hc.eq_of_torrent handle' h' handle (htracked hsession) (ht.trans htorrent.symm)
  have hadds := adds params s.registry uri hc.lt_known
  generalize s.registry.add params uri = answer at hadds ⊢
  cases hadds with
  | known hmem huri =>
    obtain ⟨torrent', hsession', ht⟩ := hguard.1 _ hmem huri
    obtain ⟨-, -, torrent'', ht', hkey'⟩ := hc.of_uri hmem huri
    obtain rfl := Option.some.inj (ht.symm.trans ht')
    exact ⟨congrArg some (hsame _ hmem torrent' hsession' ht hkey'), rfl⟩
  | loading hunknown hhttps => exact absurd hhttps hscheme
  | null hunknown _ hnull =>
    rcases hnull with hother | hnone
    · exact absurd hother (hc.of_returned _ hreturned).1
    · rw [hnone, List.getElem?_eq_getElem hlt] at hkey
      exact absurd hkey nofun
  | found hunknown hdirect hkey' hsession' hmem ht =>
    exact ⟨congrArg some (hsame _ hmem _ hsession' ht hkey'), rfl⟩
  | untracked hunknown hdirect hkey' hsession' hnone =>
    obtain rfl := s.registry.session.eq_of_known _ hsession' torrent hsession (hkey'.trans hkey.symm)
    exact absurd htorrent (hnone handle (htracked hsession))
  | inserted hunknown hdirect hkey' hnew => exact absurd (hkey.trans hkey') (hnew torrent hsession)

/-- A removed uri is answered with a handle of a torrent in the session. -/
theorem addsAgain_of_guard (hc : s.Consistent params) (ht : s.Tracked) {uri : Uri}
    (hguard : s.Guard (.add uri)) : s.AddsAgain params uri := by
  rintro ⟨handle, hreturned, hremoved⟩
  have hscheme : uri.scheme ≠ .https := fun h => (hguard.2 h _ hreturned rfl).2 hremoved
  obtain ⟨torrent, htorrent, hkey, -⟩ := hc.returned _ hreturned hscheme
  have hadds := adds params s.registry uri hc.lt_known
  unfold InSession add
  generalize s.registry.add params uri = answer at hadds ⊢
  cases hadds with
  | known hmem huri => exact ⟨_, rfl, hguard.1 _ hmem huri⟩
  | loading hunknown hhttps => exact absurd hhttps hscheme
  | null hunknown _ hnull =>
    rcases hnull with hother | hnone
    · exact absurd hother (hc.of_returned _ hreturned).1
    · rw [hnone, List.getElem?_eq_getElem (hc.lt_known _ _ htorrent)] at hkey
      exact absurd hkey nofun
  | found hunknown hdirect hkey' hsession hmem ht => exact ⟨_, rfl, _, hsession, ht⟩
  | untracked hunknown hdirect hkey' hsession hnone =>
    obtain ⟨handle', hmem, ht⟩ := ht _ hsession
    exact absurd ht (hnone handle' hmem)
  | inserted hunknown hdirect hkey' hnew =>
    refine ⟨_, rfl, s.registry.session.known.length, ?_, ?_⟩
    · exact List.mem_append_right _ (List.mem_singleton_self _)
    · rw [getTorrent_concat s.registry _ rfl, if_pos rfl]

/-- **The guard of `add`** is met where the answers are right. -/
theorem guard_of_adds (hc : s.Consistent params) {uri : Uri} (honce : s.AddsOnce params uri)
    (hagain : s.AddsAgain params uri) : s.Guard (.add uri) := by
  have hadds := adds params s.registry uri hc.lt_known
  unfold AddsOnce at honce
  unfold AddsAgain InSession add at hagain
  generalize s.registry.add params uri = answer at hadds honce hagain
  refine ⟨fun handle hmem huri => ?_, fun hhttps p hp hpuri => ?_⟩
  · by_contra hout
    -- the torrent of the handle has been removed
    obtain ⟨-, hreturned, torrent, htorrent, -⟩ := hc.of_uri hmem huri
    have hsession : torrent ∉ s.registry.session.torrents := fun h => hout ⟨torrent, h, htorrent⟩
    obtain ⟨handle', hremoved, htorrent'⟩ :=
      hc.gone torrent (hc.lt_known handle torrent htorrent) hsession
    have hwas : s.Removed handle := ⟨handle', hremoved, .inr ⟨htorrent'.trans htorrent.symm, by
      rw [htorrent]
      exact nofun⟩⟩
    obtain ⟨handle'', hanswer, hin⟩ := hagain ⟨handle, hreturned, hwas⟩
    cases hadds with
    | known hmem' huri' =>
      obtain rfl := Option.some.inj hanswer
      obtain rfl := hc.eq_of_uri _ hmem' handle hmem (huri'.trans huri.symm)
      exact hout hin
    | loading hunknown | null hunknown | found hunknown | untracked hunknown | inserted hunknown =>
      exact hunknown handle hmem huri
  · -- the answer is a handle of its own, without a torrent
    have hnew : answer.2 = some s.registry.handles.length ∧
        answer.1.getTorrent s.registry.handles.length = none := by
      cases hadds with
      | known hmem huri => exact absurd hhttps (hc.of_uri hmem huri).1.1
      | loading hunknown =>
        refine ⟨rfl, ?_⟩
        rw [getTorrent_concat s.registry _ rfl, if_pos rfl]
      | null hunknown hscheme => exact absurd hhttps hscheme
      | found hunknown hdirect | untracked hunknown hdirect | inserted hunknown hdirect =>
        exact absurd hhttps hdirect.1
    obtain ⟨uri', handle⟩ := p
    obtain rfl : uri' = uri := hpuri
    constructor
    · intro hin
      obtain ⟨hanswer, -⟩ := honce handle hp hin
      have heq := Option.some.inj (hanswer.symm.trans hnew.1)
      exact absurd (hc.of_returned _ hp).2 (heq ▸ Nat.lt_irrefl _)
    · intro hremoved
      obtain ⟨handle', hanswer, torrent, -, htorrent⟩ := hagain ⟨handle, hp, hremoved⟩
      obtain rfl := Option.some.inj (hanswer.symm.trans hnew.1)
      exact absurd (hnew.2.symm.trans htorrent) nofun

/-- **A step** from a registered state is right exactly if it meets the guard. -/
theorem keeps_iff (hc : s.Consistent params) (ht : s.Tracked) {e : RegistryEvent} {s' : Run}
    (h : s.next params e = some s') : s.Keeps params e s' ↔ s.Guard e := by
  have hc' := consistent_next hc h
  unfold Keeps
  rw [registered_iff hc']
  cases e with
  | add uri =>
    obtain rfl := Option.some.inj h
    constructor
    · rintro ⟨-, hadds⟩
      obtain ⟨honce, hagain⟩ := hadds uri rfl
      exact guard_of_adds hc honce hagain
    · refine fun hguard => ⟨tracked_add hc ht uri, fun uri' huri => ?_⟩
      obtain rfl : uri = uri' := RegistryEvent.add.inj huri
      exact ⟨addsOnce_of_guard hc hguard, addsAgain_of_guard hc ht hguard⟩
  | remove handle =>
    obtain ⟨-, rfl⟩ := Machine.of_ite_eq_some h
    exact iff_of_true ⟨tracked_remove ht handle, nofun⟩ trivial
  | metadataLoaded handle key =>
    obtain ⟨hmem, rfl⟩ := Machine.of_ite_eq_some h
    rw [tracked_metadataLoaded_iff hc ht hmem]
    exact and_iff_left nofun
  | alert alert torrent => exact iff_of_true ⟨tracked_onAlert hc ht h, nofun⟩ trivial

/-- **The registry**: in a run whose steps all meet the guard every torrent in the session is
    registered, and a further step is right exactly if it meets the guard. -/
theorem registered_of_guard (params : Uri → Option ℕ) {s : Run}
    (h : (machine params).RunUnder (fun _ => True) Guard s) :
    s.Registered ∧ ∀ e s', s.next params e = some s' → (s.Keeps params e s' ↔ s.Guard e) := by
  have hc := consistent_of_reachable h.reachable
  have ht : s.Tracked := by
    refine h.invariant_reachable (I := Tracked) ?_ ?_
    · rintro _ rfl -
      exact nofun
    · intro s e s' hreach ht hguard hstep
      have hc := consistent_of_reachable hreach
      exact (registered_iff (consistent_next hc hstep)).mp ((keeps_iff hc ht hstep).mpr hguard).1
  exact ⟨(registered_iff hc).mpr ht, fun e s' hstep => keeps_iff hc ht hstep⟩

/-- A magnet that is removed and, behind the alert, added again. -/
theorem registered_of_guard_again : ∃ s,
    (machine fun _ => some 7).RunUnder (fun _ => True) Guard s ∧
    (s.registry.session.torrents, s.registry.torrents, s.returned.map Prod.snd) = ([1], [1], [0, 1]) ∧
    s.Registered := by
  have hrun : (Machine.runEvents (Machine.guarded Guard (next fun _ => some 7)) start
      [.add ⟨.magnet, "a"⟩, .remove 0, .alert .torrentRemoved 0, .add ⟨.magnet, "a"⟩]).map
      (fun s => (s.registry.session.torrents, s.registry.torrents, s.returned.map Prod.snd)) =
        some ([1], [1], [0, 1]) := by
    decide
  obtain ⟨s, hs, heq⟩ := Machine.RunUnder.exists_of_runEvents
    (show (machine fun _ => some 7).RunUnder (fun _ => True) Guard _ from .start rfl trivial) hrun
  exact ⟨s, hs, heq, (registered_of_guard (fun _ => some 7) hs).1⟩

/-- The torrent of an https uri has no tracked handle, and the uri is answered with another one; a
    magnet that is added behind its removal, before the alert, is answered with the handle of the
    torrent that has left. -/
theorem not_registered :
    (∃ s, (machine fun _ => some 7).Reachable s ∧ ¬ s.Registered ∧
      ¬ s.AddsOnce (fun _ => some 7) ⟨.https, "a"⟩) ∧
    ∃ s, (machine fun _ => some 7).Reachable s ∧ s.Registered ∧
      ¬ s.AddsAgain (fun _ => some 7) ⟨.magnet, "a"⟩ := by
  have hhttps : Machine.runEvents (next fun _ => some 7) start
      [.add ⟨.https, "a"⟩, .metadataLoaded 0 (some 7)] = some _ := rfl
  have hmagnet : Machine.runEvents (next fun _ => some 7) start
      [.add ⟨.magnet, "a"⟩, .remove 0] = some _ := rfl
  refine ⟨⟨_, .of_runEvents (.start rfl) hhttps, fun h => ?_, fun h => ?_⟩,
    ⟨_, .of_runEvents (.start rfl) hmagnet, nofun, fun h => ?_⟩⟩
  · obtain ⟨handle, hiff, -⟩ := h 0 (by decide)
    exact absurd ((hiff handle).mpr rfl).1 List.not_mem_nil
  · exact absurd (h 0 (by decide) (by decide)).1 (by decide)
  · obtain ⟨handle, hanswer, hin⟩ := h ⟨0, by decide, by decide⟩
    obtain rfl := Option.some.inj (hanswer.symm.trans (show _ = some 0 from rfl))
    exact absurd hin (by decide)

end Run

end PopcornTime.TorrentLib
