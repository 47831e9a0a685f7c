import Mathlib.Logic.Function.Basic
import PopcornTime.Android.TorrentLoader

namespace PopcornTime.Android

open PopcornTime TorrentUtil

/-!
# Android torrents — the torrents of the session, by their handles

`TorrentService` maps keys to handles.  Of a key that is new to it libtorrent says whether the
session has the torrent already; the handle is that torrent's then, and adding the key moves its
storage and resumes it.

A magnet or a `.torrent` file names a torrent by the info-hash.  An http key is only a url: the
service sets `params.url`, and libtorrent makes a torrent that it knows by the hash of the url until
the `.torrent` is loaded.  Then that torrent gets the info-hash, or, where the session has a torrent
of that info-hash, it is dropped as a duplicate and the other one is found by the url from then on.

* `LiveSession.addTorrent`, `removeTorrent`, `pauseTorrent`, `resumeTorrent` — the calls.
* `LiveSession.loadMetadata` — metadata arrives, or the `.torrent` of a url.
* `LiveSession.runs` — the torrent of a key has its metadata, runs and is saved in a directory;
  the `runs` lemmas say what each call leaves of that.
-/

/-- What the session knows a torrent by: the url of a `.torrent` that is still to be loaded, or the
    info-hash, with or without the metadata. -/
inductive TorrentName
  | url (url : String)
  | infoHash (infoHash : String) (hasMetadata : Bool)
deriving DecidableEq

/-- Two torrents of the same hash, which the session cannot both have. -/
def TorrentName.same : TorrentName → TorrentName → Bool
  | .url a, .url b => decide (a = b)
  | .infoHash a _, .infoHash b _ => decide (a = b)
  | .url _, .infoHash _ _ | .infoHash _ _, .url _ => false

/-- A torrent of the session; `url` is the one it was added by, if there is one. -/
structure SessionTorrent where
  name : TorrentName
  url : Option String
  savePath : String
  paused : Bool
deriving DecidableEq

def SessionTorrent.hasMetadata (t : SessionTorrent) : Bool :=
  match t.name with
  | .url _ => false
  | .infoHash _ hasMetadata => hasMetadata

/-- The map of the service, and the torrents of the session.  A handle is a place in the list;
    where the torrent is gone the handle is not valid any more. -/
structure LiveSession where
  torrents : String → Option ℕ
  live : List (Option SessionTorrent)

namespace LiveSession

/-- `key.startsWith("http")` -/
def isHttp (key : String) : Bool :=
  "http".toList.isPrefixOf key.toList

/-- `params.url` -/
def urlOf (key : String) : Option String :=
  if isHttp key then some key else none

/-- What a new torrent is known by.  `hash` is the info-hash that a magnet or a file names, and
    `resumed` is that of the metadata in the resume data, which libtorrent takes for a url. -/
def nameOf (hash : String → String) (key : String) (resumed : Option String) (hasMetadata : Bool) :
    TorrentName :=
  if isHttp key then
    match resumed with
    | some infoHash => .infoHash infoHash true
    | none => .url key
  else .infoHash (hash key) hasMetadata

/-- The torrent of a handle, if that is valid. -/
def torrentAt (S : LiveSession) (handle : ℕ) : Option SessionTorrent :=
  S.live[handle]?.join

/-- The torrent behind a key, if its handle is valid. -/
def torrentOf (S : LiveSession) (key : String) : Option SessionTorrent :=
  (S.torrents key).bind S.torrentAt

def hasMetadata (S : LiveSession) (key : String) : Bool :=
  (S.torrentOf key).any SessionTorrent.hasMetadata

def isTorrentPaused (S : LiveSession) (key : String) : Bool :=
  (S.torrentOf key).any SessionTorrent.paused

/-- The first torrent of a kind. -/
def find (S : LiveSession) (p : SessionTorrent → Bool) : Option ℕ :=
  S.live.findIdx? (Option.any p)

/-- The torrent that the session has for a key: of the same hash, or else of the url. -/
def lookup (hash : String → String) (S : LiveSession) (key : String) (resumed : Option String) :
    Option ℕ :=
  match S.find fun t => t.name.same (nameOf hash key resumed false) with
  | some handle => some handle
  | none => if isHttp key then S.find fun t => decide (t.url = some key) else none

/-- A call to a handle. -/
def modifyAt (S : LiveSession) (handle : ℕ) (f : SessionTorrent → SessionTorrent) : LiveSession :=
  { S with live := S.live.modify handle (Option.map f) }

/-- A call to the handle of a key. -/
def modify (S : LiveSession) (key : String) (f : SessionTorrent → SessionTorrent) : LiveSession :=
  match S.torrents key with
  | none => S
  | some handle => S.modifyAt handle f

/-- `addTorrent`.  `accepted` is `none` where the session refuses the key, else it says whether the
    metadata of a magnet or a file is there at once. -/
def addTorrent (hash : String → String) (resumed : Option String) (S : LiveSession)
    (key savePath : String) (accepted : Option Bool) : LiveSession :=
  match S.torrents key, accepted with
  | none, some hasMetadata =>
    match S.lookup hash key resumed with
    | some handle =>
      -- the torrent there is gets the url, if it has none; `move_storage`, and `resume`
      { torrents := Function.update S.torrents key (some handle)
        live := S.live.modify handle <| Option.map fun t =>
          { t with url := t.url <|> urlOf key, savePath := savePath, paused := false } }
    | none =>
      { torrents := Function.update S.torrents key (some S.live.length)
        live := S.live ++ [some ⟨nameOf hash key resumed hasMetadata, urlOf key, savePath, false⟩] }
  | _, _ => S

/-- `removeTorrent` -/
def removeTorrent (S : LiveSession) (key : String) : LiveSession where
  torrents := Function.update S.torrents key none
  live := match S.torrents key with
    | none => S.live
    | some handle => S.live.set handle none

/-- `pauseTorrent` of a torrent that is not being watched. -/
def pauseTorrent (S : LiveSession) (key : String) : LiveSession :=
  S.modify key fun t => { t with paused := true }

/-- `resumeTorrent` -/
def resumeTorrent (S : LiveSession) (key : String) : LiveSession :=
  S.modify key fun t => { t with paused := false }

/-- The metadata of a torrent arrives, or the `.torrent` that a url leads to. -/
def loadMetadata (hash : String → String) (S : LiveSession) (handle : ℕ) : LiveSession :=
  match (S.torrentAt handle).map SessionTorrent.name with
  | none => S
  | some (.infoHash infoHash _) =>
    S.modifyAt handle fun t => { t with name := .infoHash infoHash true }
  | some (.url url) =>
    match S.find fun t => t.name.same (.infoHash (hash url) true) with
    | some other =>
      -- a duplicate: `abort`, and the other one gets the url, if it has none
      { S with
        live := (S.live.set handle none).modify other <| Option.map fun t =>
          { t with url := t.url <|> some url } }
    | none => S.modifyAt handle fun t => { t with name := .infoHash (hash url) true }

/-- The calls of `TorrentUtil.addTorrent`. -/
def service (hash : String → String) (resumed : Option String) : MetadataService LiveSession where
  hasMetadata := hasMetadata
  addTorrent := addTorrent hash resumed
  removeTorrent := removeTorrent

@[simp] theorem service_addTorrent (hash : String → String) (resumed : Option String)
    (S : LiveSession) (key savePath : String) (accepted : Option Bool) :
    (service hash resumed).addTorrent S key savePath accepted =
      S.addTorrent hash resumed key savePath accepted := rfl

@[simp] theorem service_removeTorrent (hash : String → String) (resumed : Option String)
    (S : LiveSession) (key : String) :
    (service hash resumed).removeTorrent S key = S.removeTorrent key := rfl

/-! ### What a call leaves -/

/-- The torrent of a key has its metadata and is saved in a directory. -/
def inPlace (S : LiveSession) (key directory : String) : Bool :=
  (S.torrentOf key).any fun t => t.hasMetadata && decide (t.savePath = directory)

/-- And it runs. -/
def runs (S : LiveSession) (key directory : String) : Bool :=
  (S.torrentOf key).any fun t =>
    t.hasMetadata && decide (t.savePath = directory) && !t.paused

/-- A call to the handle of `key` reaches the torrent of `k`. -/
def reaches (S : LiveSession) (key k : String) : Bool :=
  (S.torrentOf key).isSome && decide (S.torrents k = S.torrents key)

variable {hash : String → String} {S S' : LiveSession} {key k directory savePath : String}
  {resumed : Option String} {accepted : Option Bool} {handle : ℕ}

/-- The torrents behind the keys depend on nothing else. -/
theorem torrentOf_congr (htorrents : S'.torrents k = S.torrents k)
    (hlive : ∀ handle, S.torrents k = some handle → S'.torrentAt handle = S.torrentAt handle) :
    S'.torrentOf k = S.torrentOf k := by
  rw [torrentOf, torrentOf, htorrents]
  cases hk : S.torrents k with
  | none => rfl
  | some handle => exact hlive handle hk

/-- A call to a handle changes its torrent only. -/
theorem torrentAt_modifyAt {f : SessionTorrent → SessionTorrent} (h : ℕ) :
    (S.modifyAt handle f).torrentAt h =
      if handle = h then (S.torrentAt h).map f else S.torrentAt h := by
  simp only [torrentAt, modifyAt, List.getElem?_modify]
  split_ifs
  · cases S.live[h]? <;> rfl
  · cases S.live[h]? <;> rfl

/-- A call to a handle is seen by every key that has it. -/
theorem torrentOf_modify {f : SessionTorrent → SessionTorrent} :
    (S.modify key f).torrentOf k =
      if S.reaches key k then (S.torrentOf k).map f else S.torrentOf k := by
  unfold modify reaches
  cases hkey : S.torrents key with
  | none => simp [torrentOf, hkey]
  | some handle =>
    by_cases hk : S.torrents k = some handle
    · have hafter : (S.modifyAt handle f).torrentOf k = (S.torrentAt handle).map f := by
        show ((S.torrents k).bind (S.modifyAt handle f).torrentAt) = _
        rw [hk, Option.bind_some, torrentAt_modifyAt, if_pos rfl]
      have hbefore : S.torrentOf k = S.torrentAt handle := by
        rw [torrentOf, hk, Option.bind_some]
      have hsame : S.torrentOf key = S.torrentAt handle := by
        rw [torrentOf, hkey, Option.bind_some]
      simp only [hafter, hbefore, hsame, hk]
      cases S.torrentAt handle <;> rfl
    · rw [if_neg (by simpa using fun _ => hk)]
      refine torrentOf_congr rfl fun h hh => ?_
      rw [torrentAt_modifyAt, if_neg]
      rintro rfl
      exact hk hh

/-- A key whose torrent runs reaches it. -/
theorem reaches_self (h : S.runs k directory = true) : S.reaches k k = true := by
  unfold runs at h
  unfold reaches
  cases ht : S.torrentOf k with
  | none => simp [ht] at h
  | some t => simp

/-- A torrent that is gone leaves the other handles. -/
theorem torrentAt_set_none {live : List (Option SessionTorrent)} (h : ℕ) :
    ((live.set handle none)[h]?).join = if handle = h then none else (live[h]?).join := by
  rw [List.getElem?_set]
  split_ifs <;> rfl

/-- Where a key is removed, another one of the same torrent keeps a handle that is not valid. -/
theorem torrentOf_removeTorrent (hk : k ≠ key) : (S.removeTorrent key).torrentOf k =
    if S.reaches key k then none else S.torrentOf k := by
  have htorrents : (S.removeTorrent key).torrents k = S.torrents k :=
    Function.update_of_ne hk _ _
  unfold reaches
  cases hkey : S.torrents key with
  | none =>
    rw [if_neg (by simp [torrentOf, hkey])]
    exact torrentOf_congr htorrents fun _ _ => by simp only [torrentAt, removeTorrent, hkey]
  | some handle =>
    have hlive : ∀ h, (S.removeTorrent key).torrentAt h =
        if handle = h then none else S.torrentAt h := by
      intro h
      simp only [torrentAt, removeTorrent, hkey]
      exact torrentAt_set_none h
    by_cases hshared : S.torrents k = some handle
    · -- it was the torrent of both
      rw [torrentOf, htorrents, hshared, Option.bind_some, hlive, if_pos rfl, torrentOf, torrentOf,
        hkey, hshared, Option.bind_some]
      cases S.torrentAt handle <;> simp
    · rw [if_neg (by simpa using fun _ => hshared)]
      refine torrentOf_congr htorrents fun h hh => (hlive h).trans (if_neg ?_)
      rintro rfl
      exact hshared hh

/-- A torrent runs on unless a removal reaches it. -/
theorem runs_removeTorrent : (S.removeTorrent key).runs k directory = true ↔
    S.runs k directory = true ∧ S.reaches key k = false := by
  by_cases hk : k = key
  · -- the key itself is gone from the map
    subst hk
    have hnone : (S.removeTorrent k).torrentOf k = none := by
      simp [torrentOf, removeTorrent]
    rw [runs, hnone]
    refine iff_of_false (by simp) ?_
    rintro ⟨hruns, hreach⟩
    rw [reaches_self hruns] at hreach
    cases hreach
  · unfold runs
    rw [torrentOf_removeTorrent hk]
    cases S.reaches key k <;> simp

/-- The torrent is paused under every key of it, -/
theorem torrentOf_pauseTorrent : (S.pauseTorrent key).torrentOf k =
    if S.reaches key k then (S.torrentOf k).map fun t => { t with paused := true }
    else S.torrentOf k :=
  torrentOf_modify

/-- and resumed likewise. -/
theorem torrentOf_resumeTorrent : (S.resumeTorrent key).torrentOf k =
    if S.reaches key k then (S.torrentOf k).map fun t => { t with paused := false }
    else S.torrentOf k :=
  torrentOf_modify

/-- Without a handle there is nothing to pause. -/
theorem pauseTorrent_of_not_hasTorrent (h : S.torrents key = none) : S.pauseTorrent key = S := by
  rw [pauseTorrent, modify, h]

/-- A torrent runs on unless a pause reaches it. -/
theorem runs_pauseTorrent : (S.pauseTorrent key).runs k directory = true ↔
    S.runs k directory = true ∧ S.reaches key k = false := by
  unfold runs
  rw [torrentOf_pauseTorrent]
  cases S.reaches key k with
  | true => cases S.torrentOf k <;> simp
  | false => simp

/-- What a resumption lets run. -/
theorem runs_resumeTorrent : (S.resumeTorrent key).runs k directory = true ↔
    S.inPlace k directory = true ∧
      (S.isTorrentPaused k = false ∨ S.reaches key k = true) := by
  unfold runs inPlace isTorrentPaused
  rw [torrentOf_resumeTorrent]
  cases S.torrentOf k with
  | none => simp
  | some t => cases S.reaches key k <;> simp [SessionTorrent.hasMetadata]

/-- A torrent in its place runs unless it is paused. -/
theorem runs_iff : S.runs k directory = true ↔
    S.inPlace k directory = true ∧ S.isTorrentPaused k = false := by
  unfold runs inPlace isTorrentPaused
  cases S.torrentOf k <;> simp

/-- A resumption stops nothing. -/
theorem runs_resumeTorrent_of_runs (h : S.runs k directory = true) :
    (S.resumeTorrent key).runs k directory = true :=
  runs_resumeTorrent.mpr ⟨(runs_iff.mp h).1, .inl (runs_iff.mp h).2⟩

/-! ### Keys that are added, and metadata that arrives -/

/-- A torrent runs under a key whose handle is valid. -/
theorem runs_eq_true : S.runs k directory = true ↔
    ∃ handle t, S.torrents k = some handle ∧ S.torrentAt handle = some t ∧
      t.hasMetadata = true ∧ t.savePath = directory ∧ t.paused = false := by
  simp only [runs, torrentOf, Option.any_eq_true, Option.bind_eq_some_iff, Bool.and_eq_true,
    decide_eq_true_eq, Bool.not_eq_true']
  constructor
  · rintro ⟨t, ⟨handle, hk, ht⟩, ⟨hmetadata, hpath⟩, hpaused⟩
    exact ⟨handle, t, hk, ht, hmetadata, hpath, hpaused⟩
  · rintro ⟨handle, t, hk, ht, hmetadata, hpath, hpaused⟩
    exact ⟨t, ⟨handle, hk, ht⟩, ⟨hmetadata, hpath⟩, hpaused⟩

/-- What is found is a torrent of the session. -/
theorem find_eq_some {p : SessionTorrent → Bool} (h : S.find p = some handle) :
    ∃ t, S.torrentAt handle = some t ∧ p t = true := by
  obtain ⟨hlt, hany, -⟩ := List.findIdx?_eq_some_iff_getElem.mp h
  obtain ⟨t, ht, hp⟩ := (Option.any_eq_true _ _).mp hany
  refine ⟨t, ?_, hp⟩
  rw [torrentAt, List.getElem?_eq_getElem hlt, ht]
  rfl

/-- What the session has for a key is one of its torrents. -/
theorem lookup_eq_some (h : S.lookup hash key resumed = some handle) :
    ∃ t, S.torrentAt handle = some t := by
  unfold lookup at h
  split at h
  · next found hfind =>
    obtain rfl := Option.some.inj h
    obtain ⟨t, ht, -⟩ := find_eq_some hfind
    exact ⟨t, ht⟩
  · split_ifs at h
    obtain ⟨t, ht, -⟩ := find_eq_some h
    exact ⟨t, ht⟩

/-- `addTorrent` makes a call to the session. -/
def adds (S : LiveSession) (key : String) (accepted : Option Bool) : Bool :=
  (S.torrents key).isNone && accepted.isSome

/-- The handle that a new key gets: that of the torrent there is, or the next one. -/
def handleOf (hash : String → String) (S : LiveSession) (key : String) (resumed : Option String) :
    ℕ :=
  (S.lookup hash key resumed).getD S.live.length

/-- Without a call to the session nothing changes. -/
theorem addTorrent_of_not_adds (h : S.adds key accepted = false) :
    S.addTorrent hash resumed key savePath accepted = S := by
  unfold adds at h
  unfold addTorrent
  cases ht : S.torrents key with
  | some handle => rfl
  | none =>
    cases accepted with
    | none => rfl
    | some hasMetadata => simp [ht] at h

/-- The other keys keep their handles. -/
theorem torrents_addTorrent_of_ne (h : k ≠ key) :
    (S.addTorrent hash resumed key savePath accepted).torrents k = S.torrents k := by
  unfold addTorrent
  split
  · split <;> exact Function.update_of_ne h _ _
  · rfl

/-- The new one gets its own. -/
theorem torrents_addTorrent_self (h : S.adds key accepted = true) :
    (S.addTorrent hash resumed key savePath accepted).torrents key =
      some (S.handleOf hash key resumed) := by
  unfold adds at h
  rw [Bool.and_eq_true, Option.isNone_iff_eq_none, Option.isSome_iff_exists] at h
  obtain ⟨hnone, hasMetadata, rfl⟩ := h
  simp only [addTorrent, hnone, handleOf]
  cases S.lookup hash key resumed <;> exact Function.update_self _ _ _

/-- The torrents of other handles are left alone. -/
theorem torrentAt_addTorrent_of_ne (h : handle ≠ S.handleOf hash key resumed) :
    (S.addTorrent hash resumed key savePath accepted).torrentAt handle = S.torrentAt handle := by
  unfold addTorrent
  unfold handleOf at h
  split
  · split
    · next found hlookup =>
      rw [hlookup, Option.getD_some] at h
      simp only [torrentAt, List.getElem?_modify_ne _ _ (Ne.symm h)]
    · next hlookup =>
      rw [hlookup, Option.getD_none] at h
      simp only [torrentAt, List.getElem?_append]
      split_ifs with hlt
      · rfl
      · -- behind the new place there is nothing, before and after
        have hle : S.live.length ≤ handle := not_lt.mp hlt
        rw [List.getElem?_eq_none (by simp; omega), List.getElem?_eq_none hle]
  · rfl

/-- The torrent of the new key is saved where the call says, and runs if it was there. -/
theorem torrentAt_addTorrent_self (hash : String → String) (resumed : Option String)
    (savePath : String) (h : S.adds key accepted = true) :
    ∃ t, (S.addTorrent hash resumed key savePath accepted).torrentAt
        (S.handleOf hash key resumed) = some t ∧ t.savePath = savePath ∧ t.paused = false ∧
      ∀ t₀, S.torrentAt (S.handleOf hash key resumed) = some t₀ →
        t.hasMetadata = t₀.hasMetadata := by
  unfold adds at h
  rw [Bool.and_eq_true, Option.isNone_iff_eq_none, Option.isSome_iff_exists] at h
  obtain ⟨hnone, hasMetadata, rfl⟩ := h
  simp only [addTorrent, hnone, handleOf]
  cases hlookup : S.lookup hash key resumed with
  | some handle =>
    obtain ⟨t₀, ht₀⟩ := lookup_eq_some hlookup
    -- a live torrent of the key keeps its metadata and takes the path of the call
    refine ⟨{ t₀ with url := t₀.url <|> urlOf key, savePath := savePath, paused := false },
      ?_, rfl, rfl, fun t ht => ?_⟩
    · rw [torrentAt] at ht₀
      simp only [torrentAt, Option.getD_some, List.getElem?_modify_eq]
      cases hlive : S.live[handle]? with
      | none => simp [hlive] at ht₀
      | some o =>
        rw [hlive, Option.join_some] at ht₀
        rw [ht₀]
        rfl
    · rw [Option.getD_some, ht₀] at ht
      obtain rfl := Option.some.inj ht
      rfl
  | none =>
    refine ⟨⟨nameOf hash key resumed hasMetadata, urlOf key, savePath, false⟩, ?_, rfl, rfl,
      fun t ht => ?_⟩
    · simp [torrentAt]
    · simp [torrentAt] at ht

/-- Torrents that the key does not name are left alone. -/
theorem runs_addTorrent_of_ne (hk : k ≠ key)
    (hhandle : S.torrents k ≠ some (S.handleOf hash key resumed)) :
    (S.addTorrent hash resumed key savePath accepted).runs k directory = S.runs k directory := by
  rw [runs, runs, torrentOf_congr (torrents_addTorrent_of_ne hk) fun handle hh => ?_]
  refine torrentAt_addTorrent_of_ne ?_
  rintro rfl
  exact hhandle hh

/-- A torrent that is added, or found by the key that is, is saved where that says. -/
theorem savePath_of_adds (h : S.adds key accepted = true)
    (hk : k = key ∨ S.torrents k = some (S.handleOf hash key resumed))
    (hruns : (S.addTorrent hash resumed key savePath accepted).runs k directory = true) :
    savePath = directory := by
  have hhandle : (S.addTorrent hash resumed key savePath accepted).torrents k =
      some (S.handleOf hash key resumed) := by
    by_cases heq : k = key
    · rw [heq]
      exact torrents_addTorrent_self h
    · rw [torrents_addTorrent_of_ne heq]
      exact hk.resolve_left heq
  obtain ⟨t, ht, hpath, -⟩ := torrentAt_addTorrent_self hash resumed savePath h
  obtain ⟨handle, t', hk', ht', -, hpath', -⟩ := runs_eq_true.mp hruns
  obtain rfl := Option.some.inj (hhandle.symm.trans hk')
  obtain rfl := Option.some.inj (ht.symm.trans ht')
  exact hpath.symm.trans hpath'

/-- A key that is added was not in the map, so what runs has another name. -/
theorem ne_of_adds (h : S.adds key accepted = true) (hruns : S.runs k directory = true) :
    k ≠ key := by
  obtain ⟨handle, t, hk, -⟩ := runs_eq_true.mp hruns
  rintro rfl
  simp [adds, hk] at h

/-- A torrent that runs where it is added to runs on. -/
theorem runs_addTorrent (h : S.runs k savePath = true) :
    (S.addTorrent hash resumed key savePath accepted).runs k savePath = true := by
  cases hadds : S.adds key accepted with
  | false => rwa [addTorrent_of_not_adds hadds]
  | true =>
    obtain ⟨handle, t₀, hk, ht₀, hmetadata, -⟩ := runs_eq_true.mp h
    have hne : k ≠ key := ne_of_adds hadds h
    by_cases hhandle : S.torrents k = some (S.handleOf hash key resumed)
    · obtain ⟨t, ht, hpath, hpaused, hkept⟩ :=
        torrentAt_addTorrent_self hash resumed savePath hadds
      obtain rfl := Option.some.inj (hk.symm.trans hhandle)
      refine runs_eq_true.mpr ⟨_, t, (torrents_addTorrent_of_ne hne).trans hk, ht, ?_, hpath,
        hpaused⟩
      rw [hkept t₀ ht₀]
      exact hmetadata
    · rw [runs_addTorrent_of_ne hne hhandle]
      exact h

/-- Metadata that arrives stops nothing: a duplicate that is dropped had no metadata. -/
theorem runs_loadMetadata (h : S.runs k directory = true) :
    (S.loadMetadata hash handle).runs k directory = true := by
  obtain ⟨own, t, hk, ht, hmetadata, hpath, hpaused⟩ := runs_eq_true.mp h
  unfold loadMetadata
  split
  · exact h
  · next infoHash _ _ =>
    -- the torrent whose metadata it is, or another
    refine runs_eq_true.mpr ⟨own, if handle = own then { t with name := .infoHash infoHash true }
      else t, hk, ?_, ?_, ?_, ?_⟩
    · rw [torrentAt_modifyAt, ht]
      split_ifs <;> rfl
    · split_ifs
      · rfl
      · exact hmetadata
    · split_ifs <;> exact hpath
    · split_ifs <;> exact hpaused
  · next url hname =>
    have hne : handle ≠ own := by
      rintro rfl
      rw [ht, Option.map_some, Option.some.injEq] at hname
      simp [SessionTorrent.hasMetadata, hname] at hmetadata
    split
    · next other _ =>
      -- the one that stays may get the url of the duplicate
      refine runs_eq_true.mpr ⟨own, if other = own then { t with url := t.url <|> some url } else t,
        hk, ?_, ?_, ?_, ?_⟩
      · rw [torrentAt] at ht
        simp only [torrentAt, List.getElem?_modify, List.getElem?_set_ne hne]
        cases hlive : S.live[own]? with
        | none => simp [hlive] at ht
        | some o =>
          rw [hlive, Option.join_some] at ht
          rw [ht]
          split_ifs <;> rfl
      · split_ifs <;> exact hmetadata
      · split_ifs <;> exact hpath
      · split_ifs <;> exact hpaused
    · refine runs_eq_true.mpr ⟨own, t, hk, ?_, hmetadata, hpath, hpaused⟩
      rw [torrentAt_modifyAt, if_neg hne]
      exact ht

end LiveSession

end PopcornTime.Android
