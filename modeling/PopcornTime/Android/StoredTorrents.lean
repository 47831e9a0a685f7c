import Mathlib.Logic.Function.Basic
import PopcornTime.Android.TorrentLoader

namespace PopcornTime.Android

open PopcornTime TorrentUtil

/-!
# Android torrents — keys and info-hashes

`TorrentService` maps keys to handles, and the session has one torrent for each info-hash.  A key
that is new to the service and names a torrent of the session gets that torrent's handle: adding it
moves the storage of the torrent and resumes it.

The info-hash that a key names is a parameter here.  A magnet or a `.torrent` file names that of
its content.  An http key names the hash of its url, under which libtorrent files a torrent until
it has loaded the `.torrent`; whatever the parameter gives for it, the results hold.  How such a
torrent then gets the info-hash of its content, or is dropped, is in `LiveTorrents`.

* `StoredSession.addTorrent`, `removeTorrent`, `pauseTorrent`, `resumeTorrent` — the calls.
* `StoredSession.torrentOf_modify` — what a call to the handle of one key makes of another.
-/

/-- A torrent of the session. -/
structure StoredTorrent where
  handle : ℕ
  hasMetadata : Bool
  savePath : String
  paused : Bool
deriving DecidableEq

/-- The map of the service, and the torrents of the session by info-hash. -/
structure StoredSession where
  torrents : String → Option ℕ
  live : String → Option StoredTorrent
  nextHandle : ℕ

namespace StoredSession

/-- The torrent behind a key, if its handle is valid; `hash` is the info-hash that a key names. -/
def torrentOf (hash : String → String) (S : StoredSession) (key : String) : Option StoredTorrent :=
  match S.torrents key, S.live (hash key) with
  | some handle, some t => if t.handle = handle then some t else none
  | _, _ => none

def hasMetadata (hash : String → String) (S : StoredSession) (key : String) : Bool :=
  (S.torrentOf hash key).any StoredTorrent.hasMetadata

def isTorrentPaused (hash : String → String) (S : StoredSession) (key : String) : Bool :=
  (S.torrentOf hash key).any StoredTorrent.paused

/-- A call to the handle of a key. -/
def modify (hash : String → String) (S : StoredSession) (key : String)
    (f : StoredTorrent → StoredTorrent) : StoredSession :=
  match S.torrentOf hash key with
  | none => S
  | some t => { S with live := Function.update S.live (hash key) (some (f t)) }

/-- `addTorrent`.  `accepted` is `none` where the session refuses the key, else it says whether the
    metadata is there at once.  A key of an info-hash that the session has takes over its torrent,
    also an http key if that is what `hash` says of it. -/
def addTorrent (hash : String → String) (S : StoredSession) (key savePath : String)
    (accepted : Option Bool) : StoredSession :=
  match S.torrents key, accepted with
  | none, some hasMetadata =>
    match S.live (hash key) with
    | some t =>
      -- the handle of the torrent there is: `move_storage`, and `resume`
      { S with
        torrents := Function.update S.torrents key (some t.handle)
        live := Function.update S.live (hash key)
          (some { t with savePath := savePath, paused := false }) }
    | none =>
      { torrents := Function.update S.torrents key (some S.nextHandle)
        live := Function.update S.live (hash key)
          (some ⟨S.nextHandle, hasMetadata, savePath, false⟩)
        nextHandle := S.nextHandle + 1 }
  | _, _ => S

/-- `removeTorrent` -/
def removeTorrent (hash : String → String) (S : StoredSession) (key : String) : StoredSession :=
  { S with
    torrents := Function.update S.torrents key none
    live :=
      if (S.torrentOf hash key).isSome then Function.update S.live (hash key) none else S.live }

/-- `pauseTorrent` of a torrent that is not being watched. -/
def pauseTorrent (hash : String → String) (S : StoredSession) (key : String) : StoredSession :=
  S.modify hash key fun t => { t with paused := true }

/-- `resumeTorrent` -/
def resumeTorrent (hash : String → String) (S : StoredSession) (key : String) : StoredSession :=
  S.modify hash key fun t => { t with paused := false }

/-- The metadata of a torrent arrives. -/
def loadMetadata (S : StoredSession) (infoHash : String) : StoredSession :=
  { S with
    live := Function.update S.live infoHash
      ((S.live infoHash).map fun t => { t with hasMetadata := true }) }

/-- The calls of `TorrentUtil.addTorrent`. -/
def service (hash : String → String) : MetadataService StoredSession where
  hasMetadata := hasMetadata hash
  addTorrent := addTorrent hash
  removeTorrent := removeTorrent hash

@[simp] theorem service_hasMetadata (hash : String → String) (S : StoredSession) :
    (service hash).hasMetadata S = S.hasMetadata hash := rfl

/-! ### What a call leaves -/

/-- A call to the handle of `key` reaches the torrent of `k`. -/
def reaches (hash : String → String) (S : StoredSession) (key k : String) : Bool :=
  (S.torrentOf hash key).isSome && decide (hash k = hash key)

variable {hash : String → String} {S : StoredSession} {key k savePath : String}

theorem torrentOf_eq_some {t : StoredTorrent} :
    S.torrentOf hash k = some t ↔ S.torrents k = some t.handle ∧ S.live (hash k) = some t := by
  unfold torrentOf
  cases ht : S.torrents k with
  | none => simp
  | some handle =>
    cases hl : S.live (hash k) with
    | none => simp
    | some t' =>
      simp only [Option.ite_none_right_eq_some, Option.some.injEq]
      constructor
      · rintro ⟨hhandle, rfl⟩
        exact ⟨hhandle.symm, rfl⟩
      · rintro ⟨hhandle, rfl⟩
        exact ⟨hhandle.symm, rfl⟩

/-- The torrents behind the keys depend on nothing else. -/
theorem torrentOf_congr {S' : StoredSession} (htorrents : S'.torrents k = S.torrents k)
    (hlive : S'.live (hash k) = S.live (hash k)) : S'.torrentOf hash k = S.torrentOf hash k := by
  rw [torrentOf, torrentOf, htorrents, hlive]

/-- A call to a handle, which it keeps. -/
theorem torrentOf_modify {f : StoredTorrent → StoredTorrent} (hf : ∀ t, (f t).handle = t.handle) :
    (S.modify hash key f).torrentOf hash k =
      if S.reaches hash key k then (S.torrentOf hash k).map f else S.torrentOf hash k := by
  unfold modify reaches
  cases ht : S.torrentOf hash key with
  | none => simp
  | some t =>
    have hlive := (torrentOf_eq_some.mp ht).2
    -- every key of the info-hash sees the change
    by_cases hk : hash k = hash key
    · rw [if_pos (by simpa using hk)]
      simp only [torrentOf, hk, Function.update_self, hlive]
      cases S.torrents k with
      | none => rfl
      | some handle =>
        simp only [hf]
        split_ifs <;> rfl
    · rw [if_neg (by simpa using hk)]
      exact torrentOf_congr rfl (Function.update_of_ne hk _ _)

/-- `addTorrent` makes a call to the session. -/
def adds (S : StoredSession) (key : String) (accepted : Option Bool) : Bool :=
  (S.torrents key).isNone && accepted.isSome

theorem addTorrent_of_not_adds {accepted : Option Bool} (h : S.adds key accepted = false) :
    S.addTorrent hash key savePath accepted = S := by
  unfold adds at h
  unfold addTorrent
  cases ht : S.torrents key with
  | some handle => rfl
  | none =>
    cases accepted with
    | none => rfl
    | some hasMetadata => simp [ht] at h

theorem live_addTorrent_of_ne {accepted : Option Bool} (h : hash k ≠ hash key) :
    (S.addTorrent hash key savePath accepted).live (hash k) = S.live (hash k) := by
  unfold addTorrent
  split
  · split
    · exact Function.update_of_ne h _ _
    · exact Function.update_of_ne h _ _
  · rfl

theorem torrents_addTorrent_of_ne {accepted : Option Bool} (h : k ≠ key) :
    (S.addTorrent hash key savePath accepted).torrents k = S.torrents k := by
  unfold addTorrent
  split
  · split
    · exact Function.update_of_ne h _ _
    · exact Function.update_of_ne h _ _
  · rfl

end StoredSession

end PopcornTime.Android
