import PopcornTime.Android.TorrentUtil

namespace PopcornTime.Android

open PopcornTime TorrentUtil

/-!
# Android torrents — `TorrentUtil.addTorrent`, wait by wait

`addTorrent` first looks for a torrent that is there with its metadata.  Where there is none it
tries the file, the url and the magnet in turn: it adds the key to the service, waits for the
metadata, and removes the key where the time is up.

* `TorrentLoader` — where a call stands.
* `TorrentLoader.advance`, `timeOut` — what it does next, over any service that has the calls it
  makes.
* `TorrentLoader.advance_session`, `timeOut_eq` — what is left of the service: a key is added, a
  key is removed, or it is as it was.
-/

/-- The calls of the service that `addTorrent` makes: `hasMetadata` of a key, `addTorrent` of a key
    to a directory, and `removeTorrent`.  With an added key comes what the session does: it refuses
    the key (`none`), or it takes it with or without metadata. -/
structure MetadataService (σ : Type) where
  hasMetadata : σ → String → Bool
  addTorrent : σ → String → String → Option Bool → σ
  removeTorrent : σ → String → σ

/-- Where `addTorrent` stands: before its look for a torrent that is there already, before the next
    of the keys left, waiting for the metadata of a key, or at its answer. -/
inductive TorrentLoader
  | begin
  | adding (keys : List (Option String))
  | waiting (key : String) (keys : List (Option String))
  | done (key : Option String)
deriving DecidableEq

namespace TorrentLoader

/-- The arguments of `addTorrent`. -/
structure Request where
  savePath : String
  file : Option String
  url : Option String
  magnet : Option String
deriving DecidableEq

variable {σ : Type}

/-- It goes on; a wait does so once the metadata is there. -/
def advance (service : MetadataService σ) (request : Request) (accepted : Option Bool) (S : σ) :
    TorrentLoader → Option (TorrentLoader × σ)
  | .begin =>
    if request.savePath = "" then some (.done none, S)
    else
      -- a key with metadata in the session is used as it is
      let available := getAvailableTorrentFile (service.hasMetadata S) request.file request.url
        request.magnet
      if isEmpty available then some (.adding [request.file, request.url, request.magnet], S)
      else some (.done available, S)
  | .adding [] => some (.done none, S)
  | .adding (key :: keys) =>
    -- an empty key is passed over
    if isEmpty key then some (.adding keys, S)
    else
      some (.waiting (key.getD "") keys,
        service.addTorrent S (key.getD "") request.savePath accepted)
  | .waiting key _ => if service.hasMetadata S key then some (.done (some key), S) else none
  | .done _ => none

/-- A wait is over; the metadata may have come behind its last look. -/
def timeOut (service : MetadataService σ) (S : σ) : TorrentLoader → Option (TorrentLoader × σ)
  | .waiting key keys => some (.adding keys, service.removeTorrent S key)
  | .begin | .adding _ | .done _ => none

/-- The key that `advance` adds. -/
def nextKey : TorrentLoader → Option String
  | .adding (key :: _) => if isEmpty key then none else key
  | .begin | .adding [] | .waiting _ _ | .done _ => none

/-- The key that is waited for. -/
def waitsFor : TorrentLoader → Option String
  | .waiting key _ => some key
  | .begin | .adding _ | .done _ => none

variable {service : MetadataService σ} {request : Request} {S S' : σ} {l l' : TorrentLoader}

/-- The session behind a step: the next key is added, or there is none. -/
theorem advance_session {accepted : Option Bool}
    (h : l.advance service request accepted S = some (l', S')) :
    S' = match l.nextKey with
      | some key => service.addTorrent S key request.savePath accepted
      | none => S := by
  cases l with
  | begin =>
    simp only [advance] at h
    split_ifs at h <;> exact (congrArg Prod.snd (Option.some.inj h)).symm
  -- the one state from which the session is called
  | adding keys =>
    cases keys with
    | nil => exact (congrArg Prod.snd (Option.some.inj h)).symm
    | cons key keys =>
      rw [advance] at h
      split_ifs at h with hempty
      · rw [nextKey, if_pos hempty]
        exact (congrArg Prod.snd (Option.some.inj h)).symm
      · rw [nextKey, if_neg hempty]
        cases key with
        | none => exact absurd rfl hempty
        | some key => exact (congrArg Prod.snd (Option.some.inj h)).symm
  | waiting key keys =>
    rw [advance] at h
    split_ifs at h
    exact (congrArg Prod.snd (Option.some.inj h)).symm
  | done key => cases h

/-- Only a wait can be over, and its key is removed. -/
theorem timeOut_eq (h : l.timeOut service S = some (l', S')) :
    ∃ key, l.waitsFor = some key ∧ S' = service.removeTorrent S key := by
  cases l with
  | waiting key keys => exact ⟨key, rfl, (congrArg Prod.snd (Option.some.inj h)).symm⟩
  | begin | adding | done => cases h

end TorrentLoader

end PopcornTime.Android
