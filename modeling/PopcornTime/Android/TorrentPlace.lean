import PopcornTime.Android.TorrentAdding

namespace PopcornTime.Android

open PopcornTime TorrentUtil

/-!
# Android torrents — the directory of a torrent

A torrent is saved where it was added last.  `addTorrent` of the service ignores a key that it has,
and `TorrentUtil.addTorrent` does not add a torrent that is there with its metadata, so either may
answer with a torrent that lies elsewhere.

* `StoredSession.savedIn_addTorrent` — what adding a torrent makes of the directory of another key;
  no other call moves one.
* `TorrentLoader.savedIn_advance` — the torrent of the key that is loaded lies in the directory
  asked for exactly if that of the key it takes does.
-/

/-! ### Where a torrent is saved -/

/-- Adding a key makes no other key valid: a new handle is not one of the old. -/
theorem Handles.Valid.of_add {hash : String → String} {H H' : Handles} {key k : String}
    (h : H'.Valid hash k) (hok : H.Ok) (hadd : H.Add hash key H') (hne : k ≠ key) :
    H.Valid hash k := by
  obtain ⟨handle, htorrents, hlive⟩ := h
  cases hadd with
  | refused => exact ⟨handle, htorrents, hlive⟩
  | joined handle' _ _ =>
    dsimp only at htorrents
    rw [Function.update_of_ne hne] at htorrents
    exact ⟨handle, htorrents, hlive⟩
  | fresh _ _ =>
    dsimp only at htorrents hlive
    rw [Function.update_of_ne hne] at htorrents
    have hhash : hash k ≠ hash key := fun heq => by
      rw [heq, Function.update_self, Option.some.injEq] at hlive
      exact absurd (hok.torrents_lt k handle htorrents) (by rw [hlive]; exact Nat.lt_irrefl _)
    rw [Function.update_of_ne hhash] at hlive
    exact ⟨handle, htorrents, hlive⟩

namespace StoredSession

variable {hash : String → String} {S : StoredSession} {key k directory savePath : String}
  {accepted : Option Bool}

/-- The torrent of a key, if there is one, is saved in a directory. -/
def SavedIn (hash : String → String) (S : StoredSession) (key directory : String) : Prop :=
  ∀ t, S.torrentOf hash key = some t → t.savePath = directory

instance : Decidable (S.SavedIn hash key directory) :=
  decidable_of_iff ((S.torrentOf hash key).all fun t => decide (t.savePath = directory)) <| by
    simp [SavedIn, Option.all_eq_true]

theorem savedIn_of_torrentOf_eq_none (h : S.torrentOf hash k = none) : S.SavedIn hash k directory :=
  fun t ht => by
    rw [h] at ht
    cases ht

/-- A call that is made to the session of a key for the torrent of `k`. -/
def AddReaches (hash : String → String) (S : StoredSession) (key : String) (accepted : Option Bool)
    (k : String) : Prop :=
  S.adds key accepted = true ∧ hash k = hash key ∧ (k = key ∨ (S.torrentOf hash k).isSome = true)

/-- A torrent that is reached is moved. -/
theorem torrentOf_addTorrent_of_reaches (savePath : String) (h : S.AddReaches hash key accepted k) :
    ∃ t, (S.addTorrent hash key savePath accepted).torrentOf hash k = some t ∧
      t.savePath = savePath := by
  obtain ⟨hadds, hhash, hk⟩ := h
  unfold adds at hadds
  rw [Bool.and_eq_true, Option.isNone_iff_eq_none, Option.isSome_iff_exists] at hadds
  obtain ⟨hnone, hasMetadata, rfl⟩ := hadds
  rcases hk with rfl | hsome
  -- the key itself gets the handle of the torrent there is, or of a new one
  · cases hlive : S.live (hash k) with
    | some t =>
      refine ⟨{ t with savePath := savePath, paused := false }, torrentOf_eq_some.mpr ?_, rfl⟩
      simp only [addTorrent, hnone, hlive, Function.update_self, and_self]
    | none =>
      refine ⟨⟨S.nextHandle, hasMetadata, savePath, false⟩, torrentOf_eq_some.mpr ?_, rfl⟩
      simp only [addTorrent, hnone, hlive, Function.update_self, and_self]
  -- another key of the torrent keeps its handle
  · obtain ⟨t, ht⟩ := Option.isSome_iff_exists.mp hsome
    obtain ⟨htorrents, hlive⟩ := torrentOf_eq_some.mp ht
    have hne : k ≠ key := by
      rintro rfl
      rw [hnone] at htorrents
      cases htorrents
    refine ⟨{ t with savePath := savePath, paused := false }, torrentOf_eq_some.mpr ?_, rfl⟩
    rw [torrents_addTorrent_of_ne hne]
    refine ⟨htorrents, ?_⟩
    rw [hhash] at hlive ⊢
    simp only [addTorrent, hnone, hlive, Function.update_self]

/-- A torrent that is not reached stays as it is: a key whose torrent is gone does not get a new
    one. -/
theorem torrentOf_addTorrent_of_not_reaches (savePath : String) (hok : S.handles.Ok)
    (h : ¬S.AddReaches hash key accepted k) :
    (S.addTorrent hash key savePath accepted).torrentOf hash k = S.torrentOf hash k := by
  cases hadds : S.adds key accepted with
  | false => rw [addTorrent_of_not_adds hadds]
  | true =>
    by_cases hhash : hash k = hash key
    · have hk : ¬(k = key ∨ (S.torrentOf hash k).isSome = true) := fun hk => h ⟨hadds, hhash, hk⟩
      obtain ⟨hne, hnone⟩ := not_or.mp hk
      rw [Option.not_isSome_iff_eq_none] at hnone
      rw [hnone, torrentOf_eq_none]
      rw [torrentOf_eq_none] at hnone
      exact fun hvalid => hnone (hvalid.of_add hok handles_addTorrent hne)
    · exact torrentOf_congr (torrents_addTorrent_of_ne fun heq => hhash (by rw [heq]))
        (live_addTorrent_of_ne hhash)

/-- **Adding a torrent** moves it if it is reached. -/
theorem savedIn_addTorrent (hok : S.handles.Ok) :
    (S.addTorrent hash key savePath accepted).SavedIn hash k directory ↔
      (S.AddReaches hash key accepted k → savePath = directory) ∧
        (¬S.AddReaches hash key accepted k → S.SavedIn hash k directory) := by
  by_cases hreach : S.AddReaches hash key accepted k
  · obtain ⟨t, ht, hpath⟩ := torrentOf_addTorrent_of_reaches savePath hreach
    unfold SavedIn
    rw [ht]
    simp [hreach, hpath]
  · have hsame := torrentOf_addTorrent_of_not_reaches savePath hok hreach
    unfold SavedIn
    rw [hsame]
    simp [hreach]

/-- A key that is added to a directory lies there, if its torrent did so before. -/
theorem savedIn_addTorrent_self (hok : S.handles.Ok) :
    (S.addTorrent hash key directory accepted).SavedIn hash key directory ↔
      S.SavedIn hash key directory := by
  rw [savedIn_addTorrent hok]
  refine ⟨fun h => ?_, fun h => ⟨fun _ => rfl, fun _ => h⟩⟩
  by_cases hreach : S.AddReaches hash key accepted key
  · -- the key was new, so it had no torrent
    have hadds := hreach.1
    unfold adds at hadds
    rw [Bool.and_eq_true, Option.isNone_iff_eq_none] at hadds
    refine savedIn_of_torrentOf_eq_none ?_
    rw [torrentOf, hadds.1]
  · exact h.2 hreach

theorem torrentOf_removeTorrent {t : StoredTorrent}
    (h : (S.removeTorrent hash key).torrentOf hash k = some t) : S.torrentOf hash k = some t := by
  obtain ⟨htorrents, hlive⟩ := torrentOf_eq_some.mp h
  refine torrentOf_eq_some.mpr ⟨?_, ?_⟩
  · unfold removeTorrent at htorrents
    dsimp only at htorrents
    rw [Function.update_apply] at htorrents
    split_ifs at htorrents
    exact htorrents
  · unfold removeTorrent at hlive
    dsimp only at hlive
    split_ifs at hlive
    · rw [Function.update_apply] at hlive
      split_ifs at hlive
      exact hlive
    · exact hlive

theorem savedIn_removeTorrent (h : S.SavedIn hash k directory) :
    (S.removeTorrent hash key).SavedIn hash k directory :=
  fun t ht => h t (torrentOf_removeTorrent ht)

/-- A call to a handle moves nothing unless it says so. -/
theorem savedIn_modify {f : StoredTorrent → StoredTorrent} (hf : ∀ t, (f t).handle = t.handle)
    (hpath : ∀ t, (f t).savePath = t.savePath) (h : S.SavedIn hash k directory) :
    (S.modify hash key f).SavedIn hash k directory := by
  intro t ht
  rw [torrentOf_modify hf] at ht
  split_ifs at ht
  · obtain ⟨t', ht', rfl⟩ := Option.map_eq_some_iff.mp ht
    rw [hpath]
    exact h t' ht'
  · exact h t ht

theorem savedIn_loadMetadata {infoHash : String} (h : S.SavedIn hash k directory) :
    (S.loadMetadata infoHash).SavedIn hash k directory := by
  intro t ht
  obtain ⟨htorrents, hlive⟩ := torrentOf_eq_some.mp ht
  unfold loadMetadata at htorrents hlive
  dsimp only at htorrents hlive
  rw [Function.update_apply] at hlive
  split_ifs at hlive with hhash
  · obtain ⟨t', ht', rfl⟩ := Option.map_eq_some_iff.mp hlive
    rw [← hhash] at ht'
    exact h t' (torrentOf_eq_some.mpr ⟨htorrents, ht'⟩)
  · exact h t (torrentOf_eq_some.mpr ⟨htorrents, hlive⟩)

theorem handles_modify {f : StoredTorrent → StoredTorrent} (hf : ∀ t, (f t).handle = t.handle) :
    (S.modify hash key f).handles = S.handles := by
  unfold modify
  cases ht : S.torrentOf hash key with
  | none => rfl
  | some t =>
    have hhandle : S.handles.live (hash key) = some t.handle :=
      congrArg (Option.map StoredTorrent.handle) (torrentOf_eq_some.mp ht).2
    have hsame : Function.update S.handles.live (hash key) (some t.handle) = S.handles.live := by
      rw [← hhandle]
      exact Function.update_eq_self ..
    simp only [handles, map_update, Option.map_some, hf, Handles.mk.injEq, and_true, true_and]
    exact hsame

theorem handles_ok_modify {f : StoredTorrent → StoredTorrent} (hf : ∀ t, (f t).handle = t.handle)
    (h : S.handles.Ok) : (S.modify hash key f).handles.Ok := by
  rw [handles_modify hf]
  exact h

end StoredSession

/-! ### The key that is loaded -/

namespace TorrentLoader

variable {hash : String → String} {request : Request} {S S' : StoredSession}
  {l l' : TorrentLoader}

/-- The key that is found available, or is about to be added. -/
def takes (hash : String → String) (request : Request) (S : StoredSession) :
    TorrentLoader → Option String
  | .begin =>
    if request.savePath = "" then none
    else (getAvailableTorrentFile (S.hasMetadata hash) request.file request.url
      request.magnet).filter fun key => !isEmpty (some key)
  | l => l.nextKey

theorem filter_isEmpty (key : Option String) :
    key.filter (fun key => !isEmpty (some key)) = if isEmpty key then none else key := by
  cases key with
  | none => rfl
  | some key => cases h : isEmpty (some key) <;> simp [Option.filter, h]

/-- The key of the loader behind a step lies in the directory exactly if the key it takes does. -/
theorem savedIn_advance (hok : S.handles.Ok) {accepted : Option Bool}
    (hcurrent : ∀ key, l.current = some key → S.SavedIn hash key request.savePath)
    (h : l.advance (StoredSession.service hash) request accepted S = some (l', S')) :
    (∀ key, l'.current = some key → S'.SavedIn hash key request.savePath) ↔
      ∀ key, l.takes hash request S = some key → S.SavedIn hash key request.savePath := by
  cases l with
  | begin =>
    unfold advance at h
    unfold takes
    dsimp only at h
    rw [StoredSession.service_hasMetadata] at h
    rw [filter_isEmpty]
    split_ifs at h ⊢ <;> obtain ⟨rfl, rfl⟩ := Prod.mk.inj (Option.some.inj h) <;> simp [current]
  | adding keys =>
    cases keys with
    | nil =>
      obtain ⟨rfl, rfl⟩ := Prod.mk.inj (Option.some.inj h)
      simp [current, takes, nextKey]
    | cons key keys =>
      rw [advance] at h
      rw [takes, nextKey]
      · by_cases hempty : isEmpty key = true
        · rw [if_pos hempty] at h ⊢
          obtain ⟨rfl, rfl⟩ := Prod.mk.inj (Option.some.inj h)
          simp [current]
        · rw [if_neg hempty] at h ⊢
          obtain ⟨rfl, rfl⟩ := Prod.mk.inj (Option.some.inj h)
          cases key with
          | none => exact absurd rfl hempty
          | some key =>
            simp only [current, Option.some.injEq, forall_eq', Option.getD_some]
            -- the key that is added next: its files go to the path of this request
            exact StoredSession.savedIn_addTorrent_self hok
      · simp
  | waiting key keys =>
    rw [advance] at h
    split_ifs at h
    obtain ⟨rfl, rfl⟩ := Prod.mk.inj (Option.some.inj h)
    simp only [takes, nextKey, reduceCtorEq, false_imp_iff, implies_true, iff_true]
    exact hcurrent
  | done key => cases h

end TorrentLoader

/-! ### Calls of the service -/

/-- A call of the service by another thread, or metadata that arrives. -/
inductive ServiceCall
  | addTorrent (key savePath : String) (accepted : Option Bool)
  | removeTorrent (key : String)
  | pauseTorrent (key : String)
  | resumeTorrent (key : String)
  | loadMetadata (infoHash : String)
deriving DecidableEq

def StoredSession.serve (hash : String → String) (S : StoredSession) : ServiceCall → StoredSession
  | .addTorrent key savePath accepted => S.addTorrent hash key savePath accepted
  | .removeTorrent key => S.removeTorrent hash key
  | .pauseTorrent key => S.pauseTorrent hash key
  | .resumeTorrent key => S.resumeTorrent hash key
  | .loadMetadata infoHash => S.loadMetadata infoHash

namespace StoredSession

variable {hash : String → String} {S : StoredSession}

theorem handles_ok_serve (h : S.handles.Ok) (c : ServiceCall) : (S.serve hash c).handles.Ok := by
  cases c with
  | addTorrent key savePath accepted => exact h.add handles_addTorrent
  | removeTorrent key =>
    show (S.removeTorrent hash key).handles.Ok
    rw [handles_removeTorrent]
    exact h.remove
  | pauseTorrent key | resumeTorrent key => exact handles_ok_modify (fun _ => rfl) h
  | loadMetadata infoHash =>
    show (S.loadMetadata infoHash).handles.Ok
    rw [handles_loadMetadata]
    exact h

end StoredSession

end PopcornTime.Android
