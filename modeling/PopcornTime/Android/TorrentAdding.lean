import PopcornTime.Android.StoredTorrents
import PopcornTime.Lib.Machine

namespace PopcornTime.Android

open PopcornTime TorrentUtil

/-!
# Android torrents — adding one, or nothing

`TorrentUtil.addTorrent` tries up to three keys.  It adds a key, waits for the metadata, and removes
the key where the time is up or the wait is interrupted.  In between libtorrent receives metadata.

* `AddCall.Atomic` — in the end the service has what it had, and at most the key that is returned.
* `AddCall.Guard` — a key that is given up was not there before the call, nor its torrent.
* `AddCall.atomic_of_guard` — a run that ends is right exactly if all its steps meet the guard.
-/

/-- The info-hash that a key names, and the arguments of the call. -/
structure AddSetup where
  hash : String → String
  request : TorrentLoader.Request

/-- A call of `addTorrent`, with the session as it was before it. -/
structure AddCall where
  before : StoredSession
  session : StoredSession
  loader : TorrentLoader
  /-- It has thrown `InterruptedException`. -/
  interrupted : Bool

inductive AddCallEvent
  /-- The call goes on; a key that it adds is refused, or taken with or without metadata. -/
  | advance (accepted : Option Bool)
  | timeOut
  | interrupt
  /-- Metadata arrives. -/
  | metadata (infoHash : String)
deriving DecidableEq

/-- A session by its handles: those of the keys, and those of the torrents there are. -/
structure Handles where
  torrents : String → Option ℕ
  live : String → Option ℕ
  nextHandle : ℕ

def StoredSession.handles (S : StoredSession) : Handles where
  torrents := S.torrents
  live := fun infoHash => (S.live infoHash).map StoredTorrent.handle
  nextHandle := S.nextHandle

/-- The handles have been given out one after the other. -/
structure Handles.Ok (H : Handles) : Prop where
  torrents_lt : ∀ key handle, H.torrents key = some handle → handle < H.nextHandle
  live_lt : ∀ infoHash handle, H.live infoHash = some handle → handle < H.nextHandle

namespace AddCall

def next (E : AddSetup) (s : AddCall) : AddCallEvent → Option AddCall
  | .advance accepted =>
    if s.interrupted then none
    else
      (s.loader.advance (StoredSession.service E.hash) E.request accepted s.session).map fun r =>
        { s with loader := r.1, session := r.2 }
  | .timeOut =>
    if s.interrupted then none
    else
      (s.loader.timeOut (StoredSession.service E.hash) s.session).map fun r =>
        { s with loader := r.1, session := r.2 }
  | .interrupt =>
    if s.interrupted then none
    else s.loader.waitsFor.map fun key =>
      { s with session := s.session.removeTorrent E.hash key, interrupted := true }
  | .metadata infoHash => some { s with session := s.session.loadMetadata infoHash }

/-- The call is made on any session. -/
structure Starts (s : AddCall) : Prop where
  ok : s.session.handles.Ok
  before : s.before = s.session
  loader : s.loader = .begin
  interrupted : s.interrupted = false

def machine (E : AddSetup) : Machine AddCall AddCallEvent :=
  Machine.ofFun Starts (next E)

/-- The key that is returned. -/
def returned (s : AddCall) : Option String :=
  if s.interrupted then none
  else match s.loader with
    | .done key => key
    | _ => none

def Ended (s : AddCall) : Prop :=
  s.interrupted = true ∨ ∃ key, s.loader = .done key

/-- **All or nothing**: a key is returned with its metadata, all torrents that were there are there
    still, and no key has come but the one that is returned. -/
structure Atomic (E : AddSetup) (s : AddCall) : Prop where
  metadata : ∀ key, s.returned = some key → s.session.hasMetadata E.hash key = true
  kept : ∀ key handle, s.before.torrents key = some handle →
    s.session.torrents key = some handle ∧
      ((s.before.torrentOf E.hash key).isSome → (s.session.torrentOf E.hash key).isSome)
  added : ∀ key, s.before.torrents key = none → s.session.torrents key ≠ none →
    s.returned = some key

/-- The key that a step gives up. -/
def givesUp (s : AddCall) : AddCallEvent → Option String
  | .timeOut | .interrupt => s.loader.waitsFor
  | .advance _ | .metadata _ => none

/-- A key that is given up was not there before the call, nor was its torrent under another key;
    unless the service has refused it. -/
def Guard (E : AddSetup) (s : AddCall) (e : AddCallEvent) : Prop :=
  ∀ key, s.givesUp e = some key → s.session.torrents key ≠ none →
    s.before.torrents key = none ∧
      ∀ k, E.hash k = E.hash key → s.before.torrentOf E.hash k = none

end AddCall

/-! ### The handles -/

namespace Handles

variable {hash : String → String} {H H' : Handles} {key k : String} {handle : ℕ}

/-- A key has the handle of a torrent there is. -/
def Valid (hash : String → String) (H : Handles) (k : String) : Prop :=
  ∃ handle, H.torrents k = some handle ∧ H.live (hash k) = some handle

instance (hash : String → String) (H : Handles) (k : String) : Decidable (H.Valid hash k) :=
  decidable_of_iff (H.torrents k ≠ none ∧ H.torrents k = H.live (hash k)) <| by
    unfold Valid
    cases H.torrents k with
    | none => simp
    | some handle => simp [eq_comm]

/-- What adding a key does: nothing, or the key gets the handle of its torrent or a new one. -/
inductive Add (hash : String → String) (key : String) (H : Handles) : Handles → Prop
  | refused : Add hash key H H
  | joined (handle : ℕ) : H.torrents key = none → H.live (hash key) = some handle →
      Add hash key H { H with torrents := Function.update H.torrents key (some handle) }
  | fresh : H.torrents key = none → H.live (hash key) = none →
      Add hash key H
        { torrents := Function.update H.torrents key (some H.nextHandle)
          live := Function.update H.live (hash key) (some H.nextHandle)
          nextHandle := H.nextHandle + 1 }

/-- What removing a key does. -/
def remove (hash : String → String) (H : Handles) (key : String) : Handles :=
  { H with
    torrents := Function.update H.torrents key none
    live := if H.Valid hash key then Function.update H.live (hash key) none else H.live }

/-- A key without a handle removes nothing. -/
theorem remove_of_none (h : H.torrents key = none) : H.remove hash key = H := by
  have hnot : ¬H.Valid hash key := by
    rintro ⟨handle, hhandle, -⟩
    exact absurd (h.symm.trans hhandle) nofun
  unfold remove
  rw [if_neg hnot, ← h, Function.update_eq_self]

/-- The handles stay below the next one when a key is added. -/
theorem Ok.add (h : H.Ok) (hadd : Add hash key H H') : H'.Ok := by
  cases hadd with
  | refused => exact h
  | joined handle hnone hlive =>
    refine ⟨fun k handle' hk => ?_, h.live_lt⟩
    dsimp only at hk
    rw [Function.update_apply] at hk
    split_ifs at hk
    · obtain rfl := Option.some.inj hk
      exact h.live_lt _ _ hlive
    · exact h.torrents_lt k handle' hk
  | fresh hnone hlive =>
    refine ⟨fun k handle' hk => ?_, fun x handle' hx => ?_⟩
    · dsimp only at hk
      rw [Function.update_apply] at hk
      split_ifs at hk
      · obtain rfl := Option.some.inj hk
        exact Nat.lt_succ_self _
      · exact Nat.lt_succ_of_lt (h.torrents_lt k handle' hk)
    · dsimp only at hx
      rw [Function.update_apply] at hx
      split_ifs at hx
      · obtain rfl := Option.some.inj hx
        exact Nat.lt_succ_self _
      · exact Nat.lt_succ_of_lt (h.live_lt x handle' hx)

/-- A removal makes no torrent: those that are there had their handle before. -/
theorem live_remove {infoHash : String} (h : (H.remove hash key).live infoHash = some handle) :
    H.live infoHash = some handle := by
  unfold remove at h
  dsimp only at h
  split_ifs at h
  · rw [Function.update_apply] at h
    split_ifs at h
    exact h
  · exact h

/-- Nor does it give a key a handle. -/
theorem torrents_remove (h : (H.remove hash key).torrents k = some handle) :
    H.torrents k = some handle := by
  unfold remove at h
  dsimp only at h
  rw [Function.update_apply] at h
  split_ifs at h
  exact h

/-- The handles stay below the next one when a key is removed. -/
theorem Ok.remove (h : H.Ok) : (H.remove hash key).Ok where
  torrents_lt k handle hk := h.torrents_lt k handle (torrents_remove hk)
  live_lt x handle hx := h.live_lt x handle (live_remove hx)

/-- What a call leaves of the keys there were: all of it, but perhaps one key that is new. -/
def Near (hash : String → String) (B H : Handles) (but : Option String) : Prop :=
  ∀ k, some k ≠ but ∨ B.torrents k ≠ none →
    H.torrents k = B.torrents k ∧ (H.Valid hash k ↔ B.Valid hash k)

variable {B : Handles} {but : Option String}

/-- Where all keys are as they were, all but one are. -/
theorem Near.mono (h : Near hash B H none) : Near hash B H but :=
  fun k _ => h k (Or.inl nofun)

/-- A key that is added comes as it is, or with a torrent. -/
theorem Near.add (hok : H.Ok) (h : Near hash B H none) (hadd : Add hash key H H') :
    Near hash B H' (some key) ∧
      (B.torrents key = none → H'.torrents key ≠ none → H'.Valid hash key) := by
  have hkey := (h key (Or.inl nofun)).1
  cases hadd with
  | refused => exact ⟨h.mono, fun hnone hsome => absurd (hkey.trans hnone) hsome⟩
  | joined handle hnone hlive =>
    refine ⟨fun k hk => ?_, fun _ _ => ⟨handle, Function.update_self .., hlive⟩⟩
    have hne : k ≠ key := by
      rintro rfl
      rcases hk with hk | hk
      · exact hk rfl
      · exact hk (hkey.symm.trans hnone)
    have hsame : Function.update H.torrents key (some handle) k = H.torrents k :=
      Function.update_of_ne hne ..
    unfold Valid
    dsimp only
    rw [hsame]
    exact h k (Or.inl nofun)
  | fresh hnone hlive =>
    refine ⟨fun k hk => ?_, fun _ _ =>
      ⟨H.nextHandle, Function.update_self .., Function.update_self ..⟩⟩
    have hne : k ≠ key := by
      rintro rfl
      rcases hk with hk | hk
      · exact hk rfl
      · exact hk (hkey.symm.trans hnone)
    have hsame : Function.update H.torrents key (some H.nextHandle) k = H.torrents k :=
      Function.update_of_ne hne ..
    obtain ⟨htorrents, hvalid⟩ := h k (Or.inl nofun)
    refine ⟨hsame.trans htorrents, ?_⟩
    rw [← hvalid]
    unfold Valid
    dsimp only
    rw [hsame]
    by_cases hhash : hash k = hash key
    · -- an old handle is not the new one
      rw [hhash, hlive, Function.update_self]
      refine iff_of_false ?_ (by simp)
      rintro ⟨handle, hk, hnew⟩
      obtain rfl := Option.some.inj hnew
      exact absurd (hok.torrents_lt k _ hk) (Nat.lt_irrefl _)
    · rw [Function.update_of_ne hhash]

/-- A new key that is removed leaves what there was, if its torrent had no other key. -/
theorem Near.remove (h : Near hash B H (some key)) (hnew : H.torrents key ≠ none →
      B.torrents key = none ∧ ∀ k, hash k = hash key → ¬B.Valid hash k) :
    Near hash B (H.remove hash key) none := by
  by_cases hnone : H.torrents key = none
  · rw [remove_of_none hnone]
    intro k _
    by_cases hk : k = key
    · subst hk
      by_cases hB : B.torrents k = none
      · refine ⟨hnone.trans hB.symm, iff_of_false ?_ ?_⟩
        · rintro ⟨handle, hhandle, -⟩
          exact absurd (hnone.symm.trans hhandle) nofun
        · rintro ⟨handle, hhandle, -⟩
          exact absurd (hB.symm.trans hhandle) nofun
      · exact h k (Or.inr hB)
    · exact h k (Or.inl fun heq => hk (Option.some.inj heq))
  · obtain ⟨hB, hunused⟩ := hnew hnone
    intro k _
    by_cases hk : k = key
    · subst hk
      refine ⟨(Function.update_self ..).trans hB.symm, iff_of_false ?_ (hunused k rfl)⟩
      rintro ⟨handle, hhandle, -⟩
      exact absurd ((Function.update_self ..).symm.trans hhandle) nofun
    · obtain ⟨htorrents, hvalid⟩ := h k (Or.inl fun heq => hk (Option.some.inj heq))
      have hsame : (H.remove hash key).torrents k = H.torrents k := Function.update_of_ne hk ..
      refine ⟨hsame.trans htorrents, ?_⟩
      rw [← hvalid]
      unfold Valid
      rw [hsame]
      by_cases hhash : hash k = hash key
      · -- no key of this torrent was valid
        have hinvalid : ¬H.Valid hash k := fun hk' => hunused k hhash (hvalid.mp hk')
        refine iff_of_false ?_ hinvalid
        rintro ⟨handle, hhandle, hlive⟩
        exact hinvalid ⟨handle, hhandle, live_remove hlive⟩
      · have hlive : (H.remove hash key).live (hash k) = H.live (hash k) := by
          unfold Handles.remove
          dsimp only
          split_ifs
          · exact Function.update_of_ne hhash ..
          · rfl
        rw [hlive]

/-- A key there was is gone, or its torrent is, and its handle does not come back. -/
structure Lost (hash : String → String) (B H : Handles) (k : String) (handle : ℕ) : Prop where
  before : B.torrents k = some handle
  old : handle < H.nextHandle
  dead : H.live (hash k) ≠ some handle
  missed : B.Valid hash k ∨ H.torrents k ≠ some handle

/-- What is lost stays lost behind an add: a torrent is joined at its own handle, and a new one gets
    a new handle. -/
theorem Lost.add (h : Lost hash B H k handle) (hadd : Add hash key H H') :
    Lost hash B H' k handle := by
  cases hadd with
  | refused => exact h
  | joined handle' hnone hlive =>
    refine ⟨h.before, h.old, h.dead, h.missed.imp_right fun hk => ?_⟩
    dsimp only
    rw [Function.update_apply]
    split_ifs with heq
    · subst heq
      rw [← hlive]
      exact h.dead
    · exact hk
  | fresh hnone hlive =>
    -- a new handle takes the next number, so the lost one does not come back
    have hne : some H.nextHandle ≠ some handle := fun heq =>
      absurd h.old (by rw [Option.some.inj heq]; exact Nat.lt_irrefl _)
    refine ⟨h.before, Nat.lt_succ_of_lt h.old, ?_, h.missed.imp_right fun hk => ?_⟩
    · dsimp only
      rw [Function.update_apply]
      split_ifs
      · exact hne
      · exact h.dead
    · dsimp only
      rw [Function.update_apply]
      split_ifs
      · exact hne
      · exact hk

/-- Nor does a removal bring it back. -/
theorem Lost.remove (h : Lost hash B H k handle) : Lost hash B (H.remove hash key) k handle where
  before := h.before
  old := h.old
  dead := fun hlive => h.dead (live_remove hlive)
  missed := h.missed.imp_right fun hk hk' => hk (torrents_remove hk')

/-- A key that was there before, or whose torrent was, is missed once it is given up. -/
theorem Near.lost (hok : H.Ok) (h : Near hash B H (some key))
    (hvalid : B.torrents key = none → H.torrents key ≠ none → H.Valid hash key)
    (hsome : H.torrents key ≠ none)
    (hnot : ¬(B.torrents key = none ∧ ∀ k, hash k = hash key → ¬B.Valid hash k)) :
    ∃ k handle, Lost hash B (H.remove hash key) k handle := by
  cases hB : B.torrents key with
  | some handle =>
    have hkey := (h key (Or.inr (by rw [hB]; exact nofun))).1.trans hB
    refine ⟨key, handle, hB, hok.torrents_lt key handle hkey, fun hlive => ?_, Or.inr fun hk => ?_⟩
    · have hvalid' : H.Valid hash key := ⟨handle, hkey, live_remove hlive⟩
      unfold Handles.remove at hlive
      rw [if_pos hvalid'] at hlive
      exact absurd ((Function.update_self ..).symm.trans hlive) nofun
    · exact absurd ((Function.update_self ..).symm.trans hk) nofun
  | none =>
    rw [not_and] at hnot
    have hused := hnot hB
    push Not at hused
    obtain ⟨k, hhash, handle, hk, hlive⟩ := hused
    -- the torrent goes with the new key, whose handle is the same
    have hne : some k ≠ some key := by
      rintro ⟨⟩
      exact absurd (hB.symm.trans hk) nofun
    have hHk := (h k (Or.inl hne)).1.trans hk
    refine ⟨k, handle, hk, hok.torrents_lt k handle hHk, fun hlive' => ?_,
      Or.inl ⟨handle, hk, hlive⟩⟩
    unfold Handles.remove at hlive'
    rw [if_pos (hvalid hB hsome), hhash] at hlive'
    exact absurd ((Function.update_self ..).symm.trans hlive') nofun

end Handles

/-! ### The calls of the session -/

namespace StoredSession

variable {hash : String → String} {S : StoredSession} {key k savePath infoHash : String}
  {accepted : Option Bool}

/-- A key has a torrent exactly if its handle is that of a torrent there is. -/
theorem isSome_torrentOf : (S.torrentOf hash k).isSome ↔ S.handles.Valid hash k := by
  rw [Option.isSome_iff_exists]
  refine ⟨?_, ?_⟩
  · rintro ⟨t, ht⟩
    obtain ⟨htorrents, hlive⟩ := torrentOf_eq_some.mp ht
    exact ⟨t.handle, htorrents, congrArg (Option.map StoredTorrent.handle) hlive⟩
  · rintro ⟨handle, htorrents, hlive⟩
    obtain ⟨t, ht, rfl⟩ := Option.map_eq_some_iff.mp hlive
    exact ⟨t, torrentOf_eq_some.mpr ⟨htorrents, ht⟩⟩

theorem torrentOf_eq_none : S.torrentOf hash k = none ↔ ¬S.handles.Valid hash k := by
  rw [← isSome_torrentOf, Option.not_isSome_iff_eq_none]

/-- The handles of the torrents there are, with one changed. -/
theorem map_update (live : String → Option StoredTorrent) (t : Option StoredTorrent) :
    (fun x => (Function.update live infoHash t x).map StoredTorrent.handle) =
      Function.update (fun x => (live x).map StoredTorrent.handle) infoHash
        (t.map StoredTorrent.handle) := by
  funext x
  rw [Function.update_apply, Function.update_apply]
  split_ifs
  · rfl
  · rfl

/-- What `addTorrent` does to the handles is to add the key. -/
theorem handles_addTorrent :
    S.handles.Add hash key (S.addTorrent hash key savePath accepted).handles := by
  cases hnone : S.torrents key with
  | some handle =>
    rw [addTorrent_of_not_adds (by rw [adds, hnone]; rfl)]
    exact .refused
  | none =>
    cases accepted with
    | none =>
      rw [addTorrent_of_not_adds (by rw [adds, Option.isSome_none, Bool.and_false])]
      exact .refused
    | some hasMetadata =>
      cases hlive : S.live (hash key) with
      | some t =>
        have hhandle : S.handles.live (hash key) = some t.handle :=
          congrArg (Option.map StoredTorrent.handle) hlive
        -- the torrent keeps its handle
        have heq : (S.addTorrent hash key savePath (some hasMetadata)).handles =
            { S.handles with
              torrents := Function.update S.handles.torrents key (some t.handle) } := by
          simp only [addTorrent, hnone, hlive, handles, map_update, Option.map_some,
            Handles.mk.injEq, and_true, true_and]
          rw [← hhandle]
          exact Function.update_eq_self ..
        rw [heq]
        exact .joined t.handle hnone hhandle
      | none =>
        have hhandle : S.handles.live (hash key) = none :=
          congrArg (Option.map StoredTorrent.handle) hlive
        simp only [addTorrent, hnone, hlive, handles, map_update, Option.map_some]
        exact .fresh hnone hhandle

/-- What `removeTorrent` does to them is to remove it. -/
theorem handles_removeTorrent :
    (S.removeTorrent hash key).handles = S.handles.remove hash key := by
  by_cases hvalid : S.handles.Valid hash key
  · rw [removeTorrent, if_pos (isSome_torrentOf.mpr hvalid), Handles.remove, if_pos hvalid]
    simp only [handles, map_update, Option.map_none]
  · rw [removeTorrent, if_neg (isSome_torrentOf.not.mpr hvalid), Handles.remove, if_neg hvalid]
    rfl

/-- Metadata changes no handle, and is not lost. -/
theorem handles_loadMetadata : (S.loadMetadata infoHash).handles = S.handles := by
  have hmap : ((S.live infoHash).map fun t => { t with hasMetadata := true }).map
      StoredTorrent.handle = (S.live infoHash).map StoredTorrent.handle := by
    rw [Option.map_map]
    rfl
  simp only [loadMetadata, handles, map_update, hmap, Function.update_eq_self]

/-- Metadata that arrive take none away. -/
theorem hasMetadata_loadMetadata (h : S.hasMetadata hash k = true) :
    (S.loadMetadata infoHash).hasMetadata hash k = true := by
  unfold hasMetadata at h ⊢
  rw [Option.any_eq_true] at h ⊢
  obtain ⟨t, ht, hmeta⟩ := h
  obtain ⟨htorrents, hlive⟩ := torrentOf_eq_some.mp ht
  by_cases hk : hash k = infoHash
  · refine ⟨{ t with hasMetadata := true }, torrentOf_eq_some.mpr ⟨htorrents, ?_⟩, rfl⟩
    rw [hk] at hlive ⊢
    simp only [loadMetadata, Function.update_self, hlive, Option.map_some]
  · refine ⟨t, torrentOf_eq_some.mpr ⟨htorrents, ?_⟩, hmeta⟩
    simp only [loadMetadata, Function.update_of_ne hk, hlive]

end StoredSession

/-! ### A call step by step -/

/-- What it does when it goes on: it adds a key and waits for it, or it goes on without a call to
    the session, or it has found a key with metadata. -/
theorem TorrentLoader.advance_cases {hash : String → String} {request : Request}
    {accepted : Option Bool} {S S' : StoredSession} {l l' : TorrentLoader}
    (h : l.advance (StoredSession.service hash) request accepted S = some (l', S')) :
    (l.waitsFor = none ∧ ∃ key keys, l' = .waiting key keys ∧
      S' = S.addTorrent hash key request.savePath accepted) ∨
    (S' = S ∧ l.waitsFor = none ∧ (l' = .done none ∨ ∃ keys, l' = .adding keys)) ∨
    (S' = S ∧ ∃ key, l' = .done (some key) ∧ S.hasMetadata hash key = true ∧
      (l.waitsFor = none ∨ l.waitsFor = some key)) := by
  cases l with
  | begin =>
    simp only [advance] at h
    split_ifs at h with hpath hempty
    · obtain ⟨rfl, rfl⟩ := Prod.mk.inj (Option.some.inj h)
      exact Or.inr (Or.inl ⟨rfl, rfl, Or.inl rfl⟩)
    · obtain ⟨rfl, rfl⟩ := Prod.mk.inj (Option.some.inj h)
      exact Or.inr (Or.inl ⟨rfl, rfl, Or.inr ⟨_, rfl⟩⟩)
    · obtain ⟨rfl, rfl⟩ := Prod.mk.inj (Option.some.inj h)
      -- a key with metadata is there already: it is taken without an add
      rw [StoredSession.service_hasMetadata] at hempty ⊢
      cases havailable : getAvailableTorrentFile (S.hasMetadata hash) request.file request.url
          request.magnet with
      | none => exact absurd (congrArg isEmpty havailable) hempty
      | some key =>
        exact Or.inr (Or.inr ⟨rfl, key, rfl, (getAvailableTorrentFile_eq_some havailable).1,
          Or.inl rfl⟩)
  | adding keys =>
    cases keys with
    | nil =>
      obtain ⟨rfl, rfl⟩ := Prod.mk.inj (Option.some.inj h)
      exact Or.inr (Or.inl ⟨rfl, rfl, Or.inl rfl⟩)
    | cons key keys =>
      rw [advance] at h
      split_ifs at h
      · obtain ⟨rfl, rfl⟩ := Prod.mk.inj (Option.some.inj h)
        exact Or.inr (Or.inl ⟨rfl, rfl, Or.inr ⟨keys, rfl⟩⟩)
      · obtain ⟨rfl, rfl⟩ := Prod.mk.inj (Option.some.inj h)
        exact Or.inl ⟨rfl, key.getD "", keys, rfl, rfl⟩
  | waiting key keys =>
    rw [advance] at h
    split_ifs at h with hmetadata
    obtain ⟨rfl, rfl⟩ := Prod.mk.inj (Option.some.inj h)
    exact Or.inr (Or.inr ⟨rfl, key, rfl, hmetadata, Or.inr rfl⟩)
  | done key => cases h

/-- The key that may be new: the one that is waited for, or that is returned. -/
def TorrentLoader.current : TorrentLoader → Option String
  | .waiting key _ => some key
  | .done key => key
  | .begin | .adding _ => none

/-- A loader that does not wait and is not done has no key of its own. -/
theorem TorrentLoader.current_of_waitsFor_none {l : TorrentLoader} (h : l.waitsFor = none)
    (hdone : ∀ key, l ≠ .done key) : l.current = none := by
  cases l with
  | waiting key keys => exact absurd h nofun
  | done key => exact absurd rfl (hdone key)
  | begin | adding => rfl

/-- The key that is waited for is the one that may be new. -/
theorem TorrentLoader.current_of_waitsFor {l : TorrentLoader} {key : String}
    (h : l.waitsFor = some key) : l.current = some key := by
  cases l with
  | waiting key' keys => exact h
  | begin | adding | done => exact absurd h nofun

namespace AddCall

variable {E : AddSetup} {s s' : AddCall} {e : AddCallEvent}

def current (s : AddCall) : Option String :=
  if s.interrupted then none else s.loader.current

theorem current_eq {before session : StoredSession} {loader : TorrentLoader} {interrupted : Bool}
    (h : interrupted = false) :
    AddCall.current ⟨before, session, loader, interrupted⟩ = loader.current := by
  subst h
  rfl

/-- Behind the end the key that may be new is the one that is returned. -/
theorem current_of_ended (h : s.Ended) : s.current = s.returned := by
  unfold current returned
  split_ifs with hinterrupted
  · rfl
  · obtain hint | ⟨key, hkey⟩ := h
    · exact absurd hint hinterrupted
    · rw [hkey]
      rfl

/-- What holds of a call that has given up nothing of others. -/
structure Inv (E : AddSetup) (s : AddCall) : Prop where
  ok : s.session.handles.Ok
  near : s.before.handles.Near E.hash s.session.handles s.current
  valid : ∀ key, s.interrupted = false → s.loader.waitsFor = some key →
    s.before.torrents key = none → s.session.torrents key ≠ none →
      s.session.handles.Valid E.hash key
  metadata : ∀ key, s.returned = some key → s.session.hasMetadata E.hash key = true

/-- At its start a call has given up nothing and added nothing. -/
theorem Inv.start (h : s.Starts) : s.Inv E where
  ok := h.ok
  near k _ := by rw [h.before]; exact ⟨rfl, Iff.rfl⟩
  valid key _ hwaits := by rw [h.loader] at hwaits; exact absurd hwaits nofun
  metadata key hreturned := by
    rw [returned, h.interrupted, h.loader] at hreturned
    exact absurd hreturned nofun

/-- A call that has given up nothing of others is all or nothing when it ends. -/
theorem Inv.atomic (h : s.Inv E) (hended : s.Ended) : s.Atomic E where
  metadata := h.metadata
  kept key handle hkey := by
    have hne : s.before.torrents key ≠ none := by
      rw [hkey]
      exact nofun
    obtain ⟨htorrents, hvalid⟩ := h.near key (Or.inr hne)
    refine ⟨htorrents.trans hkey, fun hsome => ?_⟩
    exact StoredSession.isSome_torrentOf.mpr (hvalid.mpr (StoredSession.isSome_torrentOf.mp hsome))
  added key hnone hsome := by
    by_contra hreturned
    rw [← current_of_ended hended] at hreturned
    exact hsome ((h.near key (Or.inl fun heq => hreturned heq.symm)).1.trans hnone)

/-- A key that is given up is removed; all else leaves the call to go on. -/
theorem next_cases (h : next E s e = some s') :
    (∃ infoHash, e = .metadata infoHash ∧
      s' = { s with session := s.session.loadMetadata infoHash }) ∨
    (∃ key keys, s.interrupted = false ∧ s.loader = .waiting key keys ∧ s.givesUp e = some key ∧
      (s' = { s with session := s.session.removeTorrent E.hash key, interrupted := true } ∨
        s' = { s with loader := .adding keys, session := s.session.removeTorrent E.hash key })) ∨
    (∃ accepted loader session, e = .advance accepted ∧ s.interrupted = false ∧
      s.loader.advance (StoredSession.service E.hash) E.request accepted s.session =
        some (loader, session) ∧
      s' = { s with loader := loader, session := session }) := by
  cases e with
  | metadata infoHash => exact Or.inl ⟨infoHash, rfl, (Option.some.inj h).symm⟩
  | advance accepted =>
    simp only [next, Option.ite_none_left_eq_some, Bool.not_eq_true, Option.map_eq_some_iff] at h
    obtain ⟨hinterrupted, ⟨loader, session⟩, hadvance, rfl⟩ := h
    exact Or.inr (Or.inr ⟨accepted, loader, session, rfl, hinterrupted, hadvance, rfl⟩)
  | timeOut =>
    simp only [next, Option.ite_none_left_eq_some, Bool.not_eq_true, Option.map_eq_some_iff] at h
    obtain ⟨hinterrupted, r, htime, rfl⟩ := h
    cases hl : s.loader with
    | waiting key keys =>
      rw [hl] at htime
      obtain rfl := Option.some.inj htime
      refine Or.inr (Or.inl ⟨key, keys, hinterrupted, rfl, ?_, Or.inr rfl⟩)
      rw [givesUp, hl]
      rfl
    | begin | adding | done => rw [hl] at htime; cases htime
  | interrupt =>
    simp only [next, Option.ite_none_left_eq_some, Bool.not_eq_true, Option.map_eq_some_iff] at h
    obtain ⟨hinterrupted, key', hkey, rfl⟩ := h
    cases hl : s.loader with
    | waiting key keys =>
      rw [hl] at hkey
      obtain rfl := Option.some.inj hkey
      refine Or.inr (Or.inl ⟨key, keys, hinterrupted, rfl, ?_, Or.inl rfl⟩)
      rw [givesUp, hl]
      rfl
    | begin | adding | done => rw [hl] at hkey; cases hkey

/-- A key is returned by a loader that is done with it. -/
theorem loader_of_returned {key : String} (h : s.returned = some key) :
    s.loader = .done (some key) := by
  unfold returned at h
  split_ifs at h
  cases hl : s.loader with
  | done key' =>
    rw [hl] at h
    exact congrArg TorrentLoader.done h
  | begin | adding | waiting => rw [hl] at h; cases h

/-- Metadata that arrive change no handle. -/
theorem Inv.loadMetadata {infoHash : String} (h : s.Inv E) :
    Inv E { s with session := s.session.loadMetadata infoHash } where
  ok := by
    rw [StoredSession.handles_loadMetadata]
    exact h.ok
  near := by
    rw [StoredSession.handles_loadMetadata]
    exact h.near
  valid key hint hwaits hnone hsome := by
    rw [StoredSession.handles_loadMetadata]
    exact h.valid key hint hwaits hnone hsome
  metadata key hreturned := StoredSession.hasMetadata_loadMetadata (h.metadata key hreturned)

/-- The key waited for may be removed when nothing of others is under it. -/
theorem Inv.near_remove {key : String} {keys : List (Option String)} (h : s.Inv E)
    (hguard : Guard E s e) (hinterrupted : s.interrupted = false)
    (hl : s.loader = .waiting key keys) (hgives : s.givesUp e = some key) :
    s.before.handles.Near E.hash (s.session.removeTorrent E.hash key).handles none := by
  have hnear := h.near
  rw [current, hinterrupted, hl] at hnear
  rw [StoredSession.handles_removeTorrent]
  exact hnear.remove fun hsome => by
    obtain ⟨hnone, hunused⟩ := hguard key hgives hsome
    exact ⟨hnone, fun k hk => StoredSession.torrentOf_eq_none.mp (hunused k hk)⟩

/-- An interrupt removes the key that is waited for, and all keys are as they were. -/
theorem Inv.interrupted {key : String} (h : s.Inv E)
    (hnear : s.before.handles.Near E.hash (s.session.removeTorrent E.hash key).handles none) :
    Inv E { s with session := s.session.removeTorrent E.hash key, interrupted := true } where
  ok := by
    rw [StoredSession.handles_removeTorrent]
    exact h.ok.remove
  near := hnear
  valid _ hint := absurd hint nofun
  metadata key hreturned := by
    rw [returned, if_pos rfl] at hreturned
    exact absurd hreturned nofun

/-- So does a wait that runs out, behind which the loader goes on to the next key. -/
theorem Inv.timedOut {key : String} {keys : List (Option String)} (h : s.Inv E)
    (hinterrupted : s.interrupted = false)
    (hnear : s.before.handles.Near E.hash (s.session.removeTorrent E.hash key).handles none) :
    Inv E { s with loader := .adding keys, session := s.session.removeTorrent E.hash key } where
  ok := by
    rw [StoredSession.handles_removeTorrent]
    exact h.ok.remove
  near := by
    rw [current_eq hinterrupted]
    exact hnear
  valid _ _ hwaits := absurd hwaits nofun
  metadata _ hreturned := absurd (loader_of_returned hreturned) nofun

/-- A step of the loader adds a key or finds one; all other keys stay as they were. -/
theorem Inv.advance {accepted : Option Bool} {loader : TorrentLoader} {session : StoredSession}
    (h : s.Inv E) (hinterrupted : s.interrupted = false)
    (hadvance : s.loader.advance (StoredSession.service E.hash) E.request accepted s.session =
      some (loader, session)) :
    Inv E { s with loader := loader, session := session } := by
  have hnotDone : ∀ key, s.loader ≠ .done key := by
    intro key hl
    rw [hl] at hadvance
    cases hadvance
  have hnear : Handles.Near E.hash s.before.handles s.session.handles s.loader.current := by
    have hnear := h.near
    rwa [current, hinterrupted] at hnear
  obtain ⟨hwaits, key, keys, rfl, rfl⟩ | ⟨rfl, hwaits, hl'⟩ |
    ⟨rfl, key, rfl, hmetadata, hwaits⟩ := TorrentLoader.advance_cases hadvance
  -- a key is added
  · rw [TorrentLoader.current_of_waitsFor_none hwaits hnotDone] at hnear
    obtain ⟨hadded, hvalid⟩ := hnear.add h.ok StoredSession.handles_addTorrent
    refine ⟨h.ok.add StoredSession.handles_addTorrent, ?_, fun key' _ hkey hnone hsome => ?_,
      fun key' hreturned => absurd (loader_of_returned hreturned) nofun⟩
    · rw [current_eq hinterrupted]
      exact hadded
    · obtain rfl := Option.some.inj hkey
      exact hvalid hnone hsome
  -- the session is as it was
  · rw [TorrentLoader.current_of_waitsFor_none hwaits hnotDone] at hnear
    obtain rfl | ⟨keys, rfl⟩ := hl'
    · exact ⟨h.ok, hnear.mono, fun key' _ hkey => absurd hkey nofun,
        fun key' hreturned => absurd (loader_of_returned hreturned) nofun⟩
    · exact ⟨h.ok, hnear.mono, fun key' _ hkey => absurd hkey nofun,
        fun key' hreturned => absurd (loader_of_returned hreturned) nofun⟩
  -- a key with metadata is found
  · refine ⟨h.ok, ?_, fun key' _ hkey => absurd hkey nofun, fun key' hreturned => ?_⟩
    · rw [current_eq hinterrupted]
      obtain hnone | hsome := hwaits
      · rw [TorrentLoader.current_of_waitsFor_none hnone hnotDone] at hnear
        exact hnear.mono
      · rw [TorrentLoader.current_of_waitsFor hsome] at hnear
        exact hnear
    · obtain rfl : key = key' := by
        have hdone := loader_of_returned hreturned
        injection hdone with hkey
        exact Option.some.inj hkey
      exact hmetadata

/-- **A step that meets the guard gives up nothing of others.** -/
theorem Inv.next (h : s.Inv E) (hguard : Guard E s e) (hnext : next E s e = some s') :
    s'.Inv E := by
  obtain ⟨infoHash, -, rfl⟩ | ⟨key, keys, hinterrupted, hl, hgives, hs'⟩ |
    ⟨accepted, loader, session, -, hinterrupted, hadvance, rfl⟩ := next_cases hnext
  · exact h.loadMetadata
  · have hnear := h.near_remove hguard hinterrupted hl hgives
    obtain rfl | rfl := hs'
    · exact h.interrupted hnear
    · exact h.timedOut hinterrupted hnear
  · exact h.advance hinterrupted hadvance

/-! ### A torrent of others that is given up -/

/-- Something that was there before the call is missed. -/
def Missed (E : AddSetup) (s : AddCall) : Prop :=
  ∃ k handle, s.before.handles.Lost E.hash s.session.handles k handle

/-- A call that misses something of others is not all or nothing. -/
theorem Missed.not_atomic (h : s.Missed E) : ¬s.Atomic E := by
  obtain ⟨k, handle, hlost⟩ := h
  intro hatomic
  obtain ⟨hkey, hkept⟩ := hatomic.kept k handle hlost.before
  obtain hvalid | hne := hlost.missed
  · -- its torrent was there, so it would have to be there still
    have hsome := hkept (StoredSession.isSome_torrentOf.mpr hvalid)
    obtain ⟨handle', hkey', hlive⟩ := StoredSession.isSome_torrentOf.mp hsome
    obtain rfl := Option.some.inj (hkey.symm.trans hkey')
    exact hlost.dead hlive
  · exact hne hkey

/-- What is missed is missed for good. -/
theorem Missed.next (h : s.Missed E) (hnext : AddCall.next E s e = some s') : s'.Missed E := by
  obtain ⟨k, handle, hlost⟩ := h
  refine ⟨k, handle, ?_⟩
  obtain ⟨infoHash, -, rfl⟩ | ⟨key, keys, -, -, -, rfl | rfl⟩ |
    ⟨accepted, loader, session, -, -, hadvance, rfl⟩ := next_cases hnext
  · rw [StoredSession.handles_loadMetadata]
    exact hlost
  · rw [StoredSession.handles_removeTorrent]
    exact hlost.remove
  · rw [StoredSession.handles_removeTorrent]
    exact hlost.remove
  · obtain ⟨-, key, keys, -, rfl⟩ | ⟨rfl, -⟩ | ⟨rfl, -⟩ := TorrentLoader.advance_cases hadvance
    · exact hlost.add StoredSession.handles_addTorrent
    · exact hlost
    · exact hlost

/-- **A step against the guard** removes a key or a torrent that was there before the call. -/
theorem Inv.missed (h : s.Inv E) (hguard : ¬Guard E s e) (hnext : AddCall.next E s e = some s') :
    s'.Missed E := by
  unfold Guard at hguard
  push Not at hguard
  obtain ⟨key', hgives', hsome, hnot⟩ := hguard
  obtain ⟨infoHash, rfl, -⟩ | ⟨key, keys, hinterrupted, hl, hgives, hs'⟩ |
    ⟨accepted, loader, session, rfl, -⟩ := next_cases hnext
  · exact absurd hgives' nofun
  · -- only a key that is waited for is given up, by an interrupt or a time-out
    obtain rfl := Option.some.inj (hgives.symm.trans hgives')
    have hwaits : s.loader.waitsFor = some key := by rw [hl]; rfl
    have hnear := h.near
    rw [current, hinterrupted, hl] at hnear
    obtain ⟨k, handle, hlost⟩ := hnear.lost h.ok (h.valid key hinterrupted hwaits) hsome <| by
      rintro ⟨hnone, hunused⟩
      obtain ⟨k, hk, hne⟩ := hnot hnone
      exact hne (StoredSession.torrentOf_eq_none.mpr (hunused k hk))
    refine ⟨k, handle, ?_⟩
    obtain rfl | rfl := hs'
    · rw [StoredSession.handles_removeTorrent]
      exact hlost
    · rw [StoredSession.handles_removeTorrent]
      exact hlost
  · exact absurd hgives' nofun

/-- **Adding is all or nothing exactly where no torrent of others is given up.**  A run whose steps
    meet the guard ends right; a step against the guard takes away what does not come back. -/
theorem atomic_of_guard (E : AddSetup) :
    (∀ s, (machine E).RunUnder (fun _ => True) (Guard E) s → s.Ended → s.Atomic E) ∧
      ∀ s e s' t, (machine E).RunUnder (fun _ => True) (Guard E) s → ¬Guard E s e →
        (machine E).step s e s' → ((machine E).goingOn s').Reachable t → t.Ended →
          ¬t.Atomic E := by
  have hinv : ∀ s, (machine E).RunUnder (fun _ => True) (Guard E) s → s.Inv E := by
    intro s hrun
    exact hrun.invariant (fun s hstart _ => Inv.start hstart)
      fun s e s' hs hguard hstep => hs.next hguard hstep
  refine ⟨fun s hrun hended => (hinv s hrun).atomic hended, ?_⟩
  intro s e s' t hrun hguard hstep hgoing _
  have hmissed : t.Missed E :=
    hgoing.goingOn_invariant ((hinv s hrun).missed hguard hstep) fun _ _ _ hs hnext => hs.next hnext
  exact hmissed.not_atomic

/-- Another client has added a magnet and waits for its metadata; the call has the same one. -/
def sharedMagnet : AddSetup where
  hash := id
  request := { savePath := "/sdcard/b", file := none, url := none, magnet := some "magnet:a" }

def magnetWaiting : AddCall :=
  let session : StoredSession :=
    { torrents := fun key => if key = "magnet:a" then some 0 else none
      live := fun infoHash =>
        if infoHash = "magnet:a" then some ⟨0, false, "/sdcard/a", false⟩ else none
      nextHandle := 1 }
  { before := session, session := session, loader := .begin, interrupted := false }

theorem magnetWaiting_starts : magnetWaiting.Starts where
  ok := by
    refine ⟨fun key handle h => ?_, fun infoHash handle h => ?_⟩
    · simp only [magnetWaiting, StoredSession.handles, Option.ite_none_right_eq_some,
        Option.some.injEq] at h
      simp [magnetWaiting, StoredSession.handles, ← h.2]
    · simp only [magnetWaiting, StoredSession.handles, Option.map_eq_some_iff,
        Option.ite_none_right_eq_some, Option.some.injEq] at h
      obtain ⟨t, ⟨-, rfl⟩, rfl⟩ := h
      simp [magnetWaiting, StoredSession.handles]
  before := rfl
  loader := rfl
  interrupted := rfl

/-- An interrupt removes the magnet of the other client. -/
theorem interrupt_removes_shared : ∃ s, (machine sharedMagnet).Reachable s ∧ s.Ended ∧
    ¬s.Atomic sharedMagnet := by
  have hrun : (Machine.runEvents (next sharedMagnet) magnetWaiting
      [.advance none, .advance none, .advance none, .advance none, .interrupt]).map
        (fun s => (s.interrupted, s.before.torrents "magnet:a", s.session.torrents "magnet:a")) =
          some (true, some 0, none) := by
    decide +kernel
  obtain ⟨s, hreach, hs⟩ :=
    Machine.Reachable.exists_of_runEvents (Machine.Reachable.start magnetWaiting_starts) hrun
  obtain ⟨hinterrupted, hbefore, hafter⟩ : _ ∧ _ ∧ _ := by
    simpa only [Prod.mk.injEq] using hs
  refine ⟨s, hreach, Or.inl hinterrupted, fun hatomic => ?_⟩
  exact absurd (hafter.symm.trans (hatomic.kept "magnet:a" 0 hbefore).1) nofun

end AddCall

end PopcornTime.Android
