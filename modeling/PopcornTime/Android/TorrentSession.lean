import PopcornTime.Android.TorrentUtil

namespace PopcornTime.Android

open PopcornTime TorrentUtil

/-!
# Android torrents — the torrents of the service

`TorrentService` maps keys (a path, a url or a magnet link) to handles, and libtorrent's session
has one torrent for each info-hash, whatever the key it was added by.  A handle whose torrent was
removed stays in the map; it is no handle of a torrent of the same hash that is added later.

The info-hash that a key names is a parameter.  A magnet or a `.torrent` file names that of its
content; an http key names the hash of its url until the `.torrent` is loaded, and that of the
content behind it.  Here an http key joins the torrent that the parameter gives for it.  libtorrent
does so where that torrent has the url; where it has not, the torrent of the url is dropped as a
duplicate, and the wait ends without metadata.  A guard that keeps such a key off the torrents of
others asks for more there than the code needs.

* `Session.addTorrent`, `setFilePriority`, `removeTorrent` — the calls of downloads and watches.
* `Session.Wants` — a key's torrent downloads the file of a name; the `Wants` lemmas say which
  calls leave it alone.
* `Session.Sized` — every torrent has as many priorities as files.
-/

/-- The torrents there are: what a key names, and the files of a torrent. -/
structure Catalogue where
  /-- The info-hash of the torrent a key names. -/
  hash : String → String
  /-- The rest is by info-hash. -/
  torrentName : String → Option String
  files : String → List FileEntry
  pieceLength : String → ℕ

namespace Catalogue

variable (E : Catalogue)

/-- The byte of the torrent at which a file starts. -/
def fileOffset (hash : String) (index : ℕ) : ℤ :=
  (((E.files hash).take index).map FileEntry.size).sum

def fileSize (hash : String) (index : ℕ) : ℤ :=
  (((E.files hash)[index]?).map FileEntry.size).getD 0

/-- The bytes a piece has of a file. -/
def pieceBytes (hash : String) (index piece : ℕ) : ℤ :=
  max 0 (min (E.fileOffset hash index + E.fileSize hash index)
      ((piece + 1) * E.pieceLength hash : ℤ)
    - max (E.fileOffset hash index) (piece * E.pieceLength hash))

/-- The pieces of a torrent. -/
def pieces (hash : String) : List ℕ :=
  let size := ((E.files hash).map FileEntry.size).sum.toNat
  List.range ((size + E.pieceLength hash - 1) / E.pieceLength hash)

/-- Every piece of a file is had. -/
def Complete (hash : String) (had : ℕ → Bool) (index : ℕ) : Prop :=
  ∀ piece ∈ E.pieces hash, 0 < E.pieceBytes hash index piece → had piece = true

instance (hash : String) (had : ℕ → Bool) (index : ℕ) : Decidable (E.Complete hash had index) :=
  inferInstanceAs (Decidable (∀ piece ∈ E.pieces hash, _ → _))

end Catalogue

/-- A torrent of the session. -/
structure LiveTorrent where
  handle : ℕ
  filePriorities : List ℤ
  had : ℕ → Bool

/-- The map of the service and the torrents of the session, by info-hash. -/
structure Session where
  handles : String → Option ℕ
  live : String → Option LiveTorrent
  nextHandle : ℕ

namespace Session

/-- The torrent behind a key, if its handle is still valid. -/
def torrentOf (E : Catalogue) (S : Session) (key : String) : Option LiveTorrent :=
  match S.handles key, S.live (E.hash key) with
  | some handle, some t => if t.handle = handle then some t else none
  | _, _ => none

/-- `hasMetadata`: between the calls here no torrent is without. -/
def hasMetadata (E : Catalogue) (S : Session) (key : String) : Bool :=
  (S.torrentOf E key).isSome

/-- `removeTorrent` -/
def removeTorrent (E : Catalogue) (S : Session) (key : String) : Session :=
  { S with
    handles := Function.update S.handles key none
    live := if S.hasMetadata E key then Function.update S.live (E.hash key) none else S.live }

/-- `isTorrentAdded` up to the end of its wait.  `loads` answers for a torrent that is new to the
    session: its metadata does not come, or it does and these pieces are had. -/
def isTorrentAdded (E : Catalogue) (loads : String → Option (ℕ → Bool)) (S : Session)
    (key : String) : Bool × Session :=
  match S.handles key with
  -- a known key without metadata is removed again
  | some _ => if S.hasMetadata E key then (true, S) else (false, S.removeTorrent E key)
  | none =>
    match S.live (E.hash key) with
    -- another key of a live torrent gets its handle
    | some t => (true, { S with handles := Function.update S.handles key (some t.handle) })
    | none =>
      match loads key with
      | none => (false, S)
      | some had => (true,
          { handles := Function.update S.handles key (some S.nextHandle)
            live := Function.update S.live (E.hash key) (some
              { handle := S.nextHandle
                filePriorities :=
                  List.replicate (E.files (E.hash key)).length TorrentPriority.NORMAL
                had := had })
            nextHandle := S.nextHandle + 1 })

/-- The keys `addTorrent` tries, in order; an empty one is passed over. -/
def tryKeys (E : Catalogue) (loads : String → Option (ℕ → Bool)) :
    List (Option String) → Session → Option String × Session
  | [], S => (none, S)
  | key :: keys, S =>
    if isEmpty key then tryKeys E loads keys S
    else
      match S.isTorrentAdded E loads (key.getD "") with
      | (true, S) => (key, S)
      -- what a failed key has done to the session stays
      | (false, S) => tryKeys E loads keys S

/-- `TorrentUtil.addTorrent` -/
def addTorrent (E : Catalogue) (loads : String → Option (ℕ → Bool)) (S : Session)
    (file url magnet : Option String) : Option String × Session :=
  let available := getAvailableTorrentFile (S.hasMetadata E) file url magnet
  if isEmpty available then tryKeys E loads [file, url, magnet] S else (available, S)

/-- `TorrentUtil.setFilePriority`: the selected file, or nothing where the key has no torrent. -/
def setFilePriority (E : Catalogue) (S : Session) (key : String) (fileName : Option String)
    (priority : ℤ) : Option FileEntry × Session :=
  match S.torrentOf E key with
  | none => (none, S)
  | some t =>
    match selectFile (E.files (E.hash key)) fileName with
    | none => (none, S)
    | some (index, entry) =>
      let t := { t with filePriorities := selectPriorities index priority t.filePriorities }
      (some entry, { S with live := Function.update S.live (E.hash key) (some t) })

/-- A torrent finishes a piece. -/
def finishPiece (S : Session) (hash : String) (piece : ℕ) : Session :=
  let t := (S.live hash).map fun t => { t with had := Function.update t.had piece true }
  { S with live := Function.update S.live hash t }

/-- `getDownloadSizeMb`: the bytes had of all files. -/
def getDownloadSizeMb (E : Catalogue) (S : Session) (key : String) : ℤ :=
  match S.torrentOf E key with
  | none => 0
  | some t =>
    let hash := E.hash key
    let size := (((List.range (E.files hash).length).map fun index =>
      (((E.pieces hash).filter t.had).map (E.pieceBytes hash index)).sum)).sum
    if 0 < size then size.tdiv SIZE_MB else 0

/-- libtorrent's `finished`: every piece of a file with a priority is had. -/
def Finished (E : Catalogue) (hash : String) (t : LiveTorrent) : Prop :=
  ∀ index ∈ List.range (E.files hash).length, t.filePriorities.getD index 0 ≠ 0 →
    E.Complete hash t.had index

instance (E : Catalogue) (hash : String) (t : LiveTorrent) : Decidable (Finished E hash t) :=
  inferInstanceAs (Decidable (∀ index ∈ List.range (E.files hash).length, _ → _))

/-! ### The torrent behind a key -/

section TorrentOf

variable {E : Catalogue} {S : Session} {key key' : String} {t : LiveTorrent}

/-- The torrent of a key is that of its hash, if the handle is its handle. -/
theorem torrentOf_eq_some : S.torrentOf E key = some t ↔
    S.handles key = some t.handle ∧ S.live (E.hash key) = some t := by
  unfold torrentOf
  cases hhandle : S.handles key with
  | none => simp
  | some handle =>
    cases hlive : S.live (E.hash key) with
    | none => simp
    | some t' =>
      simp only [Option.some.injEq]
      -- a handle that is not the one of the live torrent is stale
      by_cases heq : t'.handle = handle
      · rw [if_pos heq, Option.some.injEq]
        constructor
        · rintro rfl
          exact ⟨heq.symm, rfl⟩
        · exact fun h => h.2
      · rw [if_neg heq]
        refine iff_of_false (by simp) ?_
        rintro ⟨rfl, rfl⟩
        exact heq rfl

/-- A key with a torrent has metadata, -/
theorem hasMetadata_of_torrentOf (h : S.torrentOf E key = some t) :
    S.hasMetadata E key = true := by
  rw [hasMetadata, h]
  rfl

/-- and the other way around. -/
theorem exists_of_hasMetadata (h : S.hasMetadata E key = true) :
    ∃ t, S.torrentOf E key = some t :=
  Option.isSome_iff_exists.mp h

/-- Removing one torrent leaves the torrents of other hashes. -/
theorem torrentOf_removeTorrent_of_hash_ne (hne : E.hash key' ≠ E.hash key)
    (h : S.torrentOf E key' = some t) : (S.removeTorrent E key).torrentOf E key' = some t := by
  obtain ⟨hhandle, hlive⟩ := torrentOf_eq_some.mp h
  have hkey : key' ≠ key := fun heq => hne (heq ▸ rfl)
  refine torrentOf_eq_some.mpr ⟨?_, ?_⟩
  · exact (Function.update_of_ne hkey _ _).trans hhandle
  · show (if S.hasMetadata E key then _ else _ : String → Option LiveTorrent) _ = _
    split_ifs
    · exact (Function.update_of_ne hne _ _).trans hlive
    · exact hlive

/-- Removing a handle that is no longer valid leaves every torrent. -/
theorem torrentOf_removeTorrent_of_stale (hstale : S.hasMetadata E key = false)
    (h : S.torrentOf E key' = some t) : (S.removeTorrent E key).torrentOf E key' = some t := by
  obtain ⟨hhandle, hlive⟩ := torrentOf_eq_some.mp h
  have hkey : key' ≠ key := by
    rintro rfl
    rw [hasMetadata_of_torrentOf h] at hstale
    simp at hstale
  refine torrentOf_eq_some.mpr ⟨?_, ?_⟩
  · exact (Function.update_of_ne hkey _ _).trans hhandle
  · show (if S.hasMetadata E key then _ else _ : String → Option LiveTorrent) _ = _
    rw [hstale]
    exact hlive

/-- Trying a key leaves every torrent there is. -/
theorem torrentOf_isTorrentAdded (loads : String → Option (ℕ → Bool))
    (h : S.torrentOf E key' = some t) :
    (S.isTorrentAdded E loads key).2.torrentOf E key' = some t := by
  obtain ⟨hhandle', hlive'⟩ := torrentOf_eq_some.mp h
  unfold isTorrentAdded
  cases hhandle : S.handles key with
  | some handle =>
    by_cases hm : S.hasMetadata E key = true
    · simp only [hm, if_true]
      exact h
    · rw [Bool.not_eq_true] at hm
      simp only [hm, Bool.false_eq_true, if_false]
      exact torrentOf_removeTorrent_of_stale hm h
  | none =>
    -- the key had no handle, so it is another one that has the torrent
    have hkey : key' ≠ key := by
      rintro rfl
      rw [hhandle] at hhandle'
      simp at hhandle'
    cases hlive : S.live (E.hash key) with
    | some t' =>
      refine torrentOf_eq_some.mpr ⟨?_, hlive'⟩
      exact (Function.update_of_ne hkey _ _).trans hhandle'
    | none =>
      cases loads key with
      | none => exact h
      | some had =>
        have hne : E.hash key' ≠ E.hash key := by
          intro heq
          rw [heq, hlive] at hlive'
          simp at hlive'
        refine torrentOf_eq_some.mpr ⟨?_, ?_⟩
        · exact (Function.update_of_ne hkey _ _).trans hhandle'
        · exact (Function.update_of_ne hne _ _).trans hlive'

/-- A key that was tried with success has a torrent. -/
theorem exists_torrentOf_isTorrentAdded {loads : String → Option (ℕ → Bool)}
    (h : (S.isTorrentAdded E loads key).1 = true) :
    ∃ t, (S.isTorrentAdded E loads key).2.torrentOf E key = some t := by
  unfold isTorrentAdded at h ⊢
  cases hhandle : S.handles key with
  | some handle =>
    simp only [hhandle] at h
    by_cases hm : S.hasMetadata E key = true
    · simp only [hm, if_true]
      exact exists_of_hasMetadata hm
    · simp [hm] at h
  | none =>
    cases hlive : S.live (E.hash key) with
    | some t =>
      refine ⟨t, torrentOf_eq_some.mpr ⟨?_, hlive⟩⟩
      exact Function.update_self _ _ _
    | none =>
      cases hloads : loads key with
      | none => simp [hhandle, hlive, hloads] at h
      | some had =>
        refine ⟨_, torrentOf_eq_some.mpr ⟨?_, Function.update_self _ _ _⟩⟩
        exact Function.update_self _ _ _

/-- Trying the keys in turn leaves every torrent there is. -/
theorem torrentOf_tryKeys (loads : String → Option (ℕ → Bool)) (keys : List (Option String))
    (h : S.torrentOf E key' = some t) :
    (tryKeys E loads keys S).2.torrentOf E key' = some t := by
  induction keys generalizing S with
  | nil => exact h
  | cons key keys ih =>
    unfold tryKeys
    -- an empty key is skipped
    by_cases hempty : isEmpty key = true
    · rw [if_pos hempty]
      exact ih h
    · rw [if_neg hempty]
      have hafter : (S.isTorrentAdded E loads (key.getD "")).2.torrentOf E key' = some t :=
        torrentOf_isTorrentAdded loads h
      cases hadded : S.isTorrentAdded E loads (key.getD "") with
      | mk added S' =>
        rw [hadded] at hafter
        cases added with
        | true => exact hafter
        | false => exact ih hafter

/-- `addTorrent` leaves every torrent there is. -/
theorem torrentOf_addTorrent (loads : String → Option (ℕ → Bool)) (file url magnet : Option String)
    (h : S.torrentOf E key' = some t) :
    (S.addTorrent E loads file url magnet).2.torrentOf E key' = some t := by
  unfold addTorrent
  simp only
  split_ifs
  · exact torrentOf_tryKeys loads _ h
  · exact h

/-- The key that is found is one that was tried, and has a torrent. -/
theorem exists_torrentOf_tryKeys {loads : String → Option (ℕ → Bool)}
    {keys : List (Option String)} (h : (tryKeys E loads keys S).1 = some key) :
    some key ∈ keys ∧ ∃ t, (tryKeys E loads keys S).2.torrentOf E key = some t := by
  induction keys generalizing S with
  | nil => simp [tryKeys] at h
  | cons key' keys ih =>
    unfold tryKeys at h ⊢
    by_cases hempty : isEmpty key' = true
    · rw [if_pos hempty] at h ⊢
      exact (ih h).imp_left (List.mem_cons_of_mem _)
    · rw [if_neg hempty] at h ⊢
      have hexists : (S.isTorrentAdded E loads (key'.getD "")).1 = true →
          ∃ t, (S.isTorrentAdded E loads (key'.getD "")).2.torrentOf E (key'.getD "") = some t :=
        exists_torrentOf_isTorrentAdded
      cases hadded : S.isTorrentAdded E loads (key'.getD "") with
      | mk added S' =>
        rw [hadded] at h hexists
        cases added with
        | false => exact (ih h).imp_left (List.mem_cons_of_mem _)
        -- the first key the session takes is the answer
        | true =>
          change key' = some key at h
          subst h
          exact ⟨List.mem_cons_self, hexists rfl⟩

/-- The key that `addTorrent` answers is one of the three and has a torrent. -/
theorem exists_torrentOf_addTorrent {loads : String → Option (ℕ → Bool)}
    {file url magnet : Option String}
    (h : (S.addTorrent E loads file url magnet).1 = some key) :
    some key ∈ [file, url, magnet] ∧
      ∃ t, (S.addTorrent E loads file url magnet).2.torrentOf E key = some t := by
  unfold addTorrent at h ⊢
  simp only at h ⊢
  split_ifs at h ⊢
  · exact exists_torrentOf_tryKeys h
  · obtain ⟨hm, hmem⟩ := getAvailableTorrentFile_eq_some h
    exact ⟨hmem, exists_of_hasMetadata hm⟩

end TorrentOf

/-! ### The file a key's torrent downloads -/

/-- A key's torrent gives the file of a name a priority. -/
def Wants (E : Catalogue) (S : Session) (key : String) (fileName : Option String) : Prop :=
  ∃ t, S.torrentOf E key = some t ∧ ∃ index entry,
    selectFile (E.files (E.hash key)) fileName = some (index, entry) ∧
      t.filePriorities.getD index 0 ≠ 0

/-- Every torrent has a priority for each of its files. -/
def Sized (E : Catalogue) (S : Session) : Prop :=
  ∀ hash t, S.live hash = some t → t.filePriorities.length = (E.files hash).length

section Wants

variable {E : Catalogue} {S : Session} {key key' : String} {fileName fileName' : Option String}

/-- A removal leaves the torrents of other hashes downloading. -/
theorem Wants.removeTorrent (h : Wants E S key' fileName) (hne : E.hash key' ≠ E.hash key) :
    Wants E (S.removeTorrent E key) key' fileName := by
  obtain ⟨t, ht, hwants⟩ := h
  exact ⟨t, torrentOf_removeTorrent_of_hash_ne hne ht, hwants⟩

/-- `addTorrent` leaves every torrent downloading. -/
theorem Wants.addTorrent (h : Wants E S key' fileName) (loads : String → Option (ℕ → Bool))
    (file url magnet : Option String) :
    Wants E (S.addTorrent E loads file url magnet).2 key' fileName := by
  obtain ⟨t, ht, hwants⟩ := h
  exact ⟨t, torrentOf_addTorrent loads file url magnet ht, hwants⟩

/-- The priorities of another torrent do not matter, those of the same one only where they select
    another file. -/
theorem Wants.setFilePriority (h : Wants E S key' fileName') (hsized : Sized E S) {priority : ℤ}
    (hpriority : priority ≠ 0)
    (hsame : E.hash key' = E.hash key → selectFile (E.files (E.hash key)) fileName' =
      selectFile (E.files (E.hash key)) fileName) :
    Wants E (S.setFilePriority E key fileName priority).2 key' fileName' := by
  obtain ⟨t', ht', index', entry', hselect', hwants⟩ := h
  unfold Session.setFilePriority
  cases ht : S.torrentOf E key with
  | none => exact ⟨t', ht', index', entry', hselect', hwants⟩
  | some t =>
    cases hselect : selectFile (E.files (E.hash key)) fileName with
    | none => exact ⟨t', ht', index', entry', hselect', hwants⟩
    | some selected =>
      obtain ⟨index, entry⟩ := selected
      obtain ⟨hhandle', hlive'⟩ := torrentOf_eq_some.mp ht'
      by_cases hhash : E.hash key' = E.hash key
      · -- one torrent, and it is the same file
        have hlive := (torrentOf_eq_some.mp ht).2
        rw [hhash] at hlive' hselect'
        have heq : t' = t := Option.some.inj (hlive'.symm.trans hlive)
        have hindex : index' = index := by
          have := hselect'.symm.trans ((hsame hhash).trans hselect)
          simp only [Option.some.injEq, Prod.mk.injEq] at this
          exact this.1
        subst heq hindex
        refine ⟨{ t' with filePriorities := selectPriorities index' priority t'.filePriorities },
          torrentOf_eq_some.mpr ⟨hhandle', ?_⟩, index', entry', hhash ▸ hselect', ?_⟩
        · rw [hhash]
          exact Function.update_self _ _ _
        · rw [selectPriorities_getD _ priority]
          · exact hpriority
          · rw [hsized _ _ hlive]
            exact (List.getElem?_eq_some_iff.mp (selectFile_eq_some hselect')).1
      · -- another torrent
        refine ⟨t', torrentOf_eq_some.mpr ⟨hhandle', ?_⟩, index', entry', hselect', hwants⟩
        exact (Function.update_of_ne hhash _ _).trans hlive'

/-- The file that is selected is wanted. -/
theorem wants_setFilePriority (hsized : Sized E S) {priority : ℤ} (hpriority : priority ≠ 0)
    {entry : FileEntry} (h : (S.setFilePriority E key fileName priority).1 = some entry) :
    Wants E (S.setFilePriority E key fileName priority).2 key fileName := by
  unfold Session.setFilePriority at h ⊢
  cases ht : S.torrentOf E key with
  | none => simp [ht] at h
  | some t =>
    cases hselect : selectFile (E.files (E.hash key)) fileName with
    | none => simp [ht, hselect] at h
    | some selected =>
      obtain ⟨index, entry'⟩ := selected
      obtain ⟨hhandle, hlive⟩ := torrentOf_eq_some.mp ht
      refine ⟨{ t with filePriorities := selectPriorities index priority t.filePriorities },
        torrentOf_eq_some.mpr ⟨hhandle, Function.update_self _ _ _⟩, index, entry', hselect, ?_⟩
      rw [selectPriorities_getD _ priority]
      · exact hpriority
      · rw [hsized _ _ hlive]
        exact (List.getElem?_eq_some_iff.mp (selectFile_eq_some hselect)).1

/-- Nothing is selected only in a torrent without files. -/
theorem files_eq_nil_of_setFilePriority {t : LiveTorrent} (ht : S.torrentOf E key = some t)
    {priority : ℤ} (h : (S.setFilePriority E key fileName priority).1 = none) :
    E.files (E.hash key) = [] := by
  unfold Session.setFilePriority at h
  cases hselect : selectFile (E.files (E.hash key)) fileName with
  | none => exact selectFile_eq_none.mp hselect
  | some selected => simp [ht, hselect] at h

/-- A piece changes no priority. -/
theorem Wants.finishPiece (h : Wants E S key fileName) (hash : String) (piece : ℕ) :
    Wants E (S.finishPiece hash piece) key fileName := by
  obtain ⟨t, ht, hwants⟩ := h
  obtain ⟨hhandle, hlive⟩ := torrentOf_eq_some.mp ht
  by_cases hhash : E.hash key = hash
  · refine ⟨{ t with had := Function.update t.had piece true },
      torrentOf_eq_some.mpr ⟨hhandle, ?_⟩, hwants⟩
    subst hhash
    refine (Function.update_self _ _ _).trans ?_
    rw [hlive]
    rfl
  · refine ⟨t, torrentOf_eq_some.mpr ⟨hhandle, ?_⟩, hwants⟩
    exact (Function.update_of_ne hhash _ _).trans hlive

end Wants

section Sized

variable {E : Catalogue} {S : Session} {key : String}

/-- A session that differs in one torrent. -/
theorem Sized.update (h : Sized E S) {hash : String} {t : Option LiveTorrent}
    (ht : ∀ t', t = some t' → t'.filePriorities.length = (E.files hash).length)
    {handles : String → Option ℕ} {nextHandle : ℕ} :
    Sized E ⟨handles, Function.update S.live hash t, nextHandle⟩ := by
  intro hash' t' ht'
  change Function.update S.live hash t hash' = some t' at ht'
  by_cases heq : hash' = hash
  · subst heq
    rw [Function.update_self] at ht'
    exact ht t' ht'
  · rw [Function.update_of_ne heq] at ht'
    exact h hash' t' ht'

/-- A torrent less. -/
theorem Sized.removeTorrent (h : Sized E S) (key : String) : Sized E (S.removeTorrent E key) := by
  unfold Session.removeTorrent
  split_ifs
  · exact h.update (by simp)
  · exact h

/-- A torrent that is new has the default priority for each of its files. -/
theorem Sized.isTorrentAdded (h : Sized E S) (loads : String → Option (ℕ → Bool))
    (key : String) : Sized E (S.isTorrentAdded E loads key).2 := by
  unfold Session.isTorrentAdded
  cases S.handles key with
  | some handle =>
    by_cases hm : S.hasMetadata E key = true
    · simpa only [hm, if_true] using h
    · simpa only [hm, Bool.false_eq_true, if_false] using h.removeTorrent key
  | none =>
    cases S.live (E.hash key) with
    | some t => exact h
    | none =>
      cases loads key with
      | none => exact h
      | some had =>
        apply h.update
        rintro t ⟨⟩
        exact List.length_replicate

/-- The keys are tried in turn. -/
theorem Sized.tryKeys (loads : String → Option (ℕ → Bool)) (keys : List (Option String))
    {S : Session} (h : Sized E S) : Sized E (tryKeys E loads keys S).2 := by
  induction keys generalizing S with
  | nil => exact h
  | cons key keys ih =>
    unfold Session.tryKeys
    by_cases hempty : isEmpty key = true
    · rw [if_pos hempty]
      exact ih h
    · rw [if_neg hempty]
      have hafter := h.isTorrentAdded loads (key.getD "")
      cases hadded : S.isTorrentAdded E loads (key.getD "") with
      | mk added S' =>
        rw [hadded] at hafter
        cases added with
        | true => exact hafter
        | false => exact ih hafter

/-- `addTorrent` keeps the sizes. -/
theorem Sized.addTorrent (h : Sized E S) (loads : String → Option (ℕ → Bool))
    (file url magnet : Option String) : Sized E (S.addTorrent E loads file url magnet).2 := by
  unfold Session.addTorrent
  simp only
  split_ifs
  · exact Sized.tryKeys loads _ h
  · exact h

/-- The priorities are written, as many as there were. -/
theorem Sized.setFilePriority (h : Sized E S) (key : String) (fileName : Option String)
    (priority : ℤ) : Sized E (S.setFilePriority E key fileName priority).2 := by
  unfold Session.setFilePriority
  cases ht : S.torrentOf E key with
  | none => exact h
  | some t =>
    cases selectFile (E.files (E.hash key)) fileName with
    | none => exact h
    | some selected =>
      apply h.update
      rintro t' ⟨⟩
      exact (selectPriorities_length _ _ _).trans (h _ t (torrentOf_eq_some.mp ht).2)

/-- A piece is no matter of the priorities. -/
theorem Sized.finishPiece (h : Sized E S) (hash : String) (piece : ℕ) :
    Sized E (S.finishPiece hash piece) := by
  refine h.update fun t ht => ?_
  obtain ⟨t₀, ht₀, rfl⟩ := Option.map_eq_some_iff.mp ht
  exact h hash t₀ ht₀

end Sized

end Session

end PopcornTime.Android
