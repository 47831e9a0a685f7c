import PopcornTime.Lib.Machine
import PopcornTime.Android.DownloadsClient

namespace PopcornTime.Android

open PopcornTime Sqlite Downloads TorrentUtil

/-!
# Android downloads — a removal next to an add

`AddToDownloadsThread` and `downloadsRemove` of one download, one call of the service or of the
table at a time, in any order.  In between libtorrent receives metadata.

* `Race.Settled` — once both have ended, a torrent that is held has a row.
* `Race.Guard` — the thread gets hold of a torrent only while the removal still comes upon it.
* `Race.settled_of_guard` — a run that ends is right exactly if all its steps meet the guard.
-/

/-- The keys of a download, in the order they are asked for; a null key is never held. -/
def DownloadInfo.keys (info : DownloadInfo) : List String :=
  [info.torrentFilePath, info.torrentUrl, info.torrentMagnet].filterMap fun key => key

/-- The download, by its row at the start, and what the thread meets on its way. -/
structure RaceSetup where
  row : DownloadRow
  files : String → List FileEntry
  torrentName : String → Option String
  metadata : MetadataFiles
  selectsOther : String → DownloadRow → Bool

/-- The keys at the start; the thread keeps them as its arguments. -/
def RaceSetup.keys (E : RaceSetup) : List String :=
  (populate E.row).keys

/-- Where `AddToDownloadsThread.run` is. -/
inductive AddPoint
  /-- `getAvailableTorrentFile`, with the keys that are left. -/
  | look (keys : List String)
  /-- `isTorrentAdded`, with the keys that are left. -/
  | add (keys : List String)
  /-- In the sleep of `isTorrentAdded`. -/
  | waiting (key : String) (keys : List String)
  /-- Behind a `hasMetadata` that was false. -/
  | polled (key : String) (keys : List String)
  | failed
  /-- `setFilePriority` -/
  | select (key : String)
  /-- Before the `Downloads.delete` of a torrent without files. -/
  | drop
  | checking (key : String) (video : FileEntry)
  | query (key : String) (video : FileEntry)
  /-- Behind `populate`. -/
  | save (key : String) (video : FileEntry)
  | ended
deriving DecidableEq, Repr

/-- Where `downloadsRemove` is, with the object the list has shown. -/
inductive RemovalPoint
  | idle
  /-- `getAvailableTorrentFile`, with the keys that are left. -/
  | look (info : DownloadInfo) (keys : List String)
  | remove (info : DownloadInfo) (key : String)
  | delete (info : DownloadInfo)
  | ended
deriving DecidableEq, Repr

/-- The two threads, the torrents the service holds (with whether each has metadata), the table
    and the thread's own object. -/
structure Race where
  held : String → Option Bool
  table : DownloadsTable
  info : DownloadInfo
  thread : AddPoint
  removal : RemovalPoint

inductive RaceEvent
  /-- The metadata of a torrent arrives. -/
  | metadata (key : String)
  /-- `addTorrent` of the thread: the session refuses, or takes it with or without metadata. -/
  | addTorrent (handle : Option Bool)
  /-- Any other statement of the thread. -/
  | thread
  /-- The time of `isTorrentAdded` is up. -/
  | timeUp
  /-- The sleep of the thread is interrupted. -/
  | interrupt
  /-- The next statement of the removal. -/
  | removal

namespace Race

/-- `service.hasMetadata` -/
def hasMetadata (s : Race) (key : String) : Bool :=
  s.held key == some true

/-- `service.removeTorrent` -/
def removeTorrent (s : Race) (key : String) : Race :=
  { s with held := Function.update s.held key none }

@[simp] theorem removeTorrent_held_self (s : Race) (key : String) :
    (s.removeTorrent key).held key = none :=
  Function.update_self _ _ _

/-- A torrent that is removed leaves the others. -/
theorem removeTorrent_held_of_ne (s : Race) {key key' : String} (h : key' ≠ key) :
    (s.removeTorrent key).held key' = s.held key' :=
  Function.update_of_ne h _ _

@[simp] theorem hasMetadata_eq_true {s : Race} {key : String} :
    s.hasMetadata key = true ↔ s.held key = some true := by
  simp [hasMetadata]

def threadNext (E : RaceSetup) (s : Race) : Option Race :=
  match s.thread with
  | .look (key :: keys) =>
    some { s with thread := if s.hasMetadata key then .select key else .look keys }
  | .look [] => some { s with thread := .add E.keys }
  | .add (key :: keys) => if key = "" then some { s with thread := .add keys } else none
  | .add [] => some { s with thread := .failed }
  | .waiting key keys =>
    some { s with thread := if s.hasMetadata key then .select key else .polled key keys }
  | .polled key keys => some { s with thread := .waiting key keys }
  | .failed =>
    let (info, _) := AddToDownloadsThread.failed s.info
    some { s with table := s.table.update info, info := info, thread := .ended }
  | .select key =>
    -- without metadata `getFiles` is null
    match selectFile (if s.hasMetadata key then E.files key else []) s.info.fileName with
    | none => some { s with thread := .drop }
    | some (_, video) => some { s with thread := .checking key video }
  | .drop => some { s with table := s.table.delete s.info, thread := .ended }
  | .checking key video => some { s with thread := .query key video }
  | .query key video =>
    match s.table.rows.find? (urlSelects E.selectsOther s.info.torrentUrl) with
    | none => some { s with thread := .ended }
    | some r => some { s with info := populate r, thread := .save key video }
  | .save key video =>
    let (info, written) := AddToDownloadsThread.loaded
      (if s.hasMetadata key then E.torrentName key else none)
      { E.metadata with writable := fun path => s.hasMetadata key && E.metadata.writable path }
      video s.info
    some { s with
      table := if written then s.table.update info else s.table
      info := info
      thread := .ended }
  | .ended => none

def removalNext (E : RaceSetup) (s : Race) : Option Race :=
  match s.removal with
  | .idle => (s.table.find E.row.id).map fun r =>
      { s with removal := .look (populate r) (populate r).keys }
  | .look info (key :: keys) =>
    some { s with removal := if s.hasMetadata key then .remove info key else .look info keys }
  | .look info [] => some { s with removal := .delete info }
  | .remove info key => some { s.removeTorrent key with removal := .delete info }
  | .delete info => some { s with table := s.table.delete info, removal := .ended }
  | .ended => none

def next (E : RaceSetup) (s : Race) : RaceEvent → Option Race
  | .metadata key => (s.held key).map fun _ =>
      { s with held := Function.update s.held key (some true) }
  | .addTorrent handle =>
    match s.thread with
    | .add (key :: keys) =>
      if key = "" then none
      else some { s with
        -- a key that the session has is not added again
        held := if (s.held key).isSome then s.held else Function.update s.held key handle
        thread := .waiting key keys }
    | _ => none
  | .thread => s.threadNext E
  | .timeUp =>
    match s.thread with
    | .polled key keys => some { s.removeTorrent key with thread := .add keys }
    | _ => none
  | .interrupt =>
    match s.thread with
    | .waiting key _ => some { s.removeTorrent key with thread := .ended }
    -- the interrupt is swallowed there, and the thread goes on
    | .checking key video => some { s with thread := .query key video }
    | _ => none
  | .removal => s.removalNext E

/-- The thread starts on a download whose row is in the table.  The service has none of its
    torrents, or one of them with metadata. -/
structure Starts (E : RaceSetup) (s : Race) : Prop where
  row : s.table.find E.row.id = some E.row
  torrentFilePath : s.info.torrentFilePath = E.row.torrentFilePath
  torrentUrl : s.info.torrentUrl = E.row.torrentUrl
  torrentMagnet : s.info.torrentMagnet = E.row.torrentMagnet
  held : ∀ key, s.held key ≠ none → s.held key = some true ∧ key ∈ E.keys ∧ key ≠ ""
  one : ∀ key key', s.held key ≠ none → s.held key' ≠ none → key = key'
  thread : s.thread = .look E.keys
  removal : s.removal = .idle

def machine (E : RaceSetup) : Machine Race RaceEvent :=
  Machine.ofFun (Starts E) (next E)

/-- Both have ended. -/
def Ended (s : Race) : Prop :=
  s.thread = .ended ∧ s.removal = .ended

/-- Once both have ended, the service holds a torrent of the download only if the table has its
    row. -/
def Settled (E : RaceSetup) (s : Race) : Prop :=
  s.Ended → (∃ key ∈ E.keys, s.held key ≠ none) → (s.table.find E.row.id).isSome

end Race

/-- The removal will come upon a torrent that is held under a key. -/
def RemovalPoint.ComesUpon (key : String) : RemovalPoint → Prop
  | .idle => True
  | .look _ keys => key ∈ keys
  | .remove _ key' => key' = key
  | _ => False

namespace Race

/-- The key under which the thread gets hold of a torrent. -/
def obtains (s : Race) : RaceEvent → Option String
  | .thread =>
    match s.thread with
    | .look (key :: _) => if s.hasMetadata key then some key else none
    | .waiting key _ => if s.hasMetadata key then some key else none
    | _ => none
  | _ => none

/-- The thread gets hold of a torrent only while the removal still comes upon it: it has not
    asked for its key yet, or is about to remove it. -/
def Guard (s : Race) (e : RaceEvent) : Prop :=
  ∀ key, s.obtains e = some key → s.removal.ComesUpon key

end Race

/-! ### The download keeps its keys -/

/-- The object of the download, by its keys: the path may be chosen later, the others stay. -/
def RaceSetup.Same (E : RaceSetup) (info : DownloadInfo) : Prop :=
  (isEmpty E.row.torrentFilePath = true ∨ info.torrentFilePath = E.row.torrentFilePath) ∧
    info.torrentUrl = E.row.torrentUrl ∧ info.torrentMagnet = E.row.torrentMagnet

/-- The row of the download has its keys. -/
def RaceSetup.RowsSame (E : RaceSetup) (t : DownloadsTable) : Prop :=
  ∀ r ∈ t.rows, r.id = E.row.id → E.Same (populate r)

/-- The table has no row of the download. -/
def RaceSetup.NoRow (E : RaceSetup) (t : DownloadsTable) : Prop :=
  ∀ r ∈ t.rows, r.id ≠ E.row.id

section Tables

variable {E : RaceSetup} {t : DownloadsTable} {info : DownloadInfo}

/-- Every key that can be held is asked for through the row. -/
theorem RaceSetup.Same.mem_keys (h : E.Same info) {key : String} (hkey : key ∈ E.keys)
    (hne : key ≠ "") : key ∈ info.keys := by
  obtain ⟨hpath, hurl, hmagnet⟩ := h
  simp only [RaceSetup.keys, DownloadInfo.keys, List.mem_filterMap, populate] at hkey ⊢
  obtain ⟨o, ho, rfl⟩ := hkey
  refine ⟨_, ?_, rfl⟩
  rw [hurl, hmagnet]
  rcases hpath with hempty | hsame
  · -- the path was empty, so the key is one of the other two
    have hpath : some key ≠ E.row.torrentFilePath := by
      intro heq
      rw [← heq] at hempty
      exact hne (by simpa [isEmpty] using hempty)
    rcases List.mem_cons.mp ho with h | h
    · exact absurd h hpath
    · exact List.mem_cons_of_mem _ h
  · rwa [hsame]

/-- An object of the download that is written keeps its row. -/
theorem RaceSetup.RowsSame.update (h : E.RowsSame t)
    (hinfo : info.id = E.row.id → E.Same info) : E.RowsSame (t.update info) := by
  intro r hr hid
  obtain ⟨r₀, hr₀, ⟨heq, rfl⟩ | ⟨-, rfl⟩⟩ := DownloadsTable.mem_update hr
  · exact hinfo (heq ▸ hid)
  · exact h r hr₀ hid

/-- A deletion keeps the rows that it leaves. -/
theorem RaceSetup.RowsSame.delete (h : E.RowsSame t) (info : DownloadInfo) :
    E.RowsSame (t.delete info) :=
  fun r hr => h r (List.mem_of_mem_filter hr)

/-- No update brings a row back. -/
theorem RaceSetup.NoRow.update (h : E.NoRow t) (info : DownloadInfo) :
    E.NoRow (t.update info) := by
  intro r hr
  obtain ⟨r₀, hr₀, ⟨-, rfl⟩ | ⟨-, rfl⟩⟩ := DownloadsTable.mem_update hr
  · exact h r₀ hr₀
  · exact h r hr₀

/-- Nor does a deletion. -/
theorem RaceSetup.NoRow.delete (h : E.NoRow t) (info : DownloadInfo) : E.NoRow (t.delete info) :=
  fun r hr => h r (List.mem_of_mem_filter hr)

/-- Behind the deletion of the download there is no row of it. -/
theorem RaceSetup.noRow_delete (hid : info.id = E.row.id) : E.NoRow (t.delete info) := by
  intro r hr
  have hne := (List.mem_filter.mp hr).2
  rw [decide_eq_true_eq, hid] at hne
  exact hne

/-- The end of the thread keeps the keys. -/
theorem RaceSetup.Same.loaded (h : E.Same info) (torrentName : Option String)
    (files : MetadataFiles) (video : FileEntry) :
    E.Same (AddToDownloadsThread.loaded torrentName files video info).1 := by
  obtain ⟨size, heq⟩ := AddToDownloadsThread.loaded_fst_eq torrentName files video info
  obtain ⟨hpath, hurl, hmagnet⟩ := h
  rw [heq]
  refine ⟨?_, hurl, hmagnet⟩
  by_cases hempty : isEmpty E.row.torrentFilePath = true
  · exact .inl hempty
  · have hsame := hpath.resolve_left hempty
    rw [Bool.not_eq_true, ← hsame] at hempty
    exact .inr ((metadataPath_of_path torrentName hempty).trans hsame)

end Tables

/-! ### What every run keeps -/

/-- The keys a point of the thread still goes through. -/
def AddPoint.keys : AddPoint → List String
  | .look keys => keys
  | .add keys => keys
  | .waiting key keys => key :: keys
  | .polled key keys => key :: keys
  | _ => []

/-- The object the removal works on. -/
def RemovalPoint.info : RemovalPoint → Option DownloadInfo
  | .look info _ => some info
  | .remove info _ => some info
  | .delete info => some info
  | _ => none

namespace Race

/-- What every run keeps: the keys and the row are those of the download, and the removal deletes
    its row. -/
structure Facts (E : RaceSetup) (s : Race) : Prop where
  held : ∀ key, s.held key ≠ none → key ∈ E.keys ∧ key ≠ ""
  threadKeys : ∀ key ∈ s.thread.keys, key ∈ E.keys
  rows : E.RowsSame s.table
  info : s.info.id = E.row.id → E.Same s.info
  removalInfo : ∀ info, s.removal.info = some info → info.id = E.row.id
  removed : s.removal = .ended → E.NoRow s.table

variable {E : RaceSetup} {s s' : Race}

/-- At the start the keys are those of the row. -/
theorem Starts.facts (h : Starts E s) : Facts E s where
  held := fun key hkey => (h.held key hkey).2
  threadKeys := by
    intro key hkey
    rwa [h.thread] at hkey
  rows := by
    intro r hr hid
    have hrow := DownloadsTable.find_eq_some.mp h.row
    rw [DownloadsTable.eq_of_id_eq hr hrow.1 hid]
    exact ⟨.inr rfl, rfl, rfl⟩
  info := fun _ => ⟨.inr h.torrentFilePath, h.torrentUrl, h.torrentMagnet⟩
  removalInfo := by
    intro info hinfo
    simp [h.removal, RemovalPoint.info] at hinfo
  removed := by
    intro hended
    simp [h.removal] at hended

/-- What is held after a torrent is removed was held before, in the same way. -/
theorem held_of_removeTorrent {key key' : String}
    (h : (s.removeTorrent key).held key' ≠ none) :
    key' ≠ key ∧ (s.removeTorrent key).held key' = s.held key' := by
  by_cases heq : key' = key
  · subst heq
    exact absurd (removeTorrent_held_self s key') h
  · exact ⟨heq, removeTorrent_held_of_ne s heq⟩

/-- Nothing is held once the only torrent there was is removed. -/
theorem held_eq_none_of_removeTorrent {key : String}
    (hone : ∀ key', s.held key' ≠ none → key' = key) (key' : String) :
    (s.removeTorrent key).held key' = none := by
  by_contra hkey'
  obtain ⟨hne, heq⟩ := held_of_removeTorrent hkey'
  exact hne (hone key' (heq ▸ hkey'))

/-- The arrival of metadata adds no torrent. -/
theorem held_of_metadata {key key' : String} (hkey : s.held key ≠ none)
    (h : Function.update s.held key (some true) key' ≠ none) : s.held key' ≠ none := by
  by_cases heq : key' = key
  · exact heq ▸ hkey
  · rwa [Function.update_of_ne heq] at h

/-! ### One statement of the thread -/

end Race

/-- The thread has left `addTorrent`. -/
def AddPoint.Past : AddPoint → Prop
  | .look _ | .add _ | .waiting _ _ | .polled _ _ => False
  | _ => True

/-- Behind `addTorrent` the thread goes through no keys. -/
theorem AddPoint.Past.keys {point : AddPoint} (h : point.Past) : point.keys = [] := by
  cases point with
  | look | add | waiting | polled => exact h.elim
  | _ => rfl

namespace Race

/-- What a statement of the thread can do.  Behind `addTorrent` it moves on, reads a row into its
    object, writes its object or deletes its row. -/
inductive ThreadStep (E : RaceSetup) (s : Race) : Race → Prop
  | lookSome (key : String) (keys : List String) : s.thread = .look (key :: keys) →
      s.held key = some true → ThreadStep E s { s with thread := .select key }
  | lookNone (key : String) (keys : List String) : s.thread = .look (key :: keys) →
      s.held key ≠ some true → ThreadStep E s { s with thread := .look keys }
  | lookEnd : s.thread = .look [] → ThreadStep E s { s with thread := .add E.keys }
  | addSkip (keys : List String) : s.thread = .add ("" :: keys) →
      ThreadStep E s { s with thread := .add keys }
  | addEnd : s.thread = .add [] → ThreadStep E s { s with thread := .failed }
  | pollSome (key : String) (keys : List String) : s.thread = .waiting key keys →
      s.held key = some true → ThreadStep E s { s with thread := .select key }
  | pollNone (key : String) (keys : List String) : s.thread = .waiting key keys →
      s.held key ≠ some true → ThreadStep E s { s with thread := .polled key keys }
  | again (key : String) (keys : List String) : s.thread = .polled key keys →
      ThreadStep E s { s with thread := .waiting key keys }
  | move (point : AddPoint) : s.thread.Past → point.Past → ThreadStep E s { s with thread := point }
  | read (r : DownloadRow) (point : AddPoint) : s.thread.Past → point.Past → r ∈ s.table.rows →
      ThreadStep E s { s with info := populate r, thread := point }
  | write (info : DownloadInfo) (written : Bool) : s.thread.Past → info.id = s.info.id →
      (E.Same s.info → E.Same info) →
      ThreadStep E s { s with
        table := if written then s.table.update info else s.table
        info := info
        thread := .ended }
  | delete : s.thread.Past →
      ThreadStep E s { s with table := s.table.delete s.info, thread := .ended }

/-- **The statements of the thread**, one case for each point it can be at. -/
theorem threadStep_of_next (hstep : s.threadNext E = some s') : ThreadStep E s s' := by
  unfold threadNext at hstep
  cases hthread : s.thread with
  | look keys =>
    cases keys with
    | nil =>
      simp only [hthread, Option.some.injEq] at hstep
      exact hstep ▸ .lookEnd hthread
    | cons key keys =>
      simp only [hthread, Option.some.injEq] at hstep
      -- a torrent there whose metadata is known is taken at once
      by_cases hm : s.held key = some true
      · rw [if_pos (hasMetadata_eq_true.mpr hm)] at hstep
        exact hstep ▸ .lookSome key keys hthread hm
      · rw [if_neg (mt hasMetadata_eq_true.mp hm)] at hstep
        exact hstep ▸ .lookNone key keys hthread hm
  | add keys =>
    cases keys with
    | nil =>
      simp only [hthread, Option.some.injEq] at hstep
      exact hstep ▸ .addEnd hthread
    | cons key keys =>
      simp only [hthread] at hstep
      split_ifs at hstep with hempty
      subst hempty
      rw [Option.some.injEq] at hstep
      exact hstep ▸ .addSkip keys hthread
  | waiting key keys =>
    simp only [hthread, Option.some.injEq] at hstep
    by_cases hm : s.held key = some true
    · rw [if_pos (hasMetadata_eq_true.mpr hm)] at hstep
      exact hstep ▸ .pollSome key keys hthread hm
    · rw [if_neg (mt hasMetadata_eq_true.mp hm)] at hstep
      exact hstep ▸ .pollNone key keys hthread hm
  | polled key keys =>
    simp only [hthread, Option.some.injEq] at hstep
    exact hstep ▸ .again key keys hthread
  -- from here on the points are past the search for a torrent
  | failed =>
    simp only [hthread, Option.some.injEq] at hstep
    have hpast : s.thread.Past := by rw [hthread]; trivial
    exact hstep ▸ .write _ true hpast rfl id
  | select key =>
    have hpast : s.thread.Past := by rw [hthread]; trivial
    simp only [hthread] at hstep
    split at hstep
    · rw [Option.some.injEq] at hstep
      exact hstep ▸ .move .drop hpast trivial
    · rename_i video _
      rw [Option.some.injEq] at hstep
      exact hstep ▸ .move (.checking key video) hpast trivial
  | drop =>
    have hpast : s.thread.Past := by rw [hthread]; trivial
    simp only [hthread, Option.some.injEq] at hstep
    exact hstep ▸ .delete hpast
  | checking key video =>
    have hpast : s.thread.Past := by rw [hthread]; trivial
    simp only [hthread, Option.some.injEq] at hstep
    exact hstep ▸ .move (.query key video) hpast trivial
  | query key video =>
    have hpast : s.thread.Past := by rw [hthread]; trivial
    simp only [hthread] at hstep
    split at hstep
    · rw [Option.some.injEq] at hstep
      exact hstep ▸ .move .ended hpast trivial
    · rename_i r hfind
      rw [Option.some.injEq] at hstep
      exact hstep ▸ .read r (.save key video) hpast trivial (List.mem_of_find?_eq_some hfind)
  | save key video =>
    have hpast : s.thread.Past := by rw [hthread]; trivial
    simp only [hthread, Option.some.injEq] at hstep
    exact hstep ▸ .write _ _ hpast (Operation.run_id (.loaded _ _ video) s.info)
      fun hsame => hsame.loaded _ _ video
  | ended => simp [hthread] at hstep

/-! ### One step of a run -/

/-- What a statement of the removal can do. -/
inductive RemovalStep (E : RaceSetup) (s : Race) : Race → Prop
  | shown (r : DownloadRow) : s.removal = .idle → r ∈ s.table.rows → r.id = E.row.id →
      RemovalStep E s { s with removal := .look (populate r) (populate r).keys }
  | lookSome (info : DownloadInfo) (key : String) (keys : List String) :
      s.removal = .look info (key :: keys) → s.held key = some true →
      RemovalStep E s { s with removal := .remove info key }
  | lookNone (info : DownloadInfo) (key : String) (keys : List String) :
      s.removal = .look info (key :: keys) → s.held key ≠ some true →
      RemovalStep E s { s with removal := .look info keys }
  | lookEnd (info : DownloadInfo) : s.removal = .look info [] →
      RemovalStep E s { s with removal := .delete info }
  | remove (info : DownloadInfo) (key : String) : s.removal = .remove info key →
      RemovalStep E s { s.removeTorrent key with removal := .delete info }
  | delete (info : DownloadInfo) : s.removal = .delete info →
      RemovalStep E s { s with table := s.table.delete info, removal := .ended }

/-- **The statements of the removal.** -/
theorem removalStep_of_next (hstep : s.removalNext E = some s') : RemovalStep E s s' := by
  unfold removalNext at hstep
  cases hremoval : s.removal with
  | idle =>
    simp only [hremoval, Option.map_eq_some_iff] at hstep
    obtain ⟨r, hfind, rfl⟩ := hstep
    obtain ⟨hr, hid⟩ := DownloadsTable.find_eq_some.mp hfind
    exact .shown r hremoval hr hid
  | look info keys =>
    cases keys with
    | nil =>
      simp only [hremoval, Option.some.injEq] at hstep
      exact hstep ▸ .lookEnd info hremoval
    | cons key keys =>
      simp only [hremoval, Option.some.injEq] at hstep
      -- the removal finds only a torrent whose metadata is known
      by_cases hm : s.held key = some true
      · rw [if_pos (hasMetadata_eq_true.mpr hm)] at hstep
        exact hstep ▸ .lookSome info key keys hremoval hm
      · rw [if_neg (mt hasMetadata_eq_true.mp hm)] at hstep
        exact hstep ▸ .lookNone info key keys hremoval hm
  | remove info key =>
    simp only [hremoval, Option.some.injEq] at hstep
    exact hstep ▸ .remove info key hremoval
  | delete info =>
    simp only [hremoval, Option.some.injEq] at hstep
    exact hstep ▸ .delete info hremoval
  | ended => simp [hremoval] at hstep

/-- What an event can do. -/
inductive Step (E : RaceSetup) (s : Race) : RaceEvent → Race → Prop
  | metadata (key : String) : s.held key ≠ none →
      Step E s (.metadata key) { s with held := Function.update s.held key (some true) }
  | addTorrent (key : String) (keys : List String) (handle : Option Bool) :
      s.thread = .add (key :: keys) → key ≠ "" →
      Step E s (.addTorrent handle) { s with
        held := if (s.held key).isSome then s.held else Function.update s.held key handle
        thread := .waiting key keys }
  | thread {s' : Race} : ThreadStep E s s' → s.threadNext E = some s' → Step E s .thread s'
  | timeUp (key : String) (keys : List String) : s.thread = .polled key keys →
      Step E s .timeUp { s.removeTorrent key with thread := .add keys }
  | interruptWait (key : String) (keys : List String) : s.thread = .waiting key keys →
      Step E s .interrupt { s.removeTorrent key with thread := .ended }
  | interruptCheck (key : String) (video : FileEntry) : s.thread = .checking key video →
      Step E s .interrupt { s with thread := .query key video }
  | removal {s' : Race} : RemovalStep E s s' → Step E s .removal s'

/-- **The events of a run**, with the two kinds of statements among them. -/
theorem step_of_next {e : RaceEvent} (hstep : (machine E).step s e s') : Step E s e s' := by
  change s.next E e = some s' at hstep
  cases e with
  | metadata key =>
    simp only [next, Option.map_eq_some_iff] at hstep
    obtain ⟨b, hheld, rfl⟩ := hstep
    exact .metadata key (by simp [hheld])
  | addTorrent handle =>
    simp only [next] at hstep
    split at hstep
    · rename_i key keys hthread
      -- the empty key is skipped by the thread, so it is never added
      by_cases hempty : key = ""
      · simp [hempty] at hstep
      · rw [if_neg hempty, Option.some.injEq] at hstep
        exact hstep ▸ .addTorrent key keys handle hthread hempty
    · simp at hstep
  | thread => exact .thread (threadStep_of_next hstep) hstep
  | timeUp =>
    simp only [next] at hstep
    split at hstep
    · rename_i key keys hthread
      rw [Option.some.injEq] at hstep
      exact hstep ▸ .timeUp key keys hthread
    · simp at hstep
  | interrupt =>
    simp only [next] at hstep
    split at hstep
    · rename_i key keys hthread
      rw [Option.some.injEq] at hstep
      exact hstep ▸ .interruptWait key keys hthread
    · rename_i key video hthread
      rw [Option.some.injEq] at hstep
      exact hstep ▸ .interruptCheck key video hthread
    · simp at hstep
  | removal => exact .removal (removalStep_of_next hstep)

/-! ### Facts of every run -/

/-- A statement of the thread holds and removes nothing. -/
theorem ThreadStep.frame (h : ThreadStep E s s') : s'.held = s.held ∧ s'.removal = s.removal := by
  cases h <;> exact ⟨rfl, rfl⟩

/-- A statement of the removal leaves the thread and its object alone. -/
theorem RemovalStep.frame (h : RemovalStep E s s') : s'.thread = s.thread ∧ s'.info = s.info := by
  cases h <;> exact ⟨rfl, rfl⟩

/-- A torrent that is held after a statement of the removal was held before, in the same way. -/
theorem RemovalStep.held (h : RemovalStep E s s') {key : String} (hkey : s'.held key ≠ none) :
    s'.held key = s.held key := by
  cases h with
  | remove info key' => exact (held_of_removeTorrent hkey).2
  | _ => rfl

/-- The thread goes on with keys of the download. -/
theorem ThreadStep.keys (h : ThreadStep E s s') (hkeys : ∀ key ∈ s.thread.keys, key ∈ E.keys) :
    ∀ key ∈ s'.thread.keys, key ∈ E.keys := by
  cases h with
  | lookSome key keys hthread => simp [AddPoint.keys]
  | lookNone key keys hthread =>
    rw [hthread] at hkeys
    exact fun k hk => hkeys k (List.mem_cons_of_mem _ hk)
  | lookEnd hthread => exact fun _ hk => hk
  | addSkip keys hthread =>
    rw [hthread] at hkeys
    exact fun k hk => hkeys k (List.mem_cons_of_mem _ hk)
  | addEnd hthread => simp [AddPoint.keys]
  | pollSome key keys hthread => simp [AddPoint.keys]
  | pollNone key keys hthread =>
    rw [hthread] at hkeys
    exact hkeys
  | again key keys hthread =>
    rw [hthread] at hkeys
    exact hkeys
  | move point _ hpast => simp [hpast.keys]
  | read r point _ hpast => simp [hpast.keys]
  | write => simp [AddPoint.keys]
  | delete => simp [AddPoint.keys]

/-- A statement of the thread keeps the facts. -/
theorem Facts.threadStep (h : Facts E s) (hstep : ThreadStep E s s') : Facts E s' := by
  obtain ⟨hheld, hremoval⟩ := hstep.frame
  have hkeys := hstep.keys h.threadKeys
  -- the rows, the object of the thread and the absence of the row; a write is by id
  have htables : E.RowsSame s'.table ∧ (s'.info.id = E.row.id → E.Same s'.info) ∧
      (E.NoRow s.table → E.NoRow s'.table) := by
    cases hstep with
    | read r point _ _ hr => exact ⟨h.rows, h.rows r hr, id⟩
    | write info written _ hid hsame =>
      have hinfo : info.id = E.row.id → E.Same info := fun heq => hsame (h.info (hid ▸ heq))
      refine ⟨?_, hinfo, ?_⟩
      · cases written with
        | true => exact h.rows.update hinfo
        | false => exact h.rows
      · intro hrow
        cases written with
        | true => exact hrow.update info
        | false => exact hrow
    | delete => exact ⟨h.rows.delete _, h.info, fun hrow => hrow.delete _⟩
    | _ => exact ⟨h.rows, h.info, id⟩
  exact ⟨hheld ▸ h.held, hkeys, htables.1, htables.2.1, hremoval ▸ h.removalInfo,
    fun hended => htables.2.2 (h.removed (hremoval ▸ hended))⟩

/-- So does a statement of the removal, which deletes the row at its end. -/
theorem Facts.removalStep (h : Facts E s) (hstep : RemovalStep E s s') : Facts E s' := by
  obtain ⟨hthread, hinfo⟩ := hstep.frame
  have hheld : ∀ key, s'.held key ≠ none → key ∈ E.keys ∧ key ≠ "" :=
    fun key hkey => h.held key (hstep.held hkey ▸ hkey)
  have hrest : E.RowsSame s'.table ∧
      (∀ info, s'.removal.info = some info → info.id = E.row.id) ∧
      (s'.removal = .ended → E.NoRow s'.table) := by
    have hinfos := h.removalInfo
    cases hstep with
    | shown r _ _ hid =>
      refine ⟨h.rows, ?_, by simp⟩
      rintro info ⟨⟩
      exact hid
    | lookSome info key keys hremoval =>
      rw [hremoval] at hinfos
      exact ⟨h.rows, hinfos, by simp⟩
    | lookNone info key keys hremoval =>
      rw [hremoval] at hinfos
      exact ⟨h.rows, hinfos, by simp⟩
    | lookEnd info hremoval =>
      rw [hremoval] at hinfos
      exact ⟨h.rows, hinfos, by simp⟩
    | remove info key hremoval =>
      rw [hremoval] at hinfos
      exact ⟨h.rows, hinfos, by simp⟩
    -- the row of the download is gone, and stays gone
    | delete info hremoval =>
      rw [hremoval] at hinfos
      exact ⟨h.rows.delete info, by simp [RemovalPoint.info],
        fun _ => RaceSetup.noRow_delete (hinfos info rfl)⟩
  exact ⟨hheld, hthread ▸ h.threadKeys, hrest.1, hinfo ▸ h.info, hrest.2.1, hrest.2.2⟩

/-- So does every event. -/
theorem Facts.step (h : Facts E s) {e : RaceEvent} (hstep : Step E s e s') : Facts E s' := by
  have hkeys := h.threadKeys
  cases hstep with
  | metadata key hsome =>
    exact { h with held := fun key' hkey' => h.held key' (held_of_metadata hsome hkey') }
  | addTorrent key keys handle hthread hne =>
    rw [hthread] at hkeys
    refine { h with held := ?_, threadKeys := hkeys }
    intro key' hkey'
    by_cases heq : key' = key
    · exact heq ▸ ⟨hkeys key List.mem_cons_self, hne⟩
    · refine h.held key' fun hnone => hkey' ?_
      -- another key keeps its handle, or has none as before
      show (if _ then _ else _ : String → Option Bool) key' = none
      split_ifs
      · exact hnone
      · rwa [Function.update_of_ne heq]
  | thread hthread => exact h.threadStep hthread
  | timeUp key keys hthread =>
    rw [hthread] at hkeys
    exact { h with
      held := fun key' hkey' => h.held key' ((held_of_removeTorrent hkey').2 ▸ hkey')
      threadKeys := fun k hk => hkeys k (List.mem_cons_of_mem _ hk) }
  | interruptWait key keys hthread =>
    exact { h with
      held := fun key' hkey' => h.held key' ((held_of_removeTorrent hkey').2 ▸ hkey')
      threadKeys := by simp [AddPoint.keys] }
  | interruptCheck key video hthread => exact { h with threadKeys := by simp [AddPoint.keys] }
  | removal hremoval => exact h.removalStep hremoval

/-- The facts hold in every run. -/
theorem facts_of_reachable (h : (machine E).Reachable s) : Facts E s :=
  h.invariant (fun _ hstarts => Starts.facts hstarts) fun _ _ _ hfacts hstep =>
    hfacts.step (step_of_next hstep)

/-! ### Runs under the guard -/

/-- What is held, by where the thread is: in `getAvailableTorrentFile` nothing but what it will
    still find, in `isTorrentAdded` nothing but what it has added, and afterwards nothing but what
    the removal comes upon. -/
def Stage (s : Race) : Prop :=
  match s.thread with
  | .look keys => ∀ key, s.held key ≠ none → s.held key = some true ∧ key ∈ keys
  | .add _ => ∀ key, s.held key = none
  | .waiting key _ => ∀ key', s.held key' ≠ none → key' = key
  | .polled key _ => ∀ key', s.held key' ≠ none → key' = key
  | _ => ∀ key, s.held key ≠ none → s.held key = some true ∧ s.removal.ComesUpon key

/-- Behind `addTorrent` the removal comes upon all that is held. -/
theorem stage_of_past (h : s.thread.Past) : Stage s ↔
    ∀ key, s.held key ≠ none → s.held key = some true ∧ s.removal.ComesUpon key := by
  unfold Stage
  cases hthread : s.thread with
  | look | add | waiting | polled =>
    rw [hthread] at h
    exact h.elim
  | _ => exact Iff.rfl

/-- The invariant of the runs under the guard: what every run keeps, one torrent at most, and the
    stage. -/
structure Inv (E : RaceSetup) (s : Race) : Prop extends Facts E s where
  one : ∀ key key', s.held key ≠ none → s.held key' ≠ none → key = key'
  stage : Stage s

/-- At the start nothing is held but what the thread will find. -/
theorem Starts.inv (h : Starts E s) : Inv E s where
  toFacts := h.facts
  one := h.one
  stage := by
    unfold Stage
    rw [h.thread]
    exact fun key hkey => ⟨(h.held key hkey).1, (h.held key hkey).2.1⟩

/-- The thread gets hold of the one torrent that is held. -/
theorem Inv.obtained (h : Inv E s) {key : String} (hsome : s.held key = some true)
    (hcomes : s.removal.ComesUpon key) :
    ∀ key', s.held key' ≠ none → s.held key' = some true ∧ s.removal.ComesUpon key' := by
  intro key' hkey'
  have heq : key' = key := h.one key' key hkey' (by simp [hsome])
  exact heq ▸ ⟨hsome, hcomes⟩

/-- A statement of the thread that meets the guard keeps the stage. -/
theorem Inv.threadStep (h : Inv E s) (hguard : s.Guard .thread) (hstep : ThreadStep E s s') :
    Stage s' := by
  have hstage := h.stage
  have hobtains : ∀ key, s.obtains .thread = some key → s.removal.ComesUpon key := hguard
  cases hstep with
  | lookSome key keys hthread hm =>
    exact h.obtained hm (hobtains key (by simp [obtains, hthread, hm]))
  | lookNone key keys hthread hm =>
    simp only [Stage, hthread] at hstage
    intro key' hkey'
    obtain ⟨hsome, hmem⟩ := hstage key' hkey'
    -- the key that was just asked for has no metadata, so it is another one that is held
    refine ⟨hsome, (List.mem_cons.mp hmem).resolve_left ?_⟩
    rintro rfl
    exact hm hsome
  | lookEnd hthread =>
    simp only [Stage, hthread] at hstage
    intro key
    by_contra hkey
    exact absurd (hstage key hkey).2 List.not_mem_nil
  | addSkip keys hthread =>
    simp only [Stage, hthread] at hstage
    exact hstage
  | addEnd hthread =>
    simp only [Stage, hthread] at hstage
    exact fun key hkey => absurd (hstage key) hkey
  | pollSome key keys hthread hm =>
    exact h.obtained hm (hobtains key (by simp [obtains, hthread, hm]))
  | pollNone key keys hthread =>
    simp only [Stage, hthread] at hstage
    exact hstage
  | again key keys hthread =>
    simp only [Stage, hthread] at hstage
    exact hstage
  | move point hpast hpast' => exact (stage_of_past hpast').mpr ((stage_of_past hpast).mp hstage)
  | read r point hpast hpast' =>
    exact (stage_of_past hpast').mpr ((stage_of_past hpast).mp hstage)
  | write info written hpast => exact (stage_of_past hpast).mp hstage
  | delete hpast => exact (stage_of_past hpast).mp hstage

/-- Once the thread has left `addTorrent`, the removal goes on to come upon what is held. -/
theorem Inv.comesUpon (h : Inv E s) (hpast : s.thread.Past) (hstep : RemovalStep E s s')
    {key : String} (hkey : s'.held key ≠ none) : s'.removal.ComesUpon key := by
  have hstage := (stage_of_past hpast).mp h.stage
  have hbefore : s.held key ≠ none := hstep.held hkey ▸ hkey
  obtain ⟨hsome, hcomes⟩ := hstage key hbefore
  cases hstep with
  | shown r hremoval hr hid =>
    obtain ⟨hmem, hne⟩ := h.held key hbefore
    exact (h.rows r hr hid).mem_keys hmem hne
  | lookSome info key' keys hremoval hm => exact h.one key' key (by simp [hm]) hbefore
  -- the metadata of the thread's torrent is known, so its key is not the one passed over
  | lookNone info key' keys hremoval hm =>
    rw [hremoval] at hcomes
    refine (List.mem_cons.mp hcomes).resolve_left ?_
    rintro rfl
    exact hm hsome
  | lookEnd info hremoval =>
    rw [hremoval] at hcomes
    exact absurd hcomes List.not_mem_nil
  | remove info key' hremoval =>
    rw [hremoval] at hcomes
    exact absurd hcomes.symm (held_of_removeTorrent hkey).1
  | delete info hremoval =>
    rw [hremoval] at hcomes
    exact hcomes.elim

/-- A statement of the removal takes the torrent away, or comes upon it still. -/
theorem Inv.removalStep (h : Inv E s) (hstep : RemovalStep E s s') : Stage s' := by
  have hheld : ∀ key, s'.held key ≠ none → s'.held key = s.held key ∧ s.held key ≠ none :=
    fun key hkey => ⟨hstep.held hkey, hstep.held hkey ▸ hkey⟩
  have hstage := h.stage
  have hthread := hstep.frame.1
  by_cases hpast : s.thread.Past
  · -- the torrent the thread is left with is one the removal still comes upon
    have hafter := (stage_of_past hpast).mp hstage
    refine (stage_of_past (hthread ▸ hpast)).mpr fun key hkey => ?_
    exact ⟨(hheld key hkey).1.trans (hafter key (hheld key hkey).2).1,
      h.comesUpon hpast hstep hkey⟩
  · unfold Stage at hstage ⊢
    rw [hthread]
    cases hpoint : s.thread with
    | look keys =>
      rw [hpoint] at hstage
      intro key hkey
      obtain ⟨hsome, hmem⟩ := hstage key (hheld key hkey).2
      exact ⟨(hheld key hkey).1.trans hsome, hmem⟩
    | add keys =>
      rw [hpoint] at hstage
      intro key
      by_contra hkey
      exact (hheld key hkey).2 (hstage key)
    | waiting key keys =>
      rw [hpoint] at hstage
      exact fun key' hkey' => hstage key' (hheld key' hkey').2
    | polled key keys =>
      rw [hpoint] at hstage
      exact fun key' hkey' => hstage key' (hheld key' hkey').2
    | _ => simp [hpoint, AddPoint.Past] at hpast

/-- The arrival of metadata. -/
theorem Inv.metadata (h : Inv E s) {key : String} (hkey : s.held key ≠ none) :
    Stage { s with held := Function.update s.held key (some true) } := by
  have hstage := h.stage
  have hheld : ∀ key', Function.update s.held key (some true) key' ≠ none →
      s.held key' ≠ none := fun _ => held_of_metadata hkey
  have hsome : ∀ key', s.held key' = some true →
      Function.update s.held key (some true) key' = some true := by
    intro key' hkey'
    by_cases heq : key' = key
    · rw [heq, Function.update_self]
    · rwa [Function.update_of_ne heq]
  unfold Stage at hstage ⊢
  cases hpoint : s.thread with
  | look keys =>
    rw [hpoint] at hstage
    exact fun key' hkey' => (hstage key' (hheld key' hkey')).imp_left (hsome key')
  -- nothing is held while keys are tried, so no metadata can come
  | add keys =>
    rw [hpoint] at hstage
    exact absurd (hstage key) hkey
  | waiting key' keys =>
    rw [hpoint] at hstage
    exact fun key'' hkey'' => hstage key'' (hheld key'' hkey'')
  | polled key' keys =>
    rw [hpoint] at hstage
    exact fun key'' hkey'' => hstage key'' (hheld key'' hkey'')
  | _ =>
    rw [hpoint] at hstage
    exact fun key' hkey' => (hstage key' (hheld key' hkey')).imp_left (hsome key')

/-- **Every event that meets the guard keeps the invariant.** -/
theorem Inv.step (h : Inv E s) {e : RaceEvent} (hguard : s.Guard e) (hstep : Step E s e s') :
    Inv E s' := by
  have hfacts := h.toFacts.step hstep
  have hstage := h.stage
  cases hstep with
  | metadata key hkey =>
    refine ⟨hfacts, fun k k' hk hk' => ?_, h.metadata hkey⟩
    exact h.one k k' (held_of_metadata hkey hk) (held_of_metadata hkey hk')
  | addTorrent key keys handle hthread hne =>
    simp only [Stage, hthread] at hstage
    -- nothing was held, so what is held now is the torrent that was added
    have hone : ∀ key', (if (s.held key).isSome then s.held
        else Function.update s.held key handle) key' ≠ none → key' = key := by
      intro key' hkey'
      by_contra heq
      simp [hstage key, Function.update_of_ne heq, hstage key'] at hkey'
    exact ⟨hfacts, fun k k' hk hk' => (hone k hk).trans (hone k' hk').symm, hone⟩
  | thread hthread =>
    refine ⟨hfacts, ?_, h.threadStep hguard hthread⟩
    rw [hthread.frame.1]
    exact h.one
  | timeUp key keys hthread =>
    simp only [Stage, hthread] at hstage
    have hnone := held_eq_none_of_removeTorrent hstage
    exact ⟨hfacts, fun k _ hk => absurd (hnone k) hk, hnone⟩
  | interruptWait key keys hthread =>
    simp only [Stage, hthread] at hstage
    have hnone := held_eq_none_of_removeTorrent hstage
    exact ⟨hfacts, fun k _ hk => absurd (hnone k) hk, fun k hk => absurd (hnone k) hk⟩
  | interruptCheck key video hthread =>
    have hpast : s.thread.Past := by rw [hthread]; trivial
    exact ⟨hfacts, h.one, (stage_of_past hpast).mp hstage⟩
  | removal hremoval =>
    refine ⟨hfacts, fun k k' hk hk' => h.one k k' ?_ ?_, h.removalStep hremoval⟩
    · exact hremoval.held hk ▸ hk
    · exact hremoval.held hk' ▸ hk'

/-- In a run under the guard nothing is held once both have ended. -/
theorem Inv.settled (h : Inv E s) : Settled E s := by
  rintro ⟨hthread, hremoval⟩ ⟨key, -, hkey⟩
  have hpast : s.thread.Past := by rw [hthread]; trivial
  have hcomes := ((stage_of_past hpast).mp h.stage key hkey).2
  rw [hremoval] at hcomes
  exact hcomes.elim

/-! ### A step against the guard -/

/-- The thread has a torrent that the removal will not come upon. -/
structure Lost (key : String) (s : Race) : Prop where
  held : s.held key = some true
  past : s.thread.Past
  missed : ¬s.removal.ComesUpon key

/-- A step against the guard leaves a torrent behind. -/
theorem lost_of_not_guard {e : RaceEvent} (hguard : ¬s.Guard e) (hfacts : Facts E s)
    (hstep : Step E s e s') : ∃ key ∈ E.keys, Lost key s' := by
  unfold Guard at hguard
  push Not at hguard
  obtain ⟨key, hobtains, hmissed⟩ := hguard
  have hkeys := hfacts.threadKeys
  -- only the thread obtains a torrent, in its search or while it polls
  cases hstep with
  | thread hthread hnext =>
    unfold obtains at hobtains
    unfold threadNext at hnext
    cases hpoint : s.thread with
    | look keys =>
      cases keys with
      | nil => simp [hpoint] at hobtains
      | cons key' keys =>
        simp only [hpoint] at hobtains hnext
        split_ifs at hobtains with hm
        rw [Option.some.injEq] at hobtains
        subst hobtains
        rw [if_pos hm, Option.some.injEq] at hnext
        subst hnext
        rw [hpoint] at hkeys
        exact ⟨key', hkeys key' List.mem_cons_self, hasMetadata_eq_true.mp hm, trivial, hmissed⟩
    | waiting key' keys =>
      simp only [hpoint] at hobtains hnext
      split_ifs at hobtains with hm
      rw [Option.some.injEq] at hobtains
      subst hobtains
      rw [if_pos hm, Option.some.injEq] at hnext
      subst hnext
      rw [hpoint] at hkeys
      exact ⟨key', hkeys key' List.mem_cons_self, hasMetadata_eq_true.mp hm, trivial, hmissed⟩
    | _ => simp [hpoint] at hobtains
  | _ => simp [obtains] at hobtains

/-- The thread does not give back a torrent that it has. -/
theorem Lost.threadStep {key : String} (h : Lost key s) (hstep : ThreadStep E s s') :
    Lost key s' := by
  obtain ⟨hheld, hremoval⟩ := hstep.frame
  refine ⟨hheld ▸ h.held, ?_, hremoval ▸ h.missed⟩
  have hpast := h.past
  cases hstep with
  | move point _ hpast' => exact hpast'
  | read r point _ hpast' => exact hpast'
  | write => trivial
  | delete => trivial
  | lookSome | pollSome | addEnd => trivial
  | lookNone _ _ hthread | lookEnd hthread | addSkip _ hthread | pollNone _ _ hthread
  | again _ _ hthread =>
    rw [hthread] at hpast
    exact hpast.elim

/-- And the removal goes past it. -/
theorem Lost.removalStep {key : String} (h : Lost key s) (hstep : RemovalStep E s s') :
    Lost key s' := by
  have hmissed := h.missed
  have hpast : s'.thread.Past := hstep.frame.1 ▸ h.past
  cases hstep with
  | shown r hremoval => exact absurd (hremoval ▸ trivial) hmissed
  | lookSome info key' keys hremoval =>
    rw [hremoval] at hmissed
    exact ⟨h.held, hpast, fun heq => hmissed (heq ▸ List.mem_cons_self)⟩
  | lookNone info key' keys hremoval =>
    rw [hremoval] at hmissed
    exact ⟨h.held, hpast, fun hmem => hmissed (List.mem_cons_of_mem _ hmem)⟩
  | lookEnd info hremoval => exact ⟨h.held, hpast, id⟩
  | remove info key' hremoval =>
    rw [hremoval] at hmissed
    refine ⟨?_, hpast, id⟩
    exact (removeTorrent_held_of_ne s (Ne.symm hmissed)).trans h.held
  | delete info hremoval => exact ⟨h.held, hpast, id⟩

/-- A torrent that is left behind stays so. -/
theorem Lost.step {key : String} (h : Lost key s) {e : RaceEvent} (hstep : Step E s e s') :
    Lost key s' := by
  have hpast := h.past
  cases hstep with
  | metadata key' =>
    refine ⟨?_, hpast, h.missed⟩
    by_cases heq : key = key'
    · subst heq
      exact Function.update_self _ _ _
    · exact (Function.update_of_ne heq _ _).trans h.held
  | thread hthread => exact h.threadStep hthread
  | interruptCheck key' video => exact ⟨h.held, trivial, h.missed⟩
  | removal hremoval => exact h.removalStep hremoval
  -- these happen before the thread has its torrent
  | addTorrent _ _ _ hthread | timeUp _ _ hthread | interruptWait _ _ hthread =>
    rw [hthread] at hpast
    exact hpast.elim

/-- Once both have ended, a torrent that is left behind has no row. -/
theorem Lost.not_settled {key : String} (h : Lost key s) (hkey : key ∈ E.keys)
    (hfacts : Facts E s) (hended : s.Ended) : ¬Settled E s := by
  intro hsettled
  have hsome := hsettled hended ⟨key, hkey, by simp [h.held]⟩
  obtain ⟨r, hr⟩ := Option.isSome_iff_exists.mp hsome
  obtain ⟨hmem, hid⟩ := DownloadsTable.find_eq_some.mp hr
  exact hfacts.removed hended.2 r hmem hid

/-! ### Which runs end right -/

/-- **A download the user deleted does not go on** as long as the thread gets hold of a torrent
    only while the removal still comes upon it; and a run that has once gone against that leaves a
    torrent without a row, however it goes on. -/
theorem settled_of_guard (E : RaceSetup) :
    (∀ s, (machine E).RunUnder (fun _ => True) Guard s → Settled E s) ∧
    (∀ s e s' t, (machine E).Reachable s → ¬s.Guard e → (machine E).step s e s' →
      ((machine E).goingOn s').Reachable t → t.Ended → ¬Settled E t) := by
  constructor
  · intro s hrun
    have hinv : Inv E s := hrun.invariant (fun _ hstarts _ => Starts.inv hstarts)
      fun _ _ _ hinv hguard hstep => hinv.step hguard (step_of_next hstep)
    exact hinv.settled
  · intro s e s' t hreach hguard hstep hgoingOn hended
    obtain ⟨key, hkey, hlost⟩ :=
      lost_of_not_guard hguard (facts_of_reachable hreach) (step_of_next hstep)
    have hlost' : Lost key t := hgoingOn.goingOn_invariant hlost
      fun _ _ _ hlost hstep => hlost.step (step_of_next hstep)
    exact hlost'.not_settled hkey (facts_of_reachable ((hreach.next hstep).trans hgoingOn)) hended

/-- A download of one url, whose torrent has one file. -/
def oneUrl : RaceSetup where
  row := .ofInfo 1 { directory := "/d", torrentUrl := some "http://t" }
  files := fun _ => [⟨"v.mp4", 7⟩]
  torrentName := fun _ => none
  metadata := ⟨fun _ => false, fun _ => true⟩
  selectsOther := fun _ _ => false

/-- The thread starts, and nothing is held. -/
def oneUrlStart : Race where
  held := fun _ => none
  table := ⟨[oneUrl.row], List.pairwise_singleton _ _⟩
  info := { directory := "/d", torrentUrl := some "http://t" }
  thread := .look oneUrl.keys
  removal := .idle

/-- The removal runs while the thread waits for the metadata.  The thread then finds no row for
    its torrent, and leaves it. -/
theorem deleted_download_goes_on : ∃ s, (machine oneUrl).Reachable s ∧ ¬Settled oneUrl s := by
  have hrun : (Machine.runEvents (next oneUrl) oneUrlStart
      [.thread, .thread, .addTorrent (some false), .removal, .removal, .removal, .removal,
        .metadata "http://t", .thread, .thread, .thread, .thread]).map
        (fun s => (s.thread, s.removal, s.held "http://t", s.table.rows))
      = some (.ended, .ended, some true, []) := by
    decide +kernel
  have hstarts : Starts oneUrl oneUrlStart :=
    { row := by decide +kernel
      torrentFilePath := rfl
      torrentUrl := rfl
      torrentMagnet := rfl
      held := fun _ hkey => absurd rfl hkey
      one := fun _ _ hkey => absurd rfl hkey
      thread := rfl
      removal := rfl }
  obtain ⟨s, hreach, heq⟩ := Machine.Reachable.exists_of_runEvents
    (show (machine oneUrl).Reachable _ from .start hstarts) hrun
  simp only [Prod.mk.injEq] at heq
  obtain ⟨hthread, hremoval, hheld, hrows⟩ := heq
  refine ⟨s, hreach, fun h => ?_⟩
  -- the torrent is held and no row is left
  have hsome := h ⟨hthread, hremoval⟩ ⟨"http://t", by decide +kernel, by simp [hheld]⟩
  simp [DownloadsTable.find, hrows] at hsome

end Race

end PopcornTime.Android
