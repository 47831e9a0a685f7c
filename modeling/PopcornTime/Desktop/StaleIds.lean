import PopcornTime.Desktop.DeleteTorrent
import PopcornTime.Desktop.TorrentInfo
import PopcornTime.Lib.Machine

namespace PopcornTime.Desktop

open PopcornTime

/-!
# Desktop streamer — ids that have gone stale

An id is stale if it has no entry in `tMap`, or one whose handle has become invalid.  `getAux` answers
a null pointer for it.  Four of the entry points look at the pointer first; `seekInFile` and
`isRangeDownloaded` do not.

* `getFileUrl` — the url of a torrent, with its overload for a buffer.
* `EntryPoint` — a call of any of them, its answer and its error value.
* `staleIds_safe_iff` — what is safe for one call in any state, and for a run.
-/

/-- What `getFileUrl` asks of the file system and of the metadata. -/
structure FilePaths where
  tempDir : String
  separator : String
  /-- `file_at(index).path` -/
  path : FileStorage → ℕ → String
  isExistsAndNotEmpty : String → Bool

/-- The streamer with the `fileUri` of each of its torrents. -/
structure UriStreamerok extends Streamerok where
  fileUri : ℤ → String

namespace UriStreamerok

/-- `getFileUrl` of an id. -/
def getFileUrl (E : FilePaths) (s : UriStreamerok) (torrentId : ℤ) : String × UriStreamerok :=
  match s.getAux torrentId with
  | (none, aux) => ("", { s with toStreamerok := aux })
  | (some tInf, _) =>
    -- the url of an earlier call is given again
    if s.fileUri torrentId ≠ "" then (s.fileUri torrentId, s)
    else if !tInf.canGetUrl then ("", s)
    else if !tInf.handle.valid then ("", s)
    else
      let path := E.path tInf.handle.info tInf.fileIndex
      if path = "" then ("", s)
      else if !E.isExistsAndNotEmpty (E.tempDir ++ E.separator ++ path) then ("", s)
      else
        let uri := "\"" ++ E.tempDir ++ E.separator ++ path ++ "\""
        (uri, { s with fileUri := Function.update s.fileUri torrentId uri })

/-- `getFileUrl` into a buffer, which may be null; the length is cast to unsigned. -/
def getFileUrlInto (E : FilePaths) (s : UriStreamerok) (torrentId : ℤ) (hasBuffer : Bool)
    (length : ℤ) : Bool × UriStreamerok :=
  if !hasBuffer || length = 0 then (false, s)
  else
    let (path, s) := s.getFileUrl E torrentId
    (path ≠ "" && path.utf8ByteSize < length % 2 ^ 32, s)

end UriStreamerok

/-- A call of an entry point that takes an id. -/
inductive EntryPoint
  | getTorrentInfo
  | getFileUrl (hasBuffer : Bool) (length : ℤ)
  | seekInFile (offset : ℤ)
  | isRangeDownloaded (begin end_ : ℤ)
  | getFileSize
  | getFileDownloaded
deriving DecidableEq, Repr

inductive EntryAnswer
  | info (info : DlInfo)
  | flag (b : Bool)
  | number (n : ℤ)
deriving DecidableEq, Repr

/-- The surroundings of a call. -/
structure CallEnv where
  files : FilePaths
  status : TorrentHandle → TorrentStatus
  memory : DlInfo

namespace EntryPoint

/-- What the entry point answers on an error. -/
def errorValue (C : CallEnv) : EntryPoint → EntryAnswer
  | getTorrentInfo => .info (dlInfoExt C.memory)
  | getFileUrl _ _ => .flag false
  | seekInFile _ => .number (-1)
  | isRangeDownloaded _ _ => .flag false
  | getFileSize => .number 0
  | getFileDownloaded => .number 0

/-- The call, or `none` where it dereferences a null pointer. -/
def call (C : CallEnv) (s : UriStreamerok) (torrentId : ℤ) :
    EntryPoint → Option (EntryAnswer × UriStreamerok)
  | getTorrentInfo =>
    let (info, aux) := s.getTorrentInfo C.status C.memory torrentId
    some (.info info, { s with toStreamerok := aux })
  | getFileUrl hasBuffer length =>
    let (found, s) := s.getFileUrlInto C.files torrentId hasBuffer length
    some (.flag found, s)
  | seekInFile offset =>
    (s.seekInFile offset torrentId).map fun (code, aux) =>
      (.number code, { s with toStreamerok := aux })
  | isRangeDownloaded begin end_ =>
    (s.isRangeDownloaded begin end_ torrentId).map fun downloaded =>
      (.flag downloaded, { s with toStreamerok := (s.getAux torrentId).2 })
  | getFileSize =>
    let (size, aux) := Streamerok.getFileSize (some s.toStreamerok) torrentId
    some (.number size, { s with toStreamerok := aux.getD s.toStreamerok })
  | getFileDownloaded =>
    let (size, aux) := Streamerok.getFileDownloaded C.status (some s.toStreamerok) torrentId
    some (.number size, { s with toStreamerok := aux.getD s.toStreamerok })

/-- The entry point looks at the pointer before it uses it. -/
def Checks : EntryPoint → Prop
  | seekInFile _ => False
  | isRangeDownloaded _ _ => False
  | _ => True

end EntryPoint

namespace Streamerok

/-- There is no torrent for the id, or it is one whose handle is not valid any more. -/
def Stale (s : Streamerok) (torrentId : ℤ) : Prop :=
  ∀ t, s.tMap torrentId = some t → t.handle.valid = false

theorem getAux_of_stale {s : Streamerok} {torrentId : ℤ} (h : s.Stale torrentId) :
    (s.getAux torrentId).1 = none := by
  unfold getAux
  cases ht : s.tMap torrentId with
  | none => rfl
  | some t =>
    have hvalid := h t ht
    simp [hvalid]

/-- `getAux` touches nothing but the entry it is asked for, and that only if it is stale. -/
theorem getAux_frame (s : Streamerok) (torrentId : ℤ) :
    (∀ id, id ≠ torrentId → (s.getAux torrentId).2.tMap id = s.tMap id) ∧
      (¬s.Stale torrentId → (s.getAux torrentId).2 = s) ∧
      (s.getAux torrentId).2.nextId = s.nextId ∧
      (s.getAux torrentId).2.needSeekToThisPiece = s.needSeekToThisPiece := by
  unfold getAux Stale
  cases ht : s.tMap torrentId with
  | none => exact ⟨fun _ _ => rfl, fun _ => rfl, rfl, rfl⟩
  | some t =>
    dsimp only
    split_ifs with hvalid
    · exact ⟨fun _ _ => rfl, fun _ => rfl, rfl, rfl⟩
    · refine ⟨fun id hid => Function.update_of_ne hid _ _, fun hlive => ?_, rfl, rfl⟩
      refine absurd (fun t' ht' => ?_) hlive
      rw [Option.some.injEq] at ht'
      rw [← ht']
      simpa using hvalid

end Streamerok

namespace EntryPoint

/-- On a stale id the call answers its error value, without a dereference. -/
def Safe (C : CallEnv) (s : UriStreamerok) (torrentId : ℤ) (e : EntryPoint) : Prop :=
  s.Stale torrentId → (e.call C s torrentId).map Prod.fst = some (e.errorValue C)

/-- **One call.**  It is safe exactly on a torrent that is there, or if it checks. -/
theorem safe_iff (C : CallEnv) (s : UriStreamerok) (torrentId : ℤ) (e : EntryPoint) :
    e.Safe C s torrentId ↔ ¬s.Stale torrentId ∨ e.Checks := by
  by_cases hstale : s.Stale torrentId
  · obtain ⟨aux, hget⟩ : ∃ aux, s.getAux torrentId = (none, aux) :=
      ⟨_, Prod.ext (Streamerok.getAux_of_stale hstale) rfl⟩
    simp only [Safe, hstale, true_imp_iff, not_true_eq_false, false_or]
    cases e with
    | getTorrentInfo => simp [call, Streamerok.getTorrentInfo, hget, errorValue, Checks]
    | getFileUrl hasBuffer length =>
      -- with no buffer there is no lookup, and the answer is the same
      simp only [call, UriStreamerok.getFileUrlInto, UriStreamerok.getFileUrl, hget, errorValue,
        Checks]
      split_ifs <;> simp
    | seekInFile offset => simp [call, Streamerok.seekInFile, hget, Checks]
    | isRangeDownloaded begin end_ =>
      simp [call, Streamerok.isRangeDownloaded, hget, Checks]
    | getFileSize => simp [call, Streamerok.getFileSize, hget, errorValue, Checks]
    | getFileDownloaded => simp [call, Streamerok.getFileDownloaded, hget, errorValue, Checks]
  · exact iff_of_true (fun h => absurd h hstale) (Or.inl hstale)

end EntryPoint

/-! ### Runs -/

/-- What may happen to the streamer. -/
inductive IdEvent
  /-- A torrent is added under an id; an entry that is there stays. -/
  | add (torrentId : ℤ) (t : TAux)
  | delete (torrentId : ℤ) (deleteCompleted : Bool)
  /-- The torrent of an id leaves the session in another way. -/
  | handleLost (torrentId : ℤ)
  | call (torrentId : ℤ) (e : EntryPoint)

namespace UriStreamerok

/-- The constructor. -/
def new : UriStreamerok where
  toStreamerok := .new
  fileUri := fun _ => ""

def insert (s : UriStreamerok) (torrentId : ℤ) (t : TAux) : UriStreamerok :=
  if (s.tMap torrentId).isSome then s
  else
    { s with
      tMap := Function.update s.tMap torrentId (some t)
      fileUri := Function.update s.fileUri torrentId "" }

def loseHandle (s : UriStreamerok) (torrentId : ℤ) : UriStreamerok :=
  { s with
    tMap := Function.update s.tMap torrentId
      ((s.tMap torrentId).map fun t => { t with handle := { t.handle with valid := false } }) }

end UriStreamerok

/-- The streamer, and whether every call so far has been safe. -/
structure IdRun where
  streamerok : UriStreamerok
  safe : Prop

namespace IdRun

/-- What the event does.  A call that does not return leaves the streamer as it is. -/
def next (C : CallEnv) (r : IdRun) : IdEvent → Option IdRun
  | .add torrentId t => some { r with streamerok := r.streamerok.insert torrentId t }
  | .delete torrentId deleteCompleted =>
    some { r with
      streamerok := { r.streamerok with
        toStreamerok := (r.streamerok.deleteTorrent torrentId deleteCompleted).2.2 } }
  | .handleLost torrentId => some { r with streamerok := r.streamerok.loseHandle torrentId }
  | .call torrentId e =>
    some
      { streamerok := ((e.call C r.streamerok torrentId).map Prod.snd).getD r.streamerok
        safe := r.safe ∧ e.Safe C r.streamerok torrentId }

def start : IdRun where
  streamerok := .new
  safe := True

def machine (C : CallEnv) : Machine IdRun IdEvent :=
  .ofFun (fun r => r = start) (next C)

/-- **The guard.**  The two entry points that do not check are not called with a stale id. -/
def IdGuard (r : IdRun) : IdEvent → Prop
  | .call torrentId e => ¬r.streamerok.Stale torrentId ∨ e.Checks
  | _ => True

theorem idGuard_exact (C : CallEnv) :
    (machine C).ExactGuard (fun _ => True) IdGuard (fun r => r.safe) where
  init_iff := by
    rintro s rfl
    exact iff_of_true trivial trivial
  step_iff := by
    intro r e r' _ hsafe hstep
    have hnext : next C r e = some r' := hstep
    cases e with
    | call torrentId e =>
      rw [next, Option.some.injEq] at hnext
      rw [← hnext]
      show r.safe ∧ e.Safe C r.streamerok torrentId ↔ _
      rw [and_iff_right hsafe]
      exact e.safe_iff C r.streamerok torrentId
    | add torrentId t =>
      rw [next, Option.some.injEq] at hnext
      rw [← hnext]
      exact iff_of_true hsafe trivial
    | delete torrentId deleteCompleted =>
      rw [next, Option.some.injEq] at hnext
      rw [← hnext]
      exact iff_of_true hsafe trivial
    | handleLost torrentId =>
      rw [next, Option.some.injEq] at hnext
      rw [← hnext]
      exact iff_of_true hsafe trivial

/-- **Stale ids.**  In every state a call is safe exactly if the torrent is there or the entry point
    checks, and `getAux` erases at most the entry of its id; so all calls of a run are safe that
    meets the guard. -/
theorem staleIds_safe_iff (C : CallEnv) (s : UriStreamerok) (torrentId : ℤ) (e : EntryPoint) :
    (e.Safe C s torrentId ↔ ¬s.Stale torrentId ∨ e.Checks) ∧
    (∀ id, id ≠ torrentId → (s.getAux torrentId).2.tMap id = s.tMap id) ∧
    (¬s.Stale torrentId → (s.getAux torrentId).2 = s.toStreamerok) ∧
    (∀ r, (machine C).RunUnder (fun _ => True) IdGuard r → r.safe) ∧
    (machine C).ExactGuard (fun _ => True) IdGuard (fun r => r.safe) :=
  ⟨e.safe_iff C s torrentId, (s.getAux_frame torrentId).1, (s.getAux_frame torrentId).2.1,
    fun _ h => (idGuard_exact C).runUnder h, idGuard_exact C⟩

/-- Surroundings in which no file is there. -/
def emptyEnv : CallEnv where
  files := ⟨"", "/", fun _ _ => "", fun _ => false⟩
  status := fun _ => ⟨0, 0, 0, 0, 0⟩
  memory := ⟨0, 0, 0, 0, 0, 0, 0, 0, 0, 0, 0⟩

/-- `secondFile` is added and deleted again. -/
def deletedOnce : IdRun where
  streamerok :=
    let s := UriStreamerok.new.insert 1 (secondFile.aux fun _ => false)
    { s with toStreamerok := (s.deleteTorrent 1 true).2.2 }
  safe := True

/-- The torrent of id `1` has been deleted: its size is zero, and to seek in it or to ask for a range
    of it dereferences a null pointer. -/
theorem stale_seek_unsafe :
    (machine emptyEnv).Reachable deletedOnce ∧ deletedOnce.streamerok.tMap 1 = none ∧
      (EntryPoint.getFileSize.call emptyEnv deletedOnce.streamerok 1).map Prod.fst =
        some (.number 0) ∧
      (EntryPoint.seekInFile 0).call emptyEnv deletedOnce.streamerok 1 = none ∧
      (EntryPoint.isRangeDownloaded 0 1).call emptyEnv deletedOnce.streamerok 1 = none ∧
      ¬(EntryPoint.seekInFile 0).Safe emptyEnv deletedOnce.streamerok 1 ∧
      ¬(EntryPoint.isRangeDownloaded 0 1).Safe emptyEnv deletedOnce.streamerok 1 := by
  have hreach : (machine emptyEnv).Reachable deletedOnce := by
    have hrun : Machine.runEvents (next emptyEnv) start
        [.add 1 (secondFile.aux fun _ => false), .delete 1 true] = some deletedOnce := rfl
    exact Machine.Reachable.of_runEvents (.start rfl) hrun
  have hgone : deletedOnce.streamerok.tMap 1 = none := rfl
  have hstale : deletedOnce.streamerok.Stale 1 := by
    intro t ht
    rw [hgone] at ht
    exact absurd ht (by simp)
  exact ⟨hreach, hgone, rfl, rfl, rfl, fun h => absurd (h hstale) (by decide),
    fun h => absurd (h hstale) (by decide)⟩

end IdRun

end PopcornTime.Desktop
