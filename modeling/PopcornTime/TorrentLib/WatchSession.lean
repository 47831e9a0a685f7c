import PopcornTime.Lib.Machine
import PopcornTime.TorrentLib.WatchTask

namespace PopcornTime.TorrentLib

open PopcornTime

/-!
# Torrent library — a watch session

`startWatch` of the client pauses the other torrents and constructs the task, which remembers the
priorities of the files and whether its torrent was paused; `stopWatch` puts all of it back.

* `LibTorrentClient` — the torrents of the session, the tracked handles and the watch.
* `LibTorrentClient.startWatch`, `LibTorrentClient.stopWatch` — the calls, `ClientEvent` — what
  happens between them.
* `restored_iff`, `unharmed_iff` — what a session and a failed start leave behind.
-/

/-- A `LibTorrentHandle`, by its place in the session, or null. -/
abbrev Handle := Option ℕ

/-- `equals` of two handles. -/
def Handle.equals : Handle → Handle → Bool
  | some id, some id' => decide (id = id')
  | _, _ => false

/-- The client, as far as a watch goes. -/
structure LibTorrentClient where
  /-- The torrents in libtorrent's session. -/
  session : List Torrent
  /-- `getTorrents()` -/
  torrents : List Handle
  watchTask : Option (ℕ × WatchTask)
  watchPausedTorrents : List Handle
deriving DecidableEq, Repr

namespace LibTorrentClient

def isPaused (c : LibTorrentClient) (handle : Handle) : Bool :=
  (handle.bind (c.session[·]?)).any Torrent.paused

def isFinished (c : LibTorrentClient) (handle : Handle) : Bool :=
  (handle.bind (c.session[·]?)).any Torrent.isFinished

/-- `pause` and `resume` of a handle. -/
def setPaused (c : LibTorrentClient) (handle : Handle) (paused : Bool) : LibTorrentClient :=
  match handle with
  | none => c
  | some id => { c with session := c.session.modify id fun t => { t with paused := paused } }

/-- The body of the loop of `pauseBeforeWatch`. -/
def pauseEntity (watchEntity : Handle) (c : LibTorrentClient) (entity : Handle) : LibTorrentClient :=
  if !watchEntity.equals entity && !c.isFinished entity && !c.isPaused entity then
    { c with watchPausedTorrents := c.watchPausedTorrents ++ [entity] }.setPaused entity true
  else c

def pauseBeforeWatch (c : LibTorrentClient) (watchEntity : Handle) : LibTorrentClient :=
  c.torrents.foldl (pauseEntity watchEntity) { c with watchPausedTorrents := [] }

def resumeAfterWatch (c : LibTorrentClient) : LibTorrentClient :=
  { c.watchPausedTorrents.foldl (fun c entity => c.setPaused entity false) c with
    watchPausedTorrents := [] }

/-- `startWatch`, and whether it returns; the constructor throws where the handle has no torrent,
    before it has touched anything, and where the torrent has no metadata. -/
def startWatch (piece_priorities : ℕ → List ℕ → List ℕ) (c : LibTorrentClient)
    (torrentEntity : Handle) (index : ℕ) : LibTorrentClient × Bool :=
  -- a watch that runs is kept, whichever torrent it is of
  if c.watchTask.isSome then (c, true)
  else
    -- the others are paused before the constructor can throw
    let c := c.pauseBeforeWatch torrentEntity
    match torrentEntity with
    | none => (c, false)
    | some id =>
      match c.session[id]? with
      | none => (c, false)
      | some t =>
        let (task, t) := WatchTask.new (piece_priorities id) t index
        ({ c with session := c.session.set id t, watchTask := task.map fun task => (id, task) },
          task.isSome)

def stopWatch (c : LibTorrentClient) : LibTorrentClient :=
  match c.watchTask with
  | none => c
  | some (id, task) =>
    let c := c.resumeAfterWatch
    { c with session := c.session.modify id task.cancel, watchTask := none }

/-- What may happen while a file is watched: a torrent gets a piece, and the client hears of it. -/
inductive ClientEvent
  | have (id : ℕ) (piece : ℤ)
  | pieceFinished (id : ℕ) (piece : ℤ)
deriving DecidableEq, Repr

/-- `onPieceFinished` of the client's alert listener. -/
def onPieceFinished (c : LibTorrentClient) (id : ℕ) (piece : ℤ) : LibTorrentClient :=
  if some id ∈ c.torrents then
    match c.watchTask with
    | none => c
    | some (watched, task) =>
      if watched = id then
        match c.session[id]? with
        | none => c
        | some t =>
          { c with
            session := c.session.set id (task.onPieceFinished t piece).2
            watchTask := some (watched, (task.onPieceFinished t piece).1) }
      else c
  else c

def next (c : LibTorrentClient) : ClientEvent → LibTorrentClient
  | .have id piece =>
    { c with session := c.session.modify id fun t => { t with had := piece :: t.had } }
  | .pieceFinished id piece => c.onPieceFinished id piece

def machine : Machine LibTorrentClient ClientEvent :=
  .ofFun (fun _ => True) (fun c e => some (c.next e))

/-! ### What is to hold of a session -/

/-- All torrents are paused as they were before, and the files of the watched one have their
    priorities. -/
def Restored (c c' : LibTorrentClient) (torrentEntity : Handle) : Prop :=
  (∀ id : ℕ, (c'.session[id]?).map Torrent.paused = (c.session[id]?).map Torrent.paused) ∧
  ∀ id : ℕ, torrentEntity = some id →
    (c'.session[id]?).map Torrent.filePriorities = (c.session[id]?).map Torrent.filePriorities

/-- The other torrents are paused as they were before, and the files of the watched one have their
    priorities. -/
def Unharmed (c c' : LibTorrentClient) (torrentEntity : Handle) : Prop :=
  (∀ id : ℕ, torrentEntity ≠ some id →
    (c'.session[id]?).map Torrent.paused = (c.session[id]?).map Torrent.paused) ∧
  ∀ id : ℕ, torrentEntity = some id →
    (c'.session[id]?).map Torrent.filePriorities = (c.session[id]?).map Torrent.filePriorities

/-- The torrent behind a handle has its metadata. -/
def HasMetadata (c : LibTorrentClient) (handle : Handle) : Prop :=
  ∃ (id : ℕ) (t : Torrent), handle = some id ∧ c.session[id]? = some t ∧ t.hasMetadata = true

/-- The priorities of the files are those that a `TorrentPriority` stands for. -/
def PlainPriorities (c : LibTorrentClient) (handle : Handle) : Prop :=
  ∀ (id : ℕ) t, handle = some id → c.session[id]? = some t →
    ∀ p ∈ t.filePriorities, p = 0 ∨ p = 1 ∨ p = 7

/-- Nothing is there to be paused, and the files of the torrent have the priorities that the watch of
    the file gives them. -/
def NothingToPause (c : LibTorrentClient) (handle : Handle) (index : ℕ) : Prop :=
  (∀ (id : ℕ) t, handle ≠ some id → some id ∈ c.torrents → c.session[id]? = some t →
    t.paused = true ∨ t.isFinished = true) ∧
  ∀ (id : ℕ) t, handle = some id → c.session[id]? = some t →
    ∀ i p, t.filePriorities[i]? = some p → p = if i = index then 1 else 0

/-! ### Pausing and resuming -/

section Pausing

variable {c : LibTorrentClient} {watchEntity : Handle}

/-- A handle equals that of a torrent if it is the same place. -/
theorem equals_some_iff (handle : Handle) (id : ℕ) :
    handle.equals (some id) = true ↔ handle = some id := by
  cases handle with
  | none => simp [Handle.equals]
  | some id' => simp [Handle.equals]

/-- Only the torrent of the handle is paused or resumed. -/
theorem setPaused_session (c : LibTorrentClient) (handle : Handle) (paused : Bool) (id : ℕ) :
    (c.setPaused handle paused).session[id]? =
      (c.session[id]?).map fun t => if handle = some id then { t with paused := paused } else t := by
  cases handle with
  | none => simp [setPaused]
  | some id' =>
    simp only [setPaused, List.getElem?_modify, Option.some.injEq]
    by_cases h : id' = id
    · simp [h]
    · simp [h]

@[simp] theorem setPaused_watchPausedTorrents (c : LibTorrentClient) (handle : Handle) (paused : Bool) :
    (c.setPaused handle paused).watchPausedTorrents = c.watchPausedTorrents := by
  cases handle <;> rfl

@[simp] theorem setPaused_watchTask (c : LibTorrentClient) (handle : Handle) (paused : Bool) :
    (c.setPaused handle paused).watchTask = c.watchTask := by
  cases handle <;> rfl

/-- The test in the loop of `pauseBeforeWatch`. -/
theorem pauses_iff (c : LibTorrentClient) (watchEntity : Handle) (id : ℕ) :
    (!watchEntity.equals (some id) && !c.isFinished (some id) && !c.isPaused (some id)) = true ↔
      watchEntity ≠ some id ∧ c.isFinished (some id) = false ∧ c.isPaused (some id) = false := by
  rw [Bool.and_eq_true, Bool.and_eq_true, Bool.not_eq_true', Bool.not_eq_true', Bool.not_eq_true',
    and_assoc, ← Bool.not_eq_true (watchEntity.equals _), equals_some_iff]

/-- A handle is paused as its torrent is, -/
theorem isPaused_some {id : ℕ} {t : Torrent} (ht : c.session[id]? = some t) :
    c.isPaused (some id) = t.paused := by
  simp [isPaused, ht]

/-- and finished as its torrent is. -/
theorem isFinished_some {id : ℕ} {t : Torrent} (ht : c.session[id]? = some t) :
    c.isFinished (some id) = t.isFinished := by
  simp [isFinished, ht]

/-- **One entity** is paused if it is neither the watched one nor finished. -/
theorem pauseEntity_session (entity : Handle) (id : ℕ) :
    (pauseEntity watchEntity c entity).session[id]? = (c.session[id]?).map fun t =>
      if entity = some id ∧ watchEntity ≠ some id ∧ t.isFinished = false then
        { t with paused := true } else t := by
  unfold pauseEntity
  by_cases hentity : entity = some id
  · subst hentity
    cases ht : c.session[id]? with
    | none =>
      split_ifs
      · rw [setPaused_session, ht]
        rfl
      · exact ht
    | some t =>
      have hiff := pauses_iff c watchEntity id
      rw [isFinished_some ht, isPaused_some ht] at hiff
      by_cases hpause : watchEntity ≠ some id ∧ t.isFinished = false ∧ t.paused = false
      · rw [isFinished_some ht, isPaused_some ht, if_pos (hiff.mpr hpause), setPaused_session, ht]
        simp [hpause]
      · rw [isFinished_some ht, isPaused_some ht, if_neg (fun h => hpause (hiff.mp h)), ht]
        -- it is paused already, or left alone
        by_cases hpaused : t.paused = true
        · have hsame : { t with paused := true } = t := by rw [← hpaused]
          simp [hsame]
        · have hnot : ¬ (watchEntity ≠ some id ∧ t.isFinished = false) := fun h =>
            hpause ⟨h.1, h.2, by simpa using hpaused⟩
          simp only [Option.map_some, true_and, if_neg hnot]
  · have hsame : ((if (!watchEntity.equals entity && !c.isFinished entity && !c.isPaused entity) = true
        then ({ c with watchPausedTorrents := c.watchPausedTorrents ++ [entity] } :
          LibTorrentClient).setPaused entity true else c).session[id]?) = c.session[id]? := by
      split_ifs
      · rw [setPaused_session]
        simp [hentity]
      · rfl
    rw [hsame]
    simp [hentity]

/-- **The loop** pauses the torrents of its entities in the same way. -/
theorem foldl_pauseEntity_session (entities : List Handle) (id : ℕ) :
    (entities.foldl (pauseEntity watchEntity) c).session[id]? = (c.session[id]?).map fun t =>
      if some id ∈ entities ∧ watchEntity ≠ some id ∧ t.isFinished = false then
        { t with paused := true } else t := by
  induction entities generalizing c with
  | nil => simp
  | cons entity entities ih =>
    rw [List.foldl_cons, ih, pauseEntity_session, Option.map_map]
    refine Option.map_congr fun t _ => ?_
    simp only [Function.comp_apply, List.mem_cons]
    by_cases hentity : some id = entity
    · subst hentity
      by_cases h : watchEntity ≠ some id ∧ t.isFinished = false
      · simp [h]
      · simp [h]
    · have hne : entity ≠ some id := fun h => hentity h.symm
      simp [hentity, hne]

/-- An entity is remembered if it has been running. -/
theorem pauseEntity_watchPausedTorrents (entity : Handle) (id : ℕ) :
    some id ∈ (pauseEntity watchEntity c entity).watchPausedTorrents ↔
      some id ∈ c.watchPausedTorrents ∨ entity = some id ∧ watchEntity ≠ some id ∧
        c.isFinished (some id) = false ∧ c.isPaused (some id) = false := by
  unfold pauseEntity
  by_cases hentity : entity = some id
  · subst hentity
    split_ifs with hpause
    · simp [(pauses_iff c watchEntity id).mp hpause]
    · have hnot := fun h => hpause ((pauses_iff c watchEntity id).mpr h)
      exact (or_iff_left_of_imp fun h => absurd h.2 hnot).symm
  · have hne : some id ≠ entity := fun h => hentity h.symm
    split_ifs
    · simp [hentity, hne]
    · simp [hentity]

/-- The loop remembers what it pauses: what is paused once is not found running again. -/
theorem foldl_pauseEntity_watchPausedTorrents (entities : List Handle) (id : ℕ) :
    some id ∈ (entities.foldl (pauseEntity watchEntity) c).watchPausedTorrents ↔
      some id ∈ c.watchPausedTorrents ∨ some id ∈ entities ∧ watchEntity ≠ some id ∧
        c.isFinished (some id) = false ∧ c.isPaused (some id) = false := by
  induction entities generalizing c with
  | nil => simp
  | cons entity entities ih =>
    rw [List.foldl_cons, ih, pauseEntity_watchPausedTorrents, List.mem_cons, or_assoc]
    apply or_congr_right
    by_cases hentity : entity = some id
    · subst hentity
      constructor
      · rintro (⟨-, h⟩ | ⟨-, hne, hfinished, hpaused⟩)
        · exact ⟨.inl rfl, h⟩
        · refine ⟨.inl rfl, hne, ?_⟩
          have hsession : (pauseEntity watchEntity c (some id)).session[id]? = _ :=
            pauseEntity_session (some id) id
          cases ht : c.session[id]? with
          | none => simp [isFinished, isPaused, ht]
          | some t =>
            -- what is not paused behind the first time was not before
            rw [ht, Option.map_some] at hsession
            rw [isFinished_some hsession] at hfinished
            rw [isPaused_some hsession] at hpaused
            rw [isFinished_some ht, isPaused_some ht]
            split_ifs at hfinished hpaused with hpause
            exact ⟨hfinished, hpaused⟩
      · rintro ⟨-, h⟩
        exact .inl ⟨rfl, h⟩
    · have hne : ¬ some id = entity := fun h => hentity h.symm
      have hsame : (pauseEntity watchEntity c entity).session[id]? = c.session[id]? := by
        rw [pauseEntity_session]
        simp [hentity]
      simp only [isFinished, isPaused, Option.bind_some, hsame, hentity, hne, false_and, false_or]

/-- **`resumeAfterWatch`** resumes what has been paused for the watch. -/
theorem resumeAfterWatch_session (c : LibTorrentClient) (id : ℕ) :
    c.resumeAfterWatch.session[id]? = (c.session[id]?).map fun t =>
      if some id ∈ c.watchPausedTorrents then { t with paused := false } else t := by
  have hfold : ∀ (entities : List Handle) (c : LibTorrentClient),
      (entities.foldl (fun c entity => c.setPaused entity false) c).session[id]? =
        (c.session[id]?).map fun t => if some id ∈ entities then { t with paused := false } else t := by
    intro entities
    induction entities with
    | nil => simp
    | cons entity entities ih =>
      intro c
      rw [List.foldl_cons, ih, setPaused_session, Option.map_map]
      refine Option.map_congr fun t _ => ?_
      simp only [Function.comp_apply, List.mem_cons]
      by_cases hentity : some id = entity
      · simp [hentity]
      · have hne : entity ≠ some id := fun h => hentity h.symm
        simp [hentity, hne]
  exact hfold c.watchPausedTorrents c

end Pausing

/-! ### The priorities -/

/-- The plain priorities are those that are read and written back as they are. -/
theorem convertPriority_convertPriority_iff (p : ℕ) :
    (convertPriority p).convertPriority = p ↔ p = 0 ∨ p = 1 ∨ p = 7 := by
  unfold convertPriority
  split_ifs with h₀ h₇
  · exact iff_of_true h₀.symm (.inl h₀)
  · exact iff_of_true h₇.symm (.inr (.inr h₇))
  · show 1 = p ↔ _
    omega

/-- **`cancel`** writes what the priorities have been read as. -/
theorem cancel_filePriorities {task : WatchTask} {t : Torrent}
    (h : task.filePriorities.length = t.filePriorities.length) :
    (task.cancel t).filePriorities = task.filePriorities.map TorrentPriority.convertPriority := by
  have hset : (task.cancel t).filePriorities = (t.setFilePriorities task.filePriorities.length
      (fun i => task.filePriorities.getD i .notDownload)).filePriorities := by
    unfold WatchTask.cancel
    split_ifs <;> rfl
  rw [hset, Torrent.setFilePriorities_eq]
  refine List.ext_getElem? fun i => ?_
  rw [List.getElem?_mapIdx, List.getElem?_map]
  by_cases hi : i < task.filePriorities.length
  · rw [List.getElem?_eq_getElem (h ▸ hi), List.getElem?_eq_getElem hi]
    simp [hi]
  · rw [List.getElem?_eq_none (by omega), List.getElem?_eq_none (by omega)]
    rfl

/-- `cancel` pauses a torrent that was paused when the watch began. -/
theorem cancel_paused (task : WatchTask) (t : Torrent) :
    (task.cancel t).paused = (task.paused || t.paused) := by
  unfold WatchTask.cancel
  rw [Torrent.setFilePriorities_eq]
  cases task.paused with
  | false => rfl
  | true => rfl

/-- **What the watch of a file gives** to the priorities. -/
theorem selectFile_filePriorities_iff (t : Torrent) (index : ℕ) :
    (WatchTask.selectFile t index).filePriorities = t.filePriorities ↔
      ∀ i p, t.filePriorities[i]? = some p → p = if i = index then 1 else 0 := by
  rw [WatchTask.selectFile, Torrent.setFilePriorities_eq]
  constructor
  · intro h i p hp
    have hlt : i < t.filePriorities.length := (List.getElem?_eq_some_iff.mp hp).1
    have := congrArg (fun l => l[i]?) h
    simp only [List.getElem?_mapIdx, hp, hlt, if_true, Option.map_some, Option.some.injEq] at this
    rw [← this]
    split_ifs <;> rfl
  · intro h
    refine List.ext_getElem? fun i => ?_
    rw [List.getElem?_mapIdx]
    cases hp : t.filePriorities[i]? with
    | none => rfl
    | some p =>
      have hlt : i < t.filePriorities.length := (List.getElem?_eq_some_iff.mp hp).1
      rw [Option.map_some, if_pos hlt, h i p hp]
      split_ifs <;> rfl

/-! ### Between the calls -/

/-- What a torrent is looked at for. -/
def settings (c : LibTorrentClient) (id : ℕ) : Option (Bool × List ℕ) :=
  (c.session[id]?).map fun t => (t.paused, t.filePriorities)

/-- Nothing of the watch has changed. -/
structure Kept (c c' : LibTorrentClient) : Prop where
  settings : ∀ id, c'.settings id = c.settings id
  watchPausedTorrents : c'.watchPausedTorrents = c.watchPausedTorrents
  task : c'.watchTask.map (fun w => (w.1, w.2.filePriorities, w.2.paused)) =
    c.watchTask.map (fun w => (w.1, w.2.filePriorities, w.2.paused))

section Between

variable {c c' : LibTorrentClient}

/-- What is kept twice is kept. -/
theorem Kept.trans {c'' : LibTorrentClient} (h : Kept c c') (h' : Kept c' c'') : Kept c c'' where
  settings := fun id => (h'.settings id).trans (h.settings id)
  watchPausedTorrents := h'.watchPausedTorrents.trans h.watchPausedTorrents
  task := h'.task.trans h.task

/-- **One event** changes nothing of the watch. -/
theorem kept_next (c : LibTorrentClient) (e : ClientEvent) : Kept c (c.next e) := by
  cases e with
  | «have» id piece =>
    refine ⟨fun j => ?_, rfl, rfl⟩
    simp only [settings, next, List.getElem?_modify]
    cases c.session[j]? with
    | none => rfl
    | some t =>
      by_cases h : id = j
      · simp [h]
      · simp [h]
  | pieceFinished id piece =>
    unfold next onPieceFinished
    dsimp only
    split_ifs with htracked
    · cases hwatch : c.watchTask with
      | none => exact ⟨fun _ => rfl, rfl, rfl⟩
      | some w =>
        obtain ⟨watched, task⟩ := w
        dsimp only
        split_ifs with hid
        · cases ht : c.session[id]? with
          | none => exact ⟨fun _ => rfl, rfl, rfl⟩
          | some t =>
            -- a piece that has finished changes the deadlines of the watched torrent only
            obtain ⟨deadlines, htorrent⟩ := task.onPieceFinished_torrent t piece
            obtain ⟨hpriorities, hpaused⟩ := task.onPieceFinished_saved t piece
            refine ⟨fun j => ?_, rfl, ?_⟩
            · simp only [settings, List.getElem?_set]
              by_cases hj : id = j
              · subst hj
                have hlt := (List.getElem?_eq_some_iff.mp ht).1
                rw [if_pos rfl, if_pos hlt, ht, htorrent]
                rfl
              · simp [hj]
            · simp [hwatch, hpriorities, hpaused]
        · exact ⟨fun _ => rfl, rfl, rfl⟩
    · exact ⟨fun _ => rfl, rfl, rfl⟩

/-- **A run of events** changes nothing of it either. -/
theorem kept_of_reachable (h : (machine.goingOn c).Reachable c') : Kept c c' :=
  h.goingOn_invariant (I := Kept c) ⟨fun _ => rfl, rfl, rfl⟩ fun c₁ e _ hkept hstep =>
    hkept.trans (Option.some.inj hstep ▸ kept_next c₁ e)

/-- A torrent is still there, paused as it was and with its priorities. -/
theorem Kept.session (h : Kept c c') {id : ℕ} {t : Torrent} (ht : c.session[id]? = some t) :
    ∃ t', c'.session[id]? = some t' ∧ t'.paused = t.paused ∧ t'.filePriorities = t.filePriorities := by
  have hsettings := h.settings id
  simp only [LibTorrentClient.settings, ht, Option.map_some, Option.map_eq_some_iff,
    Prod.mk.injEq] at hsettings
  exact hsettings

/-- The task is still the one that remembers the torrent. -/
theorem Kept.watchTask (h : Kept c c') {id : ℕ} {task : WatchTask}
    (hwatch : c.watchTask = some (id, task)) : ∃ task', c'.watchTask = some (id, task') ∧
      task'.filePriorities = task.filePriorities ∧ task'.paused = task.paused := by
  have htask := h.task
  rw [hwatch, Option.map_some, Option.map_eq_some_iff] at htask
  obtain ⟨⟨id', task'⟩, hw, heq⟩ := htask
  simp only [Prod.mk.injEq] at heq
  obtain ⟨rfl, hpriorities, hpaused⟩ := heq
  exact ⟨task', hw, hpriorities, hpaused⟩

end Between

/-! ### The session -/

section Session

variable (piece_priorities : ℕ → List ℕ → List ℕ) (index : ℕ) {c c₂ : LibTorrentClient}
  {torrentEntity : Handle}

/-- `pauseBeforeWatch` pauses the tracked torrents but the watched one and the finished ones. -/
theorem pauseBeforeWatch_session (c : LibTorrentClient) (watchEntity : Handle) (id : ℕ) :
    (c.pauseBeforeWatch watchEntity).session[id]? = (c.session[id]?).map fun t =>
      if some id ∈ c.torrents ∧ watchEntity ≠ some id ∧ t.isFinished = false then
        { t with paused := true } else t :=
  foldl_pauseEntity_session c.torrents id

/-- The watched torrent is left alone. -/
theorem pauseBeforeWatch_session_self (c : LibTorrentClient) (id : ℕ) :
    (c.pauseBeforeWatch (some id)).session[id]? = c.session[id]? := by
  rw [pauseBeforeWatch_session]
  simp

/-- It remembers those that have been running. -/
theorem pauseBeforeWatch_watchPausedTorrents (c : LibTorrentClient) (watchEntity : Handle) (id : ℕ) :
    some id ∈ (c.pauseBeforeWatch watchEntity).watchPausedTorrents ↔
      some id ∈ c.torrents ∧ watchEntity ≠ some id ∧ c.isFinished (some id) = false ∧
        c.isPaused (some id) = false := by
  unfold pauseBeforeWatch
  rw [foldl_pauseEntity_watchPausedTorrents]
  exact or_iff_right List.not_mem_nil

/-- It does not touch the task. -/
theorem pauseBeforeWatch_watchTask (c : LibTorrentClient) (watchEntity : Handle) :
    (c.pauseBeforeWatch watchEntity).watchTask = c.watchTask := by
  have hfold : ∀ (entities : List Handle) (c : LibTorrentClient),
      (entities.foldl (pauseEntity watchEntity) c).watchTask = c.watchTask := by
    intro entities
    induction entities with
    | nil => exact fun _ => rfl
    | cons entity entities ih =>
      intro c
      rw [List.foldl_cons, ih, pauseEntity]
      split_ifs
      · rw [setPaused_watchTask]
      · rfl
  exact hfold c.torrents _

/-- **A start that returns**: the task remembers the torrent as it was. -/
theorem startWatch_of_hasMetadata {id : ℕ} {t : Torrent} (hwatch : c.watchTask = none)
    (ht : c.session[id]? = some t) (hmetadata : t.hasMetadata = true) :
    ∃ task t', (startWatch piece_priorities c (some id) index) =
        ({ c.pauseBeforeWatch (some id) with
          session := (c.pauseBeforeWatch (some id)).session.set id t'
          watchTask := some (id, task) }, true) ∧
      task.filePriorities = t.getFilePriorities ∧ task.paused = t.paused ∧
      t'.filePriorities.length = t.filePriorities.length ∧ (t.paused = false → t'.paused = false) := by
  have hselected := (WatchTask.selectFile_hasMetadata t index).trans hmetadata
  have hpaused := WatchTask.selectFile_paused t index
  have hlength := WatchTask.length_selectFile t index
  obtain ⟨selected, hs⟩ : ∃ selected, WatchTask.selectFile t index = selected := ⟨_, rfl⟩
  rw [hs] at hselected hpaused hlength
  have hnew : WatchTask.new (piece_priorities id) t index =
      (some (WatchTask.start selected t.getFilePriorities t.paused
        ((piece_priorities id selected.filePriorities).map convertPriority)).1,
        (WatchTask.start selected t.getFilePriorities t.paused
        ((piece_priorities id selected.filePriorities).map convertPriority)).2) := by
    simp only [WatchTask.new, hs, hselected, if_true]
  obtain ⟨ps, hps⟩ : ∃ ps, (piece_priorities id selected.filePriorities).map convertPriority = ps :=
    ⟨_, rfl⟩
  rw [hps] at hnew
  refine ⟨(WatchTask.start selected t.getFilePriorities t.paused ps).1,
    (WatchTask.start selected t.getFilePriorities t.paused ps).2, ?_, ?_⟩
  · simp only [startWatch, hwatch, Option.isSome_none, Bool.false_eq_true, if_false,
      pauseBeforeWatch_session_self, ht, hnew, Option.map_some, Option.isSome_some]
  · rcases WatchTask.start_cases selected t.getFilePriorities t.paused ps with
      ⟨-, hstart⟩ | ⟨i, -, -, -, -, deadlines, hstart⟩
    · rw [hstart]
      exact ⟨rfl, rfl, hlength, fun h => hpaused.trans h⟩
    · rw [hstart]
      exact ⟨rfl, rfl, hlength, fun h => by simp [hpaused, h]⟩

/-- **A start that throws**. -/
theorem startWatch_of_not_hasMetadata (hwatch : c.watchTask = none)
    (hmetadata : ¬ c.HasMetadata torrentEntity) :
    (startWatch piece_priorities c torrentEntity index).2 = false ∧
      (startWatch piece_priorities c torrentEntity index).1.watchTask = none ∧
      (∀ id : ℕ, torrentEntity ≠ some id →
        (startWatch piece_priorities c torrentEntity index).1.session[id]? =
          (c.pauseBeforeWatch torrentEntity).session[id]?) ∧
      ∀ id : ℕ, torrentEntity = some id →
        (startWatch piece_priorities c torrentEntity index).1.session[id]? =
          (c.session[id]?).map (WatchTask.selectFile · index) := by
  have hwatch' := (pauseBeforeWatch_watchTask c torrentEntity).trans hwatch
  simp only [startWatch, hwatch, Option.isSome_none, Bool.false_eq_true, if_false]
  cases torrentEntity with
  | none => exact ⟨rfl, hwatch', fun _ _ => rfl, fun _ h => (by cases h)⟩
  | some id =>
    simp only [pauseBeforeWatch_session_self]
    cases ht : c.session[id]? with
    | none =>
      refine ⟨rfl, hwatch', fun _ _ => rfl, fun j hj => ?_⟩
      obtain rfl := Option.some.inj hj
      rw [pauseBeforeWatch_session_self, ht]
      rfl
    | some t =>
      -- the selection is written before the metadata are asked for
      have hno : (WatchTask.selectFile t index).hasMetadata = false := by
        rw [WatchTask.selectFile_hasMetadata, ← Bool.not_eq_true]
        exact fun h => hmetadata ⟨id, t, rfl, ht, h⟩
      have hnew : WatchTask.new (piece_priorities id) t index =
          (none, WatchTask.selectFile t index) := by
        simp only [WatchTask.new, hno, Bool.false_eq_true, if_false]
      simp only [hnew, Option.map_none, Option.isSome_none, List.getElem?_set]
      refine ⟨trivial, trivial, fun j hj => ?_, fun j hj => ?_⟩
      · rw [if_neg (fun h => hj (congrArg some h))]
      · obtain rfl := Option.some.inj hj
        have hlt := (List.getElem?_eq_some_iff.mp
          ((pauseBeforeWatch_session_self c id).trans ht)).1
        rw [if_pos rfl, if_pos hlt, ht]
        rfl

/-- **The stop**, torrent by torrent. -/
theorem stopWatch_session {task : WatchTask} {watched : ℕ} (hwatch : c.watchTask = some (watched, task))
    (id : ℕ) : c.stopWatch.session[id]? = (c.session[id]?).map fun t =>
      if watched = id then
        task.cancel (if some id ∈ c.watchPausedTorrents then { t with paused := false } else t)
      else if some id ∈ c.watchPausedTorrents then { t with paused := false } else t := by
  simp only [stopWatch, hwatch, List.getElem?_modify, resumeAfterWatch_session]
  by_cases h : watched = id
  · simp only [h, if_true]
    exact Option.map_map _ _ _
  · simp [h]

/-- A torrent that has been paused for the watch is the only one that is resumed. -/
theorem paused_of_resume {id j : ℕ} {u u₂ : Torrent} (hu : c.session[j]? = some u)
    (hu₂ : u₂.paused = (if some j ∈ c.torrents ∧ some id ≠ some j ∧ u.isFinished = false then
      { u with paused := true } else u).paused) :
    (if some j ∈ (c.pauseBeforeWatch (some id)).watchPausedTorrents then
      { u₂ with paused := false } else u₂).paused = u.paused := by
  have hresumes := pauseBeforeWatch_watchPausedTorrents c (some id) j
  rw [isFinished_some hu, isPaused_some hu] at hresumes
  simp only [hresumes]
  by_cases hpause : some j ∈ c.torrents ∧ some id ≠ some j ∧ u.isFinished = false
  · rw [if_pos hpause] at hu₂
    cases hp : u.paused with
    | false => simp [hpause]
    | true => simp [hu₂]
  · rw [if_neg hpause] at hu₂
    rw [if_neg (fun h => hpause ⟨h.1, h.2.1, h.2.2.1⟩), hu₂]

/-- **The session comes to its end**: what the torrents are then. -/
theorem stopWatch_of_session {id : ℕ} {t : Torrent} (hwatch : c.watchTask = none)
    (ht : c.session[id]? = some t) (hmetadata : t.hasMetadata = true)
    (h : (machine.goingOn (startWatch piece_priorities c (some id) index).1).Reachable c₂) :
    (∀ j : ℕ, (c₂.stopWatch.session[j]?).map Torrent.paused = (c.session[j]?).map Torrent.paused) ∧
      (c₂.stopWatch.session[id]?).map Torrent.filePriorities =
        some (t.filePriorities.map fun p => (convertPriority p).convertPriority) := by
  obtain ⟨task, t', hstart, hpriorities, hpaused, hlength, hunpaused⟩ :=
    startWatch_of_hasMetadata piece_priorities index hwatch ht hmetadata
  have hkept := kept_of_reachable h
  rw [hstart] at hkept
  obtain ⟨task₂, hwatch₂, hpriorities₂, hpaused₂⟩ := hkept.watchTask rfl
  have hstop := stopWatch_session hwatch₂
  rw [hkept.watchPausedTorrents] at hstop
  -- the watched torrent is not among those that were paused for it
  have hwatched : some id ∉ (c.pauseBeforeWatch (some id)).watchPausedTorrents := fun hmem =>
    ((pauseBeforeWatch_watchPausedTorrents c (some id) id).mp hmem).2.1 rfl
  have hself := (pauseBeforeWatch_session_self c id).trans ht
  obtain ⟨t₂, ht₂, hpausedThen, hfilesThen⟩ := hkept.session
    (List.getElem?_set_self (List.getElem?_eq_some_iff.mp hself).1)
  refine ⟨fun j => ?_, ?_⟩
  · by_cases hj : id = j
    · subst hj
      rw [hstop, ht₂, ht]
      -- `cancel` pauses the torrent when it was paused before the watch
      simp only [Option.map_some, if_true, if_neg hwatched, cancel_paused, hpaused₂, hpaused,
        hpausedThen]
      cases hp : t.paused with
      | false => rw [hunpaused hp]; rfl
      | true => rfl
    · have hother : ((c.pauseBeforeWatch (some id)).session.set id t')[j]? = _ :=
        (List.getElem?_set_ne hj).trans (pauseBeforeWatch_session c (some id) j)
      rw [hstop]
      cases hu : c.session[j]? with
      | none =>
        have hsettings := hkept.settings j
        simp only [settings, hother, hu, Option.map_none, Option.map_eq_none_iff] at hsettings
        rw [hsettings]
        rfl
      | some u =>
        rw [hu, Option.map_some] at hother
        obtain ⟨u₂, hu₂, hpausedNow, -⟩ := hkept.session hother
        simp only [hu₂, Option.map_some, if_neg hj, Option.some.injEq]
        -- every other torrent that was paused for the watch is resumed
        exact paused_of_resume hu hpausedNow
  · rw [hstop, ht₂]
    simp only [Option.map_some, if_true, if_neg hwatched]
    rw [cancel_filePriorities (by
      rw [hpriorities₂, hpriorities, hfilesThen, hlength, Torrent.getFilePriorities,
        List.length_map]), hpriorities₂, hpriorities, Torrent.getFilePriorities, List.map_map]
    rfl

/-- A start returns if there is metadata to be read. -/
theorem startWatch_returns_iff (hwatch : c.watchTask = none) :
    (startWatch piece_priorities c torrentEntity index).2 = true ↔ c.HasMetadata torrentEntity := by
  constructor
  · intro h
    by_contra hmetadata
    rw [(startWatch_of_not_hasMetadata piece_priorities index hwatch hmetadata).1] at h
    exact Bool.false_ne_true h
  · rintro ⟨id, t, rfl, ht, hmetadata⟩
    obtain ⟨task, t', hstart, -⟩ :=
      startWatch_of_hasMetadata piece_priorities index hwatch ht hmetadata
    rw [hstart]

/-- **A session** puts everything back except the priorities that no `TorrentPriority` stands for. -/
theorem restored_iff (hwatch : c.watchTask = none) (hmetadata : c.HasMetadata torrentEntity)
    (h : (machine.goingOn (startWatch piece_priorities c torrentEntity index).1).Reachable c₂) :
    Restored c c₂.stopWatch torrentEntity ↔ c.PlainPriorities torrentEntity := by
  obtain ⟨id, t, rfl, ht, hmetadata⟩ := hmetadata
  obtain ⟨hpaused, hfiles⟩ := stopWatch_of_session piece_priorities index hwatch ht hmetadata h
  have hmap : (t.filePriorities.map fun p => (convertPriority p).convertPriority) =
      t.filePriorities ↔ ∀ p ∈ t.filePriorities, p = 0 ∨ p = 1 ∨ p = 7 := by
    conv_lhs => rhs; rw [← List.map_id t.filePriorities]
    rw [List.map_inj_left]
    exact forall₂_congr fun p _ => convertPriority_convertPriority_iff p
  constructor
  · rintro ⟨-, hrestored⟩ j u hj hu
    obtain rfl := Option.some.inj hj
    obtain rfl := Option.some.inj (ht.symm.trans hu)
    have hsame := hrestored id rfl
    rw [hfiles, ht] at hsame
    exact hmap.mp (Option.some.inj hsame)
  · intro hplain
    refine ⟨hpaused, fun j hj => ?_⟩
    obtain rfl := Option.some.inj hj
    rw [hfiles, ht, hmap.mpr (hplain id t rfl ht)]
    rfl

/-- **A start that throws** leaves paused what it has paused, and the file selected. -/
theorem unharmed_iff (hwatch : c.watchTask = none) (hmetadata : ¬ c.HasMetadata torrentEntity) :
    Unharmed c (startWatch piece_priorities c torrentEntity index).1 torrentEntity ↔
      c.NothingToPause torrentEntity index := by
  obtain ⟨-, -, hothers, hwatched⟩ :=
    startWatch_of_not_hasMetadata piece_priorities index hwatch hmetadata
  refine and_congr (forall_congr' fun id => ?_) (forall_congr' fun id => ?_)
  · constructor
    · intro h t hne htracked ht
      -- a torrent that runs and is not finished is paused before the watch and stays so
      have hpaused := h hne
      rw [hothers id hne, pauseBeforeWatch_session, ht] at hpaused
      by_cases hfinished : t.isFinished = true
      · exact .inr hfinished
      · left
        simpa [htracked, hne, hfinished] using hpaused.symm
    · intro h hne
      rw [hothers id hne, pauseBeforeWatch_session, Option.map_map]
      refine Option.map_congr fun t ht => ?_
      dsimp only [Function.comp_apply]
      split_ifs with hpause
      · rcases h t hne hpause.1 ht with hpaused | hfinished
        · exact hpaused.symm
        · rw [hpause.2.2] at hfinished
          exact absurd hfinished Bool.false_ne_true
      · rfl
  · constructor
    · intro h t hid ht
      -- the watched torrent keeps the selection, which changes it unless it was the same
      have hfiles := h hid
      rw [hwatched id hid, ht] at hfiles
      exact (selectFile_filePriorities_iff t index).mp (Option.some.inj hfiles)
    · intro h hid
      rw [hwatched id hid, Option.map_map]
      exact Option.map_congr fun t ht => (selectFile_filePriorities_iff t index).mpr (h t hid ht)

end Session

/-- **A watch session**: what it puts back, and what a start that throws leaves behind. -/
theorem watch_session (piece_priorities : ℕ → List ℕ → List ℕ) (c : LibTorrentClient)
    (torrentEntity : Handle) (index : ℕ) :
    (c.watchTask ≠ none → startWatch piece_priorities c torrentEntity index = (c, true)) ∧
    (c.watchTask = none →
      ((startWatch piece_priorities c torrentEntity index).2 = true ↔
        c.HasMetadata torrentEntity) ∧
      ((startWatch piece_priorities c torrentEntity index).2 = true → ∀ c₂,
        (machine.goingOn (startWatch piece_priorities c torrentEntity index).1).Reachable c₂ →
          (Restored c c₂.stopWatch torrentEntity ↔ c.PlainPriorities torrentEntity)) ∧
      ((startWatch piece_priorities c torrentEntity index).2 = false →
        (Unharmed c (startWatch piece_priorities c torrentEntity index).1 torrentEntity ↔
          c.NothingToPause torrentEntity index) ∧
        ∀ c₂ : LibTorrentClient,
          c₂.watchTask = (startWatch piece_priorities c torrentEntity index).1.watchTask →
          ∀ (torrentEntity' : Handle) (index' : ℕ),
            (startWatch piece_priorities c₂ torrentEntity' index').2 = true ↔
              c₂.HasMetadata torrentEntity')) := by
  refine ⟨fun hwatch => ?_, fun hwatch => ?_⟩
  · rw [startWatch, if_pos (Option.isSome_iff_ne_none.mpr hwatch)]
  have hreturns : (startWatch piece_priorities c torrentEntity index).2 = true ↔
      c.HasMetadata torrentEntity := startWatch_returns_iff piece_priorities index hwatch
  refine ⟨hreturns, fun h c₂ hc₂ => ?_, fun h => ?_⟩
  · exact restored_iff piece_priorities index hwatch (hreturns.mp h) hc₂
  -- a watch that does not start had no metadata
  have hmetadata : ¬ c.HasMetadata torrentEntity := fun hmetadata => by
    rw [hreturns.mpr hmetadata] at h
    exact Bool.false_ne_true h.symm
  obtain ⟨-, hnone, -⟩ := startWatch_of_not_hasMetadata piece_priorities index hwatch hmetadata
  refine ⟨unharmed_iff piece_priorities index hwatch hmetadata, fun c₂ hc₂ _ index' => ?_⟩
  exact startWatch_returns_iff piece_priorities index' (hc₂.trans hnone)

/-- A file of priority 4 has the normal one behind the session; a torrent stays paused behind a start
    on another one whose metadata is missing. -/
theorem watch_session_harms :
    (∃ c c₂ : LibTorrentClient, c.watchTask = none ∧
      (startWatch (fun _ ps => ps) c (some 0) 0).2 = true ∧
      (machine.goingOn (startWatch (fun _ ps => ps) c (some 0) 0).1).Reachable c₂ ∧
      ¬ Restored c c₂.stopWatch (some 0)) ∧
    ∃ c : LibTorrentClient, c.watchTask = none ∧
      (startWatch (fun _ ps => ps) c (some 0) 0).2 = false ∧
      ¬ Unharmed c (startWatch (fun _ ps => ps) c (some 0) 0).1 (some 0) := by
  refine ⟨⟨⟨[⟨true, false, false, [4], 4 * SIZE_MB, [], []⟩], [some 0], none, []⟩, _, rfl, by decide,
    .start rfl, fun h => ?_⟩, ⟨⟨[⟨false, false, false, [], 0, [], []⟩,
      ⟨true, false, false, [1], 4 * SIZE_MB, [], []⟩], [some 0, some 1], none, []⟩, rfl, by decide,
      fun h => ?_⟩⟩
  · exact absurd (h.2 0 rfl) (by decide)
  · exact absurd (h.1 1 (by decide)) (by decide)

end LibTorrentClient

end PopcornTime.TorrentLib
