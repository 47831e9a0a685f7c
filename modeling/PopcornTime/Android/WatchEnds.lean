import PopcornTime.Android.WatchEffects

namespace PopcornTime.Android

open PopcornTime Downloads TorrentUtil

/-!
# Android watch — watches that are led to their end

A download that does not run while a watch is alive may run again later: the watch may resume its
torrent or add it anew.  It need not: every watch has a continuation that ends it and leaves the
download as it is.

* `WatchedDownloads.allNamed_of_reachable` — a watch behind `loadMetadata` has the key of its
  torrent.
* `ends_of_not_unharmed` — one watch, phase by phase.
* `exists_allEnded` — all of them.
-/

/-- A watch behind `loadMetadata` has the key of its torrent. -/
def StoredWatch.Named (w : StoredWatch) : Prop :=
  (∃ loader, w.phase = .loading loader) ∨ w.phase = .ended ∨ isEmpty w.torrentFile = false

namespace WatchedDownloads

variable {E : StorageSetup} {s s' s₁ : WatchedDownloads} {w w₁ : StoredWatch} {i : ℕ}

/-! ### The keys of the watches -/

def AllNamed (s : WatchedDownloads) : Prop :=
  ∀ w ∈ s.tasks, w.Named

/-- A task is written that is named itself. -/
theorem AllNamed.set (h : s.AllNamed) (htasks : s'.tasks = s.tasks.set i w) (hw : w.Named) :
    s'.AllNamed := by
  intro w' hw'
  rw [htasks] at hw'
  rcases List.mem_or_eq_of_mem_set hw' with hold | rfl
  · exact h w' hold
  · exact hw

/-- Tasks are changed in a way that names none anew. -/
theorem AllNamed.modify {f : StoredWatch → StoredWatch} (h : s.AllNamed)
    (htasks : s'.tasks = s.tasks.modify i f) (hf : ∀ w, w.Named → (f w).Named) : s'.AllNamed := by
  intro w' hw'
  rw [htasks] at hw'
  obtain ⟨j, hj⟩ := List.mem_iff_getElem?.mp hw'
  rw [List.getElem?_modify] at hj
  obtain ⟨w, hw, rfl⟩ := Option.map_eq_some_iff.mp hj
  have hnamed := h w (List.mem_of_getElem? hw)
  split_ifs
  · exact hf w hnamed
  · exact hnamed

/-- A pause only notes that a watched torrent is to be paused later. -/
theorem AllNamed.pauseTorrent {key : String} (h : s.AllNamed) : (s.pauseTorrent key).AllNamed := by
  unfold WatchedDownloads.pauseTorrent
  split_ifs
  · cases htask : s.watchTask with
    | none => exact h
    -- the mark changes neither phase nor key
    | some i => exact h.modify rfl fun w hw => hw
  · exact h
  · exact h

/-- So does one of a key that may be empty. -/
theorem AllNamed.pauseNamed {key : Option String} (h : s.AllNamed) :
    (s.pauseNamed key).AllNamed := by
  unfold WatchedDownloads.pauseNamed
  split_ifs
  · exact h
  · exact h.pauseTorrent

/-- The end of a task is such a pause. -/
theorem AllNamed.onTaskStopped (h : s.AllNamed) : (s.onTaskStopped w).AllNamed := by
  unfold WatchedDownloads.onTaskStopped
  split_ifs
  · exact h.pauseNamed
  · exact h

/-- A new watch loads its metadata first. -/
theorem AllNamed.startWatch {isDownloads : Bool} {request : TorrentLoader.Request}
    {resumed : Option String} (h : s.AllNamed) :
    (s.startWatch isDownloads request resumed).AllNamed := by
  unfold WatchedDownloads.startWatch
  split_ifs
  · exact h
  · intro w hw
    rcases List.mem_append.mp hw with hold | hnew
    · exact h w hold
    · rw [List.mem_singleton.mp hnew]
      exact .inl ⟨_, rfl⟩

/-- `stopWatch` writes no key. -/
theorem AllNamed.stopWatch (h : s.AllNamed) : (s.stopWatch).AllNamed := by
  unfold WatchedDownloads.stopWatch
  split
  · next i w _ _ =>
    have hinterrupt : (s.interrupt i).AllNamed := h.modify rfl fun w hw => hw
    have hstopped : ((s.interrupt i).onTaskStopped w).AllNamed := hinterrupt.onTaskStopped
    exact hstopped
  · exact h

/-- A watch gets its key where `loadMetadata` ends. -/
theorem AllNamed.advance {accepted : Option Bool} (h : s.AllNamed) (hw : s.tasks[i]? = some w)
    (hstep : s.advance E i w accepted = some s') : s'.AllNamed := by
  have hnamed := h w (List.mem_of_getElem? hw)
  -- in the three phases between, the key is there by the invariant
  have hkey : (∀ loader, w.phase ≠ .loading loader) → w.phase ≠ .ended →
      isEmpty w.torrentFile = false := by
    intro hloading hended
    rcases hnamed with ⟨loader, hphase⟩ | hphase | hfile
    · exact absurd hphase (hloading loader)
    · exact absurd hphase hended
    · exact hfile
  unfold WatchedDownloads.advance at hstep
  split at hstep
  · next key _ =>
    cases hempty : isEmpty key with
    | true =>
      rw [if_pos hempty] at hstep
      cases hstep
      exact h.set rfl (.inr (.inl rfl))
    | false =>
      rw [if_neg (by simp [hempty])] at hstep
      cases hstep
      -- the answer of `addTorrent` is the key
      exact h.set rfl (.inr (.inr hempty))
  · next loader _ _ =>
    obtain ⟨⟨loader', session⟩, -, rfl⟩ := Option.map_eq_some_iff.mp hstep
    exact h.set rfl (.inl ⟨loader', rfl⟩)
  · next hphase =>
    cases hstep
    exact h.set rfl (.inr (.inr (hkey (by simp [hphase]) (by simp [hphase]))))
  · next hphase =>
    cases hstep
    exact h.set rfl (.inr (.inr (hkey (by simp [hphase]) (by simp [hphase]))))
  · next hphase =>
    cases hstep
    exact h.set rfl (.inr (.inr (hkey (by simp [hphase]) (by simp [hphase]))))
  · cases hstep
  · cases hstep

/-- What an event does keeps the keys of the watches. -/
theorem AllNamed.act {e : Event} (h : s.AllNamed) (hstep : s.act E e = some s') : s'.AllNamed := by
  cases e with
  | addWatch url magnet =>
    cases hstep
    unfold WatchedDownloads.addWatch
    split_ifs
    · exact h
    · exact h
  | startDetails url magnet =>
    cases hstep
    exact h.startWatch
  | startDownload id =>
    obtain ⟨r, -, rfl⟩ := Option.map_eq_some_iff.mp hstep
    exact h.startWatch
  | stopWatch =>
    cases hstep
    exact h.stopWatch
  | downloadsPause id =>
    obtain ⟨r, -, rfl⟩ := Option.map_eq_some_iff.mp hstep
    have hpaused : (s.pauseNamed (s.found r)).AllNamed := h.pauseNamed
    exact hpaused
  | downloadsResume id =>
    obtain ⟨r, -, rfl⟩ := Option.map_eq_some_iff.mp hstep
    exact h
  | advance i accepted =>
    obtain ⟨w, hw, hadvance⟩ := Option.bind_eq_some_iff.mp hstep
    exact h.advance hw hadvance
  | timeOut i =>
    obtain ⟨w, -, htimeOut⟩ := Option.bind_eq_some_iff.mp hstep
    split at htimeOut
    · obtain ⟨⟨loader, session⟩, -, rfl⟩ := Option.map_eq_some_iff.mp htimeOut
      exact h.set rfl (.inl ⟨loader, rfl⟩)
    · cases htimeOut
  | interrupt i =>
    obtain ⟨w, -, hinterrupt⟩ := Option.bind_eq_some_iff.mp hstep
    split at hinterrupt
    · cases hinterrupt
      exact h.set rfl (.inr (.inl rfl))
    · cases hinterrupt
  | fail i =>
    obtain ⟨w, -, hfail⟩ := Option.bind_eq_some_iff.mp hstep
    split_ifs at hfail
    cases hfail
    -- a failed watch is over: its phase names no loader
    exact (h.onTaskStopped (w := w)).modify rfl fun w hw => .inr (.inl rfl)
  | finish i =>
    obtain ⟨w, -, hfinish⟩ := Option.bind_eq_some_iff.mp hstep
    split_ifs at hfinish
    cases hfinish
    exact h.set rfl (.inr (.inl rfl))
  | downloadsAdd info torrentName files =>
    cases hstep
    exact h
  | advanceAdd j accepted =>
    obtain ⟨a, -, hadvance⟩ := Option.bind_eq_some_iff.mp hstep
    obtain ⟨loader, -, hmap⟩ := Option.bind_eq_some_iff.mp hadvance
    obtain ⟨⟨loader', session⟩, -, rfl⟩ := Option.map_eq_some_iff.mp hmap
    exact h
  | timeOutAdd j =>
    obtain ⟨a, -, htimeOut⟩ := Option.bind_eq_some_iff.mp hstep
    obtain ⟨loader, -, hmap⟩ := Option.bind_eq_some_iff.mp htimeOut
    obtain ⟨⟨loader', session⟩, -, rfl⟩ := Option.map_eq_some_iff.mp hmap
    exact h
  | finishAdd j end' =>
    obtain ⟨a, -, hfinish⟩ := Option.bind_eq_some_iff.mp hstep
    split at hfinish
    · cases hfinish
      unfold WatchedDownloads.finishAdd
      split_ifs
      · exact AllNamed.pauseTorrent h
      · exact h
    · cases hfinish
  | metadata handle =>
    cases hstep
    exact h

/-- **One event** keeps them, behind the marks. -/
theorem AllNamed.next {e : Event} (h : s.AllNamed) (hstep : (machine E).step s e s') :
    s'.AllNamed := by
  obtain ⟨s₁, hact, rfl⟩ := Option.map_eq_some_iff.mp hstep
  have hnamed : s₁.AllNamed := h.act hact
  exact hnamed

/-- **In every run** a watch behind `loadMetadata` has the key of its torrent. -/
theorem allNamed_of_reachable (h : (machine E).Reachable s) : s.AllNamed := by
  refine h.invariant ?_ fun s e s' hnamed hstep => hnamed.next hstep
  rintro s ⟨table, session, lastTorrent, rfl⟩ w hw
  exact absurd hw List.not_mem_nil

/-! ### Calls that let nothing run -/

/-- Fewer downloads run. -/
theorem not_unharmed_of_holds (h : ¬s.Unharmed) (htable : s'.table = s.table)
    (hheld : s'.held = s.held)
    (hholds : ∀ r, s'.session.holds r = true → s.session.holds r = true) :
    ¬s'.Unharmed := by
  intro hunharmed
  refine h fun r hr hstate hmem => hholds r ?_
  exact hunharmed r (htable ▸ hr) hstate (hheld ▸ hmem)

/-- No key is being watched without a task. -/
theorem isWatchingNow_of_none (hnone : s.watchTask = none) (key : String) :
    s.isWatchingNow key = false := by
  simp [isWatchingNow, current, hnone]

/-- Without a task the end of a watch notes nothing. -/
theorem tasks_onTaskStopped (hnone : s.watchTask = none) :
    (s.onTaskStopped w).tasks = s.tasks := by
  unfold onTaskStopped pauseNamed pauseTorrent
  simp only [isWatchingNow_of_none hnone, Bool.false_eq_true, if_false]
  split_ifs <;> rfl

/-- Behind the interrupt of the task fewer downloads run. -/
theorem not_unharmed_stopWatch (h : ¬s.Unharmed) : ¬(s.stopWatch).Unharmed := by
  unfold stopWatch
  split
  · next i w _ _ =>
    obtain ⟨tasks, heq⟩ := onTaskStopped_eq (s.interrupt i) w
    refine not_unharmed_of_holds h (by rw [heq]; rfl) (by rw [heq]; rfl) fun r hruns => ?_
    rw [heq] at hruns
    dsimp only at hruns
    split_ifs at hruns
    · exact LiveSession.holds_of_spares (LiveSession.holds_pauseTorrent.mp hruns)
    · exact hruns
  · exact h

/-- What runs behind a watch that fails has run before, and is not its torrent where that was
    paused. -/
theorem holds_of_holds_fail {r : DownloadRow} (hnone : s.watchTask = none)
    (hfile : isEmpty w.torrentFile = false)
    (hruns : (s.fail i w).session.holds r = true) :
    s.session.holds r = true ∧ (w.torrentPaused = true →
      s.session.spares (w.torrentFile.getD "") r = true) := by
  obtain ⟨tasks, heq⟩ := onTaskStopped_eq s w
  -- the removal first, then the pause before it
  have hrest : (s.onTaskStopped w).session.holds r = true := by
    rw [fail] at hruns
    dsimp only at hruns
    split_ifs at hruns
    · exact LiveSession.holds_of_spares (LiveSession.holds_removeTorrent.mp hruns)
    · exact hruns
  rw [heq] at hrest
  dsimp only at hrest
  cases hpaused : w.torrentPaused with
  | true =>
    rw [if_pos ⟨hpaused, hfile, isWatchingNow_of_none hnone _⟩] at hrest
    have hspares := LiveSession.holds_pauseTorrent.mp hrest
    exact ⟨LiveSession.holds_of_spares hspares, fun _ => hspares⟩
  | false =>
    rw [if_neg (by simp [hpaused])] at hrest
    exact ⟨hrest, fun h => by cases h⟩

/-! ### One watch -/

/-- Some continuation ends a watch, touches no other, and lets no download run that does not. -/
def Ends (E : StorageSetup) (s : WatchedDownloads) (i : ℕ) : Prop :=
  ∃ s', ((machine E).goingOn s).Reachable s' ∧ ¬s'.Unharmed ∧ s'.watchTask = none ∧
    s'.tasks.length = s.tasks.length ∧ (∀ j, j ≠ i → s'.tasks[j]? = s.tasks[j]?) ∧
    ∀ w, s'.tasks[i]? = some w → w.isAlive = false

/-- It is enough that a step of the watch is followed by such a continuation. -/
theorem Ends.of_act {e : Event} (h : Ends E (s₁.mark) i) (hact : s.act E e = some s₁)
    (hlength : s₁.tasks.length = s.tasks.length)
    (hothers : ∀ j, j ≠ i → s₁.tasks[j]? = s.tasks[j]?) : Ends E s i := by
  obtain ⟨s', hreach, hharm, hnone, hlength', hothers', hdead⟩ := h
  have hstep : ((machine E).goingOn s).step s e (s₁.mark) := by
    show (s.act E e).map mark = some s₁.mark
    rw [hact]
    rfl
  have hgo : ((machine E).goingOn s).Reachable (s₁.mark) :=
    (Machine.Reachable.start rfl).next hstep
  exact ⟨s', hgo.trans hreach, hharm, hnone, hlength'.trans hlength,
    fun j hj => (hothers' j hj).trans (hothers j hj), hdead⟩

/-- A state where it has ended. -/
theorem Ends.of_ended (hharm : ¬s.Unharmed) (hnone : s.watchTask = none)
    (hdead : ∀ w, s.tasks[i]? = some w → w.isAlive = false) : Ends E s i :=
  ⟨s, .start rfl, hharm, hnone, rfl, fun _ _ => rfl, hdead⟩

/-- And so it is of a step that writes its task. -/
theorem Ends.of_advance {accepted : Option Bool} (hw : s.tasks[i]? = some w)
    (hstep : s.advance E i w accepted = some s₁) (htasks : s₁.tasks = s.tasks.set i w₁)
    (h : (s₁.mark).tasks[i]? = some w₁ → Ends E (s₁.mark) i) : Ends E s i := by
  have htask : (s₁.mark).tasks[i]? = some w₁ := by
    show s₁.tasks[i]? = some w₁
    rw [htasks]
    exact List.getElem?_set_self (List.getElem?_eq_some_iff.mp hw).1
  refine Ends.of_act (e := .advance i accepted) (h htask) ?_ ?_ ?_
  · simp [act, hw, hstep]
  · rw [htasks, List.length_set]
  · intro j hj
    rw [htasks, List.getElem?_set_ne (Ne.symm hj)]

/-- More rows are marked. -/
theorem guarded_of_mark {P : DownloadRow → Prop} (h : s.mark.Guarded P) : s.Guarded P :=
  fun r hr hstate hmem => h r hr hstate (mem_held_mark.mpr ⟨r, hr, rfl, .inl hmem⟩)

/-- A step that leaves rows and session. -/
theorem not_unharmed_mark (h : ¬s.Unharmed) (htable : s₁.table = s.table)
    (hheld : s₁.held = s.held) (hsession : s₁.session = s.session) : ¬(s₁.mark).Unharmed :=
  mt (unharmed_mark.trans (unharmed_of_eq htable hheld hsession)).mp h

/-- A watch that is running fails. -/
theorem ends_of_running (hw : s.tasks[i]? = some w) (hnone : s.watchTask = none)
    (hphase : w.phase = .running)
    (hfile : isEmpty w.torrentFile = false)
    (hharm : ¬s.Unharmed ∨ w.torrentPaused = true ∧ ¬s.Spares (w.torrentFile.getD "")) :
    Ends E s i := by
  obtain ⟨tasks, heq⟩ := onTaskStopped_eq s w
  have htable : (s.fail i w).table = s.table := by
    rw [fail, heq]
  have hheld : (s.fail i w).held = s.held := by
    rw [fail, heq]
  have htask : (s.fail i w).watchTask = s.watchTask := by
    rw [fail, heq]
  have htasks : (s.fail i w).tasks = s.tasks.modify i fun w => w.goTo .ended := by
    rw [fail, tasks_onTaskStopped hnone]
  -- what runs behind the failure has run before, and not by the pause
  have hbehind : ¬(s.fail i w).Unharmed := by
    intro hunharmed
    have hruns : ∀ r ∈ s.table.rows, r.state = TorrentState.DOWNLOADING → r.id ∈ s.held →
        s.session.holds r = true ∧ (w.torrentPaused = true →
          s.session.spares (w.torrentFile.getD "") r = true) := fun r hr hstate hmem =>
      holds_of_holds_fail hnone hfile (hunharmed r (htable ▸ hr) hstate (hheld ▸ hmem))
    rcases hharm with hharm | ⟨hpaused, hspares⟩
    · exact hharm fun r hr hstate hmem => (hruns r hr hstate hmem).1
    · exact hspares fun r hr hstate hmem => (hruns r hr hstate hmem).2 hpaused
  have hact : s.act E (.fail i) = some (s.fail i w) := by
    simp [act, hw, hphase]
  refine Ends.of_act (.of_ended (mt unharmed_mark.mp hbehind) (htask.trans hnone) ?_) hact ?_ ?_
  · intro w' hw'
    have hmodified : (s.tasks.modify i fun w => w.goTo .ended)[i]? = some w' :=
      htasks ▸ hw'
    rw [List.getElem?_modify_eq, hw] at hmodified
    cases hmodified
    rfl
  · rw [htasks, List.length_modify]
  · intro j hj
    rw [htasks, List.getElem?_modify_ne _ _ (Ne.symm hj)]

/-- A torrent that was resumed for the watch is paused again where the watch fails. -/
theorem ends_of_resumed {paused : Bool} (hw : s.tasks[i]? = some w) (hnone : s.watchTask = none)
    (hphase : w.phase = .resumed paused) (hfile : isEmpty w.torrentFile = false)
    (hharm : ¬s.Unharmed ∨ paused = true ∧ ¬s.Spares (w.torrentFile.getD "")) :
    Ends E s i := by
  have hstep : s.advance E i w none = some (s.setTask i (w.running paused)) := by
    simp [advance, hphase]
  refine Ends.of_advance hw hstep rfl fun hw₁ => ends_of_running hw₁ hnone rfl hfile ?_
  rcases hharm with hharm | ⟨hpaused, hspares⟩
  · exact .inl (not_unharmed_mark hharm rfl rfl rfl)
  · refine .inr ⟨?_, fun h => hspares (guarded_of_mark h)⟩
    show (paused || !w.isDownloads) = true
    rw [hpaused, Bool.true_or]

/-- A torrent that was asked for its state is resumed next. -/
theorem ends_of_asked {paused : Bool} (hw : s.tasks[i]? = some w) (hnone : s.watchTask = none)
    (hphase : w.phase = .asked paused) (hfile : isEmpty w.torrentFile = false)
    (hharm : ¬s.Unharmed) : Ends E s i := by
  have hstep : s.advance E i w none = some ((s.setTask i (w.goTo (.resumed paused))).withSession
      (if paused then s.session.resumeTorrent (w.torrentFile.getD "") else s.session)) := by
    simp [advance, hphase]
  refine Ends.of_advance hw hstep rfl fun hw₁ => ends_of_resumed hw₁ hnone rfl hfile ?_
  cases paused with
  | false => exact .inl (not_unharmed_mark hharm rfl rfl rfl)
  | true =>
    -- the resumption may let a download run, the pause that follows does not
    refine .inr ⟨rfl, fun hspares => hharm fun r hr hstate hmem => ?_⟩
    exact LiveSession.holds_of_spares_resumeTorrent (guarded_of_mark hspares r hr hstate hmem)

/-- And its state is asked for behind the metadata. -/
theorem ends_of_loaded (hw : s.tasks[i]? = some w) (hnone : s.watchTask = none)
    (hphase : w.phase = .loaded) (hfile : isEmpty w.torrentFile = false)
    (hharm : ¬s.Unharmed) : Ends E s i := by
  have hstep : s.advance E i w none = some (s.setTask i
      (w.goTo (.asked (s.session.isTorrentPaused (w.torrentFile.getD ""))))) := by
    simp [advance, hphase]
  exact Ends.of_advance hw hstep rfl fun hw₁ =>
    ends_of_asked hw₁ hnone rfl hfile (not_unharmed_mark hharm rfl rfl rfl)

/-- The answer of `addTorrent`. -/
theorem ends_of_done {key : Option String} (hw : s.tasks[i]? = some w) (hnone : s.watchTask = none)
    (hphase : w.phase = .loading (.done key)) (hharm : ¬s.Unharmed) : Ends E s i := by
  cases hempty : isEmpty key with
  | true =>
    have hstep : s.advance E i w none = some (s.setTask i (w.goTo .ended)) := by
      simp [advance, hphase, hempty]
    refine Ends.of_advance hw hstep rfl fun hw₁ =>
      .of_ended (not_unharmed_mark hharm rfl rfl rfl) hnone fun w' hw' => ?_
    cases hw₁.symm.trans hw'
    rfl
  | false =>
    have hstep : s.advance E i w none = some (s.loadMetadata i w key) := by
      simp [advance, hphase, hempty]
    exact Ends.of_advance hw hstep rfl fun hw₁ =>
      ends_of_loaded hw₁ hnone rfl hempty (not_unharmed_mark hharm rfl rfl rfl)

/-- The wait for a key is over: it is removed, and the next ones are tried. -/
def giveUp (s : WatchedDownloads) (i : ℕ) (w : StoredWatch) (key : String)
    (keys : List (Option String)) : WatchedDownloads :=
  (s.setTask i (w.goTo (.loading (.adding keys)))).withSession (s.session.removeTorrent key)

/-- A wait that is over in vain lets nothing run. -/
theorem ends_of_waiting {key : String} {keys : List (Option String)} (hw : s.tasks[i]? = some w)
    (hnone : s.watchTask = none) (hphase : w.phase = .loading (.waiting key keys))
    (hharm : ¬s.Unharmed)
    (hadding : ∀ (s' : WatchedDownloads) {w' : StoredWatch}, s'.tasks[i]? = some w' →
      s'.watchTask = none → w'.phase = .loading (.adding keys) → ¬s'.Unharmed → Ends E s' i) :
    Ends E s i := by
  have hact : s.act E (.timeOut i) = some (s.giveUp i w key keys) := by
    simp [act, hw, hphase, TorrentLoader.timeOut, giveUp]
  have hbehind : ¬(s.giveUp i w key keys).Unharmed :=
    not_unharmed_of_holds hharm rfl rfl fun r hruns =>
      LiveSession.holds_of_spares (LiveSession.holds_removeTorrent.mp hruns)
  have htask : (s.giveUp i w key keys).tasks[i]? = some (w.goTo (.loading (.adding keys))) :=
    List.getElem?_set_self (List.getElem?_eq_some_iff.mp hw).1
  have hends : Ends E (s.giveUp i w key keys).mark i :=
    hadding _ htask hnone rfl (mt unharmed_mark.mp hbehind)
  exact hends.of_act hact (List.length_set ..) fun j hj => List.getElem?_set_ne (Ne.symm hj)

/-- The session refuses the keys, one after the other. -/
theorem ends_of_adding {keys : List (Option String)} (hw : s.tasks[i]? = some w)
    (hnone : s.watchTask = none) (hphase : w.phase = .loading (.adding keys))
    (hharm : ¬s.Unharmed) : Ends E s i := by
  induction keys generalizing s w with
  | nil =>
    have hstep : s.advance E i w none =
        some ((s.setTask i (w.goTo (.loading (.done none)))).withSession s.session) := by
      simp [advance, hphase, TorrentLoader.advance]
    exact Ends.of_advance hw hstep rfl fun hw₁ =>
      ends_of_done hw₁ hnone rfl (not_unharmed_mark hharm rfl rfl rfl)
  | cons key keys ih =>
    cases hempty : isEmpty key with
    | true =>
      have hstep : s.advance E i w none =
          some ((s.setTask i (w.goTo (.loading (.adding keys)))).withSession s.session) := by
        simp [advance, hphase, TorrentLoader.advance, hempty]
      exact Ends.of_advance hw hstep rfl fun hw₁ =>
        ih hw₁ hnone rfl (not_unharmed_mark hharm rfl rfl rfl)
    | false =>
      -- the session may refuse every key, which then has no metadata
      have hrefused : s.session.addTorrent E.hash w.resumed (key.getD "") w.request.savePath none =
          s.session :=
        LiveSession.addTorrent_of_not_adds (by simp [LiveSession.adds])
      have hstep : s.advance E i w none =
          some ((s.setTask i (w.goTo (.loading (.waiting (key.getD "") keys)))).withSession
            s.session) := by
        simp [advance, hphase, TorrentLoader.advance, hempty, hrefused]
      exact Ends.of_advance hw hstep rfl fun hw₁ =>
        ends_of_waiting hw₁ hnone rfl (not_unharmed_mark hharm rfl rfl rfl) fun _ => ih

/-- **The thread of a watch** that is in `addTorrent` is led out of it. -/
theorem ends_of_loading {loader : TorrentLoader} (hw : s.tasks[i]? = some w)
    (hnone : s.watchTask = none) (hphase : w.phase = .loading loader) (hharm : ¬s.Unharmed) :
    Ends E s i := by
  cases loader with
  -- one step: an answer, or the keys
  | begin =>
    -- the torrent that is there already, or the first of the keys
    have hstep : ∃ loader', s.advance E i w none =
          some ((s.setTask i (w.goTo (.loading loader'))).withSession s.session) ∧
        ((∃ key, loader' = .done key) ∨ ∃ keys, loader' = .adding keys) := by
      simp only [advance, hphase, TorrentLoader.advance]
      split_ifs
      · exact ⟨_, rfl, .inl ⟨_, rfl⟩⟩
      · exact ⟨_, rfl, .inr ⟨_, rfl⟩⟩
      · exact ⟨_, rfl, .inl ⟨_, rfl⟩⟩
    obtain ⟨loader', hstep, hloader⟩ := hstep
    refine Ends.of_advance hw hstep rfl fun hw₁ => ?_
    rcases hloader with ⟨key, rfl⟩ | ⟨keys, rfl⟩
    · exact ends_of_done hw₁ hnone rfl (not_unharmed_mark hharm rfl rfl rfl)
    · exact ends_of_adding hw₁ hnone rfl (not_unharmed_mark hharm rfl rfl rfl)
  | adding keys => exact ends_of_adding hw hnone hphase hharm
  | waiting key keys =>
    exact ends_of_waiting hw hnone hphase hharm fun _ => ends_of_adding
  | done key => exact ends_of_done hw hnone hphase hharm

/-- **One watch.**  It can be led to its end, and lets no download run on the way. -/
theorem ends_of_not_unharmed (hnamed : s.AllNamed) (hnone : s.watchTask = none)
    (hharm : ¬s.Unharmed) : Ends E s i := by
  cases hw : s.tasks[i]? with
  | none => exact .of_ended hharm hnone fun w hsome => by rw [hw] at hsome; cases hsome
  | some w =>
    rcases hnamed w (List.mem_of_getElem? hw) with ⟨loader, hphase⟩ | hphase | hfile
    · exact ends_of_loading hw hnone hphase hharm
    · refine .of_ended hharm hnone fun w' hw' => ?_
      cases hw.symm.trans hw'
      simp [StoredWatch.isAlive, hphase]
    · cases hphase : w.phase with
      | loading loader => exact ends_of_loading hw hnone hphase hharm
      | loaded => exact ends_of_loaded hw hnone hphase hfile hharm
      | asked paused => exact ends_of_asked hw hnone hphase hfile hharm
      | resumed paused => exact ends_of_resumed hw hnone hphase hfile (.inl hharm)
      | running => exact ends_of_running hw hnone hphase hfile (.inl hharm)
      | ended =>
        refine .of_ended hharm hnone fun w' hw' => ?_
        cases hw.symm.trans hw'
        simp [StoredWatch.isAlive, hphase]

/-! ### All watches -/

/-- The first watches of the list, by induction on their number. -/
theorem exists_firstEnded (hnamed : s.AllNamed) (hnone : s.watchTask = none)
    (hharm : ¬s.Unharmed) (n : ℕ) :
    ∃ s', ((machine E).goingOn s).Reachable s' ∧ ¬s'.Unharmed ∧ s'.watchTask = none ∧
      s'.tasks.length = s.tasks.length ∧
      ∀ j < n, ∀ w, s'.tasks[j]? = some w → w.isAlive = false := by
  induction n with
  | zero => exact ⟨s, .start rfl, hharm, hnone, rfl, fun j hj => absurd hj (Nat.not_lt_zero j)⟩
  | succ n ih =>
    obtain ⟨s₁, hgo, hharm₁, hnone₁, hlength, hdead⟩ := ih
    have hnamed₁ : s₁.AllNamed :=
      hgo.goingOn_invariant hnamed fun _ _ _ hnamed hstep => hnamed.next hstep
    obtain ⟨s₂, hgo₂, hharm₂, hnone₂, hlength₂, hothers, hdead₂⟩ :=
      ends_of_not_unharmed (i := n) hnamed₁ hnone₁ hharm₁
    -- the watch `n` has ended now, the others are as they were
    refine ⟨s₂, hgo.trans hgo₂, hharm₂, hnone₂, hlength₂.trans hlength, fun j hj w hw => ?_⟩
    rcases Nat.lt_succ_iff_lt_or_eq.mp hj with hlt | rfl
    · exact hdead j hlt w ((hothers j (ne_of_lt hlt)).symm.trans hw)
    · exact hdead₂ w hw

/-- **All watches.**  Where a download does not run, some continuation ends every watch and leaves
    it so. -/
theorem exists_allEnded (hnamed : s.AllNamed) (hharm : ¬s.Unharmed) :
    ∃ s', ((machine E).goingOn s).Reachable s' ∧ (∀ w ∈ s'.tasks, w.isAlive = false) ∧
      ¬s'.Unharmed := by
  -- without the task a pause reaches the session
  have hstep : ((machine E).goingOn s).step s .stopWatch s.stopWatch.mark := rfl
  have hnamed' : s.stopWatch.mark.AllNamed := hnamed.next (e := .stopWatch) hstep
  have hnone : s.stopWatch.mark.watchTask = none := by
    show s.stopWatch.watchTask = none
    unfold stopWatch
    split <;> rfl
  have hharm' : ¬s.stopWatch.mark.Unharmed :=
    mt unharmed_mark.mp (not_unharmed_stopWatch hharm)
  obtain ⟨s', hgo, hharm', -, hlength, hdead⟩ :=
    exists_firstEnded hnamed' hnone hharm' s.stopWatch.mark.tasks.length
  refine ⟨s', ((Machine.Reachable.start rfl).next hstep).trans hgo, fun w hw => ?_, hharm'⟩
  obtain ⟨j, hj⟩ := List.mem_iff_getElem?.mp hw
  exact hdead j (hlength ▸ (List.getElem?_eq_some_iff.mp hj).1) w hj

end WatchedDownloads

end PopcornTime.Android
