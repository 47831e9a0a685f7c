import PopcornTime.Android.WatchPrepared
import PopcornTime.Android.WatchSeek

namespace PopcornTime.Android

open PopcornTime

/-!
# Android watch — seeks at any moment

The service forwards a seek as soon as the thread is alive.  `SeekedWatch` is a watch, with a note
of a seek that throws or after which the run does not go on.

* `WatchMessage.Proper` — the progress is one of `0` to the total, which is positive.
* `WatchTask.ProgressInv` — what the counts and the window of a task are good for.
* `SeekedWatch.SafeGuard` — the boundary is known, and the scan finds nothing before the file.
* `SeekedWatch.safe_of_guard` — the watch is safe exactly where each step meets the guard.
-/

/-- A progress that can be shown. -/
def WatchMessage.Proper : WatchMessage → Prop
  | .updateProgress _ total value => 0 ≤ value ∧ value ≤ total ∧ 0 < total
  | _ => True

namespace WatchTask

variable {E : WatchedFile} {t t' : WatchTask} {e : WatchEvent} {first last : ℤ} {delta : ℚ}

/-- The run goes on from a seek: with the next statement or the next iteration, or it has ended
    with the download. -/
def GoesOn (E : WatchedFile) (t : WatchTask) : Prop :=
  t.state = .finished ∨
    ((t.state = .buffering ∨ t.state = .sequentialDownload) ∧
      ((t.next E .advance).isSome ∨ (t.next E .iterate).isSome))

instance (E : WatchedFile) (t : WatchTask) : Decidable (t.GoesOn E) := by
  unfold GoesOn
  infer_instance

/-! ### The counts and the window -/

/-- The counts of the file are positive where the loop needs them, and a window that is buffered has
    no more pieces than its total says. -/
structure ProgressInv (E : WatchedFile) (t : WatchTask) : Prop where
  pieces : t.point = .counted ∨ t.point = .activated ∨ t.point = .loadSubtitles ∨
    t.point = .loop → t.filePieceCount = E.pieces
  prepare : t.point = .activated ∨ t.point = .loadSubtitles ∨ t.point = .loop →
    0 < t.prepareCount
  window : t.state = .buffering → 0 < t.seekTotalPieceCount ∧
    t.seekEndPiece - t.seekBeginPiece + 1 ≤ t.seekTotalPieceCount

/-- At the start nothing is counted. -/
theorem progressInv_new (service : WatchService) : ProgressInv E (new service) where
  pieces := by simp [new]
  prepare := by simp [new]
  window := by simp [new]

/-- A statement before the loop counts the pieces of the file. -/
theorem ProgressInv.advance (hinv : Inv E t) (h : ProgressInv E t)
    (hstep : t.advance E.piecePriorities = some t') : ProgressInv E t' := by
  cases advanceStep hinv hstep with
  | started | loadMetadata => exact ⟨by simp, by simp, fun hs => by cases hs⟩
  | checkFile => exact ⟨by simp, by simp, h.window⟩
  | boundaryKnown =>
    refine ⟨fun _ => ?_, by simp, h.window⟩
    simp only [WatchedFile.lastPiece, WatchedFile.firstPiece]
    omega
  | failed => exact ⟨by simp [fail], by simp [fail], h.window⟩
  | counted prepareCount hp _ hpos => exact ⟨fun _ => h.pieces (Or.inl hp), fun _ => hpos, h.window⟩
  | activated hp =>
    exact ⟨fun _ => h.pieces (Or.inr (Or.inl hp)), fun _ => h.prepare (Or.inl hp),
      fun hs => by cases hs⟩
  | loadSubtitles hp =>
    exact ⟨fun _ => h.pieces (Or.inr (Or.inr (Or.inl hp))),
      fun _ => h.prepare (Or.inr (Or.inl hp)), fun hs => by cases hs⟩

/-- A window that wraps around has no pieces. -/
theorem wrapInt_window (n : ℤ) {active : ℤ} (h₀ : 0 ≤ active) (h₁ : active ≤ MAX_ACTIVE_COUNT) :
    wrapInt (n + active) - wrapInt (n - active) ≤ 2 * active := by
  have hmax : active ≤ 20 := h₁
  have hend : wrapInt (n + active) % 2 ^ 32 = (n + active) % 2 ^ 32 := Int.bmod_emod
  have hbegin : wrapInt (n - active) % 2 ^ 32 = (n - active) % 2 ^ 32 := Int.bmod_emod
  have hlt : wrapInt (n + active) < 2 ^ 31 := Int.bmod_lt (by omega)
  have hle : -2 ^ 31 ≤ wrapInt (n - active) := Int.le_bmod (by omega)
  omega

/-- What an iteration leaves of the window. -/
theorem iterate_window (hlast : last < t.filePriorities.length) (hactive : 0 < t.activePieceCount)
    (first : ℤ) : (t.iterate first last).seekBeginPiece = t.seekBeginPiece ∧
      (t.iterate first last).seekEndPiece = t.seekEndPiece ∧
      (t.iterate first last).seekTotalPieceCount = t.seekTotalPieceCount ∧
      ((t.iterate first last).state = .buffering → t.state = .buffering) := by
  unfold iterate
  cases hs : t.state with
  | preparingForWatch =>
    obtain ⟨p, ps, dl, -, heq⟩ := prepare_spec (t := t) first hlast
    dsimp only
    rw [heq]
    refine ⟨rfl, rfl, rfl, fun h => ?_⟩
    simp only [withMarks] at h
    split_ifs at h
    exact hs.symm.trans h
  | sequentialDownload =>
    obtain ⟨ps, dl, -, heq⟩ := sequential_spec (t := t) first hlast hactive
    dsimp only
    rw [heq]
    refine ⟨rfl, rfl, rfl, fun h => ?_⟩
    simp only [withMarks] at h
    split_ifs at h
    exact hs.symm.trans h
  | buffering =>
    obtain ⟨ps, dl, -, heq⟩ := buffer_spec (t := t) first hlast hactive
    dsimp only
    rw [heq]
    exact ⟨rfl, rfl, rfl, fun _ => rfl⟩
  | none | loadMetadata | checkFile | loadSubtitles | finished =>
    exact ⟨rfl, rfl, rfl, fun hs => by cases hs⟩

/-- A seek opens a window of its total. -/
theorem ProgressInv.seek (hcounts : CountsInv E t) (h : ProgressInv E t)
    (hstep : SeekStep E t delta t') : ProgressInv E t' := by
  obtain ⟨hpoint, -, hpieces, hprepare, -⟩ := hstep.spec.1
  refine ⟨by rw [hpoint, hpieces]; exact h.pieces, by rw [hpoint, hprepare]; exact h.prepare, ?_⟩
  have haimed : 0 < (t.aimSeek delta).seekTotalPieceCount ∧
      (t.aimSeek delta).seekEndPiece - (t.aimSeek delta).seekBeginPiece + 1 ≤
        (t.aimSeek delta).seekTotalPieceCount := by
    obtain ⟨h₀, h₁⟩ := hcounts.active
    have hwindow := wrapInt_window (t.seekPiece delta) h₀ h₁
    unfold aimSeek
    dsimp only
    omega
  cases hstep with
  | finished => exact h.window
  | unknown => exact fun _ => haimed
  | buffering i p _ _ _ _ hframe =>
    obtain ⟨ps, dl, -, rfl⟩ := hframe
    exact fun _ => haimed
  | sequential p _ _ hframe =>
    obtain ⟨ps, dl, -, rfl⟩ := hframe
    exact fun _ => haimed

/-- **One event** keeps the invariant. -/
theorem ProgressInv.next (hinv : Inv E t) (hcounts : CountsInv E t) (h : ProgressInv E t)
    (hstep : t.next E e = some t') : ProgressInv E t' := by
  cases e with
  | pieceFinished piece =>
    simp only [WatchTask.next, Option.some.injEq] at hstep
    subst hstep
    exact ⟨h.pieces, h.prepare, h.window⟩
  | advance => exact h.advance hinv hstep
  | iterate =>
    obtain ⟨hpoint, -, hpieces, hprepare, -⟩ := sameSetup_of_next (e := .iterate) hinv (by simp) hstep
    refine ⟨by rw [hpoint, hpieces]; exact h.pieces, by rw [hpoint, hprepare]; exact h.prepare, ?_⟩
    simp only [WatchTask.next] at hstep
    split_ifs at hstep with hcond
    obtain ⟨hb, hlast, hactive⟩ := hinv.loop hcond.1
    rw [hb, Option.map_some, Option.some.injEq] at hstep
    subst hstep
    obtain ⟨hbegin, hend, htotal, hstate⟩ := iterate_window hlast hactive E.firstPiece
    intro hs
    rw [hbegin, hend, htotal]
    exact h.window (hstate hs)
  | seek delta =>
    simp only [WatchTask.next] at hstep
    split_ifs at hstep
    rw [Option.some.injEq] at hstep
    subst hstep
    exact h.seek hcounts (hinv.seekStep delta)

/-- **Every run** keeps the invariant. -/
theorem progressInv_of_reachable (h : (machine E).Reachable t) : ProgressInv E t := by
  refine Machine.Reachable.invariant_reachable (I := ProgressInv E) ?_ ?_ h
  · rintro s ⟨service, rfl⟩
    exact progressInv_new service
  · intro s e s' hreach hprogress hstep
    exact hprogress.next (inv_of_reachable hreach) (countsInv_of_reachable hreach) hstep

/-! ### The progress of an iteration -/

/-- A count is one of as many pieces as there are to be counted. -/
theorem downloadedPiecesCount_le (t : WatchTask) {lo hi total : ℤ} (hpos : 0 < total)
    (h : hi - lo + 1 ≤ total) :
    0 ≤ t.downloadedPiecesCount lo hi ∧ t.downloadedPiecesCount lo hi ≤ total := by
  obtain ⟨hle, -⟩ := t.downloadedPiecesCount_spec lo hi
  refine ⟨?_, by omega⟩
  unfold downloadedPiecesCount
  omega

/-- The condition of an iteration: in `SEQUENTIAL_DOWNLOAD` the scan finds no missing piece before
    the file. -/
def ScanGuard (E : WatchedFile) (t : WatchTask) : Prop :=
  t.state = .sequentialDownload →
    ∀ i, max t.currentPiece 0 ≤ i → i < E.firstPiece → t.service.havePiece i = true

/-- The progress from the scan of a file. -/
theorem proper_sequential_iff {state : WatchState} {p : ℤ} (hp : p ≤ E.lastPiece) :
    (WatchMessage.updateProgress state E.pieces (p - E.firstPiece)).Proper ↔ E.firstPiece ≤ p := by
  have hpieces := E.pieces_pos
  unfold WatchedFile.lastPiece at hp
  simp only [WatchMessage.Proper]
  unfold WatchedFile.firstPiece
  omega

/-- Messages that are added. -/
theorem proper_append {sent new : List WatchMessage} (hsent : ∀ m ∈ sent, m.Proper) :
    (∀ m ∈ sent ++ new, m.Proper) ↔ ∀ m ∈ new, m.Proper := by
  rw [List.forall_mem_append]
  exact and_iff_right hsent

/-- A message behind the progress has no progress of its own. -/
theorem proper_cons {m : WatchMessage} {p : Prop} [Decidable p] {m' : WatchMessage}
    (hm' : m'.Proper) : (∀ n ∈ m :: (if p then [m'] else []), n.Proper) ↔ m.Proper := by
  rw [List.forall_mem_cons]
  refine and_iff_left fun n hn => ?_
  split_ifs at hn
  · rw [List.mem_singleton] at hn
    exact hn ▸ hm'
  · exact absurd hn List.not_mem_nil

/-- The progress of a watch that is prepared: there are twice `prepareCount` pieces to be had. -/
theorem proper_prepare {state : WatchState} (h : 0 < t.prepareCount) :
    (WatchMessage.updateProgress state (t.prepareCount * 2)
      (t.preparedPieces first last)).Proper := by
  have hend : last - (last - t.prepareCount + 1) + 1 ≤ t.prepareCount := by omega
  have hbegin : first + t.prepareCount - 1 - first + 1 ≤ t.prepareCount := by omega
  obtain ⟨h₀, h₁⟩ := t.downloadedPiecesCount_le h hend
  obtain ⟨h₂, h₃⟩ := t.downloadedPiecesCount_le h hbegin
  simp only [WatchMessage.Proper, preparedPieces]
  omega

/-- **An iteration** sends proper messages exactly if its scan keeps to the file. -/
theorem iterate_proper_iff (hinv : Inv E t) (h : ProgressInv E t) (hloop : t.InLoop)
    (hp : t.point = .loop) (hs : t.state ≠ .finished) (hsent : ∀ m ∈ t.sent, m.Proper) :
    (∀ m ∈ (t.iterate E.firstPiece E.lastPiece).sent, m.Proper) ↔ t.ScanGuard E := by
  obtain ⟨-, hlast, hactive⟩ := hinv.loop hp
  unfold iterate
  rcases hloop with hst | hst | hst | hst
  · obtain ⟨p, ps, dl, -, heq⟩ := prepare_spec (t := t) E.firstPiece hlast
    simp only [hst, heq]
    have hend : WatchMessage.Proper .videoPrepared := trivial
    refine iff_of_true ((proper_append hsent).mpr ((proper_cons hend).mpr ?_)) ?_
    · exact proper_prepare (h.prepare (Or.inr (Or.inr hp)))
    · intro hseq
      exact absurd (hst.symm.trans hseq) (by decide)
  · obtain ⟨ps, dl, -, heq⟩ := sequential_spec (t := t) E.firstPiece hlast hactive
    simp only [hst, heq]
    have hend : WatchMessage.Proper .downloadFinished := trivial
    refine (proper_append hsent).trans ((proper_cons hend).trans ?_)
    -- of the reports only the sequential one may be out of bounds
    rw [h.pieces (Or.inr (Or.inr (Or.inr hp))), proper_sequential_iff, le_firstMissing_iff]
    · refine ⟨fun hmissing _ => hmissing.2, fun hguard => ⟨E.firstPiece_le_lastPiece, hguard hst⟩⟩
    · exact (le_firstMissing_iff.mp le_rfl).1
  · obtain ⟨ps, dl, -, heq⟩ := buffer_spec (t := t) E.firstPiece hlast hactive
    simp only [hst, heq]
    obtain ⟨htotal, hwindow⟩ := h.window hst
    obtain ⟨h₀, h₁⟩ := t.downloadedPiecesCount_le htotal hwindow
    have hend : WatchMessage.Proper .bufferingFinished := trivial
    refine iff_of_true ((proper_append hsent).mpr ((proper_cons hend).mpr ⟨h₀, h₁, htotal⟩)) ?_
    intro hseq
    exact absurd (hst.symm.trans hseq) (by decide)
  · exact absurd hst hs

/-- The statements before the loop send no progress. -/
theorem advance_proper (h : AdvanceStep E t t') (hsent : ∀ m ∈ t.sent, m.Proper) :
    ∀ m ∈ t'.sent, m.Proper := by
  cases h with
  | started | failed | loadSubtitles =>
    refine (proper_append hsent).mpr ?_
    rw [List.forall_mem_singleton]
    trivial
  | loadMetadata | checkFile | boundaryKnown | counted | activated => exact hsent

/-! ### The progress of a seek -/

/-- Before the number of active pieces is known, the scan stops at the first piece it looks at, also
    where that is missing. -/
theorem updateCurrentPiece_idle_missing {current : ℤ} (first deadline : ℤ)
    (hlast : last < t.filePriorities.length) (hactive : t.activePieceCount ≤ 0)
    (h₀ : 0 ≤ current) (h₁ : current ≤ last) (hmiss : t.service.havePiece current = false) :
    (t.updateCurrentPiece current first last deadline).currentPiece = current := by
  have hnot : ¬t.service.havePiece current = true := by
    rw [hmiss]
    exact Bool.false_ne_true
  unfold updateCurrentPiece updateDownload
  dsimp only
  rw [if_neg (not_lt.mpr h₀), if_neg (not_le.mpr hlast),
    range_eq_cons (show current < last + 1 by omega), downloadLoop, if_neg hnot]
  dsimp only
  rw [if_pos (show t.activePieceCount ≤ 0 + 1 by omega), if_pos rfl]
  exact if_pos (by omega)

/-- A scan that begins behind the file looks at nothing. -/
theorem updateCurrentPiece_behind {current : ℤ} (first deadline : ℤ)
    (hlast : last < t.filePriorities.length) (h₀ : 0 ≤ current) (h₁ : last < current) :
    (t.updateCurrentPiece current first last deadline).currentPiece = last := by
  unfold updateCurrentPiece updateDownload
  dsimp only
  rw [if_neg (not_lt.mpr h₀), if_neg (not_le.mpr hlast),
    range_eq_nil (show last + 1 ≤ current by omega)]
  rfl

/-- **The scan keeps to the file** from `first` on exactly if nothing it looks at before is
    missing. -/
theorem le_updateCurrentPiece_iff {current : ℤ} (first' deadline : ℤ)
    (hlast : last < t.filePriorities.length) (hfirst : first ≤ last) (h₀ : 0 ≤ current) :
    (t.updateCurrentPiece current first' last deadline).currentPiece ≤ last ∧
      (first ≤ (t.updateCurrentPiece current first' last deadline).currentPiece ↔
        ∀ i, current ≤ i → i < first → 0 < t.activePieceCount ∨ i = current →
          t.service.havePiece i = true) := by
  by_cases hactive : 0 < t.activePieceCount
  · obtain ⟨p, ⟨ps, dl, -, heq⟩, hp⟩ :=
      updateCurrentPiece_frame (t := t) first' current deadline hlast
    have hcurrent : (t.updateCurrentPiece current first' last deadline).currentPiece =
        firstMissing t.service.havePiece current last := by
      rw [heq, ← hp hactive]
      rfl
    rw [hcurrent]
    refine ⟨(le_firstMissing_iff.mp le_rfl).1, le_firstMissing_iff.trans ?_⟩
    rw [max_eq_left h₀]
    exact ⟨fun h i hi hif _ => h.2 i hi hif, fun h => ⟨hfirst, fun i hi hif =>
      h i hi hif (Or.inl hactive)⟩⟩
  · -- only the piece it begins with is looked at
    have honly : (∀ i, current ≤ i → i < first → 0 < t.activePieceCount ∨ i = current →
        t.service.havePiece i = true) ↔ (current < first → t.service.havePiece current = true) := by
      refine ⟨fun h hlt => h current le_rfl hlt (Or.inr rfl), ?_⟩
      rintro h i - hlt (hpos | rfl)
      · exact absurd hpos hactive
      · exact h hlt
    rw [honly]
    by_cases hbehind : last < current
    · rw [updateCurrentPiece_behind first' deadline hlast h₀ hbehind]
      exact ⟨le_rfl, iff_of_true hfirst fun hlt => absurd hlt (by omega)⟩
    · cases hhad : t.service.havePiece current with
      | true =>
        rw [updateCurrentPiece_idle current first' deadline hlast (not_lt.mp hactive) h₀
          (not_lt.mp hbehind) hhad]
        exact ⟨le_rfl, iff_of_true hfirst fun _ => rfl⟩
      | false =>
        rw [updateCurrentPiece_idle_missing first' deadline hlast (not_lt.mp hactive) h₀
          (not_lt.mp hbehind) hhad]
        exact ⟨not_lt.mp hbehind, fun hle hlt => absurd hle (by omega), fun h =>
          not_lt.mp fun hlt => absurd (h hlt) nofun⟩

/-- No piece of the window is missing, piece `0` and pieces outside the torrent left out. -/
def AimedHad (E : WatchedFile) (t : WatchTask) (delta : ℚ) : Prop :=
  ∀ i, wrapInt (t.seekPiece delta - t.activePieceCount) ≤ i →
    i ≤ wrapInt (t.seekPiece delta + t.activePieceCount) → 0 < i → i < E.numPieces →
      t.service.havePiece i = true

/-- The condition of a seek: the boundary is known, and where no piece of the window is missing the
    pieces have been counted and the scan finds none before the file. -/
def AimGuard (E : WatchedFile) (t : WatchTask) (delta : ℚ) : Prop :=
  t.state ≠ .finished → t.fileBoundary ≠ none ∧ (t.AimedHad E delta →
    t.filePieceCount ≠ 0 ∧ ∀ i, t.seekPiece delta ≤ i → i < E.firstPiece →
      0 < t.activePieceCount ∨ i = t.seekPiece delta → t.service.havePiece i = true)

/-- A seek finds no piece if all it looks at are had. -/
theorem seekHit?_eq_none (hlen : (t.filePriorities.length : ℤ) = E.numPieces) (delta : ℚ) :
    (t.aimSeek delta).seekHit? = none ↔ t.AimedHad E delta := by
  unfold seekHit? AimedHad
  rw [find?_range_eq_none]
  refine forall_congr' fun i => ?_
  rw [show (t.aimSeek delta).filePriorities = t.filePriorities from rfl, hlen]
  simp only [aimSeek, Int.lt_add_one_iff, Bool.and_eq_false_imp, decide_eq_true_eq, and_imp,
    Bool.not_eq_false']

/-- A watch that has neither failed nor finished has a next statement or iteration. -/
theorem isSome_next (hinv : Inv E t) (hpoint : t.point ≠ .ended) (hs : t.state ≠ .finished) :
    (t.next E .advance).isSome ∨ (t.next E .iterate).isSome := by
  cases hp : t.point with
  | started | loadMetadata | activated | loadSubtitles =>
    refine Or.inl ?_
    simp only [WatchTask.next, WatchTask.advance, hp, Option.isSome_some]
  | checkFile =>
    refine Or.inl ?_
    simp only [WatchTask.next, WatchTask.advance, hp, E.getFileBoundary_piecePriorities,
      Option.isSome_some]
  | boundaryKnown =>
    have hb := (hinv.boundary.resolve_left (hinv.located (Or.inl hp))).1
    refine Or.inl ?_
    simp only [WatchTask.next, WatchTask.advance, hp, hb, Option.isSome_some]
  | counted =>
    refine Or.inl ?_
    simp only [WatchTask.next, WatchTask.advance, hp]
    split <;> rfl
  | loop =>
    refine Or.inr ?_
    simp only [WatchTask.next]
    rw [if_pos ⟨hp, hs⟩, (hinv.loop hp).1]
    rfl
  | ended => exact absurd hp hpoint

/-- A seek that is answered lets the run go on. -/
theorem goesOn_seek (hinv : Inv E t) (hpoint : t.point ≠ .ended) (hanswer : t.fileBoundary ≠ none) :
    (t.seek delta).1.GoesOn E := by
  have hinv' := (stepFacts_seek hinv (hinv.seekStep delta)).inv
  obtain ⟨hsetup, ⟨hsame, hturned⟩ | ⟨-, -, hstate⟩⟩ := (hinv.seekStep delta).spec
  · exact Or.inl (hsame.trans (hturned.resolve_right hanswer))
  · refine Or.inr ⟨hstate, isSome_next hinv' (by rw [hsetup.1]; exact hpoint) fun hs => ?_⟩
    rw [hs] at hstate
    rcases hstate with hstate | hstate <;> cases hstate

/-- The messages of a seek that finds a missing piece. -/
theorem SeekStep.proper_of_buffering (h : SeekStep E t delta t') (hs : t.state ≠ .finished)
    (hb : t.fileBoundary ≠ none) (hinv : ProgressInv E t') (hstate : t'.state = .buffering)
    (hsent : ∀ m ∈ t.sent, m.Proper) : ∀ m ∈ t'.sent, m.Proper := by
  cases h with
  | finished hfinished => exact absurd hfinished hs
  | unknown _ hnone => exact absurd hnone hb
  | buffering i p _ _ _ _ hframe =>
    obtain ⟨ps, dl, -, rfl⟩ := hframe
    obtain ⟨htotal, hwindow⟩ := hinv.window hstate
    obtain ⟨h₀, h₁⟩ := t.downloadedPiecesCount_le htotal hwindow
    refine (proper_append hsent).mpr ?_
    rw [List.forall_mem_singleton]
    exact ⟨h₀, h₁, htotal⟩
  | sequential p _ _ hframe =>
    obtain ⟨ps, dl, -, rfl⟩ := hframe
    cases hstate

/-- Those of a seek that finds none. -/
theorem SeekStep.proper_iff_of_sequential (h : SeekStep E t delta t') (hs : t.state ≠ .finished)
    (hb : t.fileBoundary ≠ none) (hcounts : CountsInv E t) (hstate : t'.state = .sequentialDownload)
    (hle : t'.currentPiece ≤ E.lastPiece) (hsent : ∀ m ∈ t.sent, m.Proper) :
    (∀ m ∈ t'.sent, m.Proper) ↔ t.filePieceCount ≠ 0 ∧ E.firstPiece ≤ t'.currentPiece := by
  cases h with
  | finished hfinished => exact absurd hfinished hs
  | unknown _ hnone => exact absurd hnone hb
  | buffering i p _ _ _ _ hframe =>
    obtain ⟨ps, dl, -, rfl⟩ := hframe
    cases hstate
  | sequential p _ _ hframe =>
    obtain ⟨ps, dl, -, rfl⟩ := hframe
    refine (proper_append hsent).trans ?_
    rw [List.forall_mem_singleton]
    have hpieces := E.pieces_pos
    rcases hcounts.pieces with hzero | hcount
    · -- nothing has been counted
      rw [hzero]
      exact iff_of_false (fun h => absurd h.2.2 (by decide)) fun h => h.1 rfl
    · have hp : p ≤ E.lastPiece := hle
      rw [hcount, proper_sequential_iff hp]
      exact ⟨fun h => ⟨by omega, h⟩, fun h => h.2⟩

/-- The current piece of a seek that finds no missing piece in its window. -/
theorem seek_current (hs : t.state ≠ .finished) (hb : t.fileBoundary = some (first, last))
    (hlast : last < t.filePriorities.length) (hfirst : first ≤ last) (hpiece : 0 ≤ t.seekPiece delta)
    (hhit : (t.aimSeek delta).seekHit? = none) :
    (t.seek delta).1.currentPiece ≤ last ∧ (first ≤ (t.seek delta).1.currentPiece ↔
      ∀ i, t.seekPiece delta ≤ i → i < first → 0 < t.activePieceCount ∨ i = t.seekPiece delta →
        t.service.havePiece i = true) := by
  have hlast' : last < (((t.aimSeek delta).clearForSeek first last).filePriorities.length : ℤ) := by
    rw [length_clearForSeek]
    exact hlast
  have hcurrent := le_updateCurrentPiece_iff
    (t := { (t.aimSeek delta).clearForSeek first last with state := .sequentialDownload }) first 0
    hlast' hfirst hpiece
  have heq : (t.seek delta).1.currentPiece =
      (({ (t.aimSeek delta).clearForSeek first last with state := .sequentialDownload }
        : WatchTask).updateCurrentPiece (t.seekPiece delta) first last 0).currentPiece := by
    rw [seek_of_known hs hb]
    unfold seekWindow
    dsimp only
    rw [seekHit?_clearForSeek, hhit]
    rfl
  rw [heq]
  exact hcurrent

/-- **A seek** is answered and sends a proper message exactly if its guard is met. -/
theorem seek_safe_iff (hreach : (machine E).Reachable t) (hpoint : t.point ≠ .ended)
    (hdelta : 0 ≤ delta) (hsent : ∀ m ∈ t.sent, m.Proper) :
    ((t.seek delta).2 ≠ none ∧ (t.seek delta).1.GoesOn E ∧
      ∀ m ∈ (t.seek delta).1.sent, m.Proper) ↔ t.AimGuard E delta := by
  have hinv := inv_of_reachable hreach
  have hcounts := countsInv_of_reachable hreach
  by_cases hs : t.state = .finished
  · have hseek : t.seek delta = (t, some false) := if_pos hs
    rw [hseek]
    exact iff_of_true ⟨nofun, Or.inl hs, hsent⟩ fun hno => absurd hs hno
  rcases hinv.boundary with hb | ⟨hb, hlen⟩
  · have hseek : t.seek delta = (t.aimSeek delta, none) := by
      unfold seek
      rw [if_neg hs, hb]
    rw [hseek]
    -- before the boundary is known a seek throws
    exact iff_of_false (fun h => h.1 rfl) fun h => (h hs).1 hb
  have hlast : E.lastPiece < (t.filePriorities.length : ℤ) := hlen ▸ E.lastPiece_lt
  have hknown : t.fileBoundary ≠ none := by
    rw [hb]
    exact nofun
  have hgoes : (t.seek delta).1.GoesOn E := goesOn_seek hinv hpoint hknown
  have hstep := hinv.seekStep delta
  have hwindow := seekHit?_eq_none hlen delta
  cases hhit : (t.aimSeek delta).seekHit? with
  | some i =>
    obtain ⟨hanswer, hstate, -⟩ := seek_of_hit hs hb hlast hhit
    -- a piece of the window is missing: the task buffers from there
    have hprogress := (progressInv_of_reachable hreach).seek hcounts hstep
    refine iff_of_true ⟨by rw [hanswer]; exact nofun, hgoes,
      hstep.proper_of_buffering hs hknown hprogress hstate hsent⟩ fun _ => ⟨hknown, fun hhad => ?_⟩
    exact absurd (hwindow.mpr hhad) (by rw [hhit]; exact nofun)
  | none =>
    obtain ⟨hanswer, hstate, -⟩ := seek_of_noHit hs hb hlast hhit
    -- the whole window is there: the task goes on in sequence
    obtain ⟨hindex, hpiece⟩ := seekPiece_eq hcounts hdelta
    obtain ⟨hle, hcurrent⟩ := seek_current hs hb hlast E.firstPiece_le_lastPiece
      (show 0 ≤ t.seekPiece delta by omega) hhit
    rw [hstep.proper_iff_of_sequential hs hknown hcounts hstate hle hsent, hcurrent]
    constructor
    · rintro ⟨-, -, hproper⟩ -
      exact ⟨hknown, fun _ => hproper⟩
    · intro hguard
      exact ⟨by rw [hanswer]; exact nofun, hgoes, (hguard hs).2 (hwindow.mp hhit)⟩

end WatchTask

/-- A watch, and whether a seek has thrown or has left it where the run does not go on. -/
structure SeekedWatch where
  task : WatchTask
  broken : Bool

namespace SeekedWatch

/-- The seek is one to a fraction. -/
def Fraction : WatchEvent → Prop
  | .seek delta => 0 ≤ delta ∧ delta ≤ 1
  | .pieceFinished _ | .advance | .iterate => True

instance (e : WatchEvent) : Decidable (Fraction e) := by
  cases e <;> unfold Fraction <;> infer_instance

/-- The event breaks the watch. -/
def breaks (E : WatchedFile) (t : WatchTask) : WatchEvent → Bool
  | .seek delta => decide ((t.seek delta).2 = none ∨ ¬(t.seek delta).1.GoesOn E)
  | .pieceFinished _ | .advance | .iterate => false

def next (E : WatchedFile) (s : SeekedWatch) (e : WatchEvent) : Option SeekedWatch :=
  if Fraction e then
    (s.task.next E e).map fun t' => { task := t', broken := s.broken || breaks E s.task e }
  else none

/-- The machine of all runs for a file, with seeks to any fraction. -/
def machine (E : WatchedFile) : Machine SeekedWatch WatchEvent :=
  Machine.ofFun (fun s => ∃ service, s = ⟨.new service, false⟩) (next E)

/-- **The watch is safe**: no seek has thrown, the run goes on, and all progress is proper. -/
def Safe (s : SeekedWatch) : Prop :=
  s.broken = false ∧ ∀ m ∈ s.task.sent, m.Proper

/-- The condition of a step. -/
def SafeGuard (E : WatchedFile) (s : SeekedWatch) : WatchEvent → Prop
  | .seek delta => s.task.AimGuard E delta
  | .iterate => s.task.ScanGuard E
  | .pieceFinished _ | .advance => True

variable {E : WatchedFile} {s s' : SeekedWatch} {e : WatchEvent}

/-- A step is one of the task by a fraction, and the note follows. -/
theorem step_iff : (machine E).step s e s' ↔
    Fraction e ∧ s.task.next E e = some s'.task ∧ s'.broken = (s.broken || breaks E s.task e) := by
  show next E s e = some s' ↔ _
  unfold next
  rw [Option.ite_none_right_eq_some, Option.map_eq_some_iff]
  refine and_congr_right fun _ => ⟨?_, ?_⟩
  · rintro ⟨t', ht, rfl⟩
    exact ⟨ht, rfl⟩
  · rintro ⟨ht, hbroken⟩
    exact ⟨s'.task, ht, by rw [← hbroken]⟩

/-- The task of a seeked run runs. -/
theorem reachable_task (h : (machine E).Reachable s) : (WatchTask.machine E).Reachable s.task := by
  refine Machine.Reachable.invariant (I := fun s => (WatchTask.machine E).Reachable s.task) ?_ ?_ h
  · rintro s ⟨service, rfl⟩
    exact Machine.Reachable.start ⟨service, rfl⟩
  · intro s e s' hreach hstep
    exact hreach.next (e := e) (step_iff.mp hstep).2.1

/-- A step that is no seek breaks nothing. -/
theorem safe_iff_of_not_breaks (hstep : (machine E).step s e s') (hsafe : s.Safe)
    (hbreaks : breaks E s.task e = false) : s'.Safe ↔ ∀ m ∈ s'.task.sent, m.Proper := by
  obtain ⟨-, -, hbroken⟩ := step_iff.mp hstep
  refine and_iff_right ?_
  rw [hbroken, hsafe.1, hbreaks]
  rfl

/-- **One event** keeps the watch safe exactly if it meets the guard. -/
theorem safe_iff (hreach : (machine E).Reachable s) (hsafe : s.Safe)
    (hstep : (machine E).step s e s') : s'.Safe ↔ SafeGuard E s e := by
  have htask := reachable_task hreach
  have hinv := WatchTask.inv_of_reachable htask
  obtain ⟨hfraction, hnext, hbroken⟩ := step_iff.mp hstep
  cases e with
  | pieceFinished piece =>
    rw [safe_iff_of_not_breaks hstep hsafe rfl]
    simp only [WatchTask.next, Option.some.injEq] at hnext
    rw [← hnext]
    exact iff_of_true hsafe.2 trivial
  | advance =>
    rw [safe_iff_of_not_breaks hstep hsafe rfl]
    exact iff_of_true (WatchTask.advance_proper (WatchTask.advanceStep hinv hnext) hsafe.2) trivial
  | iterate =>
    rw [safe_iff_of_not_breaks hstep hsafe rfl]
    simp only [WatchTask.next] at hnext
    split_ifs at hnext with hcond
    -- in the loop the boundary is known, so the iteration runs
    rw [(hinv.loop hcond.1).1, Option.map_some, Option.some.injEq] at hnext
    rw [← hnext]
    exact WatchTask.iterate_proper_iff hinv (WatchTask.progressInv_of_reachable htask)
      (WatchTask.inLoop_of_reachable htask hcond.1) hcond.1 hcond.2 hsafe.2
  | seek delta =>
    simp only [WatchTask.next] at hnext
    split_ifs at hnext with hpoint
    rw [Option.some.injEq] at hnext
    refine Iff.trans ?_ (WatchTask.seek_safe_iff htask hpoint hfraction.1 hsafe.2)
    rw [Safe, hbroken, hsafe.1, ← hnext]
    simp only [breaks, Bool.false_or, decide_eq_false_iff_not, not_or, not_not, and_assoc]

/-- The guard is met exactly by the events that keep the watch safe. -/
theorem safeGuard_exact (E : WatchedFile) :
    (machine E).ExactGuard (fun _ => True) (SafeGuard E) Safe where
  init_iff := by
    rintro s ⟨service, rfl⟩
    exact iff_of_true ⟨rfl, by simp [WatchTask.new]⟩ trivial
  step_iff _ _ _ hreach hsafe hstep := safe_iff hreach hsafe hstep

/-- **Seeks at any moment.**  Every run whose steps meet the guard is safe in every state, and from
    a reachable safe state a step that does not meet it leads to one that is not. -/
theorem safe_of_guard (E : WatchedFile) :
    (∀ s, (machine E).RunUnder (fun _ => True) (SafeGuard E) s → s.Safe) ∧
      (machine E).ExactGuard (fun _ => True) (SafeGuard E) Safe :=
  ⟨fun _ => (safeGuard_exact E).runUnder, safeGuard_exact E⟩

/-- The player seeks when the thread has only just been started. -/
theorem early_seek_throws :
    ∃ s, (machine WatchTask.tenPieces).Reachable s ∧ (s.task.seek (1 / 2)).2 = none ∧ ¬s.Safe := by
  have hrun : (Machine.runEvents (next WatchTask.tenPieces)
      ⟨.new ⟨fun _ => false, fun _ => none, 10 * SIZE_MB⟩, false⟩ [.seek (1 / 2)]).map
        (fun s => ((s.task.seek (1 / 2)).2, s.broken)) = some (none, true) := by
    decide +kernel
  obtain ⟨s, hreach, heq⟩ := Machine.Reachable.exists_of_runEvents
    (show (machine WatchTask.tenPieces).Reachable _ from .start ⟨_, rfl⟩) hrun
  obtain ⟨hanswer, hbroken⟩ := Prod.mk.inj heq
  exact ⟨s, hreach, hanswer, fun hsafe => absurd (hbroken.symm.trans hsafe.1) nofun⟩

/-- The file lies behind ten pieces of another one, of which only the sixth is missing.  A seek to
    the beginning looks from piece `0` on and stops there, four pieces before the file. -/
theorem negative_progress :
    ∃ s, (machine ⟨10, 10, 0, by decide⟩).Reachable s ∧
      .updateProgress .sequentialDownload 10 (-4) ∈ s.task.sent ∧ ¬s.Safe := by
  have hrun : (Machine.runEvents (next ⟨10, 10, 0, by decide⟩)
      ⟨.new ⟨fun i => decide (i ≠ 6), fun _ => none, 10 * SIZE_MB⟩, false⟩
      (WatchTask.startEvents ++ [.seek 0])).map
        (fun s => decide (.updateProgress .sequentialDownload 10 (-4) ∈ s.task.sent)) =
          some true := by
    decide +kernel
  obtain ⟨s, hreach, heq⟩ := Machine.Reachable.exists_of_runEvents
    (show (machine ⟨10, 10, 0, by decide⟩).Reachable _ from .start ⟨_, rfl⟩) hrun
  have hmem := of_decide_eq_true heq
  refine ⟨s, hreach, hmem, fun hsafe => ?_⟩
  exact absurd (hsafe.2 _ hmem).1 (by decide)

end SeekedWatch

end PopcornTime.Android
