import PopcornTime.Android.WatchRun

namespace PopcornTime.Android

open PopcornTime

/-!
# Android watch — how a download and a buffering end

`updateDownload` answers the last piece both when nothing is missing and when the last piece
itself is, `seek` moves the current piece past gaps, and the window of a seek is compared with
the current piece although it may end behind the file.  So a download may be reported finished
with pieces missing, and a buffering may end too early or never.

* `finishedRight_of_guard` — when `FINISHED` and `DOWNLOAD_FINISHED` say the truth.
* `bufferingRight_iff` — when `BUFFERING` ends exactly with the pieces of its window.
-/

namespace WatchTask

variable {E : WatchedFile} {t t' : WatchTask}

/-! ### The download is finished only when it is complete -/

/-- `FINISHED` and `DOWNLOAD_FINISHED` say the truth: every piece of the file is had. -/
def FinishedRight (E : WatchedFile) (t : WatchTask) : Prop :=
  t.state = .finished ∨ .downloadFinished ∈ t.sent → E.Complete t.service.havePiece

/-- An iteration that downloads sequentially and finds nothing missing from the current piece up
    to the last but one also has the last piece, and nothing before the current piece is
    missing. -/
def FinishGuard (E : WatchedFile) (t : WatchTask) (e : WatchEvent) : Prop :=
  e = .iterate → t.state = .sequentialDownload →
    (∀ i, max t.currentPiece 0 ≤ i → i < E.lastPiece → t.service.havePiece i = true) →
    t.service.havePiece E.lastPiece = true ∧
      ∀ i, E.firstPiece ≤ i → i < t.currentPiece → i ≤ E.lastPiece → t.service.havePiece i = true

theorem finishedRight_iff (h : Inv E t) :
    t.FinishedRight E ↔ (t.state = .finished → E.Complete t.service.havePiece) := by
  unfold FinishedRight
  constructor
  · exact fun hr hs => hr (Or.inl hs)
  · rintro hr (hs | hm)
    · exact hr hs
    · exact hr (h.finished hm)

/-- A piece that is had stays had. -/
theorem complete_haveAfter (e : WatchEvent) (h : E.Complete t.service.havePiece) :
    E.Complete (t.haveAfter e) := by
  intro i h₀ h₁
  cases e with
  | pieceFinished piece =>
    show Function.update t.service.havePiece piece true i = true
    rw [Function.update_apply, h i h₀ h₁, ite_self]
  | advance | iterate | seek delta => exact h i h₀ h₁

theorem finishGuard_exact (E : WatchedFile) :
    (machine E).ExactGuard (fun _ => True) (FinishGuard E) (FinishedRight E) where
  init_iff := by
    rintro s ⟨service, rfl⟩
    -- a new task is not finished
    simp [FinishedRight, new]
  step_iff := by
    intro t e t' hreach hright hstep
    have hinv := inv_of_reachable hreach
    have hfacts := stepFacts hinv hstep
    rw [finishedRight_iff hinv] at hright
    rw [finishedRight_iff hfacts.inv, hfacts.finished_iff, hfacts.havePiece]
    unfold FinishGuard
    constructor
    · intro hr he hs hscan
      subst he
      have hc : E.Complete t.service.havePiece := hr (Or.inr ⟨rfl, hs, hscan⟩)
      exact ⟨hc _ E.firstPiece_le_lastPiece (le_refl _), fun i h₀ _ h₁ => hc i h₀ h₁⟩
    · rintro hguard (hs | ⟨rfl, hs, hscan⟩)
      · -- it was finished before, and no piece is lost
        exact complete_haveAfter e (hright hs)
      · -- it finishes now: the guard covers what the scan does not look at
        obtain ⟨hlast, hbefore⟩ := hguard rfl hs hscan
        intro i h₀ h₁
        have hfirst := E.firstPiece_nonneg
        show t.service.havePiece i = true
        rcases eq_or_lt_of_le h₁ with rfl | hlt
        · exact hlast
        · by_cases hc : i < t.currentPiece
          · exact hbefore i h₀ hc h₁
          · exact hscan i (by omega) hlt

/-- **The end of a watch.**  In every run that meets the guard, `FINISHED` and
    `DOWNLOAD_FINISHED` come only when every piece of the file is had; and the guard is exact:
    the iteration that breaks it finishes with a piece missing. -/
theorem finishedRight_of_guard (E : WatchedFile) :
    (∀ t, (machine E).RunUnder (fun _ => True) (FinishGuard E) t → t.FinishedRight E) ∧
    (machine E).ExactGuard (fun _ => True) (FinishGuard E) (FinishedRight E) :=
  ⟨fun _ => (finishGuard_exact E).runUnder, finishGuard_exact E⟩

/-- Only piece `3` is missing.  A seek to three quarters of the file finds its window had, goes on
    sequentially from piece `7`, and the next iteration finishes. -/
theorem finished_with_gap :
    ∃ t, (machine tenPieces).Reachable t ∧ ¬t.FinishedRight tenPieces := by
  have hrun : (Machine.runEvents (next tenPieces)
      (new ⟨fun i => decide (i ≠ 3), fun _ => none, 10 * SIZE_MB⟩)
      (startEvents ++ [.iterate, .seek (3 / 4), .iterate])).map
        (fun t => (t.state, t.service.havePiece 3)) = some (.finished, false) := by
    decide +kernel
  obtain ⟨t, hreach, heq⟩ := Machine.Reachable.exists_of_runEvents
    (show (machine tenPieces).Reachable _ from .start ⟨_, rfl⟩) hrun
  simp only [Prod.mk.injEq] at heq
  refine ⟨t, hreach, fun hr => ?_⟩
  -- piece `3` lies before the window of the seek
  have hhad := hr (Or.inl heq.1) 3 (by decide) (by decide)
  rw [heq.2] at hhad
  exact absurd hhad (by simp)

/-! ### Buffering ends with the pieces of its window -/

/-- Piece `i` lies in the window of the seek and in the file. -/
def InWindow (E : WatchedFile) (t : WatchTask) (i : ℤ) : Prop :=
  (t.seekBeginPiece ≤ i ∧ i ≤ t.seekEndPiece) ∧ E.firstPiece ≤ i ∧ i ≤ E.lastPiece

/-- All pieces of the window that lie in the file are had. -/
def WindowHad (E : WatchedFile) (t : WatchTask) : Prop :=
  ∀ i, t.InWindow E i → t.service.havePiece i = true

/-- One of them is missing. -/
def WindowMissing (E : WatchedFile) (t : WatchTask) : Prop :=
  ∃ i, t.InWindow E i ∧ t.service.havePiece i = false

/-- A buffering is right about an event: an iteration ends it with `BUFFERING_FINISHED` if the
    window is had and goes on if not, an arrival or a statement of the thread leaves it alone.
    Another seek opens another window. -/
def BufferingRight (E : WatchedFile) (t : WatchTask) (e : WatchEvent) (t' : WatchTask) : Prop :=
  t.state = .buffering →
    match e with
    | .iterate => (t.WindowHad E → t.BufferingFinishes t') ∧ (¬t.WindowHad E → t.BufferingGoesOn t')
    | .seek _ => True
    | .advance | .pieceFinished _ => t.BufferingGoesOn t'

/-- A missing piece that the scan of an iteration meets before the end of the window. -/
def AheadMissing (t : WatchTask) : Prop :=
  ∃ i, max t.currentPiece 0 ≤ i ∧ i < t.seekEndPiece ∧ t.service.havePiece i = false

/-- The condition of an iteration in `BUFFERING`.  If the window ends behind the file, or the
    scan meets a missing piece in front of the file, a piece of the window is missing.  If the
    window ends inside the file and its last piece or piece `0` is missing, the scan meets another
    missing piece. -/
def WindowGuard (E : WatchedFile) (t : WatchTask) : Prop :=
  (E.lastPiece < t.seekEndPiece → t.WindowMissing E) ∧
  (∀ i, max t.currentPiece 0 ≤ i → i < t.seekEndPiece → i < E.firstPiece →
    t.service.havePiece i = false → t.WindowMissing E) ∧
  (t.seekEndPiece ≤ E.lastPiece → ∀ i, t.InWindow E i → i = t.seekEndPiece ∨ i = 0 →
    t.service.havePiece i = false → t.AheadMissing)

/-- The condition of an event: for an iteration `WindowGuard`; and the thread does not write
    `state` on its way to the loop while a seek is buffering. -/
def BufferingGuard (E : WatchedFile) (t : WatchTask) (e : WatchEvent) : Prop :=
  t.state = .buffering →
    match e with
    | .iterate => t.WindowGuard E
    | .advance => t.point.KeepsState
    | .seek _ | .pieceFinished _ => True

theorem not_windowHad_iff : ¬t.WindowHad E ↔ t.WindowMissing E := by
  simp [WindowHad, WindowMissing]

theorem not_aheadMissing_iff : ¬t.AheadMissing ↔
    ∀ i, max t.currentPiece 0 ≤ i → i < t.seekEndPiece → t.service.havePiece i = true := by
  simp [AheadMissing]

/-- In `BUFFERING`, the scan reaches the end of the window exactly when the window is had, under
    the guard and only then. -/
theorem scanReachesEnd_iff_windowHad_iff (hw : t.WindowScanned E) :
    (t.ScanReachesEnd E ↔ t.WindowHad E) ↔ t.WindowGuard E := by
  have hreach : t.ScanReachesEnd E ↔ t.seekEndPiece ≤ E.lastPiece ∧ ¬t.AheadMissing := by
    rw [not_aheadMissing_iff]
    rfl
  have hfirst := E.firstPiece_nonneg
  constructor
  · intro hiff
    rw [hreach, ← not_iff_not, not_windowHad_iff] at hiff
    refine ⟨fun hlt => hiff.mp (fun h => by omega), fun i hi hie _ hmiss => ?_, ?_⟩
    · exact hiff.mp (fun h => h.2 ⟨i, hi, hie, hmiss⟩)
    · intro hle i hi _ hmiss
      by_contra hno
      exact hiff.mpr ⟨i, hi, hmiss⟩ ⟨hle, hno⟩
  · rintro ⟨hbehind, hfront, hedge⟩
    rw [hreach]
    constructor
    · rintro ⟨hle, hno⟩
      by_contra hcon
      obtain ⟨i, hi, hmiss⟩ := not_windowHad_iff.mp hcon
      obtain ⟨⟨hb, he⟩, h₀, h₁⟩ := hi
      have hlast := E.lastPiece_lt
      -- the edges of the window are not in the scan, the guard speaks of them
      have hne : i ≠ t.seekEndPiece ∧ i ≠ 0 := by
        constructor <;> rintro rfl
        · exact hno (hedge hle _ ⟨⟨hb, he⟩, h₀, h₁⟩ (Or.inl rfl) hmiss)
        · exact hno (hedge hle _ ⟨⟨hb, he⟩, h₀, h₁⟩ (Or.inr rfl) hmiss)
      by_cases hc : i < t.currentPiece
      · rw [hw.1 i hb hc (by omega) (by omega)] at hmiss
        exact absurd hmiss (by simp)
      · exact hno ⟨i, by omega, by omega, hmiss⟩
    · intro hhad
      have hno : ¬t.WindowMissing E := fun h => not_windowHad_iff.mpr h hhad
      have hle : t.seekEndPiece ≤ E.lastPiece := by
        by_contra hlt
        exact hno (hbehind (by omega))
      refine ⟨hle, ?_⟩
      rintro ⟨i, hi, hie, hmiss⟩
      -- a missing piece ahead lies in the window, or before the file
      by_cases hf : i < E.firstPiece
      · exact hno (hfront i hi hie hf hmiss)
      · have hsb := hw.2 hle
        exact hno ⟨i, ⟨⟨by omega, by omega⟩, by omega, by omega⟩, hmiss⟩

/-- Buffering cannot both end and go on. -/
theorem BufferingFinishes.not_goesOn (h : t.BufferingFinishes t') : ¬t.BufferingGoesOn t' := by
  rintro ⟨hs, -⟩
  rw [h.1] at hs
  exact absurd hs (by simp)

theorem stepFacts_bufferingRight_iff {e : WatchEvent} (hinv : Inv E t)
    (hstep : t.next E e = some t') : t.BufferingRight E e t' ↔ t.BufferingGuard E e := by
  have hfacts := stepFacts hinv hstep
  refine imp_congr_right (fun hs => ?_)
  cases e with
  -- an arrival sends nothing and leaves the state
  | pieceFinished piece =>
    exact iff_of_true ⟨hfacts.arrival hs ⟨piece, rfl⟩, hfacts.quiet (by simp)⟩ trivial
  | advance =>
    show t.BufferingGoesOn t' ↔ t.point.KeepsState
    rw [← hfacts.advance_iff hs rfl, BufferingGoesOn, hfacts.quiet (by simp)]
    simp
  | seek delta => exact Iff.rfl
  | iterate =>
    obtain ⟨hend, hon⟩ := hfacts.iteration hs rfl
    have hloop : t.point = .loop := by
      by_contra hp
      simp [next, hp] at hstep
    rw [← scanReachesEnd_iff_windowHad_iff (hinv.window hs hloop)]
    show (t.WindowHad E → _) ∧ (¬t.WindowHad E → _) ↔ _
    -- the iteration ends buffering exactly when its scan reaches the end of the window
    by_cases hhad : t.WindowHad E <;> by_cases hscan : t.ScanReachesEnd E
    · simp [hhad, hscan, hend hscan]
    · have hno : ¬t.BufferingFinishes t' := fun h => h.not_goesOn (hon hscan)
      simp [hhad, hscan, hno]
    · have hno := (hend hscan).not_goesOn
      simp [hhad, hscan, hno]
    · simp [hhad, hscan, hon hscan]

/-- A seek that answers true enters `BUFFERING`. -/
theorem Inv.state_of_seek_true (hinv : Inv E t) {delta : ℚ}
    (h : (t.seek delta).2 = some true) : (t.seek delta).1.state = .buffering := by
  unfold seek at h ⊢
  by_cases hs : t.state = .finished
  · -- a finished task answers `false`, and a boundary that is not known throws
    simp [hs] at h
  rw [if_neg hs] at h ⊢
  rcases hinv.boundary with hb | ⟨hb, hlen⟩
  · simp [hb] at h
  · have hlast : E.lastPiece < ((t.aimSeek delta).filePriorities.length : ℤ) := by
      rw [show (t.aimSeek delta).filePriorities = t.filePriorities from rfl, hlen]
      exact E.lastPiece_lt
    simp only [hb] at h ⊢
    rcases seekWindow_spec E.firstPiece (t.seekPiece delta) hlast with
      ⟨i, p, -, -, -, ps, dl, -, heq⟩ | ⟨p, hanswer, -⟩
    · rw [heq]
      rfl
    · simp [hanswer] at h

/-- **Buffering.**  In every run an accepted seek enters `BUFFERING`, and `BUFFERING_FINISHED`
    is sent by iterations in `BUFFERING` only.  Every step of a run is right about a buffering
    exactly under the guard; so every step of a run that meets the guard is right. -/
theorem bufferingRight_iff (E : WatchedFile) :
    (∀ t, (machine E).Reachable t → ∀ delta, (t.seek delta).2 = some true →
      (t.seek delta).1.state = .buffering) ∧
    (∀ t e t', (machine E).Reachable t → (machine E).step t e t' →
      ¬(e = .iterate ∧ t.state = .buffering) →
      t'.sent.count .bufferingFinished = t.sent.count .bufferingFinished) ∧
    (∀ t e t', (machine E).Reachable t → (machine E).step t e t' →
      (t.BufferingRight E e t' ↔ t.BufferingGuard E e)) ∧
    (∀ t, (machine E).RunUnder (fun _ => True) (BufferingGuard E) t →
      ∀ e t', t.BufferingGuard E e → (machine E).step t e t' → t.BufferingRight E e t') := by
  have hiff : ∀ t e t', (machine E).Reachable t → (machine E).step t e t' →
      (t.BufferingRight E e t' ↔ t.BufferingGuard E e) :=
    fun t e t' hreach hstep => stepFacts_bufferingRight_iff (inv_of_reachable hreach) hstep
  refine ⟨fun t hreach delta => (inv_of_reachable hreach).state_of_seek_true, ?_, hiff, ?_⟩
  · -- no other step sends the message
    intro t e t' hreach hstep
    exact (stepFacts (inv_of_reachable hreach) hstep).quiet
  · intro t hrun e t' hguard hstep
    exact (hiff t e t' hrun.reachable hstep).mpr hguard

/-- A seek to seven eighths of the file opens a window that ends behind it; once the only missing
    piece has arrived the window is had, and buffering goes on all the same.  A seek to the middle
    opens a window of pieces `2` to `8`, whose last piece is still missing when
    `BUFFERING_FINISHED` is sent. -/
theorem buffering_wrong :
    (∃ t t', (machine tenPieces).Reachable t ∧ (machine tenPieces).step t .iterate t' ∧
      t.state = .buffering ∧ t.WindowHad tenPieces ∧ t'.state = .buffering) ∧
    ∃ t t', (machine tenPieces).Reachable t ∧ (machine tenPieces).step t .iterate t' ∧
      t.state = .buffering ∧ ¬t.WindowHad tenPieces ∧ t'.state = .sequentialDownload := by
  constructor
  · have hrun : (Machine.runEvents (next tenPieces)
        (new ⟨fun i => decide (i ≠ 5), fun _ => none, 10 * SIZE_MB⟩)
        (startEvents ++ [.iterate, .seek (7 / 8), .pieceFinished 5])).bind
          (fun t => (t.next tenPieces .iterate).map
            (fun t' => (t.state, (Int.range 0 10).all t.service.havePiece, t'.state)))
        = some (.buffering, true, .buffering) := by
      decide +kernel
    obtain ⟨t, ht, hstep⟩ := Option.bind_eq_some_iff.mp hrun
    obtain ⟨t', ht', heq⟩ := Option.map_eq_some_iff.mp hstep
    simp only [Prod.mk.injEq] at heq
    obtain ⟨hs, hall, hs'⟩ := heq
    refine ⟨t, t', Machine.Reachable.of_runEvents (Machine.Reachable.start ⟨_, rfl⟩) ht, ht',
      hs, ?_, hs'⟩
    -- the window ends behind the file, so only its pieces in the file matter
    rintro i ⟨-, h₀, h₁⟩
    have hfirst : tenPieces.firstPiece = 0 := by decide
    have hlast : tenPieces.lastPiece = 9 := by decide
    exact all_range_eq_true.mp hall i (by omega) (by omega)
  · have hrun : (Machine.runEvents (next tenPieces)
        (new ⟨fun i => decide (i ≠ 2 ∧ i ≠ 8), fun _ => none, 10 * SIZE_MB⟩)
        (startEvents ++ [.seek (1 / 2), .pieceFinished 2])).bind
          (fun t => (t.next tenPieces .iterate).map (fun t' =>
            (t.state, (t.seekBeginPiece, t.seekEndPiece, t.service.havePiece 8), t'.state)))
        = some (.buffering, (2, 8, false), .sequentialDownload) := by
      decide +kernel
    obtain ⟨t, ht, hstep⟩ := Option.bind_eq_some_iff.mp hrun
    obtain ⟨t', ht', heq⟩ := Option.map_eq_some_iff.mp hstep
    simp only [Prod.mk.injEq] at heq
    obtain ⟨hs, ⟨hb, he, hmiss⟩, hs'⟩ := heq
    refine ⟨t, t', Machine.Reachable.of_runEvents (Machine.Reachable.start ⟨_, rfl⟩) ht, ht',
      hs, fun hhad => ?_, hs'⟩
    have hhad₈ := hhad 8 ⟨by omega, by decide, by decide⟩
    rw [hmiss] at hhad₈
    exact absurd hhad₈ (by simp)

end WatchTask

end PopcornTime.Android
