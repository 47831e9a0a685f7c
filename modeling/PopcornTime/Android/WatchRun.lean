import PopcornTime.Lib.Machine
import PopcornTime.Android.WatchTask

namespace PopcornTime.Android

open PopcornTime

/-!
# Android watch — runs of `WatchTask`

A run interleaves the statements of the watch thread, its iterations, pieces that arrive and
seeks of the player, for a file anywhere in its torrent.

* `WatchedFile` — where the file lies, and the piece priorities `run` reads its boundary from.
* `WatchTask.Inv` — the invariant of a run.
* `WatchTask.StepFacts` and `WatchTask.stepFacts` — what one event does to the state, the pieces
  had and the messages; everything about runs is derived from it.
-/

/-- A file of `pieces` pieces, behind `before` and in front of `after` others of its torrent. -/
structure WatchedFile where
  before : ℕ
  pieces : ℕ
  after : ℕ
  pieces_pos : 0 < pieces

namespace WatchedFile

variable (E : WatchedFile)

def firstPiece : ℤ := E.before

def lastPiece : ℤ := E.before + E.pieces - 1

/-- The number of pieces of the torrent. -/
def numPieces : ℤ := E.before + E.pieces + E.after

/-- What `getPiecePriorities` answers once `setFilePriority` has selected the file. -/
def piecePriorities : List ℤ :=
  List.replicate E.before TorrentPriority.NOT_DOWNLOADED ++
    (List.replicate E.pieces TorrentPriority.MAXIMUM ++
      List.replicate E.after TorrentPriority.NOT_DOWNLOADED)

/-- Every piece of the file is had. -/
def Complete (had : ℤ → Bool) : Prop :=
  ∀ i, E.firstPiece ≤ i → i ≤ E.lastPiece → had i = true

/-- The file begins in the torrent, -/
theorem firstPiece_nonneg : 0 ≤ E.firstPiece := by
  unfold firstPiece
  omega

/-- has a piece, -/
theorem firstPiece_le_lastPiece : E.firstPiece ≤ E.lastPiece := by
  have := E.pieces_pos
  unfold firstPiece lastPiece
  omega

/-- and ends in the torrent. -/
theorem lastPiece_lt : E.lastPiece < E.numPieces := by
  unfold lastPiece numPieces
  omega

/-! ### The boundary -/

/-- The loop passes over the pieces before the file, -/
theorem boundaryLoop_unset (k : ℕ) (rest : List ℤ) (i : ℤ) :
    WatchTask.boundaryLoop (List.replicate k TorrentPriority.NOT_DOWNLOADED ++ rest) i (-1) (-1)
      = WatchTask.boundaryLoop rest (i + k) (-1) (-1) := by
  induction k generalizing i with
  | zero => simp
  | succ k ih =>
    simp only [List.replicate_succ, List.cons_append, WatchTask.boundaryLoop]
    rw [if_neg (by simp), if_neg (by simp), ih]
    congr 1
    push_cast
    omega

/-- and over those of the file. -/
theorem boundaryLoop_set (k : ℕ) (rest : List ℤ) (i : ℤ) {first : ℤ} (h : first ≠ -1) :
    WatchTask.boundaryLoop (List.replicate k TorrentPriority.MAXIMUM ++ rest) i first (-1)
      = WatchTask.boundaryLoop rest (i + k) first (-1) := by
  induction k generalizing i with
  | zero => simp
  | succ k ih =>
    simp only [List.replicate_succ, List.cons_append, WatchTask.boundaryLoop]
    rw [if_pos (by decide), if_neg h, ih]
    congr 1
    push_cast
    omega

/-- Once the boundary is complete the rest of the torrent does not change it. -/
theorem boundaryLoop_done (k : ℕ) (i first : ℤ) {last : ℤ} (h : last ≠ -1) :
    WatchTask.boundaryLoop (List.replicate k TorrentPriority.NOT_DOWNLOADED) i first last
      = (first, last) := by
  induction k generalizing i with
  | zero => rfl
  | succ k ih =>
    simp only [List.replicate_succ, WatchTask.boundaryLoop]
    rw [if_neg (by simp), if_neg (by simp [h]), ih]

/-- There is a priority for each piece of the torrent. -/
theorem length_piecePriorities : (E.piecePriorities.length : ℤ) = E.numPieces := by
  simp [piecePriorities, numPieces]
  omega

/-- The loop over the priorities leaves the last index unset if the file ends its torrent. -/
theorem boundaryLoop_piecePriorities :
    WatchTask.boundaryLoop E.piecePriorities 0 (-1) (-1)
      = (E.firstPiece, if E.after = 0 then -1 else E.lastPiece) := by
  obtain ⟨before, pieces, after, hpos⟩ := E
  obtain ⟨k, rfl⟩ : ∃ k, pieces = k + 1 := ⟨pieces - 1, by omega⟩
  have hne : (before : ℤ) ≠ -1 := by omega
  -- the three stretches of the array one after the other
  simp only [piecePriorities, firstPiece, lastPiece]
  rw [boundaryLoop_unset, List.replicate_succ, List.cons_append, WatchTask.boundaryLoop,
    if_pos (by decide), if_pos rfl, zero_add, boundaryLoop_set _ _ _ hne]
  cases after with
  | zero => rfl
  | succ m =>
    rw [List.replicate_succ, WatchTask.boundaryLoop, if_neg (by simp),
      if_pos ⟨hne, rfl⟩, boundaryLoop_done _ _ _ (by omega)]
    simp
    omega

/-- **The boundary** `run` computes is the range of the file's pieces. -/
theorem getFileBoundary_piecePriorities :
    WatchTask.getFileBoundary E.piecePriorities = some ((E.firstPiece, E.lastPiece),
      E.piecePriorities.map (fun _ => TorrentPriority.NOT_DOWNLOADED)) := by
  have hfirst := E.firstPiece_nonneg
  have hlast := E.firstPiece_le_lastPiece
  have hlength := E.length_piecePriorities
  unfold WatchTask.getFileBoundary
  rw [boundaryLoop_piecePriorities]
  dsimp only
  rw [if_neg (by omega)]
  simp only [Option.some.injEq, Prod.mk.injEq, true_and, and_true]
  by_cases h : E.after = 0
  · rw [if_pos h, if_pos rfl, hlength]
    simp [numPieces, lastPiece, h]
  · rw [if_neg h, if_neg (by omega)]

end WatchedFile

/-- What may happen next: a piece arrives, the watch thread goes on before or in its loop, or
    the player seeks. -/
inductive WatchEvent
  | pieceFinished (piece : ℤ)
  | advance
  | iterate
  | seek (delta : ℚ)

namespace WatchTask

/-- The code that runs on an event; `none` where the event cannot happen. -/
def next (E : WatchedFile) (t : WatchTask) : WatchEvent → Option WatchTask
  | .pieceFinished piece => some { t with service := t.service.finishPiece piece }
  | .advance => t.advance E.piecePriorities
  | .iterate =>
    if t.point = .loop ∧ t.state ≠ .finished then
      t.fileBoundary.map (fun boundary => t.iterate boundary.1 boundary.2)
    else none
  | .seek delta => if t.point = .ended then none else some (t.seek delta).1

/-- The machine of all runs for a file: it starts with any pieces had. -/
def machine (E : WatchedFile) : Machine WatchTask WatchEvent :=
  Machine.ofFun (fun t => ∃ service, t = new service) (next E)

/-! ### The invariant -/

/-- The window of a seek whose buffering goes on: what lies in it before the current piece is
    had (piece `0` and pieces outside the torrent aside), and a window that ends inside the file
    begins before the current piece. -/
def WindowScanned (E : WatchedFile) (t : WatchTask) : Prop :=
  (∀ i, t.seekBeginPiece ≤ i → i < t.currentPiece → 0 < i → i < E.numPieces →
    t.service.havePiece i = true) ∧
  (t.seekEndPiece ≤ E.lastPiece → t.seekBeginPiece ≤ t.currentPiece)

/-- The invariant of a run. -/
structure Inv (E : WatchedFile) (t : WatchTask) : Prop where
  boundary : t.fileBoundary = none ∨ (t.fileBoundary = some (E.firstPiece, E.lastPiece) ∧
    (t.filePriorities.length : ℤ) = E.numPieces)
  located : t.point.Located → t.fileBoundary ≠ none
  active : t.point = .activated ∨ t.point = .loadSubtitles ∨ t.point = .loop →
    0 < t.activePieceCount
  finished : .downloadFinished ∈ t.sent → t.state = .finished
  finished_loop : t.state = .finished → t.point = .loop
  window : t.state = .buffering → t.point = .loop → t.WindowScanned E

/-- What the loop of `run` finds set up. -/
theorem Inv.loop {E : WatchedFile} {t : WatchTask} (h : Inv E t) (hp : t.point = .loop) :
    t.fileBoundary = some (E.firstPiece, E.lastPiece) ∧
      E.lastPiece < t.filePriorities.length ∧ 0 < t.activePieceCount := by
  have hsome := h.located (Or.inr (Or.inr (Or.inr (Or.inr hp))))
  obtain ⟨hb, hlen⟩ := h.boundary.resolve_left hsome
  exact ⟨hb, by rw [hlen]; exact E.lastPiece_lt, h.active (Or.inr (Or.inr hp))⟩

/-! ### What one event does -/

/-- The pieces had after an event. -/
def haveAfter (t : WatchTask) : WatchEvent → ℤ → Bool
  | .pieceFinished piece => Function.update t.service.havePiece piece true
  | _ => t.service.havePiece

/-- The event is the iteration that finishes the download. -/
def Finishes (E : WatchedFile) (t : WatchTask) (e : WatchEvent) : Prop :=
  e = .iterate ∧ t.state = .sequentialDownload ∧
    ∀ i, max t.currentPiece 0 ≤ i → i < E.lastPiece → t.service.havePiece i = true

/-- The scan of an iteration reaches the end of the window. -/
def ScanReachesEnd (E : WatchedFile) (t : WatchTask) : Prop :=
  t.seekEndPiece ≤ E.lastPiece ∧
    ∀ i, max t.currentPiece 0 ≤ i → i < t.seekEndPiece → t.service.havePiece i = true

/-- Buffering goes on: no `BUFFERING_FINISHED` is sent. -/
def BufferingGoesOn (t t' : WatchTask) : Prop :=
  t'.state = .buffering ∧ t'.sent.count .bufferingFinished = t.sent.count .bufferingFinished

/-- Buffering ends with `BUFFERING_FINISHED`. -/
def BufferingFinishes (t t' : WatchTask) : Prop :=
  t'.state = .sequentialDownload ∧
    t'.sent.count .bufferingFinished = t.sent.count .bufferingFinished + 1

/-- What an event does to the state, the pieces had and the messages. -/
structure StepFacts (E : WatchedFile) (t : WatchTask) (e : WatchEvent) (t' : WatchTask) :
    Prop where
  inv : Inv E t'
  havePiece : t'.service.havePiece = t.haveAfter e
  finished_iff : t'.state = .finished ↔ t.state = .finished ∨ t.Finishes E e
  /-- `BUFFERING_FINISHED` is sent by an iteration in `BUFFERING` only. -/
  quiet : ¬(e = .iterate ∧ t.state = .buffering) →
    t'.sent.count .bufferingFinished = t.sent.count .bufferingFinished
  arrival : t.state = .buffering → (∃ piece, e = .pieceFinished piece) → t'.state = .buffering
  advance_iff : t.state = .buffering → e = .advance →
    (t'.state = .buffering ↔ t.point.KeepsState)
  iteration : t.state = .buffering → e = .iterate →
    (t.ScanReachesEnd E → t.BufferingFinishes t') ∧ (¬t.ScanReachesEnd E → t.BufferingGoesOn t')

variable {E : WatchedFile} {t t' : WatchTask} {last : ℤ}

/-- A piece arrives. -/
theorem stepFacts_pieceFinished (h : Inv E t) (piece : ℤ) :
    StepFacts E t (.pieceFinished piece) { t with service := t.service.finishPiece piece } where
  inv :=
    { boundary := h.boundary
      located := h.located
      active := h.active
      finished := h.finished
      finished_loop := h.finished_loop
      window := by
        intro hs hp
        -- a piece that is had stays so
        refine ⟨fun i hb hi h₀ h₁ => ?_, (h.window hs hp).2⟩
        show Function.update t.service.havePiece piece true i = true
        rw [Function.update_apply, (h.window hs hp).1 i hb hi h₀ h₁, ite_self] }
  havePiece := rfl
  finished_iff := by simp [Finishes]
  quiet := fun _ => rfl
  arrival := fun hs _ => hs
  advance_iff := by simp
  iteration := by simp

/-- A statement before the loop, once it is known which fields it writes. -/
theorem stepFacts_setup (h : Inv E t) (hp : t.point ≠ .loop)
    (hboundary : t'.fileBoundary = none ∨ (t'.fileBoundary = some (E.firstPiece, E.lastPiece) ∧
      (t'.filePriorities.length : ℤ) = E.numPieces))
    (hlocated : t'.point.Located → t'.fileBoundary ≠ none)
    (hactive : t'.point = .activated ∨ t'.point = .loadSubtitles ∨ t'.point = .loop →
      0 < t'.activePieceCount)
    (hhave : t'.service.havePiece = t.service.havePiece)
    (hsent : ∃ l, t'.sent = t.sent ++ l ∧ .downloadFinished ∉ l ∧ .bufferingFinished ∉ l)
    (hstate : (t.point.KeepsState ∧ t'.point ≠ .loop ∧ t'.state = t.state) ∨
      (¬t.point.KeepsState ∧ t'.state ≠ .finished ∧ t'.state ≠ .buffering)) :
    StepFacts E t .advance t' := by
  -- before the loop the task is not finished, and does not become so
  have hnot : t.state ≠ .finished := fun hs => hp (h.finished_loop hs)
  have hnot' : t'.state ≠ .finished := by
    rcases hstate with ⟨-, -, hs⟩ | ⟨-, hs, -⟩
    · rw [hs]
      exact hnot
    · exact hs
  obtain ⟨l, hl, hdl, hbl⟩ := hsent
  refine ⟨⟨hboundary, hlocated, hactive, ?_, fun hs => absurd hs hnot', ?_⟩, hhave, ?_, ?_, ?_,
    ?_, ?_⟩
  · intro hm
    rw [hl, List.mem_append] at hm
    -- what is sent before the loop is neither of the two messages
    rcases hm with hm | hm
    · exact absurd (h.finished hm) hnot
    · exact absurd hm hdl
  · intro hs hloop
    rcases hstate with ⟨-, hpt, -⟩ | ⟨-, -, hst⟩
    · exact absurd hloop hpt
    · exact absurd hs hst
  · simp [Finishes, hnot, hnot']
  · intro _
    rw [hl, List.count_append, List.count_eq_zero.mpr hbl, add_zero]
  · rintro - ⟨piece, he⟩
    simp at he
  · intro hs _
    rcases hstate with ⟨hk, -, hst⟩ | ⟨hk, -, hst⟩
    · simp [hst, hs, hk]
    · simp [hst, hk]
  · simp

/-- What the next statement before the loop does, in a run for the file. -/
inductive AdvanceStep (E : WatchedFile) (t : WatchTask) : WatchTask → Prop
  | started : t.point = .started →
    AdvanceStep E t { t.send .metadataLoad with state := .loadMetadata, point := .loadMetadata }
  | loadMetadata : t.point = .loadMetadata →
    AdvanceStep E t { t with state := .checkFile, point := .checkFile }
  | checkFile : t.point = .checkFile →
    AdvanceStep E t { t with
      filePriorities := List.replicate E.piecePriorities.length TorrentPriority.NOT_DOWNLOADED
      fileBoundary := some (E.firstPiece, E.lastPiece)
      point := .boundaryKnown }
  | boundaryKnown : t.point = .boundaryKnown → t.fileBoundary ≠ none →
    AdvanceStep E t { t with
      filePieceCount := E.lastPiece - E.firstPiece + 1
      point := .counted }
  | failed : t.point = .counted → t.fileBoundary ≠ none → AdvanceStep E t t.fail
  | counted (prepareCount : ℤ) : t.point = .counted → t.fileBoundary ≠ none → 0 < prepareCount →
    AdvanceStep E t { t with
      prepareCount := prepareCount
      activePieceCount := if MAX_ACTIVE_COUNT < prepareCount then MAX_ACTIVE_COUNT
        else prepareCount
      point := .activated }
  | activated : t.point = .activated → t.fileBoundary ≠ none →
    AdvanceStep E t { t with state := .loadSubtitles, point := .loadSubtitles }
  | loadSubtitles : t.point = .loadSubtitles → t.fileBoundary ≠ none →
    AdvanceStep E t { t.send .downloadStarted with state := .preparingForWatch, point := .loop }

/-- **The statements before the loop**, one by one. -/
theorem advanceStep (h : Inv E t) (hstep : t.advance E.piecePriorities = some t') :
    AdvanceStep E t t' := by
  unfold advance at hstep
  cases hp : t.point with
  | started =>
    simp only [hp, Option.some.injEq] at hstep
    exact hstep ▸ .started hp
  | loadMetadata =>
    simp only [hp, Option.some.injEq] at hstep
    exact hstep ▸ .loadMetadata hp
  | checkFile =>
    simp only [hp, E.getFileBoundary_piecePriorities, List.map_const', Option.some.injEq] at hstep
    exact hstep ▸ .checkFile hp
  | boundaryKnown =>
    have hb := h.located (by simp [RunPoint.Located, hp])
    have hbound := (h.boundary.resolve_left hb).1
    have heq : some t' = some { t with
        filePieceCount := E.lastPiece - E.firstPiece + 1
        point := .counted } := by
      rw [← hstep]
      simp only [hp, hbound]
    rw [Option.some.injEq] at heq
    exact heq ▸ .boundaryKnown hp hb
  | counted =>
    have hb := h.located (by simp [RunPoint.Located, hp])
    cases hprep : getPreparePieceCount t.service.pieceLength (10 * SIZE_MB) t.filePieceCount 2 with
    | none =>
      -- too few pieces: the thread ends
      simp only [hp, hprep, Option.some.injEq] at hstep
      exact hstep ▸ .failed hp hb
    | some prepareCount =>
      simp only [hp, hprep, Option.some.injEq] at hstep
      exact hstep ▸ .counted prepareCount hp hb (getPreparePieceCount_pos hprep)
  | activated =>
    simp only [hp, Option.some.injEq] at hstep
    exact hstep ▸ .activated hp (h.located (by simp [RunPoint.Located, hp]))
  | loadSubtitles =>
    simp only [hp, Option.some.injEq] at hstep
    exact hstep ▸ .loadSubtitles hp (h.located (by simp [RunPoint.Located, hp]))
  | loop => simp [hp] at hstep
  | ended => simp [hp] at hstep

/-- The thread goes on before its loop. -/
theorem stepFacts_advance (h : Inv E t) (hstep : t.advance E.piecePriorities = some t') :
    StepFacts E t .advance t' := by
  -- the boundary is kept wherever it is known
  have hkeep : t.fileBoundary ≠ none → t.fileBoundary = some (E.firstPiece, E.lastPiece) ∧
      (t.filePriorities.length : ℤ) = E.numPieces := fun hb => h.boundary.resolve_left hb
  cases advanceStep h hstep with
  | started hp | loadMetadata hp =>
    refine stepFacts_setup h (by simp [hp]) ?_ ?_ ?_ rfl ?_ ?_
    · exact h.boundary
    all_goals simp [RunPoint.Located, RunPoint.KeepsState, hp, send]
  | checkFile hp =>
    refine stepFacts_setup h (by simp [hp]) ?_ ?_ ?_ rfl ?_ ?_
    · exact Or.inr ⟨rfl, by simp [← E.length_piecePriorities]⟩
    all_goals simp [RunPoint.KeepsState, hp]
  | boundaryKnown hp hb =>
    refine stepFacts_setup h (by simp [hp]) ?_ (fun _ => hb) ?_ rfl ?_ ?_
    · exact Or.inr (hkeep hb)
    all_goals simp [RunPoint.KeepsState, hp]
  | failed hp hb =>
    refine stepFacts_setup h (by simp [hp]) ?_ ?_ ?_ rfl ?_ ?_
    · exact h.boundary
    all_goals simp [RunPoint.Located, RunPoint.KeepsState, hp, fail, send]
  | counted prepareCount hp hb hpos =>
    refine stepFacts_setup h (by simp [hp]) ?_ (fun _ => hb) ?_ rfl ?_ ?_
    · exact h.boundary
    · intro _
      show 0 < (if MAX_ACTIVE_COUNT < prepareCount then MAX_ACTIVE_COUNT else prepareCount)
      unfold MAX_ACTIVE_COUNT
      split_ifs <;> omega
    all_goals simp [RunPoint.KeepsState, hp]
  | activated hp hb =>
    have hactive := h.active (Or.inl hp)
    refine stepFacts_setup h (by simp [hp]) ?_ (fun _ => hb) (fun _ => hactive) rfl ?_ ?_
    · exact h.boundary
    all_goals simp [RunPoint.KeepsState, hp]
  | loadSubtitles hp hb =>
    have hactive := h.active (Or.inr (Or.inl hp))
    refine stepFacts_setup h (by simp [hp]) ?_ (fun _ => hb) (fun _ => hactive) rfl ?_ ?_
    · exact h.boundary
    all_goals simp [RunPoint.KeepsState, hp, send]

/-- The invariant after an event that leaves the thread where it is. -/
theorem Inv.of_same (h : Inv E t) (hpoint : t'.point = t.point)
    (hboundary : t'.fileBoundary = t.fileBoundary)
    (hlen : t'.filePriorities.length = t.filePriorities.length)
    (hactive : t'.activePieceCount = t.activePieceCount)
    (hfinished : .downloadFinished ∈ t'.sent → t'.state = .finished)
    (hloop : t'.state = .finished → t.point = .loop)
    (hwindow : t'.state = .buffering → t.point = .loop → t'.WindowScanned E) : Inv E t' where
  -- what is the same is read off; the rest is asked of the caller
  boundary := by rw [hboundary, hlen]; exact h.boundary
  located := by rw [hpoint, hboundary]; exact h.located
  active := by rw [hpoint, hactive]; exact h.active
  finished := hfinished
  finished_loop := by rw [hpoint]; exact hloop
  window := by rw [hpoint]; exact hwindow

/-- No `DOWNLOAD_FINISHED` has been sent before the state says so. -/
theorem Inv.not_sent (h : Inv E t) (hs : t.state ≠ .finished) : .downloadFinished ∉ t.sent :=
  fun hm => hs (h.finished hm)

/-- The scan of a window goes on from where it was. -/
theorem WindowScanned.scan (hw : t.WindowScanned E)
    (hstop : ¬t.seekEndPiece ≤ firstMissing t.service.havePiece t.currentPiece E.lastPiece) :
    (∀ i, t.seekBeginPiece ≤ i →
      i < firstMissing t.service.havePiece t.currentPiece E.lastPiece → 0 < i →
      i < E.numPieces → t.service.havePiece i = true) ∧
    (t.seekEndPiece ≤ E.lastPiece →
      t.seekBeginPiece ≤ firstMissing t.service.havePiece t.currentPiece E.lastPiece) := by
  have hbefore := (le_firstMissing_iff.mp (le_refl
    (firstMissing t.service.havePiece t.currentPiece E.lastPiece))).2
  refine ⟨fun i hb hi h₀ h₁ => ?_, fun he => ?_⟩
  · by_cases hc : i < t.currentPiece
    · exact hw.1 i hb hc h₀ h₁
    · exact hbefore i (by omega) hi
  · -- a window that ends inside the file is only left open by a missing piece
    rw [le_firstMissing_iff] at hstop ⊢
    have hsb := hw.2 he
    refine ⟨?_, fun i hi hie => by omega⟩
    by_contra hlt
    exact hstop ⟨he, fun i hi hie => by omega⟩

/-- An iteration in `PREPARING_FOR_WATCH`. -/
theorem stepFacts_prepare (h : Inv E t) (hp : t.point = .loop)
    (hst : t.state = .preparingForWatch) :
    StepFacts E t .iterate (t.prepare E.firstPiece E.lastPiece) := by
  have hnot := h.not_sent (by simp [hst])
  obtain ⟨p, ps, dl, hlen, heq⟩ := prepare_spec E.firstPiece (h.loop hp).2.1
  rw [heq]
  by_cases hcount : t.prepareCount * 2 ≤ t.preparedPieces E.firstPiece E.lastPiece
  · refine ⟨h.of_same rfl rfl hlen rfl ?_ ?_ ?_, rfl, ?_, ?_, ?_, ?_, ?_⟩
    · intro hm
      simp [withMarks, hcount, hnot] at hm
    all_goals simp [withMarks, Finishes, hcount, hst, List.count_append]
  · -- too few pieces yet
    refine ⟨h.of_same rfl rfl hlen rfl ?_ ?_ ?_, rfl, ?_, ?_, ?_, ?_, ?_⟩
    · intro hm
      simp [withMarks, hcount, hnot] at hm
    all_goals simp [withMarks, Finishes, hcount, hst, List.count_append]

/-- An iteration in `SEQUENTIAL_DOWNLOAD`. -/
theorem stepFacts_sequential (h : Inv E t) (hp : t.point = .loop)
    (hst : t.state = .sequentialDownload) :
    StepFacts E t .iterate (t.sequential E.firstPiece E.lastPiece) := by
  obtain ⟨-, hlast, hactive⟩ := h.loop hp
  have hnot := h.not_sent (by simp [hst])
  obtain ⟨ps, dl, hlen, heq⟩ := sequential_spec E.firstPiece hlast hactive
  have hiff : t.Finishes E .iterate ↔
      E.lastPiece ≤ firstMissing t.service.havePiece t.currentPiece E.lastPiece := by
    rw [le_firstMissing_iff]
    simp [Finishes, hst]
  rw [heq]
  by_cases hend : E.lastPiece ≤ firstMissing t.service.havePiece t.currentPiece E.lastPiece
  · -- the last message is sent with the state that says so
    refine ⟨h.of_same rfl rfl hlen rfl (fun _ => ?_) (fun _ => hp) ?_, rfl, ?_, ?_, ?_, ?_, ?_⟩
    all_goals simp [withMarks, hend, hst, hiff, List.count_append]
  · refine ⟨h.of_same rfl rfl hlen rfl ?_ (fun _ => hp) ?_, rfl, ?_, ?_, ?_, ?_, ?_⟩
    · intro hm
      simp [withMarks, hend, hnot] at hm
    all_goals simp [withMarks, hend, hst, hiff, List.count_append]

/-- An iteration in `BUFFERING`. -/
theorem stepFacts_buffer (h : Inv E t) (hp : t.point = .loop) (hst : t.state = .buffering) :
    StepFacts E t .iterate (t.buffer E.firstPiece E.lastPiece) := by
  obtain ⟨-, hlast, hactive⟩ := h.loop hp
  have hnot := h.not_sent (by simp [hst])
  obtain ⟨ps, dl, hlen, heq⟩ := buffer_spec E.firstPiece hlast hactive
  have hiff : t.ScanReachesEnd E ↔
      t.seekEndPiece ≤ firstMissing t.service.havePiece t.currentPiece E.lastPiece :=
    le_firstMissing_iff.symm
  rw [heq]
  by_cases hend : t.seekEndPiece ≤ firstMissing t.service.havePiece t.currentPiece E.lastPiece
  · refine ⟨h.of_same rfl rfl hlen rfl ?_ ?_ ?_, rfl, ?_, ?_, ?_, ?_, fun _ _ => ?_⟩
    · intro hm
      simp [withMarks, hend, hnot] at hm
    · simp [withMarks, hend]
    · simp [withMarks, hend]
    · simp [withMarks, Finishes, hend, hst]
    · simp [hst]
    · simp
    · simp
    · exact ⟨fun _ => by simp [BufferingFinishes, withMarks, hend, List.count_append],
        fun hno => absurd (hiff.mpr hend) hno⟩
  · -- the window stays open
    refine ⟨h.of_same rfl rfl hlen rfl ?_ ?_ ?_, rfl, ?_, ?_, ?_, ?_, fun _ _ => ?_⟩
    · intro hm
      simp [withMarks, hend, hnot] at hm
    · simp [withMarks, hend, hst]
    · exact fun _ _ => (h.window hst hp).scan hend
    · simp [withMarks, Finishes, hend, hst]
    · simp [hst]
    · simp
    · simp
    · exact ⟨fun hreach => absurd (hiff.mp hreach) hend,
        fun _ => by simp [BufferingGoesOn, withMarks, hend, hst, List.count_append]⟩

/-- An iteration. -/
theorem stepFacts_iterate (h : Inv E t) (hp : t.point = .loop) (hs : t.state ≠ .finished) :
    StepFacts E t .iterate (t.iterate E.firstPiece E.lastPiece) := by
  unfold iterate
  cases hst : t.state with
  | preparingForWatch => exact stepFacts_prepare h hp hst
  | sequentialDownload => exact stepFacts_sequential h hp hst
  | buffering => exact stepFacts_buffer h hp hst
  | finished => exact absurd hst hs
  | none | loadMetadata | checkFile | loadSubtitles =>
    -- the `default` of the `switch`
    have hnot := h.not_sent hs
    refine ⟨h.of_same rfl rfl rfl rfl (fun hm => absurd hm hnot) ?_ ?_, rfl, ?_, ?_, ?_, ?_, ?_⟩
    all_goals simp [Finishes, hst]

/-- Where a seek enters `BUFFERING`, nothing of its window has been passed over. -/
theorem SeekHit.windowScanned {i : ℤ} (h : t.SeekHit i)
    (hlen : (t.filePriorities.length : ℤ) = E.numPieces) :
    (∀ j, t.seekBeginPiece ≤ j → j < firstMissing t.service.havePiece i E.lastPiece → 0 < j →
      j < E.numPieces → t.service.havePiece j = true) ∧
    (t.seekEndPiece ≤ E.lastPiece →
      t.seekBeginPiece ≤ firstMissing t.service.havePiece i E.lastPiece) := by
  obtain ⟨hb, he, h₀, h₁, hmiss, hbefore⟩ := h
  refine ⟨fun j hbj hj hj₀ hj₁ => ?_, fun hend => ?_⟩
  · -- the scan starts at a missing piece, so it does not get past it
    have hle : firstMissing t.service.havePiece i E.lastPiece ≤ i := by
      by_contra hgt
      have hpast : i + 1 ≤ firstMissing t.service.havePiece i E.lastPiece := by omega
      have hscan := (le_firstMissing_iff.mp hpast).2 i (by omega) (by omega)
      rw [hmiss] at hscan
      exact absurd hscan (by simp)
    exact hbefore j hbj (by omega) hj₀ (by omega)
  · rw [le_firstMissing_iff]
    exact ⟨by omega, fun j hj hjb => by omega⟩

/-- What a seek does, in a run for the file. -/
inductive SeekStep (E : WatchedFile) (t : WatchTask) (delta : ℚ) : WatchTask → Prop
  | finished : t.state = .finished → SeekStep E t delta t
  | unknown : t.state ≠ .finished → t.fileBoundary = none → SeekStep E t delta (t.aimSeek delta)
  | buffering (i p : ℤ) {t' : WatchTask} : t.state ≠ .finished →
    t.fileBoundary = some (E.firstPiece, E.lastPiece) → (t.aimSeek delta).SeekHit i →
    (0 < t.activePieceCount → p = firstMissing t.service.havePiece i E.lastPiece) →
    Frame { t.aimSeek delta with
      state := .buffering
      currentPiece := p
      sent := t.sent ++ [.updateProgress .buffering (t.aimSeek delta).seekTotalPieceCount
        ((t.aimSeek delta).downloadedPiecesCount (t.aimSeek delta).seekBeginPiece
          (t.aimSeek delta).seekEndPiece)] } t' → SeekStep E t delta t'
  | sequential (p : ℤ) {t' : WatchTask} : t.state ≠ .finished →
    t.fileBoundary = some (E.firstPiece, E.lastPiece) →
    Frame { t.aimSeek delta with
      state := .sequentialDownload
      currentPiece := p
      sent := t.sent ++ [.updateProgress .sequentialDownload t.filePieceCount (p - E.firstPiece)] }
      t' → SeekStep E t delta t'

/-- **A seek**, case by case. -/
theorem Inv.seekStep (h : Inv E t) (delta : ℚ) : SeekStep E t delta (t.seek delta).1 := by
  unfold seek
  by_cases hs : t.state = .finished
  · rw [if_pos hs]
    exact .finished hs
  rw [if_neg hs]
  rcases h.boundary with hb | ⟨hb, hlen⟩
  · -- the access to the boundary throws, after the window has been written
    have hstep : SeekStep E t delta (t.aimSeek delta) := .unknown hs hb
    simpa only [hb] using hstep
  · have hlast : E.lastPiece < ((t.aimSeek delta).filePriorities.length : ℤ) := by
      rw [show (t.aimSeek delta).filePriorities = t.filePriorities from rfl, hlen]
      exact E.lastPiece_lt
    simp only [hb]
    rcases seekWindow_spec E.firstPiece (t.seekPiece delta) hlast with
      ⟨i, p, hhit, -, hp, hframe⟩ | ⟨p, -, hframe⟩
    · exact .buffering i p hs hb hhit hp hframe
    · exact .sequential p hs hb hframe

/-- A seek. -/
theorem stepFacts_seek (h : Inv E t) {delta : ℚ} (hstep : SeekStep E t delta t') :
    StepFacts E t (.seek delta) t' := by
  cases hstep with
  | finished hs => exact ⟨h, rfl, by simp [Finishes], fun _ => rfl, by simp, by simp, by simp⟩
  -- the window is written, but the loop has not been reached
  | unknown hs hb =>
    refine ⟨h.of_same rfl rfl rfl rfl h.finished h.finished_loop ?_, rfl, by simp [Finishes, aimSeek],
      fun _ => rfl, by simp, by simp, by simp⟩
    intro _ hp
    exact absurd hb (h.located (Or.inr (Or.inr (Or.inr (Or.inr hp)))))
  | buffering i p hs hb hhit hp hframe =>
    obtain ⟨ps, dl, hps, rfl⟩ := hframe
    have hnot := h.not_sent hs
    refine ⟨h.of_same rfl rfl hps rfl ?_ ?_ ?_, rfl, ?_, ?_, by simp, by simp, by simp⟩
    · intro hm
      simp [withMarks, hnot] at hm
    · simp [withMarks]
    · intro _ hloop
      -- the scan of the hit gives the window its pieces behind `currentPiece`
      have hscan := hhit.windowScanned (h.boundary.resolve_left (by simp [hb])).2
      have hcurrent : p = firstMissing (t.aimSeek delta).service.havePiece i E.lastPiece :=
        hp (h.loop hloop).2.2
      rw [← hcurrent] at hscan
      exact hscan
    · simp [Finishes, withMarks, hs]
    · simp [withMarks, List.count_append]
  | sequential p hs hb hframe =>
    obtain ⟨ps, dl, hps, rfl⟩ := hframe
    have hnot := h.not_sent hs
    refine ⟨h.of_same rfl rfl hps rfl ?_ ?_ ?_, rfl, ?_, ?_, by simp, by simp, by simp⟩
    · intro hm
      simp [withMarks, hnot] at hm
    · simp [withMarks]
    · simp [withMarks]
    · simp [Finishes, withMarks, hs]
    · simp [withMarks, List.count_append]

/-- **A step of a run.** -/
theorem stepFacts (h : Inv E t) {e : WatchEvent} (hstep : t.next E e = some t') :
    StepFacts E t e t' := by
  cases e with
  | pieceFinished piece =>
    simp only [next, Option.some.injEq] at hstep
    exact hstep ▸ stepFacts_pieceFinished h piece
  | advance => exact stepFacts_advance h hstep
  | iterate =>
    simp only [next] at hstep
    split_ifs at hstep with hcond
    rw [(h.loop hcond.1).1, Option.map_some, Option.some.injEq] at hstep
    exact hstep ▸ stepFacts_iterate h hcond.1 hcond.2
  | seek delta =>
    simp only [next] at hstep
    split_ifs at hstep with hcond
    rw [Option.some.injEq] at hstep
    exact hstep ▸ stepFacts_seek h (h.seekStep delta)

/-- At the start nothing is known. -/
theorem inv_new (service : WatchService) : Inv E (new service) where
  boundary := Or.inl rfl
  located := by simp [new, RunPoint.Located]
  active := by simp [new]
  finished := by simp [new]
  finished_loop := by simp [new]
  window := by simp [new]

/-- **The invariant holds in every run.** -/
theorem inv_of_reachable (h : (machine E).Reachable t) : Inv E t := by
  refine Machine.Reachable.invariant (I := Inv E) ?_ ?_ h
  · rintro s ⟨service, rfl⟩
    exact inv_new service
  · intro s e s' hinv hstep
    exact (stepFacts hinv hstep).inv

/-! ### The set-up and the states of the loop -/

/-- The two tasks agree in what `run` sets up before its loop. -/
def SameSetup (t t' : WatchTask) : Prop :=
  t'.point = t.point ∧ t'.fileBoundary = t.fileBoundary ∧ t'.filePieceCount = t.filePieceCount ∧
    t'.prepareCount = t.prepareCount ∧ t'.activePieceCount = t.activePieceCount

/-- A scan writes nothing that is set up before the loop. -/
theorem Frame.sameSetup (h : Frame t t') : SameSetup t t' := by
  obtain ⟨ps, dl, -, rfl⟩ := h
  exact ⟨rfl, rfl, rfl, rfl, rfl⟩

/-- Nor does an iteration. -/
theorem iterate_sameSetup (hlast : last < t.filePriorities.length) (hactive : 0 < t.activePieceCount)
    (first : ℤ) : SameSetup t (t.iterate first last) := by
  unfold iterate
  cases t.state with
  | preparingForWatch =>
    obtain ⟨p, hframe⟩ := prepare_spec first hlast
    exact hframe.sameSetup
  | sequentialDownload => exact (sequential_spec first hlast hactive).sameSetup
  | buffering => exact (buffer_spec first hlast hactive).sameSetup
  | none | loadMetadata | checkFile | loadSubtitles | finished => exact ⟨rfl, rfl, rfl, rfl, rfl⟩

/-- What a seek does to the set-up and the state: it is turned away, or it enters `BUFFERING` or
    `SEQUENTIAL_DOWNLOAD`. -/
theorem SeekStep.spec {delta : ℚ} (h : SeekStep E t delta t') :
    SameSetup t t' ∧
    (t'.state = t.state ∧ (t.state = .finished ∨ t.fileBoundary = none) ∨
      (t.state ≠ .finished ∧ t.fileBoundary = some (E.firstPiece, E.lastPiece) ∧
        (t'.state = .buffering ∨ t'.state = .sequentialDownload))) := by
  cases h with
  | finished hs => exact ⟨⟨rfl, rfl, rfl, rfl, rfl⟩, Or.inl ⟨rfl, Or.inl hs⟩⟩
  | unknown hs hb => exact ⟨⟨rfl, rfl, rfl, rfl, rfl⟩, Or.inl ⟨rfl, Or.inr hb⟩⟩
  | buffering i p hs hb _ _ hframe =>
    obtain ⟨ps, dl, -, rfl⟩ := hframe
    exact ⟨⟨rfl, rfl, rfl, rfl, rfl⟩, Or.inr ⟨hs, hb, Or.inl rfl⟩⟩
  | sequential p hs hb hframe =>
    obtain ⟨ps, dl, -, rfl⟩ := hframe
    exact ⟨⟨rfl, rfl, rfl, rfl, rfl⟩, Or.inr ⟨hs, hb, Or.inr rfl⟩⟩

/-- Only the statements before the loop set anything up. -/
theorem sameSetup_of_next (h : Inv E t) {e : WatchEvent} (he : e ≠ .advance)
    (hstep : t.next E e = some t') : SameSetup t t' := by
  cases e with
  | pieceFinished piece =>
    simp only [next, Option.some.injEq] at hstep
    subst hstep
    exact ⟨rfl, rfl, rfl, rfl, rfl⟩
  | advance => exact absurd rfl he
  | iterate =>
    simp only [next] at hstep
    split_ifs at hstep with hcond
    obtain ⟨hb, hlast, hactive⟩ := h.loop hcond.1
    rw [hb, Option.map_some, Option.some.injEq] at hstep
    subst hstep
    exact iterate_sameSetup hlast hactive E.firstPiece
  | seek delta =>
    simp only [next] at hstep
    split_ifs at hstep
    rw [Option.some.injEq] at hstep
    subst hstep
    exact (h.seekStep delta).spec.1

/-- A state the loop of `run` may be in. -/
def InLoop (t : WatchTask) : Prop :=
  t.state = .preparingForWatch ∨ t.state = .sequentialDownload ∨ t.state = .buffering ∨
    t.state = .finished

/-- An iteration stays in the loop's states. -/
theorem iterate_inLoop (h : t.InLoop) (hlast : last < t.filePriorities.length)
    (hactive : 0 < t.activePieceCount) (first : ℤ) : (t.iterate first last).InLoop := by
  unfold iterate
  rcases h with hs | hs | hs | hs <;> simp only [hs]
  · obtain ⟨p, ps, dl, -, heq⟩ := prepare_spec first hlast
    rw [heq]
    by_cases hcount : t.prepareCount * 2 ≤ t.preparedPieces first last <;>
      simp [InLoop, withMarks, hcount, hs]
  · obtain ⟨ps, dl, -, heq⟩ := sequential_spec first hlast hactive
    rw [heq]
    by_cases hend : last ≤ firstMissing t.service.havePiece t.currentPiece last <;>
      simp [InLoop, withMarks, hend, hs]
  · obtain ⟨ps, dl, -, heq⟩ := buffer_spec first hlast hactive
    rw [heq]
    by_cases hend : t.seekEndPiece ≤ firstMissing t.service.havePiece t.currentPiece last <;>
      simp [InLoop, withMarks, hend, hs]
  · -- a finished task stays as it is
    simp [InLoop]

/-- The statement that enters the loop sets the state. -/
theorem AdvanceStep.state (h : AdvanceStep E t t') (hp : t'.point = .loop) :
    t'.state = .preparingForWatch := by
  cases h with
  | loadSubtitles => rfl
  | started | loadMetadata | checkFile | boundaryKnown | failed | counted | activated =>
    exact absurd hp (by simp [fail])

/-- **The `default` of the `switch` is never taken.** -/
theorem inLoop_of_reachable (h : (machine E).Reachable t) : t.point = .loop → t.InLoop := by
  refine h.invariant_reachable (I := fun t => t.point = .loop → t.InLoop) ?_ ?_
  · rintro s ⟨service, rfl⟩
    simp [new]
  · intro s e s' hreach hloop hstep
    have hinv := inv_of_reachable hreach
    cases e with
    | pieceFinished piece =>
      simp only [machine, Machine.ofFun, next, Option.some.injEq] at hstep
      subst hstep
      exact hloop
    | advance =>
      intro hp
      exact Or.inl ((advanceStep hinv hstep).state hp)
    | iterate =>
      simp only [machine, Machine.ofFun, next] at hstep
      split_ifs at hstep with hcond
      obtain ⟨hb, hlast, hactive⟩ := hinv.loop hcond.1
      rw [hb, Option.map_some, Option.some.injEq] at hstep
      subst hstep
      -- an iteration stays within the four states
      exact fun _ => iterate_inLoop (hloop hcond.1) hlast hactive E.firstPiece
    | seek delta =>
      simp only [machine, Machine.ofFun, next] at hstep
      split_ifs at hstep with hcond
      rw [Option.some.injEq] at hstep
      subst hstep
      obtain ⟨hsetup, hstate⟩ := (hinv.seekStep delta).spec
      intro hp
      rw [hsetup.1] at hp
      -- a seek leaves the state, or sets one of two
      rcases hstate with ⟨hs, -⟩ | ⟨-, -, hs | hs⟩
      · unfold InLoop
        rw [hs]
        exact hloop hp
      · exact Or.inr (Or.inr (Or.inl hs))
      · exact Or.inr (Or.inl hs)

/-- Ten pieces of ten megabytes each. -/
def tenPieces : WatchedFile := ⟨0, 10, 0, by decide⟩

/-- The events up to the first iteration of the loop. -/
def startEvents : List WatchEvent :=
  List.replicate 7 .advance

end WatchTask

end PopcornTime.Android
