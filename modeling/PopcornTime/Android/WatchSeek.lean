import PopcornTime.Android.WatchDeadlines

namespace PopcornTime.Android

open PopcornTime

/-!
# Android watch — where `seek` aims

`seek` takes a fraction of the pieces of the file, which is an index in the file, and uses it as
an index in the torrent.

* `WatchedFile.seekTarget` — the piece of the file at a fraction of it.
* `WatchTask.seekAsked` — the pieces a seek calls `havePiece` with, and `seek_withHave`: on no
  other does it depend.
* `WatchTask.SeeksRight` — the seek aims at that piece, decides by its window, and leaves the
  pieces of other files alone.
* `WatchTask.seeksRight_iff` — when it does.
-/

/-- The number of whole pieces in the fraction `delta` of `count`; the product is one of
    `float`s. -/
def pieceIndex (count : ℤ) (delta : ℚ) : ℤ :=
  ⌊Binary32.mul delta (Binary32.ofInt count)⌋

/-- The index is not negative. -/
theorem pieceIndex_nonneg {count : ℤ} {delta : ℚ} (hcount : 0 ≤ count) (hdelta : 0 ≤ delta) :
    0 ≤ pieceIndex count delta := by
  have hfloat : 0 ≤ Binary32.ofInt count := Binary32.round_nonneg (by exact_mod_cast hcount)
  have hproduct : 0 ≤ Binary32.mul delta (Binary32.ofInt count) :=
    Binary32.round_nonneg (mul_nonneg hdelta hfloat)
  exact Int.floor_nonneg.mpr hproduct

namespace WatchedFile

variable (E : WatchedFile)

/-- Piece `i` is one of the torrent. -/
def InTorrent (i : ℤ) : Prop :=
  0 ≤ i ∧ i < E.numPieces

/-- Piece `i` is one of the file. -/
def InFile (i : ℤ) : Prop :=
  E.firstPiece ≤ i ∧ i ≤ E.lastPiece

/-- The piece at the fraction `delta` of the file. -/
def seekTarget (delta : ℚ) : ℤ :=
  min (E.firstPiece + pieceIndex E.pieces delta) E.lastPiece

/-- The piece aimed at is one of the file. -/
theorem inFile_seekTarget {delta : ℚ} (h : 0 ≤ delta) : E.InFile (E.seekTarget delta) := by
  have hindex := pieceIndex_nonneg (show (0 : ℤ) ≤ E.pieces by omega) h
  have hle := E.firstPiece_le_lastPiece
  unfold InFile seekTarget
  omega

end WatchedFile

namespace WatchTask

variable {E : WatchedFile} {t t' : WatchTask} {first last : ℤ} {delta : ℚ}

/-! ### The pieces a seek asks for -/

/-- The pieces the loop of `updateDownload` calls `havePiece` with. -/
def downloadLoopAsked (had : ℤ → Bool) (activeCount : ℤ) : List ℤ → ℤ → List ℤ
  | [], _ => []
  | i :: is, count =>
    let count := if had i then count else count + 1
    i :: (if activeCount ≤ count then [] else downloadLoopAsked had activeCount is count)

/-- Those of `updateDownload`, with its clamps. -/
def updateDownloadAsked (t : WatchTask) (currentPiece lastPiece activeCount : ℤ) : List ℤ :=
  let currentPiece := if currentPiece < 0 then 0 else currentPiece
  let lastPiece :=
    if (t.filePriorities.length : ℤ) ≤ lastPiece then (t.filePriorities.length : ℤ) - 1
    else lastPiece
  downloadLoopAsked t.service.havePiece activeCount (Int.range currentPiece (lastPiece + 1)) 0

/-- Those of the loop of `seek`, if it stops behind `endPiece`. -/
def windowAsked (t : WatchTask) (endPiece : ℤ) : List ℤ :=
  (Int.range t.seekBeginPiece (endPiece + 1)).filter
    (fun i => decide (0 < i ∧ i < t.filePriorities.length))

/-- Those of `seek` with the boundary known. -/
def seekWindowAsked (t : WatchTask) (seekPiece lastPiece : ℤ) : List ℤ :=
  match t.seekHit? with
  | some i =>
    -- the progress of the buffering counts the whole window
    t.windowAsked i ++ t.updateDownloadAsked i lastPiece t.activePieceCount ++
      Int.range t.seekBeginPiece (t.seekEndPiece + 1)
  | none =>
    t.windowAsked t.seekEndPiece ++ t.updateDownloadAsked seekPiece lastPiece t.activePieceCount

/-- The pieces `seek` calls `havePiece` with. -/
def seekAsked (t : WatchTask) (delta : ℚ) : List ℤ :=
  if t.state = .finished then []
  else
    match t.fileBoundary with
    | none => []
    | some (_, lastPiece) => (t.aimSeek delta).seekWindowAsked (t.seekPiece delta) lastPiece

/-- The loop asks for pieces it goes through only. -/
theorem downloadLoopAsked_subset (had : ℤ → Bool) (activeCount : ℤ) (is : List ℤ) (count : ℤ) :
    downloadLoopAsked had activeCount is count ⊆ is := by
  induction is generalizing count with
  | nil => exact List.Subset.refl []
  | cons i is ih =>
    rw [downloadLoopAsked]
    refine List.cons_subset_cons i ?_
    by_cases hstop : activeCount ≤ if had i = true then count else count + 1
    · rw [if_pos hstop]
      exact List.nil_subset is
    · rw [if_neg hstop]
      exact ih _

/-- The scan asks for pieces from its start to the last one only. -/
theorem mem_updateDownloadAsked {current activeCount i : ℤ}
    (hlast : last < t.filePriorities.length)
    (hi : i ∈ t.updateDownloadAsked current last activeCount) : max current 0 ≤ i ∧ i ≤ last := by
  unfold updateDownloadAsked at hi
  dsimp only at hi
  have hmem := downloadLoopAsked_subset _ _ _ _ hi
  rw [if_neg (not_le.mpr hlast), Int.mem_range_iff] at hmem
  split_ifs at hmem <;> omega

/-- The loop of `seek` asks for the pieces of the window but piece `0`. -/
theorem mem_windowAsked {endPiece i : ℤ} :
    i ∈ t.windowAsked endPiece ↔
      (t.seekBeginPiece ≤ i ∧ i ≤ endPiece) ∧ 0 < i ∧ i < t.filePriorities.length := by
  unfold windowAsked
  rw [List.mem_filter, Int.mem_range_iff, Int.lt_add_one_iff, decide_eq_true_eq]

/-! ### A seek depends on no other piece -/

/-- `t` with other pieces had. -/
def withHave (t : WatchTask) (had : ℤ → Bool) : WatchTask :=
  { t with service := { t.service with havePiece := had } }

/-- A request does not look at the pieces. -/
theorem request_withHave (t : WatchTask) (had : ℤ → Bool) (i current first deadline : ℤ) :
    (t.withHave had).request i current first deadline =
      (t.request i current first deadline).withHave had := by
  unfold request
  show (if get? t.filePriorities i = some TorrentPriority.NOT_DOWNLOADED then _ else _) = _
  by_cases h : get? t.filePriorities i = some TorrentPriority.NOT_DOWNLOADED
  · rw [if_pos h, if_pos h]
    rfl
  · rw [if_neg h, if_neg h]

/-- The scan does the same for all services that agree on the pieces it asks for. -/
theorem downloadLoop_withHave {had : ℤ → Bool} (current first activeCount deadline : ℤ)
    (is : List ℤ) (t : WatchTask) (count newIndex : ℤ)
    (h : ∀ i ∈ downloadLoopAsked t.service.havePiece activeCount is count,
      had i = t.service.havePiece i) :
    downloadLoop current first activeCount deadline (t.withHave had) is count newIndex =
      ((downloadLoop current first activeCount deadline t is count newIndex).1,
        (downloadLoop current first activeCount deadline t is count newIndex).2.withHave had) := by
  induction is generalizing t count newIndex with
  | nil => rfl
  | cons i is ih =>
    rw [downloadLoopAsked] at h
    have hi : (t.withHave had).service.havePiece i = t.service.havePiece i :=
      h i (List.mem_cons_self ..)
    have hrest := fun j hj => h j (List.mem_cons_of_mem i hj)
    by_cases hhad : t.service.havePiece i = true
    · rw [downloadLoop, downloadLoop, if_pos (hi.trans hhad), if_pos hhad]
      by_cases hstop : activeCount ≤ count
      · rw [if_pos hstop, if_pos hstop]
      · rw [if_neg hstop, if_neg hstop]
        simp only [hhad, if_true, hstop, if_false] at hrest
        exact ih t count newIndex hrest
    · have hmiss : ¬(t.withHave had).service.havePiece i = true := fun hh => hhad (hi.symm.trans hh)
      rw [downloadLoop, downloadLoop, if_neg hmiss, if_neg hhad]
      dsimp only
      rw [request_withHave]
      by_cases hstop : activeCount ≤ count + 1
      · rw [if_pos hstop, if_pos hstop]
      · rw [if_neg hstop, if_neg hstop]
        simp only [hhad, if_false, hstop, Bool.false_eq_true] at hrest
        refine ih _ (count + 1) _ ?_
        -- asking for the piece changes no piece had
        obtain ⟨ps, dl, -, heq⟩ := t.request_frame i current first deadline
        rw [heq]
        exact hrest

/-- So does `updateCurrentPiece`. -/
theorem updateCurrentPiece_withHave {had : ℤ → Bool} (current first last deadline : ℤ)
    (h : ∀ i ∈ t.updateDownloadAsked current last t.activePieceCount,
      had i = t.service.havePiece i) :
    (t.withHave had).updateCurrentPiece current first last deadline =
      (t.updateCurrentPiece current first last deadline).withHave had := by
  have hloop := downloadLoop_withHave (if current < 0 then 0 else current) first
    t.activePieceCount deadline _ t 0 (-1) h
  unfold updateCurrentPiece updateDownload
  dsimp only
  rw [show (t.withHave had).filePriorities = t.filePriorities from rfl,
    show (t.withHave had).activePieceCount = t.activePieceCount from rfl, hloop]
  rfl

/-- The count is one of the pieces between its ends. -/
theorem downloadedPiecesCount_withHave {had : ℤ → Bool} {beginPiece endPiece : ℤ}
    (h : ∀ i ∈ Int.range beginPiece (endPiece + 1), had i = t.service.havePiece i) :
    (t.withHave had).downloadedPiecesCount beginPiece endPiece =
      t.downloadedPiecesCount beginPiece endPiece := by
  unfold downloadedPiecesCount
  rw [List.countP_congr]
  intro i hi
  rw [show (t.withHave had).service.havePiece i = had i from rfl, h i hi]

/-- The loop of `seek` finds what it looks for among the pieces it asks for. -/
theorem seekHit?_withHave {had : ℤ → Bool} (endPiece : ℤ)
    (hend : endPiece = t.seekHit?.getD t.seekEndPiece)
    (h : ∀ i ∈ t.windowAsked endPiece, had i = t.service.havePiece i) :
    (t.withHave had).seekHit? = t.seekHit? := by
  cases hhit : t.seekHit? with
  | none =>
    rw [hhit, Option.getD_none] at hend
    rw [seekHit?, find?_range_eq_none] at hhit ⊢
    intro j hj hje
    have hj' := hhit j hj hje
    by_cases hin : 0 < j ∧ j < t.filePriorities.length
    · rw [show (t.withHave had).service.havePiece j = t.service.havePiece j from
        h j (mem_windowAsked.mpr ⟨⟨hj, by change j < t.seekEndPiece + 1 at hje; omega⟩, hin⟩)]
      exact hj'
    · simp [withHave, hin]
  | some i =>
    rw [hhit, Option.getD_some] at hend
    rw [seekHit?, find?_range_eq_some] at hhit ⊢
    obtain ⟨hlo, hhi, hp, hbefore⟩ := hhit
    -- up to the hit the two services agree
    have hsame : ∀ j, t.seekBeginPiece ≤ j → j ≤ i →
        (decide (0 < j ∧ j < t.filePriorities.length) && !had j) =
          (decide (0 < j ∧ j < t.filePriorities.length) && !t.service.havePiece j) := by
      intro j hj hji
      by_cases hin : 0 < j ∧ j < t.filePriorities.length
      · rw [h j (mem_windowAsked.mpr ⟨⟨hj, by omega⟩, hin⟩)]
      · simp [hin]
    exact ⟨hlo, hhi, (hsame i hlo (le_refl i)).trans hp,
      fun j hj hji => (hsame j hj (le_of_lt hji)).trans (hbefore j hj hji)⟩

/-- Buffering asks for the pieces of the scan and counts those of the window. -/
theorem enterBuffering_withHave {had : ℤ → Bool} {i : ℤ} (first : ℤ)
    (hscan : ∀ j ∈ t.updateDownloadAsked i last t.activePieceCount,
      had j = t.service.havePiece j)
    (hwindow : ∀ j ∈ Int.range t.seekBeginPiece (t.seekEndPiece + 1),
      had j = t.service.havePiece j) (hlast : last < t.filePriorities.length) :
    (t.withHave had).enterBuffering i first last = (t.enterBuffering i first last).withHave had := by
  have hcurrent := updateCurrentPiece_withHave (t := { t with state := .buffering }) i first last 4
    hscan
  have hunfold : ∀ u : WatchTask, u.enterBuffering i first last =
      (fun (v : WatchTask) => v.updateProgress v.state v.seekTotalPieceCount
        (v.downloadedPiecesCount v.seekBeginPiece v.seekEndPiece))
          ({ u with state := .buffering }.updateCurrentPiece i first last 4) := fun _ => rfl
  -- the scan changes no piece had and not the window
  obtain ⟨p, ⟨ps, dl, -, heq⟩, -⟩ := updateCurrentPiece_frame (t := { t with state := .buffering })
    first i 4 hlast
  rw [heq] at hcurrent
  have hcount := downloadedPiecesCount_withHave
    (t := { t with state := .buffering, currentPiece := p }.withMarks ps dl) hwindow
  refine (congrArg (fun (v : WatchTask) => v.updateProgress v.state v.seekTotalPieceCount
    (v.downloadedPiecesCount v.seekBeginPiece v.seekEndPiece)) hcurrent).trans ?_
  rw [hunfold, heq]
  exact congrArg (fun (n : ℤ) => WatchTask.updateProgress _ _ _ n) hcount

/-- Going on sequentially asks for those of the scan. -/
theorem enterSequential_withHave {had : ℤ → Bool} {seekPiece : ℤ} (first : ℤ)
    (h : ∀ j ∈ t.updateDownloadAsked seekPiece last t.activePieceCount,
      had j = t.service.havePiece j) :
    (t.withHave had).enterSequential seekPiece first last =
      (t.enterSequential seekPiece first last).withHave had :=
  congrArg (fun (v : WatchTask) =>
      v.updateProgress v.state v.filePieceCount (v.currentPiece - first))
    (updateCurrentPiece_withHave (t := { t with state := .sequentialDownload }) seekPiece first
      last 0 h)

/-- What is cleared for a seek does not count for the scan. -/
theorem updateDownloadAsked_clearForSeek (current activeCount : ℤ) :
    (t.clearForSeek first last).updateDownloadAsked current last activeCount =
      t.updateDownloadAsked current last activeCount := by
  unfold updateDownloadAsked
  rw [length_clearForSeek]
  rfl

/-- The two cases of a seek with the boundary known. -/
theorem seekWindow_withHave {had : ℤ → Bool} {seekPiece : ℤ} (first : ℤ)
    (hlast : last < t.filePriorities.length)
    (h : ∀ i ∈ t.seekWindowAsked seekPiece last, had i = t.service.havePiece i) :
    (t.withHave had).seekWindow seekPiece first last =
      ((t.seekWindow seekPiece first last).1.withHave had,
        (t.seekWindow seekPiece first last).2) := by
  have hlast' : last < ((t.clearForSeek first last).filePriorities.length : ℤ) := by
    rwa [length_clearForSeek]
  have hclear : (t.withHave had).clearForSeek first last =
      (t.clearForSeek first last).withHave had := rfl
  unfold seekWindowAsked at h
  unfold seekWindow
  dsimp only
  -- the window is scanned for what is missing, so only its pieces are asked about
  rw [seekHit?_clearForSeek, seekHit?_clearForSeek, hclear]
  cases hhit : t.seekHit? with
  | some i =>
    simp only [hhit, List.mem_append] at h
    rw [seekHit?_withHave i (by rw [hhit]; rfl)
      (fun j hj => h j (Or.inl (Or.inl hj))), hhit]
    dsimp only
    rw [enterBuffering_withHave (t := t.clearForSeek first last) first ?_
      (fun j hj => h j (Or.inr hj)) hlast']
    exact fun j hj => h j (Or.inl (Or.inr (updateDownloadAsked_clearForSeek _ _ ▸ hj)))
  | none =>
    simp only [hhit, List.mem_append] at h
    rw [seekHit?_withHave t.seekEndPiece (by rw [hhit]; rfl)
      (fun j hj => h j (Or.inl hj)), hhit]
    dsimp only
    rw [enterSequential_withHave (t := t.clearForSeek first last) first]
    exact fun j hj => h j (Or.inr (updateDownloadAsked_clearForSeek _ _ ▸ hj))

/-- **A seek depends on the pieces it asks for only**: with all services that agree on these it
    does the same. -/
theorem Inv.seek_withHave (hinv : Inv E t) {had : ℤ → Bool}
    (h : ∀ i ∈ t.seekAsked delta, had i = t.service.havePiece i) :
    (t.withHave had).seek delta = ((t.seek delta).1.withHave had, (t.seek delta).2) := by
  unfold seekAsked at h
  unfold seek
  rw [show (t.withHave had).state = t.state from rfl,
    show (t.withHave had).fileBoundary = t.fileBoundary from rfl]
  by_cases hs : t.state = .finished
  · rw [if_pos hs, if_pos hs]
  rw [if_neg hs] at h
  rw [if_neg hs, if_neg hs]
  rcases hinv.boundary with hb | ⟨hb, hlen⟩
  · rw [hb]
    rfl
  · rw [hb] at h
    rw [hb]
    dsimp only at h ⊢
    have hlast : E.lastPiece < ((t.aimSeek delta).filePriorities.length : ℤ) := by
      rw [show (t.aimSeek delta).filePriorities = t.filePriorities from rfl, hlen]
      exact E.lastPiece_lt
    have hwindow := seekWindow_withHave (t := t.aimSeek delta) E.firstPiece hlast h
    rw [show (t.withHave had).aimSeek delta = (t.aimSeek delta).withHave had from rfl,
      show (t.withHave had).seekPiece delta = t.seekPiece delta from rfl, hwindow]

/-! ### Where the deadlines are set -/

/-- The scan sets deadlines for the pieces it goes through only. -/
theorem downloadLoop_deadline (current first activeCount deadline : ℤ) (is : List ℤ)
    (t : WatchTask) (count newIndex : ℤ) {i : ℤ}
    (h : (downloadLoop current first activeCount deadline t is count newIndex).2.service.deadline i
      ≠ none) : t.service.deadline i ≠ none ∨ i ∈ is := by
  induction is generalizing t count newIndex with
  | nil => exact Or.inl h
  | cons j is ih =>
    -- a request sets the deadline of its own piece only
    have hrequest : (t.request j current first deadline).service.deadline i ≠ none →
        t.service.deadline i ≠ none ∨ i = j := by
      intro hd
      by_cases hij : i = j
      · exact Or.inr hij
      · refine Or.inl ?_
        unfold request at hd
        split_ifs at hd
        all_goals simpa [WatchService.setPieceDeadline, hij] using hd
    have hcons : i = j → i ∈ j :: is := fun hij => hij ▸ List.mem_cons_self ..
    rw [downloadLoop] at h
    by_cases hhad : t.service.havePiece j = true
    · rw [if_pos hhad] at h
      by_cases hstop : activeCount ≤ count
      · rw [if_pos hstop] at h
        exact Or.inl h
      · rw [if_neg hstop] at h
        exact (ih t count newIndex h).imp_right (List.mem_cons_of_mem j)
    · rw [if_neg hhad] at h
      dsimp only at h
      by_cases hstop : activeCount ≤ count + 1
      · rw [if_pos hstop] at h
        exact (hrequest h).imp_right hcons
      · rw [if_neg hstop] at h
        rcases ih _ _ _ h with hd | hmem
        · exact (hrequest hd).imp_right hcons
        · exact Or.inr (List.mem_cons_of_mem j hmem)

/-- So does `updateCurrentPiece`, from the clamped start to the last piece. -/
theorem updateCurrentPiece_deadline (first : ℤ) {current deadline i : ℤ}
    (hlast : last < t.filePriorities.length)
    (h : (t.updateCurrentPiece current first last deadline).service.deadline i ≠ none) :
    t.service.deadline i ≠ none ∨ (max current 0 ≤ i ∧ i ≤ last) := by
  unfold updateCurrentPiece updateDownload at h
  dsimp only at h
  rw [if_neg (not_le.mpr hlast)] at h
  rcases downloadLoop_deadline _ _ _ _ _ _ _ _ h with hd | hmem
  · exact Or.inl hd
  · rw [Int.mem_range_iff] at hmem
    split_ifs at hmem <;> exact Or.inr (by omega)

/-- The deadlines there were have been cleared, so that there are those of the scan only. -/
theorem deadline_clearForSeek {t' : WatchTask}
    (hlast : last < ((t'.clearForSeek first last).filePriorities.length : ℤ)) (state : WatchState)
    (first' current deadline i : ℤ)
    (h : (({ t'.clearForSeek first last with state := state } : WatchTask).updateCurrentPiece current
      first' last deadline).service.deadline i ≠ none) : max current 0 ≤ i ∧ i ≤ last := by
  have hlast' : last < (({ t'.clearForSeek first last with
    state := state } : WatchTask).filePriorities.length : ℤ) := hlast
  exact (updateCurrentPiece_deadline first' hlast' h).resolve_left (fun hd => hd rfl)

/-! ### What a seek does with its window -/

/-- What a seek that is not turned away leaves, its scan starting at `start`. -/
structure SeekLeaves (t : WatchTask) (delta : ℚ) (last start : ℤ) (t' : WatchTask) : Prop where
  begins : t'.seekBeginPiece = wrapInt (t.seekPiece delta - t.activePieceCount)
  ends : t'.seekEndPiece = wrapInt (t.seekPiece delta + t.activePieceCount)
  deadline : ∀ i, t'.service.deadline i ≠ none → max start 0 ≤ i ∧ i ≤ last

/-- A seek with the boundary known looks at its window. -/
theorem seek_of_known (hs : t.state ≠ .finished) (hb : t.fileBoundary = some (first, last)) :
    t.seek delta = (((t.aimSeek delta).seekWindow (t.seekPiece delta) first last).1,
      some ((t.aimSeek delta).seekWindow (t.seekPiece delta) first last).2) := by
  unfold seek
  rw [if_neg hs, hb]

/-- A seek that finds a missing piece. -/
theorem seek_of_hit {i : ℤ} (hs : t.state ≠ .finished) (hb : t.fileBoundary = some (first, last))
    (hlast : last < t.filePriorities.length) (hhit : (t.aimSeek delta).seekHit? = some i) :
    (t.seek delta).2 = some true ∧ (t.seek delta).1.state = .buffering ∧
      t.SeekLeaves delta last i (t.seek delta).1 := by
  have hlast' : last < (((t.aimSeek delta).clearForSeek first last).filePriorities.length : ℤ) := by
    rw [length_clearForSeek]
    exact hlast
  obtain ⟨p, ⟨ps, dl, -, heq⟩, -⟩ := updateCurrentPiece_frame
    (t := { (t.aimSeek delta).clearForSeek first last with state := .buffering }) first i 4 hlast'
  have hdeadline := fun j => deadline_clearForSeek hlast' .buffering first i 4 j
  rw [seek_of_known hs hb]
  unfold seekWindow
  dsimp only
  rw [seekHit?_clearForSeek, hhit]
  dsimp only [enterBuffering]
  rw [heq] at hdeadline ⊢
  exact ⟨rfl, rfl, rfl, rfl, hdeadline⟩

/-- Before the number of active pieces is known, the scan stops at the first piece it looks at. -/
theorem updateCurrentPiece_idle (current first deadline : ℤ)
    (hlast : last < t.filePriorities.length) (hactive : t.activePieceCount ≤ 0)
    (h₀ : 0 ≤ current) (h₁ : current ≤ last) (hhad : t.service.havePiece current = true) :
    (t.updateCurrentPiece current first last deadline).currentPiece = last := by
  unfold updateCurrentPiece updateDownload
  dsimp only
  rw [if_neg (not_lt.mpr h₀), if_neg (not_le.mpr hlast),
    range_eq_cons (show current < last + 1 by omega), downloadLoop, if_pos hhad, if_pos hactive]
  rfl

/-- A seek that finds none. -/
theorem seek_of_noHit (hs : t.state ≠ .finished) (hb : t.fileBoundary = some (first, last))
    (hlast : last < t.filePriorities.length) (hhit : (t.aimSeek delta).seekHit? = none) :
    (t.seek delta).2 = some false ∧ (t.seek delta).1.state = .sequentialDownload ∧
      t.SeekLeaves delta last (t.seekPiece delta) (t.seek delta).1 ∧
      (0 < t.activePieceCount → (t.seek delta).1.currentPiece =
        firstMissing t.service.havePiece (t.seekPiece delta) last) ∧
      (t.activePieceCount ≤ 0 → 0 ≤ t.seekPiece delta → t.seekPiece delta ≤ last →
        t.service.havePiece (t.seekPiece delta) = true → (t.seek delta).1.currentPiece = last) := by
  have hlast' : last < (((t.aimSeek delta).clearForSeek first last).filePriorities.length : ℤ) := by
    rw [length_clearForSeek]
    exact hlast
  obtain ⟨p, ⟨ps, dl, -, heq⟩, hp⟩ := updateCurrentPiece_frame
    (t := { (t.aimSeek delta).clearForSeek first last with state := .sequentialDownload }) first
    (t.seekPiece delta) 0 hlast'
  have hdeadline := fun j =>
    deadline_clearForSeek hlast' .sequentialDownload first (t.seekPiece delta) 0 j
  -- before the active pieces are counted the scan stops at once, and the last piece is taken
  have hidle := updateCurrentPiece_idle
    (t := { (t.aimSeek delta).clearForSeek first last with state := .sequentialDownload })
    (t.seekPiece delta) first 0 hlast'
  rw [seek_of_known hs hb]
  unfold seekWindow
  dsimp only
  rw [seekHit?_clearForSeek, hhit]
  dsimp only [enterSequential]
  rw [heq] at hdeadline hidle ⊢
  exact ⟨rfl, rfl, ⟨rfl, rfl, hdeadline⟩, hp, hidle⟩

/-! ### The set-up of the counts -/

/-- The counts `seek` reads are those of the file, or still zero. -/
structure CountsInv (E : WatchedFile) (t : WatchTask) : Prop where
  pieces : t.filePieceCount = 0 ∨ t.filePieceCount = E.pieces
  active : 0 ≤ t.activePieceCount ∧ t.activePieceCount ≤ MAX_ACTIVE_COUNT

/-- A step counts the pieces of the file, or leaves the counts. -/
theorem CountsInv.next (hinv : Inv E t) (h : CountsInv E t) {e : WatchEvent}
    (hstep : t.next E e = some t') : CountsInv E t' := by
  by_cases he : e = .advance
  · subst he
    cases advanceStep hinv hstep with
    | started | loadMetadata | checkFile | failed | activated | loadSubtitles =>
      exact ⟨h.pieces, h.active⟩
    | boundaryKnown =>
      refine ⟨Or.inr ?_, h.active⟩
      simp only [WatchedFile.lastPiece, WatchedFile.firstPiece]
      omega
    | counted prepareCount _ _ hpos =>
      refine ⟨h.pieces, ?_⟩
      show 0 ≤ (if MAX_ACTIVE_COUNT < prepareCount then MAX_ACTIVE_COUNT else prepareCount) ∧
        (if MAX_ACTIVE_COUNT < prepareCount then MAX_ACTIVE_COUNT else prepareCount) ≤
          MAX_ACTIVE_COUNT
      unfold MAX_ACTIVE_COUNT
      split_ifs <;> omega
  · obtain ⟨-, -, hpieces, -, hactive⟩ := sameSetup_of_next hinv he hstep
    exact ⟨hpieces ▸ h.pieces, hactive ▸ h.active⟩

/-- **Every run** keeps the counts. -/
theorem countsInv_of_reachable (h : (machine E).Reachable t) : CountsInv E t := by
  refine Machine.Reachable.invariant_reachable (I := CountsInv E) ?_ ?_ h
  · rintro s ⟨service, rfl⟩
    exact ⟨Or.inl rfl, by simp [new, MAX_ACTIVE_COUNT]⟩
  · intro s e s' hreach hcounts hstep
    exact hcounts.next (inv_of_reachable hreach) hstep

/-- The cast of the product stops at the largest `int`. -/
theorem seekPiece_eq (hcounts : CountsInv E t) (hdelta : 0 ≤ delta) :
    0 ≤ pieceIndex t.filePieceCount delta ∧
      t.seekPiece delta = min (2 ^ 31 - 1) (pieceIndex t.filePieceCount delta) := by
  have hcount : 0 ≤ t.filePieceCount := by
    rcases hcounts.pieces with h | h <;> omega
  have hfloat : 0 ≤ Binary32.ofInt t.filePieceCount :=
    Binary32.round_nonneg (by exact_mod_cast hcount)
  have hproduct : 0 ≤ Binary32.mul delta (Binary32.ofInt t.filePieceCount) :=
    Binary32.round_nonneg (mul_nonneg hdelta hfloat)
  have hindex := pieceIndex_nonneg hcount hdelta
  refine ⟨hindex, ?_⟩
  unfold seekPiece Binary32.toInt32 Binary32.toInt
  rw [if_pos hproduct]
  change 0 ≤ pieceIndex t.filePieceCount delta at hindex
  show max (-2 ^ 31) (min (2 ^ 31 - 1) (pieceIndex t.filePieceCount delta)) = _
  omega

/-- What is an `int` is not wrapped. -/
theorem wrapInt_of_small {n : ℤ} (h₀ : -2 ^ 31 ≤ n) (h₁ : n < 2 ^ 31) : wrapInt n = n := by
  unfold wrapInt
  exact Int.bmod_eq_of_le (by omega) (by omega)

/-- The window is the one around the piece of the file exactly when its index in the file is its
    index in the torrent, and the end of the window an `int`. -/
theorem window_iff (hcounts : CountsInv E t) (hdelta : 0 ≤ delta) (hsize : E.numPieces < 2 ^ 31) :
    (wrapInt (t.seekPiece delta - t.activePieceCount) = E.seekTarget delta - t.activePieceCount ∧
      wrapInt (t.seekPiece delta + t.activePieceCount) = E.seekTarget delta + t.activePieceCount) ↔
    pieceIndex t.filePieceCount delta = E.seekTarget delta ∧
      E.seekTarget delta + t.activePieceCount < 2 ^ 31 := by
  obtain ⟨hindex, hpiece⟩ := seekPiece_eq hcounts hdelta
  obtain ⟨hactive, hmax⟩ := hcounts.active
  have hmax' : t.activePieceCount ≤ 20 := hmax
  have hin := E.inFile_seekTarget hdelta
  unfold WatchedFile.InFile at hin
  have hlast := E.lastPiece_lt
  have hfirst := E.firstPiece_nonneg
  rw [wrapInt_of_small (by omega) (by omega)]
  constructor
  · rintro ⟨hbegin, hend⟩
    have hk : pieceIndex t.filePieceCount delta = E.seekTarget delta := by omega
    refine ⟨hk, ?_⟩
    have hwrap : wrapInt (t.seekPiece delta + t.activePieceCount) < 2 ^ 31 :=
      Int.bmod_lt (by omega)
    omega
  · rintro ⟨hk, hint⟩
    rw [wrapInt_of_small (by omega) (by omega)]
    omega

/-! ### When a seek is right -/

/-- Piece `i` of the file lies in the window around the piece aimed at, and is missing. -/
def MissingAt (E : WatchedFile) (t : WatchTask) (delta : ℚ) (i : ℤ) : Prop :=
  (E.seekTarget delta - t.activePieceCount ≤ i ∧ i ≤ E.seekTarget delta + t.activePieceCount) ∧
    E.InFile i ∧ t.service.havePiece i = false

/-- A piece of the window is missing. -/
def MissingNear (E : WatchedFile) (t : WatchTask) (delta : ℚ) : Prop :=
  ∃ i, t.MissingAt E delta i

/-- The seek is right: its window is centred on the piece of the file at the fraction, a missing
    piece of the file in it decides between `BUFFERING` and going on sequentially from there, and
    pieces of other files are neither asked for nor given deadlines. -/
structure SeeksRight (E : WatchedFile) (t : WatchTask) (delta : ℚ) : Prop where
  window : (t.seek delta).1.seekBeginPiece = E.seekTarget delta - t.activePieceCount ∧
    (t.seek delta).1.seekEndPiece = E.seekTarget delta + t.activePieceCount
  answer : (t.seek delta).2 = some true ↔ t.MissingNear E delta
  buffering : (t.seek delta).1.state = .buffering ↔ t.MissingNear E delta
  sequential : ¬t.MissingNear E delta → (t.seek delta).2 = some false ∧
    (t.seek delta).1.state = .sequentialDownload ∧ (t.seek delta).1.currentPiece =
      firstMissing t.service.havePiece (E.seekTarget delta) E.lastPiece
  examined : ∀ i ∈ t.seekAsked delta, E.InTorrent i → E.InFile i
  deadlines : ∀ i, (t.seek delta).1.service.deadline i ≠ none → E.InFile i

/-- The condition of a seek. -/
structure SeekGuard (E : WatchedFile) (t : WatchTask) (delta : ℚ) : Prop where
  unfinished : t.state ≠ .finished
  /-- The index in the file is the index in the torrent. -/
  aimed : pieceIndex t.filePieceCount delta = E.seekTarget delta
  int : E.seekTarget delta + t.activePieceCount < 2 ^ 31
  /-- The window ends in the file, or the torrent does with the file. -/
  ends : E.seekTarget delta + t.activePieceCount ≤ E.lastPiece ∨ E.after = 0
  /-- The window begins in the file, or the file begins the torrent; one piece before the file is
      passed over while nothing is missing. -/
  begins : E.firstPiece = 0 ∨ E.firstPiece ≤ E.seekTarget delta - t.activePieceCount ∨
    (E.firstPiece = 1 ∧ ¬t.MissingNear E delta)
  /-- Piece `0` is not the only one missing. -/
  zero : t.MissingNear E delta → ∃ i, t.MissingAt E delta i ∧ 0 < i
  active : 0 < t.activePieceCount ∨ t.MissingNear E delta ∨
    ∀ i, E.seekTarget delta ≤ i → i < E.lastPiece → t.service.havePiece i = true

/-- What the two cases of a seek share: it is not turned away, and its window is the right one. -/
structure SeekAimed (E : WatchedFile) (t : WatchTask) (delta : ℚ) : Prop where
  unfinished : t.state ≠ .finished
  known : t.fileBoundary = some (E.firstPiece, E.lastPiece)
  length : (t.filePriorities.length : ℤ) = E.numPieces
  active : 0 ≤ t.activePieceCount
  target : E.InFile (E.seekTarget delta)
  piece : t.seekPiece delta = E.seekTarget delta
  begins : (t.aimSeek delta).seekBeginPiece = E.seekTarget delta - t.activePieceCount
  ends : (t.aimSeek delta).seekEndPiece = E.seekTarget delta + t.activePieceCount

/-- The last piece of the file is one of the torrent. -/
theorem SeekAimed.last_lt (h : t.SeekAimed E delta) : E.lastPiece < t.filePriorities.length := by
  rw [h.length]
  exact E.lastPiece_lt

/-- The loop of `seek` looks at the pieces of the torrent in the window but piece `0`. -/
theorem SeekAimed.mem_windowAsked (h : t.SeekAimed E delta) {endPiece i : ℤ} :
    i ∈ (t.aimSeek delta).windowAsked endPiece ↔
      (E.seekTarget delta - t.activePieceCount ≤ i ∧ i ≤ endPiece) ∧ 0 < i ∧ i < E.numPieces := by
  rw [WatchTask.mem_windowAsked, h.begins, show (t.aimSeek delta).filePriorities = t.filePriorities
    from rfl, h.length]

/-- The pieces of the torrent in the window are all in the file exactly when it leaves the file at
    neither end for another one; piece `0` counts where `lo` is `0`. -/
theorem SeekAimed.window_inFile_iff (h : t.SeekAimed E delta) {lo : ℤ} (hlo : 0 ≤ lo)
    (hfirst : lo ≤ 1) :
    (∀ i, E.seekTarget delta - t.activePieceCount ≤ i →
        i ≤ E.seekTarget delta + t.activePieceCount → lo ≤ i → i < E.numPieces → E.InFile i) ↔
      (E.seekTarget delta + t.activePieceCount ≤ E.lastPiece ∨ E.after = 0) ∧
      (E.firstPiece ≤ lo ∨ E.firstPiece ≤ E.seekTarget delta - t.activePieceCount) := by
  obtain ⟨hge, hle⟩ := h.target
  have hactive := h.active
  have hpos := E.firstPiece_nonneg
  have hnum : E.numPieces = E.lastPiece + 1 + E.after := by
    unfold WatchedFile.numPieces WatchedFile.lastPiece
    omega
  unfold WatchedFile.InFile
  constructor
  · intro hall
    constructor
    · -- the piece behind the file
      by_contra hno
      have := hall (E.lastPiece + 1) (by omega) (by omega) (by omega) (by omega)
      omega
    · -- the piece before it
      by_contra hno
      have := hall (E.firstPiece - 1) (by omega) (by omega) (by omega) (by omega)
      omega
  · rintro ⟨hends, hbegins⟩ i hi hi' hlo hin
    omega

/-- A seek that finds a missing piece also counts the whole window. -/
theorem SeekAimed.asked_of_hit (h : t.SeekAimed E delta) {i : ℤ}
    (hhit : (t.aimSeek delta).seekHit? = some i) :
    t.seekAsked delta = (t.aimSeek delta).windowAsked i ++
      (t.aimSeek delta).updateDownloadAsked i E.lastPiece t.activePieceCount ++
      Int.range (E.seekTarget delta - t.activePieceCount)
        (E.seekTarget delta + t.activePieceCount + 1) := by
  rw [seekAsked, if_neg h.unfinished, h.known]
  dsimp only
  rw [seekWindowAsked, hhit, h.begins, h.ends]
  rfl

/-- A seek that finds none asks for the window and for the scan. -/
theorem SeekAimed.asked_of_noHit (h : t.SeekAimed E delta)
    (hhit : (t.aimSeek delta).seekHit? = none) :
    t.seekAsked delta =
      (t.aimSeek delta).windowAsked (E.seekTarget delta + t.activePieceCount) ++
      (t.aimSeek delta).updateDownloadAsked (E.seekTarget delta) E.lastPiece
        t.activePieceCount := by
  rw [seekAsked, if_neg h.unfinished, h.known]
  dsimp only
  rw [seekWindowAsked, hhit, h.ends, h.piece]
  rfl

/-- What the loop of `seek` finds: a piece of the window that the torrent has not got. -/
theorem SeekAimed.found (h : t.SeekAimed E delta) {i : ℤ}
    (hhit : (t.aimSeek delta).seekHit? = some i) :
    E.seekTarget delta - t.activePieceCount ≤ i ∧ i ≤ E.seekTarget delta + t.activePieceCount ∧
      0 < i ∧ i < E.numPieces ∧ t.service.havePiece i = false := by
  obtain ⟨hlo, hhi, hp, -⟩ := find?_range_eq_some.mp hhit
  simp only [Bool.and_eq_true, decide_eq_true_eq, Bool.not_eq_true'] at hp
  obtain ⟨⟨hpos, hlen⟩, hmiss⟩ := hp
  rw [h.begins] at hlo
  rw [h.ends] at hhi
  change i < (t.filePriorities.length : ℤ) at hlen
  rw [h.length] at hlen
  exact ⟨hlo, by omega, hpos, hlen, hmiss⟩

/-- **A seek that finds a missing piece** is right if no piece of the torrent in the window lies
    outside the file. -/
theorem SeekAimed.right_iff_of_hit (h : t.SeekAimed E delta) {i : ℤ}
    (hhit : (t.aimSeek delta).seekHit? = some i) :
    t.SeeksRight E delta ↔
      (E.seekTarget delta + t.activePieceCount ≤ E.lastPiece ∨ E.after = 0) ∧
      (E.firstPiece ≤ 0 ∨ E.firstPiece ≤ E.seekTarget delta - t.activePieceCount) := by
  obtain ⟨hanswer, hstate, hleaves⟩ := seek_of_hit h.unfinished h.known h.last_lt hhit
  obtain ⟨hlo, hhi, hpos, hlen, hmiss⟩ := h.found hhit
  rw [← h.window_inFile_iff (le_refl 0) (by omega)]
  have hasked := h.asked_of_hit hhit
  constructor
  · -- the progress has asked for the whole window
    intro hr j hj hj' hj₀ hj₁
    refine hr.examined j ?_ ⟨hj₀, hj₁⟩
    rw [hasked, List.mem_append]
    exact Or.inr (Int.mem_range_iff.mpr ⟨hj, by omega⟩)
  · intro hall
    have hin := hall i hlo (by omega) (by omega) hlen
    have hnear : t.MissingNear E delta := ⟨i, ⟨hlo, by omega⟩, hin, hmiss⟩
    refine ⟨⟨hleaves.begins.trans h.begins, hleaves.ends.trans h.ends⟩, iff_of_true hanswer hnear,
      iff_of_true hstate hnear, fun hno => absurd hnear hno, ?_, ?_⟩
    · intro j hj hjt
      rw [hasked, List.mem_append, List.mem_append, h.mem_windowAsked, Int.mem_range_iff] at hj
      rcases hj with (⟨⟨hj, hji⟩, -⟩ | hj) | ⟨hj, hj'⟩
      · exact hall j hj (by omega) hjt.1 hjt.2
      · obtain ⟨hij, hjl⟩ := mem_updateDownloadAsked h.last_lt hj
        exact ⟨by have := hin.1; omega, hjl⟩
      · exact hall j hj (by omega) hjt.1 hjt.2
    · intro j hj
      obtain ⟨hij, hjl⟩ := hleaves.deadline j hj
      exact ⟨by have := hin.1; omega, hjl⟩

/-- The scan comes to the last piece if all before it are had. -/
theorem firstMissing_eq_last_iff (had : ℤ → Bool) {start : ℤ} (last : ℤ) (hstart : 0 ≤ start) :
    firstMissing had start last = last ↔ ∀ i, start ≤ i → i < last → had i = true := by
  constructor
  · intro heq i hi hil
    exact (le_firstMissing_iff.mp heq.ge).2 i (by omega) hil
  · intro hall
    exact le_antisymm (le_firstMissing_iff.mp le_rfl).1
      (le_firstMissing_iff.mpr ⟨le_rfl, fun i hi hil => hall i (by omega) hil⟩)

/-- **A seek that finds none** is right if moreover nothing of the file in the window is missing,
    and the scan looks further than the piece aimed at if it has to. -/
theorem SeekAimed.right_iff_of_noHit (h : t.SeekAimed E delta)
    (hhit : (t.aimSeek delta).seekHit? = none) :
    t.SeeksRight E delta ↔ ¬t.MissingNear E delta ∧
      ((E.seekTarget delta + t.activePieceCount ≤ E.lastPiece ∨ E.after = 0) ∧
        (E.firstPiece ≤ 1 ∨ E.firstPiece ≤ E.seekTarget delta - t.activePieceCount)) ∧
      (0 < t.activePieceCount ∨
        ∀ i, E.seekTarget delta ≤ i → i < E.lastPiece → t.service.havePiece i = true) := by
  obtain ⟨hanswer, hstate, hleaves, hscan, hidle⟩ := seek_of_noHit h.unfinished h.known h.last_lt
    hhit
  obtain ⟨hge, hle⟩ := h.target
  have hactive := h.active
  have hpos := E.firstPiece_nonneg
  rw [h.piece] at hleaves hscan hidle
  rw [← h.window_inFile_iff zero_le_one (le_refl 1)]
  have hasked := h.asked_of_noHit hhit
  -- the piece aimed at is had, unless it is missing
  have htarget : ¬t.MissingNear E delta → t.service.havePiece (E.seekTarget delta) = true := by
    intro hno
    by_contra hmiss
    exact hno ⟨_, ⟨by omega, by omega⟩, h.target, by simpa using hmiss⟩
  have hcurrent := firstMissing_eq_last_iff t.service.havePiece E.lastPiece
    (show 0 ≤ E.seekTarget delta by omega)
  constructor
  · intro hr
    have hno : ¬t.MissingNear E delta := by
      rw [← hr.answer, hanswer]
      simp
    refine ⟨hno, fun j hj hj' hj₀ hj₁ => ?_, ?_⟩
    · refine hr.examined j ?_ ⟨by omega, hj₁⟩
      rw [hasked, List.mem_append, h.mem_windowAsked]
      exact Or.inl ⟨⟨hj, hj'⟩, by omega, hj₁⟩
    · rcases lt_or_eq_of_le hactive with hlt | hzero
      · exact Or.inl hlt
      · refine Or.inr (hcurrent.mp ?_)
        rw [← (hr.sequential hno).2.2, hidle (by omega) (by omega) hle (htarget hno)]
  · rintro ⟨hno, hall, hmore⟩
    refine ⟨⟨hleaves.begins.trans h.begins, hleaves.ends.trans h.ends⟩,
      iff_of_false (by rw [hanswer]; simp) hno, iff_of_false (by rw [hstate]; simp) hno,
      fun _ => ⟨hanswer, hstate, ?_⟩, ?_, ?_⟩
    · rcases lt_or_eq_of_le hactive with hlt | hzero
      · exact hscan hlt
      · rw [hidle (by omega) (by omega) hle (htarget hno)]
        exact (hcurrent.mpr (hmore.resolve_left (by omega))).symm
    · intro j hj hjt
      rw [hasked, List.mem_append, h.mem_windowAsked] at hj
      rcases hj with ⟨⟨hj, hj'⟩, hj₀, hj₁⟩ | hj
      · exact hall j hj hj' (by omega) hj₁
      · obtain ⟨hij, hjl⟩ := mem_updateDownloadAsked h.last_lt hj
        exact ⟨by omega, hjl⟩
    · intro j hj
      obtain ⟨hij, hjl⟩ := hleaves.deadline j hj
      exact ⟨by omega, hjl⟩

/-- What the loop of `seek` has found is a missing piece of the file, if the window does not leave
    the file. -/
theorem SeekAimed.missingAt_of_hit (h : t.SeekAimed E delta) {i : ℤ}
    (hwindow : (E.seekTarget delta + t.activePieceCount ≤ E.lastPiece ∨ E.after = 0) ∧
      (E.firstPiece ≤ 1 ∨ E.firstPiece ≤ E.seekTarget delta - t.activePieceCount))
    (hhit : (t.aimSeek delta).seekHit? = some i) : t.MissingAt E delta i ∧ 0 < i := by
  obtain ⟨hlo, hhi, hpos, hlen, hmiss⟩ := h.found hhit
  have hall := (h.window_inFile_iff zero_le_one (le_refl 1)).mpr hwindow
  exact ⟨⟨⟨hlo, by omega⟩, hall i hlo (by omega) (by omega) hlen, hmiss⟩, hpos⟩

/-- Where the loop finds nothing, only piece `0` can be missing. -/
theorem SeekAimed.not_missing_of_noHit (h : t.SeekAimed E delta)
    (hhit : (t.aimSeek delta).seekHit? = none) {i : ℤ} (hi : t.MissingAt E delta i) : ¬0 < i := by
  intro hpos
  obtain ⟨⟨hlo, hhi⟩, hin, hmiss⟩ := hi
  have hlt : i < t.filePriorities.length := lt_of_le_of_lt hin.2 h.last_lt
  have hnone := find?_range_eq_none.mp hhit i (by rw [h.begins]; exact hlo)
    (by rw [h.ends]; omega)
  rw [show (t.aimSeek delta).filePriorities = t.filePriorities from rfl,
    show (t.aimSeek delta).service = t.service from rfl] at hnone
  simp [hpos, hlt, hmiss] at hnone

/-- **An aimed seek** is right exactly when the rest of its guard is met. -/
theorem SeekAimed.right_iff (h : t.SeekAimed E delta)
    (haimed : pieceIndex t.filePieceCount delta = E.seekTarget delta)
    (hint : E.seekTarget delta + t.activePieceCount < 2 ^ 31) :
    t.SeeksRight E delta ↔ t.SeekGuard E delta := by
  have hpos := E.firstPiece_nonneg
  cases hhit : (t.aimSeek delta).seekHit? with
  | some i =>
    rw [h.right_iff_of_hit hhit]
    constructor
    · rintro ⟨hends, hbegins⟩
      obtain ⟨hmissing, hi⟩ := h.missingAt_of_hit ⟨hends, hbegins.imp_left (by omega)⟩ hhit
      exact ⟨h.unfinished, haimed, hint, hends, hbegins.imp (by omega) Or.inl,
        fun _ => ⟨i, hmissing, hi⟩, Or.inr (Or.inl ⟨i, hmissing⟩)⟩
    · intro hg
      refine ⟨hg.ends, ?_⟩
      rcases hg.begins with hzero | hbegins | ⟨hone, hno⟩
      · exact Or.inl (le_of_eq hzero)
      · exact Or.inr hbegins
      · -- a hit is a missing piece
        exact absurd ⟨i, (h.missingAt_of_hit ⟨hg.ends, Or.inl (le_of_eq hone)⟩ hhit).1⟩ hno
  | none =>
    rw [h.right_iff_of_noHit hhit]
    constructor
    · rintro ⟨hno, ⟨hends, hbegins⟩, hmore⟩
      refine ⟨h.unfinished, haimed, hint, hends, ?_, fun hm => absurd hm hno, ?_⟩
      · rcases hbegins with hone | hbegins
        · by_cases hzero : E.firstPiece = 0
          · exact Or.inl hzero
          · exact Or.inr (Or.inr ⟨by omega, hno⟩)
        · exact Or.inr (Or.inl hbegins)
      · exact hmore.imp_right Or.inr
    · intro hg
      have hno : ¬t.MissingNear E delta := by
        intro hm
        obtain ⟨i, hi, hi₀⟩ := hg.zero hm
        exact h.not_missing_of_noHit hhit hi hi₀
      refine ⟨hno, ⟨hg.ends, ?_⟩, ?_⟩
      · rcases hg.begins with hzero | hbegins | ⟨hone, -⟩
        · exact Or.inl (by omega)
        · exact Or.inr hbegins
        · exact Or.inl (le_of_eq hone)
      · exact hg.active.imp_right (fun hm => hm.resolve_left hno)

/-- A seek writes its window before anything else. -/
theorem seek_window (delta : ℚ) (hs : t.state ≠ .finished)
    (hb : t.fileBoundary = some (first, last)) (hlast : last < t.filePriorities.length) :
    (t.seek delta).1.seekBeginPiece = wrapInt (t.seekPiece delta - t.activePieceCount) ∧
    (t.seek delta).1.seekEndPiece = wrapInt (t.seekPiece delta + t.activePieceCount) := by
  cases hhit : (t.aimSeek delta).seekHit? with
  | some i =>
    have hleaves := (seek_of_hit hs hb hlast hhit).2.2
    exact ⟨hleaves.begins, hleaves.ends⟩
  | none =>
    have hleaves := (seek_of_noHit hs hb hlast hhit).2.2.1
    exact ⟨hleaves.begins, hleaves.ends⟩

/-- A seek in `FINISHED` is turned away, so it aims at nothing. -/
theorem SeeksRight.unfinished (h : t.SeeksRight E delta) : t.state ≠ .finished := by
  intro hs
  have hseek : t.seek delta = (t, some false) := by
    unfold seek
    rw [if_pos hs]
  have hno : ¬t.MissingNear E delta := by
    rw [← h.answer, hseek]
    simp
  have hstate := (h.sequential hno).2.1
  rw [hseek, hs] at hstate
  exact absurd hstate (by decide)

/-- Once the pieces are counted, the index in the file is the piece aimed at where the file begins
    the torrent and the index stays in it, or where it happens to be the last piece. -/
theorem aimed_iff (hcount : t.filePieceCount = E.pieces) (hdelta : 0 ≤ delta) :
    pieceIndex t.filePieceCount delta = E.seekTarget delta ↔
      (E.before = 0 ∧ pieceIndex E.pieces delta < E.pieces) ∨
        pieceIndex E.pieces delta = E.lastPiece := by
  have hindex := pieceIndex_nonneg (show (0 : ℤ) ≤ E.pieces by omega) hdelta
  rw [hcount]
  unfold WatchedFile.seekTarget WatchedFile.lastPiece WatchedFile.firstPiece
  omega

/-- **Where a seek aims.**  For every file in a torrent whose pieces are counted by an `int`, in
    every run, once the boundary is known, and for every fraction: the seek is right exactly when
    its guard is met. -/
theorem seeksRight_iff (E : WatchedFile) (hsize : E.numPieces < 2 ^ 31) (t : WatchTask)
    (hreach : (machine E).Reachable t) (hknown : t.fileBoundary ≠ none) (delta : ℚ)
    (hdelta : 0 ≤ delta) : t.SeeksRight E delta ↔ t.SeekGuard E delta := by
  obtain ⟨hb, hlen⟩ := (inv_of_reachable hreach).boundary.resolve_left hknown
  have hcounts := countsInv_of_reachable hreach
  have hwindow := window_iff hcounts hdelta hsize
  have hlast : E.lastPiece < (t.filePriorities.length : ℤ) := hlen ▸ E.lastPiece_lt
  -- the window decides whether the seek is aimed at all
  have haimed : t.state ≠ .finished → pieceIndex t.filePieceCount delta = E.seekTarget delta →
      E.seekTarget delta + t.activePieceCount < 2 ^ 31 → t.SeekAimed E delta := by
    intro hs hindex hint
    obtain ⟨hbegin, hend⟩ := hwindow.mpr ⟨hindex, hint⟩
    have htarget := E.inFile_seekTarget hdelta
    have hbound := E.lastPiece_lt
    obtain ⟨hge, hle⟩ := htarget
    refine ⟨hs, hb, hlen, hcounts.active.1, ⟨hge, hle⟩, ?_, hbegin, hend⟩
    rw [(seekPiece_eq hcounts hdelta).2, hindex]
    omega
  constructor
  · intro hr
    obtain ⟨hbegin, hend⟩ := seek_window delta hr.unfinished hb hlast
    obtain ⟨hindex, hint⟩ := hwindow.mp ⟨hbegin ▸ hr.window.1, hend ▸ hr.window.2⟩
    exact ((haimed hr.unfinished hindex hint).right_iff hindex hint).mp hr
  · intro hg
    exact ((haimed hg.unfinished hg.aimed hg.int).right_iff hg.aimed hg.int).mpr hg

/-- A seek to the middle of a file of ten pieces that is alone in its torrent. -/
theorem seeksRight_iff_tenPieces :
    ∃ t, (machine tenPieces).Reachable t ∧ t.service.havePiece 5 = false ∧
      t.SeeksRight tenPieces (1 / 2) := by
  have hrun : (Machine.runEvents (next tenPieces)
      (new ⟨fun _ => false, fun _ => none, 10 * SIZE_MB⟩) startEvents).map
        (fun t => ((t.state, t.fileBoundary), (t.filePieceCount, t.activePieceCount),
          t.service.havePiece 5)) = some ((.preparingForWatch, some (0, 9)), (10, 3), false) := by
    decide +kernel
  obtain ⟨t, hreach, heq⟩ := Machine.Reachable.exists_of_runEvents
    (show (machine tenPieces).Reachable _ from .start ⟨_, rfl⟩) hrun
  simp only [Prod.mk.injEq] at heq
  obtain ⟨⟨hs, hb⟩, ⟨hcount, hactive⟩, hmiss⟩ := heq
  have htarget : tenPieces.seekTarget (1 / 2) = 5 := by decide +kernel
  have hlast : tenPieces.lastPiece = 9 := by decide
  refine ⟨t, hreach, hmiss, (seeksRight_iff tenPieces (by decide) t hreach (by simp [hb]) (1 / 2)
    (by norm_num)).mpr ⟨by simp [hs], ?_, by omega, by omega, Or.inl (by decide), ?_, by omega⟩⟩
  · rw [hcount]
    decide +kernel
  · exact fun _ => ⟨5, ⟨⟨by omega, by omega⟩, ⟨by decide, by decide⟩, hmiss⟩, by decide⟩

/-- The file lies behind ten pieces of another one.  A seek to its middle, piece `15` of the
    torrent, opens a window around piece `5`, in the other file. -/
theorem seek_otherFile :
    ∃ (E : WatchedFile) (t : WatchTask) (delta : ℚ), (machine E).Reachable t ∧
      t.fileBoundary ≠ none ∧ t.state ≠ .finished ∧ 0 ≤ delta ∧ delta ≤ 1 ∧
      ¬t.SeeksRight E delta := by
  have hrun : (Machine.runEvents (next ⟨10, 10, 0, by decide⟩)
      (new ⟨fun _ => false, fun _ => none, 10 * SIZE_MB⟩) startEvents).map
        (fun t => ((t.state, t.fileBoundary), t.activePieceCount,
          (t.seek (1 / 2)).1.seekBeginPiece)) =
        some ((.preparingForWatch, some (10, 19)), 3, 2) := by
    decide +kernel
  obtain ⟨t, hreach, heq⟩ := Machine.Reachable.exists_of_runEvents
    (show (machine ⟨10, 10, 0, by decide⟩).Reachable _ from .start ⟨_, rfl⟩) hrun
  simp only [Prod.mk.injEq] at heq
  obtain ⟨⟨hs, hb⟩, hactive, hbegin⟩ := heq
  refine ⟨_, t, 1 / 2, hreach, by simp [hb], by simp [hs], by norm_num, by norm_num, fun hr => ?_⟩
  have htarget : WatchedFile.seekTarget ⟨10, 10, 0, by decide⟩ (1 / 2) = 15 := by decide +kernel
  have hwindow := hr.window.1
  rw [hbegin, hactive, htarget] at hwindow
  exact absurd hwindow (by decide)

end WatchTask

end PopcornTime.Android
