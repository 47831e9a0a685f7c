import PopcornTime.Android.WatchRun

namespace PopcornTime.Android

open PopcornTime

/-!
# Android watch — priorities and deadlines

`filePriorities` shadows the deadlines of libtorrent: a piece that is marked there is not asked for
again.  A seek clears all deadlines, but only the marks of the file's own pieces, and of these not
the mark of piece `0`.

* `Asked` — what a scan does to marks and deadlines.
* `updateDownload_marks` — the scan marks the first `activeCount` missing pieces it meets.
* `RecordedWatch` — a watch with the deadlines set since they were last cleared.
* `deadlinesRight_of_guard` — when every mark has its deadline.
-/

namespace WatchTask

variable {E : WatchedFile} {t t' t'' : WatchTask} {first last : ℤ}

/-! ### Marks -/

/-- `priorities[i] == MAXIMUM` -/
def Marked (t : WatchTask) (i : ℤ) : Prop :=
  get? t.filePriorities i = some TorrentPriority.MAXIMUM

/-- The priorities are those the task itself writes. -/
def MarksOnly (t : WatchTask) : Prop :=
  ∀ i p, get? t.filePriorities i = some p →
    p = TorrentPriority.NOT_DOWNLOADED ∨ p = TorrentPriority.MAXIMUM

/-- Some pieces have been asked for: each of them is newly marked and has a deadline, and nothing
    has changed for the others. -/
def Asked (t t' : WatchTask) : Prop :=
  ∀ i, (get? t'.filePriorities i = get? t.filePriorities i ∧
      t'.service.deadline i = t.service.deadline i) ∨
    (get? t.filePriorities i = some TorrentPriority.NOT_DOWNLOADED ∧ t'.Marked i ∧
      (t'.service.deadline i).isSome = true)

/-- Nothing has been asked for. -/
theorem Asked.refl (t : WatchTask) : Asked t t :=
  fun _ => Or.inl ⟨rfl, rfl⟩

/-- Some pieces have been asked for, and then others. -/
theorem Asked.trans (h : Asked t t') (h' : Asked t' t'') : Asked t t'' := by
  intro i
  rcases h i with ⟨hp, hd⟩ | ⟨hp, hm, hd⟩ <;> rcases h' i with ⟨hp', hd'⟩ | ⟨hp', hm', hd'⟩
  · exact Or.inl ⟨hp'.trans hp, hd'.trans hd⟩
  · exact Or.inr ⟨hp ▸ hp', hm', hd'⟩
  · refine Or.inr ⟨hp, ?_, ?_⟩
    · exact hp'.trans hm
    · rw [hd']
      exact hd
  · exact Or.inr ⟨hp, hm', hd'⟩

/-- A mark stays. -/
theorem Asked.marked (h : Asked t t') {i : ℤ} (hm : t.Marked i) : t'.Marked i := by
  rcases h i with ⟨hp, -⟩ | ⟨-, hm', -⟩
  · exact hp.trans hm
  · exact hm'

/-- A piece that is asked for is marked by the task itself. -/
theorem Asked.marksOnly (h : Asked t t') (hm : t.MarksOnly) : t'.MarksOnly := by
  intro i p hp
  rcases h i with ⟨heq, -⟩ | ⟨-, hm', -⟩
  · exact hm i p (heq ▸ hp)
  · rw [hm', Option.some.injEq] at hp
    exact Or.inr hp.symm

/-- A deadline stays. -/
theorem Asked.deadline (h : Asked t t') {i : ℤ} (hd : (t.service.deadline i).isSome = true) :
    (t'.service.deadline i).isSome = true := by
  rcases h i with ⟨-, heq⟩ | ⟨-, -, hd'⟩
  · rw [heq]
    exact hd
  · exact hd'

/-- A request asks for its own piece, unless it is marked. -/
theorem request_asked (t : WatchTask) (i current first deadline : ℤ) :
    Asked t (t.request i current first deadline) := by
  unfold request
  -- only an entry that is `NOT_DOWNLOADED` is asked for
  by_cases h : get? t.filePriorities i = some TorrentPriority.NOT_DOWNLOADED
  · rw [if_pos h]
    obtain ⟨h₀, h₁⟩ := mem_range_of_get?_eq_some h
    intro j
    by_cases hj : j = i
    · subst hj
      refine Or.inr ⟨h, ?_, ?_⟩
      · show get? (t.filePriorities.set j.toNat TorrentPriority.MAXIMUM) j = _
        rw [get?_set h₀ h₁, if_pos rfl]
      · simp [WatchService.setPieceDeadline]
    · refine Or.inl ⟨?_, ?_⟩
      · show get? (t.filePriorities.set i.toNat TorrentPriority.MAXIMUM) j = _
        rw [get?_set h₀ h₁, if_neg hj]
      · simp [WatchService.setPieceDeadline, hj]
  · rw [if_neg h]
    exact Asked.refl t

/-- A piece of the torrent that has been requested is marked. -/
theorem request_marked {i : ℤ} (hm : t.MarksOnly) (h₀ : 0 ≤ i) (h₁ : i < t.filePriorities.length)
    (current first deadline : ℤ) : (t.request i current first deadline).Marked i := by
  unfold request
  by_cases h : get? t.filePriorities i = some TorrentPriority.NOT_DOWNLOADED
  · rw [if_pos h]
    show get? (t.filePriorities.set i.toNat TorrentPriority.MAXIMUM) i = _
    rw [get?_set h₀ h₁, if_pos rfl]
  · rw [if_neg h]
    have hlt : i.toNat < t.filePriorities.length := by omega
    have hget : get? t.filePriorities i = some t.filePriorities[i.toNat] := by
      unfold get?
      rw [if_pos h₀, List.getElem?_eq_getElem]
    -- an entry that is in the list is one of the two priorities
    rcases hm i _ hget with hp | hp
    · rw [hp] at hget
      exact absurd hget h
    · rw [hp] at hget
      exact hget

/-! ### What the scan marks -/

/-- The number of pieces of `[lo, hi)` that are missing. -/
def missingCount (had : ℤ → Bool) (lo hi : ℤ) : ℤ :=
  ((Int.range lo hi).countP (fun i => !had i) : ℕ)

/-- The scan asks for some of the pieces that it looks at. -/
theorem downloadLoop_asked (current first activeCount deadline : ℤ) (is : List ℤ) (t : WatchTask)
    (count newIndex : ℤ) :
    Asked t (downloadLoop current first activeCount deadline t is count newIndex).2 := by
  induction is generalizing t count newIndex with
  | nil => exact Asked.refl t
  | cons i is ih =>
    have hasked := t.request_asked i current first deadline
    simp only [downloadLoop]
    split_ifs
    · exact Asked.refl t
    · exact ih t count newIndex
    all_goals first | exact hasked | exact hasked.trans (ih _ _ _)

/-- The scan answers an index it has looked at. -/
theorem downloadLoop_fst (current first activeCount deadline : ℤ) (is : List ℤ) (t : WatchTask)
    (count newIndex : ℤ) :
    (downloadLoop current first activeCount deadline t is count newIndex).1 = newIndex ∨
    (downloadLoop current first activeCount deadline t is count newIndex).1 ∈ is := by
  induction is generalizing t count newIndex with
  | nil => exact Or.inl rfl
  | cons i is ih =>
    -- the new index is set at the first missing piece
    have hnew : (if newIndex = -1 then i else newIndex) = newIndex ∨
        (if newIndex = -1 then i else newIndex) ∈ i :: is := by
      split_ifs <;> simp
    rw [downloadLoop]
    by_cases hhad : t.service.havePiece i = true
    · rw [if_pos hhad]
      by_cases hstop : activeCount ≤ count
      · rw [if_pos hstop]
        exact Or.inl rfl
      · rw [if_neg hstop]
        exact (ih t count newIndex).imp_right (List.mem_cons_of_mem i)
    · rw [if_neg hhad]
      dsimp only
      by_cases hstop : activeCount ≤ count + 1
      · rw [if_pos hstop]
        exact hnew
      · rw [if_neg hstop]
        rcases ih (t.request i current first deadline) (count + 1)
          (if newIndex = -1 then i else newIndex) with h | h
        · rw [h]
          exact hnew
        · exact Or.inr (List.mem_cons_of_mem i h)

/-- A missing piece is marked if fewer than `activeCount` missing ones come before it. -/
theorem downloadLoop_marked (current first activeCount deadline : ℤ) {i : ℤ} (l r : List ℤ)
    (t : WatchTask) (count newIndex : ℤ) (hm : t.MarksOnly) (h₀ : 0 ≤ i)
    (h₁ : i < t.filePriorities.length) (hmiss : t.service.havePiece i = false)
    (hcount : count + (l.countP (fun j => !t.service.havePiece j) : ℕ) < activeCount) :
    (downloadLoop current first activeCount deadline t (l ++ i :: r) count newIndex).2.Marked i := by
  induction l generalizing t count newIndex with
  | nil =>
    -- piece `i` comes up, and there is room for it
    have hmarked := request_marked hm h₀ h₁ current first deadline
    simp only [List.nil_append, downloadLoop, hmiss, Bool.false_eq_true, if_false]
    by_cases hstop : activeCount ≤ count + 1
    · rw [if_pos hstop]
      exact hmarked
    · rw [if_neg hstop]
      exact (downloadLoop_asked _ _ _ _ _ _ _ _).marked hmarked
  | cons j l ih =>
    have hnat : (0 : ℤ) ≤ (l.countP (fun j => !t.service.havePiece j) : ℕ) := by omega
    by_cases hhad : t.service.havePiece j = true
    · rw [List.countP_cons_of_neg (by simp [hhad])] at hcount
      -- a piece that is had is not counted
      have hgo : ¬activeCount ≤ count := by omega
      simp only [List.cons_append, downloadLoop, hhad, hgo, if_true, if_false]
      exact ih t count newIndex hm h₁ hmiss hcount
    · rw [List.countP_cons_of_pos (by simp [hhad])] at hcount
      push_cast at hcount
      have hgo : ¬activeCount ≤ count + 1 := by omega
      simp only [List.cons_append, downloadLoop, hhad, hgo, if_false, Bool.false_eq_true]
      obtain ⟨ps, dl, hlen, heq⟩ := t.request_frame j current first deadline
      -- one that is missing is asked for and counted; the rest is scanned behind it
      have hasked := t.request_asked j current first deadline
      have hservice : (t.request j current first deadline).service.havePiece =
          t.service.havePiece := by
        rw [heq]
        rfl
      refine ih _ _ _ (hasked.marksOnly hm) ?_ ?_ ?_
      · rw [heq]
        show i < (ps.length : ℤ)
        omega
      · rw [hservice]
        exact hmiss
      · rw [hservice]
        omega

/-- The first `activePieceCount` missing pieces from the current one up to `last` are marked. -/
def MarkedAhead (t : WatchTask) (last : ℤ) : Prop :=
  ∀ i, t.currentPiece ≤ i → i ≤ last → t.service.havePiece i = false →
    missingCount t.service.havePiece t.currentPiece i < t.activePieceCount → t.Marked i

/-- What the scan from `start` on, whose answer becomes the current piece, does to the marks. -/
structure Scanned (t : WatchTask) (start last : ℤ) (t' : WatchTask) : Prop where
  asked : Asked t t'
  current : t'.currentPiece ≤ last
  ahead : max start 0 ≤ last → t'.MarkedAhead last
  behind : last < max start 0 → t'.currentPiece = last ∧ t'.service.deadline = t.service.deadline

/-- Where nothing is missing before `p`, the pieces missing from `lo` on are those from `p` on. -/
theorem missingCount_eq {had : ℤ → Bool} {lo p i : ℤ} (hlo : lo ≤ p) (hp : p ≤ i)
    (hhad : ∀ j, lo ≤ j → j < p → had j = true) :
    missingCount had lo i = missingCount had p i := by
  have hnone : (Int.range lo p).countP (fun j => !had j) = 0 := by
    rw [List.countP_eq_zero]
    intro j hj
    rw [Int.mem_range_iff] at hj
    simp [hhad j hj.1 hj.2]
  unfold missingCount
  rw [range_append hlo hp, List.countP_append, hnone, zero_add]

/-- It is a number of pieces. -/
theorem missingCount_nonneg (had : ℤ → Bool) (lo hi : ℤ) : 0 ≤ missingCount had lo hi := by
  unfold missingCount
  omega

/-- **The scan and the marks.** -/
theorem updateCurrentPiece_scanned (current first deadline : ℤ) (hm : t.MarksOnly)
    (hlast : last < t.filePriorities.length) :
    Scanned t current last (t.updateCurrentPiece current first last deadline) := by
  have hcur : (if current < 0 then 0 else current) = max current 0 := by
    split_ifs <;> omega
  obtain ⟨p, ⟨ps, dl, -, hframe⟩, hp⟩ := updateCurrentPiece_frame (t := t) first current deadline
    hlast
  have hhave : (t.updateCurrentPiece current first last deadline).service.havePiece =
      t.service.havePiece := by
    rw [hframe]
    rfl
  have hactive : (t.updateCurrentPiece current first last deadline).activePieceCount =
      t.activePieceCount := by
    rw [hframe]
    rfl
  have hpiece : (t.updateCurrentPiece current first last deadline).currentPiece = p := by
    rw [hframe]
    rfl
  have hup : t.updateCurrentPiece current first last deadline =
      { (downloadLoop (max current 0) first t.activePieceCount deadline t
          (Int.range (max current 0) (last + 1)) 0 (-1)).2 with
        currentPiece :=
          if (downloadLoop (max current 0) first t.activePieceCount deadline t
            (Int.range (max current 0) (last + 1)) 0 (-1)).1 ≠ -1
          then (downloadLoop (max current 0) first t.activePieceCount deadline t
            (Int.range (max current 0) (last + 1)) 0 (-1)).1 else last } := by
    simp only [updateCurrentPiece, updateDownload, hcur, if_neg (not_le.mpr hlast)]
  refine ⟨?_, ?_, ?_, ?_⟩
  · rw [hup]
    exact downloadLoop_asked _ _ _ _ _ _ _ _
  · rw [hup]
    show (if _ then _ else _) ≤ last
    rcases downloadLoop_fst (max current 0) first t.activePieceCount deadline
      (Int.range (max current 0) (last + 1)) t 0 (-1) with h | h
    · rw [h]
      simp
    · rw [Int.mem_range_iff] at h
      split_ifs <;> omega
  · intro hstart i hpi hil hmiss hcount
    rw [hhave] at hmiss hcount
    rw [hactive, hpiece] at hcount
    rw [hpiece] at hpi
    have hpos : 0 < t.activePieceCount := by
      have := missingCount_nonneg t.service.havePiece p i
      omega
    -- nothing is missing between the start of the scan and its answer
    have hpe := hp hpos
    have hbefore := (le_firstMissing_iff.mp (le_of_eq hpe)).2
    have hge : max current 0 ≤ p := by
      rw [hpe, le_firstMissing_iff]
      exact ⟨hstart, fun j hj hj' => absurd hj (by omega)⟩
    rw [← missingCount_eq hge hpi hbefore] at hcount
    rw [hup]
    show Marked (downloadLoop _ _ _ _ _ (Int.range (max current 0) (last + 1)) 0 (-1)).2 i
    rw [range_append (show max current 0 ≤ i by omega) (show i ≤ last + 1 by omega),
      range_eq_cons (show i < last + 1 by omega)]
    refine downloadLoop_marked _ _ _ _ _ _ t 0 (-1) hm (by omega) (by omega) hmiss ?_
    rw [zero_add]
    exact hcount
  · intro hstart
    rw [hup, range_eq_nil (show last + 1 ≤ max current 0 by omega)]
    exact ⟨rfl, rfl⟩

/-! ### Marks after an iteration and after a seek -/

/-- **An iteration** marks the missing pieces ahead of the current one. -/
theorem iterate_marks (hm : t.MarksOnly) (hlast : last < t.filePriorities.length)
    (hfirst : 0 ≤ first) (hle : first ≤ last) (hcur : t.currentPiece ≤ last) (hloop : t.InLoop)
    (hs : t.state ≠ .finished) :
    Asked t (t.iterate first last) ∧ (t.iterate first last).currentPiece ≤ last ∧
      (t.iterate first last).MarkedAhead last := by
  unfold iterate
  rcases hloop with hst | hst | hst | hst
  · obtain ⟨⟨ps, dl, hlen, heq⟩, -⟩ := updateDownload_spec (t := t) (last - t.prepareCount + 1)
      first t.activePieceCount 4 hlast
    have hasked : Asked t (t.updateDownload (last - t.prepareCount + 1) first last
        t.activePieceCount 4).2 := (updateCurrentPiece_scanned _ first 4 hm hlast).asked
    have hlast' : last < ((t.updateDownload (last - t.prepareCount + 1) first last
        t.activePieceCount 4).2.filePriorities.length : ℤ) := by
      rw [heq]
      show last < (ps.length : ℤ)
      omega
    -- the scan from the end comes first, the one from the beginning counts
    have hscan := updateCurrentPiece_scanned first first 0 (hasked.marksOnly hm) hlast'
    simp only [hst, prepare]
    generalize (t.updateDownload (last - t.prepareCount + 1) first last t.activePieceCount 4).2 = u
      at hasked hscan
    generalize u.updateCurrentPiece first first last 0 = v at hscan
    have hahead := hscan.ahead (by omega)
    split_ifs <;> exact ⟨hasked.trans hscan.asked, hscan.current, hahead⟩
  · have hscan := updateCurrentPiece_scanned t.currentPiece first 0 hm hlast
    simp only [hst, sequential]
    -- the messages sent behind the scan change no mark
    generalize t.updateCurrentPiece t.currentPiece first last 0 = v at hscan
    have hahead := hscan.ahead (by omega)
    split_ifs <;> exact ⟨hscan.asked, hscan.current, hahead⟩
  · have hscan := updateCurrentPiece_scanned t.currentPiece first 4 hm hlast
    simp only [hst, buffer]
    generalize t.updateCurrentPiece t.currentPiece first last 4 = v at hscan
    have hahead := hscan.ahead (by omega)
    split_ifs <;> exact ⟨hscan.asked, hscan.current, hahead⟩
  · exact absurd hst hs

/-- The iteration that finishes leaves the current piece at the last one. -/
theorem iterate_finished (hlast : last < t.filePriorities.length) (hactive : 0 < t.activePieceCount)
    (hloop : t.InLoop) (hs : t.state ≠ .finished)
    (hfin : (t.iterate first last).state = .finished) :
    last ≤ (t.iterate first last).currentPiece := by
  unfold iterate at hfin ⊢
  rcases hloop with hst | hst | hst | hst
  · obtain ⟨p, ps, dl, -, heq⟩ := prepare_spec (t := t) first hlast
    simp only [hst, heq] at hfin
    by_cases hcount : t.prepareCount * 2 ≤ t.preparedPieces first last <;>
      -- preparing does not finish
      simp [withMarks, hcount] at hfin
  · obtain ⟨ps, dl, -, heq⟩ := sequential_spec (t := t) first hlast hactive
    simp only [hst, heq] at hfin ⊢
    by_cases hend : last ≤ firstMissing t.service.havePiece t.currentPiece last
    · exact hend
    · simp [withMarks, hend] at hfin
  · obtain ⟨ps, dl, -, heq⟩ := buffer_spec (t := t) first hlast hactive
    simp only [hst, heq] at hfin
    -- nor does buffering
    by_cases hend : t.seekEndPiece ≤ firstMissing t.service.havePiece t.currentPiece last <;>
      simp [withMarks, hend] at hfin
  · exact absurd hst hs

/-- What a loop over `is` that clears priorities does to each of them. -/
theorem get?_foldl_clear (is ps : List ℤ) (i : ℤ) :
    get? (is.foldl (fun (ps : List ℤ) (j : ℤ) =>
      if 0 < j ∧ j < ps.length then ps.set j.toNat TorrentPriority.NOT_DOWNLOADED else ps) ps) i
      = if i ∈ is ∧ 0 < i ∧ i < ps.length then some TorrentPriority.NOT_DOWNLOADED
        else get? ps i := by
  induction is generalizing ps with
  | nil => simp
  | cons j is ih =>
    rw [List.foldl_cons, ih]
    by_cases hj : 0 < j ∧ j < ps.length
    · rw [if_pos hj, List.length_set, get?_set (le_of_lt hj.1) hj.2]
      -- the entry `i` is cleared now, or as before by one of the others
      by_cases hij : i = j
      · subst hij
        simp [hj]
      · simp [hij]
    · rw [if_neg hj]
      by_cases hij : i = j
      · subst hij
        simp [hj]
      · simp [hij]

/-- The marks a seek leaves: those of pieces outside the file, and that of piece `0`. -/
theorem marked_clearForSeek {i : ℤ} :
    (t.clearForSeek first last).Marked i ↔ t.Marked i ∧ ¬(first ≤ i ∧ i ≤ last ∧ 0 < i) := by
  unfold Marked
  show get? (clearPiecePriorities t.filePriorities first last) i = _ ↔ _
  rw [clearPiecePriorities, get?_foldl_clear]
  constructor
  · intro h
    split_ifs at h with hcond
    · exact absurd h (by decide)
    · refine ⟨h, fun hin => hcond ⟨Int.mem_range_iff.mpr ⟨hin.1, by omega⟩, hin.2.2, ?_⟩⟩
      exact (mem_range_of_get?_eq_some h).2
  · rintro ⟨h, hout⟩
    rw [if_neg]
    · exact h
    · rintro ⟨hin, hpos, -⟩
      rw [Int.mem_range_iff] at hin
      exact hout ⟨hin.1, by omega, hpos⟩

/-- What a seek clears is a priority of the task's, too. -/
theorem marksOnly_clearForSeek (h : t.MarksOnly) : (t.clearForSeek first last).MarksOnly := by
  intro i p hp
  change get? (clearPiecePriorities t.filePriorities first last) i = _ at hp
  rw [clearPiecePriorities, get?_foldl_clear] at hp
  split_ifs at hp
  · rw [Option.some.injEq] at hp
    exact Or.inl hp.symm
  · exact h i p hp

/-- Where the scan of a seek starts. -/
def seekStart (t : WatchTask) (delta : ℚ) : ℤ :=
  (t.aimSeek delta).seekHit?.getD (t.seekPiece delta)

@[simp] theorem length_clearForSeek :
    (t.clearForSeek first last).filePriorities.length = t.filePriorities.length :=
  length_clearPiecePriorities t.filePriorities first last

/-- Clearing does not change what a seek finds. -/
theorem seekHit?_clearForSeek : (t.clearForSeek first last).seekHit? = t.seekHit? := by
  unfold seekHit?
  show (Int.range t.seekBeginPiece (t.seekEndPiece + 1)).find? (fun (i : ℤ) =>
    decide (0 < i ∧ i < (clearPiecePriorities t.filePriorities first last).length) &&
      !t.service.havePiece i) = _
  rw [length_clearPiecePriorities]

/-- A scan of `seek`, with the progress sent behind it. -/
theorem Scanned.of_seek {t' : WatchTask} {start : ℤ} {state : WatchState} (delta : ℚ)
    (h : Scanned { (t.aimSeek delta).clearForSeek first last with state := state } start last t')
    (total value : ℤ) :
    Scanned (t.clearForSeek first last) start last (t'.updateProgress t'.state total value) :=
  ⟨h.asked, h.current, h.ahead, h.behind⟩

/-- **A seek** clears, and then scans from `seekStart` on. -/
theorem seek_marks (hm : t.MarksOnly) (hlast : last < t.filePriorities.length) (delta : ℚ)
    (hs : t.state ≠ .finished) (hb : t.fileBoundary = some (first, last)) :
    Scanned (t.clearForSeek first last) (t.seekStart delta) last (t.seek delta).1 := by
  have hlast' : last < ((t.clearForSeek first last).filePriorities.length : ℤ) := by
    rwa [length_clearForSeek]
  have hm' : ((t.aimSeek delta).clearForSeek first last).MarksOnly := marksOnly_clearForSeek hm
  unfold seek seekStart
  rw [if_neg hs]
  simp only [hb, seekWindow, seekHit?_clearForSeek]
  cases hhit : (t.aimSeek delta).seekHit? with
  | some i =>
    -- a piece of the window is missing: the scan begins there
    have hscan := updateCurrentPiece_scanned
      (t := { (t.aimSeek delta).clearForSeek first last with state := .buffering }) i first 4
      hm' hlast'
    exact hscan.of_seek delta _ _
  | none =>
    have hscan := updateCurrentPiece_scanned
      (t := { (t.aimSeek delta).clearForSeek first last with state := .sequentialDownload })
      -- from the piece of the seek itself
      (t.seekPiece delta) first 0 hm' hlast'
    exact hscan.of_seek delta _ _

/-! ### The deadlines set since they were last cleared -/

/-- The event calls `clearPieceDeadlines`: a seek that is not turned away, or the end of the thread
    by an exception. -/
def clearsDeadlines (E : WatchedFile) (t : WatchTask) : WatchEvent → Bool
  | .seek _ => decide (t.state ≠ .finished) && t.fileBoundary.isSome
  | .advance => (t.advance E.piecePriorities).any (fun t' => decide (t'.point = .ended))
  | .iterate | .pieceFinished _ => false

end WatchTask

/-- A watch, and for each piece whether a deadline has been set since the last
    `clearPieceDeadlines`. -/
structure RecordedWatch where
  task : WatchTask
  deadlineSet : ℤ → Bool

namespace RecordedWatch

/-- The code runs, and the record follows it. -/
def next (E : WatchedFile) (r : RecordedWatch) (e : WatchEvent) : Option RecordedWatch :=
  (r.task.next E e).map (fun t' =>
    { task := t'
      deadlineSet := fun i =>
        (!r.task.clearsDeadlines E e && r.deadlineSet i) || (t'.service.deadline i).isSome })

/-- The machine of all runs for a file. -/
def machine (E : WatchedFile) : Machine RecordedWatch WatchEvent :=
  Machine.ofFun
    (fun r => ∃ service, r = ⟨.new service, fun i => (service.deadline i).isSome⟩) (next E)

variable {E : WatchedFile} {r r' : RecordedWatch} {e : WatchEvent}

/-- A step is one of the task, and the record follows. -/
theorem step_iff : (machine E).step r e r' ↔
    r.task.next E e = some r'.task ∧ r'.deadlineSet = fun i =>
      (!r.task.clearsDeadlines E e && r.deadlineSet i) || (r'.task.service.deadline i).isSome := by
  show next E r e = some r' ↔ _
  unfold next
  rw [Option.map_eq_some_iff]
  constructor
  · rintro ⟨t', ht, rfl⟩
    exact ⟨ht, rfl⟩
  · rintro ⟨ht, hset⟩
    refine ⟨r'.task, ht, ?_⟩
    rw [← hset]

/-- A mark says that a deadline has been set. -/
def MarksRight (r : RecordedWatch) : Prop :=
  ∀ i, r.task.Marked i → r.deadlineSet i = true

/-- The first `activePieceCount` missing pieces from the current one to the last one of the file
    have a deadline. -/
def AheadRight (E : WatchedFile) (r : RecordedWatch) : Prop :=
  ∀ i, r.task.currentPiece ≤ i → i ≤ E.lastPiece → r.task.service.havePiece i = false →
    WatchTask.missingCount r.task.service.havePiece r.task.currentPiece i < r.task.activePieceCount →
    (r.task.service.deadline i).isSome = true

/-- What the invariant of a run says about marks and deadlines. -/
structure MarksInv (E : WatchedFile) (r : RecordedWatch) : Prop where
  marksOnly : r.task.MarksOnly
  /-- A deadline stays until its piece has arrived. -/
  kept : ∀ i, r.deadlineSet i = true → r.task.service.havePiece i = false →
    (r.task.service.deadline i).isSome = true
  current : r.task.currentPiece ≤ E.lastPiece
  unknown : r.task.fileBoundary = none → r.task.activePieceCount = 0
  finished : r.task.state = .finished → E.lastPiece ≤ r.task.currentPiece ∧
    (r.task.service.havePiece E.lastPiece = false → r.task.Marked E.lastPiece)

/-- The condition of an event.  A seek that is not turned away finds no marks but those of the
    file's own pieces other than piece `0`, and if it looks behind the file the last piece is had;
    an exception of the thread finds no marks at all. -/
def DeadlineGuard (E : WatchedFile) (r : RecordedWatch) (e : WatchEvent) : Prop :=
  r.task.clearsDeadlines E e = true →
    match e with
    | .seek delta =>
      (∀ i, r.task.Marked i → E.firstPiece ≤ i ∧ i ≤ E.lastPiece ∧ 0 < i) ∧
      (0 < r.task.activePieceCount → E.lastPiece < r.task.seekStart delta →
        r.task.service.havePiece E.lastPiece = true)
    | _ => ∀ i, ¬r.task.Marked i

/-- The deadlines are right after an event: the marks are, and after an iteration or a seek the
    pieces ahead have their deadlines. -/
def DeadlinesRight (E : WatchedFile) (e : WatchEvent) (r' : RecordedWatch) : Prop :=
  r'.MarksRight ∧ (e = .iterate ∨ (∃ delta, e = .seek delta) → r'.AheadRight E)

/-! ### What one event does -/

/-- Marks ahead that are right are deadlines ahead. -/
theorem MarksInv.aheadRight (h : MarksInv E r) (hright : r.MarksRight)
    (hahead : r.task.MarkedAhead E.lastPiece) : r.AheadRight E :=
  fun i hc hl hmiss hcount => h.kept i (hright i (hahead i hc hl hmiss hcount)) hmiss

/-- Where the download is finished nothing but the last piece lies ahead. -/
theorem MarksInv.markedAhead (h : MarksInv E r) (hs : r.task.state = .finished) :
    r.task.MarkedAhead E.lastPiece := by
  obtain ⟨hle, hmarked⟩ := h.finished hs
  intro i hc hl hmiss _
  obtain rfl : i = E.lastPiece := by omega
  exact hmarked hmiss

/-- An event that does not clear and only asks for pieces keeps marks right. -/
theorem marksRight_of_asked (hclear : r.task.clearsDeadlines E e = false)
    (hset : r'.deadlineSet = fun i =>
      (!r.task.clearsDeadlines E e && r.deadlineSet i) || (r'.task.service.deadline i).isSome)
    (hasked : WatchTask.Asked r.task r'.task) (hright : r.MarksRight) : r'.MarksRight := by
  intro i hm
  rw [hset]
  simp only [hclear, Bool.not_false, Bool.true_and, Bool.or_eq_true]
  rcases hasked i with ⟨hp, -⟩ | ⟨-, -, hd⟩
  · exact Or.inl (hright i (hp.symm.trans hm))
  · exact Or.inr hd

/-- Such an event also keeps every deadline of a missing piece. -/
theorem kept_of_asked (h : MarksInv E r)
    (hset : r'.deadlineSet = fun i =>
      (!r.task.clearsDeadlines E e && r.deadlineSet i) || (r'.task.service.deadline i).isSome)
    (hasked : r.task.clearsDeadlines E e = false → WatchTask.Asked r.task r'.task)
    (hhave : r'.task.service.havePiece = r.task.service.havePiece) (i : ℤ)
    (hi : r'.deadlineSet i = true) (hmiss : r'.task.service.havePiece i = false) :
    (r'.task.service.deadline i).isSome = true := by
  rw [hset] at hi
  simp only [Bool.or_eq_true, Bool.and_eq_true, Bool.not_eq_true'] at hi
  rcases hi with ⟨hclear, hi⟩ | hi
  · exact (hasked hclear).deadline (h.kept i hi (hhave ▸ hmiss))
  · exact hi

/-- What a step does: the invariant, and when the deadlines are right after it. -/
structure StepRight (E : WatchedFile) (r : RecordedWatch) (e : WatchEvent) (r' : RecordedWatch) :
    Prop where
  inv : MarksInv E r'
  right_iff : r.MarksRight → (DeadlinesRight E e r' ↔ DeadlineGuard E r e)

/-- A piece arrives. -/
theorem stepRight_pieceFinished (h : MarksInv E r) {piece : ℤ}
    (hstep : (machine E).step r (.pieceFinished piece) r') :
    StepRight E r (.pieceFinished piece) r' := by
  obtain ⟨ht, hset⟩ := step_iff.mp hstep
  obtain ⟨t', set'⟩ := r'
  simp only [WatchTask.next, Option.some.injEq] at ht
  subst ht
  simp only [WatchTask.clearsDeadlines, Bool.not_false, Bool.true_and] at hset
  -- a piece that is missing was missing, and is not the one that has come
  have hhad : ∀ i, (r.task.service.finishPiece piece).havePiece i = false →
      i ≠ piece ∧ r.task.service.havePiece i = false := by
    intro i hmiss
    by_cases hi : i = piece
    · simp [WatchService.finishPiece, hi] at hmiss
    · exact ⟨hi, by simpa [WatchService.finishPiece, hi] using hmiss⟩
  refine ⟨⟨h.marksOnly, ?_, h.current, h.unknown, ?_⟩, fun hright => ?_⟩
  · intro i hi hmiss
    obtain ⟨hne, hmiss'⟩ := hhad i hmiss
    simp only [hset, Bool.or_eq_true] at hi
    rcases hi with hi | hi
    · have hd := h.kept i hi hmiss'
      simpa [WatchService.finishPiece, hne] using hd
    · exact hi
  · intro hs
    exact ⟨(h.finished hs).1, fun hmiss => (h.finished hs).2 (hhad _ hmiss).2⟩
  · -- libtorrent drops the deadline of the piece, but it had been set
    refine iff_of_true ⟨fun i hm => ?_, by simp⟩ (by simp [DeadlineGuard, WatchTask.clearsDeadlines])
    simp only [hset, hright i hm, Bool.true_or]

/-- An iteration. -/
theorem stepRight_iterate (hinv : WatchTask.Inv E r.task) (hloop : r.task.point = .loop → r.task.InLoop)
    (h : MarksInv E r) (hstep : (machine E).step r .iterate r') : StepRight E r .iterate r' := by
  obtain ⟨ht, hset⟩ := step_iff.mp hstep
  have hfacts := WatchTask.stepFacts hinv ht
  simp only [WatchTask.next] at ht
  split_ifs at ht with hcond
  obtain ⟨hp, hs⟩ := hcond
  obtain ⟨hb, hlast, hactive⟩ := hinv.loop hp
  rw [hb, Option.map_some, Option.some.injEq] at ht
  -- the loop leaves at the last piece only
  have hfin : r'.task.state = .finished → E.lastPiece ≤ r'.task.currentPiece :=
    fun hf => ht ▸ WatchTask.iterate_finished hlast hactive (hloop hp) hs (ht ▸ hf)
  obtain ⟨hasked, hcur, hahead⟩ := WatchTask.iterate_marks h.marksOnly hlast E.firstPiece_nonneg
    E.firstPiece_le_lastPiece h.current (hloop hp) hs
  have hsetup := WatchTask.iterate_sameSetup hlast hactive E.firstPiece
  simp only [ht] at hasked hcur hahead hsetup
  have hinv' : MarksInv E r' :=
    { marksOnly := hasked.marksOnly h.marksOnly
      kept := kept_of_asked h hset (fun _ => hasked) hfacts.havePiece
      current := hcur
      unknown := fun hnone => absurd (hsetup.2.1.symm.trans hnone) (by rw [hb]; simp)
      finished := by
        intro hf
        refine ⟨hfin hf, fun hmiss => hahead _ hcur (le_refl _) hmiss ?_⟩
        have hle := hfin hf
        rw [hsetup.2.2.2.2, WatchTask.missingCount, range_eq_nil hle]
        exact hactive }
  refine ⟨hinv', fun hright => ?_⟩
  -- an iteration asks for pieces and clears nothing
  have hright' := marksRight_of_asked rfl hset hasked hright
  exact iff_of_true ⟨hright', fun _ => hinv'.aheadRight hright' hahead⟩
    (by simp [DeadlineGuard, WatchTask.clearsDeadlines])

/-- A seek that is turned away changes no marks and no deadlines. -/
theorem stepRight_seek_turned (hinv : WatchTask.Inv E r.task) (h : MarksInv E r) {delta : ℚ}
    (hno : r.task.state = .finished ∨ r.task.fileBoundary = none)
    (hstep : (machine E).step r (.seek delta) r') : StepRight E r (.seek delta) r' := by
  obtain ⟨ht, hset⟩ := step_iff.mp hstep
  have hclear : r.task.clearsDeadlines E (.seek delta) = false := by
    rcases hno with hs | hb
    · simp [WatchTask.clearsDeadlines, hs]
    · simp [WatchTask.clearsDeadlines, hb]
  simp only [WatchTask.next] at ht
  split_ifs at ht
  rw [Option.some.injEq] at ht
  -- nothing that the marks depend on is written
  have hsame : r'.task.filePriorities = r.task.filePriorities ∧ r'.task.service = r.task.service ∧
      r'.task.currentPiece = r.task.currentPiece ∧ r'.task.state = r.task.state := by
    rw [← ht]
    unfold WatchTask.seek
    by_cases hs : r.task.state = .finished
    · rw [if_pos hs]
      exact ⟨rfl, rfl, rfl, rfl⟩
    · rw [if_neg hs, hno.resolve_left hs]
      exact ⟨rfl, rfl, rfl, rfl⟩
  obtain ⟨hps, hservice, hcur, hstate⟩ := hsame
  have hsetup : WatchTask.SameSetup r.task r'.task := ht ▸ (hinv.seekStep delta).spec.1
  have hasked : WatchTask.Asked r.task r'.task := fun i => Or.inl ⟨by rw [hps], by rw [hservice]⟩
  have hinv' : MarksInv E r' :=
    { marksOnly := hasked.marksOnly h.marksOnly
      kept := kept_of_asked h hset (fun _ => hasked) (by rw [hservice])
      current := hcur ▸ h.current
      unknown := fun hnone => hsetup.2.2.2.2.trans (h.unknown (hsetup.2.1.symm.trans hnone))
      finished := by
        intro hs
        show _ ≤ r'.task.currentPiece ∧ (r'.task.service.havePiece _ = _ → r'.task.Marked _)
        rw [hcur, hservice, WatchTask.Marked, hps]
        exact h.finished (hstate.symm.trans hs) }
  refine ⟨hinv', fun hright => ?_⟩
  have hright' := marksRight_of_asked hclear hset hasked hright
  refine iff_of_true ⟨hright', fun _ => ?_⟩ (by simp [DeadlineGuard, hclear])
  rcases hno with hs | hb
  · exact hinv'.aheadRight hright' (hinv'.markedAhead (hstate.trans hs))
  · -- without a boundary no piece counts as active yet
    intro i _ _ _ hcount
    have hzero : r'.task.activePieceCount = 0 := hsetup.2.2.2.2.trans (h.unknown hb)
    exact absurd hcount (not_lt.mpr (hzero.le.trans (WatchTask.missingCount_nonneg _ _ _)))

/-- The marks after a seek are right exactly when it has found none but those it clears. -/
theorem marksRight_iff_of_scanned {start : ℤ}
    (hscan : WatchTask.Scanned (r.task.clearForSeek E.firstPiece E.lastPiece) start E.lastPiece
      r'.task) (hset : ∀ i, r'.deadlineSet i = (r'.task.service.deadline i).isSome) :
    r'.MarksRight ↔ ∀ i, r.task.Marked i → E.firstPiece ≤ i ∧ i ≤ E.lastPiece ∧ 0 < i := by
  constructor
  · intro hmarks i hm
    by_contra hout
    -- a mark that is left has lost its deadline
    have hm' := WatchTask.marked_clearForSeek.mpr ⟨hm, hout⟩
    have hd := (hset i).symm.trans (hmarks i (hscan.asked.marked hm'))
    rcases hscan.asked i with ⟨-, hnone⟩ | ⟨hzero, -⟩
    · rw [hnone] at hd
      exact absurd hd (by simp [WatchTask.clearForSeek, WatchService.clearPieceDeadlines])
    · rw [hm'] at hzero
      exact absurd hzero (by decide)
  · intro hin i hm
    rw [hset]
    rcases hscan.asked i with ⟨heq, -⟩ | ⟨-, -, hd⟩
    · have hm' := WatchTask.marked_clearForSeek.mp (heq.symm.trans hm)
      exact absurd (hin i hm'.1) hm'.2
    · exact hd

/-- With right marks, the pieces ahead have their deadlines after a seek unless it has looked behind
    the file with the last piece missing. -/
theorem aheadRight_iff_of_scanned {start : ℤ} (h' : MarksInv E r') (hmarks : r'.MarksRight)
    (hscan : WatchTask.Scanned (r.task.clearForSeek E.firstPiece E.lastPiece) start E.lastPiece
      r'.task) :
    r'.AheadRight E ↔ (0 < r'.task.activePieceCount → E.lastPiece < start →
      r'.task.service.havePiece E.lastPiece = true) := by
  have hlast := E.firstPiece_nonneg.trans E.firstPiece_le_lastPiece
  constructor
  · intro hahead hactive hbehind
    by_contra hmiss
    rw [Bool.not_eq_true] at hmiss
    -- behind the last piece the scan stays there and asks for nothing
    obtain ⟨hcur, hnone⟩ := hscan.behind (by omega)
    have hcount : WatchTask.missingCount r'.task.service.havePiece r'.task.currentPiece
        E.lastPiece < r'.task.activePieceCount := by
      rw [hcur, WatchTask.missingCount, range_eq_nil (le_refl _)]
      exact hactive
    have hd := hahead E.lastPiece (le_of_eq hcur) (le_refl _) hmiss hcount
    rw [hnone] at hd
    exact absurd hd (by simp [WatchTask.clearForSeek, WatchService.clearPieceDeadlines])
  · intro hbehind
    by_cases hstart : max start 0 ≤ E.lastPiece
    · exact h'.aheadRight hmarks (hscan.ahead hstart)
    · -- the last piece alone is ahead
      intro i hc hl hmiss hcount
      have hcur := (hscan.behind (by omega)).1
      obtain rfl : i = E.lastPiece := by omega
      have hactive := (WatchTask.missingCount_nonneg _ _ _).trans_lt hcount
      rw [hbehind hactive (by omega)] at hmiss
      exact absurd hmiss (by simp)

/-- A seek that is not turned away. -/
theorem stepRight_seek (hinv : WatchTask.Inv E r.task) (h : MarksInv E r) {delta : ℚ}
    (hs : r.task.state ≠ .finished) (hb : r.task.fileBoundary ≠ none)
    (hstep : (machine E).step r (.seek delta) r') : StepRight E r (.seek delta) r' := by
  obtain ⟨ht, hset⟩ := step_iff.mp hstep
  have hhave : r'.task.service.havePiece = r.task.service.havePiece :=
    (WatchTask.stepFacts hinv ht).havePiece
  obtain ⟨hbound, hlen⟩ := hinv.boundary.resolve_left hb
  have hclear : r.task.clearsDeadlines E (.seek delta) = true := by
    simp [WatchTask.clearsDeadlines, hs, hbound]
  have hlast : E.lastPiece < (r.task.filePriorities.length : ℤ) := by
    rw [hlen]
    exact E.lastPiece_lt
  have hscan := WatchTask.seek_marks h.marksOnly hlast delta hs hbound
  obtain ⟨hsetup, hstate⟩ := (hinv.seekStep delta).spec
  simp only [WatchTask.next] at ht
  split_ifs at ht
  rw [Option.some.injEq] at ht
  rw [ht] at hscan hsetup hstate
  -- the deadlines set since the clear are those there are now
  have hset' : ∀ i, r'.deadlineSet i = (r'.task.service.deadline i).isSome := by
    intro i
    rw [hset]
    simp [hclear]
  -- a seek does not finish
  have hstate' : r'.task.state ≠ .finished := by
    rcases hstate with ⟨hst, -⟩ | ⟨-, -, hst | hst⟩
    · exact fun hf => hs (hst.symm.trans hf)
    all_goals simp [hst]
  have hinv' : MarksInv E r' :=
    { marksOnly := hscan.asked.marksOnly (WatchTask.marksOnly_clearForSeek h.marksOnly)
      kept := fun i hi _ => (hset' i).symm.trans hi
      current := hscan.current
      unknown := fun hnone => absurd (hsetup.2.1.symm.trans hnone) hb
      finished := fun hf => absurd hf hstate' }
  refine ⟨hinv', fun _ => ?_⟩
  show r'.MarksRight ∧ _ ↔ (_ → (∀ i, r.task.Marked i → _) ∧ (0 < r.task.activePieceCount → _))
  rw [← marksRight_iff_of_scanned hscan hset', ← hsetup.2.2.2.2, ← hhave]
  constructor
  · rintro ⟨hmarks, hahead⟩ -
    exact ⟨hmarks, (aheadRight_iff_of_scanned hinv' hmarks hscan).mp (hahead (Or.inr ⟨delta, rfl⟩))⟩
  · intro hguard
    obtain ⟨hmarks, hbehind⟩ := hguard hclear
    exact ⟨hmarks, fun _ => (aheadRight_iff_of_scanned hinv' hmarks hscan).mpr hbehind⟩

/-- What a statement before the loop does to the marks. -/
structure AdvanceMarks (t t' : WatchTask) : Prop where
  current : t'.currentPiece = t.currentPiece
  notFinished : t'.state ≠ .finished
  unknown : t'.fileBoundary = none → t.fileBoundary = none ∧ t'.activePieceCount = t.activePieceCount
  /-- The thread ends with its deadlines cleared, or it goes on with the marks it had, or none. -/
  marks : (t'.point = .ended ∧ t'.service = t.service.clearPieceDeadlines ∧
      t'.filePriorities = t.filePriorities) ∨
    (t'.point ≠ .ended ∧ t'.service = t.service ∧ (t'.filePriorities = t.filePriorities ∨
      ∀ i p, get? t'.filePriorities i = some p → p = TorrentPriority.NOT_DOWNLOADED))

/-- **A statement before the loop** marks no piece. -/
theorem advanceMarks {t t' : WatchTask} (hinv : WatchTask.Inv E t)
    (hstep : t.advance E.piecePriorities = some t') : AdvanceMarks t t' := by
  have hfinished : t.point ≠ .loop → t.state ≠ .finished := fun hp hs => hp (hinv.finished_loop hs)
  cases WatchTask.advanceStep hinv hstep with
  | started hp | loadMetadata hp =>
    exact ⟨rfl, by simp, fun hb => ⟨hb, rfl⟩, Or.inr ⟨by simp, rfl, Or.inl rfl⟩⟩
  | checkFile hp =>
    -- the priorities are read anew, all `NOT_DOWNLOADED`
    refine ⟨rfl, hfinished (by simp [hp]), by simp, Or.inr ⟨by simp, rfl, Or.inr ?_⟩⟩
    intro i q hq
    dsimp only at hq
    rw [get?_replicate] at hq
    split_ifs at hq
    rw [Option.some.injEq] at hq
    exact hq.symm
  | boundaryKnown hp hb =>
    exact ⟨rfl, hfinished (by simp [hp]), fun hnone => absurd hnone hb,
      Or.inr ⟨by simp, rfl, Or.inl rfl⟩⟩
  | failed hp hb =>
    exact ⟨rfl, hfinished (by simp [hp]), fun hnone => absurd hnone hb, Or.inl ⟨rfl, rfl, rfl⟩⟩
  | counted prepareCount hp hb =>
    exact ⟨rfl, hfinished (by simp [hp]), fun hnone => absurd hnone hb,
      Or.inr ⟨by simp, rfl, Or.inl rfl⟩⟩
  | activated hp hb | loadSubtitles hp hb =>
    exact ⟨rfl, by simp, fun hnone => absurd hnone hb, Or.inr ⟨by simp, rfl, Or.inl rfl⟩⟩

/-- A statement before the loop. -/
theorem stepRight_advance (hinv : WatchTask.Inv E r.task) (h : MarksInv E r)
    (hstep : (machine E).step r .advance r') : StepRight E r .advance r' := by
  obtain ⟨ht, hset⟩ := step_iff.mp hstep
  have ht' : r.task.advance E.piecePriorities = some r'.task := ht
  have hfacts := advanceMarks hinv ht'
  have hhave : r'.task.service.havePiece = r.task.service.havePiece :=
    (WatchTask.stepFacts hinv ht).havePiece
  have hcurrent : r'.task.currentPiece ≤ E.lastPiece := hfacts.current ▸ h.current
  have hunknown : r'.task.fileBoundary = none → r'.task.activePieceCount = 0 := fun hnone =>
    (hfacts.unknown hnone).2.trans (h.unknown (hfacts.unknown hnone).1)
  rcases hfacts.marks with ⟨hend, hservice, hps⟩ | ⟨hgo, hservice, hps⟩
  · -- the exception clears the deadlines and leaves the marks
    have hclear : r.task.clearsDeadlines E .advance = true := by
      simp [WatchTask.clearsDeadlines, ht', hend]
    have hnone : ∀ i, r'.deadlineSet i = false := by
      intro i
      rw [hset, hservice]
      simp [hclear, WatchService.clearPieceDeadlines]
    refine ⟨⟨?_, fun i hi => ?_, hcurrent, hunknown, fun hs => absurd hs hfacts.notFinished⟩,
      fun _ => ?_⟩
    · unfold WatchTask.MarksOnly
      rw [hps]
      exact h.marksOnly
    · rw [hnone i] at hi
      exact absurd hi (by simp)
    · simp only [DeadlinesRight, MarksRight, DeadlineGuard, hclear, hnone, WatchTask.Marked, hps]
      simp
  · have hclear : r.task.clearsDeadlines E .advance = false := by
      simp [WatchTask.clearsDeadlines, ht', hgo]
    -- the other statements clear no deadline
    have hset' : ∀ i, r'.deadlineSet i = (r.deadlineSet i || (r.task.service.deadline i).isSome) := by
      intro i
      rw [hset, hservice]
      simp [hclear]
    refine ⟨⟨?_, fun i hi hmiss => ?_, hcurrent, hunknown, fun hs => absurd hs hfacts.notFinished⟩,
      fun hright => iff_of_true ⟨fun i hm => ?_, by simp⟩ (by simp [DeadlineGuard, hclear])⟩
    · rcases hps with hps | hps
      · unfold WatchTask.MarksOnly
        rw [hps]
        exact h.marksOnly
      · exact fun i p hp => Or.inl (hps i p hp)
    · rw [hset', Bool.or_eq_true] at hi
      rw [hservice] at hmiss ⊢
      exact hi.elim (fun hi => h.kept i hi hmiss) id
    · rcases hps with hps | hps
      · unfold WatchTask.Marked at hm
        rw [hps] at hm
        rw [hset', hright i hm, Bool.true_or]
      · exact absurd (hps i _ hm) (by decide)

/-- **A step of a run.** -/
theorem stepRight (hinv : WatchTask.Inv E r.task)
    (hloop : r.task.point = .loop → r.task.InLoop) (h : MarksInv E r)
    (hstep : (machine E).step r e r') : StepRight E r e r' := by
  cases e with
  | pieceFinished piece => exact stepRight_pieceFinished h hstep
  | advance => exact stepRight_advance hinv h hstep
  | iterate => exact stepRight_iterate hinv hloop h hstep
  | seek delta =>
    by_cases hs : r.task.state = .finished
    · exact stepRight_seek_turned hinv h (Or.inl hs) hstep
    · by_cases hb : r.task.fileBoundary = none
      · exact stepRight_seek_turned hinv h (Or.inr hb) hstep
      · exact stepRight_seek hinv h hs hb hstep

/-! ### Runs -/

/-- The task of a recorded run runs. -/
theorem reachable_task (h : (machine E).Reachable r) : (WatchTask.machine E).Reachable r.task := by
  refine Machine.Reachable.invariant (I := fun r => (WatchTask.machine E).Reachable r.task) ?_ ?_ h
  · rintro s ⟨service, rfl⟩
    exact Machine.Reachable.start ⟨service, rfl⟩
  · intro s e s' hreach hstep
    exact hreach.next (e := e) (step_iff.mp hstep).1

/-- **Every run** keeps the invariant. -/
theorem marksInv_of_reachable (h : (machine E).Reachable r) : MarksInv E r := by
  refine h.invariant_reachable ?_ ?_
  · rintro s ⟨service, rfl⟩
    refine ⟨?_, fun i hi _ => hi, ?_, fun _ => rfl, ?_⟩
    · intro i p hp
      exact absurd hp (by simp [WatchTask.new, get?])
    · exact E.firstPiece_nonneg.trans E.firstPiece_le_lastPiece
    · simp [WatchTask.new]
  · intro s e s' hreach hinv hstep
    have htask := reachable_task hreach
    exact (stepRight (WatchTask.inv_of_reachable htask)
      (WatchTask.inLoop_of_reachable htask) hinv hstep).inv

/-- **Every step** of a run. -/
theorem stepRight_of_reachable (h : (machine E).Reachable r) (hstep : (machine E).step r e r') :
    StepRight E r e r' :=
  stepRight (WatchTask.inv_of_reachable (reachable_task h))
    (WatchTask.inLoop_of_reachable (reachable_task h)) (marksInv_of_reachable h) hstep

/-- **Marks and deadlines.**  In every run whose steps meet the guard a mark always has its
    deadline, and after each iteration and each seek so have the pieces ahead.  The guard is
    exact: from a reachable state with right marks, a step is right only if it meets it. -/
theorem deadlinesRight_of_guard (E : WatchedFile) :
    (∀ r, (machine E).RunUnder (fun _ => True) (DeadlineGuard E) r → r.MarksRight ∧
      ∀ e r', DeadlineGuard E r e → (machine E).step r e r' → DeadlinesRight E e r') ∧
    ∀ r e r', (machine E).Reachable r → r.MarksRight → (machine E).step r e r' →
      (DeadlinesRight E e r' ↔ DeadlineGuard E r e) := by
  have hiff : ∀ r e r', (machine E).Reachable r → r.MarksRight → (machine E).step r e r' →
      (DeadlinesRight E e r' ↔ DeadlineGuard E r e) :=
    fun r e r' hreach hright hstep => (stepRight_of_reachable hreach hstep).right_iff hright
  have hmarks : ∀ r, (machine E).RunUnder (fun _ => True) (DeadlineGuard E) r → r.MarksRight := by
    intro r hrun
    refine hrun.invariant_reachable ?_ ?_
    · rintro s ⟨service, rfl⟩ - i hm
      exact absurd hm (by simp [WatchTask.Marked, WatchTask.new, get?])
    · intro s e s' hreach hright hguard hstep
      exact ((hiff s e s' hreach hright hstep).mpr hguard).1
  refine ⟨fun r hrun => ⟨hmarks r hrun, fun e r' hguard hstep => ?_⟩, hiff⟩
  exact (hiff r e r' hrun.reachable (hmarks r hrun) hstep).mpr hguard

/-- Of ten pieces only piece `0` is missing.  The first iteration marks it; a seek to the beginning
    clears its deadline and not its mark, so that it is never asked for again. -/
theorem mark_without_deadline :
    ∃ r, (machine WatchTask.tenPieces).Reachable r ∧ ¬r.MarksRight ∧
      ¬r.AheadRight WatchTask.tenPieces := by
  have hrun : (Machine.runEvents (next WatchTask.tenPieces)
      ⟨.new ⟨fun i => decide (i ≠ 0), fun _ => none, 10 * SIZE_MB⟩, fun _ => false⟩
      -- the seek clears the deadlines, and piece 0 keeps its mark
      (WatchTask.startEvents ++ [.iterate, .seek 0])).map
        (fun r => ((get? r.task.filePriorities 0, r.deadlineSet 0),
          (r.task.currentPiece, r.task.activePieceCount), r.task.service.havePiece 0,
          r.task.service.deadline 0))
      = some ((some TorrentPriority.MAXIMUM, false), (0, 3), false, none) := by
    decide +kernel
  obtain ⟨r, hreach, heq⟩ := Machine.Reachable.exists_of_runEvents
    (show (machine WatchTask.tenPieces).Reachable _ from .start ⟨_, rfl⟩) hrun
  simp only [Prod.mk.injEq] at heq
  obtain ⟨⟨hmarked, hset⟩, ⟨hcur, hactive⟩, hmiss, hdeadline⟩ := heq
  refine ⟨r, hreach, ?_, ?_⟩
  · intro hright
    rw [hright 0 hmarked] at hset
    exact absurd hset (by simp)
  · intro hahead
    have hd := hahead 0 (by omega) (by decide) hmiss (by
      rw [hcur, hactive, WatchTask.missingCount, range_eq_nil (le_refl _)]
      simp)
    rw [hdeadline] at hd
    exact absurd hd (by simp)

end RecordedWatch

end PopcornTime.Android
