import PopcornTime.Lib.Machine
import PopcornTime.Desktop.RangeDownloaded

namespace PopcornTime.Desktop

open PopcornTime

/-!
# Desktop streamer — the deadline scheduler over whole runs

A run starts with the constructor and goes on with pieces that arrive and with seeks.  The
scheduler never leaves `piecesDeadlines` and keeps it in step with the outstanding deadlines.
It does lose sight of missing pieces: a file of one piece never gets a deadline, a seek before
start-up has finished drops all deadlines and sets none, and after a seek nothing in front of
the seek point is ever asked for.

* `TAux.Scheduled` — the invariant of a run, one lemma for each event.
* `TAux.Covered` — some piece that playback may wait for has a deadline.
* `Playback.Guard` — the condition on an event under which it keeps `Covered`.
* `Playback.covered_iff` — what holds of every run, and of every run that meets the guard.
-/

namespace Layout

variable (L : Layout)

/-- The piece of the byte a seek went to. -/
def seekPiece (offset : ℤ) : ℤ := (L.offset + offset) / L.len

/-- A start-up piece is missing. -/
def StartupMissing (had : ℤ → Bool) : Prop :=
  ∃ i, L.StartupPiece i ∧ had i = false

/-- A piece of the file at or after the seek point is missing. -/
def MissingFrom (had : ℤ → Bool) (offset : ℤ) : Prop :=
  ∃ i, L.seekPiece offset ≤ i ∧ i ≤ L.lastPiece ∧ had i = false

/-- A file that is not complete has bytes. -/
theorem fileSize_pos_of_not_complete {had : ℤ → Bool} (h : ¬L.Complete had) : 0 < L.fileSize := by
  have := L.fileSize_nonneg
  by_contra hcon
  exact h (L.complete_of_empty (by omega) had)

/-- And one that misses a piece of its own is not complete. -/
theorem not_complete_of_missing (had : ℤ → Bool) {i : ℤ} (h : 0 < L.fileSize)
    (h₀ : L.firstPiece ≤ i) (h₁ : i ≤ L.lastPiece) (hmiss : had i = false) :
    ¬L.Complete had := by
  intro hc
  rw [(L.complete_iff h).mp hc i h₀ h₁] at hmiss
  exact absurd hmiss (by simp)

/-- The last piece is a start-up piece. -/
theorem startupPiece_lastPiece (h : L.firstPiece ≤ L.lastPiece) : L.StartupPiece L.lastPiece := by
  have he := TAux.startupCount_ge L.piecesCount 400 MIN_STARTUP_PIECES_END
  have hmin : MIN_STARTUP_PIECES_END = 4 := rfl
  exact ⟨⟨h, le_refl _⟩, Or.inr (by omega)⟩

/-- Where all start-up pieces are had, a missing piece of the file lies before its last one. -/
theorem lt_lastPiece_of_missing {had : ℤ → Bool} (hno : ¬L.StartupMissing had) {i : ℤ}
    (h₀ : L.firstPiece ≤ i) (h₁ : i ≤ L.lastPiece) (hmiss : had i = false) : i < L.lastPiece := by
  rcases eq_or_lt_of_le h₁ with rfl | hlt
  · exact absurd ⟨_, L.startupPiece_lastPiece h₀, hmiss⟩ hno
  · exact hlt

/-- The seek point lies in the file. -/
theorem firstPiece_le_seekPiece (h : 0 < L.fileSize) {offset : ℤ} (ho : 0 ≤ offset) :
    L.firstPiece ≤ L.seekPiece offset := by
  rw [L.firstPiece_eq h]
  exact Int.ediv_le_ediv L.len_pos (by omega)

/-- It does not lie behind the file. -/
theorem seekPiece_le_lastPiece {offset : ℤ} (ho : offset < L.fileSize) (h : 0 < L.fileSize) :
    L.seekPiece offset ≤ L.lastPiece := by
  rw [L.lastPiece_eq h]
  exact Int.ediv_le_ediv L.len_pos (by omega)

end Layout

namespace TAux

variable {L : Layout} {t t' : TAux} {offset p : ℤ}

/-- libtorrent has finished piece `p`. -/
def finishPiece (t : TAux) (p : ℤ) : TAux :=
  { t with handle := t.handle.finishPiece p }

/-- The invariant of a run whose last seek went to `offset`. -/
structure Scheduled (L : Layout) (offset : ℤ) (t : TAux) : Prop where
  for_layout : t.For L
  synced : t.Synced
  seekPoint : t.fileFirstPieceForDeadlines = L.firstPiece + offset / L.len
  offset_nonneg : 0 ≤ offset
  offset_lt : 0 < L.fileSize → offset < L.fileSize
  /-- Either the constructor's deadlines are still there, or a seek has dropped them all. -/
  startup : (∀ i, i ∈ t.startupFirst ∨ i ∈ t.startupLast → t.handle.havePiece i = false →
    (t.handle.deadline i).isSome) ∨ (∀ i, t.handle.deadline i = none) ∨ ¬t.StartupMissing
  /-- A file of one piece is given no deadline. -/
  single : L.lastPiece ≤ L.firstPiece → ∀ i, t.handle.deadline i = none

/-- As long as the file is not complete, a piece that playback may wait for has a deadline: one
    at or after the seek point, or a start-up piece. -/
def Covered (L : Layout) (offset : ℤ) (t : TAux) : Prop :=
  ¬L.Complete t.handle.havePiece →
    (∃ i, L.seekPiece offset ≤ i ∧ i ≤ L.lastPiece ∧ t.handle.havePiece i = false ∧
      (t.handle.deadline i).isSome) ∨
    ∃ i, L.StartupPiece i ∧ t.handle.havePiece i = false ∧ (t.handle.deadline i).isSome

/-! ### The constructor -/

/-- The lists of the scheduler are the start-up pieces of the layout. -/
theorem For.startupMissing_iff (hfor : t.For L) (h : L.firstPiece < L.lastPiece) :
    t.StartupMissing ↔ L.StartupMissing t.handle.havePiece := by
  unfold StartupMissing Layout.StartupMissing
  exact exists_congr (fun i => and_congr_left (fun _ => hfor.mem_startup_iff h i))

/-- The state the constructor leaves, and when it covers the file. -/
theorem scheduled_new {had : ℤ → Bool}
    (h : new (L.freshHandle had) L.fileIndex L.fileSize = some t) :
    t.Scheduled L 0 ∧ t.handle.havePiece = had ∧
      (t.Covered L 0 ↔ L.Complete had ∨ (L.firstPiece < L.lastPiece ∧ L.StartupMissing had)) := by
  obtain ⟨t₀, hnew, hfor, hsync, hhad, hseek, hdl⟩ :=
    new_spec L (L.freshHandle had) rfl rfl (fun _ => rfl)
  rw [h, Option.some.injEq] at hnew
  subst hnew
  have hhad' : t.handle.havePiece = had := hhad
  have hsingle : L.lastPiece ≤ L.firstPiece → ∀ i, t.handle.deadline i = none := by
    intro hle i
    obtain ⟨hf, hl⟩ := hfor.startup_eq_nil hle
    have hno : ¬(t.handle.deadline i).isSome := by
      rw [hdl i, hf, hl]
      simp
    simpa using hno
  refine ⟨⟨hfor, hsync, by rw [hseek]; simp, le_refl _, id,
    Or.inl (fun i hi _ => (hdl i).mpr hi), hsingle⟩, hhad', ?_, ?_⟩
  · intro hcov
    by_cases hc : L.Complete had
    · exact Or.inl hc
    refine Or.inr ?_
    rw [Covered, hhad'] at hcov
    -- only start-up pieces have deadlines now
    obtain ⟨i, hmiss, hset⟩ : ∃ i, had i = false ∧ (t.handle.deadline i).isSome := by
      rcases hcov hc with ⟨i, -, -, hmiss, hset⟩ | ⟨i, -, hmiss, hset⟩
      · exact ⟨i, hmiss, hset⟩
      · exact ⟨i, hmiss, hset⟩
    have hlt : L.firstPiece < L.lastPiece := by
      by_contra hcon
      rw [hsingle (by omega) i] at hset
      exact absurd hset (by simp)
    exact ⟨hlt, i, (hfor.mem_startup_iff hlt i).mp ((hdl i).mp hset), hmiss⟩
  · rintro (hc | ⟨hlt, i, hi, hmiss⟩) hnot
    · exact absurd (hhad' ▸ hc) hnot
    · exact Or.inr ⟨i, hi, by rw [hhad']; exact hmiss,
        (hdl i).mpr ((hfor.mem_startup_iff hlt i).mpr hi)⟩

/-! ### A piece arrives -/

/-- The piece is had now, -/
theorem finishPiece_havePiece :
    (t.finishPiece p).handle.havePiece = Function.update t.handle.havePiece p true := rfl

/-- and its deadline gone. -/
theorem finishPiece_deadline (j : ℤ) :
    (t.finishPiece p).handle.deadline j = if j = p then none else t.handle.deadline j := by
  show Function.update t.handle.deadline p none j = _
  rw [Function.update_apply]

/-- What is missing behind it has been missing before. -/
theorem havePiece_of_finishPiece {i : ℤ} (h : (t.finishPiece p).handle.havePiece i = false) :
    i ≠ p ∧ t.handle.havePiece i = false := by
  rw [finishPiece_havePiece, Function.update_apply] at h
  split_ifs at h with hip
  exact ⟨hip, h⟩

/-- A finished piece leaves a start-up phase as it was. -/
theorem Scheduled.startup_finishPiece (hs : t.Scheduled L offset) (p : ℤ) :
    (∀ i, i ∈ t.startupFirst ∨ i ∈ t.startupLast →
      (t.finishPiece p).handle.havePiece i = false →
        ((t.finishPiece p).handle.deadline i).isSome) ∨
    (∀ i, (t.finishPiece p).handle.deadline i = none) ∨ ¬(t.finishPiece p).StartupMissing := by
  rcases hs.startup with h | h | h
  · refine Or.inl (fun i hi hmiss => ?_)
    obtain ⟨hip, hmiss⟩ := havePiece_of_finishPiece hmiss
    rw [finishPiece_deadline, if_neg hip]
    exact h i hi hmiss
  · refine Or.inr (Or.inl (fun i => ?_))
    rw [finishPiece_deadline, h i]
    split_ifs <;> rfl
  · refine Or.inr (Or.inr ?_)
    rintro ⟨i, hi, hmiss⟩
    exact h ⟨i, hi, (havePiece_of_finishPiece hmiss).2⟩

/-- The scheduler is still that of the layout. -/
theorem For.finishPiece (hfor : t.For L) (p : ℤ) : (t.finishPiece p).For L :=
  ⟨hfor.valid, hfor.fileSize, hfor.pieceLength, hfor.fileFirstPiece, hfor.fileVeryFirstPiece,
    hfor.fileLastPiece, hfor.startupPiecesCountAtStart, hfor.startupPiecesCountAtEnd,
    hfor.length_piecesDeadlines⟩

/-- A piece nobody set a deadline on arrives. -/
theorem Scheduled.pieceFinished (hs : t.Scheduled L offset) (hp : t.handle.deadline p = none) :
    (t.finishPiece p).Scheduled L offset := by
  have hdl : (t.finishPiece p).handle.deadline = t.handle.deadline := by
    show Function.update t.handle.deadline p none = _
    rw [← hp, Function.update_eq_self]
  refine ⟨hs.for_layout.finishPiece p, ⟨fun i => ?_, hs.synced.total⟩, hs.seekPoint,
    hs.offset_nonneg, hs.offset_lt, hs.startup_finishPiece p, ?_⟩
  · rw [hdl]
    exact hs.synced.marked i
  · rw [hdl]
    exact hs.single

/-- Such a piece never takes a deadline away from a missing one. -/
theorem Covered.pieceFinished (hc : t.Covered L offset) (hp : t.handle.deadline p = none) :
    (t.finishPiece p).Covered L offset := by
  -- `p` has no deadline, so it is not the piece that covers
  have hkeep : ∀ i, t.handle.havePiece i = false → (t.handle.deadline i).isSome →
      (t.finishPiece p).handle.havePiece i = false ∧
        ((t.finishPiece p).handle.deadline i).isSome := by
    intro i hmiss hset
    have hip : i ≠ p := by
      rintro rfl
      rw [hp] at hset
      exact absurd hset (by simp)
    rw [finishPiece_havePiece, Function.update_of_ne hip, finishPiece_deadline, if_neg hip]
    exact ⟨hmiss, hset⟩
  intro hnot
  have hbefore : ¬L.Complete t.handle.havePiece := by
    intro h
    refine hnot (fun i hi => ?_)
    rw [finishPiece_havePiece, Function.update_apply, h i hi, ite_self]
  rcases hc hbefore with ⟨i, h₀, h₁, hmiss, hset⟩ | ⟨i, hi, hmiss, hset⟩
  · exact Or.inl ⟨i, h₀, h₁, hkeep i hmiss hset⟩
  · exact Or.inr ⟨i, hi, hkeep i hmiss hset⟩

/-! ### `updateDeadlines` in a run -/

/-- What `updateDeadlines` leaves alone includes the start-up pieces. -/
theorem Frame.startupMissing (h : Frame t t') : t'.StartupMissing ↔ t.StartupMissing := by
  unfold StartupMissing
  rw [h.startupFirst, h.startupLast, h.havePiece]

/-- Once start-up has finished, the window that starts at the seek point reaches a missing
    piece at or after the seek point: at most one other missing piece lies before the first. -/
theorem exists_deadline_of_window {had : ℤ → Bool} {deadline : ℤ → Option ℤ}
    (hsize : 0 < L.fileSize) (ho : 0 ≤ offset) (hno : ¬L.StartupMissing had)
    (hmiss : L.MissingFrom had offset)
    (hcover : ∀ pre i post,
      Int.range (L.firstPiece + offset / L.len) L.lastPiece = pre ++ i :: post → had i = false →
      (pre.filter (fun j => !had j)).length < PRIORITY_PIECES_COUNT_MIN → (deadline i).isSome) :
    ∃ i, L.seekPiece offset ≤ i ∧ i ≤ L.lastPiece ∧ had i = false ∧ (deadline i).isSome := by
  have hfirst := L.firstPiece_le_seekPiece hsize ho
  obtain ⟨j, hj⟩ : ∃ j, (Int.range (L.seekPiece offset) (L.lastPiece + 1)).find?
      (fun j => !had j) = some j := by
    rw [← Option.isSome_iff_exists, List.find?_isSome]
    obtain ⟨i, h₀, h₁, hi⟩ := hmiss
    exact ⟨i, Int.mem_range_iff.mpr ⟨h₀, by omega⟩, by simp [hi]⟩
  obtain ⟨h₀, h₁, hjmiss, hbefore⟩ := find?_range_eq_some.mp hj
  simp only [Bool.not_eq_true', Bool.not_eq_false'] at hjmiss hbefore
  have hlast : j < L.lastPiece := L.lt_lastPiece_of_missing hno (by omega) (by omega) hjmiss
  -- the window starts at the seek point or one piece before it
  have hnear : L.firstPiece + offset / L.len ≤ L.seekPiece offset ∧
      L.seekPiece offset ≤ L.firstPiece + offset / L.len + 1 :=
    (L.rangeEnds_near hsize offset offset).1
  refine ⟨j, h₀, by omega, hjmiss, ?_⟩
  refine hcover (Int.range (L.firstPiece + offset / L.len) j) j (Int.range (j + 1) L.lastPiece)
    ?_ hjmiss ?_
  · rw [range_append (show L.firstPiece + offset / L.len ≤ j by omega) (by omega), range_eq_cons hlast]
  · have hnone : (Int.range (L.seekPiece offset) j).filter (fun j => !had j) = [] := by
      rw [List.filter_eq_nil_iff]
      intro i hi
      rw [Int.mem_range_iff] at hi
      simp [hbefore i hi.1 hi.2]
    rw [range_append hnear.1 h₀, List.filter_append, hnone, List.append_nil]
    have hlen := List.length_filter_le (fun j => !had j)
      (Int.range (L.firstPiece + offset / L.len) (L.seekPiece offset))
    have hone : (Int.range (L.firstPiece + offset / L.len) (L.seekPiece offset)).length ≤ 1 := by
      rw [Int.range, List.length_map, List.length_range]
      omega
    exact lt_of_le_of_lt (le_trans hlen hone) (by decide)

/-- What remains to be shown of an event that calls `updateDeadlines`: whether the file is
    covered once start-up has finished. -/
theorem covered_of_window (hsize : 0 < L.fileSize) (ho : 0 ≤ offset)
    (hno : ¬L.StartupMissing t.handle.havePiece)
    (hcover : ∀ pre i post,
      Int.range (L.firstPiece + offset / L.len) L.lastPiece = pre ++ i :: post →
      t.handle.havePiece i = false →
      (pre.filter (fun j => !t.handle.havePiece j)).length < PRIORITY_PIECES_COUNT_MIN →
      (t.handle.deadline i).isSome) (hmiss : L.MissingFrom t.handle.havePiece offset) :
    t.Covered L offset :=
  fun _ => Or.inl (exists_deadline_of_window hsize ho hno hmiss hcover)

/-- A covered file that is not complete and has its start-up pieces misses a piece at or after
    the seek point. -/
theorem Covered.missingFrom (hc : t.Covered L offset) (hnot : ¬L.Complete t.handle.havePiece)
    (hno : ¬L.StartupMissing t.handle.havePiece) : L.MissingFrom t.handle.havePiece offset := by
  rcases hc hnot with ⟨i, h₀, h₁, hmiss, -⟩ | ⟨i, hi, hmiss, -⟩
  · exact ⟨i, h₀, h₁, hmiss⟩
  · exact absurd ⟨i, hi, hmiss⟩ hno

/-- A covered file that is not complete has a deadline. -/
theorem Covered.exists_deadline (hc : t.Covered L offset)
    (hnot : ¬L.Complete t.handle.havePiece) : ∃ i, (t.handle.deadline i).isSome := by
  rcases hc hnot with ⟨i, -, -, -, hset⟩ | ⟨i, -, -, hset⟩
  · exact ⟨i, hset⟩
  · exact ⟨i, hset⟩

/-- The mark of a finished piece goes with its deadline. -/
theorem Scheduled.synced_finishPiece (hs : t.Scheduled L offset) (hp₀ : 0 ≤ p)
    (hp₁ : p < t.piecesDeadlines.length) : ((t.finishPiece p).unmarked p).Synced := by
  have hself : ((t.finishPiece p).handle.deadline p) = none := by
    rw [finishPiece_deadline, if_pos rfl]
  refine hs.synced.set hp₀ hp₁ (Or.inr rfl) rfl ?_ fun i hip => ?_
  · show _ ↔ ((t.finishPiece p).handle.deadline p).isSome
    simp [hself]
  · show (t.finishPiece p).handle.deadline i = _
    rw [finishPiece_deadline, if_neg hip]

/-- While any deadline is there, no missing start-up piece has lost its own. -/
theorem Scheduled.startup_deadline (hs : t.Scheduled L offset)
    (hp : (t.handle.deadline p).isSome) {i : ℤ} (hi : i ∈ t.startupFirst ∨ i ∈ t.startupLast)
    (hmiss : t.handle.havePiece i = false) : (t.handle.deadline i).isSome := by
  rcases hs.startup with h | h | h
  · exact h i hi hmiss
  · rw [h p] at hp
    exact absurd hp (by simp)
  · exact absurd ⟨i, hi, hmiss⟩ h

/-- **A piece with a deadline arrives.** -/
theorem Scheduled.pieceRead (hs : t.Scheduled L offset) (hp : (t.handle.deadline p).isSome) :
    ∃ t', (t.finishPiece p).updateDeadlines p (-1) = some (t', -1) ∧ t'.Scheduled L offset ∧
      t'.handle.havePiece = (t.finishPiece p).handle.havePiece ∧
      (t'.Covered L offset ↔ L.StartupMissing t'.handle.havePiece ∨
        L.Complete t'.handle.havePiece ∨ L.MissingFrom t'.handle.havePiece offset) := by
  -- a file of one piece has no deadline at all
  have hlt : L.firstPiece < L.lastPiece := by
    by_contra hcon
    rw [hs.single (by omega) p] at hp
    exact absurd hp (by simp)
  obtain ⟨hp₀, hp₁⟩ := mem_range_of_get?_eq_some ((hs.synced.marked p).mpr hp)
  have hfor := hs.for_layout.finishPiece p
  have hnonneg : 0 ≤ L.firstPiece + offset / L.len :=
    Int.add_nonneg L.firstPiece_nonneg (Int.ediv_nonneg hs.offset_nonneg L.len_pos.le)
  have hsync : (((t.finishPiece p).takeSeek (-1)).unmarked p).Synced := by
    rw [takeSeek_none]
    exact hs.synced_finishPiece hp₀ hp₁
  obtain ⟨t', hup, hframe, hsync', -, hkeep, -, hcover⟩ := updateDeadlines_spec hfor hp₀ hp₁
    (by rw [takeSeek_none]; exact hs.seekPoint ▸ hnonneg) hsync
  rw [takeSeek_none] at hframe hkeep hcover
  have hhad := hframe.havePiece
  have hfor' := hfor.of_frame hframe
  have hmissing : (t.finishPiece p).StartupMissing ↔ L.StartupMissing t'.handle.havePiece := by
    rw [← hframe.startupMissing, hfor'.startupMissing_iff hlt]
  refine ⟨t', hup, ⟨hfor', hsync', hframe.fileFirstPieceForDeadlines.trans hs.seekPoint,
    hs.offset_nonneg, hs.offset_lt, ?_, fun h => by omega⟩, hhad, ?_⟩
  · by_cases hm : (t.finishPiece p).StartupMissing
    · rw [hframe.startupFirst, hframe.startupLast, hhad, hkeep hm, hframe.startupMissing]
      exact hs.startup_finishPiece p
    · exact Or.inr (Or.inr (fun h => hm (hframe.startupMissing.mp h)))
  · constructor
    · intro hcov
      by_cases hm : L.StartupMissing t'.handle.havePiece
      · exact Or.inl hm
      by_cases hc : L.Complete t'.handle.havePiece
      · exact Or.inr (Or.inl hc)
      · exact Or.inr (Or.inr (hcov.missingFrom hc hm))
    · intro hguard hnot
      have hsize := L.fileSize_pos_of_not_complete hnot
      by_cases hm : L.StartupMissing t'.handle.havePiece
      · -- a start-up piece is still missing, and `p` was the only one to lose its deadline
        obtain ⟨i, hi, hmiss⟩ := hmissing.mpr hm
        refine Or.inr ⟨i, (hs.for_layout.mem_startup_iff hlt i).mp hi, by rw [hhad]; exact hmiss, ?_⟩
        obtain ⟨hip, hmiss⟩ := havePiece_of_finishPiece hmiss
        rw [hkeep (hmissing.mpr hm), finishPiece_deadline, if_neg hip]
        exact hs.startup_deadline hp hi hmiss
      · have hmissFrom := (hguard.resolve_left hm).resolve_left hnot
        refine covered_of_window hsize hs.offset_nonneg hm ?_ hmissFrom hnot
        intro pre i post heq hi hlen
        refine hcover (fun h => hm (hmissing.mp h)) pre i post ?_ (by rw [← hhad]; exact hi) ?_
        · rw [← heq, show (t.finishPiece p).fileFirstPieceForDeadlines
            = L.firstPiece + offset / L.len from hs.seekPoint]
        · rw [← hhad]
          exact hlen

/-- A seek leaves no deadline and no mark behind. -/
theorem takeSeek_synced {n : ℤ} (hn : n ≠ -1) (h : 0 < t.piecesDeadlines.length) :
    ((t.takeSeek n).unmarked 0).Synced ∧ ∀ i, (t.takeSeek n).handle.deadline i = none := by
  rw [takeSeek_some t hn]
  have h₁ : (0 : ℤ) < (List.replicate t.piecesDeadlines.length 'f').length := by
    rw [List.length_replicate]
    exact_mod_cast h
  refine ⟨⟨fun i => ?_, fun i h₀ hi => Or.inr ?_⟩, fun _ => rfl⟩
  · show get? ((List.replicate t.piecesDeadlines.length 'f').set (0 : ℤ).toNat 'f') i = some 't' ↔
      (none : Option ℤ).isSome
    rw [get?_set (le_refl _) h₁, get?_replicate]
    split_ifs <;> simp
  · show get? ((List.replicate t.piecesDeadlines.length 'f').set (0 : ℤ).toNat 'f') i = some 'f'
    have hi' : i < t.piecesDeadlines.length :=
      lt_of_lt_of_eq hi (by
        show (((List.replicate t.piecesDeadlines.length 'f').set _ 'f').length : ℤ) = _
        rw [List.length_set, List.length_replicate])
    rw [get?_set (le_refl _) h₁, get?_replicate]
    split_ifs with h₂ h₃
    · rfl
    · rfl
    · exact absurd ⟨h₀, hi'⟩ h₃

/-- **A seek.** -/
theorem Scheduled.seek (hs : t.Scheduled L offset) {o : ℤ} (ho : 0 ≤ o) (ho' : o < L.fileSize) :
    ∃ t', t.updateDeadlines 0 (o / L.len + L.firstPiece) = some (t', -1) ∧ t'.Scheduled L o ∧
      t'.handle.havePiece = t.handle.havePiece ∧
      (t'.Covered L o ↔ L.Complete t.handle.havePiece ∨
        (¬L.StartupMissing t.handle.havePiece ∧ L.MissingFrom t.handle.havePiece o)) := by
  have hsize : 0 < L.fileSize := by omega
  have hfirst := L.firstPiece_nonneg
  have hto := L.firstPiece_le_seekPiece hsize ho
  have hlast := L.seekPiece_le_lastPiece ho' hsize
  have hlen : 0 < t.piecesDeadlines.length := by
    rw [hs.for_layout.length_piecesDeadlines]
    omega
  have hdiv := Int.ediv_nonneg ho L.len_pos.le
  have hn : o / L.len + L.firstPiece ≠ -1 := by omega
  obtain ⟨hsync, hnone⟩ := takeSeek_synced hn hlen
  have hpoint : (t.takeSeek (o / L.len + L.firstPiece)).fileFirstPieceForDeadlines
      = L.firstPiece + o / L.len := by
    rw [takeSeek_some t hn]
    exact add_comm _ _
  obtain ⟨t', hup, hframe, hsync', -, hkeep, honly, hcover⟩ := updateDeadlines_spec hs.for_layout
    (le_refl 0) (by exact_mod_cast hlen) (by rw [hpoint]; omega) hsync
  have hhad : t'.handle.havePiece = t.handle.havePiece :=
    hframe.havePiece.trans (t.takeSeek_havePiece _)
  have hfor' := (hs.for_layout.takeSeek _).of_frame hframe
  have hmissing := hframe.startupMissing.trans (takeSeek_startupMissing t _)
  -- a file of one piece has an empty window, so nothing is set
  have hsingle : L.lastPiece ≤ L.firstPiece → ∀ i, t'.handle.deadline i = none := by
    intro hle i
    by_contra hset
    rcases honly i (Option.isSome_iff_ne_none.mpr hset) with h | h
    · rw [hnone i] at h
      exact absurd h (by simp)
    · rw [hpoint, Int.mem_range_iff] at h
      omega
  refine ⟨t', hup, ⟨hfor', hsync', hframe.fileFirstPieceForDeadlines.trans hpoint, ho,
    fun _ => ho', ?_, hsingle⟩, hhad, ?_⟩
  · by_cases hm : t.StartupMissing
    · refine Or.inr (Or.inl (fun i => ?_))
      rw [hkeep hm, hnone i]
    · exact Or.inr (Or.inr (fun h => hm (hmissing.mp h)))
  · constructor
    · intro hcov
      by_cases hc : L.Complete t.handle.havePiece
      · exact Or.inl hc
      obtain ⟨i, hset⟩ := hcov.exists_deadline (by rw [hhad]; exact hc)
      have hlt : L.firstPiece < L.lastPiece := by
        by_contra hcon
        rw [hsingle (by omega) i] at hset
        exact absurd hset (by simp)
      have hm : ¬L.StartupMissing t.handle.havePiece := by
        intro hm
        rw [hkeep ((hs.for_layout.startupMissing_iff hlt).mpr hm), hnone i] at hset
        exact absurd hset (by simp)
      have hmiss := hcov.missingFrom (by rw [hhad]; exact hc) (by rw [hhad]; exact hm)
      rw [hhad] at hmiss
      exact Or.inr ⟨hm, hmiss⟩
    · rintro (hc | ⟨hm, hmiss⟩) hnot
      · exact absurd (hhad ▸ hc) hnot
      · have hlt : L.firstPiece < L.lastPiece := by
          obtain ⟨i, h₀, h₁, hi⟩ := hmiss
          have := L.lt_lastPiece_of_missing hm (by omega) h₁ hi
          omega
        have hm' : ¬t.StartupMissing := by
          rw [hs.for_layout.startupMissing_iff hlt]
          exact hm
        refine covered_of_window hsize ho (by rw [hhad]; exact hm) ?_ (by rw [hhad]; exact hmiss) hnot
        intro pre i post heq hi hfew
        rw [hhad] at hi hfew
        exact hcover hm' pre i post (by rw [hpoint]; exact heq) hi hfew

end TAux

/-! ### Runs -/

/-- The streamer during a run of one torrent, and the offset of the last seek. -/
structure Playback where
  streamer : Streamerok
  seekOffset : ℤ

/-- What may happen next: the alert for a piece with a deadline, a piece nobody set a deadline
    on, or a seek of the player. -/
inductive PlaybackEvent
  | pieceRead (p : ℤ)
  | pieceFinished (p : ℤ)
  | seekInFile (offset : ℤ)

/-- libtorrent finishes piece `p` of a torrent. -/
def Streamerok.finishPiece (s : Streamerok) (torrentId p : ℤ) : Streamerok :=
  { s with
    tMap := Function.update s.tMap torrentId ((s.tMap torrentId).map (TAux.finishPiece · p)) }

namespace Playback

variable (L : Layout) (torrentId : ℤ)

/-- The scheduler of the torrent satisfies `P`. -/
def Has (s : Playback) (P : TAux → Prop) : Prop :=
  ∃ t, s.streamer.tMap torrentId = some t ∧ P t

/-- The state right after the constructor, with any pieces had. -/
def Init (s : Playback) : Prop :=
  ∃ had t, TAux.new (L.freshHandle had) L.fileIndex L.fileSize = some t ∧
    s = ⟨{ Streamerok.new with
      nextId := torrentId
      tMap := Function.update Streamerok.new.tMap torrentId (some t) }, 0⟩

/-- What libtorrent and the player may do. -/
def Enabled (s : Playback) : PlaybackEvent → Prop
  | .pieceRead p => s.Has torrentId (fun t => (t.handle.deadline p).isSome)
  | .pieceFinished p => s.Has torrentId (fun t => t.handle.deadline p = none)
  | .seekInFile offset => 0 ≤ offset ∧ offset < L.fileSize

/-- The code that runs on an event; `none` is an access out of range. -/
def next (s : Playback) : PlaybackEvent → Option Playback
  | .pieceRead p => do
    let streamer ← (s.streamer.finishPiece torrentId p).handleReadPieceAlert torrentId p
    some { s with streamer := streamer }
  | .pieceFinished p => some { s with streamer := s.streamer.finishPiece torrentId p }
  | .seekInFile offset => do
    let (_, streamer) ← s.streamer.seekInFile offset torrentId
    some ⟨streamer, offset⟩

/-- The machine of all runs of a torrent. -/
def machine : Machine Playback PlaybackEvent where
  init := Init L torrentId
  step := fun s e s' => s.Enabled L torrentId e ∧ s.next torrentId e = some s'

/-- The invariant of a run. -/
def Inv (s : Playback) : Prop :=
  s.streamer.needSeekToThisPiece = -1 ∧ s.Has torrentId (TAux.Scheduled L s.seekOffset)

/-- A piece that playback may wait for has a deadline. -/
def Covered (s : Playback) : Prop :=
  s.Has torrentId (TAux.Covered L s.seekOffset)

/-- When the constructor covers the file: it is complete already, or has more than one piece and
    misses a start-up piece. -/
def StartGuard (s : Playback) : Prop :=
  s.Has torrentId (fun t => L.Complete t.handle.havePiece ∨
    (L.firstPiece < L.lastPiece ∧ L.StartupMissing t.handle.havePiece))

/-- When an event keeps the file covered: the piece with the deadline is not the last one
    missing among the start-up pieces and those at or after the seek point, unless it is the last
    one of the file; and a seek comes after start-up and finds a missing piece at or after its
    target, unless the file is complete. -/
def Guard (s : Playback) : PlaybackEvent → Prop
  | .pieceRead p => s.Has torrentId (fun t =>
      let had := Function.update t.handle.havePiece p true
      L.StartupMissing had ∨ L.Complete had ∨ L.MissingFrom had s.seekOffset)
  | .pieceFinished _ => True
  | .seekInFile offset => s.Has torrentId (fun t =>
      L.Complete t.handle.havePiece ∨
        (¬L.StartupMissing t.handle.havePiece ∧ L.MissingFrom t.handle.havePiece offset))

variable {L torrentId}

/-- The session has one scheduler of the torrent. -/
theorem has_iff {s : Playback} {t : TAux} (h : s.streamer.tMap torrentId = some t)
    {P : TAux → Prop} : s.Has torrentId P ↔ P t := by
  unfold Has
  rw [h]
  simp

/-- The guard of a piece, in the terms of its scheduler. -/
theorem guard_pieceRead {s : Playback} {t : TAux} (h : s.streamer.tMap torrentId = some t)
    {p : ℤ} : s.Guard L torrentId (.pieceRead p) ↔
      L.StartupMissing (t.finishPiece p).handle.havePiece ∨
        L.Complete (t.finishPiece p).handle.havePiece ∨
        L.MissingFrom (t.finishPiece p).handle.havePiece s.seekOffset :=
  has_iff h

/-- The guard of a seek, likewise. -/
theorem guard_seekInFile {s : Playback} {t : TAux} (h : s.streamer.tMap torrentId = some t)
    {offset : ℤ} : s.Guard L torrentId (.seekInFile offset) ↔
      L.Complete t.handle.havePiece ∨
        (¬L.StartupMissing t.handle.havePiece ∧ L.MissingFrom t.handle.havePiece offset) :=
  has_iff h

/-- A seek inside the file is what `updateDeadlines` makes of it. -/
theorem next_seekInFile {s : Playback} {t t' : TAux} (ht : s.streamer.tMap torrentId = some t)
    (hfor : t.For L) {o : ℤ} (ho : 0 ≤ o) (ho' : o < L.fileSize)
    (hup : t.updateDeadlines 0 (o / L.len + L.firstPiece) = some (t', -1)) :
    s.next torrentId (.seekInFile o) = some ⟨{ s.streamer with
      needSeekToThisPiece := -1
      tMap := Function.update s.streamer.tMap torrentId (some t') }, o⟩ := by
  have hin : ¬L.fileSize < o := by omega
  simp only [next, Streamerok.seekInFile, Streamerok.getAux_eq ht hfor.valid,
    Option.bind_eq_bind, Option.bind_some, hfor.fileSize, hfor.pieceLength,
    hfor.fileVeryFirstPiece, Int.tdiv_eq_ediv_of_nonneg ho, hup, if_neg hin]

/-- **The start.** -/
theorem init_spec {s : Playback} (h : Init L torrentId s) :
    s.Inv L torrentId ∧ (s.Covered L torrentId ↔ s.StartGuard L torrentId) := by
  obtain ⟨had, t, hnew, rfl⟩ := h
  have ht : (Function.update Streamerok.new.tMap torrentId (some t)) torrentId = some t :=
    Function.update_self _ _ _
  obtain ⟨hs, hhad, hcov⟩ := TAux.scheduled_new hnew
  refine ⟨⟨rfl, t, ht, hs⟩, ?_⟩
  unfold Covered StartGuard
  rw [has_iff ht, has_iff ht, hhad]
  exact hcov

/-- **A step.**  An enabled event never leaves `piecesDeadlines`, keeps the invariant, and keeps
    a covered file covered exactly under the guard. -/
theorem step_spec {s : Playback} {e : PlaybackEvent} (hinv : s.Inv L torrentId)
    (he : s.Enabled L torrentId e) :
    ∃ s', s.next torrentId e = some s' ∧ s'.Inv L torrentId ∧
      (s.Covered L torrentId → (s'.Covered L torrentId ↔ s.Guard L torrentId e)) := by
  obtain ⟨hneed, t, ht, hs⟩ := hinv
  have hget : ∀ p, (s.streamer.finishPiece torrentId p).tMap torrentId
      = some (t.finishPiece p) := by
    intro p
    show Function.update s.streamer.tMap torrentId _ torrentId = _
    rw [Function.update_self, ht]
    rfl
  cases e with
  | pieceRead p =>
    have hp : (t.handle.deadline p).isSome := (has_iff ht).mp he
    obtain ⟨t', hup, hs', hhad, hcov⟩ := hs.pieceRead hp
    have hnext : s.next torrentId (.pieceRead p)
        = some ⟨{ s.streamer.finishPiece torrentId p with
            needSeekToThisPiece := -1
            tMap := Function.update (s.streamer.finishPiece torrentId p).tMap torrentId
              (some t') }, s.seekOffset⟩ := by
      have hpending : (s.streamer.finishPiece torrentId p).needSeekToThisPiece = -1 := hneed
      simp only [next, Streamerok.handleReadPieceAlert, hget p, hpending, hup,
        Option.bind_eq_bind, Option.bind_some]
    refine ⟨_, hnext, ⟨rfl, t', Function.update_self _ _ _, hs'⟩, fun _ => ?_⟩
    rw [Covered, has_iff (t := t') (Function.update_self _ _ _), hcov, hhad]
    exact (guard_pieceRead ht).symm
  | pieceFinished p =>
    -- nobody waits for the piece: no alert is handled
    have hp : t.handle.deadline p = none := (has_iff ht).mp he
    refine ⟨_, rfl, ⟨hneed, t.finishPiece p, hget p, hs.pieceFinished hp⟩, fun hc => ?_⟩
    refine iff_of_true ?_ trivial
    exact (has_iff (hget p)).mpr (((has_iff ht).mp hc).pieceFinished hp)
  | seekInFile o =>
    obtain ⟨ho, ho'⟩ := he
    obtain ⟨t', hup, hs', hhad, hcov⟩ := hs.seek ho ho'
    have hnext := next_seekInFile ht hs.for_layout ho ho' hup
    refine ⟨_, hnext, ⟨rfl, t', Function.update_self _ _ _, hs'⟩, fun _ => ?_⟩
    rw [Covered, has_iff (t := t') (Function.update_self _ _ _), hcov]
    exact (guard_seekInFile ht).symm

/-- **Every run** keeps the invariant. -/
theorem inv_of_reachable {s : Playback} (h : (machine L torrentId).Reachable s) :
    s.Inv L torrentId := by
  refine Machine.Reachable.invariant (I := Inv L torrentId) ?_ ?_ h
  · intro s hi
    exact (init_spec hi).1
  · rintro s e s' hinv ⟨he, hstep⟩
    obtain ⟨s₁, hnext, hinv₁, -⟩ := step_spec hinv he
    rw [hnext, Option.some.injEq] at hstep
    exact hstep ▸ hinv₁

/-- The guard is met exactly by the events that keep the file covered. -/
theorem exactGuard (L : Layout) (torrentId : ℤ) :
    (machine L torrentId).ExactGuard (StartGuard L torrentId) (Guard L torrentId)
      (Covered L torrentId) where
  init_iff := fun _ hi => (init_spec hi).2
  step_iff := by
    rintro s e s' hreach hcov ⟨he, hstep⟩
    obtain ⟨s₁, hnext, -, hiff⟩ := step_spec (inv_of_reachable hreach) he
    rw [hnext, Option.some.injEq] at hstep
    exact hstep ▸ hiff hcov

/-- **The deadline scheduler over whole runs.**  In every run no access to `piecesDeadlines` is
    out of range and the marks in it are the outstanding deadlines.  In every run that meets the
    guard the file stays covered, and the guard is exact: the first event that breaks it leaves
    the file uncovered. -/
theorem covered_iff (L : Layout) (torrentId : ℤ) :
    (∀ had, (TAux.new (L.freshHandle had) L.fileIndex L.fileSize).isSome) ∧
    (∀ s, (machine L torrentId).Reachable s →
      (∀ e, s.Enabled L torrentId e → (s.next torrentId e).isSome) ∧
      s.Has torrentId (fun t => ∀ i, get? t.piecesDeadlines i = some 't' ↔
        (t.handle.deadline i).isSome)) ∧
    (∀ s, (machine L torrentId).RunUnder (StartGuard L torrentId) (Guard L torrentId) s →
      s.Covered L torrentId) ∧
    (machine L torrentId).ExactGuard (StartGuard L torrentId) (Guard L torrentId)
      (Covered L torrentId) := by
  refine ⟨fun had => ?_, fun s hreach => ⟨fun e he => ?_, ?_⟩,
    fun s => (exactGuard L torrentId).runUnder, exactGuard L torrentId⟩
  · obtain ⟨t, hnew, -⟩ := TAux.new_freshHandle L had
    rw [hnew]
    rfl
  · obtain ⟨s', hnext, -⟩ := step_spec (inv_of_reachable hreach) he
    rw [hnext]
    rfl
  · obtain ⟨-, t, ht, hs⟩ := inv_of_reachable hreach
    exact ⟨t, ht, hs.synced.marked⟩

/-! ### Two runs that lose a missing piece -/

/-- A torrent of one file of five bytes in one piece of ten. -/
def singlePiece : Layout where
  storage := { secondFile.storage with
    fileSizes := [5]
    fileSizes_nonneg := by decide }
  fileIndex := 0
  fileIndex_lt := by decide

/-- The constructor with no piece had. -/
theorem exists_init (L : Layout) (torrentId : ℤ) :
    ∃ s t, Init L torrentId s ∧ s.streamer.tMap torrentId = some t ∧
      t.handle.havePiece = fun _ => false := by
  obtain ⟨t, hnew, -, hhad⟩ := TAux.new_freshHandle L (fun _ => false)
  exact ⟨_, t, ⟨_, t, hnew, rfl⟩, Function.update_self _ _ _, hhad⟩

/-- With no piece of `secondFile` had, a seek to byte `10` right after the constructor drops the
    deadlines of all three pieces and sets none; and the only piece of `singlePiece` never gets
    a deadline. -/
theorem not_covered_after_seek :
    (∃ s s', Init secondFile 1 s ∧ s.Enabled secondFile 1 (.seekInFile 10) ∧
      s.next 1 (.seekInFile 10) = some s' ∧ ¬s'.Covered secondFile 1) ∧
    ∃ s, Init singlePiece 1 s ∧ ¬s.Covered singlePiece 1 := by
  constructor
  · obtain ⟨s, t, hinit, ht, hhad⟩ := exists_init secondFile 1
    have hmissing : secondFile.StartupMissing t.handle.havePiece :=
      ⟨_, secondFile.startupPiece_lastPiece (by decide), by rw [hhad]⟩
    have hcov : s.Covered secondFile 1 :=
      (init_spec hinit).2.mpr ⟨t, ht, Or.inr ⟨by decide, hmissing⟩⟩
    have he : s.Enabled secondFile 1 (.seekInFile 10) := ⟨by decide, by decide⟩
    obtain ⟨s', hnext, -, hiff⟩ := step_spec (init_spec hinit).1 he
    refine ⟨s, s', hinit, he, hnext, ?_⟩
    rw [hiff hcov, guard_seekInFile ht]
    -- piece `0` is missing, and the start-up pieces are not all there
    have hnot := secondFile.not_complete_of_missing t.handle.havePiece (i := 0)
      (by decide) (by decide) (by decide) (by rw [hhad])
    exact not_or.mpr ⟨hnot, fun h => h.1 hmissing⟩
  · obtain ⟨s, t, hinit, ht, hhad⟩ := exists_init singlePiece 1
    refine ⟨s, hinit, ?_⟩
    rw [(init_spec hinit).2, StartGuard, has_iff ht]
    have hnot := singlePiece.not_complete_of_missing t.handle.havePiece (i := 0)
      (by decide) (by decide) (by decide) (by rw [hhad])
    exact not_or.mpr ⟨hnot, fun h => absurd h.1 (by decide)⟩

end Playback

end PopcornTime.Desktop
