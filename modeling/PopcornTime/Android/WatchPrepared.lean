import PopcornTime.Android.WatchRun

namespace PopcornTime.Android

open PopcornTime

/-!
# Android watch — the order of the messages

`VIDEO_PREPARED` is sent by the iteration that leaves `PREPARING_FOR_WATCH`.  A seek leaves that
state too, without the message, and no branch returns to it.

* `preparedRight` — the message is sent at most once, with its pieces had.
* `StepSent` — which messages an event sends, and how it leaves and enters
  `PREPARING_FOR_WATCH`.
* `prepared_of_guard` — when the messages come in the right order.
-/

namespace WatchTask

variable {E : WatchedFile} {t t' t'' : WatchTask} {e : WatchEvent} {first last : ℤ}

/-! ### The pieces a prepared watch has -/

/-- The first and the last `prepareCount` pieces of the file are had. -/
def PrepareHad (E : WatchedFile) (t : WatchTask) : Prop :=
  ∀ i, (E.firstPiece ≤ i ∧ i < E.firstPiece + t.prepareCount) ∨
    (E.lastPiece - t.prepareCount < i ∧ i ≤ E.lastPiece) → t.service.havePiece i = true

/-- A count of had pieces is full only if all of them are had. -/
theorem downloadedPiecesCount_spec (lo hi : ℤ) :
    t.downloadedPiecesCount lo hi ≤ max (hi - lo + 1) 0 ∧
      (max (hi - lo + 1) 0 ≤ t.downloadedPiecesCount lo hi →
        ∀ i, lo ≤ i → i ≤ hi → t.service.havePiece i = true) := by
  have hlen : ((Int.range lo (hi + 1)).length : ℤ) = max (hi - lo + 1) 0 := by
    simp only [Int.range, List.length_map, List.length_range]
    omega
  have hle : (Int.range lo (hi + 1)).countP t.service.havePiece ≤ (Int.range lo (hi + 1)).length :=
    List.countP_le_length
  unfold downloadedPiecesCount
  refine ⟨by omega, fun hfull i hlo hhi => ?_⟩
  -- all of the range is counted, so all of it is had
  have hall := List.countP_eq_length.mp
    (le_antisymm hle (show (Int.range lo (hi + 1)).length ≤ _ by omega))
  exact hall i (Int.mem_range_iff.mpr ⟨hlo, by omega⟩)

/-- Twice `prepareCount` pieces are had only if both ends of the file are. -/
theorem prepareHad_of_le
    (h : t.prepareCount * 2 ≤ t.preparedPieces E.firstPiece E.lastPiece) : t.PrepareHad E := by
  obtain ⟨hend, hendHad⟩ := t.downloadedPiecesCount_spec
    (E.lastPiece - t.prepareCount + 1) E.lastPiece
  obtain ⟨hbegin, hbeginHad⟩ := t.downloadedPiecesCount_spec
    E.firstPiece (E.firstPiece + t.prepareCount - 1)
  unfold preparedPieces at h
  rintro i (⟨hlo, hhi⟩ | ⟨hlo, hhi⟩)
  · exact hbeginHad (by omega) i hlo (by omega)
  · exact hendHad (by omega) i (by omega) hhi

/-! ### What one event sends -/

/-- The message reports the end of a buffering or of the download. -/
def EndMessage (m : WatchMessage) : Prop :=
  m = .bufferingFinished ∨ m = .downloadFinished

/-- What an event sends, and how it leaves and enters `PREPARING_FOR_WATCH`. -/
structure StepSent (E : WatchedFile) (t : WatchTask) (e : WatchEvent) (t' : WatchTask)
    (new : List WatchMessage) : Prop where
  sent : t'.sent = t.sent ++ new
  prepared : .videoPrepared ∈ new → t.state = .preparingForWatch ∧
    t'.state = .sequentialDownload ∧ new.count .videoPrepared = 1 ∧ t.PrepareHad E
  ends : ∀ m ∈ new, EndMessage m → t.point = .loop ∧ t.state ≠ .preparingForWatch
  leaves : t.point = .loop → t.state = .preparingForWatch → t'.state ≠ .preparingForWatch →
    .videoPrepared ∈ new ∨ ∃ delta, e = .seek delta
  enters : t'.state = .preparingForWatch → t.state = .preparingForWatch ∨
    (t.point ≠ .loop ∧ t'.point = .loop)

/-- A statement before the loop sends no message about pieces. -/
theorem AdvanceStep.stepSent (h : AdvanceStep E t t') : ∃ new, StepSent E t .advance t' new := by
  cases h with
  | started hp =>
    exact ⟨[.metadataLoad], rfl, by simp, by simp [EndMessage], by simp [hp], by simp⟩
  | loadMetadata hp => exact ⟨[], by simp, by simp, by simp, by simp [hp], by simp⟩
  | checkFile hp | boundaryKnown hp | counted _ hp =>
    exact ⟨[], by simp, by simp, by simp, by simp [hp], Or.inl⟩
  | failed hp => exact ⟨[.error], rfl, by simp, by simp [EndMessage], by simp [hp], Or.inl⟩
  | activated hp => exact ⟨[], by simp, by simp, by simp, by simp [hp], by simp⟩
  | loadSubtitles hp =>
    exact ⟨[.downloadStarted], rfl, by simp, by simp [EndMessage], by simp [hp], by simp [hp]⟩

/-- A seek sends at most its progress. -/
theorem SeekStep.stepSent {delta : ℚ} (h : SeekStep E t delta t') :
    ∃ new, StepSent E t (.seek delta) t' new ∧ .videoPrepared ∉ new := by
  cases h with
  -- the seek sends nothing
  | finished | unknown =>
    exact ⟨[], ⟨by simp [aimSeek], by simp, by simp, fun _ _ _ => Or.inr ⟨delta, rfl⟩, Or.inl⟩,
      by simp⟩
  | buffering i p _ _ _ _ hframe =>
    obtain ⟨ps, dl, -, rfl⟩ := hframe
    exact ⟨_, ⟨rfl, by simp, by simp [EndMessage], fun _ _ _ => Or.inr ⟨delta, rfl⟩,
      by simp [withMarks]⟩, by simp⟩
  | sequential p _ _ hframe =>
    obtain ⟨ps, dl, -, rfl⟩ := hframe
    exact ⟨_, ⟨rfl, by simp, by simp [EndMessage], fun _ _ _ => Or.inr ⟨delta, rfl⟩,
      by simp [withMarks]⟩, by simp⟩

/-- An iteration. -/
theorem iterate_stepSent (hlast : E.lastPiece < t.filePriorities.length)
    (hactive : 0 < t.activePieceCount) (hp : t.point = .loop) (hloop : t.InLoop)
    (hs : t.state ≠ .finished) :
    ∃ new, StepSent E t .iterate (t.iterate E.firstPiece E.lastPiece) new := by
  unfold iterate
  rcases hloop with hst | hst | hst | hst
  · -- `PREPARING_FOR_WATCH`: the message is sent as soon as the count is full
    obtain ⟨p, ps, dl, -, heq⟩ := prepare_spec (t := t) E.firstPiece hlast
    simp only [hst, heq]
    by_cases hcount : t.prepareCount * 2 ≤ t.preparedPieces E.firstPiece E.lastPiece
    · refine ⟨_, rfl, fun _ => ⟨hst, by simp [withMarks, hcount], by simp [hcount],
        prepareHad_of_le hcount⟩, by simp [hcount, EndMessage], ?_, ?_⟩
      · exact fun _ _ _ => Or.inl (by simp [hcount])
      · exact fun _ => Or.inl hst
    · refine ⟨_, rfl, by simp [hcount], by simp [hcount, EndMessage], ?_, ?_⟩
      · exact fun _ _ hleft => absurd (by simp [withMarks, hcount]) hleft
      · exact fun _ => Or.inl hst
  · -- the other two states send end messages only
    obtain ⟨ps, dl, -, heq⟩ := sequential_spec (t := t) E.firstPiece hlast hactive
    simp only [hst, heq]
    refine ⟨_, rfl, ?_, fun _ _ _ => ⟨hp, by simp [hst]⟩, by simp [hst], ?_⟩
    · intro hm
      split_ifs at hm <;> simp at hm
    · intro hpre
      simp only [withMarks] at hpre
      split_ifs at hpre
  · obtain ⟨ps, dl, -, heq⟩ := buffer_spec (t := t) E.firstPiece hlast hactive
    simp only [hst, heq]
    refine ⟨_, rfl, ?_, fun _ _ _ => ⟨hp, by simp [hst]⟩, by simp [hst], ?_⟩
    · intro hm
      split_ifs at hm <;> simp at hm
    · intro hpre
      simp only [withMarks] at hpre
      split_ifs at hpre
  · -- a finished task does not iterate
    exact absurd hst hs

/-- **What one event sends.** -/
theorem stepSent (hinv : Inv E t) (hloop : t.point = .loop → t.InLoop)
    (hstep : t.next E e = some t') : ∃ new, StepSent E t e t' new := by
  cases e with
  | pieceFinished piece =>
    simp only [next, Option.some.injEq] at hstep
    subst hstep
    exact ⟨[], by simp, by simp, by simp, fun _ hs hleft => absurd hs hleft, Or.inl⟩
  | advance => exact (advanceStep hinv hstep).stepSent
  | iterate =>
    simp only [next] at hstep
    split_ifs at hstep with hcond
    obtain ⟨hb, hlast, hactive⟩ := hinv.loop hcond.1
    rw [hb, Option.map_some, Option.some.injEq] at hstep
    subst hstep
    exact iterate_stepSent hlast hactive hcond.1 (hloop hcond.1) hcond.2
  | seek delta =>
    simp only [next] at hstep
    split_ifs at hstep
    rw [Option.some.injEq] at hstep
    subst hstep
    obtain ⟨new, hnew, -⟩ := (hinv.seekStep delta).stepSent
    exact ⟨new, hnew⟩

/-! ### Once, and with its pieces -/

/-- `VIDEO_PREPARED` is sent at most once, and only when both ends of the file are had. -/
def PreparedRight (E : WatchedFile) (t : WatchTask) : Prop :=
  t.sent.count .videoPrepared ≤ 1 ∧ (.videoPrepared ∈ t.sent → t.PrepareHad E)

/-- What the invariant of a run says about the messages. -/
structure SentInv (E : WatchedFile) (t : WatchTask) : Prop where
  right : t.PreparedRight E
  preparing : t.state = .preparingForWatch → t.point = .loop ∧ .videoPrepared ∉ t.sent
  /-- Before the loop none of these messages is sent. -/
  before : t.point ≠ .loop → .videoPrepared ∉ t.sent ∧ ∀ m ∈ t.sent, ¬EndMessage m

/-- Pieces that are had stay had, and `prepareCount` is set once. -/
theorem PrepareHad.next (h : t.PrepareHad E) (hinv : Inv E t) (he : e ≠ .advance)
    (hstep : t.next E e = some t') : t'.PrepareHad E := by
  have hsetup := sameSetup_of_next hinv he hstep
  intro i hi
  rw [hsetup.2.2.2.1] at hi
  rw [(stepFacts hinv hstep).havePiece]
  have hhad := h i hi
  cases e with
  | pieceFinished piece =>
    show Function.update t.service.havePiece piece true i = true
    rw [Function.update_apply, hhad, ite_self]
  | advance | iterate | seek delta => exact hhad

/-- In the loop nothing is left to advance. -/
theorem ne_advance (hp : t.point = .loop) (hstep : t.next E e = some t') : e ≠ .advance := by
  rintro rfl
  simp [next, advance, hp] at hstep

theorem SentInv.next (hinv : Inv E t) (hloop : t.point = .loop → t.InLoop) (h : SentInv E t)
    (hstep : t.next E e = some t') : SentInv E t' := by
  obtain ⟨new, hnew⟩ := stepSent hinv hloop hstep
  -- the loop is not left again
  have hpoint : t'.point ≠ .loop → t.point ≠ .loop := fun hp' hp =>
    hp' ((sameSetup_of_next hinv (ne_advance hp hstep) hstep).1.trans hp)
  have hprepared : .videoPrepared ∈ new → t.point = .loop ∧ .videoPrepared ∉ t.sent :=
    fun hm => h.preparing (hnew.prepared hm).1
  refine ⟨⟨?_, fun hm => ?_⟩, fun hpre => ?_, fun hp' => ?_⟩
  · rw [hnew.sent, List.count_append]
    -- it is sent from `PREPARING_FOR_WATCH`, where it has not been sent
    by_cases hm : .videoPrepared ∈ new
    · rw [(hnew.prepared hm).2.2.1, List.count_eq_zero.mpr (hprepared hm).2]
    · rw [List.count_eq_zero.mpr hm]
      exact h.right.1
  · rw [hnew.sent, List.mem_append] at hm
    rcases hm with hm | hm
    · have hp : t.point = .loop := by
        -- sent before means that the loop runs
        by_contra hp
        exact (h.before hp).1 hm
      exact (h.right.2 hm).next hinv (ne_advance hp hstep) hstep
    · exact (hnew.prepared hm).2.2.2.next hinv (ne_advance (hprepared hm).1 hstep) hstep
  · have hnot : .videoPrepared ∉ new := fun hm => by
      rw [(hnew.prepared hm).2.1] at hpre
      exact absurd hpre (by simp)
    rw [hnew.sent, List.mem_append, not_or]
    rcases hnew.enters hpre with hs | ⟨hp, hp'⟩
    · obtain ⟨hp, hnone⟩ := h.preparing hs
      have hsame := (sameSetup_of_next hinv (ne_advance hp hstep) hstep).1
      exact ⟨hsame.trans hp, hnone, hnot⟩
    · exact ⟨hp', (h.before hp).1, hnot⟩
  · obtain ⟨hnone, hends⟩ := h.before (hpoint hp')
    rw [hnew.sent]
    refine ⟨?_, fun m hm hend => ?_⟩
    · rw [List.mem_append, not_or]
      exact ⟨hnone, fun hm => hpoint hp' (hprepared hm).1⟩
    · rcases List.mem_append.mp hm with hm | hm
      · exact hends m hm hend
      · exact hpoint hp' (hnew.ends m hm hend).1

theorem sentInv_of_reachable (h : (machine E).Reachable t) : SentInv E t := by
  refine h.invariant_reachable ?_ ?_
  · rintro s ⟨service, rfl⟩
    exact ⟨⟨by simp [new], by simp [new]⟩, by simp [new], by simp [new]⟩
  · intro s e s' hreach hinv hstep
    exact hinv.next (inv_of_reachable hreach) (inLoop_of_reachable hreach) hstep

/-! ### In order -/

/-- `BUFFERING_FINISHED` and `DOWNLOAD_FINISHED` come behind `VIDEO_PREPARED`, and `FINISHED` is
    not reached without it. -/
def OrderRight (t : WatchTask) : Prop :=
  (∀ l m r, t.sent = l ++ m :: r → EndMessage m → .videoPrepared ∈ l) ∧
    (t.state = .finished → .videoPrepared ∈ t.sent)

/-- No seek comes while the watch is prepared. -/
def PreparedGuard (t : WatchTask) (e : WatchEvent) : Prop :=
  ∀ delta, e = .seek delta → t.state ≠ .preparingForWatch

/-- A loop that is past `PREPARING_FOR_WATCH` has sent `VIDEO_PREPARED`. -/
def PastPrepared (t : WatchTask) : Prop :=
  t.point = .loop → t.state ≠ .preparingForWatch → .videoPrepared ∈ t.sent

/-- Where the messages so far and the new ones are in order, so is the whole. -/
theorem order_append {sent new l r : List WatchMessage} {m : WatchMessage}
    (h : ∀ l m r, sent = l ++ m :: r → EndMessage m → .videoPrepared ∈ l)
    (hnew : ∀ m ∈ new, EndMessage m → .videoPrepared ∈ sent)
    (heq : sent ++ new = l ++ m :: r) (hm : EndMessage m) : .videoPrepared ∈ l := by
  rcases List.append_eq_append_iff.mp heq with ⟨k, hl, hk⟩ | ⟨k, hs, hk⟩
  · -- the message is one of the new ones
    rw [hl]
    exact List.mem_append_left _ (hnew m (hk ▸ List.mem_append_right _ (List.mem_cons_self)) hm)
  · cases k with
    | nil =>
      rw [List.append_nil] at hs
      rw [List.nil_append] at hk
      rw [← hs]
      exact hnew m (hk ▸ List.mem_cons_self) hm
    | cons m' k =>
      rw [List.cons_append, List.cons.injEq] at hk
      obtain ⟨rfl, -⟩ := hk
      exact h l m k hs hm

/-- **A guarded step** keeps the order. -/
theorem orderRight_next (hinv : Inv E t) (hloop : t.point = .loop → t.InLoop)
    (h : t.OrderRight ∧ t.PastPrepared) (hguard : t.PreparedGuard e)
    (hstep : t.next E e = some t') : t'.OrderRight ∧ t'.PastPrepared := by
  obtain ⟨⟨horder, hfin⟩, hpast⟩ := h
  obtain ⟨new, hnew⟩ := stepSent hinv hloop hstep
  have hpast' : t'.PastPrepared := by
    intro hp' hs'
    rw [hnew.sent, List.mem_append]
    by_cases hp : t.point = .loop
    · by_cases hs : t.state = .preparingForWatch
      · -- left by an iteration it has been sent; the guard excludes the seek
        rcases hnew.leaves hp hs hs' with hm | ⟨delta, he⟩
        · exact Or.inr hm
        · exact absurd hs (hguard delta he)
      · exact Or.inl (hpast hp hs)
    · -- the loop is entered in `PREPARING_FOR_WATCH`
      cases e with
      | advance => exact absurd ((advanceStep hinv hstep).state hp') hs'
      | pieceFinished | iterate | seek =>
        exact absurd ((sameSetup_of_next hinv (by simp) hstep).1.symm.trans hp') hp
  refine ⟨⟨fun l m r heq hm => ?_, fun hs => ?_⟩, hpast'⟩
  · rw [hnew.sent] at heq
    refine order_append horder (fun m hm hend => ?_) heq hm
    exact hpast (hnew.ends m hm hend).1 (hnew.ends m hm hend).2
  · exact hpast' ((stepFacts hinv hstep).inv.finished_loop hs) (by simp [hs])

/-! ### What a seek in `PREPARING_FOR_WATCH` leads to -/

/-- The loop has left `PREPARING_FOR_WATCH` without the message. -/
def NeverPrepared (t : WatchTask) : Prop :=
  t.point = .loop ∧ t.state ≠ .preparingForWatch ∧ .videoPrepared ∉ t.sent

theorem NeverPrepared.next (h : t.NeverPrepared) (hinv : Inv E t) (hloop : t.point = .loop → t.InLoop)
    (hstep : t.next E e = some t') : t'.NeverPrepared := by
  obtain ⟨hp, hs, hnone⟩ := h
  obtain ⟨new, hnew⟩ := stepSent hinv hloop hstep
  refine ⟨(sameSetup_of_next hinv (ne_advance hp hstep) hstep).1.trans hp, fun hs' => ?_, ?_⟩
  · rcases hnew.enters hs' with hpre | ⟨hno, -⟩
    · exact hs hpre
    · exact hno hp
  · rw [hnew.sent, List.mem_append, not_or]
    exact ⟨hnone, fun hm => hs (hnew.prepared hm).1⟩

/-- A seek in `PREPARING_FOR_WATCH` leaves it. -/
theorem neverPrepared_of_seek (hinv : Inv E t) (hsent : SentInv E t) {delta : ℚ}
    (hs : t.state = .preparingForWatch) (hstep : t.next E (.seek delta) = some t') :
    t'.NeverPrepared := by
  obtain ⟨hp, hnone⟩ := hsent.preparing hs
  simp only [next] at hstep
  split_ifs at hstep
  rw [Option.some.injEq] at hstep
  subst hstep
  obtain ⟨new, hnew, hquiet⟩ := (hinv.seekStep delta).stepSent
  obtain ⟨hsetup, hstate⟩ := (hinv.seekStep delta).spec
  refine ⟨hsetup.1.trans hp, ?_, ?_⟩
  · -- the state is left, as the task is not finished and the boundary is known
    have hb := (hinv.loop hp).1
    rcases hstate with ⟨-, hno | hno⟩ | ⟨-, -, hst | hst⟩
    · exact absurd (hs.symm.trans hno) (by simp)
    · exact absurd (hb.symm.trans hno) (by simp)
    all_goals simp [hst]
  · rw [hnew.sent, List.mem_append, not_or]
    exact ⟨hnone, hquiet⟩

/-- Pieces arrive one after another. -/
def arrive (t : WatchTask) (pieces : List ℤ) : WatchTask :=
  { t with service := pieces.foldl WatchService.finishPiece t.service }

theorem havePiece_foldl (s : WatchService) (pieces : List ℤ) (i : ℤ)
    (h : i ∈ pieces ∨ s.havePiece i = true) :
    (pieces.foldl WatchService.finishPiece s).havePiece i = true := by
  induction pieces generalizing s with
  | nil => simpa using h
  | cons piece pieces ih =>
    rw [List.foldl_cons]
    apply ih
    show _ ∨ Function.update s.havePiece piece true i = true
    rw [Function.update_apply]
    rcases h with h | h
    · rcases List.mem_cons.mp h with rfl | h
      · simp
      · exact Or.inl h
    · simp [h]

theorem reachable_arrive (t : WatchTask) (pieces : List ℤ) :
    ((machine E).goingOn t).Reachable (t.arrive pieces) := by
  induction pieces using List.reverseRecOn with
  | nil => exact Machine.Reachable.start rfl
  | append_singleton pieces piece ih =>
    refine ih.next (e := .pieceFinished piece) ?_
    show some _ = some _
    simp [arrive]

/-- **From any state of the loop** the run can go on to `FINISHED`: all pieces arrive, the player
    seeks to the beginning, and the next iteration finishes. -/
theorem finishes_of_loop (hreach : (machine E).Reachable t) (hp : t.point = .loop)
    (hs : t.state ≠ .finished) :
    ∃ t', ((machine E).goingOn t).Reachable t' ∧ t'.state = .finished := by
  obtain ⟨t₁, ht₁⟩ : ∃ t₁, t₁ = t.arrive (Int.range 0 E.numPieces) := ⟨_, rfl⟩
  have h₁ : ((machine E).goingOn t).Reachable t₁ := ht₁ ▸ reachable_arrive t _
  have hinv₁ := inv_of_reachable (hreach.trans h₁)
  have hp₁ : t₁.point = .loop := by rw [ht₁]; exact hp
  have hs₁ : t₁.state ≠ .finished := by rw [ht₁]; exact hs
  have hhad : ∀ i, 0 ≤ i → i < E.numPieces → t₁.service.havePiece i = true := by
    intro i hlo hhi
    rw [ht₁]
    exact havePiece_foldl _ _ i (Or.inl (Int.mem_range_iff.mpr ⟨hlo, hhi⟩))
  have hlast := E.lastPiece_lt
  -- with all pieces had the seek goes on sequentially
  have hstep₂ : t₁.next E (.seek 0) = some (t₁.seek 0).1 := by simp [next, hp₁]
  have hfacts₂ := stepFacts hinv₁ hstep₂
  have hsetup₂ := (hinv₁.seekStep 0).spec.1
  have hstate₂ : (t₁.seek 0).1.state = .sequentialDownload := by
    generalize ht₂ : (t₁.seek 0).1 = t₂
    cases ht₂ ▸ hinv₁.seekStep 0 with
    | finished hs => exact absurd hs hs₁
    | unknown _ hb => exact absurd ((hinv₁.loop hp₁).1.symm.trans hb) (by simp)
    | buffering i p _ hb hhit =>
      obtain ⟨-, -, hpos, hlen, hmiss, -⟩ := hhit
      have hlength := (hinv₁.boundary.resolve_left (by simp [hb])).2
      have hhadi := hhad i (le_of_lt hpos) (by rw [← hlength]; exact hlen)
      exact absurd (hhadi.symm.trans hmiss) (by simp)
    | sequential p _ _ hframe =>
      obtain ⟨ps, dl, -, rfl⟩ := hframe
      rfl
  have h₂ : ((machine E).goingOn t).Reachable (t₁.seek 0).1 := h₁.next (e := .seek 0) hstep₂
  have hp₂ : (t₁.seek 0).1.point = .loop := hsetup₂.1.trans hp₁
  have hb₂ := (hfacts₂.inv.loop hp₂).1
  -- and the iteration finds nothing missing
  have hstep₃ : (t₁.seek 0).1.next E .iterate =
      some ((t₁.seek 0).1.iterate E.firstPiece E.lastPiece) := by
    simp [next, hp₂, hstate₂, hb₂]
  refine ⟨_, h₂.next (e := .iterate) hstep₃,
    (stepFacts hfacts₂.inv hstep₃).finished_iff.mpr (Or.inr ⟨rfl, hstate₂, fun i hlo hhi => ?_⟩)⟩
  rw [hfacts₂.havePiece]
  exact hhad i (by omega) (by omega)

/-- **The order of the messages.**  In every run `VIDEO_PREPARED` is sent at most once and only when
    both ends of the file are had.  In every run without a seek in `PREPARING_FOR_WATCH` the end
    messages come behind it, and so does `FINISHED`.  After such a seek it is never sent, and the
    run can still finish. -/
theorem prepared_of_guard (E : WatchedFile) :
    (∀ t, (machine E).Reachable t → t.PreparedRight E) ∧
    (∀ t, (machine E).RunUnder (fun _ => True) PreparedGuard t → t.OrderRight) ∧
    (∀ t e t', (machine E).Reachable t → ¬t.PreparedGuard e → (machine E).step t e t' →
      (∀ t'', ((machine E).goingOn t').Reachable t'' → .videoPrepared ∉ t''.sent) ∧
      ∃ t'', ((machine E).goingOn t').Reachable t'' ∧ t''.state = .finished) := by
  refine ⟨fun t hreach => (sentInv_of_reachable hreach).right, fun t hrun => ?_, ?_⟩
  · have hboth : t.OrderRight ∧ t.PastPrepared := by
      refine hrun.invariant_reachable (I := fun t => t.OrderRight ∧ t.PastPrepared) ?_ ?_
      · rintro s ⟨service, rfl⟩ -
        exact ⟨⟨by simp [new], by simp [new]⟩, fun hp => absurd hp (by simp [new])⟩
      · intro s e s' hreach h hguard hstep
        exact orderRight_next (inv_of_reachable hreach) (inLoop_of_reachable hreach) h hguard hstep
    exact hboth.1
  · intro t e t' hreach hbreak hstep
    simp only [PreparedGuard, ne_eq, not_forall, not_not] at hbreak
    -- the guard is broken by a seek in `PREPARING_FOR_WATCH` only
    obtain ⟨delta, rfl, hs⟩ := hbreak
    have hreach' := hreach.next hstep
    have hnever := neverPrepared_of_seek (inv_of_reachable hreach) (sentInv_of_reachable hreach)
      hs hstep
    refine ⟨fun t'' hon => ?_, ?_⟩
    · have hon' : t''.NeverPrepared := by
        refine hon.goingOn_invariant_reachable hreach' hnever ?_
        intro s e s' hs hn hst
        exact hn.next (inv_of_reachable hs) (inLoop_of_reachable hs) hst
      exact hon'.2.2
    · by_cases hfin : t'.state = .finished
      · exact ⟨t', Machine.Reachable.start rfl, hfin⟩
      · exact finishes_of_loop hreach' hnever.1 hfin

/-- All of ten pieces are missing when the player seeks to the middle; then all arrive, the buffering
    ends and the download finishes, and the video has never been prepared. -/
theorem finished_unprepared :
    ∃ t, (machine tenPieces).Reachable t ∧ t.state = .finished ∧
      .bufferingFinished ∈ t.sent ∧ .videoPrepared ∉ t.sent := by
  have hrun : (Machine.runEvents (next tenPieces)
      (new ⟨fun _ => false, fun _ => none, 10 * SIZE_MB⟩)
      (startEvents ++ [.seek (1 / 2)] ++ (Int.range 0 10).map .pieceFinished ++
        [.iterate, .iterate])).map
        (fun t => (t.state, decide (.bufferingFinished ∈ t.sent),
          decide (.videoPrepared ∈ t.sent))) = some (.finished, true, false) := by
    decide +kernel
  obtain ⟨t, hreach, heq⟩ := Machine.Reachable.exists_of_runEvents
    (show (machine tenPieces).Reachable _ from .start ⟨_, rfl⟩) hrun
  simp only [Prod.mk.injEq, decide_eq_true_eq, decide_eq_false_iff_not] at heq
  exact ⟨t, hreach, heq⟩

end WatchTask

end PopcornTime.Android
