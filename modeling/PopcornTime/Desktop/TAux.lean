import PopcornTime.Desktop.Torrent
import PopcornTime.Lib.Binary32

namespace PopcornTime.Desktop

open PopcornTime

/-!
# Desktop streamer — `tAux`, the scheduler of one torrent

`TAux` is the source's `struct tAux` with `USE_DEADLINES` on: the piece range of the selected
file, the start-up counts, the seek point and `piecesDeadlines`, one character per piece that
is `'t'` where a deadline has been set.  The constructor is `TAux.new`; `updateDeadlines`,
`canGetUrl` and `isFinished` keep their names.  A result of `none` is the exception that
`piecesDeadlines.at` throws.

* `TAux.For` — the fields the constructor computes from a layout; nothing later changes them.
* `setDeadlines_spec` and `deadlineWindow_spec` — what the two kinds of loop that set deadlines
  do, and what they leave alone (`Frame`).
-/

def PRIORITY_PIECES_COUNT_MIN : ℕ := 5
def MIN_STARTUP_PIECES_START : ℤ := 5
def MIN_STARTUP_PIECES_END : ℤ := 4

structure TAux where
  handle : TorrentHandle
  fileIndex : ℕ
  fileSize : ℤ
  pieceLength : ℤ
  fileFirstPiece : ℤ
  fileLastPiece : ℤ
  startupPiecesCountAtStart : ℤ
  startupPiecesCountAtEnd : ℤ
  fileFirstPieceForDeadlines : ℤ
  piecesCount : ℤ
  pieceForUpdateDeadline : ℤ
  fileVeryFirstPiece : ℤ
  piecesDeadlines : List Char

/-- `static_cast<int>( ceil( float( piecesCount ) / per ) + 0.5 )`, raised to `least`. -/
def startupCount (piecesCount per least : ℤ) : ℤ :=
  let count := Binary32.toInt
    ((⌈Binary32.div (Binary32.ofInt piecesCount) (Binary32.ofInt per)⌉ : ℚ) + 1 / 2)
  if count < least then least else count

namespace TAux

/-- The first start-up loop: `i < fileFirstPiece + startupPiecesCountAtStart` and
    `i < fileLastPiece`, upwards. -/
def startupFirst (t : TAux) : List ℤ :=
  Int.range t.fileFirstPiece (min (t.fileFirstPiece + t.startupPiecesCountAtStart) t.fileLastPiece)

/-- The second start-up loop: `i > fileLastPiece - startupPiecesCountAtEnd` and
    `i > fileFirstPiece`, downwards. -/
def startupLast (t : TAux) : List ℤ :=
  (Int.range (max (t.fileLastPiece - t.startupPiecesCountAtEnd) t.fileFirstPiece + 1)
    (t.fileLastPiece + 1)).reverse

/-- `piecesDeadlines.at(i) = 't'`, `set_piece_deadline` and the next deadline time. -/
def setDeadline (t : TAux) (i : ℤ) : Option TAux := do
  let piecesDeadlines ← put? t.piecesDeadlines i 't'
  some { t with
    handle := t.handle.setPieceDeadline i (t.pieceForUpdateDeadline * 10)
    pieceForUpdateDeadline := t.pieceForUpdateDeadline + 1
    piecesDeadlines := piecesDeadlines }

/-- A start-up loop of the constructor. -/
def setDeadlines (t : TAux) : List ℤ → Option TAux
  | [] => some t
  | i :: is => do (← t.setDeadline i).setDeadlines is

/-- The constructor before its deadline loops.  The loop over `piece_priority` really ends at
    `piecesCount`. -/
def fresh (hndl : TorrentHandle) (index : ℕ) (size : ℤ) : TAux :=
  let fileFirstPiece := (hndl.info.mapFile index 0 1).piece
  -- for an empty file this asks for the byte before it
  let fileLastPiece := (hndl.info.mapFile index (size - 1) 1).piece
  let piecesCount := fileLastPiece - fileFirstPiece + 1
  { handle := (Int.range fileFirstPiece piecesCount).foldl (·.setPiecePriority · 1) hndl
    fileIndex := index
    fileSize := size
    pieceLength := hndl.info.pieceLength
    fileFirstPiece := fileFirstPiece
    fileLastPiece := fileLastPiece
    startupPiecesCountAtStart := startupCount piecesCount 200 MIN_STARTUP_PIECES_START
    startupPiecesCountAtEnd := startupCount piecesCount 400 MIN_STARTUP_PIECES_END
    fileFirstPieceForDeadlines := fileFirstPiece
    piecesCount := piecesCount
    pieceForUpdateDeadline := 1
    fileVeryFirstPiece := fileFirstPiece
    piecesDeadlines := List.replicate (fileLastPiece + 1).toNat 'f' }

/-- The constructor. -/
def new (hndl : TorrentHandle) (index : ℕ) (size : ℤ) : Option TAux := do
  let t := fresh hndl index size
  let t ← t.setDeadlines t.startupFirst
  let t ← t.setDeadlines t.startupLast
  some { t with pieceForUpdateDeadline := t.fileFirstPiece + t.startupPiecesCountAtStart }

/-- The window loop of `updateDeadlines`: every missing piece uses up one of `piecesToSet`,
    and gets a deadline if it has none. -/
def deadlineWindow (t : TAux) : List ℤ → ℕ → Option TAux
  | [], _ => some t
  | _ :: _, 0 => some t
  | i :: is, piecesToSet + 1 =>
    if t.handle.havePiece i then t.deadlineWindow is (piecesToSet + 1)
    else do
      if (← get? t.piecesDeadlines i) = 'f' then
        (← t.setDeadline i).deadlineWindow is piecesToSet
      -- a piece with a deadline keeps it, and uses up one place
      else t.deadlineWindow is piecesToSet

/-- The seek part of `updateDeadlines`: a pending seek point drops every deadline. -/
def takeSeek (t : TAux) (needSeekToThisPiece : ℤ) : TAux :=
  if needSeekToThisPiece ≠ -1 then
    { t with
      fileFirstPieceForDeadlines := needSeekToThisPiece
      handle := t.handle.clearPieceDeadlines
      piecesDeadlines := List.replicate t.piecesDeadlines.length 'f' }
  else t

/-- `updateDeadlines`; the second component is the seek request it leaves pending. -/
def updateDeadlines (t : TAux) (downloadedPieceIndex needSeekToThisPiece : ℤ) :
    Option (TAux × ℤ) :=
  if ¬t.handle.valid then some (t, needSeekToThisPiece)
  else do
    let t := t.takeSeek needSeekToThisPiece
    let startupBegin := t.startupFirst.any (fun i => !t.handle.havePiece i)
    let startupEnd := t.startupLast.any (fun i => !t.handle.havePiece i)
    -- the mark of the piece that has come
    let piecesDeadlines ← put? t.piecesDeadlines downloadedPieceIndex 'f'
    let t := { t with piecesDeadlines := piecesDeadlines }
    if !startupEnd && !startupBegin then
      let t ← t.deadlineWindow (Int.range t.fileFirstPieceForDeadlines t.fileLastPiece)
        PRIORITY_PIECES_COUNT_MIN
      some (t, -1)
    else some (t, -1)

/-- The bits the two loops of `canGetUrl` run over. -/
def urlBits (t : TAux) : List ℤ :=
  Int.range t.fileFirstPiece (t.fileFirstPiece + t.startupPiecesCountAtStart) ++
    (Int.range (t.fileLastPiece - t.startupPiecesCountAtEnd + 1) (t.fileLastPiece + 1)).reverse

/-- `canGetUrl`. -/
def canGetUrl (t : TAux) : Bool :=
  t.handle.valid && t.urlBits.all t.handle.havePiece

/-- The bits `canGetUrl` really tests: it returns at the first one that is not set. -/
def testedBits (t : TAux) : List ℤ :=
  t.urlBits.takeWhile t.handle.havePiece ++
    (t.urlBits.dropWhile t.handle.havePiece).head?.toList

/-- `isFinished`; its loop really ends before `fileLastPiece`. -/
def isFinished (t : TAux) : Bool :=
  t.handle.valid && (Int.range t.fileFirstPiece t.fileLastPiece).all t.handle.havePiece

/-! ### What the constructor computes -/

/-- The fields of `tAux` that the constructor derives from the layout. -/
structure For (L : Layout) (t : TAux) : Prop where
  valid : t.handle.valid = true
  fileSize : t.fileSize = L.fileSize
  pieceLength : t.pieceLength = L.len
  fileFirstPiece : t.fileFirstPiece = L.firstPiece
  fileVeryFirstPiece : t.fileVeryFirstPiece = L.firstPiece
  fileLastPiece : t.fileLastPiece = L.lastPiece
  startupPiecesCountAtStart : t.startupPiecesCountAtStart =
    startupCount (L.lastPiece - L.firstPiece + 1) 200 MIN_STARTUP_PIECES_START
  startupPiecesCountAtEnd : t.startupPiecesCountAtEnd =
    startupCount (L.lastPiece - L.firstPiece + 1) 400 MIN_STARTUP_PIECES_END
  length_piecesDeadlines : t.piecesDeadlines.length = (L.lastPiece + 1).toNat

/-- `t` with the deadline bookkeeping of `d`. -/
def withDeadlines (t d : TAux) : TAux :=
  { t with
    handle := { t.handle with deadline := d.handle.deadline }
    pieceForUpdateDeadline := d.pieceForUpdateDeadline
    piecesDeadlines := d.piecesDeadlines }

/-- `t'` differs from `t` in the deadline bookkeeping only. -/
def Frame (t t' : TAux) : Prop :=
  t' = t.withDeadlines t' ∧ t'.piecesDeadlines.length = t.piecesDeadlines.length

theorem Frame.refl (t : TAux) : Frame t t := ⟨rfl, rfl⟩

/-- Two changes of the deadline bookkeeping are one. -/
theorem Frame.trans {t t' t'' : TAux} (h : Frame t t') (h' : Frame t' t'') : Frame t t'' := by
  refine ⟨?_, h'.2.trans h.2⟩
  calc t'' = t'.withDeadlines t'' := h'.1
    _ = (t.withDeadlines t').withDeadlines t'' := congrArg (withDeadlines · t'') h.1
    _ = t.withDeadlines t'' := rfl

/-- The deadline bookkeeping leaves the pieces that are had. -/
theorem Frame.havePiece {t t' : TAux} (h : Frame t t') :
    t'.handle.havePiece = t.handle.havePiece := by
  rw [h.1]; rfl

/-- It leaves the seek point. -/
theorem Frame.fileFirstPieceForDeadlines {t t' : TAux} (h : Frame t t') :
    t'.fileFirstPieceForDeadlines = t.fileFirstPieceForDeadlines := by
  rw [h.1]; rfl

/-- The first start-up loop is the same behind a change of deadlines. -/
theorem Frame.startupFirst {t t' : TAux} (h : Frame t t') :
    t'.startupFirst = t.startupFirst := by
  rw [h.1]; rfl

/-- So is the second one. -/
theorem Frame.startupLast {t t' : TAux} (h : Frame t t') : t'.startupLast = t.startupLast := by
  rw [h.1]; rfl

/-- The fields of `For` survive a change of deadlines. -/
theorem For.of_frame {L : Layout} {t t' : TAux} (hfor : For L t) (h : Frame t t') : For L t' := by
  have hlen : t'.piecesDeadlines.length = (L.lastPiece + 1).toNat :=
    h.2.trans hfor.length_piecesDeadlines
  refine ⟨?_, ?_, ?_, ?_, ?_, ?_, ?_, ?_, hlen⟩ <;> rw [h.1]
  · exact hfor.valid
  · exact hfor.fileSize
  · exact hfor.pieceLength
  · exact hfor.fileFirstPiece
  · exact hfor.fileVeryFirstPiece
  · exact hfor.fileLastPiece
  · exact hfor.startupPiecesCountAtStart
  · exact hfor.startupPiecesCountAtEnd

/-! ### The loops that set deadlines -/

/-- `piecesDeadlines` holds a `'t'` or a `'f'` for every piece, the `'t'` exactly where a
    deadline is outstanding. -/
structure Synced (t : TAux) : Prop where
  marked : ∀ i, get? t.piecesDeadlines i = some 't' ↔ (t.handle.deadline i).isSome
  total : ∀ i : ℤ, 0 ≤ i → i < t.piecesDeadlines.length →
    get? t.piecesDeadlines i = some 't' ∨ get? t.piecesDeadlines i = some 'f'

/-- One mark is written, and the deadline of its piece set or cleared along with it. -/
theorem Synced.set {t t' : TAux} {i : ℤ} {mark : Char} (hs : t.Synced) (h₀ : 0 ≤ i)
    (h₁ : i < t.piecesDeadlines.length) (hmark : mark = 't' ∨ mark = 'f')
    (hmarks : t'.piecesDeadlines = t.piecesDeadlines.set i.toNat mark)
    (hself : mark = 't' ↔ (t'.handle.deadline i).isSome)
    (hother : ∀ j, j ≠ i → t'.handle.deadline j = t.handle.deadline j) : t'.Synced where
  marked := by
    intro j
    rw [hmarks, get?_set h₀ h₁]
    by_cases hj : j = i
    · rw [if_pos hj, hj, Option.some.injEq]
      exact hself
    · rw [if_neg hj, hother j hj]
      exact hs.marked j
  total := by
    intro j hj₀ hj₁
    rw [hmarks, get?_set h₀ h₁]
    by_cases hj : j = i
    · rw [if_pos hj]
      exact hmark.imp (congrArg some) (congrArg some)
    · rw [if_neg hj]
      exact hs.total j hj₀ (lt_of_lt_of_eq hj₁ (by rw [hmarks, List.length_set]))

/-- One set deadline, for an index inside `piecesDeadlines`. -/
theorem setDeadline_spec {t : TAux} {i : ℤ} (h₀ : 0 ≤ i) (h₁ : i < t.piecesDeadlines.length) :
    ∃ t', t.setDeadline i = some t' ∧ Frame t t' ∧ (t.Synced → t'.Synced) ∧
      ∀ j, (t'.handle.deadline j).isSome ↔ (t.handle.deadline j).isSome ∨ j = i := by
  have hput := put?_eq_some (a := 't') h₀ h₁
  refine ⟨_, by rw [setDeadline, hput]; rfl, ⟨rfl, List.length_set⟩, fun hs => ?_, fun j => ?_⟩
  · refine hs.set h₀ h₁ (Or.inl rfl) rfl (iff_of_true rfl ?_) fun j hj => ?_
    · show (Function.update t.handle.deadline i _ i).isSome
      rw [Function.update_self]
      rfl
    · exact Function.update_of_ne hj _ _
  · show (Function.update t.handle.deadline i _ j).isSome ↔ _
    by_cases hj : j = i
    · simp [hj]
    · simp [hj]

/-- A loop over indices inside `piecesDeadlines` gives each of them a deadline. -/
theorem setDeadlines_spec {is : List ℤ} {t : TAux}
    (his : ∀ i ∈ is, 0 ≤ i ∧ i < t.piecesDeadlines.length) :
    ∃ t', t.setDeadlines is = some t' ∧ Frame t t' ∧ (t.Synced → t'.Synced) ∧
      ∀ j, (t'.handle.deadline j).isSome ↔ (t.handle.deadline j).isSome ∨ j ∈ is := by
  induction is generalizing t with
  | nil => exact ⟨t, rfl, Frame.refl t, id, fun j => by simp⟩
  | cons i is ih =>
    obtain ⟨h₀, h₁⟩ := his i (by simp)
    obtain ⟨t₁, hset, hframe, hsync, hdl⟩ := setDeadline_spec h₀ h₁
    have his₁ : ∀ j ∈ is, 0 ≤ j ∧ j < t₁.piecesDeadlines.length := by
      intro j hj
      rw [hframe.2]
      exact his j (by simp [hj])
    -- the frame keeps the length, so the other indices stay in range
    obtain ⟨t₂, hset₂, hframe₂, hsync₂, hdl₂⟩ := ih his₁
    refine ⟨t₂, ?_, hframe.trans hframe₂, fun hs => hsync₂ (hsync hs), ?_⟩
    · rw [setDeadlines, hset]
      exact hset₂
    · intro j
      rw [hdl₂ j, hdl j, List.mem_cons, or_assoc]

/-- The window comes upon a missing piece: it has its deadline already, or is given one. -/
theorem deadlineWindow_missing {t : TAux} {k : ℤ} (is : List ℤ) (n : ℕ) (h₀ : 0 ≤ k)
    (h₁ : k < t.piecesDeadlines.length) (hsync : t.Synced) (hk : ¬t.handle.havePiece k = true) :
    ∃ t₁, t.deadlineWindow (k :: is) (n + 1) = t₁.deadlineWindow is n ∧ Frame t t₁ ∧ t₁.Synced ∧
      ∀ j, (t₁.handle.deadline j).isSome ↔ (t.handle.deadline j).isSome ∨ j = k := by
  rcases hsync.total k h₀ h₁ with hc | hc
  · have hset : (t.handle.deadline k).isSome := (hsync.marked k).mp hc
    refine ⟨t, ?_, Frame.refl t, hsync, fun j => ⟨Or.inl, ?_⟩⟩
    · rw [deadlineWindow, if_neg hk, hc]
      rfl
    · rintro (hj | rfl)
      · exact hj
      · exact hset
  · obtain ⟨t₁, hset, hframe, hs, hdl⟩ := setDeadline_spec h₀ h₁
    refine ⟨t₁, ?_, hframe, hs hsync, hdl⟩
    rw [deadlineWindow, if_neg hk, hc]
    simp only [Option.bind_eq_bind, Option.bind_some, if_true, hset]

/-- **The window.**  The loop never leaves `piecesDeadlines`, keeps it in step with the
    outstanding deadlines, drops none, sets none elsewhere, and reaches every missing piece that
    has fewer than `piecesToSet` missing pieces before it. -/
theorem deadlineWindow_spec {is : List ℤ} {t : TAux} {n : ℕ}
    (his : ∀ i ∈ is, 0 ≤ i ∧ i < t.piecesDeadlines.length) (hsync : t.Synced) :
    ∃ t', t.deadlineWindow is n = some t' ∧ Frame t t' ∧ t'.Synced ∧
      (∀ j, (t.handle.deadline j).isSome → (t'.handle.deadline j).isSome) ∧
      (∀ j, (t'.handle.deadline j).isSome → (t.handle.deadline j).isSome ∨ j ∈ is) ∧
      (∀ pre i post, is = pre ++ i :: post → t.handle.havePiece i = false →
        (pre.filter (fun j => !t.handle.havePiece j)).length < n →
        (t'.handle.deadline i).isSome) := by
  induction is generalizing t n with
  | nil =>
    refine ⟨t, by rw [deadlineWindow], Frame.refl t, hsync, fun _ h => h, fun _ h => Or.inl h, ?_⟩
    intro pre i post h
    exact absurd h (by simp)
  | cons k is ih =>
    obtain ⟨h₀, h₁⟩ := his k (by simp)
    cases n with
    | zero =>
      exact ⟨t, by rw [deadlineWindow], Frame.refl t, hsync, fun _ h => h, fun _ h => Or.inl h,
        fun _ _ _ _ _ h => absurd h (by simp)⟩
    | succ n =>
      by_cases hk : t.handle.havePiece k
      · -- a had piece is skipped and costs nothing
        obtain ⟨t', hw, hframe, hs, hmono, honly, hcover⟩ :=
          ih (n := n + 1) (fun i hi => his i (by simp [hi])) hsync
        refine ⟨t', by rw [deadlineWindow, if_pos hk, hw], hframe, hs, hmono,
          fun j hj => (honly j hj).imp_right (List.mem_cons_of_mem k), ?_⟩
        intro pre i post heq hmiss hlt
        cases pre with
        | nil =>
          simp only [List.nil_append, List.cons.injEq] at heq
          rw [← heq.1, hk] at hmiss
          exact absurd hmiss (by simp)
        | cons p pre =>
          simp only [List.cons_append, List.cons.injEq] at heq
          rw [← heq.1, List.filter_cons_of_neg (by simp [hk])] at hlt
          exact hcover pre i post heq.2 hmiss hlt
      · -- a missing piece has a deadline afterwards, and costs one
        obtain ⟨t₁, hstep, hframe₁, hs₁, hdl₁⟩ := deadlineWindow_missing is n h₀ h₁ hsync hk
        have his₁ : ∀ i ∈ is, 0 ≤ i ∧ i < t₁.piecesDeadlines.length := by
          intro i hi
          rw [hframe₁.2]
          exact his i (by simp [hi])
        obtain ⟨t', hw, hframe, hs, hmono, honly, hcover⟩ := ih (n := n) his₁ hs₁
        refine ⟨t', hstep.trans hw, hframe₁.trans hframe, hs,
          fun j hj => hmono j ((hdl₁ j).mpr (Or.inl hj)), ?_, ?_⟩
        · intro j hj
          rw [List.mem_cons, ← or_assoc, ← hdl₁ j]
          exact honly j hj
        intro pre i post heq hmiss hlt
        cases pre with
        | nil =>
          simp only [List.nil_append, List.cons.injEq] at heq
          rw [← heq.1]
          exact hmono k ((hdl₁ k).mpr (Or.inr rfl))
        | cons p pre =>
          simp only [List.cons_append, List.cons.injEq] at heq
          rw [← heq.1, List.filter_cons_of_pos (by simp [hk]), List.length_cons] at hlt
          rw [← hframe₁.havePiece] at hmiss hlt
          exact hcover pre i post heq.2 hmiss (by omega)

/-! ### The start-up pieces -/

/-- A start-up count is raised to its least value. -/
theorem startupCount_ge (piecesCount per least : ℤ) : least ≤ startupCount piecesCount per least := by
  unfold startupCount
  dsimp only
  split_ifs <;> omega

/-- The first start-up loop stays below the last piece of the file. -/
theorem mem_startupFirst {t : TAux} {i : ℤ} :
    i ∈ t.startupFirst ↔ t.fileFirstPiece ≤ i ∧
      i < t.fileFirstPiece + t.startupPiecesCountAtStart ∧ i < t.fileLastPiece := by
  rw [startupFirst, Int.mem_range_iff, lt_min_iff]

/-- The second start-up loop stays above the first piece of the file. -/
theorem mem_startupLast {t : TAux} {i : ℤ} :
    i ∈ t.startupLast ↔ t.fileLastPiece - t.startupPiecesCountAtEnd < i ∧
      t.fileFirstPiece < i ∧ i ≤ t.fileLastPiece := by
  rw [startupLast, List.mem_reverse, Int.mem_range_iff]
  omega

end TAux

namespace Layout

variable (L : Layout)

/-- The number of pieces the selected file has a byte in. -/
def piecesCount : ℤ := L.lastPiece - L.firstPiece + 1

/-- The start-up counts of the file. -/
def startCount : ℤ := startupCount L.piecesCount 200 MIN_STARTUP_PIECES_START

def endCount : ℤ := startupCount L.piecesCount 400 MIN_STARTUP_PIECES_END

/-- Five pieces at least are start-up pieces at the start, -/
theorem startCount_ge : 5 ≤ L.startCount := TAux.startupCount_ge _ _ _

/-- and four at the end. -/
theorem endCount_ge : 4 ≤ L.endCount := TAux.startupCount_ge _ _ _

/-- The start-up pieces: the first `startupPiecesCountAtStart` and the last
    `startupPiecesCountAtEnd` pieces, clamped to the file's own range. -/
def StartupPiece (i : ℤ) : Prop :=
  (L.firstPiece ≤ i ∧ i ≤ L.lastPiece) ∧
    (i < L.firstPiece + startupCount L.piecesCount 200 MIN_STARTUP_PIECES_START ∨
      L.lastPiece - startupCount L.piecesCount 400 MIN_STARTUP_PIECES_END < i)

end Layout

namespace TAux

/-- On a file of two or more pieces the two start-up loops run over the start-up pieces. -/
theorem For.mem_startup_iff {L : Layout} {t : TAux} (hfor : For L t)
    (h : L.firstPiece < L.lastPiece) (i : ℤ) :
    i ∈ t.startupFirst ∨ i ∈ t.startupLast ↔ L.StartupPiece i := by
  have hs := startupCount_ge L.piecesCount 200 MIN_STARTUP_PIECES_START
  have he := startupCount_ge L.piecesCount 400 MIN_STARTUP_PIECES_END
  rw [mem_startupFirst, mem_startupLast, hfor.fileFirstPiece, hfor.fileLastPiece,
    hfor.startupPiecesCountAtStart, hfor.startupPiecesCountAtEnd]
  unfold Layout.StartupPiece
  unfold MIN_STARTUP_PIECES_START at *
  unfold MIN_STARTUP_PIECES_END at *
  unfold Layout.piecesCount at *
  omega

/-- On a file of one piece both start-up loops are empty. -/
theorem For.startup_eq_nil {L : Layout} {t : TAux} (hfor : For L t)
    (h : L.lastPiece ≤ L.firstPiece) : t.startupFirst = [] ∧ t.startupLast = [] := by
  simp only [List.eq_nil_iff_forall_not_mem, mem_startupFirst, mem_startupLast,
    hfor.fileFirstPiece, hfor.fileLastPiece]
  constructor <;> intro i <;> omega

/-- Every index the start-up loops run over is inside `piecesDeadlines`. -/
theorem For.startup_mem_range {L : Layout} {t : TAux} (hfor : For L t) {i : ℤ}
    (h : i ∈ t.startupFirst ∨ i ∈ t.startupLast) :
    0 ≤ i ∧ i < t.piecesDeadlines.length := by
  have hnonneg := L.firstPiece_nonneg
  rw [mem_startupFirst, mem_startupLast, hfor.fileFirstPiece, hfor.fileLastPiece] at h
  rw [hfor.length_piecesDeadlines]
  omega

/-! ### The constructor -/

/-- A loop that sets piece priorities leaves the rest of the handle. -/
theorem foldl_setPiecePriority (is : List ℤ) (h : TorrentHandle) :
    (is.foldl (·.setPiecePriority · 1) h) =
      { h with piecePriority := (is.foldl (·.setPiecePriority · 1) h).piecePriority } := by
  induction is generalizing h with
  | nil => rfl
  | cons i is ih =>
    rw [List.foldl_cons, ih]
    rfl

/-- The pieces that such a loop runs over have priority one, the others what they had. -/
theorem foldl_setPiecePriority_apply (is : List ℤ) (h : TorrentHandle) (j : ℤ) :
    (is.foldl (·.setPiecePriority · 1) h).piecePriority j =
      if j ∈ is then 1 else h.piecePriority j := by
  induction is generalizing h with
  | nil => rfl
  | cons i is ih =>
    rw [List.foldl_cons, ih]
    show (if j ∈ is then 1 else Function.update h.piecePriority i 1 j) = _
    by_cases hji : j = i
    · simp [hji]
    · simp [hji]

/-- Before its loops the constructor has only set piece priorities. -/
theorem fresh_handle (hndl : TorrentHandle) (index : ℕ) (size : ℤ) :
    (fresh hndl index size).handle =
      { hndl with piecePriority := (fresh hndl index size).handle.piecePriority } :=
  foldl_setPiecePriority _ hndl

/-- The constructor computes the fields of the layout before its loops. -/
theorem fresh_for (L : Layout) {hndl : TorrentHandle} (hinfo : hndl.info = L.storage)
    (hvalid : hndl.valid = true) : For L (fresh hndl L.fileIndex L.fileSize) := by
  have hfirst : (fresh hndl L.fileIndex L.fileSize).fileFirstPiece = L.firstPiece := by
    show (hndl.info.mapFile _ _ _).piece = _
    rw [hinfo]; rfl
  have hlast : (fresh hndl L.fileIndex L.fileSize).fileLastPiece = L.lastPiece := by
    show (hndl.info.mapFile _ _ _).piece = _
    rw [hinfo]; rfl
  refine ⟨?_, rfl, ?_, hfirst, hfirst, hlast, ?_, ?_, ?_⟩
  · rw [fresh_handle]
    exact hvalid
  · show hndl.info.pieceLength = _
    rw [hinfo]; rfl
  · rw [← hfirst, ← hlast]; rfl
  · rw [← hfirst, ← hlast]; rfl
  · rw [← hlast]
    exact List.length_replicate

/-- Before the loops no piece is marked; the torrent must not have deadlines then. -/
theorem fresh_synced {hndl : TorrentHandle} {index : ℕ} {size : ℤ}
    (hnone : ∀ i, hndl.deadline i = none) : (fresh hndl index size).Synced := by
  have hdl : ∀ i, (fresh hndl index size).handle.deadline i = none := by
    intro i
    rw [fresh_handle]
    exact hnone i
  constructor
  · intro i
    show get? (List.replicate _ 'f') i = some 't' ↔ _
    rw [get?_replicate, hdl i]
    split_ifs <;> simp
  · intro i h₀ h₁
    refine Or.inr ?_
    show get? (List.replicate _ 'f') i = some 'f'
    rw [get?_replicate]
    exact if_pos ⟨h₀, lt_of_lt_of_eq h₁ (by rw [fresh, List.length_replicate])⟩

/-- The constructor does not throw, whatever deadlines the handle has. -/
theorem exists_new (L : Layout) (hndl : TorrentHandle) (hinfo : hndl.info = L.storage)
    (hvalid : hndl.valid = true) : ∃ t, new hndl L.fileIndex L.fileSize = some t := by
  have hfor := fresh_for L hinfo hvalid
  obtain ⟨t₁, h₁, hframe₁, -⟩ := setDeadlines_spec
    (fun i hi => hfor.startup_mem_range (Or.inl hi))
  have hfor₁ := hfor.of_frame hframe₁
  obtain ⟨t₂, h₂, -⟩ := setDeadlines_spec
    (fun i hi => hfor₁.startup_mem_range (Or.inr hi))
  refine ⟨{ t₂ with pieceForUpdateDeadline := t₂.fileFirstPiece + t₂.startupPiecesCountAtStart }, ?_⟩
  simp only [new, h₁, Option.bind_eq_bind, Option.bind_some, h₂]

/-- **The constructor** never leaves `piecesDeadlines` and sets a deadline on exactly the
    pieces of the two start-up loops. -/
theorem new_spec (L : Layout) (hndl : TorrentHandle) (hinfo : hndl.info = L.storage)
    (hvalid : hndl.valid = true) (hnone : ∀ i, hndl.deadline i = none) :
    ∃ t, new hndl L.fileIndex L.fileSize = some t ∧ For L t ∧ t.Synced ∧
      t.handle.havePiece = hndl.havePiece ∧ t.fileFirstPieceForDeadlines = L.firstPiece ∧
      ∀ j, (t.handle.deadline j).isSome ↔ j ∈ t.startupFirst ∨ j ∈ t.startupLast := by
  -- the constructor sets the deadlines of both ends, one loop after the other
  have hfor := fresh_for L hinfo hvalid
  obtain ⟨t₁, h₁, hframe₁, hs₁, hdl₁⟩ := setDeadlines_spec
    (fun i hi => hfor.startup_mem_range (Or.inl hi))
  have hfor₁ := hfor.of_frame hframe₁
  obtain ⟨t₂, h₂, hframe₂, hs₂, hdl₂⟩ := setDeadlines_spec
    (fun i hi => hfor₁.startup_mem_range (Or.inr hi))
  have hfor₂ := hfor₁.of_frame hframe₂
  have hframe := hframe₁.trans hframe₂
  refine ⟨{ t₂ with pieceForUpdateDeadline := t₂.fileFirstPiece + t₂.startupPiecesCountAtStart },
    ?_, ?_, ?_, ?_, ?_, ?_⟩
  · simp only [new, h₁, Option.bind_eq_bind, Option.bind_some, h₂]
  · exact ⟨hfor₂.valid, hfor₂.fileSize, hfor₂.pieceLength, hfor₂.fileFirstPiece,
      hfor₂.fileVeryFirstPiece, hfor₂.fileLastPiece, hfor₂.startupPiecesCountAtStart,
      hfor₂.startupPiecesCountAtEnd, hfor₂.length_piecesDeadlines⟩
  · have hs := hs₂ (hs₁ (fresh_synced hnone))
    exact ⟨hs.marked, hs.total⟩
  · show t₂.handle.havePiece = _
    rw [hframe.havePiece, fresh_handle]
  · exact hframe.fileFirstPieceForDeadlines.trans hfor.fileFirstPiece
  · intro j
    show (t₂.handle.deadline j).isSome ↔ j ∈ t₂.startupFirst ∨ j ∈ t₂.startupLast
    have hnone₀ : ((fresh hndl L.fileIndex L.fileSize).handle.deadline j) = none := by
      rw [fresh_handle]
      exact hnone j
    rw [hdl₂ j, hdl₁ j, hnone₀, hframe.startupFirst, hframe₂.startupLast]
    simp

/-- The start-up loops change deadlines only. -/
theorem setDeadlines_handle {is : List ℤ} {t t' : TAux} (h : t.setDeadlines is = some t') :
    t'.handle = { t.handle with deadline := t'.handle.deadline } := by
  induction is generalizing t with
  | nil =>
    rw [setDeadlines, Option.some.injEq] at h
    rw [h]
  | cons i is ih =>
    simp only [setDeadlines, setDeadline, Option.bind_eq_bind, Option.bind_eq_some_iff,
      Option.some.injEq] at h
    obtain ⟨t₁, ⟨marks, -, rfl⟩, h⟩ := h
    have hrest := ih h
    exact hrest

/-- The constructor changes priorities before its loops and deadlines in them, and nothing else of
    the handle. -/
theorem new_handle {hndl : TorrentHandle} {index : ℕ} {size : ℤ} {t : TAux}
    (h : new hndl index size = some t) :
    t.handle = { (fresh hndl index size).handle with deadline := t.handle.deadline } := by
  simp only [new, Option.bind_eq_bind, Option.bind_eq_some_iff, Option.some.injEq] at h
  obtain ⟨t₁, h₁, t₂, h₂, rfl⟩ := h
  show t₂.handle = _
  rw [setDeadlines_handle h₂, setDeadlines_handle h₁]

/-- The pieces from the first one of the file up to the number of its pieces get priority one. -/
theorem new_piecePriority (L : Layout) {hndl : TorrentHandle} {t : TAux}
    (hinfo : hndl.info = L.storage) (h : new hndl L.fileIndex L.fileSize = some t) (i : ℤ) :
    t.handle.piecePriority i =
      if L.firstPiece ≤ i ∧ i < L.piecesCount then 1 else hndl.piecePriority i := by
  rw [new_handle h]
  show ((Int.range (hndl.info.mapFile _ _ _).piece _).foldl (·.setPiecePriority · 1)
    hndl).piecePriority i = _
  have hfirst : (hndl.info.mapFile L.fileIndex 0 1).piece = L.firstPiece := by rw [hinfo]; rfl
  have hlast : (hndl.info.mapFile L.fileIndex (L.fileSize - 1) 1).piece = L.lastPiece := by
    rw [hinfo]; rfl
  rw [foldl_setPiecePriority_apply, hfirst, hlast]
  simp only [Int.mem_range_iff]
  rfl

/-- The constructor leaves the info of the torrent. -/
theorem new_info {hndl : TorrentHandle} {index : ℕ} {size : ℤ} {t : TAux}
    (h : new hndl index size = some t) : t.handle.info = hndl.info := by
  rw [new_handle h]
  show (fresh hndl index size).handle.info = _
  rw [fresh_handle]

/-- A freshly added torrent has no deadlines. -/
theorem new_freshHandle (L : Layout) (had : ℤ → Bool) :
    ∃ t, new (L.freshHandle had) L.fileIndex L.fileSize = some t ∧ For L t ∧
      t.handle.havePiece = had := by
  obtain ⟨t, hnew, hfor, -, hhad, -⟩ :=
    new_spec L (L.freshHandle had) rfl rfl (fun _ => rfl)
  exact ⟨t, hnew, hfor, hhad⟩

/-! ### `updateDeadlines` -/

@[simp] theorem takeSeek_none (t : TAux) : t.takeSeek (-1) = t :=
  if_neg (by simp)

/-- A pending seek drops all deadlines and their marks. -/
theorem takeSeek_some (t : TAux) {n : ℤ} (h : n ≠ -1) :
    t.takeSeek n = { t with
      fileFirstPieceForDeadlines := n
      handle := t.handle.clearPieceDeadlines
      piecesDeadlines := List.replicate t.piecesDeadlines.length 'f' } :=
  if_pos h

@[simp] theorem takeSeek_havePiece (t : TAux) (n : ℤ) :
    (t.takeSeek n).handle.havePiece = t.handle.havePiece := by
  unfold takeSeek; split_ifs <;> rfl

@[simp] theorem takeSeek_startupFirst (t : TAux) (n : ℤ) :
    (t.takeSeek n).startupFirst = t.startupFirst := by
  unfold takeSeek; split_ifs <;> rfl

@[simp] theorem takeSeek_startupLast (t : TAux) (n : ℤ) :
    (t.takeSeek n).startupLast = t.startupLast := by
  unfold takeSeek; split_ifs <;> rfl

@[simp] theorem takeSeek_length (t : TAux) (n : ℤ) :
    (t.takeSeek n).piecesDeadlines.length = t.piecesDeadlines.length := by
  unfold takeSeek; split_ifs <;> simp

/-- It leaves the fields of the layout. -/
theorem For.takeSeek {L : Layout} {t : TAux} (h : For L t) (n : ℤ) : For L (t.takeSeek n) := by
  have hlen := (t.takeSeek_length n).trans h.length_piecesDeadlines
  refine ⟨?_, ?_, ?_, ?_, ?_, ?_, ?_, ?_, hlen⟩ <;> unfold TAux.takeSeek <;> split_ifs
  all_goals first
    | exact h.valid | exact h.fileSize | exact h.pieceLength | exact h.fileFirstPiece
    | exact h.fileVeryFirstPiece | exact h.fileLastPiece | exact h.startupPiecesCountAtStart
    | exact h.startupPiecesCountAtEnd

/-- A start-up piece is still missing, in the sense of the two loops. -/
def StartupMissing (t : TAux) : Prop :=
  ∃ i, (i ∈ t.startupFirst ∨ i ∈ t.startupLast) ∧ t.handle.havePiece i = false

/-- It leaves the start-up pieces that are missing. -/
theorem takeSeek_startupMissing (t : TAux) (n : ℤ) :
    (t.takeSeek n).StartupMissing ↔ t.StartupMissing := by
  unfold StartupMissing
  rw [takeSeek_startupFirst, takeSeek_startupLast, takeSeek_havePiece]

/-- The two loops of `updateDeadlines` find a start-up piece that is missing, if there is one. -/
theorem startup_any_iff (t : TAux) :
    (!t.startupLast.any (fun i => !t.handle.havePiece i) &&
      !t.startupFirst.any (fun i => !t.handle.havePiece i)) = true ↔ ¬t.StartupMissing := by
  unfold StartupMissing
  simp only [Bool.and_eq_true, Bool.not_eq_true', List.any_eq_false, Bool.not_eq_true',
    Bool.not_eq_false, not_exists, not_and]
  constructor
  · rintro ⟨hlast, hfirst⟩ i (hi | hi)
    · simpa using hfirst i hi
    · simpa using hlast i hi
  · intro h
    exact ⟨fun i hi => by simpa using h i (Or.inr hi), fun i hi => by simpa using h i (Or.inl hi)⟩

/-- `t` after `piecesDeadlines.at(d) = 'f'`, for an index in range. -/
def unmarked (t : TAux) (d : ℤ) : TAux :=
  { t with piecesDeadlines := t.piecesDeadlines.set d.toNat 'f' }

/-- **`updateDeadlines`** on a valid handle, with both its arguments in range: it never leaves
    `piecesDeadlines` and takes the pending seek.  While a start-up piece is missing it sets
    no deadline; after that the window from the seek point on is covered, and nothing outside
    it. -/
theorem updateDeadlines_spec {L : Layout} {t : TAux} {d n : ℤ} (hfor : For L t)
    (hd₀ : 0 ≤ d) (hd₁ : d < t.piecesDeadlines.length)
    (hseek : 0 ≤ (t.takeSeek n).fileFirstPieceForDeadlines)
    (hsync : ((t.takeSeek n).unmarked d).Synced) :
    ∃ t', t.updateDeadlines d n = some (t', -1) ∧ Frame (t.takeSeek n) t' ∧ t'.Synced ∧
      (∀ j, ((t.takeSeek n).handle.deadline j).isSome → (t'.handle.deadline j).isSome) ∧
      (t.StartupMissing → t'.handle.deadline = (t.takeSeek n).handle.deadline) ∧
      (∀ j, (t'.handle.deadline j).isSome → ((t.takeSeek n).handle.deadline j).isSome ∨
        j ∈ Int.range (t.takeSeek n).fileFirstPieceForDeadlines L.lastPiece) ∧
      (¬t.StartupMissing → ∀ pre i post,
        Int.range (t.takeSeek n).fileFirstPieceForDeadlines L.lastPiece = pre ++ i :: post →
        t.handle.havePiece i = false →
        (pre.filter (fun j => !t.handle.havePiece j)).length < PRIORITY_PIECES_COUNT_MIN →
        (t'.handle.deadline i).isSome) := by
  have hput := put?_eq_some (a := 'f') hd₀
    (lt_of_lt_of_eq hd₁ (congrArg _ (t.takeSeek_length n).symm))
  have hmissing := takeSeek_startupMissing t n
  have hcond := startup_any_iff (t.takeSeek n)
  rw [hmissing] at hcond
  have hvalid : ¬¬t.handle.valid = true := not_not.mpr hfor.valid
  have hframe₀ : Frame (t.takeSeek n) ((t.takeSeek n).unmarked d) := ⟨rfl, List.length_set⟩
  -- while a start-up piece is missing only the mark of `d` changes
  by_cases hmiss : t.StartupMissing
  · refine ⟨_, ?_, hframe₀, hsync, fun _ h => h, fun _ => rfl, fun _ h => Or.inl h,
      fun h => absurd hmiss h⟩
    rw [updateDeadlines, if_neg hvalid]
    simp only [hput, Option.bind_eq_bind, Option.bind_some]
    rw [if_neg (fun h => hcond.mp h hmiss)]
    rfl
  · -- start-up is over: the window runs, and its indices are in range
    have hrange : ∀ i ∈ Int.range (t.takeSeek n).fileFirstPieceForDeadlines L.lastPiece,
        0 ≤ i ∧ i < ((t.takeSeek n).unmarked d).piecesDeadlines.length := by
      intro i hi
      rw [Int.mem_range_iff] at hi
      rw [hframe₀.2, takeSeek_length, hfor.length_piecesDeadlines]
      omega
    obtain ⟨t', hw, hframe, hs, hmono, honly, hcover⟩ :=
      deadlineWindow_spec (n := PRIORITY_PIECES_COUNT_MIN) hrange hsync
    refine ⟨t', ?_, hframe₀.trans hframe, hs, hmono, fun h => absurd h hmiss, honly,
      fun _ => ?_⟩
    · rw [updateDeadlines, if_neg hvalid]
      simp only [hput, Option.bind_eq_bind, Option.bind_some]
      rw [if_pos (hcond.mpr hmiss)]
      show (((t.takeSeek n).unmarked d).deadlineWindow (Int.range
        (t.takeSeek n).fileFirstPieceForDeadlines (t.takeSeek n).fileLastPiece) _).bind _ = _
      rw [(hfor.takeSeek n).fileLastPiece, hw]
      rfl
    · intro pre i post heq hi hlt
      refine hcover pre i post heq ?_ ?_
      · exact (congrFun (t.takeSeek_havePiece n) i).trans hi
      · show (pre.filter (fun j => !(t.takeSeek n).handle.havePiece j)).length < _
        rw [takeSeek_havePiece]
        exact hlt

end TAux

end PopcornTime.Desktop
