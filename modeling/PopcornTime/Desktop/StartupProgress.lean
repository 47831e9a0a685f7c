import PopcornTime.Desktop.Startup
import PopcornTime.Desktop.TorrentInfo

namespace PopcornTime.Desktop

open PopcornTime

/-!
# Desktop streamer — the start-up progress

`getTorrentInfo` counts the pieces of the two start-up windows with `countPieces`.  Both ranges are
one piece longer than the windows `canGetUrl` waits for, and each count ends at the first missing
piece from the left, also at the end of the file.

* `Missing` — a piece of a range is missing; `countPieces_le_iff` tells a count from it.
* `done_ne_of_canGetUrl` — once playback can start, the counts never add up to the total.
* `startupProgress_iff` — when the progress is right.
-/

/-- A piece of the range is missing. -/
def Missing (had : ℤ → Bool) (lo hi : ℤ) : Prop :=
  ∃ i, lo ≤ i ∧ i ≤ hi ∧ had i = false

theorem Missing.mono {had : ℤ → Bool} {lo hi lo' hi' : ℤ} (h : Missing had lo hi) (hlo : lo' ≤ lo)
    (hhi : hi ≤ hi') : Missing had lo' hi' := by
  obtain ⟨i, h₀, h₁, hi⟩ := h
  exact ⟨i, by omega, by omega, hi⟩

theorem not_missing_iff {had : ℤ → Bool} {lo hi : ℤ} :
    ¬Missing had lo hi ↔ ∀ i, lo ≤ i → i ≤ hi → had i = true := by
  unfold Missing
  push Not
  simp only [ne_eq, Bool.not_eq_false]

/-- A count is at most `m` if a piece up to the `m`-th is missing. -/
theorem countPieces_le_iff (had : ℤ → Bool) {first last m : ℤ} (h₀ : 0 ≤ m)
    (h₁ : first + m ≤ last) :
    countPieces had first last ≤ m ↔ Missing had first (first + m) := by
  obtain ⟨k, hk, hk₀, hk₁, hall, hstop, -⟩ :=
    countPieces_spec had (show first ≤ last + 1 by omega)
  rw [hk]
  constructor
  · intro hle
    exact ⟨k, hk₀, by omega, hstop (by omega)⟩
  · rintro ⟨i, hi₀, hi₁, hi⟩
    by_contra hlt
    rw [hall i hi₀ (by omega)] at hi
    exact absurd hi (by simp)

theorem countPieces_nonneg (had : ℤ → Bool) (first last : ℤ) : 0 ≤ countPieces had first last :=
  Int.natCast_nonneg _

theorem countPieces_le (had : ℤ → Bool) {first last : ℤ} (h : first ≤ last + 1) :
    countPieces had first last ≤ last + 1 - first := by
  obtain ⟨k, hk, -, hk₁, -⟩ := countPieces_spec had h
  omega

namespace TAux

/-- The bits that the two start-up counts of `getTorrentInfo` look at. -/
def progressBits (t : TAux) : List ℤ :=
  countedBits t.handle.havePiece t.fileFirstPiece
      (t.fileFirstPiece + t.startupPiecesCountAtStart) ++
    countedBits t.handle.havePiece (t.fileLastPiece - t.startupPiecesCountAtEnd) t.fileLastPiece

end TAux

/-- What the start-up progress should be. -/
structure StartupProgressRight (L : Layout) (t : TAux) (info : DlInfo) : Prop where
  done_nonneg : 0 ≤ info.piecesStartupDone
  done_le : info.piecesStartupDone ≤ info.piecesStartup
  /-- Only bits of the torrent are looked at. -/
  bits_mem : ∀ i ∈ t.progressBits, 0 ≤ i ∧ i < L.storage.numPieces
  /-- It is complete exactly if playback can start. -/
  done_iff : info.piecesStartupDone = info.piecesStartup ↔ t.canGetUrl = true

namespace Layout

variable (L : Layout)

/-- The bits of both ranges exist, as far as the counts go: the last range does not start in front
    of the torrent, and the first one ends in it or stops at a missing piece. -/
def ProgressInside (had : ℤ → Bool) : Prop :=
  L.firstPiece < L.storage.numPieces ∧ L.endCount ≤ L.lastPiece ∧
    (L.firstPiece + L.startCount < L.storage.numPieces ∨
      Missing had L.firstPiece (L.storage.numPieces - 1))

/-- A piece that playback waits for is missing. -/
def StartupWaits (had : ℤ → Bool) : Prop :=
  Missing had L.firstPiece (L.firstPiece + L.startCount - 1) ∨
    Missing had (L.lastPiece - L.endCount + 1) L.lastPiece

/-- The counts do not come up to the total: a piece of the first range but its last two is missing,
    or of the last range but its last two, or one of each with one of the four spared. -/
def ProgressBelow (had : ℤ → Bool) : Prop :=
  Missing had L.firstPiece (L.firstPiece + L.startCount - 2) ∨
    (Missing had L.firstPiece (L.firstPiece + L.startCount - 1) ∧
      Missing had (L.lastPiece - L.endCount) L.lastPiece) ∨
    (Missing had L.firstPiece (L.firstPiece + L.startCount) ∧
      Missing had (L.lastPiece - L.endCount) (L.lastPiece - 1)) ∨
    Missing had (L.lastPiece - L.endCount) (L.lastPiece - 2)

end Layout

section Progress

variable {L : Layout} {t : TAux}

theorem canGetUrl_eq_true_iff (hfor : t.For L) :
    t.canGetUrl = true ↔ ¬L.StartupWaits t.handle.havePiece := by
  rw [TAux.canGetUrl_eq_true hfor.valid, Layout.StartupWaits, not_or, not_missing_iff,
    not_missing_iff]
  simp only [hfor.mem_urlBits]
  show (∀ i, (L.firstPiece ≤ i ∧ i < L.firstPiece + L.startCount) ∨
    (L.lastPiece - L.endCount < i ∧ i ≤ L.lastPiece) → _) ↔ _
  constructor
  · intro h
    exact ⟨fun i h₀ h₁ => h i (Or.inl ⟨h₀, by omega⟩), fun i h₀ h₁ => h i (Or.inr ⟨by omega, h₁⟩)⟩
  · rintro ⟨hfirst, hlast⟩ i (⟨h₀, h₁⟩ | ⟨h₀, h₁⟩)
    · exact hfirst i h₀ (by omega)
    · exact hlast i (by omega) h₁

theorem progressBits_eq (hfor : t.For L) : t.progressBits =
    countedBits t.handle.havePiece L.firstPiece (L.firstPiece + L.startCount) ++
      countedBits t.handle.havePiece (L.lastPiece - L.endCount) L.lastPiece := by
  unfold TAux.progressBits
  rw [hfor.fileFirstPiece, hfor.fileLastPiece, hfor.startupPiecesCountAtStart,
    hfor.startupPiecesCountAtEnd]
  rfl

theorem piecesStartupDone_eq (hfor : t.For L) (ts : TorrentStatus) :
    (t.dlInfo ts).piecesStartupDone =
      countPieces t.handle.havePiece L.firstPiece (L.firstPiece + L.startCount) +
        countPieces t.handle.havePiece (L.lastPiece - L.endCount) L.lastPiece := by
  show countPieces _ t.fileFirstPiece _ + countPieces _ _ t.fileLastPiece = _
  rw [hfor.fileFirstPiece, hfor.fileLastPiece, hfor.startupPiecesCountAtStart,
    hfor.startupPiecesCountAtEnd]
  rfl

theorem piecesStartup_eq (hfor : t.For L) (ts : TorrentStatus) :
    (t.dlInfo ts).piecesStartup = L.startCount + L.endCount := by
  show t.startupPiecesCountAtStart + t.startupPiecesCountAtEnd = _
  rw [hfor.startupPiecesCountAtStart, hfor.startupPiecesCountAtEnd]
  rfl

/-- The bits looked at are bits of the torrent. -/
theorem progressBits_mem_iff (hfor : t.For L) :
    (∀ i ∈ t.progressBits, 0 ≤ i ∧ i < L.storage.numPieces) ↔
      L.ProgressInside t.handle.havePiece := by
  have hs := L.startCount_ge
  have he := L.endCount_ge
  have hfirst := L.firstPiece_nonneg
  have hlast : L.firstPiece < L.storage.numPieces → L.lastPiece < L.storage.numPieces := by
    intro hlt
    rcases eq_or_lt_of_le L.fileSize_nonneg with hzero | hsize
    · have := L.lastPiece_le_firstPiece hzero.symm
      omega
    · exact L.lastPiece_lt_numPieces hsize
  obtain ⟨k, -, hk₀, hk₁, hall, hstop, hbits⟩ := countPieces_spec t.handle.havePiece
    (show L.firstPiece ≤ L.firstPiece + L.startCount + 1 by omega)
  obtain ⟨k', -, hk'₀, hk'₁, -, -, hbits'⟩ := countPieces_spec t.handle.havePiece
    (show L.lastPiece - L.endCount ≤ L.lastPiece + 1 by omega)
  rw [progressBits_eq hfor]
  simp only [List.mem_append, hbits, hbits']
  unfold Layout.ProgressInside
  constructor
  · intro h
    have hstart := h L.firstPiece (Or.inl ⟨le_refl _, hk₀, by omega⟩)
    have hend := h (L.lastPiece - L.endCount) (Or.inr ⟨le_refl _, hk'₀, by omega⟩)
    refine ⟨hstart.2, by omega, ?_⟩
    by_cases hk : k ≤ L.firstPiece + L.startCount
    · have hread := h k (Or.inl ⟨hk₀, le_refl _, hk⟩)
      exact Or.inr ⟨k, hk₀, by omega, hstop hk⟩
    · have hread := h (L.firstPiece + L.startCount) (Or.inl ⟨by omega, by omega, le_refl _⟩)
      exact Or.inl hread.2
  · rintro ⟨hf, hl, hread⟩ i (⟨h₀, h₁, h₂⟩ | ⟨h₀, h₁, h₂⟩)
    · refine ⟨by omega, ?_⟩
      rcases hread with hinside | ⟨j, hj₀, hj₁, hj⟩
      · omega
      · -- the count has not gone behind the missing piece
        have hkj : k ≤ j := by
          by_contra hlt
          rw [hall j hj₀ (by omega)] at hj
          exact absurd hj (by simp)
        omega
    · have := hlast hf
      omega

/-- The last range is counted to the end or not at all where its pieces but the first are had. -/
theorem countPieces_last_of_not_missing {had : ℤ → Bool}
    (h : ¬Missing had (L.lastPiece - L.endCount + 1) L.lastPiece) :
    countPieces had (L.lastPiece - L.endCount) L.lastPiece = 0 ∨
      countPieces had (L.lastPiece - L.endCount) L.lastPiece = L.endCount + 1 := by
  have he := L.endCount_ge
  rw [not_missing_iff] at h
  obtain ⟨k, hk, hk₀, hk₁, -, hstop, -⟩ := countPieces_spec had
    (show L.lastPiece - L.endCount ≤ L.lastPiece + 1 by omega)
  rw [hk]
  by_contra hcon
  have hmiss := hstop (by omega)
  rw [h k (by omega) (by omega)] at hmiss
  exact absurd hmiss (by simp)

/-- **Once playback can start** the counts do not add up to the total. -/
theorem done_ne_of_canGetUrl {had : ℤ → Bool} (h : ¬L.StartupWaits had) :
    countPieces had L.firstPiece (L.firstPiece + L.startCount) +
      countPieces had (L.lastPiece - L.endCount) L.lastPiece ≠ L.startCount + L.endCount := by
  have hs := L.startCount_ge
  have he := L.endCount_ge
  unfold Layout.StartupWaits at h
  rw [not_or] at h
  have hle := countPieces_le had (show L.firstPiece ≤ L.firstPiece + L.startCount + 1 by omega)
  have hge : ¬countPieces had L.firstPiece (L.firstPiece + L.startCount) ≤ L.startCount - 1 := by
    rw [countPieces_le_iff had (by omega) (by omega),
      show L.firstPiece + (L.startCount - 1) = L.firstPiece + L.startCount - 1 by ring]
    exact h.1
  rcases countPieces_last_of_not_missing h.2 with hlast | hlast <;> omega

/-- The counts are below the total. -/
theorem done_lt_iff (L : Layout) (had : ℤ → Bool) :
    countPieces had L.firstPiece (L.firstPiece + L.startCount) +
        countPieces had (L.lastPiece - L.endCount) L.lastPiece < L.startCount + L.endCount ↔
      L.ProgressBelow had := by
  have hs := L.startCount_ge
  have he := L.endCount_ge
  have hle := countPieces_le had (show L.firstPiece ≤ L.firstPiece + L.startCount + 1 by omega)
  have hle' := countPieces_le had (show L.lastPiece - L.endCount ≤ L.lastPiece + 1 by omega)
  -- both ranges count one piece more than their length says
  have hfirst : ∀ d : ℤ, 0 ≤ d → d ≤ 2 →
      (countPieces had L.firstPiece (L.firstPiece + L.startCount) ≤ L.startCount - d ↔
        Missing had L.firstPiece (L.firstPiece + L.startCount - d)) := by
    intro d h₀ h₁
    rw [countPieces_le_iff had (by omega) (by omega), add_sub_assoc]
  have hlast : ∀ d : ℤ, 0 ≤ d → d ≤ 2 →
      (countPieces had (L.lastPiece - L.endCount) L.lastPiece ≤ L.endCount - d ↔
        Missing had (L.lastPiece - L.endCount) (L.lastPiece - d)) := by
    intro d h₀ h₁
    rw [countPieces_le_iff had (by omega) (by omega),
      show L.lastPiece - L.endCount + (L.endCount - d) = L.lastPiece - d by ring]
  have hfirst₀ := hfirst 0 (by omega) (by omega)
  have hlast₀ := hlast 0 (by omega) (by omega)
  rw [sub_zero, sub_zero] at hfirst₀ hlast₀
  unfold Layout.ProgressBelow
  rw [← hfirst 2 (by omega) (by omega), ← hfirst 1 (by omega) (by omega), ← hfirst₀,
    ← hlast 2 (by omega) (by omega), ← hlast 1 (by omega) (by omega), ← hlast₀]
  omega

/-- More had pieces never take progress away. -/
theorem piecesStartupDone_mono {t' : TAux} (hfor : t.For L) (hfor' : t'.For L)
    (ts ts' : TorrentStatus)
    (h : ∀ i, t.handle.havePiece i = true → t'.handle.havePiece i = true) :
    (t.dlInfo ts).piecesStartupDone ≤ (t'.dlInfo ts').piecesStartupDone := by
  rw [piecesStartupDone_eq hfor, piecesStartupDone_eq hfor']
  exact add_le_add (countPieces_mono h _ _) (countPieces_mono h _ _)

theorem startupProgressRight_iff (hfor : t.For L) (ts : TorrentStatus) :
    StartupProgressRight L t (t.dlInfo ts) ↔
      L.ProgressInside t.handle.havePiece ∧ L.StartupWaits t.handle.havePiece ∧
        L.ProgressBelow t.handle.havePiece := by
  have hurl := canGetUrl_eq_true_iff hfor
  rw [← progressBits_mem_iff hfor, ← done_lt_iff]
  constructor
  · rintro ⟨h₀, hle, hbits, hiff⟩
    rw [piecesStartupDone_eq hfor, piecesStartup_eq hfor] at hle hiff
    have hwaits : L.StartupWaits t.handle.havePiece := by
      by_contra hcan
      exact done_ne_of_canGetUrl hcan (hiff.mpr (hurl.mpr hcan))
    refine ⟨hbits, hwaits, lt_of_le_of_ne hle fun heq => ?_⟩
    exact hurl.mp (hiff.mp heq) hwaits
  · rintro ⟨hbits, hwaits, hlt⟩
    have hcan : ¬t.canGetUrl = true := fun h => hurl.mp h hwaits
    have hne := piecesStartupDone_eq hfor ts
    have htotal := piecesStartup_eq hfor ts
    refine ⟨?_, by omega, hbits, iff_of_false (by omega) hcan⟩
    rw [hne]
    exact add_nonneg (countPieces_nonneg _ _ _) (countPieces_nonneg _ _ _)

end Progress

namespace Streamerok

/-- **The start-up progress.**  For every layout and had set it is right exactly while playback waits
    for a piece, the counts stay below the total, and no bit outside the torrent is looked at.  It
    never falls while pieces are added. -/
theorem startupProgress_iff (L : Layout) (s : Streamerok) (torrentId : ℤ) (t : TAux)
    (status : TorrentHandle → TorrentStatus) (memory : DlInfo) (ht : s.tMap torrentId = some t)
    (hfor : t.For L) :
    (StartupProgressRight L t (s.getTorrentInfo status memory torrentId).1 ↔
        L.ProgressInside t.handle.havePiece ∧ L.StartupWaits t.handle.havePiece ∧
          L.ProgressBelow t.handle.havePiece) ∧
      ∀ (s' : Streamerok) (t' : TAux), s'.tMap torrentId = some t' → t'.For L →
        (∀ i, t.handle.havePiece i = true → t'.handle.havePiece i = true) →
        (s.getTorrentInfo status memory torrentId).1.piecesStartupDone ≤
          (s'.getTorrentInfo status memory torrentId).1.piecesStartupDone := by
  rw [getTorrentInfo_eq status memory ht hfor.valid]
  refine ⟨startupProgressRight_iff hfor _, fun s' t' ht' hfor' hhad => ?_⟩
  rw [getTorrentInfo_eq status memory ht' hfor'.valid]
  exact piecesStartupDone_mono hfor hfor' _ _ hhad

/-- A file of twenty pieces, of one byte each. -/
def twentyPieces : Layout where
  storage :=
    { pieceLength := 1
      fileSizes := [20]
      pieceLength_pos := Int.one_pos
      fileSizes_nonneg := by decide }
  fileIndex := 0
  fileIndex_lt := by decide

/-- What is reported of the file with some pieces had. -/
def twentyPiecesInfo (had : ℤ → Bool) : DlInfo :=
  ((single (twentyPieces.aux had)).getTorrentInfo (fun _ => ⟨0, 0, 0, 0, 0⟩)
    ⟨0, 0, 0, 0, 0, 0, 0, 0, 0, 0, 0⟩ 1).1

/-- With no piece had the progress is right. -/
theorem startupProgress_iff_twentyPieces :
    StartupProgressRight twentyPieces (twentyPieces.aux fun _ => false)
      (twentyPiecesInfo fun _ => false) := by
  obtain ⟨hfor, hhad, -⟩ := twentyPieces.aux_spec fun _ => false
  refine (startupProgress_iff twentyPieces (single (twentyPieces.aux fun _ => false)) 1 _
    (fun _ => ⟨0, 0, 0, 0, 0⟩) _ rfl hfor).1.mpr ?_
  rw [hhad]
  exact ⟨⟨by decide, by decide +kernel, Or.inl (by decide +kernel)⟩,
    Or.inl ⟨0, by decide, by decide +kernel, rfl⟩, Or.inl ⟨0, by decide, by decide +kernel, rfl⟩⟩

/-- Playback can start, and eleven of nine pieces are done with all of them had, five with just the
    start-up pieces.  Nine are done while a start-up piece is missing. -/
theorem startupProgress_wrong :
    (¬StartupProgressRight twentyPieces (twentyPieces.aux fun _ => true)
        (twentyPiecesInfo fun _ => true) ∧
      (twentyPieces.aux fun _ => true).canGetUrl = true ∧
      (twentyPiecesInfo fun _ => true).piecesStartupDone = 11 ∧
      (twentyPiecesInfo fun _ => true).piecesStartup = 9) ∧
    ((twentyPieces.aux fun i => decide (i < 5 ∨ 15 < i)).canGetUrl = true ∧
      (twentyPiecesInfo fun i => decide (i < 5 ∨ 15 < i)).piecesStartupDone = 5) ∧
    (twentyPieces.aux fun i => decide (i ≠ 18)).canGetUrl = false ∧
      (twentyPiecesInfo fun i => decide (i ≠ 18)).piecesStartupDone = 9 := by
  have hdone : (twentyPiecesInfo fun _ => true).piecesStartupDone = 11 := by decide +kernel
  have htotal : (twentyPiecesInfo fun _ => true).piecesStartup = 9 := by decide +kernel
  refine ⟨⟨fun h => ?_, by decide +kernel, hdone, htotal⟩, ⟨by decide +kernel, by decide +kernel⟩,
    by decide +kernel, by decide +kernel⟩
  have hle := h.done_le
  omega

end Streamerok

end PopcornTime.Desktop
