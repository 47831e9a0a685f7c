import PopcornTime.Desktop.Integers
import PopcornTime.Desktop.Streamerok

namespace PopcornTime.Desktop

open PopcornTime

/-!
# Desktop streamer — what a torrent tells of itself

`getTorrentInfo`, `getFileUrl`, `getFileSize` and `getFileDownloaded` look the torrent of an id up
with `getAux` and answer from its `TAux` and from what libtorrent reports.

* `countPieces` — the had pieces from a first one on, up to the first that is missing.
* `TAux.dlInfo`, `getTorrentInfo`, `getFileDownloaded` — the numbers behind the progress that is
  shown.
* `Layout.runBytes` — the bytes of the file that can be read without a gap, what `downloaded`
  should be, and `runBytes_eq`, which tells it from the piece the run stops at.
* `downloaded_iff` — when it is.
-/

/-- `dlInfo`; `DownloadInfo` copies it field by field. -/
structure DlInfo where
  downloadRateBs : ℤ
  downloaded : ℤ
  total : ℤ
  piecesDone : ℤ
  piecesTotal : ℤ
  piecesStartup : ℤ
  pieceSize : ℤ
  seeders : ℤ
  peers : ℤ
  piecesStartupAtEnd : ℤ
  piecesStartupDone : ℤ
deriving DecidableEq, Repr

/-- The constructor of `dlInfoExt`.  It leaves the start-up fields as it finds them in memory. -/
def dlInfoExt (memory : DlInfo) : DlInfo :=
  { memory with
    downloadRateBs := 0
    downloaded := 0
    total := 0
    piecesDone := 0
    piecesTotal := 0
    pieceSize := 0
    seeders := 0
    peers := 0 }

/-- What `torrent_handle::status` reports besides the pieces, which are those of the handle.
    `numPieces` counts the had pieces of the whole torrent, and `totalWantedDone` the bytes of the
    wanted ones. -/
structure TorrentStatus where
  downloadPayloadRate : ℤ
  numSeeds : ℤ
  numPeers : ℤ
  numPieces : ℤ
  totalWantedDone : ℤ
deriving DecidableEq, Repr

/-- `countPieces` -/
def countPieces (pieces : ℤ → Bool) (first last : ℤ) : ℤ :=
  ((Int.range first (last + 1)).takeWhile pieces).length

/-- The bits `countPieces` looks at: it returns at the first one that is not set. -/
def countedBits (pieces : ℤ → Bool) (first last : ℤ) : List ℤ :=
  (Int.range first (last + 1)).takeWhile pieces ++
    ((Int.range first (last + 1)).dropWhile pieces).head?.toList

namespace TAux

/-- The result of `getTorrentInfo` for a torrent that is there. -/
def dlInfo (t : TAux) (ts : TorrentStatus) : DlInfo where
  downloadRateBs := ts.downloadPayloadRate
  downloaded :=
    -- all that is wanted is there
    if t.fileSize = ts.totalWantedDone then t.fileSize
    -- the product of two `int`
    else int32 (countPieces t.handle.havePiece t.fileFirstPiece t.fileLastPiece *
      t.handle.info.pieceLength)
  total := t.fileSize
  piecesDone := ts.numPieces
  piecesTotal := t.fileLastPiece - t.fileFirstPiece + 1
  piecesStartup := t.startupPiecesCountAtStart + t.startupPiecesCountAtEnd
  pieceSize := t.handle.info.pieceLength
  seeders := ts.numSeeds
  peers := ts.numPeers
  piecesStartupAtEnd := t.startupPiecesCountAtEnd
  piecesStartupDone :=
    countPieces t.handle.havePiece t.fileFirstPiece
        (t.fileFirstPiece + t.startupPiecesCountAtStart) +
      countPieces t.handle.havePiece (t.fileLastPiece - t.startupPiecesCountAtEnd)
        t.fileLastPiece

/-- The result of `getFileDownloaded` for a torrent that is there. -/
def fileDownloaded (t : TAux) (ts : TorrentStatus) : ℤ :=
  if t.fileSize = ts.totalWantedDone then t.fileSize
  else uint64 (int32 (countPieces t.handle.havePiece t.fileFirstPiece t.fileLastPiece *
    t.pieceLength))

end TAux

namespace Streamerok

/-- `getTorrentInfo` -/
def getTorrentInfo (status : TorrentHandle → TorrentStatus) (memory : DlInfo) (s : Streamerok)
    (torrentId : ℤ) : DlInfo × Streamerok :=
  match s.getAux torrentId with
  | (none, s) => (dlInfoExt memory, s)
  | (some tInf, s) => (tInf.dlInfo (status tInf.handle), s)

/-- `getFileSize`; there may be no streamer. -/
def getFileSize (sPtr : Option Streamerok) (torrentId : ℤ) : ℤ × Option Streamerok :=
  match sPtr with
  | none => (0, none)
  | some s =>
    match s.getAux torrentId with
    | (none, s) => (0, some s)
    | (some ta, s) => (ta.fileSize, some s)

/-- `getFileDownloaded`; there may be no streamer. -/
def getFileDownloaded (status : TorrentHandle → TorrentStatus) (sPtr : Option Streamerok)
    (torrentId : ℤ) : ℤ × Option Streamerok :=
  match sPtr with
  | none => (0, none)
  | some s =>
    match s.getAux torrentId with
    | (none, s) => (0, some s)
    | (some ta, s) => (ta.fileDownloaded (status ta.handle), some s)

end Streamerok

/-! ### Counting pieces -/

/-- The piece `countPieces` stops at, and what it has counted and looked at until then. -/
theorem countPieces_spec (pieces : ℤ → Bool) {first last : ℤ} (h : first ≤ last + 1) :
    ∃ k, countPieces pieces first last = k - first ∧ first ≤ k ∧ k ≤ last + 1 ∧
      (∀ i, first ≤ i → i < k → pieces i = true) ∧ (k ≤ last → pieces k = false) ∧
      ∀ i, i ∈ countedBits pieces first last ↔ first ≤ i ∧ i ≤ k ∧ i ≤ last := by
  obtain ⟨k, htake, hdrop, hlo, hhi, hall, hstop⟩ := takeWhile_range_eq pieces h
  refine ⟨k, ?_, hlo, hhi, hall, fun hk => hstop (by omega), fun i => ?_⟩
  · rw [countPieces, htake, length_range hlo]
  · rw [countedBits, htake, hdrop, List.mem_append, Int.mem_range_iff]
    by_cases hk : k < last + 1
    · rw [range_eq_cons hk]
      simp only [List.head?_cons, Option.toList_some, List.mem_singleton]
      omega
    · rw [range_eq_nil (by omega)]
      simp only [List.head?_nil, Option.toList_none, List.not_mem_nil, or_false]
      omega

theorem countPieces_of_lt {pieces : ℤ → Bool} {first last : ℤ} (h : last < first) :
    countPieces pieces first last = 0 := by
  rw [countPieces, range_eq_nil (by omega)]
  rfl

/-- More had pieces count for more. -/
theorem countPieces_mono {pieces pieces' : ℤ → Bool}
    (h : ∀ i, pieces i = true → pieces' i = true) (first last : ℤ) :
    countPieces pieces first last ≤ countPieces pieces' first last := by
  rcases lt_or_ge (last + 1) first with hlt | hge
  · rw [countPieces_of_lt (by omega), countPieces_of_lt (by omega)]
  obtain ⟨k, hk, hlo, hhi, hall, -⟩ := countPieces_spec pieces hge
  obtain ⟨k', hk', hlo', -, -, hstop', -⟩ := countPieces_spec pieces' hge
  rw [hk, hk']
  by_contra hlt
  have hmiss := hstop' (by omega)
  rw [h k' (hall k' (by omega) (by omega))] at hmiss
  exact absurd hmiss (by simp)

/-! ### The bytes that can be read without a gap -/

namespace Layout

variable (L : Layout)

/-- The bytes of the file, from its first one on, whose pieces are had. -/
def runBytes (had : ℤ → Bool) : ℤ :=
  ((Int.range 0 L.fileSize).takeWhile fun x => had ((L.offset + x) / L.len)).length

variable {L} {had : ℤ → Bool}

/-- It is never negative, at most the file size, and that exactly when all pieces are had. -/
theorem runBytes_spec (L : Layout) (had : ℤ → Bool) :
    0 ≤ L.runBytes had ∧ L.runBytes had ≤ L.fileSize ∧
      (L.runBytes had = L.fileSize ↔ L.Complete had) := by
  obtain ⟨k, htake, -, hk₀, hk₁, hbefore, hmiss⟩ := takeWhile_range_eq
    (fun x => had ((L.offset + x) / L.len)) L.fileSize_nonneg
  have hrun : L.runBytes had = k := by rw [runBytes, htake, length_range hk₀, sub_zero]
  rw [hrun]
  refine ⟨hk₀, hk₁, ?_, ?_⟩
  · rintro rfl i ⟨x, hx₀, hx₁, -, rfl⟩
    exact hbefore x hx₀ hx₁
  · intro hc
    by_contra hne
    have hlt : k < L.fileSize := by omega
    have hfalse := hmiss hlt
    rw [hc _ ⟨k, hk₀, hlt, hlt, rfl⟩] at hfalse
    exact absurd hfalse (by simp)

theorem piece_mem (hsize : 0 < L.fileSize) {x : ℤ} (h₀ : 0 ≤ x) (h₁ : x < L.fileSize) :
    L.firstPiece ≤ (L.offset + x) / L.len ∧ (L.offset + x) / L.len ≤ L.lastPiece :=
  (L.holds_file_iff hsize).mp ⟨x, h₀, h₁, h₁, rfl⟩

/-- **The run.**  Where the had pieces stop at piece `q`, the bytes stop in front of it, or with
    the file. -/
theorem runBytes_eq (hsize : 0 < L.fileSize) {q : ℤ} (hq₀ : L.firstPiece ≤ q)
    (hall : ∀ i, L.firstPiece ≤ i → i < q → had i = true)
    (hstop : q ≤ L.lastPiece → had q = false) :
    L.runBytes had = min L.fileSize (max 0 (q * L.len - L.offset)) := by
  have hlen := L.len_pos
  obtain ⟨k, htake, -, hk₀, hk₁, hbefore, hmiss⟩ := takeWhile_range_eq
    (fun x => had ((L.offset + x) / L.len)) L.fileSize_nonneg
  rw [runBytes, htake, length_range hk₀, sub_zero]
  apply le_antisymm
  · -- a byte behind the stop would lie in the missing piece
    refine le_min hk₁ ?_
    by_contra hlt
    have hx := not_le.mp hlt
    have hpiece := piece_mem hsize (le_max_left 0 (q * L.len - L.offset)) (by omega)
    have hq : (L.offset + max 0 (q * L.len - L.offset)) / L.len = q := by
      rcases le_total 0 (q * L.len - L.offset) with hpos | hneg
      · rw [max_eq_right hpos, add_sub_cancel, Int.mul_ediv_cancel _ (ne_of_gt hlen)]
      · rw [max_eq_left hneg, add_zero, ← L.firstPiece_eq hsize]
        have : q ≤ L.firstPiece := by
          rw [L.firstPiece_eq hsize]
          exact Int.le_ediv_of_mul_le hlen (by omega)
        omega
    have htrue := hbefore _ (le_max_left _ _) hx
    rw [hq] at hpiece htrue
    rw [hstop hpiece.2] at htrue
    exact absurd htrue (by simp)
  · by_contra hlt
    have hk := not_le.mp hlt
    have hfalse := hmiss (by omega)
    have hpiece := piece_mem hsize hk₀ (by omega)
    have hlt' : (L.offset + k) / L.len < q := Int.ediv_lt_of_lt_mul hlen (by omega)
    rw [hall _ hpiece.1 hlt'] at hfalse
    exact absurd hfalse (by simp)

variable (L) in
/-- The pieces of the run are full of the file, and their bytes fit into an `int`: none is counted,
    or the file starts with a piece, and a piece is missing less than `2 ^ 31` bytes behind its
    start, or none is missing and the file ends with a piece in front of that. -/
def RunFillsPieces (had : ℤ → Bool) : Prop :=
  L.lastPiece < L.firstPiece ∨ had L.firstPiece = false ∨
    (L.offset % L.len = 0 ∧
      ((∃ i, L.firstPiece ≤ i ∧ i ≤ L.lastPiece ∧ had i = false ∧
          (i - L.firstPiece) * L.len < 2 ^ 31) ∨
        (0 < L.fileSize ∧ L.fileSize < 2 ^ 31 ∧ (L.offset + L.fileSize) % L.len = 0)))

theorem int32_countPieces_of_empty (hsize : L.fileSize = 0) (hlen : L.len ≤ 2 ^ 26) :
    int32 (countPieces had L.firstPiece L.lastPiece * L.len) = L.runBytes had ↔
      L.RunFillsPieces had := by
  have hpos := L.len_pos
  have hle := L.lastPiece_le_firstPiece hsize
  obtain ⟨hrun₀, hrun₁, -⟩ := runBytes_spec L had
  have hrun : L.runBytes had = 0 := by omega
  unfold RunFillsPieces
  rw [hrun]
  rcases lt_or_eq_of_le hle with hlt | heq
  · rw [countPieces_of_lt hlt, zero_mul]
    exact iff_of_true rfl (Or.inl hlt)
  obtain ⟨k, hk, hk₀, hk₁, hall, hstop, -⟩ :=
    countPieces_spec had (show L.firstPiece ≤ L.lastPiece + 1 by omega)
  rw [hk]
  by_cases hhad : had L.firstPiece = true
  · -- a piece is counted for a file without a byte
    have hkf : k = L.firstPiece + 1 := by
      by_contra hne
      have hmiss := hstop (by omega)
      rw [show k = L.firstPiece by omega, hhad] at hmiss
      exact absurd hmiss (by simp)
    rw [hkf, show L.firstPiece + 1 - L.firstPiece = 1 by omega, one_mul,
      int32_eq (by omega) (by omega)]
    refine iff_of_false (by omega) ?_
    rintro (h | h | ⟨-, ⟨i, hi₀, hi₁, hi, -⟩ | ⟨h, -⟩⟩)
    · omega
    · rw [hhad] at h
      exact absurd h (by simp)
    · rw [show i = L.firstPiece by omega, hhad] at hi
      exact absurd hi (by simp)
    · omega
  · have hkf : k = L.firstPiece := by
      by_contra hne
      exact hhad (hall _ (le_refl _) (by omega))
    rw [hkf, sub_self, zero_mul]
    exact iff_of_true rfl (Or.inr (Or.inl (by simpa using hhad)))

theorem offset_eq_firstPiece_mul (hsize : 0 < L.fileSize) (hr : L.offset % L.len = 0) :
    L.offset = L.firstPiece * L.len := by
  have hmod := Int.emod_add_mul_ediv L.offset L.len
  rw [L.firstPiece_eq hsize, mul_comm]
  omega

theorem lastPiece_mul_le (hsize : 0 < L.fileSize) : L.lastPiece * L.len ≤ L.offset + L.fileSize - 1 ∧
    L.offset + L.fileSize - 1 < (L.lastPiece + 1) * L.len := by
  rw [L.lastPiece_eq hsize]
  exact ⟨Int.ediv_mul_le _ (ne_of_gt L.len_pos), Int.lt_ediv_add_one_mul_self _ L.len_pos⟩

/-- The last piece is full exactly if the file ends at a piece boundary. -/
theorem lastPiece_full_iff (hsize : 0 < L.fileSize) (hr : L.offset % L.len = 0) :
    (L.lastPiece + 1) * L.len - L.firstPiece * L.len ≤ L.fileSize ↔
      (L.offset + L.fileSize) % L.len = 0 := by
  have hpos := L.len_pos
  have hoff := offset_eq_firstPiece_mul hsize hr
  obtain ⟨hlast_le, hlast_lt⟩ := lastPiece_mul_le hsize
  have hend_mod := Int.emod_add_mul_ediv (L.offset + L.fileSize) L.len
  constructor
  · intro hle
    have heq : L.offset + L.fileSize = (L.lastPiece + 1) * L.len := by omega
    rw [heq, Int.mul_emod_left]
  · intro hzero
    have hlt_mul : L.lastPiece * L.len < (L.offset + L.fileSize) / L.len * L.len := by
      rw [mul_comm ((L.offset + L.fileSize) / L.len)]
      omega
    have hmul : (L.lastPiece + 1) * L.len ≤ (L.offset + L.fileSize) / L.len * L.len :=
      mul_le_mul_of_nonneg_right (lt_of_mul_lt_mul_right hlt_mul hpos.le) hpos.le
    rw [mul_comm ((L.offset + L.fileSize) / L.len)] at hmul
    omega

/-- Every piece is had: the file has to end with the last one. -/
theorem fills_iff_of_all (hsize : 0 < L.fileSize) (hr : L.offset % L.len = 0)
    (hall : ∀ i, L.firstPiece ≤ i → i ≤ L.lastPiece → had i = true) :
    ((L.lastPiece + 1) * L.len - L.firstPiece * L.len ≤ L.fileSize ∧
        (L.lastPiece + 1) * L.len - L.firstPiece * L.len < 2 ^ 31) ↔
      (∃ i, L.firstPiece ≤ i ∧ i ≤ L.lastPiece ∧ had i = false ∧
          (i - L.firstPiece) * L.len < 2 ^ 31) ∨
        (0 < L.fileSize ∧ L.fileSize < 2 ^ 31 ∧ (L.offset + L.fileSize) % L.len = 0) := by
  have hoff := offset_eq_firstPiece_mul hsize hr
  obtain ⟨-, hlast_lt⟩ := lastPiece_mul_le hsize
  have hnone : ¬∃ i, L.firstPiece ≤ i ∧ i ≤ L.lastPiece ∧ had i = false ∧
      (i - L.firstPiece) * L.len < 2 ^ 31 := by
    rintro ⟨i, hi₀, hi₁, hi, -⟩
    rw [hall i hi₀ hi₁] at hi
    exact absurd hi (by simp)
  rw [or_iff_right hnone, lastPiece_full_iff hsize hr]
  constructor
  · rintro ⟨hzero, h31⟩
    exact ⟨hsize, by omega, hzero⟩
  · rintro ⟨-, h31, hzero⟩
    have hle := (lastPiece_full_iff hsize hr).mpr hzero
    exact ⟨hzero, by omega⟩

/-- The run stops at a missing piece. -/
theorem fills_iff_of_missing {q : ℤ} (hsize : 0 < L.fileSize) (hr : L.offset % L.len = 0)
    (hq₀ : L.firstPiece ≤ q) (hq₁ : q ≤ L.lastPiece)
    (hall : ∀ i, L.firstPiece ≤ i → i < q → had i = true) (hmiss : had q = false) :
    (q * L.len - L.firstPiece * L.len ≤ L.fileSize ∧
        q * L.len - L.firstPiece * L.len < 2 ^ 31) ↔
      (∃ i, L.firstPiece ≤ i ∧ i ≤ L.lastPiece ∧ had i = false ∧
          (i - L.firstPiece) * L.len < 2 ^ 31) ∨
        (0 < L.fileSize ∧ L.fileSize < 2 ^ 31 ∧ (L.offset + L.fileSize) % L.len = 0) := by
  have hpos := L.len_pos
  have hoff := offset_eq_firstPiece_mul hsize hr
  obtain ⟨hlast_le, -⟩ := lastPiece_mul_le hsize
  have hlast_ge : q * L.len ≤ L.lastPiece * L.len := mul_le_mul_of_nonneg_right hq₁ hpos.le
  constructor
  · rintro ⟨-, h31⟩
    exact Or.inl ⟨q, hq₀, hq₁, hmiss, by rw [sub_mul]; exact h31⟩
  · rintro (⟨i, hi₀, hi₁, hi, h31⟩ | ⟨-, h31, -⟩)
    · have hqi : q ≤ i := by
        by_contra hcon
        rw [hall i hi₀ (by omega)] at hi
        exact absurd hi (by simp)
      have hmul : q * L.len ≤ i * L.len := mul_le_mul_of_nonneg_right hqi hpos.le
      rw [sub_mul] at h31
      omega
    · omega

/-- The product of `countPieces` and the piece length is the number of bytes exactly where the
    run fills its pieces. -/
theorem int32_countPieces_eq_iff (hlen : L.len ≤ 2 ^ 26) :
    int32 (countPieces had L.firstPiece L.lastPiece * L.len) = L.runBytes had ↔
      L.RunFillsPieces had := by
  rcases eq_or_lt_of_le L.fileSize_nonneg with hzero | hsize
  · exact int32_countPieces_of_empty hzero.symm hlen
  have hpos := L.len_pos
  have hfirst := L.firstPiece_eq hsize
  have hmod := Int.emod_add_mul_ediv L.offset L.len
  have hr₀ := Int.emod_nonneg L.offset (ne_of_gt hpos)
  have hr₁ := Int.emod_lt_of_pos L.offset hpos
  have hlt := L.firstPiece_le_lastPiece hsize
  obtain ⟨q, hq, hq₀, hq₁, hall, hstop, -⟩ :=
    countPieces_spec had (show L.firstPiece ≤ L.lastPiece + 1 by omega)
  rw [hq, runBytes_eq hsize hq₀ hall hstop]
  rcases eq_or_lt_of_le hq₀ with rfl | hfq
  · -- nothing is counted
    rw [sub_self, zero_mul, int32_eq (by omega) (by omega)]
    refine iff_of_true ?_ (Or.inr (Or.inl (hstop hlt)))
    rw [max_eq_left (by rw [hfirst, mul_comm]; omega), min_eq_right hsize.le]
  have hhad : had L.firstPiece = true := hall _ (le_refl _) hfq
  -- the run ends between one piece and two before what is counted
  have hq_le : (q - 1) * L.len ≤ L.lastPiece * L.len :=
    mul_le_mul_of_nonneg_right (by omega) hpos.le
  have hf_le : (L.firstPiece + 1) * L.len ≤ q * L.len :=
    mul_le_mul_of_nonneg_right (by omega) hpos.le
  have hlast_le := (lastPiece_mul_le hsize).1
  have hoff : L.offset = L.offset % L.len + L.firstPiece * L.len := by
    rw [hfirst, mul_comm]
    omega
  rw [sub_mul, one_mul] at hq_le
  rw [add_mul, one_mul] at hf_le
  rw [sub_mul, max_eq_right (by omega), int32_eq_iff (by omega) (by omega) (by omega)]
  have hfill : q * L.len - L.firstPiece * L.len = min L.fileSize (q * L.len - L.offset) ↔
      L.offset % L.len = 0 ∧ q * L.len - L.firstPiece * L.len ≤ L.fileSize := by
    omega
  rw [hfill]
  unfold RunFillsPieces
  rw [hhad]
  simp only [not_lt.mpr hlt, Bool.true_eq_false, false_or, and_assoc]
  refine and_congr_right fun hr => ?_
  rcases lt_or_ge L.lastPiece q with hend | hmid
  · obtain rfl : q = L.lastPiece + 1 := by omega
    exact fills_iff_of_all hsize hr fun i hi₀ hi₁ => hall i hi₀ (by omega)
  · exact fills_iff_of_missing hsize hr hq₀ hmid hall (hstop hmid)

/-- The cast to unsigned keeps the number of bytes, and makes none of a negative product. -/
theorem uint64_int32_eq_iff {n d : ℤ} (h₀ : 0 ≤ d) (h₁ : d < 2 ^ 63) :
    uint64 (int32 n) = d ↔ int32 n = d := by
  have hlt : int32 n < 2 ^ 31 := Int.bmod_lt (by omega)
  have hge : -2 ^ 31 ≤ int32 n := by
    have := Int.le_bmod (x := n) (m := 2 ^ 32) (by omega)
    unfold int32
    omega
  unfold uint64
  omega

variable (L) in
/-- What is reported is the run: by the shortcut, if the bytes libtorrent counts as done are as many
    as the file has, and every piece is had; by the product otherwise. -/
def DownloadedRight (had : ℤ → Bool) (totalWantedDone : ℤ) : Prop :=
  (L.fileSize = totalWantedDone → L.Complete had) ∧
    (L.fileSize ≠ totalWantedDone → L.RunFillsPieces had)

end Layout

namespace Streamerok

theorem getTorrentInfo_eq {s : Streamerok} {torrentId : ℤ} {t : TAux}
    (status : TorrentHandle → TorrentStatus) (memory : DlInfo) (ht : s.tMap torrentId = some t)
    (hvalid : t.handle.valid = true) :
    (s.getTorrentInfo status memory torrentId).1 = t.dlInfo (status t.handle) := by
  rw [getTorrentInfo, getAux_eq ht hvalid]

theorem getFileDownloaded_eq {s : Streamerok} {torrentId : ℤ} {t : TAux}
    (status : TorrentHandle → TorrentStatus) (ht : s.tMap torrentId = some t)
    (hvalid : t.handle.valid = true) :
    (getFileDownloaded status (some s) torrentId).1 = t.fileDownloaded (status t.handle) := by
  simp only [getFileDownloaded, getAux_eq ht hvalid]

/-- **The reported size.**  For every layout of pieces of up to `2 ^ 26` bytes, every had set and
    whatever libtorrent counts, both entry points report the bytes of the run exactly where
    `DownloadedRight` says so. -/
theorem downloaded_iff (L : Layout) (s : Streamerok) (torrentId : ℤ) (t : TAux)
    (status : TorrentHandle → TorrentStatus) (memory : DlInfo) (ht : s.tMap torrentId = some t)
    (hfor : t.For L) (hinfo : t.handle.info = L.storage) (hlen : L.len ≤ 2 ^ 26)
    (hsize : L.fileSize < 2 ^ 63) :
    ((s.getTorrentInfo status memory torrentId).1.downloaded = L.runBytes t.handle.havePiece ↔
        L.DownloadedRight t.handle.havePiece (status t.handle).totalWantedDone) ∧
      ((getFileDownloaded status (some s) torrentId).1 = L.runBytes t.handle.havePiece ↔
        L.DownloadedRight t.handle.havePiece (status t.handle).totalWantedDone) ∧
      0 ≤ L.runBytes t.handle.havePiece ∧ L.runBytes t.handle.havePiece ≤ L.fileSize ∧
      (L.runBytes t.handle.havePiece = L.fileSize ↔ L.Complete t.handle.havePiece) := by
  obtain ⟨hrun₀, hrun₁, hrun⟩ := L.runBytes_spec t.handle.havePiece
  have hpl : t.handle.info.pieceLength = L.len := by rw [hinfo]; rfl
  rw [getTorrentInfo_eq status memory ht hfor.valid, getFileDownloaded_eq status ht hfor.valid]
  unfold TAux.dlInfo TAux.fileDownloaded Layout.DownloadedRight
  rw [hfor.fileSize, hfor.fileFirstPiece, hfor.fileLastPiece, hfor.pieceLength, hpl]
  -- the count of pieces times their length, cut to an int
  have hcount : int32 (countPieces t.handle.havePiece L.firstPiece L.lastPiece * L.len) =
      L.runBytes t.handle.havePiece ↔ L.RunFillsPieces t.handle.havePiece :=
    Layout.int32_countPieces_eq_iff hlen
  refine ⟨?_, ?_, hrun₀, hrun₁, hrun⟩
  · by_cases hdone : L.fileSize = (status t.handle).totalWantedDone
    · rw [if_pos hdone, eq_comm, hrun]
      simp [hdone]
    · rw [if_neg hdone, hcount]
      simp [hdone]
  · by_cases hdone : L.fileSize = (status t.handle).totalWantedDone
    · rw [if_pos hdone, eq_comm, hrun]
      simp [hdone]
    · rw [if_neg hdone, Layout.uint64_int32_eq_iff hrun₀ (by omega), hcount]
      simp [hdone]

end Streamerok

/-- The `TAux` of a layout with some pieces had. -/
def Layout.aux (L : Layout) (had : ℤ → Bool) : TAux :=
  (TAux.new (L.freshHandle had) L.fileIndex L.fileSize).getD
    (TAux.fresh (L.freshHandle had) L.fileIndex L.fileSize)

theorem Layout.aux_spec (L : Layout) (had : ℤ → Bool) :
    (L.aux had).For L ∧ (L.aux had).handle.havePiece = had ∧
      (L.aux had).handle.info = L.storage := by
  obtain ⟨t, hnew, hfor, hhad⟩ := TAux.new_freshHandle L had
  rw [aux, hnew]
  exact ⟨hfor, hhad, TAux.new_info hnew⟩

/-- A streamer with one torrent. -/
def Streamerok.single (t : TAux) : Streamerok where
  nextId := 1
  needSeekToThisPiece := -1
  tMap := fun id => if id = 1 then some t else none

/-- A file of 33 pieces of `2 ^ 26` bytes. -/
def bigFile : Layout where
  storage :=
    { pieceLength := 2 ^ 26
      fileSizes := [2 ^ 31 + 2 ^ 26]
      pieceLength_pos := by decide
      fileSizes_nonneg := by decide }
  fileIndex := 0
  fileIndex_lt := by decide

namespace Streamerok

/-- Nothing is reported of a file whose first piece is missing. -/
theorem downloaded_iff_secondFile :
    ((single (secondFile.aux fun i => decide (0 < i))).getTorrentInfo
      (fun _ => ⟨0, 0, 0, 2, 15⟩) ⟨0, 0, 0, 0, 0, 0, 0, 0, 0, 0, 0⟩ 1).1.downloaded =
        secondFile.runBytes (secondFile.aux fun i => decide (0 < i)).handle.havePiece := by
  obtain ⟨hfor, hhad, hinfo⟩ := secondFile.aux_spec fun i => decide (0 < i)
  refine (downloaded_iff secondFile _ 1 _ (fun _ => ⟨0, 0, 0, 2, 15⟩) _ rfl hfor hinfo
    (by decide) (by decide)).1.mpr ⟨fun hdone => absurd hdone (by decide), fun _ => ?_⟩
  rw [hhad]
  exact Or.inr (Or.inl (by decide))

/-- Five of the file's bytes are had, and ten are reported; of a file with `2 ^ 31` bytes had, the
    product is negative. -/
theorem downloaded_secondFile_bigFile :
    (((single (secondFile.aux fun i => decide (i = 0))).getTorrentInfo
        (fun _ => ⟨0, 0, 0, 1, 10⟩) ⟨0, 0, 0, 0, 0, 0, 0, 0, 0, 0, 0⟩ 1).1.downloaded = 10 ∧
      (getFileDownloaded (fun _ => ⟨0, 0, 0, 1, 10⟩)
        (some (single (secondFile.aux fun i => decide (i = 0)))) 1).1 = 10 ∧
      secondFile.runBytes (fun i => decide (i = 0)) = 5) ∧
    ((single (bigFile.aux fun i => decide (i < 32))).getTorrentInfo
        (fun _ => ⟨0, 0, 0, 32, 2 ^ 31⟩) ⟨0, 0, 0, 0, 0, 0, 0, 0, 0, 0, 0⟩ 1).1.downloaded =
      -2 ^ 31 ∧
    (getFileDownloaded (fun _ => ⟨0, 0, 0, 32, 2 ^ 31⟩)
        (some (single (bigFile.aux fun i => decide (i < 32)))) 1).1 = 2 ^ 64 - 2 ^ 31 ∧
    bigFile.runBytes (fun i => decide (i < 32)) = 2 ^ 31 := by
  refine ⟨by decide +kernel, by decide +kernel, by decide +kernel, ?_⟩
  rw [Layout.runBytes_eq (q := 32) (by decide) (by decide)
    (fun i _ hi => by simpa using hi) (fun _ => by decide)]
  decide

end Streamerok

end PopcornTime.Desktop
