import PopcornTime.Lib.Range
import Mathlib.Algebra.Order.BigOperators.Group.List
import Mathlib.Data.List.GetD

namespace PopcornTime.Desktop

open PopcornTime

/-!
# Desktop streamer — what it sees of libtorrent

`FileStorage` is the layout of a torrent: the piece length and the sizes of its files, laid end
to end.  `mapFile` is libtorrent's own `file_storage::map_file`.  A `Layout` is a torrent with
one of its files selected, and `TorrentHandle` is the state behind a `torrent_handle` as far as
the streamer reads or writes it.

* `FileStorage.mapFile_piece` — a byte of a file lies in the piece `map_file` names.
* `Layout.Holds` — piece `i` holds a byte of a range of the selected file, and
  `Layout.holds_iff` bounds such pieces.
-/

/-- The layout of a torrent.  Files are laid end to end and the whole is cut into pieces. -/
structure FileStorage where
  pieceLength : ℤ
  fileSizes : List ℤ
  pieceLength_pos : 0 < pieceLength
  fileSizes_nonneg : ∀ n ∈ fileSizes, 0 ≤ n

/-- What `map_file` answers: the piece, the offset inside it and the length of the request. -/
structure PeerRequest where
  piece : ℤ
  start : ℤ
  length : ℤ
deriving DecidableEq, Repr

namespace FileStorage

/-- The offset of a file in the torrent: the sizes of the files before it. -/
def fileOffset (fs : FileStorage) (fileIndex : ℕ) : ℤ :=
  (fs.fileSizes.take fileIndex).sum

/-- The size of a file; zero for an index out of range. -/
def fileSize (fs : FileStorage) (fileIndex : ℕ) : ℤ :=
  fs.fileSizes.getD fileIndex 0

def totalSize (fs : FileStorage) : ℤ :=
  fs.fileSizes.sum

def numPieces (fs : FileStorage) : ℤ :=
  (fs.totalSize + fs.pieceLength - 1) / fs.pieceLength

/-- `file_storage::map_file`.  C++ division drops the fraction, also below zero. -/
def mapFile (fs : FileStorage) (fileIndex : ℕ) (fileOffset size : ℤ) : PeerRequest :=
  if fs.fileSizes.length ≤ fileIndex then ⟨fs.numPieces, 0, 0⟩
  else
    let offset := fileOffset + fs.fileOffset fileIndex
    if fs.totalSize ≤ offset then ⟨fs.numPieces, 0, 0⟩
    else
      { piece := offset.tdiv fs.pieceLength
        start := offset.tmod fs.pieceLength
        length := if fs.totalSize < offset + size then fs.totalSize - offset else size }

/-- No file begins before the torrent, -/
theorem fileOffset_nonneg (fs : FileStorage) (i : ℕ) : 0 ≤ fs.fileOffset i :=
  List.sum_nonneg (fun n hn => fs.fileSizes_nonneg n (List.mem_of_mem_take hn))

/-- and none is of negative size. -/
theorem fileSize_nonneg (fs : FileStorage) (i : ℕ) : 0 ≤ fs.fileSize i := by
  unfold fileSize
  by_cases h : i < fs.fileSizes.length
  · rw [List.getD_eq_getElem _ _ h]
    exact fs.fileSizes_nonneg _ (List.getElem_mem h)
  · rw [List.getD_eq_default _ _ (by omega)]

/-- Every file ends inside the torrent. -/
theorem fileOffset_add_fileSize_le (fs : FileStorage) {i : ℕ} (h : i < fs.fileSizes.length) :
    fs.fileOffset i + fs.fileSize i ≤ fs.totalSize := by
  have hrest : 0 ≤ (fs.fileSizes.drop (i + 1)).sum :=
    List.sum_nonneg (fun n hn => fs.fileSizes_nonneg n (List.mem_of_mem_drop hn))
  have hcut : fs.totalSize
      = fs.fileOffset i + (fs.fileSize i + (fs.fileSizes.drop (i + 1)).sum) := by
    unfold totalSize fileOffset fileSize
    rw [List.getD_eq_getElem _ _ h, ← List.sum_cons, ← List.drop_eq_getElem_cons h,
      ← List.sum_append, List.take_append_drop]
  omega

/-- A byte of a file lies in the piece `map_file` names. -/
theorem mapFile_piece (fs : FileStorage) (size : ℤ) {i : ℕ} (hi : i < fs.fileSizes.length) {x : ℤ}
    (h₀ : 0 ≤ x) (h₁ : x < fs.fileSize i) :
    (fs.mapFile i x size).piece = (fs.fileOffset i + x) / fs.pieceLength := by
  have hend := fs.fileOffset_add_fileSize_le hi
  have hoff := fs.fileOffset_nonneg i
  unfold mapFile
  rw [if_neg (by omega), if_neg (by omega)]
  show (x + fs.fileOffset i).tdiv fs.pieceLength = _
  rw [Int.tdiv_eq_ediv_of_nonneg (by omega), add_comm]

end FileStorage

/-- A torrent with one of its files selected. -/
structure Layout where
  storage : FileStorage
  fileIndex : ℕ
  fileIndex_lt : fileIndex < storage.fileSizes.length

namespace Layout

variable (L : Layout)

/-- The length of a piece. -/
def len : ℤ := L.storage.pieceLength

/-- The offset of the selected file in the torrent. -/
def offset : ℤ := L.storage.fileOffset L.fileIndex

/-- The size of the selected file. -/
def fileSize : ℤ := L.storage.fileSize L.fileIndex

/-- The piece `map_file(file, 0, 1)` names: that of the file's first byte. -/
def firstPiece : ℤ := (L.storage.mapFile L.fileIndex 0 1).piece

/-- The piece `map_file(file, fileSize - 1, 1)` names: that of the file's last byte. -/
def lastPiece : ℤ := (L.storage.mapFile L.fileIndex (L.fileSize - 1) 1).piece

/-- A piece has bytes. -/
theorem len_pos : 0 < L.len := L.storage.pieceLength_pos

/-- The selected file begins in the torrent. -/
theorem offset_nonneg : 0 ≤ L.offset := L.storage.fileOffset_nonneg _

/-- Its size is not negative. -/
theorem fileSize_nonneg : 0 ≤ L.fileSize := L.storage.fileSize_nonneg _

/-- The first piece has the first byte of the file, -/
theorem firstPiece_eq (h : 0 < L.fileSize) : L.firstPiece = L.offset / L.len := by
  have hp := L.storage.mapFile_piece 1 L.fileIndex_lt (le_refl 0) h
  rw [add_zero] at hp
  exact hp

/-- and the last piece the last one. -/
theorem lastPiece_eq (h : 0 < L.fileSize) :
    L.lastPiece = (L.offset + L.fileSize - 1) / L.len := by
  have hp := L.storage.mapFile_piece 1 L.fileIndex_lt
    (show 0 ≤ L.fileSize - 1 by omega) (show L.fileSize - 1 < L.fileSize by omega)
  rw [add_sub_assoc]
  exact hp

/-- The first piece is no negative index, for an empty file either. -/
theorem firstPiece_nonneg : 0 ≤ L.firstPiece := by
  have hlen := L.len_pos
  have hoff := L.offset_nonneg
  have hi := L.fileIndex_lt
  have hsum : 0 ≤ L.storage.totalSize := List.sum_nonneg L.storage.fileSizes_nonneg
  unfold firstPiece FileStorage.mapFile
  rw [if_neg (by omega)]
  -- `map_file` answers the end of the torrent for an offset behind it
  by_cases hend : L.storage.totalSize ≤ 0 + L.offset
  · show 0 ≤ (if L.storage.totalSize ≤ 0 + L.offset then
      (⟨L.storage.numPieces, 0, 0⟩ : PeerRequest) else _).piece
    rw [if_pos hend]
    have hL : 0 < L.storage.pieceLength := hlen
    exact Int.ediv_nonneg (by omega) (le_of_lt hL)
  · show 0 ≤ (if L.storage.totalSize ≤ 0 + L.offset then
      (⟨L.storage.numPieces, 0, 0⟩ : PeerRequest) else _).piece
    rw [if_neg hend]
    show 0 ≤ (0 + L.offset).tdiv L.len
    exact Int.tdiv_nonneg (by omega) (le_of_lt hlen)

/-- An empty file asks for the offset before its first byte. -/
theorem lastPiece_of_empty (h : L.fileSize = 0) : L.lastPiece = (L.offset - 1).tdiv L.len := by
  have hlen := L.len_pos
  have htot := L.storage.fileOffset_add_fileSize_le L.fileIndex_lt
  have hL : L.storage.fileSize L.fileIndex = 0 := h
  have hi := L.fileIndex_lt
  unfold lastPiece FileStorage.mapFile
  rw [h, if_neg (by omega), if_neg (by omega)]
  show (0 - 1 + L.offset).tdiv L.len = _
  rw [show (0 : ℤ) - 1 + L.offset = L.offset - 1 by ring]

/-- The last piece of an empty file is at or before its first piece. -/
theorem lastPiece_le_firstPiece (h : L.fileSize = 0) : L.lastPiece ≤ L.firstPiece := by
  have hlen := L.len_pos
  have hoff := L.offset_nonneg
  have htot := L.storage.fileOffset_add_fileSize_le L.fileIndex_lt
  have hL : L.storage.fileSize L.fileIndex = 0 := h
  have hi := L.fileIndex_lt
  have hlast := L.lastPiece_of_empty h
  have hfloor : (L.offset - 1).tdiv L.len ≤ L.offset / L.len := by
    rcases Int.le_iff_lt_or_eq.mp hoff with hpos | hzero
    · rw [Int.tdiv_eq_ediv_of_nonneg (by omega)]
      exact Int.ediv_le_ediv hlen (by omega)
    · rw [← hzero, Int.zero_ediv]
      -- an empty file at the start of the torrent: C divides towards zero
      have : ((0 : ℤ) - 1).tdiv L.len = -((1 : ℤ).tdiv L.len) := by
        rw [zero_sub, Int.neg_tdiv]
      rw [this, Int.tdiv_eq_ediv_of_nonneg (by omega)]
      have := Int.ediv_nonneg (show (0 : ℤ) ≤ 1 by omega) (le_of_lt hlen)
      omega
  have hfirst : L.offset / L.len ≤ L.firstPiece := by
    unfold firstPiece FileStorage.mapFile
    rw [if_neg (by omega)]
    show L.offset / L.len ≤ (if L.storage.totalSize ≤ 0 + L.offset then
      (⟨L.storage.numPieces, 0, 0⟩ : PeerRequest) else _).piece
    by_cases hend : L.storage.totalSize ≤ 0 + L.offset
    · rw [if_pos hend]
      have htotal : L.storage.fileOffset L.fileIndex ≤ L.storage.totalSize := by omega
      exact Int.ediv_le_ediv hlen (show L.offset ≤ L.storage.totalSize + L.len - 1 from
        le_trans htotal (by omega))
    · rw [if_neg hend]
      show L.offset / L.len ≤ (0 + L.offset).tdiv L.len
      rw [Int.tdiv_eq_ediv_of_nonneg (by omega), zero_add]
  omega

/-- The last piece of a file with a byte is one of the torrent. -/
theorem lastPiece_lt_numPieces (h : 0 < L.fileSize) : L.lastPiece < L.storage.numPieces := by
  have hlen := L.len_pos
  have htot := L.storage.fileOffset_add_fileSize_le L.fileIndex_lt
  have hend : L.offset + L.fileSize - 1 + L.len ≤ L.storage.totalSize + L.len - 1 := by
    unfold offset fileSize
    omega
  have hdiv : (L.offset + L.fileSize - 1 + L.len) / L.len ≤ L.storage.numPieces :=
    Int.ediv_le_ediv hlen hend
  rw [Int.add_ediv_of_dvd_right (dvd_refl _), Int.ediv_self (ne_of_gt hlen)] at hdiv
  rw [L.lastPiece_eq h]
  omega

/-- They are in order if there is a byte. -/
theorem firstPiece_le_lastPiece (h : 0 < L.fileSize) : L.firstPiece ≤ L.lastPiece := by
  rw [L.firstPiece_eq h, L.lastPiece_eq h]
  exact Int.ediv_le_ediv L.len_pos (by omega)

/-- The first piece of an empty file is at most one behind its last piece. -/
theorem firstPiece_le_lastPiece_add_one : L.firstPiece ≤ L.lastPiece + 1 := by
  rcases eq_or_lt_of_le L.fileSize_nonneg with hzero | hsize
  · have hlen := L.len_pos
    have hoff := L.offset_nonneg
    have hi := L.fileIndex_lt
    have hend : L.offset ≤ L.storage.totalSize := by
      have htot := L.storage.fileOffset_add_fileSize_le L.fileIndex_lt
      have hL : L.storage.fileSize L.fileIndex = 0 := hzero.symm
      unfold offset
      omega
    -- either way it is at most the offset over the length, rounded up
    have hfirst : L.firstPiece ≤ (L.offset - 1 + L.len) / L.len := by
      unfold firstPiece FileStorage.mapFile
      rw [if_neg (by omega)]
      show (if L.storage.totalSize ≤ 0 + L.offset then
        (⟨L.storage.numPieces, 0, 0⟩ : PeerRequest) else _).piece ≤ _
      by_cases hlast : L.storage.totalSize ≤ 0 + L.offset
      · rw [if_pos hlast]
        exact Int.ediv_le_ediv hlen (show L.storage.totalSize + L.len - 1 ≤ _ by omega)
      · rw [if_neg hlast]
        show (0 + L.offset).tdiv L.len ≤ _
        rw [Int.tdiv_eq_ediv_of_nonneg (by omega)]
        exact Int.ediv_le_ediv hlen (by omega)
    rw [Int.add_ediv_of_dvd_right (dvd_refl _), Int.ediv_self (ne_of_gt hlen)] at hfirst
    rw [L.lastPiece_of_empty hzero.symm]
    rcases Int.le_iff_lt_or_eq.mp hoff with hpos | hstart
    · rw [Int.tdiv_eq_ediv_of_nonneg (by omega)]
      exact hfirst
    · rw [← hstart] at hfirst ⊢
      have hneg : ((0 : ℤ) - 1) / L.len < 0 := Int.ediv_neg_of_neg_of_pos (by omega) hlen
      have htdiv : -1 ≤ ((0 : ℤ) - 1).tdiv L.len := by
        rw [zero_sub, Int.neg_tdiv, Int.tdiv_eq_ediv_of_nonneg (by omega)]
        have hone := Int.ediv_le_self L.len (show (0 : ℤ) ≤ 1 by omega)
        omega
      omega
  · have := L.firstPiece_le_lastPiece hsize
    omega

/-- Piece `i` holds a byte of the part of `[b, e)` that lies in the selected file. -/
def Holds (b e i : ℤ) : Prop :=
  ∃ x, b ≤ x ∧ x < e ∧ x < L.fileSize ∧ (L.offset + x) / L.len = i

/-- The pieces of a range inside the file are those between the pieces of its two ends. -/
theorem holds_iff {b e i : ℤ} (he : e ≤ L.fileSize) :
    L.Holds b e i ↔
      b < e ∧ (L.offset + b) / L.len ≤ i ∧ i ≤ (L.offset + e - 1) / L.len := by
  have hblock := block_meets_iff (a := L.offset + b) (b := L.offset + e) (i := i) L.len_pos
  constructor
  · rintro ⟨x, hbx, hxe, -, hi⟩
    have h := hblock.mp ⟨L.offset + x, by omega, by omega, hi⟩
    exact ⟨by omega, h.2⟩
  · rintro ⟨hbe, hlo, hhi⟩
    obtain ⟨y, hy, hye, hyi⟩ := hblock.mpr ⟨by omega, hlo, hhi⟩
    exact ⟨y - L.offset, by omega, by omega, by omega,
      by rw [show L.offset + (y - L.offset) = y by ring]; exact hyi⟩

/-- Every piece of the file is had. -/
def Complete (had : ℤ → Bool) : Prop :=
  ∀ i, L.Holds 0 L.fileSize i → had i = true

/-- The pieces of the file are those between the two. -/
theorem holds_file_iff (h : 0 < L.fileSize) {i : ℤ} :
    L.Holds 0 L.fileSize i ↔ L.firstPiece ≤ i ∧ i ≤ L.lastPiece := by
  rw [L.holds_iff (le_refl _), L.firstPiece_eq h, L.lastPiece_eq h, add_zero]
  exact ⟨fun hi => hi.2, fun hi => ⟨h, hi⟩⟩

/-- A file is complete if all these are had. -/
theorem complete_iff (h : 0 < L.fileSize) {had : ℤ → Bool} :
    L.Complete had ↔ ∀ i, L.firstPiece ≤ i → i ≤ L.lastPiece → had i = true := by
  unfold Complete
  constructor
  · intro hc i hi hi'
    exact hc i ((L.holds_file_iff h).mpr ⟨hi, hi'⟩)
  · intro hc i hi
    have hb := (L.holds_file_iff h).mp hi
    exact hc i hb.1 hb.2

/-- An empty file has no pieces to wait for. -/
theorem complete_of_empty (h : L.fileSize = 0) (had : ℤ → Bool) : L.Complete had := by
  rintro i ⟨x, hx, hxe, -, -⟩
  omega

end Layout

/-! ### The handle -/

/-- The state behind a `torrent_handle`.  `havePiece` outside `[0, numPieces)` is whatever
    memory holds there; `deadline i` is the deadline outstanding for piece `i`, if any. -/
structure TorrentHandle where
  valid : Bool
  info : FileStorage
  havePiece : ℤ → Bool
  deadline : ℤ → Option ℤ
  piecePriority : ℤ → ℤ

namespace TorrentHandle

/-- `set_piece_deadline(i, ms, alert_when_available)`. -/
def setPieceDeadline (h : TorrentHandle) (i ms : ℤ) : TorrentHandle :=
  { h with deadline := Function.update h.deadline i (some ms) }

/-- `clear_piece_deadlines()`: no deadline stays outstanding. -/
def clearPieceDeadlines (h : TorrentHandle) : TorrentHandle :=
  { h with deadline := fun _ => none }

/-- `piece_priority(i, priority)`. -/
def setPiecePriority (h : TorrentHandle) (i priority : ℤ) : TorrentHandle :=
  { h with piecePriority := Function.update h.piecePriority i priority }

/-- libtorrent has finished piece `i`; a deadline set for it is no longer outstanding. -/
def finishPiece (h : TorrentHandle) (i : ℤ) : TorrentHandle :=
  { h with
    havePiece := Function.update h.havePiece i true
    deadline := Function.update h.deadline i none }

end TorrentHandle

/-- The handle of a torrent that has just been added, with some of its pieces had. -/
def Layout.freshHandle (L : Layout) (had : ℤ → Bool) : TorrentHandle where
  valid := true
  info := L.storage
  havePiece := had
  deadline := fun _ => none
  piecePriority := fun _ => 0

/-- A torrent of pieces of ten bytes with a file of five bytes and one of twenty; the second
    one is selected.  It has bytes in the pieces `0`, `1` and `2`. -/
def secondFile : Layout where
  storage :=
    { pieceLength := 10
      fileSizes := [5, 20]
      pieceLength_pos := by decide
      fileSizes_nonneg := by decide }
  fileIndex := 1
  fileIndex_lt := by decide

example : secondFile.firstPiece = 0 ∧ secondFile.lastPiece = 2 := by decide

end PopcornTime.Desktop
