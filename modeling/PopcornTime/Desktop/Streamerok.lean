import PopcornTime.Desktop.TAux

namespace PopcornTime.Desktop

open PopcornTime

/-!
# Desktop streamer — the entry points that take a torrent id

`Streamerok` keeps one `TAux` a torrent in `tMap` and one pending seek request for all of them.
`getAux` answers a null pointer for an unknown id or an invalid handle; the entry points below
dereference it unchecked, which is the result `none` here, as is the exception that
`piecesDeadlines.at` throws inside `updateDeadlines`.
-/

structure Streamerok where
  nextId : ℤ
  needSeekToThisPiece : ℤ
  tMap : ℤ → Option TAux

namespace Streamerok

/-- The constructor; `NO_MONGOOSE_WEB_SERVER` is defined. -/
def new : Streamerok where
  nextId := 0
  needSeekToThisPiece := -1
  tMap := fun _ => none

/-- `getAux`: an entry whose handle has become invalid is erased on the way. -/
def getAux (s : Streamerok) (torrentId : ℤ) : Option TAux × Streamerok :=
  match s.tMap torrentId with
  | none => (none, s)
  | some t =>
    if t.handle.valid then (some t, s)
    else (none, { s with tMap := Function.update s.tMap torrentId none })

/-- `isRangeDownloaded`: a loop over the pieces from `begin / pieceLength` to
    `end / pieceLength`, counted from the file's first piece. -/
def isRangeDownloaded (s : Streamerok) (begin end_ torrentId : ℤ) : Option Bool := do
  let ta ← (s.getAux torrentId).1
  if ta.fileSize < begin ∨ ta.fileSize < end_ then some false
  else
    let first := begin.tdiv ta.pieceLength + ta.fileVeryFirstPiece
    let last := end_.tdiv ta.pieceLength + ta.fileVeryFirstPiece
    some ((Int.range first (last + 1)).all ta.handle.havePiece)

/-- `seekInFile`: the seek point is handed to `updateDeadlines` together with piece `0`. -/
def seekInFile (s : Streamerok) (offset torrentId : ℤ) : Option (ℤ × Streamerok) := do
  let ta ← (s.getAux torrentId).1
  -- the size itself is let through
  if ta.fileSize < offset then some (-1, s)
  else do
    let (ta, needSeek) ← ta.updateDeadlines 0
      (offset.tdiv ta.pieceLength + ta.fileVeryFirstPiece)
    some (0, { s with
      needSeekToThisPiece := needSeek
      tMap := Function.update s.tMap torrentId (some ta) })

/-- `handle_alert` for the `read_piece_alert` of a piece of torrent `torrentId`. -/
def handleReadPieceAlert (s : Streamerok) (torrentId piece : ℤ) : Option Streamerok :=
  match s.tMap torrentId with
  | none => some s
  | some ta => do
    let (ta, needSeek) ← ta.updateDeadlines piece s.needSeekToThisPiece
    some { s with
      needSeekToThisPiece := needSeek
      tMap := Function.update s.tMap torrentId (some ta) }

theorem getAux_eq {s : Streamerok} {torrentId : ℤ} {t : TAux} (h : s.tMap torrentId = some t)
    (hvalid : t.handle.valid = true) : s.getAux torrentId = (some t, s) := by
  rw [getAux, h]
  exact if_pos hvalid

/-- `isRangeDownloaded` on a torrent with a layout. -/
theorem isRangeDownloaded_eq {s : Streamerok} {torrentId begin end_ : ℤ} {t : TAux} {L : Layout}
    (h : s.tMap torrentId = some t) (hfor : t.For L) (hb : 0 ≤ begin) (he : 0 ≤ end_) :
    s.isRangeDownloaded begin end_ torrentId =
      if L.fileSize < begin ∨ L.fileSize < end_ then some false
      else some ((Int.range (L.firstPiece + begin / L.len) (L.firstPiece + end_ / L.len + 1)).all
        t.handle.havePiece) := by
  unfold isRangeDownloaded
  rw [getAux_eq h hfor.valid]
  simp only [Option.bind_eq_bind, Option.bind_some, hfor.fileSize, hfor.pieceLength,
    hfor.fileVeryFirstPiece, Int.tdiv_eq_ediv_of_nonneg hb, Int.tdiv_eq_ediv_of_nonneg he,
    add_comm L.firstPiece]

end Streamerok

end PopcornTime.Desktop
