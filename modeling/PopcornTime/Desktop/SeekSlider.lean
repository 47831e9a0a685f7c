import Mathlib.Algebra.Order.Monoid.WithTop
import Mathlib.Tactic.LinearCombination
import PopcornTime.Desktop.StartupProgress
import PopcornTime.Lib.Binary32Order

namespace PopcornTime.Desktop

open PopcornTime

/-!
# Desktop player — the seek bar

`SeekSlider` and `SeekControl` of the player window.  `downloadInfoChange` turns what the streamer
reports of a torrent into the part of the bar that can be played, and `updateEvent` turns a click
into the time to seek to.  A `double` that has been divided by zero is `⊤`.

* `QSlider` — the slider underneath, whose value never leaves its range.
* `seekBar_iff` — when the numbers of the bar are right, and grow with the download.
* `sought_iff` — when a click seeks to the clicked fraction of the film.
-/

def TK_NET_BUFFERING : String := "Network Buffering"

/-! ### The slider -/

/-- `QSlider`: its value lies between its minimum and its maximum. -/
structure QSlider where
  minimum : ℤ
  maximum : ℤ
  value : ℤ
  minimum_le : minimum ≤ value
  le_maximum : value ≤ maximum

namespace QSlider

/-- `setValue` stays in the range. -/
def setValue (s : QSlider) (value : ℤ) : QSlider where
  minimum := s.minimum
  maximum := s.maximum
  value := max s.minimum (min s.maximum value)
  minimum_le := le_max_left _ _
  le_maximum := max_le (s.minimum_le.trans s.le_maximum) (min_le_left _ _)

/-- `setMaximum` moves the minimum and the value along. -/
def setMaximum (s : QSlider) (maximum : ℤ) : QSlider where
  minimum := min s.minimum maximum
  maximum := maximum
  value := max (min s.minimum maximum) (min maximum s.value)
  minimum_le := le_max_left _ _
  le_maximum := max_le (min_le_right _ _) (min_le_left _ _)

end QSlider

/-- `SeekSlider`, with its place in the control. -/
structure SeekSlider extends QSlider where
  x : ℤ
  width : ℤ
  fullSize : ℤ
  currentSize : ℤ
  playablePart : WithTop ℚ
  arbitrarySeek : Bool

namespace SeekSlider

/-- `updateCurrentSize` -/
def updateCurrentSize (s : SeekSlider) (size : ℤ) : SeekSlider :=
  { s with currentSize := if s.fullSize < int32 size then s.fullSize else int32 size }

/-- `updateFullSize` -/
def updateFullSize (s : SeekSlider) (size : ℤ) : SeekSlider :=
  { s with fullSize := int32 size }

/-- `updatePlayablePart` -/
def updatePlayablePart (s : SeekSlider) (part : WithTop ℚ) : SeekSlider :=
  { s with playablePart := part }

/-- `canStillPlay` -/
def canStillPlay (s : SeekSlider) (time : ℤ) : Bool :=
  if s.arbitrarySeek then true
  else if s.fullSize = 0 ∨ s.maximum = 0 ∨ s.fullSize = s.currentSize then true
  else
    decide ((Binary32.div (Binary32.ofInt time) (Binary32.ofInt s.maximum) : WithTop ℚ) <
      s.playablePart)

/-- The test in front of a seek. -/
def canSeekTo (s : SeekSlider) (clickPos : ℤ) : Bool :=
  s.arbitrarySeek || !decide (int32 (s.currentSize * s.width) ≤ int32 (clickPos * s.fullSize))

end SeekSlider

/-- A label as far as the control writes it. -/
structure Label where
  text : String
  styleSheet : String
deriving DecidableEq, Repr

/-- The signals of the control. -/
inductive SeekSignal
  | sought (time : ℤ)
  | needTextUpdate
  | updateStatusLabel (text : String)
deriving DecidableEq, Repr

structure SeekControl where
  seek : SeekSlider
  lock : Bool
  labelFull : Option Label
  labelByteRate : Option Label
  kByteRateMedia : ℤ

/-- A number of a time, with a leading zero. -/
def twoDigits (n : ℤ) : String :=
  if n < 10 then "0" ++ toString n else toString n

/-- `QTime( 0, 0, 0, 0 ).addMSecs( time )` as minutes and seconds, after the hours if there are
    any. -/
def timeText (time : ℤ) : String :=
  let ms := time % 86400000
  let text := twoDigits (ms % 3600000 / 60000) ++ ":" ++ twoDigits (ms % 60000 / 1000)
  if 0 < ms / 3600000 then twoDigits (ms / 3600000) ++ ":" ++ text else text

namespace SeekControl

/-- `updateFullTime` -/
def updateFullTime (c : SeekControl) (time : ℤ) : SeekControl :=
  if c.lock then c
  else
    { c with
      labelFull := c.labelFull.map fun label => { label with text := timeText time }
      seek := { c.seek with toQSlider := c.seek.setMaximum (if time ≠ 0 then time else 1) } }

/-- `updateEvent`.  The scale is an integer quotient; what is computed with it in `float` is exact
    here. -/
def updateEvent (c : SeekControl) (pos : ℤ) : SeekControl × List SeekSignal :=
  if pos < c.seek.x ∨ c.seek.x + c.seek.width < pos then (c, [])
  else
    let clickPos := pos - c.seek.x
    -- behind the playable part nothing is sought
    if ¬c.seek.canSeekTo clickPos then (c, [])
    else
      let op : ℚ := (c.seek.maximum.tdiv c.seek.width : ℤ)
      let newValue := Binary32.toInt (clickPos * op)
      ({ c with seek := { c.seek with toQSlider := c.seek.setValue newValue } },
        [.sought newValue])

/-- `piecesTotal` of `downloadInfoChange`. -/
def piecesTotal (info : DlInfo) : ℤ :=
  if info.piecesDone = info.piecesTotal then uint32 info.piecesTotal
  else uint32 (info.piecesTotal - info.piecesStartupAtEnd)

/-- `piecesDone` of `downloadInfoChange`. -/
def piecesDone (info : DlInfo) : ℤ :=
  let piecesDone :=
    if info.piecesDone = info.piecesTotal then uint32 info.piecesTotal
    else uint32 (info.piecesDone - info.piecesStartup)
  if piecesDone < 1 then 1 else piecesDone

/-- `ratio` of `downloadInfoChange`; the dividend is positive. -/
def ratio (info : DlInfo) : WithTop ℚ :=
  if info.piecesDone = info.piecesTotal then 1
  else if piecesTotal info = 0 then ⊤
  else (Binary32.div (Binary32.ofInt (piecesDone info)) (Binary32.ofInt (piecesTotal info)) : ℚ)

/-- The byte rate that `downloadInfoChange` shows. -/
def updateByteRate (c : SeekControl) (info : DlInfo) : SeekControl :=
  match c.labelByteRate with
  | none => c
  | some _ =>
    if info.total ≠ 0 ∧ info.downloaded ≠ 0 then
      let kByteRateMedia :=
        -- without a length the rate of the film before stays
        if 1 < c.seek.maximum then int32 (info.total.tdiv c.seek.maximum) else c.kByteRateMedia
      let kByteRateDownload := int32 (info.downloadRateBs.tdiv 1000)
      { c with
        kByteRateMedia := kByteRateMedia
        labelByteRate := some
          { text := " " ++ toString kByteRateDownload ++ " Kb/s"
            styleSheet :=
              if kByteRateDownload < kByteRateMedia then "color:red;" else "color:green;" } }
    else { c with labelByteRate := some { text := "-", styleSheet := "color:#999999;" } }

/-- `downloadInfoChange` -/
def downloadInfoChange (c : SeekControl) (info : DlInfo) : SeekControl × List SeekSignal :=
  let seek := ((c.seek.updateFullSize (piecesTotal info)).updateCurrentSize
    (piecesDone info)).updatePlayablePart (ratio info)
  (({ c with seek := seek } : SeekControl).updateByteRate info,
    if seek.canStillPlay seek.value then [.needTextUpdate]
    else [.updateStatusLabel TK_NET_BUFFERING])

@[simp] theorem updateByteRate_seek (c : SeekControl) (info : DlInfo) :
    (c.updateByteRate info).seek = c.seek := by
  unfold updateByteRate
  split
  · rfl
  · split_ifs <;> rfl

@[simp] theorem downloadInfoChange_seek (c : SeekControl) (info : DlInfo) :
    (c.downloadInfoChange info).1.seek =
      ((c.seek.updateFullSize (piecesTotal info)).updateCurrentSize
        (piecesDone info)).updatePlayablePart (ratio info) :=
  updateByteRate_seek _ _

theorem downloadInfoChange_fullSize (c : SeekControl) (info : DlInfo) :
    (c.downloadInfoChange info).1.seek.fullSize = int32 (piecesTotal info) := by
  rw [downloadInfoChange_seek]
  rfl

/-- The size of what is there never exceeds the full one. -/
theorem downloadInfoChange_currentSize (c : SeekControl) (info : DlInfo) :
    (c.downloadInfoChange info).1.seek.currentSize =
      min (int32 (piecesTotal info)) (int32 (piecesDone info)) := by
  rw [downloadInfoChange_seek]
  show (if int32 (piecesTotal info) < int32 (piecesDone info) then int32 (piecesTotal info)
    else int32 (piecesDone info)) = _
  split_ifs <;> omega

theorem downloadInfoChange_playablePart (c : SeekControl) (info : DlInfo) :
    (c.downloadInfoChange info).1.seek.playablePart = ratio info := by
  rw [downloadInfoChange_seek]
  rfl

/-! ### The part that can be played -/

section Report

variable {info : DlInfo}

/-- A report whose pieces done are as many as the file has. -/
theorem seek_of_eq (c : SeekControl) (h : info.piecesDone = info.piecesTotal)
    (h₀ : 0 ≤ info.piecesTotal) (h₁ : info.piecesTotal < 2 ^ 31) :
    (c.downloadInfoChange info).1.seek.fullSize = info.piecesTotal ∧
      (c.downloadInfoChange info).1.seek.currentSize = info.piecesTotal ∧
      (c.downloadInfoChange info).1.seek.playablePart = 1 := by
  have htotal : uint32 info.piecesTotal = info.piecesTotal := by
    unfold uint32
    omega
  have hfull : int32 (piecesTotal info) = info.piecesTotal := by
    rw [piecesTotal, if_pos h, htotal, int32_eq (by omega) h₁]
  have hdone : int32 (piecesDone info) = max 1 info.piecesTotal := by
    rw [piecesDone, if_pos h, htotal]
    split_ifs
    · rw [int32_eq (by omega) (by omega)]
      omega
    · rw [int32_eq (by omega) (by omega)]
      omega
  rw [downloadInfoChange_fullSize, downloadInfoChange_currentSize, downloadInfoChange_playablePart,
    hfull, hdone]
  exact ⟨rfl, by omega, if_pos h⟩

/-- What is left of the pieces done in an `int`: at least one, unless they are fewer than the
    start-up pieces. -/
theorem int32_piecesDone (h : info.piecesDone ≠ info.piecesTotal)
    (h₀ : -2 ^ 31 ≤ info.piecesDone - info.piecesStartup)
    (h₁ : info.piecesDone - info.piecesStartup < 2 ^ 31) :
    int32 (piecesDone info) = if info.piecesDone < info.piecesStartup then
      info.piecesDone - info.piecesStartup else max 1 (info.piecesDone - info.piecesStartup) := by
  rw [piecesDone, if_neg h]
  by_cases hlt : info.piecesDone < info.piecesStartup
  · have hone : ¬uint32 (info.piecesDone - info.piecesStartup) < 1 := by
      unfold uint32
      omega
    rw [if_neg hone, if_pos hlt, int32_uint32 h₀ h₁]
  · have hdone : uint32 (info.piecesDone - info.piecesStartup) =
        info.piecesDone - info.piecesStartup := by
      unfold uint32
      omega
    rw [hdone, if_neg hlt]
    split_ifs
    · rw [int32_eq (by omega) (by omega)]
      omega
    · rw [int32_eq (by omega) (by omega)]
      omega

theorem seek_of_ne (c : SeekControl) (h : info.piecesDone ≠ info.piecesTotal)
    (h₀ : -2 ^ 31 ≤ info.piecesTotal - info.piecesStartupAtEnd)
    (h₁ : info.piecesTotal - info.piecesStartupAtEnd < 2 ^ 31) :
    (c.downloadInfoChange info).1.seek.fullSize = info.piecesTotal - info.piecesStartupAtEnd ∧
      (c.downloadInfoChange info).1.seek.currentSize =
        min (info.piecesTotal - info.piecesStartupAtEnd) (int32 (piecesDone info)) := by
  have hfull : int32 (piecesTotal info) = info.piecesTotal - info.piecesStartupAtEnd := by
    rw [piecesTotal, if_neg h, int32_uint32 h₀ h₁]
  rw [downloadInfoChange_fullSize, downloadInfoChange_currentSize, hfull]
  exact ⟨rfl, rfl⟩

/-- The playable part of a report with enough pieces. -/
theorem ratio_of_ne (h : info.piecesDone ≠ info.piecesTotal)
    (hdone : info.piecesStartup ≤ info.piecesDone)
    (hdone₁ : info.piecesDone - info.piecesStartup < 2 ^ 31)
    (htotal : info.piecesStartupAtEnd < info.piecesTotal)
    (htotal₁ : info.piecesTotal - info.piecesStartupAtEnd < 2 ^ 31) :
    ratio info = (Binary32.div
      (Binary32.ofInt (max 1 (info.piecesDone - info.piecesStartup)))
      (Binary32.ofInt (info.piecesTotal - info.piecesStartupAtEnd)) : ℚ) := by
  have hpt : piecesTotal info = info.piecesTotal - info.piecesStartupAtEnd := by
    rw [piecesTotal, if_neg h, uint32]
    omega
  have hpd : piecesDone info = max 1 (info.piecesDone - info.piecesStartup) := by
    rw [piecesDone, if_neg h, uint32]
    split_ifs <;> omega
  rw [ratio, if_neg h, hpt, if_neg (by omega), hpd]

end Report

end SeekControl

/-- What the seek bar should hold after a report. -/
structure SeekBarRight (L : Layout) (had : ℤ → Bool) (s : SeekSlider) : Prop where
  currentSize_nonneg : 0 ≤ s.currentSize
  currentSize_le : s.currentSize ≤ s.fullSize
  playablePart_nonneg : 0 ≤ s.playablePart
  playablePart_le : s.playablePart ≤ 1
  complete_of_one : s.playablePart = 1 → L.Complete had

namespace Layout

variable (L : Layout)

/-- The `float` numbers that are divided where the pieces done are not as many as the file has. -/
def playableDone (piecesDone : ℤ) : ℚ :=
  Binary32.ofInt (max 1 (piecesDone - (L.startCount + L.endCount)))

def playableTotal : ℚ := Binary32.ofInt (L.piecesCount - L.endCount)

/-- The report can be told on the bar: as many pieces are done as the file has, and they are those
    of the file; or at least the start-up pieces are done and less behind them than the file has in
    front of its end pieces, or as much and all of them. -/
def SeekBarFits (had : ℤ → Bool) (piecesDone : ℤ) : Prop :=
  (piecesDone = L.piecesCount → L.Complete had) ∧
    (piecesDone ≠ L.piecesCount →
      L.startCount + L.endCount ≤ piecesDone ∧ L.endCount < L.piecesCount ∧
        L.playableDone piecesDone ≤ L.playableTotal ∧
        (L.playableDone piecesDone = L.playableTotal → L.Complete had))

theorem piecesCount_lt (h : L.storage.numPieces < 2 ^ 31) : L.piecesCount < 2 ^ 31 := by
  have hfirst := L.firstPiece_nonneg
  unfold piecesCount
  rcases eq_or_lt_of_le L.fileSize_nonneg with hzero | hsize
  · have := L.lastPiece_le_firstPiece hzero.symm
    omega
  · have := L.lastPiece_lt_numPieces hsize
    omega

theorem playableDone_pos (piecesDone : ℤ) : 0 < L.playableDone piecesDone :=
  Binary32.ofInt_pos (by omega)

theorem playableDone_mono {m n : ℤ} (h : m ≤ n) : L.playableDone m ≤ L.playableDone n :=
  Binary32.ofInt_mono (by omega) (by omega)

end Layout

section SeekBar

variable {L : Layout} {t : TAux}

theorem dlInfo_pieces (hfor : t.For L) (ts : TorrentStatus) :
    (t.dlInfo ts).piecesTotal = L.piecesCount ∧
      (t.dlInfo ts).piecesStartup = L.startCount + L.endCount ∧
      (t.dlInfo ts).piecesStartupAtEnd = L.endCount := by
  refine ⟨?_, piecesStartup_eq hfor ts, hfor.startupPiecesCountAtEnd⟩
  show t.fileLastPiece - t.fileFirstPiece + 1 = _
  rw [hfor.fileFirstPiece, hfor.fileLastPiece]
  rfl

/-- The playable part, where the report has enough pieces or as many as the file. -/
theorem playablePart_eq (hfor : t.For L) (ts : TorrentStatus)
    (hpieces : L.storage.numPieces < 2 ^ 31) (h₁ : ts.numPieces < 2 ^ 31) (c : SeekControl) :
    (ts.numPieces = L.piecesCount →
        (c.downloadInfoChange (t.dlInfo ts)).1.seek.playablePart = 1) ∧
      (ts.numPieces ≠ L.piecesCount → L.startCount + L.endCount ≤ ts.numPieces →
        L.endCount < L.piecesCount →
        (c.downloadInfoChange (t.dlInfo ts)).1.seek.playablePart =
          (Binary32.div (L.playableDone ts.numPieces) L.playableTotal : ℚ)) := by
  obtain ⟨htotal, hstartup, hend⟩ := dlInfo_pieces hfor ts
  have hn := L.piecesCount_nonneg
  have hn₁ := L.piecesCount_lt hpieces
  have hs := L.startCount_ge
  have he := L.endCount_ge
  constructor
  · intro h
    exact (SeekControl.seek_of_eq c (h.trans htotal.symm) (by omega) (by omega)).2.2
  · intro h hdone hlt
    rw [SeekControl.downloadInfoChange_playablePart]
    have hdone' : (t.dlInfo ts).piecesDone = ts.numPieces := rfl
    rw [SeekControl.ratio_of_ne (by omega) (by omega) (by omega) (by omega) (by omega), hstartup,
      hend, htotal, hdone']
    rfl

/-- A report of as many pieces as the file has fills the bar. -/
theorem seekBarRight_of_eq (hfor : t.For L) (ts : TorrentStatus) (c : SeekControl)
    (hpieces : L.storage.numPieces < 2 ^ 31) (heq : ts.numPieces = L.piecesCount)
    (hc : L.Complete t.handle.havePiece) :
    SeekBarRight L t.handle.havePiece (c.downloadInfoChange (t.dlInfo ts)).1.seek := by
  obtain ⟨htotal, -, -⟩ := dlInfo_pieces hfor ts
  have hdone : (t.dlInfo ts).piecesDone = ts.numPieces := rfl
  have hn := L.piecesCount_nonneg
  have hn₁ := L.piecesCount_lt hpieces
  obtain ⟨hfull, hcurrent, hone⟩ :=
    SeekControl.seek_of_eq c (hdone.trans (heq.trans htotal.symm)) (by omega) (by omega)
  refine ⟨?_, ?_, ?_, ?_, fun _ => hc⟩
  · rw [hcurrent]
    omega
  · rw [hcurrent, hfull]
  · rw [hone]
    exact zero_le_one
  · rw [hone]

/-- Where the file has pieces in front of its end ones and the start-up pieces are done, what is
    divided decides. -/
theorem seekBarRight_of_room (hfor : t.For L) (ts : TorrentStatus) (c : SeekControl)
    (hpieces : L.storage.numPieces < 2 ^ 31) (h₁ : ts.numPieces < 2 ^ 31)
    (hne : ts.numPieces ≠ L.piecesCount) (hdone : L.startCount + L.endCount ≤ ts.numPieces)
    (hroom : L.endCount < L.piecesCount)
    (hsize : 0 ≤ (c.downloadInfoChange (t.dlInfo ts)).1.seek.currentSize ∧
      (c.downloadInfoChange (t.dlInfo ts)).1.seek.currentSize ≤
        (c.downloadInfoChange (t.dlInfo ts)).1.seek.fullSize) :
    SeekBarRight L t.handle.havePiece (c.downloadInfoChange (t.dlInfo ts)).1.seek ↔
      L.playableDone ts.numPieces ≤ L.playableTotal ∧
        (L.playableDone ts.numPieces = L.playableTotal → L.Complete t.handle.havePiece) := by
  have hx := L.playableDone_pos ts.numPieces
  have hfx : Binary32.IsFloat (L.playableDone ts.numPieces) := Binary32.isFloat_ofInt (by omega)
  have hy : 0 < L.playableTotal := Binary32.ofInt_pos (by omega)
  have hfy : Binary32.IsFloat L.playableTotal := Binary32.isFloat_ofInt (by omega)
  have hpart := (playablePart_eq hfor ts hpieces h₁ c).2 hne hdone hroom
  -- rounding keeps the quotient on its side of one, so the floats decide as the numbers do
  rw [← Binary32.div_le_one_iff hfx hfy hx hy, ← Binary32.div_eq_one_iff hfx hfy hx hy]
  constructor
  · rintro ⟨-, -, -, hle, hc⟩
    rw [hpart] at hle hc
    exact ⟨by exact_mod_cast hle, fun h => hc (by exact_mod_cast h)⟩
  · rintro ⟨hle, hc⟩
    refine ⟨hsize.1, hsize.2, ?_, ?_, ?_⟩
    · rw [hpart]
      exact_mod_cast Binary32.round_nonneg (div_nonneg hx.le hy.le)
    · rw [hpart]
      exact_mod_cast hle
    · rw [hpart]
      intro h
      exact hc (by exact_mod_cast h)

/-- A file of no piece in front of its end pieces makes the ratio infinite. -/
theorem playablePart_eq_top (hfor : t.For L) (ts : TorrentStatus) (c : SeekControl)
    (hne : ts.numPieces ≠ L.piecesCount) (hroom : L.endCount = L.piecesCount) :
    (c.downloadInfoChange (t.dlInfo ts)).1.seek.playablePart = ⊤ := by
  obtain ⟨htotal, -, hend⟩ := dlInfo_pieces hfor ts
  have hne' : (t.dlInfo ts).piecesDone ≠ (t.dlInfo ts).piecesTotal := by
    rw [htotal]
    exact hne
  have hzero : SeekControl.piecesTotal (t.dlInfo ts) = 0 := by
    rw [SeekControl.piecesTotal, if_neg hne', htotal, hend, hroom, sub_self]
    rfl
  rw [SeekControl.downloadInfoChange_playablePart, SeekControl.ratio, if_neg hne', if_pos hzero]

/-- **One report.** -/
theorem seekBarRight_iff (hfor : t.For L) (ts : TorrentStatus) (c : SeekControl)
    (hpieces : L.storage.numPieces < 2 ^ 31) (h₀ : 0 ≤ ts.numPieces)
    (h₁ : ts.numPieces < 2 ^ 31) :
    SeekBarRight L t.handle.havePiece (c.downloadInfoChange (t.dlInfo ts)).1.seek ↔
      L.SeekBarFits t.handle.havePiece ts.numPieces := by
  obtain ⟨htotal, hstartup, hend⟩ := dlInfo_pieces hfor ts
  have hdone : (t.dlInfo ts).piecesDone = ts.numPieces := rfl
  have hn := L.piecesCount_nonneg
  have hn₁ := L.piecesCount_lt hpieces
  have hs := L.startCount_ge
  have he := L.endCount_ge
  have hcounts := L.startCount_add_endCount_le
  unfold Layout.SeekBarFits
  by_cases heq : ts.numPieces = L.piecesCount
  · simp only [heq, ne_eq, not_true_eq_false, false_implies, and_true, true_implies]
    refine ⟨fun hright => ?_, seekBarRight_of_eq hfor ts c hpieces heq⟩
    exact hright.complete_of_one ((playablePart_eq hfor ts hpieces h₁ c).1 heq)
  have hne : (t.dlInfo ts).piecesDone ≠ (t.dlInfo ts).piecesTotal := by omega
  obtain ⟨hfull, hcurrent⟩ := SeekControl.seek_of_ne c hne (by omega) (by omega)
  rw [SeekControl.int32_piecesDone (by omega) (by omega) (by omega)] at hcurrent
  simp only [heq, ne_eq, not_false_eq_true, false_implies, true_implies, true_and]
  -- a negative size on either side leaves the bar wrong
  by_cases hlt : ts.numPieces < L.startCount + L.endCount
  · refine iff_of_false (fun hright => ?_) (fun h => absurd h.1 (by omega))
    have := hright.currentSize_nonneg
    rw [hcurrent, if_pos (by omega)] at this
    omega
  rw [if_neg (by omega)] at hcurrent
  rcases lt_trichotomy L.endCount L.piecesCount with hroom | hroom | hroom
  · rw [seekBarRight_of_room hfor ts c hpieces h₁ heq (by omega) hroom ⟨by omega, by omega⟩]
    exact ⟨fun h => ⟨by omega, hroom, h⟩, fun h => h.2.2⟩
  · refine iff_of_false (fun hright => ?_) (fun h => absurd h.2.1 (by omega))
    have htop := hright.playablePart_le
    rw [playablePart_eq_top hfor ts c heq hroom] at htop
    exact absurd htop (by decide)
  · refine iff_of_false (fun hright => ?_) (fun h => absurd h.2.1 (by omega))
    have := hright.currentSize_nonneg
    omega

/-- Between two right reports the playable part only falls behind a report of as many pieces as the
    file has. -/
theorem playablePart_le_iff {t' : TAux} (hfor : t.For L) (hfor' : t'.For L)
    (ts ts' : TorrentStatus) (c c' : SeekControl) (hpieces : L.storage.numPieces < 2 ^ 31)
    (hle : ts.numPieces ≤ ts'.numPieces) (h₁ : ts'.numPieces < 2 ^ 31)
    (hfits : L.SeekBarFits t.handle.havePiece ts.numPieces)
    (hfits' : L.SeekBarFits t'.handle.havePiece ts'.numPieces) :
    (c.downloadInfoChange (t.dlInfo ts)).1.seek.playablePart ≤
        (c'.downloadInfoChange (t'.dlInfo ts')).1.seek.playablePart ↔
      (ts.numPieces = L.piecesCount → L.piecesCount < ts'.numPieces →
        L.playableTotal ≤ L.playableDone ts'.numPieces) := by
  obtain ⟨hpart, hpart'⟩ := playablePart_eq hfor ts hpieces (by omega) c
  obtain ⟨hpart₁, hpart₁'⟩ := playablePart_eq hfor' ts' hpieces h₁ c'
  have hpos : L.endCount < L.piecesCount → 0 < L.playableTotal := fun h =>
    Binary32.ofInt_pos (by omega)
  -- both operands are floats, so rounding keeps the quotient on its side of one
  have hquot : L.endCount < L.piecesCount → ∀ d, (Binary32.div (L.playableDone d)
      L.playableTotal ≤ 1 ↔ L.playableDone d ≤ L.playableTotal) := fun h d =>
    Binary32.div_le_one_iff (Binary32.isFloat_ofInt (by omega))
      (Binary32.isFloat_ofInt (by omega)) (L.playableDone_pos d) (hpos h)
  by_cases heq : ts.numPieces = L.piecesCount
  · rw [hpart heq]
    by_cases heq' : ts'.numPieces = L.piecesCount
    · rw [hpart₁ heq']
      exact iff_of_true (le_refl _) fun _ hlt => by omega
    · obtain ⟨hdone', hroom', hle', -⟩ := hfits'.2 heq'
      have hone := (hquot hroom' ts'.numPieces).mpr hle'
      -- after the full report only a quotient of one is no step back
      have heq_one := Binary32.div_eq_one_iff
        (Binary32.isFloat_ofInt (n := max 1 (ts'.numPieces - (L.startCount + L.endCount)))
          (by omega))
        (Binary32.isFloat_ofInt (n := L.piecesCount - L.endCount) (by omega))
        (L.playableDone_pos ts'.numPieces) (hpos hroom')
      rw [hpart₁' heq' hdone' hroom']
      constructor
      · intro h _ _
        exact (heq_one.mp (le_antisymm hone (by exact_mod_cast h))).ge
      · intro h
        exact_mod_cast (heq_one.mpr (le_antisymm hle' (h heq (by omega)))).ge
  · refine iff_of_true ?_ fun h => absurd h heq
    obtain ⟨hdone, hroom, hle₀, -⟩ := hfits.2 heq
    rw [hpart' heq hdone hroom]
    by_cases heq' : ts'.numPieces = L.piecesCount
    · rw [hpart₁ heq']
      exact_mod_cast (hquot hroom ts.numPieces).mpr hle₀
    · rw [hpart₁' heq' (by omega) hroom]
      -- both reports divide, and rounding is monotone
      exact_mod_cast Binary32.div_mono (L.playableDone_pos _) (hpos hroom)
        (L.playableDone_mono hle)

/-- **The seek bar.**  For every two reports of a file, the second one with at least as many pieces
    done, the bar is right after both and its playable part does not fall exactly if both reports
    fit and it is not the case that the pieces done are as many as the file has first, and more
    but not enough behind the start-up ones then. -/
theorem seekBar_iff (L : Layout) (s s' : Streamerok) (torrentId : ℤ) (t t' : TAux)
    (status status' : TorrentHandle → TorrentStatus) (memory : DlInfo) (c c' : SeekControl)
    (ht : s.tMap torrentId = some t) (ht' : s'.tMap torrentId = some t') (hfor : t.For L)
    (hfor' : t'.For L) (hpieces : L.storage.numPieces < 2 ^ 31)
    (h₀ : 0 ≤ (status t.handle).numPieces)
    (hle : (status t.handle).numPieces ≤ (status' t'.handle).numPieces)
    (h₁ : (status' t'.handle).numPieces < 2 ^ 31) :
    (SeekBarRight L t.handle.havePiece
          (c.downloadInfoChange (s.getTorrentInfo status memory torrentId).1).1.seek ∧
        SeekBarRight L t'.handle.havePiece
          (c'.downloadInfoChange (s'.getTorrentInfo status' memory torrentId).1).1.seek ∧
        (c.downloadInfoChange (s.getTorrentInfo status memory torrentId).1).1.seek.playablePart ≤
          (c'.downloadInfoChange
            (s'.getTorrentInfo status' memory torrentId).1).1.seek.playablePart) ↔
      L.SeekBarFits t.handle.havePiece (status t.handle).numPieces ∧
        L.SeekBarFits t'.handle.havePiece (status' t'.handle).numPieces ∧
        ((status t.handle).numPieces = L.piecesCount →
          L.piecesCount < (status' t'.handle).numPieces →
          L.playableTotal ≤ L.playableDone (status' t'.handle).numPieces) := by
  rw [Streamerok.getTorrentInfo_eq status memory ht hfor.valid,
    Streamerok.getTorrentInfo_eq status' memory ht' hfor'.valid,
    seekBarRight_iff hfor _ c hpieces h₀ (by omega),
    seekBarRight_iff hfor' _ c' hpieces (by omega) h₁]
  refine and_congr_right fun hfits => and_congr_right fun hfits' => ?_
  exact playablePart_le_iff hfor hfor' _ _ c c' hpieces hle h₁ hfits hfits'

end SeekBar

/-- The bar before a film has been opened. -/
def startControl : SeekControl where
  seek :=
    { minimum := 0
      maximum := 1
      value := 0
      minimum_le := by decide
      le_maximum := by decide
      x := 0
      width := 640
      fullSize := 0
      currentSize := 0
      playablePart := 0
      arbitrarySeek := true }
  lock := false
  labelFull := none
  labelByteRate := none
  kByteRateMedia := 0

/-- The status of a torrent with `n` pieces had. -/
def someStatus (n : ℤ) : TorrentHandle → TorrentStatus := fun _ => ⟨0, 0, 0, n, 0⟩

/-- A file of twenty pieces in front of one of as many. -/
def firstOfForty : Layout where
  storage :=
    { pieceLength := 1
      fileSizes := [20, 20]
      pieceLength_pos := Int.one_pos
      fileSizes_nonneg := by decide }
  fileIndex := 0
  fileIndex_lt := by decide

/-- The bar after a report of the first of the two files. -/
def firstOfFortyBar (had : ℤ → Bool) (n : ℤ) : SeekSlider :=
  (startControl.downloadInfoChange ((Streamerok.single (firstOfForty.aux had)).getTorrentInfo
    (someStatus n) ⟨0, 0, 0, 0, 0, 0, 0, 0, 0, 0, 0⟩ 1).1).1.seek

/-- With twelve and then fourteen pieces the bar is right. -/
theorem seekBar_iff_firstOfForty :
    SeekBarRight firstOfForty (fun i => decide (i < 12))
        (firstOfFortyBar (fun i => decide (i < 12)) 12) ∧
      SeekBarRight firstOfForty (fun i => decide (i < 14))
        (firstOfFortyBar (fun i => decide (i < 14)) 14) ∧
      (firstOfFortyBar (fun i => decide (i < 12)) 12).playablePart ≤
        (firstOfFortyBar (fun i => decide (i < 14)) 14).playablePart := by
  obtain ⟨hfor, hhad, -⟩ := firstOfForty.aux_spec fun i => decide (i < 12)
  obtain ⟨hfor', hhad', -⟩ := firstOfForty.aux_spec fun i => decide (i < 14)
  have hiff := seekBar_iff firstOfForty (Streamerok.single (firstOfForty.aux fun i => decide (i < 12)))
    (Streamerok.single (firstOfForty.aux fun i => decide (i < 14))) 1 _ _ (someStatus 12)
    (someStatus 14) ⟨0, 0, 0, 0, 0, 0, 0, 0, 0, 0, 0⟩ startControl startControl rfl rfl hfor hfor'
    (by decide) (by decide) (by decide) (by decide)
  rw [hhad, hhad'] at hiff
  exact hiff.mpr ⟨⟨fun h => absurd h (by decide), fun _ => ⟨by decide +kernel, by decide +kernel,
      by decide +kernel, fun h => absurd h (by decide +kernel)⟩⟩,
    ⟨fun h => absurd h (by decide), fun _ => ⟨by decide +kernel, by decide +kernel,
      by decide +kernel, fun h => absurd h (by decide +kernel)⟩⟩,
    fun h => absurd h (by decide)⟩

/-- With three pieces the size of what is there is negative and the playable part far above one; with
    the pieces of the other file all of the bar can be played, and with one more it shrinks. -/
theorem seekBar_wrong :
    (¬SeekBarRight firstOfForty (fun i => decide (i < 3))
        (firstOfFortyBar (fun i => decide (i < 3)) 3) ∧
      (firstOfFortyBar (fun i => decide (i < 3)) 3).currentSize = -6 ∧
      1 < (firstOfFortyBar (fun i => decide (i < 3)) 3).playablePart) ∧
    ((firstOfFortyBar (fun i => decide (20 ≤ i)) 20).playablePart = 1 ∧
      firstOfForty.firstPiece = 0 ∧ firstOfForty.lastPiece = 19) ∧
    (firstOfFortyBar (fun i => decide (19 ≤ i)) 21).playablePart <
      (firstOfFortyBar (fun i => decide (20 ≤ i)) 20).playablePart := by
  have hsize : (firstOfFortyBar (fun i => decide (i < 3)) 3).currentSize = -6 := by
    decide +kernel
  refine ⟨⟨fun h => ?_, hsize, by decide +kernel⟩,
    ⟨by decide +kernel, by decide +kernel, by decide +kernel⟩, by decide +kernel⟩
  have := h.currentSize_nonneg
  omega

/-! ### A click -/

/-- The time sought is in the film, and the clicked fraction of it up to rounding. -/
def SoughtRight (maximum width clickPos v : ℤ) : Prop :=
  0 ≤ v ∧ v ≤ maximum ∧ |v * width - clickPos * maximum| < width

/-- What the integer quotient is off by grows along the bar. -/
theorem mul_ediv_mul_sub (m w p : ℤ) : p * (m / w) * w - p * m = -(p * (m % w)) := by
  have hm := Int.emod_add_mul_ediv m w
  calc p * (m / w) * w - p * m = p * (w * (m / w) - m) := by ring
    _ = p * (w * (m / w) - (m % w + w * (m / w))) := by rw [hm]
    _ = -(p * (m % w)) := by ring

/-- Over the product of both widths the times of equal fractions differ by what the quotients leave
    over. -/
theorem mul_ediv_eq_iff {m w w' p p' : ℤ} (hw : 0 < w) (hw' : 0 < w') (h : p * w' = p' * w) :
    p * (m / w) = p' * (m / w') ↔ p = 0 ∨ m % w = m % w' := by
  have hdiff : (p * (m / w) - p' * (m / w')) * (w * w') = p * w' * (m % w' - m % w) := by
    linear_combination w' * mul_ediv_mul_sub m w p - w * mul_ediv_mul_sub m w' p' +
      (m - m % w') * h
  have hpos : w * w' ≠ 0 := (mul_pos hw hw').ne'
  constructor
  · intro heq
    rw [heq, sub_self, zero_mul, eq_comm, mul_eq_zero, mul_eq_zero] at hdiff
    rcases hdiff with (hp | hzero) | hmod
    · exact Or.inl hp
    · omega
    · exact Or.inr (by omega)
  · intro hor
    have hzero : p * w' * (m % w' - m % w) = 0 := by
      rcases hor with hp | hmod
      · rw [hp, zero_mul, zero_mul]
      · rw [hmod, sub_self, mul_zero]
    rw [hzero, mul_eq_zero, or_iff_left hpos] at hdiff
    omega

theorem soughtRight_iff {m w p : ℤ} (hw : 0 < w) (hm : 1 ≤ m) (h₀ : 0 ≤ p) (h₁ : p ≤ w) :
    SoughtRight m w p (p * (m / w)) ↔ p * (m % w) < w := by
  have hquot : 0 ≤ m / w := Int.ediv_nonneg (by omega) hw.le
  have hmod := Int.emod_nonneg m (ne_of_gt hw)
  have hbound : p * (m / w) ≤ m :=
    calc p * (m / w) ≤ w * (m / w) := mul_le_mul_of_nonneg_right h₁ hquot
      _ ≤ m := Int.mul_ediv_self_le (ne_of_gt hw)
  unfold SoughtRight
  rw [mul_ediv_mul_sub, abs_neg, abs_of_nonneg (mul_nonneg h₀ hmod)]
  exact ⟨fun h => h.2.2, fun h => ⟨mul_nonneg h₀ hquot, hbound, h⟩⟩

namespace SeekControl

/-- A click that may seek. -/
theorem updateEvent_eq (c : SeekControl) {p : ℤ} (hm : 1 ≤ c.seek.maximum) (h₀ : 0 ≤ p)
    (h₁ : p ≤ c.seek.width) (hseek : c.seek.canSeekTo p = true) :
    (c.updateEvent (c.seek.x + p)).2 =
      [.sought (p * (c.seek.maximum / c.seek.width))] := by
  have hpos : c.seek.x + p - c.seek.x = p := by ring
  have hquot : (0 : ℤ) ≤ p * (c.seek.maximum / c.seek.width) :=
    mul_nonneg h₀ (Int.ediv_nonneg (by omega) (by omega))
  have hvalue : Binary32.toInt ((p : ℚ) * ((c.seek.maximum.tdiv c.seek.width : ℤ) : ℚ)) =
      p * (c.seek.maximum / c.seek.width) := by
    rw [Int.tdiv_eq_ediv_of_nonneg (by omega), ← Int.cast_mul, Binary32.toInt,
      if_pos (by exact_mod_cast hquot), Int.floor_intCast]
  unfold updateEvent
  rw [if_neg (by omega)]
  dsimp only
  rw [hpos, if_neg (not_not.mpr hseek), hvalue]

/-- **A click to seek.**  It seeks to the clicked fraction of the film exactly while the error of the
    integer quotient, times the position, stays below the width.  The whole film can be reached only
    if the width divides it, and equal fractions give equal times only if it leaves the same over
    for both widths. -/
theorem sought_iff (c : SeekControl) (p : ℤ) (hw : 0 < c.seek.width) (hm : 1 ≤ c.seek.maximum)
    (h₀ : 0 ≤ p) (h₁ : p ≤ c.seek.width) (hseek : c.seek.canSeekTo p = true) :
    (∃ v, (c.updateEvent (c.seek.x + p)).2 = [.sought v] ∧
        (SoughtRight c.seek.maximum c.seek.width p v ↔
          p * (c.seek.maximum % c.seek.width) < c.seek.width)) ∧
      ((∀ q, 0 ≤ q → q ≤ c.seek.width → c.seek.canSeekTo q = true) →
        ((∀ time, 0 ≤ time → time ≤ c.seek.maximum → ∃ q v, 0 ≤ q ∧ q ≤ c.seek.width ∧
            (c.updateEvent (c.seek.x + q)).2 = [.sought v] ∧ time ≤ v) ↔
          c.seek.maximum % c.seek.width = 0)) ∧
      ∀ (c' : SeekControl) (p' : ℤ), c'.seek.maximum = c.seek.maximum → 0 < c'.seek.width →
        0 ≤ p' → p' ≤ c'.seek.width → c'.seek.canSeekTo p' = true →
        p * c'.seek.width = p' * c.seek.width →
        ((c.updateEvent (c.seek.x + p)).2 = (c'.updateEvent (c'.seek.x + p')).2 ↔
          p = 0 ∨ c.seek.maximum % c.seek.width = c.seek.maximum % c'.seek.width) := by
  have hquot : 0 ≤ c.seek.maximum / c.seek.width := Int.ediv_nonneg (by omega) hw.le
  have hmod := Int.emod_add_mul_ediv c.seek.maximum c.seek.width
  have hmod₀ := Int.emod_nonneg c.seek.maximum (ne_of_gt hw)
  refine ⟨⟨_, updateEvent_eq c hm h₀ h₁ hseek, soughtRight_iff hw hm h₀ h₁⟩, fun hall => ?_, ?_⟩
  · constructor
    · intro hreach
      obtain ⟨q, v, hq₀, hq₁, hv, hle⟩ := hreach c.seek.maximum (by omega) (le_refl _)
      rw [updateEvent_eq c hm hq₀ hq₁ (hall q hq₀ hq₁)] at hv
      have hv' : q * (c.seek.maximum / c.seek.width) = v := by simpa using hv
      -- the farthest click is the one at the right edge
      have hbound : q * (c.seek.maximum / c.seek.width) ≤
          c.seek.width * (c.seek.maximum / c.seek.width) := mul_le_mul_of_nonneg_right hq₁ hquot
      omega
    · intro hzero time _ hle
      exact ⟨c.seek.width, _, hw.le, le_refl _,
        updateEvent_eq c hm hw.le (le_refl _) (hall _ hw.le (le_refl _)), by omega⟩
  · intro c' p' hmax hw' h₀' h₁' hseek' hfrac
    rw [updateEvent_eq c hm h₀ h₁ hseek, updateEvent_eq c' (by omega) h₀' h₁' hseek', hmax]
    simp only [List.cons.injEq, SeekSignal.sought.injEq, and_true]
    exact mul_ediv_eq_iff hw hw' hfrac

/-- The bar of a film of some milliseconds. -/
def filmControl (time : ℤ) : SeekControl := startControl.updateFullTime time

/-- In a film of 6400 milliseconds a click in the middle of 640 pixels seeks to its middle. -/
theorem sought_iff_film : SoughtRight 6400 640 320 3200 := by
  obtain ⟨v, hv, hright⟩ := (sought_iff (filmControl 6400) 320 (by decide) (by decide) (by decide)
    (by decide) (by decide)).1
  have hsought : ((filmControl 6400).updateEvent ((filmControl 6400).seek.x + 320)).2 =
      [.sought 3200] := updateEvent_eq _ (by decide) (by decide) (by decide) (by decide)
  rw [hsought, List.cons.injEq, SeekSignal.sought.injEq] at hv
  rw [← hv.1] at hright
  exact hright.mpr (by decide)

/-- In a film of 1279 milliseconds the click at the end seeks to the middle. -/
theorem sought_film_end :
    ((filmControl 1279).updateEvent 640).2 = [.sought 640] ∧
      (filmControl 1279).seek.maximum = 1279 ∧ (filmControl 1279).seek.width = 640 ∧
      ¬SoughtRight 1279 640 640 640 := by
  have hsought : ((filmControl 1279).updateEvent ((filmControl 1279).seek.x + 640)).2 =
      [.sought 640] := updateEvent_eq _ (by decide) (by decide) (by decide) (by decide)
  refine ⟨hsought, by decide, by decide, fun h => ?_⟩
  exact absurd h.2.2 (by decide)

end SeekControl

end PopcornTime.Desktop
