import PopcornTime.Desktop.Startup
import PopcornTime.Desktop.Streamerok

namespace PopcornTime.Desktop

open PopcornTime

/-!
# Desktop streamer — `deleteTorrent` and what stays on disk

A deleted torrent keeps its files if it is asked to keep complete ones and `isFinished` says that
the selected file is complete.  The loop of `isFinished` ends in front of the last piece of the
file, so that a file that misses just this piece counts as complete, and a file of one piece
always does.

* `Layout.AllHad` — what `isFinished` should say.
* `deleteTorrent_spec` — the removal, the answer and the entry that is erased.
* `isFinished_iff_keeps` — `isFinished` is right, and the files are kept rightly, exactly where
  the last piece does not decide.
-/

namespace Layout

variable (L : Layout)

/-- Every piece of the file is had, the last one included. -/
def AllHad (had : ℤ → Bool) : Prop :=
  ∀ i, L.firstPiece ≤ i → i ≤ L.lastPiece → had i = true

/-- The last piece of the file is had, or another piece of it is missing, or it has no piece. -/
def LastPieceSettled (had : ℤ → Bool) : Prop :=
  L.lastPiece < L.firstPiece ∨ had L.lastPiece = true ∨
    ∃ i, L.firstPiece ≤ i ∧ i < L.lastPiece ∧ had i = false

variable {L} {had : ℤ → Bool}

/-- The pieces in front of the last one stand for all exactly where the last one is settled. -/
theorem allHad_iff_lastPieceSettled :
    ((∀ i, L.firstPiece ≤ i → i < L.lastPiece → had i = true) ↔ L.AllHad had) ↔
      L.LastPieceSettled had := by
  by_cases hempty : L.lastPiece < L.firstPiece
  · refine iff_of_true (iff_of_true ?_ ?_) (Or.inl hempty)
    · intro i h₀ h₁
      omega
    · intro i h₀ h₁
      omega
  constructor
  · intro hiff
    by_cases hfront : ∀ i, L.firstPiece ≤ i → i < L.lastPiece → had i = true
    · exact Or.inr (Or.inl (hiff.mp hfront _ (not_lt.mp hempty) (le_refl _)))
    · push Not at hfront
      -- a missing piece before the last one decides both sides
      obtain ⟨i, h₀, h₁, hmiss⟩ := hfront
      exact Or.inr (Or.inr ⟨i, h₀, h₁, by simpa using hmiss⟩)
  · intro hsettled
    refine ⟨fun hfront i h₀ h₁ => ?_, fun hall i h₀ h₁ => hall i h₀ h₁.le⟩
    rcases hsettled with h | hlast | ⟨j, hj₀, hj₁, hmiss⟩
    · exact absurd h hempty
    · rcases eq_or_lt_of_le h₁ with rfl | hlt
      · exact hlast
      · exact hfront i h₀ hlt
    · rw [hfront j hj₀ hj₁] at hmiss
      exact absurd hmiss (by simp)

end Layout

/-- A call of `session::remove_torrent`: the torrent, and whether `delete_files` is asked for. -/
structure Removal where
  handle : TorrentHandle
  deleteFiles : Bool

namespace Streamerok

/-- `deleteTorrent`: its answer, the call it makes if the handle is valid, and the streamer
    without the entry.  An exception of the session is caught and changes neither. -/
def deleteTorrent (s : Streamerok) (torrentId : ℤ) (deleteCompleted : Bool) :
    Bool × Option Removal × Streamerok :=
  match s.tMap torrentId with
  | none => (false, none, s)
  | some t =>
    let hadTorrent := t.handle.valid
    (hadTorrent,
      -- a file that is not finished is deleted in any case
      if hadTorrent then some ⟨t.handle, deleteCompleted || !t.isFinished⟩ else none,
      { s with tMap := Function.update s.tMap torrentId none })

/-- The torrent leaves the session and its files stay. -/
def KeepsFiles (s : Streamerok) (torrentId : ℤ) (deleteCompleted : Bool) : Prop :=
  ∃ r, (s.deleteTorrent torrentId deleteCompleted).2.1 = some r ∧ r.deleteFiles = false

variable {s : Streamerok} {torrentId : ℤ} {t : TAux} {L : Layout}

/-- The entry is gone, the others are as they were, and a second call finds nothing. -/
theorem deleteTorrent_spec (s : Streamerok) (torrentId : ℤ) (deleteCompleted : Bool) :
    (s.deleteTorrent torrentId deleteCompleted).2.2.tMap torrentId = none ∧
      (∀ id, id ≠ torrentId →
        (s.deleteTorrent torrentId deleteCompleted).2.2.tMap id = s.tMap id) ∧
      ((s.deleteTorrent torrentId deleteCompleted).1 = true ↔
        ∃ t, s.tMap torrentId = some t ∧ t.handle.valid = true) := by
  cases ht : s.tMap torrentId with
  | none =>
    have hdel : s.deleteTorrent torrentId deleteCompleted = (false, none, s) := by
      rw [deleteTorrent, ht]
    rw [hdel]
    exact ⟨ht, fun _ _ => rfl, by simp⟩
  | some t =>
    have hrest : (s.deleteTorrent torrentId deleteCompleted).2.2.tMap =
        Function.update s.tMap torrentId none := by
      rw [deleteTorrent, ht]
    have hanswer : (s.deleteTorrent torrentId deleteCompleted).1 = t.handle.valid := by
      rw [deleteTorrent, ht]
    rw [hrest, hanswer]
    refine ⟨Function.update_self _ _ _, fun id hid => Function.update_of_ne hid _ _, ?_⟩
    simp

/-- The files of a valid torrent are kept if they may be and the file counts as finished. -/
theorem keepsFiles_iff (ht : s.tMap torrentId = some t) (hvalid : t.handle.valid = true)
    {deleteCompleted : Bool} :
    s.KeepsFiles torrentId deleteCompleted ↔ deleteCompleted = false ∧ t.isFinished = true := by
  have hcall : (s.deleteTorrent torrentId deleteCompleted).2.1 =
      some ⟨t.handle, deleteCompleted || !t.isFinished⟩ := by
    rw [deleteTorrent, ht]
    exact if_pos hvalid
  unfold KeepsFiles
  rw [hcall]
  simp

/-- `isFinished` looks at the pieces in front of the last one. -/
theorem isFinished_iff (hfor : t.For L) : t.isFinished = true ↔
    ∀ i, L.firstPiece ≤ i → i < L.lastPiece → t.handle.havePiece i = true := by
  rw [TAux.isFinished, hfor.valid, Bool.true_and, all_range_eq_true, hfor.fileFirstPiece,
    hfor.fileLastPiece]

/-- **What `deleteTorrent` keeps.**  For every layout and every set of had pieces, `isFinished`
    says whether every piece of the file is had, and a deletion that spares complete files keeps
    the files of just those, exactly if the last piece is had or an earlier one is missing. -/
theorem isFinished_iff_keeps (L : Layout) (s : Streamerok) (torrentId : ℤ) (t : TAux)
    (ht : s.tMap torrentId = some t) (hfor : t.For L) :
    ((t.isFinished = true ↔ L.AllHad t.handle.havePiece) ↔
      L.LastPieceSettled t.handle.havePiece) ∧
    ((s.KeepsFiles torrentId false ↔ L.AllHad t.handle.havePiece) ↔
      L.LastPieceSettled t.handle.havePiece) := by
  rw [keepsFiles_iff ht hfor.valid, isFinished_iff hfor, and_iff_right rfl]
  exact ⟨Layout.allHad_iff_lastPieceSettled, Layout.allHad_iff_lastPieceSettled⟩

/-- The streamer with the three pieces of `secondFile` had, under every id. -/
def withFinished : Streamerok where
  nextId := 1
  needSeekToThisPiece := -1
  tMap := fun _ => some TAux.secondFileAux

/-- The files of a complete file are kept. -/
theorem isFinished_iff_keeps_complete : withFinished.KeepsFiles 1 false := by
  obtain ⟨hfor, hhad⟩ := TAux.secondFileAux_for
  have hall : secondFile.AllHad TAux.secondFileAux.handle.havePiece := by
    intro i h₀ h₁
    have hfirst : secondFile.firstPiece = 0 := by decide
    have hlast : secondFile.lastPiece = 2 := by decide
    rw [hhad, decide_eq_true_eq]
    omega
  refine ((isFinished_iff_keeps secondFile withFinished 1 TAux.secondFileAux rfl hfor).2.mpr
    (Or.inr (Or.inl ?_))).mpr hall
  exact hall _ (by decide) (le_refl _)

/-- Only the last piece of the file is missing: the file counts as finished and its files are
    kept. -/
theorem keepsFiles_without_lastPiece :
    ∃ (s : Streamerok) (t : TAux), s.tMap 1 = some t ∧ t.For secondFile ∧
      ¬(t.isFinished = true ↔ secondFile.AllHad t.handle.havePiece) ∧
      ¬(s.KeepsFiles 1 false ↔ secondFile.AllHad t.handle.havePiece) := by
  obtain ⟨t, -, hfor, hhad⟩ := TAux.new_freshHandle secondFile (fun i => decide (i < 2))
  have hmissing : ¬secondFile.AllHad t.handle.havePiece := fun hall => by
    have hlast := hall 2 (by decide) (by decide)
    rw [hhad] at hlast
    exact absurd hlast (by decide)
  have hfinished : t.isFinished = true := by
    have hlast : secondFile.lastPiece = 2 := by decide
    rw [isFinished_iff hfor]
    intro i _ h₁
    rw [hhad, decide_eq_true_eq]
    omega
  refine ⟨⟨1, -1, fun _ => some t⟩, t, rfl, hfor, fun hiff => hmissing (hiff.mp hfinished),
    fun hiff => hmissing (hiff.mp ?_)⟩
  exact (keepsFiles_iff rfl hfor.valid).mpr ⟨rfl, hfinished⟩

end Streamerok

end PopcornTime.Desktop
