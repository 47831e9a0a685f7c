import PopcornTime.Lib.Machine
import PopcornTime.Android.WatchRun
import PopcornTime.TorrentLib.WatchTask

namespace PopcornTime.TorrentLib

open PopcornTime

/-!
# Torrent library — a file is completed

Runs of a `WatchTask`: it is constructed on a torrent, pieces come to be had in any order, and the
task hears of pieces in any order.

* `PieceRun` — the task and its torrent, with what the run has shown of them.
* `FileLayout` — which pieces the files of a torrent lie in; `FileLayout.Shows`, what is relied on of
  libtorrent's `piece_priorities`.
* `FileLayout.Shows.pieceRange_selectFile` — the constructor finds the pieces of the file it selects.
* `PieceRun.Ok` — how the position, the pieces had and `finished` hang together.
* `completed` — the task finishes when the last missing piece is had.
-/

/-- A task on its torrent. -/
structure PieceRun where
  task : WatchTask
  torrent : Torrent
  /-- What the constructor has read. -/
  piecePriorities : List TorrentPriority
  /-- The pieces had when the task was constructed. -/
  atStart : List ℤ
  /-- The pieces had at the last event, or when the task was constructed. -/
  atUpdate : List ℤ
  /-- The pieces that the task has heard of while the file was not complete. -/
  heard : List ℤ
deriving DecidableEq, Repr

/-- What may happen. -/
inductive PieceEvent
  | have (piece : ℤ)
  | pieceFinished (piece : ℤ)
deriving DecidableEq, Repr

/-! ### Where the pieces of the file lie -/

/-- The first piece is found once. -/
theorem pieceRangeLoop_fst_of_ne {ps : List TorrentPriority} {i first last : ℤ} (h : first ≠ -1) :
    (pieceRangeLoop ps i first last).1 = first := by
  induction ps generalizing i last with
  | nil => rfl
  | cons p ps ih =>
    unfold pieceRangeLoop
    by_cases hp : p = .notDownload
    · rw [if_neg (not_not.mpr hp)]
      exact ih
    · rw [if_pos hp, if_neg h]
      exact ih

/-- The loop finds the first piece no later than any piece with a priority. -/
theorem pieceRangeLoop_fst_le {ps : List TorrentPriority} {i last : ℤ} {k : ℕ} {p : TorrentPriority}
    (hi : 0 ≤ i) (hk : ps[k]? = some p) (hp : p ≠ .notDownload) :
    (pieceRangeLoop ps i (-1) last).1 ≤ i + k := by
  induction ps generalizing i k last with
  | nil => simp at hk
  | cons q ps ih =>
    unfold pieceRangeLoop
    by_cases hq : q = .notDownload
    · cases k with
      | zero =>
        simp only [List.getElem?_cons_zero, Option.some.injEq] at hk
        exact absurd (hk ▸ hq) hp
      | succ k =>
        rw [if_neg (not_not.mpr hq)]
        refine (ih (by omega) (by simpa using hk)).trans ?_
        push_cast
        omega
    · rw [if_pos hq, if_pos rfl, pieceRangeLoop_fst_of_ne (by omega)]
      omega

/-- It is at or before every piece with a priority. -/
theorem pieceRange_fst_le {ps : List TorrentPriority} {k : ℕ} {p : TorrentPriority}
    (hk : ps[k]? = some p) (hp : p ≠ .notDownload) : (pieceRange ps).1 ≤ k := by
  have hle : (pieceRangeLoop ps 0 (-1) (-1)).1 ≤ 0 + k := pieceRangeLoop_fst_le (le_refl 0) hk hp
  rw [zero_add] at hle
  exact hle

/-- The loop is that of `getFileBoundary`. -/
theorem pieceRangeLoop_eq_boundaryLoop (ps : List TorrentPriority) (i first last : ℤ) :
    pieceRangeLoop ps i first last = Android.WatchTask.boundaryLoop
      (ps.map fun p => if p = .notDownload then Android.TorrentPriority.NOT_DOWNLOADED
        else Android.TorrentPriority.MAXIMUM) i first last := by
  induction ps generalizing i first last with
  | nil => rfl
  | cons p ps ih =>
    rw [List.map_cons, pieceRangeLoop, Android.WatchTask.boundaryLoop, ih, ih]
    by_cases hp : p = .notDownload
    · rw [if_neg (not_not.mpr hp), if_pos hp, if_neg (not_not.mpr rfl)]
    · have hset : Android.TorrentPriority.MAXIMUM ≠ Android.TorrentPriority.NOT_DOWNLOADED := by decide
      rw [if_pos hp, if_neg hp, if_pos hset]

/-- **The range of the pieces with a priority** is found where they are those of a file. -/
theorem pieceRange_eq_of_map {ps : List TorrentPriority} {E : Android.WatchedFile}
    (hmap : (ps.map fun p => if p = .notDownload then Android.TorrentPriority.NOT_DOWNLOADED
      else Android.TorrentPriority.MAXIMUM) = E.piecePriorities) :
    pieceRange ps = (E.firstPiece, E.lastPiece) := by
  have hlength : (ps.length : ℤ) = E.numPieces := by
    rw [← E.length_piecePriorities, ← hmap, List.length_map]
  have hlast := E.firstPiece_nonneg.trans E.firstPiece_le_lastPiece
  unfold pieceRange
  rw [pieceRangeLoop_eq_boundaryLoop, hmap, E.boundaryLoop_piecePriorities]
  dsimp only
  by_cases h : E.after = 0
  · rw [if_pos h, if_pos rfl, hlength]
    simp [Android.WatchedFile.numPieces, Android.WatchedFile.lastPiece, h]
  · rw [if_neg h, if_neg (by omega)]

/-- The pieces with a priority, where they are a stretch. -/
theorem pieceRange_eq {ps : List TorrentPriority} {first last : ℕ} (hle : first ≤ last)
    (hlt : last < ps.length)
    (hps : ∀ k p, ps[k]? = some p → (p ≠ .notDownload ↔ first ≤ k ∧ k ≤ last)) :
    pieceRange ps = ((first : ℤ), (last : ℤ)) := by
  let E : Android.WatchedFile := ⟨first, last - first + 1, ps.length - 1 - last, Nat.succ_pos _⟩
  -- the priorities are those of a file between others, whose range is known
  have hmap : (ps.map fun p => if p = .notDownload then Android.TorrentPriority.NOT_DOWNLOADED
      else Android.TorrentPriority.MAXIMUM) = E.piecePriorities := by
    refine List.ext_getElem? fun k => ?_
    have hlength : k < ps.length ↔ k < first + (last - first + 1) + (ps.length - 1 - last) := by
      omega
    simp only [E, Android.WatchedFile.piecePriorities, List.getElem?_map, List.getElem?_append,
      List.getElem?_replicate, List.length_replicate]
    cases hk : ps[k]? with
    | none =>
      have hout := List.getElem?_eq_none_iff.mp hk
      rw [if_neg (by omega), if_neg (by omega), if_neg (by omega)]
      rfl
    | some p =>
      have hin := (List.getElem?_eq_some_iff.mp hk).1
      have hpriority := hps k p hk
      rw [Option.map_some]
      by_cases hp : p = .notDownload
      · rw [if_pos hp]
        have hnot : ¬(first ≤ k ∧ k ≤ last) := fun h => hpriority.mpr h hp
        split_ifs <;> first | rfl | omega
      · rw [if_neg hp]
        have hfile := hpriority.mp hp
        rw [if_neg (by omega), if_pos (by omega), if_pos (by omega)]
  rw [pieceRange_eq_of_map hmap]
  refine Prod.ext rfl ?_
  show (first : ℤ) + ((last - first + 1 : ℕ) : ℤ) - 1 = last
  omega

/-! ### The files of a torrent -/

/-- The first and the last piece of every file.  A file without bytes has its last piece before its
    first one. -/
structure FileLayout where
  numPieces : ℕ
  files : List (ℕ × ℕ)
  last_lt : ∀ file ∈ files, file.2 < numPieces

namespace FileLayout

variable {L : FileLayout} {piece_priorities : List ℕ → List ℕ}

/-- The file with an index has bytes in the piece and is selected by the priorities. -/
def SelectedIn (L : FileLayout) (priorities : List ℕ) (piece index : ℕ) : Prop :=
  ∃ file ∈ L.files[index]?, file.1 ≤ piece ∧ piece ≤ file.2 ∧ ∃ p ∈ priorities[index]?, p ≠ 0

/-- **What is relied on of libtorrent.**  The priorities of the pieces that are read behind a change
    of the file priorities show it: a piece has one exactly if a file that has one has bytes in it. -/
def Shows (L : FileLayout) (piece_priorities : List ℕ → List ℕ) : Prop :=
  ∀ priorities : List ℕ, priorities.length = L.files.length →
    (piece_priorities priorities).length = L.numPieces ∧
    ∀ piece p, (piece_priorities priorities)[piece]? = some p →
      (p ≠ 0 ↔ ∃ index, L.SelectedIn priorities piece index)

/-- An answer that shows them: the largest priority of the files that have bytes in the piece. -/
def largest (L : FileLayout) (priorities : List ℕ) : List ℕ :=
  (List.range L.numPieces).map fun piece =>
    ((List.range L.files.length).map fun index =>
      match L.files[index]? with
      | some file =>
        if file.1 ≤ piece ∧ piece ≤ file.2 then priorities.getD index 0 else 0
      | none => 0).foldr max 0

/-- The highest priority is not zero if one of them is not. -/
theorem foldr_max_ne_zero (l : List ℕ) : l.foldr max 0 ≠ 0 ↔ ∃ n ∈ l, n ≠ 0 := by
  induction l with
  | nil => simp
  | cons n l ih =>
    rw [List.foldr_cons, List.exists_mem_cons_iff, ← ih]
    omega

/-- A piece with the highest priority of its files shows them. -/
theorem shows_largest (L : FileLayout) : L.Shows L.largest := by
  intro priorities hlength
  refine ⟨by rw [largest, List.length_map, List.length_range], fun piece p hp => ?_⟩
  rw [largest, List.getElem?_map, Option.map_eq_some_iff] at hp
  obtain ⟨piece', hpiece, rfl⟩ := hp
  obtain ⟨hlt, rfl⟩ := List.getElem?_eq_some_iff.mp hpiece
  rw [List.getElem_range, foldr_max_ne_zero]
  simp only [List.mem_map, List.mem_range, exists_exists_and_eq_and]
  refine exists_congr fun index => ?_
  unfold SelectedIn
  cases hfile : L.files[index]? with
  | none => simp
  | some file =>
    have hin := (List.getElem?_eq_some_iff.mp hfile).1
    have hpriority : priorities[index]? = some priorities[index] := List.getElem?_eq_getElem _
    simp [hin, hpriority, ← and_assoc]

/-- **The pieces of the selected file** are those that the constructor finds. -/
theorem Shows.pieceRange_selectFile (h : L.Shows piece_priorities) {t : Torrent}
    (hfiles : t.filePriorities.length = L.files.length) {index : ℕ} {file : ℕ × ℕ}
    (hfile : L.files[index]? = some file) (hbytes : file.1 ≤ file.2) :
    pieceRange ((piece_priorities (WatchTask.selectFile t index).filePriorities).map
      convertPriority) = ((file.1 : ℤ), (file.2 : ℤ)) := by
  obtain ⟨hlength, hshown⟩ := h (WatchTask.selectFile t index).filePriorities
    ((WatchTask.length_selectFile t index).trans hfiles)
  refine pieceRange_eq hbytes ?_ fun k p hk => ?_
  · rw [List.length_map, hlength]
    exact L.last_lt file (List.mem_of_getElem? hfile)
  · rw [List.getElem?_map, Option.map_eq_some_iff] at hk
    obtain ⟨q, hq, rfl⟩ := hk
    rw [convertPriority_ne_notDownload, hshown k q hq]
    constructor
    · rintro ⟨i, f, hf, hlo, hhi, p, hp, hne⟩
      -- only the priority of the file with the index is not 0
      rw [WatchTask.selectFile_filePriorities, Option.mem_def, List.getElem?_mapIdx,
        Option.map_eq_some_iff] at hp
      obtain ⟨old, -, rfl⟩ := hp
      have hindex : i = index := by
        by_contra hother
        exact hne (if_neg hother)
      subst hindex
      rw [Option.mem_def, hfile, Option.some.injEq] at hf
      exact hf ▸ ⟨hlo, hhi⟩
    · rintro ⟨hlo, hhi⟩
      have hin : index < t.filePriorities.length :=
        hfiles ▸ (List.getElem?_eq_some_iff.mp hfile).1
      refine ⟨index, file, hfile, hlo, hhi, 1, ?_, one_ne_zero⟩
      rw [WatchTask.selectFile_filePriorities, Option.mem_def, List.getElem?_mapIdx,
        List.getElem?_eq_getElem hin, Option.map_some, if_pos rfl]

end FileLayout

namespace PieceRun

/-- The task has been constructed on a torrent with metadata. -/
def start (piece_priorities : List ℕ → List ℕ) (t : Torrent) (index : ℕ) : PieceRun :=
  let selected := WatchTask.selectFile t index
  let piecePriorities := (piece_priorities selected.filePriorities).map convertPriority
  let (task, torrent) := WatchTask.start selected t.getFilePriorities t.paused piecePriorities
  ⟨task, torrent, piecePriorities, t.had, t.had, []⟩

/-- At the last event all pieces of the file were had. -/
def Complete (r : PieceRun) : Prop :=
  ∀ i, r.task.firstPiece ≤ i → i ≤ r.task.lastPiece → i ∈ r.atUpdate

instance (r : PieceRun) : Decidable r.Complete :=
  decidable_of_iff
    ((Int.range r.task.firstPiece (r.task.lastPiece + 1)).all (fun i => i ∈ r.atUpdate) = true) <| by
    rw [all_range_eq_true]
    exact forall_congr' fun i => imp_congr_right fun _ =>
      ⟨fun h hi => of_decide_eq_true (h (by omega)), fun h hi => decide_eq_true (h (by omega))⟩

def next (r : PieceRun) : PieceEvent → PieceRun
  | .have piece => { r with torrent := { r.torrent with had := piece :: r.torrent.had } }
  | .pieceFinished piece =>
    let (task, torrent) := r.task.onPieceFinished r.torrent piece
    { r with
      task := task
      torrent := torrent
      atUpdate := r.torrent.had
      heard := if r.Complete then r.heard else piece :: r.heard }

def machine (piece_priorities : List ℕ → List ℕ) : Machine PieceRun PieceEvent :=
  .ofFun (fun r => ∃ t index, t.hasMetadata = true ∧ r = start piece_priorities t index)
    (fun r e => some (r.next e))

/-! ### How the position, the pieces had and `finished` hang together -/

structure Ok (r : PieceRun) : Prop where
  range : (r.task.firstPiece, r.task.lastPiece) = pieceRange r.piecePriorities
  atStart : ∀ i ∈ r.atStart, i ∈ r.atUpdate
  atUpdate : ∀ i ∈ r.atUpdate, i ∈ r.torrent.had
  begun : r.task.finished = false → r.task.firstPiece ≤ r.task.currentPosition
  /-- The position of a file that has been found complete at once is 0. -/
  position : ∀ i, 0 ≤ i ∨ r.task.finished = false → r.task.firstPiece ≤ i →
    i < r.task.currentPosition → i ∈ r.atUpdate
  finished : r.task.finished = true ↔ r.Complete
  calls : r.task.calls.count .onFinished = if r.task.finished then 1 else 0

section Runs

variable {piece_priorities : List ℕ → List ℕ} {r r' : PieceRun} {e : PieceEvent}

/-- A piece is had if it is in the list. -/
theorem havePiece_eq_true {t : Torrent} {i : ℤ} : t.havePiece i = true ↔ i ∈ t.had :=
  decide_eq_true_iff

/-- The constructor returns a task on a torrent with metadata, and the run starts with it. -/
theorem start_of_new {t torrent : Torrent} {index : ℕ} {task : WatchTask}
    (hnew : WatchTask.new piece_priorities t index = (some task, torrent)) :
    t.hasMetadata = true ∧ (start piece_priorities t index).task = task ∧
      (start piece_priorities t index).torrent = torrent := by
  cases hmetadata : t.hasMetadata with
  | false =>
    rw [WatchTask.new, WatchTask.selectFile_hasMetadata, hmetadata] at hnew
    cases hnew
  | true =>
    rw [WatchTask.new, WatchTask.selectFile_hasMetadata, hmetadata, if_pos rfl] at hnew
    obtain ⟨htask, htorrent⟩ := Prod.mk.inj hnew
    exact ⟨rfl, Option.some.inj htask, htorrent⟩

/-- A run starts on the torrent with the file selected. -/
theorem exists_start (piece_priorities : List ℕ → List ℕ) (t : Torrent) (index : ℕ) :
    ∃ (selected : Torrent) (ps : List TorrentPriority), selected.had = t.had ∧
      start piece_priorities t index = ⟨(WatchTask.start selected t.getFilePriorities t.paused ps).1,
        (WatchTask.start selected t.getFilePriorities t.paused ps).2, ps, t.had, t.had, []⟩ :=
  ⟨_, _, WatchTask.selectFile_had t index, rfl⟩

/-- The constructor looks at the pieces had at the start. -/
theorem ok_start (t : Torrent) (index : ℕ) : (start piece_priorities t index).Ok := by
  obtain ⟨selected, ps, hhad, hrun⟩ := exists_start piece_priorities t index
  rw [hrun]
  rcases WatchTask.start_cases selected t.getFilePriorities t.paused ps with
    ⟨hall, hstart⟩ | ⟨i, hlo, hhi, hmissing, hbefore, deadlines, hstart⟩
  · rw [hstart]
    -- the task has finished at once: no piece of the range was missing
    have hcomplete : ∀ j, (pieceRange ps).1 ≤ j → j ≤ (pieceRange ps).2 → j ∈ t.had :=
      fun j hj hjl => hhad ▸ havePiece_eq_true.mp (hall j hj hjl)
    refine ⟨rfl, fun _ h => h, fun i hi => hhad.symm ▸ hi, fun hnot => (by cases hnot),
      fun i hlo _ hhi => ?_, iff_of_true rfl hcomplete, rfl⟩
    rcases hlo with hlo | hnot
    · exact absurd (show i < 0 from hhi) (by omega)
    · cases hnot
  · rw [hstart]
    refine ⟨rfl, fun _ h => h, fun j hj => hhad.symm ▸ hj, fun _ => hlo,
      fun j _ hj hji => ?_, ?_, ?_⟩
    · exact hhad ▸ havePiece_eq_true.mp (hbefore j hj hji)
    · -- piece `i` is missing, so neither side holds
      refine iff_of_false Bool.false_ne_true fun hcomplete => ?_
      have := havePiece_eq_true.mpr (hhad.symm ▸ hcomplete i hlo hhi : i ∈ selected.had)
      rw [hmissing] at this
      cases this
    · dsimp only
      rw [Preparing.new_calls, List.count_eq_zero_of_not_mem]
      · rfl
      · split_ifs <;> simp

/-- A piece that comes makes none missing. -/
theorem Ok.have (h : r.Ok) (piece : ℤ) : (r.next (.have piece)).Ok :=
  ⟨h.range, h.atStart, fun i hi => List.mem_cons_of_mem _ (h.atUpdate i hi), h.begun, h.position,
    h.finished, h.calls⟩

/-- A task that has finished does not look any more. -/
theorem next_pieceFinished_of_finished (hfinished : r.task.finished = true) (piece : ℤ) :
    r.next (.pieceFinished piece) = { r with
      atUpdate := r.torrent.had, heard := if r.Complete then r.heard else piece :: r.heard } := by
  have htask : r.task.onPieceFinished r.torrent piece = (r.task, r.torrent) := by
    simp [WatchTask.onPieceFinished, hfinished]
  simp only [PieceRun.next, htask]

/-- What is had up to a piece that the scan from the position has come to. -/
theorem Ok.scanned (h : r.Ok) (hfinished : r.task.finished = false) {i : ℤ}
    (hbefore : ∀ j, r.task.currentPosition ≤ j → j < i → r.torrent.havePiece j = true) {j : ℤ}
    (hj : r.task.firstPiece ≤ j) (hji : j < i) : j ∈ r.torrent.had := by
  by_cases hlt : j < r.task.currentPosition
  · exact h.atUpdate j (h.position j (.inr hfinished) hj hlt)
  · exact havePiece_eq_true.mp (hbefore j (by omega) hji)

/-- An event goes on to the next missing piece, or finishes. -/
theorem Ok.pieceFinished (h : r.Ok) (piece : ℤ) : (r.next (.pieceFinished piece)).Ok := by
  cases hfinished : r.task.finished with
  | true =>
    rw [next_pieceFinished_of_finished hfinished]
    have hcomplete := h.finished.mp hfinished
    exact ⟨h.range, fun i hi => h.atUpdate i (h.atStart i hi), fun _ hi => hi, h.begun,
      fun i h₀ hlo hhi => h.atUpdate i (h.position i h₀ hlo hhi),
      iff_of_true hfinished fun i hlo hhi => h.atUpdate i (hcomplete i hlo hhi), h.calls⟩
  | false =>
    have hbegun := h.begun hfinished
    obtain ⟨calls, hnot, hprepared⟩ := WatchTask.prepare_calls r.task piece
    have hcount : (r.task.prepare piece).calls.count .onFinished = 0 := by
      rw [hprepared, List.count_append, h.calls, List.count_eq_zero_of_not_mem hnot, hfinished]
      rfl
    have hhad : ∀ j ∈ r.torrent.had, j ∈ (r.task.onPieceFinished r.torrent piece).2.had :=
      fun j hj => (WatchTask.onPieceFinished_had _ _ _).symm ▸ hj
    simp only [PieceRun.next]
    rcases WatchTask.onPieceFinished_cases (t := r.torrent) hfinished piece with
      ⟨i, hlo, hhi, hmissing, hbefore, htask⟩ | ⟨hall, htask⟩
    · rw [htask]
      refine ⟨by simpa using h.range, fun j hj => h.atUpdate j (h.atStart j hj), hhad, fun _ => ?_,
        fun j _ hj hji => ?_, ?_, ?_⟩
      · simpa using hbegun.trans hlo
      · exact h.scanned hfinished hbefore (by simpa using hj) hji
      · -- the piece found is one of the file that is missing
        refine iff_of_false (by simp [hfinished]) fun hcomplete => ?_
        have hmem : i ∈ r.torrent.had :=
          hcomplete i (by simpa using hbegun.trans hlo) (by simpa using hhi)
        rw [havePiece_eq_true.mpr hmem] at hmissing
        cases hmissing
      · simpa [hfinished] using hcount
    · rw [htask]
      refine ⟨by simpa using h.range, fun j hj => h.atUpdate j (h.atStart j hj), hhad,
        fun hnot => (by cases hnot), fun j _ hj hji => ?_, iff_of_true rfl fun j hj hjl => ?_, ?_⟩
      · simp only [WatchTask.prepare_firstPiece, WatchTask.prepare_currentPosition] at hj hji
        exact h.atUpdate j (h.position j (.inr hfinished) hj hji)
      · simp only [WatchTask.prepare_firstPiece, WatchTask.prepare_lastPiece] at hj hjl
        exact h.scanned hfinished (i := r.task.lastPiece + 1)
          (fun k hk hkl => hall k hk (by omega)) hj (by omega)
      · rw [List.count_append, hcount]
        rfl

/-- **Every run** keeps the invariant. -/
theorem ok_of_reachable (h : (machine piece_priorities).Reachable r) : r.Ok := by
  refine h.invariant ?_ ?_
  · rintro r ⟨t, index, -, rfl⟩
    exact ok_start t index
  · intro r e r' hok hstep
    obtain rfl := Option.some.inj hstep
    cases e with
    | «have» piece => exact hok.have piece
    | pieceFinished piece => exact hok.pieceFinished piece

/-- **The position never decreases.** -/
theorem currentPosition_le_next (e : PieceEvent) :
    r.task.currentPosition ≤ (r.next e).task.currentPosition := by
  cases e with
  | «have» piece => exact le_rfl
  | pieceFinished piece =>
    cases hfinished : r.task.finished with
    | true =>
      rw [next_pieceFinished_of_finished hfinished]
    | false =>
      simp only [PieceRun.next]
      rcases WatchTask.onPieceFinished_cases (t := r.torrent) hfinished piece with
        ⟨i, hlo, -, -, -, htask⟩ | ⟨-, htask⟩
      · rw [htask]
        exact hlo
      · rw [htask]
        simp

/-- The run keeps what the constructor has selected and what it has read. -/
theorem selected_of_goingOn {t : Torrent} {index : ℕ}
    (h : ((machine piece_priorities).goingOn (start piece_priorities t index)).Reachable r) :
    r.torrent.filePriorities = (WatchTask.selectFile t index).filePriorities ∧
      r.piecePriorities = (piece_priorities (WatchTask.selectFile t index).filePriorities).map
        convertPriority := by
  refine h.goingOn_invariant (I := fun r =>
    r.torrent.filePriorities = (WatchTask.selectFile t index).filePriorities ∧ r.piecePriorities =
      (piece_priorities (WatchTask.selectFile t index).filePriorities).map convertPriority)
    ⟨?_, rfl⟩ ?_
  · unfold start
    rcases WatchTask.start_cases (WatchTask.selectFile t index) t.getFilePriorities t.paused
      ((piece_priorities (WatchTask.selectFile t index).filePriorities).map convertPriority) with
      ⟨-, hstart⟩ | ⟨i, -, -, -, -, deadlines, hstart⟩
    · simp only [hstart]
    · simp only [hstart]
  · intro r e r' hsame hstep
    obtain rfl := Option.some.inj hstep
    cases e with
    | «have» piece => exact hsame
    | pieceFinished piece =>
      obtain ⟨deadlines, htorrent⟩ := r.task.onPieceFinished_torrent r.torrent piece
      refine ⟨?_, hsame.2⟩
      simp only [next, htorrent]
      exact hsame.1

end Runs

/-- **Completion.**  In every run of a task that has been constructed for a file, that file alone is
    selected, all pieces with a priority in front of the position are had, the position never
    decreases, the task has finished exactly if all pieces from the first to the last were had at
    the last event, and it has called `onFinished` once if it has finished, and not at all before.
    Where the piece priorities show those of the files, the pieces are those of the file. -/
theorem completed (piece_priorities : List ℕ → List ℕ) (t : Torrent) (index : ℕ) {task : WatchTask}
    {torrent : Torrent} (hnew : WatchTask.new piece_priorities t index = (some task, torrent))
    (r : PieceRun)
    (h : ((machine piece_priorities).goingOn (start piece_priorities t index)).Reachable r) :
    (start piece_priorities t index).task = task ∧
    r.torrent.filePriorities = t.filePriorities.mapIdx (fun i _ => if i = index then 1 else 0) ∧
    (∀ (i : ℕ) p, r.piecePriorities[i]? = some p → p ≠ .notDownload → i < r.task.currentPosition →
      r.torrent.havePiece i = true) ∧
    (∀ r', ((machine piece_priorities).goingOn r).Reachable r' →
      r.task.currentPosition ≤ r'.task.currentPosition) ∧
    (r.task.finished = true ↔ r.Complete) ∧
    (r.task.calls.count .onFinished = if r.Complete then 1 else 0) ∧
    ∀ (L : FileLayout) (file : ℕ × ℕ), L.Shows piece_priorities →
      t.filePriorities.length = L.files.length → L.files[index]? = some file → file.1 ≤ file.2 →
      r.task.firstPiece = file.1 ∧ r.task.lastPiece = file.2 ∧
        ∀ i : ℕ, file.1 ≤ i → i ≤ file.2 → i < r.task.currentPosition →
          r.torrent.havePiece i = true := by
  obtain ⟨hmetadata, htask, -⟩ := start_of_new hnew
  obtain ⟨hfiles, hread⟩ := selected_of_goingOn h
  have hstart : (machine piece_priorities).Reachable (start piece_priorities t index) :=
    .start ⟨t, index, hmetadata, rfl⟩
  have hok := ok_of_reachable (hstart.trans h)
  refine ⟨htask, hfiles.trans (WatchTask.selectFile_filePriorities t index), fun i p hi hp hlt => ?_,
    fun r' hgo => ?_, hok.finished, ?_, fun L file hshows hlength hfile hbytes => ?_⟩
  · -- a piece that is asked for is not before the first one of the range
    have hfirst : r.task.firstPiece ≤ i := by
      have hfst : r.task.firstPiece = (pieceRange r.piecePriorities).1 := congrArg Prod.fst hok.range
      rw [hfst]
      exact pieceRange_fst_le hi hp
    exact havePiece_eq_true.mpr (hok.atUpdate i (hok.position i (.inl (by omega)) hfirst hlt))
  · -- in every run from here no step moves the position back
    refine hgo.goingOn_invariant (I := fun r' => r.task.currentPosition ≤ r'.task.currentPosition)
      le_rfl ?_
    intro r₁ e r₂ hle hstep
    obtain rfl := Option.some.inj hstep
    exact hle.trans (currentPosition_le_next e)
  · rw [hok.calls]
    exact if_congr hok.finished rfl rfl
  · -- the range is read off the priorities, which `selectFile` has left to the file
    have hrange := hok.range
    rw [hread, hshows.pieceRange_selectFile hlength hfile hbytes] at hrange
    obtain ⟨hfirst, hlast⟩ := Prod.mk.inj hrange
    refine ⟨hfirst, hlast, fun i hlo hhi hlt => ?_⟩
    have hbegin : r.task.firstPiece ≤ i := by
      rw [hfirst]
      exact_mod_cast hlo
    exact havePiece_eq_true.mpr (hok.atUpdate i (hok.position i (.inl (by omega)) hbegin hlt))

/-- Two files of which the second lies in the pieces 1 to 3 of four and shares the first of them. -/
def twoFiles : FileLayout := ⟨4, [(0, 1), (1, 3)], by simp⟩

/-- The second file is watched, and the task hears of its pieces out of order. -/
theorem completed_out_of_order : ∃ r : PieceRun, r.task.finished = true ∧
    (start twoFiles.largest ⟨true, false, false, [1, 1], 16777216, [0], []⟩ 1).task.firstPiece = 1 ∧
    r.torrent.filePriorities = [0, 1] ∧ r.task.firstPiece = 1 ∧ r.task.lastPiece = 3 ∧
    (r.task.finished = true ↔ r.Complete) ∧
    r.task.calls.count .onFinished = if r.Complete then 1 else 0 := by
  have hrun : (Machine.runEvents (fun r e => some (next r e))
      (start twoFiles.largest ⟨true, false, false, [1, 1], 16777216, [0], []⟩ 1)
      [.have 2, .pieceFinished 2, .have 1, .have 3, .pieceFinished 3]).map
        (fun r => r.task.finished) = some true := by
    decide
  obtain ⟨r, hgo, hfinished⟩ := Machine.Reachable.exists_of_runEvents
    (show ((machine twoFiles.largest).goingOn _).Reachable _ from .start rfl) hrun
  obtain ⟨hstart, hfiles, -, -, hcomplete, hcalls, hfile⟩ := completed twoFiles.largest
    ⟨true, false, false, [1, 1], 16777216, [0], []⟩ 1 rfl r hgo
  obtain ⟨hfirst, hlast, -⟩ := hfile twoFiles (1, 3) twoFiles.shows_largest rfl rfl (by decide)
  exact ⟨r, hfinished, by rw [hstart]; decide, hfiles, hfirst, hlast, hcomplete, hcalls⟩

end PieceRun

end PopcornTime.TorrentLib
