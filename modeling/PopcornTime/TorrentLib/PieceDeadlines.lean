import PopcornTime.TorrentLib.Prepared

namespace PopcornTime.TorrentLib

open PopcornTime

/-!
# Torrent library — the deadlines of `update`

`update` walks through pieces up or down, by the order of its first two arguments.

* `Torrent.asked` — the pieces that a call gives a deadline to, and `asked_eq`: what they are.
* `Torrent.met` — the first missing pieces of the walk from the position.
* `Torrent.SetsRight`, `Torrent.setsRight_iff` — the two are the same, and pieces of the file.
* `PieceRun.urged_of_reachable` — a watch that goes on has a deadline for a missing piece.
-/

namespace Torrent

variable {t : Torrent} {first last position window fileFirst fileLast : ℤ}

/-! ### The pieces that get a deadline -/

/-- The pieces that a call of `update` gives a deadline to. -/
def asked (t : Torrent) (first last position window : ℤ) : List ℤ :=
  ((t.update first last position window).deadlines.drop t.deadlines.length).map Prod.fst

/-- The pieces on the way from the position to the last one. -/
def walk (first last position : ℤ) : List ℤ :=
  if first ≤ last then Int.range position (last + 1)
  else (Int.range last (position + 1)).reverse

/-- Those of a list that are missing, up to a number. -/
def firstMissing (t : Torrent) (window : ℤ) (pieces : List ℤ) : List ℤ :=
  (pieces.filter fun i => !t.havePiece i).take window.toNat

/-- **What `update` is for**: the first missing pieces on the way. -/
def met (t : Torrent) (first last position window : ℤ) : List ℤ :=
  t.firstMissing window (walk first last position)

/-- The loop, while fewer pieces than the window have been counted. -/
theorem updateLoop_deadlines (window : ℤ) (deadline : ℤ → ℤ) (t : Torrent) {count : ℤ}
    (hcount : count < window) (pieces : List ℤ) :
    (updateLoop window deadline t count pieces).deadlines =
      t.deadlines ++ (t.firstMissing (window - count) pieces).map fun i => (i, deadline i) := by
  induction pieces generalizing t count with
  | nil => simp [updateLoop, firstMissing]
  | cons i is ih =>
    obtain ⟨n, hn⟩ : ∃ n, (window - count).toNat = n + 1 := ⟨(window - count).toNat - 1, by omega⟩
    unfold updateLoop
    cases hhave : t.havePiece i with
    | true =>
      rw [if_pos rfl, if_neg (not_le.mpr hcount), ih t hcount]
      simp [firstMissing, hhave]
    | false =>
      rw [if_neg Bool.false_ne_true]
      have hrest : (t.firstMissing (window - count) (i :: is)).map (fun i => (i, deadline i)) =
          (i, deadline i) ::
            (t.firstMissing (window - (count + 1)) is).map fun i => (i, deadline i) := by
        have hn' : (window - (count + 1)).toNat = n := by omega
        simp [firstMissing, hhave, hn, hn']
      rw [hrest]
      dsimp only
      by_cases hstop : window ≤ count + 1
      · -- that was the last one
        have hzero : (window - (count + 1)).toNat = 0 := by omega
        rw [if_pos hstop]
        simp [setPieceDeadline, firstMissing, hzero]
      · rw [if_neg hstop, ih _ (not_le.mp hstop)]
        simp only [setPieceDeadline, List.append_assoc, List.singleton_append]
        rfl

/-- The loop gives deadlines to the first missing pieces. -/
theorem updateLoop_asked (deadline : ℤ → ℤ) (hwindow : 1 ≤ window) (pieces : List ℤ) :
    ((updateLoop window deadline t 0 pieces).deadlines.drop t.deadlines.length).map Prod.fst =
      t.firstMissing window pieces := by
  rw [updateLoop_deadlines window deadline t (by omega), List.drop_left, List.map_map, Int.sub_zero]
  exact List.map_id _

/-- **The pieces of a call**: the way down starts at the first argument, and there is none between
    equal bounds. -/
theorem asked_eq (hwindow : 1 ≤ window) : t.asked first last position window =
    if first < last then t.firstMissing window (Int.range position (last + 1))
    else if last < first then t.firstMissing window (Int.range last (first + 1)).reverse
    else [] := by
  unfold asked update
  split_ifs
  · exact updateLoop_asked _ hwindow _
  · exact updateLoop_asked _ hwindow _
  · rw [List.drop_length, List.map_nil]

/-! ### When the call is right -/

/-- **The deadlines are right**: those of the first missing pieces on the way, and no other, all of
    them pieces of the file. -/
structure SetsRight (t : Torrent) (fileFirst fileLast first last position window : ℤ) : Prop where
  exact : t.asked first last position window = t.met first last position window
  missing : ∀ i ∈ t.asked first last position window, t.havePiece i = false
  inFile : ∀ i ∈ t.asked first last position window, fileFirst ≤ i ∧ i ≤ fileLast

/-- The condition of a call: equal bounds only where nothing is missing, the way down from the first
    argument or from where the same is missing, and no piece outside the file. -/
structure UpdateGuard (t : Torrent) (fileFirst fileLast first last position window : ℤ) : Prop where
  one : first = last → ∀ i, position ≤ i → i ≤ last → t.havePiece i = true
  down : last < first → ∀ i, last ≤ i → min first position < i → i ≤ max first position →
    t.havePiece i = true
  inFile : ∀ i ∈ t.met first last position window, fileFirst ≤ i ∧ i ≤ fileLast

/-- They are missing pieces of the way. -/
theorem mem_firstMissing {pieces : List ℤ} {i : ℤ} (h : i ∈ t.firstMissing window pieces) :
    i ∈ pieces ∧ t.havePiece i = false := by
  have hfilter := List.mem_filter.mp (List.mem_of_mem_take h)
  exact ⟨hfilter.1, by simpa using hfilter.2⟩

/-- There is none if all of the way is had. -/
theorem firstMissing_eq_nil (hwindow : 1 ≤ window) {pieces : List ℤ} :
    t.firstMissing window pieces = [] ↔ ∀ i ∈ pieces, t.havePiece i = true := by
  unfold firstMissing
  rw [List.take_eq_nil_iff, or_iff_right (by omega), List.filter_eq_nil_iff]
  simp

/-- A way that begins earlier meets the same first missing pieces if none is missing on the part
    that is more. -/
theorem firstMissing_append (hwindow : 1 ≤ window) {more pieces : List ℤ}
    (hmore : ∀ i ∈ more, i ∉ pieces) :
    t.firstMissing window (more ++ pieces) = t.firstMissing window pieces ↔
      ∀ i ∈ more, t.havePiece i = true := by
  constructor
  · intro heq i hi
    by_contra hmissing
    obtain ⟨n, hn⟩ : ∃ n, window.toNat = n + 1 := ⟨window.toNat - 1, by omega⟩
    have hmem : i ∈ more.filter fun i => !t.havePiece i :=
      List.mem_filter.mpr ⟨hi, by simpa using hmissing⟩
    -- the first missing piece of the part is not on the rest of the way
    cases hfilter : more.filter fun i => !t.havePiece i with
    | nil =>
      rw [hfilter] at hmem
      exact absurd hmem List.not_mem_nil
    | cons j js =>
      have hj : j ∈ t.firstMissing window (more ++ pieces) := by
        unfold firstMissing
        rw [List.filter_append, hfilter, List.cons_append, hn, List.take_succ_cons]
        exact List.mem_cons_self
      rw [heq] at hj
      have hjmore : j ∈ more.filter fun i => !t.havePiece i := by
        rw [hfilter]
        exact List.mem_cons_self
      exact hmore j (List.mem_filter.mp hjmore).1 (mem_firstMissing hj).1
  · intro hall
    have hnil : (more.filter fun i => !t.havePiece i) = [] :=
      List.filter_eq_nil_iff.mpr fun i hi => by simp [hall i hi]
    unfold firstMissing
    rw [List.filter_append, hnil, List.nil_append]

/-- Two ways down to the same piece. -/
theorem firstMissing_down (hwindow : 1 ≤ window) {lo a b : ℤ} (hab : a ≤ b) :
    t.firstMissing window (Int.range lo (b + 1)).reverse =
        t.firstMissing window (Int.range lo (a + 1)).reverse ↔
      ∀ i, lo ≤ i → a < i → i ≤ b → t.havePiece i = true := by
  by_cases hlo : lo ≤ b + 1
  · -- the longer way goes through the pieces behind `a` first
    have hshort : Int.range lo (a + 1) = Int.range lo (max lo (a + 1)) := by
      by_cases h : lo ≤ a + 1
      · rw [max_eq_right h]
      · rw [max_eq_left (by omega), range_eq_nil (by omega), range_eq_nil le_rfl]
    rw [hshort, range_append (le_max_left lo (a + 1)) (show max lo (a + 1) ≤ b + 1 by omega),
      List.reverse_append, firstMissing_append hwindow]
    · refine forall_congr' fun i => ?_
      rw [List.mem_reverse, Int.mem_range_iff]
      exact ⟨fun h h₀ h₁ h₂ => h ⟨by omega, by omega⟩,
        fun h hi => h (by omega) (by omega) (by omega)⟩
    · intro i hi hi'
      rw [List.mem_reverse, Int.mem_range_iff] at hi hi'
      omega
  · rw [range_eq_nil (show b + 1 ≤ lo by omega), range_eq_nil (show a + 1 ≤ lo by omega)]
    exact iff_of_true rfl fun i h₀ _ h₁ => absurd h₁ (by omega)

/-- When a call asks for what it meets. -/
theorem asked_eq_met_iff (t : Torrent) (first last position : ℤ) (hwindow : 1 ≤ window) :
    t.asked first last position window = t.met first last position window ↔
      (first = last → ∀ i, position ≤ i → i ≤ last → t.havePiece i = true) ∧
      (last < first → ∀ i, last ≤ i → min first position < i → i ≤ max first position →
        t.havePiece i = true) := by
  rw [asked_eq hwindow, met, walk]
  rcases lt_trichotomy first last with hlt | rfl | hgt
  · rw [if_pos hlt, if_pos hlt.le]
    exact iff_of_true rfl ⟨fun heq => absurd heq hlt.ne, fun hgt => absurd hgt hlt.asymm⟩
  · rw [if_neg (lt_irrefl _), if_neg (lt_irrefl _), if_pos le_rfl, eq_comm,
      firstMissing_eq_nil hwindow]
    constructor
    · intro h
      exact ⟨fun _ i hi hil => h i (Int.mem_range_iff.mpr ⟨hi, by omega⟩),
        fun hlt => absurd hlt (lt_irrefl _)⟩
    · intro h i hi
      rw [Int.mem_range_iff] at hi
      exact h.1 rfl i hi.1 (by omega)
  · rw [if_neg hgt.asymm, if_pos hgt, if_neg (not_le.mpr hgt),
      and_iff_right fun heq => absurd heq hgt.ne']
    -- downwards the position may lie on either side of the start
    have hdown : (∀ i, last ≤ i → min first position < i → i ≤ max first position →
        t.havePiece i = true) ↔ (last < first → ∀ i, last ≤ i → min first position < i →
          i ≤ max first position → t.havePiece i = true) := ⟨fun h _ => h, fun h => h hgt⟩
    rw [← hdown]
    rcases le_total first position with hle | hle
    · rw [min_eq_left hle, max_eq_right hle, eq_comm]
      exact firstMissing_down hwindow hle
    · rw [min_eq_right hle, max_eq_left hle]
      exact firstMissing_down hwindow hle

/-- **The deadlines of a call** are right exactly if its guard is met. -/
theorem setsRight_iff (t : Torrent) (fileFirst fileLast first last position : ℤ)
    (hwindow : 1 ≤ window) : t.SetsRight fileFirst fileLast first last position window ↔
      t.UpdateGuard fileFirst fileLast first last position window := by
  have hiff := t.asked_eq_met_iff first last position hwindow
  constructor
  · intro h
    obtain ⟨hone, hdown⟩ := hiff.mp h.exact
    exact ⟨hone, hdown, fun i hi => h.inFile i (h.exact ▸ hi)⟩
  · intro h
    have hexact := hiff.mpr ⟨h.one, h.down⟩
    refine ⟨hexact, fun i hi => ?_, fun i hi => h.inFile i (hexact ▸ hi)⟩
    rw [hexact] at hi
    exact (mem_firstMissing hi).2

/-- **The way up** through a file goes wrong for a file of one piece only. -/
theorem setsRight_ahead (hwindow : 1 ≤ window) (hfile : first ≤ last)
    (hposition : first ≤ position) : t.SetsRight first last first last position window ↔
      (first = last → ∀ i, position ≤ i → i ≤ last → t.havePiece i = true) := by
  rw [setsRight_iff t first last first last position hwindow]
  refine ⟨fun h => h.one, fun h => ⟨h, fun hlt => absurd hfile (not_le.mpr hlt), fun i hi => ?_⟩⟩
  rw [met, walk, if_pos hfile] at hi
  have hrange := Int.mem_range_iff.mp (mem_firstMissing hi).1
  omega

/-- **The window at the end** of a file. -/
theorem setsRight_end (hwindow : 1 ≤ window) (hfile : first ≤ last) :
    t.SetsRight first last last (last - window + 1) last window ↔
      (window = 1 → t.havePiece last = true) ∧
        ∀ i, last - window + 1 ≤ i → i < first → t.havePiece i = true := by
  have hmet : ∀ i, i ∈ t.met last (last - window + 1) last window ↔
      (last - window + 1 ≤ i ∧ i ≤ last) ∧ t.havePiece i = false := by
    intro i
    -- the way is no longer than the window
    have hwalk : ∀ j, j ∈ walk last (last - window + 1) last ↔
        last - window + 1 ≤ j ∧ j ≤ last := by
      intro j
      unfold walk
      split_ifs
      · rw [Int.mem_range_iff]
        omega
      · rw [List.mem_reverse, Int.mem_range_iff]
        omega
    have hlength : (walk last (last - window + 1) last).length ≤ window.toNat := by
      unfold walk
      split_ifs
      · have := length_range (show last ≤ last - window + 1 + 1 by omega)
        omega
      · rw [List.length_reverse]
        have := length_range (show last - window + 1 ≤ last + 1 by omega)
        omega
    rw [met, firstMissing, List.take_of_length_le ((List.length_filter_le ..).trans hlength),
      List.mem_filter, hwalk, Bool.not_eq_true']
  rw [setsRight_iff t first last last (last - window + 1) last hwindow]
  constructor
  · intro h
    refine ⟨fun hone => h.one (by omega) last le_rfl (by omega), fun i hlo hhi => ?_⟩
    by_contra hmissing
    have hin := h.inFile i ((hmet i).mpr ⟨⟨hlo, by omega⟩, by simpa using hmissing⟩)
    omega
  · rintro ⟨hone, hbefore⟩
    refine ⟨fun heq i hi hil => ?_, fun _ i _ hi hi' => ?_, fun i hi => ?_⟩
    · obtain rfl : i = last := by omega
      exact hone (by omega)
    · rw [min_self] at hi
      rw [max_self] at hi'
      omega
    · obtain ⟨⟨hlo, hhi⟩, hmissing⟩ := (hmet i).mp hi
      refine ⟨?_, hhi⟩
      by_contra hlt
      rw [hbefore i hlo (not_le.mp hlt)] at hmissing
      cases hmissing

end Torrent

/-! ### A watch that goes on -/

section Deadlines

variable {t : Torrent} {first last position window i : ℤ}

/-- A call adds deadlines. -/
theorem Torrent.mem_deadlines_update (hwindow : 1 ≤ window) :
    i ∈ (t.update first last position window).deadlines.map Prod.fst ↔
      i ∈ t.deadlines.map Prod.fst ∨ i ∈ t.asked first last position window := by
  have hprefix : ∃ l, (t.update first last position window).deadlines = t.deadlines ++ l := by
    unfold update
    split_ifs
    · exact ⟨_, updateLoop_deadlines window _ t (by omega) _⟩
    · exact ⟨_, updateLoop_deadlines window _ t (by omega) _⟩
    · exact ⟨[], (List.append_nil _).symm⟩
  obtain ⟨l, hl⟩ := hprefix
  rw [asked, hl, List.drop_left, List.map_append, List.mem_append]

/-- A missing piece at the front is the first one. -/
theorem Torrent.head_mem_firstMissing (hwindow : 1 ≤ window) {is : List ℤ}
    (hmissing : t.havePiece i = false) : i ∈ t.firstMissing window (i :: is) := by
  obtain ⟨n, hn⟩ : ∃ n, window.toNat = n + 1 := ⟨window.toNat - 1, by omega⟩
  unfold firstMissing
  rw [List.filter_cons_of_pos (by simp [hmissing]), hn, List.take_succ_cons]
  exact List.mem_cons_self

/-- The way up asks for a position that is missing. -/
theorem Torrent.mem_asked_up (hwindow : 1 ≤ window) (hbounds : first < last) (hi : i ≤ last)
    (hmissing : t.havePiece i = false) : i ∈ t.asked first last i window := by
  rw [asked_eq hwindow, if_pos hbounds, range_eq_cons (show i < last + 1 by omega)]
  exact head_mem_firstMissing hwindow hmissing

/-- The way down asks for the first argument if that is missing. -/
theorem Torrent.mem_asked_down (hwindow : 1 ≤ window) (hbounds : last < first)
    (hmissing : t.havePiece first = false) : first ∈ t.asked first last position window := by
  rw [asked_eq hwindow, if_neg hbounds.asymm, if_pos hbounds,
    range_append hbounds.le (show first ≤ first + 1 by omega),
    range_eq_cons (show first < first + 1 by omega), range_eq_nil le_rfl, List.reverse_append]
  exact head_mem_firstMissing hwindow hmissing

/-- A call brings no piece. -/
theorem Torrent.havePiece_update (t : Torrent) (first last position window i : ℤ) :
    (t.update first last position window).havePiece i = t.havePiece i := by
  rw [update_eq]
  rfl

/-- **The constructor** of the windows asks for a position that is missing, by the way up or, for a
    file of one piece, by the window at the end. -/
theorem Preparing.mem_deadlines_new {w : ℕ} (hw : 2 ≤ w) (h₀ : first ≤ i) (h₁ : i ≤ last)
    (hmissing : t.havePiece i = false) :
    i ∈ (Preparing.new t first last i w w).2.1.deadlines.map Prod.fst := by
  have hwindow : (1 : ℤ) ≤ w := by omega
  have hsuccess : (Preparing.new t first last i w w).2.1 =
      if (Preparing.new t first last i w w).1.success then t.update first last i w
      else (t.update first last i w).update last (last - w + 1) last w := by
    unfold Preparing.new
    dsimp only
    split_ifs
    · rfl
    · rfl
  rw [hsuccess]
  rcases lt_or_eq_of_le (h₀.trans h₁) with hlt | heq
  · -- the first pass asks for the missing piece, the second one only adds
    have hup : i ∈ (t.update first last i w).deadlines.map Prod.fst :=
      (Torrent.mem_deadlines_update hwindow).mpr
        (Or.inr (Torrent.mem_asked_up hwindow hlt h₁ hmissing))
    split_ifs
    · exact hup
    · exact (Torrent.mem_deadlines_update hwindow).mpr (Or.inl hup)
  · obtain rfl : i = last := by omega
    -- a range of one piece is asked for by the second pass only, which does run
    have hnot : (Preparing.new t first i i w w).1.success ≠ true := by
      intro htrue
      rw [(new_windows t first i i w).success_iff] at htrue
      rcases htrue.1 i ⟨by omega, by omega⟩ with hhad | hheard
      · rw [PieceRun.havePiece_eq_true.mpr hhad] at hmissing
        cases hmissing
      · exact absurd hheard List.not_mem_nil
    rw [if_neg hnot]
    refine (Torrent.mem_deadlines_update hwindow).mpr (Or.inr ?_)
    refine Torrent.mem_asked_down hwindow (by omega) ?_
    rw [Torrent.havePiece_update, hmissing]

/-- A window is of two pieces or more. -/
theorem two_le_pieceWindow (pieceSize : ℕ) : 2 ≤ pieceWindow pieceSize := by
  unfold pieceWindow PIECES_WINDOW_MIN
  split_ifs <;> omega

end Deadlines

namespace PieceRun

variable {piece_priorities : List ℕ → List ℕ} {r r' : PieceRun} {e : PieceEvent}

/-- A piece of the file that was missing at the last event has a deadline. -/
structure Urged (r : PieceRun) : Prop where
  window : 2 ≤ r.task.pieceWindow
  deadline : r.task.finished = false → ∃ i, r.task.firstPiece ≤ i ∧ i ≤ r.task.lastPiece ∧
    i ∉ r.atUpdate ∧ i ∈ r.torrent.deadlines.map Prod.fst

/-- The constructor asks for a piece that is missing. -/
theorem urged_start (t : Torrent) (index : ℕ) : (start piece_priorities t index).Urged := by
  obtain ⟨selected, ps, hhad, hrun⟩ := exists_start piece_priorities t index
  obtain ⟨⟨first, last⟩, hrange⟩ : ∃ range, pieceRange ps = range := ⟨_, rfl⟩
  rw [hrun]
  simp only [WatchTask.start, hrange]
  rcases WatchTask.updatePosition_cases ⟨t.getFilePriorities, first, last,
    TorrentLib.pieceWindow selected.pieceSize, t.paused, 0, false, none, []⟩ selected first with
    ⟨i, hlo, hhi, hmissing, hbefore, heq⟩ | ⟨hall, heq⟩
  · rw [heq]
    refine ⟨two_le_pieceWindow _, fun _ => ⟨i, hlo, hhi, fun hmem => ?_, ?_⟩⟩
    · rw [havePiece_eq_true.mpr (hhad.symm ▸ hmem : i ∈ selected.had)] at hmissing
      cases hmissing
    · have hnew := Preparing.mem_deadlines_new (two_le_pieceWindow selected.pieceSize) hlo hhi
        hmissing
      cases t.paused with
      | true => exact hnew
      | false => exact hnew
  · rw [heq]
    exact ⟨two_le_pieceWindow _, fun hnot => by cases hnot⟩

/-- The torrent behind an event: a task that goes on asks for the pieces ahead. -/
theorem onPieceFinished_snd {task : WatchTask} {t : Torrent} (hfinished : task.finished = false)
    (piece : ℤ) : (task.onPieceFinished t piece).2 =
      if (task.onPieceFinished t piece).1.finished then t
      else t.update task.firstPiece task.lastPiece (task.onPieceFinished t piece).1.currentPosition
        task.pieceWindow := by
  have hprepare : (task.prepare piece).pieceWindow = task.pieceWindow := by
    rw [WatchTask.prepare_eq]
  unfold WatchTask.onPieceFinished
  rw [if_neg (by rw [hfinished]; exact Bool.false_ne_true)]
  dsimp only
  rcases WatchTask.updatePosition_cases (task.prepare piece) t (task.prepare piece).currentPosition
    with ⟨i, -, -, -, -, heq⟩ | ⟨-, heq⟩
  · simp only [heq, WatchTask.prepare_finished, hfinished, WatchTask.prepare_firstPiece,
      WatchTask.prepare_lastPiece, hprepare, Bool.false_eq_true, if_false]
  · simp only [heq, if_true]

/-- And so does every event behind which the task goes on. -/
theorem Urged.pieceFinished (hok : r.Ok) (h : r.Urged) (piece : ℤ) :
    (r.next (.pieceFinished piece)).Urged := by
  cases hfinished : r.task.finished with
  | true =>
    rw [next_pieceFinished_of_finished hfinished]
    exact ⟨h.window, fun hnot => by rw [hfinished] at hnot; cases hnot⟩
  | false =>
    have hwindow : (1 : ℤ) ≤ r.task.pieceWindow := by
      have := h.window
      omega
    have hkept : r.task.pieceWindow = (r.task.prepare piece).pieceWindow := by
      rw [WatchTask.prepare_eq]
    have htorrent := onPieceFinished_snd (t := r.torrent) hfinished piece
    simp only [PieceRun.next]
    rcases WatchTask.onPieceFinished_cases (t := r.torrent) hfinished piece with
      ⟨i, hlo, hhi, hmissing, -, htask⟩ | ⟨-, htask⟩
    · rw [htask] at htorrent ⊢
      simp only [WatchTask.prepare_finished, hfinished, Bool.false_eq_true, if_false] at htorrent
      rw [htorrent]
      refine ⟨h.window.trans_eq hkept, fun _ => ?_⟩
      simp only [WatchTask.prepare_firstPiece, WatchTask.prepare_lastPiece]
      have hfirst := (hok.begun hfinished).trans hlo
      have hnot : i ∉ r.torrent.had := fun hmem => by
        rw [havePiece_eq_true.mpr hmem] at hmissing
        cases hmissing
      refine ⟨i, hfirst, hhi, hnot, (Torrent.mem_deadlines_update hwindow).mpr ?_⟩
      rcases lt_or_eq_of_le (hfirst.trans hhi) with hlt | heq
      · exact Or.inr (Torrent.mem_asked_up hwindow hlt hhi hmissing)
      · -- the only piece has had its deadline all along
        obtain ⟨j, hj, hjl, -, hdeadline⟩ := h.deadline hfinished
        obtain rfl : i = j := by omega
        exact Or.inl hdeadline
    · rw [htask]
      exact ⟨h.window.trans_eq hkept, fun hnot => by cases hnot⟩

/-- **In every run** a watch that goes on has a deadline. -/
theorem urged_of_reachable (h : (machine piece_priorities).Reachable r) : r.Urged := by
  refine h.invariant_reachable ?_ ?_
  · rintro r ⟨t, index, -, rfl⟩
    exact urged_start t index
  · intro r e r' hreach hurged hstep
    obtain rfl := Option.some.inj hstep
    cases e with
    | «have» piece => exact ⟨hurged.window, hurged.deadline⟩
    | pieceFinished piece => exact hurged.pieceFinished (ok_of_reachable hreach) piece

/-- **Deadlines.**  For every file and every window a call of `update` is right exactly if its guard
    is met: the way up does so but for a missing piece that is the whole file, the window at the end
    but for such a piece or a missing one before the file.  And a watch that goes on has a deadline
    for a piece of its file that was missing at the last event. -/
theorem deadlinesRight_iff (t : Torrent) {first last window : ℤ} (hfile : first ≤ last)
    (hwindow : 1 ≤ window) :
    (∀ position, first ≤ position → (t.SetsRight first last first last position window ↔
      (first = last → ∀ i, position ≤ i → i ≤ last → t.havePiece i = true))) ∧
    (t.SetsRight first last last (last - window + 1) last window ↔
      (window = 1 → t.havePiece last = true) ∧
        ∀ i, last - window + 1 ≤ i → i < first → t.havePiece i = true) ∧
    (∀ first' last' position, t.SetsRight first last first' last' position window ↔
      t.UpdateGuard first last first' last' position window) ∧
    ∀ piece_priorities r, (machine piece_priorities).Reachable r → r.task.finished = false →
      ∃ i, r.task.firstPiece ≤ i ∧ i ≤ r.task.lastPiece ∧ i ∉ r.atUpdate ∧
        i ∈ r.torrent.deadlines.map Prod.fst :=
  ⟨fun _ hposition => Torrent.setsRight_ahead hwindow hfile hposition,
    Torrent.setsRight_end hwindow hfile,
    fun first' last' position => t.setsRight_iff first last first' last' position hwindow,
    fun _ _ h hfinished => (urged_of_reachable h).deadline hfinished⟩

def noPieces : Torrent := ⟨true, false, false, [1], 16777216, [], []⟩

/-- A file of pieces 1 to 5. -/
theorem deadlinesRight_iff_fivePieces : noPieces.SetsRight 1 5 1 5 1 2 ∧
    noPieces.asked 1 5 1 2 = [1, 2] :=
  ⟨((deadlinesRight_iff noPieces (show (1 : ℤ) ≤ 5 by decide) (show (1 : ℤ) ≤ 2 by decide)).1 1
    le_rfl).mpr fun heq => absurd heq (by decide), by decide⟩

/-- A file of one piece gets no deadline by the way up, and by the window at its end the piece
    before it gets one as well. -/
theorem not_setsRight_onePiece : noPieces.asked 5 5 5 2 = [] ∧ ¬noPieces.SetsRight 5 5 5 5 5 2 ∧
    noPieces.asked 5 4 5 2 = [5, 4] ∧ ¬noPieces.SetsRight 5 5 5 4 5 2 := by
  refine ⟨by decide, fun h => ?_, by decide, fun h => ?_⟩
  · exact absurd h.exact (by decide)
  · exact absurd (h.inFile 4 (by decide)) (by decide)

end PieceRun

end PopcornTime.TorrentLib
