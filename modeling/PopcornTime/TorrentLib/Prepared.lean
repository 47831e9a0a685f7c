import Mathlib.Tactic.Linarith
import PopcornTime.TorrentLib.Completion

namespace PopcornTime.TorrentLib

open PopcornTime

/-!
# Torrent library — a file is prepared

The two windows of `Preparing` are of a fixed length, whatever the length of the file, and an event
marks a piece in one of them only.

* `Preparing.Counted` — the progress counts the marks, and the success is when all are set.
* `Windows` — which pieces are marked, `CallsOk` — what the listener has heard.
* `PieceRun.prepared_iff` — when the listener hears of the success.
-/

/-! ### Marks and their number -/

section Marks

variable {l : List Bool} {i : ℤ}

/-- One mark more. -/
theorem count_set_true (h : get? l i = some false) :
    (l.set i.toNat true).count true = l.count true + 1 := by
  obtain ⟨h₀, h₁⟩ := mem_range_of_get?_eq_some h
  have hlt : i.toNat < l.length := by omega
  rw [get?, if_pos h₀, List.getElem?_eq_getElem hlt, Option.some.injEq] at h
  rw [List.count_set hlt, h]
  simp

/-- All marks are set if that of every index is. -/
theorem forall_get?_iff :
    (∀ b ∈ l, b = true) ↔ ∀ i : ℤ, 0 ≤ i → i < l.length → get? l i = some true := by
  constructor
  · intro h i h₀ h₁
    have hlt : i.toNat < l.length := by omega
    rw [get?, if_pos h₀, List.getElem?_eq_getElem hlt, h _ (List.getElem_mem hlt)]
  · intro h b hb
    obtain ⟨k, hk, rfl⟩ := List.mem_iff_getElem.mp hb
    have := h k (by omega) (by omega)
    rw [get?, if_pos (by omega), Int.toNat_natCast, List.getElem?_eq_getElem hk] at this
    exact Option.some.inj this

end Marks

namespace Preparing

variable {p : Preparing}

/-- The progress counts the marks. -/
structure Counted (p : Preparing) : Prop where
  total : p.total = p.beginRange.length + p.endRange.length
  progress : p.progress = p.beginRange.count true + p.endRange.count true
  success : p.success = decide (p.total ≤ p.progress)

/-- There are no more marks than places. -/
theorem Counted.progress_le (h : p.Counted) : p.progress ≤ p.total := by
  rw [h.progress, h.total]
  exact Nat.add_le_add List.count_le_length List.count_le_length

/-- **Success** is when every mark is set. -/
theorem Counted.success_iff (h : p.Counted) :
    p.success = true ↔ (∀ b ∈ p.beginRange, b = true) ∧ ∀ b ∈ p.endRange, b = true := by
  have hbegin : p.beginRange.count true ≤ p.beginRange.length := List.count_le_length
  have hend : p.endRange.count true ≤ p.endRange.length := List.count_le_length
  rw [h.success, decide_eq_true_iff, h.progress, h.total]
  have hall : ∀ l : List Bool, (∀ b ∈ l, b = true) ↔ l.count true = l.length := by
    intro l
    rw [List.count_eq_length]
    exact forall_congr' fun b => imp_congr_right fun _ => eq_comm
  rw [hall, hall]
  omega

/-- The constructor counts the marks that it sets. -/
theorem new_counted (t : Torrent) (firstPiece lastPiece currentPosition : ℤ)
    (startRange endRange : ℕ) :
    (new t firstPiece lastPiece currentPosition startRange endRange).1.Counted := by
  unfold new
  dsimp only
  split_ifs
  · exact ⟨by simp, rfl, rfl⟩
  · exact ⟨by simp, rfl, rfl⟩

/-- **What an event does to the windows**: it marks its piece in the window at the begin, or else in
    the one at the end, or nothing. -/
theorem onPieceFinished_cases (p : Preparing) (firstPiece lastPiece piece : ℤ) :
    ∃ p' reported, p.onPieceFinished firstPiece lastPiece piece =
      (p', if p'.success then reported ++ [.onPrepareSuccess] else reported) ∧
    (p' = p ∧ reported = [] ∧
        ((¬(firstPiece ≤ piece ∧ piece < firstPiece + p.beginRange.length) ∧
            ¬(piece ≤ lastPiece ∧ lastPiece - p.endRange.length < piece)) ∨
          get? p.beginRange (piece - firstPiece) = some true ∨
          ¬(firstPiece ≤ piece ∧ piece < firstPiece + p.beginRange.length) ∧
            get? p.endRange (lastPiece - piece) = some true) ∨
      (reported = [.onProgress p'.progress p'.total] ∧ p'.total = p.total ∧
        p'.progress = p.progress + 1 ∧ p'.success = decide (p'.total ≤ p'.progress) ∧
        ((get? p.beginRange (piece - firstPiece) = some false ∧
            p'.beginRange = p.beginRange.set (piece - firstPiece).toNat true ∧
            p'.endRange = p.endRange) ∨
          ¬(firstPiece ≤ piece ∧ piece < firstPiece + p.beginRange.length) ∧
            get? p.endRange (lastPiece - piece) = some false ∧
            p'.endRange = p.endRange.set (lastPiece - piece).toNat true ∧
            p'.beginRange = p.beginRange))) := by
  -- in the range of the marks a piece that is not open is done
  have hget : ∀ (l : List Bool) (i : ℤ), 0 ≤ i → i < l.length → get? l i ≠ some false →
      get? l i = some true := by
    intro l i h₀ h₁ hne
    have hlt : i.toNat < l.length := by omega
    rw [get?, if_pos h₀, List.getElem?_eq_getElem hlt] at hne ⊢
    cases hb : l[i.toNat] with
    | false => exact absurd (by rw [hb]) hne
    | true => rfl
  unfold onPieceFinished
  by_cases hbegin : firstPiece ≤ piece ∧ piece < firstPiece + p.beginRange.length
  · rw [if_pos hbegin]
    unfold updateState
    by_cases hmark : get? p.beginRange (piece - firstPiece) = some false
    · rw [if_pos hmark]
      exact ⟨_, _, rfl, .inr ⟨rfl, rfl, rfl, rfl, .inl ⟨hmark, rfl, rfl⟩⟩⟩
    · rw [if_neg hmark]
      exact ⟨_, _, rfl, .inl ⟨rfl, rfl, .inr (.inl (hget _ _ (by omega) (by omega) hmark))⟩⟩
  · rw [if_neg hbegin]
    -- a piece of both ranges counts for the first only
    by_cases hend : piece ≤ lastPiece ∧ lastPiece - p.endRange.length < piece
    · rw [if_pos hend]
      unfold updateState
      by_cases hmark : get? p.endRange (lastPiece - piece) = some false
      · rw [if_pos hmark]
        exact ⟨_, _, rfl, .inr ⟨rfl, rfl, rfl, rfl, .inr ⟨hbegin, hmark, rfl, rfl⟩⟩⟩
      · rw [if_neg hmark]
        exact ⟨_, _, rfl, .inl ⟨rfl, rfl,
          .inr (.inr ⟨hbegin, hget _ _ (by omega) (by omega) hmark⟩)⟩⟩
    · rw [if_neg hend]
      exact ⟨_, _, rfl, .inl ⟨rfl, rfl, .inl ⟨hbegin, hend⟩⟩⟩

/-- **An event** keeps the count. -/
theorem Counted.onPieceFinished (h : p.Counted) (firstPiece lastPiece piece : ℤ) :
    (p.onPieceFinished firstPiece lastPiece piece).1.Counted ∧
      (p.onPieceFinished firstPiece lastPiece piece).1.beginRange.length = p.beginRange.length ∧
      (p.onPieceFinished firstPiece lastPiece piece).1.endRange.length = p.endRange.length := by
  obtain ⟨p', reported, heq, hcases⟩ := p.onPieceFinished_cases firstPiece lastPiece piece
  rw [heq]
  dsimp only
  rcases hcases with ⟨rfl, -, -⟩ | ⟨-, htotal, hprogress, hsuccess,
    ⟨hmark, hbegin, hend⟩ | ⟨-, hmark, hend, hbegin⟩⟩
  · exact ⟨h, rfl, rfl⟩
  · refine ⟨⟨?_, ?_, hsuccess⟩, by rw [hbegin, List.length_set], by rw [hend]⟩
    · rw [htotal, hbegin, hend, List.length_set, h.total]
    · rw [hprogress, hbegin, hend, count_set_true hmark, h.progress]
      omega
  · refine ⟨⟨?_, ?_, hsuccess⟩, by rw [hbegin], by rw [hend, List.length_set]⟩
    · rw [htotal, hbegin, hend, List.length_set, h.total]
    · rw [hprogress, hbegin, hend, count_set_true hmark, h.progress]
      omega

end Preparing

/-! ### Which pieces are marked -/

/-- The window of length `w` at the begin of the file. -/
def InBegin (first : ℤ) (w : ℕ) (piece : ℤ) : Prop :=
  first ≤ piece ∧ piece < first + w

/-- The window of length `w` at the end of the file. -/
def InEnd (last : ℤ) (w : ℕ) (piece : ℤ) : Prop :=
  piece ≤ last ∧ last - w < piece

/-- The marks are those of the pieces had at the start, and of the pieces heard of, which in the
    window at the end only count outside the one at the begin. -/
structure Windows (first last : ℤ) (w : ℕ) (atStart heard : List ℤ) (p : Preparing) : Prop where
  counted : p.Counted
  begin_length : p.beginRange.length = w
  end_length : p.endRange.length = w
  begin_iff : ∀ j : ℤ, 0 ≤ j → j < w →
    (get? p.beginRange j = some true ↔ first + j ∈ atStart ∨ first + j ∈ heard)
  end_iff : ∀ j : ℤ, 0 ≤ j → j < w → (get? p.endRange j = some true ↔
    last - j ∈ atStart ∨ last - j ∈ heard ∧ ¬ InBegin first w (last - j))

section Windows

variable {first last piece : ℤ} {w : ℕ} {atStart heard : List ℤ} {p : Preparing}

/-- **Success**, by the pieces. -/
theorem Windows.success_iff (h : Windows first last w atStart heard p) : p.success = true ↔
    (∀ i, InBegin first w i → i ∈ atStart ∨ i ∈ heard) ∧
      ∀ i, InEnd last w i → i ∈ atStart ∨ i ∈ heard ∧ ¬ InBegin first w i := by
  rw [h.counted.success_iff, forall_get?_iff, forall_get?_iff, h.begin_length, h.end_length]
  refine and_congr ⟨fun hall i hi => ?_, fun hall j h₀ h₁ => ?_⟩
    ⟨fun hall i hi => ?_, fun hall j h₀ h₁ => ?_⟩
  · obtain ⟨hlo, hhi⟩ := hi
    have := (h.begin_iff (i - first) (by omega) (by omega)).mp (hall _ (by omega) (by omega))
    rwa [show first + (i - first) = i by omega] at this
  · exact (h.begin_iff j h₀ h₁).mpr (hall _ ⟨by omega, by omega⟩)
  · obtain ⟨hhi, hlo⟩ := hi
    have := (h.end_iff (last - i) (by omega) (by omega)).mp (hall _ (by omega) (by omega))
    rwa [show last - (last - i) = i by omega] at this
  · exact (h.end_iff j h₀ h₁).mpr (hall _ ⟨by omega, by omega⟩)

/-- It sets those of the pieces had. -/
theorem new_windows (t : Torrent) (first last position : ℤ) (w : ℕ) :
    Windows first last w t.had [] (Preparing.new t first last position w w).1 := by
  have hranges : (Preparing.new t first last position w w).1.beginRange =
        (List.range w).map (fun i : ℕ => t.havePiece (first + i)) ∧
      (Preparing.new t first last position w w).1.endRange =
        (List.range w).map (fun i : ℕ => t.havePiece (last - i)) := by
    unfold Preparing.new
    dsimp only
    split_ifs
    · exact ⟨rfl, rfl⟩
    · exact ⟨rfl, rfl⟩
  have hget : ∀ (f : ℕ → Bool) (j : ℤ), 0 ≤ j → j < w →
      (get? ((List.range w).map f) j = some true ↔ f j.toNat = true) := by
    intro f j h₀ h₁
    rw [get?, if_pos h₀, List.getElem?_map, List.getElem?_range (by omega), Option.map_some,
      Option.some.injEq]
  refine ⟨Preparing.new_counted _ _ _ _ _ _, by simp [hranges], by simp [hranges],
    fun j h₀ h₁ => ?_, fun j h₀ h₁ => ?_⟩
  · rw [hranges.1, hget _ _ h₀ h₁, PieceRun.havePiece_eq_true, Int.toNat_of_nonneg h₀]
    simp
  · rw [hranges.2, hget _ _ h₀ h₁, PieceRun.havePiece_eq_true, Int.toNat_of_nonneg h₀]
    simp

/-- Behind the success the marks stay set. -/
theorem Windows.hear_of_success (h : Windows first last w atStart heard p) (hs : p.success = true)
    (piece : ℤ) : Windows first last w atStart (piece :: heard) p := by
  obtain ⟨hbegin, hend⟩ := h.success_iff.mp hs
  refine ⟨h.counted, h.begin_length, h.end_length, fun j h₀ h₁ => ?_, fun j h₀ h₁ => ?_⟩
  · have hmark := hbegin (first + j) ⟨by omega, by omega⟩
    exact iff_of_true ((h.begin_iff j h₀ h₁).mpr hmark)
      (hmark.imp_right (List.mem_cons_of_mem _))
  · have hmark := hend (last - j) ⟨by omega, by omega⟩
    exact iff_of_true ((h.end_iff j h₀ h₁).mpr hmark)
      (hmark.imp_right fun ⟨hheard, hnot⟩ => ⟨List.mem_cons_of_mem _ hheard, hnot⟩)

/-- **An event** marks its piece in the window at the begin, or else in the one at the end. -/
theorem Windows.marks (h : Windows first last w atStart heard p) (piece : ℤ) :
    (∀ j : ℤ, 0 ≤ j → j < w →
      (get? (p.onPieceFinished first last piece).1.beginRange j = some true ↔
        get? p.beginRange j = some true ∨ first + j = piece)) ∧
    ∀ j : ℤ, 0 ≤ j → j < w →
      (get? (p.onPieceFinished first last piece).1.endRange j = some true ↔
        get? p.endRange j = some true ∨ last - j = piece ∧ ¬ InBegin first w piece) := by
  obtain ⟨p', reported, heq, hcases⟩ := p.onPieceFinished_cases first last piece
  rw [heq]
  rw [h.begin_length, h.end_length] at hcases
  dsimp only
  have hset : ∀ (l : List Bool) (i : ℤ), get? l i = some false → ∀ j,
      (get? (l.set i.toNat true) j = some true ↔ get? l j = some true ∨ j = i) := by
    intro l i hi j
    obtain ⟨h₀, h₁⟩ := mem_range_of_get?_eq_some hi
    rw [get?_set h₀ h₁]
    by_cases hj : j = i <;> simp [hj]
  rcases hcases with ⟨rfl, -, hwhy⟩ | ⟨-, -, -, -, ⟨hmark, hbegin, hend⟩ | ⟨hnot, hmark, hend, hbegin⟩⟩
  · -- the piece is marked already, or lies in none of the windows
    refine ⟨fun j h₀ h₁ => (or_iff_left_of_imp fun hj => ?_).symm,
      fun j h₀ h₁ => (or_iff_left_of_imp fun ⟨hj, hnot⟩ => ?_).symm⟩
    · rcases hwhy with ⟨hbegin, -⟩ | hmark | ⟨hbegin, -⟩
      · exact absurd ⟨by omega, by omega⟩ hbegin
      · rwa [show j = piece - first by omega]
      · exact absurd ⟨by omega, by omega⟩ hbegin
    · rcases hwhy with ⟨-, hend⟩ | hmark | ⟨-, hmark⟩
      · exact absurd ⟨by omega, by omega⟩ hend
      · obtain ⟨h₀', h₁'⟩ := mem_range_of_get?_eq_some hmark
        rw [h.begin_length] at h₁'
        exact absurd ⟨by omega, by omega⟩ hnot
      · rwa [show j = last - piece by omega]
  · obtain ⟨h₀', h₁'⟩ := mem_range_of_get?_eq_some hmark
    rw [h.begin_length] at h₁'
    rw [hbegin, hend]
    refine ⟨fun j h₀ h₁ => (hset _ _ hmark j).trans (or_congr_right ⟨by omega, by omega⟩),
      fun j h₀ h₁ => (or_iff_left_of_imp fun ⟨hj, hnot⟩ => ?_).symm⟩
    exact absurd ⟨by omega, by omega⟩ hnot
  · rw [hbegin, hend]
    refine ⟨fun j h₀ h₁ => (or_iff_left_of_imp fun hj => ?_).symm,
      fun j h₀ h₁ => (hset _ _ hmark j).trans (or_congr_right ⟨fun hj => ⟨by omega, hnot⟩, by omega⟩)⟩
    exact absurd ⟨by omega, by omega⟩ hnot

/-- So a piece that is heard of is marked. -/
theorem Windows.hear (h : Windows first last w atStart heard p) (piece : ℤ) :
    Windows first last w atStart (piece :: heard) (p.onPieceFinished first last piece).1 := by
  obtain ⟨hbegin, hend⟩ := h.marks piece
  obtain ⟨hcounted, hbeginLength, hendLength⟩ := h.counted.onPieceFinished first last piece
  refine ⟨hcounted, hbeginLength.trans h.begin_length, hendLength.trans h.end_length,
    fun j h₀ h₁ => ?_, fun j h₀ h₁ => ?_⟩
  · rw [hbegin j h₀ h₁, h.begin_iff j h₀ h₁, List.mem_cons, or_assoc]
    exact or_congr_right or_comm
  · rw [hend j h₀ h₁, h.end_iff j h₀ h₁, List.mem_cons, or_assoc, or_and_right]
    refine or_congr_right (or_comm.trans (or_congr_left (and_congr_right fun hj => ?_)))
    rw [hj]

end Windows

/-! ### What the listener hears -/

/-- The values that have been reported. -/
def progressOf (calls : List ListenerCall) : List ℕ :=
  calls.filterMap fun
    | .onProgress current _ => some current
    | _ => none

/-- What the listener has heard of the windows. -/
structure CallsOk (p : Preparing) (calls : List ListenerCall) : Prop where
  success : calls.count .onPrepareSuccess = if p.success then 1 else 0
  total : ∀ current total, .onProgress current total ∈ calls → current ≤ total
  progress : ∀ current ∈ progressOf calls, current ≤ p.progress
  sorted : (progressOf calls).Pairwise (· ≤ ·)

section Calls

variable {p : Preparing} {calls : List ListenerCall}

/-- The constructor reports its progress, and the success if it is there. -/
theorem new_callsOk (t : Torrent) (first last position : ℤ) (startRange endRange : ℕ) :
    CallsOk (Preparing.new t first last position startRange endRange).1
      (Preparing.new t first last position startRange endRange).2.2 := by
  have hle := (Preparing.new_counted t first last position startRange endRange).progress_le
  rw [Preparing.new_calls]
  obtain ⟨q, hq⟩ : ∃ q, (Preparing.new t first last position startRange endRange).1 = q := ⟨_, rfl⟩
  rw [hq] at hle ⊢
  cases hs : q.success with
  | false => exact ⟨by simp [hs], by simpa [hs] using hle, by simp [progressOf], by simp [progressOf]⟩
  | true => exact ⟨by simp [hs], by simpa [hs] using hle, by simp [progressOf], by simp [progressOf]⟩

/-- **An event** before the success adds what it reports. -/
theorem CallsOk.onPieceFinished (h : CallsOk p calls) (hcounted : p.Counted)
    (hs : p.success = false) (first last piece : ℤ) :
    CallsOk (p.onPieceFinished first last piece).1
      (calls ++ (p.onPieceFinished first last piece).2) := by
  have hle := (hcounted.onPieceFinished first last piece).1.progress_le
  have hcount := h.success
  rw [hs, if_neg Bool.false_ne_true] at hcount
  obtain ⟨p', reported, heq, hcases⟩ := p.onPieceFinished_cases first last piece
  rw [heq] at hle ⊢
  dsimp only at hle ⊢
  rcases hcases with ⟨rfl, rfl, -⟩ | ⟨rfl, -, hprogress, -, -⟩
  · rw [hs, if_neg Bool.false_ne_true, List.append_nil]
    exact h
  · -- one report is added, and with the last piece the call of success
    have hof : progressOf (calls ++ if p'.success then
        [.onProgress p'.progress p'.total] ++ [.onPrepareSuccess] else
        [.onProgress p'.progress p'.total]) = progressOf calls ++ [p'.progress] := by
      cases p'.success <;> simp [progressOf, List.filterMap_append]
    refine ⟨?_, fun current total hmem => ?_, fun current hmem => ?_, ?_⟩
    · rw [List.count_append, hcount]
      cases p'.success with
      | false => rfl
      | true => rfl
    · rcases List.mem_append.mp hmem with hmem | hmem
      · exact h.total current total hmem
      · have hnew : ListenerCall.onProgress current total = .onProgress p'.progress p'.total := by
          cases hsuccess : p'.success <;> simpa [hsuccess] using hmem
        cases hnew
        exact hle
    · rw [hof] at hmem
      rcases List.mem_append.mp hmem with hmem | hmem
      · have := h.progress current hmem
        omega
      · exact (List.mem_singleton.mp hmem).le
    · rw [hof, List.pairwise_append]
      refine ⟨h.sorted, List.pairwise_singleton _ _, fun a ha b hb => ?_⟩
      have := h.progress a ha
      rw [List.mem_singleton.mp hb]
      omega

/-- The last call is `onFinished`. -/
theorem CallsOk.finish (h : CallsOk p calls) : CallsOk p (calls ++ [.onFinished]) := by
  have hof : progressOf (calls ++ [.onFinished]) = progressOf calls := by
    simp [progressOf, List.filterMap_append]
  refine ⟨?_, fun current total hmem => ?_, by rw [hof]; exact h.progress, by rw [hof]; exact h.sorted⟩
  · rw [List.count_append, h.success]
    rfl
  · exact h.total current total (by simpa using hmem)

end Calls

namespace PieceRun

/-- The window at the begin is had or heard of, and so is the one at the end, outside the other. -/
def WindowsHeard (r : PieceRun) : Prop :=
  (∀ i, InBegin r.task.firstPiece r.task.pieceWindow i → i ∈ r.atStart ∨ i ∈ r.heard) ∧
    ∀ i, InEnd r.task.lastPiece r.task.pieceWindow i → i ∈ r.atStart ∨
      i ∈ r.heard ∧ ¬ InBegin r.task.firstPiece r.task.pieceWindow i

/-- All pieces of the file were had when the task was constructed. -/
def CompleteAtStart (r : PieceRun) : Prop :=
  ∀ i, r.task.firstPiece ≤ i → i ≤ r.task.lastPiece → i ∈ r.atStart

/-- **When the success is reported**: the file is complete at the start; or every piece of the window
    at the begin is had at the start or heard of before the file is complete, and every piece of the
    window at the end too, where hearing of a piece of the window at the begin does not count. -/
def Prepares (r : PieceRun) : Prop :=
  r.CompleteAtStart ∨ r.WindowsHeard

structure PrepOk (r : PieceRun) : Prop where
  none : r.task.preparing = none → r.task.finished = true ∧ r.CompleteAtStart ∧
    r.task.calls = [.onProgress 1 1, .onPrepareSuccess, .onFinished]
  some : ∀ p, r.task.preparing = some p → ¬ r.CompleteAtStart ∧
    Windows r.task.firstPiece r.task.lastPiece r.task.pieceWindow r.atStart r.heard p ∧
    CallsOk p r.task.calls
  last : r.task.finished = true → ∃ calls, r.task.calls = calls ++ [.onFinished]

section Runs

variable {piece_priorities : List ℕ → List ℕ} {r : PieceRun}

/-- The task begins finished, or with its windows. -/
theorem prepOk_start (t : Torrent) (index : ℕ) : (start piece_priorities t index).PrepOk := by
  obtain ⟨selected, ps, hhad, hrun⟩ := exists_start piece_priorities t index
  rw [hrun]
  rcases WatchTask.start_cases selected t.getFilePriorities t.paused ps with
    ⟨hall, hstart⟩ | ⟨i, hlo, hhi, hmissing, hbefore, deadlines, hstart⟩
  · rw [hstart]
    refine ⟨fun _ => ⟨rfl, fun j hj hjl => ?_, rfl⟩, fun p hp => (by cases hp),
      fun _ => ⟨[.onProgress 1 1, .onPrepareSuccess], rfl⟩⟩
    exact hhad ▸ havePiece_eq_true.mp (hall j hj hjl)
  · rw [hstart]
    refine ⟨fun hnone => (by cases hnone), fun p hp => ?_, fun hnot => (by cases hnot)⟩
    obtain rfl := Option.some.inj hp
    refine ⟨fun hcomplete => ?_, ?_, new_callsOk _ _ _ _ _ _⟩
    · have := havePiece_eq_true.mpr (hhad.symm ▸ hcomplete i hlo hhi : i ∈ selected.had)
      rw [hmissing] at this
      cases this
    · rw [← hhad]
      exact new_windows _ _ _ _ _

/-- **An event**, behind its windows: the position is updated, and the task may finish. -/
theorem PrepOk.pieceFinished (hok : r.Ok) (h : r.PrepOk) (piece : ℤ) :
    (r.next (.pieceFinished piece)).PrepOk := by
  cases hfinished : r.task.finished with
  | true =>
    rw [next_pieceFinished_of_finished hfinished, if_pos (hok.finished.mp hfinished)]
    exact ⟨h.none, h.some, h.last⟩
  | false =>
    have hincomplete : ¬ r.Complete := fun hcomplete => by
      rw [hok.finished.mpr hcomplete] at hfinished
      cases hfinished
    obtain ⟨p, hp⟩ : ∃ p, r.task.preparing = Option.some p := by
      cases hp : r.task.preparing with
      | none =>
        rw [(h.none hp).1] at hfinished
        cases hfinished
      | some p => exact ⟨p, rfl⟩
    obtain ⟨hstart, hwindows, hcalls⟩ := h.some p hp
    -- what the event does to the windows, and what the listener hears of it
    obtain ⟨p', hp', hwindows', hcalls'⟩ : ∃ p', (r.task.prepare piece).preparing = Option.some p' ∧
        Windows r.task.firstPiece r.task.lastPiece r.task.pieceWindow r.atStart
          (piece :: r.heard) p' ∧ CallsOk p' (r.task.prepare piece).calls := by
      unfold WatchTask.prepare
      rw [hp]
      cases hs : p.success with
      | true =>
          exact ⟨p, by simp [hs, hp], hwindows.hear_of_success hs piece, by simpa [hs] using hcalls⟩
      | false => exact ⟨_, by simp [hs], hwindows.hear piece,
          by simpa [hs] using hcalls.onPieceFinished hwindows.counted hs _ _ _⟩
    have hwindow : (r.task.prepare piece).pieceWindow = r.task.pieceWindow := by
      rw [WatchTask.prepare_eq]
    simp only [PieceRun.next, if_neg hincomplete]
    rcases WatchTask.onPieceFinished_cases (t := r.torrent) hfinished piece with
      ⟨i, -, -, -, -, htask⟩ | ⟨-, htask⟩
    · rw [htask]
      refine ⟨fun hnone => ?_, fun q hq => ?_, fun hnot => ?_⟩
      · rw [show (r.task.prepare piece).preparing = _ from hnone] at hp'
        cases hp'
      · obtain rfl : p' = q := Option.some.inj (hp'.symm.trans hq)
        refine ⟨?_, ?_, hcalls'⟩
        · simpa [CompleteAtStart] using hstart
        · simpa [hwindow] using hwindows'
      · simp [hfinished] at hnot
    · rw [htask]
      refine ⟨fun hnone => ?_, fun q hq => ?_, fun _ => ⟨_, rfl⟩⟩
      · rw [show (r.task.prepare piece).preparing = _ from hnone] at hp'
        cases hp'
      · obtain rfl : p' = q := Option.some.inj (hp'.symm.trans hq)
        refine ⟨?_, ?_, hcalls'.finish⟩
        · simpa [CompleteAtStart] using hstart
        · simpa [hwindow] using hwindows'

/-- **Every run** keeps the invariant. -/
theorem prepOk_of_reachable (h : (machine piece_priorities).Reachable r) : r.PrepOk := by
  refine h.invariant_reachable ?_ ?_
  · rintro r ⟨t, index, -, rfl⟩
    exact prepOk_start t index
  · intro r e r' hreach hprep hstep
    obtain rfl := Option.some.inj hstep
    cases e with
    | «have» piece => exact ⟨hprep.none, hprep.some, hprep.last⟩
    | pieceFinished piece => exact hprep.pieceFinished (ok_of_reachable hreach) piece

/-- **The listener hears of the success** once or never, and exactly when the pieces say so. -/
theorem PrepOk.count_iff (h : r.PrepOk) :
    r.task.calls.count .onPrepareSuccess ≤ 1 ∧
      (r.task.calls.count .onPrepareSuccess = 1 ↔ r.Prepares) := by
  cases hp : r.task.preparing with
  | none =>
    obtain ⟨-, hstart, hcalls⟩ := h.none hp
    rw [hcalls]
    exact ⟨le_rfl, iff_of_true rfl (.inl hstart)⟩
  | some p =>
    obtain ⟨hstart, hwindows, hcalls⟩ := h.some p hp
    rw [hcalls.success]
    refine ⟨by split_ifs <;> omega, ?_⟩
    have hsuccess : p.success = true ↔ r.WindowsHeard := hwindows.success_iff
    rw [Prepares, or_iff_right hstart, ← hsuccess]
    cases p.success with
    | false => exact iff_of_false (by simp) (by simp)
    | true => exact iff_of_true rfl rfl

/-- Nothing comes behind `onFinished`. -/
theorem PrepOk.finished_last (h : r.PrepOk) (hok : r.Ok) {before behind : List ListenerCall}
    (hcalls : r.task.calls = before ++ .onFinished :: behind) : behind = [] := by
  have hcount := hok.calls
  have hmem : 0 < r.task.calls.count .onFinished := by
    rw [List.count_pos_iff, hcalls]
    simp
  have hfinished : r.task.finished = true := by
    by_contra hnot
    rw [if_neg hnot] at hcount
    omega
  obtain ⟨calls, hlast⟩ := h.last hfinished
  rw [if_pos hfinished, hcalls, List.count_append, List.count_cons_self] at hcount
  rcases List.eq_nil_or_concat behind with hnil | ⟨front, call, hconcat⟩
  · exact hnil
  · -- the last call would be a second `onFinished`
    rw [List.concat_eq_append] at hconcat
    rw [hcalls, hconcat, ← List.cons_append, ← List.append_assoc] at hlast
    have hcall : [call] = [.onFinished] := List.append_inj_right' hlast rfl
    rw [hconcat, hcall, List.count_append, List.count_cons_self] at hcount
    omega

/-- What has been heard of is had, where events come behind their pieces. -/
def EventGuard (r : PieceRun) : PieceEvent → Prop
  | .pieceFinished piece => r.torrent.havePiece piece = true
  | .have _ => True

instance (r : PieceRun) : (e : PieceEvent) → Decidable (r.EventGuard e)
  | .pieceFinished _ => inferInstanceAs (Decidable (_ = true))
  | .have _ => inferInstanceAs (Decidable True)

/-- **In every such run** what has been heard of is had. -/
theorem heard_of_runUnder (h : (machine piece_priorities).RunUnder (fun _ => True) EventGuard r) :
    ∀ i ∈ r.heard, i ∈ r.torrent.had := by
  refine h.invariant (I := fun r => ∀ i ∈ r.heard, i ∈ r.torrent.had) ?_ ?_
  · rintro r ⟨t, index, -, rfl⟩ - i hi
    exact absurd hi List.not_mem_nil
  · intro r e r' hheard hguard hstep
    obtain rfl := Option.some.inj hstep
    cases e with
    | «have» piece => exact fun i hi => List.mem_cons_of_mem _ (hheard i hi)
    | pieceFinished piece =>
      intro i hi
      show i ∈ (r.task.onPieceFinished r.torrent piece).2.had
      rw [WatchTask.onPieceFinished_had]
      simp only [PieceRun.next] at hi
      split_ifs at hi
      · exact hheard i hi
      · rcases List.mem_cons.mp hi with rfl | hi
        · exact havePiece_eq_true.mp hguard
        · exact hheard i hi

/-- **Preparing.**  In every run whose events come behind their pieces the listener hears of the
    success at most once, and then it has heard of nothing finished before and the pieces of the two
    windows that lie in the file are had; the progress it hears of stays within its total and never
    decreases.  It does hear of the success exactly when `Prepares` holds. -/
theorem prepared_iff (piece_priorities : List ℕ → List ℕ) (r : PieceRun)
    (h : (machine piece_priorities).RunUnder (fun _ => True) EventGuard r) :
    (r.task.calls.count .onPrepareSuccess = 1 ↔ r.Prepares) ∧
    r.task.calls.count .onPrepareSuccess ≤ 1 ∧
    (∀ before behind, r.task.calls = before ++ .onFinished :: behind → behind = []) ∧
    (.onPrepareSuccess ∈ r.task.calls → ∀ i, r.task.firstPiece ≤ i → i ≤ r.task.lastPiece →
      InBegin r.task.firstPiece r.task.pieceWindow i ∨ InEnd r.task.lastPiece r.task.pieceWindow i →
      r.torrent.havePiece i = true) ∧
    (∀ current total, .onProgress current total ∈ r.task.calls → current ≤ total) ∧
    (progressOf r.task.calls).Pairwise (· ≤ ·) := by
  have hok := ok_of_reachable h.reachable
  have hprep := prepOk_of_reachable h.reachable
  have hatStart : ∀ i ∈ r.atStart, i ∈ r.torrent.had := fun i hi => hok.atUpdate i (hok.atStart i hi)
  -- by the guard a piece that is heard of is there
  have hheard := heard_of_runUnder h
  refine ⟨hprep.count_iff.2, hprep.count_iff.1, ?_, fun hmem i hlo hhi hin => ?_, ?_⟩
  · exact fun before behind => hprep.finished_last hok
  · have hone : r.task.calls.count .onPrepareSuccess = 1 :=
      le_antisymm hprep.count_iff.1 (List.count_pos_iff.mpr hmem)
    apply havePiece_eq_true.mpr
    rcases hprep.count_iff.2.mp hone with hstart | ⟨hbegin, hend⟩
    · exact hatStart i (hstart i hlo hhi)
    · rcases hin with hin | hin
      · exact (hbegin i hin).elim (hatStart i) (hheard i)
      · exact (hend i hin).elim (hatStart i) (fun hi => hheard i hi.1)
  · cases hp : r.task.preparing with
    | none =>
      rw [(hprep.none hp).2.2]
      exact ⟨by simp, by simp [progressOf]⟩
    | some p =>
      have hcalls := (hprep.some p hp).2.2
      exact ⟨hcalls.total, hcalls.sorted⟩

/-- A file of four pieces, as long as its two windows. -/
theorem prepared_four_pieces : ∃ r : PieceRun, r.Prepares ∧ r.task.calls =
    [.onProgress 0 4, .onProgress 1 4, .onProgress 2 4, .onProgress 3 4, .onProgress 4 4,
      .onPrepareSuccess, .onFinished] := by
  have hrun : (Machine.runEvents (Machine.guarded EventGuard fun r e => some (next r e))
      (start (fun _ => [1, 1, 1, 1]) ⟨true, false, false, [1], 16777216, [], []⟩ 0)
      [.have 0, .pieceFinished 0, .have 3, .pieceFinished 3, .have 2, .pieceFinished 2,
        .have 1, .pieceFinished 1]).map (fun r => r.task.calls) =
      some [.onProgress 0 4, .onProgress 1 4, .onProgress 2 4, .onProgress 3 4, .onProgress 4 4,
        .onPrepareSuccess, .onFinished] := by
    decide
  obtain ⟨r, hreach, hcalls⟩ := Machine.RunUnder.exists_of_runEvents
    (show (machine (fun _ => [1, 1, 1, 1])).RunUnder (fun _ => True) EventGuard _ from
      .start ⟨_, 0, rfl, rfl⟩ trivial) hrun
  have hcount : r.task.calls.count .onPrepareSuccess = 1 := by
    rw [hcalls]
    decide
  exact ⟨r, (prepared_iff _ r hreach).1.mp hcount, hcalls⟩

/-- A file of three pieces is shorter than its two windows: all its pieces are had and heard of, and
    the listener hears that it is finished, but never that it is prepared.  The same comes of a file
    of five pieces whose last two are had before the task hears of the first of them. -/
theorem never_prepared :
    (∃ r, (machine (fun _ => [0, 1, 1, 1])).RunUnder (fun _ => True) EventGuard r ∧
      r.heard = [3, 2, 1] ∧ r.task.finished = true ∧ r.task.calls =
        [.onProgress 0 4, .onProgress 1 4, .onProgress 2 4, .onProgress 3 4, .onFinished]) ∧
    ∃ r, (machine (fun _ => [1, 1, 1, 1, 1])).RunUnder (fun _ => True) EventGuard r ∧
      r.torrent.had = [4, 0, 3, 2, 1] ∧ r.task.finished = true ∧ r.task.calls =
        [.onProgress 0 4, .onProgress 1 4, .onProgress 2 4, .onProgress 3 4, .onFinished] := by
  constructor
  · have hrun : (Machine.runEvents (Machine.guarded EventGuard fun r e => some (next r e))
        -- a file of three pieces: the middle one counts for the first range only
        (start (fun _ => [0, 1, 1, 1]) ⟨true, false, false, [1, 1], 16777216, [0], []⟩ 1)
        [.have 1, .pieceFinished 1, .have 2, .pieceFinished 2, .have 3, .pieceFinished 3]).map
          (fun r => (r.heard, r.task.finished, r.task.calls)) = some ([3, 2, 1], true,
            [.onProgress 0 4, .onProgress 1 4, .onProgress 2 4, .onProgress 3 4, .onFinished]) := by
      decide
    obtain ⟨r, hreach, heq⟩ := Machine.RunUnder.exists_of_runEvents
      (show (machine (fun _ => [0, 1, 1, 1])).RunUnder (fun _ => True) EventGuard _ from
        .start ⟨_, 1, rfl, rfl⟩ trivial) hrun
    simp only [Prod.mk.injEq] at heq
    exact ⟨r, hreach, heq⟩
  · have hrun : (Machine.runEvents (Machine.guarded EventGuard fun r e => some (next r e))
        -- both ends are there before either is reported: the task finishes at the first report
        (start (fun _ => [1, 1, 1, 1, 1]) ⟨true, false, false, [1], 16777216, [], []⟩ 0)
        [.have 1, .pieceFinished 1, .have 2, .pieceFinished 2, .have 3, .pieceFinished 3,
          .have 0, .have 4, .pieceFinished 0, .pieceFinished 4]).map
          (fun r => (r.torrent.had, r.task.finished, r.task.calls)) = some ([4, 0, 3, 2, 1], true,
            [.onProgress 0 4, .onProgress 1 4, .onProgress 2 4, .onProgress 3 4, .onFinished]) := by
      decide
    obtain ⟨r, hreach, heq⟩ := Machine.RunUnder.exists_of_runEvents
      (show (machine (fun _ => [1, 1, 1, 1, 1])).RunUnder (fun _ => True) EventGuard _ from
        .start ⟨_, 0, rfl, rfl⟩ trivial) hrun
    simp only [Prod.mk.injEq] at heq
    exact ⟨r, hreach, heq⟩

end Runs

end PieceRun

end PopcornTime.TorrentLib
