import Mathlib.Data.List.Basic
import Mathlib.Tactic.SplitIfs

namespace PopcornTime

/-!
# Lines of a stream that arrives in reads

A reader takes a line at a time from what has arrived and not been read yet, and takes what has
arrived of a line for the whole of it.  It may leave its loop behind a line, with more unread.

* `readLine`, `lines` — one line, and all of them; only the last may be without its end.
* `LineReader.read` — a read: the bytes that arrive and the loop over the lines.
* `LineReader.Right` — every line is answered as a whole, and none is left over.
* `LineReader.right_read_iff` — when a read keeps that.
* `LineReader.Right.answers_eq` — then the answers are those of the lines, in order.
-/

namespace LineReads

/-! ### Lines -/

section Lines

variable {α : Type*} (sep : α)

/-- A line with its end. -/
def IsLine (l : List α) : Prop :=
  ∃ text, sep ∉ text ∧ l = text ++ [sep]

/-- Nothing is there behind the last line end. -/
def AtLineEnd (l : List α) : Prop :=
  l = [] ∨ l.getLast? = some sep

/-- A line ends with its line end. -/
theorem IsLine.getLast? {sep : α} {l : List α} (h : IsLine sep l) : l.getLast? = some sep := by
  obtain ⟨text, -, rfl⟩ := h
  exact List.getLast?_concat

variable [DecidableEq α]

/-- What comes up to and with the first line end, or all there is, and what is behind it. -/
def readLine : List α → List α × List α
  | [] => ([], [])
  | x :: xs =>
    if x = sep then ([x], xs)
    else (x :: (readLine xs).1, (readLine xs).2)

/-- The lines, each with its end; the last may be without. -/
def lines : List α → List (List α)
  | [] => []
  | x :: xs =>
    if x = sep then [x] :: lines xs
    else
      match lines xs with
      | [] => [[x]]
      | l :: ls => (x :: l) :: ls

variable {sep}

@[simp] theorem lines_nil : lines sep ([] : List α) = [] := rfl

/-- Nothing is lost of what is read. -/
theorem readLine_append (sep : α) (l : List α) : (readLine sep l).1 ++ (readLine sep l).2 = l := by
  induction l with
  | nil => rfl
  | cons x xs ih =>
    rw [readLine]
    split_ifs
    · rfl
    · exact congrArg (x :: ·) ih

/-- What is read is a line, or it is all there is. -/
theorem readLine_cases (sep : α) (l : List α) :
    IsLine sep (readLine sep l).1 ∨ (sep ∉ l ∧ readLine sep l = (l, [])) := by
  induction l with
  | nil => exact Or.inr ⟨by simp, rfl⟩
  | cons x xs ih =>
    rw [readLine]
    by_cases hx : x = sep
    · rw [if_pos hx]
      exact Or.inl ⟨[], by simp, by rw [hx]; rfl⟩
    · rw [if_neg hx]
      rcases ih with ⟨text, htext, heq⟩ | ⟨hsep, heq⟩
      · exact Or.inl ⟨x :: text, by simp [htext, Ne.symm hx], by rw [heq]; rfl⟩
      · exact Or.inr ⟨by simp [hsep, Ne.symm hx], by rw [heq]⟩

/-- Behind a line without its end there is nothing. -/
theorem readLine_snd_eq_nil {l : List α} (h : (readLine sep l).1.getLast? ≠ some sep) :
    sep ∉ l ∧ readLine sep l = (l, []) :=
  (readLine_cases sep l).resolve_left (fun hline => h hline.getLast?)

/-- The first line is the one that is read. -/
theorem lines_eq_cons {l : List α} (h : l ≠ []) :
    lines sep l = (readLine sep l).1 :: lines sep (readLine sep l).2 := by
  induction l with
  | nil => exact absurd rfl h
  | cons x xs ih =>
    rw [readLine, lines]
    by_cases hx : x = sep
    · rw [if_pos hx, if_pos hx]
    · rw [if_neg hx, if_neg hx]
      by_cases hxs : xs = []
      · subst hxs
        rfl
      · rw [ih hxs]

/-- The first line of a stream that begins with one. -/
theorem lines_append_of_isLine {l : List α} (h : IsLine sep l) (rest : List α) :
    lines sep (l ++ rest) = l :: lines sep rest := by
  obtain ⟨text, htext, rfl⟩ := h
  induction text with
  | nil => simp [lines]
  | cons x text ih =>
    rw [List.mem_cons, not_or] at htext
    rw [List.cons_append, List.cons_append, lines, if_neg (Ne.symm htext.1), ih htext.2]

/-- Lines ahead of a stream are its first lines. -/
theorem lines_flatten_append {ls : List (List α)} (h : ∀ l ∈ ls, IsLine sep l) (rest : List α) :
    lines sep (ls.flatten ++ rest) = ls ++ lines sep rest := by
  induction ls with
  | nil => rfl
  | cons l ls ih =>
    rw [List.flatten_cons, List.append_assoc,
      lines_append_of_isLine (h l (List.mem_cons_self ..)),
      ih (fun l' hl' => h l' (List.mem_cons_of_mem l hl')), List.cons_append]

/-- A line that is read leaves less. -/
theorem length_readLine_snd (sep : α) {l : List α} (h : l ≠ []) :
    (readLine sep l).2.length < l.length := by
  cases l with
  | nil => exact absurd rfl h
  | cons x xs =>
    have hlen := congrArg List.length (readLine_append sep (x :: xs))
    have hpos : 0 < (readLine sep (x :: xs)).1.length := by
      rw [readLine]
      split_ifs <;> simp
    rw [List.length_append] at hlen
    omega

end Lines

end LineReads

open LineReads

/-! ### The reader -/

/-- What lines are answered with, and behind which ones the reader goes on. -/
structure LineReader (α β : Type*) where
  sep : α
  answer : List α → Option β
  goesOn : List α → Bool

namespace LineReader

/-- What has arrived and not been read, what has been taken of the line the reader stands in and
    answered to it, and the lines taken with the answers to each. -/
structure State (α β : Type*) where
  unread : List α
  torn : List α
  given : List β
  log : List (List α × List β)

variable {α β : Type*}

def start : State α β := ⟨[], [], [], []⟩

/-- All that has arrived. -/
def received (s : State α β) : List α :=
  (s.log.map Prod.fst).flatten ++ s.torn ++ s.unread

/-- All answers. -/
def answers (s : State α β) : List β :=
  (s.log.map Prod.snd).flatten ++ s.given

/-- Between two lines: what is torn has no line end, and the lines taken have theirs. -/
structure Inv (R : LineReader α β) (s : State α β) : Prop where
  torn : R.sep ∉ s.torn
  given : s.torn = [] → s.given = []
  lines : ∀ e ∈ s.log, IsLine R.sep e.1

/-- At the start nothing is torn. -/
theorem inv_start (R : LineReader α β) : Inv R start :=
  ⟨by simp [start], fun _ => rfl, by simp [start]⟩

/-- The lines of the log are answered as whole ones. -/
def LogRight (R : LineReader α β) (log : List (List α × List β)) : Prop :=
  ∀ e ∈ log, e.2 = (R.answer e.1).toList

variable [DecidableEq α] (R : LineReader α β)

/-- One line is taken and answered. -/
def take (s : State α β) (line : List α) : State α β :=
  if line.getLast? = some R.sep then
    { s with
      torn := []
      given := []
      log := s.log ++ [(s.torn ++ line, s.given ++ (R.answer line).toList)] }
  else { s with torn := s.torn ++ line, given := s.given ++ (R.answer line).toList }

/-- The loop over the lines, as long as there is `fuel`. -/
def loop : ℕ → State α β → State α β
  | 0, s => s
  | fuel + 1, s =>
    if s.unread = [] then s
    else
      let (line, rest) := readLine R.sep s.unread
      let s := R.take { s with unread := rest } line
      if R.goesOn line then loop fuel s else s

/-- Bytes arrive, and the loop runs. -/
def read (s : State α β) (chunk : List α) : State α β :=
  R.loop (s.unread ++ chunk).length { s with unread := s.unread ++ chunk }

variable {R} {s : State α β}

@[simp] theorem unread_take (line : List α) : (R.take s line).unread = s.unread := by
  unfold take
  split_ifs <;> rfl

/-- A line that is taken has been received. -/
theorem received_take (line : List α) :
    received { R.take s line with unread := [] } =
      received { s with unread := [] } ++ line := by
  unfold take received
  split_ifs <;> simp

@[simp] theorem answers_take (line : List α) :
    answers (R.take s line) = answers s ++ (R.answer line).toList := by
  unfold take answers
  split_ifs <;> simp

/-- The loop changes nothing in what has arrived. -/
theorem received_loop (fuel : ℕ) (s : State α β) : received (R.loop fuel s) = received s := by
  induction fuel generalizing s with
  | zero => rfl
  | succ fuel ih =>
    rw [loop]
    by_cases hunread : s.unread = []
    · rw [if_pos hunread]
    · rw [if_neg hunread]
      have hstep : received (R.take { s with unread := (readLine R.sep s.unread).2 }
          (readLine R.sep s.unread).1) = received s := by
        have htake := received_take (R := R) (s := { s with unread := (readLine R.sep s.unread).2 })
          (readLine R.sep s.unread).1
        unfold received at htake ⊢
        rw [unread_take]
        simp only [List.append_nil] at htake
        rw [htake, List.append_assoc, readLine_append]
      dsimp only
      split_ifs
      · rw [ih, hstep]
      · exact hstep

/-! ### What a line leaves -/

/-- What the loop has behind its first line. -/
inductive TakeStep (R : LineReader α β) (s : State α β) : State α β → Prop
  | whole : (readLine R.sep s.unread).1.getLast? = some R.sep →
    IsLine R.sep (s.torn ++ (readLine R.sep s.unread).1) →
    TakeStep R s
      { unread := (readLine R.sep s.unread).2
        torn := []
        given := []
        log := s.log ++ [(s.torn ++ (readLine R.sep s.unread).1,
          s.given ++ (R.answer (readLine R.sep s.unread).1).toList)] }
  | torn : (readLine R.sep s.unread).1.getLast? ≠ some R.sep →
    TakeStep R s
      { s with
        unread := []
        torn := s.torn ++ s.unread
        given := s.given ++ (R.answer s.unread).toList }

/-- A line that is taken ends the torn one, or is torn itself. -/
theorem Inv.takeStep (h : Inv R s) :
    TakeStep R s (R.take { s with unread := (readLine R.sep s.unread).2 }
      (readLine R.sep s.unread).1) := by
  by_cases hend : (readLine R.sep s.unread).1.getLast? = some R.sep
  · have hline : IsLine R.sep (s.torn ++ (readLine R.sep s.unread).1) := by
      rcases readLine_cases R.sep s.unread with ⟨text, htext, heq⟩ | ⟨hsep, heq⟩
      · exact ⟨s.torn ++ text, by simp [h.torn, htext], by rw [heq, List.append_assoc]⟩
      · -- without a line end the last item is none
        rw [heq] at hend
        exact absurd (List.mem_of_getLast? hend) hsep
    rw [take, if_pos hend]
    exact .whole hend hline
  · have heq := (readLine_snd_eq_nil hend).2
    rw [take, if_neg hend, heq]
    exact .torn hend

/-- Either keeps the invariant. -/
theorem TakeStep.inv {s' : State α β} (h : Inv R s) (hne : s.unread ≠ [])
    (hstep : TakeStep R s s') : Inv R s' ∧ (s'.torn ≠ [] → s'.unread = []) := by
  cases hstep with
  | whole _ hline =>
    refine ⟨⟨by simp, fun _ => rfl, ?_⟩, fun hno => absurd rfl hno⟩
    intro e he
    rw [List.mem_append, List.mem_singleton] at he
    rcases he with he | rfl
    · exact h.lines e he
    · exact hline
  | torn hend =>
    have hsep := (readLine_snd_eq_nil hend).1
    refine ⟨⟨by simp [h.torn, hsep], fun hno => ?_, h.lines⟩, fun _ => rfl⟩
    exact absurd (List.append_eq_nil_iff.mp hno).2 hne

/-! ### What a loop leaves -/

/-- One turn of the loop. -/
theorem loop_succ (fuel : ℕ) (hne : s.unread ≠ []) :
    R.loop (fuel + 1) s =
      if R.goesOn (readLine R.sep s.unread).1 then
        R.loop fuel (R.take { s with unread := (readLine R.sep s.unread).2 }
          (readLine R.sep s.unread).1)
      else R.take { s with unread := (readLine R.sep s.unread).2 }
        (readLine R.sep s.unread).1 := by
  rw [loop, if_neg hne]

/-- The loop ends where nothing is unread. -/
theorem loop_nil (fuel : ℕ) (h : s.unread = []) : R.loop fuel s = s := by
  cases fuel with
  | zero => rfl
  | succ fuel => rw [loop, if_pos h]

/-- The loop keeps the invariant, and where it leaves a line torn nothing is unread. -/
theorem Inv.loop (h : Inv R s) {fuel : ℕ} (hfuel : s.unread.length ≤ fuel) :
    Inv R (R.loop fuel s) ∧ ((R.loop fuel s).torn ≠ [] → (R.loop fuel s).unread = []) := by
  induction fuel generalizing s with
  | zero => exact ⟨h, fun _ => List.length_eq_zero_iff.mp (Nat.le_zero.mp hfuel)⟩
  | succ fuel ih =>
    by_cases hne : s.unread = []
    · rw [loop_nil _ hne]
      exact ⟨h, fun _ => hne⟩
    · rw [loop_succ fuel hne]
      obtain ⟨hinv, htorn⟩ := h.takeStep.inv h hne
      have hlen := length_readLine_snd R.sep hne
      split_ifs
      · exact ih hinv (by rw [unread_take]; dsimp only; omega)
      · exact ⟨hinv, htorn⟩

/-- Behind the first line that ends the loop everything is left unread. -/
theorem lines_unread_loop {fuel : ℕ} (hfuel : s.unread.length ≤ fuel) :
    lines R.sep (R.loop fuel s).unread =
      ((lines R.sep s.unread).dropWhile R.goesOn).tail := by
  induction fuel generalizing s with
  | zero =>
    have hnil : s.unread = [] := List.length_eq_zero_iff.mp (Nat.le_zero.mp hfuel)
    rw [loop_nil _ hnil, hnil]
    rfl
  | succ fuel ih =>
    by_cases hne : s.unread = []
    · rw [loop_nil _ hne, hne]
      rfl
    · have hlen := length_readLine_snd R.sep hne
      rw [loop_succ fuel hne, lines_eq_cons hne, List.dropWhile_cons]
      split_ifs
      · rw [ih (by rw [unread_take]; dsimp only; omega), unread_take]
      · rw [unread_take, List.tail_cons]

omit [DecidableEq α] in
/-- A log is right part by part. -/
theorem logRight_append (R : LineReader α β) (log log' : List (List α × List β)) :
    LogRight R (log ++ log') ↔ LogRight R log ∧ LogRight R log' := by
  unfold LogRight
  simp only [List.mem_append, or_imp, forall_and]

/-- A turn of the loop takes a line and keeps the invariant. -/
theorem Inv.exists_takeStep (h : Inv R s) (hne : s.unread ≠ []) :
    ∃ s', TakeStep R s s' ∧ Inv R s' ∧ ∀ fuel, R.loop (fuel + 1) s =
      if R.goesOn (readLine R.sep s.unread).1 then R.loop fuel s' else s' :=
  ⟨_, h.takeStep, (h.takeStep.inv h hne).1, fun fuel => loop_succ fuel hne⟩

/-- Where no line is torn, the loop answers the lines it takes as whole ones. -/
theorem Inv.log_loop (h : Inv R s) (ht : s.torn = []) (fuel : ℕ) :
    LogRight R (R.loop fuel s).log ↔ LogRight R s.log := by
  induction fuel generalizing s with
  | zero => exact Iff.rfl
  | succ fuel ih =>
    by_cases hne : s.unread = []
    · rw [loop_nil _ hne]
    obtain ⟨s', hstep, hinv, hloop⟩ := h.exists_takeStep hne
    rw [hloop]
    cases hstep with
    | whole =>
      -- the line is whole, so it gets its answer
      have hentry : LogRight R [(s.torn ++ (readLine R.sep s.unread).1,
          s.given ++ (R.answer (readLine R.sep s.unread).1).toList)] := by
        intro e he
        rw [List.mem_singleton.mp he, ht, h.given ht]
        rfl
      have htake := (logRight_append R s.log _).trans (and_iff_left hentry)
      split_ifs
      · exact (ih hinv rfl).trans htake
      · exact htake
    | torn =>
      -- behind a line without its end the loop finds nothing
      split_ifs
      · rw [loop_nil fuel (by rfl)]
      · exact Iff.rfl

/-- The first line of a loop goes on with what is torn. -/
theorem Inv.logRight_loop (h : Inv R s) (hne : s.unread ≠ []) (fuel : ℕ) :
    LogRight R (R.loop (fuel + 1) s).log ↔ LogRight R s.log ∧
      ((readLine R.sep s.unread).1.getLast? = some R.sep →
        s.given ++ (R.answer (readLine R.sep s.unread).1).toList =
          (R.answer (s.torn ++ (readLine R.sep s.unread).1)).toList) := by
  obtain ⟨s', hstep, hinv, hloop⟩ := h.exists_takeStep hne
  rw [hloop]
  cases hstep with
  | whole hend _ =>
    have htake := logRight_append R s.log [(s.torn ++ (readLine R.sep s.unread).1,
      s.given ++ (R.answer (readLine R.sep s.unread).1).toList)]
    -- the whole line goes into the log with what was answered to it
    have hentry : LogRight R [(s.torn ++ (readLine R.sep s.unread).1,
        s.given ++ (R.answer (readLine R.sep s.unread).1).toList)] ↔
        ((readLine R.sep s.unread).1.getLast? = some R.sep →
          s.given ++ (R.answer (readLine R.sep s.unread).1).toList =
            (R.answer (s.torn ++ (readLine R.sep s.unread).1)).toList) := by
      simp [LogRight, hend]
    rw [hentry] at htake
    split_ifs
    · exact (hinv.log_loop rfl fuel).trans htake
    · exact htake
  | torn hend =>
    split_ifs
    · rw [loop_nil fuel (by rfl)]
      exact (and_iff_left (fun he => absurd he hend)).symm
    · exact (and_iff_left (fun he => absurd he hend)).symm

/-! ### When a read keeps everything right -/

/-- Every line that has arrived is answered, and as a whole: those taken are, and if the stream
    stands behind a line end, those left unread need no answer. -/
def Right (R : LineReader α β) (s : State α β) : Prop :=
  LogRight R s.log ∧
    (AtLineEnd R.sep (received s) → ∀ l ∈ lines R.sep s.unread, R.answer l = none)

/-- The condition of a read.  If it ends a torn line, what that line is answered with in its parts
    is the answer of the whole; and if it ends a line at all, no line that needs an answer stands
    behind the first one that ends the loop. -/
def Guard (R : LineReader α β) (s : State α β) (chunk : List α) : Prop :=
  ((readLine R.sep (s.unread ++ chunk)).1.getLast? = some R.sep →
    s.given ++ (R.answer (readLine R.sep (s.unread ++ chunk)).1).toList =
      (R.answer (s.torn ++ (readLine R.sep (s.unread ++ chunk)).1)).toList) ∧
  (chunk.getLast? = some R.sep →
    ∀ l ∈ ((lines R.sep (s.unread ++ chunk)).dropWhile R.goesOn).tail, R.answer l = none)

/-- A read adds its bytes to what has arrived. -/
theorem received_read (s : State α β) (chunk : List α) :
    received (R.read s chunk) = received s ++ chunk := by
  rw [read, received_loop]
  simp [received]

/-- **A read** keeps the invariant, and where it leaves a line torn nothing is unread. -/
theorem Inv.read (h : Inv R s) (chunk : List α) :
    Inv R (R.read s chunk) ∧ ((R.read s chunk).torn ≠ [] → (R.read s chunk).unread = []) :=
  Inv.loop (s := { s with unread := s.unread ++ chunk }) ⟨h.torn, h.given, h.lines⟩ (Nat.le_refl _)

/-- **A read** keeps everything right exactly when its guard is met. -/
theorem right_read_iff (h : Inv R s) (hright : R.Right s) {chunk : List α} (hne : chunk ≠ []) :
    R.Right (R.read s chunk) ↔ R.Guard s chunk := by
  have hunread : s.unread ++ chunk ≠ [] := by simp [hne]
  obtain ⟨fuel, hfuel⟩ : ∃ fuel, (s.unread ++ chunk).length = fuel + 1 :=
    Nat.exists_eq_succ_of_ne_zero (by rw [Ne, List.length_eq_zero_iff]; exact hunread)
  have hlog := Inv.logRight_loop (s := { s with unread := s.unread ++ chunk })
    ⟨h.torn, h.given, h.lines⟩ hunread fuel
  have hrest := lines_unread_loop (R := R) (s := { s with unread := s.unread ++ chunk })
    (Nat.le_refl _)
  have hend : AtLineEnd R.sep (received s ++ chunk) ↔ chunk.getLast? = some R.sep := by
    unfold AtLineEnd
    rw [List.getLast?_append_of_ne_nil _ hne]
    simp [hne]
  unfold Right Guard
  rw [received_read, hend]
  unfold read
  rw [hrest]
  refine and_congr ?_ Iff.rfl
  rw [hfuel, hlog]
  exact and_iff_right hright.1

/-- **What right means for the stream**: where it stands behind a line end, the answers are those
    of its lines, in order. -/
theorem Right.answers_eq (hright : R.Right s) (h : Inv R s)
    (htorn : s.torn ≠ [] → s.unread = []) (hend : AtLineEnd R.sep (received s)) :
    answers s = (lines R.sep (received s)).filterMap R.answer := by
  -- nothing is torn where a line ends
  have hnil : s.torn = [] := by
    by_contra hne
    have hlast : (received s).getLast? = s.torn.getLast? := by
      unfold received
      rw [htorn hne, List.append_nil, List.getLast?_append_of_ne_nil _ hne]
    rcases hend with hend | hend
    · rw [received] at hend
      exact hne (List.append_eq_nil_iff.mp (List.append_eq_nil_iff.mp hend).1).2
    · rw [hlast] at hend
      exact h.torn (List.mem_of_getLast? hend)
  have hlines : lines R.sep (received s) = s.log.map Prod.fst ++ lines R.sep s.unread := by
    rw [received, hnil, List.append_nil]
    refine lines_flatten_append ?_ s.unread
    intro l hl
    obtain ⟨e, he, rfl⟩ := List.mem_map.mp hl
    exact h.lines e he
  have hunread : (lines R.sep s.unread).filterMap R.answer = [] :=
    List.filterMap_eq_nil_iff.mpr (hright.2 hend)
  rw [hlines, List.filterMap_append, hunread, List.append_nil, answers, h.given hnil,
    List.append_nil]
  have hlog := hright.1
  unfold LogRight at hlog
  generalize s.log = log at hlog
  induction log with
  | nil => rfl
  | cons e log ih =>
    have he := hlog e (List.mem_cons_self ..)
    rw [List.map_cons, List.map_cons, List.flatten_cons, List.filterMap_cons, he,
      ih (fun e' he' => hlog e' (List.mem_cons_of_mem e he'))]
    cases R.answer e.1 <;> rfl

end LineReader

end PopcornTime
