import Mathlib.Data.List.TakeWhile
import Mathlib.Tactic.SplitIfs

namespace PopcornTime

/-!
# Texts, lines and decimal numbers

A text is a list of characters.  `readLines` is what a line reader answers until it has reached the
end: a line ends at a line feed, a carriage return or both in turn, and what is left of the text is
a line unless it is empty.  `zeroPad` is the decimal number of a `%0nd` format.

* `readLines_append` — a text without carriage returns, with a line feed behind it, is read as its
  parts between line feeds.
* `takeWhile_splitOn_inter` — the parts of a text up to the first empty one give the text back
  exactly if none is empty.
* `splitOn_ne_nil_of_unbroken` — which texts have no empty part.
-/

/-- The characters end a line. -/
def isLineEnd (c : Char) : Bool :=
  decide (c = '\n') || decide (c = '\r')

/-- The lines of a text, behind what has been read of the current one. -/
def readLinesFrom (line : List Char) : List Char → List (List Char)
  | [] => if line = [] then [] else [line]
  | '\r' :: '\n' :: rest => line :: readLinesFrom [] rest
  | '\r' :: rest => line :: readLinesFrom [] rest
  | '\n' :: rest => line :: readLinesFrom [] rest
  | c :: rest => readLinesFrom (line ++ [c]) rest

/-- The lines of a text. -/
def readLines (text : List Char) : List (List Char) :=
  readLinesFrom [] text

@[simp] theorem readLines_nil : readLines [] = [] := rfl

/-- A line feed ends the line. -/
@[simp] theorem readLinesFrom_lineFeed {line rest : List Char} :
    readLinesFrom line ('\n' :: rest) = line :: readLines rest := rfl

theorem readLinesFrom_cons {line rest : List Char} {c : Char} (h : isLineEnd c = false) :
    readLinesFrom line (c :: rest) = readLinesFrom (line ++ [c]) rest := by
  simp only [isLineEnd, Bool.or_eq_false_iff, decide_eq_false_iff_not] at h
  rw [readLinesFrom]
  · rintro rest' rfl
    exact absurd rfl h.2
  · exact fun hc => h.2 hc
  · exact fun hc => h.1 hc

/-- A text with a line feed behind it, behind what has been read of its first line. -/
theorem readLinesFrom_append {line text rest : List Char} (h : '\r' ∉ text) :
    readLinesFrom line (text ++ '\n' :: rest) =
      (text.splitOn '\n').modifyHead (line ++ ·) ++ readLines rest := by
  induction text generalizing line with
  | nil => simp
  | cons c text ih =>
    rw [List.mem_cons, not_or] at h
    rw [List.splitOn_cons_eq_if_modifyHead, List.cons_append]
    by_cases hc : c = '\n'
    · subst hc
      rw [readLinesFrom_lineFeed, readLines, ih h.2]
      cases text.splitOn '\n' <;> simp
    · have hplain : isLineEnd c = false := by
        simp [isLineEnd, hc, Ne.symm h.1]
      rw [readLinesFrom_cons hplain, ih h.2, if_neg (by simpa using hc)]
      cases text.splitOn '\n' <;> simp

/-- **Reading lines.**  A text without carriage returns, with a line feed behind it, is read as its
    parts. -/
theorem readLines_append {text rest : List Char} (h : '\r' ∉ text) :
    readLines (text ++ '\n' :: rest) = text.splitOn '\n' ++ readLines rest := by
  rw [readLines, readLinesFrom_append h]
  cases text.splitOn '\n' <;> simp

/-- A carriage return ends the line, with the line feed behind it if there is one. -/
theorem readLinesFrom_carriageReturn {line rest : List Char} (h : rest.head? ≠ some '\n') :
    readLinesFrom line ('\r' :: rest) = line :: readLines rest := by
  rw [readLinesFrom]
  · rfl
  · rintro rest' rfl
    exact h rfl

/-- **Reading on.**  A text in front of another is read as its lines, the last of which goes on in
    the other text unless it is ended; a line feed behind its carriage return belongs to it. -/
theorem exists_readLinesFrom_append (line text more : List Char) :
    ∃ done last, readLinesFrom line text = done ++ (if last = [] then [] else [last]) ∧
      (readLinesFrom line (text ++ more) = done ++ readLinesFrom last more ∨
        last = [] ∧ ∃ more', more = '\n' :: more' ∧
          readLinesFrom line (text ++ more) = done ++ readLines more') := by
  induction line, text using readLinesFrom.induct with
  | case1 => exact ⟨[], [], rfl, .inl rfl⟩
  | case2 line hne => exact ⟨[], line, by simp [readLinesFrom, hne], .inl rfl⟩
  | case3 line rest ih | case5 line rest ih =>
    obtain ⟨done, last, hdone, hmore⟩ := ih
    refine ⟨line :: done, last, congrArg (line :: ·) hdone, ?_⟩
    obtain hmore | ⟨hlast, more', rfl, hmore⟩ := hmore
    · exact .inl (congrArg (line :: ·) hmore)
    · exact .inr ⟨hlast, more', rfl, congrArg (line :: ·) hmore⟩
  | case4 line rest hne ih =>
    have hhead : rest.head? ≠ some '\n' := by
      intro h
      obtain ⟨rest', rfl⟩ := List.head?_eq_some_iff.mp h
      exact hne rest' rfl
    rw [readLinesFrom_carriageReturn hhead, List.cons_append]
    by_cases hfeed : (rest ++ more).head? = some '\n'
    · -- the text ends with the carriage return, and its line feed is in the other one
      obtain rfl : rest = [] := by
        cases rest with
        | nil => rfl
        | cons c rest => exact absurd hfeed hhead
      obtain ⟨more', rfl⟩ := List.head?_eq_some_iff.mp hfeed
      exact ⟨[line], [], rfl, .inr ⟨rfl, more', rfl, rfl⟩⟩
    · rw [readLinesFrom_carriageReturn hfeed]
      obtain ⟨done, last, hdone, hmore⟩ := ih
      refine ⟨line :: done, last, congrArg (line :: ·) hdone, ?_⟩
      obtain hmore | ⟨hlast, more', rfl, hmore⟩ := hmore
      · exact .inl (congrArg (line :: ·) hmore)
      · exact .inr ⟨hlast, more', rfl, congrArg (line :: ·) hmore⟩
  | case6 line c rest hboth hcr hlf ih =>
    have hc : isLineEnd c = false := by
      simpa [isLineEnd] using ⟨fun h => hlf h, fun h => hcr h⟩
    rw [readLinesFrom_cons hc, List.cons_append, readLinesFrom_cons hc]
    exact ih

/-- The characters of a line end no line. -/
theorem isLineEnd_of_mem_readLinesFrom {line text l : List Char}
    (hline : ∀ c ∈ line, isLineEnd c = false) (hl : l ∈ readLinesFrom line text) :
    ∀ c ∈ l, isLineEnd c = false := by
  induction line, text using readLinesFrom.induct with
  | case1 => simp [readLinesFrom] at hl
  | case2 line hne =>
    rw [readLinesFrom, if_neg hne, List.mem_singleton] at hl
    exact hl ▸ hline
  | case3 line rest ih | case5 line rest ih =>
    rcases List.mem_cons.mp hl with rfl | hrest
    · exact hline
    · exact ih (by simp) hrest
  | case4 line rest hne ih =>
    rw [readLinesFrom] at hl
    · rcases List.mem_cons.mp hl with rfl | hrest
      · exact hline
      · exact ih (by simp) hrest
    · exact hne
  | case6 line c rest hboth hcr hlf ih =>
    -- a character of the line is none of the ends
    have hc : isLineEnd c = false := by
      simpa [isLineEnd] using ⟨fun h => hlf h, fun h => hcr h⟩
    rw [readLinesFrom_cons hc] at hl
    refine ih (fun c' hc' => ?_) hl
    rcases List.mem_append.mp hc' with hold | hnew
    · exact hline c' hold
    · rw [List.mem_singleton.mp hnew]
      exact hc

theorem isLineEnd_of_mem_readLines {text l : List Char} (hl : l ∈ readLines text) :
    ∀ c ∈ l, isLineEnd c = false :=
  isLineEnd_of_mem_readLinesFrom (by simp) hl

theorem not_mem_of_mem_splitOn {text l : List Char} {x : Char} (h : l ∈ text.splitOn x) :
    x ∉ l := by
  induction text generalizing l with
  | nil =>
    rw [List.splitOn_nil, List.mem_singleton] at h
    simp [h]
  | cons c text ih =>
    rw [List.splitOn_cons_eq_if_modifyHead] at h
    split_ifs at h with hc
    · rcases List.mem_cons.mp h with rfl | hrest
      · simp
      · exact ih hrest
    · cases hparts : text.splitOn x with
      | nil => simp [hparts] at h
      | cons part parts =>
        rw [hparts] at ih h
        rcases List.mem_cons.mp h with rfl | hrest
        · have hx : x ≠ c := fun heq => hc (by simp [heq])
          simp [hx, ih List.mem_cons_self]
        · exact ih (List.mem_cons_of_mem _ hrest)

/-- The parts of a text up to the first empty one give the text back exactly if it is empty or has
    no empty part. -/
theorem takeWhile_splitOn_inter {text : List Char} :
    ['\n'].intercalate ((text.splitOn '\n').takeWhile (fun l => !l.isEmpty)) = text ↔
      text = [] ∨ ∀ l ∈ text.splitOn '\n', l ≠ [] := by
  constructor
  · intro heq
    by_cases hnil : (text.splitOn '\n').takeWhile (fun l => !l.isEmpty) = []
    · rw [hnil] at heq
      exact .inl heq.symm
    · -- the text is cut at its line feeds into just these parts
      have hsplit := List.splitOn_intercalate '\n'
        (fun l hl => not_mem_of_mem_splitOn (List.takeWhile_subset _ hl)) hnil
      rw [heq] at hsplit
      refine .inr fun l hl => ?_
      rw [hsplit] at hl
      simpa using List.mem_takeWhile_imp hl
  · rintro (rfl | hall)
    · simp
    · rw [List.takeWhile_eq_self_iff.mpr (by simpa using hall), List.intercalate_splitOn]

/-- A text that does not end with a line feed and has no two in a row has no empty part but,
    perhaps, the first. -/
theorem splitOn_tail_ne_nil {text : List Char} (hend : text.getLast? ≠ some '\n')
    (hinner : ¬['\n', '\n'] <:+: text) : ∀ l ∈ (text.splitOn '\n').tail, l ≠ [] := by
  induction text with
  | nil => simp
  | cons c text ih =>
    have htail : ∀ l ∈ (text.splitOn '\n').tail, l ≠ [] := by
      cases text with
      | nil => simp
      | cons d text => exact ih (by simpa using hend) (fun h => hinner (List.infix_cons h))
    rw [List.splitOn_cons_eq_if_modifyHead]
    split_ifs with hc
    · obtain rfl : c = '\n' := by simpa using hc
      cases text with
      | nil => simp at hend
      | cons d text =>
        -- a second line feed would follow at once
        have hd : d ≠ '\n' := by
          rintro rfl
          exact hinner ⟨[], text, rfl⟩
        rw [List.splitOn_cons_eq_if_modifyHead, if_neg (by simpa using hd)] at htail ⊢
        cases hparts : text.splitOn '\n' with
        | nil => simp
        | cons part parts =>
          rw [hparts] at htail
          simpa using htail
    · cases hparts : text.splitOn '\n' with
      | nil => simp
      | cons part parts =>
        rw [hparts] at htail
        simpa using htail

/-- A text that neither begins nor ends with a line feed and has no two in a row is empty or has no
    empty part. -/
theorem splitOn_ne_nil_of_unbroken {text : List Char} (hstart : text.head? ≠ some '\n')
    (hend : text.getLast? ≠ some '\n') (hinner : ¬['\n', '\n'] <:+: text) :
    text = [] ∨ ∀ l ∈ text.splitOn '\n', l ≠ [] := by
  cases text with
  | nil => exact .inl rfl
  | cons c text =>
    have htail := splitOn_tail_ne_nil hend hinner
    have hc : c ≠ '\n' := by simpa using hstart
    rw [List.splitOn_cons_eq_if_modifyHead, if_neg (by simpa using hc)] at htail ⊢
    refine .inr ?_
    cases hparts : text.splitOn '\n' with
    | nil => simp
    | cons part parts =>
      rw [hparts] at htail
      simpa using htail

/-! ### Decimal numbers -/

/-- `%0nd` of a number that is not negative. -/
def zeroPad (width n : ℕ) : List Char :=
  List.replicate (width - (Nat.toDigits 10 n).length) '0' ++ Nat.toDigits 10 n

theorem isDigit_of_mem_zeroPad {width n : ℕ} {c : Char} (h : c ∈ zeroPad width n) :
    c.isDigit = true := by
  rcases List.mem_append.mp h with hzero | hdigit
  · rw [List.eq_of_mem_replicate hzero]
    decide
  · exact Nat.isDigit_of_mem_toDigits (by decide) (by decide) hdigit

theorem zeroPad_one {n : ℕ} (h : n < 10) : zeroPad 1 n = [n.digitChar] := by
  simp [zeroPad, Nat.toDigits_of_lt_base h]

/-- The last digit. -/
theorem zeroPad_succ {width n : ℕ} (h : 0 < width) :
    zeroPad (width + 1) n = zeroPad width (n / 10) ++ [(n % 10).digitChar] := by
  by_cases hn : n < 10
  · have hzero : Nat.toDigits 10 (n / 10) = ['0'] := by
      rw [Nat.div_eq_of_lt hn, Nat.toDigits_zero]
    rw [zeroPad, zeroPad, hzero, Nat.toDigits_of_lt_base hn, Nat.mod_eq_of_lt hn]
    obtain ⟨w, rfl⟩ : ∃ w, width = w + 1 := ⟨width - 1, by omega⟩
    simp [List.replicate_succ']
  · rw [zeroPad, zeroPad, Nat.toDigits_of_base_le (by decide) (by omega)]
    simp

theorem zeroPad_two {n : ℕ} (h : n < 100) :
    zeroPad 2 n = [(n / 10).digitChar, (n % 10).digitChar] := by
  rw [zeroPad_succ (by decide), zeroPad_one (by omega)]
  rfl

theorem zeroPad_three {n : ℕ} (h : n < 1000) :
    zeroPad 3 n = [(n / 100).digitChar, (n / 10 % 10).digitChar, (n % 10).digitChar] := by
  rw [zeroPad_succ (by decide), zeroPad_two (by omega), Nat.div_div_eq_div_mul]
  rfl

end PopcornTime
