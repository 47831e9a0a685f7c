import Mathlib.Data.List.Basic
import PopcornTime.Android.SRTFormat

namespace PopcornTime.Android

open PopcornTime

namespace SRTFormat

/-!
# Android player — the blocks of an `.srt` text

A block is a run of lines up to an empty line or the end of the text.  A block makes one caption
at most: the first line of it that is read as two times begins it, and the lines behind are its
text.

* `parse_append` — a text that ends with an empty line is parsed for itself, and so is what
  follows it.
* `parseTimes_isSome_iff` — which lines are read as two times.
* `parse_local_iff` — what a block whose line of times is malformed adds to the captions.
-/

/-! ### Lines of times -/

/-- Decimal digits. -/
def Digits (s : List ℕ) : Prop :=
  s ≠ [] ∧ ∀ c ∈ s, (digit c).isSome

/-- Decimal digits behind a sign or without one. -/
def SignedDigits (s : List ℕ) : Prop :=
  Digits s ∨ (s.head? = some '-'.toNat ∨ s.head? = some '+'.toNat) ∧ Digits s.tail

instance (s : List ℕ) : Decidable (Digits s) :=
  inferInstanceAs (Decidable (_ ∧ _))

instance (s : List ℕ) : Decidable (SignedDigits s) :=
  inferInstanceAs (Decidable (_ ∨ _))

/-- Twelve characters with the given kind of numbers in the places of `00:00:00,000`. -/
def TimeOf (number : List ℕ → Prop) (time : List Char) : Prop :=
  let time := utf16 (trim time)
  time.length = 12 ∧ number (substring time 0 2) ∧ number (substring time 3 5) ∧
    number (substring time 6 8) ∧ number (substring time 9 12)

instance (number : List ℕ → Prop) [DecidablePred number] (time : List Char) :
    Decidable (TimeOf number time) :=
  inferInstanceAs (Decidable (_ ∧ _))

/-- Two times. -/
def TwoTimes (number : List ℕ → Prop) : List (List Char) → Prop
  | [start, stop] => TimeOf number start ∧ TimeOf number stop
  | _ => False

instance (number : List ℕ → Prop) [DecidablePred number] :
    (parts : List (List Char)) → Decidable (TwoTimes number parts)
  | [start, stop] => inferInstanceAs (Decidable (TimeOf number start ∧ TimeOf number stop))
  | [] | [_] | _ :: _ :: _ :: _ => inferInstanceAs (Decidable False)

/-- A line of times as it is meant: two times of digits with one arrow between them. -/
def WellFormedTimes (line : List Char) : Prop :=
  TwoTimes Digits (splitArrow [] line)

/-- A line that is read as two times: signs are numbers too, and arrows at its end are dropped. -/
def ReadableTimes (line : List Char) : Prop :=
  TwoTimes SignedDigits (split line)

instance (line : List Char) : Decidable (WellFormedTimes line) :=
  inferInstanceAs (Decidable (TwoTimes _ _))

instance (line : List Char) : Decidable (ReadableTimes line) :=
  inferInstanceAs (Decidable (TwoTimes _ _))

/-- Digits are read as a number, and nothing else is. -/
theorem parseDigits_isSome_iff {s : List ℕ} :
    (parseDigits s).isSome ↔ ∀ c ∈ s, (digit c).isSome := by
  have hfold : ∀ n : ℤ, (s.foldlM (fun n c => (digit c).map (n * 10 + ·)) n).isSome ↔
      ∀ c ∈ s, (digit c).isSome := by
    induction s with
    | nil => simp
    | cons c s ih =>
      intro n
      rw [List.foldlM_cons, List.forall_mem_cons]
      cases hc : digit c with
      | none => simp
      | some d => simpa using ih (n * 10 + d)
  exact hfold 0

/-- `parseInt` takes a sign as well. -/
theorem parseInt_isSome_iff {s : List ℕ} : (parseInt s).isSome ↔ SignedDigits s := by
  have hminus : digit 45 = none := by decide
  have hplus : digit 43 = none := by decide
  cases s with
  | nil => simp [parseInt, SignedDigits, Digits]
  | cons c rest =>
    rw [parseInt, SignedDigits]
    -- a sign is no digit, so it stands in front of the digits or they begin the number
    split_ifs with hc hrest hc' hrest
    · subst hc hrest
      simp [Digits, hminus]
    · subst hc
      simp [Digits, hminus, hrest, parseDigits_isSome_iff]
    · subst hc' hrest
      simp [Digits, hplus]
    · subst hc'
      simp [Digits, hplus, hrest, parseDigits_isSome_iff]
    · have hc : c ≠ 45 := hc
      have hc' : c ≠ 43 := hc'
      simp [Digits, hc, hc', parseDigits_isSome_iff]

/-- A time is read if its four parts are numbers. -/
theorem parseTime_isSome_iff {time : List Char} :
    (parseTime time).isSome ↔ TimeOf SignedDigits time := by
  unfold parseTime TimeOf
  simp only [← parseInt_isSome_iff]
  generalize utf16 (trim time) = units
  by_cases hlength : units.length = 12
  · rw [if_neg (not_not.mpr hlength)]
    cases parseInt (substring units 0 2) with
    | none => simp
    | some h => cases parseInt (substring units 3 5) with
      | none => simp
      | some m => cases parseInt (substring units 6 8) with
        | none => simp
        | some s => cases parseInt (substring units 9 12) <;> simp [hlength]
  · simp [hlength]

/-- A line without an arrow is one part at most. -/
theorem containsArrow_of_split {line start stop : List Char} (h : split line = [start, stop]) :
    containsArrow line = true := by
  by_contra hno
  rw [split, splitArrow_of_not_contains (by simpa using hno)] at h
  cases line <;> simp at h

/-- **Which lines are read as two times.** -/
theorem parseTimes_isSome_iff {line : List Char} :
    (parseTimes line).isSome ↔ ReadableTimes line := by
  unfold ReadableTimes
  by_cases hparts : ∃ start stop, split line = [start, stop]
  · obtain ⟨start, stop, hsplit⟩ := hparts
    rw [parseTimes, if_pos (containsArrow_of_split hsplit), hsplit, TwoTimes,
      ← parseTime_isSome_iff, ← parseTime_isSome_iff]
    cases hstart : parseTime start with
    | none => simp [hstart]
    | some t => cases hstop : parseTime stop <;> simp [hstart, hstop]
  · have hnone : parseTimes line = none := by
      unfold parseTimes
      split_ifs
      · split
        next start stop hsplit => exact absurd ⟨start, stop, hsplit⟩ hparts
        next => rfl
      · rfl
    rw [hnone]
    unfold TwoTimes
    split
    next start stop hsplit => exact absurd ⟨start, stop, hsplit⟩ hparts
    next => simp

/-! ### Blocks -/

/-- The cue of the lines of a block. -/
def blockCue (times : List Char → Option (ℤ × ℤ)) : List (List Char) → Option Cue
  | [] => none
  | line :: rest =>
    match times line with
    | none => blockCue times rest
    | some (start, stop) => some ⟨line, start, stop, rest⟩

variable {times : List Char → Option (ℤ × ℤ)} {block rest : List (List Char)}

/-- A block makes no cue if none of its lines is one of times. -/
theorem blockCue_eq_none_iff : blockCue times block = none ↔ ∀ line ∈ block, times line = none := by
  induction block with
  | nil => simp [blockCue]
  | cons line block ih =>
    rw [blockCue, List.forall_mem_cons]
    cases hline : times line with
    | none => simpa using ih
    | some t => simp

@[simp] theorem parseTimes_nil : parseTimes [] = none := rfl

/-- Behind an empty line nothing is left of what was read in front of it. -/
theorem cues_append (htimes : times [] = none) (cue : Option Cue) :
    cues times cue (block ++ [] :: rest) = cues times cue block ++ cues times none rest := by
  induction block generalizing cue with
  | nil => cases cue <;> simp [cues, htimes]
  | cons line block ih =>
    cases cue with
    | none =>
      rw [List.cons_append, cues, cues]
      cases times line with
      | none => exact ih none
      | some t => exact ih (some ⟨line, t.1, t.2, []⟩)
    | some cue =>
      rw [List.cons_append, cues, cues]
      split_ifs
      · rw [ih none, List.cons_append]
      · exact ih _

/-- A cue goes on to the end of its block. -/
theorem cues_some_block (cue : Cue) (hblock : ∀ line ∈ block, line ≠ []) :
    cues times (some cue) block = [{ cue with lines := cue.lines ++ block }] := by
  induction block generalizing cue with
  | nil => simp [cues]
  | cons line block ih =>
    rw [List.forall_mem_cons] at hblock
    rw [cues, if_neg hblock.1, ih _ hblock.2]
    simp

/-- A block makes one cue at most. -/
theorem cues_block (hblock : ∀ line ∈ block, line ≠ []) :
    cues times none block = (blockCue times block).toList := by
  induction block with
  | nil => rfl
  | cons line block ih =>
    rw [List.forall_mem_cons] at hblock
    rw [cues, blockCue]
    cases times line with
    | none => exact ih hblock.2
    | some t => exact cues_some_block ⟨line, t.1, t.2, []⟩ hblock.2

/-! ### Texts -/

/-- A new block begins behind the lines: there is none, or the last one is empty. -/
def EndsBlock (lines : List (List Char)) : Prop :=
  ∀ line ∈ lines.getLast?, line = []

/-- Behind lines that end a block the cues are those of the rest. -/
theorem EndsBlock.cues_append {lines : List (List Char)} (h : EndsBlock lines)
    (htimes : times [] = none) :
    cues times none (lines ++ rest) = cues times none lines ++ cues times none rest := by
  cases hlast : lines.getLast? with
  | none =>
    rw [List.getLast?_eq_none_iff.mp hlast]
    rfl
  | some last =>
    obtain ⟨init, rfl⟩ := List.getLast?_eq_some_iff.mp hlast
    obtain rfl : last = [] := h last hlast
    rw [List.append_assoc, List.singleton_append, SRTFormat.cues_append htimes,
      SRTFormat.cues_append htimes, cues, List.append_nil]

/-- The cues of a text behind which a block begins, and of what follows. -/
theorem cues_readLines_append {text more : List Char} (h : EndsBlock (readLines text)) :
    cues parseTimes none (readLines (text ++ more)) =
      cues parseTimes none (readLines text) ++ cues parseTimes none (readLines more) := by
  obtain ⟨done, last, hdone, hmore⟩ := exists_readLinesFrom_append [] text more
  have hlast : last = [] := by
    by_contra hne
    rw [EndsBlock, readLines, hdone, if_neg hne] at h
    exact hne (h last (by simp))
  subst hlast
  rw [if_pos rfl, List.append_nil] at hdone
  have hlines : readLines text = done := hdone
  rw [hlines] at h ⊢
  obtain hmore | ⟨-, more', rfl, hmore⟩ := hmore
  · have happend : readLines (text ++ more) = done ++ readLines more := hmore
    rw [happend, h.cues_append parseTimes_nil]
  · -- the line feed ends the last line of the text, and is an empty line for itself
    have happend : readLines (text ++ '\n' :: more') = done ++ readLines more' := hmore
    rw [happend, h.cues_append parseTimes_nil]
    rfl

/-- The captions of a text, in order. -/
def captions (formatter : Option (List Char → List Char)) (text : List Char) : List Caption :=
  (cues parseTimes none (readLines text)).map (Cue.caption formatter)

variable {formatter : Option (List Char → List Char)} {text more : List Char}

/-- `parse` numbers the captions from one on. -/
theorem parse_eq_captions : parse formatter text = keyed 1 (captions formatter (skipBom text)) :=
  parse_eq

/-- The text, behind its byte order mark, is empty or ends with an empty line. -/
def EndsWithEmptyLine (text : List Char) : Prop :=
  EndsBlock (readLines (skipBom text))

/-- The captions of a text behind which a block begins, and of what follows. -/
theorem captions_append (h : EndsWithEmptyLine text) (hmore : more.head? ≠ some BOM_UTF_8) :
    captions formatter (skipBom (text ++ more)) =
      captions formatter (skipBom text) ++ captions formatter (skipBom more) := by
  have hbom : skipBom (text ++ more) = skipBom text ++ more := by
    cases text with
    | nil => simp [skipBom, hmore]
    | cons c text =>
      unfold skipBom
      rw [List.cons_append, List.head?_cons, List.head?_cons]
      split_ifs <;> rfl
  have hskip : skipBom more = more := if_neg hmore
  rw [hbom, hskip, captions, cues_readLines_append h, List.map_append]
  rfl

/-- The keys go on behind a list. -/
theorem keyed_append {index : ℕ} {cs cs' : List Caption} :
    keyed index (cs ++ cs') = keyed index cs ++ keyed (index + cs.length) cs' := by
  induction cs generalizing index with
  | nil => simp
  | cons c cs ih => simp [ih, Nat.add_assoc, Nat.add_comm 1]

/-- Keys that begin further on. -/
def renumber (n : ℕ) (entries : List (ℕ × Caption)) : List (ℕ × Caption) :=
  entries.map fun entry => (entry.1 + n, entry.2)

/-- Keys from a later index are the same ones renumbered. -/
theorem keyed_add {index n : ℕ} {cs : List Caption} :
    keyed (index + n) cs = renumber n (keyed index cs) := by
  induction cs generalizing index with
  | nil => rfl
  | cons c cs ih =>
    have hrest := @ih (index + 1)
    rw [show index + 1 + n = index + n + 1 by omega] at hrest
    rw [keyed_cons, keyed_cons, hrest]
    rfl

/-- Each caption has one key. -/
theorem length_keyed {index : ℕ} {cs : List Caption} : (keyed index cs).length = cs.length := by
  induction cs generalizing index with
  | nil => rfl
  | cons c cs ih => simp [ih]

/-- The keys are numbers in order. -/
theorem map_fst_keyed {index : ℕ} {cs : List Caption} :
    (keyed index cs).map Prod.fst = List.range' index cs.length := by
  induction cs generalizing index with
  | nil => rfl
  | cons c cs ih => simp [ih, List.range'_succ]

/-- **Two texts.**  A text that ends with an empty line has its captions, and behind them the
    other text has its own. -/
theorem parse_append (h : EndsWithEmptyLine text) (hmore : more.head? ≠ some BOM_UTF_8) :
    parse formatter (text ++ more) =
      parse formatter text ++ renumber (parse formatter text).length (parse formatter more) := by
  rw [parse_eq_captions, parse_eq_captions, parse_eq_captions, captions_append h hmore,
    keyed_append, keyed_add, length_keyed]

/-- The lines of a block, which an empty line ends, or the end of the text. -/
structure IsBlock (text more : List Char) (lines : List (List Char)) : Prop where
  readLines_eq : readLines text = lines ++ [[]] ∨ more = [] ∧ readLines text = lines
  nonempty : ∀ line ∈ lines, line ≠ []

/-- A block whose line of times, the first one with an arrow, is not as it is meant. -/
def Malformed (lines : List (List Char)) : Prop :=
  ∃ line ∈ lines.find? containsArrow, ¬WellFormedTimes line

/-- The cue of a block is that of its lines. -/
theorem IsBlock.cues_eq {lines : List (List Char)} (h : IsBlock text more lines) :
    cues parseTimes none (readLines text) = (blockCue parseTimes lines).toList := by
  obtain hlines | ⟨-, hlines⟩ := h.readLines_eq
  · rw [hlines, cues_append parseTimes_nil, cues_block h.nonempty, cues, List.append_nil]
  · rw [hlines, cues_block h.nonempty]

/-- The captions around a block. -/
theorem captions_block {before block : List Char} {lines : List (List Char)}
    (hbefore : EndsWithEmptyLine before) (hblock : block.head? ≠ some BOM_UTF_8)
    (hmore : more.head? ≠ some BOM_UTF_8) (h : IsBlock block more lines) :
    captions formatter (skipBom (before ++ (block ++ more))) =
      captions formatter (skipBom before) ++
        ((blockCue parseTimes lines).toList.map (Cue.caption formatter) ++
          captions formatter (skipBom more)) := by
  have hskip : skipBom block = block := if_neg hblock
  have hcues : captions formatter (skipBom block) =
      (blockCue parseTimes lines).toList.map (Cue.caption formatter) := by
    rw [hskip, captions, h.cues_eq]
  obtain hend | ⟨rfl, -⟩ := h.readLines_eq
  · have hends : EndsWithEmptyLine block := by
      rw [EndsWithEmptyLine, hskip, hend, EndsBlock]
      simp
    have hhead : (block ++ more).head? ≠ some BOM_UTF_8 := by
      cases block with
      | nil => simpa using hmore
      | cons c block => simpa using hblock
    rw [captions_append hbefore hhead, captions_append hends hmore, hcues]
  · rw [List.append_nil, captions_append hbefore hblock, hcues]
    simp [captions, skipBom, cues]

/-- A block adds nothing exactly if none of its lines is read as two times. -/
theorem parse_block_iff {before block : List Char} {lines : List (List Char)}
    (hbefore : EndsWithEmptyLine before) (hblock : block.head? ≠ some BOM_UTF_8)
    (hmore : more.head? ≠ some BOM_UTF_8) (h : IsBlock block more lines) :
    parse formatter (before ++ (block ++ more)) = parse formatter (before ++ more) ↔
      ∀ line ∈ lines, ¬ReadableTimes line := by
  have hreadable : (∀ line ∈ lines, ¬ReadableTimes line) ↔ blockCue parseTimes lines = none := by
    rw [blockCue_eq_none_iff]
    refine forall₂_congr fun line _ => ?_
    rw [← parseTimes_isSome_iff, Bool.not_eq_true, Option.isSome_eq_false_iff,
      Option.isNone_iff_eq_none]
  rw [parse_eq_captions, parse_eq_captions, keyed_inj, captions_block hbefore hblock hmore h,
    captions_append hbefore hmore, List.append_cancel_left_eq, hreadable]
  cases blockCue parseTimes lines with
  | none => simp
  | some cue =>
    refine iff_of_false (fun heq => ?_) (by simp)
    have hlength := congrArg List.length heq
    simp at hlength

/-- **Parsing is local.**  A text that ends with an empty line is parsed for itself, and so is what
    follows it; the keys are the numbers from one on.  A block whose line of times is malformed
    adds nothing, and changes nothing, exactly if no line of it is read as two times after all. -/
theorem parse_local_iff (formatter : Option (List Char → List Char)) :
    (∀ text more, EndsWithEmptyLine text → more.head? ≠ some BOM_UTF_8 →
      parse formatter (text ++ more) =
        parse formatter text ++ renumber (parse formatter text).length (parse formatter more)) ∧
    (∀ text, (parse formatter text).map Prod.fst =
      List.range' 1 (parse formatter text).length) ∧
    ∀ before block more lines, EndsWithEmptyLine before → block.head? ≠ some BOM_UTF_8 →
      more.head? ≠ some BOM_UTF_8 → IsBlock block more lines → Malformed lines →
      (parse formatter (before ++ (block ++ more)) = parse formatter (before ++ more) ↔
        ∀ line ∈ lines, ¬ReadableTimes line) := by
  refine ⟨fun text more h hmore => parse_append h hmore, fun text => ?_, ?_⟩
  · rw [parse_eq_captions, map_fst_keyed, length_keyed]
  · intro before block more lines hbefore hblock hmore h _
    exact parse_block_iff hbefore hblock hmore h

/-- Blocks whose lines of times are malformed: it has no times and a line of the text has, it has a
    sign, and it has three arrows. -/
def malformedBlocks : List (List (List Char)) :=
  [["1".toList, "one --> two".toList, "00:00:01,000 --> 00:00:02,000".toList, "text".toList],
    ["1".toList, "00:00:-1,000 --> 00:00:02,000".toList, "text".toList],
    ["1".toList, "00:00:01,000 --> 00:00:02,000 -->-->".toList, "text".toList]]

/-- Each of them makes a caption. -/
theorem malformedBlocks_parsed :
    malformedBlocks.Forall fun lines =>
      let block := lines.flatMap (· ++ ['\n']) ++ ['\n']
      IsBlock block [] lines ∧ Malformed lines ∧
        parse none ([] ++ (block ++ [])) ≠ parse none ([] ++ []) := by
  have hblock : ∀ lines ∈ malformedBlocks,
      readLines (lines.flatMap (· ++ ['\n']) ++ ['\n']) = lines ++ [[]] ∧
        ∀ line ∈ lines, line ≠ [] := by
    decide +kernel
  have hmalformed : ∀ lines ∈ malformedBlocks,
      ∃ line ∈ lines.find? containsArrow, ¬WellFormedTimes line := by
    decide +kernel
  have hparse : ∀ lines ∈ malformedBlocks,
      parse none ([] ++ (lines.flatMap (· ++ ['\n']) ++ ['\n'] ++ [])) ≠ parse none ([] ++ []) := by
    decide +kernel
  rw [List.forall_iff_forall_mem]
  intro lines h
  exact ⟨⟨.inl (hblock lines h).1, (hblock lines h).2⟩, hmalformed lines h, hparse lines h⟩

end SRTFormat

end PopcornTime.Android
