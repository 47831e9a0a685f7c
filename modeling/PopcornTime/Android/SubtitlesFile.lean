import Mathlib.Algebra.Ring.Nat
import PopcornTime.Android.SRTFormat

namespace PopcornTime.Android

/-!
# Android player — subtitles through the file

`SubtitlesLoader.save` parses a text, strips the tags of its captions and writes them to a file;
`SubtitlesRenderer.setSubtitlesTrack` parses that file again.

* `save`, `setSubtitlesTrack` — the two sides of the file, and `removeTags` between them.
* `setSubtitlesTrack_save_iff` — the captions shown are the cues of the text exactly if no stripped
  cue has an empty line, or it is empty altogether.
* `tags_on_own_line` — a cue whose tags fill a line comes back without its text.
-/

namespace SubtitlesFile

open PopcornTime SRTFormat

/-! ### The code -/

/-- `replaceAll("<[^>]*>", "")`, behind an open `tag`: a tag that nothing closes stays. -/
def removeTagsFrom : Option (List Char) → List Char → List Char
  | none, [] => []
  | some tag, [] => tag
  | none, c :: rest =>
    if c = '<' then removeTagsFrom (some [c]) rest else c :: removeTagsFrom none rest
  | some tag, c :: rest =>
    if c = '>' then removeTagsFrom none rest else removeTagsFrom (some (tag ++ [c])) rest

/-- `RemoveTagsFormatter.format` -/
def removeTags (text : List Char) : List Char :=
  removeTagsFrom none text

/-- The file that `SubtitlesLoader.save` writes. -/
def save (subtitle : List Char) : List Char :=
  write (parse (some removeTags) subtitle)

/-- The captions of `SubtitlesRenderer.setSubtitlesTrack`, which gets no formatter. -/
def setSubtitlesTrack (file : List Char) : List (ℕ × Caption) :=
  parse none file

/-! ### What is to be shown -/

/-- The cues of a text by its well formed lines of times. -/
def textCues (text : List Char) : List Cue :=
  cues timeLine? none (readLines (skipBom text))

/-- The cues in order, with their times and their text without tags. -/
def strippedCues (text : List Char) : List (ℕ × Caption) :=
  keyed 1 ((textCues text).map (Cue.caption (some removeTags)))

/-- The times of every cue that the reader finds are well formed. -/
def WellFormed (text : List Char) : Prop :=
  ∀ cue ∈ cues parseTimes none (readLines (skipBom text)),
    timeLine? cue.timeLine = some (cue.start, cue.stop)

instance {text : List Char} : Decidable (WellFormed text) :=
  inferInstanceAs (Decidable (∀ cue ∈ cues parseTimes none (readLines (skipBom text)), _))

/-! ### The cues of the reader -/

/-- The cue that is being read comes first, with its times. -/
theorem cues_some_eq (times : List Char → Option (ℤ × ℤ)) (cue : Cue) (lines : List (List Char)) :
    ∃ text tail, cues times (some cue) lines = { cue with lines := text } :: tail := by
  induction lines generalizing cue with
  | nil => exact ⟨cue.lines, [], rfl⟩
  | cons line rest ih =>
    rw [cues]
    split_ifs with hline
    · exact ⟨cue.lines, _, rfl⟩
    · exact ih { cue with lines := cue.lines ++ [line] }

/-- Two rules of times that agree on the cues find the same ones. -/
theorem cues_congr {cue : Option Cue} {lines : List (List Char)}
    (h : ∀ c ∈ cues parseTimes cue lines, timeLine? c.timeLine = some (c.start, c.stop)) :
    cues parseTimes cue lines = cues timeLine? cue lines := by
  induction lines generalizing cue with
  | nil => cases cue <;> rfl
  | cons line rest ih =>
    cases cue with
    | none =>
      rw [cues, cues]
      cases hparse : parseTimes line with
      | none =>
        have hstrict : timeLine? line = none := by
          by_contra hsome
          obtain ⟨times, htimes⟩ := Option.ne_none_iff_exists'.mp hsome
          rw [parseTimes_of_timeLine? htimes] at hparse
          cases hparse
        rw [cues, hparse] at h
        rw [hstrict]
        exact ih h
      | some times =>
        rw [cues, hparse] at h
        -- the line begins the first of the cues that follow
        obtain ⟨text, tail, hcues⟩ := cues_some_eq parseTimes
          ⟨line, times.1, times.2, []⟩ rest
        have hstrict : timeLine? line = some times :=
          h _ (hcues ▸ List.mem_cons_self)
        rw [hstrict]
        exact ih h
    | some cue =>
      rw [cues] at h
      rw [cues, cues]
      split_ifs at h ⊢ with hline
      · rw [ih fun c hc => h c (List.mem_cons_of_mem _ hc)]
      · exact ih h

theorem cues_of_wellFormed {text : List Char} (h : WellFormed text) :
    cues parseTimes none (readLines (skipBom text)) = textCues text :=
  cues_congr h

/-- What holds of every line of the text holds of the lines of its cues. -/
theorem forall_mem_cues {times : List Char → Option (ℤ × ℤ)} {P : List Char → Prop}
    {cue : Option Cue} {lines : List (List Char)} (hcue : ∀ c ∈ cue, ∀ l ∈ c.lines, P l)
    (hlines : ∀ l ∈ lines, P l) : ∀ c ∈ cues times cue lines, ∀ l ∈ c.lines, P l := by
  induction lines generalizing cue with
  | nil =>
    cases cue with
    | none => simp [cues]
    | some cue => simpa [cues] using hcue
  | cons line rest ih =>
    rw [List.forall_mem_cons] at hlines
    cases cue with
    | none =>
      rw [cues]
      cases times line with
      | none => exact ih (by simp) hlines.2
      | some t => exact ih (by simp) hlines.2
    | some cue =>
      have hopen := hcue cue rfl
      rw [cues]
      split_ifs with hline
      · rw [List.forall_mem_cons]
        exact ⟨hopen, ih (by simp) hlines.2⟩
      · refine ih ?_ hlines.2
        simpa [or_imp, forall_and] using ⟨hopen, hlines.1⟩

/-- The times of a cue are times of its line. -/
theorem times_of_mem_cues {times : List Char → Option (ℤ × ℤ)} {cue : Option Cue}
    {lines : List (List Char)} (hcue : ∀ c ∈ cue, times c.timeLine = some (c.start, c.stop)) :
    ∀ c ∈ cues times cue lines, times c.timeLine = some (c.start, c.stop) := by
  induction lines generalizing cue with
  | nil =>
    cases cue with
    | none => simp [cues]
    | some cue => simpa [cues] using hcue
  | cons line rest ih =>
    cases cue with
    | none =>
      rw [cues]
      cases htimes : times line with
      | none => exact ih (by simp)
      | some t => exact ih (by simpa using htimes)
    | some cue =>
      have hopen := hcue cue rfl
      rw [cues]
      split_ifs with hline
      · rw [List.forall_mem_cons]
        exact ⟨hopen, ih (by simp)⟩
      · exact ih (by simpa using hopen)

/-! ### Times and texts are written as they are -/

theorem num_lt {digits : List Char} (h : ∀ c ∈ digits, c.isDigit = true) :
    num digits < 10 ^ digits.length := by
  -- the fold starts from any number, as the induction needs it
  have hfold : ∀ (cs : List Char) (n : ℕ), (∀ c ∈ cs, c.isDigit = true) →
      Nat.ofDigitChars 10 cs n < (n + 1) * 10 ^ cs.length := by
    intro cs
    induction cs with
    | nil => simp
    | cons c cs ih =>
      intro n hcs
      rw [List.forall_mem_cons] at hcs
      have hc := toNat_of_isDigit hcs.1
      have hzero : '0'.toNat = 48 := rfl
      rw [Nat.ofDigitChars_cons, List.length_cons, Nat.pow_succ']
      calc Nat.ofDigitChars 10 cs (10 * n + (c.toNat - '0'.toNat))
          < (10 * n + (c.toNat - '0'.toNat) + 1) * 10 ^ cs.length := ih _ hcs.2
        _ ≤ ((n + 1) * 10) * 10 ^ cs.length := Nat.mul_le_mul_right _ (by omega)
        _ = (n + 1) * (10 * 10 ^ cs.length) := Nat.mul_assoc ..
  simpa [num] using hfold digits 0 h

/-- A well formed time has two digits of hours. -/
theorem clock?_range {time : List Char} {t : ℤ} (h : clock? time = some t) :
    0 ≤ t ∧ t < 360000000 := by
  unfold clock? at h
  split at h
  case h_2 => cases h
  case h_1 h₁ h₂ m₁ m₂ s₁ s₂ a b c =>
    split_ifs at h with hclock
    obtain ⟨hall, hmin, hsec⟩ := hclock
    simp only [List.all_cons, List.all_nil, Bool.and_true, Bool.and_eq_true] at hall
    -- hours have two digits, and milliseconds three
    have hhour : num [h₁, h₂] < 10 ^ 2 := num_lt (by simp [hall])
    have hmilli : num [a, b, c] < 10 ^ 3 := num_lt (by simp [hall])
    rw [Option.some.injEq] at h
    omega

theorem timeLine?_range {line : List Char} {start stop : ℤ}
    (h : timeLine? line = some (start, stop)) :
    (0 ≤ start ∧ start < 360000000) ∧ (0 ≤ stop ∧ stop < 360000000) := by
  unfold timeLine? at h
  split at h
  case h_2 => cases h
  case h_1 =>
    obtain ⟨t₁, ht₁, h⟩ := Option.bind_eq_some_iff.mp h
    obtain ⟨t₂, ht₂, h⟩ := Option.bind_eq_some_iff.mp h
    cases h
    exact ⟨clock?_range ht₁, clock?_range ht₂⟩

/-- Stripping adds no characters. -/
theorem forall_mem_removeTagsFrom {P : Char → Prop} {tag : Option (List Char)} {text : List Char}
    (htag : ∀ t ∈ tag, ∀ x ∈ t, P x) (htext : ∀ x ∈ text, P x) :
    ∀ x ∈ removeTagsFrom tag text, P x := by
  induction text generalizing tag with
  | nil =>
    cases tag with
    | none => simp [removeTagsFrom]
    -- an unclosed tag is kept
    | some tag => exact htag tag rfl
  | cons c rest ih =>
    rw [List.forall_mem_cons] at htext
    cases tag with
    | none =>
      rw [removeTagsFrom]
      split_ifs with hc
      · exact ih (by simpa using htext.1) htext.2
      · rw [List.forall_mem_cons]
        exact ⟨htext.1, ih (by simp) htext.2⟩
    | some tag =>
      have hopen := htag tag rfl
      rw [removeTagsFrom]
      split_ifs with hc
      · exact ih (by simp) htext.2
      · refine ih ?_ htext.2
        simpa [or_imp, forall_and] using ⟨hopen, htext.1⟩

theorem mem_of_mem_removeTags {text : List Char} {x : Char} (h : x ∈ removeTags text) :
    x ∈ text :=
  forall_mem_removeTagsFrom (by simp) (fun _ => id) x h

theorem mem_intercalate {lines : List (List Char)} {x : Char} (h : x ∈ ['\n'].intercalate lines) :
    x = '\n' ∨ ∃ l ∈ lines, x ∈ l := by
  induction lines with
  | nil => cases h
  | cons line rest ih =>
    cases rest with
    | nil => exact .inr ⟨line, List.mem_cons_self, by simpa using h⟩
    | cons next rest =>
      rw [List.intercalate_cons_cons] at h
      simp only [List.mem_append, List.mem_singleton] at h
      rcases h with (hline | hfeed) | hrest
      · exact .inr ⟨line, List.mem_cons_self, hline⟩
      · exact .inl hfeed
      · rcases ih hrest with hfeed | ⟨l, hl, hx⟩
        · exact .inl hfeed
        · exact .inr ⟨l, List.mem_cons_of_mem _ hl, hx⟩

/-- The text of a cue, stripped, has no carriage return. -/
theorem return_notMem_removeTags {text : List Char} {cue : Cue} (hcue : cue ∈ textCues text) :
    '\r' ∉ removeTags cue.text := by
  intro hmem
  rcases mem_intercalate (mem_of_mem_removeTags hmem) with hfeed | ⟨l, hl, hreturn⟩
  · cases hfeed
  · have hline := forall_mem_cues (P := fun l => ∀ c ∈ l, isLineEnd c = false) (by simp)
      (fun _ => isLineEnd_of_mem_readLines) cue hcue l hl
    exact absurd (hline '\r' hreturn) (by decide)

/-! ### Through the file -/

/-- **Through the file.**  What is shown is the stripped cues of the text exactly if every one of
    them is empty or has no empty line. -/
theorem setSubtitlesTrack_save_iff {text : List Char} (h : WellFormed text) :
    setSubtitlesTrack (save text) = strippedCues text ↔
      ∀ cue ∈ textCues text, Writable (removeTags cue.text) := by
  have hrange : ∀ c ∈ (textCues text).map (Cue.caption (some removeTags)), InRange c := by
    rw [List.forall_mem_map]
    exact fun cue hcue => timeLine?_range (times_of_mem_cues (by simp) cue hcue)
  have htext : ∀ c ∈ (textCues text).map (Cue.caption (some removeTags)), '\r' ∉ c.text := by
    rw [List.forall_mem_map]
    exact fun cue hcue => return_notMem_removeTags hcue
  have hparse : parse (some removeTags) text = strippedCues text := by
    rw [parse_eq, cues_of_wellFormed h, strippedCues]
  -- so the question is when writing and reading gives back the captions
  rw [setSubtitlesTrack, save, hparse, strippedCues, parse_write_iff hrange htext,
    List.forall_mem_map]
  rfl

/-- Two cues with tags inside their lines. -/
def taggedText : List Char :=
  "1\n00:00:01,000 --> 00:00:02,500\n<i>Hello</i>\n\n2\n00:00:03,000 --> 00:00:04,000\nA <b>B</b>\nC\n".toList

theorem setSubtitlesTrack_taggedText :
    setSubtitlesTrack (save taggedText) = strippedCues taggedText := by
  have h : WellFormed taggedText := by decide
  exact (setSubtitlesTrack_save_iff h).mpr (by decide)

/-- A cue whose tags have lines of their own. -/
def italicText : List Char :=
  "1\n00:00:01,000 --> 00:00:02,000\n<i>\nHello\n</i>\n\n".toList

/-- Stripped, the text of the cue begins with an empty line; it comes back empty. -/
theorem tags_on_own_line :
    WellFormed italicText ∧
      setSubtitlesTrack (save italicText) ≠ strippedCues italicText ∧
      strippedCues italicText = [(1, ⟨1000, 2000, "\nHello\n".toList⟩)] ∧
      setSubtitlesTrack (save italicText) = [(1, ⟨1000, 2000, []⟩)] := by
  decide

end SubtitlesFile

end PopcornTime.Android
