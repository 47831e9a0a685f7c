import Mathlib.Data.Int.Notation
import PopcornTime.Lib.TextLines

namespace PopcornTime.Android

open PopcornTime

/-!
# Android player — `SRTFormat`

The reader and the writer of `.srt` files.  A line with an arrow and two times begins a caption, an
empty line or the end of the text ends it; other lines outside a caption are skipped.

* `parse`, `write` — the two functions; a caption map is the list of its entries by key.
* `cues` — the captions of a list of lines, for any rule of what a line of times is, and
  `timeLine?`, the rule of well formed times.
* `parse_write_iff`, `parse_write` — what is written is read back exactly if no text has an empty
  line.
-/

/-- `Caption` -/
structure Caption where
  startMillis : ℤ
  endMillis : ℤ
  text : List Char
deriving DecidableEq, Repr

namespace SRTFormat

def BOM_UTF_8 : Char := '\uFEFF'

def TIME_DELIMITER : List Char := ['-', '-', '>']

/-! ### Strings -/

/-- `String.trim` -/
def trim (s : List Char) : List Char :=
  ((s.dropWhile (fun c => decide (c ≤ ' '))).reverse.dropWhile (fun c => decide (c ≤ ' '))).reverse

/-- The `char`s of a string. -/
def utf16 (s : List Char) : List ℕ :=
  s.flatMap fun c =>
    if c.toNat < 0x10000 then [c.toNat]
    else [0xD800 + (c.toNat - 0x10000) / 0x400, 0xDC00 + (c.toNat - 0x10000) % 0x400]

/-- The zeros of the decimal digits below `U+10000`. -/
def digitZeros : List ℕ :=
  [0x0030, 0x0660, 0x06F0, 0x07C0, 0x0966, 0x09E6, 0x0A66, 0x0AE6, 0x0B66, 0x0BE6, 0x0C66, 0x0CE6,
    0x0D66, 0x0DE6, 0x0E50, 0x0ED0, 0x0F20, 0x1040, 0x1090, 0x17E0, 0x1810, 0x1946, 0x19D0, 0x1A80,
    0x1A90, 0x1B50, 0x1BB0, 0x1C40, 0x1C50, 0xA620, 0xA8D0, 0xA900, 0xA9D0, 0xA9F0, 0xAA50, 0xABF0,
    0xFF10]

/-- `Character.digit` with radix 10; `none` is -1. -/
def digit (c : ℕ) : Option ℤ :=
  (digitZeros.find? fun z => decide (z ≤ c) && decide (c < z + 10)).map fun z : ℕ => (c : ℤ) - z

def parseDigits (s : List ℕ) : Option ℤ :=
  s.foldlM (fun n c => (digit c).map (n * 10 + ·)) 0

/-- `Integer.parseInt`; `none` is a `NumberFormatException`. -/
def parseInt : List ℕ → Option ℤ
  | [] => none
  | c :: rest =>
    if c = '-'.toNat then if rest = [] then none else (parseDigits rest).map Neg.neg
    else if c = '+'.toNat then if rest = [] then none else parseDigits rest
    else parseDigits (c :: rest)

/-- `String.substring` -/
def substring (s : List ℕ) (first last : ℕ) : List ℕ :=
  (s.take last).drop first

/-- The parts of a string between the arrows in it, behind the part before the first. -/
def splitArrow (part : List Char) : List Char → List (List Char)
  | [] => [part]
  | '-' :: '-' :: '>' :: rest => part :: splitArrow [] rest
  | c :: rest => splitArrow (part ++ [c]) rest

/-- `String.split` at the arrow: empty parts at the end are dropped. -/
def split (s : List Char) : List (List Char) :=
  ((splitArrow [] s).reverse.dropWhile List.isEmpty).reverse

/-- `String.contains` of the arrow. -/
def containsArrow : List Char → Bool
  | [] => false
  | c :: rest => TIME_DELIMITER.isPrefixOf (c :: rest) || containsArrow rest

/-! ### Reading -/

/-- `parseTime`; `none` is an `IllegalArgumentException`. -/
def parseTime (time : List Char) : Option ℤ :=
  let time := utf16 (trim time)
  if time.length ≠ 12 then none
  else do
    let h ← parseInt (substring time 0 2)
    let m ← parseInt (substring time 3 5)
    let s ← parseInt (substring time 6 8)
    let ms ← parseInt (substring time 9 12)
    return h * 3600000 + m * 60000 + s * 1000 + ms

/-- The times of a line that begins a caption. -/
def parseTimes (line : List Char) : Option (ℤ × ℤ) :=
  if containsArrow line then
    match split line with
    | [start, stop] => do
      let startMillis ← parseTime start
      let endMillis ← parseTime stop
      return (startMillis, endMillis)
    -- more than one arrow
    | _ => none
  else none

/-- The builder with a line more. -/
def appendLine (builder line : List Char) : List Char :=
  if builder = [] then line else builder ++ '\n' :: line

/-- `setText` and `build` -/
def buildCaption (formatter : Option (List Char → List Char)) (caption : Caption) : Caption :=
  { caption with text := formatter.elim caption.text (· caption.text) }

/-- The two loops of `parse`: the outer one, or, with a caption, the inner one that reads its
    text. -/
def parseLines (formatter : Option (List Char → List Char)) (index : ℕ) :
    Option Caption → List (List Char) → List (ℕ × Caption)
  | none, [] => []
  -- the end of the text ends a caption too
  | some caption, [] => [(index, buildCaption formatter caption)]
  | none, line :: rest =>
    match parseTimes line with
    -- a line without times is passed over, the number among them
    | none => parseLines formatter index none rest
    | some (start, stop) => parseLines formatter index (some ⟨start, stop, []⟩) rest
  | some caption, line :: rest =>
    if line = [] then
      (index, buildCaption formatter caption) :: parseLines formatter (index + 1) none rest
    else
      parseLines formatter index
        (some { caption with text := appendLine caption.text line }) rest

/-- The text behind a byte order mark. -/
def skipBom (text : List Char) : List Char :=
  if text.head? = some BOM_UTF_8 then text.tail else text

def parse (formatter : Option (List Char → List Char)) (text : List Char) : List (ℕ × Caption) :=
  parseLines formatter 1 none (readLines (skipBom text))

/-! ### Writing -/

/-- `%0nd` of a number; digits are printed as in `Locale.ROOT`. -/
def formatInt (width : ℕ) (n : ℤ) : List Char :=
  if n < 0 then '-' :: zeroPad (width - 1) n.natAbs else zeroPad width n.toNat

/-- `StringUtil.TIME_SRT_FORMAT` -/
def formatTime (h m s ms : ℤ) : List Char :=
  formatInt 2 h ++ [':'] ++ formatInt 2 m ++ [':'] ++ formatInt 2 s ++ [','] ++ formatInt 3 ms

/-- `StringUtil.millisToString`; no time is negative behind the test. -/
def millisToString (time : ℤ) : List Char :=
  if time < 1000 then formatTime 0 0 0 time
  else
    let millis := time % 1000
    let time := time / 1000
    let sec := time % 60
    let time := time / 60
    let min := time % 60
    let time := time / 60
    formatTime time min sec millis

/-- The line of times of a caption. -/
def timesToString (caption : Caption) : List Char :=
  millisToString caption.startMillis ++ ' ' :: TIME_DELIMITER ++ ' ' ::
    millisToString caption.endMillis

def writeCaption (entry : ℕ × Caption) : List Char :=
  Nat.toDigits 10 entry.1 ++ '\n' :: (timesToString entry.2 ++ '\n' ::
    (entry.2.text ++ ['\n', '\n']))

def write (captions : List (ℕ × Caption)) : List Char :=
  BOM_UTF_8 :: captions.flatMap writeCaption

/-! ### Cues -/

/-- A line of times and the lines of text behind it. -/
structure Cue where
  timeLine : List Char
  start : ℤ
  stop : ℤ
  lines : List (List Char)
deriving DecidableEq, Repr

/-- The text of a cue: its lines with line feeds between them. -/
def Cue.text (cue : Cue) : List Char :=
  ['\n'].intercalate cue.lines

/-- A cue as a caption. -/
def Cue.caption (formatter : Option (List Char → List Char)) (cue : Cue) : Caption :=
  buildCaption formatter ⟨cue.start, cue.stop, cue.text⟩

/-- The cues of a list of lines, where `times` says which lines are lines of times: behind such a
    line the lines up to the first empty one, or up to the end, are the text. -/
def cues (times : List Char → Option (ℤ × ℤ)) : Option Cue → List (List Char) → List Cue
  | none, [] => []
  | some cue, [] => [cue]
  | none, line :: rest =>
    match times line with
    | none => cues times none rest
    | some (start, stop) => cues times (some ⟨line, start, stop, []⟩) rest
  | some cue, line :: rest =>
    if line = [] then cue :: cues times none rest
    else cues times (some { cue with lines := cue.lines ++ [line] }) rest

/-- The captions with their keys, from `index` on. -/
def keyed (index : ℕ) : List Caption → List (ℕ × Caption)
  | [] => []
  | caption :: rest => (index, caption) :: keyed (index + 1) rest

@[simp] theorem keyed_nil {index : ℕ} : keyed index [] = [] := rfl

@[simp] theorem keyed_cons {index : ℕ} {caption : Caption} {rest : List Caption} :
    keyed index (caption :: rest) = (index, caption) :: keyed (index + 1) rest := rfl

/-- Keyed captions are the same if the captions are. -/
theorem keyed_inj {index : ℕ} {cs cs' : List Caption} :
    keyed index cs = keyed index cs' ↔ cs = cs' := by
  induction cs generalizing index cs' with
  | nil => cases cs' <;> simp
  | cons c cs ih => cases cs' <;> simp [ih]

/-- Lines that are not empty make a text that is not. -/
theorem intercalate_ne_nil {lines : List (List Char)} (hne : lines ≠ [])
    (hlines : ∀ line ∈ lines, line ≠ []) : ['\n'].intercalate lines ≠ [] := by
  cases lines with
  | nil => exact absurd rfl hne
  | cons line rest =>
    have hline := hlines line List.mem_cons_self
    cases rest with
    | nil => simpa using hline
    | cons next rest => simp [List.intercalate_cons_cons, hline]

/-- The last line stands behind a line feed. -/
theorem intercalate_concat {lines : List (List Char)} {line : List Char} (hne : lines ≠ []) :
    ['\n'].intercalate (lines ++ [line]) = ['\n'].intercalate lines ++ '\n' :: line := by
  induction lines with
  | nil => exact absurd rfl hne
  | cons first rest ih =>
    cases rest with
    -- one line: the separator is the new one
    | nil => simp [List.intercalate_cons_cons]
    | cons next rest =>
      have hrest := ih (by simp)
      rw [List.cons_append] at hrest
      rw [List.cons_append, List.cons_append, List.intercalate_cons_cons, hrest,
        List.intercalate_cons_cons]
      simp

/-- The builder holds the lines read so far. -/
theorem appendLine_inter {lines : List (List Char)} {line : List Char}
    (hlines : ∀ l ∈ lines, l ≠ []) :
    appendLine (['\n'].intercalate lines) line = ['\n'].intercalate (lines ++ [line]) := by
  by_cases hne : lines = []
  · simp [hne, appendLine]
  · rw [appendLine, if_neg (intercalate_ne_nil hne hlines), intercalate_concat hne]

/-- **The loops.**  What is parsed is the cues as captions, in order and numbered. -/
theorem parseLines_eq {formatter : Option (List Char → List Char)} {index : ℕ}
    {lines : List (List Char)} (cue : Option Cue) (hcue : ∀ c ∈ cue, ∀ l ∈ c.lines, l ≠ []) :
    parseLines formatter index (cue.map (Cue.caption none)) lines =
      keyed index ((cues parseTimes cue lines).map (Cue.caption formatter)) := by
  induction lines generalizing index cue with
  | nil => cases cue <;> rfl
  | cons line rest ih =>
    cases cue with
    | none =>
      rw [Option.map_none, parseLines, cues]
      cases parseTimes line with
      | none => exact ih none (by simp)
      | some times => exact ih (some ⟨line, times.1, times.2, []⟩) (by simp)
    | some cue =>
      have hlines := hcue cue rfl
      rw [Option.map_some, parseLines, cues]
      -- an empty line closes the caption, any other is appended to its text
      by_cases hline : line = []
      · rw [if_pos hline, if_pos hline, List.map_cons, keyed_cons]
        exact congrArg _ (ih none (by simp))
      · rw [if_neg hline, if_neg hline]
        have htext : appendLine (Cue.caption none cue).text line =
            Cue.text { cue with lines := cue.lines ++ [line] } :=
          appendLine_inter hlines
        rw [htext]
        refine ih (some { cue with lines := cue.lines ++ [line] }) ?_
        simpa [or_imp, forall_and] using ⟨hlines, hline⟩

/-- `parse`, by its cues. -/
theorem parse_eq {formatter : Option (List Char → List Char)} {text : List Char} :
    parse formatter text =
      keyed 1 ((cues parseTimes none (readLines (skipBom text))).map (Cue.caption formatter)) :=
  parseLines_eq none (by simp)

/-! ### Well formed times -/

/-- The number of a list of decimal digits. -/
def num (digits : List Char) : ℕ :=
  Nat.ofDigitChars 10 digits 0

/-- The milliseconds of `HH:MM:SS,mmm` with minutes and seconds below 60. -/
def clock? : List Char → Option ℤ
  | [h₁, h₂, ':', m₁, m₂, ':', s₁, s₂, ',', a, b, c] =>
    if [h₁, h₂, m₁, m₂, s₁, s₂, a, b, c].all Char.isDigit ∧ num [m₁, m₂] < 60 ∧
        num [s₁, s₂] < 60 then
      some (num [h₁, h₂] * 3600000 + num [m₁, m₂] * 60000 + num [s₁, s₂] * 1000 + num [a, b, c])
    else none
  | _ => none

/-- The times of a well formed line of times: two of them with an arrow between and blanks around. -/
def timeLine? (line : List Char) : Option (ℤ × ℤ) :=
  match splitArrow [] line with
  | [start, stop] => do return (← clock? (trim start), ← clock? (trim stop))
  | _ => none

/-- The codes of the decimal digits. -/
theorem toNat_of_isDigit {c : Char} (h : c.isDigit = true) : 48 ≤ c.toNat ∧ c.toNat ≤ 57 := by
  simpa [Char.isDigit, UInt32.le_iff_toNat_le] using h

/-- A decimal digit is its distance from `0`. -/
theorem digit_of_isDigit {c : Char} (h : c.isDigit = true) :
    digit c.toNat = some ((c.toNat - 48 : ℕ) : ℤ) := by
  have ⟨hlo, hhi⟩ := toNat_of_isDigit h
  have hfirst : (decide (0x0030 ≤ c.toNat) && decide (c.toNat < 0x0030 + 10)) = true := by
    simp; omega
  rw [digit, digitZeros, List.find?_cons, hfirst, Option.map_some]
  exact congrArg some (by omega)

/-- The loop of `parseInt` over decimal digits. -/
theorem foldlM_digits {cs : List Char} {n : ℕ} (h : cs.all Char.isDigit) :
    (cs.map Char.toNat).foldlM (fun n c => (digit c).map (n * 10 + ·)) (n : ℤ) =
      some (Nat.ofDigitChars 10 cs n : ℤ) := by
  induction cs generalizing n with
  | nil => simp
  | cons c cs ih =>
    rw [List.all_cons, Bool.and_eq_true] at h
    rw [List.map_cons, List.foldlM_cons, digit_of_isDigit h.1, Option.map_some,
      Nat.ofDigitChars_cons]
    have hstep : (n : ℤ) * 10 + (c.toNat - 48 : ℕ) = (10 * n + (c.toNat - 48) : ℕ) := by
      push_cast; omega
    exact hstep ▸ ih h.2

/-- So they are read as their number. -/
theorem parseDigits_digits {cs : List Char} (h : cs.all Char.isDigit) :
    parseDigits (cs.map Char.toNat) = some (num cs : ℤ) :=
  foldlM_digits (n := 0) h

/-- A number of decimal digits is read as such. -/
theorem parseInt_digits (c : Char) (cs : List Char) (h : (c :: cs).all Char.isDigit) :
    parseInt ((c :: cs).map Char.toNat) = some (num (c :: cs) : ℤ) := by
  have hdigits := parseDigits_digits h
  rw [List.all_cons, Bool.and_eq_true] at h
  have ⟨hlo, _⟩ := toNat_of_isDigit h.1
  -- a sign is below the digits
  have hminus : c.toNat ≠ '-'.toNat := by
    rw [show '-'.toNat = 45 from rfl]; omega
  have hplus : c.toNat ≠ '+'.toNat := by
    rw [show '+'.toNat = 43 from rfl]; omega
  rw [List.map_cons] at hdigits ⊢
  rw [parseInt, if_neg hminus, if_neg hplus, hdigits]

/-- A character below `U+10000` is one `char`. -/
theorem utf16_eq_map {s : List Char} (h : ∀ c ∈ s, c.toNat < 0x10000) :
    utf16 s = s.map Char.toNat := by
  induction s with
  | nil => rfl
  | cons c s ih =>
    rw [utf16, List.flatMap_cons, if_pos (h c List.mem_cons_self)]
    exact congrArg _ (ih fun c' hc' => h c' (List.mem_cons_of_mem _ hc'))

/-- A well formed time is read as it stands. -/
theorem parseTime_of_clock? {time : List Char} {t : ℤ} (h : clock? (trim time) = some t) :
    parseTime time = some t := by
  unfold clock? at h
  split at h
  case h_2 => cases h
  case h_1 h₁ h₂ m₁ m₂ s₁ s₂ a b c heq =>
    split_ifs at h with hclock
    obtain ⟨hall, -, -⟩ := hclock
    simp only [List.all_cons, List.all_nil, Bool.and_true, Bool.and_eq_true] at hall
    obtain ⟨hh₁, hh₂, hm₁, hm₂, hs₁, hs₂, ha, hb, hc⟩ := hall
    have hsmall : ∀ c : Char, c.isDigit = true → c.toNat < 0x10000 := fun c hc => by
      have := toNat_of_isDigit hc
      omega
    -- the code cuts by UTF-16 units, and here each character is one
    have hchars : ∀ x ∈ trim time, x.toNat < 0x10000 := by
      rw [heq]
      simp [hsmall _ hh₁, hsmall _ hh₂, hsmall _ hm₁, hsmall _ hm₂, hsmall _ hs₁, hsmall _ hs₂,
        hsmall _ ha, hsmall _ hb, hsmall _ hc]
    have hutf := utf16_eq_map hchars
    rw [heq] at hutf
    have hour := parseInt_digits h₁ [h₂] (by simp [hh₁, hh₂])
    have minute := parseInt_digits m₁ [m₂] (by simp [hm₁, hm₂])
    have second := parseInt_digits s₁ [s₂] (by simp [hs₁, hs₂])
    have milli := parseInt_digits a [b, c] (by simp [ha, hb, hc])
    simp only [List.map_cons, List.map_nil] at hour minute second milli
    rw [← h, parseTime, heq, hutf]
    simp [substring, hour, minute, second, milli]

/-- Without an arrow there is one part. -/
theorem splitArrow_of_not_contains {part line : List Char} (h : containsArrow line = false) :
    splitArrow part line = [part ++ line] := by
  induction part, line using splitArrow.induct with
  | case1 part => simp [splitArrow]
  | case2 part rest => simp [containsArrow, TIME_DELIMITER, List.isPrefixOf] at h
  | case3 part c rest harrow ih =>
    rw [containsArrow, Bool.or_eq_false_iff] at h
    rw [splitArrow, ih h.2]
    · simp
    · exact harrow

/-- A well formed line of times is read as it stands. -/
theorem parseTimes_of_timeLine? {line : List Char} {times : ℤ × ℤ}
    (h : timeLine? line = some times) : parseTimes line = some times := by
  unfold timeLine? at h
  split at h
  case h_2 => cases h
  case h_1 start stop hsplit =>
    obtain ⟨t₁, ht₁, h⟩ := Option.bind_eq_some_iff.mp h
    obtain ⟨t₂, ht₂, h⟩ := Option.bind_eq_some_iff.mp h
    have harrow : containsArrow line = true := by
      by_contra hno
      rw [splitArrow_of_not_contains (by simpa using hno)] at hsplit
      cases hsplit
    -- no part is empty, and none is dropped
    have hstop : stop ≠ [] := by
      rintro rfl
      cases ht₂
    have hparts : split line = [start, stop] := by
      have hfull : stop.isEmpty = false := by simpa using hstop
      simp [split, hsplit, hfull]
    rw [parseTimes, if_pos harrow, hparts]
    simp only [parseTime_of_clock? ht₁, parseTime_of_clock? ht₂]
    exact h

/-! ### Times written and read -/

/-- A natural number is printed with zeros in front. -/
theorem formatInt_ofNat {width n : ℕ} : formatInt width n = zeroPad width n := by
  rw [formatInt, if_neg (by omega), Int.toNat_natCast]

/-- Hours, minutes, seconds and milliseconds, also below a second. -/
theorem millisToString_eq {t : ℕ} :
    millisToString t =
      formatTime (t / 3600000 : ℕ) (t / 60000 % 60 : ℕ) (t / 1000 % 60 : ℕ) (t % 1000 : ℕ) := by
  unfold millisToString
  split_ifs with hsmall
  · -- the source has a branch of its own for times below a second
    have hh : t / 3600000 = 0 := by omega
    have hm : t / 60000 % 60 = 0 := by omega
    have hs : t / 1000 % 60 = 0 := by omega
    have hms : t % 1000 = t := by omega
    rw [hh, hm, hs, hms]
    rfl
  · have hh : (t : ℤ) / 1000 / 60 / 60 = (t / 3600000 : ℕ) := by omega
    have hm : (t : ℤ) / 1000 / 60 % 60 = (t / 60000 % 60 : ℕ) := by omega
    have hs : (t : ℤ) / 1000 % 60 = (t / 1000 % 60 : ℕ) := by omega
    have hms : (t : ℤ) % 1000 = (t % 1000 : ℕ) := by omega
    show formatTime ((t : ℤ) / 1000 / 60 / 60) ((t : ℤ) / 1000 / 60 % 60) ((t : ℤ) / 1000 % 60)
      ((t : ℤ) % 1000) = _
    rw [hh, hm, hs, hms]

/-- The twelve characters of a time below a hundred hours. -/
theorem millisToString_digits {t : ℕ} (ht : t < 360000000) :
    millisToString t =
      [(t / 3600000 / 10).digitChar, (t / 3600000 % 10).digitChar, ':',
        (t / 60000 % 60 / 10).digitChar, (t / 60000 % 60 % 10).digitChar, ':',
        (t / 1000 % 60 / 10).digitChar, (t / 1000 % 60 % 10).digitChar, ',',
        (t % 1000 / 100).digitChar, (t % 1000 / 10 % 10).digitChar, (t % 1000 % 10).digitChar] := by
  have hh : t / 3600000 < 100 := by omega
  have hm : t / 60000 % 60 < 100 := by omega
  have hs : t / 1000 % 60 < 100 := by omega
  have hms : t % 1000 < 1000 := by omega
  rw [millisToString_eq, formatTime]
  simp only [formatInt_ofNat, zeroPad_two hh, zeroPad_two hm, zeroPad_two hs, zeroPad_three hms]
  rfl

/-- Two digits of a number make it again. -/
theorem num_two {n : ℕ} (h : n < 100) :
    num [(n / 10).digitChar, (n % 10).digitChar] = n := by
  rw [num, Nat.ofDigitChars_cons_digitChar_of_lt_ten (by omega),
    Nat.ofDigitChars_cons_digitChar_of_lt_ten (by omega), Nat.ofDigitChars_nil]
  omega

/-- And so do three. -/
theorem num_three {n : ℕ} (h : n < 1000) :
    num [(n / 100).digitChar, (n / 10 % 10).digitChar, (n % 10).digitChar] = n := by
  rw [num, Nat.ofDigitChars_cons_digitChar_of_lt_ten (by omega),
    Nat.ofDigitChars_cons_digitChar_of_lt_ten (by omega),
    Nat.ofDigitChars_cons_digitChar_of_lt_ten (by omega), Nat.ofDigitChars_nil]
  omega

/-- A written time is well formed, and its own. -/
theorem clock?_millisToString {t : ℕ} (ht : t < 360000000) :
    clock? (millisToString t) = some (t : ℤ) := by
  have hms : t % 1000 < 1000 := by omega
  have hdigit : ∀ n, n < 10 → n.digitChar.isDigit = true := fun n hn => by
    simpa [Nat.isDigit_digitChar] using hn
  have hall : [(t / 3600000 / 10).digitChar, (t / 3600000 % 10).digitChar,
      (t / 60000 % 60 / 10).digitChar, (t / 60000 % 60 % 10).digitChar,
      (t / 1000 % 60 / 10).digitChar, (t / 1000 % 60 % 10).digitChar,
      (t % 1000 / 100).digitChar, (t % 1000 / 10 % 10).digitChar,
      (t % 1000 % 10).digitChar].all Char.isDigit = true := by
    simp only [List.all_cons, List.all_nil, Bool.and_true, Bool.and_eq_true]
    refine ⟨?_, ?_, ?_, ?_, ?_, ?_, ?_, ?_, ?_⟩ <;> exact hdigit _ (by omega)
  -- the eleven characters are matched, their fields are in range
  rw [millisToString_digits ht, clock?, num_two (n := t / 3600000) (by omega),
    num_two (n := t / 60000 % 60) (by omega), num_two (n := t / 1000 % 60) (by omega),
    num_three hms, if_pos ⟨hall, by omega, by omega⟩]
  exact congrArg some (by omega)

/-- A time consists of digits, colons and a comma. -/
theorem isDigit_of_mem_millisToString {t : ℕ} {c : Char} (h : c ∈ millisToString t) :
    c.isDigit = true ∨ c = ':' ∨ c = ',' := by
  rw [millisToString_eq, formatTime] at h
  simp only [formatInt_ofNat, List.mem_append, List.mem_singleton] at h
  rcases h with (((((h | h) | h) | h) | h) | h) | h
  all_goals first | exact .inr (.inl h) | exact .inr (.inr h) | exact .inl (isDigit_of_mem_zeroPad h)

/-- A time has no blank in it. -/
theorem blank_lt_of_mem_millisToString {t : ℕ} {c : Char} (h : c ∈ millisToString t) :
    ¬ c ≤ ' ' := by
  rcases isDigit_of_mem_millisToString h with hdigit | rfl | rfl
  · have hc := toNat_of_isDigit hdigit
    rw [Char.le_def, UInt32.le_iff_toNat_le, not_le]
    exact lt_of_lt_of_le (by decide) hc.1
  · decide
  · decide

/-- No arrow begins before the end of a text without dashes. -/
theorem splitArrow_append {part text rest : List Char} (h : '-' ∉ text) :
    splitArrow part (text ++ rest) = splitArrow (part ++ text) rest := by
  induction text generalizing part with
  | nil => simp
  | cons c text ih =>
    rw [List.mem_cons, not_or] at h
    rw [List.cons_append, splitArrow, ih h.2]
    · simp
    · rintro _ rfl
      exact absurd rfl h.1

/-- Behind a blank, or before one, a text without blanks is trimmed to itself. -/
theorem trim_blanks (left s right : List Char) (hs : ∀ c ∈ s, ¬ c ≤ ' ') (hne : s ≠ [])
    (hleft : ∀ c ∈ left, c ≤ ' ') (hright : ∀ c ∈ right, c ≤ ' ') :
    trim (left ++ s ++ right) = s := by
  have hdrop : ∀ blanks t rest : List Char, (∀ c ∈ blanks, c ≤ ' ') → (∀ c ∈ t, ¬ c ≤ ' ') →
      t ≠ [] → (blanks ++ (t ++ rest)).dropWhile (fun c => decide (c ≤ ' ')) = t ++ rest := by
    intro blanks t rest hblanks ht htne
    rw [List.dropWhile_append_of_pos (by simpa using hblanks)]
    cases t with
    | nil => exact absurd rfl htne
    | cons c t => exact List.dropWhile_cons_of_neg (by simpa using ht c List.mem_cons_self)
  -- once from the left and once, reversed, from the right
  rw [trim, List.append_assoc, hdrop _ _ _ hleft hs hne, List.reverse_append]
  have hback := hdrop right.reverse s.reverse []
    (by simpa using hright) (by simpa using hs) (by simpa using hne)
  rw [List.append_nil] at hback
  rw [hback, List.reverse_reverse]

/-- **A written line of times** is well formed, and its own. -/
theorem timeLine?_timesToString {start stop : ℕ} {text : List Char} (hstart : start < 360000000)
    (hstop : stop < 360000000) :
    timeLine? (timesToString ⟨start, stop, text⟩) = some ((start : ℤ), (stop : ℤ)) := by
  have hdash : ∀ t : ℕ, '-' ∉ millisToString t := fun t h => by
    rcases isDigit_of_mem_millisToString h with hd | hd | hd <;> simp [Char.isDigit] at hd
  have hne : ∀ t : ℕ, t < 360000000 → millisToString t ≠ [] := fun t ht h => by
    simp [millisToString_digits ht] at h
  -- no time holds a dash, so the arrow is the only place to split
  have hparts : splitArrow [] (timesToString ⟨start, stop, text⟩) =
      [millisToString start ++ [' '], ' ' :: millisToString stop] := by
    have hline : timesToString ⟨start, stop, text⟩ =
        (millisToString start ++ [' ']) ++ ('-' :: '-' :: '>' :: (' ' :: millisToString stop ++ [])) := by
      simp [timesToString, TIME_DELIMITER]
    rw [hline, splitArrow_append (by simpa using hdash start), List.nil_append, splitArrow,
      splitArrow_append (by simpa using hdash stop)]
    rfl
  have hleft := trim_blanks [] (millisToString start) [' ']
    (fun _ => blank_lt_of_mem_millisToString) (hne start hstart) (by simp) (by simp)
  have hright := trim_blanks [' '] (millisToString stop) []
    (fun _ => blank_lt_of_mem_millisToString) (hne stop hstop) (by simp) (by simp)
  rw [List.append_nil, List.singleton_append] at hright
  rw [List.nil_append] at hleft
  rw [timeLine?, hparts]
  simp only [hleft, hright, clock?_millisToString hstart, clock?_millisToString hstop]
  rfl

/-! ### Texts written and read -/

/-- An empty line ends a caption: a text has none, or is empty itself. -/
def Writable (text : List Char) : Prop :=
  text = [] ∨ ∀ line ∈ text.splitOn '\n', line ≠ []

instance {text : List Char} : Decidable (Writable text) :=
  inferInstanceAs (Decidable (_ ∨ _))

/-- A cue ends at the first empty line. -/
theorem cues_some {times : List Char → Option (ℤ × ℤ)} {cue : Cue} {parts rest : List (List Char)} :
    cues times (some cue) (parts ++ [] :: rest) =
      { cue with lines := cue.lines ++ parts.takeWhile (fun l => !l.isEmpty) } ::
        cues times none ((parts ++ [] :: rest).dropWhile (fun l => !l.isEmpty)).tail := by
  induction parts generalizing cue with
  | nil => simp [cues]
  | cons part parts ih =>
    rw [List.cons_append, cues]
    by_cases hpart : part = []
    · simp [hpart]
    · rw [if_neg hpart, ih]
      simp [hpart]

/-- A text without dashes has no arrow. -/
theorem not_containsArrow {line : List Char} (h : '-' ∉ line) : containsArrow line = false := by
  induction line with
  | nil => rfl
  | cons c line ih =>
    rw [List.mem_cons, not_or] at h
    have hc : ('-' == c) = false := by simpa using h.1
    simp [containsArrow, TIME_DELIMITER, List.isPrefixOf, hc, ih h.2]

/-- Times that are written with two digits of hours. -/
def InRange (caption : Caption) : Prop :=
  (0 ≤ caption.startMillis ∧ caption.startMillis < 360000000) ∧
    (0 ≤ caption.endMillis ∧ caption.endMillis < 360000000)

/-- The times of a caption in range are natural numbers. -/
theorem InRange.eq_natCast {caption : Caption} (h : InRange caption) :
    ∃ start stop : ℕ, start < 360000000 ∧ stop < 360000000 ∧
      caption = ⟨start, stop, caption.text⟩ := by
  obtain ⟨⟨hstart, hstart'⟩, hstop, hstop'⟩ := h
  refine ⟨caption.startMillis.toNat, caption.endMillis.toNat, by omega, by omega, ?_⟩
  rw [Int.toNat_of_nonneg hstart, Int.toNat_of_nonneg hstop]

/-- A digit ends no line. -/
theorem isLineEnd_of_isDigit {c : Char} (h : c.isDigit = true) : isLineEnd c = false := by
  by_contra hend
  simp only [isLineEnd, Bool.not_eq_false, Bool.or_eq_true, decide_eq_true_eq] at hend
  rcases hend with rfl | rfl <;> simp [Char.isDigit] at h

/-- Nor does anything else in a line of times. -/
theorem isLineEnd_of_mem_timesToString {start stop : ℕ} {text : List Char} {c : Char}
    (h : c ∈ timesToString ⟨start, stop, text⟩) : isLineEnd c = false := by
  have hmillis : ∀ t : ℕ, c ∈ millisToString t → isLineEnd c = false := fun t ht => by
    rcases isDigit_of_mem_millisToString ht with hdigit | rfl | rfl
    · exact isLineEnd_of_isDigit hdigit
    · decide
    · decide
  rw [timesToString] at h
  simp only [TIME_DELIMITER, List.mem_append, List.mem_cons, List.not_mem_nil, or_false] at h
  rcases h with (h | rfl | rfl | rfl | rfl) | rfl | h
  · exact hmillis start h
  · decide
  · decide
  · decide
  · decide
  · decide
  · exact hmillis stop h

/-- A line that is written is read. -/
theorem readLines_line {line rest : List Char} (h : ∀ c ∈ line, isLineEnd c = false) :
    readLines (line ++ '\n' :: rest) = line :: readLines rest := by
  have hcr : '\r' ∉ line := fun hmem => absurd (h _ hmem) (by decide)
  have hlf : '\n' ∉ line := fun hmem => absurd (h _ hmem) (by decide)
  rw [readLines_append hcr, List.splitOn_eq_singleton hlf]
  rfl

/-- The lines of a written caption: its key, its times, its text and an empty one. -/
theorem readLines_writeCaption {key : ℕ} {caption : Caption} {rest : List Char}
    (hrange : InRange caption) (htext : '\r' ∉ caption.text) :
    readLines (writeCaption (key, caption) ++ rest) =
      Nat.toDigits 10 key :: timesToString caption ::
        (caption.text.splitOn '\n' ++ [] :: readLines rest) := by
  have hkey : ∀ c ∈ Nat.toDigits 10 key, isLineEnd c = false := fun c hc =>
    isLineEnd_of_isDigit (Nat.isDigit_of_mem_toDigits (by decide) (by decide) hc)
  have htimes : ∀ c ∈ timesToString caption, isLineEnd c = false := fun c hc => by
    obtain ⟨start, stop, -, -, hcaption⟩ := hrange.eq_natCast
    rw [hcaption] at hc
    exact isLineEnd_of_mem_timesToString hc
  have hsplit : writeCaption (key, caption) ++ rest =
      Nat.toDigits 10 key ++ '\n' :: (timesToString caption ++
        '\n' :: (caption.text ++ '\n' :: '\n' :: rest)) := by
    simp [writeCaption]
  -- the key and the times are a line each; the text has its own line breaks
  rw [hsplit, readLines_line hkey, readLines_line htimes, readLines_append htext]
  rfl

/-- The cues of written captions are the captions exactly if their texts are written faithfully:
    the first text with an empty line comes back without what follows it. -/
theorem cues_write (key : ℕ) {captions : List Caption} (hrange : ∀ c ∈ captions, InRange c)
    (htext : ∀ c ∈ captions, '\r' ∉ c.text) :
    (cues parseTimes none (readLines ((keyed key captions).flatMap writeCaption))).map
        (Cue.caption none) = captions ↔ ∀ c ∈ captions, Writable c.text := by
  induction captions generalizing key with
  | nil => simp [cues]
  | cons caption rest ih =>
    have hkey : parseTimes (Nat.toDigits 10 key) = none := by
      have hdash : '-' ∉ Nat.toDigits 10 key := fun hmem =>
        absurd (Nat.isDigit_of_mem_toDigits (by decide) (by decide) hmem) (by decide)
      rw [parseTimes, if_neg (by simp [not_containsArrow hdash])]
    have htimes : parseTimes (timesToString caption) =
        some (caption.startMillis, caption.endMillis) := by
      obtain ⟨start, stop, hstart, hstop, hcaption⟩ := (hrange caption List.mem_cons_self).eq_natCast
      rw [hcaption]
      exact parseTimes_of_timeLine? (timeLine?_timesToString hstart hstop)
    have hrest := ih (key + 1) (fun c hc => hrange c (List.mem_cons_of_mem _ hc))
      (fun c hc => htext c (List.mem_cons_of_mem _ hc))
    rw [keyed_cons, List.flatMap_cons, readLines_writeCaption (hrange caption List.mem_cons_self)
      (htext caption List.mem_cons_self), cues, hkey]
    simp only
    rw [cues, htimes]
    simp only
    rw [cues_some, List.map_cons, List.cons.injEq, List.forall_mem_cons, ← hrest]
    have hhead : Cue.caption none ⟨timesToString caption, caption.startMillis, caption.endMillis,
        [] ++ (caption.text.splitOn '\n').takeWhile (fun l => !l.isEmpty)⟩ = caption ↔
        Writable caption.text := by
      rw [Writable, ← takeWhile_splitOn_inter]
      cases caption
      simp [Cue.caption, buildCaption, Cue.text]
    rw [hhead]
    refine and_congr_right fun hwritable => ?_
    -- behind a text that is written faithfully the next caption begins
    have htail : cues parseTimes none ((caption.text.splitOn '\n' ++ [] ::
        readLines ((keyed (key + 1) rest).flatMap writeCaption)).dropWhile
          (fun l => !l.isEmpty)).tail =
        cues parseTimes none (readLines ((keyed (key + 1) rest).flatMap writeCaption)) := by
      rcases hwritable with hnil | hfull
      · rw [hnil]
        rfl
      · rw [List.dropWhile_append_of_pos (by simpa using hfull)]
        rfl
    rw [htail]

/-- **Written and read.** -/
theorem parse_write_iff {captions : List Caption} (hrange : ∀ c ∈ captions, InRange c)
    (htext : ∀ c ∈ captions, '\r' ∉ c.text) :
    parse none (write (keyed 1 captions)) = keyed 1 captions ↔
      ∀ c ∈ captions, Writable c.text := by
  rw [parse_eq, keyed_inj, ← cues_write 1 hrange htext]
  rfl

/-- **The round trip.**  Captions come back from the file as they are if no text begins or ends with
    a line break, has an empty line or a carriage return. -/
theorem parse_write {captions : List Caption} (hrange : ∀ c ∈ captions, InRange c)
    (hcr : ∀ c ∈ captions, '\r' ∉ c.text)
    (hstart : ∀ c ∈ captions, c.text.head? ≠ some '\n')
    (hend : ∀ c ∈ captions, c.text.getLast? ≠ some '\n')
    (hinner : ∀ c ∈ captions, ¬['\n', '\n'] <:+: c.text) :
    parse none (write (keyed 1 captions)) = keyed 1 captions :=
  (parse_write_iff hrange hcr).mpr fun c hc =>
    splitOn_ne_nil_of_unbroken (hstart c hc) (hend c hc) (hinner c hc)

/-- Texts that look like a key and like a line of times, and an empty one. -/
theorem parse_write_threeCaptions :
    parse none (write (keyed 1 [⟨0, 999, ['2', '\n', '-', '-', '>']⟩, ⟨1000, 359999999, ['3']⟩,
        ⟨61001, 0, []⟩])) =
      keyed 1 [⟨0, 999, ['2', '\n', '-', '-', '>']⟩, ⟨1000, 359999999, ['3']⟩, ⟨61001, 0, []⟩] :=
  parse_write (by simp [InRange]) (by simp) (by simp) (by simp) (by decide)

end SRTFormat

end PopcornTime.Android
