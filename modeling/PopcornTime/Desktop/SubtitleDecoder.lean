import PopcornTime.Desktop.SubtitleBom

namespace PopcornTime.Desktop

open PopcornTime

/-!
# Desktop player — the encoding of a subtitle

`decodeToUtf8` and `match` of `SubtitleDecoder`.  Without a byte order mark all encodings of the
language are tried, then the common ones, then the data as it is, and the words of the language in
what comes out are counted.

* `SubtitleDecoder.tryCodecs` — the loop over the encodings; `tries` are the texts it comes by and
  `choose` is what it makes of them.
* `recoding_iff` — the recodings that keep the text, and what is returned if all do.
* `decodeToUtf8_iff` — when the best encoding is chosen.
-/

/-- A subtitle as far as the decoder reads it. -/
structure SubtitleItem where
  langAbbr : String
  language : String
  isCustom : Bool
  data : QByteArray

/-- The words Qt finds in a text in UTF-8; there are none in an empty one. -/
structure TextWords where
  words : QByteArray → List QString
  words_nil : words [] = []

/-- `SubtitleDecoder`, with the dictionaries of the languages; an unknown word counts nothing. -/
structure SubtitleDecoder where
  languageToEncoding : String → List String
  dictionary : String → Option (QString → Int16)
  text : TextWords

/-- `langAbbr` of `decodeToUtf8`. -/
def SubtitleItem.dictLang (item : SubtitleItem) : String :=
  if item.language = "Brazilian-portuguese" then "pt" else item.langAbbr

/-- One candidate: the data itself for an empty name. -/
def tryCodec (ic : Iconv) (memory : ℕ → UInt8) (codecName : String) (data temp : QByteArray) :
    Bool × QByteArray :=
  if codecName = "" then (true, data) else iconvRecodeToUtf8 ic memory codecName data temp

namespace SubtitleDecoder

/-- `match` -/
def matchVal (d : SubtitleDecoder) (langAbbr : String) (utf8Data : QByteArray) : ℤ :=
  match d.dictionary langAbbr with
  | none => -2
  | some dic =>
    (d.text.words utf8Data).foldl
      (fun result word => if 3 ≤ word.length then int32 (result + (dic word).toInt) else result) 0

/-- `codecNames` of `decodeToUtf8`. -/
def codecNames (d : SubtitleDecoder) (item : SubtitleItem) : List String :=
  d.languageToEncoding item.dictLang ++ d.languageToEncoding "all" ++ [""]

/-- The loop of `decodeToUtf8` and what follows it.  `temp` is the buffer all candidates share;
    `memory` is what is found in new parts of it, once for each candidate. -/
def tryCodecs (ic : Iconv) (d : SubtitleDecoder) (langAbbr : String) (data : QByteArray) :
    List String → (ℕ → ℕ → UInt8) → QByteArray → ℤ → QByteArray → QByteArray
  | [], _, _, _, bestData => if bestData.length ≠ 0 then bestData else data
  | codecName :: codecNames, memory, temp, bestScore, bestData =>
    let r := tryCodec ic (memory 0) codecName data temp
    if ¬r.1 then
      d.tryCodecs ic langAbbr data codecNames (fun i => memory (i + 1)) r.2 bestScore bestData
    else
      let matchVal := d.matchVal langAbbr r.2
      let best := if bestScore < matchVal then (matchVal, r.2) else (bestScore, bestData)
      -- no language to compare with: the first codec that converts is taken
      if matchVal = -2 then r.2
      else d.tryCodecs ic langAbbr data codecNames (fun i => memory (i + 1)) r.2 best.1 best.2

/-- `decodeToUtf8` -/
def decodeToUtf8 (d : SubtitleDecoder) (ic : Iconv) (memory : ℕ → ℕ → UInt8)
    (item : SubtitleItem) : QByteArray :=
  if (d.codecNames item).length = 0 ∨ item.isCustom then item.data
  else
    let temp := decodeByBom ic (memory 0) item.data
    if temp.length ≠ 0 then temp
    else
      d.tryCodecs ic item.dictLang item.data (d.codecNames item) (fun i => memory (i + 1)) temp 0 []

end SubtitleDecoder

/-! ### The texts that are tried -/

/-- What the candidates that can be recoded leave in `temp`, in their order. -/
def tries (ic : Iconv) (data : QByteArray) :
    List String → (ℕ → ℕ → UInt8) → QByteArray → List QByteArray
  | [], _, _ => []
  | codecName :: codecNames, memory, temp =>
    let r := tryCodec ic (memory 0) codecName data temp
    if r.1 then r.2 :: tries ic data codecNames (fun i => memory (i + 1)) r.2
    else tries ic data codecNames (fun i => memory (i + 1)) r.2

/-- The choice among the texts: the best score so far, and the first text with the score `-2` at
    once. -/
def choose (score : QByteArray → ℤ) (data : QByteArray) :
    List QByteArray → ℤ → QByteArray → QByteArray
  | [], _, bestData => if bestData.length ≠ 0 then bestData else data
  | temp :: temps, bestScore, bestData =>
    let best := if bestScore < score temp then (score temp, temp) else (bestScore, bestData)
    if score temp = -2 then temp else choose score data temps best.1 best.2

theorem SubtitleDecoder.tryCodecs_eq (ic : Iconv) (d : SubtitleDecoder) (langAbbr : String)
    (data : QByteArray) (codecNames : List String) (memory : ℕ → ℕ → UInt8) (temp : QByteArray)
    (bestScore : ℤ) (bestData : QByteArray) :
    d.tryCodecs ic langAbbr data codecNames memory temp bestScore bestData =
      choose (d.matchVal langAbbr) data (tries ic data codecNames memory temp) bestScore
        bestData := by
  induction codecNames generalizing memory temp bestScore bestData with
  | nil => rfl
  | cons codecName codecNames ih =>
    unfold SubtitleDecoder.tryCodecs tries
    dsimp only
    by_cases hr : (tryCodec ic (memory 0) codecName data temp).1 = true
    · rw [if_neg (not_not.mpr hr), if_pos hr, choose]
      by_cases hscore : d.matchVal langAbbr (tryCodec ic (memory 0) codecName data temp).2 = -2
      · rw [if_pos hscore, if_pos hscore]
      · rw [if_neg hscore, if_neg hscore]
        exact ih _ _ _ _
    · rw [if_pos hr, if_neg hr]
      exact ih _ _ _ _

section Choose

variable {score : QByteArray → ℤ} {data : QByteArray} {temps : List QByteArray} {bestScore : ℤ}
  {bestData : QByteArray}

/-- Without the score `-2` the choice is a pass for the maximum: `bestScore` is the score of
    `bestData` all along. -/
theorem choose_eq_scanMax (h : ∀ temp ∈ temps, score temp ≠ -2) (hbest : bestScore = score bestData) :
    choose score data temps bestScore bestData =
      if (scanMax score temps bestData).length ≠ 0 then scanMax score temps bestData else data := by
  induction temps generalizing bestScore bestData with
  | nil => rfl
  | cons temp temps ih =>
    have hrest := fun temp' h' => h temp' (List.mem_cons_of_mem _ h')
    rw [choose, scanMax, hbest]
    rw [if_neg (h temp List.mem_cons_self)]
    by_cases hlt : score bestData < score temp
    · rw [if_pos hlt, if_pos hlt]
      exact ih hrest rfl
    · rw [if_neg hlt, if_neg hlt]
      exact ih hrest rfl

/-- The first text with the score `-2` is taken. -/
theorem choose_of_sentinel {temp : QByteArray}
    (h : temps.find? (fun temp => decide (score temp = -2)) = some temp) :
    choose score data temps bestScore bestData = temp := by
  induction temps generalizing bestScore bestData with
  | nil => exact absurd h (by simp)
  | cons temp' temps ih =>
    rw [choose]
    by_cases hscore : score temp' = -2
    · rw [List.find?_cons_of_pos (by simpa using hscore)] at h
      rw [if_pos hscore]
      exact Option.some.inj h
    · rw [List.find?_cons_of_neg (by simpa using hscore)] at h
      rw [if_neg hscore]
      exact ih h

/-- What is chosen is the data, one of the texts, or the best of before if that is not empty. -/
theorem choose_mem (score : QByteArray → ℤ) (data : QByteArray) (temps : List QByteArray)
    (bestScore : ℤ) (bestData : QByteArray) :
    choose score data temps bestScore bestData ∈ data :: temps ∨
      (choose score data temps bestScore bestData = bestData ∧ bestData ≠ []) := by
  induction temps generalizing bestScore bestData with
  | nil =>
    rw [choose]
    split_ifs with hlen
    · exact Or.inr ⟨rfl, List.ne_nil_of_length_pos (Nat.pos_of_ne_zero hlen)⟩
    · exact Or.inl (by simp)
  | cons temp temps ih =>
    rw [choose]
    by_cases hscore : score temp = -2
    · rw [if_pos hscore]
      exact Or.inl (by simp)
    · rw [if_neg hscore]
      split_ifs with hlt
      · rcases ih (score temp) temp with h | h
        · exact Or.inl (by simp only [List.mem_cons] at h ⊢; tauto)
        · exact Or.inl (by rw [h.1]; simp)
      · rcases ih bestScore bestData with h | h
        · exact Or.inl (by simp only [List.mem_cons] at h ⊢; tauto)
        · exact Or.inr h

end Choose

/-! ### Where every recoding keeps the text -/

instance (ic : Iconv) (codec : String) (src : QByteArray) : Decidable (ic.Accepts codec src) :=
  inferInstanceAs (Decidable (_ ∧ _))

/-- A source that is converted, and whose text comes out of the buffer as it is. -/
def Iconv.Keeps (ic : Iconv) (codec : String) (src : QByteArray) : Prop :=
  ic.Converts codec src ∧ 0 < src.length ∧ 2 * (ic.text codec src).length = 5 * src.length

/-- The full text of a candidate, if it can be recoded. -/
def fullText (ic : Iconv) (data : QByteArray) (codecName : String) : Option QByteArray :=
  if codecName = "" then some data
  else if ic.Accepts codecName data then some (ic.text codecName data)
  else none

section Keeps

variable {ic : Iconv} {memory : ℕ → UInt8} {codec : String} {data temp : QByteArray}

theorem iconvRecodeToUtf8_of_not_accepts (h : ¬ic.Accepts codec data) :
    (iconvRecodeToUtf8 ic memory codec data temp).1 = false := by
  rw [← Bool.not_eq_true, iconvRecodeToUtf8_fst]
  exact fun hacc => h hacc.1

/-- What is tried are then the full texts: nothing is left of the buffer of another candidate, nor of
    what is found in memory. -/
theorem tries_eq_fullTexts (codecNames : List String)
    (h : ∀ codec ∈ codecNames, codec ≠ "" → ic.Accepts codec data → ic.Keeps codec data)
    (memory : ℕ → ℕ → UInt8) (temp : QByteArray) :
    tries ic data codecNames memory temp = codecNames.filterMap (fullText ic data) := by
  induction codecNames generalizing memory temp with
  | nil => rfl
  | cons codec codecNames ih =>
    have hrest := ih fun codec' h' => h codec' (List.mem_cons_of_mem _ h')
    rw [tries]
    by_cases hraw : codec = ""
    · have hfull : fullText ic data codec = some data := if_pos hraw
      rw [tryCodec, if_pos hraw, if_pos rfl, List.filterMap_cons_some hfull, hrest]
    · rw [tryCodec, if_neg hraw]
      by_cases hacc : ic.Accepts codec data
      · have hkeeps := h codec List.mem_cons_self hraw hacc
        have hfull : fullText ic data codec = some (ic.text codec data) := by
          rw [fullText, if_neg hraw, if_pos hacc]
        rw [(iconvRecodeToUtf8_iff hkeeps.1).mpr hkeeps.2, if_pos rfl,
          List.filterMap_cons_some hfull, hrest]
      · have hfull : fullText ic data codec = none := by
          rw [fullText, if_neg hraw, if_neg hacc]
        rw [if_neg (by rw [iconvRecodeToUtf8_of_not_accepts hacc]; simp),
          List.filterMap_cons_none hfull, hrest]

theorem recoded_eq_text (h : ic.Accepts codec data → ic.Keeps codec data) :
    recoded ic memory codec data = if ic.Accepts codec data then ic.text codec data else [] := by
  unfold recoded
  by_cases hacc : ic.Accepts codec data
  · rw [(iconvRecodeToUtf8_iff (h hacc).1).mpr (h hacc).2, if_pos rfl, if_pos hacc]
  · rw [if_neg (by rw [iconvRecodeToUtf8_of_not_accepts hacc]; simp), if_neg hacc]

/-- What the byte order mark yields, if anything, is the data or the full text of an encoding. -/
theorem decodeByBom_of_keeps (memory : ℕ → UInt8)
    (h : ∀ e ∈ bomTable, ic.Accepts e.2 data → ic.Keeps e.2 data) :
    decodeByBom ic memory data =
      match firstMatch bomTable data with
      | none => []
      | some e =>
        if e.2 = "UTF-8" then data else if ic.Accepts e.2 data then ic.text e.2 data else [] := by
  rw [decodeByBom_eq]
  cases hfirst : firstMatch bomTable data with
  | none => rfl
  | some e =>
    dsimp only
    by_cases hutf8 : e.2 = "UTF-8"
    · rw [if_pos hutf8]
      exact if_pos hutf8
    · rw [if_neg hutf8, decodeByMark_of_ne _ _ _ hutf8,
        recoded_eq_text (h e (firstMatch_spec hfirst).1)]

end Keeps

namespace SubtitleDecoder

variable (d : SubtitleDecoder) (ic : Iconv) (item : SubtitleItem)

/-- The encodings a subtitle can be recoded from: the candidates of its language and those of a byte
    order mark. -/
def candidates : List String := d.codecNames item ++ bomTable.map (·.2)

theorem decodeToUtf8_of_custom (memory : ℕ → ℕ → UInt8) (h : item.isCustom = true) :
    d.decodeToUtf8 ic memory item = item.data :=
  if_pos (Or.inr h)

/-- The texts that are tried for a subtitle without a byte order mark. -/
def itemTries (memory : ℕ → ℕ → UInt8) : List QByteArray :=
  tries ic item.data (d.codecNames item) (fun i => memory (i + 1)) []

theorem decodeToUtf8_of_not_custom (memory : ℕ → ℕ → UInt8) (h : item.isCustom = false) :
    d.decodeToUtf8 ic memory item =
      if decodeByBom ic (memory 0) item.data ≠ [] then decodeByBom ic (memory 0) item.data
      else choose (d.matchVal item.dictLang) item.data (d.itemTries ic item memory) 0 [] := by
  have hcodecs : ¬((d.codecNames item).length = 0 ∨ item.isCustom = true) := by
    unfold codecNames
    simp [h]
  rw [decodeToUtf8, if_neg hcodecs]
  dsimp only
  by_cases hbom : decodeByBom ic (memory 0) item.data = []
  · rw [hbom, if_neg (by simp), if_neg (by simp), tryCodecs_eq]
    rfl
  · rw [if_pos hbom, if_pos (by simpa using hbom)]

/-- The data, or the full text of a candidate. -/
def FullResult (result : QByteArray) : Prop :=
  result = item.data ∨ ∃ codec ∈ d.candidates item, ic.Accepts codec item.data ∧
    result = ic.text codec item.data

/-- What a byte order mark yields, if anything. -/
theorem fullResult_decodeByBom (memory : ℕ → UInt8)
    (h : ∀ e ∈ bomTable, ic.Accepts e.2 item.data → ic.Keeps e.2 item.data)
    (hne : decodeByBom ic memory item.data ≠ []) :
    d.FullResult ic item (decodeByBom ic memory item.data) := by
  rw [decodeByBom_of_keeps memory h] at hne ⊢
  cases hfirst : firstMatch bomTable item.data with
  | none => exact absurd (by rw [hfirst]) hne
  | some e =>
    rw [hfirst] at hne
    dsimp only at hne ⊢
    split_ifs at hne ⊢ with hutf8 hacc
    · exact Or.inl rfl
    · exact Or.inr ⟨e.2, List.mem_append_right _
        (List.mem_map_of_mem (firstMatch_spec hfirst).1), hacc, rfl⟩
    · exact absurd rfl hne

/-- What is chosen of the full texts. -/
theorem fullResult_choose (score : QByteArray → ℤ) :
    d.FullResult ic item (choose score item.data
      ((d.codecNames item).filterMap (fullText ic item.data)) 0 []) := by
  rcases choose_mem score item.data
    ((d.codecNames item).filterMap (fullText ic item.data)) 0 [] with hmem | hbest
  · rcases List.mem_cons.mp hmem with heq | hmem
    · exact Or.inl heq
    · obtain ⟨codec, hcodec, hfull⟩ := List.mem_filterMap.mp hmem
      unfold fullText at hfull
      split_ifs at hfull with hraw hacc
      · exact Or.inl (Option.some.inj hfull).symm
      · exact Or.inr ⟨codec, List.mem_append_left _ hcodec, hacc, (Option.some.inj hfull).symm⟩
  · exact absurd rfl hbest.2

/-- If every recoding keeps the text, the result is the data or the full text of a candidate, whatever
    is found in memory. -/
theorem decodeToUtf8_of_keeps
    (h : ∀ codec ∈ d.candidates item, codec ≠ "" → ic.Accepts codec item.data →
      ic.Keeps codec item.data) :
    ∃ result, (∀ memory, d.decodeToUtf8 ic memory item = result) ∧
      d.FullResult ic item result := by
  have hcodecs : ∀ codec ∈ d.codecNames item, codec ≠ "" → ic.Accepts codec item.data →
      ic.Keeps codec item.data := fun codec hmem => h codec (List.mem_append_left _ hmem)
  have hnamed : ∀ e ∈ bomTable, e.2 ≠ "" := by decide
  have hboms : ∀ e ∈ bomTable, ic.Accepts e.2 item.data → ic.Keeps e.2 item.data :=
    fun e he => h e.2 (List.mem_append_right _ (List.mem_map_of_mem he)) (hnamed e he)
  cases hcustom : item.isCustom with
  | true =>
    exact ⟨item.data, fun memory => d.decodeToUtf8_of_custom ic item memory hcustom, Or.inl rfl⟩
  | false =>
    -- neither the mark nor the tries depend on memory
    have hbom := fun memory => decodeByBom_of_keeps memory hboms
    by_cases hnil : decodeByBom ic (fun _ => 0) item.data = []
    · refine ⟨_, fun memory => ?_, d.fullResult_choose ic item (d.matchVal item.dictLang)⟩
      rw [decodeToUtf8_of_not_custom _ _ _ _ hcustom, hbom, ← hbom fun _ => 0, hnil,
        if_neg (by simp), itemTries, tries_eq_fullTexts _ hcodecs]
    · refine ⟨_, fun memory => ?_, d.fullResult_decodeByBom ic item _ hboms hnil⟩
      rw [decodeToUtf8_of_not_custom _ _ _ _ hcustom, hbom (memory 0), ← hbom fun _ => 0,
        if_pos hnil]

/-- **Recoding.**  Of every source that `iconv` converts, exactly the full text is left in `dst` if it
    is half as long as the buffer, and that of no other one.  If this is so for all candidates of a
    subtitle, what is returned is the data or the full text of a candidate, and nothing that a
    recoding has left behind. -/
theorem recoding_iff (ic : Iconv) (memory : ℕ → UInt8) (codec : String) (src dst : QByteArray)
    (h : ic.Converts codec src) :
    (iconvRecodeToUtf8 ic memory codec src dst = (true, ic.text codec src) ↔
        0 < src.length ∧ 2 * (ic.text codec src).length = 5 * src.length) ∧
      ∀ (d : SubtitleDecoder) (item : SubtitleItem),
        (∀ codec ∈ d.candidates item, codec ≠ "" → ic.Accepts codec item.data →
          ic.Keeps codec item.data) →
        ∃ result, (∀ memory, d.decodeToUtf8 ic memory item = result) ∧
          d.FullResult ic item result :=
  ⟨iconvRecodeToUtf8_iff h, fun d item => d.decodeToUtf8_of_keeps ic item⟩

end SubtitleDecoder

/-- A byte of the code page 1251, as far as the samples have it, in UTF-8. -/
def cp1251Utf8 (b : UInt8) : QByteArray :=
  if b = 0xB9 then [0xE2, 0x84, 0x96] else if b = 0xFF then [0xD1, 0x8F] else [b]

/-- An `iconv` with this code page only; it fails where there is no room for all of the text. -/
def cp1251 : Iconv where
  opens := fun codec => decide (codec = "CP1251")
  convert := fun _ src outb =>
    (if (src.flatMap cp1251Utf8).length ≤ outb then 0 else -1, (src.flatMap cp1251Utf8).take outb)
  length_le := fun _ _ _ => List.length_take_le _ _

/-- Five bytes for two come out as they are. -/
theorem recoding_iff_cp1251 :
    iconvRecodeToUtf8 cp1251 (fun _ => 0) "CP1251" [0xB9, 0xFF] [] =
      (true, [0xE2, 0x84, 0x96, 0xD1, 0x8F]) := by
  have h : cp1251.Converts "CP1251" [0xB9, 0xFF] :=
    ⟨by decide +kernel, by decide +kernel, by decide +kernel⟩
  exact (SubtitleDecoder.recoding_iff cp1251 (fun _ => 0) "CP1251" [0xB9, 0xFF] [] h).1.mpr
    ⟨by decide, by decide +kernel⟩

/-- Two bytes for two come out with six bytes of memory behind them, and of three bytes for one the
    last is cut off. -/
theorem recoding_wrong :
    (cp1251.Converts "CP1251" [0x48, 0x69] ∧ cp1251.text "CP1251" [0x48, 0x69] = [0x48, 0x69] ∧
      iconvRecodeToUtf8 cp1251 (fun _ => 0x2A) "CP1251" [0x48, 0x69] [] =
        (true, [0x48, 0x69, 0x2A, 0x2A, 0x2A, 0x2A, 0x2A, 0x2A])) ∧
    cp1251.Converts "CP1251" [0xB9] ∧ cp1251.text "CP1251" [0xB9] = [0xE2, 0x84, 0x96] ∧
      iconvRecodeToUtf8 cp1251 (fun _ => 0x2A) "CP1251" [0xB9] [] = (true, [0xE2, 0x84]) :=
  ⟨⟨⟨by decide +kernel, by decide +kernel, by decide +kernel⟩, by decide +kernel, by decide +kernel⟩,
    ⟨by decide +kernel, by decide +kernel, by decide +kernel⟩, by decide +kernel, by decide +kernel⟩

/-! ### The choice of the encoding -/

namespace SubtitleDecoder

variable (d : SubtitleDecoder) (langAbbr : String) (data : QByteArray)

/-- What should be returned of the texts that are tried: the first of the best score if that is
    positive, else the data; without a dictionary the first one. -/
def EncodingChosen (temps : List QByteArray) (result : QByteArray) : Prop :=
  (d.dictionary langAbbr = none → temps.head? = some result) ∧
    (d.dictionary langAbbr ≠ none →
      (∃ temp, IsFirstMax (d.matchVal langAbbr) temps temp ∧ 0 < d.matchVal langAbbr temp ∧
          result = temp) ∨
        ((∀ temp ∈ temps, d.matchVal langAbbr temp ≤ 0) ∧ result = data))

/-- No text has the score that stands for a missing dictionary; or no text has a positive score, and
    the first one with that score is the data. -/
def SentinelHarmless (temps : List QByteArray) : Prop :=
  (∀ temp ∈ temps, d.matchVal langAbbr temp ≠ -2) ∨
    ((∀ temp ∈ temps, d.matchVal langAbbr temp ≤ 0) ∧
      temps.find? (fun temp => decide (d.matchVal langAbbr temp = -2)) = some data)

variable {d langAbbr data} {temps : List QByteArray}

theorem matchVal_of_none (h : d.dictionary langAbbr = none) (temp : QByteArray) :
    d.matchVal langAbbr temp = -2 := by
  rw [matchVal, h]

theorem matchVal_nil (h : d.dictionary langAbbr ≠ none) : d.matchVal langAbbr [] = 0 := by
  cases hdic : d.dictionary langAbbr with
  | none => exact absurd hdic h
  | some dic =>
    rw [matchVal, hdic]
    dsimp only
    rw [d.text.words_nil, List.foldl_nil]

/-- Without the score `-2` the right text is chosen: the pass starts with an empty one of score
    zero. -/
theorem encodingChosen_of_ne (hdic : d.dictionary langAbbr ≠ none)
    (h : ∀ temp ∈ temps, d.matchVal langAbbr temp ≠ -2) :
    d.EncodingChosen langAbbr data temps (choose (d.matchVal langAbbr) data temps 0 []) := by
  have hnil := matchVal_nil hdic
  refine ⟨fun hnone => absurd hnone hdic, fun _ => ?_⟩
  rw [choose_eq_scanMax h hnil.symm]
  rcases isFirstMax_cons.mp (isFirstMax_scanMax (d.matchVal langAbbr) temps []) with
    ⟨hempty, hmax⟩ | ⟨hmax, hpos⟩
  · rw [hempty, if_neg (by simp)]
    exact Or.inr ⟨fun temp htemp => hnil ▸ hmax temp htemp, rfl⟩
  · -- a positive score is not that of an empty text
    rw [hnil] at hpos
    have hne : (scanMax (d.matchVal langAbbr) temps []).length ≠ 0 := by
      rw [ne_eq, List.length_eq_zero_iff]
      intro hempty
      rw [hempty, hnil] at hpos
      exact absurd hpos (lt_irrefl _)
    rw [if_pos hne]
    exact Or.inl ⟨_, hmax, hpos, rfl⟩

/-- **The choice** among the texts. -/
theorem encodingChosen_iff (htemps : temps ≠ []) :
    d.EncodingChosen langAbbr data temps (choose (d.matchVal langAbbr) data temps 0 []) ↔
      d.dictionary langAbbr = none ∨ d.SentinelHarmless langAbbr data temps := by
  by_cases hdic : d.dictionary langAbbr = none
  · refine iff_of_true ⟨fun _ => ?_, fun h => absurd hdic h⟩ (Or.inl hdic)
    cases temps with
    | nil => exact absurd rfl htemps
    | cons temp temps =>
      rw [choose_of_sentinel (List.find?_cons_of_pos (by simp [matchVal_of_none hdic]))]
      rfl
  rw [or_iff_right hdic, SentinelHarmless]
  by_cases hall : ∀ temp ∈ temps, d.matchVal langAbbr temp ≠ -2
  · exact iff_of_true (encodingChosen_of_ne hdic hall) (Or.inl hall)
  rw [or_iff_right hall]
  -- the first text with the score `-2` is returned
  obtain ⟨temp, hfind⟩ : ∃ temp,
      temps.find? (fun temp => decide (d.matchVal langAbbr temp = -2)) = some temp := by
    rw [← Option.isSome_iff_exists, List.find?_isSome]
    push Not at hall
    simpa using hall
  have hscore : d.matchVal langAbbr temp = -2 := by simpa using List.find?_some hfind
  rw [choose_of_sentinel hfind, hfind, Option.some.injEq]
  constructor
  · rintro ⟨-, h⟩
    rcases h hdic with ⟨temp', -, hpos, rfl⟩ | h
    · omega
    · exact h
  · intro h
    exact ⟨fun hnone => absurd hnone hdic, fun _ => Or.inr h⟩

/-- There is one right result. -/
theorem EncodingChosen.unique {result result' : QByteArray}
    (h : d.EncodingChosen langAbbr data temps result)
    (h' : d.EncodingChosen langAbbr data temps result') : result = result' := by
  by_cases hdic : d.dictionary langAbbr = none
  · exact Option.some.inj ((h.1 hdic).symm.trans (h'.1 hdic))
  rcases h.2 hdic with ⟨temp, hmax, hpos, rfl⟩ | ⟨hle, rfl⟩
  · rcases h'.2 hdic with ⟨temp', hmax', -, rfl⟩ | ⟨hle', -⟩
    · exact hmax.unique hmax'
    · exact absurd hpos (not_lt.mpr (hle' _ hmax.mem))
  · rcases h'.2 hdic with ⟨temp', hmax', hpos', -⟩ | ⟨-, rfl⟩
    · exact absurd hpos' (not_lt.mpr (hle _ hmax'.mem))
    · rfl

/-- The data itself can always be tried. -/
theorem tries_ne_nil {ic : Iconv} {codecNames : List String} (h : "" ∈ codecNames)
    (memory : ℕ → ℕ → UInt8) (temp : QByteArray) : tries ic data codecNames memory temp ≠ [] := by
  induction codecNames generalizing memory temp with
  | nil => exact absurd h (by simp)
  | cons codec codecNames ih =>
    rw [tries]
    by_cases hraw : codec = ""
    · rw [tryCodec, if_pos hraw, if_pos rfl]
      exact List.cons_ne_nil _ _
    · have hrest := ih ((List.mem_cons.mp h).resolve_left fun heq => hraw heq.symm)
      split_ifs
      · exact List.cons_ne_nil _ _
      · exact hrest _ _

/-- **The encoding.**  For every subtitle that is not custom and has no byte order mark, the right text
    of those that are tried is returned exactly if there is no dictionary, or the score `-2` does no
    harm.  The texts that are tried are the full ones where every recoding keeps them. -/
theorem decodeToUtf8_iff (d : SubtitleDecoder) (ic : Iconv) (memory : ℕ → ℕ → UInt8)
    (item : SubtitleItem) (hcustom : item.isCustom = false)
    (hbom : ∀ e ∈ bomTable, ¬e.1 <+: item.data) :
    (d.EncodingChosen item.dictLang item.data (d.itemTries ic item memory)
        (d.decodeToUtf8 ic memory item) ↔
      d.dictionary item.dictLang = none ∨
        d.SentinelHarmless item.dictLang item.data (d.itemTries ic item memory)) ∧
    ((∀ codec ∈ d.codecNames item, codec ≠ "" → ic.Accepts codec item.data →
        ic.Keeps codec item.data) →
      d.itemTries ic item memory =
        (d.codecNames item).filterMap (fullText ic item.data)) := by
  have hnil : decodeByBom ic (memory 0) item.data = [] := by
    rw [decodeByBom_eq, firstMatch_eq_none.mpr hbom]
    rfl
  have hraw : "" ∈ d.codecNames item := by
    unfold codecNames
    simp
  refine ⟨?_, fun h => tries_eq_fullTexts _ h _ _⟩
  rw [decodeToUtf8_of_not_custom _ _ _ _ hcustom, hnil, if_neg (by simp)]
  exact encodingChosen_iff (tries_ne_nil hraw _ _)

end SubtitleDecoder

/-- The words of Cyrillic letters in a text. -/
def cyrillicWords : TextWords where
  words := fun utf8Data =>
    ((convertToUnicode 0 utf8Data).splitOnP fun u => !decide (0x0400 ≤ u ∧ u < 0x0500)).filter
      fun word => decide (word ≠ [])
  words_nil := rfl

/-- A decoder with one encoding, and a dictionary of one word with its count. -/
def russianDecoder (count : Int16) : SubtitleDecoder where
  languageToEncoding := fun langAbbr => if langAbbr = "ru" then ["CP1251"] else []
  dictionary := fun langAbbr =>
    if langAbbr = "ru" then some fun word => if word = [0x44F, 0x44F, 0x44F] then count else 0
    else none
  text := cyrillicWords

/-- The word behind three number signs. -/
def russianItem : SubtitleItem where
  langAbbr := "ru"
  language := "Russian"
  isCustom := false
  data := [0xB9, 0xB9, 0xB9, 0xFF, 0xFF, 0xFF]

namespace SubtitleDecoder

/-- With a positive count the recoded text is chosen. -/
theorem decodeToUtf8_iff_russian :
    (russianDecoder 7).EncodingChosen "ru" russianItem.data
        ((russianDecoder 7).itemTries cp1251 russianItem fun _ _ => 0)
        ((russianDecoder 7).decodeToUtf8 cp1251 (fun _ _ => 0) russianItem) ∧
      (russianDecoder 7).decodeToUtf8 cp1251 (fun _ _ => 0) russianItem =
        [0xE2, 0x84, 0x96, 0xE2, 0x84, 0x96, 0xE2, 0x84, 0x96, 0xD1, 0x8F, 0xD1, 0x8F, 0xD1, 0x8F] :=
  ⟨(decodeToUtf8_iff (russianDecoder 7) cp1251 (fun _ _ => 0) russianItem rfl
    (by decide +kernel)).1.mpr (Or.inr (Or.inl (by decide +kernel))), by decide +kernel⟩

/-- With the count `-2` it is returned although its score is not positive. -/
theorem decodeToUtf8_sentinel :
    ¬(russianDecoder (-2)).EncodingChosen "ru" russianItem.data
        ((russianDecoder (-2)).itemTries cp1251 russianItem fun _ _ => 0)
        ((russianDecoder (-2)).decodeToUtf8 cp1251 (fun _ _ => 0) russianItem) ∧
      (∀ temp ∈ (russianDecoder (-2)).itemTries cp1251 russianItem (fun _ _ => 0),
        (russianDecoder (-2)).matchVal "ru" temp ≤ 0) ∧
      (russianDecoder (-2)).decodeToUtf8 cp1251 (fun _ _ => 0) russianItem ≠ russianItem.data := by
  have hscores : ∀ temp ∈ (russianDecoder (-2)).itemTries cp1251 russianItem (fun _ _ => 0),
      (russianDecoder (-2)).matchVal "ru" temp ≤ 0 := by
    decide +kernel
  have hne : (russianDecoder (-2)).decodeToUtf8 cp1251 (fun _ _ => 0) russianItem ≠
      russianItem.data := by
    decide +kernel
  refine ⟨fun h => ?_, hscores, hne⟩
  rcases h.2 (by simp [russianDecoder]) with ⟨temp, hmax, hpos, -⟩ | ⟨-, heq⟩
  · exact absurd hpos (not_lt.mpr (hscores temp hmax.mem))
  · exact hne heq

end SubtitleDecoder

end PopcornTime.Desktop
