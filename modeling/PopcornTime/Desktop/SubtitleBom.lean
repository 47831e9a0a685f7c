import PopcornTime.Desktop.Integers
import PopcornTime.Desktop.NjsProcess
import PopcornTime.Lib.Selection

namespace PopcornTime.Desktop

open PopcornTime

/-!
# Desktop player — recoding a subtitle, and its byte order mark

`iconvRecodeToUtf8` and `decodeByBom` of `SubtitleDecoder`.  What `iconv` answers is a parameter.

* `iconvRecodeToUtf8` — the buffer of five bytes for each one, which is cut to what `iconv` has
  left of it.
* `iconvRecodeToUtf8_iff` — the texts that come out of it as they are.
* `decodeByBom_iff` — the mark that is found is the longest one, except for one of them.
-/

/-- `QByteArray::resize`; what is added is whatever memory holds there. -/
def resize (memory : ℕ → UInt8) (ba : QByteArray) (size : ℕ) : QByteArray :=
  ba.take size ++ (List.range' ba.length (size - ba.length)).map memory

@[simp] theorem length_resize (memory : ℕ → UInt8) (ba : QByteArray) (size : ℕ) :
    (resize memory ba size).length = size := by
  unfold resize
  simp
  omega

/-- `iconv` with a codec: whether it can be opened, and for a source and the room there is for its
    text in UTF-8, what it returns and the bytes it writes. -/
structure Iconv where
  opens : String → Bool
  convert : String → QByteArray → ℕ → ℤ × QByteArray
  length_le : ∀ codec src outb, (convert codec src outb).2.length ≤ outb

/-- The size of the buffer: an `int`, and none for a negative one. -/
def recodeSize (src : QByteArray) : ℕ := (int32 (src.length * 5)).toNat

/-- `iconvRecodeToUtf8`; the second component is what it leaves in `dst`. -/
def iconvRecodeToUtf8 (ic : Iconv) (memory : ℕ → UInt8) (codec : String) (src dst : QByteArray) :
    Bool × QByteArray :=
  if ¬ic.opens codec then (false, dst)
  else
    let dst := resize memory dst (recodeSize src)
    let r := ic.convert codec src dst.length
    let outb := dst.length - r.2.length
    -- what was in the buffer stays behind what is written
    let dst := r.2 ++ dst.drop r.2.length
    if outb = 0 ∨ r.1 < 0 then (false, dst) else (true, dst.take outb)

namespace Iconv

variable (ic : Iconv)

/-- The bytes `iconv` writes for a source. -/
def text (codec : String) (src : QByteArray) : QByteArray :=
  (ic.convert codec src (recodeSize src)).2

/-- `iconv` has an answer that is no error, and that is for all of the source. -/
def Accepts (codec : String) (src : QByteArray) : Prop :=
  ic.opens codec = true ∧ 0 ≤ (ic.convert codec src (recodeSize src)).1

/-- `iconv` converts the whole source: it writes at most five bytes for each one, and leaves the
    rest of as many. -/
structure Converts (codec : String) (src : QByteArray) : Prop where
  accepts : ic.Accepts codec src
  length_le : (ic.text codec src).length ≤ 5 * src.length
  outb_eq : recodeSize src - (ic.text codec src).length =
    5 * src.length - (ic.text codec src).length

end Iconv

section Recode

variable {ic : Iconv} {memory : ℕ → UInt8} {codec : String} {src dst : QByteArray}

/-- What is left in `dst` of an opened codec, before it is cut. -/
def recodeBuffer (ic : Iconv) (memory : ℕ → UInt8) (codec : String) (src dst : QByteArray) :
    QByteArray :=
  ic.text codec src ++ (resize memory dst (recodeSize src)).drop (ic.text codec src).length

theorem iconvRecodeToUtf8_of_opens (h : ic.opens codec = true) :
    iconvRecodeToUtf8 ic memory codec src dst =
      if recodeSize src - (ic.text codec src).length = 0 ∨
          (ic.convert codec src (recodeSize src)).1 < 0 then
        (false, recodeBuffer ic memory codec src dst)
      else (true, (recodeBuffer ic memory codec src dst).take
        (recodeSize src - (ic.text codec src).length)) := by
  unfold iconvRecodeToUtf8
  rw [if_neg (not_not.mpr h)]
  dsimp only
  rw [length_resize]
  rfl

/-- A call succeeds where `iconv` does and leaves room. -/
theorem iconvRecodeToUtf8_fst :
    (iconvRecodeToUtf8 ic memory codec src dst).1 = true ↔
      ic.Accepts codec src ∧ (ic.text codec src).length < recodeSize src := by
  unfold Iconv.Accepts
  by_cases hopen : ic.opens codec = true
  · rw [iconvRecodeToUtf8_of_opens hopen]
    split_ifs with hfail
    · refine iff_of_false (by simp) fun h => ?_
      rcases hfail with hroom | hres
      · omega
      · exact absurd h.1.2 (not_le.mpr hres)
    · rw [not_or, not_lt] at hfail
      exact iff_of_true rfl ⟨⟨hopen, hfail.2⟩, by omega⟩
  · rw [iconvRecodeToUtf8, if_pos hopen]
    exact iff_of_false (by simp) fun h => hopen h.1.1

theorem iconvRecodeToUtf8_snd (h : (iconvRecodeToUtf8 ic memory codec src dst).1 = true) :
    (iconvRecodeToUtf8 ic memory codec src dst).2 =
      (recodeBuffer ic memory codec src dst).take
        (recodeSize src - (ic.text codec src).length) := by
  have hopen := (iconvRecodeToUtf8_fst.mp h).1.1
  rw [iconvRecodeToUtf8_of_opens hopen] at h ⊢
  split_ifs at h ⊢
  rfl

/-- **The texts that are kept.**  Of a source that is converted exactly the text comes out, if it is
    half as long as the buffer. -/
theorem iconvRecodeToUtf8_iff (h : ic.Converts codec src) :
    iconvRecodeToUtf8 ic memory codec src dst = (true, ic.text codec src) ↔
      0 < src.length ∧ 2 * (ic.text codec src).length = 5 * src.length := by
  have hle := h.length_le
  have houtb := h.outb_eq
  have hroom : (ic.text codec src).length ≤ recodeSize src := ic.length_le _ _ _
  have hsize : recodeSize src = 5 * src.length := by omega
  constructor
  · intro heq
    have hfst := congrArg Prod.fst heq
    have hlen := congrArg (fun r => r.2.length) heq
    dsimp only at hfst hlen
    have hlt := (iconvRecodeToUtf8_fst.mp hfst).2
    rw [iconvRecodeToUtf8_snd hfst, recodeBuffer, List.length_take, List.length_append,
      List.length_drop, length_resize] at hlen
    omega
  · rintro ⟨hpos, hhalf⟩
    have hfst : (iconvRecodeToUtf8 ic memory codec src dst).1 = true :=
      iconvRecodeToUtf8_fst.mpr ⟨h.accepts, by omega⟩
    refine Prod.ext hfst ?_
    rw [iconvRecodeToUtf8_snd hfst, recodeBuffer,
      show recodeSize src - (ic.text codec src).length = (ic.text codec src).length by omega,
      List.take_left]

end Recode

/-! ### The byte order mark -/

/-- The mark of UTF-8 that has been recoded from ISO-8859-1. -/
def utf8Latin1Bom : QByteArray := [0xC3, 0xAF, 0xC2, 0xBB, 0xC2, 0xBF]

def utf32leBom : QByteArray := [0xFF, 0xFE, 0x00, 0x00]

def utf7LongBom : QByteArray := [0x2B, 0x2F, 0x76, 0x38, 0x2D]

/-- The marks that set `encoding`, in the order they are tested. -/
def encodingBoms : List (QByteArray × String) :=
  [([0xFE, 0xFF], "UTF-16BE"), ([0xFF, 0xFE], "UTF-16LE"), ([0x00, 0x00, 0xFE, 0xFF], "UTF-32BE"),
    (utf32leBom, "UTF-32LE"), ([0x2B, 0x2F, 0x76, 0x38], "UTF-7"),
    ([0x2B, 0x2F, 0x76, 0x39], "UTF-7"), ([0x2B, 0x2F, 0x76, 0x2B], "UTF-7"),
    ([0x2B, 0x2F, 0x76, 0x2F], "UTF-7"), (utf7LongBom, "UTF-7"),
    ([0x84, 0x31, 0x95, 0x33], "GB18030")]

/-- What is returned for an encoding: the text, or nothing if the recoding fails. -/
def recoded (ic : Iconv) (memory : ℕ → UInt8) (encoding : String) (data : QByteArray) :
    QByteArray :=
  if (iconvRecodeToUtf8 ic memory encoding data []).1 then
    (iconvRecodeToUtf8 ic memory encoding data []).2
  else []

/-- `decodeByBom` -/
def decodeByBom (ic : Iconv) (memory : ℕ → UInt8) (data : QByteArray) : QByteArray :=
  if utf8bom <+: data then data
  else if utf8Latin1Bom <+: data then recoded ic memory "ISO-8859-1" data
  else
    match firstMatch encodingBoms data with
    | some (_, encoding) => recoded ic memory encoding data
    | none => []

/-- All marks, with their encodings. -/
def bomTable : List (QByteArray × String) :=
  (utf8bom, "UTF-8") :: (utf8Latin1Bom, "ISO-8859-1") :: encodingBoms

/-- What a mark stands for: the data itself for UTF-8, nothing without a mark. -/
def decodeByMark (ic : Iconv) (memory : ℕ → UInt8) (data : QByteArray) :
    Option (QByteArray × String) → QByteArray
  | none => []
  | some (_, encoding) => if encoding = "UTF-8" then data else recoded ic memory encoding data

theorem decodeByMark_of_ne (ic : Iconv) (memory : ℕ → UInt8) (data : QByteArray)
    {e : QByteArray × String} (h : e.2 ≠ "UTF-8") :
    decodeByMark ic memory data (some e) = recoded ic memory e.2 data :=
  if_neg h

/-- The chain of tests takes the first mark that fits. -/
theorem decodeByBom_eq (ic : Iconv) (memory : ℕ → UInt8) (data : QByteArray) :
    decodeByBom ic memory data = decodeByMark ic memory data (firstMatch bomTable data) := by
  unfold decodeByBom
  split_ifs with hutf8 hlatin1
  · have hfirst : firstMatch bomTable data = some (utf8bom, "UTF-8") :=
      List.find?_cons_of_pos (by simpa using hutf8)
    rw [hfirst]
    rfl
  · have hfirst : firstMatch bomTable data = some (utf8Latin1Bom, "ISO-8859-1") := by
      unfold firstMatch bomTable
      rw [List.find?_cons_of_neg (by simpa using hutf8),
        List.find?_cons_of_pos (by simpa using hlatin1)]
    rw [hfirst]
    rfl
  · have hfirst : firstMatch bomTable data = firstMatch encodingBoms data := by
      unfold firstMatch bomTable
      rw [List.find?_cons_of_neg (by simpa using hutf8),
        List.find?_cons_of_neg (by simpa using hlatin1)]
    rw [hfirst]
    -- only the first two marks have a branch of their own
    have henc : ∀ e ∈ encodingBoms, e.2 ≠ "UTF-8" := by decide
    cases hm : firstMatch encodingBoms data with
    | none => rfl
    | some e =>
      have hne := henc e (firstMatch_spec hm).1
      exact (decodeByMark_of_ne ic memory data hne).symm

/-- A mark in front of a longer one stands for the same encoding, but for one pair. -/
theorem bomTable_prefix {e e' : QByteArray × String} (he : e ∈ bomTable) (he' : e' ∈ bomTable)
    (h : e.1 <+: e'.1) :
    e.2 = e'.2 ∨ (e'.1 = utf32leBom ∧ e.2 ≠ "UTF-8" ∧ e'.2 = "UTF-32LE") := by
  have hall : ∀ e ∈ bomTable, ∀ e' ∈ bomTable, e.1 <+: e'.1 →
      e.2 = e'.2 ∨ (e'.1 = utf32leBom ∧ e.2 ≠ "UTF-8" ∧ e'.2 = "UTF-32LE") := by
    decide +kernel
  exact hall e he e' he' h

/-- The first match of some data is the first one of its own mark. -/
theorem exists_firstMatch_bomTable_iff {e : QByteArray × String} (he : e ∈ bomTable) :
    (∃ data, firstMatch bomTable data = some e) ↔ e.1 ≠ utf32leBom ∧ e.1 ≠ utf7LongBom := by
  have hall : ∀ e ∈ bomTable, (firstMatch bomTable e.1 = some e ↔
      e.1 ≠ utf32leBom ∧ e.1 ≠ utf7LongBom) := by
    decide +kernel
  rw [exists_firstMatch_iff]
  exact hall e he

theorem recoded_eq_nil {ic : Iconv} {memory : ℕ → UInt8} {encoding : String} {data : QByteArray}
    (h : recodeSize data = 0) : recoded ic memory encoding data = [] := by
  refine if_neg fun hfst => ?_
  have hlt := (iconvRecodeToUtf8_fst.mp hfst).2
  omega

/-- What starts with the mark of UTF-32LE is found as UTF-16LE. -/
theorem match_utf32leBom {data : QByteArray} (h : utf32leBom <+: data) :
    firstMatch bomTable data = some ([0xFF, 0xFE], "UTF-16LE") ∧
      longestMatch bomTable data = some (utf32leBom, "UTF-32LE") := by
  have hmem : (utf32leBom, "UTF-32LE") ∈ bomTable := by decide
  obtain ⟨e', he'⟩ : ∃ e', longestMatch bomTable data = some e' := by
    by_contra hnone
    rw [not_exists, ← Option.eq_none_iff_forall_ne_some, longestMatch_eq_none] at hnone
    exact hnone _ hmem h
  obtain ⟨e, he⟩ : ∃ e, firstMatch bomTable data = some e := by
    by_contra hnone
    rw [not_exists, ← Option.eq_none_iff_forall_ne_some, firstMatch_eq_none] at hnone
    exact hnone _ hmem h
  -- no longer mark starts with this one
  obtain ⟨hmem', hpre', hmax⟩ := longestMatch_spec he'
  have hlong : utf32leBom <+: e'.1 := List.prefix_of_prefix_length_le h hpre' (hmax _ hmem h)
  have hends : ∀ e ∈ bomTable, utf32leBom <+: e.1 → e = (utf32leBom, "UTF-32LE") := by
    decide +kernel
  have heq' := hends e' hmem' hlong
  have hshort := firstMatch_prefix_longestMatch he he'
  rw [heq'] at hshort he'
  -- and the one that is found is reachable
  have hreach := (exists_firstMatch_bomTable_iff (firstMatch_spec he).1).mp ⟨data, he⟩
  have hbegins : ∀ e ∈ bomTable, e.1 <+: utf32leBom → e.1 ≠ utf32leBom →
      e = ([0xFF, 0xFE], "UTF-16LE") := by
    decide +kernel
  have heq := hbegins e (firstMatch_spec he).1 hshort hreach.1
  rw [heq] at he
  exact ⟨he, he'⟩

/-- An `iconv` with the codec UTF-32LE only: with it the two recodings differ for all data. -/
def utf32leOnly : Iconv where
  opens := fun codec => decide (codec = "UTF-32LE")
  convert := fun _ _ _ => (0, [])
  length_le := fun _ _ _ => Nat.zero_le _

/-- **The byte order mark.**  For every data the recoding is that of the longest mark, whatever
    `iconv` answers, unless the data starts with the mark of UTF-32LE (and there is a buffer at all).
    This mark and the longer one of UTF-7 are never found. -/
theorem decodeByBom_iff (data : QByteArray) :
    ((∀ ic memory, decodeByBom ic memory data =
        decodeByMark ic memory data (longestMatch bomTable data)) ↔
      ¬utf32leBom <+: data ∨ recodeSize data = 0) ∧
    ∀ e ∈ bomTable, (∃ data', firstMatch bomTable data' = some e) ↔
      e.1 ≠ utf32leBom ∧ e.1 ≠ utf7LongBom := by
  refine ⟨⟨fun hall => ?_, fun h ic memory => ?_⟩, fun e he => exists_firstMatch_bomTable_iff he⟩
  · by_contra hcon
    rw [not_or, not_not] at hcon
    obtain ⟨hfirst, hlongest⟩ := match_utf32leBom hcon.1
    have heq := hall utf32leOnly fun _ => 0
    rw [decodeByBom_eq, hfirst, hlongest] at heq
    have hnone : recoded utf32leOnly (fun _ => 0) "UTF-16LE" data = [] :=
      if_neg fun hfst => absurd (iconvRecodeToUtf8_fst.mp hfst).1.1 (by decide)
    have hfst : (iconvRecodeToUtf8 utf32leOnly (fun _ => 0) "UTF-32LE" data []).1 = true :=
      iconvRecodeToUtf8_fst.mpr ⟨⟨by decide, le_refl _⟩, Nat.pos_of_ne_zero hcon.2⟩
    have hsome : recoded utf32leOnly (fun _ => 0) "UTF-32LE" data ≠ [] := by
      rw [recoded, if_pos hfst, iconvRecodeToUtf8_snd hfst]
      apply List.ne_nil_of_length_pos
      rw [List.length_take, recodeBuffer, List.length_append, List.length_drop, length_resize]
      have hzero : (utf32leOnly.text "UTF-32LE" data).length = 0 := rfl
      omega
    rw [decodeByMark_of_ne _ _ _ (by decide), decodeByMark_of_ne _ _ _ (by decide), hnone] at heq
    exact hsome heq.symm
  · rw [decodeByBom_eq]
    cases hfirst : firstMatch bomTable data with
    | none =>
      rw [longestMatch_eq_none.mpr (firstMatch_eq_none.mp hfirst)]
    | some e =>
      cases hlongest : longestMatch bomTable data with
      | none =>
        rw [longestMatch_eq_none, ← firstMatch_eq_none, hfirst] at hlongest
        exact absurd hlongest (by simp)
      | some e' =>
        have hspec := longestMatch_spec hlongest
        rcases bomTable_prefix (firstMatch_spec hfirst).1 hspec.1
          (firstMatch_prefix_longestMatch hfirst hlongest) with heq | ⟨hbom, hne, hutf⟩
        · show (if e.2 = "UTF-8" then data else _) = if e'.2 = "UTF-8" then data else _
          rw [heq]
        · -- only without a buffer does the data start with the mark
          have hroom : recodeSize data = 0 := h.resolve_left (not_not.mpr (hbom ▸ hspec.2.1))
          rw [decodeByMark_of_ne _ _ _ hne, decodeByMark_of_ne _ _ _ (by rw [hutf]; decide),
            recoded_eq_nil hroom, recoded_eq_nil hroom]

/-- The characters that bytes are in units of some width, the lowest byte first, in UTF-8. -/
def unitsUtf8 (width : ℕ) (src : QByteArray) : Option QByteArray :=
  (src.toChunks width).foldr (fun unit rest =>
    let code := unit.foldr (fun b n => b.toNat + 256 * n) 0
    if unit.length = width ∧ code.isValidChar then
      rest.map (String.utf8EncodeChar (Char.ofNat code) ++ ·)
    else none) (some [])

/-- An `iconv` with UTF-16LE and UTF-32LE, for characters of one unit.  A mark is a character to it,
    as it is to the one of the C library. -/
def littleEndian : Iconv where
  opens := fun codec => decide (codec = "UTF-16LE" ∨ codec = "UTF-32LE")
  convert := fun codec src outb =>
    match unitsUtf8 (if codec = "UTF-16LE" then 2 else 4) src with
    | some text => (if text.length ≤ outb then 0 else -1, text.take outb)
    | none => (-1, [])
  length_le := fun codec src outb => by
    split
    · exact List.length_take_le _ _
    · exact Nat.zero_le _

/-- The letter A in UTF-32LE behind its mark is recoded from UTF-16LE: there is a zero on both sides
    of it.  Behind either text is what was in memory. -/
theorem decodeByBom_utf32le :
    decodeByBom littleEndian (fun _ => 0x2A) (utf32leBom ++ [0x41, 0, 0, 0]) =
        [0xEF, 0xBB, 0xBF, 0, 0x41, 0] ++ List.replicate 28 0x2A ∧
      decodeByMark littleEndian (fun _ => 0x2A) (utf32leBom ++ [0x41, 0, 0, 0])
          (longestMatch bomTable (utf32leBom ++ [0x41, 0, 0, 0])) =
        [0xEF, 0xBB, 0xBF, 0x41] ++ List.replicate 32 0x2A ∧
      (∀ data, firstMatch bomTable data ≠ some (utf7LongBom, "UTF-7")) := by
  refine ⟨by decide +kernel, by decide +kernel, fun data h => ?_⟩
  exact ((exists_firstMatch_bomTable_iff (by decide)).mp ⟨data, h⟩).2 rfl

end PopcornTime.Desktop
