import Mathlib.Data.List.DropRight
import PopcornTime.Desktop.NjsProcess
import PopcornTime.Lib.Selection

namespace PopcornTime.Desktop

open PopcornTime

/-!
# Desktop — the archive of a subtitle

`SubtitleItem::setZipData` unpacks what a server has sent.  In an archive of several files it looks
for a subtitle by name and size, and asks for each file it takes a liking to by its name.

* `QuaZip` — an open archive; `setCurrentFile` knows one file of each name.
* `Unpacking.tryFile` — the body of the loop; `selectFile` is the loop.
* `rivals`, `isFirstMax_best` — the files that are compared, and the one that is taken.
* `setZipData_iff` — when that is the right one.
-/

/-! ### Names of files -/

/-- `QString::foldCase` of a unit, as far as it leads to a letter of ASCII: there are a long s and a
    sign for Kelvin. -/
def foldCase (u : UInt16) : UInt16 :=
  if 0x41 ≤ u ∧ u ≤ 0x5A then u + 0x20
  else if u = 0x17F then 0x73
  else if u = 0x212A then 0x6B
  else u

/-- `QString::endsWith` in any case, for a tail of small letters. -/
def endsWith (s tail : QString) : Bool :=
  tail.isSuffixOf (s.map foldCase)

/-- `srt` -/
def srt : QString := [0x73, 0x72, 0x74]

/-- `gz` -/
def gz : QString := [0x67, 0x7A]

namespace QFileInfo

/-- `QFileInfo::fileName`: what follows the last slash. -/
def fileName (path : QString) : QString :=
  path.rtakeWhile fun u => decide (u ≠ 0x2F)

/-- `QFileInfo::suffix`: what follows the last dot of the file name. -/
def suffix (path : QString) : QString :=
  if 0x2E ∈ fileName path then (fileName path).rtakeWhile fun u => decide (u ≠ 0x2E) else []

/-- `QFileInfo::completeBaseName`: what is ahead of the last dot of the file name. -/
def completeBaseName (path : QString) : QString :=
  if 0x2E ∈ fileName path then
    ((fileName path).rdropWhile fun u => decide (u ≠ 0x2E)).dropLast
  else fileName path

/-- The suffix is the end of the path. -/
theorem suffix_suffix (path : QString) : suffix path <:+ path := by
  unfold suffix
  split_ifs
  · exact (List.rtakeWhile_suffix _ _).trans (List.rtakeWhile_suffix _ _)
  · exact List.nil_suffix

end QFileInfo

/-- What a text ends with is the end of every longer one. -/
theorem endsWith_of_suffix {s s' tail : QString} (h : s <:+ s') (hs : endsWith s tail = true) :
    endsWith s' tail = true := by
  unfold endsWith at hs ⊢
  rw [List.isSuffixOf_iff_suffix] at hs ⊢
  exact hs.trans (h.map foldCase)

/-! ### The archive -/

/-- A `QuaZipFileInfo`, with what the file reads as; nothing where it cannot be opened. -/
structure ZippedFile where
  name : QString
  uncompressedSize : ℕ
  contents : Option QByteArray
deriving DecidableEq

/-- The suffix ends in `srt`. -/
def ZippedFile.srtSuffix (f : ZippedFile) : Bool :=
  endsWith (QFileInfo.suffix f.name) srt

/-- The name ends in `srt`. -/
def ZippedFile.srtName (f : ZippedFile) : Bool :=
  endsWith f.name srt

/-- A name whose suffix ends in `srt` ends in it. -/
theorem ZippedFile.srtName_of_srtSuffix {f : ZippedFile} (h : f.srtSuffix = true) :
    f.srtName = true :=
  endsWith_of_suffix (QFileInfo.suffix_suffix f.name) h

/-- A `QuaZip` that is open: its directory, and the place of the current file. -/
structure QuaZip where
  files : List ZippedFile
  current : Option ℕ

def MAX_FILE_NAME_LENGTH : ℕ := 256

namespace QuaZip

/-- The map of the directory: a file replaces those of its name ahead of it. -/
def placeOf (fileName : QString) : List ZippedFile → Option ℕ
  | [] => none
  | f :: files =>
    match placeOf fileName files with
    | some i => some (i + 1)
    | none => if f.name = fileName then some 0 else none

/-- `setCurrentFile`, behind a `getFileInfoList` that has mapped all files. -/
def setCurrentFile (zip : QuaZip) (fileName : QString) : QuaZip :=
  if fileName = [] then { zip with current := none }
  else if MAX_FILE_NAME_LENGTH < fileName.length then zip
  else { zip with current := placeOf fileName zip.files }

/-- `getFileInfoList` leaves the first file as the current one. -/
def opened (files : List ZippedFile) : QuaZip :=
  ⟨files, if files = [] then none else some 0⟩

/-- What the current file reads as. -/
def readAll (zip : QuaZip) : Option QByteArray :=
  zip.current.bind fun i => zip.files[i]?.bind ZippedFile.contents

end QuaZip

/-! ### `setZipData` -/

/-- The variables of the loop, with `m_fileName`. -/
structure Unpacking where
  zip : QuaZip
  largest : ℕ
  fileName : QString

namespace Unpacking

def take (s : Unpacking) (info : ZippedFile) : Unpacking :=
  ⟨s.zip.setCurrentFile info.name, info.uncompressedSize, info.name⟩

/-- The body of the loop. -/
def tryFile (s : Unpacking) (info : ZippedFile) : Unpacking :=
  if endsWith s.fileName srt then
    if ¬info.srtSuffix ∨ info.uncompressedSize ≤ s.largest then s else s.take info
  else
    if info.uncompressedSize ≤ s.largest ∧ ¬info.srtSuffix then s else s.take info

end Unpacking

/-- The loop over the files of an archive. -/
def selectFile (files : List ZippedFile) (fileName : QString) : Unpacking :=
  files.foldl Unpacking.tryFile ⟨.opened files, 0, fileName⟩

/-- What the libraries make of the data: the file of a gzip, if it can be read, and the files of an
    archive, if it can be opened. -/
structure Unpacker where
  /-- The temporary file for a gzip can be made. -/
  tmpFile : Bool
  gunzip : QByteArray → Option QByteArray
  unzip : QByteArray → Option (List ZippedFile)

/-- A `SubtitleItem` as far as its archive goes. -/
structure ZippedItem where
  zipName : QString
  /-- The path of `m_url`. -/
  urlPath : QString
  zipData : QByteArray
  data : QByteArray
  fileName : QString

namespace ZippedItem

/-- The path of `zipInfo`. -/
def zipInfo (item : ZippedItem) : QString :=
  if item.zipName.length ≠ 0 then item.zipName else item.urlPath

def isGzip (item : ZippedItem) : Bool :=
  endsWith (QFileInfo.fileName item.zipInfo) gz

/-- The end of `setZipData`: the file is opened and read. -/
def read (item : ZippedItem) (contents : Option QByteArray) : ZippedItem × Bool :=
  match contents with
  | none => (item, false)
  | some data => ({ item with data := data }, !data.isEmpty)

/-- `setZipData` -/
def setZipData (u : Unpacker) (item : ZippedItem) (data : QByteArray) : ZippedItem × Bool :=
  if data = [] then (item, false)
  else
    let item := { item with zipData := data }
    if item.isGzip then
      if ¬u.tmpFile then (item, false)
      else
        { item with fileName := QFileInfo.completeBaseName item.zipInfo }.read (u.gunzip data)
    else
      match u.unzip data with
      | none => (item, false)
      | some [] => (item, false)
      -- the only file is taken, whatever it is
      | some [f] => { item with fileName := QFileInfo.fileName f.name }.read f.contents
      | some files =>
        -- of several the one that fits the name best
        let s := selectFile files item.fileName
        { item with fileName := s.fileName }.read s.zip.readAll

end ZippedItem

/-! ### The file that is taken -/

/-- The suffix is `srt`. -/
def ZippedFile.isSrt (f : ZippedFile) : Bool :=
  decide ((QFileInfo.suffix f.name).map foldCase = srt)

/-- The variables of the loop as one file, the last that was taken: at the start there is none of
    it but the name. -/
def nameOnly (fileName : QString) : ZippedFile :=
  ⟨fileName, 0, none⟩

/-- What the loop makes of the last file taken. -/
def better (best f : ZippedFile) : ZippedFile :=
  if best.srtName then
    if f.srtSuffix ∧ best.uncompressedSize < f.uncompressedSize then f else best
  else
    if best.uncompressedSize < f.uncompressedSize ∨ f.srtSuffix then f else best

/-- From this file on the loop looks for subtitles only; `largest` is the size of the largest file
    before it. -/
def Opens (largest : ℕ) (f : ZippedFile) : Prop :=
  f.srtSuffix = true ∨ (f.srtName = true ∧ largest < f.uncompressedSize)

instance (largest : ℕ) (f : ZippedFile) : Decidable (Opens largest f) :=
  inferInstanceAs (Decidable (_ ∨ _))

/-- The first file that opens, with those behind it. -/
def opening (largest : ℕ) : List ZippedFile → Option (ZippedFile × List ZippedFile)
  | [] => none
  | f :: files =>
    if Opens largest f then some (f, files) else opening (max largest f.uncompressedSize) files

/-- The files that are compared: those whose suffix ends in `srt`, if the name from before ends so;
    else the first file that opens and such files behind it, or all if none opens. -/
def rivals (fileName : QString) (files : List ZippedFile) : List ZippedFile :=
  if endsWith fileName srt then nameOnly fileName :: files.filter ZippedFile.srtSuffix
  else
    match opening 0 files with
    | some (f, rest) => f :: rest.filter ZippedFile.srtSuffix
    | none => nameOnly fileName :: files

/-- No file is ever taken. -/
def Idle (fileName : QString) (files : List ZippedFile) : Prop :=
  if endsWith fileName srt then ∀ f ∈ files, f.srtSuffix = true → f.uncompressedSize = 0
  else ∀ f ∈ files, f.srtSuffix = false ∧ f.uncompressedSize = 0

instance (fileName : QString) (files : List ZippedFile) : Decidable (Idle fileName files) := by
  unfold Idle
  infer_instance

section Loop

variable {s : Unpacking} {best f : ZippedFile} {files : List ZippedFile} {fileName : QString}

/-- The loop passes a file over exactly where `better` keeps the last one taken. -/
theorem tryFile_eq (s : Unpacking) (best f : ZippedFile) (hname : s.fileName = best.name)
    (hlargest : s.largest = best.uncompressedSize) :
    (s.tryFile f = s ∧ better best f = best) ∨ (s.tryFile f = s.take f ∧ better best f = f) := by
  unfold Unpacking.tryFile better ZippedFile.srtName
  rw [hname, hlargest]
  by_cases hsrt : endsWith best.name srt = true
  · rw [if_pos hsrt, if_pos hsrt]
    by_cases htake : f.srtSuffix = true ∧ best.uncompressedSize < f.uncompressedSize
    · rw [if_pos htake, if_neg (by rw [not_or, not_not, not_le]; exact htake)]
      exact Or.inr ⟨rfl, rfl⟩
    · rw [if_neg htake, if_pos (by rw [← not_lt, ← not_and_or]; exact htake)]
      exact Or.inl ⟨rfl, rfl⟩
  · rw [if_neg hsrt, if_neg hsrt]
    by_cases htake : best.uncompressedSize < f.uncompressedSize ∨ f.srtSuffix = true
    · rw [if_pos htake, if_neg (by rw [← not_lt, ← not_or, not_not]; exact htake)]
      exact Or.inr ⟨rfl, rfl⟩
    · rw [if_neg htake, if_pos (by rw [← not_lt, ← not_or]; exact htake)]
      exact Or.inl ⟨rfl, rfl⟩

/-- The loop as a pass with the last file taken. -/
theorem foldl_tryFile (s : Unpacking) (best : ZippedFile) (files : List ZippedFile)
    (hname : s.fileName = best.name) (hlargest : s.largest = best.uncompressedSize) :
    (files.foldl Unpacking.tryFile s).fileName = (files.foldl better best).name ∧
      (files.foldl Unpacking.tryFile s).largest =
        (files.foldl better best).uncompressedSize := by
  induction files generalizing s best with
  | nil => exact ⟨hname, hlargest⟩
  | cons f files ih =>
    rw [List.foldl_cons, List.foldl_cons]
    rcases tryFile_eq s best f hname hlargest with ⟨hs, hbest⟩ | ⟨hs, hbest⟩
    · rw [hs, hbest]
      exact ih s best hname hlargest
    · rw [hs, hbest]
      exact ih (s.take f) f rfl rfl

/-- Once the name ends in `srt`, the loop is a pass over the files whose suffix does. -/
theorem foldl_better_of_srtName (hsrt : best.srtName = true) (files : List ZippedFile) :
    files.foldl better best =
      scanMax ZippedFile.uncompressedSize (files.filter ZippedFile.srtSuffix) best := by
  induction files generalizing best with
  | nil => rfl
  | cons f files ih =>
    rw [List.foldl_cons, better, if_pos hsrt]
    by_cases hsuffix : f.srtSuffix = true
    · rw [List.filter_cons_of_pos hsuffix, scanMax]
      by_cases hlt : best.uncompressedSize < f.uncompressedSize
      · rw [if_pos ⟨hsuffix, hlt⟩, if_pos hlt]
        exact ih (ZippedFile.srtName_of_srtSuffix hsuffix)
      · rw [if_neg fun h => hlt h.2, if_neg hlt]
        exact ih hsrt
    · rw [List.filter_cons_of_neg hsuffix, if_neg fun h => hsuffix h.1]
      exact ih hsrt

/-- Up to the first file that opens, it is a pass over all. -/
theorem foldl_better_of_not_srtName (hsrt : best.srtName = false) (files : List ZippedFile) :
    files.foldl better best =
      match opening best.uncompressedSize files with
      | some (f, rest) => scanMax ZippedFile.uncompressedSize (rest.filter ZippedFile.srtSuffix) f
      | none => scanMax ZippedFile.uncompressedSize files best := by
  induction files generalizing best with
  | nil => rfl
  | cons f files ih =>
    rw [List.foldl_cons, better, if_neg (by rw [hsrt]; exact Bool.false_ne_true), opening, scanMax]
    by_cases hopens : Opens best.uncompressedSize f
    · have hname : f.srtName = true := by
        rcases hopens with hsuffix | ⟨hname, -⟩
        · exact ZippedFile.srtName_of_srtSuffix hsuffix
        · exact hname
      rw [if_pos (hopens.symm.imp (fun h => h.2) id), if_pos hopens]
      exact foldl_better_of_srtName hname files
    · have hsuffix : ¬f.srtSuffix = true := fun h => hopens (Or.inl h)
      rw [if_neg hopens]
      by_cases hlt : best.uncompressedSize < f.uncompressedSize
      · -- a larger file that does not open has another name
        have hname : f.srtName = false := by
          rw [← Bool.not_eq_true]
          exact fun h => hopens (Or.inr ⟨h, hlt⟩)
        rw [if_pos (Or.inl hlt), if_pos hlt, max_eq_right hlt.le]
        exact ih hname
      · rw [if_neg (not_or_intro hlt hsuffix), if_neg hlt, max_eq_left (not_lt.mp hlt)]
        exact ih hsrt

/-- **The file that is taken** last is the first largest of those that are compared. -/
theorem isFirstMax_best (fileName : QString) (files : List ZippedFile) :
    IsFirstMax ZippedFile.uncompressedSize (rivals fileName files)
      (files.foldl better (nameOnly fileName)) := by
  unfold rivals
  by_cases hsrt : endsWith fileName srt = true
  · have hname : (nameOnly fileName).srtName = true := hsrt
    rw [if_pos hsrt, foldl_better_of_srtName hname]
    exact isFirstMax_scanMax _ _ _
  · have hname : (nameOnly fileName).srtName = false := Bool.not_eq_true _ ▸ hsrt
    have hsize : (nameOnly fileName).uncompressedSize = 0 := rfl
    rw [if_neg hsrt, foldl_better_of_not_srtName hname, hsize]
    cases opening 0 files with
    | none => exact isFirstMax_scanMax _ _ _
    | some p => exact isFirstMax_scanMax _ _ _

/-- If no file opens, none has a suffix in `srt`. -/
theorem opening_eq_none {largest : ℕ} (h : opening largest files = none) :
    ∀ f ∈ files, f.srtSuffix = false := by
  induction files generalizing largest with
  | nil => simp
  | cons f files ih =>
    rw [opening] at h
    split_ifs at h with hopens
    refine List.forall_mem_cons.mpr ⟨?_, ih h⟩
    rw [← Bool.not_eq_true]
    exact fun hsuffix => hopens (Or.inl hsuffix)

/-- The file that opens is one of the archive, as are those behind it. -/
theorem opening_eq_some {largest : ℕ} {rest : List ZippedFile}
    (h : opening largest files = some (f, rest)) :
    f ∈ files ∧ rest ⊆ files ∧ ∃ largest', Opens largest' f := by
  induction files generalizing largest with
  | nil => exact absurd h (by simp [opening])
  | cons f' files ih =>
    rw [opening] at h
    split_ifs at h with hopens
    · obtain ⟨rfl, rfl⟩ := Prod.mk.inj (Option.some.inj h)
      exact ⟨List.mem_cons_self, List.subset_cons_self _ _, largest, hopens⟩
    · obtain ⟨hf, hrest, hopens'⟩ := ih h
      exact ⟨List.mem_cons_of_mem _ hf, fun f' h => List.mem_cons_of_mem _ (hrest h), hopens'⟩

/-- The name of a file that opens ends in `srt`. -/
theorem Opens.srtName {largest : ℕ} (h : Opens largest f) : f.srtName = true := by
  rcases h with hsuffix | ⟨hname, -⟩
  · exact ZippedFile.srtName_of_srtSuffix hsuffix
  · exact hname

end Loop

/-! ### The place of the current file -/

section Place

variable {s : Unpacking} {q : ZippedFile} {files pre post : List ZippedFile} {fileName : QString}

/-- No file is found by a name that none has. -/
theorem placeOf_eq_none :
    QuaZip.placeOf fileName files = none ↔ ∀ f ∈ files, f.name ≠ fileName := by
  induction files with
  | nil => simp [QuaZip.placeOf]
  | cons f files ih =>
    rw [QuaZip.placeOf, List.forall_mem_cons, ← ih]
    cases QuaZip.placeOf fileName files with
    | some i => simp
    | none => simp

/-- A file is found by its name if it is the last one of it. -/
theorem placeOf_eq_some_iff :
    QuaZip.placeOf q.name (pre ++ q :: post) = some pre.length ↔ ∀ f ∈ post, f.name ≠ q.name := by
  induction pre with
  | nil =>
    rw [List.nil_append, QuaZip.placeOf, ← placeOf_eq_none]
    cases QuaZip.placeOf q.name post with
    | some i => simp
    | none => simp
  | cons f pre ih =>
    rw [List.cons_append, QuaZip.placeOf, ← ih]
    cases hplace : QuaZip.placeOf q.name (pre ++ q :: post) with
    | some i => simp
    | none => exact absurd rfl (placeOf_eq_none.mp hplace q (by simp))

/-- A file that is found by a name has it. -/
theorem exists_of_placeOf {i : ℕ} (h : QuaZip.placeOf fileName files = some i) :
    ∃ f, files[i]? = some f ∧ f.name = fileName := by
  induction files generalizing i with
  | nil => exact absurd h (by simp [QuaZip.placeOf])
  | cons f files ih =>
    rw [QuaZip.placeOf] at h
    cases hplace : QuaZip.placeOf fileName files with
    | some j =>
      rw [hplace] at h
      obtain rfl := Option.some.inj h
      exact ih hplace
    | none =>
      rw [hplace] at h
      obtain ⟨hname, hi⟩ := Option.ite_none_right_eq_some.mp h
      obtain rfl := Option.some.inj hi
      exact ⟨f, rfl, hname⟩

/-- Only a file with a name that is not too long becomes the current one, but for the first. -/
def Placed (files : List ZippedFile) (s : Unpacking) : Prop :=
  s.zip.files = files ∧ ∀ i, s.zip.current = some i → i ≠ 0 →
    ∃ f, files[i]? = some f ∧ f.name.length ≤ MAX_FILE_NAME_LENGTH

/-- The current file is what the name of the last file taken leads to. -/
def Named (files : List ZippedFile) (s : Unpacking) : Prop :=
  (s.fileName = [] → s.zip.current = none) ∧
    (s.fileName ≠ [] → s.fileName.length ≤ MAX_FILE_NAME_LENGTH →
      s.zip.current = QuaZip.placeOf s.fileName files)

/-- The file that is taken is looked for by its name. -/
theorem take_placed (f : ZippedFile) (h : Placed files s) :
    Placed files (s.take f) ∧ Named files (s.take f) := by
  obtain ⟨hfiles, hcurrent⟩ := h
  unfold Placed Named Unpacking.take QuaZip.setCurrentFile
  dsimp only
  by_cases hempty : f.name = []
  · rw [if_pos hempty]
    exact ⟨⟨hfiles, fun i hi => absurd hi (by simp)⟩, fun _ => rfl, fun hne => absurd hempty hne⟩
  · rw [if_neg hempty]
    by_cases hlong : MAX_FILE_NAME_LENGTH < f.name.length
    · rw [if_pos hlong]
      exact ⟨⟨hfiles, hcurrent⟩, fun h => absurd h hempty,
        fun _ hle => absurd hle (not_le.mpr hlong)⟩
    · rw [if_neg hlong, hfiles]
      refine ⟨⟨rfl, fun i hi _ => ?_⟩, fun h => absurd h hempty, fun _ _ => rfl⟩
      obtain ⟨f', hget, hname⟩ := exists_of_placeOf hi
      exact ⟨f', hget, hname ▸ not_lt.mp hlong⟩

/-- A file is passed over or taken. -/
theorem tryFile_eq_or (s : Unpacking) (f : ZippedFile) :
    s.tryFile f = s ∨ s.tryFile f = s.take f := by
  rcases tryFile_eq s ⟨s.fileName, s.largest, none⟩ f rfl rfl with
    ⟨hs, -⟩ | ⟨hs, -⟩
  · exact Or.inl hs
  · exact Or.inr hs

/-- Through the loop, the current file is that of the start or the one of the last name. -/
theorem foldl_placed (l : List ZippedFile) (h : Placed files s) :
    Placed files (l.foldl Unpacking.tryFile s) ∧
      (l.foldl Unpacking.tryFile s = s ∨ Named files (l.foldl Unpacking.tryFile s)) := by
  induction l generalizing s with
  | nil => exact ⟨h, Or.inl rfl⟩
  | cons f l ih =>
    rw [List.foldl_cons]
    rcases tryFile_eq_or s f with hs | hs
    · rw [hs]
      exact ih h
    · obtain ⟨hplaced, hnamed⟩ := take_placed f h
      obtain ⟨hplaced', hstay | hnamed'⟩ := ih hplaced
      · rw [hs, hstay]
        exact ⟨hplaced, Or.inr hnamed⟩
      · rw [hs]
        exact ⟨hplaced', Or.inr hnamed'⟩

/-- The file is passed over. -/
def Passes (s : Unpacking) (f : ZippedFile) : Prop :=
  if endsWith s.fileName srt then f.srtSuffix = true → f.uncompressedSize ≤ s.largest
  else f.srtSuffix = false ∧ f.uncompressedSize ≤ s.largest

/-- A loop that passes all files over changes nothing. -/
theorem foldl_of_passes (l : List ZippedFile) (h : ∀ f ∈ l, Passes s f) :
    l.foldl Unpacking.tryFile s = s := by
  induction l with
  | nil => rfl
  | cons f l ih =>
    have hpass := h f List.mem_cons_self
    have hstay : s.tryFile f = s := by
      unfold Passes at hpass
      unfold Unpacking.tryFile
      by_cases hsrt : endsWith s.fileName srt = true
      · rw [if_pos hsrt] at hpass ⊢
        by_cases hsuffix : f.srtSuffix = true
        · rw [if_pos (Or.inr (hpass hsuffix))]
        · rw [if_pos (Or.inl hsuffix)]
      · rw [if_neg hsrt] at hpass ⊢
        rw [if_pos ⟨hpass.2, by rw [hpass.1]; exact Bool.false_ne_true⟩]
    rw [List.foldl_cons, hstay]
    exact ih fun f' hf' => h f' (List.mem_cons_of_mem _ hf')

/-- So does one in which no file is ever taken. -/
theorem selectFile_of_idle (h : Idle fileName files) :
    selectFile files fileName = ⟨.opened files, 0, fileName⟩ := by
  apply foldl_of_passes
  intro f hf
  unfold Passes
  unfold Idle at h
  dsimp only
  split_ifs at h ⊢
  · exact fun hsuffix => (h f hf hsuffix).le
  · exact ⟨(h f hf).1, (h f hf).2.le⟩

/-- At the start the first file is the current one. -/
theorem placed_opened (files : List ZippedFile) (fileName : QString) :
    Placed files ⟨.opened files, 0, fileName⟩ := by
  refine ⟨rfl, fun i hi hne => ?_⟩
  unfold QuaZip.opened at hi
  dsimp only at hi
  split_ifs at hi
  exact absurd (Option.some.inj hi).symm hne

/-- And so at the end of the loop. -/
theorem selectFile_placed (files : List ZippedFile) (fileName : QString) :
    Placed files (selectFile files fileName) :=
  (foldl_placed files (placed_opened files fileName)).1

/-- If a file is ever taken, the current file is that of the last name. -/
theorem selectFile_named (h : ¬Idle fileName files) : Named files (selectFile files fileName) := by
  refine (foldl_placed files (placed_opened files fileName)).2.resolve_left fun hstart => h ?_
  obtain ⟨hname, hlargest⟩ := foldl_tryFile ⟨.opened files, 0, fileName⟩
    (nameOnly fileName) files rfl rfl
  rw [hstart] at hname hlargest
  have hmax := isFirstMax_best fileName files
  have hmem := hmax.mem
  -- what is compared is no larger than the last file taken, and that is of size 0
  have hle : ∀ f ∈ rivals fileName files, f.uncompressedSize = 0 := by
    intro f hf
    have hle := hmax.le hf
    rw [← hlargest] at hle
    exact Nat.le_zero.mp hle
  unfold Idle
  unfold rivals at hle hmem
  by_cases hsrt : endsWith fileName srt = true
  · rw [if_pos hsrt] at hle ⊢
    intro f hf hsuffix
    exact hle f (List.mem_cons_of_mem _ (List.mem_filter.mpr ⟨hf, hsuffix⟩))
  · rw [if_neg hsrt] at hle hmem ⊢
    cases hopening : opening 0 files with
    | none =>
      rw [hopening] at hle
      exact fun f hf => ⟨opening_eq_none hopening f hf, hle f (List.mem_cons_of_mem _ hf)⟩
    | some p =>
      obtain ⟨f, rest⟩ := p
      rw [hopening] at hmem
      obtain ⟨-, -, largest, hopens⟩ := opening_eq_some hopening
      -- the name of the last file taken ends in `srt`, that from before does not
      have hbest : (files.foldl better (nameOnly fileName)).srtName = true := by
        rcases List.mem_cons.mp hmem with heq | hrest
        · rw [heq]
          exact hopens.srtName
        · exact ZippedFile.srtName_of_srtSuffix (List.mem_filter.mp hrest).2
      unfold ZippedFile.srtName at hbest
      rw [← hname] at hbest
      exact absurd hbest hsrt

end Place

/-! ### The right file -/

/-- The file that should be read: the first largest of the suffix `srt`, if there is one that is not
    empty, else the first largest of all. -/
def Right (pre : List ZippedFile) (q : ZippedFile) (post : List ZippedFile) : Prop :=
  if ∃ f ∈ pre ++ q :: post, f.isSrt = true ∧ 0 < f.uncompressedSize then
    q.isSrt = true ∧
      (∀ f ∈ pre, f.isSrt = true → f.uncompressedSize < q.uncompressedSize) ∧
      ∀ f ∈ post, f.isSrt = true → f.uncompressedSize ≤ q.uncompressedSize
  else
    (∀ f ∈ pre, f.uncompressedSize < q.uncompressedSize) ∧
      ∀ f ∈ post, f.uncompressedSize ≤ q.uncompressedSize

instance (pre : List ZippedFile) (q : ZippedFile) (post : List ZippedFile) :
    Decidable (Right pre q post) := by
  unfold Right
  infer_instance

/-- The library finds the file by its name, or it need not look for it. -/
def Reached (pre : List ZippedFile) (q : ZippedFile) (post : List ZippedFile) : Prop :=
  q.name ≠ [] ∧
    if q.name.length ≤ MAX_FILE_NAME_LENGTH then ∀ f ∈ post, f.name ≠ q.name else pre = []

instance (pre : List ZippedFile) (q : ZippedFile) (post : List ZippedFile) :
    Decidable (Reached pre q post) := by
  unfold Reached
  infer_instance

section Right

variable {q : ZippedFile} {files pre post : List ZippedFile} {fileName : QString}

/-- No later file of the name is larger. -/
theorem Right.le_of_name (h : Right pre q post) {f : ZippedFile} (hf : f ∈ post)
    (hname : f.name = q.name) : f.uncompressedSize ≤ q.uncompressedSize := by
  unfold Right at h
  split_ifs at h
  · apply h.2.2 f hf
    unfold ZippedFile.isSrt
    rw [hname]
    exact h.1
  · exact h.2 f hf

/-- The name is that of the last file taken. -/
theorem selectFile_fileName (files : List ZippedFile) (fileName : QString) :
    (selectFile files fileName).fileName = (files.foldl better (nameOnly fileName)).name :=
  (foldl_tryFile ⟨.opened files, 0, fileName⟩ (nameOnly fileName) files rfl rfl).1

/-- The suffix is one of the name. -/
theorem srtSuffix_of_name {f f' : ZippedFile} (h : f.name = f'.name) :
    f.srtSuffix = f'.srtSuffix := by
  unfold ZippedFile.srtSuffix
  rw [h]

/-- Files of one name are alike. -/
theorem srtName_of_name {f f' : ZippedFile} (h : f.name = f'.name) : f.srtName = f'.srtName := by
  unfold ZippedFile.srtName
  rw [h]

/-- The first file is taken, or it is empty or of the wrong suffix. -/
theorem better_nameOnly (fileName : QString) (q : ZippedFile) :
    better (nameOnly fileName) q = q ∨ (better (nameOnly fileName) q = nameOnly fileName ∧
      (q.srtSuffix = true → q.uncompressedSize = 0) ∧
        (endsWith fileName srt = false → q.srtSuffix = false ∧ q.uncompressedSize = 0)) := by
  by_cases hsrt : endsWith fileName srt = true
  · have hbetter : better (nameOnly fileName) q =
        if q.srtSuffix = true ∧ 0 < q.uncompressedSize then q else nameOnly fileName := if_pos hsrt
    rw [hbetter]
    by_cases htake : q.srtSuffix = true ∧ 0 < q.uncompressedSize
    · exact Or.inl (if_pos htake)
    · refine Or.inr ⟨if_neg htake, fun hsuffix => ?_, fun h => absurd (hsrt.symm.trans h) nofun⟩
      exact Nat.eq_zero_of_not_pos fun hpos => htake ⟨hsuffix, hpos⟩
  · have hbetter : better (nameOnly fileName) q =
        if 0 < q.uncompressedSize ∨ q.srtSuffix = true then q else nameOnly fileName := if_neg hsrt
    rw [hbetter]
    by_cases htake : 0 < q.uncompressedSize ∨ q.srtSuffix = true
    · exact Or.inl (if_pos htake)
    · rw [not_or, Bool.not_eq_true] at htake
      have hzero := Nat.eq_zero_of_not_pos htake.1
      refine Or.inr ⟨if_neg ?_, fun _ => hzero, fun _ => ⟨htake.2, hzero⟩⟩
      rw [not_or, Bool.not_eq_true]
      exact htake

/-- Behind a name that ends in `srt` the files are compared by their suffix, and none of them is
    larger than what the first one leaves. -/
theorem le_of_srtName (h : Right [] q post) {best : ZippedFile}
    (hq : best = q ∨ (best = nameOnly fileName ∧
      (q.srtSuffix = true → q.uncompressedSize = 0) ∧
        (endsWith fileName srt = false → q.srtSuffix = false ∧ q.uncompressedSize = 0)))
    (hsrt : best.srtName = true) (hname : (post.foldl better best).name = q.name)
    {f : ZippedFile} (hf : f ∈ post) (hsuffix : f.srtSuffix = true) :
    f.uncompressedSize ≤ best.uncompressedSize := by
  rw [foldl_better_of_srtName hsrt] at hname
  have hmax := isFirstMax_scanMax ZippedFile.uncompressedSize
    (post.filter ZippedFile.srtSuffix) best
  refine (hmax.le (List.mem_cons_of_mem _ (List.mem_filter.mpr ⟨hf, hsuffix⟩))).trans ?_
  rcases List.mem_cons.mp hmax.mem with heq | hmem
  · rw [heq]
  · obtain ⟨hpost, hlast⟩ := List.mem_filter.mp hmem
    refine (h.le_of_name hpost hname).trans ?_
    rcases hq with rfl | ⟨-, hzero, -⟩
    · exact le_refl _
    · rw [hzero (srtSuffix_of_name hname ▸ hlast)]
      exact Nat.zero_le _

/-- Behind another name no file is taken: the last one that is would end in `srt`, and the first
    one would have been a rival. -/
theorem opening_eq_none_of_right (h : Right [] q post) {best : ZippedFile}
    (hq : best = q ∨ (best = nameOnly fileName ∧
      (q.srtSuffix = true → q.uncompressedSize = 0) ∧
        (endsWith fileName srt = false → q.srtSuffix = false ∧ q.uncompressedSize = 0)))
    (hsrt : best.srtName = false) (hname : (post.foldl better best).name = q.name) :
    opening best.uncompressedSize post = none := by
  rw [foldl_better_of_not_srtName hsrt] at hname
  cases hopening : opening best.uncompressedSize post with
  | none => rfl
  | some p =>
    obtain ⟨k, rest⟩ := p
    rw [hopening] at hname
    obtain ⟨hk, hrest, largest, hopens⟩ := opening_eq_some hopening
    have hmem := (isFirstMax_scanMax ZippedFile.uncompressedSize
      (rest.filter ZippedFile.srtSuffix) k).mem
    dsimp only at hname
    generalize scanMax ZippedFile.uncompressedSize (rest.filter ZippedFile.srtSuffix) k = last
      at hname hmem
    -- the last choice is one of the later files, and it opens the name
    have hopens' : ∃ largest, Opens largest last ∧ last ∈ post := by
      rcases List.mem_cons.mp hmem with rfl | hmem
      · exact ⟨largest, hopens, hk⟩
      · obtain ⟨hlast, hsuffix⟩ := List.mem_filter.mp hmem
        exact ⟨0, Or.inl hsuffix, hrest hlast⟩
    obtain ⟨largest', hlast, hpost⟩ := hopens'
    rcases hq with rfl | ⟨rfl, -, hzero⟩
    · exact absurd ((srtName_of_name hname).symm.trans hlast.srtName) (by rw [hsrt]; nofun)
    · obtain ⟨hsuffix, hzero⟩ := hzero hsrt
      rcases hlast with hlast | ⟨-, hlt⟩
      · exact absurd ((srtSuffix_of_name hname).symm.trans hlast) (by rw [hsuffix]; nofun)
      · have hlt' := hlt.trans_le (h.le_of_name hpost hname)
        rw [hzero] at hlt'
        exact absurd hlt' (Nat.not_lt_zero _)

/-- So none of the files behind it is larger than what the first one leaves. -/
theorem le_of_opening_eq_none (h : Right [] q post) {best : ZippedFile}
    (hle : q.uncompressedSize ≤ best.uncompressedSize) (hsrt : best.srtName = false)
    (hopening : opening best.uncompressedSize post = none)
    (hname : (post.foldl better best).name = q.name) {f : ZippedFile} (hf : f ∈ post) :
    f.uncompressedSize ≤ best.uncompressedSize := by
  rw [foldl_better_of_not_srtName hsrt, hopening] at hname
  have hmax := isFirstMax_scanMax ZippedFile.uncompressedSize post best
  refine (hmax.le (List.mem_cons_of_mem _ hf)).trans ?_
  rcases List.mem_cons.mp hmax.mem with heq | hpost
  · rw [heq]
  · exact (h.le_of_name hpost hname).trans hle

/-- If the right file is the first and the loop ends with its name, all files behind it are passed
    over. -/
theorem passes_of_right (h : Right [] q post)
    (hname : ((q :: post).foldl better (nameOnly fileName)).name = q.name) :
    ∀ f ∈ post, Passes (Unpacking.tryFile ⟨.opened (q :: post), 0, fileName⟩ q) f := by
  have hfirst := foldl_tryFile ⟨.opened (q :: post), 0, fileName⟩
    (nameOnly fileName) [q] rfl rfl
  rw [List.foldl_cons, List.foldl_nil, List.foldl_cons, List.foldl_nil] at hfirst
  rw [List.foldl_cons] at hname
  have hq := better_nameOnly fileName q
  intro f hf
  unfold Passes
  rw [hfirst.1, hfirst.2]
  generalize better (nameOnly fileName) q = best at hname hq ⊢
  by_cases hsrt : best.srtName = true
  · exact (if_pos hsrt).mpr fun hsuffix => le_of_srtName h hq hsrt hname hf hsuffix
  · have hnot : ¬endsWith best.name srt = true := hsrt
    rw [Bool.not_eq_true] at hsrt
    have hle : q.uncompressedSize ≤ best.uncompressedSize := by
      rcases hq with rfl | ⟨rfl, -, hzero⟩
      · exact le_refl _
      · rw [(hzero hsrt).2]
        exact Nat.zero_le _
    have hopening := opening_eq_none_of_right h hq hsrt hname
    rw [if_neg hnot]
    exact ⟨opening_eq_none hopening f hf, le_of_opening_eq_none h hle hsrt hopening hname hf⟩

/-- What the loop ends with, if a file is ever taken. -/
theorem selectFile_iff_of_not_idle (h : Right pre q post)
    (hidle : ¬Idle fileName (pre ++ q :: post)) :
    ((selectFile (pre ++ q :: post) fileName).zip.current = some pre.length ∧
        (selectFile (pre ++ q :: post) fileName).fileName = q.name) ↔
      (∃ f, IsFirstMax ZippedFile.uncompressedSize (rivals fileName (pre ++ q :: post)) f ∧
        f.name = q.name) ∧ Reached pre q post := by
  have hmax := isFirstMax_best fileName (pre ++ q :: post)
  obtain ⟨hempty, hplace⟩ := selectFile_named hidle
  have hname := selectFile_fileName (pre ++ q :: post) fileName
  unfold Reached
  constructor
  · rintro ⟨hcurrent, hlast⟩
    rw [hlast] at hempty hplace hname
    have hne : q.name ≠ [] := fun hnil => absurd (hcurrent.symm.trans (hempty hnil)) nofun
    refine ⟨⟨_, hmax, hname.symm⟩, hne, ?_⟩
    by_cases hlong : q.name.length ≤ MAX_FILE_NAME_LENGTH
    · rw [if_pos hlong]
      exact placeOf_eq_some_iff.mp ((hplace hne hlong).symm.trans hcurrent)
    · rw [if_neg hlong]
      -- a long name is not found, so the current file is the first one
      by_contra hpre
      obtain ⟨f, hget, hle⟩ := (selectFile_placed _ fileName).2 _ hcurrent fun hzero =>
        hpre (List.length_eq_zero_iff.mp hzero)
      rw [List.getElem?_append_right (le_refl _), Nat.sub_self] at hget
      obtain rfl := Option.some.inj hget
      exact hlong hle
  · rintro ⟨⟨f, hf, hfname⟩, hne, hreach⟩
    obtain rfl := hf.unique hmax
    rw [hfname] at hname
    refine ⟨?_, hname⟩
    by_cases hlong : q.name.length ≤ MAX_FILE_NAME_LENGTH
    · rw [if_pos hlong] at hreach
      rw [hname] at hplace
      rw [hplace hne hlong]
      exact placeOf_eq_some_iff.mpr hreach
    · rw [if_neg hlong] at hreach
      subst hreach
      rw [List.nil_append] at hfname ⊢
      have hstay := foldl_of_passes post (passes_of_right h hfname)
      show ((q :: post).foldl Unpacking.tryFile _).zip.current = some 0
      rw [List.foldl_cons, hstay]
      rcases tryFile_eq_or ⟨.opened (q :: post), 0, fileName⟩ q with hs | hs
      · rw [hs]
        rfl
      · rw [hs]
        show ((QuaZip.opened (q :: post)).setCurrentFile q.name).current = some 0
        unfold QuaZip.setCurrentFile
        rw [if_neg hne, if_pos (not_le.mp hlong)]
        rfl

/-- What the loop ends with, whether a file is taken or not. -/
theorem selectFile_iff (h : Right pre q post) :
    ((selectFile (pre ++ q :: post) fileName).zip.current = some pre.length ∧
        (selectFile (pre ++ q :: post) fileName).fileName = q.name) ↔
      if Idle fileName (pre ++ q :: post) then pre = [] ∧ fileName = q.name
      else (∃ f, IsFirstMax ZippedFile.uncompressedSize (rivals fileName (pre ++ q :: post)) f ∧
        f.name = q.name) ∧ Reached pre q post := by
  by_cases hidle : Idle fileName (pre ++ q :: post)
  · rw [if_pos hidle, selectFile_of_idle hidle]
    apply and_congr_left
    rintro -
    show (if pre ++ q :: post = [] then none else some 0) = some pre.length ↔ pre = []
    rw [if_neg (by simp), Option.some.injEq, eq_comm, List.length_eq_zero_iff]
  · rw [if_neg hidle]
    exact selectFile_iff_of_not_idle h hidle

end Right

/-! ### When the right file is read -/

section SetZipData

variable {u : Unpacker} {item : ZippedItem} {data : QByteArray} {files : List ZippedFile}

/-- The data is an archive of these files. -/
def Unpacker.IsZip (u : Unpacker) (item : ZippedItem) (data : QByteArray)
    (files : List ZippedFile) : Prop :=
  data ≠ [] ∧ item.isGzip = false ∧ u.unzip data = some files

/-- **The right file is read**, and its name is kept. -/
def RightRead (u : Unpacker) (item : ZippedItem) (data : QByteArray) (files : List ZippedFile) :
    Prop :=
  ∃ pre q post, files = pre ++ q :: post ∧ Right pre q post ∧
    (selectFile files item.fileName).zip.current = some pre.length ∧
    (item.setZipData u data).1.fileName = q.name ∧
    ∀ bytes, q.contents = some bytes → (item.setZipData u data).1.data = bytes

/-- The right file has the name of the first largest of the rivals, and the library finds it by that
    name.  If no file is ever taken, it is the first one, and the name from before is its own. -/
def RightTaken (fileName : QString) (files : List ZippedFile) : Prop :=
  ∃ pre q post, files = pre ++ q :: post ∧ Right pre q post ∧
    if Idle fileName files then pre = [] ∧ fileName = q.name
    else (∃ f, IsFirstMax ZippedFile.uncompressedSize (rivals fileName files) f ∧
      f.name = q.name) ∧ Reached pre q post

/-- An archive of two files or more goes through the loop. -/
theorem setZipData_eq (hzip : u.IsZip item data files) (htwo : 2 ≤ files.length) :
    item.setZipData u data =
      ({ item with
        zipData := data
        fileName := (selectFile files item.fileName).fileName } : ZippedItem).read
          (selectFile files item.fileName).zip.readAll := by
  obtain ⟨hdata, hgzip, hunzip⟩ := hzip
  have hgzip' : ({ item with zipData := data } : ZippedItem).isGzip = false := hgzip
  unfold ZippedItem.setZipData
  rw [if_neg hdata]
  dsimp only
  rw [hgzip', if_neg Bool.false_ne_true, hunzip]
  match files, htwo with
  | f :: f' :: files, _ => rfl

/-- The end of `setZipData` keeps the name and the data of a file that can be read. -/
theorem read_fst (item : ZippedItem) (contents : Option QByteArray) :
    (item.read contents).1.fileName = item.fileName ∧
      ∀ bytes, contents = some bytes → (item.read contents).1.data = bytes := by
  cases contents with
  | none => exact ⟨rfl, fun _ h => absurd h nofun⟩
  | some data => exact ⟨rfl, fun _ h => Option.some.inj h⟩

/-- **When the right file is read.** -/
theorem setZipData_iff (hzip : u.IsZip item data files) (htwo : 2 ≤ files.length) :
    RightRead u item data files ↔ RightTaken item.fileName files := by
  unfold RightRead RightTaken
  rw [setZipData_eq hzip htwo]
  refine exists_congr fun pre => exists_congr fun q => exists_congr fun post => ?_
  apply and_congr_right
  rintro rfl
  apply and_congr_right
  intro hright
  rw [← selectFile_iff hright]
  obtain ⟨hname, hdata⟩ := read_fst
    { item with
      zipData := data
      fileName := (selectFile (pre ++ q :: post) item.fileName).fileName }
    (selectFile (pre ++ q :: post) item.fileName).zip.readAll
  rw [hname]
  refine ⟨fun h => ⟨h.1, h.2.1⟩, fun h => ⟨h.1, h.2, fun bytes hbytes => hdata bytes ?_⟩⟩
  -- the current file is the right one, so it is what is read
  unfold QuaZip.readAll
  rw [h.1, (selectFile_placed _ _).1]
  rw [Option.bind_some, List.getElem?_append_right (le_refl _), Nat.sub_self]
  exact hbytes

/-- `a.sub` with a hundred bytes. -/
def filledSub : ZippedFile :=
  ⟨[0x61, 0x2E, 0x73, 0x75, 0x62], 100, some (List.replicate 100 0x61)⟩

/-- An empty `b.srt`. -/
def emptySrt : ZippedFile :=
  ⟨[0x62, 0x2E, 0x73, 0x72, 0x74], 0, some []⟩

/-- `b.srt` with one byte. -/
def filledSrt : ZippedFile :=
  ⟨[0x62, 0x2E, 0x73, 0x72, 0x74], 1, some [0x61]⟩

/-- A new item, and a library that finds these files. -/
def newItem : ZippedItem :=
  ⟨[], [0x61], [], [], []⟩

def unpackerOf (files : List ZippedFile) : Unpacker :=
  ⟨true, fun _ => none, fun _ => some files⟩

/-- A subtitle behind a larger file of another kind. -/
theorem setZipData_iff_filledSrt :
    newItem.fileName = [] ∧
      (RightRead (unpackerOf [filledSub, filledSrt]) newItem [0x50] [filledSub, filledSrt] ↔
        RightTaken [] [filledSub, filledSrt]) :=
  ⟨rfl, setZipData_iff ⟨by decide, by decide, rfl⟩ (by decide)⟩

/-- An empty subtitle is taken in the place of a file that has something. -/
theorem not_rightRead_emptySrt :
    ¬RightRead (unpackerOf [filledSub, emptySrt]) newItem [0x50] [filledSub, emptySrt] := by
  rintro ⟨pre, q, post, hfiles, hright, -, hname, -⟩
  have hlast : (newItem.setZipData (unpackerOf [filledSub, emptySrt]) [0x50]).1.fileName =
      emptySrt.name := by decide
  rw [hlast] at hname
  match pre, hfiles with
  | [], hfiles =>
    obtain ⟨rfl, -⟩ := List.cons.inj hfiles
    exact absurd hname (by decide)
  | [f], hfiles =>
    obtain ⟨hf, hfiles⟩ := List.cons.inj hfiles
    obtain ⟨rfl, rfl⟩ := List.cons.inj hfiles
    rw [← hf] at hright
    exact absurd hright (by decide)
  | _ :: _ :: _, hfiles =>
    have hlen := congrArg List.length hfiles
    simp at hlen

end SetZipData

end PopcornTime.Desktop
