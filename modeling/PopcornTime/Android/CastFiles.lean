import Mathlib.Data.List.DropRight
import Mathlib.Data.List.Find
import PopcornTime.Android.CastUri
import PopcornTime.Lib.FileTree
import PopcornTime.Lib.TextParts

namespace PopcornTime.Android

open PopcornTime

/-!
# Android — which files the cast server serves

A uri names a file below one of the roots; what a directory has is listed, with a link for each
entry.  A uri with `../` in it is refused.

* `SimpleWebServer.respond`, `SimpleWebServer.serve` — what is served for a uri.
* `SimpleWebServer.listDirectory` — the page for a directory.
* `SimpleWebServer.serve_agree` — nothing outside the roots has an effect on what is served.
* `SimpleWebServer.link_file`, `SimpleWebServer.link_directory` — the links of a page lead to the
  entries they are for, unless the name is one of those that are read otherwise.
-/

namespace SimpleWebServer

open NanoHTTPD
open SRTFormat (trim utf16)

abbrev Place := List (List Char)

/-- The files of the device, and which directories can be listed. -/
structure Disk where
  tree : FileTree CastFile
  canRead : Place → Bool

def INDEX_FILE_NAMES : List (List Char) := ["index.html".toList, "index.htm".toList]

def MIME_DEFAULT_BINARY : String := "application/octet-stream"

def MIME_TYPES : List (String × String) := [
  ("css", "text/css"),
  ("htm", "text/html"),
  ("html", "text/html"),
  ("xml", "text/xml"),
  ("java", "text/x-java-source, text/java"),
  ("md", "text/plain"),
  ("txt", "text/plain"),
  ("asc", "text/plain"),
  ("gif", "image/gif"),
  ("jpg", "image/jpeg"),
  ("jpeg", "image/jpeg"),
  ("png", "image/png"),
  ("mp3", "audio/mpeg"),
  ("m3u", "audio/mpeg-url"),
  ("mp4", "video/mp4"),
  ("ogv", "video/ogg"),
  ("flv", "video/x-flv"),
  ("mov", "video/quicktime"),
  ("swf", "application/x-shockwave-flash"),
  ("js", "application/javascript"),
  ("pdf", "application/pdf"),
  ("doc", "application/msword"),
  ("ogg", "application/x-ogg"),
  ("zip", "application/octet-stream"),
  ("exe", "application/octet-stream"),
  ("class", "application/octet-stream")]

def getMimeTypeForFile (platform : Platform) (uri : List Char) : String :=
  if '.' ∈ uri then
    let extension := platform.toLowerCase (uri.rtakeWhile (· != '.'))
    (MIME_TYPES.lookup (String.ofList extension)).getD MIME_DEFAULT_BINARY
  else MIME_DEFAULT_BINARY

/-! ### The page of a directory -/

/-- `Collections.sort` -/
def sortNames (names : List (List Char)) : List (List Char) :=
  names.mergeSort fun a b => decide (utf16 a ≤ utf16 b)

def filesIn (disk : Disk) (place : Place) : List (List Char) :=
  sortNames ((disk.tree.names place).filter fun name => disk.tree.isFile (place ++ [name]))

def directoriesIn (disk : Disk) (place : Place) : List (List Char) :=
  sortNames ((disk.tree.names place).filter fun name => disk.tree.isDirectory (place ++ [name]))

/-- The link of a file. -/
def fileLink (uri name : List Char) : List Char := encodeUri (uri ++ name)

/-- The link of a directory. -/
def directoryLink (uri name : List Char) : List Char := encodeUri (uri ++ (name ++ ['/']))

/-- `File.length` -/
def lengthOf (disk : Disk) (place : Place) : ℕ :=
  match disk.tree.entry place with
  | some (.file file) => file.content.length
  | _ => 0

/-- The length of a file as the page has it. -/
def fileSize (len : ℕ) : String :=
  if len < 1024 then toString len ++ " bytes"
  else if len < 1024 * 1024 then
    toString (len / 1024) ++ "." ++ toString (len % 1024 / 10 % 100) ++ " KB"
  else
    toString (len / (1024 * 1024)) ++ "." ++ toString (len % (1024 * 1024) / 10 % 100) ++ " MB"

/-- The directory that the page's first link goes up to. -/
def upLink (uri : List Char) : Option (List Char) :=
  if 1 < uri.length then
    let u := uri.dropLast
    if '/' ∈ u then some (u.rdropWhile (· != '/')) else none
  else none

def directoryItem (uri name : List Char) : String :=
  "<li><a rel=\"directory\" href=\"" ++ String.ofList (directoryLink uri name) ++
    "\"><span class=\"dirname\">" ++ String.ofList (name ++ ['/']) ++ "</span></a></b></li>"

def fileItem (uri name : List Char) (len : ℕ) : String :=
  "<li><a href=\"" ++ String.ofList (fileLink uri name) ++ "\"><span class=\"filename\">" ++
    String.ofList name ++ "</span></a>" ++ "&nbsp;<span class=\"filesize\">(" ++ fileSize len ++
    ")</span></li>"

/-- The text of the page, with the names of the directories and the names and lengths of the
    files. -/
def pageOf (uri : List Char) (directories : List (List Char)) (files : List (List Char × ℕ)) :
    String :=
  let heading := "Directory " ++ String.ofList uri
  let up := upLink uri
  "<html><head><title>" ++ heading ++ "</title><style><!--\n" ++
    "span.dirname \x7b font-weight: bold; \x7d\n" ++ "span.filesize \x7b font-size: 75%; \x7d\n" ++
    "// -->\n" ++ "</style>" ++ "</head><body><h1>" ++ heading ++ "</h1>" ++
  (if up ≠ none ∨ 0 < directories.length + files.length then
    "<ul>" ++
    (if up ≠ none ∨ 0 < directories.length then
      "<section class=\"directories\">" ++
      (match up with
        | some up => "<li><a rel=\"directory\" href=\"" ++ String.ofList up ++
            "\"><span class=\"dirname\">..</span></a></b></li>"
        | none => "") ++
      String.join (directories.map (directoryItem uri)) ++
      "</section>"
    else "") ++
    (if 0 < files.length then
      "<section class=\"files\">" ++
      String.join (files.map fun file => fileItem uri file.1 file.2) ++
      "</section>"
    else "") ++
    "</ul>"
  else "") ++
  "</body></html>"

def listDirectory (disk : Disk) (uri : List Char) (place : Place) : String :=
  pageOf uri (directoriesIn disk place)
    ((filesIn disk place).map fun name => (name, lengthOf disk (place ++ [name])))

/-! ### Serving -/

/-- What is served. -/
inductive Answer
  | internalError (message : String)
  | forbidden (message : String)
  | notFound
  | redirect (uri : List Char)
  | listing (uri : List Char) (place : Place)
  | file (uri : List Char) (place : Place) (file : CastFile)

/-- The uri without its arguments. -/
def cleanUri (uri : List Char) : List Char := (trim uri).takeWhile (· != '?')

def isForbidden (uri : List Char) : Prop :=
  "src/main".toList <+: uri ∨ "src/main".toList <:+ uri ∨ "../".toList <:+: uri

instance (uri : List Char) : Decidable (isForbidden uri) :=
  inferInstanceAs (Decidable (_ ∨ _ ∨ _))

/-- The file that a uri names, below the first root that has one. -/
def locate (disk : Disk) (roots : List Place) (uri : List Char) : Option Place :=
  roots.findSome? fun homeDir => disk.tree.walk homeDir (segments uri)

def findIndexFileInDirectory (disk : Disk) (place : Place) : Option (List Char) :=
  INDEX_FILE_NAMES.find? fun name => (disk.tree.entry (place ++ [name])).isSome

/-! ### Cleaned uris -/

def isSpace (c : Char) : Bool := decide (c ≤ ' ')

/-- `trim` takes the blanks from both ends. -/
theorem trim_eq (s : List Char) : trim s = (s.dropWhile isSpace).rdropWhile isSpace := rfl

/-- What is dropped from the end does not reach a text whose last character stays. -/
theorem rdropWhile_append_of_last {p : Char → Bool} {l : List Char} (h : ∀ c ∈ l.getLast?, p c = false)
    (more : List Char) : (l ++ more).rdropWhile p = l ++ more.rdropWhile p := by
  induction more using List.reverseRecOn with
  | nil =>
    rw [List.append_nil, List.rdropWhile_nil, List.append_nil, List.rdropWhile_eq_self_iff]
    intro hl
    rw [h _ (List.getLast_mem_getLast? hl)]
    exact Bool.false_ne_true
  | append_singleton more c ih =>
    rw [← List.append_assoc]
    cases hc : p c with
    | true => rw [List.rdropWhile_concat_pos _ _ _ hc, List.rdropWhile_concat_pos _ _ _ hc, ih]
    | false =>
      have hnot : ¬p c = true := by simp [hc]
      rw [List.rdropWhile_concat_neg _ _ _ hnot, List.rdropWhile_concat_neg _ _ _ hnot,
        List.append_assoc]

/-- A text without a question mark is kept whole. -/
theorem takeWhile_mark {l : List Char} (h : '?' ∉ l) : l.takeWhile (· != '?') = l := by
  apply List.takeWhile_eq_self_iff.mpr
  intro c hc
  have hne : c ≠ '?' := fun heq => h (heq ▸ hc)
  simpa using hne

/-- A file name that is put behind a uri is still there. -/
theorem not_slash_cleanUri {uri name : List Char} (hmark : '?' ∉ uri)
    (hname : name ∈ INDEX_FILE_NAMES) : ¬['/'] <:+ cleanUri (uri ++ name) := by
  have hall : ∀ name ∈ INDEX_FILE_NAMES, name.dropWhile isSpace = name ∧
      name.all isSpace ≠ true ∧ name.rdropWhile isSpace = name ∧ '?' ∉ name ∧
      name.getLast? ≠ some '/' ∧ name ≠ [] := by
    decide
  obtain ⟨hhead, hnotAll, hlast, hmark', hslash, hne⟩ := hall name hname
  have hnot : ¬∀ c ∈ name, isSpace c = true := mt List.all_eq_true.mpr hnotAll
  have hdrop : (uri ++ name).dropWhile isSpace = uri.dropWhile isSpace ++ name := by
    rw [List.dropWhile_append, hhead]
    split_ifs with hempty
    · rw [List.isEmpty_iff.mp hempty, List.nil_append]
    · rfl
  have hmarks : '?' ∉ uri.dropWhile isSpace ++ name := by
    rw [List.mem_append, not_or]
    exact ⟨fun hmem => hmark ((List.dropWhile_sublist _).mem hmem), hmark'⟩
  rw [cleanUri, trim_eq, hdrop, rdropWhile_append_of_not_all hnot, hlast, takeWhile_mark hmarks]
  rintro ⟨rest, hrest⟩
  have hend := congrArg List.getLast? hrest
  rw [List.getLast?_append_of_ne_nil _ hne] at hend
  rw [List.getLast?_concat] at hend
  exact hslash hend.symm

/-- A cleaned uri has no question mark. -/
theorem mark_not_mem_cleanUri (uri : List Char) : '?' ∉ cleanUri uri := by
  intro h
  simpa using List.mem_takeWhile_imp h

/-- `respond`, on the uri of a request or of an index file. -/
def respond (disk : Disk) (roots : List Place) (uri : List Char) : Answer :=
  if isForbidden (cleanUri uri) then .forbidden "Won't serve ../ for security reasons."
  else
    match locate disk roots (cleanUri uri) with
    | none => .notFound
    | some f =>
      match disk.tree.entry f with
      | none => .notFound
      | some (.file file) => .file (cleanUri uri) f file
      | some .directory =>
        -- a directory is asked for with a slash at the end
        if ¬['/'] <:+ cleanUri uri then .redirect (cleanUri uri ++ ['/'])
        else
          match _ : findIndexFileInDirectory disk f with
          | none =>
            if disk.canRead f then .listing (cleanUri uri) f
            else .forbidden "No directory listing."
          -- the index file is served under its own uri
          | some indexFile => respond disk roots (cleanUri uri ++ indexFile)
termination_by if ['/'] <:+ cleanUri uri then 1 else 0
decreasing_by
  rename_i hslash hindex
  have hmem : indexFile ∈ INDEX_FILE_NAMES := List.mem_of_find?_eq_some hindex
  rw [if_neg (not_slash_cleanUri (mark_not_mem_cleanUri uri) hmem), if_pos (not_not.mp hslash)]
  exact Nat.zero_lt_one

/-- The path of a place. -/
def pathOf (place : Place) : String :=
  if place = [] then "/" else String.ofList (place.flatMap fun name => '/' :: name)

def serve (disk : Disk) (roots : List Place) (uri : List Char) : Answer :=
  match roots.find? fun homeDir => !disk.tree.isDirectory homeDir with
  | some homeDir => .internalError ("given path is not a directory (" ++ pathOf homeDir ++ ").")
  | none => respond disk roots uri

/-- The response with an answer. -/
def Answer.response (platform : Platform) (disk : Disk) (header : List (String × String)) :
    Answer → Response
  | .internalError message =>
    announced (.ofText .INTERNAL_ERROR MIME_PLAINTEXT ("INTERNAL ERRROR: " ++ message))
  | .forbidden message => getForbiddenResponse message
  | .notFound => announced (.ofText .NOT_FOUND MIME_PLAINTEXT "Error 404, file not found.")
  | .redirect uri =>
    (announced (.ofText .REDIRECT MIME_HTML ("<html><body>Redirected: <a href=\"" ++
      String.ofList uri ++ "\">" ++ String.ofList uri ++ "</a></body></html>"))).addHeader
        "Location" (String.ofList uri)
  | .listing uri place => announced (.ofText .OK MIME_HTML (listDirectory disk uri place))
  | .file uri _ f => serveFile header f (getMimeTypeForFile platform uri)

/-! ### Nothing outside the roots -/

variable {disk disk₁ disk₂ : Disk} {roots : List Place} {uri : List Char} {place : Place}

/-- Some root is above the place. -/
def IsInside (roots : List Place) (place : Place) : Prop := ∃ homeDir ∈ roots, homeDir <+: place

/-- What is below a place below a root is below the root. -/
theorem IsInside.append (h : IsInside roots place) (more : Place) :
    IsInside roots (place ++ more) := by
  obtain ⟨homeDir, hmem, hbelow⟩ := h
  exact ⟨homeDir, hmem, hbelow.trans (List.prefix_append _ _)⟩

/-- What a uri names is below a root, or it is a directory and the uri does not end with a slash. -/
theorem inside_of_locate (hdots : ¬"../".toList <:+: uri) {f : Place}
    (h : locate disk roots uri = some f) :
    IsInside roots f ∨ disk.tree.entry f = some .directory ∧ ¬['/'] <:+ uri := by
  rw [locate] at h
  obtain ⟨homeDir, hmem, hwalk⟩ := List.exists_of_findSome?_eq_some h
  rcases up_of_not_infix hdots with hup | ⟨⟨names, hnames, -⟩, hslash⟩
  · exact .inl ⟨homeDir, hmem, FileTree.prefix_of_walk hup hwalk⟩
  · rw [hnames] at hwalk
    exact .inr ⟨FileTree.isDirectory_iff.mp (FileTree.isDirectory_of_walk_up hwalk), hslash⟩

/-- The place that an answer has the contents of. -/
def Answer.place? : Answer → Option Place
  | .listing _ place => some place
  | .file _ place _ => some place
  | _ => none

/-- A directory whose uri ends with a slash is below a root. -/
theorem inside_of_slash {f : Place} (hforbidden : ¬isForbidden uri)
    (hlocate : locate disk roots uri = some f) (hslash : ¬¬['/'] <:+ uri) : IsInside roots f := by
  rcases inside_of_locate (fun hdots => hforbidden (.inr (.inr hdots))) hlocate with hin | hout
  · exact hin
  · exact absurd hout.2 hslash

/-- A file that a uri names is below a root. -/
theorem inside_of_file {f : Place} {file : CastFile} (hforbidden : ¬isForbidden uri)
    (hlocate : locate disk roots uri = some f) (hentry : disk.tree.entry f = some (.file file)) :
    IsInside roots f := by
  rcases inside_of_locate (fun hdots => hforbidden (.inr (.inr hdots))) hlocate with hin | hout
  · exact hin
  · rw [hout.1] at hentry
    cases hentry

/-- **What is served** is below a root. -/
theorem inside_respond (h : place ∈ (respond disk roots uri).place?) : IsInside roots place := by
  fun_induction respond disk roots uri with
  | case1 => cases h
  | case2 => cases h
  | case3 => cases h
  | case4 uri hforbidden f hlocate file hentry =>
    obtain rfl : f = place := Option.some.inj h
    exact inside_of_file hforbidden hlocate hentry
  | case5 => cases h
  | case6 uri hforbidden f hlocate hentry hslash =>
    obtain rfl : f = place := Option.some.inj h
    exact inside_of_slash hforbidden hlocate hslash
  | case7 => cases h
  | case8 _ _ _ _ _ _ _ _ ih => exact ih h

/-- The disks have the same below the roots. -/
structure AgreeInside (disk₁ disk₂ : Disk) (roots : List Place) : Prop where
  entry : ∀ homeDir ∈ roots, disk₁.tree.AgreeBelow disk₂.tree homeDir
  names : ∀ place, IsInside roots place → disk₁.tree.names place = disk₂.tree.names place
  canRead : ∀ place, IsInside roots place → disk₁.canRead place = disk₂.canRead place

/-- Below the roots the disks have the same entries. -/
theorem AgreeInside.entry_eq (h : AgreeInside disk₁ disk₂ roots) (hinside : IsInside roots place) :
    disk₁.tree.entry place = disk₂.tree.entry place := by
  obtain ⟨homeDir, hmem, hbelow⟩ := hinside
  exact (h.entry homeDir hmem).entry hbelow

/-- A uri without `../` names the same place on both disks. -/
theorem AgreeInside.locate_eq (h : AgreeInside disk₁ disk₂ roots)
    (hdots : ¬"../".toList <:+: uri) : locate disk₁ roots uri = locate disk₂ roots uri := by
  have hwalk : ∀ homeDir ∈ roots, disk₁.tree.walk homeDir (segments uri) =
      disk₂.tree.walk homeDir (segments uri) := by
    intro homeDir hmem
    rcases up_of_not_infix hdots with hup | ⟨⟨names, hnames, hup⟩, -⟩
    · exact (h.entry homeDir hmem).walk hup
    · rw [hnames]
      exact (h.entry homeDir hmem).walk_up hup
  rw [locate, locate]
  clear h
  induction roots with
  | nil => rfl
  | cons homeDir roots ih =>
    rw [List.forall_mem_cons] at hwalk
    rw [List.findSome?_cons, List.findSome?_cons, hwalk.1, ih hwalk.2]

/-- What a uri names is the same on both disks. -/
theorem AgreeInside.located (h : AgreeInside disk₁ disk₂ roots) (hforbidden : ¬isForbidden uri)
    {f : Place} (hlocate : locate disk₁ roots uri = some f) :
    locate disk₂ roots uri = some f ∧ disk₁.tree.entry f = disk₂.tree.entry f := by
  have hdots : ¬"../".toList <:+: uri := fun hdots => hforbidden (.inr (.inr hdots))
  have hlocate₂ : locate disk₂ roots uri = some f := by rw [← h.locate_eq hdots, hlocate]
  refine ⟨hlocate₂, ?_⟩
  rcases inside_of_locate hdots hlocate with hin | hout
  · exact h.entry_eq hin
  · rcases inside_of_locate hdots hlocate₂ with hin | hout₂
    · exact h.entry_eq hin
    · rw [hout.1, hout₂.1]

/-- A directory below a root has the same index file on both disks. -/
theorem AgreeInside.findIndex_eq (h : AgreeInside disk₁ disk₂ roots) (hinside : IsInside roots place) :
    findIndexFileInDirectory disk₁ place = findIndexFileInDirectory disk₂ place := by
  rw [findIndexFileInDirectory, findIndexFileInDirectory]
  congr 1
  funext name
  rw [h.entry_eq (hinside.append [name])]

/-- For a directory there is its index file or its page. -/
theorem respond_directory {f : Place} (hforbidden : ¬isForbidden (cleanUri uri))
    (hlocate : locate disk roots (cleanUri uri) = some f)
    (hentry : disk.tree.entry f = some .directory) (hslash : ¬¬['/'] <:+ cleanUri uri) :
    respond disk roots uri = match findIndexFileInDirectory disk f with
      | none =>
        if disk.canRead f then .listing (cleanUri uri) f else .forbidden "No directory listing."
      | some indexFile => respond disk roots (cleanUri uri ++ indexFile) := by
  rw [respond, if_neg hforbidden, hlocate]
  dsimp only
  rw [hentry]
  dsimp only
  rw [if_neg hslash]
  split
  · next hindex => rw [hindex]
  · next hindex => rw [hindex]

/-- Both disks answer the same; once more for the index file of a directory. -/
theorem AgreeInside.respond_eq (h : AgreeInside disk₁ disk₂ roots) :
    respond disk₁ roots uri = respond disk₂ roots uri := by
  fun_induction respond disk₁ roots uri with
  | case1 uri hforbidden => rw [respond, if_pos hforbidden]
  | case2 uri hforbidden hlocate =>
    -- an allowed uri has no way up, so it stays under the roots
    have hdots : ¬"../".toList <:+: cleanUri uri := fun hdots => hforbidden (.inr (.inr hdots))
    rw [respond, if_neg hforbidden, ← h.locate_eq hdots, hlocate]
  | case3 uri hforbidden f hlocate hentry =>
    obtain ⟨hlocate₂, heq⟩ := h.located hforbidden hlocate
    rw [respond, if_neg hforbidden, hlocate₂]
    dsimp only
    rw [← heq, hentry]
  | case4 uri hforbidden f hlocate file hentry =>
    obtain ⟨hlocate₂, heq⟩ := h.located hforbidden hlocate
    rw [respond, if_neg hforbidden, hlocate₂]
    dsimp only
    rw [← heq, hentry]
  | case5 uri hforbidden f hlocate hentry hslash =>
    obtain ⟨hlocate₂, heq⟩ := h.located hforbidden hlocate
    rw [respond, if_neg hforbidden, hlocate₂]
    dsimp only
    rw [← heq, hentry]
    dsimp only
    rw [if_pos hslash]
  | case6 uri hforbidden f hlocate hentry hslash hindex hread =>
    obtain ⟨hlocate₂, heq⟩ := h.located hforbidden hlocate
    have hinside := inside_of_slash hforbidden hlocate hslash
    rw [respond_directory hforbidden hlocate₂ (heq ▸ hentry) hslash, ← h.findIndex_eq hinside,
      hindex]
    dsimp only
    rw [if_pos (h.canRead f hinside ▸ hread)]
  | case7 uri hforbidden f hlocate hentry hslash hindex hread =>
    obtain ⟨hlocate₂, heq⟩ := h.located hforbidden hlocate
    have hinside := inside_of_slash hforbidden hlocate hslash
    rw [respond_directory hforbidden hlocate₂ (heq ▸ hentry) hslash, ← h.findIndex_eq hinside,
      hindex]
    dsimp only
    rw [if_neg (h.canRead f hinside ▸ hread)]
  | case8 uri hforbidden f hlocate hentry hslash indexFile hindex ih =>
    obtain ⟨hlocate₂, heq⟩ := h.located hforbidden hlocate
    have hinside := inside_of_slash hforbidden hlocate hslash
    rw [respond_directory hforbidden hlocate₂ (heq ▸ hentry) hslash, ← h.findIndex_eq hinside,
      hindex]
    -- the index file is served by the same call, on its own uri
    exact ih

/-- The page of a directory below a root. -/
theorem AgreeInside.listDirectory_eq (h : AgreeInside disk₁ disk₂ roots)
    (hinside : IsInside roots place) :
    listDirectory disk₁ uri place = listDirectory disk₂ uri place := by
  have hentry : ∀ name, disk₁.tree.entry (place ++ [name]) = disk₂.tree.entry (place ++ [name]) :=
    fun name => h.entry_eq (hinside.append [name])
  have hfiles : filesIn disk₁ place = filesIn disk₂ place := by
    simp only [filesIn, FileTree.isFile, hentry, h.names place hinside]
  have hdirectories : directoriesIn disk₁ place = directoriesIn disk₂ place := by
    simp only [directoriesIn, FileTree.isDirectory, hentry, h.names place hinside]
  have hlength : ∀ name, lengthOf disk₁ (place ++ [name]) = lengthOf disk₂ (place ++ [name]) := by
    intro name
    rw [lengthOf, lengthOf, hentry]
  rw [listDirectory, listDirectory, hfiles, hdirectories]
  congr 2
  funext name
  rw [hlength]

/-- **Nothing outside the roots** has an effect on a response: on disks with the same files below
    the roots, every request has the same. -/
theorem serve_agree (h : AgreeInside disk₁ disk₂ roots) (platform : Platform)
    (header : List (String × String)) (uri : List Char) :
    (serve disk₁ roots uri).response platform disk₁ header =
      (serve disk₂ roots uri).response platform disk₂ header := by
  have hroots : (roots.find? fun homeDir => !disk₁.tree.isDirectory homeDir) =
      roots.find? fun homeDir => !disk₂.tree.isDirectory homeDir := by
    apply List.find?_congr
    intro homeDir hmem
    rw [(h.entry homeDir hmem).isDirectory]
  rw [serve, serve, hroots]
  cases roots.find? fun homeDir => !disk₂.tree.isDirectory homeDir with
  | some homeDir => rfl
  | none =>
    dsimp only
    rw [← h.respond_eq]
    cases hanswer : respond disk₁ roots uri with
    | listing uri' place =>
      have hinside : IsInside roots place :=
        @inside_respond disk₁ roots uri place (by rw [hanswer]; rfl)
      exact congrArg (fun page => announced (.ofText .OK MIME_HTML page))
        (h.listDirectory_eq hinside)
    | _ => rfl

def sampleFile : CastFile := ⟨[104, 105], "1f", true, 2, fun _ => rfl, by decide⟩

/-- A folder with a file and a folder in it. -/
def sampleEntries : List (Place × Entry CastFile) := [
  (["www".toList], .directory),
  (["www".toList, "a b.txt".toList], .file sampleFile),
  (["www".toList, "sub".toList], .directory)]

def sampleDisk : Disk where
  tree := FileTree.ofEntries sampleEntries (by decide)
  canRead _ := true

/-- The same with a file beside the folder. -/
def secretDisk : Disk where
  tree := FileTree.ofEntries ((["secret".toList], .file sampleFile) :: sampleEntries) (by decide)
  canRead _ := true

/-- A file beside the folder is not seen. -/
theorem serve_agree_secret :
    (serve sampleDisk [["www".toList]] "/../secret".toList).response
        ⟨fun _ => [], id, id⟩ sampleDisk [] =
      (serve secretDisk [["www".toList]] "/../secret".toList).response
        ⟨fun _ => [], id, id⟩ secretDisk [] := by
  have hagree : AgreeInside sampleDisk secretDisk [["www".toList]] := by
    refine ⟨?_, ?_, fun _ _ => rfl⟩
    · intro homeDir hmem more
      obtain rfl := List.mem_singleton.mp hmem
      rfl
    · rintro place ⟨homeDir, hmem, hbelow⟩
      obtain rfl := List.mem_singleton.mp hmem
      obtain ⟨more, rfl⟩ := hbelow
      rfl
  exact serve_agree hagree _ _ _

/-! ### Links -/

/-- What a cleaned uri is like. -/
structure IsClean (uri : List Char) : Prop where
  mark_not_mem : '?' ∉ uri
  head : ∀ c ∈ uri.head?, isSpace c = false

/-- What `respond` cleans is clean. -/
theorem isClean_cleanUri (uri : List Char) : IsClean (cleanUri uri) := by
  refine ⟨mark_not_mem_cleanUri uri, fun c hc => ?_⟩
  have hbegins : cleanUri uri <+: uri.dropWhile isSpace :=
    (List.takeWhile_prefix _).trans (List.rdropWhile_prefix _ _)
  obtain ⟨rest, hrest⟩ := hbegins
  have hhead : (uri.dropWhile isSpace).head? = some c := by
    rw [← hrest, List.head?_append, Option.mem_def.mp hc]
    rfl
  have hnot := List.head?_dropWhile_not isSpace uri
  rw [hhead] at hnot
  simpa using hnot

/-- What is put behind the uri of a directory loses its last blanks and what follows a question
    mark. -/
theorem cleanUri_append (hclean : IsClean uri) (hslash : ['/'] <:+ uri) (more : List Char) :
    cleanUri (uri ++ more) = uri ++ (more.rdropWhile isSpace).takeWhile (· != '?') := by
  obtain ⟨before, rfl⟩ := hslash
  have hdrop : (before ++ ['/'] ++ more).dropWhile isSpace = before ++ ['/'] ++ more := by
    cases before with
    | nil => rfl
    | cons c before =>
      have hc : ¬isSpace c = true := by simp [hclean.head c rfl]
      exact List.dropWhile_cons_of_neg hc
  have hlast : ∀ c ∈ (before ++ ['/']).getLast?, isSpace c = false := by
    rw [List.getLast?_concat]
    rintro c ⟨⟩
    decide
  rw [cleanUri, trim_eq, hdrop, rdropWhile_append_of_last hlast,
    List.takeWhile_append_of_pos]
  intro c hc
  have hne : c ≠ '?' := fun heq => hclean.mark_not_mem (heq ▸ hc)
  simpa using hne

/-- A name without a slash does not make `../` of a uri. -/
theorem dots_append {name : List Char} (hname : '/' ∉ name) (h : "../".toList <:+: uri ++ name) :
    "../".toList <:+: uri := by
  obtain ⟨before, rest, heq⟩ := h
  rcases List.append_eq_append_iff.mp heq with ⟨more, huri, -⟩ | ⟨more, hdots, hrest⟩
  · exact ⟨before, more, huri.symm⟩
  · cases more using List.reverseRecOn with
    | nil =>
      rw [List.append_nil] at hdots
      exact hdots ▸ ⟨before, [], List.append_nil _⟩
    | append_singleton more c =>
      have hc := congrArg List.getLast? hdots
      rw [← List.append_assoc, List.getLast?_concat, List.getLast?_append_of_ne_nil _ (by decide)]
        at hc
      obtain rfl : '/' = c := Option.some.inj hc
      rw [hrest] at hname
      exact absurd (by simp) hname

/-- The path of a directory has two dots of its own if its name ends with them. -/
theorem dots_directory {name : List Char} (hname : IsName name) :
    "../".toList <:+: uri ++ (name ++ ['/']) ↔ "../".toList <:+: uri ∨ "..".toList <:+ name := by
  rw [← List.append_assoc]
  constructor
  · rintro ⟨before, rest, heq⟩
    cases rest using List.reverseRecOn with
    | nil =>
      have heq' : before ++ "..".toList ++ ['/'] = uri ++ name ++ ['/'] := by simpa using heq
      rcases List.append_eq_append_iff.mp (List.append_cancel_right heq') with
        ⟨more, -, hmore⟩ | ⟨more, -, hmore⟩
      · have htail : name ∈ "..".toList.tails := (List.mem_tails _ _).mpr ⟨more, hmore.symm⟩
        have hcases : name = ['.', '.'] ∨ name = ['.'] ∨ name = [] := by simpa using htail
        rcases hcases with h | h | h
        · exact absurd h hname.ne_up
        · exact absurd h hname.ne_dot
        · exact absurd h hname.ne_nil
      · exact .inr ⟨more, hmore.symm⟩
    | append_singleton rest c =>
      left
      rw [← List.append_assoc] at heq
      exact dots_append hname.slash_not_mem ⟨before, rest, (List.append_inj' heq rfl).1⟩
  · rintro (⟨before, rest, heq⟩ | ⟨before, heq⟩)
    · exact ⟨before, rest ++ (name ++ ['/']), by rw [← heq]; simp⟩
    · exact ⟨uri ++ before, [], by rw [← heq]; simp⟩

/-- A directory whose page is served. -/
structure IsListed (disk : Disk) (roots : List Place) (uri : List Char) (place : Place) : Prop where
  clean : IsClean uri
  slash : ['/'] <:+ uri
  allowed : ¬isForbidden uri
  located : locate disk roots uri = some place
  directory : disk.tree.entry place = some .directory
  index : findIndexFileInDirectory disk place = none
  canRead : disk.canRead place = true

/-- A directory whose page is the response is listed. -/
theorem isListed_of_respond {request : List Char}
    (h : respond disk roots request = .listing uri place) :
    uri = cleanUri request ∧ IsListed disk roots uri place := by
  fun_induction respond disk roots request with
  | case1 => cases h
  | case2 => cases h
  | case3 => cases h
  | case4 => cases h
  | case5 => cases h
  | case6 request hforbidden f hlocate hentry hslash hindex hread =>
    cases h
    exact ⟨rfl, isClean_cleanUri _, not_not.mp hslash, hforbidden, hlocate, hentry, hindex, hread⟩
  | case7 => cases h
  | case8 request _ _ _ _ _ indexFile hindex ih =>
    obtain ⟨rfl, hlisted⟩ := ih h
    exact absurd hlisted.slash (not_slash_cleanUri (mark_not_mem_cleanUri request)
      (List.mem_of_find?_eq_some hindex))

/-- And the page of a listed directory is the response. -/
theorem IsListed.respond (h : IsListed disk roots (cleanUri uri) place) :
    respond disk roots uri = .listing (cleanUri uri) place := by
  rw [respond_directory h.allowed h.located h.directory (not_not.mpr h.slash), h.index]
  exact if_pos h.canRead

/-- Behind a slash the segments are those of the two parts. -/
theorem segments_append_of_slash (hslash : ['/'] <:+ uri) (tail : List Char) :
    segments (uri ++ tail) = segments uri ++ segments tail := by
  obtain ⟨before, rfl⟩ := hslash
  rw [List.append_assoc, List.singleton_append, segments_append, segments_append]
  rw [show segments [] = [] from rfl, List.append_nil]

/-- What is behind the uri of a directory that is served is looked up in it. -/
theorem IsListed.locate_append (h : IsListed disk roots uri place) {tail : List Char} {target : Place}
    (hwalk : disk.tree.walk place (segments tail) = some target) :
    locate disk roots (uri ++ tail) = some target := by
  obtain ⟨before, homeDir, after, hroots, hhome, hbefore⟩ :=
    List.findSome?_eq_some_iff.mp h.located
  rw [locate, segments_append_of_slash h.slash]
  apply List.findSome?_eq_some_iff.mpr
  refine ⟨before, homeDir, after, hroots, ?_, fun root hroot => ?_⟩
  · rw [FileTree.walk_append, hhome]
    exact hwalk
  · rw [FileTree.walk_append, hbefore root hroot]
    rfl

/-- A listed directory is a directory. -/
theorem IsListed.isDirectory (h : IsListed disk roots uri place) :
    disk.tree.isDirectory place = true :=
  FileTree.isDirectory_iff.mpr h.directory

/-- **Only its name** leads from a directory to an entry. -/
theorem IsListed.eq_of_locate (h : IsListed disk roots uri place) {tail name : List Char}
    (htail : '/' ∉ tail) (hlocate : locate disk roots (uri ++ tail) = some (place ++ [name])) :
    tail = name := by
  have hself : disk.tree.walk place [] = some place := by
    rw [FileTree.walk, if_pos (FileTree.isSome_of_isDirectory h.isDirectory)]
  -- the place looked for is one longer than the directory
  have hne : ∀ target : Place, target.length ≤ place.length → place ++ [name] ≠ target := by
    intro target hlength heq
    have hlengths := congrArg List.length heq
    rw [List.length_append, List.length_singleton] at hlengths
    omega
  -- nothing, one dot and two dots lead no deeper than the directory
  by_cases hnil : tail = []
  · have hwalk : disk.tree.walk place (segments tail) = some place := by
      rw [hnil]
      exact hself
    rw [h.locate_append hwalk] at hlocate
    exact absurd (Option.some.inj hlocate).symm (hne _ le_rfl)
  have hsegments : segments tail = [tail] := by rw [segments_of_slash_not_mem htail, if_neg hnil]
  by_cases hdot : tail = ['.']
  · have hwalk : disk.tree.walk place (segments tail) = some place := by
      rw [hsegments, FileTree.walk, if_pos h.isDirectory, if_pos hdot, hself]
    rw [h.locate_append hwalk] at hlocate
    exact absurd (Option.some.inj hlocate).symm (hne _ le_rfl)
  by_cases hup : tail = ['.', '.']
  · have hwalk : disk.tree.walk place (segments tail) = some place.dropLast := by
      rw [hsegments, hup, FileTree.walk_up, if_pos h.isDirectory]
    rw [h.locate_append hwalk] at hlocate
    exact absurd (Option.some.inj hlocate).symm (hne _ (by rw [List.length_dropLast]; omega))
  · obtain ⟨homeDir, -, hwalk⟩ := List.exists_of_findSome?_eq_some hlocate
    rw [segments_append_of_slash h.slash, FileTree.walk_append, Option.bind_eq_some_iff] at hwalk
    obtain ⟨directory, -, hwalk⟩ := hwalk
    rw [hsegments, FileTree.walk] at hwalk
    split_ifs at hwalk
    rw [FileTree.walk] at hwalk
    split_ifs at hwalk
    exact (List.append_inj' (Option.some.inj hwalk) rfl).2 |> List.singleton_inj.mp

/-- A uri for which a file is served names it, or a directory with an index file. -/
theorem locate_of_respond {request : List Char} {file : CastFile}
    (h : respond disk roots request = .file uri place file) :
    ¬isForbidden (cleanUri request) ∧ (locate disk roots (cleanUri request) = some place ∨
      ['/'] <:+ cleanUri request ∧ ∃ directory, locate disk roots (cleanUri request) = some directory ∧
        findIndexFileInDirectory disk directory ≠ none) := by
  fun_induction respond disk roots request with
  | case1 => cases h
  | case2 => cases h
  | case3 => cases h
  | case4 request hforbidden f hlocate =>
    cases h
    exact ⟨hforbidden, .inl hlocate⟩
  | case5 => cases h
  | case6 => cases h
  | case7 => cases h
  | case8 request hforbidden f hlocate _ hslash indexFile hindex =>
    refine ⟨hforbidden, .inr ⟨not_not.mp hslash, f, hlocate, ?_⟩⟩
    rw [hindex]
    exact Option.some_ne_none _

/-- For a file that a uri names there is the file. -/
theorem respond_file {f : Place} {file : CastFile} (hallowed : ¬isForbidden (cleanUri uri))
    (hlocate : locate disk roots (cleanUri uri) = some f)
    (hentry : disk.tree.entry f = some (.file file)) :
    respond disk roots uri = .file (cleanUri uri) f file := by
  rw [respond, if_neg hallowed, hlocate]
  dsimp only
  rw [hentry]

/-- Where some page is served, all roots are directories. -/
theorem serve_eq_respond {request : List Char}
    (h : serve disk roots request = .listing uri place) (uri' : List Char) :
    serve disk roots uri' = respond disk roots uri' := by
  rw [serve] at h
  rw [serve]
  cases hroots : roots.find? fun homeDir => !disk.tree.isDirectory homeDir with
  | some homeDir => rw [hroots] at h; cases h
  | none => rfl

variable {name : List Char}

/-- What is listed as a file is one. -/
theorem mem_filesIn (h : name ∈ filesIn disk place) :
    IsName name ∧ ∃ file, disk.tree.entry (place ++ [name]) = some (.file file) := by
  rw [filesIn, sortNames, List.mem_mergeSort, List.mem_filter, FileTree.isFile] at h
  obtain ⟨hmem, hfile⟩ := h
  refine ⟨disk.tree.isName place name hmem, ?_⟩
  split at hfile
  · next file hentry => exact ⟨file, hentry⟩
  · cases hfile

/-- What is listed as a directory is one. -/
theorem mem_directoriesIn (h : name ∈ directoriesIn disk place) :
    IsName name ∧ disk.tree.entry (place ++ [name]) = some .directory := by
  rw [directoriesIn, sortNames, List.mem_mergeSort, List.mem_filter] at h
  exact ⟨disk.tree.isName place name h.1, FileTree.isDirectory_iff.mp h.2⟩

/-- An entry of a listed directory is found from it by its name. -/
theorem IsListed.walk_entry (h : IsListed disk roots uri place) (hname : IsName name)
    {entry : Entry CastFile} (hentry : disk.tree.entry (place ++ [name]) = some entry) :
    disk.tree.walk place [name] = some (place ++ [name]) := by
  rw [FileTree.walk_name h.isDirectory hname, hentry]
  rfl

/-- Which names are left as they are. -/
theorem cleanName_eq_iff : (name.rdropWhile isSpace).takeWhile (· != '?') = name ↔
    '?' ∉ name ∧ ∀ c ∈ name.getLast?, ¬c ≤ ' ' := by
  constructor
  · intro h
    have hmark : '?' ∉ name := by
      intro hmem
      rw [← h] at hmem
      simpa using List.mem_takeWhile_imp hmem
    -- a name that is kept whole has nothing dropped at its end
    have hself : name.rdropWhile isSpace = name := by
      apply (List.rdropWhile_prefix _ _).eq_of_length_le
      calc name.length = ((name.rdropWhile isSpace).takeWhile (· != '?')).length := by rw [h]
        _ ≤ (name.rdropWhile isSpace).length := (List.takeWhile_prefix _).length_le
    refine ⟨hmark, fun c hc => ?_⟩
    obtain ⟨before, rfl⟩ := List.getLast?_eq_some_iff.mp hc
    intro hspace
    have hpos : isSpace c = true := decide_eq_true hspace
    rw [List.rdropWhile_concat_pos _ _ _ hpos] at hself
    have hlength := (List.rdropWhile_prefix isSpace before).length_le
    rw [hself, List.length_append, List.length_singleton] at hlength
    omega
  · rintro ⟨hmark, hlast⟩
    have hlast' : ∀ c ∈ name.getLast?, isSpace c = false :=
      fun c hc => decide_eq_false (hlast c hc)
    have hself := rdropWhile_append_of_last hlast' []
    rw [List.append_nil, List.rdropWhile_nil, List.append_nil] at hself
    rw [hself, takeWhile_mark hmark]

/-- **The link of a file** on a page leads to the file, unless the name has a question mark, ends
    with a blank or makes `src/main` of the uri. -/
theorem link_file {request : List Char}
    (hlisting : serve disk roots request = .listing uri place) (hname : name ∈ filesIn disk place)
    (platform : Platform) (headers : List (String × String))
    (queryParameterString : Option (List Char)) (more : List Char) :
    ∃ s, HTTPSession.execute platform headers queryParameterString
        (requestFor (fileLink uri name) more) = .ok s ∧
      ((∃ uri' file, serve disk roots s.uri = .file uri' (place ++ [name]) file) ↔
        '?' ∉ name ∧ (∀ c ∈ name.getLast?, ¬c ≤ ' ') ∧ ¬"src/main".toList <+: uri ++ name ∧
          ¬"src/main".toList <:+ uri ++ name) := by
  have hserve := serve_eq_respond hlisting
  rw [hserve] at hlisting
  obtain ⟨-, hlisted⟩ := isListed_of_respond hlisting
  obtain ⟨hisName, file, hentry⟩ := mem_filesIn hname
  have hne : uri ++ name ≠ [] := by simp [hisName.ne_nil]
  obtain ⟨s, hs, huri, -⟩ := execute_link platform headers queryParameterString hne more
  refine ⟨s, hs, ?_⟩
  rw [huri, hserve]
  have hclean := cleanUri_append hlisted.clean hlisted.slash name
  set tail := (name.rdropWhile isSpace).takeWhile (· != '?')
  have hpart : tail <+: name := (List.takeWhile_prefix _).trans (List.rdropWhile_prefix _ _)
  have htail : '/' ∉ tail := fun hmem => hisName.slash_not_mem (hpart.subset hmem)
  constructor
  · rintro ⟨uri', file', hfile⟩
    obtain ⟨hallowed, hlocate⟩ := locate_of_respond hfile
    rw [hclean] at hallowed hlocate
    have heq : tail = name := by
      rcases hlocate with hlocate | ⟨hslash, directory, hlocate, hindex⟩
      · exact hlisted.eq_of_locate htail hlocate
      · -- the directory itself has no index file, and no other uri ends with a slash
        exfalso
        cases htail' : tail using List.reverseRecOn with
        | nil =>
          rw [htail', List.append_nil, hlisted.located] at hlocate
          exact hindex (Option.some.inj hlocate ▸ hlisted.index)
        | append_singleton before c =>
          obtain ⟨rest, hrest⟩ := hslash
          have hc := congrArg List.getLast? hrest
          rw [htail', ← List.append_assoc, List.getLast?_concat, List.getLast?_concat] at hc
          obtain rfl : '/' = c := Option.some.inj hc
          exact htail (htail' ▸ by simp)
    rw [heq] at hallowed
    obtain ⟨hmark, hlast⟩ := cleanName_eq_iff.mp heq
    exact ⟨hmark, hlast, fun h => hallowed (.inl h), fun h => hallowed (.inr (.inl h))⟩
  · rintro ⟨hmark, hlast, hbegin, hend⟩
    have heq : tail = name := cleanName_eq_iff.mpr ⟨hmark, hlast⟩
    rw [heq] at hclean
    have hallowed : ¬isForbidden (cleanUri (uri ++ name)) := by
      rw [hclean]
      rintro (h | h | h)
      · exact hbegin h
      · exact hend h
      · exact hlisted.allowed (.inr (.inr (dots_append hisName.slash_not_mem h)))
    have hlocate : locate disk roots (cleanUri (uri ++ name)) = some (place ++ [name]) := by
      rw [hclean]
      apply hlisted.locate_append
      rw [segments_of_isName hisName]
      exact hlisted.walk_entry hisName hentry
    exact ⟨_, file, respond_file hallowed hlocate hentry⟩

/-- The page of the folder. -/
theorem serve_sampleDisk :
    serve sampleDisk [["www".toList]] "/".toList = .listing "/".toList ["www".toList] := by
  have hlisted : IsListed sampleDisk [["www".toList]] (cleanUri "/".toList) ["www".toList] :=
    ⟨isClean_cleanUri _, by decide, by decide, by decide, rfl, by decide, rfl⟩
  have hroots :
      ([["www".toList]].find? fun homeDir => !sampleDisk.tree.isDirectory homeDir) = none := by
    decide
  rw [serve, hroots]
  exact hlisted.respond

/-- The link of `a b.txt` on the page of the folder. -/
theorem link_file_sample : ∃ s,
    HTTPSession.execute ⟨fun _ => [], id, id⟩ [] none
      (requestFor (fileLink "/".toList "a b.txt".toList) []) = .ok s ∧
    ∃ uri' file, serve sampleDisk [["www".toList]] s.uri =
      .file uri' ["www".toList, "a b.txt".toList] file := by
  have hname : "a b.txt".toList ∈ filesIn sampleDisk ["www".toList] := by
    rw [filesIn, sortNames, List.mem_mergeSort]
    decide
  obtain ⟨s, hs, hfile⟩ := link_file serve_sampleDisk hname ⟨fun _ => [], id, id⟩ [] none []
  have hlast : ∀ c ∈ "a b.txt".toList.getLast?, ¬c ≤ ' ' := by
    intro c hc
    obtain rfl : 't' = c := Option.some.inj hc
    decide
  exact ⟨s, hs, hfile.mpr ⟨by decide, hlast, by decide, by decide⟩⟩

/-- **The link of a directory** leads to its page, unless there is none, the name has a question mark
    or ends with two dots, or the uri would begin with `src/main`. -/
theorem link_directory {request : List Char}
    (hlisting : serve disk roots request = .listing uri place)
    (hname : name ∈ directoriesIn disk place)
    (platform : Platform) (headers : List (String × String))
    (queryParameterString : Option (List Char)) (more : List Char) :
    ∃ s, HTTPSession.execute platform headers queryParameterString
        (requestFor (directoryLink uri name) more) = .ok s ∧
      ((∃ uri', serve disk roots s.uri = .listing uri' (place ++ [name])) ↔
        '?' ∉ name ∧ ¬"..".toList <:+ name ∧ ¬"src/main".toList <+: uri ++ (name ++ ['/']) ∧
          findIndexFileInDirectory disk (place ++ [name]) = none ∧
          disk.canRead (place ++ [name]) = true) := by
  have hserve := serve_eq_respond hlisting
  rw [hserve] at hlisting
  obtain ⟨-, hlisted⟩ := isListed_of_respond hlisting
  obtain ⟨hisName, hentry⟩ := mem_directoriesIn hname
  have hne : uri ++ (name ++ ['/']) ≠ [] := by simp
  obtain ⟨s, hs, huri, -⟩ := execute_link platform headers queryParameterString hne more
  refine ⟨s, hs, ?_⟩
  rw [huri, hserve]
  have hclean := cleanUri_append hlisted.clean hlisted.slash (name ++ ['/'])
  rw [List.rdropWhile_concat_neg _ _ _ (by decide)] at hclean
  have hslash : ['/'] <:+ uri ++ (name ++ ['/']) := ⟨uri ++ name, by rw [List.append_assoc]⟩
  -- a name with a question mark is cut there, so the link leads elsewhere
  by_cases hmark : '?' ∈ name
  · have hcut : (name ++ ['/']).takeWhile (· != '?') = name.takeWhile (· != '?') := by
      rw [List.takeWhile_append, if_neg]
      intro hlength
      rw [← (List.takeWhile_prefix _).eq_of_length hlength] at hmark
      exact absurd (List.mem_takeWhile_imp hmark) (by decide)
    constructor
    · rintro ⟨uri', hlisting'⟩
      obtain ⟨rfl, hlisted'⟩ := isListed_of_respond hlisting'
      have hlocate := hlisted'.located
      rw [hclean, hcut] at hlocate
      -- the cut name would have to be the whole name, which has a mark
      have htail : '/' ∉ name.takeWhile (· != '?') :=
        fun hmem => hisName.slash_not_mem ((List.takeWhile_prefix _).subset hmem)
      rw [← hlisted.eq_of_locate htail hlocate] at hmark
      exact absurd (List.mem_takeWhile_imp hmark) (by decide)
    · exact fun h => absurd hmark h.1
  · have hmark' : '?' ∉ name ++ ['/'] := by simp [hmark]
    rw [takeWhile_mark hmark'] at hclean
    constructor
    · rintro ⟨uri', hlisting'⟩
      obtain ⟨rfl, hlisted'⟩ := isListed_of_respond hlisting'
      have hallowed := hlisted'.allowed
      rw [hclean] at hallowed
      refine ⟨hmark, fun h => ?_, fun h => hallowed (.inl h), hlisted'.index, hlisted'.canRead⟩
      exact hallowed (.inr (.inr ((dots_directory hisName).mpr (.inr h))))
    · rintro ⟨-, hdots, hbegin, hindex, hread⟩
      -- of the three forbidden patterns one is excluded by the last slash, the others by assumption
      have hallowed : ¬isForbidden (uri ++ (name ++ ['/'])) := by
        rintro (h | h | h)
        · exact hbegin h
        · obtain ⟨before, h⟩ := h
          have hlast := congrArg List.getLast? h
          rw [← List.append_assoc, List.getLast?_concat,
            List.getLast?_append_of_ne_nil _ (by decide)] at hlast
          exact absurd hlast (by decide)
        · rcases (dots_directory hisName).mp h with h | h
          · exact hlisted.allowed (.inr (.inr h))
          · exact hdots h
      have hlocate : locate disk roots (uri ++ (name ++ ['/'])) = some (place ++ [name]) := by
        apply hlisted.locate_append
        rw [segments_append name [], segments_of_isName hisName]
        exact hlisted.walk_entry hisName hentry
      have hpage : IsListed disk roots (cleanUri (uri ++ (name ++ ['/']))) (place ++ [name]) := by
        refine ⟨isClean_cleanUri _, ?_, ?_, ?_, hentry, hindex, hread⟩
        · rw [hclean]
          exact hslash
        · rw [hclean]
          exact hallowed
        · rw [hclean]
          exact hlocate
      exact ⟨_, hpage.respond⟩

/-- The link of the folder in the folder. -/
theorem link_directory_sample : ∃ s,
    HTTPSession.execute ⟨fun _ => [], id, id⟩ [] none
      (requestFor (directoryLink "/".toList "sub".toList) []) = .ok s ∧
    ∃ uri', serve sampleDisk [["www".toList]] s.uri =
      .listing uri' ["www".toList, "sub".toList] := by
  have hname : "sub".toList ∈ directoriesIn sampleDisk ["www".toList] := by
    rw [directoriesIn, sortNames, List.mem_mergeSort]
    decide
  obtain ⟨s, hs, hpage⟩ := link_directory serve_sampleDisk hname ⟨fun _ => [], id, id⟩ [] none []
  exact ⟨s, hs, hpage.mpr ⟨by decide, by decide, by decide, by decide, rfl⟩⟩

end SimpleWebServer

end PopcornTime.Android
