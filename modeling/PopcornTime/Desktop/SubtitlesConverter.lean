import PopcornTime.Lib.TextParts

namespace PopcornTime.Desktop

open PopcornTime

/-!
# Desktop casting — the converter of subtitles

A cast device wants its subtitles as `.vtt`.  The processors look at the extension of the file and
ask `subtitles-converter-factory` for a converter; the one there is writes what it has converted to
a path that it makes from that of the source.

* `extname`, `getConvertor` — which files are converted.
* `convertFile` — the file that is written and the event that is emitted.
* `convertFile_written_iff` — when the file is beside its source, under the name of it.

The paths are those of the Mac build, where node's `path` separates at `/` only; on Windows it also
does so at a backslash and behind the letter of a drive.
-/

/-! ### Paths (POSIX) -/

/-- `path.basename`; slashes at the end do not count. -/
def basename (path : List Char) : List Char :=
  (path.rdropWhile fun c => decide (c = '/')).rtakeWhile fun c => decide (c ≠ '/')

/-- What is ahead of the base name. -/
def directory (path : List Char) : List Char :=
  (path.rdropWhile fun c => decide (c = '/')).rdropWhile fun c => decide (c ≠ '/')

/-- `path.extname`: a base name that starts with its only dot has no extension. -/
def extname (path : List Char) : List Char :=
  let base := basename path
  if (base.rdropWhile fun c => decide (c ≠ '.')).dropLast = [] ∨ base = ['.', '.'] then []
  else '.' :: base.rtakeWhile fun c => decide (c ≠ '.')

/-- The base name without its extension. -/
def stem (path : List Char) : List Char :=
  (basename path).rdrop (extname path).length

def dotSrt : List Char := ['.', 's', 'r', 't']

def dotVtt : List Char := ['.', 'v', 't', 't']

/-! ### The converter -/

/-- What `trim` of a string drops. -/
def isSpace (c : Char) : Bool :=
  decide (c ∈ ['\t', '\n', '\x0b', '\x0c', '\r', ' ', '\u00a0', '\u1680', '\u2028', '\u2029',
    '\u202f', '\u205f', '\u3000', '\ufeff']) || decide ('\u2000' ≤ c ∧ c ≤ '\u200a')

/-- `getConvertor` of the factory has one for this extension. -/
def getConvertor (ext : List Char) : Bool :=
  decide ((((ext.map Char.toLower).dropWhile isSpace).rdropWhile isSpace) = dotSrt)

/-- `ext` of the processors. -/
def subtitleExt (subtitlesFile : List Char) : List Char :=
  let ext := (extname subtitlesFile).map Char.toLower
  if ext = [] then dotSrt else ext

/-- What `captions.srt.read` comes to; a file of one line may make it throw in its callback. -/
inductive SrtRead
  | error
  | lines (data : List (List Char))
  | thrown

/-- `node-captions` and the files. -/
structure Captions where
  read : List Char → SrtRead
  /-- `captions.vtt.generate(captions.srt.toJSON(data))`, or nothing where it throws. -/
  generate : List (List Char) → Option (List Char)
  writeFile : List Char → List Char → Bool

/-- What the listeners of a converter are told; or its callback throws. -/
inductive Converted
  | error
  | ready (vtt : List Char)
  | uncaught
deriving DecidableEq, Repr

structure Conversion where
  /-- The file that is written. -/
  written : Option (List Char)
  converted : Converted
deriving DecidableEq, Repr

/-- `srtConverter.convertFile` -/
def convertFile (c : Captions) (fileName : List Char) : Conversion :=
  -- the first `.srt` of the path, wherever it stands
  let vtt := replaceFirst dotSrt dotVtt fileName
  match c.read fileName with
  | .thrown => ⟨none, .uncaught⟩
  | .error => ⟨none, .error⟩
  | .lines data =>
    match c.generate data with
    | none => ⟨none, .uncaught⟩
    | some text => ⟨some vtt, if c.writeFile vtt text then .ready vtt else .error⟩

theorem convertFile_written {c : Captions} {fileName vtt : List Char}
    (h : (convertFile c fileName).written = some vtt) :
    vtt = replaceFirst dotSrt dotVtt fileName := by
  unfold convertFile at h
  cases hread : c.read fileName with
  | error =>
    rw [hread] at h
    exact absurd h nofun
  | thrown =>
    rw [hread] at h
    exact absurd h nofun
  | lines data =>
    rw [hread] at h
    dsimp only at h
    cases hgenerate : c.generate data with
    | none =>
      rw [hgenerate] at h
      exact absurd h nofun
    | some text =>
      rw [hgenerate] at h
      exact (Option.some.inj h).symm

/-! ### The file that is written -/

/-- **Beside its source**: another file of the same directory, with the base name of the source and
    the extension `.vtt`. -/
def BesideSource (path vtt : List Char) : Prop :=
  vtt ≠ path ∧ directory vtt = directory path ∧ basename vtt = stem path ++ dotVtt

/-- The path ends in `.srt`, in small letters and behind a name, and has no `.srt` before. -/
def EndsInSrt (path : List Char) : Prop :=
  ∃ before slashes, path = before ++ dotSrt ++ slashes ∧ (∀ c ∈ slashes, c = '/') ∧
    (before.rtakeWhile fun c => decide (c ≠ '/')) ≠ [] ∧ ¬dotSrt <:+: before

section Written

variable {a b ext : List Char}

/-- Behind an extension only slashes are dropped. -/
theorem rdropWhile_slash (hext : ext = dotSrt ∨ ext = dotVtt) :
    (a ++ ext ++ b).rdropWhile (fun c => decide (c = '/')) =
      a ++ ext ++ b.rdropWhile (fun c => decide (c = '/')) := by
  have hends : ext.rdropWhile (fun c => decide (c = '/')) = ext := by
    rcases hext with rfl | rfl <;> rfl
  have hnot : ¬∀ c ∈ ext, decide (c = '/') = true := by
    rcases hext with rfl | rfl <;> simp [dotSrt, dotVtt]
  by_cases hall : ∀ c ∈ b, decide (c = '/') = true
  · rw [rdropWhile_append_of_all hall, rdropWhile_append_of_not_all hnot, hends]
    rw [List.rdropWhile_eq_nil_iff.mpr hall, List.append_nil]
  · rw [rdropWhile_append_of_not_all hall]

/-- Where a path has the pattern in its directory, the directory has it. -/
theorem directory_of_slash (hext : ext = dotSrt ∨ ext = dotVtt)
    (hslash : '/' ∈ b.rdropWhile fun c => decide (c = '/')) :
    directory (a ++ ext ++ b) =
      a ++ ext ++ (b.rdropWhile fun c => decide (c = '/')).rdropWhile
        fun c => decide (c ≠ '/') := by
  unfold directory
  rw [rdropWhile_slash hext]
  apply rdropWhile_append_of_not_all
  intro hall
  exact of_decide_eq_true (hall _ hslash) rfl

/-- Else it is in the base name. -/
theorem basename_of_not_slash (hext : ext = dotSrt ∨ ext = dotVtt)
    (hslash : '/' ∉ b.rdropWhile fun c => decide (c = '/')) :
    directory (a ++ ext ++ b) = a.rdropWhile (fun c => decide (c ≠ '/')) ∧
      basename (a ++ ext ++ b) = a.rtakeWhile (fun c => decide (c ≠ '/')) ++ ext ++
        b.rdropWhile fun c => decide (c = '/') := by
  have hall : ∀ c ∈ b.rdropWhile (fun c => decide (c = '/')), decide (c ≠ '/') = true := by
    intro c hc
    rw [decide_eq_true_eq]
    rintro rfl
    exact hslash hc
  have hext' : ∀ c ∈ ext, decide (c ≠ '/') = true := by
    rcases hext with rfl | rfl <;> simp [dotSrt, dotVtt]
  unfold directory basename
  rw [rdropWhile_slash hext]
  constructor
  · rw [rdropWhile_append_of_all hall, rdropWhile_append_of_all hext']
  · rw [rtakeWhile_append_of_all hall, rtakeWhile_append_of_all hext']

/-- A name that gets `.vtt` for a `.srt` and ends in `.vtt` then has had it at its end. -/
theorem rest_eq_nil {st : List Char} (h : a ++ dotSrt ++ b = st ++ ext)
    (hvtt : a ++ dotVtt ++ b = st ++ dotVtt) : b = [] ∧ a = st := by
  have hlen : a.length + b.length = st.length := by
    have hlen := congrArg List.length hvtt
    simp only [List.length_append] at hlen
    omega
  have hprefix : a <+: st :=
    List.prefix_of_prefix_length_le ⟨dotVtt ++ b, by rw [← hvtt, List.append_assoc]⟩
      (List.prefix_append st dotVtt) (by omega)
  obtain ⟨x, rfl⟩ := hprefix
  rw [List.append_assoc, List.append_assoc, List.append_cancel_left_eq] at h hvtt
  rw [List.length_append, Nat.add_left_cancel_iff] at hlen
  -- the second letter of the two extensions is not the same
  match x, h, hvtt with
  | [], _, _ => exact ⟨List.eq_nil_of_length_eq_zero hlen, (List.append_nil a).symm⟩
  | [c], _, hvtt => simp [dotVtt] at hvtt
  | c :: d :: x, h, hvtt =>
    simp only [dotSrt, dotVtt, List.cons_append, List.cons.injEq] at h hvtt
    exact absurd (h.2.1.trans hvtt.2.1.symm) (by decide)

/-- The stem of a name that ends in `.srt`. -/
theorem stem_of_dotSrt {path : List Char} (h : basename path = a ++ dotSrt) :
    stem path = a ↔ a ≠ [] := by
  have hdot : (a ++ dotSrt).rdropWhile (fun c => decide (c ≠ '.')) = a ++ ['.'] := by
    have hsplit : a ++ dotSrt = a ++ ['.'] ++ ['s', 'r', 't'] := by simp [dotSrt]
    rw [hsplit, rdropWhile_append_of_all (by simp), rdropWhile_append_of_not_all (by simp)]
    rfl
  have htake : (a ++ dotSrt).rtakeWhile (fun c => decide (c ≠ '.')) = ['s', 'r', 't'] :=
    rtakeWhile_append_of_not_all (by simp [dotSrt])
  unfold stem extname
  rw [h]
  dsimp only
  rw [hdot, htake, List.dropLast_concat]
  by_cases hempty : a = []
  · subst hempty
    rw [if_pos (Or.inl rfl)]
    exact iff_of_false (by decide) fun h => h rfl
  · have hdots : ¬(a = [] ∨ a ++ dotSrt = ['.', '.']) := by
      refine not_or_intro hempty fun heq => ?_
      have hlen := congrArg List.length heq
      simp [dotSrt] at hlen
    rw [if_neg hdots]
    exact iff_of_true List.rdrop_append_length hempty

/-- The first place of `.srt` is the only one with no other ahead of it. -/
theorem first_unique {before slashes : List Char}
    (h : a ++ dotSrt ++ b = before ++ dotSrt ++ slashes) (hle : a.length ≤ before.length)
    (hnot : ¬dotSrt <:+: before) : a = before ∧ b = slashes := by
  have hprefix : a <+: before :=
    List.prefix_of_prefix_length_le ⟨dotSrt ++ b, by rw [← List.append_assoc, h]⟩
      ⟨dotSrt ++ slashes, (List.append_assoc _ _ _).symm⟩ hle
  obtain ⟨x, rfl⟩ := hprefix
  rw [List.append_assoc, List.append_assoc, List.append_assoc, List.append_cancel_left_eq] at h
  match x, h with
  | [], h => exact ⟨(List.append_nil a).symm, List.append_cancel_left h⟩
  | [_], h => simp [dotSrt] at h
  | [_, _], h => simp [dotSrt] at h
  | [_, _, _], h => simp [dotSrt] at h
  | c :: d :: e :: f :: x, h =>
    simp only [dotSrt, List.cons_append, List.nil_append, List.cons.injEq] at h
    obtain ⟨rfl, rfl, rfl, rfl, -⟩ := h
    exact absurd ⟨a, x, by simp [dotSrt]⟩ hnot

/-- Whether a path ends in its first `.srt`. -/
theorem endsInSrt_iff
    (hfirst : ∀ a' b', a ++ dotSrt ++ b = a' ++ dotSrt ++ b' → a.length ≤ a'.length) :
    EndsInSrt (a ++ dotSrt ++ b) ↔
      (b.rdropWhile fun c => decide (c = '/')) = [] ∧
        (a.rtakeWhile fun c => decide (c ≠ '/')) ≠ [] := by
  rw [List.rdropWhile_eq_nil_iff]
  constructor
  · rintro ⟨before, slashes, h, hslashes, hname, hnot⟩
    obtain ⟨rfl, rfl⟩ := first_unique h (hfirst before slashes h) hnot
    exact ⟨fun c hc => decide_eq_true (hslashes c hc), hname⟩
  · rintro ⟨hslashes, hname⟩
    refine ⟨a, b, rfl, fun c hc => of_decide_eq_true (hslashes c hc), hname, ?_⟩
    rintro ⟨u, v, rfl⟩
    have hle := hfirst u (v ++ dotSrt ++ b) (by simp only [List.append_assoc])
    simp only [List.length_append, dotSrt, List.length_cons] at hle
    omega

theorem dotVtt_ne (a b : List Char) : a ++ dotVtt ++ b ≠ a ++ dotSrt ++ b := by
  intro h
  rw [List.append_assoc, List.append_assoc, List.append_cancel_left_eq] at h
  simp [dotVtt, dotSrt] at h

/-- **When the converter writes beside the source.** -/
theorem convertFile_written_iff {c : Captions} {path vtt : List Char}
    (h : (convertFile c path).written = some vtt) : BesideSource path vtt ↔ EndsInSrt path := by
  rw [convertFile_written h]
  rcases replaceFirst_cases (by decide : dotSrt ≠ []) dotVtt path with
    ⟨hnot, heq⟩ | ⟨a, b, rfl, hfirst, heq⟩
  · -- the source is written over
    rw [heq]
    refine iff_of_false (fun hbeside => hbeside.1 rfl) ?_
    rintro ⟨before, slashes, rfl, -⟩
    exact hnot ⟨before, slashes, rfl⟩
  · rw [heq, endsInSrt_iff hfirst]
    unfold BesideSource
    by_cases hslash : '/' ∈ b.rdropWhile fun c => decide (c = '/')
    · rw [directory_of_slash (Or.inl rfl) hslash, directory_of_slash (Or.inr rfl) hslash]
      refine iff_of_false (fun hbeside => dotVtt_ne _ _ hbeside.2.1) fun hends => ?_
      rw [hends.1] at hslash
      exact List.not_mem_nil hslash
    · obtain ⟨hdir, hbase⟩ := basename_of_not_slash (a := a) (Or.inl rfl) hslash
      obtain ⟨hdir', hbase'⟩ := basename_of_not_slash (a := a) (Or.inr rfl) hslash
      rw [hdir, hdir', hbase']
      constructor
      · rintro ⟨-, -, hname⟩
        have hstem : stem (a ++ dotSrt ++ b) <+: basename (a ++ dotSrt ++ b) := by
          unfold stem
          exact List.take_prefix _ _
        obtain ⟨ext, hext⟩ := hstem
        rw [hbase] at hext
        obtain ⟨hnil, hstem⟩ := rest_eq_nil hext.symm hname
        rw [hnil, List.append_nil] at hbase
        exact ⟨hnil, (stem_of_dotSrt hbase).mp hstem.symm⟩
      · rintro ⟨hnil, hname⟩
        rw [hnil, List.append_nil] at hbase ⊢
        rw [(stem_of_dotSrt hbase).mpr hname]
        exact ⟨dotVtt_ne a b, rfl, rfl⟩

/-- Files that can be read and written. -/
def anyFiles : Captions where
  read := fun _ => .lines []
  generate := fun _ => some []
  writeFile := fun _ _ => true

theorem convertFile_written_iff_small :
    BesideSource "a/b.srt".toList "a/b.vtt".toList ↔ EndsInSrt "a/b.srt".toList :=
  convertFile_written_iff (c := anyFiles) (by decide)

/-- A file with its extension in capital letters is converted, and written over. -/
theorem convertFile_capitals :
    getConvertor (subtitleExt "a/b.SRT".toList) = true ∧
      (convertFile anyFiles "a/b.SRT".toList).written = some "a/b.SRT".toList ∧
      ¬BesideSource "a/b.SRT".toList "a/b.SRT".toList :=
  ⟨by decide, by decide, fun h => h.1 rfl⟩

end Written

end PopcornTime.Desktop
