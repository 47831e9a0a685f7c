import Mathlib.Data.List.Induction
import Mathlib.Data.List.Infix
import Mathlib.Tactic.SplitIfs

namespace PopcornTime

/-!
# Files and paths

A place in a file system is the list of the names that lead to it from its root; there are no
symbolic links.  A path is walked name by name: a dot stays, two dots go back.

* `FileTree` — what there is at each place; `FileTree.walk`, where a path leads.
* `segments` — the names of a path; `segments_append`, `segments_of_isName`.
* `FileTree.prefix_of_walk` — without two dots a walk does not leave the place it begins at.
* `up_of_not_infix` — where two dots may stand in a path without `../`.
-/

/-! ### Paths -/

/-- The names in a path. -/
def segments (path : List Char) : List (List Char) :=
  (path.splitOn '/').filter fun name => !name.isEmpty

/-- What a file may be called. -/
structure IsName (name : List Char) : Prop where
  ne_nil : name ≠ []
  slash_not_mem : '/' ∉ name
  ne_dot : name ≠ ['.']
  ne_up : name ≠ ['.', '.']

/-- At a slash the names are those of the two parts. -/
theorem segments_append (path rest : List Char) :
    segments (path ++ '/' :: rest) = segments path ++ segments rest := by
  rw [segments, List.splitOn_append_cons_self, List.filter_append]
  rfl

/-- A text without a slash is one name, or none. -/
theorem segments_of_slash_not_mem {path : List Char} (h : '/' ∉ path) :
    segments path = if path = [] then [] else [path] := by
  rw [segments, List.splitOn_eq_singleton h]
  split_ifs with hnil
  · rw [hnil]
    rfl
  · rw [List.filter_cons_of_pos (by simpa using hnil)]
    rfl

/-- A name is a path of one. -/
theorem segments_of_isName {name : List Char} (h : IsName name) : segments name = [name] := by
  rw [segments_of_slash_not_mem h.slash_not_mem, if_neg h.ne_nil]

/-- The parts of a path, each with a slash behind it. -/
theorem flatMap_splitOn (path : List Char) :
    (path.splitOn '/').flatMap (· ++ ['/']) = path ++ ['/'] := by
  induction path with
  | nil => rfl
  | cons c path ih =>
    rw [List.splitOn_cons_eq_if_modifyHead]
    split_ifs with hc
    · rw [List.flatMap_cons, ih, beq_iff_eq.mp hc]
      rfl
    · cases hparts : path.splitOn '/' with
      | nil => exact absurd hparts (List.splitOn_ne_nil _ _)
      | cons part parts =>
        rw [hparts] at ih
        exact congrArg (c :: ·) ih

/-- **Two dots** in a path without `../` stand at its end, with no slash behind them. -/
theorem up_of_not_infix {path : List Char} (h : ¬['.', '.', '/'] <:+: path) :
    ['.', '.'] ∉ segments path ∨
      (∃ names, segments path = names ++ [['.', '.']] ∧ ['.', '.'] ∉ names) ∧
        ¬['/'] <:+ path := by
  obtain ⟨parts, last, hparts⟩ := List.eq_nil_or_concat (path.splitOn '/') |>.resolve_left
    (List.splitOn_ne_nil _ _)
  have hpath : path = parts.flatMap (· ++ ['/']) ++ last := by
    have hslashes := flatMap_splitOn path
    rw [hparts, List.concat_eq_append, List.flatMap_append, List.flatMap_singleton,
      ← List.append_assoc] at hslashes
    exact (List.append_cancel_right hslashes).symm
  -- every part but the last is followed by a slash
  have hnot : ['.', '.'] ∉ parts := by
    intro hmem
    apply h
    obtain ⟨before, rest, rfl⟩ := List.append_of_mem hmem
    refine ⟨before.flatMap (· ++ ['/']), rest.flatMap (· ++ ['/']) ++ last, ?_⟩
    rw [hpath, List.flatMap_append, List.flatMap_cons]
    simp
  rw [segments, hparts, List.concat_eq_append, List.filter_append]
  by_cases hlast : last = ['.', '.']
  · right
    refine ⟨⟨_, by rw [hlast]; rfl, fun hmem => hnot (List.mem_of_mem_filter hmem)⟩, ?_⟩
    rintro ⟨rest, hrest⟩
    rw [hpath, hlast] at hrest
    have hend := congrArg List.getLast? hrest
    simp at hend
  · left
    rw [List.mem_append, not_or]
    refine ⟨fun hmem => hnot (List.mem_of_mem_filter hmem), fun hmem => ?_⟩
    exact hlast (List.mem_singleton.mp (List.mem_of_mem_filter hmem)).symm

/-! ### File systems -/

/-- What there is at a place. -/
inductive Entry (α : Type*)
  | directory
  | file (content : α)

/-- The files and directories of a system; a directory has finitely many. -/
structure FileTree (α : Type*) where
  entry : List (List Char) → Option (Entry α)
  names : List (List Char) → List (List Char)
  root_directory : entry [] = some .directory
  parent_directory : ∀ place name, entry (place ++ [name]) ≠ none → entry place = some .directory
  mem_names : ∀ place name, name ∈ names place ↔ entry (place ++ [name]) ≠ none
  isName : ∀ place, ∀ name ∈ names place, IsName name

namespace FileTree

variable {α : Type*} (tree : FileTree α) {place : List (List Char)}

def isDirectory (place : List (List Char)) : Bool :=
  match tree.entry place with
  | some .directory => true
  | _ => false

def isFile (place : List (List Char)) : Bool :=
  match tree.entry place with
  | some (.file _) => true
  | _ => false

/-- Where the names of a path lead to from a place. -/
def walk : List (List Char) → List (List Char) → Option (List (List Char))
  | place, [] => if (tree.entry place).isSome then some place else none
  | place, name :: names =>
    if tree.isDirectory place then
      if name = ['.'] then walk place names
      else if name = ['.', '.'] then walk place.dropLast names
      else walk (place ++ [name]) names
    else none

variable {tree}

/-- The test of a directory. -/
theorem isDirectory_iff : tree.isDirectory place = true ↔ tree.entry place = some .directory := by
  rw [isDirectory]
  split
  · next h => simp [h]
  · next h => simpa using h

/-- A directory is there. -/
theorem isSome_of_isDirectory (h : tree.isDirectory place = true) :
    (tree.entry place).isSome = true := by
  rw [isDirectory_iff.mp h]
  rfl

/-- A directory's own directory. -/
theorem isDirectory_dropLast (h : tree.isDirectory place = true) :
    tree.isDirectory place.dropLast = true := by
  induction place using List.reverseRecOn with
  | nil => exact h
  | append_singleton place name =>
    rw [List.dropLast_concat]
    apply isDirectory_iff.mpr
    apply tree.parent_directory place name
    rw [isDirectory_iff.mp h]
    exact Option.some_ne_none _

/-- A walk goes on from where its first part has led. -/
theorem walk_append (names more : List (List Char)) :
    tree.walk place (names ++ more) = (tree.walk place names).bind (tree.walk · more) := by
  induction names generalizing place with
  | nil =>
    rw [List.nil_append, walk]
    split_ifs with hsome
    · rfl
    · cases more with
      | nil => rw [walk, if_neg hsome]; rfl
      | cons name more =>
        rw [walk, if_neg fun hdirectory => hsome (isSome_of_isDirectory hdirectory)]
        rfl
  | cons name names ih =>
    rw [List.cons_append, walk, walk]
    split_ifs
    · exact ih
    · exact ih
    · exact ih
    · rfl

/-- **Without two dots** a walk stays below the place it begins at. -/
theorem prefix_of_walk {names target : List (List Char)} (hup : ['.', '.'] ∉ names)
    (h : tree.walk place names = some target) : place <+: target := by
  induction names generalizing place with
  | nil =>
    rw [walk] at h
    split_ifs at h
    exact Option.some.inj h ▸ List.prefix_rfl
  | cons name names ih =>
    rw [List.mem_cons, not_or] at hup
    rw [walk] at h
    split_ifs at h with hdirectory hdot hdots
    · exact ih hup.2 h
    · exact absurd hdots.symm hup.1
    · exact (List.prefix_append _ _).trans (ih hup.2 h)

/-- Two dots lead to the directory's own. -/
theorem walk_up : tree.walk place [['.', '.']] =
    if tree.isDirectory place then some place.dropLast else none := by
  rw [walk]
  have hdot : ¬['.', '.'] = ['.'] := by decide
  rw [if_neg hdot, if_pos rfl]
  split_ifs
  · next hdirectory =>
    rw [walk, if_pos (isSome_of_isDirectory (isDirectory_dropLast hdirectory))]
  · rfl

/-- A name leads into a directory. -/
theorem walk_name {name : List Char} (hdirectory : tree.isDirectory place = true)
    (hname : IsName name) :
    tree.walk place [name] =
      if (tree.entry (place ++ [name])).isSome then some (place ++ [name]) else none := by
  rw [walk, if_pos hdirectory, if_neg hname.ne_dot, if_neg hname.ne_up, walk]

/-- Two dots at the end lead to a directory. -/
theorem isDirectory_of_walk_up {names target : List (List Char)}
    (h : tree.walk place (names ++ [['.', '.']]) = some target) :
    tree.isDirectory target = true := by
  rw [walk_append, Option.bind_eq_some_iff] at h
  obtain ⟨before, -, h⟩ := h
  rw [walk_up] at h
  split_ifs at h with hdirectory
  exact Option.some.inj h ▸ isDirectory_dropLast hdirectory

/-! ### Systems from a list -/

section List

variable (entries : List (List (List Char) × Entry α))

def entryOf (place : List (List Char)) : Option (Entry α) :=
  if place = [] then some .directory else entries.lookup place

def isDirectoryOf (place : List (List Char)) : Bool :=
  match entryOf entries place with
  | some .directory => true
  | _ => false

/-- Each entry of the list has a name and is in a directory. -/
def IsTree : Prop :=
  ∀ e ∈ entries, isDirectoryOf entries e.1.dropLast = true ∧ ∀ name ∈ e.1.getLast?, IsName name

instance (name : List Char) : Decidable (IsName name) :=
  decidable_of_iff (name ≠ [] ∧ '/' ∉ name ∧ name ≠ ['.'] ∧ name ≠ ['.', '.'])
    ⟨fun ⟨h₁, h₂, h₃, h₄⟩ => ⟨h₁, h₂, h₃, h₄⟩, fun ⟨h₁, h₂, h₃, h₄⟩ => ⟨h₁, h₂, h₃, h₄⟩⟩

instance : Decidable (IsTree entries) :=
  inferInstanceAs (Decidable (∀ e ∈ entries, _ ∧ ∀ name ∈ e.1.getLast?, _))

variable {entries}

/-- What is at a place below the root is in the list, -/
theorem exists_mem_of_entryOf {place : List (List Char)} {name : List Char}
    (h : entryOf entries (place ++ [name]) ≠ none) : ∃ e ∈ entries, e.1 = place ++ [name] := by
  rw [entryOf, if_neg (by simp)] at h
  by_contra hnone
  exact h (List.lookup_eq_none_iff.mpr fun e he => by
    simpa using fun heq => hnone ⟨e, he, heq.symm⟩)

/-- and what is in the list is at its place. -/
theorem entryOf_ne_none {e : List (List Char) × Entry α} (he : e ∈ entries) :
    entryOf entries e.1 ≠ none := by
  rw [entryOf]
  split_ifs
  · exact Option.some_ne_none _
  · intro hnone
    have hne := List.lookup_eq_none_iff.mp hnone e he
    simp at hne

/-- The system with the entries of a list. -/
def ofEntries (entries : List (List (List Char) × Entry α)) (h : IsTree entries) : FileTree α where
  entry := entryOf entries
  names place := entries.filterMap fun e => if e.1.dropLast = place then e.1.getLast? else none
  root_directory := rfl
  parent_directory place name hsome := by
    obtain ⟨e, he, heq⟩ := exists_mem_of_entryOf hsome
    have hdirectory := (h e he).1
    rw [heq, List.dropLast_concat, isDirectoryOf] at hdirectory
    split at hdirectory
    · assumption
    · cases hdirectory
  mem_names place name := by
    rw [List.mem_filterMap]
    constructor
    · rintro ⟨e, he, hname⟩
      split_ifs at hname with hplace
      have heq : e.1 = place ++ [name] := by
        rw [← hplace]
        exact (List.dropLast_append_getLast? name hname).symm
      rw [← heq]
      exact entryOf_ne_none he
    · intro hsome
      obtain ⟨e, he, heq⟩ := exists_mem_of_entryOf hsome
      refine ⟨e, he, ?_⟩
      rw [heq, List.dropLast_concat, if_pos rfl, List.getLast?_concat]
  isName place name hmem := by
    obtain ⟨e, he, hname⟩ := List.mem_filterMap.mp hmem
    split_ifs at hname
    exact (h e he).2 name hname

end List

/-! ### Two systems that agree below a place -/

/-- The systems have the same entries below a place. -/
def AgreeBelow (tree₁ tree₂ : FileTree α) (place : List (List Char)) : Prop :=
  ∀ more, tree₁.entry (place ++ more) = tree₂.entry (place ++ more)

variable {tree₁ tree₂ : FileTree α}

/-- The same place below has the same entry. -/
theorem AgreeBelow.entry (h : AgreeBelow tree₁ tree₂ place) {target : List (List Char)}
    (hbelow : place <+: target) : tree₁.entry target = tree₂.entry target := by
  obtain ⟨more, rfl⟩ := hbelow
  exact h more

/-- They agree further below, too. -/
theorem AgreeBelow.mono (h : AgreeBelow tree₁ tree₂ place) {target : List (List Char)}
    (hbelow : place <+: target) : AgreeBelow tree₁ tree₂ target :=
  fun _ => h.entry (hbelow.trans (List.prefix_append _ _))

/-- The place itself is a directory of both or of none. -/
theorem AgreeBelow.isDirectory (h : AgreeBelow tree₁ tree₂ place) :
    tree₁.isDirectory place = tree₂.isDirectory place := by
  rw [FileTree.isDirectory, FileTree.isDirectory, h.entry List.prefix_rfl]

/-- A walk without two dots sees nothing else. -/
theorem AgreeBelow.walk (h : AgreeBelow tree₁ tree₂ place) {names : List (List Char)}
    (hup : ['.', '.'] ∉ names) : tree₁.walk place names = tree₂.walk place names := by
  induction names generalizing place with
  | nil => rw [FileTree.walk, FileTree.walk, h.entry List.prefix_rfl]
  | cons name names ih =>
    rw [List.mem_cons, not_or] at hup
    rw [FileTree.walk, FileTree.walk, h.isDirectory, ih h hup.2, if_neg (Ne.symm hup.1),
      if_neg (Ne.symm hup.1), ih (h.mono (List.prefix_append _ _)) hup.2]

/-- **Nor does one** that ends with two dots. -/
theorem AgreeBelow.walk_up (h : AgreeBelow tree₁ tree₂ place) {names : List (List Char)}
    (hup : ['.', '.'] ∉ names) :
    tree₁.walk place (names ++ [['.', '.']]) = tree₂.walk place (names ++ [['.', '.']]) := by
  rw [walk_append, walk_append, h.walk hup]
  cases hwalk : tree₂.walk place names with
  | none => rfl
  | some target =>
    rw [Option.bind_some, Option.bind_some, FileTree.walk_up, FileTree.walk_up,
      (h.mono (prefix_of_walk hup hwalk)).isDirectory]

end FileTree

end PopcornTime
