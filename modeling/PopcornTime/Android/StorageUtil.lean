import Mathlib.Tactic.SplitIfs
import PopcornTime.Lib.Machine

namespace PopcornTime.Android

open PopcornTime

/-!
# Android — the storage folder

`StorageUtil.setRootDir` makes three directories and sets three fields, one by one.  A directory is
not taken up again where the root is the very object that is passed.

* `FileSystem` — what `File` and `FileUtils` ask of the system.
* `StorageUtil.setRootDir`, `StorageUtil.AllOrNothing` — a call, and what is meant of it.
* `StorageUtil.allOrNothing_iff` — the sequences of calls of which that is kept.
-/

/-- The calls of `java.io.File` on a path, and `clearDir`, in any state of the file system. -/
structure FileSystem (σ : Type*) where
  exist : σ → String → Bool
  mkdirs : σ → String → Bool × σ
  clearDir : σ → String → σ

/-- A `File` object, with its absolute path. -/
structure File where
  object : ℕ
  path : String
deriving DecidableEq, Repr

def CACHE_FOLDER_NAME : String := "cache"
def DOWNLOADS_FOLDER_NAME : String := "downloads"

/-- The fields of the only instance; of the folders the paths are enough. -/
structure StorageUtil where
  rootDir : Option File
  cacheDir : Option String
  downloadsDir : Option String
deriving DecidableEq, Repr

namespace StorageUtil

/-- The path of `new File(parent, child)`. -/
def resolve (parent child : String) : String :=
  if parent = "/" then "/" ++ child else parent ++ "/" ++ child

/-- Before the first call. -/
def new : StorageUtil where
  rootDir := none
  cacheDir := none
  downloadsDir := none

variable {σ : Type*}

/-- `dir.exists() || dir.mkdirs()` -/
def made (F : FileSystem σ) (files : σ) (path : String) : Bool × σ :=
  if F.exist files path then (true, files) else F.mkdirs files path

def clearCacheDir (F : FileSystem σ) (s : StorageUtil) (files : σ) : σ :=
  match s.cacheDir with
  | none => files
  | some dir => F.clearDir files dir

/-- `dir` is the root: the same object. -/
def IsRootDir (s : StorageUtil) (dir : File) : Prop :=
  s.rootDir.map File.object = some dir.object

instance (s : StorageUtil) (dir : File) : Decidable (s.IsRootDir dir) :=
  inferInstanceAs (Decidable (_ = _))

/-- `setRootDir`, with the state of the file system it finds. -/
def setRootDir (F : FileSystem σ) (s : StorageUtil) : Option File × σ → StorageUtil
  | (none, _) => s
  | (some dir, files) =>
    if s.IsRootDir dir then s
    else
      let (exist, files) := made F files dir.path
      if !exist then s
      else
        -- the cache of the root before, although the new one may still fail
        let files := s.clearCacheDir F files
        let cache := resolve dir.path CACHE_FOLDER_NAME
        let (exist, files) := made F files cache
        let cacheDir := if exist then some cache else s.cacheDir
        let downloads := resolve dir.path DOWNLOADS_FOLDER_NAME
        let (exist, _) := made F files downloads
        let downloadsDir := if exist then some downloads else s.downloadsDir
        ⟨some dir, cacheDir, downloadsDir⟩

/-! ### All or nothing -/

/-- The folders are those of the root. -/
def Whole (s : StorageUtil) : Prop :=
  ∃ root ∈ s.rootDir, s.cacheDir = some (resolve root.path CACHE_FOLDER_NAME) ∧
    s.downloadsDir = some (resolve root.path DOWNLOADS_FOLDER_NAME)

/-- After a call the folders are those of the root, or all is as it was and a later call with the
    same directory tries again. -/
def AllOrNothing (F : FileSystem σ) (s : StorageUtil) (call : Option File × σ) : Prop :=
  (s.setRootDir F call).Whole ∨
    s.setRootDir F call = s ∧ ∀ dir ∈ call.1, ¬(s.setRootDir F call).IsRootDir dir

/-- The condition of a call that makes the directory: it makes both folders in it, or the one it
    does not make is the one there was before. -/
def Guard (F : FileSystem σ) (s : StorageUtil) (call : Option File × σ) : Prop :=
  ∀ dir ∈ call.1, ¬s.IsRootDir dir → (made F call.2 dir.path).1 = true →
    let files := s.clearCacheDir F (made F call.2 dir.path).2
    let cache := made F files (resolve dir.path CACHE_FOLDER_NAME)
    (cache.1 = true ∨ s.cacheDir = some (resolve dir.path CACHE_FOLDER_NAME)) ∧
      ((made F cache.2 (resolve dir.path DOWNLOADS_FOLDER_NAME)).1 = true ∨
        s.downloadsDir = some (resolve dir.path DOWNLOADS_FOLDER_NAME))

variable {F : FileSystem σ} {s : StorageUtil} {call : Option File × σ} {dir : File} {files : σ}

/-- The cache folder of a root that has been made: behind the old one, which is cleared. -/
def madeCache (F : FileSystem σ) (s : StorageUtil) (dir : File) (files : σ) : Bool × σ :=
  made F (s.clearCacheDir F (made F files dir.path).2) (resolve dir.path CACHE_FOLDER_NAME)

/-- The downloads folder is made behind the cache folder, whatever became of that. -/
def madeDownloads (F : FileSystem σ) (s : StorageUtil) (dir : File) (files : σ) : Bool × σ :=
  made F (s.madeCache F dir files).2 (resolve dir.path DOWNLOADS_FOLDER_NAME)

/-- A call that goes on behind the root. -/
theorem setRootDir_of_made (hroot : ¬s.IsRootDir dir) (hmade : (made F files dir.path).1 = true) :
    s.setRootDir F (some dir, files) =
      ⟨some dir,
        if (s.madeCache F dir files).1 then some (resolve dir.path CACHE_FOLDER_NAME)
        else s.cacheDir,
        if (s.madeDownloads F dir files).1 then some (resolve dir.path DOWNLOADS_FOLDER_NAME)
        else s.downloadsDir⟩ := by
  rw [setRootDir, if_neg hroot]
  dsimp only
  rw [if_neg (by simp [hmade])]
  rfl

theorem setRootDir_of_not_made (hmade : ¬(made F files dir.path).1 = true) :
    s.setRootDir F (some dir, files) = s := by
  simp [setRootDir, hmade]

/-- A field that is set where its folder is made. -/
theorem ite_some_eq_iff {made : Bool} {path : String} {field : Option String} :
    (if made then some path else field) = some path ↔ made = true ∨ field = some path := by
  cases made <;> simp

theorem whole_iff {cacheDir downloadsDir : Option String} :
    Whole ⟨some dir, cacheDir, downloadsDir⟩ ↔
      cacheDir = some (resolve dir.path CACHE_FOLDER_NAME) ∧
        downloadsDir = some (resolve dir.path DOWNLOADS_FOLDER_NAME) := by
  simp [Whole]

/-- A call that makes the directory. -/
theorem whole_setRootDir_iff (hroot : ¬s.IsRootDir dir)
    (hmade : (made F files dir.path).1 = true) :
    (s.setRootDir F (some dir, files)).Whole ↔ s.Guard F (some dir, files) := by
  rw [setRootDir_of_made hroot hmade, whole_iff, ite_some_eq_iff, ite_some_eq_iff]
  constructor
  · rintro h _ ⟨⟩ - -
    exact h
  · intro h
    exact h dir rfl hroot hmade

/-- What holds behind every call: there is no root yet, or the folders are its own. -/
def Inv (s : StorageUtil) : Prop :=
  s.rootDir = none ∨ s.Whole

theorem allOrNothing_call_iff (h : s.Inv) : s.AllOrNothing F call ↔ s.Guard F call := by
  obtain ⟨_ | dir, files⟩ := call
  · exact iff_of_true (.inr ⟨rfl, nofun⟩) nofun
  by_cases hroot : s.IsRootDir dir
  · -- the object is the root already
    have hwhole : s.Whole := by
      obtain hnone | hwhole := h
      · rw [IsRootDir, hnone] at hroot
        exact absurd hroot nofun
      · exact hwhole
    have hsame : s.setRootDir F (some dir, files) = s := by simp [setRootDir, hroot]
    refine iff_of_true (.inl (hsame.symm ▸ hwhole)) ?_
    rintro _ ⟨⟩ hnot
    exact absurd hroot hnot
  by_cases hmade : (made F files dir.path).1 = true
  · have hnow : (s.setRootDir F (some dir, files)).IsRootDir dir := by
      rw [setRootDir_of_made hroot hmade]
      rfl
    rw [← whole_setRootDir_iff hroot hmade]
    exact or_iff_left fun ⟨_, htries⟩ => htries dir rfl hnow
  · have hsame := setRootDir_of_not_made (s := s) hmade
    refine iff_of_true (.inr ⟨hsame, ?_⟩) ?_
    · rintro _ ⟨⟩
      rwa [hsame]
    · rintro _ ⟨⟩ - h'
      exact absurd h' hmade

theorem inv_of_allOrNothing (h : s.Inv) (hcall : s.AllOrNothing F call) :
    (s.setRootDir F call).Inv := by
  obtain hwhole | ⟨hsame, -⟩ := hcall
  · exact .inr hwhole
  · rwa [hsame]

/-- **The storage folder.**  Every call of a sequence is all or nothing exactly if every one meets
    the guard, whatever the file system is like when it is made. -/
theorem allOrNothing_iff (F : FileSystem σ) (calls : List (Option File × σ)) :
    EachCall (setRootDir F) (AllOrNothing F) new calls ↔
      EachCall (setRootDir F) (Guard F) new calls :=
  eachCall_iff (fun _ _ => allOrNothing_call_iff) (fun _ _ => inv_of_allOrNothing) (.inl rfl) calls

/-- A card that has no room for a folder any more; its state is the paths that exist. -/
def fullCard (full : String) : FileSystem (List String) where
  exist files path := decide (path ∈ files)
  mkdirs files path := if path = full then (false, files) else (true, path :: files)
  clearDir files _ := files

/-- The cache folder of a second root cannot be made: the new root has the old cache folder, and a
    second call with it changes nothing although it could be made by then. -/
theorem setRootDir_mixture :
    let first : Option File × List String := (some ⟨0, "/a"⟩, [])
    let second : Option File × List String := (some ⟨1, "/b"⟩, ["/a", "/a/cache", "/a/downloads"])
    let mixture : StorageUtil := ⟨some ⟨1, "/b"⟩, some "/a/cache", some "/b/downloads"⟩
    (new.setRootDir (fullCard "/b/cache") first).setRootDir (fullCard "/b/cache") second = mixture ∧
      mixture.setRootDir (fullCard "") (some ⟨1, "/b"⟩, ["/a", "/b"]) = mixture ∧
      ¬EachCall (setRootDir (fullCard "/b/cache")) (AllOrNothing (fullCard "/b/cache")) new
        [first, second] := by
  refine ⟨by decide +kernel, by decide +kernel, ?_⟩
  rintro ⟨hfirst, hsecond, -⟩
  have hinv := inv_of_allOrNothing (.inl rfl) hfirst
  obtain ⟨hcache, -⟩ :=
    (allOrNothing_call_iff hinv).mp hsecond ⟨1, "/b"⟩ rfl (by decide) (by decide)
  revert hcache
  decide +kernel

end StorageUtil

end PopcornTime.Android
