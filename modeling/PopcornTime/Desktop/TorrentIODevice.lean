import Mathlib.Data.Nat.Notation
import Mathlib.Tactic.SplitIfs
import PopcornTime.Lib.LeadsTo

namespace PopcornTime.Desktop

open PopcornTime

/-!
# Desktop — the device that waits for its torrent

`readData` of the `TorrentIODevice` runs in a thread of the player and waits until the range it is to
read has been downloaded; `open`, `close` and `abortWait` run in the GUI thread, which also answers
the reader's `checkDownloaded`.  The two share the flag `abort`.

* `ReadStage`, `GuiStage` — where the two threads are; `DeviceEvent` — what they do next.
* `Consumed` — behind a `close` and an `open` the flag is down, and the new file is read.
* `consumed_of_guard` — when it is, and that a waiting reader comes back from a `close` anyway.
-/

/-- `QFile`, open on a content. -/
structure QFile where
  content : List UInt8
  pos : ℕ
deriving DecidableEq, Repr

def QFile.read (file : QFile) (maxSize : ℕ) : List UInt8 × QFile :=
  let bytes := (file.content.drop file.pos).take maxSize
  (bytes, { file with pos := file.pos + bytes.length })

/-- Where the reader is in `readData`. -/
inductive ReadStage
  /-- It is in no call. -/
  | idle
  | entered (maxSize : ℕ)
  /-- It has emitted `checkDownloaded`, which blocks it until the GUI thread has answered. -/
  | checking (maxSize : ℕ)
  /-- In front of the `QMutexLocker`. -/
  | locking (maxSize : ℕ)
  /-- At the condition of its loop. -/
  | waiting (maxSize : ℕ) (isDownloaded : Bool)
  | sleeping (maxSize : ℕ)
  | rechecking (maxSize : ℕ)
  /-- Behind the loop. -/
  | left (maxSize : ℕ)
  /-- It has found the flag up behind the loop. -/
  | aborted
  /-- It emits `buffered` and lets the mutex go. -/
  | buffered (maxSize : ℕ)
  | reading (maxSize : ℕ)
deriving DecidableEq, Repr

/-- The mutex is held by the reader. -/
def ReadStage.locked : ReadStage → Bool
  | .waiting _ _ | .sleeping _ | .rechecking _ | .left _ | .aborted | .buffered _ => true
  | _ => false

/-- The call that is running comes to look at the flag behind its loop, or may yet come to. -/
def ReadStage.LooksYet : ReadStage → Prop
  | .checking _ | .locking _ | .waiting _ _ | .sleeping _ | .rechecking _ | .left _ | .aborted => True
  | _ => False

/-- Where the GUI thread is in `close`, in `abortWait`, called by `close` or by itself, or in
    `open`. -/
inductive GuiStage
  | idle
  /-- At the `tryLock`. -/
  | abortWait (closing : Bool)
  /-- It has found the mutex locked. -/
  | aborting (closing : Bool)
  /-- At `QIODevice::close`. -/
  | closing
  | closingFile
  /-- At `QIODevice::open`; the file is open. -/
  | opening
deriving DecidableEq, Repr

/-- Behind `abortWait`. -/
def GuiStage.afterAbortWait (closing : Bool) : GuiStage :=
  if closing then .closing else .idle

inductive OpenMode
  | readOnly
  | other
deriving DecidableEq, Repr

structure TorrentIODevice where
  file : Option QFile
  isOpen : Bool
  abort : Bool
  reader : ReadStage
  gui : GuiStage
deriving DecidableEq, Repr

/-- What `readData` returns: 0 without having read, what the file has, or -1 where it is closed. -/
inductive ReadResult
  | nothing
  | data (bytes : List UInt8)
  | error
deriving DecidableEq, Repr

/-- What the two threads do. -/
inductive DeviceEvent
  | readData (maxSize : ℕ)
  /-- The reader's next step in `readData`. -/
  | step
  /-- The GUI thread answers `checkDownloaded`. -/
  | answer (isDownloaded : Bool)
  | seek (pos : ℕ)
  | close
  /-- The player has stopped. -/
  | stopped
  /-- `open`, of a file with this content if it can be opened. -/
  | open (mode : OpenMode) (content : Option (List UInt8))
  /-- The GUI thread's next step in its call. -/
  | gui
deriving DecidableEq, Repr

namespace TorrentIODevice

def new : TorrentIODevice where
  file := none
  isOpen := false
  abort := false
  reader := .idle
  gui := .idle

/-- One step of `readData`, with the result if it returns. -/
def readData (s : TorrentIODevice) : Option (TorrentIODevice × Option ReadResult) :=
  match s.reader with
  | .entered maxSize =>
    if s.abort then some ({ s with reader := .idle }, some .nothing)
    else some ({ s with reader := .checking maxSize }, none)
  | .locking maxSize => some ({ s with reader := .waiting maxSize false }, none)
  -- the condition of the loop; the interface sets the flag without the lock
  | .waiting maxSize isDownloaded =>
    some ({ s with
      reader := if !isDownloaded && !s.abort then .sleeping maxSize else .left maxSize }, none)
  -- the device may have been closed meanwhile
  | .sleeping maxSize =>
    if s.isOpen then some ({ s with reader := .rechecking maxSize }, none)
    else some ({ s with reader := .idle }, some .nothing)
  | .left maxSize =>
    some ({ s with reader := if s.abort then .aborted else .buffered maxSize }, none)
  -- the reader takes the flag down itself
  | .aborted => some ({ s with abort := false, reader := .idle }, some .nothing)
  | .buffered maxSize => some ({ s with reader := .reading maxSize }, none)
  | .reading maxSize =>
    match s.file with
    | none => some ({ s with reader := .idle }, some .error)
    | some file =>
      let (bytes, file) := file.read maxSize
      some ({ s with file := some file, reader := .idle }, some (.data bytes))
  | .idle | .checking _ | .rechecking _ => none

/-- The answer to `checkDownloaded`. -/
def answer (s : TorrentIODevice) (isDownloaded : Bool) : Option TorrentIODevice :=
  match s.gui, s.reader with
  | .idle, .checking maxSize =>
    some { s with reader := if isDownloaded then .reading maxSize else .locking maxSize }
  | .idle, .rechecking maxSize => some { s with reader := .waiting maxSize isDownloaded }
  | _, _ => none

/-- One step of the GUI thread in its call. -/
def guiStep (s : TorrentIODevice) : Option TorrentIODevice :=
  match s.gui with
  | .idle => none
  | .abortWait closing =>
    -- a mutex that is free is let go at once
    some { s with
      gui := if s.reader.locked then .aborting closing else GuiStage.afterAbortWait closing }
  | .aborting closing => some { s with abort := true, gui := GuiStage.afterAbortWait closing }
  | .closing => some { s with isOpen := false, gui := .closingFile }
  | .closingFile => some { s with file := none, gui := .idle }
  | .opening => some { s with isOpen := true, gui := .idle }

/-- `open`, up to `QIODevice::open`; a file that is open already cannot be opened. -/
def openFile (s : TorrentIODevice) (mode : OpenMode) (content : Option (List UInt8)) :
    TorrentIODevice :=
  match mode, s.file, content with
  | .readOnly, none, some content => { s with file := some ⟨content, 0⟩, gui := .opening }
  | _, _, _ => s

/-! ### What is to hold along a run -/

/-- When a call of `readData` has begun: before the last `close` or `abortWait` was over, behind it
    while the device was not open again, or with the device open. -/
inductive CallAge
  | stale
  | early
  | fresh
deriving DecidableEq, Repr

/-- A call that has returned, and what the file that has been opened last has at its place. -/
structure ReturnedCall where
  age : CallAge
  result : ReadResult
  due : List UInt8
deriving DecidableEq, Repr

/-- The device with what the run has shown of it. -/
structure Run where
  device : TorrentIODevice
  /-- The content of the file that has been opened and not been closed since. -/
  opened : Option (List UInt8)
  /-- The age of the call that is running, or has run last. -/
  age : CallAge
  /-- The call that has returned last. -/
  returned : Option ReturnedCall
deriving DecidableEq, Repr

namespace Run

def start : Run where
  device := .new
  opened := none
  age := .stale
  returned := none

/-- What the content has at the place of the file. -/
def due (r : Run) : List UInt8 :=
  match r.device.reader, r.device.file with
  | .reading maxSize, some file => ((r.opened.getD []).drop file.pos).take maxSize
  | _, _ => []

/-- What the event does, or `none` where it cannot happen. -/
def next (r : Run) : DeviceEvent → Option Run
  | .readData maxSize =>
    if r.device.reader = .idle then
      some { r with
        device := { r.device with reader := .entered maxSize }
        -- `fresh` as long as the interface does nothing to the device
        age := if r.opened.isSome then .fresh else .early }
    else none
  | .step =>
    r.device.readData.map fun (device, result) =>
      { r with
        device := device
        returned := match result with
          | none => r.returned
          | some result => some ⟨r.age, result, r.due⟩ }
  | .answer isDownloaded => (r.device.answer isDownloaded).map fun device => { r with device := device }
  | .seek pos =>
    if r.device.reader = .idle then
      some { r with device := { r.device with
        file := r.device.file.map fun file => { file with pos := pos } } }
    else none
  | .close =>
    if r.device.gui = .idle then
      -- `close` tries the lock of the reader first
      some { r with device := { r.device with gui := .abortWait true }, opened := none, age := .stale }
    else none
  | .stopped =>
    if r.device.gui = .idle then
      some { r with device := { r.device with gui := .abortWait false }, age := .stale }
    else none
  | .open mode content =>
    if r.device.gui = .idle then some { r with device := r.device.openFile mode content }
    else none
  | .gui =>
    r.device.guiStep.map fun device =>
      if r.device.gui = .opening then
        { r with device := device, opened := device.file.map QFile.content }
      else { r with device := device, age := .stale }

def machine : Machine Run DeviceEvent :=
  .ofFun (fun r => r = start) next

/-- While the device is open again and no call from before the `close` is running, the flag is down;
    a call that has begun with the device open has read what the file has. -/
structure Consumed (r : Run) : Prop where
  flag : r.opened.isSome = true → (r.device.reader = .idle ∨ r.age ≠ .stale) → r.device.abort = false
  data : ∀ call ∈ r.returned, call.age = .fresh → call.result = .data call.due

/-- **The guard.**  The flag goes up while the reader may yet come to look at it behind its loop, and
    with the flag up the reader leaves neither because the device is closed nor because its first
    question is answered with yes. -/
def AbortGuard (r : Run) : DeviceEvent → Prop
  | .gui => ∀ closing, r.device.gui = .aborting closing → r.device.reader.LooksYet
  | .step => ∀ maxSize, r.device.reader = .sleeping maxSize →
      r.device.isOpen = true ∨ r.device.abort = false
  | .answer isDownloaded => isDownloaded = true → ∀ maxSize, r.device.reader = .checking maxSize →
      r.device.abort = false
  | _ => True

end Run

/-! ### What a step does -/

section Steps

variable {s s' : TorrentIODevice}

/-- **A step of `readData`** goes on in the call, or returns in one of five ways. -/
theorem readData_cases {result : Option ReadResult} (h : s.readData = some (s', result)) :
    (∃ stage, s' = { s with reader := stage } ∧ result = none ∧ s.reader ≠ .idle ∧ stage ≠ .idle ∧
      (stage = .aborted → s.abort = true) ∧ (s.abort = true → (stage.LooksYet ↔ s.reader.LooksYet))) ∨
    (∃ maxSize, s.reader = .entered maxSize ∧ s.abort = true ∧ s' = { s with reader := .idle } ∧
      result = some .nothing) ∨
    (∃ maxSize, s.reader = .sleeping maxSize ∧ s.isOpen = false ∧ s' = { s with reader := .idle } ∧
      result = some .nothing) ∨
    (s.reader = .aborted ∧ s' = { s with abort := false, reader := .idle } ∧
      result = some .nothing) ∨
    (∃ maxSize, s.reader = .reading maxSize ∧ s.file = none ∧ s' = { s with reader := .idle } ∧
      result = some .error) ∨
    ∃ maxSize file, s.reader = .reading maxSize ∧ s.file = some file ∧
      s' = { s with file := some (file.read maxSize).2, reader := .idle } ∧
      result = some (.data (file.read maxSize).1) := by
  unfold readData at h
  cases hreader : s.reader with
  | idle | checking maxSize | rechecking maxSize => simp [hreader] at h
  | entered maxSize =>
    simp only [hreader] at h
    -- an abort that was asked for before the read ends it here, with nothing
    split_ifs at h with habort
    · obtain ⟨rfl, rfl⟩ := Prod.mk.inj (Option.some.inj h)
      exact .inr (.inl ⟨maxSize, rfl, habort, rfl, rfl⟩)
    · obtain ⟨rfl, rfl⟩ := Prod.mk.inj (Option.some.inj h)
      exact .inl ⟨_, rfl, rfl, by simp, by simp, by simp, fun h => absurd h habort⟩
  | locking maxSize | buffered maxSize =>
    simp only [hreader] at h
    obtain ⟨rfl, rfl⟩ := Prod.mk.inj (Option.some.inj h)
    exact .inl ⟨_, rfl, rfl, by simp, by simp, by simp, by simp [ReadStage.LooksYet]⟩
  | waiting maxSize isDownloaded =>
    simp only [hreader] at h
    obtain ⟨rfl, rfl⟩ := Prod.mk.inj (Option.some.inj h)
    refine .inl ⟨_, rfl, rfl, by simp, ?_, ?_, ?_⟩ <;> split_ifs <;> simp [ReadStage.LooksYet]
  | sleeping maxSize =>
    simp only [hreader] at h
    -- a device closed while the reader slept ends the read too
    split_ifs at h with hopen
    · obtain ⟨rfl, rfl⟩ := Prod.mk.inj (Option.some.inj h)
      exact .inl ⟨_, rfl, rfl, by simp, by simp, by simp, by simp [ReadStage.LooksYet]⟩
    · obtain ⟨rfl, rfl⟩ := Prod.mk.inj (Option.some.inj h)
      exact .inr (.inr (.inl ⟨maxSize, rfl, by simpa using hopen, rfl, rfl⟩))
  | left maxSize =>
    simp only [hreader] at h
    obtain ⟨rfl, rfl⟩ := Prod.mk.inj (Option.some.inj h)
    refine .inl ⟨_, rfl, rfl, by simp, ?_, ?_, ?_⟩ <;> split_ifs with habort <;>
      simp [ReadStage.LooksYet, habort]
  | aborted =>
    simp only [hreader] at h
    obtain ⟨rfl, rfl⟩ := Prod.mk.inj (Option.some.inj h)
    exact .inr (.inr (.inr (.inl ⟨rfl, rfl, rfl⟩)))
  | reading maxSize =>
    cases hfile : s.file with
    | none =>
      simp only [hreader, hfile] at h
      obtain ⟨rfl, rfl⟩ := Prod.mk.inj (Option.some.inj h)
      exact .inr (.inr (.inr (.inr (.inl ⟨maxSize, rfl, rfl, rfl, rfl⟩))))
    | some file =>
      simp only [hreader, hfile] at h
      obtain ⟨rfl, rfl⟩ := Prod.mk.inj (Option.some.inj h)
      exact .inr (.inr (.inr (.inr (.inr ⟨maxSize, file, rfl, rfl, rfl, rfl⟩))))

/-- **An answer** sends a question's reader on. -/
theorem answer_cases {isDownloaded : Bool} (h : s.answer isDownloaded = some s') :
    (∃ maxSize, s.reader = .checking maxSize ∧ s' = { s with
      reader := if isDownloaded then .reading maxSize else .locking maxSize }) ∨
    ∃ maxSize, s.reader = .rechecking maxSize ∧
      s' = { s with reader := .waiting maxSize isDownloaded } := by
  unfold answer at h
  split at h
  · next maxSize hgui hreader => exact .inl ⟨maxSize, hreader, (Option.some.inj h).symm⟩
  · next maxSize hgui hreader => exact .inr ⟨maxSize, hreader, (Option.some.inj h).symm⟩
  · cases h

/-- A file is opened where there is none, or nothing happens. -/
theorem openFile_cases (mode : OpenMode) (content : Option (List UInt8)) :
    s.openFile mode content = s ∨ ∃ opened, s.file = none ∧
      s.openFile mode content = { s with file := some ⟨opened, 0⟩, gui := .opening } := by
  unfold openFile
  split
  · next hfile => exact .inr ⟨_, hfile, rfl⟩
  · exact .inl rfl

end Steps

namespace Run

variable {r r' : Run} {e : DeviceEvent}

/-- **A step of the GUI thread.** -/
theorem next_gui (h : r.next .gui = some r') :
    (∃ closing, r.device.gui = .abortWait closing ∧ r' = { r with
      device := { r.device with gui := if r.device.reader.locked then .aborting closing
        else GuiStage.afterAbortWait closing }
      age := .stale }) ∨
    (∃ closing, r.device.gui = .aborting closing ∧ r' = { r with
      device := { r.device with abort := true, gui := GuiStage.afterAbortWait closing }
      age := .stale }) ∨
    (r.device.gui = .closing ∧ r' = { r with
      device := { r.device with isOpen := false, gui := .closingFile }, age := .stale }) ∨
    (r.device.gui = .closingFile ∧ r' = { r with
      device := { r.device with file := none, gui := .idle }, age := .stale }) ∨
    r.device.gui = .opening ∧ r' = { r with
      device := { r.device with isOpen := true, gui := .idle }
      opened := r.device.file.map QFile.content } := by
  obtain ⟨device, hgui, rfl⟩ := Option.map_eq_some_iff.mp h
  unfold guiStep at hgui
  cases hstage : r.device.gui with
  | idle => simp [hstage] at hgui
  | abortWait closing =>
    simp only [hstage] at hgui
    obtain rfl := Option.some.inj hgui
    exact .inl ⟨closing, rfl, rfl⟩
  | aborting closing =>
    simp only [hstage] at hgui
    obtain rfl := Option.some.inj hgui
    exact .inr (.inl ⟨closing, rfl, rfl⟩)
  | closing =>
    simp only [hstage] at hgui
    obtain rfl := Option.some.inj hgui
    exact .inr (.inr (.inl ⟨rfl, rfl⟩))
  | closingFile =>
    simp only [hstage] at hgui
    obtain rfl := Option.some.inj hgui
    exact .inr (.inr (.inr (.inl ⟨rfl, rfl⟩)))
  | opening =>
    simp only [hstage] at hgui
    obtain rfl := Option.some.inj hgui
    exact .inr (.inr (.inr (.inr ⟨rfl, rfl⟩)))

/-! ### What holds in every run -/

structure Ok (r : Run) : Prop where
  opened : ∀ content, r.opened = some content →
    r.device.isOpen = true ∧ r.device.file.map QFile.content = some content
  gui : r.opened.isSome = true →
    r.device.gui = .idle ∨ r.device.gui = .abortWait false ∨ r.device.gui = .aborting false
  fresh : r.device.reader ≠ .idle → r.age = .fresh → r.opened.isSome = true
  aborted : r.device.reader = .aborted → r.device.abort = true

/-- At the start nothing is open. -/
theorem ok_start : start.Ok :=
  ⟨fun _ h => by simp [start] at h, fun h => by simp [start] at h,
    fun h => absurd rfl h, fun h => by simp [start, TorrentIODevice.new] at h⟩

/-- Nothing is asked of a device that is not open, and whose call is stale. -/
theorem ok_of_unopened (hopened : r.opened = none) (hage : r.age = .stale)
    (haborted : r.device.reader = .aborted → r.device.abort = true) : r.Ok := by
  refine ⟨fun content hcontent => ?_, fun hsome => ?_, fun _ hfresh => ?_, haborted⟩
  · rw [hopened] at hcontent
    cases hcontent
  · rw [hopened] at hsome
    cases hsome
  · rw [hage] at hfresh
    cases hfresh

/-- A call that returns leaves the device as it was, but for the place in the file. -/
theorem Ok.returns (h : r.Ok) (hidle : r'.device.reader = .idle) (hopened : r'.opened = r.opened)
    (hopen : r'.device.isOpen = r.device.isOpen)
    (hcontent : r'.device.file.map QFile.content = r.device.file.map QFile.content)
    (hgui : r'.device.gui = r.device.gui) : r'.Ok where
  opened := by
    rw [hopened, hopen, hcontent]
    exact h.opened
  gui := by
    rw [hopened, hgui]
    exact h.gui
  fresh := fun hrunning => absurd hidle hrunning
  aborted := fun haborted => by
    rw [hidle] at haborted
    cases haborted

/-- A step of the reader keeps the invariant. -/
theorem Ok.step (h : r.Ok) (hstep : r.next .step = some r') : r'.Ok := by
  obtain ⟨⟨s', result⟩, hread, rfl⟩ := Option.map_eq_some_iff.mp hstep
  rcases readData_cases hread with ⟨stage, rfl, rfl, hrunning, hstage, haborted, -⟩ |
    ⟨maxSize, hreader, habort, rfl, rfl⟩ | ⟨maxSize, hreader, hopen, rfl, rfl⟩ |
    ⟨hreader, rfl, rfl⟩ | ⟨maxSize, hreader, hfile, rfl, rfl⟩ |
    ⟨maxSize, file, hreader, hfile, rfl, rfl⟩
  · exact ⟨h.opened, h.gui, fun _ => h.fresh hrunning, haborted⟩
  · exact h.returns rfl rfl rfl rfl rfl
  · exact h.returns rfl rfl rfl rfl rfl
  · exact h.returns rfl rfl rfl rfl rfl
  · exact h.returns rfl rfl rfl rfl rfl
  · refine h.returns rfl rfl rfl ?_ rfl
    rw [hfile]
    rfl

/-- A step of the GUI thread keeps it. -/
theorem Ok.gui_step (h : r.Ok) (hstep : r.next .gui = some r') : r'.Ok := by
  have hclosed : r.device.gui = .closing ∨ r.device.gui = .closingFile → r.opened = none := by
    intro hgui
    rw [← Option.not_isSome_iff_eq_none]
    intro hopened
    rcases hgui with hgui | hgui <;> simpa [hgui] using h.gui hopened
  rcases next_gui hstep with ⟨closing, hgui, rfl⟩ | ⟨closing, hgui, rfl⟩ | ⟨hgui, rfl⟩ |
    ⟨hgui, rfl⟩ | ⟨hgui, rfl⟩
  · refine ⟨h.opened, fun hopened => ?_, fun _ hfresh => by simp at hfresh, h.aborted⟩
    have hclosing : closing = false := by simpa [hgui] using h.gui hopened
    rw [hclosing]
    cases r.device.reader.locked with
    | false => exact .inl rfl
    | true => exact .inr (.inr rfl)
  · refine ⟨h.opened, fun hopened => ?_, fun _ hfresh => by simp at hfresh, fun _ => rfl⟩
    have hclosing : closing = false := by simpa [hgui] using h.gui hopened
    simp [hclosing, GuiStage.afterAbortWait]
  · exact ok_of_unopened (hclosed (.inl hgui)) rfl h.aborted
  · exact ok_of_unopened (hclosed (.inr hgui)) rfl h.aborted
  · refine ⟨fun content hcontent => ⟨rfl, hcontent⟩, fun _ => .inl rfl, fun hrunning hfresh => ?_,
      h.aborted⟩
    -- a call that has begun with the device open cannot run while it is opened again
    have hopened := h.fresh hrunning hfresh
    exact absurd (h.gui hopened) (by simp [hgui])

/-- **One event** keeps the invariant. -/
theorem Ok.next (h : r.Ok) (hnext : r.next e = some r') : r'.Ok := by
  cases e with
  | readData maxSize =>
    obtain ⟨-, rfl⟩ := Machine.of_ite_eq_some hnext
    refine ⟨h.opened, h.gui, fun _ hfresh => ?_, fun haborted => by cases haborted⟩
    by_contra hopened
    rw [show (if r.opened.isSome then CallAge.fresh else .early) = .early from if_neg hopened] at hfresh
    cases hfresh
  | step => exact h.step hnext
  | answer isDownloaded =>
    obtain ⟨device, hanswer, rfl⟩ := Option.map_eq_some_iff.mp hnext
    rcases answer_cases hanswer with ⟨maxSize, hreader, rfl⟩ | ⟨maxSize, hreader, rfl⟩
    · refine ⟨h.opened, h.gui, fun _ => h.fresh (by simp [hreader]), fun haborted => ?_⟩
      simp only at haborted
      split_ifs at haborted
    · exact ⟨h.opened, h.gui, fun _ => h.fresh (by simp [hreader]), fun haborted => by cases haborted⟩
  | seek pos =>
    obtain ⟨-, rfl⟩ := Machine.of_ite_eq_some hnext
    refine ⟨fun content hcontent => ?_, h.gui, h.fresh, h.aborted⟩
    have := h.opened content hcontent
    rw [Option.map_map]
    exact this
  | close =>
    obtain ⟨-, rfl⟩ := Machine.of_ite_eq_some hnext
    exact ok_of_unopened rfl rfl h.aborted
  | stopped =>
    obtain ⟨-, rfl⟩ := Machine.of_ite_eq_some hnext
    exact ⟨h.opened, fun _ => .inr (.inl rfl), fun _ hfresh => by simp at hfresh, h.aborted⟩
  | «open» mode content =>
    obtain ⟨-, rfl⟩ := Machine.of_ite_eq_some hnext
    rcases openFile_cases (s := r.device) mode content with hsame | ⟨newContent, hnone, hopen⟩
    · rw [hsame]
      exact h
    · rw [hopen]
      -- a file that could be opened was not open before
      have hclosed : ∀ content, r.opened ≠ some content := fun content hcontent => by
        have := (h.opened content hcontent).2
        rw [hnone] at this
        cases this
      refine ⟨fun content hcontent => absurd hcontent (hclosed content), fun hopened => ?_, h.fresh,
        h.aborted⟩
      obtain ⟨content, hcontent⟩ := Option.isSome_iff_exists.mp hopened
      exact absurd hcontent (hclosed content)
  | gui => exact h.gui_step hnext

/-- **Every run** keeps the invariant. -/
theorem ok_of_reachable (h : machine.Reachable r) : r.Ok :=
  h.invariant (fun _ hinit => hinit ▸ ok_start) fun _ _ _ hok hstep => hok.next hstep

/-! ### Guarded runs -/

/-- A flag that is up is that of the call that is running, which has begun before. -/
structure Awaited (r : Run) : Prop where
  flag : r.device.abort = true → r.device.reader.LooksYet ∧ r.age = .stale
  data : ∀ call, r.returned = some call → call.age = .fresh → call.result = .data call.due

/-- The flag is down where nobody comes to look at it. -/
theorem Awaited.abort_eq_false (h : r.Awaited) (hlooks : ¬ r.device.reader.LooksYet) :
    r.device.abort = false := by
  by_contra habort
  exact hlooks (h.flag (by simpa using habort)).1

/-- The flag of a stale call that still looks at it harms no later one. -/
theorem Awaited.consumed (h : r.Awaited) : r.Consumed := by
  refine ⟨fun _ hreader => ?_, fun call hcall => h.data call (Option.mem_def.mp hcall)⟩
  rcases hreader with hidle | hstale
  · exact h.abort_eq_false (by rw [hidle]; exact id)
  · by_contra habort
    exact hstale (h.flag (by simpa using habort)).2

/-- A step of the reader takes the flag down where it comes to look at it. -/
theorem Awaited.step (hok : r.Ok) (h : r.Awaited) (hguard : r.AbortGuard .step)
    (hstep : r.next .step = some r') : r'.Awaited := by
  obtain ⟨⟨s', result⟩, hread, rfl⟩ := Option.map_eq_some_iff.mp hstep
  -- a fresh call finds the device open
  have hfresh : r.device.reader ≠ .idle → r.age = .fresh → ∃ content, r.opened = some content ∧
      r.device.isOpen = true ∧ r.device.file.map QFile.content = some content := by
    intro hrunning hage
    obtain ⟨content, hcontent⟩ := Option.isSome_iff_exists.mp (hok.fresh hrunning hage)
    exact ⟨content, hcontent, hok.opened content hcontent⟩
  rcases readData_cases hread with ⟨stage, rfl, rfl, hrunning, hstage, -, hlooks⟩ |
    ⟨maxSize, hreader, habort, rfl, rfl⟩ | ⟨maxSize, hreader, hopen, rfl, rfl⟩ |
    ⟨hreader, rfl, rfl⟩ | ⟨maxSize, hreader, hfile, rfl, rfl⟩ |
    ⟨maxSize, file, hreader, hfile, rfl, rfl⟩
  · refine ⟨fun habort => ?_, h.data⟩
    obtain ⟨hlooked, hage⟩ := h.flag habort
    exact ⟨(hlooks habort).mpr hlooked, hage⟩
  · have hdown := h.abort_eq_false (by rw [hreader]; exact id)
    rw [habort] at hdown
    cases hdown
  · have habort : r.device.abort = false := (hguard maxSize hreader).resolve_left (by simp [hopen])
    refine ⟨fun hup => by simp [habort] at hup, fun call hcall hage => ?_⟩
    obtain rfl := Option.some.inj hcall
    obtain ⟨content, -, hisOpen, -⟩ := hfresh (by simp [hreader]) hage
    rw [hopen] at hisOpen
    cases hisOpen
  · refine ⟨fun hup => (by cases hup), fun call hcall hage => ?_⟩
    obtain rfl := Option.some.inj hcall
    have hstale := (h.flag (hok.aborted hreader)).2
    rw [hstale] at hage
    cases hage
  · have hdown := h.abort_eq_false (by rw [hreader]; exact id)
    refine ⟨fun hup => by simp [hdown] at hup, fun call hcall hage => ?_⟩
    obtain rfl := Option.some.inj hcall
    obtain ⟨content, -, -, hcontent⟩ := hfresh (by simp [hreader]) hage
    rw [hfile] at hcontent
    cases hcontent
  · have hdown := h.abort_eq_false (by rw [hreader]; exact id)
    refine ⟨fun hup => by simp [hdown] at hup, fun call hcall hage => ?_⟩
    obtain rfl := Option.some.inj hcall
    obtain ⟨content, hopened, -, hcontent⟩ := hfresh (by simp [hreader]) hage
    rw [hfile] at hcontent
    obtain rfl := Option.some.inj hcontent
    simp only [due, hreader, hfile, hopened, Option.getD_some, QFile.read]

/-- **One event** that meets the guard. -/
theorem Awaited.next (hok : r.Ok) (h : r.Awaited) (hguard : r.AbortGuard e)
    (hnext : r.next e = some r') : r'.Awaited := by
  cases e with
  | step => exact h.step hok hguard hnext
  | readData maxSize =>
    obtain ⟨hidle, rfl⟩ := Machine.of_ite_eq_some hnext
    -- a read that begins finds the flag down, since nobody waits
    have hdown := h.abort_eq_false (by rw [hidle]; exact id)
    exact ⟨fun hup => by simp [hdown] at hup, h.data⟩
  | answer isDownloaded =>
    obtain ⟨device, hanswer, rfl⟩ := Option.map_eq_some_iff.mp hnext
    rcases answer_cases hanswer with ⟨maxSize, hreader, rfl⟩ | ⟨maxSize, hreader, rfl⟩
    · refine ⟨fun hup => ⟨?_, (h.flag hup).2⟩, h.data⟩
      -- the guard: an answer that comes under the flag does not say that the range is there
      have hno : isDownloaded = false := by
        by_contra hyes
        have := hguard (by simpa using hyes) maxSize hreader
        rw [show r.device.abort = true from hup] at this
        cases this
      rw [hno]
      trivial
    · exact ⟨fun hup => ⟨trivial, (h.flag hup).2⟩, h.data⟩
  | seek pos =>
    obtain ⟨-, rfl⟩ := Machine.of_ite_eq_some hnext
    exact ⟨h.flag, h.data⟩
  | close =>
    obtain ⟨-, rfl⟩ := Machine.of_ite_eq_some hnext
    exact ⟨fun hup => ⟨(h.flag hup).1, rfl⟩, h.data⟩
  | stopped =>
    obtain ⟨-, rfl⟩ := Machine.of_ite_eq_some hnext
    exact ⟨fun hup => ⟨(h.flag hup).1, rfl⟩, h.data⟩
  | «open» mode content =>
    obtain ⟨-, rfl⟩ := Machine.of_ite_eq_some hnext
    rcases openFile_cases (s := r.device) mode content with hsame | ⟨opened, -, hopen⟩
    · rw [hsame]
      exact h
    · rw [hopen]
      exact ⟨h.flag, h.data⟩
  | gui =>
    rcases next_gui hnext with ⟨closing, hgui, rfl⟩ | ⟨closing, hgui, rfl⟩ | ⟨hgui, rfl⟩ |
      ⟨hgui, rfl⟩ | ⟨hgui, rfl⟩
    · exact ⟨fun hup => ⟨(h.flag hup).1, rfl⟩, h.data⟩
    · exact ⟨fun _ => ⟨hguard closing hgui, rfl⟩, h.data⟩
    · exact ⟨fun hup => ⟨(h.flag hup).1, rfl⟩, h.data⟩
    · exact ⟨fun hup => ⟨(h.flag hup).1, rfl⟩, h.data⟩
    · exact ⟨h.flag, h.data⟩

/-- **Every run** that meets the guard. -/
theorem awaited_of_runUnder (h : machine.RunUnder (fun _ => True) AbortGuard r) : r.Awaited := by
  refine h.invariant_reachable ?_ fun _ _ _ hreach hawaited hguard hstep =>
    hawaited.next (ok_of_reachable hreach) hguard hstep
  rintro r rfl -
  exact ⟨fun hup => (by cases hup), fun call hcall => by cases hcall⟩

/-- **What the window's thread does** leaves the reader where it is, and never takes the flag
    down. -/
theorem reader_next (hstep : e ≠ .step) (hanswer : ∀ isDownloaded, e ≠ .answer isDownloaded)
    (hcall : ∀ maxSize, e ≠ .readData maxSize) (hnext : r.next e = some r') :
    r'.device.reader = r.device.reader ∧ (r.device.abort = true → r'.device.abort = true) := by
  cases e with
  | step => exact absurd rfl hstep
  | answer isDownloaded => exact absurd rfl (hanswer isDownloaded)
  | readData maxSize => exact absurd rfl (hcall maxSize)
  | seek pos | close | stopped =>
    obtain ⟨-, rfl⟩ := Machine.of_ite_eq_some hnext
    exact ⟨rfl, id⟩
  | «open» mode content =>
    obtain ⟨-, rfl⟩ := Machine.of_ite_eq_some hnext
    rcases openFile_cases (s := r.device) mode content with hsame | ⟨opened, -, hopen⟩
    · rw [hsame]
      exact ⟨rfl, id⟩
    · rw [hopen]
      exact ⟨rfl, id⟩
  | gui =>
    rcases next_gui hnext with ⟨closing, -, rfl⟩ | ⟨closing, -, rfl⟩ | ⟨-, rfl⟩ | ⟨-, rfl⟩ | ⟨-, rfl⟩
    · exact ⟨rfl, id⟩
    · exact ⟨rfl, fun _ => rfl⟩
    · exact ⟨rfl, id⟩
    · exact ⟨rfl, id⟩
    · exact ⟨rfl, id⟩

/-! ### A flag that nobody takes down -/

/-- The flag is up, and the call that is running, if any, does not come to look at it. -/
def Lost (r : Run) : Prop :=
  r.device.abort = true ∧ ¬ r.device.reader.LooksYet

/-- A step that breaks the guard leaves the flag up with nobody to look at it. -/
theorem lost_of_not_guard (hguard : ¬ r.AbortGuard e) (hnext : r.next e = some r') : r'.Lost := by
  cases e with
  | step =>
    simp only [AbortGuard, not_forall, not_or, Bool.not_eq_true, Bool.not_eq_false] at hguard
    obtain ⟨maxSize, hreader, hopen, habort⟩ := hguard
    simp only [Run.next, readData, hreader, hopen] at hnext
    obtain rfl := Option.some.inj hnext
    exact ⟨habort, id⟩
  | answer isDownloaded =>
    simp only [AbortGuard, not_forall, Bool.not_eq_false] at hguard
    obtain ⟨rfl, maxSize, hreader, habort⟩ := hguard
    obtain ⟨device, hanswer, rfl⟩ := Option.map_eq_some_iff.mp hnext
    rcases answer_cases hanswer with ⟨_, -, rfl⟩ | ⟨_, hre, -⟩
    · exact ⟨habort, id⟩
    · rw [hreader] at hre
      cases hre
  | gui =>
    simp only [AbortGuard, not_forall] at hguard
    obtain ⟨closing, hgui, hlooks⟩ := hguard
    simp only [Run.next, guiStep, hgui, Option.map_some] at hnext
    obtain rfl := Option.some.inj hnext
    exact ⟨rfl, hlooks⟩
  | _ => exact absurd trivial hguard

/-- **It stays up**, and every call that begins returns without having read. -/
theorem Lost.next (h : r.Lost) (hnext : r.next e = some r') : r'.Lost := by
  obtain ⟨habort, hlooks⟩ := h
  cases e with
  | step =>
    obtain ⟨⟨s', result⟩, hread, rfl⟩ := Option.map_eq_some_iff.mp hnext
    rcases readData_cases hread with ⟨stage, rfl, rfl, -, -, -, hsame⟩ |
      ⟨maxSize, hreader, -, rfl, rfl⟩ | ⟨maxSize, hreader, -, rfl, rfl⟩ |
      ⟨hreader, rfl, rfl⟩ | ⟨maxSize, hreader, -, rfl, rfl⟩ |
      ⟨maxSize, file, hreader, -, rfl, rfl⟩
    · exact ⟨habort, fun hl => hlooks ((hsame habort).mp hl)⟩
    · exact ⟨habort, id⟩
    · exact ⟨habort, id⟩
    · exact absurd (hreader ▸ trivial) hlooks
    · exact ⟨habort, id⟩
    · exact ⟨habort, id⟩
  | answer isDownloaded =>
    obtain ⟨device, hanswer, rfl⟩ := Option.map_eq_some_iff.mp hnext
    rcases answer_cases hanswer with ⟨maxSize, hreader, -⟩ | ⟨maxSize, hreader, -⟩
    · exact absurd (hreader ▸ trivial) hlooks
    · exact absurd (hreader ▸ trivial) hlooks
  | readData maxSize =>
    obtain ⟨-, rfl⟩ := Machine.of_ite_eq_some hnext
    exact ⟨habort, id⟩
  | seek pos | close | stopped | «open» mode content | gui =>
    obtain ⟨hreader, hkept⟩ := reader_next (by simp) (by simp) (by simp) hnext
    exact ⟨hkept habort, by rwa [hreader]⟩

/-! ### A reader that waits comes back -/

/-- The reader is in its loop. -/
def Waits (r : Run) : Prop :=
  match r.device.reader with
  | .waiting _ _ | .sleeping _ | .rechecking _ => True
  | _ => False

/-- The reader is on its way out: behind its loop, or in it with the flag up. -/
def Leaves (r : Run) : Prop :=
  match r.device.reader with
  | .waiting _ _ | .sleeping _ | .rechecking _ => r.device.abort = true
  | .left _ | .aborted | .buffered _ | .reading _ => True
  | _ => False

/-- How far it has to go. -/
def rank (r : Run) : ℕ :=
  match r.device.reader with
  | .sleeping _ => 6
  | .rechecking _ => 5
  | .waiting _ _ => 4
  | .left _ => 3
  | .aborted | .buffered _ => 2
  | .reading _ => 1
  | _ => 0

/-- The events that the reader goes on with. -/
def Reads : DeviceEvent → Prop
  | .step | .answer _ => True
  | _ => False

/-- **No other event** moves a reader that is in a call, or takes the flag down. -/
theorem next_of_not_reads (he : ¬ Reads e) (hrunning : r.device.reader ≠ .idle)
    (hnext : r.next e = some r') : r'.device.reader = r.device.reader ∧
      (r.device.abort = true → r'.device.abort = true) := by
  refine reader_next ?_ ?_ ?_ hnext
  · rintro rfl
    exact he trivial
  · rintro isDownloaded rfl
    exact he trivial
  · -- a call begins only where none runs
    rintro maxSize rfl
    exact hrunning (Machine.of_ite_eq_some hnext).1

/-- **The reader goes on** on its way out. -/
theorem Leaves.reads (h : r.Leaves) (he : Reads e) (hnext : r.next e = some r') :
    r'.device.reader = .idle ∨ r'.Leaves ∧ r'.rank < r.rank := by
  cases e with
  | step =>
    obtain ⟨⟨s', result⟩, hread, rfl⟩ := Option.map_eq_some_iff.mp hnext
    unfold Leaves at h
    -- each stage of a read that has seen the abort is one nearer to the end
    unfold readData at hread
    cases hreader : r.device.reader with
    | idle | entered maxSize | checking maxSize | locking maxSize => simp [hreader] at h
    | waiting maxSize isDownloaded =>
      have habort : r.device.abort = true := by simpa [hreader] using h
      simp only [hreader, habort, Bool.not_true, Bool.and_false] at hread
      obtain ⟨rfl, rfl⟩ := Prod.mk.inj (Option.some.inj hread)
      exact .inr ⟨trivial, by simp [rank, hreader]⟩
    | sleeping maxSize =>
      have habort : r.device.abort = true := by simpa [hreader] using h
      simp only [hreader] at hread
      split_ifs at hread
      · obtain ⟨rfl, rfl⟩ := Prod.mk.inj (Option.some.inj hread)
        exact .inr ⟨habort, by simp [rank, hreader]⟩
      · obtain ⟨rfl, rfl⟩ := Prod.mk.inj (Option.some.inj hread)
        exact .inl rfl
    | rechecking maxSize => simp [hreader] at hread
    | left maxSize =>
      simp only [hreader] at hread
      obtain ⟨rfl, rfl⟩ := Prod.mk.inj (Option.some.inj hread)
      cases r.device.abort with
      | false => exact .inr ⟨trivial, by simp [rank, hreader]⟩
      | true => exact .inr ⟨trivial, by simp [rank, hreader]⟩
    | aborted =>
      simp only [hreader] at hread
      obtain ⟨rfl, rfl⟩ := Prod.mk.inj (Option.some.inj hread)
      exact .inl rfl
    | buffered maxSize =>
      simp only [hreader] at hread
      obtain ⟨rfl, rfl⟩ := Prod.mk.inj (Option.some.inj hread)
      exact .inr ⟨trivial, by simp [rank, hreader]⟩
    | reading maxSize =>
      simp only [hreader] at hread
      split at hread
      · obtain ⟨rfl, rfl⟩ := Prod.mk.inj (Option.some.inj hread)
        exact .inl rfl
      · obtain ⟨rfl, rfl⟩ := Prod.mk.inj (Option.some.inj hread)
        exact .inl rfl
  | answer isDownloaded =>
    obtain ⟨device, hanswer, rfl⟩ := Option.map_eq_some_iff.mp hnext
    rcases answer_cases hanswer with ⟨maxSize, hreader, rfl⟩ | ⟨maxSize, hreader, rfl⟩
    · simp [Leaves, hreader] at h
    · have habort : r.device.abort = true := by simpa [Leaves, hreader] using h
      exact .inr ⟨habort, by simp [rank, hreader]⟩
  | _ => exact he.elim

/-- **Any step** of the two threads keeps the reader on its way out. -/
theorem Leaves.next (h : r.Leaves) (hnext : r.next e = some r') :
    r'.device.reader = .idle ∨ r'.Leaves ∧ r'.rank ≤ r.rank := by
  by_cases he : Reads e
  · exact (h.reads he hnext).imp_right fun ⟨hleaves, hrank⟩ => ⟨hleaves, hrank.le⟩
  · have hrunning : r.device.reader ≠ .idle := fun hidle => by simp [Leaves, hidle] at h
    obtain ⟨hreader, habort⟩ := next_of_not_reads he hrunning hnext
    refine .inr ⟨?_, by simp only [rank, hreader, le_rfl]⟩
    unfold Leaves at h ⊢
    rw [hreader]
    split at h
    · exact habort h
    · exact habort h
    · exact habort h
    · trivial
    · trivial
    · trivial
    · trivial
    · exact h.elim

/-- The reader waits, and the GUI thread is in `abortWait`. -/
structure WaitAborting (closing : Bool) (r : Run) : Prop where
  waits : r.Waits
  gui : r.device.gui = .abortWait closing ∨ r.device.gui = .aborting closing

/-- **The reader goes on** in its loop, or leaves it. -/
theorem Waits.reads (h : r.Waits) (he : Reads e) (hnext : r.next e = some r') :
    (r'.device.reader = .idle ∨ r'.Leaves) ∨ r'.Waits ∧ r'.device.gui = r.device.gui := by
  unfold Waits at h
  cases e with
  | step =>
    obtain ⟨⟨s', result⟩, hread, rfl⟩ := Option.map_eq_some_iff.mp hnext
    unfold readData at hread
    cases hreader : r.device.reader with
    | waiting maxSize isDownloaded =>
      simp only [hreader] at hread
      obtain ⟨rfl, rfl⟩ := Prod.mk.inj (Option.some.inj hread)
      -- the loop goes on while the range is missing and no abort was asked for
      cases (!isDownloaded && !r.device.abort) with
      | false => exact .inl (.inr trivial)
      | true => exact .inr ⟨trivial, rfl⟩
    | sleeping maxSize =>
      simp only [hreader] at hread
      split_ifs at hread
      · obtain ⟨rfl, rfl⟩ := Prod.mk.inj (Option.some.inj hread)
        exact .inr ⟨trivial, rfl⟩
      · obtain ⟨rfl, rfl⟩ := Prod.mk.inj (Option.some.inj hread)
        exact .inl (.inl rfl)
    | rechecking maxSize => simp [hreader] at hread
    | _ => simp [hreader] at h
  | answer isDownloaded =>
    obtain ⟨device, hanswer, rfl⟩ := Option.map_eq_some_iff.mp hnext
    rcases answer_cases hanswer with ⟨maxSize, hreader, rfl⟩ | ⟨maxSize, hreader, rfl⟩
    · simp [hreader] at h
    · exact .inr ⟨trivial, rfl⟩
  | _ => exact he.elim

/-- A reader that waits is in a call, -/
theorem Waits.running (h : r.Waits) : r.device.reader ≠ .idle := fun hidle => by
  simp [Waits, hidle] at h

/-- and holds the mutex. -/
theorem Waits.locked (h : r.Waits) : r.device.reader.locked = true := by
  unfold Waits at h
  cases hreader : r.device.reader with
  | waiting maxSize isDownloaded | sleeping maxSize | rechecking maxSize => rfl
  | _ => simp [hreader] at h

/-- With the flag up, a reader that waits is on its way out. -/
theorem Waits.leaves (h : r.Waits) (habort : r.device.abort = true) : r.Leaves := by
  unfold Waits at h
  unfold Leaves
  cases hreader : r.device.reader with
  | waiting maxSize isDownloaded | sleeping maxSize | rechecking maxSize => exact habort
  | _ => simp [hreader] at h

/-- **The GUI thread finds the mutex locked** and takes the flag up. -/
theorem WaitAborting.gui_step {closing : Bool} (h : r.WaitAborting closing)
    (hnext : r.next .gui = some r') :
    r'.Leaves ∨ r.device.gui = .abortWait closing ∧ r'.WaitAborting closing ∧
      r'.device.gui = .aborting closing := by
  rcases h.gui with hgui | hgui
  · simp only [Run.next, guiStep, hgui, h.waits.locked, if_true, Option.map_some, reduceCtorEq,
      if_false] at hnext
    obtain rfl := Option.some.inj hnext
    exact .inr ⟨hgui, ⟨h.waits, .inr rfl⟩, rfl⟩
  · simp only [Run.next, guiStep, hgui, Option.map_some, reduceCtorEq, if_false] at hnext
    obtain rfl := Option.some.inj hnext
    exact .inl (Waits.leaves (r := { r with device := { r.device with abort := true } }) h.waits rfl)

/-- How far the GUI thread has to go until the flag is up. -/
def guiRank (r : Run) : ℕ :=
  match r.device.gui with
  | .abortWait _ => 1
  | _ => 0

/-- **Any step** leaves it so, or sends the reader on its way out. -/
theorem WaitAborting.next {closing : Bool} (h : r.WaitAborting closing)
    (hnext : r.next e = some r') :
    (r'.device.reader = .idle ∨ r'.Leaves) ∨ r'.WaitAborting closing ∧ r'.guiRank ≤ r.guiRank := by
  by_cases he : Reads e
  · rcases h.waits.reads he hnext with hout | ⟨hwaits, hgui⟩
    · exact .inl hout
    · exact .inr ⟨⟨hwaits, hgui ▸ h.gui⟩, by simp only [guiRank, hgui, le_rfl]⟩
  · have hbusy : r.device.gui ≠ .idle := by
      rcases h.gui with hgui | hgui <;> simp [hgui]
    cases e with
    | step | answer isDownloaded => exact absurd trivial he
    | readData maxSize | seek pos =>
      exact absurd (Machine.of_ite_eq_some hnext).1 h.waits.running
    | close | stopped | «open» mode content =>
      exact absurd (Machine.of_ite_eq_some hnext).1 hbusy
    | gui =>
      rcases h.gui_step hnext with hleaves | ⟨hgui, hnow, hgui'⟩
      · exact .inl (.inr hleaves)
      · exact .inr ⟨hnow, by simp [guiRank, hgui, hgui']⟩

/-- In a course of events that is fair to both threads, each goes on with its call. -/
structure Fair (ρ : machine.Course) : Prop where
  reader : ρ.ComesAgain (fun r => r.device.reader ≠ .idle) Reads
  gui : ρ.ComesAgain (fun r => r.device.gui ≠ .idle) (fun e => e = .gui)

/-- **A reader that waits** when the GUI thread comes to `abortWait` returns. -/
theorem Fair.returns {ρ : machine.Course} (h : Fair ρ) (closing : Bool) :
    ρ.LeadsTo (fun r => r.Waits ∧ r.device.gui = .abortWait closing)
      (fun r => r.device.reader = .idle) := by
  have hflag : ρ.LeadsTo (WaitAborting closing) (fun r => r.device.reader = .idle ∨ r.Leaves) := by
    refine Machine.Course.leadsTo_of_rank guiRank (H := fun e => e = .gui) ?_ ?_ ?_
    · refine fun n hn => h.gui n ?_
      rcases hn.gui with hgui | hgui <;> simp [hgui]
    · exact fun _ _ _ hwait hnext => hwait.next hnext
    · rintro r e r' hwait rfl hnext
      rcases hwait.gui_step hnext with hleaves | ⟨hgui, -, hgui'⟩
      · exact .inl (.inr hleaves)
      · exact .inr (by simp [guiRank, hgui, hgui'])
  have hout : ρ.LeadsTo Leaves (fun r => r.device.reader = .idle) := by
    refine Machine.Course.leadsTo_of_rank rank (H := Reads) ?_ ?_ ?_
    · exact fun n hn => h.reader n fun hidle => by simp [Leaves, hidle] at hn
    · exact fun _ _ _ hleaves hnext => hleaves.next hnext
    · exact fun _ _ _ hleaves he hnext => (hleaves.reads he hnext).imp_right And.right
  intro n ⟨hwaits, hgui⟩
  obtain ⟨m, hnm, hidle | hleaves⟩ := hflag n ⟨hwaits, .inl hgui⟩
  · exact ⟨m, hnm, hidle⟩
  · obtain ⟨k, hmk, hidle⟩ := hout m hleaves
    exact ⟨k, hnm.trans hmk, hidle⟩

/-- **No deadlock**: the reader that is in a call can go on, or the GUI thread can. -/
theorem exists_next (hrunning : r.device.reader ≠ .idle) :
    (∃ e r', Reads e ∧ r.next e = some r') ∨ ∃ r', r.next .gui = some r' := by
  -- a call of the interface that has begun can go on; otherwise the reader can
  cases hgui : r.device.gui with
  | idle =>
    refine .inl ?_
    cases hreader : r.device.reader with
    | idle => exact absurd hreader hrunning
    | checking maxSize | rechecking maxSize =>
      refine ⟨.answer true, ?_⟩
      simp only [Run.next, TorrentIODevice.answer, hgui, hreader, Option.map_some]
      exact ⟨_, trivial, rfl⟩
    | entered maxSize | sleeping maxSize =>
      refine ⟨.step, ?_⟩
      simp only [Run.next, readData, hreader]
      split_ifs
      · exact ⟨_, trivial, rfl⟩
      · exact ⟨_, trivial, rfl⟩
    | reading maxSize =>
      refine ⟨.step, ?_⟩
      simp only [Run.next, readData, hreader]
      cases r.device.file with
      | none => exact ⟨_, trivial, rfl⟩
      | some file => exact ⟨_, trivial, rfl⟩
    | _ =>
      refine ⟨.step, ?_⟩
      simp only [Run.next, readData, hreader]
      exact ⟨_, trivial, rfl⟩
  | _ =>
    refine .inr ?_
    simp only [Run.next, guiStep, hgui]
    exact ⟨_, rfl⟩

/-- **The flag `abort`.**  In a run that meets the guard it is down once the device is open again and
    the calls from before the `close` have returned, and new calls read the new file; a step that
    does not meet the guard leaves the flag up for ever.  In every run a reader that waits when
    `close` is called returns. -/
theorem consumed_of_guard (r : Run) :
    (machine.RunUnder (fun _ => True) AbortGuard r → r.Consumed) ∧
    (∀ e r' r'', r.next e = some r' → ¬ r.AbortGuard e → (machine.goingOn r').Reachable r'' →
      r''.Lost) ∧
    (∀ ρ : machine.Course, Fair ρ →
      ρ.LeadsTo (fun r => r.Waits ∧ r.device.gui = .abortWait true)
        (fun r => r.device.reader = .idle)) ∧
    (r.device.reader ≠ .idle →
      (∃ e r', Reads e ∧ r.next e = some r') ∨ ∃ r', r.next .gui = some r') := by
  refine ⟨fun h => (awaited_of_runUnder h).consumed, fun e r' r'' hnext hguard hreach => ?_,
    fun ρ hfair => hfair.returns true, exists_next⟩
  exact hreach.goingOn_invariant (lost_of_not_guard hguard hnext) fun _ _ _ hlost hstep =>
    hlost.next hstep

/-- The reader sleeps when the device is closed, wakes before it is opened again, and the flag stays
    up: a call that begins with the new file open returns without having read. -/
theorem aborted_for_good : ∃ r, machine.Reachable r ∧ r.opened = some [1, 2, 3] ∧
    r.device.reader = .idle ∧ r.device.abort = true ∧
    r.returned = some ⟨.fresh, .nothing, []⟩ ∧ ¬ r.Consumed := by
  have hrun : (Machine.runEvents next start
      [.open .readOnly (some [0]), .gui, .readData 2, .step, .answer false, .step, .step,
        .close, .gui, .gui, .gui, .gui, .step, .open .readOnly (some [1, 2, 3]), .gui,
        .readData 2, .step]).map
        (fun r => (r.opened, r.device.reader, r.device.abort, r.returned)) =
      some (some [1, 2, 3], .idle, true, some ⟨.fresh, .nothing, []⟩) := by
    decide
  obtain ⟨r, hreach, heq⟩ := Machine.Reachable.exists_of_runEvents
    (show machine.Reachable _ from .start rfl) hrun
  simp only [Prod.mk.injEq] at heq
  obtain ⟨hopened, hidle, habort, hreturned⟩ := heq
  refine ⟨r, hreach, hopened, hidle, habort, hreturned, fun hconsumed => ?_⟩
  have hdown := hconsumed.flag (by rw [hopened]; rfl) (.inl hidle)
  rw [habort] at hdown
  cases hdown

end Run

end TorrentIODevice

end PopcornTime.Desktop
