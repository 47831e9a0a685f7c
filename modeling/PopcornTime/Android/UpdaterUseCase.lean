import Mathlib.Logic.Function.Basic
import Mathlib.Tactic.SplitIfs
import PopcornTime.Lib.Machine

namespace PopcornTime.Android

open PopcornTime

/-!
# Android — downloading an update

`UpdaterUseCase.getUpdate` asks the mirrors one after the other.  Every mirror that fails leaves a
`concatMap` around the ones behind it, so an update goes through the step of a new version once more
for each of them.  The download is left to the `DownloadManager`, or read by the app itself where
that refuses it.

* `UpdaterUseCase` — the preference, the files, and how far the check has come.
* `UpdaterUseCase.next` — what the app does between two points at which it may be killed, and the
  answers it gets.
* `UpdaterUseCase.Right`, `UpdaterUseCase.downloadRight_of_guard` — what is meant of the download,
  and the runs that keep it.
-/

/-- An update; a url or a version that is null is the empty text here. -/
structure Update where
  url : String
  version : String
deriving DecidableEq, Repr

/-- What is in a file: a part of an apk, or all of the one of a version. -/
inductive Apk
  | part
  | whole (version : String)
deriving DecidableEq, Repr

/-- A download, with the number of `concatMap`s that its update still goes through. -/
structure UpdateRun where
  update : Update
  outer : ℕ
deriving DecidableEq, Repr

/-- How an emitter was ended. -/
inductive Ending
  | completed
  | errored
deriving DecidableEq, Repr

/-- What follows a `deleteApk`: nothing, the download, or the return of one that is disposed. -/
inductive AfterDelete
  | nothing
  | download (run : UpdateRun)
  | giveUp (run : UpdateRun)
deriving DecidableEq, Repr

/-- Where the check is.  `deleting` and `clearing` are the two statements of `deleteApk`,
    `connecting`, `reading` and `flushing` are in the loop of `downloadURL`, `waiting` in that of
    `downloadManager`, and `returned` is behind `subscribe`. -/
inductive UpdatePhase
  | stopped
  | asking (urls : List String) (outer : ℕ)
  | applying (update : Update) (outer : ℕ)
  | deleting (file : String) (after : AfterDelete)
  | clearing (after : AfterDelete)
  | subscribing (run : UpdateRun)
  | connecting (run : UpdateRun)
  | reading (run : UpdateRun)
  | flushing (run : UpdateRun)
  | waiting (run : UpdateRun)
  | returned (run : UpdateRun) (ending : Option Ending)
deriving DecidableEq, Repr

/-- What the repository emits for a mirror. -/
inductive Answer
  | error
  | empty
  | update (update : Update)

inductive ReadResult
  | data
  | endOfStream
  | error

/-- The statuses that `downloadManager` tells apart; a download that is not found counts as
    failed. -/
inductive DownloadStatus
  | successful
  | failed
  | other

/-- The state; `late` is set by an attempt that begins although the emitter is disposed. -/
structure UpdaterUseCase where
  apkPath : String
  files : String → Option Apk
  disposed : Bool
  late : Bool
  phase : UpdatePhase

namespace UpdaterUseCase

/-- Nothing was ever downloaded. -/
def new : UpdaterUseCase where
  apkPath := ""
  files _ := none
  disposed := false
  late := false
  phase := .stopped

section

variable (dir : String)

/-- `new File(dir, "popcorntime-" + version + ".apk")` -/
def path (version : String) : String :=
  dir ++ "/popcorntime-" ++ version ++ ".apk"

/-- `DownloadManager.Request` throws for any other url. -/
def isHttp (url : String) : Bool :=
  "http:".toList.isPrefixOf url.toList || "https:".toList.isPrefixOf url.toList

def file (run : UpdateRun) : String :=
  path dir run.update.version

/-- `update.setUrl("file://" + file)` -/
def stored (update : Update) : Update :=
  { update with url := "file://" ++ path dir update.version }

/-- An update leaves a `concatMap` for the next one, or for the subscriber. -/
def emit (s : UpdaterUseCase) (update : Update) : ℕ → UpdaterUseCase
  | 0 => { s with phase := .stopped }
  | outer + 1 => { s with phase := .applying update outer }

def getUpdate (s : UpdaterUseCase) (urls : List String) : Option UpdaterUseCase :=
  match s.phase with
  | .stopped =>
    let phase := match urls with
      | [] => .stopped
      | _ :: urls => .asking urls 0
    some { s with disposed := false, late := false, phase := phase }
  | _ => none

/-- `ErrorFunction` asks the mirrors that are left. -/
def reply (s : UpdaterUseCase) (answer : Answer) : Option UpdaterUseCase :=
  match s.phase with
  | .asking urls outer =>
    let phase := match answer, urls with
      | .update update, _ => .applying update outer
      -- a subscription inside the one that has failed
      | .error, _ :: urls => .asking urls (outer + 1)
      | _, _ => .stopped
    some { s with phase := phase }
  | _ => none

/-- The function of `concatMap`, with `currentVersion` and `newVersion` up to what they do to the
    files. -/
def apply (s : UpdaterUseCase) : Option UpdaterUseCase :=
  match s.phase with
  | .applying update outer =>
    if update.url = "" ∨ update.version = "" then
      if s.apkPath ≠ "" then some { s with phase := .deleting s.apkPath .nothing }
      else some { s with phase := .stopped }
    else
      let file := path dir update.version
      -- the file of this version is there already
      if (s.files file).isSome ∧ file = s.apkPath then
        some ({ s with apkPath := file }.emit (stored dir update) outer)
      else some { s with phase := .deleting file (.download ⟨update, outer⟩) }
  | _ => none

/-- `file.delete()` of `deleteApk` -/
def delete (s : UpdaterUseCase) (deleted : Bool) : Option UpdaterUseCase :=
  match s.phase with
  | .deleting file after =>
    let files := if deleted then Function.update s.files file none else s.files
    some { s with files := files, phase := .clearing after }
  | _ => none

/-- `put(UPDATE_APK_PATH, "")` of `deleteApk`; a download is not subscribed to any more where the
    check is disposed. -/
def clear (s : UpdaterUseCase) : Option UpdaterUseCase :=
  match s.phase with
  | .clearing after =>
    let phase := match after with
      | .nothing => .stopped
      | .download run => if s.disposed then .stopped else .subscribing run
      | .giveUp run => .returned run none
    some { s with apkPath := "", phase := phase }
  | _ => none

/-- The loop of `downloadURL` begins, or begins anew. -/
def attempt (s : UpdaterUseCase) (run : UpdateRun) : UpdaterUseCase :=
  { s with late := s.late || s.disposed, phase := .connecting run }

def subscribe (s : UpdaterUseCase) (enqueued : Bool) : Option UpdaterUseCase :=
  match s.phase with
  | .subscribing run =>
    if !isHttp run.update.url then some { s with phase := .returned run (some .errored) }
    else if enqueued then some { s with phase := .waiting run }
    else some (s.attempt run)
  | _ => none

/-- The streams are opened; the file is empty then. -/
def connect (s : UpdaterUseCase) (opened : Bool) : Option UpdaterUseCase :=
  match s.phase with
  | .connecting run =>
    if opened then some { s with
      files := Function.update s.files (file dir run) (some .part)
      phase := .reading run }
    else some (s.attempt run)
  | _ => none

def read (s : UpdaterUseCase) (result : ReadResult) : Option UpdaterUseCase :=
  match s.phase, result with
  -- a failed read is a new attempt, with the file as it is
  | .reading run, .error => some (s.attempt run)
  | .reading run, .data =>
    if s.disposed then some { s with phase := .deleting (file dir run) (.giveUp run) } else some s
  | .reading run, .endOfStream =>
    -- the end of the stream ends the file, also for one that was disposed of
    let s := { s with
      files := Function.update s.files (file dir run) (some (.whole run.update.version)) }
    if s.disposed then some { s with phase := .deleting (file dir run) (.giveUp run) }
    else some { s with phase := .flushing run }
  | _, _ => none

/-- `downloadComplete` -/
def complete (s : UpdaterUseCase) (run : UpdateRun) : UpdaterUseCase :=
  { s with
    apkPath := file dir run
    phase := .returned { run with update := stored dir run.update } (some .completed) }

def flush (s : UpdaterUseCase) (flushed : Bool) : Option UpdaterUseCase :=
  match s.phase with
  | .flushing run => if flushed then some (s.complete dir run) else some (s.attempt run)
  | _ => none

/-- The loop of `downloadManager`: the answer of `query`, which may be null.  A download that was
    removed is not found any more. -/
def query (s : UpdaterUseCase) (status : Option DownloadStatus) : Option UpdaterUseCase :=
  match s.phase with
  | .waiting run =>
    let files := fun content => Function.update s.files (file dir run) content
    match s.disposed, status with
    -- a query that has failed is made again
    | _, none => some s
    | true, some _ => some { s with files := files none, phase := .returned run none }
    | false, some .successful =>
      some ({ s with files := files (some (.whole run.update.version)) }.complete dir run)
    | false, some .failed => some { s with files := files none, phase := .returned run none }
    | false, some .other => some { s with files := files (some .part) }
  | _ => none

/-- What a download has led to reaches the `concatMap` around it. -/
def finish (s : UpdaterUseCase) : Option UpdaterUseCase :=
  match s.phase with
  | .returned run (some .completed) =>
    if s.disposed then some { s with phase := .stopped } else some (s.emit run.update run.outer)
  | .returned _ _ => some { s with phase := .stopped }
  | _ => none

def dispose (s : UpdaterUseCase) : UpdaterUseCase :=
  match s.phase with
  | .asking _ _ => { s with disposed := true, phase := .stopped }
  | _ => { s with disposed := true }

/-- The app is killed; the preference and the files stay. -/
def crash (s : UpdaterUseCase) : UpdaterUseCase :=
  { s with phase := .stopped }

inductive Event
  | getUpdate (urls : List String)
  | reply (answer : Answer)
  | apply
  | delete (deleted : Bool)
  | clear
  | subscribe (enqueued : Bool)
  | connect (opened : Bool)
  | read (result : ReadResult)
  | flush (flushed : Bool)
  | query (status : Option DownloadStatus)
  | finish
  | dispose
  | crash

def next (s : UpdaterUseCase) : Event → Option UpdaterUseCase
  | .getUpdate urls => s.getUpdate urls
  | .reply answer => s.reply answer
  | .apply => s.apply dir
  | .delete deleted => s.delete deleted
  | .clear => s.clear
  | .subscribe enqueued => s.subscribe enqueued
  | .connect opened => s.connect dir opened
  | .read result => s.read dir result
  | .flush flushed => s.flush dir flushed
  | .query status => s.query dir status
  | .finish => s.finish
  | .dispose => some s.dispose
  | .crash => some s.crash

def machine : Machine UpdaterUseCase Event :=
  .ofFun (· = new) (next dir)

/-! ### What is meant -/

/-- A download does not return without having ended its emitter, unless that was disposed; no
    attempt begins behind the disposal; and a stored path is that of an apk that is all there. -/
structure Right (s : UpdaterUseCase) : Prop where
  ends : ∀ run, s.phase = .returned run none → s.disposed = true
  late : s.late = false
  apk : s.apkPath ≠ "" → ∃ version, s.apkPath = path dir version ∧
    s.files s.apkPath = some (.whole version)

/-- No stored apk is deleted, no download fails in the `DownloadManager`, and the app's own download
    has no error, once it is disposed. -/
def Guard (s : UpdaterUseCase) : Event → Prop
  | .delete deleted => deleted = true → ∀ file, s.phase ≠ .deleting file .nothing
  | .query (some .failed) => s.disposed = true
  | .subscribe false => ∀ run, s.phase = .subscribing run → isHttp run.update.url = true →
      s.disposed = false
  | .connect false => s.disposed = false
  | .read .error => s.disposed = false
  | .flush false => s.disposed = false
  | _ => True

/-- What is known where the check is: no path is stored from the download on, the file that is
    flushed is all there, and a stored path is deleted only if there is no new version. -/
def Inv (s : UpdaterUseCase) : Prop :=
  match s.phase with
  | .deleting file .nothing => file = s.apkPath ∧ s.apkPath ≠ ""
  | .deleting file (.download _) => file = s.apkPath → s.files file = none
  | .deleting _ (.giveUp _) => s.apkPath = "" ∧ s.disposed = true
  | .clearing (.giveUp _) => s.disposed = true
  | .subscribing _ => s.apkPath = ""
  | .connecting _ => s.apkPath = ""
  | .reading _ => s.apkPath = ""
  | .waiting _ => s.apkPath = ""
  | .flushing run =>
    s.apkPath = "" ∧ s.files (file dir run) = some (.whole run.update.version)
  | _ => True

end

variable {dir : String} {s s' : UpdaterUseCase} {e : Event}

/-! ### What is known holds in every run -/

/-- Nothing has to be known of an update that goes on to the next `concatMap`. -/
theorem inv_emit (update : Update) (outer : ℕ) : (s.emit update outer).Inv dir := by
  cases outer <;> trivial

/-- Nor of an answer, which the update is applied behind. -/
theorem Inv.reply {answer : Answer} (hstep : s.reply answer = some s') : s'.Inv dir := by
  unfold UpdaterUseCase.reply at hstep
  split at hstep
  next urls outer hphase =>
    obtain rfl := Option.some.inj hstep
    cases answer <;> cases urls <;> trivial
  next => cases hstep

/-- A stored path is deleted where there is no new version; a file that is deleted for a download is
    not a stored apk, or there is none. -/
theorem Inv.apply (hstep : s.apply dir = some s') : s'.Inv dir := by
  unfold UpdaterUseCase.apply at hstep
  split at hstep
  next update outer hphase =>
    dsimp only at hstep
    split_ifs at hstep with hempty hpath hreuse
    · obtain rfl := Option.some.inj hstep
      exact ⟨rfl, hpath⟩
    · obtain rfl := Option.some.inj hstep
      trivial
    · obtain rfl := Option.some.inj hstep
      exact inv_emit _ _
    · obtain rfl := Option.some.inj hstep
      intro hsame
      -- a stored path whose file is there is taken as it is
      by_contra hthere
      exact hreuse ⟨Option.isSome_iff_ne_none.mpr hthere, hsame⟩
  next => cases hstep

/-- The first statement of `deleteApk` leaves the second one to be made. -/
theorem Inv.delete (h : s.Inv dir) {deleted : Bool} (hstep : s.delete deleted = some s') :
    s'.Inv dir := by
  unfold UpdaterUseCase.delete at hstep
  split at hstep
  next file after hphase =>
    obtain rfl := Option.some.inj hstep
    unfold Inv at h
    rw [hphase] at h
    cases after with
    | nothing | download run => trivial
    | giveUp run => exact h.2
  next => cases hstep

/-- Behind the second statement no path is stored. -/
theorem Inv.clear (hstep : s.clear = some s') : s'.Inv dir := by
  unfold UpdaterUseCase.clear at hstep
  split at hstep
  next after hphase =>
    obtain rfl := Option.some.inj hstep
    cases after with
    | nothing | giveUp run => trivial
    | download run =>
      unfold Inv
      dsimp only
      split_ifs <;> trivial
  next => cases hstep

/-- A download that is subscribed to still has no path stored, whichever way it goes. -/
theorem Inv.subscribe (h : s.Inv dir) {enqueued : Bool} (hstep : s.subscribe enqueued = some s') :
    s'.Inv dir := by
  unfold UpdaterUseCase.subscribe at hstep
  split at hstep
  next run hphase =>
    unfold Inv at h
    rw [hphase] at h
    split_ifs at hstep
    · obtain rfl := Option.some.inj hstep
      trivial
    · obtain rfl := Option.some.inj hstep
      exact h
    · obtain rfl := Option.some.inj hstep
      exact h
  next => cases hstep

/-- Nor has an attempt whose streams are opened, or that fails and is made again. -/
theorem Inv.connect (h : s.Inv dir) {opened : Bool} (hstep : s.connect dir opened = some s') :
    s'.Inv dir := by
  unfold UpdaterUseCase.connect at hstep
  split at hstep
  next run hphase =>
    unfold Inv at h
    rw [hphase] at h
    split_ifs at hstep
    · obtain rfl := Option.some.inj hstep
      exact h
    · obtain rfl := Option.some.inj hstep
      exact h
  next => cases hstep

/-- At the end of the stream the file is all there; a disposed download is given up instead. -/
theorem Inv.read (h : s.Inv dir) {result : ReadResult} (hstep : s.read dir result = some s') :
    s'.Inv dir := by
  unfold UpdaterUseCase.read at hstep
  split at hstep
  next run hphase =>
    obtain rfl := Option.some.inj hstep
    unfold Inv at h
    rw [hphase] at h
    exact h
  next run hphase =>
    have hpath : s.apkPath = "" := by
      unfold Inv at h
      rwa [hphase] at h
    split_ifs at hstep with hdisposed
    · obtain rfl := Option.some.inj hstep
      exact ⟨hpath, hdisposed⟩
    · obtain rfl := Option.some.inj hstep
      exact h
  next run hphase =>
    have hpath : s.apkPath = "" := by
      unfold Inv at h
      rwa [hphase] at h
    dsimp only at hstep
    split_ifs at hstep with hdisposed
    · obtain rfl := Option.some.inj hstep
      exact ⟨hpath, hdisposed⟩
    · obtain rfl := Option.some.inj hstep
      -- what was read is written to the run's own file
      exact ⟨hpath, Function.update_self _ _ _⟩
  next => cases hstep

/-- Behind the flush the path is stored; an error leads to another attempt without one. -/
theorem Inv.flush (h : s.Inv dir) {flushed : Bool} (hstep : s.flush dir flushed = some s') :
    s'.Inv dir := by
  unfold UpdaterUseCase.flush at hstep
  split at hstep
  next run hphase =>
    unfold Inv at h
    rw [hphase] at h
    split_ifs at hstep
    · obtain rfl := Option.some.inj hstep
      trivial
    · obtain rfl := Option.some.inj hstep
      exact h.1
  next => cases hstep

/-- The `DownloadManager` is waited for with no path stored. -/
theorem Inv.query (h : s.Inv dir) {status : Option DownloadStatus}
    (hstep : s.query dir status = some s') : s'.Inv dir := by
  unfold UpdaterUseCase.query at hstep
  split at hstep
  next run hphase =>
    have hpath : s.apkPath = "" := by
      unfold Inv at h
      rwa [hphase] at h
    dsimp only at hstep
    split at hstep <;> obtain rfl := Option.some.inj hstep
    · exact h
    · trivial
    · trivial
    · trivial
    · unfold Inv
      dsimp only
      rw [hphase]
      exact hpath
  next => cases hstep

/-- Nothing has to be known behind the return of a download. -/
theorem Inv.finish (hstep : s.finish = some s') : s'.Inv dir := by
  unfold UpdaterUseCase.finish at hstep
  split at hstep
  next run hphase =>
    split_ifs at hstep
    · obtain rfl := Option.some.inj hstep
      trivial
    · obtain rfl := Option.some.inj hstep
      exact inv_emit _ _
  next =>
    obtain rfl := Option.some.inj hstep
    trivial
  next => cases hstep

/-- To be disposed takes nothing away of what is known. -/
theorem Inv.dispose (h : s.Inv dir) : s.dispose.Inv dir := by
  obtain ⟨apkPath, files, disposed, late, phase⟩ := s
  cases phase with
  | deleting file after =>
    cases after with
    | nothing | download run => exact h
    | giveUp run => exact ⟨h.1, rfl⟩
  | clearing after =>
    cases after with
    | nothing | download run => trivial
    | giveUp run => exact rfl
  | stopped | asking | applying | returned => trivial
  | subscribing | connecting | reading | flushing | waiting => exact h

/-- What is known where the check is holds behind every event. -/
theorem inv_next (h : s.Inv dir) (hstep : s.next dir e = some s') : s'.Inv dir := by
  cases e with
  | getUpdate urls =>
    unfold next getUpdate at hstep
    dsimp only at hstep
    split at hstep
    next hphase =>
      obtain rfl := Option.some.inj hstep
      cases urls <;> trivial
    next => cases hstep
  | reply answer => exact Inv.reply hstep
  | apply => exact Inv.apply hstep
  | delete deleted => exact h.delete hstep
  | clear => exact Inv.clear hstep
  | subscribe enqueued => exact h.subscribe hstep
  | connect opened => exact h.connect hstep
  | read result => exact h.read hstep
  | flush flushed => exact h.flush hstep
  | query status => exact h.query hstep
  | finish => exact Inv.finish hstep
  | dispose =>
    obtain rfl := Option.some.inj hstep
    exact h.dispose
  | crash =>
    obtain rfl := Option.some.inj hstep
    trivial

/-- So it holds in every run. -/
theorem inv_of_reachable (h : (machine dir).Reachable s) : s.Inv dir := by
  refine Machine.Reachable.invariant (I := Inv dir) ?_
    (fun s e s' hs hstep => inv_next hs hstep) h
  rintro _ rfl
  trivial

/-! ### What the events keep right -/

/-- A return without an end is the only place that matters. -/
theorem Right.move (h : s.Right dir) {phase : UpdatePhase}
    (hphase : ∀ run, phase ≠ .returned run none) : Right dir { s with phase := phase } :=
  ⟨fun run hrun => absurd hrun (hphase run), h.late, h.apk⟩

/-- While no path is stored the files do not matter. -/
theorem Right.unstored (h : s.Right dir) (hpath : s.apkPath = "") {phase : UpdatePhase}
    (hphase : ∀ run, phase = .returned run none → s.disposed = true)
    (files : String → Option Apk) : Right dir { s with files := files, phase := phase } :=
  ⟨hphase, h.late, fun hstored => absurd hpath hstored⟩

/-- An attempt begins in time exactly if the emitter is not disposed. -/
theorem right_attempt_iff (h : s.Right dir) (run : UpdateRun) :
    (s.attempt run).Right dir ↔ s.disposed = false := by
  have hlate : (s.late || s.disposed) = s.disposed := by rw [h.late, Bool.false_or]
  constructor
  · intro h'
    exact hlate.symm.trans h'.late
  · intro hdisposed
    exact ⟨by simp [attempt], hlate.trans hdisposed, h.apk⟩

/-- A path is stored rightly if the file is all there. -/
theorem Right.complete (h : s.Right dir) {run : UpdateRun}
    (hwhole : s.files (file dir run) = some (.whole run.update.version)) :
    (s.complete dir run).Right dir :=
  ⟨by simp [UpdaterUseCase.complete], h.late, fun _ => ⟨run.update.version, rfl, hwhole⟩⟩

/-- An update goes on to the next `concatMap`, or to the subscriber, and all stays right. -/
theorem Right.emit (h : s.Right dir) (update : Update) (outer : ℕ) :
    (s.emit update outer).Right dir := by
  cases outer <;> exact h.move (by simp)

/-- A deletion is right unless it deletes an apk whose path stays stored: that is the one without a
    new version. -/
theorem right_delete_iff (hinv : s.Inv dir) (h : s.Right dir) {deleted : Bool}
    (hstep : s.delete deleted = some s') : s'.Right dir ↔ s.Guard (.delete deleted) := by
  unfold delete at hstep
  split at hstep
  next file after hphase =>
    obtain rfl := Option.some.inj hstep
    unfold Inv at hinv
    rw [hphase] at hinv
    unfold Guard
    cases deleted with
    | false => exact iff_of_true (h.move (by simp)) (by simp)
    | true =>
      cases after with
      | nothing =>
        -- the path of a file that is gone is stored until it is cleared
        obtain ⟨rfl, hstored⟩ := hinv
        refine iff_of_false (fun h' => ?_) fun hguard => hguard rfl _ hphase
        obtain ⟨version, -, hwhole⟩ := h'.apk hstored
        simp at hwhole
      | download run =>
        refine iff_of_true ⟨by simp, h.late, fun hstored => ?_⟩ (by simp [hphase])
        obtain ⟨version, hpath, hwhole⟩ := h.apk hstored
        refine ⟨version, hpath, ?_⟩
        have hne : s.apkPath ≠ file := by
          intro hsame
          rw [hsame, hinv hsame.symm] at hwhole
          cases hwhole
        exact (Function.update_of_ne hne _ _).trans hwhole
      | giveUp run =>
        exact iff_of_true (h.unstored hinv.1 (by simp) _) (by simp [hphase])
  next => cases hstep

/-- A path that is cleared is not wrong, and a download is given up only when it is disposed. -/
theorem Right.clear (hinv : s.Inv dir) (h : s.Right dir) (hstep : s.clear = some s') :
    s'.Right dir := by
  unfold UpdaterUseCase.clear at hstep
  split at hstep
  next after hphase =>
    obtain rfl := Option.some.inj hstep
    unfold Inv at hinv
    rw [hphase] at hinv
    refine ⟨fun run hrun => ?_, h.late, fun hstored => absurd rfl hstored⟩
    cases after with
    | nothing => cases hrun
    | download run' =>
      dsimp only at hrun
      split_ifs at hrun
    | giveUp run' => exact hinv
  next => cases hstep

/-- The app's own download begins where the `DownloadManager` refuses the url, and it must not be
    disposed then. -/
theorem right_subscribe_iff (h : s.Right dir) {enqueued : Bool}
    (hstep : s.subscribe enqueued = some s') : s'.Right dir ↔ s.Guard (.subscribe enqueued) := by
  unfold subscribe at hstep
  split at hstep
  next run hphase =>
    split_ifs at hstep with hhttp henqueued
    · obtain rfl := Option.some.inj hstep
      refine iff_of_true (h.move (by simp)) ?_
      cases enqueued with
      | true => trivial
      | false =>
        intro run' hrun' hhttp'
        obtain rfl : run = run' := by simpa [hphase] using hrun'
        simp [hhttp'] at hhttp
    · obtain rfl := Option.some.inj hstep
      subst henqueued
      exact iff_of_true (h.move (by simp)) trivial
    · obtain rfl := Option.some.inj hstep
      obtain rfl := Bool.eq_false_iff.mpr henqueued
      rw [right_attempt_iff h]
      simp only [Bool.not_eq_true', Bool.not_eq_false] at hhttp
      simp [Guard, hphase, hhttp]
  next => cases hstep

/-- A step of the download that succeeds and goes on, or fails and makes the next attempt. -/
theorem right_orAttempt_iff (h : s.Right dir) {succeeds : Bool} {run : UpdateRun}
    {after : UpdaterUseCase} (hafter : after.Right dir)
    (hstep : (if succeeds then some after else some (s.attempt run)) = some s') :
    s'.Right dir ↔ (succeeds = false → s.disposed = false) := by
  cases succeeds with
  | true =>
    obtain rfl := Option.some.inj hstep
    exact iff_of_true hafter (by simp)
  | false =>
    obtain rfl := Option.some.inj hstep
    rw [right_attempt_iff h]
    simp

/-- The stream of an attempt is opened: the file is a part from here on, and no path is stored. -/
theorem right_connect_iff (hinv : s.Inv dir) (h : s.Right dir) {opened : Bool}
    (hstep : s.connect dir opened = some s') : s'.Right dir ↔ s.Guard (.connect opened) := by
  unfold connect at hstep
  split at hstep
  next run hphase =>
    unfold Inv at hinv
    rw [hphase] at hinv
    rw [right_orAttempt_iff h (h.unstored hinv (by simp) _) hstep]
    cases opened <;> simp [Guard]
  next => cases hstep

/-- An error makes the next attempt, which is too late if the download is disposed. -/
theorem right_read_iff (hinv : s.Inv dir) (h : s.Right dir) {result : ReadResult}
    (hstep : s.read dir result = some s') : s'.Right dir ↔ s.Guard (.read result) := by
  unfold read at hstep
  split at hstep
  next run hphase =>
    obtain rfl := Option.some.inj hstep
    exact right_attempt_iff h run
  next run hphase =>
    refine iff_of_true ?_ trivial
    split_ifs at hstep
    · obtain rfl := Option.some.inj hstep
      exact h.move (by simp)
    · obtain rfl := Option.some.inj hstep
      exact h
  next run hphase =>
    unfold Inv at hinv
    rw [hphase] at hinv
    refine iff_of_true ?_ trivial
    dsimp only at hstep
    split_ifs at hstep
    · obtain rfl := Option.some.inj hstep
      exact h.unstored hinv (by simp) _
    · obtain rfl := Option.some.inj hstep
      exact h.unstored hinv (by simp) _
  next => cases hstep

/-- The last of the file is written: it is whole, and its path may be stored. -/
theorem right_flush_iff (hinv : s.Inv dir) (h : s.Right dir) {flushed : Bool}
    (hstep : s.flush dir flushed = some s') : s'.Right dir ↔ s.Guard (.flush flushed) := by
  unfold flush at hstep
  split at hstep
  next run hphase =>
    unfold Inv at hinv
    rw [hphase] at hinv
    rw [right_orAttempt_iff h (h.complete hinv.2) hstep]
    cases flushed <;> simp [Guard]
  next => cases hstep

/-- A download that fails in the `DownloadManager` returns without an end. -/
theorem right_query_iff (hinv : s.Inv dir) (h : s.Right dir) {status : Option DownloadStatus}
    (hstep : s.query dir status = some s') : s'.Right dir ↔ s.Guard (.query status) := by
  unfold query at hstep
  split at hstep
  next run hphase =>
    have hpath : s.apkPath = "" := by
      unfold Inv at hinv
      rwa [hphase] at hinv
    dsimp only at hstep
    split at hstep <;> obtain rfl := Option.some.inj hstep
    next => exact iff_of_true h trivial
    next status hdisposed =>
      refine iff_of_true (h.unstored hpath (fun _ _ => hdisposed) _) ?_
      cases status with
      | failed => exact hdisposed
      | successful | other => trivial
    next hdisposed =>
      have hfiles : Right dir { s with
          files := Function.update s.files (file dir run) (some (.whole run.update.version)) } :=
        h.unstored hpath (by simp [hphase]) _
      exact iff_of_true (hfiles.complete (Function.update_self _ _ _)) trivial
    next hdisposed =>
      -- the loop returns and leaves the emitter open
      exact ⟨fun h' => h'.ends run rfl, fun hguard => absurd (hdisposed.symm.trans hguard) (by simp)⟩
    next hdisposed =>
      exact iff_of_true (h.unstored hpath (by simp [hphase]) _) trivial
  next => cases hstep

/-- The events that only move the check on. -/
theorem Right.apply (h : s.Right dir) (hstep : s.apply dir = some s') : s'.Right dir := by
  unfold UpdaterUseCase.apply at hstep
  split at hstep
  next update outer hphase =>
    dsimp only at hstep
    split_ifs at hstep with hempty hpath hreuse
    · obtain rfl := Option.some.inj hstep
      exact h.move (by simp)
    · obtain rfl := Option.some.inj hstep
      exact h.move (by simp)
    · obtain rfl := Option.some.inj hstep
      rw [hreuse.2]
      exact h.emit _ _
    · obtain rfl := Option.some.inj hstep
      exact h.move (by simp)
  next => cases hstep

/-- What a download has led to goes on, and all stays right. -/
theorem Right.finish (h : s.Right dir) (hstep : s.finish = some s') : s'.Right dir := by
  unfold UpdaterUseCase.finish at hstep
  split at hstep
  next run hphase =>
    split_ifs at hstep
    · obtain rfl := Option.some.inj hstep
      exact h.move (by simp)
    · obtain rfl := Option.some.inj hstep
      exact h.emit _ _
  next =>
    obtain rfl := Option.some.inj hstep
    exact h.move (by simp)
  next => cases hstep

/-- Disposing stores no path and begins no attempt. -/
theorem Right.dispose (h : s.Right dir) : s.dispose.Right dir := by
  unfold UpdaterUseCase.dispose
  split
  · exact ⟨fun _ _ => rfl, h.late, h.apk⟩
  · exact ⟨fun _ _ => rfl, h.late, h.apk⟩

/-- **Each event keeps all right exactly if it meets the guard.** -/
theorem right_iff (hinv : s.Inv dir) (h : s.Right dir) (hstep : s.next dir e = some s') :
    s'.Right dir ↔ s.Guard e := by
  cases e with
  | getUpdate urls =>
    refine iff_of_true ?_ trivial
    unfold next getUpdate at hstep
    dsimp only at hstep
    split at hstep
    next hphase =>
      obtain rfl := Option.some.inj hstep
      refine ⟨fun run hrun => ?_, rfl, h.apk⟩
      cases urls <;> cases hrun
    next => cases hstep
  | reply answer =>
    refine iff_of_true ?_ trivial
    unfold next reply at hstep
    dsimp only at hstep
    split at hstep
    next urls outer hphase =>
      obtain rfl := Option.some.inj hstep
      refine h.move fun run hrun => ?_
      cases answer <;> cases urls <;> cases hrun
    next => cases hstep
  | apply => exact iff_of_true (h.apply hstep) trivial
  | delete deleted => exact right_delete_iff hinv h hstep
  | clear => exact iff_of_true (h.clear hinv hstep) trivial
  | subscribe enqueued => exact right_subscribe_iff h hstep
  | connect opened => exact right_connect_iff hinv h hstep
  | read result => exact right_read_iff hinv h hstep
  | flush flushed => exact right_flush_iff hinv h hstep
  | query status => exact right_query_iff hinv h hstep
  | finish => exact iff_of_true (h.finish hstep) trivial
  | dispose =>
    obtain rfl := Option.some.inj hstep
    exact iff_of_true h.dispose trivial
  | crash =>
    obtain rfl := Option.some.inj hstep
    exact iff_of_true (h.move (by simp)) trivial

/-- Where nothing was ever downloaded all is right, and each step decides. -/
theorem guard_exact (dir : String) :
    (machine dir).ExactGuard (fun _ => True) Guard (Right dir) where
  init_iff := by
    rintro _ rfl
    exact iff_of_true ⟨by simp [new], rfl, fun hstored => absurd rfl hstored⟩ trivial
  step_iff _ _ _ hreach h hstep := right_iff (inv_of_reachable hreach) h hstep

/-- **The download of an update.**  In every run whose steps meet the guard all is right in every
    state, and from such a state of any run a step that does not meet it leads to one where it is
    not. -/
theorem downloadRight_of_guard (dir : String) (s : UpdaterUseCase) :
    ((machine dir).RunUnder (fun _ => True) Guard s → s.Right dir) ∧
      (machine dir).ExactGuard (fun _ => True) Guard (Right dir) :=
  ⟨(guard_exact dir).runUnder, guard_exact dir⟩

/-- The `DownloadManager` fails, and the subscriber hears nothing of it. -/
theorem failed_download_never_ends :
    ∃ s run, (machine "/files").Reachable s ∧ s.phase = .returned run none ∧
      s.disposed = false := by
  let update : Update := ⟨"http://a/b.apk", "1"⟩
  have hrun : (Machine.runEvents (next "/files") new
      [.getUpdate ["http://m/"], .reply (.update update), .apply, .delete true, .clear,
        .subscribe true, .query (some .failed)]).map (fun s => (s.phase, s.disposed)) =
      some (.returned ⟨update, 0⟩ none, false) := by
    decide +kernel
  have hstart : (machine "/files").Reachable new := .start rfl
  obtain ⟨s, hs, hphase⟩ := Machine.Reachable.exists_of_runEvents hstart hrun
  exact ⟨s, ⟨update, 0⟩, hs, congrArg Prod.fst hphase, congrArg Prod.snd hphase⟩

end UpdaterUseCase

end PopcornTime.Android
