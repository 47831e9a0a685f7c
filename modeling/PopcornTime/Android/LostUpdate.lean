import PopcornTime.Lib.Machine
import PopcornTime.Android.DownloadsClient

namespace PopcornTime.Android

open PopcornTime Downloads

/-!
# Android downloads — writers of one row

The list, the client and the add threads hold `DownloadInfo` objects they have read from the
table, and write them back whole; the alert loop writes the resume data of the rows with a hash.
`Writers` has the table and the objects, and for every row two ghosts: the resume data the alert
loop saved last and the state an operation set last.

* `Writers.UpToDate` — every row has both.
* `Writers.Fresh` — what an object must have in common with its row when it is written back.
* `Writers.upToDate_of_guard` — the rows stay up to date as long as no stale object is written,
  and each write of a stale one loses something.
-/

/-- The table and those who write it.  `lastSaved` and `lastSet` are ghosts: no step reads
    them. -/
structure Writers where
  table : DownloadsTable
  objects : ℕ → Option DownloadInfo
  lastSaved : ℤ → Option (List UInt8)
  lastSet : ℤ → ℤ

inductive WriterEvent
  /-- `Downloads.populate` of an object from a row. -/
  | read (object : ℕ) (id : ℤ)
  /-- A user operation, or the end of an add thread. -/
  | perform (object : ℕ) (op : Operation)
  /-- A `save_resume_data_alert`. -/
  | save (hash : String) (resumeData : List UInt8)

namespace Writers

/-- No object has been read yet; the rows are what was saved and set last. -/
def start (t : DownloadsTable) : Writers where
  table := t
  objects := fun _ => none
  lastSaved := fun id => (t.find id).bind DownloadRow.resumeData
  lastSet := fun id => ((t.find id).map DownloadRow.state).getD 0

/-- `Downloads.update(context, info)` by an operation. -/
def write (s : Writers) (op : Operation) (info : DownloadInfo) : Writers :=
  { s with
    table := s.table.update info
    lastSet := if op.SetsState then Function.update s.lastSet info.id info.state else s.lastSet }

def next (s : Writers) : WriterEvent → Option Writers
  | .read object id => (s.table.find id).map fun r =>
      { s with objects := Function.update s.objects object (some (populate r)) }
  | .perform object op => (s.objects object).map fun info =>
      let s' := { s with objects := Function.update s.objects object (some (op.run info).1) }
      if (op.run info).2 then s'.write op (op.run info).1 else s'
  | .save hash resumeData => some
      { s with
        -- the alert listener writes the column alone, past every object
        table := s.table.updateResumeData hash resumeData
        lastSaved := fun id =>
          if (s.table.find id).any (DownloadRow.hasHash hash) then some resumeData
          else s.lastSaved id }

/-- The writers of a table in any interleaving. -/
def machine (t : DownloadsTable) : Machine Writers WriterEvent :=
  Machine.ofFun (fun s => s = start t) next

/-- Every row has the resume data saved last and the state set last. -/
def UpToDate (s : Writers) : Prop :=
  ∀ r ∈ s.table.rows, r.resumeData = s.lastSaved r.id ∧ r.state = s.lastSet r.id

/-- What an object has in common with its row: the resume data, and the state where the
    operation does not set it. -/
def Fresh (s : Writers) (op : Operation) (info : DownloadInfo) : Prop :=
  ∀ r ∈ s.table.rows, r.id = info.id →
    info.resumeData = r.resumeData ∧ (op.SetsState = true ∨ info.state = r.state)

/-- No object that differs from its row is written back. -/
def Guard (s : Writers) : WriterEvent → Prop
  | .perform object op => ∀ info, s.objects object = some info → (op.run info).2 = true →
      s.Fresh op info
  | _ => True

/-! ### One step -/

theorem upToDate_start (t : DownloadsTable) : (start t).UpToDate := by
  intro r hr
  have hfind : t.find r.id = some r := DownloadsTable.find_eq_some.mpr ⟨hr, rfl⟩
  constructor <;> simp [start, hfind]

/-- A save keeps the rows up to date. -/
theorem upToDate_save {s s' : Writers} {hash : String} {resumeData : List UInt8}
    (h : s.UpToDate) (hstep : s.next (.save hash resumeData) = some s') : s'.UpToDate := by
  simp only [next, Option.some.injEq] at hstep
  subst hstep
  unfold UpToDate
  rw [DownloadsTable.updateResumeData_rows, List.forall_mem_map]
  intro r hr
  have hfind : s.table.find r.id = some r := DownloadsTable.find_eq_some.mpr ⟨hr, rfl⟩
  obtain ⟨hsaved, hset⟩ := h r hr
  by_cases hhash : r.hasHash hash
  · simp [hhash, hfind, hset]
  · simp [hhash, hfind, hset, hsaved]

/-- One row after an object has been written: a row with another id is as it was, and the
    object's own row is up to date exactly if the object was fresh. -/
theorem write_row_iff {s : Writers} {op : Operation} {info : DownloadInfo} {r r' : DownloadRow}
    (hr' : r' = if r.id = (op.run info).1.id then r.put (op.run info).1 else r)
    (h : r.resumeData = s.lastSaved r.id ∧ r.state = s.lastSet r.id) :
    (r'.resumeData = (s.write op (op.run info).1).lastSaved r'.id ∧
      r'.state = (s.write op (op.run info).1).lastSet r'.id) ↔
    (r.id = info.id → info.resumeData = r.resumeData ∧
      (op.SetsState = true ∨ info.state = r.state)) := by
  obtain ⟨hsaved, hset⟩ := h
  rw [Operation.run_id] at hr'
  by_cases hid : r.id = info.id
  · have hdata : (op.run info).1.resumeData = info.resumeData := op.run_resumeData info
    rw [if_pos hid] at hr'
    subst hr'
    rw [hid] at hsaved hset
    by_cases hop : op.SetsState = true
    · simp [write, hid, hop, hdata, Operation.run_id, hsaved]
    · rw [Bool.not_eq_true] at hop
      have hstate : (op.run info).1.state = info.state := Operation.run_state hop info
      simp [write, hid, hop, hdata, hstate, hsaved, hset]
  · rw [if_neg hid] at hr'
    subst hr'
    by_cases hop : op.SetsState = true <;>
      simp [write, hid, hop, Operation.run_id, hsaved, hset]

/-- The write of an object keeps the rows up to date exactly if the object is fresh. -/
theorem upToDate_write_iff {s : Writers} {op : Operation} {info : DownloadInfo}
    (h : s.UpToDate) : (s.write op (op.run info).1).UpToDate ↔ s.Fresh op info := by
  have hrows : (s.write op (op.run info).1).table.rows = s.table.rows.map fun r =>
      if r.id = (op.run info).1.id then r.put (op.run info).1 else r :=
    DownloadsTable.update_rows _ _
  unfold UpToDate Fresh
  rw [hrows, List.forall_mem_map]
  exact forall₂_congr fun r hr => write_row_iff rfl (h r hr)

/-- An object that was read just now is fresh for every operation. -/
theorem guard_of_read {s s' : Writers} {object : ℕ} {id : ℤ}
    (hstep : s.next (.read object id) = some s') (op : Operation) :
    s'.Guard (.perform object op) := by
  simp only [next, Option.map_eq_some_iff] at hstep
  obtain ⟨r, hfind, rfl⟩ := hstep
  intro info hinfo _ r' hr' hid
  have hpopulated : populate r = info := by simpa using hinfo
  subst hpopulated
  have hrow : s.table.find r'.id = some r' := DownloadsTable.find_eq_some.mpr ⟨hr', rfl⟩
  have heq : r.id = id := (DownloadsTable.find_eq_some.mp hfind).2
  have hsame : r' = r := by
    change r'.id = r.id at hid
    rw [hid, heq, hfind, Option.some.injEq] at hrow
    exact hrow.symm
  subst hsame
  exact ⟨rfl, .inr rfl⟩

/-! ### Every interleaving -/

/-- **The guard says exactly which steps lose nothing.** -/
theorem guard_exact (t : DownloadsTable) :
    (machine t).ExactGuard (fun _ => True) Guard UpToDate where
  init_iff := by
    rintro s rfl
    exact iff_true_intro (upToDate_start t)
  step_iff := by
    intro s e s' _ h hstep
    change s.next e = some s' at hstep
    cases e with
    | read object id =>
      simp only [next, Option.map_eq_some_iff] at hstep
      obtain ⟨r, -, rfl⟩ := hstep
      exact iff_of_true h trivial
    | save hash resumeData => exact iff_of_true (upToDate_save h hstep) trivial
    | perform object op =>
      simp only [next, Option.map_eq_some_iff] at hstep
      obtain ⟨info, hinfo, rfl⟩ := hstep
      by_cases hwritten : (op.run info).2 = true
      · -- the objects do not enter into it
        rw [if_pos hwritten]
        refine (upToDate_write_iff h).trans ?_
        constructor
        · intro hfresh info' hinfo' _
          rw [hinfo, Option.some.injEq] at hinfo'
          exact hinfo' ▸ hfresh
        · intro hguard
          exact hguard info hinfo hwritten
      · rw [if_neg hwritten]
        refine iff_of_true h ?_
        intro info' hinfo' hwritten'
        rw [hinfo, Option.some.injEq] at hinfo'
        exact absurd (hinfo' ▸ hwritten') hwritten

/-- **No update is lost as long as no stale object is written back.**  In every interleaving
    whose writes are of fresh objects the rows are up to date after every step, and a step from
    an up-to-date state keeps them so exactly if it meets the guard. -/
theorem upToDate_of_guard (t : DownloadsTable) :
    (∀ s, (machine t).RunUnder (fun _ => True) Guard s → s.UpToDate) ∧
    (machine t).ExactGuard (fun _ => True) Guard UpToDate :=
  ⟨fun _ => (guard_exact t).runUnder, guard_exact t⟩

/-- One download with a hash, in state `DOWNLOADING`. -/
def oneDownload : DownloadsTable :=
  ⟨[.ofInfo 1 { directory := "/d", state := TorrentState.DOWNLOADING, torrentHash := some "ab" }],
    List.pairwise_singleton _ _⟩

/-- The list shows the row, the alert loop saves, the user pauses: the saved data is gone. -/
theorem pause_loses_resumeData : ∃ s, (machine oneDownload).Reachable s ∧ ¬s.UpToDate := by
  have hrun : (Machine.runEvents next (start oneDownload)
      [.read 0 1, .save "AB" [1], .perform 0 .pause]).map
        (fun s => (s.table.rows.map (fun r => (r.id, r.resumeData)), s.lastSaved 1))
      = some ([(1, none)], some [1]) := by
    decide +kernel
  obtain ⟨s, hreach, heq⟩ := Machine.Reachable.exists_of_runEvents
    (show (machine oneDownload).Reachable _ from .start rfl) hrun
  simp only [Prod.mk.injEq] at heq
  refine ⟨s, hreach, fun h => ?_⟩
  have hmem : ((1 : ℤ), (none : Option (List UInt8)))
      ∈ s.table.rows.map (fun r => (r.id, r.resumeData)) := by
    rw [heq.1]
    exact List.mem_singleton_self _
  obtain ⟨r, hr, hrow⟩ := List.mem_map.mp hmem
  simp only [Prod.mk.injEq] at hrow
  have hdata := (h r hr).1
  rw [hrow.1, hrow.2, heq.2] at hdata
  simp at hdata

end Writers

end PopcornTime.Android
