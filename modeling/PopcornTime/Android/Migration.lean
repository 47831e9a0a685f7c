import Mathlib.Data.List.Forall2
import PopcornTime.Android.DBHelper

namespace PopcornTime.Android

open PopcornTime Sqlite

/-!
# Android database — migrations

`dropColumn` rebuilds `downloads` with today's `createTableQuery`, and so does the creation of
the table in the routes from the first version.  Every later `ADD COLUMN` of such a route meets a
column that is there already.

* `DBHelper.schema` — the tables and columns of a version.
* `DBHelper.MigrationRight` — a migration completes, ends with the tables of `onCreate`, keeps
  every row and does not depend on the route.
* `DBHelper.migrationRight_iff` — it is right from the versions `1005` and `1006` only, whatever
  the database contains.
-/

namespace DBHelper

/-! ### Old versions -/

/-- The version whose upgrade methods add a column of `downloads`. -/
def addedIn : Column → ℕ
  | .torrentMagnet => VERSION_3
  | .season | .episode => VERSION_5
  | .torrentHash => VERSION_6
  | .resumeData | .readyToWatch => VERSION_7
  | _ => VERSION_2

/-- The columns of `downloads` in a version: today's without those added later, and two more up
    to `1004`. -/
def downloadsSchema (version : ℕ) : List ColumnDef :=
  Downloads.createTableQuery.filter (fun c => decide (addedIn c.1 ≤ version)) ++
    if version ≤ VERSION_4 then [(.summary, .text), (.subtitlesDataUrl, .text)] else []

/-- The tables of a version and their columns. -/
def schema (version : ℕ) : TableName → Option (List ColumnDef)
  | .favorites => some Favorites.createTableQuery
  | .downloads => if VERSION_2 ≤ version then some (downloadsSchema version) else none
  | .history => if VERSION_7 ≤ version then some History.createTableQuery else none
  | .downloadsOld => none

/-- A database of a version, with any rows. -/
def HasSchema (db : PopcornDb) (version : ℕ) : Prop :=
  ∀ name, (db name).map Table.columns = schema version name

/-! ### What a migration should do -/

/-- The tables and columns are those `onCreate` makes. -/
def SchemaCurrent (db : PopcornDb) : Prop :=
  ∃ fresh, onCreate (fun _ => none) = .ok fresh ∧
    ∀ name, (db name).map Table.columns = (fresh name).map Table.columns

/-- The documented rewrites of a column of a row: the type, the state `8`, and season and episode
    from the summary. -/
def Rewritten (c : Column) (old : Row Column) (v : Value) : Prop :=
  (c = .type ∧ old .type = .text "list" ∧ v = .text Cinema.TYPE_MOVIES) ∨
  (c = .type ∧ old .type = .text "shows" ∧ v = .text Cinema.TYPE_TV_SHOWS) ∨
  (c = .state ∧ old .state = .integer 8 ∧ v = .integer TorrentState.PAUSED) ∨
  (∃ summary season episode n, old .summary = .text summary ∧
    findSummary summary.toList = some (season, episode) ∧ v = .integer n ∧
    ((c = .season ∧ parseInt season = .ok n) ∨ (c = .episode ∧ parseInt episode = .ok n)))

/-- Every one of the columns has its old value or a documented new one. -/
def RowKept (columns : List Column) (old new : Row Column) : Prop :=
  ∀ c ∈ columns, new c = old c ∨ Rewritten c old (new c)

/-- A table keeps its rows, in the columns it keeps. -/
def TableKept (db db' : PopcornDb) (name : TableName) : Prop :=
  ∀ t, db name = some t → ∃ t', db' name = some t' ∧
    List.Forall₂ (RowKept (t.columnNames.filter (fun c => decide (c ∈ t'.columnNames))))
      t.rows t'.rows

/-- The migration of a database to the current version. -/
def MigrationRight (db : PopcornDb) (version : ℕ) : Prop :=
  ∃ db', onUpgrade db version CURRENT_VERSION = .ok db' ∧ SchemaCurrent db' ∧
    TableKept db db' .favorites ∧ TableKept db db' .downloads ∧
    ∀ k, version < k → k < CURRENT_VERSION →
      (onUpgrade db version k >>= fun d => onUpgrade d k CURRENT_VERSION) = .ok db'

/-! ### Statements that throw -/

/-- A statement that has not thrown hands on its result. -/
theorem except_bind_eq_ok {ε α β : Type} {x : Except ε α} {f : α → Except ε β} {b : β} :
    (x >>= f) = .ok b ↔ ∃ a, x = .ok a ∧ f a = .ok b := by
  cases x with
  | error e => simp [bind, Except.bind]
  | ok a => simp [bind, Except.bind]

/-- The exceptions of SQLite are those of the upgrade. -/
theorem execSQL_eq_ok {r : Except SqlError PopcornDb} {db : PopcornDb} :
    execSQL r = .ok db ↔ r = .ok db := by
  cases r <;> simp [execSQL, Except.mapError]

/-- A route is its first statement and the rest of it. -/
theorem run_cons (step : UpgradeStep) (steps : List UpgradeStep) (db : PopcornDb) :
    run (step :: steps) db = step db >>= run steps := rfl

/-- The rest runs on what the first statement leaves. -/
theorem run_cons_of_ok {step : UpgradeStep} {db d : PopcornDb} (h : step db = .ok d)
    (steps : List UpgradeStep) : run (step :: steps) db = run steps d := by
  rw [run_cons, h]
  rfl

/-- A route throws on every database. -/
def Throws (steps : List UpgradeStep) : Prop :=
  ∀ db db', run steps db ≠ .ok db'

/-- A route that throws does so behind any statement. -/
theorem Throws.cons {steps : List UpgradeStep} (h : Throws steps) (step : UpgradeStep) :
    Throws (step :: steps) := by
  intro db db' hrun
  rw [run_cons, except_bind_eq_ok] at hrun
  obtain ⟨d, -, hd⟩ := hrun
  exact h d db' hd

/-- A statement after which `downloads` has today's columns. -/
def Rebuilds (step : UpgradeStep) : Prop :=
  ∀ db db', step db = .ok db' →
    ∃ t, db' .downloads = some t ∧ t.columns = Downloads.createTableQuery

/-- The creation of `downloads` gives it today's columns. -/
theorem createDownloads_rebuilds : Rebuilds createDownloads := by
  intro db db' h
  rw [createDownloads, execSQL_eq_ok] at h
  exact ⟨_, Database.createTable_of_ok h, rfl⟩

/-- `dropColumn` gives `downloads` the columns it is told. -/
theorem dropColumn_columns {db db' : PopcornDb} {query : List ColumnDef} {drop : List Column}
    (h : dropColumn db query drop = .ok db') :
    ∃ t, db' .downloads = some t ∧ t.columns = query := by
  unfold dropColumn at h
  cases hd : db .downloads with
  | none => simp [hd] at h
  | some t =>
    simp only [hd, except_bind_eq_ok, execSQL_eq_ok] at h
    obtain ⟨d₁, -, d₂, hcreate, d₃, hinsert, hdrop⟩ := h
    obtain ⟨t', ht', hq⟩ :=
      Database.columns_of_insertSelect hinsert (Database.createTable_of_ok hcreate)
    exact ⟨t', (Database.dropTable_of_ne hdrop (by simp)).trans ht', hq⟩

/-- So does the statement that adds season and episode: it drops columns at its end. -/
theorem addSeasonAndEpisode_rebuilds : Rebuilds addSeasonAndEpisodeColumnsToDownloads := by
  intro db db' h
  unfold addSeasonAndEpisodeColumnsToDownloads at h
  simp only [except_bind_eq_ok] at h
  obtain ⟨d₁, -, d₂, -, h⟩ := h
  cases hd : d₂ .downloads with
  | none => simp [hd] at h
  | some t =>
    simp only [hd] at h
    split_ifs at h
    rw [except_bind_eq_ok] at h
    obtain ⟨d₃, -, h⟩ := h
    exact dropColumn_columns h

/-- A statement that leaves the columns of `downloads` alone. -/
def KeepsColumns (step : UpgradeStep) : Prop :=
  ∀ db db' t, db .downloads = some t → step db = .ok db' →
    ∃ t', db' .downloads = some t' ∧ t'.columns = t.columns

/-- An `UPDATE` leaves the columns. -/
theorem update_keepsColumns (name : TableName) (p : Row Column → Bool)
    (values : List (Column × Value)) :
    KeepsColumns (fun db => execSQL (db.update name p values)) := by
  intro db db' t ht h
  rw [execSQL_eq_ok] at h
  exact Database.columns_of_update h ht

/-- Two statements that leave the columns are one that does. -/
theorem KeepsColumns.bind {step : UpgradeStep} (h : KeepsColumns step) {next : UpgradeStep}
    (hnext : KeepsColumns next) : KeepsColumns (fun db => step db >>= next) := by
  intro db db' t ht hrun
  rw [except_bind_eq_ok] at hrun
  obtain ⟨d, hd, hrun⟩ := hrun
  obtain ⟨t₁, ht₁, hc₁⟩ := h db d t ht hd
  obtain ⟨t₂, ht₂, hc₂⟩ := hnext d db' t₁ ht₁ hrun
  exact ⟨t₂, ht₂, hc₂.trans hc₁⟩

/-- The new types of the videos are two updates. -/
theorem updateCinemaTypeColumn_keepsColumns : KeepsColumns updateCinemaTypeColumn :=
  (update_keepsColumns _ _ _).bind ((update_keepsColumns _ _ _).bind
    ((update_keepsColumns _ _ _).bind ((update_keepsColumns _ _ _).bind
      (update_keepsColumns _ _ _))))

/-- The creation of `history` is one of another table. -/
theorem createHistory_keepsColumns : KeepsColumns createHistory := by
  intro db db' t ht h
  rw [createHistory, execSQL_eq_ok] at h
  unfold Database.createTable at h
  split at h
  · simp at h
  · simp only [Except.ok.injEq] at h
    exact ⟨t, by rw [← h, Function.update_of_ne (by simp), ht], rfl⟩

/-- A route throws where `downloads` has today's columns already. -/
def FailsOnCurrent (steps : List UpgradeStep) : Prop :=
  ∀ db t, db .downloads = some t → t.columns = Downloads.createTableQuery →
    ∀ db', run steps db ≠ .ok db'

/-- What fails on today's columns does so behind a statement that leaves them. -/
theorem FailsOnCurrent.cons {steps : List UpgradeStep} (h : FailsOnCurrent steps)
    {step : UpgradeStep} (hstep : KeepsColumns step) : FailsOnCurrent (step :: steps) := by
  intro db t ht hc db' hrun
  rw [run_cons, except_bind_eq_ok] at hrun
  obtain ⟨d, hd, hrun⟩ := hrun
  obtain ⟨t', ht', hc'⟩ := hstep db d t ht hd
  exact h d t' ht' (hc'.trans hc) db' hrun

/-- Adding one of today's columns is refused. -/
theorem failsOnCurrent_addColumn {column : Column} {type : ColumnType}
    (h : column ∈ Downloads.createTableQuery.map Prod.fst) (steps : List UpgradeStep) :
    FailsOnCurrent ((fun db => execSQL (db.addColumn .downloads column type)) :: steps) := by
  intro db t ht hc db' hrun
  have hmem : column ∈ t.columnNames := by
    rw [Table.columnNames, hc]
    exact h
  rw [run_cons, except_bind_eq_ok] at hrun
  obtain ⟨d, hd, -⟩ := hrun
  rw [execSQL_eq_ok, Database.addColumn_error_of_mem ht hmem] at hd
  simp at hd

/-- What fails on today's columns throws once `downloads` has been rebuilt. -/
theorem Rebuilds.throws {step : UpgradeStep} (hstep : Rebuilds step) {steps : List UpgradeStep}
    (h : FailsOnCurrent steps) : Throws (step :: steps) := by
  intro db db' hrun
  rw [run_cons, except_bind_eq_ok] at hrun
  obtain ⟨d, hd, hrun⟩ := hrun
  obtain ⟨t, ht, hc⟩ := hstep db d hd
  exact h d t ht hc db' hrun

/-- From `1002`, `1003` and `1004` the direct route throws: `downloads` is rebuilt with a hash
    column, and the next statement adds it. -/
theorem throws_of_version_2_to_4 {version : ℕ} (h₀ : VERSION_2 ≤ version)
    (h₁ : version ≤ VERSION_4) : Throws (route version CURRENT_VERSION) := by
  have hrebuilt : ∀ rest, Throws (addSeasonAndEpisodeColumnsToDownloads ::
      addTorrentHashColumnToDownloads :: rest) :=
    fun rest => addSeasonAndEpisode_rebuilds.throws (failsOnCurrent_addColumn (by decide) rest)
  have hcases : version = VERSION_2 ∨ version = VERSION_3 ∨ version = VERSION_4 := by
    unfold VERSION_2 VERSION_3 VERSION_4 at *
    omega
  rcases hcases with rfl | rfl | rfl
  · exact (((hrebuilt _).cons _).cons _).cons _
  · exact ((hrebuilt _).cons _).cons _
  · exact (hrebuilt _).cons _

/-- A route over a version is the two routes one after the other. -/
theorem run_append (steps steps' : List UpgradeStep) (db : PopcornDb) :
    run (steps ++ steps') db = run steps db >>= run steps' := by
  unfold run
  rw [List.foldlM_append]

/-- From `1001` the route over `1006` throws: the new table has the resume data already. -/
theorem throws_over_version_6 : Throws (upgradeVersion_1_to_6 ++ upgradeVersion_6_to_7) := by
  have hadd : FailsOnCurrent [addResumeDataColumnToDownloads, addReadyToWatchColumnToDownloads] :=
    failsOnCurrent_addColumn (by decide) _
  exact createDownloads_rebuilds.throws
    ((hadd.cons createHistory_keepsColumns).cons updateCinemaTypeColumn_keepsColumns)

/-! ### The two versions that migrate -/

/-- The current tables: the favourites there are, a new history and `downloads`. -/
def upgraded (db : PopcornDb) (downloads : Table Column) : PopcornDb
  | .history => some ⟨History.createTableQuery, []⟩
  | .downloads => some downloads
  | name => db name

@[simp] theorem upgraded_downloads (db : PopcornDb) (t : Table Column) :
    upgraded db t .downloads = some t := rfl

@[simp] theorem upgraded_history (db : PopcornDb) (t : Table Column) :
    upgraded db t .history = some ⟨History.createTableQuery, []⟩ := rfl

@[simp] theorem upgraded_favorites (db : PopcornDb) (t : Table Column) :
    upgraded db t .favorites = db .favorites := rfl

@[simp] theorem upgraded_downloadsOld (db : PopcornDb) (t : Table Column) :
    upgraded db t .downloadsOld = db .downloadsOld := rfl

/-- The columns `downloads` gets in version `1007`, in their order. -/
def withVersion7 (t : Table Column) : Table Column :=
  (t.addColumn .resumeData .blob).addColumn .readyToWatch .integer

section AddedColumns

variable {db : PopcornDb} {t : Table Column}

/-- The creation of `history` on a database without one. -/
theorem createHistory_eq (hd : db .downloads = some t) (hh : db .history = none) :
    createHistory db = .ok (upgraded db t) := by
  rw [createHistory, Database.createTable_eq hh, execSQL_eq_ok]
  congr
  ext name : 1
  cases name with
  | favorites => rw [Function.update_of_ne (by simp), upgraded_favorites]
  | downloads => rw [Function.update_of_ne (by simp), upgraded_downloads, hd]
  | downloadsOld => rw [Function.update_of_ne (by simp), upgraded_downloadsOld]
  | history => rw [Function.update_self, upgraded_history]

/-- A statement that adds a column `downloads` has not. -/
theorem execSQL_addColumn (h : db .downloads = some t) {column : Column}
    (hnew : column ∉ t.columnNames) (type : ColumnType) :
    execSQL (db.addColumn .downloads column type)
      = .ok (Function.update db .downloads (some (t.addColumn column type))) := by
  rw [execSQL_eq_ok, Database.addColumn_eq h hnew]

/-- Another `downloads` in the upgraded database, -/
theorem update_upgraded (t' : Table Column) :
    Function.update (upgraded db t) .downloads (some t') = upgraded db t' := by
  ext name : 1
  cases name <;> rfl

/-- and one that the upgrade replaces. -/
theorem upgraded_update (t' : Table Column) :
    upgraded (Function.update db .downloads (some t')) t = upgraded db t := by
  ext name : 1
  cases name <;> rfl

/-- A column that is added to the upgraded database. -/
theorem addColumn_upgraded {column : Column} (hnew : column ∉ t.columnNames)
    (type : ColumnType) :
    execSQL ((upgraded db t).addColumn .downloads column type)
      = .ok (upgraded db (t.addColumn column type)) := by
  rw [execSQL_addColumn (upgraded_downloads db t) hnew, update_upgraded]

/-- The last two columns of a database that has its history. -/
theorem addVersion7_eq (h₁ : .resumeData ∉ t.columnNames) (h₂ : .readyToWatch ∉ t.columnNames) :
    run [addResumeDataColumnToDownloads, addReadyToWatchColumnToDownloads] (upgraded db t)
      = .ok (upgraded db (withVersion7 t)) := by
  have hresume : addResumeDataColumnToDownloads (upgraded db t)
      = .ok (upgraded db (t.addColumn .resumeData .blob)) := addColumn_upgraded h₁ _
  have hready : addReadyToWatchColumnToDownloads (upgraded db (t.addColumn .resumeData .blob))
      = .ok (upgraded db (withVersion7 t)) :=
    addColumn_upgraded (by simp [h₂]) _
  rw [run_cons_of_ok hresume, run_cons_of_ok hready]
  rfl

/-- The route from `1006`. -/
theorem upgradeVersion_6_to_7_eq (hd : db .downloads = some t) (hh : db .history = none)
    (h₁ : .resumeData ∉ t.columnNames) (h₂ : .readyToWatch ∉ t.columnNames) :
    run upgradeVersion_6_to_7 db = .ok (upgraded db (withVersion7 t)) := by
  rw [upgradeVersion_6_to_7, run_cons_of_ok (createHistory_eq hd hh), addVersion7_eq h₁ h₂]

/-- The route from `1005`. -/
theorem upgradeVersion_5_to_7_eq (hd : db .downloads = some t) (hh : db .history = none)
    (h₀ : .torrentHash ∉ t.columnNames) (h₁ : .resumeData ∉ t.columnNames)
    (h₂ : .readyToWatch ∉ t.columnNames) :
    run upgradeVersion_5_to_7 db
      = .ok (upgraded db (withVersion7 (t.addColumn .torrentHash .text))) := by
  have hhash : addTorrentHashColumnToDownloads (upgraded db t)
      = .ok (upgraded db (t.addColumn .torrentHash .text)) := addColumn_upgraded h₀ _
  rw [upgradeVersion_5_to_7, run_cons_of_ok (createHistory_eq hd hh), run_cons_of_ok hhash,
    addVersion7_eq (by simp [h₁]) (by simp [h₂])]

/-- The route from `1005` with a stop at `1006`. -/
theorem upgradeVersion_5_to_6_to_7_eq (hd : db .downloads = some t) (hh : db .history = none)
    (h₀ : .torrentHash ∉ t.columnNames) (h₁ : .resumeData ∉ t.columnNames)
    (h₂ : .readyToWatch ∉ t.columnNames) :
    run (upgradeVersion_5_to_6 ++ upgradeVersion_6_to_7) db
      = .ok (upgraded db (withVersion7 (t.addColumn .torrentHash .text))) := by
  have hhash : addTorrentHashColumnToDownloads db
      = .ok (Function.update db .downloads (some (t.addColumn .torrentHash .text))) :=
    execSQL_addColumn hd h₀ _
  rw [upgradeVersion_5_to_6, List.cons_append, run_cons_of_ok hhash, List.nil_append,
    upgradeVersion_6_to_7_eq (Function.update_self _ _ _)
    (by rw [Function.update_of_ne (by simp), hh]) (by simp [h₁]) (by simp [h₂]), upgraded_update]

end AddedColumns

/-! ### What the two keep -/

/-- The tables of `onCreate`. -/
theorem onCreate_eq : onCreate (fun _ => none) = .ok
    (Function.update (Function.update (Function.update (fun _ => none)
      .favorites (some ⟨Favorites.createTableQuery, []⟩))
      .downloads (some ⟨Downloads.createTableQuery, []⟩))
      .history (some ⟨History.createTableQuery, []⟩)) := rfl

/-- The tables are the current ones if the favourites are and `downloads` is. -/
theorem schemaCurrent_upgraded {db : PopcornDb} {t : Table Column}
    (hfav : (db .favorites).map Table.columns = some Favorites.createTableQuery)
    (hold : db .downloadsOld = none) (ht : t.columns = Downloads.createTableQuery) :
    SchemaCurrent (upgraded db t) := by
  refine ⟨_, onCreate_eq, fun name => ?_⟩
  cases name with
  | favorites => rw [upgraded_favorites, hfav]; rfl
  | downloads => rw [upgraded_downloads, Option.map_some, ht]; rfl
  | downloadsOld => rw [upgraded_downloadsOld, hold]; rfl
  | history => rfl

/-- A row that is not touched is kept. -/
theorem RowKept.refl (columns : List Column) (r : Row Column) : RowKept columns r r :=
  fun _ _ => .inl rfl

/-- The favourites are not touched at all. -/
theorem tableKept_favorites (db : PopcornDb) (t : Table Column) :
    TableKept db (upgraded db t) .favorites := by
  intro f hf
  exact ⟨f, hf, List.forall₂_same.mpr fun r _ => RowKept.refl _ r⟩

/-- Rows that only get new columns are kept. -/
theorem tableKept_downloads {db : PopcornDb} {t t' : Table Column} {g : Row Column → Row Column}
    (hd : db .downloads = some t) (hrows : t'.rows = t.rows.map g)
    (hg : ∀ r, ∀ c ∈ t.columnNames, g r c = r c) :
    TableKept db (upgraded db t') .downloads := by
  intro s hs
  rw [hd, Option.some.injEq] at hs
  subst hs
  refine ⟨t', rfl, ?_⟩
  rw [hrows, List.forall₂_map_right_iff, List.forall₂_same]
  intro r _ c hc
  exact .inl (hg r c (List.mem_of_mem_filter hc))

/-- The new columns of version `1007` are not among the old ones. -/
theorem withVersion7_rows {t : Table Column} (h₁ : .resumeData ∉ t.columnNames)
    (h₂ : .readyToWatch ∉ t.columnNames) :
    ∃ g : Row Column → Row Column, (withVersion7 t).rows = t.rows.map g ∧
      ∀ r, ∀ c ∈ t.columnNames, g r c = r c := by
  refine ⟨fun r => Function.update (Function.update r .resumeData .null) .readyToWatch .null,
    by simp [withVersion7], ?_⟩
  intro r c hc
  have hne₁ : c ≠ .resumeData := ne_of_mem_of_not_mem hc h₁
  have hne₂ : c ≠ .readyToWatch := ne_of_mem_of_not_mem hc h₂
  simp only [Function.update_of_ne hne₂, Function.update_of_ne hne₁]

/-- The columns of the three tables of a version, one by one. -/
theorem HasSchema.tables {db : PopcornDb} {version : ℕ} (h : HasSchema db version) :
    (db .favorites).map Table.columns = some Favorites.createTableQuery ∧
    (db .downloads).map Table.columns = schema version .downloads ∧
    (db .history).map Table.columns = schema version .history ∧ db .downloadsOld = none := by
  refine ⟨h .favorites, h .downloads, h .history, ?_⟩
  have hold : (db .downloadsOld).map Table.columns = none := h .downloadsOld
  exact Option.map_eq_none_iff.mp hold

/-- **From version `1006`.** -/
theorem migrationRight_of_version_6 {db : PopcornDb} (h : HasSchema db VERSION_6) :
    MigrationRight db VERSION_6 := by
  obtain ⟨hfav, hdown, hhist, hold⟩ := h.tables
  have hh : db .history = none := Option.map_eq_none_iff.mp hhist
  obtain ⟨t, hd, ht⟩ := Option.map_eq_some_iff.mp (hdown : _ = some (downloadsSchema VERSION_6))
  have hnames : t.columnNames = (downloadsSchema VERSION_6).map Prod.fst := by
    rw [Table.columnNames, ht]
  have h₁ : Column.resumeData ∉ t.columnNames := by rw [hnames]; decide
  have h₂ : Column.readyToWatch ∉ t.columnNames := by rw [hnames]; decide
  have hcols : (withVersion7 t).columns = Downloads.createTableQuery := by
    rw [withVersion7, Table.addColumn_columns, Table.addColumn_columns, ht]
    decide
  obtain ⟨g, hrows, hg⟩ := withVersion7_rows h₁ h₂
  refine ⟨upgraded db (withVersion7 t), upgradeVersion_6_to_7_eq hd hh h₁ h₂,
    schemaCurrent_upgraded hfav hold hcols, tableKept_favorites db _,
    tableKept_downloads hd hrows hg, ?_⟩
  -- no version lies between
  intro k hk₁ hk₂
  unfold VERSION_6 at hk₁
  unfold CURRENT_VERSION VERSION_7 at hk₂
  omega

/-- **From version `1005`.** -/
theorem migrationRight_of_version_5 {db : PopcornDb} (h : HasSchema db VERSION_5) :
    MigrationRight db VERSION_5 := by
  obtain ⟨hfav, hdown, hhist, hold⟩ := h.tables
  have hh : db .history = none := Option.map_eq_none_iff.mp hhist
  obtain ⟨t, hd, ht⟩ := Option.map_eq_some_iff.mp (hdown : _ = some (downloadsSchema VERSION_5))
  have hnames : t.columnNames = (downloadsSchema VERSION_5).map Prod.fst := by
    rw [Table.columnNames, ht]
  have h₀ : Column.torrentHash ∉ t.columnNames := by rw [hnames]; decide
  have h₁ : Column.resumeData ∉ t.columnNames := by rw [hnames]; decide
  have h₂ : Column.readyToWatch ∉ t.columnNames := by rw [hnames]; decide
  have hcols : (withVersion7 (t.addColumn .torrentHash .text)).columns
      = Downloads.createTableQuery := by
    rw [withVersion7, Table.addColumn_columns, Table.addColumn_columns, Table.addColumn_columns,
      ht]
    decide
  obtain ⟨g, hrows, hg⟩ := withVersion7_rows (t := t.addColumn .torrentHash .text)
    (by simp [h₁]) (by simp [h₂])
  refine ⟨upgraded db (withVersion7 (t.addColumn .torrentHash .text)),
    upgradeVersion_5_to_7_eq hd hh h₀ h₁ h₂, schemaCurrent_upgraded hfav hold hcols,
    tableKept_favorites db _,
    tableKept_downloads (g := fun r => g (Function.update r .torrentHash .null)) hd ?_ ?_, ?_⟩
  · rw [hrows, Table.addColumn_rows, List.map_map]
    rfl
  · intro r c hc
    have hne : c ≠ .torrentHash := ne_of_mem_of_not_mem hc h₀
    rw [hg _ c (by simp [hc]), Function.update_of_ne hne]
  · intro k hk₁ hk₂
    -- the only version between is the one the other route passes
    have hk : k = VERSION_6 := by
      unfold VERSION_5 at hk₁
      unfold CURRENT_VERSION VERSION_7 at hk₂
      unfold VERSION_6
      omega
    subst hk
    rw [← upgradeVersion_5_to_6_to_7_eq hd hh h₀ h₁ h₂, run_append]
    rfl

/-! ### The versions that do not -/

/-- A migration that is right does not throw. -/
theorem not_migrationRight_of_throws {db : PopcornDb} {version : ℕ}
    (h : Throws (route version CURRENT_VERSION)) : ¬ MigrationRight db version := by
  rintro ⟨db', hrun, -⟩
  exact h db db' hrun

/-- Version `1001` migrates in one go and not over `1006`. -/
theorem not_migrationRight_of_version_1 (db : PopcornDb) : ¬ MigrationRight db VERSION_1 := by
  rintro ⟨db', -, -, -, -, hroutes⟩
  have hover := hroutes VERSION_6 (by decide) (by decide)
  refine throws_over_version_6 db db' ?_
  rw [run_append]
  exact hover

/-- **Which versions migrate.**  `onUpgrade` does to a database of an old version what it should
    exactly if that version is `1005` or `1006`, whatever the rows. -/
theorem migrationRight_iff {db : PopcornDb} {version : ℕ} (h₁ : VERSION_1 ≤ version)
    (h₂ : version ≤ VERSION_6) (hdb : HasSchema db version) :
    MigrationRight db version ↔ version = VERSION_5 ∨ version = VERSION_6 := by
  constructor
  · intro h
    by_contra hversion
    rw [not_or] at hversion
    by_cases hfirst : version = VERSION_1
    · subst hfirst
      exact not_migrationRight_of_version_1 db h
    · refine not_migrationRight_of_throws (throws_of_version_2_to_4 ?_ ?_) h
      · unfold VERSION_1 at *
        unfold VERSION_2
        omega
      · obtain ⟨h₅, h₆⟩ := hversion
        unfold VERSION_6 at *
        unfold VERSION_5 at h₅
        unfold VERSION_4
        omega
  · -- the two routes that add the missing columns
    rintro (rfl | rfl)
    · exact migrationRight_of_version_5 hdb
    · exact migrationRight_of_version_6 hdb

/-- A database of a version with the given rows. -/
def oldDb (version : ℕ) (rows : TableName → List (Row Column)) : PopcornDb :=
  fun name => (schema version name).map (fun columns => ⟨columns, rows name⟩)

theorem hasSchema_oldDb (version : ℕ) (rows : TableName → List (Row Column)) :
    HasSchema (oldDb version rows) version := by
  intro name
  cases h : schema version name <;> simp [oldDb, h]

/-- A paused download whose other columns are NULL. -/
def pausedDownload : Row Column :=
  Row.put (fun _ => .null) [(.id, .integer 1), (.state, .integer TorrentState.PAUSED)]

/-- A database of version `1005` with one download migrates. -/
theorem migrationRight_iff_oneDownload :
    MigrationRight (oldDb VERSION_5 fun _ => [pausedDownload]) VERSION_5 ↔
      VERSION_5 = VERSION_5 ∨ VERSION_5 = VERSION_6 :=
  migrationRight_iff (by decide) (by decide) (hasSchema_oldDb _ _)

/-- A database of version `1004` does not, even without rows: the hash column is there
    already. -/
theorem migration_from_version_4_throws :
    HasSchema (oldDb VERSION_4 fun _ => []) VERSION_4 ∧
    onUpgrade (oldDb VERSION_4 fun _ => []) VERSION_4 CURRENT_VERSION
      = .error (.sqlite .duplicateColumn) ∧
    ¬ MigrationRight (oldDb VERSION_4 fun _ => []) VERSION_4 := by
  refine ⟨hasSchema_oldDb _ _, by rfl, ?_⟩
  exact not_migrationRight_of_throws (throws_of_version_2_to_4 (by decide) (by decide))

end DBHelper

end PopcornTime.Android
