import PopcornTime.Android.Database

namespace PopcornTime.Android

open PopcornTime Sqlite

/-!
# Android database — `DBHelper`

`onUpgrade` picks one of twenty-one routes, each written out as a list of upgrade steps in the
source's order.  A step is a function of the database that may throw: SQLite refuses a statement,
the summary of a download is NULL, or a number in it does not fit an `int`.
-/

/-- The exceptions a migration can end with. -/
inductive UpgradeError
  | sqlite (e : SqlError)
  | blobAsString
  | nullPointer
  | numberFormat
deriving DecidableEq, Repr

namespace DBHelper

def VERSION_1 : ℕ := 1001
def VERSION_2 : ℕ := 1002
def VERSION_3 : ℕ := 1003
def VERSION_4 : ℕ := 1004
def VERSION_5 : ℕ := 1005
def VERSION_6 : ℕ := 1006
def VERSION_7 : ℕ := 1007
def CURRENT_VERSION : ℕ := VERSION_7

/-- `db.execSQL` -/
def execSQL (r : Except SqlError PopcornDb) : Except UpgradeError PopcornDb :=
  r.mapError .sqlite

/-- `cursor.getString`; null reads as `none`. -/
def getString : Value → Except UpgradeError (Option String)
  | .null => .ok none
  | .integer n => .ok (some (toString n))
  | .real rendered => .ok (some rendered)
  | .text s => .ok (some s)
  | .blob _ => .error .blobAsString

/-- `cursor.getInt`: the low 32 bits.  Only called on a primary key. -/
def getInt : Value → ℤ
  | .integer n => n.bmod (2 ^ 32)
  | _ => 0

/-! ### The summary of an old download -/

/-- What is left of `cs` behind the prefix `p`. -/
def dropPrefix? : List Char → List Char → Option (List Char)
  | [], cs => some cs
  | _ :: _, [] => none
  | p :: ps, c :: cs => if p = c then dropPrefix? ps cs else none

/-- A match of the pattern at the start of `cs`, by its two groups.  Both groups are as long as
    they can be: what follows each of them in the pattern is not a digit. -/
def matchSummary (cs : List Char) : Option (List Char × List Char) := do
  let cs ← dropPrefix? "\x7b\x7bseason\x7d\x7d ".toList cs
  let (season, cs) := cs.span Char.isDigit
  let cs ← dropPrefix? ", \x7b\x7bepisode\x7d\x7d ".toList cs
  let (episode, _) := cs.span Char.isDigit
  if season = [] ∨ episode = [] then none else some (season, episode)

/-- `Matcher.find`: the first match. -/
def findSummary : List Char → Option (List Char × List Char)
  | [] => none
  | c :: cs => (matchSummary (c :: cs)).or (findSummary cs)

/-- `Integer.parseInt` on digits. -/
def parseInt (digits : List Char) : Except UpgradeError ℤ :=
  let n : ℕ := digits.foldl (fun n c => 10 * n + (c.toNat - '0'.toNat)) 0
  if n < 2 ^ 31 then .ok n else .error .numberFormat

/-! ### The upgrade methods -/

def addMagnetColumnToDownloads (db : PopcornDb) : Except UpgradeError PopcornDb :=
  execSQL (db.addColumn .downloads .torrentMagnet .text)

def updateCinemaTypeColumn (db : PopcornDb) : Except UpgradeError PopcornDb := do
  let db ← execSQL (db.update .favorites (fun r => decide (r .type = .text "list"))
    [(.type, .text Cinema.TYPE_MOVIES)])
  let db ← execSQL (db.update .favorites (fun r => decide (r .type = .text "shows"))
    [(.type, .text Cinema.TYPE_TV_SHOWS)])
  let db ← execSQL (db.update .downloads (fun r => decide (r .type = .text "list"))
    [(.type, .text Cinema.TYPE_MOVIES)])
  let db ← execSQL (db.update .downloads (fun r => decide (r .type = .text "shows"))
    [(.type, .text Cinema.TYPE_TV_SHOWS)])
  -- 8 is the old value of the state "paused"
  execSQL (db.update .downloads (fun r => decide (r .state = .integer 8))
    [(.state, .integer TorrentState.PAUSED)])

/-- One turn of the loop over the cursor. -/
def readSummary (db : PopcornDb) (row : Row Column) : Except UpgradeError PopcornDb := do
  let type ← getString (row .type)
  if type = some Cinema.TYPE_TV_SHOWS ∨ type = some Anime.TYPE_TV_SHOWS then do
    let id := getInt (row .id)
    match ← getString (row .summary) with
    -- a show without a summary
    | none => .error .nullPointer
    | some summary =>
      match findSummary summary.toList with
      | none => .ok db
      | some (season, episode) => do
        -- the pattern has found digits, which may still be too many for an int
        let season ← parseInt season
        let episode ← parseInt episode
        execSQL (db.update .downloads (fun r => decide (r .id = .integer id))
          [(.season, .integer season), (.episode, .integer episode)])
  else .ok db

/-- `dropColumn`: the table is rebuilt with `createTableQuery`, which is today's. -/
def dropColumn (db : PopcornDb) (createTableQuery : List ColumnDef)
    (columnsToRemove : List Column) : Except UpgradeError PopcornDb :=
  match db .downloads with
  | none => .error (.sqlite .noSuchTable)
  | some t => do
    let columnNames := t.columnNames.filter (fun c => decide (c ∉ columnsToRemove))
    let db ← execSQL (db.renameTable .downloads .downloadsOld)
    let db ← execSQL (db.createTable .downloads createTableQuery)
    let db ← execSQL (db.insertSelect .downloads .downloadsOld columnNames)
    execSQL (db.dropTable .downloadsOld)

def addSeasonAndEpisodeColumnsToDownloads (db : PopcornDb) : Except UpgradeError PopcornDb := do
  let db ← execSQL (db.addColumn .downloads .season .integer)
  let db ← execSQL (db.addColumn .downloads .episode .integer)
  match db .downloads with
  | none => .error (.sqlite .noSuchTable)
  | some t =>
    -- the cursor of the loop asks for the column
    if Column.summary ∉ t.columnNames then .error (.sqlite .noSuchColumn)
    else do
      let db ← t.rows.foldlM readSummary db
      dropColumn db Downloads.createTableQuery [.summary, .subtitlesDataUrl]

def addTorrentHashColumnToDownloads (db : PopcornDb) : Except UpgradeError PopcornDb :=
  execSQL (db.addColumn .downloads .torrentHash .text)

def addResumeDataColumnToDownloads (db : PopcornDb) : Except UpgradeError PopcornDb :=
  execSQL (db.addColumn .downloads .resumeData .blob)

def addReadyToWatchColumnToDownloads (db : PopcornDb) : Except UpgradeError PopcornDb :=
  execSQL (db.addColumn .downloads .readyToWatch .integer)

def createDownloads (db : PopcornDb) : Except UpgradeError PopcornDb :=
  execSQL (db.createTable .downloads Downloads.createTableQuery)

def createHistory (db : PopcornDb) : Except UpgradeError PopcornDb :=
  execSQL (db.createTable .history History.createTableQuery)

/-! ### The routes -/

/-- A statement of a route. -/
abbrev UpgradeStep := PopcornDb → Except UpgradeError PopcornDb

/-- A route: its statements in order. -/
def run (steps : List UpgradeStep) (db : PopcornDb) : Except UpgradeError PopcornDb :=
  steps.foldlM (fun db step => step db) db

def upgradeVersion_1_to_2 : List UpgradeStep := [createDownloads]
def upgradeVersion_1_to_3 : List UpgradeStep := [createDownloads]
def upgradeVersion_1_to_4 : List UpgradeStep := [createDownloads, updateCinemaTypeColumn]
def upgradeVersion_1_to_5 : List UpgradeStep := [createDownloads, updateCinemaTypeColumn]
def upgradeVersion_1_to_6 : List UpgradeStep := [createDownloads, updateCinemaTypeColumn]
def upgradeVersion_1_to_7 : List UpgradeStep :=
  [createDownloads, createHistory, updateCinemaTypeColumn]

def upgradeVersion_2_to_3 : List UpgradeStep := [addMagnetColumnToDownloads]
def upgradeVersion_2_to_4 : List UpgradeStep :=
  [addMagnetColumnToDownloads, updateCinemaTypeColumn]
def upgradeVersion_2_to_5 : List UpgradeStep :=
  [addMagnetColumnToDownloads, updateCinemaTypeColumn, addSeasonAndEpisodeColumnsToDownloads]
def upgradeVersion_2_to_6 : List UpgradeStep :=
  [addMagnetColumnToDownloads, updateCinemaTypeColumn, addSeasonAndEpisodeColumnsToDownloads,
    addTorrentHashColumnToDownloads]
def upgradeVersion_2_to_7 : List UpgradeStep :=
  [createHistory, addMagnetColumnToDownloads, updateCinemaTypeColumn,
    addSeasonAndEpisodeColumnsToDownloads, addTorrentHashColumnToDownloads,
    addResumeDataColumnToDownloads, addReadyToWatchColumnToDownloads]

def upgradeVersion_3_to_4 : List UpgradeStep := [updateCinemaTypeColumn]
def upgradeVersion_3_to_5 : List UpgradeStep :=
  [updateCinemaTypeColumn, addSeasonAndEpisodeColumnsToDownloads]
def upgradeVersion_3_to_6 : List UpgradeStep :=
  [updateCinemaTypeColumn, addSeasonAndEpisodeColumnsToDownloads, addTorrentHashColumnToDownloads]
def upgradeVersion_3_to_7 : List UpgradeStep :=
  [createHistory, updateCinemaTypeColumn, addSeasonAndEpisodeColumnsToDownloads,
    addTorrentHashColumnToDownloads, addResumeDataColumnToDownloads,
    addReadyToWatchColumnToDownloads]

def upgradeVersion_4_to_5 : List UpgradeStep := [addSeasonAndEpisodeColumnsToDownloads]
def upgradeVersion_4_to_6 : List UpgradeStep :=
  [addSeasonAndEpisodeColumnsToDownloads, addTorrentHashColumnToDownloads]
def upgradeVersion_4_to_7 : List UpgradeStep :=
  [createHistory, addSeasonAndEpisodeColumnsToDownloads, addTorrentHashColumnToDownloads,
    addResumeDataColumnToDownloads, addReadyToWatchColumnToDownloads]

def upgradeVersion_5_to_6 : List UpgradeStep := [addTorrentHashColumnToDownloads]
def upgradeVersion_5_to_7 : List UpgradeStep :=
  [createHistory, addTorrentHashColumnToDownloads, addResumeDataColumnToDownloads,
    addReadyToWatchColumnToDownloads]

def upgradeVersion_6_to_7 : List UpgradeStep :=
  [createHistory, addResumeDataColumnToDownloads, addReadyToWatchColumnToDownloads]

/-- The route `onUpgrade` takes; none of the tests holds for any other pair of versions. -/
def route : ℕ → ℕ → List UpgradeStep
  | 1001, 1002 => upgradeVersion_1_to_2
  | 1001, 1003 => upgradeVersion_1_to_3
  | 1001, 1004 => upgradeVersion_1_to_4
  | 1001, 1005 => upgradeVersion_1_to_5
  | 1001, 1006 => upgradeVersion_1_to_6
  | 1001, 1007 => upgradeVersion_1_to_7
  | 1002, 1003 => upgradeVersion_2_to_3
  | 1002, 1004 => upgradeVersion_2_to_4
  | 1002, 1005 => upgradeVersion_2_to_5
  | 1002, 1006 => upgradeVersion_2_to_6
  | 1002, 1007 => upgradeVersion_2_to_7
  | 1003, 1004 => upgradeVersion_3_to_4
  | 1003, 1005 => upgradeVersion_3_to_5
  | 1003, 1006 => upgradeVersion_3_to_6
  | 1003, 1007 => upgradeVersion_3_to_7
  | 1004, 1005 => upgradeVersion_4_to_5
  | 1004, 1006 => upgradeVersion_4_to_6
  | 1004, 1007 => upgradeVersion_4_to_7
  | 1005, 1006 => upgradeVersion_5_to_6
  | 1005, 1007 => upgradeVersion_5_to_7
  | 1006, 1007 => upgradeVersion_6_to_7
  | _, _ => []

def onCreate (db : PopcornDb) : Except UpgradeError PopcornDb := do
  let db ← execSQL (db.createTable .favorites Favorites.createTableQuery)
  let db ← execSQL (db.createTable .downloads Downloads.createTableQuery)
  execSQL (db.createTable .history History.createTableQuery)

def onUpgrade (db : PopcornDb) (oldVersion newVersion : ℕ) : Except UpgradeError PopcornDb :=
  run (route oldVersion newVersion) db

end DBHelper

end PopcornTime.Android
