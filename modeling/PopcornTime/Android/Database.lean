import PopcornTime.Lib.Sqlite

namespace PopcornTime.Android

open PopcornTime Sqlite

/-!
# Android database — tables and columns

The tables of `popcorn.db` with the columns their `createTableQuery` spells out, in its order.
`Column` has the columns of all tables, and the two that older versions of `downloads` had and
the current one has not.
-/

/-- The tables; `downloadsOld` is the name `dropColumn` gives a table it rebuilds. -/
inductive TableName
  | favorites
  | downloads
  | downloadsOld
  | history
deriving DecidableEq, Repr

inductive Column
  | id
  | type
  | imdb
  | torrentUrl
  | torrentMagnet
  | fileName
  | posterUrl
  | title
  | directory
  | torrentFilePath
  | state
  | size
  | season
  | episode
  | torrentHash
  | resumeData
  | readyToWatch
  | summary
  | subtitlesDataUrl
  | year
  | rating
  | actors
  | trailer
  | description
  | posterMediumUrl
  | posterBigUrl
  | torrentsInfo
deriving DecidableEq, Repr

/-- The database of the application. -/
abbrev PopcornDb := Database TableName Column

abbrev ColumnDef := Column × ColumnType

namespace Favorites

/-- `UNIQUE (_imdb) ON CONFLICT REPLACE` concerns inserts only. -/
def createTableQuery : List ColumnDef :=
  [(.id, .integerPrimaryKey), (.type, .text), (.title, .text), (.year, .text), (.rating, .real),
    (.imdb, .text), (.actors, .text), (.trailer, .text), (.description, .text),
    (.posterMediumUrl, .text), (.posterBigUrl, .text), (.torrentsInfo, .text)]

end Favorites

namespace Downloads

def createTableQuery : List ColumnDef :=
  [(.id, .integerPrimaryKey), (.type, .text), (.imdb, .text), (.torrentUrl, .text),
    (.torrentMagnet, .text), (.fileName, .text), (.posterUrl, .text), (.title, .text),
    (.directory, .text), (.torrentFilePath, .text), (.state, .integer), (.size, .integer),
    (.season, .integer), (.episode, .integer), (.torrentHash, .text), (.resumeData, .blob),
    (.readyToWatch, .integer)]

end Downloads

namespace History

def createTableQuery : List ColumnDef :=
  [(.id, .integerPrimaryKey), (.imdb, .text), (.season, .integer), (.episode, .integer)]

end History

namespace Cinema

def TYPE_MOVIES : String := "cinema-list"
def TYPE_TV_SHOWS : String := "cinema-shows"

end Cinema

namespace Anime

def TYPE_TV_SHOWS : String := "anime-shows"

end Anime

namespace TorrentState

def DOWNLOADING : ℤ := 3
def FINISHED : ℤ := 4
def SEEDING : ℤ := 5
def PAUSED : ℤ := 1001
def ERROR : ℤ := 1002

end TorrentState

end PopcornTime.Android
