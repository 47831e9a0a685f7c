import PopcornTime.Android.ContentRepository
import PopcornTime.Android.DetailsUseCase

namespace PopcornTime.Android

open PopcornTime Sqlite

/-!
# Android favourites — what is kept of a video

A row of the table `favorites` keeps the fields of a video, and of a movie its torrents as the text
of a JSON object.  The writer and the reader are two lists of columns and members.  A column gives
back what was put into it, up to the type it is declared with, and the text of a JSON value is
parsed to that value.

* `Favorites.buildValues`, `Favorites.create` — the writer and the reader; `none` is an exception.
* `RoundTrips` — what is written does not fail and is read back.
* `roundTrips_movies` — a movie round-trips exactly if no list and no torrent of it is null.
-/

namespace Content

/-- A value that is put for a column, or that a column keeps. -/
inductive Cell (R : Type)
  | null
  | integer (n : Int32)
  | real (value : R)
  | text (text : String)
  | json (json : JsonElement)

namespace Cell

variable {R : Type}

def ofString : Option String → Cell R
  | none => .null
  | some s => .text s

/-- What a column of the given type keeps of a value: a number in a text column becomes its text. -/
def stored : ColumnType → Cell R → Cell R
  | .text, .integer n => .text (toString n.toInt)
  | _, cell => cell

/-- `Cursor.getString`.  No column that is read so keeps a real number. -/
def getString : Cell R → Option String
  | .text s => some s
  | .integer n => some (toString n.toInt)
  | .null | .real _ | .json _ => none

/-- `Cursor.getFloat`.  No column that is read so keeps a text. -/
def getFloat [Zero R] : Cell R → R
  | .real value => value
  | .null | .integer _ | .text _ | .json _ => 0

@[simp] theorem getString_stored_ofString (type : ColumnType) (s : Option String) :
    ((ofString s : Cell R).stored type).getString = s := by
  cases s <;> cases type <;> rfl

end Cell

/-- A row of `favorites`. -/
abbrev FavoriteRow (R : Type) := Column → Cell R

namespace VideoInfo

variable {R : Type}

def getType : VideoInfo R → String
  | .movies .cinema _ _ => Cinema.TYPE_MOVIES
  | .movies .anime _ _ => Anime.TYPE_MOVIES
  | .tvShows .cinema _ => Cinema.TYPE_TV_SHOWS
  | .tvShows .anime _ => Anime.TYPE_TV_SHOWS

def fields : VideoInfo R → VideoFields R
  | .movies _ fields _ | .tvShows _ fields => fields

/-- A favourite has no genres. -/
def withoutGenres : VideoInfo R → VideoInfo R
  | .movies kind fields langTorrents => .movies kind { fields with genres := none } langTorrents
  | .tvShows kind fields => .tvShows kind { fields with genres := none }

end VideoInfo

namespace Favorites

/-! ### Writing -/

def KEY_TORRENT_HASH : String := "torrent_hash"

def torrentToJson (torrent : Torrent) : JsonElement :=
  .object [(KEY_TORRENT_HASH, .ofString torrent.hash), ("torrent_url", .ofString torrent.url),
    ("torrent_magnet", .ofString torrent.magnet), ("file", .ofString torrent.file),
    ("quality", .ofString torrent.quality), ("size_bytes", .ofLong torrent.size),
    ("torrent_seeds", .ofInt torrent.seeds), ("torrent_peers", .ofInt torrent.peers)]

/-- The member of one language; a list that is null has no iterator, and a torrent that is null no
    hash. -/
def entryToJson (entry : String × Option (List (Option Torrent))) :
    Option (String × JsonElement) := do
  let torrents ← entry.2
  let jsonTorrents ← torrents.mapM fun torrent => torrent.map torrentToJson
  return (entry.1, .array jsonTorrents)

def torrentsToJson (torrents : LangTorrents) : Option JsonElement :=
  (torrents.mapM entryToJson).map fun entries => .object (LinkedMap.ofEntries entries)

section Videos

variable {R : Type}

/-- The columns of every video. -/
def fieldValues (videoInfo : VideoInfo R) : List (Column × Cell R) :=
  let fields := videoInfo.fields
  [(.type, .text videoInfo.getType), (.title, .ofString fields.title),
    (.year, .integer fields.year), (.rating, .real fields.rating), (.imdb, .ofString fields.imdb),
    (.actors, .ofString fields.actors), (.trailer, .ofString fields.trailer),
    (.description, .ofString fields.description), (.posterMediumUrl, .ofString fields.poster),
    (.posterBigUrl, .ofString fields.posterBig)]

def buildValues (videoInfo : VideoInfo R) : Option (List (Column × Cell R)) :=
  match videoInfo with
  | .movies _ _ langTorrents => do
    let json ← torrentsToJson (← langTorrents)
    return fieldValues videoInfo ++ [(.torrentsInfo, .json json)]
  | .tvShows .. => some (fieldValues videoInfo)

/-- The row after an insert or an update with the given values. -/
def store (values : List (Column × Cell R)) (row : FavoriteRow R) : FavoriteRow R := fun column =>
  match values.lookup column, Android.Favorites.createTableQuery.lookup column with
  | some cell, some type => cell.stored type
  | _, _ => row column

/-! ### Reading -/

/-- A torrent of `jsonToTorrents`. -/
def jsonToTorrent : JsonElement → Option Torrent :=
  ContentRepository.readTorrent KEY_TORRENT_HASH

/-- `getAsJsonArray`, and `jsonToTorrents` of it. -/
def jsonToTorrents : JsonElement → Option (List (Option Torrent))
  | .array jsonTorrents => jsonTorrents.mapM fun json => (jsonToTorrent json).map some
  | _ => none

def jsonToEntry (entry : String × JsonElement) :
    Option (String × Option (List (Option Torrent))) :=
  (jsonToTorrents entry.2).map fun torrents => (entry.1, some torrents)

/-- The map that `populateTorrents` sets. -/
def populateTorrents : JsonElement → Option LangTorrents
  | .object entries => (entries.mapM jsonToEntry).map LinkedMap.ofEntries
  | .array elements => (jsonToTorrents (.array elements)).map fun torrents => [("", some torrents)]
  | _ => some []

/-- The torrents of a movie, which stay null where the column has no text. -/
def readTorrentsInfo : Cell R → Option (Option LangTorrents)
  | .json json => (populateTorrents json).map some
  | _ => some none

variable [Zero R]

/-- The fields that `populateVideoInfo` sets. -/
def populateVideoInfo (cursor : FavoriteRow R) : Option (VideoFields R) := do
  let year ← (cursor .year).getString.bind JsonElement.parseInt
  return {
    imdb := (cursor .imdb).getString
    title := (cursor .title).getString
    year := year
    rating := (cursor .rating).getFloat
    description := (cursor .description).getString
    actors := (cursor .actors).getString
    poster := (cursor .posterMediumUrl).getString
    posterBig := (cursor .posterBigUrl).getString
    trailer := (cursor .trailer).getString
    genres := none }

def createMovies (kind : VideoKind) (cursor : FavoriteRow R) : Option (VideoInfo R) := do
  let fields ← populateVideoInfo cursor
  let langTorrents ← readTorrentsInfo (cursor .torrentsInfo)
  return .movies kind fields langTorrents

def createTvShows (kind : VideoKind) (cursor : FavoriteRow R) : Option (VideoInfo R) :=
  (populateVideoInfo cursor).map (.tvShows kind)

/-- `create`; the inner `none` is null, for a type that is no type. -/
def create (cursor : FavoriteRow R) : Option (Option (VideoInfo R)) := do
  let type ← (cursor .type).getString
  if type = Cinema.TYPE_MOVIES then
    (createMovies .cinema cursor).map some
  else if type = Cinema.TYPE_TV_SHOWS then
    (createTvShows .cinema cursor).map some
  else if type = Anime.TYPE_MOVIES then
    (createMovies .anime cursor).map some
  else if type = Anime.TYPE_TV_SHOWS then
    (createTvShows .anime cursor).map some
  else some none

end Videos

/-! ### Torrents -/

/-- A torrent is read back with every field. -/
theorem jsonToTorrent_torrentToJson (torrent : Torrent) :
    jsonToTorrent (torrentToJson torrent) = some torrent := by
  have hstring : ∀ text, (JsonElement.ofString text).text? = text := by
    intro text
    cases text <;> rfl
  simp [jsonToTorrent, torrentToJson, ContentRepository.readTorrent, GsonUtils.getAsString,
    GsonUtils.getAsLong, GsonUtils.getAsInt, KEY_TORRENT_HASH, LinkedMap.lookup_cons_eq, hstring]

theorem jsonToEntry_of_entryToJson {entry : String × Option (List (Option Torrent))}
    {jsonEntry : String × JsonElement} (h : entryToJson entry = some jsonEntry) :
    jsonToEntry jsonEntry = some entry := by
  obtain ⟨lang, torrents⟩ := entry
  unfold entryToJson at h
  simp only [Option.bind_eq_bind, Option.bind_eq_some_iff, Option.pure_def, Option.some.injEq] at h
  obtain ⟨torrents, rfl, jsonTorrents, hjson, rfl⟩ := h
  have hread : jsonToTorrents (.array jsonTorrents) = some torrents := by
    refine JsonElement.mapM_eq_some_of_inverse ?_ hjson
    rintro torrent json htorrent
    obtain ⟨torrent, rfl, rfl⟩ := Option.map_eq_some_iff.mp htorrent
    rw [jsonToTorrent_torrentToJson, Option.map_some]
  rw [jsonToEntry, hread, Option.map_some]

theorem fst_of_entryToJson {entry : String × Option (List (Option Torrent))}
    {jsonEntry : String × JsonElement} (h : entryToJson entry = some jsonEntry) :
    entry.1 = jsonEntry.1 := by
  obtain ⟨torrents, -, rfl⟩ := Option.map_eq_some_iff.mp (jsonToEntry_of_entryToJson h)
  rfl

/-- A map with different languages is read back in its order. -/
theorem populateTorrents_of_torrentsToJson {map : LangTorrents} {json : JsonElement}
    (hnodup : (map.map Prod.fst).Nodup) (h : torrentsToJson map = some json) :
    populateTorrents json = some map := by
  obtain ⟨entries, hentries, rfl⟩ := Option.map_eq_some_iff.mp h
  have hkeys : map.map Prod.fst = entries.map Prod.fst :=
    JsonElement.map_eq_map_of_mapM (fun _ _ => fst_of_entryToJson) hentries
  have hread : entries.mapM jsonToEntry = some map :=
    JsonElement.mapM_eq_some_of_inverse (fun _ _ => jsonToEntry_of_entryToJson) hentries
  rw [LinkedMap.ofEntries_eq_self (hkeys ▸ hnodup), populateTorrents, hread, Option.map_some,
    LinkedMap.ofEntries_eq_self hnodup]

theorem isSome_entryToJson (entry : String × Option (List (Option Torrent))) :
    (entryToJson entry).isSome = true ↔ ContentRepository.isListed entry.2 = true := by
  obtain ⟨lang, torrents⟩ := entry
  cases torrents with
  | none => simp [entryToJson, ContentRepository.isListed]
  | some torrents =>
    have hmap := JsonElement.isSome_mapM (f := fun torrent => torrent.map torrentToJson) torrents
    simp only [Option.isSome_map] at hmap
    rw [ContentRepository.isListed, Option.any_some, List.all_eq_true, ← hmap]
    simp only [entryToJson, Option.bind_eq_bind, Option.bind_some, Option.pure_def]
    cases torrents.mapM fun torrent => torrent.map torrentToJson <;> simp

/-- The torrents are written exactly if none of them and no list is null. -/
theorem isSome_torrentsToJson (map : LangTorrents) :
    (torrentsToJson map).isSome = true ↔ ContentRepository.Listed map := by
  rw [torrentsToJson, Option.isSome_map, JsonElement.isSome_mapM]
  exact forall₂_congr fun entry _ => isSome_entryToJson entry

/-! ### Fields -/

section Videos

variable {R : Type}

theorem getString_store {videoInfo : VideoInfo R} {column : Column} {text : Option String}
    (rest : List (Column × Cell R)) (row : FavoriteRow R)
    (hvalue : (fieldValues videoInfo).lookup column = some (.ofString text))
    (htype : Android.Favorites.createTableQuery.lookup column = some .text) :
    (store (fieldValues videoInfo ++ rest) row column).getString = text := by
  unfold store
  rw [List.lookup_append, hvalue, htype]
  exact Cell.getString_stored_ofString .text text

variable [Zero R]

/-- All fields of a video are read back but the genres. -/
theorem populateVideoInfo_store (videoInfo : VideoInfo R) (rest : List (Column × Cell R))
    (row : FavoriteRow R) : populateVideoInfo (store (fieldValues videoInfo ++ rest) row) =
      some { videoInfo.fields with genres := none } := by
  have htext := @getString_store R videoInfo
  have hyear : (store (fieldValues videoInfo ++ rest) row .year).getString =
      some (toString videoInfo.fields.year.toInt) := rfl
  have hrating : (store (fieldValues videoInfo ++ rest) row .rating).getFloat =
      videoInfo.fields.rating := rfl
  unfold populateVideoInfo
  rw [hyear, Option.bind_some, JsonElement.parseInt_toString, hrating,
    htext rest row rfl rfl, htext rest row rfl rfl, htext rest row rfl rfl, htext rest row rfl rfl,
    htext rest row rfl rfl, htext rest row rfl rfl, htext rest row rfl rfl]
  rfl

theorem create_of_getType {cursor : FavoriteRow R} (videoInfo : VideoInfo R) :
    (cursor .type).getString = some videoInfo.getType → create cursor =
      match videoInfo with
      | .movies kind _ _ => (createMovies kind cursor).map some
      | .tvShows kind _ => (createTvShows kind cursor).map some := by
  intro htype
  unfold create
  rw [htype, Option.bind_eq_bind, Option.bind_some]
  rcases videoInfo with ⟨_ | _, fields, langTorrents⟩ | ⟨_ | _, fields⟩ <;>
    simp [VideoInfo.getType, Cinema.TYPE_MOVIES, Cinema.TYPE_TV_SHOWS, Anime.TYPE_MOVIES,
      Anime.TYPE_TV_SHOWS]

theorem create_movies (kind : VideoKind) (fields : VideoFields R) (map : Option LangTorrents)
    (json : JsonElement) (row : FavoriteRow R) :
    create (store (fieldValues (.movies kind fields map) ++ [(.torrentsInfo, .json json)]) row) =
      (populateTorrents json).map fun torrents =>
        some (.movies kind { fields with genres := none } (some torrents)) := by
  have hfields := populateVideoInfo_store (.movies kind fields map)
    [(.torrentsInfo, .json json)] row
  have htorrents : store (fieldValues (.movies kind fields map) ++ [(.torrentsInfo, .json json)])
      row .torrentsInfo = .json json := rfl
  rw [create_of_getType (.movies kind fields map) rfl]
  simp only [createMovies, hfields, htorrents, readTorrentsInfo]
  cases populateTorrents json <;> rfl

theorem create_tvShows (kind : VideoKind) (fields : VideoFields R) (row : FavoriteRow R) :
    create (store (fieldValues (.tvShows kind fields)) row) =
      some (some (.tvShows kind { fields with genres := none })) := by
  have hfields := populateVideoInfo_store (.tvShows kind fields) [] row
  rw [List.append_nil] at hfields
  rw [create_of_getType (.tvShows kind fields) rfl]
  simp only [createTvShows, hfields]
  rfl

/-! ### Round trips -/

/-- The values of a video are built, and the row they are stored in, new or not, gives back a video
    of the same type, the same fields but the genres, and the same torrents. -/
def RoundTrips (videoInfo : VideoInfo R) : Prop :=
  ∃ values, buildValues videoInfo = some values ∧ ∀ row, ∃ videoInfo',
    create (store values row) = some (some videoInfo') ∧
      videoInfo'.withoutGenres = videoInfo.withoutGenres

theorem roundTrips_tvShows (kind : VideoKind) (fields : VideoFields R) :
    RoundTrips (.tvShows kind fields) :=
  ⟨_, rfl, fun row => ⟨_, create_tvShows kind fields row, rfl⟩⟩

/-- **Movies.**  Whether one round-trips is up to the nulls among its torrents. -/
theorem roundTrips_movies (kind : VideoKind) (fields : VideoFields R) {map : LangTorrents}
    (hnodup : (map.map Prod.fst).Nodup) :
    RoundTrips (.movies kind fields (some map)) ↔ ContentRepository.Listed map := by
  rw [← isSome_torrentsToJson, Option.isSome_iff_exists]
  constructor
  · rintro ⟨values, hvalues, -⟩
    obtain ⟨json, hjson, -⟩ := Option.bind_eq_some_iff.mp hvalues
    exact ⟨json, hjson⟩
  · rintro ⟨json, hjson⟩
    have hvalues : buildValues (.movies kind fields (some map)) =
        some (fieldValues (.movies kind fields (some map)) ++ [(.torrentsInfo, .json json)]) := by
      unfold buildValues
      simp [hjson]
    refine ⟨_, hvalues, fun row =>
      ⟨.movies kind { fields with genres := none } (some map), ?_, rfl⟩⟩
    rw [create_movies, populateTorrents_of_torrentsToJson hnodup hjson, Option.map_some]

/-- **Favourites of a reply.**  Every show that is made of a reply round-trips, and a movie does
    exactly if its `items` are a list without nulls, or no list where `items_lang` makes one of no
    language. -/
theorem roundTrips_of_reply (parseFloat : String → Option R) (kind : VideoKind)
    (members : List (String × JsonElement)) :
    (∀ fields, ContentRepository.tvShow? parseFloat (.object members) = some fields →
      RoundTrips (.tvShows kind fields)) ∧
    ∀ fields langTorrents,
      ContentRepository.movie? parseFloat (.object members) = some (fields, langTorrents) →
      (RoundTrips (.movies kind fields (some langTorrents)) ↔
        ContentRepository.itemsListed members = true) := by
  refine ⟨fun fields _ => roundTrips_tvShows kind fields, fun fields langTorrents h => ?_⟩
  have htorrents : ContentRepository.langTorrents? members = some langTorrents := by
    obtain ⟨_, -, hrest⟩ := Option.bind_eq_some_iff.mp h
    obtain ⟨torrents, htorrents, heq⟩ := Option.bind_eq_some_iff.mp hrest
    rw [htorrents, (Prod.mk.inj (Option.some.inj heq)).2]
  rw [roundTrips_movies kind fields (ContentRepository.nodup_langTorrents? htorrents)]
  exact ContentRepository.listed_langTorrents? htorrents

end Videos

/-- The list of no language is null where a movie has no `items`, and the favourite of it is not
    written. -/
theorem movie_without_items :
    let members : List (String × JsonElement) :=
      [("imdb", .string "tt0133093"), ("title", .string "The Matrix"),
        ("year", .number "1999" 1999)]
    let fields : VideoFields ℚ :=
      ⟨some "tt0133093", some "The Matrix", 1999, 0, none, none, none, none, none, none⟩
    ContentRepository.movie? (fun _ => none) (.object members) = some (fields, [("", none)]) ∧
      ¬RoundTrips (.movies .cinema fields (some [("", none)])) := by
  intro members fields
  refine ⟨rfl, ?_⟩
  rw [roundTrips_movies .cinema fields (by decide)]
  decide

end Favorites

end Content

end PopcornTime.Android
