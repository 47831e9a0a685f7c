import PopcornTime.Lib.LinkedMap
import PopcornTime.Android.GsonUtils

namespace PopcornTime.Android

open PopcornTime

/-!
# Android content — what `ContentRepository` makes of a reply

The deserializers of videos, episodes and torrents.  Most of what a reply lacks becomes a null or a
zero; a video or an episode keeps its torrents by language in a map whose first list, that of no
language, is null where the reply has no `items`.  A list may have null elements.

* `ContentRepository.torrent?`, `langTorrents?`, `movie?`, `tvShow?`, `seasons?` — the
  deserializers; `none` is an exception, with which the reply is not accepted.
* `LangTorrents.Listed` — no list and no torrent is null; `listed_langTorrents?` says for which
  replies.
-/

namespace Content

/-- `Torrent` -/
structure Torrent where
  hash : Option String
  url : Option String
  magnet : Option String
  file : Option String
  quality : Option String
  size : Int64
  seeds : Int32
  peers : Int32
deriving DecidableEq

/-- `Map<String, List<Torrent>>`; lists and torrents may be null. -/
abbrev LangTorrents := List (String × Option (List (Option Torrent)))

/-- `Episode` -/
structure Episode where
  number : Int32
  title : Option String
  description : Option String
  airDate : Option String
  langTorrents : LangTorrents
deriving DecidableEq

/-- `Season` -/
structure Season where
  number : Int32
  episodes : Option (List (Option Episode))
deriving DecidableEq

/-- The classes of videos come in two kinds. -/
inductive VideoKind
  | cinema
  | anime
deriving DecidableEq, Repr

/-- The fields of `VideoInfo` that a reply sets; `R` is `float`. -/
structure VideoFields (R : Type) where
  imdb : Option String
  title : Option String
  year : Int32
  rating : R
  description : Option String
  actors : Option String
  poster : Option String
  posterBig : Option String
  trailer : Option String
  genres : Option (List (Option String))
deriving DecidableEq

/-- `MoviesInfo` and `TvShowsInfo`; the map of a movie may be null. -/
inductive VideoInfo (R : Type)
  | movies (kind : VideoKind) (fields : VideoFields R) (langTorrents : Option LangTorrents)
  | tvShows (kind : VideoKind) (fields : VideoFields R)
deriving DecidableEq

namespace ContentRepository

/-! ### The deserializers -/

/-- A torrent whose hash is under the given key. -/
def readTorrent (keyHash : String) : JsonElement → Option Torrent
  | .object members => do
    let size ← GsonUtils.getAsLong members "size_bytes"
    let seeds ← GsonUtils.getAsInt members "torrent_seeds"
    let peers ← GsonUtils.getAsInt members "torrent_peers"
    return {
      hash := GsonUtils.getAsString members keyHash
      url := GsonUtils.getAsString members "torrent_url"
      magnet := GsonUtils.getAsString members "torrent_magnet"
      file := GsonUtils.getAsString members "file"
      quality := GsonUtils.getAsString members "quality"
      size := size
      seeds := seeds
      peers := peers }
  | _ => none

/-- `TorrentGsonMapper` -/
def torrent? : JsonElement → Option Torrent :=
  readTorrent "id"

/-- `map.get(lang).add(torrent)`, for a language whose list is made where it is missing or null. -/
def addLangTorrent (lang : String) (torrent : Torrent) (map : LangTorrents) : LangTorrents :=
  let torrents := ((map.lookup lang).join).getD []
  LinkedMap.put lang (some (torrents ++ [some torrent])) map

/-- The language of an element of `items_lang`. -/
def language? : JsonElement → Option String
  | .object members => (members.lookup "language").bind JsonElement.asString?
  | _ => none

def addElement (map : LangTorrents) (json : JsonElement) : Option LangTorrents := do
  let lang ← language? json
  let torrent ← torrent? json
  return addLangTorrent lang torrent map

/-- The map that `MovieGsonMapper` and `EpisodeGsonMapper` make, with the same statements. -/
def langTorrents? (members : List (String × JsonElement)) : Option LangTorrents := do
  let items ← JsonElement.listOf (JsonElement.nullable torrent?) (members.lookup "items")
  match members.lookup "items_lang" with
  | none => return [("", items)]
  | some (.array elements) => elements.foldlM addElement [("", items)]
  | some _ => none

/-- `EpisodeGsonMapper` -/
def episode? : JsonElement → Option Episode
  | .object members => do
    let number ← GsonUtils.getAsInt members "episode"
    let airDate := GsonUtils.getAsString members "air_time"
    let langTorrents ← langTorrents? members
    return {
      number := number
      title := GsonUtils.getAsString members "title"
      description := GsonUtils.getAsString members "synopsis"
      -- "0" stands for no date
      airDate := if airDate = some "0" then none else airDate
      langTorrents := langTorrents }
  | _ => none

/-- A member of the reply that `SeasonsRxMapper` takes for a season. -/
def season? (entry : String × JsonElement) : Option Season := do
  let number ← JsonElement.parseInt entry.1
  let episodes ← JsonElement.listOf (JsonElement.nullable episode?) (some entry.2)
  return ⟨number, episodes⟩

/-- `SeasonsRxMapper` -/
def seasons? : JsonElement → Option (List Season)
  | .object entries => entries.mapM season?
  | _ => none

def getTrailerUrl (trailer : Option String) : Option String :=
  if trailer = none ∨ trailer = some "" then none
  else some ("https://www.youtube.com/embed/" ++ trailer.getD "" ++ "?autoplay=1")

section Videos

variable {R : Type} [Zero R] (parseFloat : String → Option R)

/-- `VideoGsonMapper` -/
def videoFields? (members : List (String × JsonElement)) : Option (VideoFields R) := do
  let year ← GsonUtils.getAsInt members "year"
  let rating ← GsonUtils.getAsFloat parseFloat members "rating"
  let genres ← JsonElement.strings? (members.lookup "genres")
  return {
    imdb := GsonUtils.getAsString members "imdb"
    title := GsonUtils.getAsString members "title"
    year := year
    rating := rating
    description := GsonUtils.getAsString members "description"
    actors := GsonUtils.getAsString members "actors"
    poster := GsonUtils.getAsString members "poster_med"
    posterBig := GsonUtils.getAsString members "poster_big"
    trailer := getTrailerUrl (GsonUtils.getAsString members "trailer")
    genres := genres }

/-- `MovieGsonMapper` -/
def movie? : JsonElement → Option (VideoFields R × LangTorrents)
  | .object members => do
    let fields ← videoFields? parseFloat members
    let langTorrents ← langTorrents? members
    return (fields, langTorrents)
  | _ => none

/-- `TVShowGsonMapper` -/
def tvShow? : JsonElement → Option (VideoFields R)
  | .object members => videoFields? parseFloat members
  | _ => none

end Videos

/-! ### Keys -/

variable {members : List (String × JsonElement)} {elements : List JsonElement}
  {map map' : LangTorrents} {lang : String}

theorem lookup_addLangTorrent (l : String) (torrent : Torrent) :
    (addLangTorrent l torrent map).lookup lang =
      if lang = l then some (some (((map.lookup lang).join).getD [] ++ [some torrent]))
      else map.lookup lang := by
  unfold addLangTorrent
  dsimp only
  rw [LinkedMap.lookup_put]
  split_ifs with h
  · rw [h]
  · rfl

theorem addElement_eq_some {json : JsonElement} : addElement map json = some map' ↔
    ∃ l torrent, language? json = some l ∧ torrent? json = some torrent ∧
      map' = addLangTorrent l torrent map := by
  unfold addElement
  simp only [Option.bind_eq_bind, Option.bind_eq_some_iff, Option.pure_def, Option.some.injEq]
  exact ⟨fun ⟨l, hl, torrent, ht, h⟩ => ⟨l, torrent, hl, ht, h.symm⟩,
    fun ⟨l, torrent, hl, ht, h⟩ => ⟨l, hl, torrent, ht, h.symm⟩⟩

/-- The map is made of the `items`, and the elements of `items_lang` one after the other. -/
theorem langTorrents?_eq_some : langTorrents? members = some map ↔
    ∃ items, JsonElement.listOf (JsonElement.nullable torrent?) (members.lookup "items") =
        some items ∧
      (members.lookup "items_lang" = none ∧ map = [("", items)] ∨
        ∃ elements, members.lookup "items_lang" = some (.array elements) ∧
          elements.foldlM addElement [("", items)] = some map) := by
  unfold langTorrents?
  rw [Option.bind_eq_bind, Option.bind_eq_some_iff]
  refine exists_congr fun items => and_congr_right fun _ => ?_
  split
  · simp [*, eq_comm]
  · simp [*]
  · rename_i json hjson hlookup
    rw [hlookup]
    refine iff_of_false (by simp) ?_
    rintro (⟨hnone, -⟩ | ⟨elements, helements, -⟩)
    · cases hnone
    · exact hjson elements (Option.some.inj helements)

theorem nodup_foldlM (hnodup : (map.map Prod.fst).Nodup)
    (h : elements.foldlM addElement map = some map') : (map'.map Prod.fst).Nodup := by
  induction elements generalizing map with
  | nil =>
    rw [List.foldlM_nil, Option.pure_def, Option.some.injEq] at h
    rwa [← h]
  | cons json elements ih =>
    rw [List.foldlM_cons, Option.bind_eq_bind, Option.bind_eq_some_iff] at h
    obtain ⟨map₁, hadd, hrest⟩ := h
    obtain ⟨l, torrent, -, -, rfl⟩ := addElement_eq_some.mp hadd
    exact ih (LinkedMap.nodup_put hnodup) hrest

/-- No language comes twice. -/
theorem nodup_langTorrents? (h : langTorrents? members = some map) : (map.map Prod.fst).Nodup := by
  obtain ⟨items, -, ⟨-, rfl⟩ | ⟨elements, -, hfold⟩⟩ := langTorrents?_eq_some.mp h
  · simp
  · exact nodup_foldlM (by simp) hfold

/-! ### Nulls -/

/-- A list that is not null, of torrents that are not. -/
def isListed (torrents : Option (List (Option Torrent))) : Bool :=
  torrents.any fun torrents => torrents.all Option.isSome

/-- No list and no torrent is null. -/
def Listed (map : LangTorrents) : Prop :=
  ∀ e ∈ map, isListed e.2 = true

instance : Decidable (Listed map) :=
  inferInstanceAs (Decidable (∀ e ∈ map, _))

/-- The reply has `items`, none of them null, or torrents whose language is the empty one. -/
def itemsListed (members : List (String × JsonElement)) : Bool :=
  match members.lookup "items" with
  | some (.array elements) => elements.all fun json => !json.isJsonNull
  | _ =>
    match members.lookup "items_lang" with
    | some (.array elements) => elements.any fun json => decide (language? json = some "")
    | _ => false

/-- The list of a language, if there is one, has no null. -/
def ListedAt (map : LangTorrents) (lang : String) : Prop :=
  ∀ torrents, map.lookup lang = some torrents → isListed torrents = true

theorem listed_iff (h : (map.map Prod.fst).Nodup) : Listed map ↔ ∀ lang, ListedAt map lang := by
  constructor
  · intro hlisted lang torrents hlookup
    exact hlisted _ ((LinkedMap.lookup_eq_some_iff h).mp hlookup)
  · rintro hlisted ⟨lang, torrents⟩ he
    exact hlisted lang torrents ((LinkedMap.lookup_eq_some_iff h).mpr he)

/-- A torrent that is added makes a list of a null, and leaves the nulls in a list. -/
theorem listedAt_addLangTorrent (l : String) (torrent : Torrent) :
    ListedAt (addLangTorrent l torrent map) lang ↔
      ListedAt map lang ∨ (map.lookup lang = some none ∧ l = lang) := by
  unfold ListedAt
  rw [lookup_addLangTorrent]
  by_cases hl : lang = l
  · subst hl
    rw [if_pos rfl]
    cases map.lookup lang with
    | none => simp [isListed]
    | some torrents =>
      cases torrents with
      | none => simp [isListed]
      | some torrents => simp [isListed]
  · rw [if_neg hl]
    simp [Ne.symm hl]

theorem listedAt_foldlM (h : elements.foldlM addElement map = some map') :
    ListedAt map' lang ↔ ListedAt map lang ∨
      (map.lookup lang = some none ∧ ∃ json ∈ elements, language? json = some lang) := by
  induction elements generalizing map with
  | nil =>
    rw [List.foldlM_nil, Option.pure_def, Option.some.injEq] at h
    rw [← h]
    simp
  | cons json elements ih =>
    rw [List.foldlM_cons, Option.bind_eq_bind, Option.bind_eq_some_iff] at h
    obtain ⟨map₁, hadd, hrest⟩ := h
    obtain ⟨l, torrent, hl, -, rfl⟩ := addElement_eq_some.mp hadd
    rw [ih hrest, listedAt_addLangTorrent, lookup_addLangTorrent, List.exists_mem_cons_iff, hl,
      Option.some.injEq]
    by_cases hlang : lang = l
    · subst hlang
      simp
    · rw [if_neg hlang]
      simp [Ne.symm hlang]

theorem all_isSome_mapM {α : Type} {f : JsonElement → Option α} {l : List (Option α)}
    (h : elements.mapM (JsonElement.nullable f) = some l) :
    l.all Option.isSome = true ↔ ∀ json ∈ elements, json.isJsonNull = false := by
  induction elements generalizing l with
  | nil =>
    rw [List.mapM_nil, Option.pure_def, Option.some.injEq] at h
    rw [← h]
    simp
  | cons json elements ih =>
    simp only [List.mapM_cons, Option.bind_eq_bind, Option.bind_eq_some_iff, Option.pure_def,
      Option.some.injEq] at h
    obtain ⟨a, ha, rest, hrest, rfl⟩ := h
    rw [List.all_cons, Bool.and_eq_true, ih hrest, List.forall_mem_cons]
    refine and_congr_left fun _ => ?_
    cases json with
    | null =>
      obtain rfl := Option.some.inj ha
      simp [JsonElement.isJsonNull]
    | bool | number | string | array | object =>
      obtain ⟨x, -, rfl⟩ := Option.map_eq_some_iff.mp ha
      simp [JsonElement.isJsonNull]

theorem isListed_listOf {json : Option JsonElement} {items : Option (List (Option Torrent))}
    (h : JsonElement.listOf (JsonElement.nullable torrent?) json = some items) :
    isListed items = true ↔
      ∃ elements, json = some (.array elements) ∧ ∀ e ∈ elements, e.isJsonNull = false := by
  unfold JsonElement.listOf at h
  split at h
  · obtain rfl := Option.some.inj h
    simp [isListed]
  · obtain rfl := Option.some.inj h
    simp [isListed]
  · rename_i elements
    obtain ⟨torrents, htorrents, rfl⟩ := Option.map_eq_some_iff.mp h
    rw [isListed, Option.any_some, all_isSome_mapM htorrents]
    simp
  · cases h

/-- A reply has a list, or nothing that could be one. -/
theorem listOf_eq_none_iff {α : Type} {f : JsonElement → Option α} {json : Option JsonElement}
    {l : Option (List α)} (h : JsonElement.listOf f json = some l) :
    l = none ↔ ∀ elements, json ≠ some (.array elements) := by
  unfold JsonElement.listOf at h
  split at h
  · obtain rfl := Option.some.inj h
    simp
  · obtain rfl := Option.some.inj h
    simp
  · obtain ⟨l, -, rfl⟩ := Option.map_eq_some_iff.mp h
    simp
  · cases h

/-- Before `items_lang` is read only the list of no language may have a null. -/
theorem listedAt_first {items : Option (List (Option Torrent))} :
    ListedAt [("", items)] lang ↔ (lang = "" → isListed items = true) := by
  unfold ListedAt
  rw [LinkedMap.lookup_cons_eq]
  by_cases hlang : lang = "" <;> simp [hlang]

theorem lookup_first_eq_none {items : Option (List (Option Torrent))} :
    ([("", items)] : LangTorrents).lookup lang = some none ↔ lang = "" ∧ items = none := by
  rw [LinkedMap.lookup_cons_eq]
  by_cases hlang : lang = "" <;> simp [hlang]

/-- The elements of `items_lang` make a list of no language where `items` is none. -/
theorem forall_listedAt_foldlM {items : Option (List (Option Torrent))}
    (h : elements.foldlM addElement [("", items)] = some map) :
    (∀ lang, ListedAt map lang) ↔
      isListed items = true ∨ (items = none ∧ ∃ json ∈ elements, language? json = some "") := by
  simp only [listedAt_foldlM h, listedAt_first, lookup_first_eq_none]
  constructor
  · intro hall
    rcases hall "" with hlisted | ⟨⟨-, hitems⟩, hjson⟩
    · exact Or.inl (hlisted rfl)
    · exact Or.inr ⟨hitems, hjson⟩
  · rintro (hlisted | ⟨hitems, hjson⟩) lang
    · exact Or.inl fun _ => hlisted
    · by_cases hlang : lang = ""
      · subst hlang
        exact Or.inr ⟨⟨rfl, hitems⟩, hjson⟩
      · exact Or.inl fun h => absurd h hlang

theorem itemsListed_iff : itemsListed members = true ↔
    (∃ elements, members.lookup "items" = some (.array elements) ∧
      ∀ e ∈ elements, e.isJsonNull = false) ∨
    ((∀ elements, members.lookup "items" ≠ some (.array elements)) ∧
      ∃ elements, members.lookup "items_lang" = some (.array elements) ∧
        ∃ json ∈ elements, language? json = some "") := by
  unfold itemsListed
  split
  · rename_i elements hlookup
    simp [hlookup]
  · rename_i hlookup
    have hnone : ¬∃ elements, members.lookup "items" = some (.array elements) ∧
        ∀ e ∈ elements, e.isJsonNull = false := fun ⟨elements, h, _⟩ => hlookup elements h
    rw [or_iff_right hnone, and_iff_right fun elements h => hlookup elements h]
    split
    · rename_i elements hlang
      simp [hlang]
    · rename_i hlang
      refine iff_of_false (by simp) ?_
      rintro ⟨elements, h, -⟩
      exact hlang elements h

/-- **The torrents of a reply** have no null exactly if its `items` have none. -/
theorem listed_langTorrents? (h : langTorrents? members = some map) :
    Listed map ↔ itemsListed members = true := by
  obtain ⟨items, hitems, hmap⟩ := langTorrents?_eq_some.mp h
  have hlisted : (∀ lang, ListedAt map lang) ↔ isListed items = true ∨ (items = none ∧
      ∃ elements, members.lookup "items_lang" = some (.array elements) ∧
        ∃ json ∈ elements, language? json = some "") := by
    rcases hmap with ⟨hlang, rfl⟩ | ⟨elements, hlang, hfold⟩
    · simp [listedAt_first, hlang]
    · rw [forall_listedAt_foldlM hfold, hlang]
      simp
  rw [listed_iff (nodup_langTorrents? h), hlisted, isListed_listOf hitems,
    listOf_eq_none_iff hitems, itemsListed_iff]

end ContentRepository

end Content

end PopcornTime.Android
