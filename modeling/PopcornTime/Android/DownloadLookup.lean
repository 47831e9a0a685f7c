import PopcornTime.Lib.SqlText
import PopcornTime.Android.DownloadsClient

namespace PopcornTime.Android

open PopcornTime Sqlite

/-!
# Android downloads — is a torrent in the table

`Downloads.isDownloads` spells a condition around the texts of a torrent, in double quotes, and
asks whether the table has a row for it.  `query` is what SQLite answers: the number of rows the
condition selects where the text is read as one, and a parameter where it is not.

* `read_selection` — filled in with plain texts the template is the condition it is meant to be.
* `isDownloads_iff` — the lookup is right for all tables exactly for plain texts, which have to be
  there in the lookup by url and magnet.
-/

namespace Downloads

/-- What `isDownloads` reads of a `Torrent`. -/
structure Torrent where
  hash : Option String
  url : Option String
  magnet : Option String
  file : Option String
  size : Int64
deriving DecidableEq

/-- `TextUtils.isEmpty` -/
def isEmpty (text : Option String) : Bool :=
  decide (text.getD "" = "")

/-- What a text is in a concatenation, where null reads as `null`. -/
def printed (text : Option String) : String :=
  text.getD "null"

/-- Hash, file and size are known. -/
def isKnown (torrent : Torrent) : Bool :=
  !isEmpty torrent.hash && !isEmpty torrent.file && decide (0 < torrent.size.toInt)

def isEpisode (season episode : Int32) : Bool :=
  decide (0 ≤ season.toInt) && decide (0 ≤ episode.toInt)

/-- `%d` -/
def decimal (n : ℤ) : String :=
  toString n

def FORMAT_TORRENT_HASH_SELECTION (hash : String) : String :=
  "_torrent_hash=\"" ++ hash ++ "\" COLLATE NOCASE"

def FORMAT_VIDEO_DOWNLOAD_SELECTION (hash file : String) (size : ℤ) : String :=
  FORMAT_TORRENT_HASH_SELECTION hash ++ " OR ( _file_name=\"" ++ file ++ "\" AND _size=" ++
    decimal size ++ " )"

def FORMAT_TV_SHOW_DOWNLOAD_SELECTION (hash file : String) (size season episode : ℤ) : String :=
  "( " ++ FORMAT_VIDEO_DOWNLOAD_SELECTION hash file size ++ " ) AND _season=" ++
    decimal season ++ " AND _episode=" ++ decimal episode

/-- The condition `isDownloads` spells. -/
def selection (torrent : Torrent) (season episode : Int32) : String :=
  if isKnown torrent then
    if isEpisode season episode then
      FORMAT_TV_SHOW_DOWNLOAD_SELECTION (printed torrent.hash) (printed torrent.file)
        torrent.size.toInt season.toInt episode.toInt
    else
      FORMAT_VIDEO_DOWNLOAD_SELECTION (printed torrent.hash) (printed torrent.file)
        torrent.size.toInt
  else
    "_torrent_url=\"" ++ printed torrent.url ++ "\" OR _torrent_magnet=\"" ++
      printed torrent.magnet ++ "\""

/-- The names SQLite knows in a condition on the table. -/
def names : List (Name Column) :=
  List.zipWith (fun name c => ⟨name, c.1, c.2⟩) identifiers
    (createTableQuery ++ List.replicate 3 (.id, .integerPrimaryKey))

/-- `SELECT * FROM downloads WHERE selection`: the number of rows, or the exception SQLite
    throws.  What a text selects that is not read as a condition is left open. -/
def query (other : String → DownloadsTable → Option ℕ) (selection : String) (t : DownloadsTable) :
    Option ℕ :=
  match readCondition names selection with
  | some e => some (t.rows.countP fun r => e.holds r.toRow)
  | none => other selection t

/-- `isDownloads`: the table is there, so the cursor is not null. -/
def isDownloads (other : String → DownloadsTable → Option ℕ) (torrent : Torrent)
    (season episode : Int32) (t : DownloadsTable) : Option Bool :=
  (query other (selection torrent season episode) t).map fun count => decide (0 < count)

/-! ### What the lookup is for -/

/-- A row is of a torrent: by hash, or by file name and size, and by season and episode; or by
    url or magnet, where there is one. -/
def Matches (torrent : Torrent) (season episode : Int32) (r : DownloadRow) : Prop :=
  if isKnown torrent then
    (r.hasHash (printed torrent.hash) ∨
      r.fileName = torrent.file ∧ r.size = torrent.size.toInt) ∧
    (isEpisode season episode →
      r.season = some season.toInt ∧ r.episode = some episode.toInt)
  else
    (¬isEmpty torrent.url ∧ r.torrentUrl = torrent.url) ∨
      (¬isEmpty torrent.magnet ∧ r.torrentMagnet = torrent.magnet)

instance (torrent : Torrent) (season episode : Int32) (r : DownloadRow) :
    Decidable (Matches torrent season episode r) := by
  unfold Matches
  infer_instance

/-- The columns a torrent is looked up by. -/
def lookupColumns (torrent : Torrent) (season episode : Int32) : List Column :=
  if isKnown torrent then
    [.torrentHash, .fileName, .size] ++
      if isEpisode season episode then [.season, .episode] else []
  else [.torrentUrl, .torrentMagnet]

/-- The text is read as a condition on these columns and the answer is right for every table. -/
structure LookupRight (other : String → DownloadsTable → Option ℕ) (torrent : Torrent)
    (season episode : Int32) : Prop where
  columns : ∃ e, readCondition names (selection torrent season episode) = some e ∧
    e.columns = lookupColumns torrent season episode
  answer : ∀ t, isDownloads other torrent season episode t =
    some (decide (∃ r ∈ t.rows, Matches torrent season episode r))

/-- A text that stands in quotes for itself and is not the name of a column. -/
def isPlain (text : String) : Bool :=
  isLiteral text && decide (nul ∉ text.toList)

/-- The texts of the lookup. -/
def Guard (torrent : Torrent) : Prop :=
  if isKnown torrent then isPlain (printed torrent.hash) ∧ isPlain (printed torrent.file)
  else
    (¬isEmpty torrent.url ∧ isPlain (printed torrent.url)) ∧
      ¬isEmpty torrent.magnet ∧ isPlain (printed torrent.magnet)

/-! ### The templates -/

variable {hash file url magnet : String}

/-- The pieces of the templates. -/
theorem hash_lead : Lead "_torrent_hash=".toList
    [.word "_torrent_hash", .symbol '='] :=
  .of_lex (by decide) (by decide) rfl (by decide)

theorem nestedHash_lead : Lead "( _torrent_hash=".toList
    [.symbol '(', .word "_torrent_hash", .symbol '='] :=
  .of_lex (by decide) (by decide) rfl (by decide)

theorem file_lead : Lead " COLLATE NOCASE OR ( _file_name=".toList
    [.word "COLLATE", .word "NOCASE", .word "OR", .symbol '(', .word "_file_name",
      .symbol '='] :=
  .of_lex (by decide) (by decide) rfl (by decide)

theorem size_lead : Lead " AND _size=".toList
    [.word "AND", .word "_size", .symbol '='] :=
  .of_lex (by decide) (by decide) rfl (by decide)

theorem close_lead : Lead " )".toList
    [.symbol ')'] :=
  .of_lex (by decide) (by decide) rfl (by decide)

theorem season_lead : Lead " ) AND _season=".toList
    [.symbol ')', .word "AND", .word "_season", .symbol '='] :=
  .of_lex (by decide) (by decide) rfl (by decide)

theorem episode_lead : Lead " AND _episode=".toList
    [.word "AND", .word "_episode", .symbol '='] :=
  .of_lex (by decide) (by decide) rfl (by decide)

theorem url_lead : Lead "_torrent_url=".toList
    [.word "_torrent_url", .symbol '='] :=
  .of_lex (by decide) (by decide) rfl (by decide)

theorem magnet_lead : Lead " OR _torrent_magnet=".toList
    [.word "OR", .word "_torrent_magnet", .symbol '='] :=
  .of_lex (by decide) (by decide) rfl (by decide)

/-- What stands behind the file name. -/
def videoEnd (size : ℤ) (rest : List Char) : List Char :=
  " AND _size=".toList ++ ((decimal size).toList ++ (" )".toList ++ rest))

def showEnd (size season episode : ℤ) : List Char :=
  videoEnd size (" ) AND _season=".toList ++ ((decimal season).toList ++
    (" AND _episode=".toList ++ (decimal episode).toList)))

/-- The template by hash and file name, with its two quoted texts. -/
theorem toList_video (size : ℤ) :
    (FORMAT_VIDEO_DOWNLOAD_SELECTION hash file size).toList =
      "_torrent_hash=".toList ++ '"' :: (hash.toList ++ '"' ::
        (" COLLATE NOCASE OR ( _file_name=".toList ++ '"' :: (file.toList ++ '"' ::
          videoEnd size []))) := by
  unfold FORMAT_VIDEO_DOWNLOAD_SELECTION FORMAT_TORRENT_HASH_SELECTION videoEnd
  simp

/-- The template of an episode, with the same two. -/
theorem toList_show (size season episode : ℤ) :
    (FORMAT_TV_SHOW_DOWNLOAD_SELECTION hash file size season episode).toList =
      "( _torrent_hash=".toList ++ '"' :: (hash.toList ++ '"' ::
        (" COLLATE NOCASE OR ( _file_name=".toList ++ '"' :: (file.toList ++ '"' ::
          showEnd size season episode))) := by
  unfold FORMAT_TV_SHOW_DOWNLOAD_SELECTION FORMAT_VIDEO_DOWNLOAD_SELECTION
    FORMAT_TORRENT_HASH_SELECTION showEnd videoEnd
  simp

/-- The template by url and magnet, with its two quoted texts. -/
theorem toList_urlSelection :
    ("_torrent_url=\"" ++ url ++ "\" OR _torrent_magnet=\"" ++ magnet ++ "\"").toList =
      "_torrent_url=".toList ++ '"' :: (url.toList ++ '"' ::
        (" OR _torrent_magnet=".toList ++ '"' :: (magnet.toList ++ '"' :: []))) := by
  simp

/-- What the templates are meant to say. -/
def videoCondition (hash file : String) (size : ℤ) : Condition Column :=
  .or (.equals ⟨.torrentHash, .text hash, .nocase⟩)
    (.and (.equals ⟨.fileName, .text file, .binary⟩) (.equals ⟨.size, .integer size, .binary⟩))

def showCondition (hash file : String) (size season episode : ℤ) : Condition Column :=
  .and (videoCondition hash file size)
    (.and (.equals ⟨.season, .integer season, .binary⟩)
      (.equals ⟨.episode, .integer episode, .binary⟩))

def urlCondition (url magnet : String) : Condition Column :=
  .or (.equals ⟨.torrentUrl, .text url, .binary⟩) (.equals ⟨.torrentMagnet, .text magnet, .binary⟩)

/-- The condition of `selection`. -/
def meant (torrent : Torrent) (season episode : Int32) : Condition Column :=
  if isKnown torrent then
    if isEpisode season episode then
      showCondition (printed torrent.hash) (printed torrent.file) torrent.size.toInt season.toInt
        episode.toInt
    else videoCondition (printed torrent.hash) (printed torrent.file) torrent.size.toInt
  else urlCondition (printed torrent.url) (printed torrent.magnet)

/-- What is meant is a condition on the columns of the lookup. -/
theorem meant_columns (torrent : Torrent) (season episode : Int32) :
    (meant torrent season episode).columns = lookupColumns torrent season episode := by
  unfold meant lookupColumns
  split_ifs <;> rfl

/-- A number that is not negative is written by its digits. -/
theorem toList_decimal (n : ℕ) : (decimal n).toList = Nat.toDigits 10 n :=
  Nat.toList_repr

/-- No quote stands behind the quoted file name. -/
theorem videoEnd_head? (size : ℤ) (rest : List Char) :
    (videoEnd size rest).head? ≠ some '"' :=
  size_lead.head?

/-- Nor does one in the template of an episode. -/
theorem showEnd_head? (size season episode : ℤ) :
    (showEnd size season episode).head? ≠ some '"' :=
  videoEnd_head? _ _

/-- The tokens behind the file name. -/
theorem lex_videoEnd (size : ℕ) (rest : List Char) :
    lex .between (videoEnd size rest) = (lex .between rest).map
      ([.word "AND", .word "_size", .symbol '=', .number size, .symbol ')'] ++ ·) := by
  unfold videoEnd
  rw [toList_decimal]
  exact size_lead.lex_number close_lead size (by decide)

/-- The tokens behind the file name of an episode, up to the end of the text. -/
theorem lex_showEnd (size season episode : ℕ) :
    lex .between (showEnd size season episode) = some
      [.word "AND", .word "_size", .symbol '=', .number size, .symbol ')', .symbol ')',
        .word "AND", .word "_season", .symbol '=', .number season,
        .word "AND", .word "_episode", .symbol '=', .number episode] := by
  have hepisode : lex .between (decimal episode).toList = some [.number episode] := by
    have hdigits : lex .between (Nat.toDigits 10 episode ++ []) = some [.number episode] :=
      lex_toDigits episode (by simp)
    rwa [List.append_nil, ← toList_decimal] at hdigits
  have hseason : lex .between (" ) AND _season=".toList ++ ((decimal season).toList ++
      (" AND _episode=".toList ++ (decimal episode).toList))) =
      (lex .between (decimal episode).toList).map ([.symbol ')', .word "AND", .word "_season",
        .symbol '=', .number season, .word "AND", .word "_episode", .symbol '='] ++ ·) := by
    rw [toList_decimal season]
    exact season_lead.lex_number episode_lead season (by decide)
  calc lex .between (showEnd size season episode)
      = (lex .between (" ) AND _season=".toList ++ ((decimal season).toList ++
          (" AND _episode=".toList ++ (decimal episode).toList)))).map
          ([.word "AND", .word "_size", .symbol '=', .number size, .symbol ')'] ++ ·) :=
        lex_videoEnd size _
    _ = _ := by rw [hseason, hepisode]; rfl

/-- A name is resolved as itself: no two are the same up to their case. -/
theorem resolve_of_mem {n : Name Column} (h : n ∈ names) : resolve names n.name = some n := by
  have hall : ∀ n ∈ names, resolve names n.name = some n := by decide +kernel
  exact hall n h

/-- A text that is a literal wherever it stands. -/
theorem isPlain_iff {text : String} :
    isPlain text ↔ Plain text.toList ∧ resolve names text = none := by
  have hnames : names.map Name.name = identifiers := rfl
  have hresolve : resolve names text = none ↔
      identifiers.all (fun name => !nocaseEq name text) := by
    rw [resolve, List.find?_eq_none, ← hnames, List.all_map, List.all_eq_true]
    simp
  rw [hresolve]
  simp only [isPlain, isLiteral, Bool.and_eq_true, decide_eq_true_eq, List.all_eq_true, Plain]
  refine ⟨fun h => ⟨fun c hc => ⟨h.1.1 c hc, ?_⟩, h.1.2⟩,
    fun h => ⟨⟨fun c hc => (h.1 c hc).1, h.2⟩, ?_⟩⟩
  · rintro rfl
    exact h.2 hc
  · exact fun hnul => (h.1 nul hnul).2 rfl

/-- The tokens of the template by hash and file name, and what follows. -/
def videoTokens (hash file : String) (size : ℕ) (rest : List Token) : List Token :=
  .word "_torrent_hash" :: .symbol '=' :: .quoted hash.toList :: .word "COLLATE" ::
    .word "NOCASE" :: .word "OR" :: .symbol '(' :: .word "_file_name" :: .symbol '=' ::
    .quoted file.toList :: .word "AND" :: .word "_size" :: .symbol '=' :: .number size ::
    .symbol ')' :: rest

/-- The tokens of the template by hash and file name are parsed as its condition, as long as nothing
    behind them goes on with it. -/
theorem parse_video {n size : ℕ} {rest : List Token} (hsize : size < 2 ^ 63)
    (hhash : resolve names hash = none) (hfile : resolve names file = none)
    (hor : afterKeyword "OR" rest = none) (hand : afterKeyword "AND" rest = none) :
    parse names (n + 8) .alternatives (videoTokens hash file size rest) =
      some (videoCondition hash file size, rest) := by
  have hnames : ⟨"_torrent_hash", .torrentHash, .text⟩ ∈ names ∧
      ⟨"_file_name", .fileName, .text⟩ ∈ names ∧ ⟨"_size", .size, .integer⟩ ∈ names := by
    decide
  obtain ⟨hhashName, hfileName, hsizeName⟩ := hnames
  refine parse_or (parse_conjunct (parse_text (resolve_of_mem hhashName) rfl hhash) rfl) rfl ?_
  refine parse_alternative (parse_conjunct (parse_parentheses ?_) hand) hor
  refine parse_alternative (parse_and (parse_text (resolve_of_mem hfileName) rfl hfile) rfl ?_) rfl
  exact parse_conjunct (parse_number (resolve_of_mem hsizeName) rfl hsize) rfl

/-- The template by hash and file name, filled in with plain texts, is read as its condition. -/
theorem read_video {size : ℕ} (hsize : size < 2 ^ 63) (hhash : isPlain hash)
    (hfile : isPlain file) :
    readCondition names (FORMAT_VIDEO_DOWNLOAD_SELECTION hash file size) =
      some (videoCondition hash file size) := by
  obtain ⟨hhash, hhash'⟩ := isPlain_iff.mp hhash
  obtain ⟨hfile, hfile'⟩ := isPlain_iff.mp hfile
  have hlex : lex .between (FORMAT_VIDEO_DOWNLOAD_SELECTION hash file size).toList =
      some (videoTokens hash file size []) := by
    rw [toList_video]
    refine (lex_of_plain hash_lead file_lead (videoEnd_head? _ _) hhash hfile).trans ?_
    rw [lex_videoEnd]
    rfl
  rw [readCondition, hlex, Option.bind_some]
  apply readTokens_eq
  exact parse_video hsize hhash' hfile' rfl rfl

/-- So is that of an episode. -/
theorem read_show {size season episode : ℕ} (hsize : size < 2 ^ 63) (hseason : season < 2 ^ 63)
    (hepisode : episode < 2 ^ 63) (hhash : isPlain hash) (hfile : isPlain file) :
    readCondition names (FORMAT_TV_SHOW_DOWNLOAD_SELECTION hash file size season episode) =
      some (showCondition hash file size season episode) := by
  obtain ⟨hhash, hhash'⟩ := isPlain_iff.mp hhash
  obtain ⟨hfile, hfile'⟩ := isPlain_iff.mp hfile
  have hlex : lex .between
      (FORMAT_TV_SHOW_DOWNLOAD_SELECTION hash file size season episode).toList = some
        (.symbol '(' :: videoTokens hash file size [.symbol ')', .word "AND", .word "_season",
          .symbol '=', .number season, .word "AND", .word "_episode", .symbol '=',
          .number episode]) := by
    rw [toList_show]
    refine (lex_of_plain nestedHash_lead file_lead (showEnd_head? _ _ _) hhash hfile).trans ?_
    rw [lex_showEnd]
    rfl
  rw [readCondition, hlex, Option.bind_some]
  apply readTokens_eq
  refine parse_alternative ?_ rfl
  refine parse_and (parse_parentheses (parse_video hsize hhash' hfile' rfl rfl)) rfl ?_
  have hnames : ⟨"_season", .season, .integer⟩ ∈ names ∧
      ⟨"_episode", .episode, .integer⟩ ∈ names := by
    decide
  refine parse_and (parse_number (resolve_of_mem hnames.1) rfl hseason) rfl ?_
  exact parse_conjunct (parse_number (resolve_of_mem hnames.2) rfl hepisode) rfl

/-- And that by url and magnet. -/
theorem read_url (hurl : isPlain url) (hmagnet : isPlain magnet) :
    readCondition names
        ("_torrent_url=\"" ++ url ++ "\" OR _torrent_magnet=\"" ++ magnet ++ "\"") =
      some (urlCondition url magnet) := by
  obtain ⟨hurl, hurl'⟩ := isPlain_iff.mp hurl
  obtain ⟨hmagnet, hmagnet'⟩ := isPlain_iff.mp hmagnet
  have hlex : lex .between
      ("_torrent_url=\"" ++ url ++ "\" OR _torrent_magnet=\"" ++ magnet ++ "\"").toList = some
        [.word "_torrent_url", .symbol '=', .quoted url.toList, .word "OR",
          .word "_torrent_magnet", .symbol '=', .quoted magnet.toList] := by
    rw [toList_urlSelection]
    exact lex_of_plain url_lead magnet_lead (by simp) hurl hmagnet
  rw [readCondition, hlex, Option.bind_some]
  apply readTokens_eq
  have hnames : ⟨"_torrent_url", .torrentUrl, .text⟩ ∈ names ∧
      ⟨"_torrent_magnet", .torrentMagnet, .text⟩ ∈ names := by
    decide
  refine parse_or (parse_conjunct (parse_text (resolve_of_mem hnames.1) rfl hurl') rfl) rfl ?_
  exact parse_alternative
    (parse_conjunct (parse_text (resolve_of_mem hnames.2) rfl hmagnet') rfl) rfl

/-- The texts of the template in use. -/
def isPlainFor (torrent : Torrent) : Bool :=
  if isKnown torrent then isPlain (printed torrent.hash) && isPlain (printed torrent.file)
  else isPlain (printed torrent.url) && isPlain (printed torrent.magnet)

/-- A known size is a positive `long`. -/
theorem exists_size {torrent : Torrent} (h : isKnown torrent) :
    ∃ size : ℕ, torrent.size.toInt = size ∧ size < 2 ^ 63 := by
  simp only [isKnown, Bool.and_eq_true, decide_eq_true_eq] at h
  obtain ⟨size, hsize⟩ := Int.eq_ofNat_of_zero_le h.2.le
  have hlt := torrent.size.toInt_lt
  exact ⟨size, hsize, by omega⟩

/-- **What a selection says.**  Filled in with plain texts the template in use is read as the
    condition it is meant to be. -/
theorem read_selection {torrent : Torrent} {season episode : Int32} (h : isPlainFor torrent) :
    readCondition names (selection torrent season episode) =
      some (meant torrent season episode) := by
  unfold isPlainFor at h
  unfold selection meant
  split_ifs with hknown hepisode
  · rw [if_pos hknown, Bool.and_eq_true] at h
    obtain ⟨size, hsize, hbound⟩ := exists_size hknown
    simp only [isEpisode, Bool.and_eq_true, decide_eq_true_eq] at hepisode
    obtain ⟨m, hm⟩ := Int.eq_ofNat_of_zero_le hepisode.1
    obtain ⟨n, hn⟩ := Int.eq_ofNat_of_zero_le hepisode.2
    have hm' := season.toInt_lt
    have hn' := episode.toInt_lt
    rw [hm] at hm' ⊢
    rw [hn] at hn' ⊢
    rw [hsize]
    exact read_show hbound (by omega) (by omega) h.1 h.2
  · rw [if_pos hknown, Bool.and_eq_true] at h
    obtain ⟨size, hsize, hbound⟩ := exists_size hknown
    rw [hsize]
    exact read_video hbound h.1 h.2
  · rw [if_neg hknown, Bool.and_eq_true] at h
    exact read_url h.1 h.2

/-! ### The answer -/

variable {other : String → DownloadsTable → Option ℕ} {torrent : Torrent} {season episode : Int32}

/-- What a comparison says of a row. -/
@[simp] theorem holds_hash {text : String} (r : DownloadRow) :
    Comparison.Holds ⟨.torrentHash, .text text, .nocase⟩ r.toRow ↔ r.hasHash text := by
  cases h : r.torrentHash <;>
    simp [Comparison.Holds, Comparison.eval, DownloadRow.toRow, DownloadRow.hasHash, h,
      Value.ofText, Collation.same]

@[simp] theorem holds_fileName {text : String} (r : DownloadRow) :
    Comparison.Holds ⟨.fileName, .text text, .binary⟩ r.toRow ↔ r.fileName = some text :=
  Comparison.holds_ofText rfl

@[simp] theorem holds_torrentUrl {text : String} (r : DownloadRow) :
    Comparison.Holds ⟨.torrentUrl, .text text, .binary⟩ r.toRow ↔ r.torrentUrl = some text :=
  Comparison.holds_ofText rfl

@[simp] theorem holds_torrentMagnet {text : String} (r : DownloadRow) :
    Comparison.Holds ⟨.torrentMagnet, .text text, .binary⟩ r.toRow ↔
      r.torrentMagnet = some text :=
  Comparison.holds_ofText rfl

@[simp] theorem holds_size {n : ℤ} (r : DownloadRow) :
    Comparison.Holds ⟨.size, .integer n, .binary⟩ r.toRow ↔ r.size = n :=
  (Comparison.holds_ofInteger (v := some r.size) rfl).trans Option.some_inj

@[simp] theorem holds_season {n : ℤ} (r : DownloadRow) :
    Comparison.Holds ⟨.season, .integer n, .binary⟩ r.toRow ↔ r.season = some n :=
  Comparison.holds_ofInteger rfl

@[simp] theorem holds_episode {n : ℤ} (r : DownloadRow) :
    Comparison.Holds ⟨.episode, .integer n, .binary⟩ r.toRow ↔ r.episode = some n :=
  Comparison.holds_ofInteger rfl

/-- The rows that the condition by hash and file name selects. -/
theorem holds_video {size : ℤ} (r : DownloadRow) :
    (videoCondition hash file size).holds r.toRow ↔
      r.hasHash hash ∨ r.fileName = some file ∧ r.size = size := by
  simp [videoCondition]

/-- The rows that the condition of an episode selects. -/
theorem holds_show {size season episode : ℤ} (r : DownloadRow) :
    (showCondition hash file size season episode).holds r.toRow ↔
      (r.hasHash hash ∨ r.fileName = some file ∧ r.size = size) ∧
        r.season = some season ∧ r.episode = some episode := by
  simp [showCondition, holds_video]

/-- The rows that the condition by url and magnet selects. -/
theorem holds_urlCondition (r : DownloadRow) :
    (urlCondition url magnet).holds r.toRow ↔
      r.torrentUrl = some url ∨ r.torrentMagnet = some magnet := by
  simp [urlCondition]

/-- Rows that a lookup by url and magnet finds for a torrent that lacks one of the two: a missing
    url reads as `null` or as the empty text. -/
def MatchesMissing (torrent : Torrent) (r : DownloadRow) : Prop :=
  ¬isKnown torrent ∧
    (isEmpty torrent.url ∧ r.torrentUrl = some (printed torrent.url) ∨
      isEmpty torrent.magnet ∧ r.torrentMagnet = some (printed torrent.magnet))

/-- A text that is there is printed as it is. -/
theorem some_printed {text : Option String} (h : ¬isEmpty text) : some (printed text) = text := by
  cases text with
  | none => exact absurd rfl h
  | some s => rfl

/-- A value is what a text is printed as if it is the text, or what a missing one reads as. -/
theorem eq_some_printed_iff (text value : Option String) :
    value = some (printed text) ↔
      (¬isEmpty text ∧ value = text) ∨ (isEmpty text ∧ value = some (printed text)) := by
  by_cases h : isEmpty text
  · simp [h]
  · simp [h, some_printed h]

/-- **What is selected.**  The condition selects the rows of the torrent, and those that match
    what a missing url or magnet reads as. -/
theorem holds_meant (r : DownloadRow) :
    (meant torrent season episode).holds r.toRow ↔
      Matches torrent season episode r ∨ MatchesMissing torrent r := by
  unfold meant Matches MatchesMissing
  by_cases hknown : isKnown torrent
  · have hfile : ¬isEmpty torrent.file := by
      simp only [isKnown, Bool.and_eq_true, Bool.not_eq_true'] at hknown
      simp [hknown.1.2]
    by_cases hepisode : isEpisode season episode
    · simp [hknown, hepisode, holds_show, some_printed hfile]
    · simp [hknown, hepisode, holds_video, some_printed hfile]
  · simp only [hknown, Bool.false_eq_true, if_false, holds_urlCondition, not_false_iff, true_and]
    exact (or_congr (eq_some_printed_iff torrent.url _)
      (eq_some_printed_iff torrent.magnet _)).trans or_or_or_comm

/-- The lookup answers whether a row is selected by the condition its text is read as. -/
theorem isDownloads_eq {e : Condition Column}
    (h : readCondition names (selection torrent season episode) = some e) (t : DownloadsTable) :
    isDownloads other torrent season episode t =
      some (decide (∃ r ∈ t.rows, e.holds r.toRow)) := by
  simp only [isDownloads, query, h, Option.map_some, List.countP_pos_iff]

/-- Whether the answer is right for one table: what a missing url or magnet reads as is not
    found, or is found besides a row of the torrent. -/
theorem isDownloads_right_iff (h : isPlainFor torrent) (t : DownloadsTable) :
    isDownloads other torrent season episode t =
        some (decide (∃ r ∈ t.rows, Matches torrent season episode r)) ↔
      (∃ r ∈ t.rows, Matches torrent season episode r) ∨
        ∀ r ∈ t.rows, ¬MatchesMissing torrent r := by
  rw [isDownloads_eq (read_selection h), Option.some.injEq, decide_eq_decide]
  simp only [holds_meant]
  refine ⟨fun hiff => ?_, ?_⟩
  · by_contra hnot
    push Not at hnot
    obtain ⟨hnone, r, hr, hmissing⟩ := hnot
    obtain ⟨r', hr', hmatches⟩ := hiff.mp ⟨r, hr, .inr hmissing⟩
    exact hnone r' hr' hmatches
  · rintro (⟨r, hr, hmatches⟩ | hnone)
    · exact iff_of_true ⟨r, hr, .inl hmatches⟩ ⟨r, hr, hmatches⟩
    · refine exists_congr fun r => and_congr_right fun hr => ?_
      exact or_iff_left (hnone r hr)

/-- The guard has the texts of the template plain. -/
theorem isPlainFor_of_guard (h : Guard torrent) : isPlainFor torrent := by
  unfold Guard at h
  unfold isPlainFor
  split_ifs at h ⊢ with hknown
  · rw [h.1, h.2]
    rfl
  · rw [h.1.2, h.2.2]
    rfl

/-- Where the guard is met no row is found for a url or a magnet that is missing. -/
theorem not_matchesMissing_of_guard (h : Guard torrent) (r : DownloadRow) :
    ¬MatchesMissing torrent r := by
  rintro ⟨hknown, hmissing⟩
  rw [Guard, if_neg hknown] at h
  rcases hmissing with ⟨hurl, -⟩ | ⟨hmagnet, -⟩
  · exact h.1.1 hurl
  · exact h.2.1 hmagnet

/-- Under the guard the lookup is right. -/
theorem lookupRight_of_guard (h : Guard torrent) : LookupRight other torrent season episode where
  columns := ⟨_, read_selection (isPlainFor_of_guard h), meant_columns torrent season episode⟩
  answer t := (isDownloads_right_iff (isPlainFor_of_guard h) t).mpr
    (.inr fun r _ => not_matchesMissing_of_guard h r)

/-! ### What a right lookup needs -/

/-- A row of the size, the season and the episode looked for, without any text. -/
def blankRow (torrent : Torrent) (season episode : Int32) : DownloadRow where
  id := 1
  type := none
  imdb := none
  torrentUrl := none
  torrentMagnet := none
  fileName := none
  posterUrl := none
  title := none
  directory := ""
  torrentFilePath := none
  state := 0
  size := torrent.size.toInt
  season := some season.toInt
  episode := some episode.toInt
  torrentHash := none
  resumeData := none
  readyToWatch := none

/-- A lookup that is right for the table of one row decides whether the row is of the torrent. -/
theorem LookupRight.holds_iff {e : Condition Column}
    (h : LookupRight other torrent season episode)
    (he : readCondition names (selection torrent season episode) = some e) (r : DownloadRow) :
    e.holds r.toRow ↔ Matches torrent season episode r := by
  have hanswer := h.answer ⟨[r], List.pairwise_singleton _ _⟩
  rw [isDownloads_eq he, Option.some.injEq, decide_eq_decide] at hanswer
  simpa using hanswer

/-- A torrent that is known has a hash and a file. -/
theorem not_isEmpty_of_isKnown (h : isKnown torrent) :
    ¬isEmpty torrent.hash ∧ ¬isEmpty torrent.file := by
  simp only [isKnown, Bool.and_eq_true, Bool.not_eq_true'] at h
  exact ⟨by simp [h.1.1], by simp [h.1.2]⟩

/-- A text that is not empty is there. -/
theorem ne_none_of_not_isEmpty {text : Option String} (h : ¬isEmpty text) : none ≠ text := by
  rintro rfl
  exact h rfl

/-- No torrent is found in a row without texts. -/
theorem not_matches_blankRow :
    ¬Matches torrent season episode (blankRow torrent season episode) := by
  unfold Matches
  split_ifs with hknown
  · rintro ⟨hhash | ⟨hfile, -⟩, -⟩
    · cases hhash
    · exact ne_none_of_not_isEmpty (not_isEmpty_of_isKnown hknown).2 hfile
  · rintro (⟨hurl, hnone⟩ | ⟨hmagnet, hnone⟩)
    · exact ne_none_of_not_isEmpty hurl hnone
    · exact ne_none_of_not_isEmpty hmagnet hnone

/-- A row of the torrent that has one text only tells this text apart. -/
theorem LookupRight.tellsApart {e : Condition Column} {r : DownloadRow} {k : Column}
    {text : String} (h : LookupRight other torrent season episode)
    (he : readCondition names (selection torrent season episode) = some e)
    (hr : Matches torrent season episode r) (htext : r.toRow k = .text text)
    (hrest : ∀ c, c ≠ k → r.toRow c = (blankRow torrent season episode).toRow c) :
    TellsApart e k text :=
  ⟨_, _, (h.holds_iff he r).mpr hr,
    fun hblank => not_matches_blankRow ((h.holds_iff he _).mp hblank), htext, hrest⟩

/-- No column is looked up by twice. -/
theorem nodup_lookupColumns (torrent : Torrent) (season episode : Int32) :
    (lookupColumns torrent season episode).Nodup := by
  unfold lookupColumns
  split_ifs <;> decide

/-- The template by hash and file name. -/
theorem exists_known_template (hknown : isKnown torrent) (season episode : Int32) :
    ∃ pre tokens rest, Lead pre tokens ∧ rest.head? ≠ some '"' ∧
      (selection torrent season episode).toList =
        pre ++ '"' :: ((printed torrent.hash).toList ++ '"' ::
          (" COLLATE NOCASE OR ( _file_name=".toList ++ '"' ::
            ((printed torrent.file).toList ++ '"' :: rest))) := by
  unfold selection
  rw [if_pos hknown]
  split_ifs
  · exact ⟨_, _, _, nestedHash_lead, showEnd_head? _ _ _, toList_show _ _ _⟩
  · exact ⟨_, _, _, hash_lead, videoEnd_head? _ _, toList_video _⟩

/-- A lookup by hash and file name that is right has both texts plain. -/
theorem isPlain_of_known (h : LookupRight other torrent season episode)
    (hknown : isKnown torrent) :
    isPlain (printed torrent.hash) ∧ isPlain (printed torrent.file) := by
  obtain ⟨e, he, hcolumns⟩ := h.columns
  obtain ⟨pre, tokens, rest, hpre, hrest, htext⟩ := exists_known_template hknown season episode
  obtain ⟨-, hfile⟩ := not_isEmpty_of_isKnown hknown
  have hnodup : e.columns.Nodup := hcolumns ▸ nodup_lookupColumns torrent season episode
  rw [lookupColumns, if_pos hknown] at hcolumns
  have hhash_apart : TellsApart e .torrentHash (printed torrent.hash) := by
    refine h.tellsApart he
      (r := { blankRow torrent season episode with torrentHash := some (printed torrent.hash) })
      ?_ rfl ?_
    · rw [Matches, if_pos hknown]
      exact ⟨.inl (beq_self_eq_true _), fun _ => ⟨rfl, rfl⟩⟩
    · intro c hc
      cases c <;> first | rfl | exact absurd rfl hc
  -- a row with this file name alone matches, so the comparison is with the name itself
  have hfile_apart : TellsApart e .fileName (printed torrent.file) := by
    refine h.tellsApart he
      (r := { blankRow torrent season episode with fileName := some (printed torrent.file) })
      ?_ rfl ?_
    · rw [Matches, if_pos hknown]
      exact ⟨.inr ⟨some_printed hfile, rfl⟩, fun _ => ⟨rfl, rfl⟩⟩
    · intro c hc
      cases c <;> first | rfl | exact absurd rfl hc
  have hplain := plain_of_readCondition hpre file_lead hrest htext he hcolumns hnodup
    (.inr (by rwa [String.ofList_toList])) (.inr (by rwa [String.ofList_toList]))
  rw [String.ofList_toList, String.ofList_toList] at hplain
  exact ⟨isPlain_iff.mpr hplain.1, isPlain_iff.mpr hplain.2⟩

/-- What a missing text reads as is plain. -/
theorem plain_of_isEmpty {text : Option String} (h : isEmpty text) :
    Plain (printed text).toList := by
  cases text with
  | none => decide
  | some s =>
    obtain rfl : s = "" := by simpa [isEmpty] using h
    decide

/-- A lookup by url and magnet that is right has both of these plain. -/
theorem isPlain_of_unknown (h : LookupRight other torrent season episode)
    (hknown : ¬isKnown torrent) :
    isPlain (printed torrent.url) ∧ isPlain (printed torrent.magnet) := by
  obtain ⟨e, he, hcolumns⟩ := h.columns
  have hnodup : e.columns.Nodup := hcolumns ▸ nodup_lookupColumns torrent season episode
  rw [lookupColumns, if_neg hknown] at hcolumns
  -- a text that is not plain must tell a row of its own url from the others
  have hurl : Plain (printed torrent.url).toList ∨
      TellsApart e .torrentUrl (printed torrent.url) := by
    by_cases hempty : isEmpty torrent.url
    · exact .inl (plain_of_isEmpty hempty)
    · refine .inr (h.tellsApart he
        (r := { blankRow torrent season episode with torrentUrl := some (printed torrent.url) })
        ?_ rfl ?_)
      · rw [Matches, if_neg hknown]
        exact .inl ⟨hempty, some_printed hempty⟩
      · intro c hc
        cases c <;> first | rfl | exact absurd rfl hc
  have hmagnet : Plain (printed torrent.magnet).toList ∨
      TellsApart e .torrentMagnet (printed torrent.magnet) := by
    by_cases hempty : isEmpty torrent.magnet
    · exact .inl (plain_of_isEmpty hempty)
    · refine .inr (h.tellsApart he
        (r := { blankRow torrent season episode with
          torrentMagnet := some (printed torrent.magnet) })
        ?_ rfl ?_)
      · rw [Matches, if_neg hknown]
        exact .inr ⟨hempty, some_printed hempty⟩
      · intro c hc
        cases c <;> first | rfl | exact absurd rfl hc
  -- the condition is the two comparisons with the printed texts between quotes
  have htext : (selection torrent season episode).toList =
      "_torrent_url=".toList ++ '"' :: ((printed torrent.url).toList ++ '"' ::
        (" OR _torrent_magnet=".toList ++ '"' ::
          ((printed torrent.magnet).toList ++ '"' :: []))) := by
    rw [selection, if_neg hknown, toList_urlSelection]
  have hplain := plain_of_readCondition url_lead magnet_lead (by simp) htext he hcolumns hnodup
    (by rwa [String.ofList_toList]) (by rwa [String.ofList_toList])
  rw [String.ofList_toList, String.ofList_toList] at hplain
  exact ⟨isPlain_iff.mpr hplain.1, isPlain_iff.mpr hplain.2⟩

/-- A lookup that is right has the texts of its template plain. -/
theorem isPlainFor_of_lookupRight (h : LookupRight other torrent season episode) :
    isPlainFor torrent := by
  unfold isPlainFor
  split_ifs with hknown
  · rw [Bool.and_eq_true]
    exact isPlain_of_known h hknown
  · rw [Bool.and_eq_true]
    exact isPlain_of_unknown h hknown

/-- A lookup by what a missing url or magnet reads as finds rows of other torrents. -/
theorem matches_of_missing (h : LookupRight other torrent season episode)
    {r : DownloadRow} (hr : MatchesMissing torrent r) : Matches torrent season episode r := by
  have hplain := isPlainFor_of_lookupRight h
  exact (h.holds_iff (read_selection hplain) r).mp ((holds_meant r).mpr (.inr hr))

/-- **A lookup that is right meets the guard**: where a url or a magnet is missing it would find rows
    of other torrents. -/
theorem guard_of_lookupRight (h : LookupRight other torrent season episode) : Guard torrent := by
  unfold Guard
  split_ifs with hknown
  · exact isPlain_of_known h hknown
  · obtain ⟨hurl, hmagnet⟩ := isPlain_of_unknown h hknown
    refine ⟨⟨fun hempty => ?_, hurl⟩, fun hempty => ?_, hmagnet⟩
    · have hmatches := matches_of_missing h
        (r := { blankRow torrent season episode with torrentUrl := some (printed torrent.url) })
        ⟨hknown, .inl ⟨hempty, rfl⟩⟩
      rw [Matches, if_neg hknown] at hmatches
      rcases hmatches with ⟨hthere, -⟩ | ⟨hthere, hnone⟩
      · exact hthere hempty
      · exact ne_none_of_not_isEmpty hthere hnone
    · have hmatches := matches_of_missing h
        (r := { blankRow torrent season episode with
          torrentMagnet := some (printed torrent.magnet) })
        ⟨hknown, .inr ⟨hempty, rfl⟩⟩
      rw [Matches, if_neg hknown] at hmatches
      rcases hmatches with ⟨hthere, hnone⟩ | ⟨hthere, -⟩
      · exact ne_none_of_not_isEmpty hthere hnone
      · exact hthere hempty

/-- **Looking a torrent up.**  The condition is on the right columns and the answer right for
    every table exactly where the texts of the lookup have no quote or NUL in them and are no
    names of columns, and url and magnet, where these are looked up, are there.  Where the texts
    are plain the answer goes wrong for just those tables that have no row of the torrent, but
    one with what a missing url or magnet reads as. -/
theorem isDownloads_iff (other : String → DownloadsTable → Option ℕ) (torrent : Torrent)
    (season episode : Int32) :
    (LookupRight other torrent season episode ↔ Guard torrent) ∧
      (isPlainFor torrent → ∀ t, isDownloads other torrent season episode t =
          some (decide (∃ r ∈ t.rows, Matches torrent season episode r)) ↔
        (∃ r ∈ t.rows, Matches torrent season episode r) ∨
          ∀ r ∈ t.rows, ¬MatchesMissing torrent r) :=
  ⟨⟨guard_of_lookupRight, lookupRight_of_guard⟩, isDownloads_right_iff⟩

/-- A torrent without a hash, with an empty url. -/
def emptyUrlTorrent : Torrent where
  hash := none
  url := some ""
  magnet := some "magnet:?xt=urn:btih:aa"
  file := none
  size := 0

/-- A torrent whose hash goes on behind a quote. -/
def quotedHashTorrent : Torrent where
  hash := some "aa\" OR _torrent_hash=\"bb"
  url := none
  magnet := none
  file := some "a.mp4"
  size := 700

/-- A download of another torrent. -/
def otherDownload : DownloadsTable where
  rows := [{ blankRow emptyUrlTorrent 1 1 with
    torrentUrl := some "", torrentHash := some "bb", fileName := some "b.mp4" }]
  sorted := List.pairwise_singleton _ _

/-- Both are found in a table that has the other download only. -/
theorem isDownloads_finds_other :
    (isDownloads (fun _ _ => none) emptyUrlTorrent (-1) (-1) otherDownload = some true ∧
      ¬∃ r ∈ otherDownload.rows, Matches emptyUrlTorrent (-1) (-1) r) ∧
    (isDownloads (fun _ _ => none) quotedHashTorrent (-1) (-1) otherDownload = some true ∧
      ¬∃ r ∈ otherDownload.rows, Matches quotedHashTorrent (-1) (-1) r) := by
  decide +kernel

end Downloads

end PopcornTime.Android
