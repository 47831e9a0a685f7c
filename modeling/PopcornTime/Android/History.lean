import PopcornTime.Android.DownloadLookup
import PopcornTime.Lib.Machine

namespace PopcornTime.Android

open PopcornTime Sqlite
open Downloads (printed decimal)

/-!
# Android — the marks of watched videos

`History` keeps a row for every video that is marked.  `WatchDialog` makes one when a video is
prepared and none is there yet, and the button of the details marks and unmarks.

* `HistorySql` — what SQLite makes of a condition.
* `WatchedMarks` — the table, the button, and which videos were prepared.
* `WatchedMarks.marksRight_of_guard` — the runs in which the marks are right.
-/

/-- A row of `history`, and the video it marks. -/
structure HistoryRow where
  imdb : Option String
  season : Int32
  episode : Int32
deriving DecidableEq, Repr

namespace History

/-- `FORMAT_SELECTION`, filled in; null reads as `null`. -/
def selection (imdb : Option String) (season episode : Int32) : String :=
  "_imdb=\"" ++ printed imdb ++ "\" AND _season=" ++ decimal season.toInt ++
    " AND _episode=" ++ decimal episode.toInt

/-- The columns of `history`, and what the rowid is called. -/
def identifiers : List String :=
  ["_id", "_imdb", "_season", "_episode", "rowid", "oid", "_rowid_"]

/-- A text that stands in quotes for itself and is not the name of a column. -/
def IsPlain (text : String) : Prop :=
  Plain text.toList ∧ ∀ name ∈ identifiers, nocaseEq name text = false

instance (text : String) : Decidable (IsPlain text) :=
  have : Decidable (∀ name ∈ identifiers, nocaseEq name text = false) := List.decidableBAll _ _
  inferInstanceAs (Decidable (_ ∧ _))

end History

open History

/-- The rows that a text behind `WHERE` selects, or none where SQLite refuses the text.  Around a
    plain text the template compares all three columns. -/
structure HistorySql where
  condition : String → Option (HistoryRow → Bool)
  reads : ∀ {imdb : String} (season episode : Int32), IsPlain imdb →
    condition (selection (some imdb) season episode) =
      some fun r => decide (r = ⟨some imdb, season, episode⟩)

namespace History

variable (sql : HistorySql)

def insert (rows : List HistoryRow) (row : HistoryRow) : List HistoryRow :=
  rows ++ [row]

def delete (rows : List HistoryRow) (imdb : Option String) (season episode : Int32) :
    Option (List HistoryRow) :=
  (sql.condition (selection imdb season episode)).map fun p => rows.filter fun r => !p r

def isWatched (rows : List HistoryRow) (imdb : Option String) (season episode : Int32) :
    Option Bool :=
  (sql.condition (selection imdb season episode)).map rows.any

end History

/-- The table and the watched button, which is there behind a lookup.  `prepared` are the videos
    that were prepared and not unmarked since, `named` all that were prepared or marked. -/
structure WatchedMarks where
  rows : List HistoryRow
  button : Option (HistoryRow × Bool)
  prepared : List HistoryRow
  named : List HistoryRow
deriving DecidableEq

namespace WatchedMarks

def new : WatchedMarks where
  rows := []
  button := none
  prepared := []
  named := []

variable (sql : HistorySql)

/-- `WatchDialog.onVideoPrepared`; season and episode change places in the lookup. -/
def onVideoPrepared (m : WatchedMarks) (attached : Bool) (watchInfo : Option HistoryRow) :
    WatchedMarks :=
  match attached, watchInfo with
  | true, some info =>
    let rows := match isWatched sql m.rows info.imdb info.episode info.season with
      | some false => insert m.rows info
      | _ => m.rows
    { m with rows := rows, prepared := info :: m.prepared, named := info :: m.named }
  | _, _ => m

/-- `onEpisodes`, and the same for a movie, whose season and episode are 0. -/
def onEpisodes (m : WatchedMarks) (video : HistoryRow) : WatchedMarks :=
  { m with
    button := (isWatched sql m.rows video.imdb video.season video.episode).map (video, ·) }

/-- `onCheckedChanged` of a button that was not checked. -/
def check (m : WatchedMarks) (video : HistoryRow) : WatchedMarks :=
  { m with
    rows := insert m.rows video
    button := some (video, true)
    named := video :: m.named }

/-- `onCheckedChanged` of a button that was checked. -/
def uncheck (m : WatchedMarks) (video : HistoryRow) : WatchedMarks :=
  match delete sql m.rows video.imdb video.season video.episode with
  | some rows => { m with
      rows := rows
      button := some (video, false)
      prepared := m.prepared.filter fun v => decide (v ≠ video) }
  | none => m

inductive Event
  | onVideoPrepared (attached : Bool) (watchInfo : Option HistoryRow)
  | onEpisodes (video : HistoryRow)
  | click

def next (m : WatchedMarks) : Event → Option WatchedMarks
  | .onVideoPrepared attached watchInfo => some (m.onVideoPrepared sql attached watchInfo)
  | .onEpisodes video => some (m.onEpisodes sql video)
  | .click => m.button.map fun b => if b.2 then m.uncheck sql b.1 else m.check b.1

def machine : Machine WatchedMarks Event :=
  .ofFun (· = new) (next sql)

/-! ### What is meant -/

/-- A prepared video is watched until it is unmarked, there is no mark of another one, and no
    video has two. -/
structure Right (m : WatchedMarks) : Prop where
  watched : ∀ v ∈ m.prepared, isWatched sql m.rows v.imdb v.season v.episode = some true
  named : ∀ v ∈ m.rows, v ∈ m.named
  once : m.rows.Nodup

/-- The video has an imdb, and it is plain. -/
def IsPlain (v : HistoryRow) : Prop :=
  ∃ imdb ∈ v.imdb, History.IsPlain imdb

/-- The videos of an event are plain. -/
def EventPlain (m : WatchedMarks) : Event → Prop
  | .onVideoPrepared attached watchInfo => attached = true → ∀ v ∈ watchInfo, IsPlain v
  | .onEpisodes _ => True
  | .click => ∀ b ∈ m.button, IsPlain b.1

/-- With season and episode in each other's place a video that is prepared is marked exactly if it
    is so as it stands, and one that is checked is not marked yet. -/
def MarkGuard (m : WatchedMarks) : Event → Prop
  | .onVideoPrepared attached watchInfo => attached = true → ∀ v ∈ watchInfo,
      (⟨v.imdb, v.episode, v.season⟩ ∈ m.rows ↔ v ∈ m.rows)
  | .onEpisodes _ => True
  | .click => ∀ b ∈ m.button, b.2 = false → b.1 ∉ m.rows

def Guard (m : WatchedMarks) (e : Event) : Prop :=
  m.EventPlain e ∧ m.MarkGuard e

variable {sql} {m m' : WatchedMarks} {e : Event} {v : HistoryRow} {rows : List HistoryRow}

/-! ### Lookups of plain videos -/

/-- The lookup of a plain imdb finds the row. -/
theorem isWatched_eq {imdb : String} (himdb : History.IsPlain imdb) (season episode : Int32) :
    isWatched sql rows (some imdb) season episode =
      some (decide (⟨some imdb, season, episode⟩ ∈ rows)) := by
  have hany : rows.any (fun r => decide (r = ⟨some imdb, season, episode⟩)) =
      decide (⟨some imdb, season, episode⟩ ∈ rows) := by
    rw [Bool.eq_iff_iff]
    simp
  unfold isWatched
  rw [sql.reads season episode himdb, Option.map_some, hany]

/-- A plain video is watched if it has a row. -/
theorem isWatched_iff (hv : IsPlain v) :
    isWatched sql rows v.imdb v.season v.episode = some true ↔ v ∈ rows := by
  obtain ⟨imdb, himdb, hplain⟩ := hv
  obtain ⟨_, season, episode⟩ := v
  obtain rfl := Option.mem_def.mp himdb
  rw [isWatched_eq hplain, Option.some.injEq, decide_eq_true_eq]

/-- A deletion takes the rows of its video only. -/
theorem delete_eq (hv : IsPlain v) :
    delete sql rows v.imdb v.season v.episode = some (rows.filter fun r => decide (r ≠ v)) := by
  obtain ⟨imdb, himdb, hplain⟩ := hv
  obtain ⟨_, season, episode⟩ := v
  obtain rfl := Option.mem_def.mp himdb
  unfold delete
  rw [sql.reads season episode hplain, Option.map_some]
  simp only [decide_not]

/-- What holds in a run of plain videos: they are prepared only if they are in the table. -/
structure Inv (m : WatchedMarks) : Prop where
  plain : ∀ v ∈ m.prepared, IsPlain v
  marked : ∀ v ∈ m.prepared, v ∈ m.rows
  named : ∀ v ∈ m.rows, v ∈ m.named
  once : m.rows.Nodup

/-- For plain videos the invariant says that the marks are right. -/
theorem inv_iff (hplain : ∀ v ∈ m.prepared, IsPlain v) : m.Inv ↔ m.Right sql := by
  constructor
  · intro h
    exact ⟨fun v hv => (isWatched_iff (hplain v hv)).mpr (h.marked v hv), h.named, h.once⟩
  · intro h
    exact ⟨hplain, fun v hv => (isWatched_iff (hplain v hv)).mp (h.watched v hv), h.named, h.once⟩

/-! ### The events -/

/-- A new row, of a video that may have been prepared. -/
theorem Inv.insert_iff (h : m.Inv) {button : Option (HistoryRow × Bool)}
    {prepared : List HistoryRow}
    (hprepared : ∀ w ∈ prepared, IsPlain w ∧ (w ∈ m.rows ∨ w = v)) :
    Inv ⟨insert m.rows v, button, prepared, v :: m.named⟩ ↔ v ∉ m.rows := by
  have honce : (insert m.rows v).Nodup ↔ v ∉ m.rows := by
    show (m.rows ++ [v]).Nodup ↔ _
    rw [← List.concat_eq_append, List.nodup_concat]
    exact and_iff_left h.once
  rw [← honce]
  refine ⟨Inv.once, fun honce => ⟨fun w hw => (hprepared w hw).1, fun w hw => ?_, ?_, honce⟩⟩
  · obtain hold | rfl := (hprepared w hw).2
    · exact List.mem_append_left _ hold
    · exact List.mem_concat_self
  · intro w hw
    obtain hold | hnew := List.mem_append.mp hw
    · exact List.mem_cons_of_mem _ (h.named w hold)
    · exact List.mem_cons.mpr (.inl (List.mem_singleton.mp hnew))

/-- A prepared video gets a row where the swapped one is not found. -/
theorem onVideoPrepared_eq (hv : IsPlain v) :
    m.onVideoPrepared sql true (some v) =
      { m with
        rows := if ⟨v.imdb, v.episode, v.season⟩ ∈ m.rows then m.rows else insert m.rows v
        prepared := v :: m.prepared
        named := v :: m.named } := by
  obtain ⟨imdb, himdb, hplain⟩ := hv
  obtain ⟨_, season, episode⟩ := v
  obtain rfl := Option.mem_def.mp himdb
  unfold onVideoPrepared
  simp only [isWatched_eq hplain]
  split_ifs with hswapped <;> simp [hswapped]

/-- That is right if the two are both in the table, or both not. -/
theorem inv_onVideoPrepared_iff (h : m.Inv) (hv : IsPlain v) :
    (m.onVideoPrepared sql true (some v)).Inv ↔
      (⟨v.imdb, v.episode, v.season⟩ ∈ m.rows ↔ v ∈ m.rows) := by
  rw [onVideoPrepared_eq hv]
  have hplain : ∀ w ∈ v :: m.prepared, IsPlain w := List.forall_mem_cons.mpr ⟨hv, h.plain⟩
  by_cases hswapped : (⟨v.imdb, v.episode, v.season⟩ : HistoryRow) ∈ m.rows
  · -- no row is made, so there has to be one
    rw [if_pos hswapped]
    constructor
    · intro h'
      exact iff_of_true hswapped (h'.marked v List.mem_cons_self)
    · intro hiff
      exact ⟨hplain, List.forall_mem_cons.mpr ⟨hiff.mp hswapped, h.marked⟩,
        fun w hw => List.mem_cons_of_mem _ (h.named w hw), h.once⟩
  · -- a row is made, so there must be none
    rw [if_neg hswapped, iff_false_left hswapped]
    refine h.insert_iff fun w hw => ⟨hplain w hw, ?_⟩
    obtain rfl | hw := List.mem_cons.mp hw
    · exact .inr rfl
    · exact .inl (h.marked w hw)

/-- The button adds a row without a lookup. -/
theorem inv_check_iff (h : m.Inv) : (m.check v).Inv ↔ v ∉ m.rows :=
  h.insert_iff fun w hw => ⟨h.plain w hw, .inl (h.marked w hw)⟩

/-- Unmarking takes the row and the promise. -/
theorem Inv.uncheck (h : m.Inv) (hv : IsPlain v) : (m.uncheck sql v).Inv := by
  unfold WatchedMarks.uncheck
  rw [delete_eq hv]
  refine ⟨fun w hw => ?_, fun w hw => ?_, fun w hw => ?_, h.once.filter _⟩
  · exact h.plain w (List.mem_filter.mp hw).1
  · obtain ⟨hprepared, hne⟩ := List.mem_filter.mp hw
    exact List.mem_filter.mpr ⟨h.marked w hprepared, hne⟩
  · exact h.named w (List.mem_filter.mp hw).1

/-- **One event** of plain videos keeps the invariant exactly if it meets the guard. -/
theorem inv_next_iff (h : m.Inv) (hplain : m.EventPlain e) (hstep : m.next sql e = some m') :
    m'.Inv ↔ m.MarkGuard e := by
  cases e with
  | onVideoPrepared attached watchInfo =>
    obtain rfl := Option.some.inj hstep
    cases attached with
    | false => exact iff_of_true h nofun
    | true =>
      cases watchInfo with
      | none => exact iff_of_true h nofun
      | some v =>
        rw [inv_onVideoPrepared_iff h (hplain rfl v rfl)]
        simp [MarkGuard]
  | onEpisodes video =>
    obtain rfl := Option.some.inj hstep
    exact iff_of_true ⟨h.plain, h.marked, h.named, h.once⟩ trivial
  | click =>
    obtain ⟨⟨v, checked⟩, hbutton, rfl⟩ := Option.map_eq_some_iff.mp hstep
    have hv : IsPlain v := hplain (v, checked) hbutton
    cases checked with
    | false =>
      show (m.check v).Inv ↔ _
      rw [inv_check_iff h]
      simp [MarkGuard, hbutton]
    | true =>
      refine iff_of_true (h.uncheck hv) ?_
      simp [MarkGuard, hbutton]

/-- **Every run** that meets the guard. -/
theorem inv_of_run (h : (machine sql).RunUnder (fun _ => True) Guard m) : m.Inv := by
  refine h.invariant ?_ ?_
  · rintro _ rfl -
    exact ⟨nofun, nofun, nofun, List.nodup_nil⟩
  · intro m e m' hm hguard hstep
    exact (inv_next_iff hm hguard.1 hstep).mpr hguard.2

/-- A step of plain videos leaves plain ones. -/
theorem plain_next (h : ∀ v ∈ m.prepared, IsPlain v) (hplain : m.EventPlain e)
    (hstep : m.next sql e = some m') : ∀ v ∈ m'.prepared, IsPlain v := by
  cases e with
  | onVideoPrepared attached watchInfo =>
    obtain rfl := Option.some.inj hstep
    cases attached with
    | false => exact h
    | true =>
      cases watchInfo with
      | none => exact h
      | some v => exact List.forall_mem_cons.mpr ⟨hplain rfl v rfl, h⟩
  | onEpisodes video =>
    obtain rfl := Option.some.inj hstep
    exact h
  | click =>
    obtain ⟨⟨v, checked⟩, hbutton, rfl⟩ := Option.map_eq_some_iff.mp hstep
    cases checked with
    | false => exact h
    | true =>
      show ∀ w ∈ (m.uncheck sql v).prepared, IsPlain w
      unfold uncheck
      split
      · exact fun w hw => h w (List.mem_filter.mp hw).1
      · exact h

/-- **The marks.**  In every run whose steps meet the guard they are right in every state, and from
    there a step of plain videos keeps them so exactly if it meets the guard. -/
theorem marksRight_of_guard (sql : HistorySql) (m : WatchedMarks) :
    ((machine sql).RunUnder (fun _ => True) Guard m → m.Right sql) ∧
      ((machine sql).RunUnder (fun _ => True) Guard m → ∀ e m', m.EventPlain e →
        m.next sql e = some m' → (m'.Right sql ↔ m.MarkGuard e)) := by
  refine ⟨fun hrun => ?_, fun hrun e m' hplain hstep => ?_⟩
  · have hinv := inv_of_run hrun
    exact (inv_iff hinv.plain).mp hinv
  · have hinv := inv_of_run hrun
    rw [← inv_iff (plain_next hinv.plain hplain hstep)]
    exact inv_next_iff hinv hplain hstep

end WatchedMarks

/-! ### A reader of the template -/

namespace History

/-- What a decimal number is made of. -/
theorem toList_decimal (n : ℤ) :
    (decimal n).toList =
      if 0 ≤ n then Nat.toDigits 10 n.toNat else '-' :: Nat.toDigits 10 (-n).toNat := by
  unfold decimal
  rw [Int.toString_eq_repr, Int.repr_eq_if]
  split_ifs
  · exact Nat.toList_repr
  · rw [String.toList_append, Nat.toList_repr]
    simp

/-- The digits of a number are digits. -/
theorem isDigit_of_mem {c : Char} {n : ℕ} (h : c ∈ Nat.toDigits 10 n) : c.isDigit = true :=
  Nat.isDigit_of_mem_toDigits (by decide) (by decide) h

/-- They tell natural numbers apart, -/
theorem toDigits_inj {n n' : ℕ} (h : Nat.toDigits 10 n = Nat.toDigits 10 n') : n = n' := by
  rw [← Nat.ofDigitChars_ten_toDigits (n := n), h, Nat.ofDigitChars_ten_toDigits]

/-- A decimal number has neither a quote nor a letter in it. -/
theorem not_mem_decimal {c : Char} (hdigit : c.isDigit = false) (hminus : c ≠ '-') (n : ℤ) :
    c ∉ (decimal n).toList := by
  have hdigits : ∀ k, c ∉ Nat.toDigits 10 k := by
    intro k hc
    rw [isDigit_of_mem hc] at hdigit
    cases hdigit
  rw [toList_decimal]
  split_ifs
  · exact hdigits _
  · rw [List.mem_cons, not_or]
    exact ⟨hminus, hdigits _⟩

/-- and, with the sign, integers. -/
theorem decimal_inj {n n' : ℤ} (h : (decimal n).toList = (decimal n').toList) : n = n' := by
  have hsign : ∀ k k' : ℕ, Nat.toDigits 10 k ≠ '-' :: Nat.toDigits 10 k' := by
    intro k k' h
    have hdigit := isDigit_of_mem (h ▸ List.mem_cons_self : '-' ∈ Nat.toDigits 10 k)
    cases hdigit
  rw [toList_decimal, toList_decimal] at h
  split_ifs at h with hn hn' hn'
  · have := toDigits_inj h
    omega
  · exact absurd h (hsign _ _)
  · exact absurd h.symm (hsign _ _)
  · have := toDigits_inj (List.cons.inj h).2
    omega

/-- A plain text can be told from the filled-in template, and the numbers with it. -/
theorem selection_inj {imdb imdb' : String} {season episode season' episode' : Int32}
    (himdb : IsPlain imdb)
    (h : selection (some imdb) season episode = selection (some imdb') season' episode') :
    imdb = imdb' ∧ season = season' ∧ episode = episode' := by
  -- the quote behind the text is the last one, the `A` behind the season the last of its kind
  let episodeEnd : Int32 → List Char := fun episode =>
    "ND _episode=".toList ++ (decimal episode.toInt).toList
  let seasonEnd : Int32 → Int32 → List Char := fun season episode =>
    (decimal season.toInt).toList ++ [' '] ++ 'A' :: episodeEnd episode
  have htoList : ∀ imdb season episode, (selection (some imdb) season episode).toList =
      "_imdb=\"".toList ++ (imdb.toList ++ '"' :: (" AND _season=".toList ++
        seasonEnd season episode)) := by
    intro imdb season episode
    simp [selection, printed, seasonEnd, episodeEnd]
  have hquote : '"' ∉ imdb.toList := fun hc => (himdb.1 _ hc).1 rfl
  have hbehind : '"' ∉ " AND _season=".toList ++ seasonEnd season episode := by
    simp [seasonEnd, episodeEnd, not_mem_decimal (c := '"') rfl (by decide)]
  have hletter : 'A' ∉ (decimal season.toInt).toList ++ [' '] := by
    simp [not_mem_decimal (c := 'A') rfl (by decide)]
  have hletter' : 'A' ∉ episodeEnd episode := by
    simp [episodeEnd, not_mem_decimal (c := 'A') rfl (by decide)]
  have hlist := congrArg String.toList h
  rw [htoList, htoList, List.append_cancel_left_eq] at hlist
  obtain ⟨himdb', -, hlist⟩ := (List.append_cons_inj_of_notMem hquote hbehind).mp hlist
  rw [List.append_cancel_left_eq] at hlist
  obtain ⟨hseason, -, hepisode⟩ := (List.append_cons_inj_of_notMem hletter hletter').mp hlist
  rw [List.append_cancel_right_eq] at hseason
  rw [List.append_cancel_left_eq] at hepisode
  exact ⟨String.toList_injective himdb', Int32.toInt_inj.mp (decimal_inj hseason),
    Int32.toInt_inj.mp (decimal_inj hepisode)⟩

/-- Every row is compared by what its own template says, where it has an imdb. -/
def byText : HistorySql where
  condition text := some fun r =>
    r.imdb.isSome && decide (text = selection r.imdb r.season r.episode)
  reads season episode himdb := by
    congr 1
    funext ⟨imdb', season', episode'⟩
    cases imdb' with
    | none => simp
    | some imdb' =>
      rw [Option.isSome_some, Bool.true_and, decide_eq_decide]
      constructor
      · intro h
        obtain ⟨rfl, rfl, rfl⟩ := selection_inj himdb h
        rfl
      · rintro ⟨⟩
        rfl

end History

/-- The second episode of the first season is watched twice, the first of the second season then
    once. -/
theorem WatchedMarks.swapped_lookup_marks :
    ∃ m, (machine byText).Reachable m ∧ ¬m.rows.Nodup ∧
      ⟨some "tt1", 2, 1⟩ ∈ m.prepared ∧ isWatched byText m.rows (some "tt1") 2 1 = some false := by
  let second : HistoryRow := ⟨some "tt1", 1, 2⟩
  let other : HistoryRow := ⟨some "tt1", 2, 1⟩
  have hrun : Machine.runEvents (next byText) new
      [.onVideoPrepared true (some second), .onVideoPrepared true (some second),
        .onVideoPrepared true (some other)] =
      some ⟨[second, second], none, [other, second, second], [other, second, second]⟩ := by
    decide +kernel
  refine ⟨_, Machine.Reachable.of_runEvents (.start rfl) hrun, ?_, ?_, ?_⟩
  · decide
  · exact List.mem_cons_self
  · decide +kernel

end PopcornTime.Android
