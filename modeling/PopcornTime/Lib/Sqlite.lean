import Mathlib.Data.List.Basic
import Mathlib.Logic.Function.Basic
import Mathlib.Tactic.Linarith
import Mathlib.Tactic.SplitIfs

namespace PopcornTime

/-!
# Tables as SQLite keeps them

A database maps table names to tables, a table is its columns and its rows in rowid order, and a
row maps column names to values; a column a table does not have reads as NULL.  The operations
are the statements programs issue: `createTable`, `addColumn`, `renameTable`, `dropTable`,
`insertSelect`, and on one table `insert`, `updateWhere` and `deleteWhere`.  A statement that
SQLite refuses is an `SqlError`.

* `Row.put` — assigning several columns; `Row.restrict` — keeping some.
* `addColumn_eq` and `addColumn_error_of_mem` — adding a column fails exactly where the column is
  there already.
-/

namespace Sqlite

/-- A value.  A REAL is kept as the text SQLite renders it as. -/
inductive Value
  | null
  | integer (n : ℤ)
  | real (rendered : String)
  | text (s : String)
  | blob (bytes : List UInt8)
deriving DecidableEq, Repr

/-- The type a column is declared with. -/
inductive ColumnType
  | integerPrimaryKey
  | integer
  | real
  | text
  | blob
deriving DecidableEq, Repr

namespace Value

/-- A text that may be missing. -/
def ofText : Option String → Value
  | none => .null
  | some s => .text s

/-- A number that may be missing. -/
def ofInteger : Option ℤ → Value
  | none => .null
  | some n => .integer n

/-- Bytes that may be missing. -/
def ofBlob : Option (List UInt8) → Value
  | none => .null
  | some bytes => .blob bytes

end Value

/-- Equality under the collation NOCASE, which folds ASCII letters only. -/
def nocaseEq (s s' : String) : Bool :=
  s.toList.map Char.toLower == s'.toList.map Char.toLower

/-- Why a statement fails. -/
inductive SqlError
  | noSuchTable
  | tableExists
  | duplicateColumn
  | noSuchColumn
deriving DecidableEq, Repr

set_option linter.unusedSectionVars false

variable {τ κ : Type*} [DecidableEq τ] [DecidableEq κ]

/-- A row. -/
abbrev Row (κ : Type*) := κ → Value

namespace Row

/-- `SET` of several columns; a later assignment wins. -/
def put (r : Row κ) (values : List (κ × Value)) : Row κ :=
  values.foldl (fun r cv => Function.update r cv.1 cv.2) r

@[simp] theorem put_cons (r : Row κ) (c : κ) (v : Value) (values : List (κ × Value)) :
    r.put ((c, v) :: values) = Row.put (Function.update r c v) values := rfl

/-- The row that has the given columns only. -/
def restrict (r : Row κ) (columns : List κ) : Row κ :=
  fun c => if c ∈ columns then r c else .null

end Row

/-- A table: its columns in order and its rows in rowid order. -/
structure Table (κ : Type*) where
  columns : List (κ × ColumnType)
  rows : List (Row κ)

namespace Table

def columnNames (t : Table κ) : List κ :=
  t.columns.map Prod.fst

/-- `INSERT INTO t` of a row with a new largest rowid. -/
def insert (t : Table κ) (r : Row κ) : Table κ :=
  { t with rows := t.rows ++ [r] }

/-- `UPDATE t SET values WHERE p` -/
def updateWhere (t : Table κ) (p : Row κ → Bool) (values : List (κ × Value)) : Table κ :=
  { t with rows := t.rows.map (fun r => if p r then r.put values else r) }

/-- `DELETE FROM t WHERE p` -/
def deleteWhere (t : Table κ) (p : Row κ → Bool) : Table κ :=
  { t with rows := t.rows.filter (fun r => !p r) }

/-- A further column, NULL in every row. -/
def addColumn (t : Table κ) (column : κ) (type : ColumnType) : Table κ where
  columns := t.columns ++ [(column, type)]
  rows := t.rows.map (fun r => Function.update r column .null)

@[simp] theorem addColumn_columns (t : Table κ) (column : κ) (type : ColumnType) :
    (t.addColumn column type).columns = t.columns ++ [(column, type)] := rfl

@[simp] theorem addColumn_rows (t : Table κ) (column : κ) (type : ColumnType) :
    (t.addColumn column type).rows = t.rows.map (fun r => Function.update r column .null) := rfl

@[simp] theorem addColumn_columnNames (t : Table κ) (column : κ) (type : ColumnType) :
    (t.addColumn column type).columnNames = t.columnNames ++ [column] := by
  simp [columnNames]

end Table

/-! ### Databases -/

/-- A database. -/
abbrev Database (τ κ : Type*) := τ → Option (Table κ)

namespace Database

/-- `CREATE TABLE` -/
def createTable (db : Database τ κ) (name : τ) (columns : List (κ × ColumnType)) :
    Except SqlError (Database τ κ) :=
  match db name with
  | some _ => .error .tableExists
  | none => .ok (Function.update db name (some ⟨columns, []⟩))

/-- `DROP TABLE` -/
def dropTable (db : Database τ κ) (name : τ) : Except SqlError (Database τ κ) :=
  match db name with
  | some _ => .ok (Function.update db name none)
  | none => .error .noSuchTable

/-- `ALTER TABLE name RENAME TO name'` -/
def renameTable (db : Database τ κ) (name name' : τ) : Except SqlError (Database τ κ) :=
  match db name, db name' with
  | none, _ => .error .noSuchTable
  | some _, some _ => .error .tableExists
  | some t, none => .ok (Function.update (Function.update db name none) name' (some t))

/-- `ALTER TABLE name ADD COLUMN column type`: the new column is NULL in every row. -/
def addColumn (db : Database τ κ) (name : τ) (column : κ) (type : ColumnType) :
    Except SqlError (Database τ κ) :=
  match db name with
  | none => .error .noSuchTable
  | some t =>
    if column ∈ t.columnNames then .error .duplicateColumn
    else .ok (Function.update db name (some (t.addColumn column type)))

/-- `INSERT INTO name (columns) SELECT columns FROM source` -/
def insertSelect (db : Database τ κ) (name source : τ) (columns : List κ) :
    Except SqlError (Database τ κ) :=
  match db name, db source with
  | some t, some s =>
    if columns.all (fun c => decide (c ∈ t.columnNames ∧ c ∈ s.columnNames)) then
      .ok (Function.update db name (some
        { t with rows := t.rows ++ s.rows.map (Row.restrict · columns) }))
    else .error .noSuchColumn
  | _, _ => .error .noSuchTable

/-- `UPDATE name SET values WHERE p` -/
def update (db : Database τ κ) (name : τ) (p : Row κ → Bool) (values : List (κ × Value)) :
    Except SqlError (Database τ κ) :=
  match db name with
  | none => .error .noSuchTable
  | some t => .ok (Function.update db name (some (t.updateWhere p values)))

variable {db db' : Database τ κ} {name name' : τ} {t : Table κ}

theorem createTable_eq (h : db name = none) (columns : List (κ × ColumnType)) :
    db.createTable name columns = .ok (Function.update db name (some ⟨columns, []⟩)) := by
  unfold createTable
  rw [h]

/-- What a created table looks like. -/
theorem createTable_of_ok {columns : List (κ × ColumnType)}
    (h : db.createTable name columns = .ok db') : db' name = some ⟨columns, []⟩ := by
  unfold createTable at h
  split at h
  · cases h
  · rw [Except.ok.injEq] at h
    rw [← h, Function.update_self]

/-- `DROP TABLE` leaves the other tables as they are. -/
theorem dropTable_of_ne (h : db.dropTable name = .ok db') (hne : name' ≠ name) :
    db' name' = db name' := by
  unfold dropTable at h
  split at h
  · rw [Except.ok.injEq] at h
    rw [← h, Function.update_of_ne hne]
  · cases h

/-- `INSERT INTO … SELECT` leaves the columns as they are. -/
theorem columns_of_insertSelect {source : τ} {columns : List κ}
    (h : db.insertSelect name source columns = .ok db') (ht : db name = some t) :
    ∃ t', db' name = some t' ∧ t'.columns = t.columns := by
  unfold insertSelect at h
  rw [ht] at h
  cases hs : db source with
  | none => simp [hs] at h
  | some s =>
    simp only [hs] at h
    split_ifs at h
    rw [Except.ok.injEq] at h
    rw [← h, Function.update_self]
    exact ⟨_, rfl, rfl⟩

/-- `UPDATE` leaves the columns of every table as they are. -/
theorem columns_of_update {p : Row κ → Bool} {values : List (κ × Value)}
    (h : db.update name p values = .ok db') (ht : db name' = some t) :
    ∃ t', db' name' = some t' ∧ t'.columns = t.columns := by
  unfold update at h
  cases ht₀ : db name with
  | none => simp [ht₀] at h
  | some t₀ =>
    rw [ht₀, Except.ok.injEq] at h
    subst h
    by_cases hname : name' = name
    · subst hname
      rw [ht, Option.some.injEq] at ht₀
      exact ⟨_, Function.update_self _ _ _, by rw [ht₀]; rfl⟩
    · exact ⟨t, by rw [Function.update_of_ne hname, ht], rfl⟩

/-- A new column in a table without it. -/
theorem addColumn_eq (h : db name = some t) {column : κ} (hnew : column ∉ t.columnNames)
    (type : ColumnType) :
    db.addColumn name column type
      = .ok (Function.update db name (some (t.addColumn column type))) := by
  unfold addColumn
  rw [h]
  exact if_neg hnew

/-- **Adding a column twice.**  The statement is refused where the column is there already. -/
theorem addColumn_error_of_mem (h : db name = some t) {column : κ}
    (hold : column ∈ t.columnNames) (type : ColumnType) :
    db.addColumn name column type = .error .duplicateColumn := by
  unfold addColumn
  rw [h]
  exact if_pos hold

end Database

end Sqlite

end PopcornTime
