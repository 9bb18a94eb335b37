import SqlalchemyCubrid.Dialect.ResolveType
import SqlalchemyCubrid.Lib.Dict
import SqlalchemyCubrid.Python.Exception
import Mathlib.Data.List.Infix

/-!
# `get_columns`

The columns of a table are the rows of `SHOW COLUMNS`, each with the comment that
a second query finds in `db_attribute`.  Any failure of the first query is taken
for a missing table, and any failure of the second for missing comments.
-/

namespace SqlalchemyCubrid.Dialect

open Lib Python SqlalchemyCubrid.Types

/-- What `get_columns` reads of a row of `SHOW COLUMNS`. -/
structure ColumnsRow where
  field : Str
  typ : Str
  null : Str
  default : Option Str
  extra : Option Str
  deriving DecidableEq, Repr

structure ReflectedColumn where
  name : Str
  typ : SqlType
  nullable : Bool
  default : Option Str
  autoincrement : Bool
  comment : Option Str
  deriving DecidableEq, Repr

/-- The rows of a query, up to the failure that ends it. -/
structure Fetched (α : Type) where
  rows : List α
  failure : Option PyError

/-- `comment_map` -/
def commentMap (rows : List (Str × Option Str)) : Dict Str (Option Str) :=
  Dict.setAll [] (rows.map fun r => (r.1, truthy r.2))

section Code

variable [UnicodeData]

/-- The loop over the rows. -/
def columnInfo (comments : Dict Str (Option Str)) (row : ColumnsRow) : ReflectedColumn where
  name := row.field
  typ := resolveType row.typ
  nullable := row.null = "YES".toList
  default := row.default
  autoincrement := "auto_increment".toList <:+: row.extra.getD []
  comment := (comments.get? row.field).join

/-- `get_columns`.  `shown` is what comes of `SHOW COLUMNS`, and `comments` of the
query of the comments. -/
def getColumns (shown : Except PyError (List ColumnsRow)) (comments : Fetched (Str × Option Str))
    (tableName : Str) : Except PyError (List ReflectedColumn) :=
  match shown with
  | .error .databaseError => .error (.noSuchTableError tableName)
  | .error e => .error e
  | .ok rows =>
    match comments.failure with
    | none => .ok (rows.map (columnInfo (commentMap comments.rows)))
    | some .databaseError => .ok (rows.map (columnInfo (commentMap comments.rows)))
    | some e => .error e

/-- **The columns are the rows**, whatever the second query does short of raising
something else. -/
theorem getColumns_ok {rows : List ColumnsRow} {comments : Fetched (Str × Option Str)}
    (h : comments.failure = none ∨ comments.failure = some .databaseError) (tableName : Str) :
    getColumns (.ok rows) comments tableName
      = .ok (rows.map (columnInfo (commentMap comments.rows))) := by
  rcases h with h | h
  · rw [getColumns, h]
  · rw [getColumns, h]

end Code

end SqlalchemyCubrid.Dialect
