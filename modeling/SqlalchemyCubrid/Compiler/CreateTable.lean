import SqlalchemyCubrid.Python.Str
import Mathlib.Data.List.Lex

/-!
# Two ways to create a referable table

`CreateTableDontReuseOID(name, *columns)` prints a `CREATE TABLE` of its own from
free-standing columns; `Table(name, metadata, *columns, cubrid_dont_reuse_oid=True)`
goes through SQLAlchemy's table compiler and `post_create_table`.  Both print
columns with `get_column_specification`.

A `TableDecl` is what a statement declares.  `visitCreateTableDontReuseOid_eq` and
`visitCreateTable_eq` write the two texts as the same print of a declaration, up
to layout, and `create_tables_agree_iff` compares the declarations: they agree
exactly when no column is a primary key.
-/

namespace SqlalchemyCubrid.Compiler

open Python

/-! ### Columns -/

inductive Autoincrement where
  | auto
  | ignoreFk
  | yes
  | no
  deriving DecidableEq, Repr

/-- `Column.server_default` -/
inductive ServerDefault where
  | absent
  | identity
  /-- a `DefaultClause`, by its text -/
  | clause (text : Str)
  deriving DecidableEq, Repr

/-- A `Column`.  `typ` is the text its type compiles to, and `integerAffinity`
says whether the type's affinity is `Integer`. -/
structure Column where
  name : Str
  typ : Str
  integerAffinity : Bool
  primaryKey : Bool
  autoincrement : Autoincrement
  hasSequence : Bool
  serverDefault : ServerDefault
  nullable : Bool
  comment : Option Str
  deriving DecidableEq, Repr

/-- How the compiler writes names and string literals. -/
structure DdlPreparer where
  quoteIdentifier : Str → Str
  formatTable : Str → Str
  formatColumn : Str → Str
  renderLiteral : Str → Str

/-- `get_column_default_string` -/
def columnDefaultString (c : Column) : Option Str :=
  match c.serverDefault with
  | .clause text => some text
  | _ => none

/-- The condition for `AUTO_INCREMENT`.  `designated` is `none` for a column with
no table, and otherwise whether the column is the table's
`_autoincrement_column`. -/
def isAutoIncrement (c : Column) (designated : Option Bool) : Bool :=
  !c.hasSequence && c.primaryKey && c.autoincrement != .no && c.integerAffinity
    && (c.serverDefault == .absent || c.serverDefault == .identity)
    && (designated == none || designated == some true)

section Spec

variable (P : DdlPreparer)

def getColumnSpecification (c : Column) (designated : Option Bool) : Str :=
  P.formatColumn c.name ++ " ".toList ++ c.typ
    ++ (if isAutoIncrement c designated then " AUTO_INCREMENT".toList else [])
    ++ (match columnDefaultString c with
      | some d => " DEFAULT ".toList ++ d
      | none => [])
    ++ (if !c.nullable then " NOT NULL".toList else [])
    ++ (match c.comment with
      | some t => " COMMENT ".toList ++ P.renderLiteral t
      | none => [])

/-! ### The two statements -/

/-- `version >= (11, 0)`, with `(0,)` for a version that is not known. -/
def supportsDontReuseOid (version : Option (List Nat)) : Bool := [11, 0] ≤ version.getD [0]

/-- `visit_create_table_dont_reuse_oid` -/
def visitCreateTableDontReuseOid (version : Option (List Nat)) (name : Str)
    (columns : List Column) : Str :=
  "CREATE TABLE ".toList ++ P.quoteIdentifier name ++ " (".toList
    ++ join ", ".toList (columns.map fun c => getColumnSpecification P c none) ++ ")".toList
    ++ (if supportsDontReuseOid version then " DONT_REUSE_OID".toList else [])

/-- A `Table` with the `cubrid_dont_reuse_oid` option and no comment. -/
structure Table where
  name : Str
  columns : List Column
  dontReuseOid : Bool

/-- `post_create_table` -/
def postCreateTable (version : Option (List Nat)) (table : Table) : Str :=
  let opts := if table.dontReuseOid && supportsDontReuseOid version then
    ["DONT_REUSE_OID".toList] else []
  if opts ≠ [] then " ".toList ++ join " ".toList opts else []

variable (autoincrementColumn : List Column → Option Nat)

/-- The columns of the primary key, the autoincrement column first. -/
def primaryKeyColumns (columns : List Column) : List Column :=
  match autoincrementColumn columns with
  | none => columns.filter Column.primaryKey
  | some i =>
    let numbered := columns.zipIdx.filter fun c => c.1.primaryKey
    (numbered.filter fun c => c.2 = i).map Prod.fst
      ++ (numbered.filter fun c => c.2 ≠ i).map Prod.fst

/-- The column specifications of a table's own columns. -/
def tableColumnSpecifications (columns : List Column) : List Str :=
  columns.zipIdx.map fun c =>
    getColumnSpecification P c.1 (some (autoincrementColumn columns = some c.2))

/-- `PRIMARY KEY (..)`, if there is one. -/
def createTableConstraints (keys : List Str) : List Str :=
  if keys ≠ [] then
    ["PRIMARY KEY (".toList ++ join ", ".toList (keys.map P.formatColumn) ++ ")".toList]
  else
    []

/-- SQLAlchemy's `CREATE TABLE`. -/
def visitCreateTable (version : Option (List Nat)) (table : Table) : Str :=
  let elements := tableColumnSpecifications P autoincrementColumn table.columns
    ++ createTableConstraints P
      ((primaryKeyColumns autoincrementColumn table.columns).map Column.name)
  "\nCREATE TABLE ".toList ++ P.formatTable table.name ++ " (".toList
    ++ (if elements ≠ [] then '\n' :: join ", \n".toList (elements.map ('\t' :: ·)) else [])
    ++ "\n)".toList ++ postCreateTable version table ++ "\n\n".toList

end Spec

/-! ### What a statement declares -/

structure ColumnDecl where
  name : Str
  typ : Str
  autoIncrement : Bool
  default : Option Str
  notNull : Bool
  comment : Option Str
  deriving DecidableEq, Repr

structure TableDecl where
  name : Str
  columns : List ColumnDecl
  primaryKey : List Str
  dontReuseOid : Bool
  deriving DecidableEq, Repr

def columnDecl (c : Column) (designated : Option Bool) : ColumnDecl where
  name := c.name
  typ := c.typ
  autoIncrement := isAutoIncrement c designated
  default := columnDefaultString c
  notNull := !c.nullable
  comment := c.comment

def oidTableDecl (version : Option (List Nat)) (name : Str) (columns : List Column) :
    TableDecl where
  name := name
  columns := columns.map fun c => columnDecl c none
  primaryKey := []
  dontReuseOid := supportsDontReuseOid version

def tableDecl (autoincrementColumn : List Column → Option Nat) (version : Option (List Nat))
    (table : Table) : TableDecl where
  name := table.name
  columns := table.columns.zipIdx.map fun c =>
    columnDecl c.1 (some (autoincrementColumn table.columns = some c.2))
  primaryKey := (primaryKeyColumns autoincrementColumn table.columns).map Column.name
  dontReuseOid := table.dontReuseOid && supportsDontReuseOid version

section Print

variable (P : DdlPreparer)

def ColumnDecl.text (d : ColumnDecl) : Str :=
  P.formatColumn d.name ++ " ".toList ++ d.typ
    ++ (if d.autoIncrement then " AUTO_INCREMENT".toList else [])
    ++ (match d.default with
      | some d => " DEFAULT ".toList ++ d
      | none => [])
    ++ (if d.notNull then " NOT NULL".toList else [])
    ++ (match d.comment with
      | some t => " COMMENT ".toList ++ P.renderLiteral t
      | none => [])

/-- How a statement lays its parts out. -/
structure Layout where
  opening : Str
  formatName : Str → Str
  body : List Str → Str
  closing : Str

/-- A declaration in some layout: the columns, the primary key, the option. -/
def TableDecl.text (L : Layout) (d : TableDecl) : Str :=
  L.opening ++ L.formatName d.name ++ " (".toList
    ++ L.body (d.columns.map (ColumnDecl.text P) ++ createTableConstraints P d.primaryKey)
    ++ (if d.dontReuseOid then " DONT_REUSE_OID".toList else []) ++ L.closing

/-- All in one line. -/
def oidLayout : Layout where
  opening := "CREATE TABLE ".toList
  formatName := P.quoteIdentifier
  body elements := join ", ".toList elements ++ ")".toList
  closing := []

/-- A line for each part. -/
def tableLayout : Layout where
  opening := "\nCREATE TABLE ".toList
  formatName := P.formatTable
  body elements :=
    (if elements ≠ [] then '\n' :: join ", \n".toList (elements.map ('\t' :: ·)) else [])
      ++ "\n)".toList
  closing := "\n\n".toList

theorem getColumnSpecification_eq (c : Column) (designated : Option Bool) :
    getColumnSpecification P c designated = (columnDecl c designated).text P := by
  rw [getColumnSpecification, ColumnDecl.text]
  simp only [columnDecl]
  congr 1

/-- **The text of `CreateTableDontReuseOID`.** -/
theorem visitCreateTableDontReuseOid_eq (version : Option (List Nat)) (name : Str)
    (columns : List Column) :
    visitCreateTableDontReuseOid P version name columns
      = (oidTableDecl version name columns).text P (oidLayout P) := by
  have hcols : (columns.map fun c => getColumnSpecification P c none)
      = (columns.map fun c => columnDecl c none).map (ColumnDecl.text P) := by
    simp only [List.map_map, Function.comp_def, getColumnSpecification_eq]
  have hkeys : createTableConstraints P [] = [] := rfl
  unfold visitCreateTableDontReuseOid TableDecl.text oidLayout oidTableDecl
  simp only [hcols, hkeys, List.append_nil, List.append_assoc]

theorem postCreateTable_eq (version : Option (List Nat)) (table : Table) :
    postCreateTable version table
      = if table.dontReuseOid && supportsDontReuseOid version then " DONT_REUSE_OID".toList
        else [] := by
  rw [postCreateTable]
  cases table.dontReuseOid && supportsDontReuseOid version <;> decide

/-- **The text of the `Table`.** -/
theorem visitCreateTable_eq (autoincrementColumn : List Column → Option Nat)
    (version : Option (List Nat)) (table : Table) :
    visitCreateTable P autoincrementColumn version table
      = (tableDecl autoincrementColumn version table).text P (tableLayout P) := by
  have hcols : tableColumnSpecifications P autoincrementColumn table.columns
      = (table.columns.zipIdx.map fun c =>
          columnDecl c.1 (some (autoincrementColumn table.columns = some c.2))).map
            (ColumnDecl.text P) := by
    simp only [tableColumnSpecifications, List.map_map, Function.comp_def,
      getColumnSpecification_eq]
  unfold visitCreateTable TableDecl.text tableLayout tableDecl
  simp only [hcols, postCreateTable_eq, List.append_assoc]

end Print

/-! ### When they agree -/

section Agree

variable {autoincrementColumn : List Column → Option Nat}

theorem isAutoIncrement_of_not_primaryKey {c : Column} (h : c.primaryKey = false)
    (designated : Option Bool) : isAutoIncrement c designated = false := by
  simp [isAutoIncrement, h]

theorem mem_primaryKeyColumns {columns : List Column} {c : Column} :
    c ∈ primaryKeyColumns autoincrementColumn columns ↔ c ∈ columns ∧ c.primaryKey = true := by
  rw [primaryKeyColumns]
  cases autoincrementColumn columns with
  | none => exact List.mem_filter
  | some i =>
    have hzip : c ∈ columns ↔ ∃ n, (c, n) ∈ columns.zipIdx := by
      conv_lhs => rw [← List.zipIdx_map_fst 0 columns]
      rw [List.mem_map]
      constructor
      · rintro ⟨⟨d, n⟩, hd, rfl⟩
        exact ⟨n, hd⟩
      · rintro ⟨n, hn⟩
        exact ⟨(c, n), hn, rfl⟩
    show c ∈ _ ++ _ ↔ _
    rw [List.mem_append, List.mem_map, List.mem_map, hzip]
    constructor
    · rintro (⟨⟨d, n⟩, hd, rfl⟩ | ⟨⟨d, n⟩, hd, rfl⟩)
      · obtain ⟨hn, hp⟩ := List.mem_filter.mp (List.mem_filter.mp hd).1
        exact ⟨⟨n, hn⟩, hp⟩
      · obtain ⟨hn, hp⟩ := List.mem_filter.mp (List.mem_filter.mp hd).1
        exact ⟨⟨n, hn⟩, hp⟩
    · rintro ⟨⟨n, hn⟩, hp⟩
      have hmem : (c, n) ∈ columns.zipIdx.filter fun c => c.1.primaryKey :=
        List.mem_filter.mpr ⟨hn, hp⟩
      by_cases hni : n = i
      · exact Or.inl ⟨(c, n), List.mem_filter.mpr ⟨hmem, by simpa using hni⟩, rfl⟩
      · exact Or.inr ⟨(c, n), List.mem_filter.mpr ⟨hmem, by simpa using hni⟩, rfl⟩

theorem tableDecl_eq_iff (autoincrementColumn : List Column → Option Nat)
    (version : Option (List Nat)) (name : Str) (columns : List Column) :
    oidTableDecl version name columns = tableDecl autoincrementColumn version ⟨name, columns, true⟩
      ↔ ∀ c ∈ columns, c.primaryKey = false := by
  constructor
  · intro h c hc
    have hkeys : [] = (primaryKeyColumns autoincrementColumn columns).map Column.name :=
      congrArg TableDecl.primaryKey h
    rw [eq_comm, List.map_eq_nil_iff] at hkeys
    cases hp : c.primaryKey with
    | false => rfl
    | true =>
      have hmem : c ∈ primaryKeyColumns autoincrementColumn columns :=
        mem_primaryKeyColumns.mpr ⟨hc, hp⟩
      rw [hkeys] at hmem
      exact absurd hmem List.not_mem_nil
  · intro h
    have hkeys : primaryKeyColumns autoincrementColumn columns = [] := by
      rw [List.eq_nil_iff_forall_not_mem]
      intro c hc
      obtain ⟨hmem, hp⟩ := mem_primaryKeyColumns.mp hc
      exact Bool.false_ne_true ((h c hmem).symm.trans hp)
    have hcols : (columns.map fun c => columnDecl c none)
        = columns.zipIdx.map fun c =>
            columnDecl c.1 (some (autoincrementColumn columns = some c.2)) := by
      conv_lhs => rw [← List.zipIdx_map_fst 0 columns, List.map_map]
      apply List.map_congr_left
      intro c hc
      have hmem : c.1 ∈ columns := by
        rw [← List.zipIdx_map_fst 0 columns]
        exact List.mem_map_of_mem hc
      have hp := h c.1 hmem
      show columnDecl c.1 none = columnDecl c.1 _
      rw [columnDecl, columnDecl, isAutoIncrement_of_not_primaryKey hp,
        isAutoIncrement_of_not_primaryKey hp]
    rw [oidTableDecl, tableDecl, hkeys, hcols]
    rfl

end Agree

/-- **The two statements declare the same table exactly when no column is a
primary key.** -/
theorem create_tables_agree_iff (P : DdlPreparer)
    (autoincrementColumn : List Column → Option Nat) (version : Option (List Nat)) (name : Str)
    (columns : List Column) :
    let oid := oidTableDecl version name columns
    let table := tableDecl autoincrementColumn version ⟨name, columns, true⟩
    visitCreateTableDontReuseOid P version name columns = oid.text P (oidLayout P) ∧
      visitCreateTable P autoincrementColumn version ⟨name, columns, true⟩
        = table.text P (tableLayout P) ∧
      (oid = table ↔ ∀ c ∈ columns, c.primaryKey = false) := by
  intro oid table
  have hoid := visitCreateTableDontReuseOid_eq P version name columns
  have htable := visitCreateTable_eq P autoincrementColumn version ⟨name, columns, true⟩
  exact ⟨hoid, htable, tableDecl_eq_iff autoincrementColumn version name columns⟩

def plainDdlPreparer : DdlPreparer := ⟨id, id, id, id⟩

/-- `Column("id", Integer, primary_key=True)` -/
def idColumn : Column where
  name := "id".toList
  typ := "INTEGER".toList
  integerAffinity := true
  primaryKey := true
  autoincrement := .auto
  hasSequence := false
  serverDefault := .absent
  nullable := false
  comment := none

/-- `Column("name", String(50))` -/
def nameColumn : Column where
  name := "name".toList
  typ := "VARCHAR(50)".toList
  integerAffinity := false
  primaryKey := false
  autoincrement := .auto
  hasSequence := false
  serverDefault := .absent
  nullable := true
  comment := none

/-- **The primary key of `person` is lost** by `CreateTableDontReuseOID`. -/
theorem create_table_loses_primary_key :
    let columns := [idColumn, nameColumn]
    visitCreateTableDontReuseOid plainDdlPreparer (some [11, 0]) "person".toList columns
        = ("CREATE TABLE person (id INTEGER AUTO_INCREMENT NOT NULL, name VARCHAR(50))"
          ++ " DONT_REUSE_OID").toList ∧
      visitCreateTable plainDdlPreparer (fun _ => some 0) (some [11, 0])
          ⟨"person".toList, columns, true⟩
        = ("\nCREATE TABLE person (\n\tid INTEGER AUTO_INCREMENT NOT NULL, \n\tname VARCHAR(50), "
          ++ "\n\tPRIMARY KEY (id)\n) DONT_REUSE_OID\n\n").toList ∧
      oidTableDecl (some [11, 0]) "person".toList columns
        ≠ tableDecl (fun _ => some 0) (some [11, 0]) ⟨"person".toList, columns, true⟩ := by
  intro columns
  refine ⟨by decide +kernel, by decide +kernel, ?_⟩
  intro h
  have hkeys : ([] : List Str) = ["id".toList] := congrArg TableDecl.primaryKey h
  exact absurd hkeys (by decide)

end SqlalchemyCubrid.Compiler
