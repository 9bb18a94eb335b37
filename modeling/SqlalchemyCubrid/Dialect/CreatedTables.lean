import SqlalchemyCubrid.Compiler.TableStatement
import SqlalchemyCubrid.Dialect.Comments
import SqlalchemyCubrid.Dialect.Reflection

/-!
# Tables that were created

An application creates tables with the three constructs and asks for their columns,
their comments, their parents and children, and which columns are inherited or refer
to a class.  A server reads each statement and stores the table, with the columns of
its parents in front.

What the calls are for is a `Schema`: the tables as the attributes of the constructs
and their columns declare them.  `created_runs_agree` says that in any run every
statement is read as the table that is meant, the tables are those of the schema,
and the questions are answered from it: a column comes back with its name, its
nullability, its numbering and its comment, for good, and to the children of its
table, at any depth with the class that declares it.
-/

namespace SqlalchemyCubrid.Dialect

open Lib Lib.Sql Python SqlalchemyCubrid.Compiler SqlalchemyCubrid.Types

/-! ### The server -/

/-- How a server shows types and defaults, and what else it checks of a table. -/
structure TableServer where
  showType : List Token → Str
  showDefault : List Token → Option Str
  accepts : CreatedTable → Bool

/-- A column, with the class that declares it and the class it refers to. -/
structure StoredColumn where
  row : ColumnsRow
  comment : Option Str
  origin : Str
  reference : Option Str

def StoredColumn.field (c : StoredColumn) : Str := c.row.field

/-- A table, whose columns have different names. -/
structure StoredTable where
  name : Str
  parents : List Str
  columns : List StoredColumn
  primaryKey : List Str
  dontReuseOid : Bool
  comment : Option Str
  nodup_fields : (columns.map StoredColumn.field).Nodup

/-- The tables of a server, which have different names. -/
structure TableStore where
  tables : List StoredTable
  nodup_names : (tables.map StoredTable.name).Nodup

def ColumnOption.defaultValue : ColumnOption → Option (List Token)
  | .default ts => some ts
  | _ => none

def ColumnOption.commentText : ColumnOption → Option Str
  | .comment s => some s
  | _ => none

def TableOption.commentText : TableOption → Option Str
  | .comment s => some s
  | .dontReuseOid => none

def TableElement.column? : TableElement → Option CreatedColumn
  | .column c => some c
  | .primaryKey _ => none

def TableElement.keys : TableElement → List Str
  | .column _ => []
  | .primaryKey names => names

section Server

variable [UnicodeData] (S : TableServer)

/-- The class that a type is the name of. -/
def referencedClass (classes : List Str) (typ : List Token) : Option Str :=
  (ident typ).bind fun r =>
    if skip r.2 = [] ∧ lower r.1 ∈ classes then some (lower r.1) else none

/-- The bare name of a class, as `CubridOID` prints it, refers to the class. -/
theorem referencedClass_plainName (classes : List Str) {n : Str} (h : isPlainName n) :
    referencedClass classes (trim (tokensOf n))
      = if lower n ∈ classes then some (lower n) else none := by
  have htokens : trim (tokensOf n) = [.word n] := by
    rw [tokensOf, lex_plainName h]
    rfl
  have hident : ident [.word n] = some (n, []) := by
    show (identifier (.word n)).map _ = _
    rw [identifier_word h]
    rfl
  rw [htokens, referencedClass, hident, Option.bind_some]
  exact if_congr (and_iff_right rfl) rfl rfl

/-- A column is not null if it or the primary key says so. -/
def storedColumn (classes : List Str) (own : Str) (keys : List Str) (c : CreatedColumn) :
    StoredColumn where
  row :=
    { field := lower c.name
      typ := S.showType c.typ
      null := if .notNull ∈ c.options ∨ lower c.name ∈ keys.map lower then "NO".toList
        else "YES".toList
      default := (c.options.findSome? ColumnOption.defaultValue).bind S.showDefault
      extra := if .autoIncrement ∈ c.options then some "auto_increment".toList else none }
  comment := c.options.findSome? ColumnOption.commentText
  origin := own
  reference := referencedClass classes c.typ

/-- The columns of the parents, and its own. -/
def storedColumns (classes : List Str) (parents : List StoredTable) (t : CreatedTable) :
    List StoredColumn :=
  parents.flatMap StoredTable.columns ++ (t.elements.filterMap TableElement.column?).map
    (storedColumn S classes (lower t.name) (t.elements.flatMap TableElement.keys))

/-- The table a statement makes, unless two columns have one name.  A column may
refer to the table itself. -/
def storedTable (classes : List Str) (parents : List StoredTable) (t : CreatedTable) :
    Option StoredTable :=
  if h : ((storedColumns S (lower t.name :: classes) parents t).map StoredColumn.field).Nodup then
    some
      { name := lower t.name
        parents := t.parents.map lower
        columns := storedColumns S (lower t.name :: classes) parents t
        primaryKey := (t.elements.flatMap TableElement.keys).map lower
        dontReuseOid := .dontReuseOid ∈ t.options
        comment := t.options.findSome? TableOption.commentText
        nodup_fields := h }
  else none

namespace TableStore

/-- The table of a name. -/
def table? (store : TableStore) (name : Str) : Option StoredTable :=
  store.tables.find? fun t => t.name = name

omit [UnicodeData] in
theorem table?_eq_none_iff {store : TableStore} {name : Str} :
    store.table? name = none ↔ name ∉ store.tables.map StoredTable.name := by
  rw [table?, List.find?_eq_none, List.mem_map, not_exists]
  simp only [decide_eq_true_eq, not_and]

/-- One more table, of a name that is free. -/
def add (store : TableStore) (t : StoredTable) (h : store.table? t.name = none) :
    TableStore where
  tables := store.tables ++ [t]
  nodup_names := by
    rw [List.map_append, List.map_singleton]
    exact store.nodup_names.append (List.nodup_singleton _)
      (List.disjoint_singleton.mpr (table?_eq_none_iff.mp h))

end TableStore

/-- What the server does with a statement: a name that is taken and a parent that is
missing are errors, too. -/
def storeTable (store : TableStore) (t : CreatedTable) : Option TableStore := do
  let parents ← t.parents.mapM fun p => store.table? (lower p)
  let stored ← storedTable S (store.tables.map StoredTable.name) parents t
  if h : store.table? stored.name = none ∧ S.accepts t then some (store.add stored h.1) else none

/-! ### The questions -/

/-- The rows of `db_class` and of `SHOW COLUMNS`. -/
def StoredTable.relation (t : StoredTable) : Relation where
  row := ⟨t.name, .no, "CLASS".toList⟩
  columns := t.columns.map StoredColumn.row

/-- The rows of `db_attribute`.  A column that is inherited comes from the class that
declares it. -/
def StoredTable.attributes (t : StoredTable) : List DbAttribute :=
  t.columns.mapIdx fun i c =>
    { className := t.name
      attrName := c.field
      domainClassName := c.reference
      fromClassName := if c.origin = t.name then none else some c.origin
      defOrder := i }

def TableStore.relations (store : TableStore) : List Relation :=
  store.tables.map StoredTable.relation

/-- The comments in the catalog. -/
def TableStore.comments (store : TableStore) : CommentStore
  | .table n => (store.table? n).bind StoredTable.comment
  | .column n c => (store.table? n).bind fun t =>
    (Dict.get? (t.columns.map fun d => (d.field, d.comment)) c).join

/-- The catalog, as far as it is about classes. -/
def TableStore.database (store : TableStore) : Database where
  catalog := ⟨store.relations.map Relation.row, [], []⟩
  dbVclass := []
  directSuperClass := store.tables.flatMap fun t => t.parents.map fun p => ⟨t.name, p⟩
  dbAttribute := store.tables.flatMap StoredTable.attributes

/-- The arguments of the compiler that the metadata and the connection give. -/
structure CompilerContext where
  quoter : NameQuoter
  autoincrementColumn : List Column → Option Nat
  version : Option (List Nat)

/-- What the application does. -/
inductive TableCall (C : CompilerContext) where
  | create (s : TableConstruct) (h : s.Expressible C.autoincrementColumn)
  | getColumns (tableName : Str)
  | getTableComment (tableName : Str)
  | getSuperClassName (tableName : Str)
  | getSubClassNames (tableName : Str)
  | getInheritedColumns (tableName : Str)
  | getOidColumns (tableName : Str)

inductive TableAnswer where
  | done
  | columns (l : List ReflectedColumn)
  | comment (text : Option Str)
  | superClassName (name : Option Str)
  | subClassNames (l : List Str)
  | inheritedColumns (l : List InheritedColumn)
  | oidColumns (l : List OidReference)

variable {C : CompilerContext}

def tableMachine (C : CompilerContext) :
    Machine TableStore (TableCall C) (Except PyError TableAnswer) where
  step store
    | .create s _ =>
      let text := s.text C.quoter.ddlPreparer C.autoincrementColumn C.version
      ((parseCreate text).bind (storeTable S store)).elim (.error .databaseError, store)
        fun store => (.ok .done, store)
    | .getColumns t =>
      ((getColumns (showColumns store.relations t)
        ⟨commentRows store.relations store.comments t, none⟩ t).map .columns, store)
    | .getTableComment t =>
      ((getTableComment store.relations store.comments t).map .comment, store)
    | .getSuperClassName t => (.ok (.superClassName (getSuperClassName store.database t)), store)
    | .getSubClassNames t => (.ok (.subClassNames (getSubClassNames store.database t)), store)
    | .getInheritedColumns t =>
      (.ok (.inheritedColumns (getInheritedColumns store.database t)), store)
    | .getOidColumns t => (.ok (.oidColumns (getOidColumns store.database t)), store)

/-! ### What the calls are for -/

/-- A column as it is declared, with the class that declares it and the class that
its type names. -/
structure DeclaredColumn where
  column : ReflectedColumn
  origin : Str
  reference : Option Str

/-- A table as it is declared. -/
structure Declared where
  name : Str
  parents : List Str
  columns : List DeclaredColumn
  primaryKey : List Str
  dontReuseOid : Bool
  comment : Option Str

/-- The columns, with the class each is inherited from. -/
def Declared.inheritedColumns (d : Declared) : List InheritedColumn :=
  d.columns.mapIdx fun i c =>
    ⟨c.column.name, if c.origin = d.name then none else some c.origin, i⟩

/-- The columns that refer to a class. -/
def Declared.oidColumns (d : Declared) : List OidReference :=
  (d.columns.filter fun c => c.reference ≠ none ∧ c.reference ≠ some []).map fun c =>
    ⟨c.column.name, c.reference⟩

abbrev Schema := List Declared

/-- The table of a name. -/
def Schema.table? (schema : Schema) (name : Str) : Option Declared :=
  List.find? (fun d => d.name = name) schema

/-- The children of a table, in the order of their names. -/
def Schema.children (schema : Schema) (name : Str) : List Str :=
  let links := List.flatMap (fun d => d.parents.map fun p => (d.name, p)) schema
  orderBy id ((links.filter fun r => r.2 = name).map Prod.fst)

/-- A column as its attributes declare it; a column of the key is not null. -/
def declaredColumn (classes : List Str) (own : Str) (keys : List Str) (c : Column × Option Bool) :
    DeclaredColumn where
  column :=
    { name := lower c.1.name
      typ := resolveType (S.showType (trim (tokensOf c.1.typ)))
      nullable := c.1.nullable ∧ lower c.1.name ∉ keys.map lower
      default := c.1.serverDefault.text?.bind fun d => S.showDefault (trim (tokensOf d))
      autoincrement := isNumbered c
      comment := truthy c.1.comment }
  origin := own
  reference := referencedClass classes (trim (tokensOf c.1.typ))

variable (C) in
/-- The table a construct declares: the columns of the parents, and its own. -/
def declaredOf (classes : List Str) (parents : List Declared) (s : TableConstruct) :
    Declared where
  name := lower s.name
  parents := s.parents.map lower
  columns := parents.flatMap Declared.columns
    ++ (s.columns C.autoincrementColumn).map
      (declaredColumn S classes (lower s.name) (s.declaredKey C.autoincrementColumn))
  primaryKey := (s.declaredKey C.autoincrementColumn).map lower
  dontReuseOid := s.keepsOid ∧ [11, 0] ≤ C.version.getD [0]
  comment := truthy s.comment

variable (C) in
def Schema.create (schema : Schema) (s : TableConstruct) : Option Schema := do
  let parents ← s.parents.mapM fun p => schema.table? (lower p)
  let declared := declaredOf S C (lower s.name :: schema.map Declared.name) parents s
  if (declared.columns.map fun c => c.column.name).Nodup ∧ schema.table? declared.name = none ∧
      S.accepts (s.meant C.autoincrementColumn C.version) then
    some (schema ++ [declared])
  else none

def schemaMachine (C : CompilerContext) :
    Machine Schema (TableCall C) (Except PyError TableAnswer) where
  step schema
    | .create s _ =>
      (schema.create S C s).elim (.error .databaseError, schema) fun schema => (.ok .done, schema)
    | .getColumns t =>
      ((schema.table? (lower t)).elim (.error (.noSuchTableError t)) fun d =>
        .ok (.columns (d.columns.map DeclaredColumn.column)), schema)
    | .getTableComment t =>
      ((schema.table? (lower t)).elim (.error (.noSuchTableError t)) fun d =>
        .ok (.comment d.comment), schema)
    | .getSuperClassName t =>
      (.ok (.superClassName ((schema.table? (lower t)).bind fun d => d.parents.head?)), schema)
    | .getSubClassNames t => (.ok (.subClassNames (schema.children (lower t))), schema)
    | .getInheritedColumns t =>
      (.ok (.inheritedColumns ((schema.table? (lower t)).elim [] Declared.inheritedColumns)),
        schema)
    | .getOidColumns t =>
      (.ok (.oidColumns ((schema.table? (lower t)).elim [] Declared.oidColumns)), schema)

/-! ### One column -/

omit [UnicodeData] in
theorem options_meant (c : Column × Option Bool) :
    (.autoIncrement ∈ (meantColumn c).options ↔ isNumbered c = true) ∧
      (.notNull ∈ (meantColumn c).options ↔ c.1.nullable = false) ∧
      (meantColumn c).options.findSome? ColumnOption.defaultValue
        = c.1.serverDefault.text?.map (fun d => trim (tokensOf d)) ∧
      (meantColumn c).options.findSome? ColumnOption.commentText = c.1.comment := by
  unfold meantColumn
  refine ⟨?_, ?_, ?_, ?_⟩
  · cases isNumbered c <;> cases c.1.serverDefault.text? <;> cases c.1.nullable <;>
      cases c.1.comment <;> simp
  · cases isNumbered c <;> cases c.1.serverDefault.text? <;> cases c.1.nullable <;>
      cases c.1.comment <;> simp
  · cases isNumbered c <;> cases c.1.serverDefault.text? <;> cases c.1.nullable <;>
      cases c.1.comment <;> rfl
  · cases isNumbered c <;> cases c.1.serverDefault.text? <;> cases c.1.nullable <;>
      cases c.1.comment <;> rfl

/-- What the questions about a column say of it. -/
def reflectStored (c : StoredColumn) : DeclaredColumn where
  column := { columnInfo [] c.row with comment := truthy c.comment }
  origin := c.origin
  reference := c.reference

/-- **A column comes back as it was declared.** -/
theorem reflectStored_meant (classes : List Str) (own : Str) (keys : List Str)
    (c : Column × Option Bool) :
    reflectStored (storedColumn S classes own keys (meantColumn c))
      = declaredColumn S classes own keys c := by
  obtain ⟨hauto, hnull, hdefault, hcomment⟩ := options_meant c
  have hnullable : ((if .notNull ∈ (meantColumn c).options
      ∨ lower (meantColumn c).name ∈ keys.map lower then "NO".toList else "YES".toList)
        = "YES".toList) ↔ c.1.nullable = true ∧ lower c.1.name ∉ keys.map lower := by
    have hname : (meantColumn c).name = c.1.name := rfl
    simp only [hnull, hname]
    by_cases hkey : lower c.1.name ∈ keys.map lower
    · simp [hkey]
    · cases c.1.nullable <;> simp [hkey]
  have hextra : "auto_increment".toList <:+: ((if .autoIncrement ∈ (meantColumn c).options then
      some "auto_increment".toList else none).getD []) ↔ isNumbered c = true := by
    simp only [hauto]
    cases isNumbered c with
    | true => exact iff_of_true (List.infix_refl _) rfl
    | false => exact iff_of_false (by decide) Bool.false_ne_true
  rw [reflectStored, columnInfo, declaredColumn, storedColumn]
  simp only [DeclaredColumn.mk.injEq, ReflectedColumn.mk.injEq, hdefault, hcomment,
    decide_eq_decide]
  refine ⟨⟨rfl, rfl, hnullable, ?_, ?_, trivial⟩, trivial, rfl⟩
  · cases c.1.serverDefault.text? <;> rfl
  · simp only [hextra, Bool.decide_eq_true]

/-! ### One table -/

/-- What the questions about a table say of it. -/
def StoredTable.declared (t : StoredTable) : Declared where
  name := t.name
  parents := t.parents
  columns := t.columns.map reflectStored
  primaryKey := t.primaryKey
  dontReuseOid := t.dontReuseOid
  comment := truthy t.comment

omit [UnicodeData] in
theorem elements_meant (s : TableConstruct) :
    (s.meant C.autoincrementColumn C.version).elements.filterMap TableElement.column?
        = (s.columns C.autoincrementColumn).map meantColumn ∧
      (s.meant C.autoincrementColumn C.version).elements.flatMap TableElement.keys
        = s.declaredKey C.autoincrementColumn := by
  rw [TableConstruct.meant]
  simp only [List.filterMap_append, List.flatMap_append]
  have hcolumns : ((s.columns C.autoincrementColumn).map fun c =>
      TableElement.column (meantColumn c)).filterMap TableElement.column?
        = (s.columns C.autoincrementColumn).map meantColumn := by
    rw [List.filterMap_map]
    exact congrFun List.filterMap_eq_map _
  have hkeys : ((s.columns C.autoincrementColumn).map fun c =>
      TableElement.column (meantColumn c)).flatMap TableElement.keys = [] := by
    rw [List.flatMap_map, List.flatMap_eq_nil_iff]
    intro c _
    rfl
  rw [hcolumns, hkeys]
  by_cases hnil : s.declaredKey C.autoincrementColumn = []
  · rw [if_pos hnil, hnil]
    exact ⟨List.append_nil _, rfl⟩
  · rw [if_neg hnil]
    exact ⟨List.append_nil _, List.append_nil _⟩

omit [UnicodeData] in
theorem tableOptions_meant (s : TableConstruct) :
    (.dontReuseOid ∈ (s.meant C.autoincrementColumn C.version).options ↔
        s.keepsOid = true ∧ [11, 0] ≤ C.version.getD [0]) ∧
      (s.meant C.autoincrementColumn C.version).options.findSome? TableOption.commentText
        = s.comment := by
  rw [TableConstruct.meant]
  by_cases hkeeps : s.keepsOid = true ∧ [11, 0] ≤ C.version.getD [0]
  · simp only [if_pos hkeeps]
    refine ⟨iff_of_true List.mem_cons_self hkeeps, ?_⟩
    cases s.comment <;> rfl
  · simp only [if_neg hkeeps]
    refine ⟨iff_of_false ?_ hkeeps, ?_⟩
    · cases s.comment <;> simp
    · cases s.comment <;> rfl

/-- **What is stored is what was declared.** -/
theorem reflect_storedColumns (classes : List Str) (parents : List StoredTable)
    (s : TableConstruct) :
    (storedColumns S classes parents (s.meant C.autoincrementColumn C.version)).map reflectStored
      = (declaredOf S C classes (parents.map StoredTable.declared) s).columns := by
  obtain ⟨hcolumns, hkeys⟩ := elements_meant (C := C) s
  have hinherited : (parents.flatMap StoredTable.columns).map reflectStored
      = (parents.map StoredTable.declared).flatMap Declared.columns := by
    rw [List.map_flatMap, List.flatMap_map]
    rfl
  have hown : (((s.columns C.autoincrementColumn).map meantColumn).map
        (storedColumn S classes (lower s.name) (s.declaredKey C.autoincrementColumn))).map
          reflectStored
      = (s.columns C.autoincrementColumn).map
        (declaredColumn S classes (lower s.name) (s.declaredKey C.autoincrementColumn)) := by
    rw [List.map_map, List.map_map]
    apply List.map_congr_left
    intro c _
    exact reflectStored_meant S classes _ _ c
  have hname : (s.meant C.autoincrementColumn C.version).name = s.name := rfl
  rw [storedColumns, declaredOf, hcolumns, hkeys, hname, List.map_append, hinherited, hown]

/-! ### The tables and the schema -/

/-- The tables, as what the questions say of them. -/
def TableStore.schema (store : TableStore) : Schema := store.tables.map StoredTable.declared

theorem table?_schema (store : TableStore) (n : Str) :
    store.schema.table? n = (store.table? n).map StoredTable.declared := by
  rw [Schema.table?, TableStore.schema, List.find?_map]
  rfl

omit [UnicodeData] in
theorem mapM_map_option {α β γ : Type} (f : α → Option β) (g : β → γ) (l : List α) :
    (l.mapM fun a => (f a).map g) = (l.mapM f).map (List.map g) := by
  induction l with
  | nil => rfl
  | cons a l ih =>
    rw [List.mapM_cons, List.mapM_cons, ih]
    cases f a with
    | none => rfl
    | some b => cases l.mapM f <;> rfl

/-- **A statement does to the tables what the call does to the schema.** -/
theorem schema_create (store : TableStore) (s : TableConstruct) :
    store.schema.create S C s
      = (storeTable S store (s.meant C.autoincrementColumn C.version)).map TableStore.schema := by
  let t := s.meant C.autoincrementColumn C.version
  have hparents : (s.parents.mapM fun p => store.schema.table? (lower p))
      = (t.parents.mapM fun p => store.table? (lower p)).map (List.map StoredTable.declared) := by
    rw [← mapM_map_option]
    simp only [table?_schema]
    rfl
  rw [storeTable, Schema.create, hparents]
  cases t.parents.mapM fun p => store.table? (lower p) with
  | none => rfl
  | some parents =>
    let names := store.tables.map StoredTable.name
    let classes := lower s.name :: names
    have hclasses : store.schema.map Declared.name = names := by
      rw [TableStore.schema, List.map_map]
      rfl
    let declared := declaredOf S C classes (parents.map StoredTable.declared) s
    have hcolumns : (storedColumns S classes parents t).map reflectStored = declared.columns :=
      reflect_storedColumns S classes parents s
    have hnames : (declared.columns.map fun c => c.column.name)
        = (storedColumns S classes parents t).map StoredColumn.field := by
      rw [← hcolumns, List.map_map]
      rfl
    rw [hclasses]
    show (if _ then _ else _) = ((storedTable S names parents t).bind _).map _
    by_cases hnodup : ((storedColumns S classes parents t).map StoredColumn.field).Nodup
    · obtain ⟨stored, hstored, hdeclared⟩ :
          ∃ stored, storedTable S names parents t = some stored ∧ stored.declared = declared := by
        refine ⟨_, dif_pos hnodup, ?_⟩
        obtain ⟨hoid, hcomment⟩ := tableOptions_meant (C := C) s
        show Declared.mk _ _ ((storedColumns S classes parents t).map reflectStored)
          ((t.elements.flatMap TableElement.keys).map lower) (decide (.dontReuseOid ∈ t.options))
          (truthy (t.options.findSome? TableOption.commentText)) = _
        rw [hcolumns, (elements_meant s).2, hcomment, decide_eq_decide.mpr hoid]
        rfl
      have hname : stored.name = declared.name := congrArg Declared.name hdeclared
      have hfree : store.schema.table? declared.name = none ↔ store.table? stored.name = none := by
        rw [table?_schema, Option.map_eq_none_iff, hname]
      rw [hstored, Option.bind_some]
      by_cases hok : store.table? stored.name = none ∧ S.accepts t = true
      · rw [dif_pos hok, if_pos ⟨hnames ▸ hnodup, hfree.mpr hok.1, hok.2⟩, Option.map_some]
        have hadd : (store.add stored hok.1).schema = store.schema ++ [declared] := by
          rw [← hdeclared]
          exact List.map_append
        rw [hadd]
      · rw [dif_neg hok, if_neg fun hall => hok ⟨hfree.mp hall.2.1, hall.2.2⟩]
        rfl
    · have hstored : storedTable S names parents t = none := dif_neg hnodup
      rw [hstored, if_neg fun hall => hnodup (hnames ▸ hall.1)]
      rfl

/-! ### Answers -/

omit [UnicodeData] in
theorem find?_relations (store : TableStore) (n : Str) :
    store.relations.find? (fun r => r.row.className = n)
      = (store.table? n).map StoredTable.relation := by
  rw [TableStore.relations, List.find?_map]
  rfl

omit [UnicodeData] in
/-- The comment of a column is the one that is stored. -/
theorem comments_column {store : TableStore} {n : Str} {t : StoredTable}
    (ht : store.table? n = some t) {c : StoredColumn} (hc : c ∈ t.columns) :
    store.comments (.column n c.field) = c.comment := by
  have hnodup : ((t.columns.map fun d => (d.field, d.comment)).map Prod.fst).Nodup := by
    rw [List.map_map]
    exact t.nodup_fields
  have hget := Dict.get?_of_mem hnodup
    (List.mem_map_of_mem (f := fun d => (d.field, d.comment)) hc)
  rw [TableStore.comments, ht, Option.bind_some, hget]
  rfl

/-- **The columns are answered from the schema.** -/
theorem getColumns_store (store : TableStore) (t : Str) :
    getColumns (showColumns store.relations t)
        ⟨commentRows store.relations store.comments t, none⟩ t
      = (store.schema.table? (lower t)).elim (.error (.noSuchTableError t)) fun d =>
          .ok (d.columns.map DeclaredColumn.column) := by
  have hdenotes : Denotes store.comments fun k => truthy (store.comments k) := fun _ => rfl
  rw [getColumns_eq _ hdenotes, relation?, find?_relations, table?_schema]
  cases ht : store.table? (lower t) with
  | none => rfl
  | some stored =>
    show Except.ok (List.map _ (stored.columns.map StoredColumn.row))
      = Except.ok ((stored.columns.map reflectStored).map DeclaredColumn.column)
    rw [List.map_map, List.map_map]
    congr 1
    apply List.map_congr_left
    intro c hc
    have hcomment := comments_column ht hc
    rw [StoredColumn.field] at hcomment
    rw [Function.comp_apply, hcomment]
    rfl

theorem getTableComment_store (store : TableStore) (t : Str) :
    getTableComment store.relations store.comments t
      = (store.schema.table? (lower t)).elim (.error (.noSuchTableError t)) fun d =>
          .ok d.comment := by
  have hknows : knows store.relations (.table (lower t)) = (store.table? (lower t)).isSome := by
    rw [knows, TableStore.relations, List.any_map, TableStore.table?, List.isSome_find?]
    congr 1
    funext u
    exact decide_eq_decide.mpr (and_iff_left rfl)
  rw [getTableComment_eq, hknows, table?_schema]
  show (if _ then Except.ok (truthy ((store.table? (lower t)).bind StoredTable.comment)) else _) = _
  cases store.table? (lower t) <;> rfl

omit [UnicodeData] in
/-- Rows of a table that is the only one of its name. -/
theorem filter_rows {α : Type} {tables : List StoredTable}
    (h : (tables.map StoredTable.name).Nodup) (rows : StoredTable → List α) (key : α → Str)
    (hkey : ∀ t, ∀ r ∈ rows t, key r = t.name) (n : Str) :
    (tables.flatMap rows).filter (fun r => key r = n)
      = (tables.find? fun t => t.name = n).elim [] rows := by
  induction tables with
  | nil => rfl
  | cons t tables ih =>
    rw [List.map_cons, List.nodup_cons] at h
    rw [List.flatMap_cons, List.filter_append, ih h.2]
    by_cases hn : t.name = n
    · have hall : (rows t).filter (fun r => key r = n) = rows t := by
        rw [List.filter_eq_self]
        intro r hr
        rw [hkey t r hr]
        exact decide_eq_true hn
      have hnone : tables.find? (fun t => t.name = n) = none := by
        rw [List.find?_eq_none]
        intro u hu hname
        rw [hn, ← of_decide_eq_true hname] at h
        exact h.1 (List.mem_map_of_mem hu)
      have hfind : (t :: tables).find? (fun t => t.name = n) = some t :=
        List.find?_cons_of_pos (decide_eq_true hn)
      rw [hall, hnone, hfind, Option.elim_none, List.append_nil, Option.elim_some]
    · have hnil : (rows t).filter (fun r => key r = n) = [] := by
        rw [List.filter_eq_nil_iff]
        intro r hr
        rw [hkey t r hr]
        simpa using hn
      have hfind : (t :: tables).find? (fun t => t.name = n)
          = tables.find? fun t => t.name = n := List.find?_cons_of_neg (by simpa using hn)
      rw [hnil, List.nil_append, hfind]

theorem getSuperClassName_store (store : TableStore) (t : Str) :
    getSuperClassName store.database t
      = (store.schema.table? (lower t)).bind fun d => d.parents.head? := by
  have hlinks := filter_rows store.nodup_names
    (fun t => t.parents.map (DirectSuperClass.mk t.name)) DirectSuperClass.className
    (fun t r hr => by obtain ⟨p, -, rfl⟩ := List.mem_map.mp hr; rfl) (lower t)
  rw [getSuperClassName, TableStore.database]
  show Option.map _ (List.head? (List.filter _ (List.flatMap
    (fun t => t.parents.map (DirectSuperClass.mk t.name)) store.tables))) = _
  rw [hlinks, table?_schema, TableStore.table?]
  cases store.tables.find? fun u => u.name = lower t with
  | none => rfl
  | some u =>
    show Option.map _ (List.head? (u.parents.map _)) = u.parents.head?
    cases u.parents <;> rfl

omit [UnicodeData] in
/-- The rows of `db_attribute` are in order as they stand. -/
theorem pairwise_attributes (t : StoredTable) :
    t.attributes.Pairwise fun a b => a.defOrder ≤ b.defOrder := by
  have hrange : (t.columns.zipIdx.map Prod.snd).Pairwise (· ≤ ·) := by
    rw [List.zipIdx_map_snd]
    exact List.pairwise_le_range'
  rw [StoredTable.attributes, List.mapIdx_eq_zipIdx_map, List.pairwise_map]
  exact (List.pairwise_map.mp hrange).imp fun h => Int.ofNat_le.mpr h

theorem attributes_store (store : TableStore) (t : Str) :
    store.database.dbAttribute.filter (fun a => a.className = lower t)
      = (store.table? (lower t)).elim [] StoredTable.attributes := by
  apply filter_rows store.nodup_names
  intro u a ha
  rw [StoredTable.attributes, List.mapIdx_eq_zipIdx_map] at ha
  obtain ⟨c, -, rfl⟩ := List.mem_map.mp ha
  rfl

/-- **An inherited column comes back with the class that declares it.** -/
theorem getInheritedColumns_store (store : TableStore) (t : Str) :
    getInheritedColumns store.database t
      = (store.schema.table? (lower t)).elim [] Declared.inheritedColumns := by
  rw [getInheritedColumns, attributes_store, table?_schema]
  cases store.table? (lower t) with
  | none => rfl
  | some u =>
    show (orderBy DbAttribute.defOrder u.attributes).map _
      = (u.columns.map reflectStored).mapIdx _
    rw [orderBy_of_pairwise (pairwise_attributes u), StoredTable.attributes,
      List.mapIdx_eq_zipIdx_map, List.mapIdx_eq_zipIdx_map, List.zipIdx_map, List.map_map,
      List.map_map]
    rfl

/-- **A column that refers to a class comes back with the class.** -/
theorem getOidColumns_store (store : TableStore) (t : Str) :
    getOidColumns store.database t
      = (store.schema.table? (lower t)).elim [] Declared.oidColumns := by
  have hfilter : (store.database.dbAttribute.filter fun a =>
      a.className = lower t ∧ a.domainClassName ≠ none ∧ a.domainClassName ≠ some [])
        = (store.database.dbAttribute.filter fun a => a.className = lower t).filter fun a =>
          a.domainClassName ≠ none ∧ a.domainClassName ≠ some [] := by
    rw [List.filter_filter]
    congr 1
    funext a
    rw [← Bool.decide_and, decide_eq_decide]
    exact and_comm
  rw [getOidColumns, hfilter, attributes_store, table?_schema]
  cases store.table? (lower t) with
  | none => rfl
  | some u =>
    show (orderBy DbAttribute.defOrder (u.attributes.filter _)).map _
      = ((u.columns.map reflectStored).filter _).map _
    rw [orderBy_of_pairwise ((pairwise_attributes u).filter _)]
    have hcolumns : u.columns = u.columns.zipIdx.map Prod.fst := (List.zipIdx_map_fst 0 _).symm
    conv_rhs => rw [hcolumns]
    rw [StoredTable.attributes, List.mapIdx_eq_zipIdx_map, List.map_map, List.filter_map,
      List.filter_map, List.map_map, List.map_map]
    rfl

theorem getSubClassNames_store (store : TableStore) (t : Str) :
    getSubClassNames store.database t = store.schema.children (lower t) := by
  have hlinks : store.database.directSuperClass = (List.flatMap
      (fun d => d.parents.map fun p => (d.name, p)) store.schema).map
        fun r => DirectSuperClass.mk r.1 r.2 := by
    rw [TableStore.schema, List.map_flatMap, List.flatMap_map]
    simp only [List.map_map]
    rfl
  rw [getSubClassNames, hlinks, map_orderBy DirectSuperClass.className id
    DirectSuperClass.className fun _ _ => rfl, List.filter_map, List.map_map, Schema.children]
  rfl

/-- **One call**: the answers are alike, and the tables stay the schema. -/
theorem schema_next (store : TableStore) (schema : Schema) (c : TableCall C)
    (h : schema = store.schema) :
    (tableMachine S C).answer store c = (schemaMachine S C).answer schema c ∧
      (schemaMachine S C).next schema c = ((tableMachine S C).next store c).schema := by
  subst h
  cases c with
  | create s hs =>
    have hparse := hs.parseCreate_meant C.version C.quoter
    have hstep : (tableMachine S C).step store (.create s hs)
        = (storeTable S store (s.meant C.autoincrementColumn C.version)).elim
          (.error .databaseError, store) fun store => (.ok .done, store) := by
      show ((parseCreate _).bind _).elim _ _ = _
      rw [hparse, Option.bind_some]
    have hschema : (schemaMachine S C).step store.schema (.create s hs)
        = (store.schema.create S C s).elim (.error .databaseError, store.schema)
          fun schema => (.ok .done, schema) := rfl
    rw [Machine.answer, Machine.answer, Machine.next, Machine.next, hstep, hschema, schema_create]
    cases storeTable S store (s.meant C.autoincrementColumn C.version) <;> exact ⟨rfl, rfl⟩
  | getColumns t =>
    refine ⟨?_, rfl⟩
    show (getColumns _ _ t).map TableAnswer.columns = (store.schema.table? (lower t)).elim _ _
    rw [getColumns_store]
    cases store.schema.table? (lower t) <;> rfl
  | getTableComment t =>
    refine ⟨?_, rfl⟩
    show (getTableComment _ _ t).map TableAnswer.comment
      = (store.schema.table? (lower t)).elim _ _
    rw [getTableComment_store]
    cases store.schema.table? (lower t) <;> rfl
  | getSuperClassName t =>
    exact ⟨congrArg (fun n => Except.ok (TableAnswer.superClassName n))
      (getSuperClassName_store store t), rfl⟩
  | getSubClassNames t =>
    exact ⟨congrArg (fun l => Except.ok (TableAnswer.subClassNames l))
      (getSubClassNames_store store t), rfl⟩
  | getInheritedColumns t =>
    exact ⟨congrArg (fun l => Except.ok (TableAnswer.inheritedColumns l))
      (getInheritedColumns_store store t), rfl⟩
  | getOidColumns t =>
    exact ⟨congrArg (fun l => Except.ok (TableAnswer.oidColumns l))
      (getOidColumns_store store t), rfl⟩

/-- **Tables come back as they were declared.**  In any run of statements that
create tables, in any of the three ways, and of questions about tables of any
names, every statement is read as the table that is meant; the columns, the
comments, the parent and the children of a table are those that the constructs
declare, a column is inherited from the class that declares it and refers to the
class that its type names; and the server has the tables of the schema, with their
primary keys and `DONT_REUSE_OID`. -/
theorem created_runs_agree (store : TableStore) (calls : List (TableCall C)) :
    (∀ s h, TableCall.create s h ∈ calls →
        parseCreate (s.text C.quoter.ddlPreparer C.autoincrementColumn C.version)
          = some (s.meant C.autoincrementColumn C.version)) ∧
      (tableMachine S C).answers store calls = (schemaMachine S C).answers store.schema calls ∧
      (schemaMachine S C).run store.schema calls = ((tableMachine S C).run store calls).schema :=
  ⟨fun _ h _ => h.parseCreate_meant C.version C.quoter,
    Machine.simulation _ _ (R := fun (store : TableStore) schema => schema = store.schema)
      (schema_next S) rfl calls⟩

end Server

end SqlalchemyCubrid.Dialect
