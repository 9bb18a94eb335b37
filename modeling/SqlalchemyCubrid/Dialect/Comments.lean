import SqlalchemyCubrid.Compiler.Names
import SqlalchemyCubrid.Dialect.Catalog
import SqlalchemyCubrid.Dialect.Columns
import SqlalchemyCubrid.Lib.Machine

/-!
# Comments

Four `ALTER TABLE` statements set and drop the comments of tables and columns,
where to drop one is to set it to the empty string.  `get_table_comment` and
`get_columns` read them from the catalog, where a comment may also be `NULL`.

A `CommentStore` is the catalog as far as it has comments, `alterStore` what a
server makes of the text of a statement.  What the calls are for is `notesMachine`:
each table and each column has a comment or none.  `comment_runs_agree` says that
the calls of any run, over the texts and the catalog, are answered like that.
-/

namespace SqlalchemyCubrid.Dialect

open Lib Lib.Sql Python SqlalchemyCubrid.Compiler

/-! ### The statements -/

section Visit

variable (Q : NameQuoter)

def visitSetTableComment (table : Name) (comment : Str) : Str :=
  "ALTER TABLE ".toList ++ (Q.quote table ++ (" COMMENT=".toList ++ renderLiteralValue comment))

def visitDropTableComment (table : Name) : Str :=
  "ALTER TABLE ".toList ++ (Q.quote table ++ " COMMENT=''".toList)

def visitSetColumnComment (table column : Name) (comment : Str) : Str :=
  "ALTER TABLE ".toList ++ (Q.quote table ++ (" MODIFY ".toList ++ (Q.quote column
    ++ (" COMMENT ".toList ++ renderLiteralValue comment))))

def visitDropColumnComment (table column : Name) : Str :=
  "ALTER TABLE ".toList ++ (Q.quote table ++ (" MODIFY ".toList ++ (Q.quote column
    ++ " COMMENT ''".toList)))

end Visit

/-- What has a comment. -/
inductive CommentTarget where
  | table (t : Str)
  | column (t c : Str)
  deriving DecidableEq, Repr

def tableOption (t : Str) : Parser (CommentTarget × Str) := do
  keyword "COMMENT".toList
  symbol '='
  return (.table t, ← quoted .literal)

/-- A server takes `MODIFY` with a comment and no type; the only source for this is
`docs/en/ddl.md`. -/
def modifyColumn (t : Str) : Parser (CommentTarget × Str) := do
  keyword "MODIFY".toList
  let c ← ident
  keyword "COMMENT".toList
  return (.column t c, ← quoted .literal)

/-- `ALTER TABLE`, as far as comments go. -/
def alterComment : Parser (CommentTarget × Str) := do
  keyword "ALTER".toList
  keyword "TABLE".toList
  let t ← ident
  tableOption t <|> modifyColumn t

def parseAlter (s : Str) : Option (CommentTarget × Str) :=
  (lex s).bind fun ts => (alterComment ts).bind fun r => if skip r.2 = [] then some r.1 else none

/-! ### Reading the statements -/

section Read

variable (Q : NameQuoter)

/-- `ALTER TABLE t` and what follows. -/
theorem lex_alter (t : Name) {s : Str} {ts : List Token} (hs : lex s = some ts) :
    lex ("ALTER TABLE ".toList ++ (Q.quote t ++ ' ' :: s))
      = some (.word "ALTER".toList :: .space ' ' :: .word "TABLE".toList :: .space ' '
        :: Q.token t :: .space ' ' :: ts) := by
  have halter : lex "ALTER TABLE".toList
      = some [.word "ALTER".toList, .space ' ', .word "TABLE".toList] := by decide
  exact lex_append halter rfl (lex_append (Q.lex_quote t t.property) rfl hs)

theorem alterComment_eq (t : Name) (ts : List Token) :
    alterComment (.word "ALTER".toList :: .space ' ' :: .word "TABLE".toList :: .space ' '
        :: Q.token t :: .space ' ' :: ts)
      = (tableOption t.val ts).orElse fun _ => modifyColumn t.val ts := by
  show (ident (Q.token t :: .space ' ' :: ts)).bind _ = _
  rw [ident_token]
  rfl

theorem parseAlter_of_table (t : Name) {s : Str} {comment : Str}
    (hs : lex s = some [.word "COMMENT".toList, .symbol '=', .quoted .literal comment]) :
    parseAlter ("ALTER TABLE ".toList ++ (Q.quote t ++ ' ' :: s))
      = some (.table t, comment) := by
  rw [parseAlter, lex_alter Q t hs, Option.bind_some, alterComment_eq]
  rfl

theorem parseAlter_of_column (t c : Name) {s : Str} {comment : Str}
    (hs : lex s = some [.word "COMMENT".toList, .space ' ', .quoted .literal comment]) :
    parseAlter ("ALTER TABLE ".toList ++ (Q.quote t ++ ' ' :: ("MODIFY ".toList
      ++ (Q.quote c ++ ' ' :: s)))) = some (.column t c, comment) := by
  have hmodify : lex ("MODIFY ".toList ++ (Q.quote c ++ ' ' :: s))
      = some (.word "MODIFY".toList :: .space ' ' :: Q.token c :: .space ' '
        :: [.word "COMMENT".toList, .space ' ', .quoted .literal comment]) := by
    have hword : lex "MODIFY".toList = some [.word "MODIFY".toList] := by decide
    exact lex_append hword rfl (lex_append (Q.lex_quote c c.property) rfl hs)
  rw [parseAlter, lex_alter Q t hmodify, Option.bind_some, alterComment_eq]
  show Option.bind (Option.bind (ident (Q.token c :: _)) _) _ = _
  rw [ident_token]
  rfl

theorem parseAlter_setTable (t : Name) (comment : Str) :
    parseAlter (visitSetTableComment Q t comment) = some (.table t, comment) := by
  have hword : lex "COMMENT".toList = some [.word "COMMENT".toList] := by decide
  exact parseAlter_of_table Q t (lex_append hword (c := '=') rfl (lex_delimited .literal comment))

theorem parseAlter_dropTable (t : Name) :
    parseAlter (visitDropTableComment Q t) = some (.table t, []) :=
  parseAlter_of_table Q t (s := "COMMENT=''".toList) (by decide)

theorem parseAlter_setColumn (t c : Name) (comment : Str) :
    parseAlter (visitSetColumnComment Q t c comment) = some (.column t c, comment) := by
  have hword : lex "COMMENT".toList = some [.word "COMMENT".toList] := by decide
  exact parseAlter_of_column Q t c (lex_append hword (c := ' ') rfl
    (lex_delimited .literal comment))

theorem parseAlter_dropColumn (t c : Name) :
    parseAlter (visitDropColumnComment Q t c) = some (.column t c, []) :=
  parseAlter_of_column Q t c (s := "COMMENT ''".toList) (by decide)

end Read

/-! ### The catalog -/

/-- A row of `db_class`, and what `SHOW COLUMNS` says of its columns. -/
structure Relation where
  row : DbClass
  columns : List ColumnsRow

/-- The comments in `db_class` and `db_attribute`; `none` is `NULL`. -/
abbrev CommentStore := CommentTarget → Option Str

/-- What the application does. -/
inductive CommentCall where
  | setTableComment (table : Name) (comment : Str)
  | dropTableComment (table : Name)
  | setColumnComment (table column : Name) (comment : Str)
  | dropColumnComment (table column : Name)
  | getTableComment (tableName : Str)
  | getColumns (tableName : Str)

inductive CommentAnswer where
  | done
  /-- `{"text": ...}` -/
  | text (comment : Option Str)
  | columns (l : List ReflectedColumn)
  deriving DecidableEq

section Server

variable [UnicodeData] (relations : List Relation)

/-- The server stores names in lower case. -/
def CommentTarget.fold : CommentTarget → CommentTarget
  | .table t => .table (lower t)
  | .column t c => .column (lower t) (lower c)

def relation? (name : Str) : Option Relation :=
  relations.find? fun r => r.row.className = lower name

def userRelations (name : Str) : List Relation :=
  relations.filter fun r => r.row.className = lower name ∧ r.row.isSystemClass = .no

/-- The server has such a table of a user, or a column of it. -/
def knows : CommentTarget → Bool
  | .table t => relations.any fun r => r.row.className = t ∧ r.row.isSystemClass = .no
  | .column t c => relations.any fun r => r.row.className = t ∧ r.row.isSystemClass = .no ∧
    c ∈ r.columns.map ColumnsRow.field

/-- What the server does with the text of a statement. -/
def alterStore (s : Str) (store : CommentStore) : Except PyError CommentAnswer × CommentStore :=
  (parseAlter s).elim (.error .databaseError, store) fun r =>
    if knows relations r.1.fold then (.ok .done, Function.update store r.1.fold (some r.2))
    else (.error .databaseError, store)

def getTableComment (store : CommentStore) (tableName : Str) : Except PyError (Option Str) :=
  let rows := (userRelations relations tableName).map fun r => store (.table r.row.className)
  match rows with
  | [] => .error (.noSuchTableError tableName)
  | row :: _ => .ok (truthy row)

/-- The answer to `SHOW COLUMNS`. -/
def showColumns (tableName : Str) : Except PyError (List ColumnsRow) :=
  (relation? relations tableName).elim (.error .databaseError) fun r => .ok r.columns

/-- The rows of the query of the comments. -/
def commentRows (store : CommentStore) (tableName : Str) : List (Str × Option Str) :=
  (relation? relations tableName).elim [] fun r =>
    r.columns.map fun c => (c.field, store (.column r.row.className c.field))

def commentMachine (Q : NameQuoter) :
    Machine CommentStore CommentCall (Except PyError CommentAnswer) where
  step store
    | .setTableComment t comment => alterStore relations (visitSetTableComment Q t comment) store
    | .dropTableComment t => alterStore relations (visitDropTableComment Q t) store
    | .setColumnComment t c comment =>
      alterStore relations (visitSetColumnComment Q t c comment) store
    | .dropColumnComment t c => alterStore relations (visitDropColumnComment Q t c) store
    | .getTableComment t => ((getTableComment relations store t).map .text, store)
    | .getColumns t =>
      ((getColumns (showColumns relations t) ⟨commentRows relations store t, none⟩ t).map .columns,
        store)

/-! ### What the calls are for -/

/-- What has a comment, and which one. -/
abbrev Notes := CommentTarget → Option Str

/-- Note something, or nothing, on a table or a column. -/
def Notes.write (notes : Notes) (target : CommentTarget) (comment : Option Str) :
    Except PyError CommentAnswer × Notes :=
  if knows relations target.fold then (.ok .done, Function.update notes target.fold comment)
  else (.error .databaseError, notes)

def notesMachine : Machine Notes CommentCall (Except PyError CommentAnswer) where
  step notes
    | .setTableComment t comment => notes.write relations (.table t) (truthy (some comment))
    | .dropTableComment t => notes.write relations (.table t) none
    | .setColumnComment t c comment => notes.write relations (.column t c) (truthy (some comment))
    | .dropColumnComment t c => notes.write relations (.column t c) none
    | .getTableComment t =>
      (if knows relations (.table (lower t)) then .ok (.text (notes (.table (lower t))))
        else .error (.noSuchTableError t), notes)
    | .getColumns t =>
      ((relation? relations t).elim (.error (.noSuchTableError t)) fun r =>
        .ok (.columns (r.columns.map fun c =>
          { columnInfo [] c with comment := notes (.column (lower t) c.field) })), notes)

/-- The notes are the comments, where the empty string is none. -/
def Denotes (store : CommentStore) (notes : Notes) : Prop := ∀ k, notes k = truthy (store k)

omit [UnicodeData] in
theorem Denotes.update {store : CommentStore} {notes : Notes} (h : Denotes store notes)
    (k : CommentTarget) (comment : Str) :
    Denotes (Function.update store k (some comment))
      (Function.update notes k (truthy (some comment))) := by
  intro l
  by_cases hl : l = k
  · rw [hl, Function.update_self, Function.update_self]
  · rw [Function.update_of_ne hl, Function.update_of_ne hl, h]

/-- A statement that is read writes the note. -/
theorem denotes_alterStore {s : Str} {target : CommentTarget} {comment : Str}
    (hs : parseAlter s = some (target, comment)) {store : CommentStore} {notes : Notes}
    (h : Denotes store notes) :
    (alterStore relations s store).1
        = (notes.write relations target (truthy (some comment))).1 ∧
      Denotes (alterStore relations s store).2
        (notes.write relations target (truthy (some comment))).2 := by
  rw [alterStore, hs, Option.elim_some, Notes.write]
  by_cases hknows : knows relations target.fold = true
  · rw [if_pos hknows, if_pos hknows]
    exact ⟨rfl, h.update target.fold comment⟩
  · rw [if_neg hknows, if_neg hknows]
    exact ⟨rfl, h⟩

theorem getTableComment_eq (store : CommentStore) (t : Str) :
    getTableComment relations store t
      = if knows relations (.table (lower t)) then .ok (truthy (store (.table (lower t))))
        else .error (.noSuchTableError t) := by
  have hknows : knows relations (.table (lower t)) = true ↔ userRelations relations t ≠ [] := by
    rw [knows, List.any_eq_true, userRelations, ne_eq, List.filter_eq_nil_iff]
    push Not
    rfl
  rw [getTableComment]
  cases hrows : userRelations relations t with
  | nil =>
    rw [if_neg fun hk => hknows.mp hk hrows]
    rfl
  | cons r rs =>
    have hr : r ∈ userRelations relations t := by
      rw [hrows]
      exact List.mem_cons_self
    have hname : r.row.className = lower t := by
      rw [userRelations, List.mem_filter, decide_eq_true_iff] at hr
      exact hr.2.1
    rw [if_pos (hknows.mpr (by simp [hrows])), List.map_cons, hname]

omit [UnicodeData] in
theorem get?_commentMap {names : List Str} (f : Str → Option Str) {n : Str} (hn : n ∈ names) :
    (commentMap (names.map fun n => (n, f n))).get? n = some (truthy (f n)) := by
  rw [commentMap, List.map_map]
  cases hget : (Dict.setAll [] (names.map fun n => (n, truthy (f n)))).get? n with
  | none =>
    refine absurd hget (Dict.get?_setAll_ne_none (Or.inr ⟨truthy (f n), ?_⟩))
    exact List.mem_map.mpr ⟨n, hn, rfl⟩
  | some v =>
    rcases Dict.mem_of_get?_setAll hget with h | h
    · cases h
    · obtain ⟨m, -, hm⟩ := List.mem_map.mp h
      cases hm
      exact hget

/-- **The columns come with the comments that are noted.** -/
theorem getColumns_eq {store : CommentStore} {notes : Notes} (h : Denotes store notes) (t : Str) :
    getColumns (showColumns relations t) ⟨commentRows relations store t, none⟩ t
      = (relation? relations t).elim (.error (.noSuchTableError t)) fun r =>
        .ok (r.columns.map fun c =>
          { columnInfo [] c with comment := notes (.column (lower t) c.field) }) := by
  rw [showColumns, commentRows]
  cases hr : relation? relations t with
  | none => rfl
  | some r =>
    have hname : r.row.className = lower t := by
      have hfind := List.find?_some hr
      simpa using hfind
    rw [Option.elim_some, Option.elim_some, Option.elim_some, getColumns_ok (Or.inl rfl), hname]
    congr 1
    apply List.map_congr_left
    intro c hc
    have hget := get?_commentMap (fun n => store (.column (lower t) n))
      (List.mem_map_of_mem (f := ColumnsRow.field) hc)
    rw [List.map_map] at hget
    rw [h]
    simp only [columnInfo, Function.comp_def] at hget ⊢
    rw [hget]
    rfl

variable (Q : NameQuoter)

/-- **One call**: the answers are alike, and the comments stay as they are noted. -/
theorem denotes_next (store : CommentStore) (notes : Notes) (c : CommentCall)
    (h : Denotes store notes) :
    (commentMachine relations Q).answer store c = (notesMachine relations).answer notes c ∧
      Denotes ((commentMachine relations Q).next store c)
        ((notesMachine relations).next notes c) := by
  cases c with
  | setTableComment t comment =>
    exact denotes_alterStore relations (parseAlter_setTable Q t comment) h
  | dropTableComment t => exact denotes_alterStore relations (parseAlter_dropTable Q t) h
  | setColumnComment t c comment =>
    exact denotes_alterStore relations (parseAlter_setColumn Q t c comment) h
  | dropColumnComment t c => exact denotes_alterStore relations (parseAlter_dropColumn Q t c) h
  | getTableComment t =>
    refine ⟨?_, h⟩
    show (getTableComment relations store t).map CommentAnswer.text = _
    rw [getTableComment_eq, ← h]
    show _ = if knows relations (.table (lower t)) then _ else _
    split <;> rfl
  | getColumns t =>
    refine ⟨?_, h⟩
    show (getColumns _ _ t).map CommentAnswer.columns = _
    rw [getColumns_eq relations h]
    show _ = (relation? relations t).elim _ _
    cases relation? relations t <;> rfl

/-- **Comments are what was set last.**  In any run of statements and of questions
about any tables, a comment that was set is the answer until it is set again or
dropped, and the empty string, a dropped comment and `NULL` are no comment. -/
theorem comment_runs_agree (store : CommentStore) (calls : List CommentCall) :
    (commentMachine relations Q).answers store calls
        = (notesMachine relations).answers (fun k => truthy (store k)) calls ∧
      ∀ k, (notesMachine relations).run (fun k => truthy (store k)) calls k
        = truthy ((commentMachine relations Q).run store calls k) :=
  Machine.simulation _ _ (R := Denotes) (denotes_next relations Q) (fun _ => rfl) calls

end Server

end SqlalchemyCubrid.Dialect
