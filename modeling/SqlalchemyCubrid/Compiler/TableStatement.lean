import SqlalchemyCubrid.Compiler.AutoIncrement
import SqlalchemyCubrid.Compiler.Names
import SqlalchemyCubrid.Dialect.Version
import SqlalchemyCubrid.Lib.SqlLayout

/-!
# Reading `CREATE TABLE`

Three constructs create tables, each in a layout of its own, and all of them print
columns with `get_column_specification`.  `createTable` reads such statements.

`parseCreate_text` says that what is printed is one statement: nothing in a name, a
type, a default or a comment gets out of its place, as long as types and defaults
keep commas and the words of options in parentheses.  `meant` is the table that the
attributes of the columns declare, and `parseCreate_meant` says that the statement
is read as this table where the construct is one that it can express.
-/

namespace SqlalchemyCubrid.Compiler

open Lib Lib.Sql Python Dialect

/-! ### Statements -/

inductive ColumnOption where
  | autoIncrement
  | default (value : List Token)
  | notNull
  | comment (s : Str)
  deriving DecidableEq, Repr

inductive TableOption where
  | dontReuseOid
  | comment (s : Str)
  deriving DecidableEq, Repr

structure CreatedColumn where
  name : Str
  typ : List Token
  options : List ColumnOption
  deriving DecidableEq, Repr

inductive TableElement where
  | column (c : CreatedColumn)
  | primaryKey (columns : List Str)
  deriving DecidableEq, Repr

structure CreatedTable where
  name : Str
  parents : List Str
  elements : List TableElement
  options : List TableOption
  deriving DecidableEq, Repr

/-- The words an option of a column starts with. -/
def optionWords : List Str := ["AUTO_INCREMENT", "DEFAULT", "NOT", "COMMENT"].map String.toList

/-- What a type or a default ends at. -/
def stopPart (t : Token) : Bool := t = .symbol ',' || t = .symbol ')' || stopWord optionWords t

def columnOption : Parser ColumnOption :=
  (do keyword "AUTO_INCREMENT".toList; return .autoIncrement)
  <|> (do keyword "DEFAULT".toList; return .default (← someFragment stopPart))
  <|> (do keyword "NOT".toList; keyword "NULL".toList; return .notNull)
  <|> (do keyword "COMMENT".toList; return .comment (← quoted .literal))

def createdColumn : Parser CreatedColumn := do
  let n ← ident
  let typ ← someFragment stopPart
  return ⟨n, typ, ← many columnOption⟩

def tableElement : Parser TableElement :=
  (do
    keyword "PRIMARY".toList
    keyword "KEY".toList
    return .primaryKey (← parens (commaList ident)))
  <|> (do return .column (← createdColumn))

/-- The list of columns, which may be empty or missing. -/
def elementList : Parser (List TableElement) :=
  parens (commaList tableElement) <|> parens (pure []) <|> pure []

def underClause : Parser (List Str) :=
  (do keyword "UNDER".toList; commaList ident) <|> pure []

def tableOption : Parser TableOption :=
  (do keyword "DONT_REUSE_OID".toList; return .dontReuseOid)
  <|> (do keyword "COMMENT".toList; symbol '='; return .comment (← quoted .literal))

def createTable : Parser CreatedTable := do
  keyword "CREATE".toList
  keyword "TABLE".toList
  let n ← ident
  let parents ← underClause
  let elements ← elementList
  return ⟨n, parents, elements, ← many tableOption⟩

/-- A text that is one statement. -/
def parseCreate (s : Str) : Option CreatedTable :=
  (lex s).bind fun ts => (createTable ts).bind fun r => if skip r.2 = [] then some r.1 else none

/-! ### The constructs -/

/-- The constructs that create tables; a `Table` may have a comment. -/
inductive TableConstruct where
  | table (table : Table) (comment : Option Str)
  | under (name parentName : Str) (columns : List Column)
  | dontReuseOid (name : Str) (columns : List Column)

section Text

variable (P : DdlPreparer) (autoincrementColumn : List Column → Option Nat)
  (version : Option (List Nat))

/-- Options behind the table, with spaces in front. -/
def optionsText (opts : List Str) : Str :=
  if opts ≠ [] then " ".toList ++ join " ".toList opts else []

/-- The columns and the primary key of a `Table`. -/
def tableElements (table : Table) : List Str :=
  tableColumnSpecifications P autoincrementColumn table.columns
    ++ createTableConstraints P
      ((primaryKeyColumns autoincrementColumn table.columns).map Column.name)

/-- A line for each of them. -/
def elementLines (elements : List Str) : Str :=
  if elements ≠ [] then '\n' :: join ", \n".toList (elements.map ('\t' :: ·)) else []

/-- SQLAlchemy's `CREATE TABLE`, with the comment. -/
def visitCreateCommentedTable (table : Table) (comment : Option Str) : Str :=
  "\nCREATE TABLE ".toList ++ P.formatTable table.name ++ " (".toList
    ++ elementLines (tableElements P autoincrementColumn table) ++ "\n)".toList
    ++ postCreateTableOptions P version table.dontReuseOid comment ++ "\n\n".toList

/-- Without a comment it is the `CREATE TABLE` of the table. -/
theorem visitCreateCommentedTable_none (table : Table) :
    visitCreateCommentedTable P autoincrementColumn version table none
      = visitCreateTable P autoincrementColumn version table := by
  unfold visitCreateCommentedTable visitCreateTable elementLines tableElements
  simp only [postCreateTableOptions_none]

namespace TableConstruct

def text : TableConstruct → Str
  | .table t comment => visitCreateCommentedTable P autoincrementColumn version t comment
  | .under name parentName columns => visitCreateTableUnder P name parentName columns
  | .dontReuseOid name columns => visitCreateTableDontReuseOid P version name columns

end TableConstruct

end Text

namespace TableConstruct

variable (autoincrementColumn : List Column → Option Nat) (version : Option (List Nat))

def name : TableConstruct → Str
  | .table t _ => t.name
  | .under name _ _ => name
  | .dontReuseOid name _ => name

/-- The columns, each with what the compiler knows of its table. -/
def columns : TableConstruct → List (Column × Option Bool)
  | .table t _ =>
    t.columns.zipIdx.map fun c => (c.1, some (autoincrementColumn t.columns = some c.2))
  | .under _ _ columns => columns.map fun c => (c, none)
  | .dontReuseOid _ columns => columns.map fun c => (c, none)

/-- The primary key that is printed. -/
def primaryKey : TableConstruct → List Str
  | .table t _ => (primaryKeyColumns autoincrementColumn t.columns).map Column.name
  | .under _ _ _ => []
  | .dontReuseOid _ _ => []

def parents : TableConstruct → List Str
  | .table _ _ => []
  | .under _ parentName _ => [parentName]
  | .dontReuseOid _ _ => []

def tableOptions : TableConstruct → List TableOption
  | .table t comment =>
    (if t.dontReuseOid && supportsDontReuseOid version then [.dontReuseOid] else [])
      ++ comment.elim [] fun s => [.comment s]
  | .under _ _ _ => []
  | .dontReuseOid _ _ => if supportsDontReuseOid version then [.dontReuseOid] else []

end TableConstruct

/-- The tokens of a text. -/
def tokensOf (s : Str) : List Token := (lex s).getD []

/-- A type or a default that is not blank and keeps what ends it in parentheses. -/
def IsPart (s : Str) : Prop :=
  ∃ ts, lex s = some ts ∧ sealedAt stopPart 0 ts = true ∧ trim ts ≠ []

instance (s : Str) : Decidable (IsPart s) :=
  decidable_of_iff ((lex s).any fun ts => sealedAt stopPart 0 ts && trim ts ≠ []) (by
    rw [Option.any_eq_true]
    simp only [Bool.and_eq_true, decide_eq_true_eq, IsPart])

/-- The options that are printed, with the default as it is printed. -/
def printedOptions (c : Column) (designated : Option Bool) : List ColumnOption :=
  (if isAutoIncrement c designated then [.autoIncrement] else [])
    ++ ((columnDefaultString c).elim [] fun d => [.default (tokensOf d)])
    ++ (if !c.nullable then [.notNull] else [])
    ++ c.comment.elim [] fun t => [.comment t]

/-- Blanks around a default are layout. -/
def ColumnOption.trimmed : ColumnOption → ColumnOption
  | .default ts => .default (trim ts)
  | o => o

/-- The column that a specification prints. -/
def createdColumnOf (c : Column × Option Bool) : CreatedColumn where
  name := c.1.name
  typ := trim (tokensOf c.1.typ)
  options := (printedOptions c.1 c.2).map ColumnOption.trimmed

/-- The table that the statement of a construct prints. -/
def TableConstruct.created (autoincrementColumn : List Column → Option Nat)
    (version : Option (List Nat)) (s : TableConstruct) : CreatedTable where
  name := s.name
  parents := s.parents
  elements := ((s.columns autoincrementColumn).map fun c => .column (createdColumnOf c))
    ++ if s.primaryKey autoincrementColumn = [] then []
      else [.primaryKey (s.primaryKey autoincrementColumn)]
  options := s.tableOptions version

/-! ### Options of a column -/

theorem isBlank_stopPart {t : Token} (h : isBlank t) : stopPart t = false := by
  cases t with
  | word s => cases h
  | quoted q s => cases h
  | symbol c => cases h
  | space c => rfl
  | comment s => rfl

theorem layoutFree_part : LayoutFree (someFragment stopPart) :=
  layoutFree_someFragment fun _ => isBlank_stopPart

/-- What a type or a default may stand in front of. -/
def EndsText (ts : List Token) : Prop := Stops stopPart (skip ts)

/-- The end of a column: a comma or the parenthesis behind the last one. -/
def EndsColumn (ts : List Token) : Prop :=
  ∃ c us, (c = ',' ∨ c = ')') ∧ skip ts = .symbol c :: us

theorem EndsColumn.endsText {ts : List Token} (h : EndsColumn ts) : EndsText ts := by
  obtain ⟨c, us, hc, hskip⟩ := h
  rw [EndsText, hskip]
  rcases hc with rfl | rfl
  · exact stops_cons (by decide)
  · exact stops_cons (by decide)

theorem endsText_word {w : Str} (hw : stopPart (.word w) = true) (ts : List Token) :
    EndsText (.space ' ' :: .word w :: ts) := stops_cons hw

namespace ColumnOption

def text : ColumnOption → Str
  | .autoIncrement => " AUTO_INCREMENT".toList
  | .default ts => " DEFAULT ".toList ++ textOf ts
  | .notNull => " NOT NULL".toList
  | .comment s => " COMMENT ".toList ++ renderLiteralValue s

def tokens : ColumnOption → List Token
  | .autoIncrement => [.space ' ', .word "AUTO_INCREMENT".toList]
  | .default ts => .space ' ' :: .word "DEFAULT".toList :: .space ' ' :: ts
  | .notNull => [.space ' ', .word "NOT".toList, .space ' ', .word "NULL".toList]
  | .comment s => [.space ' ', .word "COMMENT".toList, .space ' ', .quoted .literal s]

/-- The default is the tokens of a part. -/
def IsSealed : ColumnOption → Prop
  | .default ts => lex (textOf ts) = some ts ∧ sealedAt stopPart 0 ts = true ∧ trim ts ≠ []
  | _ => True

theorem text_default (ts : List Token) :
    (ColumnOption.default ts).text = " DEFAULT ".toList ++ textOf ts := rfl

theorem lex_text {o : ColumnOption} (ho : o.IsSealed) {s : Str} {ts : List Token}
    (hs : lex s = some ts) : lex (s ++ o.text) = some (ts ++ o.tokens) := by
  cases o with
  | autoIncrement =>
    have hword : lex "AUTO_INCREMENT".toList = some [.word "AUTO_INCREMENT".toList] := by decide
    exact lex_append hs (c := ' ') rfl hword
  | default us =>
    have hword : lex "DEFAULT".toList = some [.word "DEFAULT".toList] := by decide
    exact lex_append hs (c := ' ') rfl (lex_append hword (c := ' ') rfl ho.1)
  | notNull =>
    have hwords : lex "NOT NULL".toList
        = some [.word "NOT".toList, .space ' ', .word "NULL".toList] := by decide
    exact lex_append hs (c := ' ') rfl hwords
  | comment t =>
    have hword : lex "COMMENT".toList = some [.word "COMMENT".toList] := by decide
    exact lex_append hs (c := ' ') rfl (lex_append hword (c := ' ') rfl (lex_delimited .literal t))

theorem endsText (o : ColumnOption) (rest : List Token) : EndsText (o.tokens ++ rest) := by
  cases o with
  | autoIncrement => exact endsText_word (by decide) _
  | default us => exact endsText_word (by decide) _
  | notNull => exact endsText_word (by decide) _
  | comment t => exact endsText_word (by decide) _

theorem solidLength_tokens (o : ColumnOption) : 0 < solidLength o.tokens := by
  have hword : ∃ w us, o.tokens = .space ' ' :: .word w :: us := by
    cases o with
    | autoIncrement => exact ⟨_, _, rfl⟩
    | default us => exact ⟨_, _, rfl⟩
    | notNull => exact ⟨_, _, rfl⟩
    | comment t => exact ⟨_, _, rfl⟩
  obtain ⟨w, us, htokens⟩ := hword
  rw [htokens]
  exact List.countP_pos_iff.mpr ⟨.word w, by simp, rfl⟩

end ColumnOption

theorem layoutFree_columnOption : LayoutFree columnOption :=
  ((layoutFree_keyword _).bind fun _ => layoutFree_pure _).orElse
    (((layoutFree_keyword _).bind fun _ => layoutFree_part.bind fun _ => layoutFree_pure _).orElse
      (((layoutFree_keyword _).bind fun _ => (layoutFree_keyword _).bind fun _ =>
          layoutFree_pure _).orElse
        ((layoutFree_keyword _).bind fun _ => (layoutFree_quoted _).bind fun _ =>
          layoutFree_pure _)))

/-- **An option is read**, in front of another one or of what ends the column. -/
theorem reads_columnOption {o : ColumnOption} (ho : o.IsSealed) {rest : List Token}
    (hrest : EndsText rest) : Reads columnOption (o.tokens ++ rest) o.trimmed rest := by
  cases o with
  | autoIncrement =>
    have hword := (reads_keyword (w := "AUTO_INCREMENT".toList) (by decide) rest).map
      fun _ => ColumnOption.autoIncrement
    exact (hword.left _).space layoutFree_columnOption ' '
  | default ts =>
    have hvalue := (reads_someFragment (fun _ => isBlank_stopPart) ho.2.1 ho.2.2 hrest).map
      ColumnOption.default
    have hfree := layoutFree_part.bind fun ts => layoutFree_pure (ColumnOption.default ts)
    have hword := (reads_keyword (w := "DEFAULT".toList) (by decide) _).andThen hfree
      (hvalue.space hfree ' ')
    have hother {w : Str} (hw : "DEFAULT".toList.map Char.toUpper ≠ w) :=
      keyword_ne hw (.space ' ' :: (ts ++ rest))
    exact (Reads.right (bind_eq_none (hother (by decide))) (hword.left _)).space
      layoutFree_columnOption ' '
  | notNull =>
    have hnull := (reads_keyword (w := "NULL".toList) (by decide) rest).map
      fun _ => ColumnOption.notNull
    have hfree := (layoutFree_keyword "NULL".toList).bind
      fun _ => layoutFree_pure ColumnOption.notNull
    have hword := (reads_keyword (w := "NOT".toList) (by decide) _).andThen hfree
      (hnull.space hfree ' ')
    have hother {w : Str} (hw : "NOT".toList.map Char.toUpper ≠ w) :=
      keyword_ne hw (.space ' ' :: .word "NULL".toList :: rest)
    exact (Reads.right (bind_eq_none (hother (by decide))) (Reads.right
      (bind_eq_none (hother (by decide))) (hword.left _))).space layoutFree_columnOption ' '
  | comment t =>
    have hvalue := (reads_quoted .literal t rest).map ColumnOption.comment
    have hfree := (layoutFree_quoted .literal).bind
      fun t => layoutFree_pure (ColumnOption.comment t)
    have hword := (reads_keyword (w := "COMMENT".toList) (by decide) _).andThen hfree
      (hvalue.space hfree ' ')
    have hother {w : Str} (hw : "COMMENT".toList.map Char.toUpper ≠ w) :=
      keyword_ne hw (.space ' ' :: .quoted .literal t :: rest)
    exact (Reads.right (bind_eq_none (hother (by decide))) (Reads.right
      (bind_eq_none (hother (by decide))) (Reads.right (bind_eq_none (hother (by decide)))
        hword))).space layoutFree_columnOption ' '

theorem columnOption_eq_none {ts : List Token} (h : EndsColumn ts) : columnOption ts = none := by
  obtain ⟨c, us, -, hskip⟩ := h
  have hword (w : Str) : keyword w ts = none := keyword_symbol hskip
  exact orElse_eq_none (bind_eq_none (hword _)) (orElse_eq_none (bind_eq_none (hword _))
    (orElse_eq_none (bind_eq_none (hword _)) (bind_eq_none (hword _))))

/-! ### Columns -/

/-- A column with a name, and with a type and a default that can be told from what
stands around them. -/
structure Column.Readable (c : Column) : Prop where
  name_ne_nil : c.name ≠ []
  typ_part : IsPart c.typ
  default_part : ∀ d ∈ columnDefaultString c, IsPart d

theorem IsPart.tokens {s : Str} (h : IsPart s) :
    lex s = some (tokensOf s) ∧ sealedAt stopPart 0 (tokensOf s) = true ∧
      trim (tokensOf s) ≠ [] := by
  obtain ⟨ts, hlex, hts⟩ := h
  rw [tokensOf, hlex]
  exact ⟨rfl, hts⟩

theorem Column.Readable.isSealed {c : Column} (h : c.Readable) {designated : Option Bool}
    {o : ColumnOption} (ho : o ∈ printedOptions c designated) : o.IsSealed := by
  cases o with
  | default ts =>
    have hdefault : ∃ d, columnDefaultString c = some d ∧ ts = tokensOf d := by
      rw [printedOptions] at ho
      cases hd : columnDefaultString c with
      | none =>
        rw [hd] at ho
        cases hcomment : c.comment <;> simp [hcomment] at ho
      | some d =>
        rw [hd] at ho
        cases hcomment : c.comment <;> simp [hcomment] at ho <;> exact ⟨d, rfl, ho⟩
    obtain ⟨d, hd, rfl⟩ := hdefault
    have hpart := (h.default_part d hd).tokens
    refine ⟨?_, hpart.2⟩
    rw [text_of_lex hpart.1]
    exact hpart.1
  | _ => trivial

section Columns

variable (Q : NameQuoter)

/-- The preparer of the dialect, with the quotes of `Q` where they are optional. -/
def NameQuoter.ddlPreparer : DdlPreparer where
  quoteIdentifier := delimited .name
  formatTable := Q.quote
  formatColumn := Q.quote
  renderLiteral := renderLiteralValue

def columnTokens (c : Column × Option Bool) : List Token :=
  Q.token c.1.name :: .space ' '
    :: (tokensOf c.1.typ ++ (printedOptions c.1 c.2).flatMap ColumnOption.tokens)

theorem lex_columnOptions (os : List ColumnOption) (hos : ∀ o ∈ os, o.IsSealed) {s : Str}
    {ts : List Token} (hs : lex s = some ts) :
    lex (s ++ os.flatMap ColumnOption.text) = some (ts ++ os.flatMap ColumnOption.tokens) := by
  induction os generalizing s ts with
  | nil =>
    rw [List.flatMap_nil, List.flatMap_nil, List.append_nil, List.append_nil]
    exact hs
  | cons o os ih =>
    obtain ⟨ho, hos⟩ := List.forall_mem_cons.mp hos
    have hrest := ih hos (ColumnOption.lex_text ho hs)
    rw [List.append_assoc, List.append_assoc] at hrest
    exact hrest

/-- **A specification is its head and its options.** -/
theorem getColumnSpecification_options {c : Column} (h : c.Readable) (designated : Option Bool) :
    getColumnSpecification Q.ddlPreparer c designated
      = specificationHead Q.ddlPreparer c
        ++ (printedOptions c designated).flatMap ColumnOption.text := by
  have hgeneration : generation c designated
      = (if isAutoIncrement c designated then [ColumnOption.autoIncrement] else []).flatMap
        ColumnOption.text := by
    rw [generation]
    cases isAutoIncrement c designated <;> rfl
  have hdefault : ((columnDefaultString c).elim [] fun d => " DEFAULT ".toList ++ d)
      = ((columnDefaultString c).elim [] fun d => [ColumnOption.default (tokensOf d)]).flatMap
        ColumnOption.text := by
    cases hd : columnDefaultString c with
    | none => rw [Option.elim_none, Option.elim_none, List.flatMap_nil]
    | some d =>
      have htext : textOf (tokensOf d) = d := text_of_lex (h.default_part d hd).tokens.1
      have hoption := ColumnOption.text_default (tokensOf d)
      rw [htext] at hoption
      rw [Option.elim_some, Option.elim_some, List.flatMap_singleton, hoption]
  have hnull : (if !c.nullable then " NOT NULL".toList else [])
      = (if !c.nullable then [ColumnOption.notNull] else []).flatMap ColumnOption.text := by
    cases c.nullable <;> rfl
  have hcomment : (c.comment.elim [] fun t => " COMMENT ".toList ++ Q.ddlPreparer.renderLiteral t)
      = (c.comment.elim [] fun t => [ColumnOption.comment t]).flatMap ColumnOption.text := by
    cases c.comment with
    | none => rw [Option.elim_none, Option.elim_none, List.flatMap_nil]
    | some t =>
      rw [Option.elim_some, Option.elim_some, List.flatMap_singleton]
      rfl
  rw [getColumnSpecification_generation, specificationTail, printedOptions, hgeneration, hdefault,
    hnull, hcomment, List.append_assoc]
  simp only [List.flatMap_append, List.append_assoc]

theorem lex_columnSpecification {c : Column × Option Bool} (h : c.1.Readable) :
    lex (getColumnSpecification Q.ddlPreparer c.1 c.2) = some (columnTokens Q c) := by
  have hname := Q.lex_quote c.1.name h.name_ne_nil
  have hhead := lex_append hname (c := ' ') rfl h.typ_part.tokens.1
  have hoptions := lex_columnOptions (printedOptions c.1 c.2) (fun _ ho => h.isSealed ho) hhead
  have htext : specificationHead Q.ddlPreparer c.1 = Q.quote c.1.name ++ ' ' :: c.1.typ := by
    rw [specificationHead, List.append_assoc]
    rfl
  rw [getColumnSpecification_options Q h, htext, hoptions, columnTokens, List.append_assoc]
  rfl

theorem layoutFree_ident : LayoutFree ident := layoutFree_next _

theorem reads_ident {n : Str} (hn : n ≠ []) (rest : List Token) :
    Reads ident (Q.token n :: rest) n rest :=
  reads_of_eq (ident_token Q ⟨n, hn⟩ rest) rfl

theorem layoutFree_createdColumn : LayoutFree createdColumn :=
  layoutFree_ident.bind fun _ => layoutFree_part.bind fun _ => layoutFree_columnOption.many.bind
    fun _ => layoutFree_pure _

/-- **A column is read**, whatever stands around it. -/
theorem reads_createdColumn {c : Column × Option Bool} (h : c.1.Readable) {rest : List Token}
    (hrest : EndsColumn rest) :
    Reads createdColumn (columnTokens Q c ++ rest) (createdColumnOf c) rest := by
  have hoptions := reads_many (E := EndsText) (g := ColumnOption.trimmed)
    layoutFree_columnOption hrest.endsText (columnOption_eq_none hrest) (printedOptions c.1 c.2)
    (fun o ho rest hrest => reads_columnOption (h.isSealed ho) hrest)
    (fun o _ rest => o.endsText rest) (fun o _ => o.solidLength_tokens)
  have hends : EndsText ((printedOptions c.1 c.2).flatMap ColumnOption.tokens ++ rest) := by
    cases printedOptions c.1 c.2 with
    | nil => exact hrest.endsText
    | cons o os =>
      rw [List.flatMap_cons, List.append_assoc]
      exact o.endsText _
  obtain ⟨-, hsealed, hne⟩ := h.typ_part.tokens
  have htyp := reads_someFragment (fun _ => isBlank_stopPart) hsealed hne hends
  have hname := reads_ident Q h.name_ne_nil (.space ' ' :: (tokensOf c.1.typ
    ++ ((printedOptions c.1 c.2).flatMap ColumnOption.tokens ++ rest)))
  have hmany := layoutFree_columnOption.many
  rw [columnTokens, List.cons_append, List.cons_append, List.append_assoc]
  refine hname.bind (layoutFree_part.bind fun _ => hmany.bind fun _ => layoutFree_pure _) ?_
  refine (htyp.space layoutFree_part ' ').bind (hmany.bind fun _ => layoutFree_pure _) ?_
  exact hoptions.map fun os => CreatedColumn.mk c.1.name (trim (tokensOf c.1.typ)) os

end Columns

/-! ### The elements of a table -/

/-- What the compiler prints between the parentheses. -/
inductive PrintedElement where
  | column (c : Column × Option Bool)
  | primaryKey (names : List Str)

namespace PrintedElement

variable (Q : NameQuoter)

def text : PrintedElement → Str
  | .column c => getColumnSpecification Q.ddlPreparer c.1 c.2
  | .primaryKey names =>
    "PRIMARY KEY (".toList ++ join ", ".toList (names.map Q.quote) ++ ")".toList

def tokens : PrintedElement → List Token
  | .column c => columnTokens Q c
  | .primaryKey names =>
    .word "PRIMARY".toList :: .space ' ' :: .word "KEY".toList :: .space ' ' :: .symbol '('
      :: (separated [.space ' '] (names.map fun n => [Q.token n]) ++ [.symbol ')'])

def element : PrintedElement → TableElement
  | .column c => .column (createdColumnOf c)
  | .primaryKey names => .primaryKey names

def Readable : PrintedElement → Prop
  | .column c => c.1.Readable
  | .primaryKey names => names ≠ [] ∧ ∀ n ∈ names, n ≠ []

theorem lex_text {e : PrintedElement} (h : e.Readable) : lex (e.text Q) = some (e.tokens Q) := by
  cases e with
  | column c => exact lex_columnSpecification Q h
  | primaryKey names =>
    obtain ⟨hne, hnames⟩ := h
    obtain ⟨n, ns, rfl⟩ := List.exists_cons_of_ne_nil hne
    have hwords : lex "PRIMARY KEY".toList
        = some [.word "PRIMARY".toList, .space ' ', .word "KEY".toList] := by decide
    have hlist : lex (join ", ".toList ((n :: ns).map Q.quote))
        = some (separated [.space ' '] ((n :: ns).map fun n => [Q.token n])) :=
      lex_join fun m hm => Q.lex_quote m (hnames m hm)
    have hclosed := lex_append hlist (c := ')') rfl (t := []) rfl
    have hopen := lex_append hwords (c := ' ') rfl (lex_cons (c := '(') rfl hclosed)
    have htext : (PrintedElement.primaryKey (n :: ns)).text Q = "PRIMARY KEY".toList
        ++ ' ' :: '(' :: (join ", ".toList ((n :: ns).map Q.quote) ++ ')' :: []) :=
      List.append_assoc _ _ _
    rw [htext]
    exact hopen

end PrintedElement

theorem layoutFree_tableElement : LayoutFree tableElement :=
  ((layoutFree_keyword _).bind fun _ => (layoutFree_keyword _).bind fun _ =>
    layoutFree_ident.commaList.parens.bind fun _ => layoutFree_pure _).orElse
      (layoutFree_createdColumn.bind fun _ => layoutFree_pure _)

section Elements

variable (Q : NameQuoter)

/-- Names in parentheses. -/
theorem reads_names {n : Str} {ns : List Str} (h : ∀ m ∈ n :: ns, m ≠ []) (rest : List Token) :
    Reads (parens (commaList ident))
      (.symbol '(' :: (separated [.space ' '] ((n :: ns).map fun n => [Q.token n])
        ++ .symbol ')' :: rest)) (n :: ns) rest := by
  have hread := reads_commaList (E := fun _ => True) (g := id) (T := fun n => [Q.token n])
    layoutFree_ident [.space ' '] (by simp [isBlank]) n ns
    (fun m hm rest _ => reads_ident Q (h m hm) rest) (fun _ => trivial)
    (r := .symbol ')' :: rest) trivial (symbol_eq_none rfl (by decide))
  rw [List.map_id] at hread
  exact reads_parens layoutFree_ident.commaList hread rfl

theorem reads_tableElement {e : PrintedElement} (h : e.Readable) {rest : List Token}
    (hrest : EndsColumn rest) : Reads tableElement (e.tokens Q ++ rest) e.element rest := by
  cases e with
  | column c =>
    -- a name is quoted if it is a reserved word
    have hprimary : keyword "PRIMARY".toList (columnTokens Q c ++ rest) = none :=
      keyword_token Q ⟨c.1.name, h.name_ne_nil⟩ (by decide +kernel) _
    exact Reads.right (bind_eq_none hprimary)
      ((reads_createdColumn Q h hrest).map TableElement.column)
  | primaryKey names =>
    obtain ⟨hne, hnames⟩ := h
    obtain ⟨n, ns, rfl⟩ := List.exists_cons_of_ne_nil hne
    have hfree := layoutFree_ident.commaList.parens.bind
      fun names => layoutFree_pure (TableElement.primaryKey names)
    have hlist := ((reads_names Q hnames rest).map TableElement.primaryKey).space hfree ' '
    have hkey := (reads_keyword (w := "KEY".toList) (by decide) _).andThen hfree hlist
    have hfree' := (layoutFree_keyword "KEY".toList).bind fun _ => hfree
    have hprimary := (reads_keyword (w := "PRIMARY".toList) (by decide) _).andThen hfree'
      (hkey.space hfree' ' ')
    have htokens : (PrintedElement.primaryKey (n :: ns)).tokens Q ++ rest
        = .word "PRIMARY".toList :: .space ' ' :: .word "KEY".toList :: .space ' ' :: .symbol '('
          :: (separated [.space ' '] ((n :: ns).map fun n => [Q.token n])
            ++ .symbol ')' :: rest) := by
      rw [PrintedElement.tokens]
      simp only [List.cons_append, List.append_assoc, List.nil_append]
    rw [htokens]
    exact hprimary.left _

theorem layoutFree_elementList : LayoutFree elementList :=
  layoutFree_tableElement.commaList.parens.orElse
    (((layoutFree_pure []).parens).orElse (layoutFree_pure []))

/-- **The elements are read one by one**, in any layout. -/
theorem reads_elementList {as gap bs : List Token} (ha : ∀ t ∈ as, isBlank t)
    (hgap : ∀ t ∈ gap, isBlank t) (hb : ∀ t ∈ bs, isBlank t) {es : List PrintedElement}
    (hes : ∀ e ∈ es, e.Readable) (rest : List Token) :
    Reads elementList (.symbol '(' :: (as ++ (separated gap (es.map fun e => e.tokens Q)
      ++ (bs ++ .symbol ')' :: rest)))) (es.map PrintedElement.element) rest := by
  have hskip : skip (bs ++ .symbol ')' :: rest) = .symbol ')' :: rest := skip_blanks hb _
  cases es with
  | nil =>
    have hopen : skip (as ++ (bs ++ .symbol ')' :: rest)) = .symbol ')' :: rest := by
      rw [skip_blanks ha, hskip]
    have hprimary : keyword "PRIMARY".toList (as ++ (bs ++ .symbol ')' :: rest)) = none :=
      keyword_symbol hopen
    have hident : ident (as ++ (bs ++ .symbol ')' :: rest)) = none := next_eq_none hopen rfl
    have hnone : commaList tableElement (as ++ (bs ++ .symbol ')' :: rest)) = none :=
      bind_eq_none (orElse_eq_none (bind_eq_none hprimary)
        (bind_eq_none (bind_eq_none hident)))
    have hparens : parens (commaList tableElement) (.symbol '(' :: (as ++ (bs ++ .symbol ')'
        :: rest))) = none := by
      show (commaList tableElement (as ++ (bs ++ .symbol ')' :: rest))).bind _ = none
      rw [hnone]
      rfl
    have hempty := reads_parens (layoutFree_pure []) (reads_pure ([] : List TableElement) _) hopen
    exact Reads.right hparens (hempty.left _)
  | cons e es =>
    have hlist := reads_commaList (E := EndsColumn) (g := PrintedElement.element)
      (T := fun e => e.tokens Q) layoutFree_tableElement gap hgap e es
      (fun e he rest hrest => reads_tableElement Q (hes e he) hrest)
      (fun us => ⟨',', us, Or.inl rfl, rfl⟩) (r := bs ++ .symbol ')' :: rest)
      ⟨')', rest, Or.inr rfl, hskip⟩ (symbol_eq_none hskip (by decide))
    have hparens := reads_parens layoutFree_tableElement.commaList
      (hlist.layout layoutFree_tableElement.commaList ha) hskip
    exact hparens.left _

end Elements

/-! ### The options of a table -/

namespace TableOption

def text : TableOption → Str
  | .dontReuseOid => "DONT_REUSE_OID".toList
  | .comment s => "COMMENT=".toList ++ renderLiteralValue s

def tokens : TableOption → List Token
  | .dontReuseOid => [.space ' ', .word "DONT_REUSE_OID".toList]
  | .comment s => [.space ' ', .word "COMMENT".toList, .symbol '=', .quoted .literal s]

theorem lex_text (o : TableOption) {s : Str} {ts : List Token} (hs : lex s = some ts) :
    lex (s ++ ' ' :: o.text) = some (ts ++ o.tokens) := by
  cases o with
  | dontReuseOid =>
    have hword : lex "DONT_REUSE_OID".toList = some [.word "DONT_REUSE_OID".toList] := by decide
    exact lex_append hs rfl hword
  | comment t =>
    have hword : lex "COMMENT".toList = some [.word "COMMENT".toList] := by decide
    exact lex_append hs rfl (lex_append hword (c := '=') rfl (lex_delimited .literal t))

end TableOption

/-- The text of options, with a space in front of each. -/
def tableOptionsText (os : List TableOption) : Str := os.flatMap fun o => ' ' :: o.text

theorem lex_tableOptions (os : List TableOption) {s : Str} {t : List Token}
    (hs : lex s = some t) :
    lex (s ++ tableOptionsText os) = some (t ++ os.flatMap TableOption.tokens) := by
  induction os generalizing s t with
  | nil =>
    rw [tableOptionsText, List.flatMap_nil, List.flatMap_nil, List.append_nil, List.append_nil]
    exact hs
  | cons o os ih =>
    have hrest := ih (o.lex_text hs)
    rw [List.append_assoc, List.append_assoc] at hrest
    exact hrest

theorem layoutFree_tableOption : LayoutFree tableOption :=
  ((layoutFree_keyword _).bind fun _ => layoutFree_pure _).orElse
    ((layoutFree_keyword _).bind fun _ => (layoutFree_symbol _).bind fun _ =>
      (layoutFree_quoted _).bind fun _ => layoutFree_pure _)

theorem reads_tableOption (o : TableOption) (rest : List Token) :
    Reads tableOption (o.tokens ++ rest) o rest := by
  cases o with
  | dontReuseOid =>
    have hword := (reads_keyword (w := "DONT_REUSE_OID".toList) (by decide) rest).map
      fun _ => TableOption.dontReuseOid
    exact (hword.left _).space layoutFree_tableOption ' '
  | comment t =>
    have hfree := (layoutFree_quoted .literal).bind fun t => layoutFree_pure (TableOption.comment t)
    have hvalue := (reads_symbol '=' _).andThen hfree
      ((reads_quoted .literal t rest).map TableOption.comment)
    have hword := (reads_keyword (w := "COMMENT".toList) (by decide) _).andThen
      ((layoutFree_symbol '=').bind fun _ => hfree) hvalue
    have hother := keyword_ne (v := "COMMENT".toList) (w := "DONT_REUSE_OID".toList) (by decide)
      (.symbol '=' :: .quoted .literal t :: rest)
    exact (Reads.right (bind_eq_none hother) hword).space layoutFree_tableOption ' '

/-- **The options of a table are read one by one.** -/
theorem reads_tableOptions (os : List TableOption) {rest : List Token}
    (hrest : ∀ t ∈ rest, isBlank t) :
    Reads (many tableOption) (os.flatMap TableOption.tokens ++ rest) os rest := by
  have hskip : skip rest = [] := List.dropWhile_eq_nil_iff.mpr hrest
  have hword (w : Str) : keyword w rest = none := by
    rw [Sql.keyword, next, hskip]
  have hstop : tableOption rest = none :=
    orElse_eq_none (bind_eq_none (hword _)) (bind_eq_none (hword _))
  have hread := reads_many (E := fun _ => True) (g := id) (T := TableOption.tokens)
    layoutFree_tableOption trivial hstop os (fun o _ rest _ => reads_tableOption o rest)
    (fun _ _ _ => trivial)
    (by
      intro o _
      cases o with
      | dontReuseOid => decide
      | comment t => exact Nat.zero_lt_succ _)
  rw [List.map_id] at hread
  exact hread

/-! ### The statement -/

section Statement

variable (Q : NameQuoter)

/-- The elements in parentheses: what stands in front of the first, between two,
and behind the last. -/
def bodyText (as g bs : Str) (es : List PrintedElement) (rest : Str) : Str :=
  '(' :: (as ++ ((',' :: g).intercalate (es.map fun e => e.text Q) ++ (bs ++ ')' :: rest)))

def bodyTokens (as g bs : Str) (es : List PrintedElement) (rest : List Token) : List Token :=
  .symbol '(' :: (gapTokens as ++ (separated (gapTokens g) (es.map fun e => e.tokens Q)
    ++ (gapTokens bs ++ .symbol ')' :: rest)))

theorem lex_body {a g b : Str} (ha : IsGap a) (hg : IsGap g) (hb : IsGap b)
    {es : List PrintedElement} (hes : ∀ e ∈ es, e.Readable) {r : Str} {us : List Token}
    (hr : lex r = some us) :
    lex (bodyText Q a g b es r) = some (bodyTokens Q a g b es us) := by
  have hlist := lex_separated (f := fun e : PrintedElement => e.text Q) hg es
    fun e he => PrintedElement.lex_text Q (hes e he)
  have hclosed := lex_append (lex_append_gap hb hlist) (c := ')') rfl hr
  have hopen := lex_cons (c := '(') rfl (lex_gap ha hclosed)
  rw [List.append_assoc, List.append_assoc] at hopen
  exact hopen

theorem reads_body (as g bs : Str) {es : List PrintedElement} (hes : ∀ e ∈ es, e.Readable)
    (rest : List Token) :
    Reads elementList (bodyTokens Q as g bs es rest) (es.map PrintedElement.element) rest :=
  reads_elementList Q (isBlank_gapTokens as) (isBlank_gapTokens g) (isBlank_gapTokens bs) hes rest

/-- `CREATE TABLE` and what follows. -/
def createTokens (n : Token) (ts : List Token) : List Token :=
  .word "CREATE".toList :: .space ' ' :: .word "TABLE".toList :: .space ' ' :: n :: .space ' ' :: ts

theorem lex_create {name : Str} {n : Token} (hname : lex name = some [n]) {s : Str}
    {ts : List Token} (hs : lex s = some ts) :
    lex ("CREATE TABLE ".toList ++ (name ++ ' ' :: s)) = some (createTokens n ts) := by
  have hwords : lex "CREATE TABLE".toList
      = some [.word "CREATE".toList, .space ' ', .word "TABLE".toList] := by decide
  exact lex_append hwords (c := ' ') rfl (lex_append hname (c := ' ') rfl hs)

theorem layoutFree_underClause : LayoutFree underClause :=
  ((layoutFree_keyword _).bind fun _ => layoutFree_ident.commaList).orElse (layoutFree_pure [])

/-- **The parts of a statement are read one after the other.** -/
theorem reads_createTable {n : Token} {name : Str}
    (hname : ∀ rest, Reads ident (n :: rest) name rest) {ts mid mid' rest : List Token}
    {parents : List Str} {elements : List TableElement} {options : List TableOption}
    (hparents : Reads underClause ts parents mid) (helements : Reads elementList mid elements mid')
    (hoptions : Reads (many tableOption) mid' options rest) :
    Reads createTable (createTokens n ts) ⟨name, parents, elements, options⟩ rest := by
  have hmany := layoutFree_tableOption.many
  have hrest (n : Str) (parents : List Str) : LayoutFree (do
      let elements ← elementList
      return CreatedTable.mk n parents elements (← many tableOption)) :=
    layoutFree_elementList.bind fun _ => hmany.bind fun _ => layoutFree_pure _
  have hunder (n : Str) : LayoutFree (do
      let parents ← underClause
      let elements ← elementList
      return CreatedTable.mk n parents elements (← many tableOption)) :=
    layoutFree_underClause.bind fun _ => hrest n _
  have hident := layoutFree_ident.bind hunder
  have htable := (layoutFree_keyword "TABLE".toList).bind fun _ => hident
  refine (reads_keyword (w := "CREATE".toList) (by decide) _).andThen htable ?_
  refine Reads.space ?_ htable ' '
  refine (reads_keyword (w := "TABLE".toList) (by decide) _).andThen hident ?_
  refine Reads.space ?_ hident ' '
  refine (hname _).bind (hunder name) ?_
  refine (hparents.space layoutFree_underClause ' ').bind (hrest name parents) ?_
  refine helements.bind (hmany.bind fun _ => layoutFree_pure _) ?_
  exact hoptions.map fun options => CreatedTable.mk name parents elements options

theorem parseCreate_of_reads {s : Str} {ts rest : List Token} (hs : lex s = some ts)
    {t : CreatedTable} (h : Reads createTable ts t rest) (hrest : ∀ t ∈ rest, isBlank t) :
    parseCreate s = some t := by
  obtain ⟨r, hread, hskip⟩ := h.exists_rest
  have hnil : skip rest = [] := List.dropWhile_eq_nil_iff.mpr hrest
  rw [parseCreate, hs, Option.bind_some, hread, Option.bind_some, if_pos (hskip.trans hnil)]

end Statement

/-! ### The three constructs -/

section Constructs

variable (Q : NameQuoter) (autoincrementColumn : List Column → Option Nat)
  (version : Option (List Nat))

/-- A construct with names, of columns that can be read. -/
structure TableConstruct.Readable (s : TableConstruct) : Prop where
  name_ne_nil : s.name ≠ []
  columns : ∀ c ∈ s.columns autoincrementColumn, c.1.Readable

def TableConstruct.printed (s : TableConstruct) : List PrintedElement :=
  (s.columns autoincrementColumn).map .column
    ++ if s.primaryKey autoincrementColumn = [] then []
      else [.primaryKey (s.primaryKey autoincrementColumn)]

theorem TableConstruct.printed_element (s : TableConstruct) :
    (s.printed autoincrementColumn).map PrintedElement.element
      = (s.created autoincrementColumn version).elements := by
  rw [printed, created, List.map_append, List.map_map]
  congr 1
  split <;> rfl

theorem TableConstruct.Readable.printed {s : TableConstruct} (h : s.Readable autoincrementColumn) :
    ∀ e ∈ s.printed autoincrementColumn, e.Readable := by
  intro e he
  rcases List.mem_append.mp he with he | he
  · obtain ⟨c, hc, rfl⟩ := List.mem_map.mp he
    exact h.columns c hc
  · split at he
    · cases he
    · rename_i hne
      rw [List.mem_singleton.mp he]
      refine ⟨hne, ?_⟩
      intro n hn
      cases s with
      | table t comment =>
        obtain ⟨c, hc, rfl⟩ := List.mem_map.mp hn
        have hmem := (mem_primaryKeyColumns.mp hc).1
        rw [← List.zipIdx_map_fst 0 t.columns] at hmem
        obtain ⟨d, hd, rfl⟩ := List.mem_map.mp hmem
        exact (h.columns _ (List.mem_map_of_mem hd)).name_ne_nil
      | under n p columns => exact absurd rfl hne
      | dontReuseOid n columns => exact absurd rfl hne

/-- A name that is always quoted. -/
theorem reads_quotedName (n : Str) (rest : List Token) :
    Reads ident (.quoted .name n :: rest) n rest :=
  reads_next (g := identifier) (t := .quoted .name n) rfl rfl rest

/-- No parents. -/
theorem reads_noParents {ts us : List Token} (h : skip ts = .symbol '(' :: us) :
    Reads underClause ts [] ts :=
  Reads.right (bind_eq_none (keyword_symbol h)) (reads_pure [] ts)

/-- One parent. -/
theorem reads_parent (p : Str) {rest : List Token} (hrest : symbol ',' rest = none) :
    Reads underClause (.word "UNDER".toList :: .space ' ' :: .quoted .name p :: rest) [p] rest := by
  have hread := reads_commaList (E := fun _ => True) (g := id)
    (T := fun p => [.quoted .name p]) layoutFree_ident [] (List.forall_mem_nil _) p []
    (fun p _ rest _ => reads_quotedName p rest) (fun _ => trivial) trivial hrest
  have hlist := hread.space layoutFree_ident.commaList ' '
  exact ((reads_keyword (by decide) _).andThen layoutFree_ident.commaList hlist).left _

/-- The texts of the columns of a construct of its own. -/
theorem map_text_columns (columns : List Column) :
    ((columns.map fun c => ((c, none) : Column × Option Bool)).map PrintedElement.column).map
        (fun e => e.text Q)
      = columns.map fun c => getColumnSpecification Q.ddlPreparer c none := by
  rw [List.map_map, List.map_map]
  rfl

/-- Everything in one line. -/
theorem bodyText_oneLine (es : List PrintedElement) (rest : Str) :
    ' ' :: bodyText Q [] [' '] [] es rest
      = " (".toList ++ (join ", ".toList (es.map fun e => e.text Q) ++ (")".toList ++ rest)) := rfl

theorem under_text (n p rest : Str) :
    "CREATE TABLE ".toList ++ (n ++ ' ' :: ("UNDER".toList ++ ' ' :: (p ++ rest)))
      = "CREATE TABLE ".toList ++ (n ++ (" UNDER ".toList ++ (p ++ rest))) := rfl

theorem parseCreate_under (name parentName : Str) (columns : List Column)
    (h : (TableConstruct.under name parentName columns).Readable autoincrementColumn) :
    parseCreate (visitCreateTableUnder Q.ddlPreparer name parentName columns)
      = some ((TableConstruct.under name parentName columns).created autoincrementColumn
        version) := by
  have hunder : lex "UNDER".toList = some [.word "UNDER".toList] := by decide
  have hname := lex_delimited .name name
  have hparent := lex_delimited .name parentName
  have hoptions := reads_tableOptions [] (List.forall_mem_nil _)
  cases columns with
  | nil =>
    have hlex := lex_create hname (lex_append hunder (c := ' ') rfl hparent)
    have hempty : Reads elementList [] [] [] := rfl
    have hread := reads_createTable (reads_quotedName name) (reads_parent parentName rfl)
      hempty hoptions
    rw [← List.append_nil (delimited .name parentName), under_text] at hlex
    exact parseCreate_of_reads hlex hread (List.forall_mem_nil _)
  | cons c cs =>
    have hbody := lex_body Q (a := []) (g := [' ']) (b := []) (by decide) (by decide) (by decide)
      (h.printed autoincrementColumn) (r := []) rfl
    have hlex := lex_create hname (lex_append hunder (c := ' ') rfl
      (lex_append hparent (c := ' ') rfl hbody))
    have helements := (reads_body Q [] [' '] [] (h.printed autoincrementColumn) []).space
      layoutFree_elementList ' '
    rw [TableConstruct.printed_element autoincrementColumn version] at helements
    have hread := reads_createTable (reads_quotedName name) (reads_parent parentName rfl)
      helements hoptions
    have htexts : ((TableConstruct.under name parentName (c :: cs)).printed
        autoincrementColumn).map (fun e => e.text Q)
          = (c :: cs).map fun c => getColumnSpecification Q.ddlPreparer c none := by
      rw [← map_text_columns, TableConstruct.printed]
      exact congrArg _ (List.append_nil _)
    rw [under_text, bodyText_oneLine, htexts] at hlex
    exact parseCreate_of_reads hlex hread (List.forall_mem_nil _)

theorem create_text (n s rest : Str) :
    "CREATE TABLE ".toList ++ (n ++ (" (".toList ++ (s ++ (")".toList ++ rest))))
      = "CREATE TABLE ".toList ++ n ++ " (".toList ++ s ++ ")".toList ++ rest := by
  simp only [List.append_assoc]

theorem parseCreate_dontReuseOid (name : Str) (columns : List Column)
    (h : (TableConstruct.dontReuseOid name columns).Readable autoincrementColumn) :
    parseCreate (visitCreateTableDontReuseOid Q.ddlPreparer version name columns)
      = some ((TableConstruct.dontReuseOid name columns).created autoincrementColumn
        version) := by
  let os : List TableOption := if supportsDontReuseOid version then [.dontReuseOid] else []
  have hname := lex_delimited .name name
  have hoptions := lex_tableOptions os (s := []) (t := []) rfl
  have hbody := lex_body Q (a := []) (g := [' ']) (b := []) (by decide) (by decide) (by decide)
    (h.printed autoincrementColumn) hoptions
  have hlex := lex_create hname hbody
  have helements := reads_body Q [] [' '] [] (h.printed autoincrementColumn)
    (os.flatMap TableOption.tokens ++ [])
  rw [TableConstruct.printed_element autoincrementColumn version] at helements
  have hread := reads_createTable (reads_quotedName name) (reads_noParents rfl) helements
    (reads_tableOptions os (List.forall_mem_nil _))
  rw [List.append_nil] at hread
  have htexts : ((TableConstruct.dontReuseOid name columns).printed autoincrementColumn).map
      (fun e => e.text Q) = columns.map fun c => getColumnSpecification Q.ddlPreparer c none := by
    rw [← map_text_columns, TableConstruct.printed]
    exact congrArg _ (List.append_nil _)
  have hos : tableOptionsText os
      = if supportsDontReuseOid version then " DONT_REUSE_OID".toList else [] := by
    show tableOptionsText (if _ then _ else _) = _
    cases supportsDontReuseOid version <;> rfl
  rw [bodyText_oneLine, htexts, List.nil_append, hos, create_text] at hlex
  exact parseCreate_of_reads hlex hread (List.forall_mem_nil _)

/-- Lines that each start with a tab. -/
theorem join_tabs (s : Str) (lines : List Str) :
    join ", \n".toList ((s :: lines).map ('\t' :: ·))
      = '\t' :: [',', ' ', '\n', '\t'].intercalate (s :: lines) := by
  induction lines generalizing s with
  | nil =>
    rw [List.map_singleton, join_singleton, List.intercalate_singleton]
  | cons t lines ih =>
    have hrest := ih t
    rw [List.map_cons] at hrest
    rw [List.map_cons, List.map_cons, join_cons_cons, hrest, List.intercalate_cons_cons]
    simp only [List.cons_append, List.append_assoc]
    rfl

/-- A line for each part. -/
theorem bodyText_lines (es : List PrintedElement) (rest : Str) :
    ' ' :: bodyText Q (if es = [] then [] else ['\n', '\t']) [' ', '\n', '\t'] ['\n'] es rest
      = " (".toList ++ (elementLines (es.map fun e => e.text Q) ++ ("\n)".toList ++ rest)) := by
  cases es with
  | nil => rfl
  | cons e es =>
    rw [if_neg (List.cons_ne_nil e es), List.map_cons, elementLines, if_pos (List.cons_ne_nil _ _),
      join_tabs]
    rfl

/-- Options behind the table, as `post_create_table` joins them. -/
theorem optionsText_map (os : List TableOption) :
    optionsText (os.map TableOption.text) = tableOptionsText os := by
  cases os with
  | nil => rfl
  | cons o os =>
    rw [optionsText, List.map_cons, if_pos (List.cons_ne_nil _ _), join_cons, tableOptionsText,
      List.flatMap_cons, List.flatMap_map]
    rfl

theorem lines_text (n s post : Str) :
    '\n' :: ("CREATE TABLE ".toList ++ (n ++ (" (".toList ++ (s ++ ("\n)".toList
        ++ (post ++ "\n\n".toList))))))
      = "\nCREATE TABLE ".toList ++ n ++ " (".toList ++ s ++ "\n)".toList ++ post
        ++ "\n\n".toList := by
  simp only [List.append_assoc]
  rfl

theorem layoutFree_createTable : LayoutFree createTable :=
  (layoutFree_keyword _).bind fun _ => (layoutFree_keyword _).bind fun _ =>
    layoutFree_ident.bind fun _ => layoutFree_underClause.bind fun _ =>
      layoutFree_elementList.bind fun _ => layoutFree_tableOption.many.bind fun _ =>
        layoutFree_pure _

/-- The texts of the elements of a `Table`. -/
theorem map_text_printed (t : Table) (comment : Option Str) :
    ((TableConstruct.table t comment).printed autoincrementColumn).map (fun e => e.text Q)
      = tableElements Q.ddlPreparer autoincrementColumn t := by
  rw [TableConstruct.printed, tableElements, List.map_append]
  congr 1
  · rw [List.map_map, TableConstruct.columns, List.map_map]
    rfl
  · rw [createTableConstraints, TableConstruct.primaryKey]
    cases (primaryKeyColumns autoincrementColumn t.columns).map Column.name with
    | nil => rfl
    | cons n ns =>
      rw [if_neg (List.cons_ne_nil _ _), if_pos (List.cons_ne_nil _ _)]
      rfl

theorem postCreateTableOptions_eq (t : Table) (comment : Option Str) :
    postCreateTableOptions Q.ddlPreparer version t.dontReuseOid comment
      = tableOptionsText ((TableConstruct.table t comment).tableOptions version) := by
  have htexts : postCreateTableOptions Q.ddlPreparer version t.dontReuseOid comment
      = optionsText (((TableConstruct.table t comment).tableOptions version).map
        TableOption.text) := by
    unfold postCreateTableOptions
    simp only [TableConstruct.tableOptions]
    cases t.dontReuseOid && supportsDontReuseOid version <;> cases comment <;> rfl
  rw [htexts, optionsText_map]

theorem parseCreate_table (t : Table) (comment : Option Str)
    (h : (TableConstruct.table t comment).Readable autoincrementColumn) :
    parseCreate (visitCreateCommentedTable Q.ddlPreparer autoincrementColumn version t comment)
      = some ((TableConstruct.table t comment).created autoincrementColumn version) := by
  let s : TableConstruct := .table t comment
  let os := s.tableOptions version
  have hname := Q.lex_quote t.name h.name_ne_nil
  have hoptions := lex_append_gap (g := ['\n', '\n']) (by decide)
    (lex_tableOptions os (s := []) (t := []) rfl)
  let as : Str := if s.printed autoincrementColumn = [] then [] else ['\n', '\t']
  have has : IsGap as := by
    show IsGap (if _ then _ else _)
    split <;> decide
  have hbody := lex_body Q (g := [' ', '\n', '\t']) (b := ['\n']) has (by decide) (by decide)
    (h.printed autoincrementColumn) hoptions
  have hlex := lex_gap (g := ['\n']) (by decide) (lex_create hname hbody)
  have helements := reads_body Q as [' ', '\n', '\t'] ['\n'] (h.printed autoincrementColumn)
    (os.flatMap TableOption.tokens ++ gapTokens ['\n', '\n'])
  rw [TableConstruct.printed_element autoincrementColumn version] at helements
  have hread := (reads_createTable (reads_ident Q h.name_ne_nil) (reads_noParents rfl) helements
    (reads_tableOptions os (isBlank_gapTokens _))).space layoutFree_createTable '\n'
  rw [bodyText_lines, map_text_printed, List.nil_append, ← postCreateTableOptions_eq Q] at hlex
  have htext := lines_text (Q.quote t.name)
    (elementLines (tableElements Q.ddlPreparer autoincrementColumn t))
    (postCreateTableOptions Q.ddlPreparer version t.dontReuseOid comment)
  have hlex' := (congrArg lex htext).symm.trans hlex
  exact parseCreate_of_reads hlex' hread (isBlank_gapTokens _)

/-- **What is printed is one statement**, with what is printed in its place. -/
theorem parseCreate_text {s : TableConstruct} (h : s.Readable autoincrementColumn) :
    parseCreate (s.text Q.ddlPreparer autoincrementColumn version)
      = some (s.created autoincrementColumn version) := by
  cases s with
  | table t comment => exact parseCreate_table Q autoincrementColumn version t comment h
  | under name parentName columns =>
    exact parseCreate_under Q autoincrementColumn version name parentName columns h
  | dontReuseOid name columns =>
    exact parseCreate_dontReuseOid Q autoincrementColumn version name columns h

end Constructs

/-! ### What the constructs declare -/

/-- The text of a default; an `Identity` has none. -/
def ServerDefault.text? : ServerDefault → Option Str
  | .absent => none
  | .identity => none
  | .clause text => some text

/-- A column is numbered if its table designates it, or by an `Identity`. -/
def isNumbered (c : Column × Option Bool) : Bool :=
  c.2 = some true ∨ c.1.serverDefault = .identity

/-- The column that the attributes declare. -/
def meantColumn (c : Column × Option Bool) : CreatedColumn where
  name := c.1.name
  typ := trim (tokensOf c.1.typ)
  options := (if isNumbered c then [.autoIncrement] else [])
    ++ (c.1.serverDefault.text?.elim [] fun d => [.default (trim (tokensOf d))])
    ++ (if c.1.nullable then [] else [.notNull])
    ++ c.1.comment.elim [] fun t => [.comment t]

namespace TableConstruct

/-- The columns that no `Table` holds. -/
def freeColumns : TableConstruct → List Column
  | .table _ _ => []
  | .under _ _ columns => columns
  | .dontReuseOid _ columns => columns

def comment : TableConstruct → Option Str
  | .table _ comment => comment
  | .under _ _ _ => none
  | .dontReuseOid _ _ => none

/-- Whether the construct asks for `DONT_REUSE_OID`. -/
def keepsOid : TableConstruct → Bool
  | .table t _ => t.dontReuseOid
  | .under _ _ _ => false
  | .dontReuseOid _ _ => true

section Meant

variable (autoincrementColumn : List Column → Option Nat) (version : Option (List Nat))

/-- The columns that are declared as the primary key; a `Table` puts the one that it
designates in front. -/
def declaredKey : TableConstruct → List Str
  | .table t _ => (primaryKeyColumns autoincrementColumn t.columns).map Column.name
  | .under _ _ columns => (columns.filter Column.primaryKey).map Column.name
  | .dontReuseOid _ columns => (columns.filter Column.primaryKey).map Column.name

/-- The table that a construct declares; servers before 11.0 do not know
`DONT_REUSE_OID`. -/
def meant (s : TableConstruct) : CreatedTable where
  name := s.name
  parents := s.parents
  elements := ((s.columns autoincrementColumn).map fun c => .column (meantColumn c))
    ++ if s.declaredKey autoincrementColumn = [] then []
      else [.primaryKey (s.declaredKey autoincrementColumn)]
  options := (if s.keepsOid ∧ [11, 0] ≤ version.getD [0] then [.dontReuseOid] else [])
    ++ s.comment.elim [] fun t => [.comment t]

/-- What the statement of a construct can express: no column is a key that no `Table`
holds, and one that is numbered is an integer that its table designates, with
neither a `Sequence` nor a default. -/
structure Expressible (s : TableConstruct) : Prop where
  readable : s.Readable autoincrementColumn
  keyless : ∀ c ∈ s.freeColumns, c.primaryKey = false
  numbered : ∀ c ∈ s.columns autoincrementColumn, isNumbered c = true →
    c.2 = some true ∧ c.1.Numbered

variable {autoincrementColumn} {s : TableConstruct}

theorem eq_of_free {c : Column × Option Bool} (hc : c ∈ s.columns autoincrementColumn)
    (h : c.2 = none) : c.1 ∈ s.freeColumns := by
  cases s with
  | table t comment =>
    obtain ⟨d, -, rfl⟩ := List.mem_map.mp hc
    cases h
  | under n p columns =>
    obtain ⟨d, hd, rfl⟩ := List.mem_map.mp hc
    exact hd
  | dontReuseOid n columns =>
    obtain ⟨d, hd, rfl⟩ := List.mem_map.mp hc
    exact hd

namespace Expressible

variable (h : s.Expressible autoincrementColumn)
include h

/-- `AUTO_INCREMENT` is printed where it is declared. -/
theorem isAutoIncrement_eq {c : Column × Option Bool}
    (hc : c ∈ s.columns autoincrementColumn) : isAutoIncrement c.1 c.2 = isNumbered c := by
  rw [Bool.eq_iff_iff, isAutoIncrement_iff]
  constructor
  · rintro ⟨hnumbered, hdesignated⟩
    cases hd : c.2 with
    | none =>
      have hkey := h.keyless c.1 (eq_of_free hc hd)
      rw [hnumbered.primary_key] at hkey
      cases hkey
    | some b =>
      cases b with
      | true => exact decide_eq_true (Or.inl hd)
      | false => exact absurd hd hdesignated
  · intro hnumbered
    obtain ⟨hd, hc⟩ := h.numbered c hc hnumbered
    exact ⟨hc, by rw [hd]; exact fun h => by cases h⟩

theorem createdColumnOf_eq {c : Column × Option Bool} (hc : c ∈ s.columns autoincrementColumn) :
    createdColumnOf c = meantColumn c := by
  have hdefault : columnDefaultString c.1 = c.1.serverDefault.text? := by
    rw [columnDefaultString]
    cases c.1.serverDefault <;> rfl
  unfold createdColumnOf printedOptions meantColumn
  rw [h.isAutoIncrement_eq hc, hdefault]
  cases isNumbered c <;> cases c.1.serverDefault.text? <;> cases c.1.nullable <;>
    cases c.1.comment <;> rfl

theorem primaryKey_eq :
    s.primaryKey autoincrementColumn = s.declaredKey autoincrementColumn := by
  have hnil {columns : List Column} (hcolumns : ∀ c ∈ columns, c.primaryKey = false) :
      (columns.filter Column.primaryKey).map Column.name = [] := by
    rw [List.map_eq_nil_iff, List.filter_eq_nil_iff]
    intro c hc
    rw [hcolumns c hc]
    exact Bool.false_ne_true
  cases s with
  | table t comment => rfl
  | under n p columns => exact (hnil h.keyless).symm
  | dontReuseOid n columns => exact (hnil h.keyless).symm

/-- **The statement prints the table that is declared.** -/
theorem created_eq_meant :
    s.created autoincrementColumn version = s.meant autoincrementColumn version := by
  have hcolumns : ((s.columns autoincrementColumn).map fun c =>
      TableElement.column (createdColumnOf c))
        = (s.columns autoincrementColumn).map fun c => .column (meantColumn c) := by
    apply List.map_congr_left
    intro c hc
    rw [h.createdColumnOf_eq hc]
  have hoptions : s.tableOptions version
      = (if s.keepsOid ∧ [11, 0] ≤ version.getD [0] then [.dontReuseOid] else [])
        ++ s.comment.elim [] fun t => [.comment t] := by
    have hversion : supportsDontReuseOid version = true ↔ [11, 0] ≤ version.getD [0] :=
      decide_eq_true_iff
    cases s with
    | table t comment =>
      refine congrArg₂ _ (if_congr ?_ rfl rfl) rfl
      rw [Bool.and_eq_true, hversion]
      rfl
    | under n p columns => rfl
    | dontReuseOid n columns =>
      refine (if_congr ?_ rfl rfl).trans (List.append_nil _).symm
      rw [hversion]
      exact (and_iff_right rfl).symm
  rw [created, meant, hcolumns, h.primaryKey_eq, hoptions]

/-- **What is printed is one statement, and the one that is meant.** -/
theorem parseCreate_meant (Q : NameQuoter) :
    parseCreate (s.text Q.ddlPreparer autoincrementColumn version)
      = some (s.meant autoincrementColumn version) := by
  rw [parseCreate_text Q autoincrementColumn version h.readable, h.created_eq_meant]

end Expressible

end Meant

end TableConstruct

end SqlalchemyCubrid.Compiler
