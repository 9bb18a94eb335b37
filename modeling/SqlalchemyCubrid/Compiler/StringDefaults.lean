import SqlalchemyCubrid.Compiler.AutoIncrement
import SqlalchemyCubrid.Compiler.TypeCompiler
import SqlalchemyCubrid.Dialect.Columns
import SqlalchemyCubrid.Dialect.RecreateType

/-!
# Defaults that are strings

`SHOW COLUMNS` shows the default `'d'` of a column as `d`.  `get_columns` hands on
what is shown, SQLAlchemy takes it for SQL text, and `get_column_specification`
writes it behind `DEFAULT`.

A default is kept if what stands there is one expression with the value `d`
(`KeepsDefault`).  An expression that is a string is longer than the string
(`StringConstant.length_lt`), so that none is: `string_default_never_kept`.
-/

namespace SqlalchemyCubrid.Compiler

open Lib Lib.Sql Python SqlalchemyCubrid.Types Dialect

/-! ### The way back -/

/-- `_type_affinity is Integer` -/
def hasIntegerAffinity : SqlType → Bool
  | .scalar .integer | .scalar .INTEGER | .scalar .bigInteger | .scalar .BIGINT
  | .scalar .smallInteger | .scalar .SMALLINT => true
  | _ => false

/-- The `Column` that SQLAlchemy builds of a reflected one, with its compiled
type: a default is SQL text. -/
def reflectedTableColumn (typ : Str) (primaryKey : Bool) (r : ReflectedColumn) : Column where
  name := r.name
  typ := typ
  integerAffinity := hasIntegerAffinity r.typ
  primaryKey := primaryKey
  autoincrement := if r.autoincrement then .yes else .no
  hasSequence := false
  serverDefault := r.default.elim .absent .clause
  nullable := r.nullable
  comment := r.comment

/-! ### String expressions -/

/-- Expressions that are strings: literals, alone, in parentheses or joined.  A literal
with a prefix, as `N'..'` or `_utf8'..'`, is longer than its value as well, so that it
needs no case of its own. -/
inductive StringConstant : List Token → Str → Prop
  | literal (s : Str) : StringConstant [.quoted .literal s] s
  | before {t : Token} {ts : List Token} {s : Str} (blank : isBlank t) (h : StringConstant ts s) :
      StringConstant (t :: ts) s
  | behind {t : Token} {ts : List Token} {s : Str} (blank : isBlank t) (h : StringConstant ts s) :
      StringConstant (ts ++ [t]) s
  | parens {ts : List Token} {s : Str} (h : StringConstant ts s) :
      StringConstant (.symbol '(' :: (ts ++ [.symbol ')'])) s
  | join {ts us : List Token} {s t : Str} (hs : StringConstant ts s) (ht : StringConstant us t) :
      StringConstant (ts ++ .symbol '|' :: .symbol '|' :: us) (s ++ t)

/-- **A string is shorter than what stands for it.** -/
theorem StringConstant.length_lt {ts : List Token} {s : Str} (h : StringConstant ts s) :
    s.length < (textOf ts).length := by
  induction h with
  | literal s =>
    have hdouble := length_le_double Quote.literal.char s
    rw [textOf_singleton, Token.text, delimited, List.length_cons, List.length_append]
    omega
  | @before t ts s _ _ ih =>
    have htext : textOf (t :: ts) = t.text ++ textOf ts := rfl
    rw [htext, List.length_append]
    omega
  | @behind t ts s _ _ ih =>
    rw [textOf_append, List.length_append]
    omega
  | @parens ts s _ ih =>
    have htext : textOf (.symbol '(' :: (ts ++ [.symbol ')']))
        = '(' :: textOf (ts ++ [.symbol ')']) := rfl
    rw [htext, List.length_cons, textOf_append, List.length_append]
    omega
  | @join ts us s t _ _ ihs iht =>
    have htext : textOf (.symbol '|' :: .symbol '|' :: us) = '|' :: '|' :: textOf us := rfl
    rw [textOf_append, htext, List.length_append, List.length_append, List.length_cons,
      List.length_cons]
    omega

/-! ### What is kept -/

section Kept

variable (P : DdlPreparer)

/-- What stands behind the default of a column. -/
def specificationEnd (c : Column) : Str :=
  (if !c.nullable then " NOT NULL".toList else [])
    ++ (c.comment.elim [] fun t => " COMMENT ".toList ++ P.renderLiteral t)

/-- The rendered column has one expression for its default, of the value `d`, and
is otherwise as the column says. -/
def KeepsDefault (G : GenericTypeCompiler) (primaryKey : Bool) (designated : Option Bool)
    (r : ReflectedColumn) (d : Str) : Prop :=
  ∃ typ expression ts, process G r.typ = some typ ∧ lex expression = some ts ∧
    StringConstant ts d ∧
    getColumnSpecification P (reflectedTableColumn typ primaryKey r) designated
      = specificationHead P (reflectedTableColumn typ primaryKey r)
        ++ generation (reflectedTableColumn typ primaryKey r) designated
        ++ " DEFAULT ".toList ++ expression
        ++ specificationEnd P (reflectedTableColumn typ primaryKey r)

/-- **What stands behind `DEFAULT` is what was shown.** -/
theorem getColumnSpecification_default (typ : Str) (primaryKey : Bool) (designated : Option Bool)
    {r : ReflectedColumn} {d : Str} (h : r.default = some d) :
    getColumnSpecification P (reflectedTableColumn typ primaryKey r) designated
      = specificationHead P (reflectedTableColumn typ primaryKey r)
        ++ generation (reflectedTableColumn typ primaryKey r) designated
        ++ " DEFAULT ".toList ++ d
        ++ specificationEnd P (reflectedTableColumn typ primaryKey r) := by
  have htail : specificationTail P (reflectedTableColumn typ primaryKey r)
      = " DEFAULT ".toList ++ d
        ++ specificationEnd P (reflectedTableColumn typ primaryKey r) := by
    unfold specificationTail specificationEnd reflectedTableColumn columnDefaultString
    simp only [h, Option.elim, List.append_assoc]
  rw [getColumnSpecification_generation, htail]
  simp only [List.append_assoc]

/-- A default that comes with its quotes is kept. -/
theorem keepsDefault_quoted (G : GenericTypeCompiler) (primaryKey : Bool)
    (designated : Option Bool) {r : ReflectedColumn} {typ : Str} (htyp : process G r.typ = some typ)
    {d : Str} (h : r.default = some (delimited .literal d)) :
    KeepsDefault P G primaryKey designated r d := by
  refine ⟨typ, delimited .literal d, [.quoted .literal d], htyp, lex_delimited .literal d,
    .literal d, ?_⟩
  exact getColumnSpecification_default P typ primaryKey designated h

/-- One that comes without them is not: the text would be longer than itself. -/
theorem not_keepsDefault (G : GenericTypeCompiler) (primaryKey : Bool) (designated : Option Bool)
    {r : ReflectedColumn} {d : Str} (h : r.default = some d) :
    ¬ KeepsDefault P G primaryKey designated r d := by
  rintro ⟨typ, expression, ts, -, hlex, hconstant, htext⟩
  rw [getColumnSpecification_default P typ primaryKey designated h] at htext
  have hequal : d = expression :=
    List.append_cancel_left (List.append_cancel_right htext)
  have hlength := hconstant.length_lt
  rw [text_of_lex hlex, ← hequal] at hlength
  exact Nat.lt_irrefl _ hlength

end Kept

/-- **No string default survives reflection**: whatever the table, the column of a
default `'d'` is reflected with the text `d`, which is not an expression of the
value `d`. -/
theorem string_default_never_kept [UnicodeData] (P : DdlPreparer) (G : GenericTypeCompiler)
    (primaryKey : Bool) (designated : Option Bool) (tableName : Str)
    (comments : List (Str × Option Str)) (before after : List ColumnsRow) (row : ColumnsRow)
    (d : Str) :
    ∃ columns r,
      getColumns (.ok (before ++ { row with default := some d } :: after)) ⟨comments, none⟩
        tableName = .ok columns ∧
      columns[before.length]? = some r ∧ r.default = some d ∧
      ¬ KeepsDefault P G primaryKey designated r d := by
  let rows := before ++ { row with default := some d } :: after
  let r := columnInfo (commentMap comments) { row with default := some d }
  have hrow : rows[before.length]? = some { row with default := some d } := by
    rw [List.getElem?_append_right (Nat.le_refl _), Nat.sub_self]
    rfl
  refine ⟨rows.map (columnInfo (commentMap comments)), r, ?_, ?_, rfl, ?_⟩
  · exact getColumns_ok (Or.inl rfl) tableName
  · rw [List.getElem?_map, hrow]
    rfl
  · exact not_keepsDefault P G primaryKey designated rfl

/-- **A default runs into the rest**: the nullable column with the default
`'0 NOT NULL'`, and the one with the default `'0'` that is not. -/
theorem default_runs_into_rest :
    let _ := asciiData
    let long : ColumnsRow := ⟨"c".toList, "VARCHAR(20)".toList, "YES".toList,
      some "0 NOT NULL".toList, none⟩
    let short : ColumnsRow := ⟨"c".toList, "VARCHAR(20)".toList, "NO".toList,
      some "0".toList, none⟩
    let print := fun row => getColumnSpecification plainDdlPreparer
      (reflectedTableColumn "VARCHAR(20)".toList false (columnInfo [] row)) (some false)
    print long = "c VARCHAR(20) DEFAULT 0 NOT NULL".toList ∧ print long = print short ∧
      ¬ KeepsDefault plainDdlPreparer genericTypeCompiler false (some false)
        (columnInfo [] long) "0 NOT NULL".toList := by
  intro _ long short print
  refine ⟨by decide +kernel, by decide +kernel, ?_⟩
  exact not_keepsDefault _ _ _ _ rfl

end SqlalchemyCubrid.Compiler
