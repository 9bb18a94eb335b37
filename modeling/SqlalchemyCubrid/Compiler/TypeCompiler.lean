import SqlalchemyCubrid.Types.SqlType

/-!
# The type compiler

`CubridTypeCompiler` turns a type object into the type string of a column
definition.  What it leaves to SQLAlchemy's `GenericTypeCompiler` is a parameter,
with the texts that class documents.
-/

namespace SqlalchemyCubrid.Compiler

open Python SqlalchemyCubrid.Types

/-- What the repository uses of SQLAlchemy's `GenericTypeCompiler`. -/
structure GenericTypeCompiler where
  visitINTEGER : Str
  visitBIGINT : Str
  visitSMALLINT : Str
  visitNUMERIC : Option Int → Option Int → Str
  visitVARCHAR : Option Int → Str
  visitCHAR : Option Int → Str
  visitEnum : List Str → Str
  integer : visitINTEGER = "INTEGER".toList
  bigint : visitBIGINT = "BIGINT".toList
  smallint : visitSMALLINT = "SMALLINT".toList
  numeric_default : ∀ s, visitNUMERIC none s = "NUMERIC".toList
  numeric_precision : ∀ p, visitNUMERIC (some p) none
    = "NUMERIC".toList ++ '(' :: (formatInt p ++ [')'])
  numeric_scale : ∀ p s, ∃ gap : Str, (∀ c ∈ gap, c = ' ') ∧ visitNUMERIC (some p) (some s)
    = "NUMERIC".toList ++ '(' :: ((formatInt p ++ ',' :: (gap ++ formatInt s)) ++ [')'])
  varchar_default : visitVARCHAR none = "VARCHAR".toList
  varchar_length : ∀ n, n ≠ 0 →
    visitVARCHAR (some n) = "VARCHAR".toList ++ '(' :: (formatInt n ++ [')'])
  varchar_zero :
    visitVARCHAR (some 0) = "VARCHAR".toList ∨ visitVARCHAR (some 0) = "VARCHAR(0)".toList
  char_default : visitCHAR none = "CHAR".toList
  char_length : ∀ n, n ≠ 0 →
    visitCHAR (some n) = "CHAR".toList ++ '(' :: (formatInt n ++ [')'])
  char_zero : visitCHAR (some 0) = "CHAR".toList ∨ visitCHAR (some 0) = "CHAR(0)".toList

section Visit

variable (G : GenericTypeCompiler)

def visitFLOAT (precision : Option Int) : Str :=
  match precision with
  | some p => if p > 7 then "DOUBLE".toList else "FLOAT".toList
  | none => "DOUBLE".toList

/-- `if type_.length: return "NAME(%d)" % type_.length`, and the name alone
otherwise. -/
def withLength (name : Str) : Option Int → Str
  | none => name
  | some n => if n ≠ 0 then name ++ '(' :: (formatInt n ++ [')']) else name

def visitNCHAR : Option Int → Str := withLength "CHAR".toList

def visitNVARCHAR : Option Int → Str := withLength "VARCHAR".toList

def visitUnicode : Option Int → Str := withLength "VARCHAR".toList

/-- The `visit_` method a scalar type reaches.  A generic class goes through
`GenericTypeCompiler` to the method of its SQL name. -/
def visit : ScalarType → Str
  | .integer | .INTEGER => G.visitINTEGER
  | .bigInteger | .BIGINT => G.visitBIGINT
  | .smallInteger | .SMALLINT => G.visitSMALLINT
  | .boolean | .BOOLEAN => "SMALLINT".toList
  | .numeric p s | .NUMERIC p s => G.visitNUMERIC p s
  | .string n | .VARCHAR n => G.visitVARCHAR n
  | .CHAR n => G.visitCHAR n
  | .NCHAR n => visitNCHAR n
  | .NVARCHAR n => visitNVARCHAR n
  | .unicode n => visitUnicode n
  | .text _ | .TEXT _ | .unicodeText _ => "STRING".toList
  | .float p | .FLOAT p => visitFLOAT p
  | .double _ | .DOUBLE _ => "DOUBLE".toList
  | .date | .DATE => "DATE".toList
  | .time | .TIME => "TIME".toList
  | .dateTime | .DATETIME => "DATETIME".toList
  | .TIMESTAMP => "TIMESTAMP".toList
  | .BLOB => "BLOB".toList
  | .CLOB => "CLOB".toList
  | .largeBinary _ => "BIT VARYING(1073741823)".toList
  | .JSON => "JSON".toList

/-- The rendered type; `none` is the `CompileError` a `NullType` raises. -/
def process : SqlType → Option Str
  | .scalar t => some (visit G t)
  | .enum values => some (G.visitEnum values)
  | .collection kind elementType => some (getColSpec kind elementType)
  | .null => none

end Visit

end SqlalchemyCubrid.Compiler
