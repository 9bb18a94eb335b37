import SqlalchemyCubrid.Python.Str

/-!
# Column types

`SqlType` is the SQLAlchemy type objects that the type compiler renders and that
reflection builds, with the arguments either of them reads.  A generic class is
in lower case (`Float` is `float`), an SQL name in upper case (`FLOAT`).
-/

namespace SqlalchemyCubrid.Types

open Python

/-- `CubridSet`, `CubridMultiset` and `CubridList`. -/
inductive CollectionKind where
  | set
  | multiset
  | list
  deriving DecidableEq, Repr

/-- `_collection_keyword` -/
def CollectionKind.keyword : CollectionKind → Str
  | .set => "SET".toList
  | .multiset => "MULTISET".toList
  | .list => "SEQUENCE".toList

/-- `_CollectionType.get_col_spec`: `KEYWORD_OF(element_type)`. -/
def getColSpec (kind : CollectionKind) (elementType : Str) : Str :=
  kind.keyword ++ "_OF".toList ++ '(' :: (elementType ++ [')'])

/-- The element type a collection class takes when it is given none. -/
def defaultElementType : Str := "VARCHAR(1073741823)".toList

/-- The scalar types.  Precisions, scales and lengths are the constructor's
arguments; `none` is an argument left out. -/
inductive ScalarType where
  | integer
  | bigInteger
  | smallInteger
  | boolean
  | numeric (precision scale : Option Int)
  | string (length : Option Int)
  | unicode (length : Option Int)
  | text (length : Option Int)
  | unicodeText (length : Option Int)
  | float (precision : Option Int)
  | double (precision : Option Int)
  | date
  | time
  | dateTime
  | largeBinary (length : Option Int)
  | INTEGER
  | BIGINT
  | SMALLINT
  | BOOLEAN
  | NUMERIC (precision scale : Option Int)
  | VARCHAR (length : Option Int)
  | CHAR (length : Option Int)
  | NCHAR (length : Option Int)
  | NVARCHAR (length : Option Int)
  | TEXT (length : Option Int)
  | FLOAT (precision : Option Int)
  | DOUBLE (precision : Option Int)
  | DATE
  | TIME
  | DATETIME
  | TIMESTAMP
  | BLOB
  | CLOB
  | JSON
  deriving DecidableEq, Repr

inductive SqlType where
  | scalar (t : ScalarType)
  | enum (values : List Str)
  | collection (kind : CollectionKind) (elementType : Str)
  /-- `NullType`, for a type string that is not understood -/
  | null
  deriving DecidableEq, Repr

end SqlalchemyCubrid.Types
