import SqlalchemyCubrid.Dialect.Indexes

/-!
# Views, parents and references

The methods that read the rest of the catalog: views and their definitions, the
parents and children of a table, the columns it inherits and those that refer to a
class.

Some methods raise for a name that is not there, the others take it for a table
that has nothing.  `reflect_eq_error_iff` says which exception it is for all that
raise: the name as it was given, and exactly when there is no such object.
-/

namespace SqlalchemyCubrid.Dialect

open Lib Python

/-! ### The database -/

/-- A row of `db_direct_super_class`. -/
structure DirectSuperClass where
  className : Str
  superClassName : Str
  deriving DecidableEq, Repr

/-- A row of `db_attribute`. -/
structure DbAttribute where
  className : Str
  attrName : Str
  domainClassName : Option Str
  fromClassName : Option Str
  defOrder : Int
  deriving DecidableEq, Repr

structure Database where
  catalog : Catalog
  /-- `vclass_name` and `vclass_def` -/
  dbVclass : List (Str × Option Str)
  directSuperClass : List DirectSuperClass
  dbAttribute : List DbAttribute

/-- An item of `get_oid_columns`. -/
structure OidReference where
  name : Str
  referencedClass : Option Str
  deriving DecidableEq, Repr

/-- An item of `get_inherited_columns`. -/
structure InheritedColumn where
  name : Str
  fromClass : Option Str
  defOrder : Int
  deriving DecidableEq, Repr

/-! ### The methods -/

section Methods

variable [UnicodeData] (db : Database) (tableName : Str)

def getViewNames : List Str :=
  (orderBy DbClass.className (db.catalog.dbClass.filter fun c =>
    c.isSystemClass = .no ∧ c.classType = "VCLASS".toList)).map DbClass.className

def getViewDefinition : Except PyError (Option Str) :=
  ((db.dbVclass.filter fun r => r.1 = lower tableName).head?).elim
    (.error (.noSuchTableError tableName)) fun row => .ok row.2

/-- `CHECK` constraints are not stored. -/
def getCheckConstraints : Except PyError (List Str) :=
  if hasObject db.catalog tableName then .ok [] else .error (.noSuchTableError tableName)

def getSuperClassName : Option Str :=
  ((db.directSuperClass.filter fun r => r.className = lower tableName).head?).map
    DirectSuperClass.superClassName

def getSubClassNames : List Str :=
  (orderBy DirectSuperClass.className
    (db.directSuperClass.filter fun r => r.superClassName = lower tableName)).map
      DirectSuperClass.className

def getOidColumns : List OidReference :=
  (orderBy DbAttribute.defOrder (db.dbAttribute.filter fun a =>
    a.className = lower tableName ∧ a.domainClassName ≠ none ∧ a.domainClassName ≠ some [])).map
      fun a => ⟨a.attrName, a.domainClassName⟩

def getInheritedColumns : List InheritedColumn :=
  (orderBy DbAttribute.defOrder (db.dbAttribute.filter fun a =>
    a.className = lower tableName)).map fun a => ⟨a.attrName, a.fromClassName, a.defOrder⟩

end Methods

/-! ### What is missing -/

inductive ReflectionMethod where
  | pkConstraint
  | uniqueConstraints
  | indexes
  | checkConstraints
  | viewDefinition
  | viewNames
  | superClassName
  | subClassNames
  | oidColumns
  deriving DecidableEq, Repr

inductive Reflected where
  | pkConstraint (c : PkConstraint)
  | uniqueConstraints (l : List UniqueConstraint)
  | indexes (l : List ReflectedIndex)
  | checkConstraints (l : List Str)
  | viewDefinition (definition : Option Str)
  | names (l : List Str)
  | superClassName (name : Option Str)
  | oidColumns (l : List OidReference)
  deriving DecidableEq

section Missing

variable [UnicodeData]

def reflect (db : Database) (tableName : Str) : ReflectionMethod → Except PyError Reflected
  | .pkConstraint => (getPkConstraint db.catalog tableName).map .pkConstraint
  | .uniqueConstraints => (getUniqueConstraints db.catalog tableName).map .uniqueConstraints
  | .indexes => (getIndexes db.catalog tableName).map .indexes
  | .checkConstraints => (getCheckConstraints db tableName).map .checkConstraints
  | .viewDefinition => (getViewDefinition db tableName).map .viewDefinition
  | .viewNames => .ok (.names (getViewNames db))
  | .superClassName => .ok (.superClassName (getSuperClassName db tableName))
  | .subClassNames => .ok (.names (getSubClassNames db tableName))
  | .oidColumns => .ok (.oidColumns (getOidColumns db tableName))

/-- The method finds what it is asked about; the last four take what is missing for
what has nothing. -/
def Finds (db : Database) (tableName : Str) : ReflectionMethod → Prop
  | .pkConstraint => hasObject db.catalog tableName = true
  | .uniqueConstraints => hasObject db.catalog tableName = true
  | .indexes => hasObject db.catalog tableName = true
  | .checkConstraints => hasObject db.catalog tableName = true
  | .viewDefinition => ∃ r ∈ db.dbVclass, r.1 = lower tableName
  | .viewNames => True
  | .superClassName => True
  | .subClassNames => True
  | .oidColumns => True

omit [UnicodeData] in
theorem map_ite_eq_error_iff {α : Type} {b : Bool} {a : α} {t : Str} (f : α → Reflected)
    (e : PyError) :
    (if b then .ok a else .error (.noSuchTableError t) : Except PyError α).map f = .error e ↔
      e = .noSuchTableError t ∧ ¬ b = true := by
  cases b with
  | true => exact iff_of_false (fun h => nomatch h) fun h => h.2 rfl
  | false =>
    rw [if_neg Bool.false_ne_true]
    show (Except.error (PyError.noSuchTableError t) : Except PyError Reflected) = _ ↔ _
    rw [Except.error.injEq, eq_comm]
    exact (and_iff_left Bool.false_ne_true).symm

omit [UnicodeData] in
theorem map_elim_eq_error_iff {α β : Type} {rows : List α} {t : Str} (g : α → β)
    (f : β → Reflected) (e : PyError) :
    (rows.head?.elim (.error (.noSuchTableError t)) fun r => .ok (g r) : Except PyError β).map f
        = .error e ↔
      e = .noSuchTableError t ∧ rows = [] := by
  cases rows with
  | cons r rows => exact iff_of_false (fun h => nomatch h) fun h => nomatch h.2
  | nil =>
    show (Except.error (PyError.noSuchTableError t) : Except PyError Reflected) = _ ↔ _
    rw [Except.error.injEq, eq_comm]
    exact (and_iff_left rfl).symm

/-- **All methods that raise do so alike**: about the name they were given, and
because it is not there. -/
theorem reflect_eq_error_iff (db : Database) (t : Str) (m : ReflectionMethod) (e : PyError) :
    reflect db t m = .error e ↔ e = .noSuchTableError t ∧ ¬ Finds db t m := by
  have hnever {r : Reflected} : (Except.ok r : Except PyError Reflected) = .error e ↔
      e = .noSuchTableError t ∧ ¬ True :=
    iff_of_false (fun h => nomatch h) fun h => h.2 trivial
  cases m with
  | pkConstraint => exact map_ite_eq_error_iff _ e
  | uniqueConstraints => exact map_ite_eq_error_iff _ e
  | indexes => exact map_ite_eq_error_iff _ e
  | checkConstraints => exact map_ite_eq_error_iff _ e
  | viewDefinition =>
    have hfinds : ¬ Finds db t .viewDefinition ↔
        (db.dbVclass.filter fun r => r.1 = lower t) = [] := by
      rw [List.filter_eq_nil_iff]
      simp only [Finds, decide_eq_true_eq, not_exists, not_and]
    show (getViewDefinition db t).map _ = _ ↔ _
    rw [hfinds]
    exact map_elim_eq_error_iff _ _ e
  | viewNames => exact hnever
  | superClassName => exact hnever
  | subClassNames => exact hnever
  | oidColumns => exact hnever

end Missing

end SqlalchemyCubrid.Dialect
