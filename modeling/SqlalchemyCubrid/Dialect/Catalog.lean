import SqlalchemyCubrid.Lib.OrderBy
import SqlalchemyCubrid.Python.Exception
import Mathlib.Data.List.Lex
import Mathlib.Data.Char

/-!
# The catalog

The columns of `db_class`, `db_index` and `db_index_key` the dialect selects,
`WellFormed` catalogs, and the join the three index queries share.

`indexRows_eq` says what the join gives on a well-formed catalog: the indexes in
the order of their names, each with its keys in key order.
-/

namespace SqlalchemyCubrid.Dialect

open Lib Python

/-- A catalog column that holds `'YES'` or `'NO'`. -/
inductive YesNo where
  | yes
  | no
  deriving DecidableEq, Repr

structure DbClass where
  className : Str
  isSystemClass : YesNo
  /-- `'CLASS'` or `'VCLASS'` -/
  classType : Str
  deriving DecidableEq, Repr

structure DbIndex where
  indexName : Str
  className : Str
  isUnique : YesNo
  isReverse : YesNo
  isPrimaryKey : YesNo
  isForeignKey : YesNo
  filterExpression : Option Str
  haveFunction : YesNo
  deriving DecidableEq, Repr

structure DbIndexKey where
  indexName : Str
  className : Str
  /-- `NULL` for a key that is a function -/
  keyAttrName : Option Str
  keyOrder : Int
  ascDesc : Option Str
  func : Option Str
  deriving DecidableEq, Repr

structure Catalog where
  dbClass : List DbClass
  dbIndex : List DbIndex
  dbIndexKey : List DbIndexKey

namespace Catalog

/-- The condition of the join. -/
def Joins (i : DbIndex) (k : DbIndexKey) : Prop :=
  i.indexName = k.indexName ∧ i.className = k.className

instance (i : DbIndex) (k : DbIndexKey) : Decidable (Joins i k) :=
  inferInstanceAs (Decidable (_ ∧ _))

/-- The keys of an index, as the catalog has them. -/
def keyRows (cat : Catalog) (i : DbIndex) : List DbIndexKey :=
  cat.dbIndexKey.filter fun k => Joins i k

/-- The keys of an index, in key order. -/
def keysOf (cat : Catalog) (i : DbIndex) : List DbIndexKey :=
  orderBy DbIndexKey.keyOrder (cat.keyRows i)

/-- `FROM db_index i JOIN db_index_key k .. WHERE i.class_name = :name AND ..` -/
def joined (cat : Catalog) (name : Str) (cond : DbIndex → Bool) : List (DbIndex × DbIndexKey) :=
  (cat.dbIndex.flatMap fun i => (cat.keyRows i).map fun k => (i, k)).filter fun r =>
    r.1.className = name ∧ cond r.1

/-- The same with `ORDER BY i.index_name, k.key_order`. -/
def indexRows (cat : Catalog) (name : Str) (cond : DbIndex → Bool) : List (DbIndex × DbIndexKey) :=
  orderBy (fun r => toLex (r.1.indexName, r.2.keyOrder)) (cat.joined name cond)

/-- The same with `ORDER BY k.key_order`. -/
def keyOrderedRows (cat : Catalog) (name : Str) (cond : DbIndex → Bool) :
    List (DbIndex × DbIndexKey) :=
  orderBy (fun r => r.2.keyOrder) (cat.joined name cond)

/-- What the catalog of a server promises about its indexes. -/
structure WellFormed (cat : Catalog) : Prop where
  index_identified : (cat.dbIndex.map fun i => (i.className, i.indexName)).Nodup
  not_primary_and_foreign : ∀ i ∈ cat.dbIndex, ¬ (i.isPrimaryKey = .yes ∧ i.isForeignKey = .yes)
  one_primary_key : ∀ i ∈ cat.dbIndex, ∀ j ∈ cat.dbIndex, i.isPrimaryKey = .yes →
    j.isPrimaryKey = .yes → i.className = j.className → i = j
  key_orders : ∀ i ∈ cat.dbIndex, ((cat.keyRows i).map DbIndexKey.keyOrder).Nodup

/-- The indexes of a class that meet a condition. -/
def indexesOf (cat : Catalog) (name : Str) (cond : DbIndex → Bool) : List DbIndex :=
  cat.dbIndex.filter fun i => i.className = name ∧ cond i

variable {cat : Catalog}

theorem mem_indexesOf {name : Str} {cond : DbIndex → Bool} {i : DbIndex} :
    i ∈ cat.indexesOf name cond ↔ i ∈ cat.dbIndex ∧ i.className = name ∧ cond i = true := by
  rw [indexesOf, List.mem_filter, decide_eq_true_iff]

/-- The conditions are on the index, so they choose the indexes that are joined. -/
theorem joined_eq (cat : Catalog) (name : Str) (cond : DbIndex → Bool) :
    cat.joined name cond
      = (cat.indexesOf name cond).flatMap fun i => (cat.keyRows i).map fun k => (i, k) := by
  rw [joined, indexesOf]
  induction cat.dbIndex with
  | nil => rfl
  | cons i is ih =>
    rw [List.flatMap_cons, List.filter_append, ih, List.filter_cons]
    by_cases h : i.className = name ∧ cond i = true
    · have hall : ((cat.keyRows i).map fun k => (i, k)).filter
          (fun r => decide (r.1.className = name ∧ cond r.1 = true))
          = (cat.keyRows i).map fun k => (i, k) := by
        rw [List.filter_eq_self]
        intro r hr
        obtain ⟨k, -, rfl⟩ := List.mem_map.mp hr
        exact decide_eq_true h
      rw [hall, if_pos (decide_eq_true h), List.flatMap_cons]
    · have hnone : ((cat.keyRows i).map fun k => (i, k)).filter
          (fun r => decide (r.1.className = name ∧ cond r.1 = true)) = [] := by
        rw [List.filter_eq_nil_iff]
        intro r hr
        obtain ⟨k, -, rfl⟩ := List.mem_map.mp hr
        simpa using h
      rw [hnone, List.nil_append, if_neg (by simpa using h)]

/-- The rows of one index, ordered by its keys alone. -/
theorem keyOrderedRows_eq {name : Str} {cond : DbIndex → Bool} {i : DbIndex}
    (h : cat.indexesOf name cond = [i]) :
    cat.keyOrderedRows name cond = (cat.keysOf i).map fun k => (i, k) := by
  rw [keyOrderedRows, joined_eq, h, List.flatMap_cons, List.flatMap_nil, List.append_nil]
  exact (map_orderBy DbIndexKey.keyOrder _ (fun k => (i, k)) fun k _ => rfl).symm

namespace WellFormed

variable (wf : cat.WellFormed)
include wf

/-- In one class the name identifies the index. -/
theorem nodup_indexName (name : Str) (cond : DbIndex → Bool) :
    ((cat.indexesOf name cond).map DbIndex.indexName).Nodup := by
  have hnodup : (cat.indexesOf name cond).Nodup :=
    (List.Nodup.of_map _ wf.index_identified).filter _
  refine List.Nodup.map_on ?_ hnodup
  intro i hi j hj hij
  obtain ⟨hi, hci, -⟩ := mem_indexesOf.mp hi
  obtain ⟨hj, hcj, -⟩ := mem_indexesOf.mp hj
  apply List.inj_on_of_nodup_map wf.index_identified hi hj
  show (i.className, i.indexName) = (j.className, j.indexName)
  rw [hci, hcj, hij]

/-- **The rows of the join**, index after index and key after key. -/
theorem indexRows_eq (name : Str) (cond : DbIndex → Bool) :
    cat.indexRows name cond
      = (orderBy DbIndex.indexName (cat.indexesOf name cond)).flatMap fun i =>
          (cat.keysOf i).map fun k => (i, k) := by
  rw [indexRows, joined_eq]
  exact orderBy_join DbIndex.indexName DbIndexKey.keyOrder cat.keyRows
    (wf.nodup_indexName name cond) fun i hi => wf.key_orders i (mem_indexesOf.mp hi).1

end WellFormed

end Catalog

/-! ### Objects -/

section Objects

variable [UnicodeData]

/-- `_has_object` -/
def hasObject (cat : Catalog) (name : Str) : Bool :=
  0 < (cat.dbClass.filter fun c => c.className = lower name ∧ c.isSystemClass = .no).length

/-- `_is_view` -/
def isView (cat : Catalog) (name : Str) : Bool :=
  0 < (cat.dbClass.filter fun c =>
    c.className = lower name ∧ c.isSystemClass = .no ∧ c.classType = "VCLASS".toList).length

end Objects

end SqlalchemyCubrid.Dialect
