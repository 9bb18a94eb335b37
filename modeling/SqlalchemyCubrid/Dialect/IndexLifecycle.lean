import SqlalchemyCubrid.Compiler.IndexStatement
import SqlalchemyCubrid.Lib.Machine
import Mathlib.Logic.Function.Basic

/-!
# The life of an index

An application creates indexes, drops them, and asks for the indexes, the unique
constraints and the primary keys of tables.  A server reads each statement and keeps
a catalog, and the questions are queries on it.

What the calls are for is an `IndexSchema`: the indexes of each table as they are
declared, in the order of their creation.  `index_lifecycles_agree` says that in any
run, from any catalog, the questions are answered from the schema: an index comes
back with its columns, their directions and its options until it is dropped, and no
statement changes what is said of another one.
-/

namespace SqlalchemyCubrid.Dialect

open Lib Lib.Sql Python SqlalchemyCubrid.Compiler

/-! ### The catalog of a server -/

namespace Catalog

/-- The index of a class that has a name. -/
def index? (cat : Catalog) (table name : Str) : Option DbIndex :=
  cat.dbIndex.find? fun i => i.className = table ∧ i.indexName = name

/-- One more index, and its keys. -/
def addIndex (cat : Catalog) (table : Str) (d : IndexDef) : Catalog :=
  { cat with
    dbIndex := cat.dbIndex ++ [d.indexRow table]
    dbIndexKey := cat.dbIndexKey ++ d.keyRows table }

/-- Without an index and its keys. -/
def dropIndex (cat : Catalog) (table name : Str) : Catalog :=
  { cat with
    dbIndex := cat.dbIndex.filter fun i => ¬ (i.className = table ∧ i.indexName = name)
    dbIndexKey := cat.dbIndexKey.filter fun k => ¬ (k.className = table ∧ k.indexName = name) }

variable {cat : Catalog} {table name : Str}

theorem index?_eq_none_iff :
    cat.index? table name = none ↔
      ∀ i ∈ cat.dbIndex, ¬ (i.className = table ∧ i.indexName = name) := by
  rw [index?, List.find?_eq_none]
  simp only [decide_eq_true_eq]

theorem mem_of_index? {i : DbIndex} (h : cat.index? table name = some i) :
    i ∈ cat.dbIndex ∧ i.className = table ∧ i.indexName = name := by
  have hmem := List.mem_of_find?_eq_some h
  rw [index?, List.find?_eq_some_iff_append] at h
  exact ⟨hmem, of_decide_eq_true h.1⟩

/-! ### One more index -/

section Add

variable {d : IndexDef}

theorem names_of_mem_keyRows {k : DbIndexKey} (hk : k ∈ d.keyRows table) :
    k.indexName = d.name ∧ k.className = table := by
  obtain ⟨⟨key, n⟩, -, rfl⟩ := List.mem_map.mp hk
  cases key with
  | column c descending => exact ⟨rfl, rfl⟩
  | function e => exact ⟨rfl, rfl⟩

/-- The keys of the others are what they were. -/
theorem keyRows_addIndex (hfree : cat.index? table d.name = none) {i : DbIndex}
    (hi : i ∈ cat.dbIndex) : (cat.addIndex table d).keyRows i = cat.keyRows i := by
  have hother := index?_eq_none_iff.mp hfree i hi
  have hnone : (d.keyRows table).filter (fun k => Joins i k) = [] := by
    rw [List.filter_eq_nil_iff]
    intro k hk
    obtain ⟨hname, hclass⟩ := names_of_mem_keyRows hk
    simp only [decide_eq_true_eq]
    rintro ⟨hn, hc⟩
    exact hother ⟨hc.trans hclass, hn.trans hname⟩
  show (cat.dbIndexKey ++ d.keyRows table).filter (fun k => Joins i k) = cat.keyRows i
  rw [List.filter_append, hnone, List.append_nil]
  rfl

/-- And those of the new one are its own, as long as no key is without an index. -/
theorem keyRows_addIndex_new (hfree : cat.index? table d.name = none)
    (howned : ∀ k ∈ cat.dbIndexKey, ∃ i ∈ cat.dbIndex, Joins i k) :
    (cat.addIndex table d).keyRows (d.indexRow table) = d.keyRows table := by
  have hnone : cat.dbIndexKey.filter (fun k => Joins (d.indexRow table) k) = [] := by
    rw [List.filter_eq_nil_iff]
    intro k hk
    obtain ⟨i, hi, hname, hclass⟩ := howned k hk
    simp only [decide_eq_true_eq]
    rintro ⟨hn, hc⟩
    exact index?_eq_none_iff.mp hfree i hi ⟨hclass.trans hc.symm, hname.trans hn.symm⟩
  have hall : (d.keyRows table).filter (fun k => Joins (d.indexRow table) k)
      = d.keyRows table := by
    rw [List.filter_eq_self]
    intro k hk
    obtain ⟨hname, hclass⟩ := names_of_mem_keyRows hk
    exact decide_eq_true ⟨hname.symm, hclass.symm⟩
  show (cat.dbIndexKey ++ d.keyRows table).filter (fun k => Joins (d.indexRow table) k) = _
  rw [List.filter_append, hnone, hall, List.nil_append]

theorem indexesOf_addIndex (n : Str) (cond : DbIndex → Bool) :
    (cat.addIndex table d).indexesOf n cond
      = cat.indexesOf n cond
        ++ if table = n ∧ cond (d.indexRow table) then [d.indexRow table] else [] := by
  show (cat.dbIndex ++ [d.indexRow table]).filter _ = _
  rw [List.filter_append, List.filter_cons, List.filter_nil]
  congr 1
  exact if_congr decide_eq_true_iff rfl rfl

/-- The keys of a definition are numbered. -/
theorem keyOrder_keyRows (d : IndexDef) (table : Str) :
    (d.keyRows table).map DbIndexKey.keyOrder
      = (List.range d.keys.length).map (Nat.cast : Nat → Int) := by
  rw [IndexDef.keyRows, List.map_map, List.range_eq_range', ← List.zipIdx_map_snd 0 d.keys,
    List.map_map]
  apply List.map_congr_left
  rintro ⟨key, n⟩ -
  cases key <;> rfl

theorem nodup_keyOrder (d : IndexDef) (table : Str) :
    ((d.keyRows table).map DbIndexKey.keyOrder).Nodup := by
  rw [keyOrder_keyRows]
  exact List.nodup_range.map fun _ _ h => Int.ofNat_inj.mp h

/-- They are in order as they stand. -/
theorem orderBy_keyRows (d : IndexDef) (table : Str) :
    orderBy DbIndexKey.keyOrder (d.keyRows table) = d.keyRows table := by
  apply orderBy_of_pairwise
  rw [← List.pairwise_map (f := DbIndexKey.keyOrder) (R := fun a b => a ≤ b), keyOrder_keyRows,
    List.pairwise_map]
  exact List.pairwise_lt_range.imp fun h => Int.ofNat_le.mpr (Nat.le_of_lt h)

end Add

/-! ### One index less -/

section Drop

theorem keyRows_dropIndex {i : DbIndex} (hi : ¬ (i.className = table ∧ i.indexName = name)) :
    (cat.dropIndex table name).keyRows i = cat.keyRows i := by
  show (cat.dbIndexKey.filter _).filter _ = cat.dbIndexKey.filter _
  rw [List.filter_filter]
  apply List.filter_congr
  intro k _
  by_cases hjoin : Joins i k
  · have hk : ¬ (k.className = table ∧ k.indexName = name) := by
      rintro ⟨hc, hn⟩
      exact hi ⟨hjoin.2.trans hc, hjoin.1.trans hn⟩
    rw [decide_eq_true hjoin, decide_eq_true hk]
    rfl
  · rw [decide_eq_false hjoin, Bool.false_and]

theorem indexesOf_dropIndex (n : Str) (cond : DbIndex → Bool) :
    (cat.dropIndex table name).indexesOf n cond
      = (cat.indexesOf n cond).filter fun i =>
          ¬ (i.className = table ∧ i.indexName = name) := by
  show (cat.dbIndex.filter _).filter _ = (cat.dbIndex.filter _).filter _
  rw [List.filter_filter, List.filter_filter]
  apply List.filter_congr
  intro i _
  rw [Bool.and_comm]

end Drop

end Catalog

/-- A catalog in which every index has keys and every key has its index. -/
structure IndexStore where
  cat : Catalog
  wf : cat.WellFormed
  keyed : ∀ i ∈ cat.dbIndex, cat.keyRows i ≠ []
  owned : ∀ k ∈ cat.dbIndexKey, ∃ i ∈ cat.dbIndex, Catalog.Joins i k

namespace IndexStore

open Catalog

theorem mem_addIndex {cat : Catalog} {table : Str} {d : IndexDef} {i : DbIndex} :
    i ∈ (cat.addIndex table d).dbIndex ↔ i ∈ cat.dbIndex ∨ i = d.indexRow table := by
  show i ∈ cat.dbIndex ++ [d.indexRow table] ↔ _
  rw [List.mem_append, List.mem_singleton]

theorem wellFormed_addIndex (store : IndexStore) {table : Str} {d : IndexDef}
    (hfree : store.cat.index? table d.name = none) :
    (store.cat.addIndex table d).WellFormed where
  index_identified := by
    show ((store.cat.dbIndex ++ [d.indexRow table]).map _).Nodup
    rw [List.map_append, List.map_singleton]
    refine store.wf.index_identified.append (List.nodup_singleton _) ?_
    rw [List.disjoint_singleton]
    intro hmem
    obtain ⟨i, hi, heq⟩ := List.mem_map.mp hmem
    obtain ⟨hc, hn⟩ := Prod.mk.inj heq
    exact index?_eq_none_iff.mp hfree i hi ⟨hc, hn⟩
  not_primary_and_foreign := by
    intro i hi
    rcases mem_addIndex.mp hi with hi | rfl
    · exact store.wf.not_primary_and_foreign i hi
    · rintro ⟨h, -⟩
      cases h
  one_primary_key := by
    intro i hi j hj hpi hpj
    rcases mem_addIndex.mp hi with hi | rfl
    · rcases mem_addIndex.mp hj with hj | rfl
      · exact store.wf.one_primary_key i hi j hj hpi hpj
      · cases hpj
    · cases hpi
  key_orders := by
    intro i hi
    rcases mem_addIndex.mp hi with hi | rfl
    · rw [keyRows_addIndex hfree hi]
      exact store.wf.key_orders i hi
    · rw [keyRows_addIndex_new hfree store.owned]
      exact nodup_keyOrder d table

/-- One more index, of a name that is free. -/
def add (store : IndexStore) (table : Str) (d : IndexDef)
    (hfree : store.cat.index? table d.name = none) : IndexStore where
  cat := store.cat.addIndex table d
  wf := store.wellFormed_addIndex hfree
  keyed := by
    intro i hi
    rcases mem_addIndex.mp hi with hi | rfl
    · rw [keyRows_addIndex hfree hi]
      exact store.keyed i hi
    · rw [keyRows_addIndex_new hfree store.owned, IndexDef.keyRows]
      simpa using d.keys_ne_nil
  owned := by
    intro k hk
    rcases List.mem_append.mp hk with hk | hk
    · obtain ⟨i, hi, hjoin⟩ := store.owned k hk
      exact ⟨i, mem_addIndex.mpr (Or.inl hi), hjoin⟩
    · obtain ⟨hname, hclass⟩ := names_of_mem_keyRows hk
      exact ⟨_, mem_addIndex.mpr (Or.inr rfl), hname.symm, hclass.symm⟩

theorem mem_dropIndex {cat : Catalog} {table name : Str} {i : DbIndex} :
    i ∈ (cat.dropIndex table name).dbIndex ↔
      i ∈ cat.dbIndex ∧ ¬ (i.className = table ∧ i.indexName = name) := by
  show i ∈ cat.dbIndex.filter _ ↔ _
  rw [List.mem_filter, decide_eq_true_iff]

/-- One index less. -/
def drop (store : IndexStore) (table name : Str) : IndexStore where
  cat := store.cat.dropIndex table name
  wf :=
    { index_identified :=
        store.wf.index_identified.sublist (List.Sublist.map _ List.filter_sublist)
      not_primary_and_foreign := fun i hi =>
        store.wf.not_primary_and_foreign i (mem_dropIndex.mp hi).1
      one_primary_key := fun i hi j hj =>
        store.wf.one_primary_key i (mem_dropIndex.mp hi).1 j (mem_dropIndex.mp hj).1
      key_orders := by
        intro i hi
        obtain ⟨hmem, hne⟩ := mem_dropIndex.mp hi
        rw [keyRows_dropIndex hne]
        exact store.wf.key_orders i hmem }
  keyed := by
    intro i hi
    obtain ⟨hmem, hne⟩ := mem_dropIndex.mp hi
    rw [keyRows_dropIndex hne]
    exact store.keyed i hmem
  owned := by
    intro k hk
    obtain ⟨hk, hne⟩ := List.mem_filter.mp hk
    obtain ⟨i, hi, hjoin⟩ := store.owned k hk
    refine ⟨i, mem_dropIndex.mpr ⟨hi, ?_⟩, hjoin⟩
    rintro ⟨hc, hn⟩
    exact of_decide_eq_true hne ⟨hjoin.2.symm.trans hc, hjoin.1.symm.trans hn⟩

end IndexStore

/-! ### The server -/

/-- How a server shows an expression, and what else it checks of an index. -/
structure IndexServer where
  showExpression : List Token → Str
  accepts : CreatedIndex → Bool
  showExpression_ne_nil : ∀ ts, showExpression ts ≠ []

/-- A table, which is no view. -/
def holdsTable (cat : Catalog) (n : Str) : Bool :=
  cat.dbClass.any fun c => c.className = n ∧ c.isSystemClass = .no ∧ c.classType = "CLASS".toList

/-- What the application does. -/
inductive LifecycleCall where
  | create (index : Index) (h : index.Readable)
  | drop (index : Index) (hname : index.name ≠ []) (htable : index.table ≠ [])
  | getIndexes (tableName : Str)
  | getUniqueConstraints (tableName : Str)
  | getPkConstraint (tableName : Str)

inductive LifecycleAnswer where
  | done
  | indexes (l : List ReflectedIndex)
  | constraints (l : List UniqueConstraint)
  | primaryKey (pk : PkConstraint)

section Server

variable [UnicodeData] (S : IndexServer)

def definedKey : CreatedKey → KeyDef
  | .column name descending => .column (lower name) descending
  | .function e => .function (S.showExpression e)

/-- The definition that is stored; there is at most one expression. -/
def definedIndex (c : CreatedIndex) : Option IndexDef :=
  if h : c.keys ≠ [] ∧ (c.keys.map (definedKey S)).countP KeyDef.isFunction ≤ 1 then
    some
      { name := lower c.name
        unique := .unique ∈ c.flags
        reverse := .reverse ∈ c.flags
        filter := c.filter.map S.showExpression
        keys := c.keys.map (definedKey S)
        keys_ne_nil := fun hnil => h.1 (List.map_eq_nil_iff.mp hnil)
        filter_ne_empty := by
          intro hempty
          obtain ⟨ts, -, hts⟩ := Option.map_eq_some_iff.mp hempty
          exact S.showExpression_ne_nil ts hts
        function_ne_empty := by
          intro e he
          obtain ⟨k, -, hk⟩ := List.mem_map.mp he
          cases k with
          | column name descending => cases hk
          | function ts =>
            cases hk
            exact S.showExpression_ne_nil ts
        one_function := h.2 }
  else none

/-- A name that is taken is an error, and so is an index on what is no table. -/
def storeIndex (store : IndexStore) (c : CreatedIndex) : Option IndexStore :=
  (definedIndex S c).bind fun d =>
    if h : store.cat.index? (lower c.table) d.name = none ∧ holdsTable store.cat (lower c.table) ∧
        S.accepts c then
      some (store.add (lower c.table) d h.1)
    else none

/-- An index that is no key is dropped. -/
def dropStored (store : IndexStore) (name table : Str) : Option IndexStore :=
  if holdsTable store.cat (lower table) ∧
      (store.cat.index? (lower table) (lower name)).any isPlain then
    some (store.drop (lower table) (lower name))
  else none

def execute (store : IndexStore) : IndexStatement → Option IndexStore
  | .create c => storeIndex S store c
  | .drop name table => dropStored store name table

def lifecycleMachine (Q : NameQuoter) :
    Machine IndexStore LifecycleCall (Except PyError LifecycleAnswer) where
  step store
    | .create index _ =>
      (((visitCreateIndex Q.indexPreparer index).bind parseIndex).bind (execute S store)).elim
        (.error .databaseError, store) fun store => (.ok .done, store)
    | .drop index _ _ =>
      ((parseIndex (visitDropIndex Q.indexPreparer index)).bind (execute S store)).elim
        (.error .databaseError, store) fun store => (.ok .done, store)
    | .getIndexes t => ((getIndexes store.cat t).map .indexes, store)
    | .getUniqueConstraints t => ((getUniqueConstraints store.cat t).map .constraints, store)
    | .getPkConstraint t => ((getPkConstraint store.cat t).map .primaryKey, store)

/-! ### What the calls are for -/

/-- What there is to say of a table, or of a view, which takes no indexes. -/
structure DeclaredIndexes where
  isTable : Bool
  primaryKey : PkConstraint
  /-- the names of the indexes of the primary key and of the foreign keys -/
  keyNames : List Str
  indexes : List ReflectedIndex

abbrev IndexSchema := Str → Option DeclaredIndexes

def reflectedColumn : KeyDef → Option Str
  | .column name _ => some (lower name)
  | .function _ => none

/-- Only a descending order is kept. -/
def reflectedOrder : KeyDef → Option (Option Str × List Str)
  | .column name true => some (some (lower name), ["desc".toList])
  | _ => none

/-- An index as it comes back.  An expression takes the place of the columns, and a
column that is listed twice has one direction, since `column_sorting` has an entry for
each name. -/
def declaredIndex (index : Index) : ReflectedIndex where
  name := lower index.name
  unique := index.unique
  columnNames := index.printedKeys.map reflectedColumn
  columnSorting := Dict.setAll [] (index.printedKeys.filterMap reflectedOrder)
  dialectOptions :=
    { reverse := index.dialectOptions.reverse
      filtered := (truthy index.dialectOptions.filtered).map fun f =>
        S.showExpression (trim (tokensOf f))
      function := (truthy index.dialectOptions.function).map fun f =>
        S.showExpression (trim (tokensOf f)) }

namespace IndexSchema

variable (schema : IndexSchema)

def create (index : Index) : Option IndexSchema :=
  (schema (lower index.table)).bind fun t =>
    if lower index.name ∉ t.keyNames ++ t.indexes.map ReflectedIndex.name ∧ t.isTable ∧
        S.accepts index.created then
      some (Function.update schema (lower index.table)
        (some { t with indexes := t.indexes ++ [declaredIndex S index] }))
    else none

def drop (index : Index) : Option IndexSchema :=
  (schema (lower index.table)).bind fun t =>
    if t.isTable ∧ lower index.name ∈ t.indexes.map ReflectedIndex.name then
      some (Function.update schema (lower index.table)
        (some { t with indexes := t.indexes.filter fun e => e.name ≠ lower index.name }))
    else none

/-- A question about a table. -/
def ask (tableName : Str) (f : DeclaredIndexes → LifecycleAnswer) :
    Except PyError LifecycleAnswer :=
  (schema (lower tableName)).elim (.error (.noSuchTableError tableName)) fun t => .ok (f t)

end IndexSchema

/-- The indexes of a table, in the order of their names. -/
def DeclaredIndexes.sorted (t : DeclaredIndexes) : List ReflectedIndex :=
  orderBy ReflectedIndex.name t.indexes

/-- A unique index is a constraint, too. -/
def DeclaredIndexes.constraints (t : DeclaredIndexes) : List UniqueConstraint :=
  (t.sorted.filter ReflectedIndex.unique).map fun e => ⟨e.name, e.columnNames, e.name⟩

def indexSchemaMachine : Machine IndexSchema LifecycleCall (Except PyError LifecycleAnswer) where
  step schema
    | .create index _ =>
      (schema.create S index).elim (.error .databaseError, schema) fun schema => (.ok .done, schema)
    | .drop index _ _ =>
      (schema.drop index).elim (.error .databaseError, schema) fun schema => (.ok .done, schema)
    | .getIndexes t => (schema.ask t fun t => .indexes t.sorted, schema)
    | .getUniqueConstraints t => (schema.ask t fun t => .constraints t.constraints, schema)
    | .getPkConstraint t => (schema.ask t fun t => .primaryKey t.primaryKey, schema)

/-! ### One index -/

omit [UnicodeData] in
/-- All keys are columns, or there is one expression. -/
theorem printedKeys_cases (index : Index) :
    (∃ f, truthy index.dialectOptions.function = some f ∧ index.printedKeys = [.function f]) ∨
      (truthy index.dialectOptions.function = none ∧
        ∀ k ∈ index.printedKeys, k.isFunction = false) := by
  rw [Index.printedKeys]
  cases hf : truthy index.dialectOptions.function with
  | some f => exact Or.inl ⟨f, rfl, rfl⟩
  | none =>
    refine Or.inr ⟨rfl, ?_⟩
    intro k hk
    rw [Option.elim_none] at hk
    obtain ⟨e, -, he⟩ := List.mem_filterMap.mp hk
    obtain ⟨c, -, rfl⟩ := Option.map_eq_some_iff.mp he
    rfl

/-- The key that is stored for one that is printed. -/
def storedKey (k : KeyDef) : KeyDef := definedKey S k.created

theorem isFunction_storedKey (k : KeyDef) : (storedKey S k).isFunction = k.isFunction := by
  cases k <;> rfl

omit [UnicodeData] in
theorem flags_iff (index : Index) :
    decide (IndexFlag.unique ∈ index.flags) = index.unique ∧
      decide (IndexFlag.reverse ∈ index.flags) = index.dialectOptions.reverse := by
  rw [Index.flags]
  cases index.unique <;> cases index.dialectOptions.reverse <;> decide

/-- **A statement is stored as a definition**, key by key. -/
theorem definedIndex_created {index : Index} (h : index.Readable) :
    ∃ d, definedIndex S index.created = some d ∧ d.name = lower index.name ∧
      d.unique = index.unique ∧ d.reverse = index.dialectOptions.reverse ∧
      d.filter = (truthy index.dialectOptions.filtered).map (fun f =>
        S.showExpression (trim (tokensOf f))) ∧
      d.keys = index.printedKeys.map (storedKey S) := by
  have hkeys : index.created.keys.map (definedKey S) = index.printedKeys.map (storedKey S) :=
    List.map_map
  have hfunctions : (index.created.keys.map (definedKey S)).countP KeyDef.isFunction ≤ 1 := by
    have hcomp : KeyDef.isFunction ∘ storedKey S = KeyDef.isFunction :=
      funext (isFunction_storedKey S)
    rw [hkeys, List.countP_map, hcomp]
    rcases printedKeys_cases index with ⟨f, -, hf⟩ | ⟨-, hcolumns⟩
    · rw [hf]
      exact List.countP_le_length
    · rw [List.countP_eq_zero.mpr fun k hk => by simp [hcolumns k hk]]
      exact Nat.zero_le 1
  have hne : index.created.keys ≠ [] := fun hnil => h.keys_ne_nil (List.map_eq_nil_iff.mp hnil)
  obtain ⟨hunique, hreverse⟩ := flags_iff index
  exact ⟨_, dif_pos ⟨hne, hfunctions⟩, rfl, hunique, hreverse, Option.map_map _ _ _, hkeys⟩

section Rows

variable (d : IndexDef) (table : Str)

omit [UnicodeData] in
theorem columnNames_keyRows :
    (d.keyRows table).map DbIndexKey.keyAttrName = d.keys.map fun
      | .column name _ => some name
      | .function _ => none := by
  rw [IndexDef.keyRows, List.map_map]
  conv_rhs => rw [← List.zipIdx_map_fst 0 d.keys, List.map_map]
  apply List.map_congr_left
  rintro ⟨key, n⟩ -
  cases key <;> rfl

theorem sortingItems_keyRows :
    (d.keyRows table).filterMap sortingItem = d.keys.filterMap fun
      | .column name true => some (some name, ["desc".toList])
      | _ => none := by
  rw [IndexDef.keyRows, List.filterMap_map]
  conv_rhs => rw [← List.zipIdx_map_fst 0 d.keys, List.filterMap_map]
  apply List.filterMap_congr
  rintro ⟨key, n⟩ -
  cases key with
  | function e => exact sortingItem_function d.name e n
  | column name descending =>
    rw [Function.comp_apply, sortingItem_column]
    cases descending <;> rfl

end Rows

/-- **An index comes back as it was declared.** -/
theorem reflectIndex_stored {index : Index} {d : IndexDef} (hname : d.name = lower index.name)
    (hunique : d.unique = index.unique) (hreverse : d.reverse = index.dialectOptions.reverse)
    (hfilter : d.filter = (truthy index.dialectOptions.filtered).map fun f =>
      S.showExpression (trim (tokensOf f)))
    (hkeys : d.keys = index.printedKeys.map (storedKey S)) (table : Str) :
    reflectIndex (d.indexRow table) (d.keyRows table) = declaredIndex S index := by
  have hyes : ∀ b : Bool, decide (yesNo b = .yes) = b := by decide
  have hcolumns : (d.keyRows table).map DbIndexKey.keyAttrName
      = index.printedKeys.map reflectedColumn := by
    rw [columnNames_keyRows, hkeys, List.map_map]
    apply List.map_congr_left
    intro k _
    cases k <;> rfl
  have hsorting : (d.keyRows table).filterMap sortingItem
      = index.printedKeys.filterMap reflectedOrder := by
    rw [sortingItems_keyRows, hkeys, List.filterMap_map]
    apply List.filterMap_congr
    intro k _
    cases k with
    | function e => rfl
    | column name descending => cases descending <;> rfl
  have hfiltered : truthy d.filter = (truthy index.dialectOptions.filtered).map fun f =>
      S.showExpression (trim (tokensOf f)) := by
    rw [hfilter]
    cases truthy index.dialectOptions.filtered with
    | none => rfl
    | some f => exact truthy_some (S.showExpression_ne_nil _)
  have hfunction : (if yesNo (d.keys.any KeyDef.isFunction) = .yes then
        (d.keyRows table).head?.bind fun k => truthy k.func else none)
      = (truthy index.dialectOptions.function).map fun f =>
          S.showExpression (trim (tokensOf f)) := by
    rcases printedKeys_cases index with ⟨f, hf, hone⟩ | ⟨hf, hnone⟩
    · rw [IndexDef.keyRows, hkeys, hone, hf]
      exact truthy_some (S.showExpression_ne_nil _)
    · have hany : d.keys.any KeyDef.isFunction = false := by
        rw [hkeys, List.any_map, List.any_eq_false]
        intro k hk
        rw [Function.comp_apply, isFunction_storedKey, hnone k hk]
        exact Bool.false_ne_true
      rw [hany, hf]
      rfl
  rw [reflectIndex, declaredIndex, hcolumns, hsorting]
  show ReflectedIndex.mk d.name (decide (yesNo d.unique = .yes)) _ _
    ⟨decide (yesNo d.reverse = .yes), truthy d.filter, _⟩ = _
  rw [hyes, hyes, hname, hunique, hreverse, hfiltered]
  exact congrArg (fun o => ReflectedIndex.mk _ _ _ _ ⟨_, _, o⟩) hfunction

/-! ### The catalog and the schema -/

section Schema

variable (cat : Catalog)

/-- A table or a view that is no system class. -/
def hasClass (n : Str) : Bool :=
  0 < (cat.dbClass.filter fun c => c.className = n ∧ c.isSystemClass = .no).length

/-- The indexes of a table that are no keys, in the order of the catalog. -/
def plainIndexes (n : Str) : List ReflectedIndex :=
  (cat.indexesOf n isPlain).map fun i => reflectIndex i (cat.keysOf i)

/-- What the catalog says of a table. -/
def declaredIndexes (n : Str) : DeclaredIndexes where
  isTable := holdsTable cat n
  primaryKey := foldPk (cat.keyOrderedRows n isPrimary)
  keyNames := (cat.indexesOf n fun i => !isPlain i).map DbIndex.indexName
  indexes := plainIndexes cat n

def schemaOf : IndexSchema := fun n =>
  if hasClass cat n then some (declaredIndexes cat n) else none

variable {cat}

omit [UnicodeData] in
theorem hasClass_of_holdsTable {n : Str} (h : holdsTable cat n = true) : hasClass cat n = true := by
  obtain ⟨c, hc, hmeets⟩ := List.any_eq_true.mp h
  obtain ⟨hname, hsystem, -⟩ := of_decide_eq_true hmeets
  apply decide_eq_true
  exact List.length_pos_of_mem (List.mem_filter.mpr ⟨hc, decide_eq_true ⟨hname, hsystem⟩⟩)

/-- The classes and the indexes of their keys are what they were. -/
structure KeepsKeys (cat cat' : Catalog) : Prop where
  classes : cat'.dbClass = cat.dbClass
  primary : ∀ n, cat'.indexesOf n isPrimary = cat.indexesOf n isPrimary
  keyRows : ∀ i ∈ cat.dbIndex, isPrimary i = true → cat'.keyRows i = cat.keyRows i
  others : ∀ n, cat'.indexesOf n (fun i => !isPlain i) = cat.indexesOf n fun i => !isPlain i

/-- Then only the indexes that are no keys may have changed. -/
theorem KeepsKeys.declaredIndexes_eq {cat' : Catalog} (h : KeepsKeys cat cat') (n : Str) :
    declaredIndexes cat' n
      = { declaredIndexes cat n with indexes := plainIndexes cat' n } := by
  have htable : holdsTable cat' n = holdsTable cat n := by rw [holdsTable, holdsTable, h.classes]
  have hprimary : cat'.keyOrderedRows n isPrimary = cat.keyOrderedRows n isPrimary := by
    rw [Catalog.keyOrderedRows, Catalog.keyOrderedRows, Catalog.joined_eq, Catalog.joined_eq,
      h.primary]
    congr 1
    apply List.flatMap_congr
    intro i hi
    obtain ⟨hi, -, hprimary⟩ := Catalog.mem_indexesOf.mp hi
    rw [h.keyRows i hi hprimary]
  show DeclaredIndexes.mk _ _ _ _ = DeclaredIndexes.mk _ _ _ _
  rw [htable, hprimary, h.others]
  rfl

/-- **A change to the indexes of one table** is that change to the schema. -/
theorem KeepsKeys.schemaOf_eq {cat' : Catalog} (h : KeepsKeys cat cat') {table : Str}
    (hclass : hasClass cat table = true)
    (hother : ∀ n, n ≠ table → plainIndexes cat' n = plainIndexes cat n) :
    schemaOf cat' = Function.update (schemaOf cat) table
      (some { declaredIndexes cat table with indexes := plainIndexes cat' table }) := by
  have hclasses (n : Str) : hasClass cat' n = hasClass cat n := by
    rw [hasClass, hasClass, h.classes]
  funext n
  by_cases hn : n = table
  · subst hn
    rw [Function.update_self, ← h.declaredIndexes_eq]
    exact if_pos ((hclasses n).trans hclass)
  · rw [Function.update_of_ne hn, schemaOf, schemaOf, hclasses, h.declaredIndexes_eq, hother n hn]
    rfl

theorem name_plainIndexes (n : Str) :
    (plainIndexes cat n).map ReflectedIndex.name
      = (cat.indexesOf n isPlain).map DbIndex.indexName := by
  rw [plainIndexes, List.map_map]
  rfl

/-- A name is free when neither a key nor an index has it. -/
theorem index?_eq_none_iff_not_mem {n name : Str} :
    cat.index? n name = none ↔ name ∉ (declaredIndexes cat n).keyNames
      ++ (declaredIndexes cat n).indexes.map ReflectedIndex.name := by
  rw [Catalog.index?_eq_none_iff, declaredIndexes, name_plainIndexes, List.mem_append,
    List.mem_map, List.mem_map]
  constructor
  · rintro h (⟨i, hi, hname⟩ | ⟨i, hi, hname⟩)
    · obtain ⟨hi, hclass, -⟩ := Catalog.mem_indexesOf.mp hi
      exact h i hi ⟨hclass, hname⟩
    · obtain ⟨hi, hclass, -⟩ := Catalog.mem_indexesOf.mp hi
      exact h i hi ⟨hclass, hname⟩
  · rintro h i hi ⟨hclass, hname⟩
    cases hplain : isPlain i with
    | true => exact h (Or.inr ⟨i, Catalog.mem_indexesOf.mpr ⟨hi, hclass, hplain⟩, hname⟩)
    | false =>
      refine h (Or.inl ⟨i, Catalog.mem_indexesOf.mpr ⟨hi, hclass, ?_⟩, hname⟩)
      rw [hplain]
      rfl

omit [UnicodeData] in
/-- The index of a name is the only one. -/
theorem eq_of_index? (wf : cat.WellFormed) {n name : Str} {i j : DbIndex}
    (hi : cat.index? n name = some i) (hj : j ∈ cat.dbIndex) (hclass : j.className = n)
    (hname : j.indexName = name) : j = i := by
  obtain ⟨hmem, hc, hn⟩ := Catalog.mem_of_index? hi
  apply List.inj_on_of_nodup_map wf.index_identified hj hmem
  rw [hclass, hname, hc, hn]

theorem isPlain_index?_iff (wf : cat.WellFormed) {n name : Str} :
    (cat.index? n name).any isPlain = true ↔
      name ∈ (declaredIndexes cat n).indexes.map ReflectedIndex.name := by
  rw [declaredIndexes, name_plainIndexes, List.mem_map, Option.any_eq_true]
  constructor
  · rintro ⟨i, hi, hplain⟩
    obtain ⟨hmem, hclass, hname⟩ := Catalog.mem_of_index? hi
    exact ⟨i, Catalog.mem_indexesOf.mpr ⟨hmem, hclass, hplain⟩, hname⟩
  · rintro ⟨j, hj, hname⟩
    obtain ⟨hj, hclass, hplain⟩ := Catalog.mem_indexesOf.mp hj
    cases hi : cat.index? n name with
    | none => exact absurd ⟨hclass, hname⟩ (Catalog.index?_eq_none_iff.mp hi j hj)
    | some i =>
      rw [eq_of_index? wf hi hj hclass hname] at hplain
      exact ⟨i, rfl, hplain⟩

/-! ### Adding and dropping -/

omit [UnicodeData] in
theorem keysOf_congr {cat' : Catalog} {i : DbIndex} (h : cat'.keyRows i = cat.keyRows i) :
    cat'.keysOf i = cat.keysOf i := by
  rw [Catalog.keysOf, Catalog.keysOf, h]

/-- Indexes come back alike from catalogs with the same keys. -/
theorem map_reflectIndex_congr {cat' : Catalog} {l : List DbIndex}
    (h : ∀ i ∈ l, cat'.keyRows i = cat.keyRows i) :
    (l.map fun i => reflectIndex i (cat'.keysOf i))
      = l.map fun i => reflectIndex i (cat.keysOf i) := by
  apply List.map_congr_left
  intro i hi
  rw [keysOf_congr (h i hi)]

/-- **One more index** is one more that comes back. -/
theorem schemaOf_add (store : IndexStore) {table : Str} {d : IndexDef}
    (hclass : hasClass store.cat table = true)
    (hfree : store.cat.index? table d.name = none) :
    schemaOf (store.cat.addIndex table d) = Function.update (schemaOf store.cat) table
      (some { declaredIndexes store.cat table with
        indexes := plainIndexes store.cat table
          ++ [reflectIndex (d.indexRow table) (d.keyRows table)] }) := by
  have hold (n : Str) (cond : DbIndex → Bool) : ∀ i ∈ store.cat.indexesOf n cond,
      (store.cat.addIndex table d).keyRows i = store.cat.keyRows i := fun i hi =>
    Catalog.keyRows_addIndex hfree (Catalog.mem_indexesOf.mp hi).1
  have hsame (n : Str) {cond : DbIndex → Bool}
      (h : ¬ (table = n ∧ cond (d.indexRow table) = true)) :
      (store.cat.addIndex table d).indexesOf n cond = store.cat.indexesOf n cond := by
    rw [Catalog.indexesOf_addIndex, if_neg h, List.append_nil]
  have hkeeps : KeepsKeys store.cat (store.cat.addIndex table d) :=
    { classes := rfl
      primary := fun n => hsame n fun hand => Bool.false_ne_true hand.2
      keyRows := fun i hi _ => Catalog.keyRows_addIndex hfree hi
      others := fun n => hsame n fun hand => Bool.false_ne_true hand.2 }
  have hkeys : (store.cat.addIndex table d).keysOf (d.indexRow table) = d.keyRows table := by
    rw [Catalog.keysOf, Catalog.keyRows_addIndex_new hfree store.owned, Catalog.orderBy_keyRows]
  have hnew : plainIndexes (store.cat.addIndex table d) table
      = plainIndexes store.cat table
        ++ [reflectIndex (d.indexRow table) (d.keyRows table)] := by
    have hlast : (store.cat.addIndex table d).indexesOf table isPlain
        = store.cat.indexesOf table isPlain ++ [d.indexRow table] := by
      rw [Catalog.indexesOf_addIndex, if_pos ⟨rfl, rfl⟩]
    rw [plainIndexes, hlast, List.map_append, List.map_singleton, hkeys,
      map_reflectIndex_congr (hold table isPlain), ← plainIndexes]
  rw [hkeeps.schemaOf_eq hclass, hnew]
  intro n hn
  rw [plainIndexes, hsame n fun hand => hn hand.1.symm, map_reflectIndex_congr (hold n isPlain),
    ← plainIndexes]

/-- **One index less** is one less that comes back. -/
theorem schemaOf_drop (store : IndexStore) {table name : Str}
    (hclass : hasClass store.cat table = true)
    (hplain : (store.cat.index? table name).any isPlain = true) :
    schemaOf (store.cat.dropIndex table name) = Function.update (schemaOf store.cat) table
      (some { declaredIndexes store.cat table with
        indexes := (plainIndexes store.cat table).filter fun e => e.name ≠ name }) := by
  obtain ⟨dropped, hdropped, hplain⟩ := (Option.any_eq_true _ _).mp hplain
  -- the index that goes is no key
  have hgone {i : DbIndex} (hi : i ∈ store.cat.dbIndex) (hkey : isPlain i = false) :
      ¬ (i.className = table ∧ i.indexName = name) := by
    rintro ⟨hc, hn⟩
    rw [eq_of_index? store.wf hdropped hi hc hn, hplain] at hkey
    cases hkey
  have hsame (n : Str) {cond : DbIndex → Bool}
      (h : ∀ i ∈ store.cat.indexesOf n cond, ¬ (i.className = table ∧ i.indexName = name)) :
      (store.cat.dropIndex table name).indexesOf n cond = store.cat.indexesOf n cond := by
    rw [Catalog.indexesOf_dropIndex, List.filter_eq_self]
    exact fun i hi => decide_eq_true (h i hi)
  have hprimary {i : DbIndex} (h : isPrimary i = true) : isPlain i = false := by
    rw [isPrimary, decide_eq_true_iff] at h
    simp [isPlain, h]
  have hkeeps : KeepsKeys store.cat (store.cat.dropIndex table name) :=
    { classes := rfl
      primary := fun n => hsame n fun i hi =>
        have hmem := Catalog.mem_indexesOf.mp hi
        hgone hmem.1 (hprimary hmem.2.2)
      keyRows := fun i hi hkey => Catalog.keyRows_dropIndex (hgone hi (hprimary hkey))
      others := fun n => hsame n fun i hi =>
        have hmem := Catalog.mem_indexesOf.mp hi
        hgone hmem.1 (by simpa using hmem.2.2) }
  have hkept : plainIndexes (store.cat.dropIndex table name) table
      = (plainIndexes store.cat table).filter fun e => e.name ≠ name := by
    have hlist : (store.cat.dropIndex table name).indexesOf table isPlain
        = (store.cat.indexesOf table isPlain).filter fun i => i.indexName ≠ name := by
      rw [Catalog.indexesOf_dropIndex]
      apply List.filter_congr
      intro i hi
      simp [(Catalog.mem_indexesOf.mp hi).2.1]
    have hold : ∀ i ∈ (store.cat.indexesOf table isPlain).filter fun i => i.indexName ≠ name,
        (store.cat.dropIndex table name).keyRows i = store.cat.keyRows i := by
      intro i hi
      apply Catalog.keyRows_dropIndex
      rintro ⟨-, hn⟩
      exact of_decide_eq_true (List.mem_filter.mp hi).2 hn
    rw [plainIndexes, hlist, map_reflectIndex_congr hold, plainIndexes, List.filter_map]
    rfl
  rw [hkeeps.schemaOf_eq hclass, hkept]
  intro n hn
  have hother : ∀ i ∈ store.cat.indexesOf n isPlain,
      ¬ (i.className = table ∧ i.indexName = name) := by
    rintro i hi ⟨hc, -⟩
    exact hn ((Catalog.mem_indexesOf.mp hi).2.1.symm.trans hc)
  have hold : ∀ i ∈ store.cat.indexesOf n isPlain,
      (store.cat.dropIndex table name).keyRows i = store.cat.keyRows i := fun i hi =>
    Catalog.keyRows_dropIndex (hother i hi)
  rw [plainIndexes, hsame n hother, map_reflectIndex_congr hold, ← plainIndexes]

/-! ### Statements -/

omit [UnicodeData] in
theorem hasClass_eq_false {n : Str} (h : hasClass cat n = false) : holdsTable cat n = false := by
  rw [← Bool.not_eq_true] at h ⊢
  exact fun htable => h (hasClass_of_holdsTable htable)

/-- **`CREATE INDEX`** does to the catalog what the call does to the schema. -/
theorem schema_createIndex (store : IndexStore) {index : Index} (h : index.Readable) :
    (schemaOf store.cat).create S index
      = (storeIndex S store index.created).map fun store => schemaOf store.cat := by
  obtain ⟨d, hd, hname, hunique, hreverse, hfilter, hkeys⟩ := definedIndex_created S h
  have hdeclared := reflectIndex_stored S hname hunique hreverse hfilter hkeys (lower index.table)
  rw [IndexSchema.create, storeIndex, hd, Option.bind_some]
  show _ = Option.map _ (if h : store.cat.index? (lower index.table) d.name = none ∧
    holdsTable store.cat (lower index.table) = true ∧ S.accepts index.created = true then
      some (store.add (lower index.table) d h.1) else none)
  cases hclass : hasClass store.cat (lower index.table) with
  | false =>
    have hschema : schemaOf store.cat (lower index.table) = none :=
      if_neg (by rw [hclass]; exact Bool.false_ne_true)
    rw [hschema, dif_neg fun hall => by simp [hasClass_eq_false hclass] at hall]
    rfl
  | true =>
    have hschema : schemaOf store.cat (lower index.table)
        = some (declaredIndexes store.cat (lower index.table)) := if_pos hclass
    have hfree : store.cat.index? (lower index.table) d.name = none ↔
        lower index.name ∉ (declaredIndexes store.cat (lower index.table)).keyNames
          ++ (declaredIndexes store.cat (lower index.table)).indexes.map ReflectedIndex.name := by
      rw [hname]
      exact index?_eq_none_iff_not_mem
    rw [hschema, Option.bind_some]
    by_cases hall : store.cat.index? (lower index.table) d.name = none ∧
        holdsTable store.cat (lower index.table) = true ∧ S.accepts index.created = true
    · rw [dif_pos hall, if_pos ⟨hfree.mp hall.1, hall.2⟩, Option.map_some]
      have hadd := schemaOf_add store hclass hall.1
      rw [hdeclared] at hadd
      exact congrArg some hadd.symm
    · rw [dif_neg hall, if_neg fun hand => hall ⟨hfree.mpr hand.1, hand.2⟩]
      rfl

/-- **`DROP INDEX`** does, too. -/
theorem schema_dropIndex (store : IndexStore) (index : Index) :
    (schemaOf store.cat).drop index
      = (dropStored store index.name index.table).map fun store => schemaOf store.cat := by
  rw [IndexSchema.drop, dropStored]
  cases hclass : hasClass store.cat (lower index.table) with
  | false =>
    have hschema : schemaOf store.cat (lower index.table) = none :=
      if_neg (by rw [hclass]; exact Bool.false_ne_true)
    rw [hschema, if_neg fun hand => by simp [hasClass_eq_false hclass] at hand]
    rfl
  | true =>
    have hschema : schemaOf store.cat (lower index.table)
        = some (declaredIndexes store.cat (lower index.table)) := if_pos hclass
    have hfound : (store.cat.index? (lower index.table) (lower index.name)).any isPlain = true ↔
        lower index.name ∈ (declaredIndexes store.cat (lower index.table)).indexes.map
          ReflectedIndex.name := isPlain_index?_iff store.wf
    rw [hschema, Option.bind_some]
    by_cases hall : holdsTable store.cat (lower index.table) = true ∧
        (store.cat.index? (lower index.table) (lower index.name)).any isPlain = true
    · rw [if_pos hall, if_pos ⟨hall.1, hfound.mp hall.2⟩, Option.map_some]
      exact congrArg some (schemaOf_drop store hclass hall.2).symm
    · rw [if_neg hall, if_neg fun hand => hall ⟨hand.1, hfound.mpr hand.2⟩]
      rfl

/-! ### Answers -/

/-- A question about the catalog is a question about the schema. -/
theorem ask_schemaOf (t : Str) (f : DeclaredIndexes → LifecycleAnswer) :
    (schemaOf cat).ask t f
      = if hasObject cat t then .ok (f (declaredIndexes cat (lower t)))
        else .error (.noSuchTableError t) := by
  have hobject : hasObject cat t = hasClass cat (lower t) := rfl
  rw [IndexSchema.ask, schemaOf, hobject]
  cases hasClass cat (lower t) <;> rfl

omit [UnicodeData] in
/-- Every index has rows. -/
theorem keyedIndexes_store (store : IndexStore) (n : Str) (cond : DbIndex → Bool) :
    keyedIndexes store.cat n cond
      = orderBy DbIndex.indexName (store.cat.indexesOf n cond) := by
  rw [keyedIndexes, List.filter_eq_self]
  intro i hi
  have hmem := (Catalog.mem_indexesOf.mp (mem_orderBy.mp hi)).1
  apply decide_eq_true
  intro hnil
  have hperm := orderBy_perm DbIndexKey.keyOrder (store.cat.keyRows i)
  rw [← Catalog.keysOf, hnil] at hperm
  exact store.keyed i hmem hperm.nil_eq.symm

theorem sorted_declaredIndexes (store : IndexStore) (n : Str) :
    (declaredIndexes store.cat n).sorted
      = (keyedIndexes store.cat n isPlain).map fun i => reflectIndex i (store.cat.keysOf i) := by
  rw [keyedIndexes_store]
  exact (map_orderBy DbIndex.indexName ReflectedIndex.name _ fun _ _ => rfl).symm

/-- **The indexes are answered from the schema.** -/
theorem getIndexes_store (store : IndexStore) (t : Str) :
    (getIndexes store.cat t).map LifecycleAnswer.indexes
      = (schemaOf store.cat).ask t fun d => .indexes d.sorted := by
  rw [ask_schemaOf]
  by_cases h : hasObject store.cat t = true
  · rw [getIndexes_eq store.wf h, if_pos h, sorted_declaredIndexes]
    rfl
  · rw [getIndexes, if_neg h, if_neg h]
    rfl

theorem getUniqueConstraints_store (store : IndexStore) (t : Str) :
    (getUniqueConstraints store.cat t).map LifecycleAnswer.constraints
      = (schemaOf store.cat).ask t fun d => .constraints d.constraints := by
  rw [ask_schemaOf]
  by_cases h : hasObject store.cat t = true
  · rw [getUniqueConstraints_eq store.wf h, if_pos h, DeclaredIndexes.constraints,
      sorted_declaredIndexes, keyedIndexes_unique store.wf, List.filter_map, List.map_map]
    rfl
  · rw [getUniqueConstraints, if_neg h, if_neg h]
    rfl

theorem getPkConstraint_store (t : Str) :
    (getPkConstraint cat t).map LifecycleAnswer.primaryKey
      = (schemaOf cat).ask t fun d => .primaryKey d.primaryKey := by
  rw [ask_schemaOf, getPkConstraint]
  cases hasObject cat t <;> rfl

/-! ### Runs -/

/-- **One call**: the answers are alike, and the catalog stays the schema. -/
theorem lifecycle_next (Q : NameQuoter) (store : IndexStore) (schema : IndexSchema)
    (c : LifecycleCall) (h : schema = schemaOf store.cat) :
    (lifecycleMachine S Q).answer store c = (indexSchemaMachine S).answer schema c ∧
      (indexSchemaMachine S).next schema c
        = schemaOf ((lifecycleMachine S Q).next store c).cat := by
  subst h
  cases c with
  | create index hindex =>
    have hstep : (lifecycleMachine S Q).step store (.create index hindex)
        = (storeIndex S store index.created).elim (.error .databaseError, store)
          fun store => (.ok .done, store) := by
      show (((visitCreateIndex Q.indexPreparer index).bind parseIndex).bind _).elim _ _ = _
      rw [parseIndex_create Q hindex, Option.bind_some]
      rfl
    have hschema : (indexSchemaMachine S).step (schemaOf store.cat) (.create index hindex)
        = ((schemaOf store.cat).create S index).elim (.error .databaseError, schemaOf store.cat)
          fun schema => (.ok .done, schema) := rfl
    rw [Machine.answer, Machine.answer, Machine.next, Machine.next, hstep, hschema,
      schema_createIndex S store hindex]
    cases storeIndex S store index.created <;> exact ⟨rfl, rfl⟩
  | drop index hname htable =>
    have hstep : (lifecycleMachine S Q).step store (.drop index hname htable)
        = (dropStored store index.name index.table).elim (.error .databaseError, store)
          fun store => (.ok .done, store) := by
      show ((parseIndex (visitDropIndex Q.indexPreparer index)).bind _).elim _ _ = _
      rw [parseIndex_drop Q hname htable, Option.bind_some]
      rfl
    have hschema : (indexSchemaMachine S).step (schemaOf store.cat) (.drop index hname htable)
        = ((schemaOf store.cat).drop index).elim (.error .databaseError, schemaOf store.cat)
          fun schema => (.ok .done, schema) := rfl
    rw [Machine.answer, Machine.answer, Machine.next, Machine.next, hstep, hschema,
      schema_dropIndex store index]
    cases dropStored store index.name index.table <;> exact ⟨rfl, rfl⟩
  | getIndexes t => exact ⟨getIndexes_store store t, rfl⟩
  | getUniqueConstraints t => exact ⟨getUniqueConstraints_store store t, rfl⟩
  | getPkConstraint t => exact ⟨getPkConstraint_store t, rfl⟩

/-- **Indexes come back as they were declared.**  From any catalog, in any run of
statements that create and drop indexes and of questions about tables of any names,
the indexes, the unique constraints and the primary keys are those of the schema: an
index that was created has the columns, the directions, the expression and the
condition of its `Index` until it is dropped, and the others stay as they were. -/
theorem index_lifecycles_agree (Q : NameQuoter) (store : IndexStore)
    (calls : List LifecycleCall) :
    (lifecycleMachine S Q).answers store calls
        = (indexSchemaMachine S).answers (schemaOf store.cat) calls ∧
      (indexSchemaMachine S).run (schemaOf store.cat) calls
        = schemaOf ((lifecycleMachine S Q).run store calls).cat :=
  Machine.simulation _ _ (R := fun (store : IndexStore) schema => schema = schemaOf store.cat)
    (lifecycle_next S Q) rfl calls

end Schema

end Server

end SqlalchemyCubrid.Dialect
