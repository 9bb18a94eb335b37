import SqlalchemyCubrid.Dialect.Catalog
import SqlalchemyCubrid.Lib.Dict

/-!
# Reflecting indexes

`get_pk_constraint`, `get_indexes` and `get_unique_constraints`: three queries on
the catalog, and three loops that fold the rows.

On a well-formed catalog the folds come out in closed form.

* `getIndexes_eq`: the indexes that are no key, in the order of their names, each
  as `reflectIndex` of its keys.
* `getUniqueConstraints_eq`: the same for the unique ones.
* `getPkConstraint_eq`: the columns of the primary key.

`index_reflection_partitions` reads off what the three lists have to do with each
other and with the catalog.
-/

namespace SqlalchemyCubrid.Dialect

open Lib Python

/-! ### What the methods return -/

structure PkConstraint where
  constrainedColumns : List (Option Str)
  name : Option Str
  deriving DecidableEq, Repr

/-- The `cubrid_` options of an index; one that is left out is `false` or
`none`. -/
structure IndexOptions where
  reverse : Bool
  filtered : Option Str
  function : Option Str
  deriving DecidableEq, Repr

structure ReflectedIndex where
  name : Str
  unique : Bool
  columnNames : List (Option Str)
  columnSorting : Dict (Option Str) (List Str)
  dialectOptions : IndexOptions
  deriving DecidableEq, Repr

structure UniqueConstraint where
  name : Str
  columnNames : List (Option Str)
  duplicatesIndex : Str
  deriving DecidableEq, Repr

/-! ### The code -/

def isPrimary (i : DbIndex) : Bool := i.isPrimaryKey = .yes

/-- `is_primary_key = 'NO' AND is_foreign_key = 'NO'` -/
def isPlain (i : DbIndex) : Bool := i.isPrimaryKey = .no ∧ i.isForeignKey = .no

/-- The same with `is_unique = 'YES'`. -/
def isPlainUnique (i : DbIndex) : Bool := i.isUnique = .yes ∧ isPlain i

theorem isPlain_iff {i : DbIndex} :
    isPlain i = true ↔ i.isPrimaryKey = .no ∧ i.isForeignKey = .no := by
  rw [isPlain, decide_eq_true_iff]

section Code

variable [UnicodeData]

/-- `if asc_desc and asc_desc.upper() != "ASC"`: the item for `column_sorting`. -/
def sortingItem (k : DbIndexKey) : Option (Option Str × List Str) :=
  match truthy k.ascDesc with
  | none => none
  | some d => if upper d ≠ "ASC".toList then some (k.keyAttrName, [lower d]) else none

/-- The dict a new index starts with. -/
def newIndex (r : DbIndex × DbIndexKey) : ReflectedIndex where
  name := r.1.indexName
  unique := r.1.isUnique = .yes
  columnNames := []
  columnSorting := []
  dialectOptions :=
    { reverse := r.1.isReverse = .yes
      filtered := truthy r.1.filterExpression
      function := if r.1.haveFunction = .yes then truthy r.2.func else none }

def addKey (r : DbIndex × DbIndexKey) (v : ReflectedIndex) : ReflectedIndex :=
  { v with
    columnNames := v.columnNames ++ [r.2.keyAttrName]
    columnSorting := match sortingItem r.2 with
      | none => v.columnSorting
      | some item => v.columnSorting.set item.1 item.2 }

/-- The loop of `get_indexes`. -/
def foldIndexes (rows : List (DbIndex × DbIndexKey)) : Dict Str ReflectedIndex :=
  rows.foldl (Dict.groupStep (fun r => r.1.indexName) newIndex addKey) []

def getIndexes (cat : Catalog) (tableName : Str) : Except PyError (List ReflectedIndex) :=
  if hasObject cat tableName then
    .ok ((foldIndexes (cat.indexRows (lower tableName) isPlain)).map Prod.snd)
  else
    .error (.noSuchTableError tableName)

def newConstraint (r : DbIndex × DbIndexKey) : UniqueConstraint :=
  ⟨r.1.indexName, [], r.1.indexName⟩

def addColumn (r : DbIndex × DbIndexKey) (v : UniqueConstraint) : UniqueConstraint :=
  { v with columnNames := v.columnNames ++ [r.2.keyAttrName] }

/-- The loop of `get_unique_constraints`. -/
def foldConstraints (rows : List (DbIndex × DbIndexKey)) : Dict Str UniqueConstraint :=
  rows.foldl (Dict.groupStep (fun r => r.1.indexName) newConstraint addColumn) []

def getUniqueConstraints (cat : Catalog) (tableName : Str) :
    Except PyError (List UniqueConstraint) :=
  if hasObject cat tableName then
    .ok ((foldConstraints (cat.indexRows (lower tableName) isPlainUnique)).map Prod.snd)
  else
    .error (.noSuchTableError tableName)

/-- The loop of `get_pk_constraint`. -/
def foldPk (rows : List (DbIndex × DbIndexKey)) : PkConstraint :=
  rows.foldl
    (fun pk r => ⟨pk.constrainedColumns ++ [r.2.keyAttrName], some r.1.indexName⟩) ⟨[], none⟩

def getPkConstraint (cat : Catalog) (tableName : Str) : Except PyError PkConstraint :=
  if hasObject cat tableName then
    .ok (foldPk (cat.keyOrderedRows (lower tableName) isPrimary))
  else
    .error (.noSuchTableError tableName)

/-! ### One index -/

/-- What `get_indexes` makes of an index with these keys. -/
def reflectIndex (i : DbIndex) (keys : List DbIndexKey) : ReflectedIndex where
  name := i.indexName
  unique := i.isUnique = .yes
  columnNames := keys.map DbIndexKey.keyAttrName
  columnSorting := Dict.setAll [] (keys.filterMap sortingItem)
  dialectOptions :=
    { reverse := i.isReverse = .yes
      filtered := truthy i.filterExpression
      function := if i.haveFunction = .yes then keys.head?.bind fun k => truthy k.func else none }

theorem foldl_addKey (i : DbIndex) (keys : List DbIndexKey) (v : ReflectedIndex) :
    (keys.map fun k => (i, k)).foldl (fun v r => addKey r v) v
      = { v with
          columnNames := v.columnNames ++ keys.map DbIndexKey.keyAttrName
          columnSorting := Dict.setAll v.columnSorting (keys.filterMap sortingItem) } := by
  induction keys generalizing v with
  | nil => simp [Dict.setAll]
  | cons k keys ih =>
    rw [List.map_cons, List.foldl_cons, ih]
    cases hk : sortingItem k with
    | none => simp [addKey, hk]
    | some item => simp [addKey, hk, Dict.setAll]

theorem groupValue_index (i : DbIndex) (k : DbIndexKey) (keys : List DbIndexKey) :
    Dict.groupValue newIndex addKey (i, k) (keys.map fun k => (i, k))
      = reflectIndex i (k :: keys) := by
  have h := foldl_addKey i (k :: keys) (newIndex (i, k))
  rw [List.map_cons] at h
  rw [Dict.groupValue, h]
  rfl

/-- The rows of one index make one entry. -/
theorem foldIndexes_single (i : DbIndex) {keys : List DbIndexKey} (h : keys ≠ []) :
    foldIndexes (keys.map fun k => (i, k)) = [(i.indexName, reflectIndex i keys)] := by
  cases keys with
  | nil => exact absurd rfl h
  | cons k keys =>
    have hone : ([i].flatMap fun j => (k :: keys).map fun k => (j, k)).foldl
        (Dict.groupStep (fun r => r.1.indexName) newIndex addKey) []
        = [] ++ [i].map fun j => (j.indexName, reflectIndex j (k :: keys)) := by
      refine Dict.foldl_upsert_groups (fun r => r.1.indexName) newIndex addKey
        (fun j => (k :: keys).map fun k => (j, k)) DbIndex.indexName _ ?_ ?_ ?_ ?_
      · intro j _ r hr
        obtain ⟨l, -, rfl⟩ := List.mem_map.mp hr
        rfl
      · intro j _
        exact ⟨(j, k), _, List.map_cons, (groupValue_index j k keys).symm⟩
      · exact List.nodup_singleton i.indexName
      · exact fun _ _ h => absurd h List.not_mem_nil
    rw [List.flatMap_cons, List.flatMap_nil, List.append_nil] at hone
    exact hone

end Code

theorem groupValue_constraint (i : DbIndex) (k : DbIndexKey) (keys : List DbIndexKey) :
    Dict.groupValue newConstraint addColumn (i, k) (keys.map fun k => (i, k))
      = ⟨i.indexName, (k :: keys).map DbIndexKey.keyAttrName, i.indexName⟩ := by
  have h : ∀ (keys : List DbIndexKey) (v : UniqueConstraint),
      (keys.map fun k => (i, k)).foldl (fun v r => addColumn r v) v
        = { v with columnNames := v.columnNames ++ keys.map DbIndexKey.keyAttrName } := by
    intro keys
    induction keys with
    | nil => intro v; simp
    | cons k keys ih =>
      intro v
      rw [List.map_cons, List.foldl_cons, ih]
      simp [addColumn]
  have hk := h (k :: keys) (newConstraint (i, k))
  rw [List.map_cons] at hk
  rw [Dict.groupValue, hk]
  rfl

/-- The columns collected from the rows of one index, and its name if it has
any. -/
theorem foldPk_map (i : DbIndex) (keys : List DbIndexKey) :
    foldPk (keys.map fun k => (i, k))
      = ⟨keys.map DbIndexKey.keyAttrName, if keys = [] then none else some i.indexName⟩ := by
  have h : ∀ (keys : List DbIndexKey) (pk : PkConstraint),
      (keys.map fun k => (i, k)).foldl
        (fun pk r => (⟨pk.constrainedColumns ++ [r.2.keyAttrName], some r.1.indexName⟩ :
          PkConstraint)) pk
        = ⟨pk.constrainedColumns ++ keys.map DbIndexKey.keyAttrName,
            if keys = [] then pk.name else some i.indexName⟩ := by
    intro keys
    induction keys with
    | nil => intro pk; simp
    | cons k keys ih =>
      intro pk
      rw [List.map_cons, List.foldl_cons, ih]
      simp
  rw [foldPk, h]
  simp

/-! ### The lists -/

/-- The indexes of a class that meet a condition and have a key, in the order of
their names. -/
def keyedIndexes (cat : Catalog) (name : Str) (cond : DbIndex → Bool) : List DbIndex :=
  (orderBy DbIndex.indexName (cat.indexesOf name cond)).filter fun i => cat.keysOf i ≠ []

theorem mem_keyedIndexes {cat : Catalog} {name : Str} {cond : DbIndex → Bool} {i : DbIndex} :
    i ∈ keyedIndexes cat name cond ↔
      i ∈ cat.dbIndex ∧ i.className = name ∧ cond i = true ∧ cat.keysOf i ≠ [] := by
  rw [keyedIndexes, List.mem_filter, mem_orderBy, Catalog.mem_indexesOf, decide_eq_true_iff,
    and_assoc, and_assoc]

section Lists

variable {cat : Catalog} (wf : cat.WellFormed)
include wf

theorem nodup_keyedIndexes (name : Str) (cond : DbIndex → Bool) :
    ((keyedIndexes cat name cond).map DbIndex.indexName).Nodup := by
  have hperm := (orderBy_perm DbIndex.indexName (cat.indexesOf name cond)).map DbIndex.indexName
  have hnodup := hperm.nodup_iff.mpr (wf.nodup_indexName name cond)
  exact hnodup.sublist (List.Sublist.map _ List.filter_sublist)

/-- An index without keys has no rows. -/
theorem indexRows_eq_keyed (name : Str) (cond : DbIndex → Bool) :
    cat.indexRows name cond
      = (keyedIndexes cat name cond).flatMap fun i => (cat.keysOf i).map fun k => (i, k) := by
  rw [wf.indexRows_eq, keyedIndexes]
  induction orderBy DbIndex.indexName (cat.indexesOf name cond) with
  | nil => rfl
  | cons i is ih =>
    rw [List.flatMap_cons, ih, List.filter_cons]
    by_cases h : cat.keysOf i = []
    · rw [if_neg (by simpa using h), h, List.map_nil, List.nil_append]
    · rw [if_pos (by simpa using h), List.flatMap_cons]

/-- The grouping loop over the rows of the join. -/
theorem foldl_indexRows {ν : Type} (init : DbIndex × DbIndexKey → ν)
    (upd : DbIndex × DbIndexKey → ν → ν) (value : DbIndex → ν) (name : Str)
    (cond : DbIndex → Bool)
    (hvalue : ∀ i k keys, cat.keysOf i = k :: keys →
      value i = Dict.groupValue init upd (i, k) (keys.map fun k => (i, k))) :
    (cat.indexRows name cond).foldl (Dict.groupStep (fun r => r.1.indexName) init upd) []
      = (keyedIndexes cat name cond).map fun i => (i.indexName, value i) := by
  rw [indexRows_eq_keyed wf]
  refine (Dict.foldl_upsert_groups (fun r => r.1.indexName) init upd
    (fun i => (cat.keysOf i).map fun k => (i, k)) DbIndex.indexName value ?_ ?_
    (nodup_keyedIndexes wf name cond) ?_).trans (List.nil_append _)
  · intro i _ r hr
    obtain ⟨k, -, rfl⟩ := List.mem_map.mp hr
    rfl
  · intro i hi
    obtain ⟨-, -, -, hkeys⟩ := mem_keyedIndexes.mp hi
    cases hk : cat.keysOf i with
    | nil => exact absurd hk hkeys
    | cons k keys => exact ⟨(i, k), _, List.map_cons, hvalue i k keys hk⟩
  · intro i _ h
    exact absurd h List.not_mem_nil

/-- The unique ones are the unique ones of `get_indexes`, in the same order. -/
theorem keyedIndexes_unique (name : Str) :
    keyedIndexes cat name isPlainUnique
      = (keyedIndexes cat name isPlain).filter fun i => i.isUnique = .yes := by
  have hindexes : cat.indexesOf name isPlainUnique
      = (cat.indexesOf name isPlain).filter fun i => i.isUnique = .yes := by
    rw [Catalog.indexesOf, Catalog.indexesOf, List.filter_filter]
    apply List.filter_congr
    intro i _
    rw [isPlainUnique]
    grind
  rw [keyedIndexes, keyedIndexes, hindexes, ← filter_orderBy (wf.nodup_indexName name isPlain),
    List.filter_filter, List.filter_filter]
  apply List.filter_congr
  intro i _
  rw [Bool.and_comm]

/-- The primary key of a class, if it has one. -/
theorem indexesOf_primary (name : Str) :
    cat.indexesOf name isPrimary = [] ∨ ∃ i, cat.indexesOf name isPrimary = [i] := by
  have hnodup : (cat.indexesOf name isPrimary).Nodup :=
    List.Nodup.of_map _ (wf.nodup_indexName name isPrimary)
  have hone : ∀ i ∈ cat.indexesOf name isPrimary, ∀ j ∈ cat.indexesOf name isPrimary, i = j := by
    intro i hi j hj
    obtain ⟨hi, hci, hpi⟩ := Catalog.mem_indexesOf.mp hi
    obtain ⟨hj, hcj, hpj⟩ := Catalog.mem_indexesOf.mp hj
    exact wf.one_primary_key i hi j hj (by simpa [isPrimary] using hpi)
      (by simpa [isPrimary] using hpj) (hci.trans hcj.symm)
  cases h : cat.indexesOf name isPrimary with
  | nil => exact Or.inl rfl
  | cons i is =>
    cases is with
    | nil => exact Or.inr ⟨i, rfl⟩
    | cons j is =>
      rw [h] at hnodup hone
      have hij : i = j := hone i (by simp) j (by simp)
      exact absurd hnodup (by simp [hij])

variable [UnicodeData]

/-- **`get_indexes` in closed form.** -/
theorem getIndexes_eq {tableName : Str} (h : hasObject cat tableName = true) :
    getIndexes cat tableName
      = .ok ((keyedIndexes cat (lower tableName) isPlain).map fun i =>
          reflectIndex i (cat.keysOf i)) := by
  rw [getIndexes, if_pos h, foldIndexes,
    foldl_indexRows wf newIndex addKey (fun i => reflectIndex i (cat.keysOf i)), List.map_map]
  · rfl
  · intro i k keys hk
    show reflectIndex i (cat.keysOf i) = _
    rw [hk]
    exact (groupValue_index i k keys).symm

/-- **`get_unique_constraints` in closed form.** -/
theorem getUniqueConstraints_eq {tableName : Str} (h : hasObject cat tableName = true) :
    getUniqueConstraints cat tableName
      = .ok ((keyedIndexes cat (lower tableName) isPlainUnique).map fun i =>
          ⟨i.indexName, (cat.keysOf i).map DbIndexKey.keyAttrName, i.indexName⟩) := by
  rw [getUniqueConstraints, if_pos h, foldConstraints,
    foldl_indexRows wf newConstraint addColumn
      (fun i => ⟨i.indexName, (cat.keysOf i).map DbIndexKey.keyAttrName, i.indexName⟩),
    List.map_map]
  · rfl
  · intro i k keys hk
    show (⟨i.indexName, (cat.keysOf i).map DbIndexKey.keyAttrName, i.indexName⟩ :
      UniqueConstraint) = _
    rw [hk]
    exact (groupValue_constraint i k keys).symm

/-- **`get_pk_constraint` in closed form**, for a class with a primary key. -/
theorem getPkConstraint_eq {tableName : Str} (h : hasObject cat tableName = true) {i : DbIndex}
    (hi : i ∈ cat.indexesOf (lower tableName) isPrimary) :
    getPkConstraint cat tableName
      = .ok ⟨(cat.keysOf i).map DbIndexKey.keyAttrName,
          if cat.keysOf i = [] then none else some i.indexName⟩ := by
  rcases indexesOf_primary wf (lower tableName) with hnil | ⟨j, hj⟩
  · rw [hnil] at hi
    exact absurd hi List.not_mem_nil
  · rw [hj] at hi
    have hij : i = j := List.mem_singleton.mp hi
    subst hij
    rw [getPkConstraint, if_pos h, Catalog.keyOrderedRows_eq hj, foldPk_map]

end Lists

section Partition

variable [UnicodeData]

theorem getPkConstraint_of_none {cat : Catalog} {tableName : Str}
    (h : hasObject cat tableName = true)
    (hnone : cat.indexesOf (lower tableName) isPrimary = []) :
    getPkConstraint cat tableName = .ok ⟨[], none⟩ := by
  rw [getPkConstraint, if_pos h, Catalog.keyOrderedRows, Catalog.joined_eq, hnone]
  rfl

/-- Whatever its class has for a primary key. -/
theorem getPkConstraint_spec {cat : Catalog} (wf : cat.WellFormed) {tableName : Str}
    (h : hasObject cat tableName = true) :
    ∃ pk, getPkConstraint cat tableName = .ok pk ∧
      (∀ i ∈ cat.indexesOf (lower tableName) isPrimary,
        pk.constrainedColumns = (cat.keysOf i).map DbIndexKey.keyAttrName ∧
          (cat.keysOf i ≠ [] → pk.name = some i.indexName)) ∧
      (∀ n, pk.name = some n →
        ∃ i ∈ cat.indexesOf (lower tableName) isPrimary, i.indexName = n) ∧
      (pk.name = none → pk.constrainedColumns = []) := by
  rcases indexesOf_primary wf (lower tableName) with hnil | ⟨i, hi⟩
  · refine ⟨_, getPkConstraint_of_none h hnil, ?_, ?_, fun _ => rfl⟩
    · rw [hnil]
      exact fun i hi => absurd hi List.not_mem_nil
    · intro n hn
      cases hn
  · have hmem : i ∈ cat.indexesOf (lower tableName) isPrimary := by
      rw [hi]
      exact List.mem_singleton_self i
    refine ⟨_, getPkConstraint_eq wf h hmem, ?_, ?_, ?_⟩
    · intro j hj
      rw [hi] at hj
      rw [List.mem_singleton.mp hj]
      exact ⟨rfl, fun hne => if_neg hne⟩
    · intro n hn
      refine ⟨i, hmem, ?_⟩
      by_cases hk : cat.keysOf i = []
      · simp [hk] at hn
      · simpa [hk] using hn
    · intro hn
      by_cases hk : cat.keysOf i = []
      · simp [hk]
      · simp [hk] at hn

/-! ### The three methods together -/

/-- A key whose direction is not `ASC`. -/
def IsDescending (k : DbIndexKey) : Prop :=
  ∃ d, k.ascDesc = some d ∧ d ≠ [] ∧ upper d ≠ "ASC".toList

/-- An entry of `get_indexes` shows an index: its columns are the key columns in
key order, and the columns with a direction are those of the keys that are not
`ASC`. -/
structure Shows (cat : Catalog) (e : ReflectedIndex) (i : DbIndex) : Prop where
  name : e.name = i.indexName
  unique : e.unique = true ↔ i.isUnique = .yes
  columnNames : e.columnNames = (cat.keysOf i).map DbIndexKey.keyAttrName
  sorting_sound : ∀ c d, e.columnSorting.get? c = some d →
    ∃ k ∈ cat.keysOf i, k.keyAttrName = c ∧ IsDescending k ∧ d = [lower (k.ascDesc.getD [])]
  sorting_complete : ∀ k ∈ cat.keysOf i, IsDescending k →
    e.columnSorting.get? k.keyAttrName ≠ none

/-- The three lists for the class `name` agree with the catalog and with each
other. -/
structure Partitions (cat : Catalog) (name : Str) (pk : PkConstraint)
    (indexes : List ReflectedIndex) (constraints : List UniqueConstraint) : Prop where
  /-- the primary key, if the class has one -/
  pk_complete : ∀ i ∈ cat.dbIndex, i.className = name → i.isPrimaryKey = .yes →
    pk.constrainedColumns = (cat.keysOf i).map DbIndexKey.keyAttrName ∧
      (cat.keysOf i ≠ [] → pk.name = some i.indexName)
  pk_sound : ∀ n, pk.name = some n → ∃ i ∈ cat.dbIndex, i.className = name ∧
    i.isPrimaryKey = .yes ∧ i.isForeignKey = .no ∧ i.indexName = n
  pk_nothing : pk.name = none → pk.constrainedColumns = []
  /-- every other index that is no foreign key and has a key -/
  complete : ∀ i ∈ cat.dbIndex, i.className = name → i.isPrimaryKey = .no →
    i.isForeignKey = .no → cat.keysOf i ≠ [] → ∃ e ∈ indexes, Shows cat e i
  sound : ∀ e ∈ indexes, ∃ i ∈ cat.dbIndex, i.className = name ∧ i.isPrimaryKey = .no ∧
    i.isForeignKey = .no ∧ Shows cat e i
  nodup : (indexes.map ReflectedIndex.name).Nodup
  constraints : constraints = (indexes.filter ReflectedIndex.unique).map fun e =>
    ⟨e.name, e.columnNames, e.name⟩

theorem sortingItem_eq_some {k : DbIndexKey} {item : Option Str × List Str} :
    sortingItem k = some item ↔
      IsDescending k ∧ item = (k.keyAttrName, [lower (k.ascDesc.getD [])]) := by
  cases hd : k.ascDesc with
  | none =>
    rw [sortingItem, hd, truthy_none]
    constructor
    · intro h
      cases h
    · rintro ⟨⟨d, h, -, -⟩, -⟩
      rw [hd] at h
      cases h
  | some d =>
    by_cases hne : d = []
    · rw [sortingItem, hd, hne, truthy_empty]
      constructor
      · intro h
        cases h
      · rintro ⟨⟨d', h, hne', -⟩, -⟩
        rw [hd, Option.some.injEq] at h
        exact absurd (h.symm.trans hne) hne'
    · rw [sortingItem, hd, truthy_some hne]
      show (if upper d ≠ "ASC".toList then some (k.keyAttrName, [lower d]) else none) = some item
        ↔ _
      by_cases hu : upper d = "ASC".toList
      · rw [if_neg (not_not.mpr hu)]
        constructor
        · intro h
          cases h
        · rintro ⟨⟨d', h, -, hu'⟩, -⟩
          rw [hd, Option.some.injEq] at h
          rw [h] at hu
          exact absurd hu hu'
      · rw [if_pos hu, Option.some.injEq]
        exact ⟨fun h => ⟨⟨d, hd, hne, hu⟩, h.symm⟩, fun h => h.2.symm⟩

theorem shows_reflectIndex (cat : Catalog) (i : DbIndex) :
    Shows cat (reflectIndex i (cat.keysOf i)) i where
  name := rfl
  unique := decide_eq_true_iff
  columnNames := rfl
  sorting_sound c d h := by
    rcases Dict.mem_of_get?_setAll h with h | h
    · cases h
    · obtain ⟨k, hk, hitem⟩ := List.mem_filterMap.mp h
      obtain ⟨hdesc, e⟩ := sortingItem_eq_some.mp hitem
      obtain ⟨rfl, rfl⟩ := Prod.mk.inj e
      exact ⟨k, hk, rfl, hdesc, rfl⟩
  sorting_complete k hk hdesc := by
    refine Dict.get?_setAll_ne_none (Or.inr ⟨[lower (k.ascDesc.getD [])], ?_⟩)
    exact List.mem_filterMap.mpr ⟨k, hk, sortingItem_eq_some.mpr ⟨hdesc, rfl⟩⟩

/-- **The three index-based methods partition the indexes of a table.** -/
theorem index_reflection_partitions (cat : Catalog) (wf : cat.WellFormed) (tableName : Str)
    (h : hasObject cat tableName = true) :
    ∃ pk indexes constraints, getPkConstraint cat tableName = .ok pk ∧
      getIndexes cat tableName = .ok indexes ∧
      getUniqueConstraints cat tableName = .ok constraints ∧
      Partitions cat (lower tableName) pk indexes constraints := by
  have hprimary : ∀ i, i ∈ cat.indexesOf (lower tableName) isPrimary ↔
      i ∈ cat.dbIndex ∧ i.className = lower tableName ∧ i.isPrimaryKey = .yes := by
    intro i
    rw [Catalog.mem_indexesOf, isPrimary, decide_eq_true_iff]
  obtain ⟨pk, hpk, hcomplete, hsound, hnothing⟩ := getPkConstraint_spec wf h
  refine ⟨pk, _, _, hpk, getIndexes_eq wf h, getUniqueConstraints_eq wf h, ?_⟩
  refine
    { pk_complete := fun i hi hc hp => hcomplete i ((hprimary i).mpr ⟨hi, hc, hp⟩)
      pk_sound := ?_
      pk_nothing := hnothing
      complete := ?_
      sound := ?_
      nodup := ?_
      constraints := ?_ }
  · intro n hn
    obtain ⟨i, hi, rfl⟩ := hsound n hn
    obtain ⟨hi, hc, hp⟩ := (hprimary i).mp hi
    refine ⟨i, hi, hc, hp, ?_, rfl⟩
    cases hf : i.isForeignKey with
    | no => rfl
    | yes => exact absurd ⟨hp, hf⟩ (wf.not_primary_and_foreign i hi)
  · intro i hi hc hp hf hk
    refine ⟨_, List.mem_map_of_mem (mem_keyedIndexes.mpr ⟨hi, hc, ?_, hk⟩),
      shows_reflectIndex cat i⟩
    exact isPlain_iff.mpr ⟨hp, hf⟩
  · intro e he
    obtain ⟨i, hi, rfl⟩ := List.mem_map.mp he
    obtain ⟨hi, hc, hplain, -⟩ := mem_keyedIndexes.mp hi
    obtain ⟨hp, hf⟩ := isPlain_iff.mp hplain
    exact ⟨i, hi, hc, hp, hf, shows_reflectIndex cat i⟩
  · rw [List.map_map]
    exact nodup_keyedIndexes wf (lower tableName) isPlain
  · rw [keyedIndexes_unique wf, List.filter_map, List.map_map]
    rfl

end Partition

/-- Two tables that share an index name, a foreign key and a two-column index
with its rows out of order. -/
def sampleCatalog : Catalog where
  dbClass :=
    [⟨"person".toList, .no, "CLASS".toList⟩, ⟨"team".toList, .no, "CLASS".toList⟩]
  dbIndex :=
    [⟨"pk".toList, "person".toList, .yes, .no, .yes, .no, none, .no⟩,
      ⟨"idx".toList, "team".toList, .no, .no, .no, .no, none, .no⟩,
      ⟨"idx".toList, "person".toList, .yes, .no, .no, .no, none, .no⟩,
      ⟨"fk".toList, "person".toList, .no, .no, .no, .yes, none, .no⟩]
  dbIndexKey :=
    [⟨"idx".toList, "person".toList, some "name".toList, 1, some "DESC".toList, none⟩,
      ⟨"idx".toList, "team".toList, some "id".toList, 0, some "ASC".toList, none⟩,
      ⟨"pk".toList, "person".toList, some "id".toList, 0, some "ASC".toList, none⟩,
      ⟨"fk".toList, "person".toList, some "team".toList, 0, some "ASC".toList, none⟩,
      ⟨"idx".toList, "person".toList, some "team".toList, 0, some "ASC".toList, none⟩]

theorem sampleCatalog_wellFormed : sampleCatalog.WellFormed where
  index_identified := by decide
  not_primary_and_foreign := by decide
  one_primary_key := by decide
  key_orders := by decide

/-- The methods on a table that is spelled with a capital. -/
theorem index_reflection_partitions_person :
    let _ := asciiData
    ∃ pk indexes constraints, getPkConstraint sampleCatalog "Person".toList = .ok pk ∧
      getIndexes sampleCatalog "Person".toList = .ok indexes ∧
      getUniqueConstraints sampleCatalog "Person".toList = .ok constraints ∧
      Partitions sampleCatalog (lower "Person".toList) pk indexes constraints := by
  intro _
  exact index_reflection_partitions sampleCatalog sampleCatalog_wellFormed "Person".toList
    (by decide)

end SqlalchemyCubrid.Dialect
