import SqlalchemyCubrid.Dialect.Indexes
import Mathlib.Algebra.Order.BigOperators.Group.List
import Mathlib.Algebra.Order.Group.Nat

/-!
# Recreating a reflected index

`visit_create_index` prints an index object.  Here an index is defined
(`IndexDef`), stored as catalog rows, reflected by the loop of `get_indexes`,
made into an index object and printed again.

A function key is stored in the index options, and only from the first row; a
direction is stored under the name of its column.  `recreateIndex_iff` says what
survives: a definition comes back exactly when a function key is its only key,
if it has one, and no column is listed in both directions.
-/

namespace SqlalchemyCubrid.Compiler

open Lib Python Dialect

/-! ### The index object and its text -/

/-- A column of an index, in descending order or not. -/
structure IndexColumn where
  name : Str
  descending : Bool
  deriving DecidableEq, Repr

/-- A SQLAlchemy `Index`.  A `None` among the column names stays an expression
that cannot be compiled. -/
structure Index where
  name : Str
  table : Str
  unique : Bool
  expressions : List (Option IndexColumn)
  dialectOptions : IndexOptions

/-- How the compiler writes names. -/
structure Preparer where
  preparedIndexName : Str → Str
  formatTable : Str → Str
  formatColumn : Str → Str

section Visit

variable (P : Preparer)

def processColumn (c : IndexColumn) : Str :=
  P.formatColumn c.name ++ if c.descending then " DESC".toList else []

/-- The text up to the keys. -/
def createIndexHead (unique reverse : Bool) (name table : Str) : Str :=
  "CREATE ".toList ++ (if unique then "UNIQUE ".toList else [])
    ++ (if reverse then "REVERSE ".toList else []) ++ "INDEX ".toList
    ++ P.preparedIndexName name ++ " ON ".toList ++ P.formatTable table ++ " ".toList

def whereClause (filtered : Option Str) : Str :=
  match truthy filtered with
  | some f => " WHERE ".toList ++ f
  | none => []

def parenthesized (s : Str) : Str := '(' :: (s ++ [')'])

/-- `visit_create_index`; `none` is the exception of a `None` expression. -/
def visitCreateIndex (index : Index) : Option Str :=
  let keys : Option Str :=
    match truthy index.dialectOptions.function with
    | some f => some f
    | none => (index.expressions.mapM (Option.map (processColumn P))).map (join ", ".toList)
  keys.map fun keys =>
    createIndexHead P index.unique index.dialectOptions.reverse index.name index.table
      ++ parenthesized keys ++ whereClause index.dialectOptions.filtered

end Visit

/-- The `Index` SQLAlchemy builds from an entry of `get_indexes`. -/
def buildIndex (table : Str) (e : ReflectedIndex) : Index where
  name := e.name
  table := table
  unique := e.unique
  expressions := e.columnNames.map fun c =>
    c.map fun name => ⟨name, "desc".toList ∈ (e.columnSorting.get? (some name)).getD []⟩
  dialectOptions := e.dialectOptions

/-! ### Definitions and their rows -/

/-- A key of an index. -/
inductive KeyDef where
  | column (name : Str) (descending : Bool)
  | function (expr : Str)
  deriving DecidableEq, Repr

def KeyDef.isFunction : KeyDef → Bool
  | .column _ _ => false
  | .function _ => true

structure IndexDef where
  name : Str
  unique : Bool
  reverse : Bool
  filter : Option Str
  keys : List KeyDef
  keys_ne_nil : keys ≠ []
  filter_ne_empty : filter ≠ some []
  function_ne_empty : ∀ e, KeyDef.function e ∈ keys → e ≠ []
  one_function : keys.countP KeyDef.isFunction ≤ 1

def yesNo (b : Bool) : YesNo := if b then .yes else .no

def IndexDef.indexRow (d : IndexDef) (table : Str) : DbIndex where
  indexName := d.name
  className := table
  isUnique := yesNo d.unique
  isReverse := yesNo d.reverse
  isPrimaryKey := .no
  isForeignKey := .no
  filterExpression := d.filter
  haveFunction := yesNo (d.keys.any KeyDef.isFunction)

def keyRow (name table : Str) : KeyDef × Nat → DbIndexKey
  | (.column c descending, n) =>
    ⟨name, table, some c, n, some (if descending then "DESC".toList else "ASC".toList), none⟩
  | (.function e, n) => ⟨name, table, none, n, some "ASC".toList, some e⟩

def IndexDef.keyRows (d : IndexDef) (table : Str) : List DbIndexKey :=
  d.keys.zipIdx.map (keyRow d.name table)

/-- The text the definition stands for. -/
def KeyDef.text (P : Preparer) : KeyDef → Str
  | .column c descending => processColumn P ⟨c, descending⟩
  | .function e => e

def IndexDef.text (P : Preparer) (table : Str) (d : IndexDef) : Str :=
  createIndexHead P d.unique d.reverse d.name table
    ++ parenthesized (join ", ".toList (d.keys.map (KeyDef.text P))) ++ whereClause d.filter

section Recreate

variable [UnicodeData] (P : Preparer) (table : Str)

/-- The entries `get_indexes` makes of the rows of a definition, built and
printed. -/
def recreateIndex (d : IndexDef) : List (Option Str) :=
  (foldIndexes ((d.keyRows table).map fun k => (d.indexRow table, k))).map fun e =>
    visitCreateIndex P (buildIndex table e.2)

/-- A function key is the only key, and no column has both directions. -/
structure Recreatable (d : IndexDef) : Prop where
  function_alone : ∀ e, KeyDef.function e ∈ d.keys → d.keys = [.function e]
  one_direction : ∀ c, ¬ (KeyDef.column c true ∈ d.keys ∧ KeyDef.column c false ∈ d.keys)

/-! ### What reflection makes of a definition -/

variable {P table}

theorem sortingItem_column (name : Str) (c : Str) (descending : Bool) (n : Nat) :
    sortingItem (keyRow name table (.column c descending, n))
      = if descending then some (some c, ["desc".toList]) else none := by
  have hasc : upper "ASC".toList = "ASC".toList := by
    rw [upper_ascii (by decide)]
    decide
  have hdesc : upper "DESC".toList = "DESC".toList := by
    rw [upper_ascii (by decide)]
    decide
  have hlower : lower "DESC".toList = "desc".toList := by
    rw [lower, UnicodeData.lower_ascii _ (by decide)]
    decide
  cases descending with
  | false =>
    show (if upper "ASC".toList ≠ "ASC".toList then _ else none) = none
    rw [if_neg (not_not.mpr hasc)]
  | true =>
    show (if upper "DESC".toList ≠ "ASC".toList then some (some c, [lower "DESC".toList]) else none)
      = some (some c, ["desc".toList])
    rw [hdesc, hlower, if_pos (by decide)]

theorem sortingItem_function (name e : Str) (n : Nat) :
    sortingItem (keyRow name table (.function e, n)) = none := by
  have hasc : upper "ASC".toList = "ASC".toList := by
    rw [upper_ascii (by decide)]
    decide
  show (if upper "ASC".toList ≠ "ASC".toList then _ else none) = none
  rw [if_neg (not_not.mpr hasc)]

/-- The items of `column_sorting` are the descending columns. -/
theorem mem_sortingItems {d : IndexDef} {item : Option Str × List Str} :
    item ∈ (d.keyRows table).filterMap sortingItem ↔
      ∃ c, KeyDef.column c true ∈ d.keys ∧ item = (some c, ["desc".toList]) := by
  rw [List.mem_filterMap]
  constructor
  · rintro ⟨k, hk, hitem⟩
    obtain ⟨⟨key, n⟩, hkey, rfl⟩ := List.mem_map.mp hk
    have hmem : key ∈ d.keys := by
      rw [← List.zipIdx_map_fst 0 d.keys]
      exact List.mem_map_of_mem hkey
    cases key with
    | function e =>
      rw [sortingItem_function] at hitem
      cases hitem
    | column c descending =>
      rw [sortingItem_column] at hitem
      cases descending with
      | false => cases hitem
      | true => exact ⟨c, hmem, (Option.some.inj hitem).symm⟩
  · rintro ⟨c, hc, rfl⟩
    rw [← List.zipIdx_map_fst 0 d.keys] at hc
    obtain ⟨⟨key, n⟩, hkey, e⟩ := List.mem_map.mp hc
    have he : key = .column c true := e
    subst he
    refine ⟨_, List.mem_map_of_mem hkey, ?_⟩
    rw [sortingItem_column, if_pos rfl]

/-- A column is printed in descending order when some key of it is. -/
theorem desc_mem_sorting_iff (d : IndexDef) (c : Str) :
    "desc".toList ∈
        ((Dict.setAll [] ((d.keyRows table).filterMap sortingItem)).get? (some c)).getD [] ↔
      KeyDef.column c true ∈ d.keys := by
  constructor
  · intro h
    cases hg : (Dict.setAll [] ((d.keyRows table).filterMap sortingItem)).get? (some c) with
    | none =>
      rw [hg] at h
      exact absurd h List.not_mem_nil
    | some ops =>
      rcases Dict.mem_of_get?_setAll hg with h' | h'
      · cases h'
      · obtain ⟨c', hc', e⟩ := mem_sortingItems.mp h'
        obtain ⟨ec, -⟩ := Prod.mk.inj e
        rw [Option.some.inj ec]
        exact hc'
  · intro h
    have hmem : (some c, ["desc".toList]) ∈ (d.keyRows table).filterMap sortingItem :=
      mem_sortingItems.mpr ⟨c, h, rfl⟩
    have hne : (Dict.setAll [] ((d.keyRows table).filterMap sortingItem)).get? (some c) ≠ none :=
      Dict.get?_setAll_ne_none (Or.inr ⟨_, hmem⟩)
    cases hg : (Dict.setAll [] ((d.keyRows table).filterMap sortingItem)).get? (some c) with
    | none => exact absurd hg hne
    | some ops =>
      rcases Dict.mem_of_get?_setAll hg with h' | h'
      · cases h'
      · obtain ⟨c', -, e⟩ := mem_sortingItems.mp h'
        obtain ⟨-, eops⟩ := Prod.mk.inj e
        rw [eops]
        exact List.mem_singleton_self _

/-- The column a key is reflected as. -/
def KeyDef.reflected (d : IndexDef) : KeyDef → Option IndexColumn
  | .column c _ => some ⟨c, KeyDef.column c true ∈ d.keys⟩
  | .function _ => none

/-- The index object made from the rows of a definition. -/
def rebuilt (table : Str) (d : IndexDef) : Index :=
  buildIndex table (reflectIndex (d.indexRow table) (d.keyRows table))

theorem expressions_rebuilt (d : IndexDef) :
    (rebuilt table d).expressions = d.keys.map (KeyDef.reflected d) := by
  let sorting := Dict.setAll [] ((d.keyRows table).filterMap sortingItem)
  let column : DbIndexKey → Option IndexColumn := fun k =>
    k.keyAttrName.map fun c => ⟨c, "desc".toList ∈ (sorting.get? (some c)).getD []⟩
  have hcolumn : ∀ k : KeyDef × Nat, column (keyRow d.name table k) = KeyDef.reflected d k.1 := by
    rintro ⟨key, n⟩
    cases key with
    | function e => rfl
    | column c descending =>
      show some (⟨c, decide _⟩ : IndexColumn) = some ⟨c, decide _⟩
      rw [decide_eq_decide.mpr (desc_mem_sorting_iff d c)]
  calc (rebuilt table d).expressions = (d.keyRows table).map column := by
        show ((d.keyRows table).map DbIndexKey.keyAttrName).map _ = _
        rw [List.map_map]
        rfl
    _ = d.keys.zipIdx.map (column ∘ keyRow d.name table) := List.map_map
    _ = d.keys.zipIdx.map (KeyDef.reflected d ∘ Prod.fst) :=
      List.map_congr_left fun k _ => hcolumn k
    _ = d.keys.map (KeyDef.reflected d) := by rw [← List.map_map, List.zipIdx_map_fst]

theorem options_rebuilt (d : IndexDef) :
    (rebuilt table d).unique = d.unique ∧ (rebuilt table d).dialectOptions.reverse = d.reverse ∧
      (rebuilt table d).dialectOptions.filtered = d.filter := by
  have hyes : ∀ b : Bool, decide (yesNo b = .yes) = b := by decide
  refine ⟨hyes d.unique, hyes d.reverse, ?_⟩
  show truthy d.filter = d.filter
  cases hf : d.filter with
  | none => rfl
  | some f =>
    apply truthy_some
    rintro rfl
    exact d.filter_ne_empty hf

/-- The function option is the function of the first key. -/
theorem function_rebuilt (d : IndexDef) :
    truthy (rebuilt table d).dialectOptions.function
      = match d.keys with
        | .function e :: _ => some e
        | _ => none := by
  have hopt : (rebuilt table d).dialectOptions.function
      = if yesNo (d.keys.any KeyDef.isFunction) = .yes then
          (d.keyRows table).head?.bind fun k => truthy k.func
        else none := rfl
  have hne := d.function_ne_empty
  rw [hopt, IndexDef.keyRows]
  cases hk : d.keys with
  | nil => exact absurd hk d.keys_ne_nil
  | cons key keys =>
    rw [hk] at hne
    cases key with
    | column c descending =>
      show truthy (if _ then none else none) = none
      rw [ite_self]
      rfl
    | function e =>
      have he : e ≠ [] := hne e List.mem_cons_self
      show truthy (truthy (some e)) = some e
      rw [truthy_some he, truthy_some he]

theorem recreateIndex_eq (d : IndexDef) :
    recreateIndex P table d = [visitCreateIndex P (rebuilt table d)] := by
  have hrows : d.keyRows table ≠ [] := by
    rw [IndexDef.keyRows]
    simpa using d.keys_ne_nil
  rw [recreateIndex, foldIndexes_single _ hrows]
  rfl

/-- The recreated text, by the text of its keys. -/
theorem visitCreateIndex_rebuilt (d : IndexDef) (keys : Option Str)
    (h : (match truthy (rebuilt table d).dialectOptions.function with
      | some f => some f
      | none => ((rebuilt table d).expressions.mapM (Option.map (processColumn P))).map
          (join ", ".toList)) = keys) :
    visitCreateIndex P (rebuilt table d) = keys.map fun keys =>
      createIndexHead P d.unique d.reverse d.name table ++ parenthesized keys
        ++ whereClause d.filter := by
  obtain ⟨hu, hr, hf⟩ : (rebuilt table d).unique = d.unique ∧ _ ∧ _ := options_rebuilt d
  rw [visitCreateIndex, h, hu, hr, hf]
  rfl

end Recreate

/-! ### When it comes back -/

section RoundTrip

variable {P : Preparer} {table : Str}

/-- Two texts of one definition are the same when their keys are. -/
theorem text_eq_iff (d : IndexDef) (keys : Str) :
    createIndexHead P d.unique d.reverse d.name table ++ parenthesized keys
        ++ whereClause d.filter = d.text P table ↔
      keys = join ", ".toList (d.keys.map (KeyDef.text P)) := by
  rw [IndexDef.text, List.append_left_inj, List.append_right_inj, parenthesized, parenthesized,
    List.cons_inj_right, List.append_left_inj]

theorem mapM_map_eq_some {α β γ : Type} (f : β → γ) (g : α → Option β) (h : α → β) :
    ∀ {l : List α}, (∀ a ∈ l, g a = some (h a)) →
      (l.map g).mapM (Option.map f) = some (l.map fun a => f (h a))
  | [], _ => rfl
  | a :: l, hl => by
    rw [List.map_cons, List.mapM_cons, hl a List.mem_cons_self,
      mapM_map_eq_some f g h fun b hb => hl b (List.mem_cons_of_mem a hb)]
    rfl

theorem mapM_eq_none_of_mem {β γ : Type} (f : β → γ) :
    ∀ {l : List (Option β)}, none ∈ l → l.mapM (Option.map f) = none
  | [], h => absurd h List.not_mem_nil
  | none :: l, _ => by
    rw [List.mapM_cons]
    rfl
  | some b :: l, h => by
    have hl : none ∈ l := by
      rcases List.mem_cons.mp h with h | h
      · cases h
      · exact h
    rw [List.mapM_cons, mapM_eq_none_of_mem f hl]
    rfl

variable [UnicodeData]

/-- With columns only, each is printed in descending order if any key of it
is. -/
theorem visitCreateIndex_of_columns (d : IndexDef) (h : ∀ e, KeyDef.function e ∉ d.keys) :
    visitCreateIndex P (rebuilt table d) = some
      (createIndexHead P d.unique d.reverse d.name table
        ++ parenthesized (join ", ".toList (d.keys.map fun
          | .column c _ => processColumn P ⟨c, KeyDef.column c true ∈ d.keys⟩
          | .function _ => []))
        ++ whereClause d.filter) := by
  have hfun : truthy (rebuilt table d).dialectOptions.function = none := by
    rw [function_rebuilt]
    cases hk : d.keys with
    | nil => rfl
    | cons key keys =>
      cases key with
      | column c descending => rfl
      | function e => exact absurd (by rw [hk]; exact List.mem_cons_self) (h e)
  have hkeys : (rebuilt table d).expressions.mapM (Option.map (processColumn P))
      = some (d.keys.map fun
          | .column c _ => processColumn P ⟨c, KeyDef.column c true ∈ d.keys⟩
          | .function _ => []) := by
    rw [expressions_rebuilt, mapM_map_eq_some (processColumn P) (KeyDef.reflected d)
      (fun
        | .column c _ => ⟨c, KeyDef.column c true ∈ d.keys⟩
        | .function _ => ⟨[], false⟩)]
    · refine congrArg some (List.map_congr_left fun k hk => ?_)
      cases k with
      | column c descending => rfl
      | function e => exact absurd hk (h e)
    · intro k hk
      cases k with
      | column c descending => rfl
      | function e => exact absurd hk (h e)
  apply visitCreateIndex_rebuilt d (some _)
  rw [hfun, hkeys]
  rfl

/-- A function in front hides the other keys. -/
theorem visitCreateIndex_of_function_first (d : IndexDef) {e : Str} {keys : List KeyDef}
    (h : d.keys = .function e :: keys) :
    visitCreateIndex P (rebuilt table d) = some
      (createIndexHead P d.unique d.reverse d.name table ++ parenthesized e
        ++ whereClause d.filter) := by
  apply visitCreateIndex_rebuilt d (some e)
  rw [function_rebuilt, h]

/-- A function behind a column has no column name. -/
theorem visitCreateIndex_of_function_later (d : IndexDef) {c e : Str} {descending : Bool}
    {keys : List KeyDef} (h : d.keys = .column c descending :: keys)
    (he : KeyDef.function e ∈ d.keys) : visitCreateIndex P (rebuilt table d) = none := by
  have hnone : none ∈ (rebuilt table d).expressions := by
    rw [expressions_rebuilt]
    exact List.mem_map.mpr ⟨_, he, rfl⟩
  apply visitCreateIndex_rebuilt d none
  rw [function_rebuilt, h]
  show ((rebuilt table d).expressions.mapM (Option.map (processColumn P))).map _ = none
  rw [mapM_eq_none_of_mem _ hnone]
  rfl

/-- A column printed in both directions is printed longer than it was. -/
theorem one_direction_of_text_eq (d : IndexDef) (h : ∀ e, KeyDef.function e ∉ d.keys)
    (ht : visitCreateIndex P (rebuilt table d) = some (d.text P table)) (c : Str) :
    ¬ (KeyDef.column c true ∈ d.keys ∧ KeyDef.column c false ∈ d.keys) := by
  rintro ⟨hdesc, hasc⟩
  rw [visitCreateIndex_of_columns d h, Option.some.injEq, text_eq_iff] at ht
  have hlen := congrArg List.length ht
  rw [length_join, length_join, List.length_map, List.length_map, List.map_map, List.map_map,
    Nat.add_right_cancel_iff] at hlen
  refine absurd hlen (Nat.ne_of_gt ?_)
  refine List.sum_lt_sum _ _ ?_ ⟨_, hasc, ?_⟩
  · intro k hk
    cases k with
    | function e => exact absurd hk (h e)
    | column c' descending =>
      cases descending with
      | false =>
        show (P.formatColumn c' ++ []).length ≤ (P.formatColumn c' ++ _).length
        rw [List.append_nil, List.length_append]
        exact Nat.le_add_right _ _
      | true =>
        show _ ≤ (processColumn P ⟨c', decide (KeyDef.column c' true ∈ d.keys)⟩).length
        rw [decide_eq_true hk]
        exact le_refl _
  · show (P.formatColumn c ++ []).length
      < (processColumn P ⟨c, decide (KeyDef.column c true ∈ d.keys)⟩).length
    rw [decide_eq_true hdesc, processColumn, if_pos rfl, List.length_append, List.length_append]
    exact Nat.add_lt_add_left (by decide) _

omit [UnicodeData] in
/-- A function in front is the whole text exactly when it is the only key. -/
theorem recreatable_iff_of_function_first (d : IndexDef) {f : Str} {keys : List KeyDef}
    (hk : d.keys = .function f :: keys) :
    f = join ", ".toList (d.keys.map (KeyDef.text P)) ↔ Recreatable d := by
  rw [hk]
  constructor
  · intro ht
    cases keys with
    | nil =>
      refine ⟨fun e he => ?_, fun c hc => ?_⟩
      · rw [hk] at he ⊢
        rw [List.mem_singleton.mp he]
      · rw [hk] at hc
        cases List.mem_singleton.mp hc.1
    | cons key keys =>
      have hlen := congrArg List.length ht
      rw [List.map_cons, List.map_cons, join_cons_cons, List.length_append,
        List.length_append] at hlen
      have hf : (KeyDef.text P (.function f)).length = f.length := rfl
      have hsep : (", ".toList).length = 2 := by decide
      omega
  · intro h
    have halone := h.function_alone f (by rw [hk]; exact List.mem_cons_self)
    rw [hk] at halone
    rw [halone, List.map_cons, List.map_nil, join_singleton]
    rfl

/-- Columns come back exactly when none has both directions. -/
theorem recreatable_iff_of_columns (d : IndexDef) (hfun : ∀ e, KeyDef.function e ∉ d.keys) :
    visitCreateIndex P (rebuilt table d) = some (d.text P table) ↔ Recreatable d := by
  constructor
  · intro ht
    exact ⟨fun e he => absurd he (hfun e), one_direction_of_text_eq d hfun ht⟩
  · intro h
    rw [visitCreateIndex_of_columns d hfun, Option.some.injEq, text_eq_iff]
    refine congrArg (join ", ".toList) (List.map_congr_left fun k hk => ?_)
    cases k with
    | function e => exact absurd hk (hfun e)
    | column c descending =>
      show processColumn P ⟨c, decide (KeyDef.column c true ∈ d.keys)⟩
        = processColumn P ⟨c, descending⟩
      cases descending with
      | true => rw [decide_eq_true hk]
      | false => rw [decide_eq_false fun hdesc => h.one_direction c ⟨hdesc, hk⟩]

/-- **Reflect, then recreate.**  The text of a definition comes back exactly when
a function key is its only key and no column has both directions. -/
theorem recreateIndex_iff (P : Preparer) (table : Str) (d : IndexDef) :
    recreateIndex P table d = [some (d.text P table)] ↔ Recreatable d := by
  rw [recreateIndex_eq, List.singleton_inj]
  by_cases hfun : ∃ e, KeyDef.function e ∈ d.keys
  · obtain ⟨e, he⟩ := hfun
    cases hk : d.keys with
    | nil => exact absurd hk d.keys_ne_nil
    | cons key keys =>
      cases key with
      | column c descending =>
        rw [visitCreateIndex_of_function_later d hk he]
        refine ⟨fun h => (by cases h), fun h => ?_⟩
        have halone := h.function_alone e he
        rw [hk] at halone
        cases halone
      | function f =>
        rw [visitCreateIndex_of_function_first d hk, Option.some.injEq, text_eq_iff]
        exact recreatable_iff_of_function_first d hk
  · exact recreatable_iff_of_columns d (not_exists.mp hfun)

end RoundTrip

/-- Names that need no quotes. -/
def plainPreparer : Preparer := ⟨id, id, id⟩

/-- `(LOWER(name), id)` -/
def functionFirst : IndexDef where
  name := "idx".toList
  unique := false
  reverse := false
  filter := none
  keys := [.function "LOWER(name)".toList, .column "id".toList false]
  keys_ne_nil := by decide
  filter_ne_empty := by decide
  function_ne_empty e he := by
    rcases List.mem_cons.mp he with he | he
    · cases he
      decide
    · cases List.mem_singleton.mp he
  one_function := by decide

/-- **A function in front of a column**: the column is lost. -/
theorem function_first_loses_column :
    let _ := asciiData
    recreateIndex plainPreparer "t".toList functionFirst
        = [some "CREATE INDEX idx ON t (LOWER(name))".toList] ∧
      functionFirst.text plainPreparer "t".toList
        = "CREATE INDEX idx ON t (LOWER(name), id)".toList ∧
      recreateIndex plainPreparer "t".toList functionFirst
        ≠ [some (functionFirst.text plainPreparer "t".toList)] := by
  intro _
  have hr : recreateIndex plainPreparer "t".toList functionFirst
      = [some "CREATE INDEX idx ON t (LOWER(name))".toList] := by decide
  have ht : functionFirst.text plainPreparer "t".toList
      = "CREATE INDEX idx ON t (LOWER(name), id)".toList := by decide
  refine ⟨hr, ht, ?_⟩
  rw [hr, ht]
  decide

end SqlalchemyCubrid.Compiler
