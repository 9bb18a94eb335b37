import SqlalchemyCubrid.Lib.Dict
import SqlalchemyCubrid.Python.Exception
import Mathlib.Data.List.Induction
import Mathlib.Data.List.Nodup

/-!
# `MERGE`

A `Merge` is built by calls that each overwrite a part of it, and
`visit_cubrid_merge` prints the parts that are there.

`whenClauses` is what a sequence of calls is meant to give: the clauses whose calls
were made, each with the arguments of the last one.  `build_eq` says that the parts
are those arguments, and `merge_renders_iff` that the statement is printed exactly
when the keys of the last mappings are columns: the name of a column, which the
README uses for a key, is not something the compiler can process.
-/

namespace SqlalchemyCubrid.Compiler

open Lib Python

/-! ### Building -/

/-- A key of a mapping: a column, or its name. -/
inductive ColumnKey (E : Type) where
  | column (c : E)
  | name (s : Str)
  deriving DecidableEq

abbrev Assignments (E : Type) := Mapping (ColumnKey E) E

structure Merge (E : Type) where
  target : E
  source : Option E
  onCondition : Option E
  updateValues : Option (Assignments E)
  updateCondition : Option E
  delete : Bool
  deleteCondition : Option E
  insertValues : Option (Assignments E)
  insertCondition : Option E

section Code

variable {E : Type}

namespace Merge

/-- `Merge.__init__` -/
def init (target : E) : Merge E := ⟨target, none, none, none, none, false, none, none, none⟩

/-- `using` -/
def usingSource (m : Merge E) (source : E) : Merge E := { m with source := some source }

def on (m : Merge E) (condition : E) : Merge E := { m with onCondition := some condition }

def whenMatchedThenUpdate (m : Merge E) (values : Assignments E) (condition : Option E) :
    Merge E :=
  { m with updateValues := some values, updateCondition := condition }

def whenMatchedThenDelete (m : Merge E) (condition : Option E) : Merge E :=
  { m with delete := true, deleteCondition := condition }

def whenNotMatchedThenInsert (m : Merge E) (values : Assignments E) (condition : Option E) :
    Merge E :=
  { m with insertValues := some values, insertCondition := condition }

end Merge

/-- A call of the builder. -/
inductive MergeCall (E : Type) where
  | usingSource (source : E)
  | on (condition : E)
  | whenMatchedThenUpdate (values : Assignments E) (condition : Option E)
  | whenMatchedThenDelete (condition : Option E)
  | whenNotMatchedThenInsert (values : Assignments E) (condition : Option E)

def MergeCall.apply (m : Merge E) : MergeCall E → Merge E
  | .usingSource source => m.usingSource source
  | .on condition => m.on condition
  | .whenMatchedThenUpdate values condition => m.whenMatchedThenUpdate values condition
  | .whenMatchedThenDelete condition => m.whenMatchedThenDelete condition
  | .whenNotMatchedThenInsert values condition => m.whenNotMatchedThenInsert values condition

def build (target : E) (calls : List (MergeCall E)) : Merge E :=
  calls.foldl MergeCall.apply (.init target)

/-! ### Printing -/

/-- What `self.process` is called with. -/
inductive Operand (E : Type) where
  /-- an SQL element -/
  | element (e : E)
  | str (s : Str)
  | none

def ColumnKey.operand : ColumnKey E → Operand E
  | .column c => .element c
  | .name s => .str s

def Operand.ofOption : Option E → Operand E
  | some e => .element e
  | .none => .none

-- `self.process(obj, asfrom=..)`
variable (process : Bool → Operand E → Except PyError Str)

/-- `if condition is not None: text += " AND " + ..` -/
def andCondition : Option E → Except PyError Str
  | none => .ok []
  | some condition => do return " AND ".toList ++ (← process false (.element condition))

/-- `WHEN MATCHED THEN UPDATE` -/
def updateClause (values : Option (Assignments E)) (condition : Option E) :
    Except PyError Str := do
  match values with
  | none => return []
  | some values =>
    if values.items = [] then return []
    let text := " WHEN MATCHED".toList ++ (← andCondition process condition)
    let assignments ← values.items.mapM fun a => do
      return (← process false a.1.operand) ++ " = ".toList ++ (← process false (.element a.2))
    return text ++ " THEN UPDATE SET ".toList ++ join ", ".toList assignments

/-- `WHEN MATCHED THEN DELETE` -/
def deleteClause (delete : Bool) (condition : Option E) : Except PyError Str := do
  if delete then
    return " WHEN MATCHED".toList ++ (← andCondition process condition) ++ " THEN DELETE".toList
  else
    return []

/-- One turn of the loop that fills `cols` and `vals`. -/
def insertStep (lists : List Str × List Str) (a : ColumnKey E × E) :
    Except PyError (List Str × List Str) := do
  let col ← process false a.1.operand
  let val ← process false (.element a.2)
  return (lists.1 ++ [col], lists.2 ++ [val])

/-- `WHEN NOT MATCHED THEN INSERT` -/
def insertClause (values : Option (Assignments E)) (condition : Option E) :
    Except PyError Str := do
  match values with
  | none => return []
  | some values =>
    if values.items = [] then return []
    let (cols, vals) ← values.items.foldlM (insertStep process) ([], [])
    let text := " WHEN NOT MATCHED".toList ++ (← andCondition process condition)
    return text ++ " THEN INSERT (".toList ++ join ", ".toList cols ++ ") VALUES (".toList
      ++ join ", ".toList vals ++ ")".toList

def visitCubridMerge (m : Merge E) : Except PyError Str := do
  let text := "MERGE INTO ".toList ++ (← process true (.element m.target))
  let text := text ++ " USING ".toList ++ (← process true (.ofOption m.source))
  let text := text ++ " ON (".toList ++ (← process false (.ofOption m.onCondition)) ++ ")".toList
  let text := text ++ (← updateClause process m.updateValues m.updateCondition)
  let text := text ++ (← deleteClause process m.delete m.deleteCondition)
  let text := text ++ (← insertClause process m.insertValues m.insertCondition)
  return text

end Code

/-! ### What the calls are meant to give -/

section Calls

variable {E : Type}

namespace MergeCall

def source? : MergeCall E → Option E
  | .usingSource source => some source
  | _ => none

def on? : MergeCall E → Option E
  | .on condition => some condition
  | _ => none

def update? : MergeCall E → Option (Assignments E × Option E)
  | .whenMatchedThenUpdate values condition => some (values, condition)
  | _ => none

def delete? : MergeCall E → Option (Option E)
  | .whenMatchedThenDelete condition => some condition
  | _ => none

def insert? : MergeCall E → Option (Assignments E × Option E)
  | .whenNotMatchedThenInsert values condition => some (values, condition)
  | _ => none

/-- The mapping of a call is not empty. -/
def NonEmpty : MergeCall E → Prop
  | .whenMatchedThenUpdate values _ => values.items ≠ []
  | .whenNotMatchedThenInsert values _ => values.items ≠ []
  | _ => True

end MergeCall

/-- The arguments of the last call of a kind. -/
def lastOf {β : Type} (f : MergeCall E → Option β) (calls : List (MergeCall E)) : Option β :=
  (calls.filterMap f).getLast?

theorem lastOf_append_singleton {β : Type} (f : MergeCall E → Option β)
    (calls : List (MergeCall E)) (c : MergeCall E) :
    lastOf f (calls ++ [c]) = (f c).or (lastOf f calls) := by
  rw [lastOf, lastOf, List.filterMap_append]
  cases hc : f c with
  | none => simp [hc]
  | some b => simp [hc]

theorem mem_of_lastOf {β : Type} {f : MergeCall E → Option β} {calls : List (MergeCall E)} {b : β}
    (h : lastOf f calls = some b) : ∃ c ∈ calls, f c = some b :=
  List.mem_filterMap.mp (List.mem_of_getLast? h)

inductive WhenClause (E : Type) where
  | update (values : List (ColumnKey E × E)) (condition : Option E)
  | delete (condition : Option E)
  | insert (values : List (ColumnKey E × E)) (condition : Option E)

/-- The clauses whose calls were made, with the arguments of the last ones. -/
def whenClauses (calls : List (MergeCall E)) : List (WhenClause E) :=
  ((lastOf MergeCall.update? calls).map fun u => .update u.1.items u.2).toList
    ++ ((lastOf MergeCall.delete? calls).map .delete).toList
    ++ ((lastOf MergeCall.insert? calls).map fun i => .insert i.1.items i.2).toList

/-- The same last calls. -/
structure SameLast (calls calls' : List (MergeCall E)) : Prop where
  source : lastOf MergeCall.source? calls = lastOf MergeCall.source? calls'
  on : lastOf MergeCall.on? calls = lastOf MergeCall.on? calls'
  update : lastOf MergeCall.update? calls = lastOf MergeCall.update? calls'
  delete : lastOf MergeCall.delete? calls = lastOf MergeCall.delete? calls'
  insert : lastOf MergeCall.insert? calls = lastOf MergeCall.insert? calls'

/-- **The parts of the statement are the arguments of the last calls**, by induction on
the calls from the last one. -/
theorem build_eq (target : E) (calls : List (MergeCall E)) :
    build target calls = {
      target := target
      source := lastOf MergeCall.source? calls
      onCondition := lastOf MergeCall.on? calls
      updateValues := (lastOf MergeCall.update? calls).map Prod.fst
      updateCondition := (lastOf MergeCall.update? calls).bind Prod.snd
      delete := (lastOf MergeCall.delete? calls).isSome
      deleteCondition := (lastOf MergeCall.delete? calls).join
      insertValues := (lastOf MergeCall.insert? calls).map Prod.fst
      insertCondition := (lastOf MergeCall.insert? calls).bind Prod.snd } := by
  induction calls using List.reverseRecOn with
  | nil => rfl
  | append_singleton calls c ih =>
    rw [build, List.foldl_concat, ← build, ih]
    simp only [lastOf_append_singleton]
    cases c <;> rfl

/-! ### The text of the statement -/

section Text

-- The text of an SQL element, and what the name of a column should be printed as.
variable (sql : Bool → E → Str) (nameText : Str → Str)

def keyText : ColumnKey E → Str
  | .column c => sql false c
  | .name s => nameText s

def conditionText : Option E → Str
  | none => []
  | some condition => " AND ".toList ++ sql false condition

def WhenClause.text : WhenClause E → Str
  | .update values condition =>
    " WHEN MATCHED".toList ++ conditionText sql condition ++ " THEN UPDATE SET ".toList
      ++ join ", ".toList (values.map fun a =>
        keyText sql nameText a.1 ++ " = ".toList ++ sql false a.2)
  | .delete condition =>
    " WHEN MATCHED".toList ++ conditionText sql condition ++ " THEN DELETE".toList
  | .insert values condition =>
    " WHEN NOT MATCHED".toList ++ conditionText sql condition ++ " THEN INSERT (".toList
      ++ join ", ".toList (values.map fun a => keyText sql nameText a.1) ++ ") VALUES (".toList
      ++ join ", ".toList (values.map fun a => sql false a.2) ++ ")".toList

def mergeText (target source condition : E) (clauses : List (WhenClause E)) : Str :=
  "MERGE INTO ".toList ++ sql true target ++ " USING ".toList ++ sql true source
    ++ " ON (".toList ++ sql false condition ++ ")".toList
    ++ clauses.flatMap (WhenClause.text sql nameText)

end Text

/-! ### What is printed -/

/-- `Compiled.process`: an SQL element is compiled, and a `str` is not an element. -/
structure Processes (process : Bool → Operand E → Except PyError Str) (sql : Bool → E → Str) :
    Prop where
  element : ∀ asfrom e, process asfrom (.element e) = .ok (sql asfrom e)
  str : ∀ asfrom s, ∃ e, process asfrom (.str s) = .error e

def IsColumn : ColumnKey E → Prop
  | .column _ => True
  | .name _ => False

/-- The keys of a clause are columns. -/
def WhenClause.ColumnKeys : WhenClause E → Prop
  | .update values _ => ∀ a ∈ values, IsColumn a.1
  | .delete _ => True
  | .insert values _ => ∀ a ∈ values, IsColumn a.1

section Printed

variable {process : Bool → Operand E → Except PyError Str} {sql : Bool → E → Str}

theorem Processes.key_eq_ok_iff (h : Processes process sql) (nameText : Str → Str)
    (k : ColumnKey E) : process false k.operand = .ok (keyText sql nameText k) ↔ IsColumn k := by
  cases k with
  | column c => exact iff_of_true (h.element false c) trivial
  | name s =>
    obtain ⟨e, he⟩ := h.str false s
    apply iff_of_false _ id
    intro hok
    rw [ColumnKey.operand, he] at hok
    cases hok

theorem Processes.isColumn_of_ok (h : Processes process sql) {k : ColumnKey E} {t : Str}
    (hk : process false k.operand = .ok t) : IsColumn k := by
  cases k with
  | column c => trivial
  | name s =>
    obtain ⟨e, he⟩ := h.str false s
    rw [ColumnKey.operand, he] at hk
    cases hk

theorem Processes.andCondition_eq (h : Processes process sql) (condition : Option E) :
    andCondition process condition = .ok (conditionText sql condition) := by
  cases condition with
  | none => rfl
  | some c =>
    rw [andCondition, h.element]
    rfl

theorem updateClause_of_columns (h : Processes process sql) (nameText : Str → Str)
    {values : Assignments E} (hne : values.items ≠ []) (condition : Option E)
    (hcolumns : ∀ a ∈ values.items, IsColumn a.1) :
    updateClause process (some values) condition
      = .ok ((WhenClause.update values.items condition).text sql nameText) := by
  have hassign : (values.items.mapM fun a => do
      return (← process false a.1.operand) ++ " = ".toList ++ (← process false (.element a.2)))
      = (.ok (values.items.map fun a =>
          keyText sql nameText a.1 ++ " = ".toList ++ sql false a.2) : Except PyError _) := by
    apply mapM_eq_ok_map
    intro a ha
    rw [(h.key_eq_ok_iff nameText a.1).mpr (hcolumns a ha), h.element]
    rfl
  simp only [updateClause, if_neg hne, h.andCondition_eq, hassign]
  rfl

theorem columns_of_updateClause (h : Processes process sql) {values : Assignments E}
    (hne : values.items ≠ []) {condition : Option E} {t : Str}
    (ht : updateClause process (some values) condition = .ok t) :
    ∀ a ∈ values.items, IsColumn a.1 := by
  simp only [updateClause, if_neg hne] at ht
  obtain ⟨_, -, ht⟩ := bind_eq_ok_iff.mp ht
  obtain ⟨assignments, hassign, -⟩ := bind_eq_ok_iff.mp ht
  intro a ha
  obtain ⟨b, hb⟩ := exists_ok_of_mapM hassign ha
  obtain ⟨key, hkey, -⟩ := bind_eq_ok_iff.mp hb
  exact h.isColumn_of_ok hkey

theorem deleteClause_eq (h : Processes process sql) (nameText : Str → Str)
    (condition : Option E) :
    deleteClause process true condition
      = .ok ((WhenClause.delete condition).text sql nameText) := by
  simp only [deleteClause, if_true, h.andCondition_eq]
  rfl

/-- **The two lists of the insert**, by induction on the entries still to come: each
column stands where its expression does. -/
theorem insertLists_of_columns (h : Processes process sql) (nameText : Str → Str)
    {items : List (ColumnKey E × E)} (hcolumns : ∀ a ∈ items, IsColumn a.1)
    (lists : List Str × List Str) :
    items.foldlM (insertStep process) lists
      = .ok (lists.1 ++ items.map (fun a => keyText sql nameText a.1),
          lists.2 ++ items.map fun a => sql false a.2) := by
  induction items generalizing lists with
  | nil =>
    rw [List.map_nil, List.append_nil, List.map_nil, List.append_nil]
    rfl
  | cons a items ih =>
    have hstep : insertStep process lists a
        = .ok (lists.1 ++ [keyText sql nameText a.1], lists.2 ++ [sql false a.2]) := by
      rw [insertStep, (h.key_eq_ok_iff nameText a.1).mpr (hcolumns a List.mem_cons_self),
        h.element]
      rfl
    have hrest := ih fun b hb => hcolumns b (List.mem_cons_of_mem a hb)
    rw [List.foldlM_cons, hstep]
    show items.foldlM (insertStep process) _ = _
    rw [hrest, List.append_assoc, List.append_assoc]
    rfl

theorem columns_of_insertLists (h : Processes process sql) {items : List (ColumnKey E × E)}
    {lists result : List Str × List Str}
    (hok : items.foldlM (insertStep process) lists = .ok result) :
    ∀ a ∈ items, IsColumn a.1 := by
  induction items generalizing lists with
  | nil =>
    intro a ha
    exact absurd ha List.not_mem_nil
  | cons b items ih =>
    rw [List.foldlM_cons] at hok
    obtain ⟨lists', hstep, hrest⟩ := bind_eq_ok_iff.mp hok
    obtain ⟨key, hkey, -⟩ := bind_eq_ok_iff.mp hstep
    intro a ha
    cases List.mem_cons.mp ha with
    | inl e =>
      rw [e]
      exact h.isColumn_of_ok hkey
    | inr ha => exact ih hrest a ha

theorem insertClause_of_columns (h : Processes process sql) (nameText : Str → Str)
    {values : Assignments E} (hne : values.items ≠ []) (condition : Option E)
    (hcolumns : ∀ a ∈ values.items, IsColumn a.1) :
    insertClause process (some values) condition
      = .ok ((WhenClause.insert values.items condition).text sql nameText) := by
  simp only [insertClause, if_neg hne, h.andCondition_eq,
    insertLists_of_columns h nameText hcolumns]
  rfl

theorem columns_of_insertClause (h : Processes process sql) {values : Assignments E}
    (hne : values.items ≠ []) {condition : Option E} {t : Str}
    (ht : insertClause process (some values) condition = .ok t) :
    ∀ a ∈ values.items, IsColumn a.1 := by
  simp only [insertClause, if_neg hne] at ht
  obtain ⟨lists, hlists, -⟩ := bind_eq_ok_iff.mp ht
  exact columns_of_insertLists h hlists

/-! ### The clauses of a sequence of calls -/

/-- The keys of a mapping that a clause is printed of, if it is. -/
def LastColumns (last : Option (Assignments E × Option E)) : Prop :=
  ∀ l ∈ last, ∀ a ∈ l.1.items, IsColumn a.1

/-- A clause with a mapping: it is printed if its keys are columns, and it raises if
not. -/
theorem clause_cases (clause : Option (Assignments E) → Option E → Except PyError Str)
    (make : List (ColumnKey E × E) → Option E → WhenClause E) (nameText : Str → Str)
    (hnone : clause none none = .ok [])
    (hprinted : ∀ (values : Assignments E) condition, values.items ≠ [] →
      (∀ a ∈ values.items, IsColumn a.1) →
        clause (some values) condition = .ok ((make values.items condition).text sql nameText))
    (hcolumns : ∀ (values : Assignments E) condition t, values.items ≠ [] →
      clause (some values) condition = .ok t → ∀ a ∈ values.items, IsColumn a.1)
    {last : Option (Assignments E × Option E)} (hne : ∀ l ∈ last, l.1.items ≠ []) :
    (LastColumns last ∧ clause (last.map Prod.fst) (last.bind Prod.snd)
        = .ok ((last.map fun l => make l.1.items l.2).toList.flatMap
            (WhenClause.text sql nameText))) ∨
      (¬ LastColumns last ∧
        ∃ e, clause (last.map Prod.fst) (last.bind Prod.snd) = .error e) := by
  cases last with
  | none => exact Or.inl ⟨fun l hl => (by cases hl), hnone⟩
  | some l =>
    obtain ⟨values, condition⟩ := l
    have hne' : values.items ≠ [] := hne _ rfl
    by_cases hall : ∀ a ∈ values.items, IsColumn a.1
    · refine Or.inl ⟨fun l hl => by cases hl; exact hall, ?_⟩
      exact (hprinted values condition hne' hall).trans
        (by rw [Option.map_some, Option.toList_some, List.flatMap_singleton])
    · refine Or.inr ⟨fun hlast => hall (hlast _ rfl), ?_⟩
      cases hclause : clause (some values) condition with
      | error e => exact ⟨e, hclause⟩
      | ok t => exact absurd (hcolumns values condition t hne' hclause) hall

theorem deleteClause_of_last (h : Processes process sql) (nameText : Str → Str)
    (last : Option (Option E)) :
    deleteClause process last.isSome last.join
      = .ok ((last.map WhenClause.delete).toList.flatMap (WhenClause.text sql nameText)) := by
  cases last with
  | none => rfl
  | some condition =>
    exact (deleteClause_eq h nameText condition).trans
      (by rw [Option.map_some, Option.toList_some, List.flatMap_singleton])

/-- The statement, by its parts. -/
theorem visitCubridMerge_of_parts {m : Merge E} {t s c u d i : Str}
    (ht : process true (.element m.target) = .ok t)
    (hs : process true (.ofOption m.source) = .ok s)
    (hc : process false (.ofOption m.onCondition) = .ok c)
    (hu : updateClause process m.updateValues m.updateCondition = .ok u)
    (hd : deleteClause process m.delete m.deleteCondition = .ok d)
    (hi : insertClause process m.insertValues m.insertCondition = .ok i) :
    visitCubridMerge process m
      = .ok ("MERGE INTO ".toList ++ t ++ " USING ".toList ++ s ++ " ON (".toList ++ c
          ++ ")".toList ++ (u ++ d ++ i)) := by
  rw [visitCubridMerge, ht, hs, hc, hu, hd, hi]
  simp only [List.append_assoc]
  rfl

/-- A statement that is printed has clauses that are. -/
theorem clauses_of_visitCubridMerge {m : Merge E} {text : Str}
    (h : visitCubridMerge process m = .ok text) :
    (∃ u, updateClause process m.updateValues m.updateCondition = .ok u) ∧
      ∃ i, insertClause process m.insertValues m.insertCondition = .ok i := by
  obtain ⟨_, -, h⟩ := bind_eq_ok_iff.mp h
  obtain ⟨_, -, h⟩ := bind_eq_ok_iff.mp h
  obtain ⟨_, -, h⟩ := bind_eq_ok_iff.mp h
  obtain ⟨u, hu, h⟩ := bind_eq_ok_iff.mp h
  obtain ⟨_, -, h⟩ := bind_eq_ok_iff.mp h
  obtain ⟨i, hi, -⟩ := bind_eq_ok_iff.mp h
  exact ⟨⟨u, hu⟩, i, hi⟩

end Printed

theorem items_ne_nil_of_update {calls : List (MergeCall E)} (h : ∀ c ∈ calls, c.NonEmpty) :
    ∀ l ∈ lastOf MergeCall.update? calls, l.1.items ≠ [] := by
  intro l hl
  obtain ⟨c, hc, hf⟩ := mem_of_lastOf hl
  have hne := h c hc
  cases c with
  | whenMatchedThenUpdate values condition =>
    cases hf
    exact hne
  | usingSource source => cases hf
  | on condition => cases hf
  | whenMatchedThenDelete condition => cases hf
  | whenNotMatchedThenInsert values condition => cases hf

theorem items_ne_nil_of_insert {calls : List (MergeCall E)} (h : ∀ c ∈ calls, c.NonEmpty) :
    ∀ l ∈ lastOf MergeCall.insert? calls, l.1.items ≠ [] := by
  intro l hl
  obtain ⟨c, hc, hf⟩ := mem_of_lastOf hl
  have hne := h c hc
  cases c with
  | whenNotMatchedThenInsert values condition =>
    cases hf
    exact hne
  | usingSource source => cases hf
  | on condition => cases hf
  | whenMatchedThenUpdate values condition => cases hf
  | whenMatchedThenDelete condition => cases hf

theorem flatMap_whenClauses {β : Type} (f : WhenClause E → List β) (calls : List (MergeCall E)) :
    (whenClauses calls).flatMap f
      = ((lastOf MergeCall.update? calls).map fun l => .update l.1.items l.2).toList.flatMap f
        ++ ((lastOf MergeCall.delete? calls).map .delete).toList.flatMap f
        ++ ((lastOf MergeCall.insert? calls).map fun l =>
          .insert l.1.items l.2).toList.flatMap f := by
  rw [whenClauses, List.flatMap_append, List.flatMap_append]

theorem columnKeys_whenClauses_iff (calls : List (MergeCall E)) :
    (∀ w ∈ whenClauses calls, w.ColumnKeys) ↔
      LastColumns (lastOf MergeCall.update? calls) ∧
        LastColumns (lastOf MergeCall.insert? calls) := by
  rw [whenClauses]
  cases lastOf MergeCall.update? calls <;> cases lastOf MergeCall.delete? calls <;>
    cases lastOf MergeCall.insert? calls <;>
    simp [LastColumns, WhenClause.ColumnKeys]

/-- **A `MERGE` is printed as it was built exactly when the keys of its last mappings
are columns**, and what is printed depends on the last calls only. -/
theorem merge_renders_iff (process : Bool → Operand E → Except PyError Str)
    (sql : Bool → E → Str) (h : Processes process sql) (nameText : Str → Str) (target : E)
    (calls : List (MergeCall E)) (hvalues : ∀ c ∈ calls, c.NonEmpty) (source condition : E)
    (hsource : lastOf MergeCall.source? calls = some source)
    (hon : lastOf MergeCall.on? calls = some condition) :
    (visitCubridMerge process (build target calls)
        = .ok (mergeText sql nameText target source condition (whenClauses calls)) ↔
      ∀ w ∈ whenClauses calls, w.ColumnKeys) ∧
      ∀ calls', SameLast calls calls' → visitCubridMerge process (build target calls')
        = visitCubridMerge process (build target calls) := by
  refine ⟨?_, ?_⟩
  · rw [build_eq, hsource, hon, columnKeys_whenClauses_iff]
    have hdelete := deleteClause_of_last h nameText (lastOf MergeCall.delete? calls)
    have hupdates := clause_cases (updateClause process) .update nameText rfl
      (fun values c hne => updateClause_of_columns h nameText hne c)
      (fun values c t hne => columns_of_updateClause h hne) (items_ne_nil_of_update hvalues)
    have hinserts := clause_cases (insertClause process) .insert nameText rfl
      (fun values c hne => insertClause_of_columns h nameText hne c)
      (fun values c t hne => columns_of_insertClause h hne) (items_ne_nil_of_insert hvalues)
    apply Iff.intro
    · intro hok
      obtain ⟨⟨u, hu⟩, i, hi⟩ := clauses_of_visitCubridMerge hok
      refine ⟨?_, ?_⟩
      · rcases hupdates with ⟨hupdate, -⟩ | ⟨-, e, he⟩
        · exact hupdate
        · exact absurd (he.symm.trans hu) (by simp)
      · rcases hinserts with ⟨hinsert, -⟩ | ⟨-, e, he⟩
        · exact hinsert
        · exact absurd (he.symm.trans hi) (by simp)
    · intro hall
      rcases hupdates with ⟨-, hupdate⟩ | ⟨hnot, -⟩
      · rcases hinserts with ⟨-, hinsert⟩ | ⟨hnot, -⟩
        · unfold mergeText
          rw [flatMap_whenClauses]
          exact visitCubridMerge_of_parts (h.element true target) (h.element true source)
            (h.element false condition) hupdate hdelete hinsert
        · exact absurd hall.2 hnot
      · exact absurd hall.1 hnot
  · intro calls' hsame
    rw [build_eq, build_eq, hsame.source, hsame.on, hsame.update, hsame.delete, hsame.insert]

end Calls

/-- Elements that are their text. -/
def processText (_ : Bool) : Operand Str → Except PyError Str
  | .element e => .ok e
  -- an `AttributeError`
  | .str _ => .error .other
  | .none => .error .other

theorem processes_processText : Processes processText fun _ e => e :=
  ⟨fun _ _ => rfl, fun _ _ => ⟨.other, rfl⟩⟩

/-- A mapping with one entry. -/
def oneAssignment {E : Type} (k : ColumnKey E) (e : E) : Assignments E :=
  ⟨[(k, e)], List.nodup_singleton _⟩

/-- An update that is replaced, a delete, and the last update. -/
def sampleCalls : List (MergeCall Str) :=
  [.usingSource "s".toList,
    .whenMatchedThenUpdate (oneAssignment (.column "t.a".toList) "s.a".toList) none,
    .on "t.id = s.id".toList, .whenMatchedThenDelete (some "s.x = 0".toList),
    .whenMatchedThenUpdate (oneAssignment (.column "t.b".toList) "s.b".toList) none]

theorem merge_renders_iff_sample :
    (visitCubridMerge processText (build "t".toList sampleCalls)
        = .ok (mergeText (fun _ e => e) id "t".toList "s".toList "t.id = s.id".toList
            (whenClauses sampleCalls)) ↔
      ∀ w ∈ whenClauses sampleCalls, w.ColumnKeys) ∧
      ∀ calls', SameLast sampleCalls calls' →
        visitCubridMerge processText (build "t".toList calls')
          = visitCubridMerge processText (build "t".toList sampleCalls) := by
  have hvalues : ∀ c ∈ sampleCalls, c.NonEmpty := by
    simp [sampleCalls, oneAssignment, MergeCall.NonEmpty]
  exact merge_renders_iff processText (fun _ e => e) processes_processText id "t".toList
    sampleCalls hvalues "s".toList "t.id = s.id".toList rfl rfl

example : visitCubridMerge processText (build "t".toList sampleCalls)
    = .ok ("MERGE INTO t USING s ON (t.id = s.id) WHEN MATCHED THEN UPDATE SET t.b = s.b"
        ++ " WHEN MATCHED AND s.x = 0 THEN DELETE").toList := by
  decide

/-- **With the name of a column for a key nothing is printed.** -/
theorem merge_rejects_column_names :
    let calls : List (MergeCall Str) :=
      [.usingSource "source".toList, .on "target.id = source.id".toList,
        .whenMatchedThenUpdate (oneAssignment (.name "name".toList) "source.name".toList) none]
    visitCubridMerge processText (build "target".toList calls) = .error .other :=
  rfl

end SqlalchemyCubrid.Compiler
