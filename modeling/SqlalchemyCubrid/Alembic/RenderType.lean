import SqlalchemyCubrid.Dialect.SettledType
import SqlalchemyCubrid.Lib.Machine
import SqlalchemyCubrid.Python.Repr
import Mathlib.Data.List.Nodup

/-!
# Rendering column types into a migration

`CubridImpl.render_type` prints a collection type as the Python expression that
makes it and notes the import the expression needs.  A migration is rendered type
by type over one set of imports; `evalType` is what Python makes of an expression
under the imports of the finished migration.

`rendered_migration_evaluates` says that every collection type comes back,
whatever characters its element type has, and that no import is missing, noted
twice or noted in vain.  `migration_converges` runs a migration that was rendered
from a reflected schema: nothing is left to change.
-/

namespace SqlalchemyCubrid.Alembic

open Lib Python SqlalchemyCubrid.Types Dialect

/-- `type(type_obj).__name__` -/
def className : CollectionKind → Str
  | .set => "CubridSet".toList
  | .multiset => "CubridMultiset".toList
  | .list => "CubridList".toList

def typesModule : Str := "sqlalchemy_cubrid.types".toList

def importLine (kind : CollectionKind) : Str :=
  "from ".toList ++ (typesModule ++ (" import ".toList ++ className kind))

/-- The expression of a collection type. -/
def collectionExpr (printable : Char → Bool) (kind : CollectionKind) (elementType : Str) : Str :=
  className kind ++ '(' :: (reprStr printable elementType ++ [')'])

/-- `CubridImpl.render_type`, over the imports of the `autogen_context`; `none` is
`False`, which leaves the type to Alembic. -/
def renderMachine (printable : Char → Bool) : Machine (List Str) SqlType (Option Str) where
  step imports
    | .collection kind e =>
      (some (collectionExpr printable kind e), imports.insert (importLine kind))
    | _ => (none, imports)

/-! ### What Python makes of it -/

/-- The module and the name of an import line. -/
def imported (line : Str) : Option (Str × Str) :=
  match words line with
  | [first, m, second, name] =>
    if first = "from".toList ∧ second = "import".toList then some (m, name) else none
  | _ => none

/-- The collection class a name is bound to by the imports. -/
def boundClass (imports : List Str) (name : Str) : Option CollectionKind :=
  [CollectionKind.set, .multiset, .list].find? fun kind =>
    className kind = name ∧ imports.any fun line => imported line = some (typesModule, name)

/-- A call of a collection class with one string literal. -/
def evalType (imports : List Str) (text : Str) : Option SqlType :=
  match text.dropWhile (· ≠ '(') with
  | [] => none
  | _ :: args =>
    (boundClass imports (text.takeWhile (· ≠ '('))).bind fun kind =>
      (readLiteral args).bind fun (e, rest) =>
        if rest = [')'] then some (.collection kind e) else none

/-! ### The round trip -/

theorem imported_importLine (kind : CollectionKind) :
    imported (importLine kind) = some (typesModule, className kind) := by
  cases kind <;> decide

theorem boundClass_of_import {imports : List Str} {kind : CollectionKind}
    (h : importLine kind ∈ imports) : boundClass imports (className kind) = some kind := by
  have hany : (imports.any fun line => imported line = some (typesModule, className kind)) = true :=
    List.any_eq_true.mpr ⟨_, h, decide_eq_true (imported_importLine kind)⟩
  have hfind : boundClass imports (className kind)
      = [CollectionKind.set, .multiset, .list].find? fun k => className k = className kind := by
    rw [boundClass]
    simp only [hany, and_true]
  rw [hfind]
  cases kind <;> decide

theorem not_paren_mem_className (kind : CollectionKind) : ∀ c ∈ className kind, c ≠ '(' := by
  cases kind <;> decide

/-- **The expression makes the type**, wherever the class is imported. -/
theorem evalType_collectionExpr (printable : Char → Bool) {imports : List Str}
    {kind : CollectionKind} (h : importLine kind ∈ imports) (e : Str) :
    evalType imports (collectionExpr printable kind e) = some (.collection kind e) := by
  have hname : ∀ c ∈ className kind, decide (c ≠ '(') = true := fun c hc =>
    decide_eq_true (not_paren_mem_className kind c hc)
  have hdrop : (collectionExpr printable kind e).dropWhile (· ≠ '(')
      = '(' :: (reprStr printable e ++ [')']) := by
    rw [collectionExpr, List.dropWhile_append_of_pos hname]
    rfl
  have htake : (collectionExpr printable kind e).takeWhile (· ≠ '(') = className kind := by
    rw [collectionExpr, List.takeWhile_append_of_pos hname]
    exact List.append_nil _
  have hread : readLiteral (reprStr printable e ++ [')']) = some (e, [')']) := by
    apply readLiteral_reprStr
    intro q hq
    cases hq
    rintro (h | h) <;> exact absurd h (by decide)
  rw [evalType, hdrop, htake]
  simp only [boundClass_of_import h, hread, Option.bind_some, if_true]

/-! ### A whole migration -/

/-- The answer for a type, under the imports of the finished migration. -/
def Rendered (imports : List Str) : SqlType → Option Str → Prop
  | .collection kind e, answer =>
    ∃ text, answer = some text ∧ evalType imports text = some (.collection kind e)
  | _, answer => answer = none

/-- The imports a type needs. -/
def neededImports : SqlType → List Str
  | .collection kind _ => [importLine kind]
  | _ => []

section Migration

variable {printable : Char → Bool}

theorem mem_next_iff {imports : List Str} {t : SqlType} {line : Str} :
    line ∈ (renderMachine printable).next imports t ↔ line ∈ imports ∨ line ∈ neededImports t := by
  cases t with
  | collection kind e =>
    show line ∈ imports.insert (importLine kind) ↔ _
    rw [List.mem_insert_iff, neededImports, List.mem_singleton, or_comm]
  | _ =>
    show line ∈ imports ↔ _
    simp [neededImports]

theorem nodup_next {imports : List Str} (t : SqlType) (h : imports.Nodup) :
    ((renderMachine printable).next imports t).Nodup := by
  cases t with
  | collection kind e => exact h.insert
  | _ => exact h

/-- The imports of a run: those it starts with and those its types need. -/
theorem mem_run_iff {imports : List Str} {ts : List SqlType} {line : Str} :
    line ∈ (renderMachine printable).run imports ts ↔
      line ∈ imports ∨ ∃ t ∈ ts, line ∈ neededImports t := by
  induction ts generalizing imports with
  | nil => simp
  | cons t ts ih =>
    rw [Machine.run_cons, ih, mem_next_iff, List.exists_mem_cons_iff, or_assoc]

theorem rendered_answer {imports final : List Str} (t : SqlType)
    (h : ∀ line ∈ neededImports t, line ∈ final) :
    Rendered final t ((renderMachine printable).answer imports t) := by
  cases t with
  | collection kind e =>
    exact ⟨_, rfl, evalType_collectionExpr printable (h _ (List.mem_singleton_self _)) e⟩
  | _ => rfl

theorem rendered_answers {final : List Str} (imports : List Str) {ts : List SqlType}
    (h : ∀ t ∈ ts, ∀ line ∈ neededImports t, line ∈ final) :
    List.Forall₂ (Rendered final) ts ((renderMachine printable).answers imports ts) := by
  induction ts generalizing imports with
  | nil => exact .nil
  | cons t ts ih =>
    obtain ⟨ht, hts⟩ := List.forall_mem_cons.mp h
    exact .cons (rendered_answer t ht) (ih _ hts)

end Migration

/-- **A rendered migration makes the types it was rendered from.**  Under the
imports noted by the end, each expression of a collection type evaluates to that
type; each import is there once, and because a type needs it. -/
theorem rendered_migration_evaluates (printable : Char → Bool) (ts : List SqlType) :
    List.Forall₂ (Rendered ((renderMachine printable).run [] ts)) ts
        ((renderMachine printable).answers [] ts) ∧
      ((renderMachine printable).run [] ts).Nodup ∧
      ∀ line, line ∈ (renderMachine printable).run [] ts ↔
        ∃ kind e, .collection kind e ∈ ts ∧ line = importLine kind := by
  refine ⟨rendered_answers [] fun t ht line hline => ?_, ?_, fun line => ?_⟩
  · exact mem_run_iff.mpr (Or.inr ⟨t, ht, hline⟩)
  · have htrue := Machine.along_of_forall (renderMachine printable) (P := fun _ _ => True)
      (fun _ _ => trivial) [] ts
    exact Machine.run_invariant _ (I := List.Nodup) (fun _ t h _ => nodup_next t h)
      List.nodup_nil htrue
  · rw [mem_run_iff]
    constructor
    · rintro (h | ⟨t, ht, hline⟩)
      · exact absurd h List.not_mem_nil
      · cases t with
        | collection kind e => exact ⟨kind, e, ht, List.mem_singleton.mp hline⟩
        | _ => exact absurd hline List.not_mem_nil
    · rintro ⟨kind, e, ht, rfl⟩
      exact Or.inr ⟨_, ht, List.mem_singleton_self _⟩

section Converge

variable [UnicodeData]

/-- The rendered column, made by the migration and reflected, is the column it
was rendered from, and no different from the model. -/
def Converged (compareSuper : SqlType → SqlType → Bool) (imports : List Str) :
    SqlType → Option Str → Prop
  | .collection kind e, answer =>
    ∃ text kind' e', answer = some text ∧ evalType imports text = some (.collection kind' e') ∧
      resolveType (getColSpec kind' e') = .collection kind e ∧
      compareType compareSuper (resolveType (getColSpec kind' e')) (.collection kind' e') = false
  | _, answer => answer = none

theorem converged_of_rendered (compareSuper : SqlType → SqlType → Bool) {imports : List Str}
    {typeStr : Str} {answer : Option Str} (h : Rendered imports (resolveType typeStr) answer) :
    Converged compareSuper imports (resolveType typeStr) answer := by
  cases ht : resolveType typeStr with
  | collection kind e =>
    rw [ht] at h
    obtain ⟨text, hanswer, heval⟩ := h
    obtain ⟨he, hn⟩ := oneLine_resolveType ht
    have hread := resolveType_getColSpec kind he hn
    refine ⟨text, kind, e, hanswer, heval, hread, ?_⟩
    rw [hread, compareType_collection_eq_false_iff]
    exact ⟨rfl, rfl⟩
  | _ =>
    rw [ht] at h
    exact h

/-- **Autogenerate is quiet about its own migrations**: whatever type texts the
server shows, the collection columns of the rendered migration are reflected as
the types they were rendered from, and compared with the types of the migration
there is no change. -/
theorem migration_converges (printable : Char → Bool) (compareSuper : SqlType → SqlType → Bool)
    (typeStrs : List Str) :
    List.Forall₂ (Converged compareSuper
        ((renderMachine printable).run [] (typeStrs.map resolveType)))
      (typeStrs.map resolveType)
      ((renderMachine printable).answers [] (typeStrs.map resolveType)) := by
  let imports := (renderMachine printable).run [] (typeStrs.map resolveType)
  have hrendered : List.Forall₂ (Rendered imports) (typeStrs.map resolveType)
      ((renderMachine printable).answers [] (typeStrs.map resolveType)) :=
    rendered_answers [] fun t ht line hline => mem_run_iff.mpr (Or.inr ⟨t, ht, hline⟩)
  rw [List.forall₂_map_left_iff] at hrendered ⊢
  exact hrendered.imp fun typeStr answer h => converged_of_rendered compareSuper h

end Converge

example :
    (renderMachine fun _ => true).answers [] [.collection .set "ENUM('a','\"b')".toList]
      = [some "CubridSet('ENUM(\\'a\\',\\'\"b\\')')".toList] := by decide

end SqlalchemyCubrid.Alembic
