import SqlalchemyCubrid.Compiler.Names

/-!
# Path expressions

`deref(column, "a")` prints `column.a`, and derefs nest.  The attribute names are
printed as they are.

A path is faithful if it is read as its column and one step for every attribute
(`OidExpr.Faithful`).  `oid_path_iff` finds the paths that are: those whose
attributes are plain words and not reserved.
-/

namespace SqlalchemyCubrid.Compiler

open Lib.Sql Python

/-! ### The printer -/

/-- A column, by the text it compiles to. -/
structure OidColumn where
  text : Str
  tokens : List Token
  lex_text : lex text = some tokens

/-- A column and the derefs over it. -/
inductive OidExpr where
  | column (c : OidColumn)
  | deref (oidColumn : OidExpr) (attrName : Str)

namespace OidExpr

/-- `visit_oid_deref`, down to the column. -/
def render : OidExpr → Str
  | .column c => c.text
  | .deref e a => e.render ++ ".".toList ++ a

/-! ### What a path means -/

def base : OidExpr → OidColumn
  | .column c => c
  | .deref e _ => e.base

/-- The attributes, the innermost first. -/
def attributes : OidExpr → List Str
  | .column _ => []
  | .deref e a => e.attributes ++ [a]

/-- Steps, each behind a dot. -/
def stepTokens (steps : List Token) : List Token := steps.flatMap fun t => [.symbol '.', t]

/-- The path is read as its column and a step for every attribute. -/
def Faithful (e : OidExpr) : Prop :=
  ∃ steps, lex e.render = some (e.base.tokens ++ stepTokens steps) ∧
    steps.map identifier = e.attributes.map some

theorem stepTokens_append (steps steps' : List Token) :
    stepTokens (steps ++ steps') = stepTokens steps ++ stepTokens steps' :=
  List.flatMap_append

/-- The text of a path is that of its column, and its attributes. -/
theorem render_eq (e : OidExpr) :
    e.render = e.base.text ++ e.attributes.flatMap fun a => '.' :: a := by
  induction e with
  | column c => exact (List.append_nil _).symm
  | deref e a ih =>
    show e.render ++ ".".toList ++ a = e.base.text ++ (e.attributes ++ [a]).flatMap _
    rw [ih, List.flatMap_append, List.flatMap_singleton, List.append_assoc, List.append_assoc]
    rfl

/-! ### Plain attributes -/

/-- **A path of plain words is read step by step.** -/
theorem lex_render (e : OidExpr) (h : ∀ a ∈ e.attributes, isPlainName a) :
    lex e.render = some (e.base.tokens ++ stepTokens (e.attributes.map Token.word)) := by
  induction e with
  | column c =>
    show lex c.text = some (c.tokens ++ [])
    rw [List.append_nil]
    exact c.lex_text
  | deref e a ih =>
    have hinner := ih fun b hb => h b (List.mem_append_left _ hb)
    have hlast := lex_plainName (h a (List.mem_append_right _ (List.mem_singleton_self a)))
    have hpath := lex_append_separates hinner separates_dot hlast
    show lex (e.render ++ ".".toList ++ a) = some (e.base.tokens
      ++ stepTokens ((e.attributes ++ [a]).map Token.word))
    rw [List.map_append, stepTokens_append, ← List.append_assoc, List.append_assoc e.render]
    exact hpath

theorem length_stepTokens (steps : List Token) :
    (textOf (stepTokens steps)).length
      = (steps.map fun t => t.text.length).sum + steps.length := by
  induction steps with
  | nil => rfl
  | cons t steps ih =>
    have htext : textOf (stepTokens (t :: steps))
        = '.' :: (t.text ++ textOf (stepTokens steps)) := rfl
    rw [htext, List.length_cons, List.length_append, ih, List.map_cons, List.sum_cons,
      List.length_cons]
    omega

theorem length_steps (attributes : List Str) :
    (attributes.flatMap fun a => '.' :: a).length
      = (attributes.map List.length).sum + attributes.length := by
  induction attributes with
  | nil => rfl
  | cons a attributes ih =>
    rw [List.flatMap_cons, List.length_append, List.length_cons, ih, List.map_cons,
      List.sum_cons, List.length_cons]
    omega

theorem faithful_iff (e : OidExpr) : e.Faithful ↔ ∀ a ∈ e.attributes, isPlainName a := by
  apply Iff.intro
  · rintro ⟨steps, hlex, hsteps⟩
    have htext := text_of_lex hlex
    rw [textOf_append, text_of_lex e.base.lex_text, e.render_eq] at htext
    have hpath := congrArg List.length (List.append_cancel_left htext)
    have hcount := congrArg List.length hsteps
    rw [List.length_map, List.length_map] at hcount
    rw [length_stepTokens, length_steps] at hpath
    -- the steps are as long as the attributes, so none is quoted
    exact (length_identifiers hsteps).2 (by omega)
  · intro h
    exact ⟨e.attributes.map Token.word, e.lex_render h, map_identifier_word h⟩

theorem stepTokens_injective : Function.Injective stepTokens := by
  intro steps
  induction steps with
  | nil =>
    intro steps' h
    cases steps' with
    | nil => rfl
    | cons u steps' => cases h
  | cons t steps ih =>
    intro steps' h
    cases steps' with
    | nil => cases h
    | cons u steps' =>
      obtain ⟨hstep, hsteps⟩ := List.cons.inj (List.cons.inj h).2
      rw [hstep, ih hsteps]

/-- Faithful chains over a column are told apart by what they are read as. -/
theorem attributes_of_render_eq {e e' : OidExpr} (h : e.Faithful) (h' : e'.Faithful)
    (hbase : e'.base = e.base) (hrender : e'.render = e.render) :
    e'.attributes = e.attributes := by
  obtain ⟨steps, hlex, hsteps⟩ := h
  obtain ⟨steps', hlex', hsteps'⟩ := h'
  rw [hrender, hlex, hbase, Option.some.injEq] at hlex'
  have hequal : steps = steps' := stepTokens_injective (List.append_cancel_left hlex')
  apply List.map_injective_iff.mpr fun _ _ => Option.some.inj
  rw [← hsteps, ← hsteps', hequal]

end OidExpr

/-- **A path is faithful exactly when its attributes are plain words and not
reserved**, and then no other faithful path over its column is printed alike. -/
theorem oid_path_iff (e : OidExpr) :
    (e.Faithful ↔ ∀ a ∈ e.attributes, isPlainName a) ∧
      (e.Faithful → ∀ e' : OidExpr, e'.Faithful → e'.base = e.base → e'.render = e.render →
        e'.attributes = e.attributes) := by
  refine ⟨e.faithful_iff, ?_⟩
  intro h e' h' hbase hrender
  exact OidExpr.attributes_of_render_eq h h' hbase hrender

/-- `literal_column("manager")` -/
def managerColumn : OidColumn := ⟨"manager".toList, [.word "manager".toList], rfl⟩

/-- **A dot in a name is a step of its own**: an attribute `a.b`, and an attribute
`b` of an attribute `a`. -/
theorem dotted_attribute_read_as_two :
    let one := OidExpr.deref (.column managerColumn) "a.b".toList
    let two := OidExpr.deref (.deref (.column managerColumn) "a".toList) "b".toList
    one.render = two.render ∧ one.attributes ≠ two.attributes ∧ ¬ one.Faithful := by
  intro one two
  refine ⟨rfl, by decide, ?_⟩
  rintro ⟨steps, hlex, hsteps⟩
  have htokens : lex one.render = some ([.word "manager".toList]
      ++ [.symbol '.', .word "a".toList, .symbol '.', .word "b".toList]) := by decide
  rw [htokens, Option.some.injEq] at hlex
  have hone : steps.length = 1 := by
    have hcount := congrArg List.length hsteps
    rw [List.length_map, List.length_map] at hcount
    exact hcount
  obtain ⟨t, rfl⟩ := List.length_eq_one_iff.mp hone
  have hlength : 4 = 2 := congrArg List.length (List.append_cancel_left hlex)
  omega

end SqlalchemyCubrid.Compiler
