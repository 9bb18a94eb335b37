import SqlalchemyCubrid.Compiler.CustomDdl

/-!
# Generated numbers

`get_column_specification` writes ` AUTO_INCREMENT` between the type of a column
and its default.  A server takes one such column in a table, and the numbers it
generates start where the column's `Identity` says.

`marks_getColumnSpecification` reads the mark off the text.  From it,
`auto_increment_unique_iff` counts the marks of each of the three statements that
create a table, and `identity_kept_iff` compares the mark with the `Identity`.
-/

namespace SqlalchemyCubrid.Compiler

open Python

/-! ### The mark of a column -/

section Mark

variable (P : DdlPreparer)

/-- What stands before the mark. -/
def specificationHead (c : Column) : Str := P.formatColumn c.name ++ " ".toList ++ c.typ

/-- What stands behind it. -/
def specificationTail (c : Column) : Str :=
  ((columnDefaultString c).elim [] fun d => " DEFAULT ".toList ++ d)
    ++ (if !c.nullable then " NOT NULL".toList else [])
    ++ (c.comment.elim [] fun t => " COMMENT ".toList ++ P.renderLiteral t)

/-- What the compiler writes in between. -/
def generation (c : Column) (designated : Option Bool) : Str :=
  if isAutoIncrement c designated then " AUTO_INCREMENT".toList else []

theorem getColumnSpecification_generation (c : Column) (designated : Option Bool) :
    getColumnSpecification P c designated
      = specificationHead P c ++ generation c designated ++ specificationTail P c := by
  unfold getColumnSpecification specificationHead generation specificationTail
  cases columnDefaultString c with
  | none => cases c.comment <;> simp only [List.append_assoc, Option.elim]
  | some d => cases c.comment <;> simp only [List.append_assoc, Option.elim]

/-- A column, with a specification that marks it. -/
def marks (c : Column) (specification : Str) : Bool :=
  specification = specificationHead P c ++ " AUTO_INCREMENT".toList ++ specificationTail P c

/-- What is written between the two ends can be told from the text. -/
theorem between_ends {c : Column} {s t : Str}
    (h : specificationHead P c ++ s ++ specificationTail P c
      = specificationHead P c ++ t ++ specificationTail P c) : s = t :=
  List.append_cancel_left (List.append_cancel_right h)

/-- **The text marks the columns that `isAutoIncrement` accepts.** -/
theorem marks_getColumnSpecification (c : Column) (designated : Option Bool) :
    marks P c (getColumnSpecification P c designated) = isAutoIncrement c designated := by
  rw [marks, getColumnSpecification_generation, generation]
  cases isAutoIncrement c designated with
  | true => exact decide_eq_true rfl
  | false =>
    apply decide_eq_false
    intro h
    have hmark : ([] : Str) = " AUTO_INCREMENT".toList := between_ends P h
    exact absurd hmark (by decide)

end Mark

/-- A column that is numbered by the server if nothing else in its table is. -/
structure Column.Numbered (c : Column) : Prop where
  primary_key : c.primaryKey = true
  integer : c.integerAffinity = true
  wanted : c.autoincrement ≠ .no
  no_sequence : c.hasSequence = false
  no_default : c.serverDefault = .absent ∨ c.serverDefault = .identity

theorem isAutoIncrement_iff (c : Column) (designated : Option Bool) :
    isAutoIncrement c designated = true ↔ c.Numbered ∧ designated ≠ some false := by
  have hdesignated : (designated == none || designated == some true) = true
      ↔ designated ≠ some false := by
    rcases designated with _ | _ | _ <;> decide
  rw [isAutoIncrement, Bool.and_eq_true, hdesignated]
  apply and_congr_left'
  simp only [Bool.and_eq_true, Bool.or_eq_true, Bool.not_eq_true', bne_iff_ne, beq_iff_eq]
  refine Iff.intro ?_ ?_
  · rintro ⟨⟨⟨⟨hsequence, hkey⟩, hwanted⟩, hinteger⟩, hdefault⟩
    exact ⟨hkey, hinteger, hwanted, hsequence, hdefault⟩
  · intro h
    exact ⟨⟨⟨⟨h.no_sequence, h.primary_key⟩, h.wanted⟩, h.integer⟩, h.no_default⟩

theorem isAutoIncrement_none (c : Column) : isAutoIncrement c none = true ↔ c.Numbered := by
  rw [isAutoIncrement_iff, and_iff_left (Option.some_ne_none false).symm]

/-! ### The statements -/

/-- The statements that create a table. -/
inductive CreateStatement where
  | table (table : Table)
  | under (name parentName : Str) (columns : List Column)
  | dontReuseOid (name : Str) (columns : List Column)

namespace CreateStatement

/-- The columns that no `Table` holds. -/
def freeColumns : CreateStatement → List Column
  | .table _ => []
  | .under _ _ columns => columns
  | .dontReuseOid _ columns => columns

section Text

variable (P : DdlPreparer) (autoincrementColumn : List Column → Option Nat)

def text (version : Option (List Nat)) : CreateStatement → Str
  | .table t => visitCreateTable P autoincrementColumn version t
  | .under name parentName columns => visitCreateTableUnder P name parentName columns
  | .dontReuseOid name columns => visitCreateTableDontReuseOid P version name columns

/-- The columns, each with its specification. -/
def specified : CreateStatement → List (Column × Str)
  | .table t => t.columns.zipIdx.map fun c =>
      (c.1, getColumnSpecification P c.1 (some (autoincrementColumn t.columns = some c.2)))
  | .under _ _ columns => columns.map fun c => (c, getColumnSpecification P c none)
  | .dontReuseOid _ columns => columns.map fun c => (c, getColumnSpecification P c none)

def separator : CreateStatement → Str
  | .table _ => ", \n\t".toList
  | .under _ _ _ => ", ".toList
  | .dontReuseOid _ _ => ", ".toList

/-- The columns that the statement marks. -/
def marked (s : CreateStatement) : List Column :=
  ((s.specified P autoincrementColumn).filter fun c => marks P c.1 c.2).map Prod.fst

end Text

end CreateStatement

/-- Lines that each start with a tab, in front of others. -/
theorem join_lines (s : Str) (lines more : List Str) :
    ∃ rest, join ", \n".toList (((s :: lines) ++ more).map ('\t' :: ·))
      = '\t' :: (join ", \n\t".toList (s :: lines) ++ rest) := by
  induction lines generalizing s with
  | nil =>
    rw [join_singleton]
    cases more with
    | nil => exact ⟨[], by rw [List.append_nil, List.append_nil]; exact join_singleton _ _⟩
    | cons t more =>
      refine ⟨", \n".toList ++ join ", \n".toList ((t :: more).map ('\t' :: ·)), ?_⟩
      show join _ (('\t' :: s) :: ('\t' :: t) :: more.map ('\t' :: ·)) = _
      rw [join_cons_cons, List.append_assoc]
      rfl
  | cons t lines ih =>
    obtain ⟨rest, hrest⟩ := ih t
    refine ⟨rest, ?_⟩
    show join _ (('\t' :: s) :: ('\t' :: t) :: (lines ++ more).map ('\t' :: ·)) = _
    have htail : join ", \n".toList (('\t' :: t) :: (lines ++ more).map ('\t' :: ·))
        = '\t' :: (join ", \n\t".toList (t :: lines) ++ rest) := hrest
    rw [join_cons_cons, htail, join_cons_cons]
    simp only [List.append_assoc]
    rfl

namespace CreateStatement

variable (P : DdlPreparer) (autoincrementColumn : List Column → Option Nat)

/-- **The specifications stand in the statement**, one behind the other. -/
theorem specified_infix (version : Option (List Nat)) (s : CreateStatement) :
    join s.separator ((s.specified P autoincrementColumn).map Prod.snd)
      <:+: s.text P autoincrementColumn version := by
  have hfree : ∀ columns : List Column,
      (columns.map fun c => (c, getColumnSpecification P c none)).map Prod.snd
        = columns.map fun c => getColumnSpecification P c none := by
    intro columns
    rw [List.map_map]
    rfl
  cases s with
  | table t =>
    have hspecs : (t.columns.zipIdx.map fun c => (c.1, getColumnSpecification P c.1
          (some (autoincrementColumn t.columns = some c.2)))).map Prod.snd
        = tableColumnSpecifications P autoincrementColumn t.columns := by
      rw [List.map_map]
      rfl
    show join ", \n\t".toList (List.map Prod.snd (List.map _ _))
      <:+: visitCreateTable P autoincrementColumn version t
    rw [hspecs]
    unfold visitCreateTable
    cases tableColumnSpecifications P autoincrementColumn t.columns with
    | nil => exact List.nil_infix
    | cons s specs =>
      obtain ⟨rest, hrest⟩ := join_lines s specs (createTableConstraints P
        ((primaryKeyColumns autoincrementColumn t.columns).map Column.name))
      have hne : s :: specs ++ createTableConstraints P
          ((primaryKeyColumns autoincrementColumn t.columns).map Column.name) ≠ [] :=
        List.cons_ne_nil _ _
      dsimp only
      rw [if_pos hne, hrest]
      refine ⟨"\nCREATE TABLE ".toList ++ P.formatTable t.name ++ " (\n\t".toList,
        rest ++ "\n)".toList ++ postCreateTable version t ++ "\n\n".toList, ?_⟩
      simp only [List.append_assoc, List.cons_append]
      rfl
  | under name parentName columns =>
    show join ", ".toList (List.map Prod.snd (List.map _ _))
      <:+: visitCreateTableUnder P name parentName columns
    rw [hfree]
    unfold visitCreateTableUnder
    cases columns with
    | nil => exact List.nil_infix
    | cons c columns =>
      refine ⟨"CREATE TABLE ".toList ++ P.quoteIdentifier name ++ " UNDER ".toList
        ++ P.quoteIdentifier parentName ++ " (".toList, ")".toList, ?_⟩
      simp only [List.append_assoc, List.isEmpty_cons, Bool.false_eq_true, if_false]
  | dontReuseOid name columns =>
    show join ", ".toList (List.map Prod.snd (List.map _ _))
      <:+: visitCreateTableDontReuseOid P version name columns
    rw [hfree]
    unfold visitCreateTableDontReuseOid
    refine ⟨"CREATE TABLE ".toList ++ P.quoteIdentifier name ++ " (".toList,
      ")".toList ++ (if supportsDontReuseOid version then " DONT_REUSE_OID".toList else []), ?_⟩
    simp only [List.append_assoc]

end CreateStatement

/-! ### One mark in a table -/

theorem length_filter_le_one_iff {α : Type*} (p : α → Bool) (l : List α) :
    (l.filter p).length ≤ 1 ↔ l.Pairwise fun a b => ¬ (p a = true ∧ p b = true) := by
  induction l with
  | nil => exact iff_of_true (Nat.zero_le 1) List.Pairwise.nil
  | cons a l ih =>
    rw [List.pairwise_cons, ← ih]
    cases ha : p a with
    | false =>
      rw [List.filter_cons_of_neg (by rw [ha]; exact Bool.false_ne_true)]
      apply Iff.intro
      · intro h
        exact ⟨fun b _ hb => Bool.false_ne_true hb.1, h⟩
      · intro h
        exact h.2
    | true =>
      rw [List.filter_cons_of_pos ha, List.length_cons]
      apply Iff.intro
      · intro h
        have hnil : l.filter p = [] := List.eq_nil_of_length_eq_zero (by omega)
        refine ⟨?_, by omega⟩
        intro b hb hab
        exact List.filter_eq_nil_iff.mp hnil b hb hab.2
      · intro h
        have hnil : l.filter p = [] := by
          apply List.filter_eq_nil_iff.mpr
          intro b hb hpb
          exact h.1 b hb ⟨rfl, hpb⟩
        rw [hnil]
        exact Nat.le_refl 1

namespace CreateStatement

variable (P : DdlPreparer) (autoincrementColumn : List Column → Option Nat)

theorem marked_free (columns : List Column) :
    ((columns.map fun c => (c, getColumnSpecification P c none)).filter
        fun c => marks P c.1 c.2).map Prod.fst
      = columns.filter fun c => isAutoIncrement c none := by
  rw [List.filter_map, List.map_map]
  simp only [Function.comp_def, marks_getColumnSpecification, List.map_id']

/-- The columns of a `Table` with their numbers; only one number is designated. -/
theorem marked_table (t : Table) :
    (CreateStatement.table t).marked P autoincrementColumn
      = (t.columns.zipIdx.filter fun c => isAutoIncrement c.1
          (some (autoincrementColumn t.columns = some c.2))).map Prod.fst := by
  show ((t.columns.zipIdx.map _).filter _).map Prod.fst = _
  rw [List.filter_map, List.map_map]
  simp only [Function.comp_def, marks_getColumnSpecification]

theorem length_marked_table (t : Table) :
    ((CreateStatement.table t).marked P autoincrementColumn).length ≤ 1 := by
  rw [marked_table, List.length_map, length_filter_le_one_iff]
  have hindices : (t.columns.zipIdx.map Prod.snd).Nodup := by
    rw [List.zipIdx_map_snd]
    exact List.nodup_range'
  apply (List.pairwise_map.mp hindices).imp
  rintro c d hcd ⟨hc, hd⟩
  have hindex : ∀ {b : Column × Nat}, isAutoIncrement b.1
      (some (autoincrementColumn t.columns = some b.2)) = true →
        autoincrementColumn t.columns = some b.2 := by
    intro b hb
    by_contra h
    exact ((isAutoIncrement_iff _ _).mp hb).2 (by rw [decide_eq_false h])
  have heq : some c.2 = some d.2 := (hindex hc).symm.trans (hindex hd)
  exact hcd (Option.some.inj heq)

theorem length_marked_iff (s : CreateStatement) :
    (s.marked P autoincrementColumn).length ≤ 1 ↔
      s.freeColumns.Pairwise fun c d => ¬ (c.Numbered ∧ d.Numbered) := by
  have hfree : ∀ columns : List Column,
      (columns.filter fun c => isAutoIncrement c none).length ≤ 1 ↔
        columns.Pairwise fun c d => ¬ (c.Numbered ∧ d.Numbered) := by
    intro columns
    rw [length_filter_le_one_iff]
    simp only [isAutoIncrement_none]
  cases s with
  | table t => exact iff_of_true (length_marked_table P autoincrementColumn t) List.Pairwise.nil
  | under name parentName columns =>
    show (List.map Prod.fst (List.filter _ (List.map _ columns))).length ≤ 1 ↔ _
    rw [marked_free]
    exact hfree columns
  | dontReuseOid name columns =>
    show (List.map Prod.fst (List.filter _ (List.map _ columns))).length ≤ 1 ↔ _
    rw [marked_free]
    exact hfree columns

/-- No statement marks a column that a `Sequence` numbers. -/
theorem not_hasSequence_of_marked {s : CreateStatement} {c : Column}
    (h : c ∈ s.marked P autoincrementColumn) : c.hasSequence = false := by
  have hnumbered : ∀ {designated : Option Bool}, isAutoIncrement c designated = true →
      c.hasSequence = false := by
    intro designated hc
    exact ((isAutoIncrement_iff _ _).mp hc).1.no_sequence
  cases s with
  | table t =>
    rw [marked_table] at h
    obtain ⟨⟨d, i⟩, hd, rfl⟩ := List.mem_map.mp h
    exact hnumbered (List.mem_filter.mp hd).2
  | under name parentName columns =>
    have hmem : c ∈ columns.filter fun c => isAutoIncrement c none := by
      rw [← marked_free P]
      exact h
    exact hnumbered (List.mem_filter.mp hmem).2
  | dontReuseOid name columns =>
    have hmem : c ∈ columns.filter fun c => isAutoIncrement c none := by
      rw [← marked_free P]
      exact h
    exact hnumbered (List.mem_filter.mp hmem).2

end CreateStatement

/-- **A statement marks at most one column exactly when at most one of its free
columns can be numbered**, and never one with a `Sequence`. -/
theorem auto_increment_unique_iff (P : DdlPreparer)
    (autoincrementColumn : List Column → Option Nat) (version : Option (List Nat))
    (s : CreateStatement) :
    join s.separator ((s.specified P autoincrementColumn).map Prod.snd)
        <:+: s.text P autoincrementColumn version ∧
      ((s.marked P autoincrementColumn).length ≤ 1 ∧
          (∀ c ∈ s.marked P autoincrementColumn, c.hasSequence = false) ↔
        s.freeColumns.Pairwise fun c d => ¬ (c.Numbered ∧ d.Numbered)) := by
  have hsequence : ∀ c ∈ s.marked P autoincrementColumn, c.hasSequence = false :=
    fun c hc => CreateStatement.not_hasSequence_of_marked P autoincrementColumn hc
  refine ⟨CreateStatement.specified_infix P autoincrementColumn version s, ?_⟩
  rw [and_iff_left hsequence]
  exact CreateStatement.length_marked_iff P autoincrementColumn s

/-- **Both halves of a key are marked**: `CreateTableDontReuseOID("t", Column("a",
Integer, primary_key=True), Column("b", Integer, primary_key=True))`. -/
theorem two_keys_marked :
    let s := CreateStatement.dontReuseOid "t".toList
      [{ idColumn with name := "a".toList }, { idColumn with name := "b".toList }]
    s.text plainDdlPreparer (fun _ => none) (some [10, 2])
        = ("CREATE TABLE t (a INTEGER AUTO_INCREMENT NOT NULL, "
          ++ "b INTEGER AUTO_INCREMENT NOT NULL)").toList ∧
      (s.marked plainDdlPreparer (fun _ => none)).length = 2 := by
  decide +kernel

/-! ### Identities -/

/-- `Identity(start=.., increment=..)` -/
structure Identity where
  start : Option Int
  increment : Option Int

namespace Identity

/-- The numbers are those of an `AUTO_INCREMENT` without a seed. -/
def Plain (d : Identity) : Prop :=
  (d.start = none ∨ d.start = some 1) ∧ (d.increment = none ∨ d.increment = some 1)

instance (d : Identity) : Decidable d.Plain := by
  unfold Plain
  infer_instance

/-- ` AUTO_INCREMENT(seed, increment)`, with some blanks behind the comma. -/
def seeded (d : Identity) (blanks : Nat) : Str :=
  " AUTO_INCREMENT(".toList ++ formatInt (d.start.getD 1) ++ ",".toList
    ++ List.replicate blanks ' ' ++ formatInt (d.increment.getD 1) ++ ")".toList

/-- A clause that generates the numbers of the identity. -/
def Generates (d : Identity) (clause : Str) : Prop :=
  (∃ blanks, clause = d.seeded blanks) ∨ clause = " AUTO_INCREMENT".toList ∧ d.Plain

/-- The seeded clause is longer than the plain one. -/
theorem seeded_eq (d : Identity) (blanks : Nat) :
    ∃ rest, d.seeded blanks = " AUTO_INCREMENT".toList ++ '(' :: rest := by
  have hopen : " AUTO_INCREMENT(".toList = " AUTO_INCREMENT".toList ++ ['('] := rfl
  unfold seeded
  rw [hopen]
  simp only [List.append_assoc]
  exact ⟨_, rfl⟩

theorem seeded_ne (d : Identity) (blanks : Nat) :
    " AUTO_INCREMENT".toList ≠ d.seeded blanks := by
  obtain ⟨rest, hrest⟩ := d.seeded_eq blanks
  rw [hrest]
  intro h
  exact List.cons_ne_nil _ _ (List.self_eq_append_right.mp h)

theorem seeded_ne_nil (d : Identity) (blanks : Nat) : d.seeded blanks ≠ [] := by
  obtain ⟨rest, hrest⟩ := d.seeded_eq blanks
  rw [hrest]
  exact List.append_ne_nil_of_right_ne_nil _ (List.cons_ne_nil _ _)

/-- What the compiler writes generates the identity's numbers when it is the
plain mark, and the identity is plain. -/
theorem generates_generation_iff (d : Identity) (c : Column) (designated : Option Bool) :
    d.Generates (generation c designated) ↔ isAutoIncrement c designated = true ∧ d.Plain := by
  rw [generation]
  cases isAutoIncrement c designated with
  | true =>
    rw [if_pos rfl, and_iff_right rfl]
    apply Iff.intro
    · rintro (⟨blanks, h⟩ | ⟨-, h⟩)
      · exact absurd h (d.seeded_ne blanks)
      · exact h
    · intro h
      exact Or.inr ⟨rfl, h⟩
  | false =>
    rw [if_neg Bool.false_ne_true]
    apply iff_of_false
    · rintro (⟨blanks, h⟩ | ⟨h, -⟩)
      · exact d.seeded_ne_nil blanks h.symm
      · exact absurd h (by decide)
    · intro h
      exact Bool.false_ne_true h.1

end Identity

/-- A table with an integer column that carries an `Identity`. -/
structure IdentityTable where
  before : List Column
  column : Column
  identity : Identity
  after : List Column
  integer : column.integerAffinity = true
  carries : column.serverDefault = .identity

namespace IdentityTable

variable (P : DdlPreparer) (autoincrementColumn : List Column → Option Nat)

def columns (t : IdentityTable) : List Column := t.before ++ t.column :: t.after

/-- What the table's statement says of the column. -/
def specification (t : IdentityTable) : Option Str :=
  (tableColumnSpecifications P autoincrementColumn t.columns)[t.before.length]?

/-- The numbers are generated as the identity says. -/
def Kept (t : IdentityTable) (specification : Str) : Prop :=
  ∃ clause, t.identity.Generates clause ∧
    specification = specificationHead P t.column ++ clause ++ specificationTail P t.column

theorem specification_eq (t : IdentityTable) :
    t.specification P autoincrementColumn = some (getColumnSpecification P t.column
      (some (autoincrementColumn t.columns = some t.before.length))) := by
  have hcolumn : t.columns[t.before.length]? = some t.column := by
    rw [columns, List.getElem?_append_right (Nat.le_refl _), Nat.sub_self]
    rfl
  rw [specification, tableColumnSpecifications, List.getElem?_map, List.getElem?_zipIdx, hcolumn]
  simp only [Option.map_some, Nat.zero_add]

/-- The specification keeps the identity exactly when it writes its numbers. -/
theorem kept_getColumnSpecification (t : IdentityTable) (designated : Option Bool) :
    t.Kept P (getColumnSpecification P t.column designated) ↔
      t.identity.Generates (generation t.column designated) := by
  rw [Kept, getColumnSpecification_generation]
  apply Iff.intro
  · rintro ⟨clause, hclause, h⟩
    rw [between_ends P h]
    exact hclause
  · intro h
    exact ⟨_, h, rfl⟩

/-- The column is an integer, and its identity is no default of another kind. -/
theorem numbered_iff (t : IdentityTable) :
    t.column.Numbered ↔ t.column.primaryKey = true ∧ t.column.autoincrement ≠ .no ∧
      t.column.hasSequence = false := by
  apply Iff.intro
  · intro h
    exact ⟨h.primary_key, h.wanted, h.no_sequence⟩
  · rintro ⟨hkey, hwanted, hsequence⟩
    exact ⟨hkey, t.integer, hwanted, hsequence, Or.inr t.carries⟩

end IdentityTable

/-- **An identity is kept exactly when it starts at 1 in steps of 1 and its column
is the key that the table numbers.**  Nothing in the compiler raises. -/
theorem identity_kept_iff (P : DdlPreparer) (autoincrementColumn : List Column → Option Nat)
    (t : IdentityTable) :
    (∃ specification, t.specification P autoincrementColumn = some specification ∧
        t.Kept P specification) ↔
      t.identity.Plain ∧ t.column.primaryKey = true ∧ t.column.autoincrement ≠ .no ∧
        t.column.hasSequence = false ∧
        autoincrementColumn t.columns = some t.before.length := by
  have hdesignated : some (decide (autoincrementColumn t.columns = some t.before.length))
      ≠ some false ↔ autoincrementColumn t.columns = some t.before.length := by
    rw [Ne, Option.some.injEq, decide_eq_false_iff_not, not_not]
  have hkept : (∃ specification, t.specification P autoincrementColumn = some specification ∧
      t.Kept P specification) ↔ t.Kept P (getColumnSpecification P t.column
        (some (autoincrementColumn t.columns = some t.before.length))) := by
    rw [t.specification_eq]
    apply Iff.intro
    · rintro ⟨specification, hspec, h⟩
      rw [Option.some.inj hspec]
      exact h
    · intro h
      exact ⟨_, rfl, h⟩
  rw [hkept, t.kept_getColumnSpecification, Identity.generates_generation_iff,
    isAutoIncrement_iff, hdesignated, t.numbered_iff]
  tauto

/-- The table of `Column("id", Integer, Identity(start=100, increment=10),
primary_key=True)` -/
def countersTable : IdentityTable where
  before := []
  column := { idColumn with serverDefault := .identity }
  identity := ⟨some 100, some 10⟩
  after := []
  integer := rfl
  carries := rfl

/-- **The seed of `counters` is dropped.** -/
theorem identity_seed_dropped :
    countersTable.specification plainDdlPreparer (fun _ => some 0)
        = some "id INTEGER AUTO_INCREMENT NOT NULL".toList ∧
      ¬ ∃ specification,
        countersTable.specification plainDdlPreparer (fun _ => some 0) = some specification ∧
          countersTable.Kept plainDdlPreparer specification := by
  refine ⟨by decide +kernel, ?_⟩
  rintro ⟨specification, hspec, h⟩
  rw [countersTable.specification_eq, Option.some.injEq] at hspec
  rw [← hspec, countersTable.kept_getColumnSpecification,
    Identity.generates_generation_iff] at h
  exact absurd h.2 (by decide)

end SqlalchemyCubrid.Compiler
