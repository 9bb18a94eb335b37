import SqlalchemyCubrid.Compiler.OidPath
import SqlalchemyCubrid.Lib.SqlLayout
import SqlalchemyCubrid.Python.Exception

/-!
# Hierarchical queries

`HierarchicalSelect` prints a `SELECT` with `START WITH`, `CONNECT BY` and
`ORDER SIBLINGS BY`, and its operators and pseudo-columns print themselves inside
of the expressions.  Without a list of columns it prints the table in their
place, and a table outside of `FROM` is no text at all.

`hierarchicalStatement` reads such statements clause by clause, and `readParts` an
expression: each operator with its column, and the tokens between them.
`hierarchical_read_iff` says which selects are read as what they are: those with
columns and a `CONNECT BY`, without which there is an exception.
-/

namespace SqlalchemyCubrid.Compiler

open Lib Lib.Sql Python

/-! ### Expressions -/

/-- The words a clause starts with. -/
def clauseWords : List Str :=
  ["FROM", "WHERE", "START", "CONNECT", "NOCYCLE", "ORDER"].map String.toList

def stopClause : Token → Bool := stopWord clauseWords

/-- The words of the operators and the pseudo-columns. -/
def operatorWords : List Str :=
  ["PRIOR", "LEVEL", "CONNECT_BY_ISLEAF", "CONNECT_BY_ISCYCLE", "ROWNUM", "SYS_CONNECT_BY_PATH",
    "CONNECT_BY_ROOT"].map String.toList

def isOperator : Token → Bool := stopWord operatorWords

/-- All of them are reserved, so that a name like one of them is in quotes. -/
theorem isOperator_identifier {t : Token} {s : Str} (h : identifier t = some s) :
    isOperator t = false := by
  have hreserved : ∀ w ∈ operatorWords, w.map Char.toLower ∈ reservedWords := by
    decide +kernel
  cases t with
  | word v =>
    rw [identifier] at h
    split at h
    · rename_i hplain
      refine decide_eq_false fun hw => ?_
      exact toUpper_ne_of_reserved hplain (hreserved _ hw) rfl
    · cases h
  | _ => rfl

/-- The text of an expression or a table that has no operator in it: tokens with no
blanks at the ends, which keep commas and the words of clauses in parentheses. -/
structure ClauseText where
  text : Str
  tokens : List Token
  lex_text : lex text = some tokens
  sealed_tokens : sealedAt (fun t => stopComma t || stopClause t) 0 tokens = true
  tokens_ne_nil : tokens ≠ []
  snug_tokens : Snug tokens
  plain_tokens : ∀ t ∈ tokens, isOperator t = false

/-- A column as SQLAlchemy prints it: its name, behind that of its table if there is
one, with dots in between. -/
structure ColumnText extends ClauseText where
  first : Token
  steps : List Token
  names : List Str
  tokens_eq : tokens = first :: OidExpr.stepTokens steps
  identifiers : (first :: steps).map identifier = names.map some

namespace NameQuoter

variable (Q : NameQuoter)

def columnText (n : Name) (names : List Name) : Str :=
  Q.quote n ++ names.flatMap fun m : Name => '.' :: Q.quote m

def columnPathTokens (n : Name) (names : List Name) : List Token :=
  Q.token n :: OidExpr.stepTokens (names.map fun m : Name => Q.token m)

theorem lex_columnText (n : Name) (names : List Name) :
    lex (Q.columnText n names) = some (Q.columnPathTokens n names) := by
  induction names generalizing n with
  | nil =>
    rw [columnText, List.flatMap_nil, List.append_nil]
    exact Q.lex_quote n n.property
  | cons m names ih => exact lex_append_separates (Q.lex_quote n n.property) separates_dot (ih m)

theorem mem_columnPathTokens {n : Name} {names : List Name} {t : Token}
    (ht : t ∈ Q.columnPathTokens n names) :
    t = .symbol '.' ∨ ∃ m ∈ n :: names, t = Q.token m := by
  rcases List.mem_cons.mp ht with rfl | ht
  · exact Or.inr ⟨n, List.mem_cons_self, rfl⟩
  · obtain ⟨u, hu, htu⟩ := List.mem_flatMap.mp ht
    obtain ⟨m, hm, rfl⟩ := List.mem_map.mp hu
    rcases List.mem_cons.mp htu with rfl | htu
    · exact Or.inl rfl
    · exact Or.inr ⟨m, List.mem_cons_of_mem _ hm, List.mem_singleton.mp htu⟩

/-- A property of the dot and of every token that names something. -/
theorem forall_mem_columnPathTokens {p : Token → Prop} (hdot : p (.symbol '.'))
    (hname : ∀ t s, identifier t = some s → p t) {n : Name} {names : List Name} :
    ∀ t ∈ Q.columnPathTokens n names, p t := by
  intro t ht
  rcases Q.mem_columnPathTokens ht with rfl | ⟨m, -, rfl⟩
  · exact hdot
  · exact hname _ _ (Q.identifier_token m m.property)

/-- **What the preparer prints of a column's names is such a text**, unless a name starts a
clause without being reserved: `START` and `NOCYCLE`. -/
def columnOf (n : Name) (names : List Name)
    (h : ∀ m ∈ n :: names, stopClause (Q.token m) = false) : ColumnText where
  text := Q.columnText n names
  tokens := Q.columnPathTokens n names
  lex_text := Q.lex_columnText n names
  sealed_tokens := by
    apply sealedAt_of_forall
    intro t ht
    rcases Q.mem_columnPathTokens ht with rfl | ⟨m, hm, rfl⟩
    · decide
    · rw [h m hm]
      rcases identifier_cases (Q.identifier_token m m.property) with ht | ht <;>
        simp [ht, stopComma]
  tokens_ne_nil := List.cons_ne_nil _ _
  snug_tokens := by
    refine snug_of_forall (Q.forall_mem_columnPathTokens (p := fun t => isBlank t = false) rfl ?_)
    intro t s h
    rcases identifier_cases h with rfl | rfl <;> rfl
  plain_tokens := Q.forall_mem_columnPathTokens (p := fun t => isOperator t = false) rfl
    fun _ _ h => isOperator_identifier h
  first := Q.token n
  steps := names.map fun m : Name => Q.token m
  names := (n :: names).map Subtype.val
  tokens_eq := rfl
  identifiers := by
    rw [List.map_cons, List.map_map, List.map_cons, List.map_cons, List.map_map]
    congr 1
    · exact Q.identifier_token n n.property
    · exact List.map_congr_left fun m _ => Q.identifier_token m m.property

end NameQuoter

/-- An expression.  SQLAlchemy prints operators between their operands and, where it
has put a `Grouping`, parentheses around one. -/
inductive HierarchicalExpr where
  /-- an expression with no operator of a hierarchy -/
  | clause (c : ClauseText)
  | binary (left : HierarchicalExpr) (operator : ClauseText) (right : HierarchicalExpr)
  | grouping (element : HierarchicalExpr)
  | prior (column : ColumnText)
  | levelCol
  | connectByIsLeaf
  | connectByIsCycle
  | rownum
  | sysConnectByPath (column : ColumnText) (separator : Str)
  | connectByRoot (column : ColumnText)

/-- What stands in the list of columns. -/
inductive SelectItem where
  | expr (e : HierarchicalExpr)
  | table

/-- The arguments of `HierarchicalSelect`. -/
structure HierarchicalSelect where
  table : ClauseText
  columns : Option (List SelectItem)
  connectBy : Option HierarchicalExpr
  startWith : Option HierarchicalExpr
  whereClause : Option HierarchicalExpr
  orderSiblingsBy : Option (List HierarchicalExpr)
  nocycle : Bool

/-! ### The printer -/

def HierarchicalExpr.process : HierarchicalExpr → Str
  | .clause c => c.text
  | .binary l op r => l.process ++ ' ' :: (op.text ++ ' ' :: r.process)
  | .grouping e => '(' :: (e.process ++ [')'])
  | .prior c => "PRIOR ".toList ++ c.text
  | .levelCol => "LEVEL".toList
  | .connectByIsLeaf => "CONNECT_BY_ISLEAF".toList
  | .connectByIsCycle => "CONNECT_BY_ISCYCLE".toList
  | .rownum => "ROWNUM".toList
  | .sysConnectByPath c separator =>
    "SYS_CONNECT_BY_PATH(".toList ++ (c.text
      ++ (", ".toList ++ (renderLiteralValue separator ++ ")".toList)))
  | .connectByRoot c => "CONNECT_BY_ROOT ".toList ++ c.text

def SelectItem.isExpr : SelectItem → Bool
  | .expr _ => true
  | .table => false

/-- Outside of `FROM` SQLAlchemy prints nothing for a table. -/
def SelectItem.process : SelectItem → Str
  | .expr e => e.process
  | .table => []

namespace HierarchicalSelect

/-- `columns or [table]` -/
def items (h : HierarchicalSelect) : List SelectItem :=
  match h.columns with
  | some (c :: cs) => c :: cs
  | _ => [.table]

/-- The columns of `ORDER SIBLINGS BY`, if there are any. -/
def siblings (h : HierarchicalSelect) : List HierarchicalExpr := h.orderSiblingsBy.getD []

/-- `self.process` of an argument that may be `None`. -/
def processArg : Option HierarchicalExpr → Except PyError Str
  | some e => .ok e.process
  | none => .error .other

end HierarchicalSelect

def visitHierarchicalSelect (h : HierarchicalSelect) : Except PyError Str := do
  let text := "SELECT ".toList ++ join ", ".toList (h.items.map SelectItem.process)
  let text := text ++ (" FROM ".toList ++ h.table.text)
  let text := text ++ h.whereClause.elim [] fun e => " WHERE ".toList ++ e.process
  let text := text ++ h.startWith.elim [] fun e => " START WITH ".toList ++ e.process
  let text := text ++ " CONNECT BY ".toList
  let text := text ++ if h.nocycle then "NOCYCLE ".toList else []
  let text := text ++ (← HierarchicalSelect.processArg h.connectBy)
  return text ++ if h.siblings.isEmpty then []
    else " ORDER SIBLINGS BY ".toList
      ++ join ", ".toList (h.siblings.map HierarchicalExpr.process)

/-! ### Statements -/

/-- What an expression is made of: its operators, each with its column, and the
tokens between them. -/
inductive HierarchicalPart where
  | prior (column : List Str)
  | levelCol
  | connectByIsLeaf
  | connectByIsCycle
  | rownum
  | sysConnectByPath (column : List Str) (separator : Str)
  | connectByRoot (column : List Str)
  | token (t : Token)
  deriving DecidableEq, Repr

/-- Names behind dots. -/
def columnSteps : List Token → List Str × List Token
  | .symbol '.' :: t :: ts =>
    match identifier t with
    | some n => (n :: (columnSteps ts).1, (columnSteps ts).2)
    | none => ([], .symbol '.' :: t :: ts)
  | ts => ([], ts)

def columnPath : Parser (List Str) := fun ts =>
  (ident ts).map fun r => (r.1 :: (columnSteps r.2).1, (columnSteps r.2).2)

def hierarchicalPart : Parser HierarchicalPart :=
  (do keyword "PRIOR".toList; return .prior (← columnPath))
  <|> (do keyword "LEVEL".toList; return .levelCol)
  <|> (do keyword "CONNECT_BY_ISLEAF".toList; return .connectByIsLeaf)
  <|> (do keyword "CONNECT_BY_ISCYCLE".toList; return .connectByIsCycle)
  <|> (do keyword "ROWNUM".toList; return .rownum)
  <|> (do
    keyword "SYS_CONNECT_BY_PATH".toList
    symbol '('
    let column ← columnPath
    symbol ','
    let separator ← quoted .literal
    symbol ')'
    return .sysConnectByPath column separator)
  <|> (do keyword "CONNECT_BY_ROOT".toList; return .connectByRoot (← columnPath))
  <|> (do return .token (← next fun t => if isOperator t then none else some t))

/-- All of the parts of an expression. -/
def readParts (ts : List Token) : Option (List HierarchicalPart) :=
  manyToEnd hierarchicalPart (ts.length + 1) ts

structure HierarchicalStatement (α : Type) where
  columns : List α
  table : List Token
  whereClause : Option α
  startWith : Option α
  nocycle : Bool
  connectBy : α
  siblings : List α
  deriving DecidableEq, Repr

/-- Reads every expression. -/
def HierarchicalStatement.readAll {α β : Type} (read : α → Option β)
    (s : HierarchicalStatement α) : Option (HierarchicalStatement β) := do
  let columns ← s.columns.mapM read
  let whereClause ← s.whereClause.mapM read
  let startWith ← s.startWith.mapM read
  let connectBy ← read s.connectBy
  let siblings ← s.siblings.mapM read
  return ⟨columns, s.table, whereClause, startWith, s.nocycle, connectBy, siblings⟩

/-- A fragment that is not blank. -/
def present : Parser (List Token) := fun ts =>
  (fragment stopClause ts).filter fun r => r.1 ≠ []

/-- A list of them. -/
def presentList : Parser (List (List Token)) := fun ts =>
  (fragments stopClause ts).filter fun r => ∀ x ∈ r.1, x ≠ []

def optionalClause (ws : List Str) : Parser (Option (List Token)) :=
  (do keywords ws; return some (← present)) <|> pure none

def nocycleFlag : Parser Bool := (do keyword "NOCYCLE".toList; return true) <|> pure false

def siblingsClause : Parser (List (List Token)) :=
  (do
    keywords ["ORDER".toList, "SIBLINGS".toList, "BY".toList]
    presentList)
  <|> pure []

/-- The clauses, each as its tokens. -/
def hierarchicalStatement : Parser (HierarchicalStatement (List Token)) := do
  keyword "SELECT".toList
  let columns ← presentList
  keyword "FROM".toList
  let table ← present
  let whereClause ← optionalClause ["WHERE".toList]
  let startWith ← optionalClause ["START".toList, "WITH".toList]
  keywords ["CONNECT".toList, "BY".toList]
  let nocycle ← nocycleFlag
  let connectBy ← present
  let siblings ← siblingsClause
  return ⟨columns, table, whereClause, startWith, nocycle, connectBy, siblings⟩

/-- A text that is one statement. -/
def parseHierarchical (s : Str) : Option (HierarchicalStatement (List HierarchicalPart)) :=
  (lex s).bind fun ts => (hierarchicalStatement ts).bind fun r =>
    if skip r.2 = [] then r.1.readAll readParts else none

/-! ### The tokens of an expression -/

theorem ClauseText.trim_ne_nil (c : ClauseText) : trim c.tokens ≠ [] := by
  rw [trim_of_snug c.snug_tokens]
  exact c.tokens_ne_nil

abbrev stopItem (t : Token) : Bool := stopComma t || stopClause t

theorem lex_prefixed {w s : Str} {ts : List Token} (hw : lex w = some [.word w])
    (hs : lex s = some ts) : lex (w ++ ' ' :: s) = some (.word w :: .space ' ' :: ts) :=
  lex_append hw rfl hs

namespace HierarchicalExpr

def tokens : HierarchicalExpr → List Token
  | .clause c => c.tokens
  | .binary l op r => l.tokens ++ .space ' ' :: (op.tokens ++ .space ' ' :: r.tokens)
  | .grouping e => .symbol '(' :: (e.tokens ++ [.symbol ')'])
  | .prior c => .word "PRIOR".toList :: .space ' ' :: c.tokens
  | .levelCol => [.word "LEVEL".toList]
  | .connectByIsLeaf => [.word "CONNECT_BY_ISLEAF".toList]
  | .connectByIsCycle => [.word "CONNECT_BY_ISCYCLE".toList]
  | .rownum => [.word "ROWNUM".toList]
  | .sysConnectByPath c separator =>
    .word "SYS_CONNECT_BY_PATH".toList :: .symbol '('
      :: (c.tokens ++ [.symbol ',', .space ' ', .quoted .literal separator] ++ [.symbol ')'])
  | .connectByRoot c => .word "CONNECT_BY_ROOT".toList :: .space ' ' :: c.tokens

theorem lex_process (e : HierarchicalExpr) : lex e.process = some e.tokens := by
  induction e with
  | clause c => exact c.lex_text
  | binary l op r hl hr => exact lex_append hl rfl (lex_append op.lex_text rfl hr)
  | grouping e ih => exact lex_cons (c := '(') rfl (lex_append ih (c := ')') rfl rfl)
  | prior c => exact lex_prefixed (w := "PRIOR".toList) (by decide) c.lex_text
  | levelCol => decide
  | connectByIsLeaf => decide
  | connectByIsCycle => decide
  | rownum => decide
  | sysConnectByPath c separator =>
    have hlast : lex (renderLiteralValue separator ++ ")".toList)
        = some ([.quoted .literal separator] ++ [.symbol ')']) :=
      lex_append (lex_delimited .literal separator) rfl rfl
    have hargs := lex_append c.lex_text (c := ',') rfl (lex_cons (c := ' ') rfl hlast)
    have hname : lex "SYS_CONNECT_BY_PATH".toList = some [.word "SYS_CONNECT_BY_PATH".toList] := by
      decide
    have hpath := lex_append hname (c := '(') rfl hargs
    rw [tokens, List.append_assoc]
    exact hpath
  | connectByRoot c => exact lex_prefixed (w := "CONNECT_BY_ROOT".toList) (by decide) c.lex_text

/-- In parentheses nothing stops. -/
theorem sealedAt_parens {ts : List Token} (h : sealedAt stopItem 0 ts) (us : List Token)
    (hus : sealedAt (fun _ => false) 0 us) :
    sealedAt stopItem 0 (.symbol '(' :: (ts ++ us ++ [.symbol ')'])) := by
  have hinner : sealedAt (fun _ => false) 0 (ts ++ us) :=
    sealedAt_append (sealedAt_mono (fun _ h => absurd h Bool.false_ne_true) h) hus
  have hparens := sealedAt_succ (s := stopItem) hinner
  rw [sealedAt]
  exact hparens

/-- **An expression keeps its commas and the words of clauses in parentheses.** -/
theorem sealedAt_tokens (e : HierarchicalExpr) : sealedAt stopItem 0 e.tokens := by
  have hspace {ts : List Token} (h : sealedAt stopItem 0 ts) :
      sealedAt stopItem 0 (.space ' ' :: ts) := sealedAt_cons rfl (by decide) (by decide) h
  induction e with
  | clause c => exact c.sealed_tokens
  | binary l op r hl hr =>
    exact sealedAt_append hl (hspace (sealedAt_append op.sealed_tokens (hspace hr)))
  | grouping e ih =>
    have hparens := sealedAt_parens ih [] rfl
    rw [List.append_nil] at hparens
    exact hparens
  | prior c =>
    exact sealedAt_cons (by decide) (by decide) (by decide) (hspace c.sealed_tokens)
  | levelCol => decide
  | connectByIsLeaf => decide
  | connectByIsCycle => decide
  | rownum => decide
  | sysConnectByPath c separator =>
    exact sealedAt_cons (by decide) (by decide) (by decide) (sealedAt_parens c.sealed_tokens
      [.symbol ',', .space ' ', .quoted .literal separator] rfl)
  | connectByRoot c =>
    exact sealedAt_cons (by decide) (by decide) (by decide) (hspace c.sealed_tokens)

theorem tokens_ne_nil (e : HierarchicalExpr) : e.tokens ≠ [] := by
  cases e with
  | clause c => exact c.tokens_ne_nil
  | binary l op r => exact List.append_ne_nil_of_right_ne_nil _ (List.cons_ne_nil _ _)
  | _ => exact List.cons_ne_nil _ _

theorem snug_tokens (e : HierarchicalExpr) : Snug e.tokens := by
  have hword (w : Str) : Snug [.word w] := snug_singleton rfl
  have hclose : Snug [.symbol ')'] := snug_singleton rfl
  have hprefixed (w : Str) (c : ColumnText) : Snug (.word w :: .space ' ' :: c.tokens) :=
    (hword w).append c.snug_tokens (List.cons_ne_nil _ _) c.tokens_ne_nil [.space ' ']
  induction e with
  | clause c => exact c.snug_tokens
  | binary l op r hl hr =>
    have hrow := hl.append hr l.tokens_ne_nil r.tokens_ne_nil
      (.space ' ' :: (op.tokens ++ [.space ' ']))
    rw [List.cons_append, List.append_assoc] at hrow
    exact hrow
  | grouping e =>
    exact (snug_singleton (t := .symbol '(') rfl).append hclose (List.cons_ne_nil _ _)
      (List.cons_ne_nil _ _) e.tokens
  | prior c => exact hprefixed _ c
  | levelCol => exact hword _
  | connectByIsLeaf => exact hword _
  | connectByIsCycle => exact hword _
  | rownum => exact hword _
  | sysConnectByPath c separator =>
    exact (hword _).append hclose (List.cons_ne_nil _ _) (List.cons_ne_nil _ _)
      (.symbol '(' :: (c.tokens ++ [.symbol ',', .space ' ', .quoted .literal separator]))
  | connectByRoot c => exact hprefixed _ c

theorem trim_tokens (e : HierarchicalExpr) : trim e.tokens = e.tokens :=
  trim_of_snug e.snug_tokens

theorem trim_ne_nil (e : HierarchicalExpr) : trim e.tokens ≠ [] := by
  rw [e.trim_tokens]
  exact e.tokens_ne_nil

/-! ### The parts of an expression -/

/-- The operators of an expression, each with its column, and its tokens. -/
def parts : HierarchicalExpr → List HierarchicalPart
  | .clause c => (c.tokens.filter fun t => !isBlank t).map .token
  | .binary l op r =>
    l.parts ++ ((op.tokens.filter fun t => !isBlank t).map .token ++ r.parts)
  | .grouping e => .token (.symbol '(') :: (e.parts ++ [.token (.symbol ')')])
  | .prior c => [.prior c.names]
  | .levelCol => [.levelCol]
  | .connectByIsLeaf => [.connectByIsLeaf]
  | .connectByIsCycle => [.connectByIsCycle]
  | .rownum => [.rownum]
  | .sysConnectByPath c separator => [.sysConnectByPath c.names separator]
  | .connectByRoot c => [.connectByRoot c.names]

end HierarchicalExpr

theorem layoutFree_columnPath : LayoutFree columnPath := by
  intro ts
  rw [columnPath, columnPath, ident, next, next, skip_skip]

theorem layoutFree_hierarchicalPart : LayoutFree hierarchicalPart := by
  have hword (w : Str) (part : HierarchicalPart) :
      LayoutFree (do keyword w; return part) := (layoutFree_keyword w).bind fun _ =>
    layoutFree_pure part
  have hcolumn (w : Str) (part : List Str → HierarchicalPart) :
      LayoutFree (do keyword w; return part (← columnPath)) := (layoutFree_keyword w).bind fun _ =>
    layoutFree_columnPath.bind fun _ => layoutFree_pure _
  have hpath : LayoutFree (do
      keyword "SYS_CONNECT_BY_PATH".toList
      symbol '('
      let column ← columnPath
      symbol ','
      let separator ← quoted .literal
      symbol ')'
      return HierarchicalPart.sysConnectByPath column separator) :=
    (layoutFree_keyword _).bind fun _ => (layoutFree_symbol _).bind fun _ =>
      layoutFree_columnPath.bind fun _ => (layoutFree_symbol _).bind fun _ =>
        (layoutFree_quoted _).bind fun _ => (layoutFree_symbol _).bind fun _ => layoutFree_pure _
  exact (hcolumn _ _).orElse ((hword _ _).orElse ((hword _ _).orElse ((hword _ _).orElse
    ((hword _ _).orElse (hpath.orElse ((hcolumn _ _).orElse
      ((layoutFree_next _).bind fun _ => layoutFree_pure _)))))))

/-- No dot follows at once. -/
def NoDot (rest : List Token) : Prop := rest.head? ≠ some (.symbol '.')

theorem columnSteps_of_noDot {rest : List Token} (h : NoDot rest) :
    columnSteps rest = ([], rest) := by
  unfold columnSteps
  split
  · exact absurd rfl h
  · rfl

theorem columnSteps_stepTokens {steps : List Token} {names : List Str}
    (h : steps.map identifier = names.map some) {rest : List Token} (hrest : NoDot rest) :
    columnSteps (OidExpr.stepTokens steps ++ rest) = (names, rest) := by
  induction steps generalizing names with
  | nil =>
    cases names with
    | nil => exact columnSteps_of_noDot hrest
    | cons n names => cases h
  | cons t steps ih =>
    cases names with
    | nil => cases h
    | cons n names =>
      obtain ⟨ht, hsteps⟩ := List.cons.inj h
      show columnSteps (.symbol '.' :: t :: (OidExpr.stepTokens steps ++ rest)) = _
      rw [columnSteps, ht, ih hsteps]

/-- **A column is read as its names**, up to the last one. -/
theorem columnPath_tokens (c : ColumnText) {rest : List Token} (hrest : NoDot rest) :
    columnPath (c.tokens ++ rest) = some (c.names, rest) := by
  obtain ⟨n, names, hnames⟩ : ∃ n names, c.names = n :: names := by
    have hids := c.identifiers
    cases hc : c.names with
    | nil =>
      rw [hc] at hids
      cases hids
    | cons n names => exact ⟨n, names, rfl⟩
  have hids := c.identifiers
  rw [hnames, List.map_cons, List.map_cons, List.cons.injEq] at hids
  rw [columnPath, c.tokens_eq, List.cons_append, ident_of_identifier hids.1, Option.map_some,
    columnSteps_stepTokens hids.2 hrest, hnames]

theorem columnPath_space (c : ColumnText) {rest : List Token} (hrest : NoDot rest) :
    columnPath (.space ' ' :: (c.tokens ++ rest)) = some (c.names, rest) := by
  have hskip : columnPath (.space ' ' :: (c.tokens ++ rest)) = columnPath (c.tokens ++ rest) := rfl
  rw [hskip, columnPath_tokens c hrest]

/-- A token that is none of the operators is a part of its own. -/
theorem reads_plain {t : Token} (ht : isOperator t = false) (hblank : isBlank t = false)
    (rest : List Token) : Reads hierarchicalPart (t :: rest) (.token t) rest := by
  have hskip : skip (t :: rest) = t :: rest := List.dropWhile_cons_of_neg (by simp [hblank])
  have hword {w : Str} (hw : w ∈ operatorWords) : keyword w (t :: rest) = none := by
    refine next_eq_none hskip ?_
    cases t with
    | word s =>
      refine if_neg ?_
      rintro rfl
      exact absurd (decide_eq_true hw) (Bool.eq_false_iff.mp ht)
    | _ => rfl
  have hlast : Reads (do return HierarchicalPart.token (← next fun t =>
      if isOperator t then none else some t)) (t :: rest) (.token t) rest := by
    refine (reads_next ?_ hblank rest).map HierarchicalPart.token
    rw [if_neg (by rw [ht]; exact Bool.false_ne_true)]
  have hnone {w : Str} (hw : w ∈ operatorWords) {α : Type} (p : Unit → Parser α) :
      (keyword w >>= p) (t :: rest) = none := bind_eq_none (hword hw)
  exact Reads.right (hnone (by decide) _) (Reads.right (hnone (by decide) _)
    (Reads.right (hnone (by decide) _) (Reads.right (hnone (by decide) _)
      (Reads.right (hnone (by decide) _) (Reads.right (hnone (by decide) _)
        (Reads.right (hnone (by decide) _) hlast))))))

theorem readsToEnd_plain (ts : List Token) (hts : ∀ t ∈ ts, isOperator t = false)
    {rest : List Token} {ps : List HierarchicalPart}
    (h : ReadsToEnd hierarchicalPart rest ps) :
    ReadsToEnd hierarchicalPart (ts ++ rest)
      ((ts.filter fun t => !isBlank t).map .token ++ ps) := by
  induction ts with
  | nil => exact h
  | cons t ts ih =>
    obtain ⟨ht, hts⟩ := List.forall_mem_cons.mp hts
    cases hblank : isBlank t with
    | true =>
      rw [List.filter_cons_of_neg (by simp [hblank])]
      exact (ih hts).layout layoutFree_hierarchicalPart (b := [t]) (by simp [hblank])
    | false =>
      rw [List.filter_cons_of_pos (by simp [hblank])]
      exact ReadsToEnd.cons layoutFree_hierarchicalPart [t] (reads_plain ht hblank _)
        (List.countP_pos_iff.mpr ⟨t, List.mem_cons_self, by simp [hblank]⟩) (ih hts)

namespace HierarchicalExpr

/-- An operator, with its column and its words, is one part. -/
theorem readsToEnd_operator {w : Str} (ts : List Token) {rest : List Token}
    {part : HierarchicalPart} {ps : List HierarchicalPart} (h : ReadsToEnd hierarchicalPart rest ps)
    (hread : hierarchicalPart (.word w :: (ts ++ rest)) = some (part, rest)) :
    ReadsToEnd hierarchicalPart (.word w :: ts ++ rest) (part :: ps) :=
  ReadsToEnd.cons layoutFree_hierarchicalPart (.word w :: ts) (reads_of_eq hread rfl)
    (List.countP_pos_iff.mpr ⟨.word w, List.mem_cons_self, rfl⟩) h

/-- **An expression is read as its parts**, in front of anything but a dot. -/
theorem readsToEnd_tokens (e : HierarchicalExpr) (rest : List Token) {ps : List HierarchicalPart}
    (hrest : NoDot rest) (h : ReadsToEnd hierarchicalPart rest ps) :
    ReadsToEnd hierarchicalPart (e.tokens ++ rest) (e.parts ++ ps) := by
  have hfree := layoutFree_hierarchicalPart
  have hspace {ts : List Token} : NoDot (.space ' ' :: ts) := by simp [NoDot]
  induction e generalizing rest ps with
  | clause c => exact readsToEnd_plain _ c.plain_tokens h
  | binary l op r hl hr =>
    have hright := ((hr _ hrest h).space hfree ' ')
    have hmiddle := (readsToEnd_plain _ op.plain_tokens hright).space hfree ' '
    have hall := hl _ hspace hmiddle
    rw [tokens, parts]
    simpa only [List.append_assoc, List.cons_append] using hall
  | grouping e ih =>
    have hclose := readsToEnd_plain [.symbol ')'] (by decide) h
    have hinner := ih (.symbol ')' :: rest) (by simp [NoDot]) hclose
    have hopen := readsToEnd_plain [.symbol '('] (by decide) hinner
    rw [tokens, parts, List.cons_append, List.cons_append, List.append_assoc, List.append_assoc]
    exact hopen
  | prior c =>
    refine readsToEnd_operator (.space ' ' :: c.tokens) h ?_
    show (Option.bind (columnPath (.space ' ' :: (c.tokens ++ rest))) _).orElse _ = _
    rw [columnPath_space c hrest]
    rfl
  | levelCol => exact readsToEnd_operator [] h rfl
  | connectByIsLeaf => exact readsToEnd_operator [] h rfl
  | connectByIsCycle => exact readsToEnd_operator [] h rfl
  | rownum => exact readsToEnd_operator [] h rfl
  | sysConnectByPath c separator =>
    refine readsToEnd_operator (.symbol '('
      :: (c.tokens ++ [.symbol ',', .space ' ', .quoted .literal separator] ++ [.symbol ')'])) h ?_
    rw [List.cons_append, List.append_assoc, List.append_assoc]
    show (Option.bind (columnPath (c.tokens ++ _)) _).orElse _ = _
    rw [columnPath_tokens c (by simp [NoDot])]
    rfl
  | connectByRoot c =>
    refine readsToEnd_operator (.space ' ' :: c.tokens) h ?_
    show (Option.bind (columnPath (.space ' ' :: (c.tokens ++ rest))) _).orElse _ = _
    rw [columnPath_space c hrest]
    rfl

/-- **An expression is read as its parts.** -/
theorem readParts_tokens (e : HierarchicalExpr) : readParts e.tokens = some e.parts := by
  have hall := e.readsToEnd_tokens [] (by simp [NoDot]) readsToEnd_nil
  rw [List.append_nil, List.append_nil] at hall
  exact hall _ (Nat.lt_succ_of_le List.countP_le_length)

end HierarchicalExpr

namespace SelectItem

def parts : SelectItem → List HierarchicalPart
  | .expr e => e.parts
  | .table => []

def tokens : SelectItem → List Token
  | .expr e => e.tokens
  | .table => []

theorem lex_process (c : SelectItem) : lex c.process = some c.tokens := by
  cases c with
  | expr e => exact e.lex_process
  | table => rfl

theorem sealedAt_tokens (c : SelectItem) : sealedAt stopItem 0 c.tokens := by
  cases c with
  | expr e => exact e.sealedAt_tokens
  | table => rfl

theorem trim_tokens_iff (c : SelectItem) : trim c.tokens ≠ [] ↔ c.isExpr = true := by
  cases c with
  | expr e => exact iff_of_true e.trim_ne_nil rfl
  | table => exact iff_of_false (fun h => h rfl) Bool.false_ne_true

end SelectItem

/-! ### Clauses -/

theorem keyword_word {w : Str} (hw : w.map Char.toUpper = w) (rest : List Token) :
    keyword w (.word w :: rest) = some ((), rest) := by
  show Option.map _ (if w.map Char.toUpper = w then some () else none) = _
  rw [if_pos hw]
  rfl

/-- **The words of a clause are read**, from the first one on. -/
theorem keywords_wordsTokens {w : Str} {ws : List Str} (hws : Capitals (w :: ws))
    (rest : List Token) :
    keywords (w :: ws) ((wordsTokens (w :: ws)).tail ++ rest) = some ((), rest) := by
  induction ws generalizing w with
  | nil =>
    show (keyword w (.word w :: rest)).bind _ = _
    rw [keyword_word (hws.upper_word w List.mem_cons_self)]
    rfl
  | cons v ws ih =>
    have hrest := ih ⟨fun u hu => hws.lex_word u (List.mem_cons_of_mem _ hu),
      fun u hu => hws.upper_word u (List.mem_cons_of_mem _ hu)⟩
    show (keyword w (.word w :: _)).bind _ = _
    rw [keyword_word (hws.upper_word w List.mem_cons_self)]
    exact hrest

/-- The end of the statement, or a space and the next clause. -/
inductive EndsClause : List Token → Prop where
  | nil : EndsClause []
  | clause {w : Str} (hw : w ∈ clauseWords) (rest : List Token) :
    EndsClause (.space ' ' :: .word w :: rest)

theorem isBlank_stopClause {t : Token} (h : isBlank t) : stopClause t = false := by
  cases t with
  | word s => cases h
  | _ => rfl

theorem stops_clause {w : Str} (hw : w ∈ clauseWords) (rest : List Token) :
    Stops stopClause (.word w :: rest) := by
  have hupper : ∀ w ∈ clauseWords, stopClause (.word w) = true := by decide
  exact stops_cons (hupper w hw)

/-- The next clause, or the end, behind a fragment. -/
theorem EndsClause.cases_rest {rest : List Token} (h : EndsClause rest) :
    ∃ blank, rest = blank ++ rest.tail ∧ (∀ t ∈ blank, isBlank t) ∧
      Stops stopClause rest.tail := by
  cases h with
  | nil => exact ⟨[], rfl, List.forall_mem_nil _, stops_nil⟩
  | clause hw rest => exact ⟨[.space ' '], rfl, by simp [isBlank], stops_clause hw rest⟩

theorem present_tokens {ts rest : List Token} (h : sealedAt stopItem 0 ts) (hne : trim ts ≠ [])
    (hrest : EndsClause rest) :
    present (.space ' ' :: ts ++ rest) = some (trim ts, rest.tail) := by
  obtain ⟨blank, hsplit, hblank, hstops⟩ := hrest.cases_rest
  have hsealed : sealedAt stopClause 0 ts :=
    sealedAt_mono (fun t ht => Bool.or_eq_true_iff.mpr (Or.inr ht)) h
  have hread := fragment_of_sealed (a := [.space ' ']) hsealed (fun t => isBlank_stopClause)
    (by simp [isBlank]) hblank hstops
  have htokens : .space ' ' :: ts ++ rest = [.space ' '] ++ ts ++ blank ++ rest.tail := by
    rw [List.append_assoc _ blank, ← hsplit]
    rfl
  rw [present, htokens, hread, Option.filter_some, if_pos (decide_eq_true hne)]

/-- A fragment starts with a token that does not stop. -/
theorem skip_sealed {ts : List Token} (h : sealedAt stopItem 0 ts) (hne : trim ts ≠ [])
    (rest : List Token) : ∃ t us, skip (ts ++ rest) = t :: us ∧ stopItem t = false := by
  induction ts with
  | nil => exact absurd rfl hne
  | cons t ts ih =>
    rw [sealedAt, Bool.and_eq_true] at h
    cases hblank : isBlank t with
    | true =>
      have hdeepen : deepen t 0 = 0 := by
        cases t with
        | symbol c => cases hblank
        | _ => rfl
      have hrest : trim ts ≠ [] := by
        intro hnil
        rw [trim_eq_nil_iff] at hnil
        exact hne (trim_eq_nil_iff.mpr (List.forall_mem_cons.mpr ⟨hblank, hnil⟩))
      rw [hdeepen] at h
      rw [List.cons_append, skip, List.dropWhile_cons_of_pos hblank]
      exact ih h.2 hrest
    | false =>
      refine ⟨t, ts ++ rest, ?_, ?_⟩
      · rw [List.cons_append, skip, List.dropWhile_cons_of_neg (by simp [hblank])]
      · have hpair : (stopComma t = false ∧ stopClause t = false) ∧ t ≠ .symbol ')' := by
          simpa using h.1
        rw [stopItem, hpair.1.1, hpair.1.2]
        rfl

/-- So the word of a clause is not read in its place. -/
theorem keyword_stop {w : Str} (hw : w ∈ clauseWords) {ts rest : List Token}
    (h : sealedAt stopItem 0 ts) (hne : trim ts ≠ []) :
    keyword w (.space ' ' :: (ts ++ rest)) = none := by
  obtain ⟨t, us, hskip, hstop⟩ := skip_sealed h hne rest
  have hspace : skip (.space ' ' :: (ts ++ rest)) = t :: us := hskip
  rw [keyword, next, hspace]
  cases t with
  | word s =>
    have hother : s.map Char.toUpper ≠ w := by
      rintro rfl
      simp [stopItem, stopClause, stopWord, hw] at hstop
    simp only [if_neg hother, Option.map_none]
  | _ => rfl

theorem presentList_tokens {β : Type} {T : β → List Token} (b : β) (bs : List β)
    (h : ∀ x ∈ b :: bs, sealedAt stopItem 0 (T x)) {rest : List Token}
    (hrest : EndsClause rest) :
    presentList (.space ' ' :: joinTokens ((b :: bs).map T) ++ rest)
      = if ∀ x ∈ b :: bs, trim (T x) ≠ [] then some ((b :: bs).map (trim ∘ T), rest.tail)
        else none := by
  obtain ⟨blank, hsplit, hblank, hstops⟩ := hrest.cases_rest
  have hread := fragments_join (fun t => isBlank_stopClause) rfl b bs h
    (a := [.space ' ']) (by simp [isBlank]) hblank hstops
  have htokens : .space ' ' :: joinTokens ((b :: bs).map T) ++ rest
      = [.space ' '] ++ joinTokens ((b :: bs).map T) ++ blank ++ rest.tail := by
    rw [List.append_assoc _ blank, ← hsplit]
    rfl
  rw [presentList, htokens, hread, Option.filter_some]
  simp

/-- A clause that may be left out. -/
def optionalTokens (ws : List Str) (o : Option HierarchicalExpr) : List Token :=
  o.elim [] fun e => clauseTokens ws e.tokens

theorem endsClause_option {w : Str} (ws : List Str) (hw : w ∈ clauseWords)
    (o : Option HierarchicalExpr) {rest : List Token} (hrest : EndsClause rest) :
    EndsClause (optionalTokens (w :: ws) o ++ rest) := by
  cases o with
  | none => exact hrest
  | some e => exact EndsClause.clause hw _

/-- **A clause is read if it is there**, and the next one is another one. -/
theorem optionalClause_tokens {w : Str} {ws : List Str} (hws : Capitals (w :: ws))
    (o : Option HierarchicalExpr) {rest : List Token} (hrest : EndsClause rest)
    (hnext : ∃ v us, v.map Char.toUpper ≠ w ∧ rest = .space ' ' :: .word v :: us) :
    optionalClause (w :: ws) ((optionalTokens (w :: ws) o ++ rest).tail)
      = some (o.map fun e => trim e.tokens, rest.tail) := by
  cases o with
  | none =>
    obtain ⟨v, us, hv, rfl⟩ := hnext
    show ((Option.bind (keyword w (.word v :: us)) _).bind _).orElse _ = _
    rw [keyword_ne hv]
    rfl
  | some e =>
    have hwords := keywords_wordsTokens hws (.space ' ' :: e.tokens ++ rest)
    have hread := present_tokens e.sealedAt_tokens e.trim_ne_nil hrest
    have htokens : (optionalTokens (w :: ws) (some e) ++ rest).tail
        = (wordsTokens (w :: ws)).tail ++ (.space ' ' :: e.tokens ++ rest) := by
      simp [optionalTokens, clauseTokens, wordsTokens]
    rw [htokens]
    show ((keywords (w :: ws) _).bind _).orElse _ = _
    rw [hwords]
    show ((present _).bind _).orElse _ = _
    rw [hread]
    rfl

/-! ### The statement -/

namespace HierarchicalSelect

variable (h : HierarchicalSelect)

def connectWords (nocycle : Bool) : List Str :=
  ["CONNECT".toList, "BY".toList] ++ if nocycle then ["NOCYCLE".toList] else []

def orderWords : List Str := ["ORDER".toList, "SIBLINGS".toList, "BY".toList]

def siblingsTokens : List Token :=
  if h.siblings.isEmpty then []
  else clauseTokens orderWords (joinTokens (h.siblings.map HierarchicalExpr.tokens))

/-- The tokens from `CONNECT BY` on. -/
def connectTokens (e : HierarchicalExpr) : List Token :=
  clauseTokens (connectWords h.nocycle) e.tokens ++ h.siblingsTokens

/-- The tokens behind the table. -/
def filterTokens (e : HierarchicalExpr) : List Token :=
  optionalTokens ["WHERE".toList] h.whereClause
    ++ (optionalTokens ["START".toList, "WITH".toList] h.startWith ++ h.connectTokens e)

def tokens (e : HierarchicalExpr) : List Token :=
  .word "SELECT".toList :: (.space ' ' :: joinTokens (h.items.map SelectItem.tokens)
    ++ (clauseTokens ["FROM".toList] h.table.tokens ++ h.filterTokens e))

/-- The clauses, each as its tokens. -/
def clauses (e : HierarchicalExpr) : HierarchicalStatement (List Token) where
  columns := h.items.map fun c => trim c.tokens
  table := trim h.table.tokens
  whereClause := h.whereClause.map fun e => trim e.tokens
  startWith := h.startWith.map fun e => trim e.tokens
  nocycle := h.nocycle
  connectBy := trim e.tokens
  siblings := h.siblings.map fun e => trim e.tokens

/-- What the select stands for. -/
def statement (e : HierarchicalExpr) : HierarchicalStatement (List HierarchicalPart) where
  columns := h.items.map SelectItem.parts
  table := h.table.tokens
  whereClause := h.whereClause.map HierarchicalExpr.parts
  startWith := h.startWith.map HierarchicalExpr.parts
  nocycle := h.nocycle
  connectBy := e.parts
  siblings := h.siblings.map HierarchicalExpr.parts

theorem endsClause_siblings : EndsClause h.siblingsTokens := by
  rw [siblingsTokens]
  split
  · exact EndsClause.nil
  · exact EndsClause.clause (by decide) _

theorem endsClause_connect (e : HierarchicalExpr) : EndsClause (h.connectTokens e) :=
  EndsClause.clause (w := "CONNECT".toList) (by decide) _

theorem endsClause_filter (e : HierarchicalExpr) : EndsClause (h.filterTokens e) :=
  endsClause_option _ (by decide) _ (endsClause_option _ (by decide) _ (h.endsClause_connect e))

/-- Behind the words of the clause. -/
theorem siblingsClause_order (ts : List Token) :
    siblingsClause ((wordsTokens orderWords).tail ++ ts)
      = (presentList ts).orElse fun _ => some ([], (wordsTokens orderWords).tail ++ ts) := rfl

theorem siblingsClause_tokens : siblingsClause h.siblingsTokens.tail
    = some (h.siblings.map fun e => trim e.tokens, []) := by
  rw [siblingsTokens]
  cases hs : h.siblings with
  | nil => rfl
  | cons e es =>
    have hread := presentList_tokens (T := HierarchicalExpr.tokens) e es
      (fun e _ => e.sealedAt_tokens) EndsClause.nil
    rw [if_pos fun e _ => e.trim_ne_nil, List.append_nil] at hread
    show siblingsClause ((wordsTokens orderWords).tail
      ++ .space ' ' :: joinTokens ((e :: es).map HierarchicalExpr.tokens)) = _
    rw [siblingsClause_order, hread]
    rfl

theorem nocycleFlag_tokens (e : HierarchicalExpr) (rest : List Token) :
    (keywords ["CONNECT".toList, "BY".toList]
      ((clauseTokens (connectWords h.nocycle) e.tokens ++ rest).tail)).bind
        (fun r => nocycleFlag r.2)
      = some (h.nocycle, .space ' ' :: e.tokens ++ rest) := by
  cases h.nocycle with
  | true => rfl
  | false =>
    show ((keyword "NOCYCLE".toList (.space ' ' :: (e.tokens ++ rest))).bind _).orElse _ = _
    rw [keyword_stop (by decide) e.sealedAt_tokens e.trim_ne_nil]
    rfl

theorem hierarchicalStatement_eq (ts : List Token) :
    hierarchicalStatement ts = (keyword "SELECT".toList ts).bind fun r =>
      (presentList r.2).bind fun columns => (keyword "FROM".toList columns.2).bind fun r =>
      (present r.2).bind fun table =>
      (optionalClause ["WHERE".toList] table.2).bind fun whereClause =>
      (optionalClause ["START".toList, "WITH".toList] whereClause.2).bind fun startWith =>
      (keywords ["CONNECT".toList, "BY".toList] startWith.2).bind fun r =>
      (nocycleFlag r.2).bind fun nocycle => (present nocycle.2).bind fun connectBy =>
      (siblingsClause connectBy.2).bind fun siblings =>
      some (⟨columns.1, table.1, whereClause.1, startWith.1, nocycle.1, connectBy.1, siblings.1⟩,
        siblings.2) := rfl

theorem exists_items : ∃ c cs, h.items = c :: cs := by
  rw [items]
  split <;> exact ⟨_, _, rfl⟩

theorem presentList_items {rest : List Token} (hrest : EndsClause rest) :
    presentList (.space ' ' :: joinTokens (h.items.map SelectItem.tokens) ++ rest)
      = if h.items.all SelectItem.isExpr then
          some (h.items.map fun c => trim c.tokens, rest.tail)
        else none := by
  obtain ⟨c, cs, hitems⟩ := h.exists_items
  have hread := presentList_tokens (T := SelectItem.tokens) c cs
    (fun c _ => c.sealedAt_tokens) hrest
  simp only [SelectItem.trim_tokens_iff] at hread
  simp only [hitems, List.all_eq_true]
  exact hread

theorem whereClause_tokens (e : HierarchicalExpr) :
    optionalClause ["WHERE".toList] (h.filterTokens e).tail
      = some (h.whereClause.map fun e => trim e.tokens,
        (optionalTokens ["START".toList, "WITH".toList] h.startWith
          ++ h.connectTokens e).tail) := by
  have hends := endsClause_option (w := "START".toList) ["WITH".toList] (by decide)
    h.startWith (h.endsClause_connect e)
  apply optionalClause_tokens ⟨by decide, by decide⟩ h.whereClause hends
  cases h.startWith with
  | none => exact ⟨"CONNECT".toList, _, by decide, rfl⟩
  | some e' => exact ⟨"START".toList, _, by decide, rfl⟩

theorem startWith_tokens (e : HierarchicalExpr) :
    optionalClause ["START".toList, "WITH".toList]
        (optionalTokens ["START".toList, "WITH".toList] h.startWith ++ h.connectTokens e).tail
      = some (h.startWith.map fun e => trim e.tokens, (h.connectTokens e).tail) :=
  optionalClause_tokens ⟨by decide, by decide⟩ h.startWith (h.endsClause_connect e)
    ⟨"CONNECT".toList, _, by decide, rfl⟩

/-- **The tokens are read clause by clause**, if no column is blank. -/
theorem hierarchicalStatement_tokens (e : HierarchicalExpr) :
    hierarchicalStatement (h.tokens e)
      = if h.items.all SelectItem.isExpr then some (h.clauses e, []) else none := by
  have hselect := keyword_word (w := "SELECT".toList) (by decide)
  have hcolumns := h.presentList_items (EndsClause.clause (w := "FROM".toList) (by decide)
    (.space ' ' :: h.table.tokens ++ h.filterTokens e))
  have hfrom := keyword_word (w := "FROM".toList) (by decide)
    (.space ' ' :: h.table.tokens ++ h.filterTokens e)
  have htable := present_tokens h.table.sealed_tokens h.table.trim_ne_nil (h.endsClause_filter e)
  have hconnect := present_tokens e.sealedAt_tokens e.trim_ne_nil h.endsClause_siblings
  have hnocycle := h.nocycleFlag_tokens e h.siblingsTokens
  have htokens : h.tokens e = .word "SELECT".toList
      :: (.space ' ' :: joinTokens (h.items.map SelectItem.tokens) ++ .space ' '
        :: .word "FROM".toList :: (.space ' ' :: h.table.tokens ++ h.filterTokens e)) := rfl
  rw [hierarchicalStatement_eq, htokens, hselect, Option.bind_some, hcolumns]
  by_cases hall : h.items.all SelectItem.isExpr = true
  · rw [if_pos hall, if_pos hall, Option.bind_some, List.tail_cons, hfrom, Option.bind_some,
      htable, Option.bind_some, h.whereClause_tokens, Option.bind_some, h.startWith_tokens,
      Option.bind_some, ← Option.bind_assoc]
    show Option.bind (Option.bind _ _) _ = _
    rw [connectTokens, hnocycle, Option.bind_some, hconnect, Option.bind_some,
      h.siblingsClause_tokens]
    rfl
  · rw [if_neg hall, if_neg hall]
    rfl

/-! ### The text -/

theorem lex_optional {s : Str} {ts : List Token} (hs : lex s = some ts) (ws : List Str)
    (hws : Capitals ws) {text : HierarchicalExpr → Str}
    (htext : ∀ e, text e = wordsText ws ++ ' ' :: e.process) (o : Option HierarchicalExpr) :
    lex (s ++ o.elim [] text) = some (ts ++ optionalTokens ws o) := by
  cases o with
  | none =>
    rw [optionalTokens, Option.elim_none, Option.elim_none, List.append_nil, List.append_nil]
    exact hs
  | some e =>
    rw [Option.elim_some, htext]
    exact lex_clause hs ws hws e.lex_process

/-- `CONNECT BY`, with `NOCYCLE` or without it. -/
theorem lex_connect {s t : Str} {ts us : List Token} (hs : lex s = some ts)
    (ht : lex t = some us) (nocycle : Bool) :
    lex (s ++ " CONNECT BY ".toList ++ (if nocycle then "NOCYCLE ".toList else []) ++ t)
      = some (ts ++ clauseTokens (connectWords nocycle) us) := by
  have hflag : " CONNECT BY ".toList ++ (if nocycle then "NOCYCLE ".toList else [])
      = wordsText (connectWords nocycle) ++ [' '] := by
    cases nocycle <;> rfl
  have hwords : Capitals (connectWords nocycle) := by
    cases nocycle <;> exact ⟨by decide, by decide⟩
  rw [List.append_assoc s, hflag, List.append_assoc, List.append_assoc]
  exact lex_clause hs _ hwords ht

def siblingsText : Str :=
  if h.siblings.isEmpty then []
  else " ORDER SIBLINGS BY ".toList
    ++ join ", ".toList (h.siblings.map HierarchicalExpr.process)

theorem lex_siblings {s : Str} {ts : List Token} (hs : lex s = some ts) :
    lex (s ++ h.siblingsText) = some (ts ++ h.siblingsTokens) := by
  rw [siblingsText, siblingsTokens]
  cases h.siblings with
  | nil =>
    rw [List.isEmpty_nil, if_pos rfl, if_pos rfl, List.append_nil, List.append_nil]
    exact hs
  | cons e es =>
    exact lex_clause hs orderWords ⟨by decide, by decide⟩
      (lex_join fun e _ => e.lex_process)

/-- What is printed, when there is a `CONNECT BY`. -/
def text (e : HierarchicalExpr) : Str :=
  "SELECT ".toList ++ join ", ".toList (h.items.map SelectItem.process)
    ++ (" FROM ".toList ++ h.table.text)
    ++ (h.whereClause.elim [] fun e => " WHERE ".toList ++ e.process)
    ++ (h.startWith.elim [] fun e => " START WITH ".toList ++ e.process)
    ++ " CONNECT BY ".toList ++ (if h.nocycle then "NOCYCLE ".toList else []) ++ e.process
    ++ h.siblingsText

theorem visitHierarchicalSelect_eq :
    visitHierarchicalSelect h = h.connectBy.elim (.error .other) fun e => .ok (h.text e) := by
  cases hconnect : h.connectBy with
  | none =>
    rw [visitHierarchicalSelect, hconnect]
    rfl
  | some e =>
    rw [visitHierarchicalSelect, hconnect]
    rfl

theorem lex_text (e : HierarchicalExpr) : lex (h.text e) = some (h.tokens e) := by
  obtain ⟨c, cs, hitems⟩ := h.exists_items
  have hcolumns : lex (join ", ".toList (h.items.map SelectItem.process))
      = some (joinTokens (h.items.map SelectItem.tokens)) := by
    rw [hitems]
    exact lex_join fun c _ => c.lex_process
  have hselect := lex_prefixed (w := "SELECT".toList) (by decide) hcolumns
  have hfrom := lex_clause hselect ["FROM".toList] ⟨by decide, by decide⟩ h.table.lex_text
  have hwhere := lex_optional hfrom ["WHERE".toList] ⟨by decide, by decide⟩
    (fun _ => rfl) h.whereClause
  have hstart := lex_optional hwhere ["START".toList, "WITH".toList]
    ⟨by decide, by decide⟩ (fun _ => rfl) h.startWith
  have hlast := h.lex_siblings (lex_connect hstart e.lex_process h.nocycle)
  have htokens : h.tokens e = .word "SELECT".toList :: .space ' '
        :: joinTokens (h.items.map SelectItem.tokens)
      ++ clauseTokens ["FROM".toList] h.table.tokens
      ++ optionalTokens ["WHERE".toList] h.whereClause
      ++ optionalTokens ["START".toList, "WITH".toList] h.startWith
      ++ clauseTokens (connectWords h.nocycle) e.tokens ++ h.siblingsTokens := by
    rw [tokens, filterTokens, connectTokens]
    simp only [List.append_assoc, List.cons_append]
  rw [htokens]
  exact hlast

theorem mapM_map_of_eq {α β γ : Type} {f : α → β} {read : β → Option γ} {g : α → γ} {l : List α}
    (hl : ∀ a ∈ l, read (f a) = some (g a)) : (l.map f).mapM read = some (l.map g) := by
  induction l with
  | nil => rfl
  | cons a l ih =>
    obtain ⟨ha, hl⟩ := List.forall_mem_cons.mp hl
    rw [List.map_cons, List.mapM_cons, ha, ih hl]
    rfl

/-- **Every expression of the clauses is read as its parts.** -/
theorem readAll_clauses (e : HierarchicalExpr) (hall : h.items.all SelectItem.isExpr = true) :
    (h.clauses e).readAll readParts = some (h.statement e) := by
  have hread (e : HierarchicalExpr) : readParts (trim e.tokens) = some e.parts := by
    rw [e.trim_tokens, e.readParts_tokens]
  have hoption (o : Option HierarchicalExpr) : (o.map fun e => trim e.tokens).mapM readParts
      = some (o.map HierarchicalExpr.parts) := by
    cases o with
    | none => rfl
    | some e =>
      show (readParts (trim e.tokens)).map some = _
      rw [hread]
      rfl
  have hcolumns : (h.items.map fun c => trim c.tokens).mapM readParts
      = some (h.items.map SelectItem.parts) := by
    apply mapM_map_of_eq
    intro c hc
    cases c with
    | expr e => exact hread e
    | table => exact absurd (List.all_eq_true.mp hall _ hc) Bool.false_ne_true
  have hsiblings : (h.siblings.map fun e => trim e.tokens).mapM readParts
      = some (h.siblings.map HierarchicalExpr.parts) :=
    mapM_map_of_eq fun e _ => hread e
  have htable : trim h.table.tokens = h.table.tokens := trim_of_snug h.table.snug_tokens
  show Option.bind ((h.items.map fun c => trim c.tokens).mapM readParts) _ = _
  rw [hcolumns, Option.bind_some]
  show Option.bind ((h.whereClause.map fun e => trim e.tokens).mapM readParts) _ = _
  rw [hoption, Option.bind_some]
  show Option.bind ((h.startWith.map fun e => trim e.tokens).mapM readParts) _ = _
  rw [hoption, Option.bind_some]
  show Option.bind (readParts (trim e.tokens)) _ = _
  rw [hread, Option.bind_some]
  show Option.bind ((h.siblings.map fun e => trim e.tokens).mapM readParts) _ = _
  rw [hsiblings, Option.bind_some]
  show some (HierarchicalStatement.mk _ (trim h.table.tokens) _ _ _ _ _) = _
  rw [htable]
  rfl

theorem parseHierarchical_text (e : HierarchicalExpr) : parseHierarchical (h.text e)
    = if h.items.all SelectItem.isExpr then some (h.statement e) else none := by
  rw [parseHierarchical, h.lex_text, Option.bind_some, h.hierarchicalStatement_tokens]
  by_cases hall : h.items.all SelectItem.isExpr = true
  · rw [if_pos hall, if_pos hall, Option.bind_some]
    exact h.readAll_clauses e hall
  · rw [if_neg hall, if_neg hall]
    rfl

/-- Columns are given, and no table is among them. -/
def HasColumns : Prop := ∃ cs, h.columns = some cs ∧ cs ≠ [] ∧ ∀ c ∈ cs, c.isExpr = true

theorem all_isExpr_iff : h.items.all SelectItem.isExpr = true ↔ h.HasColumns := by
  rw [HasColumns]
  cases hcolumns : h.columns with
  | none => simp [items, hcolumns, SelectItem.isExpr]
  | some cs =>
    cases cs with
    | nil => simp [items, hcolumns, SelectItem.isExpr]
    | cons c cs => simp [items, hcolumns]

/-- **A hierarchical select is read as what it is** exactly when it has a list of
columns with no table in it, and a `CONNECT BY`.  Without a `CONNECT BY` there is an
exception, and what is printed of any other one is no statement. -/
theorem hierarchical_read_iff (h : HierarchicalSelect) :
    ((∃ e, visitHierarchicalSelect h = .error e) ↔ h.connectBy = none) ∧
      ((∃ text st, visitHierarchicalSelect h = .ok text ∧ parseHierarchical text = some st) ↔
        h.HasColumns ∧ h.connectBy ≠ none) ∧
      ∀ text st, visitHierarchicalSelect h = .ok text → parseHierarchical text = some st →
        ∃ e, h.connectBy = some e ∧ st = h.statement e := by
  have herror : (∃ e, visitHierarchicalSelect h = .error e) ↔ h.connectBy = none := by
    rw [visitHierarchicalSelect_eq]
    cases h.connectBy with
    | none => exact iff_of_true ⟨_, rfl⟩ rfl
    | some e => exact iff_of_false (fun ⟨_, he⟩ => nomatch he) fun he => nomatch he
  have hread : ∀ text, visitHierarchicalSelect h = .ok text →
      ∃ e, h.connectBy = some e ∧ parseHierarchical text
        = if h.items.all SelectItem.isExpr then some (h.statement e) else none := by
    intro text htext
    rw [visitHierarchicalSelect_eq] at htext
    cases hconnect : h.connectBy with
    | none =>
      rw [hconnect] at htext
      cases htext
    | some e =>
      rw [hconnect] at htext
      cases htext
      exact ⟨e, rfl, h.parseHierarchical_text e⟩
  refine ⟨herror, ⟨?_, ?_⟩, ?_⟩
  · rintro ⟨text, st, htext, hst⟩
    obtain ⟨e, he, hparse⟩ := hread text htext
    rw [hparse] at hst
    by_cases hall : h.items.all SelectItem.isExpr = true
    · exact ⟨h.all_isExpr_iff.mp hall, by simp [he]⟩
    · rw [if_neg hall] at hst
      cases hst
  · rintro ⟨hcolumns, hconnect⟩
    obtain ⟨e, he⟩ := Option.ne_none_iff_exists'.mp hconnect
    refine ⟨h.text e, h.statement e, ?_, ?_⟩
    · rw [visitHierarchicalSelect_eq, he]
      rfl
    · rw [h.parseHierarchical_text, if_pos (h.all_isExpr_iff.mpr hcolumns)]
  · intro text st htext hst
    obtain ⟨e, he, hparse⟩ := hread text htext
    refine ⟨e, he, ?_⟩
    rw [hparse] at hst
    split at hst
    · exact (Option.some.inj hst).symm
    · cases hst

end HierarchicalSelect

end SqlalchemyCubrid.Compiler
