import SqlalchemyCubrid.Lib.SqlLayout
import SqlalchemyCubrid.Python.Str
import Mathlib.Data.List.Dedup

/-!
# Queries

A query is a `SELECT` or a combination of queries, and the rows of either may be
ordered and cut.  The compiler has words of its own for the combinations, and an
`OFFSET` without a `LIMIT` is printed with a `LIMIT` of 9999999999.  Behind a
`SELECT` may stand `FOR UPDATE`; `FOR SHARE` is not printed.

What a query is for is its rows, `Query.rows`.  A server reads the text with
`parseSelect` and computes the rows of what it has read, `QueryTree.rows`.
-/

namespace SqlalchemyCubrid.Compiler

open Lib Lib.Sql Python

/-! ### Queries -/

/-- The words that end a part of a query. -/
def queryWords : List Str :=
  ["UNION", "DIFFERENCE", "INTERSECTION", "ORDER", "LIMIT", "OFFSET", "FOR"].map String.toList

def stopQuery (t : Token) : Bool := t = .symbol ')' || stopWord queryWords t

/-- The text of a part, which keeps the words that end it in parentheses.  A bound
parameter stands in it under a name of its own. -/
structure QueryPart where
  text : Str
  tokens : List Token
  lex_text : lex text = some tokens
  sealed_tokens : sealedAt stopQuery 0 tokens = true
  trim_tokens : trim tokens ≠ []

/-- A `SELECT`, up to what orders, cuts or locks its rows. -/
structure SelectCore extends QueryPart where
  head_tokens : tokens.head? = some (.word "SELECT".toList)

/-- An item of `FOR UPDATE OF`. -/
structure LockedItem extends QueryPart where
  sealed_item : sealedAt (fun t => stopComma t || stopQuery t) 0 tokens = true

/-- What is done with the rows of a query. -/
structure ResultClauses where
  orderBy : Option QueryPart
  limit : Option QueryPart
  offset : Option QueryPart

structure ForUpdateArg where
  read : Bool
  of : Option (List LockedItem)

/-- `_CompoundSelectKeyword` -/
inductive CompoundSelectKeyword where
  | union
  | unionAll
  | except
  | exceptAll
  | intersect
  | intersectAll
  deriving DecidableEq, Repr

inductive Query where
  | select (core : SelectCore) (clauses : ResultClauses)
  | compound (keyword : CompoundSelectKeyword) (first : Query) (rest : List Query)
    (clauses : ResultClauses)

/-- A query, or a `SELECT` that asks for locks. -/
inductive SelectStatement where
  | query (q : Query)
  | forUpdate (core : SelectCore) (clauses : ResultClauses) (arg : ForUpdateArg)

namespace Query

/-- A `SELECT` whose rows are taken as they come. -/
def isPlain : Query → Bool
  | select _ c => c.orderBy.isNone && c.limit.isNone && c.offset.isNone
  | compound _ _ _ _ => false

section Fold

variable {α : Type} (f : SelectCore → ResultClauses → α)
  (g : CompoundSelectKeyword → Query × α → List (Query × α) → ResultClauses → α)

mutual

/-- What is made of a query, from what is made of its parts. -/
def fold : Query → α
  | select core c => f core c
  | compound k q qs c => g k (q, fold q) (foldAll qs) c

def foldAll : List Query → List (Query × α)
  | [] => []
  | q :: qs => (q, fold q) :: foldAll qs

end

theorem foldAll_eq (qs : List Query) : foldAll f g qs = qs.map fun q => (q, fold f g q) := by
  induction qs with
  | nil => rfl
  | cons q qs ih => rw [foldAll, ih, List.map_cons]

theorem fold_select (core : SelectCore) (c : ResultClauses) :
    fold f g (select core c) = f core c := rfl

theorem fold_compound (k : CompoundSelectKeyword) (q : Query) (qs : List Query)
    (c : ResultClauses) :
    fold f g (compound k q qs c)
      = g k (q, fold f g q) (qs.map fun q => (q, fold f g q)) c := by
  rw [fold, foldAll_eq]

end Fold

/-- Induction on the parts of a query. -/
@[elab_as_elim]
theorem induct {P : Query → Prop} (hselect : ∀ core c, P (select core c))
    (hcompound : ∀ k q qs c, P q → (∀ p ∈ qs, P p) → P (compound k q qs c)) (q : Query) : P q :=
  @Query.rec P (fun qs => ∀ p ∈ qs, P p) hselect hcompound (List.forall_mem_nil _)
    (fun _ _ hq hqs => List.forall_mem_cons.mpr ⟨hq, hqs⟩) q

end Query

/-! ### The printer -/

def compoundKeywords : CompoundSelectKeyword → Str
  | .union => "UNION".toList
  | .unionAll => "UNION ALL".toList
  | .except => "DIFFERENCE".toList
  | .exceptAll => "DIFFERENCE ALL".toList
  | .intersect => "INTERSECTION".toList
  | .intersectAll => "INTERSECTION ALL".toList

def limitClause (limit offset : Option QueryPart) : Str :=
  let text := limit.elim [] fun l => "\n LIMIT ".toList ++ l.text
  match offset with
  | none => text
  | some o =>
    let text := if limit.isNone then text ++ "\n LIMIT 9999999999".toList else text
    text ++ (" OFFSET ".toList ++ o.text)

def forUpdateClause : Option ForUpdateArg → Str
  | none => []
  | some arg =>
    if arg.read then []
    else
      let tmp := " FOR UPDATE".toList
      match arg.of with
      | some (c :: cs) =>
        tmp ++ (" OF ".toList ++ join ", ".toList ((c :: cs).map fun c => c.text))
      | _ => tmp

/-- What stands behind a query. -/
def ResultClauses.text (c : ResultClauses) : Str :=
  (c.orderBy.elim [] fun e => " ORDER BY ".toList ++ e.text) ++ limitClause c.limit c.offset

namespace Query

/-- SQLAlchemy puts parentheses around a part of a combination, unless it is plain. -/
def group (p : Query × Str) : Str := if p.1.isPlain then p.2 else '(' :: (p.2 ++ [')'])

/-- SQLAlchemy's text of a query. -/
def text : Query → Str :=
  fold (fun core c => core.text ++ c.text) fun k q qs c =>
    join (' ' :: (compoundKeywords k ++ [' '])) ((q :: qs).map group) ++ c.text

end Query

def SelectStatement.text : SelectStatement → Str
  | .query q => q.text
  | .forUpdate core c arg => core.text ++ c.text ++ forUpdateClause (some arg)

/-! ### Statements -/

inductive SetOperator where
  | union
  | difference
  | intersection
  deriving DecidableEq, Repr

def SetOperator.word : SetOperator → Str
  | .union => "UNION".toList
  | .difference => "DIFFERENCE".toList
  | .intersection => "INTERSECTION".toList

/-- A combination, of rows or, with `ALL`, of their occurrences. -/
structure SetOperation where
  operator : SetOperator
  all : Bool
  deriving DecidableEq, Repr

/-- What is read of a query. -/
inductive QueryTree where
  | core (ts : List Token)
  | combine (o : SetOperation) (left right : QueryTree)
  | result (q : QueryTree) (orderBy limit offset : Option (List Token))
  deriving DecidableEq, Repr

structure ReadStatement where
  query : QueryTree
  /-- what is locked: all of it, if nothing is named -/
  lock : Option (List (List Token))
  deriving DecidableEq, Repr

def setOperator : Parser SetOperator :=
  next fun t => match t with
    | .word s => [SetOperator.union, .difference, .intersection].find? fun o =>
        o.word = s.map Char.toUpper
    | _ => none

def allFlag : Parser Bool := (do keyword "ALL".toList; return true) <|> pure false

def setOperation : Parser SetOperation := do
  let operator ← setOperator
  let all ← allFlag
  return ⟨operator, all⟩

/-- A query in parentheses, or a `SELECT`. -/
def operand (query : Parser QueryTree) : Parser QueryTree :=
  parens query <|> (do return .core (← someFragment stopQuery))

def furtherOperand (query : Parser QueryTree) : Parser (SetOperation × QueryTree) := do
  let o ← setOperation
  let q ← operand query
  return (o, q)

def optionalPart (ws : List Str) : Parser (Option (List Token)) :=
  (do keywords ws; return some (← someFragment stopQuery)) <|> pure none

/-- An `OFFSET` may only stand behind a `LIMIT`. -/
def limits : Parser (Option (List Token) × Option (List Token)) :=
  (do
    keywords ["LIMIT".toList]
    let l ← someFragment stopQuery
    let o ← optionalPart ["OFFSET".toList]
    return (some l, o))
  <|> pure (none, none)

/-- Combinations go from left to right.  The argument bounds the depth. -/
def queryTree : Nat → Parser QueryTree
  | 0 => fun _ => none
  | n + 1 => do
    let first ← operand (queryTree n)
    let rest ← many (furtherOperand (queryTree n))
    let o ← optionalPart ["ORDER".toList, "BY".toList]
    let l ← limits
    return .result (rest.foldl (fun q r => .combine r.1 q r.2) first) o l.1 l.2

def lockedItems : Parser (List (List Token)) :=
  (do keywords ["OF".toList]; commaList (someFragment fun t => stopComma t || stopQuery t))
  <|> pure []

def locking : Parser (Option (List (List Token))) :=
  (do keywords ["FOR".toList, "UPDATE".toList]; return some (← lockedItems)) <|> pure none

def readStatement (n : Nat) : Parser ReadStatement := do
  let q ← queryTree n
  let l ← locking
  return ⟨q, l⟩

/-- A text that is one statement. -/
def parseSelect (s : Str) : Option ReadStatement :=
  (lex s).bind fun ts => (readStatement (ts.length + 1) ts).bind fun r =>
    if skip r.2 = [] then some r.1 else none

/-! ### Rows -/

/-- The rows of a `SELECT`, its order, and the numbers that expressions are. -/
structure QueryServer (ρ : Type) where
  select : List Token → List ρ
  order : List Token → List ρ → List ρ
  number : List Token → Nat
  number_limit : number [.word "9999999999".toList] = 9999999999

section Rows

variable {ρ : Type} [DecidableEq ρ] (S : QueryServer ρ)

/-- The rows of a combination: those of sets, or those of bags. -/
def SetOperation.rows (o : SetOperation) (l r : List ρ) : List ρ :=
  match o.operator, o.all with
  | .union, false => (l ++ r).dedup
  | .union, true => l ++ r
  | .difference, false => l.dedup.filter (· ∉ r)
  | .difference, true => l.diff r
  | .intersection, false => l.dedup.filter (· ∈ r)
  | .intersection, true => l.bagInter r

/-- Rows from the offset on, and no more than the limit. -/
def window (limit offset : Option Nat) (rs : List ρ) : List ρ :=
  let rest := rs.drop (offset.getD 0)
  limit.elim rest rest.take

def QueryTree.rows : QueryTree → List ρ
  | core ts => S.select ts
  | combine o l r => o.rows l.rows r.rows
  | result q o l f =>
    window (l.map S.number) (f.map S.number) (o.elim q.rows fun e => S.order e q.rows)

/-! ### What queries are for -/

def CompoundSelectKeyword.operation : CompoundSelectKeyword → SetOperation
  | .union => ⟨.union, false⟩
  | .unionAll => ⟨.union, true⟩
  | .except => ⟨.difference, false⟩
  | .exceptAll => ⟨.difference, true⟩
  | .intersect => ⟨.intersection, false⟩
  | .intersectAll => ⟨.intersection, true⟩

/-- The number of a part. -/
def QueryServer.value (e : QueryPart) : Nat := S.number (trim e.tokens)

def ResultClauses.ordered (c : ResultClauses) (rs : List ρ) : List ρ :=
  c.orderBy.elim rs fun e => S.order (trim e.tokens) rs

def ResultClauses.rows (c : ResultClauses) (rs : List ρ) : List ρ :=
  window (c.limit.map S.value) (c.offset.map S.value) (c.ordered S rs)

/-- No more than 9999999999 rows are left behind an offset without a limit. -/
def ResultClauses.Within (c : ResultClauses) (rs : List ρ) : Prop :=
  c.limit = none → ∀ o ∈ c.offset, (c.ordered S rs).length ≤ S.value o + 9999999999

namespace Query

/-- The rows of a query. -/
def rows : Query → List ρ :=
  fold (fun core c => c.rows S (S.select (trim core.tokens))) fun k q qs c =>
    c.rows S (qs.foldl (fun l p => k.operation.rows l p.2) q.2)

/-- In no part of the query too many rows are left. -/
def Within : Query → Prop :=
  fold (fun core c => c.Within S (S.select (trim core.tokens))) fun k q qs c =>
    q.2 ∧ (∀ p ∈ qs, p.2) ∧
      c.Within S (qs.foldl (fun l p => k.operation.rows l (p.1.rows S)) (q.1.rows S))

end Query

end Rows

/-- The query of a statement. -/
def SelectStatement.source : SelectStatement → Query
  | .query q => q
  | .forUpdate core c _ => .select core c

/-- What a statement locks. -/
def SelectStatement.lock : SelectStatement → Option (List (List Token))
  | .query _ => none
  | .forUpdate _ _ arg =>
    if arg.read then none else some ((arg.of.getD []).map fun c => trim c.tokens)

end SqlalchemyCubrid.Compiler
