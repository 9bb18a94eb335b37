import SqlalchemyCubrid.Compiler.Query
import Mathlib.Data.List.TakeDrop

/-!
# Reading queries

`query_preserved` says that the text of a query is read as a query with the same
rows, however deeply queries are combined, when no more rows than 9999999999 are
left behind an `OFFSET` without a `LIMIT`.

The tokens of a text are the `Query.tokens`, and what is read of them is the
`Query.tree`.  `Heads` says what may stand behind a part: `reads_queryTree` reads the
operands and the clauses of one query, and `Query.reads_tokens` is by induction on the
query.
-/

namespace SqlalchemyCubrid.Compiler

open Lib Lib.Sql Python

/-! ### Tokens -/

/-- The limit behind which an offset may stand. -/
def limitPart : QueryPart where
  text := "9999999999".toList
  tokens := [.word "9999999999".toList]
  lex_text := by decide
  sealed_tokens := by decide
  trim_tokens := by decide

namespace ResultClauses

variable (c : ResultClauses)

/-- The limit that is printed. -/
def limited : Option QueryPart := c.limit.orElse fun _ => c.offset.map fun _ => limitPart

def limitTokens : List Token :=
  (c.limited.elim [] fun l => .space '\n' :: clauseTokens ["LIMIT".toList] l.tokens)
    ++ (c.offset.elim [] fun o => clauseTokens ["OFFSET".toList] o.tokens)

def tokens : List Token :=
  (c.orderBy.elim [] fun e => clauseTokens ["ORDER".toList, "BY".toList] e.tokens)
    ++ c.limitTokens

/-- What is read of the clauses behind `q`. -/
def tree (q : QueryTree) : QueryTree :=
  .result q (c.orderBy.map fun e => trim e.tokens) (c.limited.map fun l => trim l.tokens)
    (c.offset.map fun o => trim o.tokens)

theorem offset_of_limited {c : ResultClauses} (h : c.limited = none) : c.offset = none := by
  obtain ⟨o, l, f⟩ := c
  cases l with
  | none => exact Option.map_eq_none_iff.mp h
  | some l => cases h

end ResultClauses

def operationTokens (o : SetOperation) : List Token :=
  .word o.operator.word :: if o.all then [.space ' ', .word "ALL".toList] else []

namespace Query

def groupTokens (p : Query × List Token) : List Token :=
  if p.1.isPlain then p.2 else .symbol '(' :: (p.2 ++ [.symbol ')'])

/-- The tokens of a further operand. -/
def operandTokens (k : CompoundSelectKeyword) (p : Query × List Token) : List Token :=
  .space ' ' :: (operationTokens k.operation ++ .space ' ' :: groupTokens p)

def tokens : Query → List Token :=
  fold (fun core c => core.tokens ++ c.tokens) fun k q qs c =>
    groupTokens q ++ qs.flatMap (operandTokens k) ++ c.tokens

/-- A plain part is read as a `SELECT`, another one as what is in the parentheses. -/
def groupTree (p : Query × QueryTree) : QueryTree :=
  match p.1 with
  | select core _ => if p.1.isPlain then .core (trim core.tokens) else p.2
  | compound _ _ _ _ => p.2

/-- What is read of a query. -/
def tree : Query → QueryTree :=
  fold (fun core c => c.tree (.core (trim core.tokens))) fun k q qs c =>
    c.tree (qs.foldl (fun l p => .combine k.operation l (groupTree p)) (groupTree q))

theorem groupTree_of_not_plain {q : Query} (h : q.isPlain = false) :
    groupTree (q, q.tree) = q.tree := by
  cases q with
  | compound k q qs c => rfl
  | select core c => exact if_neg (by simp [h])

theorem groupTree_of_plain {core : SelectCore} {c : ResultClauses}
    (h : (select core c).isPlain = true) (t : QueryTree) :
    groupTree (select core c, t) = .core (trim core.tokens) := if_pos h

theorem clauses_of_plain {core : SelectCore} {c : ResultClauses}
    (h : (select core c).isPlain = true) :
    c.orderBy = none ∧ c.limited = none ∧ c.offset = none := by
  obtain ⟨o, l, f⟩ := c
  have hnone : o = none ∧ l = none ∧ f = none := by simpa [isPlain, and_assoc] using h
  obtain ⟨rfl, rfl, rfl⟩ := hnone
  exact ⟨rfl, rfl, rfl⟩

end Query

/-! ### The text and its tokens -/

section Lex

variable {s : Str} {ts : List Token}

theorem lex_optionalPart (hs : lex s = some ts) (ws : List Str) (hws : Capitals ws)
    (o : Option QueryPart) :
    lex (s ++ o.elim [] fun e => wordsText ws ++ ' ' :: e.text)
      = some (ts ++ o.elim [] fun e => clauseTokens ws e.tokens) := by
  cases o with
  | none =>
    rw [Option.elim_none, Option.elim_none, List.append_nil, List.append_nil]
    exact hs
  | some e => exact lex_clause hs ws hws e.lex_text

/-- The limit that is printed, and the offset. -/
theorem limitClause_eq (c : ResultClauses) :
    limitClause c.limit c.offset
      = (c.limited.elim [] fun l => '\n' :: (wordsText ["LIMIT".toList] ++ ' ' :: l.text))
        ++ (c.offset.elim [] fun o => wordsText ["OFFSET".toList] ++ ' ' :: o.text) := by
  obtain ⟨o, l, f⟩ := c
  cases f with
  | none =>
    cases l with
    | none => rfl
    | some l => exact (List.append_nil _).symm
  | some f => cases l <;> rfl

theorem ResultClauses.lex_text (c : ResultClauses) (hs : lex s = some ts) :
    lex (s ++ c.text) = some (ts ++ c.tokens) := by
  have horder := lex_optionalPart hs ["ORDER".toList, "BY".toList] ⟨by decide, by decide⟩
    c.orderBy
  have hlimit : ∀ {s : Str} {ts : List Token}, lex s = some ts →
      lex (s ++ c.limited.elim [] fun l => '\n' :: (wordsText ["LIMIT".toList] ++ ' ' :: l.text))
        = some (ts ++ c.limited.elim [] fun l =>
            .space '\n' :: clauseTokens ["LIMIT".toList] l.tokens) := by
    intro s ts hs
    cases c.limited with
    | none =>
      rw [Option.elim_none, Option.elim_none, List.append_nil, List.append_nil]
      exact hs
    | some l =>
      have hgap := lex_append_gap (g := ['\n']) (by decide) hs
      have hclause := lex_clause hgap ["LIMIT".toList] ⟨by decide, by decide⟩ l.lex_text
      rw [List.append_assoc, List.append_assoc] at hclause
      exact hclause
  have hoffset := lex_optionalPart (hlimit horder) ["OFFSET".toList] ⟨by decide, by decide⟩
    c.offset
  rw [ResultClauses.text, limitClause_eq, ResultClauses.tokens, ResultClauses.limitTokens]
  simp only [List.append_assoc] at hoffset
  exact hoffset

theorem lex_compoundKeywords (k : CompoundSelectKeyword) :
    lex (compoundKeywords k) = some (operationTokens k.operation) := by
  cases k <;> decide

end Lex

namespace Query

theorem lex_group {q : Query} (h : lex q.text = some q.tokens) :
    lex (group (q, q.text)) = some (groupTokens (q, q.tokens)) := by
  rw [group, groupTokens]
  cases q.isPlain with
  | true => exact h
  | false => exact lex_cons rfl (lex_append h rfl rfl)

theorem text_compound (k : CompoundSelectKeyword) (q : Query) (qs : List Query)
    (c : ResultClauses) :
    (compound k q qs c).text
      = group (q, q.text)
        ++ qs.flatMap (fun p => ' ' :: (compoundKeywords k ++ ' ' :: group (p, p.text)))
        ++ c.text := by
  rw [text, fold_compound, List.map_cons, List.map_map, join_cons, List.flatMap_map]
  simp

theorem tokens_compound (k : CompoundSelectKeyword) (q : Query) (qs : List Query)
    (c : ResultClauses) :
    (compound k q qs c).tokens
      = groupTokens (q, q.tokens)
        ++ qs.flatMap (fun p => operandTokens k (p, p.tokens)) ++ c.tokens := by
  rw [tokens, fold_compound, List.flatMap_map]

/-- **A text has the tokens of the query.** -/
theorem lex_text (q : Query) : lex q.text = some q.tokens := by
  induction q using Query.induct with
  | hselect core c => exact c.lex_text core.lex_text
  | hcompound k q qs c hq hqs =>
    have hoperands : ∀ {s : Str} {ts : List Token}, lex s = some ts →
        lex (s ++ qs.flatMap fun p => ' ' :: (compoundKeywords k ++ ' ' :: group (p, p.text)))
          = some (ts ++ qs.flatMap fun p => operandTokens k (p, p.tokens)) := by
      induction qs with
      | nil =>
        intro s ts hs
        rw [List.flatMap_nil, List.flatMap_nil, List.append_nil, List.append_nil]
        exact hs
      | cons p qs ih =>
        intro s ts hs
        obtain ⟨hp, hqs⟩ := List.forall_mem_cons.mp hqs
        have hfirst := lex_append hs (c := ' ') rfl
          (lex_append (lex_compoundKeywords k) (c := ' ') rfl (lex_group hp))
        have hrest := ih hqs hfirst
        rw [List.append_assoc, List.append_assoc] at hrest
        exact hrest
    rw [text_compound, tokens_compound]
    exact c.lex_text (hoperands (lex_group hq))

end Query

/-! ### What comes next -/

section Ends

variable {rest : List Token}

/-- What may stand behind a query. -/
def finish : List Token := [.symbol ')', .word "FOR".toList]

/-- What may stand behind the operands of a query. -/
def clauseHeads : List Token := .word "ORDER".toList :: .word "LIMIT".toList :: finish

/-- What may stand behind a part of a query. -/
def partHeads : List Token := .symbol ')' :: queryWords.map .word

theorem finish_clauseHeads : ∀ t ∈ finish, t ∈ clauseHeads := by decide

theorem clauseHeads_partHeads : ∀ t ∈ clauseHeads, t ∈ partHeads := by decide

theorem stops_partHeads (h : Heads partHeads rest) : Stops stopQuery (skip rest) := by
  have hall : ∀ t ∈ partHeads, stopQuery t = true := by decide
  exact h.stops hall

theorem isBlank_stopQuery {t : Token} (h : isBlank t) : stopQuery t = false := by
  cases t with
  | word s => cases h
  | quoted q s => cases h
  | symbol c => cases h
  | space c => rfl
  | comment s => rfl

namespace ResultClauses

variable (c : ResultClauses)

theorem heads_limitTokens (h : Heads finish rest) :
    Heads (.word "LIMIT".toList :: finish) (c.limitTokens ++ rest) := by
  rw [limitTokens]
  cases hlimited : c.limited with
  | none =>
    rw [offset_of_limited hlimited]
    exact h.mono fun t ht => List.mem_cons_of_mem _ ht
  | some l =>
    exact Heads.blanks (b := [.space '\n', .space ' ']) (heads_cons rfl List.mem_cons_self)
      (by decide)

theorem heads_tokens (h : Heads finish rest) : Heads clauseHeads (c.tokens ++ rest) := by
  rw [tokens]
  cases c.orderBy with
  | none => exact (c.heads_limitTokens h).mono fun t ht => List.mem_cons_of_mem _ ht
  | some e =>
    exact Heads.blanks (b := [.space ' ']) (heads_cons rfl List.mem_cons_self) (by decide)

end ResultClauses

end Ends

/-! ### Reading the clauses -/

section Clauses

variable {rest : List Token}

theorem layoutFree_queryPart : LayoutFree (someFragment stopQuery) :=
  layoutFree_someFragment fun _ => isBlank_stopQuery

theorem reads_queryPart (e : QueryPart) (h : Heads partHeads rest) :
    Reads (someFragment stopQuery) (e.tokens ++ rest) (trim e.tokens) rest :=
  reads_someFragment (fun _ => isBlank_stopQuery) e.sealed_tokens e.trim_tokens
    (stops_partHeads h)

theorem layoutFree_optionalPart (ws : List Str) : LayoutFree (optionalPart ws) :=
  LayoutFree.orElse ((layoutFree_keywords ws).bind fun _ => layoutFree_queryPart.bind fun _ =>
    layoutFree_pure _) (layoutFree_pure none)

/-- **A clause is read**, if it is there. -/
theorem reads_optionalPart {w : Str} {ws : List Str} (hws : Capitals (w :: ws))
    (o : Option QueryPart) (h : Heads partHeads rest) (hword : keyword w rest = none) :
    Reads (optionalPart (w :: ws))
      ((o.elim [] fun e => clauseTokens (w :: ws) e.tokens) ++ rest)
      (o.map fun e => trim e.tokens) rest := by
  cases o with
  | none => exact Reads.right (bind_eq_none (bind_eq_none hword)) (reads_pure none rest)
  | some e =>
    have hpart := (reads_queryPart e h).space layoutFree_queryPart ' '
    have hread := (reads_keywords hws _).andThen
      (layoutFree_queryPart.bind fun _ => layoutFree_pure _) (hpart.map some)
    rw [Option.elim_some, clauseTokens, List.append_assoc]
    exact hread.left _

theorem layoutFree_limits : LayoutFree limits :=
  LayoutFree.orElse ((layoutFree_keywords _).bind fun _ => layoutFree_queryPart.bind fun _ =>
    (layoutFree_optionalPart _).bind fun _ => layoutFree_pure _) (layoutFree_pure _)

/-- **The limit and the offset are read.** -/
theorem reads_limits (c : ResultClauses) (h : Heads finish rest) :
    Reads limits (c.limitTokens ++ rest)
      (c.limited.map fun l => trim l.tokens, c.offset.map fun o => trim o.tokens) rest := by
  rw [ResultClauses.limitTokens]
  cases hlimited : c.limited with
  | none =>
    have hword : keyword "LIMIT".toList rest = none := h.next_eq_none (by decide)
    rw [ResultClauses.offset_of_limited hlimited]
    exact Reads.right (bind_eq_none (bind_eq_none hword)) (reads_pure _ rest)
  | some l =>
    have hparts : Heads partHeads rest :=
      h.mono fun t ht => clauseHeads_partHeads t (finish_clauseHeads t ht)
    have hcapitals : Capitals ["OFFSET".toList] := ⟨by decide, by decide⟩
    have hoffset := reads_optionalPart hcapitals c.offset hparts (h.next_eq_none (by decide))
    have hmid : Heads partHeads ((c.offset.elim [] fun o =>
        clauseTokens ["OFFSET".toList] o.tokens) ++ rest) := by
      cases c.offset with
      | none => exact hparts
      | some o =>
        exact Heads.blanks (b := [.space ' ']) (heads_cons rfl (by decide)) (by decide)
    have hlimit := (reads_queryPart l hmid).space layoutFree_queryPart ' '
    have hwords : Capitals ["LIMIT".toList] := ⟨by decide, by decide⟩
    let both (t : List Token) : Parser (Option (List Token) × Option (List Token)) := do
      let o ← optionalPart ["OFFSET".toList]
      return (some t, o)
    have hfree (t : List Token) : LayoutFree (both t) :=
      (layoutFree_optionalPart _).bind fun _ => layoutFree_pure _
    have hboth := hlimit.bind (f := both) (hfree _) (hoffset.map fun o => (some (trim l.tokens), o))
    have hread := (reads_keywords hwords _).andThen (layoutFree_queryPart.bind hfree) hboth
    have hspace := (hread.left (pure (none, none))).space layoutFree_limits '\n'
    rw [Option.elim_some, clauseTokens]
    simp only [List.cons_append, List.append_assoc]
    exact hspace

end Clauses

/-! ### Reading the operands -/

section Operands

variable {rest : List Token}

theorem layoutFree_setOperation : LayoutFree setOperation :=
  (layoutFree_next _).bind fun _ => (LayoutFree.orElse ((layoutFree_keyword _).bind fun _ =>
    layoutFree_pure true) (layoutFree_pure false)).bind fun _ => layoutFree_pure _

theorem reads_setOperation (o : SetOperation) (h : keyword "ALL".toList rest = none) :
    Reads setOperation (operationTokens o ++ rest) o rest := by
  obtain ⟨operator, all⟩ := o
  have hfree : LayoutFree allFlag :=
    LayoutFree.orElse ((layoutFree_keyword _).bind fun _ => layoutFree_pure true)
      (layoutFree_pure false)
  have hoperator : ∀ ts, Reads setOperator (.word operator.word :: ts) operator ts := by
    intro ts
    apply reads_next _ rfl
    cases operator <;> decide
  have hall : Reads allFlag ((if all then [.space ' ', .word "ALL".toList] else []) ++ rest)
      all rest := by
    cases all with
    | false => exact Reads.right (bind_eq_none h) (reads_pure false rest)
    | true =>
      have hword := (reads_keyword (w := "ALL".toList) (by decide) rest).map fun _ => true
      exact (hword.left _).space hfree ' '
  exact (hoperator _).bind (hfree.bind fun _ => layoutFree_pure _)
    (hall.map fun a => (⟨operator, a⟩ : SetOperation))

theorem SelectCore.exists_tokens (core : SelectCore) :
    ∃ ts, core.tokens = .word "SELECT".toList :: ts :=
  ⟨_, (List.cons_head?_tail core.head_tokens).symm⟩

namespace Query

/-- A `SELECT` stands there, or a parenthesis is opened. -/
theorem heads_group (q : Query) :
    Heads [.symbol '(', .word "SELECT".toList] (groupTokens (q, q.tokens) ++ rest) := by
  cases hplain : q.isPlain with
  | false =>
    rw [groupTokens, if_neg (by simp [hplain])]
    exact heads_cons rfl List.mem_cons_self
  | true =>
    rw [groupTokens, if_pos hplain]
    cases q with
    | compound k q qs c => cases hplain
    | select core c =>
      obtain ⟨ts, hts⟩ := core.exists_tokens
      have htokens : (select core c).tokens ++ rest
          = .word "SELECT".toList :: (ts ++ (c.tokens ++ rest)) := by
        show core.tokens ++ c.tokens ++ rest = _
        rw [hts, List.append_assoc]
        rfl
      show Heads _ ((select core c).tokens ++ rest)
      rw [htokens]
      exact heads_cons rfl (by decide)

end Query

theorem layoutFree_operand {p : Parser QueryTree} (hp : LayoutFree p) : LayoutFree (operand p) :=
  hp.parens.orElse (layoutFree_queryPart.bind fun _ => layoutFree_pure _)

/-- A `SELECT` opens no parenthesis. -/
theorem reads_core (p : Parser QueryTree) (core : SelectCore) (h : Heads partHeads rest) :
    Reads (operand p) (core.tokens ++ rest) (.core (trim core.tokens)) rest := by
  refine Reads.right ?_ ((reads_queryPart core.toQueryPart h).map QueryTree.core)
  obtain ⟨ts, hts⟩ := core.exists_tokens
  rw [hts]
  exact bind_eq_none (symbol_eq_none rfl (by decide))

/-- **An operand is read**, with or without parentheses. -/
theorem reads_operand {p : Parser QueryTree} (hp : LayoutFree p) (q : Query)
    (hread : q.isPlain = false →
      ∀ rest, Heads finish rest → Reads p (q.tokens ++ rest) q.tree rest)
    (h : Heads partHeads rest) :
    Reads (operand p) (Query.groupTokens (q, q.tokens) ++ rest) (Query.groupTree (q, q.tree))
      rest := by
  cases hplain : q.isPlain with
  | false =>
    have hclose := hread hplain (.symbol ')' :: rest) (heads_cons rfl List.mem_cons_self)
    have hparens := (reads_parens hp hclose rfl).left
      (do return .core (← someFragment stopQuery))
    rw [Query.groupTokens, if_neg (by simp [hplain]), Query.groupTree_of_not_plain hplain]
    simp only [List.cons_append, List.append_assoc, List.nil_append]
    exact hparens
  | true =>
    have hhead : Heads _ (Query.groupTokens (q, q.tokens) ++ rest) := q.heads_group
    rw [Query.groupTokens, if_pos hplain] at hhead ⊢
    cases q with
    | compound k q qs c => cases hplain
    | select core c =>
      obtain ⟨horder, hlimit, hoffset⟩ := Query.clauses_of_plain hplain
      have htokens : (Query.select core c).tokens = core.tokens := by
        show core.tokens ++ c.tokens = _
        rw [ResultClauses.tokens, ResultClauses.limitTokens, horder, hlimit, hoffset]
        exact List.append_nil _
      show Reads (operand p) ((Query.select core c).tokens ++ rest) _ rest
      rw [Query.groupTree_of_plain hplain, htokens]
      exact reads_core p core h

theorem layoutFree_furtherOperand {p : Parser QueryTree} (hp : LayoutFree p) :
    LayoutFree (furtherOperand p) :=
  layoutFree_setOperation.bind fun _ => (layoutFree_operand hp).bind fun _ => layoutFree_pure _

/-- **A further operand is read**, with its operation. -/
theorem reads_furtherOperand {p : Parser QueryTree} (hp : LayoutFree p)
    (k : CompoundSelectKeyword) (q : Query)
    (hread : q.isPlain = false →
      ∀ rest, Heads finish rest → Reads p (q.tokens ++ rest) q.tree rest)
    (h : Heads partHeads rest) :
    Reads (furtherOperand p) (Query.operandTokens k (q, q.tokens) ++ rest)
      (k.operation, Query.groupTree (q, q.tree)) rest := by
  have hoperand := reads_operand hp q hread h
  have hhead : Heads [.symbol '(', .word "SELECT".toList]
      (.space ' ' :: (Query.groupTokens (q, q.tokens) ++ rest)) :=
    Heads.blanks (b := [.space ' ']) q.heads_group (by decide)
  have hoperation := reads_setOperation k.operation (hhead.next_eq_none (by decide))
  have hboth := hoperation.bind
    (f := fun o => do let q ← operand p; return (o, q))
    ((layoutFree_operand hp).bind fun _ => layoutFree_pure _)
    ((hoperand.space (layoutFree_operand hp) ' ').map fun q => (k.operation, q))
  rw [Query.operandTokens]
  simp only [List.cons_append, List.append_assoc]
  exact hboth.space (layoutFree_furtherOperand hp) ' '

end Operands

/-! ### Reading queries -/

theorem layoutFree_queryTree (n : Nat) : LayoutFree (queryTree n) := by
  induction n with
  | zero => exact fun _ => rfl
  | succ n ih =>
    exact (layoutFree_operand ih).bind fun _ => (layoutFree_furtherOperand ih).many.bind fun _ =>
      (layoutFree_optionalPart _).bind fun _ => layoutFree_limits.bind fun _ => layoutFree_pure _

/-- **The operands and the clauses of a query are read.** -/
theorem reads_queryTree {n : Nat} {first : List Token} {tree : QueryTree}
    (k : CompoundSelectKeyword) (ps : List Query) (c : ResultClauses) {rest : List Token}
    (h : Heads finish rest)
    (hfirst : ∀ rest, Heads partHeads rest →
      Reads (operand (queryTree n)) (first ++ rest) tree rest)
    (hrest : ∀ p ∈ ps, ∀ rest, Heads partHeads rest →
      Reads (furtherOperand (queryTree n)) (Query.operandTokens k (p, p.tokens) ++ rest)
        (k.operation, Query.groupTree (p, p.tree)) rest) :
    Reads (queryTree (n + 1))
      (first ++ (ps.flatMap (fun p => Query.operandTokens k (p, p.tokens))
        ++ (c.tokens ++ rest)))
      (c.tree ((ps.map fun p => (k.operation, Query.groupTree (p, p.tree))).foldl
        (fun q r => .combine r.1 q r.2) tree)) rest := by
  have hfree := layoutFree_queryTree n
  have hclauses := c.heads_tokens h
  have hparts : Heads partHeads (c.tokens ++ rest) := hclauses.mono clauseHeads_partHeads
  have hstop : furtherOperand (queryTree n) (c.tokens ++ rest) = none :=
    bind_eq_none (bind_eq_none (hclauses.next_eq_none (by decide)))
  have hends : ∀ p ∈ ps, ∀ rest,
      Heads partHeads (Query.operandTokens k (p, p.tokens) ++ rest) := by
    intro p _ rest
    refine Heads.blanks (b := [.space ' ']) (heads_cons rfl ?_) (by decide)
    cases k <;> decide
  have hmany := reads_many (layoutFree_furtherOperand hfree) hparts hstop ps hrest hends
    fun p _ => List.countP_pos_iff.mpr
      ⟨.word k.operation.operator.word, by simp [Query.operandTokens, operationTokens], rfl⟩
  have hmid : Heads partHeads (ps.flatMap (fun p => Query.operandTokens k (p, p.tokens))
      ++ (c.tokens ++ rest)) := by
    cases ps with
    | nil => exact hparts
    | cons p ps =>
      rw [List.flatMap_cons, List.append_assoc]
      exact hends p List.mem_cons_self _
  have hcapitals : Capitals ["ORDER".toList, "BY".toList] := ⟨by decide, by decide⟩
  have hlimit := c.heads_limitTokens h
  have horder := reads_optionalPart hcapitals c.orderBy
    (hlimit.mono fun t ht => clauseHeads_partHeads t (List.mem_cons_of_mem _ ht))
    (hlimit.next_eq_none (by decide))
  rw [← List.append_assoc, ← ResultClauses.tokens] at horder
  let result (q : QueryTree) (o : Option (List Token)) : Parser QueryTree := do
    let l ← limits
    return .result q o l.1 l.2
  let ordered (q : QueryTree) : Parser QueryTree := do
    let o ← optionalPart ["ORDER".toList, "BY".toList]
    result q o
  let combined (q : QueryTree) : Parser QueryTree := do
    let r ← many (furtherOperand (queryTree n))
    ordered (r.foldl (fun q r => .combine r.1 q r.2) q)
  have hresult (q : QueryTree) (o : Option (List Token)) : LayoutFree (result q o) :=
    layoutFree_limits.bind fun _ => layoutFree_pure _
  have hordered (q : QueryTree) : LayoutFree (ordered q) :=
    (layoutFree_optionalPart _).bind (hresult q)
  have hcombined (q : QueryTree) : LayoutFree (combined q) :=
    (layoutFree_furtherOperand hfree).many.bind fun _ => hordered _
  have hclause (q : QueryTree) : Reads (ordered q) (c.tokens ++ rest) (c.tree q) rest :=
    horder.bind (f := result q) (hresult q _)
      ((reads_limits c h).map fun l =>
        QueryTree.result q (c.orderBy.map fun e => trim e.tokens) l.1 l.2)
  exact (hfirst _ hmid).bind (f := combined) (hcombined _)
    (hmany.bind (f := fun r => ordered (r.foldl (fun q r => .combine r.1 q r.2) tree))
      (hordered _) (hclause _))

namespace Query

theorem length_group (q : Query) :
    q.tokens.length + (if q.isPlain then 0 else 2) = (groupTokens (q, q.tokens)).length := by
  rw [groupTokens]
  cases q.isPlain <;> simp

theorem tree_compound (k : CompoundSelectKeyword) (q : Query) (qs : List Query)
    (c : ResultClauses) :
    (compound k q qs c).tree
      = c.tree ((qs.map fun p => (k.operation, groupTree (p, p.tree))).foldl
        (fun q r => .combine r.1 q r.2) (groupTree (q, q.tree))) := by
  rw [tree, fold_compound, List.foldl_map, List.foldl_map]

/-- **A query is read as what it is**, in front of what may stand behind it. -/
theorem reads_tokens (q : Query) :
    ∀ n, q.tokens.length < n → ∀ rest, Heads finish rest →
      Reads (queryTree n) (q.tokens ++ rest) q.tree rest := by
  induction q using Query.induct with
  | hselect core c =>
    intro n hn rest h
    obtain ⟨m, rfl⟩ := Nat.exists_eq_add_one_of_ne_zero (Nat.ne_zero_of_lt hn)
    have hread := reads_queryTree (n := m) .union [] c h (fun rest h => reads_core _ core h)
      (fun p hp => absurd hp List.not_mem_nil)
    show Reads _ (core.tokens ++ c.tokens ++ rest) _ rest
    rw [List.append_assoc]
    exact hread
  | hcompound k q qs c hq hqs =>
    intro n hn rest h
    obtain ⟨m, rfl⟩ := Nat.exists_eq_add_one_of_ne_zero (Nat.ne_zero_of_lt hn)
    rw [tokens_compound, List.length_append, List.length_append] at hn
    have hfirst : q.isPlain = false → q.tokens.length < m := by
      intro hplain
      have hlength := q.length_group
      rw [if_neg (by simp [hplain])] at hlength
      omega
    have hothers : ∀ p ∈ qs, p.isPlain = false → p.tokens.length < m := by
      intro p hp hplain
      have hlength := p.length_group
      have hmem : (operandTokens k (p, p.tokens)).length
          ≤ (qs.flatMap fun p => operandTokens k (p, p.tokens)).length := by
        rw [List.flatMap_def]
        apply List.Sublist.length_le
        exact List.sublist_flatten_of_mem (List.mem_map.mpr ⟨p, hp, rfl⟩)
      rw [if_neg (by simp [hplain])] at hlength
      rw [operandTokens, List.length_cons, List.length_append, List.length_cons] at hmem
      omega
    rw [tokens_compound, tree_compound, List.append_assoc, List.append_assoc]
    exact reads_queryTree k qs c h
      (fun rest hrest => reads_operand (layoutFree_queryTree m) q
        (fun hplain => hq m (hfirst hplain)) hrest)
      (fun p hp rest hrest => reads_furtherOperand (layoutFree_queryTree m) k p
        (fun hplain => hqs p hp m (hothers p hp hplain)) hrest)

end Query

/-! ### Reading locks -/

/-- The tokens of `FOR UPDATE`. -/
def lockTokens (arg : ForUpdateArg) : List Token :=
  if arg.read then []
  else
    wordsTokens ["FOR".toList, "UPDATE".toList]
      ++ match arg.of with
        | some (c :: cs) => clauseTokens ["OF".toList]
            (separated (gapTokens [' ']) ((c :: cs).map fun c => c.tokens))
        | _ => []

theorem lex_forUpdateClause (arg : ForUpdateArg) {s : Str} {ts : List Token}
    (hs : lex s = some ts) :
    lex (s ++ forUpdateClause (some arg)) = some (ts ++ lockTokens arg) := by
  rw [forUpdateClause, lockTokens]
  cases arg.read with
  | true =>
    rw [if_pos rfl, if_pos rfl, List.append_nil, List.append_nil]
    exact hs
  | false =>
    have hwords : Capitals ["FOR".toList, "UPDATE".toList] := ⟨by decide, by decide⟩
    have hlock := lex_words hs hwords
    rw [if_neg Bool.false_ne_true, if_neg Bool.false_ne_true]
    match arg.of with
    | none =>
      rw [List.append_nil]
      exact hlock
    | some [] =>
      rw [List.append_nil]
      exact hlock
    | some (c :: cs) =>
      have hitems := lex_separated (g := [' ']) (by decide) (c :: cs) fun c _ => c.lex_text
      have hof := lex_clause hlock ["OF".toList] ⟨by decide, by decide⟩ hitems
      rw [List.append_assoc, List.append_assoc] at hof
      exact hof

theorem isBlank_stopItem {t : Token} (h : isBlank t) : (stopComma t || stopQuery t) = false := by
  have hcomma : stopComma t = false := by
    cases t with
    | symbol c => cases h
    | _ => rfl
  rw [hcomma, isBlank_stopQuery h]
  rfl

theorem layoutFree_lockedItems : LayoutFree lockedItems :=
  LayoutFree.orElse ((layoutFree_keywords _).bind fun _ =>
    (layoutFree_someFragment fun _ => isBlank_stopItem).commaList) (layoutFree_pure _)

/-- The items of `FOR UPDATE OF`, which may be missing. -/
theorem reads_lockedItems (items : Option (List LockedItem)) :
    Reads lockedItems
      (match items with
        | some (c :: cs) => clauseTokens ["OF".toList]
            (separated (gapTokens [' ']) ((c :: cs).map fun c => c.tokens))
        | _ => [])
      ((items.getD []).map fun c => trim c.tokens) [] := by
  have hnothing : Reads lockedItems [] [] [] := by
    have hword : keyword "OF".toList [] = none := rfl
    exact Reads.right (bind_eq_none (bind_eq_none hword)) (reads_pure [] [])
  match items with
  | none => exact hnothing
  | some [] => exact hnothing
  | some (c :: cs) =>
    have hfree := layoutFree_someFragment fun _ => isBlank_stopItem
    have hwords : Capitals ["OF".toList] := ⟨by decide, by decide⟩
    have hstops : ∀ t ∈ [Token.symbol ','], (stopComma t || stopQuery t) = true := by decide
    have hitem : ∀ d ∈ c :: cs, ∀ rest, Heads [.symbol ','] rest →
        Reads (someFragment fun t => stopComma t || stopQuery t) (d.tokens ++ rest)
          (trim d.tokens) rest :=
      fun d _ rest hrest => reads_someFragment (fun _ => isBlank_stopItem) d.sealed_item
        d.trim_tokens (hrest.stops hstops)
    have hlist := reads_commaList hfree (gapTokens [' ']) (isBlank_gapTokens _) c cs hitem
      (fun _ => heads_cons rfl List.mem_cons_self) heads_nil rfl
    rw [List.append_nil] at hlist
    exact ((reads_keywords hwords _).andThen hfree.commaList
      (hlist.space hfree.commaList ' ')).left _

theorem layoutFree_locking : LayoutFree locking :=
  LayoutFree.orElse ((layoutFree_keywords _).bind fun _ => layoutFree_lockedItems.bind fun _ =>
    layoutFree_pure _) (layoutFree_pure none)

theorem reads_noLock : Reads locking [] none [] := by
  have hword : keyword "FOR".toList [] = none := rfl
  exact Reads.right (bind_eq_none (bind_eq_none hword)) (reads_pure none [])

/-- **What is locked is read**; `FOR SHARE` locks nothing. -/
theorem reads_locking (arg : ForUpdateArg) :
    Reads locking (lockTokens arg)
      (if arg.read then none else some ((arg.of.getD []).map fun c => trim c.tokens)) [] := by
  rw [lockTokens]
  cases arg.read with
  | true => exact reads_noLock
  | false =>
    have hwords : Capitals ["FOR".toList, "UPDATE".toList] := ⟨by decide, by decide⟩
    have hread := (reads_keywords hwords _).andThen
      (layoutFree_lockedItems.bind fun _ => layoutFree_pure _)
      ((reads_lockedItems arg.of).map some)
    exact hread.left _

/-- The lock stands behind the query. -/
theorem heads_lockTokens (arg : ForUpdateArg) : Heads finish (lockTokens arg) := by
  rw [lockTokens]
  cases arg.read with
  | true => exact heads_nil
  | false => exact Heads.blanks (b := [.space ' ']) (heads_cons rfl (by decide)) (by decide)

/-! ### Reading statements -/

namespace SelectStatement

/-- What is read of a statement. -/
theorem parseSelect_text (s : SelectStatement) :
    parseSelect s.text = some ⟨s.source.tree, s.lock⟩ := by
  have hparse : ∀ {text : Str} {q : Query} {ts : List Token} {lock : Option (List (List Token))},
      lex text = some (q.tokens ++ ts) → Heads finish ts → Reads locking ts lock [] →
      parseSelect text = some ⟨q.tree, lock⟩ := by
    intro text q ts lock hlex hends hlock
    have hquery := q.reads_tokens ((q.tokens ++ ts).length + 1)
      (by rw [List.length_append]; omega) ts hends
    have hread := hquery.bind (f := fun q => do let l ← locking; return ReadStatement.mk q l)
      (layoutFree_locking.bind fun _ => layoutFree_pure _)
      (hlock.map fun l => ReadStatement.mk q.tree l)
    obtain ⟨r, hr, hskip⟩ := hread.exists_rest
    rw [parseSelect, hlex, Option.bind_some]
    show ((readStatement _ _).bind _) = _
    rw [readStatement, hr, Option.bind_some]
    exact if_pos hskip
  cases s with
  | query q =>
    have hlex : lex q.text = some (q.tokens ++ []) := by rw [List.append_nil, q.lex_text]
    exact hparse hlex heads_nil reads_noLock
  | forUpdate core c arg =>
    have hlex := lex_forUpdateClause arg (Query.select core c).lex_text
    exact hparse hlex (heads_lockTokens arg) (reads_locking arg)

end SelectStatement

/-! ### The rows -/

section Preserve

variable {ρ : Type} [DecidableEq ρ] (S : QueryServer ρ)

omit [DecidableEq ρ] in
/-- When the limit that is printed for an offset cuts nothing off. -/
theorem window_limitPart_iff (offset : Nat) (rs : List ρ) :
    window (some 9999999999) (some offset) rs = window none (some offset) rs ↔
      rs.length ≤ offset + 9999999999 := by
  show (rs.drop offset).take 9999999999 = rs.drop offset ↔ _
  rw [List.take_eq_self_iff, List.length_drop]
  omega

/-- **The clauses do to the rows what they are for.** -/
theorem ResultClauses.rows_tree {c : ResultClauses} {q : QueryTree} {rs : List ρ}
    (hrows : q.rows S = rs) (h : c.Within S rs) : (c.tree q).rows S = c.rows S rs := by
  have hordered : ((c.orderBy.map fun e => trim e.tokens).elim (q.rows S) fun e =>
      S.order e (q.rows S)) = c.ordered S rs := by
    rw [hrows, ResultClauses.ordered]
    cases c.orderBy <;> rfl
  have hvalue (o : Option QueryPart) :
      (o.map fun e => trim e.tokens).map S.number = o.map S.value := by
    rw [Option.map_map]
    rfl
  rw [ResultClauses.tree, QueryTree.rows, hordered, hvalue, hvalue, ResultClauses.rows]
  rw [ResultClauses.Within] at h
  cases hlimit : c.limit with
  | some l => rw [ResultClauses.limited, hlimit]; rfl
  | none =>
    cases hoffset : c.offset with
    | none => rw [ResultClauses.limited, hlimit, hoffset]; rfl
    | some o =>
      have hnumber : S.value limitPart = 9999999999 := S.number_limit
      rw [ResultClauses.limited, hlimit, hoffset]
      show window (some (S.value limitPart)) (some (S.value o)) _ = _
      rw [hnumber]
      exact (window_limitPart_iff _ _).mpr (h hlimit o hoffset)

namespace Query

theorem rows_compound (k : CompoundSelectKeyword) (q : Query) (qs : List Query)
    (c : ResultClauses) :
    (compound k q qs c).rows S
      = c.rows S (qs.foldl (fun l p => k.operation.rows l (p.rows S)) (q.rows S)) := by
  rw [rows, fold_compound, List.foldl_map]

theorem within_compound (k : CompoundSelectKeyword) (q : Query) (qs : List Query)
    (c : ResultClauses) :
    (compound k q qs c).Within S ↔ q.Within S ∧ (∀ p ∈ qs, p.Within S) ∧
      c.Within S (qs.foldl (fun l p => k.operation.rows l (p.rows S)) (q.rows S)) := by
  rw [Within, fold_compound, List.foldl_map, List.forall_mem_map]

/-- A part has its rows with and without parentheses. -/
theorem rows_groupTree (q : Query) : (groupTree (q, q.tree)).rows S = q.tree.rows S := by
  cases q with
  | compound k q qs c => rfl
  | select core c =>
    cases hplain : (select core c).isPlain with
    | false => rw [groupTree_of_not_plain hplain]
    | true =>
      obtain ⟨horder, hlimit, hoffset⟩ := clauses_of_plain hplain
      have htree : (select core c).tree = .result (.core (trim core.tokens)) none none none := by
        show c.tree _ = _
        rw [ResultClauses.tree, horder, hlimit, hoffset]
        rfl
      rw [groupTree_of_plain hplain, htree]
      rfl

/-- **What is read of a query has its rows.** -/
theorem rows_tree (q : Query) (h : q.Within S) : q.tree.rows S = q.rows S := by
  induction q using Query.induct with
  | hselect core c => exact c.rows_tree S rfl h
  | hcompound k q qs c hq hqs =>
    rw [within_compound] at h
    obtain ⟨hfirst, hrest, hclauses⟩ := h
    have hcombined : ∀ (t : QueryTree) (rs : List ρ), t.rows S = rs →
        ((qs.map fun p => (k.operation, groupTree (p, p.tree))).foldl
          (fun q r => .combine r.1 q r.2) t).rows S
          = qs.foldl (fun l p => k.operation.rows l (p.rows S)) rs := by
      clear hclauses
      induction qs with
      | nil => exact fun t rs ht => ht
      | cons p qs ih =>
        intro t rs ht
        obtain ⟨hp, hqs⟩ := List.forall_mem_cons.mp hqs
        obtain ⟨hpw, hrest⟩ := List.forall_mem_cons.mp hrest
        refine ih hqs hrest _ _ ?_
        show k.operation.rows (t.rows S) _ = _
        rw [ht, rows_groupTree, hp hpw]
    rw [tree_compound, rows_compound]
    refine c.rows_tree S (hcombined _ _ ?_) hclauses
    rw [rows_groupTree, hq hfirst]

end Query

/-- **A query keeps its meaning.**  The text of a statement is read as one statement,
which locks what is asked for, and its rows are the rows of the query, unless more
than 9999999999 rows are left behind an `OFFSET` without a `LIMIT`. -/
theorem query_preserved (s : SelectStatement) (h : s.source.Within S) :
    ∃ st, parseSelect s.text = some st ∧ st.query.rows S = s.source.rows S ∧ st.lock = s.lock :=
  ⟨_, s.parseSelect_text, s.source.rows_tree S h, rfl⟩

end Preserve

/-! ### A difference with an offset inside -/

def sampleCore : SelectCore where
  text := "SELECT a".toList
  tokens := [.word "SELECT".toList, .space ' ', .word "a".toList]
  lex_text := by decide
  sealed_tokens := by decide
  trim_tokens := by decide
  head_tokens := rfl

def otherCore : SelectCore where
  text := "SELECT b".toList
  tokens := [.word "SELECT".toList, .space ' ', .word "b".toList]
  lex_text := by decide
  sealed_tokens := by decide
  trim_tokens := by decide
  head_tokens := rfl

def samplePart : QueryPart where
  text := "1".toList
  tokens := [.word "1".toList]
  lex_text := by decide
  sealed_tokens := by decide
  trim_tokens := by decide

/-- `SELECT a DIFFERENCE (SELECT a UNION ALL SELECT b LIMIT 9999999999 OFFSET 1)` -/
def sampleStatement : SelectStatement :=
  .query (.compound .except (.select sampleCore ⟨none, none, none⟩)
    [.compound .unionAll (.select sampleCore ⟨none, none, none⟩)
      [.select otherCore ⟨none, none, none⟩] ⟨none, none, some samplePart⟩]
    ⟨none, none, none⟩)

def sampleRows : QueryServer Nat where
  select ts := if ts = sampleCore.tokens then [1, 2, 2, 3] else [2]
  order _ rs := rs
  number ts := if ts = samplePart.tokens then 1 else 9999999999
  number_limit := by decide

theorem query_preserved_difference :
    ∃ st, parseSelect sampleStatement.text = some st ∧ st.query.rows sampleRows = [1] ∧
      st.lock = none := by
  have hrows : sampleStatement.source.rows sampleRows = [1] := by decide
  rw [← hrows]
  refine query_preserved sampleRows sampleStatement ?_
  have hplain : ∀ rs : List Nat,
      (⟨none, none, none⟩ : ResultClauses).Within sampleRows rs := by
    intro rs _ o ho
    cases ho
  refine (Query.within_compound _ _ _ _ _).mpr ⟨hplain _, ?_, hplain _⟩
  refine List.forall_mem_singleton.mpr ((Query.within_compound _ _ _ _ _).mpr
    ⟨hplain _, List.forall_mem_singleton.mpr (hplain _), ?_⟩)
  intro _ o ho
  cases ho
  decide

end SqlalchemyCubrid.Compiler
