import SqlalchemyCubrid.Lib.SqlLexer
import SqlalchemyCubrid.Compiler.CreateTable

/-!
# Custom DDL

Nine constructs of the repository print statements of their own: `TRUNCATE`, the
table inheritance pair, the three partitionings and the two server statements.

`statement` is a parser for these statements, more liberal than the printers: it
takes lists of names where CUBRID does and server options in any order.
`custom_ddl_parses_back` says that what is printed is one statement with the
given names and values in their places, so that nothing printed in a name or an
option can get out of it.
-/

namespace SqlalchemyCubrid.Compiler

open Lib Lib.Sql Python

/-! ### The constructs -/

/-- The text of a bound or a value: tokens that close their parentheses and have
no comma outside of them. -/
structure Expression where
  text : Str
  enclosed_text : ((lex text).any enclosed) = true

structure RangePartition where
  name : Str
  lessThan : Expression

structure ListPartition where
  name : Str
  values : List Expression
  values_ne_nil : values ≠ []

inductive DdlElement where
  | truncate (tableName : Str)
  | dropTableInheritance (name : Str)
  /-- with no columns of its own -/
  | createTableUnder (name parentName : Str)
  | partitionByRange (tableName column : Str) (partitions : List RangePartition)
  | partitionByHash (tableName column : Str) (count : Int)
  | partitionByList (tableName column : Str) (partitions : List ListPartition)
  | createServer (name host : Str) (port : Int) (dbname user password : Str)
  | dropServer (name : Str) (ifExists : Bool)

/-! ### The printers -/

section Visit

variable (P : DdlPreparer)

def visitTruncate (tableName : Str) : Str := "TRUNCATE TABLE ".toList ++ P.quoteIdentifier tableName

def visitDropTableInheritance (name : Str) : Str :=
  "DROP TABLE IF EXISTS ".toList ++ P.quoteIdentifier name

def visitCreateTableUnder (name parentName : Str) (columns : List Column) : Str :=
  "CREATE TABLE ".toList ++ (P.quoteIdentifier name
    ++ (" UNDER ".toList ++ (P.quoteIdentifier parentName
      ++ if columns.isEmpty then []
        else " (".toList
          ++ (join ", ".toList (columns.map fun c => getColumnSpecification P c none)
            ++ ")".toList))))

def rangePart (p : RangePartition) : Str :=
  "PARTITION ".toList ++ (P.quoteIdentifier p.name
    ++ (" VALUES LESS THAN (".toList ++ (p.lessThan.text ++ ")".toList)))

def visitPartitionByRange (tableName column : Str) (partitions : List RangePartition) : Str :=
  "ALTER TABLE ".toList ++ (P.quoteIdentifier tableName
    ++ (" PARTITION BY RANGE (".toList ++ (P.quoteIdentifier column
      ++ (") (".toList ++ (join ", ".toList (partitions.map (rangePart P)) ++ ")".toList)))))

def visitPartitionByHash (tableName column : Str) (count : Int) : Str :=
  "ALTER TABLE ".toList ++ (P.quoteIdentifier tableName
    ++ (" PARTITION BY HASH (".toList ++ (P.quoteIdentifier column
      ++ (") PARTITIONS ".toList ++ formatInt count))))

def listPart (p : ListPartition) : Str :=
  "PARTITION ".toList ++ (P.quoteIdentifier p.name
    ++ (" VALUES IN (".toList ++ (join ", ".toList (p.values.map Expression.text) ++ ")".toList)))

def visitPartitionByList (tableName column : Str) (partitions : List ListPartition) : Str :=
  "ALTER TABLE ".toList ++ (P.quoteIdentifier tableName
    ++ (" PARTITION BY LIST (".toList ++ (P.quoteIdentifier column
      ++ (") (".toList ++ (join ", ".toList (partitions.map (listPart P)) ++ ")".toList)))))

/-- `s.replace("'", "''")` -/
def escapeLiteral (s : Str) : Str := double Quote.literal.char s

def visitCreateServer (name host : Str) (port : Int) (dbname user password : Str) : Str :=
  "CREATE SERVER ".toList ++ (P.quoteIdentifier name
    ++ (" (HOST='".toList ++ (escapeLiteral host
      ++ ("', PORT=".toList ++ (formatInt port
        ++ (", DBNAME='".toList ++ (escapeLiteral dbname
          ++ ("', USER='".toList ++ (escapeLiteral user
            ++ ("', PASSWORD='".toList ++ (escapeLiteral password ++ "')".toList)))))))))))

def visitDropServer (name : Str) (ifExists : Bool) : Str :=
  "DROP SERVER ".toList
    ++ ((if ifExists then "IF EXISTS ".toList else []) ++ P.quoteIdentifier name)

/-- The statement of a construct. -/
def DdlElement.render : DdlElement → Str
  | .truncate tableName => visitTruncate P tableName
  | .dropTableInheritance name => visitDropTableInheritance P name
  | .createTableUnder name parentName => visitCreateTableUnder P name parentName []
  | .partitionByRange tableName column partitions =>
    visitPartitionByRange P tableName column partitions
  | .partitionByHash tableName column count => visitPartitionByHash P tableName column count
  | .partitionByList tableName column partitions =>
    visitPartitionByList P tableName column partitions
  | .createServer name host port dbname user password =>
    visitCreateServer P name host port dbname user password
  | .dropServer name ifExists => visitDropServer P name ifExists

end Visit

/-! ### Statements -/

inductive OptionValue where
  | text (s : Str)
  | number (n : Int)
  deriving DecidableEq, Repr

inductive PartitionScheme where
  | range (partitions : List (Str × List Token))
  | hash (count : Int)
  | list (partitions : List (Str × List (List Token)))
  deriving DecidableEq, Repr

inductive DdlStatement where
  | truncate (table : Str)
  | dropTable (ifExists : Bool) (tables : List Str)
  | createTable (table : Str) (parents : List Str)
  | partition (table column : Str) (scheme : PartitionScheme)
  | createServer (server : Str) (options : List (Str × OptionValue))
  | dropServer (ifExists : Bool) (server : Str)
  deriving DecidableEq, Repr

def name : Parser Str := quoted .name

def partitionName : Parser Str := do
  keyword "PARTITION".toList
  name

def rangePartition : Parser (Str × List Token) := do
  let n ← partitionName
  keyword "VALUES".toList
  keyword "LESS".toList
  keyword "THAN".toList
  return (n, ← parens expression)

def listPartition : Parser (Str × List (List Token)) := do
  let n ← partitionName
  keyword "VALUES".toList
  keyword "IN".toList
  return (n, ← parens (listOf expression))

def optionValue : Parser OptionValue :=
  (do return .text (← quoted .literal)) <|> (do return .number (← integer))

def serverOption : Parser (Str × OptionValue) := do
  let k ← anyWord
  symbol '='
  return (k, ← optionValue)

def ifExists : Parser Bool :=
  (do keyword "IF".toList; keyword "EXISTS".toList; return true) <|> pure false

/-- The column and the scheme. -/
def scheme : Parser (Str × PartitionScheme) :=
  (do
    keyword "RANGE".toList
    let c ← parens name
    return (c, .range (← parensList rangePartition)))
  <|> (do
    keyword "HASH".toList
    let c ← parens name
    keyword "PARTITIONS".toList
    return (c, .hash (← integer)))
  <|> (do
    keyword "LIST".toList
    let c ← parens name
    return (c, .list (← parensList listPartition)))

def statement : Parser DdlStatement :=
  (do
    keyword "TRUNCATE".toList
    keyword "TABLE".toList
    return .truncate (← name))
  <|> (do
    keyword "DROP".toList
    keyword "TABLE".toList
    let b ← ifExists
    return .dropTable b (← listOf name))
  <|> (do
    keyword "DROP".toList
    keyword "SERVER".toList
    let b ← ifExists
    return .dropServer b (← name))
  <|> (do
    keyword "CREATE".toList
    keyword "TABLE".toList
    let t ← name
    keyword "UNDER".toList
    return .createTable t (← listOf name))
  <|> (do
    keyword "CREATE".toList
    keyword "SERVER".toList
    let n ← name
    return .createServer n (← parens (listOf serverOption)))
  <|> (do
    keyword "ALTER".toList
    keyword "TABLE".toList
    let t ← name
    keyword "PARTITION".toList
    keyword "BY".toList
    let (c, s) ← scheme
    return .partition t c s)

/-- Statements with semicolons between them, up to the end; the first argument
bounds their number. -/
def script : Nat → List Token → Option (List DdlStatement)
  | 0, _ => none
  | n + 1, ts =>
    if skip ts = [] then some []
    else
      (statement ts).bind fun (st, ts) =>
        match skip ts with
        | [] => some [st]
        | .symbol ';' :: ts => (script n ts).map (st :: ·)
        | _ => none

/-- The statements in a text. -/
def parseSql (s : Str) : Option (List DdlStatement) :=
  (lex s).bind fun ts => script (ts.length + 1) ts

/-! ### What the constructs mean -/

def Expression.tokens (e : Expression) : List Token := (lex e.text).getD []

def serverOptions (host : Str) (port : Int) (dbname user password : Str) :
    List (Str × OptionValue) :=
  [("HOST".toList, .text host), ("PORT".toList, .number port), ("DBNAME".toList, .text dbname),
    ("USER".toList, .text user), ("PASSWORD".toList, .text password)]

/-- The statement a construct stands for. -/
def DdlElement.statement : DdlElement → DdlStatement
  | .truncate tableName => .truncate tableName
  | .dropTableInheritance name => .dropTable true [name]
  | .createTableUnder name parentName => .createTable name [parentName]
  | .partitionByRange tableName column partitions =>
    .partition tableName column (.range (partitions.map fun p => (p.name, p.lessThan.tokens)))
  | .partitionByHash tableName column count => .partition tableName column (.hash count)
  | .partitionByList tableName column partitions =>
    .partition tableName column
      (.list (partitions.map fun p => (p.name, p.values.map Expression.tokens)))
  | .createServer name host port dbname user password =>
    .createServer name (serverOptions host port dbname user password)
  | .dropServer name ifExists => .dropServer ifExists name

theorem Expression.lex_text (e : Expression) : lex e.text = some e.tokens := by
  have h := e.enclosed_text
  rw [tokens]
  cases hl : lex e.text with
  | none => rw [hl] at h; cases h
  | some ts => rfl

theorem Expression.enclosed_tokens (e : Expression) : enclosed e.tokens := by
  have h := e.enclosed_text
  rw [e.lex_text] at h
  exact h

theorem Expression.ext_tokens {e e' : Expression} (h : e.tokens = e'.tokens) : e = e' := by
  have htext : e.text = e'.text := by
    rw [← text_of_lex e.lex_text, ← text_of_lex e'.lex_text, h]
  cases e
  cases e'
  cases htext
  rfl

/-- **Different constructs stand for different statements.** -/
theorem DdlElement.statement_injective {e e' : DdlElement} (h : e.statement = e'.statement) :
    e = e' := by
  have hrange : Function.Injective fun p : RangePartition => (p.name, p.lessThan.tokens) := by
    rintro ⟨n, x⟩ ⟨n', x'⟩ hp
    obtain ⟨hn, hx⟩ := Prod.mk.inj hp
    cases hn
    cases Expression.ext_tokens hx
    rfl
  have hlist : Function.Injective fun p : ListPartition =>
      (p.name, p.values.map Expression.tokens) := by
    rintro ⟨n, xs, _⟩ ⟨n', xs', _⟩ hp
    obtain ⟨hn, hxs⟩ := Prod.mk.inj hp
    cases hn
    cases List.map_injective_iff.mpr (fun _ _ => Expression.ext_tokens) hxs
    rfl
  cases e with
  | truncate t => cases e' <;> cases h; rfl
  | dropTableInheritance n => cases e' <;> cases h; rfl
  | createTableUnder n p => cases e' <;> cases h; rfl
  | partitionByHash t c n => cases e' <;> cases h; rfl
  | createServer n o p d u w => cases e' <;> cases h; rfl
  | dropServer n b => cases e' <;> cases h; rfl
  | partitionByRange t c ps =>
    cases e' with
    | partitionByRange t' c' ps' =>
      obtain ⟨rfl, rfl, hps⟩ := DdlStatement.partition.inj h
      rw [List.map_injective_iff.mpr hrange (PartitionScheme.range.inj hps)]
    | _ => cases h
  | partitionByList t c ps =>
    cases e' with
    | partitionByList t' c' ps' =>
      obtain ⟨rfl, rfl, hps⟩ := DdlStatement.partition.inj h
      rw [List.map_injective_iff.mpr hlist (PartitionScheme.list.inj hps)]
    | _ => cases h

/-! ### The tokens of a construct -/

/-- A quoted name with a space on both sides. -/
def nameTokens (x : Str) (ts : List Token) : List Token :=
  .space ' ' :: .quoted .name x :: .space ' ' :: ts

def rangeTokens (p : RangePartition) : List Token :=
  phrase ["PARTITION".toList] ++ nameTokens p.name
    (phrase ["VALUES".toList, "LESS".toList, "THAN".toList]
      ++ .space ' ' :: .symbol '(' :: (p.lessThan.tokens ++ [.symbol ')']))

def listTokens (p : ListPartition) : List Token :=
  phrase ["PARTITION".toList] ++ nameTokens p.name
    (phrase ["VALUES".toList, "IN".toList]
      ++ .space ' ' :: .symbol '(' :: (joinTokens (p.values.map Expression.tokens)
        ++ [.symbol ')']))

def integerTokens : Int → List Token
  | .ofNat n => [.word (Nat.toDigits 10 n)]
  | .negSucc n => [.symbol '-', .word (Nat.toDigits 10 (n + 1))]

/-- `ALTER TABLE t PARTITION BY m (c)` -/
def partitionTokens (t m c : Str) (ts : List Token) : List Token :=
  phrase ["ALTER".toList, "TABLE".toList] ++ nameTokens t
    (phrase ["PARTITION".toList, "BY".toList, m]
      ++ .space ' ' :: .symbol '(' :: .quoted .name c :: .symbol ')' :: .space ' ' :: ts)

def optionTokens (o : Str × OptionValue) : List Token :=
  .word o.1 :: .symbol '=' :: match o.2 with
    | .text s => [.quoted .literal s]
    | .number n => integerTokens n

def DdlElement.tokens : DdlElement → List Token
  | .truncate t => phrase ["TRUNCATE".toList, "TABLE".toList] ++ [.space ' ', .quoted .name t]
  | .dropTableInheritance n =>
    phrase ["DROP".toList, "TABLE".toList, "IF".toList, "EXISTS".toList]
      ++ [.space ' ', .quoted .name n]
  | .createTableUnder n p =>
    phrase ["CREATE".toList, "TABLE".toList] ++ nameTokens n
      (phrase ["UNDER".toList] ++ [.space ' ', .quoted .name p])
  | .partitionByRange t c ps =>
    partitionTokens t "RANGE".toList c
      (.symbol '(' :: (joinTokens (ps.map rangeTokens) ++ [.symbol ')']))
  | .partitionByHash t c n =>
    partitionTokens t "HASH".toList c
      (phrase ["PARTITIONS".toList] ++ .space ' ' :: integerTokens n)
  | .partitionByList t c ps =>
    partitionTokens t "LIST".toList c
      (.symbol '(' :: (joinTokens (ps.map listTokens) ++ [.symbol ')']))
  | .createServer n h p d u w =>
    phrase ["CREATE".toList, "SERVER".toList] ++ nameTokens n
      (.symbol '(' :: (joinTokens ((serverOptions h p d u w).map optionTokens) ++ [.symbol ')']))
  | .dropServer n b =>
    phrase ["DROP".toList, "SERVER".toList]
      ++ ((if b then .space ' ' :: phrase ["IF".toList, "EXISTS".toList] else [])
        ++ [.space ' ', .quoted .name n])

/-! ### Reading the tokens -/

theorem natural_toDigits (n : Nat) (rest : List Token) :
    natural (.word (Nat.toDigits 10 n) :: rest) = some (n, rest) := by
  have hdigits : (Nat.toDigits 10 n).all Char.isDigit = true :=
    List.all_eq_true.mpr fun c hc => isDigit_of_mem_toDigits hc
  show Option.map _ (if (Nat.toDigits 10 n).all Char.isDigit then some _ else none) = _
  rw [if_pos hdigits, Nat.ofDigitChars_ten_toDigits]
  rfl

theorem integer_integerTokens (n : Int) (rest : List Token) :
    integer (integerTokens n ++ rest) = some (n, rest) := by
  cases n with
  | ofNat n =>
    show (natural (.word (Nat.toDigits 10 n) :: rest)).bind _ = _
    rw [natural_toDigits]
    rfl
  | negSucc n =>
    show ((natural (.word (Nat.toDigits 10 (n + 1)) :: rest)).bind _).orElse _ = _
    rw [natural_toDigits]
    rfl

theorem rangePartition_rangeTokens (p : RangePartition) (rest : List Token) :
    rangePartition (rangeTokens p ++ rest) = some ((p.name, p.lessThan.tokens), rest) := by
  have hread : parens expression (.symbol '(' :: (p.lessThan.tokens ++ .symbol ')' :: rest))
      = some (p.lessThan.tokens, rest) :=
    parens_of_read (expression_of_enclosed p.lessThan.enclosed_tokens ⟨rest, Or.inr rfl⟩)
  have htokens : p.lessThan.tokens ++ [Token.symbol ')'] ++ rest
      = p.lessThan.tokens ++ .symbol ')' :: rest := List.append_assoc _ _ _
  show (parens expression (.symbol '(' :: (p.lessThan.tokens ++ [.symbol ')'] ++ rest))).bind _ = _
  rw [htokens, hread]
  rfl

theorem listPartition_listTokens (p : ListPartition) (rest : List Token) :
    listPartition (listTokens p ++ rest)
      = some ((p.name, p.values.map Expression.tokens), rest) := by
  obtain ⟨n, values, hne⟩ := p
  cases values with
  | nil => exact absurd rfl hne
  | cons v vs =>
    have hread : parens (listOf expression) (.symbol '('
        :: (joinTokens ((v :: vs).map Expression.tokens) ++ .symbol ')' :: rest))
        = some ((v :: vs).map Expression.tokens, rest) :=
      parens_of_read (listOf_join
        (fun e rest hrest => expression_of_enclosed e.enclosed_tokens hrest) v vs rest)
    have htokens : joinTokens ((v :: vs).map Expression.tokens) ++ [Token.symbol ')'] ++ rest
        = joinTokens ((v :: vs).map Expression.tokens) ++ .symbol ')' :: rest :=
      List.append_assoc _ _ _
    show (parens (listOf expression) (.symbol '('
      :: (joinTokens ((v :: vs).map Expression.tokens) ++ [.symbol ')'] ++ rest))).bind _ = _
    rw [htokens, hread]
    rfl

theorem optionValue_integerTokens (n : Int) (rest : List Token) :
    optionValue (integerTokens n ++ rest) = some (.number n, rest) := by
  have hread := integer_integerTokens n rest
  have hsecond : optionValue (integerTokens n ++ rest)
      = (integer (integerTokens n ++ rest)).bind fun r => some (.number r.1, r.2) := by
    cases n <;> rfl
  rw [hsecond, hread]
  rfl

theorem serverOption_optionTokens (o : Str × OptionValue) (rest : List Token) :
    serverOption (optionTokens o ++ rest) = some ((o.1.map Char.toUpper, o.2), rest) := by
  obtain ⟨k, v⟩ := o
  cases v with
  | text s => rfl
  | number n =>
    show (optionValue (integerTokens n ++ rest)).bind _ = _
    rw [optionValue_integerTokens]
    rfl

/-- **A construct is read from its tokens.** -/
theorem statement_tokens (e : DdlElement) : statement e.tokens = some (e.statement, []) := by
  cases e with
  | truncate t => rfl
  | dropTableInheritance n => rfl
  | createTableUnder n p => rfl
  | dropServer n b => cases b <;> rfl
  | partitionByHash t c n =>
    have hread := integer_integerTokens n []
    rw [List.append_nil] at hread
    show (((integer (integerTokens n)).bind _).orElse _).bind _ = _
    rw [hread]
    rfl
  | partitionByRange t c ps =>
    have hread := parensList_join (p := rangePartition)
      (fun p rest _ => rangePartition_rangeTokens p rest) (fun p => ⟨_, _, rfl⟩) ps []
    show (((parensList rangePartition _).bind _).orElse _).bind _ = _
    rw [parensList_space, hread]
    rfl
  | partitionByList t c ps =>
    have hread := parensList_join (p := listPartition)
      (fun p rest _ => listPartition_listTokens p rest) (fun p => ⟨_, _, rfl⟩) ps []
    show ((parensList listPartition _).bind _).bind _ = _
    rw [parensList_space, hread]
    rfl
  | createServer n h p d u w =>
    have hread : parens (listOf serverOption) (.symbol '('
        :: (joinTokens ((serverOptions h p d u w).map optionTokens) ++ [.symbol ')']))
        = some (serverOptions h p d u w, []) :=
      parens_of_read (listOf_join (fun o rest _ => serverOption_optionTokens o rest) _ _ [])
    show ((parens (listOf serverOption) _).bind _).orElse _ = _
    rw [parens_space, hread]
    rfl

/-- **The tokens are one statement.** -/
theorem script_tokens (e : DdlElement) (n : Nat) :
    script (n + 1) e.tokens = some [e.statement] := by
  have hskip : skip e.tokens ≠ [] := by cases e <;> exact List.cons_ne_nil _ _
  rw [script, if_neg hskip, statement_tokens]
  rfl

/-! ### Reading the text -/

theorem lex_formatInt (n : Int) : lex (formatInt n) = some (integerTokens n) := by
  have hword : ∀ m : Nat, ∀ c ∈ Nat.toDigits 10 m, isWordChar c := by
    intro m c hc
    have hdigit := isDigit_of_mem_toDigits hc
    simp [isWordChar, Char.isAlphanum, hdigit]
  cases n with
  | ofNat n => exact lex_word Nat.toDigits_ne_nil (hword n)
  | negSucc n => exact lex_dash_word Nat.toDigits_ne_nil (hword (n + 1))

/-- `k=v` -/
def optionText (o : Str × OptionValue) : Str :=
  o.1 ++ '=' :: match o.2 with
    | .text s => delimited .literal s
    | .number n => formatInt n

theorem lex_optionText {o : Str × OptionValue} (hne : o.1 ≠ []) (hword : ∀ c ∈ o.1, isWordChar c) :
    lex (optionText o) = some (optionTokens o) := by
  have hkey := lex_word hne hword
  obtain ⟨k, v⟩ := o
  cases v with
  | text s => exact lex_append hkey rfl (lex_delimited .literal s)
  | number n => exact lex_append hkey rfl (lex_formatInt n)

/-- The options of `visit_create_server`. -/
theorem lex_serverOptions (host : Str) (port : Int) (dbname user password : Str) :
    lex (join ", ".toList ((serverOptions host port dbname user password).map optionText))
      = some (joinTokens ((serverOptions host port dbname user password).map optionTokens)) := by
  have hkeys : ∀ k ∈ ["HOST".toList, "PORT".toList, "DBNAME".toList, "USER".toList,
      "PASSWORD".toList], k ≠ [] ∧ ∀ c ∈ k, isWordChar c := by
    decide
  apply lex_join
  intro o ho
  have hmem : o.1 ∈ (serverOptions host port dbname user password).map Prod.fst :=
    List.mem_map_of_mem ho
  exact lex_optionText (hkeys _ hmem).1 (hkeys _ hmem).2

theorem visitCreateServer_eq (P : DdlPreparer) (name host : Str) (port : Int)
    (dbname user password : Str) :
    visitCreateServer P name host port dbname user password
      = "CREATE SERVER".toList ++ ' ' :: (P.quoteIdentifier name ++ ' ' :: '('
          :: (join ", ".toList ((serverOptions host port dbname user password).map optionText)
            ++ ")".toList)) := by
  simp only [serverOptions, List.map_cons, List.map_nil, join_cons_cons, join_singleton, optionText,
    delimited, List.append_assoc, List.cons_append]
  rfl

section Render

variable {P : DdlPreparer} (hquote : ∀ x, P.quoteIdentifier x = delimited .name x)
include hquote

/-- A quoted name between two texts. -/
theorem lex_quoted {s t : Str} {ts us : List Token} (hs : lex s = some ts) (x : Str)
    (ht : lex t = some us) :
    lex (s ++ ' ' :: (P.quoteIdentifier x ++ ' ' :: t)) = some (ts ++ nameTokens x us) := by
  rw [hquote]
  exact lex_append hs rfl (lex_append (lex_delimited .name x) rfl ht)

theorem lex_quoted_last {s : Str} {ts : List Token} (hs : lex s = some ts) (x : Str) :
    lex (s ++ ' ' :: P.quoteIdentifier x) = some (ts ++ [.space ' ', .quoted .name x]) := by
  rw [hquote]
  exact lex_append hs rfl (lex_delimited .name x)

theorem lex_rangePart (p : RangePartition) : lex (rangePart P p) = some (rangeTokens p) := by
  have hbound : lex (p.lessThan.text ++ ")".toList) = some (p.lessThan.tokens ++ [.symbol ')']) :=
    lex_append p.lessThan.lex_text rfl rfl
  have hvalues : lex "VALUES LESS THAN".toList
      = some (phrase ["VALUES".toList, "LESS".toList, "THAN".toList]) := by decide
  exact lex_quoted hquote (s := "PARTITION".toList) rfl p.name
    (lex_append hvalues rfl (lex_cons rfl hbound))

theorem lex_listPart (p : ListPartition) : lex (listPart P p) = some (listTokens p) := by
  obtain ⟨n, values, hne⟩ := p
  cases values with
  | nil => exact absurd rfl hne
  | cons v vs =>
    have hlist : lex (join ", ".toList ((v :: vs).map Expression.text) ++ ")".toList)
        = some (joinTokens ((v :: vs).map Expression.tokens) ++ [.symbol ')']) :=
      lex_append (lex_join fun e _ => e.lex_text) rfl rfl
    have hvalues : lex "VALUES IN".toList = some (phrase ["VALUES".toList, "IN".toList]) := by
      decide
    exact lex_quoted hquote (s := "PARTITION".toList) rfl n
      (lex_append hvalues rfl (lex_cons rfl hlist))

omit hquote in
/-- The list of partitions, which may be empty, in its parentheses. -/
theorem lex_parts {β : Type} {text : β → Str} {toks : β → List Token}
    (h : ∀ b, lex (text b) = some (toks b)) (bs : List β) :
    lex (join ", ".toList (bs.map text) ++ ")".toList)
      = some (joinTokens (bs.map toks) ++ [.symbol ')']) := by
  cases bs with
  | nil => rfl
  | cons b bs => exact lex_append (lex_join fun b _ => h b) rfl rfl

/-- `ALTER TABLE t PARTITION BY m (c)` and what follows. -/
theorem lex_partitionBy (t c : Str) {m rest : Str} {ts : List Token}
    (hm : lex ("PARTITION BY ".toList ++ m)
      = some (phrase ["PARTITION".toList, "BY".toList, m])) (hrest : lex rest = some ts) :
    lex ("ALTER TABLE ".toList ++ (P.quoteIdentifier t ++ ' ' :: ("PARTITION BY ".toList ++ m
        ++ ' ' :: '(' :: (P.quoteIdentifier c ++ ')' :: ' ' :: rest))))
      = some (partitionTokens t m c ts) := by
  have halter : lex "ALTER TABLE".toList = some (phrase ["ALTER".toList, "TABLE".toList]) := by
    decide
  have hcolumn : lex (P.quoteIdentifier c ++ ')' :: ' ' :: rest)
      = some (.quoted .name c :: .symbol ')' :: .space ' ' :: ts) := by
    rw [hquote]
    exact lex_append (lex_delimited .name c) rfl (lex_cons rfl hrest)
  exact lex_quoted hquote halter t (lex_append hm rfl (lex_cons rfl hcolumn))

/-- **The text is read as the tokens of the construct.** -/
theorem lex_render (e : DdlElement) : lex (e.render P) = some e.tokens := by
  cases e with
  | truncate t =>
    have hopen : "TRUNCATE TABLE ".toList = "TRUNCATE TABLE".toList ++ [' '] := rfl
    show lex ("TRUNCATE TABLE ".toList ++ P.quoteIdentifier t) = _
    rw [hopen, List.append_assoc]
    exact lex_quoted_last hquote (by decide) t
  | dropTableInheritance n =>
    have hopen : "DROP TABLE IF EXISTS ".toList = "DROP TABLE IF EXISTS".toList ++ [' '] := rfl
    show lex ("DROP TABLE IF EXISTS ".toList ++ P.quoteIdentifier n) = _
    rw [hopen, List.append_assoc]
    exact lex_quoted_last hquote (by decide) n
  | createTableUnder n p =>
    have hcreate : lex "CREATE TABLE".toList = some (phrase ["CREATE".toList, "TABLE".toList]) := by
      decide
    have hopen : "CREATE TABLE ".toList = "CREATE TABLE".toList ++ [' '] := rfl
    have hunder : " UNDER ".toList = ' ' :: ("UNDER".toList ++ [' ']) := rfl
    have hword : lex "UNDER".toList = some (phrase ["UNDER".toList]) := by decide
    show lex ("CREATE TABLE ".toList ++ (P.quoteIdentifier n
      ++ (" UNDER ".toList ++ (P.quoteIdentifier p ++ [])))) = _
    simp only [List.append_nil, hopen, hunder, List.append_assoc, List.cons_append,
      List.nil_append]
    exact lex_quoted hquote hcreate n (lex_quoted_last hquote hword p)
  | partitionByRange t c ps =>
    have hmethod : " PARTITION BY RANGE (".toList
        = ' ' :: ("PARTITION BY ".toList ++ "RANGE".toList ++ [' ', '(']) := rfl
    have hparts : ") (".toList = [')', ' ', '('] := rfl
    have hlist := lex_cons (c := '(') rfl (lex_parts (lex_rangePart hquote) ps)
    show lex ("ALTER TABLE ".toList ++ (P.quoteIdentifier t
      ++ (" PARTITION BY RANGE (".toList ++ (P.quoteIdentifier c ++ (") (".toList
        ++ (join ", ".toList (ps.map (rangePart P)) ++ ")".toList)))))) = _
    rw [hmethod, hparts, List.cons_append, List.append_assoc ("PARTITION BY ".toList ++ _)]
    exact lex_partitionBy hquote t c (by decide) hlist
  | partitionByHash t c n =>
    have hmethod : " PARTITION BY HASH (".toList
        = ' ' :: ("PARTITION BY ".toList ++ "HASH".toList ++ [' ', '(']) := rfl
    have hword : lex "PARTITIONS".toList = some (phrase ["PARTITIONS".toList]) := by decide
    have hnumber := lex_append hword (c := ' ') rfl (lex_formatInt n)
    have hcount : ") PARTITIONS ".toList ++ formatInt n
        = ')' :: ' ' :: ("PARTITIONS".toList ++ ' ' :: formatInt n) := by
      have hclose : ") PARTITIONS ".toList = ')' :: ' ' :: ("PARTITIONS".toList ++ [' ']) := rfl
      simp only [hclose, List.cons_append, List.append_assoc, List.nil_append]
    show lex ("ALTER TABLE ".toList ++ (P.quoteIdentifier t
      ++ (" PARTITION BY HASH (".toList ++ (P.quoteIdentifier c ++ (") PARTITIONS ".toList
        ++ formatInt n))))) = _
    rw [hmethod, hcount, List.cons_append, List.append_assoc ("PARTITION BY ".toList ++ _)]
    exact lex_partitionBy hquote t c (by decide) hnumber
  | partitionByList t c ps =>
    have hmethod : " PARTITION BY LIST (".toList
        = ' ' :: ("PARTITION BY ".toList ++ "LIST".toList ++ [' ', '(']) := rfl
    have hparts : ") (".toList = [')', ' ', '('] := rfl
    have hlist := lex_cons (c := '(') rfl (lex_parts (lex_listPart hquote) ps)
    show lex ("ALTER TABLE ".toList ++ (P.quoteIdentifier t
      ++ (" PARTITION BY LIST (".toList ++ (P.quoteIdentifier c ++ (") (".toList
        ++ (join ", ".toList (ps.map (listPart P)) ++ ")".toList)))))) = _
    rw [hmethod, hparts, List.cons_append, List.append_assoc ("PARTITION BY ".toList ++ _)]
    exact lex_partitionBy hquote t c (by decide) hlist
  | createServer n h p d u w =>
    have hcreate : lex "CREATE SERVER".toList
        = some (phrase ["CREATE".toList, "SERVER".toList]) := by
      decide
    have hoptions := lex_append (lex_serverOptions h p d u w) (c := ')') rfl (t := []) rfl
    show lex (visitCreateServer P n h p d u w) = _
    rw [visitCreateServer_eq]
    exact lex_quoted hquote hcreate n (lex_cons rfl hoptions)
  | dropServer n b =>
    have hopen : "DROP SERVER ".toList = "DROP SERVER".toList ++ [' '] := rfl
    cases b with
    | false =>
      show lex ("DROP SERVER ".toList ++ P.quoteIdentifier n) = _
      rw [hopen, List.append_assoc]
      exact lex_quoted_last hquote (by decide) n
    | true =>
      have hdrop : lex "DROP SERVER IF EXISTS".toList
          = some (phrase ["DROP".toList, "SERVER".toList]
            ++ .space ' ' :: phrase ["IF".toList, "EXISTS".toList]) := by
        decide
      have hexists : "DROP SERVER".toList ++ [' '] ++ "IF EXISTS ".toList
          = "DROP SERVER IF EXISTS".toList ++ [' '] := rfl
      show lex ("DROP SERVER ".toList ++ ("IF EXISTS ".toList ++ P.quoteIdentifier n)) = _
      rw [hopen, ← List.append_assoc, hexists, List.append_assoc]
      exact lex_quoted_last hquote hdrop n

/-- What a construct prints is its statement. -/
theorem parseSql_render (e : DdlElement) : parseSql (e.render P) = some [e.statement] := by
  rw [parseSql, lex_render hquote]
  exact script_tokens e _

/-- **Custom DDL cannot be broken out of.**  What a construct prints is one
statement, with the given names and values in their places, and different
constructs print different texts. -/
theorem custom_ddl_parses_back (e : DdlElement) :
    parseSql (e.render P) = some [e.statement] ∧
      ∀ e' : DdlElement, e'.render P = e.render P → e' = e := by
  refine ⟨parseSql_render hquote e, ?_⟩
  intro e' h
  have hstatements : some [e'.statement] = some [e.statement] := by
    rw [← parseSql_render hquote e', ← parseSql_render hquote e, h]
  exact DdlElement.statement_injective (List.cons.inj (Option.some.inj hstatements)).1

end Render

/-- A name with a quote and a host with a quote, a comma and an option. -/
theorem custom_ddl_parses_back_quotes :
    let P : DdlPreparer := ⟨delimited .name, id, id, id⟩
    let e : DdlElement := .createServer "s\"; DROP TABLE x".toList "h', PORT=1".toList (-5) []
      "u".toList [Char.ofNat 92]
    parseSql (e.render P) = some [e.statement] ∧
      ∀ e' : DdlElement, e'.render P = e.render P → e' = e := by
  intro P e
  exact custom_ddl_parses_back (fun _ => rfl) e

end SqlalchemyCubrid.Compiler
