import SqlalchemyCubrid.Compiler.CustomDdl
import SqlalchemyCubrid.Compiler.Names
import SqlalchemyCubrid.Lib.Machine
import SqlalchemyCubrid.Lib.SqlFragment
import SqlalchemyCubrid.Python.Exception

/-!
# Serials

A `Sequence` is a serial of CUBRID.  Four texts are about one: `CREATE SERIAL`
with the options that are set, `DROP SERIAL IF EXISTS`, `s.NEXT_VALUE` inside of
a statement, and the `SELECT` that draws a value ahead of one.

A server reads the texts and keeps its serials by name (`textMachine`); which
options a serial takes and which values it gives is left open (`SerialServer`).
`serial_runs_agree` is the result: among any calls on any sequences, the calls
on one serial are answered as if it was alone and told its settings directly
(`serialMachine`).
-/

namespace SqlalchemyCubrid.Compiler

open Lib Lib.Sql Python

/-! ### The printers -/

/-- SQLAlchemy's `Sequence`. -/
structure Sequence where
  schema : Option Name
  name : Name
  start : Option Int
  increment : Option Int
  minvalue : Option Int
  nominvalue : Option Bool
  maxvalue : Option Int
  nomaxvalue : Option Bool
  cycle : Option Bool
  cache : Option Int

section Visit

variable (Q : NameQuoter) (seq : Sequence)

/-- SQLAlchemy's `format_sequence` -/
def formatSequence : Str :=
  match seq.schema with
  | none => Q.quote seq.name
  | some schema => Q.quote schema ++ ".".toList ++ Q.quote seq.name

/-- `MINVALUE` and `MAXVALUE`: a number before its absence. -/
def boundText (keyword noKeyword : Str) (value : Option Int) (noValue : Option Bool) : Str :=
  match value with
  | some n => keyword ++ formatInt n
  | none => if noValue = some true then noKeyword else []

def visitCreateSequence : Str :=
  let text := "CREATE SERIAL ".toList ++ formatSequence Q seq
  let text := text ++ seq.start.elim [] fun n => " START WITH ".toList ++ formatInt n
  let text := text ++ seq.increment.elim [] fun n => " INCREMENT BY ".toList ++ formatInt n
  let text := text
    ++ boundText " MINVALUE ".toList " NOMINVALUE".toList seq.minvalue seq.nominvalue
  let text := text
    ++ boundText " MAXVALUE ".toList " NOMAXVALUE".toList seq.maxvalue seq.nomaxvalue
  let text := text
    ++ seq.cycle.elim [] fun b => if b then " CYCLE".toList else " NOCYCLE".toList
  text ++ seq.cache.elim [] fun n => " CACHE ".toList ++ formatInt n

def visitDropSequence : Str := "DROP SERIAL IF EXISTS ".toList ++ formatSequence Q seq

def visitSequence : Str := formatSequence Q seq ++ ".NEXT_VALUE".toList

/-- The statement of `fire_sequence`. -/
def fireSequence : Str := "SELECT ".toList ++ (formatSequence Q seq ++ ".NEXT_VALUE".toList)

end Visit

/-! ### Statements about serials -/

inductive SerialOption where
  | startWith (n : Int)
  | incrementBy (n : Int)
  /-- `none` is `NOMINVALUE` -/
  | minvalue (n : Option Int)
  | maxvalue (n : Option Int)
  | cycle (b : Bool)
  /-- `none` is `NOCACHE` -/
  | cache (n : Option Int)
  deriving DecidableEq, Repr

/-- What a `CREATE SERIAL` sets. -/
structure SerialSettings where
  start : Option Int
  increment : Option Int
  minvalue : Option (Option Int)
  maxvalue : Option (Option Int)
  cycle : Option Bool
  cache : Option (Option Int)
  deriving DecidableEq, Repr

inductive SerialCommand where
  | create (settings : SerialSettings)
  | drop (ifExists : Bool)
  | nextValue
  deriving DecidableEq, Repr

/-- An owner, if there is one, and a name. -/
abbrev SerialName := Option Str × Str

/-- Set what is not set. -/
def setOnce {α : Type} (old : Option α) (a : α) : Option (Option α) :=
  match old with
  | none => some (some a)
  | some _ => none

/-- One more option; it must not be given twice. -/
def SerialSettings.add (s : SerialSettings) : SerialOption → Option SerialSettings
  | .startWith n => (setOnce s.start n).map fun x => { s with start := x }
  | .incrementBy n => (setOnce s.increment n).map fun x => { s with increment := x }
  | .minvalue n => (setOnce s.minvalue n).map fun x => { s with minvalue := x }
  | .maxvalue n => (setOnce s.maxvalue n).map fun x => { s with maxvalue := x }
  | .cycle b => (setOnce s.cycle b).map fun x => { s with cycle := x }
  | .cache n => (setOnce s.cache n).map fun x => { s with cache := x }

/-- The settings of a list of options, in any order. -/
def collect (options : List SerialOption) : Option SerialSettings :=
  options.foldlM SerialSettings.add ⟨none, none, none, none, none, none⟩

def serialOption : Parser SerialOption :=
  (do
    keyword "START".toList
    keyword "WITH".toList
    return .startWith (← integer))
  <|> (do
    keyword "INCREMENT".toList
    keyword "BY".toList
    return .incrementBy (← integer))
  <|> (do
    keyword "MINVALUE".toList
    return .minvalue (some (← integer)))
  <|> (do
    keyword "NOMINVALUE".toList
    return .minvalue none)
  <|> (do
    keyword "MAXVALUE".toList
    return .maxvalue (some (← integer)))
  <|> (do
    keyword "NOMAXVALUE".toList
    return .maxvalue none)
  <|> (do
    keyword "CYCLE".toList
    return .cycle true)
  <|> (do
    keyword "NOCYCLE".toList
    return .cycle false)
  <|> (do
    keyword "CACHE".toList
    return .cache (some (← integer)))
  <|> (do
    keyword "NOCACHE".toList
    return .cache none)

def serialName : Parser SerialName :=
  (do
    let owner ← ident
    symbol '.'
    return (some owner, ← ident))
  <|> (do return (none, ← ident))

/-- `s.NEXT_VALUE` -/
def bareNextValue : Parser SerialName := do
  let n ← ident
  symbol '.'
  keyword "NEXT_VALUE".toList
  return (none, n)

/-- `s.NEXT_VALUE` or `owner.s.NEXT_VALUE` -/
def nextValue : Parser SerialName :=
  (do
    let owner ← ident
    symbol '.'
    let (_, n) ← bareNextValue
    return (some owner, n))
  <|> bareNextValue

/-- The end of the tokens, up to blanks. -/
def atEnd {α : Type} (r : α × List Token) : Option α := if skip r.2 = [] then some r.1 else none

def createSerial (ts : List Token) : Option (SerialName × SerialCommand) :=
  ((do keyword "CREATE".toList; keyword "SERIAL".toList; serialName : Parser SerialName) ts).bind
    fun r => ((manyToEnd serialOption (r.2.length + 1) r.2).bind collect).map fun settings =>
      (r.1, .create settings)

def dropSerial : Parser (SerialName × SerialCommand) := do
  keyword "DROP".toList
  keyword "SERIAL".toList
  let b ← ifExists
  return (← serialName, .drop b)

def selectNextValue : Parser (SerialName × SerialCommand) := do
  keyword "SELECT".toList
  return (← nextValue, .nextValue)

def serialStatement (ts : List Token) : Option (SerialName × SerialCommand) :=
  createSerial ts <|> (dropSerial ts).bind atEnd <|> (selectNextValue ts).bind atEnd

/-- A value inside of a statement. -/
def serialValue (ts : List Token) : Option (SerialName × SerialCommand) :=
  ((nextValue ts).bind atEnd).map fun n => (n, .nextValue)

/-! ### What a sequence means -/

namespace Sequence

def serialName (seq : Sequence) : SerialName := (seq.schema.map Subtype.val, seq.name)

/-- A bound, or none at all, or nothing said. -/
def bound (value : Option Int) (noValue : Option Bool) : Option (Option Int) :=
  match value with
  | some n => some (some n)
  | none => if noValue = some true then some none else none

def settings (seq : Sequence) : SerialSettings where
  start := seq.start
  increment := seq.increment
  minvalue := bound seq.minvalue seq.nominvalue
  maxvalue := bound seq.maxvalue seq.nomaxvalue
  cycle := seq.cycle
  cache := seq.cache.map some

/-- The options that are printed. -/
def options (seq : Sequence) : List SerialOption :=
  (seq.start.map .startWith).toList ++ (seq.increment.map .incrementBy).toList
    ++ ((bound seq.minvalue seq.nominvalue).map .minvalue).toList
    ++ ((bound seq.maxvalue seq.nomaxvalue).map .maxvalue).toList
    ++ (seq.cycle.map .cycle).toList ++ (seq.cache.map fun n => .cache (some n)).toList

/-- **No option is given twice.** -/
theorem collect_options (seq : Sequence) : collect seq.options = some seq.settings := by
  obtain ⟨schema, name, start, increment, minvalue, nominvalue, maxvalue, nomaxvalue, cycle,
    cache⟩ := seq
  rw [options, settings]
  generalize bound minvalue nominvalue = low
  generalize bound maxvalue nomaxvalue = high
  cases start <;> cases increment <;> cases low <;> cases high <;> cases cycle <;> cases cache <;>
    rfl

end Sequence

/-! ### Reading the texts -/

def SerialOption.text : SerialOption → Str
  | .startWith n => " START WITH ".toList ++ formatInt n
  | .incrementBy n => " INCREMENT BY ".toList ++ formatInt n
  | .minvalue (some n) => " MINVALUE ".toList ++ formatInt n
  | .minvalue none => " NOMINVALUE".toList
  | .maxvalue (some n) => " MAXVALUE ".toList ++ formatInt n
  | .maxvalue none => " NOMAXVALUE".toList
  | .cycle b => if b then " CYCLE".toList else " NOCYCLE".toList
  | .cache (some n) => " CACHE ".toList ++ formatInt n
  | .cache none => " NOCACHE".toList

/-- The tokens of an option, behind a space. -/
def SerialOption.tokens : SerialOption → List Token
  | .startWith n => phrase ["START".toList, "WITH".toList] ++ .space ' ' :: integerTokens n
  | .incrementBy n => phrase ["INCREMENT".toList, "BY".toList] ++ .space ' ' :: integerTokens n
  | .minvalue (some n) => .word "MINVALUE".toList :: .space ' ' :: integerTokens n
  | .minvalue none => [.word "NOMINVALUE".toList]
  | .maxvalue (some n) => .word "MAXVALUE".toList :: .space ' ' :: integerTokens n
  | .maxvalue none => [.word "NOMAXVALUE".toList]
  | .cycle b => if b then [.word "CYCLE".toList] else [.word "NOCYCLE".toList]
  | .cache (some n) => .word "CACHE".toList :: .space ' ' :: integerTokens n
  | .cache none => [.word "NOCACHE".toList]

/-- Words and a number behind them. -/
theorem lex_numbered {w : Str} {ts : List Token} (hw : lex w = some ts) (n : Int) :
    lex (w ++ ' ' :: formatInt n) = some (ts ++ .space ' ' :: integerTokens n) :=
  lex_append hw rfl (lex_formatInt n)

/-- An option is a space and its tokens. -/
theorem text_option (o : SerialOption) :
    ∃ body, o.text = ' ' :: body ∧ lex body = some o.tokens := by
  have hmin : lex "MINVALUE".toList = some [.word "MINVALUE".toList] := by decide
  have hmax : lex "MAXVALUE".toList = some [.word "MAXVALUE".toList] := by decide
  have hcache : lex "CACHE".toList = some [.word "CACHE".toList] := by decide
  cases o with
  | startWith n =>
    exact ⟨"START WITH".toList ++ ' ' :: formatInt n, rfl, lex_numbered (by decide) n⟩
  | incrementBy n =>
    exact ⟨"INCREMENT BY".toList ++ ' ' :: formatInt n, rfl, lex_numbered (by decide) n⟩
  | minvalue n =>
    cases n with
    | none => exact ⟨"NOMINVALUE".toList, rfl, by decide⟩
    | some n => exact ⟨"MINVALUE".toList ++ ' ' :: formatInt n, rfl, lex_numbered hmin n⟩
  | maxvalue n =>
    cases n with
    | none => exact ⟨"NOMAXVALUE".toList, rfl, by decide⟩
    | some n => exact ⟨"MAXVALUE".toList ++ ' ' :: formatInt n, rfl, lex_numbered hmax n⟩
  | cycle b =>
    cases b with
    | true => exact ⟨"CYCLE".toList, rfl, by decide⟩
    | false => exact ⟨"NOCYCLE".toList, rfl, by decide⟩
  | cache n =>
    cases n with
    | none => exact ⟨"NOCACHE".toList, rfl, by decide⟩
    | some n => exact ⟨"CACHE".toList ++ ' ' :: formatInt n, rfl, lex_numbered hcache n⟩

/-- By induction on the options, with what stands in front of them. -/
theorem lex_options (os : List SerialOption) {s : Str} {ts : List Token} (hs : lex s = some ts) :
    lex (s ++ os.flatMap SerialOption.text)
      = some (ts ++ os.flatMap fun o => .space ' ' :: o.tokens) := by
  induction os generalizing s ts with
  | nil =>
    rw [List.flatMap_nil, List.append_nil, List.flatMap_nil, List.append_nil]
    exact hs
  | cons o os ih =>
    obtain ⟨body, htext, hbody⟩ := text_option o
    rw [List.flatMap_cons, htext, List.flatMap_cons, ← List.append_assoc, ← List.append_assoc]
    exact ih (lex_append hs rfl hbody)

/-- A number behind a space. -/
theorem integer_space (n : Int) (rest : List Token) :
    integer (.space ' ' :: (integerTokens n ++ rest)) = some (n, rest) :=
  integer_integerTokens n rest

/-- **An option is read from its tokens**, whatever follows. -/
theorem serialOption_tokens (o : SerialOption) (rest : List Token) :
    serialOption (.space ' ' :: o.tokens ++ rest) = some (o, rest) := by
  cases o with
  | startWith n =>
    show ((integer (.space ' ' :: (integerTokens n ++ rest))).bind _).orElse _ = _
    rw [integer_space]
    rfl
  | incrementBy n =>
    show ((integer (.space ' ' :: (integerTokens n ++ rest))).bind _).orElse _ = _
    rw [integer_space]
    rfl
  | minvalue n =>
    cases n with
    | none => rfl
    | some n =>
      show ((integer (.space ' ' :: (integerTokens n ++ rest))).bind _).orElse _ = _
      rw [integer_space]
      rfl
  | maxvalue n =>
    cases n with
    | none => rfl
    | some n =>
      show ((integer (.space ' ' :: (integerTokens n ++ rest))).bind _).orElse _ = _
      rw [integer_space]
      rfl
  | cycle b => cases b <;> rfl
  | cache n =>
    cases n with
    | none => rfl
    | some n =>
      show ((integer (.space ' ' :: (integerTokens n ++ rest))).bind _).orElse _ = _
      rw [integer_space]
      rfl

/-- The tokens of options, each behind a space. -/
def optionsTokens (os : List SerialOption) : List Token :=
  os.flatMap fun o => .space ' ' :: o.tokens

theorem tokens_eq_word (o : SerialOption) : ∃ w ts, o.tokens = .word w :: ts := by
  cases o with
  | startWith n => exact ⟨_, _, rfl⟩
  | incrementBy n => exact ⟨_, _, rfl⟩
  | minvalue n => cases n <;> exact ⟨_, _, rfl⟩
  | maxvalue n => cases n <;> exact ⟨_, _, rfl⟩
  | cycle b => cases b <;> exact ⟨_, _, rfl⟩
  | cache n => cases n <;> exact ⟨_, _, rfl⟩

/-- Options do not go on with a name. -/
theorem symbol_optionsTokens (os : List SerialOption) : symbol '.' (optionsTokens os) = none := by
  cases os with
  | nil => rfl
  | cons o os =>
    obtain ⟨w, ts, hw⟩ := tokens_eq_word o
    rw [optionsTokens, List.flatMap_cons, hw]
    rfl

theorem length_le_optionsTokens (os : List SerialOption) :
    os.length ≤ (optionsTokens os).length := by
  induction os with
  | nil => exact Nat.le_refl _
  | cons o os ih =>
    rw [optionsTokens] at ih ⊢
    rw [List.flatMap_cons, List.length_append, List.length_cons, List.length_cons]
    omega

theorem manyToEnd_optionsTokens (os : List SerialOption) :
    manyToEnd serialOption ((optionsTokens os).length + 1) (optionsTokens os) = some os := by
  have hmany := manyToEnd_flatMap (f := id) (T := fun o : SerialOption => .space ' ' :: o.tokens)
    serialOption_tokens (fun o rest => ?_) os
    (Nat.lt_succ_of_le (length_le_optionsTokens os))
  · rw [List.map_id] at hmany
    exact hmany
  · obtain ⟨w, ts, hw⟩ := tokens_eq_word o
    rw [hw]
    exact List.cons_ne_nil _ _

section Read

variable (Q : NameQuoter) (seq : Sequence)

def sequenceTokens : List Token :=
  match seq.schema with
  | none => [Q.token seq.name]
  | some schema => [Q.token schema, .symbol '.', Q.token seq.name]

theorem lex_formatSequence : lex (formatSequence Q seq) = some (sequenceTokens Q seq) := by
  have hname := Q.lex_quote seq.name seq.name.property
  rw [formatSequence, sequenceTokens]
  cases seq.schema with
  | none => exact hname
  | some schema =>
    have hpath := lex_append_separates (Q.lex_quote schema schema.property) separates_dot hname
    show lex (Q.quote schema ++ ".".toList ++ Q.quote seq.name) = _
    rw [List.append_assoc]
    exact hpath

theorem lex_nextValue : lex (visitSequence Q seq)
    = some (sequenceTokens Q seq ++ [.symbol '.', .word "NEXT_VALUE".toList]) :=
  lex_append_separates (lex_formatSequence Q seq) separates_dot (by decide)

theorem serialName_tokens {rest : List Token} (hrest : symbol '.' rest = none) :
    serialName (sequenceTokens Q seq ++ rest) = some (seq.serialName, rest) := by
  rw [sequenceTokens, Sequence.serialName]
  cases seq.schema with
  | none =>
    show ((ident (Q.token seq.name :: rest)).bind _).orElse _ = _
    rw [ident_token]
    show ((symbol '.' rest).bind _).orElse _ = _
    rw [hrest]
    show (ident (Q.token seq.name :: rest)).bind _ = _
    rw [ident_token]
    rfl
  | some owner =>
    show ((ident (Q.token owner :: .symbol '.' :: Q.token seq.name :: rest)).bind _).orElse _ = _
    rw [ident_token]
    show ((ident (Q.token seq.name :: rest)).bind _).orElse _ = _
    rw [ident_token]
    rfl

theorem bareNextValue_token (n : Name) (rest : List Token) :
    bareNextValue (Q.token n :: .symbol '.' :: .word "NEXT_VALUE".toList :: rest)
      = some ((none, n.val), rest) := by
  show (ident (Q.token n :: _)).bind _ = _
  rw [ident_token]
  rfl

/-- One token is too short. -/
theorem bareNextValue_singleton (t : Token) : bareNextValue [t] = none := by
  have hident : ident [t] = (identifier t).map fun s => (s, []) := by cases t <;> rfl
  show (ident [t]).bind _ = none
  rw [hident]
  cases identifier t <;> rfl

theorem nextValue_eq (ts : List Token) :
    nextValue ts = ((ident ts).bind fun r => (symbol '.' r.2).bind fun r' =>
      (bareNextValue r'.2).bind fun r'' => some ((some r.1, r''.1.2), r''.2)).orElse
        fun _ => bareNextValue ts := rfl

theorem symbol_self (c : Char) (rest : List Token) :
    symbol c (.symbol c :: rest) = some ((), rest) := by
  show Option.map _ (if Token.symbol c = .symbol c then some () else none) = _
  rw [if_pos rfl]
  rfl

theorem nextValue_bare (n : Name) :
    nextValue [Q.token n, .symbol '.', .word "NEXT_VALUE".toList] = some ((none, n.val), []) := by
  rw [nextValue_eq, ident_token, Option.bind_some, symbol_self, Option.bind_some,
    bareNextValue_singleton, bareNextValue_token]
  rfl

theorem nextValue_owned (owner n : Name) :
    nextValue [Q.token owner, .symbol '.', Q.token n, .symbol '.', .word "NEXT_VALUE".toList]
      = some ((some owner.val, n.val), []) := by
  rw [nextValue_eq, ident_token, Option.bind_some, symbol_self, Option.bind_some,
    bareNextValue_token]
  rfl

theorem nextValue_tokens :
    nextValue (sequenceTokens Q seq ++ [.symbol '.', .word "NEXT_VALUE".toList])
      = some (seq.serialName, []) := by
  rw [sequenceTokens, Sequence.serialName]
  cases seq.schema with
  | none => exact nextValue_bare Q seq.name
  | some owner => exact nextValue_owned Q owner seq.name

/-- A printed part and its option. -/
theorem elim_text {α : Type} (x : Option α) (f : α → SerialOption) :
    (x.elim [] fun a => (f a).text) = (x.map f).toList.flatMap SerialOption.text := by
  cases x with
  | none => rfl
  | some a => exact (List.flatMap_singleton _ _).symm

theorem boundText_minvalue (value : Option Int) (noValue : Option Bool) :
    boundText " MINVALUE ".toList " NOMINVALUE".toList value noValue
      = ((Sequence.bound value noValue).map .minvalue).toList.flatMap SerialOption.text := by
  rw [← elim_text]
  cases value with
  | some n => rfl
  | none =>
    rw [boundText.eq_def, Sequence.bound.eq_def]
    by_cases h : noValue = some true
    · simp only [if_pos h]
      rfl
    · simp only [if_neg h]
      rfl

theorem boundText_maxvalue (value : Option Int) (noValue : Option Bool) :
    boundText " MAXVALUE ".toList " NOMAXVALUE".toList value noValue
      = ((Sequence.bound value noValue).map .maxvalue).toList.flatMap SerialOption.text := by
  rw [← elim_text]
  cases value with
  | some n => rfl
  | none =>
    rw [boundText.eq_def, Sequence.bound.eq_def]
    by_cases h : noValue = some true
    · simp only [if_pos h]
      rfl
    · simp only [if_neg h]
      rfl

theorem visitCreateSequence_eq : visitCreateSequence Q seq
    = "CREATE SERIAL".toList ++ ' ' :: formatSequence Q seq
      ++ seq.options.flatMap SerialOption.text := by
  have hstart := elim_text seq.start .startWith
  have hincrement := elim_text seq.increment .incrementBy
  have hcycle := elim_text seq.cycle .cycle
  have hcache := elim_text seq.cache fun n => .cache (some n)
  rw [Sequence.options, List.flatMap_append, List.flatMap_append, List.flatMap_append,
    List.flatMap_append, List.flatMap_append, ← hstart, ← hincrement, ← boundText_minvalue,
    ← boundText_maxvalue, ← hcycle, ← hcache]
  simp only [← List.append_assoc]
  rfl

/-- **`CREATE SERIAL` names the serial and carries the settings.** -/
theorem serialStatement_create : (lex (visitCreateSequence Q seq)).bind serialStatement
    = some (seq.serialName, .create seq.settings) := by
  have hcreate : lex ("CREATE SERIAL".toList ++ ' ' :: formatSequence Q seq)
      = some (phrase ["CREATE".toList, "SERIAL".toList] ++ .space ' ' :: sequenceTokens Q seq) :=
    lex_append (by decide) rfl (lex_formatSequence Q seq)
  have hread : createSerial (phrase ["CREATE".toList, "SERIAL".toList]
      ++ .space ' ' :: sequenceTokens Q seq ++ optionsTokens seq.options)
      = some (seq.serialName, .create seq.settings) := by
    show (serialName (sequenceTokens Q seq ++ optionsTokens seq.options)).bind _ = _
    rw [serialName_tokens Q seq (symbol_optionsTokens _), Option.bind_some,
      manyToEnd_optionsTokens, Option.bind_some, seq.collect_options]
    rfl
  rw [visitCreateSequence_eq, lex_options seq.options hcreate, Option.bind_some, serialStatement,
    ← optionsTokens, hread]
  rfl

theorem serialStatement_drop : (lex (visitDropSequence Q seq)).bind serialStatement
    = some (seq.serialName, .drop true) := by
  have hdrop : lex (visitDropSequence Q seq)
      = some (phrase ["DROP".toList, "SERIAL".toList, "IF".toList, "EXISTS".toList]
        ++ .space ' ' :: sequenceTokens Q seq) :=
    lex_append (s := "DROP SERIAL IF EXISTS".toList) (by decide) rfl (lex_formatSequence Q seq)
  have hread : dropSerial (phrase ["DROP".toList, "SERIAL".toList, "IF".toList, "EXISTS".toList]
      ++ .space ' ' :: (sequenceTokens Q seq ++ [])) = some ((seq.serialName, .drop true), []) := by
    show (serialName (sequenceTokens Q seq ++ [])).bind _ = _
    rw [serialName_tokens Q seq rfl]
    rfl
  rw [List.append_nil] at hread
  rw [hdrop, Option.bind_some, serialStatement, hread]
  rfl

theorem serialStatement_fire : (lex (fireSequence Q seq)).bind serialStatement
    = some (seq.serialName, .nextValue) := by
  have hselect : lex ("SELECT".toList ++ ' ' :: visitSequence Q seq)
      = some ([.word "SELECT".toList] ++ .space ' '
        :: (sequenceTokens Q seq ++ [.symbol '.', .word "NEXT_VALUE".toList])) :=
    lex_append (by decide) rfl (lex_nextValue Q seq)
  have htext : fireSequence Q seq = "SELECT".toList ++ ' ' :: visitSequence Q seq := rfl
  have hread : ∀ ts, selectNextValue (.word "SELECT".toList :: .space ' ' :: ts)
      = (nextValue ts).bind fun r => some ((r.1, .nextValue), r.2) := fun _ => rfl
  rw [htext, hselect, Option.bind_some, serialStatement, List.singleton_append, hread,
    nextValue_tokens]
  rfl

theorem serialValue_visit : (lex (visitSequence Q seq)).bind serialValue
    = some (seq.serialName, .nextValue) := by
  rw [lex_nextValue, Option.bind_some, serialValue, nextValue_tokens]
  rfl

end Read

/-! ### The server -/

/-- What a server does with a serial: `create` refuses settings that do not fit
together, and `next` gives a value, if there is one left. -/
structure SerialServer (τ : Type) where
  create : SerialSettings → Option τ
  next : τ → Option (Int × τ)

inductive SerialCall where
  | create (seq : Sequence)
  | drop (seq : Sequence)
  /-- `fire_sequence` -/
  | fire (seq : Sequence)
  /-- as a value in a statement -/
  | value (seq : Sequence)

namespace SerialCall

def sequence : SerialCall → Sequence
  | .create seq => seq
  | .drop seq => seq
  | .fire seq => seq
  | .value seq => seq

/-- What the call is to do. -/
def command : SerialCall → SerialCommand
  | .create seq => .create seq.settings
  | .drop _ => .drop true
  | .fire _ => .nextValue
  | .value _ => .nextValue

/-- What the server reads. -/
def read (Q : NameQuoter) : SerialCall → Option (SerialName × SerialCommand)
  | .create seq => (lex (visitCreateSequence Q seq)).bind serialStatement
  | .drop seq => (lex (visitDropSequence Q seq)).bind serialStatement
  | .fire seq => (lex (fireSequence Q seq)).bind serialStatement
  | .value seq => (lex (visitSequence Q seq)).bind serialValue

theorem read_eq (Q : NameQuoter) (c : SerialCall) :
    c.read Q = some (c.sequence.serialName, c.command) := by
  cases c with
  | create seq => exact serialStatement_create Q seq
  | drop seq => exact serialStatement_drop Q seq
  | fire seq => exact serialStatement_fire Q seq
  | value seq => exact serialValue_visit Q seq

end SerialCall

section Server

variable {τ κ : Type} [DecidableEq κ] (Q : NameQuoter) (S : SerialServer τ)

/-- A command on one serial, which may not exist. -/
def serialStep : Option τ → SerialCommand → Except PyError (Option Int) × Option τ
  | none, .create settings =>
    (S.create settings).elim (.error .databaseError, none) fun t => (.ok none, some t)
  | some t, .create _ => (.error .databaseError, some t)
  | none, .drop b => (if b then .ok none else .error .databaseError, none)
  | some _, .drop _ => (.ok none, none)
  | none, .nextValue => (.error .databaseError, none)
  | some t, .nextValue =>
    (S.next t).elim (.error .databaseError, some t) fun r => (.ok (some r.1), some r.2)

/-- One serial, which is told the settings. -/
def serialMachine : Machine (Option τ) SerialCall (Except PyError (Option Int)) where
  step t c := serialStep S t c.command

/-- A server that reads texts; `resolve` is its idea of which names mean the same
serial. -/
def textMachine (resolve : SerialName → κ) :
    Machine (κ → Option τ) SerialCall (Except PyError (Option Int)) where
  step serials c :=
    (c.read Q).elim (.error .databaseError, serials) fun r =>
      let k := resolve r.1
      ((serialStep S (serials k) r.2).1,
        Function.update serials k (serialStep S (serials k) r.2).2)

/-- **The calls on one serial are answered as if it was alone**, whatever is done
with others in between, and as if the settings of its sequences were handed over
instead of printed and read. -/
theorem serial_runs_agree (resolve : SerialName → κ) (serials : κ → Option τ)
    (calls : List SerialCall) (k : κ) :
    (textMachine Q S resolve).answersOn (fun c => resolve c.sequence.serialName = k) serials calls
        = (serialMachine S).answers (serials k)
          (calls.filter fun c => resolve c.sequence.serialName = k) ∧
      (textMachine Q S resolve).run serials calls k
        = (serialMachine S).run (serials k)
          (calls.filter fun c => resolve c.sequence.serialName = k) := by
  have hstep : ∀ (s : κ → Option τ) (c : SerialCall), (textMachine Q S resolve).step s c
      = ((serialStep S (s (resolve c.sequence.serialName)) c.command).1,
        Function.update s (resolve c.sequence.serialName)
          (serialStep S (s (resolve c.sequence.serialName)) c.command).2) := by
    intro s c
    simp only [textMachine, c.read_eq Q, Option.elim_some]
  have hview := Machine.projection (textMachine Q S resolve) (serialMachine S)
    (p := fun c => resolve c.sequence.serialName = k) (fun s => s k) ?_ ?_ serials calls
  · exact hview
  · intro s c hc
    have hk : resolve c.sequence.serialName = k := by simpa using hc
    rw [Machine.answer, Machine.next, hstep, hk]
    exact ⟨rfl, Function.update_self _ _ _⟩
  · intro s c hc
    have hk : k ≠ resolve c.sequence.serialName := fun h => by simp [h] at hc
    rw [Machine.next, hstep]
    exact Function.update_of_ne hk _ _

end Server

end SqlalchemyCubrid.Compiler
