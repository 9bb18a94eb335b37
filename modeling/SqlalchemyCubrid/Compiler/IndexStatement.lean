import SqlalchemyCubrid.Compiler.CreateIndex
import SqlalchemyCubrid.Compiler.TableStatement

/-!
# Reading `CREATE INDEX` and `DROP INDEX`

`indexStatement` reads the statements of `visit_create_index` and
`visit_drop_index`.  A key that reads as a column, with or without a direction, is
one, and everything else between the commas is an expression.

`parseIndex_create` and `parseIndex_drop` say that what is printed is one statement
and the one that is meant: the option `cubrid_function` takes the place of all keys,
and `cubrid_filtered` reaches to the end.
-/

namespace SqlalchemyCubrid.Compiler

open Lib Lib.Sql Python Dialect

/-! ### Statements -/

inductive IndexFlag where
  | unique
  | reverse
  deriving DecidableEq, Repr

inductive CreatedKey where
  | column (name : Str) (descending : Bool)
  | function (expr : List Token)
  deriving DecidableEq, Repr

structure CreatedIndex where
  flags : List IndexFlag
  name : Str
  table : Str
  keys : List CreatedKey
  filter : Option (List Token)
  deriving DecidableEq, Repr

inductive IndexStatement where
  | create (index : CreatedIndex)
  | drop (name table : Str)
  deriving DecidableEq, Repr

def indexFlag : Parser IndexFlag :=
  (do keyword "UNIQUE".toList; return .unique) <|> (do keyword "REVERSE".toList; return .reverse)

def keyDirection : Parser Bool :=
  (do keyword "DESC".toList; return true)
  <|> (do keyword "ASC".toList; return false)
  <|> pure false

def columnKey : Parser CreatedKey := do
  let n ← ident
  return .column n (← keyDirection)

/-- A key is a column if it reads as one. -/
def readKey (ts : List Token) : CreatedKey :=
  ((columnKey ts).filter fun r => skip r.2 = []).elim (.function ts) Prod.fst

/-- What a key ends at. -/
def stopKey (t : Token) : Bool := t = .symbol ',' || t = .symbol ')'

def createdKey : Parser CreatedKey := do return readKey (← someFragment stopKey)

/-- The condition of a filtered index, up to the end. -/
def indexFilter : Parser (Option (List Token)) :=
  (do keyword "WHERE".toList; return some (← someFragment fun _ => false)) <|> pure none

def createIndex : Parser CreatedIndex := do
  keyword "CREATE".toList
  let flags ← many indexFlag
  keyword "INDEX".toList
  let n ← ident
  keyword "ON".toList
  let table ← ident
  let keys ← parens (commaList createdKey)
  return ⟨flags, n, table, keys, ← indexFilter⟩

def dropIndex : Parser IndexStatement := do
  keyword "DROP".toList
  keyword "INDEX".toList
  let n ← ident
  keyword "ON".toList
  return .drop n (← ident)

def indexStatement : Parser IndexStatement := (do return .create (← createIndex)) <|> dropIndex

/-- A text that is one statement. -/
def parseIndex (s : Str) : Option IndexStatement :=
  (lex s).bind fun ts => (indexStatement ts).bind fun r => if skip r.2 = [] then some r.1 else none

/-! ### What is printed -/

/-- `visit_drop_index` -/
def visitDropIndex (P : Preparer) (index : Index) : Str :=
  "DROP INDEX ".toList ++ P.preparedIndexName index.name ++ " ON ".toList
    ++ P.formatTable index.table

/-- The preparer of the dialect, with the quotes of `Q` where they are optional. -/
def NameQuoter.indexPreparer (Q : NameQuoter) : Preparer := ⟨Q.quote, Q.quote, Q.quote⟩

namespace Index

def flags (index : Index) : List IndexFlag :=
  (if index.unique then [.unique] else [])
    ++ if index.dialectOptions.reverse then [.reverse] else []

/-- A function stands for all keys. -/
def printedKeys (index : Index) : List KeyDef :=
  (truthy index.dialectOptions.function).elim
    (index.expressions.filterMap fun e => e.map fun c => .column c.name c.descending)
    fun f => [.function f]

end Index

/-- A text that is not blank and keeps what ends it in parentheses. -/
def IsUpTo (stop : Token → Bool) (s : Str) : Prop :=
  lex s = some (tokensOf s) ∧ sealedAt stop 0 (tokensOf s) = true ∧ trim (tokensOf s) ≠ []

instance (stop : Token → Bool) (s : Str) : Decidable (IsUpTo stop s) :=
  inferInstanceAs (Decidable (_ ∧ _))

/-- A column has a name, and an expression is one that is not read as a column. -/
def KeyDef.Readable : KeyDef → Prop
  | .column name _ => name ≠ []
  | .function e => IsUpTo stopKey e ∧ readKey (trim (tokensOf e)) = .function (trim (tokensOf e))

instance : (k : KeyDef) → Decidable k.Readable
  | .column name _ => inferInstanceAs (Decidable (name ≠ []))
  | .function _ => inferInstanceAs (Decidable (_ ∧ _))

/-- An index of columns or of one expression. -/
structure Index.Readable (index : Index) : Prop where
  name_ne_nil : index.name ≠ []
  table_ne_nil : index.table ≠ []
  compiles : truthy index.dialectOptions.function = none → none ∉ index.expressions
  keys_ne_nil : index.printedKeys ≠ []
  keys : ∀ k ∈ index.printedKeys, k.Readable
  filter : ∀ f ∈ truthy index.dialectOptions.filtered, IsUpTo (fun _ => false) f

/-- The key that is meant. -/
def KeyDef.created : KeyDef → CreatedKey
  | .column name descending => .column name descending
  | .function e => .function (trim (tokensOf e))

/-- The index that is meant. -/
def Index.created (index : Index) : CreatedIndex where
  flags := index.flags
  name := index.name
  table := index.table
  keys := index.printedKeys.map KeyDef.created
  filter := (truthy index.dialectOptions.filtered).map fun f => trim (tokensOf f)

section Text

variable (P : Preparer)

theorem mapM_of_none_not_mem {β γ : Type} (f : β → γ) {l : List (Option β)} (h : none ∉ l) :
    l.mapM (Option.map f) = some (l.filterMap fun b => b.map f) := by
  induction l with
  | nil => rfl
  | cons b l ih =>
    obtain ⟨hb, hl⟩ := not_or.mp fun hor => h (List.mem_cons.mpr hor)
    cases b with
    | none => exact absurd rfl hb
    | some b =>
      rw [List.mapM_cons, ih hl]
      rfl

/-- **An index that compiles is printed with its keys.** -/
theorem visitCreateIndex_printed {index : Index} (h : index.Readable) :
    visitCreateIndex P index = some
      (createIndexHead P index.unique index.dialectOptions.reverse index.name index.table
        ++ parenthesized (join ", ".toList (index.printedKeys.map (KeyDef.text P)))
        ++ whereClause index.dialectOptions.filtered) := by
  have hcompiles := h.compiles
  rw [visitCreateIndex, Index.printedKeys]
  cases hf : truthy index.dialectOptions.function with
  | some f =>
    rw [Option.elim_some, List.map_singleton, join_singleton]
    rfl
  | none =>
    rw [mapM_of_none_not_mem _ (hcompiles hf), Option.elim_none, List.map_filterMap]
    simp only [Option.map_map, Option.map_some]
    rfl

end Text

/-! ### Keys -/

section Keys

variable (Q : NameQuoter)

theorem isBlank_stopKey {t : Token} (h : isBlank t) : stopKey t = false := by
  cases t with
  | word s => cases h
  | quoted q s => cases h
  | symbol c => cases h
  | space c => rfl
  | comment s => rfl

/-- A name is a word or in quotes. -/
theorem NameQuoter.token_cases {n : Str} (hn : n ≠ []) :
    (∃ s, Q.token n = .word s) ∨ ∃ q s, Q.token n = .quoted q s := by
  have hname := Q.identifier_token n hn
  cases ht : Q.token n with
  | word s => exact Or.inl ⟨s, rfl⟩
  | quoted q s => exact Or.inr ⟨q, s, rfl⟩
  | symbol c =>
    rw [ht] at hname
    cases hname
  | space c =>
    rw [ht] at hname
    cases hname
  | comment s =>
    rw [ht] at hname
    cases hname

def KeyDef.tokens : KeyDef → List Token
  | .column name descending =>
    Q.token name :: if descending then [.space ' ', .word "DESC".toList] else []
  | .function e => tokensOf e

theorem KeyDef.lex_text {k : KeyDef} (h : k.Readable) :
    lex (k.text Q.indexPreparer) = some (k.tokens Q) := by
  cases k with
  | function e => exact h.1.1
  | column name descending =>
    have hname := Q.lex_quote name h
    cases descending with
    | false =>
      show lex (Q.quote name ++ []) = some [Q.token name]
      rw [List.append_nil]
      exact hname
    | true =>
      have hword : lex "DESC".toList = some [.word "DESC".toList] := by decide
      exact lex_append hname (c := ' ') rfl hword

theorem layoutFree_keyDirection : LayoutFree keyDirection :=
  ((layoutFree_keyword _).bind fun _ => layoutFree_pure _).orElse
    (((layoutFree_keyword _).bind fun _ => layoutFree_pure _).orElse (layoutFree_pure _))

theorem readKey_of_reads {ts : List Token} {k : CreatedKey} (h : Reads columnKey ts k []) :
    readKey ts = k := by
  obtain ⟨r, hread, hskip⟩ := h.exists_rest
  have hend : skip r = [] := hskip
  simp only [readKey, hread, Option.filter_some, hend, decide_true, if_true, Option.elim_some]

/-- **A column is read as one**, with its direction. -/
theorem readKey_column {name : Str} (hname : name ≠ []) (descending : Bool) :
    readKey ((KeyDef.column name descending).tokens Q) = .column name descending := by
  have hdirection : Reads keyDirection
      (if descending then [.space ' ', .word "DESC".toList] else []) descending [] := by
    cases descending with
    | false => rfl
    | true =>
      have hword := (reads_keyword (w := "DESC".toList) (by decide) []).map fun _ => true
      exact (hword.left _).space layoutFree_keyDirection ' '
  exact readKey_of_reads ((reads_ident Q hname _).bind
    (layoutFree_keyDirection.bind fun _ => layoutFree_pure _)
    (hdirection.map (CreatedKey.column name)))

/-- The tokens of a key are its own, and are read as the key that is meant. -/
theorem KeyDef.readKey_tokens {k : KeyDef} (h : k.Readable) :
    sealedAt stopKey 0 (k.tokens Q) = true ∧ trim (k.tokens Q) ≠ [] ∧
      readKey (trim (k.tokens Q)) = k.created := by
  cases k with
  | function e => exact ⟨h.1.2.1, h.1.2.2, h.2⟩
  | column name descending =>
    have htokens : sealedAt stopKey 0 ((KeyDef.column name descending).tokens Q) = true ∧
        trim ((KeyDef.column name descending).tokens Q)
          = (KeyDef.column name descending).tokens Q := by
      rw [KeyDef.tokens]
      rcases Q.token_cases h with ⟨s, hs⟩ | ⟨q, s, hs⟩ <;> rw [hs] <;> cases descending <;>
        exact ⟨rfl, rfl⟩
    obtain ⟨hsealed, htrim⟩ := htokens
    rw [htrim]
    exact ⟨hsealed, List.cons_ne_nil _ _, readKey_column Q h descending⟩

theorem layoutFree_createdKey : LayoutFree createdKey :=
  (layoutFree_someFragment fun _ => isBlank_stopKey).bind fun _ => layoutFree_pure _

theorem reads_createdKey {k : KeyDef} (h : k.Readable) {rest : List Token}
    (hrest : Stops stopKey (skip rest)) :
    Reads createdKey (k.tokens Q ++ rest) k.created rest := by
  obtain ⟨hsealed, hne, hkey⟩ := k.readKey_tokens Q h
  have hread := (reads_someFragment (fun _ => isBlank_stopKey) hsealed hne hrest).map readKey
  rw [hkey] at hread
  exact hread

/-- **The keys are read one by one.** -/
theorem reads_keys {ks : List KeyDef} (hne : ks ≠ []) (hks : ∀ k ∈ ks, k.Readable)
    (rest : List Token) :
    Reads (parens (commaList createdKey))
      (.symbol '(' :: (separated [.space ' '] (ks.map fun k => k.tokens Q)
        ++ .symbol ')' :: rest)) (ks.map KeyDef.created) rest := by
  obtain ⟨k, ks, rfl⟩ := List.exists_cons_of_ne_nil hne
  have hread := reads_commaList (E := fun ts => Stops stopKey (skip ts)) (g := KeyDef.created)
    (T := fun k => k.tokens Q) layoutFree_createdKey [.space ' '] (by simp [isBlank]) k ks
    (fun k hk rest hrest => reads_createdKey Q (hks k hk) hrest) (fun _ => stops_cons rfl)
    (r := .symbol ')' :: rest) (stops_cons rfl) (symbol_eq_none rfl (by decide))
  exact reads_parens layoutFree_createdKey.commaList hread rfl

end Keys

/-! ### Flags and conditions -/

namespace IndexFlag

def text : IndexFlag → Str
  | .unique => "UNIQUE ".toList
  | .reverse => "REVERSE ".toList

def tokens : IndexFlag → List Token
  | .unique => [.word "UNIQUE".toList, .space ' ']
  | .reverse => [.word "REVERSE".toList, .space ' ']

theorem lex_text (o : IndexFlag) {s : Str} {ts : List Token} (hs : lex s = some ts) :
    lex (o.text ++ s) = some (o.tokens ++ ts) := by
  cases o with
  | unique =>
    have hword : lex "UNIQUE".toList = some [.word "UNIQUE".toList] := by decide
    exact lex_append hword (c := ' ') rfl hs
  | reverse =>
    have hword : lex "REVERSE".toList = some [.word "REVERSE".toList] := by decide
    exact lex_append hword (c := ' ') rfl hs

end IndexFlag

theorem lex_flags (os : List IndexFlag) {s : Str} {ts : List Token} (hs : lex s = some ts) :
    lex (os.flatMap IndexFlag.text ++ s) = some (os.flatMap IndexFlag.tokens ++ ts) := by
  induction os with
  | nil => exact hs
  | cons o os ih =>
    have ho := o.lex_text ih
    rw [← List.append_assoc, ← List.append_assoc] at ho
    exact ho

theorem layoutFree_indexFlag : LayoutFree indexFlag :=
  ((layoutFree_keyword _).bind fun _ => layoutFree_pure _).orElse
    ((layoutFree_keyword _).bind fun _ => layoutFree_pure _)

theorem reads_indexFlag (o : IndexFlag) (rest : List Token) :
    Reads indexFlag (o.tokens ++ rest) o rest := by
  cases o with
  | unique =>
    have hword := (reads_keyword (w := "UNIQUE".toList) (by decide) (.space ' ' :: rest)).map
      fun _ => IndexFlag.unique
    exact hword.left _
  | reverse =>
    have hword := (reads_keyword (w := "REVERSE".toList) (by decide) (.space ' ' :: rest)).map
      fun _ => IndexFlag.reverse
    have hother := keyword_ne (v := "REVERSE".toList) (w := "UNIQUE".toList) (by decide)
      (.space ' ' :: rest)
    exact Reads.right (bind_eq_none hother) hword

/-- The flags end at the word behind them. -/
theorem reads_flags (os : List IndexFlag) (rest : List Token) :
    Reads (many indexFlag) (os.flatMap IndexFlag.tokens ++ .word "INDEX".toList :: rest) os
      (.word "INDEX".toList :: rest) := by
  have hstop : indexFlag (.word "INDEX".toList :: rest) = none :=
    orElse_eq_none (bind_eq_none (keyword_ne (by decide) rest))
      (bind_eq_none (keyword_ne (by decide) rest))
  have hread := reads_many (E := fun _ => True) (g := id) (T := IndexFlag.tokens)
    layoutFree_indexFlag trivial hstop os (fun o _ rest _ => reads_indexFlag o rest)
    (fun _ _ _ => trivial) (fun o _ => by cases o <;> decide)
  rw [List.map_id] at hread
  exact hread

def filterTokens (filtered : Option Str) : List Token :=
  (truthy filtered).elim [] fun f =>
    .space ' ' :: .word "WHERE".toList :: .space ' ' :: tokensOf f

theorem lex_whereClause {filtered : Option Str}
    (h : ∀ f ∈ truthy filtered, IsUpTo (fun _ => false) f) {s : Str} {ts : List Token}
    (hs : lex s = some ts) :
    lex (s ++ whereClause filtered) = some (ts ++ filterTokens filtered) := by
  rw [whereClause, filterTokens]
  cases hf : truthy filtered with
  | none =>
    rw [Option.elim_none, List.append_nil, List.append_nil]
    exact hs
  | some f =>
    have hword : lex "WHERE".toList = some [.word "WHERE".toList] := by decide
    exact lex_append hs (c := ' ') rfl (lex_append hword (c := ' ') rfl (h f hf).1)

theorem layoutFree_indexFilter : LayoutFree indexFilter :=
  ((layoutFree_keyword _).bind fun _ => (layoutFree_someFragment fun _ _ => rfl).bind fun _ =>
    layoutFree_pure _).orElse (layoutFree_pure _)

/-- **A condition reaches to the end.** -/
theorem reads_indexFilter {filtered : Option Str}
    (h : ∀ f ∈ truthy filtered, IsUpTo (fun _ => false) f) :
    Reads indexFilter (filterTokens filtered)
      ((truthy filtered).map fun f => trim (tokensOf f)) [] := by
  rw [filterTokens]
  cases hf : truthy filtered with
  | none => rfl
  | some f =>
    obtain ⟨-, hsealed, hne⟩ := h f hf
    have hfree : LayoutFree (someFragment fun _ => false) := layoutFree_someFragment fun _ _ => rfl
    have hread : Reads (someFragment fun _ => false) (tokensOf f) (trim (tokensOf f)) [] := by
      have hstops : Stops (fun _ => false) (skip []) := stops_nil
      simpa using reads_someFragment (fun _ _ => rfl) hsealed hne hstops
    have hcond := hread.map some
    have hfree' := hfree.bind fun ts => layoutFree_pure (some ts)
    have hword := (reads_keyword (w := "WHERE".toList) (by decide) _).andThen hfree'
      (hcond.space hfree' ' ')
    exact (hword.left _).space layoutFree_indexFilter ' '

/-! ### The statements -/

section Statements

variable (Q : NameQuoter)

/-- An index behind `CREATE` and its flags. -/
def indexTokens (index : Index) : List Token :=
  .word "INDEX".toList :: .space ' ' :: Q.token index.name :: .space ' ' :: .word "ON".toList
    :: .space ' ' :: Q.token index.table :: .space ' ' :: .symbol '('
    :: (separated [.space ' '] (index.printedKeys.map fun k => k.tokens Q)
      ++ .symbol ')' :: filterTokens index.dialectOptions.filtered)

def createTokensOf (index : Index) : List Token :=
  .word "CREATE".toList :: .space ' '
    :: (index.flags.flatMap IndexFlag.tokens ++ indexTokens Q index)

theorem head_append (create unique reverse index name on table blank rest : Str) :
    create ++ unique ++ reverse ++ index ++ name ++ on ++ table ++ blank ++ rest
      = create ++ (unique ++ reverse
        ++ (index ++ (name ++ (on ++ (table ++ (blank ++ rest)))))) := by
  simp only [List.append_assoc]

theorem createIndexHead_eq (P : Preparer) (index : Index) (rest : Str) :
    createIndexHead P index.unique index.dialectOptions.reverse index.name index.table ++ rest
      = "CREATE ".toList ++ (index.flags.flatMap IndexFlag.text ++ ("INDEX ".toList
        ++ (P.preparedIndexName index.name ++ (" ON ".toList ++ (P.formatTable index.table
          ++ (" ".toList ++ rest)))))) := by
  have hunique : (if index.unique then "UNIQUE ".toList else [])
      = (if index.unique then [IndexFlag.unique] else []).flatMap IndexFlag.text := by
    cases index.unique <;> rfl
  have hreverse : (if index.dialectOptions.reverse then "REVERSE ".toList else [])
      = (if index.dialectOptions.reverse then [IndexFlag.reverse] else []).flatMap
        IndexFlag.text := by
    cases index.dialectOptions.reverse <;> rfl
  rw [Index.flags, List.flatMap_append, ← hunique, ← hreverse]
  exact head_append _ _ _ _ _ _ _ _ _

theorem index_text (n t keys filter : Str) :
    "INDEX ".toList ++ (n ++ (" ON ".toList ++ (t ++ (" ".toList ++ (parenthesized keys
        ++ filter)))))
      = "INDEX".toList ++ ' ' :: (n ++ ' ' :: ("ON".toList ++ ' ' :: (t ++ ' ' :: '('
        :: (keys ++ ')' :: filter)))) := by
  rw [parenthesized, List.cons_append, List.append_assoc]
  rfl

theorem lex_visitCreateIndex {index : Index} (h : index.Readable) :
    ∃ s, visitCreateIndex Q.indexPreparer index = some s ∧
      lex s = some (createTokensOf Q index) := by
  have hcreate : lex "CREATE".toList = some [.word "CREATE".toList] := by decide
  have hindex : lex "INDEX".toList = some [.word "INDEX".toList] := by decide
  have hon : lex "ON".toList = some [.word "ON".toList] := by decide
  have hname := Q.lex_quote index.name h.name_ne_nil
  have htable := Q.lex_quote index.table h.table_ne_nil
  have hkeys : lex (join ", ".toList (index.printedKeys.map (KeyDef.text Q.indexPreparer)))
      = some (separated [.space ' '] (index.printedKeys.map fun k => k.tokens Q)) :=
    lex_separated (g := [' ']) (by decide) index.printedKeys
      fun k hk => KeyDef.lex_text Q (h.keys k hk)
  have hnothing : lex [] = some [] := rfl
  have hfilter := lex_whereClause h.filter hnothing
  have hclosed := lex_append hkeys (c := ')') rfl hfilter
  have hlist := lex_append htable (c := ' ') rfl (lex_cons (c := '(') rfl hclosed)
  have hrest := lex_append hindex (c := ' ') rfl (lex_append hname (c := ' ') rfl
    (lex_append hon (c := ' ') rfl hlist))
  have hall := lex_append hcreate (c := ' ') rfl (lex_flags index.flags hrest)
  refine ⟨_, visitCreateIndex_printed Q.indexPreparer h, ?_⟩
  rw [List.append_assoc, createIndexHead_eq, index_text]
  exact hall

theorem reads_createIndex {index : Index} (h : index.Readable) :
    Reads createIndex (createTokensOf Q index) index.created [] := by
  have hfilter := layoutFree_indexFilter
  have hkeys := layoutFree_createdKey.commaList.parens
  have hlast (os : List IndexFlag) (n t : Str) (ks : List CreatedKey) : LayoutFree (do
      return CreatedIndex.mk os n t ks (← indexFilter)) := hfilter.bind fun _ => layoutFree_pure _
  have hlist (os : List IndexFlag) (n t : Str) : LayoutFree (do
      let keys ← parens (commaList createdKey)
      return CreatedIndex.mk os n t keys (← indexFilter)) := hkeys.bind fun _ => hlast os n t _
  have htable (os : List IndexFlag) (n : Str) : LayoutFree (do
      let table ← ident
      let keys ← parens (commaList createdKey)
      return CreatedIndex.mk os n table keys (← indexFilter)) :=
    layoutFree_ident.bind fun _ => hlist os n _
  have hon (os : List IndexFlag) (n : Str) := (layoutFree_keyword "ON".toList).bind
    fun _ => htable os n
  have hname (os : List IndexFlag) := layoutFree_ident.bind fun n => hon os n
  have hindex (os : List IndexFlag) := (layoutFree_keyword "INDEX".toList).bind fun _ => hname os
  have hflags := layoutFree_indexFlag.many.bind hindex
  refine (reads_keyword (w := "CREATE".toList) (by decide) _).andThen hflags ?_
  refine Reads.space ?_ hflags ' '
  refine (reads_flags index.flags _).bind (hindex _) ?_
  refine (reads_keyword (w := "INDEX".toList) (by decide) _).andThen (hname _) ?_
  refine Reads.space ?_ (hname _) ' '
  refine (reads_ident Q h.name_ne_nil _).bind (hon _ _) ?_
  refine Reads.space ?_ (hon _ _) ' '
  refine (reads_keyword (w := "ON".toList) (by decide) _).andThen (htable _ _) ?_
  refine Reads.space ?_ (htable _ _) ' '
  refine (reads_ident Q h.table_ne_nil _).bind (hlist _ _ _) ?_
  refine Reads.space ?_ (hlist _ _ _) ' '
  refine (reads_keys Q h.keys_ne_nil h.keys _).bind (hlast _ _ _ _) ?_
  exact (reads_indexFilter h.filter).map (CreatedIndex.mk _ _ _ _)

theorem parseIndex_of_reads {s : Str} {ts : List Token} (hs : lex s = some ts)
    {t : IndexStatement} (h : Reads indexStatement ts t []) : parseIndex s = some t := by
  obtain ⟨r, hread, hskip⟩ := h.exists_rest
  have hend : skip r = [] := hskip
  rw [parseIndex, hs, Option.bind_some, hread, Option.bind_some, if_pos hend]

/-- **What is printed is one statement, and the one that is meant.** -/
theorem parseIndex_create {index : Index} (h : index.Readable) :
    (visitCreateIndex Q.indexPreparer index).bind parseIndex = some (.create index.created) := by
  obtain ⟨s, hs, hlex⟩ := lex_visitCreateIndex Q h
  rw [hs, Option.bind_some]
  exact parseIndex_of_reads hlex (((reads_createIndex Q h).map IndexStatement.create).left _)

theorem drop_text (n t : Str) :
    "DROP INDEX ".toList ++ n ++ " ON ".toList ++ t
      = "DROP".toList ++ ' ' :: ("INDEX".toList
        ++ ' ' :: (n ++ ' ' :: ("ON".toList ++ ' ' :: t))) := by
  simp only [List.append_assoc]
  rfl

theorem parseIndex_drop {index : Index} (hn : index.name ≠ []) (ht : index.table ≠ []) :
    parseIndex (visitDropIndex Q.indexPreparer index) = some (.drop index.name index.table) := by
  have hdrop : lex "DROP".toList = some [.word "DROP".toList] := by decide
  have hindex : lex "INDEX".toList = some [.word "INDEX".toList] := by decide
  have hon : lex "ON".toList = some [.word "ON".toList] := by decide
  have hlex := lex_append hdrop (c := ' ') rfl (lex_append hindex (c := ' ') rfl
    (lex_append (Q.lex_quote index.name hn) (c := ' ') rfl
      (lex_append hon (c := ' ') rfl (Q.lex_quote index.table ht))))
  rw [← drop_text] at hlex
  have htable := layoutFree_ident.bind fun t => layoutFree_pure (IndexStatement.drop index.name t)
  have hon' (n : Str) := (layoutFree_keyword "ON".toList).bind fun _ =>
    layoutFree_ident.bind fun t => layoutFree_pure (IndexStatement.drop n t)
  have hname := layoutFree_ident.bind hon'
  have hindex' := (layoutFree_keyword "INDEX".toList).bind fun _ => hname
  have hread : Reads dropIndex
      (.word "DROP".toList :: .space ' ' :: .word "INDEX".toList :: .space ' ' :: Q.token index.name
        :: .space ' ' :: .word "ON".toList :: .space ' ' :: Q.token index.table :: [])
      (.drop index.name index.table) [] := by
    refine (reads_keyword (w := "DROP".toList) (by decide) _).andThen hindex' ?_
    refine Reads.space ?_ hindex' ' '
    refine (reads_keyword (w := "INDEX".toList) (by decide) _).andThen hname ?_
    refine Reads.space ?_ hname ' '
    refine (reads_ident Q hn _).bind (hon' _) ?_
    refine Reads.space ?_ (hon' _) ' '
    refine (reads_keyword (w := "ON".toList) (by decide) _).andThen htable ?_
    refine Reads.space ?_ htable ' '
    exact (reads_ident Q ht []).map (IndexStatement.drop index.name)
  have hother := keyword_ne (v := "DROP".toList) (w := "CREATE".toList) (by decide)
  exact parseIndex_of_reads hlex (Reads.right (bind_eq_none (bind_eq_none (hother _))) hread)

end Statements

/-- An index on an expression, with a condition. -/
example : Index.created
    ⟨"i".toList, "t".toList, true, [], ⟨false, some " a > 0".toList, some "LOWER(b)".toList⟩⟩
      = ⟨[.unique], "i".toList, "t".toList,
        [.function [.word "LOWER".toList, .symbol '(', .word "b".toList, .symbol ')']],
        some [.word "a".toList, .space ' ', .symbol '>', .space ' ', .word "0".toList]⟩ := by
  decide

end SqlalchemyCubrid.Compiler
