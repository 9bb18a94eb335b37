import SqlalchemyCubrid.Compiler.CustomDdl
import SqlalchemyCubrid.Compiler.Names
import SqlalchemyCubrid.Compiler.TextClause

/-!
# DBLINK fragments

`DbLink(server, query, columns).as_text(alias)` is written for `text()`.  Its names
are printed as they are, the query as a literal.

A fragment is carried (`DbLink.Carried`) if `text()` finds no bind parameter in it
and what is sent is the call with the server that `CREATE SERVER` and `DROP SERVER`
name, the query, and the columns.  `dblink_carried_iff` finds the fragments that
are.
-/

namespace SqlalchemyCubrid.Compiler

open Lib Lib.Sql Python

/-! ### The printer -/

/-- Columns are a name and the text of a type. -/
structure DbLink where
  server : Str
  query : Str
  columns : List (Str × Expression)

namespace DbLink

/-- `col_defs` -/
def colDefs (columns : List (Str × Expression)) : Str :=
  join ", ".toList (columns.map fun c => c.1 ++ " ".toList ++ c.2.text)

def asText (L : DbLink) (tableAlias : Str) : Str :=
  if colDefs L.columns ≠ [] then
    "DBLINK(".toList ++ L.server ++ ", '".toList ++ escapeLiteral L.query ++ "') AS ".toList
      ++ tableAlias ++ "(".toList ++ colDefs L.columns ++ ")".toList
  else
    "DBLINK(".toList ++ L.server ++ ", '".toList ++ escapeLiteral L.query ++ "')".toList

/-! ### What a fragment means -/

/-- The server that a statement creates. -/
def createdServer (s : Str) : Option Str :=
  match parseSql s with
  | some [.createServer n _] => some n
  | _ => none

/-- The server that a statement drops. -/
def droppedServer (s : Str) : Option Str :=
  match parseSql s with
  | some [.dropServer _ n] => some n
  | _ => none

/-- The columns behind the names that stand for them. -/
def columnTokens (names : List Token) (columns : List (Str × Expression)) : List (List Token) :=
  List.zipWith (fun n c => n :: .space ' ' :: c.2.tokens) names columns

/-- `DBLINK(server, query)`, and for columns `AS alias(columns)`, with the blanks
that are printed. -/
def tokens (L : DbLink) (server tableAlias : Token) (names : List Token) : List Token :=
  .word "DBLINK".toList :: .symbol '(' :: server :: .symbol ',' :: .space ' '
    :: .quoted .literal L.query :: .symbol ')'
    :: if L.columns = [] then [] else
      .space ' ' :: .word "AS".toList :: .space ' ' :: tableAlias :: .symbol '('
        :: (joinTokens (columnTokens names L.columns) ++ [.symbol ')'])

/-- The fragment has no bind parameters and is sent as the call it is meant to be,
on the server of the two statements. -/
def Carried [UnicodeData] (L : DbLink) (tableAlias create drop : Str) : Prop :=
  occurs bindAt none (L.asText tableAlias) = false ∧
    ∃ server aliasToken names,
      lex (unescape (L.asText tableAlias)) = some (L.tokens server aliasToken names) ∧
      identifier server = some L.server ∧
      identifier server = createdServer create ∧
      identifier server = droppedServer drop ∧
      names.map identifier = (L.columns.map Prod.fst).map some ∧
      (L.columns ≠ [] → identifier aliasToken = some tableAlias)

/-! ### Its text -/

/-- What is printed around the names. -/
def frame (L : DbLink) (server tableAlias : Str) (names : List Str) : Str :=
  "DBLINK(".toList ++ server ++ ',' :: ' ' :: (delimited .literal L.query ++ ')'
    :: if L.columns = [] then [] else
      ' ' :: 'A' :: 'S' :: ' ' :: (tableAlias ++ '('
        :: (join ", ".toList (List.zipWith (fun n c => n ++ ' ' :: c.2.text) names L.columns)
          ++ ")".toList)))

theorem zipWith_names {α β : Type} (f : α → Str × Expression → β) (g : Str → α)
    (columns : List (Str × Expression)) :
    List.zipWith f ((columns.map Prod.fst).map g) columns = columns.map fun c => f (g c.1) c := by
  rw [List.map_map, List.zipWith_map_left, List.zipWith_self]
  rfl

theorem zipWith_fst (columns : List (Str × Expression)) :
    List.zipWith (fun n c => n ++ ' ' :: c.2.text) (columns.map Prod.fst) columns
      = columns.map fun c => c.1 ++ ' ' :: c.2.text := by
  rw [List.zipWith_map_left, List.zipWith_self]

theorem colDefs_eq (columns : List (Str × Expression)) :
    colDefs columns = join ", ".toList (List.zipWith (fun n c => n ++ ' ' :: c.2.text)
      (columns.map Prod.fst) columns) := by
  rw [colDefs, zipWith_fst]
  congr 1
  apply List.map_congr_left
  intro c _
  exact List.append_assoc _ _ _

theorem colDefs_eq_nil_iff (columns : List (Str × Expression)) :
    colDefs columns = [] ↔ columns = [] := by
  cases columns with
  | nil => exact iff_of_true rfl rfl
  | cons c columns =>
    apply iff_of_false
    · intro h
      have hlength := congrArg List.length h
      rw [colDefs, length_join, List.map_cons, List.map_cons, List.sum_cons,
        List.length_append, List.length_append] at hlength
      have hspace : " ".toList.length = 1 := rfl
      rw [hspace, List.length_nil] at hlength
      omega
    · exact List.cons_ne_nil _ _

theorem asText_eq (L : DbLink) (tableAlias : Str) :
    L.asText tableAlias = L.frame L.server tableAlias (L.columns.map Prod.fst) := by
  have hliteral : delimited .literal L.query
      = Quote.literal.char :: (escapeLiteral L.query ++ [Quote.literal.char]) := rfl
  unfold asText frame
  by_cases hcolumns : L.columns = []
  · rw [if_neg (not_not.mpr ((colDefs_eq_nil_iff _).mpr hcolumns)), if_pos hcolumns, hliteral]
    simp only [List.append_assoc, List.cons_append]
    rfl
  · rw [if_pos (mt (colDefs_eq_nil_iff _).mp hcolumns), if_neg hcolumns, hliteral, colDefs_eq]
    simp only [List.append_assoc, List.cons_append]
    rfl

/-- The text, cut at its parentheses and commas. -/
theorem asText_cut (L : DbLink) (tableAlias : Str) :
    L.asText tableAlias = "DBLINK".toList ++ '(' :: (L.server ++ ',' :: ' '
      :: (delimited .literal L.query ++ ')' :: if L.columns = [] then [] else
        ' ' :: (['A', 'S'] ++ ' ' :: (tableAlias ++ '(' :: (join ", ".toList
          (L.columns.map fun c => c.1 ++ ' ' :: c.2.text) ++ ')' :: []))))) := by
  have hopening : "DBLINK(".toList = "DBLINK".toList ++ ['('] := rfl
  have hclosing : ")".toList = [')'] := rfl
  rw [asText_eq]
  unfold frame
  rw [zipWith_fst, hopening, hclosing]
  simp only [List.append_assoc]
  simp only [List.cons_append, List.nil_append]

/-- **A fragment of plain names is read as it is meant.** -/
theorem lex_frame (L : DbLink) {tableAlias : Str} (hserver : isPlainName L.server)
    (halias : L.columns ≠ [] → isPlainName tableAlias)
    (hnames : ∀ c ∈ L.columns, isPlainName c.1) :
    lex (L.frame L.server tableAlias (L.columns.map Prod.fst))
      = some (L.tokens (.word L.server) (.word tableAlias)
        ((L.columns.map Prod.fst).map Token.word)) := by
  have hcall : ∀ {t : Str} {ts : List Token}, lex t = some ts →
      lex ("DBLINK(".toList ++ L.server ++ ',' :: ' ' :: (delimited .literal L.query ++ ')' :: t))
        = some (.word "DBLINK".toList :: .symbol '(' :: .word L.server :: .symbol ','
          :: .space ' ' :: .quoted .literal L.query :: .symbol ')' :: ts) := by
    intro t ts ht
    have hquery : lex (' ' :: (delimited .literal L.query ++ ')' :: t))
        = some (.space ' ' :: .quoted .literal L.query :: .symbol ')' :: ts) :=
      lex_cons rfl (lex_append (lex_delimited .literal L.query) rfl ht)
    have hargument := lex_append (lex_plainName hserver) (c := ',') rfl hquery
    have hopen : "DBLINK(".toList = "DBLINK".toList ++ ['('] := rfl
    rw [hopen, List.append_assoc, List.append_assoc]
    exact lex_append (s := "DBLINK".toList) (c := '(') rfl rfl hargument
  unfold frame tokens
  apply hcall
  by_cases hcolumns : L.columns = []
  · rw [if_pos hcolumns, if_pos hcolumns]
    rfl
  · rw [if_neg hcolumns, if_neg hcolumns]
    have hlist : lex (join ", ".toList (List.zipWith (fun n c => n ++ ' ' :: c.2.text)
          (L.columns.map Prod.fst) L.columns) ++ ")".toList)
        = some (joinTokens (columnTokens ((L.columns.map Prod.fst).map Token.word) L.columns)
          ++ [.symbol ')']) := by
      rw [zipWith_fst, columnTokens, zipWith_names]
      obtain ⟨c, cs, hcs⟩ := List.exists_cons_of_ne_nil hcolumns
      have hcolumn : ∀ x ∈ c :: cs, lex (x.1 ++ ' ' :: x.2.text)
          = some (.word x.1 :: .space ' ' :: x.2.tokens) := by
        intro x hx
        have hplain := hnames x (by rw [hcs]; exact hx)
        exact lex_append (lex_plainName hplain) rfl x.2.lex_text
      rw [hcs]
      exact lex_append (lex_join hcolumn) rfl rfl
    have hname := lex_append (lex_plainName (halias hcolumns)) (c := '(') rfl hlist
    exact lex_cons rfl (lex_append (s := "AS".toList) rfl rfl hname)

theorem textOf_joinTokens (parts : List (List Token)) :
    textOf (joinTokens parts) = join ", ".toList (parts.map textOf) := by
  induction parts with
  | nil => rfl
  | cons p parts ih =>
    cases parts with
    | nil =>
      have hone : joinTokens [p] = p := List.intercalate_singleton
      rw [hone, List.map_singleton, join_singleton]
    | cons p' parts =>
      have hsplit := joinTokens_cons_cons (fun q : List Token => q) p p' parts
      rw [List.map_id', List.map_id'] at hsplit
      rw [hsplit, textOf_append, List.map_cons, List.map_cons, join_cons_cons, List.append_assoc,
        ← List.map_cons, ← ih]
      rfl

/-- The text of the tokens, whatever stands for the names. -/
theorem textOf_tokens (L : DbLink) (server tableAlias : Token) (names : List Token) :
    textOf (L.tokens server tableAlias names)
      = L.frame server.text tableAlias.text (names.map Token.text) := by
  have hcolumns : (columnTokens names L.columns).map textOf
      = List.zipWith (fun n c => n ++ ' ' :: c.2.text) (names.map Token.text) L.columns := by
    rw [columnTokens, List.map_zipWith, List.zipWith_map_left]
    congr 1
    funext n c
    show n.text ++ ' ' :: textOf c.2.tokens = n.text ++ ' ' :: c.2.text
    rw [text_of_lex c.2.lex_text]
  unfold tokens frame
  by_cases hnil : L.columns = []
  · rw [if_pos hnil, if_pos hnil]
    simp only [textOf, List.flatMap_cons, Token.text, List.flatMap_nil, List.append_assoc,
      List.cons_append, List.nil_append]
    rfl
  · rw [if_neg hnil, if_neg hnil, ← hcolumns, ← textOf_joinTokens]
    simp only [textOf, List.flatMap_cons, List.flatMap_append, Token.text, List.flatMap_nil,
      List.append_assoc, List.cons_append, List.nil_append]
    rfl

/-! ### Its length -/

theorem length_columns {names : List Str} {columns : List (Str × Expression)}
    (h : names.length = columns.length) :
    ((List.zipWith (fun n c => n ++ ' ' :: c.2.text) names columns).map List.length).sum
      = (names.map List.length).sum + (columns.map fun c => c.2.text.length + 1).sum := by
  induction names generalizing columns with
  | nil =>
    have hnil : columns = [] := List.eq_nil_of_length_eq_zero h.symm
    rw [hnil]
    rfl
  | cons n names ih =>
    cases columns with
    | nil => cases h
    | cons c columns =>
      have hrest := ih (Nat.succ.inj h)
      simp only [List.zipWith_cons_cons, List.map_cons, List.sum_cons, List.length_append,
        List.length_cons]
      omega

/-- What a fragment has besides its names. -/
def restLength (L : DbLink) : Nat :=
  (delimited .literal L.query).length + 10
    + if L.columns = [] then 0 else
      (L.columns.map fun c => c.2.text.length + 1).sum + 2 * (L.columns.length - 1) + 6

/-- The names that are printed. -/
def nameLength (L : DbLink) (server tableAlias : Str) (names : List Str) : Nat :=
  server.length + if L.columns = [] then 0 else tableAlias.length + (names.map List.length).sum

theorem length_frame (L : DbLink) (server tableAlias : Str) {names : List Str}
    (h : names.length = L.columns.length) :
    (L.frame server tableAlias names).length
      = L.nameLength server tableAlias names + L.restLength := by
  have hopen : "DBLINK(".toList.length = 7 := rfl
  have hclose : ")".toList.length = 1 := rfl
  have hseparator : ", ".toList.length = 2 := rfl
  unfold frame nameLength restLength
  by_cases hnil : L.columns = []
  · rw [if_pos hnil, if_pos hnil, if_pos hnil]
    simp only [List.length_append, List.length_cons, List.length_nil, hopen]
    omega
  · rw [if_neg hnil, if_neg hnil, if_neg hnil]
    simp only [List.length_append, List.length_cons, length_join, hopen, hclose, hseparator,
      length_columns h, List.length_zipWith, h, Nat.min_self]
    omega

/-- **The tokens are no shorter than the names**, and longer unless the names are
plain. -/
theorem nameLength_identifiers (L : DbLink) {tableAlias : Str} {server aliasToken : Token}
    {names : List Token} (hserver : identifier server = some L.server)
    (hnames : names.map identifier = (L.columns.map Prod.fst).map some)
    (halias : L.columns ≠ [] → identifier aliasToken = some tableAlias) :
    L.nameLength L.server tableAlias (L.columns.map Prod.fst)
        ≤ L.nameLength server.text aliasToken.text (names.map Token.text) ∧
      (L.nameLength server.text aliasToken.text (names.map Token.text)
          = L.nameLength L.server tableAlias (L.columns.map Prod.fst) →
        isPlainName L.server ∧ (L.columns ≠ [] → isPlainName tableAlias) ∧
          ∀ c ∈ L.columns, isPlainName c.1) := by
  obtain ⟨hle, hplain⟩ := length_identifier hserver
  unfold nameLength
  by_cases hnil : L.columns = []
  · rw [if_pos hnil, if_pos hnil]
    refine ⟨by omega, ?_⟩
    intro h
    refine ⟨(hplain (by omega)).2, fun hne => absurd hnil hne, ?_⟩
    rw [hnil]
    exact List.forall_mem_nil _
  · obtain ⟨hlea, hplaina⟩ := length_identifier (halias hnil)
    obtain ⟨hlen, hplainn⟩ := length_identifiers hnames
    have htexts : ((names.map Token.text).map List.length).sum
        = (names.map fun t => t.text.length).sum := by
      rw [List.map_map]
      rfl
    rw [if_neg hnil, if_neg hnil, htexts]
    refine ⟨by omega, ?_⟩
    intro h
    refine ⟨(hplain (by omega)).2, fun _ => (hplaina (by omega)).2, ?_⟩
    intro c hc
    exact hplainn (by omega) c.1 (List.mem_map_of_mem hc)

/-! ### Its marks -/

section Marks

variable [UnicodeData]

theorem neutral_layout : Neutral ' ' ∧ Neutral ',' ∧ Neutral '(' ∧ Neutral ')' ∧
    Neutral Quote.literal.char := by
  refine ⟨?_, ?_, ?_, ?_, ?_⟩ <;>
    exact neutral_ascii (by decide) (by decide) (by decide) (by decide)

theorem occurs_plainName {mark : Mark} (hmark : Local mark) {s : Str} (h : isPlainName s)
    (before : Option Char) : occurs mark before s = false := by
  apply occurs_of_not_mem hmark
  intro c hc
  have hname := isNameChar_of_mem h hc
  refine ⟨?_, ?_⟩
  · rintro rfl
    exact absurd hname (by decide)
  · rintro rfl
    exact absurd hname (by decide)

theorem occurs_delimited {mark : Mark} (hmark : Local mark) (s : Str) (t : Str) :
    occurs mark none (delimited .literal s ++ ')' :: t)
      = (occurs mark none s || occurs mark none t) := by
  obtain ⟨-, -, -, hclose, hquote⟩ := neutral_layout
  rw [delimited, List.cons_append, occurs_cons hmark hquote, List.append_assoc]
  show occurs mark none (double _ s ++ Quote.literal.char :: ')' :: t) = _
  rw [occurs_append hmark hquote, occurs_cons hmark hclose, occurs_double hmark hquote]

/-- The result columns, behind the call. -/
theorem occurs_columns {mark : Mark} (hmark : Local mark) {columns : List (Str × Expression)}
    {keyword tableAlias : Str} (hkeyword : occurs mark none keyword = false)
    (halias : isPlainName tableAlias) (hnames : ∀ c ∈ columns, isPlainName c.1) :
    occurs mark none (' ' :: (keyword ++ ' ' :: (tableAlias ++ '(' :: (join ", ".toList
        (columns.map fun c => c.1 ++ ' ' :: c.2.text) ++ ')' :: [])))) = false ↔
      ∀ c ∈ columns, occurs mark none c.2.text = false := by
  obtain ⟨hspace, hcomma, hopen, hclose, -⟩ := neutral_layout
  have hnil : occurs mark none [] = false := rfl
  rw [occurs_cons hmark hspace, occurs_append hmark hspace, hkeyword, occurs_append hmark hopen,
    occurs_plainName hmark halias, occurs_append hmark hclose, hnil, Bool.false_or, Bool.false_or,
    Bool.or_false, occurs_join hmark hcomma hspace, List.forall_mem_map]
  apply forall₂_congr
  intro c hc
  rw [occurs_append hmark hspace, occurs_plainName hmark (hnames c hc), Bool.false_or]

/-- **Marks stand in the query and in the types only**, when the names are plain. -/
theorem occurs_asText (L : DbLink) {mark : Mark} (hmark : Local mark) {tableAlias : Str}
    (hserver : isPlainName L.server) (halias : L.columns ≠ [] → isPlainName tableAlias)
    (hnames : ∀ c ∈ L.columns, isPlainName c.1) :
    occurs mark none (L.asText tableAlias) = false ↔
      occurs mark none L.query = false ∧ ∀ c ∈ L.columns, occurs mark none c.2.text = false := by
  obtain ⟨hspace, hcomma, hopen, -, -⟩ := neutral_layout
  have hcall : ∀ {keyword rest : Str}, occurs mark none keyword = false →
      occurs mark none (keyword ++ '(' :: (L.server ++ ',' :: ' '
        :: (delimited .literal L.query ++ ')' :: rest)))
        = (occurs mark none L.query || occurs mark none rest) := by
    intro keyword rest hkeyword
    rw [occurs_append hmark hopen, hkeyword, occurs_append hmark hcomma,
      occurs_plainName hmark hserver, occurs_cons hmark hspace, occurs_delimited hmark]
    rfl
  have hdblink : occurs mark none "DBLINK".toList = false :=
    occurs_of_not_mem hmark (by decide) none
  have has : occurs mark none ['A', 'S'] = false := occurs_of_not_mem hmark (by decide) none
  rw [asText_cut, hcall hdblink, Bool.or_eq_false_iff]
  apply and_congr_right
  intro _
  by_cases hnil : L.columns = []
  · rw [if_pos hnil, hnil]
    exact iff_of_true rfl (List.forall_mem_nil _)
  · rw [if_neg hnil]
    exact occurs_columns hmark has (halias hnil) hnames

end Marks

/-! ### When a fragment is carried -/

section Servers

variable {P : DdlPreparer} (hquote : ∀ x, P.quoteIdentifier x = delimited .name x)
include hquote

theorem createdServer_visitCreateServer (name host : Str) (port : Int)
    (dbname user password : Str) :
    createdServer (visitCreateServer P name host port dbname user password) = some name := by
  have hparse : parseSql (visitCreateServer P name host port dbname user password)
      = some [.createServer name (serverOptions host port dbname user password)] :=
    parseSql_render hquote (.createServer name host port dbname user password)
  simp only [createdServer, hparse]

theorem droppedServer_visitDropServer (name : Str) (ifExists : Bool) :
    droppedServer (visitDropServer P name ifExists) = some name := by
  have hparse : parseSql (visitDropServer P name ifExists)
      = some [.dropServer ifExists name] :=
    parseSql_render hquote (.dropServer name ifExists)
  simp only [droppedServer, hparse]

end Servers

/-- Names that are printed as they are have to be plain, and texts without marks. -/
structure Plain [UnicodeData] (L : DbLink) (tableAlias : Str) : Prop where
  server : isPlainName L.server
  query : Unmarked L.query
  table_alias : L.columns ≠ [] → isPlainName tableAlias
  names : ∀ c ∈ L.columns, isPlainName c.1
  types : ∀ c ∈ L.columns, Unmarked c.2.text

section Carried

variable [UnicodeData] (L : DbLink) {tableAlias create drop : Str}

theorem carried_of_plain (hcreate : createdServer create = some L.server)
    (hdrop : droppedServer drop = some L.server) (h : L.Plain tableAlias) :
    L.Carried tableAlias create drop := by
  have hmarks : ∀ {mark : Mark}, Local mark → occurs mark none L.query = false →
      (∀ c ∈ L.columns, occurs mark none c.2.text = false) →
        occurs mark none (L.asText tableAlias) = false := by
    intro mark hmark hquery htypes
    exact (L.occurs_asText hmark h.server h.table_alias h.names).mpr ⟨hquery, htypes⟩
  have hbind := hmarks local_bindAt h.query.no_bind fun c hc => (h.types c hc).no_bind
  have hescape := hmarks local_escapeAt h.query.no_escape fun c hc => (h.types c hc).no_escape
  have hnames : ∀ s ∈ L.columns.map Prod.fst, isPlainName s :=
    List.forall_mem_map.mpr h.names
  have hserver := identifier_word h.server
  refine ⟨hbind, .word L.server, .word tableAlias, (L.columns.map Prod.fst).map Token.word, ?_,
    hserver, hserver.trans hcreate.symm, hserver.trans hdrop.symm, map_identifier_word hnames, ?_⟩
  · rw [unescape_eq_self hescape, asText_eq]
    exact L.lex_frame h.server h.table_alias h.names
  · intro hne
    exact identifier_word (h.table_alias hne)

theorem plain_of_carried (h : L.Carried tableAlias create drop) : L.Plain tableAlias := by
  obtain ⟨hbind, server, aliasToken, names, hlex, hserver, -, -, hnames, halias⟩ := h
  have hcount : names.length = L.columns.length := by
    have hlength := congrArg List.length hnames
    rw [List.length_map, List.length_map, List.length_map] at hlength
    exact hlength
  have htext := congrArg List.length (text_of_lex hlex)
  have hprinted := congrArg List.length (L.asText_eq tableAlias)
  rw [textOf_tokens, length_frame L _ _ (by rw [List.length_map, hcount])] at htext
  rw [length_frame L _ _ (List.length_map _)] at hprinted
  obtain ⟨hshort, hsame⟩ := length_unescape (L.asText tableAlias)
  obtain ⟨hle, hplain⟩ := L.nameLength_identifiers hserver hnames halias
  -- what is sent is no longer than what is printed, and its names no shorter
  obtain ⟨hplainServer, hplainAlias, hplainNames⟩ := hplain (by omega)
  have hescape := hsame (by omega)
  rw [L.occurs_asText local_bindAt hplainServer hplainAlias hplainNames] at hbind
  rw [L.occurs_asText local_escapeAt hplainServer hplainAlias hplainNames] at hescape
  exact ⟨hplainServer, ⟨hbind.1, hescape.1⟩, hplainAlias, hplainNames,
    fun c hc => ⟨hbind.2 c hc, hescape.2 c hc⟩⟩

end Carried

end DbLink

/-- **A DBLINK fragment is carried exactly when its names are plain and not
reserved, and neither the query nor a type has a mark of `text()`.** -/
theorem dblink_carried_iff [UnicodeData] {P : DdlPreparer}
    (hquote : ∀ x, P.quoteIdentifier x = delimited .name x) (L : DbLink)
    (tableAlias host : Str) (port : Int) (dbname user password : Str) (ifExists : Bool) :
    L.Carried tableAlias (visitCreateServer P L.server host port dbname user password)
        (visitDropServer P L.server ifExists) ↔
      L.Plain tableAlias := by
  have hcreate := DbLink.createdServer_visitCreateServer hquote L.server host port dbname user
    password
  have hdrop := DbLink.droppedServer_visitDropServer hquote L.server ifExists
  exact ⟨L.plain_of_carried, L.carried_of_plain hcreate hdrop⟩

def quotingDdlPreparer : DdlPreparer := ⟨delimited .name, id, id, id⟩

/-- `DbLink("remote_srv", "SELECT id FROM t WHERE tag = ':new'", [("id", "INT")])` -/
def taggedLink : DbLink where
  server := "remote_srv".toList
  query := "SELECT id FROM t WHERE tag = ".toList ++ delimited .literal ":new".toList
  columns := [("id".toList, ⟨"INT".toList, by decide⟩)]

theorem dblink_carried_iff_tagged :
    let _ := asciiData
    let P := quotingDdlPreparer
    taggedLink.Carried "t".toList
        (visitCreateServer P "remote_srv".toList "h".toList 33000 [] "dba".toList [])
        (visitDropServer P "remote_srv".toList true) ↔
      taggedLink.Plain "t".toList := by
  intro _ P
  exact dblink_carried_iff (fun _ => rfl) taggedLink "t".toList "h".toList 33000 [] "dba".toList []
    true

/-- **A literal in the query is taken for a bind parameter.** -/
theorem colon_in_query_bound :
    let _ := asciiData
    let P := quotingDdlPreparer
    occurs bindAt none (taggedLink.asText "t".toList) = true ∧
      ¬ taggedLink.Carried "t".toList
        (visitCreateServer P "remote_srv".toList "h".toList 33000 [] "dba".toList [])
        (visitDropServer P "remote_srv".toList true) := by
  intro _ P
  have hbind : occurs bindAt none (taggedLink.asText "t".toList) = true := by decide +kernel
  refine ⟨hbind, ?_⟩
  intro h
  rw [h.1] at hbind
  exact Bool.false_ne_true hbind

end SqlalchemyCubrid.Compiler
