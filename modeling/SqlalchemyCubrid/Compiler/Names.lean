import SqlalchemyCubrid.Lib.SqlLexer
import SqlalchemyCubrid.Python.Str

/-!
# Names in SQL

The dialect's list of reserved words, and what a token of a statement names.  A
name stands for itself in quotes; without them it has to be a plain word that is
not reserved.

A printer that joins names without quoting them is judged by lengths: quotes make
a token longer than its name, so where no text was added every name was a plain
word (`length_identifier`).
-/

namespace SqlalchemyCubrid.Compiler

open Lib.Sql Python

/-- `RESERVED_WORDS` -/
def reservedWords : List Str :=
  ["absolute", "action", "add", "add_months", "after", "alias", "all", "allocate", "alter",
    "and", "any", "are", "as", "asc", "assertion", "async", "at", "attach", "attribute", "avg",
    "before", "begin", "between", "bigint", "binary", "bit", "bit_length", "blob", "boolean",
    "both", "breadth", "by", "call", "cascade", "cascaded", "case", "cast", "catalog", "change",
    "char", "character", "check", "class", "classes", "clob", "close", "cluster", "coalesce",
    "collate", "collation", "column", "commit", "completion", "connect", "connect_by_iscycle",
    "connect_by_isleaf", "connect_by_root", "connection", "constraint", "constraints", "continue",
    "convert", "corresponding", "count", "create", "cross", "current", "current_date",
    "current_datetime", "current_time", "current_timestamp", "current_user", "cursor", "cycle",
    "data", "data_type", "data_type___", "database", "date", "datetime", "datetimeltz",
    "datetimetz", "day", "day_hour", "day_millisecond", "day_minute", "day_second", "dblink",
    "deallocate", "dec", "decimal", "declare", "default", "deferrable", "deferred", "delete",
    "depth", "desc", "describe", "descriptor", "diagnostics", "dictionary", "difference",
    "disconnect", "distinct", "distinctrow", "div", "do", "domain", "double", "drop", "duplicate",
    "each", "else", "elseif", "end", "enum", "equals", "escape", "evaluate", "except",
    "exception", "exclude", "exec", "execute", "exists", "external", "extract", "false", "fetch",
    "file", "first", "float", "for", "foreign", "found", "from", "full", "function", "general",
    "get", "global", "go", "goto", "grant", "group", "having", "hour", "hour_millisecond",
    "hour_minute", "hour_second", "identity", "if", "ignore", "immediate", "in", "index",
    "indicator", "inherit", "initially", "inner", "inout", "input", "insert", "int", "integer",
    "intersect", "intersection", "interval", "into", "is", "isolation", "join", "json", "key",
    "language", "last", "ldb", "leading", "leave", "left", "less", "level", "like", "limit",
    "list", "local", "local_transaction_id", "localtime", "localtimestamp", "loop", "lower",
    "match", "max", "merge", "method", "millisecond", "min", "minute", "minute_millisecond",
    "minute_second", "mod", "modify", "module", "monetary", "month", "multiset", "multiset_of",
    "na", "names", "national", "natural", "nchar", "next", "no", "none", "not", "null", "nullif",
    "numeric", "object", "octet_length", "of", "off", "oid", "on", "only", "open", "operation",
    "operators", "optimization", "option", "or", "order", "others", "out", "outer", "output",
    "overlaps", "parameters", "partial", "partition", "pendant", "position", "precision",
    "preorder", "prepare", "preserve", "primary", "prior", "private", "privileges", "procedure",
    "protected", "proxy", "query", "read", "real", "recursive", "ref", "references",
    "referencing", "regexp", "register", "relative", "rename", "replace", "resignal", "restrict",
    "return", "returns", "revoke", "right", "rlike", "role", "rollback", "rollup", "routine",
    "row", "rownum", "rows", "savepoint", "schema", "scope", "scope___", "scroll", "search",
    "second", "second_millisecond", "section", "select", "sensitive", "sequence", "sequence_of",
    "serial", "serializable", "server", "session", "session_user", "set", "set_of", "seteq",
    "setneq", "shared", "short", "siblings", "signal", "similar", "size", "smallint", "some",
    "sql", "sqlcode", "sqlerror", "sqlexception", "sqlstate", "sqlwarning", "statistics",
    "string", "structure", "subclass", "subset", "subseteq", "substring", "sum", "superclass",
    "superset", "superseteq", "sys_connect_by_path", "sys_date", "sys_datetime", "sys_time",
    "sys_timestamp", "sys_user", "sysdate", "sysdatetime", "system_user", "systime",
    "systimestamp", "table", "temporary", "test", "then", "there", "time", "timestamp",
    "timestampltz", "timestamptz", "timezone_hour", "timezone_minute", "to", "trailing",
    "transaction", "translate", "translation", "trigger", "trim", "true", "truncate", "type",
    "under", "union", "unique", "unknown", "update", "upper", "usage", "use", "user", "using",
    "utime", "vacuum", "value", "values", "varchar", "variable", "varying", "vclass", "view",
    "virtual", "visible", "wait", "when", "whenever", "where", "while", "with", "without", "work",
    "write", "xor", "year", "year_month", "zone"].map String.toList

/-- `[A-Za-z0-9_$]` -/
def isNameChar (c : Char) : Bool := c.isAlphanum || c == '_' || c == '$'

/-- A word that needs no quotes. -/
def isPlainName (s : Str) : Bool :=
  match s with
  | [] => false
  | c :: _ =>
    !c.isDigit && c != '$' && s.all isNameChar && !(reservedWords.contains (s.map Char.toLower))

/-- What a token names. -/
def identifier : Token → Option Str
  | .quoted .name s => some s
  | .word s => if isPlainName s then some s else none
  | _ => none

/-- A token that names something is a word, or in quotes. -/
theorem identifier_cases {t : Token} {s : Str} (h : identifier t = some s) :
    t = .word s ∨ t = .quoted .name s := by
  cases t with
  | word w =>
    rw [identifier] at h
    split at h
    · cases h
      exact Or.inl rfl
    · cases h
  | quoted q w =>
    cases q with
    | literal => cases h
    | name =>
      cases h
      exact Or.inr rfl
  | symbol c => cases h
  | space c => cases h
  | comment w => cases h

theorem isWordChar_of_isNameChar {c : Char} (h : isNameChar c) : isWordChar c := by
  rw [isNameChar, Bool.or_eq_true, Bool.or_eq_true] at h
  rcases h with (h | h) | h
  · simp [isWordChar, h]
  · simp [isWordChar, h]
  · simp [isWordChar, h]

theorem isNameChar_of_mem {s : Str} (h : isPlainName s) {c : Char} (hc : c ∈ s) : isNameChar c := by
  cases s with
  | nil => exact absurd hc List.not_mem_nil
  | cons d s =>
    rw [isPlainName, Bool.and_eq_true, Bool.and_eq_true] at h
    exact List.all_eq_true.mp h.1.2 c hc

theorem ne_nil_of_isPlainName {s : Str} (h : isPlainName s) : s ≠ [] := by
  rintro rfl
  exact Bool.false_ne_true h

/-- **A plain name is one token, which names it.** -/
theorem lex_plainName {s : Str} (h : isPlainName s) : lex s = some [.word s] :=
  lex_word (ne_nil_of_isPlainName h) fun _ hc => isWordChar_of_isNameChar (isNameChar_of_mem h hc)

theorem identifier_word {s : Str} (h : isPlainName s) : identifier (.word s) = some s :=
  if_pos h

/-- **A token is no shorter than its name**, and longer when it is quoted. -/
theorem length_identifier {t : Token} {s : Str} (h : identifier t = some s) :
    s.length ≤ t.text.length ∧ (t.text.length = s.length → t = .word s ∧ isPlainName s) := by
  cases t with
  | word w =>
    rw [identifier] at h
    split at h
    · rename_i hplain
      cases h
      exact ⟨Nat.le_refl _, fun _ => ⟨rfl, hplain⟩⟩
    · cases h
  | quoted q w =>
    cases q with
    | literal => cases h
    | name =>
      cases h
      have hlength : (Token.quoted .name s).text.length
          = (double Quote.name.char s).length + 2 := by
        rw [Token.text, delimited, List.length_cons, List.length_append, List.length_singleton]
      have hdouble := length_le_double Quote.name.char s
      refine ⟨by omega, ?_⟩
      intro heq
      omega
  | symbol c => cases h
  | space c => cases h
  | comment c => cases h

/-- The same of a list of tokens and their names. -/
theorem length_identifiers {ts : List Token} {names : List Str}
    (h : ts.map identifier = names.map some) :
    (names.map List.length).sum ≤ (ts.map fun t => t.text.length).sum ∧
      ((ts.map fun t => t.text.length).sum = (names.map List.length).sum →
        ∀ s ∈ names, isPlainName s) := by
  induction ts generalizing names with
  | nil =>
    have hnil : names = [] := List.map_eq_nil_iff.mp h.symm
    subst hnil
    exact ⟨Nat.le_refl _, fun _ _ hs => absurd hs List.not_mem_nil⟩
  | cons t ts ih =>
    cases names with
    | nil => cases h
    | cons s names =>
      rw [List.map_cons, List.map_cons, List.cons.injEq] at h
      obtain ⟨hle, heq⟩ := ih h.2
      obtain ⟨hname, hplain⟩ := length_identifier h.1
      rw [List.map_cons, List.map_cons, List.sum_cons, List.sum_cons]
      refine ⟨by omega, ?_⟩
      intro hsum u hu
      rcases List.mem_cons.mp hu with rfl | hu
      · exact (hplain (by omega)).2
      · exact heq (by omega) u hu

theorem map_identifier_word {names : List Str} (h : ∀ s ∈ names, isPlainName s) :
    (names.map Token.word).map identifier = names.map some := by
  rw [List.map_map]
  apply List.map_congr_left
  intro s hs
  exact identifier_word (h s hs)

/-! ### Reserved words -/

theorem toLower_toUpper (c : Char) : c.toUpper.toLower = c.toLower := by
  by_cases h : 'a' ≤ c ∧ c ≤ 'z'
  · have hall : ∀ n ∈ List.range' 97 26,
        (Char.ofNat n).toUpper.toLower = (Char.ofNat n).toLower := by decide
    have hmem : c.toNat ∈ List.range' 97 26 := List.mem_range'_1.mpr ⟨h.1, Nat.lt_succ_of_le h.2⟩
    have hofNat := hall c.toNat hmem
    rwa [Char.ofNat_toNat] at hofNat
  · have hup : c.toUpper = c := dif_neg h
    rw [hup]

/-- **No plain name is a reserved word**, in any letter case. -/
theorem toUpper_ne_of_reserved {s w : Str} (h : isPlainName s)
    (hw : w.map Char.toLower ∈ reservedWords) : s.map Char.toUpper ≠ w := by
  rintro rfl
  have hlower : (s.map Char.toUpper).map Char.toLower = s.map Char.toLower := by
    rw [List.map_map]
    exact List.map_congr_left fun c _ => toLower_toUpper c
  rw [hlower] at hw
  have hfree : reservedWords.contains (s.map Char.toLower) = false := by
    cases s with
    | nil => cases h
    | cons c s =>
      rw [isPlainName, Bool.and_eq_true] at h
      simpa using h.2
  rw [List.contains_iff_mem.mpr hw] at hfree
  cases hfree

/-! ### Quoting -/

/-- `render_literal_value` of a string. -/
def renderLiteralValue (s : Str) : Str := delimited .literal s

/-- `quote` of the identifier preparer: a name that is not empty becomes one
token, which names it.  This leaves out the names that SQLAlchemy's own pattern takes
for plain ones although they are not: with a line feed at the end, or with the letter
`U+017F`. -/
structure NameQuoter where
  quote : Str → Str
  token : Str → Token
  lex_quote : ∀ s, s ≠ [] → lex (quote s) = some [token s]
  identifier_token : ∀ s, s ≠ [] → identifier (token s) = some s

/-- A name that is not empty. -/
abbrev Name := { s : Str // s ≠ [] }

/-- `_requires_quotes`, up to the names that `NameQuoter` leaves out. -/
def requiresQuotes (s : Str) : Bool := !isPlainName s || s.map Char.toLower != s

/-- Quotes where they are needed. -/
def cubridQuoter : NameQuoter where
  quote s := if requiresQuotes s then delimited .name s else s
  token s := if requiresQuotes s then .quoted .name s else .word s
  lex_quote s _ := by
    split
    · exact lex_delimited .name s
    · rename_i h
      exact lex_plainName (by simp_all [requiresQuotes])
  identifier_token s _ := by
    split
    · rfl
    · rename_i h
      exact identifier_word (by simp_all [requiresQuotes])

/-- A name, in quotes or plain. -/
def ident : Parser Str := next identifier

theorem ident_of_identifier {t : Token} {s : Str} (h : identifier t = some s)
    (rest : List Token) : ident (t :: rest) = some (s, rest) := by
  have hblank : isBlank t = false := by
    rcases identifier_cases h with rfl | rfl <;> rfl
  have hskip : skip (t :: rest) = t :: rest := List.dropWhile_cons_of_neg (by simp [hblank])
  rw [ident, next, hskip]
  simp only [h, Option.map_some]

theorem ident_token (Q : NameQuoter) (n : Name) (rest : List Token) :
    ident (Q.token n :: rest) = some (n.val, rest) :=
  ident_of_identifier (Q.identifier_token n n.property) rest

/-- A name is not taken for a reserved word. -/
theorem keyword_token (Q : NameQuoter) (n : Name) {w : Str}
    (hw : w.map Char.toLower ∈ reservedWords) (rest : List Token) :
    keyword w (Q.token n :: rest) = none := by
  have hname := Q.identifier_token n n.property
  cases ht : Q.token n with
  | word s =>
    rw [ht, identifier] at hname
    split at hname
    · rename_i hplain
      show Option.map _ (if s.map Char.toUpper = w then some () else none) = none
      rw [if_neg (toUpper_ne_of_reserved hplain hw)]
      rfl
    · cases hname
  | quoted q s => rfl
  | symbol c => rfl
  | space c =>
    rw [ht] at hname
    cases hname
  | comment s =>
    rw [ht] at hname
    cases hname

end SqlalchemyCubrid.Compiler
