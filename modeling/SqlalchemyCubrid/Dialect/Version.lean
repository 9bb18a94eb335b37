import SqlalchemyCubrid.Compiler.CreateTable
import SqlalchemyCubrid.Dialect.Existence
import SqlalchemyCubrid.Python.Pattern

/-!
# The server version

`_get_server_version_info` reads the leading digits of every part of the version
string, and three places compare the tuple with a version of two parts.

`getServerVersionInfo_text` says what is read of parts that are a number and a
suffix each, and `version_gates` what the three places make of it.
-/

namespace SqlalchemyCubrid.Dialect

open Lib Python Compiler

/-! ### The code -/

section Code

variable [UnicodeData]

/-- `\d` -/
def isDecimal (c : Char) : Bool := (UnicodeData.decimal c).isSome

/-- `(\d+)` -/
def digitsPattern : Re Char := .group 1 (.plus isDecimal)

/-- The loop over the parts; `none` is a `ValueError`.  A number with no sign is not
negative. -/
def versionParts : List Str → Option (List Nat)
  | [] => some []
  | x :: xs =>
    match digitsPattern.first x with
    | none => versionParts xs
    | some m => do
      let n ← int ((m.group 1).getD [])
      return n.toNat :: (← versionParts xs)

/-- `_get_server_version_info`, of what `get_server_version` returns. -/
def getServerVersionInfo (versionStr : Str) : Option (List Nat) := do
  let parts ← versionParts (split '.' versionStr)
  return if parts ≠ [] then parts else [0]

end Code

/-- `_cubrid_version` after `initialize` -/
def cubridVersion (serverVersionInfo : List Nat) : List Nat :=
  if serverVersionInfo ≠ [] then serverVersionInfo else [0]

/-- `post_create_table`, of the table's option and comment. -/
def postCreateTableOptions (P : DdlPreparer) (version : Option (List Nat)) (dontReuseOid : Bool)
    (comment : Option Str) : Str :=
  let opts := (if dontReuseOid && supportsDontReuseOid version then ["DONT_REUSE_OID".toList]
      else [])
    ++ (match comment with
      | some t => ["COMMENT=".toList ++ P.renderLiteral t]
      | none => [])
  if opts ≠ [] then " ".toList ++ join " ".toList opts else []

theorem postCreateTableOptions_none (P : DdlPreparer) (version : Option (List Nat))
    (table : Table) :
    postCreateTableOptions P version table.dontReuseOid none = postCreateTable version table := by
  rw [postCreateTableOptions, postCreateTable]
  simp only [List.append_nil]

/-! ### Version strings -/

section Strings

variable [UnicodeData]

/-- A number and what is written behind it. -/
structure Component where
  number : Nat
  suffix : Str
  no_dot : '.' ∉ suffix
  no_digit : ∀ c ∈ suffix.head?, isDecimal c = false

def Component.text (c : Component) : Str := formatInt c.number ++ c.suffix

/-- A version of at least two parts. -/
structure Version where
  first : Component
  second : Component
  rest : List Component

namespace Version

def components (V : Version) : List Component := V.first :: V.second :: V.rest

def text (V : Version) : Str := join ".".toList (V.components.map Component.text)

def numbers (V : Version) : List Nat := V.components.map Component.number

end Version

theorem isDecimal_of_mem_formatInt {n : Nat} {c : Char} (hc : c ∈ formatInt n) :
    isDecimal c = true := by
  have hdigit : c.isDigit := isDigit_of_mem_toDigits hc
  have hascii : c.toNat < 128 := by
    have hbounds := toNat_bounds_of_isDigit hdigit
    omega
  rw [isDecimal, UnicodeData.decimal_ascii c hascii, if_pos hdigit]
  rfl

theorem first_digitsPattern (c : Component) :
    digitsPattern.first c.text
      = some ⟨formatInt c.number, [(1, formatInt c.number)], c.suffix⟩ := by
  refine Re.first_group (Re.first_plus (formatInt_ne_nil _) ?_ ?_) 1
  · intro d hd
    exact isDecimal_of_mem_formatInt hd
  · intro d t h
    exact c.no_digit d (by rw [h]; rfl)

/-- **Every part is read as its number.** -/
theorem versionParts_text (cs : List Component) :
    versionParts (cs.map Component.text) = some (cs.map Component.number) := by
  induction cs with
  | nil => rfl
  | cons c cs ih =>
    rw [List.map_cons, versionParts, first_digitsPattern]
    show (int (formatInt c.number)).bind _ = _
    rw [int_formatInt_self, Option.bind_some, ih]
    rfl

theorem dot_not_mem_text (c : Component) : '.' ∉ c.text := by
  intro h
  rcases List.mem_append.mp h with h | h
  · rcases mem_formatInt h with h | h
    · exact absurd h (by decide)
    · exact absurd h (by decide)
  · exact c.no_dot h

/-- **The numbers of a version string are read back.** -/
theorem getServerVersionInfo_text (V : Version) :
    getServerVersionInfo V.text = some V.numbers := by
  have hparts : split '.' V.text = V.components.map Component.text := by
    apply split_join
    · exact List.cons_ne_nil _ _
    · intro t ht
      obtain ⟨c, -, rfl⟩ := List.mem_map.mp ht
      exact dot_not_mem_text c
  have hne : V.components.map Component.number ≠ [] := List.cons_ne_nil _ _
  rw [getServerVersionInfo, hparts, versionParts_text]
  show some (if V.components.map Component.number ≠ [] then _ else _) = _
  rw [if_pos hne]
  rfl

end Strings

/-! ### The gates -/

/-- A version of two parts against a longer one. -/
theorem le_version_iff (m₁ m₂ n₁ n₂ : Nat) (ns : List Nat) :
    [m₁, m₂] ≤ n₁ :: n₂ :: ns ↔ m₁ < n₁ ∨ m₁ = n₁ ∧ m₂ ≤ n₂ := by
  rw [← not_lt, List.cons_lt_cons_iff, List.cons_lt_cons_iff]
  have hnil : ¬ ns < [] := List.not_lt_nil ns
  simp only [hnil, and_false, or_false]
  omega

theorem supportsDontReuseOid_iff (n₁ n₂ : Nat) (ns : List Nat) :
    supportsDontReuseOid (some (n₁ :: n₂ :: ns)) = true ↔ 11 ≤ n₁ := by
  rw [supportsDontReuseOid, decide_eq_true_iff, Option.getD_some, le_version_iff]
  omega

theorem serialAttrColumn_eq_iff (n₁ n₂ : Nat) (ns : List Nat) :
    serialAttrColumn (n₁ :: n₂ :: ns) = "attr_name".toList ↔ 11 < n₁ ∨ n₁ = 11 ∧ 4 ≤ n₂ := by
  have hne : "att_name".toList ≠ "attr_name".toList := by decide
  have hgate := le_version_iff 11 4 n₁ n₂ ns
  rw [eq_comm (a := 11) (b := n₁)] at hgate
  rw [serialAttrColumn, ← hgate]
  split
  · rename_i h
    exact iff_of_true rfl h
  · rename_i h
    exact iff_of_false hne h

section Print

variable (P : DdlPreparer)

/-- The option comes first in what stands behind the table. -/
theorem prefix_postCreateTableOptions_iff (version : Option (List Nat)) (comment : Option Str) :
    " DONT_REUSE_OID".toList <+: postCreateTableOptions P version true comment ↔
      supportsDontReuseOid version = true := by
  unfold postCreateTableOptions
  cases supportsDontReuseOid version with
  | true =>
    apply iff_of_true _ rfl
    cases comment with
    | none => exact List.prefix_refl _
    | some t =>
      simp only [Bool.and_self, if_true, List.cons_append, List.nil_append, ne_eq,
        List.cons_ne_nil, not_false_eq_true]
      rw [join_cons_cons, join_singleton]
      refine ⟨" ".toList ++ ("COMMENT=".toList ++ P.renderLiteral t), ?_⟩
      simp only [← List.append_assoc]
      rfl
  | false =>
    apply iff_of_false _ Bool.false_ne_true
    intro h
    cases comment with
    | none => exact absurd (List.prefix_nil.mp h) (by decide)
    | some t =>
      obtain ⟨u, hu⟩ := h
      have hsecond : some 'D' = some 'C' := congrArg (fun s : Str => s[1]?) hu
      exact absurd hsecond (by decide)

/-- The option comes last in the statement. -/
theorem suffix_visitCreateTableDontReuseOid_iff (version : Option (List Nat)) (name : Str)
    (columns : List Column) :
    " DONT_REUSE_OID".toList <:+ visitCreateTableDontReuseOid P version name columns ↔
      supportsDontReuseOid version = true := by
  unfold visitCreateTableDontReuseOid
  generalize "CREATE TABLE ".toList ++ P.quoteIdentifier name ++ " (".toList
    ++ join ", ".toList (columns.map fun c => getColumnSpecification P c none) = text
  cases supportsDontReuseOid version with
  | true =>
    apply iff_of_true _ rfl
    rw [if_pos rfl]
    exact List.suffix_append _ _
  | false =>
    apply iff_of_false _ Bool.false_ne_true
    intro h
    obtain ⟨u, hu⟩ := h
    have hoption : " DONT_REUSE_OID".toList = " DONT_REUSE_OI".toList ++ ['D'] := rfl
    rw [if_neg Bool.false_ne_true, List.append_nil, hoption, ← List.append_assoc] at hu
    have hlast : ['D'] = ")".toList := (List.append_inj' hu rfl).2
    exact absurd hlast (by decide)

end Print

/-- **Versions are read and gated correctly.** -/
theorem version_gates [UnicodeData] (V : Version) (P : DdlPreparer) (comment : Option Str)
    (name : Str) (columns : List Column) :
    let version := cubridVersion V.numbers
    getServerVersionInfo V.text = some V.numbers ∧
      (serialAttrColumn version = "attr_name".toList ↔
        11 < V.first.number ∨ V.first.number = 11 ∧ 4 ≤ V.second.number) ∧
      (" DONT_REUSE_OID".toList <+: postCreateTableOptions P (some version) true comment ↔
        11 ≤ V.first.number) ∧
      (" DONT_REUSE_OID".toList <:+ visitCreateTableDontReuseOid P (some version) name columns ↔
        11 ≤ V.first.number) := by
  intro version
  have hversion : version
      = V.first.number :: V.second.number :: V.rest.map Component.number := rfl
  have hoid := supportsDontReuseOid_iff V.first.number V.second.number
    (V.rest.map Component.number)
  rw [hversion]
  refine ⟨getServerVersionInfo_text V, serialAttrColumn_eq_iff _ _ _, ?_, ?_⟩
  · rw [prefix_postCreateTableOptions_iff, hoid]
  · rw [suffix_visitCreateTableDontReuseOid_iff, hoid]

end SqlalchemyCubrid.Dialect
