import SqlalchemyCubrid.Dialect.ResolveType
import SqlalchemyCubrid.Lib.SqlLexer

/-!
# Reading the labels of an `ENUM`

`SHOW COLUMNS` reports an `ENUM` with its labels in quotes, the quotes inside
them doubled.  `_resolve_type` reads the labels back with `'([^']*)'`, to which a
doubled quote is the end of one label and the start of the next.

* `findAll_enumPattern_delimited`: a quoted label is read as its parts between the
  quotes.
* `resolveType_enumText` says what the whole text is read as: every label cut at
  its quotes, or nothing where a label has a line feed.
-/

namespace SqlalchemyCubrid.Dialect

open Lib Python SqlalchemyCubrid.Types

/-! ### What is reported -/

/-- A label, with the spaces around the comma before it. -/
structure NextLabel where
  before : Nat
  after : Nat
  label : Str

/-- The labels of an `ENUM` type. -/
structure EnumLabels where
  head : Str
  tail : List NextLabel
  nodup : (head :: tail.map NextLabel.label).Nodup

def spaces (n : Nat) : Str := List.replicate n ' '

def NextLabel.separator (x : NextLabel) : Str := spaces x.before ++ ',' :: spaces x.after

def labelsText (tail : List NextLabel) : Str :=
  tail.flatMap fun x => x.separator ++ Sql.delimited .literal x.label

namespace EnumLabels

def labels (E : EnumLabels) : List Str := E.head :: E.tail.map NextLabel.label

/-- What is between the parentheses. -/
def body (E : EnumLabels) : Str := Sql.delimited .literal E.head ++ labelsText E.tail

/-- The type as `SHOW COLUMNS` reports it. -/
def text (E : EnumLabels) : Str := "ENUM".toList ++ '(' :: (E.body ++ [')'])

end EnumLabels

/-! ### Scanning for labels -/

theorem delimited_of_not_mem {w : Str} (hw : quote ∉ w) :
    Sql.delimited .literal w = quote :: (w ++ [quote]) := by
  show quote :: (Sql.double quote w ++ [quote]) = _
  rw [Sql.double_of_not_mem hw]

theorem delimited_append_cons {w : Str} (hw : quote ∉ w) (l : Str) :
    Sql.delimited .literal (w ++ quote :: l)
      = quote :: (w ++ [quote]) ++ Sql.delimited .literal l := by
  have hdouble : Sql.double quote (w ++ quote :: l)
      = w ++ [quote, quote] ++ Sql.double quote l := by
    rw [Sql.double_append, Sql.double_of_not_mem hw, List.append_assoc]
    exact congrArg (w ++ ·) (Sql.double_append quote [quote] l)
  show quote :: (Sql.double quote (w ++ quote :: l) ++ [quote])
    = quote :: (w ++ [quote]) ++ quote :: (Sql.double quote l ++ [quote])
  rw [hdouble]
  simp only [List.append_assoc, List.cons_append, List.nil_append]

/-- The scan takes what is between the next two quotes. -/
theorem findAll_enumPattern_cons {o w : Str} (ho : quote ∉ o) (hw : quote ∉ w) (t : Str) :
    findAll enumPattern (o ++ (quote :: (w ++ [quote]) ++ t)) = w :: findAll enumPattern t := by
  have hbody : (Re.group 1 (.many (· != quote))).first (w ++ quote :: t)
      = some ⟨w, [(1, w)], quote :: t⟩ := by
    refine Re.first_group (Re.first_many (forall_bne_iff.mpr hw) ?_) 1
    intro c s e
    rw [← (List.cons.inj e).1]
    exact bne_self_eq_false quote
  have hclose : (Re.seqs [chr quote]).first (quote :: t) = some ⟨[quote], [], t⟩ :=
    Re.first_seq (first_chr quote t) (Re.first_seqs_nil t)
  have hfirst : enumPattern.first (quote :: (w ++ [quote]) ++ t)
      = some ⟨quote :: (w ++ [quote]), [(1, w)], t⟩ := by
    have h := Re.first_seq (first_chr quote (w ++ quote :: t)) (Re.first_seq hbody hclose)
    rw [List.cons_append, List.append_assoc]
    exact h
  have hskip : enumPattern.findIter 0 (o ++ (quote :: (w ++ [quote]) ++ t))
      = enumPattern.findIter 0 (quote :: (w ++ [quote]) ++ t) := by
    apply Re.findIter_skip
    intro a b e hb
    cases b with
    | nil => exact absurd rfl hb
    | cons c b =>
      apply Re.run_seq_of_left
      apply run_chr_cons
      rintro rfl
      apply ho
      rw [e]
      exact List.mem_append_right _ List.mem_cons_self
  rw [findAll, hskip, Re.findIter_hit (List.cons_ne_nil _ _) hfirst]
  rfl

/-- **A quoted label is read as its parts between the quotes.** -/
theorem findAll_enumPattern_delimited {o : Str} (ho : quote ∉ o) (l t : Str) :
    findAll enumPattern (o ++ (Sql.delimited .literal l ++ t))
      = split quote l ++ findAll enumPattern t := by
  induction hn : l.length using Nat.strongRecOn generalizing l o with
  | ind n ih =>
    by_cases hl : quote ∈ l
    · obtain ⟨w, l', rfl, hw⟩ := List.eq_append_cons_of_mem hl
      have hlt : l'.length < n := by
        rw [← hn, List.length_append, List.length_cons]
        omega
      have hrest := ih l'.length hlt List.not_mem_nil l' rfl
      rw [List.nil_append] at hrest
      rw [delimited_append_cons hw, List.append_assoc, findAll_enumPattern_cons ho hw, hrest,
        split_append_cons fun c hc => ne_of_mem_of_not_mem hc hw]
      rfl
    · rw [delimited_of_not_mem hl, findAll_enumPattern_cons ho hl,
        split_eq_singleton fun c hc => ne_of_mem_of_not_mem hc hl]
      rfl

theorem quote_not_mem_separator (x : NextLabel) : quote ∉ x.separator := by
  intro h
  rcases List.mem_append.mp h with h | h
  · exact absurd (List.eq_of_mem_replicate h) (by decide)
  rcases List.mem_cons.mp h with h | h
  · exact absurd h (by decide)
  · exact absurd (List.eq_of_mem_replicate h) (by decide)

theorem findAll_enumPattern_labelsText (tail : List NextLabel) :
    findAll enumPattern (labelsText tail)
      = (tail.map NextLabel.label).flatMap (split quote) := by
  induction tail with
  | nil => rfl
  | cons x tail ih =>
    have htext : labelsText (x :: tail)
        = x.separator ++ (Sql.delimited .literal x.label ++ labelsText tail) := by
      rw [labelsText, List.flatMap_cons, List.append_assoc]
      rfl
    rw [htext, findAll_enumPattern_delimited (quote_not_mem_separator x), ih]
    rfl

theorem findAll_enumPattern_body (E : EnumLabels) :
    findAll enumPattern E.body = E.labels.flatMap (split quote) := by
  have h := findAll_enumPattern_delimited List.not_mem_nil E.head (labelsText E.tail)
  rw [findAll_enumPattern_labelsText, List.nil_append] at h
  rw [EnumLabels.body, h]
  rfl

/-! ### The whole text -/

theorem newline_mem_delimited_iff {l : Str} : '\n' ∈ Sql.delimited .literal l ↔ '\n' ∈ l := by
  have hq : ('\n' : Char) ≠ quote := by decide
  show '\n' ∈ quote :: (Sql.double quote l ++ [quote]) ↔ _
  rw [List.mem_cons, List.mem_append, List.mem_singleton, Sql.mem_double_iff]
  exact ⟨fun h => (h.resolve_left hq).resolve_right hq, fun h => Or.inr (Or.inl h)⟩

theorem newline_mem_labelsText_iff {tail : List NextLabel} :
    '\n' ∈ labelsText tail ↔ ∃ l ∈ tail.map NextLabel.label, '\n' ∈ l := by
  have hspaces (n : Nat) : '\n' ∉ spaces n := by
    intro h
    exact absurd (List.eq_of_mem_replicate h) (by decide)
  have hsep (x : NextLabel) : '\n' ∉ x.separator := by
    intro h
    rcases List.mem_append.mp h with h | h
    · exact hspaces _ h
    · exact hspaces _ ((List.mem_cons.mp h).resolve_left (by decide))
  rw [labelsText, List.mem_flatMap]
  constructor
  · rintro ⟨x, hx, h⟩
    have hl := (List.mem_append.mp h).resolve_left (hsep x)
    exact ⟨x.label, List.mem_map_of_mem hx, newline_mem_delimited_iff.mp hl⟩
  · rintro ⟨l, hl, hn⟩
    obtain ⟨x, hx, rfl⟩ := List.mem_map.mp hl
    exact ⟨x, hx, List.mem_append_right _ (newline_mem_delimited_iff.mpr hn)⟩

theorem newline_mem_body_iff {E : EnumLabels} : '\n' ∈ E.body ↔ ∃ l ∈ E.labels, '\n' ∈ l := by
  rw [EnumLabels.body, List.mem_append, newline_mem_delimited_iff, newline_mem_labelsText_iff,
    EnumLabels.labels, List.exists_mem_cons_iff]

section Read

variable [UnicodeData]

theorem resolveBase_enum {p : Str} (hp : p ≠ []) :
    resolveBase "ENUM".toList (some p) = .enum (findAll enumPattern p) := by
  rw [resolveBase]
  simp only [construct, truthy_some hp]
  rfl

/-- **What the text of an `ENUM` is read as.** -/
theorem resolveType_enumText (E : EnumLabels) :
    resolveType E.text
      = if ∃ l ∈ E.labels, '\n' ∈ l then .null else .enum (E.labels.flatMap (split quote)) := by
  have hname : IsTypeName "ENUM".toList := by decide
  have hbody : E.body ≠ [] := List.cons_ne_nil _ _
  by_cases hn : '\n' ∈ E.body
  · rw [if_pos (newline_mem_body_iff.mp hn), EnumLabels.text, resolveType_newline hname hn]
  · rw [if_neg fun h => hn (newline_mem_body_iff.mpr h), EnumLabels.text,
      resolveType_params hname hbody fun c hc => ne_of_mem_of_not_mem hc hn, resolveBase_enum hbody,
      findAll_enumPattern_body]

/-- A comma, a parenthesis and an empty label do no harm. -/
example :
    let _ := asciiData
    resolveType "ENUM('a,b', '(c' ,'')".toList = .enum ["a,b".toList, "(c".toList, []] := by
  decide

/-- **Labels are read back as they are** exactly when none has a quote or a line
feed in it. -/
theorem enum_labels_iff (E : EnumLabels) :
    resolveType E.text = .enum E.labels ↔ ∀ l ∈ E.labels, quote ∉ l ∧ '\n' ∉ l := by
  rw [resolveType_enumText]
  split
  · rename_i hn
    obtain ⟨l, hl, hmem⟩ := hn
    constructor
    · intro h
      cases h
    · intro h
      exact absurd hmem (h l hl).2
  · rename_i hn
    rw [SqlType.enum.injEq, flatMap_split_eq_self_iff]
    constructor
    · intro h l hl
      exact ⟨h l hl, fun hmem => hn ⟨l, hl, hmem⟩⟩
    · intro h l hl
      exact (h l hl).1

end Read

/-- `ENUM('it''s')` is read as two labels. -/
theorem enum_label_cut :
    let _ := asciiData
    let E : EnumLabels := ⟨"it's".toList, [], by decide⟩
    E.text = "ENUM('it''s')".toList ∧ resolveType E.text = .enum ["it".toList, "s".toList] ∧
      resolveType E.text ≠ .enum E.labels := by
  decide

end SqlalchemyCubrid.Dialect
