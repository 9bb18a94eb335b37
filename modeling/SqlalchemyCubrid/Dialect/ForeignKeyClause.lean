import SqlalchemyCubrid.Python.Pattern
import Mathlib.Data.List.Forall2

/-!
# One foreign key in `SHOW CREATE TABLE`

`fkPattern` is the regular expression of `get_foreign_keys`, and
`reflectForeignKey` the entry that is made of a match.

A `ForeignKey` is what the server prints, and `ForeignKey.Prints` the texts it
may print for it: any letter case, any white space.  `first_fkPattern` is the
result: at the start of such a text the pattern matches exactly that text, and
the entry made of the match is the one the foreign key should have.
-/

namespace SqlalchemyCubrid.Dialect

open Lib Python

/-! ### The pattern -/

/-- `\s+` -/
def blank : Re Char := .plus isSpace

/-- `CONSTRAINT\s+\[` -/
def constraintOpen : Re Char := .seqs [keyword "CONSTRAINT".toList, blank, chr '[']

/-- `([^\]]+)` -/
def fkName : Re Char := .group 1 (.plus (· != ']'))

/-- `\]\s+FOREIGN\s+KEY` -/
def fkKey : Re Char :=
  .seqs [chr ']', blank, keyword "FOREIGN".toList, blank, keyword "KEY".toList]

/-- `\s*\(([^)]+)\)` -/
def fkColumns (n : Nat) : Re Char :=
  .seqs [.many isSpace, chr '(', .group n (.plus (· != ')')), chr ')']

/-- `(?:[^\]]+\.)?` -/
def fkOwner : Re Char := .opt (.seqs [.plus (· != ']'), chr '.'])

/-- `\s+REFERENCES\s+\[(?:[^\]]+\.)?([^\]]+)\]` -/
def fkTable : Re Char :=
  .seqs [blank, keyword "REFERENCES".toList, blank, chr '[', fkOwner,
    .group 3 (.plus (· != ']')), chr ']']

/-- `CASCADE|SET\s+NULL|NO\s+ACTION|RESTRICT` -/
def actionWords : Re Char :=
  .alt (keyword "CASCADE".toList)
    (.alt (.seqs [keyword "SET".toList, blank, keyword "NULL".toList])
      (.alt (.seqs [keyword "NO".toList, blank, keyword "ACTION".toList])
        (keyword "RESTRICT".toList)))

/-- `\s+ON\s+EVENT\s+(..)` -/
def onEvent (event : Str) (n : Nat) : Re Char :=
  .seqs [blank, keyword "ON".toList, blank, keyword event, blank, .group n actionWords]

/-- What follows the name. -/
def fkRest : Re Char :=
  .seqs [fkKey, fkColumns 2, fkTable, fkColumns 4, .opt (onEvent "DELETE".toList 5),
    .opt (onEvent "UPDATE".toList 6)]

/-- `fk_pattern` -/
def fkPattern : Re Char := .seq constraintOpen (.seq fkName fkRest)

/-! ### The entry of a match -/

structure ReflectedForeignKey where
  name : Str
  constrainedColumns : List Str
  referredSchema : Option Str
  referredTable : Str
  referredColumns : List Str
  options : List (Str × Str)
  deriving DecidableEq, Repr

/-- `[c.strip().strip("[]") for c in s.split(",")]` -/
def columnNames (s : Str) : List Str :=
  (split ',' s).map fun c => stripChars "[]".toList (strip c)

section Code

variable [UnicodeData]

/-- `" ".join(s.upper().split())` -/
def canonicalAction (s : Str) : Str := join " ".toList (words (upper s))

/-- `if s: options[key] = ..` -/
def actionOption (key : Str) (s : Option Str) : List (Str × Str) :=
  match truthy s with
  | some s => [(key, canonicalAction s)]
  | none => []

def reflectForeignKey (schema : Option Str) (m : Hit Char) : ReflectedForeignKey where
  name := (m.group 1).getD []
  constrainedColumns := columnNames ((m.group 2).getD [])
  referredSchema := schema
  referredTable := (m.group 3).getD []
  referredColumns := columnNames ((m.group 4).getD [])
  options := actionOption "ondelete".toList (m.group 5)
    ++ actionOption "onupdate".toList (m.group 6)

end Code

/-! ### Foreign keys -/

inductive Action where
  | cascade
  | setNull
  | noAction
  | restrict
  deriving DecidableEq, Repr

/-- In capitals, with single spaces. -/
def Action.text : Action → Str
  | .cascade => "CASCADE".toList
  | .setNull => "SET NULL".toList
  | .noAction => "NO ACTION".toList
  | .restrict => "RESTRICT".toList

/-- Brackets, parentheses and the comma. -/
def punctuation : Str := "[](),".toList

def IsIdentifier (s : Str) : Prop := s ≠ [] ∧ ∀ c ∈ s, c ∉ punctuation

instance (s : Str) : Decidable (IsIdentifier s) :=
  inferInstanceAs (Decidable (s ≠ [] ∧ ∀ c ∈ s, c ∉ punctuation))

structure ForeignKey where
  name : Str
  columns : List Str
  owner : Option Str
  table : Str
  referred : List Str
  onDelete : Option Action
  onUpdate : Option Action
  isIdentifier_name : IsIdentifier name
  columns_ne_nil : columns ≠ []
  isIdentifier_columns : ∀ c ∈ columns, IsIdentifier c
  isIdentifier_owner : ∀ o ∈ owner, IsIdentifier o
  isIdentifier_table : IsIdentifier table
  no_dot : '.' ∉ table
  length_referred : referred.length = columns.length
  isIdentifier_referred : ∀ c ∈ referred, IsIdentifier c

def optionOf (key : Str) (a : Option Action) : List (Str × Str) :=
  (a.map fun a => (key, a.text)).toList

/-- What `get_foreign_keys` should say of a foreign key. -/
def ForeignKey.entry (schema : Option Str) (F : ForeignKey) : ReflectedForeignKey where
  name := F.name
  constrainedColumns := F.columns
  referredSchema := schema
  referredTable := F.table
  referredColumns := F.referred
  options := optionOf "ondelete".toList F.onDelete ++ optionOf "onupdate".toList F.onUpdate

/-! ### Printed foreign keys -/

/-- One text after the other. -/
def Cats : List (Str → Prop) → Str → Prop
  | [], s => s = []
  | A :: As, s => ∃ a b, A a ∧ Cats As b ∧ s = a ++ b

/-- A word in any letter case. -/
def Word (w s : Str) : Prop := List.Forall₂ (fun l c => c = l.toUpper ∨ c = l.toLower) w s

def Blanks (s : Str) : Prop := ∀ c ∈ s, isSpace c

def Blank (s : Str) : Prop := s ≠ [] ∧ Blanks s

instance (s : Str) : Decidable (Blanks s) := inferInstanceAs (Decidable (∀ c ∈ s, isSpace c))

instance (s : Str) : Decidable (Blank s) := inferInstanceAs (Decidable (s ≠ [] ∧ Blanks s))

/-- `[c]`, with white space around it. -/
def ColumnText (c : Str) : Str → Prop :=
  Cats [Blanks, Eq "[".toList, Eq c, Eq "]".toList, Blanks]

/-- Columns with commas between them. -/
def ColumnsText (cs : List Str) (s : Str) : Prop :=
  ∃ parts, List.Forall₂ ColumnText cs parts ∧ s = join ",".toList parts

def ColumnList (cs : List Str) : Str → Prop :=
  Cats [Blanks, Eq "(".toList, ColumnsText cs, Eq ")".toList]

/-- `owner.table`, or `table` alone. -/
def ForeignKey.qualifiedTable (F : ForeignKey) : Str :=
  match F.owner with
  | some o => o ++ '.' :: F.table
  | none => F.table

def Action.Words : Action → Str → Prop
  | .cascade => Word "CASCADE".toList
  | .setNull => Cats [Word "SET".toList, Blank, Word "NULL".toList]
  | .noAction => Cats [Word "NO".toList, Blank, Word "ACTION".toList]
  | .restrict => Word "RESTRICT".toList

def OnEvent (event : Str) : Option Action → Str → Prop
  | none => Eq []
  | some a => Cats [Blank, Word "ON".toList, Blank, Word event, Blank, a.Words]

/-- `CONSTRAINT [n] FOREIGN KEY ([c], ..) REFERENCES [owner.t] ([r], ..)` and the
actions, in any letter case and with any white space. -/
def ForeignKey.Prints (F : ForeignKey) : Str → Prop :=
  Cats [Cats [Word "CONSTRAINT".toList, Blank, Eq "[".toList],
    Eq F.name,
    Cats [Eq "]".toList, Blank, Word "FOREIGN".toList, Blank, Word "KEY".toList],
    ColumnList F.columns,
    Cats [Blank, Word "REFERENCES".toList, Blank, Eq "[".toList, Eq F.qualifiedTable,
      Eq "]".toList],
    ColumnList F.referred,
    OnEvent "DELETE".toList F.onDelete,
    OnEvent "UPDATE".toList F.onUpdate]

/-! ### The usual print -/

def printColumns (cs : List Str) : Str :=
  " (".toList ++ (join ", ".toList (cs.map fun c => '[' :: (c ++ [']'])) ++ ")".toList)

def printEvent (event : Str) : Option Action → Str
  | none => []
  | some a => " ON ".toList ++ (event ++ (" ".toList ++ a.text))

/-- In capitals, with single spaces. -/
def ForeignKey.print (F : ForeignKey) : Str :=
  "CONSTRAINT [".toList ++ (F.name ++ ("] FOREIGN KEY".toList ++ (printColumns F.columns
    ++ ((" REFERENCES [".toList ++ (F.qualifiedTable ++ "]".toList)) ++ (printColumns F.referred
    ++ (printEvent "DELETE".toList F.onDelete ++ printEvent "UPDATE".toList F.onUpdate))))))

theorem word_self {w : Str} (h : ∀ l ∈ w, l.toUpper = l) : Word w w := by
  induction w with
  | nil => exact .nil
  | cons l w ih =>
    exact .cons (Or.inl (h l (by simp)).symm) (ih fun m hm => h m (by simp [hm]))

theorem cats_cons {A : Str → Prop} {As : List (Str → Prop)} {a b : Str} (ha : A a)
    (hb : Cats As b) : Cats (A :: As) (a ++ b) :=
  ⟨a, b, ha, hb, rfl⟩

theorem cats_singleton {A : Str → Prop} {a : Str} (ha : A a) : Cats [A] a :=
  ⟨a, [], ha, rfl, (List.append_nil a).symm⟩

theorem columnText_print {b : Str} (hb : Blanks b) (c : Str) :
    ColumnText c (b ++ '[' :: (c ++ [']'])) :=
  cats_cons hb (cats_cons (b := c ++ [']']) rfl (cats_cons (b := [']']) rfl
    (cats_cons (a := [']']) (b := []) rfl (cats_singleton (List.forall_mem_nil _)))))

theorem columnsText_print {cs : List Str} (hne : cs ≠ []) {b : Str} (hb : Blanks b) :
    ColumnsText cs (b ++ join ", ".toList (cs.map fun c => '[' :: (c ++ [']']))) := by
  induction cs generalizing b with
  | nil => exact absurd rfl hne
  | cons c cs ih =>
    cases cs with
    | nil =>
      refine ⟨[b ++ '[' :: (c ++ [']'])], .cons (columnText_print hb c) .nil, ?_⟩
      rw [List.map_singleton, join_singleton, join_singleton]
    | cons d cs =>
      obtain ⟨parts, hparts, hjoin⟩ := ih (List.cons_ne_nil d cs) (b := " ".toList) (by decide)
      refine ⟨(b ++ '[' :: (c ++ [']'])) :: parts, .cons (columnText_print hb c) hparts, ?_⟩
      cases hparts with
      | cons hp hrest =>
        rw [join_cons_cons, ← hjoin, List.map_cons, List.map_cons, join_cons_cons]
        simp

theorem columnList_print {cs : List Str} (hne : cs ≠ []) : ColumnList cs (printColumns cs) := by
  have hcolumns := columnsText_print hne (b := []) (List.forall_mem_nil _)
  exact cats_cons (A := Blanks) (a := " ".toList) (by decide)
    (cats_cons (a := "(".toList) rfl (cats_cons hcolumns (cats_singleton rfl)))

theorem Action.words_text (a : Action) : a.Words a.text := by
  cases a with
  | cascade => exact word_self (by decide)
  | setNull =>
    exact cats_cons (a := "SET".toList) (word_self (by decide))
      (cats_cons (a := " ".toList) (by decide) (cats_singleton (word_self (by decide))))
  | noAction =>
    exact cats_cons (a := "NO".toList) (word_self (by decide))
      (cats_cons (a := " ".toList) (by decide) (cats_singleton (word_self (by decide))))
  | restrict => exact word_self (by decide)

theorem onEvent_print {event : Str} (h : ∀ l ∈ event, l.toUpper = l) (a : Option Action) :
    OnEvent event a (printEvent event a) := by
  cases a with
  | none => rfl
  | some a =>
    have hlast : Cats [Word event, Blank, a.Words] (event ++ (" ".toList ++ a.text)) :=
      cats_cons (word_self h) (cats_cons (a := " ".toList) (by decide)
        (cats_singleton a.words_text))
    exact cats_cons (a := " ".toList) (by decide) (cats_cons (a := "ON".toList)
      (word_self (by decide)) (cats_cons (a := " ".toList) (by decide) hlast))

theorem ForeignKey.referred_ne_nil (F : ForeignKey) : F.referred ≠ [] := by
  intro e
  have hlen := F.length_referred
  rw [e] at hlen
  exact F.columns_ne_nil (List.eq_nil_of_length_eq_zero hlen.symm)

/-- **Every foreign key can be printed.** -/
theorem ForeignKey.prints_print (F : ForeignKey) : F.Prints F.print := by
  have hopen : Cats [Word "CONSTRAINT".toList, Blank, Eq "[".toList] "CONSTRAINT [".toList :=
    cats_cons (a := "CONSTRAINT".toList) (word_self (by decide))
      (cats_cons (a := " ".toList) (by decide) (cats_singleton rfl))
  have hkey : Cats [Eq "]".toList, Blank, Word "FOREIGN".toList, Blank, Word "KEY".toList]
      "] FOREIGN KEY".toList :=
    cats_cons (a := "]".toList) rfl (cats_cons (a := " ".toList) (by decide)
      (cats_cons (a := "FOREIGN".toList) (word_self (by decide))
        (cats_cons (a := " ".toList) (by decide) (cats_singleton (word_self (by decide))))))
  have htable : Cats [Blank, Word "REFERENCES".toList, Blank, Eq "[".toList, Eq F.qualifiedTable,
      Eq "]".toList] (" REFERENCES [".toList ++ (F.qualifiedTable ++ "]".toList)) :=
    cats_cons (a := " ".toList) (by decide) (cats_cons (a := "REFERENCES".toList)
      (word_self (by decide)) (cats_cons (a := " ".toList) (by decide)
        (cats_cons (a := "[".toList) rfl (cats_cons rfl (cats_singleton rfl)))))
  have hevents : Cats [OnEvent "DELETE".toList F.onDelete, OnEvent "UPDATE".toList F.onUpdate]
      (printEvent "DELETE".toList F.onDelete ++ printEvent "UPDATE".toList F.onUpdate) :=
    cats_cons (onEvent_print (by decide) _) (cats_singleton (onEvent_print (by decide) _))
  unfold print
  exact cats_cons hopen (cats_cons rfl (cats_cons hkey (cats_cons
    (columnList_print F.columns_ne_nil) (cats_cons htable (cats_cons
      (columnList_print F.referred_ne_nil) hevents)))))

/-! ### Words and white space -/

def capitals : Str := "ABCDEFGHIJKLMNOPQRSTUVWXYZ".toList

def IsKeyword (w : Str) : Prop := w ≠ [] ∧ ∀ l ∈ w, l ∈ capitals

instance (w : Str) : Decidable (IsKeyword w) :=
  inferInstanceAs (Decidable (w ≠ [] ∧ ∀ l ∈ w, l ∈ capitals))

theorem noCase_of_cased {l c : Char} (h : c = l.toUpper ∨ c = l.toLower) : noCase l c = true := by
  rw [noCase]
  rcases h with rfl | rfl
  · simp
  · simp

/-- A pattern letter reads its own two cases and a few letters beyond ASCII. -/
theorem noCase_cases {l c : Char} (h : noCase l c = true) :
    c = l.toUpper ∨ c = l.toLower ∨ c.toNat ∈ [0x130, 0x131, 0x17F, 0x212A] := by
  simp only [noCase, Bool.or_eq_true, Bool.and_eq_true, beq_iff_eq] at h
  simp only [List.mem_cons, List.not_mem_nil, or_false]
  rcases h with (((h | h) | ⟨-, h | h⟩) | ⟨-, h⟩) | ⟨-, h⟩
  · exact Or.inl h
  · exact Or.inr (Or.inl h)
  all_goals exact Or.inr (Or.inr (by omega))

theorem isSpace_of_capital :
    ∀ l ∈ capitals, isSpace l.toUpper = false ∧ isSpace l.toLower = false := by
  decide

theorem noCase_space {l c : Char} (hl : l ∈ capitals) (hc : isSpace c) : noCase l c = false := by
  rw [Bool.eq_false_iff]
  intro h
  have hcap := isSpace_of_capital l hl
  rcases noCase_cases h with rfl | rfl | hn
  · exact absurd hc (by rw [hcap.1]; exact Bool.false_ne_true)
  · exact absurd hc (by rw [hcap.2]; exact Bool.false_ne_true)
  · simp only [isSpace, Bool.or_eq_true, Bool.and_eq_true, decide_eq_true_eq, beq_iff_eq] at hc
    simp only [List.mem_cons, List.not_mem_nil, or_false] at hn
    omega

theorem noCase_punctuation : ∀ l ∈ capitals, ∀ d ∈ punctuation, noCase l d = false := by decide

theorem isSpace_punctuation : ∀ d ∈ punctuation, isSpace d = false := by decide

/-- The text does not start with white space. -/
def NoSpaceFirst (s : Str) : Prop := ∀ c t, s = c :: t → isSpace c = false

theorem noSpaceFirst_cons {c : Char} (h : isSpace c = false) (s : Str) : NoSpaceFirst (c :: s) := by
  intro d t e
  rw [← (List.cons.inj e).1]
  exact h

theorem Word.noSpaceFirst {w k : Str} (h : Word w k) (hw : IsKeyword w) (s : Str) :
    NoSpaceFirst (k ++ s) := by
  cases h with
  | nil => exact absurd rfl hw.1
  | @cons l c w k hc _ =>
    have hl := isSpace_of_capital l (hw.2 l (by simp))
    refine noSpaceFirst_cons ?_ _
    rcases hc with rfl | rfl
    · exact hl.1
    · exact hl.2

theorem Word.ne_nil {w k : Str} (h : Word w k) (hw : w ≠ []) : k ≠ [] := by
  cases h with
  | nil => exact absurd rfl hw
  | cons _ _ => exact List.cons_ne_nil _ _

theorem first_keyword {w k : Str} (h : Word w k) (s : Str) :
    (keyword w).first (k ++ s) = some ⟨k, [], s⟩ := by
  refine Re.first_word ?_ s
  rw [List.forall₂_map_left_iff]
  exact h.imp fun _ _ => noCase_of_cased

theorem run_keyword_of_ne {l : Char} {w : Str} {c : Char} (h : noCase l c = false) (s : Str) :
    (keyword (l :: w)).run (c :: s) = [] :=
  Re.run_seq_of_left (Re.run_cls_of_neg h s) _

/-- The first letter of the one word does not read that of the other. -/
def firstDiffers : Str → Str → Bool
  | l :: _, m :: _ => !noCase l m.toUpper && !noCase l m.toLower
  | _, _ => false

theorem run_keyword_of_word {w w' k : Str} (h : Word w' k) (hd : firstDiffers w w' = true)
    (s : Str) : (keyword w).run (k ++ s) = [] := by
  cases w with
  | nil => exact absurd hd (by simp [firstDiffers])
  | cons l w =>
    cases h with
    | nil => exact absurd hd (by simp [firstDiffers])
    | @cons m c w' k hc _ =>
      rw [firstDiffers, Bool.and_eq_true, Bool.not_eq_true', Bool.not_eq_true'] at hd
      rcases hc with rfl | rfl
      · exact run_keyword_of_ne hd.1 _
      · exact run_keyword_of_ne hd.2 _

/-- No word starts with white space. -/
theorem run_keyword_space {w : Str} (hw : IsKeyword w) (r : Re Char) (c : Char) (s : Str)
    (hc : isSpace c) : (Re.seq (keyword w) r).run (c :: s) = [] := by
  cases w with
  | nil => exact absurd rfl hw.1
  | cons l w =>
    exact Re.run_seq_of_left (run_keyword_of_ne (noCase_space (hw.2 l (by simp)) hc) s) r

/-- No word starts with punctuation. -/
theorem run_keyword_punctuation {w : Str} (hw : IsKeyword w) {c : Char} (hc : c ∈ punctuation)
    (s : Str) : (keyword w).run (c :: s) = [] := by
  cases w with
  | nil => exact absurd rfl hw.1
  | cons l w => exact run_keyword_of_ne (noCase_punctuation l (hw.2 l (by simp)) c hc) s

theorem first_chr_nil (c : Char) (s : Str) :
    (Re.seqs [chr c]).first (c :: s) = some ⟨[c], [], s⟩ :=
  Re.first_seq (first_chr c s) (Re.first_eps s)

theorem first_blank {b s : Str} (hb : Blank b) (hs : NoSpaceFirst s) :
    blank.first (b ++ s) = some ⟨b, [], s⟩ :=
  Re.first_plus hb.1 hb.2 hs

theorem first_blanks {b s : Str} (hb : Blanks b) (hs : NoSpaceFirst s) :
    (Re.many isSpace).first (b ++ s) = some ⟨b, [], s⟩ :=
  Re.first_many hb hs

/-- A run of other characters up to one. -/
theorem first_upTo {d : Char} {w : Str} (hne : w ≠ []) (hw : d ∉ w) (n : Nat) (s : Str) :
    (Re.group n (.plus (· != d))).first (w ++ d :: s) = some ⟨w, [(n, w)], d :: s⟩ := by
  have hread : (Re.plus (· != d)).first (w ++ d :: s) = some ⟨w, [], d :: s⟩ := by
    apply Re.first_plus hne (forall_bne_iff.mpr hw)
    intro c t e
    rw [← (List.cons.inj e).1]
    simp
  exact Re.first_group hread n

/-- A pattern that reads white space only. -/
def ReadsBlanks (a : Re Char) : Prop :=
  ∀ s, ∀ h ∈ a.run s, ∃ u v, s = u ++ v ∧ Blanks u ∧ h = ⟨u, [], v⟩

theorem readsBlanks_blank : ReadsBlanks blank := by
  intro s h hh
  obtain ⟨u, v, e, -, hu, rfl⟩ := Re.mem_run_plus.mp hh
  exact ⟨u, v, e, hu, rfl⟩

theorem readsBlanks_many : ReadsBlanks (.many isSpace) := by
  intro s h hh
  exact Re.mem_run_many.mp hh

/-- White space, and then something that neither white space nor the text after it
can start. -/
theorem run_blanks_seq_eq_nil {a r : Re Char} (ha : ReadsBlanks a) {b t : Str} (hb : Blanks b)
    (ht : NoSpaceFirst t) (hspace : ∀ c s, isSpace c → r.run (c :: s) = []) (hr : r.run t = []) :
    (Re.seq a r).run (b ++ t) = [] := by
  by_contra hne
  obtain ⟨h, hh, hrun⟩ := Re.run_seq_ne_nil_iff.mp hne
  obtain ⟨u, v, e, hu, rfl⟩ := ha _ _ hh
  apply hrun
  rcases List.append_eq_append_iff.mp e with ⟨x, rfl, rfl⟩ | ⟨x, rfl, rfl⟩
  · -- the white space read ends in `t`, so nothing of `t` is read
    cases x with
    | nil => exact hr
    | cons c x =>
      have hc : isSpace c = true := hu c (by simp)
      exact absurd hc (by rw [ht c (x ++ v) rfl]; exact Bool.false_ne_true)
  · cases x with
    | nil => exact hr
    | cons c x => exact hspace c (x ++ t) (hb c (by simp))

theorem run_blank_seq_eq_nil {r : Re Char} {b t : Str} (hb : Blanks b) (ht : NoSpaceFirst t)
    (hspace : ∀ c s, isSpace c → r.run (c :: s) = []) (hr : r.run t = []) :
    (Re.seq blank r).run (b ++ t) = [] :=
  run_blanks_seq_eq_nil readsBlanks_blank hb ht hspace hr

/-! ### Reading a clause -/

theorem first_constraintOpen {o : Str}
    (h : Cats [Word "CONSTRAINT".toList, Blank, Eq "[".toList] o) (s : Str) :
    constraintOpen.first (o ++ s) = some ⟨o, [], s⟩ := by
  obtain ⟨k, _, hk, ⟨b, _, hb, ⟨_, _, rfl, rfl, rfl⟩, rfl⟩, rfl⟩ := h
  simp only [List.append_assoc]
  have hblank : blank.first (b ++ ("[".toList ++ ([] ++ s))) = some ⟨b, [], '[' :: s⟩ :=
    first_blank hb (noSpaceFirst_cons (by decide) s)
  exact Re.first_seqs_cons (first_keyword hk _) (Re.first_seqs_cons hblank (first_chr_nil '[' s))

theorem first_fkKey {k : Str}
    (h : Cats [Eq "]".toList, Blank, Word "FOREIGN".toList, Blank, Word "KEY".toList] k)
    (s : Str) : fkKey.first (k ++ s) = some ⟨k, [], s⟩ := by
  obtain ⟨_, _, rfl, ⟨b, _, hb, ⟨f, _, hf, ⟨b', _, hb', ⟨y, _, hy, rfl, rfl⟩, rfl⟩, rfl⟩, rfl⟩,
    rfl⟩ := h
  simp only [List.append_assoc]
  have hkey : (Re.seqs [keyword "KEY".toList]).first (y ++ ([] ++ s)) = some ⟨y ++ [], [], s⟩ :=
    Re.first_seqs_cons (first_keyword hy s) (Re.first_seqs_nil s)
  have hblank' : blank.first (b' ++ (y ++ ([] ++ s))) = some ⟨b', [], y ++ ([] ++ s)⟩ :=
    first_blank hb' (hy.noSpaceFirst (by decide) _)
  have hblank : blank.first (b ++ (f ++ (b' ++ (y ++ ([] ++ s)))))
      = some ⟨b, [], f ++ (b' ++ (y ++ ([] ++ s)))⟩ :=
    first_blank hb (hf.noSpaceFirst (by decide) _)
  exact Re.first_seqs_cons (first_chr ']' _) (Re.first_seqs_cons hblank
    (Re.first_seqs_cons (first_keyword hf _) (Re.first_seqs_cons hblank' hkey)))

/-! #### Columns -/

theorem not_mem_of_isIdentifier {s : Str} (h : IsIdentifier s) {d : Char} (hd : d ∈ punctuation) :
    d ∉ s :=
  fun hmem => h.2 d hmem hd

theorem not_mem_blanks {b : Str} (hb : Blanks b) {d : Char} (hd : d ∈ punctuation) : d ∉ b := by
  intro hmem
  exact absurd (hb d hmem) (by rw [isSpace_punctuation d hd]; exact Bool.false_ne_true)

theorem ColumnText.cases {c p : Str} (h : ColumnText c p) :
    ∃ a b, Blanks a ∧ Blanks b ∧ p = a ++ ('[' :: (c ++ [']'])) ++ b := by
  obtain ⟨a, _, ha, ⟨_, _, rfl, ⟨_, _, rfl, ⟨_, _, rfl, ⟨b, _, hb, rfl, rfl⟩, rfl⟩, rfl⟩, rfl⟩,
    rfl⟩ := h
  refine ⟨a, b, ha, hb, ?_⟩
  simp

/-- A printed column has no comma and no parenthesis. -/
theorem ColumnText.not_mem {c p : Str} (h : ColumnText c p) (hc : IsIdentifier c) {d : Char}
    (hd : d ∈ punctuation) (hopen : d ≠ '[') (hclose : d ≠ ']') : d ∉ p := by
  obtain ⟨a, b, ha, hb, rfl⟩ := h.cases
  simp only [List.mem_append, List.mem_cons, List.not_mem_nil, or_false, not_or]
  exact ⟨⟨not_mem_blanks ha hd, hopen, not_mem_of_isIdentifier hc hd, hclose⟩,
    not_mem_blanks hb hd⟩

/-- **A printed column gives its name back.** -/
theorem stripChars_columnText {c p : Str} (h : ColumnText c p) (hc : IsIdentifier c) :
    stripChars "[]".toList (strip p) = c := by
  obtain ⟨a, b, ha, hb, rfl⟩ := h.cases
  have hstrip : strip (a ++ ('[' :: (c ++ [']'])) ++ b) = '[' :: (c ++ [']']) := by
    apply stripIf_surround ha hb (List.cons_ne_nil _ _) rfl
    rw [List.getLast_cons (by simp), List.getLast_append_right (by simp)]
    decide
  have hbrackets : ∀ d ∈ c, decide (d ∈ "[]".toList) = false := by
    intro d hd
    rw [decide_eq_false_iff_not]
    intro hmem
    have hpunct : ∀ e ∈ "[]".toList, e ∈ punctuation := by decide
    exact hc.2 d hd (hpunct d hmem)
  have hinner := stripIf_surround (p := fun d => decide (d ∈ "[]".toList)) (a := ['['])
    (b := [']']) (by decide) (by decide) hc.1 (hbrackets _ (List.head_mem _))
    (hbrackets _ (List.getLast_mem _))
  rw [hstrip, stripChars]
  exact hinner

theorem columnNames_columnsText {cs : List Str} {s : Str} (h : ColumnsText cs s) (hne : cs ≠ [])
    (hcs : ∀ c ∈ cs, IsIdentifier c) : columnNames s = cs := by
  obtain ⟨parts, hparts, rfl⟩ := h
  induction hparts with
  | nil => exact absurd rfl hne
  | @cons c p cs parts hp hrest ih =>
    have hc : IsIdentifier c := hcs c (by simp)
    have hcomma : ∀ d ∈ p, d ≠ ',' := by
      intro d hd e
      exact hp.not_mem hc (by decide) (by decide) (by decide) (e ▸ hd)
    cases hrest with
    | nil =>
      rw [join_singleton, columnNames, split_eq_singleton hcomma, List.map_singleton,
        stripChars_columnText hp hc]
    | @cons c' p' cs' parts' hp' hrest' =>
      have hjoin : join ",".toList (p :: p' :: parts')
          = p ++ ',' :: join ",".toList (p' :: parts') := by
        rw [join_cons_cons, List.append_assoc]
        rfl
      have ih' := ih (List.cons_ne_nil _ _) fun d hd => hcs d (List.mem_cons_of_mem _ hd)
      rw [columnNames] at ih'
      rw [hjoin, columnNames, split_append_cons hcomma, List.map_cons,
        stripChars_columnText hp hc, ih']

theorem columnsText_ne_nil {cs : List Str} {s : Str} (h : ColumnsText cs s) (hne : cs ≠ []) :
    s ≠ [] := by
  obtain ⟨parts, hparts, rfl⟩ := h
  cases hparts with
  | nil => exact absurd rfl hne
  | @cons c p cs parts hp hrest =>
    have hp' : p ≠ [] := by
      obtain ⟨a, b, -, -, rfl⟩ := hp.cases
      simp
    cases hrest with
    | nil => rw [join_singleton]; exact hp'
    | cons _ _ => rw [join_cons_cons]; simp [hp']

theorem not_mem_columnsText {cs : List Str} {s : Str} (h : ColumnsText cs s)
    (hcs : ∀ c ∈ cs, IsIdentifier c) : ')' ∉ s := by
  obtain ⟨parts, hparts, rfl⟩ := h
  induction hparts with
  | nil => exact List.not_mem_nil
  | @cons c p cs parts hp hrest ih =>
    have hp' : ')' ∉ p := hp.not_mem (hcs c (by simp)) (by decide) (by decide) (by decide)
    have ih' := ih fun d hd => hcs d (List.mem_cons_of_mem _ hd)
    cases hrest with
    | nil => rw [join_singleton]; exact hp'
    | cons _ _ =>
      rw [join_cons_cons, List.mem_append, List.mem_append]
      rintro ((hmem | hmem) | hmem)
      · exact hp' hmem
      · exact absurd hmem (by decide)
      · exact ih' hmem

theorem first_fkColumns {cs : List Str} {x : Str} (h : ColumnList cs x) (hne : cs ≠ [])
    (hcs : ∀ c ∈ cs, IsIdentifier c) (n : Nat) (s : Str) :
    ∃ w, columnNames w = cs ∧ (fkColumns n).first (x ++ s) = some ⟨x, [(n, w)], s⟩ := by
  obtain ⟨b, _, hb, ⟨_, _, rfl, ⟨w, _, hw, ⟨_, _, rfl, rfl, rfl⟩, rfl⟩, rfl⟩, rfl⟩ := h
  refine ⟨w, columnNames_columnsText hw hne hcs, ?_⟩
  simp only [List.append_assoc]
  have hgroup := first_upTo (columnsText_ne_nil hw hne) (not_mem_columnsText hw hcs) n s
  have hblanks : (Re.many isSpace).first (b ++ ("(".toList ++ (w ++ (")".toList ++ ([] ++ s)))))
      = some ⟨b, [], '(' :: (w ++ ')' :: s)⟩ :=
    first_blanks hb (noSpaceFirst_cons (by decide) _)
  exact Re.first_seqs_cons hblanks (Re.first_seqs_cons (first_chr '(' _)
    (Re.first_seqs_cons hgroup (first_chr_nil ')' s)))

/-! #### The table -/

/-- Up to the bracket that closes the table name, no dot comes. -/
theorem run_dot_eq_nil {t s a b : Str} (ht : '.' ∉ t) (ha : ']' ∉ a)
    (e : t ++ ']' :: s = a ++ b) : (Re.seqs [chr '.']).run b = [] := by
  have hhead : ∀ c r, b = c :: r → c ≠ '.' := by
    intro c r hb
    rcases List.append_eq_append_iff.mp e with ⟨x, rfl, hx⟩ | ⟨x, rfl, hx⟩
    · cases x with
      | nil =>
        rw [List.nil_append, hb] at hx
        rw [← (List.cons.inj hx).1]
        decide
      | cons d x =>
        have hd : ']' = d := (List.cons.inj hx).1
        exact absurd (by rw [hd]; simp) ha
    · cases x with
      | nil =>
        rw [List.nil_append, hb] at hx
        rw [(List.cons.inj hx).1]
        decide
      | cons d x =>
        rw [hb] at hx
        rw [(List.cons.inj hx).1]
        rintro rfl
        exact ht (by simp)
  cases b with
  | nil => rfl
  | cons c r => exact Re.run_seq_of_left (run_chr_cons (hhead c r rfl) r) _

theorem first_fkOwner_none {t : Str} (ht : '.' ∉ t) (s : Str) :
    fkOwner.first (t ++ ']' :: s) = some ⟨[], [], t ++ ']' :: s⟩ := by
  apply Re.first_opt_of_nil
  by_contra hne
  obtain ⟨h, hh, hrun⟩ := Re.run_seq_ne_nil_iff.mp hne
  obtain ⟨u, v, e, -, hu, rfl⟩ := Re.mem_run_plus.mp hh
  exact hrun (run_dot_eq_nil ht (forall_bne_iff.mp hu) e)

/-- The greedy owner backs up to the last dot. -/
theorem first_fkOwner_some {o t : Str} (hne : o ≠ []) (ho : ']' ∉ o) (ht : '.' ∉ t) (s : Str) :
    fkOwner.first ((o ++ ['.']) ++ (t ++ ']' :: s)) = some ⟨o ++ ['.'], [], t ++ ']' :: s⟩ := by
  obtain ⟨xs, ys, hrun, hxs⟩ :=
    Re.run_plus_split hne (forall_bne_iff.mpr ho) ('.' :: (t ++ ']' :: s))
  have hdot := first_chr_nil '.' (t ++ ']' :: s)
  rw [List.append_assoc]
  refine Re.first_opt (Re.first_seq_of_split hrun ?_ hdot)
  intro x hx
  obtain ⟨a, b, hne', e, ha, rfl⟩ := hxs x hx
  cases a with
  | nil => exact absurd rfl hne'
  | cons d a =>
    obtain ⟨-, e'⟩ := List.cons.inj e
    have ha' : ']' ∉ d :: a := forall_bne_iff.mp ha
    exact run_dot_eq_nil ht (fun hmem => ha' (List.mem_cons_of_mem d hmem)) e'

theorem ForeignKey.first_owner (F : ForeignKey) (s : Str) :
    ∃ o, F.qualifiedTable = o ++ F.table ∧
      fkOwner.first (o ++ (F.table ++ ']' :: s)) = some ⟨o, [], F.table ++ ']' :: s⟩ := by
  rw [qualifiedTable]
  cases hF : F.owner with
  | none => exact ⟨[], rfl, first_fkOwner_none F.no_dot s⟩
  | some o =>
    have ho := F.isIdentifier_owner o hF
    refine ⟨o ++ ['.'], by simp, ?_⟩
    exact first_fkOwner_some ho.1 (not_mem_of_isIdentifier ho (by decide)) F.no_dot s

theorem first_fkTable {F : ForeignKey} {x : Str}
    (h : Cats [Blank, Word "REFERENCES".toList, Blank, Eq "[".toList, Eq F.qualifiedTable,
      Eq "]".toList] x) (s : Str) :
    fkTable.first (x ++ s) = some ⟨x, [(3, F.table)], s⟩ := by
  obtain ⟨b, _, hb, ⟨r, _, hr, ⟨b', _, hb', ⟨_, _, rfl, ⟨_, _, rfl, ⟨_, _, rfl, rfl, rfl⟩, rfl⟩,
    rfl⟩, rfl⟩, rfl⟩, rfl⟩ := h
  obtain ⟨o, ho, howner⟩ := F.first_owner s
  rw [ho]
  simp only [List.append_assoc]
  have hname : ']' ∉ F.table := not_mem_of_isIdentifier F.isIdentifier_table (by decide)
  have htable := first_upTo F.isIdentifier_table.1 hname 3 s
  have hblank' : blank.first (b' ++ ("[".toList ++ (o ++ (F.table ++ ("]".toList ++ ([] ++ s))))))
      = some ⟨b', [], '[' :: (o ++ (F.table ++ ']' :: s))⟩ :=
    first_blank hb' (noSpaceFirst_cons (by decide) _)
  have hblank : blank.first
        (b ++ (r ++ (b' ++ ("[".toList ++ (o ++ (F.table ++ ("]".toList ++ ([] ++ s))))))))
      = some ⟨b, [], r ++ (b' ++ ("[".toList ++ (o ++ (F.table ++ ("]".toList ++ ([] ++ s))))))⟩ :=
    first_blank hb (hr.noSpaceFirst (by decide) _)
  exact Re.first_seqs_cons hblank (Re.first_seqs_cons (first_keyword hr _)
    (Re.first_seqs_cons hblank' (Re.first_seqs_cons (first_chr '[' _)
      (Re.first_seqs_cons howner (Re.first_seqs_cons htable (first_chr_nil ']' s))))))

/-! #### Actions -/

section Actions

variable [UnicodeData]

theorem upper_word {w s : Str} (h : Word w s)
    (hw : ∀ l ∈ w, UnicodeData.upperChar l.toUpper = [l] ∧ UnicodeData.upperChar l.toLower = [l]) :
    upper s = w := by
  induction h with
  | nil => rfl
  | @cons l c w s hc _ ih =>
    have hl := hw l (by simp)
    have hhead : UnicodeData.upperChar c = [l] := by
      rcases hc with rfl | rfl
      · exact hl.1
      · exact hl.2
    rw [upper_cons, hhead, ih fun m hm => hw m (by simp [hm])]
    rfl

theorem upperChar_capital :
    ∀ l ∈ capitals, UnicodeData.upperChar l.toUpper = [l] ∧
      UnicodeData.upperChar l.toLower = [l] := by
  have hascii : ∀ l ∈ capitals, (l.toUpper.toNat < 128 ∧ l.toUpper.toUpper = l) ∧
      (l.toLower.toNat < 128 ∧ l.toLower.toUpper = l) := by decide
  intro l hl
  obtain ⟨⟨hu, hu'⟩, hlow, hlow'⟩ := hascii l hl
  rw [UnicodeData.upperChar_ascii _ hu, UnicodeData.upperChar_ascii _ hlow, hu', hlow']
  exact ⟨rfl, rfl⟩

theorem upper_keyword {w s : Str} (h : Word w s) (hw : ∀ l ∈ w, l ∈ capitals) : upper s = w :=
  upper_word h fun l hl => upperChar_capital l (hw l hl)

/-- Two words with white space between them, in capitals and with a single space. -/
theorem canonicalAction_two {v w s : Str} (h : Cats [Word v, Blank, Word w] s) (hv : IsKeyword v)
    (hw : IsKeyword w) : canonicalAction s = v ++ ' ' :: w := by
  obtain ⟨k, _, hk, ⟨b, _, hb, ⟨m, _, hm, rfl, rfl⟩, rfl⟩, rfl⟩ := h
  have hcapital : ∀ l ∈ capitals, isSpace l = false := by decide
  have hwords : words (upper (k ++ (b ++ (m ++ [])))) = [v, w] := by
    rw [List.append_nil, upper_append, upper_append, upper_keyword hk hv.2, upper_spaces hb.2,
      upper_keyword hm hw.2]
    cases b with
    | nil => exact absurd rfl hb.1
    | cons x b =>
      have hrest : ∀ c ∈ b, isSpace c := fun c hc => hb.2 c (by simp [hc])
      rw [List.cons_append, words_append_cons hv.1 (fun c hc => hcapital c (hv.2 c hc))
        (hb.2 x (by simp)), words_spaces_append hrest,
        words_eq_singleton hw.1 fun c hc => hcapital c (hw.2 c hc)]
  rw [canonicalAction, hwords, join_cons_cons, join_singleton, List.append_assoc]
  rfl

theorem canonicalAction_one {w s : Str} (h : Word w s) (hw : IsKeyword w) :
    canonicalAction s = w := by
  have hcapital : ∀ l ∈ capitals, isSpace l = false := by decide
  rw [canonicalAction, upper_keyword h hw.2,
    words_eq_singleton hw.1 fun c hc => hcapital c (hw.2 c hc), join_singleton]

/-- **An action is put into canonical form.** -/
theorem canonicalAction_words {a : Action} {s : Str} (h : a.Words s) :
    canonicalAction s = a.text := by
  cases a with
  | cascade => exact canonicalAction_one h (by decide)
  | setNull => exact canonicalAction_two h (by decide) (by decide)
  | noAction => exact canonicalAction_two h (by decide) (by decide)
  | restrict => exact canonicalAction_one h (by decide)

end Actions

theorem first_two {v w s : Str} (h : Cats [Word v, Blank, Word w] s) (hw : IsKeyword w)
    (t : Str) : (Re.seqs [keyword v, blank, keyword w]).first (s ++ t) = some ⟨s, [], t⟩ := by
  obtain ⟨k, _, hk, ⟨b, _, hb, ⟨m, _, hm, rfl, rfl⟩, rfl⟩, rfl⟩ := h
  simp only [List.append_assoc]
  have hblank := first_blank hb (hm.noSpaceFirst hw ([] ++ t))
  exact Re.first_seqs_cons (first_keyword hk _) (Re.first_seqs_cons hblank
    (Re.first_seqs_cons (first_keyword hm _) (Re.first_seqs_nil t)))

/-- The first word of an action. -/
def Action.firstWord : Action → Str
  | .cascade => "CASCADE".toList
  | .setNull => "SET".toList
  | .noAction => "NO".toList
  | .restrict => "RESTRICT".toList

theorem Action.Words.split {a : Action} {s : Str} (h : a.Words s) :
    ∃ k r, Word a.firstWord k ∧ s = k ++ r := by
  cases a with
  | cascade => exact ⟨s, [], h, (List.append_nil s).symm⟩
  | setNull =>
    obtain ⟨k, r, hk, -, rfl⟩ := h
    exact ⟨k, r, hk, rfl⟩
  | noAction =>
    obtain ⟨k, r, hk, -, rfl⟩ := h
    exact ⟨k, r, hk, rfl⟩
  | restrict => exact ⟨s, [], h, (List.append_nil s).symm⟩

theorem Action.isKeyword_firstWord (a : Action) : IsKeyword a.firstWord := by
  cases a <;> decide

theorem Action.Words.noSpaceFirst {a : Action} {s : Str} (h : a.Words s) (t : Str) :
    NoSpaceFirst (s ++ t) := by
  obtain ⟨k, r, hk, rfl⟩ := h.split
  rw [List.append_assoc]
  exact hk.noSpaceFirst a.isKeyword_firstWord _

theorem Action.Words.ne_nil {a : Action} {s : Str} (h : a.Words s) : s ≠ [] := by
  obtain ⟨k, r, hk, rfl⟩ := h.split
  exact List.append_ne_nil_of_left_ne_nil (hk.ne_nil a.isKeyword_firstWord.1) r

/-- The first letters of the actions tell them apart. -/
theorem first_actionWords {a : Action} {s : Str} (h : a.Words s) (t : Str) :
    actionWords.first (s ++ t) = some ⟨s, [], t⟩ := by
  obtain ⟨k, r, hk, hs⟩ := h.split
  have hkeyword (w : Str) (hd : firstDiffers w a.firstWord = true) :
      (keyword w).run (s ++ t) = [] := by
    rw [hs, List.append_assoc]
    exact run_keyword_of_word hk hd _
  have htwo (v w : Str) (hd : firstDiffers v a.firstWord = true) :
      (Re.seqs [keyword v, blank, keyword w]).run (s ++ t) = [] :=
    Re.run_seq_of_left (hkeyword v hd) _
  cases a with
  | cascade => exact Re.first_alt (first_keyword h t) _
  | setNull =>
    rw [actionWords, Re.first_alt_of_nil (hkeyword _ (by decide))]
    exact Re.first_alt (first_two h (by decide) t) _
  | noAction =>
    rw [actionWords, Re.first_alt_of_nil (hkeyword _ (by decide)),
      Re.first_alt_of_nil (htwo _ _ (by decide))]
    exact Re.first_alt (first_two h (by decide) t) _
  | restrict =>
    rw [actionWords, Re.first_alt_of_nil (hkeyword _ (by decide)),
      Re.first_alt_of_nil (htwo _ _ (by decide)), Re.first_alt_of_nil (htwo _ _ (by decide))]
    exact first_keyword h t

/-- **An action that is there is read.** -/
theorem first_onEvent {event x : Str} {a : Action} (h : OnEvent event (some a) x)
    (hevent : IsKeyword event) (n : Nat) (s : Str) :
    ∃ y, a.Words y ∧ (onEvent event n).first (x ++ s) = some ⟨x, [(n, y)], s⟩ := by
  obtain ⟨b, _, hb, ⟨o, _, ho, ⟨b', _, hb', ⟨e, _, he, ⟨b'', _, hb'', ⟨y, _, hy, rfl, rfl⟩, rfl⟩,
    rfl⟩, rfl⟩, rfl⟩, rfl⟩ := h
  refine ⟨y, hy, ?_⟩
  simp only [List.append_assoc]
  have hwords := Re.first_group (first_actionWords hy ([] ++ s)) n
  have haction : (Re.seqs [Re.group n actionWords]).first (y ++ ([] ++ s))
      = some ⟨y ++ [], [] ++ [(n, y)], s⟩ :=
    Re.first_seqs_cons hwords (Re.first_seqs_nil s)
  have hblank'' := first_blank hb'' (hy.noSpaceFirst ([] ++ s))
  have hblank' := first_blank hb' (he.noSpaceFirst hevent (b'' ++ (y ++ ([] ++ s))))
  have hblank := first_blank hb (ho.noSpaceFirst (by decide)
    (b' ++ (e ++ (b'' ++ (y ++ ([] ++ s))))))
  exact Re.first_seqs_cons hblank (Re.first_seqs_cons (first_keyword ho _)
    (Re.first_seqs_cons hblank' (Re.first_seqs_cons (first_keyword he _)
      (Re.first_seqs_cons hblank'' haction))))

/-- What may come after a foreign key: white space, and then punctuation or the
end. -/
def Stops (t : Str) : Prop :=
  ∃ b u, t = b ++ u ∧ Blanks b ∧ ∀ c v, u = c :: v → c ∈ punctuation

/-- **No action is read where none is there.** -/
theorem run_onEvent_of_stops {t : Str} (h : Stops t) (event : Str) (n : Nat) :
    (onEvent event n).run t = [] := by
  obtain ⟨b, u, rfl, hb, hu⟩ := h
  refine run_blank_seq_eq_nil hb (fun c v e => isSpace_punctuation c (hu c v e))
    (run_keyword_space (by decide) _) ?_
  cases u with
  | nil => rfl
  | cons c v => exact Re.run_seq_of_left (run_keyword_punctuation (by decide) (hu c v rfl) v) _

/-- An action on another event is not read. -/
theorem run_onEvent_of_other {event event' x : Str} {a : Action} (h : OnEvent event' (some a) x)
    (hevent : IsKeyword event) (hevent' : IsKeyword event')
    (hd : firstDiffers event event' = true) (n : Nat) (s : Str) :
    (onEvent event n).run (x ++ s) = [] := by
  obtain ⟨b, _, hb, ⟨o, _, ho, ⟨b', _, hb', ⟨e, r, he, -, rfl⟩, rfl⟩, rfl⟩, rfl⟩ := h
  simp only [List.append_assoc]
  refine run_blank_seq_eq_nil hb.2 (ho.noSpaceFirst (by decide) _)
    (run_keyword_space (by decide) _) ?_
  by_contra hne
  obtain ⟨k, hk, hrun⟩ := Re.run_seq_ne_nil_iff.mp hne
  apply hrun
  have hlen : ("ON".toList.map noCase).length = o.length := by
    rw [List.length_map]
    exact ho.length_eq
  have hrest : k.rest = b' ++ (e ++ (r ++ s)) := by
    rw [Re.rest_of_mem_run_word hk, hlen, List.drop_left]
  rw [hrest]
  apply run_blank_seq_eq_nil hb'.2 (he.noSpaceFirst hevent' _) (run_keyword_space hevent _)
  exact Re.run_seq_of_left (run_keyword_of_word he hd _) _

/-- What the group of an action has recorded. -/
def EventGroups (n : Nat) : Option Action → List (Nat × Str) → Prop
  | none, g => g = []
  | some a, g => ∃ y, a.Words y ∧ g = [(n, y)]

theorem first_optEvent {event x s : Str} {a : Option Action} (h : OnEvent event a x)
    (hevent : IsKeyword event) (n : Nat) (hs : a = none → (onEvent event n).run s = []) :
    ∃ g, EventGroups n a g ∧ (Re.opt (onEvent event n)).first (x ++ s) = some ⟨x, g, s⟩ := by
  cases a with
  | none =>
    have hx : [] = x := h
    rw [← hx]
    exact ⟨[], rfl, Re.first_opt_of_nil (hs rfl)⟩
  | some a =>
    obtain ⟨y, hy, hread⟩ := first_onEvent h hevent n s
    exact ⟨[(n, y)], ⟨y, hy, rfl⟩, Re.first_opt hread⟩

/-- After the second list of columns, the two actions are read. -/
theorem first_events {F : ForeignKey} {d u t : Str} (hd : OnEvent "DELETE".toList F.onDelete d)
    (hu : OnEvent "UPDATE".toList F.onUpdate u) (ht : Stops t) :
    ∃ gd gu, EventGroups 5 F.onDelete gd ∧ EventGroups 6 F.onUpdate gu ∧
      (Re.seqs [.opt (onEvent "DELETE".toList 5), .opt (onEvent "UPDATE".toList 6)]).first
        (d ++ (u ++ t)) = some ⟨d ++ u, gu ++ gd, t⟩ := by
  have hnone : F.onDelete = none → (onEvent "DELETE".toList 5).run (u ++ t) = [] := by
    intro _
    cases hF : F.onUpdate with
    | none =>
      rw [hF] at hu
      have hx : [] = u := hu
      rw [← hx]
      exact run_onEvent_of_stops ht _ 5
    | some a =>
      rw [hF] at hu
      exact run_onEvent_of_other hu (by decide) (by decide) (by decide) 5 t
  obtain ⟨gd, hgd, hdelete⟩ := first_optEvent hd (by decide) 5 hnone
  obtain ⟨gu, hgu, hupdate⟩ := first_optEvent (s := t) hu (by decide) 6
    fun _ => run_onEvent_of_stops ht _ 6
  refine ⟨gd, gu, hgd, hgu, ?_⟩
  have hlast := Re.first_seqs_cons hupdate (Re.first_seqs_nil t)
  rw [List.append_nil, List.nil_append] at hlast
  exact Re.first_seqs_cons hdelete hlast

section Entry

variable [UnicodeData]

theorem actionOption_of_groups {n : Nat} {a : Option Action} {g : List (Nat × Str)}
    (h : EventGroups n a g) (key : Str) : actionOption key (g.lookup n) = optionOf key a := by
  cases a with
  | none =>
    rw [show g = [] from h]
    rfl
  | some a =>
    obtain ⟨y, hy, rfl⟩ := h
    rw [List.lookup_cons_self, actionOption, truthy_some hy.ne_nil]
    show [(key, canonicalAction y)] = _
    rw [canonicalAction_words hy]
    rfl

omit [UnicodeData] in
theorem lookup_eventGroups {n m : Nat} (hnm : m ≠ n) {a : Option Action} {g : List (Nat × Str)}
    (h : EventGroups n a g) : g.lookup m = none := by
  cases a with
  | none =>
    rw [show g = [] from h]
    rfl
  | some a =>
    obtain ⟨y, -, rfl⟩ := h
    have hfalse : (m == n) = false := by simpa using hnm
    rw [List.lookup_cons, hfalse]
    rfl

/-- The entry, by what the groups have recorded. -/
theorem reflectForeignKey_of_groups {a b : Option Action} {gd gu : List (Nat × Str)}
    (hgd : EventGroups 5 a gd) (hgu : EventGroups 6 b gu) (x t n c tab r : Str)
    (schema : Option Str) :
    reflectForeignKey schema ⟨x, gu ++ (gd ++ [(4, r), (3, tab), (2, c), (1, n)]), t⟩
      = ⟨n, columnNames c, schema, tab, columnNames r,
          optionOf "ondelete".toList a ++ optionOf "onupdate".toList b⟩ := by
  have hlookup (m : Nat) (hm : m ≠ 5 ∧ m ≠ 6) :
      (gu ++ (gd ++ [(4, r), (3, tab), (2, c), (1, n)])).lookup m
        = [(4, r), (3, tab), (2, c), (1, n)].lookup m := by
    rw [List.lookup_append, List.lookup_append, lookup_eventGroups hm.2 hgu,
      lookup_eventGroups hm.1 hgd, Option.none_or, Option.none_or]
  have hdelete : (gu ++ (gd ++ [(4, r), (3, tab), (2, c), (1, n)])).lookup 5 = gd.lookup 5 := by
    rw [List.lookup_append, List.lookup_append, lookup_eventGroups (by decide) hgu,
      Option.none_or]
    exact Option.or_none
  have hupdate : (gu ++ (gd ++ [(4, r), (3, tab), (2, c), (1, n)])).lookup 6 = gu.lookup 6 := by
    rw [List.lookup_append, List.lookup_append, lookup_eventGroups (by decide) hgd,
      Option.none_or]
    exact Option.or_none
  simp only [reflectForeignKey, Hit.group]
  rw [hlookup 1 (by decide), hlookup 2 (by decide), hlookup 3 (by decide), hlookup 4 (by decide),
    hdelete, hupdate, actionOption_of_groups hgd, actionOption_of_groups hgu]
  rfl

/-- **The pattern reads a printed foreign key, and the entry made of the match is
the right one.** -/
theorem first_fkPattern {F : ForeignKey} {x t : Str} (h : F.Prints x) (ht : Stops t)
    (schema : Option Str) :
    ∃ g, fkPattern.first (x ++ t) = some ⟨x, g, t⟩ ∧
      reflectForeignKey schema ⟨x, g, t⟩ = F.entry schema := by
  obtain ⟨o, _, ho, ⟨_, _, rfl, ⟨k, _, hk, ⟨cs, _, hcs, ⟨tab, _, htab, ⟨rs, _, hrs, ⟨d, _, hd,
    ⟨u, _, hu, rfl, rfl⟩, rfl⟩, rfl⟩, rfl⟩, rfl⟩, rfl⟩, rfl⟩, rfl⟩ := h
  obtain ⟨gd, gu, hgd, hgu, hevents⟩ := first_events hd hu ht
  obtain ⟨r, hr, hreferredRead⟩ := first_fkColumns hrs F.referred_ne_nil F.isIdentifier_referred 4
    (d ++ (u ++ t))
  obtain ⟨c, hc, hcolumns⟩ := first_fkColumns hcs F.columns_ne_nil F.isIdentifier_columns 2
    (tab ++ (rs ++ (d ++ (u ++ t))))
  have htable := first_fkTable htab (rs ++ (d ++ (u ++ t)))
  have hkey := first_fkKey hk (cs ++ (tab ++ (rs ++ (d ++ (u ++ t)))))
  have hrest := Re.first_seqs_cons hkey (Re.first_seqs_cons hcolumns
    (Re.first_seqs_cons htable (Re.first_seqs_cons hreferredRead hevents)))
  have hname : fkName.first (F.name ++ (k ++ (cs ++ (tab ++ (rs ++ (d ++ (u ++ t)))))))
      = some ⟨F.name, [(1, F.name)], k ++ (cs ++ (tab ++ (rs ++ (d ++ (u ++ t)))))⟩ := by
    obtain ⟨_, k', rfl, -, rfl⟩ := hk
    exact first_upTo F.isIdentifier_name.1
      (not_mem_of_isIdentifier F.isIdentifier_name (by decide)) 1 _
  have hopen := first_constraintOpen ho
    (F.name ++ (k ++ (cs ++ (tab ++ (rs ++ (d ++ (u ++ t)))))))
  have hread : fkPattern.first (o ++ (F.name ++ (k ++ (cs ++ (tab ++ (rs ++ (d ++ (u ++ t))))))))
      = some ⟨o ++ (F.name ++ (k ++ (cs ++ (tab ++ (rs ++ (d ++ u)))))),
          (gu ++ gd ++ [(4, r)] ++ [(3, F.table)] ++ [(2, c)] ++ [] ++ [(1, F.name)]) ++ [], t⟩ :=
    Re.first_seq hopen (Re.first_seq hname hrest)
  refine ⟨gu ++ (gd ++ [(4, r), (3, F.table), (2, c), (1, F.name)]), ?_, ?_⟩
  · simp only [List.append_assoc, List.append_nil, List.cons_append, List.nil_append] at hread ⊢
    exact hread
  · rw [reflectForeignKey_of_groups hgd hgu, hc, hr]
    rfl

end Entry

end SqlalchemyCubrid.Dialect
