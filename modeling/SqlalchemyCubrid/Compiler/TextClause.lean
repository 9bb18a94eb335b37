import SqlalchemyCubrid.Lib.SqlLexer
import SqlalchemyCubrid.Python.Str

/-!
# Text clauses

`text()` looks for `:name` everywhere in a text, quotes or not, and makes a bind
parameter of it; a colon is kept by writing `\:`, and the backslash is taken out
before the text is sent.  A name is made of word characters here, as `text()` has it.
The search that takes the backslash out counts a dollar sign among them, and texts in
which one stands at such a place are left out.

Both are marks that are found by looking at one character, the character before it
and the text behind it.  Over a character that no mark reads (`Neutral`) a text
can be cut and its parts searched one by one (`occurs_append`), and doubling a
quote makes no marks (`occurs_double`).
-/

namespace SqlalchemyCubrid.Compiler

open Lib.Sql Python

section Marks

variable [UnicodeData]

def backslash : Char := Char.ofNat 92

/-- A name, and no colon behind it. -/
def nameEnds (s : Str) : Bool := (s.dropWhile UnicodeData.isWord).head? != some ':'

/-- May a bind parameter start behind this character? -/
def opensBind (before : Option Char) : Bool :=
  !before.any fun c => c == ':' || UnicodeData.isWord c || c == backslash

/-- What is at a character, by the one before it and the text behind it. -/
abbrev Mark := Option Char → Char → Str → Bool

/-- `:name` -/
def bindAt : Mark := fun before c s =>
  c == ':' && opensBind before && s.head?.any UnicodeData.isWord && nameEnds s

/-- `\:`, with a name or none -/
def escapeAt : Mark := fun _ c s => c == backslash && s.head? == some ':' && nameEnds s.tail

def occurs (mark : Mark) : Option Char → Str → Bool
  | _, [] => false
  | before, c :: s => mark before c s || occurs mark (some c) s

/-- What is sent of a text with no bind parameters.  The name behind the colon has
no backslash, so that the search may go on inside of it. -/
def unescape : Str → Str
  | [] => []
  | c :: s => if escapeAt none c s then unescape s else c :: unescape s

/-- A text that has no bind parameters and is sent as it is. -/
structure Unmarked (s : Str) : Prop where
  no_bind : occurs bindAt none s = false
  no_escape : occurs escapeAt none s = false

/-! ### What is sent -/

theorem occurs_escapeAt_cons (before : Option Char) (c : Char) (s : Str) :
    occurs escapeAt before (c :: s) = (escapeAt none c s || occurs escapeAt none s) := by
  have hsome : ∀ (b : Option Char) (t : Str), occurs escapeAt b t = occurs escapeAt none t := by
    intro b t
    cases t with
    | nil => rfl
    | cons d t => rfl
  rw [occurs, hsome]
  rfl

/-- **A text is sent shorter, or as it is.** -/
theorem length_unescape (s : Str) :
    (unescape s).length ≤ s.length ∧
      ((unescape s).length = s.length → occurs escapeAt none s = false) := by
  induction s with
  | nil => exact ⟨Nat.le_refl _, fun _ => rfl⟩
  | cons c s ih =>
    obtain ⟨hle, heq⟩ := ih
    rw [unescape, occurs_escapeAt_cons, List.length_cons]
    cases escapeAt none c s with
    | true =>
      rw [if_pos rfl]
      refine ⟨by omega, ?_⟩
      intro h
      omega
    | false =>
      rw [if_neg Bool.false_ne_true, List.length_cons]
      refine ⟨by omega, ?_⟩
      intro h
      exact heq (by omega)

theorem unescape_eq_self {s : Str} (h : occurs escapeAt none s = false) : unescape s = s := by
  induction s with
  | nil => rfl
  | cons c s ih =>
    rw [occurs_escapeAt_cons, Bool.or_eq_false_iff] at h
    rw [unescape, h.1, if_neg Bool.false_ne_true, ih h.2]

/-! ### Cutting a text -/

/-- A character that no mark reads. -/
structure Neutral (c : Char) : Prop where
  not_word : UnicodeData.isWord c = false
  not_colon : c ≠ ':'
  not_backslash : c ≠ backslash

/-- A mark that stops reading at neutral characters. -/
structure Local (mark : Mark) : Prop where
  behind : ∀ {d : Char}, Neutral d → ∀ before c s t, mark before c (s ++ d :: t) = mark before c s
  before : ∀ {d : Char}, Neutral d → ∀ c s, mark (some d) c s = mark none c s
  here : ∀ {c : Char}, c ≠ ':' → c ≠ backslash → ∀ before s, mark before c s = false

theorem nameEnds_append {d : Char} (hd : Neutral d) (s t : Str) :
    nameEnds (s ++ d :: t) = nameEnds s := by
  induction s with
  | nil =>
    have hdrop : (d :: t).dropWhile UnicodeData.isWord = d :: t :=
      List.dropWhile_cons_of_neg (by rw [hd.not_word]; exact Bool.false_ne_true)
    have hcolon : (some d != some ':') = true := by
      rw [bne_iff_ne, Ne, Option.some.injEq]
      exact hd.not_colon
    show (((d :: t).dropWhile UnicodeData.isWord).head? != some ':') = true
    rw [hdrop]
    exact hcolon
  | cons c s ih =>
    cases hc : UnicodeData.isWord c with
    | true =>
      rw [nameEnds, nameEnds, List.cons_append, List.dropWhile_cons_of_pos hc,
        List.dropWhile_cons_of_pos hc]
      exact ih
    | false =>
      have hneg : ¬ UnicodeData.isWord c = true := by
        rw [hc]
        exact Bool.false_ne_true
      rw [nameEnds, nameEnds, List.cons_append, List.dropWhile_cons_of_neg hneg,
        List.dropWhile_cons_of_neg hneg]
      rfl

theorem local_bindAt : Local bindAt where
  behind := by
    intro d hd before c s t
    have hhead : (s ++ d :: t).head?.any UnicodeData.isWord = s.head?.any UnicodeData.isWord := by
      cases s with
      | nil => exact hd.not_word
      | cons e s => rfl
    rw [bindAt, bindAt, hhead, nameEnds_append hd]
  before := by
    intro d hd c s
    have hopens : opensBind (some d) = opensBind none := by
      have hcolon := beq_false_of_ne hd.not_colon
      have hbackslash := beq_false_of_ne hd.not_backslash
      show (!(d == ':' || UnicodeData.isWord d || d == backslash)) = true
      rw [hcolon, hd.not_word, hbackslash]
      rfl
    rw [bindAt, bindAt, hopens]
  here := by
    intro c hcolon _ before s
    rw [bindAt, beq_false_of_ne hcolon]
    rfl

theorem local_escapeAt : Local escapeAt where
  behind := by
    intro d hd before c s t
    cases s with
    | nil =>
      have hcolon : (some d == some ':') = false := by
        rw [beq_eq_false_iff_ne, Ne, Option.some.injEq]
        exact hd.not_colon
      show (c == backslash && (some d == some ':') && nameEnds t)
        = (c == backslash && (none == some ':') && nameEnds [])
      rw [hcolon, Bool.and_false, Bool.false_and]
      cases c == backslash <;> rfl
    | cons e s =>
      show (c == backslash && (some e == some ':') && nameEnds (s ++ d :: t)) = _
      rw [nameEnds_append hd]
      rfl
  before := by
    intro d hd c s
    rfl
  here := by
    intro c _ hbackslash before s
    rw [escapeAt, beq_false_of_ne hbackslash]
    rfl

section Cut

variable {mark : Mark} (hmark : Local mark)
include hmark

theorem occurs_behind {d : Char} (hd : Neutral d) (s : Str) :
    occurs mark (some d) s = occurs mark none s := by
  cases s with
  | nil => rfl
  | cons c s => rw [occurs, occurs, hmark.before hd]

/-- **At a neutral character the search starts over.** -/
theorem occurs_append {d : Char} (hd : Neutral d) (before : Option Char) (s t : Str) :
    occurs mark before (s ++ d :: t) = (occurs mark before s || occurs mark none t) := by
  induction s generalizing before with
  | nil =>
    show (mark before d t || occurs mark (some d) t) = _
    rw [hmark.here hd.not_colon hd.not_backslash, occurs_behind hmark hd]
    rfl
  | cons c s ih =>
    rw [List.cons_append, occurs, occurs, hmark.behind hd, ih, Bool.or_assoc]

theorem occurs_cons {d : Char} (hd : Neutral d) (before : Option Char) (t : Str) :
    occurs mark before (d :: t) = occurs mark none t :=
  occurs_append hmark hd before [] t

/-- A text with no colon and no backslash has no marks. -/
theorem occurs_of_not_mem {s : Str} (h : ∀ c ∈ s, c ≠ ':' ∧ c ≠ backslash)
    (before : Option Char) : occurs mark before s = false := by
  induction s generalizing before with
  | nil => rfl
  | cons c s ih =>
    obtain ⟨hcolon, hbackslash⟩ := h c List.mem_cons_self
    rw [occurs, hmark.here hcolon hbackslash, ih fun d hd => h d (List.mem_cons_of_mem _ hd)]
    rfl

/-- What is read behind a character ends at a quote, or has none to double. -/
theorem mark_double {q : Char} (hq : Neutral q) (before : Option Char) (c : Char) (s : Str) :
    mark before c (double q s) = mark before c s := by
  by_cases hmem : q ∈ s
  · obtain ⟨u, v, rfl, hu⟩ := List.eq_append_cons_of_mem hmem
    have hdouble : double q (u ++ q :: v) = u ++ q :: (q :: double q v) := by
      rw [double_append, double_of_not_mem hu, ← List.singleton_append, double_append,
        double_singleton, if_pos rfl]
      rfl
    rw [hdouble, hmark.behind hq, hmark.behind hq]
  · rw [double_of_not_mem hmem]

/-- **Doubling the quotes of a text makes no marks and hides none.** -/
theorem occurs_double {q : Char} (hq : Neutral q) (before : Option Char) (s : Str) :
    occurs mark before (double q s) = occurs mark before s := by
  induction s generalizing before with
  | nil => rfl
  | cons c s ih =>
    have hcons : double q (c :: s) = double q [c] ++ double q s := by
      rw [← double_append]
      rfl
    rw [hcons, double_singleton]
    by_cases hc : c = q
    · subst hc
      rw [if_pos rfl]
      show occurs mark before (c :: c :: double c s) = occurs mark before (c :: s)
      rw [occurs_cons hmark hq, occurs_cons hmark hq, occurs_cons hmark hq,
        ← occurs_behind hmark hq, ih, occurs_behind hmark hq]
    · rw [if_neg hc]
      show (mark before c (double q s) || occurs mark (some c) (double q s))
        = (mark before c s || occurs mark (some c) s)
      rw [mark_double hmark hq, ih]

/-- A list is searched item by item. -/
theorem occurs_join (hcomma : Neutral ',') (hspace : Neutral ' ') (parts : List Str) :
    occurs mark none (join ", ".toList parts) = false ↔
      ∀ p ∈ parts, occurs mark none p = false := by
  induction parts with
  | nil => exact iff_of_true rfl (List.forall_mem_nil _)
  | cons p parts ih =>
    cases parts with
    | nil => rw [join_singleton, List.forall_mem_singleton]
    | cons p' parts =>
      have hjoin : join ", ".toList (p :: p' :: parts)
          = p ++ ',' :: ' ' :: join ", ".toList (p' :: parts) := by
        rw [join_cons_cons, List.append_assoc]
        rfl
      rw [List.forall_mem_cons, hjoin, occurs_append hmark hcomma, occurs_cons hmark hspace,
        Bool.or_eq_false_iff, ih]

end Cut

theorem neutral_ascii {c : Char} (hascii : c.toNat < 128)
    (hword : (c.isAlphanum || c == '_') = false) (hcolon : c ≠ ':')
    (hbackslash : c ≠ backslash) : Neutral c :=
  ⟨by rw [UnicodeData.isWord_ascii c hascii, hword], hcolon, hbackslash⟩

end Marks

end SqlalchemyCubrid.Compiler
