import Mathlib.Algebra.Ring.Nat
import Mathlib.Data.List.DropRight

/-!
# Python strings

A `str` is the list of its characters.  `strip`, `split()` and the white-space
class are given outright.  What depends on the Unicode database (`str.upper`,
`str.lower`, `\w`, decimal digits) is the class `UnicodeData`: its laws say what
Python documents for ASCII and for white space, and everything else is left to
the interpreter that runs the code.

* `stripIf_surround`: stripping removes exactly the surrounding characters.
* `words_append_cons`, `words_eq_singleton`: how `split()` finds words.
* `int_formatInt`: `int` reads back what `%d` prints.
-/

namespace SqlalchemyCubrid.Python

/-- A Python `str`. -/
abbrev Str := List Char

/-- Over the characters of a string, ahead of deciding over all characters. -/
instance (priority := 2000) decidableForallMem {p : Char → Prop} [DecidablePred p] (s : Str) :
    Decidable (∀ c ∈ s, p c) :=
  List.decidableBAll p s

instance lawfulBEqStr : LawfulBEq Str := inferInstance

/-- An optional string in a condition: `None` and `""` do not count. -/
def truthy (s : Option Str) : Option Str := s.filter (· ≠ [])

theorem truthy_none : truthy none = none := rfl

theorem truthy_empty : truthy (some []) = none := rfl

theorem truthy_some {s : Str} (h : s ≠ []) : truthy (some s) = some s := by
  rw [truthy, Option.filter_some, if_pos (by simpa using h)]

/-! ### White space -/

/-- `str.isspace` on one character, which is also `\s` in a `str` pattern. -/
def isSpace (c : Char) : Bool :=
  (9 ≤ c.toNat && c.toNat ≤ 13) || (28 ≤ c.toNat && c.toNat ≤ 32) || c.toNat == 0x85
    || c.toNat == 0xA0 || c.toNat == 0x1680 || (0x2000 ≤ c.toNat && c.toNat ≤ 0x200A)
    || c.toNat == 0x2028 || c.toNat == 0x2029 || c.toNat == 0x202F || c.toNat == 0x205F
    || c.toNat == 0x3000

/-- What `int` skips at the ends of a text: no information separators. -/
def isIntSpace (c : Char) : Bool := isSpace c && !(28 ≤ c.toNat && c.toNat ≤ 31)

/-- `s.strip(chars)`, with the characters to strip as a predicate. -/
def stripIf (p : Char → Bool) (s : Str) : Str := (s.dropWhile p).rdropWhile p

/-- `s.strip()` -/
def strip (s : Str) : Str := stripIf isSpace s

/-- `s.strip(chars)` -/
def stripChars (chars s : Str) : Str := stripIf (fun c => decide (c ∈ chars)) s

theorem rdropWhile_append_of_all {p : Char → Bool} {b : Str} (hb : ∀ c ∈ b, p c) (s : Str) :
    (s ++ b).rdropWhile p = s.rdropWhile p := by
  rw [List.rdropWhile, List.reverse_append,
    List.dropWhile_append_of_pos (fun c hc => hb c (List.mem_reverse.mp hc)), ← List.rdropWhile]

/-- **Stripping takes off the surrounding characters and stops at the first and
the last that stay.** -/
theorem stripIf_surround {p : Char → Bool} {a b m : Str} (ha : ∀ c ∈ a, p c)
    (hb : ∀ c ∈ b, p c) (hm : m ≠ []) (hfirst : p (m.head hm) = false)
    (hlast : p (m.getLast hm) = false) : stripIf p (a ++ m ++ b) = m := by
  have hdrop : m.dropWhile p = m := by
    cases m with
    | nil => rfl
    | cons c m =>
      rw [List.head_cons] at hfirst
      rw [List.dropWhile_cons, if_neg (by simp [hfirst])]
  have hkeep : m.rdropWhile p = m :=
    List.rdropWhile_eq_self_iff.mpr fun _ => by rw [hlast]; exact Bool.false_ne_true
  have hleft : (m ++ b).dropWhile p = m ++ b := by
    cases m with
    | nil => exact absurd rfl hm
    | cons c m =>
      rw [List.head_cons] at hfirst
      rw [List.cons_append, List.dropWhile_cons, if_neg (by simp [hfirst])]
  rw [stripIf, List.append_assoc, List.dropWhile_append_of_pos ha, hleft,
    rdropWhile_append_of_all hb, hkeep]

/-- What is stripped off. -/
theorem exists_surround_stripIf (p : Char → Bool) (s : Str) :
    ∃ a b, (∀ c ∈ a, p c) ∧ (∀ c ∈ b, p c) ∧ s = a ++ stripIf p s ++ b := by
  refine ⟨s.takeWhile p, (s.dropWhile p).rtakeWhile p, ?_, ?_, ?_⟩
  · exact fun c hc => List.mem_takeWhile_imp hc
  · exact fun c hc => List.mem_rtakeWhile_imp hc
  · rw [stripIf, List.append_assoc, List.rdropWhile_append_rtakeWhile,
      List.takeWhile_append_dropWhile]

/-- Stripping keeps every other character. -/
theorem mem_stripIf {p : Char → Bool} {s : Str} {c : Char} (hc : c ∈ s) (hp : p c = false) :
    c ∈ stripIf p s := by
  have hdrop {t : Str} (ht : c ∈ t) : c ∈ t.dropWhile p := by
    rw [← List.takeWhile_append_dropWhile (p := p) (l := t), List.mem_append] at ht
    cases ht with
    | inl ht => exact absurd (List.mem_takeWhile_imp ht) (by rw [hp]; exact Bool.false_ne_true)
    | inr ht => exact ht
  rw [stripIf, List.rdropWhile, List.mem_reverse]
  exact hdrop (List.mem_reverse.mpr (hdrop hc))

/-! ### Words -/

/-- `s.split()`: the maximal runs of characters that are not white space. -/
def words (s : Str) : List Str := (s.splitOnP isSpace).filter (· ≠ [])

theorem words_eq_singleton {w : Str} (hw : w ≠ []) (h : ∀ c ∈ w, isSpace c = false) :
    words w = [w] := by
  rw [words, List.splitOnP_eq_singleton h]
  simp [hw]

/-- A word, white space, and the words after it. -/
theorem words_append_cons {w : Str} (hw : w ≠ []) (h : ∀ c ∈ w, isSpace c = false) {x : Char}
    (hx : isSpace x) (s : Str) : words (w ++ x :: s) = w :: words s := by
  rw [words, List.splitOnP_append_cons_of_forall_mem h x hx, List.filter_cons,
    if_pos (by simpa using hw), words]

theorem words_space_cons {x : Char} (hx : isSpace x) (s : Str) : words (x :: s) = words s := by
  have h := List.splitOnP_append_cons_of_forall_mem
    (List.forall_mem_nil fun c => isSpace c = false) x hx s
  rw [words, words, ← List.nil_append (x :: s), h, List.filter_cons, if_neg (by simp)]

theorem words_spaces_append {a : Str} (ha : ∀ c ∈ a, isSpace c) (s : Str) :
    words (a ++ s) = words s := by
  induction a with
  | nil => rfl
  | cons x a ih =>
    rw [List.cons_append, words_space_cons (ha x (by simp))]
    exact ih fun c hc => ha c (by simp [hc])

/-- Two texts cut at their first `c`. -/
theorem append_cons_inj {c : Char} {u v x y : Str} (hu : c ∉ u) (hv : c ∉ v)
    (h : u ++ c :: x = v ++ c :: y) : u = v ∧ x = y := by
  induction u generalizing v with
  | nil =>
    cases v with
    | nil => exact ⟨rfl, (List.cons.inj h).2⟩
    | cons d v =>
      have hd : c = d := (List.cons.inj h).1
      exact absurd (hd ▸ List.mem_cons_self) hv
  | cons d u ih =>
    cases v with
    | nil =>
      have hd : d = c := (List.cons.inj h).1
      exact absurd (hd ▸ List.mem_cons_self) hu
    | cons d' v =>
      obtain ⟨rfl, htail⟩ := List.cons.inj h
      obtain ⟨rfl, rfl⟩ := ih (fun hc => hu (List.mem_cons_of_mem _ hc))
        (fun hc => hv (List.mem_cons_of_mem _ hc)) htail
      exact ⟨rfl, rfl⟩

/-- `s.split(sep)` -/
def split (sep : Char) (s : Str) : List Str := s.splitOn sep

theorem split_eq_singleton {sep : Char} {s : Str} (h : ∀ c ∈ s, c ≠ sep) : split sep s = [s] := by
  rw [split, List.splitOn]
  exact List.splitOnP_eq_singleton fun c hc => by simpa using h c hc

theorem split_append_cons {sep : Char} {w : Str} (h : ∀ c ∈ w, c ≠ sep) (s : Str) :
    split sep (w ++ sep :: s) = w :: split sep s := by
  have hw : ∀ c ∈ w, (c == sep) = false := fun c hc => by simpa using h c hc
  rw [split, List.splitOn, List.splitOnP_append_cons_of_forall_mem hw sep (by simp), split,
    List.splitOn]

/-- `sep.join(parts)` -/
def join (sep : Str) (parts : List Str) : Str := sep.intercalate parts

theorem join_singleton (sep s : Str) : join sep [s] = s := List.intercalate_singleton

theorem join_cons_cons (sep s t : Str) (parts : List Str) :
    join sep (s :: t :: parts) = s ++ sep ++ join sep (t :: parts) := List.intercalate_cons_cons

theorem join_cons (sep s : Str) (parts : List Str) :
    join sep (s :: parts) = s ++ parts.flatMap fun t => sep ++ t := by
  induction parts generalizing s with
  | nil => rw [join_singleton, List.flatMap_nil, List.append_nil]
  | cons t parts ih => rw [join_cons_cons, ih, List.flatMap_cons, List.append_assoc,
      List.append_assoc]

theorem length_join (sep : Str) (parts : List Str) :
    (join sep parts).length = (parts.map List.length).sum + sep.length * (parts.length - 1) := by
  induction parts with
  | nil => rfl
  | cons s parts ih =>
    cases parts with
    | nil => simp [join_singleton]
    | cons t parts =>
      have hmul : sep.length * (parts.length + 1) = sep.length * parts.length + sep.length :=
        Nat.mul_succ _ _
      simp only [join_cons_cons, List.length_append, ih, List.map_cons, List.sum_cons,
        List.length_cons, Nat.add_sub_cancel, hmul]
      omega

theorem mem_join {sep : Str} {parts : List Str} {c : Char} (h : c ∈ join sep parts) :
    c ∈ sep ∨ ∃ s ∈ parts, c ∈ s := by
  induction parts with
  | nil => exact absurd h List.not_mem_nil
  | cons s parts ih =>
    cases parts with
    | nil =>
      rw [join_singleton] at h
      exact Or.inr ⟨s, List.mem_cons_self, h⟩
    | cons t parts =>
      rw [join_cons_cons, List.mem_append, List.mem_append] at h
      rcases h with (h | h) | h
      · exact Or.inr ⟨s, List.mem_cons_self, h⟩
      · exact Or.inl h
      · cases ih h with
        | inl h => exact Or.inl h
        | inr h =>
          obtain ⟨u, hu, hc⟩ := h
          exact Or.inr ⟨u, List.mem_cons_of_mem s hu, hc⟩

/-- Parts without the separator are found again. -/
theorem split_join {sep : Char} {parts : List Str} (hne : parts ≠ [])
    (h : ∀ p ∈ parts, sep ∉ p) : split sep (join [sep] parts) = parts := by
  induction parts with
  | nil => exact absurd rfl hne
  | cons p parts ih =>
    have hp : ∀ c ∈ p, c ≠ sep := fun c hc => ne_of_mem_of_not_mem hc (h p List.mem_cons_self)
    cases parts with
    | nil =>
      rw [join_singleton]
      exact split_eq_singleton hp
    | cons q parts =>
      have hrest := ih (List.cons_ne_nil q parts) fun r hr => h r (List.mem_cons_of_mem p hr)
      rw [join_cons_cons, List.append_assoc, List.singleton_append, split_append_cons hp, hrest]

/-- Every character but the separators is in one of the parts. -/
theorem mem_split {sep c : Char} {s : Str} (hc : c ∈ s) (hne : c ≠ sep) :
    ∃ w ∈ split sep s, c ∈ w := by
  have hjoin : join [sep] (split sep s) = s := List.intercalate_splitOn sep
  rw [← hjoin] at hc
  cases mem_join hc with
  | inl hc => exact absurd (List.mem_singleton.mp hc) hne
  | inr hc => exact hc

theorem split_ne_nil (sep : Char) (s : Str) : split sep s ≠ [] := List.splitOnP_ne_nil _ _

theorem split_eq_singleton_iff {sep : Char} {s : Str} : split sep s = [s] ↔ sep ∉ s := by
  constructor
  · intro h hs
    obtain ⟨w, t, rfl, hw⟩ := List.eq_append_cons_of_mem hs
    rw [split_append_cons fun c hc => ne_of_mem_of_not_mem hc hw] at h
    exact split_ne_nil sep t (List.cons.inj h).2
  · intro h
    exact split_eq_singleton fun c hc => ne_of_mem_of_not_mem hc h

theorem length_le_length_flatMap_split (sep : Char) (ls : List Str) :
    ls.length ≤ (ls.flatMap (split sep)).length := by
  induction ls with
  | nil => exact Nat.le_refl _
  | cons l ls ih =>
    have hpos := List.length_pos_iff.mpr (split_ne_nil sep l)
    rw [List.flatMap_cons, List.length_append, List.length_cons]
    omega

/-- All the parts together are the texts themselves exactly when no text is cut. -/
theorem flatMap_split_eq_self_iff {sep : Char} {ls : List Str} :
    ls.flatMap (split sep) = ls ↔ ∀ l ∈ ls, sep ∉ l := by
  induction ls with
  | nil => exact iff_of_true rfl (List.forall_mem_nil _)
  | cons l ls ih =>
    rw [List.forall_mem_cons, List.flatMap_cons, ← split_eq_singleton_iff]
    constructor
    · intro h
      have hone : (split sep l).length = 1 := by
        have htotal := congrArg List.length h
        have hpos := List.length_pos_iff.mpr (split_ne_nil sep l)
        have hrest := length_le_length_flatMap_split sep ls
        rw [List.length_append, List.length_cons] at htotal
        omega
      obtain ⟨w, hw⟩ := List.length_eq_one_iff.mp hone
      rw [hw] at h
      obtain ⟨rfl, hrest⟩ := List.cons.inj h
      exact ⟨hw, ih.mp hrest⟩
    · rintro ⟨hl, hls⟩
      rw [hl, ih.mpr hls]
      rfl

/-! ### What the Unicode database decides -/

/-- The tables of the interpreter's Unicode database that the code reads. -/
class UnicodeData where
  /-- `str.upper` on one character; it may give several, as for U+00DF -/
  upperChar : Char → Str
  /-- `str.lower` -/
  lower : Str → Str
  /-- `\w` -/
  isWord : Char → Bool
  /-- the value of a decimal digit, in any script -/
  decimal : Char → Option Nat
  upperChar_ascii : ∀ c : Char, c.toNat < 128 → upperChar c = [c.toUpper]
  /-- white space has no other case -/
  upperChar_space : ∀ c : Char, isSpace c → upperChar c = [c]
  lower_ascii : ∀ s : Str, (∀ c ∈ s, c.toNat < 128) → lower s = s.map Char.toLower
  isWord_ascii : ∀ c : Char, c.toNat < 128 → isWord c = (c.isAlphanum || c == '_')
  decimal_ascii : ∀ c : Char, c.toNat < 128 →
    decimal c = if c.isDigit then some (c.toNat - 48) else none

theorem toUpper_of_isSpace {c : Char} (h : isSpace c) : c.toUpper = c := by
  have hnot : ¬ (c.val ≥ 'a'.val ∧ c.val ≤ 'z'.val) := by
    intro hc
    have hlow : 97 ≤ c.toNat := hc.1
    have hhigh : c.toNat ≤ 122 := hc.2
    simp only [isSpace, Bool.or_eq_true, Bool.and_eq_true, decide_eq_true_eq, beq_iff_eq] at h
    omega
  exact dif_neg hnot

/-- The database restricted to ASCII, for evaluating examples. -/
@[reducible] def asciiData : UnicodeData where
  upperChar c := [c.toUpper]
  lower s := s.map Char.toLower
  isWord c := c.isAlphanum || c == '_'
  decimal c := if c.isDigit then some (c.toNat - 48) else none
  upperChar_ascii _ _ := rfl
  upperChar_space c hc := by rw [toUpper_of_isSpace hc]
  lower_ascii _ _ := rfl
  isWord_ascii _ _ := rfl
  decimal_ascii _ _ := rfl

section Unicode

variable [UnicodeData]

/-- `s.upper()` -/
def upper (s : Str) : Str := s.flatMap UnicodeData.upperChar

/-- `s.lower()` -/
def lower (s : Str) : Str := UnicodeData.lower s

theorem upper_cons (c : Char) (s : Str) : upper (c :: s) = UnicodeData.upperChar c ++ upper s :=
  List.flatMap_cons

theorem upper_append (s t : Str) : upper (s ++ t) = upper s ++ upper t := List.flatMap_append

theorem upper_spaces {b : Str} (hb : ∀ c ∈ b, isSpace c) : upper b = b := by
  induction b with
  | nil => rfl
  | cons c b ih =>
    rw [upper_cons, ih fun d hd => hb d (by simp [hd]),
      UnicodeData.upperChar_space c (hb c (by simp))]
    rfl

theorem upper_ascii {s : Str} (h : ∀ c ∈ s, c.toNat < 128) : upper s = s.map Char.toUpper := by
  induction s with
  | nil => rfl
  | cons c s ih =>
    rw [upper_cons, ih fun d hd => h d (by simp [hd]),
      UnicodeData.upperChar_ascii c (h c (by simp))]
    rfl

/-! ### Integers -/

/-- The digits of `int(s)`: decimal digits with single underscores between
them.  `prev` says whether the character before was a digit. -/
def intDigits (acc : Nat) (prev : Bool) : Str → Option Nat
  | [] => if prev then some acc else none
  | c :: s =>
    if c = '_' then
      if prev then intDigits acc false s else none
    else
      match UnicodeData.decimal c with
      | some d => intDigits (10 * acc + d) true s
      | none => none

/-- `int(s)`; `none` is the `ValueError`. -/
def int (s : Str) : Option Int :=
  match stripIf isIntSpace s with
  | '-' :: r => (intDigits 0 false r).map fun n => -(n : Int)
  | '+' :: r => (intDigits 0 false r).map fun n => (n : Int)
  | r => (intDigits 0 false r).map fun n => (n : Int)

end Unicode

/-- `"%d" % n` -/
def formatInt : Int → Str
  | .ofNat n => Nat.toDigits 10 n
  | .negSucc n => '-' :: Nat.toDigits 10 (n + 1)

theorem isDigit_of_mem_toDigits {c : Char} {n : Nat} (h : c ∈ Nat.toDigits 10 n) : c.isDigit :=
  Nat.isDigit_of_mem_toDigits (by decide) (by decide) h

theorem toNat_bounds_of_isDigit {c : Char} (h : c.isDigit) : 48 ≤ c.toNat ∧ c.toNat ≤ 57 := by
  rw [Char.isDigit, Bool.and_eq_true, decide_eq_true_eq, decide_eq_true_eq] at h
  exact ⟨by simpa [UInt32.le_iff_toNat_le] using h.1, by simpa [UInt32.le_iff_toNat_le] using h.2⟩

theorem not_isSpace_of_isDigit {c : Char} (h : c.isDigit) : isSpace c = false := by
  have := toNat_bounds_of_isDigit h
  simp only [isSpace, Bool.or_eq_false_iff, Bool.and_eq_false_iff, decide_eq_false_iff_not,
    beq_eq_false_iff_ne, ne_eq]
  omega

theorem formatInt_ne_nil (n : Int) : formatInt n ≠ [] := by
  cases n with
  | ofNat n => exact Nat.toDigits_ne_nil
  | negSucc n => exact List.cons_ne_nil _ _

theorem mem_formatInt {c : Char} {n : Int} (h : c ∈ formatInt n) : c.isDigit ∨ c = '-' := by
  cases n with
  | ofNat n => exact Or.inl (isDigit_of_mem_toDigits h)
  | negSucc n =>
    rcases List.mem_cons.mp h with rfl | h
    · exact Or.inr rfl
    · exact Or.inl (isDigit_of_mem_toDigits h)

theorem not_isSpace_of_mem_formatInt {c : Char} {n : Int} (h : c ∈ formatInt n) :
    isSpace c = false := by
  rcases mem_formatInt h with h | rfl
  · exact not_isSpace_of_isDigit h
  · decide

/-- Text with no white space at its ends is its own `strip`, with white space put
around it. -/
theorem strip_surround {a b m : Str} (ha : ∀ c ∈ a, isSpace c) (hb : ∀ c ∈ b, isSpace c)
    (hm : m ≠ []) (h : ∀ c ∈ m, isSpace c = false) : strip (a ++ m ++ b) = m :=
  stripIf_surround ha hb hm (h _ (List.head_mem hm)) (h _ (List.getLast_mem hm))

section Unicode

variable [UnicodeData]

theorem intDigits_of_isDigit {s : Str} (hs : ∀ c ∈ s, c.isDigit) (acc : Nat) (prev : Bool)
    (h : s ≠ [] ∨ prev = true) :
    intDigits acc prev s = some (Nat.ofDigitChars 10 s acc) := by
  induction s generalizing acc prev with
  | nil =>
    rcases h with h | rfl
    · exact absurd rfl h
    · rw [intDigits, Nat.ofDigitChars_nil, if_pos rfl]
  | cons c s ih =>
    have hc : c.isDigit := hs c (by simp)
    have hb := toNat_bounds_of_isDigit hc
    have hne : c ≠ '_' := by rintro rfl; exact absurd hc (by decide)
    rw [intDigits, if_neg hne, UnicodeData.decimal_ascii c (by omega), if_pos hc]
    simp only
    rw [ih (fun d hd => hs d (by simp [hd])) _ true (Or.inr rfl), Nat.ofDigitChars_cons]
    rfl

theorem intDigits_toDigits (n : Nat) : intDigits 0 false (Nat.toDigits 10 n) = some n := by
  rw [intDigits_of_isDigit (fun c hc => isDigit_of_mem_toDigits hc) 0 false
    (Or.inl Nat.toDigits_ne_nil), Nat.ofDigitChars_ten_toDigits]

/-- **`int` reads back what `%d` prints**, with white space around it. -/
theorem int_formatInt {a b : Str} (ha : ∀ c ∈ a, isIntSpace c) (hb : ∀ c ∈ b, isIntSpace c)
    (n : Int) : int (a ++ formatInt n ++ b) = some n := by
  have hspace {c : Char} (hc : c ∈ formatInt n) : isIntSpace c = false := by
    rw [isIntSpace, not_isSpace_of_mem_formatInt hc, Bool.false_and]
  rw [int, stripIf_surround ha hb (formatInt_ne_nil n) (hspace (List.head_mem _))
    (hspace (List.getLast_mem _))]
  cases n with
  | negSucc n =>
    simp only [formatInt, intDigits_toDigits]
    rfl
  | ofNat n =>
    have hd : ∀ c ∈ formatInt (.ofNat n), c.isDigit := fun c hc => isDigit_of_mem_toDigits hc
    split
    · next r hr => exact absurd (hd '-' (by rw [hr]; simp)) (by decide)
    · next r hr => exact absurd (hd '+' (by rw [hr]; simp)) (by decide)
    · simp only [formatInt, intDigits_toDigits]
      rfl

theorem int_formatInt_self (n : Int) : int (formatInt n) = some n := by
  have h := int_formatInt (List.forall_mem_nil _) (List.forall_mem_nil _) n
  rw [List.append_nil] at h
  exact h

end Unicode

end SqlalchemyCubrid.Python
