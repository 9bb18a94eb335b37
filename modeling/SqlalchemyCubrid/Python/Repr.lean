import SqlalchemyCubrid.Python.Str
import Mathlib.Tactic.Ring

/-!
# Python string literals

`repr` prints a string as a Python literal and `readLiteral` is the reader of the
language for literals of one line.  What counts as printable beyond ASCII depends
on the Unicode database and is a parameter: `readLiteral_reprStr` holds for all.
-/

namespace SqlalchemyCubrid.Python

def apostrophe : Char := Char.ofNat 39

def doubleQuote : Char := '"'

def escapeSign : Char := Char.ofNat 92

/-! ### Hexadecimal digits -/

/-- `%0wx` of the last `w` digits of `n` -/
def hexDigits : Nat → Nat → Str
  | 0, _ => []
  | w + 1, n => Nat.digitChar (n / 16 ^ w % 16) :: hexDigits w n

def hexValue (c : Char) : Option Nat :=
  if '0' ≤ c ∧ c ≤ '9' then some (c.toNat - 48)
  else if 'a' ≤ c ∧ c ≤ 'f' then some (c.toNat - 87)
  else if 'A' ≤ c ∧ c ≤ 'F' then some (c.toNat - 55)
  else none

/-- Read `w` digits behind those that make `acc`. -/
def readHex : Nat → Nat → Str → Option (Nat × Str)
  | 0, acc, s => some (acc, s)
  | _ + 1, _, [] => none
  | w + 1, acc, c :: s => (hexValue c).bind fun d => readHex w (16 * acc + d) s

theorem hexValue_digitChar {d : Nat} (h : d < 16) : hexValue (Nat.digitChar d) = some d := by
  have hdigits : ∀ d < 16, hexValue (Nat.digitChar d) = some d := by decide
  exact hdigits d h

theorem readHex_hexDigits (w acc n : Nat) (s : Str) :
    readHex w acc (hexDigits w n ++ s) = some (acc * 16 ^ w + n % 16 ^ w, s) := by
  induction w generalizing acc with
  | zero => simp [readHex, hexDigits, Nat.mod_one]
  | succ w ih =>
    have hdigit : n / 16 ^ w % 16 < 16 := Nat.mod_lt _ (by decide)
    rw [hexDigits, List.cons_append, readHex, hexValue_digitChar hdigit, Option.bind_some, ih]
    have hsplit : n % 16 ^ (w + 1) = n % 16 ^ w + 16 ^ w * (n / 16 ^ w % 16) := Nat.mod_pow_succ
    rw [hsplit, Nat.pow_succ]
    congr 2
    ring

/-! ### The printer -/

section Printer

variable (printable : Char → Bool)

/-- Which quotes `repr` puts around a string. -/
def reprQuote (s : Str) : Char :=
  if apostrophe ∈ s ∧ doubleQuote ∉ s then doubleQuote else apostrophe

def escapeChar (q c : Char) : Str :=
  if c = q ∨ c = escapeSign then [escapeSign, c]
  else if c = '\t' then [escapeSign, 't']
  else if c = '\n' then [escapeSign, 'n']
  else if c = '\r' then [escapeSign, 'r']
  else if c.toNat < 32 ∨ c.toNat = 127 then escapeSign :: 'x' :: hexDigits 2 c.toNat
  else if c.toNat < 127 ∨ printable c then [c]
  else if c.toNat < 256 then escapeSign :: 'x' :: hexDigits 2 c.toNat
  else if c.toNat < 65536 then escapeSign :: 'u' :: hexDigits 4 c.toNat
  else escapeSign :: 'U' :: hexDigits 8 c.toNat

/-- `repr(s)` -/
def reprStr (s : Str) : Str :=
  reprQuote s :: (s.flatMap (escapeChar printable (reprQuote s)) ++ [reprQuote s])

end Printer

/-! ### The reader -/

/-- The character of a number, if there is one. -/
def ofCode (r : Nat × Str) : Option (Char × Str) :=
  if r.1.isValidChar then some (Char.ofNat r.1, r.2) else none

/-- What one character behind a backslash stands for. -/
def shortEscapes : List (Char × Char) :=
  [(escapeSign, escapeSign), (apostrophe, apostrophe), (doubleQuote, doubleQuote),
    ('a', Char.ofNat 7), ('b', Char.ofNat 8), ('t', '\t'), ('n', '\n'), ('v', Char.ofNat 11),
    ('f', Char.ofNat 12), ('r', '\r')]

/-- How many hexadecimal digits follow. -/
def hexEscapes : List (Char × Nat) := [('x', 2), ('u', 4), ('U', 8)]

/-- What a backslash begins.  Octal numbers, names of characters and line ends
behind a backslash are not read, as `repr` prints none. -/
def readEscape : Str → Option (Char × Str)
  | [] => none
  | c :: s =>
    match shortEscapes.lookup c with
    | some d => some (d, s)
    | none => (hexEscapes.lookup c).bind fun w => (readHex w 0 s).bind ofCode

/-- The characters up to the closing quote; the first argument bounds their
number. -/
def readBody (q : Char) : Nat → Str → Option (Str × Str)
  | 0, _ => none
  | _ + 1, [] => none
  | n + 1, c :: s =>
    if c = q then some ([], s)
    else if c = '\n' then none
    else
      (if c = escapeSign then readEscape s else some (c, s)).bind fun (d, s) =>
        (readBody q n s).map fun (ds, s) => (d :: ds, s)

/-- A literal at the front of a text, and what is behind it.  Three quotes begin
a literal of several lines, which is not read. -/
def readLiteral : Str → Option (Str × Str)
  | [] => none
  | q :: s =>
    if (q = apostrophe ∨ q = doubleQuote) ∧ ¬ [q, q] <+: s then readBody q (s.length + 1) s
    else none

/-! ### The round trip -/

def IsQuote (q : Char) : Prop := q = apostrophe ∨ q = doubleQuote

theorem isQuote_reprQuote (s : Str) : IsQuote (reprQuote s) := by
  rw [reprQuote]
  split
  · exact Or.inr rfl
  · exact Or.inl rfl

theorem readHex_char (w : Nat) {c : Char} (hc : c.toNat < 16 ^ w) (s : Str) :
    (readHex w 0 (hexDigits w c.toNat ++ s)).bind ofCode = some (c, s) := by
  have hcode : ofCode (c.toNat, s) = some (c, s) := by
    have hvalid : c.toNat.isValidChar := c.valid
    rw [ofCode, if_pos hvalid, Char.ofNat_toNat]
  rw [readHex_hexDigits, Nat.zero_mul, Nat.zero_add, Nat.mod_eq_of_lt hc, Option.bind_some, hcode]

/-- What `readBody` does with one character that was printed. -/
theorem readBody_escapeChar (printable : Char → Bool) {q : Char} (hq : IsQuote q) (c : Char)
    (n : Nat) (s : Str) :
    readBody q (n + 1) (escapeChar printable q c ++ s)
      = (readBody q n s).map fun (ds, s) => (c :: ds, s) := by
  have hsign : escapeSign ≠ q := by rcases hq with rfl | rfl <;> decide
  have hescape : ∀ {t : Str}, readEscape (t ++ s) = some (c, s) →
      readBody q (n + 1) (escapeSign :: (t ++ s))
        = (readBody q n s).map fun (ds, s) => (c :: ds, s) := by
    intro t ht
    rw [readBody, if_neg hsign, if_neg (by decide), if_pos rfl, ht]
    rfl
  have hx : c.toNat < 256 → readEscape ('x' :: hexDigits 2 c.toNat ++ s) = some (c, s) :=
    fun h => readHex_char 2 h s
  rw [escapeChar]
  split
  · rename_i h
    refine hescape (t := [c]) ?_
    rcases h with rfl | rfl
    · rcases hq with rfl | rfl <;> rfl
    · rfl
  rename_i hplain
  split
  · rename_i h
    exact hescape (t := ['t']) (by rw [h]; rfl)
  split
  · rename_i h
    exact hescape (t := ['n']) (by rw [h]; rfl)
  rename_i hline
  split
  · rename_i h
    exact hescape (t := ['r']) (by rw [h]; rfl)
  split
  · exact hescape (t := 'x' :: hexDigits 2 c.toNat) (hx (by omega))
  split
  · obtain ⟨hne, hnosign⟩ := not_or.mp hplain
    rw [List.singleton_append, readBody, if_neg hne, if_neg hline, if_neg hnosign]
    rfl
  split
  · exact hescape (t := 'x' :: hexDigits 2 c.toNat) (hx ‹_›)
  split
  · exact hescape (t := 'u' :: hexDigits 4 c.toNat) (readHex_char 4 ‹_› s)
  · have hlast : c.toNat < 16 ^ 8 := by
      have hvalid : c.toNat.isValidChar := c.valid
      unfold Nat.isValidChar at hvalid
      omega
    exact hescape (t := 'U' :: hexDigits 8 c.toNat) (readHex_char 8 hlast s)

theorem readBody_escaped (printable : Char → Bool) {q : Char} (hq : IsQuote q) (s rest : Str)
    {n : Nat} (hn : s.length < n) :
    readBody q n (s.flatMap (escapeChar printable q) ++ q :: rest) = some (s, rest) := by
  induction s generalizing n with
  | nil =>
    obtain ⟨n, rfl⟩ := Nat.exists_eq_succ_of_ne_zero (by omega : n ≠ 0)
    rw [List.flatMap_nil, List.nil_append, readBody, if_pos rfl]
  | cons c s ih =>
    obtain ⟨n, rfl⟩ := Nat.exists_eq_succ_of_ne_zero (by omega : n ≠ 0)
    rw [List.flatMap_cons, List.append_assoc, readBody_escapeChar printable hq,
      ih (by simpa using hn)]
    rfl

theorem head_escapeChar (printable : Char → Bool) {q : Char} (hq : IsQuote q) (c : Char) :
    ∃ d t, escapeChar printable q c = d :: t ∧ d ≠ q := by
  have hsign : escapeSign ≠ q := by rcases hq with rfl | rfl <;> decide
  rw [escapeChar]
  repeat' split
  all_goals try exact ⟨escapeSign, _, rfl, hsign⟩
  rename_i h _ _ _ _ _
  exact ⟨c, [], rfl, (not_or.mp h).1⟩

theorem length_le_escaped (printable : Char → Bool) {q : Char} (hq : IsQuote q) (s : Str) :
    s.length ≤ (s.flatMap (escapeChar printable q)).length := by
  induction s with
  | nil => exact Nat.le_refl _
  | cons c s ih =>
    obtain ⟨d, t, ht, -⟩ := head_escapeChar printable hq c
    rw [List.flatMap_cons, ht, List.length_append, List.length_cons, List.length_cons]
    omega

/-- **What `repr` prints is read back**, in front of anything but a quote. -/
theorem readLiteral_reprStr (printable : Char → Bool) (s : Str) {rest : Str}
    (hrest : ∀ q ∈ rest.head?, ¬ IsQuote q) :
    readLiteral (reprStr printable s ++ rest) = some (s, rest) := by
  have hq := isQuote_reprQuote s
  have htext : reprStr printable s ++ rest = reprQuote s
      :: (s.flatMap (escapeChar printable (reprQuote s)) ++ reprQuote s :: rest) := by
    rw [reprStr, List.cons_append, List.append_assoc]
    rfl
  -- two quotes in front of a third would take an empty string and a quote behind it
  have htriple : ¬ [reprQuote s, reprQuote s]
      <+: s.flatMap (escapeChar printable (reprQuote s)) ++ reprQuote s :: rest := by
    rintro ⟨u, hu⟩
    cases s with
    | nil =>
      obtain ⟨-, hrest'⟩ := List.cons.inj hu
      exact hrest _ (by rw [← hrest']; rfl) hq
    | cons c s =>
      obtain ⟨d, t, ht, hd⟩ := head_escapeChar printable hq c
      rw [List.flatMap_cons, ht] at hu
      exact hd (List.cons.inj hu).1.symm
  have hlength := length_le_escaped printable hq s
  rw [htext, readLiteral, if_pos ⟨hq, htriple⟩]
  apply readBody_escaped printable hq
  rw [List.length_append]
  omega

end SqlalchemyCubrid.Python
