import Mathlib.Data.List.Basic

/-!
# SQL tokens

`scan` reads a text character by character and `lex` makes tokens of it.  A
quoted name or literal ends at the first quote that is not doubled, a backslash
is an ordinary character, and white space and comments are tokens too, so that
no text is lost (`text_of_lex`).

`lex_append` is the rule for composing texts: tokens do not run together over a
delimiter.  `lex_delimited` says that quoting, by doubling, is read back as the
text that was quoted.  The parsers at the end work on tokens: `items_join` reads
lists, and `expression_of_enclosed` text that keeps its commas to itself.
-/

namespace SqlalchemyCubrid.Lib.Sql

/-- The quote of a name, and the quote of a literal. -/
inductive Quote where
  | name
  | literal
  deriving DecidableEq, Repr

def Quote.char : Quote → Char
  | .name => '"'
  | .literal => Char.ofNat 39

inductive Token where
  | word (s : List Char)
  /-- with its quotes undoubled -/
  | quoted (q : Quote) (s : List Char)
  | symbol (c : Char)
  | space (c : Char)
  | comment (s : List Char)
  deriving DecidableEq, Repr

/-- Between two characters, what the lexer has read of the token it is in. -/
inductive Mode where
  | ground
  | word (s : List Char)
  | inside (q : Quote) (s : List Char)
  /-- behind a quote, which ends the token unless another one follows -/
  | after (q : Quote) (s : List Char)
  /-- behind a sign that opens a comment when it is doubled -/
  | dash
  | slash
  | line (s : List Char)
  | block (s : List Char) (star : Bool)
  deriving DecidableEq, Repr

def isWordChar (c : Char) : Bool :=
  c.isAlphanum || c == '_' || c == '$' || c == '#' || 128 ≤ c.toNat

/-! ### The lexer -/

/-- The first character of a token. -/
def start (c : Char) : List Token × Mode :=
  if c = Quote.name.char then ([], .inside .name [])
  else if c = Quote.literal.char then ([], .inside .literal [])
  else if isWordChar c then ([], .word [c])
  else if c = '-' then ([], .dash)
  else if c = '/' then ([], .slash)
  else if c.isWhitespace then ([.space c], .ground)
  else ([.symbol c], .ground)

/-- A token that ended, and the first character of the next. -/
def emit (t : Token) (c : Char) : List Token × Mode := (t :: (start c).1, (start c).2)

/-- The tokens that end with a character, and the mode behind it. -/
def step : Mode → Char → List Token × Mode
  | .ground, c => start c
  | .word s, c => if isWordChar c then ([], .word (s ++ [c])) else emit (.word s) c
  | .inside q s, c => if c = q.char then ([], .after q s) else ([], .inside q (s ++ [c]))
  | .after q s, c => if c = q.char then ([], .inside q (s ++ [c])) else emit (.quoted q s) c
  | .dash, c => if c = '-' then ([], .line ['-', c]) else emit (.symbol '-') c
  | .slash, c =>
    if c = '/' then ([], .line ['/', c])
    else if c = '*' then ([], .block ['/', c] false)
    else emit (.symbol '/') c
  | .line s, c => if c = '\n' then ([.comment (s ++ [c])], .ground) else ([], .line (s ++ [c]))
  | .block s star, c =>
    if star ∧ c = '/' then ([.comment (s ++ [c])], .ground)
    else ([], .block (s ++ [c]) (c == '*'))

def scan : Mode → List Char → List Token × Mode
  | m, [] => ([], m)
  | m, c :: s => ((step m c).1 ++ (scan (step m c).2 s).1, (scan (step m c).2 s).2)

/-- The token a text may end in; a quote or a comment must be closed. -/
def finish : Mode → Option (List Token)
  | .ground => some []
  | .word s => some [.word s]
  | .after q s => some [.quoted q s]
  | .dash => some [.symbol '-']
  | .slash => some [.symbol '/']
  | .inside _ _ => none
  | .line _ => none
  | .block _ _ => none

def lex (s : List Char) : Option (List Token) :=
  (finish (scan .ground s).2).map ((scan .ground s).1 ++ ·)

theorem scan_append (m : Mode) (s t : List Char) :
    scan m (s ++ t)
      = ((scan m s).1 ++ (scan (scan m s).2 t).1, (scan (scan m s).2 t).2) := by
  induction s generalizing m with
  | nil => rfl
  | cons c s ih => rw [List.cons_append, scan, ih, scan, List.append_assoc]

theorem lex_eq_some {s : List Char} {ts : List Token} (h : lex s = some ts) :
    ∃ last, finish (scan .ground s).2 = some last ∧ ts = (scan .ground s).1 ++ last := by
  obtain ⟨last, hlast, rfl⟩ := Option.map_eq_some_iff.mp h
  exact ⟨last, hlast, rfl⟩

/-! ### No text is lost -/

/-- Every `q` twice. -/
def double (q : Char) (s : List Char) : List Char :=
  s.flatMap fun c => if c = q then [q, q] else [c]

theorem double_append (q : Char) (s t : List Char) : double q (s ++ t) = double q s ++ double q t :=
  List.flatMap_append

theorem double_singleton (q c : Char) : double q [c] = if c = q then [q, q] else [c] :=
  List.flatMap_singleton _ _

theorem double_of_not_mem {q : Char} {s : List Char} (h : q ∉ s) : double q s = s := by
  induction s with
  | nil => rfl
  | cons c s ih =>
    obtain ⟨hc, hs⟩ := not_or.mp fun hq => h (List.mem_cons.mpr hq)
    rw [← List.singleton_append, double_append, double_singleton, if_neg (Ne.symm hc), ih hs]

theorem mem_double_iff {q c : Char} {s : List Char} : c ∈ double q s ↔ c ∈ s := by
  rw [double, List.mem_flatMap]
  constructor
  · rintro ⟨d, hd, hc⟩
    split at hc
    · rename_i hq
      have hcq : c = q := by simpa using hc
      rw [hcq, ← hq]
      exact hd
    · rw [List.mem_singleton.mp hc]
      exact hd
  · intro hc
    refine ⟨c, hc, ?_⟩
    split
    · rename_i hq
      rw [hq]
      exact List.mem_cons_self
    · exact List.mem_singleton_self c

theorem length_le_double (q : Char) (s : List Char) : s.length ≤ (double q s).length := by
  induction s with
  | nil => exact Nat.zero_le _
  | cons c s ih =>
    have hcons : double q (c :: s) = double q [c] ++ double q s := by
      rw [← double_append]
      rfl
    have hone : 1 ≤ (double q [c]).length := by
      rw [double_singleton]
      split <;> simp
    rw [hcons, List.length_append, List.length_cons]
    omega

/-- A text in quotes. -/
def delimited (q : Quote) (s : List Char) : List Char := q.char :: (double q.char s ++ [q.char])

def Token.text : Token → List Char
  | .word s => s
  | .quoted q s => delimited q s
  | .symbol c => [c]
  | .space c => [c]
  | .comment s => s

def textOf (ts : List Token) : List Char := ts.flatMap Token.text

theorem textOf_append (ts us : List Token) : textOf (ts ++ us) = textOf ts ++ textOf us :=
  List.flatMap_append

theorem textOf_singleton (t : Token) : textOf [t] = t.text := List.flatMap_singleton _ _

/-- What has been read of a token. -/
def Mode.text : Mode → List Char
  | .ground => []
  | .word s => s
  | .inside q s => q.char :: double q.char s
  | .after q s => delimited q s
  | .dash => ['-']
  | .slash => ['/']
  | .line s => s
  | .block s _ => s

theorem text_start (c : Char) : textOf (start c).1 ++ (start c).2.text = [c] := by
  unfold start
  split_ifs with h₁ h₂ h₃ h₄ h₅
  · rw [h₁]; rfl
  · rw [h₂]; rfl
  · rfl
  · rw [h₄]; rfl
  · rw [h₅]; rfl
  · rfl
  · rfl

theorem text_emit (t : Token) (c : Char) :
    textOf (emit t c).1 ++ (emit t c).2.text = t.text ++ [c] := by
  show t.text ++ textOf (start c).1 ++ (start c).2.text = t.text ++ [c]
  rw [List.append_assoc, text_start]

theorem text_comment (s : List Char) : textOf [.comment s] ++ Mode.ground.text = s := by
  rw [textOf_singleton]
  exact List.append_nil s

theorem text_step (m : Mode) (c : Char) :
    textOf (step m c).1 ++ (step m c).2.text = m.text ++ [c] := by
  cases m with
  | ground => exact text_start c
  | word s =>
    rw [step]
    split_ifs
    · rfl
    · exact text_emit _ c
  | inside q s =>
    rw [step]
    split_ifs with h
    · rw [h]
      rfl
    · show q.char :: double q.char (s ++ [c]) = _
      rw [double_append, double_singleton, if_neg h]
      rfl
  | after q s =>
    rw [step]
    split_ifs with h
    · show q.char :: double q.char (s ++ [c]) = delimited q s ++ [c]
      rw [double_append, double_singleton, if_pos h, h, delimited]
      simp
    · exact text_emit _ c
  | dash =>
    rw [step]
    split_ifs
    · rfl
    · exact text_emit _ c
  | slash =>
    rw [step]
    split_ifs
    · rfl
    · rfl
    · exact text_emit _ c
  | line s =>
    rw [step]
    split_ifs
    · exact text_comment _
    · rfl
  | block s star =>
    rw [step]
    split_ifs
    · exact text_comment _
    · rfl

/-- By induction on the text, with what is read of a token as the invariant. -/
theorem text_scan (m : Mode) (s : List Char) :
    textOf (scan m s).1 ++ (scan m s).2.text = m.text ++ s := by
  induction s generalizing m with
  | nil => exact (List.append_nil _).symm
  | cons c s ih =>
    rw [scan, textOf_append, List.append_assoc, ih, ← List.append_assoc, text_step,
      List.append_assoc]
    rfl

theorem text_finish {m : Mode} {ts : List Token} (h : finish m = some ts) : textOf ts = m.text := by
  cases m with
  | ground => rw [← Option.some.inj h]; rfl
  | word s => rw [← Option.some.inj h]; exact textOf_singleton _
  | after q s => rw [← Option.some.inj h]; exact textOf_singleton _
  | dash => rw [← Option.some.inj h]; rfl
  | slash => rw [← Option.some.inj h]; rfl
  | inside q s => cases h
  | line s => cases h
  | block s star => cases h

/-- **The tokens of a text make up the text.** -/
theorem text_of_lex {s : List Char} {ts : List Token} (h : lex s = some ts) : textOf ts = s := by
  obtain ⟨last, hlast, rfl⟩ := lex_eq_some h
  rw [textOf_append, text_finish hlast]
  exact text_scan .ground s

/-! ### Composing texts -/

/-- A character that ends every token in front of it and is one by itself. -/
def isDelimiter (c : Char) : Bool := c ∈ [' ', ',', '(', ')', '=', ';']

def delimiter (c : Char) : Token := if c = ' ' then .space c else .symbol c

theorem delimiter_cases {c : Char} (h : isDelimiter c) :
    c = ' ' ∨ c = ',' ∨ c = '(' ∨ c = ')' ∨ c = '=' ∨ c = ';' := by
  simpa [isDelimiter] using h

/-- A character that is a token by itself and goes on with none. -/
structure Separates (c : Char) (t : Token) : Prop where
  start_eq : start c = ([t], .ground)
  not_word : isWordChar c = false
  not_quote : ∀ q : Quote, c ≠ q.char
  not_dash : c ≠ '-'
  not_slash : c ≠ '/'
  not_star : c ≠ '*'

theorem separates_delimiter {c : Char} (h : isDelimiter c) : Separates c (delimiter c) := by
  have hquote : ∀ q : Quote, c ≠ q.char := by
    intro q
    rcases delimiter_cases h with rfl | rfl | rfl | rfl | rfl | rfl <;> cases q <;> decide
  refine ⟨?_, ?_, hquote, ?_, ?_, ?_⟩ <;>
    rcases delimiter_cases h with rfl | rfl | rfl | rfl | rfl | rfl <;> decide

theorem separates_dot : Separates '.' (.symbol '.') := by
  refine ⟨by decide, by decide, ?_, by decide, by decide, by decide⟩
  intro q
  cases q <;> decide

theorem emit_separates {c : Char} {t : Token} (h : Separates c t) (last : Token) :
    emit last c = ([last] ++ [t], .ground) := by
  rw [emit, h.start_eq]
  rfl

/-- **Over a separator no token goes on.** -/
theorem step_separates {m : Mode} {last : List Token} (hm : finish m = some last) {c : Char}
    {t : Token} (h : Separates c t) : step m c = (last ++ [t], .ground) := by
  cases m with
  | ground => rw [← Option.some.inj hm]; exact h.start_eq
  | word s =>
    rw [step, h.not_word, if_neg Bool.false_ne_true, ← Option.some.inj hm]
    exact emit_separates h _
  | after q s =>
    rw [step, if_neg (h.not_quote q), ← Option.some.inj hm]
    exact emit_separates h _
  | dash =>
    rw [step, if_neg h.not_dash, ← Option.some.inj hm]
    exact emit_separates h _
  | slash =>
    rw [step, if_neg h.not_slash, if_neg h.not_star, ← Option.some.inj hm]
    exact emit_separates h _
  | inside q s => cases hm
  | line s => cases hm
  | block s star => cases hm

theorem lex_append_separates {s t : List Char} {ts us : List Token} (hs : lex s = some ts)
    {c : Char} {u : Token} (hc : Separates c u) (ht : lex t = some us) :
    lex (s ++ c :: t) = some (ts ++ u :: us) := by
  obtain ⟨last, hlast, rfl⟩ := lex_eq_some hs
  obtain ⟨end', hend, rfl⟩ := lex_eq_some ht
  rw [lex, scan_append, scan, step_separates hlast hc]
  simp only [hend, Option.map_some, List.append_assoc]
  rfl

/-- **The tokens of two texts with a delimiter between them.** -/
theorem lex_append {s t : List Char} {ts us : List Token} (hs : lex s = some ts) {c : Char}
    (hc : isDelimiter c) (ht : lex t = some us) :
    lex (s ++ c :: t) = some (ts ++ delimiter c :: us) :=
  lex_append_separates hs (separates_delimiter hc) ht

theorem lex_cons {t : List Char} {us : List Token} {c : Char} (hc : isDelimiter c)
    (ht : lex t = some us) : lex (c :: t) = some (delimiter c :: us) :=
  lex_append (s := []) rfl hc ht

/-! ### Single tokens -/

theorem scan_inside (q : Quote) (acc s : List Char) :
    scan (.inside q acc) (double q.char s) = ([], .inside q (acc ++ s)) := by
  induction s generalizing acc with
  | nil => rw [List.append_nil]; rfl
  | cons c s ih =>
    have hcons : double q.char (c :: s) = double q.char [c] ++ double q.char s := by
      rw [← double_append]
      rfl
    have hone : scan (.inside q acc) (double q.char [c]) = ([], .inside q (acc ++ [c])) := by
      rw [double_singleton]
      by_cases h : c = q.char
      · rw [if_pos h, scan, step, if_pos rfl, scan, step, if_pos rfl, scan, h]
        rfl
      · rw [if_neg h, scan, step, if_neg h, scan]
        rfl
    rw [hcons, scan_append, hone]
    simp only [ih, List.append_assoc, List.singleton_append, List.nil_append]

/-- **A quoted text is one token.** -/
theorem lex_delimited (q : Quote) (s : List Char) : lex (delimited q s) = some [.quoted q s] := by
  have hopen : step .ground q.char = ([], .inside q []) := by cases q <;> decide
  have hclose : scan (.inside q s) [q.char] = ([], .after q s) := by
    rw [scan, step, if_pos rfl]
    rfl
  have hscan : scan .ground (delimited q s) = ([], .after q s) := by
    rw [delimited, scan, hopen, scan_append, scan_inside]
    simp only [List.nil_append, hclose]
  rw [lex, hscan]
  rfl

theorem scan_word (acc : List Char) {s : List Char} (hs : ∀ c ∈ s, isWordChar c) :
    scan (.word acc) s = ([], .word (acc ++ s)) := by
  induction s generalizing acc with
  | nil => rw [List.append_nil]; rfl
  | cons c s ih =>
    rw [scan, step, if_pos (hs c (by simp)), ih _ fun d hd => hs d (by simp [hd]),
      List.append_assoc]
    rfl

theorem start_word {c : Char} (h : isWordChar c) : start c = ([], .word [c]) := by
  have hname : c ≠ Quote.name.char := by rintro rfl; exact absurd h (by decide)
  have hliteral : c ≠ Quote.literal.char := by rintro rfl; exact absurd h (by decide)
  rw [start, if_neg hname, if_neg hliteral, if_pos h]

/-- **A run of word characters is one token.** -/
theorem lex_word {s : List Char} (hne : s ≠ []) (hs : ∀ c ∈ s, isWordChar c) :
    lex s = some [.word s] := by
  cases s with
  | nil => exact absurd rfl hne
  | cons c s =>
    have hrest := scan_word [c] (s := s) fun d hd => hs d (by simp [hd])
    rw [lex, scan, step, start_word (hs c (by simp)), hrest]
    rfl

/-- A word behind a dash. -/
theorem lex_dash_word {s : List Char} (hne : s ≠ []) (hs : ∀ c ∈ s, isWordChar c) :
    lex ('-' :: s) = some [.symbol '-', .word s] := by
  cases s with
  | nil => exact absurd rfl hne
  | cons c s =>
    have hc := hs c (by simp)
    have hdash : c ≠ '-' := by rintro rfl; exact absurd hc (by decide)
    have hopen : step .ground '-' = ([], .dash) := by decide
    have hrest := scan_word [c] (s := s) fun d hd => hs d (by simp [hd])
    rw [lex, scan, hopen, scan, step, if_neg hdash, emit, start_word hc, hrest]
    rfl

/-! ### Parsers on tokens -/

abbrev Parser := StateT (List Token) Option

def isBlank : Token → Bool
  | .space _ => true
  | .comment _ => true
  | _ => false

def skip (ts : List Token) : List Token := ts.dropWhile isBlank

/-- The next token that is not blank, if the function has a value for it. -/
def next {α : Type} (f : Token → Option α) : Parser α := fun ts =>
  match skip ts with
  | [] => none
  | t :: ts => (f t).map fun a => (a, ts)

/-- A keyword, in any letter case. -/
def keyword (w : List Char) : Parser Unit :=
  next fun t => match t with
    | .word s => if s.map Char.toUpper = w then some () else none
    | _ => none

def symbol (c : Char) : Parser Unit := next fun t => if t = .symbol c then some () else none

def quoted (q : Quote) : Parser (List Char) :=
  next fun t => match t with
    | .quoted q' s => if q' = q then some s else none
    | _ => none

def anyWord : Parser (List Char) :=
  next fun t => match t with
    | .word s => some (s.map Char.toUpper)
    | _ => none

def natural : Parser Nat :=
  next fun t => match t with
    | .word s => if s.all Char.isDigit then some (Nat.ofDigitChars 10 s 0) else none
    | _ => none

/-- A number with or without a sign. -/
def integer : Parser Int :=
  (do symbol '-'; return -(← natural : Int)) <|> (do return (← natural : Int))

/-- The tokens of an expression, up to the comma or the parenthesis that ends it. -/
def expressionAt (depth : Nat) : List Token → List Token × List Token
  | [] => ([], [])
  | t :: ts =>
    if depth = 0 ∧ (t = .symbol ',' ∨ t = .symbol ')') then ([], t :: ts)
    else
      let depth :=
        if t = .symbol '(' then depth + 1 else if t = .symbol ')' then depth - 1 else depth
      (t :: (expressionAt depth ts).1, (expressionAt depth ts).2)

def expression : Parser (List Token) := fun ts => some (expressionAt 0 ts)

/-- Behind a comma one space is layout. -/
def dropSpace : List Token → List Token
  | .space ' ' :: ts => ts
  | ts => ts

/-- A list with commas, not empty; the first argument bounds its length. -/
def items {α : Type} (p : Parser α) : Nat → Parser (List α)
  | 0, _ => none
  | n + 1, ts =>
    (p ts).bind fun (x, ts) =>
      match skip ts with
      | .symbol ',' :: ts => (items p n (dropSpace ts)).map fun (xs, ts) => (x :: xs, ts)
      | _ => some ([x], ts)

/-- A list, as long as the tokens allow. -/
def listOf {α : Type} (p : Parser α) : Parser (List α) := fun ts => items p (ts.length + 1) ts

/-- `p` in parentheses. -/
def parens {α : Type} (p : Parser α) : Parser α := do
  symbol '('
  let a ← p
  symbol ')'
  return a

/-- A list in parentheses, which may be empty. -/
def parensList {α : Type} (p : Parser α) : Parser (List α) :=
  parens (pure []) <|> parens (listOf p)

/-- Words with spaces between them. -/
def phrase (ws : List (List Char)) : List Token :=
  [Token.space ' '].intercalate (ws.map fun w => [.word w])

/-- Are the parentheses closed, and all commas inside of them? -/
def enclosedAt : Nat → List Token → Bool
  | depth, [] => depth == 0
  | depth, t :: ts =>
    if t = .symbol '(' then enclosedAt (depth + 1) ts
    else if t = .symbol ')' then 0 < depth && enclosedAt (depth - 1) ts
    else if t = .symbol ',' then 0 < depth && enclosedAt depth ts
    else enclosedAt depth ts

def enclosed (ts : List Token) : Bool := enclosedAt 0 ts

/-- What may follow an item of a list. -/
def EndsItem (ts : List Token) : Prop :=
  ∃ us, ts = .symbol ',' :: us ∨ ts = .symbol ')' :: us

theorem expressionAt_append {depth : Nat} {ts rest : List Token} (h : enclosedAt depth ts)
    (hrest : EndsItem rest) : expressionAt depth (ts ++ rest) = (ts, rest) := by
  induction ts generalizing depth with
  | nil =>
    have hzero : depth = 0 := by simpa [enclosedAt] using h
    obtain ⟨us, rfl | rfl⟩ := hrest
    · exact if_pos ⟨hzero, Or.inl rfl⟩
    · exact if_pos ⟨hzero, Or.inr rfl⟩
  | cons t ts ih =>
    rw [enclosedAt] at h
    rw [List.cons_append, expressionAt]
    by_cases hopen : t = .symbol '('
    · rw [if_pos hopen] at h
      rw [if_neg (by simp [hopen]), if_pos hopen]
      simp only [ih h]
    · rw [if_neg hopen] at h
      by_cases hclose : t = .symbol ')'
      · rw [if_pos hclose, Bool.and_eq_true, decide_eq_true_iff] at h
        rw [if_neg (by omega), if_neg hopen, if_pos hclose]
        simp only [ih h.2]
      · rw [if_neg hclose] at h
        by_cases hcomma : t = .symbol ','
        · rw [if_pos hcomma, Bool.and_eq_true, decide_eq_true_iff] at h
          rw [if_neg (by omega), if_neg hopen, if_neg hclose]
          simp only [ih h.2]
        · rw [if_neg hcomma] at h
          rw [if_neg fun hand => hand.2.elim hcomma hclose, if_neg hopen, if_neg hclose]
          simp only [ih h]

/-- **An expression keeps its commas and parentheses to itself.** -/
theorem expression_of_enclosed {ts rest : List Token} (h : enclosed ts) (hrest : EndsItem rest) :
    expression (ts ++ rest) = some (ts, rest) :=
  congrArg some (expressionAt_append h hrest)

/-- Items with a comma and a space between them. -/
def joinTokens (parts : List (List Token)) : List Token :=
  [Token.symbol ',', .space ' '].intercalate parts

theorem joinTokens_cons_cons {β : Type} (toks : β → List Token) (b c : β) (bs : List β) :
    joinTokens ((b :: c :: bs).map toks)
      = toks b ++ .symbol ',' :: .space ' ' :: joinTokens ((c :: bs).map toks) := by
  rw [joinTokens, joinTokens, List.map_cons, List.map_cons, List.intercalate_cons_cons]
  simp

/-- The tokens of a list are the tokens of its items. -/
theorem lex_join {β : Type} {text : β → List Char} {toks : β → List Token} {b : β} {bs : List β}
    (h : ∀ x ∈ b :: bs, lex (text x) = some (toks x)) :
    lex ([',', ' '].intercalate ((b :: bs).map text)) = some (joinTokens ((b :: bs).map toks)) := by
  induction bs generalizing b with
  | nil =>
    have hone : joinTokens ([b].map toks) = toks b := List.intercalate_singleton
    rw [hone, List.map_singleton, List.intercalate_singleton]
    exact h b (by simp)
  | cons c bs ih =>
    have hlast := ih (b := c) fun x hx => h x (List.mem_cons_of_mem _ hx)
    have hrest : lex (text b ++ ',' :: ' ' :: [',', ' '].intercalate ((c :: bs).map text))
        = some (toks b ++ .symbol ',' :: .space ' ' :: joinTokens ((c :: bs).map toks)) :=
      lex_append (h b (by simp)) rfl (lex_cons rfl hlast)
    have htext : [',', ' '].intercalate ((b :: c :: bs).map text)
        = text b ++ ',' :: ' ' :: [',', ' '].intercalate ((c :: bs).map text) := by
      rw [List.map_cons, List.map_cons, List.intercalate_cons_cons]
      simp
    rw [htext, hrest, joinTokens_cons_cons]

section Lists

variable {α β : Type} {p : Parser α} {f : β → α} {toks : β → List Token}

/-- **A list is read item by item**, when every item is read up to what ends it. -/
theorem items_join (hp : ∀ b rest, EndsItem rest → p (toks b ++ rest) = some (f b, rest))
    (b : β) (bs : List β) {n : Nat} (hn : bs.length < n) (rest : List Token) :
    items p n (joinTokens ((b :: bs).map toks) ++ .symbol ')' :: rest)
      = some ((b :: bs).map f, .symbol ')' :: rest) := by
  induction bs generalizing b n with
  | nil =>
    obtain ⟨n, rfl⟩ := Nat.exists_eq_succ_of_ne_zero (by omega : n ≠ 0)
    have hone : joinTokens ([b].map toks) = toks b := List.intercalate_singleton
    rw [items, hone, hp b _ ⟨rest, Or.inr rfl⟩]
    rfl
  | cons c bs ih =>
    obtain ⟨n, rfl⟩ := Nat.exists_eq_succ_of_ne_zero (by omega : n ≠ 0)
    have hsplit : joinTokens ((b :: c :: bs).map toks) ++ .symbol ')' :: rest
        = toks b ++ .symbol ',' :: .space ' '
            :: (joinTokens ((c :: bs).map toks) ++ .symbol ')' :: rest) := by
      rw [joinTokens_cons_cons, List.append_assoc]
      rfl
    have hrest := ih c (n := n) (by simpa using hn)
    rw [items, hsplit, hp b _ ⟨_, Or.inl rfl⟩]
    simp only [Option.bind_some]
    show (items p n (joinTokens ((c :: bs).map toks) ++ .symbol ')' :: rest)).map _ = _
    rw [hrest]
    rfl

theorem length_joinTokens (toks : β → List Token) (b : β) (bs : List β) :
    bs.length ≤ (joinTokens ((b :: bs).map toks)).length := by
  induction bs generalizing b with
  | nil => exact Nat.zero_le _
  | cons c bs ih =>
    have := ih c
    rw [joinTokens_cons_cons, List.length_append, List.length_cons, List.length_cons,
      List.length_cons]
    omega

theorem listOf_join (hp : ∀ b rest, EndsItem rest → p (toks b ++ rest) = some (f b, rest))
    (b : β) (bs : List β) (rest : List Token) :
    listOf p (joinTokens ((b :: bs).map toks) ++ .symbol ')' :: rest)
      = some ((b :: bs).map f, .symbol ')' :: rest) := by
  apply items_join hp
  have := length_joinTokens toks b bs
  rw [List.length_append]
  omega

/-- What is read inside parentheses is read with them. -/
theorem parens_of_read {a : α} {ts rest : List Token}
    (h : p (ts ++ .symbol ')' :: rest) = some (a, .symbol ')' :: rest)) :
    parens p (.symbol '(' :: (ts ++ .symbol ')' :: rest)) = some (a, rest) := by
  show (p (ts ++ .symbol ')' :: rest)).bind _ = _
  rw [h]
  rfl

/-- A blank in front of the parentheses does not count. -/
theorem parens_space (p : Parser α) (ts : List Token) :
    parens p (.space ' ' :: ts) = parens p ts := rfl

theorem parensList_space (p : Parser α) (ts : List Token) :
    parensList p (.space ' ' :: ts) = parensList p ts := rfl

/-- **A list in parentheses**, of items that start with a word. -/
theorem parensList_join (hp : ∀ b rest, EndsItem rest → p (toks b ++ rest) = some (f b, rest))
    (hword : ∀ b, ∃ w us, toks b = .word w :: us) (bs : List β) (rest : List Token) :
    parensList p (.symbol '(' :: (joinTokens (bs.map toks) ++ .symbol ')' :: rest))
      = some (bs.map f, rest) := by
  cases bs with
  | nil => rfl
  | cons b bs =>
    have hsome := parens_of_read (listOf_join hp b bs rest)
    have hnone : parens (pure []) (.symbol '(' :: (joinTokens ((b :: bs).map toks)
        ++ .symbol ')' :: rest)) = (none : Option (List α × List Token)) := by
      obtain ⟨w, us, hw⟩ := hword b
      cases bs with
      | nil =>
        have hone : joinTokens ([b].map toks) = toks b := List.intercalate_singleton
        rw [hone, hw]
        rfl
      | cons c bs =>
        rw [joinTokens_cons_cons, hw]
        rfl
    show (parens (pure []) _).orElse _ = _
    rw [hnone]
    exact hsome

end Lists

end SqlalchemyCubrid.Lib.Sql
