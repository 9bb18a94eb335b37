import SqlalchemyCubrid.Lib.SqlFragment

/-!
# Reading up to layout

Printers differ in where they put blanks, so what a parser reads is compared up
to the blanks between its parts.  `Reads p ts a rest` says that `p` reads `a` off
`ts` and leaves `rest`, but for layout; `LayoutFree p` says that blanks in front
do not matter to `p`.

Both go through the ways to make parsers.  `Reads.bind` is the rule for parts in
a row, `reads_many` for options in a row and `reads_commaList` for lists.  Where the
parts go on to the end, `ReadsToEnd.cons` reads them one by one.
-/

namespace SqlalchemyCubrid.Lib.Sql

section Reads

variable {α β : Type} {p q : Parser α} {f : α → Parser β}

/-- What a parser returns, without the blanks in front of the rest. -/
def solid (r : Option (α × List Token)) : Option (α × List Token) :=
  r.map fun r => (r.1, skip r.2)

/-- Blanks in front of a text do not matter to a parser. -/
def LayoutFree (p : Parser α) : Prop := ∀ ts, solid (p ts) = solid (p (skip ts))

/-- `p` reads `a` off `ts`, and `rest` is left but for layout. -/
def Reads (p : Parser α) (ts : List Token) (a : α) (rest : List Token) : Prop :=
  solid (p ts) = some (a, skip rest)

theorem skip_skip (ts : List Token) : skip (skip ts) = skip ts := List.dropWhile_idempotent ..

theorem skip_blanks {as : List Token} (ha : ∀ t ∈ as, isBlank t) (ts : List Token) :
    skip (as ++ ts) = skip ts := dropWhile_blanks ha

theorem exists_blanks (ts : List Token) : ∃ as, (∀ t ∈ as, isBlank t) ∧ ts = as ++ skip ts :=
  ⟨ts.takeWhile isBlank, fun _ h => List.mem_takeWhile_imp h, List.takeWhile_append_dropWhile.symm⟩

theorem LayoutFree.congr (h : LayoutFree p) {ts us : List Token} (hskip : skip ts = skip us) :
    solid (p ts) = solid (p us) := by
  rw [h ts, hskip, ← h us]

theorem Reads.exists_rest {ts rest : List Token} {a : α} (h : Reads p ts a rest) :
    ∃ r, p ts = some (a, r) ∧ skip r = skip rest := by
  obtain ⟨⟨b, r⟩, hp, heq⟩ := Option.map_eq_some_iff.mp h
  obtain ⟨rfl, hr⟩ := Prod.mk.inj heq
  exact ⟨r, hp, hr⟩

theorem reads_of_eq {ts rest r : List Token} {a : α} (h : p ts = some (a, r))
    (hr : skip r = skip rest) : Reads p ts a rest := by
  rw [Reads, h, ← hr]
  rfl

/-- Blanks may stand in front. -/
theorem Reads.layout {b ts rest : List Token} {a : α} (h : Reads p ts a rest)
    (hp : LayoutFree p) (hb : ∀ t ∈ b, isBlank t) : Reads p (b ++ ts) a rest :=
  (hp.congr (skip_blanks hb ts)).trans h

theorem Reads.space {ts rest : List Token} {a : α} (h : Reads p ts a rest) (hp : LayoutFree p)
    (c : Char) : Reads p (.space c :: ts) a rest :=
  h.layout (b := [.space c]) hp (by simp [isBlank])

/-! ### Ways to make parsers -/

theorem layoutFree_pure (a : α) : LayoutFree (pure a : Parser α) := by
  intro ts
  show some (a, skip ts) = some (a, skip (skip ts))
  rw [skip_skip]

theorem layoutFree_next (g : Token → Option α) : LayoutFree (next g) := by
  intro ts
  rw [next, next, skip_skip]

theorem LayoutFree.bind (hp : LayoutFree p) (hf : ∀ a, LayoutFree (f a)) :
    LayoutFree (p >>= f) := by
  have hbind : ∀ ts, solid ((p >>= f) ts) = (solid (p ts)).bind fun r => solid (f r.1 r.2) := by
    intro ts
    show solid ((p ts).bind fun r => f r.1 r.2) = _
    cases p ts with
    | none => rfl
    | some r => exact hf r.1 r.2
  intro ts
  rw [hbind, hbind, hp ts]

theorem LayoutFree.orElse (hp : LayoutFree p) (hq : LayoutFree q) : LayoutFree (p <|> q) := by
  have horElse : ∀ ts, solid ((p <|> q) ts) = (solid (p ts)).orElse fun _ => solid (q ts) := by
    intro ts
    show solid ((p ts).orElse fun _ => q ts) = _
    cases p ts with
    | none => rfl
    | some r => rfl
  intro ts
  rw [horElse, horElse, hp ts, hq ts]

theorem reads_pure (a : α) (ts : List Token) : Reads (pure a : Parser α) ts a ts := rfl

theorem reads_next {g : Token → Option α} {t : Token} {a : α} (hg : g t = some a)
    (hblank : isBlank t = false) (rest : List Token) : Reads (next g) (t :: rest) a rest := by
  have hskip : skip (t :: rest) = t :: rest := List.dropWhile_cons_of_neg (by simp [hblank])
  refine reads_of_eq ?_ rfl
  rw [next, hskip]
  simp only [hg, Option.map_some]

theorem next_eq_none {g : Token → Option α} {ts us : List Token} {t : Token}
    (hts : skip ts = t :: us) (ht : g t = none) : next g ts = none := by
  rw [next, hts]
  exact Option.map_eq_none_iff.mpr ht

/-- **Parts in a row are read one after the other.** -/
theorem Reads.bind {ts mid rest : List Token} {a : α} {b : β} (h : Reads p ts a mid)
    (hf : LayoutFree (f a)) (hb : Reads (f a) mid b rest) : Reads (p >>= f) ts b rest := by
  obtain ⟨r, hp, hr⟩ := h.exists_rest
  have hbind : (p >>= f) ts = f a r := by
    show (p ts).bind _ = _
    rw [hp]
    rfl
  rw [Reads, hbind, hf.congr hr]
  exact hb

theorem Reads.andThen {p : Parser α} {q : Parser β} {ts mid rest : List Token} {a : α} {b : β}
    (h : Reads p ts a mid) (hq : LayoutFree q) (hb : Reads q mid b rest) :
    Reads (p >>= fun _ => q) ts b rest :=
  h.bind hq hb

theorem Reads.map {ts rest : List Token} {a : α} (h : Reads p ts a rest) (g : α → β) :
    Reads (p >>= fun a => pure (g a)) ts (g a) rest :=
  h.bind (layoutFree_pure _) (reads_pure _ _)

theorem bind_eq_none {ts : List Token} (h : p ts = none) : (p >>= f) ts = none := by
  show (p ts).bind _ = none
  rw [h]
  rfl

theorem Reads.left {ts rest : List Token} {a : α} (h : Reads p ts a rest) (q : Parser α) :
    Reads (p <|> q) ts a rest := by
  obtain ⟨r, hp, hr⟩ := h.exists_rest
  refine reads_of_eq ?_ hr
  show (p ts).orElse _ = _
  rw [hp]
  rfl

theorem Reads.right {ts rest : List Token} {a : α} (hp : p ts = none) (h : Reads q ts a rest) :
    Reads (p <|> q) ts a rest := by
  have hright : (p <|> q) ts = q ts := by
    show (p ts).orElse _ = _
    rw [hp]
    rfl
  rw [Reads, hright]
  exact h

theorem orElse_eq_none {ts : List Token} (hp : p ts = none) (hq : q ts = none) :
    (p <|> q) ts = none := by
  show (p ts).orElse _ = none
  rw [hp]
  exact hq

end Reads

/-! ### Words and signs -/

theorem layoutFree_keyword (w : List Char) : LayoutFree (keyword w) := layoutFree_next _

theorem layoutFree_symbol (c : Char) : LayoutFree (symbol c) := layoutFree_next _

theorem reads_keyword {w : List Char} (hw : w.map Char.toUpper = w) (rest : List Token) :
    Reads (keyword w) (.word w :: rest) () rest :=
  reads_next (if_pos hw) rfl rest

theorem keyword_ne {v w : List Char} (h : v.map Char.toUpper ≠ w) (rest : List Token) :
    keyword w (.word v :: rest) = none :=
  next_eq_none rfl (if_neg h)

theorem reads_symbol (c : Char) (rest : List Token) :
    Reads (symbol c) (.symbol c :: rest) () rest :=
  reads_next (if_pos rfl) rfl rest

theorem symbol_eq_none {c : Char} {t : Token} {ts us : List Token} (hts : skip ts = t :: us)
    (ht : t ≠ .symbol c) : symbol c ts = none :=
  next_eq_none hts (if_neg ht)

/-- A sign is no word. -/
theorem keyword_symbol {w : List Char} {c : Char} {ts us : List Token}
    (hts : skip ts = .symbol c :: us) : keyword w ts = none :=
  next_eq_none hts rfl

theorem reads_quoted (q : Quote) (s : List Char) (rest : List Token) :
    Reads (quoted q) (.quoted q s :: rest) s rest :=
  reads_next (if_pos rfl) rfl rest

theorem layoutFree_quoted (q : Quote) : LayoutFree (quoted q) := layoutFree_next _

/-! ### Words in a row -/

section Words

/-- Words, with spaces between them. -/
def keywords : List (List Char) → Parser Unit
  | [] => pure ()
  | w :: ws => do
    keyword w
    keywords ws

/-- Words with a space in front of each. -/
def wordsText (ws : List (List Char)) : List Char := ws.flatMap fun w => ' ' :: w

def wordsTokens (ws : List (List Char)) : List Token :=
  ws.flatMap fun w => [.space ' ', .word w]

def clauseTokens (ws : List (List Char)) (ts : List Token) : List Token :=
  wordsTokens ws ++ .space ' ' :: ts

/-- Words in capital letters. -/
structure Capitals (ws : List (List Char)) : Prop where
  lex_word : ∀ w ∈ ws, lex w = some [.word w]
  upper_word : ∀ w ∈ ws, w.map Char.toUpper = w

theorem lex_words {s : List Char} {ts : List Token} (hs : lex s = some ts)
    {ws : List (List Char)} (hws : Capitals ws) :
    lex (s ++ wordsText ws) = some (ts ++ wordsTokens ws) := by
  obtain ⟨hlex, -⟩ := hws
  induction ws generalizing s ts with
  | nil =>
    rw [wordsText, wordsTokens, List.flatMap_nil, List.flatMap_nil, List.append_nil,
      List.append_nil]
    exact hs
  | cons w ws ih =>
    have hcons := ih (lex_append hs (c := ' ') rfl (hlex w List.mem_cons_self))
      fun v hv => hlex v (List.mem_cons_of_mem _ hv)
    rw [List.append_assoc, List.append_assoc] at hcons
    exact hcons

/-- A clause behind another text. -/
theorem lex_clause {s t : List Char} {ts us : List Token} (hs : lex s = some ts)
    (ws : List (List Char)) (hws : Capitals ws) (ht : lex t = some us) :
    lex (s ++ (wordsText ws ++ ' ' :: t)) = some (ts ++ clauseTokens ws us) := by
  rw [← List.append_assoc, clauseTokens, ← List.append_assoc]
  exact lex_append (lex_words hs hws) rfl ht

theorem layoutFree_keywords (ws : List (List Char)) : LayoutFree (keywords ws) := by
  induction ws with
  | nil => exact layoutFree_pure ()
  | cons w ws ih => exact (layoutFree_keyword w).bind fun _ => ih

theorem reads_keywords {ws : List (List Char)} (hws : Capitals ws) (rest : List Token) :
    Reads (keywords ws) (wordsTokens ws ++ rest) () rest := by
  obtain ⟨-, hupper⟩ := hws
  induction ws with
  | nil => exact reads_pure () rest
  | cons w ws ih =>
    have hrest := ih fun v hv => hupper v (List.mem_cons_of_mem _ hv)
    have hword := (reads_keyword (hupper w List.mem_cons_self) _).andThen
      (layoutFree_keywords ws) hrest
    exact hword.space (layoutFree_keywords (w :: ws)) ' '

end Words

/-! ### What comes next -/

section Heads

variable {α : Type} {ts us rest : List Token}

/-- The end of the tokens, or one of `ts`, behind some layout. -/
def Heads (ts rest : List Token) : Prop := ∀ t ∈ (skip rest).head?, t ∈ ts

theorem heads_nil : Heads ts [] := by
  intro t ht
  cases ht

theorem heads_cons {t : Token} (hblank : isBlank t = false) (ht : t ∈ ts) :
    Heads ts (t :: rest) := by
  have hskip : skip (t :: rest) = t :: rest := List.dropWhile_cons_of_neg (by simp [hblank])
  intro u hu
  rw [hskip] at hu
  cases hu
  exact ht

theorem Heads.mono (h : Heads ts rest) (hsub : ∀ t ∈ ts, t ∈ us) : Heads us rest :=
  fun t ht => hsub t (h t ht)

theorem Heads.blanks (h : Heads ts rest) {b : List Token} (hb : ∀ t ∈ b, isBlank t) :
    Heads ts (b ++ rest) := by
  rw [Heads, skip_blanks hb]
  exact h

theorem Heads.stops (h : Heads ts rest) {stop : Token → Bool} (hstop : ∀ t ∈ ts, stop t) :
    Stops stop (skip rest) :=
  fun t ht => hstop t (h t ht)

/-- **What cannot come next is not read.** -/
theorem Heads.next_eq_none (h : Heads ts rest) {g : Token → Option α}
    (hg : ∀ t ∈ ts, g t = none) : next g rest = none := by
  rw [next]
  cases hskip : skip rest with
  | nil => rfl
  | cons t us =>
    have ht : t ∈ ts := h t (by rw [hskip]; rfl)
    show (g t).map _ = none
    rw [hg t ht]
    rfl

end Heads

/-! ### Options in a row -/

section Many

variable {α β : Type} {p : Parser α} {g : β → α} {T : β → List Token}

/-- How many tokens are no layout. -/
def solidLength (ts : List Token) : Nat := ts.countP fun t => !isBlank t

/-- `p` as long as it reads something; the first argument bounds how often. -/
def manyAt (p : Parser α) : Nat → Parser (List α)
  | 0, ts => some ([], ts)
  | n + 1, ts =>
    (p ts).elim (some ([], ts)) fun r => (manyAt p n r.2).map fun s => (r.1 :: s.1, s.2)

def many (p : Parser α) : Parser (List α) := fun ts => manyAt p (solidLength ts) ts

theorem solidLength_append (ts us : List Token) :
    solidLength (ts ++ us) = solidLength ts + solidLength us := List.countP_append

theorem solidLength_blanks {as : List Token} (ha : ∀ t ∈ as, isBlank t) : solidLength as = 0 :=
  List.countP_eq_zero.mpr fun t ht => by simp [ha t ht]

theorem solidLength_skip (ts : List Token) : solidLength (skip ts) = solidLength ts := by
  obtain ⟨as, ha, has⟩ := exists_blanks ts
  conv_rhs => rw [has, solidLength_append, solidLength_blanks ha, Nat.zero_add]

theorem layoutFree_manyAt (hp : LayoutFree p) (n : Nat) : LayoutFree (manyAt p n) := by
  induction n with
  | zero => exact layoutFree_pure []
  | succ n ih =>
    have hstep : ∀ ts, solid (manyAt p (n + 1) ts)
        = (solid (p ts)).elim (some ([], skip ts)) fun r =>
            (solid (manyAt p n r.2)).map fun s => (r.1 :: s.1, s.2) := by
      intro ts
      rw [manyAt]
      cases p ts with
      | none => rfl
      | some r =>
        show solid ((manyAt p n r.2).map _) = (solid (manyAt p n (skip r.2))).map _
        rw [← ih r.2]
        cases manyAt p n r.2 with
        | none => rfl
        | some s => rfl
    intro ts
    rw [hstep, hstep, hp ts, skip_skip]

theorem LayoutFree.many (hp : LayoutFree p) : LayoutFree (many p) := by
  intro ts
  rw [Sql.many, Sql.many, solidLength_skip]
  exact layoutFree_manyAt hp _ ts

theorem reads_manyAt {E : List Token → Prop} (hp : LayoutFree p) {rest : List Token}
    (hrest : E rest) (hstop : p rest = none) (bs : List β)
    (hread : ∀ b ∈ bs, ∀ rest, E rest → Reads p (T b ++ rest) (g b) rest)
    (hends : ∀ b ∈ bs, ∀ rest, E (T b ++ rest)) {n : Nat} (hn : bs.length ≤ n) :
    Reads (manyAt p n) (bs.flatMap T ++ rest) (bs.map g) rest := by
  induction bs generalizing n with
  | nil =>
    cases n with
    | zero => exact reads_pure [] rest
    | succ n =>
      refine reads_of_eq ?_ rfl
      show (p rest).elim _ _ = some ([], rest)
      rw [hstop]
      rfl
  | cons b bs ih =>
    obtain ⟨n, rfl⟩ := Nat.exists_eq_add_one_of_ne_zero (Nat.ne_zero_of_lt hn)
    obtain ⟨hb, hbs⟩ := List.forall_mem_cons.mp hread
    have hmid : E (bs.flatMap T ++ rest) := by
      cases bs with
      | nil => exact hrest
      | cons c bs =>
        rw [List.flatMap_cons, List.append_assoc]
        exact hends c (by simp) _
    obtain ⟨r, hr, hskip⟩ := (hb _ hmid).exists_rest
    have hlast := ih hbs (fun c hc => hends c (List.mem_cons_of_mem _ hc)) (n := n)
      (Nat.le_of_succ_le_succ hn)
    have hnext : Reads (manyAt p n) r (bs.map g) rest :=
      ((layoutFree_manyAt hp n).congr hskip).trans hlast
    obtain ⟨s, hs, hskip'⟩ := hnext.exists_rest
    refine reads_of_eq (r := s) ?_ hskip'
    rw [List.flatMap_cons, List.append_assoc, manyAt, hr]
    show (manyAt p n r).map _ = _
    rw [hs]
    rfl

/-- **Options in a row are read one by one**, when each of them is read in front of
what meets `E`. -/
theorem reads_many {E : List Token → Prop} (hp : LayoutFree p) {rest : List Token}
    (hrest : E rest) (hstop : p rest = none) (bs : List β)
    (hread : ∀ b ∈ bs, ∀ rest, E rest → Reads p (T b ++ rest) (g b) rest)
    (hends : ∀ b ∈ bs, ∀ rest, E (T b ++ rest))
    (hsolid : ∀ b ∈ bs, 0 < solidLength (T b)) :
    Reads (many p) (bs.flatMap T ++ rest) (bs.map g) rest := by
  have hlength : bs.length ≤ solidLength (bs.flatMap T ++ rest) := by
    clear hread hends
    induction bs with
    | nil => exact Nat.zero_le _
    | cons b bs ih =>
      obtain ⟨hb, hbs⟩ := List.forall_mem_cons.mp hsolid
      have hlast := ih hbs
      rw [List.flatMap_cons, List.append_assoc, solidLength_append, List.length_cons]
      omega
  exact reads_manyAt hp hrest hstop bs hread hends hlength

/-- `p` reads `as` off all of `ts`. -/
def ReadsToEnd (p : Parser α) (ts : List Token) (as : List α) : Prop :=
  ∀ n, solidLength ts < n → manyToEnd p n ts = some as

theorem LayoutFree.manyToEnd (hp : LayoutFree p) {ts us : List Token} (hskip : skip ts = skip us)
    (n : Nat) : manyToEnd p n ts = manyToEnd p n us := by
  induction n generalizing ts us with
  | zero => rfl
  | succ n ih =>
    have hstep : ∀ ts, (p ts).bind (fun r => (Sql.manyToEnd p n r.2).map (r.1 :: ·))
        = (solid (p ts)).bind fun r => (Sql.manyToEnd p n r.2).map (r.1 :: ·) := by
      intro ts
      cases p ts with
      | none => rfl
      | some r =>
        show (Sql.manyToEnd p n r.2).map _ = (Sql.manyToEnd p n (skip r.2)).map _
        rw [ih (skip_skip r.2).symm]
    show (if skip ts = [] then _ else (p ts).bind _) = if skip us = [] then _ else (p us).bind _
    rw [hskip, hstep, hstep, hp.congr hskip]

theorem readsToEnd_nil : ReadsToEnd p [] [] := by
  intro n hn
  obtain ⟨n, rfl⟩ := Nat.exists_eq_add_one_of_ne_zero (Nat.ne_zero_of_lt hn)
  exact if_pos rfl

theorem ReadsToEnd.layout (hp : LayoutFree p) {b ts : List Token} {as : List α}
    (hb : ∀ t ∈ b, isBlank t) (h : ReadsToEnd p ts as) : ReadsToEnd p (b ++ ts) as := by
  intro n hn
  rw [solidLength_append, solidLength_blanks hb, Nat.zero_add] at hn
  rw [hp.manyToEnd (skip_blanks hb ts)]
  exact h n hn

theorem ReadsToEnd.space (hp : LayoutFree p) {ts : List Token} {as : List α}
    (h : ReadsToEnd p ts as) (c : Char) : ReadsToEnd p (.space c :: ts) as :=
  h.layout hp (b := [.space c]) (by simp [isBlank])

/-- **One part, and the others.** -/
theorem ReadsToEnd.cons (hp : LayoutFree p) (ts : List Token) {rest : List Token} {a : α}
    {as : List α} (ha : Reads p (ts ++ rest) a rest) (hsolid : 0 < solidLength ts)
    (h : ReadsToEnd p rest as) : ReadsToEnd p (ts ++ rest) (a :: as) := by
  intro n hn
  obtain ⟨n, rfl⟩ := Nat.exists_eq_add_one_of_ne_zero (Nat.ne_zero_of_lt hn)
  obtain ⟨r, hr, hskip⟩ := ha.exists_rest
  rw [solidLength_append] at hn
  have hts : skip (ts ++ rest) ≠ [] := by
    intro hnil
    have hlength := solidLength_skip (ts ++ rest)
    have hzero : solidLength [] = 0 := rfl
    rw [hnil, solidLength_append] at hlength
    omega
  rw [Sql.manyToEnd, if_neg hts, hr, Option.bind_some]
  show (Sql.manyToEnd p n r).map _ = _
  rw [hp.manyToEnd hskip, h n (by omega)]
  rfl

end Many

/-! ### Lists -/

section CommaList

variable {α β : Type} {p : Parser α} {g : β → α} {T : β → List Token}

/-- A list with commas, not empty. -/
def commaList (p : Parser α) : Parser (List α) := do
  let a ← p
  let as ← many (do symbol ','; p)
  return a :: as

/-- Items with a comma and some layout between them. -/
def separated (gap : List Token) (parts : List (List Token)) : List Token :=
  (.symbol ',' :: gap : List Token).intercalate parts

theorem separated_cons (gap : List Token) (b : β) (bs : List β) :
    separated gap ((b :: bs).map T)
      = T b ++ bs.flatMap fun c => .symbol ',' :: (gap ++ T c) := by
  induction bs generalizing b with
  | nil => exact List.intercalate_singleton.trans (List.append_nil _).symm
  | cons c bs ih =>
    rw [separated, List.map_cons, List.map_cons, List.intercalate_cons_cons]
    have hlast := ih c
    rw [separated, List.map_cons] at hlast
    rw [hlast, List.flatMap_cons]
    simp

theorem LayoutFree.commaList (hp : LayoutFree p) : LayoutFree (commaList p) :=
  hp.bind fun _ => ((layoutFree_symbol ',').bind fun _ => hp).many.bind fun _ =>
    layoutFree_pure _

/-- **A list is read item by item**, whatever the layout, when each item is read in
front of what meets `E`. -/
theorem reads_commaList {E : List Token → Prop} (hp : LayoutFree p) (gap : List Token)
    (hgap : ∀ t ∈ gap, isBlank t) (b : β) (bs : List β)
    (hread : ∀ c ∈ b :: bs, ∀ rest, E rest → Reads p (T c ++ rest) (g c) rest)
    (hcomma : ∀ us, E (.symbol ',' :: us)) {r : List Token} (hr : E r)
    (hstop : symbol ',' r = none) :
    Reads (commaList p) (separated gap ((b :: bs).map T) ++ r) ((b :: bs).map g) r := by
  have hitem : LayoutFree (symbol ',' >>= fun _ => p) := (layoutFree_symbol ',').bind fun _ => hp
  have hmany := reads_many (g := g) (T := fun c => .symbol ',' :: (gap ++ T c)) hitem hr
    (bind_eq_none hstop) bs
    (by
      intro c hc rest hrest
      have hc := (hread c (List.mem_cons_of_mem _ hc) rest hrest).layout hp hgap
      rw [List.cons_append, List.append_assoc]
      exact (reads_symbol ',' _).bind hp hc)
    (fun c _ rest => hcomma _)
    (fun c _ => List.countP_pos_iff.mpr ⟨_, List.mem_cons_self, rfl⟩)
  have hfirst : Reads p (T b ++ (bs.flatMap (fun c => .symbol ',' :: (gap ++ T c)) ++ r))
      (g b) (bs.flatMap (fun c => .symbol ',' :: (gap ++ T c)) ++ r) := by
    apply hread b List.mem_cons_self
    cases bs with
    | nil => exact hr
    | cons c bs => exact hcomma _
  rw [separated_cons, List.append_assoc]
  exact hfirst.bind (hitem.many.bind fun _ => layoutFree_pure _) (hmany.map _)

theorem LayoutFree.parens (hp : LayoutFree p) : LayoutFree (parens p) :=
  (layoutFree_symbol '(').bind fun _ => hp.bind fun _ => (layoutFree_symbol ')').bind fun _ =>
    layoutFree_pure _

theorem reads_parens (hp : LayoutFree p) {a : α} {ts mid rest : List Token}
    (h : Reads p ts a mid) (hmid : skip mid = .symbol ')' :: rest) :
    Reads (parens p) (.symbol '(' :: ts) a rest := by
  have hclose : Reads (symbol ')') mid () rest :=
    ((layoutFree_symbol ')').congr (by rw [hmid]; rfl)).trans (reads_symbol ')' rest)
  have hinner := h.bind (f := fun a => symbol ')' >>= fun _ => pure a)
    ((layoutFree_symbol ')').bind fun _ => layoutFree_pure a) (hclose.map fun _ => a)
  exact (reads_symbol '(' ts).bind
    (hp.bind fun _ => (layoutFree_symbol ')').bind fun _ => layoutFree_pure _) hinner

end CommaList

/-! ### The tokens of a layout -/

/-- The white space of a printer. -/
def IsGap (g : List Char) : Prop := ∀ c ∈ g, c ∈ [' ', '\n', '\t']

instance (g : List Char) : Decidable (IsGap g) := List.decidableBAll _ g

def gapTokens (g : List Char) : List Token := g.map Token.space

theorem isBlank_gapTokens (g : List Char) : ∀ t ∈ gapTokens g, isBlank t := by
  intro t ht
  obtain ⟨c, -, rfl⟩ := List.mem_map.mp ht
  rfl

theorem separates_gap {c : Char} (h : c ∈ [' ', '\n', '\t']) : Separates c (.space c) := by
  have hcases : c = ' ' ∨ c = '\n' ∨ c = '\t' := by simpa using h
  have hquote : ∀ q : Quote, c ≠ q.char := by
    intro q
    rcases hcases with rfl | rfl | rfl <;> cases q <;> decide
  refine ⟨?_, ?_, hquote, ?_, ?_, ?_⟩ <;> rcases hcases with rfl | rfl | rfl <;> decide

theorem lex_gap {g s : List Char} (hg : IsGap g) {ts : List Token} (hs : lex s = some ts) :
    lex (g ++ s) = some (gapTokens g ++ ts) := by
  induction g with
  | nil => exact hs
  | cons c g ih =>
    obtain ⟨hc, hg⟩ := List.forall_mem_cons.mp hg
    exact lex_append_separates (s := []) rfl (separates_gap hc) (ih hg)

theorem lex_append_gap {g s : List Char} (hg : IsGap g) {ts : List Token} (hs : lex s = some ts) :
    lex (s ++ g) = some (ts ++ gapTokens g) := by
  cases g with
  | nil =>
    rw [gapTokens, List.map_nil, List.append_nil, List.append_nil]
    exact hs
  | cons c g =>
    obtain ⟨hc, hg⟩ := List.forall_mem_cons.mp hg
    have hgap : lex (g ++ []) = some (gapTokens g ++ []) := lex_gap hg rfl
    rw [List.append_nil, List.append_nil] at hgap
    exact lex_append_separates hs (separates_gap hc) hgap

/-- The tokens of a list are the tokens of its items, with the layout in between. -/
theorem lex_separated {β : Type} {f : β → List Char} {T : β → List Token}
    {g : List Char} (hg : IsGap g) (bs : List β) (h : ∀ b ∈ bs, lex (f b) = some (T b)) :
    lex ((',' :: g).intercalate (bs.map f)) = some (separated (gapTokens g) (bs.map T)) := by
  induction bs with
  | nil => rfl
  | cons b bs ih =>
    obtain ⟨hb, hbs⟩ := List.forall_mem_cons.mp h
    cases bs with
    | nil =>
      rw [separated, List.map_singleton, List.map_singleton, List.intercalate_singleton,
        List.intercalate_singleton]
      exact hb
    | cons c bs =>
      have hrest := lex_append hb (c := ',') rfl (lex_gap hg (ih hbs))
      rw [separated, List.map_cons, List.map_cons] at hrest
      rw [separated, List.map_cons, List.map_cons, List.map_cons, List.map_cons,
        List.intercalate_cons_cons, List.intercalate_cons_cons, List.append_assoc,
        List.append_assoc]
      exact hrest

/-! ### Fragments -/

section Fragment

variable {stop : Token → Bool}

theorem layoutFree_fragment (hstop : ∀ t, isBlank t → stop t = false) :
    LayoutFree (fragment stop) := by
  have hblanks : ∀ as : List Token, (∀ t ∈ as, isBlank t) → ∀ ts,
      fragmentAt stop 0 (as ++ ts)
        = (as ++ (fragmentAt stop 0 ts).1, (fragmentAt stop 0 ts).2) := by
    intro as ha ts
    induction as with
    | nil => rfl
    | cons t as ih =>
      obtain ⟨ht, has⟩ := List.forall_mem_cons.mp ha
      have hdeepen : deepen t 0 = 0 := by
        cases t with
        | symbol c => cases ht
        | _ => rfl
      rw [List.cons_append, fragmentAt, if_neg (by simp [hstop t ht]), hdeepen, ih has]
      rfl
  intro ts
  obtain ⟨as, ha, has⟩ := exists_blanks ts
  have htrim := trim_surround ha (List.forall_mem_nil _) (fragmentAt stop 0 (skip ts)).1
  rw [List.append_nil] at htrim
  conv_lhs => rw [has]
  rw [fragment, fragment, hblanks as ha, htrim]

/-- **A fragment is read up to what stops it.** -/
theorem reads_fragment (hstop : ∀ t, isBlank t → stop t = false) {ts rest : List Token}
    (h : sealedAt stop 0 ts) (hrest : Stops stop (skip rest)) :
    Reads (fragment stop) (ts ++ rest) (trim ts) rest := by
  obtain ⟨bs, hb, hbs⟩ := exists_blanks rest
  have hread := fragment_of_sealed (a := []) h hstop (List.forall_mem_nil _) hb hrest
  refine reads_of_eq (r := skip rest) ?_ (skip_skip rest)
  rw [List.nil_append, List.append_assoc, ← hbs] at hread
  exact hread

/-- A fragment that is not blank. -/
def someFragment (stop : Token → Bool) : Parser (List Token) := fun ts =>
  (fragment stop ts).filter fun r => r.1 ≠ []

theorem layoutFree_someFragment (hstop : ∀ t, isBlank t → stop t = false) :
    LayoutFree (someFragment stop) := by
  have hfilter : ∀ r : Option (List Token × List Token),
      solid (r.filter fun r => r.1 ≠ []) = (solid r).filter fun r => r.1 ≠ [] := by
    intro r
    cases r with
    | none => rfl
    | some r =>
      show solid (Option.filter _ (some r)) = Option.filter _ (some (r.1, skip r.2))
      rw [Option.filter_some, Option.filter_some]
      split <;> rfl
  intro ts
  rw [someFragment, someFragment, hfilter, hfilter, layoutFree_fragment hstop ts]

theorem reads_someFragment (hstop : ∀ t, isBlank t → stop t = false) {ts rest : List Token}
    (h : sealedAt stop 0 ts) (hne : trim ts ≠ []) (hrest : Stops stop (skip rest)) :
    Reads (someFragment stop) (ts ++ rest) (trim ts) rest := by
  obtain ⟨r, hr, hskip⟩ := (reads_fragment hstop h hrest).exists_rest
  refine reads_of_eq ?_ hskip
  rw [someFragment, hr, Option.filter_some, if_pos (decide_eq_true hne)]

end Fragment

end SqlalchemyCubrid.Lib.Sql
