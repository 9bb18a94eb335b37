import SqlalchemyCubrid.Lib.SqlLexer
import Mathlib.Data.List.DropRight

/-!
# Fragments of a statement

A statement is made of fragments, which are expressions and the like, and of the
words between them.  `fragment stop` reads up to the first token that stops it
outside of parentheses; blanks at its ends are layout.

`fragment_of_sealed` is the rule: a text whose parentheses are closed and that
keeps the words that would stop it inside of them is read as a whole.
`fragments_join` says the same of lists, and `manyToEnd_flatMap` of options in a
row.
-/

namespace SqlalchemyCubrid.Lib.Sql

/-- The depth of parentheses behind a token. -/
def deepen (t : Token) (depth : Nat) : Nat :=
  if t = .symbol '(' then depth + 1 else if t = .symbol ')' then depth - 1 else depth

/-- The tokens up to the first that stops, and the rest. -/
def fragmentAt (stop : Token → Bool) : Nat → List Token → List Token × List Token
  | _, [] => ([], [])
  | depth, t :: ts =>
    if depth = 0 ∧ stop t then ([], t :: ts)
    else
      (t :: (fragmentAt stop (deepen t depth) ts).1, (fragmentAt stop (deepen t depth) ts).2)

/-- Are the parentheses closed, and all tokens that stop inside of them? -/
def sealedAt (stop : Token → Bool) : Nat → List Token → Bool
  | depth, [] => depth == 0
  | depth, t :: ts =>
    (0 < depth || (!stop t && t ≠ .symbol ')')) && sealedAt stop (deepen t depth) ts

/-- Without the blanks at the ends. -/
def trim (ts : List Token) : List Token := (ts.dropWhile isBlank).rdropWhile isBlank

def fragment (stop : Token → Bool) : Parser (List Token) := fun ts =>
  some (trim (fragmentAt stop 0 ts).1, (fragmentAt stop 0 ts).2)

def stopWord (ws : List (List Char)) : Token → Bool
  | .word s => s.map Char.toUpper ∈ ws
  | _ => false

def stopComma (t : Token) : Bool := t = .symbol ','

/-- Fragments with commas between them; the first argument bounds their number. -/
def fragmentsAt (stop : Token → Bool) : Nat → Parser (List (List Token))
  | 0, _ => none
  | n + 1, ts =>
    match fragmentAt (fun t => stopComma t || stop t) 0 ts with
    | (x, .symbol ',' :: ts) => (fragmentsAt stop n ts).map fun (xs, ts) => (trim x :: xs, ts)
    | (x, ts) => some ([trim x], ts)

def fragments (stop : Token → Bool) : Parser (List (List Token)) := fun ts =>
  fragmentsAt stop (ts.length + 1) ts

/-- `p` again and again, up to the end; the first argument bounds how often. -/
def manyToEnd {α : Type} (p : Parser α) : Nat → List Token → Option (List α)
  | 0, _ => none
  | n + 1, ts =>
    if skip ts = [] then some []
    else (p ts).bind fun (x, ts) => (manyToEnd p n ts).map (x :: ·)

/-! ### Fragments -/

section Fragment

variable {stop : Token → Bool}

/-- The end of the tokens, or a token that stops. -/
def Stops (stop : Token → Bool) (ts : List Token) : Prop := ∀ t ∈ ts.head?, stop t = true

theorem stops_nil : Stops stop [] := by
  intro t ht
  cases ht

theorem stops_cons {t : Token} {ts : List Token} (h : stop t = true) : Stops stop (t :: ts) := by
  intro u hu
  cases hu
  exact h

theorem fragmentAt_stops {rest : List Token} (h : Stops stop rest) :
    fragmentAt stop 0 rest = ([], rest) := by
  cases rest with
  | nil => rfl
  | cons t rest => exact if_pos ⟨rfl, h t rfl⟩

theorem fragmentAt_append {depth : Nat} {ts rest : List Token} (h : sealedAt stop depth ts)
    (hrest : Stops stop rest) : fragmentAt stop depth (ts ++ rest) = (ts, rest) := by
  induction ts generalizing depth with
  | nil =>
    have hzero : depth = 0 := by simpa [sealedAt] using h
    rw [hzero]
    exact fragmentAt_stops hrest
  | cons t ts ih =>
    rw [sealedAt, Bool.and_eq_true] at h
    have hgo : ¬ (depth = 0 ∧ stop t = true) := by
      rintro ⟨rfl, ht⟩
      simp [ht] at h
    rw [List.cons_append, fragmentAt, if_neg hgo, ih h.2]

/-- A fragment and another one. -/
theorem sealedAt_append {depth : Nat} {ts us : List Token} (h : sealedAt stop depth ts)
    (hus : sealedAt stop 0 us) : sealedAt stop depth (ts ++ us) := by
  induction ts generalizing depth with
  | nil =>
    have hzero : depth = 0 := by simpa [sealedAt] using h
    rw [hzero]
    exact hus
  | cons t ts ih =>
    rw [sealedAt, Bool.and_eq_true] at h
    rw [List.cons_append, sealedAt, Bool.and_eq_true]
    exact ⟨h.1, ih h.2⟩

/-- Inside of parentheses nothing stops. -/
theorem sealedAt_succ {s : Token → Bool} {depth : Nat} {ts : List Token}
    (h : sealedAt stop depth ts) : sealedAt s (depth + 1) (ts ++ [.symbol ')']) := by
  induction ts generalizing depth with
  | nil =>
    have hzero : depth = 0 := by simpa [sealedAt] using h
    rw [hzero]
    simp [sealedAt, deepen]
  | cons t ts ih =>
    rw [sealedAt, Bool.and_eq_true] at h
    have hdeepen : deepen t (depth + 1) = deepen t depth + 1 := by
      rw [deepen, deepen]
      split
      · rfl
      split
      · rename_i hclose
        have hpos : 0 < depth := by simpa [hclose] using h.1
        omega
      · rfl
    rw [List.cons_append, sealedAt, hdeepen, Bool.and_eq_true]
    exact ⟨by simp, ih h.2⟩

/-- Fewer tokens that stop. -/
theorem sealedAt_mono {stop' : Token → Bool} (hstop : ∀ t, stop' t = true → stop t = true)
    {depth : Nat} {ts : List Token} (h : sealedAt stop depth ts) : sealedAt stop' depth ts := by
  induction ts generalizing depth with
  | nil => exact h
  | cons t ts ih =>
    rw [sealedAt, Bool.and_eq_true] at h ⊢
    refine ⟨?_, ih h.2⟩
    rcases Bool.or_eq_true_iff.mp h.1 with hdepth | ht
    · rw [hdepth, Bool.true_or]
    · obtain ⟨ht, hclose⟩ := Bool.and_eq_true_iff.mp ht
      have hgo : stop' t = false := by
        rw [← Bool.not_eq_true]
        intro h'
        rw [hstop t h'] at ht
        cases ht
      rw [hgo, hclose, Bool.not_false, Bool.true_and, Bool.or_true]

/-! ### Blanks -/

theorem dropWhile_blanks {as ts : List Token} (ha : ∀ t ∈ as, isBlank t) :
    (as ++ ts).dropWhile isBlank = ts.dropWhile isBlank :=
  List.dropWhile_append_of_pos ha

/-- **Layout around a fragment does not count.** -/
theorem trim_surround {as bs : List Token} (ha : ∀ t ∈ as, isBlank t) (hb : ∀ t ∈ bs, isBlank t)
    (ts : List Token) : trim (as ++ ts ++ bs) = trim ts := by
  rw [trim, trim, List.append_assoc, dropWhile_blanks ha]
  induction ts with
  | nil =>
    have hall : bs.dropWhile isBlank = [] := List.dropWhile_eq_nil_iff.mpr hb
    rw [List.nil_append, hall]
    rfl
  | cons t ts ih =>
    by_cases ht : isBlank t
    · rw [List.cons_append, List.dropWhile_cons_of_pos ht, List.dropWhile_cons_of_pos ht]
      exact ih
    · rw [List.cons_append, List.dropWhile_cons_of_neg ht, List.dropWhile_cons_of_neg ht,
        ← List.cons_append, List.rdropWhile, List.reverse_append,
        List.dropWhile_append_of_pos fun u hu => hb u (List.mem_reverse.mp hu)]
      rfl

theorem trim_eq_nil_iff {ts : List Token} : trim ts = [] ↔ ∀ t ∈ ts, isBlank t := by
  rw [trim, List.rdropWhile_eq_nil_iff]
  apply Iff.intro
  · intro h
    by_contra hne
    have hdrop : ts.dropWhile isBlank ≠ [] := fun hnil => hne (List.dropWhile_eq_nil_iff.mp hnil)
    have hhead := List.head_dropWhile_not isBlank hdrop
    rw [h _ (List.head_mem hdrop)] at hhead
    cases hhead
  · intro h t ht
    exact h t ((List.dropWhile_sublist _).subset ht)

/-- No blanks at the ends. -/
def Snug (ts : List Token) : Prop :=
  (∀ t ∈ ts.head?, isBlank t = false) ∧ ∀ t ∈ ts.getLast?, isBlank t = false

theorem snug_of_forall {ts : List Token} (h : ∀ t ∈ ts, isBlank t = false) : Snug ts :=
  ⟨fun _ ht => h _ (List.mem_of_mem_head? ht), fun _ ht => h _ (List.mem_of_mem_getLast? ht)⟩

theorem snug_singleton {t : Token} (h : isBlank t = false) : Snug [t] :=
  snug_of_forall fun _ hu => List.mem_singleton.mp hu ▸ h

theorem Snug.append {as bs : List Token} (ha : Snug as) (hb : Snug bs) (has : as ≠ [])
    (hbs : bs ≠ []) (ms : List Token) : Snug (as ++ (ms ++ bs)) := by
  constructor
  · rw [List.head?_append_of_ne_nil as has]
    exact ha.1
  · rw [List.getLast?_append_of_ne_nil as (List.append_ne_nil_of_right_ne_nil ms hbs),
      List.getLast?_append_of_ne_nil ms hbs]
    exact hb.2

theorem trim_of_snug {ts : List Token} (h : Snug ts) : trim ts = ts := by
  have hhead : ts.dropWhile isBlank = ts := by
    cases ts with
    | nil => rfl
    | cons t ts => exact List.dropWhile_cons_of_neg (by simp [h.1 t rfl])
  rw [trim, hhead, List.rdropWhile_eq_self_iff]
  intro hne
  rw [h.2 _ (List.getLast?_eq_some_getLast hne)]
  exact Bool.false_ne_true

/-- A token in front that opens and closes nothing. -/
theorem sealedAt_cons {stop : Token → Bool} {t : Token} {ts : List Token} (ht : stop t = false)
    (hopen : t ≠ .symbol '(') (hclose : t ≠ .symbol ')') (h : sealedAt stop 0 ts) :
    sealedAt stop 0 (t :: ts) := by
  have hdeepen : deepen t 0 = 0 := by rw [deepen, if_neg hopen, if_neg hclose]
  rw [sealedAt, ht, hdeepen, h]
  simp [hclose]

theorem sealedAt_of_forall {stop : Token → Bool} {ts : List Token}
    (h : ∀ t ∈ ts, stop t = false ∧ t ≠ .symbol '(' ∧ t ≠ .symbol ')') : sealedAt stop 0 ts := by
  induction ts with
  | nil => rfl
  | cons t ts ih =>
    obtain ⟨⟨ht, hopen, hclose⟩, hts⟩ := List.forall_mem_cons.mp h
    exact sealedAt_cons ht hopen hclose (ih hts)

theorem sealedAt_blanks {stop : Token → Bool} (hstop : ∀ t, isBlank t → stop t = false)
    {bs : List Token} (hb : ∀ t ∈ bs, isBlank t) : sealedAt stop 0 bs := by
  apply sealedAt_of_forall
  intro t ht
  refine ⟨hstop t (hb t ht), ?_, ?_⟩
  · rintro rfl
    cases hb _ ht
  · rintro rfl
    cases hb _ ht

/-- **A fragment is read as a whole**, with the layout around it. -/
theorem fragment_of_sealed {a ts bs rest : List Token} (h : sealedAt stop 0 ts)
    (hstop : ∀ t, isBlank t → stop t = false) (ha : ∀ t ∈ a, isBlank t)
    (hb : ∀ t ∈ bs, isBlank t) (hrest : Stops stop rest) :
    fragment stop (a ++ ts ++ bs ++ rest) = some (trim ts, rest) := by
  have hsealed : sealedAt stop 0 (a ++ ts ++ bs) := by
    refine sealedAt_append (sealedAt_append (sealedAt_blanks hstop ha) h) ?_
    exact sealedAt_blanks hstop hb
  rw [fragment, fragmentAt_append hsealed hrest, trim_surround ha hb]

end Fragment

/-! ### Lists of fragments -/

section Lists

variable {β : Type} {stop : Token → Bool} {T : β → List Token}

/-- A list item, with the layout around it. -/
theorem fragmentAt_item {as ts bs rest : List Token}
    (h : sealedAt (fun t => stopComma t || stop t) 0 ts)
    (hstop : ∀ t, isBlank t → stop t = false) (ha : ∀ t ∈ as, isBlank t)
    (hb : ∀ t ∈ bs, isBlank t) (hrest : Stops (fun t => stopComma t || stop t) rest) :
    fragmentAt (fun t => stopComma t || stop t) 0 (as ++ ts ++ bs ++ rest)
      = (as ++ ts ++ bs, rest) := by
  have hblank : ∀ t, isBlank t → (stopComma t || stop t) = false := by
    intro t ht
    have hcomma : t ≠ .symbol ',' := by
      rintro rfl
      cases ht
    rw [hstop t ht]
    simp [stopComma, hcomma]
  apply fragmentAt_append ?_ hrest
  refine sealedAt_append (sealedAt_append (sealedAt_blanks hblank ha) h) ?_
  exact sealedAt_blanks hblank hb

theorem fragmentsAt_join (hstop : ∀ t, isBlank t → stop t = false)
    (hcomma : stop (.symbol ',') = false) (b : β) (bs : List β)
    (h : ∀ x ∈ b :: bs, sealedAt (fun t => stopComma t || stop t) 0 (T x))
    {as tail rest : List Token} (ha : ∀ t ∈ as, isBlank t) (htail : ∀ t ∈ tail, isBlank t)
    (hrest : Stops stop rest) {n : Nat} (hn : bs.length < n) :
    fragmentsAt stop n (as ++ joinTokens ((b :: bs).map T) ++ tail ++ rest)
      = some ((b :: bs).map (trim ∘ T), rest) := by
  induction bs generalizing b as n with
  | nil =>
    obtain ⟨n, rfl⟩ := Nat.exists_eq_succ_of_ne_zero (by omega : n ≠ 0)
    have hone : joinTokens ([b].map T) = T b := List.intercalate_singleton
    have hends : Stops (fun t => stopComma t || stop t) rest := by
      intro t ht
      show (stopComma t || stop t) = true
      rw [hrest t ht, Bool.or_true]
    have htrim := trim_surround ha htail (T b)
    rw [fragmentsAt, hone, fragmentAt_item (h b (by simp)) hstop ha htail hends]
    split
    · rename_i heq
      obtain ⟨-, rfl⟩ := Prod.mk.inj heq
      rw [hrest _ rfl] at hcomma
      cases hcomma
    · rename_i heq
      obtain ⟨rfl, rfl⟩ := Prod.mk.inj heq
      rw [htrim]
      rfl
  | cons c bs ih =>
    obtain ⟨n, rfl⟩ := Nat.exists_eq_succ_of_ne_zero (by omega : n ≠ 0)
    have hsplit : as ++ joinTokens ((b :: c :: bs).map T) ++ tail ++ rest
        = as ++ T b ++ [] ++ .symbol ','
          :: ([.space ' '] ++ joinTokens ((c :: bs).map T) ++ tail ++ rest) := by
      rw [joinTokens_cons_cons]
      simp
    have hends : Stops (fun t => stopComma t || stop t)
        (.symbol ',' :: ([.space ' '] ++ joinTokens ((c :: bs).map T) ++ tail ++ rest)) :=
      stops_cons rfl
    have hitem := fragmentAt_item (h b (by simp)) hstop ha (List.forall_mem_nil _) hends
    have hblank : ∀ t ∈ [Token.space ' '], isBlank t := by simp [isBlank]
    have hn' : bs.length < n := Nat.lt_of_succ_lt_succ hn
    have hrest' := ih c (fun x hx => h x (List.mem_cons_of_mem _ hx)) hblank hn'
    rw [fragmentsAt, hsplit, hitem]
    simp only [hrest', trim_surround ha (List.forall_mem_nil _)]
    rfl

/-- **A list of fragments is read item by item.** -/
theorem fragments_join (hstop : ∀ t, isBlank t → stop t = false)
    (hcomma : stop (.symbol ',') = false) (b : β) (bs : List β)
    (h : ∀ x ∈ b :: bs, sealedAt (fun t => stopComma t || stop t) 0 (T x))
    {a tail rest : List Token} (ha : ∀ t ∈ a, isBlank t) (htail : ∀ t ∈ tail, isBlank t)
    (hrest : Stops stop rest) :
    fragments stop (a ++ joinTokens ((b :: bs).map T) ++ tail ++ rest)
      = some ((b :: bs).map (trim ∘ T), rest) := by
  apply fragmentsAt_join hstop hcomma b bs h ha htail hrest
  have := length_joinTokens T b bs
  simp only [List.length_append]
  omega

/-! ### Options in a row -/

variable {α : Type} {p : Parser α} {f : β → α}

/-- **Options are read one by one**, when each of them is read whatever follows. -/
theorem manyToEnd_flatMap (hp : ∀ b rest, p (T b ++ rest) = some (f b, rest))
    (hskip : ∀ b rest, skip (T b ++ rest) ≠ []) (bs : List β) {n : Nat} (hn : bs.length < n) :
    manyToEnd p n (bs.flatMap T) = some (bs.map f) := by
  induction bs generalizing n with
  | nil =>
    obtain ⟨n, rfl⟩ := Nat.exists_eq_succ_of_ne_zero (by omega : n ≠ 0)
    exact if_pos rfl
  | cons b bs ih =>
    obtain ⟨n, rfl⟩ := Nat.exists_eq_succ_of_ne_zero (by omega : n ≠ 0)
    rw [List.flatMap_cons, manyToEnd, if_neg (hskip b _), hp, Option.bind_some]
    show (manyToEnd p n (bs.flatMap T)).map (f b :: ·) = _
    rw [ih (by simpa using hn)]
    rfl

end Lists

end SqlalchemyCubrid.Lib.Sql
