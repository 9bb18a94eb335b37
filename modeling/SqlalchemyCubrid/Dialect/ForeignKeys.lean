import SqlalchemyCubrid.Dialect.Catalog
import SqlalchemyCubrid.Dialect.ForeignKeyClause
import Mathlib.Data.List.Infix

/-!
# `get_foreign_keys`

The foreign keys of a table are read out of its `SHOW CREATE TABLE`: the pattern
is scanned over the text, and the entries are sorted by name.

A `Statement` is such a text, cut into clauses: printed foreign keys, and other
text that holds no head of a foreign key.  A clause that is not a foreign key may
still leave `CONSTRAINT [` open, in a comment for instance; when the text goes on,
after the next `]`, as a foreign key does, the pattern takes everything up to
there for the name.  `Clause.Dangles` is this condition.

* `names_of_run`, `run_of_dangles`: a match starts in such a clause exactly when
  it dangles, and then the name it records has a delimiter in it.
* `scan_clause`, `scan_statement`: one clause, and all of them.
* `get_foreign_keys_iff`: the entries are right exactly when no clause dangles.
-/

namespace SqlalchemyCubrid.Dialect

open Lib Python

/-! ### The code -/

section Code

variable [UnicodeData]

/-- What is read out of the text. -/
def foreignKeysOf (schema : Option Str) (ddl : Str) : List ReflectedForeignKey :=
  orderBy ReflectedForeignKey.name ((fkPattern.findIter 0 ddl).map (reflectForeignKey schema))

/-- `get_foreign_keys`.  `created` is what comes of `SHOW CREATE TABLE`: its second
column, or no row.  `viewFails` says whether the query of `_is_view` fails. -/
def getForeignKeys (cat : Catalog) (created : Except PyError (Option Str)) (viewFails : Bool)
    (tableName : Str) (schema : Option Str) : Except PyError (List ReflectedForeignKey) :=
  match created with
  | .ok (some ddl) => .ok (foreignKeysOf schema ddl)
  | .ok none => .ok []
  | .error .databaseError =>
    if viewFails then .error .databaseError
    else if isView cat tableName then .ok []
    else .error (.noSuchTableError tableName)
  | .error e => .error e

end Code

/-! ### Statements -/

/-- `CONSTRAINT\s+\[([^\]]+)\]\s+FOREIGN\s+KEY` -/
def fkHead : Re Char := .seqs [constraintOpen, fkName, fkKey]

def HasHead (s : Str) : Prop := ∃ b ∈ s.tails, fkHead.run b ≠ []

instance (s : Str) : Decidable (HasHead s) :=
  inferInstanceAs (Decidable (∃ b ∈ s.tails, fkHead.run b ≠ []))

inductive Clause where
  | foreignKey (F : ForeignKey) (before text after : Str) (blanks_before : Blanks before)
      (prints : F.Prints text) (blanks_after : Blanks after)
  | other (text : Str) (no_head : ¬ HasHead text)

namespace Clause

def text : Clause → Str
  | foreignKey _ before text after _ _ _ => before ++ (text ++ after)
  | other text _ => text

def fk? : Clause → Option ForeignKey
  | foreignKey F _ _ _ _ _ _ => some F
  | other _ _ => none

end Clause

/-- What stands between two clauses. -/
def delimiters : Str := "(),".toList

abbrev Delimiter := {c : Char // c ∈ delimiters}

def restText : List (Delimiter × Clause) → Str
  | [] => []
  | (d, c) :: ts => d.1 :: (c.text ++ restText ts)

def foreignKeysIn (c : Clause) (ts : List (Delimiter × Clause)) : List ForeignKey :=
  (c :: ts.map Prod.snd).filterMap Clause.fk?

/-- The text of `SHOW CREATE TABLE`: clauses with delimiters between them. -/
structure Statement where
  first : Clause
  rest : List (Delimiter × Clause)
  nodup_names : ((foreignKeysIn first rest).map ForeignKey.name).Nodup

namespace Statement

def text (S : Statement) : Str := S.first.text ++ restText S.rest

def foreignKeys (S : Statement) : List ForeignKey := foreignKeysIn S.first S.rest

end Statement

/-- One entry for each foreign key, sorted by name. -/
def Reports (schema : Option Str) (fks : List ForeignKey) (l : List ReflectedForeignKey) : Prop :=
  l.Perm (fks.map (ForeignKey.entry schema)) ∧ l.Pairwise fun a b => a.name < b.name

/-! ### Clauses that dangle -/

/-- Some `CONSTRAINT [` is not closed. -/
def Opens (s : Str) : Prop := ∃ b ∈ s.tails, ∃ h ∈ constraintOpen.run b, ']' ∉ h.rest

/-- At the next `]` the text goes on as a foreign key does after its name. -/
def Resumes (t : Str) : Prop := fkRest.run (t.dropWhile (· != ']')) ≠ []

def Clause.Dangles (c : Clause) (t : Str) : Prop :=
  match c with
  | .foreignKey _ _ _ _ _ _ _ => False
  | .other s _ => Opens s ∧ Resumes t

def NoneDangles : Clause → List (Delimiter × Clause) → Prop
  | c, [] => ¬ c.Dangles []
  | c, (d, c') :: ts => ¬ c.Dangles (restText ((d, c') :: ts)) ∧ NoneDangles c' ts

/-- What follows a clause. -/
def Follows (t : Str) : Prop := ∀ c v, t = c :: v → c ∈ delimiters

theorem follows_restText (ts : List (Delimiter × Clause)) : Follows (restText ts) := by
  intro c v e
  cases ts with
  | nil => exact absurd e (List.cons_ne_nil c v).symm
  | cons t ts =>
    obtain ⟨d, c'⟩ := t
    have hd : d.1 = c := (List.cons.inj e).1
    rw [← hd]
    exact d.2

theorem punctuation_of_delimiter : ∀ d ∈ delimiters, d ∈ punctuation ∧ d ≠ '[' ∧ d ≠ ']' := by
  decide

theorem avoids_keyword_of_noCase {w : Str} {d : Char} (hd : ∀ l ∈ w, noCase l d = false) :
    (keyword w).Avoids d := by
  induction w with
  | nil => trivial
  | cons l w ih => exact ⟨hd l (by simp), ih fun m hm => hd m (by simp [hm])⟩

theorem avoids_keyword {w : Str} (hw : ∀ l ∈ w, l ∈ capitals) {d : Char} (hd : d ∈ punctuation) :
    (keyword w).Avoids d :=
  avoids_keyword_of_noCase fun l hl => noCase_punctuation l (hw l hl) d hd

theorem avoids_blank {d : Char} (hd : d ∈ punctuation) : blank.Avoids d :=
  ⟨isSpace_punctuation d hd, isSpace_punctuation d hd⟩

theorem avoids_chr {c d : Char} (h : d ≠ c) : (chr c).Avoids d := by
  show (d == c) = false
  simpa using h

theorem avoids_constraintOpen {d : Char} (hd : d ∈ delimiters) : constraintOpen.Avoids d := by
  obtain ⟨hp, hopen, -⟩ := punctuation_of_delimiter d hd
  exact ⟨avoids_keyword (by decide) hp, avoids_blank hp, avoids_chr hopen, trivial⟩

theorem avoids_fkKey {d : Char} (hd : d ∈ delimiters) : fkKey.Avoids d := by
  obtain ⟨hp, -, hclose⟩ := punctuation_of_delimiter d hd
  exact ⟨avoids_chr hclose, avoids_blank hp, avoids_keyword (by decide) hp, avoids_blank hp,
    avoids_keyword (by decide) hp, trivial⟩

theorem noGroup_fkRest : fkRest.NoGroup 1 := by
  have hkeyword (w : Str) : (keyword w).NoGroup 1 := Re.noGroup_word 1 _
  simp [fkRest, fkKey, fkColumns, fkTable, fkOwner, onEvent, actionWords, blank, chr, Re.seqs,
    Re.opt, Re.plus, Re.NoGroup, hkeyword]

/-- A match of the whole pattern, taken apart at the bracket that closes the
name. -/
theorem fkPattern_cases {s : Str} {h : Hit Char} (hh : h ∈ fkPattern.run s) :
    ∃ k ∈ constraintOpen.run s, ∃ u v, k.rest = u ++ ']' :: v ∧ u ≠ [] ∧ ']' ∉ u ∧
      fkRest.run (']' :: v) ≠ [] ∧ h.group 1 = some u := by
  obtain ⟨k, hk, l, hl, rfl⟩ := Re.mem_run_seq.mp hh
  obtain ⟨m, hm, n, hn, rfl⟩ := Re.mem_run_seq.mp hl
  obtain ⟨m', hm', rfl⟩ := Re.mem_run_group.mp hm
  obtain ⟨u, v, huv, hne, hu, rfl⟩ := Re.mem_run_plus.mp hm'
  have hu' : ']' ∉ u := forall_bne_iff.mp hu
  -- the rest starts with the bracket
  obtain ⟨f, hf, -⟩ := Re.mem_run_seq.mp hn
  obtain ⟨z, hz, -⟩ := Re.mem_run_seq.mp hf
  obtain ⟨c, v', e, hc, -⟩ := Re.mem_run_cls.mp hz
  have hv : v = ']' :: v' := by
    have hc' : c = ']' := by simpa using hc
    rw [← hc']
    exact e
  have hname : (((⟨u, [], v⟩ : Hit Char).record 1).app n).group 1 = some u := by
    rw [Re.group_app_of_none (Re.group_eq_none noGroup_fkRest hn)]
    exact Re.group_record _ 1
  refine ⟨k, hk, u, v', by rw [huv, hv], hne, hu', ?_, Re.group_app_of_some hname⟩
  rw [← hv]
  exact List.ne_nil_of_mem hn

/-- Where `CONSTRAINT [` is read and a name after it, the rest decides. -/
theorem run_named_ne_nil {r : Re Char} {s : Str} {k : Hit Char} (hk : k ∈ constraintOpen.run s)
    {u v : Str} (hrest : k.rest = u ++ ']' :: v) (hne : u ≠ []) (hu : ']' ∉ u)
    (hv : r.run (']' :: v) ≠ []) : (Re.seq constraintOpen (.seq fkName r)).run s ≠ [] := by
  have hread : (⟨u, [], ']' :: v⟩ : Hit Char) ∈ (Re.plus (· != ']')).run k.rest :=
    Re.mem_run_plus.mpr ⟨u, ']' :: v, hrest, hne, forall_bne_iff.mpr hu, rfl⟩
  have hname : (⟨u, [], ']' :: v⟩ : Hit Char).record 1 ∈ fkName.run k.rest :=
    Re.mem_run_group.mpr ⟨_, hread, rfl⟩
  exact Re.run_seq_ne_nil_iff.mpr ⟨k, hk, Re.run_seq_ne_nil_iff.mpr ⟨_, hname, hv⟩⟩

theorem fkHead_ne_nil {s : Str} {k : Hit Char} (hk : k ∈ constraintOpen.run s) {u v : Str}
    (hrest : k.rest = u ++ ']' :: v) (hne : u ≠ []) (hu : ']' ∉ u)
    (hv : fkKey.run (']' :: v) ≠ []) : fkHead.run s ≠ [] := by
  apply run_named_ne_nil (r := .seqs [fkKey]) hk hrest hne hu
  obtain ⟨f, hf⟩ := List.exists_mem_of_ne_nil _ hv
  exact Re.run_seq_ne_nil_iff.mpr ⟨f, hf, List.cons_ne_nil _ _⟩

theorem dropWhile_bracket {w : Str} (hw : ']' ∉ w) (v : Str) :
    (w ++ ']' :: v).dropWhile (· != ']') = ']' :: v := by
  rw [List.dropWhile_append_of_pos (forall_bne_iff.mpr hw)]
  rfl

/-- **A match that starts in a text without a head** reads over the character that
stops heads, in the name. -/
theorem dangles_of_run_cons {s b t : Str} {d : Char} (hs : ¬ HasHead s) (hb : b ∈ s.tails)
    (hopen : constraintOpen.Avoids d) (hkey : fkKey.Avoids d) (hd : d ≠ ']') {h : Hit Char}
    (hh : h ∈ fkPattern.run (b ++ d :: t)) :
    Opens s ∧ Resumes (d :: t) ∧ ∃ n, h.group 1 = some n ∧ d ∈ n := by
  obtain ⟨k, hk, u, v, hrest, hne, hu, hv, hgroup⟩ := fkPattern_cases hh
  rw [Re.run_append_cons_of_avoids hopen] at hk
  obtain ⟨k', hk', rfl⟩ := List.mem_map.mp hk
  have hsplit : k'.rest ++ d :: t = u ++ ']' :: v := hrest
  rcases List.append_eq_append_iff.mp hsplit with ⟨x, rfl, hx⟩ | ⟨x, hx', hx⟩
  · -- the name goes on over the character
    have hx' : ']' ∉ x := fun hmem => hu (List.mem_append_right _ hmem)
    have hclosed : ']' ∉ k'.rest := fun hmem => hu (List.mem_append_left _ hmem)
    refine ⟨⟨b, hb, k', hk', hclosed⟩, ?_, k'.rest ++ x, hgroup, ?_⟩
    · rw [Resumes, hx, dropWhile_bracket hx']
      exact hv
    · cases x with
      | nil => exact absurd (List.cons.inj hx).1 hd
      | cons c x =>
        rw [(List.cons.inj hx).1]
        simp
  · -- the name ends in the text, and so does the head
    cases x with
    | nil => exact absurd (List.cons.inj hx).1.symm hd
    | cons c x =>
      obtain ⟨rfl, rfl⟩ := List.cons.inj hx
      have hkey' : fkKey.run (']' :: x) ≠ [] := by
        intro hnil
        obtain ⟨f, hf, -⟩ := Re.run_seq_ne_nil_iff.mp hv
        have happ := Re.run_append_cons_of_avoids hkey (']' :: x) t
        rw [hnil, List.map_nil] at happ
        exact absurd happ (List.ne_nil_of_mem hf)
      exact absurd ⟨b, hb, fkHead_ne_nil hk' hx' hne hu hkey'⟩ hs

theorem run_fkPattern_eq_nil {s b : Str} (hs : ¬ HasHead s) (hb : b ∈ s.tails) :
    fkPattern.run b = [] := by
  by_contra hrun
  obtain ⟨h, hh⟩ := List.exists_mem_of_ne_nil _ hrun
  obtain ⟨k, hk, u, v, hrest, hne, hu, hv, -⟩ := fkPattern_cases hh
  have hkey : fkKey.run (']' :: v) ≠ [] := by
    obtain ⟨f, hf, -⟩ := Re.run_seq_ne_nil_iff.mp hv
    exact List.ne_nil_of_mem hf
  exact hs ⟨b, hb, fkHead_ne_nil hk hrest hne hu hkey⟩

/-- **A match that starts in a clause without a head**: the clause dangles, and the
name recorded reaches over the delimiter. -/
theorem dangles_of_run {s b t : Str} (hs : ¬ HasHead s) (hb : b ∈ s.tails) (ht : Follows t)
    {h : Hit Char} (hh : h ∈ fkPattern.run (b ++ t)) :
    Opens s ∧ Resumes t ∧ ∃ n, h.group 1 = some n ∧ ∃ d ∈ delimiters, d ∈ n := by
  cases t with
  | nil =>
    rw [List.append_nil, run_fkPattern_eq_nil hs hb] at hh
    exact absurd hh List.not_mem_nil
  | cons d t =>
    have hd : d ∈ delimiters := ht d t rfl
    obtain ⟨hopens, hresumes, n, hn, hdn⟩ := dangles_of_run_cons hs hb (avoids_constraintOpen hd)
      (avoids_fkKey hd) (punctuation_of_delimiter d hd).2.2 hh
    exact ⟨hopens, hresumes, n, hn, d, hd, hdn⟩

theorem resumes_split {t : Str} (h : Resumes t) :
    ∃ w v, t = w ++ ']' :: v ∧ ']' ∉ w ∧ fkRest.run (']' :: v) ≠ [] := by
  have hsplit := List.takeWhile_append_dropWhile (p := (· != ']')) (l := t)
  rw [Resumes] at h
  cases hdrop : t.dropWhile (· != ']') with
  | nil =>
    rw [hdrop] at h
    exact absurd rfl h
  | cons c v =>
    have hc : c = ']' := by
      have hhead := List.head_dropWhile_not (· != ']') (l := t) (by rw [hdrop]; simp)
      simpa [hdrop] using hhead
    rw [hdrop, hc] at hsplit h
    refine ⟨_, v, hsplit.symm, ?_, h⟩
    intro hmem
    exact absurd (List.mem_takeWhile_imp hmem) (by decide)

/-- **In a clause that dangles a match starts.** -/
theorem run_of_dangles {s t : Str} (hopens : Opens s) (hresumes : Resumes t) (ht : Follows t) :
    ∃ a b, s = a ++ b ∧ b ≠ [] ∧ fkPattern.run (b ++ t) ≠ [] := by
  obtain ⟨b, hb, k, hk, hrest⟩ := hopens
  obtain ⟨a, e⟩ := (List.mem_tails b s).mp hb
  have hne : b ≠ [] := by
    rintro rfl
    exact absurd hk List.not_mem_nil
  refine ⟨a, b, e.symm, hne, ?_⟩
  obtain ⟨w, v, rfl, hw, hv⟩ := resumes_split hresumes
  cases w with
  | nil =>
    have hd := ht ']' v rfl
    exact absurd rfl (punctuation_of_delimiter ']' hd).2.2
  | cons d w =>
    have hd : d ∈ delimiters := ht d (w ++ ']' :: v) rfl
    have hk' : k.before (d :: (w ++ ']' :: v))
        ∈ constraintOpen.run (b ++ d :: (w ++ ']' :: v)) := by
      rw [Re.run_append_cons_of_avoids (avoids_constraintOpen hd)]
      exact List.mem_map_of_mem hk
    have hname : ']' ∉ k.rest ++ d :: w := by
      rw [List.mem_append]
      rintro (hmem | hmem)
      · exact hrest hmem
      · exact hw hmem
    refine run_named_ne_nil hk' ?_ (List.append_ne_nil_of_right_ne_nil _ (List.cons_ne_nil d w))
      hname hv
    show k.rest ++ d :: (w ++ ']' :: v) = _
    rw [List.append_assoc]
    rfl

/-! ### Scanning -/

/-- Nothing starts at a character no head starts with. -/
theorem run_fkPattern_of_ne {c : Char} (h : noCase 'C' c = false) (s : Str) :
    fkPattern.run (c :: s) = [] :=
  Re.run_seq_of_left (Re.run_seq_of_left (run_keyword_of_ne h s) _) _

theorem reads_constraintOpen : constraintOpen.Reads := by
  intro s h hh
  obtain ⟨k, hk, l, -, rfl⟩ := Re.mem_run_seq.mp hh
  obtain ⟨m, hm, n, -, rfl⟩ := Re.mem_run_seq.mp hk
  obtain ⟨c, t, -, -, rfl⟩ := Re.mem_run_cls.mp hm
  exact List.cons_ne_nil _ _

theorem reads_fkPattern : fkPattern.Reads := by
  intro s h hh
  obtain ⟨k, hk, l, -, rfl⟩ := Re.mem_run_seq.mp hh
  exact List.append_ne_nil_of_left_ne_nil (reads_constraintOpen s k hk) _

theorem findIter_blanks {b : Str} (hb : Blanks b) (t : Str) :
    fkPattern.findIter 0 (b ++ t) = fkPattern.findIter 0 t := by
  apply Re.findIter_skip
  intro a u e hu
  cases u with
  | nil => exact absurd rfl hu
  | cons c u =>
    have hc : isSpace c = true := hb c (by rw [e]; simp)
    exact run_fkPattern_of_ne (noCase_space (by decide) hc) (u ++ t)

theorem stops_of_follows {b t : Str} (hb : Blanks b) (ht : Follows t) : Stops (b ++ t) :=
  ⟨b, t, rfl, hb, fun c v e => (punctuation_of_delimiter c (ht c v e)).1⟩

theorem ForeignKey.Prints.ne_nil {F : ForeignKey} {x : Str} (h : F.Prints x) : x ≠ [] := by
  obtain ⟨_, _, ⟨k, _, hk, -, rfl⟩, -, rfl⟩ := h
  have hk' := hk.ne_nil (by decide)
  simp [hk']

section Scan

variable [UnicodeData]

/-- **One clause**: it is read for what it is, or it dangles and a name with a
delimiter is reported. -/
theorem scan_clause (schema : Option Str) (c : Clause) {t : Str} (ht : Follows t) :
    (¬ c.Dangles t ∧ ∃ hits, fkPattern.findIter 0 (c.text ++ t) = hits ++ fkPattern.findIter 0 t ∧
        hits.map (reflectForeignKey schema) = c.fk?.toList.map (ForeignKey.entry schema)) ∨
      (c.Dangles t ∧ ∃ h ∈ fkPattern.findIter 0 (c.text ++ t),
        ∃ n, h.group 1 = some n ∧ ∃ d ∈ delimiters, d ∈ n) := by
  cases c with
  | foreignKey F before text after hbefore hprints hafter =>
    refine Or.inl ⟨id, ?_⟩
    obtain ⟨g, hread, hentry⟩ := first_fkPattern hprints (stops_of_follows hafter ht) schema
    refine ⟨[⟨text, g, after ++ t⟩], ?_, ?_⟩
    · show fkPattern.findIter 0 (before ++ (text ++ after) ++ t) = _
      rw [List.append_assoc, List.append_assoc, findIter_blanks hbefore,
        Re.findIter_hit hprints.ne_nil hread, findIter_blanks hafter]
      rfl
    · rw [List.map_singleton, hentry]
      rfl
  | other s hs =>
    rcases Re.findIter_cases reads_fkPattern s t with hnone | ⟨a, b, h, e, hb, hh, hscan⟩
    · refine Or.inl ⟨?_, [], Re.findIter_skip hnone, rfl⟩
      rintro ⟨hopens, hresumes⟩
      obtain ⟨a, b, e, hb, hne⟩ := run_of_dangles hopens hresumes ht
      exact hne (hnone a b e hb)
    · have hsuffix : b ∈ s.tails := (List.mem_tails b s).mpr ⟨a, e.symm⟩
      obtain ⟨hopens, hresumes, hname⟩ := dangles_of_run hs hsuffix ht (Re.mem_run_of_first hh)
      refine Or.inr ⟨⟨hopens, hresumes⟩, h, ?_, hname⟩
      show h ∈ fkPattern.findIter 0 (s ++ t)
      rw [hscan]
      exact List.mem_cons_self

/-- **All clauses**, by induction on those still to come. -/
theorem scan_statement (schema : Option Str) (c : Clause) (ts : List (Delimiter × Clause)) :
    (NoneDangles c ts ∧
        (fkPattern.findIter 0 (c.text ++ restText ts)).map (reflectForeignKey schema)
          = (foreignKeysIn c ts).map (ForeignKey.entry schema)) ∨
      (¬ NoneDangles c ts ∧ ∃ h ∈ fkPattern.findIter 0 (c.text ++ restText ts),
        ∃ n, h.group 1 = some n ∧ ∃ d ∈ delimiters, d ∈ n) := by
  induction ts generalizing c with
  | nil =>
    have hnil : fkPattern.findIter 0 ([] : Str) = [] := rfl
    rcases scan_clause schema c (follows_restText []) with ⟨hc, hits, hscan, hmap⟩ | ⟨hc, hbad⟩
    · refine Or.inl ⟨hc, ?_⟩
      rw [hscan, restText, hnil, List.append_nil, hmap, foreignKeysIn, List.map_nil,
        List.filterMap_cons, List.filterMap_nil]
      cases c.fk? <;> rfl
    · exact Or.inr ⟨fun h => h hc, hbad⟩
  | cons t ts ih =>
    obtain ⟨d, c'⟩ := t
    have hd : noCase 'C' d.1 = false :=
      noCase_punctuation 'C' (by decide) d.1 (punctuation_of_delimiter d.1 d.2).1
    have hrest : fkPattern.findIter 0 (restText ((d, c') :: ts))
        = fkPattern.findIter 0 (c'.text ++ restText ts) :=
      Re.findIter_cons_of_nil (run_fkPattern_of_ne hd _)
    rcases scan_clause schema c (follows_restText ((d, c') :: ts)) with
      ⟨hc, hits, hscan, hmap⟩ | ⟨hc, hbad⟩
    · rw [hrest] at hscan
      rcases ih c' with ⟨hts, hok⟩ | ⟨hts, h, hmem, hbad⟩
      · refine Or.inl ⟨⟨hc, hts⟩, ?_⟩
        rw [hscan, List.map_append, hmap, hok, foreignKeysIn, foreignKeysIn, List.map_cons,
          List.filterMap_cons (l := c' :: ts.map Prod.snd)]
        cases c.fk? <;> rfl
      · refine Or.inr ⟨fun h => hts h.2, h, ?_, hbad⟩
        rw [hscan]
        exact List.mem_append_right hits hmem
    · exact Or.inr ⟨fun h => h.1 hc, hbad⟩

omit [UnicodeData] in
/-- A list with an entry whose name has a delimiter does not report foreign
keys. -/
theorem not_reports_of_delimiter {schema : Option Str} {fks : List ForeignKey}
    {l : List ReflectedForeignKey} {r : ReflectedForeignKey} (hr : r ∈ l) {d : Char}
    (hd : d ∈ delimiters) (hname : d ∈ r.name) : ¬ Reports schema fks l := by
  rintro ⟨hperm, -⟩
  obtain ⟨F, -, rfl⟩ := List.mem_map.mp (hperm.mem_iff.mp hr)
  exact F.isIdentifier_name.2 d hname (punctuation_of_delimiter d hd).1

/-- **`get_foreign_keys` reports the foreign keys of a statement exactly when none of
its clauses dangles.** -/
theorem get_foreign_keys_iff (cat : Catalog) (viewFails : Bool) (tableName : Str)
    (schema : Option Str) (S : Statement) :
    (∃ l, getForeignKeys cat (.ok (some S.text)) viewFails tableName schema = .ok l ∧
        Reports schema S.foreignKeys l) ↔ NoneDangles S.first S.rest := by
  let hits := (fkPattern.findIter 0 S.text).map (reflectForeignKey schema)
  have hcall : getForeignKeys cat (.ok (some S.text)) viewFails tableName schema
      = .ok (orderBy ReflectedForeignKey.name hits) := rfl
  rcases scan_statement schema S.first S.rest with
    ⟨hnone, hmap⟩ | ⟨hsome, h, hmem, n, hn, d, hd, hdn⟩
  · refine ⟨fun _ => hnone, fun _ => ⟨_, hcall, ?_, ?_⟩⟩
    · have hhits : hits = S.foreignKeys.map (ForeignKey.entry schema) := hmap
      rw [← hhits]
      exact orderBy_perm _ _
    · apply pairwise_lt_orderBy
      have hnames : hits.map ReflectedForeignKey.name = S.foreignKeys.map ForeignKey.name := by
        show (hits).map _ = _
        rw [show hits = S.foreignKeys.map (ForeignKey.entry schema) from hmap, List.map_map]
        rfl
      rw [hnames]
      exact S.nodup_names
  · refine ⟨?_, fun hnone => absurd hnone hsome⟩
    rintro ⟨l, hl, hreports⟩
    have hlist : l = orderBy ReflectedForeignKey.name hits :=
      (Except.ok.inj (hcall.symm.trans hl)).symm
    have hentry : reflectForeignKey schema h ∈ l := by
      rw [hlist, mem_orderBy]
      exact List.mem_map_of_mem hmem
    have hname : d ∈ (reflectForeignKey schema h).name := by
      show d ∈ (h.group 1).getD []
      rw [hn]
      exact hdn
    exact absurd hreports (not_reports_of_delimiter hentry hd hname)

end Scan

/-- `CONSTRAINT [fk] FOREIGN KEY ([c]) REFERENCES [r] ([id])` -/
def sampleForeignKey : ForeignKey where
  name := "fk".toList
  columns := ["c".toList]
  owner := none
  table := "r".toList
  referred := ["id".toList]
  onDelete := none
  onUpdate := none
  isIdentifier_name := by decide
  columns_ne_nil := by decide
  isIdentifier_columns := by decide
  isIdentifier_owner := by decide
  isIdentifier_table := by decide
  no_dot := by decide
  length_referred := rfl
  isIdentifier_referred := by decide

/-- A column with `CONSTRAINT [` in its comment, and then the foreign key. -/
def commentedStatement : Statement where
  first := .other "CREATE TABLE [t] ".toList (by decide)
  rest :=
    [(⟨'(', by decide⟩, .other "[c] INTEGER COMMENT 'CONSTRAINT ['".toList (by decide)),
      (⟨',', by decide⟩, .foreignKey sampleForeignKey " ".toList sampleForeignKey.print []
        (by decide) sampleForeignKey.prints_print (by decide)),
      (⟨')', by decide⟩, .other [] (by decide))]
  nodup_names := by decide

/-- **The comment runs into the name.** -/
theorem comment_runs_into_name :
    let _ := asciiData
    commentedStatement.text = ("CREATE TABLE [t] ([c] INTEGER COMMENT 'CONSTRAINT [',"
        ++ " CONSTRAINT [fk] FOREIGN KEY ([c]) REFERENCES [r] ([id]))").toList ∧
      getForeignKeys ⟨[], [], []⟩ (.ok (some commentedStatement.text)) false "t".toList none
        = .ok [⟨"', CONSTRAINT [fk".toList, ["c".toList], none, "r".toList, ["id".toList], []⟩] ∧
      ¬ ∃ l, getForeignKeys ⟨[], [], []⟩ (.ok (some commentedStatement.text)) false "t".toList none
          = .ok l ∧ Reports none commentedStatement.foreignKeys l := by
  intro _
  have hlist : getForeignKeys ⟨[], [], []⟩ (.ok (some commentedStatement.text)) false
      "t".toList none
      = .ok [⟨"', CONSTRAINT [fk".toList, ["c".toList], none, "r".toList, ["id".toList], []⟩] := by
    decide
  refine ⟨by decide, hlist, ?_⟩
  rintro ⟨l, hl, hreports⟩
  have hmem : (⟨"', CONSTRAINT [fk".toList, ["c".toList], none, "r".toList, ["id".toList], []⟩ :
      ReflectedForeignKey) ∈ l := by
    rw [← Except.ok.inj (hlist.symm.trans hl)]
    exact List.mem_singleton_self _
  exact not_reports_of_delimiter hmem (d := ',') (by decide) (by decide) hreports

end SqlalchemyCubrid.Dialect
