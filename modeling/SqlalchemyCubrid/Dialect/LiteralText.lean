import SqlalchemyCubrid.Lib.SqlLexer
import SqlalchemyCubrid.Dialect.ForeignKeys

/-!
# String literals in `SHOW CREATE TABLE`

`get_foreign_keys` scans the text and knows nothing of string literals.  A `TableDdl`
is such a text with its literals: foreign keys, and between them plain text with
literals in it.  `TableDdl.Quiet` says that no match of the pattern starts in a
literal.

* `run_before_key`: a match that starts earlier ends before the next foreign key, or
  records what no foreign key has.
* `scan_of_quiet`, `scan_count`: the scan of a whole statement, quiet or not.
* `literal_text_iff`: the literals do not matter exactly when they are quiet.
-/

namespace SqlalchemyCubrid.Dialect

open Lib Python

/-! ### A foreign key, seen from before -/

/-- What a match that starts earlier finds in the text of a foreign key. -/
structure KeyAhead (z : Str) : Prop where
  closes : ∃ y y', z = y ++ ']' :: y' ∧ ']' ∉ y ∧ (fkColumns 4).run y' = []
  opens : ∃ y y', z = y ++ '(' :: y' ∧ ')' ∉ y
  no_table : fkTable.run z = []
  no_event : ∀ event n, (onEvent event n).run z = []

theorem not_mem_word {w k : Str} (h : Word w k) (hw : IsKeyword w) {d : Char}
    (hd : d ∈ punctuation) : d ∉ k := by
  replace hw := hw.2
  induction h with
  | nil => exact List.not_mem_nil
  | @cons l c w k hc _ ih =>
    intro hmem
    cases List.mem_cons.mp hmem with
    | inl e =>
      have hread := noCase_of_cased hc
      rw [← e, noCase_punctuation l (hw l List.mem_cons_self) d hd] at hread
      exact absurd hread Bool.false_ne_true
    | inr hmem => exact ih (fun m hm => hw m (List.mem_cons_of_mem l hm)) hmem

/-- White space and then a word: no list of columns. -/
theorem run_fkColumns_eq_nil {b w k : Str} (hb : Blanks b) (hk : Word w k) (hw : IsKeyword w)
    (n : Nat) (t : Str) : (fkColumns n).run (b ++ (k ++ t)) = [] := by
  have hparen (c : Char) (s : Str) (hc : c ≠ '(') :
      (Re.seqs [chr '(', .group n (.plus (· != ')')), chr ')']).run (c :: s) = [] :=
    Re.run_seq_of_left (run_chr_cons hc s) _
  apply run_blanks_seq_eq_nil readsBlanks_many hb (hk.noSpaceFirst hw t)
  · intro c s hc
    apply hparen
    intro e
    rw [e] at hc
    exact absurd hc (by decide)
  · have hnot := not_mem_word hk hw (d := '(') (by decide)
    cases k with
    | nil => exact absurd rfl (hk.ne_nil hw.1)
    | cons c k =>
      apply hparen
      intro e
      exact hnot (e ▸ List.mem_cons_self)

theorem keyAhead_of_prints {F : ForeignKey} {b x : Str} (hb : Blanks b) (h : F.Prints x)
    (t : Str) : KeyAhead (b ++ (x ++ t)) := by
  obtain ⟨_, _, ⟨c, _, hc, ⟨b₁, _, hb₁, ⟨_, _, rfl, rfl, rfl⟩, rfl⟩, rfl⟩, ⟨_, _, rfl, ⟨_, _,
    ⟨_, _, rfl, ⟨b₂, _, hb₂, ⟨f, _, hf, ⟨b₃, _, hb₃, ⟨k, _, hk, rfl, rfl⟩, rfl⟩, rfl⟩, rfl⟩, rfl⟩,
    ⟨_, r, ⟨b₄, _, hb₄, ⟨_, w, rfl, -, rfl⟩, rfl⟩, -, rfl⟩, rfl⟩, rfl⟩, rfl⟩ := h
  have hword {w k : Str} (hk : Word w k) (hw : IsKeyword w) {d : Char} (hd : d ∈ punctuation) :
      d ∉ k := not_mem_word hk hw hd
  have hname {d : Char} (hd : d ∈ punctuation) : d ∉ F.name :=
    not_mem_of_isIdentifier F.isIdentifier_name hd
  have hblank {r : Re Char} (hspace : ∀ c s, isSpace c → r.run (c :: s) = [])
      (hr : ∀ s, r.run (c ++ s) = []) (s : Str) : (Re.seq blank r).run (b ++ (c ++ s)) = [] :=
    run_blank_seq_eq_nil hb (hc.noSpaceFirst (by decide) s) hspace (hr s)
  have hother {w : Str} (hw : firstDiffers w "CONSTRAINT".toList = true) (r : Re Char) (s : Str) :
      (Re.seq (keyword w) r).run (c ++ s) = [] :=
    Re.run_seq_of_left (run_keyword_of_word hc hw s) r
  simp only [List.append_assoc, List.nil_append]
  let z := b₃ ++ (k ++ (b₄ ++ ('(' :: (w ++ (r ++ t)))))
  refine ⟨?_, ?_, ?_, ?_⟩
  · refine ⟨b ++ (c ++ (b₁ ++ ('[' :: F.name))), b₂ ++ (f ++ z), ?_, ?_,
      run_fkColumns_eq_nil hb₂.2 hf (by decide) 4 z⟩
    · simp only [List.append_assoc]
      rfl
    · simp only [List.mem_append, List.mem_cons, not_or]
      exact ⟨not_mem_blanks hb (by decide), hword hc (by decide) (by decide),
        not_mem_blanks hb₁.2 (by decide), by decide, hname (by decide)⟩
  · refine ⟨b ++ (c ++ (b₁ ++ ('[' :: (F.name ++ (']' :: (b₂ ++ (f ++ (b₃ ++ (k ++ b₄))))))))),
      w ++ (r ++ t), ?_, ?_⟩
    · simp only [List.append_assoc, List.cons_append]
      rfl
    · simp only [List.mem_append, List.mem_cons, not_or]
      exact ⟨not_mem_blanks hb (by decide), hword hc (by decide) (by decide),
        not_mem_blanks hb₁.2 (by decide), by decide, hname (by decide), by decide,
        not_mem_blanks hb₂.2 (by decide), hword hf (by decide) (by decide),
        not_mem_blanks hb₃.2 (by decide), hword hk (by decide) (by decide),
        not_mem_blanks hb₄ (by decide)⟩
  · exact hblank (run_keyword_space (by decide) _) (hother (by decide) _) _
  · intro event n
    exact hblank (run_keyword_space (by decide) _) (hother (by decide) _) _

/-! ### A match that starts before a foreign key -/

theorem stays_of_avoids {r : Re Char} {d : Char} (hr : r.Avoids d) {w z : Str} {h : Hit Char}
    (hh : h ∈ r.run (w ++ d :: z)) : ∃ v, h.rest = v ++ d :: z := by
  rw [Re.run_append_cons_of_avoids hr] at hh
  obtain ⟨k, -, rfl⟩ := List.mem_map.mp hh
  exact ⟨k.rest, rfl⟩

theorem paren_mem {y y' u v : Str} (h : y ++ '(' :: y' = u ++ ')' :: v) (hy : ')' ∉ y) :
    '(' ∈ u := by
  rcases List.append_eq_append_iff.mp h with ⟨x, rfl, hx⟩ | ⟨x, rfl, hx⟩
  · cases x with
    | nil => exact absurd (List.cons.inj hx).1 (by decide)
    | cons c x =>
      rw [← (List.cons.inj hx).1]
      simp
  · cases x with
    | nil => exact absurd (List.cons.inj hx).1 (by decide)
    | cons c x =>
      rw [(List.cons.inj hx).1] at hy
      exact absurd (by simp) hy

/-- A character read up to: it comes before `d`, or it is `d`, or it comes after. -/
theorem upTo_cases {c d : Char} {w z u v : Str} (h : w ++ d :: z = u ++ c :: v) :
    (∃ x, w = u ++ c :: x ∧ v = x ++ d :: z) ∨ (d = c ∧ v = z) ∨
      ∃ x, u = w ++ d :: x ∧ z = x ++ c :: v := by
  rcases List.append_eq_append_iff.mp h with ⟨x, hu, hx⟩ | ⟨x, hw, hx⟩
  · cases x with
    | nil =>
      obtain ⟨hd, hz⟩ := List.cons.inj hx
      exact Or.inr (Or.inl ⟨hd, hz.symm⟩)
    | cons e x =>
      obtain ⟨rfl, hz⟩ := List.cons.inj hx
      exact Or.inr (Or.inr ⟨x, hu, hz⟩)
  · cases x with
    | nil =>
      obtain ⟨hd, hz⟩ := List.cons.inj hx
      exact Or.inr (Or.inl ⟨hd.symm, hz⟩)
    | cons e x =>
      obtain ⟨rfl, hz⟩ := List.cons.inj hx
      exact Or.inl ⟨x, hw, hz⟩

theorem mem_run_chr {c : Char} {s : Str} {h : Hit Char} (hh : h ∈ (chr c).run s) :
    ∃ v, s = c :: v ∧ h = ⟨[c], [], v⟩ := by
  obtain ⟨e, v, hs, he, rfl⟩ := Re.mem_run_cls.mp hh
  have he' : e = c := by simpa using he
  exact ⟨v, he' ▸ hs, he' ▸ rfl⟩

/-- What a list of columns is made of. -/
theorem mem_run_fkColumns {n : Nat} {s : Str} {h : Hit Char} (hh : h ∈ (fkColumns n).run s) :
    ∃ b u v, s = b ++ '(' :: (u ++ ')' :: v) ∧ Blanks b ∧ h.group n = some u ∧ h.rest = v := by
  obtain ⟨_, hk, _, hl, rfl⟩ := Re.mem_run_seq.mp hh
  obtain ⟨b, s₁, rfl, hb, rfl⟩ := Re.mem_run_many.mp hk
  obtain ⟨_, hp, _, hm, rfl⟩ := Re.mem_run_seq.mp hl
  obtain ⟨s', hs', rfl⟩ := mem_run_chr hp
  obtain ⟨_, hg, _, he, rfl⟩ := Re.mem_run_seq.mp hm
  obtain ⟨_, hg', rfl⟩ := Re.mem_run_group.mp hg
  obtain ⟨u, v, huv, -, -, rfl⟩ := Re.mem_run_plus.mp hg'
  obtain ⟨_, hq, _, ho, rfl⟩ := Re.mem_run_seq.mp he
  obtain ⟨v', hv, rfl⟩ := mem_run_chr hq
  rw [List.mem_singleton.mp ho]
  refine ⟨b, u, v', ?_, hb, List.lookup_cons_self, rfl⟩
  have hs₁ : s₁ = '(' :: s' := hs'
  have huv' : s' = u ++ v := huv
  have hv' : v = ')' :: v' := hv
  rw [hs₁, huv', hv']

/-- A list of columns that starts before a foreign key ends before it, or records a
parenthesis. -/
theorem fkColumns_before_key {d : Char} (hd : d ∈ delimiters) {z : Str} (hz : KeyAhead z) {n : Nat}
    {w : Str} {h : Hit Char} (hh : h ∈ (fkColumns n).run (w ++ d :: z)) :
    ∃ u, h.group n = some u ∧ ('(' ∈ u ∨ (∃ v, h.rest = v ++ d :: z) ∨ h.rest = z) := by
  obtain ⟨y, y', hopen, hy⟩ := hz.opens
  obtain ⟨b, u, v, hs, hb, hgroup, hrest⟩ := mem_run_fkColumns hh
  have hpast (x : Str) (hx : z = x ++ ')' :: v) : '(' ∈ x := paren_mem (hopen ▸ hx) hy
  refine ⟨u, hgroup, ?_⟩
  rw [hrest]
  rcases upTo_cases hs with ⟨x, -, hx⟩ | ⟨-, hx⟩ | ⟨x, hx, -⟩
  · rcases upTo_cases hx.symm with ⟨x', -, hv⟩ | ⟨-, hv⟩ | ⟨x', hu, hz'⟩
    · exact Or.inr (Or.inl ⟨x', hv⟩)
    · exact Or.inr (Or.inr hv)
    · rw [hu]
      exact Or.inl (List.mem_append_right _ (List.mem_cons_of_mem d (hpast x' hz')))
  · -- the delimiter is the parenthesis that opens the list
    exact Or.inl (hpast u hx.symm)
  · have hmem : d ∈ b := by rw [hx]; simp
    exact absurd hmem (not_mem_blanks hb (punctuation_of_delimiter d hd).1)

/-- The owner is text without a bracket. -/
theorem mem_run_fkOwner {s : Str} {h : Hit Char} (hh : h ∈ fkOwner.run s) :
    ∃ a, s = a ++ h.rest ∧ ']' ∉ a := by
  rcases List.mem_append.mp hh with hh | hh
  · obtain ⟨_, hk, _, hl, rfl⟩ := Re.mem_run_seq.mp hh
    obtain ⟨u, v, rfl, -, hu, rfl⟩ := Re.mem_run_plus.mp hk
    obtain ⟨_, hp, _, ho, rfl⟩ := Re.mem_run_seq.mp hl
    obtain ⟨v', hv, rfl⟩ := mem_run_chr hp
    rw [List.mem_singleton.mp ho]
    refine ⟨u ++ ['.'], ?_, ?_⟩
    · have hv' : v = '.' :: v' := hv
      rw [hv', List.append_assoc]
      rfl
    · rw [List.mem_append]
      intro hmem
      cases hmem with
      | inl hmem => exact forall_bne_iff.mp hu hmem
      | inr hmem => exact absurd hmem (by decide)
  · rw [List.mem_singleton.mp hh]
    exact ⟨[], rfl, List.not_mem_nil⟩

/-- A table name that starts before a foreign key ends before it, or at the first
bracket in it. -/
theorem fkTable_before_key {d : Char} (hd : d ∈ delimiters) {z y y' : Str}
    (hz : z = y ++ ']' :: y') (hy : ']' ∉ y) {w : Str} {h : Hit Char}
    (hh : h ∈ fkTable.run (w ++ d :: z)) : (∃ v, h.rest = v ++ d :: z) ∨ h.rest = y' := by
  obtain ⟨hpunct, hopen, hclose⟩ := punctuation_of_delimiter d hd
  obtain ⟨k₁, hk₁, l₁, hl₁, rfl⟩ := Re.mem_run_seq.mp hh
  obtain ⟨w₁, hw₁⟩ := stays_of_avoids (avoids_blank hpunct) hk₁
  rw [hw₁] at hl₁
  obtain ⟨k₂, hk₂, l₂, hl₂, rfl⟩ := Re.mem_run_seq.mp hl₁
  obtain ⟨w₂, hw₂⟩ := stays_of_avoids (avoids_keyword (by decide) hpunct) hk₂
  rw [hw₂] at hl₂
  obtain ⟨k₃, hk₃, l₃, hl₃, rfl⟩ := Re.mem_run_seq.mp hl₂
  obtain ⟨w₃, hw₃⟩ := stays_of_avoids (avoids_blank hpunct) hk₃
  rw [hw₃] at hl₃
  obtain ⟨k₄, hk₄, l₄, hl₄, rfl⟩ := Re.mem_run_seq.mp hl₃
  obtain ⟨w₄, hw₄⟩ := stays_of_avoids (avoids_chr hopen) hk₄
  rw [hw₄] at hl₄
  -- the owner and the name are one text without a bracket
  obtain ⟨k₅, hk₅, l₅, hl₅, rfl⟩ := Re.mem_run_seq.mp hl₄
  obtain ⟨a, ha, hafree⟩ := mem_run_fkOwner hk₅
  obtain ⟨k₆, hk₆, l₆, hl₆, rfl⟩ := Re.mem_run_seq.mp hl₅
  obtain ⟨_, hg, rfl⟩ := Re.mem_run_group.mp hk₆
  obtain ⟨u, v, huv, -, hu, rfl⟩ := Re.mem_run_plus.mp hg
  obtain ⟨_, hq, _, ho, rfl⟩ := Re.mem_run_seq.mp hl₆
  obtain ⟨v', hv, rfl⟩ := mem_run_chr hq
  rw [List.mem_singleton.mp ho]
  have hv' : v = ']' :: v' := hv
  have hfree : ']' ∉ a ++ u := by
    rw [List.mem_append]
    intro hmem
    cases hmem with
    | inl hmem => exact hafree hmem
    | inr hmem => exact forall_bne_iff.mp hu hmem
  have hs : w₄ ++ d :: z = (a ++ u) ++ ']' :: v' := by
    rw [ha, huv, hv', List.append_assoc]
  show (∃ x, v' = x ++ d :: z) ∨ v' = y'
  rcases upTo_cases hs with ⟨x, -, hx⟩ | ⟨hd', -⟩ | ⟨x, hau, hx⟩
  · exact Or.inl ⟨x, hx⟩
  · exact absurd hd' hclose
  · have hx' : ']' ∉ x := by
      intro hmem
      apply hfree
      rw [hau]
      exact List.mem_append_right _ (List.mem_cons_of_mem d hmem)
    exact Or.inr (append_cons_inj hy hx' (hz ▸ hx)).2.symm

theorem avoids_actionWords {d : Char} (hd : d ∈ punctuation) : actionWords.Avoids d := by
  have hkeyword {w : Str} (hw : IsKeyword w) : (keyword w).Avoids d := avoids_keyword hw.2 hd
  have htwo {v w : Str} (hv : IsKeyword v) (hw : IsKeyword w) :
      (Re.seqs [keyword v, blank, keyword w]).Avoids d :=
    ⟨hkeyword hv, avoids_blank hd, hkeyword hw, trivial⟩
  exact ⟨hkeyword (by decide), htwo (by decide) (by decide), htwo (by decide) (by decide),
    hkeyword (by decide)⟩

theorem avoids_optEvent {d : Char} (hd : d ∈ punctuation) {event : Str} (hevent : IsKeyword event)
    (n : Nat) : (Re.opt (onEvent event n)).Avoids d :=
  ⟨⟨avoids_blank hd, avoids_keyword (by decide) hd, avoids_blank hd, avoids_keyword hevent.2 hd,
    avoids_blank hd, avoids_actionWords hd, trivial⟩, trivial⟩

/-- An action is read before the delimiter, or none is read after it. -/
theorem optEvent_before_key {d : Char} (hd : d ∈ delimiters) {z : Str} (hz : KeyAhead z)
    {event : Str} (hevent : IsKeyword event) (n : Nat) {s : Str}
    (hs : (∃ v, s = v ++ d :: z) ∨ s = z) {h : Hit Char}
    (hh : h ∈ (Re.opt (onEvent event n)).run s) : (∃ v, h.rest = v ++ d :: z) ∨ h.rest = z := by
  rcases hs with ⟨v, rfl⟩ | rfl
  · exact Or.inl (stays_of_avoids
      (avoids_optEvent (punctuation_of_delimiter d hd).1 hevent n) hh)
  · rw [Re.opt, Re.run_alt, hz.no_event, List.nil_append] at hh
    rw [List.mem_singleton.mp hh]
    exact Or.inr rfl

/-- What no entry of a foreign key has: punctuation in the name, or a parenthesis in
the columns. -/
def Spoiled (h : Hit Char) : Prop :=
  (∃ n, h.group 1 = some n ∧ ∃ c ∈ n, c ∈ punctuation) ∨
    (∃ u, h.group 2 = some u ∧ '(' ∈ u) ∨ ∃ u, h.group 4 = some u ∧ '(' ∈ u

theorem reads_over {d : Char} {w z u v : Str} (h : w ++ d :: z = u ++ v) :
    d ∈ u ∨ ∃ x, v = x ++ d :: z := by
  rcases List.append_eq_append_iff.mp h with ⟨x, rfl, hx⟩ | ⟨x, -, hx⟩
  · cases x with
    | nil => exact Or.inr ⟨[], hx.symm⟩
    | cons e x =>
      rw [(List.cons.inj hx).1]
      exact Or.inl (by simp)
  · exact Or.inr ⟨x, hx⟩

/-- A match of the whole pattern, part by part. -/
theorem fkPattern_parts {s : Str} {h : Hit Char} (hh : h ∈ fkPattern.run s) :
    ∃ k ∈ constraintOpen.run s, ∃ n ∈ fkName.run k.rest, ∃ f ∈ fkKey.run n.rest,
      ∃ c ∈ (fkColumns 2).run f.rest, ∃ t ∈ fkTable.run c.rest, ∃ r ∈ (fkColumns 4).run t.rest,
      ∃ e₅ ∈ (Re.opt (onEvent "DELETE".toList 5)).run r.rest,
      ∃ e₆ ∈ (Re.opt (onEvent "UPDATE".toList 6)).run e₅.rest,
      h.rest = e₆.rest ∧ h.group 1 = n.group 1 ∧ h.group 2 = c.group 2 ∧
        h.group 4 = r.group 4 := by
  obtain ⟨k, hk, l₁, hl₁, rfl⟩ := Re.mem_run_seq.mp hh
  obtain ⟨n, hn, l₂, hl₂, rfl⟩ := Re.mem_run_seq.mp hl₁
  obtain ⟨f, hf, l₃, hl₃, rfl⟩ := Re.mem_run_seq.mp hl₂
  obtain ⟨c, hc, l₄, hl₄, rfl⟩ := Re.mem_run_seq.mp hl₃
  obtain ⟨t, ht, l₅, hl₅, rfl⟩ := Re.mem_run_seq.mp hl₄
  obtain ⟨r, hr, l₆, hl₆, rfl⟩ := Re.mem_run_seq.mp hl₅
  obtain ⟨e₅, he₅, l₇, hl₇, rfl⟩ := Re.mem_run_seq.mp hl₆
  obtain ⟨e₆, he₆, l₈, hl₈, rfl⟩ := Re.mem_run_seq.mp hl₇
  rw [List.mem_singleton.mp hl₈]
  have hword (m : Nat) (w : Str) : (keyword w).NoGroup m := Re.noGroup_word m _
  have hnone {m : Nat} {p : Re Char} (hp : p.NoGroup m) {s : Str} {g : Hit Char}
      (hg : g ∈ p.run s) : g.group m = none := Re.group_eq_none hp hg
  have hopen (m : Nat) : k.group m = none :=
    hnone (by simp [constraintOpen, blank, chr, Re.seqs, Re.plus, Re.NoGroup, hword]) hk
  have hname (m : Nat) (hm : m ≠ 1) : n.group m = none :=
    hnone (by simp [fkName, Re.plus, Re.NoGroup, hm]) hn
  have hkey (m : Nat) : f.group m = none :=
    hnone (by simp [fkKey, blank, chr, Re.seqs, Re.plus, Re.NoGroup, hword]) hf
  have hcolumns (m : Nat) (hm : m ≠ 2) : c.group m = none :=
    hnone (by simp [fkColumns, chr, Re.seqs, Re.plus, Re.NoGroup, hm]) hc
  have htable (m : Nat) (hm : m ≠ 3) : t.group m = none :=
    hnone (by simp [fkTable, fkOwner, blank, chr, Re.seqs, Re.plus, Re.opt, Re.NoGroup, hword,
      hm]) ht
  have hreferred (m : Nat) (hm : m ≠ 4) : r.group m = none :=
    hnone (by simp [fkColumns, chr, Re.seqs, Re.plus, Re.NoGroup, hm]) hr
  have hdelete (m : Nat) (hm : m ≠ 5) : e₅.group m = none :=
    hnone (by simp [onEvent, actionWords, blank, Re.seqs, Re.plus, Re.opt, Re.NoGroup, hword,
      hm]) he₅
  have hupdate (m : Nat) (hm : m ≠ 6) : e₆.group m = none :=
    hnone (by simp [onEvent, actionWords, blank, Re.seqs, Re.plus, Re.opt, Re.NoGroup, hword,
      hm]) he₆
  refine ⟨k, hk, n, hn, f, hf, c, hc, t, ht, r, hr, e₅, he₅, e₆, he₆, rfl, ?_, ?_, ?_⟩
  all_goals simp only [Re.group_app]
  · rw [hupdate 1 (by decide), hdelete 1 (by decide), hreferred 1 (by decide),
      htable 1 (by decide), hcolumns 1 (by decide), hkey, hopen]
    simp [Hit.group]
  · rw [hupdate 2 (by decide), hdelete 2 (by decide), hreferred 2 (by decide),
      htable 2 (by decide), hkey, hname 2 (by decide), hopen]
    simp [Hit.group]
  · rw [hupdate 4 (by decide), hdelete 4 (by decide), htable 4 (by decide),
      hcolumns 4 (by decide), hkey, hname 4 (by decide), hopen]
    simp [Hit.group]

/-- **A match that starts before a foreign key** ends before it, or records what no
foreign key has. -/
theorem run_before_key {d : Char} (hd : d ∈ delimiters) {z : Str} (hz : KeyAhead z) {w : Str}
    {h : Hit Char} (hh : h ∈ fkPattern.run (w ++ d :: z)) :
    Spoiled h ∨ (∃ v, h.rest = v ++ d :: z) ∨ h.rest = z := by
  obtain ⟨y, y', hclose, hy, hcolumns⟩ := hz.closes
  obtain ⟨k, hk, n, hn, f, hf, c, hc, t, ht, r, hr, e₅, he₅, e₆, he₆, hrest, hg₁, hg₂, hg₄⟩ :=
    fkPattern_parts hh
  rw [hrest, Spoiled, hg₁, hg₂, hg₄]
  obtain ⟨w₁, hw₁⟩ := stays_of_avoids (avoids_constraintOpen hd) hk
  rw [hw₁] at hn
  obtain ⟨_, hn', rfl⟩ := Re.mem_run_group.mp hn
  obtain ⟨u, v, huv, -, -, rfl⟩ := Re.mem_run_plus.mp hn'
  rcases reads_over huv with hmem | ⟨w₂, rfl⟩
  · exact Or.inl (Or.inl ⟨u, Re.group_record _ 1, d, hmem, (punctuation_of_delimiter d hd).1⟩)
  obtain ⟨w₃, hw₃⟩ := stays_of_avoids (avoids_fkKey hd) hf
  rw [hw₃] at hc
  obtain ⟨u₂, hu₂, hcases⟩ := fkColumns_before_key hd hz hc
  rcases hcases with hmem | ⟨w₄, hw₄⟩ | hcz
  · exact Or.inl (Or.inr (Or.inl ⟨u₂, hu₂, hmem⟩))
  · rw [hw₄] at ht
    rcases fkTable_before_key hd hclose hy ht with ⟨w₅, hw₅⟩ | hty
    · rw [hw₅] at hr
      obtain ⟨u₄, hu₄, hcases⟩ := fkColumns_before_key hd hz hr
      rcases hcases with hmem | hbefore
      · exact Or.inl (Or.inr (Or.inr ⟨u₄, hu₄, hmem⟩))
      · have hdelete := optEvent_before_key hd hz (by decide) 5 hbefore he₅
        exact Or.inr (optEvent_before_key hd hz (by decide) 6 hdelete he₆)
    · -- at the bracket of the name no list of columns follows
      rw [hty, hcolumns] at hr
      exact absurd hr List.not_mem_nil
  · -- after the delimiter no table follows
    rw [hcz, hz.no_table] at ht
    exact absurd ht List.not_mem_nil

/-! ### Statements with string literals -/

instance (s : Str) : Decidable (Opens s) :=
  inferInstanceAs (Decidable (∃ b ∈ s.tails, ∃ h ∈ constraintOpen.run b, ']' ∉ h.rest))

/-- Text outside of string literals that is no foreign key: no head is in it, and
every `CONSTRAINT [` is closed. -/
abbrev Plain := {s : Str // ¬ HasHead s ∧ ¬ Opens s}

/-- A string literal: in quotes, the quotes in it doubled. -/
def literal (u : Str) : Str := Sql.delimited .literal u

def quotedText : List (Str × Plain) → Str
  | [] => []
  | (u, p) :: qs => literal u ++ (p.1 ++ quotedText qs)

/-- What stands between two foreign keys: plain text with string literals in it. -/
structure Stretch where
  head : Plain
  quoted : List (Str × Plain)

def Stretch.text (s : Stretch) : Str := s.head.1 ++ quotedText s.quoted

/-- A printed foreign key, with the delimiter before it. -/
structure KeyClause where
  delimiter : Delimiter
  key : ForeignKey
  before : Str
  printed : Str
  after : Str
  blanks_before : Blanks before
  prints : key.Prints printed
  blanks_after : Blanks after

def KeyClause.ahead (k : KeyClause) (t : Str) : Str := k.before ++ (k.printed ++ (k.after ++ t))

def keysText : List (KeyClause × Stretch) → Str
  | [] => []
  | (k, s) :: ts => k.delimiter.1 :: k.ahead (s.text ++ keysText ts)

def keysOf (ts : List (KeyClause × Stretch)) : List ForeignKey := ts.map fun p => p.1.key

/-- A foreign key is followed by a delimiter, or by nothing. -/
def Stretch.Delimits (s : Stretch) : Prop :=
  Follows s.head.1 ∧ (s.head.1 = [] → s.quoted = [])

/-- The text of `SHOW CREATE TABLE`, with its string literals. -/
structure TableDdl where
  first : Stretch
  rest : List (KeyClause × Stretch)
  delimits : ∀ p ∈ rest, p.2.Delimits
  nodup_names : ((keysOf rest).map ForeignKey.name).Nodup

namespace TableDdl

def text (D : TableDdl) : Str := D.first.text ++ keysText D.rest

def foreignKeys (D : TableDdl) : List ForeignKey := keysOf D.rest

/-- All but the literals. -/
def skeleton (D : TableDdl) : (Plain × List Plain) × List (KeyClause × Plain × List Plain) :=
  ((D.first.head, D.first.quoted.map Prod.snd),
    D.rest.map fun p => (p.1, p.2.head, p.2.quoted.map Prod.snd))

end TableDdl

/-! ### Quiet literals -/

/-- A match starts in the text, with `t` after it. -/
def Starts (s t : Str) : Prop := ∃ b ∈ s.tails, b ≠ [] ∧ fkPattern.run (b ++ t) ≠ []

instance (s t : Str) : Decidable (Starts s t) :=
  inferInstanceAs (Decidable (∃ b ∈ s.tails, b ≠ [] ∧ fkPattern.run (b ++ t) ≠ []))

example : ¬ Starts (literal "CONSTRAINT [".toList) ", [d] INTEGER)".toList := by decide

example : Starts (literal "CONSTRAINT [".toList)
    ", CONSTRAINT [fk] FOREIGN KEY ([c]) REFERENCES [r] ([id]))".toList := by decide

/-- No match starts in a literal. -/
def QuotedQuiet : List (Str × Plain) → Str → Prop
  | [], _ => True
  | (u, p) :: qs, t => ¬ Starts (literal u) (p.1 ++ (quotedText qs ++ t)) ∧ QuotedQuiet qs t

def KeysQuiet : List (KeyClause × Stretch) → Prop
  | [] => True
  | (_, s) :: ts => QuotedQuiet s.quoted (keysText ts) ∧ KeysQuiet ts

def TableDdl.Quiet (D : TableDdl) : Prop :=
  QuotedQuiet D.first.quoted (keysText D.rest) ∧ KeysQuiet D.rest

theorem not_starts_iff {s t : Str} :
    ¬ Starts s t ↔ ∀ a b, s = a ++ b → b ≠ [] → fkPattern.run (b ++ t) = [] := by
  apply Iff.intro
  · intro h a b e hb
    by_contra hrun
    exact h ⟨b, (List.mem_tails b s).mpr ⟨a, e.symm⟩, hb, hrun⟩
  · intro h hstarts
    obtain ⟨b, hmem, hb, hrun⟩ := hstarts
    obtain ⟨a, e⟩ := (List.mem_tails b s).mp hmem
    exact hrun (h a b e.symm hb)

theorem not_starts_append {s s' t : Str} :
    ¬ Starts (s ++ s') t ↔ ¬ Starts s (s' ++ t) ∧ ¬ Starts s' t := by
  rw [not_starts_iff, not_starts_iff, not_starts_iff]
  apply Iff.intro
  · intro h
    refine ⟨?_, ?_⟩
    · intro a b e hb
      rw [← List.append_assoc]
      exact h a (b ++ s') (by rw [e, List.append_assoc]) (List.append_ne_nil_of_left_ne_nil hb s')
    · intro a b e hb
      exact h (s ++ a) b (by rw [e, List.append_assoc]) hb
  · intro h a b e hb
    rcases List.append_eq_append_iff.mp e with ⟨x, -, hx⟩ | ⟨x, hx, rfl⟩
    · exact h.2 x b hx hb
    · cases x with
      | nil => exact h.2 [] s' rfl hb
      | cons c x =>
        rw [List.append_assoc]
        exact h.1 a (c :: x) hx (List.cons_ne_nil c x)

/-- No match starts in plain text before a character that stops heads. -/
theorem not_starts_plain (p : Plain) {t : Str}
    (ht : ∀ d v, t = d :: v → constraintOpen.Avoids d ∧ fkKey.Avoids d ∧ d ≠ ']') :
    ¬ Starts p.1 t := by
  intro h
  obtain ⟨b, hb, -, hrun⟩ := h
  obtain ⟨h, hh⟩ := List.exists_mem_of_ne_nil _ hrun
  cases t with
  | nil =>
    rw [List.append_nil, run_fkPattern_eq_nil p.2.1 hb] at hh
    exact absurd hh List.not_mem_nil
  | cons d t =>
    obtain ⟨hopen, hkey, hd⟩ := ht d t rfl
    exact p.2.2 (dangles_of_run_cons p.2.1 hb hopen hkey hd hh).1

theorem not_starts_plain_quote (p : Plain) (u t : Str) : ¬ Starts p.1 (literal u ++ t) := by
  apply not_starts_plain
  intro d v e
  rw [← (List.cons.inj e).1]
  have hspace : isSpace (Sql.Quote.literal.char) = false := by decide
  have hblank : blank.Avoids Sql.Quote.literal.char := ⟨hspace, hspace⟩
  exact ⟨⟨avoids_keyword_of_noCase (by decide), hblank, avoids_chr (by decide), trivial⟩,
    ⟨avoids_chr (by decide), hblank, avoids_keyword_of_noCase (by decide), hblank,
      avoids_keyword_of_noCase (by decide), trivial⟩, by decide⟩

theorem follows_keysText (ts : List (KeyClause × Stretch)) : Follows (keysText ts) := by
  intro c v e
  cases ts with
  | nil => exact absurd e (List.cons_ne_nil c v).symm
  | cons p ts =>
    rw [← (List.cons.inj e).1]
    exact p.1.delimiter.2

theorem not_starts_plain_follows (p : Plain) {t : Str} (ht : Follows t) : ¬ Starts p.1 t := by
  apply not_starts_plain
  intro d v e
  have hd := ht d v e
  exact ⟨avoids_constraintOpen hd, avoids_fkKey hd, (punctuation_of_delimiter d hd).2.2⟩

theorem not_starts_quotedText (p : Plain) (qs : List (Str × Plain)) {t : Str} (ht : Follows t) :
    ¬ Starts (p.1 ++ quotedText qs) t ↔ QuotedQuiet qs t := by
  induction qs generalizing p with
  | nil =>
    rw [quotedText, List.append_nil]
    exact iff_of_true (not_starts_plain_follows p ht) trivial
  | cons q qs ih =>
    obtain ⟨u, p'⟩ := q
    have hplain : ¬ Starts p.1 (quotedText ((u, p') :: qs) ++ t) := by
      rw [quotedText, List.append_assoc]
      exact not_starts_plain_quote p u _
    rw [not_starts_append, and_iff_right hplain, quotedText, not_starts_append, ih, QuotedQuiet,
      List.append_assoc]

/-- **Where a match starts between two foreign keys, it starts in a literal.** -/
theorem not_starts_stretch (s : Stretch) {t : Str} (ht : Follows t) :
    ¬ Starts s.text t ↔ QuotedQuiet s.quoted t :=
  not_starts_quotedText s.head s.quoted ht

theorem Stretch.Delimits.follows {s : Stretch} (h : s.Delimits) (ts : List (KeyClause × Stretch)) :
    Follows (s.text ++ keysText ts) := by
  intro c v e
  cases hs : s.head.1 with
  | nil =>
    rw [Stretch.text, hs, h.2 hs] at e
    exact follows_keysText ts c v e
  | cons d w =>
    rw [Stretch.text, hs] at e
    rw [← (List.cons.inj e).1]
    exact h.1 d w hs

/-! ### Scanning -/

/-- The scan of the text before a foreign key, or before the end: what is found starts
there, or something spoiled is found. -/
theorem scan_before {t : Str}
    (ht : ∀ w h, h ∈ fkPattern.run (w ++ t) → Spoiled h ∨
      ∃ v, v.length < w.length ∧ fkPattern.findIter 0 h.rest = fkPattern.findIter 0 (v ++ t))
    (w : Str) :
    (∃ h ∈ fkPattern.findIter 0 (w ++ t), Spoiled h) ∨
      ∃ hs, fkPattern.findIter 0 (w ++ t) = hs ++ fkPattern.findIter 0 t ∧
        (hs = [] → ¬ Starts w t) := by
  induction hn : w.length using Nat.strongRecOn generalizing w with
  | ind n ih =>
    rcases Re.findIter_cases reads_fkPattern w t with hnone | ⟨a, b, h, hw, hb, hfirst, hscan⟩
    · exact Or.inr ⟨[], Re.findIter_skip hnone, fun _ => not_starts_iff.mpr hnone⟩
    · have hrun := Re.mem_run_of_first hfirst
      rw [hscan]
      rcases ht b h hrun with hspoiled | ⟨v, hlen, hrest⟩
      · exact Or.inl ⟨h, List.mem_cons_self, hspoiled⟩
      · have hlt : v.length < n := by
          rw [← hn, hw, List.length_append]
          omega
        rw [hrest]
        rcases ih v.length hlt v rfl with ⟨g, hg, hspoiled⟩ | ⟨hs, hhs, -⟩
        · exact Or.inl ⟨g, List.mem_cons_of_mem h hg, hspoiled⟩
        · exact Or.inr ⟨h :: hs, by rw [hhs]; rfl, fun e => absurd e (List.cons_ne_nil h hs)⟩

/-- At the end of the text a match ends somewhere in it. -/
theorem before_end (w : Str) (h : Hit Char) (hh : h ∈ fkPattern.run (w ++ [])) :
    Spoiled h ∨ ∃ v, v.length < w.length ∧
      fkPattern.findIter 0 h.rest = fkPattern.findIter 0 (v ++ []) := by
  rw [List.append_nil] at hh
  have hcut := congrArg List.length (Re.text_append_rest hh)
  have htext := List.length_pos_iff.mpr (reads_fkPattern w h hh)
  rw [List.length_append] at hcut
  refine Or.inr ⟨h.rest, by omega, ?_⟩
  rw [List.append_nil]

theorem before_key {k : KeyClause} {t : Str} (w : Str) (h : Hit Char)
    (hh : h ∈ fkPattern.run (w ++ k.delimiter.1 :: k.ahead t)) :
    Spoiled h ∨ ∃ v, v.length < w.length ∧
      fkPattern.findIter 0 h.rest
        = fkPattern.findIter 0 (v ++ k.delimiter.1 :: k.ahead t) := by
  have hahead : KeyAhead (k.ahead t) := keyAhead_of_prints k.blanks_before k.prints (k.after ++ t)
  have hd : noCase 'C' k.delimiter.1 = false :=
    noCase_punctuation 'C' (by decide) _ (punctuation_of_delimiter _ k.delimiter.2).1
  have hnil (s : Str) : fkPattern.run (k.delimiter.1 :: s) = [] := run_fkPattern_of_ne hd s
  rcases run_before_key k.delimiter.2 hahead hh with hspoiled | ⟨v, hv⟩ | hrest
  · exact Or.inl hspoiled
  · have hcut := congrArg List.length (Re.text_append_rest hh)
    have htext := List.length_pos_iff.mpr (reads_fkPattern _ h hh)
    rw [List.length_append, hv, List.length_append, List.length_append] at hcut
    exact Or.inr ⟨v, by omega, by rw [hv]⟩
  · -- the delimiter is the last character of the match
    refine Or.inr ⟨[], ?_, ?_⟩
    · cases w with
      | nil =>
        rw [List.nil_append, hnil] at hh
        exact absurd hh List.not_mem_nil
      | cons c w => exact Nat.succ_pos _
    · rw [hrest, List.nil_append, Re.findIter_cons_of_nil (hnil _)]

section Scan

variable [UnicodeData]

/-- **A foreign key is read**, and the scan goes on after it. -/
theorem scan_key (schema : Option Str) (k : KeyClause) {t : Str} (ht : Follows t) :
    ∃ h, fkPattern.findIter 0 (k.delimiter.1 :: k.ahead t) = h :: fkPattern.findIter 0 t ∧
      reflectForeignKey schema h = k.key.entry schema := by
  have hd : noCase 'C' k.delimiter.1 = false :=
    noCase_punctuation 'C' (by decide) _ (punctuation_of_delimiter _ k.delimiter.2).1
  obtain ⟨g, hread, hentry⟩ :=
    first_fkPattern k.prints (stops_of_follows k.blanks_after ht) schema
  refine ⟨⟨k.printed, g, k.after ++ t⟩, ?_, hentry⟩
  rw [Re.findIter_cons_of_nil (run_fkPattern_of_ne hd _), KeyClause.ahead,
    findIter_blanks k.blanks_before, Re.findIter_hit k.prints.ne_nil hread,
    findIter_blanks k.blanks_after]

/-- **A quiet statement** is read for what it is, by induction on the foreign keys
still to come. -/
theorem scan_of_quiet (schema : Option Str) (s : Stretch) (ts : List (KeyClause × Stretch))
    (hts : ∀ p ∈ ts, p.2.Delimits) (hs : QuotedQuiet s.quoted (keysText ts))
    (hquiet : KeysQuiet ts) :
    (fkPattern.findIter 0 (s.text ++ keysText ts)).map (reflectForeignKey schema)
      = (keysOf ts).map (ForeignKey.entry schema) := by
  induction ts generalizing s with
  | nil =>
    have hnone := not_starts_iff.mp ((not_starts_stretch s (follows_keysText [])).mpr hs)
    rw [Re.findIter_skip hnone]
    rfl
  | cons p ts ih =>
    obtain ⟨k, s'⟩ := p
    have hrest : ∀ p ∈ ts, p.2.Delimits := fun p hp => hts p (List.mem_cons_of_mem _ hp)
    have hfollows : Follows (s'.text ++ keysText ts) := (hts _ List.mem_cons_self).follows ts
    have hnone := not_starts_iff.mp ((not_starts_stretch s (follows_keysText _)).mpr hs)
    obtain ⟨h, hkey, hentry⟩ := scan_key schema k hfollows
    rw [Re.findIter_skip hnone, keysText, hkey, List.map_cons, hentry,
      ih s' hrest hquiet.1 hquiet.2]
    rfl

/-- **A statement that is not quiet**: something spoiled is found, or too much is. -/
theorem scan_count (s : Stretch) (ts : List (KeyClause × Stretch))
    (hts : ∀ p ∈ ts, p.2.Delimits) :
    (∃ h ∈ fkPattern.findIter 0 (s.text ++ keysText ts), Spoiled h) ∨
      ts.length ≤ (fkPattern.findIter 0 (s.text ++ keysText ts)).length ∧
        (ts.length = (fkPattern.findIter 0 (s.text ++ keysText ts)).length →
          QuotedQuiet s.quoted (keysText ts) ∧ KeysQuiet ts) := by
  induction ts generalizing s with
  | nil =>
    rcases scan_before before_end s.text with hspoiled | ⟨hs, hscan, hquiet⟩
    · exact Or.inl hspoiled
    · have hhits : fkPattern.findIter 0 (s.text ++ keysText []) = hs := by
        rw [keysText, hscan]
        exact List.append_nil hs
      refine Or.inr ⟨Nat.zero_le _, ?_⟩
      intro hlen
      rw [hhits] at hlen
      have hnone := hquiet (List.eq_nil_of_length_eq_zero hlen.symm)
      exact ⟨(not_starts_stretch s (follows_keysText [])).mp hnone, trivial⟩
  | cons p ts ih =>
    obtain ⟨k, s'⟩ := p
    have hrest : ∀ p ∈ ts, p.2.Delimits := fun p hp => hts p (List.mem_cons_of_mem _ hp)
    have hfollows : Follows (s'.text ++ keysText ts) := (hts _ List.mem_cons_self).follows ts
    obtain ⟨g, hkey, -⟩ := scan_key none k hfollows
    rcases scan_before before_key s.text with hspoiled | ⟨hs, hscan, hquiet⟩
    · exact Or.inl hspoiled
    · have hhits : fkPattern.findIter 0 (s.text ++ keysText ((k, s') :: ts))
          = hs ++ g :: fkPattern.findIter 0 (s'.text ++ keysText ts) := by
        rw [keysText, hscan, hkey]
      rw [hhits, List.length_append, List.length_cons, List.length_cons]
      rcases ih s' hrest with ⟨h, hmem, hspoiled⟩ | ⟨hle, hall⟩
      · exact Or.inl ⟨h, List.mem_append_right hs (List.mem_cons_of_mem g hmem), hspoiled⟩
      · refine Or.inr ⟨by omega, ?_⟩
        intro hlen
        have hnone := hquiet (List.eq_nil_of_length_eq_zero (by omega))
        exact ⟨(not_starts_stretch s (follows_keysText _)).mp hnone, hall (by omega)⟩

/-! ### What a literal does to the list -/

omit [UnicodeData] in
theorem mem_columnNames {c : Char} {u : Str} (hc : c ∈ u) (hcomma : c ≠ ',')
    (hspace : isSpace c = false) (hbracket : c ∉ "[]".toList) : ∃ n ∈ columnNames u, c ∈ n := by
  obtain ⟨w, hw, hcw⟩ := mem_split hc hcomma
  have hstrip : c ∈ stripChars "[]".toList (strip w) :=
    mem_stripIf (mem_stripIf hcw hspace) (decide_eq_false hbracket)
  exact ⟨_, List.mem_map_of_mem hw, hstrip⟩

omit [UnicodeData] in
theorem columnNames_ne_of_paren {u : Str} (hu : '(' ∈ u) {cs : List Str}
    (hcs : ∀ c ∈ cs, IsIdentifier c) : columnNames u ≠ cs := by
  intro h
  obtain ⟨n, hn, hmem⟩ := mem_columnNames hu (by decide) (by decide) (by decide)
  rw [h] at hn
  exact (hcs n hn).2 '(' hmem (by decide)

theorem not_entry_of_spoiled {schema : Option Str} {h : Hit Char} (hh : Spoiled h)
    (F : ForeignKey) : reflectForeignKey schema h ≠ F.entry schema := by
  intro hentry
  rcases hh with ⟨n, hn, c, hc, hpunct⟩ | ⟨u, hu, hparen⟩ | ⟨u, hu, hparen⟩
  · have hname : (h.group 1).getD [] = F.name := congrArg ReflectedForeignKey.name hentry
    rw [hn, Option.getD_some] at hname
    exact F.isIdentifier_name.2 c (hname ▸ hc) hpunct
  · have hcolumns : columnNames ((h.group 2).getD []) = F.columns :=
      congrArg ReflectedForeignKey.constrainedColumns hentry
    rw [hu, Option.getD_some] at hcolumns
    exact columnNames_ne_of_paren hparen F.isIdentifier_columns hcolumns
  · have hcolumns : columnNames ((h.group 4).getD []) = F.referred :=
      congrArg ReflectedForeignKey.referredColumns hentry
    rw [hu, Option.getD_some] at hcolumns
    exact columnNames_ne_of_paren hparen F.isIdentifier_referred hcolumns

theorem foreignKeysOf_of_quiet (schema : Option Str) {D : TableDdl} (h : D.Quiet) :
    foreignKeysOf schema D.text
      = orderBy ReflectedForeignKey.name (D.foreignKeys.map (ForeignKey.entry schema)) := by
  rw [foreignKeysOf, TableDdl.text, scan_of_quiet schema D.first D.rest D.delimits h.1 h.2]
  rfl

/-- **`get_foreign_keys` reports the foreign keys of a statement exactly when no match
starts in one of its literals.** -/
theorem reports_iff_quiet (schema : Option Str) (D : TableDdl) :
    Reports schema D.foreignKeys (foreignKeysOf schema D.text) ↔ D.Quiet := by
  apply Iff.intro
  · intro hreports
    have hperm := (orderBy_perm ReflectedForeignKey.name
      ((fkPattern.findIter 0 D.text).map (reflectForeignKey schema))).symm.trans hreports.1
    rcases scan_count D.first D.rest D.delimits with ⟨h, hmem, hspoiled⟩ | ⟨-, hall⟩
    · obtain ⟨F, -, hF⟩ := List.mem_map.mp (hperm.mem_iff.mp (List.mem_map_of_mem hmem))
      exact absurd hF.symm (not_entry_of_spoiled hspoiled F)
    · have hlen := hperm.length_eq
      rw [List.length_map, List.length_map, TableDdl.foreignKeys, keysOf, List.length_map] at hlen
      exact hall hlen.symm
  · intro hquiet
    rw [foreignKeysOf_of_quiet schema hquiet]
    refine ⟨orderBy_perm _ _, ?_⟩
    apply pairwise_lt_orderBy
    rw [List.map_map]
    exact D.nodup_names

omit [UnicodeData] in
theorem foreignKeys_eq_of_skeleton {D D' : TableDdl} (h : D.skeleton = D'.skeleton) :
    D.foreignKeys = D'.foreignKeys := by
  have hkeys := congrArg (fun s => s.2.map fun p => p.1.key) h
  simp only [TableDdl.skeleton, List.map_map] at hkeys
  exact hkeys

/-- **Two statements that differ in their literals only**, one of them quiet: the
lists are the same exactly when the other is quiet too. -/
theorem foreignKeysOf_eq_iff (schema : Option Str) {D D' : TableDdl}
    (hsame : D.skeleton = D'.skeleton) (hquiet : D.Quiet) :
    foreignKeysOf schema D.text = foreignKeysOf schema D'.text ↔ D'.Quiet := by
  have hkeys := foreignKeys_eq_of_skeleton hsame
  apply Iff.intro
  · intro heq
    have hreports := (reports_iff_quiet schema D).mpr hquiet
    rw [heq, hkeys] at hreports
    exact (reports_iff_quiet schema D').mp hreports
  · intro hquiet'
    rw [foreignKeysOf_of_quiet schema hquiet, foreignKeysOf_of_quiet schema hquiet', hkeys]

/-- In any text: no match starts in the literal, and none that starts before it reads
on into it. -/
def Untouched (before u after : Str) : Prop :=
  (∀ a b, before = a ++ b → b ≠ [] → ∀ h, fkPattern.first (b ++ (literal u ++ after)) = some h →
      Re.sparing (literal u ++ after) h = true) ∧
    ¬ Starts (literal u) after

omit [UnicodeData] in
theorem local_fkPattern : fkPattern.Local := by
  have hword (w : Str) : (keyword w).Local := Re.local_word _
  simp [fkPattern, constraintOpen, fkName, fkRest, fkKey, fkColumns, fkTable, fkOwner, onEvent,
    actionWords, blank, chr, Re.seqs, Re.opt, Re.plus, Re.Local, hword]

theorem foreignKeysOf_of_untouched (schema : Option Str) {before u after : Str}
    (h : Untouched before u after) :
    foreignKeysOf schema (before ++ (literal u ++ after))
      = orderBy ReflectedForeignKey.name ((fkPattern.findIter 0 before).map
          (reflectForeignKey schema) ++ (fkPattern.findIter 0 after).map
          (reflectForeignKey schema)) := by
  rw [foreignKeysOf, Re.findIter_append local_fkPattern reads_fkPattern h.1,
    Re.findIter_skip (not_starts_iff.mp h.2), List.map_append, List.map_map]
  rfl

/-- **The text of a literal does not matter while no match starts in it.**  In any
text, where none reads into it either, it can be replaced.  In a statement with foreign
keys as the server prints them, exactly then the list is the foreign keys of the
statement, and the list of the same statement with other literals. -/
theorem literal_text_iff (cat : Catalog) (viewFails : Bool) (tableName : Str)
    (schema : Option Str) :
    (∀ before after u v, Untouched before u after → Untouched before v after →
        getForeignKeys cat (.ok (some (before ++ (literal u ++ after)))) viewFails tableName schema
          = getForeignKeys cat (.ok (some (before ++ (literal v ++ after)))) viewFails tableName
            schema) ∧
      (∀ D : TableDdl,
        (∃ l, getForeignKeys cat (.ok (some D.text)) viewFails tableName schema = .ok l ∧
          Reports schema D.foreignKeys l) ↔ D.Quiet) ∧
      ∀ D D' : TableDdl, D.skeleton = D'.skeleton → D.Quiet →
        (getForeignKeys cat (.ok (some D.text)) viewFails tableName schema
            = getForeignKeys cat (.ok (some D'.text)) viewFails tableName schema ↔ D'.Quiet) := by
  have hcall (ddl : Str) : getForeignKeys cat (.ok (some ddl)) viewFails tableName schema
      = .ok (foreignKeysOf schema ddl) := rfl
  simp only [hcall, Except.ok.injEq]
  refine ⟨?_, ?_, ?_⟩
  · intro before after u v hu hv
    rw [foreignKeysOf_of_untouched schema hu, foreignKeysOf_of_untouched schema hv]
  · intro D
    rw [← reports_iff_quiet schema D]
    apply Iff.intro
    · intro h
      obtain ⟨l, hl, hreports⟩ := h
      rw [hl]
      exact hreports
    · intro hreports
      exact ⟨_, rfl, hreports⟩
  · intro D D' hsame hquiet
    exact foreignKeysOf_eq_iff schema hsame hquiet

end Scan

/-- A column with a comment. -/
def commentedColumn (comment : Str) : Str :=
  "CREATE TABLE [t] ([c] INTEGER COMMENT ".toList ++ (literal comment ++ ")".toList)

/-- **A comment creates a foreign key.** -/
theorem comment_creates_foreign_key :
    let _ := asciiData
    let comment := "CONSTRAINT [x] FOREIGN KEY ([c]) REFERENCES [r] ([id])".toList
    getForeignKeys ⟨[], [], []⟩ (.ok (some (commentedColumn []))) false "t".toList none = .ok [] ∧
      getForeignKeys ⟨[], [], []⟩ (.ok (some (commentedColumn comment))) false "t".toList none
        = .ok [⟨"x".toList, ["c".toList], none, "r".toList, ["id".toList], []⟩] := by
  intro _ comment
  exact ⟨by decide, by decide⟩

end SqlalchemyCubrid.Dialect
