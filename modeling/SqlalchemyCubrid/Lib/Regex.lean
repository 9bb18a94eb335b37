import Mathlib.Data.List.Basic

/-!
# Backtracking regular expressions

`Re.run r s` lists the ways `r` can match at the start of `s`, in the order a
backtracking matcher tries them; the match it settles on is the first one,
`Re.first`.  Repetition is over a character class, greedy (`many`) or lazy
(`fewest`), and a `group` records the text it matched.  `Re.findIter` scans a
whole text from left to right.

* `mem_run_seq` and its siblings say which matches there are.
* `first_seq` and `first_seq_of_split` find the first one: the second of them
  is backtracking, over the tries of the left part that come to nothing.
* `run_append_cons_of_avoids`: a pattern that cannot read `c` matches before a
  `c` what it matches without it.
* `findIter_skip`, `findIter_hit`, `findIter_cases`: how the scan moves.
* `filter_run`, `findIter_append`: where nothing is read on into what comes after,
  the match and the scan do not depend on it.
-/

namespace SqlalchemyCubrid.Lib

universe u

variable {α : Type u}

/-- One match: the text read, what the groups recorded (the latest first), and
the text left. -/
structure Hit (α : Type u) where
  text : List α
  groups : List (Nat × List α)
  rest : List α
  deriving DecidableEq

namespace Hit

/-- What a group recorded last. -/
def group (h : Hit α) (n : Nat) : Option (List α) := h.groups.lookup n

def push (c : α) (h : Hit α) : Hit α := { h with text := c :: h.text }

/-- A match, and then another in what it left. -/
def app (h k : Hit α) : Hit α := ⟨h.text ++ k.text, k.groups ++ h.groups, k.rest⟩

def record (n : Nat) (h : Hit α) : Hit α := { h with groups := (n, h.text) :: h.groups }

/-- The same match with more text after it. -/
def before (t : List α) (h : Hit α) : Hit α := { h with rest := h.rest ++ t }

end Hit

inductive Re (α : Type u) where
  | eps
  | cls (p : α → Bool)
  | seq (a b : Re α)
  | alt (a b : Re α)
  | many (p : α → Bool)
  | fewest (p : α → Bool)
  | group (n : Nat) (a : Re α)
  /-- the end of the text, or before a last character that `p` accepts -/
  | atEnd (p : α → Bool)

namespace Re

/-! ### Matching -/

/-- The matches of `p*`, the longest first. -/
def manyHits (p : α → Bool) : List α → List (Hit α)
  | [] => [⟨[], [], []⟩]
  | c :: s =>
    if p c then (manyHits p s).map (Hit.push c) ++ [⟨[], [], c :: s⟩] else [⟨[], [], c :: s⟩]

/-- The matches of `p*?`, the shortest first. -/
def fewestHits (p : α → Bool) : List α → List (Hit α)
  | [] => [⟨[], [], []⟩]
  | c :: s => ⟨[], [], c :: s⟩ :: if p c then (fewestHits p s).map (Hit.push c) else []

def run : Re α → List α → List (Hit α)
  | eps, s => [⟨[], [], s⟩]
  | cls _, [] => []
  | cls p, c :: s => if p c then [⟨[c], [], s⟩] else []
  | seq a b, s => (a.run s).flatMap fun h => (b.run h.rest).map h.app
  | alt a b, s => a.run s ++ b.run s
  | many p, s => manyHits p s
  | fewest p, s => fewestHits p s
  | group n a, s => (a.run s).map (Hit.record n)
  | atEnd _, [] => [⟨[], [], []⟩]
  | atEnd p, [c] => if p c then [⟨[], [], [c]⟩] else []
  | atEnd _, _ :: _ :: _ => []

/-- The match a backtracking matcher finds at the start of the text. -/
def first (r : Re α) (s : List α) : Option (Hit α) := (r.run s).head?

/-- `p+` -/
def plus (p : α → Bool) : Re α := seq (cls p) (many p)

/-- `a?` -/
def opt (a : Re α) : Re α := alt a eps

/-- Characters one after the other. -/
def word : List (α → Bool) → Re α
  | [] => eps
  | p :: ps => seq (cls p) (word ps)

def seqs : List (Re α) → Re α
  | [] => eps
  | r :: rs => seq r (seqs rs)

/-- Every match in a text from left to right, no two overlapping; `k` characters
are still taken by the match before.  After an empty match the next one at the
same place must not be empty. -/
def findIter (r : Re α) : Nat → List α → List (Hit α)
  | 0, [] => (r.first []).toList
  | _ + 1, [] => []
  | k + 1, _ :: s => findIter r k s
  | 0, c :: s =>
    match r.first (c :: s) with
    | none => findIter r 0 s
    | some ⟨d :: w, g, t⟩ => ⟨d :: w, g, t⟩ :: findIter r w.length s
    | some ⟨[], g, t⟩ =>
      ⟨[], g, t⟩ :: match (r.run (c :: s)).find? fun h => !h.text.isEmpty with
        | none => findIter r 0 s
        | some h => h :: findIter r (h.text.length - 1) s

/-! ### The constructors -/

theorem run_seq (a b : Re α) (s : List α) :
    (seq a b).run s = (a.run s).flatMap fun h => (b.run h.rest).map h.app := rfl

theorem run_alt (a b : Re α) (s : List α) : (alt a b).run s = a.run s ++ b.run s := rfl

theorem run_group (n : Nat) (a : Re α) (s : List α) :
    (group n a).run s = (a.run s).map (Hit.record n) := rfl

theorem run_many (p : α → Bool) (s : List α) : (many p).run s = manyHits p s := rfl

theorem run_fewest (p : α → Bool) (s : List α) : (fewest p).run s = fewestHits p s := rfl

theorem run_cls_of_pos {p : α → Bool} {c : α} (hc : p c) (s : List α) :
    (cls p).run (c :: s) = [⟨[c], [], s⟩] := if_pos hc

theorem run_cls_of_neg {p : α → Bool} {c : α} (hc : p c = false) (s : List α) :
    (cls p).run (c :: s) = [] := if_neg (Bool.eq_false_iff.mp hc)

theorem manyHits_of_pos {p : α → Bool} {c : α} (hc : p c) (s : List α) :
    manyHits p (c :: s) = (manyHits p s).map (Hit.push c) ++ [⟨[], [], c :: s⟩] := if_pos hc

theorem manyHits_of_neg {p : α → Bool} {c : α} (hc : p c = false) (s : List α) :
    manyHits p (c :: s) = [⟨[], [], c :: s⟩] := if_neg (Bool.eq_false_iff.mp hc)

theorem fewestHits_of_pos {p : α → Bool} {c : α} (hc : p c) (s : List α) :
    fewestHits p (c :: s) = ⟨[], [], c :: s⟩ :: (fewestHits p s).map (Hit.push c) :=
  congrArg _ (if_pos hc)

theorem fewestHits_of_neg {p : α → Bool} {c : α} (hc : p c = false) (s : List α) :
    fewestHits p (c :: s) = [⟨[], [], c :: s⟩] :=
  congrArg _ (if_neg (Bool.eq_false_iff.mp hc))

/-! ### Which matches there are -/

theorem mem_manyHits {p : α → Bool} {s : List α} {h : Hit α} :
    h ∈ manyHits p s ↔ ∃ u v, s = u ++ v ∧ (∀ c ∈ u, p c) ∧ h = ⟨u, [], v⟩ := by
  induction s generalizing h with
  | nil =>
    show h ∈ [(⟨[], [], []⟩ : Hit α)] ↔ _
    rw [List.mem_singleton]
    constructor
    · rintro rfl
      exact ⟨[], [], rfl, by simp, rfl⟩
    · rintro ⟨u, v, e, -, rfl⟩
      obtain ⟨rfl, rfl⟩ := List.append_eq_nil_iff.mp e.symm
      rfl
  | cons c s ih =>
    by_cases hc : p c
    · rw [manyHits_of_pos hc, List.mem_append, List.mem_singleton, List.mem_map]
      constructor
      · rintro (⟨k, hk, rfl⟩ | rfl)
        · obtain ⟨u, v, rfl, hu, rfl⟩ := ih.mp hk
          exact ⟨c :: u, v, rfl, List.forall_mem_cons.mpr ⟨hc, hu⟩, rfl⟩
        · exact ⟨[], c :: s, rfl, by simp, rfl⟩
      · rintro ⟨u, v, e, hu, rfl⟩
        cases u with
        | nil => exact Or.inr (by rw [e]; rfl)
        | cons d u =>
          obtain ⟨rfl, rfl⟩ := List.cons.inj e
          exact Or.inl ⟨⟨u, [], v⟩, ih.mpr ⟨u, v, rfl, fun x hx => hu x (by simp [hx]), rfl⟩, rfl⟩
    · rw [manyHits_of_neg (Bool.eq_false_iff.mpr hc), List.mem_singleton]
      constructor
      · rintro rfl
        exact ⟨[], c :: s, rfl, by simp, rfl⟩
      · rintro ⟨u, v, e, hu, rfl⟩
        cases u with
        | nil => rw [e]; rfl
        | cons d u =>
          obtain ⟨rfl, rfl⟩ := List.cons.inj e
          exact absurd (hu c (by simp)) hc

theorem mem_run_many {p : α → Bool} {s : List α} {h : Hit α} :
    h ∈ (many p).run s ↔ ∃ u v, s = u ++ v ∧ (∀ c ∈ u, p c) ∧ h = ⟨u, [], v⟩ :=
  mem_manyHits

theorem mem_run_cls {p : α → Bool} {s : List α} {h : Hit α} :
    h ∈ (cls p).run s ↔ ∃ c t, s = c :: t ∧ p c ∧ h = ⟨[c], [], t⟩ := by
  cases s with
  | nil =>
    refine ⟨fun h => absurd h List.not_mem_nil, ?_⟩
    rintro ⟨c, t, e, -, -⟩
    exact absurd e (List.cons_ne_nil c t).symm
  | cons c s =>
    by_cases hc : p c
    · rw [run_cls_of_pos hc, List.mem_singleton]
      constructor
      · rintro rfl
        exact ⟨c, s, rfl, hc, rfl⟩
      · rintro ⟨d, t, e, -, rfl⟩
        obtain ⟨rfl, rfl⟩ := List.cons.inj e
        rfl
    · rw [run_cls_of_neg (Bool.eq_false_iff.mpr hc)]
      constructor
      · intro h
        exact absurd h List.not_mem_nil
      · rintro ⟨d, t, e, hd, rfl⟩
        obtain ⟨rfl, rfl⟩ := List.cons.inj e
        exact absurd hd hc

theorem mem_run_seq {a b : Re α} {s : List α} {h : Hit α} :
    h ∈ (seq a b).run s ↔ ∃ k ∈ a.run s, ∃ l ∈ b.run k.rest, h = k.app l := by
  rw [run_seq, List.mem_flatMap]
  refine exists_congr fun k => and_congr_right fun _ => ?_
  rw [List.mem_map]
  exact exists_congr fun l => and_congr_right fun _ => eq_comm

theorem mem_run_group {n : Nat} {a : Re α} {s : List α} {h : Hit α} :
    h ∈ (group n a).run s ↔ ∃ k ∈ a.run s, h = k.record n := by
  rw [run_group, List.mem_map]
  exact exists_congr fun k => and_congr_right fun _ => eq_comm

theorem mem_run_plus {p : α → Bool} {s : List α} {h : Hit α} :
    h ∈ (plus p).run s ↔ ∃ u v, s = u ++ v ∧ u ≠ [] ∧ (∀ c ∈ u, p c) ∧ h = ⟨u, [], v⟩ := by
  rw [plus, mem_run_seq]
  constructor
  · rintro ⟨k, hk, l, hl, rfl⟩
    obtain ⟨c, t, rfl, hc, rfl⟩ := mem_run_cls.mp hk
    obtain ⟨u, v, e, hu, rfl⟩ := mem_run_many.mp hl
    refine ⟨c :: u, v, ?_, List.cons_ne_nil _ _, List.forall_mem_cons.mpr ⟨hc, hu⟩, rfl⟩
    show c :: t = c :: (u ++ v)
    rw [← e]
  · rintro ⟨u, v, rfl, hne, hu, rfl⟩
    cases u with
    | nil => exact absurd rfl hne
    | cons c u =>
      refine ⟨⟨[c], [], u ++ v⟩, mem_run_cls.mpr ⟨c, u ++ v, rfl, hu c (by simp), rfl⟩, ?_⟩
      exact ⟨⟨u, [], v⟩, mem_run_many.mpr ⟨u, v, rfl, fun x hx => hu x (by simp [hx]), rfl⟩, rfl⟩

theorem mem_fewestHits {p : α → Bool} {s : List α} {h : Hit α} (hh : h ∈ fewestHits p s) :
    ∃ u v, s = u ++ v ∧ h = ⟨u, [], v⟩ := by
  induction s generalizing h with
  | nil => exact ⟨[], [], rfl, List.mem_singleton.mp hh⟩
  | cons c s ih =>
    rcases List.mem_cons.mp hh with rfl | hh
    · exact ⟨[], c :: s, rfl, rfl⟩
    · split at hh
      · obtain ⟨k, hk, rfl⟩ := List.mem_map.mp hh
        obtain ⟨u, v, rfl, rfl⟩ := ih hk
        exact ⟨c :: u, v, rfl, rfl⟩
      · exact absurd hh List.not_mem_nil

theorem mem_run_atEnd {p : α → Bool} {s : List α} {h : Hit α} (hh : h ∈ (atEnd p).run s) :
    h = ⟨[], [], s⟩ := by
  match s with
  | [] => exact List.mem_singleton.mp hh
  | [c] =>
    have hc : h ∈ (if p c then [⟨[], [], [c]⟩] else [] : List (Hit α)) := hh
    split at hc
    · exact List.mem_singleton.mp hc
    · exact absurd hc List.not_mem_nil
  | _ :: _ :: _ => exact absurd hh List.not_mem_nil

/-- **A match cuts the text in two.** -/
theorem text_append_rest {r : Re α} {s : List α} {h : Hit α} (hh : h ∈ r.run s) :
    h.text ++ h.rest = s := by
  induction r generalizing s h with
  | eps =>
    rw [List.mem_singleton.mp hh]
    rfl
  | cls p =>
    obtain ⟨c, t, rfl, -, rfl⟩ := mem_run_cls.mp hh
    rfl
  | seq a b iha ihb =>
    obtain ⟨k, hk, l, hl, rfl⟩ := mem_run_seq.mp hh
    show (k.text ++ l.text) ++ l.rest = s
    rw [List.append_assoc, ihb hl, iha hk]
  | alt a b iha ihb =>
    rcases List.mem_append.mp hh with hh | hh
    · exact iha hh
    · exact ihb hh
  | many p =>
    obtain ⟨u, v, rfl, -, rfl⟩ := mem_run_many.mp hh
    rfl
  | fewest p =>
    obtain ⟨u, v, rfl, rfl⟩ := mem_fewestHits hh
    rfl
  | group n a ih =>
    obtain ⟨k, hk, rfl⟩ := mem_run_group.mp hh
    have hcut : k.text ++ k.rest = s := ih hk
    exact hcut
  | atEnd p =>
    rw [mem_run_atEnd hh]
    rfl

/-- A word leaves what comes after as many characters. -/
theorem rest_of_mem_run_word {ps : List (α → Bool)} {s : List α} {h : Hit α}
    (hh : h ∈ (word ps).run s) : h.rest = s.drop ps.length := by
  induction ps generalizing s h with
  | nil =>
    rw [List.mem_singleton.mp hh]
    rfl
  | cons p ps ih =>
    obtain ⟨k, hk, l, hl, rfl⟩ := mem_run_seq.mp hh
    obtain ⟨c, t, rfl, -, rfl⟩ := mem_run_cls.mp hk
    have hrest : l.rest = t.drop ps.length := ih hl
    exact hrest

/-- A sequence matches somehow exactly when some match of its left part leaves the
right one a match. -/
theorem run_seq_ne_nil_iff {a b : Re α} {s : List α} :
    (seq a b).run s ≠ [] ↔ ∃ h ∈ a.run s, b.run h.rest ≠ [] := by
  constructor
  · intro h
    obtain ⟨m, hm⟩ := List.exists_mem_of_ne_nil _ h
    obtain ⟨k, hk, l, hl, -⟩ := mem_run_seq.mp hm
    exact ⟨k, hk, List.ne_nil_of_mem hl⟩
  · rintro ⟨k, hk, hne⟩
    obtain ⟨l, hl⟩ := List.exists_mem_of_ne_nil _ hne
    exact List.ne_nil_of_mem (mem_run_seq.mpr ⟨k, hk, l, hl, rfl⟩)

/-- No group of the pattern has the number `n`. -/
def NoGroup (n : Nat) : Re α → Prop
  | eps => True
  | cls _ => True
  | seq a b => a.NoGroup n ∧ b.NoGroup n
  | alt a b => a.NoGroup n ∧ b.NoGroup n
  | many _ => True
  | fewest _ => True
  | group m a => n ≠ m ∧ a.NoGroup n
  | atEnd _ => True

theorem noGroup_word (n : Nat) (ps : List (α → Bool)) : (word ps).NoGroup n := by
  induction ps with
  | nil => trivial
  | cons p ps ih => exact ⟨trivial, ih⟩

theorem group_app (h k : Hit α) (n : Nat) : (h.app k).group n = (k.group n).or (h.group n) := by
  rw [Hit.group, Hit.app, List.lookup_append]
  rfl

theorem group_app_of_none {h k : Hit α} {n : Nat} (hk : k.group n = none) :
    (h.app k).group n = h.group n := by
  rw [group_app, hk, Option.none_or]

theorem group_app_of_some {h k : Hit α} {n : Nat} {w : List α} (hk : k.group n = some w) :
    (h.app k).group n = some w := by
  rw [group_app, hk, Option.some_or]

theorem group_record (h : Hit α) (n : Nat) : (h.record n).group n = some h.text := by
  rw [Hit.group, Hit.record, List.lookup_cons_self]

theorem group_eq_none {r : Re α} {n : Nat} (hr : r.NoGroup n) {s : List α} {h : Hit α}
    (hh : h ∈ r.run s) : h.group n = none := by
  induction r generalizing s h with
  | eps =>
    rw [List.mem_singleton.mp hh]
    rfl
  | cls p =>
    obtain ⟨c, t, -, -, rfl⟩ := mem_run_cls.mp hh
    rfl
  | seq a b iha ihb =>
    obtain ⟨k, hk, l, hl, rfl⟩ := mem_run_seq.mp hh
    rw [group_app_of_none (ihb hr.2 hl)]
    exact iha hr.1 hk
  | alt a b iha ihb =>
    rcases List.mem_append.mp hh with hh | hh
    · exact iha hr.1 hh
    · exact ihb hr.2 hh
  | many p =>
    obtain ⟨u, v, -, -, rfl⟩ := mem_run_many.mp hh
    rfl
  | fewest p =>
    obtain ⟨u, v, -, rfl⟩ := mem_fewestHits hh
    rfl
  | group m a ih =>
    obtain ⟨k, hk, rfl⟩ := mem_run_group.mp hh
    have hm : (n == m) = false := by simpa using hr.1
    rw [Hit.group, Hit.record, List.lookup_cons, hm]
    exact ih hr.2 hk
  | atEnd p =>
    rw [mem_run_atEnd hh]
    rfl

/-! ### The first match -/

theorem first_eq_none_iff {r : Re α} {s : List α} : r.first s = none ↔ r.run s = [] :=
  List.head?_eq_none_iff

theorem mem_run_of_first {r : Re α} {s : List α} {h : Hit α} (e : r.first s = some h) :
    h ∈ r.run s :=
  List.mem_of_mem_head? e

theorem run_eq_cons_of_first {r : Re α} {s : List α} {h : Hit α} (e : r.first s = some h) :
    ∃ hs, r.run s = h :: hs := by
  rw [first] at e
  exact List.head?_eq_some_iff.mp e

theorem first_eps (s : List α) : (eps : Re α).first s = some ⟨[], [], s⟩ := rfl

theorem first_cls {p : α → Bool} {c : α} (hc : p c) (s : List α) :
    (cls p).first (c :: s) = some ⟨[c], [], s⟩ := by
  rw [first, run_cls_of_pos hc]
  rfl

theorem run_seq_of_left {a : Re α} {s : List α} (h : a.run s = []) (b : Re α) :
    (seq a b).run s = [] := by
  rw [run_seq, h, List.flatMap_nil]

/-- **Backtracking.**  The tries of `a` before `h` leave `b` nothing to match;
`h` leaves it something. -/
theorem first_seq_of_split {a b : Re α} {s : List α} {xs ys : List (Hit α)} {h k : Hit α}
    (ha : a.run s = xs ++ h :: ys) (hxs : ∀ x ∈ xs, b.run x.rest = [])
    (hb : b.first h.rest = some k) : (seq a b).first s = some (h.app k) := by
  have hdead : (xs.flatMap fun x => (b.run x.rest).map x.app) = [] := by
    rw [List.flatMap_eq_nil_iff]
    intro x hx
    rw [hxs x hx, List.map_nil]
  obtain ⟨ks, hk⟩ := run_eq_cons_of_first hb
  rw [first, run_seq, ha, List.flatMap_append, hdead, List.nil_append, List.flatMap_cons, hk,
    List.map_cons, List.cons_append, List.head?_cons]

theorem first_seq {a b : Re α} {s : List α} {h k : Hit α} (ha : a.first s = some h)
    (hb : b.first h.rest = some k) : (seq a b).first s = some (h.app k) := by
  obtain ⟨hs, e⟩ := run_eq_cons_of_first ha
  have hsplit : a.run s = [] ++ h :: hs := e
  exact first_seq_of_split hsplit (fun x hx => absurd hx List.not_mem_nil) hb

/-- A sequence of patterns, each with the text it reads. -/
theorem first_seqs_cons {r : Re α} {rs : List (Re α)} {w v s t : List α}
    {g g' : List (Nat × List α)} (hr : r.first (w ++ s) = some ⟨w, g, s⟩)
    (hrs : (seqs rs).first s = some ⟨v, g', t⟩) :
    (seqs (r :: rs)).first (w ++ s) = some ⟨w ++ v, g' ++ g, t⟩ :=
  first_seq hr hrs

theorem first_seqs_nil (s : List α) : (seqs ([] : List (Re α))).first s = some ⟨[], [], s⟩ := rfl

theorem first_group {a : Re α} {s : List α} {h : Hit α} (ha : a.first s = some h) (n : Nat) :
    (group n a).first s = some (h.record n) := by
  obtain ⟨hs, e⟩ := run_eq_cons_of_first ha
  rw [first, run_group, e, List.map_cons, List.head?_cons]

theorem first_opt {a : Re α} {s : List α} {h : Hit α} (ha : a.first s = some h) :
    (opt a).first s = some h := by
  obtain ⟨hs, e⟩ := run_eq_cons_of_first ha
  rw [first, opt, run_alt, e, List.cons_append, List.head?_cons]

theorem first_opt_of_nil {a : Re α} {s : List α} (ha : a.run s = []) :
    (opt a).first s = some ⟨[], [], s⟩ := by
  rw [first, opt, run_alt, ha, List.nil_append]
  rfl

theorem first_alt_of_nil {a : Re α} {s : List α} (ha : a.run s = []) (b : Re α) :
    (alt a b).first s = b.first s := by
  rw [first, run_alt, ha, List.nil_append, first]

theorem first_alt {a : Re α} {s : List α} {h : Hit α} (ha : a.first s = some h) (b : Re α) :
    (alt a b).first s = some h := by
  obtain ⟨hs, e⟩ := run_eq_cons_of_first ha
  rw [first, run_alt, e, List.cons_append, List.head?_cons]

theorem first_word {ps : List (α → Bool)} {w : List α}
    (hw : List.Forall₂ (fun p c => p c = true) ps w) (s : List α) :
    (word ps).first (w ++ s) = some ⟨w, [], s⟩ := by
  induction hw with
  | nil => rfl
  | cons hc _ ih => exact first_seq (first_cls hc _) ih

/-! ### Repetition -/

/-- The tries of a greedy repetition, split at a length it can stop at: the
longer ones come first. -/
theorem run_many_split {p : α → Bool} {w : List α} (hw : ∀ c ∈ w, p c) (v : List α) :
    ∃ xs ys, (many p).run (w ++ v) = xs ++ ⟨w, [], v⟩ :: ys ∧
      ∀ x ∈ xs, ∃ a b, a ≠ [] ∧ v = a ++ b ∧ (∀ c ∈ a, p c) ∧ x.rest = b := by
  induction w with
  | nil =>
    cases v with
    | nil => exact ⟨[], [], rfl, by simp⟩
    | cons c v =>
      by_cases hc : p c
      · refine ⟨(manyHits p v).map (Hit.push c), [], ?_, ?_⟩
        · rw [List.nil_append, run_many, manyHits_of_pos hc]
        · intro x hx
          obtain ⟨k, hk, rfl⟩ := List.mem_map.mp hx
          obtain ⟨a, b, rfl, ha, rfl⟩ := mem_manyHits.mp hk
          exact ⟨c :: a, b, List.cons_ne_nil _ _, rfl, List.forall_mem_cons.mpr ⟨hc, ha⟩, rfl⟩
      · refine ⟨[], [], ?_, by simp⟩
        rw [List.nil_append, run_many, manyHits_of_neg (Bool.eq_false_iff.mpr hc)]
        rfl
  | cons c w ih =>
    obtain ⟨xs, ys, e, hxs⟩ := ih fun d hd => hw d (by simp [hd])
    refine ⟨xs.map (Hit.push c), ys.map (Hit.push c) ++ [⟨[], [], c :: (w ++ v)⟩], ?_, ?_⟩
    · rw [run_many] at e
      rw [List.cons_append, run_many, manyHits_of_pos (hw c (by simp)), e, List.map_append,
        List.map_cons, List.append_assoc, List.cons_append]
      rfl
    · intro x hx
      obtain ⟨k, hk, rfl⟩ := List.mem_map.mp hx
      exact hxs k hk

theorem run_plus_split {p : α → Bool} {w : List α} (hne : w ≠ []) (hw : ∀ c ∈ w, p c)
    (v : List α) :
    ∃ xs ys, (plus p).run (w ++ v) = xs ++ ⟨w, [], v⟩ :: ys ∧
      ∀ x ∈ xs, ∃ a b, a ≠ [] ∧ v = a ++ b ∧ (∀ c ∈ a, p c) ∧ x.rest = b := by
  cases w with
  | nil => exact absurd rfl hne
  | cons c w =>
    have hw' : ∀ d ∈ w, p d := fun d hd => hw d (by simp [hd])
    obtain ⟨xs, ys, e, hxs⟩ := run_many_split hw' v
    refine ⟨xs.map fun x => (⟨[c], [], w ++ v⟩ : Hit α).app x,
      ys.map fun x => (⟨[c], [], w ++ v⟩ : Hit α).app x, ?_, ?_⟩
    · rw [plus, run_seq, List.cons_append, run_cls_of_pos (hw c (by simp)), List.flatMap_cons,
        List.flatMap_nil, List.append_nil, e, List.map_append, List.map_cons]
      rfl
    · intro x hx
      obtain ⟨k, hk, rfl⟩ := List.mem_map.mp hx
      exact hxs k hk

/-- A greedy repetition that no longer one can replace. -/
theorem first_many {p : α → Bool} {w v : List α} (hw : ∀ c ∈ w, p c)
    (hv : ∀ c t, v = c :: t → p c = false) : (many p).first (w ++ v) = some ⟨w, [], v⟩ := by
  obtain ⟨xs, ys, e, hxs⟩ := run_many_split hw v
  cases xs with
  | nil => rw [first, e, List.nil_append, List.head?_cons]
  | cons x xs =>
    obtain ⟨a, b, hne, rfl, ha, -⟩ := hxs x (by simp)
    cases a with
    | nil => exact absurd rfl hne
    | cons c a =>
      exact absurd (ha c (by simp)) (by simp [hv c (a ++ b) rfl])

theorem first_plus {p : α → Bool} {w v : List α} (hne : w ≠ []) (hw : ∀ c ∈ w, p c)
    (hv : ∀ c t, v = c :: t → p c = false) : (plus p).first (w ++ v) = some ⟨w, [], v⟩ := by
  cases w with
  | nil => exact absurd rfl hne
  | cons c w =>
    exact first_seq (first_cls (hw c (by simp)) _)
      (first_many (fun d hd => hw d (by simp [hd])) hv)

/-- The tries of a lazy repetition up to a length it can reach: the shorter ones
come first. -/
theorem run_fewest_split {p : α → Bool} {w : List α} (hw : ∀ c ∈ w, p c) (v : List α) :
    ∃ xs ys, (fewest p).run (w ++ v) = xs ++ ⟨w, [], v⟩ :: ys ∧
      ∀ x ∈ xs, ∃ a b, b ≠ [] ∧ w = a ++ b ∧ x.rest = b ++ v := by
  induction w with
  | nil =>
    cases v with
    | nil => exact ⟨[], [], rfl, by simp⟩
    | cons c v => exact ⟨[], if p c then (fewestHits p v).map (Hit.push c) else [], rfl, by simp⟩
  | cons c w ih =>
    obtain ⟨xs, ys, e, hxs⟩ := ih fun d hd => hw d (by simp [hd])
    refine ⟨⟨[], [], c :: (w ++ v)⟩ :: xs.map (Hit.push c), ys.map (Hit.push c), ?_, ?_⟩
    · rw [run_fewest] at e
      rw [List.cons_append, run_fewest, fewestHits_of_pos (hw c (by simp)), e, List.map_append,
        List.map_cons, List.cons_append]
      rfl
    · intro x hx
      rcases List.mem_cons.mp hx with rfl | hx
      · exact ⟨[], c :: w, List.cons_ne_nil _ _, rfl, rfl⟩
      · obtain ⟨k, hk, rfl⟩ := List.mem_map.mp hx
        obtain ⟨a, b, hb, rfl, hr⟩ := hxs k hk
        exact ⟨c :: a, b, hb, rfl, hr⟩

/-! ### A character the pattern cannot read -/

/-- No class of the pattern accepts `c`, and the pattern does not look for the
end of the text. -/
def Avoids (c : α) : Re α → Prop
  | eps => True
  | cls p => p c = false
  | seq a b => a.Avoids c ∧ b.Avoids c
  | alt a b => a.Avoids c ∧ b.Avoids c
  | many p => p c = false
  | fewest p => p c = false
  | group _ a => a.Avoids c
  | atEnd _ => False

theorem manyHits_append_cons {p : α → Bool} {c : α} (hc : p c = false) (b t : List α) :
    manyHits p (b ++ c :: t) = (manyHits p b).map (Hit.before (c :: t)) := by
  induction b with
  | nil =>
    show manyHits p (c :: t) = [⟨[], [], c :: t⟩]
    exact manyHits_of_neg hc t
  | cons d b ih =>
    rw [List.cons_append]
    by_cases hd : p d
    · rw [manyHits_of_pos hd, manyHits_of_pos hd, ih, List.map_append, List.map_map,
        List.map_map]
      rfl
    · rw [manyHits_of_neg (Bool.eq_false_iff.mpr hd), manyHits_of_neg (Bool.eq_false_iff.mpr hd)]
      rfl

theorem fewestHits_append_cons {p : α → Bool} {c : α} (hc : p c = false) (b t : List α) :
    fewestHits p (b ++ c :: t) = (fewestHits p b).map (Hit.before (c :: t)) := by
  induction b with
  | nil =>
    show fewestHits p (c :: t) = [⟨[], [], c :: t⟩]
    exact fewestHits_of_neg hc t
  | cons d b ih =>
    rw [List.cons_append]
    by_cases hd : p d
    · rw [fewestHits_of_pos hd, fewestHits_of_pos hd, ih, List.map_cons, List.map_map,
        List.map_map]
      rfl
    · rw [fewestHits_of_neg (Bool.eq_false_iff.mpr hd),
        fewestHits_of_neg (Bool.eq_false_iff.mpr hd)]
      rfl

/-- **A pattern that cannot read `c` stops at it.** -/
theorem run_append_cons_of_avoids {r : Re α} {c : α} (hr : r.Avoids c) (b t : List α) :
    r.run (b ++ c :: t) = (r.run b).map (Hit.before (c :: t)) := by
  induction r generalizing b with
  | eps => rfl
  | cls p =>
    cases b with
    | nil => exact run_cls_of_neg hr t
    | cons d b =>
      rw [List.cons_append]
      by_cases hd : p d
      · rw [run_cls_of_pos hd, run_cls_of_pos hd]
        rfl
      · rw [run_cls_of_neg (Bool.eq_false_iff.mpr hd), run_cls_of_neg (Bool.eq_false_iff.mpr hd)]
        rfl
  | seq r₁ r₂ ih₁ ih₂ =>
    rw [run_seq, run_seq, ih₁ hr.1, List.flatMap_map, List.map_flatMap]
    congr 1
    funext h
    show (r₂.run (h.rest ++ c :: t)).map (Hit.app (h.before (c :: t))) = _
    rw [ih₂ hr.2, List.map_map, List.map_map]
    rfl
  | alt r₁ r₂ ih₁ ih₂ => rw [run_alt, run_alt, ih₁ hr.1, ih₂ hr.2, List.map_append]
  | many p => exact manyHits_append_cons hr b t
  | fewest p => exact fewestHits_append_cons hr b t
  | group n r ih =>
    rw [run_group, run_group, ih hr, List.map_map, List.map_map]
    rfl
  | atEnd p => exact absurd hr id

/-! ### Scanning -/

theorem findIter_drop (r : Re α) (w s : List α) :
    r.findIter w.length (w ++ s) = r.findIter 0 s := by
  induction w with
  | nil => rfl
  | cons c w ih => exact ih

/-- A match at the start of the text is taken, and the scan goes on after it. -/
theorem findIter_hit {r : Re α} {w s : List α} {g : List (Nat × List α)} (hne : w ≠ [])
    (h : r.first (w ++ s) = some ⟨w, g, s⟩) :
    r.findIter 0 (w ++ s) = ⟨w, g, s⟩ :: r.findIter 0 s := by
  cases w with
  | nil => exact absurd rfl hne
  | cons c w =>
    rw [List.cons_append] at h
    rw [List.cons_append, findIter, h]
    show _ :: r.findIter w.length (w ++ s) = _
    rw [findIter_drop]

theorem findIter_cons_of_nil {r : Re α} {c : α} {s : List α} (h : r.run (c :: s) = []) :
    r.findIter 0 (c :: s) = r.findIter 0 s := by
  rw [findIter, first_eq_none_iff.mpr h]

/-- Text in which no match starts is passed over. -/
theorem findIter_skip {r : Re α} {o t : List α}
    (h : ∀ a b, o = a ++ b → b ≠ [] → r.run (b ++ t) = []) :
    r.findIter 0 (o ++ t) = r.findIter 0 t := by
  induction o with
  | nil => rfl
  | cons c o ih =>
    have hc : r.run (c :: (o ++ t)) = [] := h [] (c :: o) rfl (List.cons_ne_nil _ _)
    rw [List.cons_append, findIter_cons_of_nil hc]
    exact ih fun a b e hb => h (c :: a) b (by rw [e]; rfl) hb

theorem findIter_of_first {r : Re α} {s : List α} {h : Hit α} (hf : r.first s = some h)
    (hne : h.text ≠ []) : r.findIter 0 s = h :: r.findIter 0 h.rest := by
  have hs := text_append_rest (mem_run_of_first hf)
  rw [← hs] at hf ⊢
  exact findIter_hit hne hf

/-- A pattern that never matches the empty text. -/
def Reads (r : Re α) : Prop := ∀ s, ∀ h ∈ r.run s, h.text ≠ []

/-- Either no match starts in `o`, or the scan takes the first one that does. -/
theorem findIter_cases {r : Re α} (hr : r.Reads) (o t : List α) :
    (∀ a b, o = a ++ b → b ≠ [] → r.run (b ++ t) = []) ∨
      ∃ a b h, o = a ++ b ∧ b ≠ [] ∧ r.first (b ++ t) = some h ∧
        r.findIter 0 (o ++ t) = h :: r.findIter 0 h.rest := by
  induction o with
  | nil =>
    apply Or.inl
    intro a b e hb
    exact absurd (List.append_eq_nil_iff.mp e.symm).2 hb
  | cons c o ih =>
    cases hf : r.first (c :: (o ++ t)) with
    | none =>
      have hnil : r.run (c :: (o ++ t)) = [] := first_eq_none_iff.mp hf
      rcases ih with ih | ⟨a, b, h, e, hb, hh, hscan⟩
      · apply Or.inl
        intro a b e hb
        cases a with
        | nil =>
          rw [List.nil_append] at e
          rw [← e]
          exact hnil
        | cons d a =>
          obtain ⟨rfl, e'⟩ := List.cons.inj e
          exact ih a b e' hb
      · refine Or.inr ⟨c :: a, b, h, by rw [e]; rfl, hb, hh, ?_⟩
        rw [List.cons_append, findIter_cons_of_nil hnil]
        exact hscan
    | some h =>
      refine Or.inr ⟨[], c :: o, h, rfl, List.cons_ne_nil _ _, hf, ?_⟩
      exact findIter_of_first hf (hr _ h (mem_run_of_first hf))

/-! ### What comes after the text -/

/-- The pattern does not look for the end of the text. -/
def Local : Re α → Prop
  | eps => True
  | cls _ => True
  | seq a b => a.Local ∧ b.Local
  | alt a b => a.Local ∧ b.Local
  | many _ => True
  | fewest _ => True
  | group _ a => a.Local
  | atEnd _ => False

theorem local_word (ps : List (α → Bool)) : (word ps).Local := by
  induction ps with
  | nil => trivial
  | cons p ps ih => exact ⟨trivial, ih⟩

/-- The match reads nothing of `t`. -/
def sparing (t : List α) (h : Hit α) : Bool := t.length ≤ h.rest.length

theorem sparing_self (g : List (Nat × List α)) (w b t : List α) :
    sparing t ⟨w, g, b ++ t⟩ = true := by
  rw [sparing, decide_eq_true_eq, List.length_append]
  exact Nat.le_add_left _ _

theorem not_sparing {s t : List α} (hs : s.length < t.length) {r : Re α} {h : Hit α}
    (hh : h ∈ r.run s) : ¬ sparing t h = true := by
  have hcut := congrArg List.length (text_append_rest hh)
  rw [List.length_append] at hcut
  rw [sparing, decide_eq_true_eq]
  omega

theorem filter_map_push (c : α) (t : List α) (l : List (Hit α)) :
    (l.map (Hit.push c)).filter (sparing t) = (l.filter (sparing t)).map (Hit.push c) :=
  List.filter_map

theorem filter_sparing_nil {r : Re α} {c : α} {s : List α} :
    (r.run s).filter (sparing (c :: s)) = [] := by
  rw [List.filter_eq_nil_iff]
  intro h hh
  exact not_sparing (Nat.lt_succ_self _) hh

theorem filter_manyHits (p : α → Bool) (b t : List α) :
    (manyHits p (b ++ t)).filter (sparing t) = (manyHits p b).map (Hit.before t) := by
  have hself (s : List α) : [(⟨[], [], s ++ t⟩ : Hit α)].filter (sparing t) = [⟨[], [], s ++ t⟩] :=
    List.filter_cons_of_pos (sparing_self _ _ _ _)
  induction b with
  | nil =>
    cases t with
    | nil => rfl
    | cons c t =>
      rw [List.nil_append]
      by_cases hc : p c
      · rw [manyHits_of_pos hc, List.filter_append, filter_map_push, ← run_many,
          filter_sparing_nil]
        exact hself []
      · rw [manyHits_of_neg (Bool.eq_false_iff.mpr hc)]
        exact hself []
  | cons c b ih =>
    rw [List.cons_append]
    by_cases hc : p c
    · rw [manyHits_of_pos hc, manyHits_of_pos hc, List.filter_append, filter_map_push, ih,
        List.map_append, List.map_map, List.map_map]
      exact congrArg _ (hself (c :: b))
    · rw [manyHits_of_neg (Bool.eq_false_iff.mpr hc), manyHits_of_neg (Bool.eq_false_iff.mpr hc)]
      exact hself (c :: b)

theorem filter_fewestHits (p : α → Bool) (b t : List α) :
    (fewestHits p (b ++ t)).filter (sparing t) = (fewestHits p b).map (Hit.before t) := by
  have hself (s : List α) (l : List (Hit α)) :
      ((⟨[], [], s ++ t⟩ : Hit α) :: l).filter (sparing t)
        = ⟨[], [], s ++ t⟩ :: l.filter (sparing t) :=
    List.filter_cons_of_pos (sparing_self _ _ _ _)
  induction b with
  | nil =>
    cases t with
    | nil => rfl
    | cons c t =>
      rw [List.nil_append]
      by_cases hc : p c
      · have hrest := hself [] ((fewestHits p t).map (Hit.push c))
        rw [filter_map_push, ← run_fewest, filter_sparing_nil] at hrest
        rw [fewestHits_of_pos hc]
        exact hrest
      · rw [fewestHits_of_neg (Bool.eq_false_iff.mpr hc)]
        exact hself [] []
  | cons c b ih =>
    rw [List.cons_append]
    by_cases hc : p c
    · rw [fewestHits_of_pos hc, fewestHits_of_pos hc, ← List.cons_append, hself, filter_map_push,
        ih, List.map_cons, List.map_map, List.map_map]
      rfl
    · rw [fewestHits_of_neg (Bool.eq_false_iff.mpr hc),
        fewestHits_of_neg (Bool.eq_false_iff.mpr hc)]
      exact hself (c :: b) []

theorem flatMap_filter_of_nil {β γ : Type*} {p : β → Bool} {g : β → List γ} {l : List β}
    (h : ∀ x ∈ l, ¬ p x = true → g x = []) : (l.filter p).flatMap g = l.flatMap g := by
  induction l with
  | nil => rfl
  | cons x l ih =>
    have hrest := ih fun y hy => h y (List.mem_cons_of_mem x hy)
    by_cases hx : p x = true
    · rw [List.filter_cons_of_pos hx, List.flatMap_cons, List.flatMap_cons, hrest]
    · rw [List.filter_cons_of_neg hx, List.flatMap_cons, h x List.mem_cons_self hx, hrest]
      rfl

/-- **The matches that read nothing of what comes after** are the matches without
it. -/
theorem filter_run {r : Re α} (hr : r.Local) (b t : List α) :
    (r.run (b ++ t)).filter (sparing t) = (r.run b).map (Hit.before t) := by
  induction r generalizing b with
  | eps => exact List.filter_cons_of_pos (sparing_self _ _ _ _)
  | cls p =>
    cases b with
    | nil =>
      cases t with
      | nil => rfl
      | cons c t =>
        by_cases hc : p c
        · rw [List.nil_append, run_cls_of_pos hc]
          apply List.filter_cons_of_neg
          rw [sparing, decide_eq_true_eq]
          exact Nat.not_succ_le_self _
        · rw [List.nil_append, run_cls_of_neg (Bool.eq_false_iff.mpr hc)]
          rfl
    | cons c b =>
      rw [List.cons_append]
      by_cases hc : p c
      · rw [run_cls_of_pos hc, run_cls_of_pos hc]
        exact List.filter_cons_of_pos (sparing_self _ _ _ _)
      · rw [run_cls_of_neg (Bool.eq_false_iff.mpr hc), run_cls_of_neg (Bool.eq_false_iff.mpr hc)]
        rfl
  | seq a c iha ihc =>
    have hgone : ∀ h ∈ a.run (b ++ t), ¬ sparing t h = true →
        ((c.run h.rest).map h.app).filter (sparing t) = [] := by
      intro h _ hh
      rw [sparing, decide_eq_true_eq, Nat.not_le] at hh
      rw [List.filter_map, List.map_eq_nil_iff, List.filter_eq_nil_iff]
      intro k hk
      have hk' : ¬ sparing t k = true := not_sparing hh hk
      exact hk'
    have hkept (h : Hit α) : ((c.run (h.before t).rest).map (h.before t).app).filter (sparing t)
        = ((c.run h.rest).map h.app).map (Hit.before t) := by
      rw [List.filter_map]
      show ((c.run (h.rest ++ t)).filter (sparing t)).map _ = _
      rw [ihc hr.2, List.map_map, List.map_map]
      rfl
    rw [run_seq, run_seq, List.filter_flatMap, ← flatMap_filter_of_nil hgone, iha hr.1,
      List.flatMap_map, List.map_flatMap]
    exact congrArg (fun f => (a.run b).flatMap f) (funext hkept)
  | alt a c iha ihc =>
    rw [run_alt, run_alt, List.filter_append, iha hr.1, ihc hr.2, List.map_append]
  | many p => exact filter_manyHits p b t
  | fewest p => exact filter_fewestHits p b t
  | group n a ih =>
    rw [run_group, run_group, List.filter_map, List.map_map]
    show ((a.run (b ++ t)).filter (sparing t)).map (Hit.record n) = _
    rw [ih hr, List.map_map]
    rfl
  | atEnd p => exact absurd hr id

theorem first_append {r : Re α} (hr : r.Local) {b t : List α} {h : Hit α}
    (hf : r.first (b ++ t) = some h) (hh : sparing t h = true) :
    ∃ k, r.first b = some k ∧ h = k.before t := by
  obtain ⟨hs, hrun⟩ := run_eq_cons_of_first hf
  have hfilter := filter_run hr b t
  rw [hrun, List.filter_cons_of_pos hh] at hfilter
  cases hb : r.run b with
  | nil =>
    rw [hb] at hfilter
    exact absurd hfilter (List.cons_ne_nil _ _)
  | cons k ks =>
    rw [hb, List.map_cons] at hfilter
    exact ⟨k, by rw [first, hb]; rfl, (List.cons.inj hfilter).1⟩

/-- **Where no match that starts in `o` reads on into `t`**, the two are scanned apart. -/
theorem findIter_append {r : Re α} (hlocal : r.Local) (hr : r.Reads) {o t : List α}
    (h : ∀ a b, o = a ++ b → b ≠ [] → ∀ k, r.first (b ++ t) = some k → sparing t k = true) :
    r.findIter 0 (o ++ t) = (r.findIter 0 o).map (Hit.before t) ++ r.findIter 0 t := by
  induction hn : o.length using Nat.strongRecOn generalizing o with
  | ind n ih =>
    cases o with
    | nil =>
      have hnil : r.first [] = none := by
        rw [first_eq_none_iff]
        by_contra hne
        obtain ⟨k, hk⟩ := List.exists_mem_of_ne_nil _ hne
        exact hr [] k hk (List.append_eq_nil_iff.mp (text_append_rest hk)).1
      have hempty : r.findIter 0 [] = [] := by rw [findIter, hnil]; rfl
      rw [hempty]
      rfl
    | cons c o =>
      cases hf : r.first (c :: o ++ t) with
      | none =>
        have hrun : r.run (c :: (o ++ t)) = [] := first_eq_none_iff.mp hf
        have hhere : r.run (c :: o) = [] := by
          have hfilter := filter_run hlocal (c :: o) t
          rw [List.cons_append, hrun] at hfilter
          exact List.map_eq_nil_iff.mp hfilter.symm
        rw [findIter_cons_of_nil hhere, List.cons_append, findIter_cons_of_nil hrun]
        apply ih o.length (by rw [← hn]; exact Nat.lt_succ_self _) _ rfl
        intro a b e
        exact h (c :: a) b (by rw [e]; rfl)
      | some k =>
        obtain ⟨k', hf', rfl⟩ := first_append hlocal hf
          (h [] (c :: o) rfl (List.cons_ne_nil c o) k hf)
        have hne := hr _ k' (mem_run_of_first hf')
        have hcut := text_append_rest (mem_run_of_first hf')
        rw [findIter_of_first hf hne, findIter_of_first hf' hne]
        have hlen : k'.rest.length < n := by
          have hpos := List.length_pos_iff.mpr hne
          rw [← hn, ← hcut, List.length_append]
          omega
        have hrest : r.findIter 0 (k'.rest ++ t)
            = (r.findIter 0 k'.rest).map (Hit.before t) ++ r.findIter 0 t := by
          apply ih _ hlen _ rfl
          intro a b e
          exact h (k'.text ++ a) b (by rw [← hcut, e, List.append_assoc])
        show k'.before t :: r.findIter 0 (k'.rest ++ t) = _
        rw [hrest]
        rfl

end Re

end SqlalchemyCubrid.Lib
