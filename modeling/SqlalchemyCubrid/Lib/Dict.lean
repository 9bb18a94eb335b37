import Mathlib.Data.List.Basic

/-!
# Dictionaries in insertion order

A `Dict` is the list of its items, a key staying where it was first put.  `set`
is `d[k] = v`, and `upsert` is the grouping step of a loop over rows: put an
initial value if the key is new, then update the value.

`foldl_upsert_groups` is the loop: rows that come group by group leave one item
for each group, in the order of the groups.
-/

namespace SqlalchemyCubrid.Lib

universe u v w x

abbrev Dict (κ : Type u) (ν : Type v) := List (κ × ν)

/-- A `dict`, whose keys differ. -/
structure Mapping (κ : Type u) (ν : Type v) where
  items : Dict κ ν
  nodup_keys : (items.map Prod.fst).Nodup

namespace Dict

variable {κ : Type u} {ν : Type v} [DecidableEq κ]

def get? : Dict κ ν → κ → Option ν
  | [], _ => none
  | (k', v) :: d, k => if k' = k then some v else get? d k

/-- `d[k] = v` -/
def set : Dict κ ν → κ → ν → Dict κ ν
  | [], k, v => [(k, v)]
  | (k', v') :: d, k, v => if k' = k then (k', v) :: d else (k', v') :: set d k v

/-- `if k not in d: d[k] = a`, and then the value at `k` updated by `f`. -/
def upsert : Dict κ ν → κ → ν → (ν → ν) → Dict κ ν
  | [], k, a, f => [(k, f a)]
  | (k', v) :: d, k, a, f => if k' = k then (k', f v) :: d else (k', v) :: upsert d k a f

/-- `for k, v in items: d[k] = v` -/
def setAll (d : Dict κ ν) (items : List (κ × ν)) : Dict κ ν :=
  items.foldl (fun d i => d.set i.1 i.2) d

theorem get?_set_self (d : Dict κ ν) (k : κ) (v : ν) : (d.set k v).get? k = some v := by
  induction d with
  | nil => rw [set, get?, if_pos rfl]
  | cons i d ih =>
    obtain ⟨k', v'⟩ := i
    rw [set]
    by_cases h : k' = k
    · rw [if_pos h, get?, if_pos h]
    · rw [if_neg h, get?, if_neg h, ih]

theorem get?_set_of_ne (d : Dict κ ν) {k l : κ} (hl : l ≠ k) (v : ν) :
    (d.set k v).get? l = d.get? l := by
  induction d with
  | nil => exact if_neg (Ne.symm hl)
  | cons i d ih =>
    obtain ⟨k', v'⟩ := i
    rw [set]
    by_cases h : k' = k
    · have hkl : k' ≠ l := by
        rintro rfl
        exact hl h
      rw [if_pos h, get?, get?, if_neg hkl, if_neg hkl]
    · rw [if_neg h, get?, get?, ih]

/-- A value read after `setAll` was put there, or was there before. -/
theorem mem_of_get?_setAll {d : Dict κ ν} {items : List (κ × ν)} {k : κ} {v : ν}
    (h : (d.setAll items).get? k = some v) : d.get? k = some v ∨ (k, v) ∈ items := by
  induction items generalizing d with
  | nil => exact Or.inl h
  | cons i items ih =>
    rcases ih h with hd | hm
    · by_cases hk : k = i.1
      · subst hk
        rw [get?_set_self] at hd
        obtain ⟨k, w⟩ := i
        exact Or.inr (by cases hd; exact List.mem_cons_self)
      · rw [get?_set_of_ne d hk] at hd
        exact Or.inl hd
    · exact Or.inr (List.mem_cons_of_mem _ hm)

theorem get?_setAll_ne_none {d : Dict κ ν} {items : List (κ × ν)} {k : κ}
    (h : d.get? k ≠ none ∨ ∃ v, (k, v) ∈ items) : (d.setAll items).get? k ≠ none := by
  induction items generalizing d with
  | nil =>
    rcases h with h | ⟨v, hv⟩
    · exact h
    · exact absurd hv List.not_mem_nil
  | cons i items ih =>
    apply ih
    by_cases hk : k = i.1
    · apply Or.inl
      rw [hk, get?_set_self]
      exact Option.some_ne_none _
    · rcases h with h | ⟨v, hv⟩
      · apply Or.inl
        rw [get?_set_of_ne d hk]
        exact h
      · rcases List.mem_cons.mp hv with rfl | hv
        · exact absurd rfl hk
        · exact Or.inr ⟨v, hv⟩

/-- **The last value put under a key stays.** -/
theorem get?_setAll (d : Dict κ ν) (items : List (κ × ν)) (k : κ) :
    (d.setAll items).get? k = (get? items.reverse k).or (d.get? k) := by
  have hget (l : Dict κ ν) (i : κ × ν) :
      get? (l ++ [i]) k = (get? l k).or (if i.1 = k then some i.2 else none) := by
    induction l with
    | nil => rfl
    | cons j l ih =>
      obtain ⟨k', v⟩ := j
      rw [List.cons_append, get?, get?, ih]
      by_cases h : k' = k
      · rw [if_pos h, if_pos h, Option.some_or]
      · rw [if_neg h, if_neg h]
  induction items generalizing d with
  | nil => rfl
  | cons i items ih =>
    show ((d.set i.1 i.2).setAll items).get? k = _
    rw [ih, List.reverse_cons, hget, Option.or_assoc]
    congr 1
    by_cases h : k = i.1
    · subst h
      rw [get?_set_self, if_pos rfl, Option.some_or]
    · rw [get?_set_of_ne d h, if_neg (Ne.symm h), Option.none_or]

theorem get?_eq_none_iff {d : Dict κ ν} {k : κ} : d.get? k = none ↔ k ∉ d.map Prod.fst := by
  induction d with
  | nil => exact iff_of_true rfl List.not_mem_nil
  | cons i d ih =>
    obtain ⟨k', v⟩ := i
    rw [get?, List.map_cons, List.mem_cons, not_or]
    by_cases h : k' = k
    · rw [if_pos h]
      exact iff_of_false (Option.some_ne_none v) fun hn => hn.1 h.symm
    · rw [if_neg h, ih]
      exact (and_iff_right (Ne.symm h)).symm

/-- A dictionary of values of a function. -/
theorem get?_eq_of_forall {d : Dict κ ν} {f : κ → Option ν} (hd : ∀ i ∈ d, f i.1 = some i.2)
    {k : κ} (hk : f k ≠ none → k ∈ d.map Prod.fst) : d.get? k = f k := by
  induction d with
  | nil =>
    rcases h : f k with _ | v
    · rfl
    · exact absurd (hk (by rw [h]; exact Option.some_ne_none v)) List.not_mem_nil
  | cons i d ih =>
    obtain ⟨k', v⟩ := i
    rw [get?]
    by_cases h : k' = k
    · rw [if_pos h, ← h]
      exact (hd (k', v) List.mem_cons_self).symm
    · rw [if_neg h]
      apply ih fun i hi => hd i (List.mem_cons_of_mem _ hi)
      intro hf
      exact (List.mem_cons.mp (hk hf)).resolve_left (Ne.symm h)

/-- Keys that differ have the values they are given. -/
theorem get?_of_mem {d : Dict κ ν} (hd : (d.map Prod.fst).Nodup) {k : κ} {v : ν}
    (h : (k, v) ∈ d) : d.get? k = some v := by
  induction d with
  | nil => exact absurd h List.not_mem_nil
  | cons i d ih =>
    obtain ⟨k', v'⟩ := i
    rw [List.map_cons, List.nodup_cons] at hd
    rw [get?]
    rcases List.mem_cons.mp h with heq | hmem
    · cases heq
      exact if_pos rfl
    · rw [if_neg]
      · exact ih hd.2 hmem
      · intro hk
        exact hd.1 (List.mem_map.mpr ⟨(k, v), hmem, hk.symm⟩)

/-! ### First appearances -/

section FirstAppearances

variable {α : Type u} [BEq α] [LawfulBEq α]

omit [LawfulBEq α] in
theorem eraseDups_sublist (l : List α) : List.Sublist l.eraseDups l := by
  induction hn : l.length using Nat.strongRecOn generalizing l with
  | ind n ih =>
    cases l with
    | nil => exact List.Sublist.refl _
    | cons a l =>
      rw [List.eraseDups_cons]
      have hlen : (l.filter fun b => !b == a).length < n := by
        rw [← hn, List.length_cons]
        exact Nat.lt_succ_of_le (List.length_filter_le _ _)
      exact ((ih _ hlen _ rfl).trans List.filter_sublist).cons_cons a

theorem nodup_eraseDups (l : List α) : l.eraseDups.Nodup := by
  induction hn : l.length using Nat.strongRecOn generalizing l with
  | ind n ih =>
    cases l with
    | nil => exact List.nodup_nil
    | cons a l =>
      rw [List.eraseDups_cons, List.nodup_cons]
      have hlen : (l.filter fun b => !b == a).length < n := by
        rw [← hn, List.length_cons]
        exact Nat.lt_succ_of_le (List.length_filter_le _ _)
      refine ⟨?_, ih _ hlen _ rfl⟩
      rw [List.mem_eraseDups, List.mem_filter]
      rintro ⟨-, ha⟩
      simp at ha

theorem eraseDups_of_nodup {l : List α} (h : l.Nodup) : l.eraseDups = l := by
  induction l with
  | nil => rfl
  | cons a l ih =>
    rw [List.nodup_cons] at h
    have hfilter : l.filter (fun b => !b == a) = l := by
      rw [List.filter_eq_self]
      intro b hb
      have hne : b ≠ a := by
        rintro rfl
        exact h.1 hb
      simp [hne]
    rw [List.eraseDups_cons, hfilter, ih h.2]

/-- A list with a repetition gets shorter. -/
theorem length_eraseDups_lt {l : List α} (h : ¬ l.Nodup) : l.eraseDups.length < l.length := by
  apply Nat.lt_of_le_of_ne (eraseDups_sublist l).length_le
  intro hlen
  apply h
  rw [← (eraseDups_sublist l).eq_of_length hlen]
  exact nodup_eraseDups l

end FirstAppearances

/-! ### Caches -/

/-- Every item is a result of `f`. -/
def Agrees {ε : Type w} (f : κ → Except ε ν) (d : Dict κ ν) : Prop :=
  ∀ k v, d.get? k = some v → f k = .ok v

theorem agrees_nil {ε : Type w} (f : κ → Except ε ν) : Agrees f [] := by
  intro k v h
  cases h

/-- **A result put under its key keeps a cache in agreement.** -/
theorem Agrees.set {ε : Type w} {f : κ → Except ε ν} {d : Dict κ ν} (hd : Agrees f d) {k : κ}
    {v : ν} (h : f k = .ok v) : Agrees f (d.set k v) := by
  intro l w hl
  by_cases hk : l = k
  · rw [hk, get?_set_self, Option.some.injEq] at hl
    rw [hk, h, hl]
  · rw [get?_set_of_ne d hk] at hl
    exact hd l w hl

/-- A cache that is used holds the key, or nothing is read from it. -/
theorem get?_cases (useCache : Bool) (d : Dict κ ν) (k : κ) :
    (useCache = true ∧ ∃ v, d.get? k = some v) ∨ (useCache = true → d.get? k = none) := by
  cases hget : d.get? k with
  | none => exact Or.inr fun _ => rfl
  | some v =>
    cases useCache with
    | false => exact Or.inr fun h => absurd h Bool.false_ne_true
    | true => exact Or.inl ⟨rfl, v, rfl⟩

/-! ### Grouping -/

theorem upsert_of_not_mem {d : Dict κ ν} {k : κ} (h : k ∉ d.map Prod.fst) (a : ν) (f : ν → ν) :
    d.upsert k a f = d ++ [(k, f a)] := by
  induction d with
  | nil => rfl
  | cons i d ih =>
    obtain ⟨k', v⟩ := i
    rw [List.map_cons, List.mem_cons, not_or] at h
    rw [upsert, if_neg (Ne.symm h.1), ih h.2, List.cons_append]

theorem upsert_append_of_not_mem {d : Dict κ ν} {k : κ} (h : k ∉ d.map Prod.fst) (v a : ν)
    (f : ν → ν) : upsert (d ++ [(k, v)]) k a f = d ++ [(k, f v)] := by
  induction d with
  | nil => rw [List.nil_append, upsert, if_pos rfl, List.nil_append]
  | cons i d ih =>
    obtain ⟨k', v'⟩ := i
    rw [List.map_cons, List.mem_cons, not_or] at h
    rw [List.cons_append, upsert, if_neg (Ne.symm h.1), ih h.2, List.cons_append]

variable {ρ : Type w} {γ : Type x} (key : ρ → κ) (init : ρ → ν) (upd : ρ → ν → ν)

/-- The loop body over one row. -/
def groupStep (d : Dict κ ν) (r : ρ) : Dict κ ν := d.upsert (key r) (init r) (upd r)

/-- What the rows of one group make of it. -/
def groupValue (r : ρ) (rs : List ρ) : ν := (r :: rs).foldl (fun v r => upd r v) (init r)

theorem mem_keys_upsert {d : Dict κ ν} {k l : κ} {a : ν} {f : ν → ν} :
    l ∈ (d.upsert k a f).map Prod.fst ↔ l ∈ d.map Prod.fst ∨ l = k := by
  induction d with
  | nil => simp [upsert]
  | cons i d ih =>
    obtain ⟨k', v⟩ := i
    rw [upsert]
    by_cases h : k' = k
    · subst h
      rw [if_pos rfl, List.map_cons, List.map_cons, List.mem_cons]
      constructor
      · exact Or.inl
      · rintro (h | rfl)
        · exact h
        · exact Or.inl rfl
    · rw [if_neg h, List.map_cons, List.map_cons, List.mem_cons, List.mem_cons, ih, or_assoc]

/-- The keys are those of the rows, and those from before. -/
theorem mem_keys_foldl_groupStep {rows : List ρ} {d : Dict κ ν} {k : κ} :
    k ∈ (rows.foldl (groupStep key init upd) d).map Prod.fst ↔
      k ∈ d.map Prod.fst ∨ ∃ r ∈ rows, key r = k := by
  induction rows generalizing d with
  | nil => simp
  | cons r rows ih =>
    rw [List.foldl_cons, ih, groupStep, mem_keys_upsert, or_assoc]
    apply or_congr_right
    constructor
    · rintro (rfl | ⟨s, hs, rfl⟩)
      · exact ⟨r, List.mem_cons_self, rfl⟩
      · exact ⟨s, List.mem_cons_of_mem r hs, rfl⟩
    · rintro ⟨s, hs, rfl⟩
      rcases List.mem_cons.mp hs with rfl | hs
      · exact Or.inl rfl
      · exact Or.inr ⟨s, hs, rfl⟩

/-- What every update keeps, every value has. -/
theorem forall_foldl_groupStep {P : κ → ν → Prop} (hinit : ∀ r, P (key r) (init r))
    (hupd : ∀ k r v, P k v → P k (upd r v)) {rows : List ρ} {d : Dict κ ν}
    (hd : ∀ i ∈ d, P i.1 i.2) : ∀ i ∈ rows.foldl (groupStep key init upd) d, P i.1 i.2 := by
  have hupsert : ∀ (d : Dict κ ν) (r : ρ), (∀ i ∈ d, P i.1 i.2) →
      ∀ i ∈ groupStep key init upd d r, P i.1 i.2 := by
    intro d r
    rw [groupStep]
    induction d with
    | nil =>
      intro _ i hi
      rw [upsert, List.mem_singleton] at hi
      rw [hi]
      exact hupd _ r _ (hinit r)
    | cons j d ih =>
      intro hd i hi
      obtain ⟨k', v⟩ := j
      rw [upsert] at hi
      by_cases h : k' = key r
      · rw [if_pos h] at hi
        rcases List.mem_cons.mp hi with rfl | hi
        · exact hupd _ r _ (hd (k', v) List.mem_cons_self)
        · exact hd i (List.mem_cons_of_mem _ hi)
      · rw [if_neg h] at hi
        rcases List.mem_cons.mp hi with rfl | hi
        · exact hd (k', v) List.mem_cons_self
        · exact ih (fun i hi => hd i (List.mem_cons_of_mem _ hi)) i hi
  induction rows generalizing d with
  | nil => exact hd
  | cons r rows ih => exact ih (hupsert d r hd)

theorem foldl_groupStep_same {d : Dict κ ν} {k : κ} (h : k ∉ d.map Prod.fst) {rs : List ρ}
    (hrs : ∀ r ∈ rs, key r = k) (v : ν) :
    rs.foldl (groupStep key init upd) (d ++ [(k, v)])
      = d ++ [(k, rs.foldl (fun v r => upd r v) v)] := by
  induction rs generalizing v with
  | nil => rfl
  | cons r rs ih =>
    have hr : key r = k := hrs r List.mem_cons_self
    rw [List.foldl_cons, List.foldl_cons, groupStep, hr, upsert_append_of_not_mem h]
    exact ih (fun s hs => hrs s (List.mem_cons_of_mem r hs)) _

/-- **Rows that come group by group** leave one item for each group, in the
order of the groups. -/
theorem foldl_upsert_groups (rows : γ → List ρ) (name : γ → κ) (value : γ → ν) {gs : List γ}
    (hkey : ∀ g ∈ gs, ∀ r ∈ rows g, key r = name g)
    (hvalue : ∀ g ∈ gs, ∃ r rs, rows g = r :: rs ∧ value g = groupValue init upd r rs)
    (hnodup : (gs.map name).Nodup) {d : Dict κ ν} (hd : ∀ g ∈ gs, name g ∉ d.map Prod.fst) :
    (gs.flatMap rows).foldl (groupStep key init upd) d
      = d ++ gs.map fun g => (name g, value g) := by
  induction gs generalizing d with
  | nil => rw [List.flatMap_nil, List.foldl_nil, List.map_nil, List.append_nil]
  | cons g gs ih =>
    obtain ⟨r, rs, hrows, hval⟩ := hvalue g List.mem_cons_self
    have hfresh : name g ∉ d.map Prod.fst := hd g List.mem_cons_self
    have hkeys : ∀ s ∈ r :: rs, key s = name g := by
      rw [← hrows]
      exact hkey g List.mem_cons_self
    have hgroup : (rows g).foldl (groupStep key init upd) d = d ++ [(name g, value g)] := by
      rw [hrows, List.foldl_cons, groupStep, hkeys r List.mem_cons_self, upsert_of_not_mem hfresh,
        foldl_groupStep_same key init upd hfresh
          (fun s hs => hkeys s (List.mem_cons_of_mem r hs)), hval]
      rfl
    rw [List.map_cons, List.nodup_cons] at hnodup
    rw [List.flatMap_cons, List.foldl_append, hgroup,
      ih (fun g' hg => hkey g' (List.mem_cons_of_mem g hg))
        (fun g' hg => hvalue g' (List.mem_cons_of_mem g hg)) hnodup.2, List.map_cons,
      List.append_assoc, List.singleton_append]
    intro g' hg'
    rw [List.map_append, List.mem_append, not_or]
    refine ⟨hd g' (List.mem_cons_of_mem g hg'), ?_⟩
    rw [List.map_singleton, List.mem_singleton]
    intro e
    have he : name g' = name g := e
    exact hnodup.1 (by rw [← he]; exact List.mem_map_of_mem hg')

end Dict

end SqlalchemyCubrid.Lib
