import Mathlib.Data.List.Sort
import Mathlib.Data.Prod.Lex

/-!
# Ordered queries

`orderBy f` sorts rows by a key, keeping the order of rows with equal keys.  With
distinct keys it does not depend on the order the rows come in
(`orderBy_eq_of_perm`).

`orderBy_join` is a join of masters with their details, ordered by the masters'
name and then by the details' number: it lists the masters in the order of their
names, each with its details in the order of their numbers.
-/

namespace SqlalchemyCubrid.Lib

universe u v w x

variable {α : Type u} {κ : Type v} [LinearOrder κ]

def orderBy (f : α → κ) (l : List α) : List α := l.insertionSort fun a b => f a ≤ f b

theorem orderBy_perm (f : α → κ) (l : List α) : (orderBy f l).Perm l :=
  List.perm_insertionSort _ l

theorem mem_orderBy {f : α → κ} {l : List α} {a : α} : a ∈ orderBy f l ↔ a ∈ l :=
  (orderBy_perm f l).mem_iff

theorem pairwise_orderBy (f : α → κ) (l : List α) :
    (orderBy f l).Pairwise fun a b => f a ≤ f b := by
  have htotal : Std.Total fun a b : α => f a ≤ f b := ⟨fun a b => le_total (f a) (f b)⟩
  have htrans : IsTrans α fun a b => f a ≤ f b := ⟨fun _ _ _ => le_trans⟩
  exact List.pairwise_insertionSort _ l

/-- Rows that are in order stay as they are. -/
theorem orderBy_of_pairwise {f : α → κ} {l : List α} (h : l.Pairwise fun a b => f a ≤ f b) :
    orderBy f l = l :=
  h.insertionSort_eq

/-- With distinct keys the order of the result is strict. -/
theorem pairwise_lt_orderBy {f : α → κ} {l : List α} (h : (l.map f).Nodup) :
    (orderBy f l).Pairwise fun a b => f a < f b := by
  have hperm : ((orderBy f l).map f).Perm (l.map f) := (orderBy_perm f l).map f
  have hne : (orderBy f l).Pairwise fun a b => f a ≠ f b :=
    List.pairwise_map.mp (hperm.nodup_iff.mpr h)
  exact ((pairwise_orderBy f l).and hne).imp fun hab => lt_of_le_of_ne hab.1 hab.2

/-- **With distinct keys there is one order.** -/
theorem orderBy_eq_of_perm {f : α → κ} {l m : List α} (hperm : l.Perm m)
    (hm : m.Pairwise fun a b => f a ≤ f b)
    (hinj : ∀ a ∈ l, ∀ b ∈ l, f a = f b → a = b) : orderBy f l = m := by
  refine List.Perm.eq_of_pairwise ?_ (pairwise_orderBy f l) hm ((orderBy_perm f l).trans hperm)
  intro a b ha hb hab hba
  exact hinj a (mem_orderBy.mp ha) b (hperm.mem_iff.mpr hb) (le_antisymm hab hba)

theorem map_orderBy {β : Type w} (f : α → κ) (g : β → κ) (h : α → β) {l : List α}
    (hfg : ∀ a ∈ l, g (h a) = f a) : (orderBy f l).map h = orderBy g (l.map h) := by
  apply List.map_insertionSort _ _ h l
  intro a ha b hb
  rw [hfg a ha, hfg b hb]

theorem filter_orderBy {f : α → κ} {l : List α} (h : (l.map f).Nodup) (p : α → Bool) :
    (orderBy f l).filter p = orderBy f (l.filter p) := by
  refine (orderBy_eq_of_perm ?_ ((pairwise_orderBy f l).filter p) ?_).symm
  · exact ((orderBy_perm f l).filter p).symm
  · intro a ha b hb hab
    exact List.inj_on_of_nodup_map h (List.mem_filter.mp ha).1 (List.mem_filter.mp hb).1 hab

section Join

variable {δ : Type w} {ω : Type x} [LinearOrder ω]

/-- A join, ordered by the masters and then by the details. -/
theorem orderBy_join (name : α → κ) (number : δ → ω) (details : α → List δ) {masters : List α}
    (hname : (masters.map name).Nodup)
    (hnumber : ∀ i ∈ masters, ((details i).map number).Nodup) :
    orderBy (fun r : α × δ => toLex (name r.1, number r.2))
        (masters.flatMap fun i => (details i).map fun k => (i, k))
      = (orderBy name masters).flatMap fun i =>
          (orderBy number (details i)).map fun k => (i, k) := by
  refine orderBy_eq_of_perm ?_ ?_ ?_
  · refine ((orderBy_perm name masters).symm.flatMap_right _).trans ?_
    induction orderBy name masters with
    | nil => exact List.Perm.refl _
    | cons i is ih =>
      rw [List.flatMap_cons, List.flatMap_cons]
      exact ((orderBy_perm number (details i)).symm.map _).append ih
  · rw [List.pairwise_flatMap]
    constructor
    · intro i hi
      rw [List.pairwise_map]
      refine (pairwise_orderBy number (details i)).imp fun {k l} h => ?_
      have hle : (name i, number k).1 = (name i, number l).1 ∧ number k ≤ number l := ⟨rfl, h⟩
      exact Prod.Lex.toLex_le_toLex.mpr (Or.inr hle)
    · refine (pairwise_lt_orderBy hname).imp fun {i j} hij => ?_
      intro r hr s hs
      obtain ⟨k, -, rfl⟩ := List.mem_map.mp hr
      obtain ⟨l, -, rfl⟩ := List.mem_map.mp hs
      exact Prod.Lex.toLex_le_toLex.mpr (Or.inl hij)
  · intro r hr s hs h
    obtain ⟨i, hi, hr⟩ := List.mem_flatMap.mp hr
    obtain ⟨j, hj, hs⟩ := List.mem_flatMap.mp hs
    obtain ⟨k, hk, rfl⟩ := List.mem_map.mp hr
    obtain ⟨l, hl, rfl⟩ := List.mem_map.mp hs
    have hkey : (name i, number k) = (name j, number l) := toLex.injective h
    obtain ⟨hn, hk'⟩ := Prod.mk.inj hkey
    have hij : i = j := List.inj_on_of_nodup_map hname hi hj hn
    subst hij
    rw [List.inj_on_of_nodup_map (hnumber i hi) hk hl hk']

end Join

end SqlalchemyCubrid.Lib
