import Mathlib.Data.Prod.Basic

/-!
# Machines that answer calls

A `Machine` takes a state and a call and gives an answer and a state.  `run`
plays a list of calls, `Along` says a condition holds at every call of a run,
with the state the call meets.

Three rules on one machine carry the developments over it.

* `run_invariant`: what one call keeps, a run keeps.
* `run_foldl`: the same for the state beside the notes taken of the calls.
* `along_iff_along`: if under the invariant two conditions on a call are the
  same condition, and either keeps the invariant, they are the same on runs.

`answers` is what a run answers.  Two machines whose steps keep a relation and
answer alike answer alike on runs (`simulation`).  A machine that looks at a part
of the state, which only some of the calls touch, answers these calls alike
wherever they stand among the others (`projection`).
-/

namespace SqlalchemyCubrid.Lib

universe u v w x

/-- A deterministic machine: a call gives an answer and the next state. -/
structure Machine (σ : Type u) (ι : Type v) (ο : Type w) where
  step : σ → ι → ο × σ

namespace Machine

variable {σ : Type u} {ι : Type v} {ο : Type w} {γ : Type x}

/-- What a call answers. -/
def answer (M : Machine σ ι ο) (s : σ) (i : ι) : ο := (M.step s i).1

/-- The state a call leaves. -/
def next (M : Machine σ ι ο) (s : σ) (i : ι) : σ := (M.step s i).2

/-- The state a list of calls leaves. -/
def run (M : Machine σ ι ο) (s : σ) : List ι → σ
  | [] => s
  | i :: is => M.run (M.next s i) is

/-- `P` holds at every call of a run. -/
def Along (M : Machine σ ι ο) (P : σ → ι → Prop) : σ → List ι → Prop
  | _, [] => True
  | s, i :: is => P s i ∧ M.Along P (M.next s i) is

variable (M : Machine σ ι ο)

@[simp] theorem run_nil (s : σ) : M.run s [] = s := rfl

@[simp] theorem run_cons (s : σ) (i : ι) (is : List ι) :
    M.run s (i :: is) = M.run (M.next s i) is := rfl

@[simp] theorem along_nil (P : σ → ι → Prop) (s : σ) : M.Along P s [] := trivial

@[simp] theorem along_cons (P : σ → ι → Prop) (s : σ) (i : ι) (is : List ι) :
    M.Along P s (i :: is) ↔ P s i ∧ M.Along P (M.next s i) is := Iff.rfl

/-- A condition that does not read the state. -/
theorem along_const {P : ι → Prop} {s : σ} {is : List ι} :
    M.Along (fun _ i => P i) s is ↔ ∀ i ∈ is, P i := by
  induction is generalizing s with
  | nil => exact ⟨fun _ i hi => absurd hi List.not_mem_nil, fun _ => trivial⟩
  | cons i is ih => rw [along_cons, ih, List.forall_mem_cons]

/-- What holds of every call in every state. -/
theorem along_of_forall {P : σ → ι → Prop} (h : ∀ s i, P s i) (s : σ) (is : List ι) :
    M.Along P s is := by
  induction is generalizing s with
  | nil => exact trivial
  | cons i is ih => exact ⟨h s i, ih _⟩

/-- **The run rule.**  An invariant that every call meeting `G` keeps holds
after a run whose calls all meet `G`. -/
theorem run_invariant {I : σ → Prop} {G : σ → ι → Prop}
    (hI : ∀ s i, I s → G s i → I (M.next s i)) {s : σ} {is : List ι} (hs : I s)
    (hG : M.Along G s is) : I (M.run s is) := by
  induction is generalizing s with
  | nil => exact hs
  | cons i is ih => exact ih (hI s i hs hG.1) hG.2

/-- **Two conditions that agree under an invariant agree on runs.**  `W` is what
the callers promise of every call. -/
theorem along_iff_along {I : σ → Prop} {W G P : σ → ι → Prop}
    (hI : ∀ s i, I s → W s i → G s i → I (M.next s i))
    (hGP : ∀ s i, I s → W s i → (P s i ↔ G s i))
    {s : σ} {is : List ι} (hs : I s) (hW : M.Along W s is) :
    M.Along P s is ↔ M.Along G s is := by
  induction is generalizing s with
  | nil => exact Iff.rfl
  | cons i is ih =>
    rw [along_cons, along_cons, hGP s i hs hW.1]
    exact and_congr_right fun hg => ih (hI s i hs hW.1 hg) hW.2

/-- **The history rule.**  `f` notes each call; a relation between state and
notes that every call keeps holds after a run. -/
theorem run_foldl {R : σ → γ → Prop} (f : γ → ι → γ)
    (hR : ∀ s h i, R s h → R (M.next s i) (f h i)) {s : σ} {h : γ} (hs : R s h) (is : List ι) :
    R (M.run s is) (is.foldl f h) := by
  induction is generalizing s h with
  | nil => exact hs
  | cons i is ih => exact ih (hR s h i hs)

/-- What the calls of a run answer. -/
def answers (M : Machine σ ι ο) (s : σ) : List ι → List ο
  | [] => []
  | i :: is => M.answer s i :: M.answers (M.next s i) is

/-- **The simulation rule.**  `N` takes the calls of `M` and answers them alike,
as long as the states are related, and every call keeps them related. -/
theorem simulation {τ : Type x} (N : Machine τ ι ο) {R : σ → τ → Prop}
    (hR : ∀ s t i, R s t → M.answer s i = N.answer t i ∧ R (M.next s i) (N.next t i))
    {s : σ} {t : τ} (hs : R s t) (is : List ι) :
    M.answers s is = N.answers t is ∧ R (M.run s is) (N.run t is) := by
  induction is generalizing s t with
  | nil => exact ⟨rfl, hs⟩
  | cons i is ih =>
    obtain ⟨hanswer, hnext⟩ := hR s t i hs
    obtain ⟨hanswers, hrun⟩ := ih hnext
    exact ⟨by rw [answers, answers, hanswer, hanswers], hrun⟩

/-- What the calls that meet `p` answer in a run. -/
def answersOn (M : Machine σ ι ο) (p : ι → Bool) (s : σ) : List ι → List ο
  | [] => []
  | i :: is =>
    if p i then M.answer s i :: M.answersOn p (M.next s i) is else M.answersOn p (M.next s i) is

/-- **The projection rule.**  `N` takes the calls that meet `p` on a view of the
state, and the others leave that view alone. -/
theorem projection {τ : Type x} (N : Machine τ ι ο) {p : ι → Bool} (view : σ → τ)
    (hin : ∀ s i, p i = true →
      M.answer s i = N.answer (view s) i ∧ view (M.next s i) = N.next (view s) i)
    (hout : ∀ s i, p i = false → view (M.next s i) = view s) (s : σ) (is : List ι) :
    M.answersOn p s is = N.answers (view s) (is.filter p) ∧
      view (M.run s is) = N.run (view s) (is.filter p) := by
  induction is generalizing s with
  | nil => exact ⟨rfl, rfl⟩
  | cons i is ih =>
    obtain ⟨hanswers, hrun⟩ := ih (M.next s i)
    cases hp : p i with
    | true =>
      obtain ⟨hanswer, hview⟩ := hin s i hp
      rw [hview] at hanswers hrun
      rw [List.filter_cons_of_pos hp, answersOn, if_pos hp, answers, hanswer, hanswers]
      exact ⟨rfl, hrun⟩
    | false =>
      have hview := hout s i hp
      rw [hview] at hanswers hrun
      rw [List.filter_cons_of_neg (by simp [hp]), answersOn, if_neg (by simp [hp])]
      exact ⟨hanswers, hrun⟩

end Machine

end SqlalchemyCubrid.Lib
