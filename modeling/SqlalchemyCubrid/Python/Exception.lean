import SqlalchemyCubrid.Python.Str
import Mathlib.Data.List.Forall2

/-!
# Python code that raises

`Py σ α` is Python code over a state `σ`: it returns an `α` or raises, and what
it did to the state before raising stays done (`EStateM`, whose `try` rolls
nothing back).  `Py.call` plays such code as one call: the answer or the
exception, and the state it leaves.  The `call_` equations run code statement by
statement.
-/

namespace SqlalchemyCubrid.Python

/-- The exceptions the repository raises or catches.  A message is its format
string and the values put into it. -/
inductive PyError where
  /-- `ValueError(template % args)` -/
  | valueError (template : String) (args : List Str)
  /-- `sqlalchemy.exc.ArgumentError` -/
  | argumentError
  /-- `sqlalchemy.exc.NoSuchTableError(table_name)` -/
  | noSuchTableError (table_name : Str)
  /-- `sqlalchemy.exc.DatabaseError`, the base of `ProgrammingError`,
  `OperationalError` and `InternalError` -/
  | databaseError
  /-- any other exception -/
  | other
  deriving DecidableEq, Repr

/-- Python code over a state: a raise keeps what was done before it. -/
abbrev Py (σ α : Type) := EStateM PyError σ α

namespace Py

variable {σ α β : Type}

/-- A step outside this repository, by what comes of it. -/
def outcome : Except PyError α → Py σ α
  | .ok a => pure a
  | .error e => throw e

/-- One call: the answer or the exception, and the state it leaves. -/
def call (x : Py σ α) (s : σ) : Except PyError α × σ :=
  match x s with
  | .ok a s' => (.ok a, s')
  | .error e s' => (.error e, s')

@[simp] theorem call_pure (a : α) (s : σ) : (pure a : Py σ α).call s = (.ok a, s) := rfl

@[simp] theorem call_throw (e : PyError) (s : σ) :
    (throw e : Py σ α).call s = (.error e, s) := rfl

@[simp] theorem call_get (s : σ) : (get : Py σ σ).call s = (.ok s, s) := rfl

@[simp] theorem call_modify (f : σ → σ) (s : σ) :
    (modify f : Py σ Unit).call s = (.ok (), f s) := rfl

@[simp] theorem call_outcome (r : Except PyError α) (s : σ) :
    (outcome r : Py σ α).call s = (r, s) := by
  cases r <;> rfl

/-- One statement, and the rest if it did not raise. -/
@[simp] theorem call_bind (x : Py σ α) (f : α → Py σ β) (s : σ) :
    (x >>= f).call s = match x.call s with
      | (.ok a, s') => (f a).call s'
      | (.error e, s') => (.error e, s') := by
  simp only [call, bind, EStateM.bind]
  cases x s <;> rfl

@[simp] theorem call_map (x : Py σ α) (f : α → β) (s : σ) :
    (f <$> x).call s = match x.call s with
      | (.ok a, s') => (.ok (f a), s')
      | (.error e, s') => (.error e, s') := by
  simp only [call, Functor.map, EStateM.map]
  cases x s <;> rfl

theorem call_map_snd (x : Py σ α) (f : α → β) (s : σ) :
    ((f <$> x).call s).2 = (x.call s).2 := by
  rw [call_map]
  cases x.call s with
  | mk r s' => cases r <;> rfl

theorem call_map_fst (x : Py σ α) (f : α → β) (s : σ) :
    ((f <$> x).call s).1 = (x.call s).1.map f := by
  rw [call_map]
  cases x.call s with
  | mk r s' => cases r <;> rfl

theorem call_map_fst_of_ok {x : Py σ α} {s : σ} {a : α} (h : (x.call s).1 = .ok a) (f : α → β) :
    ((f <$> x).call s).1 = .ok (f a) := by
  rw [call_map_fst, h]
  rfl

/-- `try: x except: h`; the handler starts from the state the raise left. -/
@[simp] theorem call_tryCatch (x : Py σ α) (h : PyError → Py σ α) (s : σ) :
    (tryCatch x h).call s = match x.call s with
      | (.ok a, s') => (.ok a, s')
      | (.error e, s') => (h e).call s' := by
  simp only [call, tryCatch, tryCatchThe, MonadExceptOf.tryCatch, EStateM.tryCatch]
  cases x s <;> rfl

/-- `try: x finally: y` -/
@[simp] theorem call_tryFinally (x : Py σ α) (y : Py σ β) (s : σ) :
    (tryFinally x y).call s = match x.call s with
      | (r, s') => match y.call s' with
        | (.ok _, s'') => (r, s'')
        | (.error e, s'') => (.error e, s'') := by
  simp only [call, tryFinally, tryFinally', Functor.map, EStateM.map]
  cases x s with
  | ok a s' => simp only []; cases y s' <;> rfl
  | error e s' => simp only []; cases y s' <;> rfl

/-! ### Code that keeps a condition on the state -/

/-- Whether it returns or raises, the code keeps `I`. -/
def Keeps (I : σ → Prop) (x : Py σ α) : Prop := ∀ s, I s → I (x.call s).2

variable {I : σ → Prop}

theorem keeps_pure (a : α) : Keeps I (pure a : Py σ α) := fun _ hs => hs

theorem Keeps.bind {x : Py σ α} {f : α → Py σ β} (hx : Keeps I x) (hf : ∀ a, Keeps I (f a)) :
    Keeps I (x >>= f) := by
  intro s hs
  have h := hx s hs
  rw [call_bind]
  cases hc : x.call s with
  | mk r s' =>
    rw [hc] at h
    cases r with
    | ok a => exact hf a s' h
    | error e => exact h

theorem Keeps.tryCatch {x : Py σ α} {h : PyError → Py σ α} (hx : Keeps I x)
    (hh : ∀ e, Keeps I (h e)) : Keeps I (tryCatch x h) := by
  intro s hs
  have hI := hx s hs
  rw [call_tryCatch]
  cases hc : x.call s with
  | mk r s' =>
    rw [hc] at hI
    cases r with
    | ok a => exact hI
    | error e => exact hh e s' hI

theorem Keeps.tryFinally {x : Py σ α} {y : Py σ β} (hx : Keeps I x) (hy : Keeps I y) :
    Keeps I (tryFinally x y) := by
  intro s hs
  have h := hy _ (hx s hs)
  rw [call_tryFinally]
  cases hc : x.call s with
  | mk r s' =>
    rw [hc] at h
    cases hd : y.call s' with
    | mk r' s'' =>
      rw [hd] at h
      simp only [hd]
      cases r' <;> exact h

end Py

/-- Did the call raise? -/
def raised {α : Type} : Except PyError α → Bool
  | .ok _ => false
  | .error _ => true

@[simp] theorem raised_ok {α : Type} (a : α) : raised (.ok a) = false := rfl

@[simp] theorem raised_error {α : Type} (e : PyError) :
    raised (.error e : Except PyError α) = true := rfl

theorem bind_eq_ok_iff {α β : Type} {x : Except PyError α} {f : α → Except PyError β} {b : β} :
    (x >>= f) = .ok b ↔ ∃ a, x = .ok a ∧ f a = .ok b := by
  cases x with
  | error e =>
    apply iff_of_false
    · intro h
      cases h
    · intro h
      obtain ⟨a, ha, -⟩ := h
      cases ha
  | ok a =>
    apply Iff.intro
    · intro h
      exact ⟨a, rfl, h⟩
    · intro h
      obtain ⟨a', ha, hb⟩ := h
      cases ha
      exact hb

/-- A comprehension whose items may raise. -/
theorem mapM_eq_ok_iff {α β : Type} {f : α → Except PyError β} {l : List α} {ys : List β} :
    l.mapM f = .ok ys ↔ List.Forall₂ (fun a b => f a = .ok b) l ys := by
  induction l generalizing ys with
  | nil =>
    rw [List.mapM_nil, List.forall₂_nil_left_iff]
    constructor
    · intro h
      cases h
      rfl
    · rintro rfl
      rfl
  | cons a l ih =>
    rw [List.mapM_cons, bind_eq_ok_iff]
    constructor
    · intro h
      obtain ⟨b, ha, h⟩ := h
      obtain ⟨bs, hl, h⟩ := bind_eq_ok_iff.mp h
      cases h
      exact .cons ha (ih.mp hl)
    · intro h
      cases h with
      | @cons _ b _ bs ha hl =>
        exact ⟨b, ha, bind_eq_ok_iff.mpr ⟨bs, ih.mpr hl, rfl⟩⟩

theorem exists_ok_of_mapM {α β : Type} {f : α → Except PyError β} {l : List α} {ys : List β}
    (h : l.mapM f = .ok ys) {a : α} (ha : a ∈ l) : ∃ b, f a = .ok b := by
  have hforall := mapM_eq_ok_iff.mp h
  induction hforall with
  | nil => exact absurd ha List.not_mem_nil
  | @cons c b l ys hc hl ih =>
    cases List.mem_cons.mp ha with
    | inl e => exact ⟨b, e ▸ hc⟩
    | inr ha => exact ih (mapM_eq_ok_iff.mpr hl) ha

theorem mapM_eq_ok_map {α β : Type} {f : α → Except PyError β} {g : α → β} {l : List α}
    (h : ∀ a ∈ l, f a = .ok (g a)) : l.mapM f = .ok (l.map g) := by
  rw [mapM_eq_ok_iff, List.forall₂_map_right_iff, List.forall₂_same]
  exact h

end SqlalchemyCubrid.Python
