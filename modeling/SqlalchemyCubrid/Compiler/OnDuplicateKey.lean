import SqlalchemyCubrid.Lib.Dict
import SqlalchemyCubrid.Python.Exception
import Mathlib.Algebra.Order.BigOperators.Group.List
import Mathlib.Algebra.Order.Group.Nat
import Mathlib.Data.List.Nodup

/-!
# `ON DUPLICATE KEY UPDATE`

`Insert.on_duplicate_key_update` takes keywords, a dict, a list of pairs or a
column collection and keeps a dict of them, with the order of the keys if it was a
list.  `visit_on_duplicate_key_update` goes over the columns of the table and
prints an assignment for each that has a key in the dict.

A `Complete` clause has one assignment for every key that was given.
`on_duplicate_complete_iff` says when what is printed is complete: when there is a
key, every key is a column's, and no key of a list is repeated.
-/

namespace SqlalchemyCubrid.Compiler

open Lib Python

/-! ### Arguments -/

/-- A positional argument, with string keys. -/
inductive UpdateArg (E : Type) where
  | dict (m : Mapping Str E)
  | pairs (ps : List (Str × E))
  /-- by its items; a key that is there twice gives the first column -/
  | columnCollection (cs : List (Str × E))

structure OnDuplicateClause (E : Type) where
  parameterOrdering : Option (List Str)
  update : Dict Str E

/-- A column of a `Table`. -/
structure TableColumn where
  key : Str
  name : Str
  deriving DecidableEq, Repr

/-- `Table.c` -/
structure TableColumns where
  columns : List TableColumn
  nodup_keys : (columns.map TableColumn.key).Nodup

section Code

variable {E : Type}

/-- `OnDuplicateClause.__init__` -/
def initOnDuplicateClause : UpdateArg E → Except PyError (OnDuplicateClause E)
  | .pairs ps =>
    if ps ≠ [] then
      .ok ⟨some (ps.map Prod.fst), Dict.setAll [] ps⟩
    else
      .error (.valueError ("update parameter must be a non-empty dictionary "
        ++ "or a ColumnCollection such as the `.c.` collection of a Table object") [])
  | .dict m =>
    if m.items = [] then
      .error (.valueError "update parameter dictionary must not be empty" [])
    else
      .ok ⟨none, m.items⟩
  | .columnCollection cs =>
    .ok ⟨none, Dict.setAll [] (cs.map fun c => (c.1, (Dict.get? cs c.1).getD c.2))⟩

/-- `Insert.on_duplicate_key_update(*args, **kw)` on a statement that has no such
clause yet. -/
def onDuplicateKeyUpdate (args : List (UpdateArg E)) (kw : Mapping Str E) :
    Except PyError (OnDuplicateClause E) :=
  if args ≠ [] ∧ kw.items ≠ [] then .error .argumentError
  else
    match args with
    | [] => initOnDuplicateClause (.dict kw)
    | [values] => initOnDuplicateClause values
    | _ => .error .argumentError

variable (T : TableColumns) (quote : Str → Str) (process : E → Except PyError Str)

/-- `statement.table.c.get(key)` -/
def TableColumns.column? (key : Str) : Option TableColumn := T.columns.find? fun c => c.key = key

/-- `cols` -/
def columnsInOrder (d : OnDuplicateClause E) : List TableColumn :=
  match d.parameterOrdering with
  | some ordering =>
    if ordering ≠ [] then
      ordering.filterMap T.column? ++ T.columns.filter fun c => c.key ∉ ordering
    else
      T.columns
  | none => T.columns

/-- `"%s = %s" % (self.preparer.quote(col.name), self.process(val))` -/
def assignment (a : TableColumn × E) : Except PyError Str := do
  return quote a.1.name ++ " = ".toList ++ (← process a.2)

/-- The columns of the loop that are in the dict, with their values. -/
def assigned (d : OnDuplicateClause E) : List (TableColumn × E) :=
  (columnsInOrder T d).filterMap fun c => (d.update.get? c.key).map fun v => (c, v)

def visitOnDuplicateKeyUpdate (d : OnDuplicateClause E) : Except PyError Str := do
  let clauses ← (assigned T d).mapM (assignment quote process)
  return "ON DUPLICATE KEY UPDATE ".toList ++ join ", ".toList clauses

/-- The clause of a statement, from the call on. -/
def upsertClause (args : List (UpdateArg E)) (kw : Mapping Str E) : Except PyError Str := do
  visitOnDuplicateKeyUpdate T quote process (← onDuplicateKeyUpdate args kw)

end Code

/-! ### Complete clauses -/

section Complete

variable {E : Type}

/-- The argument a call is about, if it is about one. -/
def argument (args : List (UpdateArg E)) (kw : Mapping Str E) : Option (UpdateArg E) :=
  match args with
  | [] => some (.dict kw)
  | [values] => if kw.items = [] then some values else none
  | _ => none

namespace UpdateArg

/-- The keys as they were given. -/
def keys : UpdateArg E → List Str
  | .dict m => m.items.map Prod.fst
  | .pairs ps => ps.map Prod.fst
  | .columnCollection cs => cs.map Prod.fst

/-- The value last given for a key. -/
def given : UpdateArg E → Str → Option E
  | .dict m, k => m.items.get? k
  | .pairs ps, k => Dict.get? ps.reverse k
  | .columnCollection cs, k => Dict.get? cs k

/-- The keys in the order a complete clause assigns them: of first appearance in
a list, and of the table otherwise. -/
def wanted (T : TableColumns) : UpdateArg E → List Str
  | .pairs ps => (ps.map Prod.fst).eraseDups
  | arg => (T.columns.map TableColumn.key).filter fun k => k ∈ arg.keys

end UpdateArg

variable (T : TableColumns) (quote : Str → Str) (process : E → Except PyError Str)

/-- One assignment for every key, to the column of the key and of the value last
given for it, in the right order, and at least one. -/
def Complete (arg : UpdateArg E) (text : Str) : Prop :=
  ∃ (as : List (TableColumn × E)) (clauses : List Str),
    (∀ a ∈ as, a.1 ∈ T.columns ∧ arg.given a.1.key = some a.2) ∧
    as.map (fun a => a.1.key) = arg.wanted T ∧
    (∀ k ∈ arg.keys, k ∈ arg.wanted T) ∧
    List.Forall₂ (fun a clause => ∃ t, process a.2 = .ok t ∧
      clause = quote a.1.name ++ " = ".toList ++ t) as clauses ∧
    clauses ≠ [] ∧ text = "ON DUPLICATE KEY UPDATE ".toList ++ join ", ".toList clauses

/-- An empty dict or list. -/
def UpdateArg.Rejected : UpdateArg E → Prop
  | .dict m => m.items = []
  | .pairs ps => ps = []
  | .columnCollection _ => False

/-- A value given for a column of the table does not compile. -/
def UpdateArg.Fails (arg : UpdateArg E) : Prop :=
  ∃ c ∈ T.columns, ∃ v e, arg.given c.key = some v ∧ process v = .error e

/-- There is a key, every key is a column's, and no key of a list is repeated. -/
def UpdateArg.Fits (arg : UpdateArg E) : Prop :=
  arg.keys ≠ [] ∧ (∀ k ∈ arg.keys, k ∈ T.columns.map TableColumn.key) ∧
    match arg with
    | .pairs ps => (ps.map Prod.fst).Nodup
    | _ => True

end Complete

/-! ### The clause that is kept -/

section Kept

variable {E : Type}

/-- The order that is kept. -/
def UpdateArg.ordering : UpdateArg E → Option (List Str)
  | .pairs ps => some (ps.map Prod.fst)
  | _ => none

theorem UpdateArg.given_eq_none_iff (arg : UpdateArg E) (k : Str) :
    arg.given k = none ↔ k ∉ arg.keys := by
  cases arg with
  | dict m => exact Dict.get?_eq_none_iff
  | columnCollection cs => exact Dict.get?_eq_none_iff
  | pairs ps =>
    show Dict.get? ps.reverse k = none ↔ k ∉ ps.map Prod.fst
    rw [Dict.get?_eq_none_iff, List.map_reverse, List.mem_reverse]

/-- **What is kept of an argument**: its order, and for every key the value given
last. -/
theorem init_of_not_rejected {arg : UpdateArg E} (h : ¬ arg.Rejected) :
    ∃ d, initOnDuplicateClause arg = .ok d ∧ d.parameterOrdering = arg.ordering ∧
      ∀ k, d.update.get? k = arg.given k := by
  cases arg with
  | dict m => exact ⟨⟨none, m.items⟩, if_neg h, rfl, fun _ => rfl⟩
  | pairs ps =>
    refine ⟨⟨some (ps.map Prod.fst), Dict.setAll [] ps⟩, if_pos h, rfl, ?_⟩
    intro k
    show (Dict.setAll [] ps).get? k = Dict.get? ps.reverse k
    rw [Dict.get?_setAll]
    exact Option.or_none
  | columnCollection cs =>
    refine ⟨_, rfl, rfl, ?_⟩
    intro k
    show (Dict.setAll [] (cs.map fun c => (c.1, (Dict.get? cs c.1).getD c.2))).get? k
      = Dict.get? cs k
    rw [Dict.get?_setAll]
    refine Option.or_none.trans (Dict.get?_eq_of_forall ?_ ?_)
    · intro i hi
      obtain ⟨c, hc, rfl⟩ := List.mem_map.mp (List.mem_reverse.mp hi)
      have hsome : Dict.get? cs c.1 ≠ none := by
        rw [Ne, Dict.get?_eq_none_iff, not_not]
        exact List.mem_map_of_mem hc
      cases hget : Dict.get? cs c.1 with
      | none => exact absurd hget hsome
      | some v =>
        rfl
    · intro hk
      rw [Ne, Dict.get?_eq_none_iff, not_not] at hk
      rw [List.map_reverse, List.mem_reverse, List.map_map]
      exact hk

theorem init_of_rejected {arg : UpdateArg E} (h : arg.Rejected) :
    ∃ e, initOnDuplicateClause arg = .error e := by
  cases arg with
  | dict m => exact ⟨_, if_pos h⟩
  | pairs ps => exact ⟨_, if_neg (not_not.mpr h)⟩
  | columnCollection cs => exact absurd h id

theorem onDuplicateKeyUpdate_eq (args : List (UpdateArg E)) (kw : Mapping Str E) :
    onDuplicateKeyUpdate args kw = match argument args kw with
      | some arg => initOnDuplicateClause arg
      | none => .error .argumentError := by
  unfold onDuplicateKeyUpdate
  cases args with
  | nil => exact if_neg fun h => h.1 rfl
  | cons values args =>
    cases args with
    | nil =>
      by_cases hkw : kw.items = []
      · rw [if_neg fun h => h.2 hkw, argument, if_pos hkw]
      · rw [if_pos ⟨List.cons_ne_nil _ _, hkw⟩, argument, if_neg hkw]
    | cons b args => exact ite_self _

end Kept

/-! ### The loop -/

section Loop

variable {E : Type} {T : TableColumns}

theorem column?_eq_some_iff {k : Str} {c : TableColumn} :
    T.column? k = some c ↔ c ∈ T.columns ∧ c.key = k := by
  have hkey {c : TableColumn} (h : T.column? k = some c) : c ∈ T.columns ∧ c.key = k :=
    ⟨List.mem_of_find?_eq_some h,
      of_decide_eq_true (List.find?_some (p := fun c : TableColumn => decide (c.key = k)) h)⟩
  constructor
  · exact hkey
  · rintro ⟨hc, rfl⟩
    cases hfind : T.column? c.key with
    | none =>
      have := List.find?_eq_none.mp hfind c hc
      simp at this
    | some c' =>
      obtain ⟨hc', hk⟩ := hkey hfind
      rw [List.inj_on_of_nodup_map T.nodup_keys hc' hc hk]

theorem mem_columnsInOrder (d : OnDuplicateClause E) (c : TableColumn) :
    c ∈ columnsInOrder T d ↔ c ∈ T.columns := by
  rw [columnsInOrder]
  cases d.parameterOrdering with
  | none => exact Iff.rfl
  | some ordering =>
    simp only
    by_cases hne : ordering ≠ []
    · rw [if_pos hne, List.mem_append, List.mem_filterMap, List.mem_filter, decide_eq_true_iff]
      constructor
      · rintro (⟨k, -, hk⟩ | ⟨hc, -⟩)
        · exact (column?_eq_some_iff.mp hk).1
        · exact hc
      · intro hc
        by_cases hk : c.key ∈ ordering
        · exact Or.inl ⟨c.key, hk, column?_eq_some_iff.mpr ⟨hc, rfl⟩⟩
        · exact Or.inr ⟨hc, hk⟩
    · rw [if_neg hne]

theorem mem_assigned (d : OnDuplicateClause E) (a : TableColumn × E) :
    a ∈ assigned T d ↔ a.1 ∈ T.columns ∧ d.update.get? a.1.key = some a.2 := by
  rw [assigned, List.mem_filterMap, ← mem_columnsInOrder d]
  constructor
  · rintro ⟨c, hc, h⟩
    obtain ⟨v, hv, rfl⟩ := Option.map_eq_some_iff.mp h
    exact ⟨hc, hv⟩
  · rintro ⟨hc, hv⟩
    exact ⟨a.1, hc, by rw [hv]; rfl⟩

/-- In table order the keys of the loop are the table's that were given. -/
theorem keys_assigned_of_table {d : OnDuplicateClause E} (hd : d.parameterOrdering = none)
    {arg : UpdateArg E} (hget : ∀ k, d.update.get? k = arg.given k) :
    (assigned T d).map (fun a => a.1.key)
      = (T.columns.map TableColumn.key).filter fun k => k ∈ arg.keys := by
  have hcols : columnsInOrder T d = T.columns := by rw [columnsInOrder, hd]
  rw [assigned, hcols]
  induction T.columns with
  | nil => rfl
  | cons c cs ih =>
    rw [List.filterMap_cons, List.map_cons, List.filter_cons]
    cases hc : arg.given c.key with
    | none =>
      have hk := (arg.given_eq_none_iff c.key).mp hc
      rw [hget, hc, if_neg (by simpa using hk)]
      exact ih
    | some v =>
      have hk : c.key ∈ arg.keys := by
        by_contra hn
        rw [(arg.given_eq_none_iff c.key).mpr hn] at hc
        cases hc
      rw [hget, hc, if_pos (by simpa using hk)]
      exact congrArg (c.key :: ·) ih

/-- In the order of a list whose keys are all columns, the keys of the loop are
the list's, repetitions included. -/
theorem keys_assigned_of_list {ps : List (Str × E)} (hne : ps ≠ []) {d : OnDuplicateClause E}
    (hd : d.parameterOrdering = some (ps.map Prod.fst))
    (hget : ∀ k, d.update.get? k = (UpdateArg.pairs ps).given k)
    (hknown : ∀ k ∈ ps.map Prod.fst, k ∈ T.columns.map TableColumn.key) :
    (assigned T d).map (fun a => a.1.key) = ps.map Prod.fst := by
  let f := fun c : TableColumn => (d.update.get? c.key).map fun v => (c, v)
  have hcols : columnsInOrder T d = (ps.map Prod.fst).filterMap T.column?
      ++ T.columns.filter fun c => c.key ∉ ps.map Prod.fst := by
    rw [columnsInOrder, hd]
    exact if_pos fun h => hne (List.map_eq_nil_iff.mp h)
  have hgiven : ∀ k, d.update.get? k = none ↔ k ∉ ps.map Prod.fst := by
    intro k
    rw [hget]
    exact (UpdateArg.pairs ps).given_eq_none_iff k
  have hrest : (T.columns.filter fun c => c.key ∉ ps.map Prod.fst).filterMap f = [] := by
    rw [List.filterMap_eq_nil_iff]
    intro c hc
    have hk := of_decide_eq_true (List.mem_filter.mp hc).2
    show (d.update.get? c.key).map _ = none
    rw [(hgiven c.key).mpr hk]
    rfl
  have hfirst : ∀ ks : List Str, (∀ k ∈ ks, k ∈ ps.map Prod.fst) →
      ((ks.filterMap T.column?).filterMap f).map (fun a => a.1.key) = ks := by
    intro ks hks
    induction ks with
    | nil => rfl
    | cons k ks ih =>
      have hk := hks k List.mem_cons_self
      obtain ⟨c, hc, hck⟩ := List.mem_map.mp (hknown k hk)
      cases hv : d.update.get? k with
      | none => exact absurd hk ((hgiven k).mp hv)
      | some v =>
        have hf : f c = some (c, v) := by
          show (d.update.get? c.key).map _ = _
          rw [hck, hv]
          rfl
        rw [List.filterMap_cons_some (column?_eq_some_iff.mpr ⟨hc, hck⟩),
          List.filterMap_cons_some hf, List.map_cons,
          ih fun l hl => hks l (List.mem_cons_of_mem k hl), hck]
  show ((columnsInOrder T d).filterMap f).map _ = _
  rw [hcols, List.filterMap_append, hrest, List.append_nil]
  exact hfirst _ fun _ h => h

end Loop

/-! ### What is printed -/

section Printed

variable {E : Type} {T : TableColumns} {quote : Str → Str} {process : E → Except PyError Str}

theorem assignment_eq_ok_iff (a : TableColumn × E) (clause : Str) :
    assignment quote process a = .ok clause ↔
      ∃ t, process a.2 = .ok t ∧ clause = quote a.1.name ++ " = ".toList ++ t := by
  rw [assignment, bind_eq_ok_iff]
  refine exists_congr fun t => and_congr_right fun _ => ?_
  constructor
  · intro h
    cases h
    rfl
  · rintro rfl
    rfl

/-- **The text of a clause**, by its assignments. -/
theorem visit_eq_ok_iff (d : OnDuplicateClause E) (text : Str) :
    visitOnDuplicateKeyUpdate T quote process d = .ok text ↔
      ∃ clauses, List.Forall₂ (fun a clause => ∃ t, process a.2 = .ok t ∧
          clause = quote a.1.name ++ " = ".toList ++ t) (assigned T d) clauses ∧
        text = "ON DUPLICATE KEY UPDATE ".toList ++ join ", ".toList clauses := by
  have hforall (clauses : List Str) : (assigned T d).mapM (assignment quote process) = .ok clauses ↔
      List.Forall₂ (fun a clause => ∃ t, process a.2 = .ok t ∧
        clause = quote a.1.name ++ " = ".toList ++ t) (assigned T d) clauses := by
    rw [mapM_eq_ok_iff]
    simp only [assignment_eq_ok_iff]
  rw [visitOnDuplicateKeyUpdate, bind_eq_ok_iff]
  refine exists_congr fun clauses => and_congr (hforall clauses) ?_
  constructor
  · intro h
    cases h
    rfl
  · rintro rfl
    rfl

/-- A clause is printed when all values compile. -/
theorem exists_clauses {as : List (TableColumn × E)}
    (h : ∀ a ∈ as, ∀ e, process a.2 ≠ .error e) :
    ∃ clauses, List.Forall₂ (fun a clause => ∃ t, process a.2 = .ok t ∧
      clause = quote a.1.name ++ " = ".toList ++ t) as clauses := by
  induction as with
  | nil => exact ⟨[], .nil⟩
  | cons a as ih =>
    obtain ⟨clauses, hclauses⟩ := ih fun b hb => h b (List.mem_cons_of_mem a hb)
    cases ha : process a.2 with
    | error e => exact absurd ha (h a List.mem_cons_self e)
    | ok t => exact ⟨_ :: clauses, .cons ⟨t, ha, rfl⟩ hclauses⟩

/-- The length of the assignment to a key. -/
def clauseLength (T : TableColumns) (quote : Str → Str) (process : E → Except PyError Str)
    (arg : UpdateArg E) (k : Str) : Nat :=
  match T.column? k, arg.given k with
  | some c, some v =>
    match process v with
    | .ok t => (quote c.name ++ " = ".toList ++ t).length
    | .error _ => 0
  | _, _ => 0

theorem length_clauses {arg : UpdateArg E} {as : List (TableColumn × E)} {clauses : List Str}
    (has : ∀ a ∈ as, a.1 ∈ T.columns ∧ arg.given a.1.key = some a.2)
    (h : List.Forall₂ (fun a clause => ∃ t, process a.2 = .ok t ∧
      clause = quote a.1.name ++ " = ".toList ++ t) as clauses) :
    clauses.map List.length
      = (as.map fun a => a.1.key).map (clauseLength T quote process arg) := by
  induction h with
  | nil => rfl
  | @cons a clause as clauses hclause hrest ih =>
    obtain ⟨t, ht, rfl⟩ := hclause
    obtain ⟨hc, hv⟩ := has a List.mem_cons_self
    have hlen : clauseLength T quote process arg a.1.key
        = (quote a.1.name ++ " = ".toList ++ t).length := by
      rw [clauseLength, column?_eq_some_iff.mpr ⟨hc, rfl⟩, hv]
      simp only [ht]
    rw [List.map_cons, List.map_cons, List.map_cons, hlen,
      ih fun b hb => has b (List.mem_cons_of_mem a hb)]

/-- A list with a repetition prints more than its distinct keys. -/
theorem length_join_lt {ks : List Str} (hks : ¬ ks.Nodup) (size : Str → Nat) {cs cs' : List Str}
    (h : cs.map List.length = ks.map size) (h' : cs'.map List.length = ks.eraseDups.map size)
    (hne : cs' ≠ []) : (join ", ".toList cs').length < (join ", ".toList cs).length := by
  have hsum : (ks.eraseDups.map size).sum ≤ (ks.map size).sum :=
    ((Dict.eraseDups_sublist ks).map size).sum_le_sum fun _ _ => Nat.zero_le _
  have hlen : cs.length = ks.length := by simpa using congrArg List.length h
  have hlen' : cs'.length = ks.eraseDups.length := by simpa using congrArg List.length h'
  have hlt := Dict.length_eraseDups_lt hks
  have hpos : 0 < cs'.length := List.length_pos_of_ne_nil hne
  have hsep : (", ".toList).length = 2 := rfl
  rw [length_join, length_join, h, h', hsep]
  omega

/-- **Keys that fit are printed completely.** -/
theorem complete_of_fits {arg : UpdateArg E} (hne : ¬ arg.Rejected) (hfits : arg.Fits T)
    {d : OnDuplicateClause E} (hord : d.parameterOrdering = arg.ordering)
    (hget : ∀ k, d.update.get? k = arg.given k) {text : Str}
    (h : visitOnDuplicateKeyUpdate T quote process d = .ok text) :
    Complete T quote process arg text := by
  obtain ⟨clauses, hclauses, htext⟩ := (visit_eq_ok_iff d text).mp h
  obtain ⟨hkeys, hknown, hdistinct⟩ := hfits
  have hassigned : ∀ a ∈ assigned T d, a.1 ∈ T.columns ∧ arg.given a.1.key = some a.2 := by
    intro a ha
    rw [← hget]
    exact (mem_assigned d a).mp ha
  have hwanted : (assigned T d).map (fun a => a.1.key) = arg.wanted T := by
    cases arg with
    | dict m => exact keys_assigned_of_table hord hget
    | columnCollection cs => exact keys_assigned_of_table hord hget
    | pairs ps =>
      rw [keys_assigned_of_list hne hord hget hknown]
      exact (Dict.eraseDups_of_nodup hdistinct).symm
  have hall : ∀ k ∈ arg.keys, k ∈ arg.wanted T := by
    intro k hk
    cases arg with
    | dict m => exact List.mem_filter.mpr ⟨hknown k hk, decide_eq_true hk⟩
    | columnCollection cs => exact List.mem_filter.mpr ⟨hknown k hk, decide_eq_true hk⟩
    | pairs ps => exact List.mem_eraseDups.mpr hk
  refine ⟨assigned T d, clauses, hassigned, hwanted, hall, hclauses, ?_, htext⟩
  rintro rfl
  obtain ⟨k, hk⟩ := List.exists_mem_of_ne_nil _ hkeys
  have hnil : assigned T d = [] := List.forall₂_nil_right_iff.mp hclauses
  have hmem := hall k hk
  rw [← hwanted, hnil] at hmem
  exact List.not_mem_nil hmem

/-- **A complete clause is printed for keys that fit only.** -/
theorem fits_of_complete {arg : UpdateArg E} (hne : ¬ arg.Rejected)
    {d : OnDuplicateClause E} (hord : d.parameterOrdering = arg.ordering)
    (hget : ∀ k, d.update.get? k = arg.given k) {text : Str}
    (h : visitOnDuplicateKeyUpdate T quote process d = .ok text)
    (hcomplete : Complete T quote process arg text) : arg.Fits T := by
  obtain ⟨as, clauses, has, hwanted, hall, hclauses, hclausesne, htext⟩ := hcomplete
  have hasne : as ≠ [] := by
    rintro rfl
    exact hclausesne (List.forall₂_nil_left_iff.mp hclauses)
  have hknown : ∀ k ∈ arg.keys, k ∈ T.columns.map TableColumn.key := by
    intro k hk
    have hmem := hall k hk
    rw [← hwanted] at hmem
    obtain ⟨a, ha, rfl⟩ := List.mem_map.mp hmem
    exact List.mem_map_of_mem (has a ha).1
  refine ⟨?_, hknown, ?_⟩
  · obtain ⟨a, ha⟩ := List.exists_mem_of_ne_nil _ hasne
    have hsome := (has a ha).2
    intro hnil
    have hnone : arg.given a.1.key = none := by
      rw [arg.given_eq_none_iff, hnil]
      exact List.not_mem_nil
    rw [hnone] at hsome
    cases hsome
  · cases arg with
    | dict m => trivial
    | columnCollection cs => trivial
    | pairs ps =>
      -- a repeated key is printed again, and the text is longer
      by_contra hrepeated
      obtain ⟨printed, hprinted, htext'⟩ := (visit_eq_ok_iff d text).mp h
      have hassigned : ∀ a ∈ assigned T d, a.1 ∈ T.columns ∧
          (UpdateArg.pairs ps).given a.1.key = some a.2 := by
        intro a ha
        rw [← hget]
        exact (mem_assigned d a).mp ha
      have hlen := length_clauses hassigned hprinted
      rw [keys_assigned_of_list hne hord hget hknown] at hlen
      have hlen' := length_clauses has hclauses
      rw [hwanted] at hlen'
      have hlt := length_join_lt hrepeated _ hlen hlen' hclausesne
      have hjoin : join ", ".toList printed = join ", ".toList clauses :=
        List.append_cancel_left (htext'.symm.trans htext)
      rw [hjoin] at hlt
      exact lt_irrefl _ hlt

variable (quote) in
/-- The clause fails to compile when a value for a column does. -/
theorem fails_iff {arg : UpdateArg E} {d : OnDuplicateClause E}
    (hget : ∀ k, d.update.get? k = arg.given k) :
    arg.Fails T process ↔ ∀ text, visitOnDuplicateKeyUpdate T quote process d ≠ .ok text := by
  constructor
  · rintro ⟨c, hc, v, e, hv, he⟩ text htext
    obtain ⟨clauses, hclauses, -⟩ := (visit_eq_ok_iff d text).mp htext
    have hcompile : ∀ a ∈ assigned T d, ∃ t, process a.2 = .ok t := by
      refine ((List.forall₂_and_left (R := fun _ _ => True) _ clauses).mp (hclauses.imp ?_)).1
      rintro a _ ⟨t, ht, -⟩
      exact ⟨⟨t, ht⟩, trivial⟩
    have hmem : (c, v) ∈ assigned T d := (mem_assigned d (c, v)).mpr ⟨hc, by rw [hget]; exact hv⟩
    obtain ⟨t, ht⟩ := hcompile (c, v) hmem
    rw [show process (c, v).2 = .error e from he] at ht
    cases ht
  · intro h
    by_contra hnone
    have hcompile : ∀ a ∈ assigned T d, ∀ e, process a.2 ≠ .error e := by
      intro a ha e he
      obtain ⟨hc, hv⟩ := (mem_assigned d a).mp ha
      exact hnone ⟨a.1, hc, a.2, e, by rw [← hget]; exact hv, he⟩
    obtain ⟨clauses, hclauses⟩ := exists_clauses hcompile
    exact h _ ((visit_eq_ok_iff d _).mpr ⟨clauses, hclauses, rfl⟩)

variable (T quote process) in
/-- A call is about one argument, which is kept or rejected. -/
theorem upsertClause_cases {args : List (UpdateArg E)} {kw : Mapping Str E} {arg : UpdateArg E}
    (harg : argument args kw = some arg) :
    (arg.Rejected ∧ ∃ e, upsertClause T quote process args kw = .error e) ∨
      (¬ arg.Rejected ∧ ∃ d, d.parameterOrdering = arg.ordering ∧
        (∀ k, d.update.get? k = arg.given k) ∧
        upsertClause T quote process args kw = visitOnDuplicateKeyUpdate T quote process d) := by
  rw [upsertClause, onDuplicateKeyUpdate_eq, harg]
  by_cases hrejected : arg.Rejected
  · obtain ⟨e, he⟩ := init_of_rejected hrejected
    simp only [he]
    exact Or.inl ⟨hrejected, e, rfl⟩
  · obtain ⟨d, hd, hord, hget⟩ := init_of_not_rejected hrejected
    simp only [hd]
    exact Or.inr ⟨hrejected, d, hord, hget, rfl⟩

/-- **What is printed is complete when the keys fit.** -/
theorem complete_iff_fits {args : List (UpdateArg E)} {kw : Mapping Str E} {arg : UpdateArg E}
    (harg : argument args kw = some arg) {text : Str}
    (htext : upsertClause T quote process args kw = .ok text) :
    Complete T quote process arg text ↔ arg.Fits T := by
  rcases upsertClause_cases T quote process harg with
    ⟨-, e, he⟩ | ⟨hrejected, d, hord, hget, hcall⟩
  · rw [he] at htext
    cases htext
  · rw [hcall] at htext
    exact ⟨fits_of_complete hrejected hord hget htext,
      fun hfits => complete_of_fits hrejected hfits hord hget htext⟩

end Printed

/-- **Upserts.**  What a call and the compiler print is complete exactly when one
of them raises or the keys fit. -/
theorem on_duplicate_complete_iff {E : Type} (T : TableColumns) (quote : Str → Str)
    (process : E → Except PyError Str) (args : List (UpdateArg E)) (kw : Mapping Str E) :
    (∀ text, upsertClause T quote process args kw = .ok text →
        ∃ arg, argument args kw = some arg ∧ Complete T quote process arg text) ↔
      ∀ arg, argument args kw = some arg →
        arg.Rejected ∨ arg.Fails T process ∨ arg.Fits T := by
  constructor
  · intro h arg harg
    rcases upsertClause_cases T quote process harg with
      ⟨hrejected, -⟩ | ⟨-, d, -, hget, hcall⟩
    · exact Or.inl hrejected
    · by_cases hfails : arg.Fails T process
      · exact Or.inr (Or.inl hfails)
      · rw [fails_iff quote hget] at hfails
        push Not at hfails
        obtain ⟨text, htext⟩ := hfails
        rw [← hcall] at htext
        obtain ⟨arg', harg', hcomplete⟩ := h text htext
        cases harg.symm.trans harg'
        exact Or.inr (Or.inr ((complete_iff_fits harg htext).mp hcomplete))
  · intro h text htext
    cases harg : argument args kw with
    | none =>
      rw [upsertClause, onDuplicateKeyUpdate_eq, harg] at htext
      cases htext
    | some arg =>
      refine ⟨arg, rfl, (complete_iff_fits harg htext).mpr ?_⟩
      rcases upsertClause_cases T quote process harg with
        ⟨-, e, he⟩ | ⟨hrejected, d, -, hget, hcall⟩
      · rw [he] at htext
        cases htext
      · rcases h arg harg with hr | hf | hfits
        · exact absurd hr hrejected
        · rw [hcall] at htext
          exact absurd htext ((fails_iff quote hget).mp hf text)
        · exact hfits

/-- **Three clauses that are not complete**: a key given twice is assigned twice, a
key of no column is dropped, and an empty collection leaves no assignment. -/
theorem on_duplicate_drops_and_repeats :
    let T : TableColumns := ⟨[⟨"id".toList, "id".toList⟩, ⟨"n".toList, "name".toList⟩], by decide⟩
    let process : Int → Except PyError Str := fun i => .ok (formatInt i)
    let clause := fun arg : UpdateArg Int => upsertClause T id process [arg] ⟨[], List.nodup_nil⟩
    let twice : UpdateArg Int := .pairs [("n".toList, 1), ("n".toList, 2)]
    let unknown : UpdateArg Int :=
      .dict ⟨[("n".toList, 1), ("name".toList, 2)], by decide⟩
    let empty : UpdateArg Int := .columnCollection []
    clause twice = .ok "ON DUPLICATE KEY UPDATE name = 2, name = 2".toList ∧
      clause unknown = .ok "ON DUPLICATE KEY UPDATE name = 1".toList ∧
      clause empty = .ok "ON DUPLICATE KEY UPDATE ".toList ∧
      ∀ arg ∈ [twice, unknown, empty], ¬ ∀ text, clause arg = .ok text →
        ∃ arg', argument [arg] ⟨[], List.nodup_nil⟩ = some arg' ∧
          Complete T id process arg' text := by
  intro T process clause twice unknown empty
  have hprinted : clause twice = .ok "ON DUPLICATE KEY UPDATE name = 2, name = 2".toList ∧
      clause unknown = .ok "ON DUPLICATE KEY UPDATE name = 1".toList ∧
      clause empty = .ok "ON DUPLICATE KEY UPDATE ".toList := by
    decide
  have hnot {arg : UpdateArg Int} {text : Str} (htext : clause arg = .ok text)
      (hfits : ¬ arg.Fits T) : ¬ ∀ text, clause arg = .ok text →
        ∃ arg', argument [arg] ⟨[], List.nodup_nil⟩ = some arg' ∧
          Complete T id process arg' text := by
    intro h
    obtain ⟨arg', harg, hcomplete⟩ := h text htext
    cases harg
    exact hfits ((complete_iff_fits rfl htext).mp hcomplete)
  obtain ⟨htwice, hunknown, hempty⟩ := hprinted
  refine ⟨htwice, hunknown, hempty, ?_⟩
  intro arg harg
  simp only [List.mem_cons, List.not_mem_nil, or_false] at harg
  rcases harg with rfl | rfl | rfl
  · exact hnot htwice fun hfits => absurd hfits.2.2 (by decide)
  · exact hnot hunknown fun hfits => absurd hfits.2.1 (by decide)
  · exact hnot hempty fun hfits => hfits.1 rfl

end SqlalchemyCubrid.Compiler
