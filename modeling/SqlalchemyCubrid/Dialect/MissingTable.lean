import SqlalchemyCubrid.Dialect.Columns
import SqlalchemyCubrid.Dialect.ForeignKeys

/-!
# Missing tables and failed queries

`get_columns` and `get_foreign_keys` find out that a table is missing by running a
statement on it: `SHOW COLUMNS`, `SHOW CREATE TABLE`.  The statement may also fail
for another reason, and its failure is the same `DatabaseError` for both.

A run is one call: the catalog, and what comes of the statements the call issues,
as far as the catalog decides it.  What the catalog holds is what its rows say, the
server's own views among them; `_has_object` and `_is_view` leave these out.
`failed_query_iff` finds the runs that are right.
-/

namespace SqlalchemyCubrid.Dialect

open Lib Python

/-- What comes of a statement on an object. -/
inductive Outcome (α : Type) where
  | success (a : α)
  /-- there is no such object -/
  | absent
  /-- the statement is not one for views -/
  | view
  /-- any other `DatabaseError`, as of a lost connection -/
  | failed

/-- What the connection returns or raises. -/
def Outcome.execute {α β : Type} (f : α → β) : Outcome α → Except PyError β
  | .success a => .ok (f a)
  | .absent => .error .databaseError
  | .view => .error .databaseError
  | .failed => .error .databaseError

section Runs

variable [UnicodeData]

/-! ### The catalog -/

/-- The catalog has a class of this kind under the name. -/
def HoldsKind (cat : Catalog) (kind name : Str) : Prop :=
  ∃ c ∈ cat.dbClass, c.className = lower name ∧ c.classType = kind

def HoldsTable (cat : Catalog) (name : Str) : Prop := HoldsKind cat "CLASS".toList name

def HoldsView (cat : Catalog) (name : Str) : Prop := HoldsKind cat "VCLASS".toList name

/-- `_is_view` finds a view of the catalog. -/
theorem holdsView_of_isView {cat : Catalog} {name : Str} (h : isView cat name = true) :
    HoldsView cat name := by
  rw [isView, decide_eq_true_iff, List.length_pos_iff_exists_mem] at h
  obtain ⟨c, hc⟩ := h
  obtain ⟨hmem, hcond⟩ := List.mem_filter.mp hc
  obtain ⟨hname, -, hkind⟩ := of_decide_eq_true hcond
  exact ⟨c, hmem, hname, hkind⟩

/-- An answer that takes no failure for a missing table and none for nothing. -/
structure ReportsFailures {α : Type} (cat : Catalog) (tableName : Str) (failed : Bool)
    (answer : Except PyError α) : Prop where
  missing : ∀ t, answer = .error (.noSuchTableError t) →
    ¬ HoldsTable cat tableName ∧ ¬ HoldsView cat tableName
  failure : failed = true → answer = .error .databaseError

namespace ReportsFailures

variable {α : Type} {cat : Catalog} {tableName : Str} {failed : Bool} {answer : Except PyError α}

theorem of_ok {a : α} (h : answer = .ok a) (hfailed : failed = false) :
    ReportsFailures cat tableName failed answer := by
  constructor
  · intro t ht
    rw [h] at ht
    cases ht
  · intro hf
    rw [hfailed] at hf
    cases hf

theorem of_databaseError (h : answer = .error .databaseError) :
    ReportsFailures cat tableName failed answer := by
  refine ⟨fun t ht => ?_, fun _ => h⟩
  rw [h] at ht
  cases ht

theorem of_missing (h : ¬ HoldsTable cat tableName ∧ ¬ HoldsView cat tableName)
    (hfailed : failed = false) : ReportsFailures cat tableName failed answer := by
  refine ⟨fun _ _ => h, fun hf => ?_⟩
  rw [hfailed] at hf
  cases hf

end ReportsFailures

/-! ### `get_columns` -/

/-- A call of `get_columns`. -/
structure ColumnsRun where
  cat : Catalog
  tableName : Str
  /-- what comes of `SHOW COLUMNS` -/
  shown : Outcome (List ColumnsRow)
  comments : List (Str × Option Str)
  /-- the query of the comments fails, with a `DatabaseError` -/
  commentsFail : Bool
  missing_of_absent : shown = .absent → ¬ HoldsTable cat tableName ∧ ¬ HoldsView cat tableName
  holdsView_of_view : shown = .view → HoldsView cat tableName

namespace ColumnsRun

def answer (r : ColumnsRun) : Except PyError (List ReflectedColumn) :=
  getColumns (r.shown.execute id)
    ⟨r.comments, if r.commentsFail then some .databaseError else none⟩ r.tableName

/-- One of the statements that are issued fails for another reason. -/
def failed (r : ColumnsRun) : Bool :=
  match r.shown with
  | .success _ => r.commentsFail
  | .failed => true
  | _ => false

def Right (r : ColumnsRun) : Prop := ReportsFailures r.cat r.tableName r.failed r.answer

/-- The statement is one for views and does not fail for another reason, and neither
does the query of the comments behind it. -/
def Sound (r : ColumnsRun) : Prop :=
  r.shown ≠ .view ∧ r.shown ≠ .failed ∧ ∀ rows, r.shown = .success rows → r.commentsFail = false

theorem answer_success {r : ColumnsRun} {rows : List ColumnsRow} (h : r.shown = .success rows) :
    r.answer = .ok (rows.map (columnInfo (commentMap r.comments))) := by
  rw [answer, h]
  apply getColumns_ok
  cases r.commentsFail with
  | true => exact Or.inr rfl
  | false => exact Or.inl rfl

/-- A failure of `SHOW COLUMNS` is taken for a missing table. -/
theorem answer_of_raised {r : ColumnsRun} (h : r.shown.execute id = .error .databaseError) :
    r.answer = .error (.noSuchTableError r.tableName) := by
  rw [answer, h]
  rfl

theorem right_iff (r : ColumnsRun) : r.Right ↔ r.Sound := by
  cases hshown : r.shown with
  | success rows =>
    have hanswer := answer_success hshown
    have hfailed : r.failed = r.commentsFail := by rw [failed, hshown]
    apply Iff.intro
    · intro h
      refine ⟨by rw [hshown]; nofun, by rw [hshown]; nofun, fun _ _ => ?_⟩
      rw [← Bool.not_eq_true]
      intro hcomments
      have herror := h.failure (hfailed.trans hcomments)
      rw [hanswer] at herror
      cases herror
    · intro h
      exact ReportsFailures.of_ok hanswer (hfailed.trans (h.2.2 rows hshown))
  | absent =>
    have hfailed : r.failed = false := by rw [failed, hshown]
    refine iff_of_true (ReportsFailures.of_missing (r.missing_of_absent hshown) hfailed) ?_
    refine ⟨by rw [hshown]; nofun, by rw [hshown]; nofun, fun rows hrows => ?_⟩
    rw [hshown] at hrows
    cases hrows
  | view =>
    have hanswer : r.answer = .error (.noSuchTableError r.tableName) :=
      answer_of_raised (by rw [hshown]; rfl)
    refine iff_of_false (fun h => ?_) fun h => h.1 hshown
    exact (h.missing _ hanswer).2 (r.holdsView_of_view hshown)
  | failed =>
    have hanswer : r.answer = .error (.noSuchTableError r.tableName) :=
      answer_of_raised (by rw [hshown]; rfl)
    have hfailed : r.failed = true := by rw [failed, hshown]
    refine iff_of_false (fun h => ?_) fun h => h.2.1 hshown
    have herror := h.failure hfailed
    rw [hanswer] at herror
    cases herror

end ColumnsRun

/-! ### `get_foreign_keys` -/

/-- A call of `get_foreign_keys`. -/
structure ForeignKeysRun where
  cat : Catalog
  tableName : Str
  schema : Option Str
  /-- the DDL of the object, if it is a table -/
  ddl : Option Statement
  /-- what comes of `SHOW CREATE TABLE`, which may be no row -/
  shown : Outcome (Option Statement)
  /-- the query of `_is_view` fails, with a `DatabaseError` -/
  viewFails : Bool
  holdsTable_of_ddl : ∀ S ∈ ddl, HoldsTable cat tableName
  ddl_of_row : ∀ S, shown = .success (some S) → ddl = some S
  missing_of_absent : shown = .absent → ¬ HoldsTable cat tableName ∧ ¬ HoldsView cat tableName
  holdsView_of_view : shown = .view → HoldsView cat tableName

namespace ForeignKeysRun

def answer (r : ForeignKeysRun) : Except PyError (List ReflectedForeignKey) :=
  getForeignKeys r.cat (r.shown.execute (Option.map Statement.text)) r.viewFails r.tableName
    r.schema

def failed (r : ForeignKeysRun) : Bool :=
  match r.shown with
  | .success _ => false
  | .failed => true
  | _ => r.viewFails

/-- A view, or a table whose text has no foreign key. -/
def HasNone (r : ForeignKeysRun) : Prop :=
  HoldsView r.cat r.tableName ∨
    HoldsTable r.cat r.tableName ∧ ∃ S ∈ r.ddl, S.foreignKeys = []

structure Right (r : ForeignKeysRun) : Prop where
  reports : ReportsFailures r.cat r.tableName r.failed r.answer
  empty : r.answer = .ok [] → r.HasNone

/-- Nothing is shown only where there is nothing to show; a view is a user's; and
where another failure is caught, so is one of `_is_view`. -/
structure Sound (r : ForeignKeysRun) : Prop where
  noRow : r.shown = .success none → r.HasNone
  view : r.shown = .view → r.viewFails = true ∨ isView r.cat r.tableName = true
  failure : r.shown = .failed → r.viewFails = true

/-- **A text with a foreign key is never read as one without.** -/
theorem foreignKeys_eq_nil {schema : Option Str} {S : Statement}
    (h : foreignKeysOf schema S.text = []) : S.foreignKeys = [] := by
  have hnil : (fkPattern.findIter 0 S.text).map (reflectForeignKey schema) = [] := by
    rw [List.eq_nil_iff_forall_not_mem]
    intro e he
    have hmem : e ∈ foreignKeysOf schema S.text := mem_orderBy.mpr he
    rw [h] at hmem
    exact List.not_mem_nil hmem
  rcases scan_statement schema S.first S.rest with ⟨-, hentries⟩ | ⟨-, hit, hmem, -⟩
  · have hmap : S.foreignKeys.map (ForeignKey.entry schema) = [] := hentries.symm.trans hnil
    exact List.map_eq_nil_iff.mp hmap
  · have hfind : fkPattern.findIter 0 S.text = [] := List.map_eq_nil_iff.mp hnil
    have hin : hit ∈ fkPattern.findIter 0 S.text := hmem
    rw [hfind] at hin
    exact absurd hin List.not_mem_nil

/-- `SHOW CREATE TABLE` raises. -/
def Raised (r : ForeignKeysRun) : Prop :=
  r.shown.execute (Option.map Statement.text) = .error .databaseError

theorem answer_of_raised {r : ForeignKeysRun} (h : r.Raised) :
    r.answer = if r.viewFails then .error .databaseError
      else if isView r.cat r.tableName then .ok [] else .error (.noSuchTableError r.tableName) := by
  rw [answer, h]
  rfl

theorem right_of_row {r : ForeignKeysRun} {S : Statement} (h : r.shown = .success (some S)) :
    r.Right := by
  have hanswer : r.answer = .ok (foreignKeysOf r.schema S.text) := by
    rw [answer, h]
    rfl
  have hddl : r.ddl = some S := r.ddl_of_row S h
  have hfailed : r.failed = false := by rw [failed, h]
  refine ⟨ReportsFailures.of_ok hanswer hfailed, fun hempty => ?_⟩
  rw [hanswer] at hempty
  exact Or.inr ⟨r.holdsTable_of_ddl S hddl, S, hddl, foreignKeys_eq_nil (Except.ok.inj hempty)⟩

/-- Without a row the answer is the empty list. -/
theorem right_iff_of_noRow {r : ForeignKeysRun} (h : r.shown = .success none) :
    r.Right ↔ r.HasNone := by
  have hanswer : r.answer = .ok [] := by
    rw [answer, h]
    rfl
  have hfailed : r.failed = false := by rw [failed, h]
  apply Iff.intro
  · intro hr
    exact hr.empty hanswer
  · intro hnone
    exact ⟨ReportsFailures.of_ok hanswer hfailed, fun _ => hnone⟩

/-- The failure of `_is_view` is raised as it is. -/
theorem right_of_viewFails {r : ForeignKeysRun} (hraised : r.Raised) (h : r.viewFails = true) :
    r.Right := by
  have hanswer := answer_of_raised hraised
  rw [if_pos h] at hanswer
  refine ⟨ReportsFailures.of_databaseError hanswer, fun hempty => ?_⟩
  rw [hanswer] at hempty
  cases hempty

/-- An object that `_is_view` knows has no foreign keys. -/
theorem right_of_isView {r : ForeignKeysRun} (hraised : r.Raised) (hfailed : r.failed = false)
    (hfails : r.viewFails = false) (h : isView r.cat r.tableName = true) : r.Right := by
  have hanswer := answer_of_raised hraised
  rw [hfails, if_neg Bool.false_ne_true, if_pos h] at hanswer
  exact ⟨ReportsFailures.of_ok hanswer hfailed, fun _ => Or.inl (holdsView_of_isView h)⟩

/-- What `_is_view` does not know is said to be missing. -/
theorem right_iff_of_not_isView {r : ForeignKeysRun} (hraised : r.Raised)
    (hfailed : r.failed = false) (hfails : r.viewFails = false)
    (h : isView r.cat r.tableName = false) :
    r.Right ↔ ¬ HoldsTable r.cat r.tableName ∧ ¬ HoldsView r.cat r.tableName := by
  have hanswer := answer_of_raised hraised
  rw [hfails, if_neg Bool.false_ne_true, h, if_neg Bool.false_ne_true] at hanswer
  apply Iff.intro
  · intro hr
    exact hr.reports.missing _ hanswer
  · intro hmissing
    refine ⟨ReportsFailures.of_missing hmissing hfailed, fun hempty => ?_⟩
    rw [hanswer] at hempty
    cases hempty

theorem right_of_absent {r : ForeignKeysRun} (h : r.shown = .absent) : r.Right := by
  have hraised : r.Raised := by rw [Raised, h]; rfl
  have hmissing := r.missing_of_absent h
  cases hfails : r.viewFails with
  | true => exact right_of_viewFails hraised hfails
  | false =>
    have hfailed : r.failed = false := by rw [failed, h, hfails]
    have hview : isView r.cat r.tableName = false :=
      Bool.eq_false_iff.mpr fun hv => hmissing.2 (holdsView_of_isView hv)
    exact (right_iff_of_not_isView hraised hfailed hfails hview).mpr hmissing

/-- A view that is the server's own is said to be missing. -/
theorem right_iff_of_view {r : ForeignKeysRun} (h : r.shown = .view) :
    r.Right ↔ r.viewFails = true ∨ isView r.cat r.tableName = true := by
  have hraised : r.Raised := by rw [Raised, h]; rfl
  cases hfails : r.viewFails with
  | true => exact iff_of_true (right_of_viewFails hraised hfails) (Or.inl rfl)
  | false =>
    have hfailed : r.failed = false := by rw [failed, h, hfails]
    cases hview : isView r.cat r.tableName with
    | true => exact iff_of_true (right_of_isView hraised hfailed hfails hview) (Or.inr rfl)
    | false =>
      rw [right_iff_of_not_isView hraised hfailed hfails hview]
      refine iff_of_false (fun hmissing => hmissing.2 (r.holdsView_of_view h)) ?_
      rintro (hf | hf)
      · cases hf
      · cases hf

theorem right_iff_of_failed {r : ForeignKeysRun} (h : r.shown = .failed) :
    r.Right ↔ r.viewFails = true := by
  have hraised : r.Raised := by rw [Raised, h]; rfl
  have hfailed : r.failed = true := by rw [failed, h]
  refine ⟨fun hr => ?_, right_of_viewFails hraised⟩
  have hanswer := hr.reports.failure hfailed
  rw [answer_of_raised hraised] at hanswer
  by_contra hview
  rw [if_neg hview] at hanswer
  split at hanswer
  · cases hanswer
  · cases hanswer

theorem right_iff (r : ForeignKeysRun) : r.Right ↔ r.Sound := by
  -- one field of `Sound` is about each outcome
  have hsound : r.Sound ↔ (r.shown = .success none → r.HasNone) ∧
      (r.shown = .view → r.viewFails = true ∨ isView r.cat r.tableName = true) ∧
      (r.shown = .failed → r.viewFails = true) :=
    ⟨fun h => ⟨h.noRow, h.view, h.failure⟩, fun h => ⟨h.1, h.2.1, h.2.2⟩⟩
  rw [hsound]
  cases hshown : r.shown with
  | success row =>
    cases row with
    | some S => simpa using right_of_row hshown
    | none => simpa using right_iff_of_noRow hshown
  | absent => simpa using right_of_absent hshown
  | view => simpa using right_iff_of_view hshown
  | failed => simpa using right_iff_of_failed hshown

end ForeignKeysRun

/-- **No failure is taken for a missing table, and none for nothing**, in exactly the
runs that are sound. -/
theorem failed_query_iff :
    (∀ r : ColumnsRun, r.Right ↔ r.Sound) ∧ ∀ r : ForeignKeysRun, r.Right ↔ r.Sound :=
  ⟨ColumnsRun.right_iff, ForeignKeysRun.right_iff⟩

end Runs

/-- The table `t` and the server's own view `db_index`. -/
def systemCatalog : Catalog :=
  ⟨[⟨"t".toList, .no, "CLASS".toList⟩, ⟨"db_index".toList, .yes, "VCLASS".toList⟩], [], []⟩

/-- The columns of the table, with a connection that is lost. -/
def lostColumnsRun : let _ := asciiData; ColumnsRun :=
  let _ := asciiData
  { cat := systemCatalog
    tableName := "t".toList
    shown := .failed
    comments := []
    commentsFail := true
    missing_of_absent := by intro h; cases h
    holdsView_of_view := by intro h; cases h }

/-- The foreign keys of the view. -/
def systemViewRun : let _ := asciiData; ForeignKeysRun :=
  let _ := asciiData
  { cat := systemCatalog
    tableName := "db_index".toList
    schema := none
    ddl := none
    shown := .view
    viewFails := false
    holdsTable_of_ddl := by intro S h; cases h
    ddl_of_row := by intro S h; cases h
    missing_of_absent := by intro h; cases h
    holdsView_of_view := fun _ => ⟨⟨"db_index".toList, .yes, "VCLASS".toList⟩, by decide⟩ }

/-- **A table is reported as missing** when the connection is lost, and so is a view
of the server's own. -/
theorem held_objects_reported_missing :
    let _ := asciiData
    lostColumnsRun.answer = .error (.noSuchTableError "t".toList) ∧
      HoldsTable systemCatalog "t".toList ∧ ¬ lostColumnsRun.Right ∧
      systemViewRun.answer = .error (.noSuchTableError "db_index".toList) ∧
      HoldsView systemCatalog "db_index".toList ∧ ¬ systemViewRun.Right := by
  intro _
  have hcolumns : lostColumnsRun.answer = .error (.noSuchTableError "t".toList) := rfl
  have htable : HoldsTable systemCatalog "t".toList :=
    ⟨⟨"t".toList, .no, "CLASS".toList⟩, by decide⟩
  have hforeign : systemViewRun.answer = .error (.noSuchTableError "db_index".toList) := by decide
  have hview : HoldsView systemCatalog "db_index".toList := systemViewRun.holdsView_of_view rfl
  refine ⟨hcolumns, htable, ?_, hforeign, hview, ?_⟩
  · intro h
    exact (h.missing _ hcolumns).1 htable
  · intro h
    exact (h.reports.missing _ hforeign).2 hview

end SqlalchemyCubrid.Dialect
