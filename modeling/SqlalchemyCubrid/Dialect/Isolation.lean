import SqlalchemyCubrid.Lib.Machine
import SqlalchemyCubrid.Python.Exception

/-!
# Isolation levels of a connection

`CubridDialect` keeps the level of a connection in three places: the driver's
`autocommit`, the attribute `_sa_isolation_level`, and the server.  This file is
the code that moves them (`setIsolationLevel`, `resetIsolationLevel`,
`onConnect`, `getIsolationLevel`) as one machine over the connection, where a
call may fail because the name is unknown, because `cursor()` raises or because
the statement raises.

`Kept` is what a call owes: the three places agree afterwards, a raise changes
neither flag nor tracked level, a return reports the level asked for.
`setIsolationLevel` clears `autocommit` before it looks the name up, so a call
that leaves `AUTOCOMMIT` and fails does not pay.  `kept_iff_settled` says that
this is the only such call, and `isolation_runs_kept_iff` carries it to runs: on
a run the three places are right throughout exactly when no call that leaves
`AUTOCOMMIT` fails.
-/

namespace SqlalchemyCubrid.Dialect

open Lib Python

/-! ### The code -/

/-- `_ISOLATION_LEVEL_MAP` -/
def isolationLevelMap : List (Nat × Str) :=
  [(4, "READ COMMITTED".toList), (5, "REPEATABLE READ".toList), (6, "SERIALIZABLE".toList)]

/-- `_ISOLATION_LEVEL_REVERSE` -/
def isolationLevelReverse : List (Str × Nat) := isolationLevelMap.map fun p => (p.2, p.1)

def autocommitLevel : Str := "AUTOCOMMIT".toList

def readCommitted : Str := "READ COMMITTED".toList

/-- A DBAPI connection with its server session: `serverLevel` is the code of the
last `SET TRANSACTION ISOLATION LEVEL` the server accepted. -/
structure DbapiConnection where
  autocommit : Bool
  saIsolationLevel : Option Str
  serverLevel : Nat
  deriving DecidableEq, Repr

/-- What comes of `cursor()` and of `cursor.execute(..)` in one call. -/
structure Faults where
  cursor : Except PyError Unit
  execute : Except PyError Unit
  deriving DecidableEq

def getDefaultIsolationLevel : Str := readCommitted

def getIsolationLevelValues : List Str := autocommitLevel :: isolationLevelReverse.map (·.1)

def getIsolationLevel (c : DbapiConnection) : Str := c.saIsolationLevel.getD readCommitted

def onConnect (c : DbapiConnection) : DbapiConnection :=
  { c with autocommit := false, saIsolationLevel := some readCommitted }

def setIsolationLevel (f : Faults) (level : Str) : Py DbapiConnection Unit := do
  if level = autocommitLevel then
    modify fun c => { c with autocommit := true }
    modify fun c => { c with saIsolationLevel := some autocommitLevel }
  else
    if (← get).saIsolationLevel = some autocommitLevel then
      modify fun c => { c with autocommit := false }
    match isolationLevelReverse.lookup level with
    | none =>
      throw (.valueError "Invalid isolation level: %r. Valid levels: %s"
        (level :: isolationLevelReverse.map (·.1)))
    | some code =>
      Py.outcome f.cursor
      tryFinally
        (do
          Py.outcome f.execute
          modify fun c => { c with serverLevel := code })
        (pure ())
      modify fun c => { c with saIsolationLevel := some level }

/-- What `reset_isolation_level` uses of SQLAlchemy's
`_assert_and_set_isolation_level`: the name it hands to `set_isolation_level`,
or `none` where it raises `ArgumentError`.  The name is checked against
`get_isolation_level_values`, and a listed name is handed on as it is. -/
structure AssertLevel where
  name : Str → Option Str
  name_mem : ∀ {l l' : Str}, name l = some l' → l' ∈ getIsolationLevelValues
  name_of_mem : ∀ {l : Str}, l ∈ getIsolationLevelValues → name l = some l

/-- `self._on_connect_isolation_level or self.default_isolation_level` -/
def resetTarget : Option Str → Str
  | some (c :: l) => c :: l
  | _ => getDefaultIsolationLevel

def resetIsolationLevel (A : AssertLevel) (onConnectLevel : Option Str) (f : Faults) :
    Py DbapiConnection Unit :=
  match A.name (resetTarget onConnectLevel) with
  | none => throw .argumentError
  | some level => setIsolationLevel f level

/-! ### The machine -/

inductive LevelCall where
  | set (level : Str) (f : Faults)
  | reset (f : Faults)
  deriving DecidableEq

def LevelCall.faults : LevelCall → Faults
  | .set _ f => f
  | .reset f => f

section Machine

variable (A : AssertLevel) (onConnectLevel : Option Str)

/-- The level a call asks for; `none` when the engine-level name is refused. -/
def LevelCall.asked : LevelCall → Option Str
  | .set level _ => some level
  | .reset _ => A.name (resetTarget onConnectLevel)

def levelMachine : Machine DbapiConnection LevelCall (Except PyError Unit) where
  step c
    | .set level f => (setIsolationLevel f level).call c
    | .reset f => (resetIsolationLevel A onConnectLevel f).call c

/-- Right after `on_connect`, with the server at `READ COMMITTED`. -/
def connected (autocommit : Bool) : DbapiConnection := onConnect ⟨autocommit, none, 4⟩

/-- The three places agree. -/
structure Consistent (c : DbapiConnection) : Prop where
  autocommit_iff : c.autocommit = true ↔ getIsolationLevel c = autocommitLevel
  server : getIsolationLevel c ≠ autocommitLevel →
    isolationLevelReverse.lookup (getIsolationLevel c) = some c.serverLevel

/-- What a call owes. -/
structure Kept (c : DbapiConnection) (i : LevelCall) : Prop where
  consistent : Consistent ((levelMachine A onConnectLevel).next c i)
  of_raise : raised ((levelMachine A onConnectLevel).answer c i) = true →
    ((levelMachine A onConnectLevel).next c i).autocommit = c.autocommit ∧
      ((levelMachine A onConnectLevel).next c i).saIsolationLevel = c.saIsolationLevel
  of_return : raised ((levelMachine A onConnectLevel).answer c i) = false →
    i.asked A onConnectLevel = some (getIsolationLevel ((levelMachine A onConnectLevel).next c i))

/-- A request for a transactional level goes through: the name is known and the
driver raises nowhere. -/
def Accepted (level : Str) (f : Faults) : Prop :=
  (isolationLevelReverse.lookup level).isSome ∧ f.cursor = .ok () ∧ f.execute = .ok ()

/-- **A call that leaves `AUTOCOMMIT` goes through.** -/
def Settled (c : DbapiConnection) (i : LevelCall) : Prop :=
  c.saIsolationLevel = some autocommitLevel →
    ∀ level, i.asked A onConnectLevel = some level → level ≠ autocommitLevel →
      Accepted level i.faults

/-! ### What one call does -/

/-- The connection once a call for a transactional level has looked at it. -/
def leaveAutocommit (c : DbapiConnection) : DbapiConnection :=
  if c.saIsolationLevel = some autocommitLevel then { c with autocommit := false } else c

theorem call_setIsolationLevel_autocommit (f : Faults) (c : DbapiConnection) :
    (setIsolationLevel f autocommitLevel).call c
      = (.ok (), { c with autocommit := true, saIsolationLevel := some autocommitLevel }) := rfl

/-- Beyond the flag, a call for a transactional level is all or nothing. -/
theorem call_setIsolationLevel_cases (f : Faults) {level : Str} (h : level ≠ autocommitLevel)
    (c : DbapiConnection) :
    (∃ code, isolationLevelReverse.lookup level = some code ∧ Accepted level f ∧
      (setIsolationLevel f level).call c
        = (.ok (),
            { leaveAutocommit c with serverLevel := code, saIsolationLevel := some level })) ∨
    (¬ Accepted level f ∧
      ∃ e, (setIsolationLevel f level).call c = (.error e, leaveAutocommit c)) := by
  have hpre : ∀ k : Py DbapiConnection Unit,
      ((do
        if (← get).saIsolationLevel = some autocommitLevel then
          modify fun c => { c with autocommit := false }
        k) : Py DbapiConnection Unit).call c = k.call (leaveAutocommit c) := by
    intro k
    by_cases ha : c.saIsolationLevel = some autocommitLevel <;> simp [ha, leaveAutocommit]
  rw [setIsolationLevel, if_neg h, hpre]
  cases hl : isolationLevelReverse.lookup level with
  | none => exact Or.inr ⟨fun ha => by simp [Accepted, hl] at ha, _, rfl⟩
  | some code =>
    cases hc : f.cursor with
    | error e => exact Or.inr ⟨fun ha => by simp [Accepted, hc] at ha, e, by simp⟩
    | ok _ =>
      cases he : f.execute with
      | error e => exact Or.inr ⟨fun ha => by simp [Accepted, he] at ha, e, by simp⟩
      | ok _ => exact Or.inl ⟨code, rfl, ⟨by simp [hl], hc, he⟩, by simp⟩

variable {A onConnectLevel}

theorem step_of_asked_none {i : LevelCall} (h : i.asked A onConnectLevel = none)
    (c : DbapiConnection) :
    (levelMachine A onConnectLevel).step c i = (.error .argumentError, c) := by
  cases i with
  | set level f => exact absurd h (by simp [LevelCall.asked])
  | reset f =>
    show (resetIsolationLevel A onConnectLevel f).call c = _
    rw [LevelCall.asked] at h
    rw [resetIsolationLevel, h]
    rfl

/-- Both kinds of call are `set_isolation_level` of the level asked for. -/
theorem step_of_asked {i : LevelCall} {level : Str} (h : i.asked A onConnectLevel = some level)
    (c : DbapiConnection) :
    (levelMachine A onConnectLevel).step c i = (setIsolationLevel i.faults level).call c := by
  cases i with
  | set l f =>
    rw [LevelCall.asked, Option.some.injEq] at h
    subst h
    rfl
  | reset f =>
    show (resetIsolationLevel A onConnectLevel f).call c = _
    rw [LevelCall.asked] at h
    rw [resetIsolationLevel, h]
    rfl

/-- A reset asks for the engine-level name if there is one, else for the default. -/
theorem asked_reset (f : Faults) :
    (LevelCall.reset f).asked A none = some getDefaultIsolationLevel ∧
      ∀ l ∈ getIsolationLevelValues, (LevelCall.reset f).asked A (some l) = some l := by
  refine ⟨A.name_of_mem (by decide), fun l hl => ?_⟩
  cases l with
  | nil => exact absurd hl (by decide)
  | cons c l => exact A.name_of_mem hl

theorem kept_of_unchanged {c : DbapiConnection} {i : LevelCall} {e : PyError} (hc : Consistent c)
    (h : (levelMachine A onConnectLevel).step c i = (.error e, c)) : Kept A onConnectLevel c i := by
  refine ⟨?_, fun _ => ?_, fun hr => ?_⟩
  · rw [Machine.next, h]; exact hc
  · rw [Machine.next, h]; exact ⟨rfl, rfl⟩
  · rw [Machine.answer, h] at hr; exact absurd hr (by simp)

theorem kept_of_return {c c' : DbapiConnection} {i : LevelCall} (hc : Consistent c')
    (h : (levelMachine A onConnectLevel).step c i = (.ok (), c'))
    (hasked : i.asked A onConnectLevel = some (getIsolationLevel c')) :
    Kept A onConnectLevel c i := by
  refine ⟨?_, fun hr => ?_, fun _ => ?_⟩
  · rw [Machine.next, h]; exact hc
  · rw [Machine.answer, h] at hr; exact absurd hr (by simp)
  · rw [Machine.next, h]; exact hasked

/-! ### The invariant -/

theorem consistent_connected (autocommit : Bool) : Consistent (connected autocommit) :=
  ⟨⟨fun h => absurd h Bool.false_ne_true,
    fun h => absurd (show readCommitted = autocommitLevel from h) (by decide)⟩, fun _ => rfl⟩

theorem getIsolationLevel_eq_autocommit_iff {c : DbapiConnection} :
    getIsolationLevel c = autocommitLevel ↔ c.saIsolationLevel = some autocommitLevel := by
  rw [getIsolationLevel]
  cases c.saIsolationLevel with
  | none => exact ⟨fun h => absurd h (by decide), fun h => absurd h (by simp)⟩
  | some l => simp

theorem consistent_set_autocommit (c : DbapiConnection) :
    Consistent { c with autocommit := true, saIsolationLevel := some autocommitLevel } :=
  ⟨by simp [getIsolationLevel], fun h => absurd rfl h⟩

theorem consistent_set_level {c : DbapiConnection} (hc : Consistent c) {level : Str} {code : Nat}
    (hne : level ≠ autocommitLevel) (hcode : isolationLevelReverse.lookup level = some code) :
    Consistent { leaveAutocommit c with serverLevel := code, saIsolationLevel := some level } := by
  refine ⟨⟨fun hon => ?_, fun h => absurd h hne⟩, fun _ => hcode⟩
  exfalso
  by_cases hauto : c.saIsolationLevel = some autocommitLevel
  · rw [leaveAutocommit, if_pos hauto] at hon
    exact Bool.false_ne_true hon
  · rw [leaveAutocommit, if_neg hauto] at hon
    exact hauto (getIsolationLevel_eq_autocommit_iff.mp (hc.autocommit_iff.mp hon))

theorem kept_of_settled {c : DbapiConnection} (hc : Consistent c) {i : LevelCall}
    (hs : Settled A onConnectLevel c i) : Kept A onConnectLevel c i := by
  cases hasked : i.asked A onConnectLevel with
  | none => exact kept_of_unchanged hc (step_of_asked_none hasked c)
  | some level =>
    have hstep := step_of_asked hasked c
    by_cases hne : level = autocommitLevel
    · subst hne
      rw [call_setIsolationLevel_autocommit] at hstep
      exact kept_of_return (consistent_set_autocommit c) hstep hasked
    · rcases call_setIsolationLevel_cases i.faults hne c with
        ⟨code, hcode, _, hok⟩ | ⟨hacc, e, he⟩
      · exact kept_of_return (consistent_set_level hc hne hcode) (hstep.trans hok) hasked
      · have hauto : c.saIsolationLevel ≠ some autocommitLevel :=
          fun h => hacc (hs h level hasked hne)
        rw [he, leaveAutocommit, if_neg hauto] at hstep
        exact kept_of_unchanged hc hstep

/-- A call that leaves `AUTOCOMMIT` and fails has cleared the flag already. -/
theorem settled_of_kept {c : DbapiConnection} (hc : Consistent c) {i : LevelCall}
    (hk : Kept A onConnectLevel c i) : Settled A onConnectLevel c i := by
  intro hauto level hasked hne
  rcases call_setIsolationLevel_cases i.faults hne c with ⟨_, _, hacc, _⟩ | ⟨_, e, he⟩
  · exact hacc
  · exfalso
    have hstep := (step_of_asked hasked c).trans he
    have hflag := (hk.of_raise (by rw [Machine.answer, hstep]; rfl)).1
    rw [Machine.next, hstep, leaveAutocommit, if_pos hauto,
      hc.autocommit_iff.mpr (getIsolationLevel_eq_autocommit_iff.mpr hauto)] at hflag
    exact Bool.false_ne_true hflag

/-- **One call keeps its promises exactly when it is settled.** -/
theorem kept_iff_settled {c : DbapiConnection} (hc : Consistent c) (i : LevelCall) :
    Kept A onConnectLevel c i ↔ Settled A onConnectLevel c i :=
  ⟨settled_of_kept hc, kept_of_settled hc⟩

/-- **Runs.**  From `on_connect` on, the calls of a run keep their promises
exactly when every call of it that leaves `AUTOCOMMIT` goes through. -/
theorem isolation_runs_kept_iff (A : AssertLevel) (onConnectLevel : Option Str)
    (autocommit : Bool) (calls : List LevelCall) :
    Consistent (connected autocommit) ∧
      ((levelMachine A onConnectLevel).Along (Kept A onConnectLevel) (connected autocommit) calls ↔
        (levelMachine A onConnectLevel).Along (Settled A onConnectLevel) (connected autocommit)
          calls) := by
  refine ⟨consistent_connected autocommit, ?_⟩
  refine Machine.along_iff_along _ (I := Consistent) (W := fun _ _ => True) ?_ ?_
    (consistent_connected autocommit) ((Machine.along_const _).mpr fun _ _ => trivial)
  · intro c i hc _ hs
    exact (kept_of_settled hc hs).consistent
  · intro c i hc _
    exact kept_iff_settled hc i

/-- A name check that reads underscores as spaces. -/
def spacedName : AssertLevel where
  name l :=
    let l' := l.map fun c => if c = '_' then ' ' else c
    if l' ∈ getIsolationLevelValues then some l' else none
  name_mem {l l'} h := by
    simp only at h
    split at h
    · next hm => rw [← Option.some.inj h]; exact hm
    · exact absurd h (by simp)
  name_of_mem {l} h := by
    revert l
    decide

/-- **An unknown name after `AUTOCOMMIT`** raises, turns `autocommit` off and
leaves the tracked level at `AUTOCOMMIT`. -/
theorem unknown_level_clears_autocommit :
    ¬ (levelMachine spacedName none).Along (Kept spacedName none) (connected true)
        [.set autocommitLevel ⟨.ok (), .ok ()⟩, .set "READ UNCOMMITTED".toList ⟨.ok (), .ok ()⟩] ∧
      (levelMachine spacedName none).run (connected true)
        [.set autocommitLevel ⟨.ok (), .ok ()⟩, .set "READ UNCOMMITTED".toList ⟨.ok (), .ok ()⟩]
        = ⟨false, some autocommitLevel, 4⟩ := by
  refine ⟨fun h => ?_, by decide⟩
  have hflag := (h.2.1.of_raise (by decide)).1
  exact absurd hflag (by decide)

end Machine

end SqlalchemyCubrid.Dialect
