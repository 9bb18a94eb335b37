import SqlalchemyCubrid.Lib.Machine
import SqlalchemyCubrid.Python.Exception

/-!
# Query tracing

`trace_query` and `QueryTracer` switch the server's trace flag on, run something
and switch it off again.  Here they run over one session and one tracer, and any
statement they execute may raise; a statement that raises has no effect.

`Quiet` is what the session owes after a call: an active tracer means the flag
is on, and otherwise the flag is off, unless a `SET TRACE OFF` failed and no
`SET TRACE ON` has gone through since.

* `keeps_exec`: the tracer (`start`, `stop`, `with` blocks with any body) keeps
  it, whatever raises.
* `quiet_traceQuery_iff`: `trace_query` keeps it exactly when neither the user's
  statement nor `SHOW TRACE` raises after `SET TRACE ON` went through; it has no
  `finally`.
* `trace_runs_quiet_iff` says the same of runs.
-/

namespace SqlalchemyCubrid.Trace

open Lib Python

/-! ### The session -/

/-- The statements the two helpers execute. -/
inductive Stmt where
  | setTraceOn (output : Str)
  | showTrace
  | setTraceOff
  | user
  deriving DecidableEq, Repr

/-- The server session and the tracer on it.  `log` is every statement executed,
the latest first, and whether it raised. -/
structure Session where
  trace : Bool
  log : List (Stmt × Bool)
  output : Str
  active : Bool
  deriving DecidableEq, Repr

/-- The trace flag after a statement that went through. -/
def Stmt.effect : Stmt → Bool → Bool
  | .setTraceOn _, _ => true
  | .setTraceOff, _ => false
  | _, b => b

/-- `connection.execute(text(..))` -/
def execute {α : Type} (st : Stmt) (r : Except PyError α) : Py Session α := do
  modify fun s => { s with log := (st, raised r) :: s.log }
  let a ← Py.outcome r
  modify fun s => { s with trace := st.effect s.trace }
  return a

/-! ### The code -/

section Code

variable [UnicodeData]

def outputs : List Str := ["TEXT".toList, "JSON".toList]

/-- `trace_query(connection, sql, params, output)`, by what comes of its four
statements. -/
structure TraceQuery (ρ : Type) where
  output : Str
  on : Except PyError Unit
  sql : Except PyError ρ
  show_ : Except PyError (Option Str)
  off : Except PyError Unit

/-- `row[0] if row else ""` -/
def traceOutput (row : Option Str) : Str := row.getD []

def traceQuery {ρ : Type} (q : TraceQuery ρ) : Py Session (ρ × Str) := do
  if upper q.output ∉ outputs then
    throw (.valueError "output must be 'TEXT' or 'JSON'" [])
  else
    execute (.setTraceOn (upper q.output)) q.on
    let result ← execute .user q.sql
    let row ← execute .showTrace q.show_
    execute .setTraceOff q.off
    return (result, traceOutput row)

def start (on : Except PyError Unit) : Py Session Unit := do
  execute (.setTraceOn (← get).output) on
  modify fun s => { s with active := true }

def stop (show_ : Except PyError (Option Str)) (off : Except PyError Unit) : Py Session Str := do
  if (← get).active = false then
    return []
  else
    let row ← execute .showTrace show_
    execute .setTraceOff off
    modify fun s => { s with active := false }
    return traceOutput row

/-- Uses of the connection: a user's statement, the two helpers, and code around
them.  `attempt` is `try: .. except: pass`. -/
inductive Use where
  | user (r : Except PyError Unit)
  | query (q : TraceQuery Unit)
  | start (on : Except PyError Unit)
  | stop (show_ : Except PyError (Option Str)) (off : Except PyError Unit)
  | block (on : Except PyError Unit) (body : List Use) (show_ : Except PyError (Option Str))
      (off : Except PyError Unit)
  | attempt (u : Use)

mutual

/-- One use.  A `with` block is `__enter__`, the body, and `__exit__` whether or
not the body raised. -/
def Use.exec : Use → Py Session Unit
  | .user r => execute .user r
  | .query q => do let _ ← traceQuery q
  | .start on => Trace.start on
  | .stop show_ off => do let _ ← Trace.stop show_ off
  | .block on body show_ off => do
    Trace.start on
    tryFinally (Use.execAll body) (Trace.stop show_ off)
  | .attempt u => tryCatch u.exec fun _ => pure ()

def Use.execAll : List Use → Py Session Unit
  | [] => pure ()
  | u :: us => do
    u.exec
    Use.execAll us

end

/-- Code that runs no `trace_query`. -/
def Use.Solo : Use → Prop
  | .query _ => False
  | .block _ body _ _ => ∀ u ∈ body, u.Solo
  | .attempt u => u.Solo
  | _ => True

end Code

/-! ### What the session owes -/

/-- The last word on the flag was a `SET TRACE OFF` that failed. -/
def leftOn : List (Stmt × Bool) → Bool
  | [] => false
  | (.setTraceOff, failed) :: _ => failed
  | (.setTraceOn _, false) :: _ => false
  | _ :: log => leftOn log

/-- An active tracer has the flag on, and without one the flag is off, but for a
`SET TRACE OFF` that failed. -/
structure Quiet (s : Session) : Prop where
  active : s.active = true → s.trace = true
  idle : s.active = false → s.trace = true → leftOn s.log = true

/-- The flag off, nothing executed, the tracer not active. -/
def opened (output : Str) : Session := ⟨false, [], output, false⟩

/-- `QueryTracer(connection, output)` on a connection with the flag off. -/
def queryTracer [UnicodeData] (output : Str) : Except PyError Session :=
  if upper output ∉ outputs then
    .error (.valueError "output must be 'TEXT' or 'JSON'" [])
  else
    .ok (opened (upper output))

theorem quiet_opened (output : Str) : Quiet (opened output) :=
  ⟨fun h => absurd h Bool.false_ne_true, fun _ h => absurd h Bool.false_ne_true⟩

/-! ### One statement -/

theorem call_execute_ok {α : Type} (st : Stmt) (a : α) (s : Session) :
    (execute st (.ok a)).call s
      = (.ok a, { s with log := (st, false) :: s.log, trace := st.effect s.trace }) := rfl

theorem call_execute_error {α : Type} (st : Stmt) (e : PyError) (s : Session) :
    (execute st (.error e : Except PyError α)).call s
      = (.error e, { s with log := (st, true) :: s.log }) := rfl

/-- A statement the log skips: not about the flag, or a `SET TRACE ON` that
failed. -/
theorem Quiet.skip {s : Session} (h : Quiet s) {entry : Stmt × Bool}
    (hl : leftOn (entry :: s.log) = leftOn s.log) :
    Quiet { s with log := entry :: s.log } :=
  ⟨h.active, fun hi ht => hl.trans (h.idle hi ht)⟩

theorem keeps_execute_user {α : Type} (r : Except PyError α) :
    Py.Keeps Quiet (execute .user r) := by
  intro s hs
  cases r with
  | ok a => exact hs.skip rfl
  | error e => exact hs.skip rfl

/-! ### The tracer -/

theorem keeps_start (on : Except PyError Unit) : Py.Keeps Quiet (start on) := by
  intro s hs
  cases on with
  | ok a => exact ⟨fun _ => rfl, fun h => absurd h (by simp [start, call_execute_ok])⟩
  | error e =>
    have : ((start (.error e)).call s).2
        = { s with log := (.setTraceOn s.output, true) :: s.log } := by
      simp [start, call_execute_error]
    rw [this]
    exact hs.skip rfl

theorem keeps_stop (show_ : Except PyError (Option Str)) (off : Except PyError Unit) :
    Py.Keeps Quiet (stop show_ off) := by
  intro s hs
  cases ha : s.active with
  | false =>
    have : ((stop show_ off).call s).2 = s := by simp [stop, ha]
    rw [this]
    exact hs
  | true =>
    have ht := hs.active ha
    cases show_ with
    | error e =>
      have : ((stop (.error e) off).call s).2 = { s with log := (.showTrace, true) :: s.log } := by
        simp [stop, ha, call_execute_error]
      rw [this]
      exact hs.skip rfl
    | ok row =>
      cases off with
      | error e =>
        refine ⟨fun _ => ?_, fun h => ?_⟩
        · simpa [stop, ha, call_execute_ok, call_execute_error, Stmt.effect] using ht
        · simp [stop, ha, call_execute_ok, call_execute_error] at h
      | ok a =>
        refine ⟨fun h => ?_, fun _ h => ?_⟩
        · simp [stop, ha, call_execute_ok] at h
        · simp [stop, ha, call_execute_ok, Stmt.effect] at h

section Uses

variable [UnicodeData]

mutual

/-- **The tracer leaks nothing**, whatever raises in it or in the code around
it. -/
theorem keeps_exec : ∀ {u : Use}, u.Solo → Py.Keeps Quiet u.exec
  | .user r, _ => keeps_execute_user r
  | .query _, h => absurd h (by simp [Use.Solo])
  | .start on, _ => keeps_start on
  | .stop show_ off, _ => (keeps_stop show_ off).bind fun _ => Py.keeps_pure _
  | .block on body show_ off, h =>
    (keeps_start on).bind fun _ =>
      (keeps_execAll (by simpa [Use.Solo] using h)).tryFinally (keeps_stop show_ off)
  | .attempt u, h => (keeps_exec (by simpa [Use.Solo] using h)).tryCatch fun _ => Py.keeps_pure _

theorem keeps_execAll : ∀ {us : List Use}, (∀ u ∈ us, u.Solo) → Py.Keeps Quiet (Use.execAll us)
  | [], _ => Py.keeps_pure _
  | u :: us, h =>
    (keeps_exec (h u (by simp))).bind fun _ => keeps_execAll fun v hv => h v (by simp [hv])

end

/-! ### `trace_query` -/

/-- **Once `SET TRACE ON` went through, nothing before `SET TRACE OFF` raises.** -/
def TraceQuery.Finishes {ρ : Type} (q : TraceQuery ρ) : Prop :=
  upper q.output ∈ outputs → q.on = .ok () →
    raised q.sql = false ∧ raised q.show_ = false

/-- The session after `trace_query`: untouched, or with the log longer, and in
the last two cases after `SET TRACE OFF`. -/
theorem session_traceQuery {ρ : Type} (q : TraceQuery ρ) (s : Session) :
    ((traceQuery q).call s).2 =
      if upper q.output ∉ outputs then s
      else if q.on = .ok () then
        if raised q.sql then
          { s with
            trace := true
            log := (.user, true) :: (.setTraceOn (upper q.output), false) :: s.log }
        else if raised q.show_ then
          { s with
            trace := true
            log := (.showTrace, true) :: (.user, false) :: (.setTraceOn (upper q.output), false)
              :: s.log }
        else
          { s with
            trace := raised q.off
            log := (.setTraceOff, raised q.off) :: (.showTrace, false) :: (.user, false)
              :: (.setTraceOn (upper q.output), false) :: s.log }
      else { s with log := (.setTraceOn (upper q.output), true) :: s.log } := by
  by_cases hv : upper q.output ∉ outputs
  · simp [traceQuery, hv]
  · rw [if_neg hv, traceQuery, if_neg hv]
    cases q.on with
    | error e => simp [call_execute_error]
    | ok u =>
      cases q.sql with
      | error e => simp [call_execute_ok, call_execute_error, Stmt.effect]
      | ok a =>
        cases q.show_ with
        | error e => simp [call_execute_ok, call_execute_error, Stmt.effect]
        | ok row =>
          cases q.off with
          | error e => simp [call_execute_ok, call_execute_error, Stmt.effect]
          | ok u' => simp [call_execute_ok, Stmt.effect]

/-- **With no tracer active, `trace_query` leaves the session quiet exactly when
it finishes.** -/
theorem quiet_traceQuery_iff {ρ : Type} {s : Session} (hs : Quiet s) (ha : s.active = false)
    (q : TraceQuery ρ) : Quiet ((traceQuery q).call s).2 ↔ q.Finishes := by
  rw [session_traceQuery]
  by_cases hv : upper q.output ∉ outputs
  · rw [if_pos hv]
    exact ⟨fun _ h => absurd h hv, fun _ => hs⟩
  rw [if_neg hv]
  by_cases hon : q.on = .ok ()
  · rw [if_pos hon]
    cases hsql : raised q.sql with
    | true =>
      rw [if_pos rfl]
      constructor
      · intro h
        exact absurd (h.idle ha rfl) (by simp [leftOn])
      · intro h
        exact absurd (h (not_not.mp hv) hon).1 (by simp [hsql])
    | false =>
      rw [if_neg Bool.false_ne_true]
      cases hshow : raised q.show_ with
      | true =>
        rw [if_pos rfl]
        constructor
        · intro h
          exact absurd (h.idle ha rfl) (by simp [leftOn])
        · intro h
          exact absurd (h (not_not.mp hv) hon).2 (by simp [hshow])
      | false =>
        rw [if_neg Bool.false_ne_true]
        refine ⟨fun _ _ _ => ⟨hsql, hshow⟩, fun _ => ⟨fun h => ?_, fun _ h => h⟩⟩
        exact absurd (ha.symm.trans h) Bool.false_ne_true
  · rw [if_neg hon]
    exact ⟨fun _ _ h => absurd h hon, fun _ => hs.skip rfl⟩

/-! ### Runs -/

def useMachine : Machine Session Use (Except PyError Unit) where
  step s u := u.exec.call s

/-- Uses do not overlap: `trace_query` runs only while the tracer is not active,
and in no `with` block. -/
def Apart (s : Session) : Use → Prop
  | .query _ => s.active = false
  | u => u.Solo

def Use.Finishes : Use → Prop
  | .query q => q.Finishes
  | _ => True

theorem quiet_use_iff {s : Session} (hs : Quiet s) {u : Use} (hu : Apart s u) :
    Quiet (useMachine.next s u) ↔ u.Finishes := by
  have hquery : ∀ q, ((Use.query q).exec.call s).2 = ((traceQuery q).call s).2 := by
    intro q
    rw [Use.exec, Py.call_bind]
    cases (traceQuery q).call s with
    | mk r s' => cases r <;> rfl
  cases u with
  | query q =>
    show Quiet ((Use.query q).exec.call s).2 ↔ q.Finishes
    rw [hquery]
    exact quiet_traceQuery_iff hs hu q
  | _ => exact ⟨fun _ => trivial, fun _ => keeps_exec hu s hs⟩

/-- A run that only uses the tracer leaves the session quiet. -/
theorem quiet_run_of_solo {s : Session} (hs : Quiet s) {uses : List Use}
    (h : ∀ u ∈ uses, u.Solo) : Quiet (useMachine.run s uses) := by
  refine useMachine.run_invariant (G := fun _ u => u.Solo) ?_ hs (useMachine.along_const.mpr h)
  intro s u hs hu
  exact keeps_exec hu s hs

theorem quiet_queryTracer {output : Str} {s : Session} (h : queryTracer output = .ok s) :
    Quiet s := by
  unfold queryTracer at h
  by_cases hv : upper output ∉ outputs
  · rw [if_pos hv] at h
    cases h
  · rw [if_neg hv] at h
    cases h
    exact quiet_opened _

/-- **Runs.**  From a new tracer on, every use of a run leaves the session quiet
exactly when every `trace_query` of it finishes. -/
theorem trace_runs_quiet_iff (output : Str) (s : Session) (hs : queryTracer output = .ok s)
    (uses : List Use) (h : useMachine.Along Apart s uses) :
    Quiet s ∧
      (useMachine.Along (fun s u => Quiet (useMachine.next s u)) s uses ↔
        ∀ u ∈ uses, u.Finishes) := by
  have hq : Quiet s := quiet_queryTracer hs
  refine ⟨hq, ?_⟩
  rw [← useMachine.along_const (s := s)]
  refine Machine.along_iff_along _ (I := Quiet) ?_ (fun s u hs hu => quiet_use_iff hs hu) hq h
  intro s u hs hu hf
  exact (quiet_use_iff hs hu).mpr hf

end Uses

/-- A `trace_query` whose own `SET TRACE OFF` fails is allowed to leave the flag
on, and the tracer works after it. -/
theorem trace_runs_quiet_iff_text :
    let _ := asciiData
    let uses : List Use :=
      [.query ⟨"text".toList, .ok (), .ok (), .ok none, .error .databaseError⟩, .start (.ok ())]
    queryTracer "text".toList = .ok (opened "TEXT".toList) ∧
      (Quiet (opened "TEXT".toList) ∧
        (useMachine.Along (fun s u => Quiet (useMachine.next s u)) (opened "TEXT".toList) uses ↔
          ∀ u ∈ uses, u.Finishes)) := by
  intro _ uses
  refine ⟨by decide, trace_runs_quiet_iff "text".toList _ (by decide) uses ?_⟩
  exact ⟨rfl, by simp [Apart, Use.Solo], trivial⟩

/-- **A user's statement that raises leaves the flag on**, with no `SET TRACE OFF`
even tried. -/
theorem user_error_leaks_trace :
    let _ := asciiData
    let call : Use := .query ⟨"TEXT".toList, .ok (), .error .databaseError, .ok none, .ok ()⟩
    useMachine.Along Apart (opened "TEXT".toList) [call] ∧
      ¬ useMachine.Along (fun s u => Quiet (useMachine.next s u)) (opened "TEXT".toList) [call] ∧
      useMachine.run (opened "TEXT".toList) [call]
        = ⟨true, [(.user, true), (.setTraceOn "TEXT".toList, false)], "TEXT".toList, false⟩ := by
  intro _ call
  have hrun : useMachine.run (opened "TEXT".toList) [call]
      = ⟨true, [(.user, true), (.setTraceOn "TEXT".toList, false)], "TEXT".toList, false⟩ := rfl
  refine ⟨⟨rfl, trivial⟩, fun h => ?_, hrun⟩
  have hq : Quiet (useMachine.run (opened "TEXT".toList) [call]) := h.1
  rw [hrun] at hq
  exact absurd (hq.idle rfl rfl) (by decide)

end SqlalchemyCubrid.Trace
