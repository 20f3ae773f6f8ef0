import Lox.Proofs.Mirror.Running
import Lox.Proofs.Session.Phases

/-
  Sources that are accepted, and the ends of their runs.

  A source that is read and resolved with no report is run on
  the machine as it is, and what the session takes over from
  the run tells how it has ended. Runs of programs that mirror
  each other end in the same way.

  Key definitions include:
    * `Session.programOf`
    * `Session.Accepts`
    * `Session.run_of_resolve`
    * `Session.errorOf`
    * `Session.finish_adds`
    * `Session.ends_spec`
-/

------------------------------------------------------------
-- Sources That Are Accepted
------------------------------------------------------------

namespace Lox

/- The program that a source is read as, with errors or not. -/
def Session.programOf
    (s : Session)
    (source : String) :
    List Stmt :=
  (Lox.parse s.limits (tokenize source).tokens).program

/- A source that is read and resolved with no report. -/
structure Session.Accepts
    (s : Session)
    (source : String) :
    Prop where
  read : s.readReports source = []
  resolved : scopeReports (s.programOf source) = []

namespace Session

variable {s : Session} {source first second : String}

/- Nothing is reported where there is no error. -/
theorem readReports_eq_nil_iff :
    s.readReports source = [] ↔
      (tokenize source).errors = [] ∧
        (Lox.parse s.limits (tokenize source).tokens).errors =
          [] := by
  unfold readReports Lexed.diagnostics Parsed.diagnostics
  rw [List.append_eq_nil_iff, List.map_eq_nil_iff,
    List.map_eq_nil_iff]

theorem Accepts.exists_resolved (hAccepts : s.Accepts source) :
    ∃ resolved,
      resolveProgram (s.programOf source) = .ok resolved := by
  have hNone := hAccepts.resolved
  unfold scopeReports at hNone
  cases hResolve : resolveProgram (s.programOf source) with
  | error e =>
      rw [hResolve] at hNone
      cases hNone
  | ok resolved => exact ⟨resolved, rfl⟩

/- A source that is accepted is run on the machine as it is. -/
theorem run_of_resolve
    {resolved : Resolved}
    (hRead : s.readReports source = [])
    (hResolve :
      resolveProgram (s.programOf source) = .ok resolved) :
    s.run source =
      (s.clearFlags.load (s.programOf source)
          resolved.recorded).finish
        (runProgram s.limits resolved.program s.machine) := by
  rw [run_of_read hRead]
  exact interpret_of_resolve hResolve

end Session

end Lox

------------------------------------------------------------
-- New Machines
------------------------------------------------------------

namespace Lox

/- Natives are the same values on both sides. -/
theorem Store.Mirrors.bindNatives
    {M : Mirror}
    {s s' : Store}
    (hMirrors : s.Mirrors M s')
    (globals : EnvId)
    (ident : Nat)
    (natives : List Native) :
    (Machine.bindNatives globals ident natives s).Mirrors M
      (Machine.bindNatives globals ident natives s') := by
  induction natives generalizing ident s s' with
  | nil => exact hMirrors
  | cons native natives ih =>
      exact ih (hMirrors.define globals native.name (.native _)) _

/- A new machine mirrors itself, whatever the tokens. -/
theorem Machine.mirrors_start
    (M : Mirror)
    (natives : List Native)
    (clock : Clock) :
    (Machine.start natives clock).Mirrors M []
      (Machine.start natives clock) := by
  have hEmpty : Store.Mirrors M {} {} := by
    refine ⟨rfl, fun _ => rfl, ?_⟩
    intro env
    simp only [Store.bindings]
    exact .nil
  exact
    ⟨(hEmpty.make none).bindNatives _ _ natives, rfl, rfl, rfl,
      rfl, rfl⟩

end Lox

------------------------------------------------------------
-- Ends Of Runs
------------------------------------------------------------

namespace Lox.Session

/- The error that a run has ended with. -/
def errorOf :
    EStateM.Result Interrupt Machine Unit → Option RuntimeError
  | .error (.failed e) _ => some e
  | _ => none

theorem printedLines_load
    (s : Session)
    (program : List Stmt)
    (recorded : Nat) :
    (s.load program recorded).transcript.printedLines =
      s.transcript.printedLines := by
  unfold load showTree
  split
  · simp [note, record, transcript, Transcript.printedLines]
  · rfl

theorem lastError_load
    (s : Session)
    (program : List Stmt)
    (recorded : Nat) :
    (s.load program recorded).lastError = s.lastError := by
  unfold load showTree
  split <;> rfl

theorem printedLines_settle (s : Session) (m : Machine) :
    (s.settle m).transcript.printedLines =
      s.transcript.printedLines ++ m.output.toList := by
  simp [settle, transcript, Transcript.printedLines,
    List.filterMap_append]

theorem printedLines_showTrace (s : Session) :
    s.showTrace.transcript.printedLines =
      s.transcript.printedLines := by
  unfold showTrace
  split
  · simp [note, record, transcript, Transcript.printedLines]
  · rfl

/- What the end of a run adds to a session. -/
theorem finish_adds
    (s : Session)
    (result : EStateM.Result Interrupt Machine Unit) :
    let after := (s.finish result).1
    after.transcript.printedLines =
        s.transcript.printedLines ++
          (stateLeft result).output.toList ∧
      after.machine = { stateLeft result with output := #[] } ∧
      after.lastError = (errorOf result).or s.lastError ∧
      after.transcript.reports =
        s.transcript.reports ++
          ((errorOf result).map RuntimeError.diagnostic).toList := by
  have hReports := (s.finish_reports result).2
  cases result with
  | ok a m =>
      exact ⟨s.printedLines_settle m, rfl, rfl, hReports⟩
  | error interrupt m =>
      cases interrupt with
      | failed e =>
          let failed := { s.settle m with lastError := some e }
          have hPrinted :
              (failed.report e.diagnostic).transcript.printedLines =
                failed.transcript.printedLines := by
            simp [report, transcript, Transcript.printedLines]
          have hTrace :=
            (failed.report e.diagnostic).printedLines_showTrace
          refine ⟨?_, ?_, ?_, hReports⟩
          · exact
              (hTrace.trans hPrinted).trans
                (s.printedLines_settle m)
          · unfold finish
            rw [TracedSession.machine_showTrace]
            rfl
          · unfold finish
            rw [TracedSession.lastError_showTrace]
            rfl
      | _ => exact ⟨s.printedLines_settle m, rfl, rfl, hReports⟩

/- Runs that are related end in the same way. -/
theorem ends_spec
    {M : Mirror}
    {earlier : List String}
    {result result' : EStateM.Result Interrupt Machine Unit}
    (hEnds : (M.running earlier).Ends Eq result result') :
    (stateLeft result).Mirrors M earlier (stateLeft result') ∧
      Option.Rel (RuntimeError.Mirrors M) (errorOf result)
        (errorOf result') ∧
      ∀ s s' : Session,
        (s'.finish result').2 = (s.finish result).2 := by
  unfold Coupling.Ends at hEnds
  split at hEnds
  · rcases hEnds with ⟨_, hLast⟩
    exact ⟨hLast, .none, fun _ _ => rfl⟩
  · rcases hEnds with ⟨hInterrupt, hLast⟩
    refine ⟨hLast, ?_⟩
    cases hInterrupt with
    | failed hError => exact ⟨.some hError, fun _ _ => rfl⟩
    | nativeFailed failure => exact ⟨.none, fun _ _ => rfl⟩
    | outOfFrames => exact ⟨.none, fun _ _ => rfl⟩
    | outOfRounds => exact ⟨.none, fun _ _ => rfl⟩
  · exact hEnds.elim

theorem limits_finish
    (s : Session)
    (result : EStateM.Result Interrupt Machine Unit) :
    (s.finish result).1.limits = s.limits := by
  cases result with
  | ok a m => rfl
  | error interrupt m =>
      cases interrupt with
      | failed e =>
          simp only [finish, showTrace]
          split <;> rfl
      | _ => rfl

/- A run that ended well has left its machine and its lines. -/
theorem finish_ok
    {s : Session}
    {result : EStateM.Result Interrupt Machine Unit}
    (hOk : (s.finish result).2 = .ok .ok) :
    ∃ m, result = .ok () m := by
  cases result with
  | ok a m => exact ⟨m, rfl⟩
  | error interrupt m =>
      cases interrupt with
      | failed e => cases hOk
      | _ => cases hOk

end Lox.Session
