import Lox.Proofs.Machine.Restoration
import Lox.Proofs.Session.Distance

/-
  Sessions come back to the globals.

  Whatever is run in a session, and however the run ends, the
  next source starts in the environment of the globals, which
  are those of the machine from its start on.

  Key definitions include:
    * `Session.stays_run`
    * `environment_restored`
-/

------------------------------------------------------------
-- Runs In A Session
------------------------------------------------------------

namespace Lox.Session

/- What the session takes over is the machine that was left. -/
theorem stays_finish
    (s : Session)
    (result : EStateM.Result Interrupt Machine Unit) :
    (Run.left result).Stays (s.finish result).1.machine := by
  rw [(TracedSession.finish_spec s result).1]
  cases result <;> exact ⟨rfl, rfl, .refl _⟩

theorem stays_execute (s : Session) (program : List Stmt) :
    s.machine.Stays (s.execute program).1.machine :=
  (Run.compositional_restores.runProgram s.limits program
    s.machine).trans (s.stays_finish _)

theorem stays_interpret (s : Session) (program : List Stmt) :
    s.machine.Stays (s.interpret program).1.machine := by
  unfold interpret
  cases resolveProgram program with
  | error e => exact .refl s.machine
  | ok resolved =>
      have hLoad :
          (s.load program resolved.recorded).machine =
            s.machine := by
        unfold load showTree
        split <;> rfl
      have hRun :=
        (s.load program resolved.recorded).stays_execute
          resolved.program
      rwa [hLoad] at hRun

/- A run in a session leaves its machine where it is. -/
theorem stays_run (s : Session) (source : String) :
    s.machine.Stays (s.run source).1.machine := by
  have hMachine := s.machine_parse source
  unfold run
  cases hParse : s.parse source with
  | mk read program =>
      rw [hParse] at hMachine
      cases program with
      | none =>
          rw [hMachine]
          exact .refl s.machine
      | some program =>
          have hRun := read.stays_interpret program
          rwa [hMachine] at hRun

/- A session that is at the globals stays there. -/
theorem atGlobals_after
    {s : Session}
    (hGlobals : s.machine.current = s.machine.globals)
    (steps : List SessionStep) :
    (s.after steps).machine.current =
      (s.after steps).machine.globals := by
  induction steps generalizing s with
  | nil => exact hGlobals
  | cons step steps ih =>
      cases step with
      | run source =>
          have hStays := s.stays_run source
          apply ih
          rw [hStays.current, hStays.globals, hGlobals]
      | reset => exact ih rfl

end Lox.Session

------------------------------------------------------------
-- Restoration
------------------------------------------------------------

namespace Lox

/-
  From any machine and for any expression, statement or call,
  an evaluation leaves the machine in the very environment in
  which it was, whatever the outcome: a value, a `return` that
  is on its way, an error of the program at any depth, lack of
  room or the failure of a native function. So does each run in
  a session, and after any runs in a session from its start the
  machine is at the globals.
-/
theorem environment_restored :
    (∀ rounds frames e (m : Machine),
      m.Stays (Run.left (eval rounds frames e m))) ∧
    (∀ rounds frames s (m : Machine),
      m.Stays (Run.left (exec rounds frames s m))) ∧
    (∀ rounds frames callee args paren (m : Machine),
      m.Stays
        (Run.left (call rounds frames callee args paren m))) ∧
    (∀ (session : Session) source,
      session.machine.Stays
        (session.run source).1.machine) ∧
    ∀ settings clock natives steps,
      let session :=
        (Session.start settings clock natives).after steps
      session.machine.current = session.machine.globals := by
  have hEvaluation :=
    Run.compositional_restores.evaluation
  refine ⟨?_, ?_, ?_, Session.stays_run, ?_⟩
  · intro rounds frames e m
    exact (hEvaluation rounds frames).1 e m
  · intro rounds frames s m
    exact (hEvaluation rounds frames).2.1 s m
  · intro rounds frames callee args paren m
    exact (hEvaluation rounds frames).2.2 callee args paren m
  · intro settings clock natives steps
    exact Session.atGlobals_after rfl steps

end Lox
