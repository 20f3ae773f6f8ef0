import Lox.Proofs.Machine.Reliability
import Lox.Proofs.Session.Renaming

/-
  What a source can report, and how its run can end.

  A source is read, resolved and run, and each of these stages
  reports in its turn; what is reported decides the status and
  the flags. A source that is not run leaves the machine as it
  was.

  Key definitions include:
    * `EndsInPhases`
    * `Policy.HoldsIn`
    * `Session.IsReliable`
    * `run_phases`
-/

------------------------------------------------------------
-- Reports
------------------------------------------------------------

namespace Lox

namespace Session

/- Reports change the reporter and the transcript only. -/
theorem reportAll_frame (s : Session) (ds : List Diagnostic) :
    s.reportAll ds =
      { s with
        reporter := (s.reportAll ds).reporter
        events := (s.reportAll ds).events } := by
  induction ds generalizing s with
  | nil => rfl
  | cons d ds ih => exact ih (s.report d)

theorem diagnostics_report (s : Session) (d : Diagnostic) :
    (s.report d).reporter.diagnostics =
      s.reporter.diagnostics.push d := by
  unfold report Reporter.report
  cases d.stage <;> rfl

theorem diagnostics_reportAll
    (s : Session)
    (ds : List Diagnostic) :
    (s.reportAll ds).reporter.diagnostics.toList =
      s.reporter.diagnostics.toList ++ ds := by
  induction ds generalizing s with
  | nil => simp [reportAll]
  | cons d ds ih =>
      have hRest := ih (s.report d)
      rw [diagnostics_report] at hRest
      simpa [reportAll] using hRest

theorem hadRuntimeError_report (s : Session) (d : Diagnostic) :
    (s.report d).reporter.hadRuntimeError =
      (s.reporter.hadRuntimeError ||
        decide (d.stage = .running)) := by
  unfold report Reporter.report
  cases d.stage <;> simp

theorem hadRuntimeError_reportAll
    (s : Session)
    (ds : List Diagnostic) :
    (s.reportAll ds).reporter.hadRuntimeError =
      (s.reporter.hadRuntimeError ||
        ds.any fun d => decide (d.stage = .running)) := by
  induction ds generalizing s with
  | nil => simp [reportAll]
  | cons d ds ih =>
      have hRest := ih (s.report d)
      rw [hadRuntimeError_report] at hRest
      simpa [reportAll, Bool.or_assoc] using hRest

/- What is reported is added to the transcript as well. -/
theorem transcript_reportAll
    (s : Session)
    (ds : List Diagnostic) :
    (s.reportAll ds).transcript =
      s.transcript ++ ds.map Event.reported := by
  induction ds generalizing s with
  | nil => simp [reportAll]
  | cons d ds ih =>
      have hRest := ih (s.report d)
      have hStep :
          (s.report d).transcript =
            s.transcript ++ [Event.reported d] := by
        simp [report, transcript]
      rw [hStep] at hRest
      simpa [reportAll] using hRest

end Session

namespace Transcript

theorem reports_append_reported
    (t : Transcript)
    (ds : List Diagnostic) :
    reports (t ++ ds.map Event.reported) = t.reports ++ ds := by
  simp [reports, List.filterMap_append]

theorem printedLines_append_reported
    (t : Transcript)
    (ds : List Diagnostic) :
    printedLines (t ++ ds.map Event.reported) =
      t.printedLines := by
  simp [printedLines, List.filterMap_append]

end Transcript

theorem stage_lexicalReports (lexed : Lexed) :
    ∀ d ∈ lexed.diagnostics, d.stage = .lexical := by
  intro d hMem
  rcases List.mem_map.mp hMem with ⟨e, _, hSame⟩
  rw [← hSame]
  rfl

theorem stage_structuralReports (parsed : Parsed) :
    ∀ d ∈ parsed.diagnostics, d.stage = .structural := by
  intro d hMem
  rcases List.mem_map.mp hMem with ⟨e, _, hSame⟩
  rw [← hSame]
  rfl

end Lox

------------------------------------------------------------
-- Reading
------------------------------------------------------------

namespace Lox

/- What is reported while a source is read. -/
def Session.readReports
    (s : Session)
    (source : String) :
    List Diagnostic :=
  (tokenize source).diagnostics ++
    (Lox.parse s.limits (tokenize source).tokens).diagnostics

theorem Session.stage_readReports
    (s : Session)
    (source : String) :
    ∀ d ∈ s.readReports source, d.stage ≠ .running := by
  intro d hMem
  rcases List.mem_append.mp hMem with hLexical | hStructural
  · rw [stage_lexicalReports _ d hLexical]
    decide
  · rw [stage_structuralReports _ d hStructural]
    decide

/- Once a source is read, the flags tell of this source alone. -/
theorem Session.flags_read (s : Session) (source : String) :
    let read := s.clearFlags.reportAll (s.readReports source)
    read.reporter.hadError = decide (s.readReports source ≠ []) ∧
      read.reporter.hadRuntimeError = false := by
  have hStages := s.stage_readReports source
  constructor
  · rw [hadError_reportAll]
    simp only [clearFlags, Reporter.clearFlags, Bool.false_or]
    cases hReports : s.readReports source with
    | nil => rfl
    | cons d ds =>
        have hStage := hStages d (hReports ▸ List.mem_cons_self)
        simp [hStage]
  · have hNone :
        (s.readReports source).any
            (fun d => decide (d.stage = .running)) =
          false :=
      List.any_eq_false.mpr fun d hMem => by
        simpa using hStages d hMem
    rw [hadRuntimeError_reportAll, hNone]
    rfl

/-
  Reading a source reports what is wrong with it, and gives
  its program if nothing is.
-/
theorem Session.parse_eq (s : Session) (source : String) :
    s.parse source =
      (s.clearFlags.reportAll (s.readReports source),
        if s.readReports source = [] then
          some
            (Lox.parse s.limits (tokenize source).tokens).program
        else none) := by
  have hReported :
      (s.clearFlags.reportAll
            (tokenize source).diagnostics).reportAll
          (Lox.parse s.limits (tokenize source).tokens).diagnostics =
        s.clearFlags.reportAll (s.readReports source) := by
    unfold readReports reportAll
    rw [List.foldl_append]
  have hFlag := (s.flags_read source).1
  unfold Session.parse
  simp only [hReported, hFlag]
  by_cases hNone : s.readReports source = []
  · simp [hNone]
  · simp [hNone]

/- A source that is read with no report is interpreted. -/
theorem Session.run_of_read
    {s : Session}
    {source : String}
    (hNone : s.readReports source = []) :
    s.run source =
      s.clearFlags.interpret
        (Lox.parse s.limits (tokenize source).tokens).program := by
  unfold run
  rw [parse_eq, hNone, if_pos rfl]
  rfl

/- A source that is read with reports is not run. -/
theorem Session.run_of_unread
    {s : Session}
    {source : String}
    (hSome : s.readReports source ≠ []) :
    s.run source =
      (s.clearFlags.reportAll (s.readReports source),
        .ok .staticError) := by
  unfold run
  rw [parse_eq, if_neg hSome]

end Lox

------------------------------------------------------------
-- Phases
------------------------------------------------------------

namespace Lox

/-
  A session has gone on from another one by a run with some
  reports: of the characters of its source, of the structure
  and the scopes of its program, and of its run, in this order
  and with the last ones alone if there are any.
-/
structure EndsInPhases
    (before after : Session)
    (outcome : Except Interrupt Status)
    (lexical structural running : List Diagnostic) :
    Prop where
  diagnostics :
    after.reporter.diagnostics.toList =
      before.reporter.diagnostics.toList ++
        (lexical ++ structural ++ running)
  reports :
    after.transcript.reports =
      before.transcript.reports ++
        (lexical ++ structural ++ running)
  lexicalStage : ∀ d ∈ lexical, d.stage = .lexical
  structuralStage : ∀ d ∈ structural, d.stage = .structural
  runningStage : ∀ d ∈ running, d.stage = .running
  runningAlone :
    running ≠ [] →
      running.length = 1 ∧ lexical = [] ∧ structural = []
  staticError :
    outcome = .ok .staticError ↔ lexical ++ structural ≠ []
  runtimeError : outcome = .ok .runtimeError ↔ running ≠ []
  otherwise :
    lexical ++ structural = [] → running = [] →
      outcome = .ok .ok ∨
        outcome = .error .outOfFrames ∨
        outcome = .error .outOfRounds
  hadError :
    after.reporter.hadError = true ↔ lexical ++ structural ≠ []
  hadRuntimeError :
    after.reporter.hadRuntimeError = true ↔ running ≠ []
  unchanged :
    outcome = .ok .staticError →
      after.machine = before.machine ∧
      after.localUses = before.localUses ∧
      after.lastError = before.lastError ∧
      after.transcript.printedLines =
        before.transcript.printedLines

namespace EndsInPhases

variable {s : Session}

/- A source that is reported before it runs. -/
theorem of_static
    {lexical structural : List Diagnostic}
    (hLexical : ∀ d ∈ lexical, d.stage = .lexical)
    (hStructural : ∀ d ∈ structural, d.stage = .structural)
    (hSome : lexical ++ structural ≠ []) :
    EndsInPhases s
      (s.clearFlags.reportAll (lexical ++ structural))
      (.ok .staticError) lexical structural [] := by
  let reports := lexical ++ structural
  have hFrame := s.clearFlags.reportAll_frame reports
  have hTranscript := s.clearFlags.transcript_reportAll reports
  have hStages : ∀ d ∈ reports, d.stage ≠ .running := by
    intro d hMem
    rcases List.mem_append.mp hMem with hFirst | hSecond
    · rw [hLexical d hFirst]
      decide
    · rw [hStructural d hSecond]
      decide
  constructor
  · rw [List.append_nil]
    exact s.clearFlags.diagnostics_reportAll reports
  · rw [List.append_nil, hTranscript,
      Transcript.reports_append_reported]
    rfl
  · exact hLexical
  · exact hStructural
  · intro d hMem
    cases hMem
  · intro hRunning
    exact absurd rfl hRunning
  · simp [hSome]
  · simp
  · intro hNone
    exact absurd hNone hSome
  · rw [Session.hadError_reportAll]
    rcases List.exists_mem_of_ne_nil _ hSome with ⟨d, hMem⟩
    have hAny :
        reports.any (fun d => decide (d.stage ≠ .running)) =
          true :=
      List.any_eq_true.mpr ⟨d, hMem, by simpa using hStages d hMem⟩
    rw [hAny]
    simp [hSome]
  · have hNone :
        reports.any (fun d => decide (d.stage = .running)) =
          false :=
      List.any_eq_false.mpr fun d hMem => by
        simpa using hStages d hMem
    rw [Session.hadRuntimeError_reportAll, hNone]
    simp [Session.clearFlags, Reporter.clearFlags]
  · intro _
    rw [hFrame]
    refine ⟨rfl, rfl, rfl, ?_⟩
    have hPrinted :=
      Transcript.printedLines_append_reported
        s.clearFlags.transcript reports
    rw [← hTranscript] at hPrinted
    exact hPrinted

end EndsInPhases

end Lox

------------------------------------------------------------
-- Running
------------------------------------------------------------

namespace Lox

namespace Session

/- What loading a program leaves as it is. -/
theorem load_frame
    (s : Session)
    (program : List Stmt)
    (recorded : Nat) :
    (s.load program recorded).reporter = s.reporter ∧
      (s.load program recorded).transcript.reports =
        s.transcript.reports := by
  unfold load showTree
  by_cases hShown : s.dumpsTree = true
  · rw [if_pos hShown]
    refine ⟨rfl, ?_⟩
    simp [note, record, transcript, Transcript.reports]
  · rw [if_neg hShown]
    exact ⟨rfl, rfl⟩

/- The lines that a run has printed are no reports. -/
theorem settle_frame (s : Session) (m : Machine) :
    (s.settle m).reporter = s.reporter ∧
      (s.settle m).transcript.reports = s.transcript.reports := by
  refine ⟨rfl, ?_⟩
  simp [settle, transcript, Transcript.reports,
    List.filterMap_append]

theorem showTrace_frame (s : Session) :
    s.showTrace.reporter = s.reporter ∧
      s.showTrace.transcript.reports = s.transcript.reports := by
  unfold showTrace
  by_cases hShown : s.tracing = true
  · rw [if_pos hShown]
    refine ⟨rfl, ?_⟩
    simp [note, record, transcript, Transcript.reports]
  · rw [if_neg hShown]
    exact ⟨rfl, rfl⟩

theorem natives_finish
    (s : Session)
    (result : EStateM.Result Interrupt Machine Unit) :
    (s.finish result).1.natives = s.natives := by
  cases result with
  | ok a m => rfl
  | error interrupt m =>
      cases interrupt with
      | failed e =>
          simp only [finish, showTrace]
          split <;> rfl
      | _ => rfl

/- The report of the error that a run has ended with. -/
def runReports :
    EStateM.Result Interrupt Machine Unit → List Diagnostic
  | .error (.failed e) _ => [e.diagnostic]
  | _ => []

/- A run that has ended reports its error and nothing else. -/
theorem finish_reports
    (s : Session)
    (result : EStateM.Result Interrupt Machine Unit) :
    let after := (s.finish result).1
    after.reporter =
        (s.reportAll (runReports result)).reporter ∧
      after.transcript.reports =
        s.transcript.reports ++ runReports result := by
  cases result with
  | ok a m =>
      have hSettled := (s.settle_frame m).2
      exact ⟨rfl, hSettled.trans (List.append_nil _).symm⟩
  | error interrupt m =>
      have hSettled := (s.settle_frame m).2
      cases interrupt with
      | failed e =>
          let failed :=
            { s.settle m with lastError := some e }
          have hTrace :=
            (failed.report e.diagnostic).showTrace_frame
          refine ⟨hTrace.1, ?_⟩
          have hReported :=
            Transcript.reports_append_reported failed.transcript
              [e.diagnostic]
          have hFailed :
              failed.transcript.reports = s.transcript.reports :=
            hSettled
          rw [hFailed] at hReported
          rw [runReports, ← hReported]
          refine hTrace.2.trans (congrArg Transcript.reports ?_)
          exact failed.transcript_reportAll [e.diagnostic]
      | _ => exact ⟨rfl, hSettled.trans (List.append_nil _).symm⟩

end Session

namespace EndsInPhases

variable {s after : Session}

/- A run with nothing to report. -/
theorem of_quiet
    {outcome : Except Interrupt Status}
    (hReporter : after.reporter = s.reporter.clearFlags)
    (hReports : after.transcript.reports = s.transcript.reports)
    (hOutcome :
      outcome = .ok .ok ∨ outcome = .error .outOfFrames ∨
        outcome = .error .outOfRounds) :
    EndsInPhases s after outcome [] [] [] := by
  have hNotStatic : outcome ≠ .ok .staticError := by
    rcases hOutcome with hEnd | hEnd | hEnd <;> simp [hEnd]
  have hNotRuntime : outcome ≠ .ok .runtimeError := by
    rcases hOutcome with hEnd | hEnd | hEnd <;> simp [hEnd]
  constructor
  · simp [hReporter, Reporter.clearFlags]
  · simp [hReports]
  · simp
  · simp
  · simp
  · simp
  · simp [hNotStatic]
  · simp [hNotRuntime]
  · intro _ _
    exact hOutcome
  · simp [hReporter, Reporter.clearFlags]
  · simp [hReporter, Reporter.clearFlags]
  · intro hStatic
    exact absurd hStatic hNotStatic

/- A run that has ended with an error of the program. -/
theorem of_failed
    {d : Diagnostic}
    (hStage : d.stage = .running)
    (hReporter :
      after.reporter = s.reporter.clearFlags.report d)
    (hReports :
      after.transcript.reports = s.transcript.reports ++ [d]) :
    EndsInPhases s after (.ok .runtimeError) [] [] [d] := by
  have hRecorded :
      after.reporter =
        { hadError := false
          hadRuntimeError := true
          diagnostics := s.reporter.diagnostics.push d } := by
    rw [hReporter]
    simp [Reporter.report, Reporter.clearFlags, hStage]
  constructor
  · simp [hRecorded]
  · simp [hReports]
  · simp
  · simp
  · simp [hStage]
  · simp
  · simp
  · simp
  · simp
  · simp [hRecorded]
  · simp [hRecorded]
  · simp

/- A program that is run, from how its run has ended. -/
theorem of_run
    {loaded : Session}
    {result : EStateM.Result Interrupt Machine Unit}
    (hReporter : loaded.reporter = s.reporter.clearFlags)
    (hReports : loaded.transcript.reports = s.transcript.reports)
    (hExpected :
      ∀ e m, result = .error e m → e.IsExpected) :
    EndsInPhases s (loaded.finish result).1
      (loaded.finish result).2 [] [] (Session.runReports result) := by
  rcases loaded.finish_reports result with ⟨hReported, hShown⟩
  unfold Session.reportAll at hReported
  rw [hReports] at hShown
  cases result with
  | ok a m =>
      exact
        of_quiet (hReported.trans hReporter)
          (hShown.trans (List.append_nil _)) (.inl rfl)
  | error interrupt m =>
      have hInterrupt := hExpected interrupt m rfl
      cases interrupt with
      | failed e =>
          refine of_failed rfl ?_ hShown
          rw [hReported, ← hReporter]
          rfl
      | nativeFailed failure => exact hInterrupt.elim
      | outOfFrames =>
          exact
            of_quiet (hReported.trans hReporter)
              (hShown.trans (List.append_nil _)) (.inr (.inl rfl))
      | outOfRounds =>
          exact
            of_quiet (hReported.trans hReporter)
              (hShown.trans (List.append_nil _)) (.inr (.inr rfl))

end EndsInPhases

end Lox

------------------------------------------------------------
-- Sources
------------------------------------------------------------

namespace Lox

/- The report of what keeps a program from being resolved. -/
def scopeReports (program : List Stmt) : List Diagnostic :=
  match resolveProgram program with
  | .error e => [e.diagnostic]
  | .ok _ => []

/- The report of the run of a program, if it resolves. -/
def Session.executionReports
    (s : Session)
    (program : List Stmt) :
    List Diagnostic :=
  match resolveProgram program with
  | .error _ => []
  | .ok resolved =>
      runReports (runProgram s.limits resolved.program s.machine)

/- A program that is loaded and run on a reliable machine. -/
theorem Session.finish_phases
    {s loaded : Session}
    (hReliable : s.machine.IsReliable)
    (hReporter : loaded.reporter = s.reporter.clearFlags)
    (hReports : loaded.transcript.reports = s.transcript.reports)
    (program : List Stmt) :
    let result := runProgram s.limits program s.machine
    EndsInPhases s (loaded.finish result).1
      (loaded.finish result).2 [] [] (runReports result) := by
  intro result
  have hKeeps := runProgram_keeps s.limits program _ hReliable
  have hResult :
      runProgram s.limits program s.machine = result := rfl
  rw [hResult] at hKeeps
  apply EndsInPhases.of_run hReporter hReports
  intro e m hError
  rw [hError] at hKeeps
  exact hKeeps.2

/- The resolver stops at its first error. -/
theorem length_scopeReports
    {program : List Stmt}
    (hSome : scopeReports program ≠ []) :
    (scopeReports program).length = 1 := by
  unfold scopeReports at hSome ⊢
  cases hResolve : resolveProgram program with
  | error e => rfl
  | ok resolved =>
      rw [hResolve] at hSome
      exact absurd rfl hSome

/- A program that has been read, and is resolved and then run. -/
theorem Session.interpret_phases
    {s : Session}
    (hReliable : s.machine.IsReliable)
    (program : List Stmt) :
    let after := s.clearFlags.interpret program
    EndsInPhases s after.1 after.2 [] (scopeReports program)
      (s.executionReports program) := by
  intro after
  unfold scopeReports executionReports
  cases hResolve : resolveProgram program with
  | error e =>
      have hEnd :
          after =
            (s.clearFlags.reportAll [e.diagnostic],
              .ok .staticError) := by
        unfold after interpret
        rw [hResolve]
        rfl
      have hPhases :
          EndsInPhases s
            (s.clearFlags.reportAll ([] ++ [e.diagnostic]))
            (.ok .staticError) [] [e.diagnostic] [] := by
        apply EndsInPhases.of_static
        · simp
        · simp [ScopeError.diagnostic, Diagnostic.structural]
        · simp
      rw [hEnd]
      exact hPhases
  | ok resolved =>
      let loaded := s.clearFlags.load program resolved.recorded
      have hEnd :
          after =
            loaded.finish
              (runProgram s.limits resolved.program s.machine) :=
        interpret_of_resolve hResolve
      rcases s.clearFlags.load_frame program resolved.recorded with
        ⟨hReporter, hReports⟩
      rw [hEnd]
      exact
        finish_phases hReliable hReporter hReports resolved.program

end Lox

------------------------------------------------------------
-- Sessions Under A Policy
------------------------------------------------------------

namespace Lox

/-
  A policy holds of the machine of a session and of the native
  functions for a new one, and admits its last error.
-/
structure Policy.HoldsIn (P : Policy) (s : Session) : Prop where
  machine : P.Holds s.machine
  natives : ∀ native ∈ s.natives, P.native native
  lastError : ∀ e ∈ s.lastError, P.admits (.failed e)

namespace Policy.HoldsIn

variable {P : Policy} {s : Session}

theorem start
    (settings : Settings)
    {clock : Clock}
    {natives : List Native}
    (hClock : P.clock clock)
    (hNatives : ∀ native ∈ clockNative :: natives, P.native native) :
    P.HoldsIn (.start settings clock natives) :=
  { machine := holds_start hNatives hClock
    natives := hNatives
    lastError := fun _ hNone => by cases hNone }

theorem reset (hHolds : P.HoldsIn s) : P.HoldsIn s.reset :=
  { machine := holds_start hHolds.natives hHolds.machine.clock
    natives := hHolds.natives
    lastError := fun _ hNone => by cases hNone }

theorem load
    (hHolds : P.HoldsIn s)
    (program : List Stmt)
    (recorded : Nat) :
    P.HoldsIn (s.load program recorded) := by
  unfold Session.load Session.showTree
  split <;>
    exact ⟨hHolds.machine, hHolds.natives, hHolds.lastError⟩

/- A run that has upheld the policy is taken over. -/
theorem finish
    (hHolds : P.HoldsIn s)
    {result : EStateM.Result Interrupt Machine Unit}
    (hEnds : P.Ends (fun _ => True) result) :
    P.HoldsIn (s.finish result).1 := by
  cases result with
  | ok a m =>
      exact
        ⟨⟨hEnds.1.clock, hEnds.1.values⟩, hHolds.natives,
          hHolds.lastError⟩
  | error interrupt m =>
      have hMachine : P.Holds { m with output := #[] } :=
        ⟨hEnds.1.clock, hEnds.1.values⟩
      cases interrupt with
      | failed e =>
          have hAdmits :
              ∀ e' ∈ some e, P.admits (.failed e') := by
            intro e' hSame
            cases hSame
            exact hEnds.2
          unfold Session.finish Session.showTrace
          dsimp only
          split <;> exact ⟨hMachine, hHolds.natives, hAdmits⟩
      | _ => exact ⟨hMachine, hHolds.natives, hHolds.lastError⟩

/- A source of the words of a policy leaves it upheld. -/
theorem run
    (hSound : P.IsSound)
    (hHolds : P.HoldsIn s)
    {source : String}
    (hSource :
      Stmt.BodyFormed P.words
        (Lox.parse s.limits (tokenize source).tokens).program) :
    P.HoldsIn (s.run source).1 := by
  have hCleared : P.HoldsIn s.clearFlags :=
    ⟨hHolds.machine, hHolds.natives, hHolds.lastError⟩
  by_cases hReads : s.readReports source = []
  · rw [Session.run_of_read hReads]
    unfold Session.interpret
    split
    · exact ⟨hHolds.machine, hHolds.natives, hHolds.lastError⟩
    · rename_i resolved hResolve
      have hFormed := Stmt.bodyFormed_of_resolve hResolve hSource
      have hLoaded :=
        hCleared.load
          (Lox.parse s.limits (tokenize source).tokens).program
          resolved.recorded
      unfold Session.execute
      apply hLoaded.finish
      exact
        runProgram_upholds hSound _ hFormed _ hLoaded.machine
  · rw [Session.run_of_unread hReads, Session.reportAll_frame]
    exact ⟨hHolds.machine, hHolds.natives, hHolds.lastError⟩

/- Whatever is done with the session, the policy is upheld. -/
theorem after
    (hSound : P.IsSound)
    (hSources :
      ∀ limits source,
        Stmt.BodyFormed P.words
          (Lox.parse limits (tokenize source).tokens).program)
    (hHolds : P.HoldsIn s)
    (steps : List SessionStep) :
    P.HoldsIn (s.after steps) := by
  induction steps generalizing s with
  | nil => exact hHolds
  | cons step steps ih =>
      cases step with
      | run source =>
          exact ih (hHolds.run hSound (hSources s.limits source))
      | reset => exact ih hHolds.reset

end Policy.HoldsIn

end Lox

------------------------------------------------------------
-- Reliable Sessions
------------------------------------------------------------

namespace Lox

/- A new machine is reliable if its parts are. -/
theorem Machine.isReliable_start
    {natives : List Native}
    {clock : Clock}
    (hNatives : ∀ native ∈ natives, native.IsReliable)
    (hFinite : clock.IsFinite) :
    (Machine.start natives clock).IsReliable :=
  (Policy.reliable_holds_iff _).mp
    (Policy.holds_start hNatives hFinite)

/- A reliable machine, and native functions for a new one. -/
structure Session.IsReliable (s : Session) : Prop where
  machine : s.machine.IsReliable
  natives : ∀ native ∈ s.natives, native.IsReliable

theorem Session.reliable_holdsIn_iff (s : Session) :
    Policy.reliable.HoldsIn s ↔ s.IsReliable := by
  constructor
  · intro hHolds
    exact
      ⟨(Policy.reliable_holds_iff _).mp hHolds.machine,
        hHolds.natives⟩
  · intro hReliable
    exact
      ⟨(Policy.reliable_holds_iff _).mpr hReliable.machine,
        hReliable.natives, fun _ _ => trivial⟩

/- The native function of a session is a reliable one. -/
theorem isReliable_clockNative : clockNative.IsReliable :=
  trivial

/- A new session is reliable if its parts are. -/
theorem Session.isReliable_start
    (settings : Settings)
    {clock : Clock}
    {natives : List Native}
    (hNatives : ∀ native ∈ natives, native.IsReliable)
    (hFinite : clock.IsFinite) :
    (Session.start settings clock natives).IsReliable := by
  have hAll : ∀ native ∈ clockNative :: natives, native.IsReliable :=
    List.forall_mem_cons.mpr ⟨isReliable_clockNative, hNatives⟩
  exact ⟨Machine.isReliable_start hAll hFinite, hAll⟩

/-
  Whatever is done with a session that is reliable, it is
  reliable afterwards, so every source that is run in it runs
  in phases.
-/
theorem Session.IsReliable.after
    {s : Session}
    (hReliable : s.IsReliable)
    (steps : List SessionStep) :
    (s.after steps).IsReliable := by
  have hHolds := (Session.reliable_holdsIn_iff s).mpr hReliable
  apply (Session.reliable_holdsIn_iff _).mp
  refine hHolds.after Policy.isSound_reliable ?_ steps
  exact fun _ _ => Stmt.bodyFormed_any _

end Lox

------------------------------------------------------------
-- Runs In Phases
------------------------------------------------------------

namespace Lox

/-
  A source that is run on a reliable machine reports what is
  wrong with its characters, then what is wrong with its
  structure or else its scopes, and if there is nothing then
  perhaps the error of its run. These reports alone decide the
  status and the flags, and after a static error the machine is
  what it was.
-/
theorem run_phases
    {s : Session}
    (hReliable : s.machine.IsReliable)
    (source : String) :
    let lexical := (tokenize source).diagnostics
    let parsed := Lox.parse s.limits (tokenize source).tokens
    let reads := lexical ++ parsed.diagnostics = []
    let misplaced := if reads then scopeReports parsed.program else []
    let running :=
      if reads then s.executionReports parsed.program else []
    EndsInPhases s (s.run source).1 (s.run source).2 lexical
        (parsed.diagnostics ++ misplaced) running ∧
      (misplaced ≠ [] →
        misplaced.length = 1 ∧ lexical = [] ∧
          parsed.diagnostics = []) := by
  intro lexical parsed reads misplaced running
  have hLexical := stage_lexicalReports (tokenize source)
  have hStructural := stage_structuralReports parsed
  by_cases hReads : reads
  · rcases List.append_eq_nil_iff.mp hReads with
      ⟨hNoLexical, hNoStructural⟩
    have hInterpret :
        s.run source = s.clearFlags.interpret parsed.program :=
      Session.run_of_read hReads
    have hMisplaced : misplaced = scopeReports parsed.program :=
      if_pos hReads
    have hRunning : running = s.executionReports parsed.program :=
      if_pos hReads
    rw [hInterpret, hMisplaced, hRunning, hNoLexical, hNoStructural]
    refine ⟨Session.interpret_phases hReliable parsed.program, ?_⟩
    intro hSome
    exact ⟨length_scopeReports hSome, rfl, rfl⟩
  · have hMisplaced : misplaced = [] := if_neg hReads
    have hRunning : running = [] := if_neg hReads
    rw [Session.run_of_unread hReads, hMisplaced, hRunning,
      List.append_nil]
    refine ⟨.of_static hLexical hStructural hReads, ?_⟩
    intro hNever
    exact absurd rfl hNever

/- A string that is not closed is a static error. -/
theorem run_phases_unterminated :
    let s := Session.start {} ⟨[]⟩ []
    let after := s.run "\""
    s.machine.IsReliable ∧
    (tokenize "\"").diagnostics =
      [.lexical 1 "Unterminated string."] ∧
    after.2 = .ok .staticError ∧
    after.1.reporter.hadError = true ∧
    after.1.reporter.hadRuntimeError = false ∧
    after.1.machine = s.machine := by
  intro s after
  have hTime : ∃ x, milliseconds 0 = .ok x := by
    unfold milliseconds
    simp only
    rw [if_neg (by decide), if_neg (by decide)]
    exact ⟨_, rfl⟩
  have hReliable : s.machine.IsReliable := by
    apply Machine.isReliable_start
    · intro native hMem
      rw [List.mem_singleton.mp hMem]
      exact isReliable_clockNative
    · intro time hNow
      rcases hNow with hNow | hMem
      · rw [hNow]
        exact hTime
      · cases hMem
  have hErrors : (tokenize "\"").errors = [⟨.unterminated, 1⟩] := by
    cbv
  have hLexical :
      (tokenize "\"").diagnostics =
        [.lexical 1 "Unterminated string."] := by
    unfold Lexed.diagnostics
    rw [hErrors]
    rfl
  rcases run_phases hReliable "\"" with ⟨hPhases, _⟩
  have hStatic : after.2 = .ok .staticError :=
    hPhases.staticError.mpr (by simp [hLexical])
  have hNoRuntime :
      after.1.reporter.hadRuntimeError = false := by
    apply Bool.eq_false_iff.mpr
    intro hFlag
    have hRuntime :=
      hPhases.runtimeError.mpr (hPhases.hadRuntimeError.mp hFlag)
    rw [show (s.run "\"").2 = _ from hStatic] at hRuntime
    cases hRuntime
  exact
    ⟨hReliable, hLexical, hStatic,
      hPhases.hadError.mpr (by simp [hLexical]), hNoRuntime,
      (hPhases.unchanged hStatic).1⟩

end Lox
