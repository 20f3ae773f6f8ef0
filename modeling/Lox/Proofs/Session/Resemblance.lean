import Lox.Proofs.Mirror.Appearance
import Lox.Proofs.Mirror.Reading
import Lox.Proofs.Session.Endings

/-
  Sessions that run programs which mirror each other.

  Two sessions resemble each other if they show the same, but
  for what may differ in a report where tokens of a mirror
  stand for each other. Programs that mirror each other are
  shown, resolved and run alike by such sessions, and so are
  sources whose tokens do.

  Key definitions include:
    * `Reporting`
    * `Event.Alike`
    * `Session.Resembles`
    * `Session.Resembles.interpret`
    * `Session.Resembles.run`
-/

------------------------------------------------------------
-- Reports Of Mirrored Errors
------------------------------------------------------------

namespace Lox

/-
  Which reports stand for each other where the tokens of a
  mirror do: those of errors that mirror each other do, and
  they are of the same stage.
-/
structure Reporting (M : Mirror) where
  rel : Diagnostic → Diagnostic → Prop
  stage :
    ∀ {d d' : Diagnostic}, rel d d' → d'.stage = d.stage
  structural :
    ∀ {t t' : Token} (message : String),
      M.rel t t' → rel (.structural t message) (.structural t' message)
  running :
    ∀ {e e' : RuntimeError},
      e.Mirrors M e' → rel e.diagnostic e'.diagnostic

/- Events that are the same, or reports that are alike. -/
inductive Event.Alike {M : Mirror} (R : Reporting M) :
    Event → Event → Prop where
  | same
      (event : Event) :
      Alike R event event
  | reported
      {d d' : Diagnostic}
      (hReports : R.rel d d') :
      Alike R (.reported d) (.reported d')

variable {M : Mirror} {R : Reporting M}

theorem ScopeError.Mirrors.reported
    {e e' : ScopeError}
    (hMirrors : e.Mirrors M e') :
    R.rel e.diagnostic e'.diagnostic := by
  unfold diagnostic message
  rw [hMirrors.fault]
  exact R.structural _ hMirrors.token

/- What is wrong with the structure of two programs. -/
theorem Parsed.Mirrors.reported
    {p p' : Parsed}
    (hMirrors : p.Mirrors M p') :
    List.Forall₂ R.rel p.diagnostics p'.diagnostics := by
  unfold Parsed.diagnostics
  apply List.forall₂_map_left_iff.mpr
  apply List.forall₂_map_right_iff.mpr
  apply hMirrors.errors.imp
  intro e e' hError
  unfold ParseError.message
  rw [hError.fault]
  exact R.structural _ hError.token

/- Lines are printed by both of two runs, or by none. -/
theorem Transcript.printedLines_eq
    {t t' : Transcript}
    (hAlike : List.Forall₂ (Event.Alike R) t t') :
    printedLines t' = printedLines t := by
  unfold printedLines
  induction hAlike with
  | nil => rfl
  | cons hEvent _ ih =>
      cases hEvent with
      | same event => rw [List.filterMap_cons, List.filterMap_cons, ih]
      | reported _ => exact ih

end Lox

------------------------------------------------------------
-- Sessions That Resemble Each Other
------------------------------------------------------------

namespace Lox

variable {M : Mirror}

/- Reporters with the same flags, and with reports alike. -/
structure Reporter.Alike (R : Reporting M) (r r' : Reporter) :
    Prop where
  hadError : r'.hadError = r.hadError
  hadRuntimeError : r'.hadRuntimeError = r.hadRuntimeError
  diagnostics :
    List.Forall₂ R.rel r.diagnostics.toList r'.diagnostics.toList

/-
  Sessions that show the same but for what may differ in their
  reports, with machines and last errors that mirror each other.
-/
structure Session.Resembles (R : Reporting M) (s s' : Session) :
    Prop where
  machine : s.machine.Mirrors M [] s'.machine
  lastError :
    Option.Rel (RuntimeError.Mirrors M) s.lastError s'.lastError
  reporter : s.reporter.Alike R s'.reporter
  transcript :
    List.Forall₂ (Event.Alike R) s.transcript s'.transcript
  others :
    s' =
      { s with
        machine := s'.machine
        lastError := s'.lastError
        reporter := s'.reporter
        events := s'.events }

variable {R : Reporting M}

theorem Reporter.Alike.report
    {r r' : Reporter}
    (hAlike : r.Alike R r')
    {d d' : Diagnostic}
    (hReports : R.rel d d') :
    (r.report d).Alike R (r'.report d') := by
  have hAll :
      List.Forall₂ R.rel (r.diagnostics.push d).toList
        (r'.diagnostics.push d').toList := by
    rw [Array.toList_push, Array.toList_push]
    exact List.rel_append hAlike.diagnostics (.cons hReports .nil)
  unfold Reporter.report
  rw [R.stage hReports]
  cases d.stage with
  | running => exact ⟨hAlike.hadError, rfl, hAll⟩
  | _ => exact ⟨rfl, hAlike.hadRuntimeError, hAll⟩

namespace Session.Resembles

variable {s s' : Session}

theorem clearFlags (hSessions : s.Resembles R s') :
    s.clearFlags.Resembles R s'.clearFlags :=
  { machine := hSessions.machine
    lastError := hSessions.lastError
    reporter := ⟨rfl, rfl, hSessions.reporter.diagnostics⟩
    transcript := hSessions.transcript
    others := by rw [hSessions.others]; rfl }

theorem report
    (hSessions : s.Resembles R s')
    {d d' : Diagnostic}
    (hReports : R.rel d d') :
    (s.report d).Resembles R (s'.report d') :=
  { machine := hSessions.machine
    lastError := hSessions.lastError
    reporter := hSessions.reporter.report hReports
    transcript := by
      simp only [Session.report, Session.transcript,
        Array.toList_push]
      exact
        List.rel_append hSessions.transcript
          (.cons (.reported hReports) .nil)
    others := by rw [hSessions.others]; rfl }

theorem reportAll
    (hSessions : s.Resembles R s')
    {ds ds' : List Diagnostic}
    (hReports : List.Forall₂ R.rel ds ds') :
    (s.reportAll ds).Resembles R (s'.reportAll ds') := by
  induction hReports generalizing s s' with
  | nil => exact hSessions
  | cons hReport _ ih => exact ih (hSessions.report hReport)

theorem note
    (hSessions : s.Resembles R s')
    (text : String) :
    (s.note text).Resembles R (s'.note text) :=
  { machine := hSessions.machine
    lastError := hSessions.lastError
    reporter := hSessions.reporter
    transcript := by
      simp only [Session.note, Session.record, Session.transcript,
        Array.toList_push]
      exact
        List.rel_append hSessions.transcript
          (.cons (.same _) .nil)
    others := by rw [hSessions.others]; rfl }

theorem showTrace (hSessions : s.Resembles R s') :
    s.showTrace.Resembles R s'.showTrace := by
  have hTracing : s'.tracing = s.tracing := by
    rw [hSessions.others]
  unfold Session.showTrace
  rw [hTracing]
  split
  · exact hSessions.note _
  · exact hSessions

/- Programs that mirror each other are shown as one tree. -/
theorem load
    (hSessions : s.Resembles R s')
    {program program' : List Stmt}
    (hProgram : List.Forall₂ (Stmt.Mirrors M) program program')
    (recorded : Nat) :
    (s.load program recorded).Resembles R
      (s'.load program' recorded) := by
  have hDumps : s'.dumpsTree = s.dumpsTree := by
    rw [hSessions.others]
  have hShown :
      (s.showTree program).Resembles R (s'.showTree program') := by
    unfold showTree
    rw [hDumps, prettyProgram_mirrors hProgram]
    split
    · exact hSessions.note _
    · exact hSessions
  refine
    ⟨hShown.machine, hShown.lastError, hShown.reporter,
      hShown.transcript, ?_⟩
  unfold Session.load
  rw [hShown.others]

theorem settle
    (hSessions : s.Resembles R s')
    {m m' : Machine}
    (hMachines : m.Mirrors M [] m') :
    (s.settle m).Resembles R (s'.settle m') := by
  have hOutput : m'.output = m.output :=
    Array.toList_inj.mp hMachines.output
  have hLeft :
      Machine.Mirrors M [] { m with output := #[] }
        { m' with output := #[] } :=
    ⟨hMachines.store, hMachines.globals, hMachines.current,
      hMachines.clock, rfl, hMachines.functions⟩
  refine
    ⟨hLeft, hSessions.lastError, hSessions.reporter, ?_, ?_⟩
  · simp only [Session.settle, Session.transcript,
      Array.toList_append, hOutput]
    apply List.rel_append hSessions.transcript
    exact List.forall₂_same.mpr fun event _ => .same event
  · unfold Session.settle
    rw [hSessions.others]

theorem fail
    (hSessions : s.Resembles R s')
    {e e' : RuntimeError}
    (hError : e.Mirrors M e') :
    Resembles R { s with lastError := some e }
      { s' with lastError := some e' } :=
  { machine := hSessions.machine
    lastError := .some hError
    reporter := hSessions.reporter
    transcript := hSessions.transcript
    others := by rw [hSessions.others] }

/- Runs that end in the same way are taken over alike. -/
theorem finish
    (hSessions : s.Resembles R s')
    {result result' : EStateM.Result Interrupt Machine Unit}
    (hEnds : (M.running []).Ends Eq result result') :
    (s.finish result).1.Resembles R (s'.finish result').1 ∧
      (s'.finish result').2 = (s.finish result).2 := by
  refine ⟨?_, (ends_spec hEnds).2.2 s s'⟩
  unfold Coupling.Ends at hEnds
  split at hEnds
  · exact hSessions.settle hEnds.2
  · rcases hEnds with ⟨hInterrupt, hLast⟩
    have hSettled := hSessions.settle hLast
    cases hInterrupt with
    | failed hError =>
        have hFailed := hSettled.fail hError
        exact (hFailed.report (R.running hError)).showTrace
    | nativeFailed | outOfFrames | outOfRounds => exact hSettled
  · exact hEnds.elim

/- Programs that mirror each other are resolved and run alike. -/
theorem interpret
    (hSessions : s.Resembles R s')
    (hNative : M.rel nativeCallToken nativeCallToken)
    {program program' : List Stmt}
    (hProgram : List.Forall₂ (Stmt.Mirrors M) program program') :
    (s.interpret program).1.Resembles R
        (s'.interpret program').1 ∧
      (s'.interpret program').2 = (s.interpret program).2 := by
  have hResolves := resolveProgram_mirrors hProgram
  unfold Session.interpret
  cases hFound : resolveProgram program <;>
    cases hFound' : resolveProgram program' <;>
    rw [hFound, hFound'] at hResolves
  · have hError : ScopeError.Mirrors M _ _ := hResolves
    exact ⟨hSessions.report hError.reported, rfl⟩
  · exact hResolves.elim
  · exact hResolves.elim
  · rename_i found found'
    rcases hResolves with ⟨hResolved, hRecorded⟩
    have hLoaded := hSessions.load hProgram found.recorded
    have hLimits :
        (s'.load program' found.recorded).limits =
          (s.load program found.recorded).limits := by
      rw [hLoaded.others]
    dsimp only
    rw [hRecorded]
    unfold execute
    rw [hLimits]
    apply hLoaded.finish
    exact
      mirrors_runProgram hNative _ hResolved _ _ hLoaded.machine

/-
  Sources of corresponding words are run alike by sessions that
  resemble each other, whatever has been run before.
-/
theorem run
    (hSessions : s.Resembles R s')
    (hNative : M.rel nativeCallToken nativeCallToken)
    {source source' : String}
    (hErrors : (tokenize source).errors = [])
    (hErrors' : (tokenize source').errors = [])
    (hTokens :
      List.Forall₂ M.rel (tokenize source).tokens
        (tokenize source').tokens) :
    (s.run source).1.Resembles R (s'.run source').1 ∧
      (s'.run source').2 = (s.run source).2 := by
  have hLimits : s'.limits = s.limits := by rw [hSessions.others]
  have hParsed := parse_mirrors s.limits hTokens (exists_eof source)
  have hReports :
      List.Forall₂ R.rel (s.readReports source)
        (s'.readReports source') := by
    unfold readReports Lexed.diagnostics
    rw [hErrors, hErrors', hLimits]
    exact hParsed.reported
  have hCleared := hSessions.clearFlags
  by_cases hNone : s.readReports source = []
  · have hNone' : s'.readReports source' = [] := by
      rw [hNone] at hReports
      exact List.forall₂_nil_left_iff.mp hReports
    rw [run_of_read hNone, run_of_read hNone', hLimits]
    exact hCleared.interpret hNative hParsed.program
  · have hSome' : s'.readReports source' ≠ [] := by
      intro hNone'
      rw [hNone'] at hReports
      exact hNone (List.forall₂_nil_right_iff.mp hReports)
    rw [run_of_unread hNone, run_of_unread hSome']
    exact ⟨hCleared.reportAll hReports, rfl⟩

end Session.Resembles

/- A new session resembles itself, whatever the tokens. -/
theorem Session.resembles_start
    (R : Reporting M)
    (settings : Settings)
    (clock : Clock)
    (natives : List Native) :
    (start settings clock natives).Resembles R
      (start settings clock natives) :=
  { machine := Machine.mirrors_start M (clockNative :: natives) clock
    lastError := .none
    reporter := ⟨rfl, rfl, .nil⟩
    transcript := .nil
    others := rfl }

end Lox
