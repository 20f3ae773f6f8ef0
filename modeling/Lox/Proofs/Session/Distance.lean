import Lox.Proofs.Machine.Agreement
import Lox.Proofs.Scope.Resolved
import Lox.Session

/-
  The resolver and the machine agree in every session.

  A session is followed with the trace of all its runs. After
  any sequence of sources, be they read, resolved and run to
  their end or not, every visit so far found the environment
  that the resolver had promised.

  Key definitions include:
    * `SessionStep`
    * `Session.after`
    * `TracedSession.after`
    * `scopes_agree`
-/

------------------------------------------------------------
-- Reading
------------------------------------------------------------

namespace Lox.Session

theorem hadError_report (s : Session) (d : Diagnostic) :
    (s.report d).reporter.hadError =
      (s.reporter.hadError || decide (d.stage ≠ .running)) := by
  unfold report Reporter.report
  cases d.stage <;> simp

/- Once an error is reported, it stays so. -/
theorem hadError_reportAll (s : Session) (ds : List Diagnostic) :
    (s.reportAll ds).reporter.hadError =
      (s.reporter.hadError ||
        ds.any fun d => decide (d.stage ≠ .running)) := by
  induction ds generalizing s with
  | nil => simp [reportAll]
  | cons d ds ih =>
      have hRest := ih (s.report d)
      rw [hadError_report] at hRest
      simpa [reportAll, Bool.or_assoc] using hRest

theorem machine_reportAll (s : Session) (ds : List Diagnostic) :
    (s.reportAll ds).machine = s.machine := by
  induction ds generalizing s with
  | nil => rfl
  | cons d ds ih => exact ih (s.report d)

theorem lastError_reportAll
    (s : Session)
    (ds : List Diagnostic) :
    (s.reportAll ds).lastError = s.lastError := by
  induction ds generalizing s with
  | nil => rfl
  | cons d ds ih => exact ih (s.report d)

theorem machine_parse (s : Session) (source : String) :
    (s.parse source).1.machine = s.machine := by
  unfold parse
  simp only
  split <;> simp [machine_reportAll, clearFlags]

theorem lastError_parse (s : Session) (source : String) :
    (s.parse source).1.lastError = s.lastError := by
  unfold parse
  simp only
  split <;> simp [lastError_reportAll, clearFlags]

/-
  A source is handed on if it has been read with no error, and
  then nothing is reported.
-/
theorem parse_eq_some_iff
    {s s' : Session}
    {source : String}
    {program : List Stmt} :
    s.parse source = (s', some program) ↔
      (tokenize source).errors = [] ∧
      (Lox.parse s.limits (tokenize source).tokens).errors = [] ∧
      s' = s.clearFlags ∧
      program =
        (Lox.parse s.limits (tokenize source).tokens).program := by
  let lexed := tokenize source
  let parsed := Lox.parse s.limits lexed.tokens
  constructor
  · intro hParse
    unfold parse at hParse
    simp only at hParse
    split at hParse
    · cases hParse
    · rename_i hNone
      simp only [hadError_reportAll, Bool.or_eq_true,
        List.any_eq_true, not_or, not_exists] at hNone
      have hLexed : lexed.errors = [] := by
        apply List.eq_nil_iff_forall_not_mem.mpr
        intro e hMem
        apply hNone.1.2 (.lexical e.line e.message)
        exact ⟨List.mem_map.mpr ⟨e, hMem, rfl⟩, rfl⟩
      have hParsed : parsed.errors = [] := by
        apply List.eq_nil_iff_forall_not_mem.mpr
        intro e hMem
        apply hNone.2 (.structural e.token e.message)
        exact ⟨List.mem_map.mpr ⟨e, hMem, rfl⟩, rfl⟩
      cases hParse
      refine ⟨hLexed, hParsed, ?_, rfl⟩
      have hNoLexed : lexed.diagnostics = [] := by
        rw [Lexed.diagnostics, hLexed, List.map_nil]
      have hNoParsed : parsed.diagnostics = [] := by
        rw [Parsed.diagnostics, hParsed, List.map_nil]
      show (s.clearFlags.reportAll lexed.diagnostics).reportAll
        parsed.diagnostics = s.clearFlags
      rw [hNoLexed, hNoParsed]
      rfl
  · intro hRead
    rcases hRead with ⟨hLexed, hParsed, rfl, rfl⟩
    unfold parse
    simp only [Lexed.diagnostics, Parsed.diagnostics, hLexed,
      hParsed, List.map_nil]
    rfl

end Lox.Session

------------------------------------------------------------
-- Sessions With A Trace
------------------------------------------------------------

namespace Lox

/- A source to be run, or the wish to start over. -/
inductive SessionStep where
  | run (source : String)
  | reset

/- A session after some steps. -/
def Session.after (s : Session) : List SessionStep → Session
  | [] => s
  | .run source :: steps => (s.run source).1.after steps
  | .reset :: steps => s.reset.after steps

/- A session with the trace of its runs. -/
structure TracedSession where
  session : Session
  bodies : Nat → List Notes := fun _ => []
  visits : List Visit := []

/- What a run with a trace has left. -/
def Traced.left
    {α : Type} :
    EStateM.Result Interrupt Traced α → Traced
  | .ok _ t => t
  | .error _ t => t

namespace TracedSession

/- The machine of the session, with the trace. -/
def traced (s : TracedSession) : Traced :=
  ⟨s.session.machine, s.bodies, s.visits⟩

/- Runs a resolved program with the notes of its resolver. -/
def execute
    (s : TracedSession)
    (notes : List Notes)
    (program : List Stmt) :
    TracedSession :=
  let result :=
    runProgramTraced s.session.limits notes program s.traced
  let left := Traced.left result
  { session := (s.session.finish (Traced.erase result)).1
    bodies := left.bodies
    visits := left.visits }

/- Resolves and runs a program. -/
def interpret
    (s : TracedSession)
    (program : List Stmt) :
    TracedSession :=
  match resolveProgramNoting program with
  | .error e =>
      { s with session := s.session.report e.diagnostic }
  | .ok (resolved, notes) =>
      let session := s.session.load program resolved.recorded
      { s with session }.execute notes resolved.program

/- Reads, resolves and runs a source. -/
def run (s : TracedSession) (source : String) : TracedSession :=
  match s.session.parse source with
  | (session, none) => { s with session }
  | (session, some program) =>
      { s with session }.interpret program

/-
  A session after some steps. Starting over forgets all
  functions; what has been visited is kept.
-/
def after (s : TracedSession) : List SessionStep → TracedSession
  | [] => s
  | .run source :: steps => (s.run source).after steps
  | .reset :: steps =>
      let session := s.session.reset
      after { session, visits := s.visits } steps

theorem interpret_session
    (s : TracedSession)
    (program : List Stmt) :
    (s.interpret program).session =
      (s.session.interpret program).1 := by
  have hErased := resolveProgramNoting_erased program
  unfold interpret Session.interpret
  rw [← hErased]
  cases resolveProgramNoting program with
  | error e => rfl
  | ok result =>
      rcases result with ⟨resolved, notes⟩
      simp only [Except.map, execute, Session.execute]
      rw [runProgramTraced_erases]
      rfl

theorem run_session (s : TracedSession) (source : String) :
    (s.run source).session = (s.session.run source).1 := by
  unfold run Session.run
  rcases s.session.parse source with ⟨session, program⟩
  cases program with
  | none => rfl
  | some program => exact interpret_session _ program

/- Without the trace, this is the session as it stands. -/
theorem after_session
    (s : TracedSession)
    (steps : List SessionStep) :
    (s.after steps).session = s.session.after steps := by
  induction steps generalizing s with
  | nil => rfl
  | cons step steps ih =>
      cases step with
      | run source =>
          rw [after, ih, run_session]
          rfl
      | reset =>
          rw [after, ih]
          rfl

end TracedSession

end Lox

------------------------------------------------------------
-- Sound Sessions
------------------------------------------------------------

namespace Lox

/- The natives are bound, and nothing else. -/
theorem Machine.local?_bindNatives
    {globals env : EnvId}
    {natives : List Native}
    {ident : Nat}
    {store : Store}
    {name : String}
    {value : Value}
    (hLocal :
      (bindNatives globals ident natives store).local? env name =
        some value) :
    store.local? env name = some value ∨
      ∃ f, value = .native f := by
  induction natives generalizing ident store with
  | nil => exact .inl hLocal
  | cons native natives ih =>
      rcases ih hLocal with hOld | hNative
      · rcases Store.local?_define_eq_some hOld with hOld | rfl
        · exact .inl hOld
        · exact .inr ⟨_, rfl⟩
      · exact .inr hNative

theorem Machine.grows_bindNatives
    (globals : EnvId)
    (natives : List Native)
    (ident : Nat)
    (store : Store) :
    store.Grows (bindNatives globals ident natives store) := by
  induction natives generalizing ident store with
  | nil => exact .refl store
  | cons native natives ih =>
      exact (Store.Grows.define _ _ _ _).trans (ih _ _)

/- A new machine is sound and at its globals. -/
theorem Traced.sound_start
    (natives : List Native)
    (clock : Clock)
    {visits : List Visit}
    (hVisits : ∀ visit ∈ visits, visit.Agrees) :
    Traced.Sound
        { machine := .start natives clock, visits } ∧
      Traced.In
        { machine := .start natives clock, visits } [] := by
  constructor
  · refine ⟨?_, hVisits⟩
    intro env name value hLocal
    rcases Machine.local?_bindNatives hLocal with hOld | hNative
    · have hLocal' :
          (Store.make {} none).local? env name = some value :=
        hOld
      rw [Store.local?_make] at hLocal'
      simp [Store.local?, Store.bindings] at hLocal'
    · rcases hNative with ⟨f, rfl⟩
      exact trivial
  · have hGrows :=
      Machine.grows_bindNatives 0 natives 0 (Store.make {} none)
    have hNew :
        (Store.make {} none).Agrees 0 [] 0 := by
      refine ⟨rfl, ?_, Store.parent?_make_self {} none⟩
      rw [Store.next_make]
      exact Nat.lt_succ_self _
    exact hNew.grows hGrows

/- More visits leave the blame where it is. -/
theorem RuntimeError.Blamed.mono
    {e : RuntimeError}
    {visits more : List Visit}
    (hBlamed : e.Blamed visits)
    (hMore : ∀ visit ∈ visits, visit ∈ more) :
    e.Blamed more := by
  refine ⟨hBlamed.1, ?_⟩
  intro text hFault
  rcases hBlamed.2 text hFault with ⟨visit, hMem, hUse⟩
  exact ⟨visit, hMore visit hMem, hUse⟩

namespace TracedSession

/-
  Between runs the machine is sound and at its globals, and
  the last error is blamed on what it should be.
-/
structure Sound (s : TracedSession) : Prop where
  sound : s.traced.Sound
  atGlobals : s.traced.In []
  lastError :
    ∀ e, s.session.lastError = some e → e.Blamed s.visits

/- What does not touch the machine keeps a session sound. -/
theorem Sound.withSession
    {s : TracedSession}
    {session : Session}
    (hSound : s.Sound)
    (hMachine : session.machine = s.session.machine)
    (hError : session.lastError = s.session.lastError) :
    Sound { s with session } := by
  constructor
  · unfold traced
    rw [hMachine]
    exact hSound.sound
  · unfold traced
    rw [hMachine]
    exact hSound.atGlobals
  · intro e hLast
    exact hSound.lastError e (hError ▸ hLast)

theorem machine_showTrace (s : Session) :
    s.showTrace.machine = s.machine := by
  unfold Session.showTrace
  split <;> rfl

theorem lastError_showTrace (s : Session) :
    s.showTrace.lastError = s.lastError := by
  unfold Session.showTrace
  split <;> rfl

/-
  What is left of a session when a run has ended, in terms of
  the machine that is left.
-/
theorem finish_spec
    (s : Session)
    (result : EStateM.Result Interrupt Machine Unit) :
    let m :=
      match result with
      | .ok _ m => m
      | .error _ m => m
    let session := (s.finish result).1
    session.machine = { m with output := #[] } ∧
    (session.lastError = s.lastError ∨
      ∃ e, result = .error (.failed e) m ∧
        session.lastError = some e) := by
  cases result with
  | ok a m => exact ⟨rfl, .inl rfl⟩
  | error interrupt m =>
      cases interrupt with
      | failed e =>
          refine ⟨?_, .inr ⟨e, rfl, ?_⟩⟩
          · unfold Session.finish
            rw [machine_showTrace]
            rfl
          · unfold Session.finish
            rw [lastError_showTrace]
            rfl
      | nativeFailed failure => exact ⟨rfl, .inl rfl⟩
      | outOfFrames => exact ⟨rfl, .inl rfl⟩
      | outOfRounds => exact ⟨rfl, .inl rfl⟩

theorem Sound.execute
    {s : TracedSession}
    {notes : List Notes}
    {program : List Stmt}
    (hSound : s.Sound)
    (hNoted : Stmt.BodyNoted [] program notes) :
    (s.execute notes program).Sound := by
  have hKeeps :=
    runProgramTraced_keeps s.session.limits hSound.sound
      hSound.atGlobals hNoted
  unfold TracedRun.Keeps at hKeeps
  unfold TracedSession.execute
  cases hRun :
    runProgramTraced s.session.limits notes program s.traced with
  | ok a t =>
      rw [hRun] at hKeeps
      rcases hKeeps with ⟨hSoundT, hGrows, _⟩
      have hIn := hSound.atGlobals.grows hGrows
      refine ⟨⟨hSoundT.values, hSoundT.visits⟩, hIn, ?_⟩
      intro e hLast
      exact (hSound.lastError e hLast).mono hGrows.visits
  | error interrupt t =>
      rw [hRun] at hKeeps
      rcases hKeeps with ⟨hSoundT, hGrows, hBlamed⟩
      have hIn := hSound.atGlobals.grows hGrows
      rcases
        finish_spec s.session (.error interrupt t.machine) with
        ⟨hMachine, hError⟩
      constructor
      · unfold traced
        simp only [Traced.erase, Traced.left, hMachine]
        exact ⟨hSoundT.values, hSoundT.visits⟩
      · unfold traced
        simp only [Traced.erase, Traced.left, hMachine]
        exact hIn
      · intro e hLast
        simp only [Traced.erase] at hLast
        rcases hError with hSame | ⟨last, hFailed, hSame⟩
        · rw [hSame] at hLast
          exact (hSound.lastError e hLast).mono hGrows.visits
        · rw [hSame] at hLast
          cases hLast
          cases hFailed
          exact hBlamed

theorem Sound.interpret
    {s : TracedSession}
    {program : List Stmt}
    (hSound : s.Sound)
    (hPlaced : Stmt.PlacedBody program) :
    (s.interpret program).Sound := by
  unfold TracedSession.interpret
  cases hResolve : resolveProgramNoting program with
  | error e => exact hSound.withSession rfl rfl
  | ok result =>
      rcases result with ⟨resolved, notes⟩
      have hNoted := noted_of_resolveProgram hPlaced hResolve
      apply Sound.execute _ hNoted
      apply hSound.withSession
      · unfold Session.load Session.showTree
        split <;> rfl
      · unfold Session.load Session.showTree
        split <;> rfl

theorem Sound.run
    {s : TracedSession}
    (hSound : s.Sound)
    (source : String) :
    (s.run source).Sound := by
  have hMachine := s.session.machine_parse source
  have hError := s.session.lastError_parse source
  unfold TracedSession.run
  cases hParse : s.session.parse source with
  | mk session program =>
      rw [hParse] at hMachine hError
      have hRead := hSound.withSession hMachine hError
      cases program with
      | none => exact hRead
      | some program =>
          rcases Session.parse_eq_some_iff.mp hParse with
            ⟨_, hNone, _, rfl⟩
          exact hRead.interpret (placed_of_parse hNone)

theorem Sound.after
    {s : TracedSession}
    (hSound : s.Sound)
    (steps : List SessionStep) :
    (s.after steps).Sound := by
  induction steps generalizing s with
  | nil => exact hSound
  | cons step steps ih =>
      cases step with
      | run source => exact ih (hSound.run source)
      | reset =>
          apply ih
          have hStart :=
            Traced.sound_start s.session.natives
              s.session.machine.clock hSound.sound.visits
          refine ⟨hStart.1, hStart.2, ?_⟩
          intro e hLast
          cases hLast

theorem sound_start
    (settings : Settings)
    (clock : Clock)
    (natives : List Native) :
    Sound { session := .start settings clock natives } := by
  have hStart :=
    Traced.sound_start (clockNative :: natives) clock
      (fun visit hVisit => absurd hVisit List.not_mem_nil)
  refine ⟨hStart.1, hStart.2, ?_⟩
  intro e hLast
  cases hLast

end TracedSession

/-
  In every session, whatever has been run in it, each visit to
  a node found as many environments around the current one as
  the resolver had scopes, and the number of scopes recorded
  for a use leads to an environment, which binds the name that
  is read there. So no run failed for a wrong number of
  scopes, and a name that is not bound is that of a use with
  no number. The trace is that of the session as it stands.
-/
theorem scopes_agree
    (settings : Settings)
    (clock : Clock)
    (natives : List Native)
    (steps : List SessionStep) :
    let session := Session.start settings clock natives
    let traced := TracedSession.after { session } steps
    traced.session = session.after steps ∧
    (∀ visit ∈ traced.visits, visit.Agrees) ∧
    ∀ e, traced.session.lastError = some e →
      e.Blamed traced.visits := by
  intro session traced
  have hSound :=
    (TracedSession.sound_start settings clock natives).after
      steps
  exact
    ⟨TracedSession.after_session _ steps, hSound.sound.visits,
      hSound.lastError⟩

end Lox
