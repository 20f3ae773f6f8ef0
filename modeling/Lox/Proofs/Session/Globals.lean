import Lox.Proofs.Machine.Globals
import Lox.Proofs.Session.Moments

/-
  Only declarations of the top level make globals.

  A session binds names in its globals when it starts, and a
  source that is run adds those that it declares at its top
  level, as far as it gets. Whatever else is executed on the
  way leaves the names of the globals as they are.

  Key definitions include:
    * `Machine.roster`
    * `Machine.IsAccounted`
    * `declarations_make_globals`
-/

------------------------------------------------------------
-- Machines Of A Session
------------------------------------------------------------

namespace Lox

/- The globals of a machine, with all that they bind. -/
def Machine.roster (m : Machine) : Roster :=
  ⟨m.globals, m.globalNames⟩

/-
  A machine at the top level, none of whose functions can reach
  the globals by a number of scopes.
-/
def Machine.IsAccounted (m : Machine) : Prop :=
  m.roster.CoversAt 0 m

theorem Roster.CoversAt.isAccounted
    {R : Roster}
    {m : Machine}
    (hAt : R.CoversAt 0 m) :
    m.IsAccounted := by
  have hSame : m.roster = R := by
    unfold Machine.roster
    rw [hAt.globals, hAt.globalNames_eq]
  unfold Machine.IsAccounted
  rw [hSame]
  exact hAt

/- A new machine has native functions only. -/
theorem Machine.isAccounted_start
    (natives : List Native)
    (clock : Clock) :
    (Machine.start natives clock).IsAccounted := by
  have hGrows :=
    Machine.grows_bindNatives 0 natives 0 (Store.make {} none)
  have hNew : (Store.make {} none).IsAt 0 0 0 :=
    ⟨rfl, Nat.zero_lt_one, rfl⟩
  refine ⟨⟨rfl, hNew.grows hGrows, rfl, ?_⟩, hNew.grows hGrows⟩
  intro env name value hLocal f hFunction
  rcases Machine.local?_bindNatives hLocal with hOld | ⟨g, rfl⟩
  · rw [Store.local?_make] at hOld
    cases hOld
  · cases hFunction

namespace Session

variable {s : Session} {source : String} {resolved : Resolved}

/- The program of a source and what it is resolved to. -/
theorem topLevel_of_resolve
    (hRead : s.readReports source = [])
    (hResolve :
      resolveProgram (s.programOf source) = .ok resolved) :
    (∀ stmt ∈ resolved.program, stmt.IsTopLevel) ∧
      s.programOf source = resolved.program.map Stmt.bare :=
  topLevel_of_resolveProgram (readReports_eq_nil_iff.mp hRead).2
    hResolve

theorem isAccounted_run
    (hAt : s.machine.IsAccounted)
    (source : String) :
    (s.run source).1.machine.IsAccounted := by
  rcases (s.run_frame source).2.2 with
    hSame | ⟨resolved, hRead, hResolve, hLeft⟩
  · rw [hSame]
    exact hAt
  · have hTop := (topLevel_of_resolve hRead hResolve).1
    rcases exists_completesFirst s.limits resolved.program
        s.machine with
      ⟨n, u, hFirst⟩
    have hDone := hAt.completed hTop hFirst
    rw [hLeft]
    exact
      Roster.CoversAt.isAccounted
        ⟨⟨hDone.globals, hDone.store⟩, hDone.current⟩

theorem isAccounted_after
    (hAt : s.machine.IsAccounted)
    (steps : List SessionStep) :
    (s.after steps).machine.IsAccounted := by
  induction steps generalizing s with
  | nil => exact hAt
  | cons step steps ih =>
      cases step with
      | run source => exact ih (isAccounted_run hAt source)
      | reset => exact ih (Machine.isAccounted_start _ _)

end Session

end Lox

------------------------------------------------------------
-- Names Of The Globals
------------------------------------------------------------

namespace Lox

open Session

/- How far a program gets decides the status of its run. -/
theorem CompletesFirst.status_iff
    {limits : Limits}
    {program : List Stmt}
    {m u : Machine}
    {n : Nat}
    (hFirst : CompletesFirst limits program m n u)
    (s : Session) :
    (s.finish (runProgram limits program m)).2 = .ok .ok ↔
      n = program.length := by
  rcases hFirst.stops with
    ⟨hAll, hRun⟩ | ⟨stmt, e, m', hStmt, _, hRun⟩
  · rw [hRun]
    simp [finish, hAll]
  · have hLess := (List.getElem?_eq_some_iff.mp hStmt).1
    rw [hRun]
    constructor
    · intro hStatus
      cases e <;> cases hStatus
    · intro hAll
      exact absurd hAll (Nat.ne_of_lt hLess)

/-
  Only declarations of the top level make globals. Take any
  session, after any steps that it has gone through, and any
  source that is read and resolved. Its program is executed
  statement by statement, to its end if the status is `ok` and
  else up to a first statement that fails. Then the globals bind
  what they did before and what the completed statements
  declare, and nothing else. And from the beginning of each of
  these statements to its end, all machines that the run passes
  through, in blocks, calls and functions that are bound
  anywhere, bind the same names in the globals, in the same
  order; only the machine that a declaration leaves when it has
  completed has the declared name as well.
-/
theorem declarations_make_globals
    (settings : Settings)
    (clock : Clock)
    (natives : List Native)
    (steps : List SessionStep)
    {source : String}
    {resolved : Resolved} :
    let s := (Session.start settings clock natives).after steps
    let rounds := s.limits.rounds
    let frames := s.limits.frames
    s.readReports source = [] →
    resolveProgram (s.programOf source) = .ok resolved →
      (∃ n u,
        CompletesFirst s.limits resolved.program s.machine n u ∧
        ((s.run source).2 = .ok .ok ↔
          n = (s.programOf source).length) ∧
        ∀ name,
          name ∈ (s.run source).1.machine.globalNames ↔
            name ∈ s.machine.globalNames ∨
              ∃ stmt ∈ (s.programOf source).take n, ∃ token,
                stmt.declared? = some token ∧
                token.lexeme = name) ∧
      ∀ stmt m M here,
        ComesToTop (exec rounds frames) resolved.program s.machine
          stmt m →
        Moment.LeadsOn rounds ⟨frames, .exec stmt, m⟩ M →
        M.Passes rounds here →
          here.globalNames = m.globalNames ∨
            ∃ token completion,
              stmt.declared? = some token ∧
              exec rounds frames stmt m = .ok completion here ∧
              here.globalNames =
                addName m.globalNames token.lexeme := by
  intro s rounds frames hRead hResolve
  have hAt : s.machine.IsAccounted :=
    isAccounted_after (Machine.isAccounted_start _ clock) steps
  rcases topLevel_of_resolve hRead hResolve with ⟨hTop, hBare⟩
  constructor
  · rcases exists_completesFirst s.limits resolved.program
        s.machine with
      ⟨n, u, hFirst⟩
    refine ⟨n, u, hFirst, ?_, ?_⟩
    · rw [run_of_resolve hRead hResolve, hBare, List.length_map]
      exact hFirst.status_iff _
    · intro name
      have hDone := (hAt.completed hTop hFirst).globalNames_eq
      have hNames :
          (s.run source).1.machine.globalNames =
            (s.machine.roster.declareAll
              (resolved.program.take n)).names := by
        rw [machine_run hRead hResolve]
        exact hDone
      rw [hNames, Roster.mem_names_declareAll, hBare,
        ← List.map_take]
      simp only [List.mem_map, exists_exists_and_eq_and,
        Stmt.declared?_bare]
      exact .rfl
  · intro stmt m M here hStmt hLeads hPasses
    rcases hAt.comesToTop hTop hStmt with ⟨hTop, R, hAt⟩
    have hBefore := hAt.globalNames_eq
    rcases hAt.passes_topLevel hTop hLeads hPasses with
      hCovers | ⟨token, completion, hDeclared, hRun, hCovers⟩
    · exact .inl (hCovers.globalNames_eq.trans hBefore.symm)
    · refine .inr ⟨token, completion, hDeclared, hRun, ?_⟩
      rw [hCovers.globalNames_eq, hBefore,
        Roster.names_declare hDeclared]

/- The tokens of the source `var a; b = nil; var c;`. -/
def stoppingTokens : List Token :=
  [ ⟨.varKw, "var", .nil, 1, 1⟩, ⟨.identifier, "a", .nil, 1, 5⟩,
    ⟨.semicolon, ";", .nil, 1, 6⟩, ⟨.identifier, "b", .nil, 1, 8⟩,
    ⟨.equal, "=", .nil, 1, 10⟩, ⟨.nilKw, "nil", .nil, 1, 12⟩,
    ⟨.semicolon, ";", .nil, 1, 15⟩, ⟨.varKw, "var", .nil, 1, 17⟩,
    ⟨.identifier, "c", .nil, 1, 21⟩,
    ⟨.semicolon, ";", .nil, 1, 22⟩, ⟨.eof, "", .nil, 1, 23⟩ ]

/- Its program, which stops at the assignment. -/
def stoppingProgram : List Stmt :=
  [ .var ⟨.identifier, "a", .nil, 1, 5⟩ none,
    .expression
      (.assign ⟨.identifier, "b", .nil, 1, 8⟩ (.literal .nil)
        none),
    .var ⟨.identifier, "c", .nil, 1, 21⟩ none ]

/-
  Of the three names only the first one is declared: the second
  one is not declared by an assignment, which fails, and the
  third declaration is not executed.
-/
theorem declarations_make_globals_stopped :
    let start := Session.start {} ⟨[]⟩ []
    let source := "var a; b = nil; var c;"
    start.readReports source = [] ∧
    resolveProgram (start.programOf source) =
      .ok ⟨stoppingProgram, 0⟩ ∧
    ∀ name,
      name ∈ (start.run source).1.machine.globalNames ↔
        name ∈ start.machine.globalNames ∨ name = "a" := by
  intro start source
  have hTokens :
      (tokenize "var a; b = nil; var c;").tokens =
        stoppingTokens := by
    cbv
  have hRead : start.readReports source = [] := by decide +kernel
  have hProgram : start.programOf source = stoppingProgram := by
    unfold Session.programOf
    rw [hTokens]
    rfl
  have hResolve :
      resolveProgram (start.programOf source) =
        .ok ⟨stoppingProgram, 0⟩ := by
    rw [hProgram]
    rfl
  rcases
    (declarations_make_globals {} ⟨[]⟩ [] [] hRead hResolve).1 with
    ⟨n, u, ⟨hCompleted, hStops⟩, hStatus, hNames⟩
  have hOne : n = 1 := by
    rcases n with _ | _ | n
    · -- The first declaration completes.
      rcases hStops with ⟨hAll, _⟩ | ⟨stmt, e, m', hStmt, hFails, _⟩
      · cases hAll
      · cases hStmt
        cases hCompleted
        cases hFails
    · rfl
    · -- The assignment does not.
      cases hCompleted
  subst hOne
  refine ⟨hRead, hResolve, ?_⟩
  intro name
  have hHere :
      name ∈ (start.run source).1.machine.globalNames ↔
        name ∈ start.machine.globalNames ∨
          ∃ stmt ∈ (start.programOf source).take 1, ∃ token,
            stmt.declared? = some token ∧ token.lexeme = name :=
    hNames name
  rw [hProgram] at hHere
  simpa [stoppingProgram, Stmt.declared?, eq_comm] using hHere

end Lox
