import Mathlib.Data.List.Permutation
import Lox.Proofs.Machine.Simulation
import Lox.Proofs.Session.Distance

/-
  The names of local variables do not matter.

  A program in which one local declaration has been renamed,
  together with the uses that the resolver bound to it, runs in
  a new session as it did before: it prints the same lines,
  ends in the same way, and the same errors are reported.

  Key definitions include:
    * `SameEnd`
    * `Session.LooksLike`
    * `run_renamed`
-/

------------------------------------------------------------
-- What Can Be Seen
------------------------------------------------------------

namespace Lox

/- Two runs with the same output and the same end. -/
def SameEnd :
    EStateM.Result Interrupt Machine Unit →
      EStateM.Result Interrupt Machine Unit → Prop
  | .ok () m, .ok () m' => m'.output = m.output
  | .error e m, .error e' m' => e' = e ∧ m'.output = m.output
  | _, _ => False

namespace Session

/- Two sessions with the same output and the same reports. -/
structure LooksLike (s s' : Session) : Prop where
  printed :
    s'.transcript.printedLines = s.transcript.printedLines
  reports : s'.transcript.reports = s.transcript.reports
  tracing : s'.tracing = s.tracing

namespace LooksLike

variable {s s' : Session}

theorem settle
    (hLike : s.LooksLike s')
    {m m' : Machine}
    (hOutput : m'.output = m.output) :
    (s.settle m).LooksLike (s'.settle m') := by
  constructor
  · have hPrinted := hLike.printed
    simp only [transcript, Transcript.printedLines] at hPrinted
    simp [Session.settle, transcript, Transcript.printedLines,
      hOutput, hPrinted]
  · have hReports := hLike.reports
    simp only [transcript, Transcript.reports] at hReports
    simp [Session.settle, transcript, Transcript.reports,
      hOutput, hReports]
  · exact hLike.tracing

theorem report (hLike : s.LooksLike s') (d : Diagnostic) :
    (s.report d).LooksLike (s'.report d) := by
  constructor
  · have hPrinted := hLike.printed
    simp only [transcript, Transcript.printedLines] at hPrinted
    simp [Session.report, transcript, Transcript.printedLines,
      hPrinted]
  · have hReports := hLike.reports
    simp only [transcript, Transcript.reports] at hReports
    simp [Session.report, transcript, Transcript.reports,
      hReports]
  · exact hLike.tracing

/- Texts on the error output may differ. -/
theorem note
    (hLike : s.LooksLike s')
    (text text' : String) :
    (s.note text).LooksLike (s'.note text') := by
  constructor
  · have hPrinted := hLike.printed
    simp only [transcript, Transcript.printedLines] at hPrinted
    simp [Session.note, record, transcript,
      Transcript.printedLines, hPrinted]
  · have hReports := hLike.reports
    simp only [transcript, Transcript.reports] at hReports
    simp [Session.note, record, transcript, Transcript.reports,
      hReports]
  · exact hLike.tracing

end LooksLike

/- The trees that are shown may differ. -/
theorem load_looksLike
    (s : Session)
    (program program' : List Stmt)
    (recorded recorded' : Nat) :
    (s.load program recorded).LooksLike
      (s.load program' recorded') := by
  have hShown :
      (s.showTree program).LooksLike (s.showTree program') := by
    unfold showTree
    split
    · exact LooksLike.note ⟨rfl, rfl, rfl⟩ _ _
    · exact ⟨rfl, rfl, rfl⟩
  exact ⟨hShown.printed, hShown.reports, hShown.tracing⟩

/- Nothing is loaded onto the machine. -/
theorem load_machine
    (s : Session)
    (program : List Stmt)
    (recorded : Nat) :
    (s.load program recorded).machine = s.machine ∧
      (s.load program recorded).limits = s.limits := by
  unfold load showTree
  split
  · exact ⟨rfl, rfl⟩
  · exact ⟨rfl, rfl⟩

/- A program that resolves is run on the machine as it is. -/
theorem interpret_of_resolve
    {s : Session}
    {program : List Stmt}
    {resolved : Resolved}
    (hResolve : resolveProgram program = .ok resolved) :
    s.interpret program =
      (s.load program resolved.recorded).finish
        (runProgram s.limits resolved.program s.machine) := by
  rcases s.load_machine program resolved.recorded with
    ⟨hMachine, hLimits⟩
  unfold interpret
  rw [hResolve]
  show (s.load program resolved.recorded).execute _ = _
  unfold execute
  rw [hMachine, hLimits]

/- Runs with the same end leave the same to be seen. -/
theorem finish_looksLike
    {s s' : Session}
    {result result' : EStateM.Result Interrupt Machine Unit}
    (hLike : s.LooksLike s')
    (hSame : SameEnd result result') :
    (s.finish result).1.LooksLike (s'.finish result').1 ∧
      (s'.finish result').2 = (s.finish result).2 := by
  cases result with
  | ok a m =>
      cases result' with
      | ok a' m' => exact ⟨hLike.settle hSame, rfl⟩
      | error e' m' => exact hSame.elim
  | error e m =>
      cases result' with
      | ok a' m' => exact hSame.elim
      | error e' m' =>
          rcases hSame with ⟨rfl, hOutput⟩
          have hSettled := hLike.settle hOutput
          cases e' with
          | failed e =>
              have hFailed :
                  LooksLike { s.settle m with lastError := some e }
                    { s'.settle m' with lastError := some e } :=
                ⟨hSettled.printed, hSettled.reports, hSettled.tracing⟩
              have hReported := hFailed.report e.diagnostic
              refine ⟨?_, rfl⟩
              simp only [finish, showTrace, hReported.tracing]
              split
              · exact hReported.note _ _
              · exact hReported
          | nativeFailed failure => exact ⟨hSettled, rfl⟩
          | outOfFrames => exact ⟨hSettled, rfl⟩
          | outOfRounds => exact ⟨hSettled, rfl⟩

end Session

end Lox

------------------------------------------------------------
-- Renamed Programs
------------------------------------------------------------

namespace Lox

open Traced

/- A new machine is alike to itself. -/
theorem Machine.alike_start
    (natives : List Native)
    (clock : Clock) :
    Machine.Alike (fun _ => 1) (.start natives clock)
      (.start natives clock) := by
  have hGrows :=
    Machine.grows_bindNatives 0 natives 0 (Store.make {} none)
  have hBound : 0 < (Store.make {} none).next := by
    rw [Store.next_make]
    exact Nat.lt_succ_self _
  have hRoot : (Store.make {} none).parent? 0 = none :=
    Store.parent?_make_self {} none
  refine ⟨⟨rfl, fun _ => rfl, ?_⟩, rfl, rfl, rfl, rfl, rfl, ?_,
    ?_, rfl⟩
  · intro env name
    show Option.Rel _ _
      ((Machine.start natives clock).store.local? env name)
    cases hLocal :
      (Machine.start natives clock).store.local? env name with
    | none => exact .none
    | some value =>
        apply Option.Rel.some
        apply Value.alike_of_ne_function
        rcases Machine.local?_bindNatives hLocal with hOld | hNative
        · have hOld' :
              (Store.make {} none).local? env name = some value :=
            hOld
          rw [Store.local?_make] at hOld'
          simp [Store.local?, Store.bindings] at hOld'
        · rcases hNative with ⟨f, rfl⟩
          intro g hSame
          cases hSame
  · exact (hGrows.parent_eq 0 hBound).trans hRoot
  · exact Nat.lt_of_lt_of_le hBound hGrows.next_le

/- On a new machine, alike programs have the same end. -/
theorem sameEnd_start
    (limits : Limits)
    (natives : List Native)
    (clock : Clock)
    {program program' : List Stmt}
    {notes : List Notes}
    (hNoted : Stmt.BodyNoted [] program notes)
    (hAlike : Stmt.BodyAlike [] program program') :
    SameEnd (runProgram limits program (.start natives clock))
      (runProgram limits program' (.start natives clock)) := by
  let m := Machine.start natives clock
  have hStart :=
    Traced.sound_start natives clock
      (fun visit hVisit => absurd hVisit List.not_mem_nil)
  have hMachine := Machine.alike_start natives clock
  have hPaired :
      Paired (fun _ => 1) [] [] { machine := m } m :=
    ⟨hStart.1, hStart.2, hMachine, hMachine.bound, rfl⟩
  have hFollows :=
    runProgram_follows limits hPaired hNoted hAlike
  have hErased :=
    runProgramTraced_erases limits notes program { machine := m }
  have hSame : m = Machine.start natives clock := rfl
  rw [← hSame, ← hErased]
  unfold TracedRun.Follows at hFollows
  split at hFollows
  · rename_i hLeft hRight
    rcases hFollows with ⟨_, _, hLast, _⟩
    rw [hLeft, hRight]
    exact hLast.output
  · rename_i hLeft hRight
    rw [hLeft, hRight]
    exact hFollows
  · exact hFollows.elim

/-
  A source is read and resolved with no error. One local
  declaration is renamed, with the uses that are bound to it,
  to a name that does not occur in the program. The program
  then resolves to the same tree with this renaming, with the
  same numbers of scopes, and runs in a new session to the same
  end, with the same output and the same reports.
-/
theorem run_renamed
    (settings : Settings)
    (clock : Clock)
    (natives : List Native)
    {source : String}
    {session : Session}
    {program renamed : List Stmt}
    {resolved : Resolved}
    {x y : String}
    (hParse :
      (Session.start settings clock natives).parse source =
        (session, some program))
    (hResolve : resolveProgram program = .ok resolved)
    (hRenames :
      Stmt.RenamesLocalIn x y resolved.program renamed)
    (hNew : Stmt.AvoidsBody y program) :
    let start := Session.start settings clock natives
    let before := start.run source
    let after := start.interpret (Stmt.bareBody renamed)
    Stmt.bareBody resolved.program = program ∧
    resolveProgram (Stmt.bareBody renamed) =
      .ok ⟨renamed, resolved.recorded⟩ ∧
    after.2 = before.2 ∧
    after.1.transcript.printedLines =
      before.1.transcript.printedLines ∧
    after.1.transcript.reports = before.1.transcript.reports := by
  intro start before after
  rcases Session.parse_eq_some_iff.mp hParse with
    ⟨_, hRead, hFlags, hProgram⟩
  have hPlaced : Stmt.PlacedBody program := by
    rw [hProgram]
    exact placed_of_parse hRead
  have hBare : Stmt.bareBody resolved.program = program := by
    rw [bare_of_resolveProgram hResolve, hProgram]
    exact bare_of_parse hRead
  have hAvoids : Stmt.AvoidsBody y resolved.program := by
    apply (Stmt.avoidsBody_bare _).mp
    rwa [hBare]
  rcases exists_noted_of_resolveProgram hPlaced hResolve with
    ⟨notes, hNoted⟩
  have hRenamed :=
    resolveProgram_renamed hResolve hNoted hRenames hAvoids
  have hAlike := hRenames.alike .nil rfl hNoted hAvoids
  have hBefore : before = start.interpret program := by
    show start.run source = _
    unfold Session.run
    rw [hParse, hFlags]
    rfl
  have hEnd : SameEnd _ _ :=
    sameEnd_start start.limits (clockNative :: natives) clock
      hNoted hAlike
  have hLoaded :=
    start.load_looksLike program (Stmt.bareBody renamed)
      resolved.recorded resolved.recorded
  rcases Session.finish_looksLike hLoaded hEnd with
    ⟨hLike, hStatus⟩
  rw [hBefore]
  unfold after
  rw [Session.interpret_of_resolve hResolve,
    Session.interpret_of_resolve hRenamed]
  exact ⟨hBare, hRenamed, hStatus, hLike.printed, hLike.reports⟩

/- The source `{ var a; print a; }`. -/
def blockSource : String :=
  "\x7b var a; print a; \x7d"

/- Its tokens. -/
def blockTokens : List Token :=
  [ ⟨.leftBrace, "\x7b", .nil, 1, 1⟩,
    ⟨.varKw, "var", .nil, 1, 3⟩,
    ⟨.identifier, "a", .nil, 1, 7⟩,
    ⟨.semicolon, ";", .nil, 1, 8⟩,
    ⟨.printKw, "print", .nil, 1, 10⟩,
    ⟨.identifier, "a", .nil, 1, 16⟩,
    ⟨.semicolon, ";", .nil, 1, 17⟩,
    ⟨.rightBrace, "\x7d", .nil, 1, 19⟩, ⟨.eof, "", .nil, 1, 20⟩ ]

/- Its tree, with any name and number of scopes. -/
def blockTree (name : String) (hops : Option Nat) : Stmt :=
  .block
    [ .var ⟨.identifier, name, .nil, 1, 7⟩ none,
      .print (.variable ⟨.identifier, name, .nil, 1, 16⟩ hops) ]

theorem derives_blockTree :
    (Clause.declarations [blockTree "a" none]).Derives
      (blockTokens.takeWhile (·.kind ≠ .eof)) := by
  have hVar :=
    @Clause.Derives.var ⟨.varKw, "var", .nil, 1, 3⟩ _ _ rfl
      (@Stmt.VariableDerives.plain
        ⟨.identifier, "a", .nil, 1, 7⟩
        ⟨.semicolon, ";", .nil, 1, 8⟩ rfl rfl)
  have hPrint :=
    @Clause.Derives.print ⟨.printKw, "print", .nil, 1, 10⟩
      ⟨.semicolon, ";", .nil, 1, 17⟩ _ _ rfl
      (@Phrase.derives_name ⟨.identifier, "a", .nil, 1, 16⟩ rfl
        .assignment)
      rfl
  have hBlock :=
    @Clause.Derives.block ⟨.leftBrace, "\x7b", .nil, 1, 1⟩
      ⟨.rightBrace, "\x7d", .nil, 1, 19⟩ _ _ rfl
      (.next hVar (.next (.plain hPrint) .done)) rfl
  exact .next (.plain hBlock) .done

theorem tokenize_block :
    (tokenize blockSource).errors = [] ∧
      (tokenize blockSource).tokens = blockTokens := by
  constructor
  · cbv
  · cbv

theorem parse_block :
    (Session.start {} ⟨[]⟩ []).parse blockSource =
      (Session.start {} ⟨[]⟩ [], some [blockTree "a" none]) := by
  have hNesting :
      10 * blockTokens.length ≤
        (Limits.ofDepth 20000).nesting := by
    decide
  have hRead := parse_of_derives hNesting derives_blockTree
  apply Session.parse_eq_some_iff.mpr
  rw [tokenize_block.1, tokenize_block.2]
  have hLimits :
      (Session.start {} ⟨[]⟩ []).limits = .ofDepth 20000 := rfl
  rw [hLimits, hRead]
  exact ⟨rfl, rfl, rfl, rfl⟩

/- The variable of this block may as well be called `b`. -/
theorem run_renamed_block :
    let start := Session.start {} ⟨[]⟩ []
    let before := start.run blockSource
    let after :=
      start.interpret (Stmt.bareBody [blockTree "b" (some 0)])
    start.parse blockSource =
      (start, some [blockTree "a" none]) ∧
    resolveProgram [blockTree "a" none] =
      .ok ⟨[blockTree "a" (some 0)], 1⟩ ∧
    Stmt.RenamesLocalIn "a" "b" [blockTree "a" (some 0)]
      [blockTree "b" (some 0)] ∧
    Stmt.AvoidsBody "b" [blockTree "a" none] ∧
    after.2 = before.2 ∧
    after.1.transcript.printedLines =
      before.1.transcript.printedLines ∧
    after.1.transcript.reports = before.1.transcript.reports := by
  intro start before after
  have hResolve :
      resolveProgram [blockTree "a" none] =
        .ok ⟨[blockTree "a" (some 0)], 1⟩ := by
    rfl
  have hRenames :
      Stmt.RenamesLocalIn "a" "b" [blockTree "a" (some 0)]
        [blockTree "b" (some 0)] :=
    .here (.blockVar ⟨_, _, List.mem_cons_self, rfl⟩)
  have hNew : Stmt.AvoidsBody "b" [blockTree "a" none] := by
    simp [blockTree, Stmt.AvoidsBody, Stmt.Avoids, Expr.Avoids]
  have hSame :=
    run_renamed {} ⟨[]⟩ [] parse_block hResolve hRenames hNew
  exact ⟨parse_block, hResolve, hRenames, hNew, hSame.2.2⟩

end Lox
