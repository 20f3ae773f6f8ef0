import Lox.Proofs.Machine.DeadCode
import Lox.Proofs.Scope.DeadCode
import Lox.Proofs.Session.Renaming

/-
  Code after a `return` is dead.

  A program from which statements that follow a `return` in
  their list have been deleted resolves as the program does,
  and runs in a new session as it did: it prints the same
  lines, ends in the same way, and the same errors are
  reported. Both run as the program does that has no such
  statements at all.

  Key definitions include:
    * `Stmt.trim_cuts`
    * `sameEnd_cuts`
    * `dead_code_deleted`
-/

------------------------------------------------------------
-- What Is Left Of Both
------------------------------------------------------------

namespace Lox

mutual

/- What is left when all dead code is cut off is the same. -/
theorem Stmt.trim_cuts
    (s : Stmt)
    {s' : Stmt}
    (hCuts : s.Cuts s') :
    s'.trim = s.trim := by
  cases s with
  | expression value | print value | var name initializer
  | ret keyword value =>
      cases hCuts
      rfl
  | block body =>
      cases hCuts with
      | same => rfl
      | block hBody =>
          simp only [Stmt.trim, Stmt.trimBody_cuts body hBody]
  | ifThen condition thenBranch =>
      cases hCuts with
      | same => rfl
      | ifThen hThen =>
          simp only [Stmt.trim, Stmt.trim_cuts thenBranch hThen]
  | ifElse condition thenBranch elseBranch =>
      cases hCuts with
      | same => rfl
      | ifElse hThen hElse =>
          simp only [Stmt.trim, Stmt.trim_cuts thenBranch hThen,
            Stmt.trim_cuts elseBranch hElse]
  | loop condition body =>
      cases hCuts with
      | same => rfl
      | loop hBody =>
          simp only [Stmt.trim, Stmt.trim_cuts body hBody]
  | function name params body =>
      cases hCuts with
      | same => rfl
      | function hBody =>
          simp only [Stmt.trim, Stmt.trimBody_cuts body hBody]

theorem Stmt.trimBody_cuts
    (body : List Stmt)
    {body' : List Stmt}
    (hCuts : Stmt.BodyCuts body body') :
    Stmt.trimBody body' = Stmt.trimBody body := by
  cases body with
  | nil =>
      cases hCuts
      rfl
  | cons stmt body =>
      cases hCuts with
      | ret => rfl
      | @cons _ stmt' _ body' hFirst hRest =>
          have hStmt := Stmt.trim_cuts stmt hFirst
          have hBody := Stmt.trimBody_cuts body hRest
          by_cases hRet : ∃ keyword value, stmt = .ret keyword value
          · rcases hRet with ⟨keyword, value, rfl⟩
            cases hFirst
            rfl
          · have hRet' :
                ∀ keyword value, stmt' ≠ .ret keyword value := by
              rintro keyword value rfl
              cases hFirst
              exact hRet ⟨keyword, value, rfl⟩
            rw [Stmt.trimBody_cons hRet',
              Stmt.trimBody_cons fun keyword value hSame =>
                hRet ⟨keyword, value, hSame⟩,
              hStmt, hBody]

end

theorem map_trim_cuts
    {program program' : List Stmt}
    (hCuts : List.Forall₂ Stmt.Cuts program program') :
    program'.map Stmt.trim = program.map Stmt.trim := by
  induction hCuts with
  | nil => rfl
  | cons hFirst _ ih =>
      rw [List.map_cons, List.map_cons, ih,
        Stmt.trim_cuts _ hFirst]

/-
  On a machine without functions both programs have the same
  end, which is that of the trimmed program.
-/
theorem sameEnd_cuts
    (limits : Limits)
    {program program' : List Stmt}
    (hCuts : List.Forall₂ Stmt.Cuts program program')
    {m : Machine}
    (hMachine : m.recode Stmt.trimBody = m) :
    SameEnd (runProgram limits program m)
      (runProgram limits program' m) := by
  have hFirst :=
    runProgram_trimmed limits program m m hMachine.symm
  have hSecond :=
    runProgram_trimmed limits program' m m hMachine.symm
  rw [map_trim_cuts hCuts] at hSecond
  generalize runProgram limits (program.map Stmt.trim) m = end' at *
  generalize runProgram limits program m = result at *
  generalize runProgram limits program' m = result' at *
  cases end' with
  | ok a u =>
      cases result with
      | error e v => exact hFirst.elim
      | ok b v =>
          cases result' with
          | error e w => exact hSecond.elim
          | ok c w =>
              have hOutput := congrArg Machine.output hFirst.2
              have hOutput' := congrArg Machine.output hSecond.2
              exact hOutput'.symm.trans hOutput
  | error e u =>
      cases result with
      | ok b v => exact hFirst.elim
      | error e' v =>
          cases result' with
          | ok c w => exact hSecond.elim
          | error e'' w =>
              have hOutput := congrArg Machine.output hFirst.2
              have hOutput' := congrArg Machine.output hSecond.2
              have hError : e = e' := hFirst.1
              have hError' : e = e'' := hSecond.1
              exact
                ⟨hError'.symm.trans hError,
                  hOutput'.symm.trans hOutput⟩

end Lox

------------------------------------------------------------
-- Sessions
------------------------------------------------------------

namespace Lox

/-
  A program resolves. Where code has been deleted from it that
  follows a `return` in a list of statements, of a function or
  of a block, it still resolves, and it runs in a new session
  to the same end, with the same output and the same reports.
-/
theorem dead_code_deleted
    (settings : Settings)
    (clock : Clock)
    (natives : List Native)
    {program program' : List Stmt}
    (hCuts : List.Forall₂ Stmt.Cuts program program')
    {resolved : Resolved}
    (hResolve : resolveProgram program = .ok resolved) :
    let start := Session.start settings clock natives
    let before := start.interpret program
    let after := start.interpret program'
    (∃ resolved', resolveProgram program' = .ok resolved') ∧
    after.2 = before.2 ∧
    after.1.transcript.printedLines =
      before.1.transcript.printedLines ∧
    after.1.transcript.reports = before.1.transcript.reports := by
  intro start before after
  rcases resolveProgram_cuts hCuts hResolve with
    ⟨resolved', hResolve', hLeft⟩
  have hEnd :
      SameEnd
        (runProgram start.limits resolved.program start.machine)
        (runProgram start.limits resolved'.program
          start.machine) :=
    sameEnd_cuts start.limits hLeft (Machine.recode_start _ _ _)
  have hLoaded :=
    start.load_looksLike program program' resolved.recorded
      resolved'.recorded
  rcases Session.finish_looksLike hLoaded hEnd with
    ⟨hLike, hStatus⟩
  unfold before after
  rw [Session.interpret_of_resolve hResolve,
    Session.interpret_of_resolve hResolve']
  exact
    ⟨⟨resolved', hResolve'⟩, hStatus, hLike.printed,
      hLike.reports⟩

/-
  The statements `fun f() { return true; ... } print f();`, with
  any statements after the `return`.
-/
def printTrue (after : List Stmt) : List Stmt :=
  [ .function ⟨.identifier, "f", .nil, 1, 5⟩ []
      (.ret ⟨.returnKw, "return", .nil, 1, 11⟩
        (some (.literal (.bool true))) :: after),
    .print
      (.call (.variable ⟨.identifier, "f", .nil, 2, 7⟩ none)
        ⟨.rightParen, ")", .nil, 2, 9⟩ []) ]

/- Nothing is printed by the `print` after the `return`. -/
theorem dead_code_deleted_print :
    let dead : Stmt := .print (.literal .nil)
    let start := Session.start {} ⟨[]⟩ []
    let before := start.interpret (printTrue [dead])
    let after := start.interpret (printTrue [])
    (∃ resolved', resolveProgram (printTrue []) = .ok resolved') ∧
    after.2 = before.2 ∧
    after.1.transcript.printedLines =
      before.1.transcript.printedLines ∧
    after.1.transcript.reports =
      before.1.transcript.reports := by
  intro dead start before after
  have hCuts :
      List.Forall₂ Stmt.Cuts (printTrue [dead]) (printTrue []) :=
    .cons (.function (.ret _)) (.cons .same .nil)
  have hResolve :
      resolveProgram (printTrue [dead]) =
        .ok ⟨printTrue [dead], 0⟩ :=
    rfl
  exact dead_code_deleted {} ⟨[]⟩ [] hCuts hResolve

end Lox
