import Mathlib.Data.List.InsertIdx
import Lox.Proofs.Machine.Recoding

/-
  Statements after a `return` are never executed.

  A list of statements is executed up to the first one that
  returns. So nothing changes where all that follows a `return`
  in its list is left out, in the program and in the bodies of
  all functions that there are: each step ends in the same way
  and leaves the same machine, but for such bodies.

  Key definitions include:
    * `Stmt.trim`
    * `Stmt.trimBody`
    * `evaluation_trimmed`
    * `runProgram_trimmed`
-/

------------------------------------------------------------
-- Trimmed Statements
------------------------------------------------------------

namespace Lox

mutual

/- The statement with all lists in it cut after a `return`. -/
def Stmt.trim : Stmt → Stmt
  | .block body => .block (Stmt.trimBody body)
  | .ifThen condition thenBranch =>
      .ifThen condition thenBranch.trim
  | .ifElse condition thenBranch elseBranch =>
      .ifElse condition thenBranch.trim elseBranch.trim
  | .loop condition body => .loop condition body.trim
  | .function name params body =>
      .function name params (Stmt.trimBody body)
  | s => s

/- The statements up to the first that is a `return`. -/
def Stmt.trimBody : List Stmt → List Stmt
  | [] => []
  | .ret keyword value :: _ => [.ret keyword value]
  | stmt :: body => stmt.trim :: Stmt.trimBody body

end

theorem Stmt.trimBody_cons
    {stmt : Stmt}
    (hStmt : ∀ keyword value, stmt ≠ .ret keyword value)
    (body : List Stmt) :
    Stmt.trimBody (stmt :: body) =
      stmt.trim :: Stmt.trimBody body := by
  rw [Stmt.trimBody]
  exact hStmt

end Lox

------------------------------------------------------------
-- Lists Of Steps And Calls
------------------------------------------------------------

namespace Lox

open Run Coupling

variable {eval : Expr → Run Value}
variable {exec : Stmt → Run Completion}
variable {call : Value → List Value → Token → Run Value}

/- An expression has no statements that could be left out. -/
def EvalTrims (eval : Expr → Run Value) : Prop :=
  ∀ e, GivesRecoded Stmt.trimBody (eval e) (eval e)

def ExecTrims (exec : Stmt → Run Completion) : Prop :=
  ∀ s : Stmt, EndsRecoded Stmt.trimBody (exec s) (exec s.trim)

def CallTrims
    (call : Value → List Value → Token → Run Value) :
    Prop :=
  ∀ (callee : Value) (args : List Value) (paren : Token),
    GivesRecoded Stmt.trimBody (call callee args paren)
      (call (callee.recode Stmt.trimBody)
        (args.map (Value.recode Stmt.trimBody)) paren)

/- A `return` that is executed never ends normally. -/
def ExecReturns (exec : Stmt → Run Completion) : Prop :=
  ∀ keyword value m m',
    exec (.ret keyword value) m ≠ .ok .normal m'

theorem execReturns_exec (rounds frames : Nat) :
    ExecReturns (Lox.exec rounds frames) := by
  intro keyword value m m' hRun
  cases frames with
  | zero =>
      rw [Lox.exec] at hRun
      cases hRun
  | succ frames =>
      rw [exec.eq_def] at hRun
      cases value with
      | none => cases hRun
      | some value =>
          rcases bind_eq_ok_iff.mp hRun with ⟨_, _, _, hEnd⟩
          cases hEnd

/- What follows a `return` in its list makes no difference. -/
theorem execAll_ret
    (hReturns : ExecReturns exec)
    (keyword : Token)
    (value : Option Expr)
    (after : List Stmt) :
    execAll exec (.ret keyword value :: after) =
      execAll exec [.ret keyword value] := by
  funext m
  unfold execAll
  cases hRun : exec (.ret keyword value) m with
  | ok completion u =>
      rw [bind_of_ok hRun, bind_of_ok hRun]
      cases completion with
      | normal => exact absurd hRun (hReturns keyword value m u)
      | returned value => rfl
  | error e u => rw [bind_of_error hRun, bind_of_error hRun]

theorem EvalTrims.evalAll
    (hEval : EvalTrims eval)
    (args : List Expr) :
    (recoding Stmt.trimBody).Relates
      (fun values values' =>
        values' = values.map (Value.recode Stmt.trimBody))
      (evalAll eval args) (evalAll eval args) := by
  induction args with
  | nil => exact relates_pure rfl
  | cons arg args ih =>
      apply (hEval arg).bind
      rintro value _ rfl
      apply ih.bind
      rintro values _ rfl
      exact relates_pure rfl

/- One more statement of a list that is cut somewhere else. -/
theorem ExecTrims.execAll_cons
    (hExec : ExecTrims exec)
    (stmt : Stmt)
    {body body' : List Stmt}
    (hBody :
      EndsRecoded Stmt.trimBody (execAll exec body)
        (execAll exec body')) :
    EndsRecoded Stmt.trimBody (execAll exec (stmt :: body))
      (execAll exec (stmt.trim :: body')) := by
  apply (hExec stmt).bind
  rintro completion _ rfl
  cases completion with
  | normal => exact hBody
  | returned value => exact relates_pure rfl

/-
  A list of statements is executed up to the first that
  returns, and what is left out comes after it.
-/
theorem ExecTrims.execAll
    (hExec : ExecTrims exec)
    (hReturns : ExecReturns exec)
    (body : List Stmt) :
    EndsRecoded Stmt.trimBody (execAll exec body)
      (execAll exec (Stmt.trimBody body)) := by
  induction body with
  | nil => exact relates_pure rfl
  | cons stmt body ih =>
      by_cases hStmt : ∃ keyword value, stmt = .ret keyword value
      · rcases hStmt with ⟨keyword, value, rfl⟩
        rw [execAll_ret hReturns]
        exact hExec.execAll_cons _ (relates_pure rfl)
      · rw [Stmt.trimBody_cons fun keyword value hSame =>
          hStmt ⟨keyword, value, hSame⟩]
        exact hExec.execAll_cons stmt ih

theorem trimmed_repeatWhile
    {condition : Run Value}
    {body body' : Run Completion}
    (hCondition : GivesRecoded Stmt.trimBody condition condition)
    (hBody : EndsRecoded Stmt.trimBody body body')
    (rounds : Nat) :
    EndsRecoded Stmt.trimBody (repeatWhile condition body rounds)
      (repeatWhile condition body' rounds) := by
  induction rounds with
  | zero => exact recoded_stop .outOfRounds
  | succ rounds ih =>
      apply hCondition.bind
      rintro value _ rfl
      refine
        Relates.ite (by rw [Value.isTruthy_recode]) ?_
          (relates_pure rfl)
      apply hBody.bind
      rintro completion _ rfl
      cases completion with
      | normal => exact ih
      | returned value => exact relates_pure rfl

theorem trimmed_bindParams
    (env : EnvId)
    (params : List Token)
    (args : List Value) :
    (recoding Stmt.trimBody).Relates Eq
      (bindParams env params args)
      (bindParams env params
        (args.map (Value.recode Stmt.trimBody))) := by
  induction params generalizing args with
  | nil => exact relates_pure rfl
  | cons param params ih =>
      cases args with
      | nil => exact relates_pure rfl
      | cons arg args =>
          apply (recoded_define env param.lexeme arg).bind
          intro _ _ _
          exact ih args

theorem ExecTrims.callClosure
    (hExec : ExecTrims exec)
    (hReturns : ExecReturns exec)
    (f : Closure)
    (args : List Value) :
    GivesRecoded Stmt.trimBody (callClosure exec f args)
      (callClosure exec (f.recode Stmt.trimBody)
        (args.map (Value.recode Stmt.trimBody))) := by
  apply (recoded_makeEnv (some f.env)).bind
  rintro params _ rfl
  apply (trimmed_bindParams params f.params args).bind
  intro _ _ _
  apply (recoded_makeEnv (some params)).bind
  rintro body _ rfl
  apply (recoded_inScope (hExec.execAll hReturns f.body) body).bind
  rintro completion _ rfl
  rw [Completion.result_recode]
  exact relates_pure rfl

theorem CallTrims.callNative
    (hCall : CallTrims call)
    (native : Native)
    (args : List Value) :
    GivesRecoded Stmt.trimBody (callNative call native args)
      (callNative call native
        (args.map (Value.recode Stmt.trimBody))) := by
  unfold Lox.callNative
  cases native.behavior with
  | clock => exact recoded_readClock
  | argument index =>
      dsimp only
      rw [List.getElem?_map]
      cases args[index]? with
      | none => exact recoded_stop _
      | some value => exact relates_pure rfl
  | constant value =>
      exact relates_pure (Value.recode_ofLiteral _ value).symm
  | makeFunction name params =>
      apply (recoded_makeEnv none).bind
      rintro env _ rfl
      exact recoded_makeFunction name params [] env
  | makeNative name arity => exact recoded_makeNative _
  | apply index =>
      dsimp only
      rw [List.getElem?_map, List.eraseIdx_map]
      cases args[index]? with
      | none => exact recoded_stop _
      | some callee => exact hCall callee _ _
  | foreign number => exact recoded_stop _

theorem trimmed_checkArity
    (expected got : Nat)
    (paren : Token) :
    (recoding Stmt.trimBody).Relates Eq
      (checkArity expected got paren)
      (checkArity expected got paren) :=
  Relates.ite Iff.rfl (relates_pure rfl) (recoded_stop _)

theorem trimmed_declareFunction
    (name : Token)
    (params : List Token)
    (body : List Stmt) :
    (recoding Stmt.trimBody).Relates Eq
      (declareFunction name params body)
      (declareFunction name params (Stmt.trimBody body)) := by
  apply recoded_current.bind
  rintro env _ rfl
  apply (recoded_makeFunction name params body env).bind
  rintro value _ rfl
  exact recoded_define env name.lexeme value

/- A variable declaration binds its name and ends normally. -/
theorem trimmed_defineHere (name : Token) (value : Value) :
    EndsRecoded Stmt.trimBody
      (do
        define (← current) name.lexeme value
        return .normal)
      (do
        define (← current) name.lexeme
          (value.recode Stmt.trimBody)
        return .normal) := by
  apply recoded_current.bind
  rintro env _ rfl
  apply (recoded_define env name.lexeme value).bind
  intro _ _ _
  exact relates_pure rfl

end Lox

------------------------------------------------------------
-- Expressions And Statements
------------------------------------------------------------

namespace Lox

open Run Coupling

section Evaluation

variable {rounds frames : Nat}
variable (hEval : EvalTrims (eval rounds frames))
variable (hExec : ExecTrims (exec rounds frames))
variable (hCall : CallTrims (call rounds frames))

include hEval hCall in
theorem eval_trims_succ : EvalTrims (eval rounds (frames + 1)) := by
  intro e
  rw [eval.eq_def]
  cases e with
  | literal value =>
      exact relates_pure (Value.recode_ofLiteral _ value).symm
  | grouping inner => exact hEval inner
  | «variable» name hops => exact recoded_readName name hops
  | assign name value hops =>
      apply (hEval value).bind
      rintro result _ rfl
      apply (recoded_writeName name hops result).bind
      intro _ _ _
      exact relates_pure rfl
  | unary op operand =>
      apply (hEval operand).bind
      rintro a _ rfl
      exact recoded_lift (Value.applyUnary_recode _ op a)
  | binary left op right =>
      apply (hEval left).bind
      rintro a _ rfl
      apply (hEval right).bind
      rintro b _ rfl
      exact recoded_lift (Value.applyBinary_recode _ op a b)
  | logical left op right =>
      apply (hEval left).bind
      rintro a _ rfl
      refine Relates.ite ?_ (relates_pure rfl) (hEval right)
      rw [Value.isTruthy_recode]
  | call callee paren args =>
      apply (hEval callee).bind
      rintro f _ rfl
      apply (hEval.evalAll args).bind
      rintro values _ rfl
      exact recoded_guardStack (hCall f values paren) paren

include hEval hExec in
theorem exec_trims_succ : ExecTrims (exec rounds (frames + 1)) := by
  intro s
  have hReturns := execReturns_exec rounds frames
  rw [exec.eq_def, exec.eq_def]
  cases s with
  | expression value =>
      apply (hEval value).bind
      intro _ _ _
      exact relates_pure rfl
  | print value =>
      apply (hEval value).bind
      rintro result _ rfl
      rw [Value.text_recode]
      apply (recoded_printLine result.text).bind
      intro _ _ _
      exact relates_pure rfl
  | var name initializer =>
      cases initializer with
      | none => exact trimmed_defineHere name .nil
      | some value =>
          apply (hEval value).bind
          rintro result _ rfl
          exact trimmed_defineHere name result
  | block body =>
      apply recoded_current.bind
      rintro outer _ rfl
      apply (recoded_makeEnv (some outer)).bind
      rintro env _ rfl
      exact recoded_inScope (hExec.execAll hReturns body) env
  | ifThen condition thenBranch =>
      apply (hEval condition).bind
      rintro value _ rfl
      exact
        Relates.ite (by rw [Value.isTruthy_recode])
          (hExec thenBranch) (relates_pure rfl)
  | ifElse condition thenBranch elseBranch =>
      apply (hEval condition).bind
      rintro value _ rfl
      exact
        Relates.ite (by rw [Value.isTruthy_recode])
          (hExec thenBranch) (hExec elseBranch)
  | loop condition body =>
      exact
        trimmed_repeatWhile (hEval condition) (hExec body) rounds
  | function name params body =>
      apply (trimmed_declareFunction name params body).bind
      intro _ _ _
      exact relates_pure rfl
  | ret keyword value =>
      cases value with
      | none => exact relates_pure rfl
      | some value =>
          apply (hEval value).bind
          rintro result _ rfl
          exact relates_pure rfl

include hExec hCall in
theorem call_trims_succ : CallTrims (call rounds (frames + 1)) := by
  intro callee args paren
  have hReturns := execReturns_exec rounds frames
  rw [call.eq_def, call.eq_def]
  cases callee with
  | function f =>
      have hCheck :=
        trimmed_checkArity f.params.length args.length paren
      simp only [Value.recode, Closure.recode, List.length_map]
      apply hCheck.bind
      intro _ _ _
      exact hExec.callClosure hReturns f args
  | native f =>
      have hCheck := trimmed_checkArity f.arity args.length paren
      simp only [Value.recode, List.length_map]
      apply hCheck.bind
      intro _ _ _
      exact hCall.callNative f.toNative args
  | _ => exact recoded_stop _

end Evaluation

/- Evaluation, by induction on the frames that are left. -/
theorem evaluation_trimmed (rounds frames : Nat) :
    EvalTrims (eval rounds frames) ∧
      ExecTrims (exec rounds frames) ∧
      CallTrims (call rounds frames) := by
  induction frames with
  | zero =>
      refine ⟨?_, ?_, ?_⟩
      · intro e
        rw [eval]
        exact recoded_stop .outOfFrames
      · intro s
        rw [exec, exec]
        exact recoded_stop .outOfFrames
      · intro callee args paren
        rw [call, call]
        exact recoded_stop .outOfFrames
  | succ frames ih =>
      rcases ih with ⟨ihEval, ihExec, ihCall⟩
      exact
        ⟨eval_trims_succ ihEval ihCall,
          exec_trims_succ ihEval ihExec,
          call_trims_succ ihExec ihCall⟩

/-
  A program and the trimmed one run in the same way. At the
  top level nothing is left out.
-/
theorem runProgram_trimmed
    (limits : Limits)
    (program : List Stmt) :
    (recoding Stmt.trimBody).Relates Eq
      (runProgram limits program)
      (runProgram limits (program.map Stmt.trim)) := by
  induction program with
  | nil => exact relates_pure rfl
  | cons stmt program ih =>
      have hExec :=
        (evaluation_trimmed limits.rounds limits.frames).2.1
      apply (hExec stmt).bind
      intro _ _ _
      exact ih

end Lox
