import Lox.Machine.Evaluation

/-
  What a run is made of.

  Expressions, statements and calls are evaluated by a few
  small steps, one after another, in other environments and
  inside of calls. A property of steps that the small ones
  have, and that passes through these ways of putting them
  together, is one of every evaluation, however it ends.

  Key definitions include:
    * `Run.Compositional`
    * `Run.Compositional.evaluation`
-/

------------------------------------------------------------
-- Compositional Properties
------------------------------------------------------------

namespace Lox.Run

/-
  A property of all small steps that passes from the parts of
  a run to the whole.
-/
structure Compositional
    (P : (α : Type) → Run α → Prop) :
    Prop where
  pure {α : Type} (a : α) : P α (pure a)
  stop {α : Type} (interrupt : Interrupt) :
    P α fun m => .error interrupt m
  printLine (text : String) : P Unit (printLine text)
  makeEnv (parent : Option EnvId) : P EnvId (makeEnv parent)
  current : P EnvId current
  define (env : EnvId) (name : String) (value : Value) :
    P Unit (define env name value)
  readName (name : Token) (hops : Option Nat) :
    P Value (readName name hops)
  writeName (name : Token) (hops : Option Nat) (value : Value) :
    P Unit (writeName name hops value)
  freshIdent : P Nat freshIdent
  readClock : P Value readClock
  bind {α β : Type} {step : Run α} {next : α → Run β}
    (hStep : P α step)
    (hNext : ∀ a, P β (next a)) :
    P β (step >>= next)
  inScope {α : Type} {step : Run α}
    (hStep : P α step)
    (env : EnvId) :
    P α (inScope env step)
  guardStack {α : Type} {step : Run α}
    (hStep : P α step)
    (paren : Token) :
    P α (guardStack paren step)

namespace Compositional

variable {P : (α : Type) → Run α → Prop} {α : Type}

theorem ite
    {step other : Run α}
    {p : Prop}
    [Decidable p]
    (hStep : P α step)
    (hOther : P α other) :
    P α (if p then step else other) := by
  by_cases hHolds : p
  · rw [if_pos hHolds]
    exact hStep
  · rw [if_neg hHolds]
    exact hOther

variable (hP : Compositional P)

include hP

theorem lift (result : Except RuntimeError α) :
    P α (lift result) := by
  cases result with
  | ok a => exact hP.pure a
  | error e => exact hP.stop (.failed e)

theorem makeFunction
    (name : Token)
    (params : List Token)
    (body : List Stmt)
    (env : EnvId) :
    P Value (makeFunction name params body env) :=
  hP.bind hP.freshIdent fun _ => hP.pure _

theorem checkArity (expected got : Nat) (paren : Token) :
    P Unit (checkArity expected got paren) :=
  ite (hP.pure _) (hP.stop _)

theorem declareFunction
    (name : Token)
    (params : List Token)
    (body : List Stmt) :
    P Unit (declareFunction name params body) := by
  apply hP.bind hP.current
  intro env
  apply hP.bind (hP.makeFunction name params body env)
  intro value
  exact hP.define env name.lexeme value

theorem bindParams
    (env : EnvId)
    (params : List Token)
    (args : List Value) :
    P Unit (bindParams env params args) := by
  induction params generalizing args with
  | nil => exact hP.pure _
  | cons param params ih =>
      cases args with
      | nil => exact hP.pure _
      | cons arg args =>
          apply hP.bind (hP.define env param.lexeme arg)
          intro _
          exact ih args

/- A value is bound to a name in the current environment. -/
theorem defineHere (name : String) (value : Value) :
    P Completion do
      Run.define (← Run.current) name value
      return .normal := by
  apply hP.bind hP.current
  intro env
  apply hP.bind (hP.define env name value)
  intro _
  exact hP.pure _

end Compositional

end Lox.Run

------------------------------------------------------------
-- Lists Of Steps And Calls
------------------------------------------------------------

namespace Lox.Run.Compositional

variable {P : (α : Type) → Run α → Prop}
variable (hP : Compositional P)
variable {eval : Expr → Run Value}
variable {exec : Stmt → Run Completion}
variable {call : Value → List Value → Token → Run Value}

include hP

theorem evalAll
    (hEval : ∀ e, P Value (eval e))
    (args : List Expr) :
    P (List Value) (evalAll eval args) := by
  induction args with
  | nil => exact hP.pure _
  | cons arg args ih =>
      apply hP.bind (hEval arg)
      intro value
      apply hP.bind ih
      intro values
      exact hP.pure _

theorem execAll
    (hExec : ∀ s, P Completion (exec s))
    (body : List Stmt) :
    P Completion (execAll exec body) := by
  induction body with
  | nil => exact hP.pure _
  | cons stmt body ih =>
      apply hP.bind (hExec stmt)
      intro completion
      cases completion with
      | normal => exact ih
      | returned value => exact hP.pure _

theorem repeatWhile
    {condition : Run Value}
    {body : Run Completion}
    (hCondition : P Value condition)
    (hBody : P Completion body)
    (rounds : Nat) :
    P Completion (repeatWhile condition body rounds) := by
  induction rounds with
  | zero => exact hP.stop .outOfRounds
  | succ rounds ih =>
      apply hP.bind hCondition
      intro value
      refine ite ?_ (hP.pure _)
      apply hP.bind hBody
      intro completion
      cases completion with
      | normal => exact ih
      | returned value => exact hP.pure _

theorem callClosure
    (hExec : ∀ s, P Completion (exec s))
    (f : Closure)
    (args : List Value) :
    P Value (callClosure exec f args) := by
  apply hP.bind (hP.makeEnv (some f.env))
  intro params
  apply hP.bind (hP.bindParams params f.params args)
  intro _
  apply hP.bind (hP.makeEnv (some params))
  intro body
  apply hP.bind (hP.inScope (hP.execAll hExec f.body) body)
  intro completion
  exact hP.pure _

/- Whatever a native function does, calls included. -/
theorem callNative
    (hCall : ∀ callee args paren, P Value (call callee args paren))
    (native : Native)
    (args : List Value) :
    P Value (callNative call native args) := by
  unfold Lox.callNative
  cases native.behavior with
  | clock => exact hP.readClock
  | argument index =>
      simp only
      cases args[index]? with
      | none => exact hP.stop _
      | some value => exact hP.pure _
  | constant value => exact hP.pure _
  | makeFunction name params =>
      apply hP.bind (hP.makeEnv none)
      intro env
      exact hP.makeFunction name params [] env
  | makeNative name arity =>
      exact hP.bind hP.freshIdent fun _ => hP.pure _
  | apply index =>
      simp only
      cases args[index]? with
      | none => exact hP.stop _
      | some callee => exact hCall _ _ _
  | foreign number => exact hP.stop _

end Lox.Run.Compositional

------------------------------------------------------------
-- Expressions And Statements
------------------------------------------------------------

namespace Lox.Run.Compositional

variable {P : (α : Type) → Run α → Prop}
variable (hP : Compositional P)
variable {rounds frames : Nat}
variable (hEval : ∀ e, P Value (eval rounds frames e))
variable (hExec : ∀ s, P Completion (exec rounds frames s))
variable
  (hCall :
    ∀ callee args paren,
      P Value (call rounds frames callee args paren))

include hP hEval hCall in
theorem eval_succ (e : Expr) :
    P Value (eval rounds (frames + 1) e) := by
  rw [eval.eq_def]
  cases e with
  | literal value => exact hP.pure _
  | grouping inner => exact hEval inner
  | «variable» name hops => exact hP.readName name hops
  | assign name value hops =>
      apply hP.bind (hEval value)
      intro result
      apply hP.bind (hP.writeName name hops result)
      intro _
      exact hP.pure _
  | unary op operand =>
      apply hP.bind (hEval operand)
      intro result
      exact hP.lift _
  | binary left op right =>
      apply hP.bind (hEval left)
      intro a
      apply hP.bind (hEval right)
      intro b
      exact hP.lift _
  | logical left op right =>
      apply hP.bind (hEval left)
      intro a
      exact ite (hP.pure _) (hEval right)
  | call callee paren args =>
      apply hP.bind (hEval callee)
      intro f
      apply hP.bind (hP.evalAll hEval args)
      intro values
      exact hP.guardStack (hCall f values paren) paren

include hP hEval hExec in
theorem exec_succ (s : Stmt) :
    P Completion (exec rounds (frames + 1) s) := by
  rw [exec.eq_def]
  cases s with
  | expression value =>
      apply hP.bind (hEval value)
      intro _
      exact hP.pure _
  | print value =>
      apply hP.bind (hEval value)
      intro result
      apply hP.bind (hP.printLine result.text)
      intro _
      exact hP.pure _
  | var name initializer =>
      cases initializer with
      | none => exact hP.defineHere name.lexeme .nil
      | some value =>
          apply hP.bind (hEval value)
          intro result
          exact hP.defineHere name.lexeme result
  | block body =>
      apply hP.bind hP.current
      intro outer
      apply hP.bind (hP.makeEnv (some outer))
      intro env
      exact hP.inScope (hP.execAll hExec body) env
  | ifThen condition thenBranch =>
      apply hP.bind (hEval condition)
      intro value
      exact ite (hExec thenBranch) (hP.pure _)
  | ifElse condition thenBranch elseBranch =>
      apply hP.bind (hEval condition)
      intro value
      exact ite (hExec thenBranch) (hExec elseBranch)
  | loop condition body =>
      exact hP.repeatWhile (hEval condition) (hExec body) rounds
  | function name params body =>
      apply hP.bind (hP.declareFunction name params body)
      intro _
      exact hP.pure _
  | ret keyword value =>
      cases value with
      | none => exact hP.pure _
      | some value =>
          apply hP.bind (hEval value)
          intro result
          exact hP.pure _

include hP hExec hCall in
theorem call_succ
    (callee : Value)
    (args : List Value)
    (paren : Token) :
    P Value (call rounds (frames + 1) callee args paren) := by
  rw [call.eq_def]
  cases callee with
  | function f =>
      apply hP.bind (hP.checkArity _ _ paren)
      intro _
      exact hP.callClosure hExec f args
  | native f =>
      apply hP.bind (hP.checkArity _ _ paren)
      intro _
      exact hP.callNative hCall f.toNative args
  | _ => exact hP.stop _

include hP in
/- All evaluations have the property. -/
theorem evaluation (rounds frames : Nat) :
    (∀ e, P Value (eval rounds frames e)) ∧
    (∀ s, P Completion (exec rounds frames s)) ∧
    ∀ callee args paren,
      P Value (call rounds frames callee args paren) := by
  induction frames with
  | zero =>
      refine ⟨?_, ?_, ?_⟩
      · intro e
        rw [eval]
        exact hP.stop .outOfFrames
      · intro s
        rw [exec]
        exact hP.stop .outOfFrames
      · intro callee args paren
        rw [call]
        exact hP.stop .outOfFrames
  | succ frames ih =>
      rcases ih with ⟨ihEval, ihExec, ihCall⟩
      exact
        ⟨hP.eval_succ ihEval ihCall, hP.exec_succ ihEval ihExec,
          hP.call_succ ihExec ihCall⟩

include hP in
/- So has the run of a program. -/
theorem runProgram (limits : Limits) (program : List Stmt) :
    P Unit (runProgram limits program) := by
  induction program with
  | nil => exact hP.pure _
  | cons stmt program ih =>
      apply
        hP.bind
          ((hP.evaluation limits.rounds limits.frames).2.1 stmt)
      intro _
      exact ih

end Lox.Run.Compositional
