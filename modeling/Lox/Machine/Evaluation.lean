import Lox.Limits
import Lox.Machine.Basic
import Lox.Value.Operator

/-
  The meaning of expressions, statements and calls.

  `eval`, `exec` and `call` are given a number of frames, of
  which every step inward takes one, and the loops a number of
  rounds. When the frames run out, the innermost call that is
  written in the program fails with an error of the program.

  Key definitions include:
    * `Completion`
    * `execAll`
    * `repeatWhile`
    * `eval`
    * `exec`
    * `call`
    * `runProgram`
-/

------------------------------------------------------------
-- Completions
------------------------------------------------------------

namespace Lox

/-
  How a statement ended: normally, or with a `return` that is
  on its way to the call.
-/
inductive Completion where
  | normal
  | returned (value : Value)
deriving Repr, Inhabited

/- What a call gives whose body ended in a given way. -/
def Completion.result : Completion → Value
  | normal => .nil
  | returned value => value

end Lox

------------------------------------------------------------
-- Lists Of Steps
------------------------------------------------------------

namespace Lox

/- Executes statements up to the first that returns. -/
def execAll
    (exec : Stmt → Run Completion) :
    List Stmt → Run Completion
  | [] => return .normal
  | stmt :: body => do
    match ← exec stmt with
    | .returned value => return .returned value
    | .normal => execAll exec body

/- Evaluates expressions from left to right. -/
def evalAll
    (eval : Expr → Run Value) :
    List Expr → Run (List Value)
  | [] => return []
  | arg :: args => do
    let value ← eval arg
    return value :: (← evalAll eval args)

/-
  Executes a body as long as a condition holds, for at most a
  given number of rounds.
-/
def repeatWhile
    (condition : Run Value)
    (body : Run Completion) :
    (rounds : Nat) → Run Completion
  | 0 => fun m => .error .outOfRounds m
  | rounds + 1 => do
    if (← condition).isTruthy then
      match ← body with
      | .returned value => return .returned value
      | .normal => repeatWhile condition body rounds
    else
      return .normal

/- Binds the parameters of a function to its arguments. -/
def bindParams
    (env : EnvId) :
    List Token → List Value → Run Unit
  | param :: params, arg :: args => do
    Run.define env param.lexeme arg
    bindParams env params args
  | _, _ => return ()

end Lox

------------------------------------------------------------
-- Calls
------------------------------------------------------------

namespace Lox

/-
  Calls a function with arguments for its parameters. The body
  is a scope of its own within that of the parameters.
-/
def callClosure
    (exec : Stmt → Run Completion)
    (f : Closure)
    (args : List Value) :
    Run Value := do
  let params ← Run.makeEnv (some f.env)
  bindParams params f.params args
  let body ← Run.makeEnv (some params)
  let completion ← Run.inScope body (execAll exec f.body)
  return completion.result

/- Calls a native function. -/
def callNative
    (call : Value → List Value → Token → Run Value)
    (native : Native)
    (args : List Value) :
    Run Value :=
  match native.behavior with
  | .clock => Run.readClock
  | .argument index =>
      match args[index]? with
      | some value => return value
      | none => Run.failNative .noSuchArgument
  | .constant value => return .ofLiteral value
  | .makeFunction name params => do
    Run.makeFunction name params [] (← Run.makeEnv none)
  | .makeNative name arity =>
      Run.makeNative (.giveNil name arity)
  | .apply index =>
      match args[index]? with
      | some callee =>
          call callee (args.eraseIdx index) nativeCallToken
      | none => Run.failNative .noSuchArgument
  | .foreign number =>
      Run.failNative (.notAValue native.name number)

/- Refuses a call with the wrong number of arguments. -/
def checkArity
    (expected got : Nat)
    (paren : Token) :
    Run Unit :=
  if got = expected then return ()
  else Run.fail (.wrongArgumentCount expected got) paren

end Lox

------------------------------------------------------------
-- Expressions And Statements
------------------------------------------------------------

namespace Lox

/- Declares a function in the environment of a run. -/
def declareFunction
    (name : Token)
    (params : List Token)
    (body : List Stmt) :
    Run Unit := do
  let env ← Run.current
  let value ← Run.makeFunction name params body env
  Run.define env name.lexeme value

mutual

/- The value of an expression. -/
def eval (rounds : Nat) : (frames : Nat) → Expr → Run Value
  | 0, _ => Run.outOfFrames
  | frames + 1, e =>
      match e with
      | .literal value => return .ofLiteral value
      | .grouping inner => eval rounds frames inner
      | .variable name hops => Run.readName name hops
      | .assign name value hops => do
        let value ← eval rounds frames value
        Run.writeName name hops value
        return value
      | .unary op operand => do
        let value ← eval rounds frames operand
        Run.lift (applyUnary op value)
      | .binary left op right => do
        let a ← eval rounds frames left
        let b ← eval rounds frames right
        Run.lift (applyBinary op a b)
      | .logical left op right => do
        let a ← eval rounds frames left
        if a.isTruthy = (op.kind = .orKw) then return a
        else eval rounds frames right
      | .call callee paren args => do
        let f ← eval rounds frames callee
        let values ← evalAll (eval rounds frames) args
        Run.guardStack paren (call rounds frames f values paren)

/- Executes a statement. -/
def exec (rounds : Nat) : (frames : Nat) → Stmt → Run Completion
  | 0, _ => Run.outOfFrames
  | frames + 1, s =>
      match s with
      | .expression value => do
        let _ ← eval rounds frames value
        return .normal
      | .print value => do
        let value ← eval rounds frames value
        Run.printLine value.text
        return .normal
      | .var name initializer => do
        let value ←
          match initializer with
          | none => pure .nil
          | some value => eval rounds frames value
        Run.define (← Run.current) name.lexeme value
        return .normal
      | .block body => do
        let env ← Run.makeEnv (some (← Run.current))
        Run.inScope env (execAll (exec rounds frames) body)
      | .ifThen condition thenBranch => do
        if (← eval rounds frames condition).isTruthy then
          exec rounds frames thenBranch
        else return .normal
      | .ifElse condition thenBranch elseBranch => do
        if (← eval rounds frames condition).isTruthy then
          exec rounds frames thenBranch
        else exec rounds frames elseBranch
      | .loop condition body =>
          repeatWhile (eval rounds frames condition)
            (exec rounds frames body) rounds
      | .function name params body => do
        declareFunction name params body
        return .normal
      | .ret _ none => return .returned .nil
      | .ret _ (some value) =>
          return .returned (← eval rounds frames value)

/- Calls a value with arguments, at a given parenthesis. -/
def call (rounds : Nat) :
    (frames : Nat) → Value → List Value → Token → Run Value
  | 0, _, _, _ => Run.outOfFrames
  | frames + 1, callee, args, paren =>
      match callee with
      | .function f => do
        checkArity f.params.length args.length paren
        callClosure (exec rounds frames) f args
      | .native f => do
        checkArity f.arity args.length paren
        callNative (call rounds frames) f.toNative args
      | _ => Run.fail .notCallable paren

end

end Lox

------------------------------------------------------------
-- Programs
------------------------------------------------------------

namespace Lox

/-
  Executes the statements of a program. A `return` at the top
  level does not stop it.
-/
def runProgram (limits : Limits) : List Stmt → Run Unit
  | [] => return ()
  | stmt :: program => do
    let _ ← exec limits.rounds limits.frames stmt
    runProgram limits program

end Lox
