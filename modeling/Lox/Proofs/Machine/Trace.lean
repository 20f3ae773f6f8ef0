import Lox.Machine.Evaluation
import Lox.Proofs.Scope.Notes

/-
  Runs that keep a trace.

  The evaluation of a program is repeated here with the notes
  of its resolver at hand. Whenever the evaluation of an
  expression begins, a visit is written down: the scopes that
  the resolver had at this node, the node, and the machine.
  The notes of the body of a function are kept under the
  identity of the function, to be there when it is called.
  Without the trace this is evaluation as it stands.

  Key definitions include:
    * `Visit`
    * `Traced`
    * `evalTraced`
    * `execTraced`
    * `callTraced`
    * `runProgramTraced`
    * `runProgramTraced_erases`
-/

------------------------------------------------------------
-- Traces
------------------------------------------------------------

namespace Lox

/-
  The beginning of the evaluation of an expression: the scopes
  that the resolver had when it came to this node, the node as
  the resolver left it, and the machine.
-/
structure Visit where
  scopes : List Scope
  node : Expr
  machine : Machine

/-
  A machine, the notes of the bodies of its functions, and the
  visits so far, the last one first.
-/
structure Traced where
  machine : Machine
  bodies : Nat → List Notes := fun _ => []
  visits : List Visit := []

/- A step of a run that keeps a trace. -/
abbrev TracedRun (α : Type) :=
  EStateM Interrupt Traced α

namespace TracedRun

variable {α : Type}

/- A step that leaves nothing in the trace. -/
def lift (step : Run α) : TracedRun α :=
  fun t =>
    match step t.machine with
    | .ok a m => .ok a { t with machine := m }
    | .error e m => .error e { t with machine := m }

/- Writes down that the evaluation of a node begins. -/
def visit (notes : Notes) (node : Expr) : TracedRun Unit :=
  fun t =>
    let visit : Visit := ⟨notes.scopes, node, t.machine⟩
    .ok () { t with visits := visit :: t.visits }

/- Keeps the notes of the body of a function. -/
def keepNotes (notes : List Notes) : Value → TracedRun Unit
  | .function f => fun t =>
      let bodies := fun ident =>
        if ident = f.ident then notes else t.bodies ident
      .ok () { t with bodies }
  | _ => return ()

/- The notes of the body of a function. -/
def notesOf (f : Closure) : TracedRun (List Notes) :=
  fun t => .ok (t.bodies f.ident) t

/- A step in another environment. -/
def inScope (env : EnvId) (step : TracedRun α) : TracedRun α :=
  fun t =>
    let outer := t.machine.current
    let inner := { t.machine with current := env }
    match step { t with machine := inner } with
    | .ok a t =>
        .ok a
          { t with machine := { t.machine with current := outer } }
    | .error e t =>
        .error e
          { t with machine := { t.machine with current := outer } }

/- A step that is the inside of a call. -/
def guardStack
    (paren : Token)
    (step : TracedRun α) :
    TracedRun α :=
  fun t =>
    match step t with
    | .error .outOfFrames t =>
        .error (.failed ⟨.stackOverflow, paren⟩) t
    | result => result

end TracedRun

end Lox

------------------------------------------------------------
-- Lists Of Steps
------------------------------------------------------------

namespace Lox

open TracedRun

def execAllTraced
    (exec : Notes → Stmt → TracedRun Completion) :
    List Notes → List Stmt → TracedRun Completion
  | _, [] => return .normal
  | notes, stmt :: body => do
    match ← exec (notes.headD .blank) stmt with
    | .returned value => return .returned value
    | .normal => execAllTraced exec notes.tail body

def evalAllTraced
    (eval : Notes → Expr → TracedRun Value) :
    List Notes → List Expr → TracedRun (List Value)
  | _, [] => return []
  | notes, arg :: args => do
    let value ← eval (notes.headD .blank) arg
    return value :: (← evalAllTraced eval notes.tail args)

def repeatTraced
    (condition : TracedRun Value)
    (body : TracedRun Completion) :
    (rounds : Nat) → TracedRun Completion
  | 0 => fun t => .error .outOfRounds t
  | rounds + 1 => do
    if (← condition).isTruthy then
      match ← body with
      | .returned value => return .returned value
      | .normal => repeatTraced condition body rounds
    else
      return .normal

def callClosureTraced
    (exec : Notes → Stmt → TracedRun Completion)
    (f : Closure)
    (args : List Value) :
    TracedRun Value := do
  let params ← lift (Run.makeEnv (some f.env))
  lift (bindParams params f.params args)
  let body ← lift (Run.makeEnv (some params))
  let notes ← notesOf f
  let completion ← inScope body (execAllTraced exec notes f.body)
  return completion.result

/- Only a native function that calls another one needs `call`. -/
def callNativeTraced
    (call : Value → List Value → Token → TracedRun Value)
    (native : Native)
    (args : List Value) :
    TracedRun Value :=
  match native.behavior with
  | .apply index =>
      match args[index]? with
      | some callee =>
          call callee (args.eraseIdx index) nativeCallToken
      | none => lift (Run.failNative .noSuchArgument)
  | _ =>
      lift (callNative (fun _ _ _ => Run.outOfFrames) native args)

def declareFunctionTraced
    (notes : List Notes)
    (name : Token)
    (params : List Token)
    (body : List Stmt) :
    TracedRun Unit := do
  let env ← lift Run.current
  let value ← lift (Run.makeFunction name params body env)
  keepNotes notes value
  lift (Run.define env name.lexeme value)

end Lox

------------------------------------------------------------
-- Expressions And Statements
------------------------------------------------------------

namespace Lox

open TracedRun

mutual

def evalTraced (rounds : Nat) :
    (frames : Nat) → Notes → Expr → TracedRun Value
  | 0, _, _ => lift Run.outOfFrames
  | frames + 1, notes, e => do
    visit notes e
    match e with
    | .literal value => return .ofLiteral value
    | .grouping inner =>
        evalTraced rounds frames (notes.child 0) inner
    | .variable name hops => lift (Run.readName name hops)
    | .assign name value hops => do
      let value ← evalTraced rounds frames (notes.child 0) value
      lift (Run.writeName name hops value)
      return value
    | .unary op operand => do
      let value ←
        evalTraced rounds frames (notes.child 0) operand
      lift (Run.lift (applyUnary op value))
    | .binary left op right => do
      let a ← evalTraced rounds frames (notes.child 0) left
      let b ← evalTraced rounds frames (notes.child 1) right
      lift (Run.lift (applyBinary op a b))
    | .logical left op right => do
      let a ← evalTraced rounds frames (notes.child 0) left
      if a.isTruthy = (op.kind = .orKw) then return a
      else evalTraced rounds frames (notes.child 1) right
    | .call callee paren args => do
      let f ← evalTraced rounds frames (notes.child 0) callee
      let values ←
        evalAllTraced (evalTraced rounds frames)
          notes.inner.tail args
      guardStack paren (callTraced rounds frames f values paren)

def execTraced (rounds : Nat) :
    (frames : Nat) → Notes → Stmt → TracedRun Completion
  | 0, _, _ => lift Run.outOfFrames
  | frames + 1, notes, s =>
      match s with
      | .expression value => do
        let _ ← evalTraced rounds frames (notes.child 0) value
        return .normal
      | .print value => do
        let value ← evalTraced rounds frames (notes.child 0) value
        lift (Run.printLine value.text)
        return .normal
      | .var name initializer => do
        let value ←
          match initializer with
          | none => pure .nil
          | some value =>
              evalTraced rounds frames (notes.child 0) value
        let env ← lift Run.current
        lift (Run.define env name.lexeme value)
        return .normal
      | .block body => do
        let outer ← lift Run.current
        let env ← lift (Run.makeEnv (some outer))
        inScope env
          (execAllTraced (execTraced rounds frames) notes.inner
            body)
      | .ifThen condition thenBranch => do
        let value ←
          evalTraced rounds frames (notes.child 0) condition
        if value.isTruthy then
          execTraced rounds frames (notes.child 1) thenBranch
        else return .normal
      | .ifElse condition thenBranch elseBranch => do
        let value ←
          evalTraced rounds frames (notes.child 0) condition
        if value.isTruthy then
          execTraced rounds frames (notes.child 1) thenBranch
        else execTraced rounds frames (notes.child 2) elseBranch
      | .loop condition body =>
          repeatTraced
            (evalTraced rounds frames (notes.child 0) condition)
            (execTraced rounds frames (notes.child 1) body) rounds
      | .function name params body => do
        declareFunctionTraced notes.inner name params body
        return .normal
      | .ret _ none => return .returned .nil
      | .ret _ (some value) =>
          return .returned
            (← evalTraced rounds frames (notes.child 0) value)

def callTraced (rounds : Nat) :
    (frames : Nat) → Value → List Value → Token →
    TracedRun Value
  | 0, _, _, _ => lift Run.outOfFrames
  | frames + 1, callee, args, paren =>
      match callee with
      | .function f => do
        lift (checkArity f.params.length args.length paren)
        callClosureTraced (execTraced rounds frames) f args
      | .native f => do
        lift (checkArity f.arity args.length paren)
        callNativeTraced (callTraced rounds frames) f.toNative args
      | _ => lift (Run.fail .notCallable paren)

end

def runProgramTraced (limits : Limits) :
    List Notes → List Stmt → TracedRun Unit
  | _, [] => return ()
  | notes, stmt :: program => do
    let _ ←
      execTraced limits.rounds limits.frames
        (notes.headD .blank) stmt
    runProgramTraced limits notes.tail program

end Lox

------------------------------------------------------------
-- Without The Trace
------------------------------------------------------------

namespace Lox

/- How a run that keeps a trace ended, without the trace. -/
def Traced.erase
    {α : Type} :
    EStateM.Result Interrupt Traced α →
      EStateM.Result Interrupt Machine α
  | .ok a t => .ok a t.machine
  | .error e t => .error e t.machine

/- Without its trace, the one step is the other. -/
def TracedRun.Erases
    {α : Type}
    (traced : TracedRun α)
    (step : Run α) :
    Prop :=
  ∀ t, Traced.erase (traced t) = step t.machine

namespace TracedRun

open Traced

variable {α β : Type}
variable {x : TracedRun α} {y : Run α}

theorem erases_pure (a : α) :
    (pure a : TracedRun α).Erases (pure a) :=
  fun _ => rfl

theorem erases_lift (step : Run α) : (lift step).Erases step := by
  intro t
  unfold lift
  cases step t.machine <;> rfl

theorem Erases.bind
    {f : α → TracedRun β}
    {g : α → Run β}
    (hFirst : x.Erases y)
    (hNext : ∀ a, (f a).Erases (g a)) :
    (x >>= f).Erases (y >>= g) := by
  intro t
  have hErase := hFirst t
  cases hRun : x t with
  | ok a u =>
      rw [hRun] at hErase
      rw [bind_of_ok hRun, bind_of_ok hErase.symm]
      exact hNext a u
  | error e u =>
      rw [hRun] at hErase
      rw [bind_of_error hRun, bind_of_error hErase.symm]
      rfl

/- A step that only changes the trace can be left out. -/
theorem Erases.after
    {a : α}
    {f : α → TracedRun β}
    {z : Run β}
    (hFirst : x.Erases (pure a))
    (hNext : (f a).Erases z) :
    (x >>= f).Erases z := by
  intro t
  have hErase := hFirst t
  cases hRun : x t with
  | ok a' u =>
      rw [hRun] at hErase
      injection hErase with hValue hMachine
      subst hValue
      rw [bind_of_ok hRun, hNext u, hMachine]
  | error e u =>
      rw [hRun] at hErase
      cases hErase

theorem Erases.ite
    {x' : TracedRun α}
    {y' : Run α}
    {p : Prop}
    [Decidable p]
    (hThen : x.Erases y)
    (hElse : x'.Erases y') :
    (if p then x else x').Erases (if p then y else y') := by
  split
  · exact hThen
  · exact hElse

theorem erases_visit (notes : Notes) (node : Expr) :
    (visit notes node).Erases (pure ()) :=
  fun _ => rfl

theorem erases_keepNotes (notes : List Notes) (value : Value) :
    (keepNotes notes value).Erases (pure ()) := by
  intro t
  cases value <;> rfl

theorem Erases.inScope
    (env : EnvId)
    (hStep : x.Erases y) :
    (inScope env x).Erases (Run.inScope env y) := by
  intro t
  have hErase := hStep
    { t with machine := { t.machine with current := env } }
  simp only [TracedRun.inScope, Run.inScope, ← hErase]
  cases x
    { t with machine := { t.machine with current := env } } <;>
    rfl

theorem Erases.guardStack
    (paren : Token)
    (hStep : x.Erases y) :
    (guardStack paren x).Erases (Run.guardStack paren y) := by
  intro t
  simp only [TracedRun.guardStack, Run.guardStack, ← hStep t]
  cases x t with
  | ok a u => rfl
  | error e u => cases e <;> rfl

theorem Erases.execAll
    {traced : Notes → Stmt → TracedRun Completion}
    {exec : Stmt → Run Completion}
    (hExec : ∀ notes s, (traced notes s).Erases (exec s))
    (notes : List Notes)
    (body : List Stmt) :
    (execAllTraced traced notes body).Erases
      (execAll exec body) := by
  induction body generalizing notes with
  | nil => exact erases_pure _
  | cons stmt body ih =>
      apply (hExec _ stmt).bind
      intro completion
      cases completion with
      | normal => exact ih _
      | returned value => exact erases_pure _

theorem Erases.evalAll
    {traced : Notes → Expr → TracedRun Value}
    {eval : Expr → Run Value}
    (hEval : ∀ notes e, (traced notes e).Erases (eval e))
    (notes : List Notes)
    (args : List Expr) :
    (evalAllTraced traced notes args).Erases
      (evalAll eval args) := by
  induction args generalizing notes with
  | nil => exact erases_pure _
  | cons arg args ih =>
      apply (hEval _ arg).bind
      intro value
      exact (ih _).bind fun values => erases_pure _

theorem Erases.repeatWhile
    {condition : TracedRun Value}
    {body : TracedRun Completion}
    {test : Run Value}
    {round : Run Completion}
    (hCondition : condition.Erases test)
    (hBody : body.Erases round)
    (rounds : Nat) :
    (repeatTraced condition body rounds).Erases
      (Lox.repeatWhile test round rounds) := by
  induction rounds with
  | zero => exact fun _ => rfl
  | succ rounds ih =>
      apply hCondition.bind
      intro value
      split
      · apply hBody.bind
        intro completion
        cases completion with
        | normal => exact ih
        | returned value => exact erases_pure _
      · exact erases_pure _

theorem Erases.callClosure
    {traced : Notes → Stmt → TracedRun Completion}
    {exec : Stmt → Run Completion}
    (hExec : ∀ notes s, (traced notes s).Erases (exec s))
    (f : Closure)
    (args : List Value) :
    (callClosureTraced traced f args).Erases
      (Lox.callClosure exec f args) := by
  apply (erases_lift _).bind
  intro params
  apply (erases_lift _).bind
  intro _
  apply (erases_lift _).bind
  intro body t
  -- The notes of the body come out of the trace.
  have hBody :=
    ((Erases.execAll hExec (t.bodies f.ident) f.body).inScope
      body).bind fun completion =>
        erases_pure completion.result
  exact hBody t

theorem Erases.callNative
    {traced : Value → List Value → Token → TracedRun Value}
    {call : Value → List Value → Token → Run Value}
    (hCall :
      ∀ callee args paren,
        (traced callee args paren).Erases
          (call callee args paren))
    (native : Native)
    (args : List Value) :
    (callNativeTraced traced native args).Erases
      (Lox.callNative call native args) := by
  unfold callNativeTraced Lox.callNative
  cases native.behavior with
  | apply index =>
      simp only
      cases args[index]? with
      | some callee => exact hCall _ _ _
      | none => exact erases_lift _
  | _ => exact erases_lift _

theorem erases_declareFunction
    (notes : List Notes)
    (name : Token)
    (params : List Token)
    (body : List Stmt) :
    (declareFunctionTraced notes name params body).Erases
      (declareFunction name params body) := by
  apply (erases_lift _).bind
  intro env
  apply (erases_lift _).bind
  intro value
  exact (erases_keepNotes _ _).after (erases_lift _)

end TracedRun

open TracedRun

section Evaluation

variable {rounds frames : Nat}
variable
  (hEval : ∀ notes e,
    (evalTraced rounds frames notes e).Erases
      (eval rounds frames e))
  (hExec : ∀ notes s,
    (execTraced rounds frames notes s).Erases
      (exec rounds frames s))
  (hCall : ∀ callee args paren,
    (callTraced rounds frames callee args paren).Erases
      (call rounds frames callee args paren))

include hEval hCall in
theorem evalTraced_erases_succ (notes : Notes) (e : Expr) :
    (evalTraced rounds (frames + 1) notes e).Erases
      (eval rounds (frames + 1) e) := by
  rw [evalTraced.eq_def, eval.eq_def]
  apply (erases_visit notes e).after
  cases e with
  | literal value => exact erases_pure _
  | «variable» name hops => exact erases_lift _
  | assign name value hops =>
      apply (hEval _ value).bind
      intro result
      exact (erases_lift _).bind fun _ => erases_pure _
  | binary left op right =>
      apply (hEval _ left).bind
      intro a
      exact (hEval _ right).bind fun b => erases_lift _
  | logical left op right =>
      apply (hEval _ left).bind
      intro a
      exact (erases_pure a).ite (hEval _ right)
  | unary op operand =>
      exact (hEval _ operand).bind fun a => erases_lift _
  | grouping inner => exact hEval _ inner
  | call callee paren args =>
      apply (hEval _ callee).bind
      intro f
      apply (Erases.evalAll hEval _ args).bind
      intro values
      exact (hCall f values paren).guardStack paren

include hEval hExec in
theorem execTraced_erases_succ (notes : Notes) (s : Stmt) :
    (execTraced rounds (frames + 1) notes s).Erases
      (exec rounds (frames + 1) s) := by
  rw [execTraced.eq_def, exec.eq_def]
  cases s with
  | expression value =>
      exact (hEval _ value).bind fun _ => erases_pure _
  | print value =>
      apply (hEval _ value).bind
      intro result
      exact (erases_lift _).bind fun _ => erases_pure _
  | var name initializer =>
      have hDefine :
          ∀ value : Value,
            (do
              let env ← lift Run.current
              lift (Run.define env name.lexeme value)
              return Completion.normal).Erases
            (do
              Run.define (← Run.current) name.lexeme value
              return Completion.normal) := by
        intro value
        apply (erases_lift _).bind
        intro env
        exact (erases_lift _).bind fun _ => erases_pure _
      cases initializer with
      | none => exact (erases_pure Value.nil).bind hDefine
      | some value => exact (hEval _ value).bind hDefine
  | block body =>
      apply (erases_lift _).bind
      intro outer
      apply (erases_lift _).bind
      intro env
      exact (Erases.execAll hExec _ body).inScope env
  | ifThen condition thenBranch =>
      apply (hEval _ condition).bind
      intro value
      exact (hExec _ thenBranch).ite (erases_pure _)
  | ifElse condition thenBranch elseBranch =>
      apply (hEval _ condition).bind
      intro value
      exact (hExec _ thenBranch).ite (hExec _ elseBranch)
  | loop condition body =>
      exact (hEval _ condition).repeatWhile (hExec _ body) rounds
  | function name params body =>
      exact
        (erases_declareFunction _ _ _ _).bind fun _ => erases_pure _
  | ret keyword value =>
      cases value with
      | none => exact erases_pure _
      | some value =>
          exact (hEval _ value).bind fun _ => erases_pure _

include hExec hCall in
theorem callTraced_erases_succ
    (callee : Value)
    (args : List Value)
    (paren : Token) :
    (callTraced rounds (frames + 1) callee args paren).Erases
      (call rounds (frames + 1) callee args paren) := by
  rw [callTraced.eq_def, call.eq_def]
  cases callee with
  | function f =>
      apply (erases_lift _).bind
      intro _
      exact Erases.callClosure hExec f args
  | native f =>
      apply (erases_lift _).bind
      intro _
      exact Erases.callNative hCall f.toNative args
  | _ => exact erases_lift _

end Evaluation

/- Evaluation with a trace is evaluation, but for the trace. -/
theorem evaluation_erases (rounds frames : Nat) :
    (∀ notes e,
      (evalTraced rounds frames notes e).Erases
        (eval rounds frames e)) ∧
    (∀ notes s,
      (execTraced rounds frames notes s).Erases
        (exec rounds frames s)) ∧
    (∀ callee args paren,
      (callTraced rounds frames callee args paren).Erases
        (call rounds frames callee args paren)) := by
  induction frames with
  | zero =>
      refine ⟨?_, ?_, ?_⟩
      · intro notes e
        rw [evalTraced, eval]
        exact erases_lift _
      · intro notes s
        rw [execTraced, exec]
        exact erases_lift _
      · intro callee args paren
        rw [callTraced, call]
        exact erases_lift _
  | succ frames ih =>
      rcases ih with ⟨ihEval, ihExec, ihCall⟩
      exact
        ⟨evalTraced_erases_succ ihEval ihCall,
          execTraced_erases_succ ihEval ihExec,
          callTraced_erases_succ ihExec ihCall⟩

theorem runProgramTraced_erases
    (limits : Limits)
    (notes : List Notes)
    (program : List Stmt) :
    (runProgramTraced limits notes program).Erases
      (runProgram limits program) := by
  induction program generalizing notes with
  | nil => exact erases_pure _
  | cons stmt program ih =>
      rw [runProgramTraced, runProgram]
      have hFirst :=
        (evaluation_erases limits.rounds limits.frames).2.1
          (notes.headD .blank) stmt
      exact hFirst.bind fun _ => ih _

end Lox
