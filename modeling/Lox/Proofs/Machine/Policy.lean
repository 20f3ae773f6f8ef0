import Lox.Machine.Evaluation
import Lox.Proofs.Grammar.Vocabulary
import Lox.Proofs.Machine.Growth

/-
  What a run can be trusted with.

  A policy says of what words the programs are that are run,
  what is known of the clock and of native functions, and what
  may interrupt a run. If each operator, name and parenthesis
  of these words can only be blamed for what is admitted, then
  whatever is run is interrupted by nothing else, and leaves no
  function of other words behind.

  Key definitions include:
    * `Policy`
    * `Policy.Trusts`
    * `Policy.Holds`
    * `Policy.IsSound`
    * `Policy.Ends`
    * `Run.Upholds`
    * `Policy.runProgram_upholds`
-/

------------------------------------------------------------
-- Policies
------------------------------------------------------------

namespace Lox

/-
  The words of programs, what is known of the clock and of
  native functions, and the interrupts that are admitted.
-/
structure Policy where
  words : Vocabulary
  clock : Clock → Prop
  native : Native → Prop
  admits : Interrupt → Prop

/- The faults that the parenthesis of a call is blamed for. -/
inductive RuntimeFault.IsOfCall : RuntimeFault → Prop where
  | notCallable : IsOfCall .notCallable
  | wrongArgumentCount
      (expected got : Nat) :
      IsOfCall (.wrongArgumentCount expected got)
  | stackOverflow : IsOfCall .stackOverflow

/-
  How a native function fails that is given as many arguments
  as it asks for.
-/
inductive Native.FailsWith (native : Native) :
    NativeFailure → Prop where
  | argument
      {index : Nat}
      (hBehavior : native.behavior = .argument index)
      (hOutside : native.arity ≤ index) :
      FailsWith native .noSuchArgument
  | apply
      {index : Nat}
      (hBehavior : native.behavior = .apply index)
      (hOutside : native.arity ≤ index) :
      FailsWith native .noSuchArgument
  | foreign
      {number : Int}
      (hBehavior : native.behavior = .foreign number) :
      FailsWith native (.notAValue native.name number)

namespace Policy

/- A value that runs no other words and no other natives. -/
def Trusts (P : Policy) : Value → Prop
  | .function f => Stmt.BodyFormed P.words f.body
  | .native f => P.native f.toNative
  | _ => True

def TrustsResult (P : Policy) : Completion → Prop
  | .normal => True
  | .returned value => P.Trusts value

/- A machine with a known clock, where all values are trusted. -/
structure Holds (P : Policy) (m : Machine) : Prop where
  clock : P.clock m.clock
  values :
    ∀ env name value,
      m.store.local? env name = some value → P.Trusts value

/-
  A policy admits whatever the words and the native functions
  it trusts can be blamed for.
-/
structure IsSound (P : Policy) : Prop where
  sign :
    ∀ op operand e,
      P.words.sign op → applyUnary op operand = .error e →
        P.admits (.failed e)
  operator :
    ∀ op left right e,
      P.words.operator op → applyBinary op left right = .error e →
        P.admits (.failed e)
  undefined :
    ∀ name,
      P.words.name name → P.admits (.failed (Store.undefined name))
  distance :
    ∀ distance, P.admits (.failed ⟨.scopeDistance distance, none⟩)
  called :
    ∀ paren fault,
      P.words.paren paren → fault.IsOfCall →
        P.admits (.failed ⟨fault, some paren⟩)
  outOfFrames : P.admits .outOfFrames
  outOfRounds : P.admits .outOfRounds
  later : ∀ clock, P.clock clock → P.clock clock.next
  time :
    ∀ clock failure,
      P.clock clock → milliseconds clock.now = .error failure →
        P.admits (.nativeFailed failure)
  made : ∀ name arity, P.native (.giveNil name arity)
  applied :
    ∀ native index,
      P.native native → native.behavior = .apply index →
        P.words.paren nativeCallToken
  nativeFailed :
    ∀ native failure,
      P.native native → native.FailsWith failure →
        P.admits (.nativeFailed failure)

theorem trusts_ofLiteral (P : Policy) (value : Literal) :
    P.Trusts (.ofLiteral value) := by
  cases value <;> exact trivial

theorem TrustsResult.result
    {P : Policy}
    {completion : Completion}
    (hTrusts : P.TrustsResult completion) :
    P.Trusts completion.result := by
  cases completion with
  | normal => exact trivial
  | returned value => exact hTrusts

/- What an operator gives is a plain value. -/
theorem trusts_applyUnary
    (P : Policy)
    {op : Token}
    {operand value : Value}
    (hValue : applyUnary op operand = .ok value) :
    P.Trusts value := by
  unfold applyUnary at hValue
  split at hValue
  · split at hValue <;> cases hValue
    exact trivial
  · cases hValue
    exact trivial
  · cases hValue

theorem trusts_applyBinary
    (P : Policy)
    {op : Token}
    {left right value : Value}
    (hValue : applyBinary op left right = .ok value) :
    P.Trusts value := by
  unfold applyBinary add onNumbers at hValue
  split at hValue
  all_goals
    first
    | (split at hValue <;> cases hValue <;> exact trivial)
    | (cases hValue <;> exact trivial)

end Policy

end Lox

------------------------------------------------------------
-- New Machines
------------------------------------------------------------

namespace Lox.Policy

variable {P : Policy}

/- The native functions of a machine are the given ones. -/
theorem trusts_bindNatives
    {globals : EnvId}
    {natives : List Native}
    (hNatives : ∀ native ∈ natives, P.native native)
    {ident : Nat}
    {store : Store}
    (hStore :
      ∀ env name value,
        store.local? env name = some value → P.Trusts value)
    {env : EnvId}
    {name : String}
    {value : Value}
    (hLocal :
      (Machine.bindNatives globals ident natives store).local? env
          name =
        some value) :
    P.Trusts value := by
  induction natives generalizing ident store with
  | nil => exact hStore env name value hLocal
  | cons native natives ih =>
      rcases List.forall_mem_cons.mp hNatives with ⟨hFirst, hRest⟩
      refine ih hRest ?_ hLocal
      intro other otherName found hFound
      rcases Store.local?_define_eq_some hFound with hOld | hNew
      · exact hStore other otherName found hOld
      · rw [hNew]
        exact hFirst

/- A policy holds of a new machine if it holds of its parts. -/
theorem holds_start
    {natives : List Native}
    {clock : Clock}
    (hNatives : ∀ native ∈ natives, P.native native)
    (hClock : P.clock clock) :
    P.Holds (Machine.start natives clock) := by
  refine ⟨hClock, ?_⟩
  intro env name value hLocal
  refine trusts_bindNatives hNatives ?_ hLocal
  intro other otherName found hFound
  rw [Store.local?_make] at hFound
  simp [Store.local?, Store.bindings] at hFound

end Lox.Policy

------------------------------------------------------------
-- Steps That Uphold A Policy
------------------------------------------------------------

namespace Lox

/-
  However a step has ended, the policy holds of the machine; it
  was interrupted by what is admitted only, and what it has
  given is as promised.
-/
def Policy.Ends
    {α : Type}
    (P : Policy)
    (Post : α → Prop) :
    EStateM.Result Interrupt Machine α → Prop
  | .ok a m => P.Holds m ∧ Post a
  | .error e m => P.Holds m ∧ P.admits e

/- Where the policy holds, a step ends so. -/
def Run.Upholds
    {α : Type}
    (P : Policy)
    (step : Run α)
    (Post : α → Prop) :
    Prop :=
  ∀ m : Machine, P.Holds m → P.Ends Post (step m)

namespace Run

variable {P : Policy} {α β : Type}
variable {step : Run α} {Post : α → Prop} {Post' : β → Prop}

theorem upholds_pure {a : α} (hPost : Post a) :
    Upholds P (pure a) Post :=
  fun _ hHolds => ⟨hHolds, hPost⟩

theorem Upholds.bind
    {next : α → Run β}
    (hStep : step.Upholds P Post)
    (hNext : ∀ a, Post a → (next a).Upholds P Post') :
    Upholds P (step >>= next) Post' := by
  intro m hHolds
  have hFirst := hStep m hHolds
  cases hRun : step m with
  | ok a m' =>
      rw [hRun] at hFirst
      rw [bind_of_ok hRun]
      exact hNext a hFirst.2 m' hFirst.1
  | error e m' =>
      rw [hRun] at hFirst
      rw [bind_of_error hRun]
      exact hFirst

theorem Upholds.ite
    {other : Run α}
    {p : Prop}
    [Decidable p]
    (hStep : step.Upholds P Post)
    (hOther : other.Upholds P Post) :
    Upholds P (if p then step else other) Post := by
  by_cases hHolds : p
  · rw [if_pos hHolds]
    exact hStep
  · rw [if_neg hHolds]
    exact hOther

/- A step that only looks at the machine. -/
theorem upholds_lift
    {result : Except RuntimeError α}
    (hOk : ∀ a, result = .ok a → Post a)
    (hError : ∀ e, result = .error e → P.admits (.failed e)) :
    Upholds P (lift result) Post := by
  intro m hHolds
  cases result with
  | ok a => exact ⟨hHolds, hOk a rfl⟩
  | error e => exact ⟨hHolds, hError e rfl⟩

theorem upholds_stop
    {interrupt : Interrupt}
    (hAdmits : P.admits interrupt) :
    Upholds P (fun m => .error interrupt m) Post :=
  fun _ hHolds => ⟨hHolds, hAdmits⟩

theorem upholds_printLine (text : String) :
    Upholds P (printLine text) fun _ => True :=
  fun _ hHolds => ⟨⟨hHolds.clock, hHolds.values⟩, trivial⟩

theorem upholds_current : Upholds P current fun _ => True :=
  fun _ hHolds => ⟨hHolds, trivial⟩

theorem upholds_freshIdent : Upholds P freshIdent fun _ => True :=
  fun _ hHolds => ⟨⟨hHolds.clock, hHolds.values⟩, trivial⟩

theorem upholds_makeEnv (parent : Option EnvId) :
    Upholds P (makeEnv parent) fun _ => True := by
  intro m hHolds
  refine ⟨⟨hHolds.clock, ?_⟩, trivial⟩
  intro env name value hLocal
  have hOld : (m.store.make parent).local? env name = some value :=
    hLocal
  rw [Store.local?_make] at hOld
  exact hHolds.values env name value hOld

theorem upholds_define
    (env : EnvId)
    (name : String)
    {value : Value}
    (hValue : P.Trusts value) :
    Upholds P (define env name value) fun _ => True := by
  intro m hHolds
  refine ⟨⟨hHolds.clock, ?_⟩, trivial⟩
  intro other otherName found hLocal
  rcases Store.local?_define_eq_some hLocal with hOld | hNew
  · exact hHolds.values other otherName found hOld
  · rw [hNew]
    exact hValue

theorem Upholds.inScope
    (hStep : step.Upholds P Post)
    (env : EnvId) :
    Upholds P (inScope env step) Post := by
  intro m hHolds
  have hInner :=
    hStep { m with current := env } ⟨hHolds.clock, hHolds.values⟩
  unfold Run.inScope
  cases hRun : step { m with current := env } with
  | ok a m' =>
      rw [hRun] at hInner
      exact ⟨⟨hInner.1.clock, hInner.1.values⟩, hInner.2⟩
  | error e m' =>
      rw [hRun] at hInner
      exact ⟨⟨hInner.1.clock, hInner.1.values⟩, hInner.2⟩

theorem upholds_makeFunction
    (name : Token)
    (params : List Token)
    {body : List Stmt}
    (hBody : Stmt.BodyFormed P.words body)
    (env : EnvId) :
    Upholds P (makeFunction name params body env) P.Trusts := by
  apply upholds_freshIdent.bind
  intro ident _
  exact upholds_pure hBody

theorem upholds_makeNative
    {native : Native}
    (hNative : P.native native) :
    Upholds P (makeNative native) P.Trusts := by
  apply upholds_freshIdent.bind
  intro ident _
  exact upholds_pure hNative

section Sound

variable (hSound : P.IsSound)

include hSound

/- A name is looked up by links that are followed first. -/
theorem admits_ancestor
    {s : Store}
    {env : EnvId}
    {hops : Nat}
    {e : RuntimeError}
    (hAncestor : s.ancestor env hops = .error e) :
    P.admits (.failed e) := by
  unfold Store.ancestor at hAncestor
  split at hAncestor <;> cases hAncestor
  exact hSound.distance hops

theorem upholds_readName
    {name : Token}
    (hName : P.words.name name)
    (hops : Option Nat) :
    Upholds P (readName name hops) P.Trusts := by
  intro m hHolds
  have hUndefined := hSound.undefined name hName
  unfold readName
  refine upholds_lift ?_ ?_ m hHolds
  · intro value hValue
    cases hops with
    | none =>
        simp only [Store.get] at hValue
        split at hValue
        · rename_i found hFound
          cases hValue
          rcases List.exists_of_findSome?_eq_some hFound with
            ⟨env, _, hLocal⟩
          exact hHolds.values env _ value hLocal
        · cases hValue
    | some hops =>
        simp only [Store.getAt] at hValue
        cases hEnv : m.store.ancestor m.current hops with
        | error e =>
            rw [hEnv] at hValue
            cases hValue
        | ok env =>
            rw [hEnv] at hValue
            simp only [bind, Except.bind] at hValue
            split at hValue <;> cases hValue
            rename_i hFound
            exact hHolds.values env _ value hFound
  · intro e hError
    cases hops with
    | none =>
        simp only [Store.get] at hError
        split at hError <;> cases hError
        exact hUndefined
    | some hops =>
        simp only [Store.getAt] at hError
        cases hEnv : m.store.ancestor m.current hops with
        | error e' =>
            rw [hEnv] at hError
            cases hError
            exact admits_ancestor hSound hEnv
        | ok env =>
            rw [hEnv] at hError
            simp only [bind, Except.bind] at hError
            split at hError <;> cases hError
            exact hUndefined

theorem upholds_writeName
    {name : Token}
    (hName : P.words.name name)
    (hops : Option Nat)
    {value : Value}
    (hValue : P.Trusts value) :
    Upholds P (writeName name hops value) fun _ => True := by
  intro m hHolds
  unfold writeName
  cases hTarget : m.target name hops with
  | ok env => exact upholds_define env name.lexeme hValue m hHolds
  | error e =>
      refine ⟨hHolds, ?_⟩
      unfold Machine.target at hTarget
      cases hops with
      | none =>
          simp only [Store.owner] at hTarget
          split at hTarget <;> cases hTarget
          exact hSound.undefined name hName
      | some hops => exact admits_ancestor hSound hTarget

theorem upholds_readClock : Upholds P readClock P.Trusts := by
  intro m hHolds
  have hNext : P.Holds { m with clock := m.clock.next } :=
    ⟨hSound.later m.clock hHolds.clock, hHolds.values⟩
  unfold readClock
  cases hTime : milliseconds m.clock.now with
  | ok x => exact ⟨hNext, trivial⟩
  | error failure =>
      exact ⟨hNext, hSound.time _ failure hHolds.clock hTime⟩

/- Lack of nesting is blamed on the call. -/
theorem Upholds.guardStack
    (hStep : step.Upholds P Post)
    {paren : Token}
    (hParen : P.words.paren paren) :
    Upholds P (guardStack paren step) Post := by
  intro m hHolds
  have hInner := hStep m hHolds
  unfold Run.guardStack
  cases hRun : step m with
  | ok a m' =>
      rw [hRun] at hInner
      exact hInner
  | error e m' =>
      rw [hRun] at hInner
      cases e with
      | outOfFrames =>
          exact
            ⟨hInner.1, hSound.called paren _ hParen .stackOverflow⟩
      | _ => exact hInner

end Sound

end Run

end Lox

------------------------------------------------------------
-- Lists Of Steps And Calls
------------------------------------------------------------

namespace Lox.Policy

open Run

variable {P : Policy}

/- Expressions of the words of a policy give trusted values. -/
def EvalUpholds (P : Policy) (eval : Expr → Run Value) : Prop :=
  ∀ e, e.Formed P.words → (eval e).Upholds P P.Trusts

/- Statements of these words return trusted values. -/
def ExecUpholds
    (P : Policy)
    (exec : Stmt → Run Completion) :
    Prop :=
  ∀ s, s.Formed P.words → (exec s).Upholds P P.TrustsResult

/- So do calls of trusted values. -/
def CallUpholds
    (P : Policy)
    (call : Value → List Value → Token → Run Value) :
    Prop :=
  ∀ callee args paren,
    P.Trusts callee → (∀ arg ∈ args, P.Trusts arg) →
      P.words.paren paren →
        (call callee args paren).Upholds P P.Trusts

variable {eval : Expr → Run Value}
variable {exec : Stmt → Run Completion}
variable {call : Value → List Value → Token → Run Value}

theorem EvalUpholds.evalAll
    (hEval : P.EvalUpholds eval)
    {args : List Expr}
    (hArgs : Expr.ArgsFormed P.words args) :
    Upholds P (evalAll eval args)
      fun values => ∀ value ∈ values, P.Trusts value := by
  induction args with
  | nil => exact upholds_pure (by simp)
  | cons arg args ih =>
      apply (hEval arg hArgs.1).bind
      intro value hValue
      apply (ih hArgs.2).bind
      intro values hValues
      exact upholds_pure (List.forall_mem_cons.mpr ⟨hValue, hValues⟩)

theorem ExecUpholds.execAll
    (hExec : P.ExecUpholds exec)
    {body : List Stmt}
    (hBody : Stmt.BodyFormed P.words body) :
    Upholds P (execAll exec body) P.TrustsResult := by
  induction body with
  | nil => exact upholds_pure trivial
  | cons stmt body ih =>
      apply (hExec stmt hBody.1).bind
      intro completion hCompletion
      cases completion with
      | normal => exact ih hBody.2
      | returned value => exact upholds_pure hCompletion

theorem upholds_bindParams
    (env : EnvId)
    (params : List Token)
    {args : List Value}
    (hArgs : ∀ arg ∈ args, P.Trusts arg) :
    Upholds P (bindParams env params args) fun _ => True := by
  induction params generalizing args with
  | nil => exact upholds_pure trivial
  | cons param params ih =>
      cases args with
      | nil => exact upholds_pure trivial
      | cons arg args =>
          rcases List.forall_mem_cons.mp hArgs with ⟨hArg, hRest⟩
          apply (upholds_define env param.lexeme hArg).bind
          intro _ _
          exact ih hRest

theorem ExecUpholds.callClosure
    (hExec : P.ExecUpholds exec)
    {f : Closure}
    (hBody : Stmt.BodyFormed P.words f.body)
    {args : List Value}
    (hArgs : ∀ arg ∈ args, P.Trusts arg) :
    Upholds P (callClosure exec f args) P.Trusts := by
  apply (upholds_makeEnv (some f.env)).bind
  intro params _
  apply (upholds_bindParams params f.params hArgs).bind
  intro _ _
  apply (upholds_makeEnv (some params)).bind
  intro body _
  apply ((hExec.execAll hBody).inScope body).bind
  intro completion hCompletion
  exact upholds_pure hCompletion.result

/- A variable declaration binds its name and ends normally. -/
theorem upholds_defineHere
    (name : String)
    {value : Value}
    (hValue : P.Trusts value) :
    Upholds P
      (do
        define (← current) name value
        return .normal)
      P.TrustsResult := by
  apply upholds_current.bind
  intro env _
  apply (upholds_define env name hValue).bind
  intro _ _
  exact upholds_pure trivial

theorem upholds_declareFunction
    (name : Token)
    (params : List Token)
    {body : List Stmt}
    (hBody : Stmt.BodyFormed P.words body) :
    Upholds P (declareFunction name params body)
      fun _ => True := by
  apply upholds_current.bind
  intro env _
  apply (upholds_makeFunction name params hBody env).bind
  intro value hValue
  exact upholds_define env name.lexeme hValue

section Sound

variable (hSound : P.IsSound)

include hSound

theorem upholds_repeatWhile
    {condition : Run Value}
    {body : Run Completion}
    (hCondition : condition.Upholds P P.Trusts)
    (hBody : body.Upholds P P.TrustsResult)
    (rounds : Nat) :
    Upholds P (repeatWhile condition body rounds)
      P.TrustsResult := by
  induction rounds with
  | zero => exact upholds_stop hSound.outOfRounds
  | succ rounds ih =>
      apply hCondition.bind
      intro value _
      refine Upholds.ite ?_ (upholds_pure trivial)
      apply hBody.bind
      intro completion hCompletion
      cases completion with
      | normal => exact ih
      | returned value => exact upholds_pure hCompletion

theorem upholds_checkArity
    (expected got : Nat)
    {paren : Token}
    (hParen : P.words.paren paren) :
    Upholds P (checkArity expected got paren)
      fun _ => got = expected := by
  unfold checkArity
  by_cases hSame : got = expected
  · rw [if_pos hSame]
    exact upholds_pure hSame
  · rw [if_neg hSame]
    apply upholds_stop
    exact
      hSound.called paren _ hParen
        (.wrongArgumentCount expected got)

/- A native function fails in the ways it can, and in no other. -/
theorem CallUpholds.callNative
    (hCall : P.CallUpholds call)
    {native : Native}
    {args : List Value}
    (hNative : P.native native)
    (hArgs : ∀ arg ∈ args, P.Trusts arg)
    (hLength : args.length = native.arity) :
    Upholds P (callNative call native args) P.Trusts := by
  have hFails := hSound.nativeFailed native
  unfold Lox.callNative
  cases hBehavior : native.behavior with
  | clock => exact upholds_readClock hSound
  | constant value => exact upholds_pure (P.trusts_ofLiteral value)
  | makeFunction name params =>
      apply (upholds_makeEnv none).bind
      intro env _
      have hBody : Stmt.BodyFormed P.words [] := trivial
      exact upholds_makeFunction name params hBody env
  | makeNative name arity =>
      exact upholds_makeNative (hSound.made name arity)
  | foreign number =>
      exact upholds_stop (hFails _ hNative (.foreign hBehavior))
  | argument index =>
      dsimp only
      cases hArg : args[index]? with
      | some value =>
          exact upholds_pure (hArgs _ (List.mem_of_getElem? hArg))
      | none =>
          have hOutside := List.getElem?_eq_none_iff.mp hArg
          rw [hLength] at hOutside
          exact
            upholds_stop
              (hFails _ hNative (.argument hBehavior hOutside))
  | apply index =>
      dsimp only
      cases hArg : args[index]? with
      | some value =>
          have hParen :=
            hSound.applied native index hNative hBehavior
          refine hCall _ _ _ (hArgs _ ?_) ?_ hParen
          · exact List.mem_of_getElem? hArg
          · intro arg hMem
            exact hArgs arg (List.mem_of_mem_eraseIdx hMem)
      | none =>
          have hOutside := List.getElem?_eq_none_iff.mp hArg
          rw [hLength] at hOutside
          exact
            upholds_stop
              (hFails _ hNative (.apply hBehavior hOutside))

end Sound

end Lox.Policy

------------------------------------------------------------
-- Expressions And Statements
------------------------------------------------------------

namespace Lox.Policy

open Run

variable {P : Policy} {rounds frames : Nat}

section Evaluation

variable (hSound : P.IsSound)
variable (hEval : P.EvalUpholds (eval rounds frames))
variable (hExec : P.ExecUpholds (exec rounds frames))
variable (hCall : P.CallUpholds (call rounds frames))

include hSound hEval hCall in
theorem eval_upholds_succ :
    P.EvalUpholds (eval rounds (frames + 1)) := by
  intro e hFormed
  rw [eval.eq_def]
  cases e with
  | literal value => exact upholds_pure (P.trusts_ofLiteral value)
  | grouping inner => exact hEval inner hFormed
  | «variable» name hops =>
      exact upholds_readName hSound hFormed hops
  | assign name value hops =>
      apply (hEval value hFormed.2).bind
      intro result hResult
      apply (upholds_writeName hSound hFormed.1 hops hResult).bind
      intro _ _
      exact upholds_pure hResult
  | unary op operand =>
      apply (hEval operand hFormed.2).bind
      intro value _
      apply upholds_lift
      · exact fun _ hValue => P.trusts_applyUnary hValue
      · exact fun e => hSound.sign op value e hFormed.1
  | binary left op right =>
      rcases hFormed with ⟨hLeft, hOp, hRight⟩
      apply (hEval left hLeft).bind
      intro a _
      apply (hEval right hRight).bind
      intro b _
      apply upholds_lift
      · exact fun _ hValue => P.trusts_applyBinary hValue
      · exact fun e => hSound.operator op a b e hOp
  | logical left op right =>
      apply (hEval left hFormed.1).bind
      intro a hLeft
      exact (upholds_pure hLeft).ite (hEval right hFormed.2.2)
  | call callee paren args =>
      rcases hFormed with ⟨hCallee, hParen, hArgs⟩
      apply (hEval callee hCallee).bind
      intro f hFunction
      apply (hEval.evalAll hArgs).bind
      intro values hValues
      have hInner := hCall f values paren hFunction hValues hParen
      exact hInner.guardStack hSound hParen

include hSound hEval hExec in
theorem exec_upholds_succ :
    P.ExecUpholds (exec rounds (frames + 1)) := by
  intro s hFormed
  rw [exec.eq_def]
  cases s with
  | expression value =>
      apply (hEval value hFormed).bind
      intro _ _
      exact upholds_pure trivial
  | print value =>
      apply (hEval value hFormed).bind
      intro result _
      apply (upholds_printLine result.text).bind
      intro _ _
      exact upholds_pure trivial
  | var name initializer =>
      cases initializer with
      | none => exact upholds_defineHere name.lexeme trivial
      | some value =>
          apply (hEval value hFormed.2).bind
          intro value hValue
          exact upholds_defineHere name.lexeme hValue
  | block body =>
      apply upholds_current.bind
      intro outer _
      apply (upholds_makeEnv (some outer)).bind
      intro env _
      exact (hExec.execAll hFormed).inScope env
  | ifThen condition thenBranch =>
      apply (hEval condition hFormed.1).bind
      intro value _
      exact (hExec thenBranch hFormed.2).ite (upholds_pure trivial)
  | ifElse condition thenBranch elseBranch =>
      rcases hFormed with ⟨hCondition, hThen, hElse⟩
      apply (hEval condition hCondition).bind
      intro value _
      exact (hExec thenBranch hThen).ite (hExec elseBranch hElse)
  | loop condition body =>
      exact
        upholds_repeatWhile hSound (hEval condition hFormed.1)
          (hExec body hFormed.2) rounds
  | function name params body =>
      apply (upholds_declareFunction name params hFormed.2.2).bind
      intro _ _
      exact upholds_pure trivial
  | ret keyword value =>
      cases value with
      | none => exact upholds_pure trivial
      | some value =>
          apply (hEval value hFormed.2).bind
          intro result hResult
          exact upholds_pure hResult

include hSound hExec hCall in
theorem call_upholds_succ :
    P.CallUpholds (call rounds (frames + 1)) := by
  intro callee args paren hCallee hArgs hParen
  rw [call.eq_def]
  cases callee with
  | function f =>
      apply (upholds_checkArity hSound _ _ hParen).bind
      intro _ _
      exact hExec.callClosure hCallee hArgs
  | native f =>
      apply (upholds_checkArity hSound _ _ hParen).bind
      intro _ hLength
      exact hCall.callNative hSound hCallee hArgs hLength
  | _ => exact upholds_stop (hSound.called paren _ hParen .notCallable)

end Evaluation

/- By induction on the frames that are left. -/
theorem evaluation_upholds
    (hSound : P.IsSound)
    (rounds frames : Nat) :
    P.EvalUpholds (eval rounds frames) ∧
      P.ExecUpholds (exec rounds frames) ∧
      P.CallUpholds (call rounds frames) := by
  induction frames with
  | zero =>
      have hStop {α : Type} {Post : α → Prop} :
          Upholds P outOfFrames Post :=
        upholds_stop hSound.outOfFrames
      refine ⟨?_, ?_, ?_⟩
      · intro e _
        rw [eval]
        exact hStop
      · intro s _
        rw [exec]
        exact hStop
      · intro callee args paren _ _ _
        rw [call]
        exact hStop
  | succ frames ih =>
      rcases ih with ⟨ihEval, ihExec, ihCall⟩
      exact
        ⟨eval_upholds_succ hSound ihEval ihCall,
          exec_upholds_succ hSound ihEval ihExec,
          call_upholds_succ hSound ihExec ihCall⟩

/- Programs of the words of a sound policy uphold it. -/
theorem runProgram_upholds
    (hSound : P.IsSound)
    (limits : Limits)
    {program : List Stmt}
    (hProgram : Stmt.BodyFormed P.words program) :
    (runProgram limits program).Upholds P fun _ => True := by
  induction program with
  | nil => exact upholds_pure trivial
  | cons stmt program ih =>
      have hExec :=
        (evaluation_upholds hSound limits.rounds limits.frames).2.1
      apply (hExec stmt hProgram.1).bind
      intro _ _
      exact ih hProgram.2

end Lox.Policy
