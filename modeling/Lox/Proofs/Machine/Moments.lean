import Mathlib.Logic.Relation
import Lox.Proofs.Machine.Custody

/-
  The moments of a run.

  An evaluation is made of others: those of the parts of an
  expression, of the statements of a body, of the rounds of a
  loop, and of calls. A moment is one of them about to begin,
  in the machine that it begins in. From the moment at which a
  run begins all others can be followed, and with them every
  machine that the run passes through.

  Key definitions include:
    * `Moment`
    * `ComesTo`
    * `ComesToRound`
    * `Machine.activation`
    * `Moment.Leads`
    * `Moment.Passes`
    * `Run.Ending`
    * `Custody.Permits`
-/

------------------------------------------------------------
-- Moments
------------------------------------------------------------

namespace Lox

/- What is evaluated. -/
inductive Task where
  | eval (e : Expr)
  | exec (s : Stmt)
  | call (callee : Value) (args : List Value) (paren : Token)

/-
  An evaluation that is about to begin: the frames that it may
  use, what is evaluated, and the machine.
-/
structure Moment where
  frames : Nat
  task : Task
  machine : Machine

/- The machine that the evaluation leaves, however it ends. -/
def Moment.left (rounds : Nat) : Moment → Machine
  | ⟨frames, .eval e, m⟩ => Run.left (eval rounds frames e m)
  | ⟨frames, .exec s, m⟩ => Run.left (exec rounds frames s m)
  | ⟨frames, .call callee args paren, m⟩ =>
      Run.left (call rounds frames callee args paren m)

end Lox

------------------------------------------------------------
-- Items And Rounds That Are Come To
------------------------------------------------------------

namespace Lox

section

variable {ι α : Type}

/-
  One item of a list is come to in some machine, when the steps
  of all items before it have ended and let the run go on.
-/
inductive ComesTo
    (step : ι → Run α)
    (goesOn : α → Prop) :
    List ι → Machine → ι → Machine → Prop where
  | here
      {item : ι} {items : List ι} {m : Machine} :
      ComesTo step goesOn (item :: items) m item m
  | later
      {first item : ι} {items : List ι}
      {m next here : Machine} {a : α}
      (hFirst : step first m = .ok a next)
      (hOn : goesOn a)
      (hLater : ComesTo step goesOn items next item here) :
      ComesTo step goesOn (first :: items) m item here

end

/- The arguments of a call are all evaluated. -/
abbrev ComesToArg (eval : Expr → Run Value) :=
  ComesTo eval fun _ => True

/- A body is executed up to the first statement that returns. -/
abbrev ComesToStmt (exec : Stmt → Run Completion) :=
  ComesTo exec (· = .normal)

/- At the top level a `return` does not stop the program. -/
abbrev ComesToTop (exec : Stmt → Run Completion) :=
  ComesTo exec fun _ => True

/- A round of a loop is come to, with some rounds still left. -/
inductive ComesToRound
    (condition : Run Value)
    (body : Run Completion) :
    (rounds : Nat) → Machine → Machine → Prop where
  | first
      {rounds : Nat} {m : Machine} :
      ComesToRound condition body (rounds + 1) m m
  | next
      {rounds : Nat} {value : Value}
      {m tested again here : Machine}
      (hCondition : condition m = .ok value tested)
      (hTrue : value.isTruthy = true)
      (hBody : body tested = .ok .normal again)
      (hLater : ComesToRound condition body rounds again here) :
      ComesToRound condition body (rounds + 1) m here

namespace Run.Remains

variable {Inv At : Machine → Prop} {m here : Machine}

/- What remains is met again at each item of a list. -/
theorem comesTo
    {ι α : Type}
    {step : ι → Run α}
    {goesOn : α → Prop}
    {Post : Store → α → Prop}
    {items : List ι}
    {item : ι}
    (hRemains : Remains Inv At)
    (hStep :
      ∀ item ∈ items, ∀ m, At m → Maintains Inv (step item) m Post)
    (hAt : At m)
    (hItem : ComesTo step goesOn items m item here) :
    item ∈ items ∧ At here := by
  induction hItem with
  | here => exact ⟨List.mem_cons_self, hAt⟩
  | @later first _ _ m _ _ _ hFirst _ _ ih =>
      rcases List.forall_mem_cons.mp hStep with ⟨hHead, hTail⟩
      rcases (hHead m hAt).of_ok hFirst with ⟨hInv, hStays, _⟩
      have hNext := hRemains.stays _ _ hAt hStays hInv
      rcases ih hTail hNext with ⟨hMem, hHere⟩
      exact ⟨List.mem_cons_of_mem first hMem, hHere⟩

/- So it is in each round of a loop. -/
theorem comesToRound
    {condition : Run Value}
    {body : Run Completion}
    {rounds : Nat}
    {Tested : Store → Value → Prop}
    {Post : Store → Completion → Prop}
    (hRemains : Remains Inv At)
    (hCondition : ∀ m, At m → Maintains Inv condition m Tested)
    (hBody : ∀ m, At m → Maintains Inv body m Post)
    (hAt : At m)
    (hRound : ComesToRound condition body rounds m here) :
    At here := by
  induction hRound with
  | first => exact hAt
  | @next _ _ m tested _ _ hTest _ hRun _ ih =>
      rcases (hCondition m hAt).of_ok hTest with ⟨hInv, hStays, _⟩
      have hAt' := hRemains.stays _ _ hAt hStays hInv
      rcases (hBody tested hAt').of_ok hRun with ⟨hInv', hStays', _⟩
      exact ih (hRemains.stays _ _ hAt' hStays' hInv')

end Run.Remains

end Lox

------------------------------------------------------------
-- Blocks And Activations
------------------------------------------------------------

namespace Lox

/- Binds parameters to arguments, as far as there are both. -/
def Store.bindAll (env : EnvId) :
    List Token → List Value → Store → Store
  | param :: params, arg :: args, s =>
      bindAll env params args (s.define env param.lexeme arg)
  | _, _, s => s

namespace Machine

/- A machine in a new environment within a given one. -/
def entered (m : Machine) (outer : EnvId) : Machine :=
  { m with
    store := m.store.make (some outer)
    current := m.store.next }

/-
  A machine with a new environment that binds the parameters
  of a function to the arguments that there are.
-/
def bound
    (m : Machine)
    (f : Closure)
    (args : List Value) :
    Machine :=
  { m with
    store :=
      (m.store.make (some f.env)).bindAll m.store.next f.params
        args }

/-
  The machine in which the body of a called function begins.
-/
def activation
    (m : Machine)
    (f : Closure)
    (args : List Value) :
    Machine :=
  (m.bound f args).entered m.store.next

end Machine

namespace Run

variable {α : Type}

/- A result with the machine back in a given environment. -/
def backTo
    (env : EnvId) :
    EStateM.Result Interrupt Machine α →
      EStateM.Result Interrupt Machine α
  | .ok a m => .ok a { m with current := env }
  | .error e m => .error e { m with current := env }

theorem inScope_eq
    (env : EnvId)
    (step : Run α)
    (m : Machine) :
    inScope env step m =
      backTo m.current (step { m with current := env }) := by
  unfold inScope backTo
  cases step { m with current := env } <;> rfl

/- What becomes of the value of a step matters nothing. -/
theorem inScope_map
    {β : Type}
    (env : EnvId)
    (step : Run α)
    (f : α → β)
    (m : Machine) :
    (do return f (← inScope env step)) m =
      backTo m.current
        ((do return f (← step)) { m with current := env }) := by
  have hInner := inScope_eq env step m
  cases hRun : step { m with current := env } with
  | ok a m' =>
      rw [hRun] at hInner
      rw [bind_of_ok hInner, bind_of_ok hRun]
      rfl
  | error e m' =>
      rw [hRun] at hInner
      rw [bind_of_error hInner, bind_of_error hRun]
      rfl

theorem store_left_backTo
    (env : EnvId)
    (result : EStateM.Result Interrupt Machine α) :
    (left (backTo env result)).store = (left result).store := by
  cases result <;> rfl

end Run

theorem bindParams_eq
    (env : EnvId)
    (params : List Token)
    (args : List Value)
    (m : Machine) :
    bindParams env params args m =
      .ok () { m with store := m.store.bindAll env params args } := by
  induction params generalizing args m with
  | nil => rfl
  | cons param params ih =>
      cases args with
      | nil => rfl
      | cons arg args =>
          exact
            ih args
              { m with
                store := m.store.define env param.lexeme arg }

/- A block is executed in a new environment, and left again. -/
theorem exec_block
    (rounds frames : Nat)
    (body : List Stmt)
    (m : Machine) :
    exec rounds (frames + 1) (.block body) m =
      Run.backTo m.current
        (execAll (exec rounds frames) body
          (m.entered m.current)) := by
  rw [exec.eq_def]
  exact
    Run.inScope_eq _ _
      { m with store := m.store.make (some m.current) }

/- A call executes the body of the function in an activation. -/
theorem callClosure_eq
    (exec : Stmt → Run Completion)
    (f : Closure)
    (args : List Value)
    (m : Machine) :
    callClosure exec f args m =
      Run.backTo m.current
        ((do
          let completion ← execAll exec f.body
          return completion.result)
          (m.activation f args)) := by
  have hBound :
      bindParams m.store.next f.params args
          { m with store := m.store.make (some f.env) } =
        .ok () (m.bound f args) :=
    bindParams_eq m.store.next f.params args _
  have hMade :
      callClosure exec f args m =
        (do
          bindParams m.store.next f.params args
          let body ← Run.makeEnv (some m.store.next)
          let completion ← Run.inScope body (execAll exec f.body)
          return completion.result)
        { m with store := m.store.make (some f.env) } :=
    rfl
  rw [hMade, bind_of_ok hBound]
  exact Run.inScope_map _ _ _ _

/- A function is called if it has as many parameters. -/
theorem call_function
    {f : Closure}
    {args : List Value}
    (hArity : args.length = f.params.length)
    (rounds frames : Nat)
    (paren : Token)
    (m : Machine) :
    call rounds (frames + 1) (.function f) args paren m =
      callClosure (exec rounds frames) f args m := by
  rw [call.eq_def]
  simp only [checkArity, if_pos hArity]
  rfl

end Lox

------------------------------------------------------------
-- What A Moment Leads To
------------------------------------------------------------

namespace Lox

/-
  One evaluation that another one is made of, when all that
  comes before it has ended in such a way that it is come to.
-/
inductive Moment.Leads (rounds : Nat) : Moment → Moment → Prop where
  | grouping
      {frames : Nat} {m : Machine} {inner : Expr} :
      Leads rounds ⟨frames + 1, .eval (.grouping inner), m⟩
        ⟨frames, .eval inner, m⟩
  | assigned
      {frames : Nat} {m : Machine}
      {name : Token} {value : Expr} {hops : Option Nat} :
      Leads rounds
        ⟨frames + 1, .eval (.assign name value hops), m⟩
        ⟨frames, .eval value, m⟩
  | operand
      {frames : Nat} {m : Machine} {op : Token} {operand : Expr} :
      Leads rounds ⟨frames + 1, .eval (.unary op operand), m⟩
        ⟨frames, .eval operand, m⟩
  | left
      {frames : Nat} {m : Machine}
      {op : Token} {left right : Expr} :
      Leads rounds ⟨frames + 1, .eval (.binary left op right), m⟩
        ⟨frames, .eval left, m⟩
  | right
      {frames : Nat} {m m' : Machine}
      {op : Token} {left right : Expr} {a : Value}
      (hLeft : eval rounds frames left m = .ok a m') :
      Leads rounds ⟨frames + 1, .eval (.binary left op right), m⟩
        ⟨frames, .eval right, m'⟩
  | leftLogical
      {frames : Nat} {m : Machine}
      {op : Token} {left right : Expr} :
      Leads rounds
        ⟨frames + 1, .eval (.logical left op right), m⟩
        ⟨frames, .eval left, m⟩
  | rightLogical
      {frames : Nat} {m m' : Machine}
      {op : Token} {left right : Expr} {a : Value}
      (hLeft : eval rounds frames left m = .ok a m')
      (hOn : ¬ (a.isTruthy = (op.kind = .orKw))) :
      Leads rounds
        ⟨frames + 1, .eval (.logical left op right), m⟩
        ⟨frames, .eval right, m'⟩
  | callee
      {frames : Nat} {m : Machine}
      {callee : Expr} {paren : Token} {args : List Expr} :
      Leads rounds ⟨frames + 1, .eval (.call callee paren args), m⟩
        ⟨frames, .eval callee, m⟩
  | argument
      {frames : Nat} {m m' here : Machine}
      {callee arg : Expr} {paren : Token} {args : List Expr}
      {f : Value}
      (hCallee : eval rounds frames callee m = .ok f m')
      (hArg : ComesToArg (eval rounds frames) args m' arg here) :
      Leads rounds ⟨frames + 1, .eval (.call callee paren args), m⟩
        ⟨frames, .eval arg, here⟩
  | called
      {frames : Nat} {m m' here : Machine}
      {callee : Expr} {paren : Token} {args : List Expr}
      {f : Value} {values : List Value}
      (hCallee : eval rounds frames callee m = .ok f m')
      (hArgs :
        evalAll (eval rounds frames) args m' = .ok values here) :
      Leads rounds ⟨frames + 1, .eval (.call callee paren args), m⟩
        ⟨frames, .call f values paren, here⟩
  | expression
      {frames : Nat} {m : Machine} {value : Expr} :
      Leads rounds ⟨frames + 1, .exec (.expression value), m⟩
        ⟨frames, .eval value, m⟩
  | printed
      {frames : Nat} {m : Machine} {value : Expr} :
      Leads rounds ⟨frames + 1, .exec (.print value), m⟩
        ⟨frames, .eval value, m⟩
  | initializer
      {frames : Nat} {m : Machine} {name : Token} {value : Expr} :
      Leads rounds ⟨frames + 1, .exec (.var name (some value)), m⟩
        ⟨frames, .eval value, m⟩
  | inBlock
      {frames : Nat} {m here : Machine}
      {body : List Stmt} {stmt : Stmt}
      (hStmt :
        ComesToStmt (exec rounds frames) body
          (m.entered m.current) stmt here) :
      Leads rounds ⟨frames + 1, .exec (.block body), m⟩
        ⟨frames, .exec stmt, here⟩
  | test
      {frames : Nat} {m : Machine}
      {condition : Expr} {thenBranch : Stmt} :
      Leads rounds
        ⟨frames + 1, .exec (.ifThen condition thenBranch), m⟩
        ⟨frames, .eval condition, m⟩
  | chosen
      {frames : Nat} {m m' : Machine}
      {condition : Expr} {thenBranch : Stmt} {value : Value}
      (hTest : eval rounds frames condition m = .ok value m')
      (hTrue : value.isTruthy = true) :
      Leads rounds
        ⟨frames + 1, .exec (.ifThen condition thenBranch), m⟩
        ⟨frames, .exec thenBranch, m'⟩
  | testElse
      {frames : Nat} {m : Machine}
      {condition : Expr} {thenBranch elseBranch : Stmt} :
      Leads rounds
        ⟨frames + 1,
          .exec (.ifElse condition thenBranch elseBranch), m⟩
        ⟨frames, .eval condition, m⟩
  | chosenThen
      {frames : Nat} {m m' : Machine}
      {condition : Expr} {thenBranch elseBranch : Stmt}
      {value : Value}
      (hTest : eval rounds frames condition m = .ok value m')
      (hTrue : value.isTruthy = true) :
      Leads rounds
        ⟨frames + 1,
          .exec (.ifElse condition thenBranch elseBranch), m⟩
        ⟨frames, .exec thenBranch, m'⟩
  | chosenElse
      {frames : Nat} {m m' : Machine}
      {condition : Expr} {thenBranch elseBranch : Stmt}
      {value : Value}
      (hTest : eval rounds frames condition m = .ok value m')
      (hFalse : value.isTruthy = false) :
      Leads rounds
        ⟨frames + 1,
          .exec (.ifElse condition thenBranch elseBranch), m⟩
        ⟨frames, .exec elseBranch, m'⟩
  | loopTest
      {frames : Nat} {m here : Machine}
      {condition : Expr} {body : Stmt}
      (hRound :
        ComesToRound (eval rounds frames condition)
          (exec rounds frames body) rounds m here) :
      Leads rounds ⟨frames + 1, .exec (.loop condition body), m⟩
        ⟨frames, .eval condition, here⟩
  | loopBody
      {frames : Nat} {m here m' : Machine}
      {condition : Expr} {body : Stmt} {value : Value}
      (hRound :
        ComesToRound (eval rounds frames condition)
          (exec rounds frames body) rounds m here)
      (hTest : eval rounds frames condition here = .ok value m')
      (hTrue : value.isTruthy = true) :
      Leads rounds ⟨frames + 1, .exec (.loop condition body), m⟩
        ⟨frames, .exec body, m'⟩
  | returned
      {frames : Nat} {m : Machine}
      {keyword : Token} {value : Expr} :
      Leads rounds
        ⟨frames + 1, .exec (.ret keyword (some value)), m⟩
        ⟨frames, .eval value, m⟩
  | inFunction
      {frames : Nat} {m here : Machine}
      {f : Closure} {args : List Value} {paren : Token}
      {stmt : Stmt}
      (hArity : args.length = f.params.length)
      (hStmt :
        ComesToStmt (exec rounds frames) f.body
          (m.activation f args) stmt here) :
      Leads rounds ⟨frames + 1, .call (.function f) args paren, m⟩
        ⟨frames, .exec stmt, here⟩
  | applied
      {frames : Nat} {m : Machine}
      {f : NativeFunction} {args : List Value} {paren : Token}
      {index : Nat} {callee : Value}
      (hArity : args.length = f.arity)
      (hApply : f.behavior = .apply index)
      (hCallee : args[index]? = some callee) :
      Leads rounds ⟨frames + 1, .call (.native f) args paren, m⟩
        ⟨frames,
          .call callee (args.eraseIdx index) nativeCallToken, m⟩

/-
  A machine that an evaluation passes through outside of the
  evaluations that it is made of: at its beginning and its
  end, on entering a block, and while a function is called and
  some of its parameters are bound.
-/
inductive Moment.Passes (rounds : Nat) :
    Moment → Machine → Prop where
  | start (M : Moment) : Passes rounds M M.machine
  | stop (M : Moment) : Passes rounds M (M.left rounds)
  | entering
      (frames : Nat) (m : Machine) (body : List Stmt) :
      Passes rounds ⟨frames + 1, .exec (.block body), m⟩
        (m.entered m.current)
  | binding
      {m : Machine} {f : Closure} {args : List Value}
      (frames : Nat) (paren : Token) (count : Nat)
      (hArity : args.length = f.params.length) :
      Passes rounds ⟨frames + 1, .call (.function f) args paren, m⟩
        (m.bound f (args.take count))
  | calling
      {m : Machine} {f : Closure} {args : List Value}
      (frames : Nat) (paren : Token)
      (hArity : args.length = f.params.length) :
      Passes rounds ⟨frames + 1, .call (.function f) args paren, m⟩
        (m.activation f args)

/- All that a moment leads to, and what comes of that. -/
abbrev Moment.LeadsOn (rounds : Nat) : Moment → Moment → Prop :=
  Relation.ReflTransGen (Moment.Leads rounds)

end Lox

------------------------------------------------------------
-- Endings
------------------------------------------------------------

namespace Lox.Run

/- What can be said of how a run ends, whatever it gives. -/
abbrev Ending :=
  (α : Type) → EStateM.Result Interrupt Machine α → Prop

/- A step that is run in a machine has the ending. -/
def Has {α : Type} (P : Ending) (step : Run α) (m : Machine) :
    Prop :=
  P α (step m)

/-
  An ending that stays: if a part of a run has it, so has the
  whole, whatever comes after the part.
-/
structure Ending.Lasts (P : Ending) : Prop where
  after {α β : Type} {a : α} {m : Machine} {next : Run β} :
    P α (.ok a m) → next.Restores → P β (next m)
  failed {α β : Type} {e : Interrupt} {m : Machine} :
    P α (.error e m) → P β (.error e m)
  guardStack {α : Type} {step : Run α} {m : Machine}
    (paren : Token) :
    P α (step m) → P α (guardStack paren step m)
  backTo {α : Type} {result : EStateM.Result Interrupt Machine α}
    (env : EnvId) :
    P α result → P α (backTo env result)

variable {P : Ending} {α β : Type} {m m' : Machine}
variable {step : Run α} {next : α → Run β}

theorem Ending.Lasts.first
    (hLasts : P.Lasts)
    (hStep : step.Has P m)
    (hNext : ∀ a, (next a).Restores) :
    (step >>= next).Has P m := by
  unfold Has at hStep ⊢
  cases hRun : step m with
  | ok a m' =>
      rw [hRun] at hStep
      rw [bind_of_ok hRun]
      exact hLasts.after hStep (hNext a)
  | error e m' =>
      rw [hRun] at hStep
      rw [bind_of_error hRun]
      exact hLasts.failed hStep

theorem Has.second
    {a : α}
    (hNext : (next a).Has P m')
    (hStep : step m = .ok a m') :
    (step >>= next).Has P m := by
  unfold Has
  rw [bind_of_ok hStep]
  exact hNext

/- The run leaves a store that has grown from a given one. -/
def GrownFrom (s : Store) : Ending :=
  fun _ result => s.Grows (left result).store

/- The run fails with a given error of the program. -/
def FailsWith (e : RuntimeError) : Ending :=
  fun _ result => ∃ m, result = .error (.failed e) m

theorem lasts_grownFrom (s : Store) : (GrownFrom s).Lasts where
  after hGrows hNext := hGrows.trans (hNext _).store
  failed hGrows := hGrows
  guardStack := by
    intro α step m paren hGrows
    unfold GrownFrom Run.guardStack
    unfold GrownFrom at hGrows
    cases hRun : step m with
    | ok a m' =>
        rw [hRun] at hGrows
        exact hGrows
    | error e m' =>
        rw [hRun] at hGrows
        cases e <;> exact hGrows
  backTo := by
    intro α result env hGrows
    unfold GrownFrom
    rw [store_left_backTo]
    exact hGrows

theorem lasts_failsWith (e : RuntimeError) :
    (FailsWith e).Lasts where
  after := by
    rintro α β a m next ⟨_, hFails⟩ _
    cases hFails
  failed := by
    rintro α β e m ⟨_, hFails⟩
    cases hFails
    exact ⟨m, rfl⟩
  guardStack := by
    rintro α step m paren ⟨m', hFails⟩
    unfold FailsWith Run.guardStack
    rw [hFails]
    exact ⟨m', rfl⟩
  backTo := by
    rintro α result env ⟨m, rfl⟩
    exact ⟨_, rfl⟩

end Lox.Run

namespace Lox

open Run

section Lists

variable {eval : Expr → Run Value}
variable {exec : Stmt → Run Completion}
variable {P : Ending} {m here : Machine}

theorem ComesTo.args_have
    {args : List Expr}
    {arg : Expr}
    (hArg : ComesToArg eval args m arg here)
    (hLasts : P.Lasts)
    (hEval : ∀ e, (eval e).Restores)
    (hHas : (eval arg).Has P here) :
    (evalAll eval args).Has P m := by
  have hAll := compositional_restores.evalAll hEval
  induction hArg with
  | here =>
      apply hLasts.first hHas
      intro value
      exact (hAll _).bind fun values m => .refl m
  | later hFirst _ _ ih =>
      apply Has.second _ hFirst
      apply hLasts.first (ih hHas)
      exact fun values m => .refl m

theorem ComesTo.body_has
    {body : List Stmt}
    {stmt : Stmt}
    (hStmt : ComesToStmt exec body m stmt here)
    (hLasts : P.Lasts)
    (hExec : ∀ s, (exec s).Restores)
    (hHas : (exec stmt).Has P here) :
    (execAll exec body).Has P m := by
  have hAll := compositional_restores.execAll hExec
  induction hStmt with
  | here =>
      apply hLasts.first hHas
      intro completion
      cases completion with
      | normal => exact hAll _
      | returned value => exact fun m => .refl m
  | later hFirst hOn _ ih =>
      subst hOn
      apply Has.second _ hFirst
      exact ih hHas

/- A round that is come to is part of the loop. -/
theorem ComesToRound.has
    {condition : Run Value}
    {body : Run Completion}
    {rounds : Nat}
    (hRound : ComesToRound condition body rounds m here)
    (hHas :
      ∀ rounds,
        (repeatWhile condition body (rounds + 1)).Has P here) :
    (repeatWhile condition body rounds).Has P m := by
  induction hRound with
  | first => exact hHas _
  | @next rounds value m tested again here hTest hTrue hBody _ ih =>
      apply Has.second _ hTest
      rw [if_pos hTrue]
      apply Has.second _ hBody
      exact ih hHas

end Lists

section Leading

variable {P : Ending} {rounds frames : Nat}
variable {m : Machine} {M' : Moment}

theorem eval_restores
    (rounds frames : Nat)
    (e : Expr) :
    (eval rounds frames e).Restores :=
  (compositional_restores.evaluation rounds frames).1 e

theorem exec_restores
    (rounds frames : Nat)
    (s : Stmt) :
    (exec rounds frames s).Restores :=
  (compositional_restores.evaluation rounds frames).2.1 s

theorem call_restores
    (rounds frames : Nat)
    (callee : Value)
    (args : List Value)
    (paren : Token) :
    (call rounds frames callee args paren).Restores :=
  (compositional_restores.evaluation rounds frames).2.2 callee
    args paren

/- The evaluation of a moment has an ending. -/
def Moment.Has (rounds : Nat) (P : Ending) : Moment → Prop
  | ⟨frames, .eval e, m⟩ => (eval rounds frames e).Has P m
  | ⟨frames, .exec s, m⟩ => (exec rounds frames s).Has P m
  | ⟨frames, .call callee args paren, m⟩ =>
      (call rounds frames callee args paren).Has P m

private theorem Moment.Leads.has_eval
    {e : Expr}
    (hLeads : Leads rounds ⟨frames, .eval e, m⟩ M')
    (hLasts : P.Lasts)
    (hHas : M'.Has rounds P) :
    (eval rounds frames e).Has P m := by
  have hRestores := compositional_restores
  have hPure : ∀ {α : Type} (a : α), (pure a : Run α).Restores :=
    hRestores.pure
  cases hLeads with
  | grouping =>
      rw [eval.eq_def]
      exact hHas
  | assigned =>
      rw [eval.eq_def]
      apply hLasts.first hHas
      intro value
      exact (hRestores.writeName _ _ value).bind fun _ => hPure _
  | operand =>
      rw [eval.eq_def]
      apply hLasts.first hHas
      intro value
      exact hRestores.lift _
  | left =>
      rw [eval.eq_def]
      apply hLasts.first hHas
      intro a
      apply (eval_restores _ _ _).bind
      intro b
      exact hRestores.lift _
  | right hLeft =>
      rw [eval.eq_def]
      apply Has.second _ hLeft
      apply hLasts.first hHas
      intro b
      exact hRestores.lift _
  | leftLogical =>
      rw [eval.eq_def]
      apply hLasts.first hHas
      intro a
      exact Compositional.ite (hPure a) (eval_restores _ _ _)
  | rightLogical hLeft hOn =>
      rw [eval.eq_def]
      apply Has.second _ hLeft
      rw [if_neg hOn]
      exact hHas
  | callee =>
      rw [eval.eq_def]
      apply hLasts.first hHas
      intro f
      apply (hRestores.evalAll (eval_restores _ _) _).bind
      intro values
      exact (call_restores _ _ f values _).guardStack _
  | argument hCallee hArg =>
      rw [eval.eq_def]
      apply Has.second _ hCallee
      apply
        hLasts.first
          (hArg.args_have hLasts (eval_restores _ _) hHas)
      intro values
      exact (call_restores _ _ _ values _).guardStack _
  | called hCallee hArgs =>
      rw [eval.eq_def]
      apply Has.second _ hCallee
      apply Has.second _ hArgs
      exact hLasts.guardStack _ hHas

private theorem Moment.Leads.has_exec
    {s : Stmt}
    (hLeads : Leads rounds ⟨frames, .exec s, m⟩ M')
    (hLasts : P.Lasts)
    (hHas : M'.Has rounds P) :
    (exec rounds frames s).Has P m := by
  have hRestores := compositional_restores
  have hPure : ∀ {α : Type} (a : α), (pure a : Run α).Restores :=
    hRestores.pure
  cases hLeads with
  | expression =>
      rw [exec.eq_def]
      exact hLasts.first hHas fun _ => hPure _
  | printed =>
      rw [exec.eq_def]
      apply hLasts.first hHas
      intro value
      exact (hRestores.printLine _).bind fun _ => hPure _
  | initializer =>
      rw [exec.eq_def]
      apply hLasts.first hHas
      intro value
      exact hRestores.defineHere _ value
  | inBlock hStmt =>
      unfold Run.Has
      rw [exec_block]
      apply hLasts.backTo
      exact hStmt.body_has hLasts (exec_restores _ _) hHas
  | test =>
      rw [exec.eq_def]
      apply hLasts.first hHas
      intro value
      exact Compositional.ite (exec_restores _ _ _) (hPure _)
  | chosen hTest hTrue =>
      rw [exec.eq_def]
      apply Has.second _ hTest
      rw [if_pos hTrue]
      exact hHas
  | testElse =>
      rw [exec.eq_def]
      apply hLasts.first hHas
      intro value
      exact
        Compositional.ite (exec_restores _ _ _)
          (exec_restores _ _ _)
  | chosenThen hTest hTrue =>
      rw [exec.eq_def]
      apply Has.second _ hTest
      rw [if_pos hTrue]
      exact hHas
  | chosenElse hTest hFalse =>
      rw [exec.eq_def]
      apply Has.second _ hTest
      rw [hFalse, if_neg Bool.false_ne_true]
      exact hHas
  | loopTest hRound =>
      rw [exec.eq_def]
      apply hRound.has
      intro left
      apply hLasts.first hHas
      intro value
      refine Compositional.ite ?_ (hPure _)
      apply (exec_restores _ _ _).bind
      intro completion
      cases completion with
      | normal =>
          exact
            hRestores.repeatWhile (eval_restores _ _ _)
              (exec_restores _ _ _) left
      | returned value => exact hPure _
  | loopBody hRound hTest hTrue =>
      rw [exec.eq_def]
      apply hRound.has
      intro left
      apply Has.second _ hTest
      rw [if_pos hTrue]
      apply hLasts.first hHas
      intro completion
      cases completion with
      | normal =>
          exact
            hRestores.repeatWhile (eval_restores _ _ _)
              (exec_restores _ _ _) left
      | returned value => exact hPure _
  | returned =>
      rw [exec.eq_def]
      exact hLasts.first hHas fun _ => hPure _

private theorem Moment.Leads.has_call
    {callee : Value}
    {args : List Value}
    {paren : Token}
    (hLeads : Leads rounds ⟨frames, .call callee args paren, m⟩ M')
    (hLasts : P.Lasts)
    (hHas : M'.Has rounds P) :
    (call rounds frames callee args paren).Has P m := by
  cases hLeads with
  | inFunction hArity hStmt =>
      unfold Run.Has
      rw [call_function hArity, callClosure_eq]
      apply hLasts.backTo
      apply
        hLasts.first
          (hStmt.body_has hLasts (exec_restores _ _) hHas)
      intro completion
      exact compositional_restores.pure _
  | @applied _ _ f _ _ _ _ hArity hApply hCallee =>
      rw [call.eq_def]
      simp only [checkArity, if_pos hArity]
      unfold callNative
      have hBehavior : f.toNative.behavior = _ := hApply
      simp only [hBehavior, hCallee]
      exact hHas

/- What a part of an evaluation has, the evaluation has. -/
theorem Moment.Leads.has
    {M : Moment}
    (hLeads : M.Leads rounds M')
    (hLasts : P.Lasts)
    (hHas : M'.Has rounds P) :
    M.Has rounds P := by
  rcases M with ⟨frames, task, m⟩
  cases task with
  | eval e => exact hLeads.has_eval hLasts hHas
  | exec s => exact hLeads.has_exec hLasts hHas
  | call callee args paren => exact hLeads.has_call hLasts hHas

theorem Moment.LeadsOn.has
    {M : Moment}
    (hLeads : M.LeadsOn rounds M')
    (hLasts : P.Lasts)
    (hHas : M'.Has rounds P) :
    M.Has rounds P := by
  induction hLeads with
  | refl => exact hHas
  | tail _ hLast ih => exact ih (hLast.has hLasts hHas)

theorem Moment.has_grownFrom
    (M : Moment)
    (rounds : Nat)
    (s : Store) :
    M.Has rounds (GrownFrom s) ↔ s.Grows (M.left rounds).store := by
  rcases M with ⟨frames, task, m⟩
  cases task <;> exact .rfl

/- What is made in an evaluation is there when it has ended. -/
theorem Moment.LeadsOn.grows_left
    {M : Moment}
    (hLeads : M.LeadsOn rounds M') :
    (M'.left rounds).store.Grows (M.left rounds).store := by
  apply (M.has_grownFrom rounds _).mp
  apply LeadsOn.has hLeads (lasts_grownFrom _)
  exact (M'.has_grownFrom rounds _).mpr (.refl _)

end Leading

end Lox

------------------------------------------------------------
-- Machines That Are Passed Through
------------------------------------------------------------

namespace Lox

open Run

variable {rounds : Nat} {M : Moment} {m : Machine}

theorem Store.grows_bindAll
    (env : EnvId)
    (params : List Token)
    (args : List Value)
    (s : Store) :
    s.Grows (s.bindAll env params args) := by
  induction params generalizing args s with
  | nil => exact .refl s
  | cons param params ih =>
      cases args with
      | nil => exact .refl s
      | cons arg args =>
          exact (Store.Grows.define s _ _ _).trans (ih args _)

/- More parameters are bound after some have been. -/
theorem Store.grows_bindAll_take
    (env : EnvId)
    (params : List Token)
    (args : List Value)
    (count : Nat)
    (s : Store) :
    (s.bindAll env params (args.take count)).Grows
      (s.bindAll env params args) := by
  induction params generalizing args count s with
  | nil => exact .refl s
  | cons param params ih =>
      cases args with
      | nil =>
          rw [List.take_nil]
          exact .refl _
      | cons arg args =>
          cases count with
          | zero => exact s.grows_bindAll env _ _
          | succ count => exact ih args count _

theorem Machine.grows_bound
    (m : Machine)
    (f : Closure)
    (args : List Value) :
    m.store.Grows (m.bound f args).store :=
  (Store.Grows.make _ _).trans (Store.grows_bindAll _ _ _ _)

theorem Machine.grows_activation
    (m : Machine)
    (f : Closure)
    (args : List Value) :
    m.store.Grows (m.activation f args).store :=
  (m.grows_bound f args).trans (.make _ _)

/- What is there at the beginning stays there. -/
theorem Moment.stays_left (M : Moment) (rounds : Nat) :
    M.machine.Stays (M.left rounds) := by
  rcases M with ⟨frames, task, m⟩
  cases task with
  | eval e => exact eval_restores rounds frames e m
  | exec s => exact exec_restores rounds frames s m
  | call callee args paren =>
      exact call_restores rounds frames callee args paren m

private theorem inside_restores
    (rounds frames : Nat)
    (f : Closure) :
    (do
      let completion ← execAll (exec rounds frames) f.body
      return completion.result).Restores := by
  have hExec := exec_restores rounds frames
  apply (compositional_restores.execAll hExec f.body).bind
  intro completion
  exact compositional_restores.pure _

/- What is there on the way is there at the end. -/
theorem Moment.Passes.grows_left
    (hPasses : M.Passes rounds m) :
    m.store.Grows (M.left rounds).store := by
  cases hPasses with
  | start => exact (M.stays_left rounds).store
  | stop => exact .refl _
  | entering frames m body =>
      unfold Moment.left
      simp only
      rw [exec_block, store_left_backTo]
      have hExec := exec_restores rounds frames
      exact (compositional_restores.execAll hExec body _).store
  | @binding m f args frames paren count hArity =>
      have hBound :
          (m.bound f (args.take count)).store.Grows
            (m.bound f args).store :=
        Store.grows_bindAll_take _ _ _ _ _
      apply hBound.trans
      apply (Store.Grows.make _ (some m.store.next)).trans
      unfold Moment.left
      simp only
      rw [call_function hArity, callClosure_eq, store_left_backTo]
      exact
        (inside_restores rounds frames f
          (m.activation f args)).store
  | @calling m f args frames paren hArity =>
      unfold Moment.left
      simp only
      rw [call_function hArity, callClosure_eq, store_left_backTo]
      exact
        (inside_restores rounds frames f
          (m.activation f args)).store

end Lox

------------------------------------------------------------
-- Moments In Custody
------------------------------------------------------------

namespace Lox.Custody

variable {C : Custody} {m here : Machine}

/- An environment within one that is held can be entered. -/
theorem CoversAt.entered
    {outer : EnvId}
    (hCovers : C.Covers m)
    (hOuter : C.holds m.store outer) :
    C.CoversAt (m.entered outer) :=
  ⟨⟨hCovers.globals, C.keeps_make hCovers.store hOuter⟩,
    C.holds_made (some outer) hCovers.store⟩

theorem Covers.bound
    {f : Closure}
    {args : List Value}
    (hCovers : C.Covers m)
    (hEnv : C.holds m.store f.env)
    (hArgs : C.HasAll m.store args) :
    C.Covers (m.bound f args) := by
  have hGrows := Store.Grows.make m.store (some f.env)
  have hMade :
      C.Covers { m with store := m.store.make (some f.env) } :=
    ⟨hCovers.globals, C.keeps_make hCovers.store hEnv⟩
  have hHeld := C.holds_made (some f.env) hCovers.store
  have hBound :=
    guards_bindParams hMade hHeld (hArgs.grows hGrows) f.params
  exact (hBound.of_ok (bindParams_eq _ _ _ _)).1

theorem CoversAt.activation
    {f : Closure}
    {args : List Value}
    (hCovers : C.Covers m)
    (hEnv : C.holds m.store f.env)
    (hArgs : C.HasAll m.store args) :
    C.CoversAt (m.activation f args) := by
  apply CoversAt.entered (hCovers.bound hEnv hArgs)
  have hMade := C.holds_made (some f.env) hCovers.store
  exact C.holds_grows (Store.grows_bindAll _ _ _ _) hMade

/- Each item of a list is come to in custody. -/
theorem CoversAt.comesTo
    {ι α : Type}
    {step : ι → Run α}
    {goesOn : α → Prop}
    {Post : Store → α → Prop}
    {items : List ι}
    {item : ι}
    (hAt : C.CoversAt m)
    (hStep : ∀ item m, C.CoversAt m → C.Guards (step item) m Post)
    (hItem : ComesTo step goesOn items m item here) :
    C.CoversAt here :=
  (coversAt_remains.comesTo (fun item _ => hStep item) hAt hItem).2

/- So is each round of a loop. -/
theorem CoversAt.comesToRound
    {condition : Run Value}
    {body : Run Completion}
    {rounds : Nat}
    (hAt : C.CoversAt m)
    (hCondition :
      ∀ m, C.CoversAt m → C.Guards condition m C.Has)
    (hBody : ∀ m, C.CoversAt m → C.Guards body m C.HasResult)
    (hRound : ComesToRound condition body rounds m here) :
    C.CoversAt here :=
  coversAt_remains.comesToRound hCondition hBody hAt hRound

/- Whether what is evaluated is held. -/
def HasTask (C : Custody) (s : Store) : Task → Prop
  | .call callee args _ => C.Has s callee ∧ C.HasAll s args
  | _ => True

/-
  A moment is permitted if all that the evaluation starts from
  is held.
-/
structure Permits (C : Custody) (M : Moment) : Prop where
  machine : C.CoversAt M.machine
  task : C.HasTask M.machine.store M.task

end Lox.Custody

namespace Lox.Custody

variable {C : Custody} {rounds frames : Nat}
variable {M M' : Moment} {m m' : Machine}

private theorem eval_guarded (C : Custody) (rounds frames : Nat) :
    C.EvalGuarded (eval rounds frames) :=
  (C.evaluation_guarded rounds frames).1

private theorem exec_guarded (C : Custody) (rounds frames : Nat) :
    C.ExecGuarded (exec rounds frames) :=
  (C.evaluation_guarded rounds frames).2.1

private theorem CoversAt.eval
    {e : Expr}
    {a : Value}
    (hAt : C.CoversAt m)
    (hEval : Lox.eval rounds frames e m = .ok a m') :
    C.CoversAt m' ∧ m.Stays m' ∧ C.Has m'.store a := by
  rcases (C.eval_guarded rounds frames e m hAt).of_ok hEval with
    ⟨hCovers, hStays, hHas⟩
  exact ⟨hAt.stays hStays hCovers, hStays, hHas⟩

/- Every moment leads to permitted ones only. -/
theorem Permits.leads
    (hPermits : C.Permits M)
    (hLeads : M.Leads rounds M') :
    C.Permits M' := by
  rcases hPermits with ⟨hAt, hTask⟩
  cases hLeads with
  | grouping | assigned | operand | left | leftLogical | callee
  | expression | printed | initializer | test | testElse
  | returned =>
      exact ⟨hAt, trivial⟩
  | right hLeft | rightLogical hLeft | chosen hLeft
  | chosenThen hLeft | chosenElse hLeft =>
      exact ⟨(hAt.eval hLeft).1, trivial⟩
  | argument hCallee hArg =>
      have hAt' := (hAt.eval hCallee).1
      exact ⟨hAt'.comesTo (C.eval_guarded _ _) hArg, trivial⟩
  | @called frames _ _ _ _ _ args _ _ hCallee hArgs =>
      rcases hAt.eval hCallee with ⟨hAt', _, hHas⟩
      have hAll := (C.eval_guarded rounds frames).evalAll hAt' args
      rcases hAll.of_ok hArgs with ⟨hCovers, hStays, hValues⟩
      exact
        ⟨hAt'.stays hStays hCovers, hHas.grows hStays.store,
          hValues⟩
  | inBlock hStmt =>
      have hInside := CoversAt.entered hAt.toCovers hAt.current
      exact
        ⟨hInside.comesTo (C.exec_guarded _ _) hStmt, trivial⟩
  | loopTest hRound =>
      exact
        ⟨hAt.comesToRound (C.eval_guarded _ _ _)
          (C.exec_guarded _ _ _) hRound, trivial⟩
  | loopBody hRound hTest =>
      have hHere :=
        hAt.comesToRound (C.eval_guarded _ _ _)
          (C.exec_guarded _ _ _) hRound
      exact ⟨(hHere.eval hTest).1, trivial⟩
  | inFunction hArity hStmt =>
      have hInside :=
        CoversAt.activation hAt.toCovers hTask.1 hTask.2
      exact
        ⟨hInside.comesTo (C.exec_guarded _ _) hStmt, trivial⟩
  | applied hArity hApply hCallee =>
      refine ⟨hAt, hTask.2 _ (List.mem_of_getElem? hCallee), ?_⟩
      intro arg hArg
      exact hTask.2 arg (List.mem_of_mem_eraseIdx hArg)

theorem Permits.leadsOn
    (hPermits : C.Permits M)
    (hLeads : M.LeadsOn rounds M') :
    C.Permits M' := by
  induction hLeads with
  | refl => exact hPermits
  | tail _ hLast ih => exact ih.leads hLast

theorem Permits.left (hPermits : C.Permits M) :
    C.CoversAt (M.left rounds) := by
  have hStays := M.stays_left rounds
  rcases M with ⟨frames, task, m⟩
  rcases C.evaluation_guarded rounds frames with
    ⟨hEval, hExec, hCall⟩
  rcases hPermits with ⟨hAt, hTask⟩
  apply hAt.stays hStays
  cases task with
  | eval e => exact (hEval e m hAt).covers_left
  | exec s => exact (hExec s m hAt).covers_left
  | call callee args paren =>
      exact
        (hCall callee args paren m hAt.toCovers hTask.1
          hTask.2).covers_left

/- All machines that are passed through are in custody. -/
theorem Permits.passes
    (hPermits : C.Permits M)
    (hPasses : M.Passes rounds m) :
    C.CoversAt m := by
  rcases hPermits with ⟨hAt, hTask⟩
  cases hPasses with
  | start => exact hAt
  | stop => exact Permits.left ⟨hAt, hTask⟩
  | entering => exact CoversAt.entered hAt.toCovers hAt.current
  | @binding m f args frames paren count =>
      have hArgs : C.HasAll m.store (args.take count) :=
        fun arg hArg => hTask.2 arg (List.mem_of_mem_take hArg)
      refine ⟨hAt.toCovers.bound hTask.1 hArgs, ?_⟩
      exact C.holds_grows (m.grows_bound f _) hAt.current
  | calling => exact CoversAt.activation hAt.toCovers hTask.1 hTask.2

end Lox.Custody
