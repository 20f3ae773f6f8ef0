import Lox.Proofs.Machine.Moments
import Lox.Proofs.Scope.Inward

/-
  Evaluation one environment further in.

  A call begins in the environment of its function, so what it
  does does not depend on the environment that it is made in.
  An expression that has one scope more around it therefore does
  in an environment what it does without this scope in the
  environment around it. Only a name that is looked for beyond
  the globals can be missed by another number of scopes.

  Key definitions include:
    * `Run.IsBlind`
    * `Interrupt.IsLost`
    * `Coupling.outside`
    * `Expr.eval_inward`
-/

------------------------------------------------------------
-- Steps That Do Not See Where They Are
------------------------------------------------------------

namespace Lox.Run

variable {α β : Type}

/-
  A step that does the same in all environments that a run may
  be in.
-/
def IsBlind (step : Run α) : Prop :=
  ∀ (m : Machine) (env : EnvId),
    step { m with current := env } = backTo env (step m)

theorem IsBlind.bind
    {step : Run α}
    {next : α → Run β}
    (hStep : step.IsBlind)
    (hNext : ∀ a, (next a).IsBlind) :
    (step >>= next).IsBlind := by
  intro m env
  have hFirst := hStep m env
  cases hRun : step m with
  | ok a m' =>
      rw [hRun] at hFirst
      rw [bind_of_ok hRun, bind_of_ok hFirst]
      exact hNext a m' env
  | error e m' =>
      rw [hRun] at hFirst
      rw [bind_of_error hRun, bind_of_error hFirst]
      rfl

theorem isBlind_pure (a : α) : (pure a : Run α).IsBlind :=
  fun _ _ => rfl

theorem isBlind_makeEnv (parent : Option EnvId) :
    (makeEnv parent).IsBlind :=
  fun _ _ => rfl

theorem isBlind_lift (result : Except RuntimeError α) :
    (lift result).IsBlind := by
  intro m env
  cases result <;> rfl

theorem isBlind_readClock : readClock.IsBlind := by
  intro m env
  unfold readClock
  cases milliseconds m.clock.now <;> rfl

/- What is done in another environment is the same everywhere. -/
theorem isBlind_inScope (env : EnvId) (step : Run α) :
    (inScope env step).IsBlind := by
  intro m outer
  rw [inScope_eq, inScope_eq]
  cases step { m with current := env } <;> rfl

theorem IsBlind.guardStack
    {step : Run α}
    (hStep : step.IsBlind)
    (paren : Token) :
    (guardStack paren step).IsBlind := by
  intro m env
  have hInner := hStep m env
  unfold Run.guardStack
  rw [hInner]
  cases step m with
  | ok a m' => rfl
  | error e m' => cases e <;> rfl

end Lox.Run

namespace Lox

open Run

theorem isBlind_bindParams
    (env : EnvId)
    (params : List Token)
    (args : List Value) :
    (bindParams env params args).IsBlind := by
  intro m outer
  rw [bindParams_eq, bindParams_eq]
  rfl

theorem isBlind_callClosure
    (exec : Stmt → Run Completion)
    (f : Closure)
    (args : List Value) :
    (callClosure exec f args).IsBlind := by
  unfold callClosure
  apply (isBlind_makeEnv _).bind
  intro params
  apply (isBlind_bindParams params f.params args).bind
  intro _
  apply (isBlind_makeEnv _).bind
  intro body
  apply (isBlind_inScope body _).bind
  intro completion
  exact isBlind_pure _

theorem isBlind_checkArity (expected got : Nat) (paren : Token) :
    (checkArity expected got paren).IsBlind := by
  intro m env
  unfold checkArity
  split <;> rfl

theorem isBlind_callNative
    {call : Value → List Value → Token → Run Value}
    (hCall : ∀ callee args paren, (call callee args paren).IsBlind)
    (native : Native)
    (args : List Value) :
    (callNative call native args).IsBlind := by
  unfold callNative
  cases native.behavior with
  | clock => exact isBlind_readClock
  | argument index =>
      simp only
      cases args[index]? <;> exact fun _ _ => rfl
  | constant value => exact fun _ _ => rfl
  | makeFunction name params => exact fun _ _ => rfl
  | makeNative name arity => exact fun _ _ => rfl
  | apply index =>
      simp only
      cases args[index]? with
      | none => exact fun _ _ => rfl
      | some callee => exact hCall _ _ _
  | foreign number => exact fun _ _ => rfl

/- A call is the same wherever it is made. -/
theorem isBlind_call
    (rounds frames : Nat)
    (callee : Value)
    (args : List Value)
    (paren : Token) :
    (call rounds frames callee args paren).IsBlind := by
  induction frames generalizing callee args paren with
  | zero => exact fun _ _ => rfl
  | succ frames ih =>
      cases callee with
      | function f =>
          apply (isBlind_checkArity _ _ paren).bind
          intro _
          exact isBlind_callClosure _ f args
      | native f =>
          apply (isBlind_checkArity _ _ paren).bind
          intro _
          exact isBlind_callNative ih f.toNative args
      | _ => exact fun _ _ => rfl

end Lox

------------------------------------------------------------
-- Environments Side By Side
------------------------------------------------------------

namespace Lox

open Run

/- A name was looked for further out than there are scopes. -/
def Interrupt.IsLost (i : Interrupt) : Prop :=
  ∃ distance token, i = .failed ⟨.scopeDistance distance, token⟩

/-
  Machines that are the same but for where they are: in an
  environment, and in one that lies within it.
-/
def Coupling.outside (outer env : EnvId) :
    Coupling Interrupt Machine where
  states m m' :=
    m.current = outer ∧ m.store.parent? env = some outer ∧
      m' = { m with current := env }
  errors i i' := i' = i ∨ (i.IsLost ∧ i'.IsLost)

namespace Coupling

variable {outer env : EnvId} {α : Type}

/- A step within does what another step does outside. -/
theorem outside_of_eq
    {step step' : Run α}
    {m : Machine}
    (hRestores : step.Restores)
    (hSame : step' { m with current := env } = backTo env (step m))
    (hStates :
      (outside outer env).states m { m with current := env }) :
    (outside outer env).Ends Eq (step m)
      (step' { m with current := env }) := by
  rcases hStates with ⟨hCurrent, hParent, -⟩
  have hStays := hRestores m
  have hKept := hStays.store.parent?_eq_some hParent
  rw [hSame]
  cases hRun : step m with
  | ok a m' =>
      rw [hRun] at hStays hKept
      exact ⟨rfl, hStays.current.trans hCurrent, hKept, rfl⟩
  | error e m' =>
      rw [hRun] at hStays hKept
      exact ⟨.inl rfl, hStays.current.trans hCurrent, hKept, rfl⟩

theorem outside_of_isBlind
    {step : Run α}
    (hBlind : step.IsBlind)
    (hRestores : step.Restores) :
    (outside outer env).Relates Eq step step := by
  intro m m' hStates
  cases hStates.2.2
  exact outside_of_eq hRestores (hBlind m env) hStates

/- What is a number of links up is one more from within. -/
theorem ancestor_inward
    {s : Store}
    (hParent : s.parent? env = some outer)
    (hops : Nat) :
    s.ancestor env (hops + 1) = s.ancestor outer hops ∨
      s.ancestor outer hops =
          .error ⟨.scopeDistance hops, none⟩ ∧
        s.ancestor env (hops + 1) =
          .error ⟨.scopeDistance (hops + 1), none⟩ := by
  have hLink :
      s.ancestor? env (hops + 1) = s.ancestor? outer hops := by
    rw [Store.ancestor?, hParent]
  unfold Store.ancestor
  rw [hLink]
  cases s.ancestor? outer hops with
  | none => exact .inr ⟨rfl, rfl⟩
  | some found => exact .inl rfl

/- A name that is lost outside is lost within. -/
theorem outside_lost
    {m m' : Machine}
    (hStates : (outside outer env).states m m')
    (hops : Nat) :
    (outside outer env).Ends (Eq (α := α))
      (.error (.failed ⟨.scopeDistance hops, none⟩) m)
      (.error (.failed ⟨.scopeDistance (hops + 1), none⟩) m') :=
  ⟨.inr ⟨⟨_, _, rfl⟩, ⟨_, _, rfl⟩⟩, hStates⟩

theorem outside_readName (name : Token) (hops : Option Nat) :
    (outside outer env).Relates Eq (readName name hops)
      (readName name (deeper 1 hops)) := by
  intro m m' hStates
  have hRestores := compositional_restores.readName name hops
  cases hStates.2.2
  cases hStates.1
  cases hops with
  | none =>
      apply outside_of_eq hRestores _ hStates
      exact isBlind_lift _ m env
  | some hops =>
      rcases ancestor_inward hStates.2.1 hops with
        hSame | ⟨hLost, hLost'⟩
      · apply outside_of_eq hRestores _ hStates
        unfold readName deeper Store.getAt
        simp only [Option.map_some]
        rw [hSame]
        exact isBlind_lift _ m env
      · unfold readName deeper Store.getAt
        simp only [Option.map_some]
        rw [hLost, hLost']
        exact outside_lost hStates hops

theorem outside_writeName
    (name : Token)
    (hops : Option Nat)
    (value : Value) :
    (outside outer env).Relates Eq (writeName name hops value)
      (writeName name (deeper 1 hops) value) := by
  intro m m' hStates
  have hRestores := restores_writeName name hops value
  cases hStates.2.2
  cases hStates.1
  cases hops with
  | none =>
      apply outside_of_eq hRestores _ hStates
      unfold writeName deeper Machine.target
      simp only [Option.map_none]
      cases m.store.owner m.globals name <;> rfl
  | some hops =>
      rcases ancestor_inward hStates.2.1 hops with
        hSame | ⟨hLost, hLost'⟩
      · apply outside_of_eq hRestores _ hStates
        unfold writeName deeper Machine.target
        simp only [Option.map_some]
        rw [hSame]
        cases m.store.ancestor m.current hops <;> rfl
      · unfold writeName deeper Machine.target
        simp only [Option.map_some]
        rw [hLost, hLost']
        exact outside_lost hStates hops

end Coupling

end Lox

------------------------------------------------------------
-- Evaluation
------------------------------------------------------------

namespace Lox

open Run Coupling

variable {outer env : EnvId}

theorem evalAll_inward
    {eval : Expr → Run Value}
    (hEval :
      ∀ e, (outside outer env).Relates Eq (eval e) (eval e.inward))
    (args : List Expr) :
    (outside outer env).Relates Eq (evalAll eval args)
      (evalAll eval (Expr.inwardArgs args)) := by
  induction args with
  | nil => exact relates_pure rfl
  | cons arg args ih =>
      apply (hEval arg).bind
      rintro value _ rfl
      apply ih.bind
      rintro values _ rfl
      exact relates_pure rfl

/-
  With one scope more around it, an expression does in an
  environment what it does in the environment around that one.
-/
theorem Expr.eval_inward
    (rounds frames : Nat)
    (e : Expr) :
    (outside outer env).Relates Eq (eval rounds frames e)
      (eval rounds frames e.inward) := by
  induction frames generalizing e with
  | zero =>
      exact fun _ _ hStates => ⟨.inl rfl, hStates⟩
  | succ frames ih =>
      cases e with
      | literal value => exact relates_pure rfl
      | grouping inner => exact ih inner
      | «variable» name hops => exact outside_readName name hops
      | assign name value hops =>
          apply (ih value).bind
          rintro a _ rfl
          apply (outside_writeName name hops a).bind
          rintro _ _ rfl
          exact relates_pure rfl
      | unary op operand =>
          apply (ih operand).bind
          rintro a _ rfl
          exact outside_of_isBlind (isBlind_lift _) (restores_lift _)
      | binary left op right =>
          apply (ih left).bind
          rintro a _ rfl
          apply (ih right).bind
          rintro b _ rfl
          exact outside_of_isBlind (isBlind_lift _) (restores_lift _)
      | logical left op right =>
          apply (ih left).bind
          rintro a _ rfl
          exact (relates_pure rfl).ite .rfl (ih right)
      | call callee paren args =>
          apply (ih callee).bind
          rintro f _ rfl
          apply (evalAll_inward ih args).bind
          rintro values _ rfl
          exact
            outside_of_isBlind
              ((isBlind_call rounds frames f values paren).guardStack
                paren)
              ((call_restores rounds frames f values paren).guardStack
                paren)

end Lox
