import Lox.Proofs.Machine.Composition
import Lox.Proofs.Machine.Growth

/-
  A run comes back to the environment that it started in.

  Blocks and calls go on in environments of their own. However
  they end, be it with a value, a `return`, an error of the
  program, the failure of a native function or for lack of
  room, the machine is then in the very environment in which
  it was before.

  Key definitions include:
    * `Machine.Stays`
    * `Run.left`
    * `Run.Restores`
    * `Run.compositional_restores`
-/

------------------------------------------------------------
-- Machines That Stay
------------------------------------------------------------

namespace Lox

/-
  A machine is in the same environment as before, with the
  same globals; its environments are still there, each within
  the one that it was made in.
-/
structure Machine.Stays (m m' : Machine) : Prop where
  current : m'.current = m.current
  globals : m'.globals = m.globals
  store : m.store.Grows m'.store

namespace Machine.Stays

theorem refl (m : Machine) : m.Stays m :=
  ⟨rfl, rfl, .refl m.store⟩

theorem trans
    {m m' m'' : Machine}
    (hFirst : m.Stays m')
    (hSecond : m'.Stays m'') :
    m.Stays m'' :=
  ⟨hSecond.current.trans hFirst.current,
    hSecond.globals.trans hFirst.globals,
    hFirst.store.trans hSecond.store⟩

end Machine.Stays

end Lox

------------------------------------------------------------
-- Steps That Restore
------------------------------------------------------------

namespace Lox.Run

variable {α β : Type}

/- The machine that a run leaves, however it ends. -/
def left : EStateM.Result Interrupt Machine α → Machine
  | .ok _ m => m
  | .error _ m => m

/- A step that leaves each machine where it is. -/
def Restores (step : Run α) : Prop :=
  ∀ m : Machine, m.Stays (left (step m))

theorem Restores.bind
    {step : Run α}
    {next : α → Run β}
    (hStep : step.Restores)
    (hNext : ∀ a, (next a).Restores) :
    (step >>= next).Restores := by
  intro m
  have hFirst := hStep m
  cases hRun : step m with
  | ok a m' =>
      rw [hRun] at hFirst
      rw [bind_of_ok hRun]
      exact hFirst.trans (hNext a m')
  | error e m' =>
      rw [hRun] at hFirst
      rw [bind_of_error hRun]
      exact hFirst

/- A step elsewhere restores whatever it does there. -/
theorem Restores.inScope
    {step : Run α}
    (hStep : step.Restores)
    (env : EnvId) :
    (inScope env step).Restores := by
  intro m
  have hInner := hStep { m with current := env }
  unfold Run.inScope
  cases hRun : step { m with current := env } with
  | ok a m' =>
      rw [hRun] at hInner
      exact ⟨rfl, hInner.globals, hInner.store⟩
  | error e m' =>
      rw [hRun] at hInner
      exact ⟨rfl, hInner.globals, hInner.store⟩

theorem Restores.guardStack
    {step : Run α}
    (hStep : step.Restores)
    (paren : Token) :
    (guardStack paren step).Restores := by
  intro m
  have hInner := hStep m
  unfold Run.guardStack
  cases hRun : step m with
  | ok a m' =>
      rw [hRun] at hInner
      exact hInner
  | error e m' =>
      rw [hRun] at hInner
      cases e <;> exact hInner

theorem restores_lift (result : Except RuntimeError α) :
    (lift result).Restores := by
  intro m
  cases result <;> exact .refl m

theorem restores_makeEnv (parent : Option EnvId) :
    (makeEnv parent).Restores :=
  fun m => ⟨rfl, rfl, .make m.store parent⟩

theorem restores_define
    (env : EnvId)
    (name : String)
    (value : Value) :
    (define env name value).Restores :=
  fun m => ⟨rfl, rfl, .define m.store env name value⟩

theorem restores_writeName
    (name : Token)
    (hops : Option Nat)
    (value : Value) :
    (writeName name hops value).Restores := by
  intro m
  unfold writeName
  cases m.target name hops with
  | ok env => exact restores_define env name.lexeme value m
  | error e => exact .refl m

theorem restores_readClock : readClock.Restores := by
  intro m
  unfold readClock
  cases milliseconds m.clock.now <;>
    exact ⟨rfl, rfl, .refl m.store⟩

/- To restore the environment is a property of whole runs. -/
theorem compositional_restores :
    Compositional fun _ step => step.Restores where
  pure _ m := .refl m
  stop _ m := .refl m
  printLine _ m := ⟨rfl, rfl, .refl m.store⟩
  makeEnv := restores_makeEnv
  current m := .refl m
  define := restores_define
  readName _ _ m := restores_lift _ m
  writeName := restores_writeName
  freshIdent m := ⟨rfl, rfl, .refl m.store⟩
  readClock := restores_readClock
  bind := Restores.bind
  inScope := Restores.inScope
  guardStack := Restores.guardStack

end Lox.Run
