import Lox.Proofs.Machine.Inward
import Lox.Proofs.Scope.ForLoop

/-
  The meaning of `for` loops.

  A `for` loop is given a rule of its own, which goes by its
  parts as they are written. The statement that the loop stands
  for does the same, step by step: the increment, which it has
  one scope further in, is evaluated as in the scope of the
  loop.

  Key definitions include:
    * `Run.inNewScope`
    * `ForLoop.pass`
    * `ForLoop.exec`
    * `ForLoop.exec_tree`
-/

------------------------------------------------------------
-- The Rule
------------------------------------------------------------

namespace Lox

/- A step in a new scope within the one that the run is in. -/
def Run.inNewScope {α : Type} (step : Run α) : Run α := do
  let env ← makeEnv (some (← current))
  inScope env step

namespace ForLoop

/-
  The parts of a loop are nested in its statement, the body and
  the increment deepest; the frames are what is left for them.
-/
variable (loop : ForLoop) (rounds frames : Nat)

/- The value that decides on the next pass. -/
def tested : Run Value :=
  match loop.condition with
  | none => return .bool true
  | some condition => eval rounds (frames + 2) condition

/- What is done once after a pass that has not returned. -/
def advance : Run Unit :=
  match loop.increment with
  | none => return ()
  | some increment => do
    let _ ← eval rounds frames increment

/-
  One pass: the body in a new scope within that of the loop, and
  the increment in the scope of the loop. A pass whose body has
  returned goes no further.
-/
def pass : Run Completion := do
  match ← Run.inNewScope (Lox.exec rounds (frames + 1) loop.body) with
  | .returned value => return .returned value
  | .normal => do
    loop.advance rounds frames
    return .normal

/- Passes as long as the condition holds, at most a number. -/
def passes : (left : Nat) → Run Completion
  | 0 => fun m => .error .outOfRounds m
  | left + 1 => do
    if (← loop.tested rounds frames).isTruthy then
      match ← loop.pass rounds frames with
      | .returned value => return .returned value
      | .normal => passes left
    else return .normal

/-
  Executes a loop: what comes first once, and then the passes,
  all in a new scope.
-/
def exec : Run Completion :=
  Run.inNewScope do
    match loop.initializer with
    | none => loop.passes rounds frames rounds
    | some initializer =>
      match ← Lox.exec rounds (frames + 3) initializer with
      | .returned value => return .returned value
      | .normal => loop.passes rounds frames rounds

end ForLoop

end Lox

------------------------------------------------------------
-- The Statement And The Rule
------------------------------------------------------------

namespace Lox

open Run Coupling

/- Runs that are the same, unless both have lost a name. -/
def Coupling.unlessLost : Coupling Interrupt Machine where
  states m m' := m' = m
  errors i i' := i' = i ∨ (i.IsLost ∧ i'.IsLost)

theorem Coupling.unlessLost_refl {α : Type} (step : Run α) :
    unlessLost.Relates Eq step step := by
  rintro _ m rfl
  cases step m with
  | ok a m' => exact ⟨rfl, rfl⟩
  | error i m' => exact ⟨.inl rfl, rfl⟩

theorem Run.inNewScope_eq
    {α : Type}
    (step : Run α)
    (m : Machine) :
    inNewScope step m =
      backTo m.current (step (m.entered m.current)) :=
  inScope_eq _ step { m with store := m.store.make m.current }

theorem Coupling.unlessLost_inNewScope
    {α : Type}
    {step step' : Run α}
    (hSteps : unlessLost.Relates Eq step step') :
    unlessLost.Relates Eq (inNewScope step) (inNewScope step') := by
  rintro _ m rfl
  rw [inNewScope_eq, inNewScope_eq]
  have hEnds := hSteps (m.entered m.current) _ rfl
  cases hRun : step (m.entered m.current) <;>
    cases hRun' : step' (m.entered m.current) <;>
    rw [hRun, hRun'] at hEnds
  · rcases hEnds with ⟨rfl, rfl⟩
    exact ⟨rfl, rfl⟩
  · exact hEnds.elim
  · exact hEnds.elim
  · rcases hEnds with ⟨hErrors, rfl⟩
    exact ⟨hErrors, rfl⟩

/- What was done within is left for the environment around it. -/
theorem Coupling.unlessLost_backTo
    {outer env : EnvId}
    {α α' : Type}
    {A : α → α' → Prop}
    {result : EStateM.Result Interrupt Machine α}
    {result' : EStateM.Result Interrupt Machine α'}
    (hEnds : (outside outer env).Ends A result result') :
    unlessLost.Ends A result (backTo outer result') := by
  cases result <;> cases result'
  · rcases hEnds with ⟨hResults, rfl, _, rfl⟩
    exact ⟨hResults, rfl⟩
  · exact hEnds.elim
  · exact hEnds.elim
  · rcases hEnds with ⟨hErrors, rfl, _, rfl⟩
    exact ⟨hErrors, rfl⟩

theorem execAll_singleton
    (exec : Stmt → Run Completion)
    (s : Stmt) :
    execAll exec [s] = exec s := by
  funext m
  cases hRun : exec s m with
  | error i m' => exact bind_of_error hRun _
  | ok completion m' =>
      refine (bind_of_ok hRun _).trans ?_
      cases completion <;> rfl

namespace ForLoop

variable (loop : ForLoop) (rounds frames : Nat)

/- What stands after the body in the statement of a loop. -/
def after : List Stmt :=
  ((loop.increment.map Expr.inward).map Stmt.expression).toList

theorem eval_test :
    eval rounds (frames + 2) loop.test =
      loop.tested rounds frames := by
  unfold test tested
  cases loop.condition <;> rfl

/- The increment is one scope further in. -/
theorem execAll_after {outer env : EnvId} :
    (outside outer env).Relates Eq
      (do
        loop.advance rounds frames
        return .normal)
      (execAll (Lox.exec rounds (frames + 1)) loop.after) := by
  unfold advance after
  cases loop.increment with
  | none => exact relates_pure rfl
  | some increment =>
      simp only [Option.map_some, Option.toList_some, bind_assoc]
      rw [execAll_singleton]
      apply (increment.eval_inward rounds frames).bind
      rintro value _ rfl
      exact relates_pure rfl

/- A pass through the statement is one by the rule. -/
theorem exec_round :
    unlessLost.Relates Eq (loop.pass rounds frames)
      (Lox.exec rounds (frames + 2)
        (.block (loop.body :: loop.after))) := by
  rintro _ m rfl
  rw [exec_block]
  let inside := m.entered m.current
  have hScope :=
    Run.inNewScope_eq (Lox.exec rounds (frames + 1) loop.body) m
  cases hBody : Lox.exec rounds (frames + 1) loop.body inside with
  | error i m' =>
      rw [hBody] at hScope
      rw [execAll, pass, bind_of_error hBody, bind_of_error hScope]
      exact ⟨.inl rfl, rfl⟩
  | ok completion m' =>
      rw [hBody] at hScope
      rw [execAll, pass, bind_of_ok hBody, bind_of_ok hScope]
      cases completion with
      | returned value => exact ⟨rfl, rfl⟩
      | normal =>
          have hStays :=
            exec_restores rounds (frames + 1) loop.body inside
          rw [hBody] at hStays
          have hParent :
              m'.store.parent? m.store.next = some m.current :=
            hStays.store.parent?_eq_some
              (Store.parent?_make_self _ _)
          apply unlessLost_backTo
          apply loop.execAll_after rounds frames
          have hWithin : m' = { m' with current := m.store.next } :=
            congrArg (fun env => { m' with current := env })
              hStays.current
          exact ⟨rfl, hParent, hWithin⟩

theorem repeatWhile_passes (left : Nat) :
    unlessLost.Relates Eq (loop.passes rounds frames left)
      (repeatWhile (eval rounds (frames + 2) loop.test)
        (Lox.exec rounds (frames + 2)
          (.block (loop.body :: loop.after))) left) := by
  rw [eval_test]
  induction left with
  | zero => exact fun _ _ hSame => ⟨.inl rfl, hSame⟩
  | succ left ih =>
      apply (unlessLost_refl _).bind
      rintro value _ rfl
      refine Relates.ite .rfl ?_ (relates_pure rfl)
      apply (loop.exec_round rounds frames).bind
      rintro completion _ rfl
      cases completion with
      | returned value => exact relates_pure rfl
      | normal => exact ih

/-
  The statement of a loop is executed as the rule says, unless
  a name was lost.
-/
theorem exec_tree :
    unlessLost.Relates Eq (loop.exec rounds frames)
      (Lox.exec rounds (frames + 4) loop.tree) := by
  have hLoop :
      unlessLost.Relates Eq (loop.passes rounds frames rounds)
        (execAll (Lox.exec rounds (frames + 3))
          [.loop loop.test (.block (loop.body :: loop.after))]) := by
    rw [execAll_singleton]
    exact loop.repeatWhile_passes rounds frames rounds
  have hTree :
      Lox.exec rounds (frames + 4) loop.tree =
        inNewScope
          (execAll (Lox.exec rounds (frames + 3))
            (loop.initializer.toList ++
              [.loop loop.test
                (.block (loop.body :: loop.after))])) :=
    rfl
  rw [hTree]
  apply unlessLost_inNewScope
  cases loop.initializer with
  | none => exact hLoop
  | some initializer =>
      apply (unlessLost_refl _).bind
      rintro completion _ rfl
      cases completion with
      | returned value => exact relates_pure rfl
      | normal => exact hLoop

end ForLoop

end Lox
