import Lox.Proofs.Scope.Composition

/-
  Where returns stand.

  The resolver refuses a `return` outside of a function. So in
  a program that is resolved every `return` stands in the body
  of a function: statements that are executed without a call
  have none.

  Key definitions include:
    * `Stmt.ReturnFree`
    * `returnFree_of_resolveProgram`
-/

------------------------------------------------------------
-- Statements Without Returns
------------------------------------------------------------

namespace Lox

mutual

/-
  Whether a statement returns only inside the functions that
  it declares.
-/
def Stmt.ReturnFree : Stmt → Prop
  | .ret _ _ => False
  | .block body => Stmt.BodyReturnFree body
  | .ifThen _ thenBranch => thenBranch.ReturnFree
  | .ifElse _ thenBranch elseBranch =>
      thenBranch.ReturnFree ∧ elseBranch.ReturnFree
  | .loop _ body => body.ReturnFree
  | _ => True

def Stmt.BodyReturnFree : List Stmt → Prop
  | [] => True
  | stmt :: body => stmt.ReturnFree ∧ Stmt.BodyReturnFree body

end

theorem Stmt.BodyReturnFree.of_mem
    {body : List Stmt}
    (hBody : Stmt.BodyReturnFree body)
    {stmt : Stmt}
    (hMem : stmt ∈ body) :
    stmt.ReturnFree := by
  induction body with
  | nil => cases hMem
  | cons first body ih =>
      rcases List.mem_cons.mp hMem with rfl | hMem
      · exact hBody.1
      · exact ih hBody.2 hMem

end Lox

------------------------------------------------------------
-- Resolution Outside Of Functions
------------------------------------------------------------

namespace Lox

open Resolver Resolution

variable {r : Resolver}

theorem Resolution.Gives.and
    {α : Type}
    {step : Resolution α}
    {P Q : α → Resolver → Prop}
    (hFirst : step.Gives r P)
    (hSecond : step.Gives r Q) :
    step.Gives r fun a u => P a u ∧ Q a u :=
  gives_iff.mpr fun _ _ hRun => ⟨hFirst.post hRun, hSecond.post hRun⟩

/- What follows a step outside of functions is outside too. -/
theorem Resolution.LeavesAround.outside
    {α : Type}
    {step : Resolution α}
    (hStep : step.LeavesAround)
    (hOutside : r.enclosing = .none) :
    step.Gives r fun _ u => u.enclosing = .none := by
  apply (hStep r).mono
  intro _ u hAround
  exact hAround.enclosing.trans hOutside

/- There no `return` is let through. -/
theorem Resolver.gives_checkReturn_outside
    (keyword : Token)
    (hOutside : r.enclosing = .none) :
    (checkReturn keyword).Gives r fun _ _ => False := by
  unfold Gives checkReturn
  rw [hOutside]
  exact trivial

mutual

theorem Stmt.gives_returnFree
    (s : Stmt)
    {r : Resolver}
    (hOutside : r.enclosing = .none) :
    s.resolve.Gives r fun filled _ => filled.ReturnFree := by
  cases s with
  | expression value | print value =>
      rw [Stmt.resolve]
      apply (gives_any _ r).bind
      intro value _ _
      exact gives_pure trivial
  | var name initializer =>
      cases initializer with
      | none =>
          rw [Stmt.resolve]
          apply (gives_any _ r).bind
          intro _ u _
          apply (gives_any _ u).bind
          intro _ _ _
          exact gives_pure trivial
      | some value =>
          rw [Stmt.resolve]
          apply (gives_any _ r).bind
          intro _ u _
          apply (gives_any _ u).bind
          intro value v _
          apply (gives_any _ v).bind
          intro _ _ _
          exact gives_pure trivial
  | block body =>
      rw [Stmt.resolve]
      have hBody :
          (within (Stmt.resolveBody body)).Gives r
            fun filled _ => Stmt.BodyReturnFree filled :=
        Gives.within (Stmt.gives_bodyReturnFree body hOutside)
      apply hBody.bind
      intro body _ hFree
      exact gives_pure hFree
  | ifThen condition thenBranch =>
      rw [Stmt.resolve]
      apply (condition.leaves_around.outside hOutside).bind
      intro condition u hOutside
      apply (thenBranch.gives_returnFree hOutside).bind
      intro thenBranch _ hFree
      exact gives_pure hFree
  | ifElse condition thenBranch elseBranch =>
      rw [Stmt.resolve]
      apply (condition.leaves_around.outside hOutside).bind
      intro condition u hOutside
      have hThen := thenBranch.gives_returnFree hOutside
      have hAfter := thenBranch.leaves_around.outside hOutside
      apply (hThen.and hAfter).bind
      rintro thenBranch v ⟨hFree, hOutside⟩
      apply (elseBranch.gives_returnFree hOutside).bind
      intro elseBranch _ hFree'
      exact gives_pure ⟨hFree, hFree'⟩
  | loop condition body =>
      rw [Stmt.resolve]
      apply (condition.leaves_around.outside hOutside).bind
      intro condition u hOutside
      apply (body.gives_returnFree hOutside).bind
      intro body _ hFree
      exact gives_pure hFree
  | function name params body =>
      rw [Stmt.resolve]
      apply (gives_any _ r).bind
      intro _ u _
      apply (gives_any _ u).bind
      intro _ v _
      apply (gives_any _ v).bind
      intro body _ _
      exact gives_pure trivial
  | ret keyword value =>
      have hRefused := gives_checkReturn_outside keyword hOutside
      cases value with
      | none =>
          rw [Stmt.resolve]
          exact hRefused.bind fun _ _ hFalse => hFalse.elim
      | some value =>
          rw [Stmt.resolve]
          exact hRefused.bind fun _ _ hFalse => hFalse.elim

theorem Stmt.gives_bodyReturnFree
    (body : List Stmt)
    {r : Resolver}
    (hOutside : r.enclosing = .none) :
    (Stmt.resolveBody body).Gives r
      fun filled _ => Stmt.BodyReturnFree filled := by
  cases body with
  | nil =>
      rw [Stmt.resolveBody]
      exact gives_pure trivial
  | cons stmt body =>
      rw [Stmt.resolveBody]
      have hFirst := stmt.gives_returnFree hOutside
      have hAfter := stmt.leaves_around.outside hOutside
      apply (hFirst.and hAfter).bind
      rintro stmt u ⟨hFree, hOutside⟩
      apply (Stmt.gives_bodyReturnFree body hOutside).bind
      intro body _ hFree'
      exact gives_pure ⟨hFree, hFree'⟩

end

/- A resolved program returns only inside of functions. -/
theorem returnFree_of_resolveProgram
    {program : List Stmt}
    {resolved : Resolved}
    (hResolve : resolveProgram program = .ok resolved) :
    Stmt.BodyReturnFree resolved.program := by
  have hBody :
      (Stmt.resolveBody program).Gives {}
        fun filled _ => Stmt.BodyReturnFree filled :=
    Stmt.gives_bodyReturnFree program rfl
  rcases exists_run_of_resolveProgram hResolve with ⟨_, hRun, _⟩
  exact hBody.post hRun

end Lox
