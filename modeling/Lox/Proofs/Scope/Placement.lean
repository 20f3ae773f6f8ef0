import Lox.Proofs.Grammar.Recognition

/-
  Where declarations stand.

  In a program that has been read with no error a declaration
  is always one of a list of declarations: of the program, a
  block or the body of a function. The branches of an `if` and
  the body of a loop are statements of another kind.

  Key definitions include:
    * `Stmt.IsPlain`
    * `Stmt.Placed`
    * `placed_of_parse`
-/

------------------------------------------------------------
-- Plain Statements
------------------------------------------------------------

namespace Lox

/- Whether a statement declares nothing in its own scope. -/
def Stmt.IsPlain : Stmt → Prop
  | .var _ _ => False
  | .function _ _ _ => False
  | _ => True

mutual

/- Whether all declarations in a statement stand in lists. -/
def Stmt.Placed : Stmt → Prop
  | .block body => Stmt.PlacedBody body
  | .ifThen _ thenBranch =>
      thenBranch.IsPlain ∧ thenBranch.Placed
  | .ifElse _ thenBranch elseBranch =>
      (thenBranch.IsPlain ∧ thenBranch.Placed) ∧
        elseBranch.IsPlain ∧ elseBranch.Placed
  | .loop _ body => body.IsPlain ∧ body.Placed
  | .function _ _ body => Stmt.PlacedBody body
  | _ => True

def Stmt.PlacedBody : List Stmt → Prop
  | [] => True
  | stmt :: body => stmt.Placed ∧ Stmt.PlacedBody body

end

theorem Stmt.placedBody_iff
    {body : List Stmt} :
    Stmt.PlacedBody body ↔ ∀ stmt ∈ body, stmt.Placed := by
  induction body with
  | nil => simp [Stmt.PlacedBody]
  | cons stmt body ih => simp [Stmt.PlacedBody, ih]

theorem Stmt.placedBody_append
    {body others : List Stmt}
    (hBody : Stmt.PlacedBody body)
    (hOthers : Stmt.PlacedBody others) :
    Stmt.PlacedBody (body ++ others) := by
  induction body with
  | nil => exact hOthers
  | cons stmt body ih => exact ⟨hBody.1, ih hBody.2⟩

end Lox

------------------------------------------------------------
-- Derived Programs
------------------------------------------------------------

namespace Lox

/- A declaration of a variable has no statements within it. -/
theorem Stmt.VariableDerives.placed
    {s : Stmt}
    {tokens : List Token}
    (hVariable : s.VariableDerives tokens) :
    s.Placed := by
  cases hVariable <;> exact trivial

theorem Stmt.ExpressionDerives.placed
    {s : Stmt}
    {tokens : List Token}
    (hExpression : s.ExpressionDerives tokens) :
    s.IsPlain ∧ s.Placed := by
  cases hExpression
  exact ⟨trivial, trivial⟩

/- What a `for` loop does first stands in a list of its own. -/
theorem Stmt.InitializerDerives.placed
    {initializer : Option Stmt}
    {tokens : List Token}
    (hInitializer :
      Stmt.InitializerDerives initializer tokens) :
    Stmt.PlacedBody initializer.toList := by
  cases hInitializer with
  | none => exact trivial
  | var _ hVariable => exact ⟨hVariable.placed, trivial⟩
  | expression hExpression =>
      exact ⟨hExpression.placed.2, trivial⟩

theorem placed_forLoop
    {initializer : Option Stmt}
    {condition : Expr}
    {increment : Option Expr}
    {body : Stmt}
    (hInitializer : Stmt.PlacedBody initializer.toList)
    (hBody : body.Placed) :
    (Grammar.forLoop initializer condition increment
      body).Placed := by
  apply Stmt.placedBody_append hInitializer
  refine ⟨⟨trivial, hBody, ?_⟩, trivial⟩
  cases increment <;> exact (by simp [Stmt.PlacedBody, Stmt.Placed])

/- What a part of a program is known to be. -/
def Clause.WellPlaced : Clause → Prop
  | .statement _ s => s.IsPlain ∧ s.Placed
  | .declaration s => s.Placed
  | .declarations body => Stmt.PlacedBody body

theorem Clause.Derives.wellPlaced
    {clause : Clause}
    {tokens : List Token}
    (hDerives : clause.Derives tokens) :
    clause.WellPlaced := by
  induction hDerives with
  | expression hExpression => exact hExpression.placed
  | print => exact ⟨trivial, trivial⟩
  | ret => exact ⟨trivial, trivial⟩
  | block _ _ _ ih => exact ⟨trivial, ih⟩
  | ifThen _ _ _ _ _ ih => exact ⟨trivial, ih⟩
  | ifElse _ _ _ _ _ _ _ ihThen ihElse =>
      exact ⟨trivial, ihThen, ihElse⟩
  | whileLoop _ _ _ _ _ ih => exact ⟨trivial, ih⟩
  | forLoop _ _ hInitializer _ _ _ _ _ ih =>
      exact ⟨trivial, placed_forLoop hInitializer.placed ih.2⟩
  | plain _ ih => exact ih.2
  | var _ hVariable => exact hVariable.placed
  | function _ _ _ _ _ _ _ _ ih => exact ih
  | done => exact trivial
  | next _ _ ihFirst ihRest => exact ⟨ihFirst, ihRest⟩

/- A program that is read with no error is well placed. -/
theorem placed_of_parse
    {limits : Limits}
    {tokens : List Token}
    (hErrors : (parse limits tokens).errors = []) :
    Stmt.PlacedBody (parse limits tokens).program :=
  (derives_of_parse hErrors).wellPlaced

end Lox
