import Lox.Proofs.Scope.Bare
import Lox.Proofs.Scope.Capture
import Lox.Proofs.Scope.Resolved

/-
  How far a tree looks.

  The numbers of scopes that a resolver fills in lead to scopes
  that there are. At the top level there are none, so that all
  numbers in a program lead to scopes within it and none of
  them leads to the globals. What is executed some scopes away
  from the globals, or is no declaration, is confined: it can
  declare nothing in the globals.

  Key definitions include:
    * `Expr.Bounded`
    * `Stmt.Bounded`
    * `Stmt.Confined`
    * `Stmt.IsTopLevel`
    * `topLevel_of_resolveProgram`
-/

------------------------------------------------------------
-- Bounded Trees
------------------------------------------------------------

namespace Lox

/- A number of scopes leads to one of the innermost `depth`. -/
def HopsBelow (depth : Nat) (hops : Option Nat) : Prop :=
  ∀ distance, hops = some distance → distance < depth

mutual

/-
  Whether all numbers of scopes in an expression lead to one of
  the innermost `depth` scopes around it.
-/
def Expr.Bounded (depth : Nat) : Expr → Prop
  | .literal _ => True
  | .variable _ hops => HopsBelow depth hops
  | .assign _ value hops =>
      value.Bounded depth ∧ HopsBelow depth hops
  | .binary left _ right =>
      left.Bounded depth ∧ right.Bounded depth
  | .logical left _ right =>
      left.Bounded depth ∧ right.Bounded depth
  | .unary _ operand => operand.Bounded depth
  | .grouping inner => inner.Bounded depth
  | .call callee _ args =>
      callee.Bounded depth ∧ Expr.ArgsBounded depth args

def Expr.ArgsBounded (depth : Nat) : List Expr → Prop
  | [] => True
  | arg :: args => arg.Bounded depth ∧ Expr.ArgsBounded depth args

end

mutual

/-
  The same of a statement. A block is a scope of its own, and a
  function two: that of the parameters and that of the body.
-/
def Stmt.Bounded : (depth : Nat) → Stmt → Prop
  | depth, .expression value => value.Bounded depth
  | depth, .print value => value.Bounded depth
  | _, .var _ none => True
  | depth, .var _ (some value) => value.Bounded depth
  | depth, .block body => Stmt.BodyBounded (depth + 1) body
  | depth, .ifThen condition thenBranch =>
      condition.Bounded depth ∧ thenBranch.Bounded depth
  | depth, .ifElse condition thenBranch elseBranch =>
      condition.Bounded depth ∧ thenBranch.Bounded depth ∧
        elseBranch.Bounded depth
  | depth, .loop condition body =>
      condition.Bounded depth ∧ body.Bounded depth
  | depth, .function _ _ body => Stmt.BodyBounded (depth + 2) body
  | _, .ret _ none => True
  | depth, .ret _ (some value) => value.Bounded depth

def Stmt.BodyBounded : (depth : Nat) → List Stmt → Prop
  | _, [] => True
  | depth, stmt :: body =>
      stmt.Bounded depth ∧ Stmt.BodyBounded depth body

end

theorem Expr.argsBounded_iff
    {depth : Nat}
    {args : List Expr} :
    Expr.ArgsBounded depth args ↔
      ∀ arg ∈ args, arg.Bounded depth := by
  induction args with
  | nil => simp [Expr.ArgsBounded]
  | cons arg args ih => simp [Expr.ArgsBounded, ih]

theorem Stmt.bodyBounded_iff
    {depth : Nat}
    {body : List Stmt} :
    Stmt.BodyBounded depth body ↔
      ∀ stmt ∈ body, stmt.Bounded depth := by
  induction body with
  | nil => simp [Stmt.BodyBounded]
  | cons stmt body ih => simp [Stmt.BodyBounded, ih]

end Lox

------------------------------------------------------------
-- Noted Trees Are Bounded
------------------------------------------------------------

namespace Lox

theorem LeadsToValue.hopsBelow
    {scopes : List Scope}
    {name : Token}
    {hops : Option Nat}
    (hLeads : LeadsToValue scopes name hops) :
    HopsBelow scopes.length hops := by
  intro distance hHops
  rcases hLeads distance hHops with ⟨scope, hScope, _⟩
  exact (List.getElem?_eq_some_iff.mp hScope).1

mutual

theorem Expr.Noted.bounded
    {e : Expr}
    {scopes : List Scope}
    {notes : Notes}
    (hNoted : e.Noted scopes notes) :
    e.Bounded scopes.length := by
  cases e with
  | literal value => exact trivial
  | «variable» name hops =>
      cases hNoted with
      | name hHops => exact hHops.hopsBelow
  | assign name value hops =>
      cases hNoted with
      | assign hValue hHops => exact ⟨hValue.bounded, hHops⟩
  | binary left op right =>
      cases hNoted with
      | binary hLeft hRight =>
          exact ⟨hLeft.bounded, hRight.bounded⟩
  | logical left op right =>
      cases hNoted with
      | logical hLeft hRight =>
          exact ⟨hLeft.bounded, hRight.bounded⟩
  | unary op operand =>
      cases hNoted with
      | unary hOperand => exact hOperand.bounded
  | grouping inner =>
      cases hNoted with
      | grouping hInner => exact hInner.bounded
  | call callee paren args =>
      cases hNoted with
      | call hCallee hArgs =>
          exact ⟨hCallee.bounded, Expr.argsBounded_of_noted hArgs⟩

theorem Expr.argsBounded_of_noted
    {args : List Expr}
    {scopes : List Scope}
    {others : List Notes}
    (hArgs : List.Forall₂ (Expr.Noted scopes) args others) :
    Expr.ArgsBounded scopes.length args := by
  cases args with
  | nil => exact trivial
  | cons arg args =>
      cases hArgs with
      | cons hFirst hRest =>
          exact ⟨hFirst.bounded, Expr.argsBounded_of_noted hRest⟩

end

mutual

theorem Stmt.Noted.bounded
    {s : Stmt}
    {scopes next : List Scope}
    {notes : Notes}
    (hNoted : s.Noted scopes notes next) :
    s.Bounded scopes.length := by
  cases s with
  | expression value =>
      cases hNoted with
      | expression hValue => exact hValue.bounded
  | print value =>
      cases hNoted with
      | print hValue => exact hValue.bounded
  | var name initializer =>
      cases hNoted with
      | plain hNew => exact trivial
      | initialized hNew hValue =>
          have hBounded := hValue.bounded
          rwa [length_enterScope] at hBounded
  | block body =>
      cases hNoted with
      | block hBody => exact hBody.bounded
  | ifThen condition thenBranch =>
      cases hNoted with
      | ifThen hCondition hThen =>
          exact ⟨hCondition.bounded, hThen.bounded⟩
  | ifElse condition thenBranch elseBranch =>
      cases hNoted with
      | ifElse hCondition hThen hElse =>
          exact ⟨hCondition.bounded, hThen.bounded, hElse.bounded⟩
  | loop condition body =>
      cases hNoted with
      | loop hCondition hBody =>
          exact ⟨hCondition.bounded, hBody.bounded⟩
  | function name params body =>
      cases hNoted with
      | function hNew hParams hBody =>
          have hBounded := hBody.bounded
          simp only [List.length_cons, length_declareScope]
            at hBounded
          exact hBounded
  | ret keyword value =>
      cases hNoted with
      | plainRet => exact trivial
      | ret hValue => exact hValue.bounded

theorem Stmt.BodyNoted.bounded
    {body : List Stmt}
    {scopes : List Scope}
    {notes : List Notes}
    (hNoted : Stmt.BodyNoted scopes body notes) :
    Stmt.BodyBounded scopes.length body := by
  cases body with
  | nil => exact trivial
  | cons stmt body =>
      cases hNoted with
      | cons hFirst hRest =>
          refine ⟨hFirst.bounded, ?_⟩
          have hBounded := hRest.bounded
          rwa [hFirst.length_next] at hBounded

end

end Lox

------------------------------------------------------------
-- Trees Without Numbers
------------------------------------------------------------

namespace Lox

theorem Stmt.bareBody_eq_map (body : List Stmt) :
    Stmt.bareBody body = body.map Stmt.bare := by
  induction body with
  | nil => rfl
  | cons stmt body ih => rw [Stmt.bareBody, List.map_cons, ih]

/- The numbers of scopes change nothing about declarations. -/
theorem Stmt.declared?_bare (s : Stmt) :
    s.bare.declared? = s.declared? := by
  cases s with
  | var name initializer => cases initializer <;> rfl
  | ret keyword value => cases value <;> rfl
  | _ => rfl

theorem Stmt.isPlain_bare (s : Stmt) :
    s.bare.IsPlain ↔ s.IsPlain := by
  cases s with
  | var name initializer => cases initializer <;> exact .rfl
  | ret keyword value => cases value <;> exact .rfl
  | _ => exact .rfl

mutual

theorem Stmt.placed_bare (s : Stmt) :
    s.bare.Placed ↔ s.Placed := by
  cases s with
  | var name initializer => cases initializer <;> exact .rfl
  | ret keyword value => cases value <;> exact .rfl
  | block body => exact Stmt.placedBody_bare body
  | function name params body => exact Stmt.placedBody_bare body
  | ifThen condition thenBranch =>
      exact
        and_congr (Stmt.isPlain_bare thenBranch)
          (Stmt.placed_bare thenBranch)
  | ifElse condition thenBranch elseBranch =>
      exact
        and_congr
          (and_congr (Stmt.isPlain_bare thenBranch)
            (Stmt.placed_bare thenBranch))
          (and_congr (Stmt.isPlain_bare elseBranch)
            (Stmt.placed_bare elseBranch))
  | loop condition body =>
      exact
        and_congr (Stmt.isPlain_bare body) (Stmt.placed_bare body)
  | expression value => exact .rfl
  | print value => exact .rfl

theorem Stmt.placedBody_bare (body : List Stmt) :
    Stmt.PlacedBody (Stmt.bareBody body) ↔
      Stmt.PlacedBody body := by
  cases body with
  | nil => exact .rfl
  | cons stmt body =>
      exact
        and_congr (Stmt.placed_bare stmt)
          (Stmt.placedBody_bare body)

end

end Lox

------------------------------------------------------------
-- Confined Statements
------------------------------------------------------------

namespace Lox

/-
  A statement that is executed `depth` scopes away from the
  globals and can declare nothing in them: at the top level
  neither it nor a branch of it is a declaration.
-/
structure Stmt.Confined (depth : Nat) (s : Stmt) : Prop where
  bounded : s.Bounded depth
  plain : depth = 0 → s.IsPlain ∧ s.Placed

/-
  A statement of the top level. It may be a declaration, but
  no branch of it is one.
-/
structure Stmt.IsTopLevel (s : Stmt) : Prop where
  bounded : s.Bounded 0
  placed : s.Placed

theorem Stmt.isPlain_of_not_declared
    {s : Stmt}
    (hNone : s.declared? = none) :
    s.IsPlain := by
  cases s with
  | var name initializer => cases hNone
  | function name params body => cases hNone
  | _ => exact trivial

namespace Stmt

variable {depth : Nat}

theorem IsTopLevel.confined
    {s : Stmt}
    (hTop : s.IsTopLevel)
    (hNone : s.declared? = none) :
    s.Confined 0 :=
  ⟨hTop.bounded, fun _ => ⟨isPlain_of_not_declared hNone, hTop.placed⟩⟩

namespace Confined

/- In a block nothing is declared in the globals. -/
theorem of_mem
    {body : List Stmt}
    (hBody : Stmt.BodyBounded (depth + 1) body)
    {stmt : Stmt}
    (hMem : stmt ∈ body) :
    stmt.Confined (depth + 1) :=
  ⟨bodyBounded_iff.mp hBody stmt hMem, fun hTop => by cases hTop⟩

variable {condition : Expr} {thenBranch elseBranch body : Stmt}

theorem chosen
    (hConfined : Confined depth (.ifThen condition thenBranch)) :
    thenBranch.Confined depth :=
  ⟨hConfined.bounded.2, fun hTop => (hConfined.plain hTop).2⟩

theorem chosenThen
    (hConfined :
      Confined depth (.ifElse condition thenBranch elseBranch)) :
    thenBranch.Confined depth :=
  ⟨hConfined.bounded.2.1, fun hTop => (hConfined.plain hTop).2.1⟩

theorem chosenElse
    (hConfined :
      Confined depth (.ifElse condition thenBranch elseBranch)) :
    elseBranch.Confined depth :=
  ⟨hConfined.bounded.2.2, fun hTop => (hConfined.plain hTop).2.2⟩

theorem repeated
    (hConfined : Confined depth (.loop condition body)) :
    body.Confined depth :=
  ⟨hConfined.bounded.2, fun hTop => (hConfined.plain hTop).2⟩

end Confined

end Stmt

end Lox

------------------------------------------------------------
-- Programs
------------------------------------------------------------

namespace Lox

/-
  The statements of a program that has been read with no error
  and resolved, and what they declare.
-/
theorem topLevel_of_resolveProgram
    {limits : Limits}
    {tokens : List Token}
    {resolved : Resolved}
    (hErrors : (parse limits tokens).errors = [])
    (hResolve :
      resolveProgram (parse limits tokens).program =
        .ok resolved) :
    (∀ stmt ∈ resolved.program, stmt.IsTopLevel) ∧
      (parse limits tokens).program =
        resolved.program.map Stmt.bare := by
  have hBare :
      Stmt.bareBody resolved.program =
        (parse limits tokens).program := by
    rw [bare_of_resolveProgram hResolve]
    exact bare_of_parse hErrors
  have hPlaced : Stmt.PlacedBody resolved.program := by
    rw [← Stmt.placedBody_bare, hBare]
    exact placed_of_parse hErrors
  rcases
    exists_noted_of_resolveProgram (placed_of_parse hErrors)
      hResolve with
    ⟨notes, hNoted⟩
  have hBounded : Stmt.BodyBounded 0 resolved.program :=
    hNoted.bounded
  rw [← Stmt.bareBody_eq_map]
  refine ⟨?_, hBare.symm⟩
  intro stmt hMem
  refine ⟨Stmt.bodyBounded_iff.mp hBounded stmt hMem, ?_⟩
  exact Stmt.placedBody_iff.mp hPlaced stmt hMem

end Lox
