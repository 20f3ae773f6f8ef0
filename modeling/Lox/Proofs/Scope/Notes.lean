import Lox.Proofs.Steps
import Lox.Scope.Resolver

/-
  What the resolver sees on its way.

  Resolution is repeated here with notes: for every node of
  the program it writes down the scopes that it has when it
  comes to the node. Without the notes it is resolution as it
  stands.

  Key definitions include:
    * `Notes`
    * `Expr.resolveNoting`
    * `Stmt.resolveNoting`
    * `resolveProgramNoting`
    * `resolveProgramNoting_erased`
-/

------------------------------------------------------------
-- Notes
------------------------------------------------------------

namespace Lox

/-
  The scopes that the resolver had when it came to a node, and
  the notes of the nodes within it, in the order of the text.
-/
inductive Notes where
  | node (scopes : List Scope) (inner : List Notes)

namespace Notes

/- The notes of a node that nothing is known of. -/
def blank : Notes :=
  .node [] []

def scopes : Notes → List Scope
  | node scopes _ => scopes

def inner : Notes → List Notes
  | node _ inner => inner

/- The notes of the node at a position within another one. -/
def child (notes : Notes) (index : Nat) : Notes :=
  (notes.inner[index]?).getD blank

end Notes

namespace Resolver

/- The scopes that enclose the place that has been reached. -/
def scopesHere : Resolution (List Scope) :=
  fun r => .ok r.scopes r

/- A step that comes to a node, with the notes of this node. -/
def noting
    {α : Type}
    (step : Resolution (α × List Notes)) :
    Resolution (α × Notes) := do
  let scopes ← scopesHere
  let (a, inner) ← step
  return (a, .node scopes inner)

end Resolver

end Lox

------------------------------------------------------------
-- Resolution With Notes
------------------------------------------------------------

namespace Lox

open Resolver

mutual

def Expr.resolveNoting : Expr → Resolution (Expr × Notes)
  | .literal value => noting do
    return (.literal value, [])
  | .variable name _ => noting do
    checkReadable name
    return (.variable name (← locate name), [])
  | .assign name value _ => noting do
    let (value, notes) ← value.resolveNoting
    return (.assign name value (← locate name), [notes])
  | .binary left op right => noting do
    let (left, lefts) ← left.resolveNoting
    let (right, rights) ← right.resolveNoting
    return (.binary left op right, [lefts, rights])
  | .logical left op right => noting do
    let (left, lefts) ← left.resolveNoting
    let (right, rights) ← right.resolveNoting
    return (.logical left op right, [lefts, rights])
  | .unary op operand => noting do
    let (operand, notes) ← operand.resolveNoting
    return (.unary op operand, [notes])
  | .grouping inner => noting do
    let (inner, notes) ← inner.resolveNoting
    return (.grouping inner, [notes])
  | .call callee paren args => noting do
    let (callee, notes) ← callee.resolveNoting
    let (args, others) ← Expr.resolveArgsNoting args
    return (.call callee paren args, notes :: others)

def Expr.resolveArgsNoting :
    List Expr → Resolution (List Expr × List Notes)
  | [] => return ([], [])
  | arg :: args => do
    let (arg, notes) ← arg.resolveNoting
    let (args, others) ← Expr.resolveArgsNoting args
    return (arg :: args, notes :: others)

end

mutual

def Stmt.resolveNoting : Stmt → Resolution (Stmt × Notes)
  | .expression value => noting do
    let (value, notes) ← value.resolveNoting
    return (.expression value, [notes])
  | .print value => noting do
    let (value, notes) ← value.resolveNoting
    return (.print value, [notes])
  | .var name none => noting do
    declare name
    define name
    return (.var name none, [])
  | .var name (some value) => noting do
    declare name
    let (value, notes) ← value.resolveNoting
    define name
    return (.var name (some value), [notes])
  | .block body => noting do
    let (body, notes) ← within (Stmt.resolveBodyNoting body)
    return (.block body, notes)
  | .ifThen condition thenBranch => noting do
    let (condition, notes) ← condition.resolveNoting
    let (thenBranch, thens) ← thenBranch.resolveNoting
    return (.ifThen condition thenBranch, [notes, thens])
  | .ifElse condition thenBranch elseBranch => noting do
    let (condition, notes) ← condition.resolveNoting
    let (thenBranch, thens) ← thenBranch.resolveNoting
    let (elseBranch, elses) ← elseBranch.resolveNoting
    return (.ifElse condition thenBranch elseBranch,
      [notes, thens, elses])
  | .loop condition body => noting do
    let (condition, notes) ← condition.resolveNoting
    let (body, others) ← body.resolveNoting
    return (.loop condition body, [notes, others])
  | .function name params body => noting do
    declare name
    define name
    let (body, notes) ← withinFunction (within do
      declareParams params
      within (Stmt.resolveBodyNoting body))
    return (.function name params body, notes)
  | .ret keyword none => noting do
    checkReturn keyword
    return (.ret keyword none, [])
  | .ret keyword (some value) => noting do
    checkReturn keyword
    let (value, notes) ← value.resolveNoting
    return (.ret keyword (some value), [notes])

def Stmt.resolveBodyNoting :
    List Stmt → Resolution (List Stmt × List Notes)
  | [] => return ([], [])
  | stmt :: body => do
    let (stmt, notes) ← stmt.resolveNoting
    let (body, others) ← Stmt.resolveBodyNoting body
    return (stmt :: body, notes :: others)

end

/- The resolved program with the notes of its statements. -/
def resolveProgramNoting
    (program : List Stmt) :
    Except ScopeError (Resolved × List Notes) :=
  match Stmt.resolveBodyNoting program {} with
  | .ok (program, notes) r =>
      .ok (⟨program, r.recorded.size⟩, notes)
  | .error e _ => .error e

end Lox

------------------------------------------------------------
-- Without The Notes
------------------------------------------------------------

namespace Lox

open Resolver

namespace Resolver

variable {α β : Type}

theorem map_noting (step : Resolution (α × List Notes)) :
    Prod.fst <$> noting step = Prod.fst <$> step := by
  simp only [noting, map_bind, map_pure]
  simp only [← bind_pure_comp]
  rfl

theorem map_within (f : α → β) (step : Resolution α) :
    f <$> within step = within (f <$> step) := by
  funext r
  simp only [Functor.map, EStateM.map, within]
  cases step { r with scopes := [] :: r.scopes } <;> rfl

theorem map_withinFunction (f : α → β) (step : Resolution α) :
    f <$> withinFunction step = withinFunction (f <$> step) := by
  funext r
  simp only [Functor.map, EStateM.map, withinFunction]
  cases step { r with enclosing := .function } <;> rfl

end Resolver

mutual

theorem Expr.resolveNoting_erased (e : Expr) :
    Prod.fst <$> e.resolveNoting = e.resolve := by
  cases e with
  | literal value =>
      rw [Expr.resolveNoting, Expr.resolve, map_noting]
      rfl
  | «variable» name hops =>
      rw [Expr.resolveNoting, Expr.resolve, map_noting]
      simp [map_bind]
  | assign name value hops =>
      rw [Expr.resolveNoting, Expr.resolve, map_noting,
        ← value.resolveNoting_erased]
      simp [map_bind]
  | binary left op right =>
      rw [Expr.resolveNoting, Expr.resolve, map_noting,
        ← left.resolveNoting_erased, ← right.resolveNoting_erased]
      simp [map_bind]
  | logical left op right =>
      rw [Expr.resolveNoting, Expr.resolve, map_noting,
        ← left.resolveNoting_erased, ← right.resolveNoting_erased]
      simp [map_bind]
  | unary op operand =>
      rw [Expr.resolveNoting, Expr.resolve, map_noting,
        ← operand.resolveNoting_erased]
      simp
  | grouping inner =>
      rw [Expr.resolveNoting, Expr.resolve, map_noting,
        ← inner.resolveNoting_erased]
      simp
  | call callee paren args =>
      rw [Expr.resolveNoting, Expr.resolve, map_noting,
        ← callee.resolveNoting_erased,
        ← Expr.resolveArgsNoting_erased args]
      simp [map_bind]

theorem Expr.resolveArgsNoting_erased (args : List Expr) :
    Prod.fst <$> Expr.resolveArgsNoting args =
      Expr.resolveArgs args := by
  cases args with
  | nil => rfl
  | cons arg args =>
      rw [Expr.resolveArgsNoting, Expr.resolveArgs,
        ← arg.resolveNoting_erased,
        ← Expr.resolveArgsNoting_erased args]
      simp [map_bind]

end

mutual

theorem Stmt.resolveNoting_erased (s : Stmt) :
    Prod.fst <$> s.resolveNoting = s.resolve := by
  cases s with
  | expression value =>
      rw [Stmt.resolveNoting, Stmt.resolve, map_noting,
        ← value.resolveNoting_erased]
      simp
  | print value =>
      rw [Stmt.resolveNoting, Stmt.resolve, map_noting,
        ← value.resolveNoting_erased]
      simp
  | var name initializer =>
      cases initializer with
      | none =>
          rw [Stmt.resolveNoting, Stmt.resolve, map_noting]
          simp [map_bind]
      | some value =>
          rw [Stmt.resolveNoting, Stmt.resolve, map_noting,
            ← value.resolveNoting_erased]
          simp [map_bind]
  | block body =>
      rw [Stmt.resolveNoting, Stmt.resolve, map_noting,
        ← Stmt.resolveBodyNoting_erased body, ← map_within]
      simp
  | ifThen condition thenBranch =>
      rw [Stmt.resolveNoting, Stmt.resolve, map_noting,
        ← condition.resolveNoting_erased,
        ← thenBranch.resolveNoting_erased]
      simp [map_bind]
  | ifElse condition thenBranch elseBranch =>
      rw [Stmt.resolveNoting, Stmt.resolve, map_noting,
        ← condition.resolveNoting_erased,
        ← thenBranch.resolveNoting_erased,
        ← elseBranch.resolveNoting_erased]
      simp [map_bind]
  | loop condition body =>
      rw [Stmt.resolveNoting, Stmt.resolve, map_noting,
        ← condition.resolveNoting_erased,
        ← body.resolveNoting_erased]
      simp [map_bind]
  | function name params body =>
      rw [Stmt.resolveNoting, Stmt.resolve, map_noting,
        ← Stmt.resolveBodyNoting_erased body, ← map_within,
        ← map_bind, ← map_within, ← map_withinFunction]
      simp [map_bind]
  | ret keyword value =>
      cases value with
      | none =>
          rw [Stmt.resolveNoting, Stmt.resolve, map_noting]
          simp
      | some value =>
          rw [Stmt.resolveNoting, Stmt.resolve, map_noting,
            ← value.resolveNoting_erased]
          simp [map_bind]

theorem Stmt.resolveBodyNoting_erased (body : List Stmt) :
    Prod.fst <$> Stmt.resolveBodyNoting body =
      Stmt.resolveBody body := by
  cases body with
  | nil => rfl
  | cons stmt body =>
      rw [Stmt.resolveBodyNoting, Stmt.resolveBody,
        ← stmt.resolveNoting_erased,
        ← Stmt.resolveBodyNoting_erased body]
      simp [map_bind]

end

/- Without its notes, this is the resolution of programs. -/
theorem resolveProgramNoting_erased (program : List Stmt) :
    (resolveProgramNoting program).map Prod.fst =
      resolveProgram program := by
  simp only [resolveProgramNoting, resolveProgram,
    ← Stmt.resolveBodyNoting_erased program, Functor.map,
    EStateM.map]
  cases Stmt.resolveBodyNoting program {} <;> rfl

end Lox
