import Lox.Proofs.Coupling
import Lox.Proofs.Scope.Renaming

/-
  Expressions one scope further in.

  Where a scope that declares nothing lies around an expression,
  its names are found as they are without this scope, and each
  number of scopes is larger by one.

  Key definitions include:
    * `Expr.inward`
    * `Coupling.inward`
    * `Expr.resolve_inward`
-/

------------------------------------------------------------
-- One Scope More
------------------------------------------------------------

namespace Lox

mutual

/- An expression with one scope more around it. -/
def Expr.inward : Expr → Expr
  | .literal value => .literal value
  | .variable name hops => .variable name (deeper 1 hops)
  | .assign name value hops =>
      .assign name value.inward (deeper 1 hops)
  | .binary left op right => .binary left.inward op right.inward
  | .logical left op right => .logical left.inward op right.inward
  | .unary op operand => .unary op operand.inward
  | .grouping inner => .grouping inner.inward
  | .call callee paren args =>
      .call callee.inward paren (Expr.inwardArgs args)

def Expr.inwardArgs : List Expr → List Expr
  | [] => []
  | arg :: args => arg.inward :: Expr.inwardArgs args

end

/-
  Two resolvers of which the second one has entered a scope
  that is still empty. In the scope around it no name is on its
  way to be initialized, and both have recorded as much.
-/
structure Resolver.Entered (r r' : Resolver) : Prop where
  scopes : r'.scopes = [] :: r.scopes
  settled : ∀ scope ∈ r.scopes.head?, scope.IsSettled
  enclosing : r'.enclosing = r.enclosing
  recorded : r'.recorded.size = r.recorded.size

/- Resolvers in a scope and in an empty one within it. -/
def Coupling.inward : Coupling ScopeError Resolver where
  states := Resolver.Entered
  errors e e' := e' = e

namespace Resolver

open Coupling

theorem hopsTo?_inward (scopes : List Scope) (name : String) :
    hopsTo? ([] :: scopes) name = deeper 1 (hopsTo? scopes name) := by
  unfold hopsTo? deeper
  rw [List.findIdx?_cons]
  rfl

/- A name that can be read in a scope can be read in the other. -/
theorem checkReadable_inward (name : Token) :
    Coupling.inward.Relates Eq (checkReadable name)
      (checkReadable name) := by
  intro r r' hEntered
  have hInner :
      r'.scopes.head?.any (·.isPending name.lexeme) = false := by
    rw [hEntered.scopes]
    rfl
  have hOuter :
      r.scopes.head?.any (·.isPending name.lexeme) = false := by
    cases hScope : r.scopes.head? with
    | none => rfl
    | some scope => exact hEntered.settled scope hScope name.lexeme
  unfold checkReadable
  rw [hInner, hOuter]
  exact ⟨rfl, hEntered⟩

theorem locate_inward (name : Token) :
    Coupling.inward.Relates (fun hops hops' => hops' = deeper 1 hops)
      (locate name) (locate name) := by
  intro r r' hEntered
  have hHops := hopsTo?_inward r.scopes name.lexeme
  unfold locate
  rw [hEntered.scopes, hHops]
  cases hopsTo? r.scopes name.lexeme with
  | none => exact ⟨rfl, hEntered⟩
  | some hops =>
      refine
        ⟨rfl, rfl, hEntered.settled, hEntered.enclosing, ?_⟩
      simp [hEntered.recorded]

end Resolver

end Lox

------------------------------------------------------------
-- Resolving Further In
------------------------------------------------------------

namespace Lox

open Resolver Coupling

mutual

/- An expression is resolved in both, and further in in one. -/
theorem Expr.resolve_inward (e : Expr) :
    Coupling.inward.Relates (fun e e' => e' = e.inward) e.resolve
      e.resolve := by
  cases e with
  | literal value =>
      rw [Expr.resolve]
      exact relates_pure rfl
  | «variable» name hops =>
      rw [Expr.resolve]
      apply (checkReadable_inward name).bind
      intro _ _ _
      apply (locate_inward name).bind
      rintro found _ rfl
      exact relates_pure rfl
  | assign name value hops =>
      rw [Expr.resolve]
      apply value.resolve_inward.bind
      rintro value' _ rfl
      apply (locate_inward name).bind
      rintro found _ rfl
      exact relates_pure rfl
  | binary left op right =>
      rw [Expr.resolve]
      apply left.resolve_inward.bind
      rintro left' _ rfl
      apply right.resolve_inward.bind
      rintro right' _ rfl
      exact relates_pure rfl
  | logical left op right =>
      rw [Expr.resolve]
      apply left.resolve_inward.bind
      rintro left' _ rfl
      apply right.resolve_inward.bind
      rintro right' _ rfl
      exact relates_pure rfl
  | unary op operand =>
      rw [Expr.resolve]
      apply operand.resolve_inward.bind
      rintro operand' _ rfl
      exact relates_pure rfl
  | grouping inner =>
      rw [Expr.resolve]
      apply inner.resolve_inward.bind
      rintro inner' _ rfl
      exact relates_pure rfl
  | call callee paren args =>
      rw [Expr.resolve]
      apply callee.resolve_inward.bind
      rintro callee' _ rfl
      apply (Expr.resolveArgs_inward args).bind
      rintro args' _ rfl
      exact relates_pure rfl

theorem Expr.resolveArgs_inward (args : List Expr) :
    Coupling.inward.Relates
      (fun args args' => args' = Expr.inwardArgs args)
      (Expr.resolveArgs args) (Expr.resolveArgs args) := by
  cases args with
  | nil => exact relates_pure rfl
  | cons arg args =>
      rw [Expr.resolveArgs]
      apply arg.resolve_inward.bind
      rintro arg' _ rfl
      apply (Expr.resolveArgs_inward args).bind
      rintro args' _ rfl
      exact relates_pure rfl

end

end Lox
