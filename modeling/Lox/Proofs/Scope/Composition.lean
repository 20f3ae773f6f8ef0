import Lox.Proofs.Scope.Noted

/-
  What resolution is made of.

  Programs are resolved by a few small steps, one after
  another, in new scopes and inside of functions. A property
  that the small steps have, and that passes through these
  ways of putting them together, is one of every resolution.
  One such property: what is around a statement is left as it
  was, the outer scopes and the kind of the function, whether
  resolution ends well or stops at an error.

  Key definitions include:
    * `Resolution.Compositional`
    * `Resolution.Compositional.statements`
    * `Resolution.Restores`
    * `Resolution.LeavesAround`
    * `Stmt.leaves_around`
-/

------------------------------------------------------------
-- Compositional Properties
------------------------------------------------------------

namespace Lox.Resolution

open Resolver

/-
  A property of all small steps of resolution that passes from
  the parts to the whole.
-/
structure Compositional
    (P : (α : Type) → Resolution α → Prop) :
    Prop where
  pure {α : Type} (a : α) : P α (pure a)
  declare (name : Token) : P Unit (declare name)
  define (name : Token) : P Unit (define name)
  checkReadable (name : Token) : P Unit (checkReadable name)
  checkReturn (keyword : Token) : P Unit (checkReturn keyword)
  locate (name : Token) : P (Option Nat) (locate name)
  bind {α β : Type} {step : Resolution α}
    {next : α → Resolution β}
    (hStep : P α step)
    (hNext : ∀ a, P β (next a)) :
    P β (step >>= next)
  within {α : Type} {step : Resolution α}
    (hStep : P α step) :
    P α (within step)
  withinFunction {α : Type} {step : Resolution α}
    (hStep : P α step) :
    P α (withinFunction step)

namespace Compositional

variable {P : (α : Type) → Resolution α → Prop}
variable (hP : Compositional P)

include hP

theorem declareParams (params : List Token) :
    P Unit (declareParams params) := by
  induction params with
  | nil => exact hP.pure _
  | cons param params ih =>
      apply hP.bind (hP.declare param)
      intro _
      apply hP.bind (hP.define param)
      intro _
      exact ih

/- The body of a function, within its parameters. -/
theorem function
    {α : Type}
    {body : Resolution α}
    (hBody : P α body)
    (params : List Token) :
    P α (Resolver.withinFunction (Resolver.within do
      Resolver.declareParams params
      Resolver.within body)) := by
  apply hP.withinFunction
  apply hP.within
  apply hP.bind (hP.declareParams params)
  intro _
  exact hP.within hBody

end Compositional

end Lox.Resolution

------------------------------------------------------------
-- Expressions And Statements
------------------------------------------------------------

namespace Lox.Resolution.Compositional

variable {P : (α : Type) → Resolution α → Prop}
variable (hP : Compositional P)

include hP

mutual

theorem expressions (e : Expr) : P Expr e.resolve := by
  cases e with
  | literal value =>
      rw [Expr.resolve]
      exact hP.pure _
  | «variable» name hops =>
      rw [Expr.resolve]
      apply hP.bind (hP.checkReadable name)
      intro _
      apply hP.bind (hP.locate name)
      intro hops
      exact hP.pure _
  | assign name value hops =>
      rw [Expr.resolve]
      apply hP.bind (expressions value)
      intro value
      apply hP.bind (hP.locate name)
      intro hops
      exact hP.pure _
  | binary left op right | logical left op right =>
      rw [Expr.resolve]
      apply hP.bind (expressions left)
      intro left
      apply hP.bind (expressions right)
      intro right
      exact hP.pure _
  | unary op operand | grouping operand =>
      rw [Expr.resolve]
      apply hP.bind (expressions operand)
      intro operand
      exact hP.pure _
  | call callee paren args =>
      rw [Expr.resolve]
      apply hP.bind (expressions callee)
      intro callee
      apply hP.bind (arguments args)
      intro args
      exact hP.pure _

theorem arguments (args : List Expr) :
    P (List Expr) (Expr.resolveArgs args) := by
  cases args with
  | nil =>
      rw [Expr.resolveArgs]
      exact hP.pure _
  | cons arg args =>
      rw [Expr.resolveArgs]
      apply hP.bind (expressions arg)
      intro arg
      apply hP.bind (arguments args)
      intro args
      exact hP.pure _

end

mutual

/- All resolutions have the property. -/
theorem statements (s : Stmt) : P Stmt s.resolve := by
  cases s with
  | expression value | print value =>
      rw [Stmt.resolve]
      apply hP.bind (hP.expressions value)
      intro value
      exact hP.pure _
  | var name initializer =>
      cases initializer with
      | none =>
          rw [Stmt.resolve]
          apply hP.bind (hP.declare name)
          intro _
          apply hP.bind (hP.define name)
          intro _
          exact hP.pure _
      | some value =>
          rw [Stmt.resolve]
          apply hP.bind (hP.declare name)
          intro _
          apply hP.bind (hP.expressions value)
          intro value
          apply hP.bind (hP.define name)
          intro _
          exact hP.pure _
  | block body =>
      rw [Stmt.resolve]
      apply hP.bind (hP.within (bodies body))
      intro body
      exact hP.pure _
  | ifThen condition thenBranch =>
      rw [Stmt.resolve]
      apply hP.bind (hP.expressions condition)
      intro condition
      apply hP.bind (statements thenBranch)
      intro thenBranch
      exact hP.pure _
  | ifElse condition thenBranch elseBranch =>
      rw [Stmt.resolve]
      apply hP.bind (hP.expressions condition)
      intro condition
      apply hP.bind (statements thenBranch)
      intro thenBranch
      apply hP.bind (statements elseBranch)
      intro elseBranch
      exact hP.pure _
  | loop condition body =>
      rw [Stmt.resolve]
      apply hP.bind (hP.expressions condition)
      intro condition
      apply hP.bind (statements body)
      intro body
      exact hP.pure _
  | function name params body =>
      rw [Stmt.resolve]
      apply hP.bind (hP.declare name)
      intro _
      apply hP.bind (hP.define name)
      intro _
      apply hP.bind (hP.function (bodies body) params)
      intro body
      exact hP.pure _
  | ret keyword value =>
      cases value with
      | none =>
          rw [Stmt.resolve]
          apply hP.bind (hP.checkReturn keyword)
          intro _
          exact hP.pure _
      | some value =>
          rw [Stmt.resolve]
          apply hP.bind (hP.checkReturn keyword)
          intro _
          apply hP.bind (hP.expressions value)
          intro value
          exact hP.pure _

theorem bodies (body : List Stmt) :
    P (List Stmt) (Stmt.resolveBody body) := by
  cases body with
  | nil =>
      rw [Stmt.resolveBody]
      exact hP.pure _
  | cons stmt body =>
      rw [Stmt.resolveBody]
      apply hP.bind (statements stmt)
      intro stmt
      apply hP.bind (bodies body)
      intro body
      exact hP.pure _

end

end Lox.Resolution.Compositional

------------------------------------------------------------
-- What Is Around
------------------------------------------------------------

namespace Lox

open Resolver Resolution

/-
  Two resolvers with the same surroundings: the scopes but for
  the innermost one, and the kind of the function.
-/
structure Resolver.SameAround (r u : Resolver) : Prop where
  scopes : u.scopes.tail = r.scopes.tail
  enclosing : u.enclosing = r.enclosing

namespace Resolver.SameAround

variable {r u v : Resolver}

theorem refl (r : Resolver) : r.SameAround r :=
  ⟨rfl, rfl⟩

theorem trans
    (hFirst : r.SameAround u)
    (hSecond : u.SameAround v) :
    r.SameAround v :=
  ⟨hSecond.scopes.trans hFirst.scopes,
    hSecond.enclosing.trans hFirst.enclosing⟩

theorem enter
    (r : Resolver)
    (name : String)
    (initialized : Bool) :
    r.SameAround (r.enter name initialized) := by
  constructor
  · rw [scopes_enter, tail_enterScope]
  · unfold Resolver.enter
    split <;> rfl

end Resolver.SameAround

/- A resolver with as many scopes in the same surroundings. -/
structure Resolver.Stays (r u : Resolver) : Prop
    extends SameAround r u where
  depth : u.scopes.length = r.scopes.length

namespace Resolver.Stays

variable {r u v : Resolver}

theorem refl (r : Resolver) : r.Stays r :=
  ⟨.refl r, rfl⟩

theorem trans (hFirst : r.Stays u) (hSecond : u.Stays v) :
    r.Stays v :=
  ⟨hFirst.toSameAround.trans hSecond.toSameAround,
    hSecond.depth.trans hFirst.depth⟩

theorem enter
    (r : Resolver)
    (name : String)
    (initialized : Bool) :
    r.Stays (r.enter name initialized) := by
  refine ⟨.enter r name initialized, ?_⟩
  rw [scopes_enter]
  cases r.scopes <;> rfl

/- At the top level there is no scope to come to. -/
theorem scopes_eq_nil
    (hStays : r.Stays u)
    (hTop : r.scopes = []) :
    u.scopes = [] := by
  have hDepth := hStays.depth
  rw [hTop] at hDepth
  exact List.eq_nil_of_length_eq_zero hDepth

end Resolver.Stays

/-
  A step that leaves all that is around it as it was, and as
  many scopes, however it ends.
-/
def Resolution.Restores {α : Type} (step : Resolution α) : Prop :=
  ∀ r : Resolver, r.Stays (stateLeft (step r))

theorem Resolution.Restores.bind
    {α β : Type}
    {step : Resolution α}
    {next : α → Resolution β}
    (hStep : step.Restores)
    (hNext : ∀ a, (next a).Restores) :
    (step >>= next).Restores := by
  intro r
  have hFirst := hStep r
  cases hRun : step r with
  | ok a u =>
      rw [hRun] at hFirst
      rw [bind_of_ok hRun]
      exact hFirst.trans (hNext a u)
  | error e u =>
      rw [hRun] at hFirst
      rw [bind_of_error hRun]
      exact hFirst

/- The scope that is left is the one that was entered. -/
theorem Resolution.Restores.within
    {α : Type}
    {step : Resolution α}
    (hStep : step.Restores) :
    (within step).Restores := by
  intro r
  have hInner := hStep { r with scopes := [] :: r.scopes }
  have hLeft :
      stateLeft (Resolver.within step r) =
        { stateLeft (step { r with scopes := [] :: r.scopes }) with
          scopes :=
            (stateLeft (step { r with scopes := [] :: r.scopes })
              ).scopes.tail } := by
    unfold Resolver.within
    cases step { r with scopes := [] :: r.scopes } <;> rfl
  rw [hLeft]
  refine ⟨⟨?_, hInner.enclosing⟩, ?_⟩
  · exact congrArg List.tail hInner.scopes
  · exact congrArg List.length hInner.scopes

theorem Resolution.Restores.withinFunction
    {α : Type}
    {step : Resolution α}
    (hStep : step.Restores) :
    (withinFunction step).Restores := by
  intro r
  have hInner := hStep { r with enclosing := .function }
  have hLeft :
      stateLeft (Resolver.withinFunction step r) =
        { stateLeft (step { r with enclosing := .function }) with
          enclosing := r.enclosing } := by
    unfold Resolver.withinFunction
    cases step { r with enclosing := .function } <;> rfl
  rw [hLeft]
  exact ⟨⟨hInner.scopes, rfl⟩, hInner.depth⟩

theorem Resolution.compositional_restores :
    Compositional fun _ step => step.Restores where
  pure _ r := .refl r
  declare name r := by
    unfold Resolver.declare
    split
    · exact .refl r
    · exact .enter r _ _
  define name r := .enter r _ _
  checkReadable name r := by
    unfold Resolver.checkReadable
    split <;> exact .refl r
  checkReturn keyword r := by
    unfold Resolver.checkReturn
    split <;> exact .refl r
  locate name r := by
    unfold Resolver.locate
    split
    · exact .refl r
    · exact ⟨⟨rfl, rfl⟩, rfl⟩
  bind := Restores.bind
  within := Restores.within
  withinFunction := Restores.withinFunction

/- A step that leaves what is around it where it ends well. -/
def Resolution.LeavesAround {α : Type} (step : Resolution α) :
    Prop :=
  ∀ r : Resolver, step.Gives r fun _ u => r.SameAround u

theorem Resolution.Restores.leavesAround
    {α : Type}
    {step : Resolution α}
    (hStep : step.Restores) :
    step.LeavesAround := by
  intro r
  apply gives_iff.mpr
  intro a u hRun
  have hStays := hStep r
  rw [hRun] at hStays
  exact hStays.toSameAround

theorem Expr.leaves_around (e : Expr) : e.resolve.LeavesAround :=
  (compositional_restores.expressions e).leavesAround

theorem Stmt.leaves_around (s : Stmt) : s.resolve.LeavesAround :=
  (compositional_restores.statements s).leavesAround

theorem Stmt.body_leaves_around (body : List Stmt) :
    (Stmt.resolveBody body).LeavesAround :=
  (compositional_restores.bodies body).leavesAround

end Lox
