import Lox.Program.Basic

/-
  Finding, before a program runs, the declaration that each
  use of a variable refers to.

  A resolver keeps the scopes that enclose the place it has
  reached, innermost first. It gives every use of a local
  variable the number of scopes between the use and its
  declaration; other uses refer to globals. It stops at the
  first error, and its scopes are then as they were before.

  Key definitions include:
    * `ScopeFault`
    * `ScopeError`
    * `Scope`
    * `Resolver`
    * `Resolver.hopsTo?`
    * `Resolver.within`
    * `Resolver.withinFunction`
    * `Expr.resolve`
    * `Stmt.resolve`
    * `resolveProgram`
-/

------------------------------------------------------------
-- Errors
------------------------------------------------------------

namespace Lox

/- What can be wrong with the scopes of a program. -/
inductive ScopeFault where
  | returnOutsideFunction
  | alreadyDeclared
  | readsItself
deriving DecidableEq, Repr

/- The wording of a scope error. -/
def ScopeFault.message : ScopeFault → String
  | returnOutsideFunction =>
      "Can't return from top-level code."
  | alreadyDeclared =>
      "Already a variable with this name in this scope."
  | readsItself =>
      "Can't read local variable in its own initializer."

/- A scope error and the token it blames. -/
structure ScopeError where
  fault : ScopeFault
  token : Token
deriving Repr

namespace ScopeError

def message (e : ScopeError) : String :=
  e.fault.message

/- The error in one sentence. -/
def describe (e : ScopeError) : String :=
  s!"{e.message} at line {e.token.line}"

end ScopeError

end Lox

------------------------------------------------------------
-- Scopes
------------------------------------------------------------

namespace Lox

/-
  The names declared in a scope, newest first, each with
  whether its initializer has been passed.
-/
abbrev Scope :=
  List (String × Bool)

namespace Scope

/- Whether a name is declared in the scope. -/
def declares (scope : Scope) (name : String) : Bool :=
  (scope.lookup name).isSome

/- Whether a name is declared but not yet initialized. -/
def isPending (scope : Scope) (name : String) : Bool :=
  scope.lookup name = some false

end Scope

/- Whether a resolver is inside a function. -/
inductive FunctionKind where
  | none
  | function
deriving DecidableEq, Repr, Inhabited

/- The name of a function kind in a dump. -/
def FunctionKind.name : FunctionKind → String
  | none => "NONE"
  | function => "FUNCTION"

/-
  The enclosing scopes, innermost first, the kind of the
  enclosing function, and the numbers of scopes recorded so
  far, one for each use of a local variable.
-/
structure Resolver where
  scopes : List Scope := []
  enclosing : FunctionKind := .none
  recorded : Array Nat := #[]
deriving Repr, Inhabited

end Lox

------------------------------------------------------------
-- Steps Of Resolution
------------------------------------------------------------

namespace Lox

/- A step of resolution. -/
abbrev Resolution (α : Type) :=
  EStateM ScopeError Resolver α

namespace Resolver

/-
  The number of scopes between the innermost one and the
  nearest one that declares a name.
-/
def hopsTo?
    (scopes : List Scope)
    (name : String) :
    Option Nat :=
  scopes.findIdx? fun scope => scope.declares name

/- Adds an entry to the innermost scope, if there is one. -/
def enter
    (r : Resolver)
    (name : String)
    (initialized : Bool) :
    Resolver :=
  match r.scopes with
  | [] => r
  | scope :: scopes =>
      { r with scopes := ((name, initialized) :: scope) :: scopes }

/- Declares a name that the innermost scope must not have. -/
def declare (name : Token) : Resolution Unit :=
  fun r =>
    if r.scopes.head?.any (·.declares name.lexeme) then
      .error ⟨.alreadyDeclared, name⟩ r
    else .ok () (r.enter name.lexeme false)

/- Marks a declared name as initialized. -/
def define (name : Token) : Resolution Unit :=
  fun r => .ok () (r.enter name.lexeme true)

/- Refuses to read a name in its own initializer. -/
def checkReadable (name : Token) : Resolution Unit :=
  fun r =>
    if r.scopes.head?.any (·.isPending name.lexeme) then
      .error ⟨.readsItself, name⟩ r
    else .ok () r

/- Refuses to return where there is no function. -/
def checkReturn (keyword : Token) : Resolution Unit :=
  fun r =>
    match r.enclosing with
    | .none => .error ⟨.returnOutsideFunction, keyword⟩ r
    | .function => .ok () r

/- Finds and records where a name is declared. -/
def locate (name : Token) : Resolution (Option Nat) :=
  fun r =>
    match hopsTo? r.scopes name.lexeme with
    | none => .ok none r
    | some hops =>
        .ok (some hops) { r with recorded := r.recorded.push hops }

/-
  A step in a new innermost scope, which is left again however
  the step ends.
-/
def within {α : Type} (step : Resolution α) : Resolution α :=
  fun r =>
    match step { r with scopes := [] :: r.scopes } with
    | .ok a r => .ok a { r with scopes := r.scopes.tail }
    | .error e r => .error e { r with scopes := r.scopes.tail }

/-
  A step inside a function, which is left again however the
  step ends.
-/
def withinFunction
    {α : Type}
    (step : Resolution α) :
    Resolution α :=
  fun r =>
    let enclosing := r.enclosing
    match step { r with enclosing := .function } with
    | .ok a r => .ok a { r with enclosing }
    | .error e r => .error e { r with enclosing }

/- Declares the parameters of a function. -/
def declareParams : List Token → Resolution Unit
  | [] => return ()
  | param :: params => do
    declare param
    define param
    declareParams params

end Resolver

end Lox

------------------------------------------------------------
-- Resolving Expressions
------------------------------------------------------------

namespace Lox

open Resolver

mutual

/- Fills in the uses of an expression. -/
def Expr.resolve : Expr → Resolution Expr
  | .literal value => return .literal value
  | .variable name _ => do
    checkReadable name
    return .variable name (← locate name)
  | .assign name value _ => do
    let value ← value.resolve
    return .assign name value (← locate name)
  | .binary left op right => do
    let left ← left.resolve
    return .binary left op (← right.resolve)
  | .logical left op right => do
    let left ← left.resolve
    return .logical left op (← right.resolve)
  | .unary op operand => do
    return .unary op (← operand.resolve)
  | .grouping inner => do
    return .grouping (← inner.resolve)
  | .call callee paren args => do
    let callee ← callee.resolve
    return .call callee paren (← Expr.resolveArgs args)

def Expr.resolveArgs : List Expr → Resolution (List Expr)
  | [] => return []
  | arg :: args => do
    let arg ← arg.resolve
    return arg :: (← Expr.resolveArgs args)

end

end Lox

------------------------------------------------------------
-- Resolving Statements
------------------------------------------------------------

namespace Lox

open Resolver

mutual

/- Fills in the uses of a statement. -/
def Stmt.resolve : Stmt → Resolution Stmt
  | .expression value => return .expression (← value.resolve)
  | .print value => return .print (← value.resolve)
  | .var name none => do
    declare name
    define name
    return .var name none
  | .var name (some value) => do
    declare name
    let value ← value.resolve
    define name
    return .var name (some value)
  | .block body =>
      return .block (← within (Stmt.resolveBody body))
  | .ifThen condition thenBranch => do
    let condition ← condition.resolve
    return .ifThen condition (← thenBranch.resolve)
  | .ifElse condition thenBranch elseBranch => do
    let condition ← condition.resolve
    let thenBranch ← thenBranch.resolve
    return .ifElse condition thenBranch (← elseBranch.resolve)
  | .loop condition body => do
    let condition ← condition.resolve
    return .loop condition (← body.resolve)
  | .function name params body => do
    declare name
    define name
    let body ← withinFunction (within do
      declareParams params
      within (Stmt.resolveBody body))
    return .function name params body
  | .ret keyword none => do
    checkReturn keyword
    return .ret keyword none
  | .ret keyword (some value) => do
    checkReturn keyword
    return .ret keyword (some (← value.resolve))

def Stmt.resolveBody : List Stmt → Resolution (List Stmt)
  | [] => return []
  | stmt :: body => do
    let stmt ← stmt.resolve
    return stmt :: (← Stmt.resolveBody body)

end

/- What is left when a program has been resolved. -/
structure Resolved where
  program : List Stmt
  recorded : Nat
deriving Repr

/-
  A program with its uses filled in, and how many of them
  refer to local variables.
-/
def resolveProgram
    (program : List Stmt) :
    Except ScopeError Resolved :=
  match Stmt.resolveBody program {} with
  | .ok program r => .ok ⟨program, r.recorded.size⟩
  | .error e _ => .error e

/- What a program is resolved to is what its statements are. -/
theorem exists_run_of_resolveProgram
    {program : List Stmt}
    {resolved : Resolved}
    (hResolve : resolveProgram program = .ok resolved) :
    ∃ r,
      Stmt.resolveBody program {} = .ok resolved.program r ∧
        resolved.recorded = r.recorded.size := by
  unfold resolveProgram at hResolve
  cases hRun : Stmt.resolveBody program {} with
  | error e r =>
      rw [hRun] at hResolve
      cases hResolve
  | ok filled r =>
      rw [hRun] at hResolve
      cases hResolve
      exact ⟨r, rfl, rfl⟩

end Lox
