import Lox.Token.Basic

/-
  Programs as trees of expressions and statements.

  A use of a variable, be it a reading or an assignment,
  carries the number of scopes between the use and the
  declaration it refers to; a use without that number refers
  to a global. The parser leaves every use without one, and
  scope resolution fills them in.

  A `for` loop has no node of its own: it is written as the
  block and the loop that it stands for.

  Key definitions include:
    * `Expr`
    * `Stmt`
    * `Use`
    * `Stmt.usesOf`
-/

------------------------------------------------------------
-- Expressions And Statements
------------------------------------------------------------

namespace Lox

inductive Expr where
  | literal (value : Literal)
  | variable (name : Token) (hops : Option Nat)
  | assign (name : Token) (value : Expr) (hops : Option Nat)
  | binary (left : Expr) (op : Token) (right : Expr)
  | logical (left : Expr) (op : Token) (right : Expr)
  | unary (op : Token) (operand : Expr)
  | grouping (inner : Expr)
  | call (callee : Expr) (paren : Token) (args : List Expr)
deriving Repr, Inhabited

inductive Stmt where
  | expression (value : Expr)
  | print (value : Expr)
  | var (name : Token) (initializer : Option Expr)
  | block (body : List Stmt)
  | ifThen (condition : Expr) (thenBranch : Stmt)
  | ifElse
      (condition : Expr) (thenBranch elseBranch : Stmt)
  | loop (condition : Expr) (body : Stmt)
  | function
      (name : Token) (params : List Token) (body : List Stmt)
  | ret (keyword : Token) (value : Option Expr)
deriving Repr, Inhabited

end Lox

------------------------------------------------------------
-- Uses Of Variables
------------------------------------------------------------

namespace Lox

/-
  A use of a variable: whether it assigns, the token of the
  name, and the number of scopes to the declaration.
-/
structure Use where
  assigns : Bool
  name : Token
  hops : Option Nat
deriving Repr, Inhabited

mutual

/-
  The uses in an expression, put in front of a list of uses,
  in the order of the text; an assignment comes before the
  uses in its value.
-/
def Expr.usesOnto : Expr → List Use → List Use
  | .literal _, uses => uses
  | .variable name hops, uses => ⟨false, name, hops⟩ :: uses
  | .assign name value hops, uses =>
      ⟨true, name, hops⟩ :: value.usesOnto uses
  | .binary left _ right, uses =>
      left.usesOnto (right.usesOnto uses)
  | .logical left _ right, uses =>
      left.usesOnto (right.usesOnto uses)
  | .unary _ operand, uses => operand.usesOnto uses
  | .grouping inner, uses => inner.usesOnto uses
  | .call callee _ args, uses =>
      callee.usesOnto (Expr.usesOfArgs args uses)

def Expr.usesOfArgs : List Expr → List Use → List Use
  | [], uses => uses
  | arg :: args, uses =>
      arg.usesOnto (Expr.usesOfArgs args uses)

end

mutual

/- The uses in a statement, put in front of a list of uses. -/
def Stmt.usesOnto : Stmt → List Use → List Use
  | .expression value, uses => value.usesOnto uses
  | .print value, uses => value.usesOnto uses
  | .var _ none, uses => uses
  | .var _ (some value), uses => value.usesOnto uses
  | .block body, uses => Stmt.usesOfBody body uses
  | .ifThen condition thenBranch, uses =>
      condition.usesOnto (thenBranch.usesOnto uses)
  | .ifElse condition thenBranch elseBranch, uses =>
      condition.usesOnto
        (thenBranch.usesOnto (elseBranch.usesOnto uses))
  | .loop condition body, uses =>
      condition.usesOnto (body.usesOnto uses)
  | .function _ _ body, uses => Stmt.usesOfBody body uses
  | .ret _ none, uses => uses
  | .ret _ (some value), uses => value.usesOnto uses

def Stmt.usesOfBody : List Stmt → List Use → List Use
  | [], uses => uses
  | stmt :: body, uses =>
      stmt.usesOnto (Stmt.usesOfBody body uses)

end

/- All uses of variables in a program. -/
def Stmt.usesOf (program : List Stmt) : List Use :=
  Stmt.usesOfBody program []

end Lox
