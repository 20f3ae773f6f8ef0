import Lox.Proofs.Scope.Noted

/-
  Renaming one local declaration.

  A declaration is renamed together with the uses that the
  resolver bound to it: those of its name whose number of
  scopes leads from the use to the scope of the declaration.
  If the new name occurs nowhere, the program with the new
  names resolves as before, with the same numbers of scopes.

  Key definitions include:
    * `Expr.Avoids`, `Stmt.Avoids`
    * `Expr.rename`, `Stmt.rename`
    * `Stmt.RenamesLocal`, `Stmt.RenamesLocalIn`
    * `Expr.rename_none`, `Stmt.rename_none`
-/

------------------------------------------------------------
-- Names That Do Not Occur
------------------------------------------------------------

namespace Lox

mutual

/- A name that does not occur in an expression. -/
def Expr.Avoids (y : String) : Expr → Prop
  | .literal _ => True
  | .variable name _ => name.lexeme ≠ y
  | .assign name value _ => name.lexeme ≠ y ∧ value.Avoids y
  | .binary left _ right => left.Avoids y ∧ right.Avoids y
  | .logical left _ right => left.Avoids y ∧ right.Avoids y
  | .unary _ operand => operand.Avoids y
  | .grouping inner => inner.Avoids y
  | .call callee _ args =>
      callee.Avoids y ∧ Expr.AvoidsArgs y args

def Expr.AvoidsArgs (y : String) : List Expr → Prop
  | [] => True
  | arg :: args => arg.Avoids y ∧ Expr.AvoidsArgs y args

end

mutual

/- A name that does not occur in a statement. -/
def Stmt.Avoids (y : String) : Stmt → Prop
  | .expression value => value.Avoids y
  | .print value => value.Avoids y
  | .var name none => name.lexeme ≠ y
  | .var name (some value) => name.lexeme ≠ y ∧ value.Avoids y
  | .block body => Stmt.AvoidsBody y body
  | .ifThen condition thenBranch =>
      condition.Avoids y ∧ thenBranch.Avoids y
  | .ifElse condition thenBranch elseBranch =>
      condition.Avoids y ∧ thenBranch.Avoids y ∧
        elseBranch.Avoids y
  | .loop condition body => condition.Avoids y ∧ body.Avoids y
  | .function name params body =>
      name.lexeme ≠ y ∧ (∀ param ∈ params, param.lexeme ≠ y) ∧
        Stmt.AvoidsBody y body
  | .ret _ none => True
  | .ret _ (some value) => value.Avoids y

def Stmt.AvoidsBody (y : String) : List Stmt → Prop
  | [] => True
  | stmt :: body => stmt.Avoids y ∧ Stmt.AvoidsBody y body

end

end Lox

------------------------------------------------------------
-- Renaming
------------------------------------------------------------

namespace Lox

/- The token of a name `x`, with the name `y` in its place. -/
def Token.rename (x y : String) (name : Token) : Token :=
  if name.lexeme = x then { name with lexeme := y } else name

/-
  The token of a use. The mark is the number of scopes from
  the use to the scope of the declaration that is renamed, if
  this is one of the scopes around the use.
-/
def Token.renameUse
    (x y : String)
    (mark hops : Option Nat)
    (name : Token) :
    Token :=
  if hops.isSome ∧ hops = mark then name.rename x y else name

@[simp] theorem Token.renameUse_none
    (x y : String)
    (hops : Option Nat)
    (name : Token) :
    name.renameUse x y none hops = name := by
  cases hops <;> simp [Token.renameUse]

@[simp] theorem Token.renameUse_global
    (x y : String)
    (mark : Option Nat)
    (name : Token) :
    name.renameUse x y mark none = name := by
  simp [Token.renameUse]

/- The mark within a number of scopes more. -/
def deeper (scopes : Nat) (mark : Option Nat) : Option Nat :=
  mark.map (· + scopes)

@[simp] theorem deeper_none (scopes : Nat) :
    deeper scopes none = none :=
  rfl

mutual

/- Renames the uses in an expression that a mark leads to. -/
def Expr.rename (x y : String) (mark : Option Nat) : Expr → Expr
  | .literal value => .literal value
  | .variable name hops =>
      .variable (name.renameUse x y mark hops) hops
  | .assign name value hops =>
      .assign (name.renameUse x y mark hops)
        (value.rename x y mark) hops
  | .binary left op right =>
      .binary (left.rename x y mark) op (right.rename x y mark)
  | .logical left op right =>
      .logical (left.rename x y mark) op (right.rename x y mark)
  | .unary op operand => .unary op (operand.rename x y mark)
  | .grouping inner => .grouping (inner.rename x y mark)
  | .call callee paren args =>
      .call (callee.rename x y mark) paren
        (Expr.renameArgs x y mark args)

def Expr.renameArgs (x y : String) (mark : Option Nat) :
    List Expr → List Expr
  | [] => []
  | arg :: args =>
      arg.rename x y mark :: Expr.renameArgs x y mark args

end

mutual

/-
  Renames the uses in a statement that a mark leads to, and
  the declaration itself where it stands in the scope of the
  statement.
-/
def Stmt.rename (x y : String) (mark : Option Nat) : Stmt → Stmt
  | .expression value => .expression (value.rename x y mark)
  | .print value => .print (value.rename x y mark)
  | .var name none =>
      .var (name.renameUse x y mark (some 0)) none
  | .var name (some value) =>
      .var (name.renameUse x y mark (some 0))
        (some (value.rename x y mark))
  | .block body =>
      .block (Stmt.renameBody x y (deeper 1 mark) body)
  | .ifThen condition thenBranch =>
      .ifThen (condition.rename x y mark)
        (thenBranch.rename x y mark)
  | .ifElse condition thenBranch elseBranch =>
      .ifElse (condition.rename x y mark)
        (thenBranch.rename x y mark) (elseBranch.rename x y mark)
  | .loop condition body =>
      .loop (condition.rename x y mark) (body.rename x y mark)
  | .function name params body =>
      .function name params
        (Stmt.renameBody x y (deeper 2 mark) body)
  | .ret keyword none => .ret keyword none
  | .ret keyword (some value) =>
      .ret keyword (some (value.rename x y mark))

def Stmt.renameBody (x y : String) (mark : Option Nat) :
    List Stmt → List Stmt
  | [] => []
  | stmt :: body =>
      stmt.rename x y mark :: Stmt.renameBody x y mark body

end

/- No function named `x` is declared beside a statement. -/
def Stmt.LacksFunction (x : String) : Stmt → Prop
  | .function name _ _ => name.lexeme ≠ x
  | .ifThen _ thenBranch => thenBranch.LacksFunction x
  | .ifElse _ thenBranch elseBranch =>
      thenBranch.LacksFunction x ∧ elseBranch.LacksFunction x
  | .loop _ body => body.LacksFunction x
  | .expression _ => True
  | .print _ => True
  | .var _ _ => True
  | .block _ => True
  | .ret _ _ => True

/- A variable that is declared in a list of statements. -/
def DeclaresVar (x : String) (body : List Stmt) : Prop :=
  ∃ name initializer,
    Stmt.var name initializer ∈ body ∧ name.lexeme = x

mutual

/-
  The second statement is the first with one local declaration
  renamed from `x` to `y`: that of a variable in a block or in
  the body of a function, or that of a parameter.
-/
inductive Stmt.RenamesLocal (x y : String) :
    Stmt → Stmt → Prop where
  | blockVar
      {body : List Stmt}
      (hVar : DeclaresVar x body) :
      RenamesLocal x y (.block body)
        (.block (Stmt.renameBody x y (some 0) body))
  | functionVar
      {name : Token} {params : List Token} {body : List Stmt}
      (hVar : DeclaresVar x body) :
      RenamesLocal x y (.function name params body)
        (.function name params
          (Stmt.renameBody x y (some 0) body))
  | parameter
      {name : Token} {params : List Token} {body : List Stmt}
      (hParam : ∃ param ∈ params, param.lexeme = x) :
      RenamesLocal x y (.function name params body)
        (.function name (params.map (·.rename x y))
          (Stmt.renameBody x y (some 1) body))
  | block
      {body renamed : List Stmt}
      (hBody : RenamesLocalIn x y body renamed) :
      RenamesLocal x y (.block body) (.block renamed)
  | function
      {name : Token} {params : List Token}
      {body renamed : List Stmt}
      (hBody : RenamesLocalIn x y body renamed) :
      RenamesLocal x y (.function name params body)
        (.function name params renamed)
  | ifThen
      {condition : Expr} {thenBranch renamed : Stmt}
      (hThen : RenamesLocal x y thenBranch renamed) :
      RenamesLocal x y (.ifThen condition thenBranch)
        (.ifThen condition renamed)
  | ifElseThen
      {condition : Expr} {thenBranch elseBranch renamed : Stmt}
      (hThen : RenamesLocal x y thenBranch renamed) :
      RenamesLocal x y (.ifElse condition thenBranch elseBranch)
        (.ifElse condition renamed elseBranch)
  | ifElseElse
      {condition : Expr} {thenBranch elseBranch renamed : Stmt}
      (hElse : RenamesLocal x y elseBranch renamed) :
      RenamesLocal x y (.ifElse condition thenBranch elseBranch)
        (.ifElse condition thenBranch renamed)
  | loop
      {condition : Expr} {body renamed : Stmt}
      (hBody : RenamesLocal x y body renamed) :
      RenamesLocal x y (.loop condition body)
        (.loop condition renamed)

inductive Stmt.RenamesLocalIn (x y : String) :
    List Stmt → List Stmt → Prop where
  | here
      {stmt renamed : Stmt} {body : List Stmt}
      (hStmt : Stmt.RenamesLocal x y stmt renamed) :
      RenamesLocalIn x y (stmt :: body) (renamed :: body)
  | later
      {stmt : Stmt} {body renamed : List Stmt}
      (hBody : RenamesLocalIn x y body renamed) :
      RenamesLocalIn x y (stmt :: body) (stmt :: renamed)

end

mutual

/- Without a mark nothing is renamed. -/
theorem Expr.rename_none
    (x y : String)
    (e : Expr) :
    e.rename x y none = e := by
  cases e with
  | literal value => rfl
  | «variable» name hops => simp [Expr.rename]
  | assign name value hops =>
      simp [Expr.rename, value.rename_none]
  | binary left op right =>
      simp [Expr.rename, left.rename_none, right.rename_none]
  | logical left op right =>
      simp [Expr.rename, left.rename_none, right.rename_none]
  | unary op operand => simp [Expr.rename, operand.rename_none]
  | grouping inner => simp [Expr.rename, inner.rename_none]
  | call callee paren args =>
      simp [Expr.rename, callee.rename_none,
        Expr.renameArgs_none x y args]

theorem Expr.renameArgs_none
    (x y : String)
    (args : List Expr) :
    Expr.renameArgs x y none args = args := by
  cases args with
  | nil => rfl
  | cons arg args =>
      simp [Expr.renameArgs, arg.rename_none,
        Expr.renameArgs_none x y args]

end

mutual

theorem Stmt.rename_none
    (x y : String)
    (s : Stmt) :
    s.rename x y none = s := by
  cases s with
  | expression value => simp [Stmt.rename, Expr.rename_none]
  | print value => simp [Stmt.rename, Expr.rename_none]
  | var name initializer =>
      cases initializer with
      | none => simp [Stmt.rename]
      | some value => simp [Stmt.rename, Expr.rename_none]
  | block body =>
      simp [Stmt.rename, Stmt.renameBody_none x y body]
  | ifThen condition thenBranch =>
      simp [Stmt.rename, Expr.rename_none, thenBranch.rename_none]
  | ifElse condition thenBranch elseBranch =>
      simp [Stmt.rename, Expr.rename_none, thenBranch.rename_none,
        elseBranch.rename_none]
  | loop condition body =>
      simp [Stmt.rename, Expr.rename_none, body.rename_none]
  | function name params body =>
      simp [Stmt.rename, Stmt.renameBody_none x y body]
  | ret keyword value =>
      cases value with
      | none => rfl
      | some value => simp [Stmt.rename, Expr.rename_none]

theorem Stmt.renameBody_none
    (x y : String)
    (body : List Stmt) :
    Stmt.renameBody x y none body = body := by
  cases body with
  | nil => rfl
  | cons stmt body =>
      simp [Stmt.renameBody, stmt.rename_none,
        Stmt.renameBody_none x y body]

end

end Lox
