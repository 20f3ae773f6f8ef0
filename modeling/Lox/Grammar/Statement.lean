import Lox.Grammar.Expression
import Lox.Limits

/-
  Reading declarations and statements, and whole programs.

  A declaration that cannot be read is dropped: its error is
  recorded and reading goes on where the next statement
  probably begins, so that every independent error of a
  program is found. Only a program that is nested too deeply
  is given up as far as its outermost declaration.

  Key definitions include:
    * `blockRest`
    * `functionRest`
    * `forRest`
    * `declaration`
    * `statement`
    * `Parsed`
    * `parse`
-/

------------------------------------------------------------
-- Simple Statements
------------------------------------------------------------

namespace Lox.Grammar

open Reader

/- Reads an expression and the semicolon after it. -/
def expressionStatement
    (expression : Reader Expr) :
    Reader Stmt := do
  let value ← expression
  let _ ← expect .semicolon .expectExpressionEnd
  return .expression value

/- Reads the rest of a `print` statement. -/
def printRest (expression : Reader Expr) : Reader Stmt := do
  let value ← expression
  let _ ← expect .semicolon .expectPrintEnd
  return .print value

/- Reads the rest of a `return` statement. -/
def returnRest
    (expression : Reader Expr)
    (keyword : Token) :
    Reader Stmt := do
  let value ← unlessNext .semicolon none (some <$> expression)
  let _ ← expect .semicolon .expectReturnEnd
  return .ret keyword value

/- Reads the rest of a variable declaration. -/
def variableRest (expression : Reader Expr) : Reader Stmt := do
  let name ← expect .identifier .expectVariableName
  let initializer ← optionalAfter .equal expression
  let _ ← expect .semicolon .expectVariableEnd
  return .var name initializer

end Lox.Grammar

------------------------------------------------------------
-- Blocks And Functions
------------------------------------------------------------

namespace Lox.Grammar

open Reader

/-
  Reads declarations up to a closing brace or the end. The
  list of `ticks` has a token for each declaration that could
  still follow.
-/
def declarationsFrom
    (declaration : Reader (Option Stmt)) :
    (ticks : List Token) → (body : List Stmt) →
    Reader (List Stmt)
  | [], body => return body.reverse
  | _ :: ticks, body => do
    if (← nextIs .rightBrace) || (← atEnd) then
      return body.reverse
    else
      match ← declaration with
      | none => declarationsFrom declaration ticks body
      | some stmt =>
          declarationsFrom declaration ticks (stmt :: body)

/- Reads a block after its opening brace. -/
def blockRest
    (declaration : Reader (Option Stmt)) :
    Reader (List Stmt) := do
  let ticks ← upcoming
  let body ← declarationsFrom declaration ticks []
  let _ ← expect .rightBrace .expectBlockEnd
  return body

/- Reads the rest of a function declaration. -/
def functionRest
    (declaration : Reader (Option Stmt)) :
    Reader Stmt := do
  let name ← expect .identifier .expectFunctionName
  let _ ← expect .leftParen .expectFunctionParen
  let params ←
    unlessNext .rightParen []
      (items (expect .identifier .expectParameterName)
        .tooManyParameters)
  let _ ← expect .rightParen .expectParametersEnd
  let _ ← expect .leftBrace .expectFunctionBody
  let body ← blockRest declaration
  return .function name params body

end Lox.Grammar

------------------------------------------------------------
-- Branches And Loops
------------------------------------------------------------

namespace Lox.Grammar

open Reader

/- Reads the rest of an `if` statement. -/
def ifRest
    (expression : Reader Expr)
    (statement : Reader Stmt) :
    Reader Stmt := do
  let _ ← expect .leftParen .expectIfParen
  let condition ← expression
  let _ ← expect .rightParen .expectIfConditionEnd
  let thenBranch ← statement
  match ← optionalAfter .elseKw statement with
  | some elseBranch =>
      return .ifElse condition thenBranch elseBranch
  | none => return .ifThen condition thenBranch

/- Reads the rest of a `while` statement. -/
def whileRest
    (expression : Reader Expr)
    (statement : Reader Stmt) :
    Reader Stmt := do
  let _ ← expect .leftParen .expectWhileParen
  let condition ← expression
  let _ ← expect .rightParen .expectConditionEnd
  return .loop condition (← statement)

/- Reads what a `for` loop does first, if anything. -/
def forInitializer
    (expression : Reader Expr) :
    Reader (Option Stmt) := do
  if ← accepts .semicolon then return none
  else if ← accepts .varKw then
    some <$> variableRest expression
  else
    some <$> expressionStatement expression

/-
  The statement that a `for` loop stands for: a block with the
  initializer and a loop, whose body is a block with the body
  and the increment.
-/
def forLoop
    (initializer : Option Stmt)
    (condition : Expr)
    (increment : Option Expr)
    (body : Stmt) :
    Stmt :=
  let round := body :: (increment.map Stmt.expression).toList
  .block
    (initializer.toList ++ [.loop condition (.block round)])

/- Reads the rest of a `for` loop. -/
def forRest
    (expression : Reader Expr)
    (statement : Reader Stmt) :
    Reader Stmt := do
  let _ ← expect .leftParen .expectForParen
  let initializer ← forInitializer expression
  let condition ←
    unlessNext .semicolon (.literal (.bool true)) expression
  let _ ← expect .semicolon .expectLoopConditionEnd
  let increment ←
    unlessNext .rightParen none (some <$> expression)
  let _ ← expect .rightParen .expectForEnd
  return forLoop initializer condition increment (← statement)

end Lox.Grammar

------------------------------------------------------------
-- Declarations And Statements
------------------------------------------------------------

namespace Lox.Grammar

open Reader

/- The kinds of tokens that tell which statement follows. -/
def opensStatement : Kind → Bool
  | .forKw | .ifKw | .printKw | .returnKw | .whileKw
  | .leftBrace => true
  | _ => false

/- The kinds of tokens that tell which declaration follows. -/
def opensDeclaration : Kind → Bool
  | .funKw | .varKw => true
  | _ => false

mutual

/- Reads a declaration, or drops it with an error recorded. -/
def declaration : (nesting : Nat) → Reader (Option Stmt)
  | 0 => tooDeep
  | nesting + 1 =>
      recovering do
        match ← accept opensDeclaration with
        | none => statement nesting
        | some t =>
            if t.kind = .funKw then
              functionRest (declaration nesting)
            else
              variableRest (expression nesting)

/- Reads a statement. -/
def statement : (nesting : Nat) → Reader Stmt
  | 0 => tooDeep
  | nesting + 1 => do
    match ← accept opensStatement with
    | none => expressionStatement (expression nesting)
    | some t =>
        match t.kind with
        | .forKw =>
            forRest (expression nesting) (statement nesting)
        | .ifKw =>
            ifRest (expression nesting) (statement nesting)
        | .printKw => printRest (expression nesting)
        | .returnKw => returnRest (expression nesting) t
        | .whileKw =>
            whileRest (expression nesting) (statement nesting)
        | _ => .block <$> blockRest (declaration nesting)

end

end Lox.Grammar

------------------------------------------------------------
-- Programs
------------------------------------------------------------

namespace Lox

/- The declarations of a program and the errors found in it. -/
structure Parsed where
  program : List Stmt
  errors : List ParseError
deriving Repr

namespace Grammar

/-
  Reads the declarations of a program. One that is nested too
  deeply is dropped like any other with an error. The list of
  `ticks` has a token for each declaration that could still
  follow.
-/
def programFrom
    (declaration : Reader (Option Stmt)) :
    (ticks : List Token) → (program : List Stmt) →
    (c : Cursor) → Parsed
  | [], program, c => ⟨program.reverse, c.errors.toList⟩
  | _ :: ticks, program, c =>
      if c.atEnd then ⟨program.reverse, c.errors.toList⟩
      else
        match declaration c with
        | .ok (some stmt) c =>
            programFrom declaration ticks (stmt :: program) c
        | .ok none c => programFrom declaration ticks program c
        | .error .failed c =>
            programFrom declaration ticks program c
        | .error .tooDeep c =>
            programFrom declaration ticks program
              (c.recordHere .nestingTooDeep).synchronize

end Grammar

/- The program that a list of tokens spells, within limits. -/
def parse (limits : Limits) (tokens : List Token) : Parsed :=
  let c := Cursor.ofTokens tokens
  Grammar.programFrom (Grammar.declaration limits.nesting)
    c.upcoming [] c

end Lox
