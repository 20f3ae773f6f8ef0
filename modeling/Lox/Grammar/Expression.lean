import Lox.Grammar.Cursor

/-
  Reading expressions.

  From the loosest to the tightest, the levels are assignment,
  `or`, `and`, equality, comparison, sums, products, signs,
  calls, and the smallest expressions. Assignment groups to
  the right, the levels of two operands to the left.

  The number that `expression`, `assignment` and `unary` are
  given bounds the nesting. An expression in parentheses or in
  a list of arguments takes one for each level of the grammar
  that leads to it, an assigned value and a sign one each.

  Key definitions include:
    * `leftChain`
    * `disjunction`
    * `primary`
    * `calls`
    * `expression`
    * `assignment`
    * `unary`
-/

------------------------------------------------------------
-- Operators By Level
------------------------------------------------------------

namespace Lox.Kind

def isEquality : Kind → Bool
  | bangEqual | equalEqual => true
  | _ => false

def isComparison : Kind → Bool
  | greater | greaterEqual | less | lessEqual => true
  | _ => false

def isSum : Kind → Bool
  | minus | plus => true
  | _ => false

def isProduct : Kind → Bool
  | slash | star => true
  | _ => false

/- The signs that stand before their operand. -/
def isSign : Kind → Bool
  | bang | minus => true
  | _ => false

end Lox.Kind

------------------------------------------------------------
-- Levels Of Two Operands
------------------------------------------------------------

namespace Lox.Grammar

open Reader

/-
  Reads the operators and operands that follow a left operand.
  The list of `ticks` has a token for each operator that could
  still follow.
-/
def leftChainFrom
    (operand : Reader Expr)
    (isOperator : Kind → Bool)
    (node : Expr → Token → Expr → Expr) :
    (ticks : List Token) → (left : Expr) → Reader Expr
  | [], left => return left
  | _ :: ticks, left => do
    match ← accept isOperator with
    | none => return left
    | some op =>
        let right ← operand
        leftChainFrom operand isOperator node ticks
          (node left op right)

/- Reads operands with operators of one level between them. -/
def leftChain
    (operand : Reader Expr)
    (isOperator : Kind → Bool)
    (node : Expr → Token → Expr → Expr) :
    Reader Expr := do
  let ticks ← upcoming
  let left ← operand
  leftChainFrom operand isOperator node ticks left

def product (unary : Reader Expr) : Reader Expr :=
  leftChain unary Kind.isProduct .binary

def sum (unary : Reader Expr) : Reader Expr :=
  leftChain (product unary) Kind.isSum .binary

def comparison (unary : Reader Expr) : Reader Expr :=
  leftChain (sum unary) Kind.isComparison .binary

def equality (unary : Reader Expr) : Reader Expr :=
  leftChain (comparison unary) Kind.isEquality .binary

def conjunction (unary : Reader Expr) : Reader Expr :=
  leftChain (equality unary) (· = .andKw) .logical

/- The levels from `or` down to products. -/
def disjunction (unary : Reader Expr) : Reader Expr :=
  leftChain (conjunction unary) (· = .orKw) .logical

end Lox.Grammar

------------------------------------------------------------
-- Calls And Smallest Expressions
------------------------------------------------------------

namespace Lox.Grammar

open Reader

/- The kinds of tokens that are expressions by themselves. -/
def isAtom : Kind → Bool
  | .falseKw | .trueKw | .nilKw
  | .number | .string | .identifier => true
  | _ => false

/- The expression that such a token is. -/
def atom (t : Token) : Expr :=
  match t.kind with
  | .falseKw => .literal (.bool false)
  | .trueKw => .literal (.bool true)
  | .nilKw => .literal .nil
  | .identifier => .variable t none
  | _ => .literal t.literal

/- Reads an atom or an expression in parentheses. -/
def primary (expression : Reader Expr) : Reader Expr := do
  match ← accept isAtom with
  | some t => return atom t
  | none =>
      if ← accepts .leftParen then
        let inner ← expression
        let _ ← expect .rightParen .expectGroupEnd
        return .grouping inner
      else
        fail .expectExpression

/- Reads the arguments of a call up to its parenthesis. -/
def arguments
    (expression : Reader Expr) :
    Reader (List Expr × Token) := do
  let args ←
    unlessNext .rightParen []
      (items expression .tooManyArguments)
  let paren ← expect .rightParen .expectArgumentsEnd
  return (args, paren)

/-
  Reads the argument lists that follow a callee. The list of
  `ticks` has a token for each list that could still follow.
-/
def callsFrom
    (expression : Reader Expr) :
    (ticks : List Token) → (callee : Expr) → Reader Expr
  | [], callee => return callee
  | _ :: ticks, callee => do
    if ← accepts .leftParen then
      let (args, paren) ← arguments expression
      callsFrom expression ticks (.call callee paren args)
    else
      return callee

/- Reads a callee and the argument lists after it. -/
def calls (expression : Reader Expr) : Reader Expr := do
  let ticks ← upcoming
  let callee ← primary expression
  callsFrom expression ticks callee

end Lox.Grammar

------------------------------------------------------------
-- Signs And Assignment
------------------------------------------------------------

namespace Lox.Grammar

open Reader

mutual

/-
  Reads an expression of any level. Besides assignments and
  signs, which take nesting of their own, eight levels lead to
  an expression within it; it takes theirs at once.
-/
def expression : (nesting : Nat) → Reader Expr
  | nesting + 8 => assignment nesting
  | _ => tooDeep

/- Reads an assignment, or an expression that is none. -/
def assignment : (nesting : Nat) → Reader Expr
  | 0 => tooDeep
  | nesting + 1 => do
    let target ← disjunction (unary nesting)
    let signPlace ← place
    match ← accept (· = .equal) with
    | none => return target
    | some equals =>
        let value ← assignment nesting
        match target with
        | .variable name _ => return .assign name value none
        | _ =>
            noteAt .invalidTarget equals signPlace
            return target

/- Reads signs and the call that follows them. -/
def unary : (nesting : Nat) → Reader Expr
  | 0 => tooDeep
  | nesting + 1 => do
    match ← accept Kind.isSign with
    | some op => return .unary op (← unary nesting)
    | none => calls (expression nesting)

end

end Lox.Grammar
