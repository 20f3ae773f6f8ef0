import Lox.Token.Basic

/-
  The errors that end the run of a program.

  Key definitions include:
    * `RuntimeFault`
    * `RuntimeFault.message`
    * `RuntimeError`
    * `RuntimeError.describe`
-/

------------------------------------------------------------
-- Causes
------------------------------------------------------------

namespace Lox

/- What can go wrong while a program runs. -/
inductive RuntimeFault where
  | operandNotNumber
  | operandsNotNumbers
  | operandsNotAddable
  | unsupportedUnary (op : String)
  | unsupportedBinary (op : String)
  | undefinedVariable (name : String)
  | notCallable
  | wrongArgumentCount (expected got : Nat)
  | stackOverflow
  | scopeDistance (distance : Nat)
deriving DecidableEq, Repr

/- The wording of a run-time error. -/
def RuntimeFault.message : RuntimeFault → String
  | operandNotNumber => "Operand must be a number."
  | operandsNotNumbers => "Operands must be numbers."
  | operandsNotAddable =>
      "Operands must be two numbers or two strings."
  | unsupportedUnary op =>
      s!"Unsupported unary operator '{op}'."
  | unsupportedBinary op =>
      s!"Unsupported binary operator '{op}'."
  | undefinedVariable name => s!"Undefined variable '{name}'."
  | notCallable => "Can only call functions and classes."
  | wrongArgumentCount expected got =>
      s!"Expected {expected} arguments but got {got}."
  | stackOverflow => "Stack overflow."
  | scopeDistance distance =>
      s!"Scope distance {distance} exceeds environment depth"

end Lox

------------------------------------------------------------
-- Errors
------------------------------------------------------------

namespace Lox

/- A run-time error and the token it blames, if any. -/
structure RuntimeError where
  fault : RuntimeFault
  token : Option Token
deriving Repr

namespace RuntimeError

def message (e : RuntimeError) : String :=
  e.fault.message

/- The line of the token it blames. -/
def line (e : RuntimeError) : Option Int :=
  e.token.map (·.line)

/- The error in one sentence. -/
def describe (e : RuntimeError) : String :=
  match e.line with
  | none => e.message
  | some line => s!"{e.message} (line {line})"

/- The token that stands for a place that is not known. -/
def unknownPlace : Token :=
  { kind := .eof, lexeme := "", line := 0 }

/- The token that the report of the error blames. -/
def blamed (e : RuntimeError) : Token :=
  e.token.getD unknownPlace

end RuntimeError

end Lox
