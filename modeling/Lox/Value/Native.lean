import Lox.Token.Basic

/-
  Functions that are not written in the language.

  A native function is given by its name, the number of its
  arguments, and one of a few behaviors. What it does to a
  running program is said where programs are run.

  Key definitions include:
    * `NativeBehavior`
    * `Native`
    * `clockNative`
    * `NativeFailure`
-/

------------------------------------------------------------
-- Behaviors
------------------------------------------------------------

namespace Lox

/-
  What a native function does: tell the time in milliseconds,
  give back one of its arguments or a constant, make a function
  with an empty body or a native one that gives `nil`, call one
  of its arguments with the others, or give a number of its
  host that is no value of the language.
-/
inductive NativeBehavior where
  | clock
  | argument (index : Nat)
  | constant (value : Literal)
  | makeFunction (name : Token) (params : List Token)
  | makeNative (name : String) (arity : Nat)
  | apply (index : Nat)
  | foreign (number : Int)
deriving Repr, Inhabited

structure Native where
  name : String
  arity : Nat
  behavior : NativeBehavior
deriving Repr, Inhabited

/- The function that tells the time. -/
def clockNative : Native :=
  { name := "clock", arity := 0, behavior := .clock }

/- The native function of a name that gives `nil`. -/
def Native.giveNil (name : String) (arity : Nat) : Native :=
  { name, arity, behavior := .constant .nil }

end Lox

------------------------------------------------------------
-- Failures
------------------------------------------------------------

namespace Lox

/- Failures of native functions; no program can expect them. -/
inductive NativeFailure where
  | infiniteTime
  | undefinedTime
  | noSuchArgument
  | notAValue (name : String) (number : Int)
deriving DecidableEq, Repr

/- The wording of a failure of a native function. -/
def NativeFailure.message : NativeFailure → String
  | infiniteTime => "cannot convert float infinity to integer"
  | undefinedTime => "cannot convert float NaN to integer"
  | noSuchArgument => "list index out of range"
  | notAValue name number =>
      s!"native '{name}' returned non-Lox value {number}"

end Lox
