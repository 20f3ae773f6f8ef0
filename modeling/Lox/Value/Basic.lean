import Lox.Program.Basic
import Lox.Decimal.Notation
import Lox.Value.Native

/-
  The values that programs compute with.

  Functions are compared by identity: every evaluation of a
  function declaration makes a function with an identity of
  its own.

  Key definitions include:
    * `EnvId`
    * `Closure`
    * `NativeFunction`
    * `Value`
    * `Value.text`
    * `Value.isTruthy`
    * `Value.equals`
-/

------------------------------------------------------------
-- Values
------------------------------------------------------------

namespace Lox

/- The number of an environment in a store. -/
abbrev EnvId :=
  Nat

/-
  A function of the program: its identity, its declaration,
  and the environment in which it was declared.
-/
structure Closure where
  ident : Nat
  name : Token
  params : List Token
  body : List Stmt
  env : EnvId
deriving Repr, Inhabited

/- A native function and its identity. -/
structure NativeFunction extends Native where
  ident : Nat
deriving Repr, Inhabited

inductive Value where
  | nil
  | bool (value : Bool)
  | number (value : Float)
  | string (value : String)
  | function (value : Closure)
  | native (value : NativeFunction)
deriving Repr, Inhabited

end Lox

------------------------------------------------------------
-- Views Of Values
------------------------------------------------------------

namespace Lox.Value

/- The value that a constant stands for. -/
def ofLiteral : Literal → Value
  | .nil => .nil
  | .bool value => .bool value
  | .number value => .number value
  | .string value => .string value

/- The text that `print` writes. -/
def text : Value → String
  | nil => "nil"
  | bool true => "true"
  | bool false => "false"
  | number value => Decimal.text value
  | string value => value
  | function value => s!"<fn {value.name.lexeme}>"
  | native _ => "<native fn>"

/- Only `nil` and `false` count as false. -/
def isTruthy : Value → Bool
  | nil => false
  | bool value => value
  | _ => true

/-
  Equality of values. Numbers compare as doubles do, functions
  by identity, and values of different kinds are different.
-/
def equals : Value → Value → Bool
  | nil, nil => true
  | bool a, bool b => a == b
  | number a, number b => a == b
  | string a, string b => a == b
  | function a, function b => a.ident == b.ident
  | native a, native b => a.ident == b.ident
  | _, _ => false

end Lox.Value
