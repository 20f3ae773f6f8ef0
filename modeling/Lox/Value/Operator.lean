import Lox.Value.Basic
import Lox.Value.Failure

/-
  The operators of the language on values.

  Arithmetic and comparisons are those of doubles: a division
  by zero gives an infinity with the right sign, or no number.

  Key definitions include:
    * `applyUnary`
    * `add`
    * `onNumbers`
    * `applyBinary`
-/

------------------------------------------------------------
-- One Operand
------------------------------------------------------------

namespace Lox

/- The value of a sign applied to an operand. -/
def applyUnary
    (op : Token)
    (operand : Value) :
    Except RuntimeError Value :=
  match op.kind with
  | .minus =>
      match operand with
      | .number x => .ok (.number (-x))
      | _ => .error ⟨.operandNotNumber, op⟩
  | .bang => .ok (.bool (!operand.isTruthy))
  | _ => .error ⟨.unsupportedUnary op.lexeme, op⟩

end Lox

------------------------------------------------------------
-- Two Operands
------------------------------------------------------------

namespace Lox

/- The sum of two numbers, or two strings joined. -/
def add
    (op : Token)
    (left right : Value) :
    Except RuntimeError Value :=
  match left, right with
  | .number a, .number b => .ok (.number (a + b))
  | .string a, .string b => .ok (.string (a ++ b))
  | _, _ => .error ⟨.operandsNotAddable, op⟩

/- A function of two numbers, on values that have to be such. -/
def onNumbers
    (op : Token)
    (f : Float → Float → Value)
    (left right : Value) :
    Except RuntimeError Value :=
  match left, right with
  | .number a, .number b => .ok (f a b)
  | _, _ => .error ⟨.operandsNotNumbers, op⟩

/- The value of an operator applied to two operands. -/
def applyBinary
    (op : Token)
    (left right : Value) :
    Except RuntimeError Value :=
  match op.kind with
  | .equalEqual => .ok (.bool (left.equals right))
  | .bangEqual => .ok (.bool (!left.equals right))
  | .plus => add op left right
  | .minus => onNumbers op (fun a b => .number (a - b)) left right
  | .star => onNumbers op (fun a b => .number (a * b)) left right
  | .slash => onNumbers op (fun a b => .number (a / b)) left right
  | .greater => onNumbers op (fun a b => .bool (b < a)) left right
  | .greaterEqual =>
      onNumbers op (fun a b => .bool (b ≤ a)) left right
  | .less => onNumbers op (fun a b => .bool (a < b)) left right
  | .lessEqual =>
      onNumbers op (fun a b => .bool (a ≤ b)) left right
  | _ => .error ⟨.unsupportedBinary op.lexeme, op⟩

end Lox
