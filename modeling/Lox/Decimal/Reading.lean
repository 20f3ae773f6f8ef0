/-
  Reading decimals as doubles, correctly rounded.

  Key definitions include:
    * `isDigit`
    * `natOfDigits`
    * `ofScientific`
    * `ofNumeral`
    * `read?`
-/

------------------------------------------------------------
-- Digits
------------------------------------------------------------

namespace Lox.Decimal

/- The digits 0 to 9. -/
def isDigit (c : Char) : Bool :=
  '0' ≤ c && c ≤ '9'

/- The value of a digit. -/
def digitValue (c : Char) : Nat :=
  c.toNat - '0'.toNat

/- The natural number that a list of digits spells. -/
def natOfDigits (digits : List Char) : Nat :=
  digits.foldl (fun n c => 10 * n + digitValue c) 0

end Lox.Decimal

------------------------------------------------------------
-- Rounding
------------------------------------------------------------

namespace Lox.Decimal

/- Positive infinity. -/
def infinity : Float :=
  Float.ofBits 0x7FF0000000000000

/- The quiet value that is no number. -/
def notANumber : Float :=
  Float.ofBits 0x7FF8000000000000

/-
  The double nearest to `digits * 10 ^ exponent`. An exponent
  that leads beyond the largest or below the smallest double
  is settled without raising ten to it.
-/
def ofScientific
    (digits : Nat)
    (exponent : Int) :
    Float :=
  if digits = 0 then Float.ofBits 0
  else if 400 < exponent then infinity
  else if 400 + (digits.log2 : Int) < -exponent then
    Float.ofBits 0
  else if exponent < 0 then
    Float.ofScientific digits true (-exponent).toNat
  else Float.ofScientific digits false exponent.toNat

/- The double nearest to a numeral with a fractional part. -/
def ofNumeral
    (whole fraction : List Char) :
    Float :=
  ofScientific (natOfDigits (whole ++ fraction))
    (-(fraction.length : Int))

end Lox.Decimal

------------------------------------------------------------
-- Number Texts
------------------------------------------------------------

namespace Lox.Decimal

/- Splits a leading sign off; the first part is true for `-`. -/
def splitSign : List Char → Bool × List Char
  | '-' :: rest => (true, rest)
  | '+' :: rest => (false, rest)
  | text => (false, text)

/- An exponent part, or nothing. -/
def readExponent? : List Char → Option Int
  | [] => some 0
  | c :: rest =>
      if c = 'e' || c = 'E' then
        let (negative, digits) := splitSign rest
        if !digits.isEmpty && digits.all isDigit then
          let n := (natOfDigits digits : Int)
          some (if negative then -n else n)
        else none
      else none

/- A numeral without a sign: digits, point and exponent. -/
def readMagnitude? (text : List Char) : Option Float :=
  let (whole, rest) := text.span isDigit
  let (fraction, rest) :=
    match rest with
    | '.' :: rest => rest.span isDigit
    | rest => ([], rest)
  if whole.isEmpty && fraction.isEmpty then none
  else
    (readExponent? rest).map fun exponent =>
      ofScientific (natOfDigits (whole ++ fraction))
        (exponent - fraction.length)

/-
  The double that a number text spells: a sign, then `inf`,
  `infinity` or `nan` in any letter case, or a numeral.
-/
def read? (text : String) : Option Float :=
  let (negative, rest) := splitSign text.toList
  let magnitude :=
    match String.ofList (rest.map Char.toLower) with
    | "inf" | "infinity" => some infinity
    | "nan" => some notANumber
    | _ => readMagnitude? rest
  magnitude.map fun x => if negative then -x else x

end Lox.Decimal
