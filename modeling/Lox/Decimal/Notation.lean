import Lox.Decimal.Shortest

/-
  The text of a number.

  A number is written with the fewest digits that read back
  as the same double. With `e` the decimal exponent of its
  leading digit, the notation is plain for `-4 ≤ e < 16` and
  scientific otherwise; an integer is written without a
  point, and an exponent with its sign and at least two
  digits.

  Key definitions include:
    * `isPlainExponent`
    * `Scientific.text`
    * `text`
-/

------------------------------------------------------------
-- Digits
------------------------------------------------------------

namespace Lox.Decimal

/- The decimal digits of a natural number. -/
def natDigits (n : Nat) : List Char :=
  Nat.toDigits 10 n

/- The exponent of a scientific notation. -/
def exponentText (e : Int) : List Char :=
  let digits := natDigits e.natAbs
  let sign := if e < 0 then '-' else '+'
  if digits.length < 2 then 'e' :: sign :: '0' :: digits
  else 'e' :: sign :: digits

end Lox.Decimal

------------------------------------------------------------
-- Notations
------------------------------------------------------------

namespace Lox.Decimal

/- The decimal exponents that are written in plain notation. -/
def isPlainExponent (e : Int) : Bool :=
  -4 ≤ e && e < 16

namespace Scientific

/- The exponent of the leading digit. -/
def leadingExponent (s : Scientific) : Int :=
  s.exponent + (natDigits s.digits).length - 1

/- The number in plain notation. -/
def plain (s : Scientific) : List Char :=
  let digits := natDigits s.digits
  if 0 ≤ s.exponent then
    digits ++ List.replicate s.exponent.toNat '0'
  else
    let places := (-s.exponent).toNat
    if digits.length ≤ places then
      '0' :: '.' ::
        List.replicate (places - digits.length) '0' ++ digits
    else
      let whole := digits.length - places
      digits.take whole ++ '.' :: digits.drop whole

/- The number with one digit before the point. -/
def scientific (s : Scientific) : List Char :=
  match natDigits s.digits with
  | [] => []
  | first :: rest =>
      let point := if rest.isEmpty then [] else '.' :: rest
      first :: point ++ exponentText s.leadingExponent

/- The number in the notation that its size asks for. -/
def text (s : Scientific) : List Char :=
  if isPlainExponent s.leadingExponent then s.plain
  else s.scientific

end Scientific

end Lox.Decimal

------------------------------------------------------------
-- The Text of a Double
------------------------------------------------------------

namespace Lox.Decimal

/- Whether the sign bit of a double is set. -/
def isNegative (x : Float) : Bool :=
  twoTo 63 ≤ x.toBits.toNat

/- The text of a double without its sign. -/
def magnitudeText (x : Float) : List Char :=
  let bits := x.toBits.toNat % twoTo 63
  if bits = 0 then ['0']
  else if bits = 2047 * twoTo 52 then ['i', 'n', 'f']
  else (Dyadic.ofFloat x).shortest.text

/- The text of a double; a negative zero shows its sign. -/
def text (x : Float) : String :=
  if x.isNaN then "nan"
  else if isNegative x then
    String.ofList ('-' :: magnitudeText x)
  else String.ofList (magnitudeText x)

end Lox.Decimal
