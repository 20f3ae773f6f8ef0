/-
  The shortest decimal that reads back as a given double.

  A positive finite double is `mantissa * 2 ^ exponent`. The
  reals that round to it form an interval, whose ends belong
  to it exactly when the mantissa is even. The shortest
  decimal is found on the coarsest grid of multiples of a
  power of ten that has a point in the interval; of two such
  points the nearer to the double is taken, and the even one
  when both are equally near.

  Key definitions include:
    * `Dyadic`
    * `Dyadic.ofFloat`
    * `Scientific`
    * `Dyadic.onGrid`
    * `Dyadic.shortest`
-/

------------------------------------------------------------
-- Powers
------------------------------------------------------------

namespace Lox.Decimal

def twoTo (exponent : Nat) : Nat :=
  Nat.pow 2 exponent

def tenTo (exponent : Nat) : Nat :=
  Nat.pow 10 exponent

end Lox.Decimal

------------------------------------------------------------
-- Dyadic Numbers
------------------------------------------------------------

namespace Lox.Decimal

/- The positive number `mantissa * 2 ^ exponent`. -/
structure Dyadic where
  mantissa : Nat
  exponent : Int
deriving DecidableEq, Repr

namespace Dyadic

/- The absolute value of a finite double. -/
def ofFloat (x : Float) : Dyadic :=
  let bits : Nat := x.toBits.toNat
  let fraction : Nat := bits % twoTo 52
  let biased : Nat := bits / twoTo 52 % twoTo 11
  if biased = 0 then ⟨fraction, -1074⟩
  else ⟨fraction + twoTo 52, (biased : Int) - 1075⟩

/-
  Whether the double just below is only half as far away as
  the one just above: so at the powers of two, except where
  the spacing of the doubles does not shrink any more.
-/
def isLowestOfBinade (d : Dyadic) : Bool :=
  d.mantissa = twoTo 52 && d.exponent ≠ -1074

end Dyadic

end Lox.Decimal

------------------------------------------------------------
-- Decimal Grids
------------------------------------------------------------

namespace Lox.Decimal

/- The number `digits * 10 ^ exponent`. -/
structure Scientific where
  digits : Nat
  exponent : Int
deriving DecidableEq, Repr

namespace Dyadic

/-
  The point of the grid of multiples of `10 ^ place` that
  reads back as `d`, if there is one.

  All quantities are taken in units of `1 / unit`, the
  fourth part of the spacing of the doubles being `quarter`
  and the spacing of the grid being `step`.
-/
def onGrid
    (d : Dyadic)
    (place : Int) :
    Option Scientific :=
  let e := d.exponent - 2
  let quarter := twoTo e.toNat * tenTo (-place).toNat
  let step := tenTo place.toNat * twoTo (-e).toNat
  let value := 4 * d.mantissa * quarter
  let low :=
    if d.isLowestOfBinade then value - quarter
    else value - 2 * quarter
  let high := value + 2 * quarter
  let closed := d.mantissa % 2 = 0
  let inside (point : Nat) : Bool :=
    if closed then low ≤ point && point ≤ high
    else low < point && point < high
  let below := value / step
  let above := below + 1
  let hitBelow := inside (below * step)
  let hitAbove := inside (above * step)
  if hitBelow && hitAbove then
    let toBelow := value - below * step
    let toAbove := above * step - value
    if toBelow < toAbove then some ⟨below, place⟩
    else if toAbove < toBelow then some ⟨above, place⟩
    else if below % 2 = 0 then some ⟨below, place⟩
    else some ⟨above, place⟩
  else if hitBelow then some ⟨below, place⟩
  else if hitAbove then some ⟨above, place⟩
  else none

/-
  The first hit on the grids from `place` downward, trying
  at most `tries` of them.
-/
def searchGrids
    (d : Dyadic) :
    (tries : Nat) → (place : Int) → Option Scientific
  | 0, _ => none
  | tries + 1, place =>
      match d.onGrid place with
      | some s => some s
      | none => searchGrids d tries (place - 1)

/-
  A place of ten above the leading digit of the number, by
  at most two: a binary digit is worth 0.30103 decimal ones.
-/
def topPlace (d : Dyadic) : Int :=
  ((d.mantissa.log2 : Int) + d.exponent) * 30103 / 100000 + 2

/-
  The shortest decimal that reads back as the number. Every
  double has one of at most seventeen digits.
-/
def shortest (d : Dyadic) : Scientific :=
  (d.searchGrids 24 d.topPlace).getD ⟨0, 0⟩

end Dyadic

end Lox.Decimal
