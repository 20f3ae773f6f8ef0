/-
  Places in a list that may be counted from its end: -1 is the
  last element, and -2 the one before it.

  Key definitions include:
    * `itemAt?`
    * `itemsBefore`
-/

------------------------------------------------------------
-- Places From Either End
------------------------------------------------------------

namespace Lox.Text

/- The number of items before a place; none if too far left. -/
def placeOf? (length : Nat) (index : Int) : Option Nat :=
  let place := if index < 0 then length + index else index
  if place < 0 then none else some place.toNat

/- The item at a place, if there is one. -/
def itemAt? {α : Type} (items : List α) (index : Int) :
    Option α :=
  (placeOf? items.length index).bind (items[·]?)

/- The items before a place; all of them beyond the end. -/
def itemsBefore {α : Type} (items : List α) (index : Int) :
    List α :=
  items.take ((placeOf? items.length index).getD 0)

end Lox.Text
