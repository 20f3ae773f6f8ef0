/-
  How much of a machine the language may use.

  Programs are not bounded in what they nest and repeat, but
  every machine that runs them is. All functions that read and
  run programs are given such bounds; within them, a larger
  bound never changes an answer.

  Key definitions include:
    * `Limits`
    * `Limits.ofDepth`
    * `Limits.standard`
-/

------------------------------------------------------------
-- Limits
------------------------------------------------------------

namespace Lox

/-
  The nesting of a program's text, in rules of the grammar one
  within another, the nesting of the steps of its run, and the
  rounds of each of its loops.
-/
structure Limits where
  nesting : Nat
  frames : Nat
  rounds : Nat
deriving DecidableEq, Repr, Inhabited

/- The depth that is always allowed. -/
def Limits.leastDepth : Nat := 20000

/- A depth that the stack of a usual machine can bear. -/
def Limits.greatestDepth : Nat := 1000000

/-
  The limits of a given depth, within what is always allowed
  and what can be borne, and with more rounds than a machine
  can ever run through.
-/
def Limits.ofDepth (depth : Int) : Limits :=
  let depth := min greatestDepth (max leastDepth depth.toNat)
  { nesting := depth, frames := depth, rounds := Nat.pow 2 62 }

def Limits.standard : Limits :=
  .ofDepth leastDepth

end Lox
