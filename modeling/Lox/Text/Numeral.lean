import Lox.Text.Blank

/-
  Integers as they are written in settings.

  A numeral has decimal digits of any script, with single
  underscores between them, after at most one sign, and may
  have white space around it. It has at most 4300 digits.

  Key definitions include:
    * `digitValue?`
    * `readDigits?`
    * `readInteger?`
-/

------------------------------------------------------------
-- Decimal Digits
------------------------------------------------------------

namespace Lox.Text

/-
  The code points of the digit zero in every script of
  Unicode 14; the digits one to nine follow each of them.
-/
def zeroDigits : List Nat :=
  [ 0x30, 0x660, 0x6F0, 0x7C0, 0x966, 0x9E6, 0xA66, 0xAE6,
    0xB66, 0xBE6, 0xC66, 0xCE6, 0xD66, 0xDE6, 0xE50, 0xED0,
    0xF20, 0x1040, 0x1090, 0x17E0, 0x1810, 0x1946, 0x19D0,
    0x1A80, 0x1A90, 0x1B50, 0x1BB0, 0x1C40, 0x1C50, 0xA620,
    0xA8D0, 0xA900, 0xA9D0, 0xA9F0, 0xAA50, 0xABF0, 0xFF10,
    0x104A0, 0x10D30, 0x11066, 0x110F0, 0x11136, 0x111D0,
    0x112F0, 0x11450, 0x114D0, 0x11650, 0x116C0, 0x11730,
    0x118E0, 0x11950, 0x11C50, 0x11D50, 0x11DA0, 0x16A60,
    0x16AC0, 0x16B50, 0x1D7CE, 0x1D7D8, 0x1D7E2, 0x1D7EC,
    0x1D7F6, 0x1E140, 0x1E2F0, 0x1E950, 0x1FBF0 ]

/- The value of a decimal digit of any script. -/
def digitValue? (c : Char) : Option Nat :=
  (zeroDigits.find? fun first =>
    first ≤ c.toNat && c.toNat < first + 10).map
    fun first => c.toNat - first

end Lox.Text

------------------------------------------------------------
-- Integers
------------------------------------------------------------

namespace Lox.Text

/-
  The white space around a numeral: the separators U+001C to
  U+001F do not belong to it.
-/
def isNumeralBlank (c : Char) : Bool :=
  isBlank c && !(0x1C ≤ c.toNat && c.toNat ≤ 0x1F)

/-
  The values of digits with single underscores between them;
  `after` tells whether a digit stands before the text.
-/
def readDigits? : (after : Bool) → List Char → Option (List Nat)
  | after, [] => if after then some [] else none
  | after, c :: rest =>
      if c = '_' then
        if after then readDigits? false rest else none
      else
        match digitValue? c with
        | none => none
        | some d => (readDigits? true rest).map (d :: ·)

/- The greatest number of digits of a numeral. -/
def maxDigits : Nat := 4300

/- The natural number that digit values spell. -/
def natOfValues (values : List Nat) : Nat :=
  values.foldl (fun n d => 10 * n + d) 0

/- The text without the white space around it. -/
def trimNumeral (text : List Char) : List Char :=
  ((text.dropWhile isNumeralBlank).reverse.dropWhile
    isNumeralBlank).reverse

/- The integer that a text spells, if it spells one. -/
def readInteger? (text : String) : Option Int :=
  let (negative, digits) :=
    match trimNumeral text.toList with
    | '-' :: rest => (true, rest)
    | '+' :: rest => (false, rest)
    | rest => (false, rest)
  match readDigits? false digits with
  | none => none
  | some values =>
      if maxDigits < values.length then none
      else
        let n := (natOfValues values : Int)
        some (if negative then -n else n)

end Lox.Text
