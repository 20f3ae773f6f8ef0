/-
  White space of a command line: the characters that are
  trimmed around a command and that separate its words.

  The set is the Unicode property White_Space together with
  the four separators U+001C to U+001F.

  Key definitions include:
    * `isBlank`
    * `dropBlanks`
    * `trim`
    * `firstWord`
-/

------------------------------------------------------------
-- White Space
------------------------------------------------------------

namespace Lox.Text

/- The ranges of blank code points, in increasing order. -/
def blankRanges : List (Nat × Nat) :=
  [ (0x09, 0x0D), (0x1C, 0x20), (0x85, 0x85), (0xA0, 0xA0),
    (0x1680, 0x1680), (0x2000, 0x200A), (0x2028, 0x2029),
    (0x202F, 0x202F), (0x205F, 0x205F), (0x3000, 0x3000) ]

/- A character is blank when one of the ranges holds it. -/
def isBlank (c : Char) : Bool :=
  blankRanges.any fun (low, high) =>
    low ≤ c.toNat && c.toNat ≤ high

end Lox.Text

------------------------------------------------------------
-- Trimming and Words
------------------------------------------------------------

namespace Lox.Text

/- The text from its first character that is not blank. -/
def dropBlanks (text : List Char) : List Char :=
  text.dropWhile isBlank

/- The text without the blanks at its end. -/
def dropBlanksRight (text : List Char) : List Char :=
  (dropBlanks text.reverse).reverse

/- The text without the blanks at its two ends. -/
def trim (text : List Char) : List Char :=
  dropBlanksRight (dropBlanks text)

/- A text is blank when it holds nothing but blanks. -/
def isAllBlank (text : List Char) : Bool :=
  text.all isBlank

/-
  The first word of a text and what follows the blanks
  after it; blanks before the word are dropped.
-/
def firstWord
    (text : List Char) :
    List Char × List Char :=
  let (word, rest) := (dropBlanks text).span (!isBlank ·)
  (word, dropBlanks rest)

end Lox.Text

------------------------------------------------------------
-- Letter Case
------------------------------------------------------------

namespace Lox.Text

/-
  The lower-case form of the ASCII letters. It is enough to
  recognise words spelled with the letters a-z other than
  'k', to which no other character is lowered.
-/
def lower (text : List Char) : List Char :=
  text.map Char.toLower

end Lox.Text
