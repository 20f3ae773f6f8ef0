import Lox.Text.Printable

/-
  Quoted texts, as the tree dump and the listings of names
  and tokens show them.

  A text is put between single quotes, or between double
  quotes when it holds a single quote and no double quote.
  The chosen quote, the backslash and every character that
  is not printable are escaped.

  Key definitions include:
    * `quoteFor`
    * `escape`
    * `quoted`
-/

------------------------------------------------------------
-- Hexadecimal Escapes
------------------------------------------------------------

namespace Lox.Text

/- The last `width` lower-case hexadecimal digits of a number. -/
def hexDigits : (width n : Nat) → List Char
  | 0, _ => []
  | width + 1, n =>
      hexDigits width (n / 16) ++ [Nat.digitChar (n % 16)]

/-
  The escape of a code point: two, four or eight hexadecimal
  digits after a letter that tells how many.
-/
def hexEscape (code : Nat) : List Char :=
  if code < 0x100 then '\\' :: 'x' :: hexDigits 2 code
  else if code < 0x10000 then
    '\\' :: 'u' :: hexDigits 4 code
  else '\\' :: 'U' :: hexDigits 8 code

end Lox.Text

------------------------------------------------------------
-- Quoting
------------------------------------------------------------

namespace Lox.Text

/- The quote that is put around a text. -/
def quoteFor (text : List Char) : Char :=
  if text.contains '\'' && !text.contains '"' then '"'
  else '\''

/- How one character is written between two given quotes. -/
def escape (quote c : Char) : List Char :=
  if c = quote then ['\\', c]
  else if c = '\\' then ['\\', '\\']
  else if c = '\t' then ['\\', 't']
  else if c = '\n' then ['\\', 'n']
  else if c = '\r' then ['\\', 'r']
  else if isPrintable c then [c]
  else hexEscape c.toNat

/- A text between quotes, with its characters escaped. -/
def quotedChars (text : List Char) : List Char :=
  let quote := quoteFor text
  quote :: text.flatMap (escape quote) ++ [quote]

/- The quoted form of a string. -/
def quoted (text : String) : String :=
  String.ofList (quotedChars text.toList)

end Lox.Text
