import Lox.Token.Scanner

/-
  Typing at the prompt.

  While a parenthesis or brace of the text is open, the enter
  key begins a new line, indented by the number of those open;
  otherwise it hands the text in. A text that begins with a
  slash is always handed in.

  Key definitions include:
    * `openDepth`
    * `normalize`
    * `Key`
    * `Typing`
    * `Typing.press`
-/

------------------------------------------------------------
-- Open Brackets
------------------------------------------------------------

namespace Lox.Console

/-
  The number of open brackets after a token. A closing one
  without an opening one counts for nothing.
-/
def depthAfter (depth : Nat) (token : Token) : Nat :=
  match token.kind with
  | .leftParen | .leftBrace => depth + 1
  | .rightParen | .rightBrace => depth - 1
  | _ => depth

/- The number of brackets that are open at a text's end. -/
def openDepth (text : String) : Nat :=
  (tokenize text).tokens.foldl depthAfter 0

end Lox.Console

------------------------------------------------------------
-- Invisible Characters
------------------------------------------------------------

namespace Lox.Console

/- The characters that are removed from a text handed in. -/
def isInvisible (c : Char) : Bool :=
  [ '\u200B', '\u200C', '\u200D', '\uFEFF', '\u00A0',
    '\r' ].contains c

/- A text without its invisible characters. -/
def normalize (text : String) : String :=
  String.ofList (text.toList.filter (!isInvisible ·))

end Lox.Console

------------------------------------------------------------
-- Keys
------------------------------------------------------------

namespace Lox.Console

/- The keys of the prompt. -/
inductive Key where
  | enter
  | backspace
  | text (typed : String)
deriving DecidableEq, Repr

/- A text that is being typed, with the cursor at its end. -/
structure Typing where
  text : String := ""
  accepted : Bool := false
  completed : List String := []
deriving DecidableEq, Repr

namespace Typing

def beginsWithSlash (text : String) : Bool :=
  text.toList.head? = some '/'

/- The indentation of a new line. -/
def newLine (depth : Nat) : String :=
  String.ofList ('\n' :: List.replicate (4 * depth) ' ')

/- Presses the enter key. -/
def pressEnter (t : Typing) : Typing :=
  let depth := openDepth t.text
  if !beginsWithSlash t.text && 0 < depth then
    { t with text := t.text ++ newLine depth }
  else { t with accepted := true }

/-
  Presses the backspace key. What is left of a command is
  completed.
-/
def pressBackspace (t : Typing) : Typing :=
  let text := String.ofList t.text.toList.dropLast
  let t := { t with text }
  if beginsWithSlash text then
    { t with completed := t.completed ++ [text] }
  else t

/- Presses a key, unless the text has been handed in. -/
def press (t : Typing) (key : Key) : Typing :=
  if t.accepted then t
  else
    match key with
    | .enter => t.pressEnter
    | .backspace => t.pressBackspace
    | .text typed => { t with text := t.text ++ typed }

/- Presses some keys one after another. -/
def pressAll (keys : List Key) : Typing :=
  keys.foldl press {}

end Typing

end Lox.Console
