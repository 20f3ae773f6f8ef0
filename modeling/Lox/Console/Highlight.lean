import Lox.Text.Blank
import Lox.Text.Quoted
import Lox.Token.Scanner

/-
  Source lines in colour.

  Every token is shown in the style of its group. The text
  between two tokens is shown without a style, unless it holds
  a comment, the beginning of a string or a stray character.

  Key definitions include:
    * `Group`
    * `Group.style`
    * `groupOf`
    * `Span`
    * `gapSpans`
    * `highlightLine`
    * `highlightDocument`
-/

------------------------------------------------------------
-- Groups
------------------------------------------------------------

namespace Lox.Console

/- The groups of text that have a style of their own. -/
inductive Group where
  | keyword | constant | reserved | number | string
  | identifier | function | operator | punctuation
  | comment | error
deriving DecidableEq, Repr, Inhabited

namespace Group

/- The name of a group. -/
def name : Group → String
  | keyword => "keyword"
  | constant => "constant"
  | reserved => "reserved"
  | number => "number"
  | string => "string"
  | identifier => "identifier"
  | function => "function"
  | operator => "operator"
  | punctuation => "punctuation"
  | comment => "comment"
  | error => "error"

/- The style that a group is shown in. -/
def style : Group → String
  | keyword => "bold ansicyan"
  | constant => "ansicyan"
  | reserved => "italic ansiblue"
  | number => "ansimagenta"
  | string => "ansigreen"
  | identifier => ""
  | function => "bold ansiyellow"
  | operator => ""
  | punctuation => ""
  | comment => "italic ansigray"
  | error => "bold ansired"

end Group

/-
  The group of a token between the token before it and the
  token after it, if there are such. A name is that of a
  function after `fun` and before a parenthesis.
-/
def groupOf
    (before : Option Token)
    (token : Token)
    (after : Option Token) :
    Group :=
  match token.kind with
  | .trueKw | .falseKw | .nilKw => .constant
  | .classKw | .thisKw | .superKw => .reserved
  | .number => .number
  | .string => .string
  | .identifier =>
      if before.any (·.kind = .funKw) ||
          after.any (·.kind = .leftParen) then
        .function
      else .identifier
  | .leftParen | .rightParen | .leftBrace | .rightBrace
  | .comma | .semicolon | .dot => .punctuation
  | kind => if kind.isKeyword then .keyword else .operator

/- Each token of a list with its group. -/
def groupsFrom
    (before : Option Token) :
    List Token → List (Token × Group)
  | [] => []
  | t :: rest =>
      (t, groupOf before t rest.head?) :: groupsFrom (some t) rest

/- Each token of a list with its group. -/
def groups (tokens : List Token) : List (Token × Group) :=
  groupsFrom none tokens

end Lox.Console

------------------------------------------------------------
-- Spans
------------------------------------------------------------

namespace Lox.Console

/- A piece of text and the style it is shown in. -/
structure Span where
  style : String
  text : List Char
deriving DecidableEq, Repr

/- A piece of text without a style. -/
def Span.plain (text : List Char) : Span :=
  ⟨"", text⟩

/- The text before the first two slashes, if there are any. -/
def beforeSlashes? : List Char → Option (List Char)
  | [] => none
  | c :: rest =>
      if c = '/' && rest.head? = some '/' then some []
      else (beforeSlashes? rest).map (c :: ·)

/- The text between two tokens. -/
def gapSpans (gap : List Char) : List Span :=
  match beforeSlashes? gap with
  | some before =>
      let comment : Span :=
        ⟨Group.comment.style, gap.drop before.length⟩
      if before.isEmpty then [comment]
      else [.plain before, comment]
  | none =>
      if Text.isAllBlank gap then [.plain gap]
      else if (Text.dropBlanks gap).head? = some '"' then
        [⟨Group.string.style, gap⟩]
      else [⟨Group.error.style, gap⟩]

end Lox.Console

------------------------------------------------------------
-- Lines And Documents
------------------------------------------------------------

namespace Lox.Console

/-
  The spans from a place of the text on, of which `rest` is
  left. A token that stands before the place is skipped.
-/
def spansFrom :
    List (Token × Group) → (place : Nat) → (rest : List Char) →
    List Span
  | [], _, rest =>
      if rest.isEmpty then [] else gapSpans rest
  | (token, group) :: tokens, place, rest =>
      let start := (token.column - 1).toNat
      if start < place then spansFrom tokens place rest
      else
        let gap := rest.take (start - place)
        let before := if place < start then gapSpans gap else []
        let lexeme := token.lexeme.toList
        before ++ ⟨group.style, lexeme⟩ ::
          spansFrom tokens (start + lexeme.length)
            (rest.drop (start - place + lexeme.length))

/- A line of a source in colour. -/
def highlightLine (text : String) : List Span :=
  let tokens := (tokenize text).tokens.filter (·.kind ≠ .eof)
  let spans := spansFrom (groups tokens) 0 text.toList
  if spans.isEmpty then [.plain text.toList] else spans

/- The lines of a document. -/
def documentLines (text : String) : List String :=
  (text.toList.splitOn '\n').map String.ofList

/- The refusal to show a line before the first. -/
structure NoSuchLine where
deriving DecidableEq, Repr

def NoSuchLine.message (_ : NoSuchLine) : String :=
  "list index out of range"

/-
  A line of a document in colour. Lines are read one by one.
  One after the last is empty, and those of negative numbers
  count from the last.
-/
def highlightDocument
    (text : String)
    (line : Int) :
    Except NoSuchLine (List Span) :=
  let lines := documentLines text
  if lines.length ≤ line then .ok [.plain []]
  else
    match Text.itemAt? lines line with
    | some line => .ok (highlightLine line)
    | none => .error {}

/- The dump of a token. -/
def describeToken (t : Token) : String :=
  let lexeme := Text.quoted t.lexeme
  s!"Tok({t.kind.name}, {lexeme}, {t.line}:{t.column})"

end Lox.Console
