import Lox.Token.Basic
import Lox.Decimal.Reading
import Lox.Text.Index

/-
  From text to tokens.

  `recognize` finds the longest piece at the head of a text:
  blank space, a comment, a token, or something that begins
  no token. A `Scanner` keeps the text that is still to be
  read and the place reached in it; `Scanner.scan` moves over
  one piece, and `tokenize` over all of them. Errors never
  stop it, and the tokens always end with one of kind `eof`.

  Key definitions include:
    * `Piece`
    * `recognize`
    * `LexError`
    * `Scanner`
    * `Scanner.cross`
    * `Scanner.scan`
    * `Lexed`
    * `tokenize`
-/

------------------------------------------------------------
-- Character Classes
------------------------------------------------------------

namespace Lox

/- The blank characters that stay on their line. -/
def isSpace (c : Char) : Bool :=
  c = ' ' || c = '\r' || c = '\t'

/- The characters that an identifier can begin with. -/
def isIdentifierStart (c : Char) : Bool :=
  c = '_' || ('a' ≤ c && c ≤ 'z') || ('A' ≤ c && c ≤ 'Z')

/- The characters that an identifier can continue with. -/
def isIdentifierChar (c : Char) : Bool :=
  isIdentifierStart c || Decimal.isDigit c

end Lox

------------------------------------------------------------
-- Pieces of Text
------------------------------------------------------------

namespace Lox

/- What a piece of text is. -/
inductive Piece where
  | blank
  | token (kind : Kind) (literal : Literal)
  | unexpected (c : Char)
  | unterminated
deriving Repr, Inhabited

/- The operator or punctuation mark at the head of a text. -/
def operatorAt? (text : List Char) : Option (List Char × Kind) :=
  Kind.operators.find? fun (spelling, _) =>
    spelling.isPrefixOf text

/- The kind of a word: a keyword's own, or an identifier. -/
def wordKind (word : List Char) : Kind :=
  match Kind.keywords.find? fun (spelling, _) =>
    spelling = word with
  | some (_, kind) => kind
  | none => .identifier

/-
  A numeral at the head of a text. A point belongs to it only
  when a digit follows.
-/
def numeralAt
    (text : List Char) :
    List Char × List Char :=
  let whole := text.takeWhile Decimal.isDigit
  match text.dropWhile Decimal.isDigit with
  | '.' :: rest =>
      (whole, rest.takeWhile Decimal.isDigit)
  | _ => (whole, [])

/- The spelling of a numeral of two given parts. -/
def numeralText (whole fraction : List Char) : List Char :=
  if fraction.isEmpty then whole
  else whole ++ '.' :: fraction

/-
  A string from its opening quote, or all that is left of the
  text when no quote closes it.
-/
def stringAt (rest : List Char) : List Char × Piece :=
  let body := rest.takeWhile (· ≠ '"')
  if (rest.drop body.length).isEmpty then
    ('"' :: body, .unterminated)
  else
    ('"' :: body ++ ['"'],
      .token .string (.string (String.ofList body)))

/-
  The longest piece that a text of the form `c :: rest`
  begins with, and what it is.
-/
def recognize
    (c : Char)
    (rest : List Char) :
    List Char × Piece :=
  if isSpace c || c = '\n' then ([c], .blank)
  else if c = '/' && rest.head? = some '/' then
    (c :: rest.takeWhile (· ≠ '\n'), .blank)
  else if c = '"' then stringAt rest
  else if Decimal.isDigit c then
    let (whole, fraction) := numeralAt (c :: rest)
    (numeralText whole fraction,
      .token .number
        (.number (Decimal.ofNumeral whole fraction)))
  else if isIdentifierStart c then
    let word := c :: rest.takeWhile isIdentifierChar
    (word, .token (wordKind word) .nil)
  else
    match operatorAt? (c :: rest) with
    | some (spelling, kind) => (spelling, .token kind .nil)
    | none => ([c], .unexpected c)

end Lox

------------------------------------------------------------
-- Lexical Errors
------------------------------------------------------------

namespace Lox

/-
  The lexical errors: a character that begins no token (none
  when the scanner is asked to read beyond the end), and a
  string without its closing quote.
-/
inductive LexFault where
  | unexpected (c : Option Char)
  | unterminated
deriving DecidableEq, Repr

/- The wording of a lexical error. -/
def LexFault.message : LexFault → String
  | unexpected none => "Unexpected character ''."
  | unexpected (some c) => s!"Unexpected character '{c}'."
  | unterminated => "Unterminated string."

/- A lexical error and the line it is reported on. -/
structure LexError where
  fault : LexFault
  line : Int
deriving DecidableEq, Repr

namespace LexError

def message (e : LexError) : String :=
  e.fault.message

/- The error in one sentence. -/
def describe (e : LexError) : String :=
  s!"{e.message} at line {e.line}"

end LexError

end Lox

------------------------------------------------------------
-- The Scanner
------------------------------------------------------------

namespace Lox

/-
  The text that is still to be read, the number of characters
  read, and the line and column of the next one.
-/
structure Scanner where
  rest : List Char
  pos : Nat := 0
  line : Nat := 1
  column : Nat := 1
deriving DecidableEq, Repr

namespace Scanner

/- A scanner at the beginning of a text. -/
def ofText (text : String) : Scanner :=
  { rest := text.toList }

def atEnd (s : Scanner) : Bool :=
  s.rest.isEmpty

/-
  Moves over `n` characters of a line; the place moves on
  even where the text has ended.
-/
def advance (s : Scanner) (n : Nat) : Scanner :=
  { s with
    rest := s.rest.drop n
    pos := s.pos + n
    column := s.column + n }

/- Moves over the end of a line. -/
def newline (s : Scanner) : Scanner :=
  { s.advance 1 with
    line := s.line + 1
    column := 1 }

/- Moves over one given character. -/
def crossChar (s : Scanner) (c : Char) : Scanner :=
  if c = '\n' then s.newline else s.advance 1

/- Moves over a given piece of text. -/
def cross (s : Scanner) (text : List Char) : Scanner :=
  text.foldl crossChar s

/- Moves to the end of the line. -/
def skipComment (s : Scanner) : Scanner :=
  s.advance (s.rest.takeWhile (· ≠ '\n')).length

/- The characters that `advance n` moves over. -/
def ahead (s : Scanner) (n : Nat) : String :=
  String.ofList (s.rest.take n)

end Scanner

/- The refusal to move a scanner backward. -/
structure BackwardMove where
  distance : Int
deriving DecidableEq, Repr

def BackwardMove.message (e : BackwardMove) : String :=
  s!"advance() requires n >= 0, got {e.distance}"

/-
  Moves over a number of characters and gives them; the
  number must not be negative.
-/
def Scanner.move
    (s : Scanner)
    (n : Int) :
    Except BackwardMove (String × Scanner) :=
  if n < 0 then .error ⟨n⟩
  else .ok (s.ahead n.toNat, s.advance n.toNat)

/- The refusal to look at what is before the whole text. -/
structure LookOutside where
deriving DecidableEq, Repr

def LookOutside.message (_ : LookOutside) : String :=
  "string index out of range"

/-
  The character `k` places ahead in the text that is scanned,
  or NUL beyond the end. A place before the text counts from
  its end.
-/
def Scanner.peek
    (s : Scanner)
    (text : List Char)
    (k : Int) :
    Except LookOutside Char :=
  let place := s.pos + k
  if text.length ≤ place then .ok '\x00'
  else
    match Text.itemAt? text place with
    | some c => .ok c
    | none => .error {}

/- What a scanner finds at its place. -/
inductive Scanned where
  | blank
  | token (token : Token)
  | error (error : LexError)
deriving Repr

namespace Scanner

/-
  Moves over the piece at the scanner's place. A token stands
  where the piece begins; an error is reported on the line
  where it ends. At the end of the text there is no piece,
  and the place still moves on by one.
-/
def scan (s : Scanner) : Scanned × Scanner :=
  match s.rest with
  | [] =>
      (.error ⟨.unexpected none, s.line⟩, s.advance 1)
  | c :: rest =>
      let (text, piece) := recognize c rest
      let after := s.cross text
      match piece with
      | .blank => (.blank, after)
      | .token kind literal =>
          (.token
            { kind, lexeme := String.ofList text, literal,
              line := s.line, column := s.column },
            after)
      | .unexpected c =>
          (.error ⟨.unexpected (some c), after.line⟩, after)
      | .unterminated =>
          (.error ⟨.unterminated, after.line⟩, after)

/- The token that ends every list of tokens. -/
def endToken (s : Scanner) : Token :=
  { kind := .eof, lexeme := "",
    line := s.line, column := s.column }

end Scanner

end Lox

------------------------------------------------------------
-- Progress
------------------------------------------------------------

namespace Lox

/- A numeral that begins with a digit has one. -/
theorem numeralText_ne_nil
    (c : Char)
    (rest : List Char)
    (h : Decimal.isDigit c = true) :
    numeralText (numeralAt (c :: rest)).1
      (numeralAt (c :: rest)).2 ≠ [] := by
  unfold numeralText numeralAt
  split <;> split <;> simp [h]

/- Every operator has a spelling. -/
theorem operatorAt?_ne_nil
    {text spelling : List Char}
    {kind : Kind}
    (h : operatorAt? text = some (spelling, kind)) :
    spelling ≠ [] := by
  have hMem := List.mem_of_find?_eq_some h
  rintro rfl
  simp [Kind.operators] at hMem

/- A piece of text is never empty. -/
theorem recognize_ne_nil
    (c : Char)
    (rest : List Char) :
    (recognize c rest).1 ≠ [] := by
  unfold recognize
  split
  · simp
  · split
    · simp
    · split
      · unfold stringAt
        dsimp only
        split <;> simp
      · split
        · rename_i h
          exact numeralText_ne_nil c rest h
        · split
          · simp
          · split
            · rename_i h
              exact operatorAt?_ne_nil h
            · simp

namespace Scanner

@[simp]
theorem rest_crossChar (s : Scanner) (c : Char) :
    (s.crossChar c).rest = s.rest.drop 1 := by
  unfold crossChar
  split <;> rfl

@[simp]
theorem rest_cross (s : Scanner) (text : List Char) :
    (s.cross text).rest = s.rest.drop text.length := by
  induction text generalizing s with
  | nil => rfl
  | cons c text ih =>
      have hStep :
          s.cross (c :: text) = (s.crossChar c).cross text := rfl
      rw [hStep, ih, rest_crossChar, List.drop_drop,
        List.length_cons, Nat.add_comm]

/- Where text is left, `scan` reads some of it. -/
theorem length_scan_lt
    (s : Scanner)
    (h : s.rest ≠ []) :
    s.scan.2.rest.length < s.rest.length := by
  cases hRest : s.rest with
  | nil => exact absurd hRest h
  | cons c rest =>
      have hText := recognize_ne_nil c rest
      have hAfter : s.scan.2 = s.cross (recognize c rest).1 := by
        unfold scan
        rw [hRest]
        dsimp only
        split <;> rfl
      rw [hAfter, rest_cross, hRest, List.length_drop,
        List.length_cons]
      have := List.length_pos_iff.mpr hText
      omega

end Scanner

end Lox

------------------------------------------------------------
-- Tokenizing
------------------------------------------------------------

namespace Lox

/-
  The tokens of a text, the errors found in it, and the
  scanner after all of it.
-/
structure Lexed where
  tokens : List Token
  errors : List LexError
  final : Scanner
deriving Repr

namespace Scanner

/-
  Reads all the text that is left, adding to the tokens and
  errors found so far.
-/
def scanAll
    (s : Scanner)
    (tokens : Array Token)
    (errors : Array LexError) :
    Lexed :=
  if h : s.rest = [] then
    { tokens := (tokens.push s.endToken).toList
      errors := errors.toList
      final := s }
  else
    have := length_scan_lt s h
    let step := s.scan
    match step.1 with
    | .blank => scanAll step.2 tokens errors
    | .token t => scanAll step.2 (tokens.push t) errors
    | .error e => scanAll step.2 tokens (errors.push e)
termination_by s.rest.length

end Scanner

/- All tokens and errors of a text. -/
def tokenize (text : String) : Lexed :=
  (Scanner.ofText text).scanAll #[] #[]

end Lox
