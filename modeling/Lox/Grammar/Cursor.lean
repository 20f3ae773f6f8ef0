import Lox.Program.Basic

/-
  Reading a list of tokens, with the errors found on the way.

  A `Cursor` holds the tokens before the first one of kind
  `eof`, so that reading can never pass that token, and the
  errors recorded so far. A `Reader` moves a cursor; it stops
  early either at an error, which it has recorded, or where
  the nesting of the program is too deep.

  Key definitions include:
    * `GrammarFault`
    * `ParseError`
    * `Cursor`
    * `Cursor.ofTokens`
    * `Cursor.synchronize`
    * `Halt`
    * `Reader`
-/

------------------------------------------------------------
-- Errors
------------------------------------------------------------

namespace Lox

/- What can be wrong with the structure of a program. -/
inductive GrammarFault where
  | expectExpression
  | expectGroupEnd
  | expectArgumentsEnd
  | tooManyArguments
  | invalidTarget
  | expectFunctionName
  | expectFunctionParen
  | expectParameterName
  | expectParametersEnd
  | tooManyParameters
  | expectFunctionBody
  | expectVariableName
  | expectVariableEnd
  | expectForParen
  | expectLoopConditionEnd
  | expectForEnd
  | expectIfParen
  | expectIfConditionEnd
  | expectWhileParen
  | expectConditionEnd
  | expectPrintEnd
  | expectReturnEnd
  | expectBlockEnd
  | expectExpressionEnd
  | nestingTooDeep
deriving DecidableEq, Repr

namespace GrammarFault

/- The greatest number of arguments or parameters. -/
def maxArguments : Nat := 255

/- The wording of a structural error. -/
def message : GrammarFault → String
  | expectExpression => "Expect expression."
  | expectGroupEnd => "Expect ')' after expression."
  | expectArgumentsEnd => "Expect ')' after arguments."
  | tooManyArguments =>
      s!"Can't have more than {maxArguments} arguments."
  | invalidTarget => "Invalid assignment target."
  | expectFunctionName => "Expect function name."
  | expectFunctionParen =>
      "Expect '(' after function name."
  | expectParameterName => "Expect parameter name."
  | expectParametersEnd => "Expect ')' after parameters."
  | tooManyParameters =>
      s!"Can't have more than {maxArguments} parameters."
  | expectFunctionBody =>
      "Expect '\x7b' before function body."
  | expectVariableName => "Expect variable name."
  | expectVariableEnd =>
      "Expect ';' after variable declaration."
  | expectForParen => "Expect '(' after 'for'."
  | expectLoopConditionEnd =>
      "Expect ';' after loop condition."
  | expectForEnd => "Expect ')' after for clauses."
  | expectIfParen => "Expect '(' after 'if'."
  | expectIfConditionEnd =>
      "Expect ')' after if condition."
  | expectWhileParen => "Expect '(' after 'while'."
  | expectConditionEnd => "Expect ')' after condition."
  | expectPrintEnd => "Expect ';' after value."
  | expectReturnEnd => "Expect ';' after return value."
  | expectBlockEnd => "Expect '\x7d' after block."
  | expectExpressionEnd => "Expect ';' after expression."
  | nestingTooDeep => "Expression nesting too deep."

/-
  Whether reading stops at the error. The others are recorded
  and reading goes on as if nothing had happened.
-/
def isFatal : GrammarFault → Bool
  | tooManyArguments | invalidTarget | tooManyParameters =>
      false
  | _ => true

end GrammarFault

/-
  A structural error, the token it blames, and the number of
  tokens that stand before that token.
-/
structure ParseError where
  fault : GrammarFault
  token : Token
  place : Nat
deriving Repr

namespace ParseError

def message (e : ParseError) : String :=
  e.fault.message

/- The error in one sentence. -/
def describe (e : ParseError) : String :=
  s!"{e.message} at line {e.token.line}"

end ParseError

end Lox

------------------------------------------------------------
-- Cursors
------------------------------------------------------------

namespace Lox

/-
  The tokens still to be read, the end token after them, the
  number of tokens read, and the errors recorded so far.
-/
structure Cursor where
  upcoming : List Token
  last : Token
  place : Nat := 0
  errors : Array ParseError := #[]
deriving Repr

namespace Cursor

/-
  The end token of a list that has none: it stands on the
  line of the last token.
-/
def missingEnd (tokens : List Token) : Token :=
  { kind := .eof, lexeme := ""
    line := (tokens.getLast?.map (·.line)).getD 1 }

/- A cursor at the first token of a list. -/
def ofTokens (tokens : List Token) : Cursor :=
  { upcoming := tokens.takeWhile (·.kind ≠ .eof)
    last :=
      (tokens.find? (·.kind = .eof)).getD
        (missingEnd tokens) }

/- The token at the cursor. -/
def current (c : Cursor) : Token :=
  c.upcoming.head?.getD c.last

def atEnd (c : Cursor) : Bool :=
  c.upcoming.isEmpty

/- Moves over one token; at the end, nothing moves. -/
def advance (c : Cursor) : Cursor :=
  match c.upcoming with
  | [] => c
  | _ :: rest => { c with upcoming := rest, place := c.place + 1 }

/- Records an error that blames a given token. -/
def record
    (c : Cursor)
    (fault : GrammarFault)
    (token : Token)
    (place : Nat) :
    Cursor :=
  { c with errors := c.errors.push ⟨fault, token, place⟩ }

/- Records an error that blames the token at the cursor. -/
def recordHere (c : Cursor) (fault : GrammarFault) : Cursor :=
  c.record fault c.current c.place

/-
  How many tokens, of those after a given one, are skipped to
  come to where a statement probably begins: after a
  semicolon, or before a word that begins a statement.
-/
def skipCount (previous : Token) : List Token → Nat
  | [] => 0
  | t :: rest =>
      if previous.kind = .semicolon then 0
      else if t.kind.startsStatement then 0
      else skipCount t rest + 1

/-
  Moves over the token at the cursor and on to where a
  statement probably begins.
-/
def synchronize (c : Cursor) : Cursor :=
  match c.upcoming with
  | [] => c
  | t :: rest =>
      let n := skipCount t rest
      { c with upcoming := rest.drop n, place := c.place + 1 + n }

end Cursor

end Lox

------------------------------------------------------------
-- Readers
------------------------------------------------------------

namespace Lox

/-
  Why a reader stopped early: at an error that it recorded,
  or because it ran out of nesting.
-/
inductive Halt where
  | failed
  | tooDeep
deriving DecidableEq, Repr

/- A step of reading that moves a cursor. -/
abbrev Reader (α : Type) :=
  EStateM Halt Cursor α

namespace Reader

/- Records an error at the cursor and stops. -/
def fail {α : Type} (fault : GrammarFault) : Reader α :=
  fun c => .error .failed (c.recordHere fault)

/- Stops because the nesting is too deep. -/
def tooDeep {α : Type} : Reader α :=
  fun c => .error .tooDeep c

/- Records an error at a given place and goes on. -/
def noteAt
    (fault : GrammarFault)
    (token : Token)
    (place : Nat) :
    Reader Unit :=
  fun c => .ok () (c.record fault token place)

/- Records an error at the cursor and goes on. -/
def note (fault : GrammarFault) : Reader Unit :=
  fun c => .ok () (c.recordHere fault)

/- The tokens still to be read. -/
def upcoming : Reader (List Token) :=
  fun c => .ok c.upcoming c

/- The number of tokens read. -/
def place : Reader Nat :=
  fun c => .ok c.place c

/- Whether all tokens have been read. -/
def atEnd : Reader Bool :=
  fun c => .ok c.atEnd c

/- Whether the token at the cursor is of the kind. -/
def nextIs (kind : Kind) : Reader Bool :=
  fun c =>
    match c.upcoming with
    | [] => .ok false c
    | t :: _ => .ok (t.kind = kind) c

/- Moves over a token of one of some kinds, if one is next. -/
def accept (kinds : Kind → Bool) : Reader (Option Token) :=
  fun c =>
    match c.upcoming with
    | [] => .ok none c
    | t :: _ =>
        if kinds t.kind then .ok (some t) c.advance
        else .ok none c

/- Moves over a token of the kind, if one is next. -/
def accepts (kind : Kind) : Reader Bool :=
  return (← accept (· = kind)).isSome

/-
  Reads a part that is left out where a token of the kind is
  next.
-/
def unlessNext
    {α : Type}
    (kind : Kind)
    (absent : α)
    (part : Reader α) :
    Reader α := do
  if ← nextIs kind then return absent
  else part

/- Reads a part that has to follow a token of the kind. -/
def optionalAfter
    {α : Type}
    (kind : Kind)
    (part : Reader α) :
    Reader (Option α) := do
  if ← accepts kind then some <$> part
  else return none

/- Moves over a token that has to be of the kind. -/
def expect (kind : Kind) (fault : GrammarFault) : Reader Token := do
  match ← accept (· = kind) with
  | some t => return t
  | none => fail fault

/-
  A reader that gives up on its statement at an error and
  moves on to where the next one probably begins.
-/
def recovering {α : Type} (reader : Reader α) : Reader (Option α) :=
  fun c =>
    match reader c with
    | .ok a c => .ok (some a) c
    | .error .failed c => .ok none c.synchronize
    | .error .tooDeep c => .error .tooDeep c

/-
  Reads the items that follow `count` others, each after a
  comma. An item beyond the greatest number allowed is
  recorded as an error and kept. The list of `ticks` has a
  token for each comma that could still follow.
-/
def itemsFrom
    {α : Type}
    (item : Reader α)
    (tooMany : GrammarFault) :
    (ticks : List Token) → (count : Nat) → (items : List α) →
    Reader (List α)
  | [], _, items => return items.reverse
  | _ :: ticks, count, items => do
    if ← accepts .comma then
      if GrammarFault.maxArguments ≤ count then
        note tooMany
      let x ← item
      itemsFrom item tooMany ticks (count + 1) (x :: items)
    else
      return items.reverse

/- Reads one or more items with commas between them. -/
def items
    {α : Type}
    (item : Reader α)
    (tooMany : GrammarFault) :
    Reader (List α) := do
  let ticks ← upcoming
  let first ← item
  itemsFrom item tooMany ticks 1 [first]

end Reader

end Lox
