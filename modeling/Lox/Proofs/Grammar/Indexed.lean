import Lox.Grammar.Statement

/-
  Reading by place in the list of tokens.

  This reader is spelled out with a place in the whole list of
  tokens and has no ticks. Instead it gets stuck where it does
  what it must not: where it looks at a place outside of the
  list or before its first token, where it moves past the first
  end token, where a round of a loop leaves as many tokens to
  be read as there were before it, and where a declaration that
  does not start at the end is read without moving on.

  Key definitions include:
    * `Indexed.State`
    * `Indexed.Step`
    * `Indexed.peek`, `Indexed.previous`
    * `Indexed.rounds`
    * `Indexed.declaration`
    * `Indexed.parse`
-/

------------------------------------------------------------
-- Steps
------------------------------------------------------------

namespace Lox.Indexed

/- All tokens, the place reached, and the errors so far. -/
structure State where
  tokens : List Token
  place : Nat := 0
  errors : Array ParseError := #[]

/- The number of tokens from the place on. -/
def State.left (s : State) : Nat :=
  s.tokens.length - s.place

/- Why a step stops: as readers do, or because it is stuck. -/
inductive Stop where
  | halt (halt : Halt)
  | stuck
deriving DecidableEq

/- A step of reading by place. -/
abbrev Step (α : Type) :=
  EStateM Stop State α

def stuck {α : Type} : Step α :=
  fun s => .error .stuck s

def stop {α : Type} (halt : Halt) : Step α :=
  fun s => .error (.halt halt) s

/- The token at the place, which has to be in the list. -/
def peek : Step Token :=
  fun s =>
    match s.tokens[s.place]? with
    | some t => .ok t s
    | none => .error .stuck s

/- The token before the place; there has to be one. -/
def previous : Step Token :=
  fun s =>
    match s.place with
    | 0 => .error .stuck s
    | place + 1 =>
        match s.tokens[place]? with
        | some t => .ok t s
        | none => .error .stuck s

/- Moves on by one token, which must not be an end token. -/
def move : Step Unit :=
  fun s =>
    if (s.tokens.take (s.place + 1)).any (·.kind = .eof) then
      .error .stuck s
    else .ok () { s with place := s.place + 1 }

/- The place in the list. -/
def place : Step Nat :=
  fun s => .ok s.place s

/- Records an error at a given place. -/
def noteAt
    (fault : GrammarFault)
    (token : Token)
    (place : Nat) :
    Step Unit :=
  fun s =>
    .ok () { s with errors := s.errors.push ⟨fault, token, place⟩ }

/- Records an error that blames the token at the place. -/
def note (fault : GrammarFault) : Step Unit := do
  let t ← peek
  let here ← place
  noteAt fault t here

/- Records an error and stops. -/
def fail {α : Type} (fault : GrammarFault) : Step α := do
  note fault
  stop .failed

end Lox.Indexed

------------------------------------------------------------
-- Tokens
------------------------------------------------------------

namespace Lox.Indexed

/- Whether the token at the place is an end token. -/
def atEnd : Step Bool := do
  let t ← peek
  return t.kind = .eof

/- Moves on, but not at the end, and gives the token before. -/
def advance : Step Token := do
  if ← atEnd then previous
  else
    move
    previous

/- Whether the token at the place is of one of some kinds. -/
def check (kinds : Kind → Bool) : Step Bool := do
  if ← atEnd then return false
  else
    let t ← peek
    return kinds t.kind

/- Moves over a token of one of some kinds, if one is next. -/
def accept (kinds : Kind → Bool) : Step (Option Token) := do
  if ← check kinds then
    let t ← advance
    return some t
  else return none

def accepts (kind : Kind) : Step Bool := do
  let found ← accept (· = kind)
  return found.isSome

/- Moves over a token that has to be of the kind. -/
def expect (kind : Kind) (fault : GrammarFault) : Step Token := do
  match ← accept (· = kind) with
  | some t => return t
  | none => fail fault

def unlessNext
    {α : Type}
    (kind : Kind)
    (absent : α)
    (part : Step α) :
    Step α := do
  if ← check (· = kind) then return absent
  else part

def optionalAfter
    {α : Type}
    (kind : Kind)
    (part : Step α) :
    Step (Option α) := do
  if ← accepts kind then some <$> part
  else return none

end Lox.Indexed

------------------------------------------------------------
-- Loops
------------------------------------------------------------

namespace Lox.Indexed

/- How a round of a loop ends. -/
inductive Turn (β α : Type) where
  | again (next : β)
  | done (result : α)

/-
  Repeats rounds until one is done. After each round that is
  to be followed by another one, fewer tokens have to be left.
-/
def rounds
    {α β : Type}
    (round : β → Step (Turn β α))
    (b : β) :
    Step α :=
  fun s =>
    match round b s with
    | .ok (.done a) s' => .ok a s'
    | .ok (.again next) s' =>
        if s'.left < s.left then rounds round next s'
        else .error .stuck s'
    | .error stop s' => .error stop s'
termination_by s => s.left

/- Moves over a token, unless a statement may begin there. -/
def skipRound (_ : Unit) : Step (Turn Unit Unit) := do
  if ← atEnd then return .done ()
  else
    let last ← previous
    if last.kind = .semicolon then return .done ()
    else
      let t ← peek
      if t.kind.startsStatement then return .done ()
      else
        let _ ← advance
        return .again ()

/-
  Moves over a token and on to where a statement probably
  begins.
-/
def synchronize : Step Unit := do
  let _ ← advance
  rounds skipRound ()

/- Gives up on a statement at an error and moves on. -/
def recovering {α : Type} (step : Step α) : Step (Option α) :=
  fun s =>
    match step s with
    | .ok a s => .ok (some a) s
    | .error (.halt .failed) s =>
        match synchronize s with
        | .ok () s => .ok none s
        | .error stop s => .error stop s
    | .error stop s => .error stop s

/- A step that has to move on unless it starts at the end. -/
def progressing {α : Type} (step : Step α) : Step α := do
  let done ← atEnd
  let start ← place
  let a ← step
  let here ← place
  if done || start < here then return a
  else stuck

/- Whether more items follow the ones read so far. -/
def moreItems
    {α : Type}
    (items : List α) :
    Step (Turn (List α) (List α)) := do
  if ← accepts .comma then return .again items
  else return .done items.reverse

/- Reads an item after the ones read so far. -/
def itemRound
    {α : Type}
    (item : Step α)
    (tooMany : GrammarFault)
    (items : List α) :
    Step (Turn (List α) (List α)) := do
  if GrammarFault.maxArguments ≤ items.length then
    note tooMany
  let x ← item
  moreItems (x :: items)

/- Reads one or more items with commas between them. -/
def items
    {α : Type}
    (item : Step α)
    (tooMany : GrammarFault) :
    Step (List α) :=
  rounds (itemRound item tooMany) []

end Lox.Indexed

------------------------------------------------------------
-- Expressions
------------------------------------------------------------

namespace Lox.Indexed

/- Reads an operator with the operand after it. -/
def chainRound
    (operand : Step Expr)
    (isOperator : Kind → Bool)
    (node : Expr → Token → Expr → Expr)
    (left : Expr) :
    Step (Turn Expr Expr) := do
  match ← accept isOperator with
  | none => return .done left
  | some op =>
      let right ← operand
      return .again (node left op right)

/- Reads operands with operators of one level between them. -/
def leftChain
    (operand : Step Expr)
    (isOperator : Kind → Bool)
    (node : Expr → Token → Expr → Expr) :
    Step Expr := do
  let left ← operand
  rounds (chainRound operand isOperator node) left

def product (unary : Step Expr) : Step Expr :=
  leftChain unary Kind.isProduct .binary

def sum (unary : Step Expr) : Step Expr :=
  leftChain (product unary) Kind.isSum .binary

def comparison (unary : Step Expr) : Step Expr :=
  leftChain (sum unary) Kind.isComparison .binary

def equality (unary : Step Expr) : Step Expr :=
  leftChain (comparison unary) Kind.isEquality .binary

def conjunction (unary : Step Expr) : Step Expr :=
  leftChain (equality unary) (· = .andKw) .logical

def disjunction (unary : Step Expr) : Step Expr :=
  leftChain (conjunction unary) (· = .orKw) .logical

def primary (expression : Step Expr) : Step Expr := do
  match ← accept Grammar.isAtom with
  | some t => return Grammar.atom t
  | none =>
      if ← accepts .leftParen then
        let inner ← expression
        let _ ← expect .rightParen .expectGroupEnd
        return .grouping inner
      else
        fail .expectExpression

def arguments
    (expression : Step Expr) :
    Step (List Expr × Token) := do
  let args ←
    unlessNext .rightParen []
      (items expression .tooManyArguments)
  let paren ← expect .rightParen .expectArgumentsEnd
  return (args, paren)

/- Reads a list of arguments after a callee. -/
def callRound
    (expression : Step Expr)
    (callee : Expr) :
    Step (Turn Expr Expr) := do
  if ← accepts .leftParen then
    let (args, paren) ← arguments expression
    return .again (.call callee paren args)
  else
    return .done callee

/- Reads a callee and the argument lists after it. -/
def calls (expression : Step Expr) : Step Expr := do
  let callee ← primary expression
  rounds (callRound expression) callee

mutual

def expression : (nesting : Nat) → Step Expr
  | nesting + 8 => assignment nesting
  | _ => stop .tooDeep

def assignment : (nesting : Nat) → Step Expr
  | 0 => stop .tooDeep
  | nesting + 1 => do
    let target ← disjunction (unary nesting)
    let signPlace ← place
    match ← accept (· = .equal) with
    | none => return target
    | some equals =>
        let value ← assignment nesting
        match target with
        | .variable name _ => return .assign name value none
        | _ =>
            noteAt .invalidTarget equals signPlace
            return target

def unary : (nesting : Nat) → Step Expr
  | 0 => stop .tooDeep
  | nesting + 1 => do
    match ← accept Kind.isSign with
    | some op => return .unary op (← unary nesting)
    | none => calls (expression nesting)

end

end Lox.Indexed

------------------------------------------------------------
-- Parts Of Statements
------------------------------------------------------------

namespace Lox.Indexed

def expressionStatement (expression : Step Expr) : Step Stmt := do
  let value ← expression
  let _ ← expect .semicolon .expectExpressionEnd
  return .expression value

def printRest (expression : Step Expr) : Step Stmt := do
  let value ← expression
  let _ ← expect .semicolon .expectPrintEnd
  return .print value

def returnRest
    (expression : Step Expr)
    (keyword : Token) :
    Step Stmt := do
  let value ← unlessNext .semicolon none (some <$> expression)
  let _ ← expect .semicolon .expectReturnEnd
  return .ret keyword value

def variableRest (expression : Step Expr) : Step Stmt := do
  let name ← expect .identifier .expectVariableName
  let initializer ← optionalAfter .equal expression
  let _ ← expect .semicolon .expectVariableEnd
  return .var name initializer

/- Keeps a declaration, unless it has been dropped. -/
def keep
    (body : List Stmt) :
    Option Stmt → Turn (List Stmt) (List Stmt)
  | none => .again body
  | some stmt => .again (stmt :: body)

/- Reads a declaration, unless the body ends. -/
def bodyRound
    (declaration : Step (Option Stmt))
    (body : List Stmt) :
    Step (Turn (List Stmt) (List Stmt)) := do
  if (← check (· = .rightBrace)) || (← atEnd) then
    return .done body.reverse
  else
    let found ← declaration
    return keep body found

/- Reads declarations up to a closing brace or the end. -/
def blockRest
    (declaration : Step (Option Stmt)) :
    Step (List Stmt) := do
  let body ← rounds (bodyRound declaration) []
  let _ ← expect .rightBrace .expectBlockEnd
  return body

def functionRest
    (declaration : Step (Option Stmt)) :
    Step Stmt := do
  let name ← expect .identifier .expectFunctionName
  let _ ← expect .leftParen .expectFunctionParen
  let params ←
    unlessNext .rightParen []
      (items (expect .identifier .expectParameterName)
        .tooManyParameters)
  let _ ← expect .rightParen .expectParametersEnd
  let _ ← expect .leftBrace .expectFunctionBody
  let body ← blockRest declaration
  return .function name params body

def ifRest
    (expression : Step Expr)
    (statement : Step Stmt) :
    Step Stmt := do
  let _ ← expect .leftParen .expectIfParen
  let condition ← expression
  let _ ← expect .rightParen .expectIfConditionEnd
  let thenBranch ← statement
  match ← optionalAfter .elseKw statement with
  | some elseBranch =>
      return .ifElse condition thenBranch elseBranch
  | none => return .ifThen condition thenBranch

def whileRest
    (expression : Step Expr)
    (statement : Step Stmt) :
    Step Stmt := do
  let _ ← expect .leftParen .expectWhileParen
  let condition ← expression
  let _ ← expect .rightParen .expectConditionEnd
  return .loop condition (← statement)

def forInitializer
    (expression : Step Expr) :
    Step (Option Stmt) := do
  if ← accepts .semicolon then return none
  else if ← accepts .varKw then
    some <$> variableRest expression
  else
    some <$> expressionStatement expression

def forRest
    (expression : Step Expr)
    (statement : Step Stmt) :
    Step Stmt := do
  let _ ← expect .leftParen .expectForParen
  let initializer ← forInitializer expression
  let condition ←
    unlessNext .semicolon (.literal (.bool true)) expression
  let _ ← expect .semicolon .expectLoopConditionEnd
  let increment ←
    unlessNext .rightParen none (some <$> expression)
  let _ ← expect .rightParen .expectForEnd
  return Grammar.forLoop initializer condition increment
    (← statement)

end Lox.Indexed

------------------------------------------------------------
-- Declarations And Programs
------------------------------------------------------------

namespace Lox.Indexed

mutual

def declaration : (nesting : Nat) → Step (Option Stmt)
  | 0 => stop .tooDeep
  | nesting + 1 =>
      progressing (recovering do
        match ← accept Grammar.opensDeclaration with
        | none => statement nesting
        | some t =>
            if t.kind = .funKw then
              functionRest (declaration nesting)
            else
              variableRest (expression nesting))

def statement : (nesting : Nat) → Step Stmt
  | 0 => stop .tooDeep
  | nesting + 1 => do
    match ← accept Grammar.opensStatement with
    | none => expressionStatement (expression nesting)
    | some t =>
        match t.kind with
        | .forKw =>
            forRest (expression nesting) (statement nesting)
        | .ifKw =>
            ifRest (expression nesting) (statement nesting)
        | .printKw => printRest (expression nesting)
        | .returnKw => returnRest (expression nesting) t
        | .whileKw =>
            whileRest (expression nesting) (statement nesting)
        | _ => .block <$> blockRest (declaration nesting)

end

/- Drops a declaration that is nested too deeply, and moves on. -/
def orDropped
    (declaration : Step (Option Stmt)) :
    Step (Option Stmt) :=
  fun s =>
    match declaration s with
    | .error (.halt .tooDeep) s =>
        (do
          note .nestingTooDeep
          synchronize
          return none : Step (Option Stmt)) s
    | result => result

/- Reads a declaration, unless the program ends. -/
def programRound
    (nesting : Nat)
    (body : List Stmt) :
    Step (Turn (List Stmt) (List Stmt)) := do
  if ← atEnd then return .done body.reverse
  else
    let found ← orDropped (declaration nesting)
    return keep body found

/- The tokens with an end token, if they do not end in one. -/
def closed (tokens : List Token) : List Token :=
  if tokens.getLast?.any (·.kind = .eof) then tokens
  else tokens ++ [Cursor.missingEnd tokens]

/- The program that a list of tokens spells, unless stuck. -/
def parse
    (limits : Limits)
    (tokens : List Token) :
    Except Stop Parsed :=
  match
    rounds (programRound limits.nesting) []
      { tokens := closed tokens } with
  | .ok body s => .ok ⟨body, s.errors.toList⟩
  | .error stop _ => .error stop

end Lox.Indexed
