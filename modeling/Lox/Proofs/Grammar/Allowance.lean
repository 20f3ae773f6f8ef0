import Lox.Proofs.Grammar.Composition

/-
  The grammar with any greatest number of arguments and
  parameters, or with none.

  The readers that lists of arguments and parameters lead to
  are written once more, with the number that a list may reach
  as a parameter. With the number of the language they are the
  readers of the grammar.

  Key definitions include:
    * `UpTo.itemsFrom`
    * `UpTo.expression`
    * `UpTo.declaration`
    * `UpTo.parse`
    * `UpTo.parse_maxArguments`
-/

------------------------------------------------------------
-- Expressions Up To A Number
------------------------------------------------------------

namespace Lox.UpTo

open Reader Grammar

/- Whether an item that `count` others precede is too many. -/
def exceeds (most : Option Nat) (count : Nat) : Bool :=
  most.any (· ≤ count)

/- Reads further items, as `Reader.itemsFrom` does. -/
def itemsFrom
    {α : Type}
    (most : Option Nat)
    (item : Reader α)
    (tooMany : GrammarFault) :
    (ticks : List Token) → (count : Nat) → (items : List α) →
    Reader (List α)
  | [], _, items => return items.reverse
  | _ :: ticks, count, items => do
    if ← accepts .comma then
      if exceeds most count then
        note tooMany
      let x ← item
      itemsFrom most item tooMany ticks (count + 1) (x :: items)
    else
      return items.reverse

def items
    {α : Type}
    (most : Option Nat)
    (item : Reader α)
    (tooMany : GrammarFault) :
    Reader (List α) := do
  let ticks ← upcoming
  let first ← item
  itemsFrom most item tooMany ticks 1 [first]

def arguments
    (most : Option Nat)
    (expression : Reader Expr) :
    Reader (List Expr × Token) := do
  let args ←
    unlessNext .rightParen []
      (items most expression .tooManyArguments)
  let paren ← expect .rightParen .expectArgumentsEnd
  return (args, paren)

def callsFrom
    (most : Option Nat)
    (expression : Reader Expr) :
    (ticks : List Token) → (callee : Expr) → Reader Expr
  | [], callee => return callee
  | _ :: ticks, callee => do
    if ← accepts .leftParen then
      let (args, paren) ← arguments most expression
      callsFrom most expression ticks (.call callee paren args)
    else
      return callee

def calls
    (most : Option Nat)
    (expression : Reader Expr) :
    Reader Expr := do
  let ticks ← upcoming
  let callee ← primary expression
  callsFrom most expression ticks callee

mutual

def expression (most : Option Nat) : (nesting : Nat) → Reader Expr
  | nesting + 8 => assignment most nesting
  | _ => tooDeep

def assignment (most : Option Nat) : (nesting : Nat) → Reader Expr
  | 0 => tooDeep
  | nesting + 1 => do
    let target ← disjunction (unary most nesting)
    valueFor (assignment most nesting) target

def unary (most : Option Nat) : (nesting : Nat) → Reader Expr
  | 0 => tooDeep
  | nesting + 1 => do
    match ← accept Kind.isSign with
    | some op => return .unary op (← unary most nesting)
    | none => calls most (expression most nesting)

end

end Lox.UpTo

------------------------------------------------------------
-- Statements Up To A Number
------------------------------------------------------------

namespace Lox.UpTo

open Reader Grammar

def functionRest
    (most : Option Nat)
    (declaration : Reader (Option Stmt)) :
    Reader Stmt := do
  let name ← expect .identifier .expectFunctionName
  let _ ← expect .leftParen .expectFunctionParen
  let params ←
    unlessNext .rightParen []
      (items most (expect .identifier .expectParameterName)
        .tooManyParameters)
  let _ ← expect .rightParen .expectParametersEnd
  let _ ← expect .leftBrace .expectFunctionBody
  let body ← blockRest declaration
  return .function name params body

mutual

def declaration
    (most : Option Nat) :
    (nesting : Nat) → Reader (Option Stmt)
  | 0 => tooDeep
  | nesting + 1 =>
      recovering do
        match ← accept opensDeclaration with
        | none => statement most nesting
        | some t =>
            if t.kind = .funKw then
              functionRest most (declaration most nesting)
            else
              variableRest (expression most nesting)

def statement (most : Option Nat) : (nesting : Nat) → Reader Stmt
  | 0 => tooDeep
  | nesting + 1 => do
    match ← accept opensStatement with
    | none => expressionStatement (expression most nesting)
    | some t =>
        match t.kind with
        | .forKw =>
            forRest (expression most nesting)
              (statement most nesting)
        | .ifKw =>
            ifRest (expression most nesting)
              (statement most nesting)
        | .printKw => printRest (expression most nesting)
        | .returnKw => returnRest (expression most nesting) t
        | .whileKw =>
            whileRest (expression most nesting)
              (statement most nesting)
        | _ => .block <$> blockRest (declaration most nesting)

end

/- The program of a list of tokens, where lists go so far. -/
def parse
    (most : Option Nat)
    (limits : Limits)
    (tokens : List Token) :
    Parsed :=
  let c := Cursor.ofTokens tokens
  programFrom (declaration most limits.nesting) c.upcoming [] c

end Lox.UpTo

------------------------------------------------------------
-- The Number Of The Language
------------------------------------------------------------

namespace Lox.UpTo

open Reader Grammar

variable {α : Type}

/- The number of arguments and parameters that are allowed. -/
abbrev allowed : Option Nat :=
  some GrammarFault.maxArguments

theorem itemsFrom_allowed
    (item : Reader α)
    (tooMany : GrammarFault)
    (ticks : List Token)
    (count : Nat)
    (items : List α) :
    itemsFrom allowed item tooMany ticks count items =
      Reader.itemsFrom item tooMany ticks count items := by
  induction ticks generalizing count items with
  | nil => rfl
  | cons t ticks ih =>
      unfold itemsFrom Reader.itemsFrom
      simp only [ih, exceeds, Option.any_some, decide_eq_true_eq]

theorem items_allowed
    (item : Reader α)
    (tooMany : GrammarFault) :
    items allowed item tooMany = Reader.items item tooMany := by
  unfold items Reader.items
  simp only [itemsFrom_allowed]

theorem callsFrom_allowed
    (expression : Reader Expr)
    (ticks : List Token)
    (callee : Expr) :
    callsFrom allowed expression ticks callee =
      Grammar.callsFrom expression ticks callee := by
  induction ticks generalizing callee with
  | nil => rfl
  | cons t ticks ih =>
      unfold callsFrom Grammar.callsFrom
      unfold arguments Grammar.arguments
      simp only [ih, items_allowed]

theorem calls_allowed (expression : Reader Expr) :
    calls allowed expression = Grammar.calls expression := by
  unfold calls Grammar.calls
  simp only [callsFrom_allowed]

/- There is no expression without its levels of nesting. -/
theorem expression_shallow
    {nesting : Nat}
    (hShallow : nesting < 8)
    (most : Option Nat) :
    expression most nesting = tooDeep ∧
      Grammar.expression nesting = tooDeep := by
  constructor
  · unfold expression
    split
    · omega
    · rfl
  · unfold Grammar.expression
    split
    · omega
    · rfl

/- By induction on the nesting that is allowed. -/
theorem expressions_allowed (nesting : Nat) :
    expression allowed nesting = Grammar.expression nesting ∧
      assignment allowed nesting = Grammar.assignment nesting ∧
      unary allowed nesting = Grammar.unary nesting := by
  induction nesting using Nat.strongRecOn with
  | ind nesting ih =>
      refine ⟨?_, ?_, ?_⟩
      · by_cases hLevels : 8 ≤ nesting
        · rcases Nat.exists_eq_add_of_le' hLevels with
            ⟨inner, rfl⟩
          rw [expression, Grammar.expression]
          exact (ih inner (by omega)).2.1
        · rcases
            expression_shallow (Nat.lt_of_not_le hLevels)
              allowed with ⟨hHere, hThere⟩
          rw [hHere, hThere]
      · cases nesting with
        | zero => rw [assignment, Grammar.assignment]
        | succ nesting =>
            have hInner := ih nesting (Nat.lt_succ_self nesting)
            rw [assignment, assignment_succ, hInner.2.1, hInner.2.2]
      · cases nesting with
        | zero => rw [unary, Grammar.unary]
        | succ nesting =>
            have hInner := ih nesting (Nat.lt_succ_self nesting)
            have hCalls :
                calls allowed (expression allowed nesting) =
                  Grammar.calls (Grammar.expression nesting) := by
              rw [hInner.1, calls_allowed]
            rw [unary, Grammar.unary, hInner.2.2]
            apply bind_congr
            intro found
            cases found with
            | none => exact hCalls
            | some op => rfl

theorem functionRest_allowed (declaration : Reader (Option Stmt)) :
    functionRest allowed declaration =
      Grammar.functionRest declaration := by
  unfold functionRest Grammar.functionRest
  simp only [items_allowed]

/- By induction on the nesting that is allowed. -/
theorem statements_allowed (nesting : Nat) :
    declaration allowed nesting = Grammar.declaration nesting ∧
      statement allowed nesting = Grammar.statement nesting := by
  induction nesting with
  | zero =>
      rw [declaration, Grammar.declaration, statement,
        Grammar.statement]
      exact ⟨rfl, rfl⟩
  | succ nesting ih =>
      have hExpression := (expressions_allowed nesting).1
      rw [declaration, Grammar.declaration, statement,
        Grammar.statement]
      rw [ih.1, ih.2, hExpression, functionRest_allowed]
      exact ⟨rfl, rfl⟩

/- Up to the number of the language it is read as ever. -/
theorem parse_maxArguments
    (limits : Limits)
    (tokens : List Token) :
    parse (some GrammarFault.maxArguments) limits tokens =
      Lox.parse limits tokens := by
  unfold parse Lox.parse
  rw [(statements_allowed limits.nesting).1]

end Lox.UpTo
