import Lox.Grammar.Statement

/-
  What readers are made of.

  Expressions and statements are read by a few small steps,
  one after another. A property of readers that the small
  steps have, and that passes through sequences and through
  the recovery from errors, is one of every reader of the
  grammar. Readers of expressions never move over a semicolon
  and never recover, so less is asked of a property of these.

  Key definitions include:
    * `Grammar.valueFor`
    * `Reader.ComposesExpressions`
    * `Reader.ComposesStatements`
    * `Reader.ComposesExpressions.expressions`
    * `Reader.ComposesStatements.statements`
-/

------------------------------------------------------------
-- Assigned Values
------------------------------------------------------------

namespace Lox.Grammar

open Reader

/- Reads the value that is assigned to a target, if any. -/
def valueFor
    (value : Reader Expr)
    (target : Expr) :
    Reader Expr := do
  let signPlace ← place
  match ← accept (· = .equal) with
  | none => return target
  | some equals =>
      let value ← value
      match target with
      | .variable name _ => return .assign name value none
      | _ =>
          noteAt .invalidTarget equals signPlace
          return target

theorem assignment_succ (nesting : Nat) :
    assignment (nesting + 1) =
      (do
        let target ← disjunction (unary nesting)
        valueFor (assignment nesting) target) := by
  rw [assignment]
  rfl

end Lox.Grammar

------------------------------------------------------------
-- Compositional Properties
------------------------------------------------------------

namespace Lox.Reader

/-
  A property of the steps that expressions are read by. A step
  that stops records an error at which reading stops, a step
  that goes on records another one, and no step moves over a
  semicolon.
-/
structure ComposesExpressions
    (P : (α : Type) → Reader α → Prop) :
    Prop where
  pure {α : Type} (a : α) : P α (pure a)
  fail {α : Type} {fault : GrammarFault}
    (hFatal : fault.isFatal = true) :
    P α (fail fault)
  tooDeep {α : Type} : P α tooDeep
  note {fault : GrammarFault}
    (hKept : fault.isFatal = false) :
    P Unit (note fault)
  upcoming : P (List Token) upcoming
  nextIs (kind : Kind) : P Bool (nextIs kind)
  accept {kinds : Kind → Bool}
    (hInside : kinds .semicolon = false) :
    P (Option Token) (accept kinds)
  bind {α β : Type} {step : Reader α} {next : α → Reader β}
    (hStep : P α step)
    (hNext : ∀ a, P β (next a)) :
    P β (step >>= next)
  valueFor {value : Reader Expr}
    (hValue : P Expr value)
    (target : Expr) :
    P Expr (Grammar.valueFor value target)

/- A property of all steps that programs are read by. -/
structure ComposesStatements
    (P : (α : Type) → Reader α → Prop) : Prop
    extends ComposesExpressions P where
  acceptAny (kinds : Kind → Bool) :
    P (Option Token) (Reader.accept kinds)
  atEnd : P Bool atEnd
  recovering {α : Type} {reader : Reader α}
    (hReader : P α reader) :
    P (Option α) (recovering reader)

end Lox.Reader

------------------------------------------------------------
-- Small Steps
------------------------------------------------------------

namespace Lox.Reader.ComposesExpressions

variable {P : (α : Type) → Reader α → Prop} {α β : Type}

theorem ite
    {step other : Reader α}
    {p : Prop}
    [Decidable p]
    (hStep : P α step)
    (hOther : P α other) :
    P α (if p then step else other) := by
  by_cases hHolds : p
  · rw [if_pos hHolds]
    exact hStep
  · rw [if_neg hHolds]
    exact hOther

variable (hP : ComposesExpressions P)

include hP

theorem map
    {step : Reader α}
    (hStep : P α step)
    (f : α → β) :
    P β (f <$> step) := by
  rw [← bind_pure_comp]
  exact hP.bind hStep fun _ => hP.pure _

theorem accepts
    {kind : Kind}
    (hInside : kind ≠ .semicolon) :
    P Bool (accepts kind) := by
  apply hP.bind (hP.accept _)
  · intro found
    exact hP.pure _
  · exact decide_eq_false hInside.symm

theorem expect
    {kind : Kind}
    {fault : GrammarFault}
    (hInside : kind ≠ .semicolon)
    (hFatal : fault.isFatal = true) :
    P Token (expect kind fault) := by
  apply hP.bind (hP.accept _)
  · intro found
    cases found with
    | none => exact hP.fail hFatal
    | some t => exact hP.pure t
  · exact decide_eq_false hInside.symm

theorem unlessNext
    {part : Reader α}
    (hPart : P α part)
    (kind : Kind)
    (absent : α) :
    P α (unlessNext kind absent part) := by
  apply hP.bind (hP.nextIs kind)
  intro found
  exact ite (hP.pure absent) hPart

theorem optionalAfter
    {kind : Kind}
    {part : Reader α}
    (hInside : kind ≠ .semicolon)
    (hPart : P α part) :
    P (Option α) (optionalAfter kind part) := by
  apply hP.bind (hP.accepts hInside)
  intro found
  exact ite (hP.map hPart some) (hP.pure none)

/- Items are read one after another, by induction on the ticks. -/
theorem itemsFrom
    {item : Reader α}
    {tooMany : GrammarFault}
    (hItem : P α item)
    (hKept : tooMany.isFatal = false)
    (ticks : List Token)
    (count : Nat)
    (items : List α) :
    P (List α) (itemsFrom item tooMany ticks count items) := by
  induction ticks generalizing count items with
  | nil => exact hP.pure _
  | cons _ ticks ih =>
      have hNext :
          P (List α) (do
            let x ← item
            Reader.itemsFrom item tooMany ticks (count + 1)
              (x :: items)) := by
        apply hP.bind hItem
        intro x
        exact ih (count + 1) (x :: items)
      apply hP.bind (hP.accepts (by decide))
      intro found
      refine ite ?_ (hP.pure _)
      by_cases hMany : GrammarFault.maxArguments ≤ count
      · simp only [if_pos hMany]
        exact hP.bind (hP.note hKept) fun _ => hNext
      · simp only [if_neg hMany]
        exact hNext

theorem items
    {item : Reader α}
    {tooMany : GrammarFault}
    (hItem : P α item)
    (hKept : tooMany.isFatal = false) :
    P (List α) (items item tooMany) := by
  apply hP.bind hP.upcoming
  intro ticks
  apply hP.bind hItem
  intro first
  exact hP.itemsFrom hItem hKept ticks 1 [first]

end Lox.Reader.ComposesExpressions

------------------------------------------------------------
-- Expressions
------------------------------------------------------------

namespace Lox.Reader.ComposesExpressions

open Grammar

variable {P : (α : Type) → Reader α → Prop}
variable (hP : ComposesExpressions P)

include hP

theorem leftChainFrom
    {operand : Reader Expr}
    {isOperator : Kind → Bool}
    (hOperand : P Expr operand)
    (hInside : isOperator .semicolon = false)
    (node : Expr → Token → Expr → Expr)
    (ticks : List Token)
    (left : Expr) :
    P Expr (leftChainFrom operand isOperator node ticks left) := by
  induction ticks generalizing left with
  | nil => exact hP.pure left
  | cons _ ticks ih =>
      apply hP.bind (hP.accept hInside)
      intro found
      cases found with
      | none => exact hP.pure left
      | some op =>
          apply hP.bind hOperand
          intro right
          exact ih (node left op right)

theorem leftChain
    {operand : Reader Expr}
    {isOperator : Kind → Bool}
    (hOperand : P Expr operand)
    (hInside : isOperator .semicolon = false)
    (node : Expr → Token → Expr → Expr) :
    P Expr (leftChain operand isOperator node) := by
  apply hP.bind hP.upcoming
  intro ticks
  apply hP.bind hOperand
  intro left
  exact hP.leftChainFrom hOperand hInside node ticks left

theorem disjunction
    {unary : Reader Expr}
    (hUnary : P Expr unary) :
    P Expr (disjunction unary) := by
  have hProduct : P Expr (product unary) :=
    hP.leftChain hUnary rfl .binary
  have hSum : P Expr (sum unary) :=
    hP.leftChain hProduct rfl .binary
  have hComparison : P Expr (comparison unary) :=
    hP.leftChain hSum rfl .binary
  have hEquality : P Expr (equality unary) :=
    hP.leftChain hComparison rfl .binary
  have hConjunction : P Expr (conjunction unary) :=
    hP.leftChain hEquality rfl .logical
  exact hP.leftChain hConjunction rfl .logical

section Calls

variable {expression : Reader Expr}
variable (hExpression : P Expr expression)

include hExpression

theorem primary : P Expr (primary expression) := by
  apply hP.bind (hP.accept rfl)
  intro found
  cases found with
  | some t => exact hP.pure (atom t)
  | none =>
      apply hP.bind (hP.accepts (by decide))
      intro opened
      refine ite ?_ (hP.fail rfl)
      apply hP.bind hExpression
      intro inner
      apply hP.bind (hP.expect (by decide) rfl)
      intro _
      exact hP.pure _

theorem arguments :
    P (List Expr × Token) (arguments expression) := by
  have hItems :
      P (List Expr) (Reader.items expression .tooManyArguments) :=
    hP.items hExpression rfl
  apply hP.bind (hP.unlessNext hItems .rightParen [])
  intro args
  apply hP.bind (hP.expect (by decide) rfl)
  intro paren
  exact hP.pure _

theorem callsFrom
    (ticks : List Token)
    (callee : Expr) :
    P Expr (callsFrom expression ticks callee) := by
  induction ticks generalizing callee with
  | nil => exact hP.pure callee
  | cons _ ticks ih =>
      apply hP.bind (hP.accepts (by decide))
      intro opened
      refine ite ?_ (hP.pure callee)
      apply hP.bind (hP.arguments hExpression)
      intro result
      exact ih (.call callee result.2 result.1)

theorem calls : P Expr (calls expression) := by
  apply hP.bind hP.upcoming
  intro ticks
  apply hP.bind (hP.primary hExpression)
  intro callee
  exact hP.callsFrom hExpression ticks callee

end Calls

/- By induction on the nesting that is allowed. -/
theorem expressions (nesting : Nat) :
    P Expr (expression nesting) ∧
      P Expr (assignment nesting) ∧ P Expr (unary nesting) := by
  induction nesting using Nat.strongRecOn with
  | ind nesting ih =>
      refine ⟨?_, ?_, ?_⟩
      · unfold expression
        split
        · rename_i nesting
          exact (ih nesting (by omega)).2.1
        · exact hP.tooDeep
      · cases nesting with
        | zero =>
            rw [assignment]
            exact hP.tooDeep
        | succ nesting =>
            have hInner := ih nesting (Nat.lt_succ_self nesting)
            rw [assignment_succ]
            apply hP.bind (hP.disjunction hInner.2.2)
            intro target
            exact hP.valueFor hInner.2.1 target
      · cases nesting with
        | zero =>
            rw [unary]
            exact hP.tooDeep
        | succ nesting =>
            have hInner := ih nesting (Nat.lt_succ_self nesting)
            rw [unary]
            apply hP.bind (hP.accept rfl)
            intro found
            cases found with
            | none => exact hP.calls hInner.1
            | some op =>
                apply hP.bind hInner.2.2
                intro operand
                exact hP.pure _

end Lox.Reader.ComposesExpressions

------------------------------------------------------------
-- Statements
------------------------------------------------------------

namespace Lox.Reader.ComposesStatements

open Grammar

variable {P : (α : Type) → Reader α → Prop}
variable (hP : ComposesStatements P)

include hP

theorem acceptsAny (kind : Kind) : P Bool (accepts kind) := by
  apply hP.bind (hP.acceptAny _)
  intro found
  exact hP.pure _

theorem expectAny
    (kind : Kind)
    {fault : GrammarFault}
    (hFatal : fault.isFatal = true) :
    P Token (expect kind fault) := by
  apply hP.bind (hP.acceptAny _)
  intro found
  cases found with
  | none => exact hP.fail hFatal
  | some t => exact hP.pure t

section Rests

variable {expression : Reader Expr} {statement : Reader Stmt}
variable {declaration : Reader (Option Stmt)}

theorem expressionStatement (hExpression : P Expr expression) :
    P Stmt (expressionStatement expression) := by
  apply hP.bind hExpression
  intro value
  apply hP.bind (hP.expectAny .semicolon rfl)
  intro _
  exact hP.pure _

theorem printRest (hExpression : P Expr expression) :
    P Stmt (printRest expression) := by
  apply hP.bind hExpression
  intro value
  apply hP.bind (hP.expectAny .semicolon rfl)
  intro _
  exact hP.pure _

theorem returnRest
    (hExpression : P Expr expression)
    (keyword : Token) :
    P Stmt (returnRest expression keyword) := by
  have hValue := hP.map hExpression some
  apply hP.bind (hP.unlessNext hValue .semicolon none)
  intro value
  apply hP.bind (hP.expectAny .semicolon rfl)
  intro _
  exact hP.pure _

theorem variableRest (hExpression : P Expr expression) :
    P Stmt (variableRest expression) := by
  apply hP.bind (hP.expectAny .identifier rfl)
  intro name
  apply hP.bind (hP.optionalAfter (by decide) hExpression)
  intro initializer
  apply hP.bind (hP.expectAny .semicolon rfl)
  intro _
  exact hP.pure _

theorem ifRest
    (hExpression : P Expr expression)
    (hStatement : P Stmt statement) :
    P Stmt (ifRest expression statement) := by
  apply hP.bind (hP.expectAny .leftParen rfl)
  intro _
  apply hP.bind hExpression
  intro condition
  apply hP.bind (hP.expectAny .rightParen rfl)
  intro _
  apply hP.bind hStatement
  intro thenBranch
  apply hP.bind (hP.optionalAfter (by decide) hStatement)
  intro elseBranch
  cases elseBranch with
  | none => exact hP.pure _
  | some elseBranch => exact hP.pure _

theorem whileRest
    (hExpression : P Expr expression)
    (hStatement : P Stmt statement) :
    P Stmt (whileRest expression statement) := by
  apply hP.bind (hP.expectAny .leftParen rfl)
  intro _
  apply hP.bind hExpression
  intro condition
  apply hP.bind (hP.expectAny .rightParen rfl)
  intro _
  exact hP.bind hStatement fun _ => hP.pure _

theorem forInitializer (hExpression : P Expr expression) :
    P (Option Stmt) (forInitializer expression) := by
  apply hP.bind (hP.acceptsAny .semicolon)
  intro skipped
  refine ComposesExpressions.ite (hP.pure none) ?_
  apply hP.bind (hP.acceptsAny .varKw)
  intro declared
  exact
    ComposesExpressions.ite
      (hP.map (hP.variableRest hExpression) some)
      (hP.map (hP.expressionStatement hExpression) some)

theorem forRest
    (hExpression : P Expr expression)
    (hStatement : P Stmt statement) :
    P Stmt (forRest expression statement) := by
  have hIncrement := hP.map hExpression some
  apply hP.bind (hP.expectAny .leftParen rfl)
  intro _
  apply hP.bind (hP.forInitializer hExpression)
  intro initializer
  apply hP.bind (hP.unlessNext hExpression .semicolon _)
  intro condition
  apply hP.bind (hP.expectAny .semicolon rfl)
  intro _
  apply hP.bind (hP.unlessNext hIncrement .rightParen none)
  intro increment
  apply hP.bind (hP.expectAny .rightParen rfl)
  intro _
  exact hP.bind hStatement fun _ => hP.pure _

/- Declarations of a block, by induction on the ticks. -/
theorem declarationsFrom
    (hDeclaration : P (Option Stmt) declaration)
    (ticks : List Token)
    (body : List Stmt) :
    P (List Stmt) (declarationsFrom declaration ticks body) := by
  induction ticks generalizing body with
  | nil => exact hP.pure _
  | cons _ ticks ih =>
      apply hP.bind (hP.nextIs .rightBrace)
      intro closing
      apply hP.bind hP.atEnd
      intro ended
      refine ComposesExpressions.ite (hP.pure _) ?_
      apply hP.bind hDeclaration
      intro found
      cases found with
      | none => exact ih body
      | some stmt => exact ih (stmt :: body)

theorem blockRest (hDeclaration : P (Option Stmt) declaration) :
    P (List Stmt) (blockRest declaration) := by
  apply hP.bind hP.upcoming
  intro ticks
  apply hP.bind (hP.declarationsFrom hDeclaration ticks [])
  intro body
  apply hP.bind (hP.expectAny .rightBrace rfl)
  intro _
  exact hP.pure _

theorem functionRest (hDeclaration : P (Option Stmt) declaration) :
    P Stmt (functionRest declaration) := by
  have hParams :
      P (List Token)
        (items (expect .identifier .expectParameterName)
          .tooManyParameters) :=
    hP.items (hP.expectAny .identifier rfl) rfl
  apply hP.bind (hP.expectAny .identifier rfl)
  intro name
  apply hP.bind (hP.expectAny .leftParen rfl)
  intro _
  apply hP.bind (hP.unlessNext hParams .rightParen [])
  intro params
  apply hP.bind (hP.expectAny .rightParen rfl)
  intro _
  apply hP.bind (hP.expectAny .leftBrace rfl)
  intro _
  apply hP.bind (hP.blockRest hDeclaration)
  intro body
  exact hP.pure _

end Rests

/- By induction on the nesting that is allowed. -/
theorem statements (nesting : Nat) :
    P (Option Stmt) (declaration nesting) ∧
      P Stmt (statement nesting) := by
  induction nesting with
  | zero =>
      rw [declaration, statement]
      exact ⟨hP.tooDeep, hP.tooDeep⟩
  | succ nesting ih =>
      rcases ih with ⟨hDeclaration, hStatement⟩
      have hExpression := (hP.expressions nesting).1
      constructor
      · rw [declaration]
        apply hP.recovering
        apply hP.bind (hP.acceptAny opensDeclaration)
        intro found
        cases found with
        | none => exact hStatement
        | some t =>
            exact
              ComposesExpressions.ite
                (hP.functionRest hDeclaration)
                (hP.variableRest hExpression)
      · rw [statement]
        apply hP.bind (hP.acceptAny opensStatement)
        intro found
        cases found with
        | none => exact hP.expressionStatement hExpression
        | some t =>
            simp only
            split
            · exact hP.forRest hExpression hStatement
            · exact hP.ifRest hExpression hStatement
            · exact hP.printRest hExpression
            · exact hP.returnRest hExpression t
            · exact hP.whileRest hExpression hStatement
            · exact hP.map (hP.blockRest hDeclaration) _

end Lox.Reader.ComposesStatements
