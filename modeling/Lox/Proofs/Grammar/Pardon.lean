import Lox.Proofs.Grammar.Allowance
import Lox.Proofs.Steps

/-
  Lists that are too long are only reported.

  Without a greatest number of arguments and parameters the
  readers do the same: they move over the same tokens, give the
  same results, stop at the same places and record the same
  errors, but for those that tell of lists that are too long.

  Key definitions include:
    * `withoutExcess`
    * `Cursor.pardoned`
    * `Reader.PardonedBy`
    * `UpTo.parse_none`
-/

------------------------------------------------------------
-- Errors Left Aside
------------------------------------------------------------

namespace Lox

/- Whether the error is that a list is too long. -/
def GrammarFault.isExcess : GrammarFault → Bool
  | tooManyArguments | tooManyParameters => true
  | _ => false

/- The errors but for those that lists are too long. -/
def withoutExcess (errors : List ParseError) : List ParseError :=
  errors.filter fun e => !e.fault.isExcess

namespace Cursor

/- The cursor, if it had recorded no such errors. -/
def pardoned (c : Cursor) : Cursor :=
  { c with errors := (withoutExcess c.errors.toList).toArray }

@[simp] theorem upcoming_pardoned (c : Cursor) :
    c.pardoned.upcoming = c.upcoming := rfl

@[simp] theorem atEnd_pardoned (c : Cursor) :
    c.pardoned.atEnd = c.atEnd := rfl

theorem pardoned_advance (c : Cursor) :
    c.advance.pardoned = c.pardoned.advance := by
  rcases c with ⟨tokens, last, place, errors⟩
  cases tokens <;> rfl

theorem pardoned_synchronize (c : Cursor) :
    c.synchronize.pardoned = c.pardoned.synchronize := by
  rcases c with ⟨tokens, last, place, errors⟩
  cases tokens <;> rfl

theorem pardoned_record
    {fault : GrammarFault}
    (hOther : fault.isExcess = false)
    (c : Cursor)
    (token : Token)
    (place : Nat) :
    (c.record fault token place).pardoned =
      c.pardoned.record fault token place := by
  simp [pardoned, withoutExcess, record, hOther]

theorem pardoned_recordHere
    {fault : GrammarFault}
    (hOther : fault.isExcess = false)
    (c : Cursor) :
    (c.recordHere fault).pardoned =
      c.pardoned.recordHere fault :=
  pardoned_record hOther c c.current c.place

/- The error that a list is too long is the one left aside. -/
theorem pardoned_recordHere_excess
    {fault : GrammarFault}
    (hExcess : fault.isExcess = true)
    (c : Cursor) :
    (c.recordHere fault).pardoned = c.pardoned := by
  simp [pardoned, withoutExcess, recordHere, record, hExcess]

end Cursor

end Lox

------------------------------------------------------------
-- Steps That Differ In Such Errors
------------------------------------------------------------

namespace Lox.Reader

variable {α β : Type} {x x' : Reader α}

/-
  The second reader does what the first one does, but for the
  errors that lists are too long, which it never records.
-/
def PardonedBy (x x' : Reader α) : Prop :=
  ∀ c : Cursor,
    x' c.pardoned = mapState Cursor.pardoned (x c)

theorem pardoned_pure (a : α) :
    (pure a : Reader α).PardonedBy (pure a) :=
  fun _ => rfl

theorem PardonedBy.bind
    {f f' : α → Reader β}
    (hFirst : x.PardonedBy x')
    (hNext : ∀ a, (f a).PardonedBy (f' a)) :
    (x >>= f).PardonedBy (x' >>= f') := by
  intro c
  have hRun' := hFirst c
  cases hRun : x c with
  | ok a d =>
      rw [hRun] at hRun'
      rw [bind_of_ok hRun, bind_of_ok hRun']
      exact hNext a d
  | error halt d =>
      rw [hRun] at hRun'
      rw [bind_of_error hRun, bind_of_error hRun']
      rfl

theorem PardonedBy.map
    (hReader : x.PardonedBy x')
    (f : α → β) :
    (f <$> x).PardonedBy (f <$> x') := by
  rw [← bind_pure_comp, ← bind_pure_comp]
  exact hReader.bind fun a => pardoned_pure (f a)

theorem PardonedBy.ite
    {y y' : Reader α}
    {p : Prop}
    [Decidable p]
    (hThen : x.PardonedBy x')
    (hElse : y.PardonedBy y') :
    (if p then x else y).PardonedBy (if p then x' else y') := by
  by_cases hHolds : p
  · rw [if_pos hHolds, if_pos hHolds]
    exact hThen
  · rw [if_neg hHolds, if_neg hHolds]
    exact hElse

theorem pardoned_fail
    {fault : GrammarFault}
    (hOther : fault.isExcess = false) :
    (fail fault : Reader α).PardonedBy (fail fault) := by
  intro c
  unfold fail
  rw [← c.pardoned_recordHere hOther]
  rfl

theorem pardoned_tooDeep :
    (tooDeep : Reader α).PardonedBy tooDeep :=
  fun _ => rfl

theorem pardoned_noteAt
    {fault : GrammarFault}
    (hOther : fault.isExcess = false)
    (token : Token)
    (place : Nat) :
    (noteAt fault token place).PardonedBy
      (noteAt fault token place) := by
  intro c
  unfold noteAt
  rw [← c.pardoned_record hOther]
  rfl

/- The note that a list is too long is no step at all. -/
theorem pardoned_note
    {tooMany : GrammarFault}
    (hExcess : tooMany.isExcess = true) :
    (note tooMany).PardonedBy (pure ()) := by
  intro c
  have hSame := c.pardoned_recordHere_excess hExcess
  exact congrArg (EStateM.Result.ok ()) hSame.symm

theorem pardoned_upcoming : upcoming.PardonedBy upcoming :=
  fun _ => rfl

theorem pardoned_place : place.PardonedBy place :=
  fun _ => rfl

theorem pardoned_atEnd : atEnd.PardonedBy atEnd :=
  fun _ => rfl

theorem pardoned_nextIs (kind : Kind) :
    (nextIs kind).PardonedBy (nextIs kind) := by
  rintro ⟨tokens, last, place, errors⟩
  cases tokens <;> rfl

theorem pardoned_accept (kinds : Kind → Bool) :
    (accept kinds).PardonedBy (accept kinds) := by
  intro c
  unfold accept
  rw [Cursor.upcoming_pardoned]
  cases c.upcoming with
  | nil => rfl
  | cons t rest =>
      by_cases hKind : kinds t.kind = true
      · simp only [hKind, if_true]
        rw [← c.pardoned_advance]
        rfl
      · simp only [if_neg hKind]
        rfl

theorem pardoned_accepts (kind : Kind) :
    (accepts kind).PardonedBy (accepts kind) :=
  (pardoned_accept _).bind fun _ => pardoned_pure _

theorem pardoned_expect
    (kind : Kind)
    {fault : GrammarFault}
    (hOther : fault.isExcess = false) :
    (expect kind fault).PardonedBy (expect kind fault) := by
  apply (pardoned_accept _).bind
  intro found
  cases found with
  | none => exact pardoned_fail hOther
  | some t => exact pardoned_pure t

theorem PardonedBy.unlessNext
    (hPart : x.PardonedBy x')
    (kind : Kind)
    (absent : α) :
    (unlessNext kind absent x).PardonedBy
      (unlessNext kind absent x') := by
  apply (pardoned_nextIs kind).bind
  intro found
  exact PardonedBy.ite (pardoned_pure absent) hPart

theorem PardonedBy.optionalAfter
    (hPart : x.PardonedBy x')
    (kind : Kind) :
    (optionalAfter kind x).PardonedBy (optionalAfter kind x') := by
  apply (pardoned_accepts kind).bind
  intro found
  exact PardonedBy.ite (hPart.map some) (pardoned_pure none)

theorem PardonedBy.recovering
    (hReader : x.PardonedBy x') :
    (recovering x).PardonedBy (recovering x') := by
  intro c
  unfold Reader.recovering
  rw [hReader c]
  cases x c with
  | ok a d => rfl
  | error halt d =>
      cases halt with
      | failed =>
          simp only [mapState]
          rw [d.pardoned_synchronize]
      | tooDeep => rfl

end Lox.Reader

------------------------------------------------------------
-- Lists Without A Greatest Number
------------------------------------------------------------

namespace Lox.UpTo

open Reader

variable {α : Type} {x x' : Reader α}

/- By induction on the ticks: one item after another. -/
theorem pardoned_itemsFrom
    (hItem : x.PardonedBy x')
    {tooMany : GrammarFault}
    (hExcess : tooMany.isExcess = true)
    (ticks : List Token)
    (count : Nat)
    (items : List α) :
    (Reader.itemsFrom x tooMany ticks count items).PardonedBy
      (itemsFrom none x' tooMany ticks count items) := by
  induction ticks generalizing count items with
  | nil => exact pardoned_pure _
  | cons t ticks ih =>
      have hNext :
          (do
            let a ← x
            Reader.itemsFrom x tooMany ticks (count + 1)
              (a :: items)).PardonedBy
            (do
              let a ← x'
              itemsFrom none x' tooMany ticks (count + 1)
                (a :: items)) :=
        hItem.bind fun a => ih (count + 1) (a :: items)
      apply (pardoned_accepts .comma).bind
      intro found
      refine PardonedBy.ite ?_ (pardoned_pure _)
      by_cases hMany : GrammarFault.maxArguments ≤ count
      · simp only [if_pos hMany]
        exact (pardoned_note hExcess).bind fun _ => hNext
      · simp only [if_neg hMany]
        exact hNext

theorem pardoned_items
    (hItem : x.PardonedBy x')
    {tooMany : GrammarFault}
    (hExcess : tooMany.isExcess = true) :
    (Reader.items x tooMany).PardonedBy
      (items none x' tooMany) := by
  apply pardoned_upcoming.bind
  intro ticks
  apply hItem.bind
  intro first
  exact pardoned_itemsFrom hItem hExcess ticks 1 [first]

end Lox.UpTo

------------------------------------------------------------
-- Expressions Without A Greatest Number
------------------------------------------------------------

namespace Lox.UpTo

open Reader Grammar

section Chains

variable {operand operand' : Reader Expr}
variable (hOperand : operand.PardonedBy operand')

include hOperand

theorem pardoned_leftChainFrom
    (isOperator : Kind → Bool)
    (node : Expr → Token → Expr → Expr)
    (ticks : List Token)
    (left : Expr) :
    (leftChainFrom operand isOperator node ticks left).PardonedBy
      (leftChainFrom operand' isOperator node ticks left) := by
  induction ticks generalizing left with
  | nil => exact pardoned_pure left
  | cons t ticks ih =>
      apply (pardoned_accept isOperator).bind
      intro found
      cases found with
      | none => exact pardoned_pure left
      | some op =>
          exact hOperand.bind fun right => ih (node left op right)

theorem pardoned_leftChain
    (isOperator : Kind → Bool)
    (node : Expr → Token → Expr → Expr) :
    (leftChain operand isOperator node).PardonedBy
      (leftChain operand' isOperator node) := by
  apply pardoned_upcoming.bind
  intro ticks
  apply hOperand.bind
  intro left
  exact pardoned_leftChainFrom hOperand isOperator node ticks left

end Chains

theorem pardoned_disjunction
    {unary unary' : Reader Expr}
    (hUnary : unary.PardonedBy unary') :
    (disjunction unary).PardonedBy (disjunction unary') := by
  have hProduct :=
    pardoned_leftChain hUnary Kind.isProduct .binary
  have hSum := pardoned_leftChain hProduct Kind.isSum .binary
  have hComparison :=
    pardoned_leftChain hSum Kind.isComparison .binary
  have hEquality :=
    pardoned_leftChain hComparison Kind.isEquality .binary
  have hConjunction :=
    pardoned_leftChain hEquality (· = .andKw) .logical
  exact pardoned_leftChain hConjunction (· = .orKw) .logical

section Calls

variable {expression expression' : Reader Expr}
variable (hExpression : expression.PardonedBy expression')

include hExpression

theorem pardoned_primary :
    (primary expression).PardonedBy (primary expression') := by
  apply (pardoned_accept isAtom).bind
  intro found
  cases found with
  | some t => exact pardoned_pure (atom t)
  | none =>
      apply (pardoned_accepts .leftParen).bind
      intro opened
      refine PardonedBy.ite ?_ (pardoned_fail rfl)
      apply hExpression.bind
      intro inner
      apply (pardoned_expect .rightParen rfl).bind
      intro _
      exact pardoned_pure _

theorem pardoned_arguments :
    (Grammar.arguments expression).PardonedBy
      (arguments none expression') := by
  have hItems :=
    @pardoned_items _ _ _ hExpression .tooManyArguments rfl
  apply (hItems.unlessNext .rightParen []).bind
  intro args
  apply (pardoned_expect .rightParen rfl).bind
  intro paren
  exact pardoned_pure _

theorem pardoned_callsFrom
    (ticks : List Token)
    (callee : Expr) :
    (Grammar.callsFrom expression ticks callee).PardonedBy
      (callsFrom none expression' ticks callee) := by
  induction ticks generalizing callee with
  | nil => exact pardoned_pure callee
  | cons t ticks ih =>
      apply (pardoned_accepts .leftParen).bind
      intro opened
      refine PardonedBy.ite ?_ (pardoned_pure callee)
      apply (pardoned_arguments hExpression).bind
      intro result
      exact ih (.call callee result.2 result.1)

theorem pardoned_calls :
    (Grammar.calls expression).PardonedBy
      (calls none expression') := by
  apply pardoned_upcoming.bind
  intro ticks
  apply (pardoned_primary hExpression).bind
  intro callee
  exact pardoned_callsFrom hExpression ticks callee

end Calls

theorem pardoned_valueFor
    {value value' : Reader Expr}
    (hValue : value.PardonedBy value')
    (target : Expr) :
    (valueFor value target).PardonedBy
      (valueFor value' target) := by
  apply pardoned_place.bind
  intro signPlace
  apply (pardoned_accept _).bind
  intro found
  cases found with
  | none => exact pardoned_pure target
  | some equals =>
      apply hValue.bind
      intro assigned
      cases target with
      | «variable» name hops => exact pardoned_pure _
      | _ =>
          apply (pardoned_noteAt rfl equals signPlace).bind
          intro _
          exact pardoned_pure _

/- By induction on the nesting that is allowed. -/
theorem pardoned_expressions (nesting : Nat) :
    (Grammar.expression nesting).PardonedBy
        (expression none nesting) ∧
      (Grammar.assignment nesting).PardonedBy
        (assignment none nesting) ∧
      (Grammar.unary nesting).PardonedBy
        (unary none nesting) := by
  induction nesting using Nat.strongRecOn with
  | ind nesting ih =>
      refine ⟨?_, ?_, ?_⟩
      · by_cases hLevels : 8 ≤ nesting
        · rcases Nat.exists_eq_add_of_le' hLevels with
            ⟨inner, rfl⟩
          rw [Grammar.expression, expression]
          exact (ih inner (by omega)).2.1
        · rcases
            expression_shallow (Nat.lt_of_not_le hLevels)
              none with ⟨hHere, hThere⟩
          rw [hHere, hThere]
          exact pardoned_tooDeep
      · cases nesting with
        | zero =>
            rw [Grammar.assignment, assignment]
            exact pardoned_tooDeep
        | succ nesting =>
            have hInner := ih nesting (Nat.lt_succ_self nesting)
            rw [assignment_succ, assignment]
            apply (pardoned_disjunction hInner.2.2).bind
            intro target
            exact pardoned_valueFor hInner.2.1 target
      · cases nesting with
        | zero =>
            rw [Grammar.unary, unary]
            exact pardoned_tooDeep
        | succ nesting =>
            have hInner := ih nesting (Nat.lt_succ_self nesting)
            rw [Grammar.unary, unary]
            apply (pardoned_accept Kind.isSign).bind
            intro found
            cases found with
            | none => exact pardoned_calls hInner.1
            | some op =>
                exact hInner.2.2.bind fun e => pardoned_pure _

end Lox.UpTo

------------------------------------------------------------
-- Programs Without A Greatest Number
------------------------------------------------------------

namespace Lox.UpTo

open Reader Grammar

section Rests

variable {expression expression' : Reader Expr}
variable {statement statement' : Reader Stmt}
variable (hExpression : expression.PardonedBy expression')
variable (hStatement : statement.PardonedBy statement')

section Values

include hExpression

theorem pardoned_expressionStatement :
    (expressionStatement expression).PardonedBy
      (expressionStatement expression') := by
  apply hExpression.bind
  intro value
  apply (pardoned_expect .semicolon rfl).bind
  intro _
  exact pardoned_pure _

theorem pardoned_printRest :
    (printRest expression).PardonedBy (printRest expression') := by
  apply hExpression.bind
  intro value
  apply (pardoned_expect .semicolon rfl).bind
  intro _
  exact pardoned_pure _

theorem pardoned_returnRest (keyword : Token) :
    (returnRest expression keyword).PardonedBy
      (returnRest expression' keyword) := by
  apply ((hExpression.map some).unlessNext .semicolon none).bind
  intro value
  apply (pardoned_expect .semicolon rfl).bind
  intro _
  exact pardoned_pure _

theorem pardoned_variableRest :
    (variableRest expression).PardonedBy
      (variableRest expression') := by
  apply (pardoned_expect .identifier rfl).bind
  intro name
  apply (hExpression.optionalAfter .equal).bind
  intro initializer
  apply (pardoned_expect .semicolon rfl).bind
  intro _
  exact pardoned_pure _

theorem pardoned_forInitializer :
    (forInitializer expression).PardonedBy
      (forInitializer expression') := by
  apply (pardoned_accepts .semicolon).bind
  intro skipped
  refine PardonedBy.ite (pardoned_pure none) ?_
  apply (pardoned_accepts .varKw).bind
  intro declared
  exact
    PardonedBy.ite ((pardoned_variableRest hExpression).map some)
      ((pardoned_expressionStatement hExpression).map some)

end Values

include hExpression hStatement

theorem pardoned_ifRest :
    (ifRest expression statement).PardonedBy
      (ifRest expression' statement') := by
  apply (pardoned_expect .leftParen rfl).bind
  intro _
  apply hExpression.bind
  intro condition
  apply (pardoned_expect .rightParen rfl).bind
  intro _
  apply hStatement.bind
  intro thenBranch
  apply (hStatement.optionalAfter .elseKw).bind
  intro elseBranch
  cases elseBranch with
  | none => exact pardoned_pure _
  | some elseBranch => exact pardoned_pure _

theorem pardoned_whileRest :
    (whileRest expression statement).PardonedBy
      (whileRest expression' statement') := by
  apply (pardoned_expect .leftParen rfl).bind
  intro _
  apply hExpression.bind
  intro condition
  apply (pardoned_expect .rightParen rfl).bind
  intro _
  exact hStatement.bind fun body => pardoned_pure _

theorem pardoned_forRest :
    (forRest expression statement).PardonedBy
      (forRest expression' statement') := by
  apply (pardoned_expect .leftParen rfl).bind
  intro _
  apply (pardoned_forInitializer hExpression).bind
  intro initializer
  apply (hExpression.unlessNext .semicolon _).bind
  intro condition
  apply (pardoned_expect .semicolon rfl).bind
  intro _
  apply ((hExpression.map some).unlessNext .rightParen none).bind
  intro increment
  apply (pardoned_expect .rightParen rfl).bind
  intro _
  exact hStatement.bind fun body => pardoned_pure _

end Rests

section Bodies

variable {declaration declaration' : Reader (Option Stmt)}
variable (hDeclaration : declaration.PardonedBy declaration')

include hDeclaration

theorem pardoned_declarationsFrom
    (ticks : List Token)
    (body : List Stmt) :
    (declarationsFrom declaration ticks body).PardonedBy
      (declarationsFrom declaration' ticks body) := by
  induction ticks generalizing body with
  | nil => exact pardoned_pure _
  | cons t ticks ih =>
      apply (pardoned_nextIs .rightBrace).bind
      intro closing
      apply pardoned_atEnd.bind
      intro ended
      refine PardonedBy.ite (pardoned_pure _) ?_
      apply hDeclaration.bind
      intro found
      cases found with
      | none => exact ih body
      | some stmt => exact ih (stmt :: body)

theorem pardoned_blockRest :
    (blockRest declaration).PardonedBy
      (blockRest declaration') := by
  apply pardoned_upcoming.bind
  intro ticks
  apply (pardoned_declarationsFrom hDeclaration ticks []).bind
  intro body
  apply (pardoned_expect .rightBrace rfl).bind
  intro _
  exact pardoned_pure _

theorem pardoned_functionRest :
    (Grammar.functionRest declaration).PardonedBy
      (functionRest none declaration') := by
  have hName :=
    @pardoned_expect .identifier .expectParameterName rfl
  have hParams := @pardoned_items _ _ _ hName .tooManyParameters rfl
  apply (pardoned_expect .identifier rfl).bind
  intro name
  apply (pardoned_expect .leftParen rfl).bind
  intro _
  apply (hParams.unlessNext .rightParen []).bind
  intro params
  apply (pardoned_expect .rightParen rfl).bind
  intro _
  apply (pardoned_expect .leftBrace rfl).bind
  intro _
  apply (pardoned_blockRest hDeclaration).bind
  intro body
  exact pardoned_pure _

end Bodies

/- By induction on the nesting that is allowed. -/
theorem pardoned_statements (nesting : Nat) :
    (Grammar.declaration nesting).PardonedBy
        (declaration none nesting) ∧
      (Grammar.statement nesting).PardonedBy
        (statement none nesting) := by
  induction nesting with
  | zero =>
      rw [Grammar.declaration, declaration, Grammar.statement,
        statement]
      exact ⟨pardoned_tooDeep, pardoned_tooDeep⟩
  | succ nesting ih =>
      rcases ih with ⟨hDeclaration, hStatement⟩
      have hExpression := (pardoned_expressions nesting).1
      constructor
      · rw [Grammar.declaration, declaration]
        apply PardonedBy.recovering
        apply (pardoned_accept opensDeclaration).bind
        intro found
        cases found with
        | none => exact hStatement
        | some t =>
            exact
              PardonedBy.ite (pardoned_functionRest hDeclaration)
                (pardoned_variableRest hExpression)
      · rw [Grammar.statement, statement]
        apply (pardoned_accept opensStatement).bind
        intro found
        cases found with
        | none => exact pardoned_expressionStatement hExpression
        | some t =>
            dsimp only
            generalize t.kind = kind
            cases kind with
            | forKw => exact pardoned_forRest hExpression hStatement
            | ifKw => exact pardoned_ifRest hExpression hStatement
            | printKw => exact pardoned_printRest hExpression
            | returnKw => exact pardoned_returnRest hExpression t
            | whileKw =>
                exact pardoned_whileRest hExpression hStatement
            | _ => exact (pardoned_blockRest hDeclaration).map _

/- By induction on the ticks: one declaration after another. -/
theorem programFrom_pardoned
    {declaration declaration' : Reader (Option Stmt)}
    (hDeclaration : declaration.PardonedBy declaration')
    (ticks : List Token)
    (program : List Stmt)
    (c : Cursor) :
    let parsed := programFrom declaration ticks program c
    programFrom declaration' ticks program c.pardoned =
      ⟨parsed.program, withoutExcess parsed.errors⟩ := by
  induction ticks generalizing program c with
  | nil => rfl
  | cons t ticks ih =>
      unfold programFrom
      rw [Cursor.atEnd_pardoned]
      by_cases hEnd : c.atEnd = true
      · rw [if_pos hEnd, if_pos hEnd]
        rfl
      · rw [if_neg hEnd, if_neg hEnd]
        rw [hDeclaration c]
        cases declaration c with
        | ok found d =>
            cases found with
            | none => exact ih program d
            | some stmt => exact ih (stmt :: program) d
        | error halt d =>
            cases halt with
            | failed => exact ih program d
            | tooDeep =>
                have hNext :=
                  (d.recordHere .nestingTooDeep).pardoned_synchronize
                rw [Cursor.pardoned_recordHere rfl] at hNext
                simp only [mapState]
                rw [← hNext]
                exact ih program _

/-
  Without a greatest number the same program is read, with the
  same errors but for those that lists are too long.
-/
theorem parse_none (limits : Limits) (tokens : List Token) :
    parse none limits tokens =
      ⟨(Lox.parse limits tokens).program,
        withoutExcess (Lox.parse limits tokens).errors⟩ :=
  programFrom_pardoned (pardoned_statements limits.nesting).1
    (Cursor.ofTokens tokens).upcoming [] (Cursor.ofTokens tokens)

end Lox.UpTo
