import Lox.Proofs.Grammar.Prolonging

/-
  How much nesting is enough to read some tokens.

  A reader comes to itself again only after it has moved over
  a token, and there are ten levels of the grammar from one
  expression to the next one within it. So with ten times as
  much nesting as there are tokens, and a little more, reading
  never stops for being nested too deeply, whatever the tokens
  are and however many errors they hold.

  Key definitions include:
    * `Reader.Settles`
    * `Grammar.settles_expressions`
    * `Grammar.settles_statements`
-/

------------------------------------------------------------
-- Readers That Settle
------------------------------------------------------------

namespace Lox.Reader

variable {α β : Type} {n : Nat} {x : Reader α} {f : α → Reader β}

/- Reading has not run out of nesting, and few tokens are left. -/
def EndsWithin (n : Nat) : EStateM.Result Halt Cursor α → Prop
  | .ok _ d => d.upcoming.length ≤ n
  | .error .failed d => d.upcoming.length ≤ n
  | .error .tooDeep _ => False

theorem EndsWithin.mono
    {m : Nat}
    {result : EStateM.Result Halt Cursor α}
    (hEnds : EndsWithin m result)
    (hLess : m ≤ n) :
    EndsWithin n result := by
  cases result with
  | ok a d => exact Nat.le_trans hEnds hLess
  | error halt d =>
      cases halt with
      | failed => exact Nat.le_trans hEnds hLess
      | tooDeep => exact hEnds

/-
  With no more than a number of tokens left, the reader does
  not run out of nesting, and there are no more tokens left
  after it.
-/
def Settles (n : Nat) (x : Reader α) : Prop :=
  ∀ c : Cursor, c.upcoming.length ≤ n →
    EndsWithin c.upcoming.length (x c)

theorem Settles.mono
    {m : Nat}
    (hSettles : x.Settles n)
    (hLess : m ≤ n) :
    x.Settles m :=
  fun c hLength => hSettles c (Nat.le_trans hLength hLess)

/- A step that knows nothing of nesting. -/
theorem Proceeds.settles
    (hProceeds : x.Proceeds)
    (hNever : ∀ c d, x c ≠ .error .tooDeep d) :
    x.Settles n := by
  intro c _
  have hReader := hProceeds c
  cases hRun : x c with
  | ok a d =>
      rw [hRun] at hReader
      exact Cursor.Leads.length_le hReader
  | error halt d =>
      rw [hRun] at hReader
      cases halt with
      | failed => exact hReader.1.length_le
      | tooDeep => exact hNever c d hRun

theorem Settles.bind
    (hFirst : x.Settles n)
    (hNext : ∀ a, (f a).Settles n) :
    (x >>= f).Settles n := by
  intro c hLength
  have hStart := hFirst c hLength
  cases hRun : x c with
  | ok a d =>
      rw [hRun] at hStart
      rw [bind_of_ok hRun]
      exact (hNext a d (Nat.le_trans hStart hLength)).mono hStart
  | error halt d =>
      rw [hRun] at hStart
      rw [bind_of_error hRun]
      cases halt with
      | failed => exact hStart
      | tooDeep => exact hStart

theorem settles_pure (a : α) : (pure a : Reader α).Settles n :=
  (proceeds_pure a).settles fun _ _ hRun => nomatch hRun

theorem Settles.map
    (hSettles : x.Settles n)
    (f : α → β) :
    (f <$> x).Settles n := by
  rw [← bind_pure_comp]
  exact hSettles.bind fun a => settles_pure (f a)

theorem Settles.ite
    {y : Reader α}
    {p : Prop}
    [Decidable p]
    (hThen : x.Settles n)
    (hElse : y.Settles n) :
    (if p then x else y).Settles n := by
  by_cases hHolds : p
  · rw [if_pos hHolds]
    exact hThen
  · rw [if_neg hHolds]
    exact hElse

/- Moving on after an error does not need any nesting. -/
theorem Settles.recovering
    (hSettles : x.Settles n) :
    (recovering x).Settles n := by
  intro c hLength
  have hReader := hSettles c hLength
  unfold Reader.recovering
  cases hRun : x c with
  | ok a d =>
      rw [hRun] at hReader
      exact hReader
  | error halt d =>
      rw [hRun] at hReader
      cases halt with
      | failed =>
          have hSkip := (Cursor.leads_synchronize d).length_le
          exact Nat.le_trans hSkip hReader
      | tooDeep => exact hReader

end Lox.Reader

------------------------------------------------------------
-- Single Tokens
------------------------------------------------------------

namespace Lox.Reader

variable {α β : Type} {n : Nat} {x : Reader α}

theorem settles_fail (fault : GrammarFault) :
    (fail fault : Reader α).Settles n :=
  (proceeds_fail fault).settles fun _ _ hRun => nomatch hRun

theorem settles_noteAt
    (fault : GrammarFault)
    (token : Token)
    (place : Nat) :
    (noteAt fault token place).Settles n :=
  (proceeds_noteAt fault token place).settles
    fun _ _ hRun => nomatch hRun

theorem settles_note (fault : GrammarFault) :
    (note fault).Settles n :=
  (proceeds_note fault).settles fun _ _ hRun => nomatch hRun

theorem settles_upcoming : upcoming.Settles n :=
  proceeds_upcoming.settles fun _ _ hRun => nomatch hRun

theorem settles_place : place.Settles n :=
  proceeds_place.settles fun _ _ hRun => nomatch hRun

theorem settles_atEnd : atEnd.Settles n :=
  proceeds_atEnd.settles fun _ _ hRun => nomatch hRun

theorem settles_nextIs (kind : Kind) :
    (nextIs kind).Settles n := by
  apply (proceeds_nextIs kind).settles
  intro c d hRun
  unfold nextIs at hRun
  split at hRun <;> cases hRun

theorem settles_accept (kinds : Kind → Bool) :
    (accept kinds).Settles n := by
  apply (proceeds_accept kinds).settles
  intro c d hRun
  unfold accept at hRun
  split at hRun
  · cases hRun
  · split at hRun <;> cases hRun

theorem settles_accepts (kind : Kind) :
    (accepts kind).Settles n :=
  (settles_accept _).bind fun _ => settles_pure _

theorem settles_expect (kind : Kind) (fault : GrammarFault) :
    (expect kind fault).Settles n := by
  apply (settles_accept _).bind
  intro found
  cases found with
  | none => exact settles_fail fault
  | some t => exact settles_pure t

/-
  After a token that is accepted there are fewer tokens left,
  so what comes then may need less nesting.
-/
theorem Settles.acceptThen
    {kinds : Kind → Bool}
    {f : Option Token → Reader β}
    (hNone : (f none).Settles n)
    (hSome : ∀ t, ∀ m < n, (f (some t)).Settles m) :
    (accept kinds >>= f).Settles n := by
  intro c hLength
  have hAbsent (hRun : accept kinds c = .ok none c) :
      EndsWithin c.upcoming.length ((accept kinds >>= f) c) := by
    rw [bind_of_ok hRun]
    exact hNone c hLength
  cases hUpcoming : c.upcoming with
  | nil =>
      rw [← hUpcoming]
      apply hAbsent
      simp [accept, hUpcoming]
  | cons t rest =>
      rw [← hUpcoming]
      by_cases hKind : kinds t.kind
      · have hRun : accept kinds c = .ok (some t) c.advance := by
          simp [accept, hUpcoming, hKind]
        have hLess := upcoming_advance hUpcoming
        have hFew := Nat.lt_of_lt_of_le hLess hLength
        rw [bind_of_ok hRun]
        exact
          (hSome t _ hFew c.advance (Nat.le_refl _)).mono
            (Nat.le_of_lt hLess)
      · apply hAbsent
        simp [accept, hUpcoming, hKind]

theorem Settles.acceptsThen
    {kind : Kind}
    {f : Bool → Reader β}
    (hFalse : (f false).Settles n)
    (hTrue : ∀ m < n, (f true).Settles m) :
    (accepts kind >>= f).Settles n := by
  unfold accepts
  rw [bind_assoc]
  exact Settles.acceptThen hFalse fun _ => hTrue

theorem Settles.unlessNext
    (hPart : x.Settles n)
    (kind : Kind)
    (absent : α) :
    (unlessNext kind absent x).Settles n := by
  apply (settles_nextIs kind).bind
  intro found
  exact (settles_pure absent).ite hPart

theorem Settles.optionalAfter
    (hPart : x.Settles n)
    (kind : Kind) :
    (optionalAfter kind x).Settles n := by
  apply (settles_accepts kind).bind
  intro found
  exact (hPart.map some).ite (settles_pure none)

theorem Settles.itemsFrom
    (hItem : x.Settles n)
    (tooMany : GrammarFault)
    (ticks : List Token)
    (count : Nat)
    (items : List α) :
    (itemsFrom x tooMany ticks count items).Settles n := by
  induction ticks generalizing count items with
  | nil => exact settles_pure _
  | cons tick ticks ih =>
      have hItems :=
        hItem.bind fun a => ih (count + 1) (a :: items)
      apply (settles_accepts .comma).bind
      intro found
      refine Settles.ite ?_ (settles_pure _)
      exact
        Settles.ite
          ((settles_note tooMany).bind fun _ => hItems) hItems

theorem Settles.items
    (hItem : x.Settles n)
    (tooMany : GrammarFault) :
    (items x tooMany).Settles n := by
  apply settles_upcoming.bind
  intro ticks
  apply hItem.bind
  intro first
  exact hItem.itemsFrom tooMany ticks 1 [first]

end Lox.Reader

------------------------------------------------------------
-- Expressions
------------------------------------------------------------

namespace Lox.Grammar

open Reader

variable {n : Nat}

theorem settles_leftChainFrom
    {operand : Reader Expr}
    (hOperand : operand.Settles n)
    (isOperator : Kind → Bool)
    (node : Expr → Token → Expr → Expr)
    (ticks : List Token)
    (left : Expr) :
    (leftChainFrom operand isOperator node ticks left).Settles
      n := by
  induction ticks generalizing left with
  | nil => exact settles_pure left
  | cons tick ticks ih =>
      apply (settles_accept isOperator).bind
      intro found
      cases found with
      | none => exact settles_pure left
      | some op => exact hOperand.bind fun right => ih _

theorem settles_leftChain
    {operand : Reader Expr}
    (hOperand : operand.Settles n)
    (isOperator : Kind → Bool)
    (node : Expr → Token → Expr → Expr) :
    (leftChain operand isOperator node).Settles n := by
  apply settles_upcoming.bind
  intro ticks
  apply hOperand.bind
  intro left
  exact settles_leftChainFrom hOperand isOperator node ticks left

theorem settles_disjunction
    {unary : Reader Expr}
    (hUnary : unary.Settles n) :
    (disjunction unary).Settles n := by
  apply settles_leftChain
  apply settles_leftChain
  apply settles_leftChain
  apply settles_leftChain
  apply settles_leftChain
  exact settles_leftChain hUnary _ _

section Calls

variable {expression : Reader Expr}

theorem settles_arguments
    (hExpression : expression.Settles n) :
    (arguments expression).Settles n := by
  apply ((hExpression.items _).unlessNext _ _).bind
  intro args
  apply (settles_expect _ _).bind
  intro paren
  exact settles_pure _

/- Inner expressions come after a parenthesis. -/
variable (hExpression : ∀ m < n, expression.Settles m)

include hExpression

theorem settles_primary : (primary expression).Settles n := by
  apply (settles_accept isAtom).bind
  intro found
  cases found with
  | some t => exact settles_pure _
  | none =>
      apply Settles.acceptsThen
      · exact settles_fail _
      · intro m hLess
        apply (hExpression m hLess).bind
        intro inner
        apply (settles_expect _ _).bind
        intro _
        exact settles_pure _

theorem settles_callsFrom
    (ticks : List Token)
    (callee : Expr) :
    (callsFrom expression ticks callee).Settles n := by
  induction ticks generalizing callee with
  | nil => exact settles_pure callee
  | cons tick ticks ih =>
      apply Settles.acceptsThen
      · exact settles_pure callee
      · intro m hLess
        apply (settles_arguments (hExpression m hLess)).bind
        intro result
        exact (ih _).mono (Nat.le_of_lt hLess)

theorem settles_calls : (calls expression).Settles n := by
  apply settles_upcoming.bind
  intro ticks
  apply (settles_primary hExpression).bind
  intro callee
  exact settles_callsFrom hExpression ticks callee

end Calls

theorem settles_unary_step
    {nesting : Nat}
    (hUnary : ∀ m < n, (unary nesting).Settles m)
    (hExpression : ∀ m < n, (expression nesting).Settles m) :
    (unary (nesting + 1)).Settles n := by
  rw [unary]
  apply Settles.acceptThen
  · exact settles_calls hExpression
  · intro op m hLess
    exact (hUnary m hLess).bind fun _ => settles_pure _

theorem settles_assignment_step
    {nesting : Nat}
    (hUnary : (unary nesting).Settles n)
    (hAssignment : ∀ m < n, (assignment nesting).Settles m) :
    (assignment (nesting + 1)).Settles n := by
  rw [assignment]
  apply (settles_disjunction hUnary).bind
  intro target
  apply settles_place.bind
  intro signPlace
  apply Settles.acceptThen
  · exact settles_pure target
  · intro equals m hLess
    apply (hAssignment m hLess).bind
    intro value
    cases target with
    | «variable» name hops => exact settles_pure _
    | _ =>
        apply (settles_noteAt _ _ _).bind
        intro _
        exact settles_pure _

/-
  Ten levels of nesting for each token, and those that lead to
  the outermost expression, are enough.
-/
theorem settles_expressions
    (nesting : Nat)
    (n : Nat) :
    (10 * n + 10 ≤ nesting → (expression nesting).Settles n) ∧
      (10 * n + 2 ≤ nesting → (assignment nesting).Settles n) ∧
        (10 * n + 1 ≤ nesting → (unary nesting).Settles n) := by
  induction nesting using Nat.strongRecOn generalizing n with
  | ind nesting ih =>
      refine ⟨?_, ?_, ?_⟩
      · intro hRoom
        have hLevels : 8 ≤ nesting := by omega
        rcases Nat.exists_eq_add_of_le' hLevels with ⟨inner, rfl⟩
        rw [expression]
        exact (ih inner (by omega) n).2.1 (by omega)
      · intro hRoom
        have hLevel : 1 ≤ nesting := by omega
        rcases Nat.exists_eq_add_of_le' hLevel with ⟨inner, rfl⟩
        apply settles_assignment_step
        · exact (ih inner (by omega) n).2.2 (by omega)
        · intro m hLess
          exact (ih inner (by omega) m).2.1 (by omega)
      · intro hRoom
        have hLevel : 1 ≤ nesting := by omega
        rcases Nat.exists_eq_add_of_le' hLevel with ⟨inner, rfl⟩
        apply settles_unary_step
        · intro m hLess
          exact (ih inner (by omega) m).2.2 (by omega)
        · intro m hLess
          exact (ih inner (by omega) m).1 (by omega)

theorem settles_expression
    {nesting : Nat}
    (hRoom : 10 * n + 10 ≤ nesting) :
    (expression nesting).Settles n :=
  (settles_expressions nesting n).1 hRoom

end Lox.Grammar

------------------------------------------------------------
-- Parts Of Statements
------------------------------------------------------------

namespace Lox.Grammar

open Reader

variable {n : Nat}

section Nested

variable {expression : Reader Expr}
variable (hExpression : expression.Settles n)

include hExpression

theorem settles_expressionStatement :
    (expressionStatement expression).Settles n := by
  apply hExpression.bind
  intro value
  apply (settles_expect _ _).bind
  intro _
  exact settles_pure _

theorem settles_printRest :
    (printRest expression).Settles n := by
  apply hExpression.bind
  intro value
  apply (settles_expect _ _).bind
  intro _
  exact settles_pure _

theorem settles_returnRest (keyword : Token) :
    (returnRest expression keyword).Settles n := by
  apply ((hExpression.map some).unlessNext _ _).bind
  intro value
  apply (settles_expect _ _).bind
  intro _
  exact settles_pure _

theorem settles_variableRest :
    (variableRest expression).Settles n := by
  apply (settles_expect _ _).bind
  intro name
  apply (hExpression.optionalAfter _).bind
  intro initializer
  apply (settles_expect _ _).bind
  intro _
  exact settles_pure _

theorem settles_forInitializer :
    (forInitializer expression).Settles n := by
  have hVariable := settles_variableRest hExpression
  have hStatement := settles_expressionStatement hExpression
  apply (settles_accepts .semicolon).bind
  intro absent
  refine Settles.ite (settles_pure none) ?_
  apply (settles_accepts .varKw).bind
  intro declares
  exact Settles.ite (hVariable.map some) (hStatement.map some)

variable {statement : Reader Stmt}
variable (hStatement : statement.Settles n)

include hStatement

theorem settles_ifRest :
    (ifRest expression statement).Settles n := by
  apply (settles_expect _ _).bind
  intro _
  apply hExpression.bind
  intro condition
  apply (settles_expect _ _).bind
  intro _
  apply hStatement.bind
  intro thenBranch
  apply (hStatement.optionalAfter _).bind
  intro elseBranch
  cases elseBranch with
  | none => exact settles_pure _
  | some elseBranch => exact settles_pure _

theorem settles_whileRest :
    (whileRest expression statement).Settles n := by
  apply (settles_expect _ _).bind
  intro _
  apply hExpression.bind
  intro condition
  apply (settles_expect _ _).bind
  intro _
  apply hStatement.bind
  intro body
  exact settles_pure _

theorem settles_forRest :
    (forRest expression statement).Settles n := by
  apply (settles_expect _ _).bind
  intro _
  apply (settles_forInitializer hExpression).bind
  intro initializer
  apply (hExpression.unlessNext _ _).bind
  intro condition
  apply (settles_expect _ _).bind
  intro _
  apply ((hExpression.map some).unlessNext _ _).bind
  intro increment
  apply (settles_expect _ _).bind
  intro _
  apply hStatement.bind
  intro body
  exact settles_pure _

end Nested

section Bodies

variable {declaration : Reader (Option Stmt)}
variable (hDeclaration : declaration.Settles n)

include hDeclaration

theorem settles_declarationsFrom
    (ticks : List Token)
    (body : List Stmt) :
    (declarationsFrom declaration ticks body).Settles n := by
  induction ticks generalizing body with
  | nil => exact settles_pure _
  | cons tick ticks ih =>
      apply (settles_nextIs .rightBrace).bind
      intro closes
      apply settles_atEnd.bind
      intro ended
      refine Settles.ite (settles_pure _) ?_
      apply hDeclaration.bind
      intro found
      cases found with
      | none => exact ih body
      | some stmt => exact ih (stmt :: body)

theorem settles_blockRest :
    (blockRest declaration).Settles n := by
  apply settles_upcoming.bind
  intro ticks
  apply (settles_declarationsFrom hDeclaration ticks []).bind
  intro body
  apply (settles_expect _ _).bind
  intro _
  exact settles_pure body

theorem settles_functionRest :
    (functionRest declaration).Settles n := by
  have hParams :=
    (settles_expect (n := n) .identifier
      .expectParameterName).items .tooManyParameters
  apply (settles_expect _ _).bind
  intro name
  apply (settles_expect _ _).bind
  intro _
  apply (hParams.unlessNext _ _).bind
  intro params
  apply (settles_expect _ _).bind
  intro _
  apply (settles_expect _ _).bind
  intro _
  apply (settles_blockRest hDeclaration).bind
  intro body
  exact settles_pure _

end Bodies

end Lox.Grammar

------------------------------------------------------------
-- Statements And Declarations
------------------------------------------------------------

namespace Lox.Grammar

open Reader

variable {n nesting : Nat}

theorem settles_statement_step
    (hExpression : (expression nesting).Settles n)
    (hStatement : ∀ m < n, (statement nesting).Settles m)
    (hDeclaration : ∀ m < n, (declaration nesting).Settles m) :
    (statement (nesting + 1)).Settles n := by
  rw [statement]
  apply Settles.acceptThen
  · exact settles_expressionStatement hExpression
  · intro t m hLess
    have hInner := hExpression.mono (Nat.le_of_lt hLess)
    have hBranch := hStatement m hLess
    have hBlock := settles_blockRest (hDeclaration m hLess)
    dsimp only
    split
    · exact settles_forRest hInner hBranch
    · exact settles_ifRest hInner hBranch
    · exact settles_printRest hInner
    · exact settles_returnRest hInner t
    · exact settles_whileRest hInner hBranch
    · exact hBlock.map Stmt.block

theorem settles_declaration_step
    (hExpression : (expression nesting).Settles n)
    (hStatement : (statement nesting).Settles n)
    (hDeclaration : ∀ m < n, (declaration nesting).Settles m) :
    (declaration (nesting + 1)).Settles n := by
  rw [declaration]
  apply Settles.recovering
  apply Settles.acceptThen hStatement
  intro t m hLess
  exact
    (settles_functionRest (hDeclaration m hLess)).ite
      (settles_variableRest
        (hExpression.mono (Nat.le_of_lt hLess)))

/- Statements and declarations are levels above expressions. -/
theorem settles_statements
    (nesting : Nat)
    (n : Nat) :
    (10 * n + 11 ≤ nesting → (statement nesting).Settles n) ∧
      (10 * n + 12 ≤ nesting →
        (declaration nesting).Settles n) := by
  induction nesting generalizing n with
  | zero =>
      constructor
      · intro hRoom
        omega
      · intro hRoom
        omega
  | succ nesting ih =>
      constructor
      · intro hRoom
        apply settles_statement_step
        · exact settles_expression (by omega)
        · intro m hLess
          exact (ih m).1 (by omega)
        · intro m hLess
          exact (ih m).2 (by omega)
      · intro hRoom
        apply settles_declaration_step
        · exact settles_expression (by omega)
        · exact (ih n).1 (by omega)
        · intro m hLess
          exact (ih m).2 (by omega)

end Lox.Grammar
