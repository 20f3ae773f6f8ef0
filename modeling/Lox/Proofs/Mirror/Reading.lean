import Lox.Grammar.Statement
import Lox.Proofs.Coupling
import Lox.Proofs.Mirror.Trees

/-
  Reading does not look at the places of tokens.

  Two lists of tokens whose words are the same, one by one, are
  read in the same way: into trees that mirror each other, with
  the same errors at corresponding tokens.

  Key definitions include:
    * `ParseError.Mirrors`
    * `Cursor.Mirrors`
    * `Mirror.reading`
    * `parse_mirrors`
-/

------------------------------------------------------------
-- Cursors
------------------------------------------------------------

namespace Lox

/- Errors of the same kind at corresponding tokens. -/
structure ParseError.Mirrors
    (M : Mirror)
    (e e' : ParseError) :
    Prop where
  fault : e'.fault = e.fault
  token : M.rel e.token e'.token
  place : e'.place = e.place

/- Cursors at corresponding tokens, with such errors so far. -/
structure Cursor.Mirrors (M : Mirror) (c c' : Cursor) : Prop where
  upcoming : List.Forall₂ M.rel c.upcoming c'.upcoming
  last : M.rel c.last c'.last
  place : c'.place = c.place
  errors :
    List.Forall₂ (ParseError.Mirrors M) c.errors.toList
      c'.errors.toList

/- Readers that halt for the same reason. -/
def Mirror.reading (M : Mirror) : Coupling Halt Cursor :=
  { states := Cursor.Mirrors M, errors := Eq }

namespace Cursor.Mirrors

variable {M : Mirror} {c c' : Cursor}

theorem current (hMirrors : c.Mirrors M c') :
    M.rel c.current c'.current := by
  have hUpcoming := hMirrors.upcoming
  unfold Cursor.current
  generalize c.upcoming = tokens at hUpcoming ⊢
  generalize c'.upcoming = tokens' at hUpcoming ⊢
  cases hUpcoming with
  | nil => exact hMirrors.last
  | cons hToken _ => exact hToken

theorem record
    (hMirrors : c.Mirrors M c')
    {t t' : Token}
    (hToken : M.rel t t')
    (fault : GrammarFault)
    (place : Nat) :
    (c.record fault t place).Mirrors M
      (c'.record fault t' place) := by
  refine ⟨hMirrors.upcoming, hMirrors.last, hMirrors.place, ?_⟩
  simp only [Cursor.record, Array.toList_push]
  exact List.rel_append hMirrors.errors (.cons ⟨rfl, hToken, rfl⟩ .nil)

theorem recordHere
    (hMirrors : c.Mirrors M c')
    (fault : GrammarFault) :
    (c.recordHere fault).Mirrors M (c'.recordHere fault) := by
  unfold Cursor.recordHere
  rw [hMirrors.place]
  exact hMirrors.record hMirrors.current fault c.place

theorem atEnd (hMirrors : c.Mirrors M c') :
    c'.atEnd = c.atEnd := by
  have hUpcoming := hMirrors.upcoming
  unfold Cursor.atEnd
  generalize c.upcoming = tokens at hUpcoming ⊢
  generalize c'.upcoming = tokens' at hUpcoming ⊢
  cases hUpcoming <;> rfl

theorem skipCount
    {t t' : Token}
    {tokens tokens' : List Token}
    (hToken : M.rel t t')
    (hTokens : List.Forall₂ M.rel tokens tokens') :
    Cursor.skipCount t' tokens' = Cursor.skipCount t tokens := by
  induction hTokens generalizing t t' with
  | nil => rfl
  | @cons u u' tokens tokens' hNext _ ih =>
      unfold Cursor.skipCount
      rw [(M.sameWord hToken).kind, (M.sameWord hNext).kind,
        ih hNext]

theorem synchronize (hMirrors : c.Mirrors M c') :
    c.synchronize.Mirrors M c'.synchronize := by
  rcases c with ⟨tokens, last, place, errors⟩
  rcases c' with ⟨tokens', last', place', errors'⟩
  rcases hMirrors with ⟨hUpcoming, hLast, hPlace, hErrors⟩
  cases hUpcoming with
  | nil => exact ⟨.nil, hLast, hPlace, hErrors⟩
  | cons hToken hRest =>
      have hCount := skipCount hToken hRest
      refine ⟨?_, hLast, ?_, hErrors⟩
      · simp only [Cursor.synchronize, hCount]
        exact List.forall₂_drop _ hRest
      · simp only [Cursor.synchronize, hCount]
        rw [show place' = place from hPlace]

end Cursor.Mirrors

end Lox

------------------------------------------------------------
-- Steps Of Reading
------------------------------------------------------------

namespace Lox.Reader

open Coupling

variable {M : Mirror} {α β : Type} {A : α → α → Prop}

theorem mirrors_fail (fault : GrammarFault) :
    M.reading.Relates A (fail fault) (fail fault) :=
  fun _ _ hCursors => ⟨rfl, hCursors.recordHere fault⟩

theorem mirrors_tooDeep : M.reading.Relates A tooDeep tooDeep :=
  fun _ _ hCursors => ⟨rfl, hCursors⟩

theorem mirrors_noteAt
    {t t' : Token}
    (hToken : M.rel t t')
    (fault : GrammarFault)
    (place : Nat) :
    M.reading.Relates Eq (noteAt fault t place)
      (noteAt fault t' place) :=
  fun _ _ hCursors => ⟨rfl, hCursors.record hToken fault place⟩

theorem mirrors_note (fault : GrammarFault) :
    M.reading.Relates Eq (note fault) (note fault) :=
  fun _ _ hCursors => ⟨rfl, hCursors.recordHere fault⟩

theorem mirrors_upcoming :
    M.reading.Relates (List.Forall₂ M.rel) upcoming upcoming :=
  fun _ _ hCursors => ⟨hCursors.upcoming, hCursors⟩

theorem mirrors_place : M.reading.Relates Eq place place :=
  fun _ _ hCursors => ⟨hCursors.place.symm, hCursors⟩

theorem mirrors_atEnd : M.reading.Relates Eq atEnd atEnd :=
  fun _ _ hCursors => ⟨hCursors.atEnd.symm, hCursors⟩

theorem mirrors_nextIs (kind : Kind) :
    M.reading.Relates Eq (nextIs kind) (nextIs kind) := by
  intro c c' hCursors
  have hUpcoming := hCursors.upcoming
  unfold nextIs
  generalize c.upcoming = tokens at hUpcoming ⊢
  generalize c'.upcoming = tokens' at hUpcoming ⊢
  cases hUpcoming with
  | nil => exact ⟨rfl, hCursors⟩
  | cons hToken _ =>
      refine ⟨?_, hCursors⟩
      rw [(M.sameWord hToken).kind]

theorem mirrors_accept (kinds : Kind → Bool) :
    M.reading.Relates (Option.Rel M.rel) (accept kinds)
      (accept kinds) := by
  intro c c' hCursors
  rcases c with ⟨tokens, last, place, errors⟩
  rcases c' with ⟨tokens', last', place', errors'⟩
  have hPlace : place' = place := hCursors.place
  have hUpcoming : List.Forall₂ M.rel tokens tokens' :=
    hCursors.upcoming
  cases hUpcoming with
  | nil => exact ⟨.none, hCursors⟩
  | @cons t t' rest rest' hToken hRest =>
      have hKind := (M.sameWord hToken).kind
      by_cases hAccepted : kinds t.kind = true
      · have hAccepted' : kinds t'.kind = true := by
          rw [hKind]
          exact hAccepted
        simp only [accept, hAccepted, hAccepted', if_true,
          Cursor.advance]
        refine ⟨.some hToken, hRest, hCursors.last, ?_, hCursors.errors⟩
        rw [hPlace]
      · have hAccepted' : ¬ kinds t'.kind = true := by
          rw [hKind]
          exact hAccepted
        simp only [accept, if_neg hAccepted, if_neg hAccepted']
        exact ⟨.none, hCursors⟩

theorem mirrors_accepts (kind : Kind) :
    M.reading.Relates Eq (accepts kind) (accepts kind) := by
  apply (mirrors_accept _).bind
  intro found found' hFound
  cases hFound with
  | none => exact relates_pure rfl
  | some _ => exact relates_pure rfl

theorem mirrors_expect (kind : Kind) (fault : GrammarFault) :
    M.reading.Relates M.rel (expect kind fault)
      (expect kind fault) := by
  apply (mirrors_accept _).bind
  intro found found' hFound
  cases hFound with
  | none => exact mirrors_fail fault
  | some hToken => exact relates_pure hToken

/- A token that has to be there, and then the rest. -/
theorem mirrors_expectThen
    {x x' : Reader α}
    (hRest : M.reading.Relates A x x')
    (kind : Kind)
    (fault : GrammarFault) :
    M.reading.Relates A (expect kind fault >>= fun _ => x)
      (expect kind fault >>= fun _ => x') := by
  apply (mirrors_expect kind fault).bind
  intro _ _ _
  exact hRest

theorem mirrors_unlessNext
    {part part' : Reader α}
    {absent absent' : α}
    (hPart : M.reading.Relates A part part')
    (hAbsent : A absent absent')
    (kind : Kind) :
    M.reading.Relates A (unlessNext kind absent part)
      (unlessNext kind absent' part') := by
  apply (mirrors_nextIs kind).bind
  intro found found' hFound
  rw [hFound]
  exact Relates.ite Iff.rfl (relates_pure hAbsent) hPart

theorem mirrors_optionalAfter
    {part part' : Reader α}
    (hPart : M.reading.Relates A part part')
    (kind : Kind) :
    M.reading.Relates (Option.Rel A) (optionalAfter kind part)
      (optionalAfter kind part') := by
  apply (mirrors_accepts kind).bind
  intro found found' hFound
  rw [hFound]
  refine Relates.ite Iff.rfl ?_ (relates_pure .none)
  exact hPart.map fun _ _ hResult => .some hResult

theorem mirrors_recovering
    {reader reader' : Reader α}
    (hReader : M.reading.Relates A reader reader') :
    M.reading.Relates (Option.Rel A) (recovering reader)
      (recovering reader') := by
  intro c c' hCursors
  have hEnds := hReader c c' hCursors
  unfold recovering
  cases hRun : reader c with
  | ok a d =>
      rw [hRun] at hEnds
      rcases hEnds.exists_ok with ⟨a', d', hRun', hResult, hLast⟩
      rw [hRun']
      exact ⟨.some hResult, hLast⟩
  | error halt d =>
      rw [hRun] at hEnds
      rcases hEnds.exists_error with ⟨_, d', hRun', rfl, hLast⟩
      rw [hRun']
      cases halt with
      | failed => exact ⟨.none, hLast.synchronize⟩
      | tooDeep => exact ⟨rfl, hLast⟩

theorem mirrors_itemsFrom
    {item item' : Reader α}
    (hItem : M.reading.Relates A item item')
    (tooMany : GrammarFault)
    {ticks ticks' : List Token}
    (hTicks : List.Forall₂ M.rel ticks ticks')
    (count : Nat)
    {items items' : List α}
    (hItems : List.Forall₂ A items items') :
    M.reading.Relates (List.Forall₂ A)
      (itemsFrom item tooMany ticks count items)
      (itemsFrom item' tooMany ticks' count items') := by
  induction hTicks generalizing count items items' with
  | nil => exact relates_pure (List.rel_reverse hItems)
  | cons _ _ ih =>
      apply (mirrors_accepts .comma).bind
      intro found found' hFound
      rw [hFound]
      refine
        Relates.ite Iff.rfl ?_
          (relates_pure (List.rel_reverse hItems))
      have hNext :=
        hItem.bind fun x x' hResult =>
          ih (count + 1) (List.Forall₂.cons hResult hItems)
      by_cases hMany : GrammarFault.maxArguments ≤ count
      · simp only [if_pos hMany]
        exact (mirrors_note tooMany).bind fun _ _ _ => hNext
      · simp only [if_neg hMany]
        exact hNext

theorem mirrors_items
    {item item' : Reader α}
    (hItem : M.reading.Relates A item item')
    (tooMany : GrammarFault) :
    M.reading.Relates (List.Forall₂ A) (items item tooMany)
      (items item' tooMany) := by
  apply mirrors_upcoming.bind
  intro ticks ticks' hTicks
  apply hItem.bind
  intro first first' hFirst
  exact
    mirrors_itemsFrom hItem tooMany hTicks 1 (.cons hFirst .nil)

end Lox.Reader

------------------------------------------------------------
-- Expressions
------------------------------------------------------------

namespace Lox.Grammar

open Reader Coupling

variable {M : Mirror}

/- Two readers of expressions that mirror each other. -/
abbrev MirrorsExpr (M : Mirror) (x x' : Reader Expr) : Prop :=
  M.reading.Relates (Expr.Mirrors M) x x'

section Chains

variable {operand operand' : Reader Expr}
variable {node : Expr → Token → Expr → Expr}
variable
  (hOperand : MirrorsExpr M operand operand')
variable
  (hNode :
    ∀ {left left' right right' : Expr} {op op' : Token},
      left.Mirrors M left' → M.rel op op' →
        right.Mirrors M right' →
          (node left op right).Mirrors M (node left' op' right'))

include hOperand hNode in
theorem mirrors_leftChainFrom
    (isOperator : Kind → Bool)
    {ticks ticks' : List Token}
    (hTicks : List.Forall₂ M.rel ticks ticks')
    {left left' : Expr}
    (hLeft : left.Mirrors M left') :
    MirrorsExpr M
      (leftChainFrom operand isOperator node ticks left)
      (leftChainFrom operand' isOperator node ticks' left') := by
  induction hTicks generalizing left left' with
  | nil => exact relates_pure hLeft
  | cons _ _ ih =>
      apply (mirrors_accept isOperator).bind
      intro found found' hFound
      cases hFound with
      | none => exact relates_pure hLeft
      | some hOp =>
          apply hOperand.bind
          intro right right' hRight
          exact ih (hNode hLeft hOp hRight)

include hOperand hNode in
theorem mirrors_leftChain (isOperator : Kind → Bool) :
    MirrorsExpr M (leftChain operand isOperator node)
      (leftChain operand' isOperator node) := by
  apply mirrors_upcoming.bind
  intro ticks ticks' hTicks
  apply hOperand.bind
  intro left left' hLeft
  exact mirrors_leftChainFrom hOperand hNode isOperator hTicks hLeft

end Chains

theorem mirrors_disjunction
    {unary unary' : Reader Expr}
    (hUnary : MirrorsExpr M unary unary') :
    MirrorsExpr M (disjunction unary) (disjunction unary') := by
  have hProduct := mirrors_leftChain hUnary .binary Kind.isProduct
  have hSum := mirrors_leftChain hProduct .binary Kind.isSum
  have hComparison :=
    mirrors_leftChain hSum .binary Kind.isComparison
  have hEquality :=
    mirrors_leftChain hComparison .binary Kind.isEquality
  have hConjunction :=
    mirrors_leftChain hEquality .logical (· = .andKw)
  exact mirrors_leftChain hConjunction .logical (· = .orKw)

theorem mirrors_atom
    {t t' : Token}
    (hToken : M.rel t t') :
    (atom t).Mirrors M (atom t') := by
  have hWord := M.sameWord hToken
  unfold atom
  rw [hWord.kind, hWord.literal]
  cases t.kind
  case identifier => exact .name hToken
  all_goals exact .literal _

section Calls

variable {expression expression' : Reader Expr}
variable (hExpression : MirrorsExpr M expression expression')

include hExpression

theorem mirrors_primary :
    MirrorsExpr M (primary expression) (primary expression') := by
  apply (mirrors_accept isAtom).bind
  intro found found' hFound
  cases hFound with
  | some hToken => exact relates_pure (mirrors_atom hToken)
  | none =>
      apply (mirrors_accepts .leftParen).bind
      intro opened opened' hOpened
      rw [hOpened]
      refine Relates.ite Iff.rfl ?_ (mirrors_fail _)
      apply hExpression.bind
      intro inner inner' hInner
      exact mirrors_expectThen (relates_pure (.grouping hInner)) _ _

theorem mirrors_arguments :
    M.reading.Relates
      (fun result result' =>
        List.Forall₂ (Expr.Mirrors M) result.1 result'.1 ∧
          M.rel result.2 result'.2)
      (arguments expression) (arguments expression') := by
  have hItems := mirrors_items hExpression .tooManyArguments
  apply (mirrors_unlessNext hItems .nil .rightParen).bind
  intro args args' hArgs
  apply (mirrors_expect .rightParen .expectArgumentsEnd).bind
  intro paren paren' hParen
  exact relates_pure ⟨hArgs, hParen⟩

theorem mirrors_callsFrom
    {ticks ticks' : List Token}
    (hTicks : List.Forall₂ M.rel ticks ticks')
    {callee callee' : Expr}
    (hCallee : callee.Mirrors M callee') :
    MirrorsExpr M (callsFrom expression ticks callee)
      (callsFrom expression' ticks' callee') := by
  induction hTicks generalizing callee callee' with
  | nil => exact relates_pure hCallee
  | cons _ _ ih =>
      apply (mirrors_accepts .leftParen).bind
      intro opened opened' hOpened
      rw [hOpened]
      refine Relates.ite Iff.rfl ?_ (relates_pure hCallee)
      apply (mirrors_arguments hExpression).bind
      intro result result' hResult
      exact ih (.call hCallee hResult.2 hResult.1)

theorem mirrors_calls :
    MirrorsExpr M (calls expression) (calls expression') := by
  apply mirrors_upcoming.bind
  intro ticks ticks' hTicks
  apply (mirrors_primary hExpression).bind
  intro callee callee' hCallee
  exact mirrors_callsFrom hExpression hTicks hCallee

end Calls

/- What an assignment is read into, given its target. -/
theorem mirrors_target
    {target target' value value' : Expr}
    {equals equals' : Token}
    (hEquals : M.rel equals equals')
    (hValue : value.Mirrors M value')
    (signPlace : Nat) :
    target.Mirrors M target' → MirrorsExpr M
      (match target with
        | .variable name _ => return .assign name value none
        | _ => do
          noteAt .invalidTarget equals signPlace
          return target)
      (match target' with
        | .variable name _ => return .assign name value' none
        | _ => do
          noteAt .invalidTarget equals' signPlace
          return target') := by
  intro hTarget
  have hNoted :
      MirrorsExpr M
        (noteAt .invalidTarget equals signPlace >>= fun _ =>
          pure target)
        (noteAt .invalidTarget equals' signPlace >>= fun _ =>
          pure target') := by
    apply (mirrors_noteAt hEquals _ _).bind
    intro _ _ _
    exact relates_pure hTarget
  cases hTarget with
  | name hName => exact relates_pure (.assign hName hValue)
  | _ => exact hNoted

section Signs

variable {value value' operand operand' : Reader Expr}
variable (hOperand : MirrorsExpr M operand operand')

include hOperand in
theorem mirrors_assignments
    (hValue : MirrorsExpr M value value') :
    MirrorsExpr M
      (do
        let target ← disjunction operand
        let signPlace ← place
        match ← accept (· = .equal) with
        | none => return target
        | some equals =>
            let value ← value
            match target with
            | .variable name _ => return .assign name value none
            | _ =>
                noteAt .invalidTarget equals signPlace
                return target)
      (do
        let target ← disjunction operand'
        let signPlace ← place
        match ← accept (· = .equal) with
        | none => return target
        | some equals =>
            let value ← value'
            match target with
            | .variable name _ => return .assign name value none
            | _ =>
                noteAt .invalidTarget equals signPlace
                return target) := by
  apply (mirrors_disjunction hOperand).bind
  intro target target' hTarget
  apply mirrors_place.bind
  intro signPlace signPlace' hPlace
  rw [← hPlace]
  apply (mirrors_accept _).bind
  intro found found' hFound
  cases hFound with
  | none => exact relates_pure hTarget
  | some hEquals =>
      apply hValue.bind
      intro value value' hResult
      exact mirrors_target hEquals hResult signPlace hTarget

include hOperand in
theorem mirrors_signs
    {expression expression' : Reader Expr}
    (hExpression : MirrorsExpr M expression expression') :
    MirrorsExpr M
      (do
        match ← accept Kind.isSign with
        | some op => return .unary op (← operand)
        | none => calls expression)
      (do
        match ← accept Kind.isSign with
        | some op => return .unary op (← operand')
        | none => calls expression') := by
  apply (mirrors_accept Kind.isSign).bind
  intro found found' hFound
  cases hFound with
  | none => exact mirrors_calls hExpression
  | some hOp =>
      apply hOperand.bind
      intro operand operand' hResult
      exact relates_pure (.unary hOp hResult)

end Signs

/- By induction on the nesting that is allowed. -/
theorem mirrors_nested (nesting : Nat) :
    MirrorsExpr M (expression nesting) (expression nesting) ∧
      MirrorsExpr M (assignment nesting) (assignment nesting) ∧
      MirrorsExpr M (unary nesting) (unary nesting) := by
  induction nesting using Nat.strongRecOn with
  | ind nesting ih =>
      refine ⟨?_, ?_, ?_⟩
      · unfold expression
        split
        · rename_i nesting
          exact (ih nesting (by omega)).2.1
        · exact mirrors_tooDeep
      · cases nesting with
        | zero =>
            rw [assignment]
            exact mirrors_tooDeep
        | succ nesting =>
            have hInner := ih nesting (Nat.lt_succ_self nesting)
            exact mirrors_assignments hInner.2.2 hInner.2.1
      · cases nesting with
        | zero =>
            rw [unary]
            exact mirrors_tooDeep
        | succ nesting =>
            have hInner := ih nesting (Nat.lt_succ_self nesting)
            exact mirrors_signs hInner.2.2 hInner.1

end Lox.Grammar

------------------------------------------------------------
-- Statements
------------------------------------------------------------

namespace Lox.Grammar

open Reader Coupling

variable {M : Mirror}

/- Two readers of statements that mirror each other. -/
abbrev MirrorsStmt (M : Mirror) (x x' : Reader Stmt) : Prop :=
  M.reading.Relates (Stmt.Mirrors M) x x'

section Rests

variable {expression expression' : Reader Expr}
variable {statement statement' : Reader Stmt}
variable (hExpression : MirrorsExpr M expression expression')
variable (hStatement : MirrorsStmt M statement statement')

include hExpression

theorem mirrors_expressionStatement :
    MirrorsStmt M (expressionStatement expression)
      (expressionStatement expression') := by
  apply hExpression.bind
  intro value value' hValue
  exact mirrors_expectThen (relates_pure (.expression hValue)) _ _

theorem mirrors_printRest :
    MirrorsStmt M (printRest expression)
      (printRest expression') := by
  apply hExpression.bind
  intro value value' hValue
  exact mirrors_expectThen (relates_pure (.print hValue)) _ _

theorem mirrors_optional (kind : Kind) :
    M.reading.Relates (Option.Rel (Expr.Mirrors M))
      (unlessNext kind none (some <$> expression))
      (unlessNext kind none (some <$> expression')) :=
  mirrors_unlessNext
    (hExpression.map fun _ _ hValue => .some hValue) .none kind

theorem mirrors_returnRest
    {keyword keyword' : Token}
    (hKeyword : M.rel keyword keyword') :
    MirrorsStmt M (returnRest expression keyword)
      (returnRest expression' keyword') := by
  apply (mirrors_optional hExpression .semicolon).bind
  intro value value' hValue
  exact
    mirrors_expectThen (relates_pure (.ret hKeyword hValue)) _ _

theorem mirrors_variableRest :
    MirrorsStmt M (variableRest expression)
      (variableRest expression') := by
  apply (mirrors_expect .identifier .expectVariableName).bind
  intro name name' hName
  apply (mirrors_optionalAfter hExpression .equal).bind
  intro initializer initializer' hInitializer
  exact
    mirrors_expectThen (relates_pure (.var hName hInitializer)) _ _

include hStatement in
theorem mirrors_ifRest :
    MirrorsStmt M (ifRest expression statement)
      (ifRest expression' statement') := by
  apply mirrors_expectThen
  apply hExpression.bind
  intro condition condition' hCondition
  apply mirrors_expectThen
  apply hStatement.bind
  intro thenBranch thenBranch' hThen
  apply (mirrors_optionalAfter hStatement .elseKw).bind
  intro found found' hFound
  cases hFound with
  | none => exact relates_pure (.ifThen hCondition hThen)
  | some hElse =>
      exact relates_pure (.ifElse hCondition hThen hElse)

include hStatement in
theorem mirrors_whileRest :
    MirrorsStmt M (whileRest expression statement)
      (whileRest expression' statement') := by
  apply mirrors_expectThen
  apply hExpression.bind
  intro condition condition' hCondition
  apply mirrors_expectThen
  apply hStatement.bind
  intro body body' hBody
  exact relates_pure (.loop hCondition hBody)

theorem mirrors_forInitializer :
    M.reading.Relates (Option.Rel (Stmt.Mirrors M))
      (forInitializer expression)
      (forInitializer expression') := by
  apply (mirrors_accepts .semicolon).bind
  intro empty empty' hEmpty
  rw [hEmpty]
  refine Relates.ite Iff.rfl (relates_pure .none) ?_
  apply (mirrors_accepts .varKw).bind
  intro declares declares' hDeclares
  rw [hDeclares]
  refine Relates.ite Iff.rfl ?_ ?_
  · exact
      (mirrors_variableRest hExpression).map
        fun _ _ hStmt => .some hStmt
  · exact
      (mirrors_expressionStatement hExpression).map
        fun _ _ hStmt => .some hStmt

omit hExpression in
theorem mirrors_forLoop
    {initializer initializer' : Option Stmt}
    {condition condition' : Expr}
    {increment increment' : Option Expr}
    {body body' : Stmt}
    (hInitializer :
      Option.Rel (Stmt.Mirrors M) initializer initializer')
    (hCondition : condition.Mirrors M condition')
    (hIncrement :
      Option.Rel (Expr.Mirrors M) increment increment')
    (hBody : body.Mirrors M body') :
    (forLoop initializer condition increment body).Mirrors M
      (forLoop initializer' condition' increment' body') := by
  have hRound :
      List.Forall₂ (Stmt.Mirrors M)
        (body :: (increment.map Stmt.expression).toList)
        (body' :: (increment'.map Stmt.expression).toList) := by
    cases hIncrement with
    | none => exact .cons hBody .nil
    | some hValue =>
        exact .cons hBody (.cons (.expression hValue) .nil)
  have hLoop := Stmt.Mirrors.loop hCondition (.block hRound)
  apply Stmt.Mirrors.block
  cases hInitializer with
  | none => exact .cons hLoop .nil
  | some hFirst => exact .cons hFirst (.cons hLoop .nil)

include hStatement in
theorem mirrors_forRest :
    MirrorsStmt M (forRest expression statement)
      (forRest expression' statement') := by
  apply mirrors_expectThen
  apply (mirrors_forInitializer hExpression).bind
  intro initializer initializer' hInitializer
  apply
    (mirrors_unlessNext hExpression (.literal _) .semicolon).bind
  intro condition condition' hCondition
  apply mirrors_expectThen
  apply (mirrors_optional hExpression .rightParen).bind
  intro increment increment' hIncrement
  apply mirrors_expectThen
  apply hStatement.bind
  intro body body' hBody
  exact
    relates_pure
      (mirrors_forLoop hInitializer hCondition hIncrement hBody)

end Rests

section Bodies

variable {declaration declaration' : Reader (Option Stmt)}
variable
  (hDeclaration :
    M.reading.Relates (Option.Rel (Stmt.Mirrors M)) declaration
      declaration')

include hDeclaration

theorem mirrors_declarationsFrom
    {ticks ticks' : List Token}
    (hTicks : List.Forall₂ M.rel ticks ticks')
    {body body' : List Stmt}
    (hBody : List.Forall₂ (Stmt.Mirrors M) body body') :
    M.reading.Relates (List.Forall₂ (Stmt.Mirrors M))
      (declarationsFrom declaration ticks body)
      (declarationsFrom declaration' ticks' body') := by
  induction hTicks generalizing body body' with
  | nil => exact relates_pure (List.rel_reverse hBody)
  | cons _ _ ih =>
      apply (mirrors_nextIs .rightBrace).bind
      intro closed closed' hClosed
      rw [hClosed]
      apply mirrors_atEnd.bind
      intro ended ended' hEnded
      rw [hEnded]
      refine
        Relates.ite Iff.rfl
          (relates_pure (List.rel_reverse hBody)) ?_
      apply hDeclaration.bind
      intro found found' hFound
      cases hFound with
      | none => exact ih hBody
      | some hStmt => exact ih (.cons hStmt hBody)

theorem mirrors_blockRest :
    M.reading.Relates (List.Forall₂ (Stmt.Mirrors M))
      (blockRest declaration) (blockRest declaration') := by
  apply mirrors_upcoming.bind
  intro ticks ticks' hTicks
  apply (mirrors_declarationsFrom hDeclaration hTicks .nil).bind
  intro body body' hBody
  exact mirrors_expectThen (relates_pure hBody) _ _

theorem mirrors_functionRest :
    MirrorsStmt M (functionRest declaration)
      (functionRest declaration') := by
  apply (mirrors_expect .identifier .expectFunctionName).bind
  intro name name' hName
  apply mirrors_expectThen
  have hItems :=
    mirrors_items
      (mirrors_expect (M := M) .identifier .expectParameterName)
      .tooManyParameters
  apply (mirrors_unlessNext hItems .nil .rightParen).bind
  intro params params' hParams
  apply mirrors_expectThen
  apply mirrors_expectThen
  apply (mirrors_blockRest hDeclaration).bind
  intro body body' hBody
  exact relates_pure (.function hName hParams hBody)

end Bodies

/- By induction on the nesting that is allowed. -/
theorem mirrors_statements (nesting : Nat) :
    M.reading.Relates (Option.Rel (Stmt.Mirrors M))
        (declaration nesting) (declaration nesting) ∧
      MirrorsStmt M (statement nesting) (statement nesting) := by
  induction nesting with
  | zero =>
      rw [declaration, statement]
      exact ⟨mirrors_tooDeep, mirrors_tooDeep⟩
  | succ nesting ih =>
      rcases ih with ⟨hDeclaration, hStatement⟩
      have hExpression := (mirrors_nested (M := M) nesting).1
      constructor
      · rw [declaration]
        apply mirrors_recovering
        apply (mirrors_accept opensDeclaration).bind
        intro found found' hFound
        cases hFound with
        | none => exact hStatement
        | some hToken =>
            have hKind := (M.sameWord hToken).kind
            refine Relates.ite (by rw [hKind]) ?_ ?_
            · exact mirrors_functionRest hDeclaration
            · exact mirrors_variableRest hExpression
      · rw [statement]
        apply (mirrors_accept opensStatement).bind
        intro found found' hFound
        cases hFound with
        | none => exact mirrors_expressionStatement hExpression
        | @some t t' hToken =>
            have hKind := (M.sameWord hToken).kind
            simp only [hKind]
            split
            · exact mirrors_forRest hExpression hStatement
            · exact mirrors_ifRest hExpression hStatement
            · exact mirrors_printRest hExpression
            · exact mirrors_returnRest hExpression hToken
            · exact mirrors_whileRest hExpression hStatement
            · exact
                (mirrors_blockRest hDeclaration).map
                  fun _ _ hBody => .block hBody

end Lox.Grammar

------------------------------------------------------------
-- Programs
------------------------------------------------------------

namespace Lox

/- Programs that mirror each other, with the same errors. -/
structure Parsed.Mirrors (M : Mirror) (p p' : Parsed) : Prop where
  program :
    List.Forall₂ (Stmt.Mirrors M) p.program p'.program
  errors :
    List.Forall₂ (ParseError.Mirrors M) p.errors p'.errors

open Coupling

variable {M : Mirror}

theorem Grammar.mirrors_programFrom
    {declaration : Reader (Option Stmt)}
    (hDeclaration :
      M.reading.Relates (Option.Rel (Stmt.Mirrors M)) declaration
        declaration)
    {ticks ticks' : List Token}
    (hTicks : List.Forall₂ M.rel ticks ticks')
    {program program' : List Stmt}
    (hProgram : List.Forall₂ (Stmt.Mirrors M) program program')
    {c c' : Cursor}
    (hCursors : c.Mirrors M c') :
    (programFrom declaration ticks program c).Mirrors M
      (programFrom declaration ticks' program' c') := by
  induction hTicks generalizing program program' c c' with
  | nil => exact ⟨List.rel_reverse hProgram, hCursors.errors⟩
  | cons _ _ ih =>
      unfold programFrom
      rw [hCursors.atEnd]
      by_cases hEnd : c.atEnd = true
      · rw [if_pos hEnd, if_pos hEnd]
        exact ⟨List.rel_reverse hProgram, hCursors.errors⟩
      · rw [if_neg hEnd, if_neg hEnd]
        have hEnds := hDeclaration c c' hCursors
        unfold Coupling.Ends at hEnds
        generalize declaration c = result at hEnds ⊢
        generalize declaration c' = result' at hEnds ⊢
        split at hEnds
        · rcases hEnds with ⟨hFound, hLast⟩
          cases hFound with
          | none => exact ih hProgram hLast
          | some hStmt => exact ih (.cons hStmt hProgram) hLast
        · rename_i halt d halt' d'
          rcases hEnds with ⟨hHalt, hLast⟩
          have hSame : halt = halt' := hHalt
          have hLast : d.Mirrors M d' := hLast
          subst hSame
          cases halt with
          | failed => exact ih hProgram hLast
          | tooDeep =>
              exact
                ih hProgram (hLast.recordHere _).synchronize
        · exact hEnds.elim

/- Lists of the same words have their ends in the same place. -/
theorem Mirror.forall₂_takeWhile
    {tokens tokens' : List Token}
    (hTokens : List.Forall₂ M.rel tokens tokens') :
    List.Forall₂ M.rel (tokens.takeWhile (·.kind ≠ .eof))
      (tokens'.takeWhile (·.kind ≠ .eof)) := by
  induction hTokens with
  | nil => exact .nil
  | @cons t t' tokens tokens' hToken _ ih =>
      have hKind := (M.sameWord hToken).kind
      by_cases hEnd : t.kind = .eof
      · simp [hKind, hEnd]
      · simp only [List.takeWhile_cons, hKind, hEnd, ne_eq,
          not_false_eq_true, decide_true, if_true]
        exact .cons hToken ih

theorem Mirror.exists_find?
    {tokens tokens' : List Token}
    (hTokens : List.Forall₂ M.rel tokens tokens')
    (hEnd : ∃ t ∈ tokens, t.kind = .eof) :
    ∃ last last',
      tokens.find? (·.kind = .eof) = some last ∧
        tokens'.find? (·.kind = .eof) = some last' ∧
        M.rel last last' := by
  induction hTokens with
  | nil =>
      rcases hEnd with ⟨t, hMem, _⟩
      cases hMem
  | @cons t t' tokens tokens' hToken _ ih =>
      have hKind := (M.sameWord hToken).kind
      by_cases hHere : t.kind = .eof
      · refine ⟨t, t', ?_, ?_, hToken⟩
        · simp [hHere]
        · simp [hKind, hHere]
      · have hLater : ∃ u ∈ tokens, u.kind = .eof := by
          rcases hEnd with ⟨u, hMem, hKindU⟩
          rcases List.mem_cons.mp hMem with hSame | hMem
          · rw [hSame] at hKindU
            exact absurd hKindU hHere
          · exact ⟨u, hMem, hKindU⟩
        rcases ih hLater with ⟨last, last', hFind, hFind', hRel⟩
        refine ⟨last, last', ?_, ?_, hRel⟩
        · simpa [hHere] using hFind
        · simpa [hKind, hHere] using hFind'

/- Cursors at the first tokens of lists that have an end. -/
theorem Cursor.mirrors_ofTokens
    {tokens tokens' : List Token}
    (hTokens : List.Forall₂ M.rel tokens tokens')
    (hEnd : ∃ t ∈ tokens, t.kind = .eof) :
    (Cursor.ofTokens tokens).Mirrors M
      (Cursor.ofTokens tokens') := by
  rcases M.exists_find? hTokens hEnd with
    ⟨last, last', hFind, hFind', hRel⟩
  refine ⟨M.forall₂_takeWhile hTokens, ?_, rfl, .nil⟩
  simp only [Cursor.ofTokens, hFind, hFind']
  exact hRel

/- Lists that are the same words, one by one, are read alike. -/
theorem parse_mirrors
    (limits : Limits)
    {tokens tokens' : List Token}
    (hTokens : List.Forall₂ M.rel tokens tokens')
    (hEnd : ∃ t ∈ tokens, t.kind = .eof) :
    (parse limits tokens).Mirrors M (parse limits tokens') := by
  have hCursors := Cursor.mirrors_ofTokens hTokens hEnd
  exact
    Grammar.mirrors_programFrom
      (Grammar.mirrors_statements limits.nesting).1
      hCursors.upcoming .nil hCursors

end Lox
