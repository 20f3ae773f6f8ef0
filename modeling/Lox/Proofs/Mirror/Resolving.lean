import Lox.Proofs.Coupling
import Lox.Proofs.Mirror.Trees
import Lox.Scope.Resolver

/-
  Resolving does not look at the places of tokens.

  Trees that mirror each other resolve in the same way: to
  trees that mirror each other, with the same numbers of
  scopes, or with the same error at corresponding tokens. What
  was resolved before does not matter, and a resolver comes
  back to the depth of scopes it began at.

  Key definitions include:
    * `ScopeError.Mirrors`
    * `Resolver.Mirrors`
    * `Mirror.resolving`
    * `Stmt.mirrors_resolveBody`
    * `resolveProgram_append`
-/

------------------------------------------------------------
-- Resolvers
------------------------------------------------------------

namespace Lox

/- Errors of the same kind at corresponding tokens. -/
structure ScopeError.Mirrors
    (M : Mirror)
    (e e' : ScopeError) :
    Prop where
  fault : e'.fault = e.fault
  token : M.rel e.token e'.token

/-
  Resolvers that have reached the same place, where one of them
  has recorded something earlier. The place has a number of
  scopes around it and is in a function or not.
-/
structure Resolver.Mirrors
    (depth : Nat)
    (kind : FunctionKind)
    (earlier : List Nat)
    (r r' : Resolver) :
    Prop where
  depth : r.scopes.length = depth
  kind : r.enclosing = kind
  scopes : r'.scopes = r.scopes
  enclosing : r'.enclosing = r.enclosing
  recorded :
    r'.recorded.toList = earlier ++ r.recorded.toList

/- Resolvers at the same place, before and after a step. -/
def Mirror.resolving
    (M : Mirror)
    (depth : Nat)
    (kind : FunctionKind)
    (earlier : List Nat) :
    Coupling ScopeError Resolver :=
  { states := Resolver.Mirrors depth kind earlier
    errors := ScopeError.Mirrors M }

end Lox

------------------------------------------------------------
-- Steps Of Resolution
------------------------------------------------------------

namespace Lox.Resolver

open Coupling

variable {M : Mirror} {α : Type} {A : α → α → Prop}
variable {depth : Nat} {kind : FunctionKind} {earlier : List Nat}
variable {r r' : Resolver} {name name' : Token}

theorem Mirrors.enter
    (hMirrors : r.Mirrors depth kind earlier r')
    (name : String)
    (initialized : Bool) :
    (r.enter name initialized).Mirrors depth kind earlier
      (r'.enter name initialized) := by
  unfold Resolver.enter
  rw [hMirrors.scopes]
  have hDepth := hMirrors.depth
  cases hScopes : r.scopes with
  | nil => exact hMirrors
  | cons scope scopes =>
      rw [hScopes] at hDepth
      exact
        ⟨hDepth, hMirrors.kind, rfl, hMirrors.enclosing,
          hMirrors.recorded⟩

theorem mirrors_declare (hName : M.rel name name') :
    (M.resolving depth kind earlier).Relates Eq (declare name)
      (declare name') := by
  intro r r' hMirrors
  unfold declare
  rw [hMirrors.scopes, (M.sameWord hName).lexeme]
  by_cases hTaken : r.scopes.head?.any (·.declares name.lexeme)
  · rw [if_pos hTaken, if_pos hTaken]
    exact ⟨⟨rfl, hName⟩, hMirrors⟩
  · rw [if_neg hTaken, if_neg hTaken]
    exact ⟨rfl, hMirrors.enter name.lexeme false⟩

theorem mirrors_define (hName : M.rel name name') :
    (M.resolving depth kind earlier).Relates Eq (define name)
      (define name') := by
  intro r r' hMirrors
  unfold define
  rw [(M.sameWord hName).lexeme]
  exact ⟨rfl, hMirrors.enter name.lexeme true⟩

theorem mirrors_checkReadable (hName : M.rel name name') :
    (M.resolving depth kind earlier).Relates Eq
      (checkReadable name) (checkReadable name') := by
  intro r r' hMirrors
  unfold checkReadable
  rw [hMirrors.scopes, (M.sameWord hName).lexeme]
  by_cases hPending : r.scopes.head?.any (·.isPending name.lexeme)
  · rw [if_pos hPending, if_pos hPending]
    exact ⟨⟨rfl, hName⟩, hMirrors⟩
  · rw [if_neg hPending, if_neg hPending]
    exact ⟨rfl, hMirrors⟩

theorem mirrors_checkReturn
    {keyword keyword' : Token}
    (hKeyword : M.rel keyword keyword') :
    (M.resolving depth kind earlier).Relates Eq
      (checkReturn keyword) (checkReturn keyword') := by
  intro r r' hMirrors
  unfold checkReturn
  rw [hMirrors.enclosing]
  cases r.enclosing with
  | none => exact ⟨⟨rfl, hKeyword⟩, hMirrors⟩
  | function => exact ⟨rfl, hMirrors⟩

theorem mirrors_locate (hName : M.rel name name') :
    (M.resolving depth kind earlier).Relates Eq (locate name)
      (locate name') := by
  intro r r' hMirrors
  unfold locate
  rw [hMirrors.scopes, (M.sameWord hName).lexeme]
  cases hopsTo? r.scopes name.lexeme with
  | none => exact ⟨rfl, hMirrors⟩
  | some hops =>
      refine
        ⟨rfl, hMirrors.depth, hMirrors.kind, rfl,
          hMirrors.enclosing, ?_⟩
      simp [hMirrors.recorded]

/- A new scope is one more around the place. -/
theorem mirrors_within
    {step step' : Resolution α}
    (hStep :
      (M.resolving (depth + 1) kind earlier).Relates A step
        step') :
    (M.resolving depth kind earlier).Relates A (within step)
      (within step') := by
  intro r r' hMirrors
  have hInner :
      Resolver.Mirrors (depth + 1) kind earlier
        { r with scopes := [] :: r.scopes }
        { r' with scopes := [] :: r'.scopes } :=
    ⟨congrArg Nat.succ hMirrors.depth, hMirrors.kind,
      congrArg (List.cons []) hMirrors.scopes,
      hMirrors.enclosing, hMirrors.recorded⟩
  have hLeave :
      ∀ {u u' : Resolver},
        u.Mirrors (depth + 1) kind earlier u' →
          Resolver.Mirrors depth kind earlier
            { u with scopes := u.scopes.tail }
            { u' with scopes := u'.scopes.tail } := by
    intro u u' hMirrors
    refine
      ⟨?_, hMirrors.kind, congrArg List.tail hMirrors.scopes,
        hMirrors.enclosing, hMirrors.recorded⟩
    simp [hMirrors.depth]
  have hEnds := hStep _ _ hInner
  unfold within
  unfold Coupling.Ends at hEnds
  split at hEnds
  · rename_i hLeft hRight
    rw [hLeft, hRight]
    exact ⟨hEnds.1, hLeave hEnds.2⟩
  · rename_i hLeft hRight
    rw [hLeft, hRight]
    exact ⟨hEnds.1, hLeave hEnds.2⟩
  · exact hEnds.elim

theorem mirrors_withinFunction
    {step step' : Resolution α}
    (hStep :
      (M.resolving depth .function earlier).Relates A step
        step') :
    (M.resolving depth kind earlier).Relates A
      (withinFunction step) (withinFunction step') := by
  intro r r' hMirrors
  have hInner :
      Resolver.Mirrors depth .function earlier
        { r with enclosing := .function }
        { r' with enclosing := .function } :=
    ⟨hMirrors.depth, rfl, hMirrors.scopes, rfl,
      hMirrors.recorded⟩
  have hLeave :
      ∀ {u u' : Resolver},
        u.Mirrors depth .function earlier u' →
          Resolver.Mirrors depth kind earlier
            { u with enclosing := r.enclosing }
            { u' with enclosing := r'.enclosing } := by
    intro u u' hInside
    exact
      ⟨hInside.depth, hMirrors.kind, hInside.scopes,
        hMirrors.enclosing, hInside.recorded⟩
  have hEnds := hStep _ _ hInner
  unfold withinFunction
  unfold Coupling.Ends at hEnds
  split at hEnds
  · rename_i hLeft hRight
    simp only [hLeft, hRight]
    exact ⟨hEnds.1, hLeave hEnds.2⟩
  · rename_i hLeft hRight
    simp only [hLeft, hRight]
    exact ⟨hEnds.1, hLeave hEnds.2⟩
  · exact hEnds.elim

theorem mirrors_declareParams
    {params params' : List Token}
    (hParams : List.Forall₂ M.rel params params') :
    (M.resolving depth kind earlier).Relates Eq
      (declareParams params) (declareParams params') := by
  induction hParams with
  | nil => exact relates_pure rfl
  | cons hParam _ ih =>
      apply (mirrors_declare hParam).bind
      intro _ _ _
      apply (mirrors_define hParam).bind
      intro _ _ _
      exact ih

end Lox.Resolver

------------------------------------------------------------
-- Expressions
------------------------------------------------------------

namespace Lox

open Resolver Coupling

variable {M : Mirror}

mutual

theorem Expr.mirrors_resolve
    (e : Expr)
    {e' : Expr}
    (hMirrors : e.Mirrors M e')
    {depth : Nat}
    {kind : FunctionKind}
    {earlier : List Nat} :
    (M.resolving depth kind earlier).Relates (Expr.Mirrors M)
      e.resolve e'.resolve := by
  cases e with
  | literal value =>
      cases hMirrors
      exact relates_pure (.literal value)
  | «variable» name hops =>
      cases hMirrors with
      | name hName =>
          simp only [Expr.resolve]
          apply (mirrors_checkReadable hName).bind
          intro _ _ _
          apply (mirrors_locate hName).bind
          intro found found' hSame
          rw [← hSame]
          exact relates_pure (.name hName)
  | assign name value hops =>
      cases hMirrors with
      | assign hName hValue =>
          simp only [Expr.resolve]
          apply (value.mirrors_resolve hValue).bind
          intro value value' hValue
          apply (mirrors_locate hName).bind
          intro found found' hSame
          rw [← hSame]
          exact relates_pure (.assign hName hValue)
  | binary left op right =>
      cases hMirrors with
      | binary hLeft hOp hRight =>
          simp only [Expr.resolve]
          apply (left.mirrors_resolve hLeft).bind
          intro left left' hLeft
          apply (right.mirrors_resolve hRight).bind
          intro right right' hRight
          exact relates_pure (.binary hLeft hOp hRight)
  | logical left op right =>
      cases hMirrors with
      | logical hLeft hOp hRight =>
          simp only [Expr.resolve]
          apply (left.mirrors_resolve hLeft).bind
          intro left left' hLeft
          apply (right.mirrors_resolve hRight).bind
          intro right right' hRight
          exact relates_pure (.logical hLeft hOp hRight)
  | unary op operand =>
      cases hMirrors with
      | unary hOp hOperand =>
          simp only [Expr.resolve]
          apply (operand.mirrors_resolve hOperand).bind
          intro operand operand' hOperand
          exact relates_pure (.unary hOp hOperand)
  | grouping inner =>
      cases hMirrors with
      | grouping hInner =>
          simp only [Expr.resolve]
          apply (inner.mirrors_resolve hInner).bind
          intro inner inner' hInner
          exact relates_pure (.grouping hInner)
  | call callee paren args =>
      cases hMirrors with
      | call hCallee hParen hArgs =>
          simp only [Expr.resolve]
          apply (callee.mirrors_resolve hCallee).bind
          intro callee callee' hCallee
          apply (Expr.mirrors_resolveArgs args hArgs).bind
          intro args args' hArgs
          exact relates_pure (.call hCallee hParen hArgs)

theorem Expr.mirrors_resolveArgs
    (args : List Expr)
    {args' : List Expr}
    (hMirrors : List.Forall₂ (Expr.Mirrors M) args args')
    {depth : Nat}
    {kind : FunctionKind}
    {earlier : List Nat} :
    (M.resolving depth kind earlier).Relates
      (List.Forall₂ (Expr.Mirrors M)) (Expr.resolveArgs args)
      (Expr.resolveArgs args') := by
  cases args with
  | nil =>
      cases hMirrors
      exact relates_pure .nil
  | cons arg args =>
      cases hMirrors with
      | cons hArg hArgs =>
          simp only [Expr.resolveArgs]
          apply (arg.mirrors_resolve hArg).bind
          intro arg arg' hArg
          apply (Expr.mirrors_resolveArgs args hArgs).bind
          intro args args' hArgs
          exact relates_pure (.cons hArg hArgs)

end

end Lox

------------------------------------------------------------
-- Statements
------------------------------------------------------------

namespace Lox

open Resolver Coupling

variable {M : Mirror}

mutual

theorem Stmt.mirrors_resolve
    (s : Stmt)
    {s' : Stmt}
    (hMirrors : s.Mirrors M s')
    {depth : Nat}
    {kind : FunctionKind}
    {earlier : List Nat} :
    (M.resolving depth kind earlier).Relates (Stmt.Mirrors M)
      s.resolve s'.resolve := by
  cases s with
  | expression value =>
      cases hMirrors with
      | expression hValue =>
          simp only [Stmt.resolve]
          apply (value.mirrors_resolve hValue).bind
          intro value value' hValue
          exact relates_pure (.expression hValue)
  | print value =>
      cases hMirrors with
      | print hValue =>
          simp only [Stmt.resolve]
          apply (value.mirrors_resolve hValue).bind
          intro value value' hValue
          exact relates_pure (.print hValue)
  | var name initializer =>
      cases hMirrors with
      | var hName hInitializer =>
          cases hInitializer with
          | none =>
              simp only [Stmt.resolve]
              apply (mirrors_declare hName).bind
              intro _ _ _
              apply (mirrors_define hName).bind
              intro _ _ _
              exact relates_pure (.var hName .none)
          | @some value value' hValue =>
              simp only [Stmt.resolve]
              apply (mirrors_declare hName).bind
              intro _ _ _
              apply (value.mirrors_resolve hValue).bind
              intro value value' hValue
              apply (mirrors_define hName).bind
              intro _ _ _
              exact relates_pure (.var hName (.some hValue))
  | block body =>
      cases hMirrors with
      | block hBody =>
          simp only [Stmt.resolve]
          apply
            (mirrors_within
              (Stmt.mirrors_resolveBody body hBody)).bind
          intro body body' hBody
          exact relates_pure (.block hBody)
  | ifThen condition thenBranch =>
      cases hMirrors with
      | ifThen hCondition hThen =>
          simp only [Stmt.resolve]
          apply (condition.mirrors_resolve hCondition).bind
          intro condition condition' hCondition
          apply (thenBranch.mirrors_resolve hThen).bind
          intro thenBranch thenBranch' hThen
          exact relates_pure (.ifThen hCondition hThen)
  | ifElse condition thenBranch elseBranch =>
      cases hMirrors with
      | ifElse hCondition hThen hElse =>
          simp only [Stmt.resolve]
          apply (condition.mirrors_resolve hCondition).bind
          intro condition condition' hCondition
          apply (thenBranch.mirrors_resolve hThen).bind
          intro thenBranch thenBranch' hThen
          apply (elseBranch.mirrors_resolve hElse).bind
          intro elseBranch elseBranch' hElse
          exact relates_pure (.ifElse hCondition hThen hElse)
  | loop condition body =>
      cases hMirrors with
      | loop hCondition hBody =>
          simp only [Stmt.resolve]
          apply (condition.mirrors_resolve hCondition).bind
          intro condition condition' hCondition
          apply (body.mirrors_resolve hBody).bind
          intro body body' hBody
          exact relates_pure (.loop hCondition hBody)
  | function name params body =>
      cases hMirrors with
      | function hName hParams hBody =>
          simp only [Stmt.resolve]
          apply (mirrors_declare hName).bind
          intro _ _ _
          apply (mirrors_define hName).bind
          intro _ _ _
          apply
            (mirrors_withinFunction
              (mirrors_within
                ((mirrors_declareParams hParams).bind fun _ _ _ =>
                  mirrors_within
                    (Stmt.mirrors_resolveBody body hBody)))).bind
          intro body body' hBody
          exact relates_pure (.function hName hParams hBody)
  | ret keyword value =>
      cases hMirrors with
      | ret hKeyword hValue =>
          cases hValue with
          | none =>
              simp only [Stmt.resolve]
              apply (mirrors_checkReturn hKeyword).bind
              intro _ _ _
              exact relates_pure (.ret hKeyword .none)
          | @some value value' hValue =>
              simp only [Stmt.resolve]
              apply (mirrors_checkReturn hKeyword).bind
              intro _ _ _
              apply (value.mirrors_resolve hValue).bind
              intro value value' hValue
              exact relates_pure (.ret hKeyword (.some hValue))

theorem Stmt.mirrors_resolveBody
    (body : List Stmt)
    {body' : List Stmt}
    (hMirrors : List.Forall₂ (Stmt.Mirrors M) body body')
    {depth : Nat}
    {kind : FunctionKind}
    {earlier : List Nat} :
    (M.resolving depth kind earlier).Relates
      (List.Forall₂ (Stmt.Mirrors M)) (Stmt.resolveBody body)
      (Stmt.resolveBody body') := by
  cases body with
  | nil =>
      cases hMirrors
      exact relates_pure .nil
  | cons stmt body =>
      cases hMirrors with
      | cons hStmt hBody =>
          simp only [Stmt.resolveBody]
          apply (stmt.mirrors_resolve hStmt).bind
          intro stmt stmt' hStmt
          apply (Stmt.mirrors_resolveBody body hBody).bind
          intro body body' hBody
          exact relates_pure (.cons hStmt hBody)

end

end Lox

------------------------------------------------------------
-- Programs
------------------------------------------------------------

namespace Lox

open Coupling

variable {M : Mirror}

/- Statements are resolved one after another. -/
theorem Stmt.resolveBody_append
    (first second : List Stmt) :
    Stmt.resolveBody (first ++ second) = do
      let first ← Stmt.resolveBody first
      let second ← Stmt.resolveBody second
      return first ++ second := by
  induction first with
  | nil => simp [Stmt.resolveBody]
  | cons stmt first ih =>
      simp only [List.cons_append, Stmt.resolveBody, ih,
        bind_assoc, pure_bind]

/-
  What a program is resolved to, or the error in it, where its
  words stand elsewhere.
-/
def ResolutionMirrors (M : Mirror) :
    Except ScopeError Resolved → Except ScopeError Resolved → Prop
  | .ok found, .ok found' =>
      List.Forall₂ (Stmt.Mirrors M) found.program found'.program ∧
        found'.recorded = found.recorded
  | .error e, .error e' => e.Mirrors M e'
  | _, _ => False

theorem resolveProgram_mirrors
    {program program' : List Stmt}
    (hProgram : List.Forall₂ (Stmt.Mirrors M) program program') :
    ResolutionMirrors M (resolveProgram program)
      (resolveProgram program') := by
  have hStart : Resolver.Mirrors 0 .none [] {} {} :=
    ⟨rfl, rfl, rfl, rfl, rfl⟩
  have hEnds :=
    Stmt.mirrors_resolveBody program hProgram _ _ hStart
  unfold resolveProgram
  cases hRun : Stmt.resolveBody program {} <;>
    cases hRun' : Stmt.resolveBody program' {} <;>
    rw [hRun, hRun'] at hEnds
  · rcases hEnds with ⟨hFound, hReached⟩
    refine ⟨hFound, ?_⟩
    simpa using congrArg List.length hReached.recorded
  · exact hEnds.elim
  · exact hEnds.elim
  · exact hEnds.1

/-
  Two programs that resolve resolve one after the other as
  well, where the words of both may stand elsewhere.
-/
theorem resolveProgram_append
    {first first' second second' : List Stmt}
    {resolved others : Resolved}
    (hFirst : List.Forall₂ (Stmt.Mirrors M) first first')
    (hSecond : List.Forall₂ (Stmt.Mirrors M) second second')
    (hResolved : resolveProgram first = .ok resolved)
    (hOthers : resolveProgram second = .ok others) :
    ∃ program rest,
      resolveProgram (first' ++ second') =
        .ok
          ⟨program ++ rest,
            resolved.recorded + others.recorded⟩ ∧
      List.Forall₂ (Stmt.Mirrors M) resolved.program program ∧
      List.Forall₂ (Stmt.Mirrors M) others.program rest := by
  have hStart : Resolver.Mirrors 0 .none [] {} {} :=
    ⟨rfl, rfl, rfl, rfl, rfl⟩
  rcases exists_run_of_resolveProgram hResolved with
    ⟨r, hRun, hCount⟩
  rcases exists_run_of_resolveProgram hOthers with
    ⟨u, hLast, hCount'⟩
  have hEnds := Stmt.mirrors_resolveBody first hFirst _ _ hStart
  rw [hRun] at hEnds
  rcases hEnds.exists_ok with
    ⟨program, r', hRun', hProgram, hReached⟩
  -- The resolver is back where it began.
  have hAgain : Resolver.Mirrors 0 .none r'.recorded.toList {} r' := by
    have hScopes : r.scopes = [] :=
      List.eq_nil_of_length_eq_zero hReached.depth
    exact
      ⟨rfl, rfl, hReached.scopes.trans hScopes,
        hReached.enclosing.trans hReached.kind,
        (List.append_nil _).symm⟩
  have hEnds' := Stmt.mirrors_resolveBody second hSecond _ _ hAgain
  rw [hLast] at hEnds'
  rcases hEnds'.exists_ok with
    ⟨rest, u', hLast', hRest, hRecorded⟩
  refine ⟨program, rest, ?_, hProgram, hRest⟩
  have hBoth :
      Stmt.resolveBody (first' ++ second') {} =
        .ok (program ++ rest) u' := by
    rw [Stmt.resolveBody_append, bind_of_ok hRun',
      bind_of_ok hLast']
    rfl
  have hSize :
      u'.recorded.size = resolved.recorded + others.recorded := by
    have hBefore := congrArg List.length hReached.recorded
    have hLength := congrArg List.length hRecorded.recorded
    rw [List.nil_append] at hBefore
    rw [List.length_append, hBefore] at hLength
    rw [hCount, hCount']
    simpa using hLength
  unfold resolveProgram
  rw [hBoth]
  simp only [hSize]

end Lox
