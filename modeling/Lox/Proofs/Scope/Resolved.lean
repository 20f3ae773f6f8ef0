import Lox.Proofs.Scope.Noted
import Lox.Proofs.Scope.Placement

/-
  Resolved programs are noted.

  Resolving an expression leaves the scopes as they are, and
  resolving a statement changes the innermost one at most; what
  they give is noted with the scopes they began in. Where
  declarations stand in lists only, the branches of an `if` and
  the body of a loop change no scope at all.

  Key definitions include:
    * `Stmt.Settles`
    * `noted_of_resolveProgram`
    * `exists_noted_of_resolveProgram`
-/

------------------------------------------------------------
-- Expressions
------------------------------------------------------------

namespace Lox

open Resolver Resolution

mutual

/- Resolution of an expression leaves the scopes as they are. -/
theorem Expr.noted_of_resolve
    (e : Expr)
    {r : Resolver}
    (hTail : ScopesSettled r.scopes.tail) :
    e.resolveNoting.Gives r fun result u =>
      result.1.Noted r.scopes result.2 ∧
        u.scopes = r.scopes := by
  cases e with
  | literal value =>
      rw [Expr.resolveNoting]
      apply Gives.noting
      exact gives_pure ⟨.literal, rfl⟩
  | «variable» name hops =>
      rw [Expr.resolveNoting]
      apply Gives.noting
      apply (gives_checkReadable name).bind
      rintro _ u ⟨rfl, hReadable⟩
      apply (gives_locate name).bind
      rintro found u' ⟨rfl, hSame⟩
      have hHops := leadsToValue_hopsTo? hTail hReadable
      exact gives_pure ⟨.name hHops, hSame⟩
  | assign name value hops =>
      rw [Expr.resolveNoting]
      apply Gives.noting
      apply (value.noted_of_resolve hTail).bind
      rintro ⟨value', notes⟩ u ⟨hValue, hScopes⟩
      apply (gives_locate name).bind
      rintro found u' ⟨rfl, hSame⟩
      rw [hScopes] at hSame ⊢
      have hHops := leadsToScope_hopsTo? r.scopes name.lexeme
      exact gives_pure ⟨.assign hValue hHops, hSame⟩
  | binary left op right =>
      rw [Expr.resolveNoting]
      apply Gives.noting
      apply (left.noted_of_resolve hTail).bind
      rintro ⟨left', lefts⟩ u ⟨hLeft, hScopes⟩
      apply (right.noted_of_resolve (hScopes ▸ hTail)).bind
      rintro ⟨right', rights⟩ u' ⟨hRight, hSame⟩
      rw [hScopes] at hRight hSame
      exact gives_pure ⟨.binary hLeft hRight, hSame⟩
  | logical left op right =>
      rw [Expr.resolveNoting]
      apply Gives.noting
      apply (left.noted_of_resolve hTail).bind
      rintro ⟨left', lefts⟩ u ⟨hLeft, hScopes⟩
      apply (right.noted_of_resolve (hScopes ▸ hTail)).bind
      rintro ⟨right', rights⟩ u' ⟨hRight, hSame⟩
      rw [hScopes] at hRight hSame
      exact gives_pure ⟨.logical hLeft hRight, hSame⟩
  | unary op operand =>
      rw [Expr.resolveNoting]
      apply Gives.noting
      apply (operand.noted_of_resolve hTail).bind
      rintro ⟨operand', notes⟩ u ⟨hOperand, hScopes⟩
      exact gives_pure ⟨.unary hOperand, hScopes⟩
  | grouping inner =>
      rw [Expr.resolveNoting]
      apply Gives.noting
      apply (inner.noted_of_resolve hTail).bind
      rintro ⟨inner', notes⟩ u ⟨hInner, hScopes⟩
      exact gives_pure ⟨.grouping hInner, hScopes⟩
  | call callee paren args =>
      rw [Expr.resolveNoting]
      apply Gives.noting
      apply (callee.noted_of_resolve hTail).bind
      rintro ⟨callee', notes⟩ u ⟨hCallee, hScopes⟩
      apply (Expr.notedArgs_of_resolve args (hScopes ▸ hTail)).bind
      rintro ⟨args', others⟩ u' ⟨hArgs, hSame⟩
      rw [hScopes] at hArgs hSame
      exact gives_pure ⟨.call hCallee hArgs, hSame⟩

theorem Expr.notedArgs_of_resolve
    (args : List Expr)
    {r : Resolver}
    (hTail : ScopesSettled r.scopes.tail) :
    (Expr.resolveArgsNoting args).Gives r fun result u =>
      List.Forall₂ (Expr.Noted r.scopes) result.1 result.2 ∧
        u.scopes = r.scopes := by
  cases args with
  | nil => exact gives_pure ⟨.nil, rfl⟩
  | cons arg args =>
      rw [Expr.resolveArgsNoting]
      apply (arg.noted_of_resolve hTail).bind
      rintro ⟨arg', notes⟩ u ⟨hArg, hScopes⟩
      apply (Expr.notedArgs_of_resolve args (hScopes ▸ hTail)).bind
      rintro ⟨args', others⟩ u' ⟨hArgs, hSame⟩
      rw [hScopes] at hArgs hSame
      exact gives_pure ⟨.cons hArg hArgs, hSame⟩

end

end Lox

------------------------------------------------------------
-- Declarations
------------------------------------------------------------

namespace Lox

open Resolver Resolution

/- A name is declared, and is initialized at once. -/
theorem Resolver.scopes_declared
    {r u : Resolver}
    {name : String}
    (hDeclared : u = r.enter name false) :
    (u.enter name true).scopes = declareScope r.scopes name := by
  rw [scopes_enter, hDeclared, scopes_enter]
  rfl

/- The scope of parameters declares nothing else. -/
theorem Resolver.gives_declareParams
    {params : List Token}
    {r : Resolver}
    {scope : Scope}
    {outer : List Scope}
    (hScopes : r.scopes = scope :: outer)
    (hSettled : scope.IsSettled) :
    (declareParams params).Gives r fun _ u =>
      ∃ inner : Scope,
        u.scopes = inner :: outer ∧ inner.IsSettled ∧
        ∀ name, inner.lookup name = some true →
          scope.lookup name = some true ∨
            ∃ token ∈ params, token.lexeme = name := by
  induction params generalizing r scope with
  | nil =>
      apply gives_pure
      exact ⟨scope, hScopes, hSettled, fun name hName => .inl hName⟩
  | cons param params ih =>
      rw [declareParams]
      apply (gives_declare param).bind
      rintro _ u ⟨hDeclared, _⟩
      apply (gives_define param).bind
      rintro _ u' rfl
      have hNext :
          (u.enter param.lexeme true).scopes =
            ((param.lexeme, true) :: (param.lexeme, false) ::
              scope) :: outer := by
        rw [scopes_declared hDeclared, hScopes]
        rfl
      apply (ih hNext (hSettled.declare _)).mono
      rintro _ r' ⟨inner, hInner, hInnerSettled, hNames⟩
      refine ⟨inner, hInner, hInnerSettled, ?_⟩
      intro name hName
      rcases hNames name hName with hOld | ⟨token, hMem, hToken⟩
      · by_cases hSame : name = param.lexeme
        · exact .inr ⟨param, by simp, hSame.symm⟩
        · have hNe : (name == param.lexeme) = false := by
            simpa using hSame
          simp only [List.lookup_cons, hNe] at hOld
          exact .inl hOld
      · exact .inr ⟨token, List.mem_cons_of_mem _ hMem, hToken⟩

/-
  A statement is resolved where all scopes are settled: they
  still are when it has been, only the innermost one has
  changed, and that not by a plain statement.
-/
structure Stmt.Settles
    (s : Stmt)
    (scopes : List Scope)
    (result : Stmt × Notes)
    (u : Resolver) :
    Prop where
  noted : result.1.Noted scopes result.2 u.scopes
  tail : u.scopes.tail = scopes.tail
  settled : ScopesSettled u.scopes
  same : s.IsPlain → u.scopes = scopes

namespace Stmt.Settles

variable {s : Stmt} {scopes : List Scope}
variable {result : Stmt × Notes} {u : Resolver}

/- The scopes have not changed. -/
theorem unchanged
    (hNoted : result.1.Noted scopes result.2 scopes)
    (hSettled : ScopesSettled scopes)
    (hScopes : u.scopes = scopes) :
    s.Settles scopes result u := by
  subst hScopes
  exact ⟨hNoted, rfl, hSettled, fun _ => rfl⟩

/- A name has been declared in the innermost scope. -/
theorem declared
    {name : String}
    (hNoted :
      result.1.Noted scopes result.2 (declareScope scopes name))
    (hSettled : ScopesSettled scopes)
    (hScopes : u.scopes = declareScope scopes name)
    (hNotPlain : ¬ s.IsPlain) :
    s.Settles scopes result u := by
  constructor
  · rw [hScopes]
    exact hNoted
  · rw [hScopes]
    exact tail_declareScope scopes name
  · rw [hScopes]
    exact hSettled.declare name
  · intro hPlain
    exact absurd hPlain hNotPlain

/- A branch or a loop body is plain, and changes no scope. -/
theorem ofPlain
    {outer : List Scope}
    (hSettles : s.Settles scopes result u)
    (hPlain : s.IsPlain)
    (hScopes : scopes = outer) :
    result.1.Noted outer result.2 outer ∧ u.scopes = outer := by
  subst hScopes
  have hSame := hSettles.same hPlain
  have hNoted := hSettles.noted
  rw [hSame] at hNoted
  exact ⟨hNoted, hSame⟩

end Stmt.Settles

/-
  Statements one after another change the innermost scope only,
  wherever all scopes are settled.
-/
def Stmt.BodySettles (body : List Stmt) : Prop :=
  ∀ r : Resolver, ScopesSettled r.scopes →
    (Stmt.resolveBodyNoting body).Gives r fun result u =>
      Stmt.BodyNoted r.scopes result.1 result.2 ∧
        u.scopes.tail = r.scopes.tail

namespace Stmt.BodySettles

variable {body : List Stmt} {r : Resolver}

/- A block is resolved in a scope of its own. -/
theorem gives_block
    (hBody : BodySettles body)
    (hSettled : ScopesSettled r.scopes) :
    (within (Stmt.resolveBodyNoting body)).Gives r
      fun result u =>
        Stmt.BodyNoted ([] :: r.scopes) result.1 result.2 ∧
          u.scopes = r.scopes := by
  apply Gives.within
  exact hBody { r with scopes := [] :: r.scopes } hSettled.inner

/- So is the body of a function, within that of its names. -/
theorem gives_function
    (hBody : BodySettles body)
    (hSettled : ScopesSettled r.scopes)
    (params : List Token) :
    (withinFunction (within do
      declareParams params
      within (Stmt.resolveBodyNoting body))).Gives r
        fun result u =>
          (∃ scope : Scope,
            (∀ param, scope.lookup param = some true →
              ∃ token ∈ params, token.lexeme = param) ∧
            Stmt.BodyNoted ([] :: scope :: r.scopes) result.1
              result.2) ∧
          u.scopes = r.scopes := by
  apply Gives.withinFunction
  apply Gives.within
  apply (gives_declareParams rfl Scope.isSettled_nil).bind
  rintro _ u ⟨scope, hScopes, hScopeSettled, hNames⟩
  have hInside : ScopesSettled u.scopes := by
    rw [hScopes]
    intro other hMem
    rcases List.mem_cons.mp hMem with rfl | hMem
    · exact hScopeSettled
    · exact hSettled other hMem
  apply (hBody.gives_block hInside).mono
  rintro result v ⟨hNoted, hSame⟩
  rw [hScopes] at hNoted hSame
  refine ⟨⟨scope, ?_, hNoted⟩, congrArg List.tail hSame⟩
  intro param hParam
  rcases hNames param hParam with hNil | hToken
  · cases hNil
  · exact hToken

end Stmt.BodySettles

end Lox

------------------------------------------------------------
-- Statements
------------------------------------------------------------

namespace Lox

open Resolver Resolution

mutual

theorem Stmt.settles_of_resolve
    (s : Stmt)
    {r : Resolver}
    (hPlaced : s.Placed)
    (hSettled : ScopesSettled r.scopes) :
    s.resolveNoting.Gives r (s.Settles r.scopes) := by
  cases s with
  | expression value =>
      rw [Stmt.resolveNoting]
      apply Gives.noting
      apply (value.noted_of_resolve hSettled.tail).bind
      rintro ⟨value', notes⟩ u ⟨hValue, hScopes⟩
      apply gives_pure
      exact .unchanged (.expression hValue) hSettled hScopes
  | print value =>
      rw [Stmt.resolveNoting]
      apply Gives.noting
      apply (value.noted_of_resolve hSettled.tail).bind
      rintro ⟨value', notes⟩ u ⟨hValue, hScopes⟩
      apply gives_pure
      exact .unchanged (.print hValue) hSettled hScopes
  | var name initializer =>
      cases initializer with
      | none =>
          rw [Stmt.resolveNoting]
          apply Gives.noting
          apply (gives_declare name).bind
          rintro _ u ⟨hDeclared, hNew⟩
          apply (gives_define name).bind
          rintro _ u' rfl
          have hScopes := scopes_declared hDeclared
          apply gives_pure
          exact .declared (.plain hNew) hSettled hScopes id
      | some value =>
          rw [Stmt.resolveNoting]
          apply Gives.noting
          apply (gives_declare name).bind
          rintro _ u ⟨hDeclared, hNew⟩
          have hPending :
              u.scopes = enterScope r.scopes name.lexeme false := by
            rw [hDeclared, scopes_enter]
          have hTail : ScopesSettled u.scopes.tail := by
            rw [hPending, tail_enterScope]
            exact hSettled.tail
          apply (value.noted_of_resolve hTail).bind
          rintro ⟨value', notes⟩ u' ⟨hValue, hSame⟩
          apply (gives_define name).bind
          rintro _ u'' rfl
          have hScopes :
              (u'.enter name.lexeme true).scopes =
                declareScope r.scopes name.lexeme := by
            rw [scopes_enter, hSame, hPending]
            rfl
          rw [hPending] at hValue
          apply gives_pure
          exact
            .declared (.initialized hNew hValue) hSettled hScopes
              id
  | block body =>
      rw [Stmt.resolveNoting]
      apply Gives.noting
      have hBody := Stmt.bodySettles_of_resolve body hPlaced
      apply (hBody.gives_block hSettled).bind
      rintro ⟨body', notes⟩ u ⟨hNoted, hScopes⟩
      apply gives_pure
      exact .unchanged (.block hNoted) hSettled hScopes
  | ifThen condition thenBranch =>
      rw [Stmt.resolveNoting]
      apply Gives.noting
      apply (condition.noted_of_resolve hSettled.tail).bind
      rintro ⟨condition', notes⟩ u ⟨hCondition, hScopes⟩
      have hNext : ScopesSettled u.scopes := hScopes ▸ hSettled
      apply
        (thenBranch.settles_of_resolve hPlaced.2 hNext).bind
      rintro ⟨thenBranch', thens⟩ u' hThen
      rcases hThen.ofPlain hPlaced.1 hScopes with
        ⟨hThenNoted, hSame⟩
      apply gives_pure
      exact
        .unchanged (.ifThen hCondition hThenNoted) hSettled hSame
  | ifElse condition thenBranch elseBranch =>
      rw [Stmt.resolveNoting]
      apply Gives.noting
      apply (condition.noted_of_resolve hSettled.tail).bind
      rintro ⟨condition', notes⟩ u ⟨hCondition, hScopes⟩
      have hNext : ScopesSettled u.scopes := hScopes ▸ hSettled
      apply
        (thenBranch.settles_of_resolve hPlaced.1.2 hNext).bind
      rintro ⟨thenBranch', thens⟩ u' hThen
      rcases hThen.ofPlain hPlaced.1.1 hScopes with
        ⟨hThenNoted, hThenSame⟩
      have hLast : ScopesSettled u'.scopes := hThenSame ▸ hSettled
      apply
        (elseBranch.settles_of_resolve hPlaced.2.2 hLast).bind
      rintro ⟨elseBranch', elses⟩ u'' hElse
      rcases hElse.ofPlain hPlaced.2.1 hThenSame with
        ⟨hElseNoted, hSame⟩
      apply gives_pure
      exact
        .unchanged (.ifElse hCondition hThenNoted hElseNoted)
          hSettled hSame
  | loop condition body =>
      rw [Stmt.resolveNoting]
      apply Gives.noting
      apply (condition.noted_of_resolve hSettled.tail).bind
      rintro ⟨condition', notes⟩ u ⟨hCondition, hScopes⟩
      have hNext : ScopesSettled u.scopes := hScopes ▸ hSettled
      apply (body.settles_of_resolve hPlaced.2 hNext).bind
      rintro ⟨body', others⟩ u' hBody
      rcases hBody.ofPlain hPlaced.1 hScopes with
        ⟨hBodyNoted, hSame⟩
      apply gives_pure
      exact
        .unchanged (.loop hCondition hBodyNoted) hSettled hSame
  | function name params body =>
      rw [Stmt.resolveNoting]
      apply Gives.noting
      apply (gives_declare name).bind
      rintro _ u ⟨hDeclared, hNew⟩
      apply (gives_define name).bind
      rintro _ u' rfl
      have hScopes := scopes_declared hDeclared
      have hNext :
          ScopesSettled (u.enter name.lexeme true).scopes := by
        rw [hScopes]
        exact hSettled.declare name.lexeme
      have hBody := Stmt.bodySettles_of_resolve body hPlaced
      apply (hBody.gives_function hNext params).bind
      rintro ⟨body', notes⟩ v ⟨⟨scope, hParams, hNoted⟩, hSame⟩
      rw [hScopes] at hNoted hSame
      apply gives_pure
      exact
        .declared (.function hNew hParams hNoted) hSettled hSame id
  | ret keyword value =>
      cases value with
      | none =>
          rw [Stmt.resolveNoting]
          apply Gives.noting
          apply (gives_checkReturn keyword).bind
          rintro _ u rfl
          apply gives_pure
          exact .unchanged .plainRet hSettled rfl
      | some value =>
          rw [Stmt.resolveNoting]
          apply Gives.noting
          apply (gives_checkReturn keyword).bind
          rintro _ u rfl
          apply (value.noted_of_resolve hSettled.tail).bind
          rintro ⟨value', notes⟩ u ⟨hValue, hScopes⟩
          apply gives_pure
          exact .unchanged (.ret hValue) hSettled hScopes

theorem Stmt.bodySettles_of_resolve
    (body : List Stmt)
    (hPlaced : Stmt.PlacedBody body) :
    Stmt.BodySettles body := by
  intro r hSettled
  cases body with
  | nil => exact gives_pure ⟨.nil, rfl⟩
  | cons stmt body =>
      rw [Stmt.resolveBodyNoting]
      apply (stmt.settles_of_resolve hPlaced.1 hSettled).bind
      rintro ⟨stmt', notes⟩ u hStmt
      have hRest := Stmt.bodySettles_of_resolve body hPlaced.2
      apply (hRest u hStmt.settled).bind
      rintro ⟨body', others⟩ u' ⟨hBody, hTail⟩
      apply gives_pure
      exact ⟨.cons hStmt.noted hBody, hTail.trans hStmt.tail⟩

end

end Lox

------------------------------------------------------------
-- Programs
------------------------------------------------------------

namespace Lox

/- A program that is well placed resolves to a noted one. -/
theorem noted_of_resolveProgram
    {program : List Stmt}
    {resolved : Resolved}
    {notes : List Notes}
    (hPlaced : Stmt.PlacedBody program)
    (hRun :
      resolveProgramNoting program = .ok (resolved, notes)) :
    Stmt.BodyNoted [] resolved.program notes := by
  have hSettled : ScopesSettled [] :=
    fun scope hMem => absurd hMem List.not_mem_nil
  unfold resolveProgramNoting at hRun
  split at hRun
  · rename_i hBody
    cases hRun
    have hSettles := Stmt.bodySettles_of_resolve program hPlaced
    exact ((hSettles {} hSettled).post hBody).1
  · cases hRun

/- Every program that resolves has notes. -/
theorem exists_noted_of_resolveProgram
    {program : List Stmt}
    {resolved : Resolved}
    (hPlaced : Stmt.PlacedBody program)
    (hRun : resolveProgram program = .ok resolved) :
    ∃ notes, Stmt.BodyNoted [] resolved.program notes := by
  have hErased := resolveProgramNoting_erased program
  rw [hRun] at hErased
  cases hNoting : resolveProgramNoting program with
  | error e =>
      rw [hNoting] at hErased
      cases hErased
  | ok result =>
      rcases result with ⟨same, notes⟩
      rw [hNoting] at hErased
      cases hErased
      exact ⟨notes, noted_of_resolveProgram hPlaced hNoting⟩

end Lox
