import Lox.Proofs.Scope.Inward
import Lox.Proofs.Scope.Placement

/-
  Resolving `for` loops.

  The statement that a `for` loop stands for has the increment
  in the block of the body, one scope further in than where it
  is written. The body is a statement that declares nothing in
  this scope, so the names of the increment are found as they
  would be in the scope of the loop itself.

  Key definitions include:
    * `ForLoop`
    * `ForLoop.source`, `ForLoop.tree`
    * `ForLoop.resolve`
    * `ForLoop.resolve_source`
-/

------------------------------------------------------------
-- Loops As They Are Written
------------------------------------------------------------

namespace Lox

/- The parts of a `for` loop, of which some may be left out. -/
structure ForLoop where
  initializer : Option Stmt
  condition : Option Expr
  increment : Option Expr
  body : Stmt

/- Whether a statement may be what a `for` loop does first. -/
def Stmt.IsInitializer : Stmt → Prop
  | .var _ _ => True
  | .expression _ => True
  | _ => False

namespace ForLoop

/- The condition of the loop; one that is left out is true. -/
def test (loop : ForLoop) : Expr :=
  loop.condition.getD (.literal (.bool true))

/- The statement that is read for the loop. -/
def source (loop : ForLoop) : Stmt :=
  Grammar.forLoop loop.initializer loop.test loop.increment
    loop.body

/-
  The statement that the loop stands for once its names have
  been found where they are written: its increment is one scope
  further in.
-/
def tree (loop : ForLoop) : Stmt :=
  Grammar.forLoop loop.initializer loop.test
    (loop.increment.map Expr.inward) loop.body

/- The parts are such as a `for` loop can be written with. -/
structure IsWritten (loop : ForLoop) : Prop where
  initializer : ∀ s ∈ loop.initializer, s.IsInitializer
  plain : loop.body.IsPlain
  placed : loop.body.Placed

end ForLoop

theorem Stmt.InitializerDerives.isInitializer
    {initializer : Option Stmt}
    {tokens : List Token}
    (hInitializer : Stmt.InitializerDerives initializer tokens) :
    ∀ s ∈ initializer, s.IsInitializer := by
  cases hInitializer with
  | none => simp
  | var _ hVariable =>
      rintro _ ⟨⟩
      cases hVariable <;> exact trivial
  | expression hExpression =>
      rintro _ ⟨⟩
      cases hExpression
      exact trivial

/- The tokens of a loop: those of its parts, in order. -/
inductive ForLoop.Derives (takesElse : Bool) :
    ForLoop → List Token → Prop where
  | parts
      {keyword opening semicolon closing : Token}
      {initializer : Option Stmt}
      {condition increment : Option Expr} {body : Stmt}
      {initials conditions increments tokens : List Token}
      (hKeyword : keyword.kind = .forKw)
      (hOpening : opening.kind = .leftParen)
      (hInitializer :
        Stmt.InitializerDerives initializer initials)
      (hCondition : Expr.OptionDerives condition conditions)
      (hEnd : semicolon.kind = .semicolon)
      (hIncrement : Expr.OptionDerives increment increments)
      (hClosing : closing.kind = .rightParen)
      (hBody : Clause.Derives (.statement takesElse body) tokens) :
      Derives takesElse
        { initializer, condition, increment, body }
        (keyword :: opening ::
          (initials ++ (conditions ++ semicolon ::
            (increments ++ closing :: tokens))))

theorem ForLoop.Derives.isWritten
    {takesElse : Bool}
    {loop : ForLoop}
    {tokens : List Token}
    (hDerives : loop.Derives takesElse tokens) :
    loop.IsWritten := by
  cases hDerives with
  | parts _ _ hInitializer _ _ _ _ hBody =>
      have hPlaced := hBody.wellPlaced
      exact ⟨hInitializer.isInitializer, hPlaced.1, hPlaced.2⟩

/- A statement that begins with `for` is read for a loop. -/
theorem Clause.Derives.exists_forLoop
    {takesElse : Bool}
    {s : Stmt}
    {keyword : Token}
    {rest : List Token}
    (hDerives :
      Clause.Derives (.statement takesElse s) (keyword :: rest))
    (hKeyword : keyword.kind = .forKw) :
    ∃ loop : ForLoop,
      loop.Derives takesElse (keyword :: rest) ∧
        s = loop.source := by
  generalize hClause : Clause.statement takesElse s = clause
    at hDerives
  generalize hTokens : keyword :: rest = tokens at hDerives
  cases hDerives with
  | expression hExpression =>
      rcases hExpression.head with ⟨t, others, hHead, hStarts⟩
      rw [hHead] at hTokens
      cases hTokens
      rw [hKeyword] at hStarts
      exact absurd hStarts (by decide)
  | print hOther | ret hOther | block hOther | ifThen hOther
  | ifElse hOther | whileLoop hOther =>
      cases hTokens
      rw [hKeyword] at hOther
      cases hOther
  | forLoop hFor hOpening hInitializer hCondition hEnd hIncrement
      hClosing hBody =>
      cases hClause
      exact
        ⟨_,
          .parts hFor hOpening hInitializer hCondition hEnd
            hIncrement hClosing hBody,
          rfl⟩
  | plain | var | function | done | next => cases hClause

end Lox

------------------------------------------------------------
-- Scopes That Are Left
------------------------------------------------------------

namespace Lox

open Resolver Resolution

mutual

/- An expression leaves the scopes as they are. -/
theorem Expr.leaves_scopes (e : Expr) (r : Resolver) :
    e.resolve.Gives r fun _ u => u.scopes = r.scopes := by
  cases e with
  | literal value =>
      rw [Expr.resolve]
      exact gives_pure rfl
  | «variable» name hops =>
      rw [Expr.resolve]
      apply (gives_checkReadable name).bind
      rintro _ u ⟨rfl, _⟩
      apply (gives_locate name).bind
      rintro _ u' ⟨_, hSame⟩
      exact gives_pure hSame
  | assign name value hops =>
      rw [Expr.resolve]
      apply (value.leaves_scopes r).bind
      intro _ u hScopes
      apply (gives_locate name).bind
      rintro _ u' ⟨_, hSame⟩
      exact gives_pure (hSame.trans hScopes)
  | binary left op right | logical left op right =>
      rw [Expr.resolve]
      apply (left.leaves_scopes r).bind
      intro _ u hScopes
      apply (right.leaves_scopes u).bind
      intro _ u' hSame
      exact gives_pure (hSame.trans hScopes)
  | unary op operand =>
      rw [Expr.resolve]
      apply (operand.leaves_scopes r).bind
      intro _ u hScopes
      exact gives_pure hScopes
  | grouping inner =>
      rw [Expr.resolve]
      apply (inner.leaves_scopes r).bind
      intro _ u hScopes
      exact gives_pure hScopes
  | call callee paren args =>
      rw [Expr.resolve]
      apply (callee.leaves_scopes r).bind
      intro _ u hScopes
      apply (Expr.argsLeave_scopes args u).bind
      intro _ u' hSame
      exact gives_pure (hSame.trans hScopes)

theorem Expr.argsLeave_scopes (args : List Expr) (r : Resolver) :
    (Expr.resolveArgs args).Gives r
      fun _ u => u.scopes = r.scopes := by
  cases args with
  | nil => exact gives_pure rfl
  | cons arg args =>
      rw [Expr.resolveArgs]
      apply (arg.leaves_scopes r).bind
      intro _ u hScopes
      apply (Expr.argsLeave_scopes args u).bind
      intro _ u' hSame
      exact gives_pure (hSame.trans hScopes)

end

/-
  What a statement does to the scopes: it changes at most the
  innermost one, and that only if it is not plain.
-/
def Stmt.Leaves (s : Stmt) (scopes : List Scope) (u : Resolver) :
    Prop :=
  u.scopes.tail = scopes.tail ∧ (s.IsPlain → u.scopes = scopes)

theorem Stmt.leaves_of_eq
    {s : Stmt}
    {scopes : List Scope}
    {u : Resolver}
    (hScopes : u.scopes = scopes) :
    s.Leaves scopes u :=
  ⟨congrArg List.tail hScopes, fun _ => hScopes⟩

/- A step that changes at most the innermost scope. -/
def Resolution.LeavesOuter {α : Type} (step : Resolution α) :
    Prop :=
  ∀ r : Resolver,
    step.Gives r fun _ u => u.scopes.tail = r.scopes.tail

/- In a scope of its own it changes no scope. -/
theorem Resolution.LeavesOuter.within
    {α : Type}
    {step : Resolution α}
    (hStep : step.LeavesOuter)
    (r : Resolver) :
    (within step).Gives r fun _ u => u.scopes = r.scopes :=
  Gives.within (hStep { r with scopes := [] :: r.scopes })

theorem Resolver.declareParams_leavesOuter (params : List Token) :
    (declareParams params).LeavesOuter := by
  induction params with
  | nil => exact fun r => gives_pure rfl
  | cons param params ih =>
      intro r
      apply (gives_declare param).bind
      rintro _ u ⟨rfl, _⟩
      apply (gives_define param).bind
      rintro _ v rfl
      apply (ih _).mono
      intro _ w hTail
      rw [hTail, scopes_enter, tail_enterScope, scopes_enter,
        tail_enterScope]

/- The body of a function changes none of the scopes around it. -/
theorem Resolution.LeavesOuter.function
    {α : Type}
    {body : Resolution α}
    (hBody : body.LeavesOuter)
    (params : List Token)
    (r : Resolver) :
    (withinFunction (Resolver.within do
      declareParams params
      Resolver.within body)).Gives r
        fun _ u => u.scopes = r.scopes := by
  have hInside :
      (do
        declareParams params
        Resolver.within body : Resolution α).LeavesOuter := by
    intro u
    apply (declareParams_leavesOuter params u).bind
    intro _ v hTail
    apply (hBody.within v).mono
    intro _ w hScopes
    rw [hScopes, hTail]
  apply Gives.withinFunction
  exact hInside.within { r with enclosing := .function }

mutual

theorem Stmt.leaves_scopes
    (s : Stmt)
    (hPlaced : s.Placed)
    (r : Resolver) :
    s.resolve.Gives r fun _ u => s.Leaves r.scopes u := by
  cases s with
  | expression value | print value =>
      rw [Stmt.resolve]
      apply (value.leaves_scopes r).bind
      intro _ u hScopes
      exact gives_pure (leaves_of_eq hScopes)
  | var name initializer =>
      cases initializer with
      | none =>
          rw [Stmt.resolve]
          apply (gives_declare name).bind
          rintro _ u ⟨rfl, _⟩
          apply (gives_define name).bind
          rintro _ v rfl
          refine gives_pure ⟨?_, fun hPlain => hPlain.elim⟩
          rw [scopes_enter, tail_enterScope, scopes_enter,
            tail_enterScope]
      | some value =>
          rw [Stmt.resolve]
          apply (gives_declare name).bind
          rintro _ u ⟨rfl, _⟩
          apply (value.leaves_scopes _).bind
          intro _ v hScopes
          apply (gives_define name).bind
          rintro _ w rfl
          refine gives_pure ⟨?_, fun hPlain => hPlain.elim⟩
          rw [scopes_enter, tail_enterScope, hScopes,
            scopes_enter, tail_enterScope]
  | block body =>
      rw [Stmt.resolve]
      have hBody := Stmt.bodyLeaves_scopes body hPlaced
      apply (hBody.within r).bind
      intro _ u hScopes
      exact gives_pure (leaves_of_eq hScopes)
  | ifThen condition thenBranch =>
      rw [Stmt.resolve]
      apply (condition.leaves_scopes r).bind
      intro _ u hScopes
      apply (thenBranch.leaves_scopes hPlaced.2 u).bind
      intro _ v hThen
      apply gives_pure
      exact leaves_of_eq ((hThen.2 hPlaced.1).trans hScopes)
  | ifElse condition thenBranch elseBranch =>
      rcases hPlaced with ⟨⟨hPlain, hThen⟩, hPlain', hElse⟩
      rw [Stmt.resolve]
      apply (condition.leaves_scopes r).bind
      intro _ u hScopes
      apply (thenBranch.leaves_scopes hThen u).bind
      intro _ v hLeaves
      apply (elseBranch.leaves_scopes hElse v).bind
      intro _ w hLeaves'
      apply gives_pure
      apply leaves_of_eq
      rw [hLeaves'.2 hPlain', hLeaves.2 hPlain, hScopes]
  | loop condition body =>
      rw [Stmt.resolve]
      apply (condition.leaves_scopes r).bind
      intro _ u hScopes
      apply (body.leaves_scopes hPlaced.2 u).bind
      intro _ v hBody
      apply gives_pure
      exact leaves_of_eq ((hBody.2 hPlaced.1).trans hScopes)
  | function name params body =>
      rw [Stmt.resolve]
      apply (gives_declare name).bind
      rintro _ u ⟨rfl, _⟩
      apply (gives_define name).bind
      rintro _ v rfl
      have hBody := Stmt.bodyLeaves_scopes body hPlaced
      apply (hBody.function params _).bind
      intro _ w hScopes
      refine gives_pure ⟨?_, fun hPlain => hPlain.elim⟩
      rw [hScopes, scopes_enter, tail_enterScope, scopes_enter,
        tail_enterScope]
  | ret keyword value =>
      cases value with
      | none =>
          rw [Stmt.resolve]
          apply (gives_checkReturn keyword).bind
          rintro _ u rfl
          exact gives_pure (leaves_of_eq rfl)
      | some value =>
          rw [Stmt.resolve]
          apply (gives_checkReturn keyword).bind
          rintro _ u rfl
          apply (value.leaves_scopes _).bind
          intro _ v hScopes
          exact gives_pure (leaves_of_eq hScopes)

theorem Stmt.bodyLeaves_scopes
    (body : List Stmt)
    (hPlaced : Stmt.PlacedBody body) :
    (Stmt.resolveBody body).LeavesOuter := by
  intro r
  cases body with
  | nil => exact gives_pure rfl
  | cons stmt body =>
      rw [Stmt.resolveBody]
      apply (stmt.leaves_scopes hPlaced.1 r).bind
      intro _ u hLeaves
      apply (Stmt.bodyLeaves_scopes body hPlaced.2 u).bind
      intro _ v hTail
      exact gives_pure (hTail.trans hLeaves.1)

end

end Lox

------------------------------------------------------------
-- Resolving A Loop
------------------------------------------------------------

namespace Lox

open Resolver Resolution Coupling

/- Resolves a part that may be left out. -/
def Resolver.ifGiven
    {α β : Type}
    (step : α → Resolution β) :
    Option α → Resolution (Option β)
  | none => return none
  | some a => return some (← step a)

/-
  Resolves a loop as it is written: all but the body in one
  scope, and the body in a scope within it.
-/
def ForLoop.resolve (loop : ForLoop) : Resolution ForLoop :=
  within do
    let initializer ← ifGiven Stmt.resolve loop.initializer
    let condition ← ifGiven Expr.resolve loop.condition
    let body ← within loop.body.resolve
    let increment ← ifGiven Expr.resolve loop.increment
    return { initializer, condition, increment, body }

/-
  Resolvers that have done the same, but for the numbers that
  they have recorded.
-/
def Coupling.recording : Coupling ScopeError Resolver where
  states r r' :=
    r'.scopes = r.scopes ∧ r'.enclosing = r.enclosing ∧
      r'.recorded.size = r.recorded.size
  errors e e' := e' = e

/- What the resolver does with the statement of a loop. -/
theorem ForLoop.resolve_source_eq (loop : ForLoop) :
    loop.source.resolve = do
      let body ← within do
        let initializer ← ifGiven Stmt.resolve loop.initializer
        let condition ← ifGiven Expr.resolve loop.condition
        let round ← within do
          let body ← loop.body.resolve
          let increment ← ifGiven Expr.resolve loop.increment
          return body :: (increment.map Stmt.expression).toList
        return initializer.toList ++
          [.loop (condition.getD (.literal (.bool true)))
            (.block round)]
      return .block body := by
  rcases loop with ⟨initializer, condition, increment, body⟩
  cases initializer <;> cases condition <;> cases increment <;>
    simp [source, test, Grammar.forLoop, Stmt.resolve,
      Stmt.resolveBody, Expr.resolve, ifGiven]

end Lox

------------------------------------------------------------
-- The Same But For The Increment
------------------------------------------------------------

namespace Lox

open Resolver Resolution Coupling

namespace Resolver

variable {α α' β β' : Type} {r u : Resolver}
variable {A : α → α' → Prop} {B : β → β' → Prop}

theorem within_of_ok
    {step : Resolution α}
    {a : α}
    (hStep : step { r with scopes := [] :: r.scopes } = .ok a u) :
    within step r = .ok a { u with scopes := u.scopes.tail } := by
  unfold within
  rw [hStep]

theorem within_of_error
    {step : Resolution α}
    {e : ScopeError}
    (hStep :
      step { r with scopes := [] :: r.scopes } = .error e u) :
    within step r = .error e { u with scopes := u.scopes.tail } := by
  unfold within
  rw [hStep]

/- What begins with the same step is told apart by the rest. -/
theorem recording_after
    {step : Resolution α}
    {next : α → Resolution β}
    {next' : α → Resolution β'}
    (hNext :
      ∀ a u, step r = .ok a u →
        recording.Ends B (next a u) (next' a u)) :
    recording.Ends B ((step >>= next) r) ((step >>= next') r) := by
  cases hStep : step r with
  | ok a u =>
      rw [bind_of_ok hStep, bind_of_ok hStep]
      exact hNext a u hStep
  | error e u =>
      rw [bind_of_error hStep, bind_of_error hStep]
      exact ⟨rfl, rfl, rfl, rfl⟩

theorem recording_within
    {step : Resolution α}
    {step' : Resolution α'}
    (hStep :
      recording.Ends A
        (step { r with scopes := [] :: r.scopes })
        (step' { r with scopes := [] :: r.scopes })) :
    recording.Ends A (within step r) (within step' r) := by
  unfold within
  cases hRun : step { r with scopes := [] :: r.scopes } <;>
    cases hRun' : step' { r with scopes := [] :: r.scopes } <;>
    rw [hRun, hRun'] at hStep
  · exact ⟨hStep.1, congrArg List.tail hStep.2.1, hStep.2.2⟩
  · exact hStep.elim
  · exact hStep.elim
  · exact ⟨hStep.1, congrArg List.tail hStep.2.1, hStep.2.2⟩

/- A result is put into another shape at the end. -/
theorem recording_reshape
    {result : EStateM.Result ScopeError Resolver α}
    {step : Resolution β'}
    {shape : β' → α'}
    (hStep :
      recording.Ends (fun a b => A a (shape b)) result (step r)) :
    recording.Ends A result
      ((do return shape (← step) : Resolution α') r) := by
  cases result <;> cases hRun : step r <;> rw [hRun] at hStep
  · rw [bind_of_ok hRun]
    exact hStep
  · exact hStep.elim
  · exact hStep.elim
  · rw [bind_of_error hRun]
    exact hStep

end Resolver

/- What holds of each part that may be given, and without it. -/
theorem Resolver.gives_ifGiven
    {α β : Type}
    {step : α → Resolution β}
    {given : Option α}
    {r : Resolver}
    {P : Resolver → Prop}
    (hNone : P r)
    (hSome : ∀ a ∈ given, (step a).Gives r fun _ u => P u) :
    (ifGiven step given).Gives r fun _ u => P u := by
  cases given with
  | none => exact gives_pure hNone
  | some a =>
      apply (hSome a rfl).bind
      intro _ u hGiven
      exact gives_pure hGiven

/- A part that may be left out is resolved further in, or not. -/
theorem Resolver.ifGiven_inward (e : Option Expr) :
    Coupling.inward.Relates (fun e e' => e' = e.map Expr.inward)
      (ifGiven Expr.resolve e) (ifGiven Expr.resolve e) := by
  cases e with
  | none => exact relates_pure rfl
  | some e =>
      apply e.resolve_inward.bind
      rintro found _ rfl
      exact relates_pure rfl

/-
  After the body, the increment is resolved in the scope of the
  loop, or further in where the body is.
-/
theorem ForLoop.resolve_round
    {loop : ForLoop}
    {r : Resolver}
    (hWritten : loop.IsWritten)
    (hSettled : ∀ scope ∈ r.scopes.head?, scope.IsSettled)
    (initializer : Option Stmt)
    (condition : Option Expr) :
    recording.Ends (fun l stmts => .block stmts = l.tree)
      ((do
        let body ← within loop.body.resolve
        let increment ← ifGiven Expr.resolve loop.increment
        return { initializer, condition, increment, body } :
          Resolution ForLoop) r)
      ((do
        let round ← within do
          let body ← loop.body.resolve
          let increment ← ifGiven Expr.resolve loop.increment
          return body :: (increment.map Stmt.expression).toList
        return initializer.toList ++
          [.loop (condition.getD (.literal (.bool true)))
            (.block round)] : Resolution (List Stmt)) r) := by
  let inside := { r with scopes := [] :: r.scopes }
  let round : Resolution (List Stmt) := do
    let body ← loop.body.resolve
    let increment ← ifGiven Expr.resolve loop.increment
    return body :: (increment.map Stmt.expression).toList
  cases hBody : loop.body.resolve inside with
  | error e u =>
      have hRound : round inside = .error e u := bind_of_error hBody _
      rw [bind_of_error (within_of_error hBody),
        bind_of_error (within_of_error hRound)]
      exact ⟨rfl, rfl, rfl, rfl⟩
  | ok body u =>
      have hLeaves :=
        (loop.body.leaves_scopes hWritten.placed inside).post hBody
      have hScopes : u.scopes = [] :: r.scopes :=
        hLeaves.2 hWritten.plain
      have hEntered :
          Entered { u with scopes := u.scopes.tail } u := by
        refine ⟨?_, ?_, rfl, rfl⟩
        · simp [hScopes]
        · simpa [hScopes] using hSettled
      have hIncrement := ifGiven_inward loop.increment _ _ hEntered
      rw [bind_of_ok (within_of_ok hBody)]
      cases hOuter :
        ifGiven Expr.resolve loop.increment
          { u with scopes := u.scopes.tail } <;>
        cases hInner : ifGiven Expr.resolve loop.increment u <;>
        rw [hOuter, hInner] at hIncrement
      · rename_i increment v increment' v'
        rcases hIncrement with ⟨rfl, hStates⟩
        have hRound : round inside = .ok _ v' :=
          (bind_of_ok hBody _).trans (bind_of_ok hInner _)
        rw [bind_of_ok hOuter, bind_of_ok (within_of_ok hRound)]
        refine ⟨rfl, ?_, hStates.enclosing, hStates.recorded⟩
        simp [hStates.scopes]
      · exact hIncrement.elim
      · exact hIncrement.elim
      · rename_i e v e' v'
        rcases hIncrement with ⟨rfl, hStates⟩
        have hRound : round inside = .error e' v' :=
          (bind_of_ok hBody _).trans (bind_of_error hInner _)
        rw [bind_of_error hOuter,
          bind_of_error (within_of_error hRound)]
        refine ⟨rfl, ?_, hStates.enclosing, hStates.recorded⟩
        simp [hStates.scopes]

/- A scope that what a loop does first was resolved in. -/
theorem Stmt.IsInitializer.settles
    {s : Stmt}
    {r : Resolver}
    (hInitializer : s.IsInitializer)
    (hSettled : ∀ scope ∈ r.scopes.head?, scope.IsSettled) :
    s.resolve.Gives r fun _ u =>
      ∀ scope ∈ u.scopes.head?, scope.IsSettled := by
  cases s with
  | expression value =>
      rw [Stmt.resolve]
      apply (value.leaves_scopes r).bind
      intro _ u hScopes
      apply gives_pure
      rw [hScopes]
      exact hSettled
  | var name initializer =>
      have hDeclared :
          ∀ scope ∈
            (enterScope (enterScope r.scopes name.lexeme false)
              name.lexeme true).head?,
            scope.IsSettled := by
        cases hScopes : r.scopes with
        | nil => simp [enterScope]
        | cons scope scopes =>
            rw [hScopes] at hSettled
            rintro _ ⟨⟩
            exact (hSettled scope rfl).declare name.lexeme
      cases initializer with
      | none =>
          rw [Stmt.resolve]
          apply (gives_declare name).bind
          rintro _ u ⟨rfl, _⟩
          apply (gives_define name).bind
          rintro _ v rfl
          apply gives_pure
          rw [scopes_enter, scopes_enter]
          exact hDeclared
      | some value =>
          rw [Stmt.resolve]
          apply (gives_declare name).bind
          rintro _ u ⟨rfl, _⟩
          apply (value.leaves_scopes _).bind
          intro _ v hScopes
          apply (gives_define name).bind
          rintro _ w rfl
          apply gives_pure
          rw [scopes_enter, hScopes, scopes_enter]
          exact hDeclared
  | _ => exact hInitializer.elim

/-
  The statement that is read for a loop is resolved as the loop
  is: the same names are accepted, and the statement that comes
  out is that of the loop that comes out.
-/
theorem ForLoop.resolve_source
    {loop : ForLoop}
    (hWritten : loop.IsWritten)
    (r : Resolver) :
    recording.Ends (fun l s => s = l.tree) (loop.resolve r)
      (loop.source.resolve r) := by
  rw [resolve_source_eq]
  apply recording_reshape
  apply recording_within
  apply recording_after
  intro initializer u hInitializer
  have hEmpty :
      ∀ scope ∈ (([] : Scope) :: r.scopes).head?,
        Scope.IsSettled scope := by
    rintro _ ⟨⟩
    exact Scope.isSettled_nil
  have hSettled : ∀ scope ∈ u.scopes.head?, scope.IsSettled :=
    (gives_ifGiven hEmpty fun s hGiven =>
      (hWritten.initializer s hGiven).settles hEmpty).post
        hInitializer
  apply recording_after
  intro condition v hCondition
  have hGives :=
    gives_ifGiven
      (show u.scopes = u.scopes from rfl)
      (fun e (_ : e ∈ loop.condition) => e.leaves_scopes u)
  have hScopes : v.scopes = u.scopes := hGives.post hCondition
  apply resolve_round hWritten
  rw [hScopes]
  exact hSettled

end Lox
