import Lox.Proofs.Grammar.Recognition
import Lox.Proofs.Scope.Renaming

/-
  Programs without their numbers of scopes.

  A program that has just been read has no numbers of scopes.
  Resolution fills them in and changes nothing else, so that
  a resolved program without its numbers is the program that
  was read, and resolves to the same program again.

  Key definitions include:
    * `Expr.bare`, `Stmt.bare`
    * `Stmt.bareBody_of_resolve`
    * `Stmt.resolveBody_resolved`
    * `bare_of_parse`
-/

------------------------------------------------------------
-- Trees Without Numbers
------------------------------------------------------------

namespace Lox

mutual

/- An expression as it is before resolution. -/
def Expr.bare : Expr → Expr
  | .literal value => .literal value
  | .variable name _ => .variable name none
  | .assign name value _ => .assign name value.bare none
  | .binary left op right => .binary left.bare op right.bare
  | .logical left op right => .logical left.bare op right.bare
  | .unary op operand => .unary op operand.bare
  | .grouping inner => .grouping inner.bare
  | .call callee paren args =>
      .call callee.bare paren (Expr.bareArgs args)

def Expr.bareArgs : List Expr → List Expr
  | [] => []
  | arg :: args => arg.bare :: Expr.bareArgs args

end

mutual

/- A statement as it is before resolution. -/
def Stmt.bare : Stmt → Stmt
  | .expression value => .expression value.bare
  | .print value => .print value.bare
  | .var name none => .var name none
  | .var name (some value) => .var name (some value.bare)
  | .block body => .block (Stmt.bareBody body)
  | .ifThen condition thenBranch =>
      .ifThen condition.bare thenBranch.bare
  | .ifElse condition thenBranch elseBranch =>
      .ifElse condition.bare thenBranch.bare elseBranch.bare
  | .loop condition body => .loop condition.bare body.bare
  | .function name params body =>
      .function name params (Stmt.bareBody body)
  | .ret keyword none => .ret keyword none
  | .ret keyword (some value) => .ret keyword (some value.bare)

def Stmt.bareBody : List Stmt → List Stmt
  | [] => []
  | stmt :: body => stmt.bare :: Stmt.bareBody body

end

end Lox

------------------------------------------------------------
-- Names
------------------------------------------------------------

namespace Lox

variable {y : String}

mutual

/- The names that occur do not depend on the numbers. -/
theorem Expr.avoids_bare (e : Expr) :
    e.bare.Avoids y ↔ e.Avoids y := by
  cases e with
  | literal value => rfl
  | «variable» name hops => rfl
  | assign name value hops =>
      simp only [Expr.bare, Expr.Avoids, value.avoids_bare]
  | binary left op right =>
      simp only [Expr.bare, Expr.Avoids, left.avoids_bare,
        right.avoids_bare]
  | logical left op right =>
      simp only [Expr.bare, Expr.Avoids, left.avoids_bare,
        right.avoids_bare]
  | unary op operand =>
      simp only [Expr.bare, Expr.Avoids, operand.avoids_bare]
  | grouping inner =>
      simp only [Expr.bare, Expr.Avoids, inner.avoids_bare]
  | call callee paren args =>
      simp only [Expr.bare, Expr.Avoids, callee.avoids_bare,
        Expr.avoidsArgs_bare args]

theorem Expr.avoidsArgs_bare (args : List Expr) :
    Expr.AvoidsArgs y (Expr.bareArgs args) ↔
      Expr.AvoidsArgs y args := by
  cases args with
  | nil => rfl
  | cons arg args =>
      simp only [Expr.bareArgs, Expr.AvoidsArgs, arg.avoids_bare,
        Expr.avoidsArgs_bare args]

end

mutual

theorem Stmt.avoids_bare (s : Stmt) :
    s.bare.Avoids y ↔ s.Avoids y := by
  cases s with
  | expression value =>
      simp only [Stmt.bare, Stmt.Avoids, Expr.avoids_bare]
  | print value =>
      simp only [Stmt.bare, Stmt.Avoids, Expr.avoids_bare]
  | var name initializer =>
      cases initializer with
      | none => rfl
      | some value =>
          simp only [Stmt.bare, Stmt.Avoids, Expr.avoids_bare]
  | block body =>
      simp only [Stmt.bare, Stmt.Avoids, Stmt.avoidsBody_bare body]
  | ifThen condition thenBranch =>
      simp only [Stmt.bare, Stmt.Avoids, Expr.avoids_bare,
        thenBranch.avoids_bare]
  | ifElse condition thenBranch elseBranch =>
      simp only [Stmt.bare, Stmt.Avoids, Expr.avoids_bare,
        thenBranch.avoids_bare, elseBranch.avoids_bare]
  | loop condition body =>
      simp only [Stmt.bare, Stmt.Avoids, Expr.avoids_bare,
        body.avoids_bare]
  | function name params body =>
      simp only [Stmt.bare, Stmt.Avoids, Stmt.avoidsBody_bare body]
  | ret keyword value =>
      cases value with
      | none => rfl
      | some value =>
          simp only [Stmt.bare, Stmt.Avoids, Expr.avoids_bare]

theorem Stmt.avoidsBody_bare (body : List Stmt) :
    Stmt.AvoidsBody y (Stmt.bareBody body) ↔
      Stmt.AvoidsBody y body := by
  cases body with
  | nil => rfl
  | cons stmt body =>
      simp only [Stmt.bareBody, Stmt.AvoidsBody, stmt.avoids_bare,
        Stmt.avoidsBody_bare body]

end

end Lox

------------------------------------------------------------
-- Resolution
------------------------------------------------------------

namespace Lox

open Resolver Resolution

mutual

/- Resolution does not look at numbers that are there already. -/
theorem Expr.resolve_bare (e : Expr) :
    e.bare.resolve = e.resolve := by
  cases e with
  | literal value => rfl
  | «variable» name hops => rfl
  | assign name value hops =>
      rw [Expr.bare, Expr.resolve, Expr.resolve,
        value.resolve_bare]
  | binary left op right =>
      rw [Expr.bare, Expr.resolve, Expr.resolve,
        left.resolve_bare, right.resolve_bare]
  | logical left op right =>
      rw [Expr.bare, Expr.resolve, Expr.resolve,
        left.resolve_bare, right.resolve_bare]
  | unary op operand =>
      rw [Expr.bare, Expr.resolve, Expr.resolve,
        operand.resolve_bare]
  | grouping inner =>
      rw [Expr.bare, Expr.resolve, Expr.resolve,
        inner.resolve_bare]
  | call callee paren args =>
      rw [Expr.bare, Expr.resolve, Expr.resolve,
        callee.resolve_bare, Expr.resolveArgs_bare args]

theorem Expr.resolveArgs_bare (args : List Expr) :
    Expr.resolveArgs (Expr.bareArgs args) =
      Expr.resolveArgs args := by
  cases args with
  | nil => rfl
  | cons arg args =>
      rw [Expr.bareArgs, Expr.resolveArgs, Expr.resolveArgs,
        arg.resolve_bare, Expr.resolveArgs_bare args]

end

mutual

theorem Stmt.resolve_bare (s : Stmt) :
    s.bare.resolve = s.resolve := by
  cases s with
  | expression value =>
      rw [Stmt.bare, Stmt.resolve, Stmt.resolve,
        value.resolve_bare]
  | print value =>
      rw [Stmt.bare, Stmt.resolve, Stmt.resolve,
        value.resolve_bare]
  | var name initializer =>
      cases initializer with
      | none => rfl
      | some value =>
          rw [Stmt.bare, Stmt.resolve, Stmt.resolve,
            value.resolve_bare]
  | block body =>
      rw [Stmt.bare, Stmt.resolve, Stmt.resolve,
        Stmt.resolveBody_bare body]
  | ifThen condition thenBranch =>
      rw [Stmt.bare, Stmt.resolve, Stmt.resolve,
        condition.resolve_bare, thenBranch.resolve_bare]
  | ifElse condition thenBranch elseBranch =>
      rw [Stmt.bare, Stmt.resolve, Stmt.resolve,
        condition.resolve_bare, thenBranch.resolve_bare,
        elseBranch.resolve_bare]
  | loop condition body =>
      rw [Stmt.bare, Stmt.resolve, Stmt.resolve,
        condition.resolve_bare, body.resolve_bare]
  | function name params body =>
      rw [Stmt.bare, Stmt.resolve, Stmt.resolve,
        Stmt.resolveBody_bare body]
  | ret keyword value =>
      cases value with
      | none => rfl
      | some value =>
          rw [Stmt.bare, Stmt.resolve, Stmt.resolve,
            value.resolve_bare]

theorem Stmt.resolveBody_bare (body : List Stmt) :
    Stmt.resolveBody (Stmt.bareBody body) =
      Stmt.resolveBody body := by
  cases body with
  | nil => rfl
  | cons stmt body =>
      rw [Stmt.bareBody, Stmt.resolveBody, Stmt.resolveBody,
        stmt.resolve_bare, Stmt.resolveBody_bare body]

end

mutual

/- Resolution changes nothing but the numbers of scopes. -/
theorem Expr.bare_of_resolve
    (e : Expr)
    (r : Resolver) :
    e.resolve.Gives r fun resolved _ =>
      resolved.bare = e.bare := by
  cases e with
  | literal value => exact gives_pure rfl
  | «variable» name hops =>
      rw [Expr.resolve]
      apply (gives_checkReadable name).bind
      intro _ u _
      apply (gives_locate name).bind
      intro found u' _
      exact gives_pure rfl
  | assign name value hops =>
      rw [Expr.resolve]
      apply (value.bare_of_resolve r).bind
      intro value' u hValue
      apply (gives_locate name).bind
      intro found u' _
      apply gives_pure
      rw [Expr.bare, Expr.bare, hValue]
  | binary left op right =>
      rw [Expr.resolve]
      apply (left.bare_of_resolve r).bind
      intro left' u hLeft
      apply (right.bare_of_resolve u).bind
      intro right' u' hRight
      apply gives_pure
      rw [Expr.bare, Expr.bare, hLeft, hRight]
  | logical left op right =>
      rw [Expr.resolve]
      apply (left.bare_of_resolve r).bind
      intro left' u hLeft
      apply (right.bare_of_resolve u).bind
      intro right' u' hRight
      apply gives_pure
      rw [Expr.bare, Expr.bare, hLeft, hRight]
  | unary op operand =>
      rw [Expr.resolve]
      apply (operand.bare_of_resolve r).bind
      intro operand' u hOperand
      apply gives_pure
      rw [Expr.bare, Expr.bare, hOperand]
  | grouping inner =>
      rw [Expr.resolve]
      apply (inner.bare_of_resolve r).bind
      intro inner' u hInner
      apply gives_pure
      rw [Expr.bare, Expr.bare, hInner]
  | call callee paren args =>
      rw [Expr.resolve]
      apply (callee.bare_of_resolve r).bind
      intro callee' u hCallee
      apply (Expr.bareArgs_of_resolve args u).bind
      intro args' u' hArgs
      apply gives_pure
      rw [Expr.bare, Expr.bare, hCallee, hArgs]

theorem Expr.bareArgs_of_resolve
    (args : List Expr)
    (r : Resolver) :
    (Expr.resolveArgs args).Gives r fun resolved _ =>
      Expr.bareArgs resolved = Expr.bareArgs args := by
  cases args with
  | nil => exact gives_pure rfl
  | cons arg args =>
      rw [Expr.resolveArgs]
      apply (arg.bare_of_resolve r).bind
      intro arg' u hArg
      apply (Expr.bareArgs_of_resolve args u).bind
      intro args' u' hArgs
      apply gives_pure
      rw [Expr.bareArgs, Expr.bareArgs, hArg, hArgs]

end

mutual

theorem Stmt.bare_of_resolve
    (s : Stmt)
    (r : Resolver) :
    s.resolve.Gives r fun resolved _ =>
      resolved.bare = s.bare := by
  cases s with
  | expression value =>
      rw [Stmt.resolve]
      apply (value.bare_of_resolve r).bind
      intro value' u hValue
      apply gives_pure
      rw [Stmt.bare, Stmt.bare, hValue]
  | print value =>
      rw [Stmt.resolve]
      apply (value.bare_of_resolve r).bind
      intro value' u hValue
      apply gives_pure
      rw [Stmt.bare, Stmt.bare, hValue]
  | var name initializer =>
      cases initializer with
      | none =>
          rw [Stmt.resolve]
          apply (gives_declare name).bind
          intro _ u _
          apply (gives_define name).bind
          intro _ u' _
          exact gives_pure rfl
      | some value =>
          rw [Stmt.resolve]
          apply (gives_declare name).bind
          intro _ u _
          apply (value.bare_of_resolve u).bind
          intro value' u' hValue
          apply (gives_define name).bind
          intro _ u'' _
          apply gives_pure
          rw [Stmt.bare, Stmt.bare, hValue]
  | block body =>
      have hInside :
          (within (Stmt.resolveBody body)).Gives r
            fun resolved _ =>
              Stmt.bareBody resolved = Stmt.bareBody body := by
        apply Gives.within
        exact Stmt.bareBody_of_resolve body _
      rw [Stmt.resolve]
      apply hInside.bind
      intro body' u hBody
      apply gives_pure
      rw [Stmt.bare, Stmt.bare, hBody]
  | ifThen condition thenBranch =>
      rw [Stmt.resolve]
      apply (condition.bare_of_resolve r).bind
      intro condition' u hCondition
      apply (thenBranch.bare_of_resolve u).bind
      intro thenBranch' u' hThen
      apply gives_pure
      rw [Stmt.bare, Stmt.bare, hCondition, hThen]
  | ifElse condition thenBranch elseBranch =>
      rw [Stmt.resolve]
      apply (condition.bare_of_resolve r).bind
      intro condition' u hCondition
      apply (thenBranch.bare_of_resolve u).bind
      intro thenBranch' u' hThen
      apply (elseBranch.bare_of_resolve u').bind
      intro elseBranch' u'' hElse
      apply gives_pure
      rw [Stmt.bare, Stmt.bare, hCondition, hThen, hElse]
  | loop condition body =>
      rw [Stmt.resolve]
      apply (condition.bare_of_resolve r).bind
      intro condition' u hCondition
      apply (body.bare_of_resolve u).bind
      intro body' u' hBody
      apply gives_pure
      rw [Stmt.bare, Stmt.bare, hCondition, hBody]
  | function name params body =>
      rw [Stmt.resolve]
      apply (gives_declare name).bind
      intro _ u _
      apply (gives_define name).bind
      intro _ u' _
      have hInside :
          (withinFunction (within do
            declareParams params
            within (Stmt.resolveBody body))).Gives u'
              fun resolved _ =>
                Stmt.bareBody resolved = Stmt.bareBody body := by
        apply Gives.withinFunction
        apply Gives.within
        apply (gives_any (declareParams params) _).bind
        intro _ v _
        apply Gives.within
        exact Stmt.bareBody_of_resolve body _
      apply hInside.bind
      intro body' v hBody
      apply gives_pure
      rw [Stmt.bare, Stmt.bare, hBody]
  | ret keyword value =>
      cases value with
      | none =>
          rw [Stmt.resolve]
          apply (gives_checkReturn keyword).bind
          intro _ u _
          exact gives_pure rfl
      | some value =>
          rw [Stmt.resolve]
          apply (gives_checkReturn keyword).bind
          intro _ u _
          apply (value.bare_of_resolve u).bind
          intro value' u' hValue
          apply gives_pure
          rw [Stmt.bare, Stmt.bare, hValue]

theorem Stmt.bareBody_of_resolve
    (body : List Stmt)
    (r : Resolver) :
    (Stmt.resolveBody body).Gives r fun resolved _ =>
      Stmt.bareBody resolved = Stmt.bareBody body := by
  cases body with
  | nil => exact gives_pure rfl
  | cons stmt body =>
      rw [Stmt.resolveBody]
      apply (stmt.bare_of_resolve r).bind
      intro stmt' u hStmt
      apply (Stmt.bareBody_of_resolve body u).bind
      intro body' u' hBody
      apply gives_pure
      rw [Stmt.bareBody, Stmt.bareBody, hStmt, hBody]

end

/- A program that has been resolved resolves to itself. -/
theorem Stmt.resolveBody_resolved
    {body resolved : List Stmt}
    {r r' : Resolver}
    (hRun : Stmt.resolveBody body r = .ok resolved r') :
    Stmt.resolveBody resolved r = .ok resolved r' := by
  have hBare := (Stmt.bareBody_of_resolve body r).post hRun
  calc
    Stmt.resolveBody resolved r
      = Stmt.resolveBody (Stmt.bareBody resolved) r := by
        rw [Stmt.resolveBody_bare]
    _ = Stmt.resolveBody (Stmt.bareBody body) r := by rw [hBare]
    _ = Stmt.resolveBody body r := by rw [Stmt.resolveBody_bare]
    _ = .ok resolved r' := hRun

/- A resolved program without its numbers. -/
theorem bare_of_resolveProgram
    {program : List Stmt}
    {resolved : Resolved}
    (hResolve : resolveProgram program = .ok resolved) :
    Stmt.bareBody resolved.program = Stmt.bareBody program := by
  rcases exists_run_of_resolveProgram hResolve with ⟨_, hRun, _⟩
  exact (Stmt.bareBody_of_resolve program {}).post hRun

end Lox

------------------------------------------------------------
-- Programs That Have Been Read
------------------------------------------------------------

namespace Lox

/- A part of an expression that has no numbers of scopes. -/
def Phrase.IsBare : Phrase → Prop
  | .expression _ e => e.bare = e
  | .arguments args => Expr.bareArgs args = args

theorem Phrase.Derives.isBare
    {phrase : Phrase}
    {tokens : List Token}
    (hDerives : phrase.Derives tokens) :
    phrase.IsBare := by
  induction hDerives with
  | tighter hTighter ih => exact ih
  | assign hName hEquals hValue ih =>
      simp only [IsBare, Expr.bare] at ih ⊢
      rw [ih]
  | @operator tier op left right _ _ _ _ _ _ ihLeft ihRight =>
      simp only [IsBare] at ihLeft ihRight ⊢
      cases tier <;>
        simp only [Tier.node, Expr.bare, ihLeft, ihRight]
  | sign hOp hOperand ih =>
      simp only [IsBare, Expr.bare] at ih ⊢
      rw [ih]
  | plainCall hCallee hOpening hParen ih =>
      simp only [IsBare, Expr.bare, Expr.bareArgs] at ih ⊢
      rw [ih]
  | call hCallee hOpening hArgs hCount hParen ihCallee ihArgs =>
      simp only [IsBare, Expr.bare] at ihCallee ihArgs ⊢
      rw [ihCallee, ihArgs]
  | atom hAtom => cases hAtom <;> rfl
  | grouping hOpening hInner hClosing ih =>
      simp only [IsBare, Expr.bare] at ih ⊢
      rw [ih]
  | lastArgument hArg ih =>
      simp only [IsBare, Expr.bareArgs] at ih ⊢
      rw [ih]
  | argument hArg hComma hArgs ihArg ihArgs =>
      simp only [IsBare, Expr.bareArgs] at ihArg ihArgs ⊢
      rw [ihArg, ihArgs]

theorem Expr.Derives.bare
    {e : Expr}
    {tokens : List Token}
    (hDerives : e.Derives tokens) :
    e.bare = e :=
  hDerives.isBare

theorem Stmt.ExpressionDerives.bare
    {s : Stmt}
    {tokens : List Token}
    (hExpression : s.ExpressionDerives tokens) :
    s.bare = s := by
  cases hExpression with
  | mk hExpr hEnd => rw [Stmt.bare, hExpr.bare]

theorem Stmt.VariableDerives.bare
    {s : Stmt}
    {tokens : List Token}
    (hVariable : s.VariableDerives tokens) :
    s.bare = s := by
  cases hVariable with
  | plain hName hEnd => rfl
  | initialized hName hEquals hExpr hEnd =>
      rw [Stmt.bare, hExpr.bare]

theorem Expr.OptionDerives.bare
    {value : Option Expr}
    {tokens : List Token}
    (hOption : Expr.OptionDerives value tokens) :
    value.map Expr.bare = value := by
  cases hOption with
  | none => rfl
  | some hExpr => rw [Option.map_some, hExpr.bare]

theorem Stmt.InitializerDerives.bare
    {initializer : Option Stmt}
    {tokens : List Token}
    (hInitializer :
      Stmt.InitializerDerives initializer tokens) :
    initializer.map Stmt.bare = initializer := by
  cases hInitializer with
  | none => rfl
  | var hKeyword hVariable =>
      rw [Option.map_some, hVariable.bare]
  | expression hExpression =>
      rw [Option.map_some, hExpression.bare]

theorem bare_forLoop
    {initializer : Option Stmt}
    {condition : Expr}
    {increment : Option Expr}
    {body : Stmt}
    (hInitializer : initializer.map Stmt.bare = initializer)
    (hCondition : condition.bare = condition)
    (hIncrement : increment.map Expr.bare = increment)
    (hBody : body.bare = body) :
    (Grammar.forLoop initializer condition increment body).bare =
      Grammar.forLoop initializer condition increment body := by
  cases initializer <;> cases increment <;>
    simp_all [Grammar.forLoop, Stmt.bare, Stmt.bareBody]

/- A part of a program that has no numbers of scopes. -/
def Clause.IsBare : Clause → Prop
  | .statement _ s => s.bare = s
  | .declaration s => s.bare = s
  | .declarations body => Stmt.bareBody body = body

theorem Clause.Derives.isBare
    {clause : Clause}
    {tokens : List Token}
    (hDerives : clause.Derives tokens) :
    clause.IsBare := by
  induction hDerives with
  | expression hExpression => exact hExpression.bare
  | print hKeyword hExpr hEnd =>
      simp only [IsBare, Stmt.bare, hExpr.bare]
  | ret hKeyword hValue hEnd =>
      cases hValue with
      | none => rfl
      | some hExpr => simp only [IsBare, Stmt.bare, hExpr.bare]
  | block hOpening hBody hClosing ih =>
      simp only [IsBare, Stmt.bare] at ih ⊢
      rw [ih]
  | ifThen _ _ hCondition _ _ ih =>
      simp only [IsBare, Stmt.bare] at ih ⊢
      rw [hCondition.bare, ih]
  | ifElse _ _ hCondition _ _ _ _ ihThen ihElse =>
      simp only [IsBare, Stmt.bare] at ihThen ihElse ⊢
      rw [hCondition.bare, ihThen, ihElse]
  | whileLoop _ _ hCondition _ _ ih =>
      simp only [IsBare, Stmt.bare] at ih ⊢
      rw [hCondition.bare, ih]
  | forLoop _ _ hInitializer hCondition _ hIncrement _ _ ih =>
      apply bare_forLoop hInitializer.bare _ hIncrement.bare ih
      cases hCondition with
      | none => rfl
      | some hExpr => exact hExpr.bare
  | plain hStatement ih => exact ih
  | var hKeyword hVariable => exact hVariable.bare
  | function _ _ _ _ _ _ _ _ ih =>
      simp only [IsBare, Stmt.bare] at ih ⊢
      rw [ih]
  | done => rfl
  | next hFirst hRest ihFirst ihRest =>
      simp only [IsBare, Stmt.bareBody] at ihFirst ihRest ⊢
      rw [ihFirst, ihRest]

/- A program that is read with no error has no numbers. -/
theorem bare_of_parse
    {limits : Limits}
    {tokens : List Token}
    (hErrors : (parse limits tokens).errors = []) :
    Stmt.bareBody (parse limits tokens).program =
      (parse limits tokens).program :=
  (derives_of_parse hErrors).isBare

end Lox
