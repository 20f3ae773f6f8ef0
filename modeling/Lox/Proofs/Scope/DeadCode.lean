import Lox.Proofs.Scope.Composition

/-
  Deleting the statements after a `return`.

  Statements that follow a `return` in its list can be deleted:
  if the program resolves with them, it does so without them,
  and what is left resolves to the same. What they declare is
  gone at the end of their list, and nothing before them is
  looked up in what they declare.

  Key definitions include:
    * `Stmt.Cuts`
    * `Stmt.BodyCuts`
    * `Resolution.Follows`
    * `Stmt.cuts_resolve`
    * `resolveProgram_cuts`
-/

------------------------------------------------------------
-- Deleted Statements
------------------------------------------------------------

namespace Lox

mutual

/-
  The second statement is the first one, but that in some of
  its lists all that follows a `return` has been deleted.
-/
inductive Stmt.Cuts : Stmt → Stmt → Prop where
  | same {s : Stmt} : Cuts s s
  | block
      {body body' : List Stmt}
      (hBody : Stmt.BodyCuts body body') :
      Cuts (.block body) (.block body')
  | ifThen
      {condition : Expr} {thenBranch thenBranch' : Stmt}
      (hThen : Cuts thenBranch thenBranch') :
      Cuts (.ifThen condition thenBranch)
        (.ifThen condition thenBranch')
  | ifElse
      {condition : Expr}
      {thenBranch thenBranch' elseBranch elseBranch' : Stmt}
      (hThen : Cuts thenBranch thenBranch')
      (hElse : Cuts elseBranch elseBranch') :
      Cuts (.ifElse condition thenBranch elseBranch)
        (.ifElse condition thenBranch' elseBranch')
  | loop
      {condition : Expr} {body body' : Stmt}
      (hBody : Cuts body body') :
      Cuts (.loop condition body) (.loop condition body')
  | function
      {name : Token} {params : List Token}
      {body body' : List Stmt}
      (hBody : Stmt.BodyCuts body body') :
      Cuts (.function name params body)
        (.function name params body')

/- So is the second list of statements. -/
inductive Stmt.BodyCuts : List Stmt → List Stmt → Prop where
  | nil : BodyCuts [] []
  | cons
      {stmt stmt' : Stmt} {body body' : List Stmt}
      (hFirst : Stmt.Cuts stmt stmt')
      (hRest : BodyCuts body body') :
      BodyCuts (stmt :: body) (stmt' :: body')
  | ret
      {keyword : Token} {value : Option Expr}
      (after : List Stmt) :
      BodyCuts (.ret keyword value :: after)
        [.ret keyword value]

end

end Lox

------------------------------------------------------------
-- Two Resolutions Side By Side
------------------------------------------------------------

namespace Lox

/-
  Two resolvers that differ at most in what they have recorded.
-/
structure Resolver.SameScopes (r r' : Resolver) : Prop where
  scopes : r'.scopes = r.scopes
  enclosing : r'.enclosing = r.enclosing

theorem Resolver.SameScopes.around
    {r r' : Resolver}
    (hSame : r.SameScopes r') :
    r.SameAround r' :=
  ⟨congrArg List.tail hSame.scopes, hSame.enclosing⟩

theorem Resolver.SameScopes.enter
    {r r' : Resolver}
    (hSame : r.SameScopes r')
    (name : String)
    (initialized : Bool) :
    (r.enter name initialized).SameScopes
      (r'.enter name initialized) := by
  have hKept := SameAround.enter r name initialized
  have hKept' := SameAround.enter r' name initialized
  constructor
  · rw [scopes_enter, scopes_enter, hSame.scopes]
  · rw [hKept.enclosing, hKept'.enclosing, hSame.enclosing]

theorem Resolver.SameScopes.inner
    {r r' : Resolver}
    (hSame : r.SameScopes r') :
    SameScopes { r with scopes := [] :: r.scopes }
      { r' with scopes := [] :: r'.scopes } :=
  ⟨congrArg ([] :: ·) hSame.scopes, hSame.enclosing⟩

theorem Resolver.SameScopes.asFunction
    {r r' : Resolver}
    (hSame : r.SameScopes r') :
    SameScopes { r with enclosing := .function }
      { r' with enclosing := .function } :=
  ⟨hSame.scopes, rfl⟩

namespace Resolution

open Resolver

/-
  If the first step ends well, so does the second one, with
  results and resolvers that belong together.
-/
def Follows
    {α α' : Type}
    (A : α → α' → Prop)
    (states : Resolver → Resolver → Prop)
    (step : Resolution α)
    (step' : Resolution α')
    (r r' : Resolver) :
    Prop :=
  step.Gives r fun a u =>
    ∃ a' u', step' r' = .ok a' u' ∧ A a a' ∧ states u u'

variable {α α' β β' : Type}
variable {A : α → α' → Prop} {B : β → β' → Prop}
variable {states : Resolver → Resolver → Prop}
variable {step : Resolution α} {step' : Resolution α'}
variable {r r' : Resolver}

theorem follows_pure
    {a : α}
    {a' : α'}
    (hResult : A a a')
    (hStates : states r r') :
    Follows A states (pure a) (pure a') r r' :=
  gives_pure ⟨a', r', rfl, hResult, hStates⟩

theorem Follows.bind
    {next : α → Resolution β}
    {next' : α' → Resolution β'}
    {later : Resolver → Resolver → Prop}
    (hFirst : Follows A states step step' r r')
    (hNext :
      ∀ a a' u u', A a a' → states u u' →
        Follows B later (next a) (next' a') u u') :
    Follows B later (step >>= next) (step' >>= next') r r' := by
  apply Gives.bind hFirst
  rintro a u ⟨a', u', hRun, hResult, hStates⟩
  apply (hNext a a' u u' hResult hStates).mono
  rintro b v ⟨b', v', hRun', hBoth⟩
  refine ⟨b', v', ?_, hBoth⟩
  rw [bind_of_ok hRun]
  exact hRun'

theorem Follows.around
    (hStep : Follows A SameScopes step step' r r') :
    Follows A SameAround step step' r r' := by
  apply hStep.mono
  rintro a u ⟨a', u', hRun, hResult, hStates⟩
  exact ⟨a', u', hRun, hResult, hStates.around⟩

/- In a scope of its own a step may change that scope. -/
theorem Follows.within
    (hStep :
      Follows A SameAround step step'
        { r with scopes := [] :: r.scopes }
        { r' with scopes := [] :: r'.scopes }) :
    Follows A SameScopes (within step) (within step') r r' := by
  apply Gives.within
  apply hStep.mono
  rintro a u ⟨a', u', hRun, hResult, hAround⟩
  refine
    ⟨a', { u' with scopes := u'.scopes.tail }, ?_, hResult,
      hAround.scopes, hAround.enclosing⟩
  unfold Resolver.within
  rw [hRun]

theorem Follows.withinFunction
    (hStep :
      Follows A SameScopes step step'
        { r with enclosing := .function }
        { r' with enclosing := .function })
    (hSame : r.SameScopes r') :
    Follows A SameScopes (withinFunction step)
      (withinFunction step') r r' := by
  apply Gives.withinFunction
  apply hStep.mono
  rintro a u ⟨a', u', hRun, hResult, hScopes⟩
  refine
    ⟨a', { u' with enclosing := r'.enclosing }, ?_, hResult,
      hScopes.scopes, hSame.enclosing⟩
  unfold Resolver.withinFunction
  rw [hRun]

/- The step does the same, whatever has been recorded. -/
def IgnoresRecorded (step : Resolution α) : Prop :=
  ∀ r r' : Resolver, r.SameScopes r' →
    Follows Eq SameScopes step step r r'

theorem compositional_ignoresRecorded :
    Compositional fun _ step => step.IgnoresRecorded where
  pure _ r r' hSame := follows_pure rfl hSame
  declare name r r' hSame := by
    apply gives_iff.mpr
    intro a u hRun
    unfold Resolver.declare at hRun ⊢
    rw [hSame.scopes]
    split at hRun
    · cases hRun
    · rename_i hNew
      cases hRun
      rw [if_neg hNew]
      exact ⟨(), _, rfl, rfl, hSame.enter _ _⟩
  define name r r' hSame :=
    ⟨(), _, rfl, rfl, hSame.enter name.lexeme true⟩
  checkReadable name r r' hSame := by
    apply gives_iff.mpr
    intro a u hRun
    unfold Resolver.checkReadable at hRun ⊢
    rw [hSame.scopes]
    split at hRun
    · cases hRun
    · rename_i hReadable
      cases hRun
      rw [if_neg hReadable]
      exact ⟨(), _, rfl, rfl, hSame⟩
  checkReturn keyword r r' hSame := by
    apply gives_iff.mpr
    intro a u hRun
    unfold Resolver.checkReturn at hRun ⊢
    rw [hSame.enclosing]
    split at hRun
    · cases hRun
    · cases hRun
      exact ⟨(), _, rfl, rfl, hSame⟩
  locate name r r' hSame := by
    apply gives_iff.mpr
    intro a u hRun
    unfold Resolver.locate at hRun ⊢
    rw [hSame.scopes]
    split at hRun
    · cases hRun
      exact ⟨none, _, rfl, rfl, hSame⟩
    · cases hRun
      exact ⟨some _, _, rfl, rfl, rfl, hSame.enclosing⟩
  bind hStep hNext r r' hSame := by
    apply (hStep r r' hSame).bind
    rintro a _ u u' rfl hSame'
    exact hNext a u u' hSame'
  within hStep r r' hSame := by
    apply Follows.within
    exact (hStep _ _ hSame.inner).around
  withinFunction hStep r r' hSame := by
    apply Follows.withinFunction _ hSame
    exact hStep _ _ hSame.asFunction

end Resolution

end Lox

------------------------------------------------------------
-- Resolving What Is Left
------------------------------------------------------------

namespace Lox

open Resolver Resolution

variable {r r' : Resolver}

theorem Stmt.ignoresRecorded (s : Stmt) :
    s.resolve.IgnoresRecorded :=
  compositional_ignoresRecorded.statements s

theorem Expr.ignoresRecorded (e : Expr) :
    e.resolve.IgnoresRecorded :=
  compositional_ignoresRecorded.expressions e

/- A statement that is left as it is. -/
theorem Stmt.follows_same
    (s : Stmt)
    (hSame : r.SameScopes r') :
    Follows Stmt.Cuts SameScopes s.resolve s.resolve r r' := by
  apply (s.ignoresRecorded r r' hSame).mono
  rintro filled u ⟨_, u', hRun, rfl, hStates⟩
  exact ⟨filled, u', hRun, .same, hStates⟩

/- A `return` is resolved to a `return`. -/
theorem Stmt.gives_ret
    (keyword : Token)
    (value : Option Expr)
    (r : Resolver) :
    (Stmt.ret keyword value).resolve.Gives r
      fun filled _ => ∃ value', filled = .ret keyword value' := by
  cases value with
  | none =>
      rw [Stmt.resolve]
      apply (gives_any _ r).bind
      intro _ u _
      exact gives_pure ⟨none, rfl⟩
  | some value =>
      rw [Stmt.resolve]
      apply (gives_any _ r).bind
      intro _ u _
      apply (gives_any _ u).bind
      intro value _ _
      exact gives_pure ⟨some value, rfl⟩

/-
  All that follows a `return` in its list is deleted. What it
  declares is declared in the innermost scope only.
-/
theorem Stmt.follows_ret
    (keyword : Token)
    (value : Option Expr)
    (after : List Stmt)
    (hSame : r.SameScopes r') :
    Follows Stmt.BodyCuts SameAround
      (Stmt.resolveBody (.ret keyword value :: after))
      (Stmt.resolveBody [.ret keyword value]) r r' := by
  apply gives_iff.mpr
  intro filled w hRun
  rw [Stmt.resolveBody] at hRun
  rcases bind_eq_ok_iff.mp hRun with ⟨first, u, hFirst, hRest⟩
  rcases bind_eq_ok_iff.mp hRest with ⟨others, v, hAfter, hEnd⟩
  cases hEnd
  rcases (Stmt.gives_ret keyword value r).post hFirst with
    ⟨value', rfl⟩
  rcases (Stmt.ignoresRecorded _ r r' hSame).post hFirst with
    ⟨_, u', hFirst', rfl, hStates⟩
  have hAround := (Stmt.body_leaves_around after u).post hAfter
  refine ⟨[.ret keyword value'], u', ?_, .ret others, ?_⟩
  · rw [Stmt.resolveBody, bind_of_ok hFirst']
    rfl
  · constructor
    · rw [hAround.scopes, hStates.scopes]
    · rw [hAround.enclosing, hStates.enclosing]

mutual

/-
  A statement in which code has been deleted resolves, if the
  statement does. By recursion on the statement.
-/
theorem Stmt.follows_cuts
    (s : Stmt)
    {s' : Stmt}
    (hCuts : s.Cuts s')
    {r r' : Resolver}
    (hSame : r.SameScopes r') :
    Follows Stmt.Cuts SameScopes s.resolve s'.resolve r r' := by
  cases s with
  | expression value | print value | var name initializer
  | ret keyword value =>
      cases hCuts
      exact Stmt.follows_same _ hSame
  | block body =>
      cases hCuts with
      | same => exact Stmt.follows_same _ hSame
      | block hBody =>
          rw [Stmt.resolve, Stmt.resolve]
          have hInside :=
            Stmt.bodyFollows_cuts body hBody (hSame.inner)
          apply (Follows.within hInside).bind
          intro filled filled' u u' hFilled hSame'
          exact follows_pure (.block hFilled) hSame'
  | ifThen condition thenBranch =>
      cases hCuts with
      | same => exact Stmt.follows_same _ hSame
      | ifThen hThen =>
          rw [Stmt.resolve, Stmt.resolve]
          apply (condition.ignoresRecorded r r' hSame).bind
          rintro condition _ u u' rfl hSame
          apply (Stmt.follows_cuts thenBranch hThen hSame).bind
          intro filled filled' v v' hFilled hSame
          exact follows_pure (.ifThen hFilled) hSame
  | ifElse condition thenBranch elseBranch =>
      cases hCuts with
      | same => exact Stmt.follows_same _ hSame
      | ifElse hThen hElse =>
          rw [Stmt.resolve, Stmt.resolve]
          apply (condition.ignoresRecorded r r' hSame).bind
          rintro condition _ u u' rfl hSame
          apply (Stmt.follows_cuts thenBranch hThen hSame).bind
          intro thens thens' v v' hThens hSame
          apply (Stmt.follows_cuts elseBranch hElse hSame).bind
          intro elses elses' w w' hElses hSame
          exact follows_pure (.ifElse hThens hElses) hSame
  | loop condition body =>
      cases hCuts with
      | same => exact Stmt.follows_same _ hSame
      | loop hBody =>
          rw [Stmt.resolve, Stmt.resolve]
          apply (condition.ignoresRecorded r r' hSame).bind
          rintro condition _ u u' rfl hSame
          apply (Stmt.follows_cuts body hBody hSame).bind
          intro filled filled' v v' hFilled hSame
          exact follows_pure (.loop hFilled) hSame
  | function name params body =>
      cases hCuts with
      | same => exact Stmt.follows_same _ hSame
      | @function _ _ _ body' hBody =>
          have hSteps := compositional_ignoresRecorded
          rw [Stmt.resolve, Stmt.resolve]
          apply (hSteps.declare name r r' hSame).bind
          intro _ _ u u' _ hSame
          apply (hSteps.define name u u' hSame).bind
          intro _ _ v v' _ hSame
          have hInside :
              Follows Stmt.BodyCuts SameScopes
                (withinFunction (within do
                  declareParams params
                  within (Stmt.resolveBody body)))
                (withinFunction (within do
                  declareParams params
                  within (Stmt.resolveBody body'))) v v' := by
            apply Follows.withinFunction _ hSame
            apply Follows.within
            have hParams := hSteps.declareParams params
            apply (hParams _ _ (hSame.asFunction.inner)).bind
            intro _ _ w w' _ hSame
            apply Follows.around
            apply Follows.within
            exact Stmt.bodyFollows_cuts body hBody hSame.inner
          apply hInside.bind
          intro filled filled' w w' hFilled hSame
          exact follows_pure (.function hFilled) hSame

theorem Stmt.bodyFollows_cuts
    (body : List Stmt)
    {body' : List Stmt}
    (hCuts : Stmt.BodyCuts body body')
    {r r' : Resolver}
    (hSame : r.SameScopes r') :
    Follows Stmt.BodyCuts SameAround (Stmt.resolveBody body)
      (Stmt.resolveBody body') r r' := by
  cases body with
  | nil =>
      cases hCuts
      exact follows_pure .nil hSame.around
  | cons stmt body =>
      cases hCuts with
      | cons hFirst hRest =>
          rw [Stmt.resolveBody, Stmt.resolveBody]
          apply (Stmt.follows_cuts stmt hFirst hSame).bind
          intro filled filled' u u' hFilled hSame
          apply (Stmt.bodyFollows_cuts body hRest hSame).bind
          intro others others' v v' hOthers hAround
          exact follows_pure (.cons hFilled hOthers) hAround
      | ret => exact Stmt.follows_ret _ _ _ hSame

end

/-
  At the top level no statement is deleted, so that the same
  names are declared.
-/
theorem Stmt.follows_program
    {program program' : List Stmt}
    (hCuts : List.Forall₂ Stmt.Cuts program program')
    (hSame : r.SameScopes r') :
    Follows (List.Forall₂ Stmt.Cuts) SameScopes
      (Stmt.resolveBody program) (Stmt.resolveBody program') r
      r' := by
  induction hCuts generalizing r r' with
  | nil => exact follows_pure .nil hSame
  | @cons stmt _ _ _ hFirst _ ih =>
      rw [Stmt.resolveBody, Stmt.resolveBody]
      apply (stmt.follows_cuts hFirst hSame).bind
      intro filled filled' u u' hFilled hSame
      apply (ih hSame).bind
      intro others others' v v' hOthers hSame
      exact follows_pure (.cons hFilled hOthers) hSame

/- Programs in which code has been deleted resolve too. -/
theorem resolveProgram_cuts
    {program program' : List Stmt}
    (hCuts : List.Forall₂ Stmt.Cuts program program')
    {resolved : Resolved}
    (hResolve : resolveProgram program = .ok resolved) :
    ∃ resolved',
      resolveProgram program' = .ok resolved' ∧
      List.Forall₂ Stmt.Cuts resolved.program
        resolved'.program := by
  have hFollows :=
    Stmt.follows_program hCuts (⟨rfl, rfl⟩ : SameScopes {} {})
  rcases exists_run_of_resolveProgram hResolve with ⟨_, hRun, _⟩
  rcases hFollows.post hRun with ⟨filled', u', hRun', hFilled, _⟩
  unfold resolveProgram
  rw [hRun']
  exact ⟨_, rfl, hFilled⟩

end Lox
