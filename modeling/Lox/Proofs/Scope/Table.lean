import Mathlib.Logic.Function.Basic
import Lox.Proofs.Scope.Address
import Lox.Proofs.Scope.Composition

/-
  Numbers of scopes in a table.

  Resolution is repeated here with a table besides the tree:
  each number that is recorded is entered under the address of
  the use that it was found for. A program that is given up at
  an error has no resolved tree, but it has the entries made
  before. Without the table this is resolution as it stands;
  it does the same whatever was recorded and entered before,
  and enters nothing outside of the tree it is given.

  Key definitions include:
    * `Table`
    * `Tabulator`
    * `Expr.tabulate`
    * `Stmt.tabulate`
    * `Tabulation.Tabulates`
    * `Stmt.body_tabulates`
-/

------------------------------------------------------------
-- Tables
------------------------------------------------------------

namespace Lox

/- The number that is entered for a use, by its address. -/
abbrev Table :=
  Address → Option Nat

/- Enters a number, if there is one, over any that was there. -/
def Table.enter
    (table : Table)
    (site : Address) :
    Option Nat → Table
  | none => table
  | some hops => Function.update table site (some hops)

/- A resolver and the table of the numbers it has recorded. -/
structure Tabulator where
  resolver : Resolver := {}
  table : Table := fun _ => none

/- A step of resolution that keeps a table. -/
abbrev Tabulation (α : Type) :=
  EStateM ScopeError Tabulator α

namespace Tabulation

variable {α : Type}

/- A step of resolution as it stands, with nothing entered. -/
def plainly (step : Resolution α) : Tabulation α :=
  fun t =>
    match step t.resolver with
    | .ok a r => .ok a { t with resolver := r }
    | .error e r => .error e { t with resolver := r }

def enter (site : Address) (hops : Option Nat) : Tabulation Unit :=
  fun t => .ok () { t with table := t.table.enter site hops }

/- Finds, records and enters where a name is declared. -/
def locate
    (site : Address)
    (name : Token) :
    Tabulation (Option Nat) := do
  let hops ← plainly (Resolver.locate name)
  enter site hops
  return hops

/-
  A step elsewhere, from where the resolver is taken back
  however the step ends.
-/
def elsewhere
    (there : Resolver → Resolver)
    (back : (before : Resolver) → (after : Resolver) → Resolver)
    (step : Tabulation α) :
    Tabulation α :=
  fun t =>
    match step { t with resolver := there t.resolver } with
    | .ok a u =>
        .ok a { u with resolver := back t.resolver u.resolver }
    | .error e u =>
        .error e { u with resolver := back t.resolver u.resolver }

/- A step in a new innermost scope. -/
def within : Tabulation α → Tabulation α :=
  elsewhere
    (fun r => { r with scopes := [] :: r.scopes })
    (fun _ r => { r with scopes := r.scopes.tail })

/- A step inside a function. -/
def withinFunction : Tabulation α → Tabulation α :=
  elsewhere
    (fun r => { r with enclosing := .function })
    (fun before r => { r with enclosing := before.enclosing })

end Tabulation

end Lox

------------------------------------------------------------
-- Resolution With A Table
------------------------------------------------------------

namespace Lox

open Tabulation

mutual

/- Resolves the expression at an address. -/
def Expr.tabulate : Address → Expr → Tabulation Expr
  | _, .literal value => return .literal value
  | site, .variable name _ => do
    plainly (Resolver.checkReadable name)
    return .variable name (← locate site name)
  | site, .assign name value _ => do
    let value ← value.tabulate (0 :: site)
    return .assign name value (← locate site name)
  | site, .binary left op right => do
    let left ← left.tabulate (0 :: site)
    return .binary left op (← right.tabulate (1 :: site))
  | site, .logical left op right => do
    let left ← left.tabulate (0 :: site)
    return .logical left op (← right.tabulate (1 :: site))
  | site, .unary op operand => do
    return .unary op (← operand.tabulate (0 :: site))
  | site, .grouping inner => do
    return .grouping (← inner.tabulate (0 :: site))
  | site, .call callee paren args => do
    let callee ← callee.tabulate (0 :: site)
    return .call callee paren (← Expr.tabulateArgs site 1 args)

/- Resolves the last operands of the call at an address. -/
def Expr.tabulateArgs :
    Address → (first : Nat) → List Expr → Tabulation (List Expr)
  | _, _, [] => return []
  | site, first, arg :: args => do
    let arg ← arg.tabulate (first :: site)
    return arg :: (← Expr.tabulateArgs site (first + 1) args)

end

mutual

/- Resolves the statement at an address. -/
def Stmt.tabulate : Address → Stmt → Tabulation Stmt
  | site, .expression value => do
    return .expression (← value.tabulate (0 :: site))
  | site, .print value => do
    return .print (← value.tabulate (0 :: site))
  | _, .var name none => do
    plainly (Resolver.declare name)
    plainly (Resolver.define name)
    return .var name none
  | site, .var name (some value) => do
    plainly (Resolver.declare name)
    let value ← value.tabulate (0 :: site)
    plainly (Resolver.define name)
    return .var name (some value)
  | site, .block body =>
      return .block (← within (Stmt.tabulateBody site 0 body))
  | site, .ifThen condition thenBranch => do
    let condition ← condition.tabulate (0 :: site)
    return .ifThen condition (← thenBranch.tabulate (1 :: site))
  | site, .ifElse condition thenBranch elseBranch => do
    let condition ← condition.tabulate (0 :: site)
    let thenBranch ← thenBranch.tabulate (1 :: site)
    return .ifElse condition thenBranch
      (← elseBranch.tabulate (2 :: site))
  | site, .loop condition body => do
    let condition ← condition.tabulate (0 :: site)
    return .loop condition (← body.tabulate (1 :: site))
  | site, .function name params body => do
    plainly (Resolver.declare name)
    plainly (Resolver.define name)
    let body ← withinFunction (within do
      plainly (Resolver.declareParams params)
      within (Stmt.tabulateBody (params.length :: site) 0 body))
    return .function name params body
  | _, .ret keyword none => do
    plainly (Resolver.checkReturn keyword)
    return .ret keyword none
  | site, .ret keyword (some value) => do
    plainly (Resolver.checkReturn keyword)
    return .ret keyword (some (← value.tabulate (0 :: site)))

/- Resolves the last statements in a list at an address. -/
def Stmt.tabulateBody :
    Address → (first : Nat) → List Stmt → Tabulation (List Stmt)
  | _, _, [] => return []
  | site, first, stmt :: body => do
    let stmt ← stmt.tabulate (first :: site)
    return stmt :: (← Stmt.tabulateBody site (first + 1) body)

end

end Lox

------------------------------------------------------------
-- What Was Recorded Before
------------------------------------------------------------

namespace Lox

/- A resolver, if more numbers were recorded before all others. -/
def Resolver.preceded
    (earlier : Array Nat)
    (r : Resolver) :
    Resolver :=
  { r with recorded := earlier ++ r.recorded }

/- A step that does the same whatever was recorded before. -/
def Resolution.IgnoresPast {α : Type} (step : Resolution α) :
    Prop :=
  ∀ (earlier : Array Nat) (r : Resolver),
    step (r.preceded earlier) =
      mapState (.preceded earlier) (step r)

namespace Resolver

variable {earlier : Array Nat}

theorem enter_preceded
    (r : Resolver)
    (name : String)
    (initialized : Bool) :
    (r.preceded earlier).enter name initialized =
      (r.enter name initialized).preceded earlier := by
  rcases r with ⟨scopes, enclosing, recorded⟩
  cases scopes <;> rfl

theorem declare_ignoresPast (name : Token) :
    (declare name).IgnoresPast := by
  intro earlier r
  unfold declare
  rw [enter_preceded, apply_ite (mapState _)]
  rfl

theorem define_ignoresPast (name : Token) :
    (define name).IgnoresPast := by
  intro earlier r
  unfold define
  rw [enter_preceded]
  rfl

theorem checkReadable_ignoresPast (name : Token) :
    (checkReadable name).IgnoresPast := by
  intro earlier r
  unfold checkReadable
  rw [apply_ite (mapState _)]
  rfl

theorem checkReturn_ignoresPast (keyword : Token) :
    (checkReturn keyword).IgnoresPast := by
  rintro earlier ⟨scopes, enclosing, recorded⟩
  cases enclosing <;> rfl

theorem locate_ignoresPast (name : Token) :
    (locate name).IgnoresPast := by
  intro earlier r
  unfold locate
  simp only [preceded]
  cases hopsTo? r.scopes name.lexeme with
  | none => rfl
  | some hops => simp [mapState, preceded]

end Resolver

theorem Resolution.IgnoresPast.bind
    {α β : Type}
    {step : Resolution α}
    {next : α → Resolution β}
    (hStep : step.IgnoresPast)
    (hNext : ∀ a, (next a).IgnoresPast) :
    (step >>= next).IgnoresPast := by
  intro earlier r
  have hHere := hStep earlier r
  cases hRun : step r with
  | ok a u =>
      rw [hRun] at hHere
      rw [bind_of_ok hHere, bind_of_ok hRun]
      exact hNext a earlier u
  | error e u =>
      rw [hRun] at hHere
      rw [bind_of_error hHere, bind_of_error hRun]
      rfl

theorem Resolver.declareParams_ignoresPast (params : List Token) :
    (declareParams params).IgnoresPast := by
  induction params with
  | nil =>
      intro earlier r
      rfl
  | cons param params ih =>
      apply (declare_ignoresPast param).bind
      intro _
      apply (define_ignoresPast param).bind
      intro _
      exact ih

/-
  A tabulator, if what is in an earlier one was recorded and
  entered before.
-/
def Tabulator.followedBy (earlier t : Tabulator) : Tabulator where
  resolver := t.resolver.preceded earlier.resolver.recorded
  table := fun address =>
    (t.table address).or (earlier.table address)

end Lox

------------------------------------------------------------
-- Tabulation Of Plain Steps
------------------------------------------------------------

namespace Lox.Tabulation

variable {α β : Type} {base site : Address}

/-
  A step that keeps a table is another step without it, does
  the same whatever was entered before, and enters numbers
  only for what stands at a given address or within.
-/
structure Tabulates
    (base : Address)
    (step : Tabulation α)
    (plain : Resolution α) :
    Prop where
  erases :
    ∀ t : Tabulator,
      mapState Tabulator.resolver (step t) = plain t.resolver
  ignoresPast :
    ∀ earlier t : Tabulator,
      step (earlier.followedBy t) =
        mapState earlier.followedBy (step t)
  confined :
    ∀ (t : Tabulator) (address : Address),
      ¬ base <:+ address →
        (stateLeft (step t)).table address = t.table address

theorem tabulates_pure (a : α) :
    Tabulates base (pure a) (pure a) where
  erases _ := rfl
  ignoresPast _ _ := rfl
  confined _ _ _ := rfl

theorem tabulates_plainly
    {plain : Resolution α}
    (hPlain : plain.IgnoresPast) :
    Tabulates base (plainly plain) plain where
  erases t := by
    unfold plainly
    cases plain t.resolver <;> rfl
  ignoresPast earlier t := by
    have hHere := hPlain earlier.resolver.recorded t.resolver
    unfold plainly
    simp only [Tabulator.followedBy, hHere]
    cases plain t.resolver <;> rfl
  confined t address _ := by
    unfold plainly
    cases plain t.resolver <;> rfl

theorem tabulates_declare (name : Token) :
    Tabulates base (plainly (Resolver.declare name))
      (Resolver.declare name) :=
  tabulates_plainly (Resolver.declare_ignoresPast name)

theorem tabulates_define (name : Token) :
    Tabulates base (plainly (Resolver.define name))
      (Resolver.define name) :=
  tabulates_plainly (Resolver.define_ignoresPast name)

theorem tabulates_checkReturn (keyword : Token) :
    Tabulates base (plainly (Resolver.checkReturn keyword))
      (Resolver.checkReturn keyword) :=
  tabulates_plainly (Resolver.checkReturn_ignoresPast keyword)

theorem Tabulates.bind
    {step : Tabulation α}
    {next : α → Tabulation β}
    {plain : Resolution α}
    {plainNext : α → Resolution β}
    (hStep : Tabulates base step plain)
    (hNext : ∀ a, Tabulates base (next a) (plainNext a)) :
    Tabulates base (step >>= next) (plain >>= plainNext) where
  erases t := by
    have hHere := hStep.erases t
    cases hRun : step t with
    | ok a u =>
        rw [hRun] at hHere
        rw [bind_of_ok hRun, bind_of_ok hHere.symm]
        exact (hNext a).erases u
    | error e u =>
        rw [hRun] at hHere
        rw [bind_of_error hRun, bind_of_error hHere.symm]
        rfl
  ignoresPast earlier t := by
    have hHere := hStep.ignoresPast earlier t
    cases hRun : step t with
    | ok a u =>
        rw [hRun] at hHere
        rw [bind_of_ok hHere, bind_of_ok hRun]
        exact (hNext a).ignoresPast earlier u
    | error e u =>
        rw [hRun] at hHere
        rw [bind_of_error hHere, bind_of_error hRun]
        rfl
  confined t address hOutside := by
    have hHere := hStep.confined t address hOutside
    cases hRun : step t with
    | ok a u =>
        rw [hRun] at hHere
        rw [bind_of_ok hRun]
        exact ((hNext a).confined u address hOutside).trans hHere
    | error e u =>
        rw [hRun] at hHere
        rw [bind_of_error hRun]
        exact hHere

/-
  Steps elsewhere, where the way there and back is the same
  whatever was recorded.
-/
theorem Tabulates.elsewhere
    {there : Resolver → Resolver}
    {back : Resolver → Resolver → Resolver}
    {step : Tabulation α}
    {plain plainElsewhere : Resolution α}
    (hStep : Tabulates base step plain)
    (hPlain :
      ∀ r, plainElsewhere r =
        mapState (back r) (plain (there r)))
    (hThere :
      ∀ earlier r, there (.preceded earlier r) =
        .preceded earlier (there r))
    (hBack :
      ∀ earlier before after,
        back (.preceded earlier before) (.preceded earlier after) =
          .preceded earlier (back before after)) :
    Tabulates base (elsewhere there back step) plainElsewhere where
  erases t := by
    have hHere := hStep.erases { t with resolver := there t.resolver }
    rw [hPlain, ← hHere]
    unfold Tabulation.elsewhere
    cases step { t with resolver := there t.resolver } <;> rfl
  ignoresPast earlier t := by
    have hHere :=
      hStep.ignoresPast earlier
        { t with resolver := there t.resolver }
    simp only [Tabulator.followedBy, ← hThere] at hHere
    unfold Tabulation.elsewhere
    simp only [Tabulator.followedBy, hHere]
    cases step { t with resolver := there t.resolver } with
    | ok a u => simp [mapState, Tabulator.followedBy, hBack]
    | error e u => simp [mapState, Tabulator.followedBy, hBack]
  confined t address hOutside := by
    have hHere :=
      hStep.confined { t with resolver := there t.resolver } address
        hOutside
    unfold Tabulation.elsewhere
    rw [← hHere]
    cases step { t with resolver := there t.resolver } <;> rfl

theorem Tabulates.within
    {step : Tabulation α}
    {plain : Resolution α}
    (hStep : Tabulates base step plain) :
    Tabulates base (within step) (Resolver.within plain) := by
  refine hStep.elsewhere ?_ (fun _ _ => rfl) (fun _ _ _ => rfl)
  intro r
  unfold Resolver.within
  cases plain { r with scopes := [] :: r.scopes } <;> rfl

theorem Tabulates.withinFunction
    {step : Tabulation α}
    {plain : Resolution α}
    (hStep : Tabulates base step plain) :
    Tabulates base (withinFunction step)
      (Resolver.withinFunction plain) := by
  refine hStep.elsewhere ?_ (fun _ _ => rfl) (fun _ _ _ => rfl)
  intro r
  unfold Resolver.withinFunction
  cases plain { r with enclosing := .function } <;> rfl

theorem tabulates_enter
    (hSite : base <:+ site)
    (hops : Option Nat) :
    Tabulates base (enter site hops) (pure ()) where
  erases t := by cases hops <;> rfl
  ignoresPast earlier t := by
    cases hops with
    | none => rfl
    | some hops =>
        simp only [enter, Table.enter, mapState,
          Tabulator.followedBy]
        congr 2
        funext address
        by_cases hHere : address = site
        · simp [hHere]
        · simp [hHere]
  confined t address hOutside := by
    cases hops with
    | none => rfl
    | some hops =>
        have hOther : address ≠ site := by
          rintro rfl
          exact hOutside hSite
        simp [enter, Table.enter, stateLeft, hOther]

theorem tabulates_locate
    (hSite : base <:+ site)
    (name : Token) :
    Tabulates base (locate site name) (Resolver.locate name) := by
  have hPlain :
      Resolver.locate name =
        Resolver.locate name >>= fun hops =>
          (pure () : Resolution Unit) >>= fun _ => pure hops := by
    simp
  rw [hPlain]
  apply (tabulates_plainly (Resolver.locate_ignoresPast name)).bind
  intro hops
  apply (tabulates_enter hSite hops).bind
  intro _
  exact tabulates_pure hops

end Lox.Tabulation

------------------------------------------------------------
-- Expressions And Statements
------------------------------------------------------------

namespace Lox

open Tabulation

variable {base site : Address}

/- What stands at an address stands within those around it. -/
theorem Address.suffix_part
    (hSite : base <:+ site)
    (index : Nat) :
    base <:+ index :: site :=
  hSite.trans (List.suffix_cons index site)

open Address

mutual

theorem Expr.tabulates
    (e : Expr)
    {site : Address}
    (hSite : base <:+ site) :
    Tabulates base (e.tabulate site) e.resolve := by
  cases e with
  | literal value =>
      rw [Expr.tabulate, Expr.resolve]
      exact tabulates_pure _
  | «variable» name hops =>
      rw [Expr.tabulate, Expr.resolve]
      apply
        (tabulates_plainly
          (Resolver.checkReadable_ignoresPast name)).bind
      intro _
      apply (tabulates_locate hSite name).bind
      intro hops
      exact tabulates_pure _
  | assign name value hops =>
      rw [Expr.tabulate, Expr.resolve]
      apply (value.tabulates (suffix_part hSite 0)).bind
      intro value
      apply (tabulates_locate hSite name).bind
      intro hops
      exact tabulates_pure _
  | binary left op right | logical left op right =>
      rw [Expr.tabulate, Expr.resolve]
      apply (left.tabulates (suffix_part hSite 0)).bind
      intro left
      apply (right.tabulates (suffix_part hSite 1)).bind
      intro right
      exact tabulates_pure _
  | unary op operand | grouping operand =>
      rw [Expr.tabulate, Expr.resolve]
      apply (operand.tabulates (suffix_part hSite 0)).bind
      intro operand
      exact tabulates_pure _
  | call callee paren args =>
      rw [Expr.tabulate, Expr.resolve]
      apply (callee.tabulates (suffix_part hSite 0)).bind
      intro callee
      apply (Expr.args_tabulates args hSite 1).bind
      intro args
      exact tabulates_pure _

theorem Expr.args_tabulates
    (args : List Expr)
    {site : Address}
    (hSite : base <:+ site)
    (first : Nat) :
    Tabulates base (Expr.tabulateArgs site first args)
      (Expr.resolveArgs args) := by
  cases args with
  | nil =>
      rw [Expr.tabulateArgs, Expr.resolveArgs]
      exact tabulates_pure _
  | cons arg args =>
      rw [Expr.tabulateArgs, Expr.resolveArgs]
      apply (arg.tabulates (suffix_part hSite first)).bind
      intro arg
      apply (Expr.args_tabulates args hSite (first + 1)).bind
      intro args
      exact tabulates_pure _

end

mutual

theorem Stmt.tabulates
    (s : Stmt)
    {site : Address}
    (hSite : base <:+ site) :
    Tabulates base (s.tabulate site) s.resolve := by
  cases s with
  | expression value | print value =>
      rw [Stmt.tabulate, Stmt.resolve]
      apply (value.tabulates (suffix_part hSite 0)).bind
      intro value
      exact tabulates_pure _
  | var name initializer =>
      cases initializer with
      | none =>
          rw [Stmt.tabulate, Stmt.resolve]
          apply (tabulates_declare name).bind
          intro _
          apply (tabulates_define name).bind
          intro _
          exact tabulates_pure _
      | some value =>
          rw [Stmt.tabulate, Stmt.resolve]
          apply (tabulates_declare name).bind
          intro _
          apply (value.tabulates (suffix_part hSite 0)).bind
          intro value
          apply (tabulates_define name).bind
          intro _
          exact tabulates_pure _
  | block body =>
      rw [Stmt.tabulate, Stmt.resolve]
      apply (Stmt.body_tabulates body hSite 0).within.bind
      intro body
      exact tabulates_pure _
  | ifThen condition thenBranch =>
      rw [Stmt.tabulate, Stmt.resolve]
      apply (condition.tabulates (suffix_part hSite 0)).bind
      intro condition
      apply (thenBranch.tabulates (suffix_part hSite 1)).bind
      intro thenBranch
      exact tabulates_pure _
  | ifElse condition thenBranch elseBranch =>
      rw [Stmt.tabulate, Stmt.resolve]
      apply (condition.tabulates (suffix_part hSite 0)).bind
      intro condition
      apply (thenBranch.tabulates (suffix_part hSite 1)).bind
      intro thenBranch
      apply (elseBranch.tabulates (suffix_part hSite 2)).bind
      intro elseBranch
      exact tabulates_pure _
  | loop condition body =>
      rw [Stmt.tabulate, Stmt.resolve]
      apply (condition.tabulates (suffix_part hSite 0)).bind
      intro condition
      apply (body.tabulates (suffix_part hSite 1)).bind
      intro body
      exact tabulates_pure _
  | function name params body =>
      have hBody :=
        Stmt.body_tabulates body
          (suffix_part hSite params.length) 0
      rw [Stmt.tabulate, Stmt.resolve]
      apply (tabulates_declare name).bind
      intro _
      apply (tabulates_define name).bind
      intro _
      refine Tabulates.bind ?_ fun body => tabulates_pure _
      apply Tabulates.withinFunction
      apply Tabulates.within
      apply
        (tabulates_plainly
          (Resolver.declareParams_ignoresPast params)).bind
      intro _
      exact hBody.within
  | ret keyword value =>
      cases value with
      | none =>
          rw [Stmt.tabulate, Stmt.resolve]
          apply (tabulates_checkReturn keyword).bind
          intro _
          exact tabulates_pure _
      | some value =>
          rw [Stmt.tabulate, Stmt.resolve]
          apply (tabulates_checkReturn keyword).bind
          intro _
          apply (value.tabulates (suffix_part hSite 0)).bind
          intro value
          exact tabulates_pure _

theorem Stmt.body_tabulates
    (body : List Stmt)
    {site : Address}
    (hSite : base <:+ site)
    (first : Nat) :
    Tabulates base (Stmt.tabulateBody site first body)
      (Stmt.resolveBody body) := by
  cases body with
  | nil =>
      rw [Stmt.tabulateBody, Stmt.resolveBody]
      exact tabulates_pure _
  | cons stmt body =>
      rw [Stmt.tabulateBody, Stmt.resolveBody]
      apply (stmt.tabulates (suffix_part hSite first)).bind
      intro stmt
      apply (Stmt.body_tabulates body hSite (first + 1)).bind
      intro body
      exact tabulates_pure _

end

end Lox
