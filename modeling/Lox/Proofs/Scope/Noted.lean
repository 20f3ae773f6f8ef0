import Mathlib.Data.List.Forall2
import Lox.Proofs.Scope.Notes

/-
  What is true of every tree that the resolver gives.

  `Noted` relates a resolved node to its notes: the scopes in
  the notes are those around the node, and a number of scopes
  leads to one that declares the name. A reading leads to a
  name whose initializer has been passed; only the innermost
  scope can have a name of which this is not true. `Gives`
  says what is true of the result of a step of resolution.

  Key definitions include:
    * `Scope.IsSettled`
    * `enterScope`
    * `Expr.Noted`
    * `Stmt.Noted`
    * `Resolution.Gives`
-/

------------------------------------------------------------
-- Scopes
------------------------------------------------------------

namespace Lox

/- Every name of the scope has its initializer passed. -/
def Scope.IsSettled (scope : Scope) : Prop :=
  ∀ name : String, scope.isPending name = false

/- The scopes with an entry added to the innermost one. -/
def enterScope :
    List Scope → String → (initialized : Bool) → List Scope
  | [], _, _ => []
  | scope :: scopes, name, initialized =>
      ((name, initialized) :: scope) :: scopes

/- The scopes once a declared name has been initialized. -/
def declareScope
    (scopes : List Scope)
    (name : String) :
    List Scope :=
  enterScope (enterScope scopes name false) name true

namespace Scope

theorem lookup_eq_true_of_settled
    {scope : Scope}
    {name : String}
    (hSettled : scope.isPending name = false)
    (hDeclares : scope.declares name) :
    scope.lookup name = some true := by
  unfold isPending at hSettled
  unfold declares at hDeclares
  rcases Option.isSome_iff_exists.mp hDeclares with ⟨b, hLookup⟩
  cases b with
  | true => exact hLookup
  | false => simp [hLookup] at hSettled

theorem isSettled_nil : IsSettled [] := by
  intro name
  rfl

/- A name that has been initialized is no longer pending. -/
theorem IsSettled.declare
    {scope : Scope}
    (hSettled : scope.IsSettled)
    (name : String) :
    IsSettled ((name, true) :: (name, false) :: scope) := by
  intro other
  have hOther := hSettled other
  unfold isPending at hOther ⊢
  by_cases hSame : other = name
  · simp [hSame]
  · have hNe : (other == name) = false := by simpa using hSame
    simpa only [List.lookup_cons, hNe] using hOther

end Scope

/- Every scope is settled. -/
def ScopesSettled (scopes : List Scope) : Prop :=
  ∀ scope ∈ scopes, scope.IsSettled

theorem ScopesSettled.tail
    {scopes : List Scope}
    (hSettled : ScopesSettled scopes) :
    ScopesSettled scopes.tail :=
  fun scope hMem => hSettled scope (List.mem_of_mem_tail hMem)

theorem ScopesSettled.inner
    {scopes : List Scope}
    (hSettled : ScopesSettled scopes) :
    ScopesSettled ([] :: scopes) := by
  intro scope hMem
  rcases List.mem_cons.mp hMem with rfl | hMem
  · exact Scope.isSettled_nil
  · exact hSettled scope hMem

theorem ScopesSettled.declare
    {scopes : List Scope}
    (hSettled : ScopesSettled scopes)
    (name : String) :
    ScopesSettled (declareScope scopes name) := by
  cases scopes with
  | nil => exact hSettled
  | cons scope scopes =>
      intro other hMem
      rcases List.mem_cons.mp hMem with rfl | hMem
      · exact (hSettled scope (by simp)).declare name
      · exact hSettled other (List.mem_cons_of_mem _ hMem)

@[simp] theorem tail_enterScope
    (scopes : List Scope)
    (name : String)
    (initialized : Bool) :
    (enterScope scopes name initialized).tail = scopes.tail := by
  cases scopes <;> rfl

@[simp] theorem tail_declareScope
    (scopes : List Scope)
    (name : String) :
    (declareScope scopes name).tail = scopes.tail := by
  simp [declareScope]

@[simp] theorem length_enterScope
    (scopes : List Scope)
    (name : String)
    (initialized : Bool) :
    (enterScope scopes name initialized).length =
      scopes.length := by
  cases scopes <;> rfl

@[simp] theorem length_declareScope
    (scopes : List Scope)
    (name : String) :
    (declareScope scopes name).length = scopes.length := by
  simp [declareScope]

end Lox

------------------------------------------------------------
-- Noted Trees
------------------------------------------------------------

namespace Lox

/-
  A number of scopes leads to a scope that declares the name
  and has its initializer passed.
-/
def LeadsToValue
    (scopes : List Scope)
    (name : Token)
    (hops : Option Nat) :
    Prop :=
  ∀ distance, hops = some distance →
    ∃ scope, scopes[distance]? = some scope ∧
      scope.lookup name.lexeme = some true

/- A number of scopes leads to one of the scopes. -/
def LeadsToScope
    (scopes : List Scope)
    (hops : Option Nat) :
    Prop :=
  ∀ distance, hops = some distance → distance < scopes.length

/- The innermost scope, if there is one, lacks the name. -/
def IsNewIn (scopes : List Scope) (name : String) : Prop :=
  ∀ scope ∈ scopes.head?, scope.declares name = false

/- A resolved expression, the scopes around it, and its notes. -/
inductive Expr.Noted (scopes : List Scope) :
    Expr → Notes → Prop where
  | literal {value : Literal} :
      Noted scopes (.literal value) (.node scopes [])
  | name
      {name : Token} {hops : Option Nat}
      (hHops : LeadsToValue scopes name hops) :
      Noted scopes (.variable name hops) (.node scopes [])
  | assign
      {name : Token} {hops : Option Nat}
      {value : Expr} {notes : Notes}
      (hValue : Noted scopes value notes)
      (hHops : LeadsToScope scopes hops) :
      Noted scopes (.assign name value hops)
        (.node scopes [notes])
  | binary
      {op : Token} {left right : Expr} {lefts rights : Notes}
      (hLeft : Noted scopes left lefts)
      (hRight : Noted scopes right rights) :
      Noted scopes (.binary left op right)
        (.node scopes [lefts, rights])
  | logical
      {op : Token} {left right : Expr} {lefts rights : Notes}
      (hLeft : Noted scopes left lefts)
      (hRight : Noted scopes right rights) :
      Noted scopes (.logical left op right)
        (.node scopes [lefts, rights])
  | unary
      {op : Token} {operand : Expr} {notes : Notes}
      (hOperand : Noted scopes operand notes) :
      Noted scopes (.unary op operand) (.node scopes [notes])
  | grouping
      {inner : Expr} {notes : Notes}
      (hInner : Noted scopes inner notes) :
      Noted scopes (.grouping inner) (.node scopes [notes])
  | call
      {callee : Expr} {paren : Token} {args : List Expr}
      {notes : Notes} {others : List Notes}
      (hCallee : Noted scopes callee notes)
      (hArgs : List.Forall₂ (Noted scopes) args others) :
      Noted scopes (.call callee paren args)
        (.node scopes (notes :: others))

mutual

/-
  A resolved statement, the scopes before it, its notes, and
  the scopes after it.
-/
inductive Stmt.Noted :
    List Scope → Stmt → Notes → List Scope → Prop where
  | expression
      {scopes : List Scope} {value : Expr} {notes : Notes}
      (hValue : value.Noted scopes notes) :
      Noted scopes (.expression value) (.node scopes [notes])
        scopes
  | print
      {scopes : List Scope} {value : Expr} {notes : Notes}
      (hValue : value.Noted scopes notes) :
      Noted scopes (.print value) (.node scopes [notes]) scopes
  | plain
      {scopes : List Scope} {name : Token}
      (hNew : IsNewIn scopes name.lexeme) :
      Noted scopes (.var name none) (.node scopes [])
        (declareScope scopes name.lexeme)
  | initialized
      {scopes : List Scope} {name : Token}
      {value : Expr} {notes : Notes}
      (hNew : IsNewIn scopes name.lexeme)
      (hValue :
        value.Noted (enterScope scopes name.lexeme false)
          notes) :
      Noted scopes (.var name (some value))
        (.node scopes [notes])
        (declareScope scopes name.lexeme)
  | block
      {scopes : List Scope}
      {body : List Stmt} {notes : List Notes}
      (hBody : BodyNoted ([] :: scopes) body notes) :
      Noted scopes (.block body) (.node scopes notes) scopes
  | ifThen
      {scopes : List Scope}
      {condition : Expr} {thenBranch : Stmt}
      {notes thens : Notes}
      (hCondition : condition.Noted scopes notes)
      (hThen : Noted scopes thenBranch thens scopes) :
      Noted scopes (.ifThen condition thenBranch)
        (.node scopes [notes, thens]) scopes
  | ifElse
      {scopes : List Scope}
      {condition : Expr} {thenBranch elseBranch : Stmt}
      {notes thens elses : Notes}
      (hCondition : condition.Noted scopes notes)
      (hThen : Noted scopes thenBranch thens scopes)
      (hElse : Noted scopes elseBranch elses scopes) :
      Noted scopes (.ifElse condition thenBranch elseBranch)
        (.node scopes [notes, thens, elses]) scopes
  | loop
      {scopes : List Scope}
      {condition : Expr} {body : Stmt}
      {notes others : Notes}
      (hCondition : condition.Noted scopes notes)
      (hBody : Noted scopes body others scopes) :
      Noted scopes (.loop condition body)
        (.node scopes [notes, others]) scopes
  | function
      {scopes : List Scope} {scope : Scope}
      {name : Token} {params : List Token}
      {body : List Stmt} {notes : List Notes}
      (hNew : IsNewIn scopes name.lexeme)
      (hParams :
        ∀ param, scope.lookup param = some true →
          ∃ token ∈ params, token.lexeme = param)
      (hBody :
        BodyNoted
          ([] :: scope :: declareScope scopes name.lexeme) body
          notes) :
      Noted scopes (.function name params body)
        (.node scopes notes)
        (declareScope scopes name.lexeme)
  | plainRet
      {scopes : List Scope} {keyword : Token} :
      Noted scopes (.ret keyword none) (.node scopes []) scopes
  | ret
      {scopes : List Scope} {keyword : Token}
      {value : Expr} {notes : Notes}
      (hValue : value.Noted scopes notes) :
      Noted scopes (.ret keyword (some value))
        (.node scopes [notes]) scopes

/- Resolved statements one after another, with their notes. -/
inductive Stmt.BodyNoted :
    List Scope → List Stmt → List Notes → Prop where
  | nil {scopes : List Scope} : BodyNoted scopes [] []
  | cons
      {scopes next : List Scope}
      {stmt : Stmt} {body : List Stmt}
      {notes : Notes} {others : List Notes}
      (hFirst : Stmt.Noted scopes stmt notes next)
      (hRest : BodyNoted next body others) :
      BodyNoted scopes (stmt :: body) (notes :: others)

end

end Lox

------------------------------------------------------------
-- Steps Of Resolution
------------------------------------------------------------

namespace Lox.Resolver

variable {r r' : Resolver}

/- The scope that is entered has been left again. -/
theorem within_eq_ok
    {α : Type}
    {step : Resolution α}
    {a : α}
    (hRun : within step r = .ok a r') :
    ∃ u, step { r with scopes := [] :: r.scopes } = .ok a u ∧
      r' = { u with scopes := u.scopes.tail } := by
  unfold within at hRun
  split at hRun
  · rename_i u hStep
    cases hRun
    exact ⟨u, hStep, rfl⟩
  · cases hRun

theorem withinFunction_eq_ok
    {α : Type}
    {step : Resolution α}
    {a : α}
    (hRun : withinFunction step r = .ok a r') :
    ∃ u, step { r with enclosing := .function } = .ok a u ∧
      r' = { u with enclosing := r.enclosing } := by
  unfold withinFunction at hRun
  simp only at hRun
  split at hRun
  · rename_i u hStep
    cases hRun
    exact ⟨u, hStep, rfl⟩
  · cases hRun

end Lox.Resolver

namespace Lox.Resolution

open Resolver

variable {α β : Type} {r : Resolver}

/- What is true of the result of a step, if it has one. -/
def Gives
    (step : Resolution α)
    (r : Resolver)
    (Post : α → Resolver → Prop) :
    Prop :=
  match step r with
  | .ok a r' => Post a r'
  | .error _ _ => True

variable {x : Resolution α} {f : α → Resolution β}
variable {P : α → Resolver → Prop} {Q : β → Resolver → Prop}

theorem gives_iff :
    x.Gives r P ↔ ∀ a r', x r = .ok a r' → P a r' := by
  unfold Gives
  cases x r with
  | ok a u =>
      constructor
      · intro hPost b r' hSame
        cases hSame
        exact hPost
      · intro hAll
        exact hAll a u rfl
  | error e u => simp

theorem Gives.post
    {a : α}
    {r' : Resolver}
    (hGives : x.Gives r P)
    (hRun : x r = .ok a r') :
    P a r' :=
  gives_iff.mp hGives a r' hRun

theorem Gives.bind
    (hFirst : x.Gives r P)
    (hNext : ∀ a u, P a u → (f a).Gives u Q) :
    (x >>= f).Gives r Q := by
  apply gives_iff.mpr
  intro b r' hRun
  rcases bind_eq_ok_iff.mp hRun with ⟨a, u, hHere, hRest⟩
  exact (hNext a u (hFirst.post hHere)).post hRest

theorem Gives.mono
    {P' : α → Resolver → Prop}
    (hGives : x.Gives r P)
    (hMono : ∀ a r', P a r' → P' a r') :
    x.Gives r P' :=
  gives_iff.mpr fun a r' hRun => hMono a r' (hGives.post hRun)

theorem gives_pure
    {a : α}
    (hPost : P a r) :
    (pure a : Resolution α).Gives r P :=
  hPost

theorem gives_any (x : Resolution α) (r : Resolver) :
    x.Gives r fun _ _ => True :=
  gives_iff.mpr fun _ _ _ => trivial

theorem Gives.noting
    {step : Resolution (α × List Notes)}
    {Post : α × Notes → Resolver → Prop}
    (hStep :
      step.Gives r fun result r' =>
        Post (result.1, .node r.scopes result.2) r') :
    (noting step).Gives r Post := by
  have hHere : scopesHere.Gives r fun scopes u =>
      scopes = r.scopes ∧ u = r := ⟨rfl, rfl⟩
  apply hHere.bind
  rintro _ _ ⟨rfl, rfl⟩
  apply hStep.bind
  intro result u hPost
  exact gives_pure hPost

theorem Gives.within
    (hStep :
      x.Gives { r with scopes := [] :: r.scopes } fun a u =>
        P a { u with scopes := u.scopes.tail }) :
    (within x).Gives r P := by
  apply gives_iff.mpr
  intro a r' hRun
  rcases within_eq_ok hRun with ⟨u, hInner, rfl⟩
  exact hStep.post hInner

theorem Gives.withinFunction
    (hStep :
      x.Gives { r with enclosing := .function } fun a u =>
        P a { u with enclosing := r.enclosing }) :
    (withinFunction x).Gives r P := by
  apply gives_iff.mpr
  intro a r' hRun
  rcases withinFunction_eq_ok hRun with ⟨u, hInner, rfl⟩
  exact hStep.post hInner

end Lox.Resolution

namespace Lox.Resolver

open Resolution

variable {r : Resolver}

theorem scopes_enter
    (r : Resolver)
    (name : String)
    (initialized : Bool) :
    (r.enter name initialized).scopes =
      enterScope r.scopes name initialized := by
  unfold enter enterScope
  cases hScopes : r.scopes <;> simp [hScopes]

theorem gives_declare (name : Token) :
    (declare name).Gives r fun _ u =>
      u = r.enter name.lexeme false ∧
        IsNewIn r.scopes name.lexeme := by
  apply gives_iff.mpr
  intro _ u hRun
  unfold declare at hRun
  by_cases hOld : r.scopes.head?.any (·.declares name.lexeme)
  · rw [if_pos hOld] at hRun
    cases hRun
  · rw [if_neg hOld] at hRun
    cases hRun
    refine ⟨rfl, ?_⟩
    intro scope hMem
    simpa [Option.mem_def.mp hMem] using hOld

theorem gives_define (name : Token) :
    (define name).Gives r fun _ u =>
      u = r.enter name.lexeme true :=
  rfl

theorem gives_checkReadable (name : Token) :
    (checkReadable name).Gives r fun _ u =>
      u = r ∧
        ∀ scope ∈ r.scopes.head?,
          scope.isPending name.lexeme = false := by
  apply gives_iff.mpr
  intro _ u hRun
  unfold checkReadable at hRun
  by_cases hPending :
    r.scopes.head?.any (·.isPending name.lexeme)
  · rw [if_pos hPending] at hRun
    cases hRun
  · rw [if_neg hPending] at hRun
    cases hRun
    refine ⟨rfl, ?_⟩
    intro scope hMem
    simpa [Option.mem_def.mp hMem] using hPending

theorem gives_checkReturn (keyword : Token) :
    (checkReturn keyword).Gives r fun _ u => u = r := by
  apply gives_iff.mpr
  intro _ u hRun
  unfold checkReturn at hRun
  split at hRun
  · cases hRun
  · cases hRun
    rfl

theorem gives_locate (name : Token) :
    (locate name).Gives r fun hops u =>
      hops = hopsTo? r.scopes name.lexeme ∧
        u.scopes = r.scopes := by
  apply gives_iff.mpr
  intro hops u hRun
  unfold locate at hRun
  split at hRun
  · rename_i hNone
    cases hRun
    exact ⟨hNone.symm, rfl⟩
  · rename_i hSome
    cases hRun
    exact ⟨hSome.symm, rfl⟩

/- The number of scopes found leads to a declaration. -/
theorem hopsTo?_eq_some
    {scopes : List Scope}
    {name : String}
    {distance : Nat}
    (hHops : hopsTo? scopes name = some distance) :
    ∃ scope, scopes[distance]? = some scope ∧
      scope.declares name := by
  unfold hopsTo? at hHops
  rcases List.findIdx?_eq_some_iff_getElem.mp hHops with
    ⟨hLength, hDeclares, _⟩
  exact
    ⟨scopes[distance], List.getElem?_eq_getElem hLength,
      hDeclares⟩

theorem leadsToScope_hopsTo?
    (scopes : List Scope)
    (name : String) :
    LeadsToScope scopes (hopsTo? scopes name) := by
  intro distance hHops
  rcases hopsTo?_eq_some hHops with ⟨scope, hScope, _⟩
  exact (List.getElem?_eq_some_iff.mp hScope).1

/-
  A name that can be read is initialized where it is found:
  in the innermost scope this was checked, and all others are
  settled.
-/
theorem leadsToValue_hopsTo?
    {scopes : List Scope}
    {name : Token}
    (hTail : ScopesSettled scopes.tail)
    (hReadable :
      ∀ scope ∈ scopes.head?,
        scope.isPending name.lexeme = false) :
    LeadsToValue scopes name (hopsTo? scopes name.lexeme) := by
  intro distance hHops
  rcases hopsTo?_eq_some hHops with ⟨scope, hScope, hDeclares⟩
  refine ⟨scope, hScope, ?_⟩
  apply Scope.lookup_eq_true_of_settled _ hDeclares
  cases scopes with
  | nil => simp at hScope
  | cons first scopes =>
      cases distance with
      | zero =>
          have hSame : first = scope := by simpa using hScope
          exact hReadable scope (by simp [hSame])
      | succ distance =>
          have hMem : scope ∈ scopes :=
            List.mem_of_getElem? (by simpa using hScope)
          exact hTail scope hMem name.lexeme

end Lox.Resolver
