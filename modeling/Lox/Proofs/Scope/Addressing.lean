import Lox.Proofs.Scope.Bare
import Lox.Proofs.Scope.Entries

/-
  The resolver finds what the tree says.

  The resolver is followed from address to address. Where it
  ends well, no rule of scopes is broken and every use has the
  number of scopes to the nearest declaration before it. Where
  it stops, it blames the first place in the text that breaks
  a rule.

  Key definitions include:
    * `Resolution.Meets`
    * `Expr.meets`, `Stmt.meets`
    * `resolveProgram_locates`
    * `resolveProgram_error_iff`
-/

------------------------------------------------------------
-- Steps
------------------------------------------------------------

namespace Lox.Resolution

open Resolver Node

variable {α β : Type} {root : Node} {r : Resolver}

/-
  What is true of the result of a step, if it has one; if it
  has none, the first broken rule of the tree is blamed.
-/
def Meets
    (step : Resolution α)
    (root : Node)
    (r : Resolver)
    (Post : α → Resolver → Prop) :
    Prop :=
  match step r with
  | .ok a u => Post a u
  | .error e _ => ∃ address, root.FirstViolates address e

variable {x : Resolution α} {f : α → Resolution β}
variable {P : α → Resolver → Prop} {Q : β → Resolver → Prop}

theorem Meets.bind
    (hFirst : x.Meets root r P)
    (hNext : ∀ a u, P a u → (f a).Meets root u Q) :
    (x >>= f).Meets root r Q := by
  unfold Meets at hFirst ⊢
  cases hRun : x r with
  | ok a u =>
      rw [hRun] at hFirst
      rw [bind_of_ok hRun]
      exact hNext a u hFirst
  | error e u =>
      rw [hRun] at hFirst
      rw [bind_of_error hRun]
      exact hFirst

theorem Meets.mono
    {P' : α → Resolver → Prop}
    (hMeets : x.Meets root r P)
    (hMono : ∀ a u, P a u → P' a u) :
    x.Meets root r P' := by
  unfold Meets at hMeets ⊢
  cases hRun : x r with
  | ok a u =>
      rw [hRun] at hMeets
      exact hMono a u hMeets
  | error e u =>
      rw [hRun] at hMeets
      exact hMeets

theorem meets_pure
    {a : α}
    (hPost : P a r) :
    (pure a : Resolution α).Meets root r P :=
  hPost

theorem Meets.within
    (hStep :
      x.Meets root { r with scopes := [] :: r.scopes } fun a u =>
        P a { u with scopes := u.scopes.tail }) :
    (within x).Meets root r P := by
  unfold Meets at hStep ⊢
  unfold Resolver.within
  cases hRun : x { r with scopes := [] :: r.scopes } <;>
    simpa only [hRun] using hStep

theorem Meets.withinFunction
    (hStep :
      x.Meets root { r with enclosing := .function } fun a u =>
        P a { u with enclosing := r.enclosing }) :
    (withinFunction x).Meets root r P := by
  unfold Meets at hStep ⊢
  unfold Resolver.withinFunction
  cases hRun : x { r with enclosing := .function } <;>
    simpa only [hRun] using hStep

end Lox.Resolution

------------------------------------------------------------
-- Checks
------------------------------------------------------------

namespace Lox.Node

variable {root node : Node} {address : Address}
variable {scopes : List Scope} {enclosing : FunctionKind}
variable {e : ScopeError} {token : Token}

/- The innermost scope is described by the nearest one around. -/
theorem Reached.head
    (hReached : root.Reached address scopes enclosing) :
    scopes.head? = none ∧
        (root.scopesAround address).head? = none ∨
      ∃ scope outer,
        scopes.head? = some scope ∧
          (root.scopesAround address).head? = some outer ∧
            root.Describes address outer scope := by
  have hScopes := hReached.scopes
  cases hAround : root.scopesAround address with
  | nil =>
      rw [hAround] at hScopes
      cases hScopes
      exact .inl ⟨rfl, rfl⟩
  | cons outer others =>
      rw [hAround] at hScopes
      cases hScopes with
      | cons hFirst _ => exact .inr ⟨_, outer, rfl, rfl, hFirst⟩

/- A declaration breaks a rule by another one before it. -/
theorem Violates.twice
    (hViolates : root.Violates address e)
    (hNode : root.at? address = some node)
    (hDeclared : node.declared? = some token) :
    ∃ outer site,
      (root.scopesAround address).head? = some outer ∧
        root.DeclaredIn outer token.lexeme site ∧
          site.Precedes address := by
  cases hViolates with
  | returnOutsideFunction hHere _ =>
      rw [hNode] at hHere
      cases hHere
      cases hDeclared
  | alreadyDeclared hHere hName hScope hFirst hBefore =>
      rw [hNode] at hHere
      cases hHere
      rw [hDeclared] at hName
      cases hName
      exact ⟨_, _, hScope, hFirst, hBefore⟩
  | readsItself hHere _ _ =>
      rw [hNode] at hHere
      cases hHere
      cases hDeclared

/- A reading breaks one in the initializer of its name. -/
theorem Violates.selfRead
    {hops : Option Nat}
    (hViolates : root.Violates address e)
    (hNode :
      root.at? address = some (.expr (.variable token hops))) :
    ∃ outer site,
      root.DeclaredIn outer token.lexeme site ∧
        root.Initializes site address := by
  cases hViolates with
  | returnOutsideFunction hHere _ =>
      rw [hNode] at hHere
      cases hHere
  | alreadyDeclared hHere hName _ _ _ =>
      rw [hNode] at hHere
      cases hHere
      cases hName
  | readsItself hHere hDeclared hInside =>
      rw [hNode] at hHere
      cases hHere
      exact ⟨_, _, hDeclared, hInside⟩

/- A return breaks one outside of functions. -/
theorem Violates.outside
    {keyword : Token} {value : Option Expr}
    (hViolates : root.Violates address e)
    (hNode :
      root.at? address = some (.stmt (.ret keyword value))) :
    root.inFunction address = false := by
  cases hViolates with
  | returnOutsideFunction _ hOutside => exact hOutside
  | alreadyDeclared hHere hName _ _ _ =>
      rw [hNode] at hHere
      cases hHere
      cases hName
  | readsItself hHere _ _ =>
      rw [hNode] at hHere
      cases hHere

end Lox.Node

namespace Lox.Resolver

open Resolution Node

variable {root node : Node} {address : Address} {r : Resolver}
variable {token : Token}

theorem meets_declare
    (hReached : root.Reached address r.scopes r.enclosing)
    (hNode : root.at? address = some node)
    (hDeclared : node.declared? = some token) :
    (declare token).Meets root r fun _ u =>
      u = r.enter token.lexeme false ∧
        ∀ e, ¬ root.Violates address e := by
  unfold Meets declare
  rcases hReached.head with
    ⟨hNone, hNoScope⟩ | ⟨scope, outer, hScope, hOuter, hDescribes⟩
  · rw [hNone]
    refine ⟨rfl, ?_⟩
    intro e hViolates
    rcases hViolates.twice hNode hDeclared with ⟨outer, _, hOuter, _⟩
    rw [hNoScope] at hOuter
    cases hOuter
  · rw [hScope, Option.any_some]
    by_cases hOld : scope.declares token.lexeme
    · rw [if_pos hOld]
      rcases (hDescribes.declares _).mp hOld with
        ⟨site, hSite, hBefore⟩
      exact
        ⟨address,
          .alreadyDeclared hNode hDeclared hOuter hSite hBefore,
          hReached.clean⟩
    · rw [if_neg hOld]
      refine ⟨rfl, ?_⟩
      intro e hViolates
      rcases hViolates.twice hNode hDeclared with
        ⟨other, site, hOther, hSite, hBefore⟩
      rw [hOuter] at hOther
      cases hOther
      exact
        hOld ((hDescribes.declares _).mpr ⟨site, hSite, hBefore⟩)

theorem meets_define (token : Token) :
    (define token).Meets root r fun _ u =>
      u = r.enter token.lexeme true :=
  rfl

theorem meets_checkReadable
    {hops : Option Nat}
    (hReached : root.Reached address r.scopes r.enclosing)
    (hNode :
      root.at? address = some (.expr (.variable token hops))) :
    (checkReadable token).Meets root r fun _ u =>
      u = r ∧ ∀ e, ¬ root.Violates address e := by
  -- The variable in whose initializer the name is read is one
  -- of the innermost scope, as an expression opens none.
  have hScopeOf :
      ∀ {outer site}, root.DeclaredIn outer token.lexeme site →
        root.Initializes site address →
          (root.scopesAround address).head? = some outer := by
    intro outer site hSite hInside
    rcases hInside.initialized with ⟨declared, hHere, hInitialized⟩
    have hSame :=
      (within_initializer hHere hInitialized hNode
        hInside.within).2
    rw [hSame]
    exact hSite.scope
  unfold Meets checkReadable
  rcases hReached.head with
    ⟨hNone, hNoScope⟩ | ⟨scope, outer, hScope, hOuter, hDescribes⟩
  · rw [hNone]
    refine ⟨rfl, ?_⟩
    intro e hViolates
    rcases hViolates.selfRead hNode with
      ⟨outer, site, hSite, hInside⟩
    have hOuter := hScopeOf hSite hInside
    rw [hNoScope] at hOuter
    cases hOuter
  · rw [hScope, Option.any_some]
    by_cases hPending : scope.isPending token.lexeme
    · rw [if_pos hPending]
      rcases (hDescribes.pending _).mp hPending with
        ⟨site, hSite, hInside⟩
      exact
        ⟨address, .readsItself hNode hSite hInside,
          hReached.clean⟩
    · rw [if_neg hPending]
      refine ⟨rfl, ?_⟩
      intro e hViolates
      rcases hViolates.selfRead hNode with
        ⟨other, site, hSite, hInside⟩
      have hOther := hScopeOf hSite hInside
      rw [hOuter] at hOther
      cases hOther
      exact
        hPending ((hDescribes.pending _).mpr ⟨site, hSite, hInside⟩)

theorem meets_checkReturn
    {value : Option Expr}
    (hReached : root.Reached address r.scopes r.enclosing)
    (hNode :
      root.at? address = some (.stmt (.ret token value))) :
    (checkReturn token).Meets root r fun _ u =>
      u = r ∧ ∀ e, ¬ root.Violates address e := by
  unfold Meets checkReturn
  have hInside := hReached.enclosing
  cases hKind : r.enclosing with
  | none =>
      rw [hKind] at hInside
      have hOutside : root.inFunction address = false := by
        simpa using hInside
      exact
        ⟨address, .returnOutsideFunction hNode hOutside,
          hReached.clean⟩
  | function =>
      rw [hKind] at hInside
      refine ⟨rfl, ?_⟩
      intro e hViolates
      have hOutside := hViolates.outside hNode
      rw [hInside.mp rfl] at hOutside
      cases hOutside

theorem meets_locate (token : Token) :
    (locate token).Meets root r fun hops u =>
      hops = hopsTo? r.scopes token.lexeme ∧
        u.scopes = r.scopes ∧ u.enclosing = r.enclosing ∧
          u.recorded.size =
            r.recorded.size + if hops.isSome then 1 else 0 := by
  unfold Meets locate
  cases hHops : hopsTo? r.scopes token.lexeme with
  | none => exact ⟨rfl, rfl, rfl, rfl⟩
  | some hops => exact ⟨rfl, rfl, rfl, Array.size_push hops⟩

end Lox.Resolver

------------------------------------------------------------
-- Expressions
------------------------------------------------------------

namespace Lox

open Resolver Resolution Node

variable {root node part : Node} {address : Address}

theorem Node.at?_part
    {index : Nat}
    (hNode : root.at? address = some node)
    (hPart : node.parts[index]? = some part) :
    root.at? (index :: address) = some part := by
  rw [at?, hNode, Option.bind_some, hPart]

/- Nodes stand at an address side by side, from an index on. -/
def Node.Holds
    (root : Node)
    (address : Address)
    (first : Nat)
    (nodes : List Node) :
    Prop :=
  ∀ index node, nodes[index]? = some node →
    root.at? ((first + index) :: address) = some node

theorem Node.Holds.head
    {first : Nat}
    {nodes : List Node}
    (hHolds : root.Holds address first (node :: nodes)) :
    root.at? (first :: address) = some node :=
  hHolds 0 node rfl

theorem Node.Holds.tail
    {first : Nat}
    {nodes : List Node}
    (hHolds : root.Holds address first (node :: nodes)) :
    root.Holds address (first + 1) nodes := by
  intro index other hIndex
  rw [Nat.add_right_comm, Nat.add_assoc]
  exact hHolds (index + 1) other hIndex

theorem Node.holds_parts
    {nodes : List Node}
    (earlier later : List Node)
    (hNode : root.at? address = some node)
    (hParts : node.parts = earlier ++ nodes ++ later) :
    root.Holds address earlier.length nodes := by
  intro index other hIndex
  have hLess := (List.getElem?_eq_some_iff.mp hIndex).1
  apply at?_part hNode
  rw [hParts, List.append_assoc,
    List.getElem?_append_right (Nat.le_add_right _ _),
    Nat.add_sub_cancel_left, List.getElem?_append_left hLess,
    hIndex]

/- An expression that uses no name itself is walked. -/
theorem Node.WalkedParts.walkedExpr
    {e e' : Expr}
    {r u : Resolver}
    (hParts : root.WalkedParts address 0 r (expr e').parts u)
    (hNode : root.at? address = some (.expr e))
    (hRoot : address ≠ [])
    (hLength : (expr e).parts.length = (expr e').parts.length)
    (hUsed : (expr e').used? = none)
    (hHops : (expr e').hops? = none) :
    root.Walked address r (.expr e') u := by
  have hReached := hParts.reached
  rw [Nat.zero_add] at hReached
  exact
    hParts.walkedPlain (hReached.leave hNode hRoot hLength rfl rfl)
      hUsed hHops rfl

mutual

/- Resolution fills in an expression and leaves the scopes. -/
theorem Expr.meets
    (e : Expr)
    {address : Address}
    {r : Resolver}
    (hNode : root.at? address = some (.expr e))
    (hRoot : address ≠ [])
    (hReached : root.Reached address r.scopes r.enclosing) :
    e.resolve.Meets root r fun e' u =>
      root.Walked address r (.expr e') u ∧
        u.scopes = r.scopes := by
  have hPart {index : Nat} {part : Node}
      (hIndex : (expr e).parts[index]? = some part) :=
    at?_part hNode hIndex
  have hCons (index : Nat) : index :: address ≠ [] :=
    List.cons_ne_nil index address
  cases e with
  | literal value =>
      have hIn :=
        hReached.enter hNode rfl rfl
          (not_violates_of_blame? hNode rfl)
      rw [Expr.resolve]
      apply meets_pure
      exact
        ⟨hIn.walkedNone.walkedExpr hNode hRoot rfl rfl rfl, rfl⟩
  | «variable» name hops =>
      rw [Expr.resolve]
      apply (meets_checkReadable hReached hNode).bind
      rintro _ u ⟨rfl, hClean⟩
      have hIn := hReached.enter hNode rfl rfl hClean
      apply (meets_locate name).bind
      rintro found u' ⟨rfl, hScopes, hKind, hRecorded⟩
      have hNext := hIn.leave hNode hRoot rfl rfl rfl
      rw [← hScopes, ← hKind] at hNext
      apply meets_pure
      refine ⟨hIn.walkedNone.walked hNext ?_ hRecorded, hScopes⟩
      intro token hToken
      cases hToken
      exact hReached.locates name.lexeme
  | assign name value hops =>
      have hIn :=
        hReached.enter hNode rfl rfl
          (not_violates_of_blame? hNode rfl)
      rw [Expr.resolve]
      apply (value.meets (hPart rfl) (hCons 0) hIn).bind
      rintro value' u ⟨hValue, hSame⟩
      apply (meets_locate name).bind
      rintro found u' ⟨rfl, hScopes, hKind, hRecorded⟩
      have hNext := hValue.reached.leave hNode hRoot rfl rfl rfl
      rw [← hScopes, ← hKind] at hNext
      apply meets_pure
      refine
        ⟨hValue.single.walked hNext ?_ hRecorded,
          hScopes.trans hSame⟩
      intro token hToken
      cases hToken
      rw [hSame]
      exact hReached.locates name.lexeme
  | binary left op right =>
      have hIn :=
        hReached.enter hNode rfl rfl
          (not_violates_of_blame? hNode rfl)
      rw [Expr.resolve]
      apply (left.meets (hPart rfl) (hCons 0) hIn).bind
      rintro left' u ⟨hLeft, hSame⟩
      apply
        (right.meets (hPart rfl) (hCons 1) hLeft.reached).bind
      rintro right' u' ⟨hRight, hSame'⟩
      have hParts := hLeft.single.append hRight.single
      apply meets_pure
      exact
        ⟨hParts.walkedExpr hNode hRoot rfl rfl rfl,
          hSame'.trans hSame⟩
  | logical left op right =>
      have hIn :=
        hReached.enter hNode rfl rfl
          (not_violates_of_blame? hNode rfl)
      rw [Expr.resolve]
      apply (left.meets (hPart rfl) (hCons 0) hIn).bind
      rintro left' u ⟨hLeft, hSame⟩
      apply
        (right.meets (hPart rfl) (hCons 1) hLeft.reached).bind
      rintro right' u' ⟨hRight, hSame'⟩
      have hParts := hLeft.single.append hRight.single
      apply meets_pure
      exact
        ⟨hParts.walkedExpr hNode hRoot rfl rfl rfl,
          hSame'.trans hSame⟩
  | unary op operand =>
      have hIn :=
        hReached.enter hNode rfl rfl
          (not_violates_of_blame? hNode rfl)
      rw [Expr.resolve]
      apply (operand.meets (hPart rfl) (hCons 0) hIn).bind
      rintro operand' u ⟨hOperand, hSame⟩
      apply meets_pure
      exact
        ⟨hOperand.single.walkedExpr hNode hRoot rfl rfl rfl,
          hSame⟩
  | grouping inner =>
      have hIn :=
        hReached.enter hNode rfl rfl
          (not_violates_of_blame? hNode rfl)
      rw [Expr.resolve]
      apply (inner.meets (hPart rfl) (hCons 0) hIn).bind
      rintro inner' u ⟨hInner, hSame⟩
      apply meets_pure
      exact
        ⟨hInner.single.walkedExpr hNode hRoot rfl rfl rfl, hSame⟩
  | call callee paren args =>
      have hIn :=
        hReached.enter hNode rfl rfl
          (not_violates_of_blame? hNode rfl)
      rw [Expr.resolve]
      apply (callee.meets (hPart rfl) (hCons 0) hIn).bind
      rintro callee' u ⟨hCallee, hSame⟩
      have hArgs : root.Holds address 1 (args.map .expr) :=
        holds_parts [.expr callee] [] hNode
          (by simp [Node.parts, Expr.operands])
      apply (Expr.meetsArgs args hArgs hCallee.reached).bind
      rintro args' u' ⟨hArgs, hSame', hLength⟩
      have hParts := hCallee.single.append hArgs
      apply meets_pure
      refine
        ⟨hParts.walkedExpr hNode hRoot ?_ rfl rfl,
          hSame'.trans hSame⟩
      simp [Node.parts, Expr.operands, hLength]

theorem Expr.meetsArgs
    (args : List Expr)
    {address : Address}
    {first : Nat}
    {r : Resolver}
    (hHolds : root.Holds address first (args.map .expr))
    (hReached :
      root.Reached (first :: address) r.scopes r.enclosing) :
    (Expr.resolveArgs args).Meets root r fun args' u =>
      root.WalkedParts address first r (args'.map .expr) u ∧
        u.scopes = r.scopes ∧ args'.length = args.length := by
  cases args with
  | nil => exact meets_pure ⟨hReached.walkedNone, rfl, rfl⟩
  | cons arg args =>
      rw [Expr.resolveArgs]
      apply
        (arg.meets hHolds.head (List.cons_ne_nil _ _)
          hReached).bind
      rintro arg' u ⟨hArg, hSame⟩
      apply (Expr.meetsArgs args hHolds.tail hArg.reached).bind
      rintro args' u' ⟨hArgs, hSame', hLength⟩
      apply meets_pure
      exact
        ⟨hArg.single.append hArgs, hSame'.trans hSame,
          congrArg Nat.succ hLength⟩

end

end Lox

------------------------------------------------------------
-- Declarations
------------------------------------------------------------

namespace Lox

open Resolver Resolution Node

variable {root node : Node} {address : Address} {r : Resolver}

/- A name that is declared and at once initialized. -/
theorem Resolver.scopes_enter_twice
    (r : Resolver)
    (name : String) :
    ((r.enter name false).enter name true).scopes =
      r.scopes.modifyHead fun scope =>
        (name, true) :: (name, false) :: scope := by
  unfold enter
  cases hScopes : r.scopes <;> simp [hScopes]

theorem Resolver.scopes_enter_once
    (r : Resolver)
    (name : String)
    (initialized : Bool) :
    (r.enter name initialized).scopes =
      r.scopes.modifyHead fun scope =>
        (name, initialized) :: scope := by
  unfold enter
  cases hScopes : r.scopes <;> simp [hScopes]

theorem Resolver.enclosing_enter
    (r : Resolver)
    (name : String)
    (initialized : Bool) :
    (r.enter name initialized).enclosing = r.enclosing := by
  unfold enter
  split <;> rfl

theorem Resolver.recorded_enter
    (r : Resolver)
    (name : String)
    (initialized : Bool) :
    (r.enter name initialized).recorded = r.recorded := by
  unfold enter
  split <;> rfl

theorem Resolver.recorded_enter_twice
    (r : Resolver)
    (name : String) :
    ((r.enter name false).enter name true).recorded =
      r.recorded := by
  rw [recorded_enter, recorded_enter]

/- The name of a node is declared and at once initialized. -/
theorem Node.Reached.declareHere
    {token : Token}
    (hReached : root.Reached address r.scopes r.enclosing)
    (hNode : root.at? address = some node)
    (hDeclared : node.declared? = some token)
    (hOpens : node.opensScope = false)
    (hPlain : node.isInitialized = false)
    (hClean : ∀ e, ¬ root.Violates address e) :
    root.Reached (0 :: address)
      ((r.enter token.lexeme false).enter token.lexeme true).scopes
      ((r.enter token.lexeme false).enter token.lexeme
        true).enclosing := by
  rw [scopes_enter_twice, enclosing_enter, enclosing_enter]
  apply hReached.declare hNode hDeclared hOpens hClean
  rw [hPlain]
  exact Scope.adds_declared token.lexeme

/- A parameter is declared in the scope of its function. -/
theorem meets_param
    {param : Token}
    (hNode : root.at? address = some (.param param))
    (hRoot : address ≠ [])
    (hReached : root.Reached address r.scopes r.enclosing) :
    (do declare param; define param : Resolution Unit).Meets root
      r fun _ u => root.Walked address r (.param param) u := by
  apply (meets_declare hReached hNode rfl).bind
  rintro _ _ ⟨rfl, hClean⟩
  apply (meets_define param).mono
  rintro _ _ rfl
  have hIn := hReached.declareHere hNode rfl rfl rfl hClean
  have hNext := hIn.leave hNode hRoot rfl rfl rfl
  have hRecorded := recorded_enter_twice r param.lexeme
  exact
    (hIn.walkedNone.since hRecorded).walkedPlain hNext rfl rfl rfl

theorem meets_declareParams
    (params : List Token)
    {first : Nat}
    {r : Resolver}
    (hHolds : root.Holds address first (params.map .param))
    (hReached :
      root.Reached (first :: address) r.scopes r.enclosing) :
    (declareParams params).Meets root r fun _ u =>
      root.WalkedParts address first r (params.map .param) u := by
  induction params generalizing first r with
  | nil => exact meets_pure hReached.walkedNone
  | cons param params ih =>
      have hFirst :=
        meets_param hHolds.head (List.cons_ne_nil _ _) hReached
      rw [declareParams, ← bind_assoc]
      apply hFirst.bind
      rintro _ u hParam
      apply (ih hHolds.tail hParam.reached).mono
      rintro _ v hParams
      exact hParam.single.append hParams

end Lox

------------------------------------------------------------
-- Statements
------------------------------------------------------------

namespace Lox

open Resolver Resolution Node

variable {root node : Node} {address : Address}

/- A statement that opens no scope is walked. -/
theorem Node.WalkedParts.walkedStmt
    {s s' : Stmt}
    {r u : Resolver}
    (hParts : root.WalkedParts address 0 r (stmt s').parts u)
    (hNode : root.at? address = some (.stmt s))
    (hRoot : address ≠ [])
    (hLength : (stmt s).parts.length = (stmt s').parts.length)
    (hOpens : (stmt s).opensScope = false)
    (hPlain : (stmt s).isInitialized = false) :
    root.Walked address r (.stmt s') u := by
  have hReached := hParts.reached
  rw [Nat.zero_add] at hReached
  exact
    hParts.walkedPlain
      (hReached.leave hNode hRoot hLength hOpens hPlain) rfl rfl
      rfl

/- The statements of a node that has no other parts. -/
theorem Node.holds_body
    {body : List Stmt}
    (hNode : root.at? address = some node)
    (hParts : node.parts = body.map .stmt) :
    root.Holds address 0 (body.map .stmt) :=
  holds_parts [] [] hNode (by simp [hParts])

/- A node with a scope of its own is walked, and the scope left. -/
theorem Node.WalkedParts.walkedScope
    (filled : Node)
    {outerKind : FunctionKind}
    {r u : Resolver}
    (hParts : root.WalkedParts address 0 r filled.parts u)
    (hNode : root.at? address = some node)
    (hRoot : address ≠ [])
    (hLength : node.parts.length = filled.parts.length)
    (hOpens : node.opensScope)
    (hOuter : outerKind = .function ↔ root.inFunction address)
    (hUsed : filled.used? = none)
    (hHops : filled.hops? = none) :
    root.Walked address r filled
      { u with scopes := u.scopes.tail, enclosing := outerKind } := by
  have hReached := hParts.reached
  rw [Nat.zero_add] at hReached
  have hNext :=
    hReached.leaveScope hNode hRoot hLength hOpens hOuter
  exact hParts.walkedPlain hNext hUsed hHops rfl

/- A list of statements with a scope of its own. -/
theorem meets_scope
    {body : List Stmt}
    {r : Resolver}
    (filled : List Stmt → Node)
    (hNode : root.at? address = some node)
    (hRoot : address ≠ [])
    (hParts : node.parts = body.map .stmt)
    (hOpens : node.opensScope)
    (hPlain : node.isFunction = false)
    (hFilled :
      ∀ body', (filled body').parts = body'.map .stmt ∧
        (filled body').used? = none ∧
          (filled body').hops? = none)
    (hBody :
      (Stmt.resolveBody body).Meets root
        { r with scopes := [] :: r.scopes } fun body' u =>
          root.WalkedParts address 0
              { r with scopes := [] :: r.scopes }
              (body'.map .stmt) u ∧
            body'.length = body.length) :
    (within (Stmt.resolveBody body)).Meets root r fun body' u =>
      root.Walked address r (filled body') u := by
  apply Meets.within
  apply hBody.mono
  rintro body' u ⟨hWalked, hLength⟩
  rcases hFilled body' with ⟨hInside, hUsed, hHops⟩
  have hKind := hWalked.reached.enclosing
  rw [inFunction_cons hNode, hPlain, Bool.false_or] at hKind
  rw [← hInside] at hWalked
  exact
    (hWalked.since (v := r) rfl).walkedScope (filled body') hNode
      hRoot (by simp [hParts, hInside, hLength]) hOpens hKind
      hUsed hHops

/-
  A function is declared before its parameters and its body
  are gone through, each of these in a scope of its own.
-/
theorem meets_function
    {name : Token}
    {params : List Token}
    {body : List Stmt}
    {r : Resolver}
    (hNode :
      root.at? address = some (.stmt (.function name params body)))
    (hRoot : address ≠ [])
    (hReached : root.Reached address r.scopes r.enclosing)
    (hBody :
      ∀ {u : Resolver},
        root.at? (params.length :: address) =
            some (.functionBody body) →
          root.Reached (params.length :: address) u.scopes
              u.enclosing →
            (within (Stmt.resolveBody body)).Meets root u
              fun body' v =>
                root.Walked (params.length :: address) u
                  (.functionBody body') v) :
    (Stmt.function name params body).resolve.Meets root r
      fun s' u => root.Walked address r (.stmt s') u := by
  have hParam : root.Holds address 0 (params.map .param) :=
    holds_parts [] [.functionBody body] hNode rfl
  have hInner :
      root.at? (params.length :: address) =
        some (.functionBody body) := by
    apply at?_part hNode
    simp [Node.parts, Stmt.parts]
  rw [Stmt.resolve]
  apply (meets_declare hReached hNode rfl).bind
  rintro _ _ ⟨rfl, hClean⟩
  apply (meets_define name).bind
  rintro _ _ rfl
  have hIn :=
    hReached.enterFunction hNode rfl rfl rfl hClean
      (Scope.adds_declared name.lexeme)
  rw [← scopes_enter_twice] at hIn
  have hOuterKind := hReached.enclosing
  rw [← enclosing_enter r name.lexeme false,
    ← enclosing_enter _ name.lexeme true] at hOuterKind
  refine
    (Meets.withinFunction (P := fun body' u =>
      root.Walked address r (.stmt (.function name params body'))
        u) (Meets.within ?_)).bind ?_
  · apply (meets_declareParams params hParam hIn).bind
    intro _ u hParams
    have hAt := hParams.reached
    rw [List.length_map, Nat.zero_add] at hAt
    apply (hBody hInner hAt).mono
    intro body' v hWalked
    have hLast := hWalked.single
    rw [← Nat.zero_add params.length,
      ← List.length_map (f := Node.param)] at hLast
    have hBoth :=
      (hParams.append hLast).since
        (recorded_enter_twice r name.lexeme)
    exact
      hBoth.walkedScope (.stmt (.function name params body')) hNode
        hRoot (by simp [Node.parts, Stmt.parts]) rfl hOuterKind
        rfl rfl
  · intro body' u hWalked
    exact meets_pure hWalked

mutual

/- Resolution fills in a statement, and goes on after it. -/
theorem Stmt.meets
    (s : Stmt)
    {address : Address}
    {r : Resolver}
    (hNode : root.at? address = some (.stmt s))
    (hRoot : address ≠ [])
    (hReached : root.Reached address r.scopes r.enclosing) :
    s.resolve.Meets root r fun s' u =>
      root.Walked address r (.stmt s') u := by
  have hPart {index : Nat} {part : Node}
      (hIndex : (stmt s).parts[index]? = some part) :=
    at?_part hNode hIndex
  have hCons (index : Nat) : index :: address ≠ [] :=
    List.cons_ne_nil index address
  cases s with
  | expression value =>
      have hIn :=
        hReached.enter hNode rfl rfl
          (not_violates_of_blame? hNode rfl)
      rw [Stmt.resolve]
      apply (value.meets (hPart rfl) (hCons 0) hIn).bind
      rintro value' u ⟨hValue, _⟩
      apply meets_pure
      exact hValue.single.walkedStmt hNode hRoot rfl rfl rfl
  | print value =>
      have hIn :=
        hReached.enter hNode rfl rfl
          (not_violates_of_blame? hNode rfl)
      rw [Stmt.resolve]
      apply (value.meets (hPart rfl) (hCons 0) hIn).bind
      rintro value' u ⟨hValue, _⟩
      apply meets_pure
      exact hValue.single.walkedStmt hNode hRoot rfl rfl rfl
  | var name initializer =>
      cases initializer with
      | none =>
          rw [Stmt.resolve]
          apply (meets_declare hReached hNode rfl).bind
          rintro _ _ ⟨rfl, hClean⟩
          apply (meets_define name).bind
          rintro _ _ rfl
          have hIn :=
            hReached.declareHere hNode rfl rfl rfl hClean
          apply meets_pure
          exact
            (hIn.walkedNone.since
              (recorded_enter_twice r name.lexeme)).walkedStmt
              hNode hRoot rfl rfl rfl
      | some value =>
          rw [Stmt.resolve]
          apply (meets_declare hReached hNode rfl).bind
          rintro _ _ ⟨rfl, hClean⟩
          have hIn :=
            hReached.declare hNode rfl rfl hClean
              (Scope.adds_pending name.lexeme)
          rw [← scopes_enter_once, ← enclosing_enter] at hIn
          apply (value.meets (hPart rfl) (hCons 0) hIn).bind
          rintro value' u ⟨hValue, _⟩
          apply (meets_define name).bind
          rintro _ _ rfl
          have hNext :=
            hValue.reached.define hNode hRoot rfl rfl rfl
              hClean
          rw [← scopes_enter_once, ← enclosing_enter] at hNext
          have hParts :=
            hValue.single.since (recorded_enter r name.lexeme false)
          apply meets_pure
          exact
            hParts.walkedPlain hNext rfl rfl
              (recorded_enter u name.lexeme true)
  | block body =>
      have hIn :=
        hReached.enterScope hNode rfl rfl
          (not_violates_of_blame? hNode rfl)
      have hBody :=
        Stmt.meetsBody body (holds_body hNode rfl)
          (r := { r with scopes := [] :: r.scopes }) hIn
      rw [Stmt.resolve]
      apply
        (meets_scope (fun body' => .stmt (.block body')) hNode
          hRoot rfl rfl rfl (fun _ => ⟨rfl, rfl, rfl⟩) hBody).bind
      intro body' u hWalked
      exact meets_pure hWalked
  | ifThen condition thenBranch =>
      have hIn :=
        hReached.enter hNode rfl rfl
          (not_violates_of_blame? hNode rfl)
      rw [Stmt.resolve]
      apply (condition.meets (hPart rfl) (hCons 0) hIn).bind
      rintro condition' u ⟨hCondition, _⟩
      apply
        (thenBranch.meets (hPart rfl) (hCons 1)
          hCondition.reached).bind
      rintro thenBranch' u' hThen
      apply meets_pure
      exact
        (hCondition.single.append hThen.single).walkedStmt hNode
          hRoot rfl rfl rfl
  | ifElse condition thenBranch elseBranch =>
      have hIn :=
        hReached.enter hNode rfl rfl
          (not_violates_of_blame? hNode rfl)
      rw [Stmt.resolve]
      apply (condition.meets (hPart rfl) (hCons 0) hIn).bind
      rintro condition' u ⟨hCondition, _⟩
      apply
        (thenBranch.meets (hPart rfl) (hCons 1)
          hCondition.reached).bind
      rintro thenBranch' u' hThen
      apply
        (elseBranch.meets (hPart rfl) (hCons 2) hThen.reached).bind
      rintro elseBranch' u'' hElse
      have hBranches :=
        hCondition.single.append (hThen.single.append hElse.single)
      apply meets_pure
      exact hBranches.walkedStmt hNode hRoot rfl rfl rfl
  | loop condition body =>
      have hIn :=
        hReached.enter hNode rfl rfl
          (not_violates_of_blame? hNode rfl)
      rw [Stmt.resolve]
      apply (condition.meets (hPart rfl) (hCons 0) hIn).bind
      rintro condition' u ⟨hCondition, _⟩
      apply
        (body.meets (hPart rfl) (hCons 1) hCondition.reached).bind
      rintro body' u' hBody
      apply meets_pure
      exact
        (hCondition.single.append hBody.single).walkedStmt hNode
          hRoot rfl rfl rfl
  | function name params body =>
      apply meets_function hNode hRoot hReached
      intro u hInner hAt
      have hIn :=
        hAt.enterScope hInner rfl rfl
          (not_violates_of_blame? hInner rfl)
      have hBody :=
        Stmt.meetsBody body (holds_body hInner rfl)
          (r := { u with scopes := [] :: u.scopes }) hIn
      exact
        meets_scope .functionBody hInner (hCons _) rfl rfl rfl
          (fun _ => ⟨rfl, rfl, rfl⟩) hBody
  | ret keyword value =>
      cases value with
      | none =>
          rw [Stmt.resolve]
          apply (meets_checkReturn hReached hNode).bind
          rintro _ _ ⟨rfl, hClean⟩
          have hIn := hReached.enter hNode rfl rfl hClean
          apply meets_pure
          exact hIn.walkedNone.walkedStmt hNode hRoot rfl rfl rfl
      | some value =>
          rw [Stmt.resolve]
          apply (meets_checkReturn hReached hNode).bind
          rintro _ _ ⟨rfl, hClean⟩
          have hIn := hReached.enter hNode rfl rfl hClean
          apply (value.meets (hPart rfl) (hCons 0) hIn).bind
          rintro value' u ⟨hValue, _⟩
          apply meets_pure
          exact hValue.single.walkedStmt hNode hRoot rfl rfl rfl

theorem Stmt.meetsBody
    (body : List Stmt)
    {address : Address}
    {first : Nat}
    {r : Resolver}
    (hHolds : root.Holds address first (body.map .stmt))
    (hReached :
      root.Reached (first :: address) r.scopes r.enclosing) :
    (Stmt.resolveBody body).Meets root r fun body' u =>
      root.WalkedParts address first r (body'.map .stmt) u ∧
        body'.length = body.length := by
  cases body with
  | nil => exact meets_pure ⟨hReached.walkedNone, rfl⟩
  | cons s body =>
      rw [Stmt.resolveBody]
      apply
        (s.meets hHolds.head (List.cons_ne_nil _ _)
          hReached).bind
      rintro s' u hStmt
      apply (Stmt.meetsBody body hHolds.tail hStmt.reached).bind
      rintro body' u' ⟨hBody, hLength⟩
      apply meets_pure
      exact
        ⟨hStmt.single.append hBody, congrArg Nat.succ hLength⟩

end

end Lox
