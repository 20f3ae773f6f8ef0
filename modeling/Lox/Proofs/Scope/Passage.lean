import Lox.Proofs.Scope.Lexical
import Lox.Proofs.Scope.Resolved

/-
  From one address to the next.

  The scopes of a resolver go on describing the tree when it
  enters a node, when it leaves one, and when it declares the
  name of a node in the innermost scope. Each lemma is about
  one such move, and each move is one of the resolver's.

  Key definitions include:
    * `Node.Reached.enter`
    * `Node.Reached.enterScope`
    * `Node.Reached.declare`
    * `Node.Reached.leave`
    * `Node.Reached.leaveScope`
-/

------------------------------------------------------------
-- Entries
------------------------------------------------------------

namespace Lox.Scope

variable {scope : Scope} {name other : String} {b : Bool}

theorem declares_cons_iff :
    declares ((name, b) :: scope) other ↔
      other = name ∨ scope.declares other := by
  unfold declares
  by_cases hSame : other = name
  · simp [hSame]
  · have hNe : (other == name) = false := by simpa using hSame
    simp [List.lookup_cons, hNe, hSame]

theorem isPending_cons_iff :
    isPending ((name, b) :: scope) other ↔
      other = name ∧ b = false ∨
        other ≠ name ∧ scope.isPending other := by
  unfold isPending
  by_cases hSame : other = name
  · simp [hSame]
  · have hNe : (other == name) = false := by simpa using hSame
    simp [List.lookup_cons, hNe, hSame]

/-
  A change that adds a name to a scope, pending or not, and
  nothing else.
-/
structure Adds
    (update : Scope → Scope)
    (name : String)
    (pending : Bool) :
    Prop where
  names :
    ∀ scope other, (update scope).declares other ↔
      other = name ∨ scope.declares other
  pendings :
    ∀ scope other, (update scope).isPending other ↔
      other = name ∧ pending ∨
        other ≠ name ∧ scope.isPending other

theorem adds_pending (name : String) :
    Adds (fun scope => (name, false) :: scope) name true :=
  ⟨fun _ _ => declares_cons_iff,
    fun _ _ => by simp [isPending_cons_iff]⟩

theorem adds_declared (name : String) :
    Adds (fun scope => (name, true) :: (name, false) :: scope)
      name false := by
  constructor
  · intro scope other
    simp [declares_cons_iff]
  · intro scope other
    rw [isPending_cons_iff, isPending_cons_iff]
    by_cases hSame : other = name <;> simp [hSame]

theorem declares_of_isPending (hPending : scope.isPending name) :
    scope.declares name := by
  unfold isPending at hPending
  unfold declares
  simp_all

end Lox.Scope

------------------------------------------------------------
-- One Scope
------------------------------------------------------------

namespace Lox.Node

open Address

variable {root node : Node} {address outer site : Address}
variable {scope : Scope} {token : Token} {parts : Nat}

/- A node declares one name only. -/
theorem DeclaredIn.eq_lexeme
    {name : String}
    (hSite : root.DeclaredIn outer name address)
    (hNode : root.at? address = some node)
    (hDeclared : node.declared? = some token) :
    name = token.lexeme := by
  rcases hSite.name with ⟨same, other, hSame, hOther, rfl⟩
  rw [hNode] at hSame
  cases hSame
  rw [hDeclared] at hOther
  cases hOther
  rfl

/- Entering a node that declares nothing in the scope. -/
theorem Describes.first
    (hDescribes : root.Describes address outer scope)
    (hNot : ∀ name, ¬ root.DeclaredIn outer name address) :
    root.Describes (0 :: address) outer scope := by
  apply hDescribes.move
  · intro name site hSite
    rw [precedes_first_iff]
    constructor
    · rintro (hBefore | rfl)
      · exact hBefore
      · exact absurd hSite (hNot name)
    · exact .inl
  · intro name site hSite
    rw [initializes_cons_iff]
    constructor
    · rintro (hInside | ⟨rfl, _⟩)
      · exact hInside
      · exact absurd hSite (hNot name)
    · exact .inl

/- Leaving a node, after the last of its parts. -/
theorem Describes.leave
    (hDescribes : root.Describes (parts :: address) outer scope)
    (hNode : root.at? address = some node)
    (hRoot : address ≠ [])
    (hParts : node.parts.length = parts)
    (hPlain :
      ∀ {name}, root.DeclaredIn outer name address →
        node.isInitialized = false) :
    root.Describes address.next outer scope := by
  apply hDescribes.move
  · intro name site hSite
    rcases hSite.name with ⟨other, _, hOther, _⟩
    rw [precedes_next_iff hNode hRoot hOther, hParts]
  · intro name site hSite
    rw [initializes_next_iff, initializes_cons_iff]
    constructor
    · exact .inl
    · rintro (hInside | ⟨rfl, same, hSame, hInitialized⟩)
      · exact hInside
      · rw [hNode] at hSame
        cases hSame
        rw [hPlain hSite] at hInitialized
        cases hInitialized

/- A name that breaks no rule is new in its scope. -/
theorem Describes.fresh
    (hDescribes : root.Describes address outer scope)
    (hNode : root.at? address = some node)
    (hDeclared : node.declared? = some token)
    (hScope : (root.scopesAround address).head? = some outer)
    (hClean : ∀ e, ¬ root.Violates address e) :
    ¬ scope.declares token.lexeme := by
  intro hOld
  rcases (hDescribes.declares _).mp hOld with
    ⟨site, hSite, hBefore⟩
  exact
    hClean _
      (.alreadyDeclared hNode hDeclared hScope hSite hBefore)

/-
  Entering a node that declares a name: the scope has the name
  besides its old ones, and it is pending if it is going to be
  initialized.
-/
theorem Describes.declare
    {update : Scope → Scope}
    (hDescribes : root.Describes address outer scope)
    (hNode : root.at? address = some node)
    (hDeclared : node.declared? = some token)
    (hScope : (root.scopesAround address).head? = some outer)
    (hFresh : ¬ scope.declares token.lexeme)
    (hAdds : Scope.Adds update token.lexeme node.isInitialized) :
    root.Describes (0 :: address) outer (update scope) := by
  have hHere : root.DeclaredIn outer token.lexeme address :=
    ⟨hScope, node, token, hNode, hDeclared, rfl⟩
  constructor
  · intro name
    rw [hAdds.names, hDescribes.declares]
    constructor
    · rintro (rfl | ⟨site, hSite, hBefore⟩)
      · exact ⟨address, hHere, precedes_first_iff.mpr (.inr rfl)⟩
      · exact ⟨site, hSite, precedes_first_iff.mpr (.inl hBefore)⟩
    · rintro ⟨site, hSite, hBefore⟩
      rcases precedes_first_iff.mp hBefore with hBefore | rfl
      · exact .inr ⟨site, hSite, hBefore⟩
      · exact .inl (hSite.eq_lexeme hNode hDeclared)
  · intro name
    rw [hAdds.pendings]
    constructor
    · rintro (⟨rfl, hInitialized⟩ | ⟨_, hOld⟩)
      · exact
          ⟨address, hHere,
            initializes_cons_iff.mpr
              (.inr ⟨rfl, node, hNode, hInitialized⟩)⟩
      · rcases (hDescribes.pending name).mp hOld with
          ⟨site, hSite, hInside⟩
        exact
          ⟨site, hSite, initializes_cons_iff.mpr (.inl hInside)⟩
    · rintro ⟨site, hSite, hInside⟩
      rcases initializes_cons_iff.mp hInside with
        hInside | ⟨rfl, same, hSame, hInitialized⟩
      · have hOld :=
          (hDescribes.pending name).mpr ⟨site, hSite, hInside⟩
        refine .inr ⟨?_, hOld⟩
        rintro rfl
        exact hFresh (Scope.declares_of_isPending hOld)
      · rw [hNode] at hSame
        cases hSame
        exact .inl ⟨hSite.eq_lexeme hNode hDeclared, hInitialized⟩

/- Leaving a variable whose initializer has been passed. -/
theorem Describes.define
    (hDescribes : root.Describes (parts :: address) outer scope)
    (hNode : root.at? address = some node)
    (hRoot : address ≠ [])
    (hParts : node.parts.length = parts)
    (hDeclared : node.declared? = some token)
    (hScope : (root.scopesAround address).head? = some outer)
    (hClean : ∀ e, ¬ root.Violates address e) :
    root.Describes address.next outer
      ((token.lexeme, true) :: scope) := by
  have hHere : root.DeclaredIn outer token.lexeme address :=
    ⟨hScope, node, token, hNode, hDeclared, rfl⟩
  have hPassed :
      ∀ {name site}, root.DeclaredIn outer name site →
        (site.Precedes address.next ↔
          site.Precedes (parts :: address)) := by
    intro name site hSite
    rcases hSite.name with ⟨other, _, hOther, _⟩
    rw [precedes_next_iff hNode hRoot hOther, hParts]
  constructor
  · intro name
    rw [Scope.declares_cons_iff, hDescribes.declares]
    constructor
    · rintro (rfl | ⟨site, hSite, hBefore⟩)
      · refine ⟨address, hHere, (hPassed hHere).mpr ?_⟩
        exact precedes_cons_iff.mpr (.inr (.inl rfl))
      · exact ⟨site, hSite, (hPassed hSite).mpr hBefore⟩
    · rintro ⟨site, hSite, hBefore⟩
      exact .inr ⟨site, hSite, (hPassed hSite).mp hBefore⟩
  · intro name
    rw [Scope.isPending_cons_iff, hDescribes.pending]
    constructor
    · rintro (⟨_, hFalse⟩ | ⟨hNe, site, hSite, hInside⟩)
      · cases hFalse
      · refine ⟨site, hSite, initializes_next_iff.mpr ?_⟩
        rcases initializes_cons_iff.mp hInside with
          hInside | ⟨rfl, _⟩
        · exact hInside
        · exact absurd (hSite.eq_lexeme hNode hDeclared) hNe
    · rintro ⟨site, hSite, hInside⟩
      have hOuter := initializes_next_iff.mp hInside
      refine
        .inr ⟨?_, site, hSite,
          initializes_cons_iff.mpr (.inl hOuter)⟩
      rintro rfl
      exact
        hClean _
          (.alreadyDeclared hNode hDeclared hScope hSite
            hOuter.within.precedes)

/- A scope that has just been opened has no names. -/
theorem describes_opened
    (root : Node)
    (address : Address) :
    root.Describes (0 :: address) address [] := by
  constructor
  · intro name
    constructor
    · intro hFalse
      cases hFalse
    · rintro ⟨site, hSite, hBefore⟩
      have hAfter := hSite.within.precedes
      rcases precedes_first_iff.mp hBefore with hBefore | rfl
      · exact absurd (List.lt_trans hAfter hBefore) (List.lt_irrefl _)
      · exact absurd hAfter not_precedes_self
  · intro name
    constructor
    · intro hFalse
      cases hFalse
    · rintro ⟨site, hSite, hInside⟩
      have hDeeper := hSite.within.length_lt
      rcases isWithin_cons_iff.mp hInside.within with rfl | hWithin
      · exact absurd hDeeper (Nat.lt_irrefl _)
      · exact absurd hWithin.length_lt (Nat.lt_asymm hDeeper)

end Lox.Node

------------------------------------------------------------
-- All Scopes
------------------------------------------------------------

namespace Lox.Node

open Address

variable {root node : Node} {address : Address}
variable {scopes : List Scope} {enclosing outerKind : FunctionKind}
variable {token : Token} {parts : Nat}

theorem isInitialized_of_opensScope
    (hOpens : node.opensScope) :
    node.isInitialized = false := by
  unfold opensScope at hOpens
  split at hOpens <;> simp_all [isInitialized]

theorem isFunction_of_opensScope
    (hOpens : node.opensScope = false) :
    node.isFunction = false := by
  unfold opensScope at hOpens
  split at hOpens <;> simp_all [isFunction]

theorem inFunction_cons
    {index : Nat}
    (hNode : root.at? address = some node) :
    root.inFunction (index :: address) =
      (node.isFunction || root.inFunction address) := by
  simp [inFunction, hNode]

/- No rule is broken up to the first part of a node. -/
theorem Reached.clean_first
    (hReached : root.Reached address scopes enclosing)
    (hClean : ∀ e, ¬ root.Violates address e) :
    ∀ earlier, earlier.Precedes (0 :: address) →
      ∀ e, ¬ root.Violates earlier e := by
  intro earlier hBefore
  rcases precedes_first_iff.mp hBefore with hBefore | rfl
  · exact hReached.clean earlier hBefore
  · exact hClean

/- None is up to the end of a node when its parts break none. -/
theorem Reached.clean_next
    (hReached : root.Reached (parts :: address) scopes enclosing)
    (hNode : root.at? address = some node)
    (hRoot : address ≠ [])
    (hParts : node.parts.length = parts) :
    ∀ earlier, earlier.Precedes address.next →
      ∀ e, ¬ root.Violates earlier e := by
  intro earlier hBefore e hViolates
  rcases hViolates.blame with ⟨other, hOther, _⟩
  rw [precedes_next_iff hNode hRoot hOther, hParts] at hBefore
  exact hReached.clean earlier hBefore e hViolates

/- The name of a node is declared in the innermost scope only. -/
theorem not_declaredIn_outer
    {outer other : Address}
    {others : List Address}
    (hAround : root.scopesAround address = outer :: others)
    (hOther : other ∈ others)
    (name : String) :
    ¬ root.DeclaredIn other name address := by
  intro hSite
  have hNodup := nodup_scopesAround root address
  have hSame := hSite.scope
  rw [hAround] at hNodup hSame
  cases hSame
  exact (List.nodup_cons.mp hNodup).1 hOther

theorem forall₂_of_mem
    {R S : Address → Scope → Prop}
    {addresses : List Address}
    (hAll : List.Forall₂ R addresses scopes)
    (hEach : ∀ a ∈ addresses, ∀ scope, R a scope → S a scope) :
    List.Forall₂ S addresses scopes := by
  induction hAll with
  | nil => exact .nil
  | cons hFirst _ ih =>
      rcases List.forall_mem_cons.mp hEach with ⟨hHere, hRest⟩
      exact .cons (hHere _ hFirst) (ih hRest)

theorem Reached.forall₂_first
    (hReached : root.Reached address scopes enclosing)
    (hNode : root.at? address = some node)
    (hDeclared : node.declared? = none) :
    List.Forall₂ (root.Describes (0 :: address))
      (root.scopesAround address) scopes := by
  refine hReached.scopes.imp ?_
  intro outer scope hDescribes
  apply hDescribes.first
  intro name hSite
  rcases hSite.name with ⟨same, token, hSame, hToken, _⟩
  rw [hNode] at hSame
  cases hSame
  rw [hDeclared] at hToken
  cases hToken

/-
  A name is declared in the innermost of the scopes, if there
  is one; the others are those of other addresses.
-/
theorem Reached.forall₂_declare
    {update : Scope → Scope}
    (hReached : root.Reached address scopes enclosing)
    (hNode : root.at? address = some node)
    (hDeclared : node.declared? = some token)
    (hClean : ∀ e, ¬ root.Violates address e)
    (hAdds : Scope.Adds update token.lexeme node.isInitialized) :
    List.Forall₂ (root.Describes (0 :: address))
      (root.scopesAround address) (scopes.modifyHead update) := by
  have hScopes := hReached.scopes
  cases hAround : root.scopesAround address with
  | nil =>
      rw [hAround] at hScopes
      cases hScopes
      exact .nil
  | cons outer others =>
      have hScope :
          (root.scopesAround address).head? = some outer := by
        rw [hAround]
        rfl
      rw [hAround] at hScopes
      cases hScopes with
      | cons hInner hOuter =>
          have hFresh :=
            hInner.fresh hNode hDeclared hScope hClean
          refine
            .cons
              (hInner.declare hNode hDeclared hScope hFresh
                hAdds)
              (forall₂_of_mem hOuter ?_)
          intro other hOther scope hDescribes
          exact
            hDescribes.first (not_declaredIn_outer hAround hOther)

/- A node is entered that declares nothing and opens no scope. -/
theorem Reached.enter
    (hReached : root.Reached address scopes enclosing)
    (hNode : root.at? address = some node)
    (hDeclared : node.declared? = none)
    (hOpens : node.opensScope = false)
    (hClean : ∀ e, ¬ root.Violates address e) :
    root.Reached (0 :: address) scopes enclosing := by
  refine ⟨?_, ?_, hReached.clean_first hClean⟩
  · rw [scopesAround_of_not_opensScope hNode hOpens]
    exact hReached.forall₂_first hNode hDeclared
  · rw [inFunction_cons hNode, isFunction_of_opensScope hOpens,
      Bool.false_or]
    exact hReached.enclosing

/- A block or the body of a function is entered. -/
theorem Reached.enterScope
    (hReached : root.Reached address scopes enclosing)
    (hNode : root.at? address = some node)
    (hDeclared : node.declared? = none)
    (hOpens : node.opensScope)
    (hClean : ∀ e, ¬ root.Violates address e) :
    root.Reached (0 :: address) ([] :: scopes) enclosing := by
  refine ⟨?_, ?_, hReached.clean_first hClean⟩
  · rw [scopesAround_of_opensScope hNode hOpens]
    exact
      .cons (describes_opened root address)
        (hReached.forall₂_first hNode hDeclared)
  · rw [inFunction_cons hNode, isFunction_of_declared? hDeclared,
      Bool.false_or]
    exact hReached.enclosing

/- A node without a scope has its name declared. -/
theorem Reached.declare
    {update : Scope → Scope}
    (hReached : root.Reached address scopes enclosing)
    (hNode : root.at? address = some node)
    (hDeclared : node.declared? = some token)
    (hOpens : node.opensScope = false)
    (hClean : ∀ e, ¬ root.Violates address e)
    (hAdds : Scope.Adds update token.lexeme node.isInitialized) :
    root.Reached (0 :: address) (scopes.modifyHead update)
      enclosing := by
  refine ⟨?_, ?_, hReached.clean_first hClean⟩
  · rw [scopesAround_of_not_opensScope hNode hOpens]
    exact
      hReached.forall₂_declare hNode hDeclared hClean hAdds
  · rw [inFunction_cons hNode, isFunction_of_opensScope hOpens,
      Bool.false_or]
    exact hReached.enclosing

/- A function has its name declared, and is entered. -/
theorem Reached.enterFunction
    {update : Scope → Scope}
    (hReached : root.Reached address scopes enclosing)
    (hNode : root.at? address = some node)
    (hDeclared : node.declared? = some token)
    (hFunction : node.isFunction)
    (hOpens : node.opensScope)
    (hClean : ∀ e, ¬ root.Violates address e)
    (hAdds : Scope.Adds update token.lexeme node.isInitialized) :
    root.Reached (0 :: address) ([] :: scopes.modifyHead update)
      .function := by
  refine ⟨?_, ?_, hReached.clean_first hClean⟩
  · rw [scopesAround_of_opensScope hNode hOpens]
    exact
      .cons (describes_opened root address)
        (hReached.forall₂_declare hNode hDeclared hClean hAdds)
  · simp [inFunction_cons hNode, hFunction]

/- A node without a scope is left after its last part. -/
theorem Reached.leave
    (hReached : root.Reached (parts :: address) scopes enclosing)
    (hNode : root.at? address = some node)
    (hRoot : address ≠ [])
    (hParts : node.parts.length = parts)
    (hOpens : node.opensScope = false)
    (hPlain : node.isInitialized = false) :
    root.Reached address.next scopes enclosing := by
  refine ⟨?_, ?_, hReached.clean_next hNode hRoot hParts⟩
  · have hScopes := hReached.scopes
    rw [scopesAround_of_not_opensScope hNode hOpens] at hScopes
    rw [scopesAround_next]
    refine hScopes.imp ?_
    intro outer scope hDescribes
    exact hDescribes.leave hNode hRoot hParts fun _ => hPlain
  · rw [inFunction_next, hReached.enclosing, inFunction_cons hNode,
      isFunction_of_opensScope hOpens, Bool.false_or]

/- A scope is left with its node. -/
theorem Reached.leaveScope
    (hReached : root.Reached (parts :: address) scopes enclosing)
    (hNode : root.at? address = some node)
    (hRoot : address ≠ [])
    (hParts : node.parts.length = parts)
    (hOpens : node.opensScope)
    (hOuter : outerKind = .function ↔ root.inFunction address) :
    root.Reached address.next scopes.tail outerKind := by
  refine ⟨?_, ?_, hReached.clean_next hNode hRoot hParts⟩
  · have hScopes := hReached.scopes
    have hPlain := isInitialized_of_opensScope hOpens
    rw [scopesAround_of_opensScope hNode hOpens] at hScopes
    rw [scopesAround_next]
    cases hScopes with
    | cons _ hRest =>
        refine hRest.imp ?_
        intro outer scope hDescribes
        exact hDescribes.leave hNode hRoot hParts fun _ => hPlain
  · rw [inFunction_next]
    exact hOuter

/- A variable is left whose initializer has been passed. -/
theorem Reached.define
    (hReached : root.Reached (parts :: address) scopes enclosing)
    (hNode : root.at? address = some node)
    (hRoot : address ≠ [])
    (hParts : node.parts.length = parts)
    (hDeclared : node.declared? = some token)
    (hOpens : node.opensScope = false)
    (hClean : ∀ e, ¬ root.Violates address e) :
    root.Reached address.next
      (scopes.modifyHead fun scope => (token.lexeme, true) :: scope)
      enclosing := by
  refine ⟨?_, ?_, hReached.clean_next hNode hRoot hParts⟩
  · have hScopes := hReached.scopes
    rw [scopesAround_of_not_opensScope hNode hOpens] at hScopes
    rw [scopesAround_next]
    cases hAround : root.scopesAround address with
    | nil =>
        rw [hAround] at hScopes
        cases hScopes
        exact .nil
    | cons outer others =>
        have hScope :
            (root.scopesAround address).head? = some outer := by
          rw [hAround]
          rfl
        rw [hAround] at hScopes
        cases hScopes with
        | cons hInner hOuter =>
            refine
              .cons
                (hInner.define hNode hRoot hParts hDeclared
                  hScope hClean)
                (forall₂_of_mem hOuter ?_)
            intro other hOther scope hDescribes
            apply hDescribes.leave hNode hRoot hParts
            intro name hSite
            exact
              absurd hSite
                (not_declaredIn_outer hAround hOther name)
  · rw [inFunction_next, hReached.enclosing, inFunction_cons hNode,
      isFunction_of_opensScope hOpens, Bool.false_or]

end Lox.Node
