import Lox.Proofs.Scope.Address
import Lox.Proofs.Scope.Noted

/-
  Declarations, uses and scopes by their place in the text.

  What a scope declares, which of the scopes around a use binds
  its name, and what breaks the rules of scopes are said here
  of addresses in the tree alone. A resolver has reached an
  address when each of its scopes has the names declared there
  so far, those whose initializer is being read are pending,
  and nothing before the address breaks a rule.

  Key definitions include:
    * `Node.DeclaredIn`
    * `Node.Initializes`
    * `Node.Binds`
    * `Node.Violates`
    * `Node.Describes`
    * `Node.Reached`
-/

------------------------------------------------------------
-- Declarations And Uses
------------------------------------------------------------

namespace Lox.Node

/- A node declares a name in a scope. -/
structure DeclaredIn
    (root : Node)
    (scope : Address)
    (name : String)
    (site : Address) :
    Prop where
  scope : (root.scopesAround site).head? = some scope
  name :
    ∃ node token,
      root.at? site = some node ∧
        node.declared? = some token ∧ token.lexeme = name

/- An address lies in the initializer of a variable. -/
structure Initializes
    (root : Node)
    (site address : Address) :
    Prop where
  within : address.IsWithin site
  initialized :
    ∃ node, root.at? site = some node ∧ node.isInitialized

/-
  Of the scopes around an address, that of a given number,
  counted outward from 0, has a declaration of the name that
  stands before the address.
-/
def Binds
    (root : Node)
    (address : Address)
    (name : String)
    (hops : Nat) :
    Prop :=
  ∃ scope site,
    (root.scopesAround address)[hops]? = some scope ∧
      root.DeclaredIn scope name site ∧ site.Precedes address

end Lox.Node

------------------------------------------------------------
-- Broken Rules
------------------------------------------------------------

namespace Lox.Node

/- What breaks the rules of scopes at an address. -/
inductive Violates (root : Node) (address : Address) :
    ScopeError → Prop where
  | returnOutsideFunction
      {keyword : Token} {value : Option Expr}
      (hHere :
        root.at? address = some (.stmt (.ret keyword value)))
      (hOutside : root.inFunction address = false) :
      Violates root address ⟨.returnOutsideFunction, keyword⟩
  | alreadyDeclared
      {node : Node} {token : Token} {scope site : Address}
      (hHere : root.at? address = some node)
      (hDeclared : node.declared? = some token)
      (hScope : (root.scopesAround address).head? = some scope)
      (hFirst : root.DeclaredIn scope token.lexeme site)
      (hBefore : site.Precedes address) :
      Violates root address ⟨.alreadyDeclared, token⟩
  | readsItself
      {token : Token} {hops : Option Nat} {scope site : Address}
      (hHere :
        root.at? address = some (.expr (.variable token hops)))
      (hDeclared : root.DeclaredIn scope token.lexeme site)
      (hInside : root.Initializes site address) :
      Violates root address ⟨.readsItself, token⟩

/- A broken rule with no other before it in the text. -/
def FirstViolates
    (root : Node)
    (address : Address)
    (e : ScopeError) :
    Prop :=
  root.Violates address e ∧
    ∀ earlier, earlier.Precedes address →
      ∀ other, ¬ root.Violates earlier other

/-
  A program whose scopes are in disorder: it returns where
  there is no function, or a scope declares a name twice, or a
  variable of a scope is read in its own initializer.
-/
def IllScoped (root : Node) : Prop :=
  (∃ address keyword value,
    root.at? address = some (.stmt (.ret keyword value)) ∧
      root.inFunction address = false) ∨
  (∃ scope name first second,
    first ≠ second ∧ root.DeclaredIn scope name first ∧
      root.DeclaredIn scope name second) ∨
  ∃ scope token hops site address,
    root.at? address = some (.expr (.variable token hops)) ∧
      root.DeclaredIn scope token.lexeme site ∧
        root.Initializes site address

variable {root node : Node} {address site : Address}
variable {e e' : ScopeError}

theorem illScoped_iff :
    root.IllScoped ↔ ∃ address e, root.Violates address e := by
  constructor
  · rintro (⟨address, keyword, value, hHere, hOutside⟩ |
      ⟨scope, name, first, second, hNe, hFirst, hSecond⟩ |
      ⟨scope, token, hops, site, address, hHere, hDeclared,
        hInside⟩)
    · exact ⟨address, _, .returnOutsideFunction hHere hOutside⟩
    · have hTwice :
          ∀ {first second : Address},
            first.Precedes second →
              root.DeclaredIn scope name first →
                root.DeclaredIn scope name second →
                  ∃ address e, root.Violates address e := by
        intro first second hBefore hFirst hSecond
        rcases hSecond.name with ⟨node, token, hHere, hName, rfl⟩
        exact
          ⟨second, _,
            .alreadyDeclared hHere hName hSecond.scope hFirst
              hBefore⟩
      rcases Address.precedes_trichotomy first second with
        hBefore | hSame | hAfter
      · exact hTwice hBefore hFirst hSecond
      · exact absurd hSame hNe
      · exact hTwice hAfter hSecond hFirst
    · exact ⟨address, _, .readsItself hHere hDeclared hInside⟩
  · rintro ⟨address, e, hViolates⟩
    cases hViolates with
    | returnOutsideFunction hHere hOutside =>
        exact .inl ⟨address, _, _, hHere, hOutside⟩
    | @alreadyDeclared node token scope site hHere hDeclared
        hScope hFirst hBefore =>
        have hSecond :
            root.DeclaredIn scope token.lexeme address :=
          ⟨hScope, node, token, hHere, hDeclared, rfl⟩
        have hNe : site ≠ address := by
          rintro rfl
          exact Address.not_precedes_self hBefore
        exact
          .inr (.inl ⟨scope, _, site, address, hNe, hFirst,
            hSecond⟩)
    | @readsItself token hops scope site hHere hDeclared hInside =>
        exact
          .inr (.inr ⟨scope, token, hops, site, address, hHere,
            hDeclared, hInside⟩)

/- The error that a node is blamed for where it breaks a rule. -/
def blame? : Node → Option ScopeError
  | stmt (.ret keyword _) => some ⟨.returnOutsideFunction, keyword⟩
  | stmt (.var name _) => some ⟨.alreadyDeclared, name⟩
  | stmt (.function name _ _) => some ⟨.alreadyDeclared, name⟩
  | param name => some ⟨.alreadyDeclared, name⟩
  | expr (.variable name _) => some ⟨.readsItself, name⟩
  | _ => none

theorem blame?_of_declared?
    {token : Token}
    (hDeclared : node.declared? = some token) :
    node.blame? = some ⟨.alreadyDeclared, token⟩ := by
  unfold declared? at hDeclared
  split at hDeclared <;> simp_all [blame?]

theorem Violates.blame
    (hViolates : root.Violates address e) :
    ∃ node, root.at? address = some node ∧
      node.blame? = some e := by
  cases hViolates with
  | returnOutsideFunction hHere _ => exact ⟨_, hHere, rfl⟩
  | alreadyDeclared hHere hDeclared _ _ _ =>
      exact ⟨_, hHere, blame?_of_declared? hDeclared⟩
  | readsItself hHere _ _ => exact ⟨_, hHere, rfl⟩

/- At one address, one rule is broken at most. -/
theorem Violates.unique
    (hViolates : root.Violates address e)
    (hOther : root.Violates address e') :
    e = e' := by
  rcases hViolates.blame with ⟨node, hNode, hBlame⟩
  rcases hOther.blame with ⟨same, hSame, hOtherBlame⟩
  rw [hNode] at hSame
  cases hSame
  rw [hBlame] at hOtherBlame
  exact Option.some.inj hOtherBlame

theorem FirstViolates.unique
    {other : Address}
    (hFirst : root.FirstViolates address e)
    (hOther : root.FirstViolates other e') :
    e = e' := by
  rcases Address.precedes_trichotomy address other with
    hBefore | rfl | hAfter
  · exact absurd hFirst.1 (hOther.2 address hBefore e)
  · exact hFirst.1.unique hOther.1
  · exact absurd hOther.1 (hFirst.2 other hAfter e')

/- A node that is never blamed breaks no rule. -/
theorem not_violates_of_blame?
    (hNode : root.at? address = some node)
    (hQuiet : node.blame? = none)
    (e : ScopeError) :
    ¬ root.Violates address e := by
  intro hViolates
  rcases hViolates.blame with ⟨same, hSame, hBlame⟩
  rw [hNode] at hSame
  cases hSame
  rw [hQuiet] at hBlame
  cases hBlame

theorem isFunction_of_declared?
    (hDeclared : node.declared? = none) :
    node.isFunction = false := by
  unfold declared? at hDeclared
  split at hDeclared <;> simp_all [isFunction]

end Lox.Node

------------------------------------------------------------
-- Described Scopes
------------------------------------------------------------

namespace Lox.Node

open Address

/-
  What a scope has when an address is reached: the names that
  are declared in it so far, those pending in whose initializer
  the address lies.
-/
structure Describes
    (root : Node)
    (address outer : Address)
    (scope : Scope) :
    Prop where
  declares :
    ∀ name, scope.declares name ↔
      ∃ site, root.DeclaredIn outer name site ∧
        site.Precedes address
  pending :
    ∀ name, scope.isPending name ↔
      ∃ site, root.DeclaredIn outer name site ∧
        root.Initializes site address

/-
  An address is reached with these scopes and this kind of the
  enclosing function, and no rule is broken before it.
-/
structure Reached
    (root : Node)
    (address : Address)
    (scopes : List Scope)
    (enclosing : FunctionKind) :
    Prop where
  scopes :
    List.Forall₂ (root.Describes address)
      (root.scopesAround address) scopes
  enclosing :
    enclosing = .function ↔ root.inFunction address
  clean :
    ∀ earlier, earlier.Precedes address →
      ∀ e, ¬ root.Violates earlier e

variable {root node : Node} {address other outer site : Address}
variable {scope : Scope} {scopes : List Scope} {name : String}

/- A declaration in a scope lies within it. -/
theorem DeclaredIn.within
    (hDeclared : root.DeclaredIn outer name site) :
    site.IsWithin outer :=
  isWithin_of_mem_scopesAround (List.mem_of_head? hDeclared.scope)

/- A description depends on the declarations passed alone. -/
theorem Describes.move
    (hDescribes : root.Describes address outer scope)
    (hBefore :
      ∀ {name site}, root.DeclaredIn outer name site →
        (site.Precedes other ↔ site.Precedes address))
    (hInside :
      ∀ {name site}, root.DeclaredIn outer name site →
        (root.Initializes site other ↔
          root.Initializes site address)) :
    root.Describes other outer scope := by
  constructor
  · intro name
    rw [hDescribes.declares]
    exact exists_congr fun site =>
      and_congr_right fun hDeclared => (hBefore hDeclared).symm
  · intro name
    rw [hDescribes.pending]
    exact exists_congr fun site =>
      and_congr_right fun hDeclared => (hInside hDeclared).symm

theorem initializes_cons_iff {index : Nat} :
    root.Initializes site (index :: address) ↔
      root.Initializes site address ∨
        site = address ∧
          ∃ node, root.at? address = some node ∧
            node.isInitialized := by
  constructor
  · rintro ⟨hWithin, hInitialized⟩
    rcases isWithin_cons_iff.mp hWithin with rfl | hWithin
    · exact .inr ⟨rfl, hInitialized⟩
    · exact .inl ⟨hWithin, hInitialized⟩
  · rintro (⟨hWithin, hInitialized⟩ | ⟨rfl, hInitialized⟩)
    · exact ⟨isWithin_cons_iff.mpr (.inr hWithin), hInitialized⟩
    · exact ⟨isWithin_cons_iff.mpr (.inl rfl), hInitialized⟩

theorem initializes_next_iff :
    root.Initializes site address.next ↔
      root.Initializes site address :=
  ⟨fun h => ⟨isWithin_next.mp h.within, h.initialized⟩,
    fun h => ⟨isWithin_next.mpr h.within, h.initialized⟩⟩

end Lox.Node
