import Mathlib.Data.List.Infix
import Mathlib.Data.List.Lex
import Lox.Program.Basic

/-
  The nodes of a program's tree, and where they stand.

  A node is a program, a statement, an expression, a parameter
  or the body of a function. Its address leads from the node
  out to the root: the position of the node within the one
  around it comes first. Read from the root inward, addresses
  are in the order of the text, a node before those within it.

  Key definitions include:
    * `Node`
    * `Node.parts`
    * `Address`
    * `Node.at?`
    * `Address.IsWithin`
    * `Address.Precedes`
    * `Node.scopesAround`
-/

------------------------------------------------------------
-- Nodes
------------------------------------------------------------

namespace Lox

inductive Node where
  | program (body : List Stmt)
  | stmt (s : Stmt)
  | expr (e : Expr)
  | param (name : Token)
  | functionBody (body : List Stmt)

/- The expressions directly within an expression. -/
def Expr.operands : Expr → List Expr
  | .literal _ => []
  | .variable _ _ => []
  | .assign _ value _ => [value]
  | .binary left _ right => [left, right]
  | .logical left _ right => [left, right]
  | .unary _ operand => [operand]
  | .grouping inner => [inner]
  | .call callee _ args => callee :: args

/- The nodes directly within a statement. -/
def Stmt.parts : Stmt → List Node
  | .expression value => [.expr value]
  | .print value => [.expr value]
  | .var _ initializer => initializer.toList.map .expr
  | .block body => body.map .stmt
  | .ifThen condition thenBranch =>
      [.expr condition, .stmt thenBranch]
  | .ifElse condition thenBranch elseBranch =>
      [.expr condition, .stmt thenBranch, .stmt elseBranch]
  | .loop condition body => [.expr condition, .stmt body]
  | .function _ params body =>
      params.map .param ++ [.functionBody body]
  | .ret _ value => value.toList.map .expr

namespace Node

/- The nodes directly within a node, in the order of the text. -/
def parts : Node → List Node
  | program body => body.map stmt
  | stmt s => s.parts
  | expr e => e.operands.map expr
  | param _ => []
  | functionBody body => body.map stmt

/-
  Whether the nodes within a node stand in a scope of their
  own. A function opens that of its parameters, and its body
  opens another one within.
-/
def opensScope : Node → Bool
  | stmt (.block _) => true
  | stmt (.function _ _ _) => true
  | functionBody _ => true
  | _ => false

/- The name that a node declares in the scope around it. -/
def declared? : Node → Option Token
  | stmt (.var name _) => some name
  | stmt (.function name _ _) => some name
  | param name => some name
  | _ => none

/- The name that a node reads or assigns. -/
def used? : Node → Option Token
  | expr (.variable name _) => some name
  | expr (.assign name _ _) => some name
  | _ => none

/- The number of scopes that is filled in at a node. -/
def hops? : Node → Option Nat
  | expr (.variable _ hops) => hops
  | expr (.assign _ _ hops) => hops
  | _ => none

/- Whether a node is a function declaration. -/
def isFunction : Node → Bool
  | stmt (.function _ _ _) => true
  | _ => false

/- Whether a node declares a variable with an initializer. -/
def isInitialized : Node → Bool
  | stmt (.var _ (some _)) => true
  | _ => false

end Node

end Lox

------------------------------------------------------------
-- Addresses
------------------------------------------------------------

namespace Lox

/-
  The position of a node within the one around it, then that
  of the one around it, and so on to the root.
-/
abbrev Address :=
  List Nat

namespace Address

/- A node within another one, at any depth. -/
def IsWithin (address outer : Address) : Prop :=
  ∃ (path : Address) (index : Nat),
    address = path ++ index :: outer

/- A node stands before another one in the text. -/
def Precedes (address other : Address) : Prop :=
  address.reverse < other.reverse

/- The address right after a node and all within it. -/
def next : Address → Address
  | [] => []
  | index :: outer => (index + 1) :: outer

end Address

namespace Node

/- The node at an address below a root. -/
def at? (root : Node) : Address → Option Node
  | [] => some root
  | index :: outer =>
      (root.at? outer).bind fun node => node.parts[index]?

/- The scopes that enclose an address, innermost first. -/
def scopesAround (root : Node) : Address → List Address
  | [] => []
  | _ :: outer =>
      if (root.at? outer).any opensScope then
        outer :: root.scopesAround outer
      else root.scopesAround outer

/- Whether an address lies in a function. -/
def inFunction (root : Node) : Address → Bool
  | [] => false
  | _ :: outer =>
      (root.at? outer).any isFunction || root.inFunction outer

variable {root node : Node} {address outer : Address}

theorem at?_append
    (root : Node)
    (path address : Address) :
    root.at? (path ++ address) =
      (root.at? address).bind fun node => node.at? path := by
  induction path with
  | nil => simp [at?]
  | cons index path ih =>
      simp only [List.cons_append, at?, ih, Option.bind_assoc]

/- An address that is in use has all its outer ones in use. -/
theorem at?_of_isWithin
    (hNode : root.at? address = some node)
    (hWithin : address.IsWithin outer) :
    ∃ around, root.at? outer = some around := by
  rcases hWithin with ⟨path, index, rfl⟩
  rw [at?_append] at hNode
  rcases Option.bind_eq_some_iff.mp hNode with ⟨inner, hInner, _⟩
  rcases Option.bind_eq_some_iff.mp hInner with
    ⟨around, hAround, _⟩
  exact ⟨around, hAround⟩

end Node

end Lox

------------------------------------------------------------
-- Within
------------------------------------------------------------

namespace Lox.Address

variable {address outer site : Address} {index : Nat}

theorem isWithin_cons_iff :
    IsWithin (index :: address) outer ↔
      address = outer ∨ address.IsWithin outer := by
  constructor
  · rintro ⟨path, position, hPath⟩
    cases path with
    | nil =>
        cases hPath
        exact .inl rfl
    | cons first path =>
        cases hPath
        exact .inr ⟨path, position, rfl⟩
  · rintro (rfl | ⟨path, position, rfl⟩)
    · exact ⟨[], index, rfl⟩
    · exact ⟨index :: path, position, rfl⟩

theorem not_isWithin_nil : ¬ IsWithin [] outer := by
  rintro ⟨path, index, hPath⟩
  simp at hPath

theorem IsWithin.length_lt (hWithin : address.IsWithin outer) :
    outer.length < address.length := by
  rcases hWithin with ⟨path, index, rfl⟩
  simp only [List.length_append, List.length_cons]
  omega

/- What lies within a node does not depend on its position. -/
theorem isWithin_next :
    address.next.IsWithin outer ↔ address.IsWithin outer := by
  cases address with
  | nil => rfl
  | cons index address =>
      rw [next, isWithin_cons_iff, isWithin_cons_iff]

/- One of two nodes around a third lies within the other. -/
theorem eq_or_isWithin_of_append
    {path : Address}
    (hPath : address = path ++ outer) :
    address = outer ∨ address.IsWithin outer := by
  induction path generalizing address with
  | nil => exact .inl hPath
  | cons index path ih =>
      subst hPath
      exact .inr (isWithin_cons_iff.mpr (ih rfl))

end Lox.Address

------------------------------------------------------------
-- The Order Of The Text
------------------------------------------------------------

namespace Lox.Address

/-
  What comes before the end of a list whose last number is
  given: all that comes before the rest of the list, the rest
  itself, and what goes on from it with a smaller number.
-/
theorem lt_concat_iff
    {front list : List Nat}
    {index : Nat} :
    list < front ++ [index] ↔
      list < front ∨ list = front ∨
        ∃ smaller < index, front ++ [smaller] <+: list := by
  induction front generalizing list with
  | nil =>
      cases list with
      | nil => simp
      | cons first list =>
          simp [List.cons_lt_cons_iff, List.prefix_cons_iff]
  | cons head front ih =>
      cases list with
      | nil => simp
      | cons first list =>
          simp only [List.cons_append, List.cons_lt_cons_iff, ih,
            List.cons.injEq, List.cons_prefix_cons]
          grind

variable {address site : Address} {index : Nat}

/- What precedes a place within a node. -/
theorem precedes_cons_iff :
    site.Precedes (index :: address) ↔
      site.Precedes address ∨ site = address ∨
        ∃ smaller < index,
          site = smaller :: address ∨
            site.IsWithin (smaller :: address) := by
  unfold Precedes
  rw [List.reverse_cons, lt_concat_iff, List.reverse_inj]
  have hPrefix (smaller : Nat) :
      address.reverse ++ [smaller] <+: site.reverse ↔
        site = smaller :: address ∨
          site.IsWithin (smaller :: address) := by
    rw [← List.reverse_cons, List.reverse_prefix]
    constructor
    · rintro ⟨path, hPath⟩
      exact eq_or_isWithin_of_append hPath.symm
    · rintro (rfl | ⟨path, position, rfl⟩)
      · exact List.suffix_refl _
      · exact ⟨path ++ [position], by simp⟩
  simp only [hPrefix]

theorem precedes_first_iff :
    site.Precedes (0 :: address) ↔
      site.Precedes address ∨ site = address := by
  simp [precedes_cons_iff]

theorem not_precedes_self : ¬ address.Precedes address :=
  List.lt_irrefl _

theorem not_precedes_nil : ¬ site.Precedes [] := by
  simp [Precedes]

/- Of two addresses one stands before the other. -/
theorem precedes_trichotomy (address other : Address) :
    address.Precedes other ∨ address = other ∨
      other.Precedes address := by
  have hOrder := lt_trichotomy address.reverse other.reverse
  rwa [List.reverse_inj] at hOrder

/- A node stands before all that lies within it. -/
theorem IsWithin.precedes (hWithin : address.IsWithin site) :
    site.Precedes address := by
  induction address with
  | nil => exact absurd hWithin not_isWithin_nil
  | cons index address ih =>
      apply precedes_cons_iff.mpr
      rcases isWithin_cons_iff.mp hWithin with hSame | hInner
      · exact .inr (.inl hSame.symm)
      · exact .inl (ih hInner)

end Lox.Address

------------------------------------------------------------
-- Nodes In Use
------------------------------------------------------------

namespace Lox.Node

open Address

variable {root node other : Node}
variable {address outer site scope : Address}

/- A node within another one lies within one of its parts. -/
theorem exists_part_of_isWithin
    (hNode : root.at? address = some node)
    (hSite : root.at? site = some other)
    (hWithin : site.IsWithin address) :
    ∃ index < node.parts.length,
      site = index :: address ∨
        site.IsWithin (index :: address) := by
  rcases hWithin with ⟨path, index, rfl⟩
  have hPart : ∃ part, root.at? (index :: address) = some part := by
    cases path with
    | nil => exact ⟨other, hSite⟩
    | cons first path =>
        apply at?_of_isWithin hSite
        exact isWithin_cons_iff.mpr (eq_or_isWithin_of_append rfl)
  rcases hPart with ⟨part, hPart⟩
  rw [at?, hNode, Option.bind_some] at hPart
  exact
    ⟨index, (List.getElem?_eq_some_iff.mp hPart).1,
      eq_or_isWithin_of_append rfl⟩

/-
  Right after a node is right after the last of its parts, as
  far as nodes of the tree are concerned.
-/
theorem precedes_next_iff
    (hNode : root.at? address = some node)
    (hRoot : address ≠ [])
    (hSite : root.at? site = some other) :
    site.Precedes address.next ↔
      site.Precedes (node.parts.length :: address) := by
  cases address with
  | nil => exact absurd rfl hRoot
  | cons index outer =>
      rw [next, precedes_cons_iff, precedes_cons_iff,
        precedes_cons_iff]
      constructor
      · rintro (hBefore | rfl | ⟨smaller, hSmaller, hHere⟩)
        · exact .inl (.inl hBefore)
        · exact .inl (.inr (.inl rfl))
        · rcases Nat.lt_succ_iff_lt_or_eq.mp hSmaller with
            hLess | rfl
          · exact .inl (.inr (.inr ⟨smaller, hLess, hHere⟩))
          · rcases hHere with hSame | hWithin
            · exact .inr (.inl hSame)
            · have hPart :=
                exists_part_of_isWithin hNode hSite hWithin
              exact .inr (.inr hPart)
      · rintro (hBefore | rfl | ⟨part, _, hHere⟩)
        · rcases hBefore with hBefore | rfl | ⟨smaller, hLess, hHere⟩
          · exact .inl hBefore
          · exact .inr (.inl rfl)
          · exact .inr (.inr ⟨smaller, by omega, hHere⟩)
        · exact .inr (.inr ⟨index, by omega, .inl rfl⟩)
        · refine .inr (.inr ⟨index, by omega, .inr ?_⟩)
          rcases hHere with rfl | ⟨path, position, rfl⟩
          · exact ⟨[], part, rfl⟩
          · exact ⟨path ++ [position], part, by simp⟩

end Lox.Node

------------------------------------------------------------
-- Enclosing Scopes
------------------------------------------------------------

namespace Lox.Node

open Address

variable {root node other : Node}
variable {address outer site scope : Address} {index : Nat}

theorem scopesAround_of_opensScope
    (hNode : root.at? address = some node)
    (hOpens : node.opensScope = true) :
    root.scopesAround (index :: address) =
      address :: root.scopesAround address := by
  simp [scopesAround, hNode, hOpens]

theorem scopesAround_of_not_opensScope
    (hNode : root.at? address = some node)
    (hOpens : node.opensScope = false) :
    root.scopesAround (index :: address) =
      root.scopesAround address := by
  simp [scopesAround, hNode, hOpens]

theorem scopesAround_next :
    root.scopesAround address.next = root.scopesAround address := by
  cases address <;> rfl

theorem inFunction_next :
    root.inFunction address.next = root.inFunction address := by
  cases address <;> rfl

/- The scopes around an address are nodes around it. -/
theorem isWithin_of_mem_scopesAround
    (hScope : scope ∈ root.scopesAround address) :
    address.IsWithin scope := by
  induction address with
  | nil => simp [scopesAround] at hScope
  | cons index outer ih =>
      apply isWithin_cons_iff.mpr
      unfold scopesAround at hScope
      split at hScope
      · rcases List.mem_cons.mp hScope with rfl | hScope
        · exact .inl rfl
        · exact .inr (ih hScope)
      · exact .inr (ih hScope)

/- No scope encloses an address twice. -/
theorem nodup_scopesAround (root : Node) (address : Address) :
    (root.scopesAround address).Nodup := by
  induction address with
  | nil => exact List.nodup_nil
  | cons index outer ih =>
      unfold scopesAround
      split
      · refine List.nodup_cons.mpr ⟨?_, ih⟩
        intro hMem
        exact absurd (isWithin_of_mem_scopesAround hMem).length_lt
          (Nat.lt_irrefl _)
      · exact ih

/- Within an expression there is nothing but expressions. -/
theorem expr_of_mem_parts
    (hPart : other ∈ node.parts)
    (hNode : (∃ e, node = .expr e) ∨ node.isInitialized) :
    ∃ e, other = .expr e := by
  rcases hNode with ⟨e, rfl⟩ | hInitialized
  · rcases List.mem_map.mp hPart with ⟨e, _, rfl⟩
    exact ⟨e, rfl⟩
  · unfold isInitialized at hInitialized
    split at hInitialized
    · rename_i name value
      have hSame : other = .expr value := by
        simpa [parts, Stmt.parts] using hPart
      exact ⟨value, hSame⟩
    · cases hInitialized

/-
  Within the initializer of a variable there are only
  expressions, so the scopes are those around the variable.
-/
theorem within_initializer
    (hSite : root.at? site = some node)
    (hInitialized : node.isInitialized)
    (hNode : root.at? address = some other)
    (hWithin : address.IsWithin site) :
    (∃ e, other = .expr e) ∧
      root.scopesAround address = root.scopesAround site := by
  rcases hWithin with ⟨path, index, rfl⟩
  induction path generalizing other with
  | nil =>
      rw [List.nil_append, at?, hSite, Option.bind_some] at hNode
      have hQuiet : node.opensScope = false := by
        unfold isInitialized at hInitialized
        split at hInitialized
        · rfl
        · cases hInitialized
      exact
        ⟨expr_of_mem_parts (List.mem_of_getElem? hNode)
            (.inr hInitialized),
          scopesAround_of_not_opensScope hSite hQuiet⟩
  | cons first path ih =>
      rw [List.cons_append, at?] at hNode
      rcases Option.bind_eq_some_iff.mp hNode with
        ⟨around, hAround, hPart⟩
      rcases ih hAround with ⟨⟨e, rfl⟩, hScopes⟩
      exact
        ⟨expr_of_mem_parts (List.mem_of_getElem? hPart)
            (.inl ⟨e, rfl⟩),
          (scopesAround_of_not_opensScope hAround rfl).trans
            hScopes⟩

end Lox.Node
