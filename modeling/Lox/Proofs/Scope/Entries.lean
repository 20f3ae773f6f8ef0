import Mathlib.Data.Set.Card
import Mathlib.Order.Bounds.Basic
import Lox.Proofs.Scope.Passage

/-
  The numbers of scopes that a resolver fills in.

  The entries of a tree are the addresses at which a number is
  filled in. A number is the right one for a name if it leads
  to the nearest of the scopes around its address that declares
  the name before that address, and there has to be none if no
  scope does.

  Key definitions include:
    * `Node.Locates`
    * `Node.entries`
    * `Node.Fills`
    * `Node.Walked`
    * `Node.WalkedParts`
-/

------------------------------------------------------------
-- The Right Numbers
------------------------------------------------------------

namespace Lox.Node

open Resolver

/-
  A number of scopes is the least of those that bind a name at
  an address, and is absent if none does.
-/
structure Locates
    (root : Node)
    (address : Address)
    (name : String)
    (hops : Option Nat) :
    Prop where
  least :
    ∀ distance, hops = some distance ↔
      IsLeast {h | root.Binds address name h} distance
  absent :
    hops = none ↔ ∀ distance, ¬ root.Binds address name distance

variable {root : Node} {address : Address} {name : String}
variable {scopes : List Scope} {enclosing : FunctionKind}

/- The scopes that bind a name are those that have it. -/
theorem Reached.binds_iff
    (hReached : root.Reached address scopes enclosing)
    {distance : Nat} :
    root.Binds address name distance ↔
      ∃ scope, scopes[distance]? = some scope ∧
        scope.declares name := by
  have hScopes := List.forall₂_iff_get.mp hReached.scopes
  constructor
  · rintro ⟨outer, site, hOuter, hSite, hBefore⟩
    rcases List.getElem?_eq_some_iff.mp hOuter with ⟨hLength, rfl⟩
    have hLong : distance < scopes.length := hScopes.1 ▸ hLength
    refine
      ⟨scopes[distance], List.getElem?_eq_getElem hLong, ?_⟩
    exact
      ((hScopes.2 distance hLength hLong).declares name).mpr
        ⟨site, hSite, hBefore⟩
  · rintro ⟨scope, hScope, hDeclares⟩
    rcases List.getElem?_eq_some_iff.mp hScope with ⟨hLong, rfl⟩
    have hLength : distance < (root.scopesAround address).length :=
      hScopes.1 ▸ hLong
    rcases
      ((hScopes.2 distance hLength hLong).declares name).mp
        hDeclares with
      ⟨site, hSite, hBefore⟩
    exact
      ⟨_, site, List.getElem?_eq_getElem hLength, hSite, hBefore⟩

/- What is found in the scopes is what the tree says. -/
theorem Reached.locates
    (hReached : root.Reached address scopes enclosing)
    (name : String) :
    root.Locates address name (hopsTo? scopes name) := by
  unfold hopsTo?
  constructor
  · intro distance
    rw [List.findIdx?_eq_some_iff_getElem]
    constructor
    · rintro ⟨hLength, hHere, hBefore⟩
      constructor
      · exact
          hReached.binds_iff.mpr
            ⟨_, List.getElem?_eq_getElem hLength, hHere⟩
      · intro other hBinds
        rcases hReached.binds_iff.mp hBinds with
          ⟨scope, hScope, hDeclares⟩
        rcases List.getElem?_eq_some_iff.mp hScope with
          ⟨hOther, rfl⟩
        by_contra hLess
        exact hBefore other (by omega) hDeclares
    · rintro ⟨hBinds, hLeast⟩
      rcases hReached.binds_iff.mp hBinds with
        ⟨scope, hScope, hDeclares⟩
      rcases List.getElem?_eq_some_iff.mp hScope with
        ⟨hLength, rfl⟩
      refine ⟨hLength, hDeclares, ?_⟩
      intro other hLess hOther
      have hNear := hLeast
        (hReached.binds_iff.mpr
          ⟨_, List.getElem?_eq_getElem (by omega), hOther⟩)
      omega
  · rw [List.findIdx?_eq_none_iff]
    constructor
    · intro hNone distance hBinds
      rcases hReached.binds_iff.mp hBinds with
        ⟨scope, hScope, hDeclares⟩
      have hNot := hNone scope (List.mem_of_getElem? hScope)
      rw [hDeclares] at hNot
      cases hNot
    · intro hNone scope hMem
      rcases List.getElem?_of_mem hMem with ⟨distance, hScope⟩
      by_contra hDeclares
      exact
        hNone distance
          (hReached.binds_iff.mpr
            ⟨scope, hScope, by simpa using hDeclares⟩)

end Lox.Node

------------------------------------------------------------
-- Entries
------------------------------------------------------------

namespace Lox.Node

/- The addresses at which a number of scopes is filled in. -/
def entries (filled : Node) : Set Address :=
  {address | ∃ node hops,
    filled.at? address = some node ∧ node.hops? = some hops}

/- The entries below nodes that stand one after another. -/
def entriesBelow (parts : List Node) : Set Address :=
  {address | ∃ path index part,
    address = path ++ [index] ∧ parts[index]? = some part ∧
      path ∈ part.entries}

theorem entriesBelow_concat
    (parts : List Node)
    (part : Node) :
    entriesBelow (parts ++ [part]) =
      entriesBelow parts ∪
        (fun path => path ++ [parts.length]) '' part.entries := by
  ext address
  constructor
  · rintro ⟨path, index, node, rfl, hNode, hPath⟩
    rcases Nat.lt_trichotomy index parts.length with
      hLess | rfl | hMore
    · rw [List.getElem?_append_left hLess] at hNode
      exact .inl ⟨path, index, node, rfl, hNode, hPath⟩
    · rw [List.getElem?_concat_length] at hNode
      cases hNode
      exact .inr ⟨path, hPath, rfl⟩
    · have hLength := (List.getElem?_eq_some_iff.mp hNode).1
      simp only [List.length_append, List.length_singleton]
        at hLength
      omega
  · rintro (⟨path, index, node, rfl, hNode, hPath⟩ |
      ⟨path, hPath, rfl⟩)
    · have hLess := (List.getElem?_eq_some_iff.mp hNode).1
      refine ⟨path, index, node, rfl, ?_, hPath⟩
      rw [List.getElem?_append_left hLess, hNode]
    · exact
        ⟨path, parts.length, part, rfl,
          List.getElem?_concat_length, hPath⟩

/- The entries below nodes are those of each of them. -/
theorem encard_entriesBelow (parts : List Node) :
    (entriesBelow parts).encard =
      (parts.map fun part => part.entries.encard).sum := by
  induction parts using List.reverseRecOn with
  | nil => simp [entriesBelow]
  | append_singleton parts part ih =>
      have hApart :
          Disjoint (entriesBelow parts)
            ((fun path => path ++ [parts.length]) ''
              part.entries) := by
        apply Set.disjoint_left.mpr
        rintro address ⟨path, index, node, rfl, hNode, _⟩
          ⟨other, _, hSame⟩
        have hLess := (List.getElem?_eq_some_iff.mp hNode).1
        have hLast := (List.append_inj' hSame rfl).2
        simp only [List.cons.injEq, and_true] at hLast
        omega
      have hOne :
          ((fun path : Address => path ++ [parts.length]) ''
            part.entries).encard = part.entries.encard :=
        (List.append_left_injective _).encard_image _
      rw [entriesBelow_concat, Set.encard_union_eq hApart, hOne,
        ih]
      simp

/- An entry within a node is one below its parts. -/
theorem concat_mem_entries_iff
    {filled : Node}
    {path : Address}
    {index : Nat} :
    path ++ [index] ∈ filled.entries ↔
      path ++ [index] ∈ entriesBelow filled.parts := by
  constructor
  · rintro ⟨node, hops, hNode, hHops⟩
    rw [at?_append] at hNode
    rcases Option.bind_eq_some_iff.mp hNode with
      ⟨part, hPart, hInner⟩
    exact ⟨path, index, part, rfl, hPart, node, hops, hInner, hHops⟩
  · rintro ⟨other, position, part, hSame, hPart, hInner⟩
    rcases List.append_inj' hSame rfl with ⟨rfl, hIndex⟩
    cases hIndex
    rcases hInner with ⟨node, hops, hNode, hHops⟩
    refine ⟨node, hops, ?_, hHops⟩
    rw [at?_append]
    exact Option.bind_eq_some_iff.mpr ⟨part, hPart, hNode⟩

/- A node has its own entry, and those below its parts. -/
theorem encard_entries (filled : Node) :
    filled.entries.encard =
      (filled.parts.map fun part => part.entries.encard).sum +
        (if filled.hops?.isSome then 1 else 0) := by
  have hNotBelow : [] ∉ entriesBelow filled.parts := by
    rintro ⟨path, index, part, hNil, _⟩
    simp at hNil
  have hOwn : [] ∈ filled.entries ↔ filled.hops?.isSome := by
    simp [entries, at?, Option.isSome_iff_exists]
  have hBelow :
      ∀ {address}, address ≠ [] →
        (address ∈ filled.entries ↔
          address ∈ entriesBelow filled.parts) := by
    intro address hAddress
    rcases List.eq_nil_or_concat' address with hNil | hConcat
    · exact absurd hNil hAddress
    · rcases hConcat with ⟨path, index, rfl⟩
      exact concat_mem_entries_iff
  rw [← encard_entriesBelow]
  by_cases hHops : filled.hops?.isSome
  · have hSplit :
        filled.entries = insert [] (entriesBelow filled.parts) := by
      ext address
      by_cases hNil : address = []
      · simp [hNil, hOwn, hHops]
      · simp [hNil, hBelow hNil]
    rw [if_pos hHops, hSplit, Set.encard_insert_of_notMem hNotBelow]
  · have hSplit : filled.entries = entriesBelow filled.parts := by
      ext address
      by_cases hNil : address = []
      · simp [hNil, hOwn, hHops, hNotBelow]
      · exact hBelow hNil
    rw [if_neg hHops, hSplit, add_zero]

end Lox.Node

------------------------------------------------------------
-- Walked Nodes
------------------------------------------------------------

namespace Lox.Node

/-
  A tree that stands at an address has the right number at each
  of its uses.
-/
def Fills
    (root : Node)
    (address : Address)
    (filled : Node) :
    Prop :=
  ∀ path node token,
    filled.at? path = some node → node.used? = some token →
      root.Locates (path ++ address) token.lexeme node.hops?

/-
  The resolver has come from an address to the end of the node
  there, which it has filled in, with one number recorded for
  each entry.
-/
structure Walked
    (root : Node)
    (address : Address)
    (r : Resolver)
    (filled : Node)
    (u : Resolver) :
    Prop where
  reached : root.Reached address.next u.scopes u.enclosing
  fills : root.Fills address filled
  recorded :
    (u.recorded.size : ℕ∞) =
      r.recorded.size + filled.entries.encard

/-
  It has passed some of the parts of the node at an address,
  from a given one on.
-/
structure WalkedParts
    (root : Node)
    (address : Address)
    (first : Nat)
    (r : Resolver)
    (parts : List Node)
    (u : Resolver) :
    Prop where
  reached :
    root.Reached ((first + parts.length) :: address) u.scopes
      u.enclosing
  fills :
    ∀ index part, parts[index]? = some part →
      root.Fills ((first + index) :: address) part
  recorded :
    (u.recorded.size : ℕ∞) =
      r.recorded.size +
        (parts.map fun part => part.entries.encard).sum

variable {root filled part : Node} {address : Address}
variable {first : Nat} {parts others : List Node}
variable {r u v : Resolver}

theorem Reached.walkedNone
    (hReached :
      root.Reached (first :: address) r.scopes r.enclosing) :
    root.WalkedParts address first r [] r :=
  ⟨hReached, by simp, by simp⟩

theorem Walked.single
    (hWalked : root.Walked (first :: address) r part u) :
    root.WalkedParts address first r [part] u := by
  refine ⟨hWalked.reached, ?_, ?_⟩
  · intro index other hOther
    rcases List.getElem?_eq_some_iff.mp hOther with ⟨hIndex, rfl⟩
    have hZero : index = 0 := by simpa using hIndex
    subst hZero
    exact hWalked.fills
  · simpa using hWalked.recorded

theorem WalkedParts.append
    (hParts : root.WalkedParts address first r parts u)
    (hOthers :
      root.WalkedParts address (first + parts.length) u others v) :
    root.WalkedParts address first r (parts ++ others) v := by
  refine ⟨?_, ?_, ?_⟩
  · rw [List.length_append, ← Nat.add_assoc]
    exact hOthers.reached
  · intro index part hPart
    by_cases hLess : index < parts.length
    · rw [List.getElem?_append_left hLess] at hPart
      exact hParts.fills index part hPart
    · rw [List.getElem?_append_right (by omega)] at hPart
      have hFills := hOthers.fills _ part hPart
      rwa [show first + parts.length + (index - parts.length) =
        first + index by omega] at hFills
  · rw [hOthers.recorded, hParts.recorded, List.map_append,
      List.sum_append, add_assoc]

/- Only the numbers recorded at the start are counted from. -/
theorem WalkedParts.since
    (hParts : root.WalkedParts address first r parts u)
    (hRecorded : r.recorded = v.recorded) :
    root.WalkedParts address first v parts u :=
  ⟨hParts.reached, hParts.fills, hRecorded ▸ hParts.recorded⟩

/-
  A node is walked when its parts are, and its own number, if
  it has one, is the right one and has been recorded.
-/
theorem WalkedParts.walked
    (hParts : root.WalkedParts address 0 r filled.parts u)
    (hReached : root.Reached address.next v.scopes v.enclosing)
    (hOwn :
      ∀ token, filled.used? = some token →
        root.Locates address token.lexeme filled.hops?)
    (hRecorded :
      v.recorded.size =
        u.recorded.size + if filled.hops?.isSome then 1 else 0) :
    root.Walked address r filled v := by
  refine ⟨hReached, ?_, ?_⟩
  · intro path node token hNode hUsed
    rcases List.eq_nil_or_concat' path with rfl | ⟨inner, index, rfl⟩
    · cases hNode
      exact hOwn token hUsed
    · rw [at?_append] at hNode
      rcases Option.bind_eq_some_iff.mp hNode with
        ⟨part, hPart, hInner⟩
      have hFills := hParts.fills index part hPart
      rw [Nat.zero_add] at hFills
      simpa using hFills inner node token hInner hUsed
  · rw [hRecorded, encard_entries, Nat.cast_add, hParts.recorded,
      add_assoc]
    congr 2
    split <;> rfl

/- So is a node that uses no name. -/
theorem WalkedParts.walkedPlain
    (hParts : root.WalkedParts address 0 r filled.parts u)
    (hReached : root.Reached address.next v.scopes v.enclosing)
    (hUsed : filled.used? = none)
    (hHops : filled.hops? = none)
    (hRecorded : v.recorded = u.recorded) :
    root.Walked address r filled v := by
  apply hParts.walked hReached
  · intro token hToken
    rw [hUsed] at hToken
    cases hToken
  · rw [hRecorded, hHops]
    rfl

end Lox.Node
