import Lox.Proofs.Machine.Moments

/-
  The tree of environments.

  A function lies in an environment and may be bound in the
  same one, so that environments and values together can run
  in circles. The links between environments never do: each
  environment lies within an older one, up to one that lies
  within none. No run changes this, whatever it binds where,
  and the globals stay the only environment within none unless
  a native function makes others.

  Key definitions include:
    * `Store.Walks`
    * `Store.Tree`
    * `Store.Tree.line`
    * `Custody.ofTree`
-/

------------------------------------------------------------
-- Following The Links
------------------------------------------------------------

namespace Lox.Store

/-
  The links from an environment to their end, with all the
  environments that they lead through.
-/
inductive Walks (s : Store) : EnvId → List EnvId → Prop where
  | top
      {env : EnvId}
      (hTop : s.parent? env = none) :
      Walks s env [env]
  | up
      {env outer : EnvId} {rest : List EnvId}
      (hParent : s.parent? env = some outer)
      (hRest : Walks s outer rest) :
      Walks s env (env :: rest)

/-
  An environment from which the links come to an end: they
  lead to no environment twice, and the last one is `top`. To
  look up the chain is to follow them, be it by name or by
  distance.
-/
structure Line (s : Store) (env top : EnvId) : Prop where
  walks : s.Walks env (s.chain env)
  nodup : (s.chain env).Nodup
  last : (s.chain env).getLast? = some top
  whole :
    ∀ links, env ≤ links → s.chainWithin links env = s.chain env
  ancestor :
    ∀ distance, s.ancestor? env distance = (s.chain env)[distance]?

/- Each environment lies within an older one, if in any. -/
def Descends (s : Store) : Prop :=
  ∀ env outer, s.parent? env = some outer → outer < env

namespace Descends

variable {s : Store} {env outer : EnvId} {links : Nat}

/- More links than there are environments lead no further. -/
theorem chainWithin_eq
    (hDescends : s.Descends)
    (hLinks : env ≤ links) :
    s.chainWithin links env = s.chain env := by
  unfold chain
  induction env using Nat.strongRecOn generalizing links with
  | _ env ih =>
      cases hParent : s.parent? env with
      | none =>
          cases links <;> cases env <;> simp [chainWithin, hParent]
      | some outer =>
          have hOuter := hDescends env outer hParent
          have hMany := Nat.lt_of_lt_of_le hOuter hLinks
          cases env with
          | zero => exact absurd hOuter (Nat.not_lt_zero _)
          | succ older =>
              cases links with
              | zero => exact absurd hMany (Nat.not_lt_zero _)
              | succ links =>
                  simp only [chainWithin, hParent]
                  rw [ih outer hOuter (Nat.le_of_lt_succ hMany),
                    ih outer hOuter (Nat.le_of_lt_succ hOuter)]

theorem chain_of_some
    (hDescends : s.Descends)
    (hParent : s.parent? env = some outer) :
    s.chain env = env :: s.chain outer := by
  have hOuter := hDescends env outer hParent
  have hMore : s.chainWithin (env + 1) env = s.chain env :=
    hDescends.chainWithin_eq (Nat.le_succ env)
  rw [← hMore]
  simp only [chainWithin, hParent]
  rw [hDescends.chainWithin_eq (Nat.le_of_lt hOuter)]

theorem walks (hDescends : s.Descends) (env : EnvId) :
    s.Walks env (s.chain env) := by
  induction env using Nat.strongRecOn with
  | _ env ih =>
      cases hParent : s.parent? env with
      | none =>
          rw [chain_of_none hParent]
          exact .top hParent
      | some outer =>
          rw [hDescends.chain_of_some hParent]
          exact .up hParent (ih outer (hDescends env outer hParent))

end Descends

namespace Walks

variable {s : Store} {env top : EnvId} {walk : List EnvId}

/- What the links lead through is not younger. -/
theorem le_of_mem
    {found : EnvId}
    (hWalks : s.Walks env walk)
    (hDescends : s.Descends)
    (hMem : found ∈ walk) :
    found ≤ env := by
  induction hWalks with
  | top => exact Nat.le_of_eq (List.mem_singleton.mp hMem)
  | up hParent _ ih =>
      rcases List.mem_cons.mp hMem with rfl | hMem
      · exact Nat.le_refl _
      · exact
          Nat.le_of_lt
            (Nat.lt_of_le_of_lt (ih hMem)
              (hDescends _ _ hParent))

theorem eq_chain
    (hWalks : s.Walks env walk)
    (hDescends : s.Descends) :
    walk = s.chain env := by
  induction hWalks with
  | top hTop => exact (chain_of_none hTop).symm
  | up hParent _ ih =>
      rw [hDescends.chain_of_some hParent, ih]

/- Of two environments on the way the older one is further. -/
theorem mem_chain_of_lt
    {older younger : EnvId}
    (hWalks : s.Walks env walk)
    (hDescends : s.Descends)
    (hOlder : older ∈ walk)
    (hYounger : younger ∈ walk)
    (hLt : older < younger) :
    older ∈ s.chain younger := by
  induction hWalks with
  | top =>
      rw [List.mem_singleton.mp hOlder,
        List.mem_singleton.mp hYounger] at hLt
      exact absurd hLt (Nat.lt_irrefl _)
  | up hParent hRest ih =>
      rcases List.mem_cons.mp hYounger with rfl | hRestYounger
      · rw [← (Walks.up hParent hRest).eq_chain hDescends]
        exact hOlder
      · rcases List.mem_cons.mp hOlder with rfl | hRestOlder
        · have hLe := hRest.le_of_mem hDescends hRestYounger
          have hLess := hDescends _ _ hParent
          exact
            absurd (Nat.lt_trans hLt (Nat.lt_of_le_of_lt hLe hLess))
              (Nat.lt_irrefl _)
        · exact ih hRestOlder hRestYounger

theorem nodup
    (hWalks : s.Walks env walk)
    (hDescends : s.Descends) :
    walk.Nodup := by
  induction hWalks with
  | top => simp
  | up hParent hRest ih =>
      refine List.nodup_cons.mpr ⟨?_, ih⟩
      intro hMem
      have hOlder := hDescends _ _ hParent
      have hNotOlder := hRest.le_of_mem hDescends hMem
      exact Nat.not_lt_of_le hNotOlder hOlder

theorem exists_last (hWalks : s.Walks env walk) :
    ∃ top, walk.getLast? = some top ∧ s.parent? top = none := by
  induction hWalks with
  | top hTop => exact ⟨_, rfl, hTop⟩
  | up _ hRest ih =>
      rcases ih with ⟨top, hLast, hTop⟩
      refine ⟨top, ?_, hTop⟩
      cases hRest <;> simpa using hLast

theorem ancestor
    (hWalks : s.Walks env walk)
    (distance : Nat) :
    s.ancestor? env distance = walk[distance]? := by
  induction hWalks generalizing distance with
  | top hTop =>
      cases distance with
      | zero => rfl
      | succ distance => simp [ancestor?, hTop]
  | up hParent _ ih =>
      cases distance with
      | zero => rfl
      | succ distance => simp [ancestor?, hParent, ih]

end Walks

theorem Descends.line
    {s : Store}
    (hDescends : s.Descends)
    (env : EnvId) :
    ∃ top, s.Line env top ∧ s.parent? top = none := by
  have hWalks := hDescends.walks env
  rcases hWalks.exists_last with ⟨top, hLast, hTop⟩
  exact
    ⟨top,
      ⟨hWalks, hWalks.nodup hDescends, hLast,
        fun _ hLinks => hDescends.chainWithin_eq hLinks,
        hWalks.ancestor⟩,
      hTop⟩

end Lox.Store

------------------------------------------------------------
-- Trees
------------------------------------------------------------

namespace Lox

/- A native function that makes no functions of the language. -/
def Native.MakesNone (native : Native) : Prop :=
  ∀ name params, native.behavior ≠ .makeFunction name params

/-
  A store whose environments form a tree: each lies within an
  older one, the globals within none, and a bound function in
  one that is there. If the globals are to be `alone`, no other
  environment lies within none, and no native function that is
  bound makes another.
-/
structure Store.Tree
    (s : Store)
    (globals : EnvId)
    (alone : Prop) :
    Prop where
  globals_lt : globals < s.next
  globals_top : s.parent? globals = none
  descends : s.Descends
  bound :
    ∀ env name f,
      s.local? env name = some (.function f) → f.env < s.next
  natives :
    alone → ∀ env name f,
      s.local? env name = some (.native f) → f.toNative.MakesNone
  only :
    alone → ∀ env < s.next, s.parent? env = none → env = globals

namespace Store.Tree

variable {s : Store} {globals : EnvId} {alone : Prop}

theorem make
    {parent : Option EnvId}
    (hTree : s.Tree globals alone)
    (hOlder : ∀ outer, parent = some outer → outer < s.next)
    (hAlone : alone → parent ≠ none) :
    (s.make parent).Tree globals alone := by
  have hGrows := Store.Grows.make s parent
  constructor
  · exact Nat.lt_of_lt_of_le hTree.globals_lt hGrows.next_le
  · rw [parent?_make_of_lt hTree.globals_lt]
    exact hTree.globals_top
  · intro env outer hParent
    rw [parent?_make] at hParent
    split at hParent
    · rename_i hNew
      rw [hNew]
      exact hOlder outer hParent
    · exact hTree.descends env outer hParent
  · intro env name f hLocal
    rw [local?_make] at hLocal
    have hBound := hTree.bound env name f hLocal
    exact Nat.lt_of_lt_of_le hBound hGrows.next_le
  · intro hOnly env name f hLocal
    rw [local?_make] at hLocal
    exact hTree.natives hOnly env name f hLocal
  · intro hOnly env hEnv hTop
    rw [parent?_make] at hTop
    split at hTop
    · exact absurd hTop (hAlone hOnly)
    · rename_i hOld
      rw [next_make] at hEnv
      have hLe := Nat.le_of_lt_succ hEnv
      exact
        hTree.only hOnly env (Nat.lt_of_le_of_ne hLe hOld) hTop

theorem define
    {value : Value}
    (hTree : s.Tree globals alone)
    (hValue :
      value.Within (· < s.next) (alone → Native.MakesNone ·))
    (env : EnvId)
    (name : String) :
    (s.define env name value).Tree globals alone := by
  have hNext := s.next_define env name value
  have hParents := s.parent?_define env
  constructor
  · rw [hNext]
    exact hTree.globals_lt
  · rw [hParents]
    exact hTree.globals_top
  · intro env outer hParent
    rw [hParents] at hParent
    exact hTree.descends env outer hParent
  · intro other otherName f hLocal
    rw [hNext]
    rcases local?_define_eq_some hLocal with hOld | hSame
    · exact hTree.bound other otherName f hOld
    · subst hSame
      exact hValue
  · intro hOnly other otherName f hLocal
    rcases local?_define_eq_some hLocal with hOld | hSame
    · exact hTree.natives hOnly other otherName f hOld
    · subst hSame
      exact hValue hOnly
  · intro hOnly env hEnv hTop
    rw [hNext] at hEnv
    rw [hParents] at hTop
    exact hTree.only hOnly env hEnv hTop

/- In a tree the links from each environment come to an end. -/
theorem line
    {env : EnvId}
    (hTree : s.Tree globals alone)
    (hEnv : env < s.next) :
    ∃ top, s.Line env top ∧ (alone → top = globals) := by
  rcases hTree.descends.line env with ⟨top, hLine, hTop⟩
  refine ⟨top, hLine, ?_⟩
  intro hOnly
  have hMem := List.mem_of_getLast? hLine.last
  have hLe := hLine.walks.le_of_mem hTree.descends hMem
  exact hTree.only hOnly top (Nat.lt_of_le_of_lt hLe hEnv) hTop

end Store.Tree

theorem Store.Tree.bindNatives
    {s : Store}
    {globals env : EnvId}
    {natives : List Native}
    {alone : Prop}
    (hTree : s.Tree globals alone)
    (hNatives : alone → ∀ native ∈ natives, native.MakesNone)
    (ident : Nat) :
    (Machine.bindNatives env ident natives s).Tree globals
      alone := by
  induction natives generalizing s ident with
  | nil => exact hTree
  | cons native natives ih =>
      apply ih
      · refine hTree.define ?_ env native.name
        exact fun hOnly => hNatives hOnly native List.mem_cons_self
      · intro hOnly other hMem
        exact hNatives hOnly other (List.mem_cons_of_mem _ hMem)

/- The globals of a new machine are all that there is. -/
theorem Store.tree_start
    {natives : List Native}
    {alone : Prop}
    (hNatives : alone → ∀ native ∈ natives, native.MakesNone)
    (clock : Clock) :
    (Machine.start natives clock).store.Tree 0 alone := by
  apply Store.Tree.bindNatives _ hNatives
  have hLocal :
      ∀ env name,
        (Store.make {} none).local? env name = none := by
    intro env name
    rw [Store.local?_make]
    rfl
  constructor
  · exact Nat.zero_lt_one
  · rfl
  · intro env outer hParent
    rw [Store.parent?_make] at hParent
    split at hParent <;> cases hParent
  · intro env name f hBound
    rw [hLocal] at hBound
    cases hBound
  · intro _ env name f hBound
    rw [hLocal] at hBound
    cases hBound
  · intro _ env hEnv _
    exact Nat.lt_one_iff.mp hEnv

/-
  All environments that there are may be held, as long as they
  form a tree.
-/
def Custody.ofTree (globals : EnvId) (alone : Prop) : Custody where
  globals := globals
  keeps s := s.Tree globals alone
  holds s env := env < s.next
  admits native := alone → native.MakesNone
  holds_globals hTree := hTree.globals_lt
  holds_parent hTree hEnv hParent :=
    Nat.lt_trans (hTree.descends _ _ hParent) hEnv
  within_of_local? := by
    intro s env name value hTree hEnv hLocal
    cases value with
    | function f => exact hTree.bound env name f hLocal
    | native f =>
        exact fun hOnly => hTree.natives hOnly env name f hLocal
    | _ => exact trivial
  holds_grows hGrows hEnv :=
    Nat.lt_of_lt_of_le hEnv hGrows.next_le
  holds_made parent _ := by
    rw [Store.next_make]
    exact Nat.lt_succ_self _
  keeps_make hTree hOuter := by
    apply hTree.make
    · intro outer hSame
      cases hSame
      exact hOuter
    · intro _ hNone
      cases hNone
  keeps_makeRoot hTree hNative hBehavior := by
    apply hTree.make
    · intro outer hNone
      cases hNone
    · intro hOnly _
      exact hNative hOnly _ _ hBehavior
  keeps_define name hTree _ hValue := hTree.define hValue _ name
  admits_giveNil name arity _ := by
    intro _ _ hBehavior
    cases hBehavior

end Lox
