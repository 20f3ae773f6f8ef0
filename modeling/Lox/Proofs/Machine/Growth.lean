import Lox.Machine.Basic
import Lox.Proofs.Scope.Noted

/-
  Stores that grow, and chains of environments that agree with
  the scopes of the resolver.

  A run makes environments and binds names; it never takes an
  environment or a name away, and the environment around a
  given one stays the same. So an environment that agrees with
  some scopes does so for ever.

  Key definitions include:
    * `Store.ancestor?_of_parents`
    * `Store.chain_of_parents`
    * `Store.Grows`
    * `Store.Agrees`
    * `Store.Agrees.depth_eq`
    * `Store.Agrees.ancestor`
-/

------------------------------------------------------------
-- Making And Binding
------------------------------------------------------------

namespace Lox.Store

theorem next_make (s : Store) (parent : Option EnvId) :
    (s.make parent).next = s.next + 1 := by
  simp [next, make]

theorem next_define
    (s : Store)
    (env : EnvId)
    (name : String)
    (value : Value) :
    (s.define env name value).next = s.next := by
  simp [next, define]

theorem parent?_make
    (s : Store)
    (parent : Option EnvId)
    (env : EnvId) :
    (s.make parent).parent? env =
      if env = s.next then parent else s.parent? env := by
  by_cases hSame : env = s.frames.size
  · simp [parent?, make, next, hSame]
  · simp [parent?, make, next, Array.getElem?_push, hSame]

theorem parent?_make_self (s : Store) (parent : Option EnvId) :
    (s.make parent).parent? s.next = parent := by
  rw [parent?_make, if_pos rfl]

theorem parent?_make_of_lt
    {s : Store}
    {env : EnvId}
    (hEnv : env < s.next)
    (parent : Option EnvId) :
    (s.make parent).parent? env = s.parent? env := by
  rw [parent?_make, if_neg (Nat.ne_of_lt hEnv)]

theorem parent?_define
    (s : Store)
    (env other : EnvId)
    (name : String)
    (value : Value) :
    (s.define env name value).parent? other =
      s.parent? other := by
  simp only [parent?, define, Array.getElem?_modify]
  split
  · cases s.frames[other]? <;> rfl
  · rfl

/- A new environment binds nothing. -/
theorem bindings_make
    (s : Store)
    (parent : Option EnvId)
    (env : EnvId) :
    (s.make parent).bindings env = s.bindings env := by
  simp only [bindings, make, Array.getElem?_push]
  split
  · rename_i hSame
    subst hSame
    simp
  · rfl

theorem bindings_define
    (s : Store)
    (env other : EnvId)
    (name : String)
    (value : Value) :
    (s.define env name value).bindings other =
      if other = env ∧ env < s.next then
        (s.bindings env).set name value
      else s.bindings other := by
  simp only [bindings, define, next, Array.getElem?_modify]
  by_cases hOther : env = other
  · subst hOther
    by_cases hEnv : env < s.frames.size
    · simp [hEnv]
    · simp [hEnv]
  · simp [hOther, Ne.symm hOther]

theorem local?_make
    (s : Store)
    (parent : Option EnvId)
    (env : EnvId)
    (name : String) :
    (s.make parent).local? env name = s.local? env name := by
  unfold local?
  rw [bindings_make]

theorem local?_of_not_lt
    {s : Store}
    {env : EnvId}
    (hEnv : ¬ env < s.next)
    (name : String) :
    s.local? env name = none := by
  have hFrame : s.frames[env]? = none :=
    Array.getElem?_eq_none (Nat.le_of_not_lt hEnv)
  simp only [local?, bindings, hFrame]
  rfl

theorem parent?_of_not_lt
    {s : Store}
    {env : EnvId}
    (hEnv : ¬ env < s.next) :
    s.parent? env = none := by
  have hFrame : s.frames[env]? = none :=
    Array.getElem?_eq_none (Nat.le_of_not_lt hEnv)
  simp only [parent?, hFrame]
  rfl

/- What is bound after a binding, in each environment. -/
theorem local?_define
    (s : Store)
    (env other : EnvId)
    (name otherName : String)
    (value : Value) :
    (s.define env name value).local? other otherName =
      if (other = env ∧ otherName = name) ∧ env < s.next then
        some value
      else s.local? other otherName := by
  unfold local?
  rw [bindings_define]
  by_cases hHere : other = env ∧ env < s.next
  · rw [if_pos hHere, hHere.1]
    by_cases hName : otherName = name
    · simp [hName, hHere.2, Bindings.lookup_set_self]
    · simp [hName, Bindings.lookup_set_of_ne]
  · rw [if_neg hHere]
    split
    · rename_i hSame
      exact absurd ⟨hSame.1.1, hSame.2⟩ hHere
    · rfl

theorem local?_define_self
    {s : Store}
    {env : EnvId}
    (hEnv : env < s.next)
    (name : String)
    (value : Value) :
    (s.define env name value).local? env name = some value := by
  rw [local?_define, if_pos ⟨⟨rfl, rfl⟩, hEnv⟩]

/- What is bound after a binding was bound before or is new. -/
theorem local?_define_eq_some
    {s : Store}
    {env other : EnvId}
    {name otherName : String}
    {value found : Value}
    (hLocal :
      (s.define env name value).local? other otherName =
        some found) :
    s.local? other otherName = some found ∨ found = value := by
  rw [local?_define] at hLocal
  split at hLocal
  · exact .inr (Option.some.inj hLocal).symm
  · exact .inl hLocal

end Lox.Store

------------------------------------------------------------
-- The Same Links
------------------------------------------------------------

namespace Lox.Store

/- No environment is around the outermost one. -/
theorem chain_of_none
    {s : Store}
    {env : EnvId}
    (hTop : s.parent? env = none) :
    s.chain env = [env] := by
  unfold chain
  cases env <;> simp [chainWithin, hTop]

variable {s s' : Store}
variable (hParents : ∀ env, s'.parent? env = s.parent? env)

include hParents

/- The environment at a distance is found by the links alone. -/
theorem ancestor?_of_parents
    (env : EnvId)
    (distance : Nat) :
    s'.ancestor? env distance = s.ancestor? env distance := by
  induction distance generalizing env with
  | zero => rfl
  | succ distance ih =>
      simp only [ancestor?, hParents]
      cases s.parent? env with
      | none => rfl
      | some parent => exact ih parent

/- So is the chain of environments that a lookup follows. -/
theorem chain_of_parents (env : EnvId) :
    s'.chain env = s.chain env := by
  have hWithin :
      ∀ (links : Nat) (env : EnvId),
        s'.chainWithin links env = s.chainWithin links env := by
    intro links
    induction links with
    | zero =>
        intro env
        rfl
    | succ links ih =>
        intro env
        simp only [chainWithin, hParents]
        cases s.parent? env with
        | none => rfl
        | some parent => simp only [ih]
  exact hWithin env env

end Lox.Store

------------------------------------------------------------
-- Growth
------------------------------------------------------------

namespace Lox.Store

/-
  A store grows: environments and bindings are added, and what
  was there stays in its place.
-/
structure Grows (s s' : Store) : Prop where
  next_le : s.next ≤ s'.next
  parent_eq :
    ∀ env, env < s.next → s'.parent? env = s.parent? env
  bound :
    ∀ env name,
      (s.local? env name).isSome → (s'.local? env name).isSome

namespace Grows

theorem refl (s : Store) : s.Grows s :=
  ⟨Nat.le_refl _, fun _ _ => rfl, fun _ _ hBound => hBound⟩

theorem trans
    {s s' s'' : Store}
    (hFirst : s.Grows s')
    (hSecond : s'.Grows s'') :
    s.Grows s'' := by
  refine
    ⟨Nat.le_trans hFirst.next_le hSecond.next_le, ?_, ?_⟩
  · intro env hEnv
    have hEnv' := Nat.lt_of_lt_of_le hEnv hFirst.next_le
    rw [hSecond.parent_eq env hEnv', hFirst.parent_eq env hEnv]
  · intro env name hBound
    exact hSecond.bound env name (hFirst.bound env name hBound)

theorem make (s : Store) (parent : Option EnvId) :
    s.Grows (s.make parent) := by
  refine ⟨?_, ?_, ?_⟩
  · rw [next_make]
    exact Nat.le_succ _
  · intro env hEnv
    exact parent?_make_of_lt hEnv parent
  · intro env name hBound
    rwa [local?_make]

theorem define
    (s : Store)
    (env : EnvId)
    (name : String)
    (value : Value) :
    s.Grows (s.define env name value) := by
  refine ⟨?_, ?_, ?_⟩
  · exact Nat.le_of_eq (next_define s env name value).symm
  · intro other _
    exact parent?_define s env other name value
  · intro other otherName hBound
    rw [local?_define]
    split
    · rfl
    · exact hBound

/- What lies around an environment stays around it. -/
theorem parent?_eq_some
    {s s' : Store}
    {env outer : EnvId}
    (hGrows : s.Grows s')
    (hParent : s.parent? env = some outer) :
    s'.parent? env = some outer := by
  by_cases hOld : env < s.next
  · rw [hGrows.parent_eq env hOld, hParent]
  · rw [parent?_of_not_lt hOld] at hParent
    cases hParent

end Grows

end Lox.Store

------------------------------------------------------------
-- Agreement
------------------------------------------------------------

namespace Lox.Store

/-
  An environment agrees with the scopes of the resolver: it is
  as many links away from the globals as there are scopes, and
  each environment on the way binds the names that are
  initialized in its scope.
-/
def Agrees (s : Store) (globals : EnvId) :
    List Scope → EnvId → Prop
  | [], env =>
      env = globals ∧ env < s.next ∧ s.parent? env = none
  | scope :: scopes, env =>
      env < s.next ∧
      (∀ name, scope.lookup name = some true →
        (s.local? env name).isSome) ∧
      ∃ outer, s.parent? env = some outer ∧ outer < env ∧
        Agrees s globals scopes outer

namespace Agrees

variable {s s' : Store} {globals env : EnvId}
variable {scopes : List Scope}

theorem lt_next (hAgrees : s.Agrees globals scopes env) :
    env < s.next := by
  cases scopes with
  | nil => exact hAgrees.2.1
  | cons scope scopes => exact hAgrees.1

/- What agrees once agrees for ever. -/
theorem grows
    (hAgrees : s.Agrees globals scopes env)
    (hGrows : s.Grows s') :
    s'.Agrees globals scopes env := by
  induction scopes generalizing env with
  | nil =>
      rcases hAgrees with ⟨hEnv, hLt, hParent⟩
      refine ⟨hEnv, Nat.lt_of_lt_of_le hLt hGrows.next_le, ?_⟩
      rw [hGrows.parent_eq env hLt, hParent]
  | cons scope scopes ih =>
      rcases hAgrees with
        ⟨hLt, hBound, outer, hParent, hOuter, hRest⟩
      refine
        ⟨Nat.lt_of_lt_of_le hLt hGrows.next_le, ?_, outer, ?_,
          hOuter, ih hRest⟩
      · intro name hName
        exact hGrows.bound env name (hBound name hName)
      · rw [hGrows.parent_eq env hLt, hParent]

/- A name that is only declared asks for no binding. -/
theorem enterPending
    (hAgrees : s.Agrees globals scopes env)
    (name : String) :
    s.Agrees globals (enterScope scopes name false) env := by
  cases scopes with
  | nil => exact hAgrees
  | cons scope scopes =>
      rcases hAgrees with ⟨hLt, hBound, hOuter⟩
      refine ⟨hLt, ?_, hOuter⟩
      intro other hOther
      by_cases hSame : other = name
      · simp [hSame] at hOther
      · have hNe : (other == name) = false := by simpa using hSame
        simp only [List.lookup_cons, hNe] at hOther
        exact hBound other hOther

/- A declared name is bound once it is defined. -/
theorem declare
    (hAgrees : s.Agrees globals scopes env)
    (name : String)
    (value : Value) :
    (s.define env name value).Agrees globals
      (declareScope scopes name) env := by
  have hPending :=
    (hAgrees.enterPending name).grows (.define s env name value)
  cases scopes with
  | nil => exact hPending
  | cons scope scopes =>
      rcases hPending with ⟨hLt, hBound, hOuter⟩
      refine ⟨hLt, ?_, hOuter⟩
      intro other hOther
      by_cases hSame : other = name
      · rw [hSame, local?_define_self hAgrees.lt_next]
        rfl
      · have hNe : (other == name) = false := by simpa using hSame
        apply hBound
        simpa only [List.lookup_cons, hNe] using hOther

/- A new environment agrees with a scope that is empty. -/
theorem make (hAgrees : s.Agrees globals scopes env) :
    (s.make (some env)).Agrees globals ([] :: scopes) s.next := by
  refine ⟨?_, ?_, env, ?_, hAgrees.lt_next, ?_⟩
  · rw [next_make]
    exact Nat.lt_succ_self _
  · intro name hName
    cases hName
  · exact parent?_make_self s (some env)
  · exact hAgrees.grows (.make s (some env))

/- The links from an environment to the globals. -/
theorem length_chainWithin
    (hAgrees : s.Agrees globals scopes env)
    {links : Nat}
    (hLinks : env ≤ links) :
    (s.chainWithin links env).length = scopes.length + 1 := by
  induction scopes generalizing env links with
  | nil =>
      cases links with
      | zero => rfl
      | succ links => simp [chainWithin, hAgrees.2.2]
  | cons scope scopes ih =>
      rcases hAgrees with ⟨_, _, outer, hParent, hOuter, hRest⟩
      cases links with
      | zero =>
          have hNone := Nat.lt_of_lt_of_le hOuter hLinks
          exact absurd hNone (Nat.not_lt_zero outer)
      | succ links =>
          have hLess := Nat.lt_of_lt_of_le hOuter hLinks
          have hLength := ih hRest (Nat.le_of_lt_succ hLess)
          simp [chainWithin, hParent, hLength]

theorem depth_eq (hAgrees : s.Agrees globals scopes env) :
    s.depth env = scopes.length := by
  unfold depth chain
  rw [hAgrees.length_chainWithin (Nat.le_refl env)]
  rfl

/- A number of scopes leads to the environment of its scope. -/
theorem ancestor
    (hAgrees : s.Agrees globals scopes env)
    {distance : Nat}
    {scope : Scope}
    (hScope : scopes[distance]? = some scope) :
    ∃ found, s.ancestor? env distance = some found ∧
      ∀ name, scope.lookup name = some true →
        (s.local? found name).isSome := by
  induction scopes generalizing env distance with
  | nil => simp at hScope
  | cons first scopes ih =>
      rcases hAgrees with ⟨_, hBound, outer, hParent, _, hRest⟩
      cases distance with
      | zero =>
          have hSame : first = scope := by simpa using hScope
          subst hSame
          exact ⟨env, rfl, hBound⟩
      | succ distance =>
          rcases ih hRest (by simpa using hScope) with
            ⟨found, hFound, hNames⟩
          refine ⟨found, ?_, hNames⟩
          simp only [ancestor?, hParent, hFound]

theorem leadsToScope
    (hAgrees : s.Agrees globals scopes env)
    {distance : Nat}
    (hHops : LeadsToScope scopes (some distance)) :
    ∃ found, s.ancestor? env distance = some found := by
  have hLength := hHops distance rfl
  rcases
    hAgrees.ancestor (List.getElem?_eq_getElem hLength) with
    ⟨found, hFound, _⟩
  exact ⟨found, hFound⟩

theorem leadsToValue
    (hAgrees : s.Agrees globals scopes env)
    {name : Token}
    {distance : Nat}
    (hHops : LeadsToValue scopes name (some distance)) :
    ∃ found value,
      s.ancestor? env distance = some found ∧
        s.local? found name.lexeme = some value := by
  rcases hHops distance rfl with ⟨scope, hScope, hLookup⟩
  rcases hAgrees.ancestor hScope with ⟨found, hFound, hNames⟩
  rcases Option.isSome_iff_exists.mp (hNames _ hLookup) with
    ⟨value, hValue⟩
  exact ⟨found, value, hFound, hValue⟩

end Agrees

end Lox.Store
