import Lox.Proofs.Machine.Custody

/-
  What a call can reach.

  A call starts from the globals, from the environment of the
  function and from those of the functions among its arguments.
  From there it gets further by the links between environments
  and by the functions that are bound in them. Whatever it does
  otherwise, it does in environments that it makes itself. So
  an environment that it cannot reach is left as it was.

  Key definitions include:
    * `Store.Reaches`
    * `Machine.CallRoots`
    * `Custody.ofReach`
    * `call_leaves_unreached`
-/

------------------------------------------------------------
-- Reachable Environments
------------------------------------------------------------

namespace Lox

/- The environment of a function of the program. -/
def Value.env? : Value → Option EnvId
  | .function f => some f.env
  | _ => none

/-
  The environments that can be reached from some roots: by the
  link from one to the one around it, and by a function that is
  bound in one.
-/
inductive Store.Reaches
    (s : Store)
    (roots : EnvId → Prop) :
    EnvId → Prop where
  | root
      {env : EnvId}
      (hRoot : roots env) :
      Reaches s roots env
  | outer
      {env outer : EnvId}
      (hEnv : Reaches s roots env)
      (hParent : s.parent? env = some outer) :
      Reaches s roots outer
  | bound
      {env found : EnvId} {name : String} {value : Value}
      (hEnv : Reaches s roots env)
      (hLocal : s.local? env name = some value)
      (hFound : value.env? = some found) :
      Reaches s roots found

/- Where a call of a value with arguments starts from. -/
def Machine.CallRoots
    (m : Machine)
    (callee : Value)
    (args : List Value)
    (env : EnvId) :
    Prop :=
  env = m.globals ∨ callee.env? = some env ∨
    ∃ arg ∈ args, arg.env? = some env

end Lox

------------------------------------------------------------
-- Custody Of What Is Reached
------------------------------------------------------------

namespace Lox

/- Reached in a store, or made since. -/
def Store.ReachesOrMakes
    (s : Store)
    (roots : EnvId → Prop)
    (env : EnvId) :
    Prop :=
  s.Reaches roots env ∨ s.next ≤ env

/-
  A store that came from another one by what a call does: all
  that was not reached is as it was, and nothing that was
  reached or made since leads to it.
-/
structure Store.Spares
    (base : Store)
    (roots : EnvId → Prop)
    (s : Store) :
    Prop where
  next_le : base.next ≤ s.next
  outer :
    ∀ env outer,
      base.ReachesOrMakes roots env →
        s.parent? env = some outer →
          base.ReachesOrMakes roots outer
  bound :
    ∀ env name value found,
      base.ReachesOrMakes roots env →
        s.local? env name = some value →
          value.env? = some found →
            base.ReachesOrMakes roots found
  spared :
    ∀ env, env < base.next → ¬ base.Reaches roots env →
      s.frames[env]? = base.frames[env]?

namespace Store.Spares

variable {base s : Store} {roots : EnvId → Prop} {env : EnvId}

theorem refl (base : Store) (roots : EnvId → Prop) :
    base.Spares roots base := by
  constructor
  · exact Nat.le_refl _
  · intro env outer hEnv hParent
    rcases hEnv with hEnv | hNew
    · exact .inl (.outer hEnv hParent)
    · rw [parent?_of_not_lt (Nat.not_lt_of_le hNew)] at hParent
      cases hParent
  · intro env name value found hEnv hLocal hFound
    rcases hEnv with hEnv | hNew
    · exact .inl (.bound hEnv hLocal hFound)
    · rw [local?_of_not_lt (Nat.not_lt_of_le hNew)] at hLocal
      cases hLocal
  · intro env _ _
    rfl

theorem make
    {parent : Option EnvId}
    (hSpares : base.Spares roots s)
    (hParent :
      ∀ outer, parent = some outer →
        base.ReachesOrMakes roots outer) :
    base.Spares roots (s.make parent) := by
  constructor
  · rw [next_make]
    exact Nat.le_succ_of_le hSpares.next_le
  · intro env outer hEnv hOuter
    rw [parent?_make] at hOuter
    split at hOuter
    · exact hParent outer hOuter
    · exact hSpares.outer env outer hEnv hOuter
  · intro env name value found hEnv hLocal
    rw [local?_make] at hLocal
    exact hSpares.bound env name value found hEnv hLocal
  · intro env hEnv hNot
    rw [← hSpares.spared env hEnv hNot]
    have hOld : env < s.next :=
      Nat.lt_of_lt_of_le hEnv hSpares.next_le
    have hNe : env ≠ s.frames.size := Nat.ne_of_lt hOld
    simp [Store.make, Array.getElem?_push, hNe]

theorem define
    {value : Value}
    (hSpares : base.Spares roots s)
    (hEnv : base.ReachesOrMakes roots env)
    (hValue :
      ∀ found, value.env? = some found →
        base.ReachesOrMakes roots found)
    (name : String) :
    base.Spares roots (s.define env name value) := by
  constructor
  · rw [next_define]
    exact hSpares.next_le
  · intro other outer hOther hParent
    rw [parent?_define] at hParent
    exact hSpares.outer other outer hOther hParent
  · intro other otherName bound found hOther hLocal hFound
    rcases local?_define_eq_some hLocal with hOld | rfl
    · exact hSpares.bound other otherName bound found hOther hOld hFound
    · exact hValue found hFound
  · intro other hOther hNot
    rw [← hSpares.spared other hOther hNot]
    have hNe : env ≠ other := by
      rintro rfl
      rcases hEnv with hReached | hNew
      · exact hNot hReached
      · exact Nat.not_lt_of_le hNew hOther
    simp [Store.define, Array.getElem?_modify, hNe]

end Store.Spares

theorem Value.within_iff
    {holds : EnvId → Prop}
    {value : Value} :
    value.Within holds (fun _ => True) ↔
      ∀ env, value.env? = some env → holds env := by
  cases value <;> simp [Within, env?]

/-
  What is reached from roots in a store or made since may be
  held, as long as all else in that store is spared.
-/
def Custody.ofReach
    {roots : EnvId → Prop}
    {globals : EnvId}
    (base : Store)
    (hGlobals : roots globals) :
    Custody where
  globals := globals
  keeps := base.Spares roots
  holds _ := base.ReachesOrMakes roots
  admits _ := True
  holds_globals _ := .inl (.root hGlobals)
  holds_parent hSpares hEnv hParent :=
    hSpares.outer _ _ hEnv hParent
  within_of_local? hSpares hEnv hLocal :=
    Value.within_iff.mpr fun found hFound =>
      hSpares.bound _ _ _ found hEnv hLocal hFound
  holds_grows _ hEnv := hEnv
  holds_made _ hSpares := .inr hSpares.next_le
  keeps_make hSpares hOuter :=
    hSpares.make fun _ hSame => Option.some.inj hSame ▸ hOuter
  keeps_makeRoot hSpares _ _ :=
    hSpares.make fun _ hNone => nomatch hNone
  keeps_define name hSpares hEnv hValue :=
    hSpares.define hEnv (Value.within_iff.mp hValue) name
  admits_giveNil _ _ := trivial

end Lox

------------------------------------------------------------
-- What A Call Leaves
------------------------------------------------------------

namespace Lox

/-
  However a call ends, an environment that was there before it
  and that it could not reach is as it was.
-/
theorem call_leaves_unreached
    {callee : Value}
    {args : List Value}
    {m : Machine}
    {env : EnvId}
    (hEnv : env < m.store.next)
    (hNot : ¬ m.store.Reaches (m.CallRoots callee args) env)
    (rounds frames : Nat)
    (paren : Token) :
    (Run.left
        (call rounds frames callee args paren m)).store.frames[env]? =
      m.store.frames[env]? := by
  have hGlobals : m.CallRoots callee args m.globals := .inl rfl
  let C := Custody.ofReach m.store hGlobals
  have hCovers : C.Covers m := ⟨rfl, .refl _ _⟩
  have hCallee : C.Has m.store callee :=
    Value.within_iff.mpr fun found hFound =>
      .inl (.root (.inr (.inl hFound)))
  have hArgs : C.HasAll m.store args := by
    intro arg hArg
    apply Value.within_iff.mpr
    intro found hFound
    exact .inl (.root (.inr (.inr ⟨arg, hArg, hFound⟩)))
  have hCall := (C.evaluation_guarded rounds frames).2.2
  have hLeft :=
    (hCall callee args paren m hCovers hCallee hArgs).covers_left
  exact hLeft.store.spared env hEnv hNot

end Lox
