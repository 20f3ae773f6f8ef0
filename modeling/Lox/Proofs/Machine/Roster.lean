import Lox.Proofs.Machine.Invariant
import Lox.Proofs.Machine.Soundness
import Lox.Proofs.Scope.Bounded

/-
  The names that the globals bind.

  A roster has the names that are bound in the globals, in the
  order of their definition. It covers a machine whose
  functions were all declared some links away from the globals,
  with bodies whose numbers of scopes do not lead that far: none
  of them can reach the globals by a number of scopes. The small
  steps of a run leave a machine covered by the same roster, as
  long as they define nothing in the globals but what is there.

  Key definitions include:
    * `Store.names`
    * `Store.IsAt`
    * `Closure.Confined`
    * `Roster`
    * `Roster.Covers`
    * `Roster.Preserves`
-/

------------------------------------------------------------
-- Names That Are Bound
------------------------------------------------------------

namespace Lox

/- Names with one more at their end, if it is not there yet. -/
def addName (names : List String) (name : String) : List String :=
  if name ∈ names then names else names ++ [name]

theorem addName_of_mem
    {names : List String}
    {name : String}
    (hMem : name ∈ names) :
    addName names name = names :=
  if_pos hMem

theorem mem_addName
    {names : List String}
    {name other : String} :
    other ∈ addName names name ↔ other ∈ names ∨ other = name := by
  unfold addName
  split
  · rename_i hMem
    constructor
    · exact .inl
    · rintro (hOld | rfl)
      · exact hOld
      · exact hMem
  · simp

namespace Bindings

/- The names that are bound, in the order of definition. -/
def names (bindings : Bindings) : List String :=
  bindings.map (·.1)

theorem mem_names_iff
    {bindings : Bindings}
    {name : String} :
    name ∈ bindings.names ↔ (bindings.lookup name).isSome := by
  induction bindings with
  | nil => simp [names]
  | cons entry rest ih =>
      rcases entry with ⟨other, value⟩
      have hHead :
          name ∈ names ((other, value) :: rest) ↔
            name = other ∨ name ∈ names rest := by
        simp [names]
      rw [hHead, List.lookup_cons, ih]
      by_cases hSame : name = other
      · simp [hSame]
      · have hNe : (name == other) = false := by simpa using hSame
        simp [hSame, hNe]

theorem names_set
    (bindings : Bindings)
    (name : String)
    (value : Value) :
    (bindings.set name value).names =
      addName bindings.names name := by
  induction bindings with
  | nil => rfl
  | cons entry rest ih =>
      rcases entry with ⟨other, old⟩
      unfold set
      by_cases hSame : other = name
      · rw [if_pos hSame, hSame]
        exact (addName_of_mem List.mem_cons_self).symm
      · rw [if_neg hSame]
        show other :: (set name value rest).names =
          addName (other :: names rest) name
        rw [ih]
        unfold addName
        by_cases hMem : name ∈ names rest
        · rw [if_pos hMem, if_pos (List.mem_cons_of_mem other hMem)]
        · have hNot : name ∉ other :: names rest := by
            simp [hMem, Ne.symm hSame]
          rw [if_neg hMem, if_neg hNot]
          rfl

end Bindings

namespace Store

/- The names that an environment binds. -/
def names (s : Store) (env : EnvId) : List String :=
  (s.bindings env).names

theorem mem_names_iff
    {s : Store}
    {env : EnvId}
    {name : String} :
    name ∈ s.names env ↔ (s.local? env name).isSome :=
  Bindings.mem_names_iff

theorem names_make
    (s : Store)
    (parent : Option EnvId)
    (env : EnvId) :
    (s.make parent).names env = s.names env := by
  unfold names
  rw [bindings_make]

theorem names_define_of_ne
    {s : Store}
    {env other : EnvId}
    (hNe : other ≠ env)
    (name : String)
    (value : Value) :
    (s.define env name value).names other = s.names other := by
  unfold names
  rw [bindings_define, if_neg fun hSame => hNe hSame.1]

theorem names_define_self
    {s : Store}
    {env : EnvId}
    (hEnv : env < s.next)
    (name : String)
    (value : Value) :
    (s.define env name value).names env =
      addName (s.names env) name := by
  unfold names
  rw [bindings_define, if_pos ⟨rfl, hEnv⟩, Bindings.names_set]

end Store

/- The names that are bound in the globals. -/
def Machine.globalNames (m : Machine) : List String :=
  m.store.names m.globals

end Lox

------------------------------------------------------------
-- How Far The Globals Are Away
------------------------------------------------------------

namespace Lox.Store

/- An environment that is `depth` links away from the globals. -/
def IsAt
    (s : Store)
    (globals : EnvId)
    (depth : Nat)
    (env : EnvId) :
    Prop :=
  s.Agrees globals (List.replicate depth []) env

namespace IsAt

variable {s s' : Store} {globals env : EnvId} {depth : Nat}

theorem grows
    (hAt : s.IsAt globals depth env)
    (hGrows : s.Grows s') :
    s'.IsAt globals depth env :=
  Agrees.grows hAt hGrows

/- A new environment is one link further away. -/
theorem make (hAt : s.IsAt globals depth env) :
    (s.make (some env)).IsAt globals (depth + 1) s.next :=
  Agrees.make hAt

theorem globals_le (hAt : s.IsAt globals depth env) :
    globals ≤ env := by
  induction depth generalizing env with
  | zero => exact Nat.le_of_eq hAt.1.symm
  | succ depth ih =>
      rcases hAt with ⟨_, _, outer, _, hOuter, hRest⟩
      exact Nat.le_of_lt (Nat.lt_of_le_of_lt (ih hRest) hOuter)

theorem ne_globals (hAt : s.IsAt globals (depth + 1) env) :
    env ≠ globals := by
  rcases hAt with ⟨_, _, outer, _, hOuter, hRest⟩
  have hAround : s.IsAt globals depth outer := hRest
  exact Nat.ne_of_gt (Nat.lt_of_le_of_lt hAround.globals_le hOuter)

/- A number of scopes within reach never leads to the globals. -/
theorem ancestor_ne
    {distance : Nat}
    {found : EnvId}
    (hAt : s.IsAt globals depth env)
    (hDistance : distance < depth)
    (hFound : s.ancestor? env distance = some found) :
    found ≠ globals := by
  induction depth generalizing env distance with
  | zero => exact absurd hDistance (Nat.not_lt_zero distance)
  | succ depth ih =>
      cases distance with
      | zero =>
          cases hFound
          exact hAt.ne_globals
      | succ distance =>
          rcases hAt with ⟨_, _, outer, hParent, _, hRest⟩
          simp only [ancestor?, hParent] at hFound
          exact ih hRest (Nat.lt_of_succ_lt_succ hDistance) hFound

end IsAt

end Lox.Store

------------------------------------------------------------
-- Rosters
------------------------------------------------------------

namespace Lox

/-
  A function that cannot reach the globals by a number of
  scopes. A body without statements may be anywhere.
-/
def Closure.Confined
    (s : Store)
    (globals : EnvId)
    (f : Closure) :
    Prop :=
  ∃ depth,
    Stmt.BodyBounded (depth + 2) f.body ∧
    (f.body ≠ [] → s.IsAt globals depth f.env)

/- The globals, and the names that they bind. -/
structure Roster where
  globals : EnvId
  names : List String

namespace Roster

variable (R : Roster)

/- A value that is a confined function, if it is one at all. -/
def Has (s : Store) (value : Value) : Prop :=
  ∀ f, value = .function f → f.Confined s R.globals

def HasAll (s : Store) (values : List Value) : Prop :=
  ∀ value ∈ values, R.Has s value

def HasResult (s : Store) : Completion → Prop
  | .normal => True
  | .returned value => R.Has s value

/-
  A store in which the globals bind the names of the roster,
  and all functions are confined.
-/
structure Keeps (s : Store) : Prop where
  top : s.IsAt R.globals 0 R.globals
  names : s.names R.globals = R.names
  bound :
    ∀ env name value,
      s.local? env name = some value → R.Has s value

structure Covers (m : Machine) : Prop where
  globals : m.globals = R.globals
  store : R.Keeps m.store

/- A machine that is some links away from the globals. -/
structure CoversAt (depth : Nat) (m : Machine) : Prop
    extends R.Covers m where
  current : m.store.IsAt R.globals depth m.current

/-
  However the step ends, the globals bind what they did and the
  machine is where it was; what it gives is as promised.
-/
abbrev Preserves
    {α : Type}
    (step : Run α)
    (m : Machine)
    (Post : Store → α → Prop) :
    Prop :=
  step.Maintains R.Covers m Post

end Roster

end Lox

------------------------------------------------------------
-- What Is Confined Stays Confined
------------------------------------------------------------

namespace Lox.Roster

variable {R : Roster} {s s' : Store} {m m' : Machine}

theorem Has.grows
    {value : Value}
    (hHas : R.Has s value)
    (hGrows : s.Grows s') :
    R.Has s' value := by
  intro f hFunction
  rcases hHas f hFunction with ⟨depth, hBody, hAt⟩
  exact ⟨depth, hBody, fun hSome => (hAt hSome).grows hGrows⟩

theorem HasAll.grows
    {values : List Value}
    (hHas : R.HasAll s values)
    (hGrows : s.Grows s') :
    R.HasAll s' values :=
  fun value hMem => (hHas value hMem).grows hGrows

theorem hasAll_cons
    {value : Value}
    {values : List Value} :
    R.HasAll s (value :: values) ↔
      R.Has s value ∧ R.HasAll s values :=
  List.forall_mem_cons

theorem has_of_ne_function
    {value : Value}
    (hNe : ∀ f, value ≠ .function f)
    (s : Store) :
    R.Has s value :=
  fun f hFunction => absurd hFunction (hNe f)

theorem has_nil (s : Store) : R.Has s .nil :=
  has_of_ne_function (fun _ hFunction => by cases hFunction) s

theorem has_native (f : NativeFunction) (s : Store) :
    R.Has s (.native f) :=
  has_of_ne_function (fun _ hFunction => by cases hFunction) s

theorem has_ofLiteral (value : Literal) (s : Store) :
    R.Has s (.ofLiteral value) := by
  apply has_of_ne_function
  intro f hFunction
  cases value <;> cases hFunction

theorem has_result
    {completion : Completion}
    (hHas : R.HasResult s completion) :
    R.Has s completion.result := by
  cases completion with
  | normal => exact has_nil s
  | returned value => exact hHas

theorem covers_isOfStore : Machine.IsOfStore R.Covers := by
  intro m m' hGlobals hStore hCovers
  refine ⟨hGlobals.trans hCovers.globals, ?_⟩
  rw [hStore]
  exact hCovers.store

theorem CoversAt.stays
    {depth : Nat}
    (hAt : R.CoversAt depth m)
    (hStays : m.Stays m')
    (hCovers : R.Covers m') :
    R.CoversAt depth m' := by
  refine ⟨hCovers, ?_⟩
  rw [hStays.current]
  exact hAt.current.grows hStays.store

theorem coversAt_remains (R : Roster) (depth : Nat) :
    Run.Remains R.Covers (R.CoversAt depth) where
  stays _ _ := CoversAt.stays
  inv _ := CoversAt.toCovers

theorem Covers.globalNames_eq (hCovers : R.Covers m) :
    m.globalNames = R.names := by
  unfold Machine.globalNames
  rw [hCovers.globals, hCovers.store.names]

namespace Keeps

theorem make
    (hKeeps : R.Keeps s)
    (parent : Option EnvId) :
    R.Keeps (s.make parent) := by
  have hGrows := Store.Grows.make s parent
  constructor
  · exact hKeeps.top.grows hGrows
  · rw [Store.names_make]
    exact hKeeps.names
  · intro env name value hLocal
    rw [Store.local?_make] at hLocal
    exact (hKeeps.bound env name value hLocal).grows hGrows

/- A new environment is not that of the globals. -/
theorem next_ne (hKeeps : R.Keeps s) : s.next ≠ R.globals :=
  Nat.ne_of_gt hKeeps.top.lt_next

/- What is defined anywhere, with the names it leads to. -/
theorem define
    {R' : Roster}
    {env : EnvId}
    {name : String}
    {value : Value}
    (hKeeps : R.Keeps s)
    (hGlobals : R'.globals = R.globals)
    (hNames :
      (s.define env name value).names R.globals = R'.names)
    (hValue : R.Has s value) :
    R'.Keeps (s.define env name value) := by
  have hGrows := Store.Grows.define s env name value
  constructor
  · rw [hGlobals]
    exact hKeeps.top.grows hGrows
  · rw [hGlobals]
    exact hNames
  · intro other otherName found hLocal
    unfold Has
    rw [hGlobals]
    rcases Store.local?_define_eq_some hLocal with hOld | rfl
    · exact (hKeeps.bound other otherName found hOld).grows hGrows
    · exact hValue.grows hGrows

/-
  Nothing is added to the globals by what is defined elsewhere,
  or defined once more.
-/
theorem defineOther
    {env : EnvId}
    {name : String}
    {value : Value}
    (hKeeps : R.Keeps s)
    (hOld : env = R.globals → name ∈ R.names)
    (hValue : R.Has s value) :
    R.Keeps (s.define env name value) := by
  apply hKeeps.define rfl _ hValue
  by_cases hSame : env = R.globals
  · have hEnv := hKeeps.top.lt_next
    rw [hSame, Store.names_define_self hEnv, hKeeps.names]
    exact addName_of_mem (hOld hSame)
  · rw [Store.names_define_of_ne (Ne.symm hSame)]
    exact hKeeps.names

end Keeps

/-
  A name is changed elsewhere, or is one that the globals bind
  already.
-/
theorem CoversAt.target
    {depth : Nat}
    {name : Token}
    {hops : Option Nat}
    {env : EnvId}
    (hAt : R.CoversAt depth m)
    (hHops : HopsBelow depth hops)
    (hTarget : m.target name hops = .ok env) :
    env = R.globals → name.lexeme ∈ R.names := by
  cases hops with
  | none =>
      unfold Machine.target Store.owner at hTarget
      simp only at hTarget
      split at hTarget
      · rename_i found hFound
        cases hTarget
        rintro rfl
        have hBound := List.find?_some hFound
        rw [← hAt.store.names]
        exact Store.mem_names_iff.mpr hBound
      · cases hTarget
  | some distance =>
      unfold Machine.target Store.ancestor at hTarget
      simp only at hTarget
      split at hTarget
      · rename_i found hFound
        cases hTarget
        intro hSame
        have hDistance := hHops distance rfl
        exact absurd hSame (hAt.current.ancestor_ne hDistance hFound)
      · cases hTarget

end Lox.Roster

------------------------------------------------------------
-- Steps That Preserve A Roster
------------------------------------------------------------

namespace Lox.Roster

variable {R : Roster} {m : Machine}

/- The result of an operator is no function. -/
theorem preserves_operator
    {result : Except RuntimeError Value}
    (hCovers : R.Covers m)
    (hResult :
      match result with
      | .ok value => ∀ f, value ≠ .function f
      | .error e => e.IsOther) :
    R.Preserves (Run.lift result) m R.Has := by
  apply Run.maintains_lift hCovers
  rintro value rfl
  exact has_of_ne_function hResult m.store

theorem preserves_current
    {depth : Nat}
    (hAt : R.CoversAt depth m) :
    R.Preserves Run.current m fun s env =>
      s.IsAt R.globals depth env :=
  ⟨hAt.toCovers, .refl m, hAt.current⟩

theorem preserves_readClock (hCovers : R.Covers m) :
    R.Preserves Run.readClock m R.Has := by
  apply (Run.maintains_readClock covers_isOfStore hCovers).mono
  rintro s value ⟨x, rfl⟩ f hFunction
  cases hFunction

/-
  A new environment is not that of the globals, and one link
  further away from them.
-/
theorem preserves_makeEnv
    (hCovers : R.Covers m)
    (parent : Option EnvId) :
    R.Preserves (Run.makeEnv parent) m fun s env =>
      env ≠ R.globals ∧
      ∀ outer depth,
        parent = some outer → m.store.IsAt R.globals depth outer →
          s.IsAt R.globals (depth + 1) env := by
  refine
    ⟨⟨hCovers.globals, hCovers.store.make parent⟩,
      Run.restores_makeEnv parent m, hCovers.store.next_ne, ?_⟩
  rintro outer depth rfl hOuter
  exact hOuter.make

theorem preserves_define
    {env : EnvId}
    {name : String}
    {value : Value}
    (hCovers : R.Covers m)
    (hOld : env = R.globals → name ∈ R.names)
    (hValue : R.Has m.store value) :
    R.Preserves (Run.define env name value) m fun _ _ => True :=
  ⟨⟨hCovers.globals, hCovers.store.defineOther hOld hValue⟩,
    Run.restores_define env name value m, trivial⟩

theorem preserves_readName
    (hCovers : R.Covers m)
    (name : Token)
    (hops : Option Nat) :
    R.Preserves (Run.readName name hops) m R.Has := by
  apply Run.maintains_lift hCovers
  intro value hValue
  cases hops with
  | none =>
      simp only [Store.get] at hValue
      split at hValue
      · rename_i found hFound
        cases hValue
        rcases List.exists_of_findSome?_eq_some hFound with
          ⟨env, _, hLocal⟩
        exact hCovers.store.bound env name.lexeme value hLocal
      · cases hValue
  | some hops =>
      simp only [Store.getAt, Store.ancestor] at hValue
      cases hFound : m.store.ancestor? m.current hops with
      | none =>
          rw [hFound] at hValue
          cases hValue
      | some env =>
          rw [hFound] at hValue
          simp only [bind, Except.bind] at hValue
          split at hValue
          · rename_i found hLocal
            cases hValue
            exact hCovers.store.bound env name.lexeme value hLocal
          · cases hValue

theorem preserves_writeName
    {depth : Nat}
    {name : Token}
    {hops : Option Nat}
    {value : Value}
    (hAt : R.CoversAt depth m)
    (hHops : HopsBelow depth hops)
    (hValue : R.Has m.store value) :
    R.Preserves (Run.writeName name hops value) m
      fun _ _ => True := by
  unfold Preserves Run.Maintains Run.writeName
  cases hTarget : m.target name hops with
  | ok env =>
      have hOld := hAt.target hHops hTarget
      exact preserves_define hAt.toCovers hOld hValue
  | error e => exact ⟨hAt.toCovers, .refl m⟩

theorem preserves_makeFunction
    {depth : Nat}
    {env : EnvId}
    {body : List Stmt}
    (hCovers : R.Covers m)
    (hBody : Stmt.BodyBounded (depth + 2) body)
    (hEnv : body ≠ [] → m.store.IsAt R.globals depth env)
    (name : Token)
    (params : List Token) :
    R.Preserves (Run.makeFunction name params body env) m
      R.Has := by
  apply (Run.maintains_freshIdent covers_isOfStore hCovers).bind
  intro ident m' hCovers' hStays _
  apply Run.maintains_pure hCovers'
  intro f hFunction
  cases hFunction
  exact ⟨depth, hBody, fun hSome => (hEnv hSome).grows hStays.store⟩

end Lox.Roster
