import Lox.Text.Quoted
import Lox.Value.Basic
import Lox.Value.Failure

/-
  Environments: the scopes of a running program.

  A store numbers its environments in the order in which they
  are made. An environment binds names to values and may lie
  within an older one; the chain of these leads to the
  globals.

  Key definitions include:
    * `Bindings`
    * `Frame`
    * `Store`
    * `Store.make`
    * `Store.define`
    * `Store.ancestor?`
    * `Store.chain`
    * `Store.get`
    * `Store.assign`
    * `Store.getAt`
    * `Store.assignAt`
    * `Store.depth`
-/

------------------------------------------------------------
-- Bindings
------------------------------------------------------------

namespace Lox

/- Names with their values, in the order of definition. -/
abbrev Bindings :=
  List (String × Value)

namespace Bindings

/- Binds a name, in place of its earlier binding if any. -/
def set (name : String) (value : Value) : Bindings → Bindings
  | [] => [(name, value)]
  | (other, old) :: rest =>
      if other = name then (name, value) :: rest
      else (other, old) :: set name value rest

theorem lookup_set_self
    (bindings : Bindings)
    (name : String)
    (value : Value) :
    (bindings.set name value).lookup name = some value := by
  induction bindings with
  | nil => simp [set]
  | cons entry rest ih =>
      obtain ⟨other, old⟩ := entry
      unfold set
      split
      · simp
      · rename_i h
        have hNe : (name == other) = false := by
          simpa using Ne.symm h
        simp only [List.lookup_cons, hNe]
        exact ih

theorem lookup_set_of_ne
    (bindings : Bindings)
    (name other : String)
    (value : Value)
    (h : other ≠ name) :
    (bindings.set name value).lookup other =
      bindings.lookup other := by
  have hNe : (other == name) = false := by simpa using h
  induction bindings with
  | nil => simp [set, List.lookup_cons, hNe]
  | cons entry rest ih =>
      obtain ⟨first, old⟩ := entry
      unfold set
      split
      · rename_i hFirst
        subst hFirst
        simp [List.lookup_cons, hNe]
      · simp only [List.lookup_cons]
        split
        · rfl
        · exact ih

end Bindings

end Lox

------------------------------------------------------------
-- Stores
------------------------------------------------------------

namespace Lox

/- An environment: its bindings and the one around it. -/
structure Frame where
  bindings : Bindings := []
  parent : Option EnvId := none
deriving Repr, Inhabited

/- All environments, in the order in which they were made. -/
structure Store where
  frames : Array Frame := #[]
deriving Repr, Inhabited

namespace Store

/- The number of the environment that `make` makes next. -/
def next (s : Store) : EnvId :=
  s.frames.size

/- Makes an environment that binds nothing yet. -/
def make (s : Store) (parent : Option EnvId) : Store :=
  ⟨s.frames.push { parent }⟩

/- The bindings of an environment. -/
def bindings (s : Store) (env : EnvId) : Bindings :=
  (s.frames[env]?.map (·.bindings)).getD []

/- The environment around a given one. -/
def parent? (s : Store) (env : EnvId) : Option EnvId :=
  s.frames[env]?.bind (·.parent)

/- The value of a name in one environment. -/
def local? (s : Store) (env : EnvId) (name : String) :
    Option Value :=
  (s.bindings env).lookup name

/- Binds a name in an environment. -/
def define
    (s : Store)
    (env : EnvId)
    (name : String)
    (value : Value) :
    Store :=
  ⟨s.frames.modify env fun frame =>
    { frame with bindings := frame.bindings.set name value }⟩

end Store

end Lox

------------------------------------------------------------
-- Access By Distance
------------------------------------------------------------

namespace Lox.Store

/- The environment a number of links up, if there is one. -/
def ancestor? (s : Store) (env : EnvId) :
    (distance : Nat) → Option EnvId
  | 0 => some env
  | distance + 1 =>
      match s.parent? env with
      | none => none
      | some parent => ancestor? s parent distance

/- The environment a number of links up, or an error. -/
def ancestor
    (s : Store)
    (env : EnvId)
    (distance : Nat) :
    Except RuntimeError EnvId :=
  match s.ancestor? env distance with
  | some found => .ok found
  | none => .error ⟨.scopeDistance distance, none⟩

/- The error of a name that is not bound. -/
def undefined (name : Token) : RuntimeError :=
  ⟨.undefinedVariable name.lexeme, name⟩

/- The value of a name in the environment at a distance. -/
def getAt
    (s : Store)
    (env : EnvId)
    (distance : Nat)
    (name : Token) :
    Except RuntimeError Value := do
  let env ← s.ancestor env distance
  match s.local? env name.lexeme with
  | some value => .ok value
  | none => .error (undefined name)

/- Binds a name in the environment at a distance. -/
def assignAt
    (s : Store)
    (env : EnvId)
    (distance : Nat)
    (name : Token)
    (value : Value) :
    Except RuntimeError Store := do
  let env ← s.ancestor env distance
  return s.define env name.lexeme value

end Lox.Store

------------------------------------------------------------
-- Access By Name
------------------------------------------------------------

namespace Lox.Store

/-
  An environment and at most `links` of those around it, the
  innermost first.
-/
def chainWithin (s : Store) :
    (links : Nat) → (env : EnvId) → List EnvId
  | 0, env => [env]
  | links + 1, env =>
      match s.parent? env with
      | none => [env]
      | some parent => env :: chainWithin s links parent

/-
  An environment and all those around it. An environment lies
  within older ones only, so its number bounds their count.
-/
def chain (s : Store) (env : EnvId) : List EnvId :=
  s.chainWithin env env

/- The number of environments around a given one. -/
def depth (s : Store) (env : EnvId) : Nat :=
  (s.chain env).length - 1

/- The nearest environment of a chain that binds a name. -/
def owner? (s : Store) (env : EnvId) (name : String) :
    Option EnvId :=
  (s.chain env).find? fun e => (s.local? e name).isSome

/- The environment with the nearest binding, or an error. -/
def owner
    (s : Store)
    (env : EnvId)
    (name : Token) :
    Except RuntimeError EnvId :=
  match s.owner? env name.lexeme with
  | some found => .ok found
  | none => .error (undefined name)

/- The value of a name in the nearest binding. -/
def get
    (s : Store)
    (env : EnvId)
    (name : Token) :
    Except RuntimeError Value :=
  match (s.chain env).findSome? (s.local? · name.lexeme) with
  | some value => .ok value
  | none => .error (undefined name)

/- Changes the nearest binding of a name. -/
def assign
    (s : Store)
    (env : EnvId)
    (name : Token)
    (value : Value) :
    Except RuntimeError Store := do
  let env ← s.owner env name
  return s.define env name.lexeme value

end Lox.Store

------------------------------------------------------------
-- Listings
------------------------------------------------------------

namespace Lox.Store

/- The bindings of an environment, sorted by name. -/
def listing (s : Store) (env : EnvId) : Bindings :=
  (s.bindings env).mergeSort fun a b => a.1 ≤ b.1

/- A short description of an environment. -/
def describe (s : Store) (env : EnvId) : String :=
  let names :=
    (s.listing env).map fun (name, _) => Text.quoted name
  let list := ", ".intercalate names
  s!"<env [{list}] depth={s.depth env}>"

end Lox.Store
