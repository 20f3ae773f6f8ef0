import Mathlib.Logic.Function.Basic
import Lox.Machine.Evaluation
import Lox.Proofs.Machine.Growth
import Lox.Proofs.Scope.Alike

/-
  Machines that differ in the names of local variables.

  Each environment of the second machine spells its names in
  a way of its own. It binds what the first one binds, under
  the names as they are spelled there; the values are the same
  but for functions, whose bodies are alike as seen from the
  environments around them.

  Key definitions include:
    * `Store.Leads`
    * `Store.Along`
    * `Value.Alike`
    * `Store.Alike`
    * `Machine.Alike`
-/

------------------------------------------------------------
-- Spellings Of Environments
------------------------------------------------------------

namespace Lox.Store

/-
  A store grows, and the environments that were there keep the
  spelling of their names.
-/
structure Leads
    (s : Store)
    (spell : EnvId → Spelling)
    (s' : Store)
    (spell' : EnvId → Spelling) :
    Prop where
  grows : s.Grows s'
  same : ∀ env, env < s.next → spell' env = spell env

namespace Leads

variable {s s' s'' : Store}
variable {spell spell' spell'' : EnvId → Spelling}

theorem refl (s : Store) (spell : EnvId → Spelling) :
    s.Leads spell s spell :=
  ⟨.refl s, fun _ _ => rfl⟩

theorem trans
    (hFirst : s.Leads spell s' spell')
    (hSecond : s'.Leads spell' s'' spell'') :
    s.Leads spell s'' spell'' := by
  constructor
  · exact hFirst.grows.trans hSecond.grows
  · intro env hEnv
    have hEnv' := Nat.lt_of_lt_of_le hEnv hFirst.grows.next_le
    rw [hSecond.same env hEnv', hFirst.same env hEnv]

theorem define
    (s : Store)
    (spell : EnvId → Spelling)
    (env : EnvId)
    (name : String)
    (value : Value) :
    s.Leads spell (s.define env name value) spell :=
  ⟨.define s env name value, fun _ _ => rfl⟩

/- A new environment may spell its names in any way. -/
theorem make
    (s : Store)
    (spell : EnvId → Spelling)
    (parent : Option EnvId)
    (spelling : Spelling) :
    s.Leads spell (s.make parent)
      (Function.update spell s.next spelling) := by
  constructor
  · exact .make s parent
  · intro env hEnv
    exact Function.update_of_ne (Nat.ne_of_lt hEnv) spelling spell

end Leads

/-
  The environments from a given one outward spell their names
  as the scopes of a program do.
-/
def Along (s : Store) (spell : EnvId → Spelling) :
    List Spelling → EnvId → Prop
  | [], env => env < s.next ∧ spell env = 1
  | spelling :: spellings, env =>
      env < s.next ∧ spell env = spelling ∧
        ∃ outer, s.parent? env = some outer ∧
          Along s spell spellings outer

namespace Along

variable {s s' : Store} {spell spell' : EnvId → Spelling}
variable {spellings : List Spelling} {env : EnvId}

theorem spell_eq (hAlong : s.Along spell spellings env) :
    spell env = headSpelling spellings := by
  cases spellings with
  | nil => exact hAlong.2
  | cons spelling spellings => exact hAlong.2.1

theorem leads
    (hAlong : s.Along spell spellings env)
    (hLeads : s.Leads spell s' spell') :
    s'.Along spell' spellings env := by
  induction spellings generalizing env with
  | nil =>
      rcases hAlong with ⟨hLt, hSpell⟩
      constructor
      · exact Nat.lt_of_lt_of_le hLt hLeads.grows.next_le
      · rw [hLeads.same env hLt, hSpell]
  | cons spelling spellings ih =>
      rcases hAlong with ⟨hLt, hSpell, outer, hParent, hRest⟩
      refine
        ⟨Nat.lt_of_lt_of_le hLt hLeads.grows.next_le, ?_, outer,
          ?_, ih hRest⟩
      · rw [hLeads.same env hLt, hSpell]
      · rw [hLeads.grows.parent_eq env hLt, hParent]

/- A new environment lies within a given one. -/
theorem make
    (hAlong : s.Along spell spellings env)
    (spelling : Spelling) :
    (s.make (some env)).Along
      (Function.update spell s.next spelling)
      (spelling :: spellings) s.next := by
  refine ⟨?_, ?_, env, ?_, ?_⟩
  · rw [next_make]
    exact Nat.lt_succ_self _
  · exact Function.update_self s.next spelling spell
  · exact parent?_make_self s (some env)
  · exact hAlong.leads (.make s spell (some env) spelling)

/- The environment at a distance has the spelling there. -/
theorem ancestor
    (hAlong : s.Along spell spellings env)
    {distance : Nat}
    {spelling : Spelling}
    (hSpelling : spellings[distance]? = some spelling) :
    ∃ found, s.ancestor? env distance = some found ∧
      spell found = spelling := by
  induction spellings generalizing env distance with
  | nil => simp at hSpelling
  | cons first spellings ih =>
      rcases hAlong with ⟨_, hSpell, outer, hParent, hRest⟩
      cases distance with
      | zero =>
          have hSame : first = spelling := by simpa using hSpelling
          exact ⟨env, rfl, hSpell.trans hSame⟩
      | succ distance =>
          rcases ih hRest (by simpa using hSpelling) with
            ⟨found, hFound, hSame⟩
          refine ⟨found, ?_, hSame⟩
          simp only [ancestor?, hParent, hFound]

end Along

end Lox.Store

------------------------------------------------------------
-- Alike Values
------------------------------------------------------------

namespace Lox

/-
  Two functions that are called in the same way and whose
  bodies are alike in the environment of their declaration.
-/
structure Closure.Alike
    (s : Store)
    (spell : EnvId → Spelling)
    (f f' : Closure) :
    Prop where
  ident : f'.ident = f.ident
  name : f'.name = f.name
  env : f'.env = f.env
  body :
    ∃ (first second : Spelling) (spellings : List Spelling),
      f'.params.map (·.lexeme) =
        f.params.map (second ·.lexeme) ∧
      s.Along spell spellings f.env ∧
      Stmt.BodyAlike (first :: second :: spellings) f.body f'.body

theorem Closure.Alike.length_params
    {s : Store}
    {spell : EnvId → Spelling}
    {f f' : Closure}
    (hAlike : f.Alike s spell f') :
    f'.params.length = f.params.length := by
  rcases hAlike.body with ⟨_, second, _, hParams, _⟩
  simpa using congrArg List.length hParams

theorem Closure.Alike.leads
    {s s' : Store}
    {spell spell' : EnvId → Spelling}
    {f f' : Closure}
    (hAlike : f.Alike s spell f')
    (hLeads : s.Leads spell s' spell') :
    f.Alike s' spell' f' := by
  rcases hAlike with ⟨hIdent, hName, hEnv, hBody⟩
  rcases hBody with
    ⟨first, second, spellings, hParams, hAlong, hBody⟩
  exact
    ⟨hIdent, hName, hEnv, first, second, spellings, hParams,
      hAlong.leads hLeads, hBody⟩

/- Two values that are the same but for functions. -/
def Value.Alike
    (s : Store)
    (spell : EnvId → Spelling) :
    Value → Value → Prop
  | .function f, value' =>
      ∃ f', value' = .function f' ∧ f.Alike s spell f'
  | value, value' => value' = value

namespace Value

variable {s s' : Store} {spell spell' : EnvId → Spelling}
variable {value value' other other' : Value}

theorem alike_of_ne_function
    (hValue : ∀ f, value ≠ .function f) :
    value.Alike s spell value := by
  cases value with
  | function f => exact absurd rfl (hValue f)
  | _ => exact rfl

theorem Alike.leads
    (hAlike : value.Alike s spell value')
    (hLeads : s.Leads spell s' spell') :
    value.Alike s' spell' value' := by
  cases value with
  | function f =>
      rcases hAlike with ⟨f', rfl, hBoth⟩
      exact ⟨f', rfl, hBoth.leads hLeads⟩
  | _ => exact hAlike

theorem rel_leads
    {found found' : Option Value}
    (hRel : Option.Rel (Value.Alike s spell) found found')
    (hLeads : s.Leads spell s' spell') :
    Option.Rel (Value.Alike s' spell') found found' := by
  cases hRel with
  | none => exact .none
  | some hValue => exact .some (hValue.leads hLeads)

/- Nothing that a program can see of a value is different. -/
theorem Alike.text_eq (hAlike : value.Alike s spell value') :
    value'.text = value.text := by
  cases value with
  | function f =>
      rcases hAlike with ⟨f', rfl, hBoth⟩
      simp only [text, hBoth.name]
  | _ => rw [hAlike]

theorem Alike.isTruthy_eq (hAlike : value.Alike s spell value') :
    value'.isTruthy = value.isTruthy := by
  cases value with
  | function f =>
      rcases hAlike with ⟨f', rfl, _⟩
      rfl
  | _ => rw [hAlike]

theorem Alike.equals_eq
    (hAlike : value.Alike s spell value')
    (hOther : other.Alike s spell other') :
    value'.equals other' = value.equals other := by
  cases value with
  | function f =>
      rcases hAlike with ⟨f', rfl, hBoth⟩
      cases other with
      | function g =>
          rcases hOther with ⟨g', rfl, hBoth'⟩
          simp only [equals, hBoth.ident, hBoth'.ident]
      | _ =>
          rw [hOther]
          rfl
  | _ =>
      rw [hAlike]
      cases other with
      | function g =>
          rcases hOther with ⟨g', rfl, _⟩
          rfl
      | _ => rw [hOther]

theorem Alike.applyUnary_eq
    (hAlike : value.Alike s spell value')
    (op : Token) :
    applyUnary op value' = applyUnary op value := by
  cases value with
  | function f =>
      rcases hAlike with ⟨f', rfl, _⟩
      rfl
  | _ => rw [hAlike]

theorem Alike.onNumbers_eq
    (hAlike : value.Alike s spell value')
    (hOther : other.Alike s spell other')
    (op : Token)
    (f : Float → Float → Value) :
    onNumbers op f value' other' = onNumbers op f value other := by
  cases value with
  | number a =>
      rw [hAlike]
      cases other with
      | function g =>
          rcases hOther with ⟨g', rfl, _⟩
          rfl
      | _ => rw [hOther]
  | function g =>
      rcases hAlike with ⟨g', rfl, _⟩
      rfl
  | _ =>
      rw [hAlike]
      rfl

theorem Alike.add_eq
    (hAlike : value.Alike s spell value')
    (hOther : other.Alike s spell other')
    (op : Token) :
    add op value' other' = add op value other := by
  cases other with
  | function g =>
      rcases hOther with ⟨g', rfl, _⟩
      cases value with
      | function f =>
          rcases hAlike with ⟨f', rfl, _⟩
          rfl
      | _ =>
          rw [hAlike]
          rfl
  | _ =>
      rw [hOther]
      cases value with
      | function f =>
          rcases hAlike with ⟨f', rfl, _⟩
          rfl
      | _ => rw [hAlike]

theorem Alike.applyBinary_eq
    (hAlike : value.Alike s spell value')
    (hOther : other.Alike s spell other')
    (op : Token) :
    applyBinary op value' other' = applyBinary op value other := by
  unfold applyBinary
  simp only [hAlike.equals_eq hOther, hAlike.add_eq hOther,
    hAlike.onNumbers_eq hOther]

end Value

/- Two completions that are the same but for functions. -/
def Completion.Alike
    (s : Store)
    (spell : EnvId → Spelling) :
    Completion → Completion → Prop
  | .normal, completion' => completion' = .normal
  | .returned value, completion' =>
      ∃ value', completion' = .returned value' ∧
        value.Alike s spell value'

end Lox

------------------------------------------------------------
-- Alike Stores
------------------------------------------------------------

namespace Lox.Store

/-
  Two stores with the same environments, each of which binds
  alike values to its names as they are spelled.
-/
structure Alike
    (spell : EnvId → Spelling)
    (s s' : Store) :
    Prop where
  next : s'.next = s.next
  parents : ∀ env, s'.parent? env = s.parent? env
  locals :
    ∀ env name,
      Option.Rel (Value.Alike s spell) (s.local? env name)
        (s'.local? env (spell env name))

namespace Alike

variable {s s' : Store} {spell : EnvId → Spelling}

/- An environment is made in the same place in both. -/
theorem make
    (hAlike : s.Alike spell s')
    (parent : Option EnvId)
    (spelling : Spelling) :
    (s.make parent).Alike
      (Function.update spell s.next spelling)
      (s'.make parent) := by
  have hLeads := Leads.make s spell parent spelling
  constructor
  · rw [next_make, next_make, hAlike.next]
  · intro env
    rw [parent?_make, parent?_make, hAlike.next, hAlike.parents]
  · intro env name
    rw [local?_make, local?_make]
    by_cases hSame : env = s.next
    · -- What has just been made binds nothing.
      have hOld : ¬ env < s.next :=
        fun hLt => Nat.ne_of_lt hLt hSame
      have hOld' : ¬ env < s'.next := hAlike.next.symm ▸ hOld
      rw [local?_of_not_lt hOld, local?_of_not_lt hOld']
      exact .none
    · rw [Function.update_of_ne hSame]
      exact Value.rel_leads (hAlike.locals env name) hLeads

/- A name is bound in both, as it is spelled there. -/
theorem define
    (hAlike : s.Alike spell s')
    (env : EnvId)
    (name : String)
    {value value' : Value}
    (hValue : value.Alike s spell value') :
    (s.define env name value).Alike spell
      (s'.define env (spell env name) value') := by
  have hLeads := Leads.define s spell env name value
  constructor
  · rw [next_define, next_define, hAlike.next]
  · intro other
    rw [parent?_define, parent?_define, hAlike.parents]
  · intro other otherName
    rw [local?_define, local?_define, hAlike.next]
    have hSame :
        (other = env ∧ spell other otherName = spell env name) ↔
          (other = env ∧ otherName = name) := by
      constructor
      · intro hBoth
        rcases hBoth with ⟨rfl, hNames⟩
        exact ⟨rfl, (spell other).injective hNames⟩
      · intro hBoth
        rcases hBoth with ⟨rfl, rfl⟩
        exact ⟨rfl, rfl⟩
    simp only [hSame]
    split
    · exact .some (hValue.leads hLeads)
    · exact
        Value.rel_leads (hAlike.locals other otherName) hLeads

end Alike

end Lox.Store

------------------------------------------------------------
-- Alike Machines
------------------------------------------------------------

namespace Lox

/-
  Two machines that have come equally far. The names of the
  globals are spelled as they were.
-/
structure Machine.Alike
    (spell : EnvId → Spelling)
    (m m' : Machine) :
    Prop where
  store : m.store.Alike spell m'.store
  globals : m'.globals = m.globals
  current : m'.current = m.current
  clock : m'.clock = m.clock
  output : m'.output = m.output
  functions : m'.functions = m.functions
  root : m.store.parent? m.globals = none
  bound : m.globals < m.store.next
  plain : spell m.globals = 1

namespace Machine.Alike

variable {m m' : Machine} {spell : EnvId → Spelling}

/- Both machines with other stores that are alike. -/
theorem withStore
    (hAlike : m.Alike spell m')
    {store store' : Store}
    {spell' : EnvId → Spelling}
    (hLeads : m.store.Leads spell store spell')
    (hStore : store.Alike spell' store') :
    Alike spell' { m with store } { m' with store := store' } := by
  refine
    ⟨hStore, hAlike.globals, hAlike.current, hAlike.clock,
      hAlike.output, hAlike.functions, ?_, ?_, ?_⟩
  · rw [hLeads.grows.parent_eq _ hAlike.bound]
    exact hAlike.root
  · exact Nat.lt_of_lt_of_le hAlike.bound hLeads.grows.next_le
  · rw [hLeads.same _ hAlike.bound]
    exact hAlike.plain

/- Both machines in the same environment. -/
theorem withCurrent
    (hAlike : m.Alike spell m')
    (env : EnvId) :
    Alike spell { m with current := env }
      { m' with current := env } :=
  ⟨hAlike.store, hAlike.globals, rfl, hAlike.clock,
    hAlike.output, hAlike.functions, hAlike.root, hAlike.bound,
    hAlike.plain⟩

/- A global has the same name in both. -/
theorem local?_globals
    (hAlike : m.Alike spell m')
    (name : String) :
    Option.Rel (Value.Alike m.store spell)
      (m.store.local? m.globals name)
      (m'.store.local? m.globals name) := by
  have hLocal := hAlike.store.locals m.globals name
  rwa [hAlike.plain] at hLocal

theorem chain_globals (hAlike : m.Alike spell m') :
    m.store.chain m.globals = [m.globals] ∧
      m'.store.chain m.globals = [m.globals] := by
  constructor
  · exact Store.chain_of_none hAlike.root
  · apply Store.chain_of_none
    rw [hAlike.store.parents]
    exact hAlike.root

end Machine.Alike

end Lox
