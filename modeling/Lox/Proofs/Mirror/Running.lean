import Lox.Machine.Evaluation
import Lox.Proofs.Coupling
import Lox.Proofs.Machine.Growth
import Lox.Proofs.Mirror.Trees

/-
  Running does not look at the places of tokens.

  Two machines mirror each other if they bind the same names to
  the same values, but for functions, whose bodies mirror each
  other; one of them may have printed something earlier. From
  there, programs that mirror each other run in the same way,
  and if they fail, then with the same error at corresponding
  tokens.

  Key definitions include:
    * `Value.Mirrors`
    * `Store.Mirrors`
    * `Machine.Mirrors`
    * `Interrupt.Mirrors`
    * `Mirror.running`
    * `evaluation_mirrors`
    * `mirrors_runProgram`
-/

------------------------------------------------------------
-- Values
------------------------------------------------------------

namespace Lox

/- Functions that are the same but for the places of tokens. -/
structure Closure.Mirrors
    (M : Mirror)
    (f f' : Closure) :
    Prop where
  ident : f'.ident = f.ident
  name : f'.name.lexeme = f.name.lexeme
  params : f'.params.map (·.lexeme) = f.params.map (·.lexeme)
  body : List.Forall₂ (Stmt.Mirrors M) f.body f'.body
  env : f'.env = f.env

theorem Closure.Mirrors.length_params
    {M : Mirror}
    {f f' : Closure}
    (hMirrors : f.Mirrors M f') :
    f'.params.length = f.params.length := by
  simpa using congrArg List.length hMirrors.params

/- Values that are the same but for functions. -/
inductive Value.Mirrors (M : Mirror) : Value → Value → Prop where
  | nil : Mirrors M .nil .nil
  | bool (value : Bool) : Mirrors M (.bool value) (.bool value)
  | number
      (value : Float) :
      Mirrors M (.number value) (.number value)
  | string
      (value : String) :
      Mirrors M (.string value) (.string value)
  | function
      {f f' : Closure}
      (hMirrors : f.Mirrors M f') :
      Mirrors M (.function f) (.function f')
  | native
      (f : NativeFunction) :
      Mirrors M (.native f) (.native f)

inductive Completion.Mirrors (M : Mirror) :
    Completion → Completion → Prop where
  | normal : Mirrors M .normal .normal
  | returned
      {value value' : Value}
      (hValue : value.Mirrors M value') :
      Mirrors M (.returned value) (.returned value')

variable {M : Mirror} {value value' other other' : Value}

namespace Value.Mirrors

theorem ofLiteral (literal : Literal) :
    (Value.ofLiteral literal).Mirrors M (.ofLiteral literal) := by
  cases literal with
  | nil => exact .nil
  | bool value => exact .bool value
  | number value => exact .number value
  | string value => exact .string value

/- Nothing that a program can see of a value is different. -/
theorem text_eq (hMirrors : value.Mirrors M value') :
    value'.text = value.text := by
  cases hMirrors with
  | function hClosure => simp only [text, hClosure.name]
  | _ => rfl

theorem isTruthy_eq (hMirrors : value.Mirrors M value') :
    value'.isTruthy = value.isTruthy := by
  cases hMirrors <;> rfl

theorem equals_eq
    (hMirrors : value.Mirrors M value')
    (hOther : other.Mirrors M other') :
    value'.equals other' = value.equals other := by
  cases hMirrors with
  | function hClosure =>
      cases hOther with
      | function hClosure' =>
          simp only [equals, hClosure.ident, hClosure'.ident]
      | _ => rfl
  | _ => cases hOther <;> rfl

end Value.Mirrors

theorem Completion.Mirrors.result
    {completion completion' : Completion}
    (hMirrors : completion.Mirrors M completion') :
    completion.result.Mirrors M completion'.result := by
  cases hMirrors with
  | normal => exact .nil
  | returned hValue => exact hValue

end Lox

------------------------------------------------------------
-- Errors
------------------------------------------------------------

namespace Lox

/- Errors of the same kind at corresponding tokens. -/
structure RuntimeError.Mirrors
    (M : Mirror)
    (e e' : RuntimeError) :
    Prop where
  fault : e'.fault = e.fault
  token : Option.Rel M.rel e.token e'.token

/- Interrupts for the same reason. -/
inductive Interrupt.Mirrors (M : Mirror) :
    Interrupt → Interrupt → Prop where
  | failed
      {e e' : RuntimeError}
      (hError : e.Mirrors M e') :
      Mirrors M (.failed e) (.failed e')
  | nativeFailed
      (failure : NativeFailure) :
      Mirrors M (.nativeFailed failure) (.nativeFailed failure)
  | outOfFrames : Mirrors M .outOfFrames .outOfFrames
  | outOfRounds : Mirrors M .outOfRounds .outOfRounds

/- Two results that are alike, or two such errors. -/
def ResultMirrors
    {α : Type}
    (M : Mirror)
    (A : α → α → Prop) :
    Except RuntimeError α → Except RuntimeError α → Prop
  | .ok a, .ok a' => A a a'
  | .error e, .error e' => e.Mirrors M e'
  | _, _ => False

variable {M : Mirror} {value value' other other' : Value}
variable {op op' : Token}

theorem mirrors_blame
    {α : Type}
    {A : α → α → Prop}
    (hOp : M.rel op op')
    (fault : RuntimeFault) :
    ResultMirrors M A (.error ⟨fault, op⟩) (.error ⟨fault, op'⟩) :=
  ⟨rfl, .some hOp⟩

theorem Value.Mirrors.applyUnary
    (hMirrors : value.Mirrors M value')
    (hOp : M.rel op op') :
    ResultMirrors M (Value.Mirrors M) (applyUnary op value)
      (applyUnary op' value') := by
  have hWord := M.sameWord hOp
  have hTruthy := hMirrors.isTruthy_eq
  unfold Lox.applyUnary
  rw [hWord.kind, hWord.lexeme, hTruthy]
  split
  · cases hMirrors with
    | number x => exact .number (-x)
    | _ => exact mirrors_blame hOp _
  · exact .bool _
  · exact mirrors_blame hOp _

theorem Value.Mirrors.add
    (hMirrors : value.Mirrors M value')
    (hOther : other.Mirrors M other')
    (hOp : M.rel op op') :
    ResultMirrors M (Value.Mirrors M) (add op value other)
      (add op' value' other') := by
  cases hMirrors with
  | number a =>
      cases hOther with
      | number b => exact .number (a + b)
      | _ => exact mirrors_blame hOp _
  | string a =>
      cases hOther with
      | string b => exact .string (a ++ b)
      | _ => exact mirrors_blame hOp _
  | _ => exact mirrors_blame hOp _

theorem Value.Mirrors.onNumbers
    (hMirrors : value.Mirrors M value')
    (hOther : other.Mirrors M other')
    (hOp : M.rel op op')
    {f : Float → Float → Value}
    (hResult : ∀ a b, (f a b).Mirrors M (f a b)) :
    ResultMirrors M (Value.Mirrors M)
      (onNumbers op f value other)
      (onNumbers op' f value' other') := by
  cases hMirrors with
  | number a =>
      cases hOther with
      | number b => exact hResult a b
      | _ => exact mirrors_blame hOp _
  | _ => exact mirrors_blame hOp _

theorem Value.Mirrors.applyBinary
    (hMirrors : value.Mirrors M value')
    (hOther : other.Mirrors M other')
    (hOp : M.rel op op') :
    ResultMirrors M (Value.Mirrors M) (applyBinary op value other)
      (applyBinary op' value' other') := by
  have hWord := M.sameWord hOp
  unfold Lox.applyBinary
  rw [hWord.kind, hWord.lexeme, hMirrors.equals_eq hOther]
  split
  · exact .bool _
  · exact .bool _
  · exact hMirrors.add hOther hOp
  · exact hMirrors.onNumbers hOther hOp fun a b => .number _
  · exact hMirrors.onNumbers hOther hOp fun a b => .number _
  · exact hMirrors.onNumbers hOther hOp fun a b => .number _
  · exact hMirrors.onNumbers hOther hOp fun a b => .bool _
  · exact hMirrors.onNumbers hOther hOp fun a b => .bool _
  · exact hMirrors.onNumbers hOther hOp fun a b => .bool _
  · exact hMirrors.onNumbers hOther hOp fun a b => .bool _
  · exact mirrors_blame hOp _

end Lox

------------------------------------------------------------
-- Stores
------------------------------------------------------------

namespace Lox

/- The same names with values that mirror each other. -/
abbrev Bindings.Mirrors (M : Mirror) :
    Bindings → Bindings → Prop :=
  List.Forall₂ fun entry entry' =>
    entry'.1 = entry.1 ∧ entry.2.Mirrors M entry'.2

/- The same environments with such bindings. -/
structure Store.Mirrors (M : Mirror) (s s' : Store) : Prop where
  next : s'.next = s.next
  parents : ∀ env, s'.parent? env = s.parent? env
  bindings :
    ∀ env, (s.bindings env).Mirrors M (s'.bindings env)

variable {M : Mirror}

namespace Bindings.Mirrors

variable {bindings bindings' : Bindings}

theorem lookup
    (hMirrors : bindings.Mirrors M bindings')
    (name : String) :
    Option.Rel (Value.Mirrors M) (bindings.lookup name)
      (bindings'.lookup name) := by
  induction hMirrors with
  | nil => exact .none
  | @cons entry entry' rest rest' hEntry _ ih =>
      rcases entry with ⟨other, value⟩
      rcases entry' with ⟨other', value'⟩
      rcases hEntry with ⟨hName, hValue⟩
      have hSame : other' = other := hName
      simp only [List.lookup_cons, hSame]
      cases name == other with
      | true => exact .some hValue
      | false => exact ih

theorem set
    (hMirrors : bindings.Mirrors M bindings')
    (name : String)
    {value value' : Value}
    (hValue : value.Mirrors M value') :
    (bindings.set name value).Mirrors M
      (bindings'.set name value') := by
  induction hMirrors with
  | nil => exact .cons ⟨rfl, hValue⟩ .nil
  | @cons entry entry' rest rest' hEntry hRest ih =>
      rcases entry with ⟨other, old⟩
      rcases entry' with ⟨other', old'⟩
      have hSame : other' = other := hEntry.1
      unfold Bindings.set
      rw [hSame]
      by_cases hName : other = name
      · rw [if_pos hName, if_pos hName]
        exact .cons ⟨rfl, hValue⟩ hRest
      · rw [if_neg hName, if_neg hName]
        exact .cons ⟨rfl, hEntry.2⟩ ih

end Bindings.Mirrors

namespace Store

namespace Mirrors

variable {s s' : Store}

theorem make
    (hMirrors : s.Mirrors M s')
    (parent : Option EnvId) :
    (s.make parent).Mirrors M (s'.make parent) := by
  constructor
  · rw [next_make, next_make, hMirrors.next]
  · intro env
    rw [parent?_make, parent?_make, hMirrors.next,
      hMirrors.parents]
  · intro env
    rw [bindings_make, bindings_make]
    exact hMirrors.bindings env

theorem define
    (hMirrors : s.Mirrors M s')
    (env : EnvId)
    (name : String)
    {value value' : Value}
    (hValue : value.Mirrors M value') :
    (s.define env name value).Mirrors M
      (s'.define env name value') := by
  constructor
  · rw [next_define, next_define, hMirrors.next]
  · intro other
    rw [parent?_define, parent?_define, hMirrors.parents]
  · intro other
    rw [bindings_define, bindings_define, hMirrors.next]
    by_cases hHere : other = env ∧ env < s.next
    · rw [if_pos hHere, if_pos hHere]
      exact (hMirrors.bindings env).set name hValue
    · rw [if_neg hHere, if_neg hHere]
      exact hMirrors.bindings other

theorem local?
    (hMirrors : s.Mirrors M s')
    (env : EnvId)
    (name : String) :
    Option.Rel (Value.Mirrors M) (s.local? env name)
      (s'.local? env name) :=
  (hMirrors.bindings env).lookup name

theorem isSome_local?
    (hMirrors : s.Mirrors M s')
    (env : EnvId)
    (name : String) :
    (s'.local? env name).isSome = (s.local? env name).isSome := by
  have hLocal := hMirrors.local? env name
  generalize s.local? env name = found at hLocal ⊢
  generalize s'.local? env name = found' at hLocal ⊢
  cases hLocal <;> rfl

/- The environment at a distance, or the same error. -/
theorem ancestor
    (hMirrors : s.Mirrors M s')
    (env : EnvId)
    (distance : Nat) :
    ResultMirrors M Eq (s.ancestor env distance)
      (s'.ancestor env distance) := by
  unfold Store.ancestor
  rw [ancestor?_of_parents hMirrors.parents]
  cases s.ancestor? env distance with
  | none => exact ⟨rfl, .none⟩
  | some found => exact rfl

theorem undefined
    {name name' : Token}
    (hName : M.rel name name') :
    (Store.undefined name).Mirrors M (Store.undefined name') := by
  refine ⟨?_, .some hName⟩
  simp only [Store.undefined, (M.sameWord hName).lexeme]

theorem owner
    (hMirrors : s.Mirrors M s')
    (env : EnvId)
    {name name' : Token}
    (hName : M.rel name name') :
    ResultMirrors M Eq (s.owner env name) (s'.owner env name') := by
  have hSame :
      s'.owner? env name'.lexeme = s.owner? env name.lexeme := by
    unfold owner?
    simp only [chain_of_parents hMirrors.parents,
      (M.sameWord hName).lexeme, hMirrors.isSome_local?]
  unfold Store.owner
  rw [hSame]
  cases s.owner? env name.lexeme with
  | none => exact undefined hName
  | some found => exact rfl

theorem get
    (hMirrors : s.Mirrors M s')
    (env : EnvId)
    {name name' : Token}
    (hName : M.rel name name') :
    ResultMirrors M (Value.Mirrors M) (s.get env name)
      (s'.get env name') := by
  have hFound :
      ∀ envs : List EnvId,
        Option.Rel (Value.Mirrors M)
          (envs.findSome? (s.local? · name.lexeme))
          (envs.findSome? (s'.local? · name.lexeme)) := by
    intro envs
    induction envs with
    | nil => exact .none
    | cons first envs ih =>
        have hLocal := hMirrors.local? first name.lexeme
        simp only [List.findSome?_cons]
        generalize s.local? first name.lexeme = found at hLocal ⊢
        generalize s'.local? first name.lexeme = found' at hLocal ⊢
        cases hLocal with
        | none => exact ih
        | some hValue => exact .some hValue
  have hHere := hFound (s.chain env)
  unfold Store.get
  rw [chain_of_parents hMirrors.parents, (M.sameWord hName).lexeme]
  generalize (s.chain env).findSome? _ = found at hHere ⊢
  generalize (s.chain env).findSome? _ = found' at hHere ⊢
  cases hHere with
  | none => exact undefined hName
  | some hValue => exact hValue

theorem getAt
    (hMirrors : s.Mirrors M s')
    (env : EnvId)
    (distance : Nat)
    {name name' : Token}
    (hName : M.rel name name') :
    ResultMirrors M (Value.Mirrors M) (s.getAt env distance name)
      (s'.getAt env distance name') := by
  have hEnv := hMirrors.ancestor env distance
  unfold Store.getAt
  rw [(M.sameWord hName).lexeme]
  generalize s.ancestor env distance = found at hEnv ⊢
  generalize s'.ancestor env distance = found' at hEnv ⊢
  cases found with
  | error e =>
      cases found' with
      | error e' => exact hEnv
      | ok other => exact hEnv.elim
  | ok env =>
      cases found' with
      | error e' => exact hEnv.elim
      | ok other =>
          have hSame : env = other := hEnv
          subst hSame
          have hLocal := hMirrors.local? env name.lexeme
          simp only [bind, Except.bind]
          generalize s.local? env name.lexeme = value at hLocal ⊢
          generalize s'.local? env name.lexeme = value' at hLocal ⊢
          cases hLocal with
          | none => exact undefined hName
          | some hValue => exact hValue

end Mirrors

end Store

end Lox

------------------------------------------------------------
-- Machines
------------------------------------------------------------

namespace Lox

/-
  Machines that have come equally far, where one of them has
  printed some lines earlier.
-/
structure Machine.Mirrors
    (M : Mirror)
    (earlier : List String)
    (m m' : Machine) :
    Prop where
  store : m.store.Mirrors M m'.store
  globals : m'.globals = m.globals
  current : m'.current = m.current
  clock : m'.clock = m.clock
  output : m'.output.toList = earlier ++ m.output.toList
  functions : m'.functions = m.functions

/- Runs that are interrupted for the same reason. -/
def Mirror.running
    (M : Mirror)
    (earlier : List String) :
    Coupling Interrupt Machine :=
  { states := Machine.Mirrors M earlier
    errors := Interrupt.Mirrors M }

end Lox

------------------------------------------------------------
-- Steps Of Runs
------------------------------------------------------------

namespace Lox.Run

open Coupling

variable {M : Mirror} {earlier : List String}
variable {α : Type} {A : α → α → Prop}

theorem mirrors_lift
    {result result' : Except RuntimeError α}
    (hResult : ResultMirrors M A result result') :
    (M.running earlier).Relates A (lift result)
      (lift result') := by
  intro m m' hMirrors
  cases result with
  | ok a =>
      cases result' with
      | ok a' => exact ⟨hResult, hMirrors⟩
      | error e' => exact hResult.elim
  | error e =>
      cases result' with
      | ok a' => exact hResult.elim
      | error e' => exact ⟨.failed hResult, hMirrors⟩

theorem mirrors_fail
    {token token' : Token}
    (hToken : M.rel token token')
    (fault : RuntimeFault) :
    (M.running earlier).Relates A (fail fault token)
      (fail fault token') :=
  relates_error (.failed ⟨rfl, .some hToken⟩)

theorem mirrors_outOfFrames :
    (M.running earlier).Relates A outOfFrames outOfFrames :=
  relates_error .outOfFrames

theorem mirrors_printLine (text : String) :
    (M.running earlier).Relates Eq (printLine text)
      (printLine text) := by
  intro m m' hMirrors
  refine
    ⟨rfl, hMirrors.store, hMirrors.globals, hMirrors.current,
      hMirrors.clock, ?_, hMirrors.functions⟩
  simp [hMirrors.output]

theorem mirrors_makeEnv (parent : Option EnvId) :
    (M.running earlier).Relates Eq (makeEnv parent)
      (makeEnv parent) :=
  fun _ _ hMirrors =>
    ⟨hMirrors.store.next.symm, hMirrors.store.make parent,
      hMirrors.globals, hMirrors.current, hMirrors.clock,
      hMirrors.output, hMirrors.functions⟩

theorem mirrors_current :
    (M.running earlier).Relates Eq current current :=
  fun _ _ hMirrors => ⟨hMirrors.current.symm, hMirrors⟩

theorem mirrors_define
    (env : EnvId)
    (name : String)
    {value value' : Value}
    (hValue : value.Mirrors M value') :
    (M.running earlier).Relates Eq (define env name value)
      (define env name value') :=
  fun _ _ hMirrors =>
    ⟨rfl, hMirrors.store.define env name hValue,
      hMirrors.globals, hMirrors.current, hMirrors.clock,
      hMirrors.output, hMirrors.functions⟩

theorem mirrors_readName
    {name name' : Token}
    (hName : M.rel name name')
    (hops : Option Nat) :
    (M.running earlier).Relates (Value.Mirrors M)
      (readName name hops) (readName name' hops) := by
  intro m m' hMirrors
  cases hops with
  | none =>
      have hResult := hMirrors.store.get m.globals hName
      rw [← hMirrors.globals] at hResult
      exact
        mirrors_lift (hMirrors.globals ▸ hResult) m m' hMirrors
  | some hops =>
      have hResult := hMirrors.store.getAt m.current hops hName
      exact
        mirrors_lift (hMirrors.current.symm ▸ hResult) m m' hMirrors

theorem mirrors_writeName
    {name name' : Token}
    (hName : M.rel name name')
    (hops : Option Nat)
    {value value' : Value}
    (hValue : value.Mirrors M value') :
    (M.running earlier).Relates Eq (writeName name hops value)
      (writeName name' hops value') := by
  intro m m' hMirrors
  have hTarget :
      ResultMirrors M Eq (m.target name hops)
        (m'.target name' hops) := by
    unfold Machine.target
    rw [hMirrors.globals, hMirrors.current]
    cases hops with
    | none => exact hMirrors.store.owner m.globals hName
    | some hops => exact hMirrors.store.ancestor m.current hops
  unfold writeName
  rw [(M.sameWord hName).lexeme]
  generalize m.target name hops = found at hTarget ⊢
  generalize m'.target name' hops = found' at hTarget ⊢
  cases found with
  | error e =>
      cases found' with
      | error e' => exact ⟨.failed hTarget, hMirrors⟩
      | ok env' => exact hTarget.elim
  | ok env =>
      cases found' with
      | error e' => exact hTarget.elim
      | ok env' =>
          have hSame : env = env' := hTarget
          subst hSame
          exact
            mirrors_define env name.lexeme hValue m m' hMirrors

theorem mirrors_freshIdent :
    (M.running earlier).Relates Eq freshIdent freshIdent := by
  intro m m' hMirrors
  refine
    ⟨hMirrors.functions.symm, hMirrors.store, hMirrors.globals,
      hMirrors.current, hMirrors.clock, hMirrors.output, ?_⟩
  simp only [hMirrors.functions]

theorem mirrors_makeFunction
    {name name' : Token}
    {params params' : List Token}
    {body body' : List Stmt}
    (hName : name'.lexeme = name.lexeme)
    (hParams :
      params'.map (·.lexeme) = params.map (·.lexeme))
    (hBody : List.Forall₂ (Stmt.Mirrors M) body body')
    (env : EnvId) :
    (M.running earlier).Relates (Value.Mirrors M)
      (makeFunction name params body env)
      (makeFunction name' params' body' env) := by
  apply mirrors_freshIdent.bind
  intro ident ident' hSame
  exact
    relates_pure (.function ⟨hSame.symm, hName, hParams, hBody, rfl⟩)

theorem mirrors_makeNative (native : Native) :
    (M.running earlier).Relates (Value.Mirrors M)
      (makeNative native) (makeNative native) := by
  apply mirrors_freshIdent.bind
  intro ident ident' hSame
  rw [hSame]
  exact relates_pure (.native _)

theorem mirrors_failNative (failure : NativeFailure) :
    (M.running earlier).Relates A (failNative failure)
      (failNative failure) :=
  relates_error (.nativeFailed failure)

theorem mirrors_readClock :
    (M.running earlier).Relates (Value.Mirrors M) readClock
      readClock := by
  intro m m' hMirrors
  have hNext :
      Machine.Mirrors M earlier { m with clock := m.clock.next }
        { m' with clock := m'.clock.next } :=
    ⟨hMirrors.store, hMirrors.globals, hMirrors.current,
      congrArg Clock.next hMirrors.clock, hMirrors.output,
      hMirrors.functions⟩
  unfold readClock
  rw [hMirrors.clock] at hNext ⊢
  cases milliseconds m.clock.now with
  | ok x => exact ⟨.number x, hNext⟩
  | error e => exact ⟨.nativeFailed e, hNext⟩

theorem mirrors_inScope
    {step step' : Run α}
    (hStep : (M.running earlier).Relates A step step')
    (env : EnvId) :
    (M.running earlier).Relates A (inScope env step)
      (inScope env step') := by
  intro m m' hMirrors
  have hInner :
      Machine.Mirrors M earlier { m with current := env }
        { m' with current := env } :=
    ⟨hMirrors.store, hMirrors.globals, rfl, hMirrors.clock,
      hMirrors.output, hMirrors.functions⟩
  have hLeave :
      ∀ {n n' : Machine},
        n.Mirrors M earlier n' →
          Machine.Mirrors M earlier
            { n with current := m.current }
            { n' with current := m'.current } := by
    intro n n' hInside
    exact
      ⟨hInside.store, hInside.globals, hMirrors.current,
        hInside.clock, hInside.output, hInside.functions⟩
  have hEnds := hStep _ _ hInner
  unfold inScope
  unfold Coupling.Ends at hEnds
  split at hEnds
  · rename_i hLeft hRight
    simp only [hLeft, hRight]
    exact ⟨hEnds.1, hLeave hEnds.2⟩
  · rename_i hLeft hRight
    simp only [hLeft, hRight]
    exact ⟨hEnds.1, hLeave hEnds.2⟩
  · exact hEnds.elim

theorem mirrors_guardStack
    {step step' : Run α}
    {paren paren' : Token}
    (hStep : (M.running earlier).Relates A step step')
    (hParen : M.rel paren paren') :
    (M.running earlier).Relates A (guardStack paren step)
      (guardStack paren' step') := by
  intro m m' hMirrors
  have hEnds := hStep m m' hMirrors
  unfold guardStack
  unfold Coupling.Ends at hEnds
  split at hEnds
  · rename_i hLeft hRight
    simp only [hLeft, hRight]
    exact hEnds
  · rename_i hLeft hRight
    rcases hEnds with ⟨hInterrupt, hLast⟩
    simp only [hLeft, hRight]
    cases hInterrupt with
    | outOfFrames =>
        exact ⟨.failed ⟨rfl, .some hParen⟩, hLast⟩
    | failed hError => exact ⟨.failed hError, hLast⟩
    | nativeFailed failure =>
        exact ⟨.nativeFailed failure, hLast⟩
    | outOfRounds => exact ⟨.outOfRounds, hLast⟩
  · exact hEnds.elim

end Lox.Run

------------------------------------------------------------
-- Lists Of Steps And Calls
------------------------------------------------------------

namespace Lox

open Run Coupling

variable {M : Mirror} {earlier : List String}

/- Two ways to evaluate, where the trees mirror each other. -/
def EvalMirrors
    (M : Mirror)
    (earlier : List String)
    (eval : Expr → Run Value) :
    Prop :=
  ∀ e e' : Expr, e.Mirrors M e' →
    (M.running earlier).Relates (Value.Mirrors M) (eval e)
      (eval e')

def ExecMirrors
    (M : Mirror)
    (earlier : List String)
    (exec : Stmt → Run Completion) :
    Prop :=
  ∀ s s' : Stmt, s.Mirrors M s' →
    (M.running earlier).Relates (Completion.Mirrors M) (exec s)
      (exec s')

def CallMirrors
    (M : Mirror)
    (earlier : List String)
    (call : Value → List Value → Token → Run Value) :
    Prop :=
  ∀ (callee callee' : Value) (args args' : List Value)
    (paren paren' : Token),
    callee.Mirrors M callee' →
    List.Forall₂ (Value.Mirrors M) args args' →
    M.rel paren paren' →
      (M.running earlier).Relates (Value.Mirrors M)
        (call callee args paren) (call callee' args' paren')

variable {eval : Expr → Run Value}
variable {exec : Stmt → Run Completion}
variable {call : Value → List Value → Token → Run Value}

theorem EvalMirrors.evalAll
    (hEval : EvalMirrors M earlier eval)
    {args args' : List Expr}
    (hArgs : List.Forall₂ (Expr.Mirrors M) args args') :
    (M.running earlier).Relates
      (List.Forall₂ (Value.Mirrors M)) (evalAll eval args)
      (evalAll eval args') := by
  induction hArgs with
  | nil => exact relates_pure .nil
  | cons hArg _ ih =>
      apply (hEval _ _ hArg).bind
      intro value value' hValue
      apply ih.bind
      intro values values' hValues
      exact relates_pure (.cons hValue hValues)

theorem ExecMirrors.execAll
    (hExec : ExecMirrors M earlier exec)
    {body body' : List Stmt}
    (hBody : List.Forall₂ (Stmt.Mirrors M) body body') :
    (M.running earlier).Relates (Completion.Mirrors M)
      (execAll exec body) (execAll exec body') := by
  induction hBody with
  | nil => exact relates_pure .normal
  | cons hStmt _ ih =>
      apply (hExec _ _ hStmt).bind
      intro completion completion' hCompletion
      cases hCompletion with
      | normal => exact ih
      | returned hValue => exact relates_pure (.returned hValue)

theorem mirrors_repeatWhile
    {condition condition' : Run Value}
    {body body' : Run Completion}
    (hCondition :
      (M.running earlier).Relates (Value.Mirrors M) condition
        condition')
    (hBody :
      (M.running earlier).Relates (Completion.Mirrors M) body
        body')
    (rounds : Nat) :
    (M.running earlier).Relates (Completion.Mirrors M)
      (repeatWhile condition body rounds)
      (repeatWhile condition' body' rounds) := by
  induction rounds with
  | zero => exact relates_error .outOfRounds
  | succ rounds ih =>
      apply hCondition.bind
      intro value value' hValue
      refine
        Relates.ite (by rw [hValue.isTruthy_eq]) ?_
          (relates_pure .normal)
      apply hBody.bind
      intro completion completion' hCompletion
      cases hCompletion with
      | normal => exact ih
      | returned hValue => exact relates_pure (.returned hValue)

theorem mirrors_bindParams
    (env : EnvId)
    {params params' : List Token}
    (hParams :
      params'.map (·.lexeme) = params.map (·.lexeme))
    {args args' : List Value}
    (hArgs : List.Forall₂ (Value.Mirrors M) args args') :
    (M.running earlier).Relates Eq (bindParams env params args)
      (bindParams env params' args') := by
  induction params generalizing params' args args' with
  | nil =>
      have hNone : params' = [] := by simpa using hParams
      subst hNone
      exact relates_pure rfl
  | cons param params ih =>
      cases params' with
      | nil => cases hParams
      | cons param' params' =>
          rcases List.cons.inj hParams with ⟨hParam, hRest⟩
          cases hArgs with
          | nil => exact relates_pure rfl
          | cons hArg hArgs =>
              have hSame : param'.lexeme = param.lexeme := hParam
              unfold bindParams
              rw [hSame]
              apply (mirrors_define env param.lexeme hArg).bind
              intro _ _ _
              exact ih hRest hArgs

theorem ExecMirrors.callClosure
    (hExec : ExecMirrors M earlier exec)
    {f f' : Closure}
    (hClosure : f.Mirrors M f')
    {args args' : List Value}
    (hArgs : List.Forall₂ (Value.Mirrors M) args args') :
    (M.running earlier).Relates (Value.Mirrors M)
      (callClosure exec f args) (callClosure exec f' args') := by
  unfold Lox.callClosure
  rw [hClosure.env]
  apply (mirrors_makeEnv (some f.env)).bind
  intro params params' hSame
  rw [← hSame]
  apply (mirrors_bindParams params hClosure.params hArgs).bind
  intro _ _ _
  apply (mirrors_makeEnv (some params)).bind
  intro body body' hBody
  rw [← hBody]
  apply (mirrors_inScope (hExec.execAll hClosure.body) body).bind
  intro completion completion' hCompletion
  exact relates_pure hCompletion.result

theorem CallMirrors.callNative
    (hCall : CallMirrors M earlier call)
    (hNative : M.rel nativeCallToken nativeCallToken)
    (native : Native)
    {args args' : List Value}
    (hArgs : List.Forall₂ (Value.Mirrors M) args args') :
    (M.running earlier).Relates (Value.Mirrors M)
      (callNative call native args)
      (callNative call native args') := by
  unfold Lox.callNative
  cases native.behavior with
  | clock => exact mirrors_readClock
  | argument index =>
      have hArg := forall₂_getElem? hArgs index
      dsimp only
      generalize args[index]? = found at hArg ⊢
      generalize args'[index]? = found' at hArg ⊢
      cases hArg with
      | none => exact mirrors_failNative _
      | some hValue => exact relates_pure hValue
  | constant value => exact relates_pure (.ofLiteral value)
  | makeFunction name params =>
      apply (mirrors_makeEnv none).bind
      intro env env' hSame
      rw [← hSame]
      exact mirrors_makeFunction rfl rfl .nil env
  | makeNative name arity => exact mirrors_makeNative _
  | apply index =>
      have hArg := forall₂_getElem? hArgs index
      dsimp only
      generalize args[index]? = found at hArg ⊢
      generalize args'[index]? = found' at hArg ⊢
      cases hArg with
      | none => exact mirrors_failNative _
      | some hCallee =>
          exact
            hCall _ _ _ _ _ _ hCallee (forall₂_eraseIdx hArgs index)
              hNative
  | foreign number => exact mirrors_failNative _

theorem mirrors_checkArity
    (expected got : Nat)
    {paren paren' : Token}
    (hParen : M.rel paren paren') :
    (M.running earlier).Relates Eq (checkArity expected got paren)
      (checkArity expected got paren') :=
  Relates.ite Iff.rfl (relates_pure rfl) (mirrors_fail hParen _)

theorem mirrors_declareFunction
    {name name' : Token}
    {params params' : List Token}
    {body body' : List Stmt}
    (hName : M.rel name name')
    (hParams : List.Forall₂ M.rel params params')
    (hBody : List.Forall₂ (Stmt.Mirrors M) body body') :
    (M.running earlier).Relates Eq
      (declareFunction name params body)
      (declareFunction name' params' body') := by
  have hNames :
      params'.map (·.lexeme) = params.map (·.lexeme) := by
    induction hParams with
    | nil => rfl
    | cons hParam _ ih =>
        simp only [List.map_cons, (M.sameWord hParam).lexeme, ih]
  have hLexeme := (M.sameWord hName).lexeme
  apply mirrors_current.bind
  intro env env' hSame
  rw [← hSame]
  apply (mirrors_makeFunction hLexeme hNames hBody env).bind
  intro value value' hValue
  rw [hLexeme]
  exact mirrors_define env name.lexeme hValue

/- A variable declaration binds its name and ends normally. -/
theorem mirrors_defineHere
    {name name' : Token}
    (hName : M.rel name name')
    {value value' : Value}
    (hValue : value.Mirrors M value') :
    (M.running earlier).Relates (Completion.Mirrors M)
      (do
        define (← current) name.lexeme value
        return .normal)
      (do
        define (← current) name'.lexeme value'
        return .normal) := by
  apply mirrors_current.bind
  intro env env' hSame
  rw [← hSame, (M.sameWord hName).lexeme]
  apply (mirrors_define env name.lexeme hValue).bind
  intro _ _ _
  exact relates_pure .normal

end Lox

------------------------------------------------------------
-- Expressions And Statements
------------------------------------------------------------

namespace Lox

open Run Coupling

variable {M : Mirror} {earlier : List String}

section Evaluation

variable {rounds frames : Nat}
variable (hEval : EvalMirrors M earlier (eval rounds frames))
variable (hExec : ExecMirrors M earlier (exec rounds frames))
variable (hCall : CallMirrors M earlier (call rounds frames))

include hEval hCall in
theorem eval_mirrors_succ :
    EvalMirrors M earlier (eval rounds (frames + 1)) := by
  intro e e' hMirrors
  rw [eval.eq_def, eval.eq_def]
  cases hMirrors with
  | literal value => exact relates_pure (.ofLiteral value)
  | name hName => exact mirrors_readName hName _
  | assign hName hValue =>
      apply (hEval _ _ hValue).bind
      intro value value' hResult
      apply (mirrors_writeName hName _ hResult).bind
      intro _ _ _
      exact relates_pure hResult
  | binary hLeft hOp hRight =>
      apply (hEval _ _ hLeft).bind
      intro a a' hA
      apply (hEval _ _ hRight).bind
      intro b b' hB
      exact mirrors_lift (hA.applyBinary hB hOp)
  | logical hLeft hOp hRight =>
      apply (hEval _ _ hLeft).bind
      intro a a' hA
      refine Relates.ite ?_ (relates_pure hA) (hEval _ _ hRight)
      rw [hA.isTruthy_eq, (M.sameWord hOp).kind]
  | unary hOp hOperand =>
      apply (hEval _ _ hOperand).bind
      intro a a' hA
      exact mirrors_lift (hA.applyUnary hOp)
  | grouping hInner => exact hEval _ _ hInner
  | call hCallee hParen hArgs =>
      apply (hEval _ _ hCallee).bind
      intro f f' hF
      apply (hEval.evalAll hArgs).bind
      intro values values' hValues
      exact
        mirrors_guardStack
          (hCall f f' values values' _ _ hF hValues hParen) hParen

include hEval hExec in
theorem exec_mirrors_succ :
    ExecMirrors M earlier (exec rounds (frames + 1)) := by
  intro s s' hMirrors
  rw [exec.eq_def, exec.eq_def]
  cases hMirrors with
  | expression hValue =>
      apply (hEval _ _ hValue).bind
      intro _ _ _
      exact relates_pure .normal
  | print hValue =>
      apply (hEval _ _ hValue).bind
      intro value value' hResult
      rw [hResult.text_eq]
      apply (mirrors_printLine value.text).bind
      intro _ _ _
      exact relates_pure .normal
  | var hName hInitializer =>
      cases hInitializer with
      | none => exact mirrors_defineHere hName .nil
      | some hValue =>
          apply (hEval _ _ hValue).bind
          intro value value' hResult
          exact mirrors_defineHere hName hResult
  | block hBody =>
      apply mirrors_current.bind
      intro outer outer' hSame
      rw [← hSame]
      apply (mirrors_makeEnv (some outer)).bind
      intro env env' hEnv
      rw [← hEnv]
      exact mirrors_inScope (hExec.execAll hBody) env
  | ifThen hCondition hThen =>
      apply (hEval _ _ hCondition).bind
      intro value value' hValue
      exact
        Relates.ite (by rw [hValue.isTruthy_eq])
          (hExec _ _ hThen) (relates_pure .normal)
  | ifElse hCondition hThen hElse =>
      apply (hEval _ _ hCondition).bind
      intro value value' hValue
      exact
        Relates.ite (by rw [hValue.isTruthy_eq])
          (hExec _ _ hThen) (hExec _ _ hElse)
  | loop hCondition hBody =>
      exact
        mirrors_repeatWhile (hEval _ _ hCondition)
          (hExec _ _ hBody) rounds
  | function hName hParams hBody =>
      apply (mirrors_declareFunction hName hParams hBody).bind
      intro _ _ _
      exact relates_pure .normal
  | ret hKeyword hValue =>
      cases hValue with
      | none => exact relates_pure (.returned .nil)
      | some hValue =>
          apply (hEval _ _ hValue).bind
          intro value value' hResult
          exact relates_pure (.returned hResult)

include hExec hCall in
theorem call_mirrors_succ
    (hNative : M.rel nativeCallToken nativeCallToken) :
    CallMirrors M earlier (call rounds (frames + 1)) := by
  intro callee callee' args args' paren paren' hCallee hArgs hParen
  have hLength := hArgs.length_eq
  rw [call.eq_def, call.eq_def]
  cases hCallee with
  | function hClosure =>
      simp only [hClosure.length_params, ← hLength]
      apply (mirrors_checkArity _ _ hParen).bind
      intro _ _ _
      exact hExec.callClosure hClosure hArgs
  | native f =>
      simp only [← hLength]
      apply (mirrors_checkArity _ _ hParen).bind
      intro _ _ _
      exact hCall.callNative hNative f.toNative hArgs
  | _ => exact mirrors_fail hParen _

end Evaluation

/- Evaluation, by induction on the frames that are left. -/
theorem evaluation_mirrors
    (hNative : M.rel nativeCallToken nativeCallToken)
    (rounds frames : Nat) :
    EvalMirrors M earlier (eval rounds frames) ∧
      ExecMirrors M earlier (exec rounds frames) ∧
      CallMirrors M earlier (call rounds frames) := by
  induction frames with
  | zero =>
      refine ⟨?_, ?_, ?_⟩
      · intro e e' _
        rw [eval, eval]
        exact mirrors_outOfFrames
      · intro s s' _
        rw [exec, exec]
        exact mirrors_outOfFrames
      · intro callee callee' args args' paren paren' _ _ _
        rw [call, call]
        exact mirrors_outOfFrames
  | succ frames ih =>
      rcases ih with ⟨ihEval, ihExec, ihCall⟩
      exact
        ⟨eval_mirrors_succ ihEval ihCall,
          exec_mirrors_succ ihEval ihExec,
          call_mirrors_succ ihExec ihCall hNative⟩

/- Programs that mirror each other run in the same way. -/
theorem mirrors_runProgram
    (hNative : M.rel nativeCallToken nativeCallToken)
    (limits : Limits)
    {program program' : List Stmt}
    (hProgram : List.Forall₂ (Stmt.Mirrors M) program program') :
    (M.running earlier).Relates Eq (runProgram limits program)
      (runProgram limits program') := by
  induction hProgram with
  | nil => exact relates_pure rfl
  | cons hStmt _ ih =>
      have hExec :
          ExecMirrors M earlier (exec limits.rounds limits.frames) :=
        (evaluation_mirrors hNative _ _).2.1
      apply (hExec _ _ hStmt).bind
      intro _ _ _
      exact ih

end Lox
