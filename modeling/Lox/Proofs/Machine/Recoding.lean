import Lox.Machine.Evaluation
import Lox.Proofs.Coupling
import Lox.Proofs.Machine.Growth

/-
  Machines whose functions have other bodies.

  The bodies of all functions of a machine can be replaced, one
  by one, by other bodies. No small step of a run looks into a
  body: on the machine with the other bodies it does the same,
  and gives the same value with the other bodies. Only calls
  are left to be looked at.

  Key definitions include:
    * `Value.recode`
    * `Store.recode`
    * `Machine.recode`
    * `Run.recoding`
-/

------------------------------------------------------------
-- Values
------------------------------------------------------------

namespace Lox

variable (code : List Stmt → List Stmt)

def Closure.recode (f : Closure) : Closure :=
  { f with body := code f.body }

/- The value with the other body, if it is a function. -/
def Value.recode : Value → Value
  | .function f => .function (f.recode code)
  | value => value

def Completion.recode : Completion → Completion
  | .normal => .normal
  | .returned value => .returned (value.recode code)

namespace Value

theorem recode_ofLiteral (literal : Literal) :
    (ofLiteral literal).recode code = ofLiteral literal := by
  cases literal <;> rfl

/- Nothing that a program can see of a value is different. -/
theorem text_recode (value : Value) :
    (value.recode code).text = value.text := by
  cases value <;> rfl

theorem isTruthy_recode (value : Value) :
    (value.recode code).isTruthy = value.isTruthy := by
  cases value <;> rfl

theorem equals_recode (value other : Value) :
    (value.recode code).equals (other.recode code) =
      value.equals other := by
  cases value <;> cases other <;> rfl

theorem applyUnary_recode (op : Token) (value : Value) :
    applyUnary op (value.recode code) =
      (applyUnary op value).map (recode code) := by
  unfold applyUnary
  rw [isTruthy_recode]
  split
  · cases value <;> rfl
  · rfl
  · rfl

theorem add_recode (op : Token) (value other : Value) :
    add op (value.recode code) (other.recode code) =
      (add op value other).map (recode code) := by
  cases value <;> cases other <;> rfl

theorem onNumbers_recode
    (op : Token)
    {f : Float → Float → Value}
    (hResult : ∀ a b, (f a b).recode code = f a b)
    (value other : Value) :
    onNumbers op f (value.recode code) (other.recode code) =
      (onNumbers op f value other).map (recode code) := by
  cases value with
  | number a =>
      cases other with
      | number b => exact congrArg Except.ok (hResult a b).symm
      | _ => rfl
  | _ => rfl

theorem applyBinary_recode (op : Token) (value other : Value) :
    applyBinary op (value.recode code) (other.recode code) =
      (applyBinary op value other).map (recode code) := by
  unfold applyBinary
  rw [equals_recode]
  split
  · rfl
  · rfl
  · exact add_recode code op value other
  · exact onNumbers_recode code op (fun _ _ => rfl) value other
  · exact onNumbers_recode code op (fun _ _ => rfl) value other
  · exact onNumbers_recode code op (fun _ _ => rfl) value other
  · exact onNumbers_recode code op (fun _ _ => rfl) value other
  · exact onNumbers_recode code op (fun _ _ => rfl) value other
  · exact onNumbers_recode code op (fun _ _ => rfl) value other
  · exact onNumbers_recode code op (fun _ _ => rfl) value other
  · rfl

end Value

theorem Completion.result_recode (completion : Completion) :
    (completion.recode code).result =
      completion.result.recode code := by
  cases completion <;> rfl

end Lox

------------------------------------------------------------
-- Stores
------------------------------------------------------------

namespace Lox

variable (code : List Stmt → List Stmt)

def Bindings.recode (bindings : Bindings) : Bindings :=
  bindings.map fun (name, value) => (name, value.recode code)

def Frame.recode (frame : Frame) : Frame :=
  { frame with bindings := frame.bindings.recode code }

def Store.recode (s : Store) : Store :=
  ⟨s.frames.map (Frame.recode code)⟩

namespace Bindings

theorem lookup_recode (bindings : Bindings) (name : String) :
    (bindings.recode code).lookup name =
      (bindings.lookup name).map (Value.recode code) := by
  induction bindings with
  | nil => rfl
  | cons entry bindings ih =>
      rcases entry with ⟨other, value⟩
      have hCons :
          recode code ((other, value) :: bindings) =
            (other, value.recode code) :: recode code bindings :=
        rfl
      rw [hCons, List.lookup_cons, List.lookup_cons]
      cases name == other with
      | true => rfl
      | false => exact ih

theorem set_recode
    (bindings : Bindings)
    (name : String)
    (value : Value) :
    (bindings.set name value).recode code =
      (bindings.recode code).set name (value.recode code) := by
  induction bindings with
  | nil => rfl
  | cons entry bindings ih =>
      rcases entry with ⟨other, old⟩
      have hCons :
          recode code ((other, old) :: bindings) =
            (other, old.recode code) :: recode code bindings :=
        rfl
      rw [hCons]
      unfold set
      split
      · rfl
      · rw [← ih]
        rfl

end Bindings

namespace Store

theorem next_recode (s : Store) :
    (s.recode code).next = s.next :=
  Array.size_map

theorem bindings_recode (s : Store) (env : EnvId) :
    (s.recode code).bindings env =
      (s.bindings env).recode code := by
  unfold bindings recode
  rw [Array.getElem?_map]
  cases s.frames[env]? <;> rfl

theorem parent?_recode (s : Store) (env : EnvId) :
    (s.recode code).parent? env = s.parent? env := by
  unfold parent? recode
  rw [Array.getElem?_map]
  cases s.frames[env]? <;> rfl

theorem local?_recode
    (s : Store)
    (env : EnvId)
    (name : String) :
    (s.recode code).local? env name =
      (s.local? env name).map (Value.recode code) := by
  unfold local?
  rw [bindings_recode, Bindings.lookup_recode]

theorem make_recode (s : Store) (parent : Option EnvId) :
    (s.make parent).recode code = (s.recode code).make parent := by
  unfold make recode
  rw [Array.map_push]
  rfl

theorem define_recode
    (s : Store)
    (env : EnvId)
    (name : String)
    (value : Value) :
    (s.define env name value).recode code =
      (s.recode code).define env name (value.recode code) := by
  unfold define recode
  congr 1
  apply Array.ext_getElem?
  intro other
  simp only [Array.getElem?_map, Array.getElem?_modify]
  split
  · cases s.frames[other]? with
    | none => rfl
    | some frame =>
        simp only [Option.map_some, Frame.recode,
          Bindings.set_recode]
  · rfl

theorem ancestor_recode
    (s : Store)
    (env : EnvId)
    (distance : Nat) :
    (s.recode code).ancestor env distance =
      s.ancestor env distance := by
  simp only [ancestor, ancestor?_of_parents (s.parent?_recode code)]

theorem owner_recode
    (s : Store)
    (env : EnvId)
    (name : Token) :
    (s.recode code).owner env name = s.owner env name := by
  simp only [owner, owner?, chain_of_parents (s.parent?_recode code),
    local?_recode, Option.isSome_map]

theorem get_recode
    (s : Store)
    (env : EnvId)
    (name : Token) :
    (s.recode code).get env name =
      (s.get env name).map (Value.recode code) := by
  have hFound :
      (s.chain env).findSome?
          ((s.recode code).local? · name.lexeme) =
        ((s.chain env).findSome? (s.local? · name.lexeme)).map
          (Value.recode code) := by
    simp only [local?_recode, List.map_findSome?]
    rfl
  unfold get
  rw [chain_of_parents (s.parent?_recode code), hFound]
  cases (s.chain env).findSome? (s.local? · name.lexeme) <;> rfl

theorem getAt_recode
    (s : Store)
    (env : EnvId)
    (distance : Nat)
    (name : Token) :
    (s.recode code).getAt env distance name =
      (s.getAt env distance name).map (Value.recode code) := by
  unfold getAt
  rw [ancestor_recode]
  cases s.ancestor env distance with
  | error e => rfl
  | ok found =>
      simp only [bind, Except.bind, local?_recode]
      cases s.local? found name.lexeme <;> rfl

end Store

end Lox

------------------------------------------------------------
-- Machines
------------------------------------------------------------

namespace Lox

variable (code : List Stmt → List Stmt)

def Machine.recode (m : Machine) : Machine :=
  { m with store := m.store.recode code }

/- A new machine has no functions with bodies. -/
theorem Machine.recode_start
    (natives : List Native)
    (clock : Clock) :
    (Machine.start natives clock).recode code =
      Machine.start natives clock := by
  have hNatives :
      ∀ (ident : Nat) (s : Store),
        s.recode code = s →
          (bindNatives 0 ident natives s).recode code =
            bindNatives 0 ident natives s := by
    induction natives with
    | nil => exact fun _ _ hSame => hSame
    | cons native natives ih =>
        intro ident s hSame
        apply ih
        rw [Store.define_recode, hSame]
        rfl
  have hEmpty : (Store.make {} none).recode code = .make {} none := by
    rw [Store.make_recode]
    simp [Store.recode]
  exact
    congrArg
      (fun store =>
        ({ Machine.start natives clock with store } : Machine))
      (hNatives 0 _ hEmpty)

/- The same interrupts, and machines with the other bodies. -/
def Run.recoding : Coupling Interrupt Machine where
  states m m' := m' = m.recode code
  errors e e' := e' = e

end Lox

------------------------------------------------------------
-- Steps Of Runs
------------------------------------------------------------

namespace Lox.Run

open Coupling

variable (code : List Stmt → List Stmt) {α : Type}

/- The value of the second step is the other one's, recoded. -/
abbrev GivesRecoded (step step' : Run Value) : Prop :=
  (recoding code).Relates (fun a a' => a' = a.recode code) step
    step'

/- So is the completion. -/
abbrev EndsRecoded (step step' : Run Completion) : Prop :=
  (recoding code).Relates (fun a a' => a' = a.recode code) step
    step'

variable {code}

theorem recoded_lift
    {result result' : Except RuntimeError Value}
    (hResult : result' = result.map (Value.recode code)) :
    GivesRecoded code (lift result) (lift result') := by
  rintro m _ rfl
  subst hResult
  cases result with
  | ok a => exact ⟨rfl, rfl⟩
  | error e => exact ⟨rfl, rfl⟩

theorem recoded_stop
    {A : α → α → Prop}
    (interrupt : Interrupt) :
    (recoding code).Relates A (fun m => .error interrupt m)
      (fun m => .error interrupt m) :=
  relates_error rfl

theorem recoded_printLine (text : String) :
    (recoding code).Relates Eq (printLine text)
      (printLine text) := by
  rintro m _ rfl
  exact ⟨rfl, rfl⟩

theorem recoded_makeEnv (parent : Option EnvId) :
    (recoding code).Relates Eq (makeEnv parent)
      (makeEnv parent) := by
  rintro m _ rfl
  refine ⟨(Store.next_recode code m.store).symm, ?_⟩
  simp only [recoding, Machine.recode, Store.make_recode]

theorem recoded_current :
    (recoding code).Relates Eq current current := by
  rintro m _ rfl
  exact ⟨rfl, rfl⟩

theorem recoded_define
    (env : EnvId)
    (name : String)
    (value : Value) :
    (recoding code).Relates Eq (define env name value)
      (define env name (value.recode code)) := by
  rintro m _ rfl
  refine ⟨rfl, ?_⟩
  simp only [recoding, Machine.recode, Store.define_recode]

theorem recoded_readName (name : Token) (hops : Option Nat) :
    GivesRecoded code (readName name hops) (readName name hops) := by
  rintro m _ rfl
  cases hops with
  | none =>
      exact
        recoded_lift (Store.get_recode code m.store _ name) m _ rfl
  | some hops =>
      exact
        recoded_lift (Store.getAt_recode code m.store _ hops name)
          m _ rfl

theorem recoded_writeName
    (name : Token)
    (hops : Option Nat)
    (value : Value) :
    (recoding code).Relates Eq (writeName name hops value)
      (writeName name hops (value.recode code)) := by
  rintro m _ rfl
  have hTarget :
      (m.recode code).target name hops = m.target name hops := by
    cases hops with
    | none => exact Store.owner_recode code m.store _ name
    | some hops => exact Store.ancestor_recode code m.store _ hops
  unfold writeName
  rw [hTarget]
  cases m.target name hops with
  | error e => exact ⟨rfl, rfl⟩
  | ok env => exact recoded_define env name.lexeme value m _ rfl

theorem recoded_freshIdent :
    (recoding code).Relates Eq freshIdent freshIdent := by
  rintro m _ rfl
  exact ⟨rfl, rfl⟩

theorem recoded_makeFunction
    (name : Token)
    (params : List Token)
    (body : List Stmt)
    (env : EnvId) :
    GivesRecoded code (makeFunction name params body env)
      (makeFunction name params (code body) env) := by
  apply recoded_freshIdent.bind
  rintro ident _ rfl
  exact relates_pure rfl

theorem recoded_makeNative (native : Native) :
    GivesRecoded code (makeNative native) (makeNative native) := by
  apply recoded_freshIdent.bind
  rintro ident _ rfl
  exact relates_pure rfl

theorem recoded_readClock :
    GivesRecoded code readClock readClock := by
  rintro m _ rfl
  unfold readClock
  simp only [Machine.recode]
  cases milliseconds m.clock.now with
  | ok x => exact ⟨rfl, rfl⟩
  | error e => exact ⟨rfl, rfl⟩

theorem recoded_inScope
    {A : α → α → Prop}
    {step step' : Run α}
    (hStep : (recoding code).Relates A step step')
    (env : EnvId) :
    (recoding code).Relates A (inScope env step)
      (inScope env step') := by
  rintro m _ rfl
  have hEnds := hStep { m with current := env } _ rfl
  unfold inScope
  unfold Coupling.Ends at hEnds
  split at hEnds
  · rename_i hLeft hRight
    rcases hEnds with ⟨hResult, rfl⟩
    rw [hLeft]
    simp only [Machine.recode] at hRight ⊢
    rw [hRight]
    exact ⟨hResult, rfl⟩
  · rename_i hLeft hRight
    rcases hEnds with ⟨hError, rfl⟩
    rw [hLeft]
    simp only [Machine.recode] at hRight ⊢
    rw [hRight]
    exact ⟨hError, rfl⟩
  · exact hEnds.elim

theorem recoded_guardStack
    {A : α → α → Prop}
    {step step' : Run α}
    (hStep : (recoding code).Relates A step step')
    (paren : Token) :
    (recoding code).Relates A (guardStack paren step)
      (guardStack paren step') := by
  intro m m' hStates
  have hEnds := hStep m m' hStates
  unfold guardStack
  cases hLeft : step m with
  | ok a u =>
      rw [hLeft] at hEnds
      rcases hEnds.exists_ok with ⟨a', u', hRight, hReached⟩
      rw [hRight]
      exact hReached
  | error e u =>
      rw [hLeft] at hEnds
      rcases hEnds.exists_error with ⟨e', u', hRight, hError, hLast⟩
      have hSame : e' = e := hError
      subst hSame
      rw [hRight]
      cases e' <;> exact ⟨rfl, hLast⟩

end Lox.Run
