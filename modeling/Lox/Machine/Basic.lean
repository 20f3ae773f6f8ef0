import Lox.Store

/-
  The state of a running program, and the steps that change
  it.

  A run can be interrupted: by an error of the program, by a
  failure of a function that is not written in the language,
  or because it uses more nested calls or more rounds of a
  loop than it was given.

  Key definitions include:
    * `Clock`
    * `milliseconds`
    * `Machine`
    * `Machine.start`
    * `Interrupt`
    * `Run`
    * `Run.inScope`
    * `Run.guardStack`
-/

------------------------------------------------------------
-- The Clock
------------------------------------------------------------

namespace Lox

/-
  A clock that is read off a list of times in seconds; the
  last of them repeats.
-/
structure Clock where
  readings : List Float
deriving Repr, Inhabited

namespace Clock

/- The time now, in seconds. -/
def now (clock : Clock) : Float :=
  clock.readings.head?.getD 0

/- The clock after it has been read. -/
def next (clock : Clock) : Clock :=
  match clock.readings with
  | _ :: second :: rest => ⟨second :: rest⟩
  | _ => clock

end Clock

end Lox

------------------------------------------------------------
-- Calls Of Native Functions
------------------------------------------------------------

namespace Lox

/- The token that a native function calls its argument at. -/
def nativeCallToken : Token :=
  { kind := .rightParen, lexeme := ")", line := 77 }

/-
  A time in whole milliseconds, rounded toward zero; a zero
  is never negative.
-/
def milliseconds
    (seconds : Float) :
    Except NativeFailure Float :=
  let x := seconds * 1000
  if x.isNaN then .error .undefinedTime
  else if x.isInf then .error .infiniteTime
  else .ok ((if x < 0 then x.ceil else x.floor) + 0)

end Lox

------------------------------------------------------------
-- The Machine
------------------------------------------------------------

namespace Lox

/-
  The environments, those of the globals and of the place that
  the run has reached, the clock, the lines printed so far,
  and the number of functions made, native ones included.
-/
structure Machine where
  store : Store
  globals : EnvId
  current : EnvId
  clock : Clock
  output : Array String := #[]
  functions : Nat := 0
deriving Repr, Inhabited

namespace Machine

/- Binds the native functions, numbering them from `ident`. -/
def bindNatives
    (env : EnvId) :
    (ident : Nat) → List Native → Store → Store
  | _, [], store => store
  | ident, native :: natives, store =>
      bindNatives env (ident + 1) natives
        (store.define env native.name (.native ⟨native, ident⟩))

/-
  A machine whose only environment is that of the globals,
  which binds the native functions.
-/
def start (natives : List Native) (clock : Clock) : Machine :=
  let store : Store := {}
  let globals := store.next
  let store := store.make none
  { store := bindNatives globals 0 natives store
    globals, current := globals
    clock, functions := natives.length }

/- Whether the run is at the top level of a program. -/
def atGlobals (m : Machine) : Bool :=
  m.current = m.globals

/-
  The environment in which a name is changed: the globals,
  where it has to be bound already, or the environment at a
  given distance.
-/
def target
    (m : Machine)
    (name : Token)
    (hops : Option Nat) :
    Except RuntimeError EnvId :=
  match hops with
  | none => m.store.owner m.globals name
  | some hops => m.store.ancestor m.current hops

end Machine

end Lox

------------------------------------------------------------
-- Runs
------------------------------------------------------------

namespace Lox

/- Why a run ended before its end. -/
inductive Interrupt where
  | failed (error : RuntimeError)
  | nativeFailed (failure : NativeFailure)
  | outOfFrames
  | outOfRounds
deriving Repr

/- The wording of an interrupt. -/
def Interrupt.message : Interrupt → String
  | failed error => error.describe
  | nativeFailed failure => failure.message
  | outOfFrames | outOfRounds =>
      "maximum recursion depth exceeded"

/- A step of a run. -/
abbrev Run (α : Type) :=
  EStateM Interrupt Machine α

namespace Run

/- A step that may fail with an error of the program. -/
def lift {α : Type} (result : Except RuntimeError α) : Run α :=
  fun m =>
    match result with
    | .ok a => .ok a m
    | .error e => .error (.failed e) m

/- Stops with an error of the program. -/
def fail {α : Type} (fault : RuntimeFault) (token : Token) : Run α :=
  fun m => .error (.failed ⟨fault, token⟩) m

/- Stops for lack of nesting. -/
def outOfFrames {α : Type} : Run α :=
  fun m => .error .outOfFrames m

/- Prints a line. -/
def printLine (text : String) : Run Unit :=
  fun m => .ok () { m with output := m.output.push text }

/- Makes an environment within a given one, or in none. -/
def makeEnv (parent : Option EnvId) : Run EnvId :=
  fun m =>
    let env := m.store.next
    .ok env { m with store := m.store.make parent }

/- The environment of the place that the run has reached. -/
def current : Run EnvId :=
  fun m => .ok m.current m

/- Binds a name in a given environment. -/
def define (env : EnvId) (name : String) (value : Value) :
    Run Unit :=
  fun m =>
    .ok () { m with store := m.store.define env name value }

/-
  The value of a name: in the globals, or in the environment
  at a given distance.
-/
def readName (name : Token) (hops : Option Nat) : Run Value :=
  fun m =>
    let result :=
      match hops with
      | none => m.store.get m.globals name
      | some hops => m.store.getAt m.current hops name
    lift result m

/- Changes the value of a name. -/
def writeName
    (name : Token)
    (hops : Option Nat)
    (value : Value) :
    Run Unit :=
  fun m =>
    match m.target name hops with
    | .ok env => define env name.lexeme value m
    | .error e => .error (.failed e) m

/- The identity of a function that is made now. -/
def freshIdent : Run Nat :=
  fun m =>
    let ident := m.functions
    .ok ident { m with functions := ident + 1 }

/- Makes a function that is declared in an environment. -/
def makeFunction
    (name : Token)
    (params : List Token)
    (body : List Stmt)
    (env : EnvId) :
    Run Value := do
  let ident ← freshIdent
  return .function { ident, name, params, body, env }

/- Makes a native function. -/
def makeNative (native : Native) : Run Value := do
  let ident ← freshIdent
  return .native ⟨native, ident⟩

/- Stops for a failure of a native function. -/
def failNative {α : Type} (failure : NativeFailure) : Run α :=
  fun m => .error (.nativeFailed failure) m

/- Reads the clock. -/
def readClock : Run Value :=
  fun m =>
    let time := milliseconds m.clock.now
    let m := { m with clock := m.clock.next }
    match time with
    | .ok x => .ok (.number x) m
    | .error e => .error (.nativeFailed e) m

/-
  A step in another environment, which is left again however
  the step ends.
-/
def inScope {α : Type} (env : EnvId) (step : Run α) : Run α :=
  fun m =>
    let outer := m.current
    match step { m with current := env } with
    | .ok a m => .ok a { m with current := outer }
    | .error e m => .error e { m with current := outer }

/-
  A step that is the inside of a call: lack of nesting becomes
  an error of the program at the parenthesis of the call.
-/
def guardStack {α : Type} (paren : Token) (step : Run α) : Run α :=
  fun m =>
    match step m with
    | .error .outOfFrames m =>
        .error (.failed ⟨.stackOverflow, paren⟩) m
    | result => result

end Run

end Lox
