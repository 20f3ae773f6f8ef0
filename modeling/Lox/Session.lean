import Lox.Diagnostic
import Lox.Token.Scanner
import Lox.Grammar.Statement
import Lox.Program.Outline
import Lox.Scope.Resolver
import Lox.Machine.Evaluation
import Lox.Settings

/-
  Sessions: sources run one after another on one machine.

  A source is read, resolved and run, in this order; an error
  in one of the first two steps keeps it from running and
  leaves the machine as it was. All that can be seen of a
  session is kept, in order, in its transcript.

  Key definitions include:
    * `Event`
    * `Transcript`
    * `Session`
    * `Session.start`
    * `Session.start?`
    * `Session.parse`
    * `Status`
    * `Session.interpret`
    * `Session.run`
    * `Session.reset`
-/

------------------------------------------------------------
-- Transcripts
------------------------------------------------------------

namespace Lox

/-
  What can be seen of a session: a line that a program prints,
  a report, texts that the console writes to its standard and
  its error output, and the clearing of the screen.
-/
inductive Event where
  | printed (line : String)
  | reported (diagnostic : Diagnostic)
  | said (text : String)
  | noted (text : String)
  | cleared
deriving DecidableEq, Repr

abbrev Transcript :=
  List Event

namespace Transcript

/- The lines that programs printed. -/
def printedLines (t : Transcript) : List String :=
  t.filterMap fun
    | .printed line => some line
    | _ => none

/- The reports, in order. -/
def reports (t : Transcript) : List Diagnostic :=
  t.filterMap fun
    | .reported diagnostic => some diagnostic
    | _ => none

/- The text of the reports, one on a line. -/
def reportText (t : Transcript) : String :=
  String.join (t.reports.map fun d => d.render ++ "\n")

/- What the console itself wrote to standard output. -/
def saidText (t : Transcript) : String :=
  String.join (t.filterMap fun
    | .said text => some text
    | _ => none)

/- What the console itself wrote to the error output. -/
def notedText (t : Transcript) : String :=
  String.join (t.filterMap fun
    | .noted text => some text
    | _ => none)

/- How often the screen was cleared. -/
def clearings (t : Transcript) : Nat :=
  t.countP (· = .cleared)

/- All of standard output. -/
def standardOutput (t : Transcript) : String :=
  String.join (t.filterMap fun
    | .printed line => some (line ++ "\n")
    | .said text => some text
    | _ => none)

/- All of the error output. -/
def errorOutput (t : Transcript) : String :=
  String.join (t.filterMap fun
    | .reported d => some (d.render ++ "\n")
    | .noted text => some text
    | _ => none)

end Transcript

end Lox

------------------------------------------------------------
-- Sessions
------------------------------------------------------------

namespace Lox

/-
  The native functions that every machine of the session has,
  its machine, the reports so far, the number of uses of local
  variables resolved on this machine, its last run-time error,
  the settings, and the events so far.
-/
structure Session where
  limits : Limits := .standard
  natives : List Native := [clockNative]
  machine : Machine
  reporter : Reporter := {}
  localUses : Nat := 0
  lastError : Option RuntimeError := none
  dumpsTree : Bool := false
  tracing : Bool := false
  events : Array Event := #[]
deriving Repr, Inhabited

namespace Session

/-
  A session with a new machine, whose native functions are the
  clock and the given ones.
-/
def start
    (settings : Settings)
    (clock : Clock)
    (natives : List Native) :
    Session :=
  let natives := clockNative :: natives
  { limits := .ofDepth settings.recursionLimit
    natives
    machine := .start natives clock
    dumpsTree := settings.dumpsTree
    tracing := settings.tracing }

/- A session, unless there is a fault in its settings. -/
def start?
    (settings : Settings)
    (clock : Clock)
    (natives : List Native) :
    Except SettingsFault Session :=
  match settings.fault? with
  | some fault => .error fault
  | none => .ok (.start settings clock natives)

/- What can be seen of the session so far. -/
def transcript (s : Session) : Transcript :=
  s.events.toList

def record (s : Session) (event : Event) : Session :=
  { s with events := s.events.push event }

/- Writes a text to standard output. -/
def say (s : Session) (text : String) : Session :=
  s.record (.said text)

/- Writes a text to the error output. -/
def note (s : Session) (text : String) : Session :=
  s.record (.noted text)

/- Reports an error. -/
def report (s : Session) (d : Diagnostic) : Session :=
  { s with
    reporter := s.reporter.report d
    events := s.events.push (.reported d) }

/- Clears the flags that tell of errors. -/
def clearFlags (s : Session) : Session :=
  { s with reporter := s.reporter.clearFlags }

def reportAll (s : Session) (ds : List Diagnostic) : Session :=
  ds.foldl report s

end Session

end Lox

------------------------------------------------------------
-- Reading Sources
------------------------------------------------------------

namespace Lox

/- The reports of the lexical errors of a source. -/
def Lexed.diagnostics (lexed : Lexed) : List Diagnostic :=
  lexed.errors.map fun e => .lexical e.line e.message

/- The reports of the structural errors of a source. -/
def Parsed.diagnostics (parsed : Parsed) : List Diagnostic :=
  parsed.errors.map fun e => .structural e.token e.message

/- The report of a scope error. -/
def ScopeError.diagnostic (e : ScopeError) : Diagnostic :=
  .structural e.token e.message

/- The report of a run-time error. -/
def RuntimeError.diagnostic (e : RuntimeError) : Diagnostic :=
  .running e.blamed e.message

namespace Session

/-
  The program of a source, unless an error was reported. The
  flags tell of this source alone.
-/
def parse
    (s : Session)
    (source : String) :
    Session × Option (List Stmt) :=
  let lexed := tokenize source
  let parsed := Lox.parse s.limits lexed.tokens
  let s :=
    (s.clearFlags.reportAll lexed.diagnostics).reportAll
      parsed.diagnostics
  if s.reporter.hadError then (s, none)
  else (s, some parsed.program)

end Session

end Lox

------------------------------------------------------------
-- Running Sources
------------------------------------------------------------

namespace Lox

/- How the run of a source ended. -/
inductive Status where
  | ok
  | staticError
  | runtimeError
deriving DecidableEq, Repr, Inhabited

/- The name of a status in a dump. -/
def Status.name : Status → String
  | ok => "ok"
  | staticError => "static_error"
  | runtimeError => "runtime_error"

namespace Session

/- Takes over a machine, with the lines it has printed. -/
def settle (s : Session) (m : Machine) : Session :=
  { s with
    machine := { m with output := #[] }
    events := s.events ++ m.output.map Event.printed }

/- Shows a program as a tree, if that is asked for. -/
def showTree (s : Session) (program : List Stmt) : Session :=
  if s.dumpsTree then s.note (prettyProgram program ++ "\n")
  else s

/- Announces the traceback of an error, if asked for. -/
def showTrace (s : Session) : Session :=
  if s.tracing then s.note "\nPython traceback:\n"
  else s

/-
  Takes over how a run has ended. An interrupt that is no
  error of the program is handed on.
-/
def finish
    (s : Session) :
    EStateM.Result Interrupt Machine Unit →
      Session × Except Interrupt Status
  | .ok () m => (s.settle m, .ok .ok)
  | .error (.failed e) m =>
      let s := { s.settle m with lastError := some e }
      ((s.report e.diagnostic).showTrace, .ok .runtimeError)
  | .error interrupt m => (s.settle m, .error interrupt)

/- Takes note of a program before it runs. -/
def load
    (s : Session)
    (program : List Stmt)
    (recorded : Nat) :
    Session :=
  let s := s.showTree program
  { s with localUses := s.localUses + recorded }

/- Runs a resolved program on the machine. -/
def execute
    (s : Session)
    (program : List Stmt) :
    Session × Except Interrupt Status :=
  s.finish (runProgram s.limits program s.machine)

/- Resolves and runs a program. -/
def interpret
    (s : Session)
    (program : List Stmt) :
    Session × Except Interrupt Status :=
  match resolveProgram program with
  | .error e => (s.report e.diagnostic, .ok .staticError)
  | .ok resolved =>
      (s.load program resolved.recorded).execute resolved.program

/- Reads, resolves and runs a source. -/
def run
    (s : Session)
    (source : String) :
    Session × Except Interrupt Status :=
  match s.parse source with
  | (s, none) => (s, .ok .staticError)
  | (s, some program) => s.interpret program

/-
  Starts over with a new machine, which has the same native
  functions and goes on with the same clock.
-/
def reset (s : Session) : Session :=
  { s with
    machine := .start s.natives s.machine.clock
    reporter := s.reporter.clearFlags
    localUses := 0
    lastError := none }

end Session

end Lox
