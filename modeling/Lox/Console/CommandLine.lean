import Lox.Console.Directory
import Lox.Console.Repl
import Lox.Text.Utf8

/-
  The command line: its arguments, the file or dialogue they
  ask for, and the exit code.

  Key definitions include:
    * `Invocation`
    * `Invocation.ofArguments`
    * `World`
    * `Breakdown`
    * `Outcome`
    * `runBytes`
    * `runScript`
    * `runCommandLine`
-/

------------------------------------------------------------
-- Arguments
------------------------------------------------------------

namespace Lox.Console

/- How the program is used. -/
def usage : String :=
  "Usage: lox-ref [--dump-ast] [script]"

/- What the arguments of the program ask for. -/
inductive Invocation where
  | help
  | unknownOption (option : String)
  | tooManyScripts
  | script (path : String) (dumpsTree : Bool)
  | dialogue (dumpsTree : Bool)
deriving DecidableEq, Repr

namespace Invocation

/-
  What further arguments ask for, after some that have asked
  for trees and named a script. The first argument that stops
  the program counts.
-/
def ofArgumentsFrom :
    (dumpsTree : Bool) → (named : Option String) →
    List String → Invocation
  | dumpsTree, none, [] => .dialogue dumpsTree
  | dumpsTree, some path, [] => .script path dumpsTree
  | dumpsTree, named, argument :: rest =>
      if argument = "--dump-ast" then
        ofArgumentsFrom true named rest
      else if argument = "-h" || argument = "--help" then .help
      else if "--".toList.isPrefixOf argument.toList then
        .unknownOption argument
      else
        match named with
        | none => ofArgumentsFrom dumpsTree (some argument) rest
        | some _ => .tooManyScripts

/- What the arguments of the program ask for. -/
def ofArguments (arguments : List String) : Invocation :=
  ofArgumentsFrom false none arguments

end Invocation

end Lox.Console

------------------------------------------------------------
-- Exit Codes
------------------------------------------------------------

namespace Lox

namespace Console

/- The exit code of a wrong use of the program. -/
def exitUsage : Nat := 64

/- The exit code of a source that cannot be run. -/
def exitData : Nat := 65

/- The exit code of a source that fails when it runs. -/
def exitSoftware : Nat := 70

end Console

/- The exit code after the run of a script. -/
def Status.exitCode : Status → Nat
  | ok => 0
  | staticError => Console.exitData
  | runtimeError => Console.exitSoftware

end Lox

------------------------------------------------------------
-- Running
------------------------------------------------------------

namespace Lox.Console

/-
  What the program finds around it: the files, the standard
  input, the environment variables, the clock, and what the
  user does at the prompts of a dialogue.
-/
structure World where
  directory : Directory := []
  input : List UInt8 := []
  environment : Variables := fun _ => none
  clock : Clock
  entries : List Entry := []

/-
  Why the program breaks down instead of doing what it was
  asked for: a path that no file can have, settings with which
  nothing can be run, or an interrupt that is no error of the
  source.
-/
inductive Breakdown where
  | nulInPath
  | settings (fault : SettingsFault)
  | interrupted (interrupt : Interrupt)
deriving Repr

/- The wording of a breakdown. -/
def Breakdown.message : Breakdown → String
  | nulInPath => "embedded null byte"
  | settings fault => fault.message
  | interrupted interrupt => interrupt.message

/-
  The exit code, all that can be seen, and why the program
  broke down, if it did.
-/
structure Outcome where
  code : Nat := 0
  transcript : Transcript := []
  sightings : List Sighting := []
  breakdown : Option Breakdown := none
deriving Repr

/- The outcome of a breakdown. -/
def Outcome.broken
    (breakdown : Breakdown)
    (transcript : Transcript) :
    Outcome :=
  { code := 1, transcript, breakdown := some breakdown }

/- The outcome of a wrong use of the program. -/
def Outcome.misused (text : String) : Outcome :=
  { code := exitUsage, transcript := [.noted text] }

namespace World

/- The bytes of a script; a dash stands for the input. -/
def load
    (w : World)
    (path : String) :
    Except ReadFault (List UInt8) :=
  if path = "-" then .ok w.input else w.directory.read path

/-
  A session that shows trees if an option or variable says so,
  unless there is a fault in the settings.
-/
def session
    (w : World)
    (dumpsTree : Bool) :
    Except SettingsFault Session :=
  let settings := Settings.read w.environment
  let settings :=
    { settings with
      dumpsTree := dumpsTree || settings.dumpsTree }
  Session.start? settings w.clock []

end World

/- Runs the source of a script. -/
def runText
    (w : World)
    (dumpsTree : Bool)
    (source : String) :
    Outcome :=
  match w.session dumpsTree with
  | .error fault => .broken (.settings fault) []
  | .ok s =>
      match s.run source with
      | (s, .ok status) =>
          { code := status.exitCode, transcript := s.transcript }
      | (s, .error interrupt) =>
          .broken (.interrupted interrupt) s.transcript

/- Runs the script of a given path, of which bytes were read. -/
def runBytes
    (w : World)
    (dumpsTree : Bool)
    (path : String)
    (read : Except ReadFault (List UInt8)) :
    Outcome :=
  match read with
  | .error fault =>
      .misused s!"Could not read {path}: {fault.message}\n"
  | .ok bytes =>
      match Text.decodeUtf8 bytes with
      | .error offset =>
          let place := s!"not valid UTF-8 (byte {offset})"
          { code := exitData
            transcript :=
              [.noted s!"Could not decode {path}: {place}\n"] }
      | .ok text =>
          runText w dumpsTree
            (String.ofList (Text.unifyNewlines text))

/- Runs the script of a given path. -/
def runScript
    (w : World)
    (dumpsTree : Bool)
    (path : String) :
    Outcome :=
  if path.toList.contains '\x00' then .broken .nulInPath []
  else runBytes w dumpsTree path (w.load path)

/- Holds a dialogue. -/
def runDialogue (w : World) (dumpsTree : Bool) : Outcome :=
  match w.session dumpsTree with
  | .error fault => .broken (.settings fault) []
  | .ok s =>
      match (openDialogue s).run w.entries with
      | (d, .ok ()) =>
          { transcript := d.session.transcript
            sightings := d.sightings.toList }
      | (d, .error interrupt) =>
          .broken (.interrupted interrupt) d.session.transcript

/- Does what the arguments of the program ask for. -/
def runCommandLine
    (w : World)
    (arguments : List String) :
    Outcome :=
  match Invocation.ofArguments arguments with
  | .help => { transcript := [.said (usage ++ "\n")] }
  | .unknownOption option =>
      .misused s!"Unknown option: {option}\n{usage}\n"
  | .tooManyScripts => .misused (usage ++ "\n")
  | .script path dumpsTree => runScript w dumpsTree path
  | .dialogue dumpsTree => runDialogue w dumpsTree

end Lox.Console
