import Lox.Console.CommandLine

/-
  The program that a command line starts.

  It finds out what its arguments ask for, reads what that
  needs, and shows what comes of it. The clock of a run stands
  at the time at which the program was started.

  Key definitions include:
    * `readWorld`
    * `readScript`
    * `Event.present`
    * `converse`
    * `main`
-/

------------------------------------------------------------
-- Reading
------------------------------------------------------------

namespace Lox.Console

/- The environment variables that hold settings. -/
def settingNames : List String :=
  ["LOX_RECURSION_LIMIT", "LOX_DEBUG_PY_TRACE", "LOX_DUMP_AST"]

def readVariables : IO Variables := do
  let values ← settingNames.mapM fun name => do
    return (name, ← IO.getEnv name)
  return fun name => (values.lookup name).join

/- The time now in seconds: that of a file made now. -/
def readTime : IO Float :=
  IO.FS.withTempFile fun _ path => do
    let time := (← path.metadata).modified
    return Float.ofInt time.sec +
      time.nsec.toNat.toFloat / 1000000000

/- All bytes that are left of a stream. -/
partial def readAll
    (stream : IO.FS.Stream)
    (read : ByteArray) :
    IO ByteArray := do
  let bytes ← stream.read 65536
  if bytes.isEmpty then return read
  else readAll stream (read ++ bytes)

/- What the program finds around it, except for files. -/
def readWorld : IO World := do
  return { environment := ← readVariables, clock := ⟨[← readTime]⟩ }

/- What a failure of the system to read a file means. -/
def faultOf : IO.Error → ReadFault
  | .noFileOrDirectory _ _ _ => .missing
  | .inappropriateType _ 21 _ => .isDirectory
  | .inappropriateType _ _ _ => .notDirectory
  | .invalidArgument _ _ _ => .nameTooLong
  | .permissionDenied _ _ _ => .other "Permission denied"
  | error => .other (toString error)

/- The bytes of a script; a dash stands for the input. -/
def readScript
    (path : String) :
    IO (Except ReadFault (List UInt8)) := do
  try
    if path = "-" then
      let bytes ← readAll (← IO.getStdin) .empty
      return .ok bytes.toList
    else
      let place := plainPath path
      let bytes ←
        IO.FS.readBinFile (if place = "" then "." else place)
      return .ok bytes.toList
  catch error => return .error (faultOf error)

end Lox.Console

------------------------------------------------------------
-- Showing
------------------------------------------------------------

namespace Lox

/- What clears the screen of a terminal. -/
def clearScreen : String :=
  "\x1b[2J\x1b[H"

def Event.present : Event → IO Unit
  | .printed line => IO.println line
  | .reported diagnostic => IO.eprintln diagnostic.render
  | .said text => IO.print text
  | .noted text => IO.eprint text
  | .cleared => IO.print clearScreen

/- Shows all that can be seen, and gives the exit code. -/
def Console.Outcome.present (o : Outcome) : IO UInt32 := do
  o.transcript.forM Event.present
  if let some breakdown := o.breakdown then
    IO.eprintln breakdown.message
  return o.code.toUInt32

end Lox

------------------------------------------------------------
-- Dialogues
------------------------------------------------------------

namespace Lox.Console

/-
  What the user enters at a prompt: lines, as long as a
  parenthesis or a block is open in them.
-/
partial def readEntry
    (input : IO.FS.Stream)
    (pressed : List Key) :
    IO Entry := do
  IO.print (if pressed.isEmpty then promptMessage else "... ")
  (← IO.getStdout).flush
  let line ← input.getLine
  if line.isEmpty then return .eof
  else
    let text := String.ofList (line.toList.filter (· ≠ '\n'))
    let pressed := pressed ++ [.text text, .enter]
    if (Typing.pressAll pressed).accepted then
      return .keys pressed
    else readEntry input pressed

/- Holds a dialogue that has shown what it had to show. -/
partial def converse
    (d : Dialogue)
    (input : IO.FS.Stream) :
    IO UInt32 := do
  let entry ← readEntry input []
  let (after, next) := d.step entry
  after.session.transcript.forM Event.present
  match next with
  | .ok true =>
      converse
        ⟨{ after.session with events := #[] }, #[]⟩ input
  | .ok false => return 0
  | .error interrupt =>
      IO.eprintln interrupt.message
      return 1

/- Holds a dialogue on the standard input. -/
def startDialogue (w : World) (dumpsTree : Bool) : IO UInt32 := do
  match w.session dumpsTree with
  | .error fault =>
      Outcome.present (.broken (.settings fault) [])
  | .ok s =>
      let d := openDialogue s
      d.session.transcript.forM Event.present
      converse ⟨{ d.session with events := #[] }, #[]⟩
        (← IO.getStdin)

end Lox.Console

------------------------------------------------------------
-- The Program
------------------------------------------------------------

open Lox.Console in
def main (arguments : List String) : IO UInt32 := do
  let w ← readWorld
  match Invocation.ofArguments arguments with
  | .script path dumpsTree =>
      (runBytes w dumpsTree path (← readScript path)).present
  | .dialogue dumpsTree => startDialogue w dumpsTree
  | _ => (runCommandLine w arguments).present
