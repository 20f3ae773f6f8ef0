import Lox.Session
import Lox.Text.Blank
import Lox.Text.Index

/-
  The commands of the console, which begin with a slash.

  Key definitions include:
    * `Command`
    * `Command.all`
    * `Command.read?`
    * `completions`
    * `completionsAt`
    * `Session.obey`
-/

------------------------------------------------------------
-- Commands
------------------------------------------------------------

namespace Lox.Console

/- The commands by name. -/
inductive Command where
  | ast
  | clear
  | traceback
  | reset
deriving DecidableEq, Repr, Inhabited

namespace Command

def all : List Command :=
  [ast, clear, traceback, reset]

def name : Command → String
  | ast => "/ast"
  | clear => "/clear"
  | traceback => "/py-traceback"
  | reset => "/reset"

/- What a command is for, and a hint at its argument. -/
def help : Command → String
  | ast => "Show the syntax tree of a snippet <code>"
  | clear => "Clear the terminal screen"
  | traceback => "Toggle Python traceback on errors [on|off]"
  | reset => "Reset the REPL environment"

def ofName? (text : String) : Option Command :=
  all.find? fun command => command.name = text

end Command

/-
  What a line asks for that begins with a slash: its first
  word, and the rest as the argument.
-/
structure Request where
  name : String
  argument : String
deriving DecidableEq, Repr

/- The request of a line, if it begins with a slash. -/
def Request.read? (line : String) : Option Request :=
  let text := Text.trim line.toList
  if text.head? = some '/' then
    let (name, argument) := Text.firstWord text
    some ⟨String.ofList name, String.ofList argument⟩
  else none

end Lox.Console

------------------------------------------------------------
-- Completion
------------------------------------------------------------

namespace Lox.Console

/- A command that completes a text, and its help. -/
structure Completion where
  name : String
  help : String
  typed : Nat
deriving DecidableEq, Repr

/- The commands that begin with a text, which has a slash. -/
def completions (text : String) : List Completion :=
  if text.toList.head? = some '/' then
    Command.all.filterMap fun command =>
      if text.toList.isPrefixOf command.name.toList then
        some ⟨command.name, command.help, text.length⟩
      else none
  else []

/- A cursor that stands after the end of its text. -/
structure CursorFault where
  cursor : Int
  length : Nat
deriving DecidableEq, Repr

def CursorFault.message (e : CursorFault) : String :=
  s!"cursor_position={e.cursor}, len_text={e.length}"

/-
  The commands that begin with the text before a cursor, whose
  place may be counted from the end.
-/
def completionsAt
    (text : String)
    (cursor : Int) :
    Except CursorFault (List Completion) :=
  if text.length < cursor then .error ⟨cursor, text.length⟩
  else
    .ok (completions
      (String.ofList (Text.itemsBefore text.toList cursor)))

end Lox.Console

------------------------------------------------------------
-- Obeying Commands
------------------------------------------------------------

namespace Lox.Console

/- The switch that an argument asks for. -/
inductive Switch where
  | on
  | off
  | toggle
deriving DecidableEq, Repr

def Switch.read? (argument : String) : Option Switch :=
  let word := String.ofList (Text.lower argument.toList)
  if ["on", "1", "true", "yes"].contains word then some .on
  else if ["off", "0", "false", "no"].contains word then
    some .off
  else if word = "" then some .toggle
  else none

/- What a switch makes of a flag. -/
def Switch.apply : Switch → Bool → Bool
  | on, _ => true
  | off, _ => false
  | toggle, flag => !flag

end Lox.Console

namespace Lox.Session

open Lox.Console

/- Writes a line to standard output. -/
def sayLine (s : Session) (text : String) : Session :=
  s.say (text ++ "\n")

/- Writes a line to the error output. -/
def noteLine (s : Session) (text : String) : Session :=
  s.note (text ++ "\n")

/- Shows the tree of a snippet. -/
def showSnippet (s : Session) (source : String) : Session :=
  match s.parse source with
  | (s, none) => s
  | (s, some program) => s.sayLine (prettyProgram program)

/- Switches the announcement of tracebacks. -/
def switchTracing (s : Session) (argument : String) : Session :=
  match Switch.read? argument with
  | none => s.noteLine "Usage: /py-traceback [on|off]"
  | some switch =>
      let tracing := switch.apply s.tracing
      let state := if tracing then "on" else "off"
      { s with tracing }.sayLine s!"Python traceback: {state}"

/- Does what a request asks for. -/
def obey (s : Session) (request : Request) : Session :=
  match Command.ofName? request.name with
  | some .clear => s.record .cleared
  | some .ast =>
      if request.argument.isEmpty then
        s.noteLine "Usage: /ast <code>"
      else s.showSnippet request.argument
  | some .traceback => s.switchTracing request.argument
  | some .reset => s.reset.sayLine "Environment reset."
  | none => s.noteLine s!"Unknown command: {request.name}"

/- Obeys a line if it is a command, and tells whether it is. -/
def obeyLine (s : Session) (line : String) : Session × Bool :=
  match Request.read? line with
  | none => (s, false)
  | some request => (s.obey request, true)

end Lox.Session
