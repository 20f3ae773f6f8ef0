import Lox.Token.Basic

/-
  Reports of errors, and the reporter that collects them.

  A reporter keeps every report in order, and two flags that
  tell whether an error before the run or during the run has
  been reported since they were last cleared.

  Key definitions include:
    * `Stage`
    * `Token.place`
    * `Diagnostic`
    * `Diagnostic.render`
    * `Reporter`
    * `Reporter.messages`
-/

------------------------------------------------------------
-- Diagnostics
------------------------------------------------------------

namespace Lox

/-
  The stage that an error comes from: reading tokens, the
  structure and scopes of the program, or running it.
-/
inductive Stage where
  | lexical
  | structural
  | running
deriving DecidableEq, Repr, Inhabited

namespace Stage

def all : List Stage :=
  [lexical, structural, running]

/- The name of a stage in a listing of reports. -/
def name : Stage → String
  | lexical => "lex"
  | structural => "syntax"
  | running => "runtime"

def ofName? (text : String) : Option Stage :=
  all.find? fun stage => stage.name = text

end Stage

/- How a report names the token it blames. -/
def Token.place (token : Token) : String :=
  if token.kind = .eof then " at end"
  else s!" at '{token.lexeme}'"

/- A report of an error. -/
structure Diagnostic where
  stage : Stage
  line : Int
  message : String
  place : String := ""
deriving DecidableEq, Repr, Inhabited

/- The text of a report. -/
def Diagnostic.render (d : Diagnostic) : String :=
  match d.stage with
  | .running => s!"{d.message}\n[line {d.line}]"
  | _ => s!"[line {d.line}] Error{d.place}: {d.message}"

end Lox

------------------------------------------------------------
-- The Reporter
------------------------------------------------------------

namespace Lox

structure Reporter where
  hadError : Bool := false
  hadRuntimeError : Bool := false
  diagnostics : Array Diagnostic := #[]
deriving Repr, Inhabited

namespace Reporter

/- Records a report and raises the flag of its stage. -/
def report
    (r : Reporter)
    (d : Diagnostic) :
    Reporter :=
  let r := { r with diagnostics := r.diagnostics.push d }
  match d.stage with
  | .running => { r with hadRuntimeError := true }
  | _ => { r with hadError := true }

/- Clears the flags; the reports are kept. -/
def clearFlags (r : Reporter) : Reporter :=
  { r with hadError := false, hadRuntimeError := false }

/- The messages of all reports, or of those of one stage. -/
def messages
    (r : Reporter)
    (stage : Option String) :
    List String :=
  r.diagnostics.toList.filterMap fun d =>
    if stage.all (· = d.stage.name) then some d.message
    else none

end Reporter

end Lox

------------------------------------------------------------
-- Reports by Stage
------------------------------------------------------------

namespace Lox.Diagnostic

/- The report of a lexical error. -/
def lexical (line : Int) (message : String) : Diagnostic :=
  { stage := .lexical, line, message }

/- The report of an error in the structure of a program. -/
def structural (token : Token) (message : String) : Diagnostic :=
  { stage := .structural, line := token.line, message,
    place := token.place }

/- The report of an error in the run of a program. -/
def running (token : Token) (message : String) : Diagnostic :=
  { stage := .running, line := token.line, message }

end Lox.Diagnostic
