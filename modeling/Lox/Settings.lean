import Lox.Text.Numeral

/-
  The settings that are read from environment variables.

  A flag is set by `1`, `true`, `yes` or `on`, in any letter
  case and with white space around it. A recursion limit that
  is no integer is ignored, and one below 1000 is raised to
  that. Nothing can be run with one of more than 31 bits.

  Key definitions include:
    * `Variables`
    * `Settings`
    * `Settings.read`
    * `Settings.fault?`
-/

------------------------------------------------------------
-- Variables
------------------------------------------------------------

namespace Lox

/- The values of environment variables by name. -/
abbrev Variables :=
  String → Option String

/- The texts that set a flag. -/
def setTexts : List (List Char) :=
  [['1'], ['t', 'r', 'u', 'e'], ['y', 'e', 's'], ['o', 'n']]

/- Whether the value of a variable sets a flag. -/
def setsFlag (text : String) : Bool :=
  setTexts.contains (Text.lower (Text.trim text.toList))

/- The recursion limit that a variable asks for. -/
def recursionLimitOf (text : Option String) : Int :=
  match text with
  | none => 20000
  | some text =>
      match Text.readInteger? text with
      | none => 20000
      | some limit => max 1000 limit

end Lox

------------------------------------------------------------
-- Settings
------------------------------------------------------------

namespace Lox

/-
  The recursion limit, whether tracebacks follow the reports
  of run-time errors, and whether programs are shown as trees
  before they run.
-/
structure Settings where
  recursionLimit : Int := 20000
  tracing : Bool := false
  dumpsTree : Bool := false
deriving DecidableEq, Repr, Inhabited

/- The settings that the variables make. -/
def Settings.read (environment : Variables) : Settings :=
  { recursionLimit :=
      recursionLimitOf (environment "LOX_RECURSION_LIMIT")
    tracing := (environment "LOX_DEBUG_PY_TRACE").any setsFlag
    dumpsTree := (environment "LOX_DUMP_AST").any setsFlag }

end Lox

------------------------------------------------------------
-- Faults
------------------------------------------------------------

namespace Lox

/- What can be wrong with settings. -/
inductive SettingsFault where
  | limitTooLarge
deriving DecidableEq, Repr

/- The wording of a fault of settings. -/
def SettingsFault.message : SettingsFault → String
  | limitTooLarge =>
      "Python int too large to convert to C int"

/- The largest recursion limit that can be set. -/
def maxRecursionLimit : Int := 2147483647

/- Why nothing can be run with some settings, if so. -/
def Settings.fault? (settings : Settings) : Option SettingsFault :=
  if maxRecursionLimit < settings.recursionLimit then
    some .limitTooLarge
  else none

end Lox
