import Lox.Console.Command
import Lox.Console.Prompt

/-
  The dialogue with the user: a prompt, a text, its effect,
  and the next prompt.

  A text is freed of invisible characters. If nothing is left
  of it, it has no effect; if it begins with a slash it is a
  command; otherwise it is run, and an error in it does not
  end the dialogue.

  Key definitions include:
    * `Entry`
    * `Entry.answer`
    * `Session.turn`
    * `Sighting`
    * `Dialogue`
    * `Dialogue.run`
-/

------------------------------------------------------------
-- One Turn
------------------------------------------------------------

namespace Lox.Session

open Lox.Console

/-
  What the session makes of a text from the prompt. A failure
  that is no error of the program is handed on.
-/
def turn
    (s : Session)
    (text : String) :
    Session × Except Interrupt Unit :=
  let text := normalize text
  if Text.isAllBlank text.toList then (s, .ok ())
  else
    match s.obeyLine text with
    | (s, true) => (s, .ok ())
    | (s, false) =>
        match s.run text with
        | (s, .ok _) => (s.clearFlags, .ok ())
        | (s, .error interrupt) => (s, .error interrupt)

end Lox.Session

------------------------------------------------------------
-- Entries
------------------------------------------------------------

namespace Lox.Console

/-
  What the user does at a prompt: give a line, press keys, end
  the input, or interrupt.
-/
inductive Entry where
  | line (text : String)
  | keys (pressed : List Key)
  | eof
  | interrupt
deriving Repr

/- What a prompt gives back. -/
inductive Answer where
  | text (text : String)
  | eof
  | interrupt
deriving DecidableEq, Repr

/- What can be seen of the terminal besides its output. -/
inductive Sighting where
  | session (continuation : String) (multiline : Bool)
  | prompt (message text : String)
  | completion (text : String)
  | cleared
deriving DecidableEq, Repr

/- The message of the prompt. -/
def promptMessage : String := "> "

/-
  The answer that an entry gives to the prompt, and what can
  be seen meanwhile. Keys that do not hand a text in end the
  input.
-/
def Entry.answer : Entry → Answer × List Sighting
  | .line text => (.text text, [.prompt promptMessage text])
  | .keys pressed =>
      let typing := Typing.pressAll pressed
      let answer :=
        if typing.accepted then .text typing.text else .eof
      (answer,
        typing.completed.map .completion ++
          [.prompt promptMessage typing.text])
  | .eof => (.eof, [])
  | .interrupt => (.interrupt, [])

end Lox.Console

------------------------------------------------------------
-- The Dialogue
------------------------------------------------------------

namespace Lox.Console

/- A session and what has been seen of the terminal. -/
structure Dialogue where
  session : Session
  sightings : Array Sighting := #[]
deriving Repr

namespace Dialogue

def see (d : Dialogue) (seen : List Sighting) : Dialogue :=
  { d with sightings := d.sightings ++ seen.toArray }

/- Takes over a session, with the clearings of the screen. -/
def resume
    (d : Dialogue)
    (s : Session) :
    Dialogue :=
  let clearings :=
    Transcript.clearings
      (s.transcript.drop d.session.events.size)
  { session := s
    sightings :=
      d.sightings ++
        (List.replicate clearings Sighting.cleared).toArray }

end Dialogue

/- The line that a dialogue begins with. -/
def banner : String :=
  "lox repl - Ctrl-D to exit, / for commands"

/- The start of a dialogue. -/
def openDialogue (s : Session) : Dialogue :=
  { session := s.sayLine banner
    sightings := #[.session "... " true] }

/-
  One prompt of a dialogue. The result tells whether another
  one follows, unless an interrupt ends it.
-/
def Dialogue.step
    (d : Dialogue)
    (entry : Entry) :
    Dialogue × Except Interrupt Bool :=
  let (answer, seen) := entry.answer
  let d := d.see seen
  match answer with
  | .eof => (d.resume (d.session.say "\n"), .ok false)
  | .interrupt =>
      (d.resume (d.session.sayLine "KeyboardInterrupt"), .ok true)
  | .text text =>
      match d.session.turn text with
      | (s, .ok ()) => (d.resume s, .ok true)
      | (s, .error interrupt) => (d.resume s, .error interrupt)

/- The prompts of a dialogue; the input ends after the last. -/
def Dialogue.run
    (d : Dialogue) :
    List Entry → Dialogue × Except Interrupt Unit
  | [] => ((d.step .eof).1, .ok ())
  | entry :: entries =>
      match d.step entry with
      | (d, .ok true) => d.run entries
      | (d, .ok false) => (d, .ok ())
      | (d, .error interrupt) => (d, .error interrupt)

end Lox.Console
