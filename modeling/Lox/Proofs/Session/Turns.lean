import Lox.Console.Repl
import Lox.Proofs.Session.Resemblance
import Lox.Proofs.Token.Visible

/-
  Turns of the console.

  A turn takes the invisible characters out of a text, and takes
  a text that begins with a slash for a command. Where this does
  no harm to the words of a text, the turn does what the session
  does that runs the text as it is; at most the columns of words
  are counted without what has been taken out.

  Key definitions include:
    * `Mirror.columns`
    * `Session.Mirrors`
    * `Console.IsUnharmed`
    * `Session.handOn`
    * `turn_follows_run`
-/

------------------------------------------------------------
-- Sessions But For Columns
------------------------------------------------------------

namespace Lox

/- Tokens are the same words on the same lines. -/
def Mirror.columns : Mirror :=
  { rel := Token.SameLine
    sameWord := fun hSame => hSame.toSameWord }

theorem Mirror.isReflexive_columns : columns.IsReflexive :=
  Token.SameLine.refl

/- Reports tell of lines and words only. -/
theorem RuntimeError.Mirrors.diagnostic_eq
    {e e' : RuntimeError}
    (hMirrors : e.Mirrors .columns e') :
    e'.diagnostic = e.diagnostic := by
  have hLine : e'.blamed.line = e.blamed.line := by
    unfold blamed
    have hTokens := hMirrors.token
    generalize e.token = token at hTokens ⊢
    generalize e'.token = token' at hTokens ⊢
    cases hTokens with
    | none => rfl
    | some hToken => exact hToken.line
  unfold diagnostic message Diagnostic.running
  rw [hMirrors.fault, hLine]

/- So the reports of errors that mirror each other are the same. -/
def Reporting.columns : Reporting .columns :=
  { rel := Eq
    stage := by
      intro d d' hReports
      rw [hReports]
    structural := by
      intro t t' message hTokens
      have hToken : t.SameLine t' := hTokens
      unfold Diagnostic.structural Token.place
      rw [hToken.line, hToken.kind, hToken.lexeme]
    running := fun hError => hError.diagnostic_eq.symm }

theorem Event.Alike.eq
    {event event' : Event}
    (hAlike : event.Alike .columns event') :
    event = event' := by
  cases hAlike with
  | same => rfl
  | reported hReports =>
      have hSame : _ = _ := hReports
      rw [hSame]

/-
  Sessions that are the same, with machines and last errors that
  mirror each other.
-/
structure Session.Mirrors (M : Mirror) (s s' : Session) :
    Prop where
  machine : s.machine.Mirrors M [] s'.machine
  lastError :
    Option.Rel (RuntimeError.Mirrors M) s.lastError s'.lastError
  others :
    s' = { s with machine := s'.machine, lastError := s'.lastError }

namespace Session.Mirrors

variable {M : Mirror} {s s' : Session}

theorem transcript_eq (hMirrors : s.Mirrors M s') :
    s'.transcript = s.transcript := by
  rw [hMirrors.others]
  rfl

theorem clearFlags (hMirrors : s.Mirrors M s') :
    s.clearFlags.Mirrors M s'.clearFlags := by
  refine ⟨hMirrors.machine, hMirrors.lastError, ?_⟩
  rw [hMirrors.others]
  rfl

end Session.Mirrors

/- Nothing is left in which these sessions could differ. -/
theorem Session.Resembles.mirrors
    {s s' : Session}
    (hSessions : s.Resembles .columns s') :
    s.Mirrors .columns s' := by
  have hReporter : s'.reporter = s.reporter := by
    rcases s.reporter, s'.reporter, hSessions.reporter with
      ⟨⟨_, _, reports⟩, ⟨_, _, reports'⟩, hError, hRuntime, hAll⟩
    have hReports :
        List.Forall₂ Eq reports.toList reports'.toList := hAll
    rw [List.forall₂_eq_eq_eq] at hReports
    cases hError
    cases hRuntime
    rw [Array.toList_inj.mp hReports]
  have hEvents : s'.events = s.events := by
    have hShown := hSessions.transcript.imp fun _ _ => Event.Alike.eq
    rw [List.forall₂_eq_eq_eq] at hShown
    exact (Array.toList_inj.mp hShown).symm
  refine ⟨hSessions.machine, hSessions.lastError, ?_⟩
  rw [hSessions.others, hReporter, hEvents]

theorem Session.resembles_self (s : Session) :
    s.Resembles .columns s := by
  have hSelf := Mirror.isReflexive_columns
  refine ⟨s.machine.mirrors_self hSelf, ?_, ?_, ?_, rfl⟩
  · cases s.lastError with
    | none => exact .none
    | some e => exact .some (e.mirrors_self hSelf)
  · exact ⟨rfl, rfl, List.forall₂_same.mpr fun d _ => rfl⟩
  · exact List.forall₂_same.mpr fun event _ => .same event

/-
  Programs that mirror each other are shown, resolved and run
  in the same way in one session.
-/
theorem Session.interpret_mirrors
    (s : Session)
    {program program' : List Stmt}
    (hProgram :
      List.Forall₂ (Stmt.Mirrors .columns) program program') :
    (s.interpret program).1.Mirrors .columns
        (s.interpret program').1 ∧
      (s.interpret program').2 = (s.interpret program).2 := by
  have hNative :
      Mirror.columns.rel nativeCallToken nativeCallToken :=
    Mirror.isReflexive_columns nativeCallToken
  rcases s.resembles_self.interpret hNative hProgram with
    ⟨hSessions, hStatus⟩
  exact ⟨hSessions.mirrors, hStatus⟩

end Lox

------------------------------------------------------------
-- Turns And Runs
------------------------------------------------------------

namespace Lox

open Console

/-
  What a turn makes of a run: it goes on from it with flags
  that tell of no error, whether there was one or not.
-/
def Session.handOn :
    Session × Except Interrupt Status →
      Session × Except Interrupt Unit
  | (s, .ok _) => (s.clearFlags, .ok ())
  | (s, .error interrupt) => (s, .error interrupt)

/-
  A text that is not taken for a command, with no invisible
  character in its words, where no word runs together with what
  comes after it when such characters are taken out.
-/
structure Console.IsUnharmed (text : String) : Prop where
  written : Text.isAllBlank text.toList = false
  noCommand : (Text.trim text.toList).head? ≠ some '/'
  shown :
    ∀ t ∈ wordsOf text,
      ∀ c ∈ t.lexeme.toList, isInvisible c = false
  apart : ∀ t ∈ wordsOf text, t.StandsClear text.toList

namespace Session

variable {s : Session} {text : String}

/- A text that is no command is run as it is seen. -/
theorem turn_of_noCommand
    (s : Session)
    (hWritten :
      Text.isAllBlank (Console.normalize text).toList = false)
    (hNoCommand :
      (Text.trim (Console.normalize text).toList).head? ≠
        some '/') :
    s.turn text = handOn (s.run (Console.normalize text)) := by
  have hNone : Request.read? (Console.normalize text) = none := by
    unfold Request.read?
    dsimp only
    rw [if_neg hNoCommand]
  unfold turn obeyLine
  dsimp only
  rw [hWritten, hNone]
  rfl

/- An unharmed text is read as the same program as it is seen. -/
theorem reads_visible
    (hRead : s.readReports text = [])
    (hUnharmed : IsUnharmed text) :
    s.readReports (Console.normalize text) = [] ∧
      List.Forall₂ (Stmt.Mirrors .columns) (s.programOf text)
        (s.programOf (Console.normalize text)) := by
  rcases readReports_eq_nil_iff.mp hRead with ⟨hErrors, hParsed⟩
  rcases
    tokenize_visible hErrors hUnharmed.shown hUnharmed.apart with
    ⟨hErrors', hTokens⟩
  have hPrograms : Parsed.Mirrors .columns _ _ :=
    parse_mirrors s.limits hTokens (exists_eof text)
  have hSame := hPrograms.errors
  rw [hParsed] at hSame
  have hParsed' := List.forall₂_nil_left_iff.mp hSame
  exact
    ⟨readReports_eq_nil_iff.mpr ⟨hErrors', hParsed'⟩,
      hPrograms.program⟩

/- A blank text is accepted as the program of no statement. -/
theorem read_of_isAllBlank
    (limits : Limits)
    (hErrors : (tokenize text).errors = [])
    (hBlank : Text.isAllBlank text.toList = true) :
    (Lox.parse limits (tokenize text).tokens).program = [] := by
  have hScans := scans_wordsOf text
  rw [hErrors] at hScans
  have hNone : wordsOf text = [] :=
    hScans.eq_nil_of_isBlank (List.all_eq_true.mp hBlank)
  rw [tokens_eq text, hNone]
  rfl

theorem mirrors_handOn
    {ran ran' : Session × Except Interrupt Status}
    (hMirrors : ran.1.Mirrors .columns ran'.1)
    (hStatus : ran'.2 = ran.2) :
    (handOn ran).1.Mirrors .columns (handOn ran').1 ∧
      (handOn ran').2 = (handOn ran).2 := by
  rcases ran with ⟨after, status | interrupt⟩ <;>
    rcases ran' with ⟨after', _⟩ <;>
    cases hStatus
  · exact ⟨hMirrors, rfl⟩
  · exact ⟨hMirrors.clearFlags, rfl⟩

end Session

/-
  A turn with a text that is accepted. Where the text is blank
  the turn does nothing, and a run would do no more than show
  the tree of the program without statements, if asked for.
  Where the text is unharmed the turn shows what a run of it
  would, ends in the same way, and leaves the same session, in
  which the columns of words may be others; and where no word
  is moved by what has been taken out, it leaves just the same.
-/
theorem turn_follows_run
    {s s' : Session}
    {text : String}
    {program : List Stmt}
    (hParse : s.parse text = (s', some program)) :
    (Text.isAllBlank text.toList = true →
      s.turn text = (s, .ok ()) ∧
        s.run text =
          ((s.clearFlags.load [] 0).settle s.machine, .ok .ok)) ∧
    (Console.IsUnharmed text →
      let turned := s.turn text
      let ran := Session.handOn (s.run text)
      turned.1.transcript = ran.1.transcript ∧
        turned.2 = ran.2 ∧
        ran.1.Mirrors .columns turned.1 ∧
        ((tokenize (Console.normalize text)).tokens =
            (tokenize text).tokens →
          turned = ran)) := by
  rcases Session.parse_eq_some_iff.mp hParse with
    ⟨hErrors, hParsed, _, _⟩
  have hRead : s.readReports text = [] :=
    Session.readReports_eq_nil_iff.mpr ⟨hErrors, hParsed⟩
  constructor
  · intro hBlank
    constructor
    · unfold Session.turn
      dsimp only
      rw [(trim_normalize hErrors).2, if_pos hBlank]
    · rw [Session.run_of_read hRead,
        Session.read_of_isAllBlank s.limits hErrors hBlank]
      have hNone : resolveProgram [] = .ok ⟨[], 0⟩ := rfl
      rw [Session.interpret_of_resolve hNone]
      rfl
  · intro hUnharmed turned ran
    rcases Session.reads_visible hRead hUnharmed with
      ⟨hRead', hPrograms⟩
    have hTurned :
        turned = Session.handOn (s.run (Console.normalize text)) := by
      rcases trim_normalize hErrors with ⟨hHead, hBlank⟩
      apply s.turn_of_noCommand
      · rw [hBlank]
        exact hUnharmed.written
      · rw [hHead]
        exact hUnharmed.noCommand
    have hRuns := s.clearFlags.interpret_mirrors hPrograms
    unfold Session.programOf at hRuns
    rw [← Session.run_of_read hRead,
      ← Session.run_of_read hRead'] at hRuns
    rcases Session.mirrors_handOn hRuns.1 hRuns.2 with
      ⟨hMirrors, hStatus⟩
    rw [← hTurned] at hMirrors hStatus
    refine ⟨hMirrors.transcript_eq, hStatus, hMirrors, ?_⟩
    intro hSame
    rw [hTurned, Session.run_of_read hRead', hSame,
      ← Session.run_of_read hRead]

/- The words of the text `print true;` at its begin. -/
def printingTokens : List Token :=
  [ ⟨.printKw, "print", .nil, 1, 1⟩,
    ⟨.trueKw, "true", .nil, 1, 7⟩,
    ⟨.semicolon, ";", .nil, 1, 11⟩ ]

/- A carriage return behind these words does no harm to them. -/
theorem isUnharmed_printing :
    Console.IsUnharmed "print true;\r\n" := by
  have hWords : wordsOf "print true;\r\n" = printingTokens := by
    cbv
  refine ⟨by decide +kernel, by decide +kernel, ?_, ?_⟩
  · have hSeen :
        printingTokens.all fun t =>
          t.lexeme.toList.all fun c => !isInvisible c := by
      decide
    rw [hWords]
    intro t hMem c hChar
    have hAll := List.all_eq_true.mp hSeen t hMem
    simpa using List.all_eq_true.mp hAll c hChar
  · rw [hWords]
    intro t hMem
    simp only [printingTokens, List.mem_cons, List.not_mem_nil,
      or_false] at hMem
    rcases hMem with rfl | rfl | rfl
    · apply @Token.standsClear_of_recognize _ _ 0 'p' "rint".toList
      · exact ⟨by decide, by decide, by decide⟩
      all_goals decide +kernel
    · apply @Token.standsClear_of_recognize _ _ 6 't' "rue".toList
      · exact ⟨by decide, by decide, by decide⟩
      all_goals decide +kernel
    · apply @Token.standsClear_of_recognize _ _ 10 ';' []
      · exact ⟨by decide, by decide, by decide⟩
      all_goals decide +kernel

/- A line that ends in a carriage return is run as it is. -/
theorem turn_follows_run_printing :
    let start := Session.start {} ⟨[]⟩ []
    let text := "print true;\r\n"
    (∃ program,
      start.parse text = (start.clearFlags, some program)) ∧
    Console.IsUnharmed text ∧
    (tokenize (Console.normalize text)).tokens =
      (tokenize text).tokens ∧
    start.turn text = Session.handOn (start.run text) := by
  intro start text
  have hRead : start.readReports text = [] := by decide +kernel
  have hParse :
      start.parse text =
        (start.clearFlags, some (start.programOf text)) := by
    rw [start.parse_eq text, hRead, if_pos rfl]
    rfl
  have hNormal :
      Console.normalize "print true;\r\n" = "print true;\n" := by
    decide +kernel
  have hTokens :
      (tokenize (Console.normalize "print true;\r\n")).tokens =
        (tokenize "print true;\r\n").tokens := by
    rw [hNormal]
    cbv
  rcases (turn_follows_run hParse).2 isUnharmed_printing with
    ⟨_, _, _, hSame⟩
  exact
    ⟨⟨_, hParse⟩, isUnharmed_printing, hTokens, hSame hTokens⟩

/- An invisible character in a string is not printed. -/
theorem turn_loses_invisible :
    let start := Session.start {} ⟨[]⟩ []
    let text := "print \"a\u200bb\";"
    (∃ program,
      start.parse text = (start.clearFlags, some program)) ∧
    (start.run text).1.transcript.printedLines = ["a\u200bb"] ∧
    (start.turn text).1.transcript.printedLines = ["ab"] := by
  intro start text
  have hRead : start.readReports text = [] := by decide +kernel
  refine ⟨⟨start.programOf text, ?_⟩, ?_, ?_⟩
  · rw [start.parse_eq text, hRead, if_pos rfl]
    rfl
  · decide +kernel
  · decide +kernel

end Lox
