import Lox.Proofs.Grammar.Prolonging
import Lox.Proofs.Session.Layout
import Lox.Proofs.Token.Joining

/-
  Sources that are run one after another, or as one.

  Two sources with a line break between them are tokenized,
  read and resolved to what they are alone, the second one
  further down. So to run them as one source is to run the
  second on the machine that the first has left.

  An error of the second run can blame a token of either
  source, and two tokens of them can be equal. To tell where a
  token is from, the sources are run with their tokens marked:
  each of them says which token of which source it is, and no
  longer on what line it stands. A run looks at the words of
  its tokens only, so nothing else changes.

  Key definitions include:
    * `Token.marked`
    * `Session.runMarked`
    * `Token.Carried`
    * `Session.JoinsTo`
    * `run_joined`
-/

------------------------------------------------------------
-- Marked Tokens
------------------------------------------------------------

namespace Lox

/-
  The token, marked with the number of its source and its own
  number in it, in place of its line and its column.
-/
def Token.marked (source index : Nat) (t : Token) : Token :=
  { t with line := source, column := index }

/- The tokens of a source with a number, marked. -/
def markedTokens (number : Nat) (source : String) : List Token :=
  (tokenize source).tokens.mapIdx (Token.marked number)

/-
  The token with a mark, where two sources are run one after
  another, and where they are run as one. A token of the first
  source is where it was. One of the second source is further
  down by a line for the line break and one for each of those
  in the first source. The token that native functions blame
  is in no source.
-/
inductive Token.Carried (first second : String) :
    Token → Token → Token → Prop where
  | first
      {index : Nat} {t : Token}
      (hToken : (tokenize first).tokens[index]? = some t) :
      Carried first second (t.marked 1 index) t t
  | second
      {index : Nat} {t : Token}
      (hToken : (tokenize second).tokens[index]? = some t) :
      Carried first second (t.marked 2 index) t
        (t.below (1 + first.toList.count '\n'))
  | native :
      Carried first second nativeCallToken nativeCallToken
        nativeCallToken

variable {first second : String}

/- The mark alone tells which token it is. -/
theorem Token.Carried.unique
    {mark t t' u u' : Token}
    (hCarried : Carried first second mark t t')
    (hOther : Carried first second mark u u') :
    t = u ∧ t' = u' := by
  generalize hMark : mark = other at hOther
  have hLine := congrArg Token.line hMark
  have hColumn := congrArg Token.column hMark
  cases hCarried with
  | first hToken =>
      cases hOther with
      | first hToken' =>
          have hIndex := Int.ofNat.inj hColumn
          rw [hIndex, hToken'] at hToken
          exact ⟨(Option.some.inj hToken).symm,
            (Option.some.inj hToken).symm⟩
      | second => cases hLine
      | native => cases hLine
  | second hToken =>
      cases hOther with
      | first => cases hLine
      | second hToken' =>
          have hIndex := Int.ofNat.inj hColumn
          rw [hIndex, hToken'] at hToken
          have hSame := (Option.some.inj hToken).symm
          exact ⟨hSame, congrArg _ hSame⟩
      | native => cases hLine
  | native =>
      cases hOther with
      | first => cases hLine
      | second => cases hLine
      | native => exact ⟨rfl, rfl⟩

/- From marked tokens to those of the sources run in turn. -/
def Mirror.unmarking (first second : String) : Mirror :=
  { rel := fun mark t => ∃ t', Token.Carried first second mark t t'
    sameWord := by
      rintro mark t ⟨t', hCarried⟩
      cases hCarried <;> exact ⟨rfl, rfl, rfl⟩ }

/- From marked tokens to those of the sources run as one. -/
def Mirror.joining (first second : String) : Mirror :=
  { rel := fun mark t' => ∃ t, Token.Carried first second mark t t'
    sameWord := by
      rintro mark t' ⟨t, hCarried⟩
      cases hCarried <;> exact ⟨rfl, rfl, rfl⟩ }

/- Marked tokens, related one by one to those of a text. -/
theorem forall₂_marked
    {R : Token → Token → Prop}
    {number : Nat}
    {source : String}
    {move : Token → Token}
    (hMarks :
      ∀ {index t},
        (tokenize source).tokens[index]? = some t →
          R (t.marked number index) (move t)) :
    List.Forall₂ R (markedTokens number source)
      ((tokenize source).tokens.map move) := by
  unfold markedTokens
  refine List.forall₂_iff_get.mpr ⟨by simp, ?_⟩
  intro index hIndex hIndex'
  simp only [List.get_eq_getElem, List.getElem_mapIdx,
    List.getElem_map]
  exact hMarks (List.getElem?_eq_getElem _)

/- Marked tokens, related to those of the text where they are. -/
theorem forall₂_marked_here
    {R : Token → Token → Prop}
    {number : Nat}
    {source : String}
    (hMarks :
      ∀ {index t},
        (tokenize source).tokens[index]? = some t →
          R (t.marked number index) t) :
    List.Forall₂ R (markedTokens number source)
      (tokenize source).tokens := by
  simpa using @forall₂_marked R number source id hMarks

theorem exists_marked_eof (number : Nat) (source : String) :
    ∃ t ∈ markedTokens number source, t.kind = .eof := by
  rcases exists_eof source with ⟨t, hMem, hKind⟩
  rcases List.getElem_of_mem hMem with ⟨index, hIndex, hToken⟩
  refine ⟨t.marked number index, ?_, hKind⟩
  refine List.mem_mapIdx.mpr ⟨index, hIndex, ?_⟩
  rw [hToken]

variable (first second)

theorem unmarked_first :
    List.Forall₂ (Mirror.unmarking first second).rel
      (markedTokens 1 first) (tokenize first).tokens :=
  forall₂_marked_here fun hToken => ⟨_, .first hToken⟩

theorem unmarked_second :
    List.Forall₂ (Mirror.unmarking first second).rel
      (markedTokens 2 second) (tokenize second).tokens :=
  forall₂_marked_here fun hToken => ⟨_, .second hToken⟩

theorem joined_first :
    List.Forall₂ (Mirror.joining first second).rel
      (markedTokens 1 first) (tokenize first).tokens :=
  forall₂_marked_here fun hToken => ⟨_, .first hToken⟩

theorem joined_second :
    List.Forall₂ (Mirror.joining first second).rel
      (markedTokens 2 second)
      ((tokenize second).tokens.map
        (Token.below (Text.lineAfter first.toList))) :=
  forall₂_marked fun hToken => ⟨_, .second hToken⟩

end Lox

------------------------------------------------------------
-- Reading And Resolving Joined Sources
------------------------------------------------------------

namespace Lox.Session

/- The program of the marked tokens of a source. -/
def markedProgram
    (s : Session)
    (number : Nat)
    (source : String) :
    List Stmt :=
  (Lox.parse s.limits (markedTokens number source)).program

/- Reads, resolves and runs a source by its marked tokens. -/
def runMarked
    (s : Session)
    (number : Nat)
    (source : String) :
    Session × Except Interrupt Status :=
  s.clearFlags.interpret (s.markedProgram number source)

variable {s : Session} {first second source : String}
variable {number : Nat} {M : Mirror}

/- Marks change nothing in what is wrong with a source. -/
theorem errors_marked
    (hTokens :
      List.Forall₂ M.rel (markedTokens number source)
        (tokenize source).tokens)
    (hRead : s.readReports source = []) :
    (Lox.parse s.limits (markedTokens number source)).errors =
      [] := by
  have hMirrors :=
    parse_mirrors s.limits hTokens (exists_marked_eof _ _)
  have hErrors := hMirrors.errors
  rw [(readReports_eq_nil_iff.mp hRead).2] at hErrors
  exact List.forall₂_nil_right_iff.mp hErrors

theorem markedProgram_mirrors
    (hTokens :
      List.Forall₂ M.rel (markedTokens number source)
        (tokenize source).tokens) :
    List.Forall₂ (Stmt.Mirrors M)
      (s.markedProgram number source) (s.programOf source) :=
  (parse_mirrors s.limits hTokens
    (exists_marked_eof _ _)).program

/- What is accepted resolves with its tokens marked as well. -/
theorem Accepts.exists_marked
    (hAccepts : s.Accepts source)
    (hTokens :
      List.Forall₂ M.rel (markedTokens number source)
        (tokenize source).tokens) :
    ∃ resolved,
      resolveProgram (s.markedProgram number source) =
        .ok resolved := by
  rcases hAccepts.exists_resolved with ⟨found, hFound⟩
  have hMirrors :=
    resolveProgram_mirrors (s.markedProgram_mirrors hTokens)
  rw [hFound] at hMirrors
  cases hMarked : resolveProgram (s.markedProgram number source) with
  | error e =>
      rw [hMarked] at hMirrors
      exact hMirrors.elim
  | ok resolved => exact ⟨resolved, rfl⟩

/-
  Two sources that are read with no report are read as one
  with no report, as the first program and then the second one
  with its words further down.
-/
theorem programOf_joined
    (hFirst : s.readReports first = [])
    (hSecond : s.readReports second = []) :
    s.readReports (first ++ "\n" ++ second) = [] ∧
    ∃ moved,
      s.programOf (first ++ "\n" ++ second) =
        s.programOf first ++ moved ∧
      List.Forall₂ (Stmt.Mirrors (.joining first second))
        (s.markedProgram 2 second) moved := by
  let lines := Text.lineAfter first.toList
  rcases readReports_eq_nil_iff.mp hFirst with
    ⟨hLexed, hParsed⟩
  have hLexed' := (readReports_eq_nil_iff.mp hSecond).1
  have hClosed :
      ∀ e ∈ (tokenize first).errors, e.fault ≠ .unterminated := by
    intro e hMem
    rw [hLexed] at hMem
    cases hMem
  rcases tokenize_join first second hClosed with
    ⟨hTokens, hErrors⟩
  have hMirrors :=
    parse_mirrors s.limits (joined_second first second)
      (exists_marked_eof _ _)
  -- The end of the second source is moved with its tokens.
  let last' := Token.after second.toList .eof .nil []
  let words := (wordsOf second).map (Token.below lines)
  have hFirstTokens := tokens_eq first
  have hMoved :
      (tokenize second).tokens.map (Token.below lines) =
        words ++ [last'.below lines] := by
    rw [tokens_eq second, List.map_append, List.map_singleton]
  have hWords := (scans_wordsOf first).kind_ne_eof
  have hWords' : ∀ t ∈ words, t.kind ≠ .eof := by
    intro t hMem
    rcases List.mem_map.mp hMem with ⟨t', hMem', hSame⟩
    rw [← hSame]
    exact (scans_wordsOf second).kind_ne_eof t' hMem'
  rw [hMoved] at hMirrors
  have hParsedMoved :
      (Lox.parse s.limits (words ++ [last'.below lines])).errors =
        [] := by
    have hSame := hMirrors.errors
    rw [errors_marked (unmarked_second first second) hSecond]
      at hSame
    exact List.forall₂_nil_left_iff.mp hSame
  rw [hFirstTokens] at hParsed
  have hAll :=
    parse_append hWords hWords' rfl rfl hParsed hParsedMoved
  rw [hMoved, ← List.append_assoc] at hTokens
  refine ⟨?_, _, ?_, hMirrors.program⟩
  · apply readReports_eq_nil_iff.mpr
    rw [hErrors, hLexed, hLexed', hTokens, hAll]
    exact ⟨rfl, rfl⟩
  · unfold programOf
    rw [hTokens, hAll, hFirstTokens]

end Lox.Session

------------------------------------------------------------
-- Runs One After Another
------------------------------------------------------------

namespace Lox

/- What has been printed is not looked at. -/
theorem Machine.Mirrors.forget
    {M : Mirror}
    {m m' : Machine}
    (hMirrors : m.Mirrors M [] m') :
    Machine.Mirrors M m.output.toList { m with output := #[] } m' :=
  ⟨hMirrors.store, hMirrors.globals, hMirrors.current,
    hMirrors.clock, by simpa using hMirrors.output,
    hMirrors.functions⟩

/- A program is run after another one on what that has left. -/
theorem runProgram_append
    (limits : Limits)
    (first second : List Stmt) :
    runProgram limits (first ++ second) =
      (runProgram limits first >>= fun _ =>
        runProgram limits second) := by
  induction first with
  | nil => rfl
  | cons stmt first ih =>
      rw [List.cons_append, runProgram, runProgram, ih, bind_assoc]

/-
  The second of two programs runs on the machine that the first
  one has left as it does after it in one program, from the
  words of another place.
-/
theorem runProgram_joined
    {M : Mirror}
    (hNative : M.rel nativeCallToken nativeCallToken)
    (limits : Limits)
    {first first' second second' : List Stmt}
    (hFirst : List.Forall₂ (Stmt.Mirrors M) first first')
    (hSecond : List.Forall₂ (Stmt.Mirrors M) second second')
    {start m : Machine}
    (hStart : start.Mirrors M [] start)
    (hRun : runProgram limits first start = .ok () m) :
    (M.running m.output.toList).Ends Eq
      (runProgram limits second { m with output := #[] })
      (runProgram limits (first' ++ second') start) := by
  have hEnds :=
    mirrors_runProgram hNative limits hFirst _ _ hStart
  rw [hRun] at hEnds
  rcases hEnds.exists_ok with ⟨_, m', hRun', _, hMachine⟩
  have hLeft : m.Mirrors M [] m' := hMachine
  rw [runProgram_append, bind_of_ok hRun']
  exact
    mirrors_runProgram hNative limits hSecond _ _ hLeft.forget

end Lox

------------------------------------------------------------
-- Sessions That Run Both Sources
------------------------------------------------------------

namespace Lox

/- Three things that there are, and that belong together, or none. -/
inductive AllOrNone
    {α : Type}
    (R : α → α → α → Prop) :
    Option α → Option α → Option α → Prop where
  | none : AllOrNone R none none none
  | some
      {a b c : α}
      (hRel : R a b c) :
      AllOrNone R (some a) (some b) (some c)

theorem AllOrNone.of_rel
    {α : Type}
    {A B : α → α → Prop}
    {R : α → α → α → Prop}
    {x y z : Option α}
    (hFirst : Option.Rel A x y)
    (hSecond : Option.Rel B x z)
    (hBoth : ∀ {a b c}, A a b → B a c → R a b c) :
    AllOrNone R x y z := by
  cases hFirst with
  | none =>
      cases hSecond
      exact .none
  | some hA =>
      cases hSecond with
      | some hB => exact .some (hBoth hA hB)

/-
  An error of a marked run, and the errors that stand for it
  where the sources are run one after another and as one: with
  the same fault, at the tokens that the mark tells.
-/
structure RuntimeError.Carried
    (first second : String)
    (mark e e' : RuntimeError) :
    Prop where
  fault : e.fault = mark.fault
  fault' : e'.fault = mark.fault
  token :
    AllOrNone (Token.Carried first second) mark.token e.token
      e'.token

/- The two ways from a mark lead to the tokens it tells. -/
theorem RuntimeError.carried_of_mirrors
    {first second : String}
    {mark e e' : RuntimeError}
    (hUnmarked : mark.Mirrors (.unmarking first second) e)
    (hJoined : mark.Mirrors (.joining first second) e') :
    mark.Carried first second e e' := by
  rcases hUnmarked with ⟨hFault, hToken⟩
  rcases hJoined with ⟨hFault', hToken'⟩
  refine ⟨hFault, hFault', .of_rel hToken hToken' ?_⟩
  rintro m t t' ⟨u', hCarried⟩ ⟨u, hOther⟩
  exact (hCarried.unique hOther).2 ▸ hCarried

namespace Session

/- The names of the globals, with what they print as. -/
def globalTexts (s : Session) : List (String × String) :=
  (s.machine.store.bindings s.machine.globals).map
    fun entry => (entry.1, entry.2.text)

/-
  A session that has run two sources one after another, and
  one that has run them as one: with the same output, with
  globals that print the same, and with the same error if there
  is one, which is all that they report. A session that has run
  the sources one after another with marks tells which token of
  which source the error blames.
-/
structure JoinsTo
    (first second : String)
    (s s' marked : Session) :
    Prop where
  printed :
    s'.transcript.printedLines = s.transcript.printedLines
  globals : s'.globalTexts = s.globalTexts
  marks :
    marked.transcript.printedLines = s.transcript.printedLines
  errors :
    AllOrNone (RuntimeError.Carried first second)
      marked.lastError s.lastError s'.lastError
  reports :
    s.transcript.reports =
      (s.lastError.map RuntimeError.diagnostic).toList
  reports' :
    s'.transcript.reports =
      (s'.lastError.map RuntimeError.diagnostic).toList

/- Bindings that mirror each other print the same. -/
theorem map_text_eq
    {M : Mirror}
    {bindings bindings' : Bindings}
    (hMirrors : bindings.Mirrors M bindings') :
    bindings'.map (fun entry => (entry.1, entry.2.text)) =
      bindings.map (fun entry => (entry.1, entry.2.text)) := by
  induction hMirrors with
  | nil => rfl
  | cons hEntry _ ih =>
      rw [List.map_cons, List.map_cons, hEntry.1,
        hEntry.2.text_eq, ih]

theorem globalTexts_eq
    {M : Mirror}
    {earlier : List String}
    {s s' : Session}
    (hMachine : s.machine.Mirrors M earlier s'.machine) :
    s'.globalTexts = s.globalTexts := by
  unfold globalTexts
  rw [hMachine.globals]
  exact map_text_eq (hMachine.store.bindings _)

theorem limits_interpret (s : Session) (program : List Stmt) :
    (s.interpret program).1.limits = s.limits := by
  cases hResolve : resolveProgram program with
  | error e =>
      unfold interpret
      rw [hResolve]
      rfl
  | ok resolved =>
      rw [interpret_of_resolve hResolve, limits_finish]
      exact (s.load_machine _ _).2

/-
  A program is interpreted after one that has ended well: on
  the machine that this one has left, in a session that has its
  lines and no new report.
-/
theorem interpret_after
    {s : Session}
    {first second : List Stmt}
    {resolved others : Resolved}
    (hResolve : resolveProgram first = .ok resolved)
    (hOthers : resolveProgram second = .ok others)
    {m : Machine}
    (hEnd :
      runProgram s.limits resolved.program s.machine = .ok () m) :
    ∃ before : Session,
      (s.interpret first).1.clearFlags.interpret second =
          before.finish
            (runProgram s.limits others.program
              { m with output := #[] }) ∧
        before.transcript.printedLines =
          s.transcript.printedLines ++ m.output.toList ∧
        before.transcript.reports = s.transcript.reports ∧
        before.lastError = s.lastError := by
  let loaded := s.load first resolved.recorded
  let left := loaded.settle m
  let before := left.clearFlags.load second others.recorded
  have hLeft : (s.interpret first).1 = left := by
    rw [interpret_of_resolve hResolve, hEnd]
    rfl
  have hLimits : left.limits = s.limits :=
    (s.load_machine first resolved.recorded).2
  refine ⟨before, ?_, ?_, ?_, ?_⟩
  · rw [hLeft, interpret_of_resolve hOthers]
    show before.finish (runProgram left.limits _ _) = _
    rw [hLimits]
    rfl
  · have hSettled := loaded.printedLines_settle m
    rw [s.printedLines_load first resolved.recorded] at hSettled
    exact
      (left.clearFlags.printedLines_load second
        others.recorded).trans hSettled
  · have hSettled := (loaded.settle_frame m).2
    rw [(s.load_frame first resolved.recorded).2] at hSettled
    exact
      (left.clearFlags.load_frame second others.recorded).2.trans
        hSettled
  · have hLoaded :=
      left.clearFlags.lastError_load second others.recorded
    exact
      hLoaded.trans (s.lastError_load first resolved.recorded)

/- All that is reported by a session whose run ends is its error. -/
theorem reports_finish
    {s : Session}
    (hReports : s.transcript.reports = [])
    (hError : s.lastError = none)
    (result : EStateM.Result Interrupt Machine Unit) :
    (s.finish result).1.transcript.reports =
      ((s.finish result).1.lastError.map
        RuntimeError.diagnostic).toList := by
  rcases s.finish_adds result with ⟨_, _, hLast, hReported⟩
  rw [hError, Option.or_none] at hLast
  rw [hReports, List.nil_append, ← hLast] at hReported
  exact hReported

/- What is left of two sessions that end related runs. -/
theorem finish_mirrors
    {M : Mirror}
    {s s' : Session}
    {result result' : EStateM.Result Interrupt Machine Unit}
    (hEnds :
      (M.running s.transcript.printedLines).Ends Eq result result')
    (hPrinted : s'.transcript.printedLines = [])
    (hError : s.lastError = none)
    (hError' : s'.lastError = none) :
    (s'.finish result').1.transcript.printedLines =
        (s.finish result).1.transcript.printedLines ∧
      (s'.finish result').1.globalTexts =
        (s.finish result).1.globalTexts ∧
      Option.Rel (RuntimeError.Mirrors M)
        (s.finish result).1.lastError
        (s'.finish result').1.lastError ∧
      (s'.finish result').2 = (s.finish result).2 := by
  rcases ends_spec hEnds with ⟨hMachine, hErrors, hStatus⟩
  rcases s.finish_adds result with ⟨hLines, hLeft, hLast, _⟩
  rcases s'.finish_adds result' with ⟨hLines', hLeft', hLast', _⟩
  rw [hError, Option.or_none] at hLast
  rw [hError', Option.or_none] at hLast'
  refine ⟨?_, ?_, ?_, hStatus s s'⟩
  · rw [hLines, hLines', hPrinted, List.nil_append,
      hMachine.output]
  · unfold globalTexts
    rw [hLeft, hLeft']
    dsimp only
    rw [hMachine.globals]
    exact map_text_eq (hMachine.store.bindings _)
  · rw [hLast, hLast']
    exact hErrors

/- A source is run as its marked tokens are, but for the marks. -/
theorem Resembles.runMarked
    {M : Mirror}
    {R : Reporting M}
    {s s' : Session}
    {number : Nat}
    {source : String}
    (hSessions : s.Resembles R s')
    (hNative : M.rel nativeCallToken nativeCallToken)
    (hRead : s'.readReports source = [])
    (hTokens :
      List.Forall₂ M.rel (markedTokens number source)
        (tokenize source).tokens) :
    (s.runMarked number source).1.Resembles R (s'.run source).1 ∧
      (s'.run source).2 = (s.runMarked number source).2 := by
  have hLimits : s'.limits = s.limits := by rw [hSessions.others]
  have hProgram := s'.markedProgram_mirrors hTokens
  have hSame :
      s'.markedProgram number source =
        s.markedProgram number source := by
    unfold markedProgram
    rw [hLimits]
  rw [hSame] at hProgram
  rw [run_of_read hRead]
  exact hSessions.clearFlags.interpret hNative hProgram

/- What a source is after another one is what it is before it. -/
theorem run_after
    {s : Session}
    {first second : String}
    (hFirst : s.readReports first = [])
    (hSecond : s.readReports second = []) :
    (s.run first).1.readReports second = [] ∧
      (s.run first).1.run second =
        (s.clearFlags.interpret
          (s.programOf first)).1.clearFlags.interpret
            (s.programOf second) := by
  have hRun := run_of_read hFirst
  have hLimits : (s.run first).1.limits = s.limits := by
    rw [hRun]
    exact limits_interpret _ _
  have hRead : (s.run first).1.readReports second = [] := by
    unfold readReports
    rw [hLimits]
    exact hSecond
  refine ⟨hRead, ?_⟩
  rw [run_of_read hRead, hLimits, hRun]
  rfl

theorem runMarked_after
    (s : Session)
    (first second : String) :
    (s.runMarked 1 first).1.runMarked 2 second =
      (s.clearFlags.interpret
        (s.markedProgram 1 first)).1.clearFlags.interpret
          (s.markedProgram 2 second) := by
  have hLimits : (s.runMarked 1 first).1.limits = s.limits :=
    limits_interpret _ _
  unfold runMarked markedProgram at hLimits ⊢
  rw [hLimits]

/- Sources that are run in turn report their last error alone. -/
theorem reports_run_after
    {s : Session}
    {first second : String}
    (hReports : s.transcript.reports = [])
    (hError : s.lastError = none)
    (hFirst : s.Accepts first)
    (hSecond : s.Accepts second)
    (hOk : (s.run first).2 = .ok .ok) :
    ((s.run first).1.run second).1.transcript.reports =
      (((s.run first).1.run second).1.lastError.map
        RuntimeError.diagnostic).toList := by
  rcases hFirst.exists_resolved with ⟨resolved, hResolve⟩
  rcases hSecond.exists_resolved with ⟨others, hOthers⟩
  rw [run_of_resolve hFirst.read hResolve] at hOk
  rcases finish_ok hOk with ⟨m, hEnd⟩
  rcases
    @interpret_after s.clearFlags _ _ _ _ hResolve hOthers m hEnd
    with ⟨before, hLines, _, hBefore, hLast⟩
  rw [(run_after hFirst.read hSecond.read).2, hLines]
  exact reports_finish (hBefore.trans hReports) (hLast.trans hError) _

/-
  The marked run of two sources in turn, and the run of both of
  them as one: the second program runs in both on what the
  first one has left.
-/
theorem runMarked_mirrors_joined
    {s : Session}
    {first second : String}
    (hNew : s.machine.Mirrors (.joining first second) [] s.machine)
    (hPrinted : s.transcript.printedLines = [])
    (hReports : s.transcript.reports = [])
    (hError : s.lastError = none)
    (hFirst : s.Accepts first)
    (hSecond : s.Accepts second)
    (hOk : (s.runMarked 1 first).2 = .ok .ok) :
    let marked := (s.runMarked 1 first).1.runMarked 2 second
    let joined := s.run (first ++ "\n" ++ second)
    joined.1.transcript.printedLines =
        marked.1.transcript.printedLines ∧
      joined.1.globalTexts = marked.1.globalTexts ∧
      Option.Rel (RuntimeError.Mirrors (.joining first second))
        marked.1.lastError joined.1.lastError ∧
      joined.2 = marked.2 ∧
      joined.1.transcript.reports =
        (joined.1.lastError.map RuntimeError.diagnostic).toList :=
    by
  intro marked joined
  rcases hFirst.exists_marked (unmarked_first first second) with
    ⟨resolved, hResolve⟩
  rcases hSecond.exists_marked (unmarked_second first second) with
    ⟨others, hOthers⟩
  rcases programOf_joined hFirst.read hSecond.read with
    ⟨hRead, moved, hProgram, hMoved⟩
  rcases
    resolveProgram_append
      (s.markedProgram_mirrors (joined_first first second))
      hMoved hResolve hOthers with
    ⟨program, rest, hAll, hResolved, hRest⟩
  rw [← hProgram] at hAll
  -- The first source has left a machine and its lines.
  unfold runMarked at hOk
  rw [interpret_of_resolve hResolve] at hOk
  rcases finish_ok hOk with ⟨m, hEnd⟩
  rcases
    @interpret_after s.clearFlags _ _ _ _ hResolve hOthers m hEnd
    with ⟨before, hMarked, hLines, _, hLast⟩
  have hEnds :=
    runProgram_joined (M := .joining first second) ⟨_, .native⟩
      s.limits hResolved hRest hNew hEnd
  have hOutput : before.transcript.printedLines = m.output.toList := by
    rw [hLines]
    show s.transcript.printedLines ++ _ = _
    rw [hPrinted, List.nil_append]
  rw [← hOutput] at hEnds
  let loaded :=
    s.clearFlags.load (s.programOf (first ++ "\n" ++ second))
      (resolved.recorded + others.recorded)
  have hPrinted' : loaded.transcript.printedLines = [] :=
    (s.clearFlags.printedLines_load _ _).trans hPrinted
  have hReports' : loaded.transcript.reports = [] :=
    (s.clearFlags.load_frame _ _).2.trans hReports
  have hError' : loaded.lastError = none :=
    (s.clearFlags.lastError_load _ _).trans hError
  unfold marked joined
  rw [runMarked_after, hMarked, run_of_resolve hRead hAll]
  rcases
    finish_mirrors hEnds hPrinted' (hLast.trans hError) hError'
    with ⟨hLines', hGlobals, hErrors, hStatus⟩
  exact
    ⟨hLines', hGlobals, hErrors, hStatus,
      reports_finish hReports' hError' _⟩

end Session

/-
  Two sources are read and resolved with no report, and the
  first one runs well in a new session. To run the second one
  then is to run both as one source in a new session: with the
  same output, the same status, the same globals with the same
  values, and the same error if there is one. Run with marks,
  the two sources end in the same way, and the mark of the
  token that is blamed tells which one it is: one of the first
  source is on the same line in both sessions, one of the
  second source is moved down by the lines of the first.
-/
theorem run_joined
    (settings : Settings)
    (clock : Clock)
    (natives : List Native)
    {first second : String}
    (hFirst :
      (Session.start settings clock natives).Accepts first)
    (hSecond :
      (Session.start settings clock natives).Accepts second)
    (hOk :
      ((Session.start settings clock natives).run first).2 =
        .ok .ok) :
    let start := Session.start settings clock natives
    let lines := (start.run first).1.run second
    let marked := (start.runMarked 1 first).1.runMarked 2 second
    let joined := start.run (first ++ "\n" ++ second)
    lines.1.JoinsTo first second joined.1 marked.1 ∧
      marked.2 = lines.2 ∧ joined.2 = lines.2 := by
  intro start lines marked joined
  have hResembles :
      start.Resembles (.butLines (.unmarking first second))
        start :=
    Session.resembles_start _ settings clock natives
  have hNative :
      (Mirror.unmarking first second).rel nativeCallToken
        nativeCallToken :=
    ⟨_, .native⟩
  rcases
    hResembles.runMarked hNative hFirst.read
      (unmarked_first first second) with ⟨hOne, hStatus⟩
  rcases
    hOne.runMarked hNative
      (Session.run_after hFirst.read hSecond.read).1
      (unmarked_second first second) with ⟨hBoth, hStatus'⟩
  rcases
    Session.runMarked_mirrors_joined
      (Machine.mirrors_start _ (clockNative :: natives) clock) rfl
      rfl rfl hFirst hSecond (hStatus.symm.trans hOk) with
    ⟨hPrinted, hGlobals, hErrors, hStatus'', hReports⟩
  refine ⟨?_, hStatus'.symm, hStatus''.trans hStatus'.symm⟩
  constructor
  · exact
      hPrinted.trans
        (Transcript.printedLines_eq hBoth.transcript).symm
  · exact
      hGlobals.trans (Session.globalTexts_eq hBoth.machine).symm
  · exact (Transcript.printedLines_eq hBoth.transcript).symm
  · exact
      .of_rel hBoth.lastError hErrors fun hUnmarked hJoined =>
        RuntimeError.carried_of_mirrors hUnmarked hJoined
  · exact
      Session.reports_run_after rfl rfl hFirst hSecond hOk
  · exact hReports

/-
  Both sources have the same name at the same place, and only
  the second one reads it. It is the fifth of its tokens, and
  stands on the second line of the joined source.
-/
theorem run_joined_missing :
    let first := "if (false) b;"
    let second := "if (true ) b;"
    let missing : Token := ⟨.identifier, "b", .nil, 1, 12⟩
    let start := Session.start {} ⟨[]⟩ []
    let lines := (start.run first).1.run second
    let marked := (start.runMarked 1 first).1.runMarked 2 second
    let joined := start.run (first ++ "\n" ++ second)
    start.Accepts first ∧
    start.Accepts second ∧
    (start.run first).2 = .ok .ok ∧
    lines.1.JoinsTo first second joined.1 marked.1 ∧
    joined.2 = lines.2 ∧
    (tokenize first).tokens[4]? = some missing ∧
    (tokenize second).tokens[4]? = some missing ∧
    marked.1.lastError.map
        (fun e => e.token.map fun t => (t.line, t.column)) =
      some (some (2, 4)) ∧
    lines.1.lastError.map (fun e => (e.message, e.line)) =
      some ("Undefined variable 'b'.", some 1) ∧
    joined.1.lastError.map (fun e => (e.message, e.line)) =
      some ("Undefined variable 'b'.", some 2) := by
  intro first second missing start lines marked joined
  have hToken :
      (tokenize "if (false) b;").tokens[4]? =
        some ⟨.identifier, "b", .nil, 1, 12⟩ := by
    cbv
  have hToken' :
      (tokenize "if (true ) b;").tokens[4]? =
        some ⟨.identifier, "b", .nil, 1, 12⟩ := by
    cbv
  have hFirst : start.Accepts first :=
    ⟨by decide +kernel, by decide +kernel⟩
  have hSecond : start.Accepts second :=
    ⟨by decide +kernel, by decide +kernel⟩
  have hOk : (start.run first).2 = .ok .ok := by
    have hStatus : (start.run first).2.toOption = some .ok := by
      decide +kernel
    cases hRun : (start.run first).2 with
    | error e =>
        rw [hRun] at hStatus
        cases hStatus
    | ok status =>
        rw [hRun] at hStatus
        exact congrArg _ (Option.some.inj hStatus)
  rcases run_joined {} ⟨[]⟩ [] hFirst hSecond hOk with
    ⟨hJoins, _, hStatus⟩
  refine
    ⟨hFirst, hSecond, hOk, hJoins, hStatus, hToken, hToken', ?_,
      ?_, ?_⟩
  · decide +kernel
  · decide +kernel
  · decide +kernel

end Lox
