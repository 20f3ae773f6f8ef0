import Lox.Proofs.Grammar.Formation
import Lox.Proofs.Machine.Blame
import Lox.Proofs.Mirror.Reading
import Lox.Proofs.Mirror.Resolving
import Lox.Proofs.Session.Endings

/-
  What is read can be run, and what goes wrong has a place.

  Whatever is read from a source is made of its words, each
  where it may stand; so no run fails for an operator that is
  not supported. Every report blames a line of the source, and
  all but those of its characters blame a token of it.

  Key definitions include:
    * `Mirror.within`
    * `parsed_trees_supported`
    * `reports_name_places`
-/

------------------------------------------------------------
-- Supported Programs
------------------------------------------------------------

namespace Lox

/- What is read from a source is made of its tokens. -/
theorem wellFormed_of_source
    (limits : Limits)
    (source : String) :
    ∀ s ∈ (parse limits (tokenize source).tokens).program,
      s.WellFormed (.of (· ∈ (tokenize source).tokens)) :=
  wellFormed_of_parse (fun _ hMem => carriesValue_of_mem hMem)
    limits fun _ hMem => hMem

/- It is made of tokens that have the values of their kinds. -/
theorem bodyFormed_of_source
    (limits : Limits)
    (source : String) :
    Stmt.BodyFormed (.of Token.CarriesValue)
      (parse limits (tokenize source).tokens).program := by
  have hTokens :
      ∀ t ∈ (tokenize source).tokens, t.CarriesValue :=
    fun _ hMem => carriesValue_of_mem hMem
  have hProgram :=
    wellFormed_of_parse (fun _ hValue => hValue) limits hTokens
  exact Stmt.bodyFormed_iff.mpr fun s hMem => (hProgram s hMem).formed

theorem carriesValue_nativeCallToken :
    nativeCallToken.CarriesValue := by
  refine ⟨?_, ?_⟩ <;> exact fun hKind => by cases hKind

/- In a session that runs sources all functions are supported. -/
theorem Session.blaming_after
    (settings : Settings)
    (clock : Clock)
    (natives : List Native)
    (steps : List SessionStep) :
    (Policy.blaming Token.CarriesValue).HoldsIn
      ((Session.start settings clock natives).after steps) := by
  have hNative :
      ∀ native : Native,
        (Policy.blaming Token.CarriesValue).native native :=
    fun _ _ _ => carriesValue_nativeCallToken
  have hStart :
      (Policy.blaming Token.CarriesValue).HoldsIn
        (Session.start settings clock natives) :=
    .start settings trivial fun native _ => hNative native
  exact
    hStart.after (Policy.isSound_blaming _) bodyFormed_of_source
      steps

/- A program that upholds the policy fails for what it admits. -/
theorem Policy.blames_of_runProgram
    {T : Token → Prop}
    {limits : Limits}
    {program : List Stmt}
    {m m' : Machine}
    {e : RuntimeError}
    (hProgram : Stmt.BodyFormed (.of T) program)
    (hHolds : (blaming T).Holds m)
    (hRun : runProgram limits program m = .error (.failed e) m') :
    e.Blames T := by
  have hEnds :=
    runProgram_upholds (isSound_blaming T) limits hProgram m hHolds
  rw [hRun] at hEnds
  exact hEnds.2

/-
  Every statement that is read from a source, with errors in it
  or not, has operators of the language, names for its names,
  constants that are `nil`, truth values, numbers or strings of
  the source, and declarations in lists of declarations only.
  So on the machine of any session, whatever has been run
  there, neither this program nor what it is resolved to fails
  for an operator that is not supported, and no source that the
  session has run did.
-/
theorem parsed_trees_supported
    (settings : Settings)
    (clock : Clock)
    (natives : List Native)
    (steps : List SessionStep)
    (limits : Limits)
    (source : String) :
    let start := Session.start settings clock natives
    let session := start.after steps
    let tokens := (tokenize source).tokens
    let program := (parse limits tokens).program
    (∀ stmt ∈ program, stmt.WellFormed (.of (· ∈ tokens))) ∧
    (∀ limits e m,
      runProgram limits program session.machine =
          .error (.failed e) m →
        e.fault.IsSupported) ∧
    (∀ resolved,
      resolveProgram program = .ok resolved →
        ∀ limits e m,
          runProgram limits resolved.program session.machine =
              .error (.failed e) m →
            e.fault.IsSupported) ∧
    ∀ e ∈ session.lastError, e.fault.IsSupported := by
  intro start session tokens program
  have hHolds :=
    Session.blaming_after settings clock natives steps
  have hProgram : Stmt.BodyFormed (.of Token.CarriesValue) program :=
    bodyFormed_of_source limits source
  refine ⟨wellFormed_of_source limits source, ?_, ?_, ?_⟩
  · intro limits e m hRun
    have hBlames :=
      Policy.blames_of_runProgram hProgram hHolds.machine hRun
    exact hBlames.supported
  · intro resolved hResolve limits e m hRun
    have hFormed := Stmt.bodyFormed_of_resolve hResolve hProgram
    have hBlames :=
      Policy.blames_of_runProgram hFormed hHolds.machine hRun
    exact hBlames.supported
  · intro e hLast
    have hBlames : e.Blames Token.CarriesValue :=
      hHolds.lastError e hLast
    exact hBlames.supported

end Lox

------------------------------------------------------------
-- Tokens Of Static Errors
------------------------------------------------------------

namespace Lox

/- The tokens of a list stand for themselves. -/
def Mirror.within (tokens : List Token) : Mirror :=
  { rel := fun t t' => t' = t ∧ t ∈ tokens
    sameWord := by
      intro t t' hTokens
      rw [hTokens.1]
      exact ⟨rfl, rfl, rfl⟩ }

/- What is read from a source mirrors itself within it. -/
theorem parse_mirrors_within
    (limits : Limits)
    (source : String) :
    let tokens := (tokenize source).tokens
    (parse limits tokens).Mirrors (.within tokens)
      (parse limits tokens) := by
  intro tokens
  apply parse_mirrors limits
  · exact List.forall₂_same.mpr fun t hMem => ⟨rfl, hMem⟩
  · exact exists_eof source

theorem token_mem_of_parse
    {limits : Limits}
    {source : String}
    {e : ParseError}
    (hMem : e ∈ (parse limits (tokenize source).tokens).errors) :
    e.token ∈ (tokenize source).tokens := by
  have hErrors := (parse_mirrors_within limits source).errors
  exact (List.forall₂_same.mp hErrors e hMem).token.2

theorem token_mem_of_resolve
    {limits : Limits}
    {source : String}
    {e : ScopeError}
    (hResolve :
      resolveProgram
          (parse limits (tokenize source).tokens).program =
        .error e) :
    e.token ∈ (tokenize source).tokens := by
  have hResolves :=
    resolveProgram_mirrors
      (parse_mirrors_within limits source).program
  rw [hResolve] at hResolves
  have hError : e.Mirrors (.within (tokenize source).tokens) e :=
    hResolves
  exact hError.token.2

/- A report says that it is at the end just if its token is. -/
theorem Token.place_eq_iff (t : Token) :
    t.place = " at end" ↔ t.kind = .eof := by
  unfold place
  constructor
  · intro hPlace
    by_contra hKind
    rw [if_neg hKind] at hPlace
    have hQuote := congrArg String.toList hPlace
    simp [toString] at hQuote
  · intro hKind
    exact if_pos hKind

end Lox

------------------------------------------------------------
-- Reports Of A Run
------------------------------------------------------------

namespace Lox

namespace Session

/-
  What a source adds to the reports: what is wrong with its
  characters, its structure or its scopes, or the error that
  its run has ended with.
-/
theorem mem_reports_run
    {s : Session}
    {source : String}
    {d : Diagnostic}
    (hMem : d ∈ (s.run source).1.reporter.diagnostics.toList) :
    d ∈ s.reporter.diagnostics.toList ∨
      d ∈ (tokenize source).diagnostics ∨
      d ∈
        (Lox.parse s.limits (tokenize source).tokens).diagnostics ∨
      d ∈ scopeReports (s.programOf source) ∨
      ∃ e,
        (s.run source).1.lastError = some e ∧ d = e.diagnostic := by
  by_cases hRead : s.readReports source = []
  · cases hResolve : resolveProgram (s.programOf source) with
    | error e =>
        have hRun :
            s.run source =
              (s.clearFlags.reportAll [e.diagnostic],
                .ok .staticError) := by
          rw [run_of_read hRead]
          unfold programOf at hResolve
          unfold interpret
          rw [hResolve]
          rfl
        rw [hRun, diagnostics_reportAll] at hMem
        rcases List.mem_append.mp hMem with hOld | hNew
        · exact .inl hOld
        · unfold scopeReports
          rw [hResolve]
          exact .inr (.inr (.inr (.inl hNew)))
    | ok resolved =>
        let result := runProgram s.limits resolved.program s.machine
        let loaded :=
          s.clearFlags.load (s.programOf source) resolved.recorded
        have hRun : s.run source = loaded.finish result :=
          run_of_resolve hRead hResolve
        have hLoaded : loaded.reporter = s.reporter.clearFlags :=
          (s.clearFlags.load_frame _ _).1
        rw [hRun, (loaded.finish_reports result).1,
          diagnostics_reportAll, hLoaded] at hMem
        rw [hRun, (loaded.finish_adds result).2.2.1]
        rcases List.mem_append.mp hMem with hOld | hNew
        · exact .inl hOld
        · refine .inr (.inr (.inr (.inr ?_)))
          cases hEnd : result with
          | ok a m =>
              rw [hEnd] at hNew
              cases hNew
          | error interrupt m =>
              rw [hEnd] at hNew
              cases interrupt with
              | failed e =>
                  exact ⟨e, rfl, List.mem_singleton.mp hNew⟩
              | _ => cases hNew
  · rw [run_of_unread hRead, diagnostics_reportAll] at hMem
    rcases List.mem_append.mp hMem with hOld | hNew
    · exact .inl hOld
    · rcases List.mem_append.mp hNew with hLexical | hStructural
      · exact .inr (.inl hLexical)
      · exact .inr (.inr (.inl hStructural))

/-
  In a new session whose native functions call no others, the
  error of a run blames a token of its source.
-/
theorem lastError_names_token
    (settings : Settings)
    (clock : Clock)
    {natives : List Native}
    (hNatives :
      ∀ native ∈ natives, ∀ index,
        native.behavior ≠ .apply index)
    {source : String}
    {e : RuntimeError}
    (hLast :
      e ∈ ((start settings clock natives).run source).1.lastError) :
    ∃ t ∈ (tokenize source).tokens, e.token = some t := by
  let P := Policy.blaming (· ∈ (tokenize source).tokens)
  have hStart : P.HoldsIn (start settings clock natives) := by
    refine .start settings trivial ?_
    intro native hMem index hApplies
    rcases List.mem_cons.mp hMem with rfl | hMem
    · cases hApplies
    · exact absurd hApplies (hNatives native hMem index)
  have hHolds : P.HoldsIn ((start settings clock natives).run source).1 := by
    apply hStart.run (Policy.isSound_blaming _)
    apply Stmt.bodyFormed_iff.mpr
    intro s hMem
    exact (wellFormed_of_source _ source s hMem).formed
  have hBlames : e.Blames (· ∈ (tokenize source).tokens) :=
    hHolds.lastError e hLast
  -- No link between environments is ever missing.
  have hSound :=
    (TracedSession.sound_start settings clock natives).run source
  have hFound := hSound.lastError e
  rw [TracedSession.run_session] at hFound
  cases hToken : e.token with
  | none =>
      rcases hBlames.nowhere hToken with ⟨distance, hFault⟩
      exact absurd hFault ((hFound hLast).1 distance)
  | some t => exact ⟨t, hBlames.token t hToken, rfl⟩

end Session

/-
  A report that blames a line of a source. If it is one of the
  structure or the scopes, it names a token of the source, the
  end just if it says so; if it is one of the run, it is on the
  line of such a token.
-/
structure Diagnostic.Blames (source : String) (d : Diagnostic) :
    Prop where
  line : 1 ≤ d.line ∧ d.line ≤ 1 + source.toList.count '\n'
  structural :
    d.stage = .structural →
      ∃ t ∈ (tokenize source).tokens,
        d.line = t.line ∧ d.place = t.place ∧
          (d.place = " at end" ↔ t.kind = .eof)
  running :
    d.stage = .running →
      ∃ t ∈ (tokenize source).tokens, d.line = t.line

namespace Diagnostic

variable {source : String} {t : Token}

theorem line_bounds_of_mem
    (hToken : t ∈ (tokenize source).tokens) :
    1 ≤ t.line ∧ t.line ≤ 1 + source.toList.count '\n' := by
  have hBounds := tokens_line_bounds source t hToken
  unfold Text.lineAfter at hBounds
  omega

theorem blames_structural
    (hToken : t ∈ (tokenize source).tokens)
    (message : String) :
    Blames source (.structural t message) :=
  { line := line_bounds_of_mem hToken
    structural := fun _ => ⟨t, hToken, rfl, rfl, t.place_eq_iff⟩
    running := fun hStage => by cases hStage }

theorem blames_running
    (hToken : t ∈ (tokenize source).tokens)
    (message : String) :
    Blames source (.running t message) :=
  { line := line_bounds_of_mem hToken
    structural := fun hStage => by cases hStage
    running := fun _ => ⟨t, hToken, rfl⟩ }

theorem blames_lexical
    {e : LexError}
    (hError : e ∈ (tokenize source).errors) :
    Blames source (.lexical e.line e.message) := by
  have hBounds :=
    (scans_wordsOf source).error_line_bounds e hError
  unfold Text.lineAfter at hBounds
  rw [List.nil_append] at hBounds
  refine ⟨?_, ?_, ?_⟩
  · have hLine : (Diagnostic.lexical e.line e.message).line = e.line :=
      rfl
    omega
  · exact fun hStage => by cases hStage
  · exact fun hStage => by cases hStage

end Diagnostic

/-
  In a new session every report of a source blames one of its
  lines, and a token of it unless it is one of its characters.
  The error of a run always blames a token of the source, so
  the place that is not known is never used.
-/
theorem reports_name_places
    (settings : Settings)
    (clock : Clock)
    (source : String) :
    let after := ((Session.start settings clock []).run source).1
    (∀ d ∈ after.reporter.diagnostics.toList, d.Blames source) ∧
    ∀ e ∈ after.lastError,
      ∃ t ∈ (tokenize source).tokens, e.token = some t := by
  intro after
  have hNames :
      ∀ e ∈ after.lastError,
        ∃ t ∈ (tokenize source).tokens, e.token = some t := by
    intro e hLast
    exact
      Session.lastError_names_token settings clock (by simp) hLast
  refine ⟨?_, hNames⟩
  intro d hMem
  rcases Session.mem_reports_run hMem with
    hOld | hLexical | hParsed | hScope | ⟨e, hLast, rfl⟩
  · cases hOld
  · rcases List.mem_map.mp hLexical with ⟨e, hError, rfl⟩
    exact Diagnostic.blames_lexical hError
  · rcases List.mem_map.mp hParsed with ⟨e, hError, rfl⟩
    exact
      Diagnostic.blames_structural (token_mem_of_parse hError) _
  · unfold scopeReports at hScope
    split at hScope
    · rename_i e hResolve
      rw [List.mem_singleton.mp hScope]
      exact
        Diagnostic.blames_structural (token_mem_of_resolve hResolve)
          _
    · cases hScope
  · rcases hNames e hLast with ⟨t, hToken, hBlamed⟩
    have hPlace : e.blamed = t := by
      unfold RuntimeError.blamed
      rw [hBlamed]
      rfl
    unfold RuntimeError.diagnostic
    rw [hPlace]
    exact Diagnostic.blames_running hToken _

end Lox
