import Lox.Proofs.Token.Joining

/-
  The steps in which a text is scanned.

  Each step moves over some characters and finds something in
  them: blank space or a comment, a token, or an error. One
  step after another moves over the whole text, and what is
  found on the way is what the text is tokenized to.

  Key definitions include:
    * `Scanner.Step`
    * `Scanner.steps`
    * `Scanner.passed`
    * `tokenize_eq_steps`
-/

------------------------------------------------------------
-- Steps
------------------------------------------------------------

namespace Lox

/- The token that has been found, if it is one. -/
def Scanned.token? : Scanned → Option Token
  | .token t => some t
  | _ => none

/- The error that has been found, if it is one. -/
def Scanned.error? : Scanned → Option LexError
  | .error e => some e
  | _ => none

namespace Scanner

/-
  A step of a scanner: the characters that it moves over, and
  what it finds in them.
-/
structure Step where
  text : List Char
  found : Scanned
deriving Repr

/- The step at a scanner's place. -/
def step (s : Scanner) : Step :=
  ⟨s.rest.take (s.scan.2.pos - s.pos), s.scan.1⟩

/- All steps over the text that is left. -/
def steps (s : Scanner) : List Step :=
  if h : s.rest = [] then []
  else
    have := length_scan_lt s h
    s.step :: s.scan.2.steps
termination_by s.rest.length

/- The text that some steps move over. -/
def passed (steps : List Step) : List Char :=
  steps.flatMap Step.text

theorem steps_of_rest
    {s : Scanner}
    (hRest : s.rest = []) :
    s.steps = [] := by
  rw [steps, dif_pos hRest]

theorem steps_cons
    {s : Scanner}
    (hRest : s.rest ≠ []) :
    s.steps = s.step :: s.scan.2.steps := by
  rw [steps, dif_neg hRest]

/-
  What is found on the way is what the scanner makes of the
  text, by induction on the text that is left.
-/
theorem scanAll_eq_steps
    (s : Scanner)
    (tokens : Array Token)
    (errors : Array LexError) :
    (s.scanAll tokens errors).tokens =
        tokens.toList ++ s.steps.filterMap (·.found.token?) ++
          [(s.scanAll tokens errors).final.endToken] ∧
      (s.scanAll tokens errors).errors =
        errors.toList ++ s.steps.filterMap (·.found.error?) := by
  induction hLength : s.rest.length using Nat.strong_induction_on
    generalizing s tokens errors with
  | _ n ih =>
      by_cases hRest : s.rest = []
      · rw [steps_of_rest hRest, scanAll, dif_pos hRest]
        simp
      · have hShorter := length_scan_lt s hRest
        rw [hLength] at hShorter
        rw [steps_cons hRest, scanAll, dif_neg hRest]
        dsimp only
        cases hFound : s.scan.1 with
        | blank =>
            have hRest := ih _ hShorter s.scan.2 tokens errors rfl
            simpa [step, hFound, Scanned.token?, Scanned.error?]
              using hRest
        | token t =>
            have hRest :=
              ih _ hShorter s.scan.2 (tokens.push t) errors rfl
            simpa [step, hFound, Scanned.token?, Scanned.error?]
              using hRest
        | error e =>
            have hRest :=
              ih _ hShorter s.scan.2 tokens (errors.push e) rfl
            simpa [step, hFound, Scanned.token?, Scanned.error?]
              using hRest

/- The steps after a text begin with the piece that is next. -/
theorem steps_after
    (before spelling rest : List Char)
    {piece : Piece}
    {c : Char}
    {others : List Char}
    (hText : c :: others = spelling ++ rest)
    (hFound : recognize c others = (spelling, piece)) :
    (after before (spelling ++ rest)).steps =
      ⟨spelling, found before spelling piece⟩ ::
        (after (before ++ spelling) rest).steps := by
  have hRest : (after before (spelling ++ rest)).rest ≠ [] := by
    show spelling ++ rest ≠ []
    rw [← hText]
    exact List.cons_ne_nil c others
  have hScan := scan_after before spelling rest hText hFound
  rw [steps_cons hRest, step, hScan]
  simp [after]

end Scanner

end Lox

------------------------------------------------------------
-- Steps Over Longest Pieces
------------------------------------------------------------

namespace Lox

open Scanner

/- A longest piece is moved over in one step. -/
theorem Piece.IsLongest.steps
    {piece : Piece}
    {spelling rest : List Char}
    (hLongest : piece.IsLongest spelling rest)
    (before : List Char) :
    (after before (spelling ++ rest)).steps =
      ⟨spelling, found before spelling piece⟩ ::
        (after (before ++ spelling) rest).steps := by
  cases spelling with
  | nil => exact absurd rfl hLongest.spelled.ne_nil
  | cons c others =>
      exact
        steps_after before (c :: others) rest rfl
          (recognize_of_isLongest hLongest)

theorem NoPiece.steps
    {c : Char}
    {rest : List Char}
    (hNone : NoPiece (c :: rest))
    (hChar : c ≠ '"')
    (before : List Char) :
    (after before (c :: rest)).steps =
      ⟨[c], found before [c] (.unexpected c)⟩ ::
        (after (before ++ [c]) rest).steps := by
  have hResult := recognize_of_noPiece hNone
  rw [if_neg hChar] at hResult
  exact steps_after before [c] rest rfl hResult

theorem NoPiece.steps_quote
    {rest : List Char}
    (hNone : NoPiece ('"' :: rest))
    (before : List Char) :
    (after before ('"' :: rest)).steps =
      [⟨'"' :: rest, found before ('"' :: rest) .unterminated⟩] := by
  have hResult := recognize_of_noPiece hNone
  rw [if_pos rfl] at hResult
  have hSteps :=
    steps_after before ('"' :: rest) [] (by simp) hResult
  rw [List.append_nil] at hSteps
  rw [hSteps, steps_of_rest rfl]

/- All of the text is moved over, by induction on the scan. -/
theorem Scans.passed_steps
    {before rest : List Char}
    {tokens : List Token}
    {errors : List LexError}
    (hScans : Scans before rest tokens errors) :
    passed (after before rest).steps = rest := by
  induction hScans with
  | done =>
      rw [steps_of_rest rfl]
      rfl
  | blank hLongest _ ih | token hLongest _ ih =>
      rw [hLongest.steps, passed, List.flatMap_cons]
      exact congrArg _ ih
  | unexpected hNone hChar _ ih =>
      rw [hNone.steps hChar, passed, List.flatMap_cons]
      exact congrArg _ ih
  | unterminated hNone =>
      rw [hNone.steps_quote, passed, List.flatMap_singleton]

/-
  The steps over a text move over all of it, and what is found
  on the way is what the text is tokenized to.
-/
theorem tokenize_eq_steps (text : String) :
    let steps := (ofText text).steps
    passed steps = text.toList ∧
      wordsOf text = steps.filterMap (·.found.token?) ∧
      (tokenize text).errors = steps.filterMap (·.found.error?) := by
  intro steps
  rcases scanAll_eq_steps (ofText text) #[] #[] with
    ⟨hTokens, hErrors⟩
  refine ⟨(scans_wordsOf text).passed_steps, ?_, hErrors⟩
  unfold wordsOf tokenize
  rw [hTokens, List.dropLast_concat]
  rfl

end Lox
