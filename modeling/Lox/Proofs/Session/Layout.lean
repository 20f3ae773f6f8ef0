import Lox.Proofs.Session.Resemblance

/-
  Sources of the same words.

  Two sources with the same words, in any layout, are read and
  resolved to the same trees but for the places of the words in
  them. So sessions that run them print the same lines, report
  the same errors, on other lines perhaps, and end in the same
  way.

  Key definitions include:
    * `Token.Corresponds`
    * `Mirror.layout`
    * `Diagnostic.SameButLine`
    * `Reporting.butLines`
    * `layout_irrelevant`
-/

------------------------------------------------------------
-- Tokens Of The Same Words
------------------------------------------------------------

namespace Lox

/-
  Tokens that have the same number in two lists. The token that
  native functions blame is in no list.
-/
inductive Token.Corresponds (tokens tokens' : List Token) :
    Token → Token → Prop where
  | listed
      {index : Nat} {t t' : Token}
      (hToken : tokens[index]? = some t)
      (hToken' : tokens'[index]? = some t') :
      Corresponds tokens tokens' t t'
  | native :
      Corresponds tokens tokens' nativeCallToken nativeCallToken

variable {tokens tokens' : List Token}

/- Tokens with the same number are the same words. -/
def Mirror.layout
    (hWords : List.Forall₂ Token.SameWord tokens tokens') :
    Mirror :=
  { rel := Token.Corresponds tokens tokens'
    sameWord := by
      intro t t' hTokens
      cases hTokens with
      | @listed index _ _ hToken hToken' =>
          have hSame := forall₂_getElem? hWords index
          rw [hToken, hToken'] at hSame
          cases hSame with
          | some hSame => exact hSame
      | native => exact ⟨rfl, rfl, rfl⟩ }

theorem forall₂_corresponds
    (hLength : tokens.length = tokens'.length) :
    List.Forall₂ (Token.Corresponds tokens tokens') tokens
      tokens' := by
  refine List.forall₂_iff_get.mpr ⟨hLength, ?_⟩
  intro index hIndex hIndex'
  exact
    .listed (List.getElem?_eq_getElem hIndex)
      (List.getElem?_eq_getElem hIndex')

end Lox

------------------------------------------------------------
-- Reports But For Lines
------------------------------------------------------------

namespace Lox

/- Reports of the same error, on other lines perhaps. -/
structure Diagnostic.SameButLine (d d' : Diagnostic) : Prop where
  stage : d'.stage = d.stage
  message : d'.message = d.message
  place : d'.place = d.place

/- Errors that mirror each other are reported in these words. -/
def Reporting.butLines (M : Mirror) : Reporting M :=
  { rel := Diagnostic.SameButLine
    stage := fun hReports => hReports.stage
    structural := by
      intro t t' message hTokens
      have hSame := M.sameWord hTokens
      refine ⟨rfl, rfl, ?_⟩
      unfold Diagnostic.structural Token.place
      rw [hSame.kind, hSame.lexeme]
    running := fun hError =>
      ⟨rfl, congrArg RuntimeFault.message hError.fault, rfl⟩ }

/-
  Two sources that are tokenized without an error, to the same
  words in the same order, are read as the same program but for
  the places of its words, with the same errors at words of the
  same number, and this program is resolved to the same numbers
  of scopes, or with the same error. New sessions that run them
  show the same but for the lines of reports, and end in the
  same way.
-/
theorem layout_irrelevant
    (settings : Settings)
    (clock : Clock)
    (natives : List Native)
    {source source' : String}
    (hErrors : (tokenize source).errors = [])
    (hErrors' : (tokenize source').errors = [])
    (hWords :
      List.Forall₂ Token.SameWord (tokenize source).tokens
        (tokenize source').tokens) :
    let M := Mirror.layout hWords
    let start := Session.start settings clock natives
    let ran := start.run source
    let ran' := start.run source'
    (∀ limits,
      let parsed := parse limits (tokenize source).tokens
      let parsed' := parse limits (tokenize source').tokens
      parsed.Mirrors M parsed' ∧
        ResolutionMirrors M (resolveProgram parsed.program)
          (resolveProgram parsed'.program)) ∧
    ran.1.Resembles (.butLines M) ran'.1 ∧
    ran'.1.transcript.printedLines =
      ran.1.transcript.printedLines ∧
    ran'.2 = ran.2 := by
  intro M start ran ran'
  have hTokens :
      List.Forall₂ M.rel (tokenize source).tokens
        (tokenize source').tokens :=
    forall₂_corresponds hWords.length_eq
  have hNative : M.rel nativeCallToken nativeCallToken := .native
  have hStart : start.Resembles (.butLines M) start :=
    Session.resembles_start _ settings clock natives
  rcases hStart.run hNative hErrors hErrors' hTokens with
    ⟨hRan, hStatus⟩
  refine
    ⟨?_, hRan, Transcript.printedLines_eq hRan.transcript, hStatus⟩
  intro limits parsed parsed'
  have hParsed : parsed.Mirrors M parsed' :=
    parse_mirrors limits hTokens (exists_eof source)
  exact ⟨hParsed, resolveProgram_mirrors hParsed.program⟩

/- A name that is missing is missed on another line. -/
theorem layout_irrelevant_missing :
    let source := "a;"
    let source' := "\n a // b\n;"
    let start := Session.start {} ⟨[]⟩ []
    let missed := "Undefined variable 'a'."
    (tokenize source).errors = [] ∧
    (tokenize source').errors = [] ∧
    List.Forall₂ Token.SameWord (tokenize source).tokens
      (tokenize source').tokens ∧
    (start.run source').1.transcript.printedLines =
      (start.run source).1.transcript.printedLines ∧
    (start.run source').2 = (start.run source).2 ∧
    (start.run source).1.transcript.reports =
      [{ stage := .running, line := 1, message := missed }] ∧
    (start.run source').1.transcript.reports =
      [{ stage := .running, line := 2, message := missed }] := by
  intro source source' start missed
  have hErrors : (tokenize "a;").errors = [] := by cbv
  have hErrors' : (tokenize "\n a // b\n;").errors = [] := by cbv
  have hTokens :
      (tokenize "a;").tokens =
        [ ⟨.identifier, "a", .nil, 1, 1⟩,
          ⟨.semicolon, ";", .nil, 1, 2⟩,
          ⟨.eof, "", .nil, 1, 3⟩ ] := by
    cbv
  have hTokens' :
      (tokenize "\n a // b\n;").tokens =
        [ ⟨.identifier, "a", .nil, 2, 2⟩,
          ⟨.semicolon, ";", .nil, 3, 1⟩,
          ⟨.eof, "", .nil, 3, 2⟩ ] := by
    cbv
  have hWords :
      List.Forall₂ Token.SameWord (tokenize source).tokens
        (tokenize source').tokens := by
    rw [hTokens, hTokens']
    exact
      .cons ⟨rfl, rfl, rfl⟩
        (.cons ⟨rfl, rfl, rfl⟩ (.cons ⟨rfl, rfl, rfl⟩ .nil))
  have hSame :=
    layout_irrelevant {} ⟨[]⟩ [] hErrors hErrors' hWords
  refine
    ⟨hErrors, hErrors', hWords, hSame.2.2.1, hSame.2.2.2, ?_, ?_⟩
  · decide +kernel
  · decide +kernel

end Lox
