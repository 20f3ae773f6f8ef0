import Lox.Proofs.Mirror.Trees
import Lox.Proofs.Token.Visible

/-
  Words written out again.

  A word ends before white space, whatever comes after that. So
  the words of a text, written in order with white space and
  comments between them, are scanned as the same words again.

  Key definitions include:
    * `IsLayout`
    * `IsSeparator`
    * `Spaced`
    * `tokenize_spaced`
-/

------------------------------------------------------------
-- Texts Between Words
------------------------------------------------------------

namespace Lox

/-
  A text with no words in it: white space, and comments that a
  line break ends.
-/
inductive IsLayout : List Char → Prop where
  | done : IsLayout []
  | white
      {c : Char} {rest : List Char}
      (hWhite : IsWhite c)
      (hRest : IsLayout rest) :
      IsLayout (c :: rest)
  | comment
      {body rest : List Char}
      (hBody : '\n' ∉ body)
      (hRest : IsLayout rest) :
      IsLayout ('/' :: '/' :: (body ++ '\n' :: rest))

/- Such a text that begins with white space. -/
structure IsSeparator (text : List Char) : Prop where
  layout : IsLayout text
  white : ∃ c ∈ text.head?, IsWhite c

theorem IsSeparator.stop
    {separator : List Char}
    (hSeparator : IsSeparator separator)
    (text : List Char) :
    ∀ c ∈ (separator ++ text).head?, IsWhite c := by
  rcases hSeparator.white with ⟨c, hHead, hWhite⟩
  intro d hMem
  cases separator with
  | nil => cases hHead
  | cons e others =>
      cases hHead
      cases hMem
      exact hWhite

/- Words in order, with a separator between each two of them. -/
inductive Spaced : List Token → List Char → Prop where
  | none : Spaced [] []
  | last (t : Token) : Spaced [t] t.lexeme.toList
  | next
      {t u : Token} {words : List Token}
      {separator text : List Char}
      (hSeparator : IsSeparator separator)
      (hRest : Spaced (u :: words) text) :
      Spaced (t :: u :: words)
        (t.lexeme.toList ++ (separator ++ text))

/- What stands between words is scanned as nothing. -/
theorem Scans.layout
    {before separator rest : List Char}
    {tokens : List Token}
    {errors : List LexError}
    (hLayout : IsLayout separator)
    (hRest : Scans (before ++ separator) rest tokens errors) :
    Scans before (separator ++ rest) tokens errors := by
  induction hLayout generalizing before with
  | done =>
      rw [List.append_nil] at hRest
      exact hRest
  | @white c others hWhite _ ih =>
      rw [List.append_cons] at hRest
      have hBlank := blank_isLongest hWhite.isBlank (others ++ rest)
      show Scans before ([c] ++ (others ++ rest)) tokens errors
      exact .blank hBlank (ih hRest)
  | @comment body others hBody _ ih =>
      let comment := '/' :: '/' :: body
      have hSplit :
          comment ++ '\n' :: others =
            '/' :: '/' :: (body ++ '\n' :: others) := rfl
      rw [← hSplit, ← List.append_assoc, List.append_cons] at hRest
      rw [← hSplit, List.append_assoc]
      have hAfter :
          Scans (before ++ comment) (['\n'] ++ (others ++ rest))
            tokens errors :=
        .blank (blank_isLongest (.inr rfl) _) (ih hRest)
      exact .blank (comment_isLongest hBody (.inr rfl)) hAfter

end Lox

------------------------------------------------------------
-- Words Before White Space
------------------------------------------------------------

namespace Lox

/- The only word that begins with a slash is the slash. -/
theorem Piece.Spelled.of_slash
    {kind : Kind}
    {literal : Literal}
    {others : List Char}
    (hSpelled : (Piece.token kind literal).Spelled ('/' :: others)) :
    others = [] := by
  have hWords :
      ∀ entry ∈ Kind.keywords, entry.1.head? ≠ some '/' := by
    decide
  have hMarks :
      ∀ entry ∈ Kind.operators,
        entry.1.head? = some '/' → entry.1 = ['/'] := by
    decide
  have hChar : ¬ IsLetter '/' ∧ ¬ IsDigit '/' := by decide
  generalize hText : '/' :: others = text at hSpelled
  cases hSpelled with
  | string => cases hText
  | integer hWhole =>
      subst hText
      exact absurd (hWhole.2 _ List.mem_cons_self) hChar.2
  | @fraction whole fraction hWhole _ =>
      cases whole with
      | nil => exact absurd rfl hWhole.1
      | cons d whole =>
          cases hText
          exact absurd (hWhole.2 _ List.mem_cons_self) hChar.2
  | keyword hKeyword =>
      subst hText
      exact absurd rfl (hWords _ hKeyword)
  | identifier hFirst =>
      cases hText
      exact absurd hFirst hChar.1
  | operator hOperator =>
      subst hText
      exact (List.cons.inj (hMarks _ hOperator rfl)).2

/- A word that white space follows is not the start of a piece. -/
theorem Piece.Spelled.not_white_after
    {kind : Kind}
    {literal : Literal}
    {spelling : List Char}
    (hSpelled : (Piece.token kind literal).Spelled spelling)
    {c : Char}
    (hWhite : IsWhite c)
    {other : Piece}
    {more : List Char}
    (hOther : other.Spelled (spelling ++ c :: more)) :
    False := by
  have hMem : c ∈ spelling ++ c :: more := by simp
  cases spelling with
  | nil => exact hSpelled.ne_nil rfl
  | cons d others =>
      rcases hOther.of_white_mem hWhite hMem with
        hSingle | ⟨body, _, hComment⟩ | hQuote
      · simp at hSingle
      · rcases List.cons.inj hComment with ⟨rfl, hRest⟩
        rw [hSpelled.of_slash] at hRest
        rw [(List.cons.inj hRest).1] at hWhite
        exact absurd hWhite (by decide)
      · -- Both are strings, closed by the same quote.
        rcases hSpelled.of_quote hQuote with ⟨own, hOwn, hText⟩
        rcases hOther.of_quote hQuote with ⟨body, hBody, hLong⟩
        have hOthers := (List.cons.inj hText).2
        have hLonger := (List.cons.inj hLong).2
        have hSame : own.length = body.length := by
          refine closed_length_eq hOwn hBody ?_ (List.prefix_refl _)
          rw [← hLonger, ← hOthers]
          exact List.prefix_append _ _
        have hLength := congrArg List.length hLonger
        simp [hOthers, hSame] at hLength

/- No word goes on where white space follows it. -/
theorem Piece.Spelled.isLongest_before
    {kind : Kind}
    {literal : Literal}
    {spelling rest : List Char}
    (hSpelled : (Piece.token kind literal).Spelled spelling)
    (hStop : ∀ c ∈ rest.head?, IsWhite c) :
    (Piece.token kind literal).IsLongest spelling rest := by
  refine ⟨hSpelled, ?_⟩
  intro other longer hOther hPrefix
  have hSelf : spelling <+: spelling ++ rest :=
    List.prefix_append spelling rest
  rcases List.prefix_or_prefix_of_prefix hPrefix hSelf with
    hShort | ⟨more, rfl⟩
  · exact hShort.length_le
  · have hMore : more <+: rest :=
      (List.prefix_append_right_inj spelling).mp hPrefix
    cases more with
    | nil => rw [List.append_nil]
    | cons c more =>
        rcases hMore with ⟨after, rfl⟩
        have hWhite := hStop c rfl
        exact absurd hOther (hSpelled.not_white_after hWhite)

end Lox

------------------------------------------------------------
-- Scanned Again
------------------------------------------------------------

namespace Lox

/- A word where another text has it. -/
theorem Token.IsWord.scans
    {t : Token}
    (hWord : t.IsWord)
    {before rest : List Char}
    (hStop : ∀ c ∈ rest.head?, IsWhite c)
    {tokens : List Token}
    {errors : List LexError}
    (hRest :
      Scans (before ++ t.lexeme.toList) rest tokens errors) :
    ∃ u, t.SameWord u ∧
      Scans before (t.lexeme.toList ++ rest) (u :: tokens) errors := by
  refine
    ⟨.after before t.kind t.literal t.lexeme.toList, ?_,
      .token (hWord.isLongest_before hStop) hRest⟩
  exact ⟨rfl, String.ofList_toList, rfl⟩

/- Words written out are scanned as themselves, one by one. -/
theorem Spaced.scans
    {words : List Token}
    {text : List Char}
    (hSpaced : Spaced words text)
    (hWords : ∀ t ∈ words, t.IsWord)
    (before : List Char) :
    ∃ found, List.Forall₂ Token.SameWord words found ∧
      Scans before text found [] := by
  induction hSpaced generalizing before with
  | none => exact ⟨[], .nil, .done⟩
  | last t =>
      have hWord := hWords t List.mem_cons_self
      have hEnd : Scans (before ++ t.lexeme.toList) [] [] [] := .done
      rcases hWord.scans (by simp) hEnd with ⟨u, hSame, hScans⟩
      rw [List.append_nil] at hScans
      exact ⟨[u], .cons hSame .nil, hScans⟩
  | @next t u words separator text hSeparator _ ih =>
      have hWord := hWords t List.mem_cons_self
      rcases ih (fun v hMem => hWords v (List.mem_cons_of_mem _ hMem))
          (before ++ t.lexeme.toList ++ separator) with
        ⟨found, hFound, hLater⟩
      have hRest := Scans.layout hSeparator.layout hLater
      rcases hWord.scans (hSeparator.stop text) hRest with
        ⟨v, hSame, hScans⟩
      exact ⟨v :: found, .cons hSame hFound, hScans⟩

/-
  The words of a text, written out in order with white space
  and comments between them, are the words of the new text, and
  nothing in it is an error.
-/
theorem tokenize_spaced
    {source text : String}
    (hSpaced : Spaced (wordsOf source) text.toList) :
    (tokenize text).errors = [] ∧
      List.Forall₂ Token.SameWord (tokenize source).tokens
        (tokenize text).tokens := by
  have hWords : ∀ t ∈ wordsOf source, t.IsWord :=
    fun t hMem => isWord_of_mem hMem
  rcases hSpaced.scans hWords [] with ⟨found, hFound, hScans⟩
  rw [tokenize_of_scans hScans, tokens_eq source]
  refine ⟨rfl, ?_⟩
  exact List.rel_append hFound (.cons ⟨rfl, rfl, rfl⟩ .nil)

/- The words of the text `a/"//"` at its begin. -/
def slashTokens : List Token :=
  [ ⟨.identifier, "a", .nil, 1, 1⟩,
    ⟨.slash, "/", .nil, 1, 2⟩,
    ⟨.string, "\"//\"", .string "//", 1, 3⟩ ]

/- A slash is one between a comment and a string of slashes. -/
theorem tokenize_spaced_slashes :
    let source := "a/\"//\""
    let text := "a //b\n/\t\"//\""
    Spaced (wordsOf source) text.toList ∧
      (tokenize text).errors = [] ∧
      List.Forall₂ Token.SameWord (tokenize source).tokens
        (tokenize text).tokens := by
  intro source text
  have hWords : wordsOf "a/\"//\"" = slashTokens := by
    with_unfolding_all rfl
  have hComment : IsSeparator [' ', '/', '/', 'b', '\n'] :=
    { layout :=
        .white (.inl rfl)
          (@IsLayout.comment ['b'] [] (by decide) .done)
      white := ⟨_, rfl, .inl rfl⟩ }
  have hTab : IsSeparator ['\t'] :=
    { layout := .white (.inr (.inl rfl)) .done
      white := ⟨_, rfl, .inr (.inl rfl)⟩ }
  have hSpaced : Spaced (wordsOf source) text.toList := by
    rw [hWords]
    have hText :
        text.toList =
          ['a'] ++ ([' ', '/', '/', 'b', '\n'] ++
            (['/'] ++ (['\t'] ++ "\"//\"".toList))) := by
      decide
    rw [hText]
    exact .next hComment (.next hTab (.last _))
  exact ⟨hSpaced, tokenize_spaced hSpaced⟩

end Lox
