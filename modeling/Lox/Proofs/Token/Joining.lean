import Mathlib.Data.List.Permutation
import Lox.Proofs.Token.Position

/-
  Two texts with a line break between them.

  The only pieces that go over a line break are the break
  itself and strings. So a break ends every piece before it,
  unless a string is open there, and the text after it is
  scanned as it is alone, only further down.

  Key definitions include:
    * `Token.below`
    * `LexError.below`
    * `IsWhite`
    * `Scans.lowered`
    * `Scans.join`
    * `tokens_line_bounds`
    * `tokenize_join`
    * `tokenize_across_newline`
-/

------------------------------------------------------------
-- Further Down
------------------------------------------------------------

namespace Lox

/- The token, a number of lines further down. -/
def Token.below (lines : Nat) (t : Token) : Token :=
  { t with line := t.line + lines }

/- The error, a number of lines further down. -/
def LexError.below (lines : Nat) (e : LexError) : LexError :=
  { e with line := e.line + lines }

theorem Text.lineAfter_below (above before : List Char) :
    lineAfter (above ++ '\n' :: before) =
      lineAfter before + lineAfter above := by
  simp only [lineAfter, List.count_append,
    List.count_cons_self]
  omega

/- A column is counted from the last line break. -/
theorem Text.columnAfter_below (above before : List Char) :
    columnAfter (above ++ '\n' :: before) =
      columnAfter before := by
  have hBreak :
      ∀ text : List Char,
        (text ++ '\n' :: above.reverse).takeWhile (· ≠ '\n') =
          text.takeWhile (· ≠ '\n') := by
    intro text
    induction text with
    | nil => simp
    | cons c text ih =>
        simp only [List.cons_append, List.takeWhile_cons, ih]
  unfold columnAfter
  rw [List.reverse_append, List.reverse_cons,
    List.append_assoc, List.singleton_append, hBreak]

theorem Token.after_below
    (above before : List Char)
    (kind : Kind)
    (literal : Literal)
    (spelling : List Char) :
    Token.after (above ++ '\n' :: before) kind literal spelling =
      (Token.after before kind literal spelling).below
        (Text.lineAfter above) := by
  unfold Token.after Token.below
  rw [Text.lineAfter_below, Text.columnAfter_below]
  simp only [Int.natCast_add]

/- What stands above a text only moves its lines. -/
theorem Scans.lowered
    {before rest : List Char}
    {tokens : List Token}
    {errors : List LexError}
    (hScans : Scans before rest tokens errors)
    (above : List Char) :
    Scans (above ++ '\n' :: before) rest
      (tokens.map (Token.below (Text.lineAfter above)))
      (errors.map (LexError.below (Text.lineAfter above))) := by
  induction hScans with
  | done => exact .done
  | blank hLongest _ ih =>
      rw [← List.cons_append, ← List.append_assoc] at ih
      exact .blank hLongest ih
  | token hLongest _ ih =>
      rw [← List.cons_append, ← List.append_assoc] at ih
      rw [List.map_cons, ← Token.after_below]
      exact .token hLongest ih
  | @unexpected before rest c _ _ hNone hChar _ ih =>
      rw [← List.cons_append, ← List.append_assoc] at ih
      have hScans := Scans.unexpected hNone hChar ih
      rw [Text.lineAfter_below, Int.natCast_add] at hScans
      exact hScans
  | @unterminated before rest hNone =>
      have hScans :
          Scans (above ++ '\n' :: before) ('"' :: rest) _ _ :=
        .unterminated hNone
      rw [List.append_assoc, List.cons_append,
        Text.lineAfter_below, Int.natCast_add] at hScans
      exact hScans

end Lox

------------------------------------------------------------
-- Pieces And White Space
------------------------------------------------------------

namespace Lox

/- The characters of white space. -/
def IsWhite (c : Char) : Prop :=
  c = ' ' ∨ c = '\t' ∨ c = '\r' ∨ c = '\n'

instance : DecidablePred IsWhite :=
  fun c =>
    inferInstanceAs
      (Decidable (c = ' ' ∨ c = '\t' ∨ c = '\r' ∨ c = '\n'))

theorem IsWhite.isBlank
    {c : Char}
    (hWhite : IsWhite c) :
    isSpace c = true ∨ c = '\n' := by
  rcases hWhite with rfl | rfl | rfl | rfl <;> decide

/- Classes of characters that white space is not in. -/
theorem IsWhite.not_word
    {c : Char}
    (hWhite : IsWhite c) :
    ¬ IsDigit c ∧ ¬ IsLetter c := by
  rcases hWhite with rfl | rfl | rfl | rfl <;> decide

/-
  A piece with white space inside is a character of it, a
  comment or a string.
-/
theorem Piece.Spelled.of_white_mem
    {piece : Piece}
    {spelling : List Char}
    {c : Char}
    (hSpelled : piece.Spelled spelling)
    (hWhite : IsWhite c)
    (hMem : c ∈ spelling) :
    spelling = [c] ∨
      (∃ body, '\n' ∉ body ∧ spelling = '/' :: '/' :: body) ∨
      spelling.head? = some '"' := by
  have hWords : ∀ entry ∈ Kind.keywords, c ∉ entry.1 := by
    rcases hWhite with rfl | rfl | rfl | rfl <;> decide
  have hMarks : ∀ entry ∈ Kind.operators, c ∉ entry.1 := by
    rcases hWhite with rfl | rfl | rfl | rfl <;> decide
  rcases hWhite.not_word with ⟨hDigit, hLetter⟩
  cases hSpelled with
  | space => exact .inl (by rw [List.mem_singleton.mp hMem])
  | newline => exact .inl (by rw [List.mem_singleton.mp hMem])
  | comment hBody => exact .inr (.inl ⟨_, hBody, rfl⟩)
  | string _ => exact .inr (.inr rfl)
  | integer hWhole => exact absurd (hWhole.2 _ hMem) hDigit
  | fraction hWhole hFraction =>
      rcases List.mem_append.mp hMem with hMem | hMem
      · exact absurd (hWhole.2 _ hMem) hDigit
      · rcases List.mem_cons.mp hMem with rfl | hMem
        · exact absurd hWhite (by decide)
        · exact absurd (hFraction.2 _ hMem) hDigit
  | keyword hKeyword =>
      exact absurd hMem (hWords _ hKeyword)
  | identifier hFirst hOthers _ =>
      rcases List.mem_cons.mp hMem with rfl | hMem
      · exact absurd hFirst hLetter
      · rcases hOthers _ hMem with hOther | hOther
        · exact absurd hOther hLetter
        · exact absurd hOther hDigit
  | operator hOperator =>
      exact absurd hMem (hMarks _ hOperator)

/- A piece with a line break inside is the break or a string. -/
theorem Piece.Spelled.of_newline_mem
    {piece : Piece}
    {spelling : List Char}
    (hSpelled : piece.Spelled spelling)
    (hMem : '\n' ∈ spelling) :
    spelling = ['\n'] ∨ spelling.head? = some '"' := by
  rcases hSpelled.of_white_mem (by decide) hMem with
    hBreak | ⟨body, hBody, rfl⟩ | hQuote
  · exact .inl hBreak
  · simp [hBody] at hMem
  · exact .inr hQuote

/- A piece that begins with a quote is a string. -/
theorem Piece.Spelled.of_quote
    {piece : Piece}
    {spelling : List Char}
    (hSpelled : piece.Spelled spelling)
    (hHead : spelling.head? = some '"') :
    ∃ body, '"' ∉ body ∧ spelling = '"' :: (body ++ ['"']) := by
  have hWords :
      ∀ entry ∈ Kind.keywords, entry.1.head? ≠ some '"' := by
    decide
  have hMarks :
      ∀ entry ∈ Kind.operators, entry.1.head? ≠ some '"' := by
    decide
  have hDigits :
      ∀ whole : List Char,
        (whole ≠ [] ∧ ∀ c ∈ whole, IsDigit c) →
          ∀ rest, (whole ++ rest).head? ≠ some '"' := by
    intro whole hWhole rest hHead
    cases whole with
    | nil => exact hWhole.1 rfl
    | cons c whole =>
        have hDigit := hWhole.2 c List.mem_cons_self
        rw [Option.some.inj hHead] at hDigit
        exact absurd hDigit (by decide)
  cases hSpelled with
  | string hBody => exact ⟨_, hBody, rfl⟩
  | newline => exact absurd hHead (by decide)
  | comment _ => exact absurd (Option.some.inj hHead) (by decide)
  | space hSpace =>
      rw [Option.some.inj hHead] at hSpace
      exact absurd hSpace (by decide)
  | integer hWhole =>
      exact
        absurd ((List.append_nil _).symm ▸ hHead)
          (hDigits _ hWhole [])
  | fraction hWhole _ => exact absurd hHead (hDigits _ hWhole _)
  | keyword hKeyword => exact absurd hHead (hWords _ hKeyword)
  | identifier hFirst _ _ =>
      rw [Option.some.inj hHead] at hFirst
      exact absurd hFirst (by decide)
  | operator hOperator => exact absurd hHead (hMarks _ hOperator)

/- Of two strings at one place neither is the longer one. -/
theorem closed_length_eq
    {body other text : List Char}
    (hBody : '"' ∉ body)
    (hOther : '"' ∉ other)
    (hFirst : body ++ ['"'] <+: text)
    (hSecond : other ++ ['"'] <+: text) :
    body.length = other.length := by
  have hClosed :
      ∀ {part : List Char},
        '"' ∉ part → part ++ ['"'] <+: text →
          text.takeWhile (· ≠ '"') = part := by
    intro part hPart hPrefix
    rcases hPrefix with ⟨after, hText⟩
    rw [← hText, List.append_assoc]
    exact takeWhile_ne_append hPart after
  rw [← hClosed hBody hFirst, ← hClosed hOther hSecond]

/-
  What a text with a line break after it begins with, it
  begins with alone, or it holds the break.
-/
theorem prefix_or_newline_mem
    {piece text more : List Char}
    (hPrefix : piece <+: text ++ '\n' :: more) :
    piece <+: text ∨ '\n' ∈ piece := by
  have hBreak : text ++ ['\n'] <+: text ++ '\n' :: more :=
    ⟨more, by simp⟩
  rcases List.prefix_or_prefix_of_prefix hPrefix hBreak with
    hShort | hLong
  · rcases List.prefix_concat_iff.mp hShort with hSame | hText
    · apply Or.inr
      rw [hSame]
      simp
    · exact .inl hText
  · exact .inr (hLong.subset (by simp))

/- A longest piece is one before a line break. -/
theorem Piece.IsLongest.before_newline
    {piece : Piece}
    {spelling rest : List Char}
    (hLongest : piece.IsLongest spelling rest)
    (more : List Char) :
    piece.IsLongest spelling (rest ++ '\n' :: more) := by
  refine ⟨hLongest.spelled, ?_⟩
  intro other text hOther hPrefix
  rw [← List.append_assoc] at hPrefix
  rcases prefix_or_newline_mem hPrefix with hText | hMem
  · exact hLongest.longest other text hOther hText
  · rcases hOther.of_newline_mem hMem with hBreak | hQuote
    · rw [hBreak]
      exact List.length_pos_iff.mpr hLongest.spelled.ne_nil
    · -- Both are strings, closed by the same quote.
      cases spelling with
      | nil => exact absurd rfl hLongest.spelled.ne_nil
      | cons c others =>
          rcases hOther.of_quote hQuote with ⟨body, hBody, hText⟩
          rw [hText] at hPrefix ⊢
          rcases List.cons_prefix_cons.mp hPrefix with
            ⟨hChar, hFirst⟩
          rcases hLongest.spelled.of_quote
              (congrArg some hChar.symm) with
            ⟨own, hOwn, hSpelling⟩
          rw [List.cons.injEq] at hSpelling
          have hSecond :
              own ++ ['"'] <+:
                (others ++ rest) ++ '\n' :: more := by
            rw [hSpelling.2, List.append_assoc]
            exact List.prefix_append _ _
          have hSame :=
            closed_length_eq hBody hOwn hFirst hSecond
          simp [hSpelling.2, hSame]

/- A text that begins with no piece is one before a break. -/
theorem NoPiece.before_newline
    {c : Char}
    {rest : List Char}
    (hNone : NoPiece (c :: rest))
    (hChar : c ≠ '"')
    (more : List Char) :
    NoPiece (c :: (rest ++ '\n' :: more)) := by
  intro piece spelling hSpelled hPrefix
  rw [← List.cons_append] at hPrefix
  rcases prefix_or_newline_mem hPrefix with hText | hMem
  · exact hNone piece spelling hSpelled hText
  · cases spelling with
    | nil => exact hSpelled.ne_nil rfl
    | cons d others =>
        have hSame : d = c := (List.cons_prefix_cons.mp hPrefix).1
        rcases hSpelled.of_newline_mem hMem with hBreak | hQuote
        · have hLine : d = '\n' := (List.cons.inj hBreak).1
          exact hNone.ne_newline (hSame ▸ hLine)
        · exact hChar (hSame ▸ Option.some.inj hQuote)

/- A blank character is a longest piece. -/
theorem blank_isLongest
    {c : Char}
    (hBlank : isSpace c = true ∨ c = '\n')
    (rest : List Char) :
    Piece.blank.IsLongest [c] rest := by
  constructor
  · rcases hBlank with hSpace | rfl
    · exact .space ((isSpace_iff c).mp hSpace)
    · exact .newline
  · intro other more hOther hPrefix
    have hLength := (recognize_of_begins hOther hPrefix).2
    rw [recognize_blank hBlank] at hLength
    exact hLength

/- A comment goes on to the end of its line, and no further. -/
theorem comment_isLongest
    {body rest : List Char}
    (hBody : '\n' ∉ body)
    (hStop : rest = [] ∨ rest.head? = some '\n') :
    Piece.blank.IsLongest ('/' :: '/' :: body) rest := by
  refine ⟨.comment hBody, ?_⟩
  have hTake : (body ++ rest).takeWhile (· ≠ '\n') = body := by
    rw [List.takeWhile_append_of_pos (all_ne_of_not_mem hBody)]
    rcases hStop with rfl | hLine
    · simp
    · cases rest with
      | nil => cases hLine
      | cons c rest =>
          cases hLine
          simp
  intro other more hOther hPrefix
  have hResult :
      recognize '/' ('/' :: (body ++ rest)) =
        ('/' :: '/' :: body, .blank) := by
    rw [recognize_comment, hTake]
  have hLength := (recognize_of_begins hOther hPrefix).2
  rw [List.append_eq, List.cons_append, hResult] at hLength
  exact hLength

end Lox

------------------------------------------------------------
-- Joined Texts
------------------------------------------------------------

namespace Lox

/-
  A text without an open string, then a line break, and what
  comes after, by induction on the scan of the first text.
-/
theorem Scans.join
    {before rest more : List Char}
    {tokens later : List Token}
    {errors others : List LexError}
    (hScans : Scans before rest tokens errors)
    (hClosed : ∀ e ∈ errors, e.fault ≠ .unterminated)
    (hLater :
      Scans (before ++ rest ++ ['\n']) more later others) :
    Scans before (rest ++ '\n' :: more) (tokens ++ later)
      (errors ++ others) := by
  induction hScans with
  | @done before =>
      rw [List.append_nil] at hLater
      show Scans before (['\n'] ++ more) later others
      exact .blank (blank_isLongest (.inr rfl) more) hLater
  | @blank before spelling rest _ _ hLongest _ ih =>
      rw [← List.append_assoc before] at hLater
      rw [List.append_assoc]
      exact
        .blank (hLongest.before_newline more) (ih hClosed hLater)
  | @token before spelling rest _ _ _ _ hLongest _ ih =>
      rw [← List.append_assoc before] at hLater
      rw [List.append_assoc]
      exact
        .token (hLongest.before_newline more) (ih hClosed hLater)
  | @unexpected before rest c _ _ hNone hChar _ ih =>
      rw [List.append_cons before] at hLater
      have hRest :=
        ih (fun e hMem => hClosed e (List.mem_cons_of_mem _ hMem))
      exact
        .unexpected (hNone.before_newline hChar more) hChar
          (hRest hLater)
  | unterminated _ =>
      exact absurd rfl (hClosed _ List.mem_cons_self)

/- The tokens of a text before its end. -/
def wordsOf (text : String) : List Token :=
  (tokenize text).tokens.dropLast

theorem tokens_eq (text : String) :
    (tokenize text).tokens =
      wordsOf text ++ [.after text.toList .eof .nil []] := by
  rcases scans_tokenize text with ⟨tokens, hTokens, _⟩
  unfold wordsOf
  rw [hTokens, List.dropLast_concat]

theorem exists_eof (text : String) :
    ∃ t ∈ (tokenize text).tokens, t.kind = .eof := by
  rw [tokens_eq text]
  exact ⟨Token.after text.toList .eof .nil [], by simp, rfl⟩

theorem scans_wordsOf (text : String) :
    Scans [] text.toList (wordsOf text) (tokenize text).errors := by
  rcases scans_tokenize text with ⟨tokens, hTokens, hScans⟩
  unfold wordsOf
  rw [hTokens, List.dropLast_concat]
  exact hScans

/- A word of a text is the longest piece where it stands. -/
theorem Scans.exists_longest
    {before rest : List Char}
    {tokens : List Token}
    {errors : List LexError}
    (hScans : Scans before rest tokens errors)
    {t : Token}
    (hMem : t ∈ tokens) :
    ∃ earlier spelling later kind literal,
      before ++ rest = earlier ++ (spelling ++ later) ∧
        t = .after earlier kind literal spelling ∧
          (Piece.token kind literal).IsLongest spelling later := by
  induction hScans with
  | done | unterminated => cases hMem
  | blank _ _ ih =>
      rcases ih hMem with
        ⟨earlier, spelling, later, _, _, hText, hRest⟩
      rw [List.append_assoc] at hText
      exact ⟨earlier, spelling, later, _, _, hText, hRest⟩
  | @token before spelling rest kind literal _ _ hLongest _ ih =>
      rcases List.mem_cons.mp hMem with rfl | hLater
      · exact ⟨_, _, _, _, _, rfl, rfl, hLongest⟩
      · rcases ih hLater with
          ⟨earlier, spelling, later, _, _, hText, hRest⟩
        rw [List.append_assoc] at hText
        exact ⟨earlier, spelling, later, _, _, hText, hRest⟩
  | unexpected _ _ _ ih =>
      rcases ih hMem with
        ⟨earlier, spelling, later, _, _, hText, hRest⟩
      rw [List.append_assoc] at hText
      exact ⟨earlier, spelling, later, _, _, hText, hRest⟩

/- A token that its own lexeme spells. -/
def Token.IsWord (t : Token) : Prop :=
  (Piece.token t.kind t.literal).Spelled t.lexeme.toList

theorem isWord_of_mem
    {text : String}
    {t : Token}
    (hMem : t ∈ wordsOf text) :
    t.IsWord := by
  rcases (scans_wordsOf text).exists_longest hMem with
    ⟨_, spelling, _, kind, literal, _, rfl, hLongest⟩
  unfold Token.IsWord Token.after
  rw [String.toList_ofList]
  exact hLongest.spelled

/- The tokens of a text stand on its lines. -/
theorem Scans.line_bounds
    {before rest : List Char}
    {tokens : List Token}
    {errors : List LexError}
    (hScans : Scans before rest tokens errors) :
    ∀ t ∈ tokens,
      1 ≤ t.line ∧ t.line ≤ Text.lineAfter (before ++ rest) := by
  induction hScans with
  | done =>
      intro t hMem
      cases hMem
  | blank _ _ ih =>
      rw [← List.append_assoc]
      exact ih
  | @token before spelling rest kind literal _ _ _ _ ih =>
      intro t hMem
      rw [← List.append_assoc]
      rcases List.mem_cons.mp hMem with hSame | hMem
      · subst hSame
        unfold Token.after
        rw [List.append_assoc, Text.lineAfter_append]
        dsimp only
        unfold Text.lineAfter
        omega
      · exact ih t hMem
  | @unexpected before rest c _ _ _ _ _ ih =>
      rw [List.append_cons]
      exact ih
  | unterminated _ =>
      intro t hMem
      cases hMem

theorem tokens_line_bounds (text : String) :
    ∀ t ∈ (tokenize text).tokens,
      1 ≤ t.line ∧ t.line ≤ Text.lineAfter text.toList := by
  intro t hMem
  rw [tokens_eq] at hMem
  rcases List.mem_append.mp hMem with hMem | hLast
  · exact (scans_wordsOf text).line_bounds t hMem
  · rw [List.mem_singleton.mp hLast]
    unfold Token.after Text.lineAfter
    dsimp only
    omega

/- What is wrong in a text is on its lines as well. -/
theorem Scans.error_line_bounds
    {before rest : List Char}
    {tokens : List Token}
    {errors : List LexError}
    (hScans : Scans before rest tokens errors) :
    ∀ e ∈ errors,
      1 ≤ e.line ∧ e.line ≤ Text.lineAfter (before ++ rest) := by
  induction hScans with
  | done =>
      intro e hMem
      cases hMem
  | blank _ _ ih | token _ _ ih =>
      rw [← List.append_assoc]
      exact ih
  | @unexpected before rest c _ _ _ _ _ ih =>
      intro e hMem
      rcases List.mem_cons.mp hMem with hSame | hMem
      · rw [hSame, Text.lineAfter_append]
        unfold Text.lineAfter
        dsimp only
        omega
      · rw [List.append_cons]
        exact ih e hMem
  | unterminated _ =>
      intro e hMem
      rw [List.mem_singleton.mp hMem]
      unfold Text.lineAfter
      dsimp only
      omega

/- Only the last token of a text is its end. -/
theorem Scans.kind_ne_eof
    {before rest : List Char}
    {tokens : List Token}
    {errors : List LexError}
    (hScans : Scans before rest tokens errors) :
    ∀ t ∈ tokens, t.kind ≠ .eof := by
  induction hScans with
  | blank _ _ ih => exact ih
  | token hLongest _ ih =>
      intro t hMem
      rcases List.mem_cons.mp hMem with hSame | hMem
      · rw [hSame]
        exact hLongest.spelled.kind_ne_eof
      · exact ih t hMem
  | unexpected _ _ _ ih => exact ih
  | _ =>
      intro t hMem
      cases hMem

/-
  Two texts with a line break between them have the tokens of
  the first one, and then those of the second one further
  down, unless the first one ends in an open string.
-/
theorem tokenize_join
    (first second : String)
    (hClosed :
      ∀ e ∈ (tokenize first).errors, e.fault ≠ .unterminated) :
    let lines := Text.lineAfter first.toList
    (tokenize (first ++ "\n" ++ second)).tokens =
        wordsOf first ++
          (tokenize second).tokens.map (Token.below lines) ∧
      (tokenize (first ++ "\n" ++ second)).errors =
        (tokenize first).errors ++
          (tokenize second).errors.map (LexError.below lines) := by
  intro lines
  have hText :
      (first ++ "\n" ++ second).toList =
        first.toList ++ '\n' :: second.toList := by
    simp
  have hLater := (scans_wordsOf second).lowered first.toList
  have hScans := (scans_wordsOf first).join hClosed hLater
  rw [← hText] at hScans
  rw [tokenize_of_scans hScans, tokens_eq second, hText,
    Token.after_below]
  refine ⟨?_, rfl⟩
  rw [List.map_append, List.map_singleton, List.append_assoc]

/- The wording of an open string is that of no other fault. -/
theorem LexFault.message_eq_iff (fault : LexFault) :
    fault.message = "Unterminated string." ↔
      fault = .unterminated := by
  constructor
  · intro hMessage
    have hLength : fault.message.length = 20 := by
      rw [hMessage]
      decide
    cases fault with
    | unterminated => rfl
    | unexpected c =>
        -- Every other wording has more characters.
        cases c with
        | none => exact absurd hLength (by decide)
        | some c =>
            have hLong :
                (LexFault.unexpected (some c)).message =
                  "Unexpected character '" ++ toString c ++ "'." :=
              rfl
            have hStart :
                "Unexpected character '".length = 22 := by
              decide
            rw [hLong, String.length_append, String.length_append,
              hStart] at hLength
            omega
  · rintro rfl
    rfl

/-
  Reading goes on after a line break as at the beginning of a
  text. If no string is open at the end of the first text, the
  words of both are found, in order, with those of the second
  one moved down by the lines of the first and left in their
  columns; and so are the errors.
-/
theorem tokenize_across_newline
    {first : String}
    (hClosed :
      ∀ e ∈ (tokenize first).errors,
        e.message ≠ "Unterminated string.")
    (second : String) :
    let lines := 1 + first.toList.count '\n'
    let whole := tokenize (first ++ "\n" ++ second)
    ∃ words last,
      (tokenize first).tokens = words ++ [last] ∧
      last.kind = .eof ∧
      (∀ t ∈ words, t.kind ≠ .eof) ∧
      whole.tokens =
        words ++ (tokenize second).tokens.map (Token.below lines) ∧
      whole.errors =
        (tokenize first).errors ++
          (tokenize second).errors.map (LexError.below lines) := by
  intro lines whole
  have hFaults :
      ∀ e ∈ (tokenize first).errors, e.fault ≠ .unterminated := by
    intro e hMem hFault
    exact hClosed e hMem (e.fault.message_eq_iff.mpr hFault)
  rcases tokenize_join first second hFaults with
    ⟨hTokens, hErrors⟩
  exact
    ⟨wordsOf first, .after first.toList .eof .nil [],
      tokens_eq first, rfl, (scans_wordsOf first).kind_ne_eof,
      hTokens, hErrors⟩

/-
  Before the break there are a character that begins no word, a
  string over two lines and a comment, after it an open string.
-/
theorem tokenize_across_newline_comment :
    let first := "@\n\"a\nb\" // c"
    let second := "x \""
    let whole := tokenize (first ++ "\n" ++ second)
    (∀ e ∈ (tokenize first).errors,
      e.message ≠ "Unterminated string.") ∧
    whole.tokens =
      [ ⟨.string, "\"a\nb\"", .string "a\nb", 2, 1⟩,
        ⟨.identifier, "x", .nil, 4, 1⟩,
        ⟨.eof, "", .nil, 4, 4⟩ ] ∧
    whole.errors =
      [⟨.unexpected (some '@'), 1⟩, ⟨.unterminated, 4⟩] := by
  intro first second whole
  have hFirst :
      (tokenize "@\n\"a\nb\" // c").tokens =
        [ ⟨.string, "\"a\nb\"", .string "a\nb", 2, 1⟩,
          ⟨.eof, "", .nil, 3, 8⟩ ] := by
    cbv
  have hSecond :
      (tokenize "x \"").tokens =
        [⟨.identifier, "x", .nil, 1, 1⟩, ⟨.eof, "", .nil, 1, 4⟩] := by
    cbv
  have hFirstErrors :
      (tokenize "@\n\"a\nb\" // c").errors =
        [⟨.unexpected (some '@'), 1⟩] := by
    cbv
  have hSecondErrors :
      (tokenize "x \"").errors = [⟨.unterminated, 1⟩] := by
    cbv
  have hLines : 1 + first.toList.count '\n' = 3 := by
    decide
  have hClosed :
      ∀ e ∈ (tokenize first).errors,
        e.message ≠ "Unterminated string." := by
    rw [hFirstErrors]
    decide
  rcases tokenize_across_newline hClosed second with
    ⟨words, last, hWords, _, _, hTokens, hErrors⟩
  rw [hLines] at hTokens hErrors
  refine ⟨hClosed, ?_, ?_⟩
  · rw [hFirst] at hWords
    have hInit := congrArg List.dropLast hWords
    rw [List.dropLast_concat] at hInit
    rw [hTokens, ← hInit, hSecond]
    rfl
  · rw [hErrors, hFirstErrors, hSecondErrors]
    rfl

end Lox
