import Lox.Token.Scanner
import Mathlib.Data.List.TakeWhile

/-
  At every place the scanner takes the longest piece.

  `Piece.Spelled` says how the pieces of a text may look, one
  rule for each class of them, and apart from the functions
  that find them. The reference scanner `Scans` moves over the
  longest piece at its place, over one character where there
  is no piece, and over everything that is left where a string
  is not closed. A text is tokenized to what the reference
  scanner makes of it, and to nothing else.

  Key definitions include:
    * `Text.lineAfter`
    * `Text.columnAfter`
    * `Piece.Spelled`
    * `Piece.IsLongest`
    * `Scans`
    * `tokenize_longestMatch`
-/

------------------------------------------------------------
-- Places In A Text
------------------------------------------------------------

namespace Lox.Text

/- The line of the character that follows a text. -/
def lineAfter (before : List Char) : Nat :=
  1 + before.count '\n'

/- The column of the character that follows a text. -/
def columnAfter (before : List Char) : Nat :=
  1 + (before.reverse.takeWhile (· ≠ '\n')).length

theorem lineAfter_append (before text : List Char) :
    lineAfter (before ++ text) =
      lineAfter before + text.count '\n' := by
  simp [lineAfter, Nat.add_assoc]

theorem lineAfter_char
    (before : List Char)
    {c : Char}
    (hChar : c ≠ '\n') :
    lineAfter (before ++ [c]) = lineAfter before := by
  simp [lineAfter, hChar]

theorem columnAfter_newline (before : List Char) :
    columnAfter (before ++ ['\n']) = 1 := by
  simp [columnAfter]

theorem columnAfter_char
    (before : List Char)
    {c : Char}
    (hChar : c ≠ '\n') :
    columnAfter (before ++ [c]) = columnAfter before + 1 := by
  simp [columnAfter, hChar, Nat.add_assoc]

end Lox.Text

------------------------------------------------------------
-- Spellings Of Pieces
------------------------------------------------------------

namespace Lox

/- The digits. -/
def IsDigit (c : Char) : Prop :=
  '0' ≤ c ∧ c ≤ '9'

/- The letters, and the underscore. -/
def IsLetter (c : Char) : Prop :=
  c = '_' ∨ ('a' ≤ c ∧ c ≤ 'z') ∨ ('A' ≤ c ∧ c ≤ 'Z')

/-
  The texts that a piece can be: blank space is a character
  that is not seen, or a comment that stays on its line; a
  string has no quote inside, and a numeral has digits on both
  sides of its point if it has one; a word is a keyword or an
  identifier.
-/
inductive Piece.Spelled : Piece → List Char → Prop where
  | space
      {c : Char}
      (hSpace : c = ' ' ∨ c = '\t' ∨ c = '\r') :
      Spelled .blank [c]
  | newline : Spelled .blank ['\n']
  | comment
      {body : List Char}
      (hBody : '\n' ∉ body) :
      Spelled .blank ('/' :: '/' :: body)
  | string
      {body : List Char}
      (hBody : '"' ∉ body) :
      Spelled (.token .string (.string (String.ofList body)))
        ('"' :: (body ++ ['"']))
  | integer
      {whole : List Char}
      (hWhole : whole ≠ [] ∧ ∀ c ∈ whole, IsDigit c) :
      Spelled
        (.token .number (.number (Decimal.ofNumeral whole [])))
        whole
  | fraction
      {whole fraction : List Char}
      (hWhole : whole ≠ [] ∧ ∀ c ∈ whole, IsDigit c)
      (hFraction : fraction ≠ [] ∧ ∀ c ∈ fraction, IsDigit c) :
      Spelled
        (.token .number
          (.number (Decimal.ofNumeral whole fraction)))
        (whole ++ '.' :: fraction)
  | keyword
      {word : List Char} {kind : Kind}
      (hKeyword : (word, kind) ∈ Kind.keywords) :
      Spelled (.token kind .nil) word
  | identifier
      {c : Char} {others : List Char}
      (hFirst : IsLetter c)
      (hOthers : ∀ d ∈ others, IsLetter d ∨ IsDigit d)
      (hNew : ∀ kind, (c :: others, kind) ∉ Kind.keywords) :
      Spelled (.token .identifier .nil) (c :: others)
  | operator
      {spelling : List Char} {kind : Kind}
      (hOperator : (spelling, kind) ∈ Kind.operators) :
      Spelled (.token kind .nil) spelling

/- A text spells the piece, and with the rest no longer one. -/
structure Piece.IsLongest
    (piece : Piece)
    (spelling rest : List Char) :
    Prop where
  spelled : piece.Spelled spelling
  longest :
    ∀ (other : Piece) (more : List Char),
      other.Spelled more → more <+: spelling ++ rest →
        more.length ≤ spelling.length

/- A text does not begin with any piece. -/
def NoPiece (text : List Char) : Prop :=
  ∀ (piece : Piece) (spelling : List Char),
    piece.Spelled spelling → ¬ spelling <+: text

end Lox

------------------------------------------------------------
-- The Reference Scanner
------------------------------------------------------------

namespace Lox

/- A token that stands after a text. -/
def Token.after
    (before : List Char)
    (kind : Kind)
    (literal : Literal)
    (spelling : List Char) :
    Token :=
  { kind, lexeme := String.ofList spelling, literal
    line := Text.lineAfter before
    column := Text.columnAfter before }

/-
  The tokens of a text that stands after another one, and the
  errors in it. The end is not a token here.
-/
inductive Scans :
    (before rest : List Char) → List Token → List LexError →
      Prop where
  | done
      {before : List Char} :
      Scans before [] [] []
  | blank
      {before spelling rest : List Char}
      {tokens : List Token} {errors : List LexError}
      (hLongest : Piece.blank.IsLongest spelling rest)
      (hRest : Scans (before ++ spelling) rest tokens errors) :
      Scans before (spelling ++ rest) tokens errors
  | token
      {before spelling rest : List Char}
      {kind : Kind} {literal : Literal}
      {tokens : List Token} {errors : List LexError}
      (hLongest :
        (Piece.token kind literal).IsLongest spelling rest)
      (hRest : Scans (before ++ spelling) rest tokens errors) :
      Scans before (spelling ++ rest)
        (.after before kind literal spelling :: tokens) errors
  | unexpected
      {before rest : List Char} {c : Char}
      {tokens : List Token} {errors : List LexError}
      (hNone : NoPiece (c :: rest))
      (hChar : c ≠ '"')
      (hRest : Scans (before ++ [c]) rest tokens errors) :
      Scans before (c :: rest) tokens
        (⟨.unexpected (some c), Text.lineAfter before⟩ :: errors)
  | unterminated
      {before rest : List Char}
      (hNone : NoPiece ('"' :: rest)) :
      Scans before ('"' :: rest) []
        [⟨.unterminated, Text.lineAfter (before ++ '"' :: rest)⟩]

end Lox

------------------------------------------------------------
-- Classes Of Characters
------------------------------------------------------------

namespace Lox

@[simp] theorem isDigit_iff (c : Char) :
    Decimal.isDigit c = true ↔ IsDigit c := by
  simp [Decimal.isDigit, IsDigit]

@[simp] theorem isIdentifierStart_iff (c : Char) :
    isIdentifierStart c = true ↔ IsLetter c := by
  simp [isIdentifierStart, IsLetter, or_assoc]

@[simp] theorem isIdentifierChar_iff (c : Char) :
    isIdentifierChar c = true ↔ IsLetter c ∨ IsDigit c := by
  simp [isIdentifierChar]

theorem isSpace_iff (c : Char) :
    isSpace c = true ↔ c = ' ' ∨ c = '\t' ∨ c = '\r' := by
  simp only [isSpace, Bool.or_eq_true, decide_eq_true_eq,
    or_assoc]
  exact or_congr_right or_comm

instance : DecidablePred IsDigit :=
  fun c => inferInstanceAs (Decidable ('0' ≤ c ∧ c ≤ '9'))

instance : DecidablePred IsLetter :=
  fun c =>
    inferInstanceAs
      (Decidable
        (c = '_' ∨ ('a' ≤ c ∧ c ≤ 'z') ∨ ('A' ≤ c ∧ c ≤ 'Z')))

/- The marks that begin a piece which is no word or numeral. -/
def isMark (c : Char) : Bool :=
  isSpace c || c = '\n' || c = '/' || c = '"'

theorem IsDigit.isMark_eq_false
    {c : Char}
    (hDigit : IsDigit c) :
    isMark c = false := by
  apply Bool.eq_false_iff.mpr
  intro hMark
  simp only [isMark, isSpace, Bool.or_eq_true,
    decide_eq_true_eq] at hMark
  rcases hMark with ((((rfl | rfl) | rfl) | rfl) | rfl) | rfl
  all_goals exact absurd hDigit (by decide)

theorem IsLetter.isMark_eq_false
    {c : Char}
    (hLetter : IsLetter c) :
    isMark c = false := by
  apply Bool.eq_false_iff.mpr
  intro hMark
  simp only [isMark, isSpace, Bool.or_eq_true,
    decide_eq_true_eq] at hMark
  rcases hMark with ((((rfl | rfl) | rfl) | rfl) | rfl) | rfl
  all_goals exact absurd hLetter (by decide)

theorem IsLetter.not_isDigit
    {c : Char}
    (hLetter : IsLetter c) :
    ¬ IsDigit c := by
  intro hDigit
  simp only [IsLetter, IsDigit, Char.le_def,
    UInt32.le_iff_toNat_le] at hLetter hDigit
  rcases hLetter with rfl | hSmall | hLarge
  · exact absurd hDigit (by decide)
  · have hNine : '9'.val.toNat = 57 := rfl
    have hA : 'a'.val.toNat = 97 := rfl
    omega
  · have hNine : '9'.val.toNat = 57 := rfl
    have hA : 'A'.val.toNat = 65 := rfl
    omega

end Lox

------------------------------------------------------------
-- What Is Recognized
------------------------------------------------------------

namespace Lox

variable {c : Char} {rest : List Char}

/- Whether a piece is one of those that have a spelling. -/
def Piece.IsFound : Piece → Prop
  | .blank | .token _ _ => True
  | .unexpected _ | .unterminated => False

theorem Piece.Spelled.isFound
    {piece : Piece}
    {spelling : List Char}
    (hSpelled : piece.Spelled spelling) :
    piece.IsFound := by
  cases hSpelled <;> exact trivial

theorem recognize_blank
    (hBlank : isSpace c = true ∨ c = '\n') :
    recognize c rest = ([c], .blank) := by
  unfold recognize
  rw [if_pos]
  simpa using hBlank

theorem recognize_comment :
    recognize '/' ('/' :: rest) =
      ('/' :: '/' :: rest.takeWhile (· ≠ '\n'), .blank) := by
  simp [recognize, isSpace]

theorem recognize_quote :
    recognize '"' rest = stringAt rest := by
  simp [recognize, isSpace]

theorem recognize_digit (hDigit : IsDigit c) :
    recognize c rest =
      (numeralText (numeralAt (c :: rest)).1
          (numeralAt (c :: rest)).2,
        .token .number
          (.number
            (Decimal.ofNumeral (numeralAt (c :: rest)).1
              (numeralAt (c :: rest)).2))) := by
  have hMark := hDigit.isMark_eq_false
  simp only [isMark, Bool.or_eq_false_iff,
    decide_eq_false_iff_not] at hMark
  simp [recognize, hMark, hDigit]

theorem recognize_letter (hLetter : IsLetter c) :
    recognize c rest =
      (c :: rest.takeWhile isIdentifierChar,
        .token (wordKind (c :: rest.takeWhile isIdentifierChar))
          .nil) := by
  have hMark := hLetter.isMark_eq_false
  have hDigit := hLetter.not_isDigit
  simp only [isMark, Bool.or_eq_false_iff,
    decide_eq_false_iff_not] at hMark
  simp [recognize, hMark, hDigit, hLetter]

/- The characters that only an operator can begin with. -/
def IsOther (c : Char) : Prop :=
  ¬ isSpace c = true ∧ c ≠ '\n' ∧ c ≠ '"' ∧ ¬ IsDigit c ∧
    ¬ IsLetter c

instance : DecidablePred IsOther :=
  fun c =>
    inferInstanceAs
      (Decidable
        (¬ isSpace c = true ∧ c ≠ '\n' ∧ c ≠ '"' ∧
          ¬ IsDigit c ∧ ¬ IsLetter c))

theorem recognize_other
    (hOther : IsOther c)
    (hComment : ¬ (c = '/' ∧ rest.head? = some '/')) :
    recognize c rest =
      match operatorAt? (c :: rest) with
      | some (spelling, kind) => (spelling, .token kind .nil)
      | none => ([c], .unexpected c) := by
  rcases hOther with ⟨hSpace, hLine, hQuote, hDigit, hLetter⟩
  have hNone : ¬ (c = '/' && rest.head? = some '/') = true := by
    simpa using hComment
  have hBlank : ¬ (isSpace c || c = '\n') = true := by
    simp [hSpace, hLine]
  have hNumeral : ¬ Decimal.isDigit c = true := by
    simpa using hDigit
  have hWord : ¬ isIdentifierStart c = true := by
    simpa using hLetter
  unfold recognize
  exact
    (if_neg hBlank).trans <| (if_neg hNone).trans <|
      (if_neg hQuote).trans <| (if_neg hNumeral).trans <|
        if_neg hWord

end Lox

------------------------------------------------------------
-- Spellings Are Recognized
------------------------------------------------------------

namespace Lox

/-
  A text that begins with the given one is recognized as some
  piece at least as long. With nothing after it, the piece is
  the one that the text spells.
-/
def RecognizedFirst
    (piece : Piece)
    (c : Char)
    (others : List Char) :
    Prop :=
  ∀ rest, ∃ more found,
    recognize c (others ++ rest) = (c :: (others ++ more), found) ∧
      found.IsFound ∧
      (rest = [] → found = piece)

/- A character that a text does not have ends none of it. -/
theorem all_ne_of_not_mem
    {stop : Char}
    {text : List Char}
    (hNone : stop ∉ text) :
    ∀ c ∈ text, decide (c ≠ stop) = true := by
  intro c hMem
  apply decide_eq_true
  intro hSame
  exact hNone (hSame ▸ hMem)

/- A text is taken up to the first character it is closed by. -/
theorem takeWhile_ne_append
    {stop : Char}
    {text : List Char}
    (hNone : stop ∉ text)
    (rest : List Char) :
    (text ++ stop :: rest).takeWhile (· ≠ stop) = text := by
  rw [List.takeWhile_append_of_pos (all_ne_of_not_mem hNone)]
  simp

theorem recognizedFirst_comment
    {body : List Char}
    (hBody : '\n' ∉ body) :
    RecognizedFirst .blank '/' ('/' :: body) := by
  intro rest
  have hAll := all_ne_of_not_mem hBody
  refine ⟨rest.takeWhile (· ≠ '\n'), .blank, ?_, trivial, ?_⟩
  · rw [List.cons_append, recognize_comment,
      List.takeWhile_append_of_pos hAll]
    rfl
  · intro _
    rfl

theorem stringAt_closed
    {body : List Char}
    (hBody : '"' ∉ body)
    (rest : List Char) :
    stringAt (body ++ '"' :: rest) =
      ('"' :: (body ++ ['"']),
        .token .string (.string (String.ofList body))) := by
  unfold stringAt
  simp only [takeWhile_ne_append hBody rest]
  simp

theorem stringAt_open (hOpen : '"' ∉ rest) :
    stringAt rest = ('"' :: rest, .unterminated) := by
  have hTake : rest.takeWhile (· ≠ '"') = rest := by
    apply List.takeWhile_eq_self_iff.mpr
    exact all_ne_of_not_mem hOpen
  unfold stringAt
  simp only [hTake]
  simp

theorem recognizedFirst_string
    {body : List Char}
    (hBody : '"' ∉ body) :
    RecognizedFirst
      (.token .string (.string (String.ofList body))) '"'
      (body ++ ['"']) := by
  intro rest
  refine
    ⟨[], .token .string (.string (String.ofList body)), ?_,
      trivial, ?_⟩
  · rw [recognize_quote, List.append_assoc, List.append_nil]
    exact stringAt_closed hBody rest
  · intro _
    rfl

/- The digits of a numeral and of what follows. -/
theorem numeralAt_integer
    {whole : List Char}
    (hWhole : ∀ c ∈ whole, IsDigit c)
    (rest : List Char) :
    ∃ more,
      numeralText (numeralAt (whole ++ rest)).1
          (numeralAt (whole ++ rest)).2 =
        whole ++ more ∧
      (rest = [] → numeralAt (whole ++ rest) = (whole, [])) := by
  have hAll : ∀ c ∈ whole, Decimal.isDigit c = true := by
    intro c hMem
    exact (isDigit_iff c).mpr (hWhole c hMem)
  have hFirst :
      (numeralAt (whole ++ rest)).1 =
        whole ++ rest.takeWhile Decimal.isDigit := by
    rw [← List.takeWhile_append_of_pos hAll]
    unfold numeralAt
    dsimp only
    split <;> rfl
  refine
    ⟨rest.takeWhile Decimal.isDigit ++
      numeralText [] (numeralAt (whole ++ rest)).2, ?_, ?_⟩
  · unfold numeralText
    rw [hFirst]
    split <;> simp
  · intro hRest
    subst hRest
    have hDrop : whole.dropWhile Decimal.isDigit = [] :=
      List.dropWhile_eq_nil_iff.mpr hAll
    have hTake : whole.takeWhile Decimal.isDigit = whole :=
      List.takeWhile_eq_self_iff.mpr hAll
    simp [numeralAt, hDrop, hTake]

theorem numeralAt_fraction
    {whole fraction : List Char}
    (hWhole : ∀ c ∈ whole, IsDigit c)
    (hFraction : ∀ c ∈ fraction, IsDigit c)
    (rest : List Char) :
    numeralAt (whole ++ '.' :: (fraction ++ rest)) =
      (whole, fraction ++ rest.takeWhile Decimal.isDigit) := by
  have hAll : ∀ c ∈ whole, Decimal.isDigit c = true := by
    intro c hMem
    exact (isDigit_iff c).mpr (hWhole c hMem)
  have hAll' : ∀ c ∈ fraction, Decimal.isDigit c = true := by
    intro c hMem
    exact (isDigit_iff c).mpr (hFraction c hMem)
  have hPoint : Decimal.isDigit '.' = false := by decide
  unfold numeralAt
  rw [List.dropWhile_append_of_pos hAll,
    List.takeWhile_append_of_pos hAll,
    List.dropWhile_cons_of_neg (by simp [hPoint]),
    List.takeWhile_cons_of_neg (by simp [hPoint]),
    List.append_nil]
  simp [List.takeWhile_append_of_pos hAll']

theorem recognizedFirst_integer
    {others : List Char}
    (hWhole : ∀ d ∈ c :: others, IsDigit d) :
    RecognizedFirst
      (.token .number
        (.number (Decimal.ofNumeral (c :: others) [])))
      c others := by
  intro rest
  rcases numeralAt_integer hWhole rest with ⟨more, hText, hEnd⟩
  rw [List.cons_append] at hText hEnd
  rw [recognize_digit (hWhole c List.mem_cons_self), hText]
  refine ⟨more, _, rfl, trivial, ?_⟩
  intro hRest
  rw [hEnd hRest]

theorem recognizedFirst_fraction
    {others fraction : List Char}
    (hWhole : ∀ d ∈ c :: others, IsDigit d)
    (hFraction : fraction ≠ [] ∧ ∀ d ∈ fraction, IsDigit d) :
    RecognizedFirst
      (.token .number
        (.number (Decimal.ofNumeral (c :: others) fraction)))
      c (others ++ '.' :: fraction) := by
  intro rest
  have hParts := numeralAt_fraction hWhole hFraction.2 rest
  let digits := fraction ++ rest.takeWhile Decimal.isDigit
  refine
    ⟨rest.takeWhile Decimal.isDigit,
      .token .number
        (.number (Decimal.ofNumeral (c :: others) digits)), ?_,
      trivial, ?_⟩
  · rw [recognize_digit (hWhole c List.mem_cons_self),
      List.append_assoc, List.cons_append, ← List.cons_append,
      hParts]
    simp [numeralText, hFraction.1, digits]
  · intro hRest
    simp [hRest, digits]

/- A word goes on as long as there are letters and digits. -/
theorem recognizedFirst_word
    {others : List Char}
    (hFirst : IsLetter c)
    (hOthers : ∀ d ∈ others, IsLetter d ∨ IsDigit d) :
    RecognizedFirst (.token (wordKind (c :: others)) .nil) c
      others := by
  intro rest
  have hAll : ∀ d ∈ others, isIdentifierChar d = true := by
    intro d hMem
    exact (isIdentifierChar_iff d).mpr (hOthers d hMem)
  rw [recognize_letter hFirst, List.takeWhile_append_of_pos hAll]
  refine
    ⟨rest.takeWhile isIdentifierChar, _, rfl, trivial, ?_⟩
  intro hRest
  simp [hRest]

/- The keywords are words, each with a kind of its own. -/
theorem keyword_spec
    {word : List Char}
    {kind : Kind}
    (hKeyword : (word, kind) ∈ Kind.keywords) :
    (word ≠ [] ∧ ∀ c ∈ word, IsLetter c) ∧
      wordKind word = kind := by
  have hWords :
      ∀ entry ∈ Kind.keywords,
        entry.1 ≠ [] ∧
          entry.1.all (fun c => decide (IsLetter c)) = true ∧
            wordKind entry.1 = entry.2 := by
    decide
  rcases hWords _ hKeyword with ⟨hSome, hLetters, hKind⟩
  exact ⟨⟨hSome, by simpa using hLetters⟩, hKind⟩

theorem wordKind_of_new
    {word : List Char}
    (hNew : ∀ kind, (word, kind) ∉ Kind.keywords) :
    wordKind word = .identifier := by
  unfold wordKind
  split
  · rename_i spelling kind hFind
    have hMem := List.mem_of_find?_eq_some hFind
    have hSame := List.find?_some hFind
    simp only [decide_eq_true_eq] at hSame
    subst hSame
    exact absurd hMem (hNew kind)
  · rfl

/- What begins an operator begins no other piece. -/
theorem operator_spec
    {spelling : List Char}
    {kind : Kind}
    (hOperator : (spelling, kind) ∈ Kind.operators) :
    (spelling ≠ [] ∧ (∀ c ∈ spelling, IsOther c) ∧
      ('/' ∈ spelling → spelling = ['/'])) ∧
    operatorAt? spelling = some (spelling, kind) := by
  have hOperators :
      ∀ entry ∈ Kind.operators,
        entry.1 ≠ [] ∧
          entry.1.all (fun c => decide (IsOther c)) = true ∧
            ('/' ∈ entry.1 → entry.1 = ['/']) ∧
              operatorAt? entry.1 = some entry := by
    decide
  rcases hOperators _ hOperator with
    ⟨hSome, hOthers, hSlash, hFound⟩
  exact ⟨⟨hSome, by simpa using hOthers, hSlash⟩, hFound⟩

/- The operator that is found is as long as any other one. -/
theorem operatorAt?_longest
    {text spelling : List Char}
    {kind : Kind}
    (hOperator : (spelling, kind) ∈ Kind.operators)
    (hPrefix : spelling <+: text) :
    ∃ found kind',
      operatorAt? text = some (found, kind') ∧
        (found, kind') ∈ Kind.operators ∧ found <+: text ∧
        spelling.length ≤ found.length := by
  have hOrder :
      Kind.operators.Pairwise fun a b =>
        b.1.length ≤ a.1.length := by
    decide
  have hMatches :
      (fun entry : List Char × Kind => entry.1.isPrefixOf text)
        (spelling, kind) = true :=
    List.isPrefixOf_iff_prefix.mpr hPrefix
  have hSome :
      (Kind.operators.find? fun entry =>
        entry.1.isPrefixOf text).isSome := by
    apply List.find?_isSome.mpr
    exact ⟨_, hOperator, hMatches⟩
  rcases Option.isSome_iff_exists.mp hSome with
    ⟨⟨found, kind'⟩, hFound⟩
  have hMem := List.mem_of_find?_eq_some hFound
  have hFirst := List.find?_some hFound
  refine
    ⟨found, kind', hFound, hMem,
      List.isPrefixOf_iff_prefix.mp hFirst, ?_⟩
  -- Only longer operators stand before the one that is found.
  rcases List.find?_eq_some_iff_append.mp hFound with
    ⟨_, earlier, later, hSplit, hEarlier⟩
  rw [hSplit] at hOperator hOrder
  rcases List.mem_append.mp hOperator with hBefore | hAfter
  · have hNot := hEarlier _ hBefore
    simp [hMatches] at hNot
  · rcases List.mem_cons.mp hAfter with hSame | hLater
    · cases hSame
      exact Nat.le_refl _
    · have hTail := (List.pairwise_append.mp hOrder).2.1
      exact (List.pairwise_cons.mp hTail).1 _ hLater

theorem recognizedFirst_operator
    {others : List Char}
    {kind : Kind}
    (hOperator : (c :: others, kind) ∈ Kind.operators) :
    RecognizedFirst (.token kind .nil) c others := by
  intro rest
  rcases operator_spec hOperator with
    ⟨⟨_, hChars, hSlash⟩, hSelf⟩
  have hOther := hChars c List.mem_cons_self
  by_cases hComment : c = '/' ∧ (others ++ rest).head? = some '/'
  · -- A slash before another one begins a comment.
    rcases hComment with ⟨rfl, hHead⟩
    have hNil : others = [] := by
      simpa using hSlash List.mem_cons_self
    subst hNil
    cases rest with
    | nil => simp at hHead
    | cons d rest =>
        have hSame : d = '/' := by simpa using hHead
        subst hSame
        refine
          ⟨'/' :: rest.takeWhile (· ≠ '\n'), .blank, ?_, trivial,
            ?_⟩
        · exact recognize_comment
        · intro hRest
          cases hRest
  · rw [recognize_other hOther hComment]
    have hPrefix : c :: others <+: c :: (others ++ rest) :=
      List.prefix_append (c :: others) rest
    rcases operatorAt?_longest hOperator hPrefix with
      ⟨found, kind', hFound, _, hText, hLength⟩
    rcases List.prefix_of_prefix_length_le hPrefix hText hLength
      with ⟨more, hMore⟩
    subst hMore
    refine ⟨more, .token kind' .nil, ?_, trivial, ?_⟩
    · rw [hFound]
      rfl
    · intro hRest
      rw [hRest, List.append_nil, hSelf] at hFound
      have hKind := congrArg Prod.snd (Option.some.inj hFound)
      exact congrArg (Piece.token · .nil) hKind.symm

theorem Piece.Spelled.recognizedFirst
    {piece : Piece}
    {others : List Char}
    (hSpelled : piece.Spelled (c :: others)) :
    RecognizedFirst piece c others := by
  generalize hText : c :: others = text at hSpelled
  cases hSpelled with
  | space hSpace =>
      cases hText
      intro rest
      refine ⟨[], .blank, ?_, trivial, fun _ => rfl⟩
      exact recognize_blank (.inl ((isSpace_iff c).mpr hSpace))
  | newline =>
      cases hText
      intro rest
      refine ⟨[], .blank, ?_, trivial, fun _ => rfl⟩
      exact recognize_blank (.inr rfl)
  | comment hBody =>
      cases hText
      exact recognizedFirst_comment hBody
  | string hBody =>
      cases hText
      exact recognizedFirst_string hBody
  | integer hWhole =>
      subst hText
      exact recognizedFirst_integer hWhole.2
  | @fraction whole fraction hWhole hFraction =>
      cases whole with
      | nil => exact absurd rfl hWhole.1
      | cons d whole =>
          cases hText
          exact recognizedFirst_fraction hWhole.2 hFraction
  | keyword hKeyword =>
      subst hText
      rcases keyword_spec hKeyword with ⟨⟨_, hLetters⟩, hKind⟩
      rw [← hKind]
      apply recognizedFirst_word (hLetters c List.mem_cons_self)
      intro d hMem
      exact .inl (hLetters d (List.mem_cons_of_mem c hMem))
  | identifier hFirst hOthers hNew =>
      cases hText
      rw [← wordKind_of_new hNew]
      exact recognizedFirst_word hFirst hOthers
  | operator hOperator =>
      subst hText
      exact recognizedFirst_operator hOperator

end Lox

------------------------------------------------------------
-- What Is Recognized Is Spelled
------------------------------------------------------------

namespace Lox

/-
  How a text is recognized: as a piece that some of it spells,
  or because it does not begin with any piece. A quote that is
  not closed takes everything with it, another character only
  itself.
-/
inductive Recognition : List Char → List Char × Piece → Prop where
  | found
      {piece : Piece} {spelling more : List Char}
      (hLongest : piece.IsLongest spelling more) :
      Recognition (spelling ++ more) (spelling, piece)
  | unexpected
      {c : Char} {rest : List Char}
      (hNone : NoPiece (c :: rest))
      (hChar : c ≠ '"') :
      Recognition (c :: rest) ([c], .unexpected c)
  | unterminated
      {rest : List Char}
      (hNone : NoPiece ('"' :: rest)) :
      Recognition ('"' :: rest) ('"' :: rest, .unterminated)

theorem Piece.Spelled.ne_nil
    {piece : Piece}
    {spelling : List Char}
    (hSpelled : piece.Spelled spelling) :
    spelling ≠ [] := by
  cases hSpelled with
  | integer hWhole => exact hWhole.1
  | keyword hKeyword => exact (keyword_spec hKeyword).1.1
  | operator hOperator => exact (operator_spec hOperator).1.1
  | _ => simp

/-
  Where a text begins with a spelling, a piece at least as
  long is recognized.
-/
theorem recognize_of_begins
    {piece : Piece}
    {spelling : List Char}
    (hSpelled : piece.Spelled spelling)
    (hPrefix : spelling <+: c :: rest) :
    (recognize c rest).2.IsFound ∧
      spelling.length ≤ (recognize c rest).1.length := by
  cases spelling with
  | nil => exact absurd rfl hSpelled.ne_nil
  | cons d others =>
      rcases hPrefix with ⟨after, hText⟩
      cases hText
      rcases hSpelled.recognizedFirst after with
        ⟨more, found, hFound, hIs, _⟩
      rw [List.append_eq, hFound]
      refine ⟨hIs, ?_⟩
      simp

theorem noPiece_of_not_found
    (hFound : ¬ (recognize c rest).2.IsFound) :
    NoPiece (c :: rest) := by
  intro piece spelling hSpelled hPrefix
  exact hFound (recognize_of_begins hSpelled hPrefix).1

/- What is recognized, as a split of the text it begins. -/
def SpelledFirst (c : Char) (rest : List Char) : Prop :=
  (recognize c rest).2.Spelled (recognize c rest).1 ∧
    (recognize c rest).1 <+: c :: rest

theorem recognition_of_spelled
    (hFirst : SpelledFirst c rest) :
    Recognition (c :: rest) (recognize c rest) := by
  rcases hFirst with ⟨hSpelled, more, hText⟩
  rw [← hText]
  apply Recognition.found
  refine ⟨hSpelled, ?_⟩
  intro other longer hOther hPrefix
  rw [hText] at hPrefix
  exact (recognize_of_begins hOther hPrefix).2

theorem all_of_takeWhile
    (p : Char → Bool)
    (text : List Char) :
    ∀ d ∈ text.takeWhile p, p d = true := by
  intro d hMem
  exact List.mem_takeWhile_imp hMem

theorem not_mem_takeWhile_ne
    (c : Char)
    (text : List Char) :
    c ∉ text.takeWhile (· ≠ c) := by
  intro hMem
  simpa using all_of_takeWhile (· ≠ c) text c hMem

theorem spelledFirst_digit (hDigit : IsDigit c) :
    SpelledFirst c rest := by
  let text := c :: rest
  let whole := text.takeWhile Decimal.isDigit
  have hWhole : whole ≠ [] ∧ ∀ d ∈ whole, IsDigit d := by
    constructor
    · simp [whole, text, hDigit]
    · intro d hMem
      exact (isDigit_iff d).mp (all_of_takeWhile _ _ d hMem)
  have hSplit : whole ++ text.dropWhile Decimal.isDigit = text :=
    List.takeWhile_append_dropWhile
  have hInteger :
      numeralAt text = (whole, []) → SpelledFirst c rest := by
    intro hParts
    unfold SpelledFirst
    rw [recognize_digit hDigit, hParts]
    exact ⟨.integer hWhole, List.takeWhile_prefix _⟩
  cases hRest : text.dropWhile Decimal.isDigit with
  | nil =>
      apply hInteger
      simp [numeralAt, hRest, whole]
  | cons d after =>
      let fraction := after.takeWhile Decimal.isDigit
      by_cases hPoint : d = '.'
      · subst hPoint
        have hParts : numeralAt text = (whole, fraction) := by
          simp [numeralAt, hRest, whole, fraction]
        by_cases hNone : fraction = []
        · apply hInteger
          rw [hParts, hNone]
        · have hFraction :
              fraction ≠ [] ∧ ∀ d ∈ fraction, IsDigit d := by
            refine ⟨hNone, ?_⟩
            intro d hMem
            exact
              (isDigit_iff d).mp (all_of_takeWhile _ _ d hMem)
          unfold SpelledFirst
          rw [recognize_digit hDigit, hParts]
          simp only [numeralText, List.isEmpty_iff, if_neg hNone]
          refine ⟨.fraction hWhole hFraction, ?_⟩
          have hPrefix : fraction <+: after :=
            List.takeWhile_prefix _
          show whole ++ '.' :: fraction <+: text
          rw [← hSplit, hRest]
          exact
            (List.prefix_append_right_inj whole).mpr
              (List.cons_prefix_cons.mpr ⟨rfl, hPrefix⟩)
      · apply hInteger
        unfold numeralAt
        rw [hRest]
        simp [hPoint, whole]

theorem spelledFirst_letter (hLetter : IsLetter c) :
    SpelledFirst c rest := by
  let others := rest.takeWhile isIdentifierChar
  have hOthers : ∀ d ∈ others, IsLetter d ∨ IsDigit d := by
    intro d hMem
    exact
      (isIdentifierChar_iff d).mp (all_of_takeWhile _ _ d hMem)
  unfold SpelledFirst
  rw [recognize_letter hLetter]
  constructor
  · by_cases hNew :
        ∀ kind, (c :: others, kind) ∉ Kind.keywords
    · show Piece.Spelled (.token (wordKind (c :: others)) .nil) _
      rw [wordKind_of_new hNew]
      exact .identifier hLetter hOthers hNew
    · rcases not_forall_not.mp hNew with ⟨kind, hKeyword⟩
      show Piece.Spelled (.token (wordKind (c :: others)) .nil) _
      rw [(keyword_spec hKeyword).2]
      exact .keyword hKeyword
  · exact
      List.cons_prefix_cons.mpr ⟨rfl, List.takeWhile_prefix _⟩

/- A string, or what is left where its quote is missing. -/
theorem recognition_quote :
    Recognition ('"' :: rest) (recognize '"' rest) := by
  let body := rest.takeWhile (· ≠ '"')
  have hBody : '"' ∉ body := not_mem_takeWhile_ne '"' rest
  have hSplit : body ++ rest.dropWhile (· ≠ '"') = rest :=
    List.takeWhile_append_dropWhile
  cases hAfter : rest.dropWhile (· ≠ '"') with
  | nil =>
      rw [hAfter, List.append_nil] at hSplit
      have hResult :
          recognize '"' rest = ('"' :: rest, .unterminated) := by
        rw [recognize_quote]
        exact stringAt_open (hSplit ▸ hBody)
      rw [hResult]
      apply Recognition.unterminated
      apply noPiece_of_not_found
      rw [hResult]
      exact id
  | cons d after =>
      have hQuote : d = '"' := by
        have hHead := List.head?_dropWhile_not (· ≠ '"') rest
        rw [hAfter] at hHead
        simpa using hHead
      subst hQuote
      rw [hAfter] at hSplit
      apply recognition_of_spelled
      unfold SpelledFirst
      rw [recognize_quote, ← hSplit, stringAt_closed hBody]
      refine ⟨.string hBody, after, ?_⟩
      simp

theorem recognition_other (hOther : IsOther c) :
    Recognition (c :: rest) (recognize c rest) := by
  by_cases hComment : c = '/' ∧ rest.head? = some '/'
  · rcases hComment with ⟨rfl, hHead⟩
    cases rest with
    | nil => cases hHead
    | cons d rest =>
        have hSame : d = '/' := by simpa using hHead
        subst hSame
        apply recognition_of_spelled
        unfold SpelledFirst
        rw [recognize_comment]
        refine ⟨.comment (not_mem_takeWhile_ne '\n' rest), ?_⟩
        simp [List.cons_prefix_cons, List.takeWhile_prefix]
  · have hResult := recognize_other hOther hComment
    cases hFind : operatorAt? (c :: rest) with
    | none =>
        rw [hFind] at hResult
        rw [hResult]
        apply Recognition.unexpected
        · apply noPiece_of_not_found
          rw [hResult]
          exact id
        · exact hOther.2.2.1
    | some entry =>
        rcases entry with ⟨spelling, kind⟩
        rw [hFind] at hResult
        apply recognition_of_spelled
        unfold SpelledFirst
        rw [hResult]
        have hPrefix := List.find?_some hFind
        exact
          ⟨.operator (List.mem_of_find?_eq_some hFind),
            List.isPrefixOf_iff_prefix.mp hPrefix⟩

theorem recognition
    (c : Char)
    (rest : List Char) :
    Recognition (c :: rest) (recognize c rest) := by
  by_cases hBlank : isSpace c = true ∨ c = '\n'
  · apply recognition_of_spelled
    unfold SpelledFirst
    rw [recognize_blank hBlank]
    refine ⟨?_, rest, rfl⟩
    rcases hBlank with hSpace | rfl
    · exact .space ((isSpace_iff c).mp hSpace)
    · exact .newline
  · by_cases hQuote : c = '"'
    · subst hQuote
      exact recognition_quote
    · by_cases hDigit : IsDigit c
      · exact recognition_of_spelled (spelledFirst_digit hDigit)
      · by_cases hLetter : IsLetter c
        · exact
            recognition_of_spelled (spelledFirst_letter hLetter)
        · apply recognition_other
          rcases not_or.mp hBlank with ⟨hSpace, hLine⟩
          exact ⟨hSpace, hLine, hQuote, hDigit, hLetter⟩

/- A spelling that is the longest one is what is recognized. -/
theorem recognize_of_isLongest
    {piece : Piece}
    {others : List Char}
    (hLongest : piece.IsLongest (c :: others) rest) :
    recognize c (others ++ rest) = (c :: others, piece) := by
  rcases hLongest.spelled.recognizedFirst rest with
    ⟨more, found, hResult, hFound, _⟩
  have hSplit := recognition c (others ++ rest)
  rw [hResult] at hSplit
  generalize hText : c :: (others ++ rest) = text at hSplit
  generalize hPair : (c :: (others ++ more), found) = pair
    at hSplit
  cases hSplit with
  | unexpected hNone hChar =>
      rw [show found = _ from congrArg Prod.snd hPair] at hFound
      exact hFound.elim
  | unterminated hNone =>
      rw [show found = _ from congrArg Prod.snd hPair] at hFound
      exact hFound.elim
  | @found piece' spelling after hOther =>
      cases hPair
      have hLength :=
        hLongest.longest found _ hOther.spelled
          ⟨after, hText.symm⟩
      have hMore : more = [] := by
        apply List.eq_nil_of_length_eq_zero
        simp only [List.length_cons, List.length_append] at hLength
        omega
      subst hMore
      rw [List.append_nil] at hResult hOther
      -- Alone, the text is recognized as what it spells.
      rcases hLongest.spelled.recognizedFirst [] with
        ⟨_, _, hSelf, _, hSame⟩
      rcases hOther.spelled.recognizedFirst [] with
        ⟨_, _, hSelf', _, hSame'⟩
      rw [hResult]
      rw [hSelf] at hSelf'
      have hPieces := congrArg Prod.snd hSelf'
      rw [← hSame rfl, ← hSame' rfl]
      exact congrArg (Prod.mk (c :: others)) hPieces.symm

end Lox

------------------------------------------------------------
-- Moving Over Pieces
------------------------------------------------------------

namespace Lox.Scanner

/- A scanner that has read one text and has another before it. -/
def after (before rest : List Char) : Scanner :=
  { rest
    pos := before.length
    line := Text.lineAfter before
    column := Text.columnAfter before }

theorem crossChar_after
    (before rest : List Char)
    (c : Char) :
    (after before (c :: rest)).crossChar c =
      after (before ++ [c]) rest := by
  by_cases hLine : c = '\n'
  · subst hLine
    simp [crossChar, newline, advance, after,
      Text.lineAfter_append, Text.columnAfter_newline]
  · simp [crossChar, advance, after, hLine,
      Text.lineAfter_char, Text.columnAfter_char]

theorem cross_after
    (before text rest : List Char) :
    (after before (text ++ rest)).cross text =
      after (before ++ text) rest := by
  induction text generalizing before with
  | nil => simp [cross]
  | cons c text ih =>
      have hStep :
          (after before (c :: (text ++ rest))).cross (c :: text) =
            ((after before (c :: (text ++ rest))).crossChar
              c).cross text := rfl
      rw [List.cons_append, hStep, crossChar_after, ih,
        List.append_assoc]
      rfl

theorem scanAll_nil
    (before : List Char)
    (tokens : Array Token)
    (errors : Array LexError) :
    (after before []).scanAll tokens errors =
      { tokens :=
          tokens.toList ++ [.after before .eof .nil []]
        errors := errors.toList
        final := after before [] } := by
  unfold scanAll
  rw [dif_pos (show (after before []).rest = [] from rfl),
    Array.toList_push]
  rfl

/- One step of the scanner, from what it has found. -/
theorem scanAll_cons
    (before rest : List Char)
    (c : Char)
    (tokens : Array Token)
    (errors : Array LexError) :
    let s := after before (c :: rest)
    s.scanAll tokens errors =
      match s.scan with
      | (.blank, next) => next.scanAll tokens errors
      | (.token t, next) => next.scanAll (tokens.push t) errors
      | (.error e, next) => next.scanAll tokens (errors.push e) := by
  intro s
  have hRest : s.rest ≠ [] := List.cons_ne_nil c rest
  rw [scanAll, dif_neg hRest]
  dsimp only
  generalize s.scan = step
  rcases step with ⟨found, next⟩
  cases found <;> rfl

/- What a piece that stands after a text is to a scanner. -/
def found
    (before spelling : List Char) :
    Piece → Scanned
  | .blank => .blank
  | .token kind literal =>
      .token (.after before kind literal spelling)
  | .unexpected c =>
      .error
        ⟨.unexpected (some c),
          Text.lineAfter (before ++ spelling)⟩
  | .unterminated =>
      .error
        ⟨.unterminated, Text.lineAfter (before ++ spelling)⟩

/- What the scanner finds where a text is recognized. -/
theorem scan_after
    (before spelling rest : List Char)
    {piece : Piece}
    {c : Char}
    {others : List Char}
    (hText : c :: others = spelling ++ rest)
    (hFound : recognize c others = (spelling, piece)) :
    (after before (spelling ++ rest)).scan =
      (found before spelling piece,
        after (before ++ spelling) rest) := by
  have hCross := cross_after before spelling rest
  have hRest :
      (after before (spelling ++ rest)).rest = c :: others :=
    hText.symm
  unfold scan
  rw [hRest]
  simp only [hFound, hCross]
  cases piece <;> rfl

end Lox.Scanner

------------------------------------------------------------
-- The Reference Scanner And Its Text
------------------------------------------------------------

namespace Lox

open Scanner

/- Every text is scanned in some way. -/
theorem exists_scans (before rest : List Char) :
    ∃ tokens errors, Scans before rest tokens errors := by
  induction hLength : rest.length using Nat.strong_induction_on
    generalizing before rest with
  | _ n ih =>
      cases rest with
      | nil => exact ⟨[], [], .done⟩
      | cons c rest =>
          have hSplit := recognition c rest
          generalize hText : c :: rest = text at hSplit
          generalize recognize c rest = result at hSplit
          cases hSplit with
          | @found piece spelling more hLongest =>
              have hPositive :=
                List.length_pos_iff.mpr hLongest.spelled.ne_nil
              have hShorter : more.length < n := by
                have hSame := congrArg List.length hText
                rw [List.length_append] at hSame
                omega
              rcases ih _ hShorter (before ++ spelling) more rfl with
                ⟨tokens, errors, hRest⟩
              have hFound := hLongest.spelled.isFound
              cases piece with
              | blank => exact ⟨_, _, .blank hLongest hRest⟩
              | token kind literal =>
                  exact ⟨_, _, .token hLongest hRest⟩
              | unexpected c => exact hFound.elim
              | unterminated => exact hFound.elim
          | @unexpected d more hNone hChar =>
              cases hText
              have hShorter : rest.length < n := by
                rw [← hLength]
                exact Nat.lt_succ_self _
              rcases ih _ hShorter (before ++ [c]) rest rfl with
                ⟨tokens, errors, hRest⟩
              exact ⟨_, _, .unexpected hNone hChar hRest⟩
          | unterminated hNone => exact ⟨_, _, .unterminated hNone⟩

/- Where a text is no piece, this is how it is recognized. -/
theorem recognize_of_noPiece
    {c : Char}
    {rest : List Char}
    (hNone : NoPiece (c :: rest)) :
    recognize c rest =
      if c = '"' then ('"' :: rest, .unterminated)
      else ([c], .unexpected c) := by
  have hSplit := recognition c rest
  generalize hText : c :: rest = text at hSplit
  generalize recognize c rest = result at hSplit ⊢
  cases hSplit with
  | @found piece spelling more hLongest =>
      rw [hText] at hNone
      exact
        absurd (List.prefix_append spelling more)
          (hNone piece spelling hLongest.spelled)
  | unexpected _ hChar =>
      cases hText
      rw [if_neg hChar]
  | unterminated _ =>
      cases hText
      rw [if_pos rfl]

/- The end of a line is a piece of its own. -/
theorem NoPiece.ne_newline
    {c : Char}
    {rest : List Char}
    (hNone : NoPiece (c :: rest)) :
    c ≠ '\n' := by
  intro hLine
  subst hLine
  exact hNone .blank ['\n'] .newline ⟨rest, rfl⟩

/-
  The scanner finds what the reference scanner does, by
  induction on the steps of the latter.
-/
theorem scanAll_of_scans
    {before rest : List Char}
    {tokens : List Token}
    {errors : List LexError}
    (hScans : Scans before rest tokens errors)
    (earlier : Array Token)
    (known : Array LexError) :
    (after before rest).scanAll earlier known =
      { tokens :=
          earlier.toList ++
            (tokens ++ [.after (before ++ rest) .eof .nil []])
        errors := known.toList ++ errors
        final := after (before ++ rest) [] } := by
  induction hScans generalizing earlier known with
  | done => simp [scanAll_nil]
  | @blank before spelling rest tokens errors hLongest _ ih =>
      cases spelling with
      | nil => exact absurd rfl hLongest.spelled.ne_nil
      | cons c others =>
          have hScan :=
            scan_after before (c :: others) rest rfl
              (recognize_of_isLongest hLongest)
          rw [List.cons_append] at hScan ⊢
          rw [scanAll_cons, hScan]
          simp only [found, ih]
          simp
  | @token before spelling rest kind literal tokens errors
      hLongest _ ih =>
      cases spelling with
      | nil => exact absurd rfl hLongest.spelled.ne_nil
      | cons c others =>
          have hScan :=
            scan_after before (c :: others) rest rfl
              (recognize_of_isLongest hLongest)
          rw [List.cons_append] at hScan ⊢
          rw [scanAll_cons, hScan]
          simp only [found, ih]
          simp
  | @unexpected before rest c tokens errors hNone hChar _ ih =>
      have hResult := recognize_of_noPiece hNone
      rw [if_neg hChar] at hResult
      have hScan := scan_after before [c] rest rfl hResult
      rw [List.cons_append, List.nil_append] at hScan
      rw [scanAll_cons, hScan]
      simp only [found, ih]
      simp [Text.lineAfter_char before hNone.ne_newline]
  | @unterminated before rest hNone =>
      have hResult := recognize_of_noPiece hNone
      rw [if_pos rfl] at hResult
      have hScan :=
        scan_after before ('"' :: rest) [] (by simp) hResult
      rw [List.append_nil] at hScan
      rw [scanAll_cons, hScan]
      simp only [found, scanAll_nil]
      simp

theorem tokenize_of_scans
    {text : String}
    {tokens : List Token}
    {errors : List LexError}
    (hScans : Scans [] text.toList tokens errors) :
    tokenize text =
      { tokens := tokens ++ [.after text.toList .eof .nil []]
        errors
        final := after text.toList [] } := by
  have hAll := scanAll_of_scans hScans #[] #[]
  have hStart : Scanner.ofText text = after [] text.toList := rfl
  unfold tokenize
  rw [hStart, hAll]
  simp

/- What a text is tokenized to is what is scanned. -/
theorem scans_tokenize (text : String) :
    ∃ tokens,
      (tokenize text).tokens =
        tokens ++ [.after text.toList .eof .nil []] ∧
      Scans [] text.toList tokens (tokenize text).errors := by
  rcases exists_scans [] text.toList with ⟨tokens, errors, hScans⟩
  rw [tokenize_of_scans hScans]
  exact ⟨tokens, rfl, hScans⟩

/-
  The tokens before the end and the errors of a text are those
  of the reference scanner, which takes the longest piece at
  every place, and they are the only ones it can give. Each
  error says what is wrong in these words.
-/
theorem tokenize_longestMatch
    (text : String)
    (tokens : List Token)
    (errors : List LexError) :
    (Scans [] text.toList tokens errors ↔
      (tokenize text).tokens =
          tokens ++ [.after text.toList .eof .nil []] ∧
        (tokenize text).errors = errors) ∧
    (∀ c line,
      LexError.message ⟨.unexpected (some c), line⟩ =
        "Unexpected character '" ++ c.toString ++ "'.") ∧
    ∀ line,
      LexError.message ⟨.unterminated, line⟩ =
        "Unterminated string." := by
  refine ⟨⟨?_, ?_⟩, ?_, ?_⟩
  · intro hScans
    rw [tokenize_of_scans hScans]
    exact ⟨rfl, rfl⟩
  · intro hResult
    rcases hResult with ⟨hTokens, rfl⟩
    rcases scans_tokenize text with ⟨found, hFound, hScans⟩
    rw [hTokens] at hFound
    rw [List.append_cancel_right hFound]
    exact hScans
  · intro c line
    rfl
  · intro line
    rfl

end Lox
