import Lox.Console.Prompt
import Lox.Proofs.Mirror.Trees
import Lox.Proofs.Token.Joining
import Lox.Text.Blank

/-
  Texts without their invisible characters.

  A text in which nothing is wrong has its invisible characters
  in strings, in comments and in the blank space between words.
  If there are none in strings, and no word runs together with
  what comes after it once they are gone, then the text without
  them has the same words on the same lines.

  Key definitions include:
    * `visible`
    * `Token.SameLine`
    * `Token.StandsClear`
    * `tokenize_visible`
    * `trim_normalize`
-/

------------------------------------------------------------
-- What Is Visible
------------------------------------------------------------

namespace Lox

open Console

/- The characters of a text that are not invisible. -/
def visible (text : List Char) : List Char :=
  text.filter (!isInvisible ·)

theorem toList_normalize (text : String) :
    (Console.normalize text).toList = visible text.toList := by
  simp [Console.normalize, visible]

theorem visible_append (text more : List Char) :
    visible (text ++ more) = visible text ++ visible more :=
  List.filter_append text more

theorem visible_cons
    {c : Char}
    (hChar : isInvisible c = false)
    (text : List Char) :
    visible (c :: text) = c :: visible text :=
  List.filter_cons_of_pos (by simp [hChar])

theorem visible_of_all
    {text : List Char}
    (hText : ∀ c ∈ text, isInvisible c = false) :
    visible text = text := by
  apply List.filter_eq_self.mpr
  intro c hMem
  simp [hText c hMem]

/- No line ends in what is removed. -/
theorem lineAfter_visible (before : List Char) :
    Text.lineAfter (visible before) = Text.lineAfter before := by
  have hBreak : isInvisible '\n' = false := by decide
  unfold Text.lineAfter visible
  rw [List.count_filter (by simp [hBreak])]

/- Two tokens are the same word on the same line. -/
structure Token.SameLine (t t' : Token) : Prop
    extends t.SameWord t' where
  line : t'.line = t.line

theorem Token.SameLine.refl (t : Token) : t.SameLine t :=
  ⟨⟨rfl, rfl, rfl⟩, rfl⟩

theorem Token.after_sameLine
    (before : List Char)
    (kind : Kind)
    (literal : Literal)
    (spelling : List Char) :
    (Token.after before kind literal spelling).SameLine
      (.after (Lox.visible before) kind literal spelling) := by
  refine ⟨⟨rfl, rfl, rfl⟩, ?_⟩
  unfold Token.after
  dsimp only
  rw [lineAfter_visible]

/-
  Where it stands, a word does not run together with what comes
  after it when the invisible characters are taken away.
-/
def Token.StandsClear (source : List Char) (t : Token) : Prop :=
  ∀ offset, t.StandsAt source offset →
    ∀ (piece : Piece) (more : List Char),
      piece.Spelled (t.lexeme.toList ++ more) →
        more <+: Lox.visible (source.drop (stopOf (t, offset))) →
          more = []

theorem Token.drop_stopOf
    (before spelling rest : List Char)
    (kind : Kind)
    (literal : Literal) :
    (before ++ (spelling ++ rest)).drop
        (stopOf
          (Token.after before kind literal spelling,
            before.length)) =
      rest := by
  unfold stopOf Token.after
  simp

end Lox

------------------------------------------------------------
-- Scanning What Is Visible
------------------------------------------------------------

namespace Lox

open Console

theorem visible_stop
    {rest : List Char}
    (hStop : rest = [] ∨ rest.head? = some '\n') :
    visible rest = [] ∨ (visible rest).head? = some '\n' := by
  rcases hStop with rfl | hLine
  · exact .inl rfl
  · cases rest with
    | nil => cases hLine
    | cons c rest =>
        cases hLine
        exact .inr rfl

/- A blank piece is blank when its invisible part is gone. -/
theorem Scans.visible_blank
    {before spelling rest : List Char}
    {tokens : List Token}
    {errors : List LexError}
    (hLongest : Piece.blank.IsLongest spelling rest)
    (hRest :
      Scans (visible before ++ visible spelling) (visible rest)
        tokens errors) :
    Scans (visible before) (visible spelling ++ visible rest)
      tokens errors := by
  generalize hPiece : Piece.blank = piece at hLongest
  have hSpelled := hLongest.spelled
  cases hSpelled with
  | @space c hSpace =>
      cases hChar : isInvisible c with
      | true =>
          have hNone : visible [c] = [] := by simp [visible, hChar]
          rw [hNone, List.append_nil] at hRest
          rw [hNone]
          exact hRest
      | false =>
          rw [visible_cons hChar] at hRest ⊢
          have hBlank := (isSpace_iff c).mpr hSpace
          exact .blank (blank_isLongest (.inl hBlank) _) hRest
  | newline => exact .blank (blank_isLongest (.inr rfl) _) hRest
  | @comment body hBody =>
      have hStop := visible_stop (hLongest.comment_stop hBody)
      have hNone : '\n' ∉ visible body :=
        fun hMem => hBody (List.mem_of_mem_filter hMem)
      exact .blank (comment_isLongest hNone hStop) hRest
  | _ => cases hPiece

/- A word that stands clear is a word when all is visible. -/
theorem Piece.IsLongest.visible
    {before spelling rest : List Char}
    {kind : Kind}
    {literal : Literal}
    (hLongest : (Piece.token kind literal).IsLongest spelling rest)
    (hClear :
      (Token.after before kind literal spelling).StandsClear
        (before ++ (spelling ++ rest))) :
    (Piece.token kind literal).IsLongest spelling
      (Lox.visible rest) := by
  refine ⟨hLongest.spelled, ?_⟩
  intro other longer hOther hPrefix
  have hSelf : spelling <+: spelling ++ Lox.visible rest :=
    List.prefix_append _ _
  rcases List.prefix_or_prefix_of_prefix hPrefix hSelf with
    hShort | ⟨more, rfl⟩
  · exact hShort.length_le
  · have hMore : more <+: Lox.visible rest :=
      (List.prefix_append_right_inj spelling).mp hPrefix
    have hStands :=
      Token.after_standsAt before spelling rest kind literal
    have hNone : more = [] := by
      apply hClear before.length hStands other more
      · simpa [Token.after] using hOther
      · rw [Token.drop_stopOf]
        exact hMore
    rw [hNone, List.append_nil]

/-
  A text in which nothing is wrong, scanned with and without its
  invisible characters, by induction on the first scan.
-/
theorem Scans.visible
    {before rest : List Char}
    {tokens : List Token}
    (hScans : Scans before rest tokens [])
    (hShown :
      ∀ t ∈ tokens,
        ∀ c ∈ t.lexeme.toList, isInvisible c = false)
    (hClear : ∀ t ∈ tokens, t.StandsClear (before ++ rest)) :
    ∃ found,
      Scans (Lox.visible before) (Lox.visible rest) found [] ∧
        List.Forall₂ Token.SameLine tokens found := by
  generalize hErrors : ([] : List LexError) = errors at hScans
  induction hScans with
  | done => exact ⟨[], .done, .nil⟩
  | @blank before spelling rest tokens errors hLongest _ ih =>
      rw [List.append_assoc] at ih
      rcases ih hShown hClear hErrors with ⟨found, hFound, hSame⟩
      rw [visible_append] at hFound ⊢
      exact ⟨found, visible_blank hLongest hFound, hSame⟩
  | @token before spelling rest kind literal tokens errors
      hLongest _ ih =>
      rcases List.forall_mem_cons.mp hShown with
        ⟨hSpelling, hOthers⟩
      rcases List.forall_mem_cons.mp hClear with
        ⟨hHere, hLater⟩
      rw [List.append_assoc] at ih
      rcases ih hOthers hLater hErrors with ⟨found, hFound, hSame⟩
      have hSelf : Lox.visible spelling = spelling := by
        apply visible_of_all
        simpa [Token.after] using hSpelling
      rw [visible_append, hSelf] at hFound ⊢
      exact
        ⟨_, .token (hLongest.visible hHere) hFound,
          .cons (Token.after_sameLine before kind literal spelling)
            hSame⟩
  | unexpected | unterminated => cases hErrors

end Lox

------------------------------------------------------------
-- Tokens Of What Is Visible
------------------------------------------------------------

namespace Lox

open Console

/-
  Without the invisible characters the same words stand on the
  same lines, and nothing is wrong there either.
-/
theorem tokenize_visible
    {text : String}
    (hErrors : (tokenize text).errors = [])
    (hShown :
      ∀ t ∈ wordsOf text,
        ∀ c ∈ t.lexeme.toList, isInvisible c = false)
    (hClear : ∀ t ∈ wordsOf text, t.StandsClear text.toList) :
    (tokenize (Console.normalize text)).errors = [] ∧
      List.Forall₂ Token.SameLine (tokenize text).tokens
        (tokenize (Console.normalize text)).tokens := by
  have hScans := scans_wordsOf text
  rw [hErrors] at hScans
  rcases hScans.visible hShown hClear with ⟨found, hFound, hSame⟩
  have hNew : Scans [] (Console.normalize text).toList found [] := by
    rw [toList_normalize]
    exact hFound
  rw [tokenize_of_scans hNew, tokens_eq text, toList_normalize]
  refine ⟨rfl, List.rel_append hSame ?_⟩
  exact .cons (Token.after_sameLine _ _ _ _) .nil

end Lox

------------------------------------------------------------
-- Words That Stand Clear
------------------------------------------------------------

namespace Lox

open Console

/- What follows a place is empty if it leads to the same place. -/
theorem Text.eq_nil_of_place
    {before more : List Char}
    (hLine : lineAfter (before ++ more) = lineAfter before)
    (hColumn : columnAfter (before ++ more) = columnAfter before) :
    more = [] := by
  have hNone : '\n' ∉ more.reverse := by
    rw [lineAfter_append] at hLine
    rw [List.mem_reverse]
    exact List.count_eq_zero.mp (by omega)
  unfold columnAfter at hColumn
  rw [List.reverse_append,
    List.takeWhile_append_of_pos (all_ne_of_not_mem hNone),
    List.length_append, List.length_reverse] at hColumn
  exact List.eq_nil_of_length_eq_zero (by omega)

namespace Token

variable {source : List Char} {t : Token} {offset other : Nat}

theorem StandsAt.offset_le
    (hStands : t.StandsAt source offset)
    (hOther : t.StandsAt source other)
    (hInside : offset ≤ source.length) :
    offset ≤ other := by
  by_contra hAfter
  let more := (source.take offset).drop other
  have hSplit : source.take offset = source.take other ++ more := by
    have hTake :
        (source.take offset).take other = source.take other := by
      rw [List.take_take, Nat.min_eq_left (by omega)]
    rw [← hTake]
    exact (List.take_append_drop other _).symm
  have hLine :=
    Int.ofNat.inj (hStands.line.symm.trans hOther.line)
  have hColumn :=
    Int.ofNat.inj (hStands.column.symm.trans hOther.column)
  rw [hSplit] at hLine hColumn
  have hLength :=
    congrArg List.length (Text.eq_nil_of_place hLine hColumn)
  simp only [more, List.length_drop, List.length_take,
    List.length_nil] at hLength
  omega

/- A word stands in one place of a text at most. -/
theorem StandsAt.offset_eq
    (hStands : t.StandsAt source offset)
    (hOther : t.StandsAt source other)
    (hInside : offset ≤ source.length)
    (hSome : t.lexeme.toList ≠ []) :
    other = offset := by
  have hWithin : other ≤ source.length := by
    by_contra hOutside
    apply hSome
    rw [hOther.slice, List.drop_eq_nil_of_le (by omega),
      List.take_nil]
  exact
    Nat.le_antisymm (hOther.offset_le hStands hWithin)
      (hStands.offset_le hOther hInside)

/-
  A word stands clear if no more than it is recognized where it
  stands, without the invisible characters behind it.
-/
theorem standsClear_of_recognize
    {c : Char}
    {others : List Char}
    (hStands : t.StandsAt source offset)
    (hInside : offset ≤ source.length)
    (hLexeme : t.lexeme.toList = c :: others)
    (hFound :
      let later := source.drop (stopOf (t, offset))
      (recognize c (others ++ Lox.visible later)).1.length ≤
        t.lexeme.length) :
    t.StandsClear source := by
  intro place hPlace piece more hSpelled hMore
  have hSome : t.lexeme.toList ≠ [] := by simp [hLexeme]
  rw [hStands.offset_eq hPlace hInside hSome] at hMore
  rw [hLexeme] at hSpelled
  have hPrefix :=
    (List.prefix_append_right_inj (c :: others)).mpr hMore
  have hLength := (recognize_of_begins hSpelled hPrefix).2
  have hSize := congrArg List.length hLexeme
  rw [String.length_toList] at hSize
  rw [List.length_append, ← hSize, List.append_eq] at hLength
  exact List.eq_nil_of_length_eq_zero (by omega)

end Token

end Lox

------------------------------------------------------------
-- What A Text Begins With
------------------------------------------------------------

namespace Lox

open Console

/- What a word can begin with is seen, and is not blank. -/
def IsShown (c : Char) : Prop :=
  isInvisible c = false ∧ Text.isBlank c = false

instance : DecidablePred IsShown :=
  fun c =>
    inferInstanceAs
      (Decidable (isInvisible c = false ∧ Text.isBlank c = false))

/- The printable characters of the smallest alphabet are seen. -/
theorem isShown_of_graphic
    {c : Char}
    (hLow : 0x21 ≤ c.toNat)
    (hHigh : c.toNat ≤ 0x7E) :
    IsShown c := by
  constructor
  · apply Bool.eq_false_iff.mpr
    intro hSome
    simp only [isInvisible, List.contains_iff_mem, List.mem_cons,
      List.not_mem_nil, or_false] at hSome
    rcases hSome with rfl | rfl | rfl | rfl | rfl | rfl
    all_goals revert hLow hHigh; decide
  · simp only [Text.isBlank, Text.blankRanges, List.any_cons,
      List.any_nil, Bool.or_false, Bool.or_eq_false_iff,
      Bool.and_eq_false_iff, decide_eq_false_iff_not]
    omega

theorem IsLetter.isShown
    {c : Char}
    (hLetter : IsLetter c) :
    IsShown c := by
  rcases hLetter with rfl | ⟨hLow, hHigh⟩ | ⟨hLow, hHigh⟩
  · decide
  · have hLow' : 97 ≤ c.toNat := hLow
    have hHigh' : c.toNat ≤ 122 := hHigh
    exact isShown_of_graphic (by omega) (by omega)
  · have hLow' : 65 ≤ c.toNat := hLow
    have hHigh' : c.toNat ≤ 90 := hHigh
    exact isShown_of_graphic (by omega) (by omega)

theorem IsDigit.isShown
    {c : Char}
    (hDigit : IsDigit c) :
    IsShown c := by
  have hLow : 48 ≤ c.toNat := hDigit.1
  have hHigh : c.toNat ≤ 57 := hDigit.2
  exact isShown_of_graphic (by omega) (by omega)

theorem Piece.Spelled.head_isShown
    {kind : Kind}
    {literal : Literal}
    {c : Char}
    {others : List Char}
    (hSpelled : (Piece.token kind literal).Spelled (c :: others)) :
    IsShown c := by
  generalize hText : c :: others = text at hSpelled
  cases hSpelled with
  | string hBody =>
      cases hText
      decide
  | integer hWhole =>
      subst hText
      exact (hWhole.2 c List.mem_cons_self).isShown
  | @fraction whole fraction hWhole hFraction =>
      cases whole with
      | nil => exact absurd rfl hWhole.1
      | cons d whole =>
          cases hText
          exact (hWhole.2 _ List.mem_cons_self).isShown
  | keyword hKeyword =>
      subst hText
      have hLetters := (keyword_spec hKeyword).1.2
      exact (hLetters c List.mem_cons_self).isShown
  | identifier hFirst =>
      cases hText
      exact hFirst.isShown
  | operator hOperator =>
      have hMarks :
          Kind.operators.all fun entry =>
            entry.1.all fun c => decide (IsShown c) := by
        decide
      have hMark := List.all_eq_true.mp hMarks _ hOperator
      exact
        of_decide_eq_true
          (List.all_eq_true.mp hMark c
            (hText ▸ List.mem_cons_self))

/-
  A text in which nothing is wrong is blank up to a character
  that is seen, if there is one.
-/
theorem Scans.exists_first
    {before rest : List Char}
    {tokens : List Token}
    (hScans : Scans before rest tokens []) :
    ∃ blanks more,
      rest = blanks ++ more ∧
        (∀ c ∈ blanks, isSpace c = true ∨ c = '\n') ∧
          ∀ c ∈ more.head?, IsShown c := by
  generalize hErrors : ([] : List LexError) = errors at hScans
  induction hScans with
  | done => exact ⟨[], [], rfl, by simp, by simp⟩
  | @blank before spelling rest tokens errors hLongest _ ih =>
      have hSpelled := hLongest.spelled
      generalize hPiece : Piece.blank = piece at hSpelled
      rcases ih hErrors with ⟨blanks, more, rfl, hBlanks, hFirst⟩
      cases hSpelled with
      | @space c hSpace =>
          have hChar := (isSpace_iff c).mpr hSpace
          exact
            ⟨c :: blanks, more, rfl,
              List.forall_mem_cons.mpr ⟨.inl hChar, hBlanks⟩,
              hFirst⟩
      | newline =>
          exact
            ⟨'\n' :: blanks, more, rfl,
              List.forall_mem_cons.mpr ⟨.inr rfl, hBlanks⟩,
              hFirst⟩
      | comment hBody =>
          refine ⟨[], _, rfl, by simp, ?_⟩
          rintro c ⟨⟩
          decide
      | _ => cases hPiece
  | @token before spelling rest kind literal tokens errors hLongest =>
      refine ⟨[], _, rfl, by simp, ?_⟩
      cases spelling with
      | nil => exact absurd rfl hLongest.spelled.ne_nil
      | cons c others =>
          rintro _ ⟨⟩
          exact hLongest.spelled.head_isShown
  | unexpected | unterminated => cases hErrors

/- There is no word in a text of blanks. -/
theorem Scans.eq_nil_of_isBlank
    {before rest : List Char}
    {tokens : List Token}
    (hScans : Scans before rest tokens [])
    (hBlank : ∀ c ∈ rest, Text.isBlank c = true) :
    tokens = [] := by
  generalize hErrors : ([] : List LexError) = errors at hScans
  induction hScans with
  | done => rfl
  | blank _ _ ih =>
      exact ih (fun c hMem =>
        hBlank c (List.mem_append_right _ hMem)) hErrors
  | @token before spelling rest kind literal tokens errors hLongest =>
      cases spelling with
      | nil => exact absurd rfl hLongest.spelled.ne_nil
      | cons c others =>
          have hSeen := hLongest.spelled.head_isShown.2
          rw [hBlank c List.mem_cons_self] at hSeen
          cases hSeen
  | unexpected | unterminated => cases hErrors

end Lox

namespace Lox.Text

open Console

theorem isBlank_of_isSpace
    {c : Char}
    (hSpace : isSpace c = true ∨ c = '\n') :
    isBlank c = true := by
  rw [isSpace_iff] at hSpace
  rcases hSpace with (rfl | rfl | rfl) | rfl <;> decide

/- Trimming leaves a text at its first character that is seen. -/
theorem head?_trim
    {blanks more : List Char}
    (hBlanks : ∀ c ∈ blanks, isBlank c = true)
    (hFirst : ∀ c ∈ more.head?, isBlank c = false) :
    (trim (blanks ++ more)).head? = more.head? := by
  have hDrop : dropBlanks (blanks ++ more) = more := by
    unfold dropBlanks
    rw [List.dropWhile_append_of_pos hBlanks]
    cases more with
    | nil => rfl
    | cons c more =>
        exact List.dropWhile_cons_of_neg (by simp [hFirst c rfl])
  unfold trim
  rw [hDrop]
  cases more with
  | nil => rfl
  | cons c more =>
      unfold dropBlanksRight dropBlanks
      have hStop : [c].dropWhile isBlank = [c] :=
        List.dropWhile_cons_of_neg (by simp [hFirst c rfl])
      rw [List.reverse_cons, List.dropWhile_append, hStop]
      split <;> simp

/-
  In a text that begins, its blanks apart, with what is seen,
  the invisible characters stand behind that.
-/
theorem trim_visible
    {blanks more : List Char}
    (hBlanks : ∀ c ∈ blanks, isBlank c = true)
    (hFirst : ∀ c ∈ more.head?, IsShown c) :
    (trim (visible (blanks ++ more))).head? =
        (trim (blanks ++ more)).head? ∧
      isAllBlank (visible (blanks ++ more)) =
        isAllBlank (blanks ++ more) := by
  have hHead : (visible more).head? = more.head? := by
    cases more with
    | nil => rfl
    | cons c more => rw [visible_cons (hFirst c rfl).1]; rfl
  have hSeen : ∀ c ∈ more.head?, isBlank c = false :=
    fun c hMem => (hFirst c hMem).2
  have hKept : ∀ c ∈ visible blanks, isBlank c = true :=
    fun c hMem => hBlanks c (List.mem_of_mem_filter hMem)
  rw [visible_append]
  constructor
  · rw [head?_trim hBlanks hSeen,
      head?_trim hKept (hHead ▸ hSeen), hHead]
  · unfold isAllBlank
    rw [List.all_append, List.all_append,
      List.all_eq_true.mpr hKept, List.all_eq_true.mpr hBlanks]
    cases more with
    | nil => rfl
    | cons c more =>
        rw [visible_cons (hFirst c rfl).1]
        simp [(hFirst c rfl).2]

end Lox.Text

namespace Lox

open Console

/-
  A text in which nothing is wrong is blank, or begins with a
  slash, just if it is or does so without its invisible
  characters.
-/
theorem trim_normalize
    {text : String}
    (hErrors : (tokenize text).errors = []) :
    (Text.trim (Console.normalize text).toList).head? =
        (Text.trim text.toList).head? ∧
      Text.isAllBlank (Console.normalize text).toList =
        Text.isAllBlank text.toList := by
  have hScans := scans_wordsOf text
  rw [hErrors] at hScans
  rcases hScans.exists_first with
    ⟨blanks, more, hText, hBlanks, hFirst⟩
  rw [toList_normalize, hText]
  exact
    Text.trim_visible
      (fun c hMem => Text.isBlank_of_isSpace (hBlanks c hMem)) hFirst

end Lox
