import Lox.Console.Highlight
import Lox.Proofs.Token.Joining

/-
  A line in colour is the line.

  On a line, a token's column is its offset, so the tokens are
  shown where they stand, each after the gap that it leaves to
  the one before it. No gap loses a character, whatever it is
  split into, so the spans of a line have all of its text, and
  the lines of a document all of the document.

  Key definitions include:
    * `textOf`
    * `shownGap`
    * `spansFrom_token`
    * `highlightLine_eq`
    * `highlight_keeps_text`
-/

------------------------------------------------------------
-- Gaps
------------------------------------------------------------

namespace Lox.Console

/- The text that some spans show. -/
def textOf (spans : List Span) : List Char :=
  spans.flatMap Span.text

@[simp] theorem textOf_nil : textOf [] = [] := rfl

@[simp] theorem textOf_cons (span : Span) (spans : List Span) :
    textOf (span :: spans) = span.text ++ textOf spans := rfl

@[simp] theorem textOf_append (spans others : List Span) :
    textOf (spans ++ others) = textOf spans ++ textOf others :=
  List.flatMap_append

/- What comes before two slashes is the beginning of a text. -/
theorem isPrefix_of_beforeSlashes?
    {text before : List Char}
    (hSlashes : beforeSlashes? text = some before) :
    before <+: text := by
  induction text generalizing before with
  | nil => cases hSlashes
  | cons c text ih =>
      unfold beforeSlashes? at hSlashes
      split at hSlashes
      · cases hSlashes
        exact List.nil_prefix
      · rcases Option.map_eq_some_iff.mp hSlashes with
          ⟨inner, hInner, rfl⟩
        exact List.cons_prefix_cons.mpr ⟨rfl, ih hInner⟩

/- Whatever a gap is split into, all of it is shown. -/
theorem textOf_gapSpans (gap : List Char) :
    textOf (gapSpans gap) = gap := by
  unfold gapSpans
  split
  · rename_i before hSlashes
    rcases isPrefix_of_beforeSlashes? hSlashes with ⟨after, rfl⟩
    dsimp only
    split
    · rename_i hEmpty
      rw [List.isEmpty_iff] at hEmpty
      subst hEmpty
      simp
    · simp [Span.plain]
  · split
    · simp [Span.plain]
    · split <;> simp

/- The spans of a gap, of which an empty one has none. -/
def shownGap (gap : List Char) : List Span :=
  if gap.isEmpty then [] else gapSpans gap

theorem textOf_shownGap (gap : List Char) :
    textOf (shownGap gap) = gap := by
  unfold shownGap
  split
  · rename_i hEmpty
    exact (List.isEmpty_iff.mp hEmpty).symm
  · exact textOf_gapSpans gap

end Lox.Console

------------------------------------------------------------
-- Tokens Of A Line
------------------------------------------------------------

namespace Lox.Console

/- Where no line has ended, the column is one past the offset. -/
theorem columnAfter_of_line
    {before : List Char}
    (hLine : '\n' ∉ before) :
    Text.columnAfter before = 1 + before.length := by
  have hAll : ∀ c ∈ before.reverse, decide (c ≠ '\n') = true := by
    intro c hMem
    exact all_ne_of_not_mem hLine c (List.mem_reverse.mp hMem)
  unfold Text.columnAfter
  rw [List.takeWhile_eq_self_iff.mpr hAll, List.length_reverse]

/-
  A token of a line is shown after the gap between it and the
  text already shown.
-/
theorem spansFrom_token
    {shown gap spelling rest : List Char}
    {kind : Kind}
    {literal : Literal}
    {previous : Option Token}
    {tokens : List Token}
    (hLine : '\n' ∉ shown ++ gap) :
    let t := Token.after (shown ++ gap) kind literal spelling
    spansFrom (groupsFrom previous (t :: tokens)) shown.length
        (gap ++ (spelling ++ rest)) =
      shownGap gap ++
        ⟨(groupOf previous t tokens.head?).style, spelling⟩ ::
          spansFrom (groupsFrom (some t) tokens)
            (shown ++ gap ++ spelling).length rest := by
  intro t
  have hStart :
      (t.column - 1).toNat = shown.length + gap.length := by
    show ((Text.columnAfter (shown ++ gap) : Int) - 1).toNat = _
    rw [columnAfter_of_line hLine, List.length_append]
    omega
  have hLexeme : t.lexeme.toList = spelling := by
    simp [t, Token.after]
  have hGap :
      (if shown.length < shown.length + gap.length then
          gapSpans gap else []) =
        shownGap gap := by
    unfold shownGap
    cases gap <;> simp
  have hRest :
      (gap ++ (spelling ++ rest)).drop
          (gap.length + spelling.length) =
        rest := by
    rw [← List.append_assoc, ← List.length_append]
    exact List.drop_left
  simp only [groupsFrom, spansFrom, hStart, hLexeme]
  rw [if_neg (by omega), Nat.add_sub_cancel_left, List.take_left,
    hGap, hRest]
  simp only [List.length_append]

end Lox.Console

------------------------------------------------------------
-- Lines
------------------------------------------------------------

namespace Lox

open Console

/-
  What is shown of a line is what has been passed since the
  last token and what is left, by induction on the steps of
  the reference scanner.
-/
theorem Scans.textOf_spans
    {before rest : List Char}
    {tokens : List Token}
    {errors : List LexError}
    (hScans : Scans before rest tokens errors)
    {shown gap : List Char}
    (hBefore : before = shown ++ gap)
    (hLine : '\n' ∉ before ++ rest)
    (previous : Option Token) :
    textOf
        (spansFrom (groupsFrom previous tokens) shown.length
          (gap ++ rest)) =
      gap ++ rest := by
  induction hScans generalizing shown gap previous with
  | done => exact textOf_shownGap _
  | blank _ _ ih =>
      rw [← List.append_assoc] at hLine ⊢
      rw [hBefore, List.append_assoc shown] at ih hLine
      exact ih rfl hLine previous
  | @token before spelling rest kind literal tokens errors _ _ ih =>
      subst hBefore
      rw [← List.append_assoc] at hLine
      have hBefore : '\n' ∉ shown ++ gap := by
        intro hMem
        exact
          hLine
            (List.mem_append_left _ (List.mem_append_left _ hMem))
      have hRest :=
        @ih (shown ++ gap ++ spelling) [] (by simp) hLine
      rw [spansFrom_token hBefore, textOf_append, textOf_shownGap,
        textOf_cons]
      simp only [List.nil_append] at hRest
      rw [hRest]
  | @unexpected before rest c tokens errors _ _ _ ih =>
      rw [List.append_cons] at hLine ⊢
      rw [hBefore, List.append_assoc shown] at ih hLine
      exact ih rfl hLine previous
  | unterminated _ => exact textOf_shownGap _

/- The tokens of a text that are not its end. -/
theorem filter_tokens (text : String) :
    (tokenize text).tokens.filter (·.kind ≠ .eof) =
      wordsOf text := by
  have hWords :
      (wordsOf text).filter (·.kind ≠ .eof) = wordsOf text := by
    apply List.filter_eq_self.mpr
    intro t hMem
    simpa using (scans_wordsOf text).kind_ne_eof t hMem
  rw [tokens_eq text, List.filter_append, hWords]
  simp [Token.after]

namespace Console

/- The spans of the text's words show it whole. -/
theorem textOf_spansFrom
    {text : String}
    (hLine : '\n' ∉ text.toList) :
    textOf (spansFrom (groups (wordsOf text)) 0 text.toList) =
      text.toList :=
  (scans_wordsOf text).textOf_spans
    (show [] = [] ++ [] from rfl) hLine none

/-
  A line is shown as the spans of its words; where there are
  none, the line is empty.
-/
theorem highlightLine_eq
    {text : String}
    {spans : List Span}
    (hLine : '\n' ∉ text.toList)
    (hSpans :
      spansFrom (groups (wordsOf text)) 0 text.toList = spans) :
    highlightLine text =
      if spans.isEmpty then [.plain []] else spans := by
  have hText := textOf_spansFrom hLine
  unfold highlightLine
  simp only [filter_tokens, hSpans]
  split
  · rename_i hNone
    rw [hSpans, List.isEmpty_iff.mp hNone, textOf_nil] at hText
    rw [hText]
  · rfl

theorem textOf_highlightLine
    {text : String}
    (hLine : '\n' ∉ text.toList) :
    textOf (highlightLine text) = text.toList := by
  have hText := textOf_spansFrom hLine
  rw [highlightLine_eq hLine rfl]
  split
  · rename_i hNone
    rw [List.isEmpty_iff.mp hNone] at hText
    exact hText
  · exact hText

end Console

end Lox

------------------------------------------------------------
-- Documents
------------------------------------------------------------

namespace Lox.Console

/- What a list is split at is in none of the parts. -/
theorem not_mem_of_mem_splitOn
    {stop : Char}
    {text part : List Char}
    (hPart : part ∈ text.splitOn stop) :
    stop ∉ part := by
  induction text generalizing part with
  | nil =>
      rw [List.splitOn_nil, List.mem_singleton] at hPart
      simp [hPart]
  | cons c text ih =>
      rw [List.splitOn_cons_eq_if_modifyHead] at hPart
      split at hPart
      · rcases List.mem_cons.mp hPart with rfl | hLater
        · simp
        · exact ih hLater
      · rename_i hChar
        cases hSplit : text.splitOn stop with
        | nil => exact absurd hSplit (List.splitOn_ne_nil stop text)
        | cons first others =>
            rw [hSplit] at hPart ih
            rcases List.mem_cons.mp hPart with rfl | hLater
            · have hFirst := ih List.mem_cons_self
              simp only [List.mem_cons, not_or]
              exact ⟨fun hSame => hChar (by simp [hSame]), hFirst⟩
            · exact ih (List.mem_cons_of_mem _ hLater)

/- No line of a document has the end of one in it. -/
theorem not_mem_of_mem_documentLines
    {text line : String}
    (hMem : line ∈ documentLines text) :
    '\n' ∉ line.toList := by
  rcases List.mem_map.mp hMem with ⟨chars, hChars, rfl⟩
  rw [String.toList_ofList]
  exact not_mem_of_mem_splitOn hChars

/- The lines of a document, with ends between them, are all of it. -/
theorem intercalate_documentLines (text : String) :
    ['\n'].intercalate ((documentLines text).map String.toList) =
      text.toList := by
  unfold documentLines
  rw [List.map_map]
  have hSame : String.toList ∘ String.ofList = id :=
    funext fun _ => String.toList_ofList
  rw [hSame, List.map_id, List.intercalate_splitOn]

/-
  A line is shown unchanged: its spans, one after another, are
  exactly its text. So a document is shown unchanged: each of
  its lines, from whichever end it is counted, and with the
  ends of lines between them its lines are all of it. After
  the last line nothing is shown.
-/
theorem highlight_keeps_text :
    (∀ text : String, '\n' ∉ text.toList →
      textOf (highlightLine text) = text.toList) ∧
    ∀ text : String,
      (∀ (n : Int) (line : String),
        Text.itemAt? (documentLines text) n = some line →
          ∃ spans,
            highlightDocument text n = .ok spans ∧
              textOf spans = line.toList) ∧
      (∀ n : Int, (documentLines text).length ≤ n →
        ∃ spans,
          highlightDocument text n = .ok spans ∧
            textOf spans = []) ∧
      ['\n'].intercalate ((documentLines text).map String.toList) =
        text.toList := by
  refine ⟨fun text hLine => textOf_highlightLine hLine, ?_⟩
  intro text
  refine ⟨?_, ?_, intercalate_documentLines text⟩
  · intro n line hItem
    rcases Option.bind_eq_some_iff.mp hItem with
      ⟨place, hPlace, hFound⟩
    have hMem := List.mem_of_getElem? hFound
    have hBefore : ¬ ((documentLines text).length ≤ n) := by
      have hInside := (List.getElem?_eq_some_iff.mp hFound).1
      unfold Text.placeOf? at hPlace
      grind
    refine
      ⟨highlightLine line, ?_,
        textOf_highlightLine (not_mem_of_mem_documentLines hMem)⟩
    unfold highlightDocument
    simp only [if_neg hBefore, hItem]
  · intro n hBeyond
    refine ⟨[.plain []], ?_, rfl⟩
    unfold highlightDocument
    rw [if_pos hBeyond]

/- A line with words, a stray character and an open string. -/
theorem highlight_keeps_text_mixed :
    let line := "a @ b \"c // d"
    '\n' ∉ line.toList ∧
      (highlightLine line).map Span.text =
        [ ['a'], [' ', '@', ' '], ['b'], [' ', '"', 'c', ' '],
          ['/', '/', ' ', 'd'] ] ∧
      textOf (highlightLine line) = line.toList := by
  intro line
  have hLine : '\n' ∉ line.toList := by decide
  exact ⟨hLine, by decide +kernel, highlight_keeps_text.1 line hLine⟩

end Lox.Console
