import Lox.Proofs.Token.LongestMatch

/-
  Where tokens stand, and what stands between them.

  A text is tiled by its tokens and by gaps: blank space, line
  comments, characters that are reported as unexpected, and at
  its end perhaps a string that is not closed. So the tokens
  stand apart from each other, in order, and every character
  that is in none of them is accounted for.

  Key definitions include:
    * `Token.StandsAt`
    * `Gap`
    * `Tiles`
    * `tokenize_places`
-/

------------------------------------------------------------
-- Tokens In Their Places
------------------------------------------------------------

namespace Lox

/-
  A token is the part of a text that begins at an offset, and
  has the line and column of that place.
-/
structure Token.StandsAt
    (source : List Char)
    (t : Token)
    (offset : Nat) :
    Prop where
  slice :
    t.lexeme.toList =
      (source.drop offset).take t.lexeme.length
  line : t.line = Text.lineAfter (source.take offset)
  column : t.column = Text.columnAfter (source.take offset)

/- The offset that follows a token. -/
def stopOf (placed : Token × Nat) : Nat :=
  placed.2 + placed.1.lexeme.length

/- One token ends before another one begins. -/
def EndsBefore (first second : Token × Nat) : Prop :=
  first.2 < second.2 ∧ stopOf first ≤ second.2

/- A token stands where the text before it has ended. -/
theorem Token.after_standsAt
    (before spelling rest : List Char)
    (kind : Kind)
    (literal : Literal) :
    (Token.after before kind literal spelling).StandsAt
      (before ++ (spelling ++ rest)) before.length := by
  constructor
  · simp [Token.after]
  · simp [Token.after]
  · simp [Token.after]

end Lox

------------------------------------------------------------
-- Gaps
------------------------------------------------------------

namespace Lox

/-
  A part of a text, from one offset up to another, that holds
  no token: a blank character, a comment up to the end of its
  line, a character that no piece begins with and that was
  reported, or a string that is not closed up to the end of
  the text, which was reported on the last line.
-/
inductive Gap
    (source : List Char)
    (errors : List LexError) :
    (start stop : Nat) → Prop where
  | space
      {start : Nat} {c : Char}
      (hChar : source[start]? = some c)
      (hSpace : c = ' ' ∨ c = '\t' ∨ c = '\r' ∨ c = '\n') :
      Gap source errors start (start + 1)
  | comment
      {start stop : Nat} {body : List Char}
      (hSlice :
        (source.drop start).take (stop - start) =
          '/' :: '/' :: body)
      (hLine : '\n' ∉ body)
      (hStop :
        stop = source.length ∨ source[stop]? = some '\n') :
      Gap source errors start stop
  | unexpected
      {start : Nat} {c : Char}
      (hChar : source[start]? = some c)
      (hNone : NoPiece (source.drop start))
      (hError :
        ⟨.unexpected (some c),
          Text.lineAfter (source.take start)⟩ ∈ errors) :
      Gap source errors start (start + 1)
  | unterminated
      {start : Nat}
      (hQuote : source[start]? = some '"')
      (hOpen : '"' ∉ source.drop (start + 1))
      (hError :
        ⟨.unterminated, Text.lineAfter source⟩ ∈ errors) :
      Gap source errors start source.length

/-
  From an offset on, a text is made of tokens in their places
  and of gaps.
-/
inductive Tiles
    (source : List Char)
    (errors : List LexError) :
    (start : Nat) → List (Token × Nat) → Prop where
  | done : Tiles source errors source.length []
  | gap
      {start stop : Nat} {placed : List (Token × Nat)}
      (hGap : Gap source errors start stop)
      (hLess : start < stop)
      (hRest : Tiles source errors stop placed) :
      Tiles source errors start placed
  | token
      {start : Nat} {t : Token} {placed : List (Token × Nat)}
      (hStands : t.StandsAt source start)
      (hKind : t.kind ≠ .eof)
      (hLength : 0 < t.lexeme.length)
      (hRest : Tiles source errors (stopOf (t, start)) placed) :
      Tiles source errors start ((t, start) :: placed)

end Lox

------------------------------------------------------------
-- Tilings
------------------------------------------------------------

namespace Lox

variable {source : List Char} {errors : List LexError}
variable {start : Nat} {placed : List (Token × Nat)}

namespace Tiles

/- A tiling goes on from its start to the end of the text. -/
theorem bounds (hTiles : Tiles source errors start placed) :
    start ≤ source.length ∧
      ∀ p ∈ placed,
        start ≤ p.2 ∧ p.2 < source.length ∧
          stopOf p ≤ source.length := by
  induction hTiles with
  | done =>
      refine ⟨Nat.le_refl _, ?_⟩
      intro p hMem
      cases hMem
  | gap hGap hLess _ ih =>
      rcases ih with ⟨hStop, hPlaced⟩
      refine ⟨by omega, ?_⟩
      intro p hMem
      have hBounds := hPlaced p hMem
      exact ⟨by omega, hBounds.2⟩
  | @token start t placed hStands hKind hLength _ ih =>
      rcases ih with ⟨hStop, hPlaced⟩
      have hHere : start + t.lexeme.length ≤ source.length := hStop
      refine ⟨by omega, ?_⟩
      intro p hMem
      rcases List.mem_cons.mp hMem with hSame | hMem
      · subst hSame
        refine ⟨Nat.le_refl _, ?_, hStop⟩
        show start < source.length
        omega
      · have hBounds := hPlaced p hMem
        have hLater : start + t.lexeme.length ≤ p.2 := hBounds.1
        exact ⟨by omega, hBounds.2⟩

/- The tokens of a tiling stand apart and in order. -/
theorem pairwise (hTiles : Tiles source errors start placed) :
    placed.Pairwise EndsBefore := by
  induction hTiles with
  | done => exact .nil
  | gap _ _ _ ih => exact ih
  | @token start t placed _ _ hLength hRest ih =>
      refine List.pairwise_cons.mpr ⟨?_, ih⟩
      intro p hMem
      have hLater : start + t.lexeme.length ≤ p.2 :=
        (hRest.bounds.2 p hMem).1
      refine ⟨?_, hLater⟩
      show start < p.2
      omega

theorem standsAt
    (hTiles : Tiles source errors start placed) :
    ∀ p ∈ placed,
      p.1.StandsAt source p.2 ∧ p.1.kind ≠ .eof := by
  induction hTiles with
  | done =>
      intro p hMem
      cases hMem
  | gap _ _ _ ih => exact ih
  | token hStands hKind _ _ ih =>
      intro p hMem
      rcases List.mem_cons.mp hMem with hSame | hMem
      · subst hSame
        exact ⟨hStands, hKind⟩
      · exact ih p hMem

/-
  Every character is in a token, or in a gap that no token
  reaches into.
-/
theorem covers
    (hTiles : Tiles source errors start placed)
    (i : Nat)
    (hStart : start ≤ i)
    (hEnd : i < source.length) :
    (∃ p ∈ placed, p.2 ≤ i ∧ i < stopOf p) ∨
      ∃ first stop,
        start ≤ first ∧
        Gap source errors first stop ∧ first ≤ i ∧ i < stop ∧
        stop ≤ source.length ∧
        ∀ p ∈ placed, stopOf p ≤ first ∨ stop ≤ p.2 := by
  induction hTiles with
  | done => omega
  | @gap start stop placed hGap hLess hRest ih =>
      by_cases hInside : i < stop
      · refine
          .inr ⟨start, stop, Nat.le_refl _, hGap, hStart,
            hInside, hRest.bounds.1, ?_⟩
        intro p hMem
        exact .inr (hRest.bounds.2 p hMem).1
      · rcases ih (by omega) with hToken | hGap'
        · exact .inl hToken
        · rcases hGap' with
            ⟨first, last, hFirst, hFound⟩
          exact .inr ⟨first, last, by omega, hFound⟩
  | @token start t placed _ _ _ hRest ih =>
      by_cases hInside : i < stopOf (t, start)
      · exact
          .inl ⟨(t, start), List.mem_cons_self, hStart, hInside⟩
      · rcases ih (by omega) with hToken | hGap
        · rcases hToken with ⟨p, hMem, hCovers⟩
          exact
            .inl ⟨p, List.mem_cons_of_mem _ hMem, hCovers⟩
        · rcases hGap with
            ⟨first, last, hFirst, hGap, hIn, hOut, hStop, hApart⟩
          refine
            .inr ⟨first, last, ?_, hGap, hIn, hOut, hStop, ?_⟩
          · exact Nat.le_trans (Nat.le_add_right _ _) hFirst
          · intro p hMem
            rcases List.mem_cons.mp hMem with hSame | hMem
            · subst hSame
              exact .inl hFirst
            · exact hApart p hMem

end Tiles

end Lox

------------------------------------------------------------
-- The Tiling Of A Scanned Text
------------------------------------------------------------

namespace Lox

/- The kinds of pieces are never that of the end. -/
theorem Piece.Spelled.kind_ne_eof
    {kind : Kind}
    {literal : Literal}
    {spelling : List Char}
    (hSpelled : (Piece.token kind literal).Spelled spelling) :
    kind ≠ .eof := by
  have hKeywords :
      ∀ entry ∈ Kind.keywords, entry.2 ≠ .eof := by
    decide
  have hOperators :
      ∀ entry ∈ Kind.operators, entry.2 ≠ .eof := by
    decide
  cases hSpelled with
  | keyword hKeyword => exact hKeywords _ hKeyword
  | operator hOperator => exact hOperators _ hOperator
  | _ => decide

/-
  A comment that is a longest piece goes on to the end of its
  line: with one more character it would be a comment too.
-/
theorem Piece.IsLongest.comment_stop
    {body rest : List Char}
    (hLongest :
      Piece.blank.IsLongest ('/' :: '/' :: body) rest)
    (hLine : '\n' ∉ body) :
    rest = [] ∨ rest.head? = some '\n' := by
  cases rest with
  | nil => exact .inl rfl
  | cons c rest =>
      by_cases hChar : c = '\n'
      · exact .inr (congrArg some hChar)
      · have hMore : '\n' ∉ body ++ [c] := by
          simp [hLine, Ne.symm hChar]
        have hPrefix :
            '/' :: '/' :: (body ++ [c]) <+:
              '/' :: '/' :: body ++ c :: rest :=
          ⟨rest, by simp⟩
        have hLength :=
          hLongest.longest .blank _ (.comment hMore) hPrefix
        simp only [List.length_cons, List.length_append,
          List.length_nil] at hLength
        omega

/- A quote that begins no piece has no other one after it. -/
theorem NoPiece.quote_not_mem
    {rest : List Char}
    (hNone : NoPiece ('"' :: rest)) :
    '"' ∉ rest := by
  intro hMem
  let body := rest.takeWhile (· ≠ '"')
  have hBody : '"' ∉ body := not_mem_takeWhile_ne '"' rest
  have hPrefix : body ++ ['"'] <+: rest := by
    have hSplit : body ++ rest.dropWhile (· ≠ '"') = rest :=
      List.takeWhile_append_dropWhile
    cases hAfter : rest.dropWhile (· ≠ '"') with
    | nil =>
        rw [hAfter, List.append_nil] at hSplit
        exact absurd (hSplit ▸ hMem) hBody
    | cons d after =>
        have hQuote : d = '"' := by
          have hHead := List.head?_dropWhile_not (· ≠ '"') rest
          rw [hAfter] at hHead
          simpa using hHead
        subst hQuote
        exact ⟨after, by rw [← hSplit, hAfter]; simp⟩
  exact
    hNone _ ('"' :: (body ++ ['"'])) (.string hBody)
      (List.cons_prefix_cons.mpr ⟨rfl, hPrefix⟩)

/- A longest blank piece is a gap. -/
theorem Gap.of_blank
    {before spelling rest : List Char}
    (hLongest : Piece.blank.IsLongest spelling rest)
    (errors : List LexError) :
    Gap (before ++ (spelling ++ rest)) errors before.length
      (before ++ spelling).length := by
  generalize hPiece : Piece.blank = piece at hLongest
  have hSpelled := hLongest.spelled
  cases hSpelled with
  | @space c hSpace =>
      rw [List.length_append]
      refine .space (c := c) (by simp) ?_
      rcases hSpace with rfl | rfl | rfl <;> simp
  | newline =>
      rw [List.length_append]
      exact .space (c := '\n') (by simp) (by simp)
  | @comment body hBody =>
      refine .comment ?_ hBody ?_
      · simp
      · rcases hLongest.comment_stop hBody with hNil | hHead
        · subst hNil
          simp
        · apply Or.inr
          rw [← List.append_assoc,
            List.getElem?_append_right (Nat.le_refl _),
            Nat.sub_self, ← List.head?_eq_getElem?]
          exact hHead
  | _ => cases hPiece

/-
  What is scanned is tiled, by induction on the steps of the
  reference scanner.
-/
theorem Scans.tiles
    {before rest : List Char}
    {tokens : List Token}
    {errors all : List LexError}
    (hScans : Scans before rest tokens errors)
    (hErrors : ∀ e ∈ errors, e ∈ all) :
    ∃ placed,
      placed.map Prod.fst = tokens ∧
        Tiles (before ++ rest) all before.length placed := by
  induction hScans with
  | @done before =>
      refine ⟨[], rfl, ?_⟩
      rw [List.append_nil]
      exact .done
  | @blank before spelling rest tokens errors hLongest _ ih =>
      rcases ih hErrors with ⟨placed, hTokens, hTiles⟩
      rw [List.append_assoc] at hTiles
      have hPositive :=
        List.length_pos_iff.mpr hLongest.spelled.ne_nil
      refine ⟨placed, hTokens, .gap (.of_blank hLongest all) ?_ hTiles⟩
      rw [List.length_append]
      omega
  | @token before spelling rest kind literal tokens errors
      hLongest _ ih =>
      rcases ih hErrors with ⟨placed, hTokens, hTiles⟩
      rw [List.append_assoc] at hTiles
      let t := Token.after before kind literal spelling
      have hLength : t.lexeme.length = spelling.length := by
        simp [t, Token.after]
      refine ⟨(t, before.length) :: placed, ?_, ?_⟩
      · rw [List.map_cons, hTokens]
      · apply Tiles.token
        · exact Token.after_standsAt before spelling rest _ _
        · exact hLongest.spelled.kind_ne_eof
        · rw [hLength]
          exact List.length_pos_iff.mpr hLongest.spelled.ne_nil
        · unfold stopOf
          rw [hLength, ← List.length_append]
          exact hTiles
  | @unexpected before rest c tokens errors hNone hChar _ ih =>
      rcases ih fun e hMem =>
          hErrors e (List.mem_cons_of_mem _ hMem) with
        ⟨placed, hTokens, hTiles⟩
      rw [List.append_assoc] at hTiles
      have hError := hErrors _ List.mem_cons_self
      refine ⟨placed, hTokens, ?_⟩
      rw [List.length_append] at hTiles
      refine .gap (.unexpected (c := c) ?_ ?_ ?_) ?_ hTiles
      · simp
      · simpa using hNone
      · simpa using hError
      · exact Nat.lt_succ_self _
  | @unterminated before rest hNone =>
      have hError := hErrors _ List.mem_cons_self
      refine ⟨[], rfl, ?_⟩
      have hOpen := hNone.quote_not_mem
      refine .gap (.unterminated ?_ ?_ ?_) ?_ .done
      · simp
      · simpa using hOpen
      · exact hError
      · simp

/-
  Every text is tiled by its tokens, of which the last one and
  no other is the end, placed after all the characters: the
  others begin at strictly increasing offsets, do not overlap,
  and have the spelling, the line and the column of the place
  where they begin. A character in none of them is blank, in a
  comment, was reported as unexpected, or is in the string at
  the end of the text that was reported as not closed.
-/
theorem tokenize_places (text : String) :
    ∃ (earlier : List Token) (last : Token)
      (placed : List (Token × Nat)),
      (tokenize text).tokens = earlier ++ [last] ∧
      last.kind = .eof ∧
      (∀ t ∈ earlier, t.kind ≠ .eof) ∧
      placed.map Prod.fst = (tokenize text).tokens ∧
      placed.getLast? = some (last, text.toList.length) ∧
      placed.Pairwise EndsBefore ∧
      (∀ p ∈ placed, p.1.StandsAt text.toList p.2) ∧
      ∀ i < text.toList.length,
        (∃ p ∈ placed, p.2 ≤ i ∧ i < stopOf p) ∨
          ∃ start stop,
            Gap text.toList (tokenize text).errors start stop ∧
              start ≤ i ∧ i < stop ∧
              ∀ p ∈ placed, stopOf p ≤ start ∨ stop ≤ p.2 := by
  rcases scans_tokenize text with ⟨earlier, hTokens, hScans⟩
  rcases hScans.tiles fun e hMem => hMem with
    ⟨placed, hPlaced, hTiles⟩
  let last := Token.after text.toList .eof .nil []
  have hBounds := hTiles.bounds.2
  have hLastStands : last.StandsAt text.toList text.toList.length := by
    have hEnd := Token.after_standsAt text.toList [] [] .eof .nil
    simpa using hEnd
  refine
    ⟨earlier, last, placed ++ [(last, text.toList.length)],
      hTokens, rfl, ?_, ?_, List.getLast?_concat, ?_, ?_, ?_⟩
  · intro t hMem
    rw [← hPlaced] at hMem
    rcases List.mem_map.mp hMem with ⟨p, hMem, hToken⟩
    rw [← hToken]
    exact (hTiles.standsAt p hMem).2
  · rw [List.map_append, hPlaced, hTokens]
    rfl
  · refine List.pairwise_append.mpr ⟨hTiles.pairwise, ?_, ?_⟩
    · exact List.pairwise_singleton _ _
    · intro p hMem q hLast
      rw [List.mem_singleton.mp hLast]
      exact (hBounds p hMem).2
  · intro p hMem
    rcases List.mem_append.mp hMem with hMem | hLast
    · exact (hTiles.standsAt p hMem).1
    · rw [List.mem_singleton.mp hLast]
      exact hLastStands
  · intro i hEnd
    rcases hTiles.covers i (Nat.zero_le i) hEnd with hToken | hGap
    · rcases hToken with ⟨p, hMem, hCovers⟩
      exact .inl ⟨p, List.mem_append_left _ hMem, hCovers⟩
    · rcases hGap with
        ⟨start, stop, _, hGap, hIn, hOut, hWithin, hApart⟩
      refine .inr ⟨start, stop, hGap, hIn, hOut, ?_⟩
      intro p hMem
      rcases List.mem_append.mp hMem with hMem | hLast
      · exact hApart p hMem
      · rw [List.mem_singleton.mp hLast]
        exact .inr hWithin

end Lox
