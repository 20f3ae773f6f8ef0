import Lox.Console.Prompt
import Lox.Proofs.Grammar.Recognition
import Lox.Proofs.Token.Joining

/-
  The brackets of a program come in pairs.

  What the grammar derives is balanced: each bracket is closed
  by the one of its kind, and nothing is closed that is not
  open. So the prompt's count of open brackets, which forgets
  what closes nothing, has nothing to forget in a program, and
  a program is handed in by the enter key.

  Key definitions include:
    * `Encloses`
    * `Balanced`
    * `opened?`
    * `openDepth_of_parse`
-/

------------------------------------------------------------
-- Brackets
------------------------------------------------------------

namespace Lox

/- Whether a token of the kind opens a bracket. -/
def Kind.opensBracket (kind : Kind) : Bool :=
  kind = .leftParen || kind = .leftBrace

/- Whether a token of the kind closes a bracket. -/
def Kind.closesBracket (kind : Kind) : Bool :=
  kind = .rightParen || kind = .rightBrace

/- A token that is no bracket. -/
def Token.IsPlain (t : Token) : Prop :=
  t.kind.opensBracket = false ∧ t.kind.closesBracket = false

/- One token opens a bracket that the other one closes. -/
def Encloses (opening closing : Token) : Prop :=
  (opening.kind = .leftParen ∧ closing.kind = .rightParen) ∨
    (opening.kind = .leftBrace ∧ closing.kind = .rightBrace)

/-
  Tokens whose brackets come in pairs, with balanced tokens
  inside each pair.
-/
inductive Balanced : List Token → Prop where
  | nil : Balanced []
  | plain
      {t : Token} {tokens : List Token}
      (hPlain : t.IsPlain)
      (hRest : Balanced tokens) :
      Balanced (t :: tokens)
  | enclosed
      {opening closing : Token} {inner tokens : List Token}
      (hPair : Encloses opening closing)
      (hInner : Balanced inner)
      (hRest : Balanced tokens) :
      Balanced (opening :: (inner ++ closing :: tokens))

theorem Balanced.append
    {tokens others : List Token}
    (hFirst : Balanced tokens)
    (hSecond : Balanced others) :
    Balanced (tokens ++ others) := by
  induction hFirst with
  | nil => exact hSecond
  | plain hPlain _ ih => exact .plain hPlain ih
  | enclosed hPair hInner _ _ ih =>
      rw [List.cons_append, List.append_assoc, List.cons_append]
      exact .enclosed hPair hInner ih

theorem Token.IsPlain.of_kind
    {t : Token}
    {kind : Kind}
    (hKind : t.kind = kind)
    (hPlain :
      (kind.opensBracket || kind.closesBracket) = false) :
    t.IsPlain := by
  subst hKind
  exact Bool.or_eq_false_iff.mp hPlain

end Lox

------------------------------------------------------------
-- Balanced Programs
------------------------------------------------------------

namespace Lox

/- No operator between two operands is a bracket. -/
theorem Token.IsPlain.of_isInfix
    {op : Token}
    {tier : Tier}
    (hTier : op.kind.tier? = some tier)
    (hInfix : tier.isInfix) :
    op.IsPlain := by
  apply Token.IsPlain.of_kind rfl
  revert hTier hInfix
  generalize op.kind = kind
  cases kind <;> cases tier <;> decide

theorem Expr.AtomDerives.isPlain
    {e : Expr}
    {t : Token}
    (hAtom : e.AtomDerives t) :
    t.IsPlain := by
  cases hAtom with
  | no hKind | yes hKind | nil hKind | number hKind
  | string hKind | name hKind => exact .of_kind hKind rfl

/- Every expression is balanced, and so are arguments. -/
theorem Phrase.Derives.balanced
    {phrase : Phrase}
    {tokens : List Token}
    (hDerives : phrase.Derives tokens) :
    Balanced tokens := by
  induction hDerives with
  | tighter _ ih => exact ih
  | assign hName hEquals _ ih =>
      exact
        .plain (.of_kind hName rfl)
          (.plain (.of_kind hEquals rfl) ih)
  | operator hInfix _ hOp _ ihLeft ihRight =>
      exact
        ihLeft.append
          (.plain (.of_isInfix hOp hInfix) ihRight)
  | sign hOp _ ih =>
      rcases hOp with hBang | hMinus
      · exact .plain (.of_kind hBang rfl) ih
      · exact .plain (.of_kind hMinus rfl) ih
  | plainCall _ hOpening hParen ih =>
      exact
        ih.append (.enclosed (.inl ⟨hOpening, hParen⟩) .nil .nil)
  | call _ hOpening _ _ hParen ihCallee ihArgs =>
      exact
        ihCallee.append
          (.enclosed (.inl ⟨hOpening, hParen⟩) ihArgs .nil)
  | atom hAtom => exact .plain hAtom.isPlain .nil
  | grouping hOpening _ hClosing ih =>
      exact .enclosed (.inl ⟨hOpening, hClosing⟩) ih .nil
  | lastArgument _ ih => exact ih
  | argument _ hComma _ ihArg ihArgs =>
      exact
        ihArg.append (.plain (.of_kind hComma rfl) ihArgs)

/- Balanced things with commas between them are balanced. -/
theorem Commas.balanced
    {α : Type}
    {Item : List Token → α → Prop}
    {tokens : List Token}
    {as : List α}
    (hItems : Commas Item tokens as)
    (hItem : ∀ {tokens a}, Item tokens a → Balanced tokens) :
    Balanced tokens := by
  induction hItems with
  | last hLast => exact hItem hLast
  | more hFirst hComma _ ih =>
      exact (hItem hFirst).append (.plain (.of_kind hComma rfl) ih)

theorem ParamsDerive.balanced
    {tokens params : List Token}
    (hParams : ParamsDerive tokens params) :
    Balanced tokens := by
  cases hParams with
  | none => exact .nil
  | some hCommas _ =>
      apply hCommas.balanced
      rintro _ name ⟨rfl, hKind⟩
      exact .plain (.of_kind hKind rfl) .nil

theorem Expr.OptionDerives.balanced
    {e : Option Expr}
    {tokens : List Token}
    (hDerives : Expr.OptionDerives e tokens) :
    Balanced tokens := by
  cases hDerives with
  | none => exact .nil
  | some hExpr => exact hExpr.balanced

/- A semicolon after balanced tokens. -/
theorem Balanced.closed
    {tokens : List Token}
    {semicolon : Token}
    (hTokens : Balanced tokens)
    (hEnd : semicolon.kind = .semicolon) :
    Balanced (tokens ++ [semicolon]) :=
  hTokens.append (.plain (.of_kind hEnd rfl) .nil)

theorem Stmt.ExpressionDerives.balanced
    {s : Stmt}
    {tokens : List Token}
    (hDerives : s.ExpressionDerives tokens) :
    Balanced tokens := by
  cases hDerives with
  | mk hExpr hEnd => exact hExpr.balanced.closed hEnd

theorem Stmt.VariableDerives.balanced
    {s : Stmt}
    {tokens : List Token}
    (hDerives : s.VariableDerives tokens) :
    Balanced tokens := by
  cases hDerives with
  | plain hName hEnd =>
      exact
        .plain (.of_kind hName rfl)
          (.plain (.of_kind hEnd rfl) .nil)
  | initialized hName hEquals hExpr hEnd =>
      exact
        .plain (.of_kind hName rfl)
          (.plain (.of_kind hEquals rfl)
            (hExpr.balanced.closed hEnd))

theorem Stmt.InitializerDerives.balanced
    {initializer : Option Stmt}
    {tokens : List Token}
    (hDerives : Stmt.InitializerDerives initializer tokens) :
    Balanced tokens := by
  cases hDerives with
  | none hEnd => exact .plain (.of_kind hEnd rfl) .nil
  | var hKeyword hVariable =>
      exact
        .plain (.of_kind hKeyword rfl) hVariable.balanced
  | expression hExpression => exact hExpression.balanced

/- Every part of a program is balanced. -/
theorem Clause.Derives.balanced
    {clause : Clause}
    {tokens : List Token}
    (hDerives : clause.Derives tokens) :
    Balanced tokens := by
  induction hDerives with
  | expression hExpression => exact hExpression.balanced
  | print hKeyword hExpr hEnd =>
      exact
        .plain (.of_kind hKeyword rfl)
          (hExpr.balanced.closed hEnd)
  | ret hKeyword hValue hEnd =>
      exact
        .plain (.of_kind hKeyword rfl)
          (hValue.balanced.closed hEnd)
  | block hOpening _ hClosing ih =>
      exact .enclosed (.inr ⟨hOpening, hClosing⟩) ih .nil
  | ifThen hKeyword hOpening hCondition hClosing _ ih =>
      exact
        .plain (.of_kind hKeyword rfl)
          (.enclosed (.inl ⟨hOpening, hClosing⟩)
            hCondition.balanced ih)
  | ifElse hKeyword hOpening hCondition hClosing _ hElseWord _
      ihThen ihElse =>
      have hElse := ihThen.append
        (.plain (.of_kind hElseWord rfl) ihElse)
      exact
        .plain (.of_kind hKeyword rfl)
          (.enclosed (.inl ⟨hOpening, hClosing⟩)
            hCondition.balanced hElse)
  | whileLoop hKeyword hOpening hCondition hClosing _ ih =>
      exact
        .plain (.of_kind hKeyword rfl)
          (.enclosed (.inl ⟨hOpening, hClosing⟩)
            hCondition.balanced ih)
  | @forLoop keyword opening semicolon closing _ _ _ _ _ initials
      conditions increments tokens hKeyword hOpening hInitializer
      hCondition hEnd hIncrement hClosing _ ih =>
      have hHeader :=
        hInitializer.balanced.append
          (hCondition.balanced.append
            (.plain (.of_kind hEnd rfl)
              hIncrement.balanced))
      have hLoop :=
        Balanced.enclosed (.inl ⟨hOpening, hClosing⟩) hHeader ih
      simp only [List.append_assoc, List.cons_append] at hLoop
      exact .plain (.of_kind hKeyword rfl) hLoop
  | plain _ ih => exact ih
  | var hKeyword hVariable =>
      exact
        .plain (.of_kind hKeyword rfl) hVariable.balanced
  | function hKeyword hName hOpening hParams hClosing hBrace _
      hLast ih =>
      exact
        .plain (.of_kind hKeyword rfl)
          (.plain (.of_kind hName rfl)
            (.enclosed (.inl ⟨hOpening, hClosing⟩)
              hParams.balanced
              (.enclosed (.inr ⟨hBrace, hLast⟩) ih .nil)))
  | done => exact .nil
  | next _ _ ihFirst ihRest => exact ihFirst.append ihRest

end Lox

------------------------------------------------------------
-- Brackets That Are Open
------------------------------------------------------------

namespace Lox

/-
  The brackets that are open after a token, the innermost one
  first. There are none to tell where the token closes what is
  not the innermost one.
-/
def opened? (before : List Kind) (t : Token) :
    Option (List Kind) :=
  match t.kind, before with
  | .leftParen, _ => some (.leftParen :: before)
  | .leftBrace, _ => some (.leftBrace :: before)
  | .rightParen, .leftParen :: outer => some outer
  | .rightBrace, .leftBrace :: outer => some outer
  | .rightParen, _ | .rightBrace, _ => none
  | _, _ => some before

variable {t opening closing : Token} {outer : List Kind}

theorem opened?_plain (hPlain : t.IsPlain) :
    opened? outer t = some outer := by
  rcases hPlain with ⟨hOpens, hCloses⟩
  unfold opened?
  cases hKind : t.kind <;>
    simp_all [Kind.opensBracket, Kind.closesBracket]

theorem opened?_opening (hPair : Encloses opening closing) :
    opened? outer opening = some (opening.kind :: outer) := by
  rcases hPair with ⟨hOpening, _⟩ | ⟨hOpening, _⟩ <;>
    simp only [opened?, hOpening]

theorem opened?_closing (hPair : Encloses opening closing) :
    opened? (opening.kind :: outer) closing = some outer := by
  rcases hPair with ⟨hOpening, hClosing⟩ | ⟨hOpening, hClosing⟩ <;>
    simp only [opened?, hOpening, hClosing]

/- What is open before balanced tokens is open after them. -/
theorem Balanced.opened
    {tokens : List Token}
    (hBalanced : Balanced tokens)
    (outer : List Kind) :
    tokens.foldlM opened? outer = some outer := by
  induction hBalanced generalizing outer with
  | nil => rfl
  | plain hPlain _ ih =>
      rw [List.foldlM_cons, opened?_plain hPlain]
      exact ih outer
  | enclosed hPair _ _ ihInner ihRest =>
      rw [List.foldlM_cons, opened?_opening hPair]
      simp only [Option.bind_eq_bind, Option.bind_some,
        List.foldlM_append, ihInner, List.foldlM_cons,
        opened?_closing hPair]
      exact ihRest outer

/- A beginning of two lists is one of the first, or goes on. -/
theorem isPrefix_append_cases
    {α : Type}
    {before first second : List α}
    (hPrefix : before <+: first ++ second) :
    before <+: first ∨
      ∃ more, before = first ++ more ∧ more <+: second := by
  rcases hPrefix with ⟨after, hAll⟩
  rcases List.append_eq_append_iff.mp hAll with
    ⟨more, hFirst, _⟩ | ⟨more, hBefore, hSecond⟩
  · exact .inl ⟨more, hFirst.symm⟩
  · exact .inr ⟨more, hBefore, after, hSecond.symm⟩

/-
  At every place among balanced tokens some more brackets are
  open, by induction on the pairs.
-/
theorem Balanced.opened_prefix
    {tokens before : List Token}
    (hBalanced : Balanced tokens)
    (hPrefix : before <+: tokens)
    (outer : List Kind) :
    ∃ inner,
      before.foldlM opened? outer = some (inner ++ outer) := by
  induction hBalanced generalizing before outer with
  | nil =>
      rw [List.prefix_nil.mp hPrefix]
      exact ⟨[], rfl⟩
  | plain hPlain _ ih =>
      rcases List.prefix_cons_iff.mp hPrefix with
        rfl | ⟨more, rfl, hMore⟩
      · exact ⟨[], rfl⟩
      · rcases ih hMore outer with ⟨inner, hInner⟩
        refine ⟨inner, ?_⟩
        rw [List.foldlM_cons, opened?_plain hPlain]
        exact hInner
  | @enclosed opening closing _ _ hPair hWithin _ ihInner ihRest =>
      rcases List.prefix_cons_iff.mp hPrefix with
        rfl | ⟨more, rfl, hMore⟩
      · exact ⟨[], rfl⟩
      · rw [List.foldlM_cons, opened?_opening hPair]
        simp only [Option.bind_eq_bind, Option.bind_some]
        rcases isPrefix_append_cases hMore with
          hInside | ⟨more, rfl, hAfter⟩
        · rcases ihInner hInside (opening.kind :: outer) with
            ⟨inner, hInner⟩
          exact ⟨inner ++ [opening.kind], by simpa using hInner⟩
        · simp only [List.foldlM_append, hWithin.opened]
          rcases List.prefix_cons_iff.mp hAfter with
            rfl | ⟨last, rfl, hLast⟩
          · exact ⟨[opening.kind], rfl⟩
          · rcases ihRest hLast outer with ⟨inner, hInner⟩
            refine ⟨inner, ?_⟩
            simp only [Option.bind_eq_bind, Option.bind_some,
              List.foldlM_cons, opened?_closing hPair]
            exact hInner

end Lox

------------------------------------------------------------
-- The Count Of Open Brackets
------------------------------------------------------------

namespace Lox.Console

/- The number of brackets that some tokens open. -/
def openings (tokens : List Token) : Nat :=
  tokens.countP (·.kind.opensBracket)

/- The number of brackets that some tokens close. -/
def closings (tokens : List Token) : Nat :=
  tokens.countP (·.kind.closesBracket)

theorem openings_append (tokens others : List Token) :
    openings (tokens ++ others) = openings tokens + openings others :=
  List.countP_append

theorem closings_append (tokens others : List Token) :
    closings (tokens ++ others) = closings tokens + closings others :=
  List.countP_append

/-
  Where a token follows the brackets that are open, their
  number is counted right, and a closing one finds one open.
-/
theorem depthAfter_of_opened
    {before after : List Kind}
    {t : Token}
    (hOpened : opened? before t = some after) :
    depthAfter before.length t = after.length ∧
      after.length + closings [t] =
        before.length + openings [t] ∧
      (t.kind.closesBracket → 0 < before.length) := by
  unfold opened? at hOpened
  unfold depthAfter openings closings
  split at hOpened <;> simp_all [Kind.opensBracket,
    Kind.closesBracket] <;> grind

theorem foldl_depthAfter
    {tokens : List Token}
    {before after : List Kind}
    (hOpened : tokens.foldlM opened? before = some after) :
    tokens.foldl depthAfter before.length = after.length ∧
      after.length + closings tokens =
        before.length + openings tokens := by
  induction tokens generalizing before with
  | nil =>
      cases hOpened
      exact ⟨rfl, rfl⟩
  | cons t tokens ih =>
      rw [List.foldlM_cons] at hOpened
      rcases Option.bind_eq_some_iff.mp hOpened with
        ⟨next, hNext, hRest⟩
      rcases depthAfter_of_opened hNext with
        ⟨hDepth, hCount, _⟩
      rcases ih hRest with ⟨hDepths, hCounts⟩
      have hOpenings := openings_append [t] tokens
      have hClosings := closings_append [t] tokens
      rw [List.singleton_append] at hOpenings hClosings
      refine ⟨?_, by omega⟩
      rw [List.foldl_cons, hDepth]
      exact hDepths

end Lox.Console

namespace Lox

open Console

/- The tokens of a text that is read with no error are balanced. -/
theorem balanced_of_parse
    {limits : Limits}
    {text : String}
    (hParsed :
      (parse limits (tokenize text).tokens).errors = []) :
    Balanced (tokenize text).tokens := by
  have hWords := (scans_wordsOf text).kind_ne_eof
  have hDerives := derives_of_parse hParsed
  rw [tokens_eq text, List.takeWhile_append_of_pos (by simpa)]
    at hDerives
  have hProgram := hDerives.balanced
  simp only [Token.after, List.takeWhile_cons] at hProgram
  rw [tokens_eq text]
  simpa using hProgram.append (.plain (.of_kind rfl rfl) .nil)

/-
  In a text that is read with no error, brackets are closed in
  the order in which they stand open, so that at every place
  the prompt counts those that are open: what has been opened
  and not closed, with no closing one that finds none. At the
  end of the text none is open, and the enter key hands it in.
-/
theorem openDepth_of_parse
    {limits : Limits}
    {text : String}
    (hParsed :
      (parse limits (tokenize text).tokens).errors = []) :
    openDepth text = 0 ∧
    (∀ before, before <+: (tokenize text).tokens →
      closings before ≤ openings before ∧
      before.foldl depthAfter 0 =
        openings before - closings before ∧
      ∃ standing,
        before.foldlM opened? [] = some standing ∧
          before.foldl depthAfter 0 = standing.length) ∧
    (∀ before t, before ++ [t] <+: (tokenize text).tokens →
      t.kind.closesBracket → 0 < before.foldl depthAfter 0) ∧
    ∀ typing : Typing, typing.text = text →
      typing.pressEnter = { typing with accepted := true } := by
  have hBalanced := balanced_of_parse hParsed
  have hDepth : openDepth text = 0 :=
    (foldl_depthAfter (hBalanced.opened [])).1
  refine ⟨hDepth, ?_, ?_, ?_⟩
  · intro before hPrefix
    rcases hBalanced.opened_prefix hPrefix [] with
      ⟨inner, hOpened⟩
    rcases foldl_depthAfter hOpened with ⟨hCount, hSum⟩
    rw [List.length_nil] at hCount hSum
    exact ⟨by omega, by omega, _, hOpened, hCount⟩
  · intro before t hPrefix hCloses
    rcases hBalanced.opened_prefix hPrefix [] with
      ⟨inner, hOpened⟩
    rw [List.foldlM_append] at hOpened
    rcases Option.bind_eq_some_iff.mp hOpened with
      ⟨standing, hStanding, hLast⟩
    have hLast' : opened? standing t = some (inner ++ []) := by
      simpa using hLast
    have hCount := (foldl_depthAfter hStanding).1
    rw [List.length_nil] at hCount
    rw [hCount]
    exact (depthAfter_of_opened hLast').2.2 hCloses
  · intro typing hText
    simp [Typing.pressEnter, hText, hDepth]

/- The tokens of `while (a) \x7b b; \x7d`. -/
def closedLoop : List Token :=
  [ ⟨.whileKw, "while", .nil, 1, 1⟩, ⟨.leftParen, "(", .nil, 1, 7⟩,
    ⟨.identifier, "a", .nil, 1, 8⟩,
    ⟨.rightParen, ")", .nil, 1, 9⟩,
    ⟨.leftBrace, "\x7b", .nil, 1, 11⟩,
    ⟨.identifier, "b", .nil, 1, 13⟩,
    ⟨.semicolon, ";", .nil, 1, 14⟩,
    ⟨.rightBrace, "\x7d", .nil, 1, 16⟩, ⟨.eof, "", .nil, 1, 17⟩ ]

/- A loop is handed in once its body has been closed. -/
theorem openDepth_of_parse_loop :
    let text := "while (a) \x7b b; \x7d"
    (parse .standard (tokenize text).tokens).errors = [] ∧
      openDepth text = 0 ∧
      ((tokenize text).tokens.take 6).foldl depthAfter 0 = 1 := by
  intro text
  have hTokens :
      (tokenize "while (a) \x7b b; \x7d").tokens = closedLoop := by
    cbv
  have hExpression : (Clause.statement false _).Derives _ :=
    .expression
      (.mk
        (@Phrase.derives_name ⟨.identifier, "b", .nil, 1, 13⟩ rfl
          .assignment)
        (@rfl _ (Token.kind ⟨.semicolon, ";", .nil, 1, 14⟩)))
  have hBlock :=
    @Clause.Derives.block ⟨.leftBrace, "\x7b", .nil, 1, 11⟩
      ⟨.rightBrace, "\x7d", .nil, 1, 16⟩ _ _ rfl
      (.next (.plain hExpression) .done) rfl
  have hLoop :=
    @Clause.Derives.whileLoop ⟨.whileKw, "while", .nil, 1, 1⟩
      ⟨.leftParen, "(", .nil, 1, 7⟩
      ⟨.rightParen, ")", .nil, 1, 9⟩ _ _ _ _ _ rfl rfl
      (@Phrase.derives_name ⟨.identifier, "a", .nil, 1, 8⟩ rfl
        .assignment)
      rfl hBlock
  have hParsed :
      (parse .standard (tokenize text).tokens).errors = [] := by
    rw [hTokens]
    have hProgram :
        (Clause.declarations _).Derives
          (closedLoop.takeWhile (·.kind ≠ .eof)) :=
      .next (.plain hLoop) .done
    rw [parse_of_derives (by decide) hProgram]
  have hCounts := openDepth_of_parse hParsed
  refine ⟨hParsed, hCounts.1, ?_⟩
  rw [hTokens]
  rfl

end Lox
