import Mathlib.Data.List.Forall2
import Lox.Proofs.Grammar.Precedence

/-
  Expressions and their spellings are in step.

  The levels of precedence generate trees, and every tree has
  a spelling: what is asked of each of its tokens in turn. A
  name, an operator or the parenthesis of a call is asked for
  as it stands, a mark by its kind, and a constant by its kind
  and value. Reading the spelling of a tree gives this tree
  back, and whatever is read is spelled as the tokens that the
  reader has moved over.

  Main declarations:
    * `Tier.Generates`
    * `Expr.IsSpelledBy`
    * `derives_iff_generates`
    * `continues_iff_spelling`
    * `expression_iff_spelling`
-/

------------------------------------------------------------
-- Trees By Level
------------------------------------------------------------

namespace Lox

/- The expressions of each level, as trees. -/
inductive Tier.Generates : Tier → Expr → Prop where
  | tighter
      {tier : Tier} {e : Expr}
      (hTighter : Generates tier.tighter e) :
      Generates tier e
  | assign
      {name : Token} {value : Expr}
      (hName : name.kind = .identifier)
      (hValue : Generates .assignment value) :
      Generates .assignment (.assign name value none)
  | operator
      {tier : Tier} {op : Token} {left right : Expr}
      (hInfix : tier.isInfix)
      (hLeft : Generates tier left)
      (hOp : op.kind.tier? = some tier)
      (hRight : Generates tier.tighter right) :
      Generates tier (tier.node left op right)
  | sign
      {op : Token} {e : Expr}
      (hOp : op.kind = .bang ∨ op.kind = .minus)
      (hOperand : Generates .unary e) :
      Generates .unary (.unary op e)
  | call
      {paren : Token} {callee : Expr} {args : List Expr}
      (hCallee : Generates .call callee)
      (hArgs : ∀ arg ∈ args, Generates .assignment arg)
      (hCount : args.length ≤ 255)
      (hParen : paren.kind = .rightParen) :
      Generates .call (.call callee paren args)
  | literal {value : Literal} :
      Generates .primary (.literal value)
  | name
      {name : Token}
      (hName : name.kind = .identifier) :
      Generates .primary (.variable name none)
  | grouping
      {e : Expr}
      (hInner : Generates .assignment e) :
      Generates .primary (.grouping e)

/- A tree of a level is one of every looser level. -/
theorem Tier.Generates.loosen
    {tier tight : Tier}
    {e : Expr}
    (hGenerates : Generates tight e)
    (hRank : tier.rank ≤ tight.rank) :
    Generates tier e :=
  Tier.descend (P := fun tier => Generates tier e) hGenerates
    (fun _ hTighter => .tighter hTighter) tier hRank

end Lox

------------------------------------------------------------
-- Spellings
------------------------------------------------------------

namespace Lox

/- What is asked of one token of a spelling. -/
inductive Letter where
  | exactly (t : Token)
  | mark (kind : Kind)
  | constant (kind : Kind) (value : Literal)

/- Whether a token is as it is asked to be. -/
def Letter.Matches : Letter → Token → Prop
  | .exactly u, t => t = u
  | .mark kind, t => t.kind = kind
  | .constant kind value, t => t.kind = kind ∧ t.literal = value

/- What is asked of the token of a constant. -/
def Literal.letter : Literal → Letter
  | .nil => .mark .nilKw
  | .bool false => .mark .falseKw
  | .bool true => .mark .trueKw
  | .number x => .constant .number (.number x)
  | .string s => .constant .string (.string s)

/- Spellings one after another, with commas between them. -/
def Letter.listed : List (List Letter) → List Letter
  | [] => []
  | [spelling] => spelling
  | spelling :: others =>
      spelling ++ .mark .comma :: listed others

mutual

/- What is asked of the tokens that spell an expression. -/
def Expr.spelling : Expr → List Letter
  | .literal value => [value.letter]
  | .variable name _ => [.exactly name]
  | .assign name value _ =>
      .exactly name :: .mark .equal :: value.spelling
  | .binary left op right =>
      left.spelling ++ .exactly op :: right.spelling
  | .logical left op right =>
      left.spelling ++ .exactly op :: right.spelling
  | .unary op operand => .exactly op :: operand.spelling
  | .grouping inner =>
      .mark .leftParen ::
        (inner.spelling ++ [.mark .rightParen])
  | .call callee paren args =>
      callee.spelling ++ .mark .leftParen ::
        (Letter.listed (Expr.spellings args) ++ [.exactly paren])

def Expr.spellings : List Expr → List (List Letter)
  | [] => []
  | arg :: args => arg.spelling :: Expr.spellings args

end

/- Tokens that are, one by one, as they are asked to be. -/
abbrev Spells (tokens : List Token) (letters : List Letter) : Prop :=
  List.Forall₂ (fun t p => p.Matches t) tokens letters

/- The tokens that spell an expression. -/
def Expr.IsSpelledBy (e : Expr) (tokens : List Token) : Prop :=
  Spells tokens e.spelling

/-
  Whether a token that is a number or a string says which one
  it is.
-/
def Token.CarriesLiteral (t : Token) : Prop :=
  (t.kind = .number → ∃ x, t.literal = .number x) ∧
    (t.kind = .string → ∃ s, t.literal = .string s)

theorem Tier.node_spelling
    {tier : Tier}
    {op : Token}
    {left right : Expr} :
    (tier.node left op right).spelling =
      left.spelling ++ .exactly op :: right.spelling := by
  cases tier <;> simp [Tier.node, Expr.spelling]

/- The spelling of two parts is split between the parts. -/
theorem Spells.split
    {tokens : List Token}
    {letters others : List Letter}
    (hSpells : Spells tokens (letters ++ others)) :
    ∃ firsts seconds,
      tokens = firsts ++ seconds ∧
      Spells firsts letters ∧ Spells seconds others := by
  induction letters generalizing tokens with
  | nil => exact ⟨[], tokens, rfl, .nil, hSpells⟩
  | cons letter letters ih =>
      cases hSpells with
      | @cons t _ tokens _ hMatches hRest =>
          rcases ih hRest with
            ⟨firsts, seconds, rfl, hFirsts, hSeconds⟩
          exact
            ⟨t :: firsts, seconds, rfl, .cons hMatches hFirsts,
              hSeconds⟩

theorem Spells.append
    {tokens more : List Token}
    {letters others : List Letter}
    (hSpells : Spells tokens letters)
    (hMore : Spells more others) :
    Spells (tokens ++ more) (letters ++ others) :=
  List.rel_append hSpells hMore

end Lox

------------------------------------------------------------
-- What Is Derived Is Spelled
------------------------------------------------------------

namespace Lox

theorem Expr.AtomDerives.spelled
    {e : Expr}
    {t : Token}
    (hAtom : e.AtomDerives t)
    (hCarries : t.CarriesLiteral) :
    Tier.primary.Generates e ∧ e.IsSpelledBy [t] := by
  cases hAtom with
  | no hKind | yes hKind | nil hKind =>
      exact ⟨.literal, .cons hKind .nil⟩
  | number hKind =>
      rcases hCarries.1 hKind with ⟨x, hLiteral⟩
      rw [hLiteral]
      exact ⟨.literal, .cons ⟨hKind, hLiteral⟩ .nil⟩
  | string hKind =>
      rcases hCarries.2 hKind with ⟨s, hLiteral⟩
      rw [hLiteral]
      exact ⟨.literal, .cons ⟨hKind, hLiteral⟩ .nil⟩
  | name hKind => exact ⟨.name hKind, .cons rfl .nil⟩

/- What a derivation says of a tree and its spelling. -/
def Phrase.Spelled : Phrase → List Token → Prop
  | .expression tier e, tokens =>
      tier.Generates e ∧ e.IsSpelledBy tokens
  | .arguments args, tokens =>
      (∀ arg ∈ args, Tier.assignment.Generates arg) ∧
        args ≠ [] ∧
        Spells tokens (Letter.listed (Expr.spellings args))

theorem Phrase.Derives.spelled
    {phrase : Phrase}
    {tokens : List Token}
    (hDerives : phrase.Derives tokens)
    (hCarries : ∀ t ∈ tokens, t.CarriesLiteral) :
    phrase.Spelled tokens := by
  induction hDerives with
  | tighter _ ih =>
      have hTighter := ih hCarries
      exact ⟨.tighter hTighter.1, hTighter.2⟩
  | assign hName hEquals _ ih =>
      have hValue := ih fun t ht => hCarries t (by simp [ht])
      constructor
      · exact .assign hName hValue.1
      · exact .cons rfl (.cons hEquals hValue.2)
  | operator hInfix _ hOp _ ihLeft ihRight =>
      have hLeft := ihLeft fun t ht => hCarries t (by simp [ht])
      have hRight :=
        ihRight fun t ht => hCarries t (by simp [ht])
      constructor
      · exact .operator hInfix hLeft.1 hOp hRight.1
      · unfold Expr.IsSpelledBy
        rw [Tier.node_spelling]
        exact hLeft.2.append (.cons rfl hRight.2)
  | sign hOp _ ih =>
      have hOperand := ih fun t ht => hCarries t (by simp [ht])
      constructor
      · exact .sign hOp hOperand.1
      · exact .cons rfl hOperand.2
  | plainCall _ hOpening hParen ihCallee =>
      have hCallee :=
        ihCallee fun t ht => hCarries t (by simp [ht])
      constructor
      · exact .call hCallee.1 (by simp) (by simp) hParen
      · exact hCallee.2.append (.cons hOpening (.cons rfl .nil))
  | call _ hOpening _ hCount hParen ihCallee ihArgs =>
      have hCallee :=
        ihCallee fun t ht => hCarries t (by simp [ht])
      have hArgs := ihArgs fun t ht => hCarries t (by simp [ht])
      constructor
      · exact .call hCallee.1 hArgs.1 hCount hParen
      · apply hCallee.2.append
        exact .cons hOpening (hArgs.2.2.append (.cons rfl .nil))
  | atom hAtom => exact hAtom.spelled (hCarries _ (by simp))
  | grouping hOpening _ hClosing ih =>
      have hInner := ih fun t ht => hCarries t (by simp [ht])
      constructor
      · exact .grouping hInner.1
      · exact
          .cons hOpening (hInner.2.append (.cons hClosing .nil))
  | lastArgument _ ih =>
      have hArg := ih hCarries
      refine ⟨?_, by simp, hArg.2⟩
      simpa using hArg.1
  | @argument comma e args tokens others _ hComma _ ih ihArgs =>
      have hArg := ih fun t ht => hCarries t (by simp [ht])
      have hArgs := ihArgs fun t ht => hCarries t (by simp [ht])
      refine ⟨?_, by simp, ?_⟩
      · intro arg hMem
        rcases List.mem_cons.mp hMem with rfl | hMem
        · exact hArg.1
        · exact hArgs.1 arg hMem
      · cases args with
        | nil => exact absurd rfl hArgs.2.1
        | cons next args =>
            exact hArg.2.append (.cons hComma hArgs.2.2)

end Lox

------------------------------------------------------------
-- What Is Spelled Is Derived
------------------------------------------------------------

namespace Lox

/- Arguments are derived from their spellings with commas. -/
theorem derives_arguments_of_spells
    {args : List Expr}
    (hArgs :
      ∀ arg ∈ args, ∀ tokens, arg.IsSpelledBy tokens →
        arg.Derives tokens)
    (hSome : args ≠ [])
    {tokens : List Token}
    (hSpells :
      Spells tokens (Letter.listed (Expr.spellings args))) :
    (Phrase.arguments args).Derives tokens := by
  induction args generalizing tokens with
  | nil => exact absurd rfl hSome
  | cons arg args ih =>
      cases args with
      | nil =>
          exact .lastArgument (hArgs arg (by simp) tokens hSpells)
      | cons next args =>
          rcases Spells.split hSpells with
            ⟨firsts, seconds, rfl, hFirsts, hSeconds⟩
          cases hSeconds with
          | cons hComma hOthers =>
              apply Phrase.Derives.argument _ hComma
              · apply ih _ (by simp) hOthers
                intro other hMem
                exact hArgs other (List.mem_cons_of_mem _ hMem)
              · exact hArgs arg (by simp) firsts hFirsts

theorem atomDerives_literal
    {value : Literal}
    {t : Token}
    (hMatches : value.letter.Matches t) :
    (Expr.literal value).AtomDerives t := by
  cases value with
  | nil => exact .nil hMatches
  | bool value =>
      cases value with
      | false => exact .no hMatches
      | true => exact .yes hMatches
  | number x =>
      rw [← hMatches.2]
      exact .number hMatches.1
  | string s =>
      rw [← hMatches.2]
      exact .string hMatches.1

theorem Tier.Generates.derives
    {tier : Tier}
    {e : Expr}
    (hGenerates : tier.Generates e)
    {tokens : List Token}
    (hSpells : e.IsSpelledBy tokens) :
    (Phrase.expression tier e).Derives tokens := by
  induction hGenerates generalizing tokens with
  | tighter _ ih => exact .tighter (ih hSpells)
  | assign hName _ ih =>
      cases hSpells with
      | cons hExactly hRest =>
          cases hRest with
          | cons hEquals hValue =>
              have hSame : _ = _ := hExactly
              rw [hSame]
              exact .assign hName hEquals (ih hValue)
  | operator hInfix _ hOp _ ihLeft ihRight =>
      unfold Expr.IsSpelledBy at hSpells
      rw [Tier.node_spelling] at hSpells
      rcases Spells.split hSpells with
        ⟨lefts, rest, rfl, hLeft, hRest⟩
      cases hRest with
      | cons hExactly hRight =>
          have hSame : _ = _ := hExactly
          rw [hSame]
          exact .operator hInfix (ihLeft hLeft) hOp (ihRight hRight)
  | sign hOp _ ih =>
      cases hSpells with
      | cons hExactly hOperand =>
          have hSame : _ = _ := hExactly
          rw [hSame]
          exact .sign hOp (ih hOperand)
  | @call paren callee args _ _ hCount hParen ihCallee ihArgs =>
      rcases Spells.split hSpells with
        ⟨callees, rest, rfl, hCallee, hRest⟩
      cases hRest with
      | cons hOpening hRest =>
          rcases Spells.split hRest with
            ⟨others, last, rfl, hArgs, hLast⟩
          cases hLast with
          | cons hExactly hNil =>
              cases hNil
              have hSame : _ = paren := hExactly
              rw [hSame]
              by_cases hSome : args = []
              · subst hSome
                cases hArgs
                exact .plainCall (ihCallee hCallee) hOpening hParen
              · apply
                  Phrase.Derives.call (ihCallee hCallee) hOpening _
                    hCount hParen
                apply derives_arguments_of_spells _ hSome hArgs
                intro arg hMem tokens hArg
                exact ihArgs arg hMem hArg
  | literal =>
      cases hSpells with
      | cons hMatches hNil =>
          cases hNil
          exact .atom (atomDerives_literal hMatches)
  | @name name hName =>
      cases hSpells with
      | cons hExactly hNil =>
          cases hNil
          have hSame : _ = name := hExactly
          rw [hSame]
          exact Phrase.derives_name hName .primary
  | grouping _ ih =>
      cases hSpells with
      | cons hOpening hRest =>
          rcases Spells.split hRest with
            ⟨inner, last, rfl, hInner, hLast⟩
          cases hLast with
          | cons hClosing hNil =>
              cases hNil
              exact .grouping hOpening (ih hInner) hClosing

/-
  To be derived from tokens is to be a tree of the grammar
  that they spell.
-/
theorem derives_iff_generates
    {tier : Tier}
    {e : Expr}
    {tokens : List Token}
    (hCarries : ∀ t ∈ tokens, t.CarriesLiteral) :
    (Phrase.expression tier e).Derives tokens ↔
      tier.Generates e ∧ e.IsSpelledBy tokens := by
  constructor
  · intro hDerives
    exact hDerives.spelled hCarries
  · intro hSpelled
    exact hSpelled.1.derives hSpelled.2

end Lox

------------------------------------------------------------
-- Tokens That Carry On
------------------------------------------------------------

namespace Lox

open Grammar

/- The tokens of an expression do not begin another one. -/
theorem Phrase.Derives.stops_after
    {e other : Expr}
    {t : Token}
    {tokens more : List Token}
    (hDerives : e.Derives tokens)
    (hOther : other.Derives (tokens ++ t :: more)) :
    ¬ Tier.assignment.Stops t := by
  intro hStops
  have hNesting :
      10 * tokens.length ≤
        10 * (tokens ++ t :: more).length := by
    simp only [List.length_append]
    omega
  have hShort :=
    Grammar.accepts_expression hDerives hNesting (t :: more)
      (by simpa using hStops)
  have hLong :=
    Grammar.accepts_expression hOther (Nat.le_refl _) []
      (by simp)
  let c : Cursor :=
    { upcoming := tokens ++ t :: more, last := t }
  have hFirst := hShort c rfl
  have hSecond := hLong c (by simp [c])
  rw [hFirst] at hSecond
  injection hSecond with hSame hSkip
  have hPlace := congrArg Cursor.place hSkip
  simp [Cursor.skip] at hPlace

/-
  The table of precedence tells which tokens can stand after
  an expression within a larger one.
-/
theorem continues_iff_spelling (t : Token) :
    t.kind.continues .assignment ↔
      ∃ (e other : Expr) (tokens more : List Token),
        Tier.assignment.Generates e ∧
        e.IsSpelledBy tokens ∧
        Tier.assignment.Generates other ∧
        other.IsSpelledBy (tokens ++ t :: more) := by
  constructor
  · intro hContinues
    rcases (Option.any_eq_true _ _).mp hContinues with
      ⟨tier, hTier, _⟩
    let a : Token := { kind := .identifier, lexeme := "a" }
    let paren : Token := { kind := .rightParen, lexeme := ")" }
    let name : Expr := .variable a none
    have hName (level : Tier) : level.Generates name :=
      (Tier.Generates.name rfl).loosen level.rank_le_primary
    have hSpelled : name.IsSpelledBy [a] := .cons rfl .nil
    refine ⟨name, ?_⟩
    by_cases hInfix : tier.isInfix
    · have hOperator :=
        Tier.Generates.operator hInfix (hName tier) hTier
          (hName tier.tighter)
      refine
        ⟨tier.node name t name, [a], [a], hName _, hSpelled,
          hOperator.loosen (by cases tier <;> decide), ?_⟩
      unfold Expr.IsSpelledBy
      rw [Tier.node_spelling]
      exact hSpelled.append (.cons rfl hSpelled)
    · cases tier with
      | assignment =>
          have hEquals : t.kind = .equal := by
            revert hTier
            cases t.kind <;> decide
          exact
            ⟨.assign a name none, [a], [a], hName _, hSpelled,
              .assign rfl (hName _),
              .cons rfl (.cons hEquals hSpelled)⟩
      | call =>
          have hOpening : t.kind = .leftParen := by
            revert hTier
            cases t.kind <;> decide
          have hCall : Tier.call.Generates (.call name paren []) :=
            .call (hName _) (by simp) (by simp) rfl
          exact
            ⟨.call name paren [], [a], [paren], hName _, hSpelled,
              hCall.loosen (by decide),
              hSpelled.append (.cons hOpening (.cons rfl .nil))⟩
      | unary | primary =>
          exfalso
          revert hTier
          cases t.kind <;> decide
      | _ => exact absurd rfl hInfix
  · rintro
      ⟨e, other, tokens, more, hFirst, hSpelled, hSecond, hLonger⟩
    have hStops :=
      (hFirst.derives hSpelled).stops_after
        (hSecond.derives hLonger)
    simpa [Tier.Stops] using hStops

end Lox

------------------------------------------------------------
-- Reading Spellings
------------------------------------------------------------

namespace Lox

/-
  Reading the spelling of a tree before a token that does not
  carry on with an expression gives the tree and reports
  nothing; and a tree that is read with nothing reported is
  generated by the grammar and spelled by the tokens that were
  read. A token that carries on is one that can stand after an
  expression in the spelling of another one. The nesting that
  is allowed is taken to be large for the number of tokens.
-/
theorem expression_iff_spelling (nesting : Nat) :
    (∀ (e : Expr) (tokens rest : List Token) (c : Cursor),
      Tier.assignment.Generates e →
      e.IsSpelledBy tokens →
      c.upcoming = tokens ++ rest →
      (∀ t ∈ rest.head?, ¬ t.kind.continues .assignment) →
      10 * tokens.length ≤ nesting →
        Grammar.expression nesting c =
          .ok e
            { c with
              upcoming := rest
              place := c.place + tokens.length }) ∧
    (∀ (e : Expr) (c d : Cursor),
      (∀ t ∈ c.upcoming, t.CarriesLiteral) →
      Grammar.expression nesting c = .ok e d →
      d.errors = c.errors →
        ∃ tokens,
          c.upcoming = tokens ++ d.upcoming ∧
          d.place = c.place + tokens.length ∧
          e.IsSpelledBy tokens ∧
          Tier.assignment.Generates e) ∧
    (∀ t : Token,
      t.kind.continues .assignment ↔
        ∃ (e other : Expr) (tokens more : List Token),
          Tier.assignment.Generates e ∧
          e.IsSpelledBy tokens ∧
          Tier.assignment.Generates other ∧
          other.IsSpelledBy (tokens ++ t :: more)) := by
  refine ⟨?_, ?_, continues_iff_spelling⟩
  · intro e tokens rest c hGenerates hSpells hUpcoming hStops
      hNesting
    have hAccepts :=
      Grammar.accepts_expression (hGenerates.derives hSpells)
        hNesting rest
        (fun t ht => by simpa [Tier.Stops] using hStops t ht)
    rw [hAccepts c hUpcoming]
    simp [Cursor.skip, hUpcoming]
  · intro e c d hCarries hRun hErrors
    have hReads := Grammar.reads_expression nesting
    rcases hReads.read hRun hErrors with
      ⟨tokens, hUpcoming, hDerives⟩
    have hSkip :=
      (hReads.proceeds.leads hRun).eq_skip hErrors hUpcoming
    have hTokens : ∀ t ∈ tokens, t.CarriesLiteral := by
      intro t ht
      apply hCarries
      rw [hUpcoming]
      exact List.mem_append_left _ ht
    have hSpelled := (derives_iff_generates hTokens).mp hDerives
    refine ⟨tokens, hUpcoming, ?_, hSpelled.2, hSpelled.1⟩
    rw [hSkip, Cursor.place_skip]

/- The cursor at the first token of `a = b - c - d;`. -/
def differences : Cursor :=
  .ofTokens
    [ ⟨.identifier, "a", .nil, 1, 0⟩, ⟨.equal, "=", .nil, 1, 2⟩,
      ⟨.identifier, "b", .nil, 1, 4⟩,
      ⟨.minus, "-", .nil, 1, 6⟩,
      ⟨.identifier, "c", .nil, 1, 8⟩,
      ⟨.minus, "-", .nil, 1, 10⟩,
      ⟨.identifier, "d", .nil, 1, 12⟩,
      ⟨.semicolon, ";", .nil, 1, 13⟩, ⟨.eof, "", .nil, 1, 14⟩ ]

/- The first difference is the left operand of the second. -/
theorem expression_differences :
    Grammar.expression 70 differences =
      .ok
        (.assign ⟨.identifier, "a", .nil, 1, 0⟩
          (.binary
            (.binary
              (.variable ⟨.identifier, "b", .nil, 1, 4⟩ none)
              ⟨.minus, "-", .nil, 1, 6⟩
              (.variable ⟨.identifier, "c", .nil, 1, 8⟩ none))
            ⟨.minus, "-", .nil, 1, 10⟩
            (.variable ⟨.identifier, "d", .nil, 1, 12⟩ none))
          none)
        { differences with
          upcoming := [⟨.semicolon, ";", .nil, 1, 13⟩]
          place := 7 } := by
  apply
    (expression_iff_spelling 70).1 _
      [ ⟨.identifier, "a", .nil, 1, 0⟩,
        ⟨.equal, "=", .nil, 1, 2⟩,
        ⟨.identifier, "b", .nil, 1, 4⟩,
        ⟨.minus, "-", .nil, 1, 6⟩,
        ⟨.identifier, "c", .nil, 1, 8⟩,
        ⟨.minus, "-", .nil, 1, 10⟩,
        ⟨.identifier, "d", .nil, 1, 12⟩ ]
  · have hName :
        ∀ {name : Token}, name.kind = .identifier →
          ∀ tier, Tier.Generates tier (.variable name none) := by
      intro name hName tier
      exact (Tier.Generates.name hName).loosen
        tier.rank_le_primary
    have hFirst :
        Tier.sum.Generates (Tier.sum.node _ _ _) :=
      .operator rfl
        (@hName ⟨.identifier, "b", .nil, 1, 4⟩ rfl .sum)
        (@rfl _ (Kind.tier? (Token.kind
          ⟨.minus, "-", .nil, 1, 6⟩)))
        (@hName ⟨.identifier, "c", .nil, 1, 8⟩ rfl .product)
    have hSecond :
        Tier.sum.Generates (Tier.sum.node _ _ _) :=
      .operator rfl hFirst
        (@rfl _ (Kind.tier? (Token.kind
          ⟨.minus, "-", .nil, 1, 10⟩)))
        (@hName ⟨.identifier, "d", .nil, 1, 12⟩ rfl .product)
    exact .assign rfl (hSecond.loosen (by decide))
  · simp [Expr.IsSpelledBy, Expr.spelling, Letter.Matches]
  · rfl
  · simp [Kind.continues, Kind.tier?]
  · decide

end Lox
