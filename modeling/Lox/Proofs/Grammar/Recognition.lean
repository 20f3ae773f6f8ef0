import Lox.Proofs.Grammar.Precedence

/-
  Reading programs is deriving them.

  The readers of statements and declarations move over the
  tokens of a derivation and over nothing else, and a program
  is read with no error exactly if all of its tokens before
  the end are derived. What is read is then the tree of the
  derivation, so a program has one tree at most.

  Main declarations:
    * `reads_declaration`
    * `Clause.accepted_of_derives`
    * `parse_iff_derives`
-/

------------------------------------------------------------
-- Simple Statements
------------------------------------------------------------

namespace Lox.Grammar

open Reader

section Simple

variable {expression : Reader Expr}
variable (hExpression : ReadsTier expression .assignment)

include hExpression

theorem reads_expressionStatement :
    (expressionStatement expression).Reads fun tokens s _ =>
      s.ExpressionDerives tokens := by
  refine (hExpression.closed _ _ _).mono ?_
  rintro _ s _ ⟨e, part, t, rfl, hEnd, rfl, hExpr⟩
  exact .mk hExpr hEnd

theorem reads_printRest :
    (printRest expression).Reads fun tokens s _ =>
      ∀ keyword : Token, keyword.kind = .printKw →
        (Clause.statement false s).Derives
          (keyword :: tokens) := by
  refine (hExpression.closed _ _ _).mono ?_
  rintro _ s _ ⟨e, part, t, rfl, hEnd, rfl, hExpr⟩ keyword hKeyword
  exact .print hKeyword hExpr hEnd

theorem reads_optional (kind : Kind) :
    (unlessNext kind none (some <$> expression)).Reads
      fun tokens value _ =>
        Expr.OptionDerives value tokens := by
  refine ((hExpression.map some).unlessNext kind none).mono ?_
  rintro tokens value _ (⟨rfl, rfl⟩ | ⟨e, rfl, hExpr⟩)
  · exact .none
  · exact .some hExpr

theorem reads_condition :
    (unlessNext .semicolon (.literal (.bool true))
      expression).Reads fun tokens e _ =>
        ∃ condition : Option Expr,
          e = condition.getD (.literal (.bool true)) ∧
            Expr.OptionDerives condition tokens := by
  refine (hExpression.unlessNext .semicolon _).mono ?_
  rintro tokens e _ (⟨rfl, rfl⟩ | hExpr)
  · exact ⟨none, rfl, .none⟩
  · exact ⟨some e, rfl, .some hExpr⟩

theorem reads_returnRest (keyword : Token) :
    (returnRest expression keyword).Reads fun tokens s _ =>
      keyword.kind = .returnKw →
        (Clause.statement false s).Derives
          (keyword :: tokens) := by
  refine ((reads_optional hExpression _).closed _ _ _).mono ?_
  rintro _ s _ ⟨value, part, t, rfl, hEnd, rfl, hValue⟩ hKeyword
  exact .ret hKeyword hValue hEnd

theorem reads_variableRest :
    (variableRest expression).Reads fun tokens s _ =>
      s.VariableDerives tokens := by
  refine
    (reads_expect _ _).bind
      (fun name =>
        (hExpression.optionalAfter .equal).closed _ _ _) ?_
  rintro name s _ _ rest ⟨rfl, hName⟩
    ⟨value, part, t, rfl, hEnd, rfl, hValue⟩
  rcases hValue with
    ⟨rfl, rfl, _⟩ | ⟨equals, others, e, rfl, rfl, hEquals, hExpr⟩
  · exact .plain hName hEnd
  · exact .initialized hName hEquals hExpr hEnd

theorem reads_forInitializer :
    (forInitializer expression).Reads fun tokens initializer _ =>
      Stmt.InitializerDerives initializer tokens := by
  refine Reads.acceptsThen ?_ ?_
  · refine Reads.acceptsThen ?_ ?_
    · refine
        ((reads_expressionStatement hExpression).map some).mono ?_
      rintro tokens _ _ ⟨s, rfl, hStatement⟩
      exact .expression hStatement
    · refine ((reads_variableRest hExpression).map some).mono ?_
      rintro tokens _ _ ⟨s, rfl, hVariable⟩ keyword hKeyword
      exact .var hKeyword hVariable
  · refine (reads_pure none).mono ?_
    rintro _ _ _ ⟨rfl, rfl⟩ semicolon hEnd
    exact .none hEnd

end Simple

end Lox.Grammar

------------------------------------------------------------
-- Branches, Loops And Blocks
------------------------------------------------------------

namespace Lox.Grammar

open Reader

/- An `else` that could belong to the statement does not follow. -/
def NoElse (takesElse : Bool) (rest : List Token) : Prop :=
  takesElse → ∀ t ∈ rest.head?, t.kind ≠ .elseKw

/- What a reader of statements reads. -/
abbrev ReadsStatement (reader : Reader Stmt) : Prop :=
  reader.Reads fun tokens s rest =>
    ∃ takesElse,
      (Clause.statement takesElse s).Derives tokens ∧
        NoElse takesElse rest

/- What a reader of a statement reads after its keyword. -/
abbrev ReadsAfter (kind : Kind) (reader : Reader Stmt) : Prop :=
  reader.Reads fun tokens s rest =>
    ∀ keyword : Token, keyword.kind = kind →
      ∃ takesElse,
        (Clause.statement takesElse s).Derives
          (keyword :: tokens) ∧
            NoElse takesElse rest

theorem noElse_false (rest : List Token) : NoElse false rest :=
  fun hFalse => by cases hFalse

section Nested

variable {expression : Reader Expr} {statement : Reader Stmt}
variable (hExpression : ReadsTier expression .assignment)
variable (hStatement : ReadsStatement statement)

include hExpression hStatement

theorem reads_ifRest :
    ReadsAfter .ifKw (ifRest expression statement) := by
  refine
    ((hExpression.thenExpect
      (S := fun condition tokens s rest =>
        ∀ {keyword opening closing : Token}
          {conditions : List Token},
          keyword.kind = .ifKw →
          opening.kind = .leftParen →
          condition.Derives conditions →
          closing.kind = .rightParen →
            ∃ takesElse,
              (Clause.statement takesElse s).Derives
                (keyword :: opening ::
                  (conditions ++ closing :: tokens)) ∧
              NoElse takesElse rest)
      (fun condition => ?_) _ _).expectThen _ _).mono ?_
  · refine
      hStatement.bind
        (S := fun thenBranch tokens s rest =>
          (s = .ifThen condition thenBranch ∧ tokens = [] ∧
            NoElse true rest) ∨
          ∃ t others elseBranch takesElse,
            s = .ifElse condition thenBranch elseBranch ∧
            tokens = t :: others ∧ t.kind = .elseKw ∧
            (Clause.statement takesElse elseBranch).Derives
              others ∧
            NoElse takesElse rest)
        ?_ ?_
    · intro thenBranch
      refine
        (hStatement.optionalAfter .elseKw).bind
          (S := fun found tokens s _ =>
            tokens = [] ∧
              s =
                found.elim (.ifThen condition thenBranch)
                  (.ifElse condition thenBranch))
          ?_ ?_
      · intro found
        cases found with
        | none => exact reads_pure _
        | some elseBranch => exact reads_pure _
      · rintro found s tokens _ rest hFound ⟨rfl, rfl⟩
        rcases hFound with
          ⟨rfl, rfl, hNot⟩ |
          ⟨t, others, elseBranch, rfl, rfl, hElse, takesElse,
            hBranch, hNoElse⟩
        · exact .inl ⟨rfl, rfl, fun _ => hNot⟩
        · exact
            .inr ⟨t, others, elseBranch, takesElse, rfl,
              by simp, hElse, hBranch, hNoElse⟩
    · rintro thenBranch s thens others rest
        ⟨takesElse, hThen, hNoElse⟩ hRest keyword opening closing
        conditions hKeyword hOpening hCondition hClosing
      rcases hRest with
        ⟨rfl, rfl, hNot⟩ |
        ⟨t, elses, elseBranch, takesLast, rfl, rfl, hElse,
          hBranch, hLast⟩
      · refine ⟨true, ?_, hNot⟩
        simpa using
          Clause.Derives.ifThen hKeyword hOpening hCondition
            hClosing hThen
      · have hFalse : takesElse = false := by
          cases takesElse with
          | false => rfl
          | true => exact absurd hElse (hNoElse rfl t (by simp))
        subst hFalse
        exact
          ⟨takesLast,
            .ifElse hKeyword hOpening hCondition hClosing hThen
              hElse hBranch,
            hLast⟩
  · rintro _ s rest
      ⟨opening, _, rfl, hOpening, condition, conditions, closing,
        tokens, rfl, hClosing, hCondition, hRest⟩ keyword hKeyword
    exact hRest hKeyword hOpening hCondition hClosing

theorem reads_whileRest :
    ReadsAfter .whileKw (whileRest expression statement) := by
  refine
    ((hExpression.thenExpect
      (fun condition =>
        hStatement.map (Stmt.loop condition)) _ _).expectThen
      _ _).mono ?_
  rintro _ s rest
    ⟨opening, _, rfl, hOpening, condition, conditions, closing,
      tokens, rfl, hClosing, hCondition, body, rfl, takesElse,
      hBody, hNoElse⟩ keyword hKeyword
  exact
    ⟨takesElse,
      .whileLoop hKeyword hOpening hCondition hClosing hBody,
      hNoElse⟩

theorem reads_forRest :
    ReadsAfter .forKw (forRest expression statement) := by
  refine
    (((reads_forInitializer hExpression).bind
      (Q := fun tokens s rest =>
        ∀ {keyword opening : Token},
          keyword.kind = .forKw →
          opening.kind = .leftParen →
            ∃ takesElse,
              (Clause.statement takesElse s).Derives
                (keyword :: opening :: tokens) ∧
              NoElse takesElse rest)
      (fun initializer =>
        (reads_condition hExpression).thenExpect
          (fun condition =>
            (reads_optional hExpression .rightParen).thenExpect
              (fun increment =>
                hStatement.map
                  (forLoop initializer condition increment))
              _ _)
          _ _)
      ?_).expectThen _ _).mono ?_
  · rintro initializer s initials _ rest hInitializer
      ⟨_, conditions, semicolon, _, rfl, hEnd,
        ⟨condition, rfl, hCondition⟩, increment, increments,
        closing, tokens, rfl, hClosing, hIncrement, body, rfl,
        takesElse, hBody, hNoElse⟩ keyword opening hKeyword
      hOpening
    exact
      ⟨takesElse,
        .forLoop hKeyword hOpening hInitializer hCondition hEnd
          hIncrement hClosing hBody,
        hNoElse⟩
  · rintro _ s rest ⟨opening, tokens, rfl, hOpening, hRest⟩
      keyword hKeyword
    exact hRest hKeyword hOpening

end Nested

end Lox.Grammar

------------------------------------------------------------
-- Declarations
------------------------------------------------------------

namespace Lox.Grammar

open Reader

/- What a reader of declarations reads. -/
abbrev ReadsDeclaration (reader : Reader (Option Stmt)) : Prop :=
  reader.Reads fun tokens found _ =>
    ∃ s, found = some s ∧ (Clause.declaration s).Derives tokens

section Bodies

variable {declaration : Reader (Option Stmt)}
variable (hDeclaration : ReadsDeclaration declaration)

include hDeclaration

theorem reads_declarationsFrom
    (ticks : List Token)
    (body : List Stmt) :
    (declarationsFrom declaration ticks body).Reads
      fun tokens result _ =>
        ∃ more,
          result = body.reverse ++ more ∧
            (Clause.declarations more).Derives tokens := by
  induction ticks generalizing body with
  | nil =>
      refine (reads_pure _).mono ?_
      rintro _ _ _ ⟨rfl, rfl⟩
      exact ⟨[], by simp, .done⟩
  | cons tick ticks ih =>
      refine
        (reads_nextIs _).bind
          (S := fun _ tokens result _ =>
            ∃ more,
              result = body.reverse ++ more ∧
                (Clause.declarations more).Derives tokens)
          (fun closes =>
            reads_atEnd.bind
              (S := fun _ tokens result _ =>
                ∃ more,
                  result = body.reverse ++ more ∧
                    (Clause.declarations more).Derives tokens)
              (fun ended => ?_) ?_) ?_
      · cases hStop : closes || ended with
        | true =>
            refine (reads_pure _).mono ?_
            rintro _ _ _ ⟨rfl, rfl⟩
            exact ⟨[], by simp, .done⟩
        | false =>
            refine
              hDeclaration.bind
                (S := fun found tokens result _ =>
                  ∀ s, found = some s →
                    ∃ more,
                      result = body.reverse ++ s :: more ∧
                        (Clause.declarations more).Derives tokens)
                ?_ ?_
            · intro found
              cases found with
              | none =>
                  refine (ih body).mono ?_
                  intro _ _ _ _ s hNone
                  cases hNone
              | some first =>
                  refine (ih (first :: body)).mono ?_
                  rintro _ _ _ ⟨more, rfl, hMore⟩ s hSome
                  cases hSome
                  exact ⟨more, by simp, hMore⟩
            · rintro found result tokens others rest
                ⟨s, rfl, hFirst⟩ hRest
              rcases hRest s rfl with ⟨more, rfl, hMore⟩
              exact ⟨s :: more, rfl, .next hFirst hMore⟩
      · rintro ended result _ others rest rfl hRest
        exact hRest
      · rintro closes result _ others rest rfl hRest
        exact hRest

theorem reads_blockRest :
    (blockRest declaration).Reads fun tokens body _ =>
      ∃ others closing,
        tokens = others ++ [closing] ∧
          closing.kind = .rightBrace ∧
            (Clause.declarations body).Derives others := by
  refine Reads.afterUpcoming fun ticks => ?_
  refine
    ((reads_declarationsFrom hDeclaration ticks []).closed id _
      _).mono ?_
  rintro _ _ _ ⟨body, part, t, rfl, hKind, rfl, more, rfl, hMore⟩
  exact ⟨part, t, rfl, hKind, hMore⟩

theorem reads_functionRest :
    (functionRest declaration).Reads fun tokens s _ =>
      ∀ keyword : Token, keyword.kind = .funKw →
        (Clause.declaration s).Derives (keyword :: tokens) := by
  have hParams :
      (unlessNext .rightParen []
        (items (expect .identifier .expectParameterName)
          .tooManyParameters)).Reads fun tokens params _ =>
            ParamsDerive tokens params := by
    refine
      (((reads_expect _ _).items _).unlessNext
        .rightParen []).mono ?_
    rintro tokens params _ (⟨rfl, rfl⟩ | ⟨hItems, hCount⟩)
    · exact .none
    · exact .some hItems hCount
  refine
    (reads_expect _ _).bind
      (fun name =>
        (hParams.thenExpect
          (fun params =>
            ((reads_blockRest hDeclaration).map
              (Stmt.function name params)).expectThen _ _)
          _ _).expectThen _ _)
      ?_
  rintro name s _ _ rest ⟨rfl, hName⟩
    ⟨opening, _, rfl, hOpening, params, names, closing, _, rfl,
      hClosing, hParams, brace, _, rfl, hBrace, body, rfl, others,
      last, rfl, hLast, hBody⟩ keyword hKeyword
  exact
    .function hKeyword hName hOpening hParams hClosing hBrace
      hBody hLast

end Bodies

theorem reads_statement_step
    {nesting : Nat}
    (hStatement : ReadsStatement (statement nesting))
    (hDeclaration : ReadsDeclaration (declaration nesting)) :
    ReadsStatement (statement (nesting + 1)) := by
  have hExpression := reads_expression nesting
  rw [statement]
  refine Reads.acceptThen ?_ fun keyword => ?_
  · refine (reads_expressionStatement hExpression).mono ?_
    intro _ _ rest h
    exact ⟨false, .expression h, noElse_false rest⟩
  · dsimp only
    split
    · rename_i hKind
      refine (reads_forRest hExpression hStatement).mono ?_
      exact fun h _ => h keyword hKind
    · rename_i hKind
      refine (reads_ifRest hExpression hStatement).mono ?_
      exact fun h _ => h keyword hKind
    · rename_i hKind
      refine (reads_printRest hExpression).mono ?_
      exact fun h _ =>
        ⟨false, h keyword hKind, noElse_false _⟩
    · rename_i hKind
      refine (reads_returnRest hExpression keyword).mono ?_
      exact fun h _ => ⟨false, h hKind, noElse_false _⟩
    · rename_i hKind
      refine (reads_whileRest hExpression hStatement).mono ?_
      exact fun h _ => h keyword hKind
    · refine
        ((reads_blockRest hDeclaration).map Stmt.block).mono ?_
      rintro _ _ rest
        ⟨body, rfl, others, closing, rfl, hClosing, hBody⟩ hOpens
      refine
        ⟨false, .block ?_ hBody hClosing, noElse_false rest⟩
      cases hKind : keyword.kind <;> simp_all [opensStatement]

theorem reads_declaration_step
    {nesting : Nat}
    (hStatement : ReadsStatement (statement nesting))
    (hDeclaration : ReadsDeclaration (declaration nesting)) :
    ReadsDeclaration (declaration (nesting + 1)) := by
  have hExpression := reads_expression nesting
  rw [declaration]
  refine
    (Reads.recovering
      (P := fun tokens s _ =>
        (Clause.declaration s).Derives tokens) ?_)
  refine Reads.acceptThen ?_ fun keyword => ?_
  · refine hStatement.mono ?_
    rintro _ _ _ ⟨takesElse, h, _⟩
    exact .plain h
  · dsimp only
    split
    · rename_i hKind
      refine (reads_functionRest hDeclaration).mono ?_
      exact fun h _ => h keyword hKind
    · rename_i hKind
      refine (reads_variableRest hExpression).mono ?_
      intro _ _ _ h hOpens
      refine .var ?_ h
      cases hKeyword : keyword.kind <;>
        simp_all [opensDeclaration]

theorem reads_statements (nesting : Nat) :
    ReadsStatement (statement nesting) ∧
      ReadsDeclaration (declaration nesting) := by
  induction nesting with
  | zero =>
      rw [statement, declaration]
      exact ⟨reads_tooDeep _, reads_tooDeep _⟩
  | succ nesting ih =>
      exact
        ⟨reads_statement_step ih.1 ih.2,
          reads_declaration_step ih.1 ih.2⟩

theorem reads_declaration (nesting : Nat) :
    ReadsDeclaration (declaration nesting) :=
  (reads_statements nesting).2

end Lox.Grammar

------------------------------------------------------------
-- First Tokens
------------------------------------------------------------

namespace Lox

open Grammar

/- Whether a declaration can begin with a token of the kind. -/
def Kind.opens (kind : Kind) : Bool :=
  kind.starts .assignment || opensStatement kind ||
    opensDeclaration kind

/- The kinds that a declaration does not begin with. -/
theorem Kind.opens_ne
    {kind : Kind}
    (hOpens : kind.opens) :
    kind ≠ .elseKw ∧ kind ≠ .rightBrace := by
  revert hOpens
  cases kind <;> decide

theorem Stmt.ExpressionDerives.head
    {s : Stmt}
    {tokens : List Token}
    (hDerives : s.ExpressionDerives tokens) :
    ∃ t rest, tokens = t :: rest ∧ t.kind.starts .assignment := by
  rcases hDerives with ⟨hExpr, _⟩
  rcases hExpr.head with ⟨t, rest, rfl, hStarts⟩
  exact ⟨t, _, rfl, hStarts⟩

/-
  A statement begins with its keyword, or else its expression;
  a declaration may also begin with a keyword of its own.
-/
theorem Clause.Derives.head
    {clause : Clause}
    {tokens : List Token}
    (hDerives : clause.Derives tokens) :
    match clause with
    | .statement _ _ =>
        ∃ t rest, tokens = t :: rest ∧
          opensDeclaration t.kind = false ∧ t.kind.opens
    | .declaration _ =>
        ∃ t rest, tokens = t :: rest ∧ t.kind.opens
    | .declarations _ => True := by
  induction hDerives with
  | expression hExpression =>
      rcases hExpression.head with ⟨t, rest, rfl, hStarts⟩
      refine ⟨t, rest, rfl, ?_⟩
      revert hStarts
      cases t.kind <;> decide
  | print hKeyword | ret hKeyword | ifThen hKeyword
  | ifElse hKeyword | whileLoop hKeyword | forLoop hKeyword
  | block hKeyword =>
      exact
        ⟨_, _, rfl, by simp [hKeyword, opensDeclaration],
          by simp [hKeyword, Kind.opens, opensStatement]⟩
  | plain _ ih =>
      rcases ih with ⟨t, rest, rfl, _, hOpens⟩
      exact ⟨t, rest, rfl, hOpens⟩
  | var hKeyword | function hKeyword =>
      exact
        ⟨_, _, rfl,
          by simp [hKeyword, Kind.opens, opensDeclaration]⟩
  | done => trivial
  | next => trivial

end Lox

------------------------------------------------------------
-- Completeness For Parts Of Statements
------------------------------------------------------------

namespace Lox.Grammar

open Reader

section Simple

variable {nesting : Nat} {tokens : List Token}

theorem stops_semicolon
    {t : Token}
    (hEnd : t.kind = .semicolon) :
    Tier.assignment.Stops t := by
  simp [Tier.Stops, Kind.continues, Kind.tier?, hEnd]

/- An expression before a token that ends it. -/
theorem accepts_expression_before
    {e : Expr}
    {t : Token}
    (hExpr : e.Derives tokens)
    (hNesting : 10 * tokens.length ≤ nesting)
    (hStops : Tier.assignment.Stops t)
    (rest : List Token) :
    (expression nesting).Accepts tokens e (t :: rest) := by
  refine accepts_expression hExpr hNesting _ ?_
  intro u hu
  have hSame : t = u := by simpa using hu
  exact hSame ▸ hStops

theorem accepts_optional
    {value : Option Expr}
    {t : Token}
    {kind : Kind}
    (hValue : Expr.OptionDerives value tokens)
    (hNesting : 10 * tokens.length ≤ nesting)
    (hStops : Tier.assignment.Stops t)
    (hKind : t.kind = kind)
    (hStarts : kind.starts .assignment = false)
    (rest : List Token) :
    (unlessNext kind none
      (some <$> expression nesting)).Accepts tokens value
        (t :: rest) := by
  cases hValue with
  | none => exact accepts_absent hKind _ _ _
  | some hExpr =>
      refine
        ((accepts_expression_before hExpr hNesting hStops
          rest).map some).unlessNext ?_ none
      rcases hExpr.head with ⟨u, others, rfl, hHead⟩
      intro v hv hSame
      have hFirst : u = v := by simpa using hv
      subst hFirst
      rw [hSame, hStarts] at hHead
      cases hHead

theorem accepts_condition
    {condition : Option Expr}
    {t : Token}
    (hCondition : Expr.OptionDerives condition tokens)
    (hNesting : 10 * tokens.length ≤ nesting)
    (hEnd : t.kind = .semicolon)
    (rest : List Token) :
    (unlessNext .semicolon (.literal (.bool true))
      (expression nesting)).Accepts tokens
        (condition.getD (.literal (.bool true)))
        (t :: rest) := by
  cases hCondition with
  | none => exact accepts_absent hEnd _ _ _
  | some hExpr =>
      refine
        (accepts_expression_before hExpr hNesting
          (stops_semicolon hEnd) rest).unlessNext ?_ _
      rcases hExpr.head with ⟨u, others, rfl, hHead⟩
      intro v hv hSame
      have hFirst : u = v := by simpa using hv
      subst hFirst
      rw [hSame] at hHead
      cases hHead

theorem accepts_expressionStatement
    {s : Stmt}
    (hStatement : s.ExpressionDerives tokens)
    (hNesting : 10 * tokens.length ≤ nesting + 10)
    (rest : List Token) :
    (expressionStatement (expression nesting)).Accepts tokens s
      rest := by
  rcases hStatement with ⟨hExpr, hEnd⟩
  simp only [List.length_append, List.length_cons,
    List.length_nil] at hNesting
  exact
    (accepts_expression_before hExpr (by omega)
      (stops_semicolon hEnd) rest).closed _ hEnd _

theorem accepts_variableRest
    {s : Stmt}
    (hVariable : s.VariableDerives tokens)
    (hNesting : 10 * tokens.length ≤ nesting + 10)
    (rest : List Token) :
    (variableRest (expression nesting)).Accepts tokens s
      rest := by
  cases hVariable with
  | plain hName hEnd =>
      refine (accepts_expect hName _ _).bindOne ?_
      exact
        Accepts.closed
          (accepts_none (by simp [hEnd]) _) _ hEnd _
  | initialized hName hEquals hExpr hEnd =>
      simp only [List.length_append, List.length_cons,
        List.length_nil] at hNesting
      refine (accepts_expect hName _ _).bindOne ?_
      exact
        Accepts.closed
          ((accepts_expression_before hExpr (by omega)
            (stops_semicolon hEnd) rest).optionalAfter hEquals)
          _ hEnd _

theorem accepts_forInitializer
    {initializer : Option Stmt}
    (hInitializer : Stmt.InitializerDerives initializer tokens)
    (hNesting : 10 * tokens.length ≤ nesting + 10)
    (rest : List Token) :
    (forInitializer (expression nesting)).Accepts tokens
      initializer rest := by
  cases hInitializer with
  | none hEnd =>
      exact (accepts_true hEnd _).bindOne (accepts_pure _ _)
  | var hKeyword hVariable =>
      simp only [List.length_cons] at hNesting
      refine (accepts_false (by simp [hKeyword])).bindNil ?_
      refine (accepts_true hKeyword _).bindOne ?_
      exact
        (accepts_variableRest hVariable (by omega) rest).map some
  | expression hExpression =>
      rcases hExpression.head with ⟨t, others, hTokens, hStarts⟩
      have hNot :
          t.kind ≠ .semicolon ∧ t.kind ≠ .varKw := by
        revert hStarts
        cases t.kind <;> decide
      refine
        (accepts_false (by simp [hTokens, hNot.1])).bindNil ?_
      refine
        (accepts_false (by simp [hTokens, hNot.2])).bindNil ?_
      exact
        (accepts_expressionStatement hExpression hNesting
          rest).map some

end Simple

end Lox.Grammar

------------------------------------------------------------
-- Completeness For Bodies
------------------------------------------------------------

namespace Lox.Grammar

open Reader

/-
  What a reader has to accept to be one of a row of
  declarations.
-/
structure AcceptsDeclaration
    (declaration : Reader (Option Stmt))
    (tokens : List Token)
    (s : Stmt) :
    Prop where
  head : ∃ t others, tokens = t :: others ∧ t.kind.opens
  accepts :
    declaration.AcceptsBefore (·.kind ≠ .elseKw) tokens (some s)

section Bodies

variable {declaration : Reader (Option Stmt)}
variable {tokens : List Token} {body : List Stmt}
variable
  (hBody : Row (AcceptsDeclaration declaration) tokens body)

include hBody

/- No declaration begins with an `else`. -/
theorem row_head_ne_else
    {rest : List Token}
    (hRest : ∀ t ∈ rest.head?, t.kind ≠ .elseKw) :
    ∀ t ∈ (tokens ++ rest).head?, t.kind ≠ .elseKw := by
  cases hBody with
  | nil => exact hRest
  | cons hItem hMore =>
      rcases hItem.head with ⟨t, others, rfl, hOpens⟩
      intro u hu
      have hSame : t = u := by simpa using hu
      exact hSame ▸ (Kind.opens_ne hOpens).1

theorem accepts_declarationsFrom
    {closing : Token}
    (hClosing : closing.kind = .rightBrace)
    (ticks rest : List Token)
    (earlier : List Stmt)
    (hTicks : tokens.length < ticks.length) :
    (declarationsFrom declaration ticks earlier).Accepts tokens
      (earlier.reverse ++ body) (closing :: rest) := by
  induction hBody generalizing ticks earlier with
  | nil =>
      cases ticks with
      | nil => simp at hTicks
      | cons tick ticks =>
          refine (nextIs_true hClosing rest).bindNil ?_
          refine (atEnd_false (by simp)).bindNil ?_
          simpa using accepts_pure earlier.reverse (closing :: rest)
  | @cons tokens others s body hItem hMore ih =>
      cases ticks with
      | nil => simp at hTicks
      | cons tick ticks =>
          rcases hItem.head with ⟨t, more, hTokens, hOpens⟩
          have hNext :
              ∀ t ∈ (others ++ closing :: rest).head?,
                t.kind ≠ .elseKw :=
            row_head_ne_else hMore (by simp [hClosing])
          have hFirst := hItem.accepts _ hNext
          simp only [hTokens, List.length_append, List.length_cons]
            at hTicks
          have hOthers := ih ticks (s :: earlier) (by omega)
          refine
            (nextIs_false
              (by simp [hTokens, (Kind.opens_ne hOpens).2])).bindNil
              ?_
          refine (atEnd_false (by simp)).bindNil ?_
          refine hFirst.bind ?_
          simpa using hOthers

theorem accepts_blockRest
    {closing : Token}
    (hClosing : closing.kind = .rightBrace)
    (rest : List Token) :
    (blockRest declaration).Accepts (tokens ++ [closing]) body
      rest := by
  refine Accepts.afterUpcoming ?_
  have hAll :=
    accepts_declarationsFrom hBody hClosing
      (tokens ++ [closing] ++ rest) rest [] (by simp)
  exact hAll.closed id hClosing _

theorem accepts_functionRest
    {name opening closing brace last : Token}
    {params names : List Token}
    (hName : name.kind = .identifier)
    (hOpening : opening.kind = .leftParen)
    (hParams : ParamsDerive names params)
    (hClosing : closing.kind = .rightParen)
    (hBrace : brace.kind = .leftBrace)
    (hLast : last.kind = .rightBrace)
    (rest : List Token) :
    (functionRest declaration).Accepts
      (name :: opening ::
        (names ++ closing :: brace :: (tokens ++ [last])))
      (.function name params body) rest := by
  have hFunction :
      (blockRest declaration >>= fun body =>
        pure (Stmt.function name params body)).Accepts
          (tokens ++ [last]) (.function name params body) rest :=
    (accepts_blockRest hBody hLast rest).bindLast
      (accepts_pure _ _)
  refine (accepts_expect hName _ _).bindOne ?_
  refine Accepts.expectThen ?_ hOpening _
  refine
    Accepts.thenExpect
      (f := fun params =>
        expect .leftBrace .expectFunctionBody >>= fun _ =>
          blockRest declaration >>= fun body =>
            pure (Stmt.function name params body))
      ?_
      (hFunction.expectThen hBrace _) hClosing _
  cases hParams with
  | none => exact accepts_absent hClosing _ _ _
  | some hItems hCount =>
      have hAccepts :
          Commas
            ((expect .identifier
              .expectParameterName).AcceptsBefore fun _ => True)
            names params := by
        refine hItems.mono ?_
        rintro tokens param ⟨rfl, hParam⟩ others _
        exact accepts_expect hParam _ _
      refine
        (accepts_items (fun _ _ => trivial) hAccepts hCount
          (by simp [hClosing])).unlessNext ?_ _
      cases hItems with
      | last hItem =>
          rcases hItem with ⟨rfl, hParam⟩
          simp [hParam]
      | more hItem =>
          rcases hItem with ⟨rfl, hParam⟩
          simp [hParam]

end Bodies

end Lox.Grammar

------------------------------------------------------------
-- Derivations Are Accepted
------------------------------------------------------------

namespace Lox

open Grammar Reader

/-
  What is accepted of a part of a program, where ten steps of
  nesting are left for each of its tokens.
-/
def Clause.Accepted : Clause → List Token → Prop
  | .statement takesElse s, tokens =>
      ∀ nesting, 10 * tokens.length ≤ nesting + 1 →
        ∀ rest, NoElse takesElse rest →
          (Grammar.statement nesting).Accepts tokens s rest
  | .declaration s, tokens =>
      ∀ nesting, 10 * tokens.length ≤ nesting →
        AcceptsDeclaration (Grammar.declaration nesting) tokens s
  | .declarations body, tokens =>
      ∀ nesting, 10 * tokens.length ≤ nesting →
        Row (AcceptsDeclaration (Grammar.declaration nesting))
          tokens body

/-
  A statement that is opened by a keyword or a brace, and is
  read one step further down.
-/
theorem accepts_opened
    {nesting : Nat}
    {keyword : Token}
    {kind : Kind}
    {tokens rest : List Token}
    {s : Stmt}
    (hKeyword : keyword.kind = kind)
    (hOpens : opensStatement kind)
    (hNesting : 10 * (keyword :: tokens).length ≤ nesting + 1)
    (hRest :
      ∀ k, 10 * tokens.length + 8 ≤ k →
        (match kind with
          | .forKw =>
              forRest (Grammar.expression k) (Grammar.statement k)
          | .ifKw =>
              ifRest (Grammar.expression k) (Grammar.statement k)
          | .printKw => printRest (Grammar.expression k)
          | .returnKw => returnRest (Grammar.expression k) keyword
          | .whileKw =>
              whileRest (Grammar.expression k)
                (Grammar.statement k)
          | _ =>
              Stmt.block <$>
                blockRest (Grammar.declaration k)).Accepts
          tokens s rest) :
    (Grammar.statement nesting).Accepts (keyword :: tokens) s
      rest := by
  subst hKeyword
  rw [List.length_cons] at hNesting
  have hPos : 0 < nesting := by omega
  rcases Nat.exists_eq_add_one.mpr hPos with ⟨k, rfl⟩
  rw [Grammar.statement]
  exact (accept_some hOpens _).bindOne (hRest k (by omega))

/- A declaration that is opened by a keyword of its own. -/
theorem acceptsDeclaration_opened
    {nesting : Nat}
    {keyword : Token}
    {tokens : List Token}
    {s : Stmt}
    (hOpens : opensDeclaration keyword.kind)
    (hNesting : 10 * (keyword :: tokens).length ≤ nesting)
    (hRest :
      ∀ k, 10 * tokens.length + 9 ≤ k → ∀ rest,
        (if keyword.kind = .funKw then
          functionRest (Grammar.declaration k)
        else
          variableRest (Grammar.expression k)).Accepts tokens s
          rest) :
    AcceptsDeclaration (Grammar.declaration nesting)
      (keyword :: tokens) s := by
  rw [List.length_cons] at hNesting
  have hPos : 0 < nesting := by omega
  rcases Nat.exists_eq_add_one.mpr hPos with ⟨k, rfl⟩
  refine
    ⟨⟨keyword, tokens, rfl, by simp [Kind.opens, hOpens]⟩, ?_⟩
  intro rest _
  rw [Grammar.declaration]
  refine Accepts.recovering ?_
  exact
    (accept_some hOpens _).bindOne (hRest k (by omega) rest)

/- A condition in parentheses, and what is read after it. -/
theorem accepts_conditionThen
    {α : Type}
    {nesting : Nat}
    {opening closing : Token}
    {condition : Expr}
    {conditions tokens rest : List Token}
    {next : Expr → Reader α}
    {a : α}
    (hOpening : opening.kind = .leftParen)
    (hCondition : condition.Derives conditions)
    (hClosing : closing.kind = .rightParen)
    (hNesting : 10 * conditions.length ≤ nesting)
    (before after : GrammarFault)
    (hNext : (next condition).Accepts tokens a rest) :
    (expect .leftParen before >>= fun _ =>
      Grammar.expression nesting >>= fun e =>
        expect .rightParen after >>= fun _ => next e).Accepts
      (opening :: (conditions ++ closing :: tokens)) a rest := by
  have hBefore :=
    accepts_expression_before hCondition hNesting
      (stops_rightParen closing hClosing) (tokens ++ rest)
  have hInner := hBefore.thenExpect hNext hClosing after
  exact hInner.expectThen hOpening before

theorem Clause.accepted_of_derives
    {clause : Clause}
    {tokens : List Token}
    (hDerives : clause.Derives tokens) :
    clause.Accepted tokens := by
  induction hDerives with
  | @expression s tokens hExpression =>
      intro nesting hNesting rest _
      rcases hExpression.head with ⟨t, others, hTokens, hStarts⟩
      have hPos : 0 < nesting := by
        rw [hTokens, List.length_cons] at hNesting
        omega
      rcases Nat.exists_eq_add_one.mpr hPos with ⟨k, rfl⟩
      rw [Grammar.statement]
      refine
        (accept_none ?_).bindNil
          (accepts_expressionStatement hExpression (by omega) rest)
      intro u hu
      have hSame : t = u := by simpa [hTokens] using hu
      subst hSame
      revert hStarts
      cases t.kind <;> decide
  | @print keyword semicolon e tokens hKeyword hExpr hEnd =>
      intro nesting hNesting rest _
      apply accepts_opened hKeyword rfl hNesting
      intro k hInner
      simp only [List.length_append] at hInner
      exact
        (accepts_expression_before hExpr (by omega)
          (stops_semicolon hEnd) rest).closed _ hEnd _
  | @ret keyword semicolon value tokens hKeyword hValue hEnd =>
      intro nesting hNesting rest _
      apply accepts_opened hKeyword rfl hNesting
      intro k hInner
      simp only [List.length_append] at hInner
      exact
        (accepts_optional hValue (by omega) (stops_semicolon hEnd)
          hEnd rfl rest).closed _ hEnd _
  | @block opening closing body tokens hOpening _ hClosing ih =>
      intro nesting hNesting rest _
      apply accepts_opened hOpening rfl hNesting
      intro k hInner
      simp only [List.length_append] at hInner
      exact
        (accepts_blockRest (ih k (by omega)) hClosing rest).map _
  | @ifThen keyword opening closing takesElse condition thenBranch
      conditions thens hKeyword hOpening hCondition hClosing _
      ih =>
      intro nesting hNesting rest hRest
      apply accepts_opened hKeyword rfl hNesting
      intro k hInner
      simp only [List.length_cons, List.length_append] at hInner
      have hThen :=
        ih k (by omega) rest (fun _ => hRest rfl)
      refine
        accepts_conditionThen hOpening hCondition hClosing
          (by omega) _ _ ?_
      refine hThen.bindLast ?_
      exact
        (accepts_none (hRest rfl) _).bindNil (accepts_pure _ _)
  | @ifElse keyword opening closing elseWord takesElse condition
      thenBranch elseBranch conditions thens elses hKeyword
      hOpening hCondition hClosing _ hElseWord _ ihThen ihElse =>
      intro nesting hNesting rest hRest
      apply accepts_opened hKeyword rfl hNesting
      intro k hInner
      simp only [List.length_cons, List.length_append] at hInner
      have hThen :=
        ihThen k (by omega) (elseWord :: (elses ++ rest))
          (noElse_false _)
      have hElse := ihElse k (by omega) rest hRest
      refine
        accepts_conditionThen hOpening hCondition hClosing
          (by omega) _ _ ?_
      have hOptional := hElse.optionalAfter hElseWord
      exact hThen.bind (hOptional.bindLast (accepts_pure _ _))
  | @whileLoop keyword opening closing takesElse condition body
      conditions tokens hKeyword hOpening hCondition hClosing _
      ih =>
      intro nesting hNesting rest hRest
      apply accepts_opened hKeyword rfl hNesting
      intro k hInner
      simp only [List.length_cons, List.length_append] at hInner
      refine
        accepts_conditionThen hOpening hCondition hClosing
          (by omega) _ _ ?_
      exact
        (ih k (by omega) rest hRest).bindLast (accepts_pure _ _)
  | @forLoop keyword opening semicolon closing takesElse
      initializer condition increment body initials conditions
      increments tokens hKeyword hOpening hInitializer hCondition
      hEnd hIncrement hClosing _ ih =>
      intro nesting hNesting rest hRest
      apply accepts_opened hKeyword rfl hNesting
      intro k hInner
      simp only [List.length_cons, List.length_append] at hInner
      refine Accepts.expectThen ?_ hOpening _
      refine
        Accepts.bind
          (accepts_forInitializer hInitializer (by omega) _) ?_
      refine
        Accepts.thenExpect
          (accepts_condition hCondition (by omega) hEnd _) ?_ hEnd _
      refine
        Accepts.thenExpect
          (accepts_optional hIncrement (by omega)
            (stops_rightParen closing hClosing) hClosing rfl _) ?_
          hClosing _
      exact
        (ih k (by omega) rest hRest).bindLast (accepts_pure _ _)
  | @plain takesElse s tokens hStatement ih =>
      intro nesting hNesting
      rcases hStatement.head with ⟨t, others, hTokens, hNot, hOpens⟩
      have hPos : 0 < nesting := by
        rw [hTokens, List.length_cons] at hNesting
        omega
      rcases Nat.exists_eq_add_one.mpr hPos with ⟨k, rfl⟩
      refine ⟨⟨t, others, hTokens, hOpens⟩, ?_⟩
      intro rest hRest
      rw [Grammar.declaration]
      refine Accepts.recovering ?_
      exact
        (accept_none (by simp [hTokens, hNot])).bindNil
          (ih k hNesting rest fun _ => hRest)
  | @var keyword s tokens hKeyword hVariable =>
      intro nesting hNesting
      have hOpens : opensDeclaration keyword.kind := by
        rw [hKeyword]
        rfl
      apply acceptsDeclaration_opened hOpens hNesting
      intro k hInner rest
      simpa [hKeyword] using
        accepts_variableRest hVariable (by omega) rest
  | @function keyword name opening closing brace last params names
      tokens body hKeyword hName hOpening hParams hClosing hBrace
      _ hLast ih =>
      intro nesting hNesting
      have hOpens : opensDeclaration keyword.kind := by
        rw [hKeyword]
        rfl
      apply acceptsDeclaration_opened hOpens hNesting
      intro k hInner rest
      simp only [List.length_cons, List.length_append] at hInner
      simpa [hKeyword] using
        accepts_functionRest (ih k (by omega)) hName hOpening
          hParams hClosing hBrace hLast rest
  | done =>
      intro nesting _
      exact .nil
  | next _ _ ihFirst ihRest =>
      intro nesting hNesting
      simp only [List.length_append] at hNesting
      exact
        .cons (ihFirst nesting (by omega))
          (ihRest nesting (by omega))

end Lox

------------------------------------------------------------
-- Programs
------------------------------------------------------------

namespace Lox.Grammar

open Reader

theorem programFrom_of_row
    {declaration : Reader (Option Stmt)}
    {tokens : List Token}
    {body : List Stmt}
    (hBody : Row (AcceptsDeclaration declaration) tokens body)
    (ticks : List Token)
    (earlier : List Stmt)
    (c : Cursor)
    (hUpcoming : c.upcoming = tokens)
    (hTicks : tokens.length ≤ ticks.length) :
    programFrom declaration ticks earlier c =
      ⟨earlier.reverse ++ body, c.errors.toList⟩ := by
  induction hBody generalizing ticks earlier c with
  | nil =>
      cases ticks with
      | nil => simp [programFrom]
      | cons tick ticks =>
          simp [programFrom, Cursor.atEnd, hUpcoming]
  | @cons tokens others s body hItem hMore ih =>
      rcases hItem.head with ⟨t, more, hTokens, _⟩
      cases ticks with
      | nil => simp [hTokens] at hTicks
      | cons tick ticks =>
          have hNext :
              ∀ t ∈ others.head?, t.kind ≠ .elseKw := by
            simpa using
              @row_head_ne_else _ _ _ hMore [] (by simp)
          have hRun := hItem.accepts others hNext c hUpcoming
          have hAtEnd : c.atEnd = false := by
            simp [Cursor.atEnd, hUpcoming, hTokens]
          simp only [hTokens, List.length_append, List.length_cons]
            at hTicks
          have hOthers :=
            ih ticks (s :: earlier) (c.skip tokens.length)
              (Cursor.upcoming_skip hUpcoming) (by omega)
          simp only [programFrom, hAtEnd, hRun, hOthers]
          simp

/- A declaration that is nested too deeply is an error. -/
theorem size_lt_errors_tooDeep (c : Cursor) :
    c.errors.size <
      (c.recordHere .nestingTooDeep).synchronize.errors.size := by
  refine
    Nat.lt_of_lt_of_le ?_
      (Cursor.leads_synchronize _).size_errors_le
  simp [Cursor.recordHere, Cursor.record]

/- Errors that were recorded are kept to the end. -/
theorem size_le_errors_programFrom
    {declaration : Reader (Option Stmt)}
    (hDeclaration : declaration.Proceeds)
    (ticks : List Token)
    (earlier : List Stmt)
    (c : Cursor) :
    c.errors.size ≤
      (programFrom declaration ticks earlier c).errors.length := by
  induction ticks generalizing earlier c with
  | nil => simp [programFrom]
  | cons tick ticks ih =>
      have hProceeds := hDeclaration c
      unfold programFrom
      split
      · simp
      · split
        · rename_i s d hRun
          rw [hRun] at hProceeds
          exact Nat.le_trans hProceeds.size_errors_le (ih _ d)
        · rename_i d hRun
          rw [hRun] at hProceeds
          exact Nat.le_trans hProceeds.size_errors_le (ih _ d)
        · rename_i d hRun
          rw [hRun] at hProceeds
          exact Nat.le_trans hProceeds.1.size_errors_le (ih _ d)
        · rename_i d hRun
          rw [hRun] at hProceeds
          have hDeep := size_lt_errors_tooDeep d
          have hKept :=
            ih earlier (d.recordHere .nestingTooDeep).synchronize
          have hFirst := hProceeds.size_errors_le
          omega

/- Without an error at the end there was none before. -/
theorem size_errors_of_programFrom
    {declaration : Reader (Option Stmt)}
    (hDeclaration : declaration.Proceeds)
    {ticks : List Token}
    {earlier : List Stmt}
    {c : Cursor}
    (hErrors :
      (programFrom declaration ticks earlier c).errors = []) :
    c.errors.size = 0 := by
  have hSize :=
    size_le_errors_programFrom hDeclaration ticks earlier c
  simpa [hErrors] using hSize

/- So the step that led here recorded none. -/
theorem errors_eq_of_programFrom
    {declaration : Reader (Option Stmt)}
    (hDeclaration : declaration.Proceeds)
    {ticks : List Token}
    {earlier : List Stmt}
    {c d : Cursor}
    (hLeads : c.Leads d)
    (hErrors :
      (programFrom declaration ticks earlier d).errors = []) :
    d.errors = c.errors := by
  apply hLeads.errors_eq
  rw [size_errors_of_programFrom hDeclaration hErrors]
  exact Nat.zero_le _

/-
  One round of reading a program without an error: nothing is
  left, or a declaration is read and then the others.
-/
theorem programFrom_cases
    {declaration : Reader (Option Stmt)}
    (hDeclaration : ReadsDeclaration declaration)
    {tick : Token}
    {ticks : List Token}
    {earlier : List Stmt}
    {c : Cursor}
    (hErrors :
      (programFrom declaration (tick :: ticks) earlier c).errors =
        []) :
    (c.upcoming = [] ∧
      programFrom declaration (tick :: ticks) earlier c =
        ⟨earlier.reverse, c.errors.toList⟩) ∨
    ∃ s d,
      c.upcoming ≠ [] ∧
      declaration c = .ok (some s) d ∧
      d.errors = c.errors ∧
      programFrom declaration (tick :: ticks) earlier c =
        programFrom declaration ticks (s :: earlier) d := by
  have hProceeds := hDeclaration.proceeds c
  rw [programFrom] at hErrors
  split at hErrors
  · rename_i hAtEnd
    have hUpcoming : c.upcoming = [] := by
      simpa [Cursor.atEnd] using hAtEnd
    exact .inl ⟨hUpcoming, by rw [programFrom, if_pos hAtEnd]⟩
  · rename_i hAtEnd
    have hUpcoming : c.upcoming ≠ [] := by
      simpa [Cursor.atEnd] using hAtEnd
    split at hErrors
    · rename_i s d hRun
      rw [hRun] at hProceeds
      have hSame :=
        errors_eq_of_programFrom hDeclaration.proceeds
          hProceeds hErrors
      refine .inr ⟨s, d, hUpcoming, hRun, hSame, ?_⟩
      conv =>
        lhs
        rw [programFrom, if_neg hAtEnd, hRun]
    · rename_i d hRun
      rw [hRun] at hProceeds
      have hSame :=
        errors_eq_of_programFrom hDeclaration.proceeds
          hProceeds hErrors
      rcases hDeclaration.read hRun hSame with
        ⟨_, _, _, hFalse, _⟩
      cases hFalse
    -- Reading that fails has recorded an error.
    · rename_i d hRun
      rw [hRun] at hProceeds
      have hZero :=
        size_errors_of_programFrom hDeclaration.proceeds
          hErrors
      have hMore := hProceeds.2
      omega
    · rename_i d hRun
      have hZero :=
        size_errors_of_programFrom hDeclaration.proceeds
          hErrors
      have hMore := size_lt_errors_tooDeep d
      omega

theorem derives_of_programFrom
    {declaration : Reader (Option Stmt)}
    (hDeclaration : ReadsDeclaration declaration)
    (ticks : List Token)
    (earlier : List Stmt)
    (c : Cursor)
    (hTicks : c.upcoming.length ≤ ticks.length)
    (hErrors :
      (programFrom declaration ticks earlier c).errors = []) :
    ∃ body,
      (programFrom declaration ticks earlier c).program =
          earlier.reverse ++ body ∧
        (Clause.declarations body).Derives c.upcoming := by
  induction ticks generalizing earlier c with
  | nil =>
      have hUpcoming : c.upcoming = [] := by
        simpa using hTicks
      exact ⟨[], by simp [programFrom], hUpcoming ▸ .done⟩
  | cons tick ticks ih =>
      rcases programFrom_cases hDeclaration hErrors with
        ⟨hUpcoming, hDone⟩ | ⟨s, d, _, hRun, hSame, hRest⟩
      · rw [hDone, hUpcoming]
        exact ⟨[], by simp, .done⟩
      · rcases hDeclaration.read hRun hSame with
          ⟨tokens, hTokens, _, hSome, hFirst⟩
        cases hSome
        rcases hFirst.head with ⟨t, more, rfl, _⟩
        rw [hTokens, List.length_append, List.length_cons,
          List.length_cons] at hTicks
        rw [hRest] at hErrors ⊢
        rcases ih (s :: earlier) d (by omega) hErrors with
          ⟨body, hProgram, hBody⟩
        refine ⟨s :: body, ?_, ?_⟩
        · simp [hProgram]
        · rw [hTokens]
          exact .next hFirst hBody

end Lox.Grammar

namespace Lox

/- A program that is read with no error has been derived. -/
theorem derives_of_parse
    {limits : Limits}
    {tokens : List Token}
    (hErrors : (parse limits tokens).errors = []) :
    (Clause.declarations (parse limits tokens).program).Derives
      (tokens.takeWhile (·.kind ≠ .eof)) := by
  rcases
    Grammar.derives_of_programFrom
      (Grammar.reads_declaration limits.nesting) _ []
      (.ofTokens tokens) (Nat.le_refl _) hErrors with
    ⟨body, hProgram, hBody⟩
  have hSame : (parse limits tokens).program = body := hProgram
  rw [hSame]
  exact hBody

/- A program that is spelled by tokens is read from them. -/
theorem parse_of_derives
    {limits : Limits}
    {tokens : List Token}
    {program : List Stmt}
    (hNesting : 10 * tokens.length ≤ limits.nesting)
    (hDerives :
      (Clause.declarations program).Derives
        (tokens.takeWhile (·.kind ≠ .eof))) :
    parse limits tokens = ⟨program, []⟩ := by
  have hLength :
      (tokens.takeWhile (·.kind ≠ .eof)).length ≤
        tokens.length :=
    (List.takeWhile_prefix _).length_le
  have hRow :=
    Clause.accepted_of_derives hDerives limits.nesting (by omega)
  exact
    Grammar.programFrom_of_row hRow _ [] (.ofTokens tokens) rfl
      (Nat.le_refl _)

/-
  A program is read with no error exactly if the grammar
  derives it from all tokens before the end, and what is read
  is then the tree of the derivation. The nesting that is
  allowed is taken to be large for the number of tokens.
-/
theorem parse_iff_derives
    (limits : Limits)
    (tokens : List Token)
    (hNesting : 10 * tokens.length ≤ limits.nesting) :
    ((parse limits tokens).errors = [] ↔
      ∃ program,
        (Clause.declarations program).Derives
          (tokens.takeWhile (·.kind ≠ .eof))) ∧
    ∀ program,
      (Clause.declarations program).Derives
          (tokens.takeWhile (·.kind ≠ .eof)) →
        (parse limits tokens).program = program := by
  refine ⟨⟨?_, ?_⟩, ?_⟩
  · intro hErrors
    exact ⟨_, derives_of_parse hErrors⟩
  · rintro ⟨program, hDerives⟩
    rw [parse_of_derives hNesting hDerives]
  · intro program hDerives
    rw [parse_of_derives hNesting hDerives]

/- The tokens of `if (a) if (b) c; else d;`. -/
def danglingElse : List Token :=
  [ ⟨.ifKw, "if", .nil, 1, 0⟩, ⟨.leftParen, "(", .nil, 1, 3⟩,
    ⟨.identifier, "a", .nil, 1, 4⟩,
    ⟨.rightParen, ")", .nil, 1, 5⟩,
    ⟨.ifKw, "if", .nil, 1, 7⟩, ⟨.leftParen, "(", .nil, 1, 10⟩,
    ⟨.identifier, "b", .nil, 1, 11⟩,
    ⟨.rightParen, ")", .nil, 1, 12⟩,
    ⟨.identifier, "c", .nil, 1, 14⟩,
    ⟨.semicolon, ";", .nil, 1, 15⟩,
    ⟨.elseKw, "else", .nil, 1, 17⟩,
    ⟨.identifier, "d", .nil, 1, 22⟩,
    ⟨.semicolon, ";", .nil, 1, 23⟩, ⟨.eof, "", .nil, 1, 24⟩ ]

/- The tree in which the `else` belongs to the second `if`. -/
def nearestElse : Stmt :=
  .ifThen (.variable ⟨.identifier, "a", .nil, 1, 4⟩ none)
    (.ifElse (.variable ⟨.identifier, "b", .nil, 1, 11⟩ none)
      (.expression
        (.variable ⟨.identifier, "c", .nil, 1, 14⟩ none))
      (.expression
        (.variable ⟨.identifier, "d", .nil, 1, 22⟩ none)))

theorem derives_nearestElse :
    (Clause.declarations [nearestElse]).Derives
      (danglingElse.takeWhile (·.kind ≠ .eof)) := by
  have hThen : (Clause.statement false _).Derives _ :=
    .expression
      (.mk
        (@Phrase.derives_name ⟨.identifier, "c", .nil, 1, 14⟩ rfl
          .assignment)
        (@rfl _ (Token.kind ⟨.semicolon, ";", .nil, 1, 15⟩)))
  have hElse : (Clause.statement false _).Derives _ :=
    .expression
      (.mk
        (@Phrase.derives_name ⟨.identifier, "d", .nil, 1, 22⟩ rfl
          .assignment)
        (@rfl _ (Token.kind ⟨.semicolon, ";", .nil, 1, 23⟩)))
  have hInner :=
    @Clause.Derives.ifElse ⟨.ifKw, "if", .nil, 1, 7⟩
      ⟨.leftParen, "(", .nil, 1, 10⟩
      ⟨.rightParen, ")", .nil, 1, 12⟩
      ⟨.elseKw, "else", .nil, 1, 17⟩ _ _ _ _ _ _ _ rfl rfl
      (@Phrase.derives_name ⟨.identifier, "b", .nil, 1, 11⟩ rfl
        .assignment)
      rfl hThen rfl hElse
  have hOuter :=
    @Clause.Derives.ifThen ⟨.ifKw, "if", .nil, 1, 0⟩
      ⟨.leftParen, "(", .nil, 1, 3⟩
      ⟨.rightParen, ")", .nil, 1, 5⟩ _ _ _ _ _ rfl rfl
      (@Phrase.derives_name ⟨.identifier, "a", .nil, 1, 4⟩ rfl
        .assignment)
      rfl hInner
  exact .next (.plain hOuter) .done

theorem parse_danglingElse :
    10 * danglingElse.length ≤ Limits.standard.nesting ∧
      (parse .standard danglingElse).errors = [] ∧
      (parse .standard danglingElse).program =
        [nearestElse] := by
  have hNesting :
      10 * danglingElse.length ≤ Limits.standard.nesting := by
    decide
  have hParse :=
    parse_iff_derives .standard danglingElse hNesting
  exact
    ⟨hNesting, hParse.1.mpr ⟨_, derives_nearestElse⟩,
      hParse.2 _ derives_nearestElse⟩

end Lox
