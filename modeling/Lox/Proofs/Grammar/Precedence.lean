import Lox.Proofs.Grammar.Movement

/-
  Reading expressions is deriving them.

  The reader of each level moves over the tokens of a
  derivation at this level, and over nothing else. A chain of
  operators is read in a loop that carries the left operand
  along; `AcceptsThen` states what such a loop accepts by way
  of what it accepts once the left operand has been read.

  Main declarations:
    * `reads_expression`
    * `accepts_expression`
-/

------------------------------------------------------------
-- Single Tokens
------------------------------------------------------------

namespace Lox

theorem Kind.isSign_iff (kind : Kind) :
    kind.isSign = true ↔ kind = .bang ∨ kind = .minus := by
  cases kind <;> decide

/- The reader of single tokens reads what they spell. -/
theorem Expr.atomDerives_iff {e : Expr} {t : Token} :
    e.AtomDerives t ↔
      Grammar.isAtom t.kind ∧ e = Grammar.atom t := by
  constructor
  · intro hAtom
    cases hAtom with
    | no hKind | yes hKind | nil hKind | number hKind
    | string hKind | name hKind =>
        simp [Grammar.isAtom, Grammar.atom, hKind]
  · rintro ⟨hAtom, rfl⟩
    unfold Grammar.atom
    cases hKind : t.kind with
    | falseKw => exact .no hKind
    | trueKw => exact .yes hKind
    | nilKw => exact .nil hKind
    | number => exact .number hKind
    | string => exact .string hKind
    | identifier => exact .name hKind
    | _ =>
        rw [hKind] at hAtom
        cases hAtom

/-
  Whether an expression of the level can begin with a token of
  the kind.
-/
def Kind.starts (kind : Kind) (tier : Tier) : Bool :=
  Grammar.isAtom kind || kind = .leftParen ||
    (kind.isSign && tier.rank ≤ Tier.unary.rank)

end Lox

------------------------------------------------------------
-- The Table Of Precedence
------------------------------------------------------------

namespace Lox

namespace Tier

/- A token that does not carry on with an expression. -/
def Stops (tier : Tier) (t : Token) : Prop :=
  t.kind.continues tier = false

theorem Stops.tighter
    {tier : Tier}
    {t : Token}
    (hStops : tier.Stops t) :
    tier.tighter.Stops t := by
  revert hStops
  unfold Stops
  cases tier <;> cases t.kind <;> decide

/- An operator of a level is none of the levels after it. -/
theorem stops_tighter_of_operator
    {tier : Tier}
    {t : Token}
    (hOp : t.kind.tier? = some tier) :
    tier.tighter.Stops t := by
  revert hOp
  unfold Stops
  cases tier <;> cases t.kind <;> decide

theorem Stops.ne
    {tier : Tier}
    {t : Token}
    (hStops : tier.Stops t) :
    t.kind.tier? ≠ some tier := by
  intro hOp
  simp [Stops, Kind.continues, hOp] at hStops

theorem stops_primary (t : Token) : Tier.primary.Stops t := by
  unfold Stops
  cases t.kind <;> rfl

end Tier

/- An expression begins as its level allows. -/
theorem Phrase.Derives.head
    {phrase : Phrase}
    {tokens : List Token}
    (hDerives : phrase.Derives tokens) :
    match phrase with
    | .expression tier _ =>
        ∃ t rest, tokens = t :: rest ∧ t.kind.starts tier
    | .arguments _ => True := by
  induction hDerives with
  | @tighter tier e tokens _ ih =>
      rcases ih with ⟨t, rest, rfl, hStarts⟩
      refine ⟨t, rest, rfl, ?_⟩
      revert hStarts
      cases tier <;> cases t.kind <;> decide
  | assign hName =>
      exact ⟨_, _, rfl, by simp [Kind.starts, hName, Grammar.isAtom]⟩
  | operator _ _ _ _ ihLeft =>
      rcases ihLeft with ⟨t, rest, rfl, hStarts⟩
      exact ⟨t, _, rfl, hStarts⟩
  | @sign op e tokens hOp =>
      have hSign := op.kind.isSign_iff.mpr hOp
      exact ⟨_, _, rfl, by simp [Kind.starts, hSign, Tier.rank]⟩
  | plainCall _ _ _ ihCallee =>
      rcases ihCallee with ⟨t, rest, rfl, hStarts⟩
      exact ⟨t, _, rfl, hStarts⟩
  | call _ _ _ _ _ ihCallee =>
      rcases ihCallee with ⟨t, rest, rfl, hStarts⟩
      exact ⟨t, _, rfl, hStarts⟩
  | atom hAtom =>
      have hKind := (Expr.atomDerives_iff.mp hAtom).1
      exact ⟨_, _, rfl, by simp [Kind.starts, hKind]⟩
  | grouping hOpening =>
      exact ⟨_, _, rfl, by simp [Kind.starts, hOpening]⟩
  | lastArgument => trivial
  | argument => trivial

end Lox

------------------------------------------------------------
-- Chains By Level
------------------------------------------------------------

namespace Lox.Tier

open Grammar

/- The loop over the operators of a level. -/
abbrev chainFrom
    (tier : Tier)
    (operand : Reader Expr) :
    List Token → Expr → Reader Expr :=
  leftChainFrom operand (fun k => k.tier? = some tier) tier.node

/- The reader of a level of two operands. -/
abbrev chain
    (tier : Tier)
    (operand : Reader Expr) :
    Reader Expr :=
  leftChain operand (fun k => k.tier? = some tier) tier.node

end Lox.Tier

namespace Lox.Grammar

variable (unary : Reader Expr)

theorem product_eq :
    product unary = Tier.chain .product unary := by
  refine congrArg (leftChain _ · _) ?_
  funext k
  cases k <;> rfl

theorem sum_eq :
    sum unary = Tier.chain .sum (product unary) := by
  refine congrArg (leftChain _ · _) ?_
  funext k
  cases k <;> rfl

theorem comparison_eq :
    comparison unary = Tier.chain .comparison (sum unary) := by
  refine congrArg (leftChain _ · _) ?_
  funext k
  cases k <;> rfl

theorem equality_eq :
    equality unary = Tier.chain .equality (comparison unary) := by
  refine congrArg (leftChain _ · _) ?_
  funext k
  cases k <;> rfl

theorem conjunction_eq :
    conjunction unary =
      Tier.chain .conjunction (equality unary) := by
  refine congrArg (leftChain _ · _) ?_
  funext k
  cases k <;> rfl

theorem disjunction_eq :
    disjunction unary =
      Tier.chain .disjunction (conjunction unary) := by
  refine congrArg (leftChain _ · _) ?_
  funext k
  cases k <;> rfl

end Lox.Grammar

------------------------------------------------------------
-- Soundness
------------------------------------------------------------

namespace Lox.Grammar

open Reader

/- What the reader of a level reads. -/
abbrev ReadsTier (reader : Reader Expr) (tier : Tier) : Prop :=
  reader.Reads fun tokens e _ =>
    (Phrase.expression tier e).Derives tokens

theorem reads_chainFrom
    {tier : Tier}
    {operand : Reader Expr}
    (hInfix : tier.isInfix)
    (hOperand : ReadsTier operand tier.tighter)
    (ticks : List Token)
    (left : Expr) :
    (tier.chainFrom operand ticks left).Reads
      fun others e _ =>
        ∀ tokens,
          (Phrase.expression tier left).Derives tokens →
            (Phrase.expression tier e).Derives
              (tokens ++ others) := by
  induction ticks generalizing left with
  | nil =>
      refine (reads_pure left).mono ?_
      rintro _ _ _ ⟨rfl, rfl⟩ tokens hLeft
      simpa using hLeft
  | cons tick ticks ih =>
      refine Reads.acceptThen ?_ fun op => ?_
      · refine (reads_pure left).mono ?_
        rintro _ _ _ ⟨rfl, rfl⟩ tokens hLeft
        simpa using hLeft
      · refine hOperand.bind (fun right => ih _) ?_
        intro right e rights more rest hRight hMore hOp tokens hLeft
        have hNode :=
          hMore _
            (.operator hInfix hLeft (by simpa using hOp) hRight)
        simpa using hNode

theorem reads_chain
    {tier : Tier}
    {operand : Reader Expr}
    (hInfix : tier.isInfix)
    (hOperand : ReadsTier operand tier.tighter) :
    ReadsTier (tier.chain operand) tier := by
  refine Reads.afterUpcoming fun ticks => ?_
  refine
    hOperand.bind (reads_chainFrom hInfix hOperand ticks) ?_
  intro left e tokens others rest hLeft hMore
  exact hMore tokens (.tighter hLeft)

theorem reads_disjunction
    {unary : Reader Expr}
    (hUnary : ReadsTier unary .unary) :
    ReadsTier (disjunction unary) .disjunction := by
  have hProduct := @reads_chain .product _ rfl hUnary
  have hSum := @reads_chain .sum _ rfl hProduct
  have hComparison :=
    @reads_chain .comparison _ rfl hSum
  have hEquality :=
    @reads_chain .equality _ rfl hComparison
  have hConjunction :=
    @reads_chain .conjunction _ rfl hEquality
  have hDisjunction :=
    @reads_chain .disjunction _ rfl hConjunction
  rwa [disjunction_eq, conjunction_eq, equality_eq,
    comparison_eq, sum_eq, product_eq]

theorem reads_primary
    {expression : Reader Expr}
    (hExpression : ReadsTier expression .assignment) :
    ReadsTier (primary expression) .primary := by
  refine Reads.acceptThen ?_ fun t => ?_
  · refine Reads.acceptsThen (reads_fail _ _) ?_
    refine (hExpression.closed Expr.grouping _ _).mono ?_
    rintro _ _ rest
      ⟨inner, tokens, closing, rfl, hClosing, rfl, hInner⟩
      opening hOpening
    exact .grouping hOpening hInner hClosing
  · refine (reads_pure (atom t)).mono ?_
    rintro _ _ rest ⟨rfl, rfl⟩ hAtom
    exact .atom (Expr.atomDerives_iff.mpr ⟨hAtom, rfl⟩)

theorem derives_arguments
    {tokens : List Token}
    {args : List Expr}
    (hArgs :
      Commas (fun tokens e => Expr.Derives e tokens) tokens
        args) :
    (Phrase.arguments args).Derives tokens := by
  induction hArgs with
  | last hItem => exact .lastArgument hItem
  | more hItem hComma _ ih => exact .argument hItem hComma ih

theorem reads_arguments
    {expression : Reader Expr}
    (hExpression : ReadsTier expression .assignment) :
    (arguments expression).Reads fun tokens result _ =>
      result.2.kind = .rightParen ∧
      ((result.1 = [] ∧ tokens = [result.2]) ∨
        ∃ others,
          tokens = others ++ [result.2] ∧
          (Phrase.arguments result.1).Derives others ∧
          result.1.length ≤ 255) := by
  refine
    ((hExpression.items .tooManyArguments).unlessNext
      .rightParen []).bind
      (S := fun args tokens result _ =>
        tokens = [result.2] ∧ result.1 = args ∧
          result.2.kind = .rightParen)
      ?_ ?_
  · intro args
    refine
      (reads_expect _ _).bind
        (fun paren => reads_pure (args, paren)) ?_
    rintro paren result _ _ rest ⟨rfl, hParen⟩ ⟨rfl, rfl⟩
    exact ⟨rfl, rfl, hParen⟩
  · rintro args ⟨_, paren⟩ tokens _ rest hArgs
      ⟨rfl, rfl, hParen⟩
    refine ⟨hParen, ?_⟩
    rcases hArgs with ⟨rfl, rfl⟩ | ⟨hItems, hCount⟩
    · exact .inl ⟨rfl, rfl⟩
    · exact .inr ⟨tokens, rfl, derives_arguments hItems, hCount⟩

theorem reads_callsFrom
    {expression : Reader Expr}
    (hExpression : ReadsTier expression .assignment)
    (ticks : List Token)
    (callee : Expr) :
    (callsFrom expression ticks callee).Reads
      fun others e _ =>
        ∀ tokens,
          (Phrase.expression .call callee).Derives tokens →
            (Phrase.expression .call e).Derives
              (tokens ++ others) := by
  induction ticks generalizing callee with
  | nil =>
      refine (reads_pure callee).mono ?_
      rintro _ _ _ ⟨rfl, rfl⟩ tokens hCallee
      simpa using hCallee
  | cons tick ticks ih =>
      refine Reads.acceptsThen ?_ ?_
      · refine (reads_pure callee).mono ?_
        rintro _ _ _ ⟨rfl, rfl⟩ tokens hCallee
        simpa using hCallee
      · refine
          (reads_arguments hExpression).bind
            (fun result => ih _) ?_
        rintro ⟨args, paren⟩ e inner more rest
          ⟨hParen, hArgs⟩ hMore opening hOpening tokens hCallee
        rcases hArgs with ⟨rfl, rfl⟩ | ⟨others, rfl, hArgs, hCount⟩
        · have hCall := hMore _ (.plainCall hCallee hOpening hParen)
          simpa using hCall
        · have hCall :=
            hMore _ (.call hCallee hOpening hArgs hCount hParen)
          simpa using hCall

theorem reads_calls
    {expression : Reader Expr}
    (hExpression : ReadsTier expression .assignment) :
    ReadsTier (calls expression) .call := by
  refine Reads.afterUpcoming fun ticks => ?_
  refine
    (reads_primary hExpression).bind
      (reads_callsFrom hExpression ticks) ?_
  intro callee e tokens others rest hCallee hMore
  exact hMore tokens (.tighter hCallee)

theorem reads_signs
    {nesting : Nat}
    (hUnary : ReadsTier (unary nesting) .unary)
    (hExpression : ReadsTier (expression nesting) .assignment) :
    ReadsTier (unary (nesting + 1)) .unary := by
  rw [unary]
  refine Reads.acceptThen ?_ fun op => ?_
  · exact (reads_calls hExpression).mono fun h => .tighter h
  · refine hUnary.bind (fun e => reads_pure (Expr.unary op e)) ?_
    rintro operand e tokens _ rest hOperand ⟨rfl, rfl⟩ hOp
    have hTokens : tokens ++ [] = tokens := List.append_nil _
    rw [hTokens]
    exact .sign (op.kind.isSign_iff.mp hOp) hOperand

/- A level from `or` on derives a name only as this one token. -/
theorem tokens_of_derives_variable
    {tier : Tier}
    {name : Token}
    {hops : Option Nat}
    {tokens : List Token}
    (hDerives :
      (Phrase.expression tier (.variable name hops)).Derives
        tokens) :
    tokens = [name] ∧ name.kind = .identifier := by
  generalize hPhrase :
    Phrase.expression tier (.variable name hops) = phrase at hDerives
  induction hDerives generalizing tier with
  | tighter _ ih =>
      cases hPhrase
      exact ih rfl
  | operator hInfix =>
      rename_i level op left right lefts rights hLeft hOp hRight _ _
      cases level <;> simp [Tier.node] at hPhrase
  | atom hAtom =>
      cases hAtom with
      | name hName =>
          cases hPhrase
          exact ⟨rfl, hName⟩
      | _ => simp at hPhrase
  | _ => simp at hPhrase

theorem reads_assignments
    {nesting : Nat}
    (hUnary : ReadsTier (unary nesting) .unary)
    (hAssignment :
      ReadsTier (assignment nesting) .assignment) :
    ReadsTier (assignment (nesting + 1)) .assignment := by
  rw [assignment]
  refine
    (reads_disjunction hUnary).bind
      (S := fun target others e _ =>
        ∀ tokens,
          (Phrase.expression .disjunction target).Derives
            tokens → e.Derives (tokens ++ others))
      ?_ ?_
  · intro target
    refine Reads.afterPlace fun place => ?_
    refine Reads.acceptThen ?_ fun equals => ?_
    · refine (reads_pure target).mono ?_
      rintro _ e _ ⟨rfl, rfl⟩ tokens hTarget
      have hDerives : e.Derives tokens := .tighter hTarget
      simpa using hDerives
    · refine
        hAssignment.bind
          (S := fun value others e _ =>
            ∃ name hops,
              target = .variable name hops ∧
              others = [] ∧ e = .assign name value none)
          ?_ ?_
      · intro value
        split
        · rename_i name hops
          refine (reads_pure _).mono ?_
          rintro _ _ _ ⟨rfl, rfl⟩
          exact ⟨name, hops, rfl, rfl, rfl⟩
        -- Any other target is an error.
        · exact
            (reads_noteAt _ _ _ _).neverThen fun _ =>
              proceeds_pure target
      · rintro value e others _ rest hValue
          ⟨name, hops, rfl, rfl, rfl⟩ hEquals tokens hTarget
        rcases tokens_of_derives_variable hTarget with
          ⟨rfl, hName⟩
        have hAssign : Expr.Derives _ _ :=
          .assign hName (by simpa using hEquals) hValue
        simpa using hAssign
  · intro target e tokens others rest hTarget hRest
    exact hRest tokens hTarget

/- What the readers of nested expressions read. -/
theorem reads_nested (nesting : Nat) :
    ReadsTier (expression nesting) .assignment ∧
      ReadsTier (assignment nesting) .assignment ∧
      ReadsTier (unary nesting) .unary := by
  induction nesting using Nat.strongRecOn with
  | ind nesting ih =>
      refine ⟨?_, ?_, ?_⟩
      · unfold expression
        split
        · rename_i nesting
          exact (ih nesting (by omega)).2.1
        · exact reads_tooDeep _
      · cases nesting with
        | zero =>
            rw [assignment]
            exact reads_tooDeep _
        | succ nesting =>
            have hInner := ih nesting (Nat.lt_succ_self nesting)
            exact reads_assignments hInner.2.2 hInner.2.1
      · cases nesting with
        | zero =>
            rw [unary]
            exact reads_tooDeep _
        | succ nesting =>
            have hInner := ih nesting (Nat.lt_succ_self nesting)
            exact reads_signs hInner.2.2 hInner.1

theorem reads_expression (nesting : Nat) :
    ReadsTier (expression nesting) .assignment :=
  (reads_nested nesting).1

end Lox.Grammar

------------------------------------------------------------
-- Completeness
------------------------------------------------------------

namespace Lox.Grammar

open Reader

/-
  What a loop over operators or calls accepts: if it accepts
  the other tokens once `e` is its left operand, it accepts
  them after the tokens of `e` from the start. There are as
  many ticks as tokens.
-/
def AcceptsThen
    (Stops : Token → Prop)
    (first : Reader Expr)
    (loop : List Token → Expr → Reader Expr)
    (tokens : List Token)
    (e : Expr) :
    Prop :=
  ∀ (ticks others rest : List Token) (b : Expr),
    (tokens ++ (others ++ rest)).length ≤ ticks.length →
    (∀ t ∈ (others ++ rest).head?, Stops t) →
    (∀ left : List Token,
      (others ++ rest).length ≤ left.length →
        (loop left e).Accepts others b rest) →
    (first >>= loop ticks).Accepts (tokens ++ others) b rest

section Loops

variable {Stops : Token → Prop}
variable {first : Reader Expr}
variable {loop : List Token → Expr → Reader Expr}
variable {tokens : List Token} {e : Expr}

theorem AcceptsThen.ofFirst
    (hFirst : first.AcceptsBefore Stops tokens e) :
    AcceptsThen Stops first loop tokens e := by
  intro ticks others rest b hTicks hStops hLoop
  refine (hFirst _ hStops).bind (hLoop ticks ?_)
  simp only [List.length_append] at hTicks ⊢
  omega

/- A loop that ends where it has nothing to go on with. -/
theorem AcceptsThen.finish
    {Ends : Token → Prop}
    (hThen : AcceptsThen Stops first loop tokens e)
    (hStops : ∀ t, Ends t → Stops t)
    (hLoop :
      ∀ ticks rest,
        (∀ t ∈ rest.head?, Ends t) →
          (loop ticks e).Accepts [] e rest) :
    (upcoming >>= fun ticks => first >>= loop ticks).AcceptsBefore
      Ends tokens e := by
  intro rest hEnds
  refine Accepts.afterUpcoming ?_
  have hAll :=
    hThen (tokens ++ rest) [] rest e (by simp)
      (fun t ht => hStops t (hEnds t ht))
      (fun ticks _ => hLoop ticks rest hEnds)
  simpa using hAll

end Loops

section Levels

variable {tier : Tier} {operand : Reader Expr}

theorem acceptsThen_operator
    {op : Token}
    {left right : Expr}
    {lefts rights : List Token}
    (hOp : op.kind.tier? = some tier)
    (hLeft :
      AcceptsThen tier.tighter.Stops operand
        (tier.chainFrom operand) lefts left)
    (hRight :
      operand.AcceptsBefore tier.tighter.Stops rights right) :
    AcceptsThen tier.tighter.Stops operand
      (tier.chainFrom operand) (lefts ++ op :: rights)
      (tier.node left op right) := by
  intro ticks others rest b hTicks hStops hLoop
  have hAll :=
    hLeft ticks (op :: (rights ++ others)) rest b
      (by simpa using hTicks)
      (by
        intro t ht
        have hHead : t = op := by simpa using ht.symm
        exact hHead ▸ Tier.stops_tighter_of_operator hOp)
      (by
        intro ticks hTicks
        cases ticks with
        | nil => simp at hTicks
        | cons tick ticks =>
            refine (accept_some (by simpa using hOp) _).bindOne ?_
            refine Accepts.bind (hRight _ hStops) (hLoop ticks ?_)
            simp only [List.length_append, List.length_cons]
              at hTicks ⊢
            omega)
  simpa using hAll

theorem accepts_chainFrom
    (ticks rest : List Token)
    (left : Expr)
    (hStops : ∀ t ∈ rest.head?, tier.Stops t) :
    (tier.chainFrom operand ticks left).Accepts [] left rest := by
  cases ticks with
  | nil => exact accepts_pure left rest
  | cons tick ticks =>
      refine (accept_none ?_).bindNil (accepts_pure left rest)
      intro t ht
      simpa using (hStops t ht).ne

end Levels

section Calls

variable {expression : Reader Expr}

theorem stops_comma
    (t : Token)
    (hComma : t.kind = .comma) :
    Tier.assignment.Stops t := by
  simp [Tier.Stops, Kind.continues, Kind.tier?, hComma]

theorem stops_rightParen
    (t : Token)
    (hParen : t.kind = .rightParen) :
    Tier.assignment.Stops t := by
  simp [Tier.Stops, Kind.continues, Kind.tier?, hParen]

theorem accepts_noArguments
    {paren : Token}
    (hParen : paren.kind = .rightParen)
    (rest : List Token) :
    (arguments expression).Accepts [paren] ([], paren) rest :=
  (accepts_absent hParen _ _ _).bindNil
    ((accepts_expect hParen _ _).bindLast (accepts_pure _ _))

theorem accepts_arguments
    {paren : Token}
    {tokens : List Token}
    {args : List Expr}
    (hArgs :
      Commas
        (expression.AcceptsBefore Tier.assignment.Stops)
        tokens args)
    (hHead :
      ∀ t ∈ tokens.head?, t.kind ≠ .rightParen)
    (hTokens : tokens ≠ [])
    (hCount : args.length ≤ GrammarFault.maxArguments)
    (hParen : paren.kind = .rightParen)
    (rest : List Token) :
    (arguments expression).Accepts (tokens ++ [paren])
      (args, paren) rest := by
  have hItems :
      (items expression .tooManyArguments).Accepts tokens args
        (paren :: rest) := by
    refine accepts_items stops_comma hArgs hCount ?_
    intro t ht
    have hSame : t = paren := by simpa using ht.symm
    subst hSame
    exact ⟨stops_rightParen t hParen, by simp [hParen]⟩
  refine Accepts.bind (hItems.unlessNext ?_ []) ?_
  · intro t ht
    rcases List.exists_cons_of_ne_nil hTokens with
      ⟨u, others, rfl⟩
    exact hHead t ht
  · exact (accepts_expect hParen _ _).bindLast (accepts_pure _ _)

/-
  A call is one more round of the loop, once its argument list
  is accepted.
-/
theorem acceptsThen_call
    {opening paren : Token}
    {callee : Expr}
    {args : List Expr}
    {callees tokens : List Token}
    (hCallee :
      AcceptsThen Tier.primary.Stops (primary expression)
        (callsFrom expression) callees callee)
    (hOpening : opening.kind = .leftParen)
    (hArgs :
      ∀ rest,
        (arguments expression).Accepts tokens (args, paren)
          rest) :
    AcceptsThen Tier.primary.Stops (primary expression)
      (callsFrom expression) (callees ++ opening :: tokens)
      (.call callee paren args) := by
  intro ticks others rest b hTicks hStops hLoop
  have hAll :=
    hCallee ticks (opening :: (tokens ++ others)) rest b
      (by simpa using hTicks)
      (fun t _ => Tier.stops_primary t)
      (by
        intro ticks hTicks
        cases ticks with
        | nil => simp at hTicks
        | cons tick ticks =>
            refine (accepts_true hOpening _).bindOne ?_
            refine Accepts.bind (hArgs _) (hLoop ticks ?_)
            simp only [List.length_append, List.length_cons]
              at hTicks ⊢
            omega)
  simpa using hAll

theorem accepts_callsFrom
    (ticks rest : List Token)
    (callee : Expr)
    (hStops : ∀ t ∈ rest.head?, Tier.call.Stops t) :
    (callsFrom expression ticks callee).Accepts [] callee
      rest := by
  cases ticks with
  | nil => exact accepts_pure callee rest
  | cons tick ticks =>
      refine (accepts_false ?_).bindNil (accepts_pure callee rest)
      intro t ht hParen
      exact (hStops t ht).ne (by simp [Kind.tier?, hParen])

end Calls

end Lox.Grammar

------------------------------------------------------------
-- Derivations Are Accepted
------------------------------------------------------------

namespace Lox

open Grammar Reader

/-
  The reader of each level. Signs take nesting of their own,
  and so does what is in parentheses.
-/
def Tier.reader (nesting : Nat) : Tier → Reader Expr
  | .assignment => Grammar.assignment (nesting + 1)
  | .disjunction => Grammar.disjunction (Grammar.unary nesting)
  | .conjunction => Grammar.conjunction (Grammar.unary nesting)
  | .equality => Grammar.equality (Grammar.unary nesting)
  | .comparison => Grammar.comparison (Grammar.unary nesting)
  | .sum => Grammar.sum (Grammar.unary nesting)
  | .product => Grammar.product (Grammar.unary nesting)
  | .unary => Grammar.unary nesting
  | .call => calls (Grammar.expression (nesting - 1))
  | .primary => Grammar.primary (Grammar.expression (nesting - 1))

theorem Tier.reader_eq_chain
    {tier : Tier}
    (hInfix : tier.isInfix)
    (nesting : Nat) :
    tier.reader nesting =
      tier.chain (tier.tighter.reader nesting) := by
  cases tier with
  | disjunction => exact disjunction_eq _
  | conjunction => exact conjunction_eq _
  | equality => exact equality_eq _
  | comparison => exact comparison_eq _
  | sum => exact sum_eq _
  | product => exact product_eq _
  | _ => cases hInfix

/-
  How the reader of a level accepts an expression: in a loop
  at the levels of operators and calls.
-/
def Tier.AcceptsAt
    (tier : Tier)
    (nesting : Nat)
    (tokens : List Token)
    (e : Expr) :
    Prop :=
  if tier.isInfix then
    AcceptsThen tier.tighter.Stops (tier.tighter.reader nesting)
      (tier.chainFrom (tier.tighter.reader nesting)) tokens e
  else if tier = .call then
    AcceptsThen Tier.primary.Stops
      (Tier.primary.reader nesting)
      (callsFrom (Grammar.expression (nesting - 1))) tokens e
  else
    (tier.reader nesting).AcceptsBefore tier.Stops tokens e

theorem Tier.AcceptsAt.acceptsBefore
    {tier : Tier}
    {nesting : Nat}
    {tokens : List Token}
    {e : Expr}
    (hAccepts : tier.AcceptsAt nesting tokens e) :
    (tier.reader nesting).AcceptsBefore tier.Stops tokens e := by
  unfold AcceptsAt at hAccepts
  split at hAccepts
  · rename_i hInfix
    rw [reader_eq_chain hInfix]
    exact
      hAccepts.finish (fun t ht => Stops.tighter ht)
        fun ticks rest hRest =>
          accepts_chainFrom ticks rest e hRest
  · split at hAccepts
    · rename_i hCall
      subst hCall
      exact
        hAccepts.finish (fun t _ => stops_primary t)
          fun ticks rest hRest =>
            accepts_callsFrom ticks rest e hRest
    · exact hAccepts

/-
  What is accepted of a part of an expression, where ten steps
  of nesting are left for each of its tokens.
-/
def Phrase.Accepted : Phrase → List Token → Prop
  | .expression tier e, tokens =>
      ∀ nesting, 10 * tokens.length ≤ nesting + 9 →
        tier.AcceptsAt nesting tokens e
  | .arguments args, tokens =>
      tokens ≠ [] ∧
      (∀ t ∈ tokens.head?, t.kind ≠ .rightParen) ∧
      ∀ nesting, 10 * tokens.length ≤ nesting →
        Commas
          ((Grammar.expression nesting).AcceptsBefore
            Tier.assignment.Stops) tokens args

/- An expression takes ten steps more than its first level. -/
theorem Phrase.Accepted.expression
    {e : Expr}
    {tokens : List Token}
    {nesting : Nat}
    (hAccepted :
      (Phrase.expression .assignment e).Accepted tokens)
    (hTokens : tokens ≠ [])
    (hNesting : 10 * tokens.length ≤ nesting) :
    (Grammar.expression nesting).AcceptsBefore
      Tier.assignment.Stops tokens e := by
  have hPos := List.length_pos_iff.mpr hTokens
  have hLevels : 9 ≤ nesting := by omega
  rcases Nat.exists_eq_add_of_le' hLevels with ⟨k, rfl⟩
  exact (hAccepted k hNesting).acceptsBefore

theorem Tier.acceptsAt_tighter
    {tier : Tier}
    {nesting : Nat}
    {tokens : List Token}
    {e : Expr}
    (hDerives :
      (Phrase.expression tier.tighter e).Derives tokens)
    (hNesting : 10 * tokens.length ≤ nesting + 9)
    (hAccepts :
      tier.tighter.AcceptsAt nesting tokens e) :
    tier.AcceptsAt nesting tokens e := by
  have hBefore := hAccepts.acceptsBefore
  rcases hDerives.head with ⟨t, others, hTokens, hStarts⟩
  cases tier with
  | assignment =>
      intro rest hRest
      show (Grammar.assignment (nesting + 1)).Accepts tokens e rest
      rw [Grammar.assignment]
      refine
        (hBefore rest fun t ht => (hRest t ht).tighter).bindLast ?_
      refine Accepts.afterPlace fun place => ?_
      refine (accept_none ?_).bindNil (accepts_pure e rest)
      intro t ht
      have hNe := (hRest t ht).ne
      cases hKind : t.kind <;> simp_all [Kind.tier?]
  | unary =>
      -- The operand of a call does not begin with a sign, and
      -- one step of nesting is left for it.
      have hPos : 0 < nesting := by
        rw [hTokens, List.length_cons] at hNesting
        omega
      rcases Nat.exists_eq_add_one.mpr hPos with ⟨k, rfl⟩
      intro rest hRest
      show (Grammar.unary (k + 1)).Accepts tokens e rest
      rw [Grammar.unary]
      refine
        (accept_none ?_).bindNil
          (hBefore rest fun t ht => (hRest t ht).tighter)
      intro u hu
      have hSame : u = t := by simpa [hTokens] using hu.symm
      subst hSame
      revert hStarts
      cases u.kind <;> decide
  | call => exact AcceptsThen.ofFirst hBefore
  | primary => exact hAccepts
  | _ => exact AcceptsThen.ofFirst hBefore

/- A smallest expression is accepted at every level. -/
theorem Tier.acceptsAt_of_primary
    {nesting : Nat}
    {tokens : List Token}
    {e : Expr}
    (hDerives : (Phrase.expression .primary e).Derives tokens)
    (hNesting : 10 * tokens.length ≤ nesting + 9)
    (hAccepts : Tier.primary.AcceptsAt nesting tokens e)
    (tier : Tier) :
    tier.AcceptsAt nesting tokens e := by
  have hAll :
      (Phrase.expression tier e).Derives tokens ∧
        tier.AcceptsAt nesting tokens e := by
    refine
      Tier.descend
        (P := fun tier =>
          (Phrase.expression tier e).Derives tokens ∧
            tier.AcceptsAt nesting tokens e)
        ⟨hDerives, hAccepts⟩ ?_ tier
        (by cases tier <;> decide)
    intro tier hNext
    exact
      ⟨.tighter hNext.1,
        acceptsAt_tighter hNext.1 hNesting hNext.2⟩
  exact hAll.2

/- What an argument list begins with. -/
theorem Phrase.Derives.head_ne_rightParen
    {e : Expr}
    {tokens : List Token}
    (hDerives : e.Derives tokens) :
    tokens ≠ [] ∧
      ∀ t ∈ tokens.head?, t.kind ≠ .rightParen := by
  rcases hDerives.head with ⟨t, others, rfl, hStarts⟩
  refine ⟨by simp, ?_⟩
  intro u hu hParen
  have hSame : t = u := by simpa using hu
  subst hSame
  simp [Kind.starts, hParen, isAtom, Kind.isSign] at hStarts

theorem Phrase.accepted_of_derives
    {phrase : Phrase}
    {tokens : List Token}
    (hDerives : phrase.Derives tokens) :
    phrase.Accepted tokens := by
  induction hDerives with
  | tighter hTighter ih =>
      intro nesting hNesting
      exact
        Tier.acceptsAt_tighter hTighter hNesting
          (ih nesting hNesting)
  | @assign name equals value tokens hName hEquals hValue ih =>
      intro nesting hNesting rest hRest
      simp only [List.length_cons] at hNesting
      have hPos : 0 < nesting := by omega
      rcases Nat.exists_eq_add_one.mpr hPos with ⟨k, rfl⟩
      show (Grammar.assignment (k + 1 + 1)).Accepts _ _ rest
      rw [Grammar.assignment]
      have hTarget :
          (Tier.disjunction.reader (k + 1)).AcceptsBefore
            Tier.disjunction.Stops [name] (.variable name none) := by
        have hAtom := Expr.AtomDerives.name hName
        rcases Expr.atomDerives_iff.mp hAtom with ⟨hKind, hSame⟩
        refine
          (Tier.acceptsAt_of_primary (.atom hAtom)
            (by simp only [List.length_cons, List.length_nil]; omega)
            ?_ _).acceptsBefore
        intro rest _
        rw [hSame]
        exact (accept_some hKind rest).bindLast (accepts_pure _ _)
      refine
        Accepts.bindOne
          (hTarget _ fun t ht => by
            have hSame : t = equals := by simpa using ht.symm
            subst hSame
            simp [Tier.Stops, Kind.continues, Kind.tier?, hEquals,
              Tier.rank]) ?_
      refine Accepts.afterPlace fun place => ?_
      refine (accept_some (by simpa using hEquals) _).bindOne ?_
      have hBefore := (ih k (by omega)).acceptsBefore
      exact (hBefore rest hRest).bindLast (accepts_pure _ _)
  | @operator tier op left right lefts rights hInfix _ hOp _
      ihLeft ihRight =>
      intro nesting hNesting
      simp only [List.length_append, List.length_cons] at hNesting
      have hLeft := ihLeft nesting (by omega)
      have hRight := (ihRight nesting (by omega)).acceptsBefore
      unfold Tier.AcceptsAt at hLeft ⊢
      rw [if_pos hInfix] at hLeft ⊢
      exact acceptsThen_operator hOp hLeft hRight
  | @sign op e tokens hOp _ ih =>
      intro nesting hNesting rest hRest
      simp only [List.length_cons] at hNesting
      have hPos : 0 < nesting := by omega
      rcases Nat.exists_eq_add_one.mpr hPos with ⟨k, rfl⟩
      show (Grammar.unary (k + 1)).Accepts _ _ rest
      rw [Grammar.unary]
      refine (accept_some (op.kind.isSign_iff.mpr hOp) _).bindOne ?_
      have hBefore := (ih k (by omega)).acceptsBefore
      exact (hBefore rest hRest).bindLast (accepts_pure _ _)
  | plainCall _ hOpening hParen ihCallee =>
      intro nesting hNesting
      simp only [List.length_append] at hNesting
      exact
        acceptsThen_call (ihCallee nesting (by omega)) hOpening
          (accepts_noArguments hParen)
  | @call opening paren callee args callees tokens _ hOpening _
      hCount hParen ihCallee ihArgs =>
      intro nesting hNesting
      simp only [List.length_append, List.length_cons] at hNesting
      rcases ihArgs with ⟨hTokens, hHead, hArgs⟩
      exact
        acceptsThen_call (ihCallee nesting (by omega)) hOpening
          (accepts_arguments (hArgs (nesting - 1) (by omega)) hHead
            hTokens hCount hParen)
  | atom hAtom =>
      intro nesting _ rest _
      rcases Expr.atomDerives_iff.mp hAtom with ⟨hKind, rfl⟩
      exact (accept_some hKind rest).bindLast (accepts_pure _ _)
  | @grouping opening closing e tokens hOpening hInner hClosing
      ih =>
      intro nesting hNesting rest _
      simp only [List.length_append, List.length_cons] at hNesting
      rcases hInner.head with ⟨t, others, hTokens, _⟩
      have hNoAtom :
          (accept isAtom).Accepts []
            none (opening :: (tokens ++ [closing]) ++ rest) :=
        accept_none (by simp [hOpening, isAtom])
      refine hNoAtom.bindNil ?_
      refine (accepts_true hOpening _).bindOne ?_
      refine
        Accepts.bind
          (ih.expression (by simp [hTokens])
            (show 10 * tokens.length ≤ nesting - 1 by omega) _ ?_)
          ?_
      · intro u hu
        have hSame : u = closing := by simpa using hu.symm
        exact hSame ▸ stops_rightParen closing hClosing
      · exact
          (accepts_expect hClosing _ _).bindLast (accepts_pure _ _)
  | lastArgument hArg ih =>
      rcases hArg.head_ne_rightParen with ⟨hTokens, hHead⟩
      refine ⟨hTokens, hHead, ?_⟩
      intro nesting hNesting
      exact .last (ih.expression hTokens hNesting)
  | @argument comma e args tokens others hArg hComma _ ih ihArgs =>
      rcases hArg.head_ne_rightParen with ⟨hTokens, hHead⟩
      refine ⟨by simp, ?_, ?_⟩
      · rcases List.exists_cons_of_ne_nil hTokens with
          ⟨t, more, rfl⟩
        exact hHead
      · intro nesting hNesting
        simp only [List.length_append, List.length_cons] at hNesting
        exact
          .more (ih.expression hTokens (by omega)) hComma
            (ihArgs.2.2 nesting (by omega))

/-
  The tokens of an expression are read as this expression,
  whatever follows that does not carry on with it.
-/
theorem Grammar.accepts_expression
    {e : Expr}
    {tokens : List Token}
    {nesting : Nat}
    (hDerives : e.Derives tokens)
    (hNesting : 10 * tokens.length ≤ nesting) :
    (Grammar.expression nesting).AcceptsBefore
      Tier.assignment.Stops tokens e := by
  rcases hDerives.head with ⟨t, others, hTokens, _⟩
  exact
    (Phrase.accepted_of_derives hDerives).expression
      (by simp [hTokens]) hNesting

end Lox
