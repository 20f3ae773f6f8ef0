import Lox.Proofs.Grammar.Composition
import Lox.Proofs.Grammar.Vocabulary
import Lox.Proofs.Scope.Placement

/-
  Whatever is read is well formed.

  A reader takes its words from the tokens that are still to be
  read, and puts each of them where a word of its kind may
  stand. This is so however a part ends: what has been read
  before an error and after it is as well formed as what is
  read with none.

  Key definitions include:
    * `Stmt.WellFormed`
    * `Cursor.Offers`
    * `Reader.Yields`
    * `wellFormed_of_parse`
-/

------------------------------------------------------------
-- What Readers Yield
------------------------------------------------------------

namespace Lox

/-
  A statement whose words are where they may be, and whose
  declarations stand in lists of declarations.
-/
structure Stmt.WellFormed (V : Vocabulary) (s : Stmt) : Prop where
  formed : s.Formed V
  placed : s.Placed

/- All tokens that are still to be read have a property. -/
def Cursor.Offers (T : Token → Prop) (c : Cursor) : Prop :=
  ∀ t ∈ c.upcoming, T t

/-
  A reader of tokens with a property comes to others of them,
  however it ends, and what it reads is as promised.
-/
def Reader.Yields
    {α : Type}
    (T : Token → Prop)
    (reader : Reader α)
    (Post : α → Prop) :
    Prop :=
  ∀ c : Cursor, c.Offers T →
    match reader c with
    | .ok a c' => c'.Offers T ∧ Post a
    | .error _ c' => c'.Offers T

theorem Cursor.Offers.synchronize
    {T : Token → Prop}
    {c : Cursor}
    (hOffers : c.Offers T) :
    c.synchronize.Offers T := by
  unfold Cursor.synchronize
  cases hUpcoming : c.upcoming with
  | nil => exact hOffers
  | cons t rest =>
      unfold Cursor.Offers at hOffers ⊢
      rw [hUpcoming] at hOffers
      intro u hMem
      exact hOffers u (.tail t (List.mem_of_mem_drop hMem))

end Lox

namespace Lox.Reader

variable {T : Token → Prop} {α β : Type}
variable {reader : Reader α} {next : α → Reader β}
variable {Post : α → Prop} {Post' : β → Prop}

theorem yields_pure {a : α} (hPost : Post a) :
    Yields T (pure a) Post :=
  fun _ hOffers => ⟨hOffers, hPost⟩

theorem Yields.bind
    (hReader : reader.Yields T Post)
    (hNext : ∀ a, Post a → (next a).Yields T Post') :
    Yields T (reader >>= next) Post' := by
  intro c hOffers
  have hFirst := hReader c hOffers
  cases hRead : reader c with
  | ok a c' =>
      rw [hRead] at hFirst
      rw [bind_of_ok hRead]
      exact hNext a hFirst.2 c' hFirst.1
  | error halt c' =>
      rw [hRead] at hFirst
      rw [bind_of_error hRead]
      exact hFirst

theorem Yields.mono
    {Weaker : α → Prop}
    (hReader : reader.Yields T Post)
    (hMono : ∀ a, Post a → Weaker a) :
    reader.Yields T Weaker := by
  intro c hOffers
  have hEnd := hReader c hOffers
  cases hRead : reader c with
  | ok a c' =>
      rw [hRead] at hEnd
      exact ⟨hEnd.1, hMono a hEnd.2⟩
  | error halt c' =>
      rw [hRead] at hEnd
      exact hEnd

theorem Yields.map
    (hReader : reader.Yields T Post)
    {f : α → β}
    (hPost : ∀ a, Post a → Post' (f a)) :
    Yields T (f <$> reader) Post' := by
  rw [← bind_pure_comp]
  apply hReader.bind
  intro a hRead
  exact yields_pure (hPost a hRead)

theorem Yields.ite
    {other : Reader α}
    {p : Prop}
    [Decidable p]
    (hReader : reader.Yields T Post)
    (hOther : other.Yields T Post) :
    Yields T (if p then reader else other) Post := by
  by_cases hHolds : p
  · rw [if_pos hHolds]
    exact hReader
  · rw [if_neg hHolds]
    exact hOther

/- Steps that move no token out of the way. -/
theorem yields_fail (fault : GrammarFault) :
    Yields T (fail fault) Post :=
  fun _ hOffers => hOffers

theorem yields_tooDeep : Yields T tooDeep Post :=
  fun _ hOffers => hOffers

theorem yields_noteAt
    (fault : GrammarFault)
    (token : Token)
    (place : Nat) :
    Yields T (noteAt fault token place) fun _ => True :=
  fun _ hOffers => ⟨hOffers, trivial⟩

theorem yields_note (fault : GrammarFault) :
    Yields T (note fault) fun _ => True :=
  fun _ hOffers => ⟨hOffers, trivial⟩

theorem yields_upcoming : Yields T upcoming fun _ => True :=
  fun _ hOffers => ⟨hOffers, trivial⟩

theorem yields_place : Yields T place fun _ => True :=
  fun _ hOffers => ⟨hOffers, trivial⟩

theorem yields_atEnd : Yields T atEnd fun _ => True :=
  fun _ hOffers => ⟨hOffers, trivial⟩

theorem yields_nextIs (kind : Kind) :
    Yields T (nextIs kind) fun _ => True := by
  intro c hOffers
  unfold nextIs
  cases c.upcoming <;> exact ⟨hOffers, trivial⟩

/- A token that is moved over is one of those to be read. -/
theorem yields_accept (kinds : Kind → Bool) :
    Yields T (accept kinds) fun found =>
      ∀ t ∈ found, T t ∧ kinds t.kind = true := by
  intro c hOffers
  unfold accept
  cases hUpcoming : c.upcoming with
  | nil => exact ⟨hOffers, fun _ hFound => by cases hFound⟩
  | cons t rest =>
      dsimp only
      by_cases hKind : kinds t.kind = true
      · rw [if_pos hKind]
        unfold Cursor.Offers at hOffers
        rw [hUpcoming] at hOffers
        refine ⟨?_, ?_⟩
        · unfold Cursor.Offers Cursor.advance
          rw [hUpcoming]
          exact fun u hMem => hOffers u (.tail t hMem)
        · intro u hFound
          cases hFound
          exact ⟨hOffers t List.mem_cons_self, hKind⟩
      · rw [if_neg hKind]
        exact ⟨hOffers, fun _ hFound => by cases hFound⟩

theorem yields_accepts (kind : Kind) :
    Yields T (accepts kind) fun _ => True := by
  apply (yields_accept _).bind
  intro _ _
  exact yields_pure trivial

theorem yields_expect (kind : Kind) (fault : GrammarFault) :
    Yields T (expect kind fault) fun t => T t ∧ t.kind = kind := by
  apply (yields_accept _).bind
  intro found hFound
  cases found with
  | none => exact yields_fail fault
  | some t =>
      rcases hFound t rfl with ⟨hToken, hKind⟩
      exact yields_pure ⟨hToken, of_decide_eq_true hKind⟩

theorem Yields.unlessNext
    (hReader : reader.Yields T Post)
    (kind : Kind)
    {absent : α}
    (hAbsent : Post absent) :
    Yields T (unlessNext kind absent reader) Post := by
  apply (yields_nextIs kind).bind
  intro _ _
  exact (yields_pure hAbsent).ite hReader

theorem Yields.some
    (hReader : reader.Yields T Post) :
    Yields T (some <$> reader) fun found =>
      ∀ a ∈ found, Post a := by
  apply hReader.map
  intro a hPost b hFound
  cases hFound
  exact hPost

theorem yields_none :
    Yields T (pure none) fun found : Option α =>
      ∀ a ∈ found, Post a :=
  yields_pure fun _ hFound => by cases hFound

theorem Yields.optionalAfter
    (hReader : reader.Yields T Post)
    (kind : Kind) :
    Yields T (optionalAfter kind reader) fun found =>
      ∀ a ∈ found, Post a := by
  apply (yields_accepts kind).bind
  intro _ _
  exact hReader.some.ite yields_none

/- After an error only tokens are skipped. -/
theorem Yields.recovering
    (hReader : reader.Yields T Post) :
    Yields T (recovering reader) fun found =>
      ∀ a ∈ found, Post a := by
  intro c hOffers
  have hEnd := hReader c hOffers
  unfold Reader.recovering
  cases hRead : reader c with
  | ok a c' =>
      rw [hRead] at hEnd
      refine ⟨hEnd.1, ?_⟩
      intro b hFound
      cases hFound
      exact hEnd.2
  | error halt c' =>
      rw [hRead] at hEnd
      cases halt with
      | failed =>
          refine ⟨hEnd.synchronize, ?_⟩
          intro b hFound
          cases hFound
      | tooDeep => exact hEnd

/- Items are kept even where there are too many of them. -/
theorem Yields.itemsFrom
    (hItem : reader.Yields T Post)
    (tooMany : GrammarFault)
    (ticks : List Token)
    (count : Nat)
    {items : List α}
    (hItems : ∀ a ∈ items, Post a) :
    Yields T (itemsFrom reader tooMany ticks count items)
      fun found => ∀ a ∈ found, Post a := by
  induction ticks generalizing count items with
  | nil => exact yields_pure (by simpa using hItems)
  | cons _ ticks ih =>
      have hNext :
          Yields T
            (do
              let x ← reader
              Reader.itemsFrom reader tooMany ticks (count + 1)
                (x :: items))
            fun found => ∀ a ∈ found, Post a := by
        apply hItem.bind
        intro x hPost
        apply ih
        exact List.forall_mem_cons.mpr ⟨hPost, hItems⟩
      apply (yields_accepts .comma).bind
      intro _ _
      refine .ite ?_ (yields_pure (by simpa using hItems))
      by_cases hMany : GrammarFault.maxArguments ≤ count
      · simp only [if_pos hMany]
        exact (yields_note tooMany).bind fun _ _ => hNext
      · simp only [if_neg hMany]
        exact hNext

theorem Yields.items
    (hItem : reader.Yields T Post)
    (tooMany : GrammarFault) :
    Yields T (items reader tooMany)
      fun found => ∀ a ∈ found, Post a := by
  apply yields_upcoming.bind
  intro ticks _
  apply hItem.bind
  intro first hPost
  apply hItem.itemsFrom
  intro a hMem
  rw [List.mem_singleton.mp hMem]
  exact hPost

end Lox.Reader

------------------------------------------------------------
-- Expressions
------------------------------------------------------------

namespace Lox.Kind

/- The operators of two operands are those of four levels. -/
theorem mem_binaries_iff (kind : Kind) :
    kind ∈ binaries ↔
      kind.isEquality = true ∨ kind.isComparison = true ∨
        kind.isSum = true ∨ kind.isProduct = true := by
  cases kind <;> decide

end Lox.Kind

namespace Lox.Grammar

open Reader

variable {T : Token → Prop}

theorem yields_leftChainFrom
    {operand : Reader Expr}
    {isOperator : Kind → Bool}
    {node : Expr → Token → Expr → Expr}
    (hOperand : operand.Yields T (Expr.Formed (.of T)))
    (hNode :
      ∀ left op right,
        left.Formed (.of T) → T op ∧ isOperator op.kind = true →
          right.Formed (.of T) →
            (node left op right).Formed (.of T))
    (ticks : List Token)
    {left : Expr}
    (hLeft : left.Formed (.of T)) :
    Yields T (leftChainFrom operand isOperator node ticks left)
      (Expr.Formed (.of T)) := by
  induction ticks generalizing left with
  | nil => exact yields_pure hLeft
  | cons _ ticks ih =>
      apply (yields_accept isOperator).bind
      intro found hFound
      cases found with
      | none => exact yields_pure hLeft
      | some op =>
          apply hOperand.bind
          intro right hRight
          exact ih (hNode left op right hLeft (hFound op rfl) hRight)

theorem yields_leftChain
    {operand : Reader Expr}
    {isOperator : Kind → Bool}
    {node : Expr → Token → Expr → Expr}
    (hOperand : operand.Yields T (Expr.Formed (.of T)))
    (hNode :
      ∀ left op right,
        left.Formed (.of T) → T op ∧ isOperator op.kind = true →
          right.Formed (.of T) →
            (node left op right).Formed (.of T)) :
    Yields T (leftChain operand isOperator node)
      (Expr.Formed (.of T)) := by
  apply yields_upcoming.bind
  intro ticks _
  apply hOperand.bind
  intro left hLeft
  exact yields_leftChainFrom hOperand hNode ticks hLeft

/- A level whose operators are all among those of two operands. -/
theorem yields_binaryChain
    {operand : Reader Expr}
    (hOperand : operand.Yields T (Expr.Formed (.of T)))
    {isOperator : Kind → Bool}
    (hBinary :
      ∀ kind, isOperator kind = true → kind ∈ Kind.binaries) :
    Yields T (leftChain operand isOperator .binary)
      (Expr.Formed (.of T)) := by
  apply yields_leftChain hOperand
  intro left op right hLeft hOp hRight
  exact ⟨hLeft, ⟨hOp.1, hBinary _ hOp.2⟩, hRight⟩

theorem yields_disjunction
    {unary : Reader Expr}
    (hUnary : unary.Yields T (Expr.Formed (.of T))) :
    Yields T (disjunction unary) (Expr.Formed (.of T)) := by
  have hProduct : Yields T (product unary) (Expr.Formed (.of T)) :=
    yields_binaryChain hUnary fun kind hKind =>
      kind.mem_binaries_iff.mpr (by simp [hKind])
  have hSum : Yields T (sum unary) (Expr.Formed (.of T)) :=
    yields_binaryChain hProduct fun kind hKind =>
      kind.mem_binaries_iff.mpr (by simp [hKind])
  have hComparison :
      Yields T (comparison unary) (Expr.Formed (.of T)) :=
    yields_binaryChain hSum fun kind hKind =>
      kind.mem_binaries_iff.mpr (by simp [hKind])
  have hEquality :
      Yields T (equality unary) (Expr.Formed (.of T)) :=
    yields_binaryChain hComparison fun kind hKind =>
      kind.mem_binaries_iff.mpr (by simp [hKind])
  have hConjunction :
      Yields T (conjunction unary) (Expr.Formed (.of T)) := by
    apply yields_leftChain hEquality
    intro left op right hLeft hOp hRight
    exact
      ⟨hLeft, ⟨hOp.1, .inl (of_decide_eq_true hOp.2)⟩, hRight⟩
  apply yields_leftChain hConjunction
  intro left op right hLeft hOp hRight
  exact ⟨hLeft, ⟨hOp.1, .inr (of_decide_eq_true hOp.2)⟩, hRight⟩

/- An atom is a name, or the value that its token carries. -/
theorem formed_atom
    {t : Token}
    (hValue : t.CarriesValue)
    (hToken : T t)
    (hAtom : isAtom t.kind = true) :
    (atom t).Formed (.of T) := by
  unfold atom
  cases hKind : t.kind with
  | falseKw | trueKw => exact .bool _
  | nilKw => exact .nil
  | identifier => exact ⟨hToken, hKind⟩
  | number =>
      rcases hValue.number hKind with ⟨x, hLiteral⟩
      dsimp only
      rw [hLiteral]
      exact .number hToken hKind hLiteral
  | string =>
      rcases hValue.string hKind with ⟨text, hLiteral⟩
      dsimp only
      rw [hLiteral]
      exact .string hToken hKind hLiteral
  | _ =>
      rw [hKind] at hAtom
      cases hAtom

section Calls

variable (hValues : ∀ t, T t → t.CarriesValue)
variable {expression : Reader Expr}
variable (hExpression : expression.Yields T (Expr.Formed (.of T)))

include hExpression

include hValues in
theorem yields_primary :
    Yields T (primary expression) (Expr.Formed (.of T)) := by
  apply (yields_accept isAtom).bind
  intro found hFound
  cases found with
  | some t =>
      rcases hFound t rfl with ⟨hToken, hAtom⟩
      exact yields_pure (formed_atom (hValues t hToken) hToken hAtom)
  | none =>
      apply (yields_accepts .leftParen).bind
      intro _ _
      refine .ite ?_ (yields_fail _)
      apply hExpression.bind
      intro inner hInner
      apply (yields_expect .rightParen _).bind
      intro _ _
      exact yields_pure hInner

theorem yields_arguments :
    Yields T (arguments expression) fun result =>
      (∀ arg ∈ result.1, arg.Formed (.of T)) ∧
        T result.2 ∧ result.2.kind = .rightParen := by
  have hItems := hExpression.items .tooManyArguments
  apply (hItems.unlessNext .rightParen (by simp)).bind
  intro args hArgs
  apply (yields_expect .rightParen _).bind
  intro paren hParen
  exact yields_pure ⟨hArgs, hParen⟩

theorem yields_callsFrom
    (ticks : List Token)
    {callee : Expr}
    (hCallee : callee.Formed (.of T)) :
    Yields T (callsFrom expression ticks callee)
      (Expr.Formed (.of T)) := by
  induction ticks generalizing callee with
  | nil => exact yields_pure hCallee
  | cons _ ticks ih =>
      apply (yields_accepts .leftParen).bind
      intro _ _
      refine .ite ?_ (yields_pure hCallee)
      apply (yields_arguments hExpression).bind
      intro result hResult
      apply ih
      exact ⟨hCallee, hResult.2, Expr.argsFormed_iff.mpr hResult.1⟩

include hValues in
theorem yields_calls :
    Yields T (calls expression) (Expr.Formed (.of T)) := by
  apply yields_upcoming.bind
  intro ticks _
  apply (yields_primary hValues hExpression).bind
  intro callee hCallee
  exact yields_callsFrom hExpression ticks hCallee

end Calls

/- A target that is no name is kept, without the value. -/
theorem yields_valueFor
    {value : Reader Expr}
    (hValue : value.Yields T (Expr.Formed (.of T)))
    {target : Expr}
    (hTarget : target.Formed (.of T)) :
    Yields T (valueFor value target) (Expr.Formed (.of T)) := by
  apply yields_place.bind
  intro signPlace _
  apply (yields_accept _).bind
  intro found _
  cases found with
  | none => exact yields_pure hTarget
  | some equals =>
      apply hValue.bind
      intro value hFormed
      cases target with
      | «variable» name hops =>
          have hName : (Vocabulary.of T).name name := hTarget
          exact yields_pure ⟨hName, hFormed⟩
      | _ =>
          apply (yields_noteAt _ _ _).bind
          intro _ _
          exact yields_pure hTarget

/- By induction on the nesting that is allowed. -/
theorem yields_expressions
    (hValues : ∀ t, T t → t.CarriesValue)
    (nesting : Nat) :
    Yields T (expression nesting) (Expr.Formed (.of T)) ∧
      Yields T (assignment nesting) (Expr.Formed (.of T)) ∧
      Yields T (unary nesting) (Expr.Formed (.of T)) := by
  induction nesting using Nat.strongRecOn with
  | ind nesting ih =>
      refine ⟨?_, ?_, ?_⟩
      · unfold expression
        split
        · rename_i nesting
          exact (ih nesting (by omega)).2.1
        · exact yields_tooDeep
      · cases nesting with
        | zero =>
            rw [assignment]
            exact yields_tooDeep
        | succ nesting =>
            have hInner := ih nesting (Nat.lt_succ_self nesting)
            rw [assignment_succ]
            apply (yields_disjunction hInner.2.2).bind
            intro target hTarget
            exact yields_valueFor hInner.2.1 hTarget
      · cases nesting with
        | zero =>
            rw [unary]
            exact yields_tooDeep
        | succ nesting =>
            have hInner := ih nesting (Nat.lt_succ_self nesting)
            rw [unary]
            apply (yields_accept Kind.isSign).bind
            intro found hFound
            cases found with
            | none => exact yields_calls hValues hInner.1
            | some op =>
                rcases hFound op rfl with ⟨hToken, hSign⟩
                have hKind := op.kind.isSign_iff.mp hSign
                apply hInner.2.2.bind
                intro operand hOperand
                exact yields_pure ⟨⟨hToken, hKind⟩, hOperand⟩

end Lox.Grammar

------------------------------------------------------------
-- Statements
------------------------------------------------------------

namespace Lox.Grammar

open Reader

variable {T : Token → Prop}
variable {expression : Reader Expr} {statement : Reader Stmt}
variable {declaration : Reader (Option Stmt)}

/- A statement that is well formed and declares nothing. -/
def IsPart (T : Token → Prop) (s : Stmt) : Prop :=
  s.IsPlain ∧ s.WellFormed (.of T)

section Expressions

variable (hExpression : expression.Yields T (Expr.Formed (.of T)))

include hExpression

theorem yields_expressionStatement :
    Yields T (expressionStatement expression) (IsPart T) := by
  apply hExpression.bind
  intro value hValue
  apply (yields_expect .semicolon _).bind
  intro _ _
  exact yields_pure ⟨trivial, hValue, trivial⟩

theorem yields_printRest :
    Yields T (printRest expression) (IsPart T) := by
  apply hExpression.bind
  intro value hValue
  apply (yields_expect .semicolon _).bind
  intro _ _
  exact yields_pure ⟨trivial, hValue, trivial⟩

theorem yields_returnRest
    {keyword : Token}
    (hKeyword : T keyword ∧ keyword.kind = .returnKw) :
    Yields T (returnRest expression keyword) (IsPart T) := by
  apply (hExpression.some.unlessNext .semicolon (by simp)).bind
  intro value hValue
  apply (yields_expect .semicolon _).bind
  intro _ _
  cases value with
  | none => exact yields_pure ⟨trivial, hKeyword, trivial⟩
  | some value =>
      exact
        yields_pure ⟨trivial, ⟨hKeyword, hValue value rfl⟩, trivial⟩

theorem yields_variableRest :
    Yields T (variableRest expression)
      (Stmt.WellFormed (.of T)) := by
  apply (yields_expect .identifier _).bind
  intro name hName
  apply (hExpression.optionalAfter .equal).bind
  intro initializer hInitializer
  apply (yields_expect .semicolon _).bind
  intro _ _
  cases initializer with
  | none => exact yields_pure ⟨hName, trivial⟩
  | some value =>
      exact yields_pure ⟨⟨hName, hInitializer value rfl⟩, trivial⟩

theorem yields_forInitializer :
    Yields T (forInitializer expression) fun initializer =>
      ∀ s ∈ initializer, s.WellFormed (.of T) := by
  apply (yields_accepts .semicolon).bind
  intro _ _
  refine .ite yields_none ?_
  apply (yields_accepts .varKw).bind
  intro _ _
  refine .ite (yields_variableRest hExpression).some ?_
  apply (yields_expressionStatement hExpression).map
  intro s hPart u hFound
  cases hFound
  exact hPart.2

end Expressions

/- The parts of a loop are well formed where they are put. -/
theorem wellFormed_forLoop
    {initializer : Option Stmt}
    {condition : Expr}
    {increment : Option Expr}
    {body : Stmt}
    (hInitializer :
      ∀ s ∈ initializer, s.WellFormed (.of T))
    (hCondition : condition.Formed (.of T))
    (hIncrement : ∀ e ∈ increment, e.Formed (.of T))
    (hBody : body.WellFormed (.of T)) :
    (forLoop initializer condition increment body).WellFormed
      (.of T) := by
  constructor
  · have hRound :
        Stmt.BodyFormed (.of T)
          (body :: (increment.map Stmt.expression).toList) := by
      refine ⟨hBody.formed, ?_⟩
      cases increment with
      | none => exact trivial
      | some e => exact ⟨hIncrement e rfl, trivial⟩
    have hLoop :
        (Stmt.loop condition (.block _)).Formed (.of T) :=
      ⟨hCondition, hRound⟩
    cases initializer with
    | none => exact ⟨hLoop, trivial⟩
    | some s => exact ⟨(hInitializer s rfl).formed, hLoop, trivial⟩
  · apply placed_forLoop _ hBody.placed
    cases initializer with
    | none => exact trivial
    | some s => exact ⟨(hInitializer s rfl).placed, trivial⟩

section Branches

variable (hExpression : expression.Yields T (Expr.Formed (.of T)))
variable (hStatement : statement.Yields T (IsPart T))

include hExpression hStatement

theorem yields_ifRest :
    Yields T (ifRest expression statement) (IsPart T) := by
  apply (yields_expect .leftParen _).bind
  intro _ _
  apply hExpression.bind
  intro condition hCondition
  apply (yields_expect .rightParen _).bind
  intro _ _
  apply hStatement.bind
  intro thenBranch hThen
  apply (hStatement.optionalAfter .elseKw).bind
  intro elseBranch hElse
  have hThenPlaced := And.intro hThen.1 hThen.2.placed
  cases elseBranch with
  | none =>
      exact
        yields_pure
          ⟨trivial, ⟨hCondition, hThen.2.formed⟩, hThenPlaced⟩
  | some elseBranch =>
      rcases hElse elseBranch rfl with ⟨hPlain, hFormed⟩
      exact
        yields_pure
          ⟨trivial, ⟨hCondition, hThen.2.formed, hFormed.formed⟩,
            hThenPlaced, hPlain, hFormed.placed⟩

theorem yields_whileRest :
    Yields T (whileRest expression statement) (IsPart T) := by
  apply (yields_expect .leftParen _).bind
  intro _ _
  apply hExpression.bind
  intro condition hCondition
  apply (yields_expect .rightParen _).bind
  intro _ _
  apply hStatement.bind
  intro body hBody
  exact
    yields_pure
      ⟨trivial, ⟨hCondition, hBody.2.formed⟩, hBody.1,
        hBody.2.placed⟩

theorem yields_forRest :
    Yields T (forRest expression statement) (IsPart T) := by
  apply (yields_expect .leftParen _).bind
  intro _ _
  apply (yields_forInitializer hExpression).bind
  intro initializer hInitializer
  have hAlways : (Expr.literal (.bool true)).Formed (.of T) :=
    Literal.Written.bool true
  apply (hExpression.unlessNext .semicolon hAlways).bind
  intro condition hCondition
  apply (yields_expect .semicolon _).bind
  intro _ _
  apply (hExpression.some.unlessNext .rightParen (by simp)).bind
  intro increment hIncrement
  apply (yields_expect .rightParen _).bind
  intro _ _
  apply hStatement.bind
  intro body hBody
  exact
    yields_pure
      ⟨trivial,
        wellFormed_forLoop hInitializer hCondition hIncrement
          hBody.2⟩

end Branches

section Bodies

variable
  (hDeclaration :
    declaration.Yields T fun found =>
      ∀ s ∈ found, s.WellFormed (.of T))

include hDeclaration

/- What is dropped leaves the rest of a body as it is. -/
theorem yields_declarationsFrom
    (ticks : List Token)
    {body : List Stmt}
    (hBody : ∀ s ∈ body, s.WellFormed (.of T)) :
    Yields T (declarationsFrom declaration ticks body)
      fun body => ∀ s ∈ body, s.WellFormed (.of T) := by
  induction ticks generalizing body with
  | nil => exact yields_pure (by simpa using hBody)
  | cons _ ticks ih =>
      apply (yields_nextIs .rightBrace).bind
      intro _ _
      apply yields_atEnd.bind
      intro _ _
      refine .ite (yields_pure (by simpa using hBody)) ?_
      apply hDeclaration.bind
      intro found hFound
      cases found with
      | none => exact ih hBody
      | some s =>
          apply ih
          exact List.forall_mem_cons.mpr ⟨hFound s rfl, hBody⟩

theorem yields_blockRest :
    Yields T (blockRest declaration)
      fun body => ∀ s ∈ body, s.WellFormed (.of T) := by
  apply yields_upcoming.bind
  intro ticks _
  apply (yields_declarationsFrom hDeclaration ticks (by simp)).bind
  intro body hBody
  apply (yields_expect .rightBrace _).bind
  intro _ _
  exact yields_pure hBody

theorem yields_functionRest :
    Yields T (functionRest declaration)
      (Stmt.WellFormed (.of T)) := by
  have hItems :=
    (yields_expect (T := T) .identifier
      .expectParameterName).items .tooManyParameters
  apply (yields_expect .identifier _).bind
  intro name hName
  apply (yields_expect .leftParen _).bind
  intro _ _
  apply (hItems.unlessNext .rightParen (by simp)).bind
  intro params hParams
  apply (yields_expect .rightParen _).bind
  intro _ _
  apply (yields_expect .leftBrace _).bind
  intro _ _
  apply (yields_blockRest hDeclaration).bind
  intro body hBody
  apply yields_pure
  exact
    ⟨⟨hName, hParams,
        Stmt.bodyFormed_iff.mpr fun s hMem => (hBody s hMem).formed⟩,
      Stmt.placedBody_iff.mpr fun s hMem => (hBody s hMem).placed⟩

end Bodies

/- By induction on the nesting that is allowed. -/
theorem yields_statements
    (hValues : ∀ t, T t → t.CarriesValue)
    (nesting : Nat) :
    (Yields T (Grammar.declaration nesting) fun found =>
        ∀ s ∈ found, s.WellFormed (.of T)) ∧
      Yields T (Grammar.statement nesting) (IsPart T) := by
  induction nesting with
  | zero =>
      rw [Grammar.declaration, Grammar.statement]
      exact ⟨yields_tooDeep, yields_tooDeep⟩
  | succ nesting ih =>
      rcases ih with ⟨hDeclaration, hStatement⟩
      have hExpression := (yields_expressions hValues nesting).1
      constructor
      · rw [Grammar.declaration]
        apply Yields.recovering
        apply (yields_accept opensDeclaration).bind
        intro found _
        cases found with
        | none => exact hStatement.mono fun _ hPart => hPart.2
        | some t =>
            exact
              (yields_functionRest hDeclaration).ite
                (yields_variableRest hExpression)
      · rw [Grammar.statement]
        apply (yields_accept opensStatement).bind
        intro found hFound
        cases found with
        | none => exact yields_expressionStatement hExpression
        | some t =>
            simp only
            split
            · exact yields_forRest hExpression hStatement
            · exact yields_ifRest hExpression hStatement
            · exact yields_printRest hExpression
            · rename_i hKind
              exact
                yields_returnRest hExpression
                  ⟨(hFound t rfl).1, hKind⟩
            · exact yields_whileRest hExpression hStatement
            · apply (yields_blockRest hDeclaration).map
              intro body hBody
              refine ⟨trivial, ?_, ?_⟩
              · exact
                  Stmt.bodyFormed_iff.mpr
                    fun s hMem => (hBody s hMem).formed
              · exact
                  Stmt.placedBody_iff.mpr
                    fun s hMem => (hBody s hMem).placed

end Lox.Grammar

------------------------------------------------------------
-- Programs
------------------------------------------------------------

namespace Lox

variable {T : Token → Prop}

/- A declaration that is nested too deeply is dropped whole. -/
theorem Grammar.wellFormed_programFrom
    {declaration : Reader (Option Stmt)}
    (hDeclaration :
      declaration.Yields T fun found =>
        ∀ s ∈ found, s.WellFormed (.of T))
    (ticks : List Token)
    {program : List Stmt}
    (hProgram : ∀ s ∈ program, s.WellFormed (.of T))
    {c : Cursor}
    (hOffers : c.Offers T) :
    ∀ s ∈ (programFrom declaration ticks program c).program,
      s.WellFormed (.of T) := by
  induction ticks generalizing program c with
  | nil => simpa [programFrom] using hProgram
  | cons _ ticks ih =>
      have hRead := hDeclaration c hOffers
      unfold programFrom
      by_cases hEnd : c.atEnd = true
      · rw [if_pos hEnd]
        simpa using hProgram
      · rw [if_neg hEnd]
        cases hResult : declaration c with
        | ok found c' =>
            rw [hResult] at hRead
            cases found with
            | none => exact ih hProgram hRead.1
            | some s =>
                apply ih _ hRead.1
                exact List.forall_mem_cons.mpr
                  ⟨hRead.2 s rfl, hProgram⟩
        | error halt c' =>
            rw [hResult] at hRead
            cases halt with
            | failed => exact ih hProgram hRead
            | tooDeep =>
                have hNoted : (c'.recordHere .nestingTooDeep).Offers T :=
                  hRead
                exact ih hProgram hNoted.synchronize

/-
  Every statement that is read from some tokens is well formed
  in their words, whether there are errors in them or not.
-/
theorem wellFormed_of_parse
    (hValues : ∀ t, T t → t.CarriesValue)
    (limits : Limits)
    {tokens : List Token}
    (hTokens : ∀ t ∈ tokens, T t) :
    ∀ s ∈ (parse limits tokens).program, s.WellFormed (.of T) := by
  apply Grammar.wellFormed_programFrom
  · exact (Grammar.yields_statements hValues limits.nesting).1
  · intro s hMem
    cases hMem
  · intro t hMem
    exact hTokens t (List.takeWhile_subset _ hMem)

end Lox
