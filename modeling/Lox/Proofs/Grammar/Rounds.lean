import Lox.Proofs.Grammar.Standing

/-
  Rounds of reading by place.

  The loops of readers run out of tokens before they run out
  of ticks, so they do what rounds without ticks do. Every
  round that is followed by another one moves over a token;
  for chains of operators, lists of items and calls this is
  the token that leads to the next round.

  Key definitions include:
    * `Text.Moves`
    * `Text.Unrolls`
    * `Text.agrees_rounds`
    * `Text.follows_expressions`
-/

------------------------------------------------------------
-- Loops
------------------------------------------------------------

namespace Lox.Text

open Indexed

variable {α β : Type} {text : Text} {c d : Cursor} {s : State}

/- A round that is to be followed by another one has moved on. -/
structure Moves (turn : Reader (Turn β α)) : Prop where
  length_lt :
    ∀ {c d : Cursor} {next : β},
      turn c = .ok (.again next) d →
        d.upcoming.length < c.upcoming.length

/- What follows a round: the loop from there, or nothing. -/
def goOn
    (loop : β → Reader α) :
    Turn β α → Reader α
  | .again next => loop next
  | .done a => pure a

/-
  A loop with ticks is its first round and then the loop with
  one tick less, as long as there is a tick for each token.
-/
def Unrolls
    (turn : β → Reader (Turn β α))
    (loop : List Token → β → Reader α) :
    Prop :=
  ∀ {c : Cursor} (ticks : List Token) (b : β),
    c.upcoming.length ≤ ticks.length →
      loop ticks b c = (turn b >>= goOn (loop ticks.tail)) c

/-
  Rounds without ticks do what a loop with ticks does, since
  the tokens run out before the ticks do. The induction is on
  the number of tokens that are left.
-/
theorem agrees_rounds
    {round : β → Step (Turn β α)}
    {turn : β → Reader (Turn β α)}
    {loop : List Token → β → Reader α}
    (hRound : ∀ b, Follows (round b) (turn b))
    (hMoves : ∀ b, Moves (turn b))
    (hUnrolls : Unrolls turn loop)
    (ticks : List Token)
    (b : β)
    (hTicks : c.upcoming.length ≤ ticks.length)
    (hStands : text.Stands c s) :
    text.Agrees (rounds round b s) (loop ticks b c) := by
  induction hLength : c.upcoming.length
    using Nat.strongRecOn generalizing b c s ticks with
  | ind length ih =>
      have hFirst := (hRound b).agrees hStands
      rw [hUnrolls ticks b hTicks, rounds]
      rcases hFirst.ends with
        ⟨turned, t, d, hRun, hRun', hNext⟩ |
          ⟨halt, t, d, hRun, hRun', hNext⟩
      · rw [bind_of_ok hRun', hRun]
        cases turned with
        | done a => exact ⟨rfl, hNext⟩
        | again next =>
            have hLess := (hMoves b).length_lt hRun'
            have hLeft : t.left < s.left := by
              rw [hNext.left, hStands.left]
              omega
            have hFew :
                d.upcoming.length ≤ ticks.tail.length := by
              rw [List.length_tail]
              omega
            simp only [if_pos hLeft]
            exact
              ih _ (hLength ▸ hLess) ticks.tail next hFew hNext
                rfl
      · rw [bind_of_error hRun', hRun]
        exact ⟨rfl, hNext⟩

/- A first part, and then a loop over the tokens left. -/
theorem Follows.thenRounds
    {x : Step β}
    {y : Reader β}
    {round : β → Step (Turn β α)}
    (turn : β → Reader (Turn β α))
    (loop : List Token → β → Reader α)
    (hFirst : Follows x y)
    (hProceeds : ∀ ticks b, (loop ticks b).Proceeds)
    (hRound : ∀ b, Follows (round b) (turn b))
    (hMoves : ∀ b, Moves (turn b))
    (hUnrolls : Unrolls turn loop) :
    Follows (x >>= rounds round)
      (Reader.upcoming >>= fun ticks => y >>= loop ticks) := by
  constructor
  · apply Reader.proceeds_upcoming.bind
    intro ticks
    exact hFirst.proceeds.bind (hProceeds ticks)
  · intro text c s hStands
    rw [bind_of_ok
      (show Reader.upcoming c = .ok c.upcoming c from rfl)]
    apply (hFirst.agrees hStands).bind
    intro b d t hRun hNext
    exact
      agrees_rounds hRound hMoves hUnrolls c.upcoming b
        (hFirst.proceeds.leads hRun).length_le hNext

end Lox.Text

------------------------------------------------------------
-- Rounds That Move
------------------------------------------------------------

namespace Lox.Reader

/- A token that is accepted has been moved over. -/
theorem length_accept
    {c d : Cursor}
    {kinds : Kind → Bool}
    {t : Token}
    (hRun : accept kinds c = .ok (some t) d) :
    d.upcoming.length < c.upcoming.length := by
  unfold accept at hRun
  split at hRun
  · cases hRun
  · rename_i u rest hUpcoming
    split at hRun
    · cases hRun
      exact upcoming_advance hUpcoming
    · cases hRun

end Lox.Reader

namespace Lox.Text

open Indexed

variable {α β : Type} {text : Text} {c d : Cursor} {s : State}

/- A round that first moves over a token, or is done. -/
theorem moves_accept
    {kinds : Kind → Bool}
    {next : Option Token → Reader (Turn β α)}
    (hNone : ∃ a, next none = pure (.done a))
    (hSome : ∀ t, (next (some t)).Proceeds) :
    Moves (Reader.accept kinds >>= next) := by
  constructor
  intro c e b hRun
  rcases bind_eq_ok_iff.mp hRun with
    ⟨found, d, hFirst, hRest⟩
  cases found with
  | none =>
      rcases hNone with ⟨a, hDone⟩
      rw [hDone] at hRest
      cases hRest
  | some t =>
      have hLess := Reader.length_accept hFirst
      have hLength := ((hSome t).leads hRest).length_le
      omega

theorem moves_accepts
    {kind : Kind}
    {next : Bool → Reader (Turn β α)}
    (hFalse : ∃ a, next false = pure (.done a))
    (hTrue : (next true).Proceeds) :
    Moves (Reader.accepts kind >>= next) := by
  unfold Reader.accepts
  rw [bind_assoc]
  exact moves_accept hFalse fun _ => hTrue

theorem Moves.after
    {γ : Type}
    {x : Reader γ}
    {next : γ → Reader (Turn β α)}
    (hFirst : x.Proceeds)
    (hNext : ∀ a, Moves (next a)) :
    Moves (x >>= next) := by
  constructor
  intro c e b hRun
  rcases bind_eq_ok_iff.mp hRun with ⟨a, d, hRunFirst, hRest⟩
  have hLength := (hFirst.leads hRunFirst).length_le
  have hLess := (hNext a).length_lt hRest
  omega

/- Only what comes after the first step has to be the same. -/
theorem bind_congr_at
    {γ : Type}
    {x : Reader γ}
    {f g : γ → Reader α}
    (hSame : ∀ a d, x c = .ok a d → f a d = g a d) :
    (x >>= f) c = (x >>= g) c := by
  cases hRun : x c with
  | ok a d =>
      rw [bind_of_ok hRun, bind_of_ok hRun]
      exact hSame a d hRun
  | error halt d => rw [bind_of_error hRun, bind_of_error hRun]

/- At the end there is no token to move over. -/
theorem accept_atEnd
    (hEnd : c.upcoming = [])
    (kinds : Kind → Bool) :
    Reader.accept kinds c = .ok none c := by
  simp [Reader.accept, hEnd]

theorem accepts_atEnd
    (hEnd : c.upcoming = [])
    (kind : Kind) :
    Reader.accepts kind c = .ok false c := by
  unfold Reader.accepts
  rw [bind_of_ok (accept_atEnd hEnd _)]
  rfl

end Lox.Text

------------------------------------------------------------
-- Operators
------------------------------------------------------------

namespace Lox.Text

open Indexed

variable {text : Text}

/- An operator with the operand after it, if there is one. -/
def chainTurn
    (operand : Reader Expr)
    (isOperator : Kind → Bool)
    (node : Expr → Token → Expr → Expr)
    (left : Expr) :
    Reader (Turn Expr Expr) := do
  match ← Reader.accept isOperator with
  | none => return .done left
  | some op =>
      let right ← operand
      return .again (node left op right)

theorem unrolls_leftChainFrom
    (operand : Reader Expr)
    (isOperator : Kind → Bool)
    (node : Expr → Token → Expr → Expr) :
    Unrolls (chainTurn operand isOperator node)
      (Grammar.leftChainFrom operand isOperator node) := by
  intro c ticks left hTicks
  unfold chainTurn
  rw [bind_assoc]
  cases ticks with
  | nil =>
      have hEnd : c.upcoming = [] := by simpa using hTicks
      rw [bind_of_ok (accept_atEnd hEnd isOperator)]
      rfl
  | cons tick ticks =>
      rw [Grammar.leftChainFrom]
      refine congrFun (bind_congr fun found => ?_) c
      cases found with
      | none => rfl
      | some op => simp [goOn]

theorem follows_leftChain
    {operand : Step Expr}
    {operand' : Reader Expr}
    (hOperand : Follows operand operand')
    (isOperator : Kind → Bool)
    (node : Expr → Token → Expr → Expr) :
    Follows (leftChain operand isOperator node)
      (Grammar.leftChain operand' isOperator node) := by
  have hProceeds := hOperand.proceeds
  apply
    hOperand.thenRounds (chainTurn operand' isOperator node)
      (Grammar.leftChainFrom operand' isOperator node)
  · intro ticks left
    exact
      Grammar.proceeds_leftChainFrom hProceeds isOperator node
        ticks left
  · intro left
    apply (follows_accept isOperator).bind
    intro found
    cases found with
    | none => exact follows_pure _
    | some op => exact hOperand.bind fun _ => follows_pure _
  · intro left
    apply moves_accept ⟨left, rfl⟩
    intro op
    exact hProceeds.bind fun _ => Reader.proceeds_pure _
  · exact unrolls_leftChainFrom operand' isOperator node

theorem follows_disjunction
    {unary : Step Expr}
    {unary' : Reader Expr}
    (hUnary : Follows unary unary') :
    Follows (disjunction unary)
      (Grammar.disjunction unary') := by
  apply follows_leftChain
  apply follows_leftChain
  apply follows_leftChain
  apply follows_leftChain
  apply follows_leftChain
  exact follows_leftChain hUnary _ _

end Lox.Text

------------------------------------------------------------
-- Items
------------------------------------------------------------

namespace Lox.Text

open Indexed

variable {α : Type} {text : Text} {c : Cursor}

/- Whether more items follow. -/
def moreTurn
    (items : List α) :
    Reader (Turn (List α) (List α)) := do
  if ← Reader.accepts .comma then return .again items
  else return .done items.reverse

/- An item, and whether more items follow it. -/
def itemTurn
    (item : Reader α)
    (tooMany : GrammarFault)
    (items : List α) :
    Reader (Turn (List α) (List α)) := do
  if GrammarFault.maxArguments ≤ items.length then
    Reader.note tooMany
  let x ← item
  moreTurn (x :: items)

/- An item, and the items that follow it. -/
def itemLoop
    (item : Reader α)
    (tooMany : GrammarFault)
    (ticks : List Token)
    (items : List α) :
    Reader (List α) := do
  if GrammarFault.maxArguments ≤ items.length then
    Reader.note tooMany
  let x ← item
  Reader.itemsFrom item tooMany ticks (items.length + 1)
    (x :: items)

/- A note that is only made under a condition. -/
theorem follows_noteIf
    {x : Step α}
    {y : Reader α}
    {p : Prop}
    [Decidable p]
    (hNext : Follows x y)
    (fault : GrammarFault) :
    Follows
      (do
        if p then note fault
        x)
      (do
        if p then Reader.note fault
        y) :=
  ((follows_note fault).bind fun _ => hNext).ite hNext

theorem unrolls_itemsFrom
    (item : Reader α)
    (tooMany : GrammarFault)
    {ticks : List Token}
    (items : List α)
    (hTicks : c.upcoming.length ≤ ticks.length) :
    Reader.itemsFrom item tooMany ticks items.length items c =
      (moreTurn items >>= goOn (itemLoop item tooMany ticks.tail))
        c := by
  unfold moreTurn
  rw [bind_assoc]
  cases ticks with
  | nil =>
      have hEnd : c.upcoming = [] := by simpa using hTicks
      rw [bind_of_ok (accepts_atEnd hEnd .comma)]
      rfl
  | cons tick ticks =>
      rw [Reader.itemsFrom]
      refine congrFun (bind_congr fun found => ?_) c
      cases found <;> rfl

theorem unrolls_itemLoop
    {item : Reader α}
    (hItem : item.Proceeds)
    (tooMany : GrammarFault) :
    Unrolls (itemTurn item tooMany) (itemLoop item tooMany) := by
  have hItems :
      ∀ {c : Cursor} (ticks : List Token) (items : List α),
        c.upcoming.length ≤ ticks.length →
          (item >>= fun x =>
            Reader.itemsFrom item tooMany ticks (items.length + 1)
              (x :: items)) c =
            ((item >>= fun x => moreTurn (x :: items)) >>=
              goOn (itemLoop item tooMany ticks.tail)) c := by
    intro c ticks items hTicks
    rw [bind_assoc]
    apply bind_congr_at
    intro x d hRun
    have hLength := (hItem.leads hRun).length_le
    exact
      unrolls_itemsFrom item tooMany (x :: items)
        (Nat.le_trans hLength hTicks)
  intro c ticks items hTicks
  unfold itemTurn itemLoop
  by_cases hMany : GrammarFault.maxArguments ≤ items.length
  · simp only [if_pos hMany]
    rw [bind_assoc]
    exact hItems ticks items hTicks
  · simp only [if_neg hMany]
    exact hItems ticks items hTicks

theorem moves_itemTurn
    {item : Reader α}
    (hItem : item.Proceeds)
    (tooMany : GrammarFault)
    (items : List α) :
    Moves (itemTurn item tooMany items) := by
  have hMore (x : α) : Moves (moreTurn (x :: items)) :=
    moves_accepts ⟨_, rfl⟩ (Reader.proceeds_pure _)
  unfold itemTurn
  by_cases hMany : GrammarFault.maxArguments ≤ items.length
  · simp only [if_pos hMany]
    apply Moves.after (Reader.proceeds_note tooMany)
    intro _
    exact Moves.after hItem hMore
  · simp only [if_neg hMany]
    exact Moves.after hItem hMore

theorem proceeds_itemLoop
    {item : Reader α}
    (hItem : item.Proceeds)
    (tooMany : GrammarFault)
    (ticks : List Token)
    (items : List α) :
    (itemLoop item tooMany ticks items).Proceeds := by
  have hItems :
      (item >>= fun x =>
        Reader.itemsFrom item tooMany ticks (items.length + 1)
          (x :: items)).Proceeds :=
    hItem.bind fun x => hItem.itemsFrom tooMany ticks _ _
  unfold itemLoop
  by_cases hMany : GrammarFault.maxArguments ≤ items.length
  · simp only [if_pos hMany]
    exact (Reader.proceeds_note tooMany).bind fun _ => hItems
  · simp only [if_neg hMany]
    exact hItems

theorem follows_items
    {item : Step α}
    {item' : Reader α}
    (hItem : Follows item item')
    (tooMany : GrammarFault) :
    Follows (items item tooMany)
      (Reader.items item' tooMany) := by
  have hProceeds := hItem.proceeds
  -- The first item is one more round, after none so far.
  apply
    (follows_pure []).thenRounds (itemTurn item' tooMany)
      (itemLoop item' tooMany)
  · exact proceeds_itemLoop hProceeds tooMany
  · intro items
    apply follows_noteIf
    apply hItem.bind
    intro x
    apply (follows_accepts .comma).bind
    intro found
    exact (follows_pure _).ite (follows_pure _)
  · exact moves_itemTurn hProceeds tooMany
  · exact unrolls_itemLoop hProceeds tooMany

end Lox.Text

------------------------------------------------------------
-- Expressions
------------------------------------------------------------

namespace Lox.Text

open Indexed

variable {α : Type} {text : Text}

theorem follows_unlessNext
    {x : Step α}
    {y : Reader α}
    (hPart : Follows x y)
    (kind : Kind)
    (absent : α) :
    Follows (unlessNext kind absent x)
      (Reader.unlessNext kind absent y) := by
  apply (follows_check kind).bind
  intro found
  exact (follows_pure absent).ite hPart

theorem follows_optionalAfter
    {x : Step α}
    {y : Reader α}
    (hPart : Follows x y)
    (kind : Kind) :
    Follows (optionalAfter kind x)
      (Reader.optionalAfter kind y) := by
  apply (follows_accepts kind).bind
  intro found
  exact (hPart.map some).ite (follows_pure none)

section Nested

variable {expression : Step Expr} {expression' : Reader Expr}
variable (hExpression : Follows expression expression')

/- A list of arguments after a callee, if there is one. -/
def callTurn
    (expression : Reader Expr)
    (callee : Expr) :
    Reader (Turn Expr Expr) := do
  if ← Reader.accepts .leftParen then
    let (args, paren) ← Grammar.arguments expression
    return .again (.call callee paren args)
  else
    return .done callee

theorem unrolls_callsFrom (expression : Reader Expr) :
    Unrolls (callTurn expression)
      (Grammar.callsFrom expression) := by
  intro c ticks callee hTicks
  unfold callTurn
  rw [bind_assoc]
  cases ticks with
  | nil =>
      have hEnd : c.upcoming = [] := by simpa using hTicks
      rw [bind_of_ok (accepts_atEnd hEnd .leftParen)]
      rfl
  | cons tick ticks =>
      rw [Grammar.callsFrom]
      refine congrFun (bind_congr fun found => ?_) c
      cases found with
      | false => rfl
      | true => simp [goOn]

include hExpression

theorem follows_primary :
    Follows (primary expression)
      (Grammar.primary expression') := by
  apply (follows_accept Grammar.isAtom).bind
  intro found
  cases found with
  | some t => exact follows_pure _
  | none =>
      apply (follows_accepts .leftParen).bind
      intro opened
      refine Follows.ite ?_ (follows_fail _)
      apply hExpression.bind
      intro inner
      apply (follows_expect _ _).bind
      intro _
      exact follows_pure _

theorem follows_arguments :
    Follows (arguments expression)
      (Grammar.arguments expression') := by
  apply
    (follows_unlessNext (follows_items hExpression _) _ _).bind
  intro args
  apply (follows_expect _ _).bind
  intro paren
  exact follows_pure _

theorem follows_calls :
    Follows (calls expression)
      (Grammar.calls expression') := by
  have hArguments := follows_arguments hExpression
  apply
    (follows_primary hExpression).thenRounds
      (callTurn expression') (Grammar.callsFrom expression')
  · exact Grammar.proceeds_callsFrom hArguments.proceeds
  · intro callee
    apply (follows_accepts .leftParen).bind
    intro found
    refine Follows.ite ?_ (follows_pure _)
    exact hArguments.bind fun _ => follows_pure _
  · intro callee
    apply moves_accepts ⟨callee, rfl⟩
    exact
      hArguments.proceeds.bind fun _ => Reader.proceeds_pure _
  · exact unrolls_callsFrom expression'

end Nested

theorem follows_assignment_step
    {nesting : Nat}
    (hUnary :
      Follows (unary nesting) (Grammar.unary nesting))
    (hAssignment :
      Follows (assignment nesting)
        (Grammar.assignment nesting)) :
    Follows (assignment (nesting + 1))
      (Grammar.assignment (nesting + 1)) := by
  rw [assignment, Grammar.assignment]
  apply (follows_disjunction hUnary).bind
  intro target
  apply follows_place.bind
  intro signPlace
  apply (follows_accept _).bind
  intro found
  cases found with
  | none => exact follows_pure target
  | some equals =>
      apply hAssignment.bind
      intro value
      cases target with
      | «variable» name hops => exact follows_pure _
      | _ =>
          apply (follows_noteAt _ _ _).bind
          intro _
          exact follows_pure _

theorem follows_unary_step
    {nesting : Nat}
    (hUnary :
      Follows (unary nesting) (Grammar.unary nesting))
    (hExpression :
      Follows (expression nesting)
        (Grammar.expression nesting)) :
    Follows (unary (nesting + 1))
      (Grammar.unary (nesting + 1)) := by
  rw [unary, Grammar.unary]
  apply (follows_accept _).bind
  intro found
  cases found with
  | none => exact follows_calls hExpression
  | some op => exact hUnary.bind fun _ => follows_pure _

/- There is no expression without its levels of nesting. -/
theorem follows_shallow_expression
    {nesting : Nat}
    (hShallow : nesting < 8) :
    Follows (expression nesting) (Grammar.expression nesting) := by
  have hStep : expression nesting = stop .tooDeep := by
    unfold expression
    split
    · omega
    · rfl
  have hReader : Grammar.expression nesting = Reader.tooDeep := by
    unfold Grammar.expression
    split
    · omega
    · rfl
  rw [hStep, hReader]
  exact follows_tooDeep

/- Expressions of any nesting, by induction on the nesting. -/
theorem follows_expressions (nesting : Nat) :
    Follows (expression nesting)
        (Grammar.expression nesting) ∧
      Follows (assignment nesting)
          (Grammar.assignment nesting) ∧
        Follows (unary nesting) (Grammar.unary nesting) := by
  induction nesting using Nat.strongRecOn with
  | ind nesting ih =>
      refine ⟨?_, ?_, ?_⟩
      · by_cases hLevels : 8 ≤ nesting
        · rcases Nat.exists_eq_add_of_le' hLevels with
            ⟨inner, rfl⟩
          rw [expression, Grammar.expression]
          exact (ih inner (by omega)).2.1
        · exact
            follows_shallow_expression (Nat.lt_of_not_le hLevels)
      · cases nesting with
        | zero =>
            rw [assignment, Grammar.assignment]
            exact follows_tooDeep
        | succ nesting =>
            have hInner := ih nesting (Nat.lt_succ_self nesting)
            exact follows_assignment_step hInner.2.2 hInner.2.1
      · cases nesting with
        | zero =>
            rw [unary, Grammar.unary]
            exact follows_tooDeep
        | succ nesting =>
            have hInner := ih nesting (Nat.lt_succ_self nesting)
            exact follows_unary_step hInner.2.2 hInner.1

end Lox.Text
