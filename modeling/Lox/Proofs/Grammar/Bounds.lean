import Mathlib.Data.List.TakeWhile
import Lox.Proofs.Grammar.Room
import Lox.Proofs.Grammar.Rounds

/-
  Reading by place never gets stuck.

  A declaration that is read with a token left to start at
  moves on, even if it is given up at an error. So rounds of
  declarations move on as well, and a list of tokens, whatever
  it is, is read by place as it is read by a cursor.

  Key definitions include:
    * `Reader.Consumes`
    * `Text.FollowsOn`
    * `Indexed.parse_eq`
    * `parse_in_bounds`
-/

------------------------------------------------------------
-- Parts Of Statements
------------------------------------------------------------

namespace Lox.Text

open Indexed

variable {text : Text}
variable {expression : Step Expr} {expression' : Reader Expr}
variable (hExpression : Follows expression expression')

include hExpression

theorem follows_expressionStatement :
    Follows (expressionStatement expression)
      (Grammar.expressionStatement expression') := by
  apply hExpression.bind
  intro value
  apply (follows_expect _ _).bind
  intro _
  exact follows_pure _

theorem follows_printRest :
    Follows (printRest expression)
      (Grammar.printRest expression') := by
  apply hExpression.bind
  intro value
  apply (follows_expect _ _).bind
  intro _
  exact follows_pure _

theorem follows_returnRest (keyword : Token) :
    Follows (returnRest expression keyword)
      (Grammar.returnRest expression' keyword) := by
  apply (follows_unlessNext (hExpression.map some) _ _).bind
  intro value
  apply (follows_expect _ _).bind
  intro _
  exact follows_pure _

theorem follows_variableRest :
    Follows (variableRest expression)
      (Grammar.variableRest expression') := by
  apply (follows_expect _ _).bind
  intro name
  apply (follows_optionalAfter hExpression _).bind
  intro initializer
  apply (follows_expect _ _).bind
  intro _
  exact follows_pure _

theorem follows_forInitializer :
    Follows (forInitializer expression)
      (Grammar.forInitializer expression') := by
  have hVariable := follows_variableRest hExpression
  have hStatement := follows_expressionStatement hExpression
  apply (follows_accepts .semicolon).bind
  intro absent
  refine Follows.ite (follows_pure none) ?_
  apply (follows_accepts .varKw).bind
  intro declares
  exact Follows.ite (hVariable.map some) (hStatement.map some)

variable {statement : Step Stmt} {statement' : Reader Stmt}
variable (hStatement : Follows statement statement')

include hStatement

theorem follows_ifRest :
    Follows (ifRest expression statement)
      (Grammar.ifRest expression' statement') := by
  apply (follows_expect _ _).bind
  intro _
  apply hExpression.bind
  intro condition
  apply (follows_expect _ _).bind
  intro _
  apply hStatement.bind
  intro thenBranch
  apply (follows_optionalAfter hStatement _).bind
  intro elseBranch
  cases elseBranch with
  | none => exact follows_pure _
  | some elseBranch => exact follows_pure _

theorem follows_whileRest :
    Follows (whileRest expression statement)
      (Grammar.whileRest expression' statement') := by
  apply (follows_expect _ _).bind
  intro _
  apply hExpression.bind
  intro condition
  apply (follows_expect _ _).bind
  intro _
  apply hStatement.bind
  intro body
  exact follows_pure _

theorem follows_forRest :
    Follows (forRest expression statement)
      (Grammar.forRest expression' statement') := by
  apply (follows_expect _ _).bind
  intro _
  apply (follows_forInitializer hExpression).bind
  intro initializer
  apply (follows_unlessNext hExpression _ _).bind
  intro condition
  apply (follows_expect _ _).bind
  intro _
  apply (follows_unlessNext (hExpression.map some) _ _).bind
  intro increment
  apply (follows_expect _ _).bind
  intro _
  apply hStatement.bind
  intro body
  exact follows_pure _

end Lox.Text

------------------------------------------------------------
-- Steps That Move On
------------------------------------------------------------

namespace Lox.Reader

variable {α β : Type} {x : Reader α} {f : α → Reader β}
variable {c d : Cursor}

/-
  With a token left to start at, the reader ends well only
  after it has moved on, whatever errors it has recorded.
-/
def Consumes (x : Reader α) : Prop :=
  ∀ {c d : Cursor} {a : α},
    x c = .ok a d → c.upcoming ≠ [] →
      d.upcoming.length < c.upcoming.length

theorem Consumes.bind
    (hFirst : x.Consumes)
    (hNext : ∀ a, (f a).Proceeds) :
    (x >>= f).Consumes := by
  intro c e b hRun hSome
  rcases bind_eq_ok_iff.mp hRun with ⟨a, d, hRunFirst, hRunNext⟩
  have hLess := hFirst hRunFirst hSome
  have hLength := ((hNext a).leads hRunNext).length_le
  omega

theorem Consumes.after
    (hFirst : x.Proceeds)
    (hNext : ∀ a, (f a).Consumes)
    (hAfter : ∀ a, (f a).Proceeds) :
    (x >>= f).Consumes := by
  intro c e b hRun hSome
  rcases bind_eq_ok_iff.mp hRun with ⟨a, d, hRunFirst, hRunNext⟩
  have hLength := (hFirst.leads hRunFirst).length_le
  have hLength' := ((hAfter a).leads hRunNext).length_le
  have hPositive := List.length_pos_iff.mpr hSome
  by_cases hEnd : d.upcoming = []
  · rw [hEnd, List.length_nil] at hLength'
    omega
  · have hLess := hNext a hRunNext hEnd
    omega

theorem consumes_acceptThen
    {kinds : Kind → Bool}
    {f : Option Token → Reader β}
    (hNone : (f none).Consumes)
    (hSome : ∀ t, (f (some t)).Proceeds) :
    (accept kinds >>= f).Consumes := by
  intro c e b hRun hOpen
  rcases bind_eq_ok_iff.mp hRun with
    ⟨found, d, hFirst, hRest⟩
  cases found with
  | none =>
      have hHere : d = c := by
        unfold accept at hFirst
        split at hFirst
        · cases hFirst
          rfl
        · split at hFirst
          · cases hFirst
          · cases hFirst
            rfl
      rw [hHere] at hRest
      exact hNone hRest hOpen
  | some t =>
      have hLess := length_accept hFirst
      have hLength := ((hSome t).leads hRest).length_le
      omega

theorem consumes_expect (kind : Kind) (fault : GrammarFault) :
    (expect kind fault).Consumes := by
  apply consumes_acceptThen
  · intro c d t hRun
    cases hRun
  · intro t
    exact proceeds_pure t

/- Moving on after an error moves over a token, if one is left. -/
theorem length_synchronize
    (hLeads : c.Leads d)
    (hSome : c.upcoming ≠ []) :
    d.synchronize.upcoming.length < c.upcoming.length := by
  have hLength := hLeads.length_le
  have hPositive := List.length_pos_iff.mpr hSome
  unfold Cursor.synchronize
  split
  · rename_i hEnd
    rw [hEnd]
    exact hPositive
  · rename_i t rest hUpcoming
    rw [hUpcoming, List.length_cons] at hLength
    rw [List.length_drop]
    omega

theorem Consumes.recovering
    (hConsumes : x.Consumes)
    (hProceeds : x.Proceeds) :
    (recovering x).Consumes := by
  intro c d found hRun hSome
  have hReader := hProceeds c
  unfold Reader.recovering at hRun
  cases hInner : x c with
  | ok a e =>
      rw [hInner] at hRun
      cases hRun
      exact hConsumes hInner hSome
  | error halt e =>
      rw [hInner] at hRun hReader
      cases halt with
      | tooDeep => cases hRun
      | failed =>
          cases hRun
          exact length_synchronize hReader.1 hSome

end Lox.Reader

------------------------------------------------------------
-- Blocks And Functions
------------------------------------------------------------

namespace Lox.Text

open Indexed

variable {α β : Type} {text : Text} {c d : Cursor} {s : State}

/- A step that follows a reader which moves on. -/
structure FollowsOn
    (x : Step α)
    (y : Reader α) :
    Prop extends Follows x y where
  consumes : y.Consumes

theorem FollowsOn.acceptThen
    {kinds : Kind → Bool}
    {f : Option Token → Step β}
    {g : Option Token → Reader β}
    (hNone : FollowsOn (f none) (g none))
    (hSome : ∀ t, Follows (f (some t)) (g (some t))) :
    FollowsOn (accept kinds >>= f)
      (Reader.accept kinds >>= g) where
  toFollows := by
    apply (follows_accept kinds).bind
    intro found
    cases found with
    | none => exact hNone.toFollows
    | some t => exact hSome t
  consumes :=
    Reader.consumes_acceptThen hNone.consumes
      fun t => (hSome t).proceeds

theorem FollowsOn.recovering
    {x : Step α}
    {y : Reader α}
    (hStep : FollowsOn x y) :
    FollowsOn (recovering x) (Reader.recovering y) where
  toFollows := hStep.toFollows.recovering
  consumes :=
    Reader.Consumes.recovering hStep.consumes hStep.proceeds

/- So a declaration never has to stop for not moving on. -/
theorem FollowsOn.progressing
    {x : Step α}
    {y : Reader α}
    (hStep : FollowsOn x y) :
    FollowsOn (progressing x) y where
  proceeds := hStep.proceeds
  consumes := hStep.consumes
  agrees := by
    intro text c s hStands
    unfold Indexed.progressing
    rw [bind_of_ok hStands.atEnd_eq,
      bind_of_ok (show place s = .ok s.place s from rfl)]
    rcases (hStep.agrees hStands).ends with
      ⟨a, t, d, hRun, hRun', hNext⟩ |
        ⟨halt, t, d, hRun, hRun', hNext⟩
    · have hMoved :
          (c.atEnd || decide (s.place < t.place)) = true := by
        by_cases hEnd : c.upcoming = []
        · simp [Cursor.atEnd, hEnd]
        · have hLess := hStep.consumes hRun' hEnd
          have hLength := hStands.length
          have hLength' := hNext.length
          have hPlace : s.place < t.place := by
            rw [hStands.place, hNext.place]
            omega
          simp [hPlace]
      rw [bind_of_ok hRun, hRun',
        bind_of_ok (show place t = .ok t.place t from rfl)]
      simp only [hMoved, if_true]
      exact ⟨rfl, hNext⟩
    · rw [bind_of_error hRun, hRun']
      exact ⟨rfl, hNext⟩

/- A declaration, unless the body ends. -/
def bodyTurn
    (declaration : Reader (Option Stmt))
    (body : List Stmt) :
    Reader (Turn (List Stmt) (List Stmt)) := do
  if (← Reader.nextIs .rightBrace) || (← Reader.atEnd) then
    return .done body.reverse
  else
    let found ← declaration
    return keep body found

theorem unrolls_declarationsFrom
    (declaration : Reader (Option Stmt)) :
    Unrolls (bodyTurn declaration)
      (Grammar.declarationsFrom declaration) := by
  intro c ticks body hTicks
  unfold bodyTurn
  rw [bind_assoc]
  cases ticks with
  | nil =>
      have hEnd : c.upcoming = [] := by simpa using hTicks
      have hNext : Reader.nextIs .rightBrace c = .ok false c := by
        simp [Reader.nextIs, hEnd]
      have hOver : Reader.atEnd c = .ok true c := by
        simp [Reader.atEnd, Cursor.atEnd, hEnd]
      rw [bind_of_ok hNext, bind_assoc, bind_of_ok hOver]
      rfl
  | cons tick ticks =>
      rw [Grammar.declarationsFrom]
      refine congrFun (bind_congr fun closes => ?_) c
      rw [bind_assoc]
      refine bind_congr fun ended => ?_
      cases closes || ended with
      | true => rfl
      | false =>
          simp only [Bool.false_eq_true, if_false, bind_assoc]
          refine bind_congr fun found => ?_
          cases found <;> rfl

/- Where the body goes on there is a token left to start at. -/
theorem moves_bodyTurn
    {declaration : Reader (Option Stmt)}
    (hConsumes : declaration.Consumes)
    (body : List Stmt) :
    Moves (bodyTurn declaration body) := by
  constructor
  intro c d next hRun
  unfold bodyTurn at hRun
  rcases bind_eq_ok_iff.mp hRun with ⟨closes, e, hNext, hRest⟩
  rcases bind_eq_ok_iff.mp hRest with ⟨ended, e', hOver, hTurn⟩
  have hHere : e' = c ∧ ended = c.atEnd := by
    unfold Reader.nextIs at hNext
    cases hOver
    split at hNext
    · cases hNext
      exact ⟨rfl, rfl⟩
    · cases hNext
      exact ⟨rfl, rfl⟩
  rcases hHere with ⟨rfl, rfl⟩
  cases hStop : closes || e'.atEnd with
  | true =>
      rw [hStop] at hTurn
      cases hTurn
  | false =>
      have hSome : e'.upcoming ≠ [] := by
        intro hEnd
        simp [Cursor.atEnd, hEnd] at hStop
      simp only [hStop, Bool.false_eq_true, if_false] at hTurn
      rcases bind_eq_ok_iff.mp hTurn with ⟨found, b, hFound, hKept⟩
      have hHere : b = d := by
        cases found <;> cases hKept <;> rfl
      rw [← hHere]
      exact hConsumes hFound hSome

section Bodies

variable {declaration : Step (Option Stmt)}
variable {declaration' : Reader (Option Stmt)}
variable
  (hDeclaration : FollowsOn declaration declaration')

include hDeclaration

theorem follows_blockRest :
    Follows (blockRest declaration)
      (Grammar.blockRest declaration') := by
  have hBody :
      Follows (rounds (bodyRound declaration) [])
        (Reader.upcoming >>= fun ticks =>
          Grammar.declarationsFrom declaration' ticks []) := by
    apply
      (follows_pure []).thenRounds (bodyTurn declaration')
        (Grammar.declarationsFrom declaration')
    · exact
        Grammar.proceeds_declarationsFrom hDeclaration.proceeds
    · intro body
      apply (follows_check .rightBrace).bind
      intro closes
      apply follows_atEnd.bind
      intro ended
      refine Follows.ite (follows_pure _) ?_
      apply hDeclaration.bind
      intro found
      exact follows_pure _
    · exact moves_bodyTurn hDeclaration.consumes
    · exact unrolls_declarationsFrom declaration'
  apply hBody.bind
  intro body
  apply (follows_expect _ _).bind
  intro _
  exact follows_pure body

theorem follows_functionRest :
    Follows (functionRest declaration)
      (Grammar.functionRest declaration') := by
  have hParams :=
    follows_items
      (follows_expect .identifier .expectParameterName)
      .tooManyParameters
  apply (follows_expect _ _).bind
  intro name
  apply (follows_expect _ _).bind
  intro _
  apply (follows_unlessNext hParams _ _).bind
  intro params
  apply (follows_expect _ _).bind
  intro _
  apply (follows_expect _ _).bind
  intro _
  apply (follows_blockRest hDeclaration).bind
  intro body
  exact follows_pure _

end Bodies

end Lox.Text

------------------------------------------------------------
-- Statements And Declarations
------------------------------------------------------------

namespace Lox.Text

open Indexed

variable {α : Type} {text : Text} {c d : Cursor} {s : State}

theorem followsOn_tooDeep :
    FollowsOn (stop .tooDeep : Step α) Reader.tooDeep where
  toFollows := follows_tooDeep
  consumes := by
    intro c d a hRun
    cases hRun

theorem followsOn_expressionStatement
    {expression : Step Expr}
    {expression' : Reader Expr}
    (hExpression : Follows expression expression') :
    FollowsOn (expressionStatement expression)
      (Grammar.expressionStatement expression') where
  toFollows := follows_expressionStatement hExpression
  consumes := by
    refine Reader.Consumes.after hExpression.proceeds ?_ ?_
    · intro value
      exact
        Reader.Consumes.bind (Reader.consumes_expect _ _)
          fun _ => Reader.proceeds_pure _
    · intro value
      exact
        (follows_expect _ _).proceeds.bind
          fun _ => Reader.proceeds_pure _

theorem followsOn_statement_step
    {nesting : Nat}
    (hStatement :
      FollowsOn (statement nesting)
        (Grammar.statement nesting))
    (hDeclaration :
      FollowsOn (declaration nesting)
        (Grammar.declaration nesting)) :
    FollowsOn (statement (nesting + 1))
      (Grammar.statement (nesting + 1)) := by
  have hExpression := (follows_expressions nesting).1
  rw [statement, Grammar.statement]
  apply
    (followsOn_expressionStatement hExpression).acceptThen
  intro t
  dsimp only
  generalize t.kind = kind
  split
  · exact follows_forRest hExpression hStatement.toFollows
  · exact follows_ifRest hExpression hStatement.toFollows
  · exact follows_printRest hExpression
  · exact follows_returnRest hExpression t
  · exact follows_whileRest hExpression hStatement.toFollows
  · rename_i hFor hIf hPrint hReturn hWhile
    have hBlock := follows_blockRest hDeclaration
    simpa only [hFor, hIf, hPrint, hReturn, hWhile]
      using hBlock.map Stmt.block

theorem followsOn_declaration_step
    {nesting : Nat}
    (hStatement :
      FollowsOn (statement nesting)
        (Grammar.statement nesting))
    (hDeclaration :
      FollowsOn (declaration nesting)
        (Grammar.declaration nesting)) :
    FollowsOn (declaration (nesting + 1))
      (Grammar.declaration (nesting + 1)) := by
  have hExpression := (follows_expressions nesting).1
  rw [declaration, Grammar.declaration]
  apply FollowsOn.progressing
  apply FollowsOn.recovering
  apply hStatement.acceptThen
  intro t
  exact
    (follows_functionRest hDeclaration).ite
      (follows_variableRest hExpression)

/- Statements and declarations, by induction on the nesting. -/
theorem followsOn_statements
    (nesting : Nat) :
    FollowsOn (statement nesting)
        (Grammar.statement nesting) ∧
      FollowsOn (declaration nesting)
        (Grammar.declaration nesting) := by
  induction nesting with
  | zero =>
      rw [statement, Grammar.statement, declaration,
        Grammar.declaration]
      exact ⟨followsOn_tooDeep, followsOn_tooDeep⟩
  | succ nesting ih =>
      exact
        ⟨followsOn_statement_step ih.1 ih.2,
          followsOn_declaration_step ih.1 ih.2⟩

end Lox.Text

------------------------------------------------------------
-- Programs
------------------------------------------------------------

namespace Lox.Text

open Indexed

variable {text : Text} {c d : Cursor} {s : State}

/- Declarations recover from every error they come to. -/
theorem declaration_recovers (nesting : Nat) :
    Grammar.declaration nesting c ≠ .error .failed d := by
  intro hRun
  cases nesting with
  | zero => cases hRun
  | succ nesting =>
      rw [Grammar.declaration] at hRun
      unfold Reader.recovering at hRun
      split at hRun <;> cases hRun

/-
  A declaration of a program, which may be dropped for being
  nested too deeply, and what a cursor does there.
-/
theorem Stands.orDropped_eq
    (hStands : text.Stands c s)
    (hOpen : c.upcoming ≠ [])
    (nesting : Nat) :
    ∃ found d t, orDropped (declaration nesting) s = .ok found t ∧
      text.Stands d t ∧ d.upcoming.length < c.upcoming.length ∧
        ∀ tick ticks program,
          Grammar.programFrom (Grammar.declaration nesting)
              (tick :: ticks) program c =
            Grammar.programFrom (Grammar.declaration nesting)
              ticks (found.toList ++ program) d := by
  have hAtEnd : c.atEnd = false := by
    simpa [Cursor.atEnd] using hOpen
  have hFollows := (followsOn_statements nesting).2
  unfold orDropped
  rcases (hFollows.agrees hStands).ends with
    ⟨found, t, d, hRun, hRun', hNext⟩ |
      ⟨halt, t, d, hRun, hRun', hNext⟩
  · have hLess := hFollows.consumes hRun' hOpen
    refine ⟨found, d, t, by rw [hRun], hNext, hLess, ?_⟩
    intro tick ticks program
    cases found <;> simp [Grammar.programFrom, hAtEnd, hRun']
  · cases halt with
    | failed => exact absurd hRun' (declaration_recovers nesting)
    | tooDeep =>
        have hLeads := hFollows.proceeds c
        rw [hRun'] at hLeads
        rcases hNext.note_eq .nestingTooDeep with
          ⟨t', hNote, hNoted⟩
        rcases hNoted.synchronize_eq with ⟨u, hSkip, hAfter⟩
        refine ⟨none, _, u, ?_, hAfter, ?_, ?_⟩
        · simp only [hRun]
          rw [bind_of_ok hNote, bind_of_ok hSkip]
          rfl
        · apply Reader.length_synchronize _ hOpen
          exact hLeads.trans (Cursor.Leads.record d _ _ _)
        · intro tick ticks program
          simp [Grammar.programFrom, hAtEnd, hRun']

theorem Stands.program_atEnd
    (hStands : text.Stands c s)
    (hEnd : c.upcoming = [])
    (nesting : Nat)
    (ticks : List Token)
    (program : List Stmt) :
    ∃ body t, rounds (programRound nesting) program s = .ok body t ∧
      Grammar.programFrom (Grammar.declaration nesting) ticks
        program c = ⟨body, t.errors.toList⟩ := by
  have hAtEnd : c.atEnd = true := by
    simp [Cursor.atEnd, hEnd]
  have hRound :
      programRound nesting program s =
        .ok (.done program.reverse) s := by
    unfold programRound
    rw [bind_of_ok hStands.atEnd_eq, hAtEnd]
    rfl
  refine ⟨program.reverse, s, ?_, ?_⟩
  · rw [rounds, hRound]
  · rw [hStands.errors]
    exact Grammar.programFrom_atEnd _ ticks program hEnd

/-
  A program is read by place as it is read by a cursor. The
  induction is on the ticks, which outlast the tokens.
-/
theorem Stands.program_eq
    (hStands : text.Stands c s)
    (nesting : Nat)
    {ticks : List Token}
    (hTicks : c.upcoming.length ≤ ticks.length)
    (program : List Stmt) :
    ∃ body t, rounds (programRound nesting) program s = .ok body t ∧
      Grammar.programFrom (Grammar.declaration nesting) ticks
        program c = ⟨body, t.errors.toList⟩ := by
  induction ticks generalizing c s program with
  | nil =>
      have hEnd : c.upcoming = [] := by simpa using hTicks
      exact hStands.program_atEnd hEnd nesting [] program
  | cons tick ticks ih =>
      by_cases hEnd : c.upcoming = []
      · exact
          hStands.program_atEnd hEnd nesting (tick :: ticks)
            program
      · rcases hStands.orDropped_eq hEnd nesting with
          ⟨found, d, t, hRun, hNext, hLess, hProgram⟩
        have hAtEnd : c.atEnd = false := by
          simpa [Cursor.atEnd] using hEnd
        have hRound :
            programRound nesting program s =
              .ok (.again (found.toList ++ program)) t := by
          unfold programRound
          rw [bind_of_ok hStands.atEnd_eq, hAtEnd]
          simp only [Bool.false_eq_true, if_false]
          rw [bind_of_ok hRun]
          cases found <;> rfl
        have hLeft : t.left < s.left := by
          rw [hNext.left, hStands.left]
          omega
        rw [List.length_cons] at hTicks
        rw [rounds, hRound, hProgram]
        simp only [if_pos hLeft]
        exact ih hNext (by omega) (found.toList ++ program)

end Lox.Text

------------------------------------------------------------
-- Lists Of Tokens
------------------------------------------------------------

namespace Lox.Indexed

/- The token that a list of tokens is read up to ends it. -/
theorem kind_last (tokens : List Token) :
    (Cursor.ofTokens tokens).last.kind = .eof := by
  unfold Cursor.ofTokens
  cases hFind : tokens.find? (·.kind = .eof) with
  | none => rfl
  | some last => simpa using List.find?_some hFind

/-
  A closed list is what is read, the end token, and whatever
  comes after the first end token.
-/
theorem closed_eq (tokens : List Token) :
    ∃ after,
      closed tokens =
        (Cursor.ofTokens tokens).upcoming ++
          (Cursor.ofTokens tokens).last :: after := by
  unfold Cursor.ofTokens closed
  cases hFind : tokens.find? (·.kind = .eof) with
  | none =>
      have hNone := List.find?_eq_none.mp hFind
      have hAll : tokens.takeWhile (·.kind ≠ .eof) = tokens := by
        apply List.takeWhile_eq_self_iff.mpr
        intro t hMem
        simpa using hNone t hMem
      have hOpen :
          ¬ tokens.getLast?.any (·.kind = .eof) = true := by
        cases hLast : tokens.getLast? with
        | none => simp
        | some t =>
            exact hNone t (List.mem_of_getLast? hLast)
      rw [hAll, if_neg hOpen]
      exact ⟨[], rfl⟩
  | some last =>
      rcases List.find?_eq_some_iff_append.mp hFind with
        ⟨hEof, before, after, rfl, hProper⟩
      have hBefore :
          (before ++ last :: after).takeWhile (·.kind ≠ .eof) =
            before := by
        rw [List.takeWhile_append_of_pos, List.takeWhile_cons]
        · simp [of_decide_eq_true hEof]
        · intro t hMem
          simpa using hProper t hMem
      rw [hBefore]
      split
      · exact ⟨after, rfl⟩
      · exact ⟨_, List.append_assoc _ _ _⟩

/-
  Reading by place gives what reading by a cursor gives, for
  every list of tokens; so it never gets stuck.
-/
theorem parse_eq
    (limits : Limits)
    (tokens : List Token) :
    parse limits tokens = .ok (Lox.parse limits tokens) := by
  rcases closed_eq tokens with ⟨after, hClosed⟩
  have hLast := kind_last tokens
  unfold parse Lox.parse
  by_cases hEmpty : (Cursor.ofTokens tokens).upcoming = []
  · -- The first token is an end token, and nothing is read.
    rw [Grammar.programFrom_atEnd _ _ _ hEmpty]
    rw [hEmpty, List.nil_append] at hClosed
    have hRound :
        programRound limits.nesting []
            { tokens := closed tokens } =
          .ok (.done []) { tokens := closed tokens } := by
      simp [programRound, atEnd, peek, hClosed, hLast, bind,
        EStateM.bind, pure, EStateM.pure]
    rw [rounds, hRound]
    rfl
  · let text : Text :=
      { before := (Cursor.ofTokens tokens).upcoming
        last := (Cursor.ofTokens tokens).last
        after := after
        starts := hEmpty
        proper := fun t hMem => by
          simpa using List.mem_takeWhile_imp hMem
        ends := hLast }
    have hStands :
        text.Stands (Cursor.ofTokens tokens)
          { tokens := closed tokens } :=
      ⟨hClosed, rfl, rfl, rfl, rfl, Nat.zero_le _⟩
    rcases
      hStands.program_eq limits.nesting (Nat.le_refl _) [] with
      ⟨body, t, hRun, hProgram⟩
    simp only [hRun]
    rw [hProgram]

end Lox.Indexed

------------------------------------------------------------
-- Parsing In Bounds
------------------------------------------------------------

namespace Lox

open Grammar

variable {c d : Cursor}

/- Tokens that are moved over are counted in the place. -/
theorem Cursor.Leads.place_lt
    (hLeads : c.Leads d)
    (hLess : d.upcoming.length < c.upcoming.length) :
    c.place < d.place := by
  rcases hLeads with ⟨n, hLength, more, rfl⟩
  simp only [Cursor.skip, List.length_drop] at hLess
  simp only [Cursor.place_skip]
  omega

theorem declaration_moves
    {nesting : Nat}
    {found : Option Stmt}
    (hOpen : c.upcoming ≠ [])
    (hRun : declaration nesting c = .ok found d) :
    c.Leads d ∧ c.place < d.place := by
  have hFollows := (Text.followsOn_statements nesting).2
  have hLeads := hFollows.proceeds.leads hRun
  exact ⟨hLeads, hLeads.place_lt (hFollows.consumes hRun hOpen)⟩

/- With enough nesting a declaration is read or dropped. -/
theorem declaration_ends
    {nesting : Nat}
    (hRoom : 10 * c.upcoming.length + 12 ≤ nesting) :
    ∃ found d, declaration nesting c = .ok found d := by
  have hEnds :=
    (settles_statements nesting c.upcoming.length).2 hRoom c
      (Nat.le_refl _)
  cases hRun : declaration nesting c with
  | ok found d => exact ⟨found, d, rfl⟩
  | error halt d =>
      rw [hRun] at hEnds
      cases halt with
      | failed => exact absurd hRun (Text.declaration_recovers _)
      | tooDeep => exact hEnds.elim

/-
  Whatever the tokens are, reading them by place never gets
  stuck: it always ends, looks only at places of the list,
  never moves past the first end token, and has fewer tokens
  left after each round of a loop. And a declaration that does
  not start at the end, however it is read, moves on; it is
  read where there is enough nesting for the tokens left.
-/
theorem parse_in_bounds :
    (∀ (limits : Limits) (tokens : List Token),
      Indexed.parse limits tokens = .ok (parse limits tokens)) ∧
    (∀ (nesting : Nat) (c d : Cursor) (found : Option Stmt),
      c.upcoming ≠ [] →
        declaration nesting c = .ok found d →
          c.Leads d ∧ c.place < d.place) ∧
    (∀ (nesting : Nat) (c : Cursor),
      c.upcoming ≠ [] →
        10 * c.upcoming.length + 12 ≤ nesting →
          ∃ found d, declaration nesting c = .ok found d ∧
            c.Leads d ∧ c.place < d.place) := by
  refine ⟨Indexed.parse_eq, ?_, ?_⟩
  · intro nesting c d found hOpen hRun
    exact declaration_moves hOpen hRun
  · intro nesting c hOpen hRoom
    rcases declaration_ends hRoom with ⟨found, d, hRun⟩
    exact ⟨found, d, hRun, declaration_moves hOpen hRun⟩

/- The tokens of `print`, with an end token before `;`. -/
def cutShort : List Token :=
  [ ⟨.printKw, "print", .nil, 1, 0⟩, ⟨.eof, "", .nil, 1, 5⟩,
    ⟨.semicolon, ";", .nil, 1, 6⟩ ]

theorem parse_in_bounds_cutShort :
    Indexed.parse .standard cutShort =
      .ok
        ⟨[], [⟨.expectExpression, ⟨.eof, "", .nil, 1, 5⟩, 1⟩]⟩ ∧
    ∃ found d,
      declaration 22 (Cursor.ofTokens cutShort) =
        .ok found d ∧ 0 < d.place := by
  refine ⟨parse_in_bounds.1 .standard cutShort, ?_⟩
  have hOpen : (Cursor.ofTokens cutShort).upcoming ≠ [] := by
    simp [cutShort, Cursor.ofTokens]
  rcases
    parse_in_bounds.2.2 22 (Cursor.ofTokens cutShort) hOpen
      (by decide) with
    ⟨found, d, hRun, _, hPlace⟩
  exact ⟨found, d, hRun, hPlace⟩

end Lox
