import Lox.Proofs.Grammar.Past

/-
  Recovery from the errors of a simple statement.

  A stretch of tokens with a semicolon only at its end, and no
  word inside that begins a statement, is read up to its
  semicolon or not at all: an expression does not pass the
  semicolon, and wherever reading stops in the stretch, the
  next statement is looked for after it. Errors blame tokens
  of the stretch, at most one of them stops the reading, and
  what follows is read as a program of its own.

  Key definitions include:
    * `Stretch`
    * `Stretch.Inside`
    * `Stretch.Passed`
    * `Stretch.Recorded`
    * `Stretch.Reads`
    * `Grammar.Loose`
    * `parse_stretch`
-/

------------------------------------------------------------
-- Stretches
------------------------------------------------------------

namespace Lox

/-
  A stretch of tokens and the semicolon at its end, the tokens
  that follow, and the end token.
-/
structure Stretch where
  inner : List Token
  semicolon : Token
  rest : List Token
  last : Token
  closed : semicolon.kind = .semicolon

namespace Stretch

variable (s : Stretch)

/- The tokens of the stretch, with its semicolon. -/
def tokens : List Token :=
  s.inner ++ [s.semicolon]

/- The cursor has not passed the semicolon. -/
structure Inside (c : Cursor) : Prop where
  place_le : c.place ≤ s.inner.length
  upcoming_eq :
    c.upcoming = s.inner.drop c.place ++ s.semicolon :: s.rest
  last_eq : c.last = s.last

/- The cursor stands right after the semicolon. -/
structure Passed (c : Cursor) : Prop where
  place_eq : c.place = s.inner.length + 1
  upcoming_eq : c.upcoming = s.rest
  last_eq : c.last = s.last

/-
  All errors blame tokens of the stretch, and a number of them
  are such that reading stops.
-/
structure Recorded (fatal : Nat) (c : Cursor) : Prop where
  blamed : ∀ e ∈ c.errors.toList, s.tokens[e.place]? = some e.token
  count : c.errors.toList.countP (·.fault.isFatal) = fatal

end Stretch

end Lox

------------------------------------------------------------
-- Cursors In A Stretch
------------------------------------------------------------

namespace Lox.Stretch

variable {s : Stretch} {c : Cursor} {t : Token} {fatal : Nat}

theorem Inside.getElem?_place
    (hInside : s.Inside c)
    {tokens : List Token}
    (hUpcoming : c.upcoming = t :: tokens) :
    s.tokens[c.place]? = some t := by
  have hDrop :
      s.tokens.drop c.place =
        s.inner.drop c.place ++ [s.semicolon] :=
    List.drop_append_of_le_length hInside.place_le
  have hHead :
      (s.tokens.drop c.place).head? = c.upcoming.head? := by
    rw [hDrop, hInside.upcoming_eq]
    cases s.inner.drop c.place <;> rfl
  rw [← List.head?_drop, hHead, hUpcoming]
  rfl

theorem Inside.upcoming_ne_nil (hInside : s.Inside c) :
    c.upcoming ≠ [] := by
  rw [hInside.upcoming_eq]
  exact List.append_ne_nil_of_right_ne_nil _ (List.cons_ne_nil _ _)

/- The token at the cursor is one of the stretch. -/
theorem Inside.getElem?_current (hInside : s.Inside c) :
    s.tokens[c.place]? = some c.current := by
  rcases List.exists_cons_of_ne_nil hInside.upcoming_ne_nil with
    ⟨t, tokens, hUpcoming⟩
  rw [hInside.getElem?_place hUpcoming, Cursor.current, hUpcoming]
  rfl

/- Where the cursor stands: at a token within or at the end. -/
theorem Inside.cases
    (hInside : s.Inside c) :
    (∃ t tokens,
      s.inner.drop c.place = t :: tokens ∧
        c.upcoming = t :: (tokens ++ s.semicolon :: s.rest)) ∨
    (c.place = s.inner.length ∧
      c.upcoming = s.semicolon :: s.rest) := by
  have hUpcoming := hInside.upcoming_eq
  cases hDrop : s.inner.drop c.place with
  | nil =>
      rw [hDrop] at hUpcoming
      have hLength : s.inner.length ≤ c.place := by
        simpa using hDrop
      have hPlace := hInside.place_le
      exact .inr ⟨by omega, hUpcoming⟩
  | cons t tokens =>
      rw [hDrop] at hUpcoming
      exact .inl ⟨t, tokens, rfl, hUpcoming⟩

theorem Inside.advance
    (hInside : s.Inside c)
    {tokens : List Token}
    (hUpcoming : c.upcoming = t :: tokens)
    (hKind : t.kind ≠ .semicolon) :
    s.Inside c.advance := by
  rcases hInside.cases with ⟨t', tokens', hDrop, hHere⟩ | ⟨_, hHere⟩
  · have hLess : c.place < s.inner.length := by
      have hLength := congrArg List.length hDrop
      simp at hLength
      omega
    have hTail : s.inner.drop (c.place + 1) = tokens' := by
      rw [← List.tail_drop, hDrop]
      rfl
    simp only [Cursor.advance, hHere]
    exact ⟨hLess, by simp only [hTail], hInside.last_eq⟩
  · rw [hUpcoming] at hHere
    injection hHere with hToken
    exact absurd (hToken ▸ s.closed) hKind

theorem Inside.passes
    (hInside : s.Inside c)
    {tokens : List Token}
    (hUpcoming : c.upcoming = t :: tokens)
    (hKind : t.kind = .semicolon)
    (hInner : ∀ t ∈ s.inner, t.kind ≠ .semicolon) :
    s.Passed c.advance := by
  rcases hInside.cases with
    ⟨t', tokens', hDrop, hHere⟩ | ⟨hPlace, hHere⟩
  · rw [hUpcoming] at hHere
    injection hHere with hToken
    have hMem : t' ∈ s.inner :=
      List.mem_of_mem_drop (hDrop ▸ List.mem_cons_self)
    exact absurd (hToken ▸ hKind) (hInner t' hMem)
  · simp only [Cursor.advance, hHere]
    exact ⟨by rw [← hPlace], rfl, hInside.last_eq⟩

theorem Inside.record
    (hInside : s.Inside c)
    (fault : GrammarFault)
    (token : Token)
    (place : Nat) :
    s.Inside (c.record fault token place) :=
  ⟨hInside.place_le, hInside.upcoming_eq, hInside.last_eq⟩

theorem Recorded.record
    (hRecorded : s.Recorded fatal c)
    (fault : GrammarFault)
    {place : Nat}
    (hToken : s.tokens[place]? = some t) :
    s.Recorded (fatal + fault.isFatal.toNat)
      (c.record fault t place) := by
  have hErrors := c.errors_record fault t place
  constructor
  · intro e hMem
    rw [hErrors, List.mem_append, List.mem_singleton] at hMem
    rcases hMem with hMem | rfl
    · exact hRecorded.blamed e hMem
    · exact hToken
  · rw [hErrors, List.countP_append, hRecorded.count]
    cases hFatal : fault.isFatal <;>
      simp [hFatal]

/- An error at the cursor blames a token of the stretch. -/
theorem Recorded.recordHere
    (hRecorded : s.Recorded fatal c)
    (hInside : s.Inside c)
    (fault : GrammarFault) :
    s.Recorded (fatal + fault.isFatal.toNat)
      (c.recordHere fault) :=
  hRecorded.record fault hInside.getElem?_current

end Lox.Stretch

------------------------------------------------------------
-- Readers In A Stretch
------------------------------------------------------------

namespace Lox.Stretch

variable {α β : Type}

/-
  What a reader comes to in the stretch: where it ends well, a
  given condition holds; otherwise it stops in the stretch, at
  one more error or for lack of nesting.
-/
def Outcome
    (s : Stretch)
    (post : Cursor → Prop)
    (fatal : Nat) :
    EStateM.Result Halt Cursor α → Prop
  | .ok _ d => post d ∧ s.Recorded fatal d
  | .error .failed d => s.Inside d ∧ s.Recorded (fatal + 1) d
  | .error .tooDeep d => s.Inside d ∧ s.Recorded fatal d

/- The reader comes to such an outcome all over the stretch. -/
def Reads
    (s : Stretch)
    (post : Cursor → Prop)
    (reader : Reader α) :
    Prop :=
  ∀ (fatal : Nat) (c : Cursor),
    s.Inside c → s.Recorded fatal c →
      s.Outcome post fatal (reader c)

variable {s : Stretch} {post : Cursor → Prop}
variable {c : Cursor} {fatal : Nat}

theorem Outcome.bind
    {step : Reader α}
    {next : α → Reader β}
    (hStep : s.Outcome s.Inside fatal (step c))
    (hNext :
      ∀ {a d}, step c = .ok a d → s.Inside d →
        s.Recorded fatal d →
          s.Outcome post fatal (next a d)) :
    s.Outcome post fatal ((step >>= next) c) := by
  cases hRun : step c with
  | ok a d =>
      rw [hRun] at hStep
      rw [bind_of_ok hRun]
      exact hNext hRun hStep.1 hStep.2
  | error halt d =>
      rw [hRun] at hStep
      rw [bind_of_error hRun]
      cases halt <;> exact hStep

theorem Reads.bind
    {step : Reader α}
    {next : α → Reader β}
    (hStep : s.Reads s.Inside step)
    (hNext : ∀ a, s.Reads post (next a)) :
    s.Reads post (step >>= next) := by
  intro fatal c hInside hRecorded
  apply (hStep fatal c hInside hRecorded).bind
  intro a d _
  exact hNext a fatal d

theorem reads_fail
    {fault : GrammarFault}
    (hFatal : fault.isFatal = true) :
    s.Reads post (Reader.fail (α := α) fault) := by
  intro fatal c hInside hRecorded
  have hMore := hRecorded.recordHere hInside fault
  rw [hFatal] at hMore
  exact ⟨hInside.record _ _ _, hMore⟩

/- Moving over a token that is not the semicolon. -/
theorem reads_accept
    {kinds : Kind → Bool}
    (hKinds : kinds .semicolon = false) :
    s.Reads s.Inside (Reader.accept kinds) := by
  intro fatal c hInside hRecorded
  unfold Reader.accept
  rcases List.exists_cons_of_ne_nil hInside.upcoming_ne_nil with
    ⟨t, tokens, hUpcoming⟩
  simp only [hUpcoming]
  split
  · rename_i hFound
    have hOther : t.kind ≠ .semicolon := by
      intro hKind
      rw [hKind, hKinds] at hFound
      contradiction
    have hSame : c.advance.errors = c.errors := by
      simp [Cursor.advance, hUpcoming]
    refine ⟨hInside.advance hUpcoming hOther, ?_⟩
    exact ⟨hSame ▸ hRecorded.blamed, hSame ▸ hRecorded.count⟩
  · exact ⟨hInside, hRecorded⟩

end Lox.Stretch

------------------------------------------------------------
-- Expressions In A Stretch
------------------------------------------------------------

namespace Lox.Stretch

open Reader

variable {s : Stretch}

/-
  The equals sign that an invalid target is blamed on is a
  token of the stretch.
-/
theorem reads_valueFor
    {value : Reader Expr}
    (hValue : s.Reads s.Inside value)
    (target : Expr) :
    s.Reads s.Inside (Grammar.valueFor value target) := by
  intro fatal c hInside hRecorded
  have hSign :
      s.Reads s.Inside (Reader.accept (· = .equal)) :=
    reads_accept rfl
  show s.Outcome _ fatal ((accept (· = .equal) >>= _) c)
  apply (hSign fatal c hInside hRecorded).bind
  intro found d hRun hInsideD hRecordedD
  cases found with
  | none => exact ⟨hInsideD, hRecordedD⟩
  | some equals =>
      have hEquals : s.tokens[c.place]? = some equals := by
        rw [← current_of_accept hRun]
        exact hInside.getElem?_current
      apply (hValue fatal d hInsideD hRecordedD).bind
      intro result e _ hInsideE hRecordedE
      have hNoted :
          s.Outcome s.Inside fatal
            ((noteAt .invalidTarget equals c.place >>=
              fun _ => (pure target : Reader Expr)) e) :=
        ⟨hInsideE.record _ _ _,
          hRecordedE.record .invalidTarget hEquals⟩
      cases target with
      | «variable» name hops => exact ⟨hInsideE, hRecordedE⟩
      | _ => exact hNoted

/- An expression never passes a semicolon. -/
theorem composes_reads :
    ComposesExpressions fun _ reader =>
      s.Reads s.Inside reader where
  pure _ := fun _ _ hInside hRecorded => ⟨hInside, hRecorded⟩
  fail := reads_fail
  tooDeep := fun _ _ hInside hRecorded => ⟨hInside, hRecorded⟩
  note {fault} hKept := by
    intro fatal c hInside hRecorded
    have hMore := hRecorded.recordHere hInside fault
    rw [hKept] at hMore
    exact ⟨hInside.record _ _ _, hMore⟩
  upcoming := fun _ _ hInside hRecorded => ⟨hInside, hRecorded⟩
  nextIs kind := by
    intro fatal c hInside hRecorded
    unfold nextIs
    split <;> exact ⟨hInside, hRecorded⟩
  accept := reads_accept
  bind := Reads.bind
  valueFor := reads_valueFor

theorem reads_expression (nesting : Nat) :
    s.Reads s.Inside (Grammar.expression nesting) :=
  composes_reads.expressions nesting |>.1

end Lox.Stretch

------------------------------------------------------------
-- Simple Statements In A Stretch
------------------------------------------------------------

namespace Lox.Stretch

open Reader Grammar

variable {s : Stretch}
variable (hInner : ∀ t ∈ s.inner, t.kind ≠ .semicolon)

include hInner

/- The semicolon of a statement is that of the stretch. -/
theorem reads_expect_semicolon
    {fault : GrammarFault}
    (hFatal : fault.isFatal = true) :
    s.Reads s.Passed (expect .semicolon fault) := by
  intro fatal c hInside hRecorded
  rcases List.exists_cons_of_ne_nil hInside.upcoming_ne_nil with
    ⟨t, tokens, hUpcoming⟩
  by_cases hKind : t.kind = .semicolon
  · have hRun :
        accept (· = .semicolon) c = .ok (some t) c.advance := by
      simp [accept, hUpcoming, hKind]
    have hSame : c.advance.errors = c.errors := by
      simp [Cursor.advance, hUpcoming]
    unfold expect
    rw [bind_of_ok hRun]
    refine ⟨hInside.passes hUpcoming hKind hInner, ?_⟩
    exact ⟨hSame ▸ hRecorded.blamed, hSame ▸ hRecorded.count⟩
  · have hRun : accept (· = .semicolon) c = .ok none c := by
      simp [accept, hUpcoming, hKind]
    unfold expect
    rw [bind_of_ok hRun]
    exact reads_fail hFatal fatal c hInside hRecorded

theorem reads_closing
    {α : Type}
    {fault : GrammarFault}
    (hFatal : fault.isFatal = true)
    (a : α) :
    s.Reads s.Passed (do
      let _ ← expect .semicolon fault
      return a) := by
  intro fatal c hInside hRecorded
  have hOutcome :=
    reads_expect_semicolon hInner hFatal fatal c hInside hRecorded
  show s.Outcome _ fatal ((expect .semicolon fault >>= _) c)
  cases hRun : expect .semicolon fault c with
  | ok t d =>
      rw [hRun] at hOutcome
      rw [bind_of_ok hRun]
      exact hOutcome
  | error halt d =>
      rw [hRun] at hOutcome
      rw [bind_of_error hRun]
      cases halt <;> exact hOutcome

section Rests

variable {expression : Reader Expr}
variable (hExpression : s.Reads s.Inside expression)

include hExpression

theorem reads_expressionStatement :
    s.Reads s.Passed (expressionStatement expression) := by
  apply hExpression.bind
  intro value
  exact reads_closing hInner rfl _

theorem reads_printRest :
    s.Reads s.Passed (printRest expression) := by
  apply hExpression.bind
  intro value
  exact reads_closing hInner rfl _

theorem reads_returnRest (keyword : Token) :
    s.Reads s.Passed (returnRest expression keyword) := by
  have hValue := composes_reads.map hExpression some
  apply (composes_reads.unlessNext hValue .semicolon none).bind
  intro value
  exact reads_closing hInner rfl _

theorem reads_variableRest :
    s.Reads s.Passed (variableRest expression) := by
  apply (composes_reads.expect (by decide) rfl).bind
  intro name
  apply (composes_reads.optionalAfter (by decide) hExpression).bind
  intro initializer
  exact reads_closing hInner rfl _

end Rests

end Lox.Stretch

------------------------------------------------------------
-- Loose Tokens
------------------------------------------------------------

namespace Lox.Grammar

/- The words that begin a statement without any inside. -/
def opensSimple : Kind → Bool
  | .classKw | .printKw | .returnKw | .varKw => true
  | _ => false

/- What comes first in tokens with no statement inside. -/
def opensLoose (kind : Kind) : Bool :=
  if kind.startsStatement then opensSimple kind
  else kind ≠ .leftBrace

/-
  Tokens that may be meant as a simple statement without its
  semicolon. Words that begin a statement are not among them,
  but for the first one, which may begin a simple statement.
-/
structure Loose (inner : List Token) : Prop where
  unclosed : ∀ t ∈ inner, t.kind ≠ .semicolon ∧ t.kind ≠ .eof
  later : ∀ t ∈ inner.tail, t.kind.startsStatement = false
  first : ∀ t ∈ inner.head?, opensLoose t.kind = true

end Lox.Grammar

namespace Lox.Cursor

/-
  Where a statement is looked for: after the next semicolon,
  if no word before it begins one. By induction on the tokens
  before it.
-/
theorem skipCount_semicolon
    {semicolon : Token}
    (hSemicolon : semicolon.kind = .semicolon)
    {previous : Token}
    (hPrevious : previous.kind ≠ .semicolon)
    {tokens : List Token}
    (hUnclosed : ∀ t ∈ tokens, t.kind ≠ .semicolon)
    (hLater : ∀ t ∈ tokens, t.kind.startsStatement = false)
    (rest : List Token) :
    skipCount previous (tokens ++ semicolon :: rest) =
      tokens.length + 1 := by
  have hStarts : Kind.semicolon.startsStatement = false := rfl
  induction tokens generalizing previous with
  | nil =>
      cases rest <;>
        simp [skipCount, hPrevious, hStarts, hSemicolon]
  | cons t tokens ih =>
      have hNext :=
        ih (hUnclosed t List.mem_cons_self)
          (fun u hMem => hUnclosed u (List.mem_cons_of_mem t hMem))
          (fun u hMem => hLater u (List.mem_cons_of_mem t hMem))
      have hWord := hLater t List.mem_cons_self
      simp [skipCount, hPrevious, hWord, hNext]

end Lox.Cursor

namespace Lox.Stretch

variable {s : Stretch} {c : Cursor} {fatal : Nat}

/-
  From everywhere in a stretch of loose tokens, the next
  statement is looked for right after the semicolon.
-/
theorem Inside.synchronize
    (hInside : s.Inside c)
    (hLoose : Grammar.Loose s.inner) :
    s.Passed c.synchronize := by
  rcases hInside.cases with
    ⟨t, tokens, hDrop, hUpcoming⟩ | ⟨hPlace, hUpcoming⟩
  · have hMem : t ∈ s.inner :=
      List.mem_of_mem_drop (hDrop ▸ List.mem_cons_self)
    have hTokens : s.inner.drop (c.place + 1) = tokens := by
      rw [← List.tail_drop, hDrop]
      rfl
    have hSkip :
        Cursor.skipCount t (tokens ++ s.semicolon :: s.rest) =
          tokens.length + 1 := by
      apply Cursor.skipCount_semicolon s.closed
      · exact (hLoose.unclosed t hMem).1
      · intro u hMemU
        rw [← hTokens] at hMemU
        exact (hLoose.unclosed u (List.mem_of_mem_drop hMemU)).1
      · intro u hMemU
        have hSame :
            s.inner.drop (c.place + 1) =
              s.inner.tail.drop c.place := by
          rw [← List.drop_one, List.drop_drop, Nat.add_comm]
        rw [← hTokens, hSame] at hMemU
        exact hLoose.later u (List.mem_of_mem_drop hMemU)
    have hLength : s.inner.length - c.place = tokens.length + 1 := by
      rw [← List.length_drop, hDrop]
      rfl
    unfold Cursor.synchronize
    simp only [hUpcoming, hSkip]
    constructor
    · simp only
      omega
    · simp
    · exact hInside.last_eq
  · have hSkip : Cursor.skipCount s.semicolon s.rest = 0 := by
      cases s.rest <;> simp [Cursor.skipCount, s.closed]
    unfold Cursor.synchronize
    simp only [hUpcoming, hSkip]
    exact ⟨by rw [hPlace], rfl, hInside.last_eq⟩

theorem Recorded.synchronize
    (hRecorded : s.Recorded fatal c) :
    s.Recorded fatal c.synchronize := by
  unfold Cursor.synchronize
  split
  · exact hRecorded
  · exact ⟨hRecorded.blamed, hRecorded.count⟩

end Lox.Stretch

------------------------------------------------------------
-- Declarations In A Stretch
------------------------------------------------------------

namespace Lox.Stretch

open Reader Grammar

variable {s : Stretch} {c : Cursor} {fatal : Nat}

theorem Inside.opensLoose_current
    (hInside : s.Inside c)
    (hStart : c.place = 0)
    (hLoose : Grammar.Loose s.inner)
    {t : Token}
    {tokens : List Token}
    (hUpcoming : c.upcoming = t :: tokens) :
    opensLoose t.kind = true := by
  have hHere := hInside.getElem?_place hUpcoming
  rw [hStart, Stretch.tokens] at hHere
  cases hTokens : s.inner with
  | nil =>
      simp only [hTokens, List.nil_append, List.getElem?_cons_zero,
        Option.some.injEq] at hHere
      rw [← hHere, s.closed]
      rfl
  | cons u inner =>
      simp only [hTokens, List.cons_append,
        List.getElem?_cons_zero, Option.some.injEq] at hHere
      exact hLoose.first t (by simp [hTokens, hHere])

/-
  A token that opens a statement is one that the reader knows
  what to do with.
-/
theorem outcome_accept
    (hInside : s.Inside c)
    (hRecorded : s.Recorded fatal c)
    {kinds : Kind → Bool}
    (hKinds : kinds .semicolon = false)
    {α : Type}
    {next : Option Token → Reader α}
    {post : Cursor → Prop}
    (hNone : s.Outcome post fatal (next none c))
    (hSome :
      ∀ {t tokens d}, c.upcoming = t :: tokens →
        kinds t.kind = true → s.Inside d → s.Recorded fatal d →
          s.Outcome post fatal (next (some t) d)) :
    s.Outcome post fatal ((accept kinds >>= next) c) := by
  have hAccept := reads_accept hKinds fatal c hInside hRecorded
  apply hAccept.bind
  intro found d hRun hInsideD hRecordedD
  rcases List.exists_cons_of_ne_nil hInside.upcoming_ne_nil with
    ⟨t, tokens, hUpcoming⟩
  simp only [accept, hUpcoming] at hRun
  split at hRun
  · rename_i hFound
    injection hRun with hToken
    subst hToken
    exact hSome hUpcoming hFound hInsideD hRecordedD
  · injection hRun with hToken hCursor
    subst hToken hCursor
    exact hNone

theorem outcome_statement
    (hInside : s.Inside c)
    (hRecorded : s.Recorded fatal c)
    (hStart : c.place = 0)
    (hLoose : Grammar.Loose s.inner)
    (nesting : Nat) :
    s.Outcome s.Passed fatal (statement nesting c) := by
  have hInner := fun t hMem => (hLoose.unclosed t hMem).1
  cases nesting with
  | zero =>
      rw [statement]
      exact ⟨hInside, hRecorded⟩
  | succ nesting =>
      have hExpression := reads_expression (s := s) nesting
      rw [statement]
      apply outcome_accept hInside hRecorded rfl
      · exact
          reads_expressionStatement hInner hExpression fatal c
            hInside hRecorded
      · intro t tokens d hUpcoming hOpens hInsideD hRecordedD
        have hFirst :=
          hInside.opensLoose_current hStart hLoose hUpcoming
        have hKind : t.kind = .printKw ∨ t.kind = .returnKw := by
          revert hOpens hFirst
          cases t.kind <;> decide
        rcases hKind with hKind | hKind
        · simp only [hKind]
          exact
            reads_printRest hInner hExpression fatal d hInsideD
              hRecordedD
        · simp only [hKind]
          exact
            reads_returnRest hInner hExpression t fatal d
              hInsideD hRecordedD

/- A round that gives up on a declaration passes the stretch. -/
theorem passes_tooDeep
    (hInside : s.Inside c)
    (hRecorded : s.Recorded 0 c)
    (hLoose : Grammar.Loose s.inner) :
    s.Passed (c.recordHere .nestingTooDeep).synchronize ∧
      s.Recorded 1
        (c.recordHere .nestingTooDeep).synchronize := by
  have hMore := hRecorded.recordHere hInside .nestingTooDeep
  constructor
  · exact (hInside.record _ _ _).synchronize hLoose
  · exact hMore.synchronize

theorem programRound_recovering
    {reader : Reader Stmt}
    (hOutcome : s.Outcome s.Passed 0 (reader c))
    (hLoose : Grammar.Loose s.inner) :
    s.Passed (programRound (recovering reader) c).2 ∧
      s.Recorded
        (if (programRound (recovering reader) c).1.isNone
          then 1 else 0)
        (programRound (recovering reader) c).2 := by
  unfold programRound recovering
  cases hRun : reader c with
  | ok stmt d =>
      rw [hRun] at hOutcome
      exact hOutcome
  | error halt d =>
      rw [hRun] at hOutcome
      cases halt with
      | failed =>
          exact
            ⟨hOutcome.1.synchronize hLoose,
              hOutcome.2.synchronize⟩
      | tooDeep =>
          exact passes_tooDeep hOutcome.1 hOutcome.2 hLoose

/-
  What one round of reading a program does in a stretch of
  loose tokens: it comes to the semicolon, and either there is
  no error at which reading stops, or there is one and no
  declaration.
-/
theorem programRound_passes
    (hInside : s.Inside c)
    (hRecorded : s.Recorded 0 c)
    (hStart : c.place = 0)
    (hLoose : Grammar.Loose s.inner)
    (nesting : Nat) :
    s.Passed (programRound (declaration nesting) c).2 ∧
      s.Recorded
        (if (programRound (declaration nesting) c).1.isNone
          then 1 else 0)
        (programRound (declaration nesting) c).2 := by
  have hInner := fun t hMem => (hLoose.unclosed t hMem).1
  cases nesting with
  | zero =>
      rw [declaration]
      exact passes_tooDeep hInside hRecorded hLoose
  | succ nesting =>
      have hExpression := reads_expression (s := s) nesting
      rw [declaration]
      apply programRound_recovering _ hLoose
      apply outcome_accept hInside hRecorded rfl
      · exact
          outcome_statement hInside hRecorded hStart hLoose _
      · intro t tokens d hUpcoming _ hInsideD hRecordedD
        have hFirst :=
          hInside.opensLoose_current hStart hLoose hUpcoming
        have hOther : t.kind ≠ .funKw := by
          intro hKind
          rw [hKind] at hFirst
          exact absurd hFirst (by decide)
        simp only [if_neg hOther]
        exact
          reads_variableRest hInner hExpression 0 d hInsideD
            hRecordedD

end Lox.Stretch

------------------------------------------------------------
-- Programs After A Stretch
------------------------------------------------------------

namespace Lox

open Grammar

/- The cursor of a program that begins with the stretch. -/
def Stretch.start (s : Stretch) : Cursor :=
  { upcoming := s.inner ++ s.semicolon :: s.rest
    last := s.last }

/- The cursor of the program that follows the stretch. -/
def Stretch.after (s : Stretch) : Cursor :=
  { upcoming := s.rest
    last := s.last }

namespace Stretch

variable {s : Stretch}

theorem inside_start : s.Inside s.start :=
  ⟨Nat.zero_le _, rfl, rfl⟩

theorem recorded_start : s.Recorded 0 s.start :=
  ⟨by simp [start], rfl⟩

/- Past the stretch, only the program after it is left. -/
theorem Passed.eq_preceded
    {c : Cursor}
    (hPassed : s.Passed c) :
    c = s.after.preceded c.errors (s.inner.length + 1) := by
  rcases c with ⟨tokens, last, place, errors⟩
  rcases hPassed with ⟨hPlace, hUpcoming, hLast⟩
  simp only at hPlace hUpcoming hLast
  subst hPlace hUpcoming hLast
  simp [Cursor.preceded, after]

/- The round of the stretch, and the program after it. -/
theorem programFrom_start
    (hLoose : Loose s.inner)
    (nesting : Nat) :
    ∃ (first : Option Stmt) (errors : List ParseError),
      programFrom (declaration nesting) s.start.upcoming []
          s.start =
        (programFrom (declaration nesting) s.rest []
          s.after).preceded first.toList errors
            (s.inner.length + 1) ∧
      (∀ e ∈ errors, s.tokens[e.place]? = some e.token) ∧
      errors.countP (·.fault.isFatal) =
        if first.isNone then 1 else 0 := by
  have hRound :=
    programRound_passes inside_start recorded_start rfl hLoose
      nesting
  rcases hRound with ⟨hPassed, hRecorded⟩
  generalize hFirst :
    (programRound (declaration nesting) s.start).1 = first at *
  generalize hAfter :
    (programRound (declaration nesting) s.start).2 = d at *
  refine
    ⟨first, d.errors.toList, ?_, hRecorded.blamed,
      hRecorded.count⟩
  have hOpen := inside_start.upcoming_ne_nil (s := s)
  rcases List.exists_cons_of_ne_nil hOpen with
    ⟨tick, ticks, hTicks⟩
  have hEnough : s.after.upcoming.length ≤ ticks.length := by
    have hLength := congrArg List.length hTicks
    simp only [start, List.length_append, List.length_cons]
      at hLength
    show s.rest.length ≤ ticks.length
    omega
  have hFew : first.toList.reverse = first.toList := by
    cases first <;> rfl
  calc
    _ = programFrom (declaration nesting) ticks
          (first.toList ++ []) d := by
      rw [hTicks, programFrom_cons hOpen, hFirst, hAfter]
    _ = programFrom (declaration nesting) ticks
          ([] ++ first.toList)
          (s.after.preceded d.errors (s.inner.length + 1)) := by
      rw [List.append_nil, List.nil_append,
        ← hPassed.eq_preceded]
    _ = (programFrom (declaration nesting) s.after.upcoming []
          s.after).preceded first.toList.reverse d.errors.toList
            (s.inner.length + 1) :=
      programFrom_preceded nesting _ (Nat.le_refl _) hEnough []
    _ = _ := by
      rw [hFew]
      rfl

end Stretch

/- The end token does not depend on what stands before. -/
theorem last_ofTokens_append
    {inner : List Token}
    (hInner : ∀ t ∈ inner, t.kind ≠ .eof)
    {semicolon : Token}
    (hSemicolon : semicolon.kind = .semicolon)
    (t : Token)
    (tokens : List Token) :
    (Cursor.ofTokens (inner ++ semicolon :: t :: tokens)).last =
      (Cursor.ofTokens (t :: tokens)).last := by
  have hNone : inner.find? (·.kind = .eof) = none := by
    simpa using hInner
  have hFind :
      (inner ++ semicolon :: t :: tokens).find? (·.kind = .eof) =
        (t :: tokens).find? (·.kind = .eof) := by
    rw [List.find?_append, hNone, Option.none_or,
      List.find?_cons_of_neg (by simp [hSemicolon])]
  have hMissing :
      Cursor.missingEnd (inner ++ semicolon :: t :: tokens) =
        Cursor.missingEnd (t :: tokens) := by
    simp [Cursor.missingEnd, List.getLast?_append,
      List.getLast?_cons]
  simp only [Cursor.ofTokens, hFind, hMissing]

/-
  A program with loose tokens and a semicolon before it. At
  most one statement comes from these, and errors only at
  them; reading stops at one of the errors exactly if there is
  no statement. The rest is read as if nothing were before it.
-/
theorem parse_stretch
    (limits : Limits)
    {inner : List Token}
    (hLoose : Grammar.Loose inner)
    {semicolon : Token}
    (hSemicolon : semicolon.kind = .semicolon)
    (rest : List Token) :
    ∃ (first : Option Stmt) (errors : List ParseError),
      parse limits (inner ++ semicolon :: rest) =
        (parse limits rest).preceded first.toList errors
          (inner.length + 1) ∧
      (∀ e ∈ errors,
        (inner ++ [semicolon])[e.place]? = some e.token) ∧
      errors.countP (·.fault.isFatal) =
        if first.isNone then 1 else 0 := by
  have hUnclosed := fun t hMem => (hLoose.unclosed t hMem).2
  have hStart :
      (Cursor.ofTokens (inner ++ semicolon :: rest)).upcoming =
        inner ++ semicolon :: rest.takeWhile (·.kind ≠ .eof) := by
    simp only [Cursor.ofTokens]
    rw [List.takeWhile_append_of_pos (by simpa using hUnclosed)]
    simp [hSemicolon]
  let s : Stretch :=
    { inner, semicolon
      rest := rest.takeWhile (·.kind ≠ .eof)
      last := (Cursor.ofTokens (inner ++ semicolon :: rest)).last
      closed := hSemicolon }
  have hParse :
      parse limits (inner ++ semicolon :: rest) =
        programFrom (declaration limits.nesting)
          s.start.upcoming [] s.start := by
    have hSame :
        Cursor.ofTokens (inner ++ semicolon :: rest) = s.start := by
      rw [Stretch.start, ← hStart]
      rfl
    rw [parse, hSame]
  have hAfter :
      programFrom (declaration limits.nesting) s.rest [] s.after =
        parse limits rest := by
    cases rest with
    | nil => rfl
    | cons t tokens =>
        have hLast :=
          last_ofTokens_append hUnclosed hSemicolon t tokens
        show
          programFrom _ _ [] ⟨_, (Cursor.ofTokens _).last, 0, #[]⟩ =
            _
        rw [hLast]
        rfl
  rw [hParse, ← hAfter]
  exact s.programFrom_start hLoose limits.nesting

/- The tokens of `print (`. -/
def openGroup : List Token :=
  [ ⟨.printKw, "print", .nil, 1, 0⟩,
    ⟨.leftParen, "(", .nil, 1, 6⟩ ]

theorem loose_openGroup : Loose openGroup where
  unclosed := by decide
  later := by decide
  first := by decide

theorem parse_stretch_openGroup :
    Loose openGroup ∧
    ∃ (first : Option Stmt) (errors : List ParseError),
      parse .standard
          (openGroup ++ ⟨.semicolon, ";", .nil, 1, 7⟩ ::
            cutShort) =
        (parse .standard cutShort).preceded first.toList
          errors 3 ∧
      (∀ e ∈ errors,
        (openGroup ++ [⟨.semicolon, ";", .nil, 1, 7⟩])[e.place]? =
          some e.token) ∧
      errors.countP (·.fault.isFatal) =
        if first.isNone then 1 else 0 := by
  refine ⟨loose_openGroup, ?_⟩
  exact parse_stretch .standard loose_openGroup rfl cutShort

end Lox
