import Lox.Proofs.Grammar.Bounds
import Lox.Proofs.Grammar.Composition

/-
  Reading does not look back.

  Tokens that were read before and errors that were recorded
  before make no difference to what a reader does: it goes on
  in the same way, it adds the same errors, and these blame
  tokens as many places further on. So the rest of a program
  is read as a program of its own.

  Key definitions include:
    * `Cursor.preceded`
    * `Reader.IgnoresPast`
    * `Grammar.programFrom_preceded`
-/

------------------------------------------------------------
-- Cursors With A Past
------------------------------------------------------------

namespace Lox

/- The error, if there are more tokens before all others. -/
def ParseError.preceded
    (count : Nat)
    (e : ParseError) :
    ParseError :=
  { e with place := count + e.place }

/-
  The cursor, if more tokens were read before all others, and
  some errors were recorded.
-/
def Cursor.preceded
    (earlier : Array ParseError)
    (count : Nat)
    (c : Cursor) :
    Cursor :=
  { c with
    place := count + c.place
    errors := earlier ++ c.errors.map (.preceded count) }

namespace Cursor

variable {earlier : Array ParseError} {count : Nat}

@[simp] theorem upcoming_preceded (c : Cursor) :
    (c.preceded earlier count).upcoming = c.upcoming := rfl

@[simp] theorem place_preceded (c : Cursor) :
    (c.preceded earlier count).place = count + c.place := rfl

theorem advance_preceded (c : Cursor) :
    (c.preceded earlier count).advance =
      c.advance.preceded earlier count := by
  rcases c with ⟨tokens, last, place, errors⟩
  cases tokens <;> rfl

theorem record_preceded
    (c : Cursor)
    (fault : GrammarFault)
    (token : Token)
    (place : Nat) :
    (c.preceded earlier count).record fault token
        (count + place) =
      (c.record fault token place).preceded earlier count := by
  simp [record, preceded, ParseError.preceded]

theorem recordHere_preceded
    (c : Cursor)
    (fault : GrammarFault) :
    (c.preceded earlier count).recordHere fault =
      (c.recordHere fault).preceded earlier count :=
  c.record_preceded fault c.current c.place

theorem synchronize_preceded (c : Cursor) :
    (c.preceded earlier count).synchronize =
      c.synchronize.preceded earlier count := by
  rcases c with ⟨tokens, last, place, errors⟩
  cases tokens with
  | nil => rfl
  | cons t tokens =>
      simp [synchronize, preceded, Nat.add_assoc]

end Cursor

end Lox

------------------------------------------------------------
-- Readers That Ignore The Past
------------------------------------------------------------

namespace Lox.Reader

variable {α β : Type} {earlier : Array ParseError} {count : Nat}

/- A result, if more tokens were read before, with errors. -/
def precededResult
    (earlier : Array ParseError)
    (count : Nat) :
    EStateM.Result Halt Cursor α → EStateM.Result Halt Cursor α
  | .ok a c => .ok a (c.preceded earlier count)
  | .error halt c => .error halt (c.preceded earlier count)

/- The reader does the same whatever was read before. -/
def IgnoresPast
    (earlier : Array ParseError)
    (count : Nat)
    (reader : Reader α) :
    Prop :=
  ∀ c : Cursor,
    reader (c.preceded earlier count) =
      precededResult earlier count (reader c)

theorem ignoresPast_accept (kinds : Kind → Bool) :
    (accept kinds).IgnoresPast earlier count := by
  rintro ⟨tokens, last, place, errors⟩
  cases tokens with
  | nil => rfl
  | cons t tokens =>
      simp only [accept, Cursor.upcoming_preceded]
      split
      · rw [Cursor.advance_preceded]
        rfl
      · rfl

theorem IgnoresPast.bind
    {step : Reader α}
    {next : α → Reader β}
    (hStep : step.IgnoresPast earlier count)
    (hNext : ∀ a, (next a).IgnoresPast earlier count) :
    (step >>= next).IgnoresPast earlier count := by
  intro c
  have hFirst := hStep c
  cases hRun : step c with
  | ok a d =>
      rw [hRun] at hFirst
      rw [bind_of_ok hFirst, bind_of_ok hRun]
      exact hNext a d
  | error halt d =>
      rw [hRun] at hFirst
      rw [bind_of_error hFirst, bind_of_error hRun]
      rfl

theorem IgnoresPast.recovering
    {reader : Reader α}
    (hReader : reader.IgnoresPast earlier count) :
    (recovering reader).IgnoresPast earlier count := by
  intro c
  unfold Reader.recovering
  rw [hReader c]
  cases reader c with
  | ok a d => rfl
  | error halt d =>
      cases halt with
      | failed =>
          simp only [precededResult]
          rw [Cursor.synchronize_preceded]
      | tooDeep => rfl

/-
  The place of an equals sign is further on, and so is the
  error that blames it.
-/
theorem ignoresPast_valueFor
    {value : Reader Expr}
    (hValue : value.IgnoresPast earlier count)
    (target : Expr) :
    (Grammar.valueFor value target).IgnoresPast earlier
      count := by
  intro c
  have hNote :
      ∀ (equals : Token) (d : Cursor),
        (noteAt .invalidTarget equals (count + c.place) >>=
            fun _ => (pure target : Reader Expr))
            (d.preceded earlier count) =
          precededResult earlier count
            ((noteAt .invalidTarget equals c.place >>=
              fun _ => (pure target : Reader Expr)) d) := by
    intro equals d
    show EStateM.Result.ok target _ = .ok target _
    rw [d.record_preceded]
  have hSign :
      (accept (· = .equal)).IgnoresPast earlier count :=
    ignoresPast_accept _
  have hHere := hSign c
  unfold Grammar.valueFor
  show
    (accept (· = .equal) >>= _) (c.preceded earlier count) =
      precededResult earlier count
        ((accept (· = .equal) >>= _) c)
  cases hRun : accept (· = .equal) c with
  | error halt d =>
      rw [hRun] at hHere
      rw [bind_of_error hHere, bind_of_error hRun]
      rfl
  | ok found d =>
      rw [hRun] at hHere
      rw [bind_of_ok hHere, bind_of_ok hRun]
      cases found with
      | none => rfl
      | some equals =>
          have hLater := hValue d
          simp only
          cases hEnd : value d with
          | error halt e =>
              rw [hEnd] at hLater
              rw [bind_of_error hLater, bind_of_error hEnd]
              rfl
          | ok result e =>
              rw [hEnd] at hLater
              rw [bind_of_ok hLater, bind_of_ok hEnd]
              cases target with
              | «variable» name hops => rfl
              | _ => exact hNote equals e

theorem composes_ignoresPast :
    ComposesStatements fun _ reader =>
      reader.IgnoresPast earlier count where
  pure _ _ := rfl
  fail _ c :=
    congrArg (EStateM.Result.error Halt.failed)
      (c.recordHere_preceded _)
  tooDeep _ := rfl
  note _ c :=
    congrArg (EStateM.Result.ok ()) (c.recordHere_preceded _)
  upcoming _ := rfl
  nextIs kind c := by
    rcases c with ⟨tokens, last, place, errors⟩
    cases tokens <;> rfl
  accept _ := ignoresPast_accept _
  bind := IgnoresPast.bind
  valueFor := ignoresPast_valueFor
  acceptAny := ignoresPast_accept
  atEnd _ := rfl
  recovering := IgnoresPast.recovering

end Lox.Reader

------------------------------------------------------------
-- Rounds Of A Program
------------------------------------------------------------

namespace Lox.Grammar

variable {declaration : Reader (Option Stmt)} {c : Cursor}

/-
  What one round of reading a program gives: the declaration,
  unless it is dropped, and the cursor after it.
-/
def programRound
    (declaration : Reader (Option Stmt))
    (c : Cursor) :
    Option Stmt × Cursor :=
  match declaration c with
  | .ok found d => (found, d)
  | .error .failed d => (none, d)
  | .error .tooDeep d =>
      (none, (d.recordHere .nestingTooDeep).synchronize)

theorem programFrom_cons
    (hOpen : c.upcoming ≠ [])
    (tick : Token)
    (ticks : List Token)
    (program : List Stmt) :
    programFrom declaration (tick :: ticks) program c =
      programFrom declaration ticks
        ((programRound declaration c).1.toList ++ program)
        (programRound declaration c).2 := by
  have hAtEnd : c.atEnd = false := by
    simpa [Cursor.atEnd] using hOpen
  unfold programRound
  simp only [programFrom, hAtEnd, Bool.false_eq_true, if_false]
  cases declaration c with
  | ok found d => cases found <;> rfl
  | error halt d => cases halt <;> rfl

theorem programRound_preceded
    {earlier : Array ParseError}
    {count : Nat}
    (hDeclaration : declaration.IgnoresPast earlier count)
    (c : Cursor) :
    programRound declaration (c.preceded earlier count) =
      ((programRound declaration c).1,
        (programRound declaration c).2.preceded earlier
          count) := by
  unfold programRound
  rw [hDeclaration c]
  cases declaration c with
  | ok found d => rfl
  | error halt d =>
      cases halt with
      | failed => rfl
      | tooDeep =>
          simp only [Reader.precededResult]
          rw [Cursor.recordHere_preceded,
            Cursor.synchronize_preceded]

/- A round moves on, be the declaration read or dropped. -/
theorem length_programRound
    (hOpen : c.upcoming ≠ [])
    (nesting : Nat) :
    (programRound (Grammar.declaration nesting)
      c).2.upcoming.length < c.upcoming.length := by
  have hFollows := (Text.followsOn_statements nesting).2
  have hProceeds := hFollows.proceeds c
  unfold programRound
  cases hRun : Grammar.declaration nesting c with
  | ok found d => exact hFollows.consumes hRun hOpen
  | error halt d =>
      rw [hRun] at hProceeds
      cases halt with
      | failed =>
          exact absurd hRun (Text.declaration_recovers nesting)
      | tooDeep =>
          apply Reader.length_synchronize _ hOpen
          exact hProceeds.trans (.record d _ _ _)

end Lox.Grammar

------------------------------------------------------------
-- Programs
------------------------------------------------------------

namespace Lox

/-
  A program with other declarations and errors before it, and
  the tokens that these were read from.
-/
def Parsed.preceded
    (before : List Stmt)
    (earlier : List ParseError)
    (count : Nat)
    (parsed : Parsed) :
    Parsed :=
  { program := before ++ parsed.program
    errors := earlier ++ parsed.errors.map (.preceded count) }

namespace Grammar

variable {earlier : Array ParseError} {count : Nat}

theorem programFrom_preceded_atEnd
    {c : Cursor}
    (hEnd : c.upcoming = [])
    (declaration : Reader (Option Stmt))
    (before program : List Stmt)
    (ticks ticks' : List Token) :
    programFrom declaration ticks' (program ++ before)
        (c.preceded earlier count) =
      (programFrom declaration ticks program
        c).preceded before.reverse earlier.toList count := by
  have hEnd' : (c.preceded earlier count).upcoming = [] := hEnd
  rw [programFrom_atEnd _ _ _ hEnd, programFrom_atEnd _ _ _ hEnd']
  simp [Parsed.preceded, Cursor.preceded]

/-
  The rest of a program is read as a program of its own, by
  induction on its ticks. Ticks that are left over make no
  difference, since every round moves on.
-/
theorem programFrom_preceded
    (nesting : Nat)
    (before : List Stmt)
    {ticks ticks' : List Token}
    {c : Cursor}
    (hTicks : c.upcoming.length ≤ ticks.length)
    (hTicks' : c.upcoming.length ≤ ticks'.length)
    (program : List Stmt) :
    programFrom (declaration nesting) ticks' (program ++ before)
        (c.preceded earlier count) =
      (programFrom (declaration nesting) ticks program
        c).preceded before.reverse earlier.toList count := by
  induction ticks generalizing ticks' program c with
  | nil =>
      have hEnd : c.upcoming = [] := by simpa using hTicks
      exact programFrom_preceded_atEnd hEnd _ _ _ _ _
  | cons tick ticks ih =>
      by_cases hOpen : c.upcoming = []
      · exact programFrom_preceded_atEnd hOpen _ _ _ _ _
      · have hLess := length_programRound hOpen nesting
        cases ticks' with
        | nil => exact absurd (by simpa using hTicks') hOpen
        | cons tick' ticks' =>
            rw [List.length_cons] at hTicks hTicks'
            have hIgnores :
                (declaration nesting).IgnoresPast earlier count :=
              (Reader.composes_ignoresPast.statements nesting).1
            have hOpen' :
                (c.preceded earlier count).upcoming ≠ [] := hOpen
            rw [programFrom_cons hOpen, programFrom_cons hOpen',
              programRound_preceded hIgnores, ← List.append_assoc]
            exact ih (by omega) (by omega) _

end Grammar

end Lox
