import Lox.Proofs.Grammar.Indexed
import Lox.Proofs.Grammar.Prolonging

/-
  Where reading by place stands.

  A list of tokens is split at its first end token. Wherever a
  reader stands with its cursor, reading by place stands at the
  same place of the list, before that token or at it. So it
  can look at the token there, at the one before it if there
  is one, and it can move on wherever it is not at the end.

  Key definitions include:
    * `Text`
    * `Text.Stands`
    * `Text.Agrees`
    * `Text.Follows`
-/

------------------------------------------------------------
-- Texts
------------------------------------------------------------

namespace Lox

/-
  A list of tokens, split at its first end token, with some
  other token before that one.
-/
structure Text where
  before : List Token
  last : Token
  after : List Token
  starts : before ≠ []
  proper : ∀ t ∈ before, t.kind ≠ .eof
  ends : last.kind = .eof

namespace Text

open Indexed

variable (text : Text)

def tokens : List Token :=
  text.before ++ text.last :: text.after

/- A cursor and a place in the list that belong together. -/
structure Stands (c : Cursor) (s : State) : Prop where
  tokens : s.tokens = text.tokens
  place : s.place = c.place
  errors : s.errors = c.errors
  last : c.last = text.last
  upcoming : c.upcoming = text.before.drop c.place
  within : c.place ≤ text.before.length

variable {text : Text} {c d : Cursor} {s : State} {t : Token}

theorem Stands.length
    (hStands : text.Stands c s) :
    c.place + c.upcoming.length = text.before.length := by
  have hWithin := hStands.within
  rw [hStands.upcoming, List.length_drop]
  omega

theorem Stands.left
    (hStands : text.Stands c s) :
    s.left = c.upcoming.length + 1 + text.after.length := by
  have hLength := hStands.length
  rw [State.left, hStands.tokens, hStands.place, Text.tokens,
    List.length_append, List.length_cons]
  omega

theorem Stands.tokens_at
    (hStands : text.Stands c s)
    (n : Nat)
    (hLength : n < text.before.length) :
    s.tokens[n]? = text.before[n]? := by
  rw [hStands.tokens, Text.tokens,
    List.getElem?_append_left hLength]

/- The place is that of the token at the cursor. -/
theorem Stands.tokens_here
    (hStands : text.Stands c s) :
    s.tokens[s.place]? = some c.current := by
  have hLength := hStands.length
  rw [hStands.place]
  unfold Cursor.current
  cases hUpcoming : c.upcoming with
  | nil =>
      rw [hUpcoming] at hLength
      have hEnd : c.place = text.before.length := hLength
      rw [hStands.tokens, hStands.last, hEnd, Text.tokens]
      simp
  | cons t rest =>
      rw [hUpcoming, List.length_cons] at hLength
      have hHere : text.before[c.place]? = some t := by
        rw [← List.head?_drop, ← hStands.upcoming, hUpcoming]
        rfl
      rw [hStands.tokens_at _ (by omega), hHere]
      rfl

theorem Stands.kind_upcoming
    (hStands : text.Stands c s)
    (hMem : t ∈ c.upcoming) :
    t.kind ≠ .eof := by
  rw [hStands.upcoming] at hMem
  exact text.proper t (List.mem_of_mem_drop hMem)

/- The token at the cursor is an end token only at the end. -/
theorem Stands.current_atEnd
    (hStands : text.Stands c s) :
    decide (c.current.kind = .eof) = c.atEnd := by
  unfold Cursor.current Cursor.atEnd
  cases hUpcoming : c.upcoming with
  | nil => simp [hStands.last, text.ends]
  | cons t rest =>
      have hKind : t.kind ≠ .eof := by
        apply hStands.kind_upcoming
        rw [hUpcoming]
        exact List.mem_cons_self
      simp [hKind]

theorem Stands.record
    (hStands : text.Stands c s)
    (fault : GrammarFault)
    (token : Token)
    (place : Nat) :
    text.Stands (c.record fault token place)
      { s with errors := s.errors.push ⟨fault, token, place⟩ } :=
  { hStands with errors := by rw [hStands.errors]; rfl }

end Text

end Lox

------------------------------------------------------------
-- Steps That Agree
------------------------------------------------------------

namespace Lox.Text

open Indexed

variable {α β : Type} (text : Text)

/- Reading by place has ended as the reader has. -/
def Agrees :
    EStateM.Result Stop State α → EStateM.Result Halt Cursor α →
      Prop
  | .ok a s, .ok a' c => a = a' ∧ text.Stands c s
  | .error (.halt halt) s, .error halt' c =>
      halt = halt' ∧ text.Stands c s
  | _, _ => False

/- A step of reading by place ends as the reader does. -/
structure Follows (x : Step α) (y : Reader α) : Prop where
  proceeds : y.Proceeds
  agrees :
    ∀ {text : Text} {c s}, text.Stands c s →
      text.Agrees (x s) (y c)

variable {text : Text} {c d : Cursor} {s : State}
variable {x : Step α} {y : Reader α}
variable {f : α → Step β} {g : α → Reader β}

/- Both have ended well, or both have stopped. -/
theorem Agrees.ends
    {r : EStateM.Result Stop State α}
    {r' : EStateM.Result Halt Cursor α}
    (hAgrees : text.Agrees r r') :
    (∃ a t d, r = .ok a t ∧ r' = .ok a d ∧ text.Stands d t) ∨
      ∃ halt t d, r = .error (.halt halt) t ∧
        r' = .error halt d ∧ text.Stands d t := by
  cases r with
  | ok a t =>
      cases r' with
      | ok a' d =>
          rcases hAgrees with ⟨rfl, hStands⟩
          exact .inl ⟨a, t, d, rfl, rfl, hStands⟩
      | error halt d => exact hAgrees.elim
  | error stop t =>
      cases stop with
      | stuck => exact hAgrees.elim
      | halt halt =>
          cases r' with
          | ok a' d => exact hAgrees.elim
          | error halt' d =>
              rcases hAgrees with ⟨rfl, hStands⟩
              exact .inr ⟨halt, t, d, rfl, rfl, hStands⟩

/- One step after another, with what the first has done. -/
theorem Agrees.bind
    (hFirst : text.Agrees (x s) (y c))
    (hNext :
      ∀ {a d t}, y c = .ok a d → text.Stands d t →
        text.Agrees (f a t) (g a d)) :
    text.Agrees ((x >>= f) s) ((y >>= g) c) := by
  rcases hFirst.ends with
    ⟨a, t, d, hRun, hRun', hStands⟩ |
      ⟨halt, t, d, hRun, hRun', hStands⟩
  · rw [bind_of_ok hRun, bind_of_ok hRun']
    exact hNext hRun' hStands
  · rw [bind_of_error hRun, bind_of_error hRun']
    exact ⟨rfl, hStands⟩

theorem Follows.bind
    (hFirst : Follows x y)
    (hNext : ∀ a, Follows (f a) (g a)) :
    Follows (x >>= f) (y >>= g) := by
  refine
    ⟨hFirst.proceeds.bind fun a => (hNext a).proceeds, ?_⟩
  intro text c s hStands
  apply (hFirst.agrees hStands).bind
  intro a d t _ hStands'
  exact (hNext a).agrees hStands'

theorem follows_pure (a : α) :
    Follows (pure a) (pure a) :=
  ⟨Reader.proceeds_pure a, fun hStands => ⟨rfl, hStands⟩⟩

theorem Follows.map
    (hStep : Follows x y)
    (f : α → β) :
    Follows (f <$> x) (f <$> y) := by
  rw [← bind_pure_comp, ← bind_pure_comp]
  exact hStep.bind fun a => follows_pure (f a)

theorem Follows.ite
    {x' : Step α}
    {y' : Reader α}
    {p : Prop}
    [Decidable p]
    (hThen : Follows x y)
    (hElse : Follows x' y') :
    Follows (if p then x else x') (if p then y else y') := by
  by_cases hHolds : p
  · rw [if_pos hHolds, if_pos hHolds]
    exact hThen
  · rw [if_neg hHolds, if_neg hHolds]
    exact hElse

end Lox.Text

------------------------------------------------------------
-- Single Tokens
------------------------------------------------------------

namespace Lox.Text

open Indexed

variable {α : Type} {text : Text} {c d : Cursor} {s : State}

/- Looking at the token at the cursor. -/
theorem Stands.peek_eq (hStands : text.Stands c s) :
    peek s = .ok c.current s := by
  unfold Indexed.peek
  rw [hStands.tokens_here]

theorem Stands.atEnd_eq (hStands : text.Stands c s) :
    atEnd s = .ok c.atEnd s := by
  unfold Indexed.atEnd
  rw [bind_of_ok hStands.peek_eq, ← hStands.current_atEnd]
  rfl

theorem follows_atEnd : Follows atEnd Reader.atEnd := by
  refine ⟨Reader.proceeds_atEnd, ?_⟩
  intro text c s hStands
  rw [hStands.atEnd_eq]
  exact ⟨rfl, hStands⟩

theorem follows_place : Follows place Reader.place :=
  ⟨Reader.proceeds_place, fun hStands => ⟨hStands.place, hStands⟩⟩

theorem follows_tooDeep :
    Follows (stop .tooDeep : Step α) Reader.tooDeep :=
  ⟨Reader.proceeds_tooDeep, fun hStands => ⟨rfl, hStands⟩⟩

theorem follows_noteAt
    (fault : GrammarFault)
    (token : Token)
    (place : Nat) :
    Follows (noteAt fault token place)
      (Reader.noteAt fault token place) :=
  ⟨Reader.proceeds_noteAt fault token place, fun hStands =>
    ⟨rfl, hStands.record fault token place⟩⟩

theorem Stands.note_eq
    (hStands : text.Stands c s)
    (fault : GrammarFault) :
    ∃ s', note fault s = .ok () s' ∧
      text.Stands (c.recordHere fault) s' := by
  unfold Indexed.note
  rw [bind_of_ok hStands.peek_eq]
  refine ⟨_, rfl, ?_⟩
  unfold Cursor.recordHere
  rw [← hStands.place]
  exact hStands.record fault c.current s.place

theorem follows_note (fault : GrammarFault) :
    Follows (note fault) (Reader.note fault) := by
  refine ⟨Reader.proceeds_note fault, ?_⟩
  intro text c s hStands
  rcases hStands.note_eq fault with ⟨s', hRun, hStands'⟩
  rw [hRun]
  exact ⟨rfl, hStands'⟩

theorem follows_fail (fault : GrammarFault) :
    Follows (fail fault : Step α) (Reader.fail fault) := by
  refine ⟨Reader.proceeds_fail fault, ?_⟩
  intro text c s hStands
  rcases hStands.note_eq fault with ⟨s', hRun, hStands'⟩
  unfold Indexed.fail
  rw [bind_of_ok hRun]
  exact ⟨rfl, hStands'⟩

/- The token before the place is the one just moved over. -/
theorem Stands.previous_eq
    (hStands : text.Stands c s)
    {n : Nat}
    {t : Token}
    (hPlace : c.place = n + 1)
    (hBefore : text.before[n]? = some t) :
    previous s = .ok t s := by
  have hWithin := hStands.within
  unfold Indexed.previous
  rw [hStands.place, hPlace]
  simp only
  rw [hStands.tokens_at n (by omega), hBefore]

/- Moving over a token, which is not the end. -/
theorem Stands.advance_eq
    (hStands : text.Stands c s)
    {t : Token}
    {rest : List Token}
    (hUpcoming : c.upcoming = t :: rest) :
    ∃ s', advance s = .ok t s' ∧ text.Stands c.advance s' ∧
      text.before[c.place]? = some t := by
  have hLength := hStands.length
  rw [hUpcoming, List.length_cons] at hLength
  have hHere : text.before[c.place]? = some t := by
    rw [← List.head?_drop, ← hStands.upcoming, hUpcoming]
    rfl
  have hOpen : c.atEnd = false := by
    simp [Cursor.atEnd, hUpcoming]
  have hProper :
      (s.tokens.take (s.place + 1)).any (·.kind = .eof) = false := by
    rw [hStands.tokens, hStands.place, Text.tokens,
      List.take_append_of_le_length (by omega)]
    apply List.any_eq_false.mpr
    intro u hMem
    simpa using text.proper u (List.mem_of_mem_take hMem)
  have hMove :
      move s = .ok () { s with place := s.place + 1 } := by
    unfold Indexed.move
    rw [hProper]
    rfl
  have hNext :
      text.Stands c.advance { s with place := s.place + 1 } := by
    unfold Cursor.advance
    rw [hUpcoming]
    refine
      ⟨hStands.tokens, congrArg (· + 1) hStands.place,
        hStands.errors, hStands.last, ?_, by simp only; omega⟩
    rw [← List.tail_drop, ← hStands.upcoming, hUpcoming]
    rfl
  refine ⟨_, ?_, hNext, hHere⟩
  unfold Indexed.advance
  rw [bind_of_ok hStands.atEnd_eq, hOpen]
  simp only [Bool.false_eq_true, if_false]
  rw [bind_of_ok hMove]
  apply hNext.previous_eq (n := c.place) _ hHere
  rw [Cursor.advance_eq_skip hUpcoming, Cursor.place_skip]

/- At the end the token is of no kind that is asked for. -/
theorem Stands.check_eq
    (hStands : text.Stands c s)
    (kinds : Kind → Bool) :
    check kinds s =
      .ok (c.upcoming.head?.any fun t => kinds t.kind) s := by
  unfold Indexed.check
  rw [bind_of_ok hStands.atEnd_eq]
  cases hUpcoming : c.upcoming with
  | nil =>
      have hEnd : c.atEnd = true := by
        simp [Cursor.atEnd, hUpcoming]
      rw [hEnd]
      rfl
  | cons t rest =>
      have hOpen : c.atEnd = false := by
        simp [Cursor.atEnd, hUpcoming]
      have hCurrent : c.current = t := by
        simp [Cursor.current, hUpcoming]
      simp only [hOpen, Bool.false_eq_true, if_false]
      rw [bind_of_ok hStands.peek_eq, hCurrent]
      rfl

theorem follows_check (kind : Kind) :
    Follows (check (· = kind)) (Reader.nextIs kind) := by
  refine ⟨Reader.proceeds_nextIs kind, ?_⟩
  intro text c s hStands
  rw [hStands.check_eq]
  unfold Reader.nextIs
  cases c.upcoming <;> exact ⟨rfl, hStands⟩

theorem follows_accept (kinds : Kind → Bool) :
    Follows (accept kinds) (Reader.accept kinds) := by
  refine ⟨Reader.proceeds_accept kinds, ?_⟩
  intro text c s hStands
  have hCheck := hStands.check_eq kinds
  unfold Indexed.accept Reader.accept
  cases hUpcoming : c.upcoming with
  | nil =>
      rw [hUpcoming] at hCheck
      have hNone : check kinds s = .ok false s := hCheck
      rw [bind_of_ok hNone]
      exact ⟨rfl, hStands⟩
  | cons t rest =>
      rw [hUpcoming] at hCheck
      have hNext : check kinds s = .ok (kinds t.kind) s := hCheck
      rw [bind_of_ok hNext]
      by_cases hKind : kinds t.kind
      · rcases hStands.advance_eq hUpcoming with
          ⟨s', hRun, hStands', _⟩
        simp only [if_pos hKind]
        rw [bind_of_ok hRun]
        exact ⟨rfl, hStands'⟩
      · simp only [if_neg hKind]
        exact ⟨rfl, hStands⟩

theorem follows_accepts (kind : Kind) :
    Follows (accepts kind) (Reader.accepts kind) :=
  (follows_accept _).bind fun _ => follows_pure _

theorem follows_expect (kind : Kind) (fault : GrammarFault) :
    Follows (expect kind fault)
      (Reader.expect kind fault) := by
  apply (follows_accept _).bind
  intro found
  cases found with
  | none => exact follows_fail fault
  | some t => exact follows_pure t

end Lox.Text

------------------------------------------------------------
-- Moving On After An Error
------------------------------------------------------------

namespace Lox.Text

open Indexed

variable {α : Type} {text : Text} {c d : Cursor} {s : State}

/- A round of skipping, between two tokens. -/
theorem Stands.skipRound_eq
    (hStands : text.Stands c s)
    {n : Nat}
    {t u : Token}
    {rest : List Token}
    (hPlace : c.place = n + 1)
    (hBefore : text.before[n]? = some t)
    (hUpcoming : c.upcoming = u :: rest) :
    skipRound () s =
      (if t.kind = .semicolon then pure (.done ())
        else if u.kind.startsStatement then pure (.done ())
        else advance >>= fun _ => pure (.again ())) s := by
  have hOpen : c.atEnd = false := by
    simp [Cursor.atEnd, hUpcoming]
  have hPeek := hStands.peek_eq
  have hCurrent : c.current = u := by
    simp [Cursor.current, hUpcoming]
  rw [hCurrent] at hPeek
  unfold skipRound
  rw [bind_of_ok hStands.atEnd_eq, hOpen]
  simp only [Bool.false_eq_true, if_false]
  rw [bind_of_ok (hStands.previous_eq hPlace hBefore)]
  by_cases hSemicolon : t.kind = .semicolon
  · rw [if_pos hSemicolon, if_pos hSemicolon]
  · rw [if_neg hSemicolon, if_neg hSemicolon, bind_of_ok hPeek]

/-
  Skipping goes on from a token that has been moved over. The
  induction is on the tokens that come after it.
-/
theorem Stands.skip_eq
    (hStands : text.Stands c s)
    {n : Nat}
    {t : Token}
    {rest : List Token}
    (hPlace : c.place = n + 1)
    (hBefore : text.before[n]? = some t)
    (hUpcoming : c.upcoming = rest) :
    ∃ s', rounds skipRound () s = .ok () s' ∧
      text.Stands (c.skip (Cursor.skipCount t rest)) s' := by
  induction rest generalizing c s n t with
  | nil =>
      have hEnd : c.atEnd = true := by
        simp [Cursor.atEnd, hUpcoming]
      have hRound : skipRound () s = .ok (.done ()) s := by
        unfold skipRound
        rw [bind_of_ok hStands.atEnd_eq, hEnd]
        rfl
      refine ⟨s, ?_, hStands⟩
      rw [rounds, hRound]
  | cons u rest ih =>
      rw [rounds, hStands.skipRound_eq hPlace hBefore hUpcoming]
      unfold Cursor.skipCount
      by_cases hSemicolon : t.kind = .semicolon
      · rw [if_pos hSemicolon, if_pos hSemicolon]
        exact ⟨s, rfl, hStands⟩
      · rw [if_neg hSemicolon, if_neg hSemicolon]
        by_cases hStarts : u.kind.startsStatement
        · rw [if_pos hStarts, if_pos hStarts]
          exact ⟨s, rfl, hStands⟩
        · rw [if_neg hStarts, if_neg hStarts]
          rcases hStands.advance_eq hUpcoming with
            ⟨t', hAdvance, hNext, hHere⟩
          rw [Cursor.advance_eq_skip hUpcoming] at hNext
          have hRest : (c.skip 1).upcoming = rest := by
            simp [Cursor.skip, hUpcoming]
          have hLeft : t'.left < s.left := by
            rw [hNext.left, hStands.left, hRest, hUpcoming,
              List.length_cons]
            omega
          rcases ih hNext (Cursor.place_skip c 1) hHere hRest with
            ⟨s', hRun, hAfter⟩
          rw [Cursor.skip_skip, Nat.add_comm] at hAfter
          refine ⟨s', ?_, hAfter⟩
          rw [bind_of_ok hAdvance]
          simp only [pure, EStateM.pure, if_pos hLeft]
          exact hRun

/-
  Moving on after an error. Where nothing has been moved over
  there is still a token, unless there was none at all.
-/
theorem Stands.synchronize_eq
    (hStands : text.Stands c s) :
    ∃ s', synchronize s = .ok () s' ∧
      text.Stands c.synchronize s' := by
  have hLength := hStands.length
  cases hUpcoming : c.upcoming with
  | nil =>
      rw [hUpcoming, List.length_nil] at hLength
      have hPositive := List.length_pos_iff.mpr text.starts
      rcases Nat.exists_eq_succ_of_ne_zero
          (show c.place ≠ 0 by omega) with ⟨n, hPlace⟩
      have hInside : n < text.before.length := by omega
      have hBefore := List.getElem?_eq_getElem hInside
      have hEnd : c.atEnd = true := by
        simp [Cursor.atEnd, hUpcoming]
      have hAdvance := hStands.previous_eq hPlace hBefore
      rcases hStands.skip_eq hPlace hBefore hUpcoming with
        ⟨s', hRun, hAfter⟩
      refine ⟨s', ?_, ?_⟩
      · unfold Indexed.synchronize Indexed.advance
        rw [bind_assoc, bind_of_ok hStands.atEnd_eq, hEnd]
        simp only [if_true]
        rw [bind_of_ok hAdvance]
        exact hRun
      · simpa [Cursor.synchronize, Cursor.skipCount, hUpcoming]
          using hAfter
  | cons t rest =>
      rcases hStands.advance_eq hUpcoming with
        ⟨t', hAdvance, hNext, hHere⟩
      rw [Cursor.advance_eq_skip hUpcoming] at hNext
      have hRest : (c.skip 1).upcoming = rest := by
        simp [Cursor.skip, hUpcoming]
      rcases hNext.skip_eq (Cursor.place_skip c 1) hHere hRest with
        ⟨s', hRun, hAfter⟩
      refine ⟨s', ?_, ?_⟩
      · unfold Indexed.synchronize
        rw [bind_of_ok hAdvance]
        exact hRun
      · have hSame :
            c.synchronize =
              (c.skip 1).skip (Cursor.skipCount t rest) := by
          simp [Cursor.synchronize, Cursor.skip, hUpcoming]
        rw [hSame]
        exact hAfter

theorem Follows.recovering
    {x : Step α}
    {y : Reader α}
    (hStep : Follows x y) :
    Follows (recovering x) (Reader.recovering y) := by
  refine ⟨hStep.proceeds.recovering, ?_⟩
  intro text c s hStands
  have hAgrees := hStep.agrees hStands
  unfold Indexed.recovering Reader.recovering
  rcases hAgrees.ends with
    ⟨a, t, d, hRun, hRun', hNext⟩ |
      ⟨halt, t, d, hRun, hRun', hNext⟩
  · rw [hRun, hRun']
    exact ⟨rfl, hNext⟩
  · rw [hRun, hRun']
    cases halt with
    | tooDeep => exact ⟨rfl, hNext⟩
    | failed =>
        rcases hNext.synchronize_eq with
          ⟨s', hSkip, hAfter⟩
        simp only [hSkip]
        exact ⟨rfl, hAfter⟩

end Lox.Text
