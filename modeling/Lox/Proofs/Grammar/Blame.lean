import Mathlib.Data.List.Perm.Subperm
import Lox.Proofs.Grammar.Past

/-
  No token is blamed twice by errors that stop reading.

  An error that stops reading blames the token at the cursor.
  Whoever recovers from it first moves over that token, unless
  it is the end token, and only then reads on. So the cursor
  has always passed the tokens that such errors blame, except
  between an error and the recovery from it, however many
  declarations are given up in between.

  Key definitions include:
    * `fatalErrors`
    * `ComesBefore`
    * `Cursor.Charted`
    * `Cursor.Clear`
    * `Cursor.Stopped`
    * `Reader.KeepsClear`
    * `fatal_errors_in_order`
-/

------------------------------------------------------------
-- Errors And Places
------------------------------------------------------------

namespace Lox

/- The errors of a list at which reading stops. -/
def fatalErrors (errors : List ParseError) : List ParseError :=
  errors.filter (·.fault.isFatal)

/- The wordings of the errors after which reading goes on. -/
def GrammarFault.keptMessages : List String :=
  [ "Invalid assignment target.",
    "Can't have more than 255 arguments.",
    "Can't have more than 255 parameters." ]

theorem GrammarFault.isFatal_iff_message (fault : GrammarFault) :
    fault.isFatal = true ↔ fault.message ∉ keptMessages := by
  cases fault <;> decide

theorem mem_fatalErrors
    {errors : List ParseError}
    {e : ParseError} :
    e ∈ fatalErrors errors ↔
      e ∈ errors ∧ e.fault.isFatal = true :=
  List.mem_filter

/-
  A place comes before another one, or both are the place of
  the end token, which is never moved over.
-/
def ComesBefore (tokens : List Token) (p q : Nat) : Prop :=
  p < q ∨ p = q ∧ q = (Cursor.ofTokens tokens).upcoming.length

theorem ComesBefore.le
    {tokens : List Token}
    {p q : Nat}
    (hBefore : ComesBefore tokens p q) :
    p ≤ q := by
  rcases hBefore with hLess | ⟨hSame, _⟩ <;> omega

/- Places that follow are no further than the end token. -/
theorem ComesBefore.trans_le
    {tokens : List Token}
    {p q r : Nat}
    (hBefore : ComesBefore tokens p q)
    (hLe : q ≤ r)
    (hEnd : r ≤ (Cursor.ofTokens tokens).upcoming.length) :
    ComesBefore tokens p r := by
  rcases hBefore with hLess | ⟨hSame, hLast⟩
  · exact .inl (by omega)
  · exact .inr ⟨by omega, by omega⟩

end Lox

------------------------------------------------------------
-- Cursors And Their Errors
------------------------------------------------------------

namespace Lox.Cursor

/-
  A cursor that has come from the first token. Its errors
  blame the tokens at their places, and each of those that
  stop reading a later token than those before it.
-/
structure Charted (tokens : List Token) (c : Cursor) : Prop where
  leads : (ofTokens tokens).Leads c
  blamed :
    ∀ e ∈ c.errors.toList,
      (Indexed.closed tokens)[e.place]? = some e.token
  ordered :
    (fatalErrors c.errors.toList).Pairwise fun e f =>
      ComesBefore tokens e.place f.place

/- The cursor has passed what such errors blame. -/
structure Clear (tokens : List Token) (c : Cursor) : Prop
    extends Charted tokens c where
  passed :
    ∀ e ∈ fatalErrors c.errors.toList,
      ComesBefore tokens e.place c.place

/- The cursor may still stand at what such an error blames. -/
structure Stopped (tokens : List Token) (c : Cursor) : Prop
    extends Charted tokens c where
  reached :
    ∀ e ∈ fatalErrors c.errors.toList, e.place ≤ c.place

variable {tokens : List Token} {c d : Cursor}

theorem Leads.place_add_length
    (hLeads : c.Leads d) :
    d.place + d.upcoming.length = c.place + c.upcoming.length := by
  rcases hLeads with ⟨n, hLength, more, rfl⟩
  show c.place + n + (c.upcoming.drop n).length = _
  rw [List.length_drop]
  omega

theorem Leads.place_le (hLeads : c.Leads d) :
    c.place ≤ d.place := by
  rcases hLeads with ⟨n, _, more, rfl⟩
  simp

theorem Charted.place_add_length (hCharted : c.Charted tokens) :
    c.place + c.upcoming.length =
      (ofTokens tokens).upcoming.length := by
  have hAdd := hCharted.leads.place_add_length
  have hStart : (ofTokens tokens).place = 0 := rfl
  omega

/- The token at the cursor stands at the place of the cursor. -/
theorem Charted.getElem?_current (hCharted : c.Charted tokens) :
    (Indexed.closed tokens)[c.place]? = some c.current := by
  rcases Indexed.closed_eq tokens with ⟨after, hClosed⟩
  rcases hCharted.leads with ⟨n, hLength, more, rfl⟩
  have hPlace : (ofTokens tokens).place + n = n := Nat.zero_add n
  simp only [skip, current]
  rw [hClosed, hPlace, ← List.head?_drop,
    List.drop_append_of_le_length hLength]
  cases (ofTokens tokens).upcoming.drop n <;> rfl

theorem clear_ofTokens (tokens : List Token) :
    (ofTokens tokens).Clear tokens where
  leads := .refl _
  blamed := by simp [ofTokens]
  ordered := by simp [ofTokens, fatalErrors]
  passed := by simp [ofTokens, fatalErrors]

/- Moving on is all that a cursor without new errors does. -/
theorem Clear.moved
    (hClear : c.Clear tokens)
    (hLeads : c.Leads d)
    (hErrors : d.errors = c.errors) :
    d.Clear tokens := by
  have hStart := hClear.leads.trans hLeads
  have hEnd := hStart.place_add_length
  have hPlace : (ofTokens tokens).place = 0 := rfl
  refine
    { leads := hStart
      blamed := hErrors ▸ hClear.blamed
      ordered := hErrors ▸ hClear.ordered
      passed := ?_ }
  intro e hMem
  rw [hErrors] at hMem
  exact
    (hClear.passed e hMem).trans_le hLeads.place_le (by omega)

end Lox.Cursor

------------------------------------------------------------
-- Recording Errors
------------------------------------------------------------

namespace Lox.Cursor

variable {tokens : List Token} {c : Cursor}
variable {fault : GrammarFault}

theorem fatalErrors_record_kept
    (hKept : fault.isFatal = false)
    (token : Token)
    (place : Nat) :
    fatalErrors (c.record fault token place).errors.toList =
      fatalErrors c.errors.toList := by
  simp [errors_record, fatalErrors, hKept]

theorem fatalErrors_record_fatal
    (hFatal : fault.isFatal = true)
    (token : Token)
    (place : Nat) :
    fatalErrors (c.record fault token place).errors.toList =
      fatalErrors c.errors.toList ++ [⟨fault, token, place⟩] := by
  simp [errors_record, fatalErrors, hFatal]

theorem Charted.blamed_record
    (hCharted : c.Charted tokens)
    {token : Token}
    {place : Nat}
    (hToken : (Indexed.closed tokens)[place]? = some token) :
    ∀ e ∈ (c.record fault token place).errors.toList,
      (Indexed.closed tokens)[e.place]? = some e.token := by
  intro e hMem
  rw [errors_record, List.mem_append, List.mem_singleton] at hMem
  rcases hMem with hMem | rfl
  · exact hCharted.blamed e hMem
  · exact hToken

/- An error after which reading goes on, at any place. -/
theorem Clear.record_kept
    (hClear : c.Clear tokens)
    (hKept : fault.isFatal = false)
    {token : Token}
    {place : Nat}
    (hToken : (Indexed.closed tokens)[place]? = some token) :
    (c.record fault token place).Clear tokens := by
  have hFatal := fatalErrors_record_kept (c := c) hKept token place
  exact
    { leads := hClear.leads.trans (.record c fault token place)
      blamed := hClear.blamed_record hToken
      ordered := by rw [hFatal]; exact hClear.ordered
      passed := by rw [hFatal]; exact hClear.passed }

/-
  An error at the cursor that stops reading: the errors before
  it blame tokens that the cursor has passed.
-/
theorem Clear.record_fatal
    (hClear : c.Clear tokens)
    (hFatal : fault.isFatal = true) :
    (c.recordHere fault).Stopped tokens := by
  have hErrors :
      fatalErrors (c.recordHere fault).errors.toList =
        fatalErrors c.errors.toList ++
          [⟨fault, c.current, c.place⟩] :=
    fatalErrors_record_fatal hFatal _ _
  refine
    { leads := hClear.leads.trans (.record c fault _ _)
      blamed := hClear.blamed_record hClear.getElem?_current
      ordered := ?_
      reached := ?_ }
  · rw [hErrors, List.pairwise_append]
    refine ⟨hClear.ordered, List.pairwise_singleton _ _, ?_⟩
    intro e hMem f hLast
    rw [List.mem_singleton] at hLast
    subst hLast
    exact hClear.passed e hMem
  · intro e hMem
    rw [hErrors, List.mem_append, List.mem_singleton] at hMem
    rcases hMem with hMem | rfl
    · exact (hClear.passed e hMem).le
    · exact Nat.le_refl c.place

/-
  Recovery moves over the token at the cursor, if there is one
  before the end.
-/
theorem Stopped.synchronize (hStopped : c.Stopped tokens) :
    c.synchronize.Clear tokens := by
  have hLeads := leads_synchronize c
  have hErrors : c.synchronize.errors = c.errors := by
    unfold Cursor.synchronize
    split <;> rfl
  refine
    { leads := hStopped.leads.trans hLeads
      blamed := hErrors ▸ hStopped.blamed
      ordered := hErrors ▸ hStopped.ordered
      passed := ?_ }
  intro e hMem
  rw [hErrors] at hMem
  have hReached := hStopped.reached e hMem
  cases hUpcoming : c.upcoming with
  | nil =>
      have hEnd := hStopped.place_add_length
      have hStays : c.synchronize = c := by
        simp [Cursor.synchronize, hUpcoming]
      rw [hUpcoming, List.length_nil] at hEnd
      rw [hStays]
      rcases Nat.lt_or_eq_of_le hReached with hLess | hSame
      · exact .inl hLess
      · exact .inr ⟨hSame, hEnd⟩
  | cons t rest =>
      have hPlace : c.place < c.synchronize.place := by
        simp only [Cursor.synchronize, hUpcoming]
        omega
      exact .inl (Nat.lt_of_le_of_lt hReached hPlace)

end Lox.Cursor

------------------------------------------------------------
-- Readers
------------------------------------------------------------

namespace Lox.Reader

variable {α β : Type} {tokens : List Token}

/-
  What a clear cursor comes to: it stays clear, or it stops at
  an error.
-/
def ClearResult (tokens : List Token) :
    EStateM.Result Halt Cursor α → Prop
  | .ok _ d => d.Clear tokens
  | .error .failed d => d.Stopped tokens
  | .error .tooDeep d => d.Clear tokens

/- The reader keeps every cursor clear, unless it stops. -/
def KeepsClear (tokens : List Token) (reader : Reader α) : Prop :=
  ∀ c : Cursor, c.Clear tokens → ClearResult tokens (reader c)

theorem KeepsClear.bind
    {step : Reader α}
    {next : α → Reader β}
    (hStep : step.KeepsClear tokens)
    (hNext : ∀ a, (next a).KeepsClear tokens) :
    (step >>= next).KeepsClear tokens := by
  intro c hClear
  have hFirst := hStep c hClear
  cases hRun : step c with
  | ok a d =>
      rw [hRun] at hFirst
      rw [bind_of_ok hRun]
      exact hNext a d hFirst
  | error halt d =>
      rw [hRun] at hFirst
      rw [bind_of_error hRun]
      cases halt <;> exact hFirst

theorem keepsClear_accept (kinds : Kind → Bool) :
    (accept kinds).KeepsClear tokens := by
  intro c hClear
  unfold accept
  cases hUpcoming : c.upcoming with
  | nil => exact hClear
  | cons t rest =>
      simp only
      split
      · have hLeads : c.Leads c.advance := by
          rw [Cursor.advance_eq_skip hUpcoming]
          exact .skip (by simp [hUpcoming])
        refine hClear.moved hLeads ?_
        simp [Cursor.advance, hUpcoming]
      · exact hClear

/-
  An invalid target is blamed on its equals sign, which was
  passed before the value; reading does not stop there.
-/
theorem keepsClear_valueFor
    {value : Reader Expr}
    (hValue : value.KeepsClear tokens)
    (target : Expr) :
    (Grammar.valueFor value target).KeepsClear tokens := by
  intro c hClear
  have hSign :
      ClearResult tokens (accept (· = .equal) c) :=
    keepsClear_accept (· = .equal) c hClear
  show ClearResult tokens ((accept (· = .equal) >>= _) c)
  cases hRun : accept (· = .equal) c with
  | error halt d =>
      rw [hRun] at hSign
      rw [bind_of_error hRun]
      cases halt <;> exact hSign
  | ok found d =>
      rw [hRun] at hSign
      rw [bind_of_ok hRun]
      cases found with
      | none => exact hSign
      | some equals =>
          have hToken := hClear.getElem?_current
          rw [current_of_accept hRun] at hToken
          apply KeepsClear.bind hValue _ d hSign
          intro result e hClearE
          have hNoted :
              ClearResult tokens
                ((noteAt .invalidTarget equals c.place >>=
                  fun _ => (pure target : Reader Expr)) e) :=
            hClearE.record_kept rfl hToken
          cases target with
          | «variable» name hops => exact hClearE
          | _ => exact hNoted

theorem KeepsClear.recovering
    {reader : Reader α}
    (hReader : reader.KeepsClear tokens) :
    (recovering reader).KeepsClear tokens := by
  intro c hClear
  have hFirst := hReader c hClear
  unfold Reader.recovering
  cases hRun : reader c with
  | ok a d =>
      rw [hRun] at hFirst
      exact hFirst
  | error halt d =>
      rw [hRun] at hFirst
      cases halt with
      | failed => exact hFirst.synchronize
      | tooDeep => exact hFirst

theorem composes_keepsClear :
    ComposesStatements fun _ reader =>
      reader.KeepsClear tokens where
  pure _ := fun _ hClear => hClear
  fail hFatal := fun _ hClear => hClear.record_fatal hFatal
  tooDeep := fun _ hClear => hClear
  note hKept := fun _ hClear =>
    hClear.record_kept hKept hClear.getElem?_current
  upcoming := fun _ hClear => hClear
  nextIs kind := by
    intro c hClear
    unfold nextIs
    split <;> exact hClear
  accept _ := keepsClear_accept _
  bind := KeepsClear.bind
  valueFor := keepsClear_valueFor
  acceptAny := keepsClear_accept
  atEnd := fun _ hClear => hClear
  recovering := KeepsClear.recovering

end Lox.Reader

------------------------------------------------------------
-- Programs
------------------------------------------------------------

namespace Lox

open Grammar

/-
  What is true of the errors of a clear cursor, and stays true
  of the errors alone.
-/
structure Orderly
    (tokens : List Token)
    (errors : List ParseError) :
    Prop where
  blamed :
    ∀ e ∈ errors,
      (Indexed.closed tokens)[e.place]? = some e.token
  ordered :
    (fatalErrors errors).Pairwise fun e f =>
      ComesBefore tokens e.place f.place
  inside :
    ∀ e ∈ fatalErrors errors,
      e.place ≤ (Cursor.ofTokens tokens).upcoming.length

variable {tokens : List Token}

theorem Cursor.Clear.orderly
    {c : Cursor}
    (hClear : c.Clear tokens) :
    Orderly tokens c.errors.toList where
  blamed := hClear.blamed
  ordered := hClear.ordered
  inside := by
    intro e hMem
    have hPlace := (hClear.passed e hMem).le
    have hEnd := hClear.place_add_length
    omega

/-
  Declarations are read from a clear cursor to a clear cursor,
  by induction on the ticks.
-/
theorem orderly_programFrom
    (nesting : Nat)
    {c : Cursor}
    (hClear : c.Clear tokens)
    (ticks : List Token)
    (program : List Stmt) :
    Orderly tokens
      (programFrom (declaration nesting) ticks program c).errors := by
  induction ticks generalizing c program with
  | nil => exact hClear.orderly
  | cons tick ticks ih =>
      unfold programFrom
      split
      · exact hClear.orderly
      · have hDeclaration :=
          (Reader.composes_keepsClear.statements nesting).1 c hClear
        cases hRun : declaration nesting c with
        | ok found d =>
            rw [hRun] at hDeclaration
            cases found with
            | none => exact ih hDeclaration program
            | some stmt => exact ih hDeclaration (stmt :: program)
        | error halt d =>
            rw [hRun] at hDeclaration
            cases halt with
            | failed =>
                exact absurd hRun (Text.declaration_recovers nesting)
            | tooDeep =>
                have hStopped :
                    (d.recordHere .nestingTooDeep).Stopped tokens :=
                  Cursor.Clear.record_fatal hDeclaration rfl
                exact ih hStopped.synchronize program

theorem orderly_parse
    (limits : Limits)
    (tokens : List Token) :
    Orderly tokens (parse limits tokens).errors :=
  orderly_programFrom limits.nesting
    (Cursor.clear_ofTokens tokens) _ []

end Lox

------------------------------------------------------------
-- Tokens Blamed Once
------------------------------------------------------------

namespace Lox

variable {tokens : List Token} {errors : List ParseError}
variable {e : ParseError}

/- The token at the place of the end token is of kind `eof`. -/
theorem Orderly.kind_eq_eof
    (hOrderly : Orderly tokens errors)
    (hMem : e ∈ errors)
    (hPlace : e.place = (Cursor.ofTokens tokens).upcoming.length) :
    e.token.kind = .eof := by
  have hToken := hOrderly.blamed e hMem
  rcases Indexed.closed_eq tokens with ⟨after, hClosed⟩
  rw [hClosed, hPlace, List.getElem?_append_right (Nat.le_refl _),
    Nat.sub_self, List.getElem?_cons_zero] at hToken
  injection hToken with hSame
  exact hSame ▸ Indexed.kind_last tokens

theorem Orderly.place_lt
    (hOrderly : Orderly tokens errors)
    (hMem : e ∈ fatalErrors errors)
    (hKind : e.token.kind ≠ .eof) :
    e.place < (Cursor.ofTokens tokens).upcoming.length := by
  have hInside := hOrderly.inside e hMem
  have hOther :
      e.place ≠ (Cursor.ofTokens tokens).upcoming.length := by
    intro hPlace
    exact
      hKind
        (hOrderly.kind_eq_eof (mem_fatalErrors.mp hMem).1 hPlace)
  omega

theorem Orderly.places_le (hOrderly : Orderly tokens errors) :
    (fatalErrors errors).Pairwise fun e f => e.place ≤ f.place :=
  hOrderly.ordered.imp ComesBefore.le

theorem Orderly.blamed_once (hOrderly : Orderly tokens errors) :
    (fatalErrors errors).Pairwise fun e f =>
      e.place = f.place → e.token.kind = .eof := by
  refine hOrderly.ordered.imp_of_mem ?_
  intro e f hMem _ hBefore hSame
  apply hOrderly.kind_eq_eof (mem_fatalErrors.mp hMem).1
  rcases hBefore with hLess | ⟨_, hEnd⟩
  · omega
  · omega

/- Different places of tokens are no more than the tokens. -/
theorem Orderly.length_le (hOrderly : Orderly tokens errors) :
    ((fatalErrors errors).filter (·.token.kind ≠ .eof)).length ≤
      tokens.length := by
  let proper := (fatalErrors errors).filter (·.token.kind ≠ .eof)
  have hKind :
      ∀ e ∈ proper,
        e ∈ fatalErrors errors ∧ e.token.kind ≠ .eof := by
    intro e hMem
    simpa [proper] using hMem
  have hNodup : (proper.map (·.place)).Nodup := by
    rw [List.nodup_iff_pairwise_ne, List.pairwise_map]
    have hOnce := hOrderly.blamed_once.filter (·.token.kind ≠ .eof)
    refine hOnce.imp_of_mem ?_
    intro e f hMem _ hSame hPlace
    exact (hKind e hMem).2 (hSame hPlace)
  have hRange :
      proper.map (·.place) ⊆
        List.range (Cursor.ofTokens tokens).upcoming.length := by
    intro place hMem
    rcases List.mem_map.mp hMem with ⟨e, hMemE, rfl⟩
    rw [List.mem_range]
    exact hOrderly.place_lt (hKind e hMemE).1 (hKind e hMemE).2
  have hText :
      (Cursor.ofTokens tokens).upcoming.length ≤ tokens.length :=
    (List.takeWhile_prefix _).length_le
  have hLength := (List.subperm_of_subset hNodup hRange).length_le
  rw [List.length_map, List.length_range] at hLength
  exact hLength.trans hText

/-
  Whatever the tokens are, every error blames the token at its
  place. Those errors that stop reading, which are all but
  three by their wording, blame tokens in the order of the
  list, and none blames a token that another one blames,
  unless it is the end token. So there are at most as many of
  them as tokens, besides those at the end token.
-/
theorem fatal_errors_in_order
    (limits : Limits)
    (tokens : List Token) :
    let errors := (parse limits tokens).errors
    let fatal :=
      errors.filter (·.message ∉ GrammarFault.keptMessages)
    (∀ e ∈ errors,
        (Indexed.closed tokens)[e.place]? = some e.token) ∧
      (fatal.Pairwise fun e f => e.place ≤ f.place) ∧
      (fatal.Pairwise fun e f =>
        e.place = f.place → e.token.kind = .eof) ∧
      (fatal.filter (·.token.kind ≠ .eof)).length ≤
        tokens.length := by
  intro errors fatal
  have hOrderly : Orderly tokens errors :=
    orderly_parse limits tokens
  have hFatal : fatal = fatalErrors errors := by
    apply List.filter_congr
    intro e _
    have hIff := e.fault.isFatal_iff_message
    simp only [ParseError.message, ← hIff, Bool.decide_eq_true]
  rw [hFatal]
  exact
    ⟨hOrderly.blamed, hOrderly.places_le, hOrderly.blamed_once,
      hOrderly.length_le⟩

/- Only the end token is blamed for more than one statement. -/
example :
    (parse .standard
        [ ⟨.leftBrace, "\x7b", .nil, 1, 0⟩,
          ⟨.printKw, "print", .nil, 1, 2⟩ ]).errors.map
      (fun e => (e.fault, e.place)) =
        [(.expectExpression, 2), (.expectBlockEnd, 2)] := by
  rfl

end Lox
