import Lox.Grammar.Statement
import Lox.Proofs.Grammar.Derivation
import Lox.Proofs.Steps

/-
  What a reader does to its cursor.

  A reader only moves on and only adds errors, and it has
  recorded an error when it fails. `Reader.Reads` says of a
  reader that ends well, with no error recorded, what it has
  read; `Reader.Accepts` says that it reads some tokens before
  others without an error. Both are kept by sequencing, so the
  readers of the grammar are opened up one step at a time.

  Key definitions include:
    * `Cursor.skip`
    * `Cursor.Leads`
    * `Reader.Proceeds`
    * `Reader.Reads`
    * `Reader.Accepts`
    * `Reader.AcceptsBefore`
-/

------------------------------------------------------------
-- Moving On
------------------------------------------------------------

namespace Lox.Cursor

/- Moves over a number of tokens. -/
def skip (c : Cursor) (n : Nat) : Cursor :=
  { c with
    upcoming := c.upcoming.drop n
    place := c.place + n }

@[simp] theorem errors_skip (c : Cursor) (n : Nat) :
    (c.skip n).errors = c.errors := rfl

@[simp] theorem place_skip (c : Cursor) (n : Nat) :
    (c.skip n).place = c.place + n := rfl

@[simp] theorem last_skip (c : Cursor) (n : Nat) :
    (c.skip n).last = c.last := rfl

@[simp] theorem skip_zero (c : Cursor) : c.skip 0 = c := rfl

theorem skip_skip (c : Cursor) (m n : Nat) :
    (c.skip m).skip n = c.skip (m + n) := by
  simp [skip, Nat.add_assoc]

theorem upcoming_skip
    {c : Cursor}
    {tokens rest : List Token}
    (hUpcoming : c.upcoming = tokens ++ rest) :
    (c.skip tokens.length).upcoming = rest := by
  simp [skip, hUpcoming]

theorem advance_eq_skip
    {c : Cursor}
    {t : Token}
    {rest : List Token}
    (hUpcoming : c.upcoming = t :: rest) :
    c.advance = c.skip 1 := by
  simp [advance, skip, hUpcoming]

theorem errors_record
    (c : Cursor)
    (fault : GrammarFault)
    (token : Token)
    (place : Nat) :
    (c.record fault token place).errors.toList =
      c.errors.toList ++ [⟨fault, token, place⟩] := by
  simp [record]

/-
  A cursor leads to another one that has moved over some of
  the tokens and has recorded some more errors.
-/
def Leads (c d : Cursor) : Prop :=
  ∃ n ≤ c.upcoming.length, ∃ more : Array ParseError,
    d = { c.skip n with errors := c.errors ++ more }

namespace Leads

theorem refl (c : Cursor) : c.Leads c :=
  ⟨0, Nat.zero_le _, #[], by simp⟩

theorem skip
    {c : Cursor}
    {n : Nat}
    (hLength : n ≤ c.upcoming.length) :
    c.Leads (c.skip n) :=
  ⟨n, hLength, #[], by simp [Cursor.skip]⟩

theorem trans
    {c d e : Cursor}
    (hFirst : c.Leads d)
    (hSecond : d.Leads e) :
    c.Leads e := by
  rcases hFirst with ⟨m, hm, more, rfl⟩
  rcases hSecond with ⟨n, hn, others, rfl⟩
  refine ⟨m + n, ?_, more ++ others, ?_⟩
  · have hDrop : n ≤ (c.upcoming.drop m).length := hn
    rw [List.length_drop] at hDrop
    omega
  · simp [Cursor.skip, Nat.add_assoc]

theorem record
    (c : Cursor)
    (fault : GrammarFault)
    (token : Token)
    (place : Nat) :
    c.Leads (c.record fault token place) :=
  ⟨0, Nat.zero_le _, #[⟨fault, token, place⟩], by
    simp [Cursor.record]⟩

theorem size_errors_le
    {c d : Cursor}
    (hLeads : c.Leads d) :
    c.errors.size ≤ d.errors.size := by
  rcases hLeads with ⟨n, _, more, rfl⟩
  simp

/- Errors are only added, so their number tells of them. -/
theorem errors_eq
    {c d : Cursor}
    (hLeads : c.Leads d)
    (hSize : d.errors.size ≤ c.errors.size) :
    d.errors = c.errors := by
  rcases hLeads with ⟨n, _, more, rfl⟩
  have hMore : more = #[] := by
    apply Array.eq_empty_of_size_eq_zero
    simp only [Array.size_append] at hSize
    omega
  simp [hMore]

/- Without a new error a cursor has only moved. -/
theorem eq_skip
    {c d : Cursor}
    {tokens : List Token}
    (hLeads : c.Leads d)
    (hErrors : d.errors = c.errors)
    (hUpcoming : c.upcoming = tokens ++ d.upcoming) :
    d = c.skip tokens.length := by
  rcases hLeads with ⟨n, hn, more, rfl⟩
  have hLength : tokens.length = n := by
    have hSame := congrArg List.length hUpcoming
    simp only [Cursor.skip, List.length_append,
      List.length_drop] at hSame
    omega
  subst hLength
  simp only at hErrors
  simp [hErrors, Cursor.skip]

end Leads

theorem leads_synchronize (c : Cursor) :
    c.Leads c.synchronize := by
  unfold synchronize
  split
  · exact Leads.refl c
  · rename_i t rest hUpcoming
    have hSkip :
        ∀ (previous : Token) (others : List Token),
          skipCount previous others ≤ others.length := by
      intro previous others
      induction others generalizing previous with
      | nil => simp [skipCount]
      | cons u others ih =>
          unfold skipCount
          split
          · simp
          · split
            · simp
            · simpa using ih u
    refine ⟨1 + skipCount t rest, ?_, #[], ?_⟩
    · rw [hUpcoming, List.length_cons]
      have := hSkip t rest
      omega
    · simp [skip, hUpcoming, Nat.add_comm 1,
        Nat.add_assoc]

end Lox.Cursor

------------------------------------------------------------
-- How A Reader Ends
------------------------------------------------------------

namespace Lox.Reader

variable {α β : Type}

/-
  However a reader ends, it has moved on, and it has recorded
  an error where it fails.
-/
def Proceeds (reader : Reader α) : Prop :=
  ∀ c : Cursor,
    match reader c with
    | .ok _ d => c.Leads d
    | .error .failed d =>
        c.Leads d ∧ c.errors.size < d.errors.size
    | .error .tooDeep d => c.Leads d

theorem Proceeds.leads
    {reader : Reader α}
    (hReader : reader.Proceeds)
    {c d : Cursor}
    {a : α}
    (hRun : reader c = .ok a d) :
    c.Leads d := by
  have h := hReader c
  rwa [hRun] at h

theorem proceeds_pure (a : α) :
    (pure a : Reader α).Proceeds :=
  fun c => Cursor.Leads.refl c

theorem Proceeds.bind
    {x : Reader α}
    {f : α → Reader β}
    (hFirst : x.Proceeds)
    (hSecond : ∀ a, (f a).Proceeds) :
    (x >>= f).Proceeds := by
  intro c
  have h := hFirst c
  simp only [Bind.bind, EStateM.bind]
  cases hRun : x c with
  | ok a d =>
      rw [hRun] at h
      have hNext := hSecond a d
      simp only at h ⊢
      cases hEnd : f a d with
      | ok b e =>
          rw [hEnd] at hNext
          exact h.trans hNext
      | error halt e =>
          rw [hEnd] at hNext
          cases halt with
          | failed =>
              exact ⟨h.trans hNext.1,
                Nat.lt_of_le_of_lt h.size_errors_le hNext.2⟩
          | tooDeep => exact h.trans hNext
  | error halt d =>
      rw [hRun] at h
      cases halt <;> exact h

end Lox.Reader

------------------------------------------------------------
-- Steps That Proceed
------------------------------------------------------------

namespace Lox.Reader

variable {α β : Type}

theorem proceeds_fail (fault : GrammarFault) :
    (fail fault : Reader α).Proceeds := by
  intro c
  refine ⟨Cursor.Leads.record c fault c.current c.place, ?_⟩
  simp [Cursor.recordHere, Cursor.record]

theorem proceeds_tooDeep : (tooDeep : Reader α).Proceeds :=
  fun c => Cursor.Leads.refl c

theorem proceeds_noteAt
    (fault : GrammarFault)
    (token : Token)
    (place : Nat) :
    (noteAt fault token place).Proceeds :=
  fun c => Cursor.Leads.record c fault token place

theorem proceeds_note (fault : GrammarFault) :
    (note fault).Proceeds :=
  fun c => Cursor.Leads.record c fault c.current c.place

theorem proceeds_upcoming : upcoming.Proceeds :=
  fun c => Cursor.Leads.refl c

theorem proceeds_place : place.Proceeds :=
  fun c => Cursor.Leads.refl c

theorem proceeds_atEnd : atEnd.Proceeds :=
  fun c => Cursor.Leads.refl c

theorem proceeds_nextIs (kind : Kind) :
    (nextIs kind).Proceeds := by
  intro c
  cases hUpcoming : c.upcoming with
  | nil => simp [nextIs, hUpcoming, Cursor.Leads.refl]
  | cons t rest => simp [nextIs, hUpcoming, Cursor.Leads.refl]

theorem proceeds_accept (kinds : Kind → Bool) :
    (accept kinds).Proceeds := by
  intro c
  cases hUpcoming : c.upcoming with
  | nil => simp [accept, hUpcoming, Cursor.Leads.refl]
  | cons t rest =>
      by_cases hKind : kinds t.kind
      · have hLeads : c.Leads c.advance := by
          rw [Cursor.advance_eq_skip hUpcoming]
          exact Cursor.Leads.skip (by simp [hUpcoming])
        simpa [accept, hUpcoming, hKind] using hLeads
      · simp [accept, hUpcoming, hKind, Cursor.Leads.refl]

/- The token that is accepted is the one at the cursor. -/
theorem current_of_accept
    {kinds : Kind → Bool}
    {c d : Cursor}
    {t : Token}
    (hRun : accept kinds c = .ok (some t) d) :
    c.current = t := by
  unfold accept at hRun
  cases hUpcoming : c.upcoming with
  | nil =>
      rw [hUpcoming] at hRun
      cases hRun
  | cons u rest =>
      rw [hUpcoming] at hRun
      simp only at hRun
      split at hRun
      · injection hRun with hToken _
        simpa [Cursor.current, hUpcoming] using hToken
      · cases hRun

theorem proceeds_accepts (kind : Kind) :
    (accepts kind).Proceeds :=
  (proceeds_accept _).bind fun _ => proceeds_pure _

theorem Proceeds.ite
    {x y : Reader α}
    (hThen : x.Proceeds)
    (hElse : y.Proceeds)
    (b : Bool) :
    (if b then x else y).Proceeds := by
  cases b
  · exact hElse
  · exact hThen

theorem Proceeds.unlessNext
    {part : Reader α}
    (hPart : part.Proceeds)
    (kind : Kind)
    (absent : α) :
    (unlessNext kind absent part).Proceeds :=
  (proceeds_nextIs kind).bind
    ((proceeds_pure absent).ite hPart)

/- A reader that recovers does not fail. -/
theorem Proceeds.recovering
    {reader : Reader α}
    (hReader : reader.Proceeds) :
    (recovering reader).Proceeds := by
  intro c
  have h := hReader c
  unfold Reader.recovering
  cases hRun : reader c with
  | ok a d =>
      rw [hRun] at h
      exact h
  | error halt d =>
      rw [hRun] at h
      cases halt with
      | failed =>
          exact h.1.trans (Cursor.leads_synchronize d)
      | tooDeep => exact h

theorem Proceeds.itemsFrom
    {item : Reader α}
    (hItem : item.Proceeds)
    (tooMany : GrammarFault)
    (ticks : List Token)
    (count : Nat)
    (items : List α) :
    (itemsFrom item tooMany ticks count items).Proceeds := by
  induction ticks generalizing count items with
  | nil => exact proceeds_pure _
  | cons t ticks ih =>
      refine (proceeds_accepts .comma).bind ?_
      have hItems :
          ∀ _ : Unit,
            (item >>= fun x =>
              Reader.itemsFrom item tooMany ticks (count + 1)
                (x :: items)).Proceeds :=
        fun _ => hItem.bind fun x => ih _ _
      refine Proceeds.ite ?_ (proceeds_pure _)
      by_cases hMany : GrammarFault.maxArguments ≤ count
      · simpa [hMany] using (proceeds_note tooMany).bind hItems
      · simpa [hMany] using hItems ()

end Lox.Reader

------------------------------------------------------------
-- What A Reader Has Read
------------------------------------------------------------

namespace Lox.Reader

variable {α β : Type}

/-
  What is true of the tokens that a reader has moved over, its
  result, and the tokens after them, whenever it ends well
  with no new error.
-/
structure Reads
    (reader : Reader α)
    (Read : List Token → α → List Token → Prop) :
    Prop where
  proceeds : reader.Proceeds
  read :
    ∀ {c d : Cursor} {a : α},
      reader c = .ok a d →
        d.errors = c.errors →
          ∃ tokens,
            c.upcoming = tokens ++ d.upcoming ∧
              Read tokens a d.upcoming

variable {x : Reader α} {f : α → Reader β}
variable {P : List Token → α → List Token → Prop}
variable {Q : List Token → β → List Token → Prop}

theorem Reads.mono
    {P' : List Token → α → List Token → Prop}
    (hReader : x.Reads P)
    (hMono : ∀ {tokens a rest}, P tokens a rest → P' tokens a rest) :
    x.Reads P' := by
  refine ⟨hReader.proceeds, ?_⟩
  intro c d a hRun hErrors
  rcases hReader.read hRun hErrors with ⟨tokens, hTokens, hRead⟩
  exact ⟨tokens, hTokens, hMono hRead⟩

/-
  A sequence reads what its first step reads and then what its
  second step reads.
-/
theorem Reads.bind
    {S : α → List Token → β → List Token → Prop}
    (hFirst : x.Reads P)
    (hSecond : ∀ a, (f a).Reads (S a))
    (hBoth :
      ∀ {a b tokens others rest},
        P tokens a (others ++ rest) →
          S a others b rest →
            Q (tokens ++ others) b rest) :
    (x >>= f).Reads Q := by
  refine
    ⟨hFirst.proceeds.bind fun a => (hSecond a).proceeds, ?_⟩
  intro c e b hRun hErrors
  rcases bind_eq_ok_iff.mp hRun with ⟨a, d, hFirstRun, hSecondRun⟩
  have hLeads := hFirst.proceeds.leads hFirstRun
  have hNext := (hSecond a).proceeds.leads hSecondRun
  have hMiddle : d.errors = c.errors := by
    apply hLeads.errors_eq
    rw [← hErrors]
    exact hNext.size_errors_le
  rcases hFirst.read hFirstRun hMiddle with ⟨tokens, hTokens, hP⟩
  rcases
    (hSecond a).read hSecondRun (hErrors.trans hMiddle.symm) with
    ⟨others, hOthers, hS⟩
  rw [hOthers] at hTokens hP
  exact
    ⟨tokens ++ others, by simp [hTokens], hBoth hP hS⟩

theorem Proceeds.reads
    (hReader : x.Proceeds) :
    x.Reads fun _ _ _ => True := by
  refine ⟨hReader, ?_⟩
  intro c d a hRun _
  rcases hReader.leads hRun with ⟨n, _, more, rfl⟩
  exact ⟨c.upcoming.take n, by simp [Cursor.skip], trivial⟩

/- A step that cannot end well without an error. -/
theorem Reads.neverThen
    (hNever : x.Reads fun _ _ _ => False)
    (hNext : ∀ a, (f a).Proceeds) :
    (x >>= f).Reads Q :=
  hNever.bind (fun a => (hNext a).reads)
    fun hFalse _ => hFalse.elim

theorem reads_pure (a : α) :
    (pure a : Reader α).Reads fun tokens b _ =>
      tokens = [] ∧ b = a := by
  refine ⟨proceeds_pure a, ?_⟩
  intro c d b hRun _
  cases hRun
  exact ⟨[], rfl, rfl, rfl⟩

theorem reads_fail
    (fault : GrammarFault)
    (P : List Token → α → List Token → Prop) :
    (fail fault : Reader α).Reads P :=
  ⟨proceeds_fail fault, fun hRun => by cases hRun⟩

theorem reads_tooDeep
    (P : List Token → α → List Token → Prop) :
    (tooDeep : Reader α).Reads P :=
  ⟨proceeds_tooDeep, fun hRun => by cases hRun⟩

/- A note is an error, so nothing is read with one. -/
theorem reads_noteAt
    (fault : GrammarFault)
    (token : Token)
    (place : Nat)
    (P : List Token → Unit → List Token → Prop) :
    (noteAt fault token place).Reads P := by
  refine ⟨proceeds_noteAt fault token place, ?_⟩
  intro c d a hRun hErrors
  cases hRun
  simp [Cursor.record] at hErrors

theorem reads_note
    (fault : GrammarFault)
    (P : List Token → Unit → List Token → Prop) :
    (note fault).Reads P := by
  refine ⟨proceeds_note fault, ?_⟩
  intro c d a hRun hErrors
  cases hRun
  simp [Cursor.recordHere, Cursor.record] at hErrors

theorem reads_accept (kinds : Kind → Bool) :
    (accept kinds).Reads fun tokens found rest =>
      (found = none ∧ tokens = [] ∧
        ∀ t ∈ rest.head?, kinds t.kind = false) ∨
      ∃ t, found = some t ∧ tokens = [t] ∧ kinds t.kind := by
  refine ⟨proceeds_accept kinds, ?_⟩
  intro c d found hRun _
  cases hUpcoming : c.upcoming with
  | nil =>
      simp only [accept, hUpcoming] at hRun
      cases hRun
      exact ⟨[], by simp [hUpcoming],
        .inl ⟨rfl, rfl, by simp [hUpcoming]⟩⟩
  | cons t rest =>
      simp only [accept, hUpcoming] at hRun
      by_cases hKind : kinds t.kind
      · rw [if_pos hKind] at hRun
        cases hRun
        refine ⟨[t], ?_, .inr ⟨t, rfl, rfl, hKind⟩⟩
        simp [Cursor.advance, hUpcoming]
      · rw [if_neg hKind] at hRun
        cases hRun
        exact ⟨[], by simp [hUpcoming],
          .inl ⟨rfl, rfl, by simpa [hUpcoming] using hKind⟩⟩

theorem reads_accepts (kind : Kind) :
    (accepts kind).Reads fun tokens found rest =>
      (found = false ∧ tokens = [] ∧
        ∀ t ∈ rest.head?, t.kind ≠ kind) ∨
      ∃ t, found = true ∧ tokens = [t] ∧ t.kind = kind := by
  refine
    (reads_accept _).bind (fun found => reads_pure _) ?_
  rintro found b tokens others rest hFound ⟨rfl, rfl⟩
  rcases hFound with ⟨rfl, rfl, hNot⟩ | ⟨t, rfl, rfl, hKind⟩
  · exact .inl ⟨rfl, rfl, by simpa using hNot⟩
  · exact .inr ⟨t, rfl, rfl, by simpa using hKind⟩

theorem reads_expect (kind : Kind) (fault : GrammarFault) :
    (expect kind fault).Reads fun tokens t _ =>
      tokens = [t] ∧ t.kind = kind := by
  refine
    (reads_accept _).bind
      (S := fun found tokens t _ =>
        found = some t ∧ tokens = []) ?_ ?_
  · intro found
    cases found with
    | none => exact reads_fail fault _
    | some t =>
        refine (reads_pure t).mono ?_
        rintro tokens u rest ⟨rfl, rfl⟩
        exact ⟨rfl, rfl⟩
  · rintro found t tokens others rest hFound ⟨rfl, rfl⟩
    rcases hFound with ⟨hNone, _⟩ | ⟨u, hSome, rfl, hKind⟩
    · cases hNone
    · cases hSome
      exact ⟨rfl, by simpa using hKind⟩

theorem reads_nextIs (kind : Kind) :
    (nextIs kind).Reads fun tokens _ _ => tokens = [] := by
  refine ⟨proceeds_nextIs kind, ?_⟩
  intro c d found hRun _
  unfold nextIs at hRun
  split at hRun <;> cases hRun <;> exact ⟨[], rfl, rfl⟩

theorem reads_atEnd : atEnd.Reads fun tokens _ _ => tokens = [] := by
  refine ⟨proceeds_atEnd, ?_⟩
  intro c d found hRun _
  cases hRun
  exact ⟨[], rfl, rfl⟩

end Lox.Reader

------------------------------------------------------------
-- What Composed Readers Have Read
------------------------------------------------------------

namespace Lox.Reader

variable {α β : Type}
variable {x : Reader α}
variable {P : List Token → α → List Token → Prop}

/- A token that may be there tells how reading goes on. -/
theorem Reads.acceptThen
    {kinds : Kind → Bool}
    {f : Option Token → Reader α}
    (hNone : (f none).Reads P)
    (hSome :
      ∀ t, (f (some t)).Reads fun others a rest =>
        kinds t.kind → P (t :: others) a rest) :
    (accept kinds >>= f).Reads P := by
  refine
    (reads_accept kinds).bind
      (S := fun found others a rest =>
        found.elim (P others a rest)
          fun t => kinds t.kind → P (t :: others) a rest)
      ?_ ?_
  · intro found
    cases found with
    | none => exact hNone
    | some t => exact hSome t
  · intro found a tokens others rest hFound hRest
    rcases hFound with ⟨rfl, rfl, _⟩ | ⟨t, rfl, rfl, hKind⟩
    · exact hRest
    · exact hRest hKind

theorem Reads.acceptsThen
    {kind : Kind}
    {f : Bool → Reader α}
    (hFalse : (f false).Reads P)
    (hTrue :
      (f true).Reads fun others a rest =>
        ∀ t : Token, t.kind = kind → P (t :: others) a rest) :
    (accepts kind >>= f).Reads P := by
  refine
    (reads_accepts kind).bind
      (S := fun found others a rest =>
        match found with
        | false => P others a rest
        | true =>
            ∀ t : Token, t.kind = kind → P (t :: others) a rest)
      ?_ ?_
  · intro found
    cases found with
    | false => exact hFalse
    | true => exact hTrue
  · intro found a tokens others rest hFound hRest
    rcases hFound with ⟨rfl, rfl, _⟩ | ⟨t, rfl, rfl, hKind⟩
    · exact hRest
    · exact hRest t hKind

theorem Reads.map
    (hReader : x.Reads P)
    (f : α → β) :
    (f <$> x).Reads fun tokens b rest =>
      ∃ a, b = f a ∧ P tokens a rest := by
  rw [← bind_pure_comp]
  refine hReader.bind (fun a => reads_pure (f a)) ?_
  rintro a b tokens others rest hRead ⟨rfl, rfl⟩
  exact ⟨a, rfl, by simpa using hRead⟩

/- A token that has to be there, and then the rest. -/
theorem Reads.expectThen
    (hReader : x.Reads P)
    (kind : Kind)
    (fault : GrammarFault) :
    (expect kind fault >>= fun _ => x).Reads fun tokens a rest =>
      ∃ t others,
        tokens = t :: others ∧ t.kind = kind ∧
          P others a rest := by
  refine (reads_expect kind fault).bind (fun _ => hReader) ?_
  rintro t a _ others rest ⟨rfl, hKind⟩ hRead
  exact ⟨t, others, rfl, hKind, hRead⟩

/- A part, a token that has to follow it, and then the rest. -/
theorem Reads.thenExpect
    {f : α → Reader β}
    {S : α → List Token → β → List Token → Prop}
    (hReader : x.Reads P)
    (hNext : ∀ a, (f a).Reads (S a))
    (kind : Kind)
    (fault : GrammarFault) :
    (x >>= fun a => expect kind fault >>= fun _ => f a).Reads
      fun tokens b rest =>
        ∃ a part t others,
          tokens = part ++ t :: others ∧ t.kind = kind ∧
            P part a (t :: (others ++ rest)) ∧
              S a others b rest := by
  refine
    hReader.bind (fun a => (hNext a).expectThen kind fault) ?_
  rintro a b part _ rest hRead ⟨t, others, rfl, hKind, hMore⟩
  exact ⟨a, part, t, others, rfl, hKind, hRead, hMore⟩

/- A part and a last token that has to follow it. -/
theorem Reads.closed
    (hReader : x.Reads P)
    (g : α → β)
    (kind : Kind)
    (fault : GrammarFault) :
    (x >>= fun a =>
      expect kind fault >>= fun _ => pure (g a)).Reads
      fun tokens b rest =>
        ∃ a part t,
          tokens = part ++ [t] ∧ t.kind = kind ∧ b = g a ∧
            P part a (t :: rest) := by
  refine
    (hReader.thenExpect (fun a => reads_pure (g a)) kind
      fault).mono ?_
  rintro tokens b rest
    ⟨a, part, t, _, rfl, hKind, hRead, rfl, rfl⟩
  exact ⟨a, part, t, rfl, hKind, rfl, hRead⟩

/- Looking at the tokens does not move over them. -/
theorem Reads.afterUpcoming
    {f : List Token → Reader α}
    (hReader : ∀ ticks, (f ticks).Reads P) :
    (upcoming >>= f).Reads P := by
  refine
    ⟨proceeds_upcoming.bind fun t => (hReader t).proceeds, ?_⟩
  intro c d a hRun hErrors
  exact (hReader c.upcoming).read hRun hErrors

theorem Reads.afterPlace
    {f : Nat → Reader α}
    (hReader : ∀ place, (f place).Reads P) :
    (place >>= f).Reads P := by
  refine
    ⟨proceeds_place.bind fun t => (hReader t).proceeds, ?_⟩
  intro c d a hRun hErrors
  exact (hReader c.place).read hRun hErrors

theorem Reads.unlessNext
    (hPart : x.Reads P)
    (kind : Kind)
    (absent : α) :
    (unlessNext kind absent x).Reads fun tokens a rest =>
      (a = absent ∧ tokens = []) ∨ P tokens a rest := by
  refine ⟨hPart.proceeds.unlessNext kind absent, ?_⟩
  intro c e a hRun hErrors
  rcases bind_eq_ok_iff.mp hRun with ⟨found, d, hNext, hRest⟩
  have hSame : d = c := by
    unfold nextIs at hNext
    split at hNext <;> cases hNext <;> rfl
  subst hSame
  cases found with
  | true =>
      cases hRest
      exact ⟨[], rfl, .inl ⟨rfl, rfl⟩⟩
  | false =>
      rcases hPart.read hRest hErrors with ⟨tokens, hTokens, hRead⟩
      exact ⟨tokens, hTokens, .inr hRead⟩

theorem Reads.optionalAfter
    (hPart : x.Reads P)
    (kind : Kind) :
    (optionalAfter kind x).Reads fun tokens found rest =>
      (found = none ∧ tokens = [] ∧
        ∀ t ∈ rest.head?, t.kind ≠ kind) ∨
      ∃ t others a,
        found = some a ∧ tokens = t :: others ∧
          t.kind = kind ∧ P others a rest := by
  refine
    (reads_accepts kind).bind
      (S := fun found tokens result rest =>
        (found = false ∧ result = none ∧ tokens = []) ∨
        ∃ a, found = true ∧ result = some a ∧ P tokens a rest)
      ?_ ?_
  · intro found
    cases found with
    | false =>
        refine (reads_pure none).mono ?_
        rintro tokens a rest ⟨rfl, rfl⟩
        exact .inl ⟨rfl, rfl, rfl⟩
    | true =>
        refine (hPart.map some).mono ?_
        rintro tokens b rest ⟨a, rfl, hRead⟩
        exact .inr ⟨a, rfl, rfl, hRead⟩
  · rintro found result tokens others rest hFound hResult
    rcases hFound with ⟨rfl, rfl, hNot⟩ | ⟨t, rfl, rfl, hKind⟩
    · rcases hResult with ⟨_, rfl, rfl⟩ | ⟨a, hTrue, _⟩
      · exact .inl ⟨rfl, rfl, hNot⟩
      · cases hTrue
    · rcases hResult with ⟨hFalse, _⟩ | ⟨a, _, rfl, hRead⟩
      · cases hFalse
      · exact .inr ⟨t, others, a, rfl, rfl, hKind, hRead⟩

/- A reader that recovers gives something only without error. -/
theorem Reads.recovering
    (hReader : x.Reads P) :
    (recovering x).Reads fun tokens found rest =>
      ∃ a, found = some a ∧ P tokens a rest := by
  refine ⟨hReader.proceeds.recovering, ?_⟩
  intro c e found hRun hErrors
  unfold Reader.recovering at hRun
  have hProceeds := hReader.proceeds c
  cases hFirst : x c with
  | ok a d =>
      rw [hFirst] at hRun
      cases hRun
      rcases hReader.read hFirst hErrors with
        ⟨tokens, hTokens, hRead⟩
      exact ⟨tokens, hTokens, a, rfl, hRead⟩
  | error halt d =>
      rw [hFirst] at hRun hProceeds
      cases halt with
      | failed =>
          cases hRun
          have hMore :=
            (Cursor.leads_synchronize d).size_errors_le
          rw [hErrors] at hMore
          exact absurd hMore (Nat.not_le.mpr hProceeds.2)
      | tooDeep => cases hRun

/- The further items of a list, each after a comma. -/
inductive CommasAfter (Item : List Token → α → Prop) :
    List Token → List α → Prop
  | none : CommasAfter Item [] []
  | some
      {comma : Token}
      {tokens : List Token}
      {as : List α}
      (hComma : comma.kind = .comma)
      (hItems : Commas Item tokens as) :
      CommasAfter Item (comma :: tokens) as

theorem CommasAfter.commas
    {Item : List Token → α → Prop}
    {tokens others : List Token}
    {a : α}
    {as : List α}
    (hMore : CommasAfter Item others as)
    (hItem : Item tokens a) :
    Commas Item (tokens ++ others) (a :: as) := by
  cases hMore with
  | none => simpa using Commas.last hItem
  | some hComma hItems => exact .more hItem hComma hItems

theorem Reads.itemsFrom
    {Item : List Token → α → Prop}
    (hItem : x.Reads fun tokens a _ => Item tokens a)
    (tooMany : GrammarFault)
    (ticks : List Token)
    (count : Nat)
    (items : List α)
    (hCount : count ≤ GrammarFault.maxArguments) :
    (itemsFrom x tooMany ticks count items).Reads
      fun tokens as _ =>
        ∃ more,
          as = items.reverse ++ more ∧
          count + more.length ≤ GrammarFault.maxArguments ∧
          CommasAfter Item tokens more := by
  induction ticks generalizing count items with
  | nil =>
      refine (reads_pure _).mono ?_
      rintro tokens as rest ⟨rfl, rfl⟩
      exact ⟨[], by simp, by simpa using hCount, .none⟩
  | cons t ticks ih =>
      refine Reads.acceptsThen ?_ ?_
      · refine (reads_pure _).mono ?_
        rintro tokens as rest ⟨rfl, rfl⟩
        exact ⟨[], by simp, by simpa using hCount, .none⟩
      · by_cases hMany : GrammarFault.maxArguments ≤ count
        · simp only [if_true, if_pos hMany]
          exact
            (reads_note tooMany _).neverThen fun _ =>
              hItem.proceeds.bind fun a =>
                hItem.proceeds.itemsFrom tooMany ticks _ _
        · simp only [if_true, if_neg hMany]
          refine
            hItem.bind
              (fun a => ih (count + 1) (a :: items) (by omega))
              ?_
          rintro a as tokens others rest hRead
            ⟨more, rfl, hMore, hTail⟩ comma hComma
          refine
            ⟨a :: more, by simp, ?_,
              .some hComma (hTail.commas hRead)⟩
          simp only [List.length_cons]
          omega

theorem Reads.items
    {Item : List Token → α → Prop}
    (hItem : x.Reads fun tokens a _ => Item tokens a)
    (tooMany : GrammarFault) :
    (items x tooMany).Reads fun tokens as _ =>
      Commas Item tokens as ∧
        as.length ≤ GrammarFault.maxArguments := by
  refine Reads.afterUpcoming fun ticks => ?_
  refine
    hItem.bind
      (fun first =>
        hItem.itemsFrom tooMany ticks 1 [first] (by decide)) ?_
  rintro first as tokens others rest hRead
    ⟨more, rfl, hMore, hTail⟩
  exact
    ⟨hTail.commas hRead, by simpa [Nat.add_comm] using hMore⟩

end Lox.Reader

------------------------------------------------------------
-- What A Reader Accepts
------------------------------------------------------------

namespace Lox.Reader

variable {α β : Type}

/-
  The reader moves over the tokens where the rest follows
  them, and gives the result with no new error.
-/
def Accepts
    (reader : Reader α)
    (tokens : List Token)
    (a : α)
    (rest : List Token) :
    Prop :=
  ∀ c : Cursor, c.upcoming = tokens ++ rest →
    reader c = .ok a (c.skip tokens.length)

/-
  The reader accepts the tokens whatever follows them, if only
  the token right after them is one to stop at.
-/
def AcceptsBefore
    (Stops : Token → Prop)
    (reader : Reader α)
    (tokens : List Token)
    (a : α) :
    Prop :=
  ∀ rest : List Token,
    (∀ t ∈ rest.head?, Stops t) → reader.Accepts tokens a rest

variable {x : Reader α} {f : α → Reader β}
variable {tokens others rest : List Token} {a : α} {b : β}

theorem Accepts.bind
    (hFirst : x.Accepts tokens a (others ++ rest))
    (hSecond : (f a).Accepts others b rest) :
    (x >>= f).Accepts (tokens ++ others) b rest := by
  intro c hUpcoming
  rw [List.append_assoc] at hUpcoming
  rw [bind_of_ok (hFirst c hUpcoming),
    hSecond _ (Cursor.upcoming_skip hUpcoming),
    Cursor.skip_skip, List.length_append]

/- A step that reads nothing. -/
theorem Accepts.bindNil
    (hFirst : x.Accepts [] a (tokens ++ rest))
    (hSecond : (f a).Accepts tokens b rest) :
    (x >>= f).Accepts tokens b rest :=
  hFirst.bind hSecond

/- A step that reads one token. -/
theorem Accepts.bindOne
    {t : Token}
    (hFirst : x.Accepts [t] a (tokens ++ rest))
    (hSecond : (f a).Accepts tokens b rest) :
    (x >>= f).Accepts (t :: tokens) b rest :=
  hFirst.bind hSecond

/- A last step that reads nothing. -/
theorem Accepts.bindLast
    (hFirst : x.Accepts tokens a rest)
    (hSecond : (f a).Accepts [] b rest) :
    (x >>= f).Accepts tokens b rest := by
  simpa using Accepts.bind (f := f) hFirst hSecond

theorem accepts_pure (a : α) (rest : List Token) :
    (pure a : Reader α).Accepts [] a rest :=
  fun _ _ => rfl

theorem Accepts.map
    (hReader : x.Accepts tokens a rest)
    (f : α → β) :
    (f <$> x).Accepts tokens (f a) rest := by
  rw [← bind_pure_comp]
  exact hReader.bindLast (accepts_pure _ _)

theorem accept_some
    {kinds : Kind → Bool}
    {t : Token}
    (hKind : kinds t.kind)
    (rest : List Token) :
    (accept kinds).Accepts [t] (some t) rest := by
  intro c hUpcoming
  have hHead : c.upcoming = t :: rest := hUpcoming
  simp [accept, hHead, hKind, Cursor.advance_eq_skip hHead]

theorem accept_none
    {kinds : Kind → Bool}
    {rest : List Token}
    (hKind : ∀ t ∈ rest.head?, kinds t.kind = false) :
    (accept kinds).Accepts [] none rest := by
  intro c hUpcoming
  have hRest : c.upcoming = rest := hUpcoming
  cases rest with
  | nil => simp [accept, hRest]
  | cons t rest =>
      have hNot : kinds t.kind = false := hKind t (by simp)
      simp [accept, hRest, hNot]

theorem accepts_true
    {kind : Kind}
    {t : Token}
    (hKind : t.kind = kind)
    (rest : List Token) :
    (accepts kind).Accepts [t] true rest :=
  (accept_some (by simpa using hKind) rest).bindLast
    (accepts_pure _ _)

theorem accepts_false
    {kind : Kind}
    {rest : List Token}
    (hKind : ∀ t ∈ rest.head?, t.kind ≠ kind) :
    (accepts kind).Accepts [] false rest :=
  (accept_none (by simpa using hKind)).bindLast
    (accepts_pure _ _)

theorem accepts_expect
    {kind : Kind}
    {t : Token}
    (hKind : t.kind = kind)
    (fault : GrammarFault)
    (rest : List Token) :
    (expect kind fault).Accepts [t] t rest :=
  (accept_some (by simpa using hKind) rest).bindLast
    (accepts_pure _ _)

theorem Accepts.expectThen
    {kind : Kind}
    {t : Token}
    (hReader : x.Accepts tokens a rest)
    (hKind : t.kind = kind)
    (fault : GrammarFault) :
    (expect kind fault >>= fun _ => x).Accepts (t :: tokens) a
      rest :=
  (accepts_expect hKind fault _).bindOne hReader

theorem Accepts.thenExpect
    {kind : Kind}
    {t : Token}
    (hReader : x.Accepts tokens a (t :: (others ++ rest)))
    (hNext : (f a).Accepts others b rest)
    (hKind : t.kind = kind)
    (fault : GrammarFault) :
    (x >>= fun a => expect kind fault >>= fun _ => f a).Accepts
      (tokens ++ t :: others) b rest :=
  hReader.bind (hNext.expectThen hKind fault)

theorem Accepts.closed
    {kind : Kind}
    {t : Token}
    (hReader : x.Accepts tokens a (t :: rest))
    (g : α → β)
    (hKind : t.kind = kind)
    (fault : GrammarFault) :
    (x >>= fun a =>
      expect kind fault >>= fun _ => pure (g a)).Accepts
      (tokens ++ [t]) (g a) rest :=
  Accepts.thenExpect (f := fun a => pure (g a)) hReader
    (accepts_pure (g a) rest) hKind fault

theorem nextIs_true
    {kind : Kind}
    {t : Token}
    (hKind : t.kind = kind)
    (rest : List Token) :
    (nextIs kind).Accepts [] true (t :: rest) := by
  intro c hUpcoming
  have hRest : c.upcoming = t :: rest := hUpcoming
  simp [nextIs, hRest, hKind]

theorem nextIs_false
    {kind : Kind}
    {rest : List Token}
    (hKind : ∀ t ∈ rest.head?, t.kind ≠ kind) :
    (nextIs kind).Accepts [] false rest := by
  intro c hUpcoming
  have hRest : c.upcoming = rest := hUpcoming
  cases rest with
  | nil => simp [nextIs, hRest]
  | cons t rest =>
      have hNot : t.kind ≠ kind := hKind t (by simp)
      simp [nextIs, hRest, hNot]

theorem atEnd_false
    {tokens : List Token}
    (hTokens : tokens ≠ []) :
    atEnd.Accepts [] false tokens := by
  intro c hUpcoming
  have hRest : c.upcoming = tokens := hUpcoming
  simp [atEnd, Cursor.atEnd, hRest, hTokens]

theorem accepts_absent
    {kind : Kind}
    {t : Token}
    (hKind : t.kind = kind)
    (absent : α)
    (part : Reader α)
    (rest : List Token) :
    (unlessNext kind absent part).Accepts [] absent
      (t :: rest) :=
  (nextIs_true hKind rest).bindNil (accepts_pure _ _)

theorem Accepts.unlessNext
    {kind : Kind}
    (hPart : x.Accepts tokens a rest)
    (hKind : ∀ t ∈ (tokens ++ rest).head?, t.kind ≠ kind)
    (absent : α) :
    (unlessNext kind absent x).Accepts tokens a rest :=
  (nextIs_false hKind).bindNil hPart

theorem accepts_none
    {kind : Kind}
    {rest : List Token}
    (hKind : ∀ t ∈ rest.head?, t.kind ≠ kind)
    (part : Reader α) :
    (optionalAfter kind part).Accepts [] none rest :=
  (accepts_false hKind).bindNil (accepts_pure _ _)

theorem Accepts.optionalAfter
    {kind : Kind}
    {t : Token}
    (hPart : x.Accepts tokens a rest)
    (hKind : t.kind = kind) :
    (optionalAfter kind x).Accepts (t :: tokens) (some a) rest :=
  (accepts_true hKind _).bindOne (hPart.map some)

theorem Accepts.recovering
    (hReader : x.Accepts tokens a rest) :
    (recovering x).Accepts tokens (some a) rest := by
  intro c hUpcoming
  simp [Reader.recovering, hReader c hUpcoming]

/- Looking at the tokens sees those to read and the rest. -/
theorem Accepts.afterUpcoming
    {f : List Token → Reader β}
    (hReader : (f (tokens ++ rest)).Accepts tokens b rest) :
    (upcoming >>= f).Accepts tokens b rest := by
  intro c hUpcoming
  rw [bind_of_ok (show upcoming c = .ok c.upcoming c from rfl),
    hUpcoming]
  exact hReader c hUpcoming

theorem Accepts.afterPlace
    {f : Nat → Reader β}
    (hReader : ∀ place, (f place).Accepts tokens b rest) :
    (place >>= f).Accepts tokens b rest :=
  fun c hUpcoming => hReader c.place c hUpcoming

/-
  There are as many ticks as tokens, so that they do not run
  out before the items do.
-/
theorem accepts_itemsFrom
    {Stops : Token → Prop}
    (hStops : ∀ t : Token, t.kind = .comma → Stops t)
    {tooMany : GrammarFault}
    {as : List α}
    (hItems : Commas (x.AcceptsBefore Stops) tokens as)
    (ticks : List Token)
    (items : List α)
    (hTicks : (tokens ++ rest).length ≤ ticks.length)
    (hCount :
      items.length + as.length ≤ GrammarFault.maxArguments)
    (hRest : ∀ t ∈ rest.head?, Stops t ∧ t.kind ≠ .comma) :
    (x >>= fun a =>
      itemsFrom x tooMany ticks (items.length + 1)
        (a :: items)).Accepts tokens (items.reverse ++ as)
        rest := by
  induction hItems generalizing ticks items with
  | @last tokens a hItem =>
      refine
        (hItem rest fun t ht => (hRest t ht).1).bindLast ?_
      rw [show items.reverse ++ [a] = (a :: items).reverse by simp]
      cases ticks with
      | nil => exact accepts_pure _ _
      | cons tick ticks =>
          exact
            (accepts_false fun t ht => (hRest t ht).2).bindNil
              (accepts_pure _ _)
  | @more comma tokens others a as hItem hComma hMore ih =>
      have hFew :
          ¬ GrammarFault.maxArguments ≤ items.length + 1 := by
        have hLength := hMore.length_pos
        simp only [List.length_cons] at hCount
        omega
      simp only [List.length_append, List.length_cons] at hTicks
      refine
        Accepts.bind
          (hItem _ fun t ht => by
            have hHead : t = comma := by simpa using ht.symm
            exact hStops t (hHead ▸ hComma)) ?_
      cases ticks with
      | nil => simp at hTicks
      | cons tick ticks =>
          refine (accepts_true hComma _).bindOne ?_
          have hOthers :=
            ih ticks (a :: items)
              (by
                simp only [List.length_append,
                  List.length_cons] at hTicks ⊢
                omega)
              (by
                simp only [List.length_cons] at hCount ⊢
                omega)
          simpa [hFew] using hOthers

theorem accepts_items
    {Stops : Token → Prop}
    (hStops : ∀ t : Token, t.kind = .comma → Stops t)
    {tooMany : GrammarFault}
    {as : List α}
    (hItems : Commas (x.AcceptsBefore Stops) tokens as)
    (hCount : as.length ≤ GrammarFault.maxArguments)
    (hRest : ∀ t ∈ rest.head?, Stops t ∧ t.kind ≠ .comma) :
    (items x tooMany).Accepts tokens as rest :=
  Accepts.afterUpcoming
    (accepts_itemsFrom hStops hItems (tokens ++ rest) []
      (Nat.le_refl _) (by simpa using hCount) hRest)

end Lox.Reader
