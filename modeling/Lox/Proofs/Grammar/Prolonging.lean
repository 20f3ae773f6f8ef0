import Lox.Proofs.Grammar.Recognition

/-
  Reading a text that goes on.

  What is read without an error is read in the same way where
  more tokens follow, unless the reader came to the end of its
  tokens: there it may have stopped only because of the end.
  A declaration has a last token of its own, so it is read in
  the same way up to the end too, but for an `else` that could
  belong to it. So a program and another one after it are read
  as one.

  Key definitions include:
    * `Reader.Advances`
    * `Reader.PersistsFrom`
    * `Reader.Persists`
    * `parse_append`
-/

------------------------------------------------------------
-- Readers That Need A Token
------------------------------------------------------------

namespace Lox.Cursor.Leads

theorem length_le
    {c d : Cursor}
    (hLeads : c.Leads d) :
    d.upcoming.length ≤ c.upcoming.length := by
  rcases hLeads with ⟨n, _, more, hCursor⟩
  simp [hCursor, Cursor.skip]

/- At the end a cursor stays there. -/
theorem upcoming_eq_nil
    {c d : Cursor}
    (hLeads : c.Leads d)
    (hUpcoming : c.upcoming = []) :
    d.upcoming = [] := by
  have hLength := hLeads.length_le
  rw [hUpcoming] at hLength
  exact List.eq_nil_of_length_eq_zero (Nat.le_zero.mp hLength)

/- Without a new error in the end there was none on the way. -/
theorem errors_between
    {c d e : Cursor}
    (hFirst : c.Leads d)
    (hSecond : d.Leads e)
    (hErrors : e.errors = c.errors) :
    d.errors = c.errors := by
  apply hFirst.errors_eq
  rw [← hErrors]
  exact hSecond.size_errors_le

end Lox.Cursor.Leads

namespace Lox.Reader

variable {α β : Type} {x : Reader α} {f : α → Reader β}

/- The reader ends well only where it has read something. -/
def Advances (x : Reader α) : Prop :=
  ∀ {c d : Cursor} {a : α},
    x c = .ok a d → d.errors = c.errors →
      d.upcoming.length < c.upcoming.length

theorem Reads.advances
    {P : List Token → α → List Token → Prop}
    (hReads : x.Reads P)
    (hTokens : ∀ {tokens a rest}, P tokens a rest → tokens ≠ []) :
    x.Advances := by
  intro c d a hRun hErrors
  rcases hReads.read hRun hErrors with ⟨tokens, hUpcoming, hRead⟩
  have hSome := List.length_pos_iff.mpr (hTokens hRead)
  rw [hUpcoming, List.length_append]
  omega

theorem advances_expect (kind : Kind) (fault : GrammarFault) :
    (expect kind fault).Advances := by
  apply (reads_expect kind fault).advances
  intro tokens t rest hRead
  rw [hRead.1]
  exact List.cons_ne_nil t []

theorem Advances.bind
    (hFirst : x.Advances)
    (hProceeds : x.Proceeds)
    (hNext : ∀ a, (f a).Proceeds) :
    (x >>= f).Advances := by
  intro c e b hRun hErrors
  rcases bind_eq_ok_iff.mp hRun with ⟨a, d, hRunFirst, hRunNext⟩
  have hLeads := hProceeds.leads hRunFirst
  have hAfter := (hNext a).leads hRunNext
  have hMiddle := hLeads.errors_between hAfter hErrors
  have hLess := hFirst hRunFirst hMiddle
  have hLength := hAfter.length_le
  omega

theorem Advances.after
    (hProceeds : x.Proceeds)
    (hNext : ∀ a, (f a).Advances)
    (hAfter : ∀ a, (f a).Proceeds) :
    (x >>= f).Advances := by
  intro c e b hRun hErrors
  rcases bind_eq_ok_iff.mp hRun with ⟨a, d, hRunFirst, hRunNext⟩
  have hLeads := hProceeds.leads hRunFirst
  have hMiddle :=
    hLeads.errors_between ((hAfter a).leads hRunNext) hErrors
  have hLess := hNext a hRunNext (hErrors.trans hMiddle.symm)
  have hLength := hLeads.length_le
  omega

end Lox.Reader

------------------------------------------------------------
-- Readers That Persist
------------------------------------------------------------

namespace Lox.Reader

variable {α β : Type}

/-
  Where one reader ends well, with no new error, another one
  ends in the same way with more tokens after the same ones.
  It is loose if that may fail where the first one has come to
  its end.
-/
structure PersistsFrom
    (more : List Token)
    (loose : Prop)
    (c : Cursor)
    (x x' : Reader α) :
    Prop where
  ends :
    ∀ {c' d : Cursor} {a : α},
      c'.upcoming = c.upcoming ++ more →
      x c = .ok a d →
      d.errors = c.errors →
        (loose ∧ d.upcoming = []) ∨
          ∃ d',
            x' c' = .ok a d' ∧
            d'.upcoming = d.upcoming ++ more ∧
            d'.errors = c'.errors

/- This holds wherever the reader is. -/
structure Persists
    (more : List Token)
    (loose : Prop)
    (x x' : Reader α) :
    Prop where
  proceeds : x.Proceeds
  persists : ∀ c, PersistsFrom more loose c x x'

variable {more : List Token} {loose : Prop} {c : Cursor}
variable {x x' : Reader α} {f f' : α → Reader β}

/- Where no token is left, a loose reader may do anything. -/
theorem PersistsFrom.atEnd
    (hProceeds : x.Proceeds)
    (hUpcoming : c.upcoming = []) :
    PersistsFrom more True c x x' := by
  constructor
  intro c' d a _ hRun _
  have hLeads := hProceeds.leads hRun
  exact .inl ⟨trivial, hLeads.upcoming_eq_nil hUpcoming⟩

theorem PersistsFrom.bind
    (hProceeds : x.Proceeds)
    (hAfter : ∀ a, (f a).Proceeds)
    (hFirst : PersistsFrom more loose c x x')
    (hNext :
      ∀ a d, x c = .ok a d → d.errors = c.errors →
        PersistsFrom more loose d (f a) (f' a)) :
    PersistsFrom more loose c (x >>= f) (x' >>= f') := by
  constructor
  intro c' e b hUpcoming hRun hErrors
  rcases bind_eq_ok_iff.mp hRun with ⟨a, d, hRunFirst, hRunNext⟩
  have hLeads := (hAfter a).leads hRunNext
  have hMiddle :=
    (hProceeds.leads hRunFirst).errors_between hLeads hErrors
  rcases hFirst.ends hUpcoming hRunFirst hMiddle with hEnd | hSame
  · exact .inl ⟨hEnd.1, hLeads.upcoming_eq_nil hEnd.2⟩
  · rcases hSame with ⟨d', hRun', hUpcoming', hErrors'⟩
    rw [bind_of_ok hRun', ← hErrors']
    exact
      (hNext a d hRunFirst hMiddle).ends hUpcoming' hRunNext
        (hErrors.trans hMiddle.symm)

/-
  What needs a token makes up for a step before it that may
  have come to the end.
-/
theorem PersistsFrom.bindClosed
    (hFirst : PersistsFrom more True c x x')
    (hProceeds : x.Proceeds)
    (hNext : ∀ a, Persists more False (f a) (f' a))
    (hAdvances : ∀ a, (f a).Advances) :
    PersistsFrom more False c (x >>= f) (x' >>= f') := by
  constructor
  intro c' e b hUpcoming hRun hErrors
  rcases bind_eq_ok_iff.mp hRun with ⟨a, d, hRunFirst, hRunNext⟩
  have hMiddle :=
    (hProceeds.leads hRunFirst).errors_between
      ((hNext a).proceeds.leads hRunNext) hErrors
  have hLast := hErrors.trans hMiddle.symm
  rcases hFirst.ends hUpcoming hRunFirst hMiddle with
    hEnd | hSame
  · have hLess := hAdvances a hRunNext hLast
    rw [hEnd.2] at hLess
    exact absurd hLess (Nat.not_lt_zero _)
  · rcases hSame with ⟨d', hRun', hUpcoming', hErrors'⟩
    rw [bind_of_ok hRun', ← hErrors']
    exact ((hNext a).persists d).ends hUpcoming' hRunNext hLast

namespace Persists

theorem loosen
    (hPersists : Persists more False x x') :
    Persists more loose x x' := by
  refine ⟨hPersists.proceeds, fun c => ⟨?_⟩⟩
  intro c' d a hUpcoming hRun hErrors
  rcases (hPersists.persists c).ends hUpcoming hRun hErrors with
    hNever | hSame
  · exact hNever.1.elim
  · exact .inr hSame

theorem bind
    (hFirst : Persists more loose x x')
    (hNext : ∀ a, Persists more loose (f a) (f' a)) :
    Persists more loose (x >>= f) (x' >>= f') := by
  have hAfter : ∀ a, (f a).Proceeds :=
    fun a => (hNext a).proceeds
  refine ⟨hFirst.proceeds.bind hAfter, ?_⟩
  intro c
  apply PersistsFrom.bind hFirst.proceeds hAfter
  · exact hFirst.persists c
  · intro a d _ _
    exact (hNext a).persists d

theorem bindClosed
    (hFirst : Persists more True x x')
    (hNext : ∀ a, Persists more False (f a) (f' a))
    (hAdvances : ∀ a, (f a).Advances) :
    Persists more False (x >>= f) (x' >>= f') := by
  refine
    ⟨hFirst.proceeds.bind fun a => (hNext a).proceeds, ?_⟩
  intro c
  exact
    (hFirst.persists c).bindClosed hFirst.proceeds hNext hAdvances

theorem recovering
    (hPersists : Persists more loose x x') :
    Persists more loose (recovering x) (recovering x') := by
  refine ⟨hPersists.proceeds.recovering, fun c => ⟨?_⟩⟩
  intro c' e found hUpcoming hRun hErrors
  have hProceeds := hPersists.proceeds c
  unfold Reader.recovering at hRun ⊢
  cases hFirst : x c with
  | ok a d =>
      rw [hFirst] at hRun
      cases hRun
      rcases (hPersists.persists c).ends hUpcoming hFirst hErrors
        with hEnd | hSame
      · exact .inl hEnd
      · rcases hSame with ⟨d', hRun', hRest⟩
        exact .inr ⟨d', by rw [hRun'], hRest⟩
  | error halt d =>
      rw [hFirst] at hRun hProceeds
      cases halt with
      | failed =>
          cases hRun
          have hMore :=
            (Cursor.leads_synchronize d).size_errors_le
          rw [hErrors] at hMore
          exact absurd hMore (Nat.not_le.mpr hProceeds.2)
      | tooDeep => cases hRun

end Persists

end Lox.Reader

------------------------------------------------------------
-- Steps That Persist
------------------------------------------------------------

namespace Lox.Reader

variable {α β : Type}
variable {more : List Token} {loose : Prop} {c : Cursor}
variable {x x' : Reader α}

theorem persists_pure (a : α) :
    Persists more loose (pure a : Reader α) (pure a) := by
  refine ⟨proceeds_pure a, fun c => ⟨?_⟩⟩
  intro c' d b hUpcoming hRun _
  cases hRun
  exact .inr ⟨c', rfl, hUpcoming, rfl⟩

/- A reader that never ends well without an error. -/
theorem Reads.persists
    (hNever : x.Reads fun _ _ _ => False)
    (x' : Reader α) :
    Persists more loose x x' := by
  refine ⟨hNever.proceeds, fun c => ⟨?_⟩⟩
  intro c' d a _ hRun hErrors
  rcases hNever.read hRun hErrors with ⟨_, _, hFalse⟩
  exact hFalse.elim

/- The token at the cursor tells how reading goes on. -/
theorem PersistsFrom.acceptThen
    {kinds : Kind → Bool}
    {f f' : Option Token → Reader α}
    (hProceeds : (f none).Proceeds)
    (hEnd : loose ∨ (f none).Advances)
    (hNone : PersistsFrom more loose c (f none) (f' none))
    (hSome :
      ∀ t rest, c.upcoming = t :: rest →
        PersistsFrom more loose c.advance (f (some t))
          (f' (some t))) :
    PersistsFrom more loose c (accept kinds >>= f)
      (accept kinds >>= f') := by
  constructor
  intro c' e a hUpcoming hRun hErrors
  cases hTokens : c.upcoming with
  | nil =>
      have hAccept : accept kinds c = .ok none c := by
        simp only [accept, hTokens]
      rw [bind_of_ok hAccept] at hRun
      have hLeads := hProceeds.leads hRun
      rcases hEnd with hLoose | hAdvances
      · exact .inl ⟨hLoose, hLeads.upcoming_eq_nil hTokens⟩
      · have hLess := hAdvances hRun hErrors
        rw [hTokens] at hLess
        exact absurd hLess (Nat.not_lt_zero _)
  | cons t rest =>
      have hTokens' : c'.upcoming = t :: (rest ++ more) := by
        rw [hUpcoming, hTokens, List.cons_append]
      by_cases hKind : kinds t.kind = true
      · have hAccept :
            ∀ {b : Cursor} {others : List Token},
              b.upcoming = t :: others →
                accept kinds b = .ok (some t) b.advance := by
          intro b others hHere
          simp only [accept, hHere, hKind, if_true]
        have hAdvance :
            ∀ {b : Cursor} {others : List Token},
              b.upcoming = t :: others →
                b.advance.upcoming = others ∧
                  b.advance.errors = b.errors := by
          intro b others hHere
          simp only [Cursor.advance, hHere, and_self]
        rcases hAdvance hTokens with ⟨hRest, hSame⟩
        rcases hAdvance hTokens' with ⟨hRest', hSame'⟩
        rw [bind_of_ok (hAccept hTokens)] at hRun
        rw [bind_of_ok (hAccept hTokens'), ← hSame']
        rw [← hSame] at hErrors
        exact
          (hSome t rest hTokens).ends (by rw [hRest', hRest])
            hRun hErrors
      · have hAccept :
            ∀ {b : Cursor} {others : List Token},
              b.upcoming = t :: others →
                accept kinds b = .ok none b := by
          intro b others hHere
          simp only [accept, hHere, if_neg hKind]
        rw [bind_of_ok (hAccept hTokens)] at hRun
        rw [bind_of_ok (hAccept hTokens')]
        exact hNone.ends hUpcoming hRun hErrors

theorem PersistsFrom.acceptsThen
    {kind : Kind}
    {f f' : Bool → Reader α}
    (hProceeds : (f false).Proceeds)
    (hEnd : loose ∨ (f false).Advances)
    (hFalse : PersistsFrom more loose c (f false) (f' false))
    (hTrue :
      ∀ t rest, c.upcoming = t :: rest →
        PersistsFrom more loose c.advance (f true) (f' true)) :
    PersistsFrom more loose c (accepts kind >>= f)
      (accepts kind >>= f') := by
  unfold accepts
  simp only [bind_assoc, pure_bind]
  exact .acceptThen hProceeds hEnd hFalse hTrue

theorem Persists.acceptThen
    {kinds : Kind → Bool}
    {f f' : Option Token → Reader α}
    (hNone : Persists more loose (f none) (f' none))
    (hEnd : loose ∨ (f none).Advances)
    (hSome :
      ∀ t, Persists more loose (f (some t)) (f' (some t))) :
    Persists more loose (accept kinds >>= f)
      (accept kinds >>= f') := by
  constructor
  · apply (proceeds_accept kinds).bind
    intro found
    cases found with
    | none => exact hNone.proceeds
    | some t => exact (hSome t).proceeds
  · intro c
    apply PersistsFrom.acceptThen hNone.proceeds hEnd
    · exact hNone.persists c
    · intro t rest _
      exact (hSome t).persists c.advance

theorem Persists.acceptsThen
    {kind : Kind}
    {f f' : Bool → Reader α}
    (hFalse : Persists more loose (f false) (f' false))
    (hEnd : loose ∨ (f false).Advances)
    (hTrue : Persists more loose (f true) (f' true)) :
    Persists more loose (accepts kind >>= f)
      (accepts kind >>= f') := by
  unfold accepts
  simp only [bind_assoc, pure_bind]
  exact .acceptThen hFalse hEnd fun _ => hTrue

/- What is not there is not there with more tokens either. -/
theorem persists_accepts
    {kind : Kind}
    (hMore : loose ∨ ∀ t ∈ more.head?, t.kind ≠ kind) :
    Persists more loose (accepts kind) (accepts kind) := by
  refine ⟨proceeds_accepts kind, fun c => ⟨?_⟩⟩
  intro c' d found hUpcoming hRun hErrors
  rcases (reads_accepts kind).read hRun hErrors with
    ⟨tokens, hTokens, hAbsent | hThere⟩
  · rcases hAbsent with ⟨hFound, hNone, hRest⟩
    rw [hNone, List.nil_append] at hTokens
    rw [hTokens] at hUpcoming
    have hStays :
        (∀ t ∈ c'.upcoming.head?, t.kind ≠ kind) →
          ∃ d',
            accepts kind c' = .ok found d' ∧
            d'.upcoming = d.upcoming ++ more ∧
            d'.errors = c'.errors := by
      intro hNext
      rw [hFound]
      exact ⟨c', accepts_false hNext c' rfl, hUpcoming, rfl⟩
    cases hLeft : d.upcoming with
    | nil =>
        rw [hLeft] at hUpcoming hStays
        rcases hMore with hLoose | hMore
        · exact .inl ⟨hLoose, rfl⟩
        · exact .inr (hStays (hUpcoming ▸ hMore))
    | cons first others =>
        rw [hLeft] at hUpcoming hStays hRest
        refine .inr (hStays ?_)
        rw [hUpcoming]
        exact hRest
  · rcases hThere with ⟨t, hFound, hOne, hKind⟩
    rw [hOne] at hTokens
    rw [hTokens, List.append_assoc] at hUpcoming
    rw [hFound]
    refine .inr ⟨_, accepts_true hKind _ c' hUpcoming, ?_, rfl⟩
    exact Cursor.upcoming_skip hUpcoming

theorem persists_nextIs (kind : Kind) :
    Persists more True (nextIs kind) (nextIs kind) := by
  refine ⟨proceeds_nextIs kind, fun c => ⟨?_⟩⟩
  intro c' d found hUpcoming hRun _
  cases hTokens : c.upcoming with
  | nil =>
      have hLeads := (proceeds_nextIs kind).leads hRun
      exact .inl ⟨trivial, hLeads.upcoming_eq_nil hTokens⟩
  | cons t rest =>
      rw [hTokens, List.cons_append] at hUpcoming
      simp only [nextIs, hTokens] at hRun
      cases hRun
      refine .inr ⟨c', ?_, ?_, rfl⟩
      · simp only [nextIs, hUpcoming]
      · rw [hUpcoming, hTokens, List.cons_append]

theorem persists_atEnd : Persists more True atEnd atEnd := by
  refine ⟨proceeds_atEnd, fun c => ⟨?_⟩⟩
  intro c' d found hUpcoming hRun _
  cases hTokens : c.upcoming with
  | nil =>
      have hLeads := proceeds_atEnd.leads hRun
      exact .inl ⟨trivial, hLeads.upcoming_eq_nil hTokens⟩
  | cons t rest =>
      rw [hTokens, List.cons_append] at hUpcoming
      cases hRun
      refine .inr ⟨c', ?_, ?_, rfl⟩
      · simp only [atEnd, Cursor.atEnd, hUpcoming, hTokens,
          List.isEmpty_cons]
      · rw [hUpcoming, hTokens, List.cons_append]

theorem persists_expect (kind : Kind) (fault : GrammarFault) :
    Persists more loose (expect kind fault)
      (expect kind fault) := by
  refine ⟨(reads_expect kind fault).proceeds, fun c => ⟨?_⟩⟩
  intro c' d t hUpcoming hRun hErrors
  rcases (reads_expect kind fault).read hRun hErrors with
    ⟨tokens, hTokens, hSame, hKind⟩
  rw [hSame] at hTokens
  rw [hTokens, List.append_assoc] at hUpcoming
  refine .inr ⟨_, accepts_expect hKind fault _ c' hUpcoming, ?_, rfl⟩
  exact Cursor.upcoming_skip hUpcoming

end Lox.Reader

------------------------------------------------------------
-- Parts That Persist
------------------------------------------------------------

namespace Lox.Reader

variable {α β σ : Type}
variable {more : List Token} {loose : Prop} {c : Cursor}
variable {x x' : Reader α} {f f' : α → Reader β}

namespace Persists

theorem map
    (hPersists : Persists more loose x x')
    (g : α → β) :
    Persists more loose (g <$> x) (g <$> x') := by
  rw [← bind_pure_comp, ← bind_pure_comp]
  exact hPersists.bind fun a => persists_pure (g a)

theorem expectThen
    (hPersists : Persists more loose x x')
    (kind : Kind)
    (fault : GrammarFault) :
    Persists more loose (expect kind fault >>= fun _ => x)
      (expect kind fault >>= fun _ => x') :=
  (persists_expect kind fault).bind fun _ => hPersists

/- A token that has to be there ends the part before it. -/
theorem thenExpect
    (hFirst : Persists more True x x')
    (hNext : ∀ a, Persists more False (f a) (f' a))
    (kind : Kind)
    (fault : GrammarFault) :
    Persists more False
      (x >>= fun a => expect kind fault >>= fun _ => f a)
      (x' >>= fun a => expect kind fault >>= fun _ => f' a) := by
  apply hFirst.bindClosed
  · intro a
    exact (hNext a).expectThen kind fault
  · intro a
    exact
      Advances.bind (advances_expect kind fault)
        (reads_expect kind fault).proceeds
        fun _ => (hNext a).proceeds

theorem unlessNext
    (hPart : Persists more True x x')
    (kind : Kind)
    (absent : α) :
    Persists more True (unlessNext kind absent x)
      (unlessNext kind absent x') := by
  apply (persists_nextIs kind).bind
  intro found
  cases found with
  | false => exact hPart
  | true => exact persists_pure absent

theorem optionalAfter
    (hPart : Persists more loose x x')
    {kind : Kind}
    (hMore : loose ∨ ∀ t ∈ more.head?, t.kind ≠ kind) :
    Persists more loose (optionalAfter kind x)
      (optionalAfter kind x') := by
  apply (persists_accepts hMore).bind
  intro found
  cases found with
  | false => exact persists_pure none
  | true => exact hPart.map some

/- The place of a cursor is not what its tokens are. -/
theorem afterPlace
    {f f' : Nat → Reader β}
    (hNext : ∀ place place', Persists more loose (f place) (f' place')) :
    Persists more loose (place >>= f) (place >>= f') := by
  refine
    ⟨proceeds_place.bind fun p => (hNext p p).proceeds,
      fun c => ⟨?_⟩⟩
  intro c' d b hUpcoming hRun hErrors
  exact
    ((hNext c.place c'.place).persists c).ends hUpcoming hRun
      hErrors

end Persists

/-
  A loop that has as many ticks as tokens: it is enough that
  a round persists if the rounds do that come after it, with
  fewer tokens left.
-/
theorem persistsFrom_loop
    (loop loop' : List Token → σ → Reader β)
    (hProceeds : ∀ ticks s, (loop ticks s).Proceeds)
    (hRound :
      ∀ {tick tick' : Token} {ticks ticks' : List Token}
        {c : Cursor} (s : σ),
        (∀ {d : Cursor} (s : σ),
          d.upcoming.length < c.upcoming.length →
            PersistsFrom more True d (loop ticks s)
              (loop' ticks' s)) →
        PersistsFrom more True c (loop (tick :: ticks) s)
          (loop' (tick' :: ticks') s))
    {ticks ticks' : List Token}
    {c : Cursor}
    (hTicks : c.upcoming.length ≤ ticks.length)
    (hTicks' : c.upcoming.length ≤ ticks'.length)
    (s : σ) :
    PersistsFrom more True c (loop ticks s) (loop' ticks' s) := by
  induction ticks generalizing ticks' c s with
  | nil =>
      have hEnd := List.eq_nil_of_length_eq_zero (Nat.le_zero.mp hTicks)
      exact .atEnd (hProceeds [] s) hEnd
  | cons tick ticks ih =>
      cases ticks' with
      | nil =>
          have hEnd :=
            List.eq_nil_of_length_eq_zero (Nat.le_zero.mp hTicks')
          exact .atEnd (hProceeds (tick :: ticks) s) hEnd
      | cons tick' ticks' =>
          rw [List.length_cons] at hTicks hTicks'
          apply hRound
          intro d s hLess
          exact ih (by omega) (by omega) s

/- Ticks are as many as the tokens, however many more follow. -/
theorem PersistsFrom.afterUpcoming
    {f f' : List Token → Reader β}
    (hNext :
      ∀ ticks ticks' : List Token,
        c.upcoming.length ≤ ticks.length →
        c.upcoming.length ≤ ticks'.length →
          PersistsFrom more loose c (f ticks) (f' ticks')) :
    PersistsFrom more loose c (upcoming >>= f)
      (upcoming >>= f') := by
  constructor
  intro c' d b hUpcoming hRun hErrors
  have hLength : c.upcoming.length ≤ c'.upcoming.length := by
    rw [hUpcoming, List.length_append]
    exact Nat.le_add_right _ _
  exact
    (hNext c.upcoming c'.upcoming (Nat.le_refl _) hLength).ends
      hUpcoming hRun hErrors

/- A first part, and then a loop over the tokens left. -/
theorem Persists.thenLoop
    {loop loop' : List Token → α → Reader β}
    (hFirst : Persists more True x x')
    (hProceeds : ∀ ticks a, (loop ticks a).Proceeds)
    (hLoop :
      ∀ {ticks ticks' : List Token} {c : Cursor} (a : α),
        c.upcoming.length ≤ ticks.length →
        c.upcoming.length ≤ ticks'.length →
          PersistsFrom more True c (loop ticks a)
            (loop' ticks' a)) :
    Persists more True
      (upcoming >>= fun ticks => x >>= loop ticks)
      (upcoming >>= fun ticks => x' >>= loop' ticks) := by
  constructor
  · apply proceeds_upcoming.bind
    intro ticks
    exact hFirst.proceeds.bind (hProceeds ticks)
  · intro c
    apply PersistsFrom.afterUpcoming
    intro ticks ticks' hTicks hTicks'
    apply PersistsFrom.bind hFirst.proceeds (hProceeds ticks)
    · exact hFirst.persists c
    · intro a d hRun _
      have hLength := (hFirst.proceeds.leads hRun).length_le
      exact hLoop a (by omega) (by omega)

theorem upcoming_advance
    {t : Token}
    {rest : List Token}
    (hUpcoming : c.upcoming = t :: rest) :
    c.advance.upcoming.length < c.upcoming.length := by
  simp [Cursor.advance, hUpcoming]

theorem Persists.items
    (hItem : Persists more True x x)
    (tooMany : GrammarFault) :
    Persists more True (items x tooMany) (items x tooMany) := by
  have hProceeds := hItem.proceeds
  let loop (ticks : List Token) (s : Nat × List α) :=
    itemsFrom x tooMany ticks s.1 s.2
  have hLoop : ∀ ticks s, (loop ticks s).Proceeds :=
    fun ticks s => hProceeds.itemsFrom tooMany ticks s.1 s.2
  apply hItem.thenLoop
  · intro ticks a
    exact hLoop ticks (1, [a])
  · intro ticks ticks' c a hTicks hTicks'
    refine
      persistsFrom_loop loop loop hLoop ?_ hTicks hTicks' (1, [a])
    intro tick tick' ticks ticks' c s hLater
    show
      PersistsFrom more True c
        (itemsFrom x tooMany (tick :: ticks) s.1 s.2)
        (itemsFrom x tooMany (tick' :: ticks') s.1 s.2)
    rw [itemsFrom, itemsFrom]
    refine
      .acceptsThen (proceeds_pure _) (.inl trivial)
        ((persists_pure s.2.reverse).persists c) ?_
    · intro t rest hUpcoming
      have hLess := upcoming_advance hUpcoming
      have hNext (a : α) := hLoop ticks (s.1 + 1, a :: s.2)
      by_cases hMany : GrammarFault.maxArguments ≤ s.1
      · simp only [if_true, if_pos hMany]
        have hNever :
            (note tooMany >>= fun _ => x >>= fun a =>
              loop ticks (s.1 + 1, a :: s.2)).Reads
                fun _ _ _ => False :=
          (reads_note tooMany _).neverThen fun _ =>
            hProceeds.bind hNext
        exact (hNever.persists _).persists _
      · simp only [if_true, if_neg hMany]
        apply PersistsFrom.bind hProceeds hNext
        · exact hItem.persists _
        · intro a d hRun _
          have hLength := (hProceeds.leads hRun).length_le
          exact hLater (s.1 + 1, a :: s.2) (by omega)

end Lox.Reader

------------------------------------------------------------
-- Expressions
------------------------------------------------------------

namespace Lox.Grammar

open Reader

variable {more : List Token}

theorem proceeds_leftChainFrom
    {operand : Reader Expr}
    (hOperand : operand.Proceeds)
    (isOperator : Kind → Bool)
    (node : Expr → Token → Expr → Expr)
    (ticks : List Token)
    (left : Expr) :
    (leftChainFrom operand isOperator node ticks left).Proceeds := by
  induction ticks generalizing left with
  | nil => exact proceeds_pure left
  | cons tick ticks ih =>
      apply (proceeds_accept isOperator).bind
      intro found
      cases found with
      | none => exact proceeds_pure left
      | some op => exact hOperand.bind fun right => ih _

theorem persists_leftChain
    {operand : Reader Expr}
    (hOperand : Persists more True operand operand)
    (isOperator : Kind → Bool)
    (node : Expr → Token → Expr → Expr) :
    Persists more True (leftChain operand isOperator node)
      (leftChain operand isOperator node) := by
  let loop := leftChainFrom operand isOperator node
  have hProceeds := hOperand.proceeds
  have hLoop : ∀ ticks left, (loop ticks left).Proceeds :=
    proceeds_leftChainFrom hProceeds isOperator node
  apply hOperand.thenLoop hLoop
  intro ticks ticks' c left hTicks hTicks'
  refine persistsFrom_loop loop loop hLoop ?_ hTicks hTicks' left
  intro tick tick' ticks ticks' c left hLater
  refine
    .acceptThen (proceeds_pure left) (.inl trivial)
      ((persists_pure left).persists c) ?_
  intro op rest hUpcoming
  have hLess := upcoming_advance hUpcoming
  apply PersistsFrom.bind hProceeds (fun right => hLoop ticks _)
  · exact hOperand.persists _
  · intro right d hRun _
    have hLength := (hProceeds.leads hRun).length_le
    exact hLater _ (by omega)

theorem persists_disjunction
    {unary : Reader Expr}
    (hUnary : Persists more True unary unary) :
    Persists more True (disjunction unary) (disjunction unary) := by
  have hProduct : Persists more True (product unary) _ :=
    persists_leftChain hUnary _ _
  have hSum : Persists more True (sum unary) _ :=
    persists_leftChain hProduct _ _
  have hComparison : Persists more True (comparison unary) _ :=
    persists_leftChain hSum _ _
  have hEquality : Persists more True (equality unary) _ :=
    persists_leftChain hComparison _ _
  have hConjunction : Persists more True (conjunction unary) _ :=
    persists_leftChain hEquality _ _
  exact persists_leftChain hConjunction _ _

theorem proceeds_callsFrom
    {expression : Reader Expr}
    (hArguments : (arguments expression).Proceeds)
    (ticks : List Token)
    (callee : Expr) :
    (callsFrom expression ticks callee).Proceeds := by
  induction ticks generalizing callee with
  | nil => exact proceeds_pure callee
  | cons tick ticks ih =>
      apply (proceeds_accepts .leftParen).bind
      intro found
      cases found with
      | false => exact proceeds_pure callee
      | true => exact hArguments.bind fun result => ih _

section Calls

variable {expression : Reader Expr}
variable (hExpression : Persists more True expression expression)

include hExpression

theorem persists_primary :
    Persists more True (primary expression)
      (primary expression) := by
  refine Persists.acceptThen ?_ (.inl trivial) ?_
  · refine Persists.acceptsThen ?_ (.inl trivial) ?_
    · exact (reads_fail _ _).persists _
    · apply Persists.loosen
      exact hExpression.thenExpect (fun _ => persists_pure _) _ _
  · intro t
    exact persists_pure (atom t)

theorem persists_arguments :
    Persists more True (arguments expression)
      (arguments expression) := by
  apply ((hExpression.items _).unlessNext _ _).bind
  intro args
  apply (persists_expect _ _).bind
  intro paren
  exact persists_pure (args, paren)

theorem persists_calls :
    Persists more True (calls expression) (calls expression) := by
  let loop := callsFrom expression
  have hArguments := persists_arguments hExpression
  have hLoop : ∀ ticks callee, (loop ticks callee).Proceeds :=
    proceeds_callsFrom hArguments.proceeds
  apply (persists_primary hExpression).thenLoop hLoop
  intro ticks ticks' c callee hTicks hTicks'
  refine persistsFrom_loop loop loop hLoop ?_ hTicks hTicks' callee
  intro tick tick' ticks ticks' c callee hLater
  refine
    .acceptsThen (proceeds_pure callee) (.inl trivial)
      ((persists_pure callee).persists c) ?_
  intro t rest hUpcoming
  have hLess := upcoming_advance hUpcoming
  apply PersistsFrom.bind hArguments.proceeds (fun _ => hLoop ticks _)
  · exact hArguments.persists _
  · intro result d hRun _
    have hLength := (hArguments.proceeds.leads hRun).length_le
    exact hLater _ (by omega)

end Calls

theorem persists_assignment_step
    {nesting : Nat}
    (hUnary : Persists more True (unary nesting) (unary nesting))
    (hAssignment :
      Persists more True (assignment nesting)
        (assignment nesting)) :
    Persists more True (assignment (nesting + 1))
      (assignment (nesting + 1)) := by
  rw [assignment]
  apply (persists_disjunction hUnary).bind
  intro target
  apply Persists.afterPlace
  intro place place'
  refine
    Persists.acceptThen (persists_pure target) (.inl trivial) ?_
  intro equals
  apply hAssignment.bind
  intro value
  cases target with
  | «variable» name hops => exact persists_pure _
  -- Any other target is an error.
  | _ =>
      apply Reads.persists
      exact
        (reads_noteAt _ _ _ _).neverThen fun _ => proceeds_pure _

theorem persists_unary_step
    {nesting : Nat}
    (hUnary : Persists more True (unary nesting) (unary nesting))
    (hExpression :
      Persists more True (expression nesting)
        (expression nesting)) :
    Persists more True (unary (nesting + 1))
      (unary (nesting + 1)) := by
  rw [unary]
  refine
    Persists.acceptThen (persists_calls hExpression)
      (.inl trivial) ?_
  intro op
  apply hUnary.bind
  intro operand
  exact persists_pure _

/- Readers of expressions persist, up to the end. -/
theorem persists_expressions (nesting : Nat) :
    Persists more True (expression nesting) (expression nesting) ∧
      Persists more True (assignment nesting)
        (assignment nesting) ∧
      Persists more True (unary nesting) (unary nesting) := by
  induction nesting using Nat.strongRecOn with
  | ind nesting ih =>
      have hDeep :
          Persists more True (tooDeep : Reader Expr) tooDeep :=
        (reads_tooDeep _).persists _
      refine ⟨?_, ?_, ?_⟩
      · unfold expression
        split
        · rename_i nesting
          exact (ih nesting (by omega)).2.1
        · exact hDeep
      · cases nesting with
        | zero =>
            rw [assignment]
            exact hDeep
        | succ nesting =>
            have hInner := ih nesting (Nat.lt_succ_self nesting)
            exact persists_assignment_step hInner.2.2 hInner.2.1
      · cases nesting with
        | zero =>
            rw [unary]
            exact hDeep
        | succ nesting =>
            have hInner := ih nesting (Nat.lt_succ_self nesting)
            exact persists_unary_step hInner.2.2 hInner.1

theorem persists_expression (nesting : Nat) :
    Persists more True (expression nesting) (expression nesting) :=
  (persists_expressions nesting).1

end Lox.Grammar

------------------------------------------------------------
-- Simple Statements
------------------------------------------------------------

namespace Lox.Grammar

open Reader

variable {more : List Token}

/- A part with a token after it that has to be there. -/
theorem advances_closed
    {α β : Type}
    {x : Reader α}
    (hProceeds : x.Proceeds)
    {f : α → Reader β}
    (hNext : ∀ a, (f a).Proceeds)
    (kind : Kind)
    (fault : GrammarFault) :
    (x >>= fun a => expect kind fault >>= fun _ => f a).Advances := by
  have hExpect := (reads_expect kind fault).proceeds
  apply Advances.after hProceeds
  · intro a
    exact
      Advances.bind (advances_expect kind fault) hExpect
        fun _ => hNext a
  · intro a
    exact hExpect.bind fun _ => hNext a

section Simple

variable {expression : Reader Expr}
variable (hExpression : Persists more True expression expression)

include hExpression

theorem persists_expressionStatement :
    Persists more False (expressionStatement expression)
      (expressionStatement expression) :=
  hExpression.thenExpect (fun _ => persists_pure _) _ _

theorem advances_expressionStatement :
    (expressionStatement expression).Advances :=
  advances_closed hExpression.proceeds
    (fun _ => proceeds_pure _) _ _

theorem persists_printRest :
    Persists more False (printRest expression)
      (printRest expression) :=
  hExpression.thenExpect (fun _ => persists_pure _) _ _

theorem persists_returnRest (keyword : Token) :
    Persists more False (returnRest expression keyword)
      (returnRest expression keyword) :=
  ((hExpression.map some).unlessNext _ _).thenExpect
    (fun _ => persists_pure _) _ _

theorem persists_variableRest :
    Persists more False (variableRest expression)
      (variableRest expression) := by
  apply (persists_expect _ _).bind
  intro name
  exact
    (hExpression.optionalAfter (.inl trivial)).thenExpect
      (fun _ => persists_pure _) _ _

theorem persists_forInitializer :
    Persists more True (forInitializer expression)
      (forInitializer expression) := by
  have hVariable := persists_variableRest hExpression
  have hStatement := persists_expressionStatement hExpression
  refine
    Persists.acceptsThen ?_ (.inl trivial) (persists_pure none)
  exact
    Persists.acceptsThen (hStatement.loosen.map some)
      (.inl trivial) (hVariable.loosen.map some)

end Simple

end Lox.Grammar

------------------------------------------------------------
-- Branches, Loops And Blocks
------------------------------------------------------------

namespace Lox.Grammar

open Reader

variable {more : List Token}

section Nested

variable {expression : Reader Expr} {statement : Reader Stmt}
variable (hExpression : Persists more True expression expression)
variable (hStatement : Persists more False statement statement)

include hExpression hStatement

/- An `else` after the statement would belong to it. -/
theorem persists_ifRest
    (hMore : ∀ t ∈ more.head?, t.kind ≠ .elseKw) :
    Persists more False (ifRest expression statement)
      (ifRest expression statement) := by
  apply Persists.expectThen
  refine hExpression.thenExpect ?_ _ _
  intro condition
  apply hStatement.bind
  intro thenBranch
  apply (hStatement.optionalAfter (.inr hMore)).bind
  intro elseBranch
  cases elseBranch with
  | none => exact persists_pure _
  | some elseBranch => exact persists_pure _

theorem persists_whileRest :
    Persists more False (whileRest expression statement)
      (whileRest expression statement) := by
  apply Persists.expectThen
  refine hExpression.thenExpect ?_ _ _
  intro condition
  apply hStatement.bind
  intro body
  exact persists_pure _

theorem persists_forRest :
    Persists more False (forRest expression statement)
      (forRest expression statement) := by
  have hCondition :=
    hExpression.unlessNext .semicolon (.literal (.bool true))
  have hIncrement :=
    (hExpression.map some).unlessNext .rightParen none
  have hBody (initializer condition increment) :=
    hStatement.map (forLoop initializer condition increment)
  have hRest (initializer condition) :=
    hIncrement.thenExpect (hBody initializer condition)
      .rightParen .expectForEnd
  apply Persists.expectThen
  apply (persists_forInitializer hExpression).bindClosed
  · intro initializer
    exact hCondition.thenExpect (hRest initializer) _ _
  · intro initializer
    exact
      advances_closed hCondition.proceeds
        (fun condition => (hRest initializer condition).proceeds)
        _ _

end Nested

theorem proceeds_declarationsFrom
    {declaration : Reader (Option Stmt)}
    (hDeclaration : declaration.Proceeds)
    (ticks : List Token)
    (body : List Stmt) :
    (declarationsFrom declaration ticks body).Proceeds := by
  induction ticks generalizing body with
  | nil => exact proceeds_pure _
  | cons tick ticks ih =>
      apply (proceeds_nextIs .rightBrace).bind
      intro closes
      apply proceeds_atEnd.bind
      intro ended
      refine (proceeds_pure _).ite ?_ _
      apply hDeclaration.bind
      intro found
      cases found with
      | none => exact ih body
      | some stmt => exact ih (stmt :: body)

section Bodies

variable {declaration : Reader (Option Stmt)}
variable
  (hDeclaration : Persists more False declaration declaration)
variable (hAdvances : declaration.Advances)

include hDeclaration hAdvances

theorem persistsFrom_declarationsFrom
    {ticks ticks' : List Token}
    {c : Cursor}
    (hTicks : c.upcoming.length ≤ ticks.length)
    (hTicks' : c.upcoming.length ≤ ticks'.length)
    (body : List Stmt) :
    PersistsFrom more True c
      (declarationsFrom declaration ticks body)
      (declarationsFrom declaration ticks' body) := by
  let loop := declarationsFrom declaration
  have hProceeds := hDeclaration.proceeds
  have hLoop : ∀ ticks body, (loop ticks body).Proceeds :=
    proceeds_declarationsFrom hProceeds
  refine persistsFrom_loop loop loop hLoop ?_ hTicks hTicks' body
  intro tick tick' ticks ticks' c body hLater
  -- What comes after a declaration, whether it is kept or not.
  have hFound
      {next : Option Stmt → Reader (List Stmt)}
      (hNone : next none = loop ticks body)
      (hSome : ∀ stmt, next (some stmt) = loop ticks (stmt :: body))
      (found : Option Stmt) :
      (next found).Proceeds := by
    cases found with
    | none =>
        rw [hNone]
        exact hLoop ticks body
    | some stmt =>
        rw [hSome]
        exact hLoop ticks (stmt :: body)
  have hRound
      {next : Option Stmt → Reader (List Stmt)}
      (hNone : next none = loop ticks body)
      (hSome : ∀ stmt, next (some stmt) = loop ticks (stmt :: body))
      (stops : Bool) :
      (if stops then pure body.reverse
        else declaration >>= next).Proceeds :=
    (proceeds_pure _).ite
      (hProceeds.bind (hFound hNone hSome)) stops
  apply PersistsFrom.bind (proceeds_nextIs .rightBrace)
  · intro closes
    exact
      proceeds_atEnd.bind fun ended => hRound rfl (fun _ => rfl) _
  · exact (persists_nextIs .rightBrace).persists c
  · intro closes d hRun _
    have hFirst := ((proceeds_nextIs _).leads hRun).length_le
    apply PersistsFrom.bind proceeds_atEnd
    · intro ended
      exact hRound rfl (fun _ => rfl) _
    · exact persists_atEnd.persists d
    · intro ended e hRun _
      have hSecond := (proceeds_atEnd.leads hRun).length_le
      cases hStop : closes || ended with
      | true => exact (persists_pure _).persists e
      | false =>
          apply PersistsFrom.bind hProceeds
          · exact hFound rfl fun _ => rfl
          · exact hDeclaration.loosen.persists e
          · intro found b hRun hErrors
            have hThird := hAdvances hRun hErrors
            cases found with
            | none => exact hLater body (by omega)
            | some stmt => exact hLater (stmt :: body) (by omega)

theorem persists_blockRest :
    Persists more False (blockRest declaration)
      (blockRest declaration) := by
  have hEnd :
      ∀ body : List Stmt,
        (expect .rightBrace .expectBlockEnd >>= fun _ =>
          pure body).Proceeds :=
    fun body =>
      (reads_expect _ _).proceeds.bind fun _ => proceeds_pure body
  constructor
  · apply proceeds_upcoming.bind
    intro ticks
    exact
      (proceeds_declarationsFrom hDeclaration.proceeds ticks
        []).bind hEnd
  · intro c
    apply PersistsFrom.afterUpcoming
    intro ticks ticks' hTicks hTicks'
    have hBody :=
      persistsFrom_declarationsFrom hDeclaration hAdvances hTicks
        hTicks' []
    apply hBody.bindClosed
    · exact
        proceeds_declarationsFrom hDeclaration.proceeds ticks []
    · intro body
      exact (persists_pure body).expectThen _ _
    · intro body
      exact
        Advances.bind (advances_expect _ _)
          (reads_expect _ _).proceeds fun _ => proceeds_pure body

theorem persists_functionRest :
    Persists more False (functionRest declaration)
      (functionRest declaration) := by
  have hName :
      Persists more True
        (expect .identifier .expectParameterName) _ :=
    persists_expect _ _
  have hParams :=
    (hName.items .tooManyParameters).unlessNext .rightParen []
  have hBlock := persists_blockRest hDeclaration hAdvances
  apply (persists_expect _ _).bind
  intro name
  apply Persists.expectThen
  refine hParams.thenExpect ?_ _ _
  intro params
  apply Persists.expectThen
  apply hBlock.bind
  intro body
  exact persists_pure _

end Bodies

end Lox.Grammar

------------------------------------------------------------
-- Statements And Declarations
------------------------------------------------------------

namespace Lox.Grammar

open Reader

theorem advances_statement (nesting : Nat) :
    (statement nesting).Advances := by
  apply (reads_statements nesting).1.advances
  intro tokens s rest hRead
  rcases hRead with ⟨takesElse, hDerives, _⟩
  rcases hDerives.head with ⟨t, others, hTokens, _⟩
  rw [hTokens]
  exact List.cons_ne_nil t others

theorem advances_declaration (nesting : Nat) :
    (declaration nesting).Advances := by
  apply (reads_declaration nesting).advances
  intro tokens found rest hRead
  rcases hRead with ⟨s, _, hDerives⟩
  rcases hDerives.head with ⟨t, others, hTokens, _⟩
  rw [hTokens]
  exact List.cons_ne_nil t others

section Statements

variable {more : List Token}

theorem persists_statement_step
    (hMore : ∀ t ∈ more.head?, t.kind ≠ .elseKw)
    {nesting : Nat}
    (hStatement :
      Persists more False (statement nesting)
        (statement nesting))
    (hDeclaration :
      Persists more False (declaration nesting)
        (declaration nesting)) :
    Persists more False (statement (nesting + 1))
      (statement (nesting + 1)) := by
  have hExpression : Persists more True _ _ :=
    persists_expression nesting
  have hBlock :=
    persists_blockRest hDeclaration (advances_declaration nesting)
  rw [statement]
  refine
    Persists.acceptThen
      (persists_expressionStatement hExpression)
      (.inr (advances_expressionStatement hExpression)) ?_
  intro t
  dsimp only
  split
  · exact persists_forRest hExpression hStatement
  · exact persists_ifRest hExpression hStatement hMore
  · exact persists_printRest hExpression
  · exact persists_returnRest hExpression t
  · exact persists_whileRest hExpression hStatement
  · exact hBlock.map Stmt.block

theorem persists_declaration_step
    {nesting : Nat}
    (hStatement :
      Persists more False (statement nesting)
        (statement nesting))
    (hDeclaration :
      Persists more False (declaration nesting)
        (declaration nesting)) :
    Persists more False (declaration (nesting + 1))
      (declaration (nesting + 1)) := by
  rw [declaration]
  apply Persists.recovering
  refine
    Persists.acceptThen hStatement
      (.inr (advances_statement nesting)) ?_
  intro t
  dsimp only
  split
  · exact
      persists_functionRest hDeclaration
        (advances_declaration nesting)
  · exact persists_variableRest (persists_expression nesting)

/- Statements and declarations persist to the end. -/
theorem persists_statements
    (hMore : ∀ t ∈ more.head?, t.kind ≠ .elseKw)
    (nesting : Nat) :
    Persists more False (statement nesting)
        (statement nesting) ∧
      Persists more False (declaration nesting)
        (declaration nesting) := by
  induction nesting with
  | zero =>
      rw [statement, declaration]
      exact
        ⟨(reads_tooDeep _).persists _,
          (reads_tooDeep _).persists _⟩
  | succ nesting ih =>
      exact
        ⟨persists_statement_step hMore ih.1 ih.2,
          persists_declaration_step ih.1 ih.2⟩

theorem persists_declaration
    (hMore : ∀ t ∈ more.head?, t.kind ≠ .elseKw)
    (nesting : Nat) :
    Persists more False (declaration nesting)
      (declaration nesting) :=
  (persists_statements hMore nesting).2

end Statements

end Lox.Grammar

------------------------------------------------------------
-- Programs
------------------------------------------------------------

namespace Lox.Grammar

/-
  A program that is read without an error is read in the same
  way before more tokens, and reading then goes on with those,
  by induction on the ticks.
-/
theorem programFrom_prolonged
    {more : List Token}
    {declaration : Reader (Option Stmt)}
    (hPersists :
      declaration.Persists more False declaration)
    (hReads : ReadsDeclaration declaration)
    (hAdvances : declaration.Advances)
    (earlier' : List Stmt)
    {ticks ticks' : List Token}
    {earlier : List Stmt}
    {c c' : Cursor}
    (hUpcoming : c'.upcoming = c.upcoming ++ more)
    (hTicks : c.upcoming.length ≤ ticks.length)
    (hTicks' : c'.upcoming.length ≤ ticks'.length)
    (hErrors :
      (programFrom declaration ticks earlier c).errors = []) :
    ∃ body later d,
      (programFrom declaration ticks earlier c).program =
        earlier.reverse ++ body ∧
      programFrom declaration ticks' earlier' c' =
        programFrom declaration later (body.reverse ++ earlier')
          d ∧
      d.upcoming = more ∧
      d.errors = c'.errors ∧
      more.length ≤ later.length := by
  induction ticks generalizing ticks' earlier earlier' c c' with
  | nil =>
      have hNone : c.upcoming = [] := by
        simpa using hTicks
      rw [hNone, List.nil_append] at hUpcoming
      refine
        ⟨[], ticks', c', by simp [programFrom], rfl, hUpcoming,
          rfl, ?_⟩
      rw [← hUpcoming]
      exact hTicks'
  | cons tick ticks ih =>
      rcases programFrom_cases hReads hErrors with
        ⟨hNone, hDone⟩ | ⟨s, d, hSome, hRun, hSame, hRest⟩
      · rw [hNone, List.nil_append] at hUpcoming
        refine
          ⟨[], ticks', c', by simp [hDone], rfl, hUpcoming, rfl,
            ?_⟩
        rw [← hUpcoming]
        exact hTicks'
      · have hLess := hAdvances hRun hSame
        rcases (hPersists.persists c).ends hUpcoming hRun hSame
          with hEnd | hThere
        · exact hEnd.1.elim
        rcases hThere with ⟨d', hRun', hUpcoming', hSame'⟩
        have hLength := congrArg List.length hUpcoming
        have hLength' := congrArg List.length hUpcoming'
        rw [List.length_append] at hLength hLength'
        rw [List.length_cons] at hTicks
        cases ticks' with
        | nil =>
            rw [List.length_nil] at hTicks'
            omega
        | cons tick' ticks' =>
            rw [List.length_cons] at hTicks'
            have hAtEnd : ¬ c'.atEnd = true := by
              simp [Cursor.atEnd, hUpcoming, hSome]
            have hRound :
                programFrom declaration (tick' :: ticks') earlier'
                    c' =
                  programFrom declaration ticks' (s :: earlier')
                    d' := by
              conv =>
                lhs
                rw [programFrom, if_neg hAtEnd, hRun']
            have hFew : d'.upcoming.length ≤ ticks'.length := by
              omega
            rw [hRest] at hErrors ⊢
            rcases
              ih (s :: earlier') hUpcoming' (by omega) hFew
                hErrors with
              ⟨body, later, e, hProgram, hLater, hMore, hKept,
                hEnough⟩
            refine
              ⟨s :: body, later, e, ?_, ?_, hMore,
                hKept.trans hSame', hEnough⟩
            · rw [hProgram]
              simp
            · rw [hRound, hLater]
              simp

/- At the end of the tokens there is nothing to read. -/
theorem programFrom_atEnd
    (declaration : Reader (Option Stmt))
    (ticks : List Token)
    (program : List Stmt)
    {c : Cursor}
    (hUpcoming : c.upcoming = []) :
    programFrom declaration ticks program c =
      ⟨program.reverse, c.errors.toList⟩ := by
  cases ticks with
  | nil => rfl
  | cons tick ticks =>
      rw [programFrom, if_pos]
      simp [Cursor.atEnd, hUpcoming]

/- A program does not begin with `else`. -/
theorem head_ne_else
    {program : List Stmt}
    {tokens : List Token}
    (hDerives : (Clause.declarations program).Derives tokens) :
    ∀ t ∈ tokens.head?, t.kind ≠ .elseKw := by
  cases hDerives with
  | done =>
      intro t hMem
      cases hMem
  | next hFirst _ =>
      rcases hFirst.head with ⟨first, rest, hTokens, hOpens⟩
      rw [hTokens]
      intro t hMem
      rw [← Option.some.inj hMem]
      exact (Kind.opens_ne hOpens).1

end Lox.Grammar

namespace Lox

open Grammar

/- The tokens before the end, where no other one is the end. -/
theorem Cursor.upcoming_ofTokens
    {tokens : List Token}
    {last : Token}
    (hTokens : ∀ t ∈ tokens, t.kind ≠ .eof)
    (hLast : last.kind = .eof) :
    (Cursor.ofTokens (tokens ++ [last])).upcoming = tokens := by
  unfold Cursor.ofTokens
  rw [List.takeWhile_append_of_pos]
  · simp [hLast]
  · intro t hMem
    exact decide_eq_true (hTokens t hMem)

/-
  Two programs that are read without an error are read one
  after the other where the tokens of the second one follow
  those of the first.
-/
theorem parse_append
    {limits : Limits}
    {first second : List Token}
    {last last' : Token}
    (hFirst : ∀ t ∈ first, t.kind ≠ .eof)
    (hSecond : ∀ t ∈ second, t.kind ≠ .eof)
    (hLast : last.kind = .eof)
    (hLast' : last'.kind = .eof)
    (hErrors : (parse limits (first ++ [last])).errors = [])
    (hErrors' : (parse limits (second ++ [last'])).errors = []) :
    parse limits (first ++ second ++ [last']) =
      ⟨(parse limits (first ++ [last])).program ++
          (parse limits (second ++ [last'])).program, []⟩ := by
  have hReads := reads_declaration limits.nesting
  have hAdvances : (declaration limits.nesting).Advances :=
    advances_declaration limits.nesting
  have hBoth : ∀ t ∈ first ++ second, t.kind ≠ .eof := by
    intro t hMem
    rcases List.mem_append.mp hMem with hMem | hMem
    · exact hFirst t hMem
    · exact hSecond t hMem
  have hUpcoming := Cursor.upcoming_ofTokens hFirst hLast
  have hUpcoming' := Cursor.upcoming_ofTokens hSecond hLast'
  have hAll := Cursor.upcoming_ofTokens hBoth hLast'
  have hElse : ∀ t ∈ second.head?, t.kind ≠ .elseKw := by
    have hDerives := derives_of_parse hErrors'
    rw [show List.takeWhile _ _ = second from hUpcoming']
      at hDerives
    exact head_ne_else hDerives
  have hSeam :
      (Cursor.ofTokens (first ++ second ++ [last'])).upcoming =
        (Cursor.ofTokens (first ++ [last])).upcoming ++ second := by
    rw [hAll, hUpcoming]
  rcases
    programFrom_prolonged (persists_declaration hElse _) hReads
      hAdvances [] hSeam (Nat.le_refl _) (Nat.le_refl _)
      hErrors with
    ⟨body, later, d, hProgram, hRest, hMore, hKept, hEnough⟩
  -- The second program is read from there as it is alone.
  have hNothing :
      ∀ t ∈ ([] : List Token).head?, t.kind ≠ .elseKw := by
    intro t hMem
    cases hMem
  have hSame :
      d.upcoming =
        (Cursor.ofTokens (second ++ [last'])).upcoming ++ [] := by
    rw [hMore, hUpcoming', List.append_nil]
  rw [← hMore] at hEnough
  rcases
    programFrom_prolonged (persists_declaration hNothing _) hReads
      hAdvances (body.reverse ++ []) hSame (Nat.le_refl _) hEnough
      hErrors' with
    ⟨body', later', e, hProgram', hRest', hDone, hKept', _⟩
  have hWhole :
      parse limits (first ++ second ++ [last']) =
        ⟨(body'.reverse ++ (body.reverse ++ [])).reverse,
          e.errors.toList⟩ :=
    (hRest.trans hRest').trans (programFrom_atEnd _ _ _ hDone)
  have hFirstBody :
      (parse limits (first ++ [last])).program = body := hProgram
  have hSecondBody :
      (parse limits (second ++ [last'])).program = body' :=
    hProgram'
  rw [hWhole, hFirstBody, hSecondBody, hKept', hKept]
  simp [Cursor.ofTokens]

end Lox
