import Lox.Proofs.Machine.Restoration

/-
  Invariants of a run.

  A step maintains an invariant of machines if, however it
  ends, the machine has the invariant again and is where it
  was; what the step gives is as promised. This passes through
  sequences, scopes, calls, lists and loops.

  Key definitions include:
    * `Run.Maintains`
    * `Machine.IsOfStore`
    * `Run.Remains`
-/

------------------------------------------------------------
-- Steps That Maintain An Invariant
------------------------------------------------------------

namespace Lox

/- An invariant that looks at the globals and the store alone. -/
def Machine.IsOfStore (Inv : Machine → Prop) : Prop :=
  ∀ m m' : Machine,
    m'.globals = m.globals → m'.store = m.store → Inv m → Inv m'

namespace Run

/-
  However the step ends, the invariant holds and the machine
  stays where it is; what the step gives is as promised.
-/
def Maintains
    {α : Type}
    (Inv : Machine → Prop)
    (step : Run α)
    (m : Machine)
    (Post : Store → α → Prop) :
    Prop :=
  match step m with
  | .ok a m' => Inv m' ∧ m.Stays m' ∧ Post m'.store a
  | .error _ m' => Inv m' ∧ m.Stays m'

variable {Inv : Machine → Prop} {α β : Type} {m : Machine}
variable {step : Run α} {next : α → Run β}
variable {Post : Store → α → Prop} {Post' : Store → β → Prop}

namespace Maintains

/- What a step leaves, if it ends well. -/
theorem of_ok
    {a : α}
    {m' : Machine}
    (hStep : Maintains Inv step m Post)
    (hRun : step m = .ok a m') :
    Inv m' ∧ m.Stays m' ∧ Post m'.store a := by
  unfold Maintains at hStep
  rw [hRun] at hStep
  exact hStep

/- What it leaves, however it ends. -/
theorem left (hStep : Maintains Inv step m Post) :
    Inv (Run.left (step m)) := by
  unfold Maintains at hStep
  cases hRun : step m with
  | ok a m' =>
      rw [hRun] at hStep
      exact hStep.1
  | error e m' =>
      rw [hRun] at hStep
      exact hStep.1

theorem mono
    {Weaker : Store → α → Prop}
    (hStep : Maintains Inv step m Post)
    (hMono : ∀ s a, Post s a → Weaker s a) :
    Maintains Inv step m Weaker := by
  unfold Maintains at hStep ⊢
  cases hRun : step m with
  | ok a m' =>
      rw [hRun] at hStep
      exact ⟨hStep.1, hStep.2.1, hMono _ _ hStep.2.2⟩
  | error e m' =>
      rw [hRun] at hStep
      exact hStep

theorem bind
    (hStep : Maintains Inv step m Post)
    (hNext :
      ∀ a m', Inv m' → m.Stays m' → Post m'.store a →
        Maintains Inv (next a) m' Post') :
    Maintains Inv (step >>= next) m Post' := by
  unfold Maintains at hStep ⊢
  cases hRun : step m with
  | ok a m' =>
      rw [hRun] at hStep
      rcases hStep with ⟨hInv, hStays, hPost⟩
      have hRest := hNext a m' hInv hStays hPost
      unfold Maintains at hRest
      rw [bind_of_ok hRun]
      cases hLast : next a m' with
      | ok b m'' =>
          rw [hLast] at hRest
          exact ⟨hRest.1, hStays.trans hRest.2.1, hRest.2.2⟩
      | error e m'' =>
          rw [hLast] at hRest
          exact ⟨hRest.1, hStays.trans hRest.2⟩
  | error e m' =>
      rw [hRun] at hStep
      rw [bind_of_error hRun]
      exact hStep

theorem ite
    {other : Run α}
    {p : Prop}
    [Decidable p]
    (hStep : Maintains Inv step m Post)
    (hOther : Maintains Inv other m Post) :
    Maintains Inv (if p then step else other) m Post := by
  by_cases hHolds : p
  · rw [if_pos hHolds]
    exact hStep
  · rw [if_neg hHolds]
    exact hOther

/- The machine comes back to where it was. -/
theorem inScope
    {env : EnvId}
    (hStep : Maintains Inv step { m with current := env } Post)
    (hOfStore : Machine.IsOfStore Inv) :
    Maintains Inv (inScope env step) m Post := by
  unfold Maintains at hStep ⊢
  unfold Run.inScope
  cases hRun : step { m with current := env } with
  | ok a m' =>
      rw [hRun] at hStep
      rcases hStep with ⟨hInv, hStays, hPost⟩
      exact
        ⟨hOfStore m' _ rfl rfl hInv,
          ⟨rfl, hStays.globals, hStays.store⟩, hPost⟩
  | error e m' =>
      rw [hRun] at hStep
      rcases hStep with ⟨hInv, hStays⟩
      exact
        ⟨hOfStore m' _ rfl rfl hInv,
          ⟨rfl, hStays.globals, hStays.store⟩⟩

theorem guardStack
    (hStep : Maintains Inv step m Post)
    (paren : Token) :
    Maintains Inv (guardStack paren step) m Post := by
  unfold Maintains at hStep ⊢
  unfold Run.guardStack
  cases hRun : step m with
  | ok a m' =>
      rw [hRun] at hStep
      exact hStep
  | error e m' =>
      rw [hRun] at hStep
      cases e <;> exact hStep

end Maintains

theorem maintains_pure
    {a : α}
    (hInv : Inv m)
    (hPost : Post m.store a) :
    Maintains Inv (pure a) m Post :=
  ⟨hInv, .refl m, hPost⟩

theorem maintains_stop
    (hInv : Inv m)
    (interrupt : Interrupt) :
    Maintains Inv (fun m => .error interrupt m) m Post :=
  ⟨hInv, .refl m⟩

theorem maintains_lift
    {result : Except RuntimeError α}
    (hInv : Inv m)
    (hResult : ∀ a, result = .ok a → Post m.store a) :
    Maintains Inv (lift result) m Post := by
  cases result with
  | ok a => exact ⟨hInv, .refl m, hResult a rfl⟩
  | error e => exact ⟨hInv, .refl m⟩

theorem maintains_checkArity
    (hInv : Inv m)
    (expected got : Nat)
    (paren : Token) :
    Maintains Inv (checkArity expected got paren) m
      fun _ _ => True :=
  .ite (maintains_pure hInv trivial) (maintains_stop hInv _)

section OfStore

variable (hOfStore : Machine.IsOfStore Inv) (hInv : Inv m)

include hOfStore hInv

theorem maintains_printLine (text : String) :
    Maintains Inv (printLine text) m fun _ _ => True :=
  ⟨hOfStore m _ rfl rfl hInv, ⟨rfl, rfl, .refl m.store⟩, trivial⟩

theorem maintains_freshIdent :
    Maintains Inv freshIdent m fun _ _ => True :=
  ⟨hOfStore m _ rfl rfl hInv, ⟨rfl, rfl, .refl m.store⟩, trivial⟩

theorem maintains_readClock :
    Maintains Inv readClock m fun _ value =>
      ∃ x, value = .number x := by
  have hNext : Inv { m with clock := m.clock.next } :=
    hOfStore m _ rfl rfl hInv
  have hStays : m.Stays { m with clock := m.clock.next } :=
    ⟨rfl, rfl, .refl m.store⟩
  unfold Maintains readClock
  cases milliseconds m.clock.now with
  | ok x => exact ⟨hNext, hStays, x, rfl⟩
  | error e => exact ⟨hNext, hStays⟩

end OfStore

end Run

end Lox

------------------------------------------------------------
-- Lists And Loops
------------------------------------------------------------

namespace Lox.Run

/-
  What holds of a machine where it is, beside an invariant, and
  goes on holding for as long as the machine stays there.
-/
structure Remains (Inv At : Machine → Prop) : Prop where
  inv : ∀ m, At m → Inv m
  stays : ∀ m m', At m → m.Stays m' → Inv m' → At m'

namespace Remains

variable {Inv At : Machine → Prop} {m : Machine}

/- A list stops at the first statement that returns. -/
theorem execAll
    {exec : Stmt → Run Completion}
    {Post : Store → Completion → Prop}
    {body : List Stmt}
    (hRemains : Remains Inv At)
    (hNormal : ∀ s, Post s .normal)
    (hExec :
      ∀ stmt ∈ body, ∀ m, At m → Maintains Inv (exec stmt) m Post)
    (hAt : At m) :
    Maintains Inv (execAll exec body) m Post := by
  induction body generalizing m with
  | nil => exact maintains_pure (hRemains.inv m hAt) (hNormal _)
  | cons stmt body ih =>
      rcases List.forall_mem_cons.mp hExec with ⟨hFirst, hRest⟩
      apply (hFirst m hAt).bind
      intro completion m' hInv hStays hPost
      cases completion with
      | normal => exact ih hRest (hRemains.stays m m' hAt hStays hInv)
      | returned value => exact maintains_pure hInv hPost

/- Each round begins where what remains is met again. -/
theorem repeatWhile
    {condition : Run Value}
    {body : Run Completion}
    {Tested : Store → Value → Prop}
    {Post : Store → Completion → Prop}
    (hRemains : Remains Inv At)
    (hNormal : ∀ s, Post s .normal)
    (hCondition : ∀ m, At m → Maintains Inv condition m Tested)
    (hBody : ∀ m, At m → Maintains Inv body m Post)
    (hAt : At m)
    (rounds : Nat) :
    Maintains Inv (repeatWhile condition body rounds) m Post := by
  induction rounds generalizing m with
  | zero => exact maintains_stop (hRemains.inv m hAt) _
  | succ rounds ih =>
      apply (hCondition m hAt).bind
      intro value m' hInv hStays _
      have hAt' := hRemains.stays m m' hAt hStays hInv
      refine .ite ?_ (maintains_pure hInv (hNormal _))
      apply (hBody m' hAt').bind
      intro completion m'' hInv' hStays' hPost
      cases completion with
      | normal => exact ih (hRemains.stays m' m'' hAt' hStays' hInv')
      | returned value => exact maintains_pure hInv' hPost

end Remains

end Lox.Run
