import Lox.Proofs.Steps
import Mathlib.Data.List.Forall2

/-
  Two sequences of steps, side by side.

  A coupling says which states and which errors of two runs
  belong together. Two steps are related if, from states that
  belong together, they end in the same way: both well, with
  related results, or both with errors that belong together,
  and again in states that do. This is kept by sequencing.

  Key definitions include:
    * `Coupling`
    * `Coupling.Ends`
    * `Coupling.Relates`
-/

------------------------------------------------------------
-- Lists Side By Side
------------------------------------------------------------

namespace Lox

section Lists

variable {α α' : Type} {A : α → α' → Prop}
variable {as : List α} {as' : List α'}

theorem forall₂_getElem?
    (hLists : List.Forall₂ A as as')
    (index : Nat) :
    Option.Rel A as[index]? as'[index]? := by
  induction hLists generalizing index with
  | nil => exact .none
  | cons hItem _ ih =>
      cases index with
      | zero => exact .some hItem
      | succ index => exact ih index

theorem forall₂_eraseIdx
    (hLists : List.Forall₂ A as as')
    (index : Nat) :
    List.Forall₂ A (as.eraseIdx index) (as'.eraseIdx index) := by
  induction hLists generalizing index with
  | nil => exact .nil
  | cons hItem hRest ih =>
      cases index with
      | zero => exact hRest
      | succ index => exact .cons hItem (ih index)

end Lists

end Lox

------------------------------------------------------------
-- Couplings
------------------------------------------------------------

namespace Lox

/- Which states and errors of two runs belong together. -/
structure Coupling (ε σ : Type) where
  states : σ → σ → Prop
  errors : ε → ε → Prop

namespace Coupling

variable {ε σ α α' β β' : Type}

/- Two runs have ended in the same way. -/
def Ends
    (c : Coupling ε σ)
    (A : α → α' → Prop) :
    EStateM.Result ε σ α → EStateM.Result ε σ α' → Prop
  | .ok a s, .ok a' s' => A a a' ∧ c.states s s'
  | .error e s, .error e' s' => c.errors e e' ∧ c.states s s'
  | _, _ => False

/- Beside a run that has ended well the other one has, too. -/
theorem Ends.exists_ok
    {c : Coupling ε σ}
    {A : α → α' → Prop}
    {a : α}
    {s : σ}
    {result : EStateM.Result ε σ α'}
    (hEnds : c.Ends A (.ok a s) result) :
    ∃ a' s', result = .ok a' s' ∧ A a a' ∧ c.states s s' := by
  cases result with
  | ok a' s' => exact ⟨a', s', rfl, hEnds.1, hEnds.2⟩
  | error e s' => exact hEnds.elim

/- Beside a run that has failed the other one has, too. -/
theorem Ends.exists_error
    {c : Coupling ε σ}
    {A : α → α' → Prop}
    {e : ε}
    {s : σ}
    {result : EStateM.Result ε σ α'}
    (hEnds : c.Ends A (.error e s) result) :
    ∃ e' s', result = .error e' s' ∧ c.errors e e' ∧ c.states s s' := by
  cases result with
  | ok a' s' => exact hEnds.elim
  | error e' s' => exact ⟨e', s', rfl, hEnds.1, hEnds.2⟩

/- Two steps end in the same way where states are related. -/
def Relates
    (c : Coupling ε σ)
    (A : α → α' → Prop)
    (x : EStateM ε σ α)
    (x' : EStateM ε σ α') :
    Prop :=
  ∀ s s', c.states s s' → c.Ends A (x s) (x' s')

variable {c : Coupling ε σ}
variable {A : α → α' → Prop} {B : β → β' → Prop}
variable {x : EStateM ε σ α} {x' : EStateM ε σ α'}

theorem relates_pure
    {a : α}
    {a' : α'}
    (hResult : A a a') :
    c.Relates A (pure a) (pure a') :=
  fun _ _ hStates => ⟨hResult, hStates⟩

/- A step that fails and leaves its state as it is. -/
theorem relates_error
    {e e' : ε}
    (hErrors : c.errors e e') :
    c.Relates A (fun s => .error e s) (fun s => .error e' s) :=
  fun _ _ hStates => ⟨hErrors, hStates⟩

theorem Relates.bind
    {f : α → EStateM ε σ β}
    {f' : α' → EStateM ε σ β'}
    (hFirst : c.Relates A x x')
    (hNext : ∀ a a', A a a' → c.Relates B (f a) (f' a')) :
    c.Relates B (x >>= f) (x' >>= f') := by
  intro s s' hStates
  have hEnds := hFirst s s' hStates
  cases hRun : x s with
  | ok a t =>
      rw [hRun] at hEnds
      rcases hEnds.exists_ok with ⟨a', t', hRun', hResult, hReached⟩
      rw [bind_of_ok hRun, bind_of_ok hRun']
      exact hNext a a' hResult t t' hReached
  | error e t =>
      rw [hRun] at hEnds
      rcases hEnds.exists_error with ⟨e', t', hRun', hFailed⟩
      rw [bind_of_error hRun, bind_of_error hRun']
      exact hFailed

theorem Relates.map
    (hStep : c.Relates A x x')
    {f : α → β}
    {f' : α' → β'}
    (hResult : ∀ a a', A a a' → B (f a) (f' a')) :
    c.Relates B (f <$> x) (f' <$> x') := by
  rw [← bind_pure_comp, ← bind_pure_comp]
  apply hStep.bind
  intro a a' hRelated
  exact relates_pure (hResult a a' hRelated)

theorem Relates.ite
    {y : EStateM ε σ α}
    {y' : EStateM ε σ α'}
    {p p' : Prop}
    [Decidable p]
    [Decidable p']
    (hSame : p ↔ p')
    (hThen : c.Relates A x x')
    (hElse : c.Relates A y y') :
    c.Relates A (if p then x else y) (if p' then x' else y') := by
  by_cases hHolds : p
  · rw [if_pos hHolds, if_pos (hSame.mp hHolds)]
    exact hThen
  · rw [if_neg hHolds, if_neg fun h => hHolds (hSame.mpr h)]
    exact hElse

end Coupling

end Lox
