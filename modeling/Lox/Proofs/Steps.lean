/-
  Steps with a state and errors, one after another.

  Reading, resolving and running are all sequences of such
  steps. These lemmas take a sequence apart.

  Main declarations:
    * `bind_eq_ok_iff`
    * `bind_of_ok`
    * `bind_of_error`
    * `pure_eq_ok_iff`
    * `stateLeft`, `outcome`, `mapState`
-/

------------------------------------------------------------
-- Sequences
------------------------------------------------------------

namespace Lox

variable {ε σ α β : Type}
variable {x : EStateM ε σ α} {s t : σ}

/- A sequence that ends well is two steps that end well. -/
theorem bind_eq_ok_iff
    {f : α → EStateM ε σ β}
    {b : β} :
    (x >>= f) s = .ok b t ↔
      ∃ a u, x s = .ok a u ∧ f a u = .ok b t := by
  simp only [bind, EStateM.bind]
  cases hRun : x s with
  | ok a u =>
      constructor
      · intro hEnd
        exact ⟨a, u, rfl, hEnd⟩
      · rintro ⟨a', u', hSame, hEnd⟩
        cases hSame
        exact hEnd
  | error e u => simp

theorem bind_of_ok
    {a : α}
    (hRun : x s = .ok a t)
    (f : α → EStateM ε σ β) :
    (x >>= f) s = f a t := by
  simp only [bind, EStateM.bind, hRun]

theorem bind_of_error
    {e : ε}
    (hRun : x s = .error e t)
    (f : α → EStateM ε σ β) :
    (x >>= f) s = .error e t := by
  simp only [bind, EStateM.bind, hRun]

theorem pure_eq_ok_iff {a b : α} :
    (pure a : EStateM ε σ α) s = .ok b t ↔ a = b ∧ s = t := by
  simp only [pure, EStateM.pure, EStateM.Result.ok.injEq]

end Lox

------------------------------------------------------------
-- Results
------------------------------------------------------------

namespace Lox

variable {ε σ τ α : Type}

/- The state that a step leaves, however it ends. -/
def stateLeft : EStateM.Result ε σ α → σ
  | .ok _ s => s
  | .error _ s => s

/- How a step ends, whatever state it leaves. -/
def outcome : EStateM.Result ε σ α → Except ε α
  | .ok a _ => .ok a
  | .error e _ => .error e

/- A result, with the state looked at in another way. -/
def mapState (f : σ → τ) :
    EStateM.Result ε σ α → EStateM.Result ε τ α
  | .ok a s => .ok a (f s)
  | .error e s => .error e (f s)

@[simp] theorem stateLeft_mapState
    (f : σ → τ)
    (result : EStateM.Result ε σ α) :
    stateLeft (mapState f result) = f (stateLeft result) := by
  cases result <;> rfl

@[simp] theorem outcome_mapState
    (f : σ → τ)
    (result : EStateM.Result ε σ α) :
    outcome (mapState f result) = outcome result := by
  cases result <;> rfl

end Lox
