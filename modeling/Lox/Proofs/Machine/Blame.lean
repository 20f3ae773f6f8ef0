import Lox.Proofs.Machine.Policy

/-
  What the errors of a run can be blamed on.

  Where the operators of a program are those of the language,
  no run of it fails for an operator that is not supported. Its
  errors blame the tokens that the program is made of, and only
  a link between environments that is missing is blamed on no
  token.

  Key definitions include:
    * `RuntimeFault.IsSupported`
    * `RuntimeError.Blames`
    * `Policy.blaming`
    * `Policy.isSound_blaming`
-/

------------------------------------------------------------
-- Errors Of Operators
------------------------------------------------------------

namespace Lox

/- Any fault but an operator that the language does not have. -/
def RuntimeFault.IsSupported : RuntimeFault → Prop
  | unsupportedUnary _ => False
  | unsupportedBinary _ => False
  | _ => True

/-
  An error that blames a token with a property, and no operator
  for being unknown. It may blame no token for a link between
  environments that is missing.
-/
structure RuntimeError.Blames
    (T : Token → Prop)
    (e : RuntimeError) :
    Prop where
  supported : e.fault.IsSupported
  token : ∀ t ∈ e.token, T t
  nowhere :
    e.token = none → ∃ distance, e.fault = .scopeDistance distance

variable {T : Token → Prop} {t : Token}

theorem RuntimeError.blames_token
    {fault : RuntimeFault}
    (hSupported : fault.IsSupported)
    (hToken : T t) :
    Blames T ⟨fault, some t⟩ := by
  refine ⟨hSupported, ?_, fun hNone => by cases hNone⟩
  intro u hFound
  cases hFound
  exact hToken

/- A sign fails for its operand, never for itself. -/
theorem applyUnary_blames
    {operand : Value}
    {e : RuntimeError}
    (hSign : (Vocabulary.of T).sign t)
    (hError : applyUnary t operand = .error e) :
    e.Blames T := by
  rcases hSign with ⟨hToken, hKind | hKind⟩ <;>
    unfold applyUnary at hError <;>
    simp only [hKind] at hError
  · cases hError
  · split at hError <;> cases hError
    exact RuntimeError.blames_token trivial hToken

theorem add_blames
    {left right : Value}
    {e : RuntimeError}
    (hToken : T t)
    (hError : add t left right = .error e) :
    e.Blames T := by
  unfold add at hError
  split at hError <;> cases hError
  exact RuntimeError.blames_token trivial hToken

theorem onNumbers_blames
    {f : Float → Float → Value}
    {left right : Value}
    {e : RuntimeError}
    (hToken : T t)
    (hError : onNumbers t f left right = .error e) :
    e.Blames T := by
  unfold onNumbers at hError
  split at hError <;> cases hError
  exact RuntimeError.blames_token trivial hToken

/- Each operator fails for its operands, never for itself. -/
theorem applyBinary_blames
    {left right : Value}
    {e : RuntimeError}
    (hOperator : (Vocabulary.of T).operator t)
    (hError : applyBinary t left right = .error e) :
    e.Blames T := by
  rcases hOperator with ⟨hToken, hKind⟩
  unfold applyBinary at hError
  cases hOp : t.kind <;> simp only [hOp] at hError hKind
  case equalEqual | bangEqual => cases hError
  case plus => exact add_blames hToken hError
  case minus | star | slash | greater | greaterEqual | less
      | lessEqual =>
    exact onNumbers_blames hToken hError
  all_goals exact absurd hKind (by decide)

end Lox

------------------------------------------------------------
-- The Policy Of Blame
------------------------------------------------------------

namespace Lox

/-
  Programs of the tokens with a property, whose errors blame
  them. A native function that calls another one does so at a
  token of its own, which has to have the property as well.
-/
def Policy.blaming (T : Token → Prop) : Policy :=
  { words := .of T
    clock := fun _ => True
    native := fun native =>
      ∀ index, native.behavior = .apply index → T nativeCallToken
    admits := fun
      | .failed e => e.Blames T
      | _ => True }

theorem Policy.isSound_blaming (T : Token → Prop) :
    (blaming T).IsSound :=
  { sign := fun _ _ _ hSign hError =>
      applyUnary_blames hSign hError
    operator := fun _ _ _ _ hOperator hError =>
      applyBinary_blames hOperator hError
    undefined := fun _ hName =>
      RuntimeError.blames_token trivial hName.1
    distance := by
      intro distance
      refine ⟨trivial, ?_, fun _ => ⟨distance, rfl⟩⟩
      exact fun _ hNone => by cases hNone
    called := by
      intro paren fault hParen hCall
      apply RuntimeError.blames_token _ hParen.1
      cases hCall <;> exact trivial
    outOfFrames := trivial
    outOfRounds := trivial
    later := fun _ _ => trivial
    time := fun _ _ _ _ => trivial
    made := fun _ _ _ hApplies => by cases hApplies
    applied := fun _ index hNative hApplies =>
      ⟨hNative index hApplies, rfl⟩
    nativeFailed := fun _ _ _ _ => trivial }

end Lox
