import Lox.Proofs.Machine.Policy

/-
  Programs fail with errors of their own.

  A machine is reliable if its clock tells finite times and
  its native functions give values for any arguments that they
  accept. The run of any program leaves a reliable machine
  reliable, and what interrupts it is an error of the program
  or a lack of room, never the failure of a native function.

  Key definitions include:
    * `Clock.IsFinite`
    * `Native.IsReliable`
    * `Machine.IsReliable`
    * `Interrupt.IsExpected`
    * `Policy.reliable`
    * `runProgram_keeps`
-/

------------------------------------------------------------
-- Reliable Machines
------------------------------------------------------------

namespace Lox

/- All times of a clock, now and later, can be told. -/
def Clock.IsFinite (clock : Clock) : Prop :=
  ∀ time, time = clock.now ∨ time ∈ clock.readings →
    ∃ x, milliseconds time = .ok x

/- A native function gives a value for any arguments. -/
def Native.IsReliable (native : Native) : Prop :=
  match native.behavior with
  | .argument index => index < native.arity
  | .apply index => index < native.arity
  | .foreign _ => False
  | _ => True

def Value.IsReliable : Value → Prop
  | .native f => f.toNative.IsReliable
  | _ => True

/- The clock is finite, and all values are reliable. -/
structure Machine.IsReliable (m : Machine) : Prop where
  clock : m.clock.IsFinite
  values :
    ∀ env name value,
      m.store.local? env name = some value → value.IsReliable

/- An interrupt that is no failure of a native function. -/
def Interrupt.IsExpected : Interrupt → Prop
  | .nativeFailed _ => False
  | _ => True

theorem Clock.IsFinite.next
    {clock : Clock}
    (hFinite : clock.IsFinite) :
    clock.next.IsFinite := by
  intro time hTime
  apply hFinite
  rcases clock with ⟨readings⟩
  match readings with
  | [] => exact hTime
  | [_] => exact hTime
  | first :: second :: rest =>
      have hLater : time ∈ second :: rest := by
        rcases hTime with hNow | hMem
        · rw [hNow]
          exact List.mem_cons_self
        · exact hMem
      exact .inr (List.mem_cons_of_mem first hLater)

end Lox

------------------------------------------------------------
-- Runs Of Reliable Machines
------------------------------------------------------------

namespace Lox

/- The policy of reliable machines, which may run any words. -/
def Policy.reliable : Policy :=
  { words := .any
    clock := Clock.IsFinite
    native := Native.IsReliable
    admits := Interrupt.IsExpected }

/- A native function finds the arguments that it counts on. -/
theorem Native.IsReliable.not_failsWith
    {native : Native}
    (hReliable : native.IsReliable)
    (failure : NativeFailure) :
    ¬ native.FailsWith failure := by
  unfold Native.IsReliable at hReliable
  intro hFails
  cases hFails with
  | argument hBehavior hOutside | apply hBehavior hOutside =>
      rw [hBehavior] at hReliable
      exact absurd hReliable (Nat.not_lt.mpr hOutside)
  | foreign hBehavior =>
      rw [hBehavior] at hReliable
      exact hReliable

theorem Policy.isSound_reliable : reliable.IsSound :=
  { sign := fun _ _ _ _ _ => trivial
    operator := fun _ _ _ _ _ _ => trivial
    undefined := fun _ _ => trivial
    distance := fun _ => trivial
    called := fun _ _ _ _ => trivial
    outOfFrames := trivial
    outOfRounds := trivial
    later := fun _ hFinite => hFinite.next
    time := by
      intro clock failure hFinite hTime
      rcases hFinite clock.now (.inl rfl) with ⟨x, hFound⟩
      rw [hFound] at hTime
      cases hTime
    made := fun _ _ => trivial
    applied := fun _ _ _ _ => trivial
    nativeFailed := fun _ failure hReliable hFails =>
      absurd hFails (hReliable.not_failsWith failure) }

theorem Policy.reliable_trusts_iff (value : Value) :
    reliable.Trusts value ↔ value.IsReliable := by
  cases value with
  | function f =>
      exact ⟨fun _ => trivial, fun _ => Stmt.bodyFormed_any f.body⟩
  | _ => exact .rfl

theorem Policy.reliable_holds_iff (m : Machine) :
    reliable.Holds m ↔ m.IsReliable := by
  constructor
  · intro hHolds
    refine ⟨hHolds.clock, ?_⟩
    intro env name value hLocal
    exact
      (reliable_trusts_iff value).mp
        (hHolds.values env name value hLocal)
  · intro hReliable
    refine ⟨hReliable.clock, ?_⟩
    intro env name value hLocal
    exact
      (reliable_trusts_iff value).mpr
        (hReliable.values env name value hLocal)

/-
  A step leaves reliable machines reliable, stops for nothing
  unexpected, and gives a value with a property.
-/
def Run.Keeps
    {α : Type}
    (step : Run α)
    (post : α → Prop) :
    Prop :=
  ∀ m : Machine, m.IsReliable →
    match step m with
    | .ok a m' => m'.IsReliable ∧ post a
    | .error e m' => m'.IsReliable ∧ e.IsExpected

/- Programs keep reliable machines reliable. -/
theorem runProgram_keeps
    (limits : Limits)
    (program : List Stmt) :
    (runProgram limits program).Keeps fun _ => True := by
  intro m hReliable
  have hUpholds :=
    Policy.runProgram_upholds Policy.isSound_reliable limits
      (Stmt.bodyFormed_any program) m
      ((Policy.reliable_holds_iff m).mpr hReliable)
  cases hRun : runProgram limits program m with
  | ok a m' =>
      rw [hRun] at hUpholds
      exact ⟨(Policy.reliable_holds_iff m').mp hUpholds.1, trivial⟩
  | error e m' =>
      rw [hRun] at hUpholds
      exact
        ⟨(Policy.reliable_holds_iff m').mp hUpholds.1, hUpholds.2⟩

end Lox
