import Lox.Proofs.Machine.Succession
import Lox.Proofs.Session.Endings
import Lox.Proofs.Session.Restoration

/-
  The moments of a session.

  A session goes through steps. Each source that is run comes
  to moments, and each of them passes through machines; so all
  machines of a session can be reached, those in the middle of
  a run that fails included. As long as the session does not
  start over, its moments are in order, and its stores grow.

  Key definitions include:
    * `Session.MeetsIn`
    * `Session.Meets`
    * `Session.Sees`
    * `Session.Meets.linear`
    * `Custody.permits_of_meets`
-/

------------------------------------------------------------
-- Moments Of A Source
------------------------------------------------------------

namespace Lox

/-
  A moment that the run of a source comes to: the source is
  read and resolved, and the moment is that of a statement of
  its program, or of a part of one.
-/
def Session.MeetsIn
    (s : Session)
    (source : String)
    (M : Moment) :
    Prop :=
  ∃ resolved stmt m,
    s.readReports source = [] ∧
    resolveProgram (s.programOf source) = .ok resolved ∧
    ComesToTop (exec s.limits.rounds s.limits.frames)
      resolved.program s.machine stmt m ∧
    Moment.LeadsOn s.limits.rounds
      ⟨s.limits.frames, .exec stmt, m⟩ M

/- A moment that a session meets on the way through steps. -/
inductive Session.Meets :
    Session → List SessionStep → Moment → Prop where
  | now
      {s : Session} {source : String} {steps : List SessionStep}
      {M : Moment}
      (hMeets : s.MeetsIn source M) :
      Meets s (.run source :: steps) M
  | later
      {s : Session} {source : String} {steps : List SessionStep}
      {M : Moment}
      (hMeets : Meets (s.run source).1 steps M) :
      Meets s (.run source :: steps) M
  | anew
      {s : Session} {steps : List SessionStep} {M : Moment}
      (hMeets : Meets s.reset steps M) :
      Meets s (.reset :: steps) M

/-
  A machine that a session is seen with on the way: between
  two steps, or while it runs a source.
-/
inductive Session.Sees (s : Session) (steps : List SessionStep) :
    Machine → Prop where
  | between
      {before rest : List SessionStep}
      (hSteps : steps = before ++ rest) :
      Sees s steps (s.after before).machine
  | during
      {M : Moment} {m : Machine}
      (hMeets : s.Meets steps M)
      (hPasses : M.Passes s.limits.rounds m) :
      Sees s steps m

end Lox

------------------------------------------------------------
-- What A Source Leaves
------------------------------------------------------------

namespace Lox.Session

variable {s : Session} {source : String}

theorem after_append
    (s : Session)
    (before rest : List SessionStep) :
    s.after (before ++ rest) = (s.after before).after rest := by
  induction before generalizing s with
  | nil => rfl
  | cons step before ih => cases step <;> exact ih _

/- A source that is accepted leaves what its program leaves. -/
theorem machine_run
    {resolved : Resolved}
    (hRead : s.readReports source = [])
    (hResolve :
      resolveProgram (s.programOf source) = .ok resolved) :
    (s.run source).1.machine =
      { Run.left
          (runProgram s.limits resolved.program s.machine) with
        output := #[] } := by
  rw [run_of_resolve hRead hResolve,
    (TracedSession.finish_spec _ _).1]
  cases runProgram s.limits resolved.program s.machine <;> rfl

/-
  A source is run on the machine of the session, or it is not
  run and leaves the machine as it was; the limits and the
  native functions stay the same.
-/
theorem run_frame (s : Session) (source : String) :
    (s.run source).1.limits = s.limits ∧
    (s.run source).1.natives = s.natives ∧
    ((s.run source).1.machine = s.machine ∨
      ∃ resolved,
        s.readReports source = [] ∧
        resolveProgram (s.programOf source) = .ok resolved ∧
        (s.run source).1.machine =
          { Run.left
              (runProgram s.limits resolved.program s.machine) with
            output := #[] }) := by
  by_cases hRead : s.readReports source = []
  · cases hResolve : resolveProgram (s.programOf source) with
    | error e =>
        have hRun : s.run source =
            (s.clearFlags.report e.diagnostic, .ok .staticError) := by
          rw [run_of_read hRead]
          unfold interpret
          unfold programOf at hResolve
          rw [hResolve]
        rw [hRun]
        exact ⟨rfl, rfl, .inl rfl⟩
    | ok resolved =>
        have hMachine := machine_run hRead hResolve
        refine ⟨?_, ?_, .inr ⟨resolved, hRead, rfl, hMachine⟩⟩
        · rw [run_of_resolve hRead hResolve, limits_finish]
          exact (s.clearFlags.load_machine _ _).2
        · rw [run_of_resolve hRead hResolve, natives_finish]
          unfold load showTree
          split <;> rfl
  · rw [run_of_unread hRead, reportAll_frame]
    exact ⟨rfl, rfl, .inl rfl⟩

end Lox.Session

------------------------------------------------------------
-- Moments In Order
------------------------------------------------------------

namespace Lox.Session

open Moment

variable {s : Session} {source : String} {sources : List String}
variable {A B M : Moment} {m m' : Machine}

/- What a moment finds is there before the source is run. -/
theorem MeetsIn.grows (hMeets : s.MeetsIn source M) :
    s.machine.store.Grows M.machine.store := by
  rcases hMeets with ⟨resolved, stmt, m, _, _, hStmt, hLeads⟩
  exact (hStmt.grows (exec_restores _ _)).trans hLeads.grows

/- What a moment leaves is there when the source has been run. -/
theorem MeetsIn.grows_left (hMeets : s.MeetsIn source M) :
    (M.left s.limits.rounds).store.Grows
      (s.run source).1.machine.store := by
  rcases hMeets with
    ⟨resolved, stmt, m, hRead, hResolve, hStmt, hLeads⟩
  apply hLeads.grows_left.trans
  rw [run_of_resolve hRead hResolve]
  have hGrown :=
    hStmt.program_has (Run.lasts_grownFrom _) (.refl _)
  exact hGrown.trans (stays_finish _ _).store

/- Of two moments of a source one comes first. -/
theorem MeetsIn.linear
    (hA : s.MeetsIn source A)
    (hB : s.MeetsIn source B) :
    InOrder s.limits.rounds A B := by
  rcases hA with ⟨_, _, _, _, hResolve, hStmt, hLeads⟩
  rcases hB with ⟨_, _, _, _, hResolve', hStmt', hLeads'⟩
  rw [hResolve] at hResolve'
  cases hResolve'
  rcases hStmt.ordered hStmt' with hSame | hBefore | hBefore
  · cases hSame
    exact hLeads.linear hLeads'
  · exact inOrder_of_before (hBefore.leadsOn hLeads hLeads')
  · exact
      (inOrder_of_before (hBefore.leadsOn hLeads' hLeads)).symm

theorem Meets.grows
    (hMeets : s.Meets (sources.map .run) M) :
    s.machine.store.Grows M.machine.store := by
  induction sources generalizing s with
  | nil => cases hMeets
  | cons source sources ih =>
      cases hMeets with
      | now hMeets => exact hMeets.grows
      | later hMeets =>
          exact (s.stays_run source).store.trans (ih hMeets)

/-
  Of two moments of a session that does not start over, one
  comes first.
-/
theorem Meets.linear
    (hA : s.Meets (sources.map .run) A)
    (hB : s.Meets (sources.map .run) B) :
    InOrder s.limits.rounds A B := by
  induction sources generalizing s with
  | nil => cases hA
  | cons source sources ih =>
      have hLimits := (s.run_frame source).1
      cases hA with
      | now hA =>
          cases hB with
          | now hB => exact hA.linear hB
          | later hB =>
              exact
                inOrder_of_before (hA.grows_left.trans hB.grows)
      | later hA =>
          cases hB with
          | now hB =>
              exact
                (inOrder_of_before
                  (hB.grows_left.trans hA.grows)).symm
          | later hB =>
              rw [← hLimits]
              exact ih hA hB

theorem grows_after
    (s : Session)
    (sources : List String) :
    s.machine.store.Grows
      (s.after (sources.map .run)).machine.store := by
  induction sources generalizing s with
  | nil => exact .refl _
  | cons source sources ih =>
      exact (s.stays_run source).store.trans (ih _)

theorem Meets.grows_left
    (hMeets : s.Meets (sources.map .run) M) :
    (M.left s.limits.rounds).store.Grows
      (s.after (sources.map .run)).machine.store := by
  induction sources generalizing s with
  | nil => cases hMeets
  | cons source sources ih =>
      cases hMeets with
      | now hMeets =>
          exact hMeets.grows_left.trans (grows_after _ _)
      | later hMeets =>
          rw [← (s.run_frame source).1]
          exact ih hMeets

/- All that is seen of a store is there in the end. -/
theorem Sees.grows
    (hSees : s.Sees (sources.map .run) m) :
    m.store.Grows (s.after (sources.map .run)).machine.store := by
  cases hSees with
  | @between before rest hSteps =>
      rcases List.map_eq_append_iff.mp hSteps with
        ⟨first, second, rfl, rfl, rfl⟩
      rw [List.map_append, after_append]
      exact grows_after _ _
  | during hMeets hPasses =>
      exact hPasses.grows_left.trans hMeets.grows_left

/- The links between environments are always seen the same. -/
theorem Sees.parent?_eq
    {env : EnvId}
    (hSees : s.Sees (sources.map .run) m)
    (hSees' : s.Sees (sources.map .run) m')
    (hEnv : env < m.store.next)
    (hEnv' : env < m'.store.next) :
    m'.store.parent? env = m.store.parent? env := by
  rw [← hSees.grows.parent_eq env hEnv,
    ← hSees'.grows.parent_eq env hEnv']

end Lox.Session

------------------------------------------------------------
-- Sessions In Custody
------------------------------------------------------------

namespace Lox.Custody

variable {C : Custody} {s : Session} {source : String}
variable {steps : List SessionStep} {M : Moment} {m : Machine}

theorem permits_of_meetsIn
    (hAt : C.CoversAt s.machine)
    (hMeets : s.MeetsIn source M) :
    C.Permits M := by
  rcases hMeets with ⟨resolved, stmt, m, _, _, hStmt, hLeads⟩
  have hExec :=
    (C.evaluation_guarded s.limits.rounds s.limits.frames).2.1
  have hFirst :
      C.Permits ⟨s.limits.frames, .exec stmt, m⟩ :=
    ⟨hAt.comesTo hExec hStmt, trivial⟩
  exact hFirst.leadsOn hLeads

theorem CoversAt.run
    (hAt : C.CoversAt s.machine)
    (source : String) :
    C.CoversAt (s.run source).1.machine := by
  rcases (s.run_frame source).2.2 with
    hSame | ⟨resolved, _, _, hLeft⟩
  · rw [hSame]
    exact hAt
  · rw [hLeft]
    have hStays :=
      Run.compositional_restores.runProgram s.limits
        resolved.program s.machine
    have hCovers :=
      (guards_runProgram hAt s.limits resolved.program).covers_left
    have hLeft := hAt.stays hStays hCovers
    exact ⟨⟨hLeft.globals, hLeft.store⟩, hLeft.current⟩

/- A session is in custody if each of its new machines is. -/
structure Hosts (C : Custody) (s : Session) : Prop where
  machine : C.CoversAt s.machine
  start : ∀ clock, C.CoversAt (.start s.natives clock)

theorem Hosts.run (hHosts : C.Hosts s) (source : String) :
    C.Hosts (s.run source).1 := by
  refine ⟨hHosts.machine.run source, ?_⟩
  rw [(s.run_frame source).2.1]
  exact hHosts.start

theorem Hosts.reset (hHosts : C.Hosts s) : C.Hosts s.reset :=
  ⟨hHosts.start _, hHosts.start⟩

theorem Hosts.after
    (hHosts : C.Hosts s)
    (steps : List SessionStep) :
    C.Hosts (s.after steps) := by
  induction steps generalizing s with
  | nil => exact hHosts
  | cons step steps ih =>
      cases step with
      | run source => exact ih (hHosts.run source)
      | reset => exact ih hHosts.reset

/- All moments of a session are permitted. -/
theorem Hosts.permits
    (hHosts : C.Hosts s)
    (hMeets : s.Meets steps M) :
    C.Permits M := by
  induction hMeets with
  | now hMeets => exact permits_of_meetsIn hHosts.machine hMeets
  | later _ ih => exact ih (hHosts.run _)
  | anew _ ih => exact ih hHosts.reset

/- All machines that a session is seen with are in custody. -/
theorem Hosts.sees
    (hHosts : C.Hosts s)
    (hSees : s.Sees steps m) :
    C.CoversAt m := by
  cases hSees with
  | between => exact (hHosts.after _).machine
  | during hMeets hPasses =>
      exact (hHosts.permits hMeets).passes hPasses

end Lox.Custody
