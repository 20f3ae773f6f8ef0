import Lox.Proofs.Machine.Moments
import Lox.Proofs.Scope.Returns

/-
  Where returns end.

  A `return` leaves the blocks, branches and loops around it,
  up to the call that executes them: the call ends with its
  value. Between the two nothing else is executed. In a
  program that has been resolved no `return` gets past the
  calls, so the top level, which takes no notice of how its
  statements end, misses none.

  Key definitions include:
    * `Run.NeverReturns`
    * `Moment.ExecutedBy`
    * `Moment.EndsWith`
    * `returns_end_in_calls`
-/

------------------------------------------------------------
-- Statements That Never Return
------------------------------------------------------------

namespace Lox

namespace Run

variable {α : Type}

/- Where the step ends well, it ends normally. -/
def NeverReturns (step : Run Completion) : Prop :=
  ∀ (m m' : Machine) (completion : Completion),
    step m = .ok completion m' → completion = .normal

theorem neverReturns_normal :
    NeverReturns (return .normal) := by
  intro m m' completion hRun
  cases hRun
  rfl

theorem NeverReturns.after
    {step : Run α}
    {next : α → Run Completion}
    (hNext : ∀ a, (next a).NeverReturns) :
    (step >>= next).NeverReturns := by
  intro m m' completion hRun
  rcases bind_eq_ok_iff.mp hRun with ⟨a, u, _, hEnd⟩
  exact hNext a u m' completion hEnd

theorem NeverReturns.ite
    {step other : Run Completion}
    {p : Prop}
    [Decidable p]
    (hStep : step.NeverReturns)
    (hOther : other.NeverReturns) :
    (if p then step else other).NeverReturns := by
  by_cases hHolds : p
  · rw [if_pos hHolds]
    exact hStep
  · rw [if_neg hHolds]
    exact hOther

theorem NeverReturns.inScope
    {step : Run Completion}
    (hStep : step.NeverReturns)
    (env : EnvId) :
    (inScope env step).NeverReturns := by
  intro m m' completion hRun
  rw [inScope_eq] at hRun
  cases hInner : step { m with current := env } with
  | ok a u =>
      rw [hInner] at hRun
      cases hRun
      exact hStep _ u _ hInner
  | error e u =>
      rw [hInner] at hRun
      cases hRun

theorem NeverReturns.execAll
    {exec : Stmt → Run Completion}
    {body : List Stmt}
    (hExec : ∀ stmt ∈ body, (exec stmt).NeverReturns) :
    (execAll exec body).NeverReturns := by
  induction body with
  | nil => exact neverReturns_normal
  | cons stmt body ih =>
      rcases List.forall_mem_cons.mp hExec with ⟨hFirst, hRest⟩
      intro m m' completion hRun
      rcases bind_eq_ok_iff.mp hRun with ⟨first, u, hHere, hEnd⟩
      rw [hFirst m u first hHere] at hEnd
      exact ih hRest u m' completion hEnd

theorem NeverReturns.repeatWhile
    {body : Run Completion}
    (hBody : body.NeverReturns)
    (condition : Run Value)
    (rounds : Nat) :
    (repeatWhile condition body rounds).NeverReturns := by
  induction rounds with
  | zero =>
      intro m m' completion hRun
      cases hRun
  | succ rounds ih =>
      apply after
      intro value
      refine ite ?_ neverReturns_normal
      intro m m' completion hRun
      rcases bind_eq_ok_iff.mp hRun with ⟨round, u, hHere, hEnd⟩
      rw [hBody m u round hHere] at hEnd
      exact ih u m' completion hEnd

end Run

open Run

/- By induction on the frames, one case for each statement. -/
theorem exec_neverReturns
    (rounds frames : Nat)
    {s : Stmt}
    (hFree : s.ReturnFree) :
    (exec rounds frames s).NeverReturns := by
  induction frames generalizing s with
  | zero =>
      intro m m' completion hRun
      rw [exec] at hRun
      cases hRun
  | succ frames ih =>
      rw [exec.eq_def]
      cases s with
      | expression value =>
          exact .after fun _ => neverReturns_normal
      | print value =>
          exact .after fun _ => .after fun _ => neverReturns_normal
      | var name initializer =>
          cases initializer <;>
            exact
              .after fun _ => .after fun _ => .after fun _ =>
                neverReturns_normal
      | block body =>
          apply NeverReturns.after
          intro outer
          apply NeverReturns.after
          intro env
          apply NeverReturns.inScope
          apply NeverReturns.execAll
          intro stmt hMem
          exact ih (hFree.of_mem hMem)
      | ifThen condition thenBranch =>
          apply NeverReturns.after
          intro value
          exact .ite (ih hFree) neverReturns_normal
      | ifElse condition thenBranch elseBranch =>
          apply NeverReturns.after
          intro value
          exact .ite (ih hFree.1) (ih hFree.2)
      | loop condition body =>
          have hBody : body.ReturnFree := hFree
          exact NeverReturns.repeatWhile (ih hBody) _ rounds
      | function name params body =>
          exact .after fun _ => neverReturns_normal
      | ret keyword value => exact hFree.elim

/-
  The top level takes no notice of how statements end. Where
  no statement returns, it does what a body would do.
-/
theorem runProgram_eq_execAll
    {program : List Stmt}
    (hFree : Stmt.BodyReturnFree program)
    (limits : Limits)
    (m : Machine) :
    runProgram limits program m =
      (do
        let _ ← execAll (exec limits.rounds limits.frames) program
        return ()) m := by
  induction program generalizing m with
  | nil => rfl
  | cons stmt program ih =>
      unfold runProgram execAll
      have hNever :=
        exec_neverReturns limits.rounds limits.frames hFree.1
      cases hRun : exec limits.rounds limits.frames stmt m with
      | ok completion u =>
          have hNormal := hNever m u completion hRun
          subst hNormal
          rw [bind_of_ok hRun, ih hFree.2, bind_assoc,
            bind_of_ok hRun]
      | error e u =>
          rw [bind_of_error hRun, bind_assoc, bind_of_error hRun]

end Lox

------------------------------------------------------------
-- Returns On Their Way
------------------------------------------------------------

namespace Lox

section Lists

variable {m here tested left : Machine} {v value : Value}

/- A body ends with the first statement that returns. -/
theorem ComesTo.execAll_returned
    {exec : Stmt → Run Completion}
    {body : List Stmt}
    {stmt : Stmt}
    (hStmt : ComesToStmt exec body m stmt here)
    (hReturns : exec stmt here = .ok (.returned v) left) :
    execAll exec body m = .ok (.returned v) left := by
  induction hStmt with
  | here =>
      unfold execAll
      rw [bind_of_ok hReturns]
      rfl
  | later hFirst hOn _ ih =>
      subst hOn
      unfold execAll
      rw [bind_of_ok hFirst]
      exact ih hReturns

/- A loop ends with the first round that returns. -/
theorem ComesToRound.repeatWhile_returned
    {condition : Run Value}
    {body : Run Completion}
    {rounds : Nat}
    (hRound : ComesToRound condition body rounds m here)
    (hTest : condition here = .ok value tested)
    (hTrue : value.isTruthy = true)
    (hReturns : body tested = .ok (.returned v) left) :
    repeatWhile condition body rounds m =
      .ok (.returned v) left := by
  induction hRound with
  | first =>
      unfold repeatWhile
      rw [bind_of_ok hTest, if_pos hTrue, bind_of_ok hReturns]
      rfl
  | next hCondition hTrue' hBody _ ih =>
      unfold repeatWhile
      rw [bind_of_ok hCondition, if_pos hTrue', bind_of_ok hBody]
      exact ih hTest

end Lists

/-
  One statement is executed as a part of another one, or by a
  call.
-/
def Moment.ExecutedBy
    (rounds : Nat)
    (M' M : Moment) :
    Prop :=
  M.Leads rounds M' ∧ ∃ stmt, M'.task = .exec stmt

/-
  How an evaluation ends with a value: a statement returns the
  value, an expression or a call gives it.
-/
def Moment.EndsWith
    (rounds : Nat)
    (v : Value)
    (left : Machine) :
    Moment → Prop
  | ⟨frames, .eval e, m⟩ => eval rounds frames e m = .ok v left
  | ⟨frames, .exec s, m⟩ =>
      exec rounds frames s m = .ok (.returned v) left
  | ⟨frames, .call callee args paren, m⟩ =>
      call rounds frames callee args paren m = .ok v left

variable {rounds : Nat} {M M' : Moment} {v : Value}
variable {left : Machine}

theorem Moment.EndsWith.left_eq
    (hEnds : M.EndsWith rounds v left) :
    M.left rounds = left := by
  rcases M with ⟨frames, task, m⟩
  cases task with
  | eval e =>
      have hRun : eval rounds frames e m = .ok v left := hEnds
      simp only [Moment.left, hRun, Run.left]
  | exec s =>
      have hRun : exec rounds frames s m = .ok (.returned v) left :=
        hEnds
      simp only [Moment.left, hRun, Run.left]
  | call callee args paren =>
      have hRun :
          call rounds frames callee args paren m = .ok v left :=
        hEnds
      simp only [Moment.left, hRun, Run.left]

/- An evaluation that has ended is where it began. -/
theorem Moment.EndsWith.back
    (hEnds : M.EndsWith rounds v left) :
    M.EndsWith rounds v
      { left with current := M.machine.current } := by
  have hStays := M.stays_left rounds
  rw [hEnds.left_eq] at hStays
  rw [← hStays.current]
  exact hEnds

/-
  What a statement returns, the statement or call that it is
  executed by returns too. Nothing is done on the way, but
  that environments are left.
-/
theorem Moment.ExecutedBy.endsWith
    (hExecuted : M'.ExecutedBy rounds M)
    (hEnds : M'.EndsWith rounds v left) :
    M.EndsWith rounds v
      { left with current := M.machine.current } := by
  rcases hExecuted with ⟨hLeads, stmt, hTask⟩
  -- Only what leads to a statement is left to be looked at.
  cases hLeads with
  | grouping | assigned | operand | left | right | leftLogical
  | rightLogical | callee | argument | called | expression
  | printed | initializer | test | testElse | loopTest
  | returned | applied => cases hTask
  | @inBlock frames m here body stmt hStmt =>
      have hBody := hStmt.execAll_returned hEnds
      show exec rounds (frames + 1) (.block body) m = _
      rw [exec_block, hBody]
      rfl
  | @chosen frames m _ condition thenBranch _ hTest hTrue =>
      apply EndsWith.back
      show exec rounds (frames + 1) (.ifThen condition _) m = _
      rw [exec.eq_def]
      simp only
      rw [bind_of_ok hTest, if_pos hTrue]
      exact hEnds
  | @chosenThen frames m _ condition _ _ _ hTest hTrue =>
      apply EndsWith.back
      show exec rounds (frames + 1) (.ifElse condition _ _) m = _
      rw [exec.eq_def]
      simp only
      rw [bind_of_ok hTest, if_pos hTrue]
      exact hEnds
  | @chosenElse frames m _ condition _ _ _ hTest hFalse =>
      apply EndsWith.back
      show exec rounds (frames + 1) (.ifElse condition _ _) m = _
      rw [exec.eq_def]
      simp only
      rw [bind_of_ok hTest, hFalse, if_neg Bool.false_ne_true]
      exact hEnds
  | @loopBody frames m _ _ condition body _ hRound hTest hTrue =>
      apply EndsWith.back
      show exec rounds (frames + 1) (.loop condition body) m = _
      rw [exec.eq_def]
      exact hRound.repeatWhile_returned hTest hTrue hEnds
  | @inFunction frames m here f args paren stmt hArity hStmt =>
      have hBody := hStmt.execAll_returned hEnds
      show call rounds (frames + 1) (.function f) args paren m = _
      rw [call_function hArity, callClosure_eq, bind_of_ok hBody]
      rfl

/- A statement that was executed on the way by another one. -/
abbrev Moment.ExecutedOn (rounds : Nat) (M M' : Moment) : Prop :=
  Relation.ReflTransGen
    (fun A B => Moment.ExecutedBy rounds B A) M M'

/- What is returned comes all the way. -/
theorem Moment.ExecutedOn.endsWith
    (hExecuted : M.ExecutedOn rounds M')
    (hEnds : M'.EndsWith rounds v left) :
    M.EndsWith rounds v
      { left with current := M.machine.current } := by
  induction hExecuted using
    Relation.ReflTransGen.head_induction_on with
  | refl => exact hEnds.back
  | head hFirst _ ih =>
      have hWhole := hFirst.endsWith ih
      exact hWhole

/- A call of a function of the program. -/
def Moment.IsFunctionCall (M : Moment) : Prop :=
  ∃ f args paren, M.task = .call (.function f) args paren

/-
  Where a statement is executed that a moment leads to: by the
  moment itself, or by a call on the way to it. By induction on
  the way; a call is the last one if nothing but statements
  follow.
-/
theorem Moment.LeadsOn.executed
    (hLeads : M.LeadsOn rounds M')
    {stmt : Stmt}
    (hTask : M'.task = .exec stmt) :
    M.ExecutedOn rounds M' ∨
      ∃ C, C.IsFunctionCall ∧ M.LeadsOn rounds C ∧
        C.ExecutedOn rounds M' := by
  induction hLeads generalizing stmt with
  | refl => exact .inl .refl
  | @tail N M' hLeads hLast ih =>
      have hStep : M'.ExecutedBy rounds N := ⟨hLast, stmt, hTask⟩
      rcases N with ⟨frames, task, m⟩
      cases task with
      | eval e => cases hLast <;> cases hTask
      | exec s =>
          rcases ih rfl with hOn | ⟨C, hCall, hOn, hExecuted⟩
          · exact .inl (hOn.tail hStep)
          · exact .inr ⟨C, hCall, hOn, hExecuted.tail hStep⟩
      | call callee args paren =>
          refine .inr ⟨_, ?_, hLeads, .single hStep⟩
          cases hLast with
          | inFunction => exact ⟨_, _, _, rfl⟩
          | applied => cases hTask

end Lox

------------------------------------------------------------
-- Programs
------------------------------------------------------------

namespace Lox

theorem ComesTo.mem
    {ι α : Type}
    {step : ι → Run α}
    {goesOn : α → Prop}
    {items : List ι}
    {item : ι}
    {m here : Machine}
    (hItem : ComesTo step goesOn items m item here) :
    item ∈ items := by
  induction hItem with
  | here => exact List.mem_cons_self
  | later _ _ _ ih => exact List.mem_cons_of_mem _ ih

/-
  A resolved program on any machine. No statement of it ends
  with a `return`, so that the top level, which goes on however
  a statement has ended, does what a body would do. And every
  `return` that is executed on the way is executed by a call,
  with nothing but statements between the two: the call gives
  the value of the `return`, and leaves what that has left.
-/
theorem returns_end_in_calls
    {program : List Stmt}
    {resolved : Resolved}
    (hResolve : resolveProgram program = .ok resolved) :
    (∀ stmt ∈ resolved.program,
      ∀ rounds frames (m left : Machine) completion,
        exec rounds frames stmt m = .ok completion left →
          completion = .normal) ∧
    (∀ limits m,
      runProgram limits resolved.program m =
        (do
          let _ ←
            execAll (exec limits.rounds limits.frames)
              resolved.program
          return ()) m) ∧
    ∀ rounds frames (m here left : Machine) stmt M keyword value v,
      ComesToTop (exec rounds frames) resolved.program m stmt
        here →
      Moment.LeadsOn rounds ⟨frames, .exec stmt, here⟩ M →
      M.task = .exec (.ret keyword value) →
      exec rounds M.frames (.ret keyword value) M.machine =
        .ok (.returned v) left →
      ∃ C f args paren,
        C.task = .call (.function f) args paren ∧
        Moment.LeadsOn rounds ⟨frames, .exec stmt, here⟩ C ∧
        C.ExecutedOn rounds M ∧
        call rounds C.frames (.function f) args paren C.machine =
          .ok v { left with current := C.machine.current } := by
  have hFree := returnFree_of_resolveProgram hResolve
  have hNever {stmt : Stmt} (hMem : stmt ∈ resolved.program)
      (rounds frames : Nat) :
      (exec rounds frames stmt).NeverReturns :=
    exec_neverReturns rounds frames (hFree.of_mem hMem)
  refine ⟨?_, ?_, ?_⟩
  · intro stmt hMem rounds frames m left completion hRun
    exact hNever hMem rounds frames m left completion hRun
  · intro limits m
    exact runProgram_eq_execAll hFree limits m
  · intro rounds frames m here left stmt M keyword value v hStmt
      hLeads hTask hRun
    have hEnds : M.EndsWith rounds v left := by
      rcases M with ⟨frames', task, m'⟩
      subst hTask
      exact hRun
    rcases hLeads.executed hTask with
      hOn | ⟨C, ⟨f, args, paren, hCall⟩, hOn, hExecuted⟩
    · have hReturned := hOn.endsWith hEnds
      have hNormal := hNever hStmt.mem rounds frames _ _ _ hReturned
      cases hNormal
    · refine ⟨C, f, args, paren, hCall, hOn, hExecuted, ?_⟩
      have hCallEnds := hExecuted.endsWith hEnds
      rcases C with ⟨frames', task, m'⟩
      subst hCall
      exact hCallEnds

/- The function of `fun f() { return true; }`. -/
def returnsTrue : Closure :=
  { ident := 0
    name := ⟨.identifier, "f", .nil, 1, 4⟩
    params := []
    body :=
      [ .ret ⟨.returnKw, "return", .nil, 1, 10⟩
          (some (.literal (.bool true))) ]
    env := 0 }

/- The call `f()`. -/
def callTrue : Expr :=
  .call (.variable returnsTrue.name none)
    ⟨.rightParen, ")", .nil, 1, 27⟩ []

/- The statements `fun f() { return true; } f();`. -/
def callOnce : List Stmt :=
  [ .function returnsTrue.name [] returnsTrue.body,
    .expression callTrue ]

theorem returns_end_in_calls_once :
    resolveProgram callOnce = .ok ⟨callOnce, 0⟩ ∧
    ∃ (C : Moment) (f : Closure) (args : List Value)
        (paren : Token) (left : Machine),
      C.task = .call (.function f) args paren ∧
      call 9 C.frames (.function f) args paren C.machine =
        .ok (.bool true) left := by
  have hResolve : resolveProgram callOnce = .ok ⟨callOnce, 0⟩ := rfl
  let start := Machine.start [] ⟨[]⟩
  let declared : Machine :=
    { start with
      store := start.store.define 0 "f" (.function returnsTrue)
      functions := 1 }
  have hStmt :
      ComesToTop (exec 9 9) callOnce start
        (.expression callTrue) declared :=
    .later (@rfl _ (EStateM.Result.ok Completion.normal declared))
      trivial .here
  have hCallee :
      eval 9 7 (.variable returnsTrue.name none) declared =
        .ok (.function returnsTrue) declared :=
    rfl
  have hArgs :
      evalAll (eval 9 7) [] declared = .ok [] declared :=
    rfl
  have hCalled :
      Moment.LeadsOn 9 ⟨9, .exec (.expression callTrue), declared⟩
        ⟨7, .call (.function returnsTrue) [] _, declared⟩ :=
    .head .expression (.single (.called hCallee hArgs))
  have hLeads := hCalled.tail (.inFunction rfl .here)
  rcases
    (returns_end_in_calls hResolve).2.2 9 9 _ _ _ _ _ _ _ _ hStmt
      hLeads rfl rfl with
    ⟨C, f, args, paren, hTask, _, _, hCall⟩
  exact ⟨hResolve, C, f, args, paren, _, hTask, hCall⟩

end Lox
