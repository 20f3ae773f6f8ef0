import Lox.Proofs.Machine.Moments
import Lox.Proofs.Machine.Preservation

/-
  What adds to the globals.

  At the top level a declaration adds its own name when it has
  completed, and nothing else adds any. So a program adds the
  names that are declared by those of its statements that are
  executed to their end. Between the beginning of a statement
  and its end, all machines that a run passes through bind the
  same names in their globals.

  Key definitions include:
    * `Roster.declare`
    * `Roster.Follows`
    * `CompletesFirst`
    * `Roster.CoversAt.completed`
    * `Roster.Permits`
-/

------------------------------------------------------------
-- Statements Of The Top Level
------------------------------------------------------------

namespace Lox.Roster

/- The roster once a statement of the top level has completed. -/
def declare (R : Roster) (s : Stmt) : Roster :=
  match s.declared? with
  | none => R
  | some name => { R with names := addName R.names name.lexeme }

/- The roster once all statements of a list have completed. -/
def declareAll (R : Roster) (program : List Stmt) : Roster :=
  program.foldl declare R

theorem names_declare
    {s : Stmt}
    {token : Token}
    (hDeclared : s.declared? = some token)
    (R : Roster) :
    (R.declare s).names = addName R.names token.lexeme := by
  unfold declare
  rw [hDeclared]

theorem mem_names_declare
    {R : Roster}
    {s : Stmt}
    {name : String} :
    name ∈ (R.declare s).names ↔
      name ∈ R.names ∨
        ∃ token, s.declared? = some token ∧ token.lexeme = name := by
  unfold declare
  cases s.declared? with
  | none => simp
  | some token => simp [mem_addName, eq_comm]

theorem mem_names_declareAll
    {R : Roster}
    {program : List Stmt}
    {name : String} :
    name ∈ (R.declareAll program).names ↔
      name ∈ R.names ∨
        ∃ s ∈ program, ∃ token,
          s.declared? = some token ∧ token.lexeme = name := by
  induction program generalizing R with
  | nil => simp [declareAll]
  | cons s program ih =>
      show name ∈ ((R.declare s).declareAll program).names ↔ _
      rw [ih, mem_names_declare]
      simp only [List.exists_mem_cons_iff, or_assoc]

variable {R : Roster} {rounds frames : Nat} {m m' : Machine}
variable {s : Stmt}

/- What is defined at the top level is a name of the globals. -/
theorem CoversAt.defined
    {name : String}
    {value : Value}
    (hAt : R.CoversAt 0 m)
    (hValue : R.Has m.store value)
    (functions : Nat) :
    { R with names := addName R.names name }.CoversAt 0
      { m with
        store := m.store.define m.current name value
        functions } := by
  have hHere : m.current = R.globals := hAt.current.1
  have hGrows := Store.Grows.define m.store m.current name value
  have hNames :
      (m.store.define m.current name value).names R.globals =
        addName R.names name := by
    rw [hHere, Store.names_define_self hAt.store.top.lt_next,
      hAt.store.names]
  exact
    ⟨⟨hAt.globals, hAt.store.define rfl hNames hValue⟩,
      hAt.current.grows hGrows⟩

/-
  How a statement of the top level ends: what it declares is
  added to the roster if it completes.
-/
def Follows (R : Roster) (s : Stmt) :
    EStateM.Result Interrupt Machine Completion → Prop
  | .ok _ m' => (R.declare s).CoversAt 0 m'
  | .error _ m' => R.CoversAt 0 m'

theorem CoversAt.follows
    (hAt : R.CoversAt 0 m)
    (hTop : s.IsTopLevel)
    (rounds frames : Nat) :
    R.Follows s (exec rounds frames s m) := by
  cases hDeclared : s.declared? with
  | none =>
      have hSame : R.declare s = R := by
        unfold declare
        rw [hDeclared]
      have hStep :=
        (R.evaluation_preserves rounds frames).2.1 0 s m hAt
          (hTop.confined hDeclared)
      have hLeft :=
        hAt.stays (exec_restores rounds frames s m) hStep.left
      unfold Follows
      rw [hSame]
      cases hRun : exec rounds frames s m <;>
        (rw [hRun] at hLeft; exact hLeft)
  | some name =>
      cases frames with
      | zero =>
          rw [exec]
          exact hAt
      | succ frames =>
          rw [exec.eq_def]
          cases s with
          | var name initializer =>
              cases initializer with
              | none => exact hAt.defined (has_nil m.store) _
              | some value =>
                  have hStep :=
                    (R.evaluation_preserves rounds frames).1 0 value
                      m hAt hTop.bounded
                  have hLeft :=
                    hAt.stays (eval_restores rounds frames value m)
                      hStep.left
                  cases hValue : eval rounds frames value m with
                  | ok result u =>
                      rw [hValue] at hLeft
                      have hHas := (hStep.of_ok hValue).2.2
                      simp only
                      rw [bind_of_ok hValue]
                      exact hLeft.defined hHas u.functions
                  | error e u =>
                      rw [hValue] at hLeft
                      simp only
                      rw [bind_of_error hValue]
                      exact hLeft
          | function name params body =>
              have hHas {ident : Nat} :
                  R.Has m.store
                    (.function
                      { ident, name, params, body
                        env := m.current }) := by
                intro f hFunction
                cases hFunction
                exact ⟨0, hTop.bounded, fun _ => hAt.current⟩
              exact hAt.defined hHas (m.functions + 1)
          | _ => cases hDeclared

/- A program whose statements all complete. -/
theorem CoversAt.declaredAll
    {limits : Limits}
    {program : List Stmt}
    (hAt : R.CoversAt 0 m)
    (hTop : ∀ stmt ∈ program, stmt.IsTopLevel)
    (hRun : runProgram limits program m = .ok () m') :
    (R.declareAll program).CoversAt 0 m' := by
  induction program generalizing R m with
  | nil =>
      cases hRun
      exact hAt
  | cons stmt program ih =>
      rcases List.forall_mem_cons.mp hTop with ⟨hFirst, hRest⟩
      rcases bind_eq_ok_iff.mp hRun with ⟨_, u, hHere, hEnd⟩
      have hNext := hAt.follows hFirst limits.rounds limits.frames
      rw [hHere] at hNext
      exact ih hNext hRest hEnd

end Lox.Roster

------------------------------------------------------------
-- Programs Up To The First Failure
------------------------------------------------------------

namespace Lox

/-
  The first `n` statements of a program are executed to their
  end, and leave a machine. Either they are all, or the next
  one fails.
-/
structure CompletesFirst
    (limits : Limits)
    (program : List Stmt)
    (m : Machine)
    (n : Nat)
    (u : Machine) :
    Prop where
  completed : runProgram limits (program.take n) m = .ok () u
  stops :
    (n = program.length ∧ runProgram limits program m = .ok () u) ∨
    ∃ stmt e m',
      program[n]? = some stmt ∧
      exec limits.rounds limits.frames stmt u = .error e m' ∧
      runProgram limits program m = .error e m'

theorem exists_completesFirst
    (limits : Limits)
    (program : List Stmt)
    (m : Machine) :
    ∃ n u, CompletesFirst limits program m n u := by
  induction program generalizing m with
  | nil => exact ⟨0, m, rfl, .inl ⟨rfl, rfl⟩⟩
  | cons stmt program ih =>
      cases hRun : exec limits.rounds limits.frames stmt m with
      | error e m' =>
          refine ⟨0, m, rfl, .inr ⟨stmt, e, m', rfl, hRun, ?_⟩⟩
          unfold runProgram
          rw [bind_of_error hRun]
      | ok completion next =>
          rcases ih next with ⟨n, u, hCompleted, hStops⟩
          have hFirst {rest : List Stmt} :
              runProgram limits (stmt :: rest) m =
                runProgram limits rest next := by
            rw [runProgram, bind_of_ok hRun]
          refine ⟨n + 1, u, ?_, ?_⟩
          · rw [List.take_succ_cons, hFirst]
            exact hCompleted
          · rw [hFirst]
            rcases hStops with ⟨hAll, hEnd⟩ | hFails
            · exact .inl ⟨congrArg Nat.succ hAll, hEnd⟩
            · exact .inr hFails

/- A program adds what its completed statements declare. -/
theorem Roster.CoversAt.completed
    {R : Roster}
    {limits : Limits}
    {program : List Stmt}
    {m u : Machine}
    {n : Nat}
    (hAt : R.CoversAt 0 m)
    (hTop : ∀ stmt ∈ program, stmt.IsTopLevel)
    (hFirst : CompletesFirst limits program m n u) :
    (R.declareAll (program.take n)).CoversAt 0
      (Run.left (runProgram limits program m)) := by
  have hDone :=
    hAt.declaredAll
      (fun stmt hMem => hTop stmt (List.mem_of_mem_take hMem))
      hFirst.completed
  rcases hFirst.stops with
    ⟨_, hRun⟩ | ⟨stmt, e, m', hStmt, hFails, hRun⟩
  · rw [hRun]
    exact hDone
  · rw [hRun]
    have hMem := List.mem_of_getElem? hStmt
    have hNext :=
      hDone.follows (hTop stmt hMem) limits.rounds limits.frames
    rw [hFails] at hNext
    exact hNext

end Lox

------------------------------------------------------------
-- Moments
------------------------------------------------------------

namespace Lox.Roster

variable {R : Roster} {depth rounds frames : Nat}
variable {m here : Machine} {M M' : Moment}

theorem CoversAt.entered
    {outer : EnvId}
    (hCovers : R.Covers m)
    (hOuter : m.store.IsAt R.globals depth outer) :
    R.CoversAt (depth + 1) (m.entered outer) :=
  ⟨⟨hCovers.globals, hCovers.store.make (some outer)⟩,
    hOuter.make⟩

theorem Covers.bound
    {args : List Value}
    (hCovers : R.Covers m)
    (hArgs : R.HasAll m.store args)
    (f : Closure) :
    R.Covers (m.bound f args) := by
  have hGrows := Store.Grows.make m.store (some f.env)
  have hMade :
      R.Covers { m with store := m.store.make (some f.env) } :=
    ⟨hCovers.globals, hCovers.store.make _⟩
  have hBound :=
    preserves_bindParams hMade hCovers.store.next_ne
      (hArgs.grows hGrows) f.params
  exact (hBound.of_ok (bindParams_eq _ _ _ _)).1

theorem CoversAt.activation
    {f : Closure}
    {args : List Value}
    (hCovers : R.Covers m)
    (hEnv : m.store.IsAt R.globals depth f.env)
    (hArgs : R.HasAll m.store args) :
    R.CoversAt (depth + 2) (m.activation f args) :=
  .entered (hCovers.bound hArgs f)
    (hEnv.make.grows (Store.grows_bindAll _ _ _ _))

/-
  A moment at which nothing can be added to the globals: a
  bounded expression, a confined statement, or a call.
-/
def Permits (R : Roster) : Moment → Prop
  | ⟨_, .eval e, m⟩ =>
      ∃ depth, R.CoversAt depth m ∧ e.Bounded depth
  | ⟨_, .exec s, m⟩ =>
      ∃ depth, R.CoversAt depth m ∧ s.Confined depth
  | ⟨_, .call callee args _, m⟩ =>
      R.Covers m ∧ R.Has m.store callee ∧ R.HasAll m.store args

private theorem CoversAt.eval
    {e : Expr}
    {a : Value}
    {m' : Machine}
    (hAt : R.CoversAt depth m)
    (hBounded : e.Bounded depth)
    (hEval : Lox.eval rounds frames e m = .ok a m') :
    R.CoversAt depth m' ∧ m.Stays m' ∧ R.Has m'.store a := by
  have hStep :=
    (R.evaluation_preserves rounds frames).1 depth e m hAt hBounded
  rcases hStep.of_ok hEval with ⟨hCovers, hStays, hHas⟩
  exact ⟨hAt.stays hStays hCovers, hStays, hHas⟩

private theorem CoversAt.comesToStmt
    {body : List Stmt}
    {stmt : Stmt}
    (hAt : R.CoversAt (depth + 1) m)
    (hBody : Stmt.BodyBounded (depth + 1) body)
    (hStmt :
      ComesToStmt (Lox.exec rounds frames) body m stmt here) :
    R.CoversAt (depth + 1) here ∧ stmt.Confined (depth + 1) := by
  have hStep :=
    fun stmt hMem m hAt =>
      (R.evaluation_preserves rounds frames).2.1 (depth + 1) stmt m
        hAt (.of_mem hBody hMem)
  have hRemains := R.coversAt_remains (depth + 1)
  rcases hRemains.comesTo hStep hAt hStmt with ⟨hMem, hHere⟩
  exact ⟨hHere, .of_mem hBody hMem⟩

private theorem CoversAt.comesToLoop
    {condition : Expr}
    {body : Stmt}
    (hAt : R.CoversAt depth m)
    (hConfined : Stmt.Confined depth (.loop condition body))
    (hRound :
      ComesToRound (Lox.eval rounds frames condition)
        (Lox.exec rounds frames body) rounds m here) :
    R.CoversAt depth here := by
  rcases R.evaluation_preserves rounds frames with
    ⟨hEval, hExec, _⟩
  have hTest (m : Machine) (hAt : R.CoversAt depth m) :=
    hEval depth condition m hAt hConfined.bounded.1
  have hBody (m : Machine) (hAt : R.CoversAt depth m) :=
    hExec depth body m hAt hConfined.repeated
  exact (R.coversAt_remains depth).comesToRound hTest hBody hAt hRound

/- Such a moment leads to such moments only. -/
theorem Permits.leads
    (hPermits : R.Permits M)
    (hLeads : M.Leads rounds M') :
    R.Permits M' := by
  cases hLeads with
  | grouping | operand => exact hPermits
  | expression | printed | initializer | returned =>
      rcases hPermits with ⟨depth, hAt, hConfined⟩
      exact ⟨depth, hAt, hConfined.bounded⟩
  | assigned | left | leftLogical | callee =>
      rcases hPermits with ⟨depth, hAt, hBounded⟩
      exact ⟨depth, hAt, hBounded.1⟩
  | test | testElse =>
      rcases hPermits with ⟨depth, hAt, hConfined⟩
      exact ⟨depth, hAt, hConfined.bounded.1⟩
  | right hLeft | rightLogical hLeft =>
      rcases hPermits with ⟨depth, hAt, hBounded⟩
      exact ⟨depth, (hAt.eval hBounded.1 hLeft).1, hBounded.2⟩
  | chosen hTest =>
      rcases hPermits with ⟨depth, hAt, hConfined⟩
      have hHere := (hAt.eval hConfined.bounded.1 hTest).1
      exact ⟨depth, hHere, hConfined.chosen⟩
  | chosenThen hTest =>
      rcases hPermits with ⟨depth, hAt, hConfined⟩
      have hHere := (hAt.eval hConfined.bounded.1 hTest).1
      exact ⟨depth, hHere, hConfined.chosenThen⟩
  | chosenElse hTest =>
      rcases hPermits with ⟨depth, hAt, hConfined⟩
      have hHere := (hAt.eval hConfined.bounded.1 hTest).1
      exact ⟨depth, hHere, hConfined.chosenElse⟩
  | @argument frames m _ _ _ arg _ args _ hCallee hArg =>
      rcases hPermits with ⟨depth, hAt, hBounded⟩
      have hAt' := (hAt.eval hBounded.1 hCallee).1
      have hArgs := Expr.argsBounded_iff.mp hBounded.2
      have hStep :=
        fun arg hMem m hAt =>
          (R.evaluation_preserves rounds frames).1 depth arg m hAt
            (hArgs arg hMem)
      have hRemains := R.coversAt_remains depth
      rcases hRemains.comesTo hStep hAt' hArg with ⟨hMem, hHere⟩
      exact ⟨depth, hHere, hArgs arg hMem⟩
  | @called frames m _ _ _ _ args _ _ hCallee hArgs =>
      rcases hPermits with ⟨depth, hAt, hBounded⟩
      rcases hAt.eval hBounded.1 hCallee with ⟨hAt', _, hHas⟩
      have hEval := (R.evaluation_preserves rounds frames).1
      have hAll := hEval.evalAll hAt' hBounded.2
      rcases hAll.of_ok hArgs with ⟨hCovers, hStays, hValues⟩
      exact ⟨hCovers, hHas.grows hStays.store, hValues⟩
  | @inBlock frames m _ body _ hStmt =>
      rcases hPermits with ⟨depth, hAt, hConfined⟩
      have hBody : Stmt.BodyBounded (depth + 1) body :=
        hConfined.bounded
      have hInside := CoversAt.entered hAt.toCovers hAt.current
      rcases hInside.comesToStmt hBody hStmt with ⟨hHere, hInner⟩
      exact ⟨depth + 1, hHere, hInner⟩
  | @loopTest frames _ _ condition body hRound =>
      rcases hPermits with ⟨depth, hAt, hConfined⟩
      exact
        ⟨depth, hAt.comesToLoop hConfined hRound,
          hConfined.bounded.1⟩
  | @loopBody frames _ _ _ condition body _ hRound hTest =>
      rcases hPermits with ⟨depth, hAt, hConfined⟩
      have hHere := hAt.comesToLoop hConfined hRound
      exact
        ⟨depth, (hHere.eval hConfined.bounded.1 hTest).1,
          hConfined.repeated⟩
  | @inFunction frames m _ f args _ _ hArity hStmt =>
      rcases hPermits with ⟨hCovers, hCallee, hArgs⟩
      rcases hCallee f rfl with ⟨depth, hBody, hEnv⟩
      have hSome : f.body ≠ [] := by
        intro hNone
        rw [hNone] at hStmt
        cases hStmt
      have hInside := CoversAt.activation hCovers (hEnv hSome) hArgs
      rcases hInside.comesToStmt hBody hStmt with ⟨hHere, hInner⟩
      exact ⟨depth + 2, hHere, hInner⟩
  | applied hArity hApply hCallee =>
      rcases hPermits with ⟨hCovers, _, hArgs⟩
      refine
        ⟨hCovers, hArgs _ (List.mem_of_getElem? hCallee), ?_⟩
      intro arg hArg
      exact hArgs arg (List.mem_of_mem_eraseIdx hArg)

theorem Permits.leadsOn
    (hPermits : R.Permits M)
    (hLeads : M.LeadsOn rounds M') :
    R.Permits M' := by
  induction hLeads with
  | refl => exact hPermits
  | tail _ hLast ih => exact ih.leads hLast

theorem Permits.covers (hPermits : R.Permits M) :
    R.Covers M.machine := by
  rcases M with ⟨frames, task, m⟩
  cases task with
  | eval e => exact hPermits.choose_spec.1.toCovers
  | exec s => exact hPermits.choose_spec.1.toCovers
  | call callee args paren => exact hPermits.1

theorem Permits.left (hPermits : R.Permits M) :
    R.Covers (M.left rounds) := by
  rcases M with ⟨frames, task, m⟩
  rcases R.evaluation_preserves rounds frames with
    ⟨hEval, hExec, hCall⟩
  cases task with
  | eval e =>
      rcases hPermits with ⟨depth, hAt, hBounded⟩
      exact (hEval depth e m hAt hBounded).left
  | exec s =>
      rcases hPermits with ⟨depth, hAt, hConfined⟩
      exact (hExec depth s m hAt hConfined).left
  | call callee args paren =>
      rcases hPermits with ⟨hCovers, hHas, hArgs⟩
      exact (hCall callee args paren m hCovers hHas hArgs).left

/- All machines that it passes through are covered. -/
theorem Permits.passes
    (hPermits : R.Permits M)
    (hPasses : M.Passes rounds m) :
    R.Covers m := by
  cases hPasses with
  | start => exact hPermits.covers
  | stop => exact hPermits.left
  | entering frames m body =>
      rcases hPermits with ⟨depth, hAt, _⟩
      exact (CoversAt.entered hAt.toCovers hAt.current).toCovers
  | @binding m f args frames paren count =>
      rcases hPermits with ⟨hCovers, _, hArgs⟩
      apply hCovers.bound
      exact fun arg hArg => hArgs arg (List.mem_of_mem_take hArg)
  | @calling m f args =>
      rcases hPermits with ⟨hCovers, _, hArgs⟩
      have hBound := hCovers.bound hArgs f
      exact ⟨hBound.globals, hBound.store.make _⟩

/- Each statement of a program is come to in a covered machine. -/
theorem CoversAt.comesToTop
    {program : List Stmt}
    {s : Stmt}
    (hAt : R.CoversAt 0 m)
    (hTop : ∀ stmt ∈ program, stmt.IsTopLevel)
    (hStmt :
      ComesToTop (Lox.exec rounds frames) program m s here) :
    s.IsTopLevel ∧ ∃ R' : Roster, R'.CoversAt 0 here := by
  induction hStmt generalizing R with
  | here => exact ⟨hTop _ List.mem_cons_self, R, hAt⟩
  | @later first _ _ m _ _ _ hFirst _ _ ih =>
      rcases List.forall_mem_cons.mp hTop with ⟨hHead, hTail⟩
      have hNext := hAt.follows hHead rounds frames
      rw [hFirst] at hNext
      exact ih hNext hTail

/-
  Between the beginning of a statement of the top level and its
  end the globals bind what they did at the beginning, whatever
  is evaluated on the way.
-/
theorem CoversAt.passes_topLevel
    {s : Stmt}
    (hAt : R.CoversAt 0 m)
    (hTop : s.IsTopLevel)
    (hLeads : Moment.LeadsOn rounds ⟨frames, .exec s, m⟩ M)
    (hPasses : M.Passes rounds here) :
    R.Covers here ∨
      ∃ token completion,
        s.declared? = some token ∧
        exec rounds frames s m = .ok completion here ∧
        (R.declare s).Covers here := by
  cases hDeclared : s.declared? with
  | none =>
      have hFirst : R.Permits ⟨frames, .exec s, m⟩ :=
        ⟨0, hAt, hTop.confined hDeclared⟩
      exact .inl ((hFirst.leadsOn hLeads).passes hPasses)
  | some name =>
      rcases hLeads.cases_head with hSame | ⟨N, hFirst, hRest⟩
      · subst hSame
        cases hPasses with
        | start => exact .inl hAt.toCovers
        | stop =>
            have hNext := hAt.follows hTop rounds frames
            have hLeft :
                Moment.left rounds ⟨frames, .exec s, m⟩ =
                  Run.left (exec rounds frames s m) :=
              rfl
            rw [hLeft]
            cases hRun : exec rounds frames s m with
            | ok completion m' =>
                rw [hRun] at hNext
                exact
                  .inr
                    ⟨name, completion, rfl, rfl,
                      hNext.toCovers⟩
            | error e m' =>
                rw [hRun] at hNext
                exact .inl hNext.toCovers
        | entering => cases hDeclared
      · -- Only the initializer of a variable is evaluated.
        cases hFirst with
        | @initializer frames _ name value =>
            have hValue : R.Permits ⟨frames, .eval value, m⟩ :=
              ⟨0, hAt, hTop.bounded⟩
            exact .inl ((hValue.leadsOn hRest).passes hPasses)
        | _ => cases hDeclared

end Lox.Roster
