import Lox.Proofs.Machine.Roster

/-
  Evaluation preserves a roster.

  No expression and no call ever adds a name to the globals or
  takes one away, nor does a statement that is confined: by
  induction on the frames that are left, with one case for each
  node. What the induction carries is that functions stay
  confined, wherever they are bound or handed on.

  Key definitions include:
    * `Roster.EvalPreserves`
    * `Roster.ExecPreserves`
    * `Roster.CallPreserves`
    * `Roster.evaluation_preserves`
-/

------------------------------------------------------------
-- Lists Of Steps And Calls
------------------------------------------------------------

namespace Lox.Roster

/- Bounded expressions give confined values. -/
def EvalPreserves (R : Roster) (eval : Expr → Run Value) : Prop :=
  ∀ depth e m, R.CoversAt depth m → e.Bounded depth →
    R.Preserves (eval e) m R.Has

/- So do confined statements that return. -/
def ExecPreserves
    (R : Roster)
    (exec : Stmt → Run Completion) :
    Prop :=
  ∀ depth s m, R.CoversAt depth m → s.Confined depth →
    R.Preserves (exec s) m R.HasResult

/- So do calls, wherever they are made. -/
def CallPreserves
    (R : Roster)
    (call : Value → List Value → Token → Run Value) :
    Prop :=
  ∀ callee args paren m,
    R.Covers m → R.Has m.store callee → R.HasAll m.store args →
      R.Preserves (call callee args paren) m R.Has

variable {R : Roster} {depth : Nat} {m : Machine}
variable {eval : Expr → Run Value}
variable {exec : Stmt → Run Completion}
variable {call : Value → List Value → Token → Run Value}

theorem EvalPreserves.evalAll
    {args : List Expr}
    (hEval : R.EvalPreserves eval)
    (hAt : R.CoversAt depth m)
    (hArgs : Expr.ArgsBounded depth args) :
    R.Preserves (evalAll eval args) m R.HasAll := by
  induction args generalizing m with
  | nil => exact Run.maintains_pure hAt.toCovers (by simp [HasAll])
  | cons arg args ih =>
      apply (hEval depth arg m hAt hArgs.1).bind
      intro value m' hCovers hStays hValue
      apply (ih (hAt.stays hStays hCovers) hArgs.2).bind
      intro values m'' hCovers' hStays' hValues
      apply Run.maintains_pure hCovers'
      exact hasAll_cons.mpr ⟨hValue.grows hStays'.store, hValues⟩

theorem ExecPreserves.execAll
    {body : List Stmt}
    (hExec : R.ExecPreserves exec)
    (hAt : R.CoversAt depth m)
    (hBody : ∀ stmt ∈ body, stmt.Confined depth) :
    R.Preserves (execAll exec body) m R.HasResult := by
  apply (R.coversAt_remains depth).execAll (fun _ => trivial) _ hAt
  intro stmt hMem m hAt
  exact hExec depth stmt m hAt (hBody stmt hMem)

/- Parameters are no globals. -/
theorem preserves_bindParams
    {env : EnvId}
    {args : List Value}
    (hCovers : R.Covers m)
    (hEnv : env ≠ R.globals)
    (hArgs : R.HasAll m.store args)
    (params : List Token) :
    R.Preserves (bindParams env params args) m
      fun _ _ => True := by
  induction params generalizing m args with
  | nil => exact Run.maintains_pure hCovers trivial
  | cons param params ih =>
      cases args with
      | nil => exact Run.maintains_pure hCovers trivial
      | cons arg args =>
          rcases hasAll_cons.mp hArgs with ⟨hArg, hRest⟩
          have hOther :
              env = R.globals → param.lexeme ∈ R.names :=
            fun hSame => absurd hSame hEnv
          apply (preserves_define hCovers hOther hArg).bind
          intro _ m' hCovers' hStays _
          exact ih hCovers' (hRest.grows hStays.store)

/-
  The body of a function is executed two links further away
  than the function is.
-/
theorem ExecPreserves.callClosure
    {f : Closure}
    {args : List Value}
    (hExec : R.ExecPreserves exec)
    (hCovers : R.Covers m)
    (hFunction : f.Confined m.store R.globals)
    (hArgs : R.HasAll m.store args) :
    R.Preserves (callClosure exec f args) m R.Has := by
  rcases hFunction with ⟨depth, hBody, hEnv⟩
  apply (preserves_makeEnv hCovers (some f.env)).bind
  rintro params m₁ hCovers₁ hStays₁ ⟨hParams, hInside₁⟩
  have hArgs₁ := hArgs.grows hStays₁.store
  apply (preserves_bindParams hCovers₁ hParams hArgs₁ f.params).bind
  intro _ m₂ hCovers₂ hStays₂ _
  apply (preserves_makeEnv hCovers₂ (some params)).bind
  rintro body m₃ hCovers₃ _ ⟨_, hInside₃⟩
  have hAll :
      R.Preserves (Lox.execAll exec f.body)
        { m₃ with current := body } R.HasResult := by
    by_cases hNone : f.body = []
    · rw [hNone]
      exact
        Run.maintains_pure ⟨hCovers₃.globals, hCovers₃.store⟩ trivial
    · have hOuter := hInside₁ f.env depth rfl (hEnv hNone)
      have hHere :=
        hInside₃ params (depth + 1) rfl (hOuter.grows hStays₂.store)
      have hAt :
          R.CoversAt (depth + 2) { m₃ with current := body } :=
        ⟨⟨hCovers₃.globals, hCovers₃.store⟩, hHere⟩
      exact hExec.execAll hAt fun _ hMem => .of_mem hBody hMem
  apply (hAll.inScope covers_isOfStore).bind
  intro completion m₄ hCovers₄ _ hResult
  exact Run.maintains_pure hCovers₄ (has_result hResult)

/- A function that a native function makes has no statements. -/
theorem CallPreserves.callNative
    {args : List Value}
    (hCall : R.CallPreserves call)
    (hCovers : R.Covers m)
    (hArgs : R.HasAll m.store args)
    (native : Native) :
    R.Preserves (callNative call native args) m R.Has := by
  unfold Lox.callNative
  cases native.behavior with
  | clock => exact preserves_readClock hCovers
  | argument index =>
      simp only
      cases hArg : args[index]? with
      | none => exact Run.maintains_stop hCovers _
      | some value =>
          have hMem := List.mem_of_getElem? hArg
          exact Run.maintains_pure hCovers (hArgs value hMem)
  | constant value =>
      exact Run.maintains_pure hCovers (has_ofLiteral value m.store)
  | makeFunction name params =>
      apply (preserves_makeEnv hCovers none).bind
      intro env m' hCovers' _ _
      have hBody : Stmt.BodyBounded (0 + 2) [] := trivial
      exact
        preserves_makeFunction hCovers' hBody
          (fun hSome => absurd rfl hSome) name params
  | makeNative name arity =>
      apply (Run.maintains_freshIdent covers_isOfStore hCovers).bind
      intro ident m' hCovers' _ _
      exact Run.maintains_pure hCovers' (has_native _ m'.store)
  | apply index =>
      simp only
      cases hArg : args[index]? with
      | none => exact Run.maintains_stop hCovers _
      | some callee =>
          have hMem := List.mem_of_getElem? hArg
          apply hCall callee _ _ m hCovers (hArgs callee hMem)
          intro arg hOther
          exact hArgs arg (List.mem_of_mem_eraseIdx hOther)
  | foreign number => exact Run.maintains_stop hCovers _

end Lox.Roster

------------------------------------------------------------
-- Declarations Away From The Globals
------------------------------------------------------------

namespace Lox.Roster

variable {R : Roster} {depth : Nat} {m : Machine}

theorem preserves_declareFunction
    {name : Token}
    {params : List Token}
    {body : List Stmt}
    (hAt : R.CoversAt (depth + 1) m)
    (hBody : Stmt.BodyBounded (depth + 1 + 2) body) :
    R.Preserves (declareFunction name params body) m
      fun _ _ => True := by
  apply (preserves_current hAt).bind
  intro env m₁ hCovers₁ _ hEnv
  apply
    (preserves_makeFunction hCovers₁ hBody (fun _ => hEnv) name
      params).bind
  intro value m₂ hCovers₂ _ hValue
  exact
    preserves_define hCovers₂
      (fun hSame => absurd hSame hEnv.ne_globals) hValue

theorem preserves_defineHere
    {value : Value}
    (hAt : R.CoversAt (depth + 1) m)
    (hValue : R.Has m.store value)
    (name : String) :
    R.Preserves
      (do
        Run.define (← Run.current) name value
        return .normal)
      m R.HasResult := by
  apply (preserves_current hAt).bind
  intro env m₁ hCovers₁ hStays₁ hEnv
  have hValue₁ := hValue.grows hStays₁.store
  have hOther : env = R.globals → name ∈ R.names :=
    fun hSame => absurd hSame hEnv.ne_globals
  apply (preserves_define hCovers₁ hOther hValue₁).bind
  intro _ m₂ hCovers₂ _ _
  exact Run.maintains_pure hCovers₂ trivial

end Lox.Roster

------------------------------------------------------------
-- Expressions And Statements
------------------------------------------------------------

namespace Lox.Roster

variable {R : Roster} {rounds frames : Nat}
variable (hEval : R.EvalPreserves (eval rounds frames))
variable (hExec : R.ExecPreserves (exec rounds frames))
variable (hCall : R.CallPreserves (call rounds frames))

include hEval hCall in
theorem eval_preserves_succ :
    R.EvalPreserves (eval rounds (frames + 1)) := by
  intro depth e m hAt hBounded
  rw [eval.eq_def]
  cases e with
  | literal value =>
      exact
        Run.maintains_pure hAt.toCovers (has_ofLiteral value m.store)
  | grouping inner => exact hEval depth inner m hAt hBounded
  | «variable» name hops =>
      exact preserves_readName hAt.toCovers name hops
  | assign name value hops =>
      rcases hBounded with ⟨hInner, hHops⟩
      apply (hEval depth value m hAt hInner).bind
      intro result m₁ hCovers₁ hStays₁ hResult
      have hAt₁ := hAt.stays hStays₁ hCovers₁
      apply (preserves_writeName hAt₁ hHops hResult).bind
      intro _ m₂ hCovers₂ hStays₂ _
      exact Run.maintains_pure hCovers₂ (hResult.grows hStays₂.store)
  | unary op operand =>
      apply (hEval depth operand m hAt hBounded).bind
      intro result m₁ hCovers₁ _ _
      exact preserves_operator hCovers₁ (applyUnary_spec op result)
  | binary left op right =>
      apply (hEval depth left m hAt hBounded.1).bind
      intro a m₁ hCovers₁ hStays₁ _
      have hAt₁ := hAt.stays hStays₁ hCovers₁
      apply (hEval depth right m₁ hAt₁ hBounded.2).bind
      intro b m₂ hCovers₂ _ _
      exact preserves_operator hCovers₂ (applyBinary_spec op a b)
  | logical left op right =>
      apply (hEval depth left m hAt hBounded.1).bind
      intro a m₁ hCovers₁ hStays₁ hLeft
      have hAt₁ := hAt.stays hStays₁ hCovers₁
      exact
        (Run.maintains_pure hCovers₁ hLeft).ite
          (hEval depth right m₁ hAt₁ hBounded.2)
  | call callee paren args =>
      apply (hEval depth callee m hAt hBounded.1).bind
      intro f m₁ hCovers₁ hStays₁ hCallee
      have hAt₁ := hAt.stays hStays₁ hCovers₁
      apply (hEval.evalAll hAt₁ hBounded.2).bind
      intro values m₂ hCovers₂ hStays₂ hValues
      have hCallee₂ := hCallee.grows hStays₂.store
      exact
        (hCall f values paren m₂ hCovers₂ hCallee₂
          hValues).guardStack paren

/-
  A declaration is confined only away from the globals, where
  its name is none of theirs.
-/
include hEval hExec in
theorem exec_preserves_succ :
    R.ExecPreserves (exec rounds (frames + 1)) := by
  intro depth s m hAt hConfined
  have hBounded := hConfined.bounded
  rw [exec.eq_def]
  cases s with
  | expression value =>
      apply (hEval depth value m hAt hBounded).bind
      intro _ m₁ hCovers₁ _ _
      exact Run.maintains_pure hCovers₁ trivial
  | print value =>
      apply (hEval depth value m hAt hBounded).bind
      intro result m₁ hCovers₁ _ _
      apply
        (Run.maintains_printLine covers_isOfStore hCovers₁
          result.text).bind
      intro _ m₂ hCovers₂ _ _
      exact Run.maintains_pure hCovers₂ trivial
  | var name initializer =>
      cases depth with
      | zero => exact absurd (hConfined.plain rfl).1 id
      | succ depth =>
          cases initializer with
          | none =>
              exact
                preserves_defineHere hAt (has_nil m.store)
                  name.lexeme
          | some value =>
              apply (hEval _ value m hAt hBounded).bind
              intro result m₁ hCovers₁ hStays₁ hResult
              have hAt₁ := hAt.stays hStays₁ hCovers₁
              exact preserves_defineHere hAt₁ hResult name.lexeme
  | block body =>
      apply (preserves_current hAt).bind
      intro outer m₁ hCovers₁ _ hOuter
      apply (preserves_makeEnv hCovers₁ (some outer)).bind
      rintro env m₂ hCovers₂ _ ⟨_, hInside⟩
      have hAt₂ :
          R.CoversAt (depth + 1) { m₂ with current := env } :=
        ⟨⟨hCovers₂.globals, hCovers₂.store⟩,
          hInside outer depth rfl hOuter⟩
      have hBody : Stmt.BodyBounded (depth + 1) body := hBounded
      exact
        (hExec.execAll hAt₂ fun _ hMem =>
          .of_mem hBody hMem).inScope covers_isOfStore
  | ifThen condition thenBranch =>
      apply (hEval depth condition m hAt hBounded.1).bind
      intro value m₁ hCovers₁ hStays₁ _
      have hAt₁ := hAt.stays hStays₁ hCovers₁
      exact
        (hExec depth thenBranch m₁ hAt₁ hConfined.chosen).ite
          (Run.maintains_pure hCovers₁ trivial)
  | ifElse condition thenBranch elseBranch =>
      apply (hEval depth condition m hAt hBounded.1).bind
      intro value m₁ hCovers₁ hStays₁ _
      have hAt₁ := hAt.stays hStays₁ hCovers₁
      exact
        (hExec depth thenBranch m₁ hAt₁ hConfined.chosenThen).ite
          (hExec depth elseBranch m₁ hAt₁ hConfined.chosenElse)
  | loop condition body =>
      have hTest (m' : Machine) (hAt' : R.CoversAt depth m') :=
        hEval depth condition m' hAt' hBounded.1
      have hRound (m' : Machine) (hAt' : R.CoversAt depth m') :=
        hExec depth body m' hAt' hConfined.repeated
      exact
        (R.coversAt_remains depth).repeatWhile (fun _ => trivial)
          hTest hRound hAt rounds
  | function name params body =>
      cases depth with
      | zero => exact absurd (hConfined.plain rfl).1 id
      | succ depth =>
          have hBody : Stmt.BodyBounded (depth + 1 + 2) body :=
            hBounded
          apply (preserves_declareFunction hAt hBody).bind
          intro _ m₁ hCovers₁ _ _
          exact Run.maintains_pure hCovers₁ trivial
  | ret keyword value =>
      cases value with
      | none =>
          exact Run.maintains_pure hAt.toCovers (has_nil m.store)
      | some value =>
          apply (hEval depth value m hAt hBounded).bind
          intro result m₁ hCovers₁ _ hResult
          exact Run.maintains_pure hCovers₁ hResult

include hExec hCall in
theorem call_preserves_succ :
    R.CallPreserves (call rounds (frames + 1)) := by
  intro callee args paren m hCovers hCallee hArgs
  rw [call.eq_def]
  cases callee with
  | function f =>
      apply (Run.maintains_checkArity hCovers _ _ paren).bind
      intro _ m₁ hCovers₁ hStays₁ _
      have hFunction := hCallee.grows hStays₁.store f rfl
      exact
        hExec.callClosure hCovers₁ hFunction
          (hArgs.grows hStays₁.store)
  | native f =>
      apply (Run.maintains_checkArity hCovers _ _ paren).bind
      intro _ m₁ hCovers₁ hStays₁ _
      exact
        hCall.callNative hCovers₁ (hArgs.grows hStays₁.store)
          f.toNative
  | _ => exact Run.maintains_stop hCovers _

/- No evaluation changes the names of the globals. -/
theorem evaluation_preserves
    (R : Roster)
    (rounds frames : Nat) :
    R.EvalPreserves (eval rounds frames) ∧
    R.ExecPreserves (exec rounds frames) ∧
    R.CallPreserves (call rounds frames) := by
  induction frames with
  | zero =>
      refine ⟨?_, ?_, ?_⟩
      · intro depth e m hAt _
        rw [eval]
        exact Run.maintains_stop hAt.toCovers .outOfFrames
      · intro depth s m hAt _
        rw [exec]
        exact Run.maintains_stop hAt.toCovers .outOfFrames
      · intro callee args paren m hCovers _ _
        rw [call]
        exact Run.maintains_stop hCovers .outOfFrames
  | succ frames ih =>
      rcases ih with ⟨ihEval, ihExec, ihCall⟩
      exact
        ⟨eval_preserves_succ ihEval ihCall,
          exec_preserves_succ ihEval ihExec,
          call_preserves_succ ihExec ihCall⟩

end Lox.Roster
