import Lox.Proofs.Machine.Soundness

/-
  Evaluation keeps step with the resolver.

  Every expression and statement, and every call, keeps a
  sound run sound: by induction on the frames that are left,
  with one case for each node.

  Key definitions include:
    * `EvalKeeps`
    * `ExecKeeps`
    * `CallKeeps`
    * `evaluation_keeps`
    * `runProgramTraced_keeps`
-/

------------------------------------------------------------
-- Lists Of Steps
------------------------------------------------------------

namespace Lox.TracedRun

open Traced

/- What is promised of the evaluation of expressions. -/
def EvalKeeps
    (eval : Notes → Expr → TracedRun Value) :
    Prop :=
  ∀ (t : Traced) (scopes : List Scope) (e : Expr)
    (notes : Notes),
    t.Sound → t.In scopes → e.Noted scopes notes →
      (eval notes e).Keeps t fun value t' => value.Fits t'

/-
  What is promised of the execution of statements: the scopes
  after a statement are found if it ended normally.
-/
def ExecKeeps
    (exec : Notes → Stmt → TracedRun Completion) :
    Prop :=
  ∀ (t : Traced) (scopes next : List Scope) (s : Stmt)
    (notes : Notes),
    t.Sound → t.In scopes → s.Noted scopes notes next →
      (exec notes s).Keeps t fun completion t' =>
        completion.Fits t' ∧
          (completion = .normal → t'.In next)

/- What is promised of calls. -/
def CallKeeps
    (call : Value → List Value → Token → TracedRun Value) :
    Prop :=
  ∀ (t : Traced) (callee : Value) (args : List Value)
    (paren : Token),
    t.Sound → callee.Fits t → (∀ arg ∈ args, arg.Fits t) →
      (call callee args paren).Keeps t
        fun value t' => value.Fits t'

variable {t : Traced} {scopes : List Scope}

theorem EvalKeeps.evalAll
    {eval : Notes → Expr → TracedRun Value}
    (hEval : EvalKeeps eval)
    {args : List Expr}
    {notes : List Notes}
    (hSound : t.Sound)
    (hIn : t.In scopes)
    (hNoted : List.Forall₂ (Expr.Noted scopes) args notes) :
    (evalAllTraced eval notes args).Keeps t
      fun values t' => ∀ value ∈ values, value.Fits t' := by
  induction hNoted generalizing t with
  | nil => exact keeps_pure hSound (by simp)
  | @cons arg note args notes hArg _ ih =>
      have hFirst := hEval t scopes arg note hSound hIn hArg
      apply hFirst.bind
      intro value t' hSound' hGrows hFits
      apply (ih hSound' (hIn.grows hGrows)).bind
      intro values t'' hSound'' hGrows' hRest
      apply keeps_pure hSound''
      intro other hMem
      rcases List.mem_cons.mp hMem with rfl | hMem
      · exact hFits.grows hGrows'
      · exact hRest other hMem

theorem ExecKeeps.execAll
    {exec : Notes → Stmt → TracedRun Completion}
    (hExec : ExecKeeps exec)
    {body : List Stmt}
    {notes : List Notes}
    (hSound : t.Sound)
    (hIn : t.In scopes)
    (hNoted : Stmt.BodyNoted scopes body notes) :
    (execAllTraced exec notes body).Keeps t
      fun completion t' => completion.Fits t' := by
  induction body generalizing t scopes notes with
  | nil => exact keeps_pure hSound trivial
  | cons stmt body ih =>
      cases hNoted with
      | @cons _ next _ _ note others hFirst hRest =>
          have hStep :=
            hExec t scopes next stmt note hSound hIn hFirst
          apply hStep.bind
          rintro completion t' hSound' _ ⟨hFits, hNext⟩
          cases completion with
          | normal => exact ih hSound' (hNext rfl) hRest
          | returned value => exact keeps_pure hSound' hFits

theorem keeps_repeat
    {condition : TracedRun Value}
    {body : TracedRun Completion}
    (hCondition :
      ∀ t : Traced, t.Sound → t.In scopes →
        condition.Keeps t fun value t' => value.Fits t')
    (hBody :
      ∀ t : Traced, t.Sound → t.In scopes →
        body.Keeps t fun completion t' => completion.Fits t')
    (hSound : t.Sound)
    (hIn : t.In scopes)
    (rounds : Nat) :
    (repeatTraced condition body rounds).Keeps t
      fun completion t' => completion.Fits t' := by
  induction rounds generalizing t with
  | zero => exact keeps_error rfl hSound trivial
  | succ rounds ih =>
      apply (hCondition t hSound hIn).bind
      intro value t' hSound' hGrows _
      have hIn' := hIn.grows hGrows
      refine Keeps.ite ?_ (keeps_pure hSound' trivial)
      apply (hBody t' hSound' hIn').bind
      intro completion t'' hSound'' hGrows' hFits
      cases completion with
      | normal => exact ih hSound'' (hIn'.grows hGrows')
      | returned value => exact keeps_pure hSound'' hFits

end Lox.TracedRun

------------------------------------------------------------
-- Calls
------------------------------------------------------------

namespace Lox.TracedRun

open Traced

variable {t : Traced}

/- A new environment is made within a given one. -/
theorem keeps_makeEnv
    (hSound : t.Sound)
    (parent : Option EnvId) :
    (lift (Run.makeEnv parent)).Keeps t fun env t' =>
      env = t.machine.store.next ∧
        t' = t.withStore (t.machine.store.make parent) :=
  keeps_ok rfl (hSound.make parent)
    (grows_withStore (.make _ parent)) ⟨rfl, rfl⟩

theorem keeps_notesOf (hSound : t.Sound) (f : Closure) :
    (notesOf f).Keeps t fun notes t' =>
      notes = t.bodies f.ident ∧ t = t' :=
  keeps_ok rfl hSound (.refl t) ⟨rfl, rfl⟩

/-
  Where the parameters of a function are bound, its body has
  nothing to resolve, or was resolved in scopes that agree.
-/
theorem body_noted
    {f : Closure}
    {params : EnvId}
    (hCallee : Value.Fits t (.function f))
    (hParams : params < t.machine.store.next)
    (hOuter : t.machine.store.parent? params = some f.env)
    (hEnv : f.env < params)
    (hBound :
      ∀ param ∈ f.params,
        (t.machine.store.local? params param.lexeme).isSome) :
    f.body = [] ∨
      ∃ scopes,
        t.machine.store.Agrees t.machine.globals scopes params ∧
        Stmt.BodyNoted ([] :: scopes) f.body
          (t.bodies f.ident) := by
  rcases hCallee with ⟨_, _, hEmpty | hNoted⟩
  · exact .inl hEmpty
  · rcases hNoted with ⟨scope, scopes, hAgrees, hNames, hNoted⟩
    refine
      .inr
        ⟨scope :: scopes,
          ⟨hParams, ?_, f.env, hOuter, hEnv, hAgrees⟩, hNoted⟩
    intro name hName
    rcases hNames name hName with ⟨token, hMem, rfl⟩
    exact hBound token hMem

/-
  The body of a function runs in an environment that agrees
  with the scopes it was resolved in.
-/
theorem ExecKeeps.callBody
    {exec : Notes → Stmt → TracedRun Completion}
    (hExec : ExecKeeps exec)
    {f : Closure}
    {params : EnvId}
    (hSound : t.Sound)
    (hBody :
      f.body = [] ∨
        ∃ scopes,
          t.machine.store.Agrees t.machine.globals scopes
            params ∧
          Stmt.BodyNoted ([] :: scopes) f.body
            (t.bodies f.ident)) :
    (do
      let body ← lift (Run.makeEnv (some params))
      let notes ← notesOf f
      inScope body (execAllTraced exec notes f.body)).Keeps t
        fun completion t' => completion.Fits t' := by
  apply (keeps_makeEnv hSound (some params)).bind
  rintro body t' hSound' hGrows ⟨rfl, rfl⟩
  apply (keeps_notesOf hSound' f).bind
  rintro notes u _ _ ⟨rfl, rfl⟩
  apply Keeps.inScope
  rcases hBody with hEmpty | ⟨scopes, hScopes, hNoted⟩
  · rw [hEmpty]
    exact keeps_pure ⟨hSound'.values, hSound'.visits⟩ trivial
  · exact
      hExec.execAll ⟨hSound'.values, hSound'.visits⟩ hScopes.make
        hNoted

theorem ExecKeeps.callClosure
    {exec : Notes → Stmt → TracedRun Completion}
    (hExec : ExecKeeps exec)
    {f : Closure}
    {args : List Value}
    (hSound : t.Sound)
    (hCallee : Value.Fits t (.function f))
    (hArgs : ∀ arg ∈ args, arg.Fits t)
    (hLength : args.length = f.params.length) :
    (callClosureTraced exec f args).Keeps t
      fun value t' => value.Fits t' := by
  apply (keeps_makeEnv hSound (some f.env)).bind
  rintro params u hSoundU hGrowsU ⟨rfl, rfl⟩
  have hEnv :
      t.machine.store.next <
        (t.machine.store.make (some f.env)).next := by
    rw [Store.next_make]
    exact Nat.lt_succ_self _
  have hBind :=
    keeps_bindParams hSoundU hEnv
      (fun arg hMem => (hArgs arg hMem).grows hGrowsU) hLength
  apply hBind.bind
  rintro _ v hSoundV hGrowsV ⟨_, hBound⟩
  have hCalleeV := (hCallee.grows hGrowsU).grows hGrowsV
  have hOuter :
      v.machine.store.parent? t.machine.store.next =
        some f.env := by
    rw [hGrowsV.store.parent_eq _ hEnv]
    exact Store.parent?_make_self _ _
  have hParams := Nat.lt_of_lt_of_le hEnv hGrowsV.store.next_le
  have hBody :=
    hExec.callBody hSoundV
      (body_noted hCalleeV hParams hOuter hCallee.2.1 hBound)
  have hResult :
      ∀ (completion : Completion) (w : Traced),
        w.Sound → v.Grows w → completion.Fits w →
          (pure completion.result : TracedRun Value).Keeps w
            fun value t' => value.Fits t' := by
    intro completion w hSoundW _ hFits
    apply keeps_pure hSoundW
    cases completion with
    | normal => exact trivial
    | returned value => exact hFits
  simpa only [bind_assoc] using hBody.bind hResult

/- Native functions make functions with nothing to resolve. -/
theorem keeps_makeFunction
    (hSound : t.Sound)
    (name : Token)
    (params : List Token) :
    (lift (do
      Run.makeFunction name params [] (← Run.makeEnv none))).Keeps
        t fun value t' => value.Fits t' := by
  let m := t.machine
  let f : Closure :=
    { ident := m.functions, name, params, body := []
      env := m.store.next }
  let t' : Traced :=
    { t with
      machine :=
        { m with
          store := m.store.make none
          functions := m.functions + 1 } }
  have hRun :
      lift (do
        Run.makeFunction name params [] (← Run.makeEnv none)) t =
          .ok (.function f) t' := rfl
  have hGrows : t.Grows t' :=
    ⟨.make _ none, rfl, rfl, Nat.le_succ _, fun _ _ => rfl,
      fun _ hVisit => hVisit⟩
  have hFits : Value.Fits t' (.function f) := by
    refine ⟨Nat.lt_succ_self _, ?_, .inl rfl⟩
    show m.store.next < (m.store.make none).next
    rw [Store.next_make]
    exact Nat.lt_succ_self _
  have hSound' : t'.Sound := by
    apply hSound.grows hGrows _ rfl
    intro env other value hLocal
    have hLocal' :
        (m.store.make none).local? env other = some value :=
      hLocal
    rw [Store.local?_make] at hLocal'
    exact .inl hLocal'
  exact keeps_ok hRun hSound' hGrows hFits

theorem keeps_makeNative
    (hSound : t.Sound)
    (native : Native) :
    (lift (Run.makeNative native)).Keeps t
      fun value t' => value.Fits t' := by
  have hGrows :
      t.Grows
        { t with
          machine :=
            { t.machine with
              functions := t.machine.functions + 1 } } :=
    ⟨.refl _, rfl, rfl, Nat.le_succ _, fun _ _ => rfl,
      fun _ hVisit => hVisit⟩
  refine keeps_ok rfl (hSound.grows hGrows ?_ rfl) hGrows trivial
  intro env name value hLocal
  exact .inl hLocal

theorem CallKeeps.callNative
    {call : Value → List Value → Token → TracedRun Value}
    (hCall : CallKeeps call)
    {native : Native}
    {args : List Value}
    (hSound : t.Sound)
    (hArgs : ∀ arg ∈ args, arg.Fits t) :
    (callNativeTraced call native args).Keeps t
      fun value t' => value.Fits t' := by
  unfold callNativeTraced Lox.callNative
  cases native.behavior with
  | clock => exact keeps_readClock hSound
  | argument index =>
      simp only
      cases hArg : args[index]? with
      | some value =>
          have hFits := hArgs value (List.mem_of_getElem? hArg)
          exact keeps_ok rfl hSound (.refl t) hFits
      | none => exact keeps_failNative hSound _
  | constant value =>
      apply keeps_ok rfl hSound (.refl t)
      cases value <;> exact trivial
  | makeFunction name params =>
      exact keeps_makeFunction hSound name params
  | makeNative name arity => exact keeps_makeNative hSound _
  | apply index =>
      simp only
      cases hArg : args[index]? with
      | some callee =>
          have hFits := hArgs callee (List.mem_of_getElem? hArg)
          apply hCall t callee _ _ hSound hFits
          intro arg hMem
          exact hArgs arg (List.mem_of_mem_eraseIdx hMem)
      | none => exact keeps_failNative hSound _
  | foreign number => exact keeps_failNative hSound _

end Lox.TracedRun

------------------------------------------------------------
-- Expressions And Statements
------------------------------------------------------------

namespace Lox.TracedRun

open Traced

section Evaluation

variable {rounds frames : Nat}
variable (hEval : EvalKeeps (evalTraced rounds frames))
variable (hExec : ExecKeeps (execTraced rounds frames))
variable (hCall : CallKeeps (callTraced rounds frames))

include hEval hCall in
theorem evalTraced_keeps_succ :
    EvalKeeps (evalTraced rounds (frames + 1)) := by
  intro start scopes e notes hSound hIn hNoted
  rw [evalTraced.eq_def]
  apply (keeps_visit hSound hIn hNoted).bind
  intro _ t hSound hGrows hVisit
  have hIn := hIn.grows hGrows
  cases hNoted with
  | @literal value =>
      apply keeps_pure hSound
      cases value <;> exact trivial
  | @name name hops hHops =>
      apply keeps_readName hSound hIn hHops
      rintro rfl
      exact ⟨_, hVisit, .inl rfl⟩
  | @assign name hops value notes hValue hHops =>
      apply (hEval t scopes value notes hSound hIn hValue).bind
      intro result t' hSound' hGrows' hFits
      have hWrite :=
        keeps_writeName hSound' (hIn.grows hGrows') hHops hFits
          (fun hNone =>
            ⟨_, hGrows'.visits _ hVisit, .inr ⟨value, by rw [hNone]⟩⟩)
      apply hWrite.bind
      intro _ t'' hSound'' hGrows'' _
      exact keeps_pure hSound'' (hFits.grows hGrows'')
  | @binary op left right lefts rights hLeft hRight =>
      apply (hEval t scopes left lefts hSound hIn hLeft).bind
      intro a t' hSound' hGrows' _
      have hIn' := hIn.grows hGrows'
      apply (hEval t' scopes right rights hSound' hIn' hRight).bind
      intro b t'' hSound'' _ _
      exact keeps_operator hSound'' (applyBinary_spec op a b)
  | @logical op left right lefts rights hLeft hRight =>
      apply (hEval t scopes left lefts hSound hIn hLeft).bind
      intro a t' hSound' hGrows' hFits
      have hIn' := hIn.grows hGrows'
      exact
        (keeps_pure hSound' hFits).ite
          (hEval t' scopes right rights hSound' hIn' hRight)
  | @unary op operand notes hOperand =>
      apply (hEval t scopes operand notes hSound hIn hOperand).bind
      intro a t' hSound' _ _
      exact keeps_operator hSound' (applyUnary_spec op a)
  | @grouping inner notes hInner =>
      exact hEval t scopes inner notes hSound hIn hInner
  | @call callee paren args notes others hCallee hArgs =>
      apply (hEval t scopes callee notes hSound hIn hCallee).bind
      intro f t' hSound' hGrows' hFits
      apply (hEval.evalAll hSound' (hIn.grows hGrows') hArgs).bind
      intro values t'' hSound'' hGrows'' hValues
      apply Keeps.guardStack
      exact
        hCall t'' f values paren hSound'' (hFits.grows hGrows'')
          hValues

include hEval hExec in
theorem execTraced_keeps_succ :
    ExecKeeps (execTraced rounds (frames + 1)) := by
  intro t scopes next s notes hSound hIn hNoted
  rw [execTraced.eq_def]
  cases hNoted with
  | @expression _ value notes hValue =>
      apply (hEval t scopes value notes hSound hIn hValue).bind
      intro _ t' hSound' hGrows _
      exact
        keeps_pure hSound' ⟨trivial, fun _ => hIn.grows hGrows⟩
  | @print _ value notes hValue =>
      apply (hEval t scopes value notes hSound hIn hValue).bind
      intro result t' hSound' hGrows _
      apply (keeps_printLine hSound' result.text).bind
      intro _ t'' hSound'' hGrows' _
      exact
        keeps_pure hSound''
          ⟨trivial, fun _ => (hIn.grows hGrows).grows hGrows'⟩
  | @plain _ name hNew =>
      have hFits : Value.Fits t .nil := trivial
      exact keeps_defineHere hSound hIn hFits name.lexeme
  | @initialized _ name value notes hNew hValue =>
      have hPending :
          t.In (enterScope scopes name.lexeme false) :=
        Store.Agrees.enterPending hIn name.lexeme
      apply (hEval t _ value notes hSound hPending hValue).bind
      intro result t' hSound' hGrows hFits
      exact
        keeps_defineHere hSound' (hIn.grows hGrows) hFits
          name.lexeme
  | @block _ body notes hBody =>
      apply (keeps_current hSound).bind
      rintro outer u _ _ ⟨rfl, rfl⟩
      apply (keeps_makeEnv hSound (some t.machine.current)).bind
      rintro env u hSoundU hGrows ⟨rfl, rfl⟩
      have hBlock :
          (inScope t.machine.store.next
            (execAllTraced (execTraced rounds frames) notes
              body)).Keeps
                (t.withStore
                  (t.machine.store.make (some t.machine.current)))
                fun completion t' => completion.Fits t' := by
        apply Keeps.inScope
        exact
          hExec.execAll ⟨hSoundU.values, hSoundU.visits⟩
            (Store.Agrees.make hIn) hBody
      apply hBlock.mono
      intro completion t' _ hGrows' hFits
      exact ⟨hFits, fun _ => (hIn.grows hGrows).grows hGrows'⟩
  | @ifThen _ condition thenBranch notes thens hCondition hThen =>
      apply
        (hEval t scopes condition notes hSound hIn hCondition).bind
      intro value t' hSound' hGrows _
      have hIn' := hIn.grows hGrows
      exact
        (hExec t' scopes scopes thenBranch thens hSound' hIn'
          hThen).ite
          (keeps_pure hSound' ⟨trivial, fun _ => hIn'⟩)
  | @ifElse _ condition thenBranch elseBranch notes thens elses
      hCondition hThen hElse =>
      apply
        (hEval t scopes condition notes hSound hIn hCondition).bind
      intro value t' hSound' hGrows _
      have hIn' := hIn.grows hGrows
      exact
        (hExec t' scopes scopes thenBranch thens hSound' hIn'
          hThen).ite
          (hExec t' scopes scopes elseBranch elses hSound' hIn'
            hElse)
  | @loop _ condition body notes others hCondition hBody =>
      have hLoop :=
        keeps_repeat
          (fun t' hSound' hIn' =>
            hEval t' scopes condition notes hSound' hIn' hCondition)
          (fun t' hSound' hIn' =>
            (hExec t' scopes scopes body others hSound' hIn'
              hBody).mono fun _ _ _ _ hPost => hPost.1)
          hSound hIn rounds
      apply hLoop.mono
      intro completion t' _ hGrows hFits
      exact ⟨hFits, fun _ => hIn.grows hGrows⟩
  | @function _ scope name params body notes hNew hParams hBody =>
      apply
        (keeps_declareFunction hSound hIn hParams hBody).bind
      intro _ t' hSound' _ hIn'
      exact keeps_pure hSound' ⟨trivial, fun _ => hIn'⟩
  | plainRet =>
      refine keeps_pure hSound ⟨trivial, ?_⟩
      intro hNormal
      cases hNormal
  | @ret _ keyword value notes hValue =>
      apply (hEval t scopes value notes hSound hIn hValue).bind
      intro result t' hSound' _ hFits
      refine keeps_pure hSound' ⟨hFits, ?_⟩
      intro hNormal
      cases hNormal

include hExec hCall in
theorem callTraced_keeps_succ :
    CallKeeps (callTraced rounds (frames + 1)) := by
  intro t callee args paren hSound hCallee hArgs
  rw [callTraced.eq_def]
  cases callee with
  | function f =>
      apply
        (keeps_checkArity hSound f.params.length args.length
          paren).bind
      intro _ t' hSound' hGrows hLength
      exact
        hExec.callClosure hSound' (hCallee.grows hGrows)
          (fun arg hMem => (hArgs arg hMem).grows hGrows) hLength
  | native f =>
      apply
        (keeps_checkArity hSound f.arity args.length paren).bind
      intro _ t' hSound' hGrows _
      exact
        hCall.callNative hSound'
          fun arg hMem => (hArgs arg hMem).grows hGrows
  | _ =>
      apply keeps_fail hSound
      constructor
      · intro distance hFault
        cases hFault
      · intro name hFault
        cases hFault

end Evaluation

end Lox.TracedRun

namespace Lox

open TracedRun Traced

/- Evaluation keeps every sound run sound. -/
theorem evaluation_keeps (rounds frames : Nat) :
    EvalKeeps (evalTraced rounds frames) ∧
      ExecKeeps (execTraced rounds frames) ∧
      CallKeeps (callTraced rounds frames) := by
  induction frames with
  | zero =>
      refine ⟨?_, ?_, ?_⟩
      · intro t scopes e notes hSound _ _
        rw [evalTraced]
        exact keeps_error rfl hSound trivial
      · intro t scopes next s notes hSound _ _
        rw [execTraced]
        exact keeps_error rfl hSound trivial
      · intro t callee args paren hSound _ _
        rw [callTraced]
        exact keeps_error rfl hSound trivial
  | succ frames ih =>
      rcases ih with ⟨ihEval, ihExec, ihCall⟩
      exact
        ⟨evalTraced_keeps_succ ihEval ihCall,
          execTraced_keeps_succ ihEval ihExec,
          callTraced_keeps_succ ihExec ihCall⟩

/- Where there are no scopes, no statement makes any. -/
theorem Stmt.Noted.next_eq_nil
    {s : Stmt}
    {notes : Notes}
    {next : List Scope}
    (hNoted : s.Noted [] notes next) :
    next = [] := by
  cases hNoted <;> rfl

/- The programs of a session keep a sound run sound. -/
theorem runProgramTraced_keeps
    (limits : Limits)
    {t : Traced}
    {program : List Stmt}
    {notes : List Notes}
    (hSound : t.Sound)
    (hIn : t.In [])
    (hNoted : Stmt.BodyNoted [] program notes) :
    (runProgramTraced limits notes program).Keeps t
      fun _ _ => True := by
  induction program generalizing t notes with
  | nil => exact keeps_pure hSound trivial
  | cons stmt program ih =>
      cases hNoted with
      | @cons _ next _ _ note others hFirst hRest =>
          rw [hFirst.next_eq_nil] at hRest
          rw [runProgramTraced]
          have hExec :=
            (evaluation_keeps limits.rounds limits.frames).2.1 t []
              next stmt note hSound hIn hFirst
          apply hExec.bind
          intro _ t' hSound' hGrows _
          exact ih hSound' (hIn.grows hGrows) hRest

end Lox
