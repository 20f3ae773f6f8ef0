import Lox.Proofs.Coupling
import Lox.Proofs.Machine.Agreement
import Lox.Proofs.Machine.Pairing

/-
  Alike programs run alike.

  Expressions and statements that are alike take machines that
  are alike through the same steps, and calls of functions that
  are alike do so too: by induction on the frames that are
  left, with one case for each node.

  Key definitions include:
    * `EvalFollows`
    * `ExecFollows`
    * `CallFollows`
    * `evaluation_follows`
    * `runProgram_follows`
-/

------------------------------------------------------------
-- Lists Of Steps
------------------------------------------------------------

namespace Lox.TracedRun

open Traced

/- What is promised of the evaluation of expressions. -/
def EvalFollows
    (eval : Notes → Expr → TracedRun Value)
    (eval' : Expr → Run Value) :
    Prop :=
  ∀ (spell : EnvId → Spelling) (spellings : List Spelling)
    (scopes : List Scope) (t : Traced) (m : Machine)
    (e e' : Expr) (notes : Notes),
    t.Paired spell spellings scopes m →
      e.Noted scopes notes → e.Alike spellings e' →
        (eval notes e).Follows (eval' e') spell t m Value.Alike

/- What is promised of the execution of statements. -/
def ExecFollows
    (exec : Notes → Stmt → TracedRun Completion)
    (exec' : Stmt → Run Completion) :
    Prop :=
  ∀ (spell : EnvId → Spelling) (spellings : List Spelling)
    (scopes next : List Scope) (t : Traced) (m : Machine)
    (s s' : Stmt) (notes : Notes),
    t.Paired spell spellings scopes m →
      s.Noted scopes notes next → s.Alike spellings s' →
        (exec notes s).Follows (exec' s') spell t m
          Completion.Alike

/- What is promised of calls. -/
def CallFollows
    (call : Value → List Value → Token → TracedRun Value)
    (call' : Value → List Value → Token → Run Value) :
    Prop :=
  ∀ (spell : EnvId → Spelling) (t : Traced) (m : Machine)
    (callee callee' : Value) (args args' : List Value)
    (paren : Token),
    t.Sound → t.machine.Alike spell m →
      callee.Fits t → (∀ arg ∈ args, arg.Fits t) →
        callee.Alike t.machine.store spell callee' →
          List.Forall₂ (Value.Alike t.machine.store spell) args
            args' →
            (call callee args paren).Follows
              (call' callee' args' paren) spell t m Value.Alike

variable {spell : EnvId → Spelling}
variable {spellings : List Spelling} {scopes : List Scope}
variable {t : Traced} {m : Machine}

/- Values that are alike, one after another. -/
def ValuesAlike
    (s : Store)
    (spell : EnvId → Spelling)
    (values values' : List Value) :
    Prop :=
  List.Forall₂ (Value.Alike s spell) values values'

/- A step that needs the value of an expression. -/
theorem EvalFollows.bind
    {β β' : Type}
    {eval : Notes → Expr → TracedRun Value}
    {eval' : Expr → Run Value}
    {f : Value → TracedRun β}
    {g : Value → Run β'}
    {Q : Store → (EnvId → Spelling) → β → β' → Prop}
    {e e' : Expr}
    {notes : Notes}
    (hEval : EvalFollows eval eval')
    (hKeeps : EvalKeeps eval)
    (hPaired : t.Paired spell spellings scopes m)
    (hNoted : e.Noted scopes notes)
    (hAlike : e.Alike spellings e')
    (hNext :
      ∀ spell' value value' t' m',
        t.machine.store.Leads spell t'.machine.store spell' →
          t.Grows t' → t'.Paired spell' spellings scopes m' →
            value.Fits t' →
              value.Alike t'.machine.store spell' value' →
                (f value).Follows (g value') spell' t' m' Q) :
    (eval notes e >>= f).Follows (eval' e' >>= g) spell t m Q := by
  have hStep :=
    hKeeps t scopes e notes hPaired.sound hPaired.inScopes hNoted
  apply (hEval spell spellings scopes t m e e' notes hPaired
    hNoted hAlike).bind hStep
  intro spell' value value' t' m' hLeads hGrows hSound hAlike'
  exact
    hNext spell' value value' t' m' hLeads hGrows
      (hPaired.next hLeads hGrows hSound hAlike')

theorem EvalFollows.evalAll
    {eval : Notes → Expr → TracedRun Value}
    {eval' : Expr → Run Value}
    (hEval : EvalFollows eval eval')
    (hKeeps : EvalKeeps eval)
    {args args' : List Expr}
    {notes : List Notes}
    (hPaired : t.Paired spell spellings scopes m)
    (hNoted : List.Forall₂ (Expr.Noted scopes) args notes)
    (hAlike : List.Forall₂ (Expr.Alike spellings) args args') :
    (evalAllTraced eval notes args).Follows
      (Lox.evalAll eval' args') spell t m ValuesAlike := by
  induction hNoted generalizing spell t m args' with
  | nil =>
      cases hAlike
      exact follows_pure hPaired.alike .nil
  | @cons arg note args notes hArg hArgs ih =>
      cases hAlike with
      | @cons _ arg' _ args' hFirst hRest =>
          apply hEval.bind hKeeps hPaired hArg hFirst
          intro spell' value value' t' m' _ _ hPaired' _ hValue
          have hOthers :=
            hKeeps.evalAll hPaired'.sound hPaired'.inScopes hArgs
          apply (ih hPaired' hRest).bind hOthers
          intro spell'' values values' t'' m'' hLeads' _ _ hAlike''
            _ hValues
          exact
            follows_pure hAlike''
              (.cons (hValue.leads hLeads') hValues)

theorem ExecFollows.execAll
    {exec : Notes → Stmt → TracedRun Completion}
    {exec' : Stmt → Run Completion}
    (hExec : ExecFollows exec exec')
    (hKeeps : ExecKeeps exec)
    {body body' : List Stmt}
    {notes : List Notes}
    (hPaired : t.Paired spell spellings scopes m)
    (hNoted : Stmt.BodyNoted scopes body notes)
    (hAlike : Stmt.BodyAlike spellings body body') :
    (execAllTraced exec notes body).Follows
      (Lox.execAll exec' body') spell t m Completion.Alike := by
  induction body generalizing spell t m scopes notes body' with
  | nil =>
      cases hAlike
      exact follows_pure hPaired.alike rfl
  | cons stmt body ih =>
      cases hNoted with
      | @cons _ next _ _ note others hFirst hRest =>
          cases hAlike with
          | @cons _ _ stmt' _ body' hStmt hBody =>
              have hStep :=
                hKeeps t scopes next stmt note hPaired.sound
                  hPaired.inScopes hFirst
              apply (hExec spell spellings scopes next t m stmt stmt'
                note hPaired hFirst hStmt).bind hStep
              intro spell' completion completion' t' m' hLeads hGrows
                hSound hAlike' hKept hBoth
              have hPaired' :=
                hPaired.next hLeads hGrows hSound hAlike'
              cases completion with
              | normal =>
                  have hSame : completion' = .normal := hBoth
                  subst hSame
                  exact
                    ih (hPaired'.withScopes (hKept.2 rfl)) hRest hBody
              | returned value =>
                  rcases hBoth with ⟨value', rfl, hValue⟩
                  exact follows_pure hAlike' ⟨value', rfl, hValue⟩

theorem follows_repeat
    {condition : TracedRun Value}
    {condition' : Run Value}
    {body : TracedRun Completion}
    {body' : Run Completion}
    (hCondition :
      ∀ (spell : EnvId → Spelling) (t : Traced) (m : Machine),
        t.Paired spell spellings scopes m →
          condition.Follows condition' spell t m Value.Alike ∧
            condition.Keeps t fun _ _ => True)
    (hBody :
      ∀ (spell : EnvId → Spelling) (t : Traced) (m : Machine),
        t.Paired spell spellings scopes m →
          body.Follows body' spell t m Completion.Alike ∧
            body.Keeps t fun _ _ => True)
    (hPaired : t.Paired spell spellings scopes m)
    (rounds : Nat) :
    (repeatTraced condition body rounds).Follows
      (repeatWhile condition' body' rounds) spell t m
      Completion.Alike := by
  induction rounds generalizing spell t m with
  | zero => exact follows_error rfl rfl hPaired.alike
  | succ rounds ih =>
      rcases hCondition spell t m hPaired with ⟨hFollows, hKeeps⟩
      apply hFollows.bind hKeeps
      intro spell' value value' t' m' hLeads hGrows hSound hAlike _
        hValue
      have hPaired' := hPaired.next hLeads hGrows hSound hAlike
      apply Follows.ite
      · rw [hValue.isTruthy_eq]
      · rcases hBody spell' t' m' hPaired' with ⟨hFollows, hKeeps⟩
        apply hFollows.bind hKeeps
        intro spell'' completion completion' t'' m'' hLeads' hGrows'
          hSound' hAlike' _ hBoth
        have hPaired'' :=
          hPaired'.next hLeads' hGrows' hSound' hAlike'
        cases completion with
        | normal =>
            have hSame : completion' = .normal := hBoth
            subst hSame
            exact ih hPaired''
        | returned value =>
            rcases hBoth with ⟨value', rfl, hValue⟩
            exact follows_pure hAlike' ⟨value', rfl, hValue⟩
      · exact follows_pure hAlike rfl

end Lox.TracedRun

------------------------------------------------------------
-- Calls
------------------------------------------------------------

namespace Lox.TracedRun

open Traced

variable {spell : EnvId → Spelling}
variable {spellings : List Spelling}
variable {t : Traced} {m : Machine}

/- What calls give whose bodies ended in the same way. -/
theorem result_alike
    {s : Store}
    {completion completion' : Completion}
    (hDone : completion.Alike s spell completion') :
    completion.result.Alike s spell completion'.result := by
  cases completion with
  | normal =>
      have hSame : completion' = .normal := hDone
      subst hSame
      exact rfl
  | returned value =>
      rcases hDone with ⟨value', rfl, hValue⟩
      exact hValue

/-
  Two lists of statements that are alike run alike, each in a
  new environment within a given one.
-/
theorem ExecFollows.inNewEnv
    {exec : Notes → Stmt → TracedRun Completion}
    {exec' : Stmt → Run Completion}
    (hExec : ExecFollows exec exec')
    (hKeeps : ExecKeeps exec)
    {body body' : List Stmt}
    {notes : List Notes}
    {outer : EnvId}
    {spelling : Spelling}
    (hSound : t.Sound)
    (hAlike : t.machine.Alike spell m)
    (hNoted :
      body = [] ∨
        ∃ scopes,
          t.machine.store.Agrees t.machine.globals scopes outer ∧
            Stmt.BodyNoted ([] :: scopes) body notes)
    (hAlong : t.machine.store.Along spell spellings outer)
    (hBody : Stmt.BodyAlike (spelling :: spellings) body body') :
    let env := t.machine.store.next
    let store := t.machine.store.make (some outer)
    let store' := m.store.make (some outer)
    (inScope env (execAllTraced exec notes body)).Follows
      (Run.inScope env (Lox.execAll exec' body'))
      (Function.update spell env spelling) (t.withStore store)
      { m with store := store' } Completion.Alike := by
  intro env store store'
  have hLeads :=
    Store.Leads.make t.machine.store spell (some outer) spelling
  have hAlike' :=
    hAlike.withStore hLeads
      (hAlike.store.make (some outer) spelling)
  apply Follows.inScope hAlike'
  rcases hNoted with hEmpty | ⟨scopes, hScopes, hNoted⟩
  · subst hEmpty
    cases hBody
    exact follows_pure (hAlike'.withCurrent env) rfl
  · have hSound' := hSound.make (some outer)
    apply hExec.execAll hKeeps _ hNoted hBody
    exact
      ⟨⟨hSound'.values, hSound'.visits⟩, hScopes.make,
        hAlike'.withCurrent env, hAlong.make spelling⟩

/- The bodies of two functions that are alike run alike. -/
theorem ExecFollows.callBody
    {exec : Notes → Stmt → TracedRun Completion}
    {exec' : Stmt → Run Completion}
    (hExec : ExecFollows exec exec')
    (hKeeps : ExecKeeps exec)
    {f f' : Closure}
    {params : EnvId}
    {spelling : Spelling}
    (hSound : t.Sound)
    (hAlike : t.machine.Alike spell m)
    (hNoted :
      f.body = [] ∨
        ∃ scopes,
          t.machine.store.Agrees t.machine.globals scopes
            params ∧
          Stmt.BodyNoted ([] :: scopes) f.body
            (t.bodies f.ident))
    (hAlong : t.machine.store.Along spell spellings params)
    (hBody :
      Stmt.BodyAlike (spelling :: spellings) f.body f'.body) :
    (do
      let body ← lift (Run.makeEnv (some params))
      let notes ← notesOf f
      inScope body (execAllTraced exec notes f.body)).Follows
      (do
        let body ← Run.makeEnv (some params)
        Run.inScope body (Lox.execAll exec' f'.body))
      spell t m Completion.Alike := by
  have hInside :=
    hExec.inNewEnv hKeeps hSound hAlike hNoted hAlong hBody
  refine hInside.before rfl ?_ (.make _ _ _ _)
  rw [← hAlike.store.next]
  rfl

theorem ExecFollows.callClosure
    {exec : Notes → Stmt → TracedRun Completion}
    {exec' : Stmt → Run Completion}
    (hExec : ExecFollows exec exec')
    (hKeeps : ExecKeeps exec)
    {f f' : Closure}
    {args args' : List Value}
    (hSound : t.Sound)
    (hAlike : t.machine.Alike spell m)
    (hCallee : Value.Fits t (.function f))
    (hArgs : ∀ arg ∈ args, arg.Fits t)
    (hLength : args.length = f.params.length)
    (hBoth : f.Alike t.machine.store spell f')
    (hValues :
      List.Forall₂ (Value.Alike t.machine.store spell) args
        args') :
    (callClosureTraced exec f args).Follows
      (Lox.callClosure exec' f' args') spell t m
      Value.Alike := by
  rcases hBoth.body with
    ⟨first, second, spellings, hParams, hAlong, hBody⟩
  let env := t.machine.store.next
  let spellU := Function.update spell env second
  let u := t.withStore (t.machine.store.make (some f.env))
  let n := { m with store := m.store.make (some f.env) }
  have hLeadsU :
      t.machine.store.Leads spell u.machine.store spellU :=
    .make _ _ _ second
  have hAlikeU : u.machine.Alike spellU n :=
    hAlike.withStore hLeadsU (hAlike.store.make _ second)
  have hSoundU : u.Sound := hSound.make (some f.env)
  have hGrowsU : t.Grows u := grows_withStore (.make _ _)
  have hEnvU : env < u.machine.store.next := by
    show _ < (t.machine.store.make (some f.env)).next
    rw [Store.next_make]
    exact Nat.lt_succ_self _
  have hNames :
      f'.params.map (·.lexeme) =
        f.params.map (spellU env ·.lexeme) := by
    rw [hParams]
    simp only [spellU, Function.update_self]
  have hBind :=
    follows_bindParams hAlikeU hNames
      (hValues.imp fun _ _ hValue => hValue.leads hLeadsU)
  have hBindKeeps :=
    keeps_bindParams hSoundU hEnvU
      (fun arg hMem => (hArgs arg hMem).grows hGrowsU) hLength
  have hRest :
      (do
        lift (bindParams env f.params args)
        let body ← lift (Run.makeEnv (some env))
        let notes ← notesOf f
        let completion ←
          inScope body (execAllTraced exec notes f.body)
        return completion.result).Follows
        (do
          bindParams env f'.params args'
          let body ← Run.makeEnv (some env)
          let completion ←
            Run.inScope body (Lox.execAll exec' f'.body)
          return completion.result)
        spellU u n Value.Alike := by
    apply hBind.bind hBindKeeps
    intro spellV _ _ v o hLeadsV hGrowsV hSoundV hAlikeV hBound
      hSame
    subst hSame
    have hCalleeV := (hCallee.grows hGrowsU).grows hGrowsV
    have hOuter : v.machine.store.parent? env = some f.env := by
      rw [hGrowsV.store.parent_eq _ hEnvU]
      exact Store.parent?_make_self _ _
    have hEnvV := Nat.lt_of_lt_of_le hEnvU hGrowsV.store.next_le
    have hNoted :=
      body_noted hCalleeV hEnvV hOuter hCallee.2.1 hBound.2
    have hAlongV := (hAlong.make second).leads hLeadsV
    have hInside :=
      hExec.callBody hKeeps hSoundV hAlikeV hNoted hAlongV hBody
    have hResult :=
      hInside.map (Q := Value.Alike)
        fun _ _ _ _ _ hDone => result_alike hDone
    simpa only [bind_assoc] using hResult
  have hRight :
      Lox.callClosure exec' f' args' m =
        (do
          bindParams env f'.params args'
          let body ← Run.makeEnv (some env)
          let completion ←
            Run.inScope body (Lox.execAll exec' f'.body)
          return completion.result) n := by
    have hEnv : m.store.next = env := hAlike.store.next
    rw [← hEnv]
    unfold Lox.callClosure
    rw [hBoth.env]
    rfl
  exact hRest.before rfl hRight hLeadsU

/- A native function makes the same function in both. -/
theorem follows_makeFunction
    (hAlike : t.machine.Alike spell m)
    (name : Token)
    (params : List Token) :
    (lift (do
      Run.makeFunction name params []
        (← Run.makeEnv none))).Follows
      (do Run.makeFunction name params [] (← Run.makeEnv none))
      spell t m Value.Alike := by
  have hLeads :=
    Store.Leads.make t.machine.store spell none 1
  have hMachine :=
    alike_functions
      (hAlike.withStore hLeads (hAlike.store.make none 1))
  have hAlong :
      (t.machine.store.make none).Along
        (Function.update spell t.machine.store.next 1) []
        t.machine.store.next := by
    constructor
    · rw [Store.next_make]
      exact Nat.lt_succ_self _
    · exact Function.update_self _ _ _
  let f : Closure :=
    { ident := t.machine.functions, name, params, body := []
      env := t.machine.store.next }
  let f' : Closure :=
    { ident := m.functions, name, params, body := []
      env := m.store.next }
  have hValue :
      Value.Alike (t.machine.store.make none)
        (Function.update spell t.machine.store.next 1)
        (.function f) (.function f') :=
    ⟨f', rfl, hAlike.functions, rfl, hAlike.store.next, 1, 1, [],
      map_lexeme params, hAlong, .nil⟩
  exact follows_ok rfl rfl hLeads hMachine hValue

theorem follows_makeNative
    (hAlike : t.machine.Alike spell m)
    (native : Native) :
    (lift (Run.makeNative native)).Follows (Run.makeNative native)
      spell t m Value.Alike := by
  have hValue :
      Value.Alike t.machine.store spell
        (.native ⟨native, t.machine.functions⟩)
        (.native ⟨native, m.functions⟩) :=
    congrArg (fun ident => Value.native ⟨native, ident⟩)
      hAlike.functions
  exact
    follows_ok rfl rfl (.refl _ _) (alike_functions hAlike) hValue

theorem CallFollows.callNative
    {call : Value → List Value → Token → TracedRun Value}
    {call' : Value → List Value → Token → Run Value}
    (hCall : CallFollows call call')
    {native : Native}
    {args args' : List Value}
    (hSound : t.Sound)
    (hAlike : t.machine.Alike spell m)
    (hFits : ∀ arg ∈ args, arg.Fits t)
    (hArgs : ValuesAlike t.machine.store spell args args') :
    (callNativeTraced call native args).Follows
      (Lox.callNative call' native args') spell t m
      Value.Alike := by
  unfold callNativeTraced Lox.callNative
  cases native.behavior with
  | clock => exact follows_readClock hAlike
  | argument index =>
      have hArg := forall₂_getElem? hArgs index
      simp only
      generalize args[index]? = arg at hArg ⊢
      generalize args'[index]? = arg' at hArg ⊢
      cases hArg with
      | none => exact follows_error rfl rfl hAlike
      | some hValue =>
          exact follows_ok rfl rfl (.refl _ _) hAlike hValue
  | constant value =>
      apply follows_ok rfl rfl (.refl _ _) hAlike
      cases value <;> exact rfl
  | makeFunction name params =>
      exact follows_makeFunction hAlike name params
  | makeNative name arity => exact follows_makeNative hAlike _
  | apply index =>
      have hArg := forall₂_getElem? hArgs index
      have hRest := forall₂_eraseIdx hArgs index
      simp only
      generalize hFound : args[index]? = callee at hArg ⊢
      generalize args'[index]? = callee' at hArg ⊢
      cases hArg with
      | none => exact follows_error rfl rfl hAlike
      | some hCallee =>
          have hFitsCallee :=
            hFits _ (List.mem_of_getElem? hFound)
          apply hCall spell t m _ _ _ _ _ hSound hAlike hFitsCallee _
            hCallee hRest
          intro arg hMem
          exact hFits arg (List.mem_of_mem_eraseIdx hMem)
  | foreign number => exact follows_error rfl rfl hAlike

end Lox.TracedRun

------------------------------------------------------------
-- Expressions And Statements
------------------------------------------------------------

namespace Lox.TracedRun

open Traced

section Evaluation

variable {rounds frames : Nat}
variable
  (hEval :
    EvalFollows (evalTraced rounds frames) (eval rounds frames))
variable
  (hExec :
    ExecFollows (execTraced rounds frames) (exec rounds frames))
variable
  (hCall :
    CallFollows (callTraced rounds frames) (call rounds frames))

include hEval hCall in
theorem evalTraced_follows_succ :
    EvalFollows (evalTraced rounds (frames + 1))
      (eval rounds (frames + 1)) := by
  intro spell spellings scopes start m e e' notes hStart hNoted
    hAlike
  have hKeeps := (evaluation_keeps rounds frames).1
  rw [evalTraced.eq_def, eval.eq_def]
  apply Follows.visit hStart hNoted
  intro t hPaired
  cases hNoted with
  | @literal value =>
      cases hAlike
      apply follows_pure hPaired.alike
      cases value <;> exact rfl
  | @name name hops hHops =>
      cases hAlike with
      | globalName => exact follows_readGlobal hPaired.alike name
      | localName hSpelling hName =>
          exact follows_readLocal hPaired hHops hSpelling hName
  | @assign name hops value notes hValue hHops =>
      cases hAlike with
      | assignGlobal hBoth =>
          apply hEval.bind hKeeps hPaired hValue hBoth
          intro spell' result result' t' m' _ _ hPaired' _ hResult
          apply (follows_writeGlobal hPaired'.alike name hResult).map
          intro s spell'' _ _ hLeads _
          exact hResult.leads hLeads
      | assignLocal hBoth hSpelling hName =>
          apply hEval.bind hKeeps hPaired hValue hBoth
          intro spell' result result' t' m' _ _ hPaired' _ hResult
          apply (follows_writeLocal hPaired' hSpelling hName
            hResult).map
          intro s spell'' _ _ hLeads _
          exact hResult.leads hLeads
  | @binary op left right lefts rights hLeft hRight =>
      cases hAlike with
      | binary hLeft' hRight' =>
          apply hEval.bind hKeeps hPaired hLeft hLeft'
          intro spell' a a' t' m' _ _ hPaired' _ hA
          apply hEval.bind hKeeps hPaired' hRight hRight'
          intro spell'' b b' t'' m'' hLeads _ hPaired'' _ hB
          rw [(hA.leads hLeads).applyBinary_eq hB op]
          exact
            follows_operator hPaired''.alike (applyBinary_spec op a b)
  | @logical op left right lefts rights hLeft hRight =>
      cases hAlike with
      | logical hLeft' hRight' =>
          apply hEval.bind hKeeps hPaired hLeft hLeft'
          intro spell' a a' t' m' _ _ hPaired' _ hA
          apply Follows.ite
          · rw [hA.isTruthy_eq]
          · exact follows_pure hPaired'.alike hA
          · exact hEval _ _ _ _ _ _ _ _ hPaired' hRight hRight'
  | @unary op operand notes hOperand =>
      cases hAlike with
      | unary hOperand' =>
          apply hEval.bind hKeeps hPaired hOperand hOperand'
          intro spell' a a' t' m' _ _ hPaired' _ hA
          rw [hA.applyUnary_eq op]
          exact
            follows_operator hPaired'.alike (applyUnary_spec op a)
  | @grouping inner notes hInner =>
      cases hAlike with
      | grouping hInner' =>
          exact hEval _ _ _ _ _ _ _ _ hPaired hInner hInner'
  | @call callee paren args notes others hCallee hArgs =>
      cases hAlike with
      | call hCallee' hArgs' =>
          apply hEval.bind hKeeps hPaired hCallee hCallee'
          intro spell' f f' t' m' _ _ hPaired' hFits hF
          have hOthers :=
            hKeeps.evalAll hPaired'.sound hPaired'.inScopes hArgs
          apply (hEval.evalAll hKeeps hPaired' hArgs hArgs').bind
            hOthers
          intro spell'' values values' t'' m'' hLeads hGrows hSound
            hAlike hValues hBoth
          apply Follows.guardStack
          exact
            hCall _ _ _ _ _ _ _ _ hSound hAlike (hFits.grows hGrows)
              hValues (hF.leads hLeads) hBoth

include hEval hExec in
theorem execTraced_follows_succ :
    ExecFollows (execTraced rounds (frames + 1))
      (exec rounds (frames + 1)) := by
  intro spell spellings scopes next t m s s' notes hPaired hNoted
    hAlike
  rcases evaluation_keeps rounds frames with
    ⟨hEvalKeeps, hExecKeeps, _⟩
  rw [execTraced.eq_def, exec.eq_def]
  cases hNoted with
  | @expression _ value notes hValue =>
      cases hAlike with
      | expression hBoth =>
          have hStep := hEval _ _ _ _ _ _ _ _ hPaired hValue hBoth
          exact hStep.map fun _ _ _ _ _ _ => rfl
  | @print _ value notes hValue =>
      cases hAlike with
      | print hBoth =>
          apply hEval.bind hEvalKeeps hPaired hValue hBoth
          intro spell' a a' t' m' _ _ hPaired' _ hA
          rw [hA.text_eq]
          have hPrint := follows_printLine hPaired'.alike a.text
          exact hPrint.map fun _ _ _ _ _ _ => rfl
  | @plain _ name hNew =>
      cases hAlike with
      | plain hName =>
          have hNil :
              Value.Alike t.machine.store spell .nil .nil := rfl
          exact follows_defineHere hPaired hName hNil
  | @initialized _ name value notes hNew hValue =>
      cases hAlike with
      | initialized hName hBoth =>
          have hPending :=
            hPaired.withScopes
              (Store.Agrees.enterPending hPaired.inScopes name.lexeme)
          apply hEval.bind hEvalKeeps hPending hValue hBoth
          intro spell' a a' t' m' _ _ hPaired' _ hA
          exact follows_defineHere hPaired' hName hA
  | @block _ body notes hBody =>
      cases hAlike with
      | block hBoth =>
          have hInside :=
            hExec.inNewEnv hExecKeeps hPaired.sound hPaired.alike
              (.inr ⟨scopes, hPaired.inScopes, hBody⟩) hPaired.along
              hBoth
          refine hInside.before rfl ?_ (.make _ _ _ _)
          rw [← hPaired.alike.store.next, ← hPaired.alike.current]
          rfl
  | @ifThen _ condition thenBranch notes thens hCondition hThen =>
      cases hAlike with
      | ifThen hCondition' hThen' =>
          apply hEval.bind hEvalKeeps hPaired hCondition hCondition'
          intro spell' a a' t' m' _ _ hPaired' _ hA
          apply Follows.ite
          · rw [hA.isTruthy_eq]
          · exact hExec _ _ _ _ _ _ _ _ _ hPaired' hThen hThen'
          · exact follows_pure hPaired'.alike rfl
  | @ifElse _ condition thenBranch elseBranch notes thens elses
      hCondition hThen hElse =>
      cases hAlike with
      | ifElse hCondition' hThen' hElse' =>
          apply hEval.bind hEvalKeeps hPaired hCondition hCondition'
          intro spell' a a' t' m' _ _ hPaired' _ hA
          apply Follows.ite
          · rw [hA.isTruthy_eq]
          · exact hExec _ _ _ _ _ _ _ _ _ hPaired' hThen hThen'
          · exact hExec _ _ _ _ _ _ _ _ _ hPaired' hElse hElse'
  | @loop _ condition body notes others hCondition hBody =>
      cases hAlike with
      | loop hCondition' hBody' =>
          apply follows_repeat _ _ hPaired
          · intro spell t m hPaired
            constructor
            · exact
                hEval _ _ _ _ _ _ _ _ hPaired hCondition hCondition'
            · have hStep :=
                hEvalKeeps t scopes condition notes hPaired.sound
                  hPaired.inScopes hCondition
              exact hStep.mono fun _ _ _ _ _ => trivial
          · intro spell t m hPaired
            constructor
            · exact hExec _ _ _ _ _ _ _ _ _ hPaired hBody hBody'
            · have hStep :=
                hExecKeeps t scopes scopes body others hPaired.sound
                  hPaired.inScopes hBody
              exact hStep.mono fun _ _ _ _ _ => trivial
  | @function _ scope name params body notes hNew hParams hBody =>
      cases hAlike with
      | function hName hParams' hBody' =>
          have hDeclare :=
            follows_declareFunction hPaired hName hParams' hBody'
              notes
          exact hDeclare.map fun _ _ _ _ _ _ => rfl
  | plainRet =>
      cases hAlike
      exact follows_pure hPaired.alike ⟨_, rfl, rfl⟩
  | @ret _ keyword value notes hValue =>
      cases hAlike with
      | ret hBoth =>
          have hStep := hEval _ _ _ _ _ _ _ _ hPaired hValue hBoth
          exact hStep.map fun _ _ _ _ _ hA => ⟨_, rfl, hA⟩

include hExec hCall in
theorem callTraced_follows_succ :
    CallFollows (callTraced rounds (frames + 1))
      (call rounds (frames + 1)) := by
  intro spell t m callee callee' args args' paren hSound hAlike
    hFits hArgs hCallee hBoth
  have hKeeps := (evaluation_keeps rounds frames).2.1
  have hLength := hBoth.length_eq
  rw [callTraced.eq_def, call.eq_def]
  cases callee with
  | function f =>
      rcases hCallee with ⟨f', rfl, hF⟩
      simp only [hF.length_params, ← hLength]
      have hCheck :=
        follows_checkArity hAlike f.params.length args.length paren
      apply hCheck.bind (keeps_checkArity hSound _ _ _)
      intro spell' _ _ t' m' hLeads hGrows hSound' hAlike' hSame _
      exact
        hExec.callClosure hKeeps hSound' hAlike' (hFits.grows hGrows)
          (fun arg hMem => (hArgs arg hMem).grows hGrows) hSame
          (hF.leads hLeads)
          (hBoth.imp fun _ _ hValue => hValue.leads hLeads)
  | native f =>
      have hSame : callee' = .native f := hCallee
      subst hSame
      simp only [← hLength]
      have hCheck :=
        follows_checkArity hAlike f.arity args.length paren
      apply hCheck.bind (keeps_checkArity hSound _ _ _)
      intro spell' _ _ t' m' hLeads hGrows hSound' hAlike' _ _
      exact
        hCall.callNative hSound' hAlike'
          (fun arg hMem => (hArgs arg hMem).grows hGrows)
          (hBoth.imp fun _ _ hValue => hValue.leads hLeads)
  | _ =>
      have hSame := hCallee
      unfold Value.Alike at hSame
      subst hSame
      exact follows_error rfl rfl hAlike

end Evaluation

end Lox.TracedRun

------------------------------------------------------------
-- Programs
------------------------------------------------------------

namespace Lox

open TracedRun Traced

/- Alike trees are evaluated alike. -/
theorem evaluation_follows (rounds frames : Nat) :
    EvalFollows (evalTraced rounds frames) (eval rounds frames) ∧
      ExecFollows (execTraced rounds frames)
        (exec rounds frames) ∧
      CallFollows (callTraced rounds frames)
        (call rounds frames) := by
  induction frames with
  | zero =>
      refine ⟨?_, ?_, ?_⟩
      · intro spell spellings scopes t m e e' notes hPaired _ _
        rw [evalTraced, eval]
        exact follows_error rfl rfl hPaired.alike
      · intro spell spellings scopes next t m s s' notes hPaired _ _
        rw [execTraced, exec]
        exact follows_error rfl rfl hPaired.alike
      · intro spell t m callee callee' args args' paren _ hAlike _ _
          _ _
        rw [callTraced, call]
        exact follows_error rfl rfl hAlike
  | succ frames ih =>
      rcases ih with ⟨ihEval, ihExec, ihCall⟩
      exact
        ⟨evalTraced_follows_succ ihEval ihCall,
          execTraced_follows_succ ihEval ihExec,
          callTraced_follows_succ ihExec ihCall⟩

/- Alike programs run alike on machines that are alike. -/
theorem runProgram_follows
    (limits : Limits)
    {spell : EnvId → Spelling}
    {t : Traced}
    {m : Machine}
    {program program' : List Stmt}
    {notes : List Notes}
    (hPaired : t.Paired spell [] [] m)
    (hNoted : Stmt.BodyNoted [] program notes)
    (hAlike : Stmt.BodyAlike [] program program') :
    (runProgramTraced limits notes program).Follows
      (runProgram limits program') spell t m
      fun _ _ _ _ => True := by
  induction program generalizing spell t m notes program' with
  | nil =>
      cases hAlike
      exact follows_pure hPaired.alike trivial
  | cons stmt program ih =>
      cases hNoted with
      | @cons _ next _ _ note others hFirst hRest =>
          cases hAlike with
          | @cons _ _ stmt' _ program' hStmt hOthers =>
              have hNil := hFirst.next_eq_nil
              subst hNil
              have hStep :=
                (evaluation_keeps limits.rounds limits.frames).2.1
                  t [] [] stmt note hPaired.sound hPaired.inScopes
                  hFirst
              have hFollows :=
                (evaluation_follows limits.rounds limits.frames).2.1
                  spell [] [] [] t m stmt stmt' note hPaired hFirst
                  hStmt
              rw [runProgramTraced, runProgram]
              apply hFollows.bind hStep
              intro spell' _ _ t' m' hLeads hGrows hSound hAlike' _ _
              exact
                ih (hPaired.next hLeads hGrows hSound hAlike') hRest
                  hOthers

end Lox
