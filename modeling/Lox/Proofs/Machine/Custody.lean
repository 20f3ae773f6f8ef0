import Lox.Proofs.Machine.Invariant

/-
  What a run can get hold of.

  A run starts from some environments: the one it is in, the
  globals, and those of the functions that it is given. From
  these it gets to others by the links between environments,
  by functions that are bound in them, and by making new ones.
  A custody says which environments a run may hold, and what
  it keeps true of the store as long as it binds names in
  these only and to values that it holds. No evaluation leaves
  its custody, however it ends.

  Key definitions include:
    * `Custody`
    * `Custody.Has`
    * `Custody.Covers`
    * `Custody.Guards`
    * `Custody.evaluation_guarded`
-/

------------------------------------------------------------
-- Custodies
------------------------------------------------------------

namespace Lox

/-
  Whether a value is one that is held: a function with an
  environment that is held, a native function that is
  admitted, or no function at all.
-/
def Value.Within
    (holds : EnvId → Prop)
    (admits : Native → Prop) :
    Value → Prop
  | .function f => holds f.env
  | .native f => admits f.toNative
  | _ => True

/-
  Which environments of a store may be held, which native
  functions, and what is kept true of the store. What is held
  leads to nothing else, by links or by values, and is held
  for ever; it is kept true by new environments within held
  ones, and by binding held values in held environments.
-/
structure Custody where
  globals : EnvId
  keeps : Store → Prop
  holds : Store → EnvId → Prop
  admits : Native → Prop
  holds_globals {s : Store} : keeps s → holds s globals
  holds_parent {s : Store} {env outer : EnvId} :
    keeps s → holds s env → s.parent? env = some outer →
      holds s outer
  within_of_local? {s : Store} {env : EnvId} {name : String}
    {value : Value} :
    keeps s → holds s env → s.local? env name = some value →
      value.Within (holds s) admits
  holds_grows {s s' : Store} {env : EnvId} :
    s.Grows s' → holds s env → holds s' env
  holds_made {s : Store} (parent : Option EnvId) :
    keeps s → holds (s.make parent) s.next
  keeps_make {s : Store} {outer : EnvId} :
    keeps s → holds s outer → keeps (s.make (some outer))
  keeps_makeRoot {s : Store} {native : Native} {name : Token}
    {params : List Token} :
    keeps s → admits native →
      native.behavior = .makeFunction name params →
        keeps (s.make none)
  keeps_define {s : Store} {env : EnvId} {value : Value}
    (name : String) :
    keeps s → holds s env → value.Within (holds s) admits →
      keeps (s.define env name value)
  admits_giveNil (name : String) (arity : Nat) :
    admits (.giveNil name arity)

namespace Custody

variable (C : Custody)

/- Whether a value is held. -/
def Has (s : Store) (value : Value) : Prop :=
  value.Within (C.holds s) C.admits

def HasAll (s : Store) (values : List Value) : Prop :=
  ∀ value ∈ values, C.Has s value

/- Whether what a statement returns is held. -/
def HasResult (s : Store) : Completion → Prop
  | .normal => True
  | .returned value => C.Has s value

/- A machine with the globals and a store of the custody. -/
structure Covers (m : Machine) : Prop where
  globals : m.globals = C.globals
  store : C.keeps m.store

/- A machine that is in an environment that is held. -/
structure CoversAt (m : Machine) : Prop extends C.Covers m where
  current : C.holds m.store m.current

/-
  However the step ends, the machine is covered and still in
  its environment; what the step gives is as promised.
-/
def Guards
    {α : Type}
    (step : Run α)
    (m : Machine)
    (Post : Store → α → Prop) :
    Prop :=
  match step m with
  | .ok a m' => C.Covers m' ∧ m.Stays m' ∧ Post m'.store a
  | .error _ m' => C.Covers m' ∧ m.Stays m'

end Custody

end Lox

------------------------------------------------------------
-- What Is Held Stays Held
------------------------------------------------------------

namespace Lox.Custody

variable {C : Custody} {s s' : Store} {m m' : Machine}

theorem Has.grows
    {value : Value}
    (hHas : C.Has s value)
    (hGrows : s.Grows s') :
    C.Has s' value := by
  cases value with
  | function f => exact C.holds_grows hGrows hHas
  | native f => exact hHas
  | _ => exact trivial

theorem HasAll.grows
    {values : List Value}
    (hHas : C.HasAll s values)
    (hGrows : s.Grows s') :
    C.HasAll s' values :=
  fun value hMem => Has.grows (hHas value hMem) hGrows

theorem hasAll_cons
    {value : Value}
    {values : List Value} :
    C.HasAll s (value :: values) ↔
      C.Has s value ∧ C.HasAll s values :=
  List.forall_mem_cons

theorem has_ofLiteral (value : Literal) :
    C.Has s (.ofLiteral value) := by
  cases value <;> exact trivial

theorem has_result
    {completion : Completion}
    (hHas : C.HasResult s completion) :
    C.Has s completion.result := by
  cases completion with
  | normal => exact trivial
  | returned value => exact hHas

/- The result of an operator is no function. -/
theorem has_applyUnary
    {op : Token}
    {operand value : Value}
    (hValue : applyUnary op operand = .ok value) :
    C.Has s value := by
  unfold applyUnary at hValue
  split at hValue
  · split at hValue <;> cases hValue
    exact trivial
  · cases hValue
    exact trivial
  · cases hValue

theorem has_applyBinary
    {op : Token}
    {left right value : Value}
    (hValue : applyBinary op left right = .ok value) :
    C.Has s value := by
  unfold applyBinary add onNumbers at hValue
  split at hValue
  all_goals
    first
    | (split at hValue <;> cases hValue <;> exact trivial)
    | (cases hValue <;> exact trivial)

/- A machine stays in its environment, which stays held. -/
theorem CoversAt.stays
    (hAt : C.CoversAt m)
    (hStays : m.Stays m')
    (hCovers : C.Covers m') :
    C.CoversAt m' := by
  refine ⟨hCovers, ?_⟩
  rw [hStays.current]
  exact C.holds_grows hStays.store hAt.current

theorem covers_isOfStore : Machine.IsOfStore C.Covers := by
  intro m m' hGlobals hStore hCovers
  refine ⟨hGlobals.trans hCovers.globals, ?_⟩
  rw [hStore]
  exact hCovers.store

theorem coversAt_remains : Run.Remains C.Covers C.CoversAt where
  stays _ _ := CoversAt.stays
  inv _ := CoversAt.toCovers

/- The environments around one that is held. -/
theorem holds_ancestor
    {env found : EnvId}
    {distance : Nat}
    (hKeeps : C.keeps s)
    (hEnv : C.holds s env)
    (hFound : s.ancestor? env distance = some found) :
    C.holds s found := by
  induction distance generalizing env with
  | zero =>
      cases hFound
      exact hEnv
  | succ distance ih =>
      unfold Store.ancestor? at hFound
      cases hParent : s.parent? env with
      | none => simp [hParent] at hFound
      | some outer =>
          rw [hParent] at hFound
          exact ih (C.holds_parent hKeeps hEnv hParent) hFound

theorem holds_of_mem_chainWithin
    {env found : EnvId}
    {links : Nat}
    (hKeeps : C.keeps s)
    (hEnv : C.holds s env)
    (hMem : found ∈ s.chainWithin links env) :
    C.holds s found := by
  induction links generalizing env with
  | zero =>
      rw [List.mem_singleton.mp hMem]
      exact hEnv
  | succ links ih =>
      unfold Store.chainWithin at hMem
      cases hParent : s.parent? env with
      | none =>
          rw [hParent] at hMem
          rw [List.mem_singleton.mp hMem]
          exact hEnv
      | some outer =>
          rw [hParent] at hMem
          rcases List.mem_cons.mp hMem with hSame | hMem
          · rw [hSame]
            exact hEnv
          · exact ih (C.holds_parent hKeeps hEnv hParent) hMem

/- A name is changed in an environment that is held. -/
theorem holds_target
    {name : Token}
    {hops : Option Nat}
    {env : EnvId}
    (hAt : C.CoversAt m)
    (hTarget : m.target name hops = .ok env) :
    C.holds m.store env := by
  cases hops with
  | none =>
      unfold Machine.target Store.owner at hTarget
      simp only at hTarget
      split at hTarget
      · rename_i found hFound
        cases hTarget
        have hMem := List.mem_of_find?_eq_some hFound
        rw [hAt.globals] at hMem
        exact
          holds_of_mem_chainWithin hAt.store
            (C.holds_globals hAt.store) hMem
      · cases hTarget
  | some hops =>
      unfold Machine.target Store.ancestor at hTarget
      simp only at hTarget
      split at hTarget
      · rename_i found hFound
        cases hTarget
        exact holds_ancestor hAt.store hAt.current hFound
      · cases hTarget

end Lox.Custody

------------------------------------------------------------
-- Guarded Steps
------------------------------------------------------------

namespace Lox.Custody

variable {C : Custody} {α β : Type} {m : Machine}
variable {step : Run α} {next : α → Run β}
variable {Post : Store → α → Prop} {Post' : Store → β → Prop}

/- What a guarded step leaves, if it ends well. -/
theorem Guards.of_ok
    {a : α}
    {m' : Machine}
    (hGuards : C.Guards step m Post)
    (hRun : step m = .ok a m') :
    C.Covers m' ∧ m.Stays m' ∧ Post m'.store a :=
  Run.Maintains.of_ok hGuards hRun

/- What it leaves, however it ends. -/
theorem Guards.covers_left (hGuards : C.Guards step m Post) :
    C.Covers (Run.left (step m)) :=
  Run.Maintains.left hGuards

theorem Guards.bind
    (hStep : C.Guards step m Post)
    (hNext :
      ∀ a m', C.Covers m' → m.Stays m' → Post m'.store a →
        C.Guards (next a) m' Post') :
    C.Guards (step >>= next) m Post' :=
  Run.Maintains.bind hStep hNext

theorem guards_pure
    {a : α}
    (hCovers : C.Covers m)
    (hPost : Post m.store a) :
    C.Guards (pure a) m Post :=
  ⟨hCovers, .refl m, hPost⟩

theorem guards_stop
    (hCovers : C.Covers m)
    (interrupt : Interrupt) :
    C.Guards (fun m => .error interrupt m) m Post :=
  ⟨hCovers, .refl m⟩

theorem Guards.ite
    {other : Run α}
    {p : Prop}
    [Decidable p]
    (hStep : C.Guards step m Post)
    (hOther : C.Guards other m Post) :
    C.Guards (if p then step else other) m Post :=
  Run.Maintains.ite hStep hOther

theorem guards_lift
    {result : Except RuntimeError α}
    (hCovers : C.Covers m)
    (hResult : ∀ a, result = .ok a → Post m.store a) :
    C.Guards (Run.lift result) m Post :=
  Run.maintains_lift hCovers hResult

theorem guards_printLine
    (hCovers : C.Covers m)
    (text : String) :
    C.Guards (Run.printLine text) m fun _ _ => True :=
  Run.maintains_printLine covers_isOfStore hCovers text

theorem guards_current (hAt : C.CoversAt m) :
    C.Guards Run.current m C.holds :=
  ⟨hAt.toCovers, .refl m, hAt.current⟩

theorem guards_freshIdent (hCovers : C.Covers m) :
    C.Guards Run.freshIdent m fun _ _ => True :=
  Run.maintains_freshIdent covers_isOfStore hCovers

theorem guards_readClock (hCovers : C.Covers m) :
    C.Guards Run.readClock m C.Has := by
  apply (Run.maintains_readClock covers_isOfStore hCovers).mono
  rintro s value ⟨x, rfl⟩
  exact trivial

/- A new environment is held. -/
theorem guards_makeEnv
    {parent : Option EnvId}
    (hCovers : C.Covers m)
    (hMake : C.keeps (m.store.make parent)) :
    C.Guards (Run.makeEnv parent) m C.holds :=
  ⟨⟨hCovers.globals, hMake⟩, Run.restores_makeEnv parent m,
    C.holds_made parent hCovers.store⟩

theorem guards_makeEnvIn
    {outer : EnvId}
    (hCovers : C.Covers m)
    (hOuter : C.holds m.store outer) :
    C.Guards (Run.makeEnv (some outer)) m C.holds :=
  guards_makeEnv hCovers (C.keeps_make hCovers.store hOuter)

theorem guards_define
    {env : EnvId}
    {value : Value}
    (hCovers : C.Covers m)
    (hEnv : C.holds m.store env)
    (hValue : C.Has m.store value)
    (name : String) :
    C.Guards (Run.define env name value) m fun _ _ => True :=
  ⟨⟨hCovers.globals,
      C.keeps_define name hCovers.store hEnv hValue⟩,
    Run.restores_define env name value m, trivial⟩

theorem guards_readName
    (hAt : C.CoversAt m)
    (name : Token)
    (hops : Option Nat) :
    C.Guards (Run.readName name hops) m C.Has := by
  apply guards_lift hAt.toCovers
  intro value hValue
  cases hops with
  | none =>
      simp only [Store.get] at hValue
      split at hValue
      · rename_i found hFound
        cases hValue
        rcases List.exists_of_findSome?_eq_some hFound with
          ⟨env, hMem, hLocal⟩
        have hGlobals := C.holds_globals hAt.store
        rw [← hAt.globals] at hGlobals
        have hEnv :=
          holds_of_mem_chainWithin hAt.store hGlobals hMem
        exact C.within_of_local? hAt.store hEnv hLocal
      · cases hValue
  | some hops =>
      simp only [Store.getAt, Store.ancestor] at hValue
      cases hFound : m.store.ancestor? m.current hops with
      | none =>
          rw [hFound] at hValue
          cases hValue
      | some env =>
          rw [hFound] at hValue
          simp only [bind, Except.bind] at hValue
          split at hValue
          · rename_i found hLocal
            cases hValue
            have hEnv :=
              holds_ancestor hAt.store hAt.current hFound
            exact C.within_of_local? hAt.store hEnv hLocal
          · cases hValue

theorem guards_writeName
    {value : Value}
    (hAt : C.CoversAt m)
    (hValue : C.Has m.store value)
    (name : Token)
    (hops : Option Nat) :
    C.Guards (Run.writeName name hops value) m
      fun _ _ => True := by
  unfold Guards Run.writeName
  cases hTarget : m.target name hops with
  | ok env =>
      have hEnv := holds_target hAt hTarget
      exact
        guards_define hAt.toCovers hEnv hValue name.lexeme
  | error e => exact ⟨hAt.toCovers, .refl m⟩

/- The machine comes back to where it was. -/
theorem Guards.inScope
    {env : EnvId}
    (hStep : C.Guards step { m with current := env } Post) :
    C.Guards (Run.inScope env step) m Post :=
  Run.Maintains.inScope hStep covers_isOfStore

theorem Guards.guardStack
    (hStep : C.Guards step m Post)
    (paren : Token) :
    C.Guards (Run.guardStack paren step) m Post :=
  Run.Maintains.guardStack hStep paren

theorem guards_makeFunction
    {env : EnvId}
    (hCovers : C.Covers m)
    (hEnv : C.holds m.store env)
    (name : Token)
    (params : List Token)
    (body : List Stmt) :
    C.Guards (Run.makeFunction name params body env) m C.Has := by
  apply (guards_freshIdent hCovers).bind
  intro ident m' hCovers' hStays _
  exact guards_pure hCovers' (C.holds_grows hStays.store hEnv)

theorem guards_checkArity
    (hCovers : C.Covers m)
    (expected got : Nat)
    (paren : Token) :
    C.Guards (checkArity expected got paren) m
      fun _ _ => True :=
  Run.maintains_checkArity hCovers expected got paren

end Lox.Custody

------------------------------------------------------------
-- Lists Of Steps And Calls
------------------------------------------------------------

namespace Lox.Custody

/- Expressions give what is held. -/
def EvalGuarded (C : Custody) (eval : Expr → Run Value) : Prop :=
  ∀ e m, C.CoversAt m → C.Guards (eval e) m C.Has

/- So do statements that return. -/
def ExecGuarded
    (C : Custody)
    (exec : Stmt → Run Completion) :
    Prop :=
  ∀ s m, C.CoversAt m → C.Guards (exec s) m C.HasResult

/-
  So do calls of what is held, with arguments that are held;
  where the call is made does not matter.
-/
def CallGuarded
    (C : Custody)
    (call : Value → List Value → Token → Run Value) :
    Prop :=
  ∀ callee args paren m,
    C.Covers m → C.Has m.store callee → C.HasAll m.store args →
      C.Guards (call callee args paren) m C.Has

variable {C : Custody} {m : Machine}
variable {eval : Expr → Run Value}
variable {exec : Stmt → Run Completion}
variable {call : Value → List Value → Token → Run Value}

theorem EvalGuarded.evalAll
    (hEval : C.EvalGuarded eval)
    (hAt : C.CoversAt m)
    (args : List Expr) :
    C.Guards (evalAll eval args) m C.HasAll := by
  induction args generalizing m with
  | nil => exact guards_pure hAt.toCovers (by simp [HasAll])
  | cons arg args ih =>
      apply (hEval arg m hAt).bind
      intro value m' hCovers hStays hValue
      apply (ih (hAt.stays hStays hCovers)).bind
      intro values m'' hCovers' hStays' hValues
      apply guards_pure hCovers'
      exact hasAll_cons.mpr ⟨hValue.grows hStays'.store, hValues⟩

theorem ExecGuarded.execAll
    (hExec : C.ExecGuarded exec)
    (hAt : C.CoversAt m)
    (body : List Stmt) :
    C.Guards (execAll exec body) m C.HasResult := by
  apply coversAt_remains.execAll (fun _ => trivial) _ hAt
  intro stmt _ m hAt
  exact hExec stmt m hAt

theorem guards_repeatWhile
    {condition : Run Value}
    {body : Run Completion}
    (hCondition :
      ∀ m, C.CoversAt m → C.Guards condition m C.Has)
    (hBody : ∀ m, C.CoversAt m → C.Guards body m C.HasResult)
    (hAt : C.CoversAt m)
    (rounds : Nat) :
    C.Guards (repeatWhile condition body rounds) m
      C.HasResult :=
  coversAt_remains.repeatWhile (fun _ => trivial) hCondition hBody
    hAt rounds

theorem guards_bindParams
    {env : EnvId}
    {args : List Value}
    (hCovers : C.Covers m)
    (hEnv : C.holds m.store env)
    (hArgs : C.HasAll m.store args)
    (params : List Token) :
    C.Guards (bindParams env params args) m fun _ _ => True := by
  induction params generalizing m args with
  | nil => exact guards_pure hCovers trivial
  | cons param params ih =>
      cases args with
      | nil => exact guards_pure hCovers trivial
      | cons arg args =>
          rcases hasAll_cons.mp hArgs with ⟨hArg, hRest⟩
          apply (guards_define hCovers hEnv hArg param.lexeme).bind
          intro _ m' hCovers' hStays _
          exact
            ih hCovers' (C.holds_grows hStays.store hEnv)
              (hRest.grows hStays.store)

theorem ExecGuarded.callClosure
    {f : Closure}
    {args : List Value}
    (hExec : C.ExecGuarded exec)
    (hCovers : C.Covers m)
    (hEnv : C.holds m.store f.env)
    (hArgs : C.HasAll m.store args) :
    C.Guards (callClosure exec f args) m C.Has := by
  apply (guards_makeEnvIn hCovers hEnv).bind
  intro params m₁ hCovers₁ hStays₁ hParams
  have hArgs₁ := hArgs.grows hStays₁.store
  apply (guards_bindParams hCovers₁ hParams hArgs₁ f.params).bind
  intro _ m₂ hCovers₂ hStays₂ _
  have hParams₂ := C.holds_grows hStays₂.store hParams
  apply (guards_makeEnvIn hCovers₂ hParams₂).bind
  intro body m₃ hCovers₃ _ hBody
  have hInside : C.CoversAt { m₃ with current := body } :=
    ⟨⟨hCovers₃.globals, hCovers₃.store⟩, hBody⟩
  apply (hExec.execAll hInside f.body).inScope.bind
  intro completion m₄ hCovers₄ _ hResult
  exact guards_pure hCovers₄ (has_result hResult)

/- A native function makes environments if it is admitted. -/
theorem CallGuarded.callNative
    {native : Native}
    {args : List Value}
    (hCall : C.CallGuarded call)
    (hCovers : C.Covers m)
    (hNative : C.admits native)
    (hArgs : C.HasAll m.store args) :
    C.Guards (callNative call native args) m C.Has := by
  unfold Lox.callNative
  cases hBehavior : native.behavior with
  | clock => exact guards_readClock hCovers
  | argument index =>
      simp only
      cases hArg : args[index]? with
      | none => exact guards_stop hCovers _
      | some value =>
          have hMem := List.mem_of_getElem? hArg
          exact guards_pure hCovers (hArgs value hMem)
  | constant value => exact guards_pure hCovers (has_ofLiteral _)
  | makeFunction name params =>
      have hMake :=
        C.keeps_makeRoot hCovers.store hNative hBehavior
      apply (guards_makeEnv hCovers hMake).bind
      intro env m' hCovers' _ hEnv
      exact guards_makeFunction hCovers' hEnv name params []
  | makeNative name arity =>
      apply (guards_freshIdent hCovers).bind
      intro ident m' hCovers' _ _
      exact guards_pure hCovers' (C.admits_giveNil name arity)
  | apply index =>
      simp only
      cases hArg : args[index]? with
      | none => exact guards_stop hCovers _
      | some callee =>
          have hMem := List.mem_of_getElem? hArg
          apply hCall callee _ _ m hCovers (hArgs callee hMem)
          intro arg hOther
          exact hArgs arg (List.mem_of_mem_eraseIdx hOther)
  | foreign number => exact guards_stop hCovers _

/- A declared function has the environment it is declared in. -/
theorem guards_declareFunction
    (hAt : C.CoversAt m)
    (name : Token)
    (params : List Token)
    (body : List Stmt) :
    C.Guards (declareFunction name params body) m
      fun _ _ => True := by
  apply (guards_current hAt).bind
  intro env m₁ hCovers₁ _ hEnv
  apply (guards_makeFunction hCovers₁ hEnv name params body).bind
  intro value m₂ hCovers₂ hStays₂ hValue
  have hEnv₂ := C.holds_grows hStays₂.store hEnv
  exact guards_define hCovers₂ hEnv₂ hValue name.lexeme

theorem guards_defineHere
    {value : Value}
    (hAt : C.CoversAt m)
    (hValue : C.Has m.store value)
    (name : String) :
    C.Guards
      (do
        Run.define (← Run.current) name value
        return .normal)
      m C.HasResult := by
  apply (guards_current hAt).bind
  intro env m₁ hCovers₁ hStays₁ hEnv
  have hValue₁ := hValue.grows hStays₁.store
  apply (guards_define hCovers₁ hEnv hValue₁ name).bind
  intro _ m₂ hCovers₂ _ _
  exact guards_pure hCovers₂ trivial

end Lox.Custody

------------------------------------------------------------
-- Expressions And Statements
------------------------------------------------------------

namespace Lox.Custody

variable {C : Custody} {rounds frames : Nat}
variable (hEval : C.EvalGuarded (eval rounds frames))
variable (hExec : C.ExecGuarded (exec rounds frames))
variable (hCall : C.CallGuarded (call rounds frames))

include hEval hCall in
theorem eval_guarded_succ :
    C.EvalGuarded (eval rounds (frames + 1)) := by
  intro e m hAt
  rw [eval.eq_def]
  cases e with
  | literal value => exact guards_pure hAt.toCovers (has_ofLiteral _)
  | grouping inner => exact hEval inner m hAt
  | «variable» name hops => exact guards_readName hAt name hops
  | assign name value hops =>
      apply (hEval value m hAt).bind
      intro result m₁ hCovers₁ hStays₁ hResult
      have hAt₁ := hAt.stays hStays₁ hCovers₁
      apply (guards_writeName hAt₁ hResult name hops).bind
      intro _ m₂ hCovers₂ hStays₂ _
      exact guards_pure hCovers₂ (hResult.grows hStays₂.store)
  | unary op operand =>
      apply (hEval operand m hAt).bind
      intro result m₁ hCovers₁ _ _
      exact guards_lift hCovers₁ fun _ hValue => has_applyUnary hValue
  | binary left op right =>
      apply (hEval left m hAt).bind
      intro a m₁ hCovers₁ hStays₁ _
      apply (hEval right m₁ (hAt.stays hStays₁ hCovers₁)).bind
      intro b m₂ hCovers₂ _ _
      exact
        guards_lift hCovers₂ fun _ hValue => has_applyBinary hValue
  | logical left op right =>
      apply (hEval left m hAt).bind
      intro a m₁ hCovers₁ hStays₁ hLeft
      have hAt₁ := hAt.stays hStays₁ hCovers₁
      exact (guards_pure hCovers₁ hLeft).ite (hEval right m₁ hAt₁)
  | call callee paren args =>
      apply (hEval callee m hAt).bind
      intro f m₁ hCovers₁ hStays₁ hCallee
      have hAt₁ := hAt.stays hStays₁ hCovers₁
      apply (hEval.evalAll hAt₁ args).bind
      intro values m₂ hCovers₂ hStays₂ hValues
      have hCallee₂ := hCallee.grows hStays₂.store
      exact
        (hCall f values paren m₂ hCovers₂ hCallee₂
          hValues).guardStack paren

include hEval hExec in
theorem exec_guarded_succ :
    C.ExecGuarded (exec rounds (frames + 1)) := by
  intro s m hAt
  rw [exec.eq_def]
  cases s with
  | expression value =>
      apply (hEval value m hAt).bind
      intro _ m₁ hCovers₁ _ _
      exact guards_pure hCovers₁ trivial
  | print value =>
      apply (hEval value m hAt).bind
      intro result m₁ hCovers₁ _ _
      apply (guards_printLine hCovers₁ result.text).bind
      intro _ m₂ hCovers₂ _ _
      exact guards_pure hCovers₂ trivial
  | var name initializer =>
      cases initializer with
      | none =>
          have hNil : C.Has m.store .nil := trivial
          exact guards_defineHere hAt hNil name.lexeme
      | some value =>
          apply (hEval value m hAt).bind
          intro result m₁ hCovers₁ hStays₁ hResult
          have hAt₁ := hAt.stays hStays₁ hCovers₁
          exact guards_defineHere hAt₁ hResult name.lexeme
  | block body =>
      apply (guards_current hAt).bind
      intro outer m₁ hCovers₁ _ hOuter
      apply (guards_makeEnvIn hCovers₁ hOuter).bind
      intro env m₂ hCovers₂ _ hEnv
      have hInside : C.CoversAt { m₂ with current := env } :=
        ⟨⟨hCovers₂.globals, hCovers₂.store⟩, hEnv⟩
      exact (hExec.execAll hInside body).inScope
  | ifThen condition thenBranch =>
      apply (hEval condition m hAt).bind
      intro value m₁ hCovers₁ hStays₁ _
      have hAt₁ := hAt.stays hStays₁ hCovers₁
      exact
        (hExec thenBranch m₁ hAt₁).ite (guards_pure hCovers₁ trivial)
  | ifElse condition thenBranch elseBranch =>
      apply (hEval condition m hAt).bind
      intro value m₁ hCovers₁ hStays₁ _
      have hAt₁ := hAt.stays hStays₁ hCovers₁
      exact
        (hExec thenBranch m₁ hAt₁).ite (hExec elseBranch m₁ hAt₁)
  | loop condition body =>
      exact guards_repeatWhile (hEval condition) (hExec body) hAt rounds
  | function name params body =>
      apply (guards_declareFunction hAt name params body).bind
      intro _ m₁ hCovers₁ _ _
      exact guards_pure hCovers₁ trivial
  | ret keyword value =>
      cases value with
      | none => exact guards_pure hAt.toCovers trivial
      | some value =>
          apply (hEval value m hAt).bind
          intro result m₁ hCovers₁ _ hResult
          exact guards_pure hCovers₁ hResult

include hExec hCall in
theorem call_guarded_succ :
    C.CallGuarded (call rounds (frames + 1)) := by
  intro callee args paren m hCovers hCallee hArgs
  rw [call.eq_def]
  cases callee with
  | function f =>
      apply (guards_checkArity hCovers _ _ paren).bind
      intro _ m₁ hCovers₁ hStays₁ _
      exact
        hExec.callClosure hCovers₁
          (C.holds_grows hStays₁.store hCallee)
          (hArgs.grows hStays₁.store)
  | native f =>
      apply (guards_checkArity hCovers _ _ paren).bind
      intro _ m₁ hCovers₁ hStays₁ _
      exact
        hCall.callNative hCovers₁ hCallee
          (hArgs.grows hStays₁.store)
  | _ => exact guards_stop hCovers _

/- No evaluation leaves the custody. -/
theorem evaluation_guarded
    (C : Custody)
    (rounds frames : Nat) :
    C.EvalGuarded (eval rounds frames) ∧
    C.ExecGuarded (exec rounds frames) ∧
    C.CallGuarded (call rounds frames) := by
  induction frames with
  | zero =>
      refine ⟨?_, ?_, ?_⟩
      · intro e m hAt
        rw [eval]
        exact guards_stop hAt.toCovers .outOfFrames
      · intro s m hAt
        rw [exec]
        exact guards_stop hAt.toCovers .outOfFrames
      · intro callee args paren m hCovers _ _
        rw [call]
        exact guards_stop hCovers .outOfFrames
  | succ frames ih =>
      rcases ih with ⟨ihEval, ihExec, ihCall⟩
      exact
        ⟨eval_guarded_succ ihEval ihCall,
          exec_guarded_succ ihEval ihExec,
          call_guarded_succ ihExec ihCall⟩

/- Nor does the run of a program. -/
theorem guards_runProgram
    {C : Custody}
    {m : Machine}
    (hAt : C.CoversAt m)
    (limits : Limits)
    (program : List Stmt) :
    C.Guards (runProgram limits program) m fun _ _ => True := by
  induction program generalizing m with
  | nil => exact guards_pure hAt.toCovers trivial
  | cons stmt program ih =>
      have hExec :=
        (C.evaluation_guarded limits.rounds limits.frames).2.1
      apply (hExec stmt m hAt).bind
      intro _ m₁ hCovers₁ hStays₁ _
      exact ih (hAt.stays hStays₁ hCovers₁)

end Lox.Custody
