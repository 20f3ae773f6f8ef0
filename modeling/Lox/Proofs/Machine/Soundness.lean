import Lox.Proofs.Machine.Growth
import Lox.Proofs.Machine.Trace

/-
  Sound runs, and the steps that keep them sound.

  A run is sound as long as every function it has made has the
  notes of its body and an environment that agrees with the
  scopes of its declaration, and every visit so far found the
  environment that its scopes promise. `Keeps` says of a step
  that it keeps a run sound however it ends; it is kept by
  sequencing, and it holds of each step of a machine.

  Key definitions include:
    * `Visit.Agrees`
    * `RuntimeError.Blamed`
    * `Value.Fits`
    * `Traced.Sound`
    * `TracedRun.Keeps`
-/

------------------------------------------------------------
-- Sound Runs
------------------------------------------------------------

namespace Lox

/-
  The environment of a visit has as many others around it as
  the resolver had scopes, and the number of scopes recorded
  for a use leads to an environment, which binds the name if
  it is read.
-/
def Visit.Agrees (visit : Visit) : Prop :=
  let store := visit.machine.store
  let current := visit.machine.current
  store.depth current = visit.scopes.length ∧
  match visit.node with
  | .variable name (some distance) =>
      ∃ env, store.ancestor? current distance = some env ∧
        (store.local? env name.lexeme).isSome
  | .assign _ _ (some distance) =>
      ∃ env, store.ancestor? current distance = some env
  | _ => True

/- A visit to a use of a name with no number of scopes. -/
def Visit.IsGlobalUse (visit : Visit) (name : Token) : Prop :=
  visit.node = .variable name none ∨
    ∃ value, visit.node = .assign name value none

/-
  An error is no wrong number of scopes, and a name that is
  not bound belongs to a use of a global that was visited.
-/
def RuntimeError.Blamed
    (e : RuntimeError)
    (visits : List Visit) :
    Prop :=
  (∀ distance, e.fault ≠ .scopeDistance distance) ∧
  ∀ text, e.fault = .undefinedVariable text →
    ∃ visit ∈ visits, ∃ name : Token,
      visit.IsGlobalUse name ∧ e = Store.undefined name

def Interrupt.Blamed (visits : List Visit) : Interrupt → Prop
  | .failed e => e.Blamed visits
  | _ => True

/-
  A function fits a run if its body has nothing to resolve, or
  if it was resolved in scopes that its environment agrees
  with, and the notes of its body are kept.
-/
def Value.Fits (t : Traced) : Value → Prop
  | .function f =>
      f.ident < t.machine.functions ∧
      f.env < t.machine.store.next ∧
      (f.body = [] ∨
        ∃ (scope : Scope) (scopes : List Scope),
          t.machine.store.Agrees t.machine.globals scopes f.env ∧
          (∀ param, scope.lookup param = some true →
            ∃ token ∈ f.params, token.lexeme = param) ∧
          Stmt.BodyNoted ([] :: scope :: scopes) f.body
            (t.bodies f.ident))
  | _ => True

def Completion.Fits (t : Traced) : Completion → Prop
  | .normal => True
  | .returned value => value.Fits t

namespace Traced

/- All values fit, and all visits found what they should. -/
structure Sound (t : Traced) : Prop where
  values :
    ∀ env name value,
      t.machine.store.local? env name = some value →
        value.Fits t
  visits : ∀ visit ∈ t.visits, visit.Agrees

/- The current environment agrees with the scopes. -/
def In (t : Traced) (scopes : List Scope) : Prop :=
  t.machine.store.Agrees t.machine.globals scopes
    t.machine.current

/- What a run adds to and what it comes back to. -/
structure Grows (t t' : Traced) : Prop where
  store : t.machine.store.Grows t'.machine.store
  globals : t'.machine.globals = t.machine.globals
  current : t'.machine.current = t.machine.current
  functions : t.machine.functions ≤ t'.machine.functions
  bodies :
    ∀ ident, ident < t.machine.functions →
      t'.bodies ident = t.bodies ident
  visits : ∀ visit ∈ t.visits, visit ∈ t'.visits

theorem Grows.refl (t : Traced) : t.Grows t :=
  ⟨.refl _, rfl, rfl, Nat.le_refl _, fun _ _ => rfl,
    fun _ hVisit => hVisit⟩

theorem Grows.trans
    {t t' t'' : Traced}
    (hFirst : t.Grows t')
    (hSecond : t'.Grows t'') :
    t.Grows t'' := by
  refine
    ⟨hFirst.store.trans hSecond.store,
      hSecond.globals.trans hFirst.globals,
      hSecond.current.trans hFirst.current,
      Nat.le_trans hFirst.functions hSecond.functions, ?_, ?_⟩
  · intro ident hIdent
    have hIdent' := Nat.lt_of_lt_of_le hIdent hFirst.functions
    rw [hSecond.bodies ident hIdent', hFirst.bodies ident hIdent]
  · intro visit hVisit
    exact hSecond.visits visit (hFirst.visits visit hVisit)

theorem In.grows
    {t t' : Traced}
    {scopes : List Scope}
    (hIn : t.In scopes)
    (hGrows : t.Grows t') :
    t'.In scopes := by
  unfold In
  rw [hGrows.globals, hGrows.current]
  exact Store.Agrees.grows hIn hGrows.store

end Traced

/- Functions are values; all others fit every run. -/
theorem Value.fits_of_ne_function
    {value : Value}
    (hValue : ∀ f, value ≠ .function f)
    (t : Traced) :
    value.Fits t := by
  cases value with
  | function f => exact absurd rfl (hValue f)
  | _ => exact trivial

theorem Value.Fits.grows
    {t t' : Traced}
    {value : Value}
    (hFits : value.Fits t)
    (hGrows : t.Grows t') :
    value.Fits t' := by
  cases value with
  | function f =>
      rcases hFits with ⟨hIdent, hEnv, hBody⟩
      refine
        ⟨Nat.lt_of_lt_of_le hIdent hGrows.functions,
          Nat.lt_of_lt_of_le hEnv hGrows.store.next_le, ?_⟩
      rcases hBody with
        hEmpty | ⟨scope, scopes, hEnv, hParams, hBody⟩
      · exact .inl hEmpty
      · refine .inr ⟨scope, scopes, ?_, hParams, ?_⟩
        · rw [hGrows.globals]
          exact hEnv.grows hGrows.store
        · rwa [hGrows.bodies f.ident hIdent]
  | _ => exact trivial

/- A sound run stays sound where its values and visits do. -/
theorem Traced.Sound.grows
    {t t' : Traced}
    (hSound : t.Sound)
    (hGrows : t.Grows t')
    (hValues :
      ∀ env name value,
        t'.machine.store.local? env name = some value →
          t.machine.store.local? env name = some value ∨
            value.Fits t')
    (hVisits : t'.visits = t.visits) :
    t'.Sound := by
  constructor
  · intro env name value hLocal
    rcases hValues env name value hLocal with hOld | hNew
    · exact (hSound.values env name value hOld).grows hGrows
    · exact hNew
  · rw [hVisits]
    exact hSound.visits

end Lox

------------------------------------------------------------
-- Steps That Keep A Run Sound
------------------------------------------------------------

namespace Lox.TracedRun

variable {α β : Type}

/-
  However the step ends, the run is sound and has grown; its
  result is as promised, and its error is blamed on what it
  should be.
-/
def Keeps
    (step : TracedRun α)
    (t : Traced)
    (Post : α → Traced → Prop) :
    Prop :=
  match step t with
  | .ok a t' => t'.Sound ∧ t.Grows t' ∧ Post a t'
  | .error e t' =>
      t'.Sound ∧ t.Grows t' ∧ e.Blamed t'.visits

variable {x : TracedRun α} {f : α → TracedRun β}
variable {t t' : Traced}
variable {P : α → Traced → Prop} {Q : β → Traced → Prop}

theorem Keeps.mono
    {P' : α → Traced → Prop}
    (hKeeps : x.Keeps t P)
    (hMono :
      ∀ a t', t'.Sound → t.Grows t' → P a t' → P' a t') :
    x.Keeps t P' := by
  unfold Keeps at hKeeps ⊢
  cases hRun : x t with
  | ok a t' =>
      rw [hRun] at hKeeps
      rcases hKeeps with ⟨hSound, hGrows, hPost⟩
      exact ⟨hSound, hGrows, hMono a t' hSound hGrows hPost⟩
  | error e t' =>
      rw [hRun] at hKeeps
      exact hKeeps

/- A step that grows a run may be put in front. -/
theorem Keeps.before
    (hKeeps : x.Keeps t' P)
    (hGrows : t.Grows t') :
    match x t' with
    | .ok a t'' => t''.Sound ∧ t.Grows t'' ∧ P a t''
    | .error e t'' =>
        t''.Sound ∧ t.Grows t'' ∧ e.Blamed t''.visits := by
  unfold Keeps at hKeeps
  cases hRun : x t' with
  | ok a t'' =>
      rw [hRun] at hKeeps
      exact ⟨hKeeps.1, hGrows.trans hKeeps.2.1, hKeeps.2.2⟩
  | error e t'' =>
      rw [hRun] at hKeeps
      exact ⟨hKeeps.1, hGrows.trans hKeeps.2.1, hKeeps.2.2⟩

theorem Keeps.bind
    (hFirst : x.Keeps t P)
    (hNext :
      ∀ a t', t'.Sound → t.Grows t' → P a t' →
        (f a).Keeps t' Q) :
    (x >>= f).Keeps t Q := by
  unfold Keeps at hFirst ⊢
  cases hRun : x t with
  | ok a t' =>
      rw [hRun] at hFirst
      rcases hFirst with ⟨hSound, hGrows, hPost⟩
      rw [bind_of_ok hRun]
      exact (hNext a t' hSound hGrows hPost).before hGrows
  | error e t' =>
      rw [hRun] at hFirst
      rw [bind_of_error hRun]
      exact hFirst

theorem keeps_pure
    {a : α}
    (hSound : t.Sound)
    (hPost : P a t) :
    (pure a : TracedRun α).Keeps t P :=
  ⟨hSound, .refl t, hPost⟩

theorem keeps_ok
    {a : α}
    (hRun : x t = .ok a t')
    (hSound : t'.Sound)
    (hGrows : t.Grows t')
    (hPost : P a t') :
    x.Keeps t P := by
  unfold Keeps
  rw [hRun]
  exact ⟨hSound, hGrows, hPost⟩

/- An error that leaves the run as it is. -/
theorem keeps_error
    {e : Interrupt}
    (hRun : x t = .error e t)
    (hSound : t.Sound)
    (hBlamed : e.Blamed t.visits) :
    x.Keeps t P := by
  unfold Keeps
  rw [hRun]
  exact ⟨hSound, .refl t, hBlamed⟩

theorem Keeps.ite
    {y : TracedRun α}
    {p : Prop}
    [Decidable p]
    (hThen : x.Keeps t P)
    (hElse : y.Keeps t P) :
    (if p then x else y).Keeps t P := by
  split
  · exact hThen
  · exact hElse

/- A step in another environment comes back to the first. -/
theorem Keeps.inScope
    {env : EnvId}
    (hStep :
      x.Keeps
        { t with machine := { t.machine with current := env } }
        fun a t' =>
          P a
            { t' with
              machine :=
                { t'.machine with
                  current := t.machine.current } }) :
    (inScope env x).Keeps t P := by
  unfold Keeps at hStep ⊢
  unfold TracedRun.inScope
  simp only
  cases hRun : x
    { t with machine := { t.machine with current := env } } with
  | ok a t' =>
      simp only [hRun] at hStep ⊢
      rcases hStep with ⟨hSound, hGrows, hPost⟩
      refine ⟨⟨hSound.values, hSound.visits⟩, ?_, hPost⟩
      exact
        ⟨hGrows.store, hGrows.globals, rfl, hGrows.functions,
          hGrows.bodies, hGrows.visits⟩
  | error e t' =>
      simp only [hRun] at hStep ⊢
      rcases hStep with ⟨hSound, hGrows, hBlamed⟩
      refine ⟨⟨hSound.values, hSound.visits⟩, ?_, hBlamed⟩
      exact
        ⟨hGrows.store, hGrows.globals, rfl, hGrows.functions,
          hGrows.bodies, hGrows.visits⟩

/- Lack of nesting within a call is blamed on the call. -/
theorem Keeps.guardStack
    (paren : Token)
    (hStep : x.Keeps t P) :
    (guardStack paren x).Keeps t P := by
  unfold Keeps at hStep ⊢
  unfold TracedRun.guardStack
  cases hRun : x t with
  | ok a t' =>
      rw [hRun] at hStep
      exact hStep
  | error e t' =>
      rw [hRun] at hStep
      cases e with
      | outOfFrames =>
          refine ⟨hStep.1, hStep.2.1, ?_, ?_⟩
          · intro distance hFault
            cases hFault
          · intro text hFault
            cases hFault
      | _ => exact hStep

end Lox.TracedRun

------------------------------------------------------------
-- Steps That Leave The Store
------------------------------------------------------------

namespace Lox

/- An error that has nothing to do with names and scopes. -/
def RuntimeError.IsOther (e : RuntimeError) : Prop :=
  (∀ distance, e.fault ≠ .scopeDistance distance) ∧
    ∀ name, e.fault ≠ .undefinedVariable name

theorem RuntimeError.IsOther.blamed
    {e : RuntimeError}
    (hOther : e.IsOther)
    (visits : List Visit) :
    e.Blamed visits :=
  ⟨hOther.1, fun name hFault => absurd hFault (hOther.2 name)⟩

/- An operator gives a value that is no function. -/
theorem applyUnary_spec (op : Token) (operand : Value) :
    match applyUnary op operand with
    | .ok value => ∀ f, value ≠ .function f
    | .error e => e.IsOther := by
  unfold applyUnary
  cases op.kind with
  | minus =>
      cases operand <;>
        simp [RuntimeError.IsOther]
  | _ => simp [RuntimeError.IsOther]

theorem onNumbers_spec
    {op : Token}
    {f : Float → Float → Value}
    (hValue : ∀ a b g, f a b ≠ .function g)
    (left right : Value) :
    match onNumbers op f left right with
    | .ok value => ∀ g, value ≠ .function g
    | .error e => e.IsOther := by
  unfold onNumbers
  split
  · rename_i hRun
    split at hRun
    · cases hRun
      exact hValue _ _
    · cases hRun
  · rename_i hRun
    split at hRun
    · cases hRun
    · cases hRun
      simp [RuntimeError.IsOther]

theorem add_spec (op : Token) (left right : Value) :
    match add op left right with
    | .ok value => ∀ f, value ≠ .function f
    | .error e => e.IsOther := by
  unfold add
  split
  · rename_i hRun
    split at hRun
    · cases hRun
      simp
    · cases hRun
      simp
    · cases hRun
  · rename_i hRun
    split at hRun
    · cases hRun
    · cases hRun
    · cases hRun
      simp [RuntimeError.IsOther]

theorem applyBinary_spec (op : Token) (left right : Value) :
    match applyBinary op left right with
    | .ok value => ∀ f, value ≠ .function f
    | .error e => e.IsOther := by
  unfold applyBinary
  cases op.kind with
  | plus => exact add_spec op left right
  | minus => exact onNumbers_spec (by simp) left right
  | star => exact onNumbers_spec (by simp) left right
  | slash => exact onNumbers_spec (by simp) left right
  | greater => exact onNumbers_spec (by simp) left right
  | greaterEqual => exact onNumbers_spec (by simp) left right
  | less => exact onNumbers_spec (by simp) left right
  | lessEqual => exact onNumbers_spec (by simp) left right
  | equalEqual => simp
  | bangEqual => simp
  | _ => simp [RuntimeError.IsOther]

namespace TracedRun

variable {α : Type} {t : Traced}

/- The result of an operator, or the error it gives. -/
theorem keeps_operator
    {result : Except RuntimeError Value}
    (hSound : t.Sound)
    (hResult :
      match result with
      | .ok value => ∀ f, value ≠ .function f
      | .error e => e.IsOther) :
    (lift (Run.lift result)).Keeps t
      fun value t' => value.Fits t' := by
  cases result with
  | ok value =>
      exact
        keeps_ok rfl hSound (.refl t)
          (Value.fits_of_ne_function hResult t)
  | error e =>
      exact keeps_error rfl hSound (hResult.blamed t.visits)

theorem keeps_printLine
    (hSound : t.Sound)
    (text : String) :
    (lift (Run.printLine text)).Keeps t fun _ _ => True := by
  have hGrows :
      t.Grows
        { t with
          machine :=
            { t.machine with
              output := t.machine.output.push text } } :=
    ⟨.refl _, rfl, rfl, Nat.le_refl _, fun _ _ => rfl,
      fun _ hVisit => hVisit⟩
  refine keeps_ok rfl (hSound.grows hGrows ?_ rfl) hGrows trivial
  intro env name value hLocal
  exact .inl hLocal

theorem keeps_readClock (hSound : t.Sound) :
    (lift Run.readClock).Keeps t
      fun value t' => value.Fits t' := by
  have hGrows :
      t.Grows
        { t with
          machine :=
            { t.machine with clock := t.machine.clock.next } } :=
    ⟨.refl _, rfl, rfl, Nat.le_refl _, fun _ _ => rfl,
      fun _ hVisit => hVisit⟩
  have hNext :=
    hSound.grows hGrows (fun _ _ _ hLocal => .inl hLocal) rfl
  unfold Keeps lift Run.readClock
  cases milliseconds t.machine.clock.now with
  | ok time => exact ⟨hNext, hGrows, trivial⟩
  | error failure => exact ⟨hNext, hGrows, trivial⟩

theorem keeps_fail
    {fault : RuntimeFault}
    {P : α → Traced → Prop}
    (hSound : t.Sound)
    (token : Token)
    (hFault : RuntimeError.IsOther ⟨fault, token⟩) :
    (lift (Run.fail fault token)).Keeps t P :=
  keeps_error rfl hSound (hFault.blamed t.visits)

theorem keeps_failNative
    {P : α → Traced → Prop}
    (hSound : t.Sound)
    (failure : NativeFailure) :
    (lift (Run.failNative failure)).Keeps t P :=
  keeps_error rfl hSound trivial

theorem keeps_checkArity
    (hSound : t.Sound)
    (expected got : Nat)
    (paren : Token) :
    (lift (checkArity expected got paren)).Keeps t
      fun _ _ => got = expected := by
  unfold checkArity
  by_cases hSame : got = expected
  · rw [if_pos hSame]
    exact keeps_ok rfl hSound (.refl t) hSame
  · rw [if_neg hSame]
    apply keeps_fail hSound
    constructor
    · intro distance hFault
      cases hFault
    · intro name hFault
      cases hFault

end TracedRun

end Lox

------------------------------------------------------------
-- Names And Environments
------------------------------------------------------------

namespace Lox.Traced

variable {t : Traced}

theorem grows_visit (visit : Visit) (t : Traced) :
    t.Grows { t with visits := visit :: t.visits } :=
  ⟨.refl _, rfl, rfl, Nat.le_refl _, fun _ _ => rfl,
    fun _ hVisit => List.mem_cons_of_mem _ hVisit⟩

theorem Sound.visit
    (hSound : t.Sound)
    {visit : Visit}
    (hVisit : visit.Agrees) :
    Sound { t with visits := visit :: t.visits } := by
  constructor
  · intro env name value hLocal
    have hFits := hSound.values env name value hLocal
    exact Value.Fits.grows hFits (grows_visit visit t)
  · intro other hOther
    rcases List.mem_cons.mp hOther with rfl | hOld
    · exact hVisit
    · exact hSound.visits other hOld

/- The run once its store has been changed. -/
def withStore (t : Traced) (store : Store) : Traced :=
  { t with machine := { t.machine with store } }

theorem grows_withStore
    {store : Store}
    (hStore : t.machine.store.Grows store) :
    t.Grows (t.withStore store) :=
  ⟨hStore, rfl, rfl, Nat.le_refl _, fun _ _ => rfl,
    fun _ hVisit => hVisit⟩

theorem Sound.make
    (hSound : t.Sound)
    (parent : Option EnvId) :
    Sound (t.withStore (t.machine.store.make parent)) := by
  apply hSound.grows (grows_withStore (.make _ parent)) _ rfl
  intro env name value hLocal
  have hLocal' :
      (t.machine.store.make parent).local? env name =
        some value := hLocal
  rw [Store.local?_make] at hLocal'
  exact .inl hLocal'

theorem Sound.define
    (hSound : t.Sound)
    {value : Value}
    (hFits : value.Fits t)
    (env : EnvId)
    (name : String) :
    Sound
      (t.withStore (t.machine.store.define env name value)) := by
  have hGrows :
      t.Grows
        (t.withStore (t.machine.store.define env name value)) :=
    grows_withStore (.define _ env name value)
  apply hSound.grows hGrows _ rfl
  intro other otherName found hLocal
  rcases Store.local?_define_eq_some hLocal with hOld | rfl
  · exact .inl hOld
  · exact .inr (hFits.grows hGrows)

end Lox.Traced

namespace Lox.TracedRun

open Traced

variable {t : Traced}

/-
  A name is read: from the globals, where it may not be bound,
  or from an environment that binds it.
-/
theorem keeps_readName
    {scopes : List Scope}
    {name : Token}
    {hops : Option Nat}
    (hSound : t.Sound)
    (hIn : t.In scopes)
    (hHops : LeadsToValue scopes name hops)
    (hVisit :
      hops = none → ∃ visit ∈ t.visits, visit.IsGlobalUse name) :
    (lift (Run.readName name hops)).Keeps t
      fun value t' => value.Fits t' := by
  cases hops with
  | none =>
      unfold Keeps lift Run.readName Store.get
      simp only
      cases hFind :
        (t.machine.store.chain t.machine.globals).findSome?
          (t.machine.store.local? · name.lexeme) with
      | some value =>
          rcases List.exists_of_findSome?_eq_some hFind with
            ⟨env, _, hLocal⟩
          exact
            ⟨hSound, .refl t, hSound.values env _ value hLocal⟩
      | none =>
          refine ⟨hSound, .refl t, ?_, ?_⟩
          · intro distance hFault
            cases hFault
          · intro text _
            rcases hVisit rfl with ⟨visit, hMem, hUse⟩
            exact ⟨visit, hMem, name, hUse, rfl⟩
  | some distance =>
      rcases Store.Agrees.leadsToValue hIn hHops with
        ⟨found, value, hFound, hLocal⟩
      have hRun :
          lift (Run.readName name (some distance)) t =
            .ok value t := by
        simp only [lift, Run.readName, Store.getAt, Store.ancestor,
          hFound, Run.lift]
        simp [bind, Except.bind, hLocal]
      exact
        keeps_ok hRun hSound (.refl t)
          (hSound.values found _ value hLocal)

/- A name is changed where it is bound or was declared. -/
theorem keeps_writeName
    {scopes : List Scope}
    {name : Token}
    {hops : Option Nat}
    {value : Value}
    (hSound : t.Sound)
    (hIn : t.In scopes)
    (hHops : LeadsToScope scopes hops)
    (hFits : value.Fits t)
    (hVisit :
      hops = none → ∃ visit ∈ t.visits, visit.IsGlobalUse name) :
    (lift (Run.writeName name hops value)).Keeps t
      fun _ _ => True := by
  unfold Keeps lift Run.writeName
  cases hTarget : t.machine.target name hops with
  | ok env =>
      exact
        ⟨hSound.define hFits env name.lexeme,
          grows_withStore (.define _ env _ value), trivial⟩
  | error e =>
      cases hops with
      | none =>
          unfold Machine.target Store.owner at hTarget
          simp only at hTarget
          split at hTarget
          · cases hTarget
          · cases hTarget
            refine ⟨hSound, .refl t, ?_, ?_⟩
            · intro distance hFault
              cases hFault
            · intro text _
              rcases hVisit rfl with ⟨visit, hMem, hUse⟩
              exact ⟨visit, hMem, name, hUse, rfl⟩
      | some distance =>
          rcases Store.Agrees.leadsToScope hIn hHops with
            ⟨found, hFound⟩
          simp [Machine.target, Store.ancestor, hFound] at hTarget

/- Parameters are bound to arguments that fit. -/
theorem keeps_bindParams
    {env : EnvId}
    {params : List Token}
    {args : List Value}
    (hSound : t.Sound)
    (hEnv : env < t.machine.store.next)
    (hArgs : ∀ arg ∈ args, arg.Fits t)
    (hLength : args.length = params.length) :
    (lift (bindParams env params args)).Keeps t
      fun _ t' =>
        t'.machine.store.next = t.machine.store.next ∧
        ∀ param ∈ params,
          (t'.machine.store.local? env param.lexeme).isSome := by
  induction params generalizing args t with
  | nil =>
      have hNone : args = [] := List.length_eq_zero_iff.mp hLength
      subst hNone
      exact keeps_ok rfl hSound (.refl t) ⟨rfl, by simp⟩
  | cons param params ih =>
      cases args with
      | nil => cases hLength
      | cons arg args =>
          have hArg := hArgs arg (by simp)
          let next :=
            t.machine.store.define env param.lexeme arg
          have hGrows : t.Grows (t.withStore next) :=
            grows_withStore (.define _ env _ arg)
          have hNext : next.next = t.machine.store.next :=
            Store.next_define _ env _ arg
          have hBound :
              (next.local? env param.lexeme).isSome := by
            rw [Store.local?_define_self hEnv _ arg]
            exact Option.isSome_some
          have hRest :=
            @ih (t.withStore next) args
              (hSound.define hArg env param.lexeme)
              (hNext.symm ▸ hEnv)
              (fun other hMem =>
                (hArgs other (List.mem_cons_of_mem _ hMem)).grows
                  hGrows)
              (Nat.succ.inj hLength)
          have hAll :
              (lift (bindParams env params args)).Keeps
                (t.withStore next) fun _ t' =>
                  t'.machine.store.next = t.machine.store.next ∧
                  ∀ other ∈ param :: params,
                    (t'.machine.store.local? env
                      other.lexeme).isSome := by
            apply hRest.mono
            rintro _ t' _ hGrows' ⟨hNext', hOthers⟩
            refine ⟨hNext'.trans hNext, ?_⟩
            intro other hMem
            rcases List.mem_cons.mp hMem with rfl | hMem
            · exact hGrows'.store.bound _ _ hBound
            · exact hOthers other hMem
          exact hAll.before hGrows

/- A function that is declared has the notes of its body. -/
theorem keeps_declareFunction
    {scopes : List Scope}
    {scope : Scope}
    {name : Token}
    {params : List Token}
    {body : List Stmt}
    {notes : List Notes}
    (hSound : t.Sound)
    (hIn : t.In scopes)
    (hParams :
      ∀ param, scope.lookup param = some true →
        ∃ token ∈ params, token.lexeme = param)
    (hBody :
      Stmt.BodyNoted
        ([] :: scope :: declareScope scopes name.lexeme) body
        notes) :
    (declareFunctionTraced notes name params body).Keeps t
      fun _ t' => t'.In (declareScope scopes name.lexeme) := by
  let m := t.machine
  let f : Closure :=
    { ident := m.functions, name, params, body, env := m.current }
  let store := m.store.define m.current name.lexeme (.function f)
  let t' : Traced :=
    { machine := { m with store, functions := m.functions + 1 }
      bodies := fun ident =>
        if ident = m.functions then notes else t.bodies ident
      visits := t.visits }
  have hRun :
      declareFunctionTraced notes name params body t =
        .ok () t' := rfl
  have hGrows : t.Grows t' := by
    refine
      ⟨.define _ _ _ _, rfl, rfl, Nat.le_succ _, ?_,
        fun _ hVisit => hVisit⟩
    intro ident hIdent
    exact if_neg (Nat.ne_of_lt hIdent)
  have hNext : t'.In (declareScope scopes name.lexeme) :=
    Store.Agrees.declare hIn name.lexeme (.function f)
  have hFits : Value.Fits t' (.function f) := by
    refine
      ⟨Nat.lt_succ_self _, Store.Agrees.lt_next hNext,
        .inr ⟨scope, _, hNext, hParams, ?_⟩⟩
    have hNotes : t'.bodies f.ident = notes := if_pos rfl
    rw [hNotes]
    exact hBody
  have hSound' : t'.Sound := by
    apply hSound.grows hGrows _ rfl
    intro env other value hLocal
    rcases Store.local?_define_eq_some hLocal with hOld | rfl
    · exact .inl hOld
    · exact .inr hFits
  exact keeps_ok hRun hSound' hGrows hNext

/-
  Where the resolver was in these scopes, a visit to a node
  finds what it should.
-/
theorem visit_agrees
    {scopes : List Scope}
    {e : Expr}
    {notes : Notes}
    (hIn : t.In scopes)
    (hNoted : e.Noted scopes notes) :
    Visit.Agrees ⟨notes.scopes, e, t.machine⟩ := by
  have hDepth := Store.Agrees.depth_eq hIn
  cases hNoted with
  | @name name hops hHops =>
      refine ⟨hDepth, ?_⟩
      cases hops with
      | none => exact trivial
      | some distance =>
          rcases Store.Agrees.leadsToValue hIn hHops with
            ⟨found, value, hFound, hLocal⟩
          exact
            ⟨found, hFound, Option.isSome_iff_exists.mpr ⟨_, hLocal⟩⟩
  | @assign name hops value notes hValue hHops =>
      refine ⟨hDepth, ?_⟩
      cases hops with
      | none => exact trivial
      | some distance => exact Store.Agrees.leadsToScope hIn hHops
  | _ => exact ⟨hDepth, trivial⟩

theorem keeps_current
    (hSound : t.Sound) :
    (lift Run.current).Keeps t fun env t' =>
      env = t.machine.current ∧ t = t' :=
  keeps_ok rfl hSound (.refl t) ⟨rfl, rfl⟩

theorem keeps_define
    {value : Value}
    (hSound : t.Sound)
    (hFits : value.Fits t)
    (env : EnvId)
    (name : String) :
    (lift (Run.define env name value)).Keeps t fun _ t' =>
      t' = t.withStore (t.machine.store.define env name value) :=
  keeps_ok rfl (hSound.define hFits env name)
    (grows_withStore (.define _ _ _ _)) rfl

/- A declared name is bound in the current environment. -/
theorem keeps_defineHere
    {scopes : List Scope}
    {value : Value}
    (hSound : t.Sound)
    (hIn : t.In scopes)
    (hFits : value.Fits t)
    (name : String) :
    (do
      let env ← lift Run.current
      lift (Run.define env name value)
      return Completion.normal).Keeps t fun completion t' =>
        completion.Fits t' ∧
          (completion = Completion.normal →
            t'.In (declareScope scopes name)) := by
  apply (keeps_current hSound).bind
  rintro env u _ _ ⟨rfl, rfl⟩
  apply (keeps_define hSound hFits t.machine.current name).bind
  rintro _ u hSoundU _ rfl
  apply keeps_pure hSoundU
  exact ⟨trivial, fun _ => Store.Agrees.declare hIn name value⟩

theorem keeps_visit
    {scopes : List Scope}
    {e : Expr}
    {notes : Notes}
    (hSound : t.Sound)
    (hIn : t.In scopes)
    (hNoted : e.Noted scopes notes) :
    (visit notes e).Keeps t fun _ t' =>
      ⟨notes.scopes, e, t.machine⟩ ∈ t'.visits :=
  keeps_ok rfl (hSound.visit (visit_agrees hIn hNoted))
    (grows_visit _ t) (List.mem_cons_self ..)

end Lox.TracedRun
