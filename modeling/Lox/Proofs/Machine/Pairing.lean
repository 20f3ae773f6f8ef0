import Lox.Proofs.Machine.Likeness
import Lox.Proofs.Machine.Soundness

/-
  Steps that leave machines alike.

  Two machines that are alike go through the same steps, the
  first of them with the trace of its run: every step of the
  one is a step of the other, and leaves them alike. A local
  variable is always bound, so that no error tells its name;
  this is what the trace is for.

  Key definitions include:
    * `TracedRun.Follows`
    * `Traced.Paired`
-/

------------------------------------------------------------
-- Steps That Leave Machines Alike
------------------------------------------------------------

namespace Lox.TracedRun

variable {α α' β β' : Type}

/-
  Both steps end in the same way: with results as promised and
  machines that are alike, or with the same error after the
  same output.
-/
def Follows
    (x : TracedRun α)
    (y : Run α')
    (spell : EnvId → Spelling)
    (t : Traced)
    (m : Machine)
    (Post : Store → (EnvId → Spelling) → α → α' → Prop) :
    Prop :=
  match x t, y m with
  | .ok a t', .ok a' m' =>
      ∃ spell',
        t.machine.store.Leads spell t'.machine.store spell' ∧
        t'.machine.Alike spell' m' ∧
        Post t'.machine.store spell' a a'
  | .error e t', .error e' m' =>
      e' = e ∧ m'.output = t'.machine.output
  | _, _ => False

variable {x : TracedRun α} {y : Run α'}
variable {f : α → TracedRun β} {g : α' → Run β'}
variable {spell spell' : EnvId → Spelling}
variable {t t' : Traced} {m m' : Machine}
variable {P : Store → (EnvId → Spelling) → α → α' → Prop}
variable {Q : Store → (EnvId → Spelling) → β → β' → Prop}

theorem follows_ok
    {a : α}
    {a' : α'}
    (hLeft : x t = .ok a t')
    (hRight : y m = .ok a' m')
    (hLeads :
      t.machine.store.Leads spell t'.machine.store spell')
    (hAlike : t'.machine.Alike spell' m')
    (hPost : P t'.machine.store spell' a a') :
    x.Follows y spell t m P := by
  unfold Follows
  rw [hLeft, hRight]
  exact ⟨spell', hLeads, hAlike, hPost⟩

theorem follows_pure
    {a : α}
    {a' : α'}
    (hAlike : t.machine.Alike spell m)
    (hPost : P t.machine.store spell a a') :
    (pure a : TracedRun α).Follows (pure a' : Run α') spell t m
      P :=
  follows_ok rfl rfl (.refl _ _) hAlike hPost

/- The same error in both. -/
theorem follows_error
    {e : Interrupt}
    (hLeft : x t = .error e t)
    (hRight : y m = .error e m)
    (hAlike : t.machine.Alike spell m) :
    x.Follows y spell t m P := by
  unfold Follows
  rw [hLeft, hRight]
  exact ⟨rfl, hAlike.output⟩

/- Steps that leave machines alike may be put in front. -/
theorem Follows.before
    {x' : TracedRun α}
    {y' : Run α'}
    (hFollows : x'.Follows y' spell' t' m' P)
    (hLeft : x t = x' t')
    (hRight : y m = y' m')
    (hLeads :
      t.machine.store.Leads spell t'.machine.store spell') :
    x.Follows y spell t m P := by
  unfold Follows at hFollows ⊢
  rw [hLeft, hRight]
  cases hLeftRun : x' t' with
  | ok a u =>
      cases hRightRun : y' m' with
      | ok a' n =>
          simp only [hLeftRun, hRightRun] at hFollows
          rcases hFollows with ⟨last, hRest, hAlike, hPost⟩
          exact ⟨last, hLeads.trans hRest, hAlike, hPost⟩
      | error e' n => simp only [hLeftRun, hRightRun] at hFollows
  | error e u =>
      cases hRightRun : y' m' with
      | ok a' n => simp only [hLeftRun, hRightRun] at hFollows
      | error e' n =>
          simpa only [hLeftRun, hRightRun] using hFollows

/- One step after another. -/
theorem Follows.sequence
    (hFirst : x.Follows y spell t m P)
    (hNext :
      ∀ spell' a a' t' m',
        x t = .ok a t' →
          t.machine.store.Leads spell t'.machine.store spell' →
            t'.machine.Alike spell' m' →
              P t'.machine.store spell' a a' →
                (f a).Follows (g a') spell' t' m' Q) :
    (x >>= f).Follows (y >>= g) spell t m Q := by
  unfold Follows at hFirst
  cases hLeft : x t with
  | ok a t' =>
      cases hRight : y m with
      | ok a' m' =>
          simp only [hLeft, hRight] at hFirst
          rcases hFirst with ⟨spell', hLeads, hAlike, hPost⟩
          have hRest :=
            hNext spell' a a' t' m' hLeft hLeads hAlike hPost
          exact
            hRest.before (bind_of_ok hLeft f) (bind_of_ok hRight g)
              hLeads
      | error e' m' => simp only [hLeft, hRight] at hFirst
  | error e t' =>
      cases hRight : y m with
      | ok a' m' => simp only [hLeft, hRight] at hFirst
      | error e' m' =>
          simp only [hLeft, hRight] at hFirst
          unfold Follows
          rw [bind_of_error hLeft, bind_of_error hRight]
          exact hFirst

/-
  One step after another, where what the first step keeps of
  the run with the trace is known before the second.
-/
theorem Follows.bind
    {K : α → Traced → Prop}
    (hFirst : x.Follows y spell t m P)
    (hKeeps : x.Keeps t K)
    (hNext :
      ∀ spell' a a' t' m',
        t.machine.store.Leads spell t'.machine.store spell' →
          t.Grows t' → t'.Sound → t'.machine.Alike spell' m' →
            K a t' → P t'.machine.store spell' a a' →
              (f a).Follows (g a') spell' t' m' Q) :
    (x >>= f).Follows (y >>= g) spell t m Q := by
  apply hFirst.sequence
  intro spell' a a' t' m' hRun hLeads hAlike hPost
  unfold Keeps at hKeeps
  rw [hRun] at hKeeps
  rcases hKeeps with ⟨hSound, hGrows, hKept⟩
  exact
    hNext spell' a a' t' m' hLeads hGrows hSound hAlike hKept
      hPost

/- The results of a step, turned into others. -/
theorem Follows.map
    {result : α → β}
    {result' : α' → β'}
    (hFirst : x.Follows y spell t m P)
    (hPost :
      ∀ s spell' a a',
        t.machine.store.Leads spell s spell' → P s spell' a a' →
          Q s spell' (result a) (result' a')) :
    (x >>= fun a => pure (result a)).Follows
      (y >>= fun a' => pure (result' a')) spell t m Q := by
  apply hFirst.sequence
  intro spell' a a' t' m' _ hLeads hAlike hHere
  exact follows_pure hAlike (hPost _ _ _ _ hLeads hHere)

/- A choice that is the same in both. -/
theorem Follows.ite
    {x' : TracedRun α}
    {y' : Run α'}
    {p p' : Prop}
    [Decidable p]
    [Decidable p']
    (hSame : p ↔ p')
    (hThen : x.Follows y spell t m P)
    (hElse : x'.Follows y' spell t m P) :
    (if p then x else x').Follows (if p' then y else y') spell t
      m P := by
  by_cases hChoice : p
  · rw [if_pos hChoice, if_pos (hSame.mp hChoice)]
    exact hThen
  · rw [if_neg hChoice, if_neg fun h => hChoice (hSame.mpr h)]
    exact hElse

/- A step in another environment, which is the same in both. -/
theorem Follows.inScope
    {env : EnvId}
    (hAlike : t.machine.Alike spell m)
    (hStep :
      x.Follows y spell
        { t with machine := { t.machine with current := env } }
        { m with current := env } P) :
    (inScope env x).Follows (Run.inScope env y) spell t m P := by
  unfold Follows at hStep ⊢
  unfold TracedRun.inScope Run.inScope
  simp only
  cases hLeft : x
    { t with machine := { t.machine with current := env } } with
  | ok a t' =>
      cases hRight : y { m with current := env } with
      | ok a' m' =>
          simp only [hLeft, hRight] at hStep ⊢
          rcases hStep with ⟨last, hLeads, hAfter, hPost⟩
          refine ⟨last, hLeads, ?_, hPost⟩
          rw [hAlike.current]
          exact hAfter.withCurrent t.machine.current
      | error e' m' => simp only [hLeft, hRight] at hStep
  | error e t' =>
      cases hRight : y { m with current := env } with
      | ok a' m' => simp only [hLeft, hRight] at hStep
      | error e' m' => simpa only [hLeft, hRight] using hStep

/- Lack of nesting is the same error at the same call. -/
theorem Follows.guardStack
    (paren : Token)
    (hStep : x.Follows y spell t m P) :
    (guardStack paren x).Follows (Run.guardStack paren y) spell t
      m P := by
  unfold Follows at hStep ⊢
  unfold TracedRun.guardStack Run.guardStack
  cases hLeft : x t with
  | ok a t' =>
      cases hRight : y m with
      | ok a' m' => simpa only [hLeft, hRight] using hStep
      | error e' m' => simp only [hLeft, hRight] at hStep
  | error e t' =>
      cases hRight : y m with
      | ok a' m' => simp only [hLeft, hRight] at hStep
      | error e' m' =>
          simp only [hLeft, hRight] at hStep
          rcases hStep with ⟨rfl, hOutput⟩
          cases e' <;> exact ⟨rfl, hOutput⟩

end Lox.TracedRun

------------------------------------------------------------
-- Paired Runs
------------------------------------------------------------

namespace Lox.Traced

/-
  A sound run in some scopes, and another machine that is
  alike, as the spellings of these scopes say.
-/
structure Paired
    (spell : EnvId → Spelling)
    (spellings : List Spelling)
    (scopes : List Scope)
    (t : Traced)
    (m : Machine) :
    Prop where
  sound : t.Sound
  inScopes : t.In scopes
  alike : t.machine.Alike spell m
  along :
    t.machine.store.Along spell spellings t.machine.current

namespace Paired

variable {spell spell' : EnvId → Spelling}
variable {spellings : List Spelling} {scopes : List Scope}
variable {t t' : Traced} {m m' : Machine}

/- After a step the same scopes are there as before. -/
theorem next
    (hPaired : t.Paired spell spellings scopes m)
    (hLeads :
      t.machine.store.Leads spell t'.machine.store spell')
    (hGrows : t.Grows t')
    (hSound : t'.Sound)
    (hAlike : t'.machine.Alike spell' m') :
    t'.Paired spell' spellings scopes m' := by
  refine ⟨hSound, hPaired.inScopes.grows hGrows, hAlike, ?_⟩
  rw [hGrows.current]
  exact hPaired.along.leads hLeads

theorem withScopes
    (hPaired : t.Paired spell spellings scopes m)
    {others : List Scope}
    (hIn : t.In others) :
    t.Paired spell spellings others m :=
  ⟨hPaired.sound, hIn, hPaired.alike, hPaired.along⟩

end Paired

end Lox.Traced

namespace Lox.TracedRun

open Traced

variable {spell : EnvId → Spelling}
variable {spellings : List Spelling} {scopes : List Scope}
variable {t : Traced} {m : Machine}

/- A visit is written down for the first machine only. -/
theorem Follows.visit
    {α α' : Type}
    {x : TracedRun α}
    {y : Run α'}
    {P : Store → (EnvId → Spelling) → α → α' → Prop}
    {e : Expr}
    {notes : Notes}
    (hPaired : t.Paired spell spellings scopes m)
    (hNoted : e.Noted scopes notes)
    (hRest :
      ∀ t' : Traced, t'.Paired spell spellings scopes m →
        x.Follows y spell t' m P) :
    (do visit notes e; x).Follows y spell t m P := by
  let visit : Visit := ⟨notes.scopes, e, t.machine⟩
  let t' : Traced := { t with visits := visit :: t.visits }
  have hVisit := visit_agrees hPaired.inScopes hNoted
  have hNext : t'.Paired spell spellings scopes m :=
    hPaired.next (.refl _ _) (grows_visit visit t)
      (hPaired.sound.visit hVisit) hPaired.alike
  have hLeft : (do TracedRun.visit notes e; x) t = x t' := rfl
  exact (hRest t' hNext).before hLeft rfl (.refl _ _)

/- The result of an operator, which is the same for both. -/
theorem follows_operator
    {result : Except RuntimeError Value}
    (hAlike : t.machine.Alike spell m)
    (hResult :
      match result with
      | .ok value => ∀ f, value ≠ .function f
      | .error e => e.IsOther) :
    (lift (Run.lift result)).Follows (Run.lift result) spell t m
      Value.Alike := by
  cases result with
  | ok value =>
      exact
        follows_ok rfl rfl (.refl _ _) hAlike
          (Value.alike_of_ne_function hResult)
  | error e => exact follows_error rfl rfl hAlike

theorem follows_printLine
    (hAlike : t.machine.Alike spell m)
    (text : String) :
    (lift (Run.printLine text)).Follows (Run.printLine text) spell
      t m fun _ _ _ _ => True := by
  unfold Follows lift Run.printLine
  refine ⟨spell, .refl _ _, ?_, trivial⟩
  exact
    ⟨hAlike.store, hAlike.globals, hAlike.current, hAlike.clock,
      congrArg (·.push text) hAlike.output, hAlike.functions,
      hAlike.root, hAlike.bound, hAlike.plain⟩

theorem follows_readClock (hAlike : t.machine.Alike spell m) :
    (lift Run.readClock).Follows Run.readClock spell t m
      Value.Alike := by
  unfold Follows lift Run.readClock
  rw [hAlike.clock]
  cases milliseconds t.machine.clock.now with
  | ok time =>
      refine ⟨spell, .refl _ _, ?_, rfl⟩
      exact
        ⟨hAlike.store, hAlike.globals, hAlike.current, rfl,
          hAlike.output, hAlike.functions, hAlike.root,
          hAlike.bound, hAlike.plain⟩
  | error failure => exact ⟨rfl, hAlike.output⟩

theorem follows_checkArity
    (hAlike : t.machine.Alike spell m)
    (expected got : Nat)
    (paren : Token) :
    (lift (checkArity expected got paren)).Follows
      (checkArity expected got paren) spell t m
      fun _ _ _ _ => True := by
  unfold checkArity
  by_cases hSame : got = expected
  · rw [if_pos hSame]
    exact follows_ok rfl rfl (.refl _ _) hAlike trivial
  · rw [if_neg hSame]
    exact follows_error rfl rfl hAlike

/-
  A global is looked for under the same name, and a local
  variable, which is bound, under the name it has there.
-/
theorem follows_readGlobal
    (hAlike : t.machine.Alike spell m)
    (name : Token) :
    (lift (Run.readName name none)).Follows
      (Run.readName name none) spell t m Value.Alike := by
  have hLocal := hAlike.local?_globals name.lexeme
  rcases hAlike.chain_globals with ⟨hLeft, hRight⟩
  unfold Follows lift Run.readName Store.get
  simp only [hAlike.globals, hLeft, hRight,
    List.findSome?_cons, List.findSome?_nil]
  generalize t.machine.store.local? t.machine.globals
    name.lexeme = found at hLocal ⊢
  generalize m.store.local? t.machine.globals name.lexeme =
    found' at hLocal ⊢
  cases hLocal with
  | none => exact ⟨rfl, hAlike.output⟩
  | some hValue => exact ⟨spell, .refl _ _, hAlike, hValue⟩

theorem follows_readLocal
    (hPaired : t.Paired spell spellings scopes m)
    {name name' : Token}
    {distance : Nat}
    {spelling : Spelling}
    (hHops : LeadsToValue scopes name (some distance))
    (hSpelling : spellings[distance]? = some spelling)
    (hName : name'.lexeme = spelling name.lexeme) :
    (lift (Run.readName name (some distance))).Follows
      (Run.readName name' (some distance)) spell t m
      Value.Alike := by
  have hAlike := hPaired.alike
  rcases Store.Agrees.leadsToValue hPaired.inScopes hHops with
    ⟨env, value, hEnv, hLocal⟩
  rcases hPaired.along.ancestor hSpelling with
    ⟨env', hEnv', hSpell⟩
  have hSame : env = env' :=
    Option.some.inj (hEnv.symm.trans hEnv')
  have hFound : m.store.ancestor? m.current distance = some env := by
    rw [hAlike.current,
      Store.ancestor?_of_parents hAlike.store.parents]
    exact hEnv
  have hRel := hAlike.store.locals env name.lexeme
  rw [hLocal, hSame, hSpell, ← hName, ← hSame] at hRel
  generalize hLocal' : m.store.local? env name'.lexeme =
    found at hRel
  cases hRel with
  | some hValue =>
      apply follows_ok _ _ (.refl _ _) hAlike hValue
      · simp only [lift, Run.readName, Store.getAt, Store.ancestor,
          hEnv, Run.lift]
        simp [bind, Except.bind, hLocal]
      · simp only [Run.readName, Store.getAt, Store.ancestor,
          hFound, Run.lift]
        simp [bind, Except.bind, hLocal']

/- A name is changed in the same environment of both. -/
theorem follows_writeGlobal
    (hAlike : t.machine.Alike spell m)
    (name : Token)
    {value value' : Value}
    (hValue : value.Alike t.machine.store spell value') :
    (lift (Run.writeName name none value)).Follows
      (Run.writeName name none value') spell t m
      fun _ _ _ _ => True := by
  have hLocal := hAlike.local?_globals name.lexeme
  rcases hAlike.chain_globals with ⟨hLeft, hRight⟩
  have hStore :=
    hAlike.store.define t.machine.globals name.lexeme hValue
  rw [hAlike.plain] at hStore
  unfold Follows lift Run.writeName Machine.target Store.owner
    Store.owner?
  simp only [hAlike.globals, hLeft, hRight, List.find?_cons,
    List.find?_nil]
  generalize t.machine.store.local? t.machine.globals
    name.lexeme = found at hLocal ⊢
  generalize m.store.local? t.machine.globals name.lexeme =
    found' at hLocal ⊢
  cases hLocal with
  | none => exact ⟨rfl, hAlike.output⟩
  | some _ =>
      have hLeads :=
        Store.Leads.define t.machine.store spell
          t.machine.globals name.lexeme value
      exact
        ⟨spell, hLeads, hAlike.withStore hLeads hStore, trivial⟩

theorem follows_writeLocal
    (hPaired : t.Paired spell spellings scopes m)
    {name name' : Token}
    {distance : Nat}
    {spelling : Spelling}
    (hSpelling : spellings[distance]? = some spelling)
    (hName : name'.lexeme = spelling name.lexeme)
    {value value' : Value}
    (hValue : value.Alike t.machine.store spell value') :
    (lift (Run.writeName name (some distance) value)).Follows
      (Run.writeName name' (some distance) value') spell t m
      fun _ _ _ _ => True := by
  have hAlike := hPaired.alike
  rcases hPaired.along.ancestor hSpelling with
    ⟨env, hEnv, hSpell⟩
  have hFound : m.store.ancestor? m.current distance = some env := by
    rw [hAlike.current,
      Store.ancestor?_of_parents hAlike.store.parents]
    exact hEnv
  have hLeads :=
    Store.Leads.define t.machine.store spell env name.lexeme value
  have hStore := hAlike.store.define env name.lexeme hValue
  rw [hSpell, ← hName] at hStore
  unfold Follows lift Run.writeName Machine.target Store.ancestor
  simp only [hEnv, hFound]
  exact ⟨spell, hLeads, hAlike.withStore hLeads hStore, trivial⟩

end Lox.TracedRun

------------------------------------------------------------
-- Declarations
------------------------------------------------------------

namespace Lox.TracedRun

open Traced

variable {spell : EnvId → Spelling}
variable {spellings : List Spelling} {scopes : List Scope}
variable {t : Traced} {m : Machine}

/- A variable is declared under the name of its scope. -/
theorem follows_defineHere
    (hPaired : t.Paired spell spellings scopes m)
    {name name' : Token}
    (hName : name'.lexeme = headSpelling spellings name.lexeme)
    {value value' : Value}
    (hValue : value.Alike t.machine.store spell value') :
    (do
      let env ← lift Run.current
      lift (Run.define env name.lexeme value)
      return Completion.normal).Follows
      (do
        let env ← Run.current
        Run.define env name'.lexeme value'
        return Completion.normal)
      spell t m Completion.Alike := by
  have hAlike := hPaired.alike
  have hLeads :=
    Store.Leads.define t.machine.store spell t.machine.current
      name.lexeme value
  have hStore :
      Store.Alike spell
        (t.machine.store.define t.machine.current name.lexeme
          value)
        (m.store.define m.current name'.lexeme value') := by
    rw [hName, ← hPaired.along.spell_eq, hAlike.current]
    exact hAlike.store.define t.machine.current _ hValue
  exact
    follows_ok rfl rfl hLeads (hAlike.withStore hLeads hStore) rfl

/- The machine once one more function has been made. -/
theorem alike_functions
    {m' : Machine}
    (hAlike : m'.Alike spell m) :
    Machine.Alike spell
      { m' with functions := m'.functions + 1 }
      { m with functions := m.functions + 1 } :=
  ⟨hAlike.store, hAlike.globals, hAlike.current, hAlike.clock,
    hAlike.output, congrArg (· + 1) hAlike.functions,
    hAlike.root, hAlike.bound, hAlike.plain⟩

/- A function is declared with parameters under other names. -/
theorem follows_declareFunction
    (hPaired : t.Paired spell spellings scopes m)
    {name : Token}
    {params params' : List Token}
    {body body' : List Stmt}
    {first second : Spelling}
    (hName : headSpelling spellings name.lexeme = name.lexeme)
    (hParams :
      params'.map (·.lexeme) = params.map (second ·.lexeme))
    (hBody :
      Stmt.BodyAlike (first :: second :: spellings) body body')
    (notes : List Notes) :
    (declareFunctionTraced notes name params body).Follows
      (declareFunction name params' body') spell t m
      fun _ _ _ _ => True := by
  have hAlike := hPaired.alike
  let f : Closure :=
    { ident := t.machine.functions, name, params, body
      env := t.machine.current }
  let f' : Closure :=
    { ident := m.functions, name, params := params', body := body'
      env := m.current }
  have hValue :
      Value.Alike t.machine.store spell (.function f)
        (.function f') :=
    ⟨f', rfl, hAlike.functions, rfl, hAlike.current, first,
      second, spellings, hParams, hPaired.along, hBody⟩
  have hLeads :=
    Store.Leads.define t.machine.store spell t.machine.current
      name.lexeme (.function f)
  have hStore :
      Store.Alike spell
        (t.machine.store.define t.machine.current name.lexeme
          (.function f))
        (m.store.define m.current name.lexeme
          (.function f')) := by
    have hDefine :=
      hAlike.store.define t.machine.current name.lexeme hValue
    rw [hPaired.along.spell_eq, hName] at hDefine
    rw [hAlike.current]
    exact hDefine
  exact
    follows_ok rfl rfl hLeads
      (alike_functions (hAlike.withStore hLeads hStore)) trivial

/- Parameters are bound under their names to alike values. -/
theorem follows_bindParams
    {env : EnvId}
    {params params' : List Token}
    {args args' : List Value}
    (hAlike : t.machine.Alike spell m)
    (hParams :
      params'.map (·.lexeme) = params.map (spell env ·.lexeme))
    (hArgs :
      List.Forall₂ (Value.Alike t.machine.store spell) args
        args') :
    (lift (bindParams env params args)).Follows
      (bindParams env params' args') spell t m
      fun _ spell' _ _ => spell' = spell := by
  induction params generalizing params' args args' t m with
  | nil =>
      have hNil : params' = [] := by simpa using hParams
      subst hNil
      exact follows_ok rfl rfl (.refl _ _) hAlike rfl
  | cons param params ih =>
      cases params' with
      | nil => simp at hParams
      | cons param' params' =>
          simp only [List.map_cons, List.cons.injEq] at hParams
          cases hArgs with
          | nil => exact follows_ok rfl rfl (.refl _ _) hAlike rfl
          | @cons arg arg' args args' hArg hArgs =>
              have hLeads :=
                Store.Leads.define t.machine.store spell env
                  param.lexeme arg
              have hStore :=
                hAlike.store.define env param.lexeme hArg
              rw [← hParams.1] at hStore
              let t' :=
                t.withStore
                  (t.machine.store.define env param.lexeme arg)
              let m' :=
                { m with
                  store := m.store.define env param'.lexeme arg' }
              have hAlike' : t'.machine.Alike spell m' :=
                hAlike.withStore hLeads hStore
              have hArgs' :
                  List.Forall₂ (Value.Alike t'.machine.store spell)
                    args args' :=
                hArgs.imp fun _ _ hOther => hOther.leads hLeads
              exact
                (ih hAlike' hParams.2 hArgs').before rfl rfl hLeads

end Lox.TracedRun
