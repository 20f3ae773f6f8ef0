import Lox.Proofs.Machine.Reach
import Lox.Proofs.Session.Tree

/-
  The activations of a session are kept apart.

  A call leaves everything alone that it cannot reach. When a
  function of the program is called, two environments are made:
  that of the parameters and that of the body. No two calls
  make the same, and two calls of the same function never see
  each other's.

  Key definitions include:
    * `Machine.Allots`
    * `calls_kept_apart`
-/

------------------------------------------------------------
-- The Environments Of An Activation
------------------------------------------------------------

namespace Lox

theorem Store.next_bindAll
    (env : EnvId)
    (params : List Token)
    (args : List Value)
    (s : Store) :
    (s.bindAll env params args).next = s.next := by
  induction params generalizing args s with
  | nil => rfl
  | cons param params ih =>
      cases args with
      | nil => rfl
      | cons arg args => exact (ih args _).trans (s.next_define ..)

/-
  The environments that a call of a function makes which begins
  in a machine: that of the parameters and that of the body.
-/
def Machine.Allots (m : Machine) (env : EnvId) : Prop :=
  env = m.store.next ∨ env = m.store.next + 1

namespace Machine

variable (m : Machine) (f : Closure) (args : List Value)

theorem next_bound :
    (m.bound f args).store.next = m.store.next + 1 := by
  unfold bound
  rw [Store.next_bindAll, Store.next_make]

theorem next_activation :
    (m.activation f args).store.next = m.store.next + 2 := by
  unfold activation entered
  rw [Store.next_make, next_bound]

/- The body is within the parameters. -/
theorem parent?_activation_body :
    (m.activation f args).store.parent? (m.store.next + 1) =
      some m.store.next := by
  rw [← m.next_bound f args]
  exact Store.parent?_make_self _ _

/- The parameters are within the function. -/
theorem parent?_activation_params :
    (m.activation f args).store.parent? m.store.next =
      some f.env := by
  have hMade := Store.next_make m.store (some f.env)
  have hLt : m.store.next < (m.bound f args).store.next := by
    rw [next_bound]
    exact Nat.lt_succ_self _
  unfold activation entered
  simp only
  rw [Store.parent?_make_of_lt hLt]
  have hGrows :=
    Store.grows_bindAll m.store.next f.params args
      (m.store.make (some f.env))
  unfold bound
  simp only
  rw [hGrows.parent_eq m.store.next (hMade ▸ Nat.lt_succ_self _)]
  exact Store.parent?_make_self _ _

variable {m f args} {m' : Machine} {own other : EnvId}

/- A call that begins later makes other environments. -/
theorem Allots.lt
    (hOwn : m.Allots own)
    (hOther : m'.Allots other)
    (hLater : (m.activation f args).store.Grows m'.store) :
    own < other := by
  have hNext := hLater.next_le
  rw [next_activation] at hNext
  have hOwnLt : own < m.store.next + 2 := by
    rcases hOwn with rfl | rfl
    · exact Nat.lt_add_of_pos_right Nat.two_pos
    · exact Nat.lt_succ_self _
  have hOtherLe : m'.store.next ≤ other := by
    rcases hOther with rfl | rfl
    · exact Nat.le_refl _
    · exact Nat.le_succ _
  exact Nat.lt_of_lt_of_le hOwnLt (Nat.le_trans hNext hOtherLe)

/-
  What is around an environment that a call has made: the
  other one that it made, and what is around the function.
-/
theorem Allots.of_mem_chain
    {s last : Store}
    {env : EnvId}
    (hOther : m.Allots other)
    (hDescends : s.Descends)
    (hActivation : (m.activation f args).store.Grows last)
    (hStore : s.Grows last)
    (hMem : env ∈ s.chain other) :
    m.Allots env ∨ env ∈ s.chain f.env := by
  -- A link that is there is the one that was made.
  have hLink :
      ∀ found outer,
        (m.activation f args).store.parent? found = some outer →
          env ∈ s.chain found →
            env = found ∨ env ∈ s.chain outer := by
    intro found outer hMade hMem
    have hParent := hActivation.parent?_eq_some hMade
    by_cases hThere : found < s.next
    · rw [hStore.parent_eq found hThere] at hParent
      rw [hDescends.chain_of_some hParent] at hMem
      exact List.mem_cons.mp hMem
    · have hNone := Store.parent?_of_not_lt hThere
      rw [Store.chain_of_none hNone] at hMem
      exact .inl (List.mem_singleton.mp hMem)
  have hParams :
      env ∈ s.chain m.store.next →
        m.Allots env ∨ env ∈ s.chain f.env := by
    intro hMem
    rcases
      hLink _ _ (m.parent?_activation_params f args) hMem with
      hSame | hOuter
    · exact .inl (.inl hSame)
    · exact .inr hOuter
  rcases hOther with rfl | rfl
  · exact hParams hMem
  · rcases
      hLink _ _ (m.parent?_activation_body f args) hMem with
      hSame | hOuter
    · exact .inl (.inr hSame)
    · exact hParams hOuter

end Machine

end Lox

------------------------------------------------------------
-- Calls In A Session
------------------------------------------------------------

namespace Lox

variable {s : Session} {sources : List String}
variable {M M' : Moment} {f f' : Closure} {args args' : List Value}
variable {alone : Prop} {n : Machine} {env own other : EnvId}

/- What a call has made is there in the end. -/
theorem Session.Meets.grows_activation
    (hMeets : s.Meets (sources.map .run) M)
    (hActivates : M.Activates f args) :
    (M.machine.activation f args).store.Grows
      (s.after (sources.map .run)).machine.store := by
  rcases M with ⟨_, _, m⟩
  rcases hActivates with ⟨⟨frames, paren, rfl, rfl⟩, hArity⟩
  have hSees :
      s.Sees (sources.map .run) (m.activation f args) :=
    .during hMeets (.calling frames paren hArity)
  exact hSees.grows

/- Of two calls one finds what the other has made. -/
theorem Session.Meets.later_of_ne
    (hMeets : s.Meets (sources.map .run) M)
    (hMeets' : s.Meets (sources.map .run) M')
    (hActivates : M.Activates f args)
    (hActivates' : M'.Activates f' args')
    (hNe : M ≠ M') :
    (M.machine.activation f args).store.Grows M'.machine.store ∨
    (M'.machine.activation f' args').store.Grows
      M.machine.store := by
  rcases
    (hMeets.linear hMeets').activations hActivates hActivates' with
    hSame | hLater
  · exact absurd hSame hNe
  · exact hLater

/-
  Of two calls of one function, no environment is around what
  the later one has made that the earlier one has made.
-/
theorem Session.Meets.not_mem_chain
    (hMeets : s.Meets (sources.map .run) M)
    (hMeets' : s.Meets (sources.map .run) M')
    (hHosts : (Custody.ofTree 0 alone).Hosts s)
    (hActivates : M.Activates f args)
    (hActivates' : M'.Activates f args')
    (hLater :
      (M.machine.activation f args).store.Grows M'.machine.store)
    (hSees : s.Sees (sources.map .run) n)
    (hOwn : M.machine.Allots own)
    (hOther : M'.machine.Allots other) :
    own ∉ n.store.chain other := by
  have hTree := (hHosts.sees hSees).store
  -- The function is older than both calls.
  have hFunction : f.env < M.machine.store.next := by
    have hTask := (hHosts.permits hMeets).task
    rcases hActivates.task with ⟨frames, paren, _, hSame⟩
    rw [hSame] at hTask
    exact hTask.1
  intro hMem
  rcases
    hOther.of_mem_chain hTree.descends
      (hMeets'.grows_activation hActivates') hSees.grows hMem with
    hOther | hMem
  · exact absurd (hOwn.lt hOther hLater) (Nat.lt_irrefl _)
  · have hLe :=
      (hTree.descends.walks f.env).le_of_mem hTree.descends hMem
    have hLt := Nat.lt_of_le_of_lt hLe hFunction
    rcases hOwn with rfl | rfl
    · exact Nat.lt_irrefl _ hLt
    · exact Nat.not_succ_lt_self hLt

/- So no environment is within both. -/
theorem Session.Meets.chains_apart
    (hMeets : s.Meets (sources.map .run) M)
    (hMeets' : s.Meets (sources.map .run) M')
    (hHosts : (Custody.ofTree 0 alone).Hosts s)
    (hActivates : M.Activates f args)
    (hActivates' : M'.Activates f args')
    (hNe : M ≠ M')
    (hSees : s.Sees (sources.map .run) n)
    (hOwn : M.machine.Allots own)
    (hOther : M'.machine.Allots other)
    (hInOwn : own ∈ n.store.chain env) :
    other ∉ n.store.chain env := by
  have hDescends := (hHosts.sees hSees).store.descends
  have hWalks := hDescends.walks env
  intro hInOther
  rcases
    hMeets.later_of_ne hMeets' hActivates hActivates' hNe with
    hLater | hLater
  · have hLt := hOwn.lt hOther hLater
    exact
      hMeets.not_mem_chain hMeets' hHosts hActivates hActivates'
        hLater hSees hOwn hOther
        (hWalks.mem_chain_of_lt hDescends hInOwn hInOther hLt)
  · have hLt := hOther.lt hOwn hLater
    exact
      hMeets'.not_mem_chain hMeets hHosts hActivates' hActivates
        hLater hSees hOther hOwn
        (hWalks.mem_chain_of_lt hDescends hInOther hInOwn hLt)

/- A name is changed in the globals, or around the machine. -/
theorem Machine.mem_of_target
    {globals : EnvId}
    {m : Machine}
    {name : Token}
    {hops : Option Nat}
    (hTree : m.store.Tree globals alone)
    (hGlobals : m.globals = globals)
    (hTarget : m.target name hops = .ok env) :
    env = globals ∨ env ∈ m.store.chain m.current := by
  cases hops with
  | none =>
      left
      unfold target Store.owner at hTarget
      simp only at hTarget
      split at hTarget
      · rename_i found hFound
        cases hTarget
        have hMem := List.mem_of_find?_eq_some hFound
        rw [hGlobals,
          Store.chain_of_none hTree.globals_top] at hMem
        exact List.mem_singleton.mp hMem
      · cases hTarget
  | some hops =>
      right
      unfold target Store.ancestor at hTarget
      simp only at hTarget
      split at hTarget
      · rename_i found hFound
        cases hTarget
        rw [(hTree.descends.walks m.current).ancestor] at hFound
        exact List.mem_of_getElem? hFound
      · cases hTarget

/-
  A call cannot touch locals that it has not captured. In any
  machine and however a call ends there, each environment that
  was there before, and to which no links and no functions lead
  from the globals, the function that is called or the
  arguments, is the same afterwards. Two calls of functions in a
  session, be it that one is made in the other or after it,
  share no environment of parameters or of a body. If it is the
  same function, nothing is ever within environments of both:
  what is evaluated within one of them changes no name in those
  of the other.
-/
theorem calls_kept_apart :
    (∀ rounds frames callee args paren (m : Machine) env,
      env < m.store.next →
      ¬ m.store.Reaches (m.CallRoots callee args) env →
        let left := Run.left (call rounds frames callee args paren m)
        left.store.frames[env]? = m.store.frames[env]?) ∧
    ∀ settings clock natives steps (sources : List String),
      let s := (Session.start settings clock natives).after steps
      ∀ (M M' : Moment) f f' args args',
        s.Meets (sources.map .run) M →
        s.Meets (sources.map .run) M' →
        M.Activates f args →
        M'.Activates f' args' →
        M ≠ M' →
          (∀ env,
            M.machine.Allots env → ¬ M'.machine.Allots env) ∧
          (f' = f → ∀ n env own other,
            s.Sees (sources.map .run) n →
            M.machine.Allots own →
            M'.machine.Allots other →
            own ∈ n.store.chain env →
              other ∉ n.store.chain env ∧
              (env = n.current → ∀ name hops,
                n.target name hops ≠ .ok other)) := by
  constructor
  · intro rounds frames callee args paren m env hEnv hNot
    exact call_leaves_unreached hEnv hNot rounds frames paren
  · intro settings clock natives steps sources s M M' f f' args
      args' hMeets hMeets' hActivates hActivates' hNe
    have hHosts :=
      (Custody.hosts_start settings clock natives).after steps
    constructor
    · intro env hAllots hAllots'
      rcases
        hMeets.later_of_ne hMeets' hActivates hActivates' hNe with
        hLater | hLater
      · exact
          Nat.lt_irrefl env (hAllots.lt hAllots' hLater)
      · exact
          Nat.lt_irrefl env (hAllots'.lt hAllots hLater)
    · rintro rfl n env own other hSees hOwn hOther hIn
      have hApart :=
        hMeets.chains_apart hMeets' hHosts hActivates hActivates'
          hNe hSees hOwn hOther hIn
      refine ⟨hApart, ?_⟩
      rintro rfl name hops hTarget
      have hAt := hHosts.sees hSees
      rcases
        Machine.mem_of_target hAt.store hAt.globals hTarget with
        hGlobals | hMem
      · -- The globals were there before any call.
        have hBefore := (hHosts.permits hMeets').machine.store
        have hLt : 0 < M'.machine.store.next := hBefore.globals_lt
        rcases hOther with hSame | hSame
        · exact absurd (hGlobals.symm.trans hSame) (Nat.ne_of_lt hLt)
        · exact
            absurd (hGlobals.symm.trans hSame)
              (Nat.ne_of_lt (Nat.succ_pos _))
      · exact hApart hMem

/- A new machine in a block at its top level. -/
def machineInBlock : Machine :=
  (Machine.start [clockNative] ⟨[]⟩).entered 0

/- A native function without arguments reaches the globals. -/
theorem Store.Reaches.eq_globals
    {native : NativeFunction}
    {env : EnvId}
    (hReaches :
      machineInBlock.store.Reaches
        (machineInBlock.CallRoots (.native native) []) env) :
    env = 0 := by
  induction hReaches with
  | root hRoot =>
      rcases hRoot with rfl | hCallee | ⟨arg, hArg, _⟩
      · rfl
      · cases hCallee
      · cases hArg
  | outer _ hParent ih =>
      subst ih
      cases hParent
  | @bound _ _ name value _ hLocal hFound ih =>
      subst ih
      have hBound :
          (Machine.bindNatives 0 0 [clockNative]
            (Store.make {} none)).local? 0 name = some value :=
        hLocal
      rcases Machine.local?_bindNatives hBound with
        hOld | ⟨f, rfl⟩
      · cases hOld
      · cases hFound

/- The tokens of the source `f();`. -/
def callingAgainTokens : List Token :=
  [ ⟨.identifier, "f", .nil, 1, 1⟩,
    ⟨.leftParen, "(", .nil, 1, 2⟩,
    ⟨.rightParen, ")", .nil, 1, 3⟩,
    ⟨.semicolon, ";", .nil, 1, 4⟩, ⟨.eof, "", .nil, 1, 5⟩ ]

/- The same call in a source of its own. -/
def callAgain : Stmt :=
  .expression
    (.call (.variable ⟨.identifier, "f", .nil, 1, 1⟩ none)
      ⟨.rightParen, ")", .nil, 1, 3⟩ [])

/- The machine of the session after the first call. -/
def machineAfterCall : Machine :=
  let start := Session.start {} ⟨[]⟩ []
  Run.left
    (exec start.limits.rounds start.limits.frames callOfDeclared
      machineOfDeclared)

/- The second source comes to the second call. -/
theorem meets_call_again :
    (Session.start {} ⟨[]⟩ []).Meets
      [.run "fun f() \x7b\x7d f();", .run "f();"]
      ⟨19998, .call (.function declaredFunction) []
        ⟨.rightParen, ")", .nil, 1, 3⟩, machineAfterCall⟩ := by
  let start := Session.start {} ⟨[]⟩ []
  let first := (start.run "fun f() \x7b\x7d f();").1
  have hLimits : first.limits = start.limits :=
    (start.run_frame _).1
  have hMachine : first.machine = machineAfterCall := by
    show (start.run _).1.machine = _
    rw [Session.run_of_resolve resolve_declared.1
      resolve_declared.2]
    rfl
  have hTokens : (tokenize "f();").tokens = callingAgainTokens := by
    cbv
  have hRead : first.readReports "f();" = [] := by
    unfold Session.readReports
    rw [hLimits]
    decide +kernel
  have hResolve :
      resolveProgram (first.programOf "f();") =
        .ok ⟨[callAgain], 0⟩ := by
    unfold Session.programOf
    rw [hLimits, hTokens]
    rfl
  have hHere :
      ComesToTop (exec first.limits.rounds first.limits.frames)
        [callAgain] first.machine callAgain machineAfterCall := by
    rw [hMachine]
    exact .here
  refine .later (.now ⟨_, _, _, hRead, hResolve, hHere, ?_⟩)
  show Moment.LeadsOn first.limits.rounds
    ⟨first.limits.frames, _, _⟩ _
  rw [hLimits]
  exact .head .expression (.head (.called rfl rfl) .refl)

/-
  The block is kept by a call of the clock; and of two calls of
  a function, one source after the other, the later one changes
  nothing in the body of the earlier one.
-/
theorem calls_kept_apart_in_turn :
    (let m := machineInBlock
    let clock := .native ⟨clockNative, 0⟩
    let left := Run.left (call 0 2 clock [] nativeCallToken m)
    left.store.frames[1]? = m.store.frames[1]?) ∧
    let n := machineAfterCall.activation declaredFunction []
    machineOfDeclared.Allots 2 ∧
    machineAfterCall.Allots 4 ∧
    n.store.chain n.current = [4, 3, 0] ∧
    ∀ name hops, n.target name hops ≠ .ok 2 := by
  constructor
  · intro m clock left
    refine calls_kept_apart.1 0 2 clock [] nativeCallToken m 1 ?_ ?_
    · decide
    · intro hReaches
      cases hReaches.eq_globals
  · intro n
    let sources := ["fun f() \x7b\x7d f();", "f();"]
    have hActivates :
        ∀ paren m,
          Moment.Activates
            ⟨19998, .call (.function declaredFunction) [] paren, m⟩
            declaredFunction [] :=
      fun paren m => ⟨⟨19997, paren, rfl, rfl⟩, rfl⟩
    have hNe :
        machineAfterCall.store.next ≠
          machineOfDeclared.store.next := by
      decide
    have hSees :
        (Session.start {} ⟨[]⟩ []).Sees (sources.map .run) n :=
      .during meets_call_again (.calling 19997 _ rfl)
    have hOwn : machineAfterCall.Allots 4 := .inr rfl
    have hOther : machineOfDeclared.Allots 2 := .inr rfl
    have hChain : n.store.chain n.current = [4, 3, 0] := rfl
    refine ⟨hOther, hOwn, hChain, ?_⟩
    have hApart :=
      calls_kept_apart.2 {} ⟨[]⟩ [] [] sources _ _ _ _ _ _
        meets_call_again (.now meets_call_of_declared)
        (hActivates _ _) (hActivates _ _)
        (fun hSame => hNe (congrArg (·.machine.store.next) hSame))
    exact
      (hApart.2 rfl n n.current 4 2 hSees hOwn hOther
        (hChain ▸ List.mem_cons_self)).2 rfl

end Lox
