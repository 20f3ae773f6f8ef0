import Lox.Proofs.Machine.Tree
import Lox.Proofs.Session.Moments

/-
  The environments of a session form a tree.

  Key definitions include:
    * `Machine.Rooted`
    * `environments_form_tree`
-/

------------------------------------------------------------
-- Trees In A Session
------------------------------------------------------------

namespace Lox

/-
  An environment from which the links come to an end; they do
  so at the globals, if these are to be alone.
-/
def Machine.Rooted
    (m : Machine)
    (alone : Prop)
    (env : EnvId) :
    Prop :=
  env < m.store.next ∧
    ∃ top, m.store.Line env top ∧ (alone → top = m.globals)

namespace Custody

variable {alone : Prop} {m : Machine} {env : EnvId}

theorem rooted_of_covers
    (hCovers : (Custody.ofTree 0 alone).Covers m)
    (hEnv : env < m.store.next) :
    m.Rooted alone env := by
  rcases hCovers.store.line hEnv with ⟨top, hLine, hTop⟩
  refine ⟨hEnv, top, hLine, fun hAlone => ?_⟩
  rw [hTop hAlone, hCovers.globals]
  rfl

/- Each new machine has its globals as the only environment. -/
theorem hosts_start
    (settings : Settings)
    (clock : Clock)
    (natives : List Native) :
    (Custody.ofTree 0 (∀ native ∈ natives, native.MakesNone)).Hosts
      (.start settings clock natives) := by
  have hNew :
      ∀ clock,
        (Custody.ofTree 0
          (∀ native ∈ natives, native.MakesNone)).CoversAt
          (.start (clockNative :: natives) clock) := by
    intro clock
    have hTree :
        (Machine.start (clockNative :: natives) clock).store.Tree 0
          (∀ native ∈ natives, native.MakesNone) := by
      apply Store.tree_start
      intro hNatives
      refine List.forall_mem_cons.mpr ⟨?_, hNatives⟩
      intro name params hBehavior
      cases hBehavior
    exact ⟨⟨rfl, hTree⟩, hTree.globals_lt⟩
  exact ⟨hNew clock, hNew⟩

end Custody

/-
  Environments form a tree. Take any session, any steps that it
  goes through, and any machine that it is then seen with, be it
  between two sources or in the middle of one, however that one
  ends. From the current environment, and from that of every
  function that is bound anywhere, the links come to an end
  without leading to an environment twice, and they end at the
  globals, which lie within none; only a native function that
  itself makes environments can add other ends. So to look up a
  name, to count environments and to go up a number of them is
  to follow finitely many links. As long as the session does not
  start over, its globals are the same and the link of an
  environment, once made, is always seen the same.
-/
theorem environments_form_tree
    (settings : Settings)
    (clock : Clock)
    (natives : List Native)
    (steps : List SessionStep) :
    let start := Session.start settings clock natives
    let alone := ∀ native ∈ natives, native.MakesNone
    (∀ m, start.Sees steps m →
      m.store.parent? m.globals = none ∧
      m.Rooted alone m.current ∧
      ∀ env name f,
        m.store.local? env name = some (.function f) →
          m.Rooted alone f.env) ∧
    ∀ (sources : List String) m m',
      (start.after steps).Sees (sources.map .run) m →
      (start.after steps).Sees (sources.map .run) m' →
        m'.globals = m.globals ∧
        ∀ env, env < m.store.next → env < m'.store.next →
          m'.store.parent? env = m.store.parent? env := by
  intro start alone
  have hHosts := Custody.hosts_start settings clock natives
  constructor
  · intro m hSees
    have hAt := hHosts.sees hSees
    refine ⟨?_, ?_, ?_⟩
    · rw [hAt.globals]
      exact hAt.store.globals_top
    · exact Custody.rooted_of_covers hAt.toCovers hAt.current
    · intro env name f hLocal
      have hEnv := hAt.store.bound env name f hLocal
      exact Custody.rooted_of_covers hAt.toCovers hEnv
  · intro sources m m' hSees hSees'
    have hAfter := hHosts.after steps
    refine ⟨?_, ?_⟩
    · rw [(hAfter.sees hSees').globals,
        (hAfter.sees hSees).globals]
    · intro env hEnv hEnv'
      exact hSees.parent?_eq hSees' hEnv hEnv'

/- The tokens of the source `fun f() {} f();`. -/
def callingTokens : List Token :=
  [ ⟨.funKw, "fun", .nil, 1, 1⟩,
    ⟨.identifier, "f", .nil, 1, 5⟩,
    ⟨.leftParen, "(", .nil, 1, 6⟩,
    ⟨.rightParen, ")", .nil, 1, 7⟩,
    ⟨.leftBrace, "\x7b", .nil, 1, 9⟩,
    ⟨.rightBrace, "\x7d", .nil, 1, 10⟩,
    ⟨.identifier, "f", .nil, 1, 12⟩,
    ⟨.leftParen, "(", .nil, 1, 13⟩,
    ⟨.rightParen, ")", .nil, 1, 14⟩,
    ⟨.semicolon, ";", .nil, 1, 15⟩, ⟨.eof, "", .nil, 1, 16⟩ ]

/- The function that the source declares. -/
def declaredFunction : Closure :=
  { ident := 1, name := ⟨.identifier, "f", .nil, 1, 5⟩,
    params := [], body := [], env := 0 }

/- The call of the source. -/
def callOfDeclared : Stmt :=
  .expression
    (.call (.variable ⟨.identifier, "f", .nil, 1, 12⟩ none)
      ⟨.rightParen, ")", .nil, 1, 14⟩ [])

/- A new session in which the source has declared the function. -/
def machineOfDeclared : Machine :=
  let start := Session.start {} ⟨[]⟩ []
  Run.left
    (exec start.limits.rounds start.limits.frames
      (.function declaredFunction.name [] []) start.machine)

/- The source is read and resolved. -/
theorem resolve_declared :
    let start := Session.start {} ⟨[]⟩ []
    start.readReports "fun f() \x7b\x7d f();" = [] ∧
    resolveProgram (start.programOf "fun f() \x7b\x7d f();") =
      .ok
        ⟨[.function declaredFunction.name [] [], callOfDeclared],
          0⟩ := by
  have hTokens :
      (tokenize "fun f() \x7b\x7d f();").tokens =
        callingTokens := by
    cbv
  refine ⟨by decide +kernel, ?_⟩
  unfold Session.programOf
  rw [hTokens]
  rfl

/- It comes to the call. -/
theorem meets_call_of_declared :
    (Session.start {} ⟨[]⟩ []).MeetsIn "fun f() \x7b\x7d f();"
      ⟨19998, .call (.function declaredFunction) []
        ⟨.rightParen, ")", .nil, 1, 14⟩, machineOfDeclared⟩ :=
  ⟨_, _, _, resolve_declared.1, resolve_declared.2,
    .later rfl trivial .here,
    .head .expression (.head (.called rfl rfl) .refl)⟩

/- In the call the body is two links away from the globals. -/
theorem rooted_in_call :
    let start := Session.start {} ⟨[]⟩ []
    let steps := [.run "fun f() \x7b\x7d f();"]
    let m := machineOfDeclared.activation declaredFunction []
    start.Sees steps m ∧
    m.store.chain m.current = [2, 1, 0] ∧
    m.Rooted (∀ native ∈ ([] : List Native), native.MakesNone)
      m.current := by
  intro start steps m
  have hSees : start.Sees steps m :=
    .during (.now meets_call_of_declared) (.calling 19997 _ rfl)
  refine ⟨hSees, rfl, ?_⟩
  exact
    ((environments_form_tree {} ⟨[]⟩ [] steps).1 m hSees).2.1

end Lox
