import Lox.Proofs.Machine.ForLoop
import Lox.Proofs.Session.Moments

/-
  The `for` loops of a session.

  No evaluation of a session fails for a wrong number of scopes,
  as the whole run of the source would fail with it. So the
  statement of a loop is executed just as the rule for loops
  says, wherever a session comes to it.

  Key definitions include:
    * `TracedSession.Sound.not_lost`
    * `loops_follow_rule`
-/

------------------------------------------------------------
-- Names That Are Not Lost
------------------------------------------------------------

namespace Lox

open Run

variable {s : Session} {source : String} {steps : List SessionStep}
variable {M : Moment} {e : RuntimeError}

theorem Session.lastError_finish_failed
    (s : Session)
    (e : RuntimeError)
    (m : Machine) :
    (s.finish (.error (.failed e) m)).1.lastError = some e := by
  unfold finish
  exact TracedSession.lastError_showTrace _

/- An error in a part of a run is the error of the run. -/
theorem Session.MeetsIn.lastError
    (hMeets : s.MeetsIn source M)
    (hFails : M.Has s.limits.rounds (FailsWith e)) :
    (s.run source).1.lastError = some e := by
  rcases hMeets with
    ⟨resolved, stmt, m, hRead, hResolve, hStmt, hLeads⟩
  have hLasts := lasts_failsWith e
  rcases hStmt.program_has hLasts (hLeads.has hLasts hFails) with
    ⟨left, hRun⟩
  rw [run_of_resolve hRead hResolve, hRun]
  exact lastError_finish_failed _ e left

/- In a sound session no name is looked for too far out. -/
theorem TracedSession.Sound.not_lost
    {t : TracedSession}
    (hSound : t.Sound)
    (hMeets : t.session.Meets steps M)
    (hFails : M.Has t.session.limits.rounds (FailsWith e))
    (distance : Nat) :
    e.fault ≠ .scopeDistance distance := by
  generalize hSession : t.session = s at hMeets hFails
  induction hMeets generalizing t with
  | @now s source _ M hMeets =>
      have hAfter := hSound.run source
      have hLast := hMeets.lastError hFails
      rw [← hSession, ← t.run_session source] at hLast
      exact (hAfter.lastError e hLast).1 distance
  | @later s source _ M _ ih =>
      apply ih (hSound.run source)
      · rw [t.run_session source, hSession]
      · rw [(s.run_frame source).1]
        exact hFails
  | @anew s _ M _ ih =>
      apply ih (hSound.after [.reset])
      · rw [t.after_session, hSession]
        rfl
      · exact hFails

end Lox

------------------------------------------------------------
-- Loops
------------------------------------------------------------

namespace Lox

open Run Coupling

/- In a session the statement of a loop does what the loop does. -/
theorem ForLoop.exec_tree_of_meets
    {settings : Settings}
    {clock : Clock}
    {natives : List Native}
    {steps : List SessionStep}
    {loop : ForLoop}
    {frames : Nat}
    {m : Machine}
    (hMeets :
      (Session.start settings clock natives).Meets steps
        ⟨frames + 4, .exec loop.tree, m⟩) :
    let rounds := (Session.start settings clock natives).limits.rounds
    Lox.exec rounds (frames + 4) loop.tree m =
      loop.exec rounds frames m := by
  intro rounds
  have hSound := TracedSession.sound_start settings clock natives
  have hEnds := loop.exec_tree rounds frames m m rfl
  cases hTree : Lox.exec rounds (frames + 4) loop.tree m <;>
    cases hRule : loop.exec rounds frames m <;>
    rw [hTree, hRule] at hEnds
  · rcases hEnds with ⟨rfl, rfl⟩
    rfl
  · exact hEnds.elim
  · exact hEnds.elim
  · rcases hEnds with ⟨rfl | ⟨-, distance, token, rfl⟩, rfl⟩
    · rfl
    · have hNot := hSound.not_lost hMeets ⟨_, hTree⟩ distance
      exact absurd rfl hNot

/-
  A `for` loop means what its parts say. Take any loop that is
  written in a source, and the statement that is read for it.
  If this statement is resolved, in whatever scopes it stands,
  so is the loop as it is written, its increment in the scope of
  the loop; the same scopes are left, and the outcomes belong
  together. Wherever a session comes to the resolved statement,
  it executes it as the rule for loops says: the same value is
  returned, or the same error ends it, and the machine that is
  left is the same, with all that was printed and all variables.
-/
theorem loops_follow_rule
    (settings : Settings)
    (clock : Clock)
    (natives : List Native)
    (steps : List SessionStep)
    {takesElse : Bool}
    {s tree : Stmt}
    {keyword : Token}
    {rest : List Token}
    {r u : Resolver}
    (hDerives :
      Clause.Derives (.statement takesElse s) (keyword :: rest))
    (hKeyword : keyword.kind = .forKw)
    (hResolve : s.resolve r = .ok tree u) :
    let start := Session.start settings clock natives
    let rounds := start.limits.rounds
    ∃ (written loop : ForLoop) (u' : Resolver),
      written.Derives takesElse (keyword :: rest) ∧
      s = written.source ∧
      written.resolve r = .ok loop u' ∧
      tree = loop.tree ∧
      u.scopes = u'.scopes ∧
      ∀ frames m,
        start.Meets steps ⟨frames + 4, .exec tree, m⟩ →
          exec rounds (frames + 4) tree m =
            loop.exec rounds frames m := by
  intro start rounds
  rcases hDerives.exists_forLoop hKeyword with
    ⟨written, hWritten, rfl⟩
  have hEnds := ForLoop.resolve_source hWritten.isWritten r
  rw [hResolve] at hEnds
  cases hRule : written.resolve r with
  | error e u' =>
      rw [hRule] at hEnds
      exact hEnds.elim
  | ok loop u' =>
      rw [hRule] at hEnds
      rcases hEnds with ⟨rfl, hScopes, _, _⟩
      refine
        ⟨written, loop, u', hWritten, rfl, hRule, rfl, hScopes, ?_⟩
      intro frames m hMeets
      exact ForLoop.exec_tree_of_meets hMeets

/- The tokens of `for (var i = true; i; i = nil) print i;`. -/
def onceTokens : List Token :=
  [ ⟨.forKw, "for", .nil, 1, 1⟩, ⟨.leftParen, "(", .nil, 1, 5⟩,
    ⟨.varKw, "var", .nil, 1, 6⟩, ⟨.identifier, "i", .nil, 1, 10⟩,
    ⟨.equal, "=", .nil, 1, 12⟩, ⟨.trueKw, "true", .nil, 1, 14⟩,
    ⟨.semicolon, ";", .nil, 1, 18⟩,
    ⟨.identifier, "i", .nil, 1, 20⟩,
    ⟨.semicolon, ";", .nil, 1, 21⟩,
    ⟨.identifier, "i", .nil, 1, 23⟩, ⟨.equal, "=", .nil, 1, 25⟩,
    ⟨.nilKw, "nil", .nil, 1, 27⟩, ⟨.rightParen, ")", .nil, 1, 30⟩,
    ⟨.printKw, "print", .nil, 1, 32⟩,
    ⟨.identifier, "i", .nil, 1, 38⟩,
    ⟨.semicolon, ";", .nil, 1, 39⟩ ]

/- The statement of the loop, with its names found or not. -/
def onceTree (tested changed printed : Option Nat) : Stmt :=
  .block
    [ .var ⟨.identifier, "i", .nil, 1, 10⟩
        (some (.literal (.bool true))),
      .loop (.variable ⟨.identifier, "i", .nil, 1, 20⟩ tested)
        (.block
          [ .print
              (.variable ⟨.identifier, "i", .nil, 1, 38⟩ printed),
            .expression
              (.assign ⟨.identifier, "i", .nil, 1, 23⟩
                (.literal .nil) changed) ]) ]

theorem derives_onceTree :
    (Clause.statement false (onceTree none none none)).Derives
      onceTokens := by
  have hName :
      ∀ column,
        Expr.Derives _ [⟨.identifier, "i", .nil, 1, column⟩] :=
    fun column => Phrase.derives_name rfl .assignment
  have hAtom :
      ∀ {e : Expr} {t : Token}, e.AtomDerives t → e.Derives [t] :=
    fun hAtom => (Phrase.Derives.atom hAtom).loosen (by decide)
  have hInitializer :=
    Stmt.InitializerDerives.var
      (@rfl _ (Token.kind ⟨.varKw, "var", .nil, 1, 6⟩))
      (@Stmt.VariableDerives.initialized
        ⟨.identifier, "i", .nil, 1, 10⟩ ⟨.equal, "=", .nil, 1, 12⟩
        ⟨.semicolon, ";", .nil, 1, 18⟩ _ _ rfl rfl
        (hAtom (@Expr.AtomDerives.yes
          ⟨.trueKw, "true", .nil, 1, 14⟩ rfl)) rfl)
  have hIncrement :=
    @Phrase.Derives.assign ⟨.identifier, "i", .nil, 1, 23⟩
      ⟨.equal, "=", .nil, 1, 25⟩ _ _ rfl rfl
      (hAtom (@Expr.AtomDerives.nil
        ⟨.nilKw, "nil", .nil, 1, 27⟩ rfl))
  have hBody :=
    @Clause.Derives.print ⟨.printKw, "print", .nil, 1, 32⟩
      ⟨.semicolon, ";", .nil, 1, 39⟩ _ _ rfl (hName 38) rfl
  exact
    @Clause.Derives.forLoop ⟨.forKw, "for", .nil, 1, 1⟩
      ⟨.leftParen, "(", .nil, 1, 5⟩ ⟨.semicolon, ";", .nil, 1, 21⟩
      ⟨.rightParen, ")", .nil, 1, 30⟩ _ _ _ _ _ _ _ _ _ rfl rfl
      hInitializer (.some (hName 20)) rfl (.some hIncrement) rfl
      hBody

/- The loop is passed through once, and prints one line. -/
theorem loop_followed_once :
    let start := Session.start {} ⟨[]⟩ []
    let tree := onceTree (some 0) (some 1) (some 1)
    let left := exec start.limits.rounds 20000 tree start.machine
    (Run.left left).output = #["true"] ∧
    ∃ loop : ForLoop,
      loop.tree = tree ∧
      left = loop.exec start.limits.rounds 19996 start.machine := by
  intro start tree left
  have hOutput : (Run.left left).output = #["true"] := by
    decide +kernel
  refine ⟨hOutput, ?_⟩
  let source := "for (var i = true; i; i = nil) print i;"
  have hRead : start.readReports source = [] := by
    decide +kernel
  have hTokens :
      (tokenize "for (var i = true; i; i = nil) print i;").tokens =
        onceTokens ++ [⟨.eof, "", .nil, 1, 40⟩] := by
    cbv
  have hResolved :
      resolveProgram (start.programOf source) =
        .ok ⟨[tree], 3⟩ := by
    unfold Session.programOf
    rw [hTokens]
    rfl
  have hMeets :
      start.Meets [.run source]
        ⟨20000, .exec tree, start.machine⟩ :=
    .now ⟨_, tree, _, hRead, hResolved, .here, .refl⟩
  rcases
    loops_follow_rule {} ⟨[]⟩ [] [.run source]
      derives_onceTree rfl
      (@rfl _ (Stmt.resolve (onceTree none none none) {})) with
    ⟨_, loop, _, _, _, _, hTree, _, hRule⟩
  exact ⟨loop, hTree.symm, hRule 19996 _ hMeets⟩

end Lox
