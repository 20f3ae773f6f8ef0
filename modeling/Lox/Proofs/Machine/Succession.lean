import Lox.Proofs.Machine.Moments

/-
  The order of the moments of a run.

  Of two moments that a run comes to, either one is part of
  the other, or one has ended when the other begins. So of two
  calls of functions one finds the environments of the other
  already made, and makes others.

  Key definitions include:
    * `Moment.Before`
    * `Moment.InOrder`
    * `Moment.Leads.linear`
    * `Moment.LeadsOn.linear`
    * `Moment.Activates`
    * `Moment.LeadsOn.activates`
-/

------------------------------------------------------------
-- Lists And Loops
------------------------------------------------------------

namespace Lox

open Run

section Lists

variable {ι α : Type} {step : ι → Run α} {goesOn : α → Prop}
variable {items : List ι} {item other : ι} {m here there : Machine}

theorem ComesTo.grows
    (hItem : ComesTo step goesOn items m item here)
    (hStep : ∀ item, (step item).Restores) :
    m.store.Grows here.store := by
  induction hItem with
  | here => exact .refl _
  | @later first _ _ m next _ _ hFirst _ _ ih =>
      have hStays := hStep first m
      rw [hFirst] at hStays
      exact hStays.store.trans ih

/- Of two items one comes first. -/
theorem ComesTo.linear
    (hItem : ComesTo step goesOn items m item here)
    (hOther : ComesTo step goesOn items m other there)
    (hStep : ∀ item, (step item).Restores) :
    (item = other ∧ here = there) ∨
    (left (step item here)).store.Grows there.store ∨
    (left (step other there)).store.Grows here.store := by
  induction hItem with
  | here =>
      cases hOther with
      | here => exact .inl ⟨rfl, rfl⟩
      | later hFirst _ hLater =>
          right
          left
          rw [hFirst]
          exact hLater.grows hStep
  | later hFirst _ hLater ih =>
      cases hOther with
      | here =>
          right
          right
          rw [hFirst]
          exact hLater.grows hStep
      | later hFirst' _ hLater' =>
          rw [hFirst] at hFirst'
          cases hFirst'
          exact ih hLater'

end Lists

/- What a statement of a program has, its run has. -/
theorem ComesTo.program_has
    {P : Ending}
    {limits : Limits}
    {program : List Stmt}
    {stmt : Stmt}
    (hStmt :
      ComesToTop (exec limits.rounds limits.frames) program m stmt
        there)
    (hLasts : P.Lasts)
    (hHas : (exec limits.rounds limits.frames stmt).Has P there) :
    (runProgram limits program).Has P m := by
  induction hStmt with
  | here =>
      apply hLasts.first hHas
      intro _
      exact compositional_restores.runProgram limits _
  | later hFirst _ _ ih =>
      apply Has.second _ hFirst
      exact ih hHas

section Rounds

variable {condition : Run Value} {body : Run Completion}
variable {rounds : Nat} {m here there : Machine}

/- A round has ended, after which another one is come to. -/
def RoundEnds
    (condition : Run Value)
    (body : Run Completion)
    (here there : Machine) :
    Prop :=
  ∃ value tested again,
    condition here = .ok value tested ∧
    body tested = .ok .normal again ∧
    again.store.Grows there.store

theorem ComesToRound.grows
    (hRound : ComesToRound condition body rounds m here)
    (hCondition : condition.Restores)
    (hBody : body.Restores) :
    m.store.Grows here.store := by
  induction hRound with
  | first => exact .refl _
  | @next _ _ m tested again _ hTest _ hRun _ ih =>
      have hStays := hCondition m
      have hStays' := hBody tested
      rw [hTest] at hStays
      rw [hRun] at hStays'
      exact (hStays.store.trans hStays'.store).trans ih

/- Of two rounds one comes first. -/
theorem ComesToRound.linear
    (hRound : ComesToRound condition body rounds m here)
    (hOther : ComesToRound condition body rounds m there)
    (hCondition : condition.Restores)
    (hBody : body.Restores) :
    here = there ∨
    RoundEnds condition body here there ∨
    RoundEnds condition body there here := by
  induction hRound with
  | first =>
      cases hOther with
      | first => exact .inl rfl
      | next hTest _ hRun hLater =>
          have hGrows := hLater.grows hCondition hBody
          exact .inr (.inl ⟨_, _, _, hTest, hRun, hGrows⟩)
  | next hTest _ hRun hLater ih =>
      cases hOther with
      | first =>
          have hGrows := hLater.grows hCondition hBody
          exact .inr (.inr ⟨_, _, _, hTest, hRun, hGrows⟩)
      | next hTest' _ hRun' hLater' =>
          rw [hTest] at hTest'
          cases hTest'
          rw [hRun] at hRun'
          cases hRun'
          exact ih hLater'

end Rounds

end Lox

------------------------------------------------------------
-- Moments That Come Before
------------------------------------------------------------

namespace Lox

open Run

/- A moment is over when another one begins. -/
def Moment.Before (rounds : Nat) (M M' : Moment) : Prop :=
  (M.left rounds).store.Grows M'.machine.store

/- Two moments are the same, or one is over before the other. -/
def Moment.Ordered (rounds : Nat) (M M' : Moment) : Prop :=
  M = M' ∨ Before rounds M M' ∨ Before rounds M' M

namespace Moment

variable {rounds frames : Nat} {M M' M'' : Moment}

theorem Ordered.symm
    (hOrdered : Ordered rounds M M') :
    Ordered rounds M' M := by
  rcases hOrdered with rfl | hBefore | hBefore
  · exact .inl rfl
  · exact .inr (.inr hBefore)
  · exact .inr (.inl hBefore)

theorem before_of_eval
    {e : Expr}
    {m m' : Machine}
    {a : Value}
    (hEval : eval rounds frames e m = .ok a m')
    (hGrows : m'.store.Grows M.machine.store) :
    Before rounds ⟨frames, .eval e, m⟩ M := by
  unfold Before Moment.left
  simp only [hEval]
  exact hGrows

theorem before_of_exec
    {s : Stmt}
    {m m' : Machine}
    {a : Completion}
    (hExec : exec rounds frames s m = .ok a m')
    (hGrows : m'.store.Grows M.machine.store) :
    Before rounds ⟨frames, .exec s, m⟩ M := by
  unfold Before Moment.left
  simp only [hExec]
  exact hGrows

end Moment

/- Of two statements of a list one is over before the other. -/
theorem ComesTo.ordered
    {rounds frames : Nat}
    {goesOn : Completion → Prop}
    {body : List Stmt}
    {stmt other : Stmt}
    {m m' m'' : Machine}
    (hStmt :
      ComesTo (exec rounds frames) goesOn body m stmt m')
    (hOther :
      ComesTo (exec rounds frames) goesOn body m other m'') :
    Moment.Ordered rounds ⟨frames, .exec stmt, m'⟩
      ⟨frames, .exec other, m''⟩ := by
  rcases hStmt.linear hOther (exec_restores _ _) with
    ⟨rfl, rfl⟩ | hBefore | hBefore
  · exact .inl rfl
  · exact .inr (.inl hBefore)
  · exact .inr (.inr hBefore)

end Lox

------------------------------------------------------------
-- Parts Of One Evaluation
------------------------------------------------------------

namespace Lox

open Run

variable {rounds frames : Nat} {M A B : Moment} {m : Machine}

theorem grows_of_eval
    {e : Expr}
    {m' : Machine}
    {a : Value}
    (hEval : eval rounds frames e m = .ok a m') :
    m.store.Grows m'.store := by
  have hStays := eval_restores rounds frames e m
  rw [hEval] at hStays
  exact hStays.store

theorem grows_of_evalAll
    {args : List Expr}
    {m' : Machine}
    {values : List Value}
    (hArgs : evalAll (eval rounds frames) args m = .ok values m') :
    m.store.Grows m'.store := by
  have hEval := eval_restores rounds frames
  have hStays := compositional_restores.evalAll hEval args m
  rw [hArgs] at hStays
  exact hStays.store

/- All arguments are evaluated before the call. -/
private theorem Moment.before_of_args
    {args : List Expr}
    {arg : Expr}
    {values : List Value}
    {here there : Machine}
    {task : Task}
    (hArg : ComesToArg (eval rounds frames) args m arg here)
    (hArgs : evalAll (eval rounds frames) args m = .ok values there) :
    Before rounds ⟨frames, .eval arg, here⟩
      ⟨frames, task, there⟩ := by
  have hFrom :=
    hArg.args_have (lasts_grownFrom _)
      (eval_restores rounds frames) (.refl _)
  unfold Run.Has at hFrom
  rw [hArgs] at hFrom
  exact hFrom

/- The body of a round is over before a later round. -/
private theorem Moment.before_of_roundEnds
    {condition : Expr}
    {body : Stmt}
    {here there m' : Machine}
    {value : Value}
    (hEnds :
      RoundEnds (eval rounds frames condition)
        (exec rounds frames body) here there)
    (hTest : eval rounds frames condition here = .ok value m')
    (hGrows : there.store.Grows B.machine.store) :
    Before rounds ⟨frames, .exec body, m'⟩ B := by
  rcases hEnds with ⟨_, tested, again, hTest', hBody, hAgain⟩
  rw [hTest] at hTest'
  cases hTest'
  exact before_of_exec hBody (hAgain.trans hGrows)

/- So is its test. -/
private theorem Moment.before_of_testEnds
    {condition : Expr}
    {body : Stmt}
    {here there : Machine}
    (hEnds :
      RoundEnds (eval rounds frames condition)
        (exec rounds frames body) here there)
    (hGrows : there.store.Grows B.machine.store) :
    Before rounds ⟨frames, .eval condition, here⟩ B := by
  rcases hEnds with ⟨_, tested, again, hTest, hBody, hAgain⟩
  have hStays := exec_restores rounds frames body tested
  rw [hBody] at hStays
  exact
    before_of_eval hTest
      ((hStays.store.trans hAgain).trans hGrows)

/- The test of a round and the body of another or the same. -/
private theorem Moment.ordered_test_body
    {condition : Expr}
    {body : Stmt}
    {count : Nat}
    {here there m' : Machine}
    {value : Value}
    (hRound :
      ComesToRound (eval rounds frames condition)
        (exec rounds frames body) count m here)
    (hRound' :
      ComesToRound (eval rounds frames condition)
        (exec rounds frames body) count m there)
    (hTest : eval rounds frames condition there = .ok value m') :
    Ordered rounds ⟨frames, .eval condition, here⟩
      ⟨frames, .exec body, m'⟩ := by
  have hGrows := grows_of_eval hTest
  rcases
    hRound.linear hRound' (eval_restores _ _ _)
      (exec_restores _ _ _) with
    rfl | hEnds | hEnds
  · exact .inr (.inl (before_of_eval hTest (.refl _)))
  · exact .inr (.inl (before_of_testEnds hEnds hGrows))
  · exact .inr (.inr (before_of_roundEnds hEnds hTest (.refl _)))

private theorem Moment.ordered_eval
    {e : Expr}
    (hA : Leads rounds ⟨frames, .eval e, m⟩ A)
    (hB : Leads rounds ⟨frames, .eval e, m⟩ B) :
    Ordered rounds A B := by
  cases hA with
  | grouping | assigned | operand =>
      cases hB
      exact .inl rfl
  | left =>
      cases hB with
      | left => exact .inl rfl
      | right hLeft =>
          exact .inr (.inl (before_of_eval hLeft (.refl _)))
  | right hLeft =>
      cases hB with
      | left => exact .inr (.inr (before_of_eval hLeft (.refl _)))
      | right hLeft' =>
          rw [hLeft] at hLeft'
          cases hLeft'
          exact .inl rfl
  | leftLogical =>
      cases hB with
      | leftLogical => exact .inl rfl
      | rightLogical hLeft _ =>
          exact .inr (.inl (before_of_eval hLeft (.refl _)))
  | rightLogical hLeft _ =>
      cases hB with
      | leftLogical =>
          exact .inr (.inr (before_of_eval hLeft (.refl _)))
      | rightLogical hLeft' _ =>
          rw [hLeft] at hLeft'
          cases hLeft'
          exact .inl rfl
  | callee =>
      cases hB with
      | callee => exact .inl rfl
      | argument hCallee hArg =>
          have hGrows := hArg.grows (eval_restores _ _)
          exact .inr (.inl (before_of_eval hCallee hGrows))
      | called hCallee hArgs =>
          have hGrows := grows_of_evalAll hArgs
          exact .inr (.inl (before_of_eval hCallee hGrows))
  | argument hCallee hArg =>
      cases hB with
      | callee =>
          have hGrows := hArg.grows (eval_restores _ _)
          exact .inr (.inr (before_of_eval hCallee hGrows))
      | argument hCallee' hArg' =>
          rw [hCallee] at hCallee'
          cases hCallee'
          rcases hArg.linear hArg' (eval_restores _ _) with
            ⟨rfl, rfl⟩ | hBefore | hBefore
          · exact .inl rfl
          · exact .inr (.inl hBefore)
          · exact .inr (.inr hBefore)
      | called hCallee' hArgs =>
          rw [hCallee] at hCallee'
          cases hCallee'
          exact .inr (.inl (before_of_args hArg hArgs))
  | called hCallee hArgs =>
      cases hB with
      | callee =>
          have hGrows := grows_of_evalAll hArgs
          exact .inr (.inr (before_of_eval hCallee hGrows))
      | argument hCallee' hArg =>
          rw [hCallee] at hCallee'
          cases hCallee'
          exact .inr (.inr (before_of_args hArg hArgs))
      | called hCallee' hArgs' =>
          rw [hCallee] at hCallee'
          cases hCallee'
          rw [hArgs] at hArgs'
          cases hArgs'
          exact .inl rfl

private theorem Moment.ordered_exec
    {s : Stmt}
    (hA : Leads rounds ⟨frames, .exec s, m⟩ A)
    (hB : Leads rounds ⟨frames, .exec s, m⟩ B) :
    Ordered rounds A B := by
  cases hA with
  | expression | printed | initializer | returned =>
      cases hB
      exact .inl rfl
  | inBlock hStmt =>
      cases hB with
      | inBlock hStmt' =>
          exact hStmt.ordered hStmt'
  | test =>
      cases hB with
      | test => exact .inl rfl
      | chosen hTest _ =>
          exact .inr (.inl (before_of_eval hTest (.refl _)))
  | chosen hTest _ =>
      cases hB with
      | test => exact .inr (.inr (before_of_eval hTest (.refl _)))
      | chosen hTest' _ =>
          rw [hTest] at hTest'
          cases hTest'
          exact .inl rfl
  | testElse =>
      cases hB with
      | testElse => exact .inl rfl
      | chosenThen hTest _ | chosenElse hTest _ =>
          exact .inr (.inl (before_of_eval hTest (.refl _)))
  | chosenThen hTest hTrue =>
      cases hB with
      | testElse =>
          exact .inr (.inr (before_of_eval hTest (.refl _)))
      | chosenThen hTest' _ =>
          rw [hTest] at hTest'
          cases hTest'
          exact .inl rfl
      | chosenElse hTest' hFalse =>
          rw [hTest] at hTest'
          cases hTest'
          simp [hTrue] at hFalse
  | chosenElse hTest hFalse =>
      cases hB with
      | testElse =>
          exact .inr (.inr (before_of_eval hTest (.refl _)))
      | chosenThen hTest' hTrue =>
          rw [hTest] at hTest'
          cases hTest'
          simp [hTrue] at hFalse
      | chosenElse hTest' _ =>
          rw [hTest] at hTest'
          cases hTest'
          exact .inl rfl
  | loopTest hRound =>
      cases hB with
      | loopTest hRound' =>
          rcases
            hRound.linear hRound' (eval_restores _ _ _)
              (exec_restores _ _ _) with
            rfl | hEnds | hEnds
          · exact .inl rfl
          · exact .inr (.inl (before_of_testEnds hEnds (.refl _)))
          · exact .inr (.inr (before_of_testEnds hEnds (.refl _)))
      | loopBody hRound' hTest _ =>
          exact ordered_test_body hRound hRound' hTest
  | loopBody hRound hTest _ =>
      cases hB with
      | loopTest hRound' =>
          exact (ordered_test_body hRound' hRound hTest).symm
      | loopBody hRound' hTest' _ =>
          have hGrows := grows_of_eval hTest
          have hGrows' := grows_of_eval hTest'
          rcases
            hRound.linear hRound' (eval_restores _ _ _)
              (exec_restores _ _ _) with
            rfl | hEnds | hEnds
          · rw [hTest] at hTest'
            cases hTest'
            exact .inl rfl
          · exact
              .inr (.inl (before_of_roundEnds hEnds hTest hGrows'))
          · exact
              .inr (.inr (before_of_roundEnds hEnds hTest' hGrows))

private theorem Moment.ordered_call
    {callee : Value}
    {args : List Value}
    {paren : Token}
    (hA : Leads rounds ⟨frames, .call callee args paren, m⟩ A)
    (hB : Leads rounds ⟨frames, .call callee args paren, m⟩ B) :
    Ordered rounds A B := by
  cases hA with
  | inFunction _ hStmt =>
      cases hB with
      | inFunction _ hStmt' =>
          exact hStmt.ordered hStmt'
  | applied _ hApply hCallee =>
      cases hB with
      | applied _ hApply' hCallee' =>
          rw [hApply] at hApply'
          cases hApply'
          rw [hCallee] at hCallee'
          cases hCallee'
          exact .inl rfl

/- Of two parts of an evaluation one is over before the other. -/
theorem Moment.Leads.linear
    (hA : M.Leads rounds A)
    (hB : M.Leads rounds B) :
    Ordered rounds A B := by
  rcases M with ⟨frames, task, m⟩
  cases task with
  | eval e => exact ordered_eval hA hB
  | exec s => exact ordered_exec hA hB
  | call callee args paren => exact ordered_call hA hB

end Lox

------------------------------------------------------------
-- All Moments Of An Evaluation
------------------------------------------------------------

namespace Lox.Moment

variable {rounds : Nat} {M A B : Moment}

theorem Leads.grows
    (hLeads : M.Leads rounds A) :
    M.machine.store.Grows A.machine.store := by
  cases hLeads with
  | grouping | assigned | operand | left | leftLogical | callee
  | expression | printed | initializer | test | testElse
  | returned | applied => exact .refl _
  | right hLeft | rightLogical hLeft | chosen hLeft
  | chosenThen hLeft | chosenElse hLeft =>
      exact grows_of_eval hLeft
  | argument hCallee hArg =>
      exact
        (grows_of_eval hCallee).trans
          (hArg.grows (eval_restores _ _))
  | called hCallee hArgs =>
      exact (grows_of_eval hCallee).trans (grows_of_evalAll hArgs)
  | inBlock hStmt =>
      exact
        (Store.Grows.make _ _).trans
          (hStmt.grows (exec_restores _ _))
  | loopTest hRound =>
      exact
        hRound.grows (eval_restores _ _ _) (exec_restores _ _ _)
  | loopBody hRound hTest =>
      exact
        (hRound.grows (eval_restores _ _ _)
          (exec_restores _ _ _)).trans (grows_of_eval hTest)
  | inFunction _ hStmt =>
      exact
        (Machine.grows_activation _ _ _).trans
          (hStmt.grows (exec_restores _ _))

theorem LeadsOn.grows
    (hLeads : M.LeadsOn rounds A) :
    M.machine.store.Grows A.machine.store := by
  induction hLeads with
  | refl => exact .refl _
  | tail _ hLast ih => exact ih.trans hLast.grows

/- What is over before another begins, with all its parts. -/
theorem Before.leadsOn
    {A' B' : Moment}
    (hBefore : Before rounds A B)
    (hA : A.LeadsOn rounds A')
    (hB : B.LeadsOn rounds B') :
    Before rounds A' B' :=
  hA.grows_left.trans (hBefore.trans hB.grows)

/- One moment is part of another, or is over before it. -/
def InOrder (rounds : Nat) (A B : Moment) : Prop :=
  A.LeadsOn rounds B ∨ B.LeadsOn rounds A ∨
  Before rounds A B ∨ Before rounds B A

theorem InOrder.symm
    (hOrder : InOrder rounds A B) :
    InOrder rounds B A := by
  rcases hOrder with hLeads | hLeads | hBefore | hBefore
  · exact .inr (.inl hLeads)
  · exact .inl hLeads
  · exact .inr (.inr (.inr hBefore))
  · exact .inr (.inr (.inl hBefore))

theorem inOrder_of_before (hBefore : Before rounds A B) :
    InOrder rounds A B :=
  .inr (.inr (.inl hBefore))

/- All moments that an evaluation leads to are in order. -/
theorem LeadsOn.linear
    (hA : M.LeadsOn rounds A)
    (hB : M.LeadsOn rounds B) :
    InOrder rounds A B := by
  induction hA using Relation.ReflTransGen.head_induction_on with
  | refl => exact .inl hB
  | @head M A' hFirst hRest ih =>
      rcases Relation.ReflTransGen.cases_head hB with
        rfl | ⟨B', hFirst', hRest'⟩
      · exact .inr (.inl (hRest.head hFirst))
      · rcases hFirst.linear hFirst' with
          rfl | hBefore | hBefore
        · exact ih hRest'
        · exact
            inOrder_of_before
              (hBefore.leadsOn hRest hRest')
        · exact
            (inOrder_of_before
              (hBefore.leadsOn hRest' hRest)).symm

end Lox.Moment

------------------------------------------------------------
-- Activations
------------------------------------------------------------

namespace Lox.Moment

variable {rounds : Nat} {M M' : Moment}
variable {f : Closure} {args : List Value}

/- A moment at which a function is activated with arguments. -/
structure Activates
    (M : Moment)
    (f : Closure)
    (args : List Value) :
    Prop where
  task :
    ∃ frames paren,
      M.frames = frames + 1 ∧
      M.task = .call (.function f) args paren
  arity : args.length = f.params.length

/- Whatever comes after an activation finds what it made. -/
theorem Activates.grows_of_before
    (hActivates : M.Activates f args)
    (hBefore : Before rounds M M') :
    (M.machine.activation f args).store.Grows
      M'.machine.store := by
  rcases M with ⟨_, _, m⟩
  rcases hActivates with ⟨⟨frames, paren, rfl, rfl⟩, hArity⟩
  have hCalling :
      Passes rounds ⟨frames + 1, .call (.function f) args paren, m⟩
        (m.activation f args) :=
    .calling frames paren hArity
  exact hCalling.grows_left.trans hBefore

theorem Activates.grows_of_leads
    (hActivates : M.Activates f args)
    (hLeads : M.Leads rounds M') :
    (M.machine.activation f args).store.Grows
      M'.machine.store := by
  rcases M with ⟨_, _, m⟩
  rcases hActivates with ⟨⟨frames, paren, rfl, rfl⟩, hArity⟩
  cases hLeads with
  | inFunction _ hStmt => exact hStmt.grows (exec_restores _ _)

/- So does whatever comes in it, the activation itself apart. -/
theorem Activates.grows_of_leadsOn
    (hActivates : M.Activates f args)
    (hLeads : M.LeadsOn rounds M') :
    M = M' ∨
    (M.machine.activation f args).store.Grows
      M'.machine.store := by
  rcases Relation.ReflTransGen.cases_head hLeads with
    rfl | ⟨first, hFirst, hRest⟩
  · exact .inl rfl
  · exact
      .inr
        ((hActivates.grows_of_leads hFirst).trans
          (LeadsOn.grows hRest))

/-
  Of two activations, one finds what the other has made, if
  they are not the same.
-/
theorem InOrder.activations
    {f' : Closure}
    {args' : List Value}
    (hOrder : InOrder rounds M M')
    (hActivates : M.Activates f args)
    (hActivates' : M'.Activates f' args') :
    M = M' ∨
    (M.machine.activation f args).store.Grows
      M'.machine.store ∨
    (M'.machine.activation f' args').store.Grows
      M.machine.store := by
  rcases hOrder with hLeads | hLeads | hBefore | hBefore
  · rcases hActivates.grows_of_leadsOn hLeads with rfl | hGrows
    · exact .inl rfl
    · exact .inr (.inl hGrows)
  · rcases hActivates'.grows_of_leadsOn hLeads with rfl | hGrows
    · exact .inl rfl
    · exact .inr (.inr hGrows)
  · exact .inr (.inl (hActivates.grows_of_before hBefore))
  · exact .inr (.inr (hActivates'.grows_of_before hBefore))

end Lox.Moment
