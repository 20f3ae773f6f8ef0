import Mathlib.Data.List.Pairwise
import Lox.Proofs.Scope.Respelling

/-
  A renamed program resolves as before.

  The renamed declaration is found somewhere in the program.
  Around it nothing changes, and from its scope on the names of
  the scope are in another spelling. The declarations of one
  scope have different names, so the others keep theirs.

  Key definitions include:
    * `Stmt.declared?`
    * `Stmt.IsApart`
    * `resolveProgram_renamed`
-/

------------------------------------------------------------
-- Declarations Of One Scope
------------------------------------------------------------

namespace Lox

/- The name that a statement declares in its scope. -/
def Stmt.declared? : Stmt → Option Token
  | .var name _ => some name
  | .function name _ _ => some name
  | _ => none

/- Two statements that declare different names, if any. -/
def Stmt.IsApart (s t : Stmt) : Prop :=
  ∀ name ∈ s.declared?, ∀ other ∈ t.declared?,
    name.lexeme ≠ other.lexeme

instance : Std.Symm Stmt.IsApart where
  symm _ _ hApart name hName other hOther :=
    (hApart other hOther name hName).symm

namespace Stmt.Noted

variable {s : Stmt} {notes : Notes} {scopes next : List Scope}

theorem of_declared
    (hNoted : s.Noted scopes notes next)
    {name : Token}
    (hName : s.declared? = some name) :
    IsNewIn scopes name.lexeme ∧
      next = declareScope scopes name.lexeme := by
  cases hNoted with
  | plain hNew =>
      cases hName
      exact ⟨hNew, rfl⟩
  | initialized hNew hValue =>
      cases hName
      exact ⟨hNew, rfl⟩
  | function hNew hParams hBody =>
      cases hName
      exact ⟨hNew, rfl⟩
  | _ => cases hName

theorem of_not_declared
    (hNoted : s.Noted scopes notes next)
    (hNone : s.declared? = none) :
    next = scopes := by
  cases hNoted with
  | plain hNew => cases hNone
  | initialized hNew hValue => cases hNone
  | function hNew hParams hBody => cases hNone
  | _ => rfl

/- A statement changes no number of scopes. -/
theorem length_next (hNoted : s.Noted scopes notes next) :
    next.length = scopes.length := by
  cases hDeclared : s.declared? with
  | none => rw [hNoted.of_not_declared hDeclared]
  | some name =>
      rw [(hNoted.of_declared hDeclared).2, length_declareScope]

end Stmt.Noted

/- What leaves the scopes as they are declares no function. -/
theorem Stmt.Noted.lacksFunction
    (x : String)
    {s : Stmt}
    {scope : Scope}
    {outer : List Scope}
    {notes : Notes}
    (hNoted :
      s.Noted (scope :: outer) notes (scope :: outer)) :
    s.LacksFunction x := by
  cases s with
  | ifThen condition thenBranch =>
      cases hNoted with
      | ifThen hCondition hThen => exact hThen.lacksFunction x
  | ifElse condition thenBranch elseBranch =>
      cases hNoted with
      | ifElse hCondition hThen hElse =>
          exact ⟨hThen.lacksFunction x, hElse.lacksFunction x⟩
  | loop condition body =>
      cases hNoted with
      | loop hCondition hBody => exact hBody.lacksFunction x
  | function name params body =>
      -- A function adds its name to the scope.
      rcases hNoted.of_declared rfl with ⟨_, hNext⟩
      have hHead := (List.cons.inj hNext).1
      exact
        absurd (congrArg List.length hHead)
          (Nat.ne_of_lt (Nat.lt_add_of_pos_right Nat.two_pos))
  | expression value => trivial
  | print value => trivial
  | var name initializer => trivial
  | block body => trivial
  | ret keyword value => trivial

namespace Stmt.BodyNoted

variable {body : List Stmt} {notes : List Notes}
variable {scope : Scope} {outer : List Scope}

/- The scope that is first after a statement. -/
theorem next_scope
    {s : Stmt}
    {notes : Notes}
    {next : List Scope}
    (hNoted : s.Noted (scope :: outer) notes next) :
    ∃ after, next = after :: outer ∧
      (∀ name, scope.declares name → after.declares name) ∧
      ∀ name ∈ s.declared?, after.declares name.lexeme := by
  cases hDeclared : s.declared? with
  | none =>
      refine ⟨scope, hNoted.of_not_declared hDeclared, ?_, ?_⟩
      · exact fun _ hName => hName
      · simp
  | some name =>
      refine ⟨_, (hNoted.of_declared hDeclared).2, ?_, ?_⟩
      · intro other hOther
        unfold Scope.declares at hOther ⊢
        by_cases hSame : other = name.lexeme
        · simp [hSame]
        · have hNe : (other == name.lexeme) = false := by
            simpa using hSame
          simpa only [List.lookup_cons, hNe] using hOther
      · intro other hMem
        cases hMem
        simp [Scope.declares]

/- Each statement has scopes around it. -/
theorem noted_of_mem
    (hNoted : BodyNoted (scope :: outer) body notes)
    {s : Stmt}
    (hMem : s ∈ body) :
    ∃ before notes next,
      s.Noted (before :: outer) notes next := by
  induction body generalizing scope notes with
  | nil => cases hMem
  | cons stmt body ih =>
      cases hNoted with
      | cons hFirst hRest =>
          rcases next_scope hFirst with ⟨after, rfl, _, _⟩
          rcases List.mem_cons.mp hMem with rfl | hMem
          · exact ⟨_, _, _, hFirst⟩
          · exact ih hRest hMem

/- A name that is there already is not declared again. -/
theorem declared_ne
    (hNoted : BodyNoted (scope :: outer) body notes)
    {x : String}
    (hDeclares : scope.declares x)
    {s : Stmt}
    (hMem : s ∈ body) :
    ∀ name ∈ s.declared?, name.lexeme ≠ x := by
  induction body generalizing scope notes with
  | nil => cases hMem
  | cons stmt body ih =>
      cases hNoted with
      | cons hFirst hRest =>
          rcases next_scope hFirst with ⟨after, rfl, hKept, _⟩
          rcases List.mem_cons.mp hMem with rfl | hMem
          · intro name hName hSame
            have hNew := (hFirst.of_declared hName).1 scope rfl
            rw [hSame, hDeclares] at hNew
            cases hNew
          · exact ih hRest (hKept x hDeclares) hMem

/- The declarations of one scope have different names. -/
theorem pairwise_declared
    (hNoted : BodyNoted (scope :: outer) body notes) :
    body.Pairwise Stmt.IsApart := by
  induction body generalizing scope notes with
  | nil => exact .nil
  | cons stmt body ih =>
      cases hNoted with
      | cons hFirst hRest =>
          rcases next_scope hFirst with ⟨after, rfl, _, hAdded⟩
          apply List.Pairwise.cons _ (ih hRest)
          intro t hMem name hName other hOther hSame
          exact declared_ne hRest (hAdded name hName) hMem other
            hOther hSame.symm

/- No function has the name of a variable beside it. -/
theorem lacksFunction
    (hNoted : BodyNoted (scope :: outer) body notes)
    {x : String}
    (hVar : DeclaresVar x body) :
    ∀ s ∈ body, s.LacksFunction x := by
  intro s hMem
  rcases hVar with ⟨name, initializer, hVar, rfl⟩
  rcases noted_of_mem hNoted hMem with
    ⟨before, notes, next, hStmt⟩
  by_cases hDeclared : s.declared? = none
  · have hSame := hStmt.of_not_declared hDeclared
    subst hSame
    exact hStmt.lacksFunction name.lexeme
  · cases s with
    | var other value => trivial
    | function other params inner =>
        have hApart :=
          hNoted.pairwise_declared.forall hMem hVar (by simp)
        exact hApart other rfl name rfl
    | _ => exact absurd rfl hDeclared

end Stmt.BodyNoted

end Lox

------------------------------------------------------------
-- Programs
------------------------------------------------------------

namespace Lox

open Resolver

variable {x y : String} {spellings : List Spelling}

/- The names of parameters that are not renamed. -/
theorem map_lexeme (params : List Token) :
    params.map (·.lexeme) =
      params.map ((1 : Spelling) ·.lexeme) :=
  rfl

/- The names of parameters that are renamed. -/
theorem map_rename
    {params : List Token}
    (hAvoids : ∀ param ∈ params, param.lexeme ≠ y) :
    (params.map (·.rename x y)).map (·.lexeme) =
      params.map (Equiv.swap x y ·.lexeme) := by
  rw [List.map_map]
  apply List.map_congr_left
  intro param hMem
  exact param.lexeme_rename x (hAvoids param hMem)

/- What is not renamed resolves to itself. -/
theorem Expr.respells_refl
    {e : Expr}
    (hAvoids : e.Avoids y) :
    Respells x y none spellings e.resolve e.resolve e e := by
  have hSame :
      Respells x y none spellings e.resolve
        (e.rename x y none).resolve e (e.rename x y none) :=
    e.resolve_rename hAvoids
  rwa [e.rename_none] at hSame

theorem Stmt.respells_refl
    {s : Stmt}
    (hAvoids : s.Avoids y) :
    Respells x y none spellings s.resolve s.resolve s s := by
  have hSame :
      Respells x y none spellings s.resolve
        (s.rename x y none).resolve s (s.rename x y none) :=
    s.resolve_rename hAvoids nofun
  rwa [s.rename_none] at hSame

theorem Stmt.respellsBody_refl
    {body : List Stmt}
    (hAvoids : Stmt.AvoidsBody y body) :
    Respells x y none spellings (Stmt.resolveBody body)
      (Stmt.resolveBody body) body body := by
  have hSame :
      Respells x y none spellings (Stmt.resolveBody body)
        (Stmt.resolveBody (Stmt.renameBody x y none body)) body
        (Stmt.renameBody x y none body) :=
    Stmt.resolveBody_rename body hAvoids nofun
  rwa [Stmt.renameBody_none] at hSame

mutual

/- A declaration may be renamed anywhere in a statement. -/
theorem Stmt.RenamesLocal.respells
    {s renamed : Stmt}
    {scopes next : List Scope}
    {notes : Notes}
    {spellings : List Spelling}
    (hRenames : s.RenamesLocal x y renamed)
    (hNoted : s.Noted scopes notes next)
    (hAvoids : s.Avoids y) :
    Respells x y none spellings s.resolve renamed.resolve s
      renamed := by
  refine .ofMarks fun hMarks => ?_
  cases hRenames with
  | blockVar hVar =>
      cases hNoted with
      | block hBody =>
          apply Respells.block hMarks.here
          apply Stmt.resolveBody_rename _ hAvoids
          intro _
          exact hBody.lacksFunction hVar
  | @functionVar name params body hVar =>
      rcases hAvoids with ⟨hAvoidsName, hAvoidsParams, hAvoidsBody⟩
      cases hNoted with
      | function hNew hParams hBody =>
          have hName := hMarks.headSpelling_of_ne nofun hAvoidsName
          apply Respells.function hName hAvoidsName rfl
            hAvoidsParams hMarks.inner hMarks.inner.here
          apply Stmt.resolveBody_rename body hAvoidsBody
          intro _
          exact hBody.lacksFunction hVar
  | @parameter name params body hParam =>
      rcases hAvoids with ⟨hAvoidsName, hAvoidsParams, hAvoidsBody⟩
      have hName := hMarks.headSpelling_of_ne nofun hAvoidsName
      apply Respells.function hName hAvoidsName
        (map_rename hAvoidsParams) hAvoidsParams hMarks.here
        hMarks.here.inner
      exact Stmt.resolveBody_rename body hAvoidsBody nofun
  | block hBody =>
      cases hNoted with
      | block hInner =>
          exact .block hMarks.inner (hBody.respells hInner hAvoids)
  | function hBody =>
      rcases hAvoids with ⟨hAvoidsName, hAvoidsParams, hAvoidsBody⟩
      cases hNoted with
      | function hNew hParams hInner =>
          have hName := hMarks.headSpelling_of_ne nofun hAvoidsName
          exact
            .function hName hAvoidsName rfl hAvoidsParams
              hMarks.inner hMarks.deeper_two
              (hBody.respells hInner hAvoidsBody)
  | ifThen hThen =>
      cases hNoted with
      | ifThen hCondition hInner =>
          exact
            .ifThen (Expr.respells_refl hAvoids.1)
              (hThen.respells hInner hAvoids.2)
  | ifElseThen hThen =>
      cases hNoted with
      | ifElse hCondition hInner hElse =>
          exact
            .ifElse (Expr.respells_refl hAvoids.1)
              (hThen.respells hInner hAvoids.2.1)
              (Stmt.respells_refl hAvoids.2.2)
  | ifElseElse hElse =>
      cases hNoted with
      | ifElse hCondition hThen hInner =>
          exact
            .ifElse (Expr.respells_refl hAvoids.1)
              (Stmt.respells_refl hAvoids.2.1)
              (hElse.respells hInner hAvoids.2.2)
  | loop hBody =>
      cases hNoted with
      | loop hCondition hInner =>
          exact
            .loop (Expr.respells_refl hAvoids.1)
              (hBody.respells hInner hAvoids.2)

theorem Stmt.RenamesLocalIn.respells
    {body renamed : List Stmt}
    {scopes : List Scope}
    {notes : List Notes}
    {spellings : List Spelling}
    (hRenames : RenamesLocalIn x y body renamed)
    (hNoted : BodyNoted scopes body notes)
    (hAvoids : AvoidsBody y body) :
    Respells x y none spellings (resolveBody body)
      (resolveBody renamed) body renamed := by
  cases hRenames with
  | here hStmt =>
      cases hNoted with
      | cons hInner hOthers =>
          exact
            .body (hStmt.respells hInner hAvoids.1)
              (respellsBody_refl hAvoids.2)
  | later hBody =>
      cases hNoted with
      | cons hFirst hInner =>
          exact
            .body (Stmt.respells_refl hAvoids.1)
              (hBody.respells hInner hAvoids.2)

end

/-
  A program with one local declaration renamed resolves to
  the same tree with that declaration renamed, and as many
  uses refer to local variables.
-/
theorem resolveProgram_renamed
    {program renamed : List Stmt}
    {resolved : Resolved}
    {notes : List Notes}
    (hResolve : resolveProgram program = .ok resolved)
    (hNoted : Stmt.BodyNoted [] resolved.program notes)
    (hRenames :
      Stmt.RenamesLocalIn x y resolved.program renamed)
    (hAvoids : Stmt.AvoidsBody y resolved.program) :
    resolveProgram (Stmt.bareBody renamed) =
      .ok ⟨renamed, resolved.recorded⟩ := by
  rcases exists_run_of_resolveProgram hResolve with
    ⟨r', hRun, hCount⟩
  have hSpells : SpellsScopes x y none [] {} :=
    ⟨.nil, rfl, nofun⟩
  rcases hRenames.respells hNoted hAvoids _ r' hSpells
    (Stmt.resolveBody_resolved hRun) with ⟨hRun', _⟩
  have hEmpty : Resolver.spell [] {} = {} := rfl
  rw [hEmpty] at hRun'
  unfold resolveProgram
  rw [Stmt.resolveBody_bare, hRun', hCount]
  rfl

end Lox
