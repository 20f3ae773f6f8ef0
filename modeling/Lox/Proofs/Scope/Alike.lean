import Lox.Proofs.Scope.Capture

/-
  Programs that differ in the names of local variables.

  Two trees are alike, as seen from scopes whose names are
  spelled anew in the second one, if every use of a local
  variable has the name that its scope gives it, and all else
  is the same. A program with one local declaration renamed is
  alike to the one that it was.

  Key definitions include:
    * `Expr.Alike`
    * `Stmt.Alike`
    * `Stmt.alike_rename`
    * `Stmt.RenamesLocalIn.alike`
-/

------------------------------------------------------------
-- Alike Trees
------------------------------------------------------------

namespace Lox

/- Two expressions within scopes with these spellings. -/
inductive Expr.Alike (spellings : List Spelling) :
    Expr → Expr → Prop where
  | literal {value : Literal} :
      Alike spellings (.literal value) (.literal value)
  | globalName {name : Token} :
      Alike spellings (.variable name none) (.variable name none)
  | localName
      {name name' : Token}
      {distance : Nat} {spelling : Spelling}
      (hSpelling : spellings[distance]? = some spelling)
      (hName : name'.lexeme = spelling name.lexeme) :
      Alike spellings (.variable name (some distance))
        (.variable name' (some distance))
  | assignGlobal
      {name : Token} {value value' : Expr}
      (hValue : Alike spellings value value') :
      Alike spellings (.assign name value none)
        (.assign name value' none)
  | assignLocal
      {name name' : Token} {value value' : Expr}
      {distance : Nat} {spelling : Spelling}
      (hValue : Alike spellings value value')
      (hSpelling : spellings[distance]? = some spelling)
      (hName : name'.lexeme = spelling name.lexeme) :
      Alike spellings (.assign name value (some distance))
        (.assign name' value' (some distance))
  | binary
      {op : Token} {left left' right right' : Expr}
      (hLeft : Alike spellings left left')
      (hRight : Alike spellings right right') :
      Alike spellings (.binary left op right)
        (.binary left' op right')
  | logical
      {op : Token} {left left' right right' : Expr}
      (hLeft : Alike spellings left left')
      (hRight : Alike spellings right right') :
      Alike spellings (.logical left op right)
        (.logical left' op right')
  | unary
      {op : Token} {operand operand' : Expr}
      (hOperand : Alike spellings operand operand') :
      Alike spellings (.unary op operand) (.unary op operand')
  | grouping
      {inner inner' : Expr}
      (hInner : Alike spellings inner inner') :
      Alike spellings (.grouping inner) (.grouping inner')
  | call
      {callee callee' : Expr} {paren : Token}
      {args args' : List Expr}
      (hCallee : Alike spellings callee callee')
      (hArgs : List.Forall₂ (Alike spellings) args args') :
      Alike spellings (.call callee paren args)
        (.call callee' paren args')

mutual

/-
  Two statements within scopes with these spellings. The name
  of a function is printed with it, and so is the same.
-/
inductive Stmt.Alike :
    List Spelling → Stmt → Stmt → Prop where
  | expression
      {spellings : List Spelling} {value value' : Expr}
      (hValue : value.Alike spellings value') :
      Alike spellings (.expression value) (.expression value')
  | print
      {spellings : List Spelling} {value value' : Expr}
      (hValue : value.Alike spellings value') :
      Alike spellings (.print value) (.print value')
  | plain
      {spellings : List Spelling} {name name' : Token}
      (hName :
        name'.lexeme = headSpelling spellings name.lexeme) :
      Alike spellings (.var name none) (.var name' none)
  | initialized
      {spellings : List Spelling} {name name' : Token}
      {value value' : Expr}
      (hName :
        name'.lexeme = headSpelling spellings name.lexeme)
      (hValue : value.Alike spellings value') :
      Alike spellings (.var name (some value))
        (.var name' (some value'))
  | block
      {spelling : Spelling} {spellings : List Spelling}
      {body body' : List Stmt}
      (hBody : BodyAlike (spelling :: spellings) body body') :
      Alike spellings (.block body) (.block body')
  | ifThen
      {spellings : List Spelling}
      {condition condition' : Expr}
      {thenBranch thenBranch' : Stmt}
      (hCondition : condition.Alike spellings condition')
      (hThen : Alike spellings thenBranch thenBranch') :
      Alike spellings (.ifThen condition thenBranch)
        (.ifThen condition' thenBranch')
  | ifElse
      {spellings : List Spelling}
      {condition condition' : Expr}
      {thenBranch thenBranch' elseBranch elseBranch' : Stmt}
      (hCondition : condition.Alike spellings condition')
      (hThen : Alike spellings thenBranch thenBranch')
      (hElse : Alike spellings elseBranch elseBranch') :
      Alike spellings (.ifElse condition thenBranch elseBranch)
        (.ifElse condition' thenBranch' elseBranch')
  | loop
      {spellings : List Spelling}
      {condition condition' : Expr} {body body' : Stmt}
      (hCondition : condition.Alike spellings condition')
      (hBody : Alike spellings body body') :
      Alike spellings (.loop condition body)
        (.loop condition' body')
  | function
      {first second : Spelling} {spellings : List Spelling}
      {name : Token} {params params' : List Token}
      {body body' : List Stmt}
      (hName : headSpelling spellings name.lexeme = name.lexeme)
      (hParams :
        params'.map (·.lexeme) =
          params.map (second ·.lexeme))
      (hBody :
        BodyAlike (first :: second :: spellings) body body') :
      Alike spellings (.function name params body)
        (.function name params' body')
  | plainRet
      {spellings : List Spelling} {keyword : Token} :
      Alike spellings (.ret keyword none) (.ret keyword none)
  | ret
      {spellings : List Spelling} {keyword : Token}
      {value value' : Expr}
      (hValue : value.Alike spellings value') :
      Alike spellings (.ret keyword (some value))
        (.ret keyword (some value'))

/- Statements one after another. -/
inductive Stmt.BodyAlike :
    List Spelling → List Stmt → List Stmt → Prop where
  | nil {spellings : List Spelling} : BodyAlike spellings [] []
  | cons
      {spellings : List Spelling}
      {stmt stmt' : Stmt} {body body' : List Stmt}
      (hFirst : Stmt.Alike spellings stmt stmt')
      (hRest : BodyAlike spellings body body') :
      BodyAlike spellings (stmt :: body) (stmt' :: body')

end

end Lox

------------------------------------------------------------
-- Renamed Trees
------------------------------------------------------------

namespace Lox

variable {x y : String} {mark : Option Nat}
variable {spellings : List Spelling}

mutual

/- A renamed expression is alike to the one that it was. -/
theorem Expr.alike_rename
    (e : Expr)
    {scopes : List Scope}
    {notes : Notes}
    (hMarks : Marks x y mark spellings)
    (hLength : spellings.length = scopes.length)
    (hNoted : e.Noted scopes notes)
    (hAvoids : e.Avoids y) :
    e.Alike spellings (e.rename x y mark) := by
  cases e with
  | literal value => exact .literal
  | «variable» name hops =>
      cases hNoted with
      | name hHops =>
          cases hops with
          | none =>
              rw [Expr.rename, Token.renameUse_global]
              exact .globalName
          | some distance =>
              rcases hHops distance rfl with ⟨scope, hScope, _⟩
              have hInside : distance < spellings.length := by
                rw [hLength]
                exact (List.getElem?_eq_some_iff.mp hScope).1
              have hSpelling := List.getElem?_eq_getElem hInside
              exact
                .localName hSpelling
                  (hMarks.lexeme_use hAvoids hSpelling)
  | assign name value hops =>
      cases hNoted with
      | assign hValue hHops =>
          have hValue' :=
            value.alike_rename hMarks hLength hValue hAvoids.2
          cases hops with
          | none =>
              rw [Expr.rename, Token.renameUse_global]
              exact .assignGlobal hValue'
          | some distance =>
              have hInside : distance < spellings.length := by
                rw [hLength]
                exact hHops distance rfl
              have hSpelling := List.getElem?_eq_getElem hInside
              exact
                .assignLocal hValue' hSpelling
                  (hMarks.lexeme_use hAvoids.1 hSpelling)
  | binary left op right =>
      cases hNoted with
      | binary hLeft hRight =>
          exact
            .binary (left.alike_rename hMarks hLength hLeft hAvoids.1)
              (right.alike_rename hMarks hLength hRight hAvoids.2)
  | logical left op right =>
      cases hNoted with
      | logical hLeft hRight =>
          exact
            .logical
              (left.alike_rename hMarks hLength hLeft hAvoids.1)
              (right.alike_rename hMarks hLength hRight hAvoids.2)
  | unary op operand =>
      cases hNoted with
      | unary hOperand =>
          exact
            .unary
              (operand.alike_rename hMarks hLength hOperand hAvoids)
  | grouping inner =>
      cases hNoted with
      | grouping hInner =>
          exact
            .grouping
              (inner.alike_rename hMarks hLength hInner hAvoids)
  | call callee paren args =>
      cases hNoted with
      | call hCallee hArgs =>
          exact
            .call
              (callee.alike_rename hMarks hLength hCallee hAvoids.1)
              (Expr.alike_renameArgs args hMarks hLength hArgs
                hAvoids.2)

theorem Expr.alike_renameArgs
    (args : List Expr)
    {scopes : List Scope}
    {notes : List Notes}
    (hMarks : Marks x y mark spellings)
    (hLength : spellings.length = scopes.length)
    (hNoted : List.Forall₂ (Expr.Noted scopes) args notes)
    (hAvoids : Expr.AvoidsArgs y args) :
    List.Forall₂ (Expr.Alike spellings) args
      (Expr.renameArgs x y mark args) := by
  cases args with
  | nil => exact .nil
  | cons arg args =>
      cases hNoted with
      | cons hArg hArgs =>
          exact
            .cons (arg.alike_rename hMarks hLength hArg hAvoids.1)
              (Expr.alike_renameArgs args hMarks hLength hArgs
                hAvoids.2)

end

mutual

/-
  A renamed statement is alike to the one that it was, if no
  function has the name of the declaration.
-/
theorem Stmt.alike_rename
    (s : Stmt)
    {mark : Option Nat}
    {spellings : List Spelling}
    {scopes next : List Scope}
    {notes : Notes}
    (hMarks : Marks x y mark spellings)
    (hLength : spellings.length = scopes.length)
    (hNoted : s.Noted scopes notes next)
    (hAvoids : s.Avoids y)
    (hLacks : mark = some 0 → s.LacksFunction x) :
    s.Alike spellings (s.rename x y mark) := by
  cases s with
  | expression value =>
      cases hNoted with
      | expression hValue =>
          exact
            .expression
              (value.alike_rename hMarks hLength hValue hAvoids)
  | print value =>
      cases hNoted with
      | print hValue =>
          exact
            .print (value.alike_rename hMarks hLength hValue hAvoids)
  | var name initializer =>
      cases initializer with
      | none => exact .plain (hMarks.lexeme_declared hAvoids)
      | some value =>
          cases hNoted with
          | initialized hNew hValue =>
              have hPending :
                  spellings.length =
                    (enterScope scopes name.lexeme false).length := by
                rw [length_enterScope]
                exact hLength
              exact
                .initialized (hMarks.lexeme_declared hAvoids.1)
                  (value.alike_rename hMarks hPending hValue
                    hAvoids.2)
  | block body =>
      cases hNoted with
      | block hBody =>
          apply Stmt.Alike.block
          apply
            Stmt.alike_renameBody body hMarks.inner _ hBody hAvoids
          · intro hZero
            exact absurd hZero (deeper_ne_zero 0 mark)
          · exact congrArg (· + 1) hLength
  | ifThen condition thenBranch =>
      cases hNoted with
      | ifThen hCondition hThen =>
          exact
            .ifThen
              (condition.alike_rename hMarks hLength hCondition
                hAvoids.1)
              (thenBranch.alike_rename hMarks hLength hThen hAvoids.2
                hLacks)
  | ifElse condition thenBranch elseBranch =>
      cases hNoted with
      | ifElse hCondition hThen hElse =>
          exact
            .ifElse
              (condition.alike_rename hMarks hLength hCondition
                hAvoids.1)
              (thenBranch.alike_rename hMarks hLength hThen
                hAvoids.2.1 fun hZero => (hLacks hZero).1)
              (elseBranch.alike_rename hMarks hLength hElse
                hAvoids.2.2 fun hZero => (hLacks hZero).2)
  | loop condition body =>
      cases hNoted with
      | loop hCondition hBody =>
          exact
            .loop
              (condition.alike_rename hMarks hLength hCondition
                hAvoids.1)
              (body.alike_rename hMarks hLength hBody hAvoids.2
                hLacks)
  | function name params body =>
      cases hNoted with
      | function hNew hParams hBody =>
          have hName :=
            hMarks.headSpelling_of_ne hLacks hAvoids.1
          apply Stmt.Alike.function hName (map_lexeme _)
          apply Stmt.alike_renameBody body hMarks.deeper_two _ hBody
            hAvoids.2.2
          · intro hZero
            exact absurd hZero (deeper_ne_zero 1 mark)
          · simp [hLength]
  | ret keyword value =>
      cases value with
      | none => exact .plainRet
      | some value =>
          cases hNoted with
          | ret hValue =>
              exact
                .ret
                  (value.alike_rename hMarks hLength hValue hAvoids)

theorem Stmt.alike_renameBody
    (body : List Stmt)
    {mark : Option Nat}
    {spellings : List Spelling}
    {scopes : List Scope}
    {notes : List Notes}
    (hMarks : Marks x y mark spellings)
    (hLength : spellings.length = scopes.length)
    (hNoted : Stmt.BodyNoted scopes body notes)
    (hAvoids : Stmt.AvoidsBody y body)
    (hLacks :
      mark = some 0 → ∀ stmt ∈ body, stmt.LacksFunction x) :
    Stmt.BodyAlike spellings body
      (Stmt.renameBody x y mark body) := by
  cases body with
  | nil => exact .nil
  | cons stmt body =>
      cases hNoted with
      | cons hFirst hRest =>
          apply Stmt.BodyAlike.cons
          · apply stmt.alike_rename hMarks hLength hFirst hAvoids.1
            exact fun hZero => hLacks hZero stmt (by simp)
          · apply Stmt.alike_renameBody body hMarks _ hRest hAvoids.2
            · intro hZero other hMem
              exact hLacks hZero other (List.mem_cons_of_mem _ hMem)
            · rw [hFirst.length_next]
              exact hLength

end

/- Without a mark, a tree is alike to itself. -/
theorem Expr.alike_refl
    {e : Expr}
    {scopes : List Scope}
    {notes : Notes}
    (hMarks : Marks x y none spellings)
    (hLength : spellings.length = scopes.length)
    (hNoted : e.Noted scopes notes)
    (hAvoids : e.Avoids y) :
    e.Alike spellings e := by
  have hSame := e.alike_rename hMarks hLength hNoted hAvoids
  rwa [e.rename_none] at hSame

theorem Stmt.alike_refl
    {s : Stmt}
    {scopes next : List Scope}
    {notes : Notes}
    (hMarks : Marks x y none spellings)
    (hLength : spellings.length = scopes.length)
    (hNoted : s.Noted scopes notes next)
    (hAvoids : s.Avoids y) :
    s.Alike spellings s := by
  have hSame :=
    s.alike_rename hMarks hLength hNoted hAvoids nofun
  rwa [s.rename_none] at hSame

theorem Stmt.alikeBody_refl
    {body : List Stmt}
    {scopes : List Scope}
    {notes : List Notes}
    (hMarks : Marks x y none spellings)
    (hLength : spellings.length = scopes.length)
    (hNoted : Stmt.BodyNoted scopes body notes)
    (hAvoids : Stmt.AvoidsBody y body) :
    Stmt.BodyAlike spellings body body := by
  have hSame :=
    Stmt.alike_renameBody body hMarks hLength hNoted hAvoids nofun
  rwa [Stmt.renameBody_none] at hSame

mutual

/- A declaration may be renamed anywhere in a statement. -/
theorem Stmt.RenamesLocal.alike
    {s renamed : Stmt}
    {spellings : List Spelling}
    {scopes next : List Scope}
    {notes : Notes}
    (hRenames : s.RenamesLocal x y renamed)
    (hMarks : Marks x y none spellings)
    (hLength : spellings.length = scopes.length)
    (hNoted : s.Noted scopes notes next)
    (hAvoids : s.Avoids y) :
    s.Alike spellings renamed := by
  have hInner (scope : Scope) (spelling : Spelling) :
      (spelling :: spellings).length =
        (scope :: scopes).length :=
    congrArg (· + 1) hLength
  cases hRenames with
  | blockVar hVar =>
      cases hNoted with
      | block hBody =>
          exact
            .block
              (Stmt.alike_renameBody _ hMarks.here (hInner _ _) hBody
                hAvoids fun _ => hBody.lacksFunction hVar)
  | functionVar hVar =>
      cases hNoted with
      | function hNew hParams hBody =>
          have hName := hMarks.headSpelling_of_ne nofun hAvoids.1
          apply Stmt.Alike.function hName (map_lexeme _)
          apply Stmt.alike_renameBody _ hMarks.inner.here _ hBody
            hAvoids.2.2
          · exact fun _ => hBody.lacksFunction hVar
          · simp [hLength]
  | parameter hParam =>
      cases hNoted with
      | function hNew hParams hBody =>
          have hName := hMarks.headSpelling_of_ne nofun hAvoids.1
          apply Stmt.Alike.function hName (map_rename hAvoids.2.1)
          apply Stmt.alike_renameBody _ hMarks.here.inner _ hBody
            hAvoids.2.2 nofun
          simp [hLength]
  | block hBody =>
      cases hNoted with
      | block hOld =>
          exact
            .block
              (hBody.alike hMarks.inner (hInner _ _) hOld hAvoids)
  | function hBody =>
      cases hNoted with
      | function hNew hParams hOld =>
          have hName := hMarks.headSpelling_of_ne nofun hAvoids.1
          apply Stmt.Alike.function hName (map_lexeme _)
          apply hBody.alike hMarks.inner.inner _ hOld hAvoids.2.2
          simp [hLength]
  | ifThen hThen =>
      cases hNoted with
      | ifThen hCondition hOld =>
          exact
            .ifThen
              (Expr.alike_refl hMarks hLength hCondition hAvoids.1)
              (hThen.alike hMarks hLength hOld hAvoids.2)
  | ifElseThen hThen =>
      cases hNoted with
      | ifElse hCondition hOld hElse =>
          exact
            .ifElse
              (Expr.alike_refl hMarks hLength hCondition hAvoids.1)
              (hThen.alike hMarks hLength hOld hAvoids.2.1)
              (Stmt.alike_refl hMarks hLength hElse hAvoids.2.2)
  | ifElseElse hElse =>
      cases hNoted with
      | ifElse hCondition hThen hOld =>
          exact
            .ifElse
              (Expr.alike_refl hMarks hLength hCondition hAvoids.1)
              (Stmt.alike_refl hMarks hLength hThen hAvoids.2.1)
              (hElse.alike hMarks hLength hOld hAvoids.2.2)
  | loop hBody =>
      cases hNoted with
      | loop hCondition hOld =>
          exact
            .loop
              (Expr.alike_refl hMarks hLength hCondition hAvoids.1)
              (hBody.alike hMarks hLength hOld hAvoids.2)

theorem Stmt.RenamesLocalIn.alike
    {body renamed : List Stmt}
    {spellings : List Spelling}
    {scopes : List Scope}
    {notes : List Notes}
    (hRenames : RenamesLocalIn x y body renamed)
    (hMarks : Marks x y none spellings)
    (hLength : spellings.length = scopes.length)
    (hNoted : BodyNoted scopes body notes)
    (hAvoids : AvoidsBody y body) :
    BodyAlike spellings body renamed := by
  cases hRenames with
  | here hStmt =>
      cases hNoted with
      | cons hOld hRest =>
          apply BodyAlike.cons
          · exact hStmt.alike hMarks hLength hOld hAvoids.1
          · apply Stmt.alikeBody_refl hMarks _ hRest hAvoids.2
            rw [hOld.length_next]
            exact hLength
  | later hBody =>
      cases hNoted with
      | cons hFirst hOld =>
          apply BodyAlike.cons
          · exact Stmt.alike_refl hMarks hLength hFirst hAvoids.1
          · apply hBody.alike hMarks _ hOld hAvoids.2
            rw [hFirst.length_next]
            exact hLength

end

end Lox
