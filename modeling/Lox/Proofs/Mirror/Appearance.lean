import Lox.Program.Outline
import Lox.Proofs.Mirror.Resolving
import Lox.Proofs.Mirror.Running

/-
  Programs that mirror each other look the same.

  A tree is shown by its labels and words, so trees that mirror
  each other are shown in the same way. Where each token stands
  for itself as well, every tree mirrors itself, and so does
  every machine.

  Key definitions include:
    * `Outline.worded`
    * `prettyProgram_mirrors`
    * `Mirror.IsReflexive`
    * `Machine.mirrors_self`
-/

------------------------------------------------------------
-- Trees That Are Shown
------------------------------------------------------------

namespace Lox

namespace Outline

mutual

/- An outline with the words of its tokens only. -/
def worded : Outline → Outline
  | .node label children => .node label (wordedAll children)
  | .token t => .value t.lexeme
  | .value text => .value text

def wordedAll : List Outline → List Outline
  | [] => []
  | child :: children => child.worded :: wordedAll children

end

/- Two children or more are shown on lines of their own. -/
theorem linesOnto_many
    (level : Nat)
    (label : String)
    (first second : Outline)
    (others : List Outline)
    (lines : List Line) :
    linesOnto level (.node label (first :: second :: others))
        lines =
      ⟨level, label⟩ ::
        childrenOnto (level + 1) (first :: second :: others)
          lines := by
  cases first <;> rfl

mutual

/- Only the words of an outline are shown. -/
theorem linesOnto_worded
    (level : Nat)
    (outline : Outline)
    (lines : List Line) :
    linesOnto level outline.worded lines =
      linesOnto level outline lines := by
  cases outline with
  | token t => rfl
  | value text => rfl
  | node label children =>
      have hChildren := childrenOnto_worded (level + 1) children lines
      -- A leaf that stands alone is shown on the line of its node.
      match children with
      | [] => rfl
      | [.token t] => rfl
      | [.value text] => rfl
      | [.node inner others] =>
          simp only [worded, wordedAll, linesOnto] at hChildren ⊢
          rw [hChildren]
      | first :: second :: others =>
          simp only [worded, wordedAll] at hChildren ⊢
          rw [linesOnto_many, linesOnto_many, hChildren]

theorem childrenOnto_worded
    (level : Nat)
    (children : List Outline)
    (lines : List Line) :
    childrenOnto level (wordedAll children) lines =
      childrenOnto level children lines := by
  cases children with
  | nil => rfl
  | cons child children =>
      rw [wordedAll, childrenOnto, childrenOnto,
        childrenOnto_worded, linesOnto_worded]

end

end Outline

mutual

theorem Expr.worded_outline
    {M : Mirror}
    (e : Expr)
    {e' : Expr}
    (hMirrors : e.Mirrors M e') :
    e'.outline.worded = e.outline.worded := by
  have hWord :
      ∀ {t t' : Token}, M.rel t t' → t'.lexeme = t.lexeme :=
    fun hRel => (M.sameWord hRel).lexeme
  cases e with
  | literal value =>
      cases hMirrors
      rfl
  | «variable» name hops =>
      cases hMirrors with
      | name hName =>
          simp [Expr.outline, Outline.worded, Outline.wordedAll,
            hWord hName]
  | assign name value hops =>
      cases hMirrors with
      | assign hName hValue =>
          simp [Expr.outline, Outline.worded, Outline.wordedAll,
            hWord hName, value.worded_outline hValue]
  | binary left op right =>
      cases hMirrors with
      | binary hLeft hOp hRight =>
          simp [Expr.outline, Outline.worded, Outline.wordedAll,
            hWord hOp, left.worded_outline hLeft,
            right.worded_outline hRight]
  | logical left op right =>
      cases hMirrors with
      | logical hLeft hOp hRight =>
          simp [Expr.outline, Outline.worded, Outline.wordedAll,
            hWord hOp, left.worded_outline hLeft,
            right.worded_outline hRight]
  | unary op operand =>
      cases hMirrors with
      | unary hOp hOperand =>
          simp [Expr.outline, Outline.worded, Outline.wordedAll,
            hWord hOp, operand.worded_outline hOperand]
  | grouping inner =>
      cases hMirrors with
      | grouping hInner =>
          simp [Expr.outline, Outline.worded, Outline.wordedAll,
            inner.worded_outline hInner]
  | call callee paren args =>
      cases hMirrors with
      | call hCallee hParen hArgs =>
          simp [Expr.outline, Outline.worded, Outline.wordedAll,
            callee.worded_outline hCallee,
            Expr.worded_outlines args hArgs]

theorem Expr.worded_outlines
    {M : Mirror}
    (args : List Expr)
    {args' : List Expr}
    (hMirrors : List.Forall₂ (Expr.Mirrors M) args args') :
    Outline.wordedAll (Expr.outlines args') =
      Outline.wordedAll (Expr.outlines args) := by
  cases args with
  | nil =>
      cases hMirrors
      rfl
  | cons arg args =>
      cases hMirrors with
      | cons hArg hArgs =>
          simp [Expr.outlines, Outline.wordedAll,
            arg.worded_outline hArg,
            Expr.worded_outlines args hArgs]

end

theorem Outline.worded_params
    {M : Mirror}
    {params params' : List Token}
    (hParams : List.Forall₂ M.rel params params') :
    wordedAll (params'.map .token) =
      wordedAll (params.map .token) := by
  induction hParams with
  | nil => rfl
  | cons hParam _ ih =>
      simp [wordedAll, worded, (M.sameWord hParam).lexeme, ih]

mutual

theorem Stmt.worded_outline
    {M : Mirror}
    (s : Stmt)
    {s' : Stmt}
    (hMirrors : s.Mirrors M s') :
    s'.outline.worded = s.outline.worded := by
  have hWord :
      ∀ {t t' : Token}, M.rel t t' → t'.lexeme = t.lexeme :=
    fun hRel => (M.sameWord hRel).lexeme
  cases s with
  | expression value =>
      cases hMirrors with
      | expression hValue =>
          simp [Stmt.outline, Outline.worded, Outline.wordedAll,
            value.worded_outline hValue]
  | print value =>
      cases hMirrors with
      | print hValue =>
          simp [Stmt.outline, Outline.worded, Outline.wordedAll,
            value.worded_outline hValue]
  | var name initializer =>
      cases hMirrors with
      | var hName hInitializer =>
          cases hInitializer with
          | none =>
              simp [Stmt.outline, Outline.worded,
                Outline.wordedAll, hWord hName]
          | @some value _ hValue =>
              simp [Stmt.outline, Outline.worded,
                Outline.wordedAll, hWord hName,
                value.worded_outline hValue]
  | block body =>
      cases hMirrors with
      | block hBody =>
          simp [Stmt.outline, Outline.worded,
            Stmt.worded_outlines body hBody]
  | ifThen condition thenBranch =>
      cases hMirrors with
      | ifThen hCondition hThen =>
          simp [Stmt.outline, Outline.worded, Outline.wordedAll,
            condition.worded_outline hCondition,
            thenBranch.worded_outline hThen]
  | ifElse condition thenBranch elseBranch =>
      cases hMirrors with
      | ifElse hCondition hThen hElse =>
          simp [Stmt.outline, Outline.worded, Outline.wordedAll,
            condition.worded_outline hCondition,
            thenBranch.worded_outline hThen,
            elseBranch.worded_outline hElse]
  | loop condition body =>
      cases hMirrors with
      | loop hCondition hBody =>
          simp [Stmt.outline, Outline.worded, Outline.wordedAll,
            condition.worded_outline hCondition,
            body.worded_outline hBody]
  | function name params body =>
      cases hMirrors with
      | function hName hParams hBody =>
          simp [Stmt.outline, Outline.worded, Outline.wordedAll,
            hWord hName, Outline.worded_params hParams,
            Stmt.worded_outlines body hBody]
  | ret keyword value =>
      cases hMirrors with
      | ret hKeyword hValue =>
          cases hValue with
          | none => rfl
          | @some value _ hValue =>
              simp [Stmt.outline, Outline.worded,
                Outline.wordedAll, value.worded_outline hValue]

theorem Stmt.worded_outlines
    {M : Mirror}
    (body : List Stmt)
    {body' : List Stmt}
    (hMirrors : List.Forall₂ (Stmt.Mirrors M) body body') :
    Outline.wordedAll (Stmt.outlines body') =
      Outline.wordedAll (Stmt.outlines body) := by
  cases body with
  | nil =>
      cases hMirrors
      rfl
  | cons stmt body =>
      cases hMirrors with
      | cons hStmt hBody =>
          simp [Stmt.outlines, Outline.wordedAll,
            stmt.worded_outline hStmt,
            Stmt.worded_outlines body hBody]

end

/- Programs that mirror each other are shown in the same way. -/
theorem prettyProgram_mirrors
    {M : Mirror}
    {program program' : List Stmt}
    (hMirrors : List.Forall₂ (Stmt.Mirrors M) program program') :
    prettyProgram program' = prettyProgram program := by
  have hWorded :
      (Outline.ofProgram program').worded =
        (Outline.ofProgram program).worded := by
    unfold Outline.ofProgram
    rw [Outline.worded, Outline.worded,
      Stmt.worded_outlines program hMirrors]
  unfold prettyProgram Outline.pretty
  rw [← Outline.linesOnto_worded, hWorded,
    Outline.linesOnto_worded]

end Lox

------------------------------------------------------------
-- What Mirrors Itself
------------------------------------------------------------

namespace Lox

/- Each token stands for itself, among others perhaps. -/
def Mirror.IsReflexive (M : Mirror) : Prop :=
  ∀ t, M.rel t t

variable {M : Mirror}

mutual

theorem Expr.mirrors_self
    (hSelf : M.IsReflexive)
    (e : Expr) :
    e.Mirrors M e := by
  cases e with
  | literal value => exact .literal value
  | «variable» name hops => exact .name (hSelf name)
  | assign name value hops =>
      exact .assign (hSelf name) (value.mirrors_self hSelf)
  | binary left op right =>
      exact
        .binary (left.mirrors_self hSelf) (hSelf op)
          (right.mirrors_self hSelf)
  | logical left op right =>
      exact
        .logical (left.mirrors_self hSelf) (hSelf op)
          (right.mirrors_self hSelf)
  | unary op operand =>
      exact .unary (hSelf op) (operand.mirrors_self hSelf)
  | grouping inner => exact .grouping (inner.mirrors_self hSelf)
  | call callee paren args =>
      exact
        .call (callee.mirrors_self hSelf) (hSelf paren)
          (Expr.argsMirror_self hSelf args)

theorem Expr.argsMirror_self
    (hSelf : M.IsReflexive)
    (args : List Expr) :
    List.Forall₂ (Expr.Mirrors M) args args := by
  cases args with
  | nil => exact .nil
  | cons arg args =>
      exact
        .cons (arg.mirrors_self hSelf)
          (Expr.argsMirror_self hSelf args)

end

theorem Expr.optionMirrors_self
    (hSelf : M.IsReflexive)
    (value : Option Expr) :
    Option.Rel (Expr.Mirrors M) value value := by
  cases value with
  | none => exact .none
  | some value => exact .some (value.mirrors_self hSelf)

mutual

theorem Stmt.mirrors_self
    (hSelf : M.IsReflexive)
    (s : Stmt) :
    s.Mirrors M s := by
  cases s with
  | expression value => exact .expression (value.mirrors_self hSelf)
  | print value => exact .print (value.mirrors_self hSelf)
  | var name initializer =>
      exact .var (hSelf name) (Expr.optionMirrors_self hSelf initializer)
  | block body => exact .block (Stmt.bodyMirrors_self hSelf body)
  | ifThen condition thenBranch =>
      exact
        .ifThen (condition.mirrors_self hSelf)
          (thenBranch.mirrors_self hSelf)
  | ifElse condition thenBranch elseBranch =>
      exact
        .ifElse (condition.mirrors_self hSelf)
          (thenBranch.mirrors_self hSelf)
          (elseBranch.mirrors_self hSelf)
  | loop condition body =>
      exact
        .loop (condition.mirrors_self hSelf)
          (body.mirrors_self hSelf)
  | function name params body =>
      exact
        .function (hSelf name)
          (List.forall₂_same.mpr fun param _ => hSelf param)
          (Stmt.bodyMirrors_self hSelf body)
  | ret keyword value =>
      exact .ret (hSelf keyword) (Expr.optionMirrors_self hSelf value)

theorem Stmt.bodyMirrors_self
    (hSelf : M.IsReflexive)
    (body : List Stmt) :
    List.Forall₂ (Stmt.Mirrors M) body body := by
  cases body with
  | nil => exact .nil
  | cons stmt body =>
      exact
        .cons (stmt.mirrors_self hSelf)
          (Stmt.bodyMirrors_self hSelf body)

end

theorem Value.mirrors_self
    (hSelf : M.IsReflexive)
    (value : Value) :
    value.Mirrors M value := by
  cases value with
  | nil => exact .nil
  | bool value => exact .bool value
  | number value => exact .number value
  | string value => exact .string value
  | function f =>
      exact
        .function
          ⟨rfl, rfl, rfl, Stmt.bodyMirrors_self hSelf f.body, rfl⟩
  | native f => exact .native f

theorem Machine.mirrors_self
    (hSelf : M.IsReflexive)
    (m : Machine) :
    m.Mirrors M [] m := by
  have hStore : m.store.Mirrors M m.store := by
    refine ⟨rfl, fun _ => rfl, ?_⟩
    intro env
    apply List.forall₂_same.mpr
    intro entry _
    exact ⟨rfl, entry.2.mirrors_self hSelf⟩
  exact ⟨hStore, rfl, rfl, rfl, rfl, rfl⟩

theorem RuntimeError.mirrors_self
    (hSelf : M.IsReflexive)
    (e : RuntimeError) :
    e.Mirrors M e := by
  refine ⟨rfl, ?_⟩
  cases e.token with
  | none => exact .none
  | some t => exact .some (hSelf t)

end Lox
