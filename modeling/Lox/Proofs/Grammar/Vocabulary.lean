import Lox.Proofs.Scope.Bare
import Lox.Proofs.Token.Joining

/-
  Which words stand where in a tree.

  A vocabulary says which tokens may be the operators, the
  names and the other words of a tree, and which constants may
  stand in it. A tree is formed in a vocabulary if all its
  words are, each in its own place.

  Key definitions include:
    * `Vocabulary`
    * `Vocabulary.of`
    * `Expr.Formed`
    * `Stmt.Formed`
    * `Token.CarriesValue`
-/

------------------------------------------------------------
-- Vocabularies
------------------------------------------------------------

namespace Lox

/-
  The tokens that may stand as the operator of one operand or
  of two, as the one that joins two conditions, as the name of
  a variable, a parameter or a function, as the parenthesis of
  a call and as the keyword of a `return`; and the constants.
-/
structure Vocabulary where
  sign : Token → Prop
  operator : Token → Prop
  connective : Token → Prop
  name : Token → Prop
  paren : Token → Prop
  keyword : Token → Prop
  constant : Literal → Prop

/- The kinds of the operators of two operands. -/
def Kind.binaries : List Kind :=
  [ equalEqual, bangEqual, greater, greaterEqual, less,
    lessEqual, minus, plus, star, slash ]

/-
  The constants that are written by some tokens: those of the
  words `nil`, `true` and `false`, and the values of numbers
  and strings.
-/
inductive Literal.Written (T : Token → Prop) : Literal → Prop where
  | nil : Written T .nil
  | bool
      (value : Bool) :
      Written T (.bool value)
  | number
      {t : Token} {x : Float}
      (hToken : T t)
      (hKind : t.kind = .number)
      (hValue : t.literal = .number x) :
      Written T (.number x)
  | string
      {t : Token} {text : String}
      (hToken : T t)
      (hKind : t.kind = .string)
      (hValue : t.literal = .string text) :
      Written T (.string text)

/- Some tokens, each where words of its kind may stand. -/
def Vocabulary.of (T : Token → Prop) : Vocabulary :=
  { sign := fun t => T t ∧ (t.kind = .bang ∨ t.kind = .minus)
    operator := fun t => T t ∧ t.kind ∈ Kind.binaries
    connective := fun t => T t ∧ (t.kind = .andKw ∨ t.kind = .orKw)
    name := fun t => T t ∧ t.kind = .identifier
    paren := fun t => T t ∧ t.kind = .rightParen
    keyword := fun t => T t ∧ t.kind = .returnKw
    constant := Literal.Written T }

end Lox

------------------------------------------------------------
-- Formed Trees
------------------------------------------------------------

namespace Lox

mutual

/- Whether all words of an expression are where they may be. -/
def Expr.Formed (V : Vocabulary) : Expr → Prop
  | .literal value => V.constant value
  | .variable name _ => V.name name
  | .assign name value _ => V.name name ∧ value.Formed V
  | .binary left op right =>
      left.Formed V ∧ V.operator op ∧ right.Formed V
  | .logical left op right =>
      left.Formed V ∧ V.connective op ∧ right.Formed V
  | .unary op operand => V.sign op ∧ operand.Formed V
  | .grouping inner => inner.Formed V
  | .call callee paren args =>
      callee.Formed V ∧ V.paren paren ∧ Expr.ArgsFormed V args

def Expr.ArgsFormed (V : Vocabulary) : List Expr → Prop
  | [] => True
  | arg :: args => arg.Formed V ∧ Expr.ArgsFormed V args

end

mutual

/- Whether all words of a statement are where they may be. -/
def Stmt.Formed (V : Vocabulary) : Stmt → Prop
  | .expression value => value.Formed V
  | .print value => value.Formed V
  | .var name none => V.name name
  | .var name (some value) => V.name name ∧ value.Formed V
  | .block body => Stmt.BodyFormed V body
  | .ifThen condition thenBranch =>
      condition.Formed V ∧ thenBranch.Formed V
  | .ifElse condition thenBranch elseBranch =>
      condition.Formed V ∧ thenBranch.Formed V ∧
        elseBranch.Formed V
  | .loop condition body => condition.Formed V ∧ body.Formed V
  | .function name params body =>
      V.name name ∧ (∀ param ∈ params, V.name param) ∧
        Stmt.BodyFormed V body
  | .ret keyword none => V.keyword keyword
  | .ret keyword (some value) =>
      V.keyword keyword ∧ value.Formed V

def Stmt.BodyFormed (V : Vocabulary) : List Stmt → Prop
  | [] => True
  | stmt :: body => stmt.Formed V ∧ Stmt.BodyFormed V body

end

variable {V : Vocabulary}

theorem Expr.argsFormed_iff
    {args : List Expr} :
    Expr.ArgsFormed V args ↔ ∀ arg ∈ args, arg.Formed V := by
  induction args with
  | nil => simp [Expr.ArgsFormed]
  | cons arg args ih => simp [Expr.ArgsFormed, ih]

theorem Stmt.bodyFormed_iff
    {body : List Stmt} :
    Stmt.BodyFormed V body ↔ ∀ stmt ∈ body, stmt.Formed V := by
  induction body with
  | nil => simp [Stmt.BodyFormed]
  | cons stmt body ih => simp [Stmt.BodyFormed, ih]

mutual

/- The numbers of scopes are no words. -/
theorem Expr.formed_bare (e : Expr) :
    e.bare.Formed V ↔ e.Formed V := by
  cases e with
  | literal value => exact .rfl
  | «variable» name hops => exact .rfl
  | assign name value hops =>
      exact and_congr .rfl (Expr.formed_bare value)
  | binary left op right =>
      exact
        and_congr (Expr.formed_bare left)
          (and_congr .rfl (Expr.formed_bare right))
  | logical left op right =>
      exact
        and_congr (Expr.formed_bare left)
          (and_congr .rfl (Expr.formed_bare right))
  | unary op operand =>
      exact and_congr .rfl (Expr.formed_bare operand)
  | grouping inner => exact Expr.formed_bare inner
  | call callee paren args =>
      exact
        and_congr (Expr.formed_bare callee)
          (and_congr .rfl (Expr.argsFormed_bare args))

theorem Expr.argsFormed_bare (args : List Expr) :
    Expr.ArgsFormed V (Expr.bareArgs args) ↔
      Expr.ArgsFormed V args := by
  cases args with
  | nil => exact .rfl
  | cons arg args =>
      exact
        and_congr (Expr.formed_bare arg) (Expr.argsFormed_bare args)

end

mutual

theorem Stmt.formed_bare (s : Stmt) :
    s.bare.Formed V ↔ s.Formed V := by
  cases s with
  | expression value => exact value.formed_bare
  | print value => exact value.formed_bare
  | var name initializer =>
      cases initializer with
      | none => exact .rfl
      | some value => exact and_congr .rfl value.formed_bare
  | block body => exact Stmt.bodyFormed_bare body
  | ifThen condition thenBranch =>
      exact
        and_congr condition.formed_bare
          (Stmt.formed_bare thenBranch)
  | ifElse condition thenBranch elseBranch =>
      exact
        and_congr condition.formed_bare
          (and_congr (Stmt.formed_bare thenBranch)
            (Stmt.formed_bare elseBranch))
  | loop condition body =>
      exact and_congr condition.formed_bare (Stmt.formed_bare body)
  | function name params body =>
      exact
        and_congr .rfl (and_congr .rfl (Stmt.bodyFormed_bare body))
  | ret keyword value =>
      cases value with
      | none => exact .rfl
      | some value => exact and_congr .rfl value.formed_bare

theorem Stmt.bodyFormed_bare (body : List Stmt) :
    Stmt.BodyFormed V (Stmt.bareBody body) ↔
      Stmt.BodyFormed V body := by
  cases body with
  | nil => exact .rfl
  | cons stmt body =>
      exact
        and_congr (Stmt.formed_bare stmt) (Stmt.bodyFormed_bare body)

end

/- All tokens and constants, in any place. -/
def Vocabulary.any : Vocabulary :=
  { sign := fun _ => True
    operator := fun _ => True
    connective := fun _ => True
    name := fun _ => True
    paren := fun _ => True
    keyword := fun _ => True
    constant := fun _ => True }

mutual

theorem Expr.formed_any (e : Expr) : e.Formed .any := by
  cases e with
  | literal | «variable» => exact trivial
  | assign name value hops => exact ⟨trivial, value.formed_any⟩
  | binary left op right | logical left op right =>
      exact ⟨left.formed_any, trivial, right.formed_any⟩
  | unary op operand => exact ⟨trivial, operand.formed_any⟩
  | grouping inner => exact inner.formed_any
  | call callee paren args =>
      exact
        ⟨callee.formed_any, trivial, Expr.argsFormed_any args⟩

theorem Expr.argsFormed_any (args : List Expr) :
    Expr.ArgsFormed .any args := by
  cases args with
  | nil => exact trivial
  | cons arg args =>
      exact ⟨arg.formed_any, Expr.argsFormed_any args⟩

end

mutual

theorem Stmt.formed_any (s : Stmt) : s.Formed .any := by
  cases s with
  | expression value | print value => exact value.formed_any
  | var name initializer =>
      cases initializer with
      | none => exact trivial
      | some value => exact ⟨trivial, value.formed_any⟩
  | block body => exact Stmt.bodyFormed_any body
  | ifThen condition thenBranch =>
      exact ⟨condition.formed_any, thenBranch.formed_any⟩
  | ifElse condition thenBranch elseBranch =>
      exact
        ⟨condition.formed_any, thenBranch.formed_any,
          elseBranch.formed_any⟩
  | loop condition body =>
      exact ⟨condition.formed_any, body.formed_any⟩
  | function name params body =>
      exact
        ⟨trivial, fun _ _ => trivial, Stmt.bodyFormed_any body⟩
  | ret keyword value =>
      cases value with
      | none => exact trivial
      | some value => exact ⟨trivial, value.formed_any⟩

theorem Stmt.bodyFormed_any (body : List Stmt) :
    Stmt.BodyFormed .any body := by
  cases body with
  | nil => exact trivial
  | cons stmt body =>
      exact ⟨stmt.formed_any, Stmt.bodyFormed_any body⟩

end

/- A program has the same words once it is resolved. -/
theorem Stmt.bodyFormed_of_resolve
    {program : List Stmt}
    {resolved : Resolved}
    (hResolve : resolveProgram program = .ok resolved)
    (hProgram : Stmt.BodyFormed V program) :
    Stmt.BodyFormed V resolved.program := by
  rw [← Stmt.bodyFormed_bare, bare_of_resolveProgram hResolve,
    Stmt.bodyFormed_bare]
  exact hProgram

end Lox

------------------------------------------------------------
-- Values Of Tokens
------------------------------------------------------------

namespace Lox

/- A number has a number for its value, a string a text. -/
structure Token.CarriesValue (t : Token) : Prop where
  number : t.kind = .number → ∃ x, t.literal = .number x
  string : t.kind = .string → ∃ text, t.literal = .string text

/- What a word is spelled as is the value of its kind. -/
theorem Token.IsWord.carriesValue
    {t : Token}
    (hWord : t.IsWord) :
    t.CarriesValue := by
  have hWords :
      ∀ entry ∈ Kind.keywords,
        entry.2 ≠ .number ∧ entry.2 ≠ .string := by
    decide
  have hMarks :
      ∀ entry ∈ Kind.operators,
        entry.2 ≠ .number ∧ entry.2 ≠ .string := by
    decide
  have hOther :
      t.kind ≠ .number ∧ t.kind ≠ .string → t.CarriesValue :=
    fun hKind =>
      ⟨fun hNumber => absurd hNumber hKind.1,
        fun hString => absurd hString hKind.2⟩
  unfold Token.IsWord at hWord
  generalize hPiece : Piece.token t.kind t.literal = piece at hWord
  generalize t.lexeme.toList = spelling at hWord
  cases hWord with
  | space | newline | comment => cases hPiece
  | string _ =>
      rcases Piece.token.inj hPiece with ⟨hKind, hValue⟩
      refine ⟨?_, fun _ => ⟨_, hValue⟩⟩
      intro hNumber
      rw [hKind] at hNumber
      cases hNumber
  | integer _ | fraction _ _ =>
      rcases Piece.token.inj hPiece with ⟨hKind, hValue⟩
      refine ⟨fun _ => ⟨_, hValue⟩, ?_⟩
      intro hString
      rw [hKind] at hString
      cases hString
  | keyword hKeyword =>
      apply hOther
      rw [(Piece.token.inj hPiece).1]
      exact hWords _ hKeyword
  | operator hOperator =>
      apply hOther
      rw [(Piece.token.inj hPiece).1]
      exact hMarks _ hOperator
  | identifier _ _ _ =>
      apply hOther
      rw [(Piece.token.inj hPiece).1]
      decide

/- Every token of a text has the value of its kind. -/
theorem carriesValue_of_mem
    {text : String}
    {t : Token}
    (hMem : t ∈ (tokenize text).tokens) :
    t.CarriesValue := by
  rw [tokens_eq] at hMem
  rcases List.mem_append.mp hMem with hWord | hLast
  · exact (isWord_of_mem hWord).carriesValue
  · rw [List.mem_singleton.mp hLast]
    refine ⟨?_, ?_⟩ <;> exact fun hKind => by cases hKind

end Lox
