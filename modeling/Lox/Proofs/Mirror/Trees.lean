import Mathlib.Data.List.Forall2
import Mathlib.Data.Option.Basic
import Lox.Program.Basic

/-
  Trees that say the same in other places.

  A mirror relates tokens that are the same words, wherever
  they stand. It carries over to trees: two trees mirror each
  other if they have the same form, with the same numbers of
  scopes, and if the tokens in them are related.

  Key definitions include:
    * `Token.SameWord`
    * `Mirror`
    * `Expr.Mirrors`
    * `Stmt.Mirrors`
-/

------------------------------------------------------------
-- Tokens
------------------------------------------------------------

namespace Lox

/- Two tokens are the same word, perhaps in other places. -/
structure Token.SameWord (t t' : Token) : Prop where
  kind : t'.kind = t.kind
  lexeme : t'.lexeme = t.lexeme
  literal : t'.literal = t.literal

/- Which tokens of one text stand for which of another. -/
structure Mirror where
  rel : Token → Token → Prop
  sameWord : ∀ {t t' : Token}, rel t t' → t.SameWord t'

end Lox

------------------------------------------------------------
-- Trees
------------------------------------------------------------

namespace Lox

/- Expressions of the same form with related tokens. -/
inductive Expr.Mirrors (M : Mirror) : Expr → Expr → Prop where
  | literal
      (value : Literal) :
      Mirrors M (.literal value) (.literal value)
  | name
      {name name' : Token} {hops : Option Nat}
      (hName : M.rel name name') :
      Mirrors M (.variable name hops) (.variable name' hops)
  | assign
      {name name' : Token} {value value' : Expr}
      {hops : Option Nat}
      (hName : M.rel name name')
      (hValue : Mirrors M value value') :
      Mirrors M (.assign name value hops)
        (.assign name' value' hops)
  | binary
      {op op' : Token} {left left' right right' : Expr}
      (hLeft : Mirrors M left left')
      (hOp : M.rel op op')
      (hRight : Mirrors M right right') :
      Mirrors M (.binary left op right) (.binary left' op' right')
  | logical
      {op op' : Token} {left left' right right' : Expr}
      (hLeft : Mirrors M left left')
      (hOp : M.rel op op')
      (hRight : Mirrors M right right') :
      Mirrors M (.logical left op right)
        (.logical left' op' right')
  | unary
      {op op' : Token} {operand operand' : Expr}
      (hOp : M.rel op op')
      (hOperand : Mirrors M operand operand') :
      Mirrors M (.unary op operand) (.unary op' operand')
  | grouping
      {inner inner' : Expr}
      (hInner : Mirrors M inner inner') :
      Mirrors M (.grouping inner) (.grouping inner')
  | call
      {callee callee' : Expr} {paren paren' : Token}
      {args args' : List Expr}
      (hCallee : Mirrors M callee callee')
      (hParen : M.rel paren paren')
      (hArgs : List.Forall₂ (Mirrors M) args args') :
      Mirrors M (.call callee paren args)
        (.call callee' paren' args')

/- Statements of the same form with related tokens. -/
inductive Stmt.Mirrors (M : Mirror) : Stmt → Stmt → Prop where
  | expression
      {value value' : Expr}
      (hValue : value.Mirrors M value') :
      Mirrors M (.expression value) (.expression value')
  | print
      {value value' : Expr}
      (hValue : value.Mirrors M value') :
      Mirrors M (.print value) (.print value')
  | var
      {name name' : Token} {initializer initializer' : Option Expr}
      (hName : M.rel name name')
      (hInitializer :
        Option.Rel (Expr.Mirrors M) initializer initializer') :
      Mirrors M (.var name initializer) (.var name' initializer')
  | block
      {body body' : List Stmt}
      (hBody : List.Forall₂ (Mirrors M) body body') :
      Mirrors M (.block body) (.block body')
  | ifThen
      {condition condition' : Expr}
      {thenBranch thenBranch' : Stmt}
      (hCondition : condition.Mirrors M condition')
      (hThen : Mirrors M thenBranch thenBranch') :
      Mirrors M (.ifThen condition thenBranch)
        (.ifThen condition' thenBranch')
  | ifElse
      {condition condition' : Expr}
      {thenBranch thenBranch' elseBranch elseBranch' : Stmt}
      (hCondition : condition.Mirrors M condition')
      (hThen : Mirrors M thenBranch thenBranch')
      (hElse : Mirrors M elseBranch elseBranch') :
      Mirrors M (.ifElse condition thenBranch elseBranch)
        (.ifElse condition' thenBranch' elseBranch')
  | loop
      {condition condition' : Expr} {body body' : Stmt}
      (hCondition : condition.Mirrors M condition')
      (hBody : Mirrors M body body') :
      Mirrors M (.loop condition body) (.loop condition' body')
  | function
      {name name' : Token} {params params' : List Token}
      {body body' : List Stmt}
      (hName : M.rel name name')
      (hParams : List.Forall₂ M.rel params params')
      (hBody : List.Forall₂ (Mirrors M) body body') :
      Mirrors M (.function name params body)
        (.function name' params' body')
  | ret
      {keyword keyword' : Token} {value value' : Option Expr}
      (hKeyword : M.rel keyword keyword')
      (hValue : Option.Rel (Expr.Mirrors M) value value') :
      Mirrors M (.ret keyword value) (.ret keyword' value')

end Lox
