import Lox.Program.Basic
import Lox.Decimal.Notation
import Lox.Text.Quoted

/-
  Programs as labelled trees, and the indented text of them.

  Every line of the text shows a label or a leaf after its
  indentation. A node whose only child is a leaf shows it on
  its own line, after a tab.

  Key definitions include:
    * `Literal.text`
    * `Outline`
    * `Expr.outline`
    * `Stmt.outline`
    * `Outline.linesOnto`
    * `Outline.pretty`
-/

------------------------------------------------------------
-- Texts Of Constants
------------------------------------------------------------

namespace Lox

/- The text of a constant in an outline. -/
def Literal.text : Literal → String
  | .nil => "nil"
  | .bool true => "true"
  | .bool false => "false"
  | .number value => Decimal.text value
  | .string value => Text.quoted value

end Lox

------------------------------------------------------------
-- Labelled Trees
------------------------------------------------------------

namespace Lox

/-
  A tree with labelled nodes, whose leaves are tokens and the
  texts of constants.
-/
inductive Outline where
  | node (label : String) (children : List Outline)
  | token (token : Token)
  | value (text : String)
deriving Repr, Inhabited

mutual

/- The outline of an expression. -/
def Expr.outline : Expr → Outline
  | .literal value => .node "literal" [.value value.text]
  | .variable name _ => .node "variable" [.token name]
  | .assign name value _ =>
      .node "assign" [.token name, value.outline]
  | .binary left op right =>
      .node "binary" [left.outline, .token op, right.outline]
  | .logical left op right =>
      .node "logical" [left.outline, .token op, right.outline]
  | .unary op operand =>
      .node "unary" [.token op, operand.outline]
  | .grouping inner => .node "grouping" [inner.outline]
  | .call callee _ args =>
      .node "call"
        [callee.outline, .node "args" (Expr.outlines args)]

def Expr.outlines : List Expr → List Outline
  | [] => []
  | arg :: args => arg.outline :: Expr.outlines args

end

mutual

/- The outline of a statement. -/
def Stmt.outline : Stmt → Outline
  | .expression value => .node "exprstmt" [value.outline]
  | .print value => .node "printstmt" [value.outline]
  | .var name none => .node "vardecl" [.token name]
  | .var name (some value) =>
      .node "vardecl" [.token name, value.outline]
  | .block body => .node "block" (Stmt.outlines body)
  | .ifThen condition thenBranch =>
      .node "ifstmt" [condition.outline, thenBranch.outline]
  | .ifElse condition thenBranch elseBranch =>
      .node "ifstmt"
        [condition.outline, thenBranch.outline,
          elseBranch.outline]
  | .loop condition body =>
      .node "whilestmt" [condition.outline, body.outline]
  | .function name params body =>
      .node "fundecl"
        [.token name, .node "params" (params.map .token),
          .node "body" (Stmt.outlines body)]
  | .ret _ none => .node "returnstmt" []
  | .ret _ (some value) =>
      .node "returnstmt" [value.outline]

def Stmt.outlines : List Stmt → List Outline
  | [] => []
  | stmt :: body => stmt.outline :: Stmt.outlines body

end

/- The outline of a program. -/
def Outline.ofProgram (program : List Stmt) : Outline :=
  .node "program" (Stmt.outlines program)

end Lox

------------------------------------------------------------
-- Indented Text
------------------------------------------------------------

namespace Lox.Outline

/- A line of indented text. -/
structure Line where
  level : Nat
  text : String
deriving DecidableEq, Repr

mutual

/-
  The lines of a tree at a given level, put in front of other
  lines.
-/
def linesOnto (level : Nat) : Outline → List Line → List Line
  | .token t, lines => ⟨level, t.lexeme⟩ :: lines
  | .value text, lines => ⟨level, text⟩ :: lines
  | .node label [.token t], lines =>
      ⟨level, label ++ "\t" ++ t.lexeme⟩ :: lines
  | .node label [.value text], lines =>
      ⟨level, label ++ "\t" ++ text⟩ :: lines
  | .node label children, lines =>
      ⟨level, label⟩ :: childrenOnto (level + 1) children lines

def childrenOnto
    (level : Nat) :
    List Outline → List Line → List Line
  | [], lines => lines
  | child :: children, lines =>
      linesOnto level child (childrenOnto level children lines)

end

/- Writes a line after a text. -/
def writeLine
    (indent text : String)
    (line : Line) :
    String :=
  let margin := line.level.repeat (fun s => s ++ indent) text
  margin ++ line.text ++ "\n"

/- The indented text of a tree. -/
def pretty (indent : String) (outline : Outline) : String :=
  (linesOnto 0 outline []).foldl (writeLine indent) ""

end Lox.Outline

namespace Lox

/- The indented text of a program, as it is shown to users. -/
def prettyProgram (program : List Stmt) : String :=
  (Outline.ofProgram program).pretty "  "

end Lox
