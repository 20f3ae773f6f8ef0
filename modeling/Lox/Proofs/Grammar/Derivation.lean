import Lox.Program.Basic

/-
  The grammar of programs, stated apart from the readers.

  A derivation relates a part of a program to the tokens that
  it is spelled with, in terms of kinds of tokens and of trees
  alone. Expressions are derived at ten levels;
  the rule of two operands has its own level on the left and
  the next one on the right, so that operators group to the
  left, while an assigned value is an assignment again. A
  statement is derived together with whether an `else` after
  it would belong to it.

  Key definitions include:
    * `Tier`
    * `Kind.tier?`
    * `Kind.continues`
    * `Expr.AtomDerives`
    * `Phrase.Derives`
    * `Commas`
    * `Clause.Derives`
-/

------------------------------------------------------------
-- Levels Of Expressions
------------------------------------------------------------

namespace Lox

/- The levels of expressions, from loosest to tightest. -/
inductive Tier where
  | assignment
  | disjunction
  | conjunction
  | equality
  | comparison
  | sum
  | product
  | unary
  | call
  | primary
deriving DecidableEq, Repr

namespace Tier

/- The row of a level in the table of precedence. -/
def rank : Tier → Nat
  | assignment => 1
  | disjunction => 2
  | conjunction => 3
  | equality => 4
  | comparison => 5
  | sum => 6
  | product => 7
  | unary => 8
  | call => 9
  | primary => 10

/- The level that follows in the table. -/
def tighter : Tier → Tier
  | assignment => disjunction
  | disjunction => conjunction
  | conjunction => equality
  | equality => comparison
  | comparison => sum
  | sum => product
  | product => unary
  | unary => call
  | call => primary
  | primary => primary

theorem rank_injective
    {tier other : Tier}
    (hRank : tier.rank = other.rank) :
    tier = other := by
  revert hRank
  cases tier <;> cases other <;> decide

theorem rank_tighter
    {tier : Tier}
    (hRank : tier.rank < primary.rank) :
    tier.tighter.rank = tier.rank + 1 := by
  revert hRank
  cases tier <;> decide

theorem rank_le_primary (tier : Tier) :
    tier.rank ≤ primary.rank := by
  cases tier <;> decide

/- What passes from each level to the one before it. -/
theorem descend
    {P : Tier → Prop}
    {tight : Tier}
    (hTight : P tight)
    (hStep : ∀ tier, P tier.tighter → P tier)
    (tier : Tier)
    (hRank : tier.rank ≤ tight.rank) :
    P tier := by
  rcases Nat.le.dest hRank with ⟨n, hRank⟩
  induction n generalizing tier with
  | zero => exact rank_injective hRank ▸ hTight
  | succ n ih =>
      have hLe := tight.rank_le_primary
      have hNext := @rank_tighter tier (by omega)
      exact hStep tier (ih tier.tighter (by omega) (by omega))

/- Whether the operators of the level have two operands. -/
def isInfix : Tier → Bool
  | assignment | unary | call | primary => false
  | _ => true

/- The node of an operator of the level. -/
def node : Tier → Expr → Token → Expr → Expr
  | disjunction | conjunction => .logical
  | _ => .binary

end Tier

/-
  The level at which a token of the kind carries on with an
  expression that stands before it.
-/
def Kind.tier? : Kind → Option Tier
  | .equal => some .assignment
  | .orKw => some .disjunction
  | .andKw => some .conjunction
  | .bangEqual | .equalEqual => some .equality
  | .greater | .greaterEqual | .less | .lessEqual =>
      some .comparison
  | .minus | .plus => some .sum
  | .slash | .star => some .product
  | .leftParen => some .call
  | _ => none

/-
  Whether a token of the kind carries on with an expression of
  the level.
-/
def Kind.continues (kind : Kind) (tier : Tier) : Bool :=
  kind.tier?.any fun t => tier.rank ≤ t.rank

end Lox

------------------------------------------------------------
-- Derivations Of Expressions
------------------------------------------------------------

namespace Lox

/- The expressions that are spelled with one token. -/
inductive Expr.AtomDerives : Expr → Token → Prop where
  | no
      {t : Token}
      (hKind : t.kind = .falseKw) :
      AtomDerives (.literal (.bool false)) t
  | yes
      {t : Token}
      (hKind : t.kind = .trueKw) :
      AtomDerives (.literal (.bool true)) t
  | nil
      {t : Token}
      (hKind : t.kind = .nilKw) :
      AtomDerives (.literal .nil) t
  | number
      {t : Token}
      (hKind : t.kind = .number) :
      AtomDerives (.literal t.literal) t
  | string
      {t : Token}
      (hKind : t.kind = .string) :
      AtomDerives (.literal t.literal) t
  | name
      {t : Token}
      (hKind : t.kind = .identifier) :
      AtomDerives (.variable t none) t

/-
  A part of an expression: an expression of some level, or the
  arguments of a call, of which there is at least one.
-/
inductive Phrase where
  | expression (tier : Tier) (e : Expr)
  | arguments (args : List Expr)

/- The tokens that spell a part of an expression. -/
inductive Phrase.Derives : Phrase → List Token → Prop where
  | tighter
      {tier : Tier} {e : Expr} {tokens : List Token}
      (hTighter :
        Derives (.expression tier.tighter e) tokens) :
      Derives (.expression tier e) tokens
  | assign
      {name equals : Token}
      {value : Expr} {tokens : List Token}
      (hName : name.kind = .identifier)
      (hEquals : equals.kind = .equal)
      (hValue :
        Derives (.expression .assignment value) tokens) :
      Derives
        (.expression .assignment (.assign name value none))
        (name :: equals :: tokens)
  | operator
      {tier : Tier} {op : Token}
      {left right : Expr} {lefts rights : List Token}
      (hInfix : tier.isInfix)
      (hLeft : Derives (.expression tier left) lefts)
      (hOp : op.kind.tier? = some tier)
      (hRight :
        Derives (.expression tier.tighter right) rights) :
      Derives (.expression tier (tier.node left op right))
        (lefts ++ op :: rights)
  | sign
      {op : Token} {e : Expr} {tokens : List Token}
      (hOp : op.kind = .bang ∨ op.kind = .minus)
      (hOperand : Derives (.expression .unary e) tokens) :
      Derives (.expression .unary (.unary op e))
        (op :: tokens)
  | plainCall
      {opening paren : Token}
      {callee : Expr} {callees : List Token}
      (hCallee : Derives (.expression .call callee) callees)
      (hOpening : opening.kind = .leftParen)
      (hParen : paren.kind = .rightParen) :
      Derives (.expression .call (.call callee paren []))
        (callees ++ [opening, paren])
  | call
      {opening paren : Token}
      {callee : Expr} {args : List Expr}
      {callees tokens : List Token}
      (hCallee : Derives (.expression .call callee) callees)
      (hOpening : opening.kind = .leftParen)
      (hArgs : Derives (.arguments args) tokens)
      (hCount : args.length ≤ 255)
      (hParen : paren.kind = .rightParen) :
      Derives (.expression .call (.call callee paren args))
        (callees ++ opening :: (tokens ++ [paren]))
  | atom
      {t : Token} {e : Expr}
      (hAtom : e.AtomDerives t) :
      Derives (.expression .primary e) [t]
  | grouping
      {opening closing : Token}
      {e : Expr} {tokens : List Token}
      (hOpening : opening.kind = .leftParen)
      (hInner : Derives (.expression .assignment e) tokens)
      (hClosing : closing.kind = .rightParen) :
      Derives (.expression .primary (.grouping e))
        (opening :: (tokens ++ [closing]))
  | lastArgument
      {e : Expr} {tokens : List Token}
      (hArg : Derives (.expression .assignment e) tokens) :
      Derives (.arguments [e]) tokens
  | argument
      {comma : Token} {e : Expr} {args : List Expr}
      {tokens others : List Token}
      (hArg : Derives (.expression .assignment e) tokens)
      (hComma : comma.kind = .comma)
      (hArgs : Derives (.arguments args) others) :
      Derives (.arguments (e :: args))
        (tokens ++ comma :: others)

/- An expression of a level is one of every looser level. -/
theorem Phrase.Derives.loosen
    {tier tight : Tier}
    {e : Expr}
    {tokens : List Token}
    (hDerives : Derives (.expression tight e) tokens)
    (hRank : tier.rank ≤ tight.rank) :
    Derives (.expression tier e) tokens :=
  Tier.descend
    (P := fun tier => Derives (.expression tier e) tokens)
    hDerives (fun _ hTighter => .tighter hTighter) tier hRank

/- A name alone is an expression of every level. -/
theorem Phrase.derives_name
    {name : Token}
    (hName : name.kind = .identifier)
    (tier : Tier) :
    Derives (.expression tier (.variable name none)) [name] := by
  have hAtom := Phrase.Derives.atom (.name hName)
  exact hAtom.loosen tier.rank_le_primary

/- The tokens that spell an expression of any level. -/
abbrev Expr.Derives (e : Expr) (tokens : List Token) : Prop :=
  (Phrase.expression .assignment e).Derives tokens

end Lox

------------------------------------------------------------
-- Parts Of Statements
------------------------------------------------------------

namespace Lox

/- One or more things with commas between their tokens. -/
inductive Commas {α : Type} (Item : List Token → α → Prop) :
    List Token → List α → Prop where
  | last
      {tokens : List Token} {a : α}
      (hItem : Item tokens a) :
      Commas Item tokens [a]
  | more
      {comma : Token} {tokens others : List Token}
      {a : α} {as : List α}
      (hItem : Item tokens a)
      (hComma : comma.kind = .comma)
      (hMore : Commas Item others as) :
      Commas Item (tokens ++ comma :: others) (a :: as)

theorem Commas.length_pos
    {α : Type}
    {Item : List Token → α → Prop}
    {tokens : List Token}
    {as : List α}
    (hItems : Commas Item tokens as) :
    0 < as.length := by
  cases hItems <;> simp

theorem Commas.mono
    {α : Type}
    {Item Other : List Token → α → Prop}
    {tokens : List Token}
    {as : List α}
    (hItems : Commas Item tokens as)
    (hMono : ∀ {tokens a}, Item tokens a → Other tokens a) :
    Commas Other tokens as := by
  induction hItems with
  | last hItem => exact .last (hMono hItem)
  | more hItem hComma _ ih =>
      exact .more (hMono hItem) hComma ih

/- Things whose tokens stand one after another. -/
inductive Row {α : Type} (Item : List Token → α → Prop) :
    List Token → List α → Prop where
  | nil : Row Item [] []
  | cons
      {tokens others : List Token}
      {a : α} {as : List α}
      (hItem : Item tokens a)
      (hMore : Row Item others as) :
      Row Item (tokens ++ others) (a :: as)

/- A token that is a name. -/
def IsName (tokens : List Token) (name : Token) : Prop :=
  tokens = [name] ∧ name.kind = .identifier

/- The names of parameters, with commas between them. -/
inductive ParamsDerive : List Token → List Token → Prop where
  | none : ParamsDerive [] []
  | some
      {tokens params : List Token}
      (hParams : Commas IsName tokens params)
      (hCount : params.length ≤ 255) :
      ParamsDerive tokens params

/- An expression that may be left out. -/
inductive Expr.OptionDerives :
    Option Expr → List Token → Prop where
  | none : OptionDerives none []
  | some
      {e : Expr} {tokens : List Token}
      (hExpr : e.Derives tokens) :
      OptionDerives (some e) tokens

/- An expression and the semicolon after it. -/
inductive Stmt.ExpressionDerives :
    Stmt → List Token → Prop where
  | mk
      {semicolon : Token} {e : Expr} {tokens : List Token}
      (hExpr : e.Derives tokens)
      (hEnd : semicolon.kind = .semicolon) :
      ExpressionDerives (.expression e)
        (tokens ++ [semicolon])

/- A declaration of a variable, but for its keyword. -/
inductive Stmt.VariableDerives :
    Stmt → List Token → Prop where
  | plain
      {name semicolon : Token}
      (hName : name.kind = .identifier)
      (hEnd : semicolon.kind = .semicolon) :
      VariableDerives (.var name none) [name, semicolon]
  | initialized
      {name equals semicolon : Token}
      {e : Expr} {tokens : List Token}
      (hName : name.kind = .identifier)
      (hEquals : equals.kind = .equal)
      (hExpr : e.Derives tokens)
      (hEnd : semicolon.kind = .semicolon) :
      VariableDerives (.var name (some e))
        (name :: equals :: (tokens ++ [semicolon]))

/- What a `for` loop does first. -/
inductive Stmt.InitializerDerives :
    Option Stmt → List Token → Prop where
  | none
      {semicolon : Token}
      (hEnd : semicolon.kind = .semicolon) :
      InitializerDerives none [semicolon]
  | var
      {keyword : Token} {s : Stmt} {tokens : List Token}
      (hKeyword : keyword.kind = .varKw)
      (hVariable : s.VariableDerives tokens) :
      InitializerDerives (some s) (keyword :: tokens)
  | expression
      {s : Stmt} {tokens : List Token}
      (hExpression : s.ExpressionDerives tokens) :
      InitializerDerives (some s) tokens

end Lox

------------------------------------------------------------
-- Derivations Of Statements
------------------------------------------------------------

namespace Lox

/-
  A part of a program: a statement, with whether an `else`
  after it would belong to it, a declaration, or some
  declarations one after another.
-/
inductive Clause where
  | statement (takesElse : Bool) (s : Stmt)
  | declaration (s : Stmt)
  | declarations (body : List Stmt)

/-
  The tokens that spell a part of a program. An `else` belongs
  to the nearest `if` that can take it: the branch before it
  is a statement that would not take it. A `for` loop is a
  block with what it does first and with a loop, whose body is
  the body of the `for` loop and then its increment.
-/
inductive Clause.Derives : Clause → List Token → Prop where
  | expression
      {s : Stmt} {tokens : List Token}
      (hExpression : s.ExpressionDerives tokens) :
      Derives (.statement false s) tokens
  | print
      {keyword semicolon : Token}
      {e : Expr} {tokens : List Token}
      (hKeyword : keyword.kind = .printKw)
      (hExpr : e.Derives tokens)
      (hEnd : semicolon.kind = .semicolon) :
      Derives (.statement false (.print e))
        (keyword :: (tokens ++ [semicolon]))
  | ret
      {keyword semicolon : Token}
      {value : Option Expr} {tokens : List Token}
      (hKeyword : keyword.kind = .returnKw)
      (hValue : Expr.OptionDerives value tokens)
      (hEnd : semicolon.kind = .semicolon) :
      Derives (.statement false (.ret keyword value))
        (keyword :: (tokens ++ [semicolon]))
  | block
      {opening closing : Token}
      {body : List Stmt} {tokens : List Token}
      (hOpening : opening.kind = .leftBrace)
      (hBody : Derives (.declarations body) tokens)
      (hClosing : closing.kind = .rightBrace) :
      Derives (.statement false (.block body))
        (opening :: (tokens ++ [closing]))
  | ifThen
      {keyword opening closing : Token}
      {takesElse : Bool}
      {condition : Expr} {thenBranch : Stmt}
      {conditions thens : List Token}
      (hKeyword : keyword.kind = .ifKw)
      (hOpening : opening.kind = .leftParen)
      (hCondition : condition.Derives conditions)
      (hClosing : closing.kind = .rightParen)
      (hThen :
        Derives (.statement takesElse thenBranch) thens) :
      Derives (.statement true (.ifThen condition thenBranch))
        (keyword :: opening ::
          (conditions ++ closing :: thens))
  | ifElse
      {keyword opening closing elseWord : Token}
      {takesElse : Bool}
      {condition : Expr} {thenBranch elseBranch : Stmt}
      {conditions thens elses : List Token}
      (hKeyword : keyword.kind = .ifKw)
      (hOpening : opening.kind = .leftParen)
      (hCondition : condition.Derives conditions)
      (hClosing : closing.kind = .rightParen)
      (hThen : Derives (.statement false thenBranch) thens)
      (hElseWord : elseWord.kind = .elseKw)
      (hElse :
        Derives (.statement takesElse elseBranch) elses) :
      Derives
        (.statement takesElse
          (.ifElse condition thenBranch elseBranch))
        (keyword :: opening ::
          (conditions ++ closing ::
            (thens ++ elseWord :: elses)))
  | whileLoop
      {keyword opening closing : Token}
      {takesElse : Bool}
      {condition : Expr} {body : Stmt}
      {conditions tokens : List Token}
      (hKeyword : keyword.kind = .whileKw)
      (hOpening : opening.kind = .leftParen)
      (hCondition : condition.Derives conditions)
      (hClosing : closing.kind = .rightParen)
      (hBody : Derives (.statement takesElse body) tokens) :
      Derives (.statement takesElse (.loop condition body))
        (keyword :: opening ::
          (conditions ++ closing :: tokens))
  | forLoop
      {keyword opening semicolon closing : Token}
      {takesElse : Bool}
      {initializer : Option Stmt}
      {condition increment : Option Expr} {body : Stmt}
      {initials conditions increments tokens : List Token}
      (hKeyword : keyword.kind = .forKw)
      (hOpening : opening.kind = .leftParen)
      (hInitializer :
        Stmt.InitializerDerives initializer initials)
      (hCondition : Expr.OptionDerives condition conditions)
      (hEnd : semicolon.kind = .semicolon)
      (hIncrement : Expr.OptionDerives increment increments)
      (hClosing : closing.kind = .rightParen)
      (hBody : Derives (.statement takesElse body) tokens) :
      Derives
        (.statement takesElse
          (.block
            (initializer.toList ++
              [ .loop (condition.getD (.literal (.bool true)))
                  (.block
                    (body ::
                      (increment.map .expression).toList)) ])))
        (keyword :: opening ::
          (initials ++ (conditions ++ semicolon ::
            (increments ++ closing :: tokens))))
  | plain
      {takesElse : Bool} {s : Stmt} {tokens : List Token}
      (hStatement : Derives (.statement takesElse s) tokens) :
      Derives (.declaration s) tokens
  | var
      {keyword : Token} {s : Stmt} {tokens : List Token}
      (hKeyword : keyword.kind = .varKw)
      (hVariable : s.VariableDerives tokens) :
      Derives (.declaration s) (keyword :: tokens)
  | function
      {keyword name opening closing brace last : Token}
      {params names tokens : List Token} {body : List Stmt}
      (hKeyword : keyword.kind = .funKw)
      (hName : name.kind = .identifier)
      (hOpening : opening.kind = .leftParen)
      (hParams : ParamsDerive names params)
      (hClosing : closing.kind = .rightParen)
      (hBrace : brace.kind = .leftBrace)
      (hBody : Derives (.declarations body) tokens)
      (hLast : last.kind = .rightBrace) :
      Derives (.declaration (.function name params body))
        (keyword :: name :: opening ::
          (names ++ closing :: brace ::
            (tokens ++ [last])))
  | done : Derives (.declarations []) []
  | next
      {s : Stmt} {body : List Stmt}
      {tokens others : List Token}
      (hFirst : Derives (.declaration s) tokens)
      (hRest : Derives (.declarations body) others) :
      Derives (.declarations (s :: body)) (tokens ++ others)

end Lox
