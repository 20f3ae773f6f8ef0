/-
  Tokens: the words of a program, with the place where each
  one stands.

  Key definitions include:
    * `Kind`
    * `Kind.name`
    * `Kind.isKeyword`
    * `Kind.startsStatement`
    * `Literal`
    * `Token`
-/

------------------------------------------------------------
-- Kinds
------------------------------------------------------------

namespace Lox

/- The kinds of tokens. -/
inductive Kind where
  | leftParen | rightParen | leftBrace | rightBrace
  | comma | dot | minus | plus | semicolon | slash | star
  | bang | bangEqual | equal | equalEqual
  | greater | greaterEqual | less | lessEqual
  | identifier | string | number
  | andKw | classKw | elseKw | falseKw | forKw | funKw
  | ifKw | nilKw | orKw | printKw | returnKw | superKw
  | thisKw | trueKw | varKw | whileKw
  | eof
deriving DecidableEq, Repr, Inhabited

namespace Kind

/- All kinds, in the order of their declaration. -/
def all : List Kind :=
  [ leftParen, rightParen, leftBrace, rightBrace,
    comma, dot, minus, plus, semicolon, slash, star,
    bang, bangEqual, equal, equalEqual,
    greater, greaterEqual, less, lessEqual,
    identifier, string, number,
    andKw, classKw, elseKw, falseKw, forKw, funKw,
    ifKw, nilKw, orKw, printKw, returnKw, superKw,
    thisKw, trueKw, varKw, whileKw,
    eof ]

/- The name of a kind in a dump of tokens or trees. -/
def name : Kind → String
  | leftParen => "LPAR" | rightParen => "RPAR"
  | leftBrace => "LBRACE" | rightBrace => "RBRACE"
  | comma => "COMMA" | dot => "DOT"
  | minus => "MINUS" | plus => "PLUS"
  | semicolon => "SEMI" | slash => "SLASH" | star => "STAR"
  | bang => "NEG" | bangEqual => "NEQ"
  | equal => "ASSIGN" | equalEqual => "EQ"
  | greater => "GT" | greaterEqual => "GTE"
  | less => "LT" | lessEqual => "LTE"
  | identifier => "IDENT" | string => "STRING"
  | number => "NUMBER"
  | andKw => "AND" | classKw => "CLASS" | elseKw => "ELSE"
  | falseKw => "FALSE" | forKw => "FOR" | funKw => "FUN"
  | ifKw => "IF" | nilKw => "NIL" | orKw => "OR"
  | printKw => "PRINT" | returnKw => "RETURN"
  | superKw => "SUPER" | thisKw => "THIS"
  | trueKw => "TRUE" | varKw => "VAR" | whileKw => "WHILE"
  | eof => "EOF"

/- The kind of a given name. -/
def ofName? (text : String) : Option Kind :=
  all.find? fun kind => kind.name = text

/- The reserved words. -/
def keywords : List (List Char × Kind) :=
  [ (['a', 'n', 'd'], andKw),
    (['c', 'l', 'a', 's', 's'], classKw),
    (['e', 'l', 's', 'e'], elseKw),
    (['f', 'a', 'l', 's', 'e'], falseKw),
    (['f', 'o', 'r'], forKw),
    (['f', 'u', 'n'], funKw),
    (['i', 'f'], ifKw),
    (['n', 'i', 'l'], nilKw),
    (['o', 'r'], orKw),
    (['p', 'r', 'i', 'n', 't'], printKw),
    (['r', 'e', 't', 'u', 'r', 'n'], returnKw),
    (['s', 'u', 'p', 'e', 'r'], superKw),
    (['t', 'h', 'i', 's'], thisKw),
    (['t', 'r', 'u', 'e'], trueKw),
    (['v', 'a', 'r'], varKw),
    (['w', 'h', 'i', 'l', 'e'], whileKw) ]

/-
  The operators and punctuation marks; one that extends
  another stands before it.
-/
def operators : List (List Char × Kind) :=
  [ (['!', '='], bangEqual), (['=', '='], equalEqual),
    (['<', '='], lessEqual), (['>', '='], greaterEqual),
    (['!'], bang), (['='], equal),
    (['<'], less), (['>'], greater),
    (['('], leftParen), ([')'], rightParen),
    (['\x7b'], leftBrace), (['\x7d'], rightBrace),
    ([','], comma), (['.'], dot),
    (['-'], minus), (['+'], plus),
    ([';'], semicolon), (['*'], star), (['/'], slash) ]

/- Whether a kind is that of a reserved word. -/
def isKeyword (kind : Kind) : Bool :=
  keywords.any fun (_, k) => k = kind

/-
  Whether a token of the kind begins a declaration or
  statement, where parsing can start again after an error.
-/
def startsStatement : Kind → Bool
  | classKw | forKw | funKw | ifKw
  | printKw | returnKw | varKw | whileKw => true
  | _ => false

end Kind

end Lox

------------------------------------------------------------
-- Tokens
------------------------------------------------------------

namespace Lox

/- The constants that a program can write down. -/
inductive Literal where
  | nil
  | bool (value : Bool)
  | number (value : Float)
  | string (value : String)
deriving Repr, Inhabited

/-
  A token: its kind, its spelling, its value when it is a
  number or string, and the line and column of its first
  character.
-/
structure Token where
  kind : Kind
  lexeme : String
  literal : Literal := .nil
  line : Int := 1
  column : Int := 0
deriving Repr, Inhabited

end Lox
