import Lox.Proofs.Grammar.Formation
import Lox.Proofs.Grammar.Recognition
import Lox.Proofs.Outline.Levels
import Lox.Proofs.Outline.Words

/-
  The text of a program determines its tree.

  The outline of a program that is read from a source is
  regular, and its labels, the numbers of children and the
  words in it tell which statements and expressions it is of.
  So two programs with the same text have the same tree, but
  for the places of its words.

  Key definitions include:
    * `Mirror.words`
    * `Vocabulary.readable`
    * `Stmt.regular_outline`
    * `Stmt.mirrors_of_worded`
    * `prettyProgram_eq_iff`
-/

------------------------------------------------------------
-- Words That Are Read
------------------------------------------------------------

namespace Lox

/- Tokens are the same words, wherever they stand. -/
def Mirror.words : Mirror :=
  { rel := Token.SameWord
    sameWord := fun hSame => hSame }

/- The tokens that a source can have. -/
def Token.IsReadable (t : Token) : Prop :=
  t.kind = .eof ∨ t.IsWord

def Vocabulary.readable : Vocabulary :=
  .of Token.IsReadable

theorem isReadable_of_mem
    {text : String}
    {t : Token}
    (hMem : t ∈ (tokenize text).tokens) :
    t.IsReadable := by
  rw [tokens_eq] at hMem
  rcases List.mem_append.mp hMem with hWord | hLast
  · exact .inr (isWord_of_mem hWord)
  · rw [List.mem_singleton.mp hLast]
    exact .inl rfl

/- What is read from a source is made of such tokens. -/
theorem readable_of_source
    (limits : Limits)
    (text : String) :
    Stmt.BodyFormed .readable
      (parse limits (tokenize text).tokens).program := by
  have hValues : ∀ t : Token, t.IsReadable → t.CarriesValue := by
    intro t hReadable
    rcases hReadable with hEnd | hWord
    · constructor <;> intro hKind <;> rw [hEnd] at hKind <;>
        cases hKind
    · exact hWord.carriesValue
  have hTokens :
      ∀ t ∈ (tokenize text).tokens, t.IsReadable :=
    fun t hMem => isReadable_of_mem hMem
  have hProgram := wellFormed_of_parse hValues limits hTokens
  exact Stmt.bodyFormed_iff.mpr fun s hMem => (hProgram s hMem).formed

/- A word that fits a line. -/
structure Token.IsLineWord (t : Token) : Prop where
  isWord : t.IsWord
  kind_ne : t.kind ≠ .string

namespace Vocabulary.readable

variable {t t' : Token}

theorem isLineWord
    (hReadable : t.IsReadable)
    {kinds : List Kind}
    (hKind : t.kind ∈ kinds)
    (hKinds : ∀ kind ∈ kinds, kind ≠ .eof ∧ kind ≠ .string) :
    t.IsLineWord := by
  rcases hKinds _ hKind with ⟨hNotEnd, hNotString⟩
  exact ⟨hReadable.resolve_left hNotEnd, hNotString⟩

theorem name (hName : readable.name t) : t.IsLineWord := by
  have hKind : t.kind ∈ [.identifier] := by simp [hName.2]
  exact isLineWord hName.1 hKind (by decide)

theorem sign (hSign : readable.sign t) : t.IsLineWord := by
  have hKind : t.kind ∈ [.bang, .minus] := by simp [hSign.2]
  exact isLineWord hSign.1 hKind (by decide)

theorem operator (hOperator : readable.operator t) :
    t.IsLineWord :=
  isLineWord hOperator.1 hOperator.2 (by decide)

theorem connective (hConnective : readable.connective t) :
    t.IsLineWord := by
  have hKind : t.kind ∈ [.andKw, .orKw] := by
    simp [hConnective.2]
  exact isLineWord hConnective.1 hKind (by decide)

/- Parentheses and keywords are all the same word. -/
theorem paren
    (hParen : readable.paren t)
    (hParen' : readable.paren t') :
    t.SameWord t' := by
  have hWord := hParen.1.resolve_left (by simp [hParen.2])
  have hWord' := hParen'.1.resolve_left (by simp [hParen'.2])
  have hKind := hParen.2.trans hParen'.2.symm
  exact hWord.sameWord_of_kind hWord' hKind (by simp [hParen.2])

theorem keyword
    (hKeyword : readable.keyword t)
    (hKeyword' : readable.keyword t') :
    t.SameWord t' := by
  have hWord := hKeyword.1.resolve_left (by simp [hKeyword.2])
  have hWord' := hKeyword'.1.resolve_left (by simp [hKeyword'.2])
  have hKind := hKeyword.2.trans hKeyword'.2.symm
  exact hWord.sameWord_of_kind hWord' hKind (by simp [hKeyword.2])

end Vocabulary.readable

end Lox

------------------------------------------------------------
-- Regular Outlines
------------------------------------------------------------

namespace Lox

open Outline

/- The labels of the nodes of outlines. -/
def Outline.labels : List String :=
  [ "literal", "variable", "assign", "binary", "logical", "unary",
    "grouping", "call", "args", "exprstmt", "printstmt", "vardecl",
    "block", "ifstmt", "whilestmt", "fundecl", "params", "body",
    "returnstmt", "program" ]

theorem Outline.isLabel_of_mem
    {label : String}
    (hMem : label ∈ labels) :
    IsLabel label := by
  have hChars :
      ∀ label ∈ labels,
        '\n' ∉ label.toList ∧ label.toList.head? ≠ some ' ' ∧
          '\t' ∉ label.toList := by
    decide
  rcases hChars label hMem with ⟨hNewline, hMargin, hTab⟩
  exact ⟨⟨hNewline, hMargin⟩, hTab⟩

theorem Token.IsLineWord.isRegular
    {t : Token}
    (hWord : t.IsLineWord) :
    (Outline.token t).IsRegular :=
  hWord.isWord.fitsLine hWord.kind_ne

@[simp] theorem Expr.isLeaf_outline (e : Expr) :
    e.outline.isLeaf = false := by
  cases e <;> rfl

@[simp] theorem Stmt.isLeaf_outline (s : Stmt) :
    s.outline.isLeaf = false := by
  cases s with
  | var name initializer => cases initializer <;> rfl
  | ret keyword value => cases value <;> rfl
  | _ => rfl

mutual

theorem Expr.regular_outline
    (e : Expr)
    (hFormed : e.Formed .readable) :
    e.outline.IsRegular := by
  cases e with
  | literal value =>
      refine ⟨isLabel_of_mem (by decide), ?_, rfl, trivial⟩
      exact value.fitsLine_text
  | «variable» name hops =>
      have hName := Vocabulary.readable.name hFormed
      exact
        ⟨isLabel_of_mem (by decide), hName.isRegular, rfl, trivial⟩
  | assign name value hops =>
      have hName := Vocabulary.readable.name hFormed.1
      exact
        ⟨isLabel_of_mem (by decide), hName.isRegular, rfl,
          value.regular_outline hFormed.2, value.isLeaf_outline,
          trivial⟩
  | binary left op right =>
      have hOp := Vocabulary.readable.operator hFormed.2.1
      exact
        ⟨isLabel_of_mem (by decide),
          left.regular_outline hFormed.1, left.isLeaf_outline,
          hOp.isRegular, rfl,
          right.regular_outline hFormed.2.2, right.isLeaf_outline,
          trivial⟩
  | logical left op right =>
      have hOp := Vocabulary.readable.connective hFormed.2.1
      exact
        ⟨isLabel_of_mem (by decide),
          left.regular_outline hFormed.1, left.isLeaf_outline,
          hOp.isRegular, rfl,
          right.regular_outline hFormed.2.2, right.isLeaf_outline,
          trivial⟩
  | unary op operand =>
      have hOp := Vocabulary.readable.sign hFormed.1
      exact
        ⟨isLabel_of_mem (by decide), hOp.isRegular, rfl,
          operand.regular_outline hFormed.2,
          operand.isLeaf_outline, trivial⟩
  | grouping inner =>
      exact
        ⟨isLabel_of_mem (by decide),
          inner.regular_outline hFormed, inner.isLeaf_outline,
          trivial⟩
  | call callee paren args =>
      exact
        ⟨isLabel_of_mem (by decide),
          callee.regular_outline hFormed.1, callee.isLeaf_outline,
          ⟨isLabel_of_mem (by decide),
            Expr.regular_outlines args hFormed.2.2 0⟩,
          rfl, trivial⟩

theorem Expr.regular_outlines
    (args : List Expr)
    (hFormed : Expr.ArgsFormed .readable args)
    (place : Nat) :
    AreRegular "args" place (Expr.outlines args) := by
  cases args with
  | nil => trivial
  | cons arg args =>
      exact
        ⟨arg.regular_outline hFormed.1, arg.isLeaf_outline,
          Expr.regular_outlines args hFormed.2 (place + 1)⟩

end

theorem Outline.regular_params
    (params : List Token)
    (hNames : ∀ param ∈ params, param.IsLineWord)
    (place : Nat) :
    AreRegular "params" place (params.map .token) := by
  induction params generalizing place with
  | nil => trivial
  | cons param params ih =>
      rcases List.forall_mem_cons.mp hNames with ⟨hFirst, hRest⟩
      exact ⟨hFirst.isRegular, rfl, ih hRest (place + 1)⟩

/- The labels of lists of statements. -/
def Outline.bodies : List String :=
  ["block", "body", "program"]

theorem Outline.leafAt_body
    {label : String}
    (hBody : label ∈ bodies)
    (place : Nat) :
    leafAt label place = false := by
  have hLabels :
      ∀ label ∈ bodies,
        label ∉
          ["literal", "variable", "assign", "unary", "vardecl",
            "fundecl"] ∧
        label ∉ ["binary", "logical"] ∧ label ≠ "params" := by
    decide
  rcases hLabels label hBody with ⟨hFirst, hSecond, hAll⟩
  unfold leafAt
  rw [if_neg hFirst, if_neg hSecond]
  exact decide_eq_false hAll

mutual

theorem Stmt.regular_outline
    (s : Stmt)
    (hFormed : s.Formed .readable) :
    s.outline.IsRegular := by
  cases s with
  | expression value | print value =>
      exact
        ⟨isLabel_of_mem (by decide),
          value.regular_outline hFormed, value.isLeaf_outline,
          trivial⟩
  | var name initializer =>
      cases initializer with
      | none =>
          have hName := Vocabulary.readable.name hFormed
          exact
            ⟨isLabel_of_mem (by decide), hName.isRegular, rfl,
              trivial⟩
      | some value =>
          have hName := Vocabulary.readable.name hFormed.1
          exact
            ⟨isLabel_of_mem (by decide), hName.isRegular, rfl,
              value.regular_outline hFormed.2,
              value.isLeaf_outline, trivial⟩
  | block body =>
      exact
        ⟨isLabel_of_mem (by decide),
          Stmt.regular_outlines body hFormed (by decide) 0⟩
  | ifThen condition thenBranch =>
      exact
        ⟨isLabel_of_mem (by decide),
          condition.regular_outline hFormed.1,
          condition.isLeaf_outline,
          thenBranch.regular_outline hFormed.2,
          thenBranch.isLeaf_outline, trivial⟩
  | ifElse condition thenBranch elseBranch =>
      exact
        ⟨isLabel_of_mem (by decide),
          condition.regular_outline hFormed.1,
          condition.isLeaf_outline,
          thenBranch.regular_outline hFormed.2.1,
          thenBranch.isLeaf_outline,
          elseBranch.regular_outline hFormed.2.2,
          elseBranch.isLeaf_outline, trivial⟩
  | loop condition body =>
      exact
        ⟨isLabel_of_mem (by decide),
          condition.regular_outline hFormed.1,
          condition.isLeaf_outline,
          body.regular_outline hFormed.2, body.isLeaf_outline,
          trivial⟩
  | function name params body =>
      rcases hFormed with ⟨hName, hParams, hBody⟩
      have hWord := Vocabulary.readable.name hName
      have hWords : ∀ param ∈ params, param.IsLineWord :=
        fun param hMem =>
          Vocabulary.readable.name (hParams param hMem)
      exact
        ⟨isLabel_of_mem (by decide), hWord.isRegular, rfl,
          ⟨isLabel_of_mem (by decide),
            regular_params params hWords 0⟩,
          rfl,
          ⟨isLabel_of_mem (by decide),
            Stmt.regular_outlines body hBody (by decide) 0⟩,
          rfl, trivial⟩
  | ret keyword value =>
      cases value with
      | none => exact ⟨isLabel_of_mem (by decide), trivial⟩
      | some value =>
          exact
            ⟨isLabel_of_mem (by decide),
              value.regular_outline hFormed.2,
              value.isLeaf_outline, trivial⟩

theorem Stmt.regular_outlines
    (body : List Stmt)
    (hFormed : Stmt.BodyFormed .readable body)
    {label : String}
    (hLabel : label ∈ bodies)
    (place : Nat) :
    AreRegular label place (Stmt.outlines body) := by
  cases body with
  | nil => trivial
  | cons stmt body =>
      have hLeaf : stmt.outline.isLeaf = leafAt label place := by
        rw [stmt.isLeaf_outline, leafAt_body hLabel]
      exact
        ⟨stmt.regular_outline hFormed.1, hLeaf,
          Stmt.regular_outlines body hFormed.2 hLabel (place + 1)⟩

end

theorem Stmt.regular_program
    {program : List Stmt}
    (hFormed : Stmt.BodyFormed .readable program) :
    (Outline.ofProgram program).IsRegular :=
  ⟨isLabel_of_mem (by decide),
    Stmt.regular_outlines program hFormed (by decide) 0⟩

end Lox

------------------------------------------------------------
-- Trees Of Outlines
------------------------------------------------------------

namespace Lox

open Outline

/- Words that fit their lines are known by how they are shown. -/
theorem Token.IsLineWord.sameWord
    {t t' : Token}
    (hWord : t.IsLineWord)
    (hWord' : t'.IsLineWord)
    (hLexeme : t.lexeme = t'.lexeme) :
    t.SameWord t' :=
  hWord.isWord.sameWord_of_lexeme hWord'.isWord hLexeme

/- Outlines have the same words if their parts have. -/
@[simp] theorem Outline.worded_node_iff
    {label label' : String}
    {children children' : List Outline} :
    (node label children).worded =
        (node label' children').worded ↔
      label = label' ∧ wordedAll children = wordedAll children' := by
  simp [worded]

@[simp] theorem Outline.worded_token_iff
    {t t' : Token} :
    (Outline.token t).worded = (Outline.token t').worded ↔
      t.lexeme = t'.lexeme := by
  simp [worded]

@[simp] theorem Outline.worded_value_iff
    {text text' : String} :
    (value text).worded = (value text').worded ↔ text = text' := by
  simp [worded]

@[simp] theorem Outline.wordedAll_cons_iff
    {child child' : Outline}
    {children children' : List Outline} :
    wordedAll (child :: children) =
        wordedAll (child' :: children') ↔
      child.worded = child'.worded ∧
        wordedAll children = wordedAll children' := by
  simp [wordedAll]

@[simp] theorem Outline.wordedAll_cons_ne_nil
    {child : Outline}
    {children : List Outline} :
    wordedAll (child :: children) ≠ wordedAll [] := by
  simp [wordedAll]

@[simp] theorem Outline.wordedAll_nil_ne_cons
    {child : Outline}
    {children : List Outline} :
    wordedAll [] ≠ wordedAll (child :: children) :=
  wordedAll_cons_ne_nil.symm

mutual

/-
  Expressions with the same words in their outlines are the
  same, but for the places of tokens.
-/
theorem Expr.mirrors_of_worded
    (e : Expr)
    {e' : Expr}
    (hFormed : e.Formed .readable)
    (hFormed' : e'.Formed .readable)
    (hShown : e.outline.worded = e'.outline.worded) :
    e.bare.Mirrors .words e'.bare := by
  -- Outlines of expressions of other forms have other labels.
  cases e with
  | literal value =>
      cases e' with
      | literal value' =>
          have hText : value.text = value'.text := by
            simpa [Expr.outline] using hShown
          rw [Literal.text_injective hText]
          exact .literal value'
      | _ => simp [Expr.outline] at hShown
  | «variable» name hops =>
      cases e' with
      | «variable» name' hops' =>
          have hLexeme : name.lexeme = name'.lexeme := by
            simpa [Expr.outline] using hShown
          have hName := Vocabulary.readable.name hFormed
          have hName' := Vocabulary.readable.name hFormed'
          exact .name (hName.sameWord hName' hLexeme)
      | _ => simp [Expr.outline] at hShown
  | assign name value hops =>
      cases e' with
      | assign name' value' hops' =>
          obtain ⟨hLexeme, hValue⟩ :
              name.lexeme = name'.lexeme ∧
                value.outline.worded = value'.outline.worded := by
            simpa [Expr.outline] using hShown
          have hName := Vocabulary.readable.name hFormed.1
          have hName' := Vocabulary.readable.name hFormed'.1
          exact
            .assign (hName.sameWord hName' hLexeme)
              (value.mirrors_of_worded hFormed.2 hFormed'.2 hValue)
      | _ => simp [Expr.outline] at hShown
  | binary left op right =>
      cases e' with
      | binary left' op' right' =>
          obtain ⟨hLeft, hLexeme, hRight⟩ :
              left.outline.worded = left'.outline.worded ∧
                op.lexeme = op'.lexeme ∧
                right.outline.worded = right'.outline.worded := by
            simpa [Expr.outline] using hShown
          have hOp := Vocabulary.readable.operator hFormed.2.1
          have hOp' := Vocabulary.readable.operator hFormed'.2.1
          exact
            .binary
              (left.mirrors_of_worded hFormed.1 hFormed'.1 hLeft)
              (hOp.sameWord hOp' hLexeme)
              (right.mirrors_of_worded hFormed.2.2 hFormed'.2.2
                hRight)
      | _ => simp [Expr.outline] at hShown
  | logical left op right =>
      cases e' with
      | logical left' op' right' =>
          obtain ⟨hLeft, hLexeme, hRight⟩ :
              left.outline.worded = left'.outline.worded ∧
                op.lexeme = op'.lexeme ∧
                right.outline.worded = right'.outline.worded := by
            simpa [Expr.outline] using hShown
          have hOp := Vocabulary.readable.connective hFormed.2.1
          have hOp' := Vocabulary.readable.connective hFormed'.2.1
          exact
            .logical
              (left.mirrors_of_worded hFormed.1 hFormed'.1 hLeft)
              (hOp.sameWord hOp' hLexeme)
              (right.mirrors_of_worded hFormed.2.2 hFormed'.2.2
                hRight)
      | _ => simp [Expr.outline] at hShown
  | unary op operand =>
      cases e' with
      | unary op' operand' =>
          obtain ⟨hLexeme, hOperand⟩ :
              op.lexeme = op'.lexeme ∧
                operand.outline.worded =
                  operand'.outline.worded := by
            simpa [Expr.outline] using hShown
          have hOp := Vocabulary.readable.sign hFormed.1
          have hOp' := Vocabulary.readable.sign hFormed'.1
          exact
            .unary (hOp.sameWord hOp' hLexeme)
              (operand.mirrors_of_worded hFormed.2 hFormed'.2
                hOperand)
      | _ => simp [Expr.outline] at hShown
  | grouping inner =>
      cases e' with
      | grouping inner' =>
          have hInner :
              inner.outline.worded = inner'.outline.worded := by
            simpa [Expr.outline] using hShown
          exact
            .grouping
              (inner.mirrors_of_worded hFormed hFormed' hInner)
      | _ => simp [Expr.outline] at hShown
  | call callee paren args =>
      cases e' with
      | call callee' paren' args' =>
          obtain ⟨hCallee, hArgs⟩ :
              callee.outline.worded = callee'.outline.worded ∧
                wordedAll (Expr.outlines args) =
                  wordedAll (Expr.outlines args') := by
            simpa [Expr.outline] using hShown
          exact
            .call
              (callee.mirrors_of_worded hFormed.1 hFormed'.1
                hCallee)
              (Vocabulary.readable.paren hFormed.2.1 hFormed'.2.1)
              (Expr.argsMirror_of_worded args hFormed.2.2
                hFormed'.2.2 hArgs)
      | _ => simp [Expr.outline] at hShown

theorem Expr.argsMirror_of_worded
    (args : List Expr)
    {args' : List Expr}
    (hFormed : Expr.ArgsFormed .readable args)
    (hFormed' : Expr.ArgsFormed .readable args')
    (hShown :
      wordedAll (Expr.outlines args) =
        wordedAll (Expr.outlines args')) :
    List.Forall₂ (Expr.Mirrors .words) (Expr.bareArgs args)
      (Expr.bareArgs args') := by
  cases args with
  | nil =>
      cases args' with
      | nil => exact .nil
      | cons arg' args' => cases hShown
  | cons arg args =>
      cases args' with
      | nil => cases hShown
      | cons arg' args' =>
          rcases List.cons.inj hShown with ⟨hFirst, hRest⟩
          exact
            .cons
              (arg.mirrors_of_worded hFormed.1 hFormed'.1 hFirst)
              (Expr.argsMirror_of_worded args hFormed.2 hFormed'.2
                hRest)

end

theorem Token.forall₂_of_worded
    {params params' : List Token}
    (hWords : ∀ param ∈ params, param.IsLineWord)
    (hWords' : ∀ param ∈ params', param.IsLineWord)
    (hShown :
      wordedAll (params.map .token) =
        wordedAll (params'.map .token)) :
    List.Forall₂ Token.SameWord params params' := by
  induction params generalizing params' with
  | nil =>
      cases params' with
      | nil => exact .nil
      | cons param' params' => cases hShown
  | cons param params ih =>
      cases params' with
      | nil => cases hShown
      | cons param' params' =>
          rcases List.cons.inj hShown with ⟨hFirst, hOthers⟩
          rcases List.forall_mem_cons.mp hWords with
            ⟨hWord, hRest⟩
          rcases List.forall_mem_cons.mp hWords' with
            ⟨hWord', hRest'⟩
          exact
            .cons (hWord.sameWord hWord' (Outline.value.inj hFirst))
              (ih hRest hRest' hOthers)

/- The label of the outline of a statement. -/
def Stmt.label : Stmt → String
  | .expression _ => "exprstmt"
  | .print _ => "printstmt"
  | .var _ _ => "vardecl"
  | .block _ => "block"
  | .ifThen _ _ => "ifstmt"
  | .ifElse _ _ _ => "ifstmt"
  | .loop _ _ => "whilestmt"
  | .function _ _ _ => "fundecl"
  | .ret _ _ => "returnstmt"

theorem Stmt.label_of_worded
    {s s' : Stmt}
    (hShown : s.outline.worded = s'.outline.worded) :
    s.label = s'.label := by
  have hNode :
      ∀ s : Stmt, ∃ children,
        s.outline.worded = .node s.label children := by
    intro s
    cases s with
    | var name initializer =>
        cases initializer <;> exact ⟨_, rfl⟩
    | ret keyword value => cases value <;> exact ⟨_, rfl⟩
    | _ => exact ⟨_, rfl⟩
  rcases hNode s with ⟨children, hWords⟩
  rcases hNode s' with ⟨children', hWords'⟩
  rw [hWords, hWords'] at hShown
  exact (Outline.node.inj hShown).1

mutual

/- The same for statements. -/
theorem Stmt.mirrors_of_worded
    (s : Stmt)
    {s' : Stmt}
    (hFormed : s.Formed .readable)
    (hFormed' : s'.Formed .readable)
    (hShown : s.outline.worded = s'.outline.worded) :
    s.bare.Mirrors .words s'.bare := by
  cases s with
  | expression value =>
      cases s' with
      | expression value' =>
          have hValue :
              value.outline.worded = value'.outline.worded := by
            simpa [Stmt.outline] using hShown
          exact
            .expression
              (value.mirrors_of_worded hFormed hFormed' hValue)
      | _ =>
          exact absurd (label_of_worded hShown) (by simp [label])
  | print value =>
      cases s' with
      | print value' =>
          have hValue :
              value.outline.worded = value'.outline.worded := by
            simpa [Stmt.outline] using hShown
          exact
            .print
              (value.mirrors_of_worded hFormed hFormed' hValue)
      | _ =>
          exact absurd (label_of_worded hShown) (by simp [label])
  | var name initializer =>
      cases s' with
      | var name' initializer' =>
          cases initializer with
          | none =>
              cases initializer' with
              | none =>
                  have hLexeme : name.lexeme = name'.lexeme := by
                    simpa [Stmt.outline] using hShown
                  have hName := Vocabulary.readable.name hFormed
                  have hName' := Vocabulary.readable.name hFormed'
                  exact
                    .var (hName.sameWord hName' hLexeme) .none
              | some value' =>
                  simp [Stmt.outline] at hShown
          | some value =>
              cases initializer' with
              | none =>
                  simp [Stmt.outline] at hShown
              | some value' =>
                  obtain ⟨hLexeme, hValue⟩ :
                      name.lexeme = name'.lexeme ∧
                        value.outline.worded =
                          value'.outline.worded := by
                    simpa [Stmt.outline] using hShown
                  have hName := Vocabulary.readable.name hFormed.1
                  have hName' := Vocabulary.readable.name hFormed'.1
                  exact
                    .var (hName.sameWord hName' hLexeme)
                      (.some
                        (value.mirrors_of_worded hFormed.2
                          hFormed'.2 hValue))
      | _ =>
          exact absurd (label_of_worded hShown) (by simp [label])
  | block body =>
      cases s' with
      | block body' =>
          have hBody :
              wordedAll (Stmt.outlines body) =
                wordedAll (Stmt.outlines body') := by
            simpa [Stmt.outline] using hShown
          exact
            .block
              (Stmt.bodyMirrors_of_worded body hFormed hFormed'
                hBody)
      | _ =>
          exact absurd (label_of_worded hShown) (by simp [label])
  | ifThen condition thenBranch =>
      cases s' with
      | ifThen condition' thenBranch' =>
          obtain ⟨hCondition, hThen⟩ :
              condition.outline.worded =
                  condition'.outline.worded ∧
                thenBranch.outline.worded =
                  thenBranch'.outline.worded := by
            simpa [Stmt.outline] using hShown
          exact
            .ifThen
              (condition.mirrors_of_worded hFormed.1 hFormed'.1
                hCondition)
              (thenBranch.mirrors_of_worded hFormed.2 hFormed'.2
                hThen)
      | ifElse condition' thenBranch' elseBranch' =>
          simp [Stmt.outline] at hShown
      | _ =>
          exact absurd (label_of_worded hShown) (by simp [label])
  | ifElse condition thenBranch elseBranch =>
      cases s' with
      | ifThen condition' thenBranch' =>
          simp [Stmt.outline] at hShown
      | ifElse condition' thenBranch' elseBranch' =>
          obtain ⟨hCondition, hThen, hElse⟩ :
              condition.outline.worded =
                  condition'.outline.worded ∧
                thenBranch.outline.worded =
                  thenBranch'.outline.worded ∧
                elseBranch.outline.worded =
                  elseBranch'.outline.worded := by
            simpa [Stmt.outline] using hShown
          exact
            .ifElse
              (condition.mirrors_of_worded hFormed.1 hFormed'.1
                hCondition)
              (thenBranch.mirrors_of_worded hFormed.2.1
                hFormed'.2.1 hThen)
              (elseBranch.mirrors_of_worded hFormed.2.2
                hFormed'.2.2 hElse)
      | _ =>
          exact absurd (label_of_worded hShown) (by simp [label])
  | loop condition body =>
      cases s' with
      | loop condition' body' =>
          obtain ⟨hCondition, hBody⟩ :
              condition.outline.worded =
                  condition'.outline.worded ∧
                body.outline.worded = body'.outline.worded := by
            simpa [Stmt.outline] using hShown
          exact
            .loop
              (condition.mirrors_of_worded hFormed.1 hFormed'.1
                hCondition)
              (body.mirrors_of_worded hFormed.2 hFormed'.2 hBody)
      | _ =>
          exact absurd (label_of_worded hShown) (by simp [label])
  | function name params body =>
      cases s' with
      | function name' params' body' =>
          obtain ⟨hLexeme, hShownParams, hShownBody⟩ :
              name.lexeme = name'.lexeme ∧
                wordedAll (params.map .token) =
                  wordedAll (params'.map .token) ∧
                wordedAll (Stmt.outlines body) =
                  wordedAll (Stmt.outlines body') := by
            simpa [Stmt.outline] using hShown
          rcases hFormed with ⟨hName, hParams, hBody⟩
          rcases hFormed' with ⟨hName', hParams', hBody'⟩
          have hWord := Vocabulary.readable.name hName
          have hWord' := Vocabulary.readable.name hName'
          have hSameParams :=
            Token.forall₂_of_worded
              (fun param hMem =>
                Vocabulary.readable.name (hParams param hMem))
              (fun param hMem =>
                Vocabulary.readable.name (hParams' param hMem))
              hShownParams
          exact
            .function (hWord.sameWord hWord' hLexeme) hSameParams
              (Stmt.bodyMirrors_of_worded body hBody hBody'
                hShownBody)
      | _ =>
          exact absurd (label_of_worded hShown) (by simp [label])
  | ret keyword value =>
      cases s' with
      | ret keyword' value' =>
          cases value with
          | none =>
              cases value' with
              | none =>
                  exact
                    .ret (Vocabulary.readable.keyword hFormed hFormed')
                      .none
              | some value' =>
                  simp [Stmt.outline] at hShown
          | some value =>
              cases value' with
              | none =>
                  simp [Stmt.outline] at hShown
              | some value' =>
                  have hValue :
                      value.outline.worded =
                        value'.outline.worded := by
                    simpa [Stmt.outline] using hShown
                  exact
                    .ret
                      (Vocabulary.readable.keyword hFormed.1
                        hFormed'.1)
                      (.some
                        (value.mirrors_of_worded hFormed.2
                          hFormed'.2 hValue))
      | _ =>
          exact absurd (label_of_worded hShown) (by simp [label])

theorem Stmt.bodyMirrors_of_worded
    (body : List Stmt)
    {body' : List Stmt}
    (hFormed : Stmt.BodyFormed .readable body)
    (hFormed' : Stmt.BodyFormed .readable body')
    (hShown :
      wordedAll (Stmt.outlines body) =
        wordedAll (Stmt.outlines body')) :
    List.Forall₂ (Stmt.Mirrors .words) (Stmt.bareBody body)
      (Stmt.bareBody body') := by
  cases body with
  | nil =>
      cases body' with
      | nil => exact .nil
      | cons stmt' body' => cases hShown
  | cons stmt body =>
      cases body' with
      | nil => cases hShown
      | cons stmt' body' =>
          rcases List.cons.inj hShown with ⟨hFirst, hRest⟩
          exact
            .cons
              (stmt.mirrors_of_worded hFormed.1 hFormed'.1 hFirst)
              (Stmt.bodyMirrors_of_worded body hFormed.2 hFormed'.2
                hRest)

end

end Lox

------------------------------------------------------------
-- Texts Of Programs
------------------------------------------------------------

namespace Lox

/-
  Two programs that are read without an error are shown by the
  same text exactly if they have the same tree: the same forms,
  the same constants, and at every place tokens that are the
  same word, wherever they stand.
-/
theorem prettyProgram_eq_iff
    {limits limits' : Limits}
    {source source' : String}
    (hErrors : (parse limits (tokenize source).tokens).errors = [])
    (hErrors' :
      (parse limits' (tokenize source').tokens).errors = []) :
    prettyProgram (parse limits (tokenize source).tokens).program =
        prettyProgram
          (parse limits' (tokenize source').tokens).program ↔
      List.Forall₂ (Stmt.Mirrors .words)
        (parse limits (tokenize source).tokens).program
        (parse limits' (tokenize source').tokens).program := by
  have hFormed := readable_of_source limits source
  have hFormed' := readable_of_source limits' source'
  have hBare := bare_of_parse hErrors
  have hBare' := bare_of_parse hErrors'
  refine ⟨fun hSame => ?_, fun hMirrors => ?_⟩
  · have hWords :=
      Outline.worded_of_pretty (Stmt.regular_program hFormed)
        (Stmt.regular_program hFormed') rfl hSame
    have hMirrors :=
      Stmt.bodyMirrors_of_worded _ hFormed hFormed'
        (Outline.node.inj hWords).2
    rw [hBare, hBare'] at hMirrors
    exact hMirrors
  · exact (prettyProgram_mirrors hMirrors).symm

/- A call whose words are those of labels, anywhere. -/
theorem derives_labelCall
    {minus callee opening arg paren semicolon : Token}
    (hMinus : minus.kind = .minus)
    (hCallee : callee.kind = .identifier)
    (hOpening : opening.kind = .leftParen)
    (hArg : arg.kind = .identifier)
    (hParen : paren.kind = .rightParen)
    (hSemicolon : semicolon.kind = .semicolon) :
    (Clause.declarations
        [ .expression
            (.unary minus
              (.call (.variable callee none) paren
                [.variable arg none])) ]).Derives
      [minus, callee, opening, arg, paren, semicolon] := by
  have hArgs :
      (Phrase.arguments [.variable arg none]).Derives [arg] :=
    .lastArgument (Phrase.derives_name hArg .assignment)
  have hCount : [Expr.variable arg none].length ≤ 255 := by simp
  have hCall :
      (Phrase.expression .call
          (.call (.variable callee none) paren
            [.variable arg none])).Derives
        [callee, opening, arg, paren] :=
    .call (Phrase.derives_name hCallee .call) hOpening hArgs hCount
      hParen
  have hUnary :
      (Phrase.expression .unary
          (.unary minus
            (.call (.variable callee none) paren
              [.variable arg none]))).Derives
        [minus, callee, opening, arg, paren] :=
    .sign (.inr hMinus) (hCall.loosen (by decide))
  have hStatement :=
    Clause.Derives.expression
      (.mk (hUnary.loosen (by decide)) hSemicolon)
  exact .next (.plain hStatement) .done

/- Names that are spelled like labels, in two layouts. -/
theorem prettyProgram_eq_iff_labels :
    let source := "-block(args);"
    let source' := "- block\n(args ) ; // call"
    let program := (parse .standard (tokenize source).tokens).program
    let program' := (parse .standard (tokenize source').tokens).program
    (parse .standard (tokenize source).tokens).errors = [] ∧
      (parse .standard (tokenize source').tokens).errors = [] ∧
      (prettyProgram program = prettyProgram program' ↔
        List.Forall₂ (Stmt.Mirrors .words) program program') := by
  intro source source' program program'
  have hTokens :
      (tokenize "-block(args);").tokens =
        [ ⟨.minus, "-", .nil, 1, 1⟩,
          ⟨.identifier, "block", .nil, 1, 2⟩,
          ⟨.leftParen, "(", .nil, 1, 7⟩,
          ⟨.identifier, "args", .nil, 1, 8⟩,
          ⟨.rightParen, ")", .nil, 1, 12⟩,
          ⟨.semicolon, ";", .nil, 1, 13⟩,
          ⟨.eof, "", .nil, 1, 14⟩ ] := by
    cbv
  have hTokens' :
      (tokenize "- block\n(args ) ; // call").tokens =
        [ ⟨.minus, "-", .nil, 1, 1⟩,
          ⟨.identifier, "block", .nil, 1, 3⟩,
          ⟨.leftParen, "(", .nil, 2, 1⟩,
          ⟨.identifier, "args", .nil, 2, 2⟩,
          ⟨.rightParen, ")", .nil, 2, 7⟩,
          ⟨.semicolon, ";", .nil, 2, 9⟩,
          ⟨.eof, "", .nil, 2, 18⟩ ] := by
    cbv
  have hErrors :
      (parse .standard (tokenize source).tokens).errors = [] := by
    rw [hTokens,
      parse_of_derives (by decide)
        (derives_labelCall rfl rfl rfl rfl rfl rfl)]
  have hErrors' :
      (parse .standard (tokenize source').tokens).errors = [] := by
    rw [hTokens',
      parse_of_derives (by decide)
        (derives_labelCall rfl rfl rfl rfl rfl rfl)]
  exact ⟨hErrors, hErrors', prettyProgram_eq_iff hErrors hErrors'⟩

end Lox
