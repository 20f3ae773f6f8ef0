import Lox.Proofs.Grammar.Recognition
import Lox.Proofs.Scope.Lexical

/-
  The order of a tree and the order of its text.

  What can break a rule of scopes stands in a tree in the
  order of its tokens. A `for` loop is the one construct whose
  parts change places, as its increment comes after its body;
  but an increment declares nothing, and nothing in it is read
  in an initializer, so that it is never to blame.

  Key definitions include:
    * `Stmt.suspects`
    * `Node.suspectAt`
    * `Clause.Derives.suspects_sublist`
    * `Node.Violates.tokens_sublist`
-/

------------------------------------------------------------
-- What Can Be Blamed
------------------------------------------------------------

namespace Lox

mutual

/- The names that an expression reads, in their order. -/
def Expr.reads : Expr → List Token
  | .literal _ => []
  | .variable name _ => [name]
  | .assign _ value _ => value.reads
  | .binary left _ right => left.reads ++ right.reads
  | .logical left _ right => left.reads ++ right.reads
  | .unary _ operand => operand.reads
  | .grouping inner => inner.reads
  | .call callee _ args => callee.reads ++ Expr.readsArgs args

def Expr.readsArgs : List Expr → List Token
  | [] => []
  | arg :: args => arg.reads ++ Expr.readsArgs args

end

mutual

/-
  The tokens of a statement that can be to blame: names that
  are declared, names that are read in an initializer, and the
  keywords of returns.
-/
def Stmt.suspects : Stmt → List Token
  | .expression _ => []
  | .print _ => []
  | .var name none => [name]
  | .var name (some value) => name :: value.reads
  | .block body => Stmt.suspectsBody body
  | .ifThen _ thenBranch => thenBranch.suspects
  | .ifElse _ thenBranch elseBranch =>
      thenBranch.suspects ++ elseBranch.suspects
  | .loop _ body => body.suspects
  | .function name params body =>
      name :: (params ++ Stmt.suspectsBody body)
  | .ret keyword _ => [keyword]

def Stmt.suspectsBody : List Stmt → List Token
  | [] => []
  | s :: body => s.suspects ++ Stmt.suspectsBody body

end

end Lox

------------------------------------------------------------
-- Derivations
------------------------------------------------------------

namespace Lox

/- The names that a part of an expression reads. -/
def Phrase.reads : Phrase → List Token
  | .expression _ e => e.reads
  | .arguments args => Expr.readsArgs args

theorem Phrase.Derives.reads_sublist
    {phrase : Phrase}
    {tokens : List Token}
    (hDerives : phrase.Derives tokens) :
    phrase.reads.Sublist tokens := by
  induction hDerives with
  | tighter hTighter ih => exact ih
  | assign hName hEquals hValue ih => exact (ih.cons _).cons _
  | @operator tier op left right _ _ _ _ _ _ ihLeft ihRight =>
      have hNode :
          (Phrase.expression tier (tier.node left op right)).reads =
            left.reads ++ right.reads := by
        cases tier <;> rfl
      rw [hNode]
      exact ihLeft.append (ihRight.cons _)
  | sign hOp hOperand ih => exact ih.cons _
  | plainCall hCallee hOpening hParen ih =>
      exact ih.append (List.nil_sublist _)
  | call hCallee hOpening hArgs hCount hParen ihCallee ihArgs =>
      refine ihCallee.append (.cons _ ?_)
      exact List.sublist_append_of_sublist_left ihArgs
  | atom hAtom =>
      cases hAtom with
      | name hName => exact .refl _
      | _ => exact List.nil_sublist _
  | grouping hOpening hInner hClosing ih =>
      refine .cons _ ?_
      exact List.sublist_append_of_sublist_left ih
  | lastArgument hArg ih =>
      simpa [reads, Expr.readsArgs] using ih
  | argument hArg hComma hArgs ihArg ihArgs =>
      exact ihArg.append (ihArgs.cons _)

theorem Stmt.VariableDerives.suspects_sublist
    {s : Stmt}
    {tokens : List Token}
    (hVariable : s.VariableDerives tokens) :
    s.suspects.Sublist tokens := by
  cases hVariable with
  | plain hName hEnd =>
      exact (List.nil_sublist _).cons_cons _
  | initialized hName hEquals hExpr hEnd =>
      refine .cons_cons _ (.cons _ ?_)
      exact List.sublist_append_of_sublist_left hExpr.reads_sublist

theorem Commas.sublist
    {tokens params : List Token}
    (hParams : Commas IsName tokens params) :
    params.Sublist tokens := by
  induction hParams with
  | last hItem =>
      rw [hItem.1]
  | more hItem hComma hMore ih =>
      rw [hItem.1]
      exact (ih.cons _).cons_cons _

theorem ParamsDerive.sublist
    {tokens params : List Token}
    (hParams : ParamsDerive tokens params) :
    params.Sublist tokens := by
  cases hParams with
  | none => exact List.nil_sublist _
  | some hParams hCount => exact hParams.sublist

/- What a `for` loop does first, and its body, can be to blame. -/
theorem suspects_forLoop
    (initializer : Option Stmt)
    (condition : Expr)
    (increment : Option Expr)
    (body : Stmt) :
    (Grammar.forLoop initializer condition increment body).suspects =
      (initializer.map Stmt.suspects).getD [] ++ body.suspects := by
  cases initializer <;> cases increment <;>
    simp [Grammar.forLoop, Stmt.suspects, Stmt.suspectsBody]

/- The tokens of a part of a program that can be to blame. -/
def Clause.suspects : Clause → List Token
  | .statement _ s => s.suspects
  | .declaration s => s.suspects
  | .declarations body => Stmt.suspectsBody body

/- They stand in the order of the text. -/
theorem Clause.Derives.suspects_sublist
    {clause : Clause}
    {tokens : List Token}
    (hDerives : clause.Derives tokens) :
    clause.suspects.Sublist tokens := by
  induction hDerives with
  | expression hExpression =>
      cases hExpression
      exact List.nil_sublist _
  | print hKeyword hExpr hEnd => exact List.nil_sublist _
  | ret hKeyword hValue hEnd =>
      exact (List.nil_sublist _).cons_cons _
  | block hOpening hBody hClosing ih =>
      refine .cons _ ?_
      exact List.sublist_append_of_sublist_left ih
  | ifThen hKeyword hOpening hCondition hClosing hThen ih =>
      refine .cons _ (.cons _ ?_)
      exact List.sublist_append_of_sublist_right (ih.cons _)
  | ifElse hKeyword hOpening hCondition hClosing hThen hElseWord
      hElse ihThen ihElse =>
      refine .cons _ (.cons _ ?_)
      apply List.sublist_append_of_sublist_right
      exact .cons _ (ihThen.append (ihElse.cons _))
  | whileLoop hKeyword hOpening hCondition hClosing hBody ih =>
      refine .cons _ (.cons _ ?_)
      exact List.sublist_append_of_sublist_right (ih.cons _)
  | @forLoop _ _ _ _ _ initializer _ _ _ initials conditions
      increments tokens hKeyword hOpening hInitializer hCondition
      hEnd hIncrement hClosing hBody ih =>
      have hFirst :
          ((initializer.map Stmt.suspects).getD []).Sublist
            initials := by
        cases hInitializer with
        | none => exact List.nil_sublist _
        | var hKeyword hVariable =>
            exact hVariable.suspects_sublist.cons _
        | expression hExpression =>
            cases hExpression
            exact List.nil_sublist _
      show (Grammar.forLoop _ _ _ _).suspects.Sublist _
      rw [suspects_forLoop]
      refine .cons _ (.cons _ (hFirst.append ?_))
      apply List.sublist_append_of_sublist_right
      apply List.Sublist.cons
      exact List.sublist_append_of_sublist_right (ih.cons _)
  | plain hStatement ih => exact ih
  | var hKeyword hVariable =>
      exact hVariable.suspects_sublist.cons _
  | function hKeyword hName hOpening hParams hClosing hBrace hBody
      hLast ih =>
      refine .cons _ (.cons_cons _ (.cons _ ?_))
      refine hParams.sublist.append (.cons _ (.cons _ ?_))
      exact List.sublist_append_of_sublist_left ih
  | done => exact List.nil_sublist _
  | next hFirst hRest ihFirst ihRest => exact ihFirst.append ihRest

end Lox

------------------------------------------------------------
-- Along The Tree
------------------------------------------------------------

namespace Lox.Node

/-
  The tokens of a node that can be to blame. Those of an
  expression can be if it is in an initializer.
-/
def suspects (inside : Bool) : Node → List Token
  | program body => Stmt.suspectsBody body
  | stmt s => s.suspects
  | expr e => if inside then e.reads else []
  | param name => [name]
  | functionBody body => Stmt.suspectsBody body

/- The token of the node itself. -/
def suspect? (inside : Bool) : Node → Option Token
  | stmt (.ret keyword _) => some keyword
  | expr (.variable name _) => if inside then some name else none
  | node => node.declared?

/- Whether the parts of a node are in an initializer. -/
def partsInside (inside : Bool) : Node → Bool
  | expr _ => inside
  | node => node.isInitialized

/-
  The token at the end of a path from a node, from the outside
  in, that can be to blame.
-/
def suspectAt? (inside : Bool) (node : Node) :
    List Nat → Option Token
  | [] => node.suspect? inside
  | index :: path =>
      node.parts[index]?.bind fun part =>
        part.suspectAt? (node.partsInside inside) path

theorem suspects_args (inside : Bool) (args : List Expr) :
    (args.map fun arg => (expr arg).suspects inside).flatten =
      if inside then Expr.readsArgs args else [] := by
  induction args with
  | nil => cases inside <;> rfl
  | cons arg args ih =>
      rw [List.map_cons, List.flatten_cons, ih]
      cases inside <;> simp [suspects, Expr.readsArgs]

theorem suspects_body (inside : Bool) (body : List Stmt) :
    (body.map fun s => (stmt s).suspects inside).flatten =
      Stmt.suspectsBody body := by
  induction body with
  | nil => rfl
  | cons s body ih =>
      rw [List.map_cons, List.flatten_cons, ih]
      rfl

/- The tokens of a node are its own and those of its parts. -/
theorem suspects_eq (inside : Bool) (node : Node) :
    node.suspects inside =
      (node.suspect? inside).toList ++
        (node.parts.map
          (suspects (node.partsInside inside))).flatten := by
  cases node with
  | program body =>
      rw [parts, List.map_map]
      exact (suspects_body _ body).symm
  | functionBody body =>
      rw [parts, List.map_map]
      exact (suspects_body _ body).symm
  | param name => rfl
  | expr e =>
      cases e with
      | call callee paren args =>
          have hArgs := suspects_args inside args
          cases inside <;>
            simp_all [suspects, suspect?, declared?, parts,
              Expr.operands, partsInside, Expr.reads,
              Function.comp_def]
      | _ =>
          cases inside <;>
            simp [suspects, suspect?, declared?, parts,
              Expr.operands, partsInside, Expr.reads]
  | stmt s =>
      cases s with
      | block body =>
          rw [parts, Stmt.parts, List.map_map]
          exact (suspects_body _ body).symm
      | var name initializer =>
          cases initializer <;>
            simp [suspects, suspect?, declared?, parts, Stmt.parts,
              partsInside, isInitialized, Stmt.suspects]
      | ret keyword value =>
          cases value <;>
            simp [suspects, suspect?, parts, Stmt.parts,
              partsInside, isInitialized, Stmt.suspects]
      | function name params body =>
          simp [suspects, suspect?, declared?, parts, Stmt.parts,
            Stmt.suspects, Function.comp_def, ← List.flatMap_def]
      | _ =>
          simp [suspects, suspect?, declared?, parts, Stmt.parts,
            partsInside, isInitialized, Stmt.suspects]

/- A token that can be to blame is one of the node's. -/
theorem mem_suspects
    {inside : Bool}
    {node : Node}
    {path : List Nat}
    {token : Token}
    (hToken : node.suspectAt? inside path = some token) :
    token ∈ node.suspects inside := by
  induction path generalizing node inside with
  | nil =>
      rw [suspectAt?] at hToken
      rw [suspects_eq, hToken]
      exact List.mem_cons_self
  | cons index path ih =>
      rcases Option.bind_eq_some_iff.mp hToken with
        ⟨part, hPart, hInner⟩
      rw [suspects_eq]
      apply List.mem_append_right
      exact
        List.mem_flatten_of_mem
          (List.mem_map_of_mem (List.mem_of_getElem? hPart))
          (ih hInner)

/- Elements of two lists, of which one stands before the other. -/
theorem pair_sublist_flatten
    {α : Type}
    {lists : List (List α)}
    {first second : List α}
    {index other : Nat}
    {a b : α}
    (hFirst : lists[index]? = some first)
    (hSecond : lists[other]? = some second)
    (hOrder : index < other)
    (hMem : a ∈ first)
    (hMem' : b ∈ second) :
    [a, b].Sublist lists.flatten := by
  induction lists generalizing index other with
  | nil => cases hFirst
  | cons list lists ih =>
      rw [List.flatten_cons]
      cases other with
      | zero => omega
      | succ other =>
          cases index with
          | zero =>
              cases hFirst
              have hLater : b ∈ lists.flatten :=
                List.mem_flatten_of_mem
                  (List.mem_of_getElem? (i := other) hSecond) hMem'
              exact
                (List.singleton_sublist.mpr hMem).append
                  (List.singleton_sublist.mpr hLater)
          | succ index =>
              apply List.sublist_append_of_sublist_right
              exact ih hFirst hSecond (Nat.lt_of_succ_lt_succ hOrder)

/- Of two paths the one that comes first has the first token. -/
theorem pair_sublist_suspects
    {inside : Bool}
    {node : Node}
    {path other : List Nat}
    {token token' : Token}
    (hToken : node.suspectAt? inside path = some token)
    (hToken' : node.suspectAt? inside other = some token')
    (hOrder : path < other) :
    [token, token'].Sublist (node.suspects inside) := by
  induction other generalizing node inside path with
  | nil => exact absurd hOrder (List.not_lt_nil path)
  | cons index other ih =>
      rcases Option.bind_eq_some_iff.mp hToken' with
        ⟨part, hPart, hInner⟩
      have hLater :
          (node.parts.map
            (suspects (node.partsInside inside)))[index]? =
            some (part.suspects (node.partsInside inside)) := by
        rw [List.getElem?_map, hPart, Option.map_some]
      rw [suspects_eq]
      cases path with
      | nil =>
          rw [suspectAt?] at hToken
          rw [hToken]
          have hMem :=
            List.mem_flatten_of_mem (List.mem_of_getElem? hLater)
              (mem_suspects hInner)
          exact .cons_cons _ (List.singleton_sublist.mpr hMem)
      | cons first path =>
          rcases Option.bind_eq_some_iff.mp hToken with
            ⟨earlier, hEarlier, hOuter⟩
          apply List.sublist_append_of_sublist_right
          rcases List.cons_lt_cons_iff.mp hOrder with
            hLess | ⟨rfl, hRest⟩
          · have hFirst :
                (node.parts.map
                  (suspects (node.partsInside inside)))[first]? =
                  some
                    (earlier.suspects
                      (node.partsInside inside)) := by
              rw [List.getElem?_map, hEarlier, Option.map_some]
            exact
              pair_sublist_flatten hFirst hLater hLess
                (mem_suspects hOuter) (mem_suspects hInner)
          · rw [hPart] at hEarlier
            cases hEarlier
            exact
              (ih hOuter hInner hRest).trans
                (List.sublist_flatten_of_mem
                  (List.mem_of_getElem? hLater))

end Lox.Node

------------------------------------------------------------
-- Broken Rules
------------------------------------------------------------

namespace Lox.Node

variable {root node : Node} {path : List Nat}
variable {address other : Address} {e e' : ScopeError}

/- The path to a part of a node, and on from there. -/
theorem suspectAt?_append
    {inside : Bool}
    (hNode : root.at? address = some node)
    (path : List Nat) :
    ∃ within,
      root.suspectAt? inside (address.reverse ++ path) =
        node.suspectAt? within path := by
  induction address generalizing node path with
  | nil =>
      cases hNode
      exact ⟨inside, rfl⟩
  | cons index address ih =>
      rcases Option.bind_eq_some_iff.mp hNode with
        ⟨around, hAround, hPart⟩
      rcases ih hAround (index :: path) with ⟨within, hWithin⟩
      refine ⟨around.partsInside within, ?_⟩
      rw [List.reverse_cons, List.append_assoc,
        List.singleton_append, hWithin, suspectAt?, hPart,
        Option.bind_some]

/- A name that is read in an initializer can be to blame. -/
theorem suspectAt?_read
    {e : Expr}
    {token : Token}
    {hops : Option Nat}
    (hNode :
      (expr e).at? path.reverse =
        some (.expr (.variable token hops))) :
    (expr e).suspectAt? true path = some token := by
  induction path generalizing e with
  | nil =>
      cases hNode
      rfl
  | cons index path ih =>
      rw [List.reverse_cons, at?_append] at hNode
      rcases Option.bind_eq_some_iff.mp hNode with
        ⟨part, hPart, hInner⟩
      rw [at?, at?, Option.bind_some] at hPart
      rcases expr_of_mem_parts (List.mem_of_getElem? hPart)
        (.inl ⟨e, rfl⟩) with ⟨inner, rfl⟩
      rw [suspectAt?, hPart, Option.bind_some]
      exact ih hInner

theorem suspect?_of_declared?
    {token : Token}
    (inside : Bool)
    (hDeclared : node.declared? = some token) :
    node.suspect? inside = some token := by
  unfold declared? at hDeclared
  split at hDeclared <;> simp_all [suspect?, declared?]

theorem partsInside_of_isInitialized
    {inside : Bool}
    (hInitialized : node.isInitialized) :
    node.partsInside inside = true := by
  cases node with
  | expr e => cases hInitialized
  | _ => exact hInitialized

/- A broken rule blames a token that can be to blame. -/
theorem Violates.suspectAt?
    (hViolates : root.Violates address e) :
    root.suspectAt? false address.reverse = some e.token := by
  cases hViolates with
  | returnOutsideFunction hHere _ =>
      rcases suspectAt?_append hHere [] with ⟨within, hSame⟩
      rw [List.append_nil] at hSame
      exact hSame
  | alreadyDeclared hHere hDeclared _ _ _ =>
      rcases suspectAt?_append hHere [] with ⟨within, hSame⟩
      rw [List.append_nil] at hSame
      rw [hSame, Node.suspectAt?]
      exact suspect?_of_declared? within hDeclared
  | readsItself hHere _ hInside =>
      rcases hInside.within with ⟨path, index, rfl⟩
      rcases hInside.initialized with ⟨around, hSite, hInitialized⟩
      rcases suspectAt?_append hSite (index :: path.reverse) with
        ⟨within, hSame⟩
      rw [at?_append] at hHere
      rcases Option.bind_eq_some_iff.mp hHere with
        ⟨part, hPart, hRead⟩
      rw [at?, hSite, Option.bind_some] at hPart
      rcases expr_of_mem_parts (List.mem_of_getElem? hPart)
        (.inr hInitialized) with ⟨value, rfl⟩
      rw [List.reverse_append, List.reverse_cons, List.append_assoc,
        List.singleton_append, hSame, Node.suspectAt?, hPart,
        Option.bind_some, partsInside_of_isInitialized hInitialized]
      apply suspectAt?_read
      rw [List.reverse_reverse]
      exact hRead

/-
  In a program that has been read, the order of the tree is
  that of the text, as far as broken rules are concerned.
-/
theorem Violates.tokens_sublist
    {program : List Stmt}
    {tokens : List Token}
    (hDerives : (Clause.declarations program).Derives tokens)
    (hViolates : (Node.program program).Violates address e)
    (hOther : (Node.program program).Violates other e')
    (hOrder : address.Precedes other) :
    [e.token, e'.token].Sublist tokens :=
  (pair_sublist_suspects hViolates.suspectAt? hOther.suspectAt?
    hOrder).trans hDerives.suspects_sublist

end Lox.Node
