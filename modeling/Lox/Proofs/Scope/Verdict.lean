import Lox.Proofs.Scope.Addressing
import Lox.Proofs.Scope.TextOrder

/-
  What a resolver concludes about a whole program.

  Either each use of a name in the program has the number of
  scopes to the nearest declaration before it, and nothing
  else has been recorded; or the first broken rule is blamed,
  and there is one exactly if the scopes are in disorder.

  Key definitions include:
    * `Node.UsedAt`
    * `Node.recorded?`
    * `resolveProgram_locates`
    * `resolveProgram_error_iff`
-/

------------------------------------------------------------
-- Trees That Differ In Their Numbers
------------------------------------------------------------

namespace Lox.Node

/- A name is read or assigned at an address. -/
def UsedAt
    (root : Node)
    (address : Address)
    (token : Token) :
    Prop :=
  ∃ node, root.at? address = some node ∧ node.used? = some token

/- The number of scopes that is filled in at an address. -/
def recorded? (root : Node) (address : Address) : Option Nat :=
  (root.at? address).bind hops?

/- A node without its numbers of scopes. -/
def bare : Node → Node
  | program body => .program (Stmt.bareBody body)
  | stmt s => .stmt s.bare
  | expr e => .expr e.bare
  | param name => .param name
  | functionBody body => .functionBody (Stmt.bareBody body)

theorem map_expr_bare (args : List Expr) :
    (Expr.bareArgs args).map expr = (args.map expr).map bare := by
  induction args with
  | nil => rfl
  | cons arg args ih =>
      rw [Expr.bareArgs, List.map_cons, ih]
      rfl

theorem map_stmt_bare (body : List Stmt) :
    (Stmt.bareBody body).map stmt = (body.map stmt).map bare := by
  induction body with
  | nil => rfl
  | cons s body ih =>
      rw [Stmt.bareBody, List.map_cons, ih]
      rfl

/- The parts of a node do not depend on its numbers. -/
theorem parts_bare (node : Node) :
    node.bare.parts = node.parts.map bare := by
  cases node with
  | program body => exact map_stmt_bare body
  | functionBody body => exact map_stmt_bare body
  | param name => rfl
  | expr e =>
      cases e with
      | call callee paren args =>
          have hArgs := map_expr_bare args
          simp only [bare, Expr.bare, parts, Expr.operands,
            List.map_cons, hArgs]
      | _ => rfl
  | stmt s =>
      cases s with
      | block body => exact map_stmt_bare body
      | var name initializer => cases initializer <;> rfl
      | ret keyword value => cases value <;> rfl
      | function name params body =>
          simp [bare, Stmt.bare, parts, Stmt.parts]
      | _ => rfl

theorem used?_bare (node : Node) :
    node.bare.used? = node.used? := by
  cases node with
  | expr e => cases e <;> rfl
  | _ => rfl

/- A number is filled in only where a name is used. -/
theorem used?_of_hops?
    {node : Node}
    {hops : Nat}
    (hHops : node.hops? = some hops) :
    ∃ token, node.used? = some token := by
  cases node with
  | expr e =>
      cases e with
      | «variable» name _ => exact ⟨name, rfl⟩
      | assign name _ _ => exact ⟨name, rfl⟩
      | _ => cases hHops
  | _ => cases hHops

theorem at?_bare (root : Node) (address : Address) :
    root.bare.at? address = (root.at? address).map bare := by
  induction address with
  | nil => rfl
  | cons index outer ih =>
      rw [at?, ih, at?]
      cases root.at? outer with
      | none => rfl
      | some node =>
          rw [Option.map_some, Option.bind_some, Option.bind_some,
            parts_bare, List.getElem?_map]

/- So are the uses of names, and where they stand. -/
theorem usedAt_bare
    {root : Node}
    {address : Address}
    {token : Token} :
    root.bare.UsedAt address token ↔ root.UsedAt address token := by
  unfold UsedAt
  rw [at?_bare]
  cases root.at? address with
  | none => simp
  | some node => simp [used?_bare]

end Lox.Node

------------------------------------------------------------
-- Whole Programs
------------------------------------------------------------

namespace Lox

open Resolver Resolution Node

/- Where the resolver starts. -/
theorem reached_start (program : List Stmt) :
    (Node.program program).Reached [0] [] .none := by
  have hRoot : (Node.program program).Reached [] [] .none := by
    refine ⟨.nil, by simp [inFunction], ?_⟩
    intro earlier hBefore
    exact absurd hBefore Address.not_precedes_nil
  exact
    hRoot.enter rfl rfl rfl
      (not_violates_of_blame?
        (show _ = some (Node.program program) from rfl) rfl)

/- The resolver goes through the program. -/
theorem meets_program (program : List Stmt) :
    (Stmt.resolveBody program).Meets (.program program) {}
      fun program' u =>
        (Node.program program).WalkedParts [] 0 {}
          (program'.map .stmt) u ∧
            program'.length = program.length :=
  Stmt.meetsBody program
    (holds_body (show _ = some (Node.program program) from rfl)
      rfl)
    (reached_start program)

/- All that is in a program comes before its end. -/
theorem Node.precedes_end
    {program : List Stmt}
    {node : Node}
    {address : Address}
    (hNode : (Node.program program).at? address = some node) :
    address.Precedes [program.length] := by
  apply Address.precedes_cons_iff.mpr
  rcases Address.eq_or_isWithin_of_append
    (List.append_nil address).symm with rfl | hWithin
  · exact .inr (.inl rfl)
  · have hRoot :
        (Node.program program).at? [] = some (.program program) :=
      rfl
    have hPart := exists_part_of_isWithin hRoot hNode hWithin
    rw [Node.parts, List.length_map] at hPart
    exact .inr (.inr hPart)

variable {program : List Stmt} {e : ScopeError}

/- A program in order is resolved, and any other is refused. -/
theorem resolveProgram_meets (program : List Stmt) :
    match resolveProgram program with
    | .ok resolved =>
        (∃ u, (Node.program program).WalkedParts [] 0 {}
          (resolved.program.map .stmt) u ∧
            u.recorded.size = resolved.recorded) ∧
          ∀ address e,
            ¬ (Node.program program).Violates address e
    | .error e =>
        ∃ address,
          (Node.program program).FirstViolates address e := by
  have hMeets := meets_program program
  unfold Meets at hMeets
  unfold resolveProgram
  cases hRun : Stmt.resolveBody program {} with
  | error e u =>
      rw [hRun] at hMeets
      exact hMeets
  | ok program' u =>
      rw [hRun] at hMeets
      rcases hMeets with ⟨hParts, hLength⟩
      refine ⟨⟨u, hParts, rfl⟩, ?_⟩
      intro address e hViolates
      rcases hViolates.blame with ⟨node, hNode, _⟩
      have hReached := hParts.reached
      rw [List.length_map, hLength, Nat.zero_add] at hReached
      exact hReached.clean _ (precedes_end hNode) e hViolates

end Lox

------------------------------------------------------------
-- Lexical Addressing
------------------------------------------------------------

namespace Lox

open Node

/-
  The numbers of a program that resolves are those of lexical
  addressing. The program is filled in and not changed
  otherwise. At each use of a name stands the least number of
  a scope around it, counted outward from 0, that declares the
  name before the use, and nothing stands there exactly if no
  scope does. There are no other entries, and as many of them
  as numbers have been recorded.
-/
theorem resolveProgram_locates
    {program : List Stmt}
    {resolved : Resolved}
    (hResolve : resolveProgram program = .ok resolved) :
    Stmt.bareBody resolved.program = Stmt.bareBody program ∧
    (∀ address token,
      (Node.program program).UsedAt address token →
        (Node.program program).Locates address token.lexeme
          ((Node.program resolved.program).recorded? address)) ∧
    (∀ address ∈ (Node.program resolved.program).entries,
      ∃ token, (Node.program program).UsedAt address token) ∧
    (Node.program resolved.program).entries.encard =
      resolved.recorded := by
  have hBare := bare_of_resolveProgram hResolve
  have hSame :
      (Node.program resolved.program).bare =
        (Node.program program).bare := by
    rw [bare, bare, hBare]
  have hMeets := resolveProgram_meets program
  rw [hResolve] at hMeets
  rcases hMeets with ⟨⟨u, hParts, hRecorded⟩, _⟩
  refine ⟨hBare, ?_, ?_, ?_⟩
  · intro address token hUsed
    rw [← usedAt_bare, ← hSame, usedAt_bare] at hUsed
    rcases hUsed with ⟨node, hNode, hToken⟩
    rw [recorded?, hNode, Option.bind_some]
    rcases List.eq_nil_or_concat' address with
      rfl | ⟨path, index, rfl⟩
    · cases hNode
      cases hToken
    · rw [at?_append] at hNode
      rcases Option.bind_eq_some_iff.mp hNode with
        ⟨part, hPart, hInner⟩
      have hFills :=
        hParts.fills index part hPart path node token hInner hToken
      rwa [Nat.zero_add] at hFills
  · rintro address ⟨node, hops, hNode, hHops⟩
    have hUsed :
        ∃ token,
          (Node.program resolved.program).UsedAt address token := by
      rcases used?_of_hops? hHops with ⟨token, hToken⟩
      exact ⟨token, node, hNode, hToken⟩
    rcases hUsed with ⟨token, hUsed⟩
    rw [← usedAt_bare, hSame, usedAt_bare] at hUsed
    exact ⟨token, hUsed⟩
  · have hCount := hParts.recorded
    rw [hRecorded] at hCount
    rw [encard_entries, hCount]
    simp [Node.parts, hops?]

/-
  The tree of
  `fun f(a) { { print a; var a; print a; print f; } }`.
-/
def shadowing : List Stmt :=
  [ .function ⟨.identifier, "f", .nil, 1, 5⟩
      [⟨.identifier, "a", .nil, 1, 7⟩]
      [ .block
          [ .print (.variable ⟨.identifier, "a", .nil, 1, 20⟩ none),
            .var ⟨.identifier, "a", .nil, 1, 27⟩ none,
            .print (.variable ⟨.identifier, "a", .nil, 1, 36⟩ none),
            .print
              (.variable ⟨.identifier, "f", .nil, 1, 45⟩ none) ] ] ]

/-
  The same text is the parameter before the declaration in the
  block and the variable after it; the function is a global.
-/
theorem resolveProgram_locates_shadowing :
    ∃ resolved,
      resolveProgram shadowing = .ok resolved ∧
      (Node.program shadowing).Locates [0, 0, 0, 1, 0] "a"
        (some 2) ∧
      (Node.program shadowing).Locates [0, 2, 0, 1, 0] "a"
        (some 0) ∧
      (Node.program shadowing).Locates [0, 3, 0, 1, 0] "f" none ∧
      (Node.program resolved.program).entries.encard = 2 := by
  have hResolve :
      resolveProgram shadowing =
        .ok
          ⟨[ .function ⟨.identifier, "f", .nil, 1, 5⟩
              [⟨.identifier, "a", .nil, 1, 7⟩]
              [ .block
                  [ .print
                      (.variable ⟨.identifier, "a", .nil, 1, 20⟩
                        (some 2)),
                    .var ⟨.identifier, "a", .nil, 1, 27⟩ none,
                    .print
                      (.variable ⟨.identifier, "a", .nil, 1, 36⟩
                        (some 0)),
                    .print
                      (.variable ⟨.identifier, "f", .nil, 1, 45⟩
                        none) ] ] ],
            2⟩ := by
    rfl
  rcases resolveProgram_locates hResolve with
    ⟨_, hUses, _, hCount⟩
  have hParameter := hUses [0, 0, 0, 1, 0] _ ⟨_, rfl, rfl⟩
  have hVariable := hUses [0, 2, 0, 1, 0] _ ⟨_, rfl, rfl⟩
  have hGlobal := hUses [0, 3, 0, 1, 0] _ ⟨_, rfl, rfl⟩
  exact
    ⟨_, hResolve, hParameter, hVariable, hGlobal, hCount⟩

end Lox

------------------------------------------------------------
-- Broken Rules
------------------------------------------------------------

namespace Lox

open Node

/-
  The resolver refuses exactly the programs whose scopes are in
  disorder, and blames the first broken rule, by its place in
  the tree. If the program has been read from tokens, all other
  broken rules come later in the text as well.
-/
theorem resolveProgram_error_iff (program : List Stmt) :
    ((∃ e, resolveProgram program = .error e) ↔
      (Node.program program).IllScoped) ∧
    (∀ e, resolveProgram program = .error e ↔
      ∃ address,
        (Node.program program).FirstViolates address e) ∧
    ∀ limits tokens,
      (parse limits tokens).errors = [] →
        (parse limits tokens).program = program →
          ∀ e, resolveProgram program = .error e →
            ∃ address,
              (Node.program program).Violates address e ∧
                ∀ other e',
                  (Node.program program).Violates other e' →
                    other ≠ address →
                      [e.token, e'.token].Sublist tokens := by
  have hMeets := resolveProgram_meets program
  have hRefused :
      ∀ e, resolveProgram program = .error e ↔
        ∃ address,
          (Node.program program).FirstViolates address e := by
    intro e
    cases hResolve : resolveProgram program with
    | ok resolved =>
        rw [hResolve] at hMeets
        constructor
        · intro hFalse
          cases hFalse
        · rintro ⟨address, hFirst⟩
          exact absurd hFirst.1 (hMeets.2 address e)
    | error other =>
        rw [hResolve] at hMeets
        rcases hMeets with ⟨site, hSite⟩
        constructor
        · intro hSame
          cases hSame
          exact ⟨site, hSite⟩
        · rintro ⟨address, hFirst⟩
          rw [hSite.unique hFirst]
  refine ⟨?_, hRefused, ?_⟩
  · rw [illScoped_iff]
    constructor
    · rintro ⟨e, hError⟩
      rcases (hRefused e).mp hError with ⟨address, hFirst⟩
      exact ⟨address, e, hFirst.1⟩
    · rintro ⟨address, e, hViolates⟩
      cases hResolve : resolveProgram program with
      | ok resolved =>
          rw [hResolve] at hMeets
          exact absurd hViolates (hMeets.2 address e)
      | error other => exact ⟨other, rfl⟩
  · rintro limits tokens hErrors rfl e hError
    rcases (hRefused e).mp hError with ⟨address, hFirst⟩
    refine ⟨address, hFirst.1, ?_⟩
    intro other e' hOther hNe
    rcases Address.precedes_trichotomy address other with
      hAfter | hSame | hBefore
    · have hTokens :=
        hFirst.1.tokens_sublist (derives_of_parse hErrors) hOther
          hAfter
      exact hTokens.trans (List.takeWhile_sublist _)
    · exact absurd hSame.symm hNe
    · exact absurd hOther (hFirst.2 other hBefore e')

/- The tokens of `{ var a; var a = a; }`. -/
def declaredTwice : List Token :=
  [ ⟨.leftBrace, "\x7b", .nil, 1, 1⟩, ⟨.varKw, "var", .nil, 1, 3⟩,
    ⟨.identifier, "a", .nil, 1, 7⟩, ⟨.semicolon, ";", .nil, 1, 8⟩,
    ⟨.varKw, "var", .nil, 1, 10⟩,
    ⟨.identifier, "a", .nil, 1, 14⟩, ⟨.equal, "=", .nil, 1, 16⟩,
    ⟨.identifier, "a", .nil, 1, 18⟩,
    ⟨.semicolon, ";", .nil, 1, 19⟩,
    ⟨.rightBrace, "\x7d", .nil, 1, 21⟩, ⟨.eof, "", .nil, 1, 22⟩ ]

/-
  Two rules are broken here, and the second declaration comes
  before what it is initialized with.
-/
theorem resolveProgram_error_declaredTwice :
    let program := (parse ⟨110, 0, 0⟩ declaredTwice).program
    (parse ⟨110, 0, 0⟩ declaredTwice).errors = [] ∧
    (Node.program program).IllScoped ∧
    resolveProgram program =
      .error ⟨.alreadyDeclared, ⟨.identifier, "a", .nil, 1, 14⟩⟩ ∧
    ∃ address,
      ∀ other e',
        (Node.program program).Violates other e' →
          other ≠ address →
            [⟨.identifier, "a", .nil, 1, 14⟩, e'.token].Sublist
              declaredTwice := by
  intro program
  have hErrors :
      (parse ⟨110, 0, 0⟩ declaredTwice).errors = [] := by
    rfl
  have hProgram :
      program =
        [ .block
            [ .var ⟨.identifier, "a", .nil, 1, 7⟩ none,
              .var ⟨.identifier, "a", .nil, 1, 14⟩
                (some
                  (.variable ⟨.identifier, "a", .nil, 1, 18⟩
                    none)) ] ] := by
    rfl
  have hError :
      resolveProgram program =
        .error
          ⟨.alreadyDeclared, ⟨.identifier, "a", .nil, 1, 14⟩⟩ := by
    rw [hProgram]
    rfl
  rcases resolveProgram_error_iff program with
    ⟨hRefused, _, hFirst⟩
  rcases hFirst _ _ hErrors rfl _ hError with
    ⟨address, _, hOthers⟩
  exact
    ⟨hErrors, hRefused.mp ⟨_, hError⟩, hError, address, hOthers⟩

end Lox
