import Lox.Proofs.Scope.Table

/-
  A resolver that is kept for one program after another.

  However a program ends, at whatever depth of blocks and
  functions, the resolver is back at the top level, outside of
  functions. So the next program is resolved as if it were the
  first one. What it enters in the table stands at addresses
  of its own, and where it ends well these are the numbers in
  its resolved tree.

  Key definitions include:
    * `Entered`
    * `PartsEntered`
    * `tabulateProgram`
    * `Resolver.keepResolving`
    * `Tabulator.keepResolving`
    * `resolver_survives`
-/

------------------------------------------------------------
-- Entries Below An Address
------------------------------------------------------------

namespace Lox

/-
  The table has come to have the numbers of the tree that was
  filled in at an address, and is as before elsewhere.
-/
structure Entered
    (site : Address)
    (before : Table)
    (filled : Node)
    (after : Table) :
    Prop where
  inside :
    ∀ path : Address,
      after (path ++ site) =
        ((filled.at? path).bind Node.hops?).or
          (before (path ++ site))
  outside :
    ∀ address : Address,
      ¬ site <:+ address → after address = before address

/-
  It has come to have those of some parts of the node at the
  address, from a given one on.
-/
structure PartsEntered
    (site : Address)
    (first : Nat)
    (before : Table)
    (parts : List Node)
    (after : Table) :
    Prop where
  inside :
    ∀ (path : Address) (index : Nat),
      after (path ++ (first + index) :: site) =
        ((parts[index]?.bind fun part => part.at? path).bind
            Node.hops?).or
          (before (path ++ (first + index) :: site))
  outside :
    ∀ address : Address,
      (∀ index, ¬ (first + index) :: site <:+ address) →
        after address = before address

variable {site : Address} {before middle after : Table}
variable {filled part : Node} {parts : List Node} {first : Nat}

theorem Address.not_suffix_part
    {index other : Nat}
    (hOther : index ≠ other)
    (path : Address) :
    ¬ index :: site <:+ path ++ other :: site := by
  rintro ⟨front, hSame⟩
  have hTails := (List.append_inj' hSame rfl).2
  injection hTails with hIndex
  exact hOther hIndex

theorem Address.not_suffix_self (index : Nat) (site : Address) :
    ¬ index :: site <:+ site := by
  intro hSuffix
  exact Nat.not_succ_le_self site.length hSuffix.length_le

open Address

theorem partsEntered_nil :
    PartsEntered site first before [] before where
  inside path index := by simp
  outside _ _ := rfl

/- The first of the parts, and then the others. -/
theorem Entered.cons
    (hPart : Entered (first :: site) before part middle)
    (hParts : PartsEntered site (first + 1) middle parts after) :
    PartsEntered site first before (part :: parts) after := by
  constructor
  · intro path index
    cases index with
    | zero =>
        have hLater :
            after (path ++ first :: site) =
              middle (path ++ first :: site) := by
          apply hParts.outside
          intro index
          exact not_suffix_part (by omega) path
        exact hLater.trans (hPart.inside path)
    | succ index =>
        have hLater := hParts.inside path index
        have hEarlier :
            middle (path ++ (first + 1 + index) :: site) =
              before (path ++ (first + 1 + index) :: site) := by
          apply hPart.outside
          exact not_suffix_part (by omega) path
        rw [hEarlier, Nat.add_assoc, Nat.add_comm 1 index] at hLater
        simpa using hLater
  · intro address hOutside
    have hLater : after address = middle address := by
      apply hParts.outside
      intro index
      rw [Nat.add_assoc]
      exact hOutside (1 + index)
    exact hLater.trans (hPart.outside address (hOutside 0))

/- A node is entered once its parts and its number are. -/
theorem PartsEntered.node
    (hParts : PartsEntered site 0 before filled.parts middle)
    (hAfter : after = middle.enter site filled.hops?) :
    Entered site before filled after := by
  have hOther :
      ∀ address, address ≠ site → after address = middle address := by
    intro address hAddress
    rw [hAfter]
    cases filled.hops? with
    | none => rfl
    | some hops => exact Function.update_of_ne hAddress _ _
  constructor
  · intro path
    rcases List.eq_nil_or_concat' path with rfl | ⟨inner, index, rfl⟩
    · have hBefore : middle site = before site := by
        apply hParts.outside
        intro index
        exact not_suffix_self _ site
      rw [List.nil_append, ← hBefore, hAfter, Node.at?]
      cases hHops : filled.hops? with
      | none => simp [Table.enter, hHops]
      | some hops => simp [Table.enter, hHops]
    · have hInner := hParts.inside inner index
      have hSite : inner ++ index :: site ≠ site := by
        intro hSame
        have hSuffix : index :: site <:+ site := ⟨inner, hSame⟩
        exact not_suffix_self index site hSuffix
      rw [Nat.zero_add] at hInner
      rw [List.append_assoc, List.singleton_append,
        hOther _ hSite, hInner, Node.at?_append]
      rfl
  · intro address hOutside
    have hSite : address ≠ site := by
      rintro rfl
      exact hOutside (List.suffix_refl _)
    rw [hOther address hSite]
    apply hParts.outside
    intro index hSuffix
    exact hOutside ((List.suffix_cons _ site).trans hSuffix)

/- So is a node without a number of its own. -/
theorem PartsEntered.plainNode
    (hParts : PartsEntered site 0 before filled.parts after)
    (hHops : filled.hops? = none) :
    Entered site before filled after := by
  apply hParts.node
  rw [hHops]
  rfl

theorem Entered.only
    (hPart : Entered (first :: site) before part after) :
    PartsEntered site first before [part] after :=
  hPart.cons partsEntered_nil

/- Parameters stand before the body, and have no numbers. -/
theorem PartsEntered.afterParams
    (params : List Token)
    (hParts :
      PartsEntered site (first + params.length) before parts
        after) :
    PartsEntered site first before (params.map .param ++ parts)
      after := by
  induction params generalizing first with
  | nil => exact hParts
  | cons param params ih =>
      have hParam :
          Entered (first :: site) before (.param param) before :=
        partsEntered_nil.plainNode rfl
      apply hParam.cons
      apply ih
      rwa [List.length_cons, Nat.add_comm params.length 1,
        ← Nat.add_assoc] at hParts

end Lox

------------------------------------------------------------
-- Steps That Enter
------------------------------------------------------------

namespace Lox.Tabulation

variable {α : Type} {t u : Tabulator} {a : α}

theorem table_of_plainly
    {step : Resolution α}
    (hRun : plainly step t = .ok a u) :
    u.table = t.table := by
  unfold plainly at hRun
  split at hRun <;> cases hRun
  rfl

theorem table_of_locate
    {site : Address}
    {name : Token}
    {hops : Option Nat}
    (hRun : locate site name t = .ok hops u) :
    u.table = t.table.enter site hops := by
  rcases bind_eq_ok_iff.mp hRun with ⟨found, v, hFound, hRest⟩
  rcases bind_eq_ok_iff.mp hRest with ⟨_, w, hEnter, hEnd⟩
  cases hEnter
  cases hEnd
  rw [← table_of_plainly hFound]

/- What is entered elsewhere is entered. -/
theorem elsewhere_eq_ok
    {there : Resolver → Resolver}
    {back : Resolver → Resolver → Resolver}
    {step : Tabulation α}
    (hRun : elsewhere there back step t = .ok a u) :
    ∃ s v, step s = .ok a v ∧ s.table = t.table ∧
      u.table = v.table := by
  unfold elsewhere at hRun
  split at hRun
  · rename_i v hStep
    cases hRun
    exact ⟨_, v, hStep, rfl, rfl⟩
  · cases hRun

end Lox.Tabulation

namespace Lox

open Tabulation

mutual

theorem Expr.entered
    (e : Expr)
    {site : Address}
    {filled : Expr}
    {t u : Tabulator}
    (hRun : e.tabulate site t = .ok filled u) :
    Entered site t.table (.expr filled) u.table := by
  cases e with
  | literal value =>
      rw [Expr.tabulate] at hRun
      cases hRun
      exact partsEntered_nil.plainNode rfl
  | «variable» name hops =>
      rw [Expr.tabulate] at hRun
      rcases bind_eq_ok_iff.mp hRun with ⟨_, v, hCheck, hRest⟩
      rcases bind_eq_ok_iff.mp hRest with ⟨hops, w, hLocate, hEnd⟩
      cases hEnd
      apply partsEntered_nil.node
      rw [table_of_locate hLocate, table_of_plainly hCheck]
      rfl
  | assign name value hops =>
      rw [Expr.tabulate] at hRun
      rcases bind_eq_ok_iff.mp hRun with ⟨value', v, hValue, hRest⟩
      rcases bind_eq_ok_iff.mp hRest with ⟨hops, w, hLocate, hEnd⟩
      cases hEnd
      exact (value.entered hValue).only.node (table_of_locate hLocate)
  | binary left op right | logical left op right =>
      rw [Expr.tabulate] at hRun
      rcases bind_eq_ok_iff.mp hRun with ⟨left', v, hLeft, hRest⟩
      rcases bind_eq_ok_iff.mp hRest with ⟨right', w, hRight, hEnd⟩
      cases hEnd
      have hParts :=
        (left.entered hLeft).cons (right.entered hRight).only
      exact hParts.plainNode rfl
  | unary op operand | grouping operand =>
      rw [Expr.tabulate] at hRun
      rcases bind_eq_ok_iff.mp hRun with
        ⟨operand', v, hOperand, hEnd⟩
      cases hEnd
      exact (operand.entered hOperand).only.plainNode rfl
  | call callee paren args =>
      rw [Expr.tabulate] at hRun
      rcases bind_eq_ok_iff.mp hRun with
        ⟨callee', v, hCallee, hRest⟩
      rcases bind_eq_ok_iff.mp hRest with ⟨args', w, hArgs, hEnd⟩
      cases hEnd
      have hParts :=
        (callee.entered hCallee).cons (Expr.args_entered args hArgs)
      exact hParts.plainNode rfl

theorem Expr.args_entered
    (args : List Expr)
    {site : Address}
    {first : Nat}
    {filled : List Expr}
    {t u : Tabulator}
    (hRun : Expr.tabulateArgs site first args t = .ok filled u) :
    PartsEntered site first t.table (filled.map .expr) u.table := by
  cases args with
  | nil =>
      rw [Expr.tabulateArgs] at hRun
      cases hRun
      exact partsEntered_nil
  | cons arg args =>
      rw [Expr.tabulateArgs] at hRun
      rcases bind_eq_ok_iff.mp hRun with ⟨arg', v, hArg, hRest⟩
      rcases bind_eq_ok_iff.mp hRest with ⟨args', w, hArgs, hEnd⟩
      cases hEnd
      exact (arg.entered hArg).cons (Expr.args_entered args hArgs)

end

mutual

theorem Stmt.entered
    (s : Stmt)
    {site : Address}
    {filled : Stmt}
    {t u : Tabulator}
    (hRun : s.tabulate site t = .ok filled u) :
    Entered site t.table (.stmt filled) u.table := by
  cases s with
  | expression value | print value =>
      rw [Stmt.tabulate] at hRun
      rcases bind_eq_ok_iff.mp hRun with ⟨value', v, hValue, hEnd⟩
      cases hEnd
      exact (value.entered hValue).only.plainNode rfl
  | var name initializer =>
      cases initializer with
      | none =>
          rw [Stmt.tabulate] at hRun
          rcases bind_eq_ok_iff.mp hRun with ⟨_, v, hDeclare, hRest⟩
          rcases bind_eq_ok_iff.mp hRest with ⟨_, w, hDefine, hEnd⟩
          cases hEnd
          rw [table_of_plainly hDefine, table_of_plainly hDeclare]
          exact partsEntered_nil.plainNode rfl
      | some value =>
          rw [Stmt.tabulate] at hRun
          rcases bind_eq_ok_iff.mp hRun with ⟨_, v, hDeclare, hRest⟩
          rcases bind_eq_ok_iff.mp hRest with
            ⟨value', w, hValue, hRest⟩
          rcases bind_eq_ok_iff.mp hRest with ⟨_, x, hDefine, hEnd⟩
          cases hEnd
          rw [table_of_plainly hDefine, ← table_of_plainly hDeclare]
          exact (value.entered hValue).only.plainNode rfl
  | block body =>
      rw [Stmt.tabulate] at hRun
      rcases bind_eq_ok_iff.mp hRun with ⟨body', v, hWithin, hEnd⟩
      cases hEnd
      rcases elsewhere_eq_ok hWithin with
        ⟨w, x, hBody, hBefore, hAfter⟩
      rw [← hBefore, hAfter]
      exact (Stmt.body_entered body hBody).plainNode rfl
  | ifThen condition thenBranch =>
      rw [Stmt.tabulate] at hRun
      rcases bind_eq_ok_iff.mp hRun with
        ⟨condition', v, hCondition, hRest⟩
      rcases bind_eq_ok_iff.mp hRest with
        ⟨thenBranch', w, hThen, hEnd⟩
      cases hEnd
      have hParts :=
        (condition.entered hCondition).cons
          (thenBranch.entered hThen).only
      exact hParts.plainNode rfl
  | ifElse condition thenBranch elseBranch =>
      rw [Stmt.tabulate] at hRun
      rcases bind_eq_ok_iff.mp hRun with
        ⟨condition', v, hCondition, hRest⟩
      rcases bind_eq_ok_iff.mp hRest with
        ⟨thenBranch', w, hThen, hRest⟩
      rcases bind_eq_ok_iff.mp hRest with
        ⟨elseBranch', x, hElse, hEnd⟩
      cases hEnd
      have hParts :=
        (condition.entered hCondition).cons
          ((thenBranch.entered hThen).cons
            (elseBranch.entered hElse).only)
      exact hParts.plainNode rfl
  | loop condition body =>
      rw [Stmt.tabulate] at hRun
      rcases bind_eq_ok_iff.mp hRun with
        ⟨condition', v, hCondition, hRest⟩
      rcases bind_eq_ok_iff.mp hRest with ⟨body', w, hBody, hEnd⟩
      cases hEnd
      have hParts :=
        (condition.entered hCondition).cons (body.entered hBody).only
      exact hParts.plainNode rfl
  | function name params body =>
      rw [Stmt.tabulate] at hRun
      rcases bind_eq_ok_iff.mp hRun with ⟨_, v, hDeclare, hRest⟩
      rcases bind_eq_ok_iff.mp hRest with ⟨_, w, hDefine, hRest⟩
      rcases bind_eq_ok_iff.mp hRest with ⟨body', x, hInside, hEnd⟩
      cases hEnd
      rcases elsewhere_eq_ok hInside with
        ⟨y, y', hScope, hBefore, hAfter⟩
      rcases elsewhere_eq_ok hScope with
        ⟨z, z', hParams, hBefore', hAfter'⟩
      rcases bind_eq_ok_iff.mp hParams with
        ⟨_, s, hDeclareParams, hWithin⟩
      rcases elsewhere_eq_ok hWithin with
        ⟨q, q', hBody, hBefore'', hAfter''⟩
      have hStart : q.table = t.table := by
        rw [hBefore'', table_of_plainly hDeclareParams, hBefore',
          hBefore, table_of_plainly hDefine,
          table_of_plainly hDeclare]
      rw [← hStart, hAfter, hAfter', hAfter'']
      have hNode :
          Entered (params.length :: site) q.table
            (.functionBody body') q'.table :=
        (Stmt.body_entered body hBody).plainNode rfl
      have hLast :
          PartsEntered site (0 + params.length) q.table
            [.functionBody body'] q'.table := by
        rw [Nat.zero_add]
        exact hNode.only
      exact (hLast.afterParams params).plainNode rfl
  | ret keyword value =>
      cases value with
      | none =>
          rw [Stmt.tabulate] at hRun
          rcases bind_eq_ok_iff.mp hRun with ⟨_, v, hCheck, hEnd⟩
          cases hEnd
          rw [table_of_plainly hCheck]
          exact partsEntered_nil.plainNode rfl
      | some value =>
          rw [Stmt.tabulate] at hRun
          rcases bind_eq_ok_iff.mp hRun with ⟨_, v, hCheck, hRest⟩
          rcases bind_eq_ok_iff.mp hRest with
            ⟨value', w, hValue, hEnd⟩
          cases hEnd
          rw [← table_of_plainly hCheck]
          exact (value.entered hValue).only.plainNode rfl

theorem Stmt.body_entered
    (body : List Stmt)
    {site : Address}
    {first : Nat}
    {filled : List Stmt}
    {t u : Tabulator}
    (hRun : Stmt.tabulateBody site first body t = .ok filled u) :
    PartsEntered site first t.table (filled.map .stmt) u.table := by
  cases body with
  | nil =>
      rw [Stmt.tabulateBody] at hRun
      cases hRun
      exact partsEntered_nil
  | cons stmt body =>
      rw [Stmt.tabulateBody] at hRun
      rcases bind_eq_ok_iff.mp hRun with ⟨stmt', v, hStmt, hRest⟩
      rcases bind_eq_ok_iff.mp hRest with ⟨body', w, hBody, hEnd⟩
      cases hEnd
      exact (stmt.entered hStmt).cons (Stmt.body_entered body hBody)

end

end Lox

------------------------------------------------------------
-- One Program After Another
------------------------------------------------------------

namespace Lox

/-
  Resolves a program that has a number among several: it is
  the root at the address with this number alone.
-/
def tabulateProgram
    (number : Nat)
    (program : List Stmt) :
    Tabulation (List Stmt) :=
  Stmt.tabulateBody [number] 0 program

/-
  The resolver after some programs, each of which is resolved
  by the one that the program before has left.
-/
def Resolver.keepResolving
    (programs : List (List Stmt))
    (r : Resolver) :
    Resolver :=
  programs.foldl
    (fun r program => stateLeft (Stmt.resolveBody program r)) r

namespace Tabulator

/- The same with a table, from a given number on. -/
def keepResolving :
    (number : Nat) → List (List Stmt) → Tabulator → Tabulator
  | _, [], t => t
  | number, program :: programs, t =>
      keepResolving (number + 1) programs
        (stateLeft (tabulateProgram number program t))

/-
  A tabulator between programs: at the top level, outside of
  functions, with entries only for the programs before.
-/
structure Idle (number : Nat) (t : Tabulator) : Prop where
  scopes : t.resolver.scopes = []
  enclosing : t.resolver.enclosing = .none
  entries :
    ∀ address : Address,
      (∀ earlier < number, ¬ [earlier] <:+ address) →
        t.table address = none

theorem idle_empty : Idle 0 {} where
  scopes := rfl
  enclosing := rfl
  entries _ _ := rfl

variable {number : Nat} {t : Tabulator}

theorem tabulates_program
    (number : Nat)
    (program : List Stmt) :
    Tabulation.Tabulates [number] (tabulateProgram number program)
      (Stmt.resolveBody program) :=
  Stmt.body_tabulates program (List.suffix_refl _) 0

theorem resolver_left
    (number : Nat)
    (program : List Stmt)
    (t : Tabulator) :
    (stateLeft (tabulateProgram number program t)).resolver =
      stateLeft (Stmt.resolveBody program t.resolver) := by
  rw [← (tabulates_program number program).erases t,
    stateLeft_mapState]

/- However a program ends, the tabulator is idle again. -/
theorem Idle.next
    (hIdle : t.Idle number)
    (program : List Stmt) :
    (stateLeft (tabulateProgram number program t)).Idle
      (number + 1) := by
  have hStays :=
    Resolution.compositional_restores.bodies program t.resolver
  constructor
  · rw [resolver_left]
    exact hStays.scopes_eq_nil hIdle.scopes
  · rw [resolver_left]
    exact hStays.enclosing.trans hIdle.enclosing
  · intro address hOutside
    have hHere :=
      (tabulates_program number program).confined t address
        (hOutside number (Nat.lt_succ_self number))
    rw [hHere]
    apply hIdle.entries
    intro earlier hEarlier
    exact hOutside earlier (Nat.lt_succ_of_lt hEarlier)

/- By induction on the programs, each of which is idled after. -/
theorem Idle.keepResolving
    (hIdle : t.Idle number)
    (programs : List (List Stmt)) :
    (keepResolving number programs t).Idle
        (number + programs.length) ∧
      (Tabulator.keepResolving number programs t).resolver =
        Resolver.keepResolving programs t.resolver := by
  induction programs generalizing number t with
  | nil => exact ⟨hIdle, rfl⟩
  | cons program programs ih =>
      have hRest := ih (hIdle.next program)
      rw [List.length_cons, Nat.add_comm programs.length 1,
        ← Nat.add_assoc]
      refine ⟨hRest.1, hRest.2.trans ?_⟩
      rw [resolver_left]
      rfl

/- An idle tabulator is an empty one, but for what it has kept. -/
theorem Idle.eq_followedBy (hIdle : t.Idle number) :
    t = t.followedBy {} := by
  rcases t with ⟨⟨scopes, enclosing, recorded⟩, table⟩
  have hScopes : scopes = [] := hIdle.scopes
  have hEnclosing : enclosing = .none := hIdle.enclosing
  subst hScopes hEnclosing
  simp [followedBy, Resolver.preceded]

end Tabulator

namespace Tabulator

variable {number : Nat} {t : Tabulator}

/- The numbers of a program that is resolved are all entered. -/
theorem table_of_tabulateProgram
    {program filled : List Stmt}
    {u : Tabulator}
    (hRun : tabulateProgram number program t = .ok filled u)
    (path : Address) :
    u.table (path ++ [number]) =
      (((Node.program filled).at? path).bind Node.hops?).or
        (t.table (path ++ [number])) := by
  have hRoot :
      Entered [number] t.table (.program filled) u.table :=
    (Stmt.body_entered program hRun).plainNode rfl
  exact hRoot.inside path

/- What is entered for other programs is kept. -/
theorem table_of_other
    {other : Nat}
    (hOther : other ≠ number)
    (program : List Stmt)
    (t : Tabulator)
    (path : Address) :
    (stateLeft (tabulateProgram number program t)).table
        (path ++ [other]) =
      t.table (path ++ [other]) := by
  apply (tabulates_program number program).confined
  exact Address.not_suffix_part hOther.symm path

/- Nothing is entered yet for the program that comes next. -/
theorem Idle.table_eq_none
    (hIdle : t.Idle number)
    (path : Address) :
    t.table (path ++ [number]) = none := by
  apply hIdle.entries
  intro earlier hEarlier
  exact Address.not_suffix_part (Nat.ne_of_lt hEarlier) path

/-
  An idle tabulator goes on like an empty one, and what it has
  kept comes before.
-/
theorem Idle.tabulateProgram_eq
    (hIdle : t.Idle number)
    (program : List Stmt) :
    tabulateProgram number program t =
      mapState t.followedBy (tabulateProgram number program {}) := by
  rw [← (tabulates_program number program).ignoresPast,
    ← hIdle.eq_followedBy]

end Tabulator

/-
  A resolver that is kept for one program after another, of
  which some are given up at an error, resolves the next one
  as a fresh resolver does: it ends in the same way, with the
  same numbers recorded in the same order and entered for the
  same uses, and is at the top level again, outside of
  functions. What was entered for the programs before is not
  changed. And if the program is resolved, its numbers in the
  table are those in the resolved tree.
-/
theorem resolver_survives
    (earlier : List (List Stmt))
    (program : List Stmt) :
    let number := earlier.length
    let kept := Tabulator.keepResolving 0 earlier {}
    let next := tabulateProgram number program kept
    let fresh := tabulateProgram number program {}
    kept.resolver = Resolver.keepResolving earlier {} ∧
      mapState Tabulator.resolver next =
        Stmt.resolveBody program kept.resolver ∧
      mapState Tabulator.resolver fresh =
        Stmt.resolveBody program {} ∧
      (stateLeft next).resolver.scopes = [] ∧
      (stateLeft next).resolver.enclosing = .none ∧
      outcome next = outcome fresh ∧
      (stateLeft next).resolver.recorded =
        kept.resolver.recorded ++
          (stateLeft fresh).resolver.recorded ∧
      (∀ path : Address,
        (stateLeft next).table (path ++ [number]) =
          (stateLeft fresh).table (path ++ [number])) ∧
      (∀ filled, outcome next = .ok filled →
        ∀ path : Address,
          (stateLeft next).table (path ++ [number]) =
            ((Node.program filled).at? path).bind Node.hops?) ∧
      ∀ other ≠ number, ∀ path : Address,
        (stateLeft next).table (path ++ [other]) =
          kept.table (path ++ [other]) := by
  intro number kept next fresh
  have hKept := Tabulator.idle_empty.keepResolving earlier
  rw [Nat.zero_add] at hKept
  have hIdle : kept.Idle number := hKept.1
  have hNext : next = mapState kept.followedBy fresh :=
    hIdle.tabulateProgram_eq program
  have hAfter := hIdle.next program
  have hTabulates := Tabulator.tabulates_program number program
  refine
    ⟨hKept.2, hTabulates.erases kept, hTabulates.erases {},
      hAfter.scopes, hAfter.enclosing, ?_, ?_, ?_, ?_, ?_⟩
  · rw [hNext, outcome_mapState]
  · rw [hNext, stateLeft_mapState]
    rfl
  · intro path
    rw [hNext, stateLeft_mapState]
    simp [Tabulator.followedBy, hIdle.table_eq_none path]
  · intro filled hOutcome path
    cases hRun : next with
    | ok filled' u =>
        rw [hRun] at hOutcome
        cases hOutcome
        have hTable := Tabulator.table_of_tabulateProgram hRun path
        rwa [hIdle.table_eq_none path, Option.or_none] at hTable
    | error e u =>
        rw [hRun] at hOutcome
        cases hOutcome
  · intro other hOther path
    exact Tabulator.table_of_other hOther program kept path

/- The entry for the second `a` of `{ var a; a; var a; }` stays. -/
example :
    let a : Token := ⟨.identifier, "a", .nil, 1, 0⟩
    let program : List Stmt :=
      [.block
        [.var a none, .expression (.variable a none), .var a none]]
    let next := tabulateProgram 0 program {}
    outcome next = .error ⟨.alreadyDeclared, a⟩ ∧
      (stateLeft next).resolver.scopes = [] ∧
        (stateLeft next).table [0, 1, 0, 0] = some 0 :=
  ⟨rfl, rfl, rfl⟩

end Lox
