import Lox.Proofs.Grammar.Pardon
import Lox.Proofs.Grammar.Recognition

/-
  Arguments and parameters beyond the greatest number.

  An item of a list that has as many before it as a list may
  have is reported, at its first token, before it is read. It is
  read and kept like any other, so a list of any length is kept
  as a whole, and what follows is read as if there were no
  greatest number. As many errors are reported as there are
  items beyond that number.

  Key definitions include:
    * `Blames`
    * `Reader.AcceptsNoting`
    * `Reader.IsItem`
    * `Grammar.functionHead`
    * `excess_reported_and_kept`
-/

------------------------------------------------------------
-- Errors With One Message
------------------------------------------------------------

namespace Lox

/- Errors with one message that blame some tokens in turn. -/
def Blames
    (message : String)
    (blamed : List Token)
    (errors : Array ParseError) :
    Prop :=
  errors.toList.map (fun e => (e.message, e.token)) =
    blamed.map fun t => (message, t)

theorem Blames.size_eq
    {message : String}
    {blamed : List Token}
    {errors : Array ParseError}
    (hBlames : Blames message blamed errors) :
    errors.size = blamed.length := by
  simpa using congrArg List.length hBlames

/-
  How many of the tokens from the 256th on are blamed, and when
  this is at most once.
-/
theorem Blames.size_beyond
    {message : String}
    {tokens : List Token}
    {errors : Array ParseError}
    (hBlames : Blames message (tokens.drop 255) errors) :
    errors.size = tokens.length - 255 ∧
      (errors.size = (if 255 < tokens.length then 1 else 0) ↔
        tokens.length ≤ 256) := by
  have hSize : errors.size = tokens.length - 255 := by
    rw [hBlames.size_eq, List.length_drop]
  refine ⟨hSize, ?_⟩
  rw [hSize]
  split <;> omega

theorem Blames.append
    {message : String}
    {blamed others : List Token}
    {errors more : Array ParseError}
    (hBlames : Blames message blamed errors)
    (hMore : Blames message others more) :
    Blames message (blamed ++ others) (errors ++ more) := by
  unfold Blames at hBlames hMore ⊢
  rw [Array.toList_append, List.map_append, hBlames, hMore,
    List.map_append]

/- A cursor that has moved on and recorded some more errors. -/
def Cursor.reporting
    (c : Cursor)
    (n : Nat)
    (errors : Array ParseError) :
    Cursor :=
  { c.skip n with errors := c.errors ++ errors }

theorem Cursor.reporting_reporting
    (c : Cursor)
    (m n : Nat)
    (errors more : Array ParseError) :
    (c.reporting m errors).reporting n more =
      c.reporting (m + n) (errors ++ more) := by
  simp [reporting, skip, Nat.add_assoc]

end Lox

------------------------------------------------------------
-- Reading With Errors To Note
------------------------------------------------------------

namespace Lox.Reader

variable {α β : Type}

/-
  The reader moves over the tokens where the rest follows them
  and gives the result, and the errors that it records on the
  way have one message and blame some tokens.
-/
def AcceptsNoting
    (reader : Reader α)
    (message : String)
    (tokens : List Token)
    (a : α)
    (rest blamed : List Token) :
    Prop :=
  ∀ c : Cursor, c.upcoming = tokens ++ rest →
    ∃ errors : Array ParseError,
      reader c = .ok a (c.reporting tokens.length errors) ∧
        Blames message blamed errors

variable {x : Reader α} {f : α → Reader β} {message : String}
variable {tokens others rest blamed more : List Token}
variable {a : α} {b : β}

theorem Accepts.noting
    (hReader : x.Accepts tokens a rest)
    (message : String) :
    x.AcceptsNoting message tokens a rest [] := by
  intro c hUpcoming
  refine ⟨#[], ?_, rfl⟩
  rw [hReader c hUpcoming]
  simp [Cursor.reporting, Cursor.skip]

theorem AcceptsNoting.bind
    (hFirst :
      x.AcceptsNoting message tokens a (others ++ rest) blamed)
    (hSecond : (f a).AcceptsNoting message others b rest more) :
    (x >>= f).AcceptsNoting message (tokens ++ others) b rest
      (blamed ++ more) := by
  intro c hUpcoming
  rw [List.append_assoc] at hUpcoming
  rcases hFirst c hUpcoming with ⟨errors, hRun, hBlames⟩
  have hLeft :
      (c.reporting tokens.length errors).upcoming =
        others ++ rest :=
    Cursor.upcoming_skip hUpcoming
  rcases hSecond _ hLeft with ⟨later, hNext, hLater⟩
  refine ⟨errors ++ later, ?_, hBlames.append hLater⟩
  rw [bind_of_ok hRun, hNext, Cursor.reporting_reporting,
    List.length_append]

/- A step that reads nothing. -/
theorem AcceptsNoting.bindNil
    (hFirst :
      x.AcceptsNoting message [] a (tokens ++ rest) blamed)
    (hSecond : (f a).AcceptsNoting message tokens b rest more) :
    (x >>= f).AcceptsNoting message tokens b rest
      (blamed ++ more) :=
  hFirst.bind hSecond

/- A step that has nothing to note, and then the rest. -/
theorem Accepts.thenNoting
    (hFirst : x.Accepts tokens a (others ++ rest))
    (hSecond : (f a).AcceptsNoting message others b rest blamed) :
    (x >>= f).AcceptsNoting message (tokens ++ others) b rest
      blamed :=
  (hFirst.noting message).bind hSecond

/- A step that reads one token and has nothing to note. -/
theorem Accepts.oneNoting
    {t : Token}
    (hFirst : x.Accepts [t] a (tokens ++ rest))
    (hSecond : (f a).AcceptsNoting message tokens b rest blamed) :
    (x >>= f).AcceptsNoting message (t :: tokens) b rest blamed :=
  hFirst.thenNoting hSecond

/- A last step that has nothing to note. -/
theorem AcceptsNoting.closed
    (hFirst :
      x.AcceptsNoting message tokens a (others ++ rest) blamed)
    (hLast : (f a).Accepts others b rest) :
    (x >>= f).AcceptsNoting message (tokens ++ others) b rest
      blamed := by
  simpa using hFirst.bind (hLast.noting message)

theorem AcceptsNoting.afterUpcoming
    {f : List Token → Reader β}
    (hReader :
      (f (tokens ++ rest)).AcceptsNoting message tokens b rest
        blamed) :
    (upcoming >>= f).AcceptsNoting message tokens b rest
      blamed := by
  intro c hUpcoming
  rw [bind_of_ok (show upcoming c = .ok c.upcoming c from rfl),
    hUpcoming]
  exact hReader c hUpcoming

end Lox.Reader

------------------------------------------------------------
-- Items
------------------------------------------------------------

namespace Lox.Reader

variable {α : Type}

/- A token that ends an item of a list. -/
def EndsItem (t : Token) : Prop :=
  t.kind = .comma ∨ t.kind = .rightParen

/-
  Tokens that are read as an item, wholly and with nothing to
  report, and the first of them.
-/
def IsItem
    (x : Reader α)
    (part : List Token)
    (item : Token × α) :
    Prop :=
  part.head? = some item.1 ∧
    x.AcceptsBefore EndsItem part item.2

/- What is read as an item is what the reader reads. -/
theorem IsItem.read
    {x : Reader α}
    {Read : List Token → α → List Token → Prop}
    {part : List Token}
    {item : Token × α}
    (hItem : x.IsItem part item)
    (hReads : x.Reads Read) :
    Read part item.2 [] := by
  have hRun :=
    hItem.2 [] (by simp) ⟨part, item.1, 0, #[]⟩ (by simp)
  rcases hReads.read hRun rfl with ⟨tokens, hTokens, hRead⟩
  have hSame : part = tokens := by
    simpa [Cursor.skip] using hTokens
  simpa [hSame, Cursor.skip] using hRead

/- The tokens of items, if any, with commas between them. -/
def Lists
    (x : Reader α)
    (tokens : List Token)
    (given : List (Token × α)) :
    Prop :=
  (tokens = [] ∧ given = []) ∨ Commas x.IsItem tokens given

/- Notes an item that `count` others precede, if too many. -/
def noteExcess
    (tooMany : GrammarFault)
    (count : Nat) :
    Reader Unit :=
  if GrammarFault.maxArguments ≤ count then note tooMany
  else pure ()

variable {x : Reader α} {tooMany : GrammarFault}

/- The note is of the first token of what is to be read. -/
theorem accepts_noteExcess
    {rest : List Token}
    {first : Token}
    (hFirst : rest.head? = some first)
    (count : Nat) :
    (noteExcess tooMany count).AcceptsNoting tooMany.message [] ()
      rest
      ([first].drop (GrammarFault.maxArguments - count)) := by
  intro c hUpcoming
  have hCurrent : c.current = first := by
    rw [List.nil_append] at hUpcoming
    simp [Cursor.current, hUpcoming, hFirst]
  unfold noteExcess
  by_cases hMany : GrammarFault.maxArguments ≤ count
  · refine ⟨#[⟨tooMany, c.current, c.place⟩], ?_, ?_⟩
    · rw [if_pos hMany]
      simp [note, Cursor.recordHere, Cursor.record,
        Cursor.reporting]
    · rw [Nat.sub_eq_zero_of_le hMany, hCurrent]
      rfl
  · have hDrop : 1 ≤ GrammarFault.maxArguments - count := by
      omega
    refine ⟨#[], ?_, ?_⟩
    · rw [if_neg hMany]
      simp [pure, EStateM.pure, Cursor.reporting]
    · rw [List.drop_of_length_le hDrop]
      rfl

/- A round notes, reads one item and goes on. -/
theorem itemsFrom_cons
    (x : Reader α)
    (tooMany : GrammarFault)
    (tick : Token)
    (ticks : List Token)
    (count : Nat)
    (items : List α) :
    itemsFrom x tooMany (tick :: ticks) count items =
      (do
        if ← accepts .comma then
          noteExcess tooMany count
          let a ← x
          itemsFrom x tooMany ticks (count + 1) (a :: items)
        else
          return items.reverse) := by
  unfold noteExcess
  rw [itemsFrom]
  by_cases hMany : GrammarFault.maxArguments ≤ count
  · simp only [if_pos hMany]
  · simp only [if_neg hMany, pure_bind]

/- A list ends before its parenthesis. -/
theorem accepts_itemsEnd
    {rest : List Token}
    (hRest : ∀ t ∈ rest.head?, t.kind = .rightParen)
    (ticks : List Token)
    (count : Nat)
    (items : List α) :
    (itemsFrom x tooMany ticks count items).Accepts []
      items.reverse rest := by
  cases ticks with
  | nil => exact accepts_pure _ _
  | cons tick ticks =>
      have hNoComma :
          (accepts .comma).Accepts [] false rest := by
        apply accepts_false
        intro t hMem hComma
        rw [hRest t hMem] at hComma
        cases hComma
      rw [itemsFrom_cons]
      exact hNoComma.bindNil (accepts_pure _ _)

/-
  Whether the first of some tokens is blamed does not depend on
  the others.
-/
theorem drop_cons_sub
    (first : Token)
    (others : List Token)
    (most count : Nat) :
    (first :: others).drop (most - count) =
      [first].drop (most - count) ++
        others.drop (most - (count + 1)) := by
  rw [← List.singleton_append, List.drop_append,
    List.length_singleton, Nat.sub_sub]

/-
  The items that follow some others, by induction on them: the
  first is about to be noted and read. There are as many ticks
  as tokens.
-/
theorem accepts_itemsNoting
    {tokens rest : List Token}
    {given : List (Token × α)}
    (hItems : Commas x.IsItem tokens given)
    (hRest : ∀ t ∈ rest.head?, t.kind = .rightParen)
    (ticks : List Token)
    (items : List α)
    (hTicks : (tokens ++ rest).length ≤ ticks.length) :
    (do
      noteExcess tooMany items.length
      let a ← x
      itemsFrom x tooMany ticks (items.length + 1)
        (a :: items)).AcceptsNoting tooMany.message tokens
      (items.reverse ++ given.map Prod.snd) rest
      ((given.map Prod.fst).drop
        (GrammarFault.maxArguments - items.length)) := by
  induction hItems generalizing ticks items with
  | @last part item hItem =>
      rcases hItem with ⟨hFirst, hAccepts⟩
      have hHead : (part ++ rest).head? = some item.1 := by
        rw [List.head?_append, hFirst]
        rfl
      have hRead :=
        hAccepts rest fun t hMem => .inr (hRest t hMem)
      have hEnd :=
        @accepts_itemsEnd _ x tooMany _ hRest ticks
          (items.length + 1) (item.2 :: items)
      rw [List.reverse_cons] at hEnd
      exact
        (accepts_noteExcess hHead items.length).closed
          (hRead.bindLast hEnd)
  | @more comma part others item given hItem hComma hMore ih =>
      rcases hItem with ⟨hFirst, hAccepts⟩
      have hHead :
          (part ++ comma :: others ++ rest).head? =
            some item.1 := by
        rw [List.append_assoc, List.head?_append, hFirst]
        rfl
      have hRead :
          x.Accepts part item.2 ((comma :: others) ++ rest) := by
        apply hAccepts
        intro t hMem
        have hSame : comma = t := by simpa using hMem
        exact .inl (hSame ▸ hComma)
      simp only [List.length_append, List.length_cons] at hTicks
      cases ticks with
      | nil => simp at hTicks
      | cons tick ticks =>
          have hOthers :=
            ih ticks (item.2 :: items) (by
              simp only [List.length_append, List.length_cons]
                at hTicks ⊢
              omega)
          rw [List.reverse_cons, List.append_assoc,
            List.length_cons] at hOthers
          rw [List.map_cons, List.map_cons, drop_cons_sub]
          refine
            (accepts_noteExcess hHead items.length).bindNil
              (hRead.thenNoting ?_)
          rw [itemsFrom_cons]
          exact (accepts_true hComma _).oneNoting hOthers

/-
  The first item has no other before it, so there is nothing to
  note of it.
-/
theorem accepts_itemsNoted
    {tokens rest : List Token}
    {given : List (Token × α)}
    (hItems : Commas x.IsItem tokens given)
    (hRest : ∀ t ∈ rest.head?, t.kind = .rightParen) :
    (items x tooMany).AcceptsNoting tooMany.message tokens
      (given.map Prod.snd) rest
      ((given.map Prod.fst).drop GrammarFault.maxArguments) :=
  AcceptsNoting.afterUpcoming
    (accepts_itemsNoting hItems hRest (tokens ++ rest) []
      (Nat.le_refl _))

/- Items begin with the first token of the first of them. -/
theorem exists_first
    {tokens : List Token}
    {given : List (Token × α)}
    (hItems : Commas x.IsItem tokens given) :
    ∃ part item,
      x.IsItem part item ∧ tokens.head? = some item.1 := by
  cases hItems with
  | last hItem => exact ⟨_, _, hItem, hItem.1⟩
  | more hItem =>
      refine ⟨_, _, hItem, ?_⟩
      rw [List.head?_append, hItem.1]
      rfl

/- A list of items that may be left out. -/
theorem accepts_listNoted
    {tokens rest : List Token}
    {given : List (Token × α)}
    {paren : Token}
    (hLists : x.Lists tokens given)
    (hFirst :
      ∀ {part item}, x.IsItem part item →
        item.1.kind ≠ .rightParen)
    (hParen : paren.kind = .rightParen) :
    (unlessNext .rightParen []
      (items x tooMany)).AcceptsNoting tooMany.message tokens
        (given.map Prod.snd) (paren :: rest)
        ((given.map Prod.fst).drop
          GrammarFault.maxArguments) := by
  rcases hLists with ⟨rfl, rfl⟩ | hItems
  · exact (accepts_absent hParen _ _ _).noting _
  · rcases exists_first hItems with ⟨part, item, hItem, hHead⟩
    have hNext :
        ∀ t ∈ (tokens ++ paren :: rest).head?,
          t.kind ≠ .rightParen := by
      intro t hMem
      rw [List.head?_append, hHead] at hMem
      have hSame := Option.some.inj hMem
      exact hSame ▸ hFirst hItem
    have hNoted :=
      @accepts_itemsNoted _ x tooMany _ (paren :: rest) _ hItems
        (by simp [hParen])
    exact (nextIs_false hNext).thenNoting hNoted

end Lox.Reader

------------------------------------------------------------
-- Arguments And Parameters
------------------------------------------------------------

namespace Lox.Grammar

open Reader

/-
  An expression is an item, where ten steps of nesting are left
  for each of its tokens.
-/
theorem isItem_of_derives
    {nesting : Nat}
    {first : Token}
    {others : List Token}
    {e : Expr}
    (hDerives : e.Derives (first :: others))
    (hNesting : 10 * (first :: others).length ≤ nesting) :
    (expression nesting).IsItem (first :: others) (first, e) := by
  refine ⟨rfl, ?_⟩
  intro rest hRest
  refine accepts_expression hDerives hNesting rest ?_
  intro t hMem
  rcases hRest t hMem with hComma | hParen
  · exact stops_comma t hComma
  · exact stops_rightParen t hParen

theorem accepts_argumentsNoted
    {nesting : Nat}
    {tokens rest : List Token}
    {given : List (Token × Expr)}
    {paren : Token}
    (hLists : (expression nesting).Lists tokens given)
    (hParen : paren.kind = .rightParen) :
    (arguments (expression nesting)).AcceptsNoting
      (GrammarFault.message .tooManyArguments)
      (tokens ++ [paren]) (given.map Prod.snd, paren) rest
      ((given.map Prod.fst).drop GrammarFault.maxArguments) := by
  have hFirst :
      ∀ {part item}, (expression nesting).IsItem part item →
        item.1.kind ≠ .rightParen := by
    intro part item hItem
    have hDerives := hItem.read (reads_expression nesting)
    exact hDerives.head_ne_rightParen.2 item.1 hItem.1
  exact
    (accepts_listNoted hLists hFirst hParen).closed
      ((accepts_expect hParen _ _).bindLast (accepts_pure _ _))

/- Reads the name and the parameters of a function. -/
def functionHead : Reader (Token × List Token) := do
  let name ← expect .identifier .expectFunctionName
  let _ ← expect .leftParen .expectFunctionParen
  let params ←
    unlessNext .rightParen []
      (items (expect .identifier .expectParameterName)
        .tooManyParameters)
  let _ ← expect .rightParen .expectParametersEnd
  return (name, params)

/- Reads the body of a function after its parameters. -/
def functionBody
    (declaration : Reader (Option Stmt))
    (name : Token)
    (params : List Token) :
    Reader Stmt := do
  let _ ← expect .leftBrace .expectFunctionBody
  let body ← blockRest declaration
  return .function name params body

theorem functionRest_eq
    (declaration : Reader (Option Stmt)) :
    functionRest declaration =
      functionHead >>= fun head =>
        functionBody declaration head.1 head.2 := by
  simp only [functionRest, functionHead, functionBody,
    bind_assoc, pure_bind]

/- The names of parameters, with commas between them, if any. -/
def ListsNames (tokens params : List Token) : Prop :=
  (tokens = [] ∧ params = []) ∨ Commas IsName tokens params

/- A name is an item, and its own first token. -/
theorem lists_of_listsNames
    {tokens params : List Token}
    (hNames : ListsNames tokens params) :
    (expect .identifier .expectParameterName).Lists tokens
      (params.map fun t => (t, t)) := by
  rcases hNames with ⟨rfl, rfl⟩ | hNames
  · exact .inl ⟨rfl, rfl⟩
  · right
    induction hNames with
    | last hName =>
        rcases hName with ⟨rfl, hKind⟩
        exact .last ⟨rfl, fun rest _ => accepts_expect hKind _ rest⟩
    | more hName hComma _ ih =>
        rcases hName with ⟨rfl, hKind⟩
        exact
          .more ⟨rfl, fun rest _ => accepts_expect hKind _ rest⟩
            hComma ih

theorem accepts_functionHeadNoted
    {name opening paren : Token}
    {tokens params : List Token}
    (hName : name.kind = .identifier)
    (hOpening : opening.kind = .leftParen)
    (hParams : ListsNames tokens params)
    (hParen : paren.kind = .rightParen)
    (rest : List Token) :
    functionHead.AcceptsNoting
      (GrammarFault.message .tooManyParameters)
      (name :: opening :: (tokens ++ [paren])) (name, params)
      rest (params.drop GrammarFault.maxArguments) := by
  have hFirst :
      ∀ {part item},
        (expect .identifier .expectParameterName).IsItem part
          item → item.1.kind ≠ .rightParen := by
    intro part item hItem
    rcases hItem.read (reads_expect _ _) with ⟨hPart, hKind⟩
    have hHead := hItem.1
    rw [hPart] at hHead
    rw [← Option.some.inj hHead, hKind]
    decide
  have hList :=
    @accepts_listNoted _ _ .tooManyParameters _ rest _ _
      (lists_of_listsNames hParams) hFirst hParen
  rw [List.map_map, List.map_map] at hList
  simp only [Function.comp_def, List.map_id'] at hList
  refine (accepts_expect hName _ _).oneNoting ?_
  refine (accepts_expect hOpening _ _).oneNoting ?_
  exact
    hList.closed
      ((accepts_expect hParen _ _).bindLast (accepts_pure _ _))

end Lox.Grammar

------------------------------------------------------------
-- Calls And Functions
------------------------------------------------------------

namespace Lox

open Grammar Reader

/- The call goes on with all of its arguments. -/
theorem callsFrom_noted
    {nesting : Nat}
    {given : List (Token × Expr)}
    {tokens rest : List Token}
    {opening paren : Token}
    {c : Cursor}
    (hLists : (expression nesting).Lists tokens given)
    (hOpening : opening.kind = .leftParen)
    (hParen : paren.kind = .rightParen)
    (hUpcoming :
      c.upcoming = opening :: (tokens ++ paren :: rest))
    (tick : Token)
    (ticks : List Token)
    (callee : Expr) :
    ∃ errors,
      callsFrom (expression nesting) (tick :: ticks) callee c =
        callsFrom (expression nesting) ticks
          (.call callee paren (given.map Prod.snd))
          (c.reporting (tokens.length + 2) errors) ∧
      Blames (GrammarFault.message .tooManyArguments)
        ((given.map Prod.fst).drop GrammarFault.maxArguments)
        errors := by
  have hOpen : accepts .leftParen c = .ok true (c.skip 1) :=
    accepts_true hOpening _ c hUpcoming
  have hLeft :
      (c.skip 1).upcoming = (tokens ++ [paren]) ++ rest := by
    simp [Cursor.skip, hUpcoming]
  rcases accepts_argumentsNoted hLists hParen _ hLeft with
    ⟨errors, hRun, hBlames⟩
  have hPlace :
      (c.skip 1).reporting (tokens ++ [paren]).length errors =
        c.reporting (tokens.length + 2) errors := by
    rw [Cursor.reporting, Cursor.skip_skip, List.length_append,
      List.length_singleton, Nat.add_comm, Nat.add_assoc]
    rfl
  rw [hPlace] at hRun
  refine ⟨errors, ?_, hBlames⟩
  rw [callsFrom, bind_of_ok hOpen, if_pos rfl, bind_of_ok hRun]

/- The function goes on with all of its parameters. -/
theorem functionRest_noted
    {name opening paren : Token}
    {tokens params rest : List Token}
    {c : Cursor}
    (hName : name.kind = .identifier)
    (hOpening : opening.kind = .leftParen)
    (hParams : ListsNames tokens params)
    (hParen : paren.kind = .rightParen)
    (hUpcoming :
      c.upcoming =
        name :: opening :: (tokens ++ paren :: rest))
    (declaration : Reader (Option Stmt)) :
    ∃ errors,
      functionRest declaration c =
        functionBody declaration name params
          (c.reporting (tokens.length + 3) errors) ∧
      Blames (GrammarFault.message .tooManyParameters)
        (params.drop GrammarFault.maxArguments) errors := by
  have hAll :
      c.upcoming =
        (name :: opening :: (tokens ++ [paren])) ++ rest := by
    simp [hUpcoming]
  rcases
    accepts_functionHeadNoted hName hOpening hParams hParen _ c
      hAll with ⟨errors, hRun, hBlames⟩
  refine ⟨errors, ?_, hBlames⟩
  rw [functionRest_eq, bind_of_ok hRun]
  simp

/-
  Arguments that are well formed in themselves are all kept, in
  order, and what follows the parenthesis is read as ever. Each
  of them beyond the first 255 is reported, at its first token,
  so that one error alone tells of them if and only if there are
  256; no other error is reported. It is the same with the names
  of parameters. A whole program is the one that is read where
  there is no greatest number, and so are its errors but for
  these.
-/
theorem excess_reported_and_kept
    (limits : Limits)
    (program : List Token) :
    (∀ (nesting : Nat) (given : List (Token × Expr))
        (tokens rest ticks : List Token)
        (opening paren tick : Token) (callee : Expr)
        (c : Cursor),
      (expression nesting).Lists tokens given →
      opening.kind = .leftParen →
      paren.kind = .rightParen →
      c.upcoming = opening :: (tokens ++ paren :: rest) →
        ∃ errors,
          callsFrom (expression nesting) (tick :: ticks) callee
              c =
            callsFrom (expression nesting) ticks
              (.call callee paren (given.map Prod.snd))
              (c.reporting (tokens.length + 2) errors) ∧
          Blames "Can't have more than 255 arguments."
            ((given.map Prod.fst).drop 255) errors ∧
          errors.size = given.length - 255 ∧
          (errors.size = (if 255 < given.length then 1 else 0) ↔
            given.length ≤ 256)) ∧
    (∀ (declaration : Reader (Option Stmt))
        (tokens params rest : List Token)
        (name opening paren : Token) (c : Cursor),
      ListsNames tokens params →
      name.kind = .identifier →
      opening.kind = .leftParen →
      paren.kind = .rightParen →
      c.upcoming =
        name :: opening :: (tokens ++ paren :: rest) →
        ∃ errors,
          functionRest declaration c =
            functionBody declaration name params
              (c.reporting (tokens.length + 3) errors) ∧
          Blames "Can't have more than 255 parameters."
            (params.drop 255) errors ∧
          errors.size = params.length - 255 ∧
          (errors.size = (if 255 < params.length then 1 else 0) ↔
            params.length ≤ 256)) ∧
    UpTo.parse (some 255) limits program =
      parse limits program ∧
    UpTo.parse none limits program =
      ⟨(parse limits program).program,
        withoutExcess (parse limits program).errors⟩ := by
  refine ⟨?_, ?_, ?_⟩
  · intro nesting given tokens rest ticks opening paren tick
      callee c hLists hOpening hParen hUpcoming
    rcases
      callsFrom_noted hLists hOpening hParen hUpcoming tick ticks
        callee with ⟨errors, hRun, hBlames⟩
    have hSize := Blames.size_beyond hBlames
    rw [List.length_map] at hSize
    exact ⟨errors, hRun, hBlames, hSize⟩
  · intro declaration tokens params rest name opening paren c
      hParams hName hOpening hParen hUpcoming
    rcases
      functionRest_noted hName hOpening hParams hParen hUpcoming
        declaration with ⟨errors, hRun, hBlames⟩
    exact
      ⟨errors, hRun, hBlames, Blames.size_beyond hBlames⟩
  · exact
      ⟨UpTo.parse_maxArguments limits program,
        UpTo.parse_none limits program⟩

/- A name that can stand in a list of any length. -/
def crowdMember : Token := ⟨.identifier, "a", .nil, 1, 0⟩

/- One such name and some more, with commas between them. -/
def crowd : Nat → List Token
  | 0 => [crowdMember]
  | n + 1 => crowdMember :: ⟨.comma, ",", .nil, 1, 0⟩ :: crowd n

def crowdOpening : Token := ⟨.leftParen, "(", .nil, 1, 0⟩

def crowdClosing : Token := ⟨.rightParen, ")", .nil, 1, 0⟩

/- Such names in parentheses. -/
def enclosed (n : Nat) : List Token :=
  crowdOpening :: (crowd n ++ [crowdClosing])

theorem commas_crowd
    {α : Type}
    {Item : List Token → α → Prop}
    {a : α}
    (hItem : Item [crowdMember] a)
    (n : Nat) :
    Commas Item (crowd n) (List.replicate (n + 1) a) := by
  induction n with
  | zero => exact .last hItem
  | succ n ih => exact .more hItem rfl ih

/- Two more than 255 are two errors, and all of them are kept. -/
theorem crowd_reported_and_kept :
    (∃ errors : Array ParseError,
      callsFrom (expression 10) [crowdOpening]
          (.variable crowdMember none)
          ⟨enclosed 256, crowdClosing, 0, #[]⟩ =
        .ok
          (.call (.variable crowdMember none) crowdClosing
            (List.replicate 257 (.variable crowdMember none)))
          (Cursor.reporting
            ⟨enclosed 256, crowdClosing, 0, #[]⟩
            ((crowd 256).length + 2) errors) ∧
      errors.size = 2) ∧
    ∃ errors : Array ParseError,
      functionRest (Grammar.declaration 1)
          ⟨crowdMember :: enclosed 256, crowdClosing, 0, #[]⟩ =
        functionBody (Grammar.declaration 1) crowdMember
          (List.replicate 257 crowdMember)
          (Cursor.reporting
            ⟨crowdMember :: enclosed 256, crowdClosing, 0, #[]⟩
            ((crowd 256).length + 3) errors) ∧
      errors.size = 2 := by
  have hItem :
      (expression 10).IsItem [crowdMember]
        (crowdMember, .variable crowdMember none) :=
    isItem_of_derives (Phrase.derives_name rfl _) (by decide)
  constructor
  · rcases
      (excess_reported_and_kept .standard []).1 10
        (List.replicate 257
          (crowdMember, .variable crowdMember none))
        (crowd 256) [] [] crowdOpening crowdClosing crowdOpening
        (.variable crowdMember none)
        ⟨enclosed 256, crowdClosing, 0, #[]⟩
        (.inr (commas_crowd hItem 256)) rfl rfl rfl with
      ⟨errors, hRun, _, hSize, _⟩
    rw [List.length_replicate] at hSize
    refine ⟨errors, ?_, hSize⟩
    rw [hRun, List.map_replicate]
    rfl
  · rcases
      (excess_reported_and_kept .standard []).2.1
        (Grammar.declaration 1) (crowd 256)
        (List.replicate 257 crowdMember) [] crowdMember
        crowdOpening crowdClosing
        ⟨crowdMember :: enclosed 256, crowdClosing, 0, #[]⟩
        (.inr (commas_crowd ⟨rfl, rfl⟩ 256)) rfl rfl rfl rfl with
      ⟨errors, hRun, _, hSize, _⟩
    rw [List.length_replicate] at hSize
    exact ⟨errors, hRun, hSize⟩

/- They are reported twice, not once. -/
theorem crowd_reported_twice :
    (parse .standard
        (crowdMember :: (enclosed 256 ++
          [⟨.semicolon, ";", .nil, 1, 0⟩]))).errors.map
      (·.message) =
        [ "Can't have more than 255 arguments.",
          "Can't have more than 255 arguments." ] ∧
    (parse .standard
        (⟨.funKw, "fun", .nil, 1, 0⟩ :: crowdMember ::
          (enclosed 256 ++
            [ ⟨.leftBrace, "\x7b", .nil, 1, 0⟩,
              ⟨.rightBrace, "\x7d", .nil, 1, 0⟩ ]))).errors.map
      (·.message) =
        [ "Can't have more than 255 parameters.",
          "Can't have more than 255 parameters." ] := by
  decide +kernel

end Lox
