import Mathlib.Algebra.Group.End
import Lox.Proofs.Scope.Bare

/-
  Resolving with the names of scopes in another spelling.

  The resolver of a renamed tree goes through the same steps
  as that of the first, with the names of each scope in another
  spelling: the scope of the renamed declaration has `x` and
  `y` exchanged, and all others are as they were. As `y` occurs
  nowhere, no use is captured by another declaration.

  Key definitions include:
    * `Spelling`
    * `Marks`
    * `SpellsScopes`
    * `Respells`
    * `Stmt.resolve_rename`
-/

------------------------------------------------------------
-- Spellings
------------------------------------------------------------

namespace Lox

/- Where `y` is new, `x` is renamed as by an exchange. -/
theorem Token.lexeme_rename
    (x : String)
    {y : String}
    (name : Token)
    (hAvoids : name.lexeme ≠ y) :
    (name.rename x y).lexeme = Equiv.swap x y name.lexeme := by
  unfold rename
  by_cases hName : name.lexeme = x
  · simp [hName]
  · simp [hName, Equiv.swap_apply_of_ne_of_ne hName hAvoids]

/- How the names of a scope are spelled in another program. -/
abbrev Spelling :=
  Equiv.Perm String

/- The spelling of a name that is declared in the first scope. -/
def headSpelling : List Spelling → Spelling
  | [] => 1
  | spelling :: _ => spelling

/-
  The spellings of scopes where the declaration of `x`, as
  far away as the mark says, has been renamed to `y`.
-/
structure Marks
    (x y : String)
    (mark : Option Nat)
    (spellings : List Spelling) :
    Prop where
  spelling :
    ∀ (distance : Nat) (spelling : Spelling),
      spellings[distance]? = some spelling →
        spelling =
          if mark = some distance then Equiv.swap x y else 1
  inside :
    ∀ distance, mark = some distance →
      distance < spellings.length

namespace Marks

variable {x y : String} {mark : Option Nat}
variable {spellings : List Spelling}

/- A scope that is entered keeps its names. -/
theorem inner (hMarks : Marks x y mark spellings) :
    Marks x y (deeper 1 mark) (1 :: spellings) := by
  constructor
  · intro distance spelling hSpelling
    cases distance with
    | zero =>
        have hOne : 1 = spelling := by simpa using hSpelling
        cases mark <;> simp [deeper, ← hOne]
    | succ distance =>
        have hOuter :=
          hMarks.spelling distance spelling (by simpa using hSpelling)
        cases mark <;> simpa [deeper] using hOuter
  · intro distance hDistance
    cases hMark : mark with
    | none => simp [deeper, hMark] at hDistance
    | some outer =>
        have hInside := hMarks.inside outer hMark
        have hSame : outer + 1 = distance := by
          simpa [deeper, hMark] using hDistance
        simp only [List.length_cons]
        omega

theorem deeper_two (hMarks : Marks x y mark spellings) :
    Marks x y (deeper 2 mark) (1 :: 1 :: spellings) := by
  have hTwice := hMarks.inner.inner
  have hSame : deeper 1 (deeper 1 mark) = deeper 2 mark := by
    cases mark <;> rfl
  rwa [hSame] at hTwice

theorem nil : Marks x y none [] := by
  constructor
  · intro distance spelling hSpelling
    cases hSpelling
  · intro distance hDistance
    cases hDistance

/- The scope of the declaration, within others. -/
theorem here (hMarks : Marks x y none spellings) :
    Marks x y (some 0) (Equiv.swap x y :: spellings) := by
  constructor
  · intro distance spelling hSpelling
    cases distance with
    | zero =>
        have hSwap : Equiv.swap x y = spelling := by
          simpa using hSpelling
        simp [hSwap]
    | succ distance =>
        have hOuter :=
          hMarks.spelling distance spelling (by simpa using hSpelling)
        simpa using hOuter
  · intro distance hDistance
    cases hDistance
    simp

/- A use has the name that its scope gives to the old one. -/
theorem lexeme_use
    (hMarks : Marks x y mark spellings)
    {name : Token}
    {distance : Nat}
    {spelling : Spelling}
    (hAvoids : name.lexeme ≠ y)
    (hSpelling : spellings[distance]? = some spelling) :
    (name.renameUse x y mark (some distance)).lexeme =
      spelling name.lexeme := by
  have hCase := hMarks.spelling distance spelling hSpelling
  by_cases hMark : mark = some distance
  · rw [if_pos hMark] at hCase
    rw [hCase, ← name.lexeme_rename x hAvoids]
    simp [Token.renameUse, hMark]
  · rw [if_neg hMark] at hCase
    have hNe : some distance ≠ mark :=
      fun hSame => hMark hSame.symm
    simp [Token.renameUse, hNe, hCase]

/- The name of a declaration in the scope that is first. -/
theorem lexeme_declared
    (hMarks : Marks x y mark spellings)
    {name : Token}
    (hAvoids : name.lexeme ≠ y) :
    (name.renameUse x y mark (some 0)).lexeme =
      headSpelling spellings name.lexeme := by
  cases spellings with
  | nil =>
      have hMark : some 0 ≠ mark := by
        intro hSame
        have hInside := hMarks.inside 0 hSame.symm
        simp at hInside
      simp [Token.renameUse, hMark, headSpelling]
  | cons spelling spellings =>
      exact hMarks.lexeme_use hAvoids rfl

/- Other names of the first scope are as they were. -/
theorem headSpelling_of_ne
    (hMarks : Marks x y mark spellings)
    {name : String}
    (hNotOld : mark = some 0 → name ≠ x)
    (hNotNew : name ≠ y) :
    headSpelling spellings name = name := by
  cases spellings with
  | nil => rfl
  | cons spelling spellings =>
      have hSpelling := hMarks.spelling 0 spelling rfl
      by_cases hMark : mark = some 0
      · rw [if_pos hMark] at hSpelling
        rw [headSpelling, hSpelling]
        exact
          Equiv.swap_apply_of_ne_of_ne (hNotOld hMark) hNotNew
      · rw [if_neg hMark] at hSpelling
        rw [headSpelling, hSpelling]
        rfl

end Marks

/- The mark is no declaration of a scope that is entered. -/
theorem deeper_ne_zero
    (scopes : Nat)
    (mark : Option Nat) :
    deeper (scopes + 1) mark ≠ some 0 := by
  cases mark with
  | none => simp [deeper]
  | some distance =>
      simp only [deeper, Option.map_some, ne_eq, Option.some.injEq]
      omega

namespace Scope

/- A scope with its names in another spelling. -/
def spell (spelling : Spelling) (scope : Scope) : Scope :=
  scope.map fun entry => (spelling entry.1, entry.2)

theorem lookup_spell
    (spelling : Spelling)
    (scope : Scope)
    (name : String) :
    (scope.spell spelling).lookup (spelling name) =
      scope.lookup name := by
  induction scope with
  | nil => rfl
  | cons entry scope ih =>
      rcases entry with ⟨other, initialized⟩
      by_cases hSame : name = other
      · simp [spell, hSame]
      · have hNe : (name == other) = false := by simpa using hSame
        have hSpelled :
            (spelling name == spelling other) = false := by
          simpa using hSame
        simp only [spell, List.map_cons, List.lookup_cons, hNe,
          hSpelled]
        exact ih

theorem spell_one (scope : Scope) : scope.spell 1 = scope := by
  simp [spell]

end Scope

/- A name that no scope declares. -/
def ScopesAvoid (y : String) (scopes : List Scope) : Prop :=
  ∀ scope ∈ scopes, scope.lookup y = none

theorem ScopesAvoid.inner
    {y : String}
    {scopes : List Scope}
    (hScopes : ScopesAvoid y scopes) :
    ScopesAvoid y ([] :: scopes) := by
  intro scope hMem
  rcases List.mem_cons.mp hMem with rfl | hMem
  · rfl
  · exact hScopes scope hMem

theorem ScopesAvoid.enter
    {y : String}
    {scopes : List Scope}
    (hScopes : ScopesAvoid y scopes)
    {name : String}
    (hName : name ≠ y)
    (initialized : Bool) :
    ScopesAvoid y (enterScope scopes name initialized) := by
  cases scopes with
  | nil => exact hScopes
  | cons scope scopes =>
      intro other hMem
      rcases List.mem_cons.mp hMem with rfl | hMem
      · have hNe : (y == name) = false := by
          simpa using Ne.symm hName
        have hLacks := hScopes scope (by simp)
        simpa only [List.lookup_cons, hNe] using hLacks
      · exact hScopes other (List.mem_cons_of_mem _ hMem)

/- Scopes with their names in other spellings. -/
def spellScopes
    (spellings : List Spelling)
    (scopes : List Scope) :
    List Scope :=
  List.zipWith Scope.spell spellings scopes

/- A resolver with its names in other spellings. -/
def Resolver.spell
    (spellings : List Spelling)
    (r : Resolver) :
    Resolver :=
  { r with scopes := spellScopes spellings r.scopes }

/-
  A resolver whose scopes are those of the spellings, and to
  which the new name `y` is unknown.
-/
structure SpellsScopes
    (x y : String)
    (mark : Option Nat)
    (spellings : List Spelling)
    (r : Resolver) :
    Prop where
  marks : Marks x y mark spellings
  length : spellings.length = r.scopes.length
  avoids : ScopesAvoid y r.scopes

end Lox

------------------------------------------------------------
-- Uses
------------------------------------------------------------

namespace Lox

open Resolver

variable {x y : String} {mark : Option Nat}
variable {spellings : List Spelling}

/-
  In each scope up to that of the declaration, the new name
  means what the old one did.
-/
theorem Marks.lookup_renameUse
    (hMarks : Marks x y mark spellings)
    {name : Token}
    {hops : Option Nat}
    {distance : Nat}
    {spelling : Spelling}
    {scope : Scope}
    (hAvoids : name.lexeme ≠ y)
    (hLacks : scope.lookup y = none)
    (hSpelling : spellings[distance]? = some spelling)
    (hBefore :
      hops ≠ some distance → scope.lookup name.lexeme = none) :
    (scope.spell spelling).lookup
        (name.renameUse x y mark hops).lexeme =
      scope.lookup name.lexeme := by
  have hCase := hMarks.spelling distance spelling hSpelling
  by_cases hMark : mark = some distance
  · rw [if_pos hMark] at hCase
    subst hCase
    by_cases hHops : hops = some distance
    · -- The use refers to the scope that is renamed.
      rw [hHops, hMarks.lexeme_use hAvoids hSpelling,
        Scope.lookup_spell]
    · have hUse : name.renameUse x y mark hops = name := by
        unfold Token.renameUse
        rw [if_neg]
        intro hBoth
        exact hHops (hBoth.2.trans hMark)
      rw [hUse]
      by_cases hName : name.lexeme = x
      · have hSwap :=
          Scope.lookup_spell (Equiv.swap x y) scope y
        rw [Equiv.swap_apply_right] at hSwap
        rw [hName, hSwap, hLacks, ← hName, hBefore hHops]
      · have hSwap :=
          Scope.lookup_spell (Equiv.swap x y) scope name.lexeme
        rwa [Equiv.swap_apply_of_ne_of_ne hName hAvoids] at hSwap
  · rw [if_neg hMark] at hCase
    subst hCase
    rw [Scope.spell_one]
    unfold Token.renameUse
    split
    · rename_i hUse
      by_cases hName : name.lexeme = x
      · -- The use refers to another scope, which has the name.
        have hHops : hops ≠ some distance := by
          intro hSame
          exact hMark (hUse.2.symm.trans hSame)
        have hNone := hBefore hHops
        rw [hName] at hNone
        simp [Token.rename, hName, hLacks, hNone]
      · simp [Token.rename, hName]
    · rfl

namespace SpellsScopes

variable {r r' : Resolver}

/- A name is found as far away as before. -/
theorem hopsTo?_renameUse
    (hSpells : SpellsScopes x y mark spellings r)
    {name : Token}
    (hAvoids : name.lexeme ≠ y) :
    hopsTo? (spellScopes spellings r.scopes)
        (name.renameUse x y mark
          (hopsTo? r.scopes name.lexeme)).lexeme =
      hopsTo? r.scopes name.lexeme := by
  -- Up to the scope that is found, every scope keeps its answer.
  have hScope :
      ∀ (distance : Nat)
        (hScope : distance < r.scopes.length)
        (hSpelled : distance < (spellScopes spellings
          r.scopes).length),
        (hopsTo? r.scopes name.lexeme ≠ some distance →
          r.scopes[distance].declares name.lexeme = false) →
        (spellScopes spellings r.scopes)[distance].declares
            (name.renameUse x y mark
              (hopsTo? r.scopes name.lexeme)).lexeme =
          r.scopes[distance].declares name.lexeme := by
    intro distance hScope hSpelled hBefore
    have hSpelling : distance < spellings.length := by
      rw [hSpells.length]
      exact hScope
    have hSame :
        (spellScopes spellings r.scopes)[distance] =
          (r.scopes[distance]).spell spellings[distance] := by
      simp [spellScopes]
    rw [hSame]
    unfold Scope.declares
    rw [hSpells.marks.lookup_renameUse hAvoids
      (hSpells.avoids _ (List.getElem_mem hScope))
      (List.getElem?_eq_getElem hSpelling)]
    intro hNe
    simpa [Scope.declares] using hBefore hNe
  have hLength :
      (spellScopes spellings r.scopes).length =
        r.scopes.length := by
    simp [spellScopes, hSpells.length]
  cases hHops : hopsTo? r.scopes name.lexeme with
  | none =>
      rw [hHops] at hScope
      unfold hopsTo? at hHops ⊢
      rw [List.findIdx?_eq_none_iff] at hHops ⊢
      intro scope hMem
      rcases List.getElem_of_mem hMem with
        ⟨distance, hDistance, rfl⟩
      have hLt : distance < r.scopes.length := hLength ▸ hDistance
      have hNone := hHops _ (List.getElem_mem hLt)
      exact (hScope distance hLt hDistance fun _ => hNone).trans
        hNone
  | some found =>
      rw [hHops] at hScope
      unfold hopsTo? at hHops ⊢
      rw [List.findIdx?_eq_some_iff_getElem] at hHops ⊢
      rcases hHops with ⟨hFound, hDeclares, hBefore⟩
      refine ⟨hLength.symm ▸ hFound, ?_, ?_⟩
      · apply (hScope found hFound (hLength.symm ▸ hFound) _).trans
        · exact hDeclares
        · intro hNe
          exact absurd rfl hNe
      · intro distance hDistance
        have hLt := hDistance.trans hFound
        have hNot : ¬ r.scopes[distance].declares name.lexeme :=
          hBefore distance hDistance
        rw [hScope distance hLt (hLength.symm ▸ hLt)]
        · exact hNot
        · intro _
          simpa using hNot

/- A name that could be read can be read. -/
theorem checkReadable_renameUse
    (hSpells : SpellsScopes x y mark spellings r)
    {name : Token}
    (hAvoids : name.lexeme ≠ y)
    (hRun : checkReadable name r = .ok () r') :
    checkReadable
        (name.renameUse x y mark
          (hopsTo? r.scopes name.lexeme))
        (r.spell spellings) =
      .ok () (r'.spell spellings) := by
  rcases (gives_checkReadable _).post hRun with ⟨rfl, hReadable⟩
  unfold checkReadable
  rw [if_neg]
  rcases r' with ⟨scopes, enclosing, recorded⟩
  cases scopes with
  | nil => simp [Resolver.spell, spellScopes]
  | cons scope scopes =>
      have hLength := hSpells.length
      cases spellings with
      | nil => cases hLength
      | cons spelling spellings =>
          have hFirst :
              (spelling :: spellings)[0]? = some spelling := rfl
          have hHead := hReadable scope rfl
          unfold Scope.isPending at hHead
          simp only [Resolver.spell, spellScopes,
            List.zipWith_cons_cons, List.head?_cons, Option.any_some,
            Scope.isPending]
          rw [hSpells.marks.lookup_renameUse hAvoids
            (hSpells.avoids scope (by simp)) hFirst]
          · simpa using hHead
          · intro hNe
            by_cases hNone : scope.lookup name.lexeme = none
            · exact hNone
            · apply absurd _ hNe
              have hDeclares : scope.declares name.lexeme := by
                unfold Scope.declares
                exact Option.isSome_iff_ne_none.mpr hNone
              simp [hopsTo?, List.findIdx?_cons, hDeclares]

/- A name is recorded with the number that it had. -/
theorem locate_renameUse
    (hSpells : SpellsScopes x y mark spellings r)
    {name : Token}
    (hAvoids : name.lexeme ≠ y)
    {hops : Option Nat}
    (hRun : locate name r = .ok hops r') :
    locate (name.renameUse x y mark hops) (r.spell spellings) =
        .ok hops (r'.spell spellings) ∧
      SpellsScopes x y mark spellings r' := by
  have hFound := hSpells.hopsTo?_renameUse hAvoids
  unfold locate at hRun ⊢
  split at hRun
  · rename_i hNone
    cases hRun
    rw [hNone] at hFound
    constructor
    · simp only [Resolver.spell, hFound]
    · exact hSpells
  · rename_i found hSome
    cases hRun
    rw [hSome] at hFound
    constructor
    · simp only [Resolver.spell, hFound]
    · exact ⟨hSpells.marks, hSpells.length, hSpells.avoids⟩

end SpellsScopes

end Lox

------------------------------------------------------------
-- Steps
------------------------------------------------------------

namespace Lox

open Resolver

/-
  A step that gives a result, and another that does the same
  in other spellings and gives another result.
-/
def Respells
    {α : Type}
    (x y : String)
    (mark : Option Nat)
    (spellings : List Spelling)
    (step step' : Resolution α)
    (a a' : α) :
    Prop :=
  ∀ r r' : Resolver, SpellsScopes x y mark spellings r →
    step r = .ok a r' →
      step' (r.spell spellings) = .ok a' (r'.spell spellings) ∧
        SpellsScopes x y mark spellings r'

namespace Respells

variable {x y : String} {mark : Option Nat}
variable {spelling : Spelling} {spellings : List Spelling}

theorem spell_enter
    {r : Resolver}
    (hSpells : SpellsScopes x y mark spellings r)
    (name : String)
    (initialized : Bool) :
    (r.enter name initialized).spell spellings =
      (r.spell spellings).enter (headSpelling spellings name)
        initialized := by
  have hLength := hSpells.length
  rcases r with ⟨scopes, enclosing, recorded⟩
  cases scopes with
  | nil =>
      cases spellings with
      | nil => rfl
      | cons spelling spellings => cases hLength
  | cons scope scopes =>
      cases spellings with
      | nil => cases hLength
      | cons spelling spellings => rfl

theorem spells_enter
    {r : Resolver}
    (hSpells : SpellsScopes x y mark spellings r)
    {name : String}
    (hAvoids : name ≠ y)
    (initialized : Bool) :
    SpellsScopes x y mark spellings (r.enter name initialized) := by
  constructor
  · exact hSpells.marks
  · rw [scopes_enter, length_enterScope]
    exact hSpells.length
  · rw [scopes_enter]
    exact hSpells.avoids.enter hAvoids initialized

theorem declare
    {name name' : Token}
    (hName : name'.lexeme = headSpelling spellings name.lexeme)
    (hAvoids : name.lexeme ≠ y) :
    Respells x y mark spellings (declare name) (declare name')
      () () := by
  intro r r' hSpells hRun
  rcases (gives_declare _).post hRun with ⟨rfl, hNew⟩
  constructor
  · unfold Resolver.declare
    rw [if_neg, spell_enter hSpells, hName]
    have hLength := hSpells.length
    rcases r with ⟨scopes, enclosing, recorded⟩
    cases scopes with
    | nil => simp [spell, spellScopes]
    | cons scope scopes =>
        cases spellings with
        | nil => cases hLength
        | cons spelling spellings =>
            have hLacks := hNew scope rfl
            unfold Scope.declares at hLacks
            simp [spell, spellScopes, hName, headSpelling,
              Scope.declares, Scope.lookup_spell, hLacks]
  · exact spells_enter hSpells hAvoids false

theorem define
    {name name' : Token}
    (hName : name'.lexeme = headSpelling spellings name.lexeme)
    (hAvoids : name.lexeme ≠ y) :
    Respells x y mark spellings (define name) (define name')
      () () := by
  intro r r' hSpells hRun
  cases hRun
  constructor
  · unfold Resolver.define
    rw [spell_enter hSpells, hName]
  · exact spells_enter hSpells hAvoids true

theorem checkReturn (keyword : Token) :
    Respells x y mark spellings (checkReturn keyword)
      (checkReturn keyword) () () := by
  intro r r' hSpells hRun
  have hSame := (gives_checkReturn _).post hRun
  subst hSame
  constructor
  · unfold Resolver.checkReturn at hRun ⊢
    cases hKind : r'.enclosing with
    | none => simp [hKind] at hRun
    | function => simp [spell, hKind]
  · exact hSpells

/- Two steps, of which the first gives nothing. -/
theorem andThen
    {α : Type}
    {first first' : Resolution Unit}
    {rest rest' : Resolution α}
    {a a' : α}
    (hFirst : Respells x y mark spellings first first' () ())
    (hRest : Respells x y mark spellings rest rest' a a') :
    Respells x y mark spellings (do first; rest)
      (do first'; rest') a a' := by
  intro r r' hSpells hRun
  rcases bind_eq_ok_iff.mp hRun with ⟨_, u, hHere, hThen⟩
  rcases hFirst r u hSpells hHere with ⟨hHere', hNext⟩
  rcases hRest u r' hNext hThen with ⟨hThen', hLast⟩
  exact ⟨(bind_of_ok hHere' _).trans hThen', hLast⟩

theorem pure
    {α : Type}
    (a a' : α) :
    Respells x y mark spellings (pure a) (pure a') a a' := by
  intro r r' hSpells hRun
  rcases pure_eq_ok_iff.mp hRun with ⟨_, rfl⟩
  exact ⟨rfl, hSpells⟩

/- A step whose result is all that is put into a node. -/
theorem map
    {α β : Type}
    {step step' : Resolution α}
    {g g' : α → β}
    {a a' : α}
    (hInjective : Function.Injective g)
    (hStep : Respells x y mark spellings step step' a a') :
    Respells x y mark spellings (do return g (← step))
      (do return g' (← step')) (g a) (g' a') := by
  intro r r' hSpells hRun
  rcases bind_eq_ok_iff.mp hRun with ⟨b, u, hHere, hEnd⟩
  rcases pure_eq_ok_iff.mp hEnd with ⟨hSame, rfl⟩
  rw [hInjective hSame] at hHere
  rcases hStep r u hSpells hHere with ⟨hHere', hLast⟩
  exact ⟨bind_of_ok hHere' _, hLast⟩

/- Two steps whose results are put into a node. -/
theorem pair
    {α β γ : Type}
    {first first' : Resolution α}
    {second second' : Resolution β}
    {g g' : α → β → γ}
    {a a' : α}
    {b b' : β}
    (hInjective : Function.Injective2 g)
    (hFirst : Respells x y mark spellings first first' a a')
    (hSecond : Respells x y mark spellings second second' b b') :
    Respells x y mark spellings
      (do
        let a ← first
        return g a (← second))
      (do
        let a ← first'
        return g' a (← second'))
      (g a b) (g' a' b') := by
  intro r r' hSpells hRun
  rcases bind_eq_ok_iff.mp hRun with ⟨c, u, hHere, hRest⟩
  rcases bind_eq_ok_iff.mp hRest with ⟨d, u', hThere, hEnd⟩
  rcases pure_eq_ok_iff.mp hEnd with ⟨hSame, rfl⟩
  rcases hInjective hSame with ⟨rfl, rfl⟩
  rcases hFirst r u hSpells hHere with ⟨hHere', hNext⟩
  rcases hSecond u u' hNext hThere with ⟨hThere', hLast⟩
  rw [bind_of_ok hHere', bind_of_ok hThere']
  exact ⟨rfl, hLast⟩

/- The spellings of the scopes may be taken to be marked. -/
theorem ofMarks
    {α : Type}
    {step step' : Resolution α}
    {a a' : α}
    (hStep :
      Marks x y mark spellings →
        Respells x y mark spellings step step' a a') :
    Respells x y mark spellings step step' a a' :=
  fun r r' hSpells => hStep hSpells.marks r r' hSpells

theorem declareParams
    {params params' : List Token}
    (hNames :
      params'.map (·.lexeme) =
        params.map (headSpelling spellings ·.lexeme))
    (hAvoids : ∀ param ∈ params, param.lexeme ≠ y) :
    Respells x y mark spellings (declareParams params)
      (declareParams params') () () := by
  induction params generalizing params' with
  | nil =>
      have hNil : params' = [] := by simpa using hNames
      subst hNil
      intro r r' hSpells hRun
      cases hRun
      exact ⟨rfl, hSpells⟩
  | cons param params ih =>
      cases params' with
      | nil => simp at hNames
      | cons param' params' =>
          simp only [List.map_cons, List.cons.injEq] at hNames
          have hParam := hAvoids param (by simp)
          rw [Resolver.declareParams, Resolver.declareParams]
          apply andThen (declare hNames.1 hParam)
          apply andThen (define hNames.1 hParam)
          apply ih hNames.2
          intro other hMem
          exact hAvoids other (List.mem_cons_of_mem _ hMem)

/- A step in a new scope, whose names may be respelled. -/
theorem within
    {α : Type}
    {step step' : Resolution α}
    {a a' : α}
    {inner : Option Nat}
    (hMarks : Marks x y inner (spelling :: spellings))
    (hStep :
      Respells x y inner (spelling :: spellings) step step'
        a a') :
    Respells x y mark spellings (within step) (within step')
      a a' := by
  intro r r' hSpells hRun
  rcases within_eq_ok hRun with ⟨u, hInner, rfl⟩
  have hEnter :
      SpellsScopes x y inner (spelling :: spellings)
        { r with scopes := [] :: r.scopes } :=
    ⟨hMarks, congrArg (· + 1) hSpells.length,
      hSpells.avoids.inner⟩
  rcases hStep _ u hEnter hInner with ⟨hInner', hLeave⟩
  have hLength := hLeave.length
  rcases u with ⟨scopes, enclosing, recorded⟩
  cases scopes with
  | nil => cases hLength
  | cons scope scopes =>
      constructor
      · have hEntered :
            step' { r.spell spellings with
              scopes := [] :: (r.spell spellings).scopes } =
            .ok a' (spell (spelling :: spellings)
              ⟨scope :: scopes, enclosing, recorded⟩) := hInner'
        unfold Resolver.within
        rw [hEntered]
        rfl
      · constructor
        · exact hSpells.marks
        · simpa using hLength
        · intro other hMem
          exact hLeave.avoids other (List.mem_cons_of_mem _ hMem)

theorem withinFunction
    {α : Type}
    {step step' : Resolution α}
    {a a' : α}
    (hStep : Respells x y mark spellings step step' a a') :
    Respells x y mark spellings (withinFunction step)
      (withinFunction step') a a' := by
  intro r r' hSpells hRun
  rcases withinFunction_eq_ok hRun with ⟨u, hInner, rfl⟩
  have hEnter :
      SpellsScopes x y mark spellings
        { r with enclosing := .function } :=
    ⟨hSpells.marks, hSpells.length, hSpells.avoids⟩
  rcases hStep _ u hEnter hInner with ⟨hInner', hLeave⟩
  constructor
  · have hEntered :
        step' { r.spell spellings with
          enclosing := .function } =
        .ok a' (u.spell spellings) := hInner'
    unfold Resolver.withinFunction
    simp only [hEntered]
    rfl
  · exact ⟨hLeave.marks, hLeave.length, hLeave.avoids⟩

end Respells

end Lox

------------------------------------------------------------
-- Trees
------------------------------------------------------------

namespace Lox

open Resolver

variable {x y : String}

mutual

/- A resolved expression with new names resolves to itself. -/
theorem Expr.resolve_rename
    (e : Expr)
    {mark : Option Nat}
    {spellings : List Spelling}
    (hAvoids : e.Avoids y) :
    Respells x y mark spellings e.resolve
      (e.rename x y mark).resolve e (e.rename x y mark) := by
  cases e with
  | literal value => exact .pure _ _
  | «variable» name hops =>
      intro r r' hSpells hRun
      rw [Expr.resolve] at hRun
      rcases bind_eq_ok_iff.mp hRun with ⟨_, u, hCheck, hRest⟩
      rcases (gives_checkReadable _).post hCheck with ⟨rfl, _⟩
      rcases bind_eq_ok_iff.mp hRest with ⟨found, u', hFind, hEnd⟩
      cases hEnd
      rcases (gives_locate _).post hFind with ⟨rfl, _⟩
      have hCheck' := hSpells.checkReadable_renameUse hAvoids hCheck
      rcases hSpells.locate_renameUse hAvoids hFind with
        ⟨hFind', hLast⟩
      rw [Expr.rename, Expr.resolve, bind_of_ok hCheck',
        bind_of_ok hFind']
      exact ⟨rfl, hLast⟩
  | assign name value hops =>
      intro r r' hSpells hRun
      rw [Expr.resolve] at hRun
      rcases bind_eq_ok_iff.mp hRun with ⟨value', u, hValue, hRest⟩
      rcases bind_eq_ok_iff.mp hRest with ⟨found, u', hFind, hEnd⟩
      cases hEnd
      rcases value.resolve_rename hAvoids.2 r u hSpells hValue with
        ⟨hValue', hNext⟩
      rcases hNext.locate_renameUse hAvoids.1 hFind with
        ⟨hFind', hLast⟩
      rw [Expr.rename, Expr.resolve, bind_of_ok hValue',
        bind_of_ok hFind']
      exact ⟨rfl, hLast⟩
  | binary left op right =>
      rw [Expr.rename, Expr.resolve, Expr.resolve]
      exact
        .pair (fun _ _ _ _ hSame => by simpa using hSame)
          (left.resolve_rename hAvoids.1)
          (right.resolve_rename hAvoids.2)
  | logical left op right =>
      rw [Expr.rename, Expr.resolve, Expr.resolve]
      exact
        .pair (fun _ _ _ _ hSame => by simpa using hSame)
          (left.resolve_rename hAvoids.1)
          (right.resolve_rename hAvoids.2)
  | unary op operand =>
      rw [Expr.rename, Expr.resolve, Expr.resolve]
      exact
        .map (fun _ _ hSame => by simpa using hSame)
          (operand.resolve_rename hAvoids)
  | grouping inner =>
      rw [Expr.rename, Expr.resolve, Expr.resolve]
      exact
        .map (fun _ _ hSame => by simpa using hSame)
          (inner.resolve_rename hAvoids)
  | call callee paren args =>
      rw [Expr.rename, Expr.resolve, Expr.resolve]
      exact
        .pair (fun _ _ _ _ hSame => by simpa using hSame)
          (callee.resolve_rename hAvoids.1)
          (Expr.resolveArgs_rename args hAvoids.2)

theorem Expr.resolveArgs_rename
    (args : List Expr)
    {mark : Option Nat}
    {spellings : List Spelling}
    (hAvoids : Expr.AvoidsArgs y args) :
    Respells x y mark spellings (Expr.resolveArgs args)
      (Expr.resolveArgs (Expr.renameArgs x y mark args)) args
      (Expr.renameArgs x y mark args) := by
  cases args with
  | nil => exact .pure _ _
  | cons arg args =>
      rw [Expr.renameArgs, Expr.resolveArgs, Expr.resolveArgs]
      exact
        .pair (fun _ _ _ _ hSame => by simpa using hSame)
          (arg.resolve_rename hAvoids.1)
          (Expr.resolveArgs_rename args hAvoids.2)

end

namespace Respells

variable {mark inner params : Option Nat}
variable {first second : Spelling} {spellings : List Spelling}

theorem block
    {body body' : List Stmt}
    (hMarks : Marks x y inner (first :: spellings))
    (hBody :
      Respells x y inner (first :: spellings)
        (Stmt.resolveBody body) (Stmt.resolveBody body')
        body body') :
    Respells x y mark spellings (Stmt.block body).resolve
      (Stmt.block body').resolve (.block body)
      (.block body') := by
  rw [Stmt.resolve, Stmt.resolve]
  exact
    .map (fun _ _ hSame => by simpa using hSame)
      (within hMarks hBody)

/-
  A function with names in other spellings in the scope of its
  parameters and in that of its body.
-/
theorem function
    {name : Token}
    {names names' : List Token}
    {body body' : List Stmt}
    (hName : headSpelling spellings name.lexeme = name.lexeme)
    (hAvoids : name.lexeme ≠ y)
    (hNames :
      names'.map (·.lexeme) = names.map (second ·.lexeme))
    (hAvoidsNames : ∀ param ∈ names, param.lexeme ≠ y)
    (hParams : Marks x y params (second :: spellings))
    (hMarks : Marks x y inner (first :: second :: spellings))
    (hBody :
      Respells x y inner (first :: second :: spellings)
        (Stmt.resolveBody body) (Stmt.resolveBody body')
        body body') :
    Respells x y mark spellings
      (Stmt.function name names body).resolve
      (Stmt.function name names' body').resolve
      (.function name names body)
      (.function name names' body') := by
  have hInside :
      Respells x y params (second :: spellings) _ _ body body' :=
    andThen (declareParams hNames hAvoidsNames)
      (within hMarks hBody)
  rw [Stmt.resolve, Stmt.resolve]
  apply andThen (declare hName.symm hAvoids)
  apply andThen (define hName.symm hAvoids)
  exact
    .map (fun _ _ hSame => by simpa using hSame)
      (withinFunction (within hParams hInside))

variable {condition condition' : Expr}
variable {stmt stmt' other other' : Stmt}

theorem ifThen
    (hCondition :
      Respells x y mark spellings condition.resolve
        condition'.resolve condition condition')
    (hThen :
      Respells x y mark spellings stmt.resolve stmt'.resolve
        stmt stmt') :
    Respells x y mark spellings
      (Stmt.ifThen condition stmt).resolve
      (Stmt.ifThen condition' stmt').resolve
      (.ifThen condition stmt) (.ifThen condition' stmt') := by
  rw [Stmt.resolve, Stmt.resolve]
  exact
    .pair (fun _ _ _ _ hSame => by simpa using hSame)
      hCondition hThen

theorem ifElse
    (hCondition :
      Respells x y mark spellings condition.resolve
        condition'.resolve condition condition')
    (hThen :
      Respells x y mark spellings stmt.resolve stmt'.resolve
        stmt stmt')
    (hElse :
      Respells x y mark spellings other.resolve other'.resolve
        other other') :
    Respells x y mark spellings
      (Stmt.ifElse condition stmt other).resolve
      (Stmt.ifElse condition' stmt' other').resolve
      (.ifElse condition stmt other)
      (.ifElse condition' stmt' other') := by
  intro r r' hSpells hRun
  rw [Stmt.resolve] at hRun
  rcases bind_eq_ok_iff.mp hRun with ⟨_, u, hFirst, hRest⟩
  rcases bind_eq_ok_iff.mp hRest with ⟨_, u', hSecond, hLast⟩
  rcases bind_eq_ok_iff.mp hLast with ⟨_, u'', hThird, hEnd⟩
  cases hEnd
  rcases hCondition r u hSpells hFirst with ⟨hFirst', hNext⟩
  rcases hThen u u' hNext hSecond with ⟨hSecond', hAfter⟩
  rcases hElse u' r' hAfter hThird with ⟨hThird', hFinal⟩
  rw [Stmt.resolve, bind_of_ok hFirst', bind_of_ok hSecond',
    bind_of_ok hThird']
  exact ⟨rfl, hFinal⟩

theorem loop
    (hCondition :
      Respells x y mark spellings condition.resolve
        condition'.resolve condition condition')
    (hBody :
      Respells x y mark spellings stmt.resolve stmt'.resolve
        stmt stmt') :
    Respells x y mark spellings
      (Stmt.loop condition stmt).resolve
      (Stmt.loop condition' stmt').resolve
      (.loop condition stmt) (.loop condition' stmt') := by
  rw [Stmt.resolve, Stmt.resolve]
  exact
    .pair (fun _ _ _ _ hSame => by simpa using hSame)
      hCondition hBody

theorem body
    {rest rest' : List Stmt}
    (hStmt :
      Respells x y mark spellings stmt.resolve stmt'.resolve
        stmt stmt')
    (hRest :
      Respells x y mark spellings (Stmt.resolveBody rest)
        (Stmt.resolveBody rest') rest rest') :
    Respells x y mark spellings
      (Stmt.resolveBody (stmt :: rest))
      (Stmt.resolveBody (stmt' :: rest')) (stmt :: rest)
      (stmt' :: rest') := by
  rw [Stmt.resolveBody, Stmt.resolveBody]
  exact
    .pair (fun _ _ _ _ hSame => by simpa using hSame) hStmt
      hRest

end Respells

mutual

/-
  A resolved statement with new names resolves to itself, if
  no function has the name of the declaration.
-/
theorem Stmt.resolve_rename
    (s : Stmt)
    {mark : Option Nat}
    {spellings : List Spelling}
    (hAvoids : s.Avoids y)
    (hLacks : mark = some 0 → s.LacksFunction x) :
    Respells x y mark spellings s.resolve
      (s.rename x y mark).resolve s (s.rename x y mark) := by
  cases s with
  | expression value =>
      rw [Stmt.rename, Stmt.resolve, Stmt.resolve]
      exact
        .map (fun _ _ hSame => by simpa using hSame)
          (value.resolve_rename hAvoids)
  | print value =>
      rw [Stmt.rename, Stmt.resolve, Stmt.resolve]
      exact
        .map (fun _ _ hSame => by simpa using hSame)
          (value.resolve_rename hAvoids)
  | var name initializer =>
      refine .ofMarks fun hMarks => ?_
      cases initializer with
      | none =>
          have hName := hMarks.lexeme_declared hAvoids
          rw [Stmt.rename, Stmt.resolve, Stmt.resolve]
          apply Respells.andThen (.declare hName hAvoids)
          apply Respells.andThen (.define hName hAvoids)
          exact .pure _ _
      | some value =>
          have hName := hMarks.lexeme_declared hAvoids.1
          intro r r' hSpells hRun
          rw [Stmt.resolve] at hRun
          rcases bind_eq_ok_iff.mp hRun with ⟨_, u, hDeclare, hRest⟩
          rcases bind_eq_ok_iff.mp hRest with ⟨_, u', hValue, hLast⟩
          rcases bind_eq_ok_iff.mp hLast with
            ⟨_, u'', hDefine, hEnd⟩
          cases hEnd
          rcases Respells.declare hName hAvoids.1 r u hSpells
            hDeclare with ⟨hDeclare', hDeclared⟩
          rcases value.resolve_rename hAvoids.2 u u' hDeclared
            hValue with ⟨hValue', hNext⟩
          rcases Respells.define hName hAvoids.1 u' r' hNext
            hDefine with ⟨hDefine', hAfter⟩
          rw [Stmt.rename, Stmt.resolve, bind_of_ok hDeclare',
            bind_of_ok hValue', bind_of_ok hDefine']
          exact ⟨rfl, hAfter⟩
  | block body =>
      refine .ofMarks fun hMarks => ?_
      apply Respells.block hMarks.inner
      apply Stmt.resolveBody_rename body hAvoids
      intro hZero
      exact absurd hZero (deeper_ne_zero 0 mark)
  | ifThen condition thenBranch =>
      exact
        .ifThen (condition.resolve_rename hAvoids.1)
          (thenBranch.resolve_rename hAvoids.2 hLacks)
  | ifElse condition thenBranch elseBranch =>
      have hThen : mark = some 0 → thenBranch.LacksFunction x :=
        fun hZero => (hLacks hZero).1
      have hElse : mark = some 0 → elseBranch.LacksFunction x :=
        fun hZero => (hLacks hZero).2
      exact
        .ifElse (condition.resolve_rename hAvoids.1)
          (thenBranch.resolve_rename hAvoids.2.1 hThen)
          (elseBranch.resolve_rename hAvoids.2.2 hElse)
  | loop condition body =>
      exact
        .loop (condition.resolve_rename hAvoids.1)
          (body.resolve_rename hAvoids.2 hLacks)
  | function name params body =>
      refine .ofMarks fun hMarks => ?_
      rcases hAvoids with ⟨hAvoidsName, hAvoidsParams, hAvoidsBody⟩
      have hName := hMarks.headSpelling_of_ne hLacks hAvoidsName
      apply Respells.function hName hAvoidsName rfl hAvoidsParams
        hMarks.inner hMarks.deeper_two
      apply Stmt.resolveBody_rename body hAvoidsBody
      intro hZero
      exact absurd hZero (deeper_ne_zero 1 mark)
  | ret keyword value =>
      cases value with
      | none =>
          rw [Stmt.rename, Stmt.resolve]
          exact .andThen (.checkReturn keyword) (.pure _ _)
      | some value =>
          rw [Stmt.rename, Stmt.resolve, Stmt.resolve]
          apply Respells.andThen (.checkReturn keyword)
          exact
            .map (fun _ _ hSame => by simpa using hSame)
              (value.resolve_rename hAvoids)

theorem Stmt.resolveBody_rename
    (body : List Stmt)
    {mark : Option Nat}
    {spellings : List Spelling}
    (hAvoids : Stmt.AvoidsBody y body)
    (hLacks :
      mark = some 0 → ∀ stmt ∈ body, stmt.LacksFunction x) :
    Respells x y mark spellings (Stmt.resolveBody body)
      (Stmt.resolveBody (Stmt.renameBody x y mark body)) body
      (Stmt.renameBody x y mark body) := by
  cases body with
  | nil => exact .pure _ _
  | cons stmt body =>
      have hFirst : mark = some 0 → stmt.LacksFunction x :=
        fun hZero => hLacks hZero stmt (by simp)
      have hOthers :
          mark = some 0 → ∀ other ∈ body, other.LacksFunction x :=
        fun hZero other hMem =>
          hLacks hZero other (List.mem_cons_of_mem _ hMem)
      exact
        .body (stmt.resolve_rename hAvoids.1 hFirst)
          (Stmt.resolveBody_rename body hAvoids.2 hOthers)

end

end Lox
