import Mathlib.Data.Nat.Find
import Mathlib.Order.Bounds.Basic
import Lox.Proofs.Machine.Tree

/-
  Two ways to a variable.

  A variable can be searched for from an environment outward,
  or be taken from the environment at a known distance. Where
  the distance is that of the nearest binding of the name, both
  ways lead to the same binding, and a change made by either is
  seen from those environments alone whose nearest binding of
  the name it is.

  Key definitions include:
    * `Store.Links`
    * `Store.Binds`
    * `Store.Nearest`
    * `Store.Request`
    * `Store.serve`
    * `Store.Built`
    * `Store.access_agrees`
-/

------------------------------------------------------------
-- Nearest Bindings
------------------------------------------------------------

namespace Lox.Store

/- A number of links leads from one environment to another. -/
inductive Links (s : Store) :
    (links : Nat) → (env found : EnvId) → Prop where
  | here (env : EnvId) : Links s 0 env env
  | up
      {links : Nat} {env outer found : EnvId}
      (hParent : s.parent? env = some outer)
      (hRest : Links s links outer found) :
      Links s (links + 1) env found

/- A name is bound a number of links further out. -/
def Binds
    (s : Store)
    (env : EnvId)
    (name : String)
    (links : Nat) :
    Prop :=
  ∃ found, s.Links links env found ∧ (s.local? found name).isSome

/-
  The environment with the nearest binding of a name, at the
  least number of links at which there is one.
-/
structure Nearest
    (s : Store)
    (env : EnvId)
    (name : String)
    (links : Nat)
    (owner : EnvId) :
    Prop where
  leads : s.Links links env owner
  least : IsLeast {links | s.Binds env name links} links

variable {s : Store} {env found owner : EnvId}
variable {name : String} {links : Nat}

theorem ancestor?_eq_some_iff :
    s.ancestor? env links = some found ↔
      s.Links links env found := by
  induction links generalizing env with
  | zero =>
      constructor
      · intro hFound
        cases hFound
        exact .here _
      · rintro ⟨⟩
        rfl
  | succ links ih =>
      unfold ancestor?
      constructor
      · intro hFound
        cases hParent : s.parent? env with
        | none => simp [hParent] at hFound
        | some outer =>
            rw [hParent] at hFound
            exact .up hParent (ih.mp hFound)
      · intro hLinks
        cases hLinks with
        | up hParent hRest =>
            rw [hParent]
            exact ih.mpr hRest

/- The chain of an environment is all that links lead to. -/
theorem Descends.links_iff
    (hDescends : s.Descends) :
    s.Links links env found ↔ (s.chain env)[links]? = some found := by
  rw [← ancestor?_eq_some_iff, (hDescends.walks env).ancestor]

namespace Nearest

theorem isSome
    (hNearest : s.Nearest env name links owner) :
    (s.local? owner name).isSome := by
  rcases hNearest.least.1 with ⟨found, hFound, hBound⟩
  have hSame :=
    (ancestor?_eq_some_iff.mpr hFound).symm.trans
      (ancestor?_eq_some_iff.mpr hNearest.leads)
  rwa [Option.some.inj hSame] at hBound

theorem lt_next
    (hNearest : s.Nearest env name links owner) :
    owner < s.next := by
  by_contra hAbsent
  have hBound := hNearest.isSome
  rw [local?_of_not_lt hAbsent] at hBound
  cases hBound

/- The nearest binding of a name is a single one. -/
theorem owner_eq
    {links' : Nat} {owner' : EnvId}
    (hNearest : s.Nearest env name links owner)
    (hOther : s.Nearest env name links' owner') :
    owner = owner' := by
  have hLinks := hNearest.least.unique hOther.least
  subst hLinks
  have hSame :=
    (ancestor?_eq_some_iff.mpr hNearest.leads).symm.trans
      (ancestor?_eq_some_iff.mpr hOther.leads)
  exact Option.some.inj hSame

/-
  On the chain, no environment before the nearest binding binds
  the name.
-/
theorem chain_eq
    (hNearest : s.Nearest env name links owner)
    (hDescends : s.Descends) :
    ∃ before after,
      s.chain env = before ++ owner :: after ∧
        ∀ between ∈ before, s.local? between name = none := by
  have hHere := hDescends.links_iff.mp hNearest.leads
  rcases List.getElem?_eq_some_iff.mp hHere with
    ⟨hLength, hOwner⟩
  refine
    ⟨(s.chain env).take links, (s.chain env).drop (links + 1),
      ?_, ?_⟩
  · rw [← hOwner, ← List.drop_eq_getElem_cons,
      List.take_append_drop]
  · intro between hMem
    rcases List.mem_take_iff_getElem.mp hMem with
      ⟨fewer, hFewer, hBetween⟩
    by_contra hBound
    have hLinks : s.Links fewer env between :=
      hDescends.links_iff.mpr
        (List.getElem?_eq_some_iff.mpr ⟨by omega, hBetween⟩)
    have hLeast :=
      hNearest.least.2
        ⟨between, hLinks, Option.isSome_iff_ne_none.mpr hBound⟩
    omega

theorem owner?_eq
    (hNearest : s.Nearest env name links owner)
    (hDescends : s.Descends) :
    s.owner? env name = some owner := by
  rcases hNearest.chain_eq hDescends with
    ⟨before, after, hChain, hBefore⟩
  unfold owner?
  rw [List.find?_eq_some_iff_append]
  refine ⟨hNearest.isSome, before, after, hChain, ?_⟩
  intro between hMem
  simp [hBefore between hMem]

/- What is read is the value in the nearest binding. -/
theorem get_eq
    {token : Token}
    (hNearest : s.Nearest env token.lexeme links owner)
    (hDescends : s.Descends) :
    ∃ value,
      s.local? owner token.lexeme = some value ∧
        s.get env token = .ok value := by
  rcases hNearest.chain_eq hDescends with
    ⟨before, after, hChain, hBefore⟩
  rcases Option.isSome_iff_exists.mp hNearest.isSome with
    ⟨value, hValue⟩
  have hFound :
      (s.chain env).findSome? (s.local? · token.lexeme) =
        some value :=
    List.findSome?_eq_some_iff.mpr
      ⟨before, owner, after, hChain, hValue, hBefore⟩
  refine ⟨value, hValue, ?_⟩
  unfold get
  rw [hFound]

end Nearest

/- A name that is bound somewhere on the way has an owner. -/
theorem exists_nearest
    (hBinds : ∃ links, s.Binds env name links) :
    ∃ links owner, s.Nearest env name links owner := by
  classical
  have hLeast :
      IsLeast {links | s.Binds env name links} (Nat.find hBinds) :=
    ⟨Nat.find_spec hBinds,
      fun _ hOther => Nat.find_min' hBinds hOther⟩
  rcases hLeast.1 with ⟨owner, hLinks, _⟩
  exact ⟨Nat.find hBinds, owner, hLinks, hLeast⟩

/- Where a name is not bound on the way, it is not found. -/
theorem Descends.local?_eq_none
    (hDescends : s.Descends)
    (hFree : ∀ links, ¬ s.Binds env name links)
    (hMem : found ∈ s.chain env) :
    s.local? found name = none := by
  by_contra hBound
  rcases List.getElem?_of_mem hMem with ⟨links, hFound⟩
  exact
    hFree links
      ⟨found, hDescends.links_iff.mpr hFound,
        Option.isSome_iff_ne_none.mpr hBound⟩

theorem Descends.get_eq_error
    {token : Token}
    (hDescends : s.Descends)
    (hFree : ∀ links, ¬ s.Binds env token.lexeme links) :
    s.get env token = .error (undefined token) := by
  have hNone :
      (s.chain env).findSome? (s.local? · token.lexeme) = none := by
    apply List.findSome?_eq_none_iff.mpr
    intro found hMem
    exact hDescends.local?_eq_none hFree hMem
  unfold get
  rw [hNone]

theorem Descends.owner?_eq_none
    (hDescends : s.Descends)
    (hFree : ∀ links, ¬ s.Binds env name links) :
    s.owner? env name = none := by
  unfold owner?
  apply List.find?_eq_none.mpr
  intro found hMem
  simp [hDescends.local?_eq_none hFree hMem]

end Lox.Store

------------------------------------------------------------
-- Changed Bindings
------------------------------------------------------------

namespace Lox.Store

variable {s : Store} {env found owner : EnvId}
variable {name otherName : String} {links : Nat}

/- To change a binding binds no other name anywhere. -/
theorem isSome_local?_define
    (hBound : (s.local? owner name).isSome)
    (value : Value)
    (env : EnvId)
    (otherName : String) :
    ((s.define owner name value).local? env otherName).isSome =
      (s.local? env otherName).isSome := by
  rw [local?_define]
  split
  · rename_i hHere
    rw [hHere.1.1, hHere.1.2, hBound]
    rfl
  · rfl

theorem links_define_iff (value : Value) :
    (s.define owner name value).Links links env found ↔
      s.Links links env found := by
  have hParents env := s.parent?_define owner env name value
  rw [← ancestor?_eq_some_iff, ← ancestor?_eq_some_iff,
    ancestor?_of_parents hParents]

theorem binds_define_iff
    (hBound : (s.local? owner name).isSome)
    (value : Value) :
    (s.define owner name value).Binds env otherName links ↔
      s.Binds env otherName links := by
  unfold Binds
  simp only [links_define_iff, isSome_local?_define hBound]

/- So every name keeps the place of its nearest binding. -/
theorem nearest_define_iff
    (hBound : (s.local? owner name).isSome)
    (value : Value) :
    (s.define owner name value).Nearest env otherName links found ↔
      s.Nearest env otherName links found := by
  have hBinds :
      {links |
          (s.define owner name value).Binds env otherName links} =
        {links | s.Binds env otherName links} :=
    Set.ext fun _ => binds_define_iff hBound value
  constructor
  · rintro ⟨hLeads, hLeast⟩
    exact ⟨(links_define_iff value).mp hLeads, hBinds ▸ hLeast⟩
  · rintro ⟨hLeads, hLeast⟩
    exact ⟨(links_define_iff value).mpr hLeads, hBinds ▸ hLeast⟩

theorem Descends.define
    (hDescends : s.Descends)
    (env : EnvId)
    (name : String)
    (value : Value) :
    (s.define env name value).Descends := by
  intro inner outer hParent
  rw [parent?_define] at hParent
  exact hDescends inner outer hParent

/- A changed binding is read where it is the nearest one. -/
theorem Nearest.get_define
    {token : Token}
    (hNearest : s.Nearest env token.lexeme links owner)
    (hDescends : s.Descends)
    (value : Value) :
    (s.define owner token.lexeme value).get env token =
      .ok value := by
  have hAfter :=
    (nearest_define_iff hNearest.isSome value).mpr hNearest
  rcases hAfter.get_eq (hDescends.define _ _ _) with
    ⟨found, hFound, hGet⟩
  rw [local?_define_self hNearest.lt_next] at hFound
  cases hFound
  exact hGet

/- Everywhere else the same is read as before. -/
theorem Descends.get_define
    {token : Token}
    (hDescends : s.Descends)
    (hBound : (s.local? owner name).isSome)
    (value : Value)
    (hElsewhere :
      token.lexeme = name →
        ∀ links, ¬ s.Nearest env name links owner) :
    (s.define owner name value).get env token = s.get env token := by
  have hDescends' := hDescends.define owner name value
  by_cases hBinds : ∃ links, s.Binds env token.lexeme links
  · rcases exists_nearest hBinds with ⟨links, nearest, hNearest⟩
    rcases hNearest.get_eq hDescends with ⟨found, hFound, hGet⟩
    rcases
      ((nearest_define_iff hBound value).mpr hNearest).get_eq
        hDescends' with
      ⟨found', hFound', hGet'⟩
    have hOther : ¬ (nearest = owner ∧ token.lexeme = name) := by
      rintro ⟨rfl, rfl⟩
      exact hElsewhere rfl links hNearest
    rw [local?_define, if_neg fun hHere => hOther hHere.1, hFound]
      at hFound'
    rw [hGet, hGet', Option.some.inj hFound']
  · have hFree : ∀ links, ¬ s.Binds env token.lexeme links :=
      fun links hHere => hBinds ⟨links, hHere⟩
    rw [hDescends.get_eq_error hFree]
    apply hDescends'.get_eq_error
    intro links hHere
    exact hFree links ((binds_define_iff hBound value).mp hHere)

end Lox.Store

------------------------------------------------------------
-- Collections Of Environments
------------------------------------------------------------

namespace Lox.Store

/- What a collection of environments can be asked to do. -/
inductive Request where
  | make (parent : Option EnvId)
  | define (env : EnvId) (name : String) (value : Value)
  | assign (env : EnvId) (name : Token) (value : Value)
  | assignAt
      (env : EnvId) (distance : Nat) (name : Token)
      (value : Value)

/- The environment that a request names, if any. -/
def Request.env? : Request → Option EnvId
  | make parent => parent
  | define env _ _ => some env
  | assign env _ _ => some env
  | assignAt env _ _ _ => some env

/- A store that a change gives, or the old one and an error. -/
def orKeep
    (s : Store)
    (result : Except RuntimeError Store) :
    Store × Option RuntimeError :=
  match result with
  | .ok t => (t, none)
  | .error e => (s, some e)

/- Does what is asked for, or gives the error of a failure. -/
def serve (s : Store) : Request → Store × Option RuntimeError
  | .make parent => (s.make parent, none)
  | .define env name value => (s.define env name value, none)
  | .assign env name value => s.orKeep (s.assign env name value)
  | .assignAt env distance name value =>
      s.orKeep (s.assignAt env distance name value)

/-
  A store that was built from nothing by requests, each of
  which names an environment that has been made before.
-/
inductive Built : Store → Prop where
  | empty : Built {}
  | serve
      {s : Store}
      (hBuilt : Built s)
      (request : Request)
      (hKnown : ∀ env, request.env? = some env → env < s.next) :
      Built (s.serve request).1

variable {s : Store}

theorem Descends.make
    {parent : Option EnvId}
    (hDescends : s.Descends)
    (hKnown : ∀ env, parent = some env → env < s.next) :
    (s.make parent).Descends := by
  intro inner outer hParent
  rw [parent?_make] at hParent
  split at hParent
  · rename_i hNew
    rw [hNew]
    exact hKnown outer hParent
  · exact hDescends inner outer hParent

theorem Descends.orKeep
    {result : Except RuntimeError EnvId}
    (hDescends : s.Descends)
    (name : String)
    (value : Value) :
    (s.orKeep (do
      let env ← result
      return s.define env name value)).1.Descends := by
  cases result with
  | ok env => exact hDescends.define env name value
  | error e => exact hDescends

/- Requests make environments within older ones only. -/
theorem Built.descends (hBuilt : s.Built) : s.Descends := by
  induction hBuilt with
  | empty =>
      intro inner outer hParent
      cases hParent
  | @serve s _ request hKnown ih =>
      cases request with
      | make parent => exact ih.make hKnown
      | define env name value => exact ih.define env name value
      | assign env name value => exact ih.orKeep name.lexeme value
      | assignAt env distance name value =>
          exact ih.orKeep name.lexeme value

end Lox.Store

------------------------------------------------------------
-- Agreement Of The Two Ways
------------------------------------------------------------

namespace Lox.Store

variable {s t : Store} {env owner : EnvId} {links : Nat}

/-
  What a change of a name in an environment does to reading: the
  new value is read from those environments whose nearest
  binding of the name it is, and nothing else is read otherwise.
-/
structure Changes
    (s t : Store)
    (owner : EnvId)
    (name : String)
    (value : Value) :
    Prop where
  parents : ∀ env, t.parent? env = s.parent? env
  seen :
    ∀ env (token : Token),
      token.lexeme = name →
        (∃ links, s.Nearest env name links owner) →
          t.get env token = .ok value
  unseen :
    ∀ env (token : Token),
      (token.lexeme = name →
        ∀ links, ¬ s.Nearest env name links owner) →
          t.get env token = s.get env token

theorem Nearest.changes
    {name : String}
    (hNearest : s.Nearest env name links owner)
    (hDescends : s.Descends)
    (value : Value) :
    s.Changes (s.define owner name value) owner name value := by
  refine ⟨fun env => s.parent?_define owner env name value, ?_, ?_⟩
  · rintro other token rfl ⟨links, hOther⟩
    exact hOther.get_define hDescends value
  · intro other token hElsewhere
    exact hDescends.get_define hNearest.isSome value hElsewhere

theorem ancestor_eq_ok_iff
    {distance : Nat} {found : EnvId} :
    s.ancestor env distance = .ok found ↔
      s.Links distance env found := by
  rw [← ancestor?_eq_some_iff]
  unfold ancestor
  cases s.ancestor? env distance <;> simp

/- A distance leads outside if it is greater than the depth. -/
theorem Descends.ancestor_fails_iff
    (hDescends : s.Descends)
    (env : EnvId)
    (distance : Nat) :
    (∃ e, s.ancestor env distance = .error e) ↔
      s.depth env < distance := by
  have hWalks := hDescends.walks env
  have hLength : 0 < (s.chain env).length := by
    rcases hWalks.exists_last with ⟨top, hLast, _⟩
    exact List.length_pos_of_mem (List.mem_of_getLast? hLast)
  unfold ancestor depth
  rw [hWalks.ancestor]
  cases hFound : (s.chain env)[distance]? with
  | none =>
      have hOutside := List.getElem?_eq_none_iff.mp hFound
      simp only [Except.error.injEq, exists_eq', true_iff]
      omega
  | some found =>
      rcases List.getElem?_eq_some_iff.mp hFound with ⟨hInside, _⟩
      simp only [reduceCtorEq, exists_false, false_iff]
      omega

/- To change a name is to bind it where it is bound nearest. -/
theorem Nearest.serve_assign
    {name : Token}
    (hNearest : s.Nearest env name.lexeme links owner)
    (hDescends : s.Descends)
    (value : Value) :
    s.serve (.assign env name value) =
      (s.define owner name.lexeme value, none) := by
  show s.orKeep (s.assign env name value) = _
  unfold assign Store.owner
  rw [hNearest.owner?_eq hDescends]
  rfl

theorem serve_assignAt
    (hLeads : s.Links links env owner)
    (name : Token)
    (value : Value) :
    s.serve (.assignAt env links name value) =
      (s.define owner name.lexeme value, none) := by
  show s.orKeep (s.assignAt env links name value) = _
  unfold assignAt
  rw [ancestor_eq_ok_iff.mpr hLeads]
  rfl

theorem getAt_eq
    {name : Token} {found : Value}
    (hLeads : s.Links links env owner)
    (hFound : s.local? owner name.lexeme = some found) :
    s.getAt env links name = .ok found := by
  unfold getAt
  rw [ancestor_eq_ok_iff.mpr hLeads]
  simp only [bind, Except.bind, hFound]

theorem Descends.serve_assign
    {name : Token}
    (hDescends : s.Descends)
    (hFree : ∀ links, ¬ s.Binds env name.lexeme links)
    (value : Value) :
    s.serve (.assign env name value) =
      (s, some (undefined name)) := by
  show s.orKeep (s.assign env name value) = _
  unfold assign Store.owner
  rw [hDescends.owner?_eq_none hFree]
  rfl

/-
  In every collection of environments, to search for a name is
  to go to the distance of its nearest binding: the same value
  is read, and a change leaves the same environments, with the
  new value seen where that binding is the nearest and nowhere
  else. A name that is not bound on the way is neither read nor
  changed, and only a distance beyond the depth leads nowhere.
-/
theorem access_agrees
    (hBuilt : s.Built)
    (env : EnvId)
    (name : Token)
    (value : Value) :
    (∀ links, IsLeast {links | s.Binds env name.lexeme links} links →
      (∃ found, s.get env name = .ok found ∧
        s.getAt env links name = .ok found) ∧
      ∃ owner t, s.Nearest env name.lexeme links owner ∧
        s.serve (.assign env name value) = (t, none) ∧
        s.serve (.assignAt env links name value) = (t, none) ∧
        s.Changes t owner name.lexeme value) ∧
    ((∀ links, ¬ s.Binds env name.lexeme links) →
      s.get env name = .error (undefined name) ∧
      s.serve (.assign env name value) =
        (s, some (undefined name))) ∧
    ∀ distance,
      (∃ e, s.ancestor env distance = .error e) ↔
        s.depth env < distance := by
  have hDescends := hBuilt.descends
  refine ⟨?_, ?_, hDescends.ancestor_fails_iff env⟩
  · intro links hLeast
    rcases hLeast.1 with ⟨owner, hLeads, _⟩
    have hNearest : s.Nearest env name.lexeme links owner :=
      ⟨hLeads, hLeast⟩
    rcases hNearest.get_eq hDescends with ⟨found, hFound, hGet⟩
    exact
      ⟨⟨found, hGet, getAt_eq hLeads hFound⟩, owner, _, hNearest,
        hNearest.serve_assign hDescends value,
        serve_assignAt hLeads name value,
        hNearest.changes hDescends value⟩
  · intro hFree
    exact
      ⟨hDescends.get_eq_error hFree,
        hDescends.serve_assign hFree value⟩

/-
  The globals bind a name, and so does the first of the two
  environments within them, which has another one within it.
-/
def shadowing : Store :=
  let globals := (({} : Store).make none).define 0 "a" .nil
  let inner := (globals.make (some 0)).define 1 "a" (.bool true)
  (inner.make (some 1)).make (some 0)

theorem built_shadowing : shadowing.Built := by
  have hMade : (({} : Store).make none).Built :=
    Built.empty.serve (.make none) (by rintro _ ⟨⟩)
  have hGlobals :=
    hMade.serve (.define 0 "a" .nil)
      (by rintro _ ⟨⟩; decide)
  have hWithin :=
    hGlobals.serve (.make (some 0))
      (by rintro _ ⟨⟩; decide)
  have hInner :=
    hWithin.serve (.define 1 "a" (.bool true))
      (by rintro _ ⟨⟩; decide)
  have hInmost :=
    hInner.serve (.make (some 1))
      (by rintro _ ⟨⟩; decide)
  exact
    hInmost.serve (.make (some 0))
      (by rintro _ ⟨⟩; decide)

/- The binding nearer is changed, that of the globals is not. -/
theorem access_agrees_shadowing :
    let name : Token := ⟨.identifier, "a", .nil, 1, 1⟩
    let missing : Token := ⟨.identifier, "b", .nil, 1, 1⟩
    shadowing.Built ∧
    IsLeast {links | shadowing.Binds 2 "a" links} 1 ∧
    shadowing.getAt 2 1 name = .ok (.bool true) ∧
    (∃ t,
      shadowing.serve (.assign 2 name (.bool false)) = (t, none) ∧
      shadowing.serve (.assignAt 2 1 name (.bool false)) =
        (t, none) ∧
      t.get 1 name = .ok (.bool false) ∧
      t.get 3 name = .ok .nil) ∧
    (∀ links, ¬ shadowing.Binds 2 "b" links) ∧
    shadowing.get 2 missing = .error (undefined missing) ∧
    ∃ e, shadowing.ancestor 2 3 = .error e := by
  intro name missing
  have hDescends := built_shadowing.descends
  have hChain : shadowing.chain 2 = [2, 1, 0] := rfl
  have hLeast : IsLeast {links | shadowing.Binds 2 "a" links} 1 := by
    refine ⟨⟨1, .up rfl (.here 1), rfl⟩, ?_⟩
    rintro links ⟨found, hLinks, hBound⟩
    cases hLinks with
    | here => cases hBound
    | up => exact Nat.le_add_left _ _
  have hFree : ∀ links, ¬ shadowing.Binds 2 "b" links := by
    rintro links ⟨found, hLinks, hBound⟩
    have hMem := List.mem_of_getElem? (hDescends.links_iff.mp hLinks)
    have hNone :
        ∀ found ∈ [2, 1, 0],
          (shadowing.local? found "b").isSome = false := by
      decide
    rw [hNone found (hChain ▸ hMem)] at hBound
    cases hBound
  rcases access_agrees built_shadowing 2 name (.bool false) with
    ⟨hBound, -, hDepth⟩
  rcases hBound 1 hLeast with
    ⟨⟨found, hGet, hGetAt⟩, owner, t, hNearest, hAssign, hAssignAt,
      hChanges⟩
  have hOwner : owner = 1 := by
    have hHere := ancestor?_eq_some_iff.mpr hNearest.leads
    exact (Option.some.inj hHere).symm
  subst hOwner
  have hSelf : shadowing.Nearest 1 "a" 0 1 :=
    ⟨.here 1, ⟨⟨1, .here 1, rfl⟩, fun _ _ => Nat.zero_le _⟩⟩
  have hOther : shadowing.Nearest 3 "a" 1 0 := by
    refine ⟨.up rfl (.here 0), ⟨⟨0, .up rfl (.here 0), rfl⟩, ?_⟩⟩
    rintro links ⟨found, hLinks, hBound⟩
    cases hLinks with
    | here => cases hBound
    | up => exact Nat.le_add_left _ _
  refine
    ⟨built_shadowing, hLeast, hGetAt.trans (hGet.symm.trans rfl),
      ⟨t, hAssign, hAssignAt,
        hChanges.seen 1 name rfl ⟨0, hSelf⟩, ?_⟩,
      hFree, ?_, (hDepth 3).mpr (by decide)⟩
  · rw [hChanges.unseen 3 name fun _ links hHere =>
      absurd (hHere.owner_eq hOther) (by decide)]
    rfl
  · exact
      ((access_agrees built_shadowing 2 missing .nil).2.1 hFree).1

end Lox.Store
