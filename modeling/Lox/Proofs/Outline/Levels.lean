import Lox.Proofs.Mirror.Appearance
import Lox.Proofs.Outline.Lines

/-
  The lines of an outline determine it.

  A node is shown with its children below it, one level further
  in, and they end with the first line that stands further out.
  A leaf that is the only child stands on the line of the node,
  after a tab. Whether a line below a node is a leaf or a node
  of its own is known from the label of the node and the place
  of the child.

  Key definitions include:
    * `leafAt`
    * `IsRegular`
    * `Closes`
    * `worded_of_linesOnto`
    * `worded_of_pretty`
-/

------------------------------------------------------------
-- Regular Outlines
------------------------------------------------------------

namespace Lox.Outline

def isLeaf : Outline → Bool
  | .node _ _ => false
  | .token _ => true
  | .value _ => true

/- Which children of a node are leaves, as its label tells. -/
def leafAt (label : String) (place : Nat) : Bool :=
  if label ∈
      ["literal", "variable", "assign", "unary", "vardecl",
        "fundecl"] then
    place = 0
  else if label ∈ ["binary", "logical"] then place = 1
  else label = "params"

/- A label fits a line, and ends before a tab. -/
structure IsLabel (label : String) : Prop where
  fits : FitsLine label
  tab : '\t' ∉ label.toList

mutual

/- Leaves fit their lines, and stand where the labels tell. -/
def IsRegular : Outline → Prop
  | .node label children =>
      IsLabel label ∧ AreRegular label 0 children
  | .token t => FitsLine t.lexeme
  | .value text => FitsLine text

/- The children of a node, from a place on. -/
def AreRegular (label : String) :
    (place : Nat) → List Outline → Prop
  | _, [] => True
  | place, child :: children =>
      child.IsRegular ∧ child.isLeaf = leafAt label place ∧
        AreRegular label (place + 1) children

end

/- The text of a leaf that stands alone. -/
def loneLeaf? : List Outline → Option String
  | [.token t] => some t.lexeme
  | [.value text] => some text
  | _ => none

theorem linesOnto_node
    (level : Nat)
    (label : String)
    (children : List Outline)
    (lines : List Line) :
    linesOnto level (.node label children) lines =
      match loneLeaf? children with
      | some text => ⟨level, label ++ "\t" ++ text⟩ :: lines
      | none =>
          ⟨level, label⟩ ::
            childrenOnto (level + 1) children lines := by
  match children with
  | [] => rfl
  | [.token t] => rfl
  | [.value text] => rfl
  | [.node inner others] => rfl
  | first :: second :: others =>
      rw [linesOnto_many]
      cases first <;> rfl

theorem worded_of_loneLeaf
    {children : List Outline}
    {text : String}
    (hLone : loneLeaf? children = some text) :
    wordedAll children = [.value text] := by
  unfold loneLeaf? at hLone
  split at hLone
  · cases hLone
    rfl
  · cases hLone
    rfl
  · cases hLone

end Lox.Outline

------------------------------------------------------------
-- Lines Fit
------------------------------------------------------------

namespace Lox.Outline

theorem IsLabel.fits_before
    {label text : String}
    (hLabel : IsLabel label)
    (hText : FitsLine text) :
    FitsLine (label ++ "\t" ++ text) := by
  have hNewline := hLabel.fits.newline
  have hMargin := hLabel.fits.margin
  have hTextNewline := hText.newline
  constructor
  · simp [hNewline, hTextNewline]
  · cases hChars : label.toList with
    | nil => simp [hChars]
    | cons c rest =>
        rw [hChars] at hMargin
        simpa [hChars] using hMargin

theorem fits_of_loneLeaf
    {label text : String}
    {children : List Outline}
    (hRegular : AreRegular label 0 children)
    (hLone : loneLeaf? children = some text) :
    FitsLine text := by
  unfold loneLeaf? at hLone
  split at hLone
  · cases hLone
    exact hRegular.1
  · cases hLone
    exact hRegular.1
  · cases hLone

mutual

theorem fits_linesOnto
    (level : Nat)
    (outline : Outline)
    (hRegular : outline.IsRegular)
    {lines : List Line}
    (hLines : ∀ line ∈ lines, FitsLine line.text) :
    ∀ line ∈ linesOnto level outline lines, FitsLine line.text := by
  cases outline with
  | token t =>
      exact List.forall_mem_cons.mpr ⟨hRegular, hLines⟩
  | value text =>
      exact List.forall_mem_cons.mpr ⟨hRegular, hLines⟩
  | node label children =>
      rcases hRegular with ⟨hLabel, hChildren⟩
      have hBelow :=
        fits_childrenOnto (level + 1) label 0 children hChildren
          hLines
      rw [linesOnto_node]
      cases hLone : loneLeaf? children with
      | none =>
          exact List.forall_mem_cons.mpr ⟨hLabel.fits, hBelow⟩
      | some text =>
          have hText := fits_of_loneLeaf hChildren hLone
          exact
            List.forall_mem_cons.mpr
              ⟨hLabel.fits_before hText, hLines⟩

theorem fits_childrenOnto
    (level : Nat)
    (label : String)
    (place : Nat)
    (children : List Outline)
    (hRegular : AreRegular label place children)
    {lines : List Line}
    (hLines : ∀ line ∈ lines, FitsLine line.text) :
    ∀ line ∈ childrenOnto level children lines,
      FitsLine line.text := by
  cases children with
  | nil => exact hLines
  | cons child children =>
      rcases hRegular with ⟨hChild, -, hChildren⟩
      apply fits_linesOnto level child hChild
      exact
        fits_childrenOnto level label (place + 1) children
          hChildren hLines

end

end Lox.Outline

------------------------------------------------------------
-- Reconstruction
------------------------------------------------------------

namespace Lox.Outline

/- The first line, if there is one, stands further out. -/
def Closes (level : Nat) (lines : List Line) : Prop :=
  ∀ line ∈ lines.head?, line.level < level

theorem exists_linesOnto
    (level : Nat)
    (outline : Outline)
    (lines : List Line) :
    ∃ text rest,
      linesOnto level outline lines = ⟨level, text⟩ :: rest := by
  cases outline with
  | token t => exact ⟨_, _, rfl⟩
  | value text => exact ⟨_, _, rfl⟩
  | node label children =>
      rw [linesOnto_node]
      cases loneLeaf? children with
      | none => exact ⟨_, _, rfl⟩
      | some text => exact ⟨_, _, rfl⟩

/- A leaf is shown on one line, as its words. -/
theorem exists_leaf
    {outline : Outline}
    (hLeaf : outline.isLeaf = true) :
    ∃ text, outline.worded = .value text ∧
      ∀ level lines,
        linesOnto level outline lines = ⟨level, text⟩ :: lines := by
  cases outline with
  | token t => exact ⟨t.lexeme, rfl, fun _ _ => rfl⟩
  | value text => exact ⟨text, rfl, fun _ _ => rfl⟩
  | node label children => cases hLeaf

theorem Closes.further_in
    {level : Nat}
    {lines : List Line}
    (hCloses : Closes level lines) :
    Closes (level + 1) lines :=
  fun line hHead => Nat.lt_succ_of_lt (hCloses line hHead)

/- Children close what is further in than they are. -/
theorem Closes.childrenOnto
    {level : Nat}
    {lines : List Line}
    (hCloses : Closes level lines)
    (children : List Outline) :
    Closes (level + 1) (childrenOnto level children lines) := by
  cases children with
  | nil => exact hCloses.further_in
  | cons child children =>
      rcases exists_linesOnto level child
        (Outline.childrenOnto level children lines) with
        ⟨text, rest, hLines⟩
      intro line hHead
      rw [Outline.childrenOnto, hLines] at hHead
      cases hHead
      exact Nat.lt_succ_self level

/- A child is not taken for the end of the children. -/
theorem Closes.ne_childrenOnto
    {level : Nat}
    {lines : List Line}
    (hCloses : Closes level lines)
    (child : Outline)
    (children : List Outline)
    (lines' : List Line) :
    lines ≠
      Outline.childrenOnto level (child :: children) lines' := by
  intro hSame
  rcases exists_linesOnto level child
    (Outline.childrenOnto level children lines') with
    ⟨text, rest, hLines⟩
  rw [hSame, Outline.childrenOnto, hLines] at hCloses
  exact Nat.lt_irrefl level (hCloses _ rfl)

theorem IsLabel.ne_before
    {label label' text : String}
    (hLabel : IsLabel label) :
    label ≠ label' ++ "\t" ++ text := by
  intro hSame
  have hTab := hLabel.tab
  rw [hSame] at hTab
  simp at hTab

theorem IsLabel.before_injective
    {label label' text text' : String}
    (hLabel : IsLabel label)
    (hLabel' : IsLabel label')
    (hSame : label ++ "\t" ++ text = label' ++ "\t" ++ text') :
    label = label' ∧ text = text' := by
  have hChars := congrArg String.toList hSame
  simp only [String.toList_append, List.append_assoc] at hChars
  have hSplit := append_mark_injective hLabel.tab hLabel'.tab hChars
  exact
    ⟨String.toList_injective hSplit.1,
      String.toList_injective hSplit.2⟩

mutual

/-
  Two outlines, both leaves or both nodes, that are shown by
  the same lines have the same words, and the same lines follow
  them. The induction is on the first of them: a node fixes
  which of its children are leaves.
-/
theorem worded_of_linesOnto
    {level : Nat}
    (outline : Outline)
    {outline' : Outline}
    (hRegular : outline.IsRegular)
    (hRegular' : outline'.IsRegular)
    (hLeaf : outline.isLeaf = outline'.isLeaf)
    {lines lines' : List Line}
    (hCloses : Closes (level + 1) lines)
    (hCloses' : Closes (level + 1) lines')
    (hSame :
      linesOnto level outline lines =
        linesOnto level outline' lines') :
    outline.worded = outline'.worded ∧ lines = lines' := by
  cases hIs : outline.isLeaf with
  | true =>
      rcases exists_leaf hIs with ⟨text, hWords, hLines⟩
      rcases exists_leaf (hLeaf.symm.trans hIs) with
        ⟨text', hWords', hLines'⟩
      rw [hLines, hLines'] at hSame
      rcases List.cons.inj hSame with ⟨hLine, hRest⟩
      rw [hWords, hWords', (Line.mk.inj hLine).2]
      exact ⟨rfl, hRest⟩
  | false =>
      cases outline with
      | token t => cases hIs
      | value text => cases hIs
      | node label children =>
          cases outline' with
          | token t => cases hLeaf
          | value text => cases hLeaf
          | node label' children' =>
              rcases hRegular with ⟨hLabel, hChildren⟩
              rcases hRegular' with ⟨hLabel', hChildren'⟩
              rw [linesOnto_node, linesOnto_node] at hSame
              match hLone : loneLeaf? children,
                hLone' : loneLeaf? children' with
              | none, none =>
                  rw [hLone, hLone'] at hSame
                  rcases List.cons.inj hSame with ⟨hLine, hBelow⟩
                  cases (Line.mk.inj hLine).2
                  have hWords :=
                    worded_of_childrenOnto children hChildren
                      hChildren' hCloses hCloses' hBelow
                  rw [worded, worded, hWords.1]
                  exact ⟨rfl, hWords.2⟩
              | none, some text' =>
                  rw [hLone, hLone'] at hSame
                  have hLine := (List.cons.inj hSame).1
                  exact absurd (Line.mk.inj hLine).2 hLabel.ne_before
              | some text, none =>
                  rw [hLone, hLone'] at hSame
                  have hLine := (List.cons.inj hSame).1
                  exact
                    absurd (Line.mk.inj hLine).2.symm
                      hLabel'.ne_before
              | some text, some text' =>
                  rw [hLone, hLone'] at hSame
                  rcases List.cons.inj hSame with ⟨hLine, hRest⟩
                  have hParts :=
                    hLabel.before_injective hLabel'
                      (Line.mk.inj hLine).2
                  rw [worded, worded, hParts.1,
                    worded_of_loneLeaf hLone,
                    worded_of_loneLeaf hLone', hParts.2]
                  exact ⟨rfl, hRest⟩

theorem worded_of_childrenOnto
    {level : Nat}
    {label : String}
    {place : Nat}
    (children : List Outline)
    {children' : List Outline}
    (hRegular : AreRegular label place children)
    (hRegular' : AreRegular label place children')
    {lines lines' : List Line}
    (hCloses : Closes level lines)
    (hCloses' : Closes level lines')
    (hSame :
      childrenOnto level children lines =
        childrenOnto level children' lines') :
    wordedAll children = wordedAll children' ∧ lines = lines' := by
  cases children with
  | nil =>
      cases children' with
      | nil => exact ⟨rfl, hSame⟩
      | cons child' children' =>
          exact absurd hSame (hCloses.ne_childrenOnto _ _ _)
  | cons child children =>
      cases children' with
      | nil =>
          exact absurd hSame.symm (hCloses'.ne_childrenOnto _ _ _)
      | cons child' children' =>
          rcases hRegular with ⟨hChild, hLeaf, hChildren⟩
          rcases hRegular' with ⟨hChild', hLeaf', hChildren'⟩
          have hFirst :=
            worded_of_linesOnto child hChild hChild'
              (hLeaf.trans hLeaf'.symm)
              (hCloses.childrenOnto children)
              (hCloses'.childrenOnto children') hSame
          have hRest :=
            worded_of_childrenOnto children hChildren hChildren'
              hCloses hCloses' hFirst.2
          rw [wordedAll, wordedAll, hFirst.1, hRest.1]
          exact ⟨rfl, hRest.2⟩

end

/-
  Regular outlines with the same text have the same words in
  the same places.
-/
theorem worded_of_pretty
    {outline outline' : Outline}
    (hRegular : outline.IsRegular)
    (hRegular' : outline'.IsRegular)
    (hLeaf : outline.isLeaf = outline'.isLeaf)
    (hSame : outline.pretty "  " = outline'.pretty "  ") :
    outline.worded = outline'.worded := by
  have hNone : ∀ line ∈ ([] : List Line), FitsLine line.text := by
    simp
  have hLines :=
    lines_of_pretty (fits_linesOnto 0 outline hRegular hNone)
      (fits_linesOnto 0 outline' hRegular' hNone) hSame
  have hCloses : Closes 1 [] := by
    simp [Closes]
  exact
    (worded_of_linesOnto outline hRegular hRegular' hLeaf hCloses
      hCloses hLines).1

end Lox.Outline
