import Lox.Program.Outline

/-
  Indented text determines its lines.

  A line ends where the next one begins, and it begins with
  exactly the blanks of its margin, as long as no text of a
  line runs over its end or begins with a blank itself.

  Key definitions include:
    * `FitsLine`
    * `Line.chars`
    * `chars_injective`
    * `lines_of_pretty`
-/

------------------------------------------------------------
-- Characters Of Lines
------------------------------------------------------------

namespace Lox.Outline

/- A text that keeps to its line and to its margin. -/
structure FitsLine (text : String) : Prop where
  newline : '\n' ∉ text.toList
  margin : text.toList.head? ≠ some ' '

/- The characters of a line, two blanks for each level. -/
def Line.chars (line : Line) : List Char :=
  List.replicate (2 * line.level) ' ' ++
    (line.text.toList ++ ['\n'])

theorem toList_margin (text : String) (level : Nat) :
    (level.repeat (fun s => s ++ "  ") text).toList =
      text.toList ++ List.replicate (2 * level) ' ' := by
  induction level with
  | zero => simp [Nat.repeat]
  | succ level ih =>
      rw [Nat.repeat, String.toList_append, ih, Nat.mul_succ,
        ← List.replicate_append_replicate, List.append_assoc]
      rfl

theorem toList_writeLine (text : String) (line : Line) :
    (writeLine "  " text line).toList =
      text.toList ++ line.chars := by
  unfold writeLine Line.chars
  dsimp only
  rw [String.toList_append, String.toList_append, toList_margin,
    List.append_assoc, List.append_assoc]
  rfl

theorem toList_foldl_writeLine (text : String) (lines : List Line) :
    (lines.foldl (writeLine "  ") text).toList =
      text.toList ++ lines.flatMap Line.chars := by
  induction lines generalizing text with
  | nil => simp
  | cons line lines ih =>
      rw [List.foldl_cons, ih, toList_writeLine,
        List.flatMap_cons, List.append_assoc]

end Lox.Outline

------------------------------------------------------------
-- Lines Of Texts
------------------------------------------------------------

namespace Lox.Outline

/- What stands before the first mark, and what after it. -/
theorem append_mark_injective
    {mark : Char}
    {first first' rest rest' : List Char}
    (hFirst : mark ∉ first)
    (hFirst' : mark ∉ first')
    (hSame : first ++ mark :: rest = first' ++ mark :: rest') :
    first = first' ∧ rest = rest' := by
  induction first generalizing first' with
  | nil =>
      cases first' with
      | nil => exact ⟨rfl, (List.cons.inj hSame).2⟩
      | cons c others =>
          rw [← (List.cons.inj hSame).1] at hFirst'
          exact absurd List.mem_cons_self hFirst'
  | cons c others ih =>
      cases first' with
      | nil =>
          rw [(List.cons.inj hSame).1] at hFirst
          exact absurd List.mem_cons_self hFirst
      | cons c' others' =>
          rcases List.cons.inj hSame with ⟨rfl, hOthers⟩
          have hRest :=
            ih (List.not_mem_of_not_mem_cons hFirst)
              (List.not_mem_of_not_mem_cons hFirst') hOthers
          exact ⟨congrArg (c :: ·) hRest.1, hRest.2⟩

/- A margin is as long as the blanks in front of a text. -/
theorem margin_injective
    {count count' : Nat}
    {text text' : List Char}
    (hText : text.head? ≠ some ' ')
    (hText' : text'.head? ≠ some ' ')
    (hSame :
      List.replicate count ' ' ++ text =
        List.replicate count' ' ' ++ text') :
    count = count' ∧ text = text' := by
  induction count generalizing count' with
  | zero =>
      cases count' with
      | zero => exact ⟨rfl, hSame⟩
      | succ count' =>
          rw [List.replicate_zero, List.nil_append] at hSame
          rw [hSame] at hText
          exact absurd rfl hText
  | succ count ih =>
      cases count' with
      | zero =>
          rw [List.replicate_zero, List.nil_append] at hSame
          rw [← hSame] at hText'
          exact absurd rfl hText'
      | succ count' =>
          have hRest := ih (List.cons.inj hSame).2
          exact ⟨congrArg Nat.succ hRest.1, hRest.2⟩

theorem newline_not_mem_line
    {line : Line}
    (hFits : FitsLine line.text) :
    '\n' ∉ List.replicate (2 * line.level) ' ' ++
      line.text.toList := by
  have hText := hFits.newline
  simp [hText]

/- Lines that keep to themselves can be told apart. -/
theorem chars_injective
    {lines lines' : List Line}
    (hFits : ∀ line ∈ lines, FitsLine line.text)
    (hFits' : ∀ line ∈ lines', FitsLine line.text)
    (hSame :
      lines.flatMap Line.chars = lines'.flatMap Line.chars) :
    lines = lines' := by
  induction lines generalizing lines' with
  | nil =>
      cases lines' with
      | nil => rfl
      | cons line' rest' => simp [Line.chars] at hSame
  | cons line rest ih =>
      cases lines' with
      | nil => simp [Line.chars] at hSame
      | cons line' rest' =>
          rcases List.forall_mem_cons.mp hFits with
            ⟨hLine, hRest⟩
          rcases List.forall_mem_cons.mp hFits' with
            ⟨hLine', hRest'⟩
          simp only [List.flatMap_cons, Line.chars,
            List.append_assoc, List.singleton_append] at hSame
          rw [← List.append_assoc, ← List.append_assoc] at hSame
          have hSplit :=
            append_mark_injective (newline_not_mem_line hLine)
              (newline_not_mem_line hLine') hSame
          have hMargin :=
            margin_injective hLine.margin hLine'.margin hSplit.1
          have hLevel : line.level = line'.level := by omega
          have hText : line.text = line'.text :=
            String.toList_injective hMargin.2
          have hFirst : line = line' := by
            cases line
            cases line'
            simp_all
          rw [hFirst, ih hRest hRest' hSplit.2]

/- Outlines with the same text have the same lines. -/
theorem lines_of_pretty
    {outline outline' : Outline}
    (hFits :
      ∀ line ∈ linesOnto 0 outline [], FitsLine line.text)
    (hFits' :
      ∀ line ∈ linesOnto 0 outline' [], FitsLine line.text)
    (hSame : outline.pretty "  " = outline'.pretty "  ") :
    linesOnto 0 outline [] = linesOnto 0 outline' [] := by
  have hChars := congrArg String.toList hSame
  unfold pretty at hChars
  rw [toList_foldl_writeLine, toList_foldl_writeLine] at hChars
  exact
    chars_injective hFits hFits' (List.append_cancel_left hChars)

end Lox.Outline
