import Lox.Proofs.Console.Highlight
import Lox.Proofs.Coupling
import Lox.Proofs.Token.Steps

/-
  Colours against what the scanner makes of a line.

  The scanner marks each character of a text: as blank, as
  part of a comment, of a token or of an open string, or as
  unexpected. The colours of a line are found without it, one
  gap between two tokens at a time, by looking for slashes and
  for a quote. They tell the same where a gap holds one thing
  only, and otherwise they do not.

  Key definitions include:
    * `Mark`
    * `marksOf`
    * `stylesOf`
    * `AgreesWithScanner`
    * `IsUnmixed`
    * `highlight_agrees_iff`
-/

------------------------------------------------------------
-- Marks
------------------------------------------------------------

namespace Lox

/- What the scanner makes of a character. -/
inductive Mark where
  | blank
  | comment
  | token
  | unexpected
  | unterminated
deriving DecidableEq, Repr

namespace Scanner

/-
  What a step makes of its characters. What is skipped is a
  comment if it begins with two slashes.
-/
def Step.mark (step : Step) : Mark :=
  match step.found with
  | .blank =>
      if ['/', '/'].isPrefixOf step.text then .comment else .blank
  | .token _ => .token
  | .error ⟨.unexpected _, _⟩ => .unexpected
  | .error ⟨.unterminated, _⟩ => .unterminated

/- The mark of a step, once for each of its characters. -/
def Step.marks (step : Step) : List Mark :=
  List.replicate step.text.length step.mark

/- What some steps make of each character. -/
def marks (steps : List Step) : List Mark :=
  steps.flatMap Step.marks

@[simp] theorem marks_append (steps others : List Step) :
    marks (steps ++ others) = marks steps ++ marks others :=
  List.flatMap_append

theorem length_marks (steps : List Step) :
    (marks steps).length = (passed steps).length := by
  simp [marks, passed, List.length_flatMap, Step.marks]

theorem mem_marks_iff
    {steps : List Step}
    {mark : Mark} :
    mark ∈ marks steps ↔
      ∃ step ∈ steps, step.text ≠ [] ∧ step.mark = mark := by
  simp [marks, Step.marks, List.mem_replicate, eq_comm]

end Scanner

/- What the scanner makes of each character of a text. -/
def marksOf (text : String) : List Mark :=
  Scanner.marks (Scanner.ofText text).steps

end Lox

------------------------------------------------------------
-- Styles
------------------------------------------------------------

namespace Lox.Console

/- The style of each character of a span. -/
def Span.styles (span : Span) : List String :=
  List.replicate span.text.length span.style

/- The style of each character that some spans show. -/
def stylesOf (spans : List Span) : List String :=
  spans.flatMap Span.styles

@[simp] theorem stylesOf_nil : stylesOf [] = [] := rfl

@[simp] theorem stylesOf_cons (span : Span) (spans : List Span) :
    stylesOf (span :: spans) = span.styles ++ stylesOf spans := rfl

@[simp] theorem stylesOf_append (spans others : List Span) :
    stylesOf (spans ++ others) = stylesOf spans ++ stylesOf others :=
  List.flatMap_append

theorem length_stylesOf (spans : List Span) :
    (stylesOf spans).length = (textOf spans).length := by
  simp [stylesOf, textOf, List.length_flatMap, Span.styles]

/-
  A character is shown as part of a comment exactly if the
  scanner skips it as such, and as an error or a string where
  the scanner reports it as unexpected or as part of a string
  that is not closed.
-/
def AgreesWithScanner (text : String) : Prop :=
  ∀ i : Nat,
    ((stylesOf (highlightLine text))[i]? =
        some Group.comment.style ↔
      (marksOf text)[i]? = some .comment) ∧
    ((marksOf text)[i]? = some .unexpected →
      (stylesOf (highlightLine text))[i]? =
        some Group.error.style) ∧
    ((marksOf text)[i]? = some .unterminated →
      (stylesOf (highlightLine text))[i]? =
        some Group.string.style)

end Lox.Console

------------------------------------------------------------
-- Agreement
------------------------------------------------------------

namespace Lox

open Console

/- A style tells of a character what its mark does. -/
structure Mark.Agrees (mark : Mark) (style : String) : Prop where
  comment : style = Group.comment.style ↔ mark = .comment
  unexpected : mark = .unexpected → style = Group.error.style
  unterminated :
    mark = .unterminated → style = Group.string.style

namespace Mark

variable {mark : Mark}

theorem agrees_plain :
    mark.Agrees "" ↔ mark = .blank ∨ mark = .token := by
  constructor
  · rintro ⟨hComment, hUnexpected, hUnterminated⟩
    cases mark <;>
      simp_all [Group.style]
  · rintro (rfl | rfl) <;> constructor <;> simp [Group.style]

theorem agrees_comment :
    mark.Agrees Group.comment.style ↔ mark = .comment := by
  constructor
  · exact fun hAgrees => hAgrees.comment.mp rfl
  · rintro rfl
    constructor <;> simp

theorem agrees_error :
    mark.Agrees Group.error.style ↔
      mark ≠ .comment ∧ mark ≠ .unterminated := by
  constructor
  · rintro ⟨hComment, hUnexpected, hUnterminated⟩
    cases mark <;> simp_all [Group.style]
  · rintro ⟨hComment, hUnterminated⟩
    constructor <;> simp_all [Group.style]

theorem agrees_string :
    mark.Agrees Group.string.style ↔
      mark ≠ .comment ∧ mark ≠ .unexpected := by
  constructor
  · rintro ⟨hComment, hUnexpected, hUnterminated⟩
    cases mark <;> simp_all [Group.style]
  · rintro ⟨hComment, hUnexpected⟩
    constructor <;> simp_all [Group.style]

/- No token is shown as a comment. -/
theorem agrees_token
    (previous : Option Token)
    (t : Token)
    (next : Option Token) :
    Mark.token.Agrees (groupOf previous t next).style := by
  have hStyle :
      (groupOf previous t next).style ≠ Group.comment.style := by
    unfold groupOf
    split <;> try split
    all_goals simp [Group.style]
  constructor <;> simp [hStyle]

end Mark

section Lists

variable {α β : Type} {R : α → β → Prop}

theorem forall₂_append_iff
    {first first' : List α}
    {second second' : List β}
    (hLength : first.length = second.length) :
    List.Forall₂ R (first ++ first') (second ++ second') ↔
      List.Forall₂ R first second ∧
        List.Forall₂ R first' second' := by
  induction first generalizing second with
  | nil =>
      rw [List.eq_nil_of_length_eq_zero hLength.symm]
      simp
  | cons a first ih =>
      cases second with
      | nil => cases hLength
      | cons b second =>
          simp [ih (Nat.succ.inj hLength), and_assoc]

theorem forall₂_replicate_iff
    {as : List α}
    {n : Nat}
    (hLength : as.length = n)
    (b : β) :
    List.Forall₂ R as (List.replicate n b) ↔ ∀ a ∈ as, R a b := by
  subst hLength
  induction as with
  | nil => simp
  | cons a as ih => simp [List.replicate_succ, ih]

/- What holds of the items of one list, whatever the others. -/
theorem forall₂_of_left
    {as : List α}
    {bs : List β}
    (hLength : as.length = bs.length)
    (hLeft : ∀ a ∈ as, ∀ b, R a b) :
    List.Forall₂ R as bs :=
  List.forall₂_iff_get.mpr
    ⟨hLength, fun _ _ _ => hLeft _ (List.get_mem _ _) _⟩

end Lists

end Lox

------------------------------------------------------------
-- Steps Within A Gap
------------------------------------------------------------

namespace Lox.Scanner

/-
  A step within a gap that goes on after it: over a blank
  character of the line, or over one that begins nothing.
-/
inductive Step.IsSmall : Step → Prop where
  | blank
      {c : Char}
      (hSpace : isSpace c = true) :
      IsSmall ⟨[c], .blank⟩
  | unexpected
      {c : Char} {line : Int}
      (hSlash : c ≠ '/')
      (hQuote : c ≠ '"') :
      IsSmall ⟨[c], .error ⟨.unexpected (some c), line⟩⟩

/- The step over a comment. -/
def commentStep (body : List Char) : Step :=
  ⟨'/' :: '/' :: body, .blank⟩

/- The step over a string that is not closed. -/
def openStep (body : List Char) (line : Int) : Step :=
  ⟨'"' :: body, .error ⟨.unterminated, line⟩⟩

theorem mark_commentStep (body : List Char) :
    (commentStep body).mark = .comment := by
  simp [commentStep, Step.mark]

theorem mark_openStep (body : List Char) (line : Int) :
    (openStep body line).mark = .unterminated := rfl

namespace Step.IsSmall

variable {step : Step}

theorem mark_blank
    {c : Char}
    (hSpace : isSpace c = true) :
    Step.mark ⟨[c], .blank⟩ = .blank := by
  have hSlash : c ≠ '/' := by
    rintro rfl
    cases hSpace
  simp [Step.mark, List.isPrefixOf]

theorem mark_cases (hSmall : step.IsSmall) :
    step.mark = .blank ∨ step.mark = .unexpected := by
  cases hSmall with
  | blank hSpace => exact .inl (mark_blank hSpace)
  | unexpected _ _ => exact .inr rfl

theorem text_ne_nil (hSmall : step.IsSmall) : step.text ≠ [] := by
  cases hSmall <;> simp

/- There is no slash and no quote in a small step. -/
theorem not_mem
    (hSmall : step.IsSmall) :
    '/' ∉ step.text ∧ '"' ∉ step.text := by
  cases hSmall with
  | @blank c hSpace =>
      rcases (isSpace_iff c).mp hSpace with rfl | rfl | rfl <;>
        decide
  | unexpected hSlash hQuote =>
      simp [Ne.symm hSlash, Ne.symm hQuote]

/- What is not white space in a small step is unexpected. -/
theorem mark_of_not_blank
    (hSmall : step.IsSmall)
    (hBlank : Text.isAllBlank step.text = false) :
    step.mark = .unexpected := by
  cases hSmall with
  | @blank c hSpace =>
      rcases (isSpace_iff c).mp hSpace with rfl | rfl | rfl <;>
        exact absurd hBlank (by decide)
  | unexpected _ _ => rfl

end Step.IsSmall

variable {small : List Step}

/- All steps of a list are small. -/
def AllSmall (steps : List Step) : Prop :=
  ∀ step ∈ steps, step.IsSmall

theorem AllSmall.not_mem
    (hSmall : AllSmall small) :
    '/' ∉ passed small ∧ '"' ∉ passed small := by
  unfold passed
  simp only [List.mem_flatMap]
  constructor
  · rintro ⟨step, hStep, hMem⟩
    exact (hSmall step hStep).not_mem.1 hMem
  · rintro ⟨step, hStep, hMem⟩
    exact (hSmall step hStep).not_mem.2 hMem

theorem AllSmall.mark_cases
    (hSmall : AllSmall small)
    {mark : Mark}
    (hMark : mark ∈ marks small) :
    mark = .blank ∨ mark = .unexpected := by
  rcases mem_marks_iff.mp hMark with ⟨step, hStep, _, rfl⟩
  exact (hSmall step hStep).mark_cases

/- Some character of the steps is reported as unexpected. -/
def HasStray (steps : List Step) : Prop :=
  ∃ step ∈ steps, step.mark = .unexpected

theorem AllSmall.hasStray_iff (hSmall : AllSmall small) :
    HasStray small ↔ .unexpected ∈ marks small := by
  rw [mem_marks_iff]
  constructor
  · rintro ⟨step, hStep, hMark⟩
    exact ⟨step, hStep, (hSmall step hStep).text_ne_nil, hMark⟩
  · rintro ⟨step, hStep, _, hMark⟩
    exact ⟨step, hStep, hMark⟩

/- Small steps with nothing unexpected are all blank. -/
theorem AllSmall.blank_iff (hSmall : AllSmall small) :
    (∀ mark ∈ marks small, mark = .blank ∨ mark = .token) ↔
      ¬ HasStray small := by
  rw [hSmall.hasStray_iff]
  constructor
  · intro hBlank hStray
    rcases hBlank _ hStray with hMark | hMark <;> cases hMark
  · intro hNone mark hMark
    rcases hSmall.mark_cases hMark with rfl | rfl
    · exact .inl rfl
    · exact absurd hMark hNone

theorem AllSmall.append
    (hSmall : AllSmall small)
    {step : Step}
    (hStep : step.IsSmall) :
    AllSmall (small ++ [step]) := by
  intro other hMem
  rcases List.mem_append.mp hMem with hMem | hLast
  · exact hSmall other hMem
  · rw [List.mem_singleton.mp hLast]
    exact hStep

end Lox.Scanner

------------------------------------------------------------
-- Gaps That Hold One Thing
------------------------------------------------------------

namespace Lox

open Scanner Console

/-
  A gap that holds one thing: where characters in it are
  reported as unexpected, one of them is no white space, and
  there is no comment and no open string with them; and no
  open string has two slashes in it.
-/
structure IsUnmixed (gap : List Step) : Prop where
  visible :
    HasStray gap →
      ∃ step ∈ gap,
        step.mark = .unexpected ∧
          Text.isAllBlank step.text = false
  alone :
    HasStray gap →
      ∀ step ∈ gap,
        step.mark ≠ .comment ∧ step.mark ≠ .unterminated
  slashes :
    ∀ step ∈ gap,
      step.mark = .unterminated → ¬ ['/', '/'] <:+: step.text

/- The gaps before, between and after the tokens of a text. -/
def gapsOf (text : String) : List (List Step) :=
  (Scanner.ofText text).steps.splitOnP (·.mark = .token)

/- A gap that is shown tells of its characters what their marks do. -/
def GapAgrees (gap : List Step) : Prop :=
  List.Forall₂ Mark.Agrees (marks gap)
    (stylesOf (shownGap (passed gap)))

variable {small : List Step}

theorem length_marks_shownGap (gap : List Step) :
    (marks gap).length =
      (stylesOf (shownGap (passed gap))).length := by
  rw [length_marks, length_stylesOf, textOf_shownGap]

/- A gap in one style. -/
theorem gapAgrees_single
    {gap : List Step}
    {style : String}
    (hShown : stylesOf (shownGap (passed gap)) =
      List.replicate (passed gap).length style) :
    GapAgrees gap ↔ ∀ mark ∈ marks gap, mark.Agrees style := by
  unfold GapAgrees
  rw [hShown]
  exact forall₂_replicate_iff (length_marks gap) style

theorem isUnmixed_small (hSmall : AllSmall small) :
    IsUnmixed small ↔
      (HasStray small →
        ∃ step ∈ small,
          step.mark = .unexpected ∧
            Text.isAllBlank step.text = false) := by
  have hOther :
      ∀ step ∈ small,
        step.mark ≠ .comment ∧ step.mark ≠ .unterminated := by
    intro step hStep
    rcases (hSmall step hStep).mark_cases with hMark | hMark <;>
      simp [hMark]
  constructor
  · exact IsUnmixed.visible
  · intro hVisible
    refine ⟨hVisible, fun _ => hOther, ?_⟩
    intro step hStep hMark
    exact absurd hMark (hOther step hStep).2

/- After a last step that is not small, nothing may be reported. -/
theorem isUnmixed_last
    (hSmall : AllSmall small)
    {last : Step}
    (hLast : last.mark = .comment ∨ last.mark = .unterminated) :
    IsUnmixed (small ++ [last]) ↔
      ¬ HasStray small ∧
        (last.mark = .unterminated →
          ¬ ['/', '/'] <:+: last.text) := by
  have hStray : HasStray (small ++ [last]) ↔ HasStray small := by
    have hNot : last.mark ≠ .unexpected := by
      rcases hLast with hMark | hMark <;> simp [hMark]
    simp [HasStray, or_and_right, exists_or, hNot]
  constructor
  · intro hUnmixed
    refine ⟨?_, hUnmixed.slashes last (by simp)⟩
    intro hHas
    have hAlone := hUnmixed.alone (hStray.mpr hHas) last (by simp)
    rcases hLast with hMark | hMark
    · exact hAlone.1 hMark
    · exact hAlone.2 hMark
  · rintro ⟨hNone, hSlashes⟩
    refine
      ⟨fun hHas => absurd (hStray.mp hHas) hNone,
        fun hHas => absurd (hStray.mp hHas) hNone, ?_⟩
    intro step hStep hMark
    rcases List.mem_append.mp hStep with hStep | hStep
    · rcases (hSmall step hStep).mark_cases with hOther | hOther <;>
        rw [hOther] at hMark <;> cases hMark
    · rw [List.mem_singleton.mp hStep] at hMark ⊢
      exact hSlashes hMark

end Lox

------------------------------------------------------------
-- Styles Of A Gap
------------------------------------------------------------

namespace Lox.Console

/- Two slashes are found after a text that has none. -/
theorem beforeSlashes?_append
    {before : List Char}
    (hNone : '/' ∉ before)
    (text : List Char) :
    beforeSlashes? (before ++ text) =
      (beforeSlashes? text).map (before ++ ·) := by
  induction before with
  | nil => simp
  | cons c before ih =>
      rcases List.ne_and_not_mem_of_not_mem_cons hNone with
        ⟨hChar, hBefore⟩
      rw [List.cons_append, beforeSlashes?,
        if_neg (by simp [Ne.symm hChar]), ih hBefore,
        Option.map_map]
      rfl

theorem beforeSlashes?_eq_none_iff {text : List Char} :
    beforeSlashes? text = none ↔ ¬ ['/', '/'] <:+: text := by
  induction text with
  | nil => simp [beforeSlashes?]
  | cons c text ih =>
      have hHead :
          ['/', '/'] <+: c :: text ↔
            c = '/' ∧ text.head? = some '/' := by
        rw [List.cons_prefix_cons, eq_comm]
        cases text <;> simp [eq_comm]
      rw [List.infix_cons_iff, hHead, not_or, ← ih,
        beforeSlashes?]
      split <;> simp_all

/- A gap with slashes is plain up to them and a comment after. -/
theorem stylesOf_slashes
    {gap before : List Char}
    (hSlashes : beforeSlashes? gap = some before) :
    stylesOf (shownGap gap) =
      List.replicate before.length "" ++
        List.replicate (gap.length - before.length)
          Group.comment.style := by
  have hSome : gap ≠ [] := by
    rintro rfl
    cases hSlashes
  unfold shownGap gapSpans
  simp only [List.isEmpty_iff, hSome, if_false, hSlashes]
  cases before <;> simp [Span.styles, Span.plain]

/- A gap without slashes has one style. -/
theorem stylesOf_noSlashes
    {gap : List Char}
    (hNone : beforeSlashes? gap = none) :
    stylesOf (shownGap gap) =
      List.replicate gap.length
        (if Text.isAllBlank gap then ""
        else if (Text.dropBlanks gap).head? = some '"' then
          Group.string.style
        else Group.error.style) := by
  unfold shownGap gapSpans
  cases gap with
  | nil => rfl
  | cons c gap =>
      simp only [hNone, List.isEmpty_cons]
      split
      · simp_all
      · split <;> (try split) <;> simp [Span.styles, Span.plain]

end Lox.Console

------------------------------------------------------------
-- Gaps That Agree
------------------------------------------------------------

namespace Lox

open Scanner Console

variable {small : List Step}

/- What is left after white space begins with something else. -/
theorem Text.dropBlanks_head_mem
    {text : List Char}
    {c : Char}
    (hHead : (Text.dropBlanks text).head? = some c) :
    c ∈ text :=
  (List.dropWhile_sublist _).subset (List.mem_of_head? hHead)

theorem isAllBlank_passed
    {steps : List Step}
    (hBlank : Text.isAllBlank (passed steps) = true)
    {step : Step}
    (hStep : step ∈ steps) :
    Text.isAllBlank step.text = true := by
  simp only [Text.isAllBlank, List.all_eq_true, passed,
    List.mem_flatMap] at hBlank ⊢
  intro c hMem
  exact hBlank c ⟨step, hStep, hMem⟩

/- What is no white space in small steps is unexpected. -/
theorem exists_visible
    (hSmall : AllSmall small)
    (hBlank : Text.isAllBlank (passed small) = false) :
    ∃ step ∈ small,
      step.mark = .unexpected ∧
        Text.isAllBlank step.text = false := by
  simp only [Text.isAllBlank, List.all_eq_false, passed,
    List.mem_flatMap] at hBlank
  rcases hBlank with ⟨c, ⟨step, hStep, hMem⟩, hChar⟩
  have hText : Text.isAllBlank step.text = false := by
    simp only [Text.isAllBlank, List.all_eq_false]
    exact ⟨c, hMem, hChar⟩
  exact
    ⟨step, hStep, (hSmall step hStep).mark_of_not_blank hText,
      hText⟩

/- A gap between two tokens, of small steps only. -/
theorem gapAgrees_small (hSmall : AllSmall small) :
    GapAgrees small ↔ IsUnmixed small := by
  have hSlashes : beforeSlashes? (passed small) = none := by
    have hAppend := beforeSlashes?_append hSmall.not_mem.1 []
    simpa [beforeSlashes?] using hAppend
  have hShown := stylesOf_noSlashes hSlashes
  rw [isUnmixed_small hSmall]
  cases hBlank : Text.isAllBlank (passed small) with
  | true =>
      rw [hBlank, if_pos rfl] at hShown
      rw [gapAgrees_single hShown]
      simp only [Mark.agrees_plain, hSmall.blank_iff]
      constructor
      · exact fun hNone hStray => absurd hStray hNone
      · intro hVisible hStray
        rcases hVisible hStray with ⟨step, hStep, _, hText⟩
        rw [isAllBlank_passed hBlank hStep] at hText
        cases hText
  | false =>
      have hQuote :
          (Text.dropBlanks (passed small)).head? ≠ some '"' :=
        fun hHead =>
          hSmall.not_mem.2 (Text.dropBlanks_head_mem hHead)
      rw [hBlank, if_neg (by simp), if_neg hQuote] at hShown
      rw [gapAgrees_single hShown]
      simp only [Mark.agrees_error]
      constructor
      · exact fun _ _ => exists_visible hSmall hBlank
      · intro _ mark hMark
        rcases hSmall.mark_cases hMark with rfl | rfl <;> simp

/- A gap that ends in a comment is plain before it. -/
theorem stylesOf_commentGap
    (hSmall : AllSmall small)
    (body : List Char) :
    stylesOf (shownGap (passed (small ++ [commentStep body]))) =
      List.replicate (passed small).length "" ++
        List.replicate (body.length + 2) Group.comment.style := by
  have hText :
      passed (small ++ [commentStep body]) =
        passed small ++ '/' :: '/' :: body := by
    simp [passed, commentStep]
  have hSlashes :
      beforeSlashes? (passed small ++ '/' :: '/' :: body) =
        some (passed small) := by
    rw [beforeSlashes?_append hSmall.not_mem.1]
    simp [beforeSlashes?]
  rw [hText, stylesOf_slashes hSlashes]
  simp

/- A gap that ends in a comment. -/
theorem gapAgrees_comment
    (hSmall : AllSmall small)
    (body : List Char) :
    GapAgrees (small ++ [commentStep body]) ↔
      IsUnmixed (small ++ [commentStep body]) := by
  have hMarks :
      marks [commentStep body] =
        List.replicate (body.length + 2) .comment := by
    simp [marks, Step.marks, Step.mark, commentStep]
  rw [isUnmixed_last hSmall (.inl (mark_commentStep body)),
    mark_commentStep]
  unfold GapAgrees
  rw [stylesOf_commentGap hSmall, marks_append, hMarks,
    forall₂_append_iff (by simp [length_marks]),
    forall₂_replicate_iff (length_marks small),
    forall₂_replicate_iff (by simp)]
  simp [Mark.agrees_plain, Mark.agrees_comment, hSmall.blank_iff]

/- White space before a quote is dropped up to the quote. -/
theorem head_dropBlanks_quote
    {before : List Char}
    (hQuote : '"' ∉ before)
    (body : List Char) :
    (Text.dropBlanks (before ++ '"' :: body)).head? = some '"' ↔
      Text.isAllBlank before = true := by
  have hNotBlank : Text.isBlank '"' = false := by decide
  induction before with
  | nil => simp [Text.dropBlanks, Text.isAllBlank, hNotBlank]
  | cons c before ih =>
      rcases List.ne_and_not_mem_of_not_mem_cons hQuote with
        ⟨hChar, hBefore⟩
      have hRest := ih hBefore
      unfold Text.dropBlanks Text.isAllBlank at hRest ⊢
      cases hBlank : Text.isBlank c with
      | true => simpa [hBlank] using hRest
      | false => simp [hBlank, Ne.symm hChar]

theorem passed_open
    (small : List Step)
    (body : List Char)
    (line : Int) :
    passed (small ++ [openStep body line]) =
      passed small ++ '"' :: body := by
  simp [passed, openStep]

theorem marks_open
    (small : List Step)
    (body : List Char)
    (line : Int) :
    marks (small ++ [openStep body line]) =
      marks small ++
        .unterminated ::
          List.replicate body.length .unterminated := by
  simp [marks, Step.marks, Step.mark, openStep,
    List.replicate_succ]

/-
  The quote of an open string with two slashes in it is shown
  without a style.
-/
theorem not_gapAgrees_of_slashes
    (hSmall : AllSmall small)
    {body inner : List Char}
    (hSlashes : beforeSlashes? body = some inner)
    (line : Int) :
    ¬ GapAgrees (small ++ [openStep body line]) := by
  have hFound :
      beforeSlashes? (passed small ++ '"' :: body) =
        some (passed small ++ '"' :: inner) := by
    rw [beforeSlashes?_append hSmall.not_mem.1, beforeSlashes?,
      if_neg (by simp), hSlashes]
    rfl
  have hPlain :
      List.replicate (passed small ++ '"' :: inner).length "" =
        List.replicate (passed small).length "" ++
          "" :: List.replicate inner.length "" := by
    rw [← List.replicate_succ, List.replicate_append_replicate,
      List.length_append, List.length_cons]
  unfold GapAgrees
  rw [passed_open, stylesOf_slashes hFound, marks_open, hPlain,
    List.append_assoc, forall₂_append_iff (by simp [length_marks]),
    List.cons_append, List.forall₂_cons, Mark.agrees_plain]
  simp

/- Without slashes an open string has the style of its gap. -/
theorem gapAgrees_of_noSlashes
    (hSmall : AllSmall small)
    {body : List Char}
    (hNone : beforeSlashes? body = none)
    (line : Int) :
    GapAgrees (small ++ [openStep body line]) ↔
      ¬ HasStray small := by
  have hNotFound :
      beforeSlashes? (passed small ++ '"' :: body) = none := by
    rw [beforeSlashes?_append hSmall.not_mem.1, beforeSlashes?,
      if_neg (by simp), hNone]
    rfl
  have hVisible :
      Text.isAllBlank (passed small ++ '"' :: body) = false := by
    simp [Text.isAllBlank, show Text.isBlank '"' = false by decide]
  have hShown := stylesOf_noSlashes hNotFound
  rw [if_neg (by simp [hVisible])] at hShown
  simp only [head_dropBlanks_quote hSmall.not_mem.2] at hShown
  rw [← passed_open small body line] at hShown
  rw [gapAgrees_single hShown, marks_open, ← List.replicate_succ]
  simp only [hSmall.hasStray_iff, List.mem_append,
    List.mem_replicate]
  cases hBlank : Text.isAllBlank (passed small) with
  | true =>
      simp only [if_true, Mark.agrees_string]
      constructor
      · exact fun hAll hStray => (hAll _ (.inl hStray)).2 rfl
      · rintro hNone mark (hMark | ⟨_, rfl⟩)
        · rcases hSmall.mark_cases hMark with rfl | rfl
          · simp
          · exact absurd hMark hNone
        · simp
  | false =>
      simp only [Bool.false_eq_true, if_false, Mark.agrees_error]
      constructor
      · intro hAll
        have hOpen := hAll .unterminated (.inr ⟨by simp, rfl⟩)
        exact absurd rfl hOpen.2
      · intro hNone
        rcases exists_visible hSmall hBlank with
          ⟨step, hStep, hMark, _⟩
        exact
          absurd (hSmall.hasStray_iff.mp ⟨step, hStep, hMark⟩)
            hNone

/- A gap that ends in a string that is not closed. -/
theorem gapAgrees_open
    (hSmall : AllSmall small)
    (body : List Char)
    (line : Int) :
    GapAgrees (small ++ [openStep body line]) ↔
      IsUnmixed (small ++ [openStep body line]) := by
  have hInside :
      ['/', '/'] <:+: (openStep body line).text ↔
        beforeSlashes? body ≠ none := by
    have hText :
        beforeSlashes? (openStep body line).text =
          (beforeSlashes? body).map ('"' :: ·) := by
      unfold openStep
      rw [beforeSlashes?, if_neg (by simp)]
    rw [← not_iff_not, ← beforeSlashes?_eq_none_iff, hText,
      Option.map_eq_none_iff, not_not]
  rw [isUnmixed_last hSmall (.inr (mark_openStep body line)),
    mark_openStep, hInside]
  cases hSlashes : beforeSlashes? body with
  | some inner =>
      have hNot := not_gapAgrees_of_slashes hSmall hSlashes line
      exact iff_of_false hNot fun hBoth => hBoth.2 rfl (by simp)
  | none =>
      rw [gapAgrees_of_noSlashes hSmall hSlashes]
      simp

end Lox

------------------------------------------------------------
-- Lines That Agree
------------------------------------------------------------

namespace Lox

open Scanner Console

/- The steps between two tokens of a line, or around them. -/
inductive IsGap : List Step → Prop where
  | small
      {steps : List Step}
      (hSmall : AllSmall steps) :
      IsGap steps
  | comment
      {small : List Step}
      (hSmall : AllSmall small)
      (body : List Char) :
      IsGap (small ++ [commentStep body])
  | unterminated
      {small : List Step}
      (hSmall : AllSmall small)
      (body : List Char)
      (line : Int) :
      IsGap (small ++ [openStep body line])

theorem IsGap.agrees_iff
    {gap : List Step}
    (hGap : IsGap gap) :
    GapAgrees gap ↔ IsUnmixed gap := by
  cases hGap with
  | small hSmall => exact gapAgrees_small hSmall
  | comment hSmall body => exact gapAgrees_comment hSmall body
  | unterminated hSmall body line =>
      exact gapAgrees_open hSmall body line

/- Within a gap no step is over a token. -/
theorem IsGap.mark_ne_token
    {gap : List Step}
    (hGap : IsGap gap) :
    ∀ step ∈ gap, step.mark ≠ .token := by
  have hSmaller :
      ∀ {small : List Step}, AllSmall small →
        ∀ step ∈ small, step.mark ≠ .token := by
    intro small hSmall step hStep
    rcases (hSmall step hStep).mark_cases with hMark | hMark <;>
      simp [hMark]
  intro step hStep
  cases hGap with
  | small hSmall => exact hSmaller hSmall step hStep
  | comment hSmall body =>
      rcases List.mem_append.mp hStep with hStep | hLast
      · exact hSmaller hSmall step hStep
      · rw [List.mem_singleton.mp hLast, mark_commentStep]
        simp
  | unterminated hSmall body line =>
      rcases List.mem_append.mp hStep with hStep | hLast
      · exact hSmaller hSmall step hStep
      · rw [List.mem_singleton.mp hLast, mark_openStep]
        simp

/- The last gap of a line is all that is left to show. -/
theorem splitOnP_of_isGap
    {gap : List Step}
    (hGap : IsGap gap) :
    gap.splitOnP (·.mark = .token) = [gap] := by
  apply List.splitOnP_eq_singleton
  intro step hStep
  simpa using hGap.mark_ne_token step hStep

/- There are no tokens where no text is left. -/
theorem Scans.tokens_eq_nil
    {before rest : List Char}
    {tokens : List Token}
    {errors : List LexError}
    (hScans : Scans before rest tokens errors)
    (hRest : rest = []) :
    tokens = [] := by
  induction hScans with
  | done => rfl
  | blank _ _ ih => exact ih (List.append_eq_nil_iff.mp hRest).2
  | token hLongest _ _ =>
      exact
        absurd (List.append_eq_nil_iff.mp hRest).1
          hLongest.spelled.ne_nil
  | unexpected _ _ _ _ => cases hRest
  | unterminated _ => rfl

/- A slash alone is a token. -/
theorem NoPiece.ne_slash
    {c : Char}
    {rest : List Char}
    (hNone : NoPiece (c :: rest)) :
    c ≠ '/' := by
  rintro rfl
  have hOperator : (['/'], Kind.slash) ∈ Kind.operators := by
    decide
  exact hNone _ _ (.operator hOperator) ⟨rest, rfl⟩

section Lines

variable {R : Mark → String → Prop} {P : List Step → Prop}

/- A token between the gap before it and what is after it. -/
theorem related_token_iff
    {small steps : List Step}
    {step : Step}
    {style : String}
    {spans : List Span}
    (hSmall : AllSmall small)
    (hMark : step.mark = .token)
    (hToken : R .token style)
    (hGap :
      List.Forall₂ R (marks small)
          (stylesOf (shownGap (passed small))) ↔
        P small)
    (hRest :
      List.Forall₂ R (marks steps) (stylesOf spans) ↔
        ∀ gap ∈ steps.splitOnP (·.mark = .token), P gap) :
    List.Forall₂ R (marks (small ++ step :: steps))
        (stylesOf
          (shownGap (passed small) ++ ⟨style, step.text⟩ :: spans)) ↔
      ∀ gap ∈
        (small ++ step :: steps).splitOnP (·.mark = .token),
        P gap := by
  have hNoToken :
      ∀ other ∈ small, decide (other.mark = .token) = false := by
    intro other hOther
    simpa using (IsGap.small hSmall).mark_ne_token other hOther
  have hMarks :
      marks (step :: steps) =
        List.replicate step.text.length .token ++ marks steps := by
    rw [← hMark]
    rfl
  have hSpelling :
      List.Forall₂ R (List.replicate step.text.length .token)
        (Span.styles ⟨style, step.text⟩) :=
    (forall₂_replicate_iff (by simp) _).mpr fun mark hMem =>
      (List.mem_replicate.mp hMem).2 ▸ hToken
  rw [List.splitOnP_append_cons_of_forall_mem hNoToken _
      (by simp [hMark]),
    List.forall_mem_cons, ← hGap, ← hRest, marks_append, hMarks,
    stylesOf_append, stylesOf_cons,
    forall₂_append_iff (length_marks_shownGap small),
    forall₂_append_iff (by simp [Span.styles]),
    and_iff_right hSpelling]

/-
  What holds of the characters of all tokens, and of those of a
  gap in one case and no other, holds of a line if that is the
  case of all its gaps. By induction on the steps of the
  reference scanner, with the small steps since the last token
  kept aside.
-/
theorem Scans.related_iff
    (hToken :
      ∀ previous t next, R .token (groupOf previous t next).style)
    (hGap :
      ∀ gap, IsGap gap →
        (List.Forall₂ R (marks gap)
          (stylesOf (shownGap (passed gap))) ↔ P gap))
    {before rest : List Char}
    {tokens : List Token}
    {errors : List LexError}
    (hScans : Scans before rest tokens errors)
    {shown : List Char}
    {small : List Step}
    (hBefore : before = shown ++ passed small)
    (hSmall : AllSmall small)
    (hLine : '\n' ∉ before ++ rest)
    (previous : Option Token) :
    List.Forall₂ R (marks (small ++ (after before rest).steps))
        (stylesOf
          (spansFrom (groupsFrom previous tokens) shown.length
            (passed small ++ rest))) ↔
      ∀ gap ∈
        (small ++ (after before rest).steps).splitOnP
          (·.mark = .token), P gap := by
  have hLast :
      ∀ {steps : List Step} {text : List Char}, IsGap steps →
        passed steps = text →
        (List.Forall₂ R (marks steps) (stylesOf (shownGap text)) ↔
          ∀ gap ∈ steps.splitOnP (·.mark = .token), P gap) := by
    rintro steps _ hSteps rfl
    rw [splitOnP_of_isGap hSteps, hGap steps hSteps]
    simp
  induction hScans generalizing shown small previous with
  | done =>
      rw [steps_of_rest rfl, List.append_nil, List.append_nil]
      exact hLast (.small hSmall) rfl
  | @blank before spelling rest tokens errors hLongest hRest ih =>
      rw [hLongest.steps]
      generalize hPiece : Piece.blank = piece at hLongest
      have hSpelled := hLongest.spelled
      cases hSpelled with
      | @space c hSpace =>
          have hStep : Step.IsSmall ⟨[c], found before [c] .blank⟩ :=
            .blank ((isSpace_iff c).mpr hSpace)
          have hPassed :
              before ++ [c] =
                shown ++
                  passed
                    (small ++ [⟨[c], found before [c] .blank⟩]) := by
            simp [hBefore, passed]
          rw [← List.append_assoc] at hLine
          have hMore :=
            ih hPassed (hSmall.append hStep) hLine previous
          simpa [passed] using hMore
      | newline => exact absurd (by simp) hLine
      | @comment body hBody =>
          have hEnd : rest = [] := by
            rcases hLongest.comment_stop hBody with hEnd | hHead
            · exact hEnd
            · have hMem := List.mem_of_head? hHead
              exact absurd (by simp [hMem]) hLine
          subst hEnd
          rw [hRest.tokens_eq_nil rfl, steps_of_rest rfl,
            List.append_nil]
          exact hLast (.comment hSmall body) (by simp [passed])
      | _ => cases hPiece
  | @token before spelling rest kind literal tokens errors
      hLongest _ ih =>
      subst hBefore
      rw [← List.append_assoc] at hLine
      have hGapLine : '\n' ∉ shown ++ passed small := by
        intro hMem
        exact
          hLine
            (List.mem_append_left _ (List.mem_append_left _ hMem))
      have hMore :=
        @ih (shown ++ passed small ++ spelling) [] (by simp [passed])
          (by intro step hStep; cases hStep) hLine
          (some (.after (shown ++ passed small) kind literal spelling))
      rw [hLongest.steps, spansFrom_token hGapLine]
      exact
        related_token_iff hSmall rfl (hToken _ _ _)
          (hGap small (.small hSmall)) hMore
  | @unexpected before rest c tokens errors hNone hChar _ ih =>
      rw [hNone.steps hChar]
      have hStep :
          Step.IsSmall ⟨[c], found before [c] (.unexpected c)⟩ :=
        .unexpected hNone.ne_slash hChar
      have hPassed :
          before ++ [c] =
            shown ++
              passed
                (small ++
                  [⟨[c], found before [c] (.unexpected c)⟩]) := by
        simp [hBefore, passed]
      rw [List.append_cons] at hLine
      have hMore := ih hPassed (hSmall.append hStep) hLine previous
      simpa [passed] using hMore
  | @unterminated before rest hNone =>
      rw [hNone.steps_quote]
      exact
        hLast (.unterminated hSmall rest _)
          (by simp [passed])

/- A whole line of text. -/
theorem related_highlightLine_iff
    (hToken :
      ∀ previous t next, R .token (groupOf previous t next).style)
    (hGap :
      ∀ gap, IsGap gap →
        (List.Forall₂ R (marks gap)
          (stylesOf (shownGap (passed gap))) ↔ P gap))
    {text : String}
    (hLine : '\n' ∉ text.toList) :
    List.Forall₂ R (marksOf text) (stylesOf (highlightLine text)) ↔
      ∀ gap ∈ gapsOf text, P gap := by
  have hShown :
      stylesOf (highlightLine text) =
        stylesOf
          (spansFrom (groups (wordsOf text)) 0 text.toList) := by
    rw [highlightLine_eq hLine rfl]
    split
    · rename_i hNone
      rw [List.isEmpty_iff.mp hNone]
      rfl
    · rfl
  have hStart : Scanner.ofText text = after [] text.toList := rfl
  have hAll :=
    (scans_wordsOf text).related_iff hToken hGap
      (show [] = [] ++ passed [] from rfl)
      (by intro step hStep; cases hStep) hLine none
  rw [hShown]
  unfold marksOf gapsOf
  rw [hStart]
  exact hAll

end Lines

/- Marks and styles side by side are those of each character. -/
theorem agreesWithScanner_iff
    {text : String}
    (hLength :
      (marksOf text).length =
        (stylesOf (highlightLine text)).length) :
    AgreesWithScanner text ↔
      List.Forall₂ Mark.Agrees (marksOf text)
        (stylesOf (highlightLine text)) := by
  rw [List.forall₂_iff_get]
  unfold AgreesWithScanner
  generalize marksOf text = marks at hLength
  generalize stylesOf (highlightLine text) = styles at hLength
  constructor
  · intro hAgrees
    refine ⟨hLength, ?_⟩
    intro i hMark hStyle
    have hHere := hAgrees i
    simp only [List.getElem?_eq_getElem hMark,
      List.getElem?_eq_getElem hStyle, Option.some.injEq] at hHere
    exact ⟨hHere.1, hHere.2.1, hHere.2.2⟩
  · rintro ⟨_, hAgrees⟩ i
    by_cases hMark : i < marks.length
    · have hStyle : i < styles.length := hLength ▸ hMark
      have hHere := hAgrees i hMark hStyle
      simp only [List.getElem?_eq_getElem hMark,
        List.getElem?_eq_getElem hStyle, Option.some.injEq]
      exact
        ⟨hHere.comment, hHere.unexpected, hHere.unterminated⟩
    · have hStyle : ¬ i < styles.length := hLength ▸ hMark
      simp [List.getElem?_eq_none (Nat.le_of_not_lt hMark),
        List.getElem?_eq_none (Nat.le_of_not_lt hStyle)]

/- Each character of a line has a mark and a style. -/
theorem length_marksOf
    {text : String}
    (hLine : '\n' ∉ text.toList) :
    (marksOf text).length =
      (stylesOf (highlightLine text)).length := by
  have hAll :=
    related_highlightLine_iff (R := fun _ _ => True)
      (P := fun _ => True) (fun _ _ _ => trivial) ?_ hLine
  · exact (hAll.mpr fun _ _ => trivial).length_eq
  · intro gap _
    refine ⟨fun _ => trivial, fun _ => ?_⟩
    exact
      forall₂_of_left (length_marks_shownGap gap)
        fun _ _ _ => trivial

/- A comment that ends a gap is shown as one. -/
theorem IsGap.comments_shown
    {gap : List Step}
    (hGap : IsGap gap) :
    List.Forall₂
      (fun mark style =>
        mark = .comment → style = Group.comment.style)
      (marks gap) (stylesOf (shownGap (passed gap))) := by
  have hOther :
      ∀ {small : List Step}, AllSmall small →
        ∀ mark ∈ marks small, mark ≠ .comment := by
    intro small hSmall mark hMark
    rcases hSmall.mark_cases hMark with rfl | rfl <;> simp
  cases hGap with
  | small hSmall =>
      apply forall₂_of_left (length_marks_shownGap _)
      exact fun mark hMark _ hSame =>
        absurd hSame (hOther hSmall mark hMark)
  | @comment small hSmall body =>
      rw [stylesOf_commentGap hSmall, marks_append,
        forall₂_append_iff (by simp [length_marks]),
        forall₂_replicate_iff (length_marks small),
        forall₂_replicate_iff
          (by simp [marks, Step.marks, commentStep])]
      exact
        ⟨fun mark hMark hSame =>
          absurd hSame (hOther hSmall mark hMark),
          fun _ _ _ => rfl⟩
  | @unterminated small hSmall body line =>
      apply forall₂_of_left (length_marks_shownGap _)
      intro mark hMark _ hSame
      rw [marks_append] at hMark
      rcases List.mem_append.mp hMark with hMark | hMark
      · exact absurd hSame (hOther hSmall mark hMark)
      · rcases mem_marks_iff.mp hMark with ⟨step, hStep, _, rfl⟩
        rw [List.mem_singleton.mp hStep, mark_openStep] at hSame
        cases hSame

/- A comment is always shown as one, whatever is before it. -/
theorem comments_shown
    {text : String}
    (hLine : '\n' ∉ text.toList)
    (i : Nat)
    (hMark : (marksOf text)[i]? = some .comment) :
    (stylesOf (highlightLine text))[i]? =
      some Group.comment.style := by
  have hToken :
      ∀ previous t next,
        Mark.token = .comment →
          (groupOf previous t next).style = Group.comment.style := by
    intro _ _ _ hSame
    cases hSame
  have hAll :=
    (related_highlightLine_iff (P := fun _ => True) hToken
      (fun _ hGap => iff_of_true hGap.comments_shown trivial)
      hLine).mpr fun _ _ => trivial
  have hHere := forall₂_getElem? hAll i
  rw [hMark] at hHere
  cases hStyle : (stylesOf (highlightLine text))[i]? with
  | none =>
      rw [hStyle] at hHere
      cases hHere
  | some style =>
      rw [hStyle] at hHere
      cases hHere with
      | some hSame => rw [hSame rfl]

/-
  The colours of a line tell of each character what the scanner
  makes of it exactly if each gap between its tokens holds one
  thing: the characters reported in it are not all white space,
  and have no comment and no open string with them, and an open
  string has no two slashes. A comment is always shown as one.
  The steps that tell what the scanner makes of a character are
  those in which the line is tokenized.
-/
theorem highlight_agrees_iff
    (text : String)
    (hLine : '\n' ∉ text.toList) :
    let steps := (Scanner.ofText text).steps
    (AgreesWithScanner text ↔ ∀ gap ∈ gapsOf text, IsUnmixed gap) ∧
    (∀ i : Nat,
      (marksOf text)[i]? = some .comment →
        (stylesOf (highlightLine text))[i]? =
          some Group.comment.style) ∧
    passed steps = text.toList ∧
    wordsOf text = steps.filterMap (·.found.token?) ∧
    (tokenize text).errors = steps.filterMap (·.found.error?) := by
  refine ⟨?_, comments_shown hLine, tokenize_eq_steps text⟩
  rw [agreesWithScanner_iff (length_marksOf hLine)]
  exact
    related_highlightLine_iff Mark.agrees_token
      (fun _ hGap => hGap.agrees_iff) hLine

/-
  A line with a character that is reported in one gap and a
  comment in another one.
-/
theorem highlight_agrees_apart :
    let text := "a @ b // c"
    '\n' ∉ text.toList ∧
      (∀ gap ∈ gapsOf text, IsUnmixed gap) ∧
      AgreesWithScanner text := by
  intro text
  have hLine : '\n' ∉ text.toList := by decide
  have hGaps :
      gapsOf "a @ b // c" =
        [ [],
          [ ⟨[' '], .blank⟩,
            ⟨['@'], .error ⟨.unexpected (some '@'), 1⟩⟩,
            ⟨[' '], .blank⟩ ],
          [⟨[' '], .blank⟩, ⟨['/', '/', ' ', 'c'], .blank⟩] ] := by
    cbv
  have hUnmixed : ∀ gap ∈ gapsOf text, IsUnmixed gap := by
    rw [hGaps]
    simp only [List.forall_mem_cons]
    refine ⟨?_, ?_, ?_, by simp⟩
    · constructor <;> simp [HasStray]
    · constructor <;>
        simp [HasStray, Step.mark, Text.isAllBlank,
          show Text.isBlank '@' = false by decide]
    · constructor <;> simp [HasStray, Step.mark]
  exact
    ⟨hLine, hUnmixed,
      (highlight_agrees_iff text hLine).1.mpr hUnmixed⟩

/-
  Two slashes in a string that is not closed are shown as a
  comment, and what is before them without a style; so is a
  character that is reported before a comment, and one that is
  white space. With a reported character before it, an open
  string is shown as an error.
-/
theorem highlight_mixes_up :
    ((marksOf "\"a//b")[2]? = some .unterminated ∧
      (stylesOf (highlightLine "\"a//b"))[2]? =
        some Group.comment.style ∧
      (stylesOf (highlightLine "\"a//b"))[0]? = some "" ∧
      ¬ AgreesWithScanner "\"a//b") ∧
    ((marksOf "@ // c")[0]? = some .unexpected ∧
      (stylesOf (highlightLine "@ // c"))[0]? = some "" ∧
      ¬ AgreesWithScanner "@ // c") ∧
    ((marksOf "\u00A0")[0]? = some .unexpected ∧
      (stylesOf (highlightLine "\u00A0"))[0]? = some "" ∧
      ¬ AgreesWithScanner "\u00A0") ∧
    ((marksOf "@\"b")[1]? = some .unterminated ∧
      (stylesOf (highlightLine "@\"b"))[1]? =
        some Group.error.style ∧
      ¬ AgreesWithScanner "@\"b") := by
  refine ⟨?_, ?_, ?_, ?_⟩
  · have hMark : (marksOf "\"a//b")[2]? = some .unterminated := by
      decide +kernel
    have hStyle :
        (stylesOf (highlightLine "\"a//b"))[2]? =
          some Group.comment.style := by
      decide +kernel
    refine ⟨hMark, hStyle, by decide +kernel, fun hAgrees => ?_⟩
    have hComment := (hAgrees 2).1.mp hStyle
    rw [hMark] at hComment
    cases hComment
  · have hMark : (marksOf "@ // c")[0]? = some .unexpected := by
      decide +kernel
    have hStyle :
        (stylesOf (highlightLine "@ // c"))[0]? = some "" := by
      decide +kernel
    refine ⟨hMark, hStyle, fun hAgrees => ?_⟩
    have hError := (hAgrees 0).2.1 hMark
    rw [hStyle] at hError
    exact absurd hError (by decide)
  · have hMark : (marksOf "\u00A0")[0]? = some .unexpected := by
      decide +kernel
    have hStyle :
        (stylesOf (highlightLine "\u00A0"))[0]? = some "" := by
      decide +kernel
    refine ⟨hMark, hStyle, fun hAgrees => ?_⟩
    have hError := (hAgrees 0).2.1 hMark
    rw [hStyle] at hError
    exact absurd hError (by decide)
  · have hMark : (marksOf "@\"b")[1]? = some .unterminated := by
      decide +kernel
    have hStyle :
        (stylesOf (highlightLine "@\"b"))[1]? =
          some Group.error.style := by
      decide +kernel
    refine ⟨hMark, hStyle, fun hAgrees => ?_⟩
    have hString := (hAgrees 1).2.2 hMark
    rw [hStyle] at hString
    exact absurd hString (by decide)

end Lox
