import Lox.Proofs.Decimal.Text
import Lox.Proofs.Outline.Lines
import Lox.Proofs.Text.Quoting
import Lox.Proofs.Token.Joining
import Lox.Proofs.Token.Visible

/-
  The words of an outline.

  A word of a source is known by its spelling, and a bracket or
  a keyword by its kind. A constant is known by its text: a
  string is the only one that has a quote in it. All of them
  but strings as they are written fit a line.

  Key definitions include:
    * `Token.IsWord.sameWord_of_lexeme`
    * `Token.IsWord.sameWord_of_kind`
    * `Literal.text_injective`
    * `Literal.fitsLine_text`
-/

------------------------------------------------------------
-- Tokens
------------------------------------------------------------

namespace Lox

open Outline (FitsLine)

/- A text spells one piece only. -/
theorem Piece.Spelled.unique
    {piece piece' : Piece}
    {spelling : List Char}
    (hSpelled : piece.Spelled spelling)
    (hSpelled' : piece'.Spelled spelling) :
    piece = piece' := by
  have hLongest :
      ∀ {found : Piece}, found.Spelled spelling →
        found.IsLongest spelling [] := by
    intro found hFound
    refine ⟨hFound, fun other more _ hPrefix => ?_⟩
    rw [List.append_nil] at hPrefix
    exact hPrefix.length_le
  cases spelling with
  | nil => exact absurd rfl hSpelled.ne_nil
  | cons c others =>
      have hFound := recognize_of_isLongest (hLongest hSpelled)
      have hFound' := recognize_of_isLongest (hLongest hSpelled')
      exact congrArg Prod.snd (hFound.symm.trans hFound')

namespace Token.IsWord

variable {t t' : Token}

theorem sameWord_of_lexeme
    (hWord : t.IsWord)
    (hWord' : t'.IsWord)
    (hLexeme : t.lexeme = t'.lexeme) :
    t.SameWord t' := by
  unfold IsWord at hWord hWord'
  rw [← hLexeme] at hWord'
  rcases Piece.token.inj (hWord'.unique hWord) with
    ⟨hKind, hLiteral⟩
  exact ⟨hKind, hLexeme.symm, hLiteral⟩

/- A bracket and a keyword have one spelling. -/
theorem sameWord_of_kind
    (hWord : t.IsWord)
    (hWord' : t'.IsWord)
    (hKind : t.kind = t'.kind)
    (hFixed : t.kind ∉ [.identifier, .string, .number]) :
    t.SameWord t' := by
  have hTable :
      ∀ {kind : Kind} {literal : Literal} {spelling : List Char},
        (Piece.token kind literal).Spelled spelling →
          kind ∉ [.identifier, .string, .number] →
            (spelling, kind) ∈ Kind.keywords ++ Kind.operators := by
    intro kind literal spelling hSpelled hOther
    cases hSpelled with
    | keyword hKeyword => exact List.mem_append_left _ hKeyword
    | operator hOperator => exact List.mem_append_right _ hOperator
    | _ => exact absurd (by decide) hOther
  have hUnique :
      ∀ entry ∈ Kind.keywords ++ Kind.operators,
        ∀ entry' ∈ Kind.keywords ++ Kind.operators,
          entry.2 = entry'.2 → entry.1 = entry'.1 := by
    decide
  have hFixed' := hFixed
  rw [hKind] at hFixed'
  apply hWord.sameWord_of_lexeme hWord'
  apply String.toList_injective
  exact
    hUnique _ (hTable hWord hFixed) _ (hTable hWord' hFixed') hKind

/- Only strings run over the end of a line. -/
theorem fitsLine
    (hWord : t.IsWord)
    (hKind : t.kind ≠ .string) :
    FitsLine t.lexeme := by
  have hHead :
      ∀ c ∈ t.lexeme.toList.head?, IsShown c := by
    intro c hFirst
    unfold IsWord at hWord
    cases hChars : t.lexeme.toList with
    | nil =>
        rw [hChars] at hFirst
        cases hFirst
    | cons d others =>
        rw [hChars] at hFirst hWord
        cases hFirst
        exact hWord.head_isShown
  constructor
  · intro hMem
    rcases hWord.of_newline_mem hMem with hBreak | hQuote
    · rw [hBreak] at hHead
      exact absurd (hHead '\n' rfl) (by decide)
    · rcases hWord.of_quote hQuote with ⟨body, hBody, hSpelling⟩
      have hString := Piece.Spelled.string hBody
      rw [← hSpelling] at hString
      exact hKind (Piece.token.inj (hWord.unique hString)).1
  · intro hBlank
    exact absurd (hHead ' ' hBlank) (by decide)

end Token.IsWord

end Lox

------------------------------------------------------------
-- Constants
------------------------------------------------------------

namespace Lox.Literal

open Outline (FitsLine)

/- The constants that are written as words. -/
def words : List String :=
  ["nil", "true", "false"]

/- Every word has a letter that no number is written with. -/
theorem number_text_not_word (x : Float) :
    Decimal.text x ∉ words := by
  have hLetters :
      ∀ word ∈ words, 'l' ∈ word.toList ∨ 'r' ∈ word.toList := by
    decide
  intro hWord
  rcases hLetters _ hWord with hMem | hMem
  · exact absurd (Decimal.mem_text hMem) (by decide)
  · exact absurd (Decimal.mem_text hMem) (by decide)

/- Only a string has a quote in its text. -/
theorem quoted_ne
    {other : String}
    (hSingle : '\'' ∉ other.toList)
    (hDouble : '"' ∉ other.toList)
    (text : String) :
    Text.quoted text ≠ other := by
  intro hText
  rcases Text.exists_quoted text with ⟨quote, rest, hQuote, hChars⟩
  rw [hText] at hChars
  rw [hChars] at hSingle hDouble
  rcases hQuote with rfl | rfl
  · exact hSingle List.mem_cons_self
  · exact hDouble List.mem_cons_self

theorem quoted_not_word (text : String) :
    Text.quoted text ∉ words := by
  have hWords :
      ∀ word ∈ words,
        '\'' ∉ word.toList ∧ '"' ∉ word.toList := by
    decide
  intro hWord
  rcases hWords _ hWord with ⟨hSingle, hDouble⟩
  exact quoted_ne hSingle hDouble text rfl

theorem quoted_ne_number
    (text : String)
    (x : Float) :
    Text.quoted text ≠ Decimal.text x := by
  apply quoted_ne
  · exact fun hMem => absurd (Decimal.mem_text hMem) (by decide)
  · exact fun hMem => absurd (Decimal.mem_text hMem) (by decide)

/- The constant of a word. -/
def ofWord (word : String) : Literal :=
  if word = "nil" then .nil else .bool (word = "true")

theorem ofWord_text
    {value : Literal}
    (hWord : value.text ∈ words) :
    ofWord value.text = value := by
  cases value with
  | nil => rfl
  | bool b => cases b <;> rfl
  | number x => exact absurd hWord (number_text_not_word x)
  | string text => exact absurd hWord (quoted_not_word text)

theorem cases_of_not_word
    {value : Literal}
    (hNotWord : value.text ∉ words) :
    (∃ x, value = .number x) ∨ ∃ text, value = .string text := by
  cases value with
  | nil => exact absurd (by decide) hNotWord
  | bool b => cases b <;> exact absurd (by decide) hNotWord
  | number x => exact .inl ⟨x, rfl⟩
  | string text => exact .inr ⟨text, rfl⟩

/- The text of a constant determines it. -/
theorem text_injective
    {value value' : Literal}
    (hText : value.text = value'.text) :
    value = value' := by
  by_cases hWord : value.text ∈ words
  · have hWord' : value'.text ∈ words := hText ▸ hWord
    rw [← ofWord_text hWord, hText, ofWord_text hWord']
  · have hWord' : value'.text ∉ words := hText ▸ hWord
    rcases cases_of_not_word hWord with ⟨x, rfl⟩ | ⟨text, rfl⟩
    · rcases cases_of_not_word hWord' with
        ⟨x', rfl⟩ | ⟨text', rfl⟩
      · rw [Decimal.text_injective hText]
      · exact absurd hText.symm (quoted_ne_number text' x)
    · rcases cases_of_not_word hWord' with
        ⟨x', rfl⟩ | ⟨text', rfl⟩
      · exact absurd hText (quoted_ne_number text x')
      · rw [Text.quoted_injective hText]

theorem fitsLine_text (value : Literal) : FitsLine value.text := by
  cases value with
  | nil => constructor <;> decide
  | bool b => cases b <;> constructor <;> decide
  | number x =>
      constructor
      · intro hMem
        exact absurd (Decimal.mem_text hMem) (by decide)
      · intro hBlank
        have hMem := List.mem_of_head? hBlank
        exact absurd (Decimal.mem_text hMem) (by decide)
  | string text =>
      rcases Text.exists_quoted text with
        ⟨quote, rest, hQuote, hChars⟩
      constructor
      · exact Text.newline_not_mem_quoted text
      · intro hBlank
        have hHead : (Text.quoted text).toList.head? = some ' ' :=
          hBlank
        rw [hChars] at hHead
        rw [Option.some.inj hHead] at hQuote
        exact absurd hQuote (by decide)

end Lox.Literal
