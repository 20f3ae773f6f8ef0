import Mathlib.Algebra.Order.Ring.Nat
import Mathlib.Tactic.SplitIfs
import Lox.Text.Quoted

/-
  Quoted texts can be read back.

  Every escaped character tells where it ends: a backslash is
  followed by a letter, and the letter tells how many
  hexadecimal digits follow. So a quoted text stands for one
  text only. It stays on one line.

  Key definitions include:
    * `hexValue`
    * `readEscaped?`
    * `quoted_injective`
    * `newline_not_mem_quoted`
-/

------------------------------------------------------------
-- Hexadecimal Digits
------------------------------------------------------------

namespace Lox.Text

/- The value of a lower-case hexadecimal digit. -/
def hexDigitValue (c : Char) : Nat :=
  if 'a' ≤ c then c.toNat - 'a'.toNat + 10
  else c.toNat - '0'.toNat

/- The number that hexadecimal digits spell. -/
def hexValue (digits : List Char) : Nat :=
  digits.foldl (fun n c => 16 * n + hexDigitValue c) 0

@[simp] theorem length_hexDigits (width n : Nat) :
    (hexDigits width n).length = width := by
  induction width generalizing n with
  | zero => rfl
  | succ width ih => simp [hexDigits, ih]

/- The digits of a number spell it, as far as they go. -/
theorem hexValue_hexDigits (width n : Nat) :
    hexValue (hexDigits width n) = n % 16 ^ width := by
  have hDigit :
      ∀ d, d < 16 → hexDigitValue (Nat.digitChar d) = d := by
    decide
  induction width generalizing n with
  | zero => simp [hexDigits, hexValue, Nat.mod_one]
  | succ width ih =>
      have hLast := hDigit (n % 16) (Nat.mod_lt n (by decide))
      unfold hexValue at ih ⊢
      rw [hexDigits, List.foldl_append, ih, List.foldl_cons,
        List.foldl_nil, hLast, Nat.pow_succ, Nat.mul_comm _ 16,
        Nat.mod_mul, Nat.add_comm]

theorem not_mem_hexDigits
    {c : Char}
    (hDigit : ∀ d, d < 16 → Nat.digitChar d ≠ c)
    (width n : Nat) :
    c ∉ hexDigits width n := by
  induction width generalizing n with
  | zero => simp [hexDigits]
  | succ width ih =>
      have hLast := hDigit (n % 16) (Nat.mod_lt n (by decide))
      simp [hexDigits, ih, hLast.symm]

end Lox.Text

------------------------------------------------------------
-- Escaped Characters
------------------------------------------------------------

namespace Lox.Text

/- How many hexadecimal digits follow a letter. -/
def hexWidth (letter : Char) : Nat :=
  if letter = 'x' then 2
  else if letter = 'u' then 4
  else if letter = 'U' then 8
  else 0

/- The character that a letter stands for on its own. -/
def namedBy (letter : Char) : Char :=
  if letter = 't' then '\t'
  else if letter = 'n' then '\n'
  else if letter = 'r' then '\r'
  else letter

/- The character that is escaped first, and what follows it. -/
def readEscaped? : List Char → Option (Char × List Char)
  | '\\' :: letter :: rest =>
      let width := hexWidth letter
      if width = 0 then some (namedBy letter, rest)
      else
        some
          (Char.ofNat (hexValue (rest.take width)),
            rest.drop width)
  | c :: rest => some (c, rest)
  | [] => none

theorem readEscaped?_named
    {letter : Char}
    (hNamed : hexWidth letter = 0)
    (rest : List Char) :
    readEscaped? ('\\' :: letter :: rest) =
      some (namedBy letter, rest) := by
  simp [readEscaped?, hNamed]

theorem readEscaped?_plain
    {c : Char}
    (hPlain : c ≠ '\\')
    (rest : List Char) :
    readEscaped? (c :: rest) = some (c, rest) := by
  simp [readEscaped?, hPlain]

theorem readEscaped?_hexadecimal
    {letter : Char}
    {width : Nat}
    (hWidth : hexWidth letter = width + 1)
    {c : Char}
    (hBound : c.toNat < 16 ^ (width + 1))
    (rest : List Char) :
    readEscaped?
        ('\\' :: letter :: hexDigits (width + 1) c.toNat ++ rest) =
      some (c, rest) := by
  have hLength := length_hexDigits (width + 1) c.toNat
  simp [readEscaped?, hWidth, hLength, hexValue_hexDigits,
    Nat.mod_eq_of_lt hBound]

/- A hexadecimal escape stands for the character of its code. -/
theorem readEscaped?_hexEscape
    (c : Char)
    (rest : List Char) :
    readEscaped? (hexEscape c.toNat ++ rest) = some (c, rest) := by
  have hValid : c.toNat < 16 ^ (7 + 1) :=
    Nat.lt_of_lt_of_le c.val.toNat_lt (by decide)
  unfold hexEscape
  split
  · next hSmall => exact readEscaped?_hexadecimal rfl hSmall rest
  · split
    · next hMedium =>
        exact readEscaped?_hexadecimal rfl hMedium rest
    · exact readEscaped?_hexadecimal rfl hValid rest

/- One of the two quotes. -/
def IsQuote (quote : Char) : Prop :=
  quote = '\'' ∨ quote = '"'

instance : DecidablePred IsQuote :=
  fun quote =>
    inferInstanceAs (Decidable (quote = '\'' ∨ quote = '"'))

theorem isQuote_quoteFor (text : List Char) :
    IsQuote (quoteFor text) := by
  unfold quoteFor
  split
  · exact .inr rfl
  · exact .inl rfl

/- What is escaped is read back, whatever follows it. -/
theorem readEscaped?_escape
    {quote : Char}
    (hQuote : IsQuote quote)
    (c : Char)
    (rest : List Char) :
    readEscaped? (escape quote c ++ rest) = some (c, rest) := by
  unfold escape
  split_ifs with hIsQuote hBackslash hTab hNewline hReturn
  · subst hIsQuote
    rcases hQuote with rfl | rfl <;>
      exact readEscaped?_named rfl rest
  · subst hBackslash
    exact readEscaped?_named rfl rest
  · subst hTab
    exact readEscaped?_named rfl rest
  · subst hNewline
    exact readEscaped?_named rfl rest
  · subst hReturn
    exact readEscaped?_named rfl rest
  · exact readEscaped?_plain hBackslash rest
  · exact readEscaped?_hexEscape c rest

/- No end of a line is left where one is escaped. -/
theorem newline_not_mem_escape
    {quote : Char}
    (hQuote : IsQuote quote)
    (c : Char) :
    '\n' ∉ escape quote c := by
  have hHex : ∀ width, '\n' ∉ hexDigits width c.toNat :=
    fun width => not_mem_hexDigits (by decide) width c.toNat
  unfold escape
  split_ifs with hIsQuote hBackslash hTab hNewline hReturn
  · subst hIsQuote
    rcases hQuote with rfl | rfl <;> decide
  · decide
  · decide
  · decide
  · decide
  · simp [Ne.symm hNewline]
  · unfold hexEscape
    split_ifs <;> simp [hHex]

end Lox.Text

------------------------------------------------------------
-- Quoted Texts
------------------------------------------------------------

namespace Lox.Text

/- The closing quote ends what is escaped before it. -/
theorem escaped_injective
    {quote : Char}
    (hQuote : IsQuote quote)
    {text text' : List Char}
    (hSame :
      text.flatMap (escape quote) ++ [quote] =
        text'.flatMap (escape quote) ++ [quote]) :
    text = text' := by
  have hCloses : readEscaped? [quote] = some (quote, []) := by
    rcases hQuote with rfl | rfl <;> rfl
  -- The quote alone cannot be read as a character and more.
  have hOpen :
      ∀ (c : Char) (rest : List Char),
        [quote] ≠
          (c :: rest).flatMap (escape quote) ++ [quote] := by
    intro c rest hEnds
    have hRead := congrArg readEscaped? hEnds
    rw [hCloses, List.flatMap_cons, List.append_assoc,
      readEscaped?_escape hQuote] at hRead
    simp at hRead
  induction text generalizing text' with
  | nil =>
      cases text' with
      | nil => rfl
      | cons c' rest' => exact absurd hSame (hOpen c' rest')
  | cons c rest ih =>
      cases text' with
      | nil => exact absurd hSame.symm (hOpen c rest)
      | cons c' rest' =>
          have hRead := congrArg readEscaped? hSame
          rw [List.flatMap_cons, List.flatMap_cons,
            List.append_assoc, List.append_assoc,
            readEscaped?_escape hQuote,
            readEscaped?_escape hQuote] at hRead
          rcases Prod.mk.inj (Option.some.inj hRead) with
            ⟨rfl, hRest⟩
          rw [ih hRest]

/- A quoted text stands for one text only. -/
theorem quoted_injective
    {text text' : String}
    (hSame : quoted text = quoted text') :
    text = text' := by
  have hChars := String.ofList_injective hSame
  unfold quotedChars at hChars
  rcases List.cons.inj hChars with ⟨hQuote, hEscaped⟩
  rw [← hQuote] at hEscaped
  exact
    String.toList_injective
      (escaped_injective (isQuote_quoteFor _) hEscaped)

theorem exists_quoted (text : String) :
    ∃ quote rest, IsQuote quote ∧
      (quoted text).toList = quote :: rest := by
  unfold quoted quotedChars
  rw [String.toList_ofList]
  exact ⟨_, _, isQuote_quoteFor _, rfl⟩

/- A quoted text stays on one line. -/
theorem newline_not_mem_quoted (text : String) :
    '\n' ∉ (quoted text).toList := by
  have hQuote := isQuote_quoteFor text.toList
  have hOther : '\n' ≠ quoteFor text.toList := by
    rcases hQuote with hSingle | hDouble
    · rw [hSingle]
      decide
    · rw [hDouble]
      decide
  unfold quoted quotedChars
  rw [String.toList_ofList]
  simp [hOther, newline_not_mem_escape hQuote]

end Lox.Text
