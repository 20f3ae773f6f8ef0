import Lox.Proofs.Decimal.Numeral
import Lox.Proofs.Decimal.Search

/-
  The text of a double determines it.

  The text spells a decimal that reads back as the double, and
  no decimal reads back as two of them. Zero, infinity and the
  value that is no number have texts of their own, which spell
  no positive decimal.

  Key definitions include:
    * `magnitudeBits`
    * `isNaN_iff`
    * `isDouble_ofFloat`
    * `text_injective`
    * `mem_text`
-/

------------------------------------------------------------
-- Bits
------------------------------------------------------------

namespace Lox.Decimal

open Float.Model (Format)
open Float.Model.UnpackedFloat (unpackExponent unpackMantissa)

/- The bits of a double but for the sign. -/
def magnitudeBits (x : Float) : ℕ :=
  x.toBits.toNat % twoTo 63

def fractionBits (x : Float) : ℕ :=
  x.toBits.toNat % twoTo 52

def exponentBits (x : Float) : ℕ :=
  x.toBits.toNat / twoTo 52 % twoTo 11

theorem magnitudeBits_eq (x : Float) :
    magnitudeBits x =
      exponentBits x * twoTo 52 + fractionBits x := by
  unfold magnitudeBits exponentBits fractionBits twoTo
  norm_num
  omega

theorem toBits_injective
    {x y : Float}
    (hBits : x.toBits = y.toBits) :
    x = y := by
  rcases x with ⟨⟨bits, hValid⟩⟩
  rcases y with ⟨⟨bits', hValid'⟩⟩
  cases (hBits : bits = bits')
  rfl

theorem unpackExponent_iff (x : Float) :
    @unpackExponent .binary64 x.toBits.toBitVec = -1#_ ↔
      exponentBits x = 2047 := by
  have hBits :
      (@unpackExponent .binary64 x.toBits.toBitVec).toNat =
        exponentBits x := by
    unfold unpackExponent exponentBits twoTo
    simp [Nat.shiftRight_eq_div_pow]
  rw [← hBits, ← BitVec.toNat_inj]
  rfl

theorem unpackMantissa_iff (x : Float) :
    @unpackMantissa .binary64 x.toBits.toBitVec = 0#_ ↔
      fractionBits x = 0 := by
  have hBits :
      (@unpackMantissa .binary64 x.toBits.toBitVec).toNat =
        fractionBits x := by
    unfold unpackMantissa fractionBits twoTo
    simp
  rw [← hBits, ← BitVec.toNat_inj]
  rfl

theorem isNaN_iff (x : Float) :
    x.isNaN = true ↔
      exponentBits x = 2047 ∧ fractionBits x ≠ 0 := by
  rw [← unpackExponent_iff, Ne, ← unpackMantissa_iff]
  change
    Float.Model.UnpackedFloat.isNaN
      (if @unpackExponent .binary64 x.toBits.toBitVec = -1#_ then
        if @unpackMantissa .binary64 x.toBits.toBitVec = 0#_ then
          .infinity _
        else .notANumber
      else _) = true ↔ _
  by_cases hExponent :
      @unpackExponent .binary64 x.toBits.toBitVec = -1#_
  · rw [if_pos hExponent]
    by_cases hFraction :
        @unpackMantissa .binary64 x.toBits.toBitVec = 0#_
    · rw [if_pos hFraction]
      exact iff_of_false Bool.false_ne_true
        fun hBoth => hBoth.2 hFraction
    · rw [if_neg hFraction]
      exact iff_of_true rfl ⟨hExponent, hFraction⟩
  · rw [if_neg hExponent]
    refine iff_of_false ?_ fun hBoth => hExponent hBoth.1
    by_cases hLeast :
        @unpackExponent .binary64 x.toModel.toBits.toBitVec = 0#_
    · rw [if_pos hLeast]
      by_cases hZero :
          @unpackMantissa .binary64 x.toModel.toBits.toBitVec = 0#_
      · rw [dif_pos hZero]
        exact Bool.false_ne_true
      · rw [dif_neg hZero]
        exact Bool.false_ne_true
    · rw [if_neg hLeast]
      exact Bool.false_ne_true

/- There is one value only that is no number. -/
theorem eq_of_isNaN
    {x y : Float}
    (hNaN : x.isNaN = true)
    (hNaN' : y.isNaN = true) :
    x = y := by
  have hPacked :
      ∀ z : Float, z.isNaN = true →
        z.toBits.toBitVec =
          Float.Model.UnpackedFloat.packedNaN .binary64 := by
    intro z hIs
    rcases (isNaN_iff z).mp hIs with ⟨hExponent, hFraction⟩
    apply z.toModel.valid.eq_packedNaN
    · exact (unpackExponent_iff z).mpr hExponent
    · exact fun hZero => hFraction ((unpackMantissa_iff z).mp hZero)
  apply toBits_injective
  apply UInt64.toBitVec_inj.mp
  rw [hPacked x hNaN, hPacked y hNaN']

end Lox.Decimal

------------------------------------------------------------
-- Magnitudes
------------------------------------------------------------

namespace Lox.Decimal

theorem exponentBits_lt (x : Float) : exponentBits x < 2048 :=
  Nat.mod_lt _ (by decide)

theorem fractionBits_lt (x : Float) : fractionBits x < twoTo 52 :=
  Nat.mod_lt _ (by decide)

theorem ofFloat_eq (x : Float) :
    Dyadic.ofFloat x =
      if exponentBits x = 0 then ⟨fractionBits x, -1074⟩
      else
        ⟨fractionBits x + twoTo 52,
          (exponentBits x : ℤ) - 1075⟩ :=
  rfl

variable {x y : Float}

/- The bits of zero, those of infinity, and all others. -/
theorem isDouble_ofFloat
    (hNumber : ¬ x.isNaN = true)
    (hZero : magnitudeBits x ≠ 0)
    (hInfinity : magnitudeBits x ≠ 2047 * twoTo 52) :
    (Dyadic.ofFloat x).IsDouble := by
  have hBits := magnitudeBits_eq x
  have hExponent := exponentBits_lt x
  have hFraction := fractionBits_lt x
  have hFinite : exponentBits x ≠ 2047 := by
    intro hGreatest
    apply hNumber
    refine (isNaN_iff x).mpr ⟨hGreatest, ?_⟩
    intro hNone
    apply hInfinity
    rw [hBits, hGreatest, hNone, Nat.add_zero]
  have hDouble : twoTo 53 = 2 * twoTo 52 := rfl
  rw [ofFloat_eq]
  split
  · next hLeast =>
      rw [hLeast, Nat.zero_mul, Nat.zero_add] at hBits
      constructor <;> dsimp only <;> omega
  · constructor <;> dsimp only <;> omega

theorem magnitudeBits_of_ofFloat
    (hSame : Dyadic.ofFloat x = Dyadic.ofFloat y) :
    magnitudeBits x = magnitudeBits y := by
  have hFraction := fractionBits_lt x
  have hFraction' := fractionBits_lt y
  have hParts :
      exponentBits x = exponentBits y ∧
        fractionBits x = fractionBits y := by
    rw [ofFloat_eq, ofFloat_eq] at hSame
    split at hSame <;> split at hSame <;>
      rcases Dyadic.mk.inj hSame with ⟨hMantissa, hExponent⟩ <;>
      omega
  rw [magnitudeBits_eq, magnitudeBits_eq, hParts.1, hParts.2]

/- The text of a magnitude: zero, infinity or a decimal. -/
theorem magnitudeText_cases (hNumber : ¬ x.isNaN = true) :
    (magnitudeBits x = 0 ∧ magnitudeText x = ['0']) ∨
      (magnitudeBits x = 2047 * twoTo 52 ∧
        magnitudeText x = ['i', 'n', 'f']) ∨
      ((Dyadic.ofFloat x).IsDouble ∧
        magnitudeText x = (Dyadic.ofFloat x).shortest.text) := by
  have hText :
      magnitudeText x =
        if magnitudeBits x = 0 then ['0']
        else if magnitudeBits x = 2047 * twoTo 52 then
          ['i', 'n', 'f']
        else (Dyadic.ofFloat x).shortest.text := rfl
  rw [hText]
  split_ifs with hZero hInfinity
  · exact .inl ⟨hZero, rfl⟩
  · exact .inr (.inl ⟨hInfinity, rfl⟩)
  · have hDouble := isDouble_ofFloat hNumber hZero hInfinity
    exact .inr (.inr ⟨hDouble, rfl⟩)

/- The text of a double spells a positive decimal. -/
theorem Dyadic.IsDouble.valueOfText_pos
    {d : Dyadic}
    (hDouble : d.IsDouble) :
    0 < valueOfText d.shortest.text := by
  rw [Scientific.valueOfText_text]
  exact (shortest_rounds hDouble).pos hDouble

/- Two doubles with one text are the same. -/
theorem Dyadic.IsDouble.eq_of_text
    {d d' : Dyadic}
    (hDouble : d.IsDouble)
    (hDouble' : d'.IsDouble)
    (hText : d.shortest.text = d'.shortest.text) :
    d = d' := by
  have hValue := congrArg valueOfText hText
  rw [Scientific.valueOfText_text,
    Scientific.valueOfText_text] at hValue
  have hRounds := shortest_rounds hDouble
  rw [hValue] at hRounds
  exact
    eq_of_rounds hDouble hDouble' hRounds (shortest_rounds hDouble')

/- Texts that begin otherwise spell nothing. -/
theorem valueOfText_of_head
    {c : Char}
    (hDigit : isDigit c = false)
    (hPoint : c ≠ '.')
    (rest : List Char) :
    valueOfText (c :: rest) = 0 := by
  have hSpan :
      ([] ++ c :: rest).span isDigit = ([], c :: rest) :=
    span_digits (by simp [AllDigits]) (by simp [hDigit])
  rw [List.nil_append] at hSpan
  have hSplit : splitFraction (c :: rest) = ([], c :: rest) := by
    unfold splitFraction
    split
    · next more hText =>
        exact absurd (List.cons.inj hText).1 hPoint
    · rfl
  unfold valueOfText
  rw [hSpan]
  dsimp only
  rw [hSplit]
  simp [natOfDigits]

theorem magnitudeText_ne_of_head
    (hNumber : ¬ x.isNaN = true)
    {c : Char}
    (hDigit : isDigit c = false)
    (hOther : c ∉ ['.', 'i'])
    (rest : List Char) :
    magnitudeText x ≠ c :: rest := by
  intro hText
  rcases magnitudeText_cases hNumber with
    ⟨-, hZero⟩ | ⟨-, hInfinity⟩ | ⟨hDouble, hDecimal⟩
  · rw [hZero] at hText
    cases hText
    exact absurd hDigit (by decide)
  · rw [hInfinity] at hText
    cases hText
    exact hOther (by decide)
  · have hPositive := hDouble.valueOfText_pos
    have hPoint : c ≠ '.' := by
      rintro rfl
      exact hOther (by decide)
    rw [← hDecimal, hText,
      valueOfText_of_head hDigit hPoint] at hPositive
    exact absurd hPositive (by decide)

theorem magnitudeText_injective
    (hNumber : ¬ x.isNaN = true)
    (hNumber' : ¬ y.isNaN = true)
    (hText : magnitudeText x = magnitudeText y) :
    magnitudeBits x = magnitudeBits y := by
  have hZero : valueOfText ['0'] = 0 := by
    have hText := valueOfText_whole (allDigits_zeros 1) isTail_nil
    rw [natOfDigits_zeros] at hText
    simpa using hText
  have hInfinity : valueOfText ['i', 'n', 'f'] = 0 :=
    valueOfText_of_head (by decide) (by decide) _
  have hApart :
      ∀ {d : Dyadic} {text : List Char}, d.IsDouble →
        valueOfText text = 0 → d.shortest.text ≠ text := by
    intro d text hDouble hValue hSame
    have hPositive := hDouble.valueOfText_pos
    rw [hSame, hValue] at hPositive
    exact absurd hPositive (by decide)
  -- Zero, infinity and a decimal on either side.
  rcases magnitudeText_cases hNumber with hx | hx | hx <;>
    rcases magnitudeText_cases hNumber' with hy | hy | hy <;>
    rw [hx.2, hy.2] at hText
  · exact hx.1.trans hy.1.symm
  · cases hText
  · exact absurd hText.symm (hApart hy.1 hZero)
  · cases hText
  · exact hx.1.trans hy.1.symm
  · exact absurd hText.symm (hApart hy.1 hInfinity)
  · exact absurd hText (hApart hx.1 hZero)
  · exact absurd hText (hApart hx.1 hInfinity)
  · exact magnitudeBits_of_ofFloat (hx.1.eq_of_text hy.1 hText)

end Lox.Decimal

------------------------------------------------------------
-- Texts
------------------------------------------------------------

namespace Lox.Decimal

variable {x y : Float}

theorem text_of_isNaN (hNaN : x.isNaN = true) :
    text x = "nan" := by
  unfold text
  rw [if_pos hNaN]

theorem toList_text (hNumber : ¬ x.isNaN = true) :
    (text x).toList =
      if isNegative x then '-' :: magnitudeText x
      else magnitudeText x := by
  unfold text
  rw [if_neg hNumber]
  split <;> exact String.toList_ofList

/- The sign and the magnitude make the double. -/
theorem eq_of_magnitudeBits
    (hSign : isNegative x = isNegative y)
    (hMagnitude : magnitudeBits x = magnitudeBits y) :
    x = y := by
  have hBound : x.toBits.toNat < 2 * twoTo 63 := x.toBits.toNat_lt
  have hBound' : y.toBits.toNat < 2 * twoTo 63 := y.toBits.toNat_lt
  have hSame :
      twoTo 63 ≤ x.toBits.toNat ↔ twoTo 63 ≤ y.toBits.toNat :=
    decide_eq_decide.mp hSign
  have hSize : twoTo 63 = 9223372036854775808 := rfl
  unfold magnitudeBits at hMagnitude
  rw [hSize] at hBound hBound' hSame hMagnitude
  apply toBits_injective
  apply UInt64.toNat_inj.mp
  omega

/- A double is not written like the value that is no number. -/
theorem text_ne_nan (hNumber : ¬ x.isNaN = true) :
    text x ≠ "nan" := by
  intro hText
  have hChars := congrArg String.toList hText
  rw [toList_text hNumber] at hChars
  split at hChars
  · exact absurd (List.cons.inj hChars).1 (by decide)
  · exact
      magnitudeText_ne_of_head hNumber (by decide) (by decide) _
        hChars

/- The text of a double determines it. -/
theorem text_injective
    (hText : text x = text y) :
    x = y := by
  by_cases hNaN : x.isNaN = true
  · by_cases hNaN' : y.isNaN = true
    · exact eq_of_isNaN hNaN hNaN'
    · rw [text_of_isNaN hNaN] at hText
      exact absurd hText.symm (text_ne_nan hNaN')
  · by_cases hNaN' : y.isNaN = true
    · rw [text_of_isNaN hNaN'] at hText
      exact absurd hText (text_ne_nan hNaN)
    · have hNotMinus :
          ∀ {z w : Float}, ¬ z.isNaN = true →
            magnitudeText z ≠ '-' :: magnitudeText w :=
        fun hNumber =>
          magnitudeText_ne_of_head hNumber (by decide) (by decide) _
      have hChars := congrArg String.toList hText
      rw [toList_text hNaN, toList_text hNaN'] at hChars
      cases hSign : isNegative x <;>
        cases hSign' : isNegative y <;>
        simp only [hSign, hSign', if_true, Bool.false_eq_true,
          if_false] at hChars
      · exact
          eq_of_magnitudeBits (hSign.trans hSign'.symm)
            (magnitudeText_injective hNaN hNaN' hChars)
      · exact absurd hChars (hNotMinus hNaN)
      · exact absurd hChars.symm (hNotMinus hNaN')
      · exact
          eq_of_magnitudeBits (hSign.trans hSign'.symm)
            (magnitudeText_injective hNaN hNaN'
              (List.cons.inj hChars).2)

/- The characters of the text of a double. -/
theorem mem_text
    {c : Char}
    (hMem : c ∈ (text x).toList) :
    IsNumeric c ∨ c ∈ ['i', 'n', 'f', 'a'] := by
  have hMagnitude :
      ¬ x.isNaN = true → ∀ c ∈ magnitudeText x,
        IsNumeric c ∨ c ∈ ['i', 'n', 'f', 'a'] := by
    intro hNumber c hMem
    rcases magnitudeText_cases hNumber with
      ⟨-, hZero⟩ | ⟨-, hInfinity⟩ | ⟨-, hDecimal⟩
    · rw [hZero] at hMem
      rw [List.mem_singleton.mp hMem]
      exact .inl (.inl (by decide))
    · rw [hInfinity] at hMem
      right
      simp at hMem ⊢
      tauto
    · rw [hDecimal] at hMem
      exact .inl (Scientific.isNumeric_text _ c hMem)
  by_cases hNaN : x.isNaN = true
  · rw [text_of_isNaN hNaN] at hMem
    right
    simp at hMem ⊢
    tauto
  · rw [toList_text hNaN] at hMem
    split at hMem
    · rcases List.mem_cons.mp hMem with rfl | hMem
      · exact .inl (.inr (by decide))
      · exact hMagnitude hNaN c hMem
    · exact hMagnitude hNaN c hMem

end Lox.Decimal
