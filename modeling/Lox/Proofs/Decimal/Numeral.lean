import Lox.Decimal.Notation
import Lox.Decimal.Reading
import Lox.Proofs.Decimal.Interval

/-
  The value that a number text spells.

  A number text without a sign has digits, perhaps a point with
  more digits, and perhaps an exponent. Both notations of a
  decimal spell its value.

  Key definitions include:
    * `valueOfText`
    * `IsTail`
    * `Scientific.valueOfText_text`
    * `Scientific.isNumeric_text`
-/

------------------------------------------------------------
-- Digits
------------------------------------------------------------

namespace Lox.Decimal

def AllDigits (text : List Char) : Prop :=
  ∀ c ∈ text, isDigit c = true

theorem natOfDigits_natDigits (n : ℕ) :
    natOfDigits (natDigits n) = n :=
  Nat.ofDigitChars_ten_toDigits

theorem natOfDigits_append (digits more : List Char) :
    natOfDigits (digits ++ more) =
      10 ^ more.length * natOfDigits digits + natOfDigits more :=
  calc
    natOfDigits (digits ++ more) =
        Nat.ofDigitChars 10 more (natOfDigits digits) :=
      Nat.ofDigitChars_append 0
    _ = 10 ^ more.length * natOfDigits digits + natOfDigits more :=
      Nat.ofDigitChars_eq_ofDigitChars_zero

theorem natOfDigits_zeros (count : ℕ) :
    natOfDigits (List.replicate count '0') = 0 :=
  Nat.ofDigitChars_replicate_zero

theorem allDigits_natDigits (n : ℕ) : AllDigits (natDigits n) := by
  intro c hMem
  have hDigit : c.isDigit = true :=
    Nat.isDigit_of_mem_toDigits (by decide) (by decide) hMem
  unfold Char.isDigit at hDigit
  unfold isDigit
  simpa [Char.le_def] using hDigit

theorem allDigits_zeros (count : ℕ) :
    AllDigits (List.replicate count '0') := by
  intro c hMem
  rw [List.eq_of_mem_replicate hMem]
  decide

theorem AllDigits.append
    {digits more : List Char}
    (hDigits : AllDigits digits)
    (hMore : AllDigits more) :
    AllDigits (digits ++ more) := by
  intro c hMem
  rcases List.mem_append.mp hMem with hFirst | hSecond
  · exact hDigits c hFirst
  · exact hMore c hSecond

end Lox.Decimal

------------------------------------------------------------
-- Values Of Texts
------------------------------------------------------------

namespace Lox.Decimal

/- The digits after a point, if there is one, and the rest. -/
def splitFraction : List Char → List Char × List Char
  | '.' :: rest => rest.span isDigit
  | rest => ([], rest)

/- The value of a number text without a sign. -/
def valueOfText (text : List Char) : ℚ :=
  let whole := (text.span isDigit).1
  let fraction := (splitFraction (text.span isDigit).2).1
  let rest := (splitFraction (text.span isDigit).2).2
  natOfDigits (whole ++ fraction) *
    10 ^ ((readExponent? rest).getD 0 - fraction.length)

/- What stands after all digits: nothing, or an exponent. -/
structure IsTail (rest : List Char) (e : ℤ) : Prop where
  read : readExponent? rest = some e
  head : ∀ c ∈ rest.head?, c = 'e'

theorem isTail_nil : IsTail [] 0 :=
  ⟨rfl, by simp⟩

theorem isTail_exponentText (e : ℤ) :
    IsTail (exponentText e) e := by
  have hDigits := allDigits_natDigits e.natAbs
  have hValue := natOfDigits_natDigits e.natAbs
  have hSome : natDigits e.natAbs ≠ [] := Nat.toDigits_ne_nil
  -- A sign, and the digits after a zero if there is but one.
  have hText :
      ∃ digits,
        exponentText e =
          'e' :: (if e < 0 then '-' else '+') :: digits ∧
        AllDigits digits ∧ digits ≠ [] ∧
        natOfDigits digits = e.natAbs := by
    unfold exponentText
    dsimp only
    split
    · refine ⟨'0' :: natDigits e.natAbs, rfl, ?_, by simp, ?_⟩
      · exact (allDigits_zeros 1).append hDigits
      · have hZero :=
          natOfDigits_append (List.replicate 1 '0')
            (natDigits e.natAbs)
        rw [natOfDigits_zeros, hValue, Nat.mul_zero,
          Nat.zero_add] at hZero
        exact hZero
    · exact ⟨natDigits e.natAbs, rfl, hDigits, hSome, hValue⟩
  rcases hText with ⟨digits, hText, hAll, hNotEmpty, hNat⟩
  have hAllOf : digits.all isDigit = true :=
    List.all_eq_true.mpr hAll
  rw [hText]
  refine ⟨?_, by simp⟩
  by_cases hNegative : e < 0
  · simp only [readExponent?, if_pos hNegative, splitSign]
    simp [hNotEmpty, hAllOf, hNat, abs_of_neg hNegative]
  · simp only [readExponent?, if_neg hNegative, splitSign]
    simp [hNotEmpty, hAllOf, hNat,
      abs_of_nonneg (not_lt.mp hNegative)]

theorem span_digits
    {whole rest : List Char}
    (hWhole : AllDigits whole)
    (hRest : ∀ c ∈ rest.head?, isDigit c = false) :
    (whole ++ rest).span isDigit = (whole, rest) := by
  rw [List.span_eq_takeWhile_dropWhile,
    List.takeWhile_append_of_pos hWhole,
    List.dropWhile_append_of_pos hWhole]
  cases rest with
  | nil => simp
  | cons c rest =>
      have hStop : ¬ isDigit c = true := by
        rw [hRest c rfl]
        decide
      rw [List.takeWhile_cons_of_neg hStop,
        List.dropWhile_cons_of_neg hStop, List.append_nil]

variable {whole fraction rest : List Char} {e : ℤ}

theorem IsTail.not_digit (hTail : IsTail rest e) :
    ∀ c ∈ rest.head?, isDigit c = false := by
  intro c hHead
  rw [hTail.head c hHead]
  decide

theorem IsTail.splitFraction_eq (hTail : IsTail rest e) :
    splitFraction rest = ([], rest) := by
  unfold splitFraction
  split
  · next more => exact absurd (hTail.head '.' rfl) (by decide)
  · rfl

theorem valueOfText_whole
    (hWhole : AllDigits whole)
    (hTail : IsTail rest e) :
    valueOfText (whole ++ rest) = natOfDigits whole * 10 ^ e := by
  unfold valueOfText
  rw [span_digits hWhole hTail.not_digit]
  dsimp only
  rw [hTail.splitFraction_eq]
  dsimp only
  rw [hTail.read]
  simp

theorem valueOfText_point
    (hWhole : AllDigits whole)
    (hFraction : AllDigits fraction)
    (hTail : IsTail rest e) :
    valueOfText (whole ++ '.' :: (fraction ++ rest)) =
      natOfDigits (whole ++ fraction) *
        10 ^ (e - fraction.length) := by
  have hPoint :
      ∀ c ∈ ('.' :: (fraction ++ rest)).head?,
        isDigit c = false := by
    intro c hHead
    cases hHead
    decide
  have hSplit :
      splitFraction ('.' :: (fraction ++ rest)) =
        (fraction, rest) :=
    span_digits hFraction hTail.not_digit
  unfold valueOfText
  rw [span_digits hWhole hPoint]
  dsimp only
  rw [hSplit]
  dsimp only
  rw [hTail.read]
  rfl

end Lox.Decimal

------------------------------------------------------------
-- Notations
------------------------------------------------------------

namespace Lox.Decimal.Scientific

variable (s : Scientific)

theorem valueOfText_plain : valueOfText s.plain = s.value := by
  have hDigits := allDigits_natDigits s.digits
  have hNat := natOfDigits_natDigits s.digits
  unfold plain value
  dsimp only
  split_ifs with hWhole hSmall
  · have hZeros := allDigits_zeros s.exponent.toNat
    have hText :=
      valueOfText_whole (hDigits.append hZeros) isTail_nil
    have hPower :
        (10 : ℚ) ^ s.exponent = 10 ^ s.exponent.toNat := by
      rw [← zpow_natCast, Int.toNat_of_nonneg hWhole]
    rw [List.append_nil] at hText
    rw [hText, hPower, natOfDigits_append, natOfDigits_zeros,
      hNat, List.length_replicate]
    push_cast
    ring
  · let zeros :=
      List.replicate
        ((-s.exponent).toNat - (natDigits s.digits).length) '0'
    have hText :=
      valueOfText_point (allDigits_zeros 1)
        ((allDigits_zeros _ : AllDigits zeros).append hDigits)
        isTail_nil
    have hLength :
        (0 : ℤ) - (zeros ++ natDigits s.digits).length =
          s.exponent := by
      simp only [zeros, List.length_append, List.length_replicate]
      omega
    rw [hLength, List.append_nil] at hText
    rw [natOfDigits_append, natOfDigits_zeros,
      natOfDigits_append, natOfDigits_zeros, hNat] at hText
    simpa using hText
  · let whole := (natDigits s.digits).length - (-s.exponent).toNat
    have hTake : AllDigits ((natDigits s.digits).take whole) :=
      fun c hMem => hDigits c (List.mem_of_mem_take hMem)
    have hDrop : AllDigits ((natDigits s.digits).drop whole) :=
      fun c hMem => hDigits c (List.mem_of_mem_drop hMem)
    have hText := valueOfText_point hTake hDrop isTail_nil
    have hLength :
        (0 : ℤ) - ((natDigits s.digits).drop whole).length =
          s.exponent := by
      simp only [whole, List.length_drop]
      omega
    rw [hLength, List.append_nil, List.take_append_drop,
      hNat] at hText
    exact hText

theorem valueOfText_scientific :
    valueOfText s.scientific = s.value := by
  have hDigits := allDigits_natDigits s.digits
  have hNat := natOfDigits_natDigits s.digits
  have hTail := isTail_exponentText s.leadingExponent
  have hSome : natDigits s.digits ≠ [] := Nat.toDigits_ne_nil
  unfold scientific value
  unfold leadingExponent at hTail ⊢
  cases hParts : natDigits s.digits with
  | nil => exact absurd hParts hSome
  | cons first rest =>
      rw [hParts] at hDigits hNat hTail
      have hFirst : AllDigits [first] := by
        intro c hMem
        exact hDigits c (by simp_all)
      have hRest : AllDigits rest :=
        fun c hMem => hDigits c (.tail first hMem)
      dsimp only
      cases hEmpty : rest with
      | nil =>
          rw [hEmpty] at hNat hTail
          have hText := valueOfText_whole hFirst hTail
          rw [hNat] at hText
          simpa using hText
      | cons second others =>
          rw [← hEmpty]
          have hText := valueOfText_point hFirst hRest hTail
          have hExponent :
              s.exponent + ((first :: rest).length : ℤ) - 1 -
                  rest.length =
                s.exponent := by
            push_cast [List.length_cons]
            ring
          have hBoth : natOfDigits ([first] ++ rest) = s.digits :=
            hNat
          rw [hExponent, hBoth] at hText
          simpa [hEmpty] using hText

/- A decimal is the value of its text. -/
theorem valueOfText_text : valueOfText s.text = s.value := by
  unfold text
  split
  · exact s.valueOfText_plain
  · exact s.valueOfText_scientific

end Lox.Decimal.Scientific

------------------------------------------------------------
-- Characters
------------------------------------------------------------

namespace Lox.Decimal

/- The characters that number texts are made of. -/
def IsNumeric (c : Char) : Prop :=
  isDigit c = true ∨ c ∈ ['.', 'e', '+', '-']

instance : DecidablePred IsNumeric :=
  fun c =>
    inferInstanceAs
      (Decidable (isDigit c = true ∨ c ∈ ['.', 'e', '+', '-']))

theorem AllDigits.isNumeric
    {text : List Char}
    (hDigits : AllDigits text) :
    ∀ c ∈ text, IsNumeric c :=
  fun c hMem => .inl (hDigits c hMem)

theorem isNumeric_exponentText (e : ℤ) :
    ∀ c ∈ exponentText e, IsNumeric c := by
  have hDigits := (allDigits_natDigits e.natAbs).isNumeric
  have hLetter : IsNumeric 'e' := .inr (by decide)
  have hZero : IsNumeric '0' := .inl (by decide)
  have hSign : IsNumeric (if e < 0 then '-' else '+') := by
    split <;> exact .inr (by decide)
  unfold exponentText
  dsimp only
  split <;> simp only [List.forall_mem_cons]
  · exact ⟨hLetter, hSign, hZero, hDigits⟩
  · exact ⟨hLetter, hSign, hDigits⟩

theorem Scientific.isNumeric_text (s : Scientific) :
    ∀ c ∈ s.text, IsNumeric c := by
  have hDigits := (allDigits_natDigits s.digits).isNumeric
  have hZeros :
      ∀ count, ∀ c ∈ List.replicate count '0', IsNumeric c :=
    fun count => (allDigits_zeros count).isNumeric
  have hPoint : IsNumeric '.' := .inr (by decide)
  have hZero : IsNumeric '0' := .inl (by decide)
  have hExponent := isNumeric_exponentText s.leadingExponent
  unfold text plain scientific
  dsimp only
  split_ifs
  · rw [List.forall_mem_append]
    exact ⟨hDigits, hZeros _⟩
  · simp only [List.cons_append, List.forall_mem_cons,
      List.forall_mem_append]
    exact ⟨hZero, hPoint, hZeros _, hDigits⟩
  · rw [List.forall_mem_append, List.forall_mem_cons]
    refine ⟨?_, hPoint, ?_⟩
    · exact fun c hMem => hDigits c (List.mem_of_mem_take hMem)
    · exact fun c hMem => hDigits c (List.mem_of_mem_drop hMem)
  · cases hParts : natDigits s.digits with
    | nil => simp
    | cons first rest =>
        rw [hParts, List.forall_mem_cons] at hDigits
        simp only [List.cons_append, List.forall_mem_cons,
          List.forall_mem_append]
        refine ⟨hDigits.1, ?_, hExponent⟩
        split
        · simp
        · rw [List.forall_mem_cons]
          exact ⟨hPoint, hDigits.2⟩

end Lox.Decimal
