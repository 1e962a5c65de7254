import RustLexer.Literal.Number
import RustLexer.Proofs.Truncation.Lookahead

/-! # Numbers in a text that is cut off

The dot of a fraction and the mark of an exponent count only with the runes behind them, so where the
text is cut off behind the number, its parts are as long as they were (`Number.scan_take`).
-/

namespace RustLexer

variable {text : List Rune} {count : Nat}

namespace Radix

theorem ofText_take (h : 2 ≤ count) : ofText (text.take count) = ofText text := by
  obtain ⟨count, rfl⟩ := Nat.exists_eq_add_of_le' h
  cases text with
  | nil => rfl
  | cons zero rest => cases rest <;> rfl

theorem ofText_take_of_decimal (h : ofText text = decimal) (count : Nat) :
    ofText (text.take count) = decimal := by
  by_cases hcount : 2 ≤ count
  · rw [ofText_take hcount, h]
  · obtain rfl | rfl : count = 0 ∨ count = 1 := by omega
    · rfl
    · cases text <;> rfl

end Radix

namespace Number

/-! ## The integer part -/

theorem markedDigits_take (radix : Radix) (text : List Rune) (count : Nat) :
    markedDigits radix (text.take count) = (markedDigits radix text).take (count - 2) := by
  rw [markedDigits, List.drop_take, ← List.take_takeWhile, markedDigits]

theorem integerLength_of_decimal (h : Radix.ofText text = .decimal) :
    integerLength text = 1 + runLength isDigitOrSeparator (text.drop 1) := by
  simp only [integerLength, h]

theorem integerLength_of_marked (h : Radix.ofText text ≠ .decimal) :
    integerLength text = 2 + (markedDigits (Radix.ofText text) text).length := by
  unfold integerLength
  split
  next hradix => exact absurd hradix h
  next => rfl

theorem integerLength_take (h : integerLength text ≤ count) :
    integerLength (text.take count) = integerLength text := by
  by_cases hradix : Radix.ofText text = .decimal
  · have hradix' := Radix.ofText_take_of_decimal hradix count
    rw [integerLength_of_decimal hradix] at h ⊢
    rw [integerLength_of_decimal hradix', List.drop_take, runLength_take]
    omega
  · rw [integerLength_of_marked hradix] at h ⊢
    have hradix' : Radix.ofText (text.take count) = Radix.ofText text :=
      Radix.ofText_take (by omega)
    rw [integerLength_of_marked (hradix' ▸ hradix), hradix', markedDigits_take, List.length_take]
    omega

theorem hasDigits_take (h : integerLength text ≤ count) :
    hasDigits (text.take count) = hasDigits text := by
  by_cases hradix : Radix.ofText text = .decimal
  · simp only [hasDigits, hradix, Radix.ofText_take_of_decimal hradix count]
  · rw [integerLength_of_marked hradix] at h
    have hradix' : Radix.ofText (text.take count) = Radix.ofText text :=
      Radix.ofText_take (by omega)
    have hdigits : markedDigits (Radix.ofText text) (text.take count) =
        markedDigits (Radix.ofText text) text := by
      rw [markedDigits_take]
      exact List.take_of_length_le (by omega)
    simp only [hasDigits, hradix', hdigits]

/-! ## Fraction and exponent -/

theorem runLength_pos_of_isDigit (h : startsIn Rune.isDigit text = true) :
    0 < runLength isDigitOrSeparator text := by
  cases text with
  | nil => cases h
  | cons rune rest =>
      have hrune : isDigitOrSeparator rune = true := by
        rw [isDigitOrSeparator, show rune.isDigit = true from h, Bool.true_or]
      rw [runLength, List.takeWhile_cons_of_pos hrune, List.length_cons]
      exact Nat.zero_lt_succ _

theorem fractionLength_take (h : fractionLength text ≤ count) :
    fractionLength (text.take count) = fractionLength text := by
  by_cases hdot : (startsWith text ['.'] && startsIn Rune.isDigit (text.drop 1)) = true
  · rw [fractionLength, if_pos hdot] at h
    rw [Bool.and_eq_true] at hdot
    obtain ⟨hmark, hdigit⟩ := hdot
    have hdigits := runLength_pos_of_isDigit hdigit
    have hmark' : startsWith (text.take count) ['.'] = true := by
      rw [startsWith_take (by simp only [List.length_singleton]; omega), hmark]
    have hdigit' : startsIn Rune.isDigit ((text.drop 1).take (count - 1)) = true := by
      rw [startsIn_take _ _ (by omega), hdigit]
    simp only [fractionLength, hmark, hdigit, hmark', hdigit', Bool.and_self, if_true,
      List.drop_take, runLength_take]
    omega
  · have hdot' : ¬ (startsWith (text.take count) ['.'] &&
        startsIn Rune.isDigit ((text.take count).drop 1)) = true := by
      rw [Bool.and_eq_true] at hdot ⊢
      rintro ⟨hmark, hdigit⟩
      rw [List.drop_take] at hdigit
      exact hdot ⟨startsWith_of_take hmark, startsIn_of_take hdigit⟩
    rw [fractionLength, if_neg hdot', fractionLength, if_neg hdot]

theorem signLength_take (text : List Rune) (h : 0 < count) :
    signLength (text.take count) = signLength text := by
  rw [signLength, startsIn_take _ _ h, signLength]

/-- The digits that an exponent has behind its mark and sign. -/
theorem exponentDigits_take (text : List Rune) (count : Nat) :
    runLength isDigitOrSeparator
        ((text.take count).drop (1 + signLength ((text.take count).drop 1))) =
      min (count - (1 + signLength (text.drop 1)))
        (runLength isDigitOrSeparator (text.drop (1 + signLength (text.drop 1)))) := by
  by_cases hcount : 1 < count
  · have hsign : signLength ((text.take count).drop 1) = signLength (text.drop 1) := by
      rw [List.drop_take, signLength_take _ (by omega)]
    rw [hsign, List.drop_take, runLength_take]
  · -- The sign is cut off, and no digits are left on either side.
    have hnil : count - (1 + signLength ((text.take count).drop 1)) = 0 := by omega
    have hzero : count - (1 + signLength (text.drop 1)) = 0 := by omega
    rw [List.drop_take, hnil, hzero, List.take_zero, Nat.zero_min]
    rfl

theorem exponentLength_take (h : exponentLength text ≤ count) :
    exponentLength (text.take count) = exponentLength text := by
  unfold exponentLength at h ⊢
  simp only [exponentDigits_take]
  by_cases hfound : (startsIn isExponentMark text && decide (0 <
      runLength isDigitOrSeparator (text.drop (1 + signLength (text.drop 1))))) = true
  · rw [if_pos hfound] at h ⊢
    rw [Bool.and_eq_true, decide_eq_true_eq] at hfound
    obtain ⟨hmark, hdigits⟩ := hfound
    have hsign : signLength ((text.take count).drop 1) = signLength (text.drop 1) := by
      rw [List.drop_take, signLength_take _ (by omega)]
    have hall : min (count - (1 + signLength (text.drop 1)))
        (runLength isDigitOrSeparator (text.drop (1 + signLength (text.drop 1)))) =
        runLength isDigitOrSeparator (text.drop (1 + signLength (text.drop 1))) :=
      Nat.min_eq_right (by omega)
    rw [hsign, hall, startsIn_take _ _ (by omega), hmark, Bool.true_and,
      if_pos (decide_eq_true hdigits)]
  · rw [if_neg hfound, if_neg]
    rw [Bool.and_eq_true, decide_eq_true_eq] at hfound ⊢
    rintro ⟨hmark, hdigits⟩
    exact hfound ⟨startsIn_of_take hmark, Nat.lt_of_lt_of_le hdigits (Nat.min_le_right _ _)⟩

theorem scan_take (h : (scan text).length ≤ count) : scan (text.take count) = scan text := by
  have hinteger : integerLength text ≤ count := by
    unfold scan at h
    split at h <;> simp only at h <;> omega
  unfold scan at h ⊢
  rw [integerLength_take hinteger, hasDigits_take hinteger]
  split
  next hdigits =>
    simp only [if_pos hdigits] at h
    have hfraction : fractionLength ((text.take count).drop (integerLength text)) =
        fractionLength (text.drop (integerLength text)) := by
      rw [List.drop_take]
      exact fractionLength_take (by omega)
    simp only [hfraction]
    have hexponent : exponentLength ((text.take count).drop
        (integerLength text + fractionLength (text.drop (integerLength text)))) =
        exponentLength (text.drop
          (integerLength text + fractionLength (text.drop (integerLength text)))) := by
      rw [List.drop_take]
      exact exponentLength_take (by omega)
    rw [hexponent]
  next => rfl

end Number

end RustLexer
