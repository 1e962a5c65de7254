import RustLexer.CodePoint.Unicode
import RustLexer.Motion
import RustLexer.Proofs.Checker.Number
import RustLexer.Proofs.Grammar.Numeral

/-! # Numbers are the longest numerals

The scanner takes one part of a number after another and never gives one back. That finds the longest numeral
at the front of a text, because no part that it takes can be had shorter with another part behind it: what
starts a fraction or an exponent is no digit of the part before. So the scanner takes a numeral
(`Number.numeral_scan`), and no numeral that stands there is longer (`Number.length_le_scan`).
-/

namespace RustLexer

open Grammar

namespace Number

variable {text behind : List Rune}

/-! ## Runs -/

theorem runLength_append {inClass : Rune → Bool} {run : List Rune}
    (hrun : ∀ rune ∈ run, inClass rune = true) (hbehind : startsIn inClass behind = false) :
    runLength inClass (run ++ behind) = run.length := by
  rw [runLength, takeWhile_append_eq_left hrun hbehind]

theorem length_le_runLength {inClass : Rune → Bool} {run : List Rune}
    (hrun : ∀ rune ∈ run, inClass rune = true) (behind : List Rune) :
    run.length ≤ runLength inClass (run ++ behind) := by
  rw [runLength, List.takeWhile_append_of_pos hrun, List.length_append]
  exact Nat.le_add_right _ _

/-! ## Exponents -/

theorem exponentLength_of_mark {mark : Rune} {sign more : List Rune}
    (hmark : isExponentMark mark = true) (hsign : signLength (sign ++ more) = sign.length) :
    exponentLength (mark :: (sign ++ more)) =
      if 0 < runLength isDigitOrSeparator more then
        1 + sign.length + runLength isDigitOrSeparator more
      else 0 := by
  have hstart : startsIn isExponentMark (mark :: (sign ++ more)) = true := hmark
  have hbehind : (mark :: (sign ++ more)).drop (1 + sign.length) = more := by
    rw [Nat.add_comm, List.drop_succ_cons, List.drop_left]
  simp only [exponentLength, hstart, List.drop_one, List.tail_cons, hsign, hbehind, Bool.true_and,
    decide_eq_true_eq]

/-- What the scanner takes as an exponent is one. -/
theorem exists_power (h : 0 < exponentLength text) :
    ∃ power behind, text = power ++ behind ∧ exponentLength text = power.length ∧
      Power (power.map Rune.char) := by
  have hmark : startsIn isExponentMark text = true := by
    rw [← Bool.not_eq_false]
    intro hnone
    rw [exponentLength, hnone] at h
    exact Nat.lt_irrefl 0 h
  obtain ⟨mark, rest, rfl, hletter⟩ := startsIn_iff.mp hmark
  obtain ⟨sign, more, rfl, hsign, hlength⟩ := exists_sign rest
  obtain ⟨digits, behind, rfl, hdigits, hbehind⟩ := exists_run isDigitOrSeparator more
  have hexponent := exponentLength_of_mark hletter hlength
  rw [runLength_append hdigits hbehind] at hexponent
  have hpos : 0 < digits.length := by
    apply Nat.pos_of_ne_zero
    intro hzero
    rw [hexponent, hzero] at h
    exact Nat.lt_irrefl 0 h
  refine ⟨mark :: (sign ++ digits), behind, by simp, ?_, ?_⟩
  · rw [hexponent, if_pos hpos, List.length_cons, List.length_append]
    omega
  · rw [List.map_cons, List.map_append]
    refine .intro (by simpa [isExponentMark] using hletter) hsign (isRun_decimal_iff.mpr hdigits) ?_
    rw [ne_eq, List.map_eq_nil_iff]
    exact List.ne_nil_of_length_pos hpos

/-- No exponent at the front of a text is longer than the scanner's. -/
theorem length_le_exponentLength {power : List Rune} (h : Power (power.map Rune.char))
    (behind : List Rune) : power.length ≤ exponentLength (power ++ behind) := by
  generalize hchars : power.map Rune.char = chars at h
  obtain @⟨_, _, _, hmark, hsign, hrun, hne⟩ := h
  obtain ⟨mark, rest, rfl, rfl, hrest⟩ := List.map_eq_cons_iff.mp hchars
  obtain ⟨sign, digits, rfl, rfl, rfl⟩ := List.map_eq_append_iff.mp hrest
  have hdigits := isRun_decimal_iff.mp hrun
  have hlength := signLength_append hsign hdigits (by simpa using hne) behind
  have hletter : isExponentMark mark = true := by
    simpa [isExponentMark] using hmark
  have hle := length_le_runLength hdigits behind
  have hpos : 0 < digits.length := List.length_pos_iff.mpr (by simpa using hne)
  rw [List.cons_append, List.append_assoc, exponentLength_of_mark hletter hlength,
    if_pos (Nat.lt_of_lt_of_le hpos hle), List.length_cons, List.length_append]
  omega

theorem exists_power_mark {power : List Rune} (h : Power (power.map Rune.char)) :
    ∃ mark more, power = mark :: more ∧ mark.char ∈ ['e', 'E'] := by
  obtain ⟨_, _, hchars, hmark⟩ := h.exists_eq
  obtain ⟨mark, more, rfl, rfl, -⟩ := List.map_eq_cons_iff.mp hchars
  exact ⟨mark, more, rfl, hmark⟩

/-! ## Fractions and exponents -/

theorem exists_tail_mark {tail : List Rune} (h : FloatTail (tail.map Rune.char)) :
    ∃ mark more, tail = mark :: more ∧ mark.char ∈ ['.', 'e', 'E'] := by
  obtain ⟨_, _, hchars, hmark⟩ := h.exists_eq
  obtain ⟨mark, more, rfl, rfl, -⟩ := List.map_eq_cons_iff.mp hchars
  exact ⟨mark, more, rfl, hmark⟩

/-- The number of runes in the fraction and the exponent at the front of a text. -/
def tailLength (text : List Rune) : Nat :=
  fractionLength text + exponentLength (text.drop (fractionLength text))

theorem fractionLength_of_dot {dot : Rune} (hdot : dot.char = '.')
    (hdigit : startsIn Rune.isDigit text = true) :
    fractionLength (dot :: text) = 1 + runLength isDigitOrSeparator text := by
  have hstart : startsWith (dot :: text) ['.'] = true :=
    startsWith_cons_iff.mpr ⟨dot, text, rfl, hdot, by simp [startsWith]⟩
  rw [fractionLength, hstart, List.drop_one, List.tail_cons, hdigit]
  rfl

theorem fractionLength_of_not_dot (h : startsWith text ['.'] = false) : fractionLength text = 0 := by
  rw [fractionLength, h]
  rfl

/-- What the scanner takes as a fraction is one. -/
theorem exists_fraction (h : 0 < fractionLength text) :
    ∃ dot digits behind, text = dot :: (digits ++ behind) ∧ dot.char = '.' ∧
      Decimal (digits.map Rune.char) ∧ fractionLength text = (dot :: digits).length := by
  have hstart : (startsWith text ['.'] && startsIn Rune.isDigit (text.drop 1)) = true := by
    rw [← Bool.not_eq_false]
    intro hnone
    rw [fractionLength, hnone] at h
    exact Nat.lt_irrefl 0 h
  obtain ⟨hdot, hdigit⟩ := Bool.and_eq_true_iff.mp hstart
  obtain ⟨dot, rest, rfl, hchar, -⟩ := startsWith_cons_iff.mp hdot
  rw [List.drop_one, List.tail_cons] at hdigit
  have hlength := fractionLength_of_dot hchar hdigit
  obtain ⟨digits, behind, rfl, hdecimal, hbehind⟩ := exists_decimal hdigit
  refine ⟨dot, digits, behind, rfl, hchar, hdecimal, ?_⟩
  rw [hlength, runLength_append (decimal_iff.mp hdecimal).2 hbehind, List.length_cons, Nat.add_comm]

/-- What the scanner takes behind the whole part of a number is a tail of a numeral, or nothing. -/
theorem exists_tail (text : List Rune) :
    ∃ tail behind, text = tail ++ behind ∧ tailLength text = tail.length ∧
      (tail = [] ∨ FloatTail (tail.map Rune.char)) := by
  have hexponent : ∀ rest, ∃ power behind, rest = power ++ behind ∧
      exponentLength rest = power.length ∧ (power = [] ∨ Power (power.map Rune.char)) := by
    intro rest
    rcases Nat.eq_zero_or_pos (exponentLength rest) with hzero | hpos
    · exact ⟨[], rest, rfl, hzero, Or.inl rfl⟩
    · obtain ⟨power, behind, hrest, hlength, hpower⟩ := exists_power hpos
      exact ⟨power, behind, hrest, hlength, Or.inr hpower⟩
  rcases Nat.eq_zero_or_pos (fractionLength text) with hzero | hpos
  · obtain ⟨power, behind, rfl, hlength, hpower⟩ := hexponent text
    refine ⟨power, behind, rfl, ?_, hpower.imp_right .power⟩
    rw [tailLength, hzero, List.drop_zero, Nat.zero_add, hlength]
  · obtain ⟨dot, digits, rest, rfl, hdot, hdigits, hfraction⟩ := exists_fraction hpos
    obtain ⟨power, behind, rfl, hlength, hpower⟩ := hexponent rest
    refine ⟨dot :: (digits ++ power), behind, by simp, ?_, Or.inr ?_⟩
    · rw [tailLength, hfraction, ← List.cons_append, List.drop_left, hlength, ← List.length_append,
        List.cons_append]
    · rw [List.map_cons, List.map_append, hdot]
      exact .fraction hdigits (by simpa using hpower)

/-- No tail of a numeral at the front of a text is longer than the scanner's. -/
theorem length_le_tailLength {tail : List Rune} (h : FloatTail (tail.map Rune.char))
    (behind : List Rune) : tail.length ≤ tailLength (tail ++ behind) := by
  generalize hchars : tail.map Rune.char = chars at h
  cases h with
  | fraction hdigits hpower =>
      obtain ⟨dot, rest, rfl, hdot, hrest⟩ := List.map_eq_cons_iff.mp hchars
      obtain ⟨digits, power, rfl, rfl, rfl⟩ := List.map_eq_append_iff.mp hrest
      obtain ⟨hstart, hrun⟩ := decimal_iff.mp hdigits
      have hdigit : startsIn Rune.isDigit (digits ++ (power ++ behind)) = true := by
        obtain ⟨first, digits, rfl, hfirst⟩ := startsIn_iff.mp hstart
        exact hfirst
      have hfraction := fractionLength_of_dot hdot hdigit
      rw [List.cons_append, List.append_assoc, tailLength, hfraction]
      rcases hpower with hnone | hpower
      · obtain rfl := List.map_eq_nil_iff.mp hnone
        have hle := length_le_runLength hrun ([] ++ behind)
        rw [List.append_nil, List.length_cons]
        omega
      · -- The mark of the exponent ends the digits of the fraction.
        have hmark : startsIn isDigitOrSeparator (power ++ behind) = false := by
          obtain ⟨mark, more, rfl, hmark⟩ := exists_power_mark hpower
          exact not_digit_of_mark (List.mem_cons_of_mem _ hmark)
        have hle := length_le_exponentLength hpower behind
        have hdrop : (dot :: (digits ++ (power ++ behind))).drop (1 + digits.length) =
            power ++ behind := by
          rw [Nat.add_comm, List.drop_succ_cons, List.drop_left]
        rw [runLength_append hrun hmark, hdrop, List.length_cons, List.length_append]
        omega
  | power hpower =>
      subst hchars
      have hle := length_le_exponentLength hpower behind
      have hdot : startsWith (tail ++ behind) ['.'] = false := by
        obtain ⟨mark, more, rfl, hmark⟩ := exists_power_mark hpower
        have hother : (mark.char == '.') = false :=
          eq_false_of_any (fun char => char == '.') (by decide) hmark
        rw [List.cons_append, startsWith, hother, Bool.false_and]
      rw [tailLength, fractionLength_of_not_dot hdot, List.drop_zero, Nat.zero_add]
      exact hle

/-! ## Whole parts -/

variable {whole rest digits : List Rune} {zero mark : Rune} {radix : Radix}

theorem scan_of_whole (hlength : integerLength (whole ++ rest) = whole.length)
    (hsome : hasDigits (whole ++ rest) = true) :
    scan (whole ++ rest) =
      { kind := if tailLength rest = 0 then .integer else .float
        length := whole.length + tailLength rest } := by
  have hdrop : ∀ more, (whole ++ rest).drop (whole.length + more) = rest.drop more := by
    intro more
    rw [← List.drop_drop, List.drop_left]
  simp only [scan, hsome, if_true, hlength, List.drop_left, hdrop, tailLength, Nat.add_assoc]
  rfl

theorem scan_of_not_hasDigits (h : hasDigits text = false) :
    scan text = { kind := .integer, length := integerLength text } := by
  simp [scan, h]

theorem integerLength_of_digits (hradix : Radix.ofText (digits ++ rest) = .decimal)
    (hdigits : Decimal (digits.map Rune.char)) (hrest : startsIn isDigitOrSeparator rest = false) :
    integerLength (digits ++ rest) = digits.length := by
  obtain ⟨hstart, hrun⟩ := decimal_iff.mp hdigits
  obtain ⟨first, run, rfl, -⟩ := startsIn_iff.mp hstart
  rw [integerLength_of_decimal hradix, List.cons_append, List.drop_one, List.tail_cons,
    runLength_append (List.forall_mem_cons.mp hrun).2 hrest, List.length_cons, Nat.add_comm]

/-- The whole part of a number with the mark of a radix are the mark and the digits behind it. -/
theorem marked_whole (hradix : Radix.ofText (zero :: mark :: (digits ++ rest)) = radix)
    (hmarked : radix ≠ .decimal) (hdigits : ∀ rune ∈ digits, isInPart radix rune = true)
    (hrest : startsIn (isInPart radix) rest = false) :
    integerLength (zero :: mark :: (digits ++ rest)) = (zero :: mark :: digits).length ∧
      hasDigits (zero :: mark :: (digits ++ rest)) = digits.any radix.runsOver := by
  have hrun : markedDigits radix (zero :: mark :: (digits ++ rest)) = digits :=
    takeWhile_append_eq_left hdigits hrest
  constructor
  · rw [integerLength_of_marked (hradix ▸ hmarked), hradix, hrun, List.length_cons,
      List.length_cons]
    omega
  · unfold hasDigits
    rw [hradix]
    split
    next => exact absurd rfl hmarked
    next => rw [hrun]

/-- The digits of a number with the mark of a radix are decimal or hexadecimal. -/
theorem runsOver_cases (hmark : (mark.char, radix.base) ∈ [('b', 2), ('o', 8), ('x', 16)]) :
    mark.char ∈ ['b', 'o'] ∧ (∀ rune, radix.runsOver rune = Grammar.isDigit rune.char) ∨
      mark.char = 'x' ∧ ∀ rune, radix.runsOver rune = Grammar.isHexDigit rune.char := by
  cases radix with
  | decimal => simp [Radix.base] at hmark
  | binary =>
      have hletter : mark.char = 'b' := by simpa [Radix.base] using hmark
      exact Or.inl ⟨by simp [hletter], fun _ => rfl⟩
  | octal =>
      have hletter : mark.char = 'o' := by simpa [Radix.base] using hmark
      exact Or.inl ⟨by simp [hletter], fun _ => rfl⟩
  | hexadecimal =>
      have hletter : mark.char = 'x' := by simpa [Radix.base] using hmark
      exact Or.inr ⟨hletter, fun _ => rfl⟩

section Digits

variable {inClass : Char → Bool} (hclass : ∀ rune, radix.runsOver rune = inClass rune.char)
include hclass

theorem isRun_runsOver_iff :
    IsRun inClass (digits.map Rune.char) ↔ ∀ rune ∈ digits, isInPart radix rune = true := by
  rw [IsRun, List.forall_mem_map]
  apply forall₂_congr
  intro rune _
  rw [isInPart, hclass, Bool.or_eq_true, beq_iff_eq]

theorem exists_runsOver_iff :
    (∃ digit ∈ digits.map Rune.char, inClass digit = true) ↔
      digits.any radix.runsOver = true := by
  simp only [List.mem_map, exists_exists_and_eq_and, List.any_eq_true, hclass]

end Digits

/-! ## The scanner takes a numeral -/

/-- The scanner takes the whole part of a numeral. If that has a digit, the tails that may stand behind it
make it a floating-point number. -/
theorem exists_whole (hstart : startsIn Rune.isDigit text = true) :
    ∃ whole rest, text = whole ++ rest ∧ integerLength text = whole.length ∧
      Numeral .integer (whole.map Rune.char) ∧
      (hasDigits text = true → ∀ tail, tail <+: rest → FloatTail (tail.map Rune.char) →
        Numeral .float ((whole ++ tail).map Rune.char)) := by
  by_cases hradix : Radix.ofText text = .decimal
  · obtain ⟨digits, rest, rfl, hdigits, hrest⟩ := exists_decimal hstart
    refine ⟨digits, rest, rfl, integerLength_of_digits hradix hdigits hrest, .decimal hdigits, ?_⟩
    intro _ tail _ htail
    rw [List.map_append]
    exact .decimalFloat hdigits htail
  · obtain ⟨zero, mark, digits, rest, htext, hzero, hmark, hdigits, hrest⟩ := exists_marked hradix
    obtain ⟨hlength, hhasDigits⟩ := marked_whole (congrArg Radix.ofText htext).symm hradix hdigits hrest
    rw [← htext] at hlength hhasDigits
    refine ⟨zero :: mark :: digits, rest, htext, hlength, ?_, ?_⟩
    · rw [List.map_cons, List.map_cons, hzero]
      rcases runsOver_cases hmark with ⟨hletter, hclass⟩ | ⟨hletter, hclass⟩
      · exact .binary hletter ((isRun_runsOver_iff hclass).mpr hdigits)
      · rw [hletter]
        exact .hexadecimal ((isRun_runsOver_iff hclass).mpr hdigits)
    · intro hsome tail hprefix htail
      rw [hhasDigits] at hsome
      rw [List.cons_append, List.cons_append, List.map_cons, List.map_cons, List.map_append, hzero]
      rcases runsOver_cases hmark with ⟨hletter, hclass⟩ | ⟨hletter, hclass⟩
      · exact .binaryFloat hletter ((isRun_runsOver_iff hclass).mpr hdigits)
          ((exists_runsOver_iff hclass).mpr hsome) htail
      · rw [hletter]
        have hrun := (isRun_runsOver_iff hclass).mpr hdigits
        have hdigit := (exists_runsOver_iff hclass).mpr hsome
        obtain ⟨behind, rfl⟩ := hprefix
        generalize hchars : tail.map Rune.char = chars at htail
        cases htail with
        | fraction hfraction hpower => exact .hexadecimalFloat hrun hdigit hfraction hpower
        | power hpower =>
            subst hchars
            -- The mark of an exponent would be one more digit.
            obtain ⟨rune, more, rfl, hletter⟩ := exists_power_mark hpower
            have hpart : isInPart (Radix.ofText text) rune = false := hrest
            rw [isInPart, hclass, Bool.or_eq_false_iff] at hpart
            simp only [List.mem_cons, List.not_mem_nil, or_false] at hletter
            rcases hletter with hchar | hchar
            · rw [hchar] at hpart
              exact absurd hpart.1 (by decide)
            · rw [hchar] at hpart
              exact absurd hpart.1 (by decide)

/-- The scanner takes a numeral of the kind that it answers. -/
theorem numeral_scan (hstart : startsIn Rune.isDigit text = true) :
    Numeral (scan text).kind ((text.take (scan text).length).map Rune.char) := by
  obtain ⟨whole, rest, rfl, hlength, hinteger, hfloat⟩ := exists_whole hstart
  cases hsome : hasDigits (whole ++ rest) with
  | false =>
      rw [scan_of_not_hasDigits hsome, hlength, List.take_left]
      exact hinteger
  | true =>
      obtain ⟨tail, behind, rfl, htail, hfloatTail⟩ := exists_tail rest
      rw [scan_of_whole hlength hsome, htail, ← List.append_assoc, ← List.length_append,
        List.take_left]
      rcases hfloatTail with rfl | hfloatTail
      · rw [List.append_nil]
        exact hinteger
      · have hne : tail.length ≠ 0 := by
          obtain ⟨mark, more, rfl, -⟩ := exists_tail_mark hfloatTail
          exact Nat.succ_ne_zero _
        rw [if_neg hne]
        exact hfloat hsome tail (List.prefix_append _ _) hfloatTail

/-! ## No numeral is longer -/

theorem integerLength_le_scan (text : List Rune) : integerLength text ≤ (scan text).length := by
  unfold scan
  split
  next => exact Nat.le_trans (Nat.le_add_right _ _) (Nat.le_add_right _ _)
  next => exact Nat.le_refl _

theorem ofText_of_binary (hzero : zero.char = '0') (hmark : mark.char ∈ ['b', 'o'])
    (rest : List Rune) :
    ∃ radix, Radix.ofText (zero :: mark :: rest) = radix ∧ radix ≠ .decimal ∧
      ∀ rune, radix.runsOver rune = Grammar.isDigit rune.char := by
  simp only [List.mem_cons, List.not_mem_nil, or_false] at hmark
  rcases hmark with hmark | hmark
  · exact ⟨.binary, by simp [Radix.ofText, Radix.ofMark, hzero, hmark], by decide, fun _ => rfl⟩
  · exact ⟨.octal, by simp [Radix.ofText, Radix.ofMark, hzero, hmark], by decide, fun _ => rfl⟩

theorem ofText_of_hexadecimal (hzero : zero.char = '0') (hmark : mark.char = 'x')
    (rest : List Rune) : Radix.ofText (zero :: mark :: rest) = .hexadecimal := by
  simp [Radix.ofText, Radix.ofMark, hzero, hmark]

/-- Digits behind the mark of a radix are all taken. -/
theorem length_le_of_marked (hradix : Radix.ofText (zero :: mark :: (digits ++ behind)) = radix)
    (hmarked : radix ≠ .decimal) (hdigits : ∀ rune ∈ digits, isInPart radix rune = true) :
    (zero :: mark :: digits).length ≤ integerLength (zero :: mark :: (digits ++ behind)) := by
  have hle : digits.length ≤ (markedDigits radix (zero :: mark :: (digits ++ behind))).length :=
    length_le_runLength hdigits behind
  rw [integerLength_of_marked (hradix ▸ hmarked), hradix, List.length_cons, List.length_cons]
  omega

/-- No integer at the front of a text is longer than the whole part that the scanner takes. -/
theorem length_le_integerLength {front : List Rune} (h : Numeral .integer (front.map Rune.char))
    (behind : List Rune) : front.length ≤ integerLength (front ++ behind) := by
  generalize hchars : front.map Rune.char = chars at h
  cases h with
  | decimal hdigits =>
      subst hchars
      rcases Nat.lt_or_ge 1 front.length with htwo | hone
      · -- The radix is decided by two digits of a decimal number.
        have hradix : Radix.ofText (front ++ behind) = .decimal := by
          rw [← Radix.ofText_take htwo, List.take_left]
          have hdecimal : Radix.ofText (front ++ []) = .decimal := ofText_of_decimal hdigits rfl
          rwa [List.append_nil] at hdecimal
        obtain ⟨hstart, hrun⟩ := decimal_iff.mp hdigits
        obtain ⟨first, run, rfl, -⟩ := startsIn_iff.mp hstart
        have hle := length_le_runLength (List.forall_mem_cons.mp hrun).2 behind
        rw [integerLength_of_decimal hradix, List.cons_append, List.drop_one, List.tail_cons,
          List.length_cons]
        omega
      · exact Nat.le_trans hone (integerLength_pos _)
  | binary hmark hrun =>
      obtain ⟨zero, rest, rfl, hzero, hrest⟩ := List.map_eq_cons_iff.mp hchars
      obtain ⟨mark, digits, rfl, rfl, rfl⟩ := List.map_eq_cons_iff.mp hrest
      obtain ⟨radix, hradix, hmarked, hclass⟩ := ofText_of_binary hzero hmark (digits ++ behind)
      exact length_le_of_marked hradix hmarked ((isRun_runsOver_iff hclass).mp hrun)
  | hexadecimal hrun =>
      obtain ⟨zero, rest, rfl, hzero, hrest⟩ := List.map_eq_cons_iff.mp hchars
      obtain ⟨mark, digits, rfl, hmark, rfl⟩ := List.map_eq_cons_iff.mp hrest
      have hradix := ofText_of_hexadecimal hzero hmark (digits ++ behind)
      exact length_le_of_marked hradix (by decide) ((isRun_runsOver_iff fun _ => rfl).mp hrun)

/-- The scanner takes the same whole part of a floating-point number as the grammar. -/
theorem exists_whole_of_float {front : List Rune} (h : Numeral .float (front.map Rune.char)) :
    ∃ whole tail, front = whole ++ tail ∧ FloatTail (tail.map Rune.char) ∧
      ∀ behind, integerLength (whole ++ (tail ++ behind)) = whole.length ∧
        hasDigits (whole ++ (tail ++ behind)) = true := by
  generalize hchars : front.map Rune.char = chars at h
  cases h with
  | decimalFloat hwhole htail =>
      obtain ⟨digits, tail, rfl, rfl, rfl⟩ := List.map_eq_append_iff.mp hchars
      refine ⟨digits, tail, rfl, htail, fun behind => ?_⟩
      obtain ⟨mark, more, rfl, hmark⟩ := exists_tail_mark htail
      have hother : ['b', 'o', 'x'].contains mark.char = false :=
        eq_false_of_any (fun char => ['b', 'o', 'x'].contains char) (by decide) hmark
      have hradix : Radix.ofText (digits ++ (mark :: more ++ behind)) = .decimal :=
        ofText_of_decimal hwhole hother
      exact ⟨integerLength_of_digits hradix hwhole (not_digit_of_mark hmark),
        by rw [hasDigits, hradix]⟩
  | binaryFloat hmark hrun hsome htail =>
      obtain ⟨zero, rest, rfl, hzero, hrest⟩ := List.map_eq_cons_iff.mp hchars
      obtain ⟨mark, rest, rfl, rfl, hdigits⟩ := List.map_eq_cons_iff.mp hrest
      obtain ⟨digits, tail, rfl, rfl, rfl⟩ := List.map_eq_append_iff.mp hdigits
      refine ⟨zero :: mark :: digits, tail, rfl, htail, fun behind => ?_⟩
      obtain ⟨radix, hradix, hmarked, hclass⟩ :=
        ofText_of_binary hzero hmark (digits ++ (tail ++ behind))
      have hstop : startsIn (isInPart radix) (tail ++ behind) = false := by
        obtain ⟨letter, more, rfl, hletter⟩ := exists_tail_mark htail
        have hdigit := not_digit_of_mark hletter
        rw [List.cons_append]
        change isInPart radix letter = false
        rw [isInPart, hclass]
        exact hdigit
      obtain ⟨hlength, hhasDigits⟩ :=
        marked_whole hradix hmarked ((isRun_runsOver_iff hclass).mp hrun) hstop
      exact ⟨hlength, hhasDigits.trans ((exists_runsOver_iff hclass).mp hsome)⟩
  | hexadecimalFloat hrun hsome hfraction hpower =>
      obtain ⟨zero, rest, rfl, hzero, hrest⟩ := List.map_eq_cons_iff.mp hchars
      obtain ⟨mark, rest, rfl, hmark, hdigits⟩ := List.map_eq_cons_iff.mp hrest
      obtain ⟨digits, tail, rfl, rfl, htail⟩ := List.map_eq_append_iff.mp hdigits
      refine ⟨zero :: mark :: digits, tail, rfl, ?_, fun behind => ?_⟩
      · rw [htail]
        exact .fraction hfraction hpower
      obtain ⟨dot, more, rfl, hdot, -⟩ := List.map_eq_cons_iff.mp htail
      have hradix := ofText_of_hexadecimal hzero hmark (digits ++ (dot :: more ++ behind))
      have hclass : ∀ rune, Radix.hexadecimal.runsOver rune = Grammar.isHexDigit rune.char :=
        fun _ => rfl
      have hstop : startsIn (isInPart .hexadecimal) (dot :: more ++ behind) = false := by
        change isInPart .hexadecimal dot = false
        rw [isInPart, hclass, hdot]
        decide
      obtain ⟨hlength, hhasDigits⟩ :=
        marked_whole hradix (by decide) ((isRun_runsOver_iff hclass).mp hrun) hstop
      exact ⟨hlength, hhasDigits.trans ((exists_runsOver_iff hclass).mp hsome)⟩

/-- No numeral at the front of a text is longer than what the scanner takes, and where a floating-point
number stands the scanner answers with one. -/
theorem length_le_scan {kind : LiteralKind} {front : List Rune}
    (h : Numeral kind (front.map Rune.char)) (behind : List Rune) :
    front.length ≤ (scan (front ++ behind)).length ∧
      (kind = .float → (scan (front ++ behind)).kind = .float) := by
  cases kind with
  | integer =>
      refine ⟨?_, fun hfloat => nomatch hfloat⟩
      exact Nat.le_trans (length_le_integerLength h behind) (integerLength_le_scan _)
  | float =>
      obtain ⟨whole, tail, rfl, htail, hwhole⟩ := exists_whole_of_float h
      obtain ⟨hlength, hsome⟩ := hwhole behind
      have hle := length_le_tailLength htail behind
      have hpos : 0 < tail.length := by
        obtain ⟨mark, more, rfl, -⟩ := exists_tail_mark htail
        exact Nat.succ_pos _
      have hscan := scan_of_whole hlength hsome
      rw [List.append_assoc, hscan, if_neg (by omega), List.length_append]
      exact ⟨Nat.add_le_add_left hle _, fun _ => rfl⟩
  | _ => cases h

end Number

/-- A cursor at a digit moves over the longest numeral that stands there. The scan answers with a
floating-point number if that is one, and with an integer otherwise. -/
theorem Cursor.move_number [XidClasses] (cursor : Cursor)
    (hdigit : startsIn Rune.isDigit cursor.rest = true) :
    let text := cursor.rest.map Rune.char
    let behind := (cursor.move .number).rest.map Rune.char
    let scanned := (Number.scan cursor.rest).kind
    ∃ taken, taken ++ behind = text ∧ (Numeral .integer taken ∨ Numeral .float taken) ∧
      (∀ kind front, front <+: text → Numeral kind front → front.length ≤ taken.length) ∧
      (scanned = .float ↔ Numeral .float taken) ∧ (scanned = .integer ↔ ¬Numeral .float taken) := by
  intro text behind scanned
  let length := (Number.scan cursor.rest).length
  have hnumeral : Numeral scanned ((cursor.rest.take length).map Rune.char) :=
    Number.numeral_scan hdigit
  have hbound : length ≤ cursor.rest.length := by
    obtain ⟨first, rest, hrest, -⟩ := startsIn_iff.mp hdigit
    exact Number.scan_le (by rw [hrest]; exact Nat.succ_pos _)
  have hlongest : ∀ kind front, front <+: text → Numeral kind front →
      front.length ≤ length ∧ (kind = .float → scanned = .float) := by
    rintro kind front ⟨rest, htext⟩ hfront
    obtain ⟨runes, behind, hrunes, rfl, rfl⟩ := List.map_eq_append_iff.mp htext.symm
    have hscan := Number.length_le_scan hfront behind
    rwa [← hrunes, ← List.length_map Rune.char] at hscan
  have htaken : (cursor.rest.take length).map Rune.char <+: text :=
    (List.take_prefix _ _).map _
  have hfloat : scanned = .float ↔ Numeral .float ((cursor.rest.take length).map Rune.char) :=
    ⟨fun hscanned => hscanned ▸ hnumeral, fun h => (hlongest .float _ htaken h).2 rfl⟩
  have hkind : scanned = .integer ∨ scanned = .float := hnumeral.kind_eq
  refine ⟨(cursor.rest.take length).map Rune.char, ?_, ?_, ?_, hfloat, ?_⟩
  · rw [← List.map_append]
    exact congrArg (List.map Rune.char) (List.take_append_drop length cursor.rest)
  · rcases hkind with hinteger | hscanned
    · exact Or.inl (hinteger ▸ hnumeral)
    · exact Or.inr (hscanned ▸ hnumeral)
  · intro kind front hfront h
    rw [List.length_map, List.length_take, Nat.min_eq_left hbound]
    exact (hlongest kind front hfront h).1
  · rw [← hfloat]
    rcases hkind with hinteger | hscanned
    · simp [hinteger]
    · simp [hscanned]

/-- The first `e` is a digit, the second the mark of an exponent that has no digit. -/
theorem Cursor.move_number_hexadecimal :
    let cursor := Cursor.ofSource (Bytes.ofAscii "0x1e.5e+_f")
    startsIn Rune.isDigit cursor.rest = true ∧
      (cursor.move .number).rest.map Rune.char = ['f'] ∧
      Numeral .float ['0', 'x', '1', 'e', '.', '5', 'e', '+', '_'] := by
  intro cursor
  have hdigit : startsIn Rune.isDigit cursor.rest = true := by decide +kernel
  have hbehind : (cursor.move .number).rest.map Rune.char = ['f'] := by decide +kernel
  have hkind : (Number.scan cursor.rest).kind = .float := by decide +kernel
  have hsource : cursor.rest.map Rune.char =
      ['0', 'x', '1', 'e', '.', '5', 'e', '+', '_'] ++ ['f'] := by decide +kernel
  obtain ⟨taken, htaken, -, -, hfloat, -⟩ := cursor.move_number hdigit
  rw [hbehind] at htaken
  obtain rfl := List.append_cancel_right (htaken.trans hsource)
  exact ⟨hdigit, hbehind, hfloat.mp hkind⟩

end RustLexer
