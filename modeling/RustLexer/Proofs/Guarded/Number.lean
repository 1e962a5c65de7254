import RustLexer.Proofs.Guarded.Digits

/-! # Numbers, guarded

A number is its digits, a fraction and an exponent, each of which may be missing, and the rest of its text is
the suffix, which is cut from where they end (`Guarded.numberFault?_eq`).
-/

namespace RustLexer.Guarded

variable {text : Bytes} {offset : Nat} {rest : List Rune}

/-! ## Radices -/

/-- The radix that a number is written in. -/
def radixOf (text : Bytes) : Guarded Radix := do
  match ← oneByteAt text 0, ← oneByteAt text 1 with
  | some zero, some mark => pure (if zero.char = '0' then .ofMark mark else .decimal)
  | _, _ => pure .decimal

theorem ofMark_of_nonAscii {mark : Rune} (h : 0x80 ≤ mark.char.toNat) : Radix.ofMark mark = .decimal := by
  have hne {char : Char} (hchar : char.toNat < 0x80) : mark.char ≠ char := by
    rintro rfl
    exact absurd hchar (Nat.not_lt.mpr h)
  rw [Radix.ofMark, if_neg (hne (by decide)), if_neg (hne (by decide)), if_neg (hne (by decide))]

theorem Starts.ofMark_eq {unit mark : Rune} (h : Starts unit mark) :
    Radix.ofMark unit = Radix.ofMark mark := by
  obtain rfl | ⟨hunit, hmark⟩ := h
  · rfl
  · rw [ofMark_of_nonAscii hunit, ofMark_of_nonAscii hmark]

theorem radixOf_eq (text : Bytes) : radixOf text = pure (Radix.ofText (runes text)) := by
  obtain ⟨second, hsecond⟩ := oneByteAt_answers text 1
  cases hrunes : runes text with
  | nil =>
      have hend : runes (text.drop 0) = [] := hrunes
      rw [radixOf, oneByteAt_of_nil hend, pure_bind, hsecond, pure_bind]
      rfl
  | cons zero rest =>
      have hstart : runes (text.drop 0) = zero :: rest := hrunes
      obtain ⟨unit, hunit, hstarts⟩ := exists_oneByteAt hstart
      rw [radixOf, hunit, pure_bind]
      by_cases hzero : zero.char = '0'
      · have hascii : zero.char.toNat < 0x80 := by
          rw [hzero]
          decide
        obtain rfl := hstarts.eq_of_ascii hascii
        have hnext := runes_next_of_ascii hstart hascii
        cases rest with
        | nil =>
            rw [oneByteAt_of_nil hnext, pure_bind]
            rfl
        | cons mark rest =>
            obtain ⟨unit, hunit, hstarts⟩ := exists_oneByteAt hnext
            rw [hunit, pure_bind, Radix.ofText]
            simp only [if_pos hzero, hstarts.ofMark_eq]
      · have hclass : IsAsciiClass fun rune => rune.char == '0' := isAsciiClass_char (by decide)
        have hplain : ¬ unit.char = '0' := by
          rw [← beq_iff_eq, hstarts.inClass_eq hclass, beq_iff_eq]
          exact hzero
        have hdecimal : Radix.ofText (zero :: rest) = .decimal := by
          cases rest with
          | nil => rfl
          | cons mark rest => exact if_neg hzero
        rw [hsecond, pure_bind, hdecimal]
        cases second with
        | none => rfl
        | some mark => exact congrArg pure (if_neg hplain)

/-! ## Suffixes and exponents -/

/-- The fault in the suffix at an offset. -/
def suffixFault? (isFloat : Bool) (radix : Radix) (text : Bytes) (offset : Nat) : Guarded (Option Fault) := do
  let suffix ← cutFrom text offset
  if suffix.isEmpty || Number.acceptsSuffix isFloat radix suffix then pure none
  else pure (some { cause := .numberSuffix isFloat suffix, offset })

/-- Moves over the sign and the digits of an exponent. -/
def passExponent (text : Bytes) (offset : Nat) : Guarded DigitState := do
  if ← byteIsIn Number.isSign text offset then passDigits text (offset + 1) else passDigits text offset

/-- The fault in the exponent and the suffix at an offset. -/
def exponentFault? (text : Bytes) (offset : Nat) : Guarded (Option Fault) := do
  if ← byteIsIn Number.isExponentMark text offset then do
    let digits ← passExponent text (offset + 1)
    if digits.hasDigits then suffixFault? true .decimal text digits.offset
    else pure (some { cause := .noExponentDigits, offset })
  else suffixFault? true .decimal text offset

/-- The fault in the fraction, the exponent and the suffix at an offset. -/
def floatFault? (text : Bytes) (offset : Nat) : Guarded (Option Fault) := do
  if ← byteIsIn (fun rune => rune.char == '.') text offset then do
    let digits ← passDigits text (offset + 1)
    exponentFault? text digits.offset
  else exponentFault? text offset

/-- The fault in a number. -/
def numberFault? (isFloat : Bool) (text : Bytes) : Guarded (Option Fault) := do
  let radix ← radixOf text
  match ← integerDigits radix text (if radix = .decimal then 0 else 2) with
  | .error offset => pure (some { cause := .digitOutOfRange radix, offset })
  | .ok digits =>
      if radix ≠ .decimal ∧ !digits.hasDigits then pure (some { cause := .noDigits })
      else if !isFloat then suffixFault? false radix text digits.offset
      else if radix ≠ .decimal then pure (some { cause := .floatRadix radix })
      else floatFault? text digits.offset

theorem suffixFault?_eq (isFloat : Bool) (radix : Radix) (h : offset ≤ text.length) :
    suffixFault? isFloat radix text offset =
      pure (Number.suffixFault? isFloat radix offset (runes (text.drop offset))) := by
  have hempty : (text.drop offset).isEmpty = (runes (text.drop offset)).isEmpty := by
    rw [Bool.eq_iff_iff, List.isEmpty_iff, List.isEmpty_iff, runes_drop_eq_nil_iff, List.drop_eq_nil_iff]
  rw [suffixFault?, cutFrom_of_le h, pure_bind, Number.suffixFault?, encode_runes, hempty]
  split <;> rfl

theorem isAsciiClass_isSign : IsAsciiClass Number.isSign := by
  intro rune hsign
  rw [Number.isSign, Bool.or_eq_true, beq_iff_eq, beq_iff_eq] at hsign
  rcases hsign with hchar | hchar <;> rw [hchar] <;> decide

theorem isAsciiClass_isExponentMark : IsAsciiClass Number.isExponentMark := by
  intro rune hmark
  rw [Number.isExponentMark, Bool.or_eq_true, beq_iff_eq, beq_iff_eq] at hmark
  rcases hmark with hchar | hchar <;> rw [hchar] <;> decide

theorem passExponent_eq (h : runes (text.drop offset) = rest) :
    passExponent text offset =
      pure (DigitState.pass Rune.isDigit { offset := offset + Number.signLength rest }
        ((rest.drop (Number.signLength rest)).takeWhile Number.isDigitOrSeparator)) := by
  rw [passExponent, byteIsIn_eq isAsciiClass_isSign, pure_bind, h, Number.signLength]
  split
  next hstart =>
    obtain ⟨sign, digits, rfl, hsign⟩ := startsIn_iff.mp hstart
    rw [passDigits_eq, runes_next_of_ascii h (isAsciiClass_isSign sign hsign)]
    rfl
  next =>
    rw [passDigits_eq, h]
    rfl

theorem exponentFault?_eq (h : offset ≤ text.length) :
    exponentFault? text offset = pure (Number.exponentFault? offset (runes (text.drop offset))) := by
  rw [exponentFault?, byteIsIn_eq isAsciiClass_isExponentMark, pure_bind, Number.exponentFault?]
  split
  next hstart =>
    have hfront := Number.isAsciiFront_exponent hstart
    obtain ⟨mark, more, hrunes, hmark⟩ := startsIn_iff.mp hstart
    have hmore := runes_next_of_ascii hrunes (isAsciiClass_isExponentMark mark hmark)
    have hdrop : (mark :: more).drop (1 + Number.signLength more) = more.drop (Number.signLength more) := by
      rw [Nat.add_comm, List.drop_succ_cons]
    have hsign := Number.signLength_le more
    have hdigits := runLength_le Number.isDigitOrSeparator (more.drop (Number.signLength more))
    simp only [hrunes, List.drop_one, List.tail_cons, hdrop] at hfront ⊢
    rw [passExponent_eq hmore, pure_bind]
    rw [runLength, List.length_drop] at hdigits
    generalize (more.drop (Number.signLength more)).takeWhile Number.isDigitOrSeparator = digits
      at hfront hdigits ⊢
    generalize Number.signLength more = sign at hsign hfront hdigits ⊢
    -- The mark, the sign and the digits are ASCII, so the suffix starts as many bytes behind.
    have hcount : 1 + sign + digits.length ≤ (runes (text.drop offset)).length := by
      rw [hrunes, List.length_cons]
      omega
    rw [← hrunes] at hfront ⊢
    have hstop : offset + 1 + sign + digits.length = offset + (1 + sign + digits.length) := by omega
    simp only [DigitState.pass, Bool.false_or, hstop]
    split
    next => rw [suffixFault?_eq true .decimal (add_le_length hcount hfront h), runes_drop_add hcount hfront]
    next => rfl
  next => exact suffixFault?_eq true .decimal h

theorem floatFault?_eq (h : offset ≤ text.length) :
    floatFault? text offset = pure (Number.floatFault? offset (runes (text.drop offset))) := by
  have hclass : IsAsciiClass fun rune => rune.char == '.' := isAsciiClass_char (by decide)
  rw [floatFault?, byteIsIn_eq hclass, pure_bind]
  split
  next hstart =>
    obtain ⟨dot, more, hrunes, hdot⟩ := startsIn_iff.mp hstart
    have hmore := runes_next_of_ascii hrunes (hclass dot hdot)
    obtain ⟨run, behind, rfl, hrun, hbehind⟩ := exists_run Number.isDigitOrSeparator more
    have hcount : run.length ≤ (runes (text.drop (offset + 1))).length := by
      rw [hmore, List.length_append]
      exact Nat.le_add_right _ _
    have hfront : IsAsciiFront (runes (text.drop (offset + 1))) run.length := by
      rw [IsAsciiFront, hmore, List.take_left]
      exact fun rune hrune => isAsciiClass_isDigitOrSeparator rune (hrun rune hrune)
    have hrest := runes_drop_add hcount hfront
    rw [hmore, List.drop_left] at hrest
    have hle := add_le_length hcount hfront (Nat.succ_le_of_lt (lt_length_of_runes hrunes))
    rw [passDigits_eq, pure_bind, hmore, takeWhile_append_eq_left hrun hbehind, hrunes,
      Number.floatFault?_of_dot (eq_of_beq hdot) hrun hbehind, ← Nat.add_assoc, ← hrest]
    exact exponentFault?_eq hle
  next hstart =>
    have hplain : startsWith (runes (text.drop offset)) ['.'] = false := by
      rw [← Bool.not_eq_true, startsWith_cons_iff]
      rintro ⟨dot, more, hrunes, hdot, -⟩
      exact hstart (startsIn_iff.mpr ⟨dot, more, hrunes, beq_iff_eq.mpr hdot⟩)
    rw [exponentFault?_eq h, Number.floatFault?_of_not_dot hplain]

/-- A number with a radix mark has the runes of the mark. -/
theorem mark_le_length (text : List Rune) :
    (if Radix.ofText text = .decimal then 0 else 2) ≤ text.length := by
  split
  next => exact Nat.zero_le _
  next hmarked => exact Radix.two_le_of_marked hmarked

theorem numberFault?_eq (isFloat : Bool) (text : Bytes) :
    numberFault? isFloat text = pure (Number.fault? isFloat (runes text)) := by
  have hmark := mark_le_length (runes (text.drop 0))
  have hascii := Number.isAsciiFront_mark (runes (text.drop 0))
  have hle := add_le_length hmark hascii (Nat.zero_le _)
  have hrunes := runes_drop_add hmark hascii
  rw [List.drop_zero, Nat.zero_add] at hle hrunes
  rw [numberFault?, radixOf_eq, pure_bind, integerDigits_eq, pure_bind, Number.fault?, DigitState.result]
  generalize Radix.ofText (runes text) = radix at hle hrunes ⊢
  generalize (if radix = .decimal then 0 else 2) = mark at hle hrunes ⊢
  have hclass : (fun rune => radix.runsOver rune || rune.char == '_') = Number.isInPart radix := rfl
  have hrun := runLength_le (Number.isInPart radix) (runes (text.drop mark))
  have hfront := IsAsciiFront.run (isAsciiClass_isInPart radix) (runes (text.drop mark))
  have hstop := add_le_length hrun hfront hle
  have hrest := runes_drop_add hrun hfront
  simp only [runLength, hrunes, hclass, List.drop_drop] at hstop hrest ⊢
  generalize ((runes text).drop mark).takeWhile (Number.isInPart radix) = digits at hstop hrest ⊢
  cases digits.findIdx? (Number.isOutOfRange radix) with
  | some index => rfl
  | none =>
      simp only [DigitState.pass, Bool.false_or, floatFault?_eq hstop, suffixFault?_eq _ _ hstop, hrest]
      split_ifs <;> rfl

end RustLexer.Guarded
