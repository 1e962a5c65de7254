import RustLexer.Proofs.Checker.Offset
import RustLexer.Proofs.Guarded.Escape

/-! # Digits, guarded

Digits are read byte by byte, each byte as a rune of its own. What is passed over is ASCII, where bytes are
runes and are counted like them; and no byte outside ASCII is taken for a digit, at whatever place within a rune
it stands.
-/

namespace RustLexer.Guarded

/-! ## Bytes as runes -/

/-- A byte as a rune of its own. -/
def ofByte (byte : UInt8) : Rune := ⟨Char.ofNat byte.toNat, [byte]⟩

/-- The byte at an offset of a text, as a rune; none at its end. -/
def oneByteAt (text : Bytes) (offset : Nat) : Guarded (Option Rune) :=
  if offset < text.length then do
    let byte ← byteAt text offset
    pure (some (ofByte byte))
  else pure none

/-- Whether the byte at an offset is in a class. -/
def byteIsIn (inClass : Rune → Bool) (text : Bytes) (offset : Nat) : Guarded Bool := do
  let unit ← oneByteAt text offset
  pure (unit.any inClass)

/-- A class that has only ASCII in it. -/
def IsAsciiClass (inClass : Rune → Bool) : Prop :=
  ∀ rune, inClass rune = true → rune.char.toNat < 0x80

/-- A byte and the rune that it stands at the front of: they are the same, or both are outside ASCII. -/
def Starts (unit rune : Rune) : Prop :=
  unit = rune ∨ 0x80 ≤ unit.char.toNat ∧ 0x80 ≤ rune.char.toNat

variable {text : Bytes} {offset : Nat} {rune unit : Rune} {rest : List Rune} {inClass : Rune → Bool}

theorem isAsciiClass_char {char : Char} (h : char.toNat < 0x80) :
    IsAsciiClass fun rune => rune.char == char := by
  intro rune hchar
  rw [eq_of_beq hchar]
  exact h

theorem Starts.eq_of_ascii (h : Starts unit rune) (hascii : rune.char.toNat < 0x80) : unit = rune :=
  h.resolve_right fun hwide => Nat.not_lt.mpr hwide.2 hascii

/-- A class of ASCII does not tell a rune from the byte at its front. -/
theorem Starts.inClass_eq (h : Starts unit rune) (hclass : IsAsciiClass inClass) :
    inClass unit = inClass rune := by
  obtain rfl | ⟨hunit, hrune⟩ := h
  · rfl
  · rw [Bool.eq_false_iff.mpr fun h => Nat.not_lt.mpr hunit (hclass unit h),
      Bool.eq_false_iff.mpr fun h => Nat.not_lt.mpr hrune (hclass rune h)]

theorem toNat_char_ofByte (byte : UInt8) : (ofByte byte).char.toNat = byte.toNat := by
  have hvalid : byte.toNat.isValidChar := Or.inl (Nat.lt_trans byte.toNat_lt (by decide))
  rw [ofByte, Char.ofNat, dif_pos hvalid]
  rfl

theorem starts_first (byte : UInt8) (rest : Bytes) : Starts (ofByte byte) (Rune.first byte rest) := by
  by_cases hbyte : byte < 0x80
  · rw [Rune.first_of_ascii hbyte]
    exact .inl rfl
  · have hbyte := UInt8.not_lt.mp hbyte
    obtain ⟨char, tail, hfirst, hchar, -⟩ := Rune.first_of_nonAscii hbyte rest
    refine .inr ⟨?_, ?_⟩
    · rw [toNat_char_ofByte]
      exact UInt8.le_iff_toNat_le.mp hbyte
    · rw [hfirst]
      exact hchar

theorem oneByteAt_of_nil (h : runes (text.drop offset) = []) : oneByteAt text offset = pure none := by
  rw [runes_drop_eq_nil_iff, ← Nat.not_lt] at h
  exact if_neg h

theorem exists_oneByteAt (h : runes (text.drop offset) = rune :: rest) :
    ∃ unit, oneByteAt text offset = pure (some unit) ∧ Starts unit rune := by
  have hlt := lt_length_of_runes h
  rw [List.drop_eq_getElem_cons hlt, runes_cons] at h
  obtain ⟨rfl, -⟩ := List.cons.inj h
  exact ⟨ofByte text[offset], by rw [oneByteAt, if_pos hlt, byteAt_of_lt hlt, pure_bind], starts_first _ _⟩

theorem oneByteAt_answers (text : Bytes) (offset : Nat) : ∃ unit, oneByteAt text offset = pure unit := by
  cases h : runes (text.drop offset) with
  | nil => exact ⟨none, oneByteAt_of_nil h⟩
  | cons rune rest =>
      obtain ⟨unit, hunit, -⟩ := exists_oneByteAt h
      exact ⟨some unit, hunit⟩

theorem byteIsIn_eq (hclass : IsAsciiClass inClass) (text : Bytes) (offset : Nat) :
    byteIsIn inClass text offset = pure (startsIn inClass (runes (text.drop offset))) := by
  rw [byteIsIn]
  cases h : runes (text.drop offset) with
  | nil =>
      rw [oneByteAt_of_nil h, pure_bind]
      rfl
  | cons rune rest =>
      obtain ⟨unit, hunit, hstarts⟩ := exists_oneByteAt h
      rw [hunit, pure_bind, Option.any_some, hstarts.inClass_eq hclass]
      rfl

/-! ## Offsets behind ASCII -/

/-- Behind an ASCII rune comes the next byte. -/
theorem runes_next_of_ascii (h : runes (text.drop offset) = rune :: rest) (hascii : rune.char.toNat < 0x80) :
    runes (text.drop (offset + 1)) = rest := by
  have hbytes := (decoded_of_mem_runes rune (h ▸ List.mem_cons_self)).bytes_of_ascii hascii
  have hnext := runes_next h
  rwa [hbytes] at hnext

theorem length_sub_succ_lt (h : runes (text.drop offset) = rune :: rest) :
    text.length - (offset + 1) < text.length - offset := by
  have hlt := lt_length_of_runes h
  omega

/-- Over ASCII runes an offset moves by as many bytes. -/
theorem behind_of_ascii {count : Nat} (hle : count ≤ (runes (text.drop offset)).length)
    (h : IsAsciiFront (runes (text.drop offset)) count) : behind text offset count = offset + count := by
  rw [behind, Rune.width_eq_length_encode, h.length_encode_take decoded_of_mem_runes hle]

theorem runes_drop_add {count : Nat} (hle : count ≤ (runes (text.drop offset)).length)
    (h : IsAsciiFront (runes (text.drop offset)) count) :
    runes (text.drop (offset + count)) = (runes (text.drop offset)).drop count := by
  rw [← behind_of_ascii hle h, runes_behind]

theorem add_le_length {count : Nat} (hle : count ≤ (runes (text.drop offset)).length)
    (h : IsAsciiFront (runes (text.drop offset)) count) (hoffset : offset ≤ text.length) :
    offset + count ≤ text.length := by
  rw [← behind_of_ascii hle h]
  exact behind_le hoffset count

/-! ## Runs of digits -/

/-- How far a run of digits and separators has been read: up to an offset, with or without a digit. -/
structure DigitState where
  offset : Nat
  hasDigits : Bool := false

/-- Moves over digits and separators. -/
def passDigits (text : Bytes) (offset : Nat) : Guarded DigitState :=
  loop step (text.length + 1) { offset }
where
  /-- Moves over one of them. -/
  step (state : DigitState) : Guarded (DigitState ⊕ DigitState) := do
    match ← oneByteAt text state.offset with
    | some unit =>
        if Number.isDigitOrSeparator unit then
          pure (.inl { offset := state.offset + 1, hasDigits := state.hasDigits || unit.char != '_' })
        else pure (.inr state)
    | none => pure (.inr state)

/-- Moves over the digits of an integer part and the separators between them, or to the first digit that is too
large. -/
def integerDigits (radix : Radix) (text : Bytes) (offset : Nat) : Guarded (Except Nat DigitState) :=
  loop step (text.length + 1) { offset }
where
  /-- Moves over one of them. -/
  step (state : DigitState) : Guarded (DigitState ⊕ Except Nat DigitState) := do
    match ← oneByteAt text state.offset with
    | some unit =>
        if unit.char = '_' then pure (.inl { state with offset := state.offset + 1 })
        else if !radix.runsOver unit then pure (.inr (.ok state))
        else do
          let value ← digitValue unit.char.val
          if radix.base ≤ value.toNat then pure (.inr (.error state.offset))
          else pure (.inl { offset := state.offset + 1, hasDigits := true })
    | none => pure (.inr (.ok state))

/-- A state behind some more digits. -/
def DigitState.pass (isDigit : Rune → Bool) (state : DigitState) (digits : List Rune) : DigitState where
  offset := state.offset + digits.length
  hasDigits := state.hasDigits || digits.any isDigit

variable {isDigit : Rune → Bool} {radix : Radix} {state : DigitState}

namespace DigitState

@[simp] theorem pass_nil : state.pass isDigit [] = state := by
  simp [pass]

@[simp] theorem pass_cons {digits : List Rune} :
    state.pass isDigit (rune :: digits) =
      pass isDigit { offset := state.offset + 1, hasDigits := state.hasDigits || isDigit rune } digits := by
  simp [pass, Nat.add_assoc, Nat.add_comm 1, Bool.or_assoc]

/-- What an integer part that has been read so far comes to in runes: where it ends, or its first digit that is
too large. -/
def result (radix : Radix) (text : Bytes) (state : DigitState) : Except Nat DigitState :=
  let digits := (runes (text.drop state.offset)).takeWhile (Number.isInPart radix)
  match digits.findIdx? (Number.isOutOfRange radix) with
  | some index => .error (state.offset + index)
  | none => .ok (state.pass radix.runsOver digits)

theorem result_of_end (h : startsIn (Number.isInPart radix) (runes (text.drop state.offset)) = false) :
    state.result radix text = .ok state := by
  rw [result, takeWhile_eq_nil h]
  simp

theorem result_of_outOfRange (h : runes (text.drop state.offset) = rune :: rest)
    (hrange : Number.isOutOfRange radix rune = true) :
    state.result radix text = .error state.offset := by
  have hpart : Number.isInPart radix rune = true :=
    Bool.or_eq_true_iff.mpr (.inl (Bool.and_eq_true_iff.mp hrange).1)
  rw [result, h, List.takeWhile_cons_of_pos hpart, List.findIdx?_cons, if_pos hrange]
  rfl

theorem result_of_cons (h : runes (text.drop state.offset) = rune :: rest)
    (hpart : Number.isInPart radix rune = true) (hrange : Number.isOutOfRange radix rune = false) :
    state.result radix text =
      result radix text
        { offset := state.offset + 1, hasDigits := state.hasDigits || radix.runsOver rune } := by
  have hnext := runes_next_of_ascii h (Number.isAscii_of_isInPart radix hpart)
  rw [result, result, h, hnext, List.takeWhile_cons_of_pos hpart, List.findIdx?_cons, hrange, pass_cons]
  cases (rest.takeWhile (Number.isInPart radix)).findIdx? (Number.isOutOfRange radix) with
  | none => rfl
  | some index => simp [Nat.add_assoc, Nat.add_comm 1]

end DigitState

theorem isAsciiClass_isInPart (radix : Radix) : IsAsciiClass (Number.isInPart radix) :=
  fun _ => Number.isAscii_of_isInPart radix

theorem isAsciiClass_isDigitOrSeparator : IsAsciiClass Number.isDigitOrSeparator :=
  isAsciiClass_isInPart .decimal

theorem runsOver_of_separator (radix : Radix) (h : rune.char = '_') : radix.runsOver rune = false := by
  cases radix <;> simp [Radix.runsOver, Rune.isHexDigit, Rune.isDigit, Rune.code, h] <;> decide

theorem isHexDigit_of_runsOver (h : radix.runsOver rune = true) : rune.isHexDigit = true := by
  unfold Radix.runsOver at h
  split at h
  next => exact h
  next =>
    rw [Rune.isHexDigit, CodePoint.isHexDigit, Bool.or_assoc]
    exact Bool.or_eq_true_iff.mpr (.inl h)

/-- What is passed over and is not a separator is a digit. -/
theorem ne_separator_of_isInPart (h : Number.isInPart radix rune = true) :
    (rune.char != '_') = radix.runsOver rune := by
  by_cases hchar : rune.char = '_'
  · rw [runsOver_of_separator radix hchar, hchar]
    rfl
  · rw [Number.isInPart, beq_false_of_ne hchar, Bool.or_false] at h
    rw [h, bne, beq_false_of_ne hchar, Bool.not_false]

theorem passDigits_nearer (text : Bytes) (state : DigitState) :
    Nearer (passDigits.step text) (fun _ => True) (fun state => text.length - state.offset)
      (fun state =>
        state.pass Rune.isDigit ((runes (text.drop state.offset)).takeWhile Number.isDigitOrSeparator))
      state := by
  cases hrunes : runes (text.drop state.offset) with
  | nil =>
      refine .done ?_
      rw [passDigits.step, oneByteAt_of_nil hrunes, pure_bind, hrunes, List.takeWhile_nil, DigitState.pass_nil]
  | cons rune rest =>
      obtain ⟨unit, hunit, hstarts⟩ := exists_oneByteAt hrunes
      by_cases hdigit : Number.isDigitOrSeparator rune = true
      · have hascii := isAsciiClass_isDigitOrSeparator rune hdigit
        obtain rfl := hstarts.eq_of_ascii hascii
        refine .next { offset := state.offset + 1, hasDigits := state.hasDigits || unit.char != '_' } ?_ trivial
          (length_sub_succ_lt hrunes) ?_
        · rw [passDigits.step, hunit, pure_bind]
          exact if_pos hdigit
        · have hpart : Number.isInPart .decimal unit = true := hdigit
          have hflag : (unit.char != '_') = unit.isDigit := ne_separator_of_isInPart hpart
          rw [hrunes, List.takeWhile_cons_of_pos hdigit, DigitState.pass_cons,
            runes_next_of_ascii hrunes hascii, hflag]
      · refine .done ?_
        rw [passDigits.step, hunit, pure_bind, hrunes, List.takeWhile_cons_of_neg hdigit, DigitState.pass_nil]
        rw [← hstarts.inClass_eq isAsciiClass_isDigitOrSeparator] at hdigit
        exact if_neg hdigit

theorem passDigits_eq (text : Bytes) (offset : Nat) :
    passDigits text offset =
      pure (DigitState.pass Rune.isDigit { offset }
        ((runes (text.drop offset)).takeWhile Number.isDigitOrSeparator)) :=
  loop_through_eq_pure (fun state _ => passDigits_nearer text state) trivial

theorem integerDigits_step_of_digit (hunit : oneByteAt text state.offset = pure (some unit))
    (hdigit : radix.runsOver unit = true) :
    integerDigits.step radix text state =
      if Number.isOutOfRange radix unit then pure (.inr (.error state.offset))
      else pure (.inl { offset := state.offset + 1, hasDigits := true }) := by
  obtain ⟨value, hvalue, hnat, -⟩ := exists_digitValue (isHexDigit_of_runsOver hdigit)
  have hplain : ¬ unit.char = '_' := by
    intro hseparator
    rw [runsOver_of_separator radix hseparator] at hdigit
    cases hdigit
  rw [integerDigits.step, hunit, pure_bind]
  simp only [if_neg hplain, hdigit, Bool.not_true, Bool.false_eq_true, if_false, hvalue, pure_bind, hnat,
    Number.isOutOfRange, Bool.true_and, decide_eq_true_eq]

theorem integerDigits_nearer (radix : Radix) (text : Bytes) (state : DigitState) :
    Nearer (integerDigits.step radix text) (fun _ => True) (fun state => text.length - state.offset)
      (DigitState.result radix text) state := by
  cases hrunes : runes (text.drop state.offset) with
  | nil =>
      have hend : startsIn (Number.isInPart radix) (runes (text.drop state.offset)) = false := by
        rw [hrunes]
        rfl
      refine .done ?_
      rw [integerDigits.step, oneByteAt_of_nil hrunes, pure_bind, DigitState.result_of_end hend]
  | cons rune rest =>
      obtain ⟨unit, hunit, hstarts⟩ := exists_oneByteAt hrunes
      by_cases hpart : Number.isInPart radix rune = true
      · obtain rfl := hstarts.eq_of_ascii (isAsciiClass_isInPart radix rune hpart)
        have hless := length_sub_succ_lt hrunes
        by_cases hseparator : unit.char = '_'
        · have hdigit := runsOver_of_separator radix hseparator
          have hrange : Number.isOutOfRange radix unit = false := by
            rw [Number.isOutOfRange, hdigit, Bool.false_and]
          refine .next { state with offset := state.offset + 1 } ?_ trivial hless ?_
          · rw [integerDigits.step, hunit, pure_bind]
            exact if_pos hseparator
          · rw [DigitState.result_of_cons hrunes hpart hrange, hdigit, Bool.or_false]
        have hdigit : radix.runsOver unit = true := by
          rw [← ne_separator_of_isInPart hpart, bne_iff_ne]
          exact hseparator
        have hstep := integerDigits_step_of_digit hunit hdigit
        cases hrange : Number.isOutOfRange radix unit with
        | true =>
            rw [hrange] at hstep
            refine .done ?_
            rw [hstep, DigitState.result_of_outOfRange hrunes hrange]
            rfl
        | false =>
            rw [hrange] at hstep
            refine .next _ hstep trivial hless ?_
            rw [DigitState.result_of_cons hrunes hpart hrange, hdigit, Bool.or_true]
      · have hend : startsIn (Number.isInPart radix) (runes (text.drop state.offset)) = false := by
          rw [hrunes]
          exact Bool.eq_false_iff.mpr hpart
        rw [← hstarts.inClass_eq (isAsciiClass_isInPart radix), Number.isInPart, Bool.or_eq_true, not_or,
          beq_iff_eq] at hpart
        refine .done ?_
        rw [integerDigits.step, hunit, pure_bind, DigitState.result_of_end hend]
        simp only [if_neg hpart.2, Bool.eq_false_iff.mpr hpart.1, Bool.not_false, if_true]

theorem integerDigits_eq (radix : Radix) (text : Bytes) (offset : Nat) :
    integerDigits radix text offset = pure (DigitState.result radix text { offset }) :=
  loop_through_eq_pure (fun state _ => integerDigits_nearer radix text state) trivial

end RustLexer.Guarded
