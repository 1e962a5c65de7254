import RustLexer.Checker.Escape
import RustLexer.Proofs.Guarded.Reading

/-! # Escapes, guarded

Escapes are read at offsets, and their values are 32-bit words. Two hexadecimal digits fit a word, and a code
point has no more than six, so no value leaves its range, and an escape is read as far as it is in runes, also
where the text ends within it (`Guarded.escape_eq`).
-/

namespace RustLexer.Guarded

/-! ## Digits -/

/-- The value of a hexadecimal digit: how far it is from the first of its kind. A letter is read in lower
case. -/
def digitValue (code : UInt32) : Guarded UInt32 :=
  if code ≤ 0x39 then do
    let value ← minus code.toNat 0x30
    word value
  else do
    let letter ← minus (code ||| 0x20).toNat 0x61
    word (letter + 10)

/-- A value with one more hexadecimal digit behind it. -/
def appendDigit (value : UInt32) (digit : Rune) : Guarded UInt32 := do
  let shifted ← word (value.toNat * 16)
  let last ← digitValue digit.char.val
  word (shifted.toNat + last.toNat)

theorem digitValue_lt {code : Nat} (h : CodePoint.isHexDigit code = true) :
    CodePoint.digitValue code < 16 := by
  simp only [CodePoint.isHexDigit, CodePoint.isDigit, Bool.or_eq_true, Bool.and_eq_true, decide_eq_true_eq] at h
  unfold CodePoint.digitValue
  split
  next => omega
  next => split <;> omega

theorem digitValue_of_letter : ∀ code < 0x67, CodePoint.isHexDigit code = true → ¬ code ≤ 0x39 →
    0x61 ≤ code ||| 0x20 ∧ (code ||| 0x20) - 0x61 + 10 = CodePoint.digitValue code := by
  decide

theorem digitValue_eq {code : UInt32} (h : CodePoint.isHexDigit code.toNat = true) :
    digitValue code = word (CodePoint.digitValue code.toNat) := by
  have hbound : 0x30 ≤ code.toNat ∧ code.toNat < 0x67 := by
    simp only [CodePoint.isHexDigit, CodePoint.isDigit, Bool.or_eq_true, Bool.and_eq_true,
      decide_eq_true_eq] at h
    omega
  unfold digitValue
  split
  next hdigit =>
    have hvalue : CodePoint.digitValue code.toNat = code.toNat - 0x30 := if_pos hdigit
    rw [minus_of_le hbound.1, pure_bind, ← hvalue]
  next hletter =>
    obtain ⟨hle, hvalue⟩ := digitValue_of_letter code.toNat hbound.2 h hletter
    have hlower : (code ||| 0x20).toNat = code.toNat ||| 0x20 := UInt32.toNat_or _ _
    rw [hlower, minus_of_le hle, pure_bind, hvalue]

/-- The value of a digit fits a word. -/
theorem exists_digitValue {digit : Rune} (h : digit.isHexDigit = true) :
    ∃ value, digitValue digit.char.val = pure value ∧ value.toNat = CodePoint.digitValue digit.code ∧
      value.toNat < 16 := by
  have hlt : CodePoint.digitValue digit.code < 16 := digitValue_lt h
  have hsize := Nat.lt_trans hlt (show 16 < UInt32.size by decide)
  have hvalue : digitValue digit.char.val = word (CodePoint.digitValue digit.code) := digitValue_eq h
  refine ⟨UInt32.ofNat (CodePoint.digitValue digit.code), ?_, toNat_ofNat_of_lt hsize, ?_⟩
  · rw [hvalue, word_of_lt hsize]
  · rw [toNat_ofNat_of_lt hsize]
    exact hlt

/-- Where there is room for one more digit, it can be put behind a value. -/
theorem exists_appendDigit {value : UInt32} {digit : Rune} (hdigit : digit.isHexDigit = true)
    (hroom : (value.toNat + 1) * 16 ≤ UInt32.size) :
    ∃ longer, appendDigit value digit = pure longer ∧
      longer.toNat = value.toNat * 16 + CodePoint.digitValue digit.code := by
  obtain ⟨last, hlast, hvalue, hlt⟩ := exists_digitValue hdigit
  have hshifted : value.toNat * 16 < UInt32.size := by omega
  have hlonger : value.toNat * 16 + last.toNat < UInt32.size := by omega
  refine ⟨UInt32.ofNat (value.toNat * 16 + last.toNat), ?_, ?_⟩
  · rw [appendDigit, word_of_lt hshifted, pure_bind, hlast, pure_bind, toNat_ofNat_of_lt hshifted,
      word_of_lt hlonger]
  · rw [toNat_ofNat_of_lt hlonger, hvalue]

/-! ## Bytes -/

/-- The value of two hexadecimal digits. -/
def byteValue (high low : Rune) : Guarded UInt32 := do
  let first ← digitValue high.char.val
  appendDigit first low

/-- Reads the escape of a byte from behind its `x`. -/
def hexEscape (literal : LiteralKind) (text : Bytes) (offset : Nat) : Guarded (Except EscapeFault Nat) := do
  let high ← runeAhead text offset 0
  let low ← runeAhead text offset 1
  match high, low with
  | some high, some low =>
      if high.isHexDigit && low.isHexDigit then do
        let (_, offset) ← read text offset
        let (_, offset) ← read text offset
        let value ← byteValue high low
        if !literal.isByte && 0x7F < value.toNat then pure (.error .hexOutOfRange) else pure (.ok offset)
      else pure (.error .shortHex)
  | _, _ => pure (.error .shortHex)

theorem exists_byteValue {high low : Rune} (hhigh : high.isHexDigit = true)
    (hlow : low.isHexDigit = true) : ∃ value, byteValue high low = pure value ∧
      value.toNat = CodePoint.digitValue high.code * 16 + CodePoint.digitValue low.code := by
  obtain ⟨first, hfirst, hvalue, hlt⟩ := exists_digitValue hhigh
  have hroom : (first.toNat + 1) * 16 ≤ UInt32.size := by
    have : 16 * 16 ≤ UInt32.size := by decide
    omega
  obtain ⟨value, happend, htotal⟩ := exists_appendDigit hlow hroom
  exact ⟨value, by rw [byteValue, hfirst, pure_bind, happend], by rw [htotal, hvalue]⟩

theorem hexEscape_eq (literal : LiteralKind) (text : Bytes) (offset : Nat) :
    hexEscape literal text offset =
      pure ((Escape.hexLength literal (runes (text.drop offset))).map (behind text offset)) := by
  rw [hexEscape, runeAhead_eq, pure_bind, runeAhead_eq, pure_bind]
  rcases hrunes : runes (text.drop offset) with _ | ⟨high, _ | ⟨low, more⟩⟩
  · rfl
  · rfl
  have hnext := runes_next hrunes
  have htwo : behind text offset 2 = offset + high.bytes.length + low.bytes.length := by
    rw [behind_succ hrunes, behind_one hnext]
  simp only [List.getElem?_cons_zero, List.getElem?_cons_succ, Escape.hexLength]
  by_cases hdigits : (high.isHexDigit && low.isHexDigit) = true
  · obtain ⟨hhigh, hlow⟩ := Bool.and_eq_true_iff.mp hdigits
    obtain ⟨value, hvalue, hnat⟩ := exists_byteValue hhigh hlow
    rw [if_pos hdigits, if_pos hdigits, read_of_cons hrunes, pure_bind]
    simp only
    rw [read_of_cons hnext, pure_bind, hvalue, pure_bind, hnat]
    split
    · rfl
    · rw [Except.map, htwo]
  · rw [if_neg hdigits, if_neg hdigits]
    rfl

/-! ## Code points -/

/-- How far a code point has been read: up to an offset, with so many digits of a value. -/
structure CodePointState where
  offset : Nat
  digits : Nat := 0
  value : UInt32 := 0

/-- Reads a code point from behind its opening brace. -/
def codePoint (text : Bytes) (offset : Nat) : Guarded (Except EscapeFault Nat) :=
  loop step (text.length + 1) { offset }
where
  /-- Reads the brace that closes it, a separator or a digit. -/
  step (state : CodePointState) : Guarded (CodePointState ⊕ Except EscapeFault Nat) := do
    match ← read text state.offset with
    | (none, _) => pure (.inr (.error .unterminated))
    | (some rune, behind) =>
        if rune.char = '}' then
          pure (.inr ((Escape.checkScalar state.digits state.value.toNat).map fun _ => behind))
        else if rune.char = '_' ∧ 0 < state.digits then pure (.inl { state with offset := behind })
        else if !rune.isHexDigit then pure (.inr (.error .unterminated))
        else if 6 < state.digits + 1 then pure (.inr (.error .tooManyDigits))
        else do
          let value ← appendDigit state.value rune
          pure (.inl { offset := behind, digits := state.digits + 1, value })

theorem map_map {ε α β γ : Type} (result : Except ε α) (f : α → β) (g : β → γ) :
    (result.map f).map g = result.map fun a => g (f a) := by
  cases result <;> rfl

/-- The runes that were passed before are only counted along. -/
theorem codePointLength_go (passed digits value : Nat) (text : List Rune) :
    Escape.codePointLength.go passed digits value text =
      (Escape.codePointLength.go 0 digits value text).map (passed + ·) := by
  induction text generalizing passed digits value with
  | nil => rfl
  | cons rune rest ih =>
      have hnext (digits value : Nat) : Escape.codePointLength.go (passed + 1) digits value rest =
          (Escape.codePointLength.go (0 + 1) digits value rest).map (passed + ·) := by
        rw [ih (passed + 1), ih (0 + 1), map_map]
        simp only [Nat.zero_add, Nat.add_assoc]
      rw [Escape.codePointLength.go, Escape.codePointLength.go]
      simp only [hnext, apply_ite (Except.map (passed + ·)), map_map, Nat.zero_add]
      rfl

namespace CodePointState

/-- So many digits stand for a value below that power of their base, and six of them fit a word. -/
structure Fits (state : CodePointState) : Prop where
  digits_le : state.digits ≤ 6
  value_lt : state.value.toNat < Nat.pow 16 state.digits

/-- What a code point that has been read so far comes to in runes. -/
def result (text : Bytes) (state : CodePointState) : Except EscapeFault Nat :=
  (Escape.codePointLength.go 0 state.digits state.value.toNat (runes (text.drop state.offset))).map
    (behind text state.offset)

variable {text : Bytes} {state : CodePointState} {rune : Rune} {rest : List Rune}

theorem Fits.room (h : state.Fits) (hdigits : state.digits ≠ 6) :
    (state.value.toNat + 1) * 16 ≤ UInt32.size := by
  have hpower : Nat.pow 16 state.digits ≤ Nat.pow 16 5 :=
    Nat.pow_le_pow_right (by decide) (by have := h.digits_le; omega)
  have hsize : Nat.pow 16 5 * 16 ≤ UInt32.size := by decide
  have hvalue := h.value_lt
  omega

/-- A state with one more digit fits too. -/
theorem Fits.append (h : state.Fits) (hdigits : state.digits ≠ 6) {digit offset : Nat} {value : UInt32}
    (hdigit : digit < 16) (hvalue : value.toNat = state.value.toNat * 16 + digit) :
    Fits { offset, digits := state.digits + 1, value } where
  digits_le := by
    have := h.digits_le
    simp only
    omega
  value_lt := by
    have hpower : Nat.pow 16 (state.digits + 1) = Nat.pow 16 state.digits * 16 := rfl
    have := h.value_lt
    simp only [hpower, hvalue]
    omega

theorem result_of_cons (h : runes (text.drop state.offset) = rune :: rest) :
    state.result text =
      if rune.char = '}' then
        (Escape.checkScalar state.digits state.value.toNat).map fun _ => state.offset + rune.bytes.length
      else if rune.char = '_' ∧ 0 < state.digits then
        result text { state with offset := state.offset + rune.bytes.length }
      else if !rune.isHexDigit then .error .unterminated
      else if state.digits = 6 then .error .tooManyDigits
      else
        (Escape.codePointLength.go 0 (state.digits + 1)
          (state.value.toNat * 16 + CodePoint.digitValue rune.code) rest).map
            (behind text (state.offset + rune.bytes.length)) := by
  have hpassed (digits value : Nat) :
      (Escape.codePointLength.go 1 digits value rest).map (behind text state.offset) =
        (Escape.codePointLength.go 0 digits value rest).map
          (behind text (state.offset + rune.bytes.length)) := by
    rw [codePointLength_go, map_map]
    simp only [behind_one_add h]
  rw [result, h, Escape.codePointLength.go]
  simp only [apply_ite (Except.map (behind text state.offset)), map_map, Nat.zero_add, behind_one h,
    hpassed, result, runes_next h]
  rfl

end CodePointState

variable {text : Bytes} {state : CodePointState}

theorem codePoint_nearer (h : state.Fits) :
    Nearer (codePoint.step text) CodePointState.Fits (fun state => text.length - state.offset)
      (CodePointState.result text) state := by
  cases hrunes : runes (text.drop state.offset) with
  | nil =>
      refine .done ?_
      rw [codePoint.step, read_of_nil hrunes, pure_bind, CodePointState.result, hrunes]
      rfl
  | cons rune rest =>
      have hresult := CodePointState.result_of_cons hrunes
      have hless := length_sub_lt hrunes
      by_cases hclose : rune.char = '}'
      · rw [if_pos hclose] at hresult
        refine .done ?_
        rw [codePoint.step, read_of_cons hrunes, pure_bind, hresult]
        exact if_pos hclose
      rw [if_neg hclose] at hresult
      by_cases hseparator : rune.char = '_' ∧ 0 < state.digits
      · rw [if_pos hseparator] at hresult
        refine .next { state with offset := state.offset + rune.bytes.length } ?_ ⟨h.1, h.2⟩ hless
          hresult.symm
        rw [codePoint.step, read_of_cons hrunes, pure_bind]
        simp only [if_neg hclose, if_pos hseparator]
      rw [if_neg hseparator] at hresult
      by_cases hdigit : (!rune.isHexDigit) = true
      · rw [if_pos hdigit] at hresult
        refine .done ?_
        rw [codePoint.step, read_of_cons hrunes, pure_bind, hresult]
        simp only [if_neg hclose, if_neg hseparator, if_pos hdigit]
      rw [if_neg hdigit] at hresult
      have hlimit : 6 < state.digits + 1 ↔ state.digits = 6 := by
        have := h.digits_le
        omega
      by_cases hsix : state.digits = 6
      · rw [if_pos hsix] at hresult
        refine .done ?_
        rw [codePoint.step, read_of_cons hrunes, pure_bind, hresult]
        simp only [if_neg hclose, if_neg hseparator, if_neg hdigit, if_pos (hlimit.mpr hsix)]
      rw [if_neg hsix] at hresult
      have hhex : rune.isHexDigit = true := by simpa using hdigit
      obtain ⟨value, happend, hvalue⟩ := exists_appendDigit hhex (h.room hsix)
      refine .next { offset := state.offset + rune.bytes.length, digits := state.digits + 1, value } ?_
        (h.append hsix (digitValue_lt hhex) hvalue) hless ?_
      · rw [codePoint.step, read_of_cons hrunes, pure_bind]
        simp only [if_neg hclose, if_neg hseparator, if_neg hdigit, if_neg (mt hlimit.mp hsix), happend,
          pure_bind]
      · rw [hresult, CodePointState.result, runes_next hrunes, hvalue]

theorem codePoint_eq (text : Bytes) (offset : Nat) :
    codePoint text offset =
      pure ((Escape.codePointLength (runes (text.drop offset))).map (behind text offset)) :=
  loop_through_eq_pure (fun _ h => codePoint_nearer h) ⟨Nat.zero_le _, Nat.one_pos⟩

/-- Reads the escape of a code point from behind its `u`. -/
def unicodeEscape (literal : LiteralKind) (text : Bytes) (offset : Nat) :
    Guarded (Except EscapeFault Nat) := do
  if literal.isByte then pure (.error .unicodeInByte)
  else if ← isAt text offset '{' then do
    let (_, behind) ← read text offset
    codePoint text behind
  else pure (.error .missingBrace)

theorem unicodeEscape_eq (literal : LiteralKind) (text : Bytes) (offset : Nat) :
    unicodeEscape literal text offset =
      pure ((Escape.unicodeLength literal (runes (text.drop offset))).map (behind text offset)) := by
  rw [unicodeEscape, Escape.unicodeLength]
  split
  next => rfl
  next =>
    rw [isAt_eq, pure_bind]
    split
    next hbrace =>
      obtain ⟨brace, rest, hrunes, -⟩ := startsWith_cons_iff.mp hbrace
      rw [read_of_cons hrunes, pure_bind]
      simp only
      rw [codePoint_eq, runes_next hrunes, hrunes, List.drop_one, List.tail_cons, map_map]
      simp only [behind_one_add hrunes]
    next => rfl

/-! ## Escapes -/

/-- What is read behind a backslash at `start` and is no escape. -/
def unknownEscape (text : Bytes) (start behind : Nat) : Guarded (Except EscapeFault Nat) := do
  let escaped ← cut text (start + 1) behind
  pure (.error (.unknown escaped))

/-- Reads an escape from behind its backslash, which is at `start`. -/
def escape (literal : LiteralKind) (text : Bytes) (start offset : Nat) :
    Guarded (Except EscapeFault Nat) := do
  match ← read text offset with
  | (none, behind) => unknownEscape text start behind
  | (some rune, behind) =>
      if Escape.isSimple rune.char then pure (.ok behind)
      else if rune.char = 'x' then hexEscape literal text behind
      else if rune.char = 'u' then unicodeEscape literal text behind
      else if rune.char = '\r' then do
        if literal.isSingle || !(← isAt text behind '\n') then unknownEscape text start behind
        else do
          let (_, behind) ← read text behind
          let behind ← passRun Rune.isWhitespace text behind
          pure (.ok behind)
      else if rune.char = '\n' then do
        if literal.isSingle then unknownEscape text start behind
        else do
          let behind ← passRun Rune.isWhitespace text behind
          pure (.ok behind)
      else unknownEscape text start behind

variable {start : Nat}

theorem unknownEscape_of_nil (h : start < text.length) :
    unknownEscape text start (start + 1) = pure (.error (.unknown [])) := by
  rw [unknownEscape, cut_of_le (Nat.le_refl _) h, pure_bind, Nat.sub_self, List.take_zero]

theorem unknownEscape_of_cons {rune : Rune} {rest : List Rune}
    (h : runes (text.drop (start + 1)) = rune :: rest) :
    unknownEscape text start (start + 1 + rune.bytes.length) = pure (.error (.unknown rune.bytes)) := by
  have hfront : runes (text.drop (start + 1)) = [rune] ++ rest := h
  have hbytes := eq_encode_append_of_runes hfront
  rw [Rune.encode_cons, Rune.encode_nil, List.append_nil] at hbytes
  rw [unknownEscape, cut_of_le (Nat.le_add_right _ _) (Nat.le_of_lt (lt_length_of_runes h)), pure_bind,
    Nat.add_sub_cancel_left, hbytes, List.take_left]

/-- What is read behind a carriage return: a line feed and the whitespace behind it, in a literal that lines can
be continued in. -/
theorem escape_of_return {literal : LiteralKind} {rune : Rune} {rest : List Rune}
    (h : runes (text.drop (start + 1)) = rune :: rest) (hreturn : rune.char = '\r') :
    escape literal text start (start + 1) =
      pure ((Escape.length literal (rune :: rest)).map (behind text (start + 1))) := by
  have hnext := runes_next h
  rw [escape, read_of_cons h, pure_bind, Escape.length]
  simp only [hreturn, isAt_eq, hnext, pure_bind, unknownEscape_of_cons h]
  cases literal.isSingle with
  | true => rfl
  | false =>
      cases hfeed : startsWith rest ['\n'] with
      | false => rfl
      | true =>
          obtain ⟨feed, blanks, rfl, -⟩ := startsWith_cons_iff.mp hfeed
          have hblanks := runes_next hnext
          have htwo (count : Nat) : behind text (start + 1) (2 + count) =
              behind text (start + 1 + rune.bytes.length + feed.bytes.length) count := by
            rw [← behind_one_add hnext, ← behind_one_add h, ← Nat.add_assoc]
          rw [read_of_cons hnext]
          simp [Escape.isSimple, passRun_eq, hblanks, Except.map, htwo]

theorem escape_eq (literal : LiteralKind) (hstart : start < text.length) :
    escape literal text start (start + 1) =
      pure ((Escape.length literal (runes (text.drop (start + 1)))).map (behind text (start + 1))) := by
  cases hrunes : runes (text.drop (start + 1)) with
  | nil =>
      rw [escape, read_of_nil hrunes, pure_bind]
      exact unknownEscape_of_nil hstart
  | cons rune rest =>
      have hnext := runes_next hrunes
      have hshift (result : Except EscapeFault Nat) :
          (result.map (1 + ·)).map (behind text (start + 1)) =
            result.map (behind text (start + 1 + rune.bytes.length)) := by
        rw [map_map]
        simp only [behind_one_add hrunes]
      -- Only behind a carriage return the next rune matters too.
      by_cases hreturn : rune.char = '\r'
      · exact escape_of_return hrunes hreturn
      rw [escape, read_of_cons hrunes, pure_bind, Escape.length]
      simp only [hexEscape_eq, unicodeEscape_eq, passRun_eq, unknownEscape_of_cons hrunes, pure_bind, hnext]
      by_cases hsimple : Escape.isSimple rune.char = true
      · rw [if_pos hsimple, if_pos hsimple, Except.map, behind_one hrunes]
      rw [if_neg hsimple, if_neg hsimple]
      by_cases hx : rune.char = 'x'
      · rw [if_pos hx, if_pos hx, hshift]
      rw [if_neg hx, if_neg hx]
      by_cases hu : rune.char = 'u'
      · rw [if_pos hu, if_pos hu, hshift]
      rw [if_neg hu, if_neg hu, if_neg hreturn]
      by_cases hsingle : literal.isSingle = true
      · rw [if_pos hsingle, if_pos hsingle, ite_self]
        rfl
      have hbroken : ¬ (rune.char = '\r' ∧ startsWith rest ['\n'] = true) := fun h => hreturn h.1
      rw [if_neg hsingle, if_neg hsingle, if_neg hbroken]
      by_cases hfeed : rune.char = '\n'
      · rw [if_pos hfeed, if_pos hfeed, Except.map, behind_one_add hrunes]
      · rw [if_neg hfeed, if_neg hfeed]
        rfl

end RustLexer.Guarded
