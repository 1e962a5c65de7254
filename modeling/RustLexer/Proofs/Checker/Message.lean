import RustLexer.Proofs.Checker.Verdict
import RustLexer.Proofs.Lexer.MaximalMunch
import RustLexer.Proofs.Number

/-! # Messages take one line

The wording of a cause is fixed but for what it repeats of the source: an escape, where line breaks are made
visible, or a part of a lexeme in which there is none. So no message has a line break
(`Dialect.oneLine_message`).
-/

namespace RustLexer

/-! ## Characters -/

namespace Grammar

/-- Characters with no line break among them. -/
def OneLine (chars : List Char) : Prop := ∀ char ∈ chars, char ≠ '\n' ∧ char ≠ '\r'

variable {front back run chars : List Char} {inClass : Char → Bool}

@[simp] theorem oneLine_nil : OneLine [] := by
  simp [OneLine]

@[simp] theorem oneLine_cons {char : Char} :
    OneLine (char :: chars) ↔ (char ≠ '\n' ∧ char ≠ '\r') ∧ OneLine chars :=
  List.forall_mem_cons

@[simp] theorem oneLine_append : OneLine (front ++ back) ↔ OneLine front ∧ OneLine back :=
  List.forall_mem_append

/-- A class that has no line break. -/
def IsSolid (inClass : Char → Bool) : Prop := inClass '\n' = false ∧ inClass '\r' = false

theorem IsSolid.ne {char : Char} (h : IsSolid inClass) (hchar : inClass char = true) :
    char ≠ '\n' ∧ char ≠ '\r' := by
  constructor
  · rintro rfl
    exact Bool.eq_false_iff.mp h.1 hchar
  · rintro rfl
    exact Bool.eq_false_iff.mp h.2 hchar

theorem IsRun.oneLine (h : IsRun inClass run) (hsolid : IsSolid inClass) : OneLine run := by
  intro char hchar
  rcases h char hchar with hdigit | rfl
  · exact hsolid.ne hdigit
  · decide

theorem isSolid_isDigit : IsSolid isDigit := ⟨rfl, rfl⟩

theorem isSolid_isHexDigit : IsSolid isHexDigit := ⟨rfl, rfl⟩

theorem Decimal.oneLine (h : Decimal chars) : OneLine chars := by
  obtain @⟨first, run, hfirst, hrun⟩ := h
  exact oneLine_cons.mpr ⟨isSolid_isDigit.ne hfirst, hrun.oneLine isSolid_isDigit⟩

theorem Power.oneLine (h : Power chars) : OneLine chars := by
  obtain @⟨mark, sign, digits, hmark, hsign, hrun, -⟩ := h
  have hletter : mark ≠ '\n' ∧ mark ≠ '\r' := by
    revert hmark
    simp only [List.mem_cons, List.not_mem_nil, or_false]
    rintro (rfl | rfl) <;> decide
  have hfront : OneLine sign := by
    revert hsign
    simp only [List.mem_cons, List.not_mem_nil, or_false]
    rintro (rfl | rfl | rfl) <;> simp
  exact oneLine_cons.mpr ⟨hletter, oneLine_append.mpr ⟨hfront, hrun.oneLine isSolid_isDigit⟩⟩

theorem oneLine_of_power (h : chars = [] ∨ Power chars) : OneLine chars := by
  rcases h with rfl | hpower
  · exact oneLine_nil
  · exact hpower.oneLine

theorem FloatTail.oneLine (h : FloatTail chars) : OneLine chars := by
  cases h with
  | fraction hdigits hpower => simp [hdigits.oneLine, oneLine_of_power hpower]
  | power hpower => exact hpower.oneLine

theorem Numeral.oneLine {kind : LiteralKind} (h : Numeral kind chars) : OneLine chars := by
  have hletter : ∀ mark ∈ ['b', 'o'], mark ≠ '\n' ∧ mark ≠ '\r' := by simp
  cases h with
  | decimal hdigits => exact hdigits.oneLine
  | binary hmark hrun => simp [hletter _ hmark, hrun.oneLine isSolid_isDigit]
  | hexadecimal hrun => simp [hrun.oneLine isSolid_isHexDigit]
  | decimalFloat hwhole htail => simp [hwhole.oneLine, htail.oneLine]
  | binaryFloat hmark hrun _ htail =>
      simp [hletter _ hmark, hrun.oneLine isSolid_isDigit, htail.oneLine]
  | hexadecimalFloat hrun _ hdigits hpower =>
      simp [hrun.oneLine isSolid_isHexDigit, hdigits.oneLine, oneLine_of_power hpower]

theorem Word.oneLine [XidClasses] (h : Word chars) : OneLine chars := by
  obtain @⟨first, run, hfirst, hrun⟩ := h
  have hstart : IsSolid isIdentStart := ⟨rfl, rfl⟩
  have hcontinue : IsSolid isIdentContinue := ⟨rfl, rfl⟩
  exact oneLine_cons.mpr ⟨hstart.ne hfirst, fun char hchar => hcontinue.ne (hrun char hchar)⟩

end Grammar

/-! ## Bytes -/

/-- A rune has the byte of an ASCII character if it is that character. -/
theorem Rune.Decoded.mem_bytes_iff {rune : Rune} (h : rune.Decoded) {char : Char}
    (hchar : char.toNat < 0x80) : char.toUInt8 ∈ rune.bytes ↔ rune.char = char := by
  cases h with
  | @ascii byte hbyte =>
      have hfirst := char_first_eq_iff hchar byte []
      rw [first_of_ascii hbyte] at hfirst
      rw [List.mem_singleton, hfirst]
  | @wide found byte tail hfound hbytes =>
      refine iff_of_false ?_ ?_
      · intro hmem
        exact absurd (toUInt8_lt_of_ascii hchar) (UInt8.not_lt.mpr (hbytes _ hmem))
      · rintro rfl
        exact absurd hchar (Nat.not_lt.mpr hfound)

theorem Rune.mem_encode_iff {text : List Rune} (hdecoded : ∀ rune ∈ text, rune.Decoded)
    {char : Char} (hchar : char.toNat < 0x80) :
    char.toUInt8 ∈ encode text ↔ char ∈ text.map Rune.char := by
  rw [encode, List.mem_flatMap, List.mem_map]
  constructor
  · rintro ⟨rune, hrune, hmem⟩
    exact ⟨rune, hrune, ((hdecoded rune hrune).mem_bytes_iff hchar).mp hmem⟩
  · rintro ⟨rune, hrune, hsame⟩
    exact ⟨rune, hrune, ((hdecoded rune hrune).mem_bytes_iff hchar).mpr hsame⟩

namespace Bytes

variable {front back text : Bytes}

/-- Bytes with no line break among them. -/
def OneLine (text : Bytes) : Prop := 0x0A ∉ text ∧ 0x0D ∉ text

instance (text : Bytes) : Decidable text.OneLine :=
  inferInstanceAs (Decidable (_ ∧ _))

theorem oneLine_nil : OneLine [] := by decide

theorem oneLine_append : OneLine (front ++ back) ↔ OneLine front ∧ OneLine back := by
  simp only [OneLine, List.mem_append, not_or]
  exact and_and_and_comm

/-- A fixed wording is checked on its characters, since a string is slow to take apart. -/
theorem oneLine_ofAscii {chars : List Char} (h : OneLine (chars.map Char.toUInt8)) :
    OneLine (ofAscii (String.ofList chars)) := by
  rw [ofAscii, String.toList_ofList]
  exact h

theorem OneLine.of_suffix (h : OneLine text) (hsuffix : back <:+ text) : OneLine back :=
  ⟨fun hfeed => h.1 (hsuffix.subset hfeed), fun hreturn => h.2 (hsuffix.subset hreturn)⟩

theorem oneLine_of_grammar (h : Grammar.OneLine ((runes text).map Rune.char)) : OneLine text := by
  have hmem : ∀ char : Char, char.toNat < 0x80 → char.toUInt8 ∈ text →
      char ∈ (runes text).map Rune.char := by
    intro char hascii hbyte
    rw [← encode_runes text] at hbyte
    exact (Rune.mem_encode_iff decoded_of_mem_runes hascii).mp hbyte
  exact ⟨fun hfeed => (h '\n' (hmem '\n' (by decide) hfeed)).1 rfl,
    fun hreturn => (h '\r' (hmem '\r' (by decide) hreturn)).2 rfl⟩

/-- Line breaks that are made visible are none. -/
theorem oneLine_visible (text : Bytes) : OneLine (visible text) := by
  induction text with
  | nil => exact oneLine_nil
  | cons byte text ih =>
      rw [visible, List.flatMap_cons, ← visible, oneLine_append]
      refine ⟨?_, ih⟩
      split
      next => exact oneLine_ofAscii (by decide)
      next hfeed =>
        split
        next => exact oneLine_ofAscii (by decide)
        next hreturn =>
          exact ⟨fun hmem => hfeed (List.mem_singleton.mp hmem).symm,
            fun hmem => hreturn (List.mem_singleton.mp hmem).symm⟩

theorem digit_of_mem_decimal {n : Nat} {byte : UInt8} (h : byte ∈ decimal n) :
    0x30 ≤ byte.toNat ∧ byte.toNat ≤ 0x39 := by
  obtain ⟨char, hchar, rfl⟩ := List.mem_map.mp h
  have hdigit := Nat.isDigit_of_mem_toDigits (by decide) (by decide) hchar
  rw [Char.isDigit, Bool.and_eq_true, decide_eq_true_eq, decide_eq_true_eq] at hdigit
  have hle : 0x30 ≤ char.toNat := UInt32.le_iff_toNat_le.mp hdigit.1
  have hge : char.toNat ≤ 0x39 := UInt32.le_iff_toNat_le.mp hdigit.2
  rw [toNat_toUInt8_of_ascii (by omega)]
  exact ⟨hle, hge⟩

theorem length_decimal_eq_one_iff {n : Nat} : (decimal n).length = 1 ↔ n < 10 := by
  have hpos : 0 < (Nat.toDigits 10 n).length := Nat.length_toDigits_pos
  have hle : (Nat.toDigits 10 n).length ≤ 1 ↔ n < 10 ^ 1 :=
    Nat.length_toDigits_le_iff (by decide) Nat.one_pos
  rw [decimal, List.length_map]
  omega

theorem oneLine_decimal (n : Nat) : OneLine (decimal n) :=
  ⟨fun hmem => absurd (digit_of_mem_decimal hmem).1 (by decide),
    fun hmem => absurd (digit_of_mem_decimal hmem).1 (by decide)⟩

end Bytes

/-! ## Wordings -/

theorem EscapeFault.oneLine_message (fault : EscapeFault) : fault.message.OneLine := by
  cases fault with
  | unknown escaped =>
      simp only [message, Bytes.oneLine_append]
      exact ⟨⟨Bytes.oneLine_ofAscii (by decide), Bytes.oneLine_visible escaped⟩,
        Bytes.oneLine_ofAscii (by decide)⟩
  | shortHex | hexOutOfRange | unicodeInByte | missingBrace | unterminated | tooManyDigits
  | noDigits | beyondUnicode | surrogate => exact Bytes.oneLine_ofAscii (by decide)

/-- The wording of a cause has no line break if what it repeats has none. -/
theorem Cause.oneLine_message {cause : Cause} (h : cause.repeated.OneLine) :
    cause.message.OneLine := by
  cases cause with
  | unknownLexeme text => exact Bytes.oneLine_append.mpr ⟨Bytes.oneLine_ofAscii (by decide), h⟩
  | unterminatedLiteral literal => cases literal <;> exact Bytes.oneLine_ofAscii (by decide)
  | digitOutOfRange radix =>
      simp only [message, Bytes.oneLine_append]
      exact ⟨⟨Bytes.oneLine_ofAscii (by decide), Bytes.oneLine_decimal _⟩,
        Bytes.oneLine_ofAscii (by decide)⟩
  | floatRadix radix =>
      refine Bytes.oneLine_append.mpr ⟨?_, Bytes.oneLine_ofAscii (by decide)⟩
      cases radix <;> exact Bytes.oneLine_ofAscii (by decide)
  | numberSuffix isFloat suffix =>
      simp only [message, Bytes.oneLine_append]
      refine ⟨⟨⟨⟨Bytes.oneLine_ofAscii (by decide), h⟩, Bytes.oneLine_ofAscii (by decide)⟩, ?_⟩,
        Bytes.oneLine_ofAscii (by decide)⟩
      cases isFloat <;> exact Bytes.oneLine_ofAscii (by decide)
  | nonAscii literal => cases literal <;> exact Bytes.oneLine_ofAscii (by decide)
  | escape fault => exact fault.oneLine_message
  | unterminatedBlockComment | bareReturnInDoc | tooManyHashes | noDigits | noExponentDigits
  | bareReturnInString | bareReturnInRawString | unescapedControl | unescapedQuote
  | emptyCharacter | severalCharacters | stringSuffix => exact Bytes.oneLine_ofAscii (by decide)

/-! ## Lexemes -/

variable [XidClasses]

theorem Construct.eq_unknown_of_cut {keywords : Keywords} {text : List Rune}
    {construct : Construct} (h : (construct.cut keywords text).tag.kind = .unknown) :
    construct = unknown := by
  have hkind := construct.hasKind_cut keywords text
  rw [h] at hkind
  cases hkind with
  | unknown => rfl

variable {dialect : Dialect} {source : Bytes} {lexeme : Lexeme} {fault : Fault}

/-- What starts no lexeme is one rune, and not whitespace. -/
theorem Dialect.oneLine_of_unknown (hlexeme : lexeme ∈ dialect.lexemes source)
    (hkind : lexeme.kind = .unknown) : lexeme.text.OneLine := by
  have hplace := inPlace_of_mem hlexeme
  obtain ⟨construct, hconstruct, -, htag, hlength⟩ := hplace.exists_construct
  obtain rfl : construct = .unknown := by
    apply Construct.eq_unknown_of_cut
    rw [htag]
    exact hkind
  obtain ⟨hplain, -⟩ := Construct.isPlain_of_ofText hconstruct (Or.inl rfl)
  obtain ⟨rune, hrune⟩ := List.length_eq_one_iff.mp hlength.symm
  have hwhitespace := hplain.whitespace
  rw [hplace.ahead_eq, hrune] at hwhitespace
  have hother : rune.isWhitespace = false := hwhitespace
  apply Bytes.oneLine_of_grammar
  rw [hrune, List.map_singleton, Grammar.oneLine_cons]
  refine ⟨⟨?_, ?_⟩, Grammar.oneLine_nil⟩
  · intro hchar
    rw [Rune.isWhitespace, Rune.code, hchar] at hother
    cases hother
  · intro hchar
    rw [Rune.isWhitespace, Rune.code, hchar] at hother
    cases hother

/-- A number is a numeral with a word behind it, or with none. -/
theorem Dialect.oneLine_of_number (hlexeme : lexeme ∈ dialect.lexemes source)
    (hkind : lexeme.kind = .literal) (hnumber : lexeme.literal ∈ [.integer, .float]) :
    lexeme.text.OneLine := by
  obtain ⟨construct, hliteral, hmark, hcut⟩ := dialect.literal_of_mem hlexeme hkind
  obtain rfl := Construct.eq_number_of_isLiteral hliteral hnumber
  have hnumeral := Number.numeral_scan hmark
  have hlength : (Number.scan (runes lexeme.text)).length +
      wordLength ((runes lexeme.text).drop (Number.scan (runes lexeme.text)).length) =
        (runes lexeme.text).length := congrArg Cut.length hcut
  generalize (Number.scan (runes lexeme.text)).length = length at hnumeral hlength
  have hword : ((runes lexeme.text).drop length).length =
      wordLength ((runes lexeme.text).drop length ++ []) := by
    rw [List.append_nil, List.length_drop]
    omega
  have hsuffix : Grammar.OneLine (((runes lexeme.text).drop length).map Rune.char) := by
    rcases word_of_wordLength hword with ⟨hnil, -⟩ | ⟨hword, -⟩
    · rw [hnil]
      exact Grammar.oneLine_nil
    · exact hword.oneLine
  apply Bytes.oneLine_of_grammar
  rw [← List.take_append_drop length (runes lexeme.text), List.map_append, Grammar.oneLine_append]
  exact ⟨hnumeral.oneLine, hsuffix⟩

theorem Dialect.oneLine_repeated (hlexeme : lexeme ∈ dialect.lexemes source)
    (hfault : lexeme.fault? = some fault) : fault.cause.repeated.OneLine := by
  unfold Lexeme.fault? at hfault
  split at hfault
  next hkind =>
    cases hfault
    exact oneLine_of_unknown hlexeme hkind
  next =>
    split at hfault
    next =>
      cases hfault
      exact Bytes.oneLine_nil
    next =>
    split at hfault
    next =>
      obtain ⟨index, -, rfl⟩ := Option.map_eq_some_iff.mp hfault
      exact Bytes.oneLine_nil
    next => cases hfault
  next =>
    split at hfault
    next =>
      obtain ⟨index, -, rfl⟩ := Option.map_eq_some_iff.mp hfault
      exact Bytes.oneLine_nil
    next => cases hfault
  next hkind =>
    rcases lexeme.isErrorOn_of_literalFault? hfault with herror | ⟨hnumber, herror⟩
    · exact Bytes.oneLine_nil.of_suffix herror.2
    · exact (oneLine_of_number hlexeme hkind hnumber).of_suffix herror.2
  all_goals cases hfault

/-- The message for a lexeme of a source has no line break. -/
theorem Dialect.oneLine_message (hlexeme : lexeme ∈ dialect.lexemes source)
    (hfault : lexeme.fault? = some fault) : fault.cause.message.OneLine :=
  Cause.oneLine_message (oneLine_repeated hlexeme hfault)

end RustLexer
