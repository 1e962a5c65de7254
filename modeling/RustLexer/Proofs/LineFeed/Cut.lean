import RustLexer.Proofs.LineFeed.Scan

/-! # Cutting a text that goes on behind a line feed

The construct at the front of a text is the same when a line feed and more runes follow the text, since no
construct is told from another by what stands behind the text (`Construct.ofText_append_lineFeed`). Its
cut is the same too (`Construct.cut_append_lineFeed`), unless it waits for what comes next: an unclosed
construct may be closed later, whitespace takes the line feed in, and a carriage return that ended a line
comment becomes a part of the line break.
-/

namespace RustLexer

variable {text : List Rune}

/-! ## Symbols -/

namespace Symbol

theorem lineFeed_notMem_text (found : Symbol) : 0x0A ∉ found.text := by
  cases found <;> decide

theorem ofText?_of_lineFeed_mem {front : List Rune} (h : Rune.lineFeed ∈ front) :
    ofText? (Rune.encode front) = none := by
  rw [Option.eq_none_iff_forall_ne_some]
  intro found hfound
  apply found.lineFeed_notMem_text
  rw [text_of_ofText? hfound, Rune.encode, List.mem_flatMap]
  exact ⟨.lineFeed, h, List.mem_singleton_self _⟩

theorem longest?_append_lineFeed (hne : text ≠ []) (more : List Rune) :
    longest? (text ++ .lineFeed :: more) = longest? text := by
  have hpos := List.length_pos_iff.mpr hne
  have hlong : ∀ count, text.length < count →
      ofText? (Rune.encode ((text ++ .lineFeed :: more).take count)) = none := by
    intro count hcount
    apply ofText?_of_lineFeed_mem
    obtain ⟨beyond, rfl⟩ := Nat.exists_eq_add_of_lt hcount
    rw [Nat.add_assoc, List.take_length_add_append, List.take_succ_cons]
    exact List.mem_append_right _ List.mem_cons_self
  have hshort : ∀ count ≤ text.length,
      (text ++ .lineFeed :: more).take count = text.take count :=
    fun count hcount => List.take_append_of_le_length hcount
  simp only [longest?, List.findSome?_cons, List.findSome?_nil]
  -- A prefix that reaches beyond the text is no symbol; of the text alone it is the text again, which
  -- is tried once more at its own length.
  obtain hone | htwo | hthree : text.length = 1 ∨ text.length = 2 ∨ 3 ≤ text.length := by omega
  · rw [hlong 3 (by omega), hlong 2 (by omega), hshort 1 (by omega),
      List.take_of_length_le (show text.length ≤ 3 by omega),
      List.take_of_length_le (show text.length ≤ 2 by omega),
      List.take_of_length_le (show text.length ≤ 1 by omega)]
    cases ofText? (Rune.encode text) <;> rfl
  · rw [hlong 3 (by omega), hshort 2 (by omega), hshort 1 (by omega),
      List.take_of_length_le (show text.length ≤ 3 by omega),
      List.take_of_length_le (show text.length ≤ 2 by omega)]
    cases ofText? (Rune.encode text) <;> rfl
  · rw [hshort 3 hthree, hshort 2 (by omega), hshort 1 (by omega)]

end Symbol

namespace Construct

/-! ## Which construct it is -/

theorem rawString?_append_lineFeed (text more : List Rune) :
    rawString? (text ++ .lineFeed :: more) = rawString? text := by
  have hbyte : startsWith (text ++ .lineFeed :: more) ['b', 'r'] = startsWith text ['b', 'r'] :=
    startsWith_append_lineFeed (by decide) text more
  have hraw : startsWith (text ++ .lineFeed :: more) ['r'] = startsWith text ['r'] :=
    startsWith_append_lineFeed (by decide) text more
  rw [rawString?, rawString?, hbyte, hraw]
  split
  next h =>
    have htwo : 2 ≤ text.length := length_le_of_startsWith h
    rw [List.drop_append_of_le_length htwo, RawString.hashes?_append_lineFeed]
  next =>
    split
    next h =>
      have hone : 1 ≤ text.length := length_le_of_startsWith h
      rw [List.drop_append_of_le_length hone, RawString.hashes?_append_lineFeed]
    next => rfl

variable [XidClasses]

theorem rawIdentifierMark_append_lineFeed (text more : List Rune) :
    (startsWith (text ++ .lineFeed :: more) ['r', '#'] &&
        startsIn Rune.isIdentStart ((text ++ .lineFeed :: more).drop 2)) =
      (startsWith text ['r', '#'] && startsIn Rune.isIdentStart (text.drop 2)) := by
  rw [startsWith_append_lineFeed (by decide)]
  by_cases h : startsWith text ['r', '#'] = true
  · have htwo : 2 ≤ text.length := length_le_of_startsWith h
    rw [List.drop_append_of_le_length htwo, startsIn_append_lineFeed rfl]
  · rw [Bool.eq_false_iff.mpr h, Bool.false_and, Bool.false_and]

theorem ofPlainText_append_lineFeed (hne : text ≠ []) (more : List Rune) :
    ofPlainText (text ++ .lineFeed :: more) = ofPlainText text := by
  simp only [ofPlainText, rawString?_append_lineFeed, rawIdentifierMark_append_lineFeed,
    startsIn_append_lineFeed (show Rune.isDigit .lineFeed = false by decide),
    startsIn_append_lineFeed (show Rune.isIdentStart .lineFeed = false from rfl),
    Symbol.longest?_append_lineFeed hne]

/-- What follows a text behind a line feed does not change its first construct. -/
theorem ofText_append_lineFeed (hne : text ≠ []) (atStart : Bool) (more : List Rune) :
    ofText atStart (text ++ .lineFeed :: more) = ofText atStart text := by
  obtain ⟨rune, rest, rfl⟩ := List.exists_cons_of_ne_nil hne
  have hwhite : startsIn Rune.isWhitespace (rune :: rest ++ .lineFeed :: more) =
      startsIn Rune.isWhitespace (rune :: rest) := rfl
  simp only [ofText, Comment.startsShebang_append_lineFeed, hwhite,
    startsWith_append_lineFeed (show '\n' ∉ ['/', '/'] by decide),
    startsWith_append_lineFeed (show '\n' ∉ ['/', '*'] by decide),
    startsWith_append_lineFeed (show '\n' ∉ ['\''] by decide),
    startsWith_append_lineFeed (show '\n' ∉ ['"'] by decide),
    startsWith_append_lineFeed (show '\n' ∉ ['b', '"'] by decide),
    startsWith_append_lineFeed (show '\n' ∉ ['b', '\''] by decide),
    ofPlainText_append_lineFeed hne]

end Construct

/-! ## How far it reaches -/

theorem runLength_append_of_lt {inClass : Rune → Bool}
    (h : runLength inClass text < text.length) (more : List Rune) :
    runLength inClass (text ++ more) = runLength inClass text := by
  rw [runLength] at h
  rw [runLength, List.takeWhile_append, if_neg (Nat.ne_of_lt h), runLength]

theorem Comment.markedLineLength_append_lineFeed (hmark : 2 ≤ text.length)
    (h : markedLineLength text = text.length → ∀ rune ∈ text.getLast?, rune.char ≠ '\r')
    (more : List Rune) :
    markedLineLength (text ++ .lineFeed :: more) = markedLineLength text := by
  rw [markedLineLength, markedLineLength, List.drop_append_of_le_length hmark,
    lineLength_append_lineFeed]
  intro hline rune hrune
  rw [List.length_drop] at hline
  rw [List.getLast?_drop] at hrune
  split at hrune
  next => cases hrune
  next => exact h (by rw [markedLineLength]; omega) rune hrune

/-- A raw string has its opening delimiter, of which the hashes that are counted are a part. -/
theorem RawString.opening_le {prefixLength : Nat} {hashes : UInt32}
    (h : hashes? (text.drop prefixLength) = some hashes) :
    prefixLength + hashes.toNat + 1 ≤ text.length := by
  have hopening := opening_lt_extent h
  have hextent := extent_le prefixLength hashes.toNat text
  have hcount : hashes.toNat ≤ runLength isHash (text.drop prefixLength) := by
    simp only [hashes?, Option.ite_none_right_eq_some, Option.some.injEq] at h
    rw [← h.2, UInt32.toNat_ofNat']
    exact Nat.mod_le _ _
  omega

variable [XidClasses]

namespace Cut

theorem ofRawString_append_lineFeed (literal : LiteralKind) {prefixLength : Nat} {hashes : UInt32}
    (hopening : RawString.hashes? (text.drop prefixLength) = some hashes)
    (h : (ofRawString literal prefixLength hashes text).tag.terminated = true)
    (more : List Rune) :
    ofRawString literal prefixLength hashes (text ++ .lineFeed :: more) =
      ofRawString literal prefixLength hashes text := by
  have hclosed : (RawString.extent prefixLength hashes.toNat text).terminated = true := by
    rw [← Extent.terminated_withSuffix _ text]
    exact h
  simp only [ofRawString,
    RawString.extent_append_lineFeed (RawString.opening_le hopening) hclosed,
    Extent.withSuffix_append_lineFeed (RawString.extent_le _ _ text)]

theorem ofSingleQuote_append_lineFeed (hne : text ≠ [])
    (h : (ofSingleQuote text).tag.terminated = true) (more : List Rune) :
    ofSingleQuote (text ++ .lineFeed :: more) = ofSingleQuote text := by
  rw [terminated_ofSingleQuote] at h
  simp only [ofSingleQuote, Quoted.singleQuote_append_lineFeed h hne]

theorem ofNumber_append_lineFeed (hne : text ≠ []) (more : List Rune) :
    ofNumber (text ++ .lineFeed :: more) = ofNumber text := by
  have hscan := Number.scan_le (List.length_pos_iff.mpr hne)
  simp only [ofNumber, Number.scan_append_lineFeed hne]
  rw [Extent.withSuffix_append_lineFeed hscan]

theorem ofWord_append_lineFeed (keywords : Keywords) (text more : List Rune) :
    ofWord keywords (text ++ .lineFeed :: more) = ofWord keywords text := by
  simp only [ofWord, wordLength_append_lineFeed, List.take_append_of_le_length (wordLength_le text)]

end Cut

/-- A line feed and more runes behind a text leave its first cut as it is, if the cut is closed and does
not end, with the text, in whitespace or in the carriage return of a line comment. -/
theorem Construct.cut_append_lineFeed (keywords : Keywords) (hne : text ≠ [])
    {construct : Construct} (hmark : construct.MarkedIn text)
    (hclosed : (construct.cut keywords text).tag.terminated = true)
    (hlast : (construct.cut keywords text).length = text.length →
      (construct.cut keywords text).tag.kind ≠ .whitespace ∧
        ((construct.cut keywords text).tag.kind = .lineComment →
          ∀ rune ∈ text.getLast?, rune.char ≠ '\r'))
    (more : List Rune) :
    construct.cut keywords (text ++ .lineFeed :: more) = construct.cut keywords text := by
  have hpos : 1 ≤ text.length := List.length_pos_iff.mpr hne
  cases construct with
  | shebang =>
      have htwo : 2 ≤ text.length := length_le_of_startsWith (Bool.and_eq_true_iff.mp hmark).1
      simp only [cut]
      rw [Comment.markedLineLength_append_lineFeed htwo fun h => (hlast h).2 rfl]
  | whitespace =>
      have hlt : runLength Rune.isWhitespace text < text.length :=
        Nat.lt_of_le_of_ne (runLength_le _ _) fun h => (hlast h).1 rfl
      simp only [cut, runLength_append_of_lt hlt]
  | lineComment =>
      have htwo : 2 ≤ text.length := length_le_of_startsWith hmark
      simp only [cut]
      rw [Comment.markedLineLength_append_lineFeed htwo fun h => (hlast h).2 rfl,
        Comment.isLineDoc_append_lineFeed htwo]
  | blockComment =>
      have htwo : 2 ≤ text.length := length_le_of_startsWith hmark
      simp only [cut, Cut.ofBlockComment, Comment.blockExtent_append htwo hclosed,
        Comment.isBlockDoc_append_lineFeed htwo hclosed]
  | singleQuote => exact Cut.ofSingleQuote_append_lineFeed hne hclosed more
  | string =>
      simp only [cut, Cut.terminated_ofLiteral] at hclosed ⊢
      rw [Quoted.doubleExtent_append hclosed hne,
        Extent.withSuffix_append_lineFeed (Quoted.doubleExtent_le text)]
  | byteString =>
      have hroom : ((Quoted.doubleExtent (text.drop 1)).precededBy 1).length ≤ text.length :=
        Extent.precededBy_le hne (Quoted.doubleExtent_le _)
      simp only [cut, Cut.terminated_ofLiteral] at hclosed ⊢
      rw [List.drop_append_of_le_length hpos,
        Quoted.doubleExtent_append hclosed (drop_one_ne_nil hmark),
        Extent.withSuffix_append_lineFeed hroom]
  | byteChar =>
      have hroom : ((Quoted.singleExtent (text.drop 1)).precededBy 1).length ≤ text.length :=
        Extent.precededBy_le hne (Quoted.singleExtent_le _)
      simp only [cut, Cut.terminated_ofLiteral] at hclosed ⊢
      rw [List.drop_append_of_le_length hpos,
        Quoted.singleExtent_append_lineFeed hclosed (drop_one_ne_nil hmark),
        Extent.withSuffix_append_lineFeed hroom]
  | rawString hashes => exact Cut.ofRawString_append_lineFeed _ hmark.2 hclosed more
  | rawByteString hashes => exact Cut.ofRawString_append_lineFeed _ hmark.2 hclosed more
  | rawIdentifier =>
      have htwo : 2 ≤ text.length := length_le_of_startsWith hmark.1
      simp only [cut]
      rw [List.drop_append_of_le_length htwo, wordLength_append_lineFeed]
  | number => exact Cut.ofNumber_append_lineFeed hne more
  | word => exact Cut.ofWord_append_lineFeed keywords text more
  | symbol found => rfl
  | unknown => rfl

end RustLexer
