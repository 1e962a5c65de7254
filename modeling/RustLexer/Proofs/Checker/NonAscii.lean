import RustLexer.CodePoint.Unicode
import RustLexer.Proofs.Checker.Quoted
import RustLexer.Proofs.Checker.RawString

/-! # Non-ASCII text in byte literals

A byte literal with something outside ASCII in it has a fault, wherever it stands: in the body, in a
suffix, or between delimiters that nothing closes. The one exception is a string of bytes that continues a
line, because the whitespace that an escaped line break takes may be outside ASCII
(`Grammar.Body.blank_of_wide`).
-/

namespace RustLexer

/-! ## The grammar -/

namespace Grammar

variable {literal : LiteralKind}

/-- The text comes to an escaped line break and then to no more than whitespace. -/
def EndsInLineBreak (chars : List Char) : Prop :=
  ∃ front continued, chars = front ++ continued ∧ LineBreak continued

theorem isAscii_of_isHexDigit {char : Char} (h : isHexDigit char = true) : char.toNat < 0x80 := by
  simp only [isHexDigit, CodePoint.isHexDigit, CodePoint.isDigit, Bool.or_eq_true, Bool.and_eq_true,
    decide_eq_true_eq] at h
  omega

/-- Escapes are ASCII. -/
theorem Escape.isAscii {chars : List Char} (h : Escape literal chars) :
    ∀ char ∈ chars, char.toNat < 0x80 := by
  cases h with
  | @simple char hchar =>
      have hascii : char.toNat < 0x80 := forall_ascii_of_all (by decide) char hchar
      simpa using hascii
  | @hex high low hhigh hlow =>
      simp [isAscii_of_isHexDigit hhigh, isAscii_of_isHexDigit hlow]
  | @codePoint first others _ hfirst hothers =>
      intro char hchar
      simp only [List.mem_cons, List.mem_append, List.not_mem_nil, or_false] at hchar
      rcases hchar with rfl | rfl | rfl | rfl | hchar | rfl
      · decide
      · decide
      · decide
      · exact isAscii_of_isHexDigit hfirst
      · rcases hothers char hchar with hdigit | rfl
        · exact isAscii_of_isHexDigit hdigit
        · decide
      · decide

theorem EndsInLineBreak.append {back : List Char} (h : EndsInLineBreak back) (front : List Char) :
    EndsInLineBreak (front ++ back) := by
  obtain ⟨before, continued, rfl, hcontinued⟩ := h
  exact ⟨front ++ before, continued, (List.append_assoc _ _ _).symm, hcontinued⟩

/-- A character of two pieces is one of the first or one of the second. -/
theorem mem_of_append_eq {piece rest front back : List Char} {char : Char}
    (h : piece ++ rest = front ++ char :: back) :
    char ∈ piece ∧ (∃ behind, piece = front ++ char :: behind) ∨
      ∃ between, front = piece ++ between ∧ rest = between ++ char :: back := by
  rcases List.append_eq_append_iff.mp h with ⟨between, rfl, hrest⟩ | ⟨behind, rfl, hbehind⟩
  · exact Or.inr ⟨between, rfl, hrest⟩
  · cases behind with
    | nil => exact Or.inr ⟨[], by simp, hbehind.symm⟩
    | cons other behind =>
        obtain ⟨rfl, -⟩ := List.cons.inj hbehind
        exact Or.inl ⟨by simp, behind, rfl⟩

theorem LineBreak.of_wide {front back : List Char} {char : Char}
    (h : LineBreak (front ++ char :: back)) (hwide : 0x80 ≤ char.toNat) :
    isWhitespace char = true ∧ LineBreak front := by
  generalize hchars : front ++ char :: back = chars at h
  obtain @⟨newline, blanks, hnewline, hblanks⟩ := h
  have hascii : ∀ char ∈ '\\' :: newline, char.toNat < 0x80 := by
    rcases hnewline with rfl | rfl <;> exact forall_ascii_of_all (by decide)
  rw [← List.cons_append] at hchars
  rcases mem_of_append_eq hchars.symm with ⟨hmem, -⟩ | ⟨between, rfl, rfl⟩
  · exact absurd (hascii char hmem) (Nat.not_lt.mpr hwide)
  · refine ⟨hblanks char (by simp), .intro hnewline fun blank hblank => hblanks blank ?_⟩
    exact List.mem_append_left _ hblank

/-- In a string of bytes, what is outside ASCII is whitespace behind an escaped line break. -/
theorem Body.blank_of_wide (hliteral : literal.isByte = true) {chars : List Char}
    (h : Body literal chars) {front back : List Char} {char : Char}
    (hchars : chars = front ++ char :: back) (hwide : 0x80 ≤ char.toNat) :
    isWhitespace char = true ∧ EndsInLineBreak front := by
  induction h generalizing front with
  | nil => simp at hchars
  | @char first rest _ _ _ hbyte _ ih =>
      cases front with
      | nil =>
          obtain rfl := (List.cons.inj hchars).1
          exact absurd (hbyte hliteral) (Nat.not_lt.mpr hwide)
      | cons other front =>
          obtain ⟨hblank, hends⟩ := ih (List.cons.inj hchars).2
          exact ⟨hblank, hends.append [other]⟩
  | @escape escape rest hescape _ ih =>
      rcases mem_of_append_eq hchars with ⟨hmem, -⟩ | ⟨between, rfl, hrest⟩
      · exact absurd (hescape.isAscii char hmem) (Nat.not_lt.mpr hwide)
      · obtain ⟨hblank, hends⟩ := ih hrest
        exact ⟨hblank, hends.append escape⟩
  | @lineBreak continued rest hcontinued _ ih =>
      rcases mem_of_append_eq hchars with ⟨-, behind, rfl⟩ | ⟨between, rfl, hrest⟩
      · obtain ⟨hblank, hfront⟩ := hcontinued.of_wide hwide
        exact ⟨hblank, [], front, rfl, hfront⟩
      · obtain ⟨hblank, hends⟩ := ih hrest
        exact ⟨hblank, hends.append continued⟩

/-- A byte in quotes is ASCII. -/
theorem Single.isAscii (hliteral : literal.isByte = true) {chars : List Char}
    (h : Single literal chars) : ∀ char ∈ chars, char.toNat < 0x80 := by
  cases h with
  | char _ hbyte => simpa using hbyte hliteral
  | escape hescape => exact hescape.isAscii

theorem mark_isAscii : ∀ char ∈ mark literal, char.toNat < 0x80 := by
  cases literal <;> exact forall_ascii_of_all (by decide)

/-- A byte literal of the grammar is ASCII, apart from the whitespace behind escaped line breaks in a
string. -/
theorem Quoted.blank_of_wide (hliteral : literal.isByte = true) {chars : List Char}
    (h : Quoted literal chars) {front back : List Char} {char : Char}
    (hchars : chars = front ++ char :: back) (hwide : 0x80 ≤ char.toNat) :
    literal.isSingle = false ∧ isWhitespace char = true ∧ EndsInLineBreak front := by
  cases h with
  | @single content hsingle hcontent =>
      have hascii : ∀ char ∈ mark literal ++ '\'' :: (content ++ ['\'']), char.toNat < 0x80 := by
        refine List.forall_mem_append.mpr ⟨mark_isAscii, List.forall_mem_cons.mpr ⟨by decide, ?_⟩⟩
        exact List.forall_mem_append.mpr ⟨hcontent.isAscii hliteral, forall_ascii_of_all (by decide)⟩
      have hmem : char ∈ mark literal ++ '\'' :: (content ++ ['\'']) := by
        rw [hchars]
        simp
      exact absurd (hascii char hmem) (Nat.not_lt.mpr hwide)
  | @string content hstring hcontent =>
      have hopening : ∀ char ∈ mark literal ++ ['"'], char.toNat < 0x80 :=
        List.forall_mem_append.mpr ⟨mark_isAscii, forall_ascii_of_all (by decide)⟩
      rw [← List.singleton_append, ← List.append_assoc] at hchars
      rcases mem_of_append_eq hchars with ⟨hmem, -⟩ | ⟨inside, rfl, hrest⟩
      · exact absurd (hopening char hmem) (Nat.not_lt.mpr hwide)
      rcases mem_of_append_eq hrest with ⟨-, behind, hcontent'⟩ | ⟨between, -, hclose⟩
      · obtain ⟨hblank, hends⟩ := hcontent.blank_of_wide hliteral hcontent' hwide
        exact ⟨hstring, hblank, hends.append _⟩
      · -- The closing quote is ASCII.
        have hmem : char ∈ ['"'] := by
          rw [hclose]
          simp
        obtain rfl := List.mem_singleton.mp hmem
        exact absurd hwide (by decide)

end Grammar

/-! ## The verdict -/

theorem exists_wide_iff (text : Bytes) :
    (∃ byte ∈ text, 0x80 ≤ byte) ↔ ∃ char ∈ (runes text).map Rune.char, 0x80 ≤ char.toNat := by
  have hdecoded : ∀ rune ∈ runes text, rune.Decoded := decoded_of_mem_runes
  have hascii := Rune.encode_ascii_iff hdecoded
  rw [encode_runes] at hascii
  rw [← not_iff_not]
  simpa using hascii

variable {dialect : Dialect} {source : Bytes} {lexeme : Lexeme}

theorem Dialect.isAscii_of_rawByteString [XidClasses] (hlexeme : lexeme ∈ dialect.lexemes source)
    (hkind : lexeme.kind = .literal) (hraw : lexeme.literal = .rawByteString)
    (h : lexeme.fault? = none) : ∀ byte ∈ lexeme.text, byte < 0x80 := by
  obtain ⟨construct, hliteral, hmark, hcut⟩ := dialect.literal_of_mem hlexeme hkind
  obtain ⟨hterminated, hfault⟩ := Lexeme.fault?_rawByteString_eq_none hkind hraw h
  rw [hraw] at hliteral
  cases hliteral with
  | rawByteString hashes =>
      obtain ⟨hstart, hhashes⟩ := hmark
      have htag : (Cut.ofRawString .rawByteString 2 hashes (runes lexeme.text)).tag = lexeme.toTag :=
        congrArg Cut.tag hcut
      have hsame : lexeme.hashes = hashes := (congrArg Tag.hashes htag).symm
      have hclosed : (RawString.extent 2 hashes.toNat (runes lexeme.text)).terminated = true := by
        rw [← Extent.terminated_withSuffix _ (runes lexeme.text), ← hterminated]
        exact congrArg Tag.terminated htag
      rw [hsame] at hfault
      exact RawString.isAscii_of_fault?_eq_none hstart hhashes hclosed hfault

/-- A byte literal that is not ASCII has a fault, unless it is a string that the grammar has. -/
theorem Dialect.fault?_wide_eq_none_iff [XidClasses] (hlexeme : lexeme ∈ dialect.lexemes source)
    (hkind : lexeme.kind = .literal) (hbyte : lexeme.literal.isByte = true)
    (hwide : ∃ byte ∈ lexeme.text, 0x80 ≤ byte) :
    lexeme.fault? = none ↔
      lexeme.literal = .byteString ∧ lexeme.terminated = true ∧
        Grammar.Quoted .byteString ((runes lexeme.text).map Rune.char) := by
  constructor
  · intro h
    have hterminated : lexeme.terminated = true := by
      rw [← Bool.not_eq_false]
      exact fun hopen => Lexeme.fault?_ne_none_of_unterminated hkind hopen h
    cases hliteral : lexeme.literal with
    | byteString =>
        have hgrammar := (Dialect.fault?_quoted_eq_none_iff hlexeme hkind
          (by simp [hliteral]) hterminated).mp h
        exact ⟨rfl, hterminated, hliteral ▸ hgrammar⟩
    | byteChar =>
        have hgrammar := (Dialect.fault?_quoted_eq_none_iff hlexeme hkind
          (by simp [hliteral]) hterminated).mp h
        obtain ⟨char, hchar, hhigh⟩ := (exists_wide_iff lexeme.text).mp hwide
        obtain ⟨front, back, hsplit⟩ := List.append_of_mem hchar
        obtain ⟨hstring, -⟩ := hgrammar.blank_of_wide hbyte hsplit hhigh
        rw [hliteral] at hstring
        cases hstring
    | rawByteString =>
        obtain ⟨byte, hmem, hhigh⟩ := hwide
        have hlow := Dialect.isAscii_of_rawByteString hlexeme hkind hliteral h byte hmem
        exact absurd hlow (UInt8.not_lt.mpr hhigh)
    | integer | float | char | string | rawString =>
        rw [hliteral] at hbyte
        cases hbyte
  · rintro ⟨hliteral, hterminated, hgrammar⟩
    refine (Dialect.fault?_quoted_eq_none_iff hlexeme hkind (by simp [hliteral]) hterminated).mpr ?_
    rw [hliteral]
    exact hgrammar

/-- A byte literal with something outside ASCII in it is reported exactly if it is not a string of bytes of
the grammar. -/
theorem Dialect.check_nonAscii_iff [XidClasses] (dialect : Dialect) (source : Bytes) {lexeme : Lexeme}
    (hlexeme : lexeme ∈ dialect.lexemes source) (hkind : lexeme.kind = .literal)
    (hbyte : lexeme.literal.isByte = true) (hwide : ∃ byte ∈ lexeme.text, 0x80 ≤ byte)
    (checker : Checker) :
    (∃ diagnostic : Diagnostic,
      (checker.check lexeme).diagnostics = checker.diagnostics.push diagnostic ∧
        diagnostic.isError = true ∧ diagnostic.span = lexeme.span) ↔
      ¬ (lexeme.literal = .byteString ∧ lexeme.terminated = true ∧
        Grammar.Quoted .byteString ((runes lexeme.text).map Rune.char)) := by
  rw [Checker.check_literal_iff hkind, ne_eq,
    Dialect.fault?_wide_eq_none_iff hlexeme hkind hbyte hwide]

/-- A character outside ASCII in a string of bytes is an error where it stands for itself. -/
theorem Dialect.check_nonAscii_iff_plain :
    let source : Bytes := [0x62, 0x22, 0xC3, 0xA9, 0x22]
    let lexeme : Lexeme :=
      { kind := .literal, literal := .byteString, text := source, span := ⟨⟨0, 1, 1⟩, ⟨5, 1, 5⟩⟩ }
    let checker : Checker := {}
    lexeme ∈ ({ keywords := keywords2018 } : Dialect).lexemes source ∧
      (∃ byte ∈ source, 0x80 ≤ byte) ∧
      ((∃ diagnostic : Diagnostic,
        (checker.check lexeme).diagnostics = checker.diagnostics.push diagnostic ∧
          diagnostic.isError = true ∧ diagnostic.span = lexeme.span) ↔
        ¬ (lexeme.literal = .byteString ∧ lexeme.terminated = true ∧
          Grammar.Quoted .byteString ((runes source).map Rune.char))) ∧
      (checker.check lexeme).diagnostics.map Diagnostic.cause = #[.nonAscii .byteString] := by
  intro source lexeme checker
  have hlexeme : lexeme ∈ ({ keywords := keywords2018 } : Dialect).lexemes source := by
    decide +kernel
  have hwide : ∃ byte ∈ source, 0x80 ≤ byte := by decide
  refine ⟨hlexeme, hwide, ?_, by decide +kernel⟩
  exact Dialect.check_nonAscii_iff _ source hlexeme rfl rfl hwide checker

/-- A next line character behind an escaped line break is passed in a string of bytes. -/
theorem Dialect.check_nonAscii_lineBreak :
    let source : Bytes := [0x62, 0x22, 0x5C, 0x0A, 0xC2, 0x85, 0x22]
    let lexeme : Lexeme :=
      { kind := .literal, literal := .byteString, text := source, span := ⟨⟨0, 1, 1⟩, ⟨7, 2, 3⟩⟩ }
    lexeme ∈ ({ keywords := keywords2018 } : Dialect).lexemes source ∧
      (∃ byte ∈ lexeme.text, 0x80 ≤ byte) ∧
      (({} : Checker).check lexeme).diagnostics = #[] := by
  intro source lexeme
  exact ⟨by decide +kernel, by decide, by decide +kernel⟩

/-- A character outside ASCII in a byte literal is reported, unless the literal is a string and the
character whitespace behind an escaped line break. -/
theorem Dialect.check_nonAscii_of_not_blank [XidClasses] (hlexeme : lexeme ∈ dialect.lexemes source)
    (hkind : lexeme.kind = .literal) (hbyte : lexeme.literal.isByte = true) {front back : List Char}
    {char : Char} (hchars : (runes lexeme.text).map Rune.char = front ++ char :: back)
    (hwide : 0x80 ≤ char.toNat)
    (hplace : ¬ (lexeme.literal = .byteString ∧ Grammar.isWhitespace char = true ∧
      Grammar.EndsInLineBreak front)) (checker : Checker) :
    ∃ diagnostic : Diagnostic,
      (checker.check lexeme).diagnostics = checker.diagnostics.push diagnostic ∧
        diagnostic.isError = true ∧ diagnostic.span = lexeme.span := by
  have hbytes : ∃ byte ∈ lexeme.text, 0x80 ≤ byte :=
    (exists_wide_iff lexeme.text).mpr ⟨char, by simp [hchars], hwide⟩
  rw [Checker.check_literal_iff hkind, ne_eq,
    Dialect.fault?_wide_eq_none_iff hlexeme hkind hbyte hbytes]
  rintro ⟨hliteral, -, hgrammar⟩
  obtain ⟨-, hblank, hends⟩ := hgrammar.blank_of_wide rfl hchars hwide
  exact hplace ⟨hliteral, hblank, hends⟩

end RustLexer
