import RustLexer.Proofs.Lexer.Reach
import RustLexer.Proofs.Lexer.SelfLexing

/-! # What a lexeme looks like

The text of a lexeme, read as a text of its own, starts with the mark of a construct, and the cut of that
construct there is the lexeme and the whole text (`Dialect.cut_of_mem`). So the looks of a lexeme are
read off the construct that has its tag: `Construct.HasKind` says which one has its kind, and
`Construct.IsLiteral` which one is a literal of its kind.
-/

namespace RustLexer

namespace Construct

/-- The kinds of lexemes that a construct can be. -/
inductive HasKind : Construct → LexemeKind → Prop
  | shebang : HasKind shebang .lineComment
  | whitespace : HasKind whitespace .whitespace
  | lineComment : HasKind lineComment .lineComment
  | blockComment : HasKind blockComment .blockComment
  | lifetime : HasKind singleQuote .lifetime
  | char : HasKind singleQuote .literal
  | string : HasKind string .literal
  | byteString : HasKind byteString .literal
  | byteChar : HasKind byteChar .literal
  | rawString (hashes : UInt32) : HasKind (rawString hashes) .literal
  | rawByteString (hashes : UInt32) : HasKind (rawByteString hashes) .literal
  | rawIdentifier : HasKind rawIdentifier .identifier
  | number : HasKind number .literal
  | identifier : HasKind word .identifier
  | keyword : HasKind word .keyword
  | underscore : HasKind word .punctuation
  | operator (found : Symbol) : HasKind (symbol found) .operator
  | punctuation (found : Symbol) : HasKind (symbol found) .punctuation
  | unknown : HasKind unknown .unknown

variable [XidClasses]

theorem hasKind_cut (keywords : Keywords) (text : List Rune) (construct : Construct) :
    construct.HasKind (construct.cut keywords text).tag.kind := by
  cases construct with
  | singleQuote =>
      simp only [cut, Cut.ofSingleQuote]
      split
      next => exact .lifetime
      next => exact .char
  | word =>
      simp only [cut, Cut.ofWord, Cut.wordTag]
      split
      next => exact .underscore
      next =>
        split
        next => exact .keyword
        next => exact .identifier
  | symbol found =>
      simp only [cut, Cut.ofSymbol]
      split
      next => exact .operator found
      next => exact .punctuation found
  | shebang | whitespace | lineComment | blockComment | string | byteString | byteChar | rawString
  | rawByteString | rawIdentifier | number | unknown => constructor

/-- The literals that a construct can be. -/
inductive IsLiteral : Construct → LiteralKind → Prop
  | integer : IsLiteral number .integer
  | float : IsLiteral number .float
  | char : IsLiteral singleQuote .char
  | byteChar : IsLiteral byteChar .byteChar
  | string : IsLiteral string .string
  | byteString : IsLiteral byteString .byteString
  | rawString (hashes : UInt32) : IsLiteral (rawString hashes) .rawString
  | rawByteString (hashes : UInt32) : IsLiteral (rawByteString hashes) .rawByteString

theorem isLiteral_of_singleQuote {text : List Rune}
    (h : (Cut.ofSingleQuote text).tag.kind = .literal) :
    IsLiteral singleQuote (Cut.ofSingleQuote text).tag.literal := by
  simp only [Cut.ofSingleQuote] at h ⊢
  split at h
  next => cases h
  next hchar =>
    rw [if_neg hchar]
    exact .char

theorem isLiteral_of_number (text : List Rune) :
    IsLiteral number (Cut.ofNumber text).tag.literal := by
  simp only [Cut.ofNumber, Cut.ofLiteral, Number.scan]
  split
  next =>
    simp only
    split
    next => exact .integer
    next => exact .float
  next => exact .integer

theorem isLiteral_of_cut {keywords : Keywords} {text : List Rune} {construct : Construct}
    (h : (construct.cut keywords text).tag.kind = .literal) :
    construct.IsLiteral (construct.cut keywords text).tag.literal := by
  have hkind := construct.hasKind_cut keywords text
  rw [h] at hkind
  cases hkind with
  | char => exact isLiteral_of_singleQuote h
  | string => exact .string
  | byteString => exact .byteString
  | byteChar => exact .byteChar
  | rawString hashes => exact .rawString hashes
  | rawByteString hashes => exact .rawByteString hashes
  | number => exact isLiteral_of_number text

end Construct

variable {dialect : Dialect} {source : Bytes} {lexeme : Lexeme}

/-- A lexeme is the first cut of its own text, and takes all of it. -/
theorem Dialect.cut_of_mem [XidClasses] (h : lexeme ∈ dialect.lexemes source) :
    ∃ construct : Construct, construct.MarkedIn (runes lexeme.text) ∧
      construct.cut dialect.keywords (runes lexeme.text) =
        { tag := lexeme.toTag, length := (runes lexeme.text).length } := by
  obtain ⟨again, hagain, htag, -⟩ := dialect.lexemes_text_of_mem h
  obtain ⟨next, hnext, hdrain⟩ := Lexer.next?_of_drain_eq_cons hagain
  obtain ⟨hne, hcut, -, -, rfl⟩ := Lexer.next?_eq_some hnext
  let alone := Lexer.ofSource dialect lexeme.text
  have hrest : alone.cursor.rest = runes lexeme.text := rfl
  have hmark : alone.construct.MarkedIn (runes lexeme.text) :=
    Construct.ofText_markedIn _ _
  have hle : alone.cut.length ≤ (runes lexeme.text).length :=
    Construct.cut_length_le _ hne decoded_of_mem_runes hmark
  have hge : (runes lexeme.text).length ≤ alone.cut.length := by
    rw [← List.drop_eq_nil_iff]
    -- The lexer behind the cut yields nothing, so it is at the end.
    cases hlast : ({ alone with cursor := alone.cursor.advance alone.cut.length } : Lexer).next? with
    | none => exact Lexer.next?_eq_none_iff.mp hlast
    | some result =>
        have hcons := Lexer.drain_of_next?_eq_some hlast
        rw [hcons] at hdrain
        cases hdrain
  refine ⟨alone.construct, hmark, ?_⟩
  have hlength : alone.cut.length = (runes lexeme.text).length := Nat.le_antisymm hle hge
  change alone.cut = _
  rw [← hlength, ← htag, hcut]

/-- A literal is the first cut of its own text, as a construct of its kind. -/
theorem Dialect.literal_of_mem [XidClasses] (h : lexeme ∈ dialect.lexemes source)
    (hkind : lexeme.kind = .literal) :
    ∃ construct : Construct, construct.IsLiteral lexeme.literal ∧
      construct.MarkedIn (runes lexeme.text) ∧
      construct.cut dialect.keywords (runes lexeme.text) =
        { tag := lexeme.toTag, length := (runes lexeme.text).length } := by
  obtain ⟨construct, hmark, hcut⟩ := dialect.cut_of_mem h
  have hliteral : construct.IsLiteral lexeme.literal := by
    have htag : (construct.cut dialect.keywords (runes lexeme.text)).tag = lexeme.toTag := by
      rw [hcut]
    rw [← htag]
    apply Construct.isLiteral_of_cut
    rw [htag]
    exact hkind
  exact ⟨construct, hliteral, hmark, hcut⟩

end RustLexer
