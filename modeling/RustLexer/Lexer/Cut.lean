import RustLexer.Keywords
import RustLexer.Lexeme
import RustLexer.Lexer.Construct
import RustLexer.Literal.Number
import RustLexer.Literal.Quoted

/-! # Cutting off a construct

A cut says what the lexeme of a construct is and how many runes it takes. It depends on the construct,
on the runes ahead and on the keyword table alone. The cut of a construct that has its mark at the front
of a text takes at least one rune (`Construct.cut_length_pos`), and the construct that a text starts with
has it there, so any text at all is used up by cutting.
-/

namespace RustLexer

/-- What the next lexeme is and how many runes it takes. -/
structure Cut where
  tag : Tag
  length : Nat

namespace Cut

/-- A literal with its extent. -/
def ofLiteral (literal : LiteralKind) (extent : Extent) : Cut where
  tag := { kind := .literal, literal, terminated := extent.terminated }
  length := extent.length

variable [XidClasses]

/-- A raw string with a prefix of the given length and a number of `#` signs. -/
def ofRawString (literal : LiteralKind) (prefixLength : Nat) (hashes : UInt32)
    (text : List Rune) : Cut :=
  let extent := (RawString.extent prefixLength hashes.toNat text).withSuffix text
  { tag := { kind := .literal, literal, hashes, terminated := extent.terminated }
    length := extent.length }

def ofBlockComment (text : List Rune) : Cut :=
  let extent := Comment.blockExtent text
  { tag :=
      { kind := .blockComment, isDoc := Comment.isBlockDoc text, terminated := extent.terminated }
    length := extent.length }

/-- A lifetime, or a character literal. -/
def ofSingleQuote (text : List Rune) : Cut :=
  let quote := Quoted.singleQuote text
  if quote.isLifetime then { tag := { kind := .lifetime }, length := quote.extent.length }
  else ofLiteral .char quote.extent

/-- A number with its suffix. -/
def ofNumber (text : List Rune) : Cut :=
  let scan := Number.scan text
  ofLiteral scan.kind ({ length := scan.length : Extent }.withSuffix text)

/-- What a word is: a keyword if the table has it, else an identifier; `_` alone is punctuation. -/
def wordTag (keywords : Keywords) (word : Bytes) : Tag :=
  if word = Symbol.underscore.text then { kind := .punctuation, symbol := .underscore }
  else if keywords.contains word then { kind := .keyword }
  else { kind := .identifier }

def ofWord (keywords : Keywords) (text : List Rune) : Cut :=
  let length := wordLength text
  { tag := wordTag keywords (Rune.encode (text.take length)), length }

def ofSymbol (symbol : Symbol) : Cut where
  tag :=
    { kind :=
        match symbol.symbolClass with
        | .operator => .operator
        | .punctuation => .punctuation
      symbol }
  length := symbol.length

end Cut

variable [XidClasses]

/-- The cut of the construct that a text starts with. -/
def Construct.cut (keywords : Keywords) (text : List Rune) : Construct → Cut
  | shebang => { tag := { kind := .lineComment }, length := Comment.markedLineLength text }
  | whitespace => { tag := { kind := .whitespace }, length := runLength Rune.isWhitespace text }
  | lineComment =>
      { tag := { kind := .lineComment, isDoc := Comment.isLineDoc text }
        length := Comment.markedLineLength text }
  | blockComment => Cut.ofBlockComment text
  | singleQuote => Cut.ofSingleQuote text
  | string => Cut.ofLiteral .string ((Quoted.doubleExtent text).withSuffix text)
  | byteString =>
      let extent := (Quoted.doubleExtent (text.drop 1)).precededBy 1
      Cut.ofLiteral .byteString (extent.withSuffix text)
  | byteChar =>
      let extent := (Quoted.singleExtent (text.drop 1)).precededBy 1
      Cut.ofLiteral .byteChar (extent.withSuffix text)
  | rawString hashes => Cut.ofRawString .rawString 1 hashes text
  | rawByteString hashes => Cut.ofRawString .rawByteString 2 hashes text
  | rawIdentifier =>
      { tag := { kind := .identifier, isRaw := true }, length := 2 + wordLength (text.drop 2) }
  | number => Cut.ofNumber text
  | word => Cut.ofWord keywords text
  | symbol found => Cut.ofSymbol found
  | unknown => { tag := { kind := .unknown }, length := 1 }

/-! ## Progress -/

theorem Cut.ofLiteral_withSuffix_length_pos (literal : LiteralKind) {extent : Extent}
    (text : List Rune) (h : 0 < extent.length) :
    0 < (ofLiteral literal (extent.withSuffix text)).length :=
  Nat.lt_of_lt_of_le h (Extent.length_le_withSuffix _ _)

theorem Cut.ofRawString_length_pos (literal : LiteralKind) (prefixLength : Nat) (hashes : UInt32)
    {text : List Rune} (h : text ≠ []) :
    0 < (ofRawString literal prefixLength hashes text).length :=
  Nat.lt_of_lt_of_le (RawString.extent_length_pos _ _ h) (Extent.length_le_withSuffix _ _)

theorem Cut.ofSingleQuote_length_pos {text : List Rune} (h : text ≠ []) :
    0 < (ofSingleQuote text).length := by
  have := Quoted.singleQuote_length_pos h
  unfold ofSingleQuote
  simp only
  split <;> exact this

/-- The cut of a construct that a text starts with takes at least one rune. Whitespace and words take the
run that they find, and it is by their marks that there is one. -/
theorem Construct.cut_length_pos (keywords : Keywords) {text : List Rune} (h : text ≠ [])
    {construct : Construct} (hmark : construct.MarkedIn text) :
    0 < (construct.cut keywords text).length := by
  cases construct with
  | shebang => exact Comment.markedLineLength_pos text
  | whitespace => exact runLength_pos hmark
  | lineComment => exact Comment.markedLineLength_pos text
  | blockComment => exact Comment.blockExtent_length_pos h
  | singleQuote => exact Cut.ofSingleQuote_length_pos h
  | string => exact Cut.ofLiteral_withSuffix_length_pos _ text (Quoted.doubleExtent_length_pos h)
  | byteString =>
      exact Cut.ofLiteral_withSuffix_length_pos _ text (Nat.add_pos_left Nat.one_pos _)
  | byteChar =>
      exact Cut.ofLiteral_withSuffix_length_pos _ text (Nat.add_pos_left Nat.one_pos _)
  | rawString hashes => exact Cut.ofRawString_length_pos _ _ _ h
  | rawByteString hashes => exact Cut.ofRawString_length_pos _ _ _ h
  | rawIdentifier => exact Nat.add_pos_left Nat.two_pos _
  | number => exact Cut.ofLiteral_withSuffix_length_pos _ text (Number.scan_length_pos text)
  | word => exact wordLength_pos hmark
  | symbol found => exact found.length_pos
  | unknown => exact Nat.one_pos

end RustLexer
