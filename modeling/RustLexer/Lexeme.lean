import RustLexer.Literal
import RustLexer.Symbol

/-! # Lexemes

A lexeme is a piece of the source with its place and its tag. The tag says what the lexeme is; a detail
that has no meaning for a kind keeps its default there.
-/

namespace RustLexer

inductive LexemeKind
  | whitespace
  | lineComment
  | blockComment
  | identifier
  | keyword
  | lifetime
  | literal
  | operator
  | punctuation
  | unknown
deriving DecidableEq

namespace LexemeKind

def all : List LexemeKind :=
  [whitespace, lineComment, blockComment, identifier, keyword, lifetime, literal, operator,
   punctuation, unknown]

def name : LexemeKind → String
  | whitespace => "Whitespace"
  | lineComment => "LineComment"
  | blockComment => "BlockComment"
  | identifier => "Identifier"
  | keyword => "Keyword"
  | lifetime => "Lifetime"
  | literal => "Literal"
  | operator => "Operator"
  | punctuation => "Punctuation"
  | unknown => "Unknown"

end LexemeKind

/-- What a lexeme is: its kind and the details of that kind. -/
structure Tag where
  kind : LexemeKind
  /-- The kind of a literal. -/
  literal : LiteralKind := .integer
  /-- The symbol that an operator or a punctuation mark is. -/
  symbol : Symbol := .semi
  /-- The number of `#` signs that delimit a raw string. -/
  hashes : UInt32 := 0
  /-- Whether a comment is documentation. -/
  isDoc : Bool := false
  /-- Whether an identifier is written with `r#`. -/
  isRaw : Bool := false
  /-- Whether a block comment or a literal is closed. -/
  terminated : Bool := true
deriving DecidableEq

/-- A tagged piece of a source. Its text is the bytes of the source, escapes included. -/
structure Lexeme extends Tag where
  text : Bytes := []
  span : Span := {}
deriving DecidableEq

/-- Whitespace and comments, those that are documentation apart. -/
def Tag.isTrivia (tag : Tag) : Bool :=
  match tag.kind with
  | .whitespace => true
  | .lineComment | .blockComment => !tag.isDoc
  | _ => false

end RustLexer
