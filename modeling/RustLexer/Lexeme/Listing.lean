import RustLexer.Lexeme

/-! # Listing lexemes

Two listings, each with one line for a lexeme: a table row with a description, the place and the text,
and a short form with kind, text and place. Line breaks in a text are made visible, so every line of a
listing is one line.
-/

namespace RustLexer

/-- The details worth naming in a description. -/
def Tag.details (tag : Tag) : List Bytes :=
  let noted := fun (holds : Bool) (detail : String) =>
    if holds then [Bytes.ofAscii detail] else []
  match tag.kind with
  | .lineComment | .blockComment =>
      noted tag.isDoc "doc" ++ noted (!tag.terminated) "unterminated"
  | .identifier => noted tag.isRaw "raw"
  | .literal =>
      let hashes :=
        if tag.literal.isRaw then Bytes.ofAscii "#" ++ Bytes.decimal tag.hashes.toNat else []
      (Bytes.ofAscii tag.literal.name ++ hashes) :: noted (!tag.terminated) "unterminated"
  | .operator | .punctuation => [Bytes.ofAscii tag.symbol.name]
  | .whitespace | .keyword | .lifetime | .unknown => []

/-- The kind and, in parentheses, its details, as in `BlockComment(doc, unterminated)`. -/
def Tag.describe (tag : Tag) : Bytes :=
  let kind := Bytes.ofAscii tag.kind.name
  match tag.details with
  | [] => kind
  | details => kind ++ Bytes.ofAscii "(" ++ Bytes.commaSeparated details ++ Bytes.ofAscii ")"

namespace Lexeme

/-- A row of the table: description, byte offset, line and column, and text. -/
def row (lexeme : Lexeme) : Bytes :=
  let start := lexeme.span.start
  let place := Bytes.decimal start.line ++ Bytes.ofAscii ":" ++ Bytes.decimal start.column
  Bytes.padRight 30 lexeme.describe ++ Bytes.ofAscii " " ++
    Bytes.padLeft 6 (Bytes.decimal start.offset) ++ Bytes.ofAscii "  " ++
    Bytes.padRight 8 place ++ Bytes.ofAscii " " ++ Bytes.visible lexeme.text ++ Bytes.ofAscii "\n"

/-- The short form: kind, text, and line and column. -/
def shortRow (lexeme : Lexeme) : Bytes :=
  let start := lexeme.span.start
  Bytes.ofAscii "[" ++ Bytes.ofAscii lexeme.kind.name ++ Bytes.ofAscii "] '" ++
    Bytes.visible lexeme.text ++ Bytes.ofAscii "' (line " ++ Bytes.decimal start.line ++
    Bytes.ofAscii ", col " ++ Bytes.decimal start.column ++ Bytes.ofAscii ")\n"

end Lexeme

end RustLexer
