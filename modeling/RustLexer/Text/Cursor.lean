import RustLexer.Text.Position

/-! # Cursors

A cursor is a place in a source together with the runes that are still to come. It only moves forward,
and it moves by whole runes; what a construct is and how far it reaches is decided on the runes ahead
alone, so every motion is `advance` by a number of runes.
-/

namespace RustLexer

structure Cursor where
  source : Bytes
  rest : List Rune
  position : Position := {}

namespace Cursor

/-- The cursor at the start of a source. -/
def ofSource (source : Bytes) : Cursor where
  source := source
  rest := runes source

/-- Whether the source has been read to its end. -/
def atEnd (cursor : Cursor) : Bool := cursor.rest.isEmpty

/-- Whether nothing of the source has been read. -/
def atStart (cursor : Cursor) : Bool := cursor.position.offset == 0

/-- The rune that stands `ahead` runes after the cursor. -/
def peek? (cursor : Cursor) (ahead : Nat) : Option Rune := cursor.rest[ahead]?

/-- Moves over `count` runes, or over those that are left if they are fewer. -/
def advance (cursor : Cursor) (count : Nat) : Cursor where
  source := cursor.source
  rest := cursor.rest.drop count
  position := cursor.position.after (cursor.rest.take count)

/-- The bytes from an offset up to the cursor; none if the offset is beyond it. -/
def textFrom (cursor : Cursor) (start : Nat) : Bytes :=
  (cursor.source.take cursor.position.offset).drop start

end Cursor

end RustLexer
