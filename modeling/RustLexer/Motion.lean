import RustLexer.Comment
import RustLexer.Literal.Number
import RustLexer.Literal.Quoted
import RustLexer.Literal.RawString
import RustLexer.Text.Cursor

/-! # Motions

The ways in which a cursor moves over a source: by a number of runes, over a run of a class, or over a
construct as far as it reaches. Each is defined at every place, also where the construct does not stand.
-/

namespace RustLexer

inductive Motion
  | runes (count : Nat)
  | run (inClass : Rune → Bool)
  | word
  | number
  | doubleQuoted
  | singleQuoted
  /-- A lifetime or a character literal. -/
  | singleQuote
  | rawString (prefixLength hashes : Nat)
  | lineComment
  | blockComment
  | shebang

/-- The number of runes that a motion takes at the front of a text. -/
def Motion.length [XidClasses] (text : List Rune) : Motion → Nat
  | runes count => count
  | run inClass => runLength inClass text
  | word => wordLength text
  | number => (Number.scan text).length
  | doubleQuoted => (Quoted.doubleExtent text).length
  | singleQuoted => (Quoted.singleExtent text).length
  | singleQuote => (Quoted.singleQuote text).extent.length
  | rawString prefixLength hashes => (RawString.extent prefixLength hashes text).length
  | lineComment | shebang => Comment.markedLineLength text
  | blockComment => (Comment.blockExtent text).length

/-- Moves a cursor. -/
def Cursor.move [XidClasses] (cursor : Cursor) (motion : Motion) : Cursor :=
  cursor.advance (motion.length cursor.rest)

end RustLexer
