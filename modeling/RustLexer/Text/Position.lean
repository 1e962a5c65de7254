import RustLexer.Text.Rune
import RustLexer.CodePoint

/-! # Positions and spans

A position counts bytes, lines and columns from the start of a source; a column counts runes. Positions
are never computed from offsets: a position moves over the runes that are read, and everything known
about one follows from the runes it has moved over.
-/

namespace RustLexer

namespace Rune

/-- The code point of a rune. -/
def code (rune : Rune) : Nat := rune.char.toNat

def isWhitespace (rune : Rune) : Bool := CodePoint.isWhitespace rune.code

def isDigit (rune : Rune) : Bool := CodePoint.isDigit rune.code

def isHexDigit (rune : Rune) : Bool := CodePoint.isHexDigit rune.code

def isIdentStart [XidClasses] (rune : Rune) : Bool := CodePoint.isIdentStart rune.code

def isIdentContinue [XidClasses] (rune : Rune) : Bool := CodePoint.isIdentContinue rune.code

/-- A rune outside ASCII, a malformed byte included. -/
def isNonAscii (rune : Rune) : Bool := 0x80 ≤ rune.code

end Rune

/-- A point in a source: a byte offset counted from 0, and a line and a column counted from 1. -/
structure Position where
  offset : Nat := 0
  line : Nat := 1
  column : Nat := 1
deriving DecidableEq

namespace Position

/-- The position just after a rune that stands at `position`. -/
def next (position : Position) (rune : Rune) : Position where
  offset := position.offset + rune.bytes.length
  line := if rune.char = '\n' then position.line + 1 else position.line
  column := if rune.char = '\n' then 1 else position.column + 1

/-- The position just after a run of runes. -/
def after (position : Position) (text : List Rune) : Position :=
  text.foldl next position

/-- Moves over runes until at least `offset` bytes have been passed or the runes are used up. -/
def upTo (position : Position) (offset : Nat) : List Rune → Position
  | [] => position
  | rune :: rest =>
      if position.offset < offset then (position.next rune).upTo offset rest else position

/-- Reads a position of a part of the source as one of the whole, where the part starts at `origin`.
Only the first line of the part shares its columns with the line it starts on. -/
def shift (origin position : Position) : Position where
  offset := origin.offset + position.offset
  line := origin.line + (position.line - 1)
  column := if position.line = 1 then origin.column + (position.column - 1) else position.column

@[simp] theorem after_nil (position : Position) : position.after [] = position := rfl

@[simp] theorem after_cons (position : Position) (rune : Rune) (text : List Rune) :
    position.after (rune :: text) = (position.next rune).after text := rfl

theorem after_append (position : Position) (front rest : List Rune) :
    position.after (front ++ rest) = (position.after front).after rest := by
  simp [after]

end Position

/-- The part of a source from one position to just before another. -/
structure Span where
  start : Position := {}
  stop : Position := {}
deriving DecidableEq

namespace Span

/-- The number of bytes in a span, in 64-bit arithmetic: a reversed span has a length that wraps. -/
def length (span : Span) : Nat :=
  (UInt64.ofNat span.stop.offset - UInt64.ofNat span.start.offset).toNat

/-- A span is empty when it stops at the offset where it starts. -/
def isEmpty (span : Span) : Bool :=
  span.stop.offset == span.start.offset

end Span

end RustLexer
