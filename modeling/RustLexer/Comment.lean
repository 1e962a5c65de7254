import RustLexer.Text.Lookahead

/-! # Comments

A line comment runs up to the line break that ends it and does not hold it. A block comment runs to the
`*/` that closes it, and block comments nest. The first line of a source may be a shebang, which is
skipped like a line comment.
-/

namespace RustLexer.Comment

/-- Whether a line break, a line feed or a carriage return before one, comes next. -/
def atLineBreak (text : List Rune) : Bool :=
  startsWith text ['\n'] || startsWith text ['\r', '\n']

/-- The number of runes before the end of the line. -/
def lineLength (text : List Rune) : Nat :=
  (findSuffix? atLineBreak text).getD text.length

/-- A line that starts with a two-character mark reaches to the end of that line. -/
def markedLineLength (text : List Rune) : Nat :=
  2 + lineLength (text.drop 2)

/-- A line comment is documentation if it starts with `//!`, or with `///` and no further slash. -/
def isLineDoc (text : List Rune) : Bool :=
  charAt? text 2 == some '!' || (charAt? text 2 == some '/' && charAt? text 3 != some '/')

/-- A block comment is documentation if it starts with `/*!`, or with `/**` and neither a third star
nor the closing slash. -/
def isBlockDoc (text : List Rune) : Bool :=
  charAt? text 2 == some '!' ||
    (charAt? text 2 == some '*' && charAt? text 3 != some '*' && charAt? text 3 != some '/')

/-- The number of runes up to and including the `*/` that closes the block comment a text is inside of;
none if nothing closes it. -/
def closingLength? (text : List Rune) : Option Nat :=
  go 0 0 text
where
  /-- The same count, inside `depth` further comments and with the runes already passed as its start. A
  delimiter is passed as a whole, so `/*/` does not close the comment that it opens. -/
  go (depth passed : Nat) : List Rune → Option Nat
    | [] => none
    | [_] => none
    | first :: second :: rest =>
        if first.char = '/' ∧ second.char = '*' then go (depth + 1) (passed + 2) rest
        else if first.char = '*' ∧ second.char = '/' then
          match depth with
          | 0 => some (passed + 2)
          | depth + 1 => go depth (passed + 2) rest
        else go depth (passed + 1) (second :: rest)

/-- A block comment reaches to its closing delimiter, or to the end of the text if it has none. -/
def blockExtent (text : List Rune) : Extent :=
  match closingLength? (text.drop 2) with
  | some length => { length := 2 + length }
  | none => { length := text.length, terminated := false }

/-- A shebang starts with `#!` and is not the start of an inner attribute, `#![`. -/
def startsShebang (text : List Rune) : Bool :=
  startsWith text ['#', '!'] && charAt? text 2 != some '['

theorem markedLineLength_pos (text : List Rune) : 0 < markedLineLength text :=
  Nat.add_pos_left Nat.two_pos _

theorem blockExtent_length_pos {text : List Rune} (h : text ≠ []) :
    0 < (blockExtent text).length := by
  unfold blockExtent
  split
  · exact Nat.add_pos_left Nat.two_pos _
  · exact List.length_pos_iff.mpr h

end RustLexer.Comment
