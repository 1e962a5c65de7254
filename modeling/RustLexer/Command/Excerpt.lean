import RustLexer.Diagnostic

/-! # Excerpts

A diagnostic is shown with the line of the source where it is and a line of marks below it: a caret under
the place of the fault, and tildes under the rest of the lexeme if that stands on one line.
-/

namespace RustLexer.Excerpt

/-- The columns that are marked: those of the lexeme if it stands on the line of the fault alone, else
that of the fault. The second column is the one behind the last. -/
def columns (diagnostic : Diagnostic) : Nat × Nat :=
  let { start, stop } := diagnostic.span
  let position := diagnostic.position
  if start.line = position.line ∧ stop.line = position.line then (start.column, stop.column)
  else (position.column, position.column + 1)

/-- The marks: blanks up to the first column, then a caret for the fault and tildes for the others. A
single column has the caret in any case. -/
def marks (diagnostic : Diagnostic) : Bytes :=
  let (first, stop) := columns diagnostic
  let blanks := List.replicate (first - 1) ' '.toUInt8
  if stop ≤ first + 1 then blanks ++ ['^'.toUInt8]
  else
    blanks ++ (List.range' first (stop - first)).map fun column =>
      if column = diagnostic.position.column then '^'.toUInt8 else '~'.toUInt8

/-- The two rows of an excerpt: the line of the source with its number, and the marks behind a margin of
fixed width. There are none for a line that the source does not have. -/
def rows (sourceLines : Array Bytes) (diagnostic : Diagnostic) : Bytes :=
  match diagnostic.position.line with
  | 0 => []
  | line + 1 =>
    match sourceLines[line]? with
    | none => []
    | some text =>
      Bytes.ofAscii "  " ++ Bytes.decimal (line + 1) ++ Bytes.ofAscii " | " ++
        Bytes.dropTrailing (· == '\r'.toUInt8) text ++ Bytes.ofAscii "\n" ++
        Bytes.ofAscii "    | " ++ marks diagnostic ++ Bytes.ofAscii "\n"

end RustLexer.Excerpt
