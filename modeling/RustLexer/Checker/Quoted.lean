import RustLexer.Checker.Escape
import RustLexer.Diagnostic

/-! # Checking quoted literals

The body of a quoted literal is a sequence of items, each a rune or an escape, up to the closing quote.
The first faulty item is the fault of the literal; behind a faultless body, a character literal must
have had one item, and nothing may follow the closing quote.
-/

namespace RustLexer.Quoted

/-- The number of runes that an item takes behind its first, or what is wrong with the item. -/
def itemTail (literal : LiteralKind) (rune : Rune) (rest : List Rune) : Except Cause Nat :=
  if rune.char = '\\' then (Escape.length literal rest).mapError .escape
  else if literal.isByte && rune.isNonAscii then .error (.nonAscii literal)
  else if atBareReturn (rune :: rest) then .error .bareReturnInString
  else if literal.isSingle && (rune.char == '\n' || rune.char == '\r' || rune.char == '\t') then
    .error .unescapedControl
  else .ok 0

/-- What reading the body of a literal comes to. -/
inductive Body
  | unclosed
  | faulty (fault : Fault)
  /-- The number of items, and the offset and the runes behind the closing quote. -/
  | closed (items offset : Nat) (rest : List Rune)

/-- Reads the body of a literal, with the items and the bytes already passed. -/
def readBody (literal : LiteralKind) (quote : Char) (items offset : Nat) : List Rune → Body
  | [] => .unclosed
  | rune :: rest =>
      if rune.char = quote then .closed items (offset + rune.bytes.length) rest
      else
        match itemTail literal rune rest with
        | .error cause => .faulty { cause, offset }
        | .ok tail =>
          readBody literal quote (items + 1)
            (offset + rune.bytes.length + Rune.width (rest.take tail)) (rest.drop tail)
termination_by text => text.length
decreasing_by
  simp only [List.length_cons, List.length_drop]
  omega

/-- The fault of a literal that is closed, if it has no faulty item. -/
def closedFault? (literal : LiteralKind) (items offset : Nat) (rest : List Rune) :
    Option Fault :=
  if literal.isSingle && items == 0 then
    if startsWith rest ['\''] then some { cause := .unescapedQuote, offset }
    else some { cause := .emptyCharacter }
  else if literal.isSingle && 1 < items then some { cause := .severalCharacters }
  else if rest.isEmpty then none
  else some { cause := .stringSuffix, offset }

/-- The fault in a quoted literal. A text without a closing quote has none. -/
def fault? (literal : LiteralKind) (text : List Rune) : Option Fault :=
  let marked := if literal.isByte then 1 else 0
  match text.drop marked with
  | [] => none
  | quote :: body =>
    match readBody literal quote.char 0 (Rune.width (text.take (marked + 1))) body with
    | .unclosed => none
    | .faulty fault => some fault
    | .closed items offset rest => closedFault? literal items offset rest

end RustLexer.Quoted
