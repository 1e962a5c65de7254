import RustLexer.Literal
import RustLexer.Literal.Radix

/-! # Numbers

How far a number reaches, without its suffix. A number is its integer part, then a fraction, then an
exponent; it is a floating-point number if it has either of the last two.
-/

namespace RustLexer.Number

/-- A decimal digit or the separator `_`. -/
def isDigitOrSeparator (rune : Rune) : Bool :=
  rune.isDigit || rune.char == '_'

/-- The run of digits and separators after the radix mark, which a decimal number does not have. -/
def markedDigits (radix : Radix) (text : List Rune) : List Rune :=
  (text.drop 2).takeWhile fun rune => radix.runsOver rune || rune.char == '_'

/-- The number of runes in the integer part. A decimal number has a digit at its front already. -/
def integerLength (text : List Rune) : Nat :=
  match Radix.ofText text with
  | .decimal => 1 + runLength isDigitOrSeparator (text.drop 1)
  | radix => 2 + (markedDigits radix text).length

/-- Whether the integer part has a digit. Without one, a number with a radix mark ends there. -/
def hasDigits (text : List Rune) : Bool :=
  match Radix.ofText text with
  | .decimal => true
  | radix => (markedDigits radix text).any radix.runsOver

/-- The number of runes in the fraction at the front of a text; zero if there is none. A dot starts a
fraction only before a digit, which leaves the dots of `1..2` and `1.max(2)` to themselves. -/
def fractionLength (text : List Rune) : Nat :=
  if startsWith text ['.'] && startsIn Rune.isDigit (text.drop 1) then
    1 + runLength isDigitOrSeparator (text.drop 1)
  else 0

/-- A sign of an exponent. -/
def isSign (rune : Rune) : Bool :=
  rune.char == '+' || rune.char == '-'

/-- The number of runes in the sign at the front of a text: one or none. -/
def signLength (text : List Rune) : Nat :=
  if startsIn isSign text then 1 else 0

/-- The mark of an exponent. -/
def isExponentMark (rune : Rune) : Bool :=
  rune.char == 'e' || rune.char == 'E'

/-- The number of runes in the exponent at the front of a text; zero if there is none. The mark and an
optional sign start an exponent only before a digit or a separator. -/
def exponentLength (text : List Rune) : Nat :=
  let sign := signLength (text.drop 1)
  let digits := runLength isDigitOrSeparator (text.drop (1 + sign))
  if startsIn isExponentMark text && 0 < digits then 1 + sign + digits else 0

/-- What kind of number a text starts with and how many runes it takes. -/
structure Scan where
  kind : LiteralKind
  length : Nat

/-- Reads the number at the front of a text, up to its suffix. -/
def scan (text : List Rune) : Scan :=
  let integer := integerLength text
  if hasDigits text then
    let fraction := fractionLength (text.drop integer)
    let exponent := exponentLength (text.drop (integer + fraction))
    { kind := if fraction + exponent = 0 then .integer else .float
      length := integer + fraction + exponent }
  else { kind := .integer, length := integer }

theorem integerLength_pos (text : List Rune) : 0 < integerLength text := by
  unfold integerLength
  split <;> omega

theorem scan_length_pos (text : List Rune) : 0 < (scan text).length := by
  have := integerLength_pos text
  unfold scan
  split <;> simp only <;> omega

end RustLexer.Number
