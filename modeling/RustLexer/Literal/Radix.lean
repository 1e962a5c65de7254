import RustLexer.Text.Lookahead

/-! # Radices of numbers

A number is decimal unless it starts with `0` and a letter that marks another radix.
-/

namespace RustLexer

inductive Radix
  | binary
  | octal
  | decimal
  | hexadecimal
deriving DecidableEq

namespace Radix

def base : Radix → Nat
  | binary => 2
  | octal => 8
  | decimal => 10
  | hexadecimal => 16

def name : Radix → String
  | binary => "binary"
  | octal => "octal"
  | decimal => "decimal"
  | hexadecimal => "hexadecimal"

/-- The radix that the rune after a leading zero marks. -/
def ofMark (mark : Rune) : Radix :=
  if mark.char = 'b' then binary
  else if mark.char = 'o' then octal
  else if mark.char = 'x' then hexadecimal
  else decimal

/-- The radix that a number is written in. -/
def ofText : List Rune → Radix
  | zero :: mark :: _ => if zero.char = '0' then ofMark mark else decimal
  | _ => decimal

/-- The digits that a number in a radix runs over. Only hexadecimal numbers run over letters; a digit
that is too large for its radix is part of the number and is reported, not split off. -/
def runsOver (radix : Radix) (rune : Rune) : Bool :=
  if radix = hexadecimal then rune.isHexDigit else rune.isDigit

end Radix

end RustLexer
