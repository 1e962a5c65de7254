import RustLexer.Diagnostic
import RustLexer.Literal.Number

/-! # Checking numbers

The lexer takes as a number whatever runs on from a digit. A number is valid if its digits suit its
radix, its exponent has a digit, and its suffix is the name of a number type. Everything before the
suffix is ASCII, so runes and bytes are counted alike.
-/

namespace RustLexer.Number

/-- The suffixes that name an integer type. -/
def integerSuffixes : List Bytes :=
  ["u8", "u16", "u32", "u64", "u128", "usize", "i8", "i16", "i32", "i64", "i128", "isize"].map
    Bytes.ofAscii

/-- The suffixes that name a floating-point type. -/
def floatSuffixes : List Bytes :=
  ["f32", "f64"].map Bytes.ofAscii

/-- A decimal integer may be given a floating-point type; any other number keeps to its own kind. -/
def acceptsSuffix (isFloat : Bool) (radix : Radix) (suffix : Bytes) : Bool :=
  if isFloat then floatSuffixes.contains suffix
  else integerSuffixes.contains suffix || (radix = .decimal && floatSuffixes.contains suffix)

/-- The fault in a suffix that starts at an offset. -/
def suffixFault? (isFloat : Bool) (radix : Radix) (offset : Nat) (text : List Rune) :
    Option Fault :=
  if text.isEmpty || acceptsSuffix isFloat radix (Rune.encode text) then none
  else some { cause := .numberSuffix isFloat (Rune.encode text), offset }

/-- The fault in the fraction, the exponent and the suffix of a floating-point number, which start at an
offset. -/
def floatFault? (offset : Nat) (text : List Rune) : Option Fault :=
  let fraction :=
    if startsWith text ['.'] then 1 + runLength isDigitOrSeparator (text.drop 1) else 0
  let rest := text.drop fraction
  if startsIn isExponentMark rest then
    let sign := signLength (rest.drop 1)
    let digits := (rest.drop (1 + sign)).takeWhile isDigitOrSeparator
    if digits.any Rune.isDigit then
      let exponent := 1 + sign + digits.length
      suffixFault? true .decimal (offset + fraction + exponent) (rest.drop exponent)
    else some { cause := .noExponentDigits, offset := offset + fraction }
  else suffixFault? true .decimal (offset + fraction) rest

/-- A digit that is too large for a radix. -/
def isOutOfRange (radix : Radix) (rune : Rune) : Bool :=
  radix.runsOver rune && radix.base ≤ CodePoint.digitValue rune.code

/-- The fault in a number. -/
def fault? (isFloat : Bool) (text : List Rune) : Option Fault :=
  let radix := Radix.ofText text
  let mark := if radix = .decimal then 0 else 2
  let digits := (text.drop mark).takeWhile fun rune => radix.runsOver rune || rune.char == '_'
  match digits.findIdx? (isOutOfRange radix) with
  | some index => some { cause := .digitOutOfRange radix, offset := mark + index }
  | none =>
    let offset := mark + digits.length
    let rest := text.drop offset
    if radix ≠ .decimal ∧ !digits.any radix.runsOver then some { cause := .noDigits }
    else if !isFloat then suffixFault? false radix offset rest
    else if radix ≠ .decimal then some { cause := .floatRadix radix }
    else floatFault? offset rest

end RustLexer.Number
