import RustLexer.Diagnostic.Cause

/-! # Checking escapes

An escape is read from just behind its backslash. What may be escaped depends on the literal: code
points are escaped only in literals that hold characters, and a line can be continued only in literals
that hold more than one.
-/

namespace RustLexer.Escape

/-- The characters that stand for themselves or for a control character behind a backslash. -/
def isSimple (char : Char) : Bool :=
  ['n', 'r', 't', '\\', '0', '\'', '"'].contains char

/-- The number of runes of the two hexadecimal digits behind `\x`. Only a byte may exceed `7F`. -/
def hexLength (literal : LiteralKind) : List Rune → Except EscapeFault Nat
  | high :: low :: _ =>
      if high.isHexDigit && low.isHexDigit then
        let value := CodePoint.digitValue high.code * 16 + CodePoint.digitValue low.code
        if !literal.isByte && 0x7F < value then .error .hexOutOfRange else .ok 2
      else .error .shortHex
  | _ => .error .shortHex

/-- Whether a value with a number of digits is that of a character. -/
def checkScalar (digits value : Nat) : Except EscapeFault Unit :=
  if digits = 0 then .error .noDigits
  else if 0x10FFFF < value then .error .beyondUnicode
  else if 0xD800 ≤ value ∧ value ≤ 0xDFFF then .error .surrogate
  else .ok ()

/-- The number of runes up to and including the brace that closes a code point: one to six hexadecimal
digits, with separators behind the first. -/
def codePointLength (text : List Rune) : Except EscapeFault Nat :=
  go 0 0 0 text
where
  /-- The same count, with the runes, the digits and the value already passed. -/
  go (passed digits value : Nat) : List Rune → Except EscapeFault Nat
    | [] => .error .unterminated
    | rune :: rest =>
        if rune.char = '}' then (checkScalar digits value).map fun _ => passed + 1
        else if rune.char = '_' ∧ 0 < digits then go (passed + 1) digits value rest
        else if !rune.isHexDigit then .error .unterminated
        else if digits = 6 then .error .tooManyDigits
        else go (passed + 1) (digits + 1) (value * 16 + CodePoint.digitValue rune.code) rest

/-- The number of runes of the code point behind `\u`. -/
def unicodeLength (literal : LiteralKind) (text : List Rune) : Except EscapeFault Nat :=
  if literal.isByte then .error .unicodeInByte
  else if startsWith text ['{'] then (codePointLength (text.drop 1)).map (1 + ·)
  else .error .missingBrace

/-- The number of runes that an escape takes behind its backslash. An escaped line break takes all the
whitespace behind it. -/
def length (literal : LiteralKind) : List Rune → Except EscapeFault Nat
  | [] => .error (.unknown [])
  | rune :: rest =>
      if isSimple rune.char then .ok 1
      else if rune.char = 'x' then (hexLength literal rest).map (1 + ·)
      else if rune.char = 'u' then (unicodeLength literal rest).map (1 + ·)
      else if literal.isSingle then .error (.unknown rune.bytes)
      else if rune.char = '\r' ∧ startsWith rest ['\n'] then
        .ok (2 + runLength Rune.isWhitespace (rest.drop 1))
      else if rune.char = '\n' then .ok (1 + runLength Rune.isWhitespace rest)
      else .error (.unknown rune.bytes)

end RustLexer.Escape
