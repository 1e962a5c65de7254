import RustLexer.Literal
import RustLexer.Literal.Radix

/-! # What can be wrong with a lexeme

Each cause has one wording. All causes are errors but one: a lone carriage return in a doc comment is
only warned of.
-/

namespace RustLexer

inductive Severity
  | error
  | warning
deriving DecidableEq

def Severity.name : Severity → String
  | error => "error"
  | warning => "warning"

/-- What can be wrong with an escape in a quoted literal. -/
inductive EscapeFault
  /-- No escape starts with this text. -/
  | unknown (escaped : Bytes)
  | shortHex
  | hexOutOfRange
  | unicodeInByte
  | missingBrace
  | unterminated
  | tooManyDigits
  | noDigits
  | beyondUnicode
  | surrogate
deriving DecidableEq

def EscapeFault.message : EscapeFault → Bytes
  | unknown escaped =>
      Bytes.ofAscii "unknown character escape: `" ++ Bytes.visible escaped ++ Bytes.ofAscii "`"
  | shortHex => Bytes.ofAscii "numeric character escape is too short"
  | hexOutOfRange => Bytes.ofAscii "out of range hex escape: must be at most \\x7F"
  | unicodeInByte => Bytes.ofAscii "unicode escape in byte string"
  | missingBrace => Bytes.ofAscii "incorrect unicode escape sequence"
  | unterminated => Bytes.ofAscii "unterminated unicode escape"
  | tooManyDigits => Bytes.ofAscii "overlong unicode escape"
  | noDigits => Bytes.ofAscii "empty unicode escape"
  | beyondUnicode => Bytes.ofAscii "invalid unicode character escape: must be at most 10FFFF"
  | surrogate => Bytes.ofAscii "invalid unicode character escape: must not be a surrogate"

/-- What can be wrong with a lexeme. -/
inductive Cause
  | unknownLexeme (text : Bytes)
  | unterminatedBlockComment
  | unterminatedLiteral (literal : LiteralKind)
  | bareReturnInDoc
  | tooManyHashes
  /-- A digit that is too large for the radix. -/
  | digitOutOfRange (radix : Radix)
  | noDigits
  /-- A floating-point number that is not decimal. -/
  | floatRadix (radix : Radix)
  | noExponentDigits
  | numberSuffix (isFloat : Bool) (suffix : Bytes)
  /-- Something outside ASCII in a byte literal. -/
  | nonAscii (literal : LiteralKind)
  | bareReturnInString
  | bareReturnInRawString
  /-- A line break or a tab as a character literal. -/
  | unescapedControl
  /-- A quote as a character literal. -/
  | unescapedQuote
  | emptyCharacter
  | severalCharacters
  | stringSuffix
  | escape (fault : EscapeFault)
deriving DecidableEq

namespace Cause

def severity : Cause → Severity
  | bareReturnInDoc => .warning
  | _ => .error

/-- The wording for a literal that is not closed. -/
def unterminatedMessage : LiteralKind → String
  | .char => "unterminated character literal"
  | .byteChar => "unterminated byte constant"
  | .string => "unterminated double quote string"
  | .byteString => "unterminated double quote byte string"
  | .rawString => "unterminated raw string"
  | .rawByteString => "unterminated raw byte string"
  | .integer | .float => "unterminated literal"

/-- The wording for something outside ASCII in a byte literal. -/
def nonAsciiMessage : LiteralKind → String
  | .byteChar => "non-ASCII character in byte constant"
  | .rawByteString => "non-ASCII character in raw byte string literal"
  | _ => "non-ASCII character in byte string literal"

/-- The wording of a cause. -/
def message : Cause → Bytes
  | unknownLexeme text => Bytes.ofAscii "unknown start of token: " ++ text
  | unterminatedBlockComment => Bytes.ofAscii "unterminated block comment"
  | unterminatedLiteral literal => Bytes.ofAscii (unterminatedMessage literal)
  | bareReturnInDoc => Bytes.ofAscii "bare CR not allowed in doc-comment"
  | tooManyHashes =>
      Bytes.ofAscii
        "too many `#` symbols: raw strings may be delimited by up to 255 `#` symbols"
  | digitOutOfRange radix =>
      Bytes.ofAscii "invalid digit for a base " ++ Bytes.decimal radix.base ++
        Bytes.ofAscii " literal"
  | noDigits => Bytes.ofAscii "no valid digits found for number"
  | floatRadix radix =>
      Bytes.ofAscii radix.name ++ Bytes.ofAscii " float literal is not supported"
  | noExponentDigits => Bytes.ofAscii "expected at least one digit in exponent"
  | numberSuffix isFloat suffix =>
      Bytes.ofAscii "invalid suffix `" ++ suffix ++ Bytes.ofAscii "` for " ++
        Bytes.ofAscii (if isFloat then "float" else "number") ++ Bytes.ofAscii " literal"
  | nonAscii literal => Bytes.ofAscii (nonAsciiMessage literal)
  | bareReturnInString => Bytes.ofAscii "bare CR not allowed in string, use \\r instead"
  | bareReturnInRawString => Bytes.ofAscii "bare CR not allowed in raw string"
  | unescapedControl => Bytes.ofAscii "character constant must be escaped"
  | unescapedQuote => Bytes.ofAscii "character constant must be escaped: `'`"
  | emptyCharacter => Bytes.ofAscii "empty character literal"
  | severalCharacters => Bytes.ofAscii "character literal may only contain one codepoint"
  | stringSuffix => Bytes.ofAscii "suffixes on string literals are invalid"
  | escape fault => fault.message

end Cause

end RustLexer
