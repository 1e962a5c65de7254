import RustLexer.Text.Bytes

/-! # Kinds of literals -/

namespace RustLexer

inductive LiteralKind
  | integer
  | float
  | char
  | byteChar
  | string
  | byteString
  | rawString
  | rawByteString
deriving DecidableEq

namespace LiteralKind

def all : List LiteralKind :=
  [integer, float, char, byteChar, string, byteString, rawString, rawByteString]

def name : LiteralKind → String
  | integer => "Integer"
  | float => "Float"
  | char => "Char"
  | byteChar => "ByteChar"
  | string => "String"
  | byteString => "ByteString"
  | rawString => "RawString"
  | rawByteString => "RawByteString"

/-- Byte literals hold bytes, so nothing outside ASCII may stand in them. -/
def isByte : LiteralKind → Bool
  | byteChar | byteString | rawByteString => true
  | _ => false

/-- The quoted literals that hold a single character. -/
def isSingle : LiteralKind → Bool
  | char | byteChar => true
  | _ => false

/-- Raw literals have no escapes; a run of `#` signs widens their delimiters. -/
def isRaw : LiteralKind → Bool
  | rawString | rawByteString => true
  | _ => false

end LiteralKind

end RustLexer
