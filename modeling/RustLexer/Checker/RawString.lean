import RustLexer.Diagnostic

/-! # Checking raw strings

The body of a raw string is what stands between its opening delimiter and the first closing one. It is
found in the bytes, since quotes and `#` signs are single bytes, and read rune by rune.
-/

namespace RustLexer.RawString

/-- The largest number of `#` signs that may delimit a raw string. -/
def maxHashes : UInt32 := 255

/-- The delimiter that closes a raw string. -/
def closing (hashes : Nat) : Bytes :=
  '"'.toUInt8 :: List.replicate hashes '#'.toUInt8

/-- Whether the next rune may not stand in a raw string. -/
def atFault (literal : LiteralKind) (text : List Rune) : Bool :=
  (literal.isByte && startsIn Rune.isNonAscii text) || atBareReturn text

/-- The fault in a body that starts at an offset. -/
def bodyFault? (literal : LiteralKind) (offset : Nat) (body : List Rune) : Option Fault :=
  (findSuffix? (atFault literal) body).map fun index =>
    { cause :=
        if startsIn Rune.isNonAscii (body.drop index) then .nonAscii literal
        else .bareReturnInRawString
      offset := offset + Rune.width (body.take index) }

/-- The fault in a raw string. A text without a closing delimiter has none. -/
def fault? (literal : LiteralKind) (hashes : Nat) (text : Bytes) : Option Fault :=
  let opening := (if literal.isByte then 2 else 1) + hashes + 1
  let content := text.drop opening
  match Bytes.indexOf? (closing hashes) content with
  | none => none
  | some length =>
    match bodyFault? literal opening (runes (content.take length)) with
    | some fault => some fault
    | none =>
      let stop := opening + length + (hashes + 1)
      if stop < text.length then some { cause := .stringSuffix, offset := stop } else none

end RustLexer.RawString
