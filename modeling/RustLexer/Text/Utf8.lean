import RustLexer.Text.Bytes

/-! # Well-formed UTF-8 sequences

A well-formed sequence is a lead byte and the continuation bytes it calls for, each in a range that the
lead fixes. The ranges exclude overlong forms, surrogates and values above `10FFFF`, so a sequence that
fits them needs no further test of its value.
-/

namespace RustLexer.Utf8

/-- An inclusive range of bytes. -/
structure ByteRange where
  first : UInt8
  last : UInt8

def ByteRange.contains (range : ByteRange) (byte : UInt8) : Bool :=
  range.first ≤ byte && byte ≤ range.last

/-- The range of a continuation byte that is not narrowed by its lead. -/
def continuation : ByteRange := ⟨0x80, 0xBF⟩

/-- What a lead byte announces: the bits it contributes itself and the ranges of the bytes after it. -/
structure Lead where
  bits : Nat
  tail : List ByteRange

/-- The lead that a byte is, if a well-formed sequence can begin with it. -/
def lead? (byte : UInt8) : Option Lead :=
  if byte < 0x80 then some ⟨byte.toNat, []⟩
  else if byte < 0xC2 then none
  else if byte < 0xE0 then some ⟨byte.toNat - 0xC0, [continuation]⟩
  else if byte = 0xE0 then some ⟨0, [⟨0xA0, 0xBF⟩, continuation]⟩
  else if byte = 0xED then some ⟨0xD, [⟨0x80, 0x9F⟩, continuation]⟩
  else if byte < 0xF0 then some ⟨byte.toNat - 0xE0, [continuation, continuation]⟩
  else if byte = 0xF0 then some ⟨0, [⟨0x90, 0xBF⟩, continuation, continuation]⟩
  else if byte < 0xF4 then some ⟨byte.toNat - 0xF0, [continuation, continuation, continuation]⟩
  else if byte = 0xF4 then some ⟨4, [⟨0x80, 0x8F⟩, continuation, continuation]⟩
  else none

/-- The bytes at the front of a text, one in each of the given ranges. -/
def tail? : List ByteRange → Bytes → Option Bytes
  | [], _ => some []
  | _ :: _, [] => none
  | range :: ranges, byte :: rest =>
      if range.contains byte then (tail? ranges rest).map (byte :: ·) else none

/-- The scalar value of a sequence: each continuation byte adds its low six bits. -/
def scalar (lead : Lead) (tail : Bytes) : Char :=
  Char.ofNat (tail.foldl (fun value byte => value * 64 + (byte.toNat - 0x80)) lead.bits)

end RustLexer.Utf8
