import RustLexer.Text.Search

/-! # Byte text

Source text, the texts of lexemes and everything the command prints are sequences of bytes, because a
source need not be well-formed UTF-8. This module fixes that type and the operations on it: ASCII
literals, decimal numerals, padding, trimming, search, and splitting into lines.
-/

namespace RustLexer

/-- Text as a sequence of bytes, with no promise that they are well-formed UTF-8. -/
abbrev Bytes := List UInt8

namespace Bytes

/-- The bytes of an ASCII text, one for each character. -/
def ofAscii (text : String) : Bytes :=
  text.toList.map Char.toUInt8

/-- The decimal numeral of a number, without leading zeros. -/
def decimal (n : Nat) : Bytes :=
  (Nat.toDigits 10 n).map Char.toUInt8

/-- Appends spaces up to a width in bytes; a text at least that wide stays as it is. -/
def padRight (width : Nat) (text : Bytes) : Bytes :=
  text ++ List.replicate (width - text.length) ' '.toUInt8

/-- Prepends spaces up to a width in bytes; a text at least that wide stays as it is. -/
def padLeft (width : Nat) (text : Bytes) : Bytes :=
  List.replicate (width - text.length) ' '.toUInt8 ++ text

/-- Drops the longest run of bytes in a class from the end. -/
def dropTrailing (inClass : UInt8 → Bool) (text : Bytes) : Bytes :=
  (text.reverse.dropWhile inClass).reverse

/-- The ASCII blanks: space, and the control characters from tab to carriage return. -/
def isBlank (byte : UInt8) : Bool :=
  byte == 0x20 || (0x09 ≤ byte && byte ≤ 0x0D)

/-- Drops the ASCII blanks at both ends. -/
def trim (text : Bytes) : Bytes :=
  dropTrailing isBlank (text.dropWhile isBlank)

/-- The lower-case form of an ASCII letter; every other byte is its own. -/
def toLower (byte : UInt8) : UInt8 :=
  if 0x41 ≤ byte ∧ byte ≤ 0x5A then byte + 0x20 else byte

/-- The number of bytes before the first occurrence of `pattern`. -/
def indexOf? (pattern text : Bytes) : Option Nat :=
  findSuffix? pattern.isPrefixOf text

/-- The lines of a text. Each line feed ends a line and belongs to none; what follows the last one is
a line too, so there is always at least one. -/
def lines (text : Bytes) : List Bytes :=
  text.foldr (fun byte lines =>
    if byte = 0x0A then [] :: lines
    else match lines with
      | [] => [[byte]]
      | line :: others => (byte :: line) :: others) [[]]

/-- A text with its line breaks made visible: a line feed reads `<NL>`, a carriage return `<CR>`. -/
def visible (text : Bytes) : Bytes :=
  text.flatMap fun byte =>
    if byte = 0x0A then ofAscii "<NL>"
    else if byte = 0x0D then ofAscii "<CR>"
    else [byte]

/-- Parts joined by a comma and a space. -/
def commaSeparated (parts : List Bytes) : Bytes :=
  (parts.intersperse (ofAscii ", ")).flatten

end Bytes

end RustLexer
