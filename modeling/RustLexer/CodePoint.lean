/-! # Classes of code points

The classes that the lexical grammar is written in. They are defined on all numbers, so a value beyond
the Unicode range is a member of none of them. Which code points beyond ASCII make up identifiers is a
property that Unicode gives them, and everything that is said of the grammar holds whichever they are
(`XidClasses`).
-/

namespace RustLexer

/-- The Unicode properties `XID_Start` and `XID_Continue`. They change from one version of Unicode to the
next, but in each of them whatever may start an identifier may continue one. -/
class XidClasses where
  isStart : Nat → Bool
  isContinue : Nat → Bool
  isContinue_of_isStart {code : Nat} : isStart code = true → isContinue code = true

namespace CodePoint

/-- Pattern white space: the ASCII blanks, next line, the two direction marks, and the line and
paragraph separators. -/
def isWhitespace (code : Nat) : Bool :=
  (0x09 ≤ code && code ≤ 0x0D) || code == 0x20 || code == 0x85 ||
    code == 0x200E || code == 0x200F || code == 0x2028 || code == 0x2029

/-- An ASCII letter of either case. -/
def isLetter (code : Nat) : Bool :=
  (0x61 ≤ code && code ≤ 0x7A) || (0x41 ≤ code && code ≤ 0x5A)

/-- A decimal digit of ASCII. -/
def isDigit (code : Nat) : Bool :=
  0x30 ≤ code && code ≤ 0x39

/-- A hexadecimal digit of ASCII, its letters in either case. -/
def isHexDigit (code : Nat) : Bool :=
  isDigit code || (0x61 ≤ code && code ≤ 0x66) || (0x41 ≤ code && code ≤ 0x46)

/-- The value of a hexadecimal digit. -/
def digitValue (code : Nat) : Nat :=
  if code ≤ 0x39 then code - 0x30
  else if code ≤ 0x46 then code - 0x41 + 10
  else code - 0x61 + 10

variable [XidClasses]

/-- A code point that may start an identifier: a letter of ASCII, `_`, or a code point beyond ASCII with the
property `XID_Start`. -/
def isIdentStart (code : Nat) : Bool :=
  if code < 0x80 then isLetter code || code == 0x5F
  else if 0x10FFFF < code then false
  else XidClasses.isStart code

/-- A code point that may continue an identifier: a letter or a digit of ASCII, `_`, or a code point beyond
ASCII with the property `XID_Continue`. -/
def isIdentContinue (code : Nat) : Bool :=
  if code < 0x80 then isLetter code || isDigit code || code == 0x5F
  else if 0x10FFFF < code then false
  else XidClasses.isContinue code

/-- Whatever may start an identifier may continue one. -/
theorem isIdentContinue_of_isIdentStart {code : Nat} (h : isIdentStart code = true) :
    isIdentContinue code = true := by
  unfold isIdentStart at h
  unfold isIdentContinue
  split at h
  next hascii =>
    rw [if_pos hascii, Bool.or_right_comm, h, Bool.true_or]
  next hascii =>
    split at h
    next => cases h
    next hrange =>
      rw [if_neg hascii, if_neg hrange]
      exact XidClasses.isContinue_of_isStart h

end CodePoint

end RustLexer
