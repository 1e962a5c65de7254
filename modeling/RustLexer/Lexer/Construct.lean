import RustLexer.Comment
import RustLexer.Literal
import RustLexer.Literal.RawString
import RustLexer.Symbol
import RustLexer.Word

/-! # Which construct comes next

The first few runes of a text decide which construct of the language starts there; only for a raw string
does the decision look past a run of `#` signs. The construct is known by a mark at the front of the text
(`Construct.ofText_markedIn`); how far it reaches is another question.
-/

namespace RustLexer

/-- The constructs that a source is made of. -/
inductive Construct
  | shebang
  | whitespace
  | lineComment
  | blockComment
  /-- A lifetime or a character literal. -/
  | singleQuote
  | string
  | byteString
  | byteChar
  | rawString (hashes : UInt32)
  | rawByteString (hashes : UInt32)
  /-- An identifier that is written with `r#`. -/
  | rawIdentifier
  | number
  | word
  | symbol (symbol : Symbol)
  /-- A rune that starts no other construct. -/
  | unknown
deriving DecidableEq

namespace Construct

/-- The raw string that a text starts with, if it starts with one. -/
def rawString? (text : List Rune) : Option Construct :=
  if startsWith text ['b', 'r'] then (RawString.hashes? (text.drop 2)).map rawByteString
  else if startsWith text ['r'] then (RawString.hashes? (text.drop 1)).map rawString
  else none

variable [XidClasses]

/-- The construct that a text starts with, if it does not start with a quote, a comment or whitespace. -/
def ofPlainText (text : List Rune) : Construct :=
  match rawString? text with
  | some construct => construct
  | none =>
    if startsWith text ['r', '#'] && startsIn Rune.isIdentStart (text.drop 2) then rawIdentifier
    else if startsIn Rune.isDigit text then number
    else if startsIn Rune.isIdentStart text then word
    else
      match Symbol.longest? text with
      | some found => symbol found
      | none => unknown

/-- The construct that a text starts with. Only at the start of a source can it be a shebang. -/
def ofText (atStart : Bool) (text : List Rune) : Construct :=
  if atStart && Comment.startsShebang text then shebang
  else if startsIn Rune.isWhitespace text then whitespace
  else if startsWith text ['/', '/'] then lineComment
  else if startsWith text ['/', '*'] then blockComment
  else if startsWith text ['\''] then singleQuote
  else if startsWith text ['"'] then string
  else if startsWith text ['b', '"'] then byteString
  else if startsWith text ['b', '\''] then byteChar
  else ofPlainText text

/-- Apart from a shebang, what comes next does not depend on where a text stands. -/
theorem ofText_of_not_shebang {text : List Rune} (h : Comment.startsShebang text = false)
    (atStart : Bool) : ofText atStart text = ofText false text := by
  simp [ofText, h]

/-! ## Marks -/

/-- The mark at the front of a text that a construct is known by. -/
def MarkedIn (text : List Rune) : Construct → Prop
  | shebang => Comment.startsShebang text = true
  | whitespace => startsIn Rune.isWhitespace text = true
  | lineComment => startsWith text ['/', '/'] = true
  | blockComment => startsWith text ['/', '*'] = true
  | singleQuote => startsWith text ['\''] = true
  | string => startsWith text ['"'] = true
  | byteString => startsWith text ['b', '"'] = true
  | byteChar => startsWith text ['b', '\''] = true
  | rawString hashes =>
      startsWith text ['r'] = true ∧ RawString.hashes? (text.drop 1) = some hashes
  | rawByteString hashes =>
      startsWith text ['b', 'r'] = true ∧ RawString.hashes? (text.drop 2) = some hashes
  | rawIdentifier =>
      startsWith text ['r', '#'] = true ∧ startsIn Rune.isIdentStart (text.drop 2) = true
  | number => startsIn Rune.isDigit text = true
  | word => startsIn Rune.isIdentStart text = true
  | symbol found => Symbol.longest? text = some found
  | unknown => True

theorem markedIn_of_rawString? {text : List Rune} {construct : Construct}
    (h : rawString? text = some construct) : construct.MarkedIn text := by
  unfold rawString? at h
  split at h
  next hbyte =>
    obtain ⟨hashes, hhashes, rfl⟩ := Option.map_eq_some_iff.mp h
    exact ⟨hbyte, hhashes⟩
  next =>
    split at h
    next hraw =>
      obtain ⟨hashes, hhashes, rfl⟩ := Option.map_eq_some_iff.mp h
      exact ⟨hraw, hhashes⟩
    next => cases h

theorem ofPlainText_markedIn (text : List Rune) : (ofPlainText text).MarkedIn text := by
  unfold ofPlainText
  split
  next hraw => exact markedIn_of_rawString? hraw
  next =>
    split
    next hident => exact Bool.and_eq_true_iff.mp hident
    next =>
    split
    next hdigit => exact hdigit
    next =>
    split
    next hstart => exact hstart
    next =>
    split
    next hfound => exact hfound
    next => trivial

/-- The construct that a text starts with has its mark there. -/
theorem ofText_markedIn (atStart : Bool) (text : List Rune) :
    (ofText atStart text).MarkedIn text := by
  unfold ofText
  split
  next hshebang => exact (Bool.and_eq_true_iff.mp hshebang).2
  next =>
  split
  next hwhite => exact hwhite
  next =>
  split
  next hline => exact hline
  next =>
  split
  next hblock => exact hblock
  next =>
  split
  next hquote => exact hquote
  next =>
  split
  next hquote => exact hquote
  next =>
  split
  next hbyte => exact hbyte
  next =>
  split
  next hbyte => exact hbyte
  next => exact ofPlainText_markedIn text

end Construct

end RustLexer
