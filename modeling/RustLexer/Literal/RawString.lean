import RustLexer.Text.Lookahead

/-! # Raw strings

A raw string is delimited by quotes with the same number of `#` signs outside both. Nothing is escaped
in it, so it ends at the first quote that enough `#` signs follow.
-/

namespace RustLexer.RawString

def isHash (rune : Rune) : Bool := rune.char == '#'

/-- The number of `#` signs before the opening quote, as a 32-bit word; none if a text does not start
with `#` signs and a quote. -/
def hashes? (text : List Rune) : Option UInt32 :=
  let count := runLength isHash text
  if startsWith (text.drop count) ['"'] then some (UInt32.ofNat count) else none

/-- The runes that remain after a number of bytes; none if that cuts a rune or exceeds the text. -/
def dropBytes? (count : Nat) : List Rune → Option (List Rune)
  | [] => if count = 0 then some [] else none
  | rune :: rest =>
      if count = 0 then some (rune :: rest)
      else if rune.bytes.length ≤ count then dropBytes? (count - rune.bytes.length) rest
      else none

/-- Whether a quote with at least `hashes` signs after it comes next. -/
def atClosing (hashes : Nat) (text : List Rune) : Bool :=
  startsWith text ['"'] && hashes ≤ runLength isHash (text.drop 1)

/-- The extent of a raw string whose prefix has `prefixLength` runes: to the end of its closing
delimiter, or to the end of the text. -/
def extent (prefixLength hashes : Nat) (text : List Rune) : Extent :=
  let opening := prefixLength + hashes + 1
  match findSuffix? (atClosing hashes) (text.drop opening) with
  | some body => { length := opening + body + 1 + hashes }
  | none => { length := text.length, terminated := false }

theorem extent_length_pos (prefixLength hashes : Nat) {text : List Rune} (h : text ≠ []) :
    0 < (extent prefixLength hashes text).length := by
  unfold extent
  simp only
  split
  · simp only
    omega
  · exact List.length_pos_iff.mpr h

end RustLexer.RawString
