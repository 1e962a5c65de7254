import RustLexer.Text.Lookahead

/-! # Words

A word is an identifier-shaped run: a rune that may start an identifier and all those after it that may
continue one. Identifiers, keywords, lifetimes and the suffixes of literals are words.
-/

namespace RustLexer

variable [XidClasses]

/-- The number of runes of the word at the front of a text; zero if there is none. -/
def wordLength (text : List Rune) : Nat :=
  if startsIn Rune.isIdentStart text then 1 + runLength Rune.isIdentContinue (text.drop 1) else 0

theorem wordLength_pos {text : List Rune} (h : startsIn Rune.isIdentStart text = true) :
    0 < wordLength text := by
  rw [wordLength, if_pos h]
  exact Nat.add_pos_left Nat.one_pos _

/-- A closed construct takes the word after it as its suffix; an unclosed one has reached the end. -/
def Extent.withSuffix (extent : Extent) (text : List Rune) : Extent :=
  if extent.terminated then
    { extent with length := extent.length + wordLength (text.drop extent.length) }
  else extent

theorem Extent.length_le_withSuffix (extent : Extent) (text : List Rune) :
    extent.length ≤ (extent.withSuffix text).length := by
  unfold Extent.withSuffix
  split
  · exact Nat.le_add_right _ _
  · exact Nat.le_refl _

end RustLexer
