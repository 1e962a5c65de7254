import RustLexer.Text.Position

/-! # Looking at the runes ahead

The questions that the grammar asks of the runes to come: which character stands at a distance, whether a
spelling comes next, how long a run of one class is.
-/

namespace RustLexer

/-- The character `ahead` runes into a text. -/
def charAt? (text : List Rune) (ahead : Nat) : Option Char :=
  text[ahead]?.map Rune.char

/-- Whether a text starts with the given characters. -/
def startsWith : List Rune → List Char → Bool
  | _, [] => true
  | [], _ :: _ => false
  | rune :: rest, char :: chars => rune.char == char && startsWith rest chars

/-- Whether the first rune of a text is in a class. -/
def startsIn (inClass : Rune → Bool) (text : List Rune) : Bool :=
  text.head?.any inClass

theorem startsIn_iff {inClass : Rune → Bool} {text : List Rune} :
    startsIn inClass text = true ↔ ∃ rune rest, text = rune :: rest ∧ inClass rune = true := by
  cases text with
  | nil => simp [startsIn]
  | cons rune rest => simp [startsIn]

/-- The number of runes in the longest run of a class at the front of a text. -/
def runLength (inClass : Rune → Bool) (text : List Rune) : Nat :=
  (text.takeWhile inClass).length

theorem runLength_pos {inClass : Rune → Bool} {text : List Rune}
    (h : startsIn inClass text = true) : 0 < runLength inClass text := by
  obtain ⟨rune, rest, rfl, hrune⟩ := startsIn_iff.mp h
  rw [runLength, List.takeWhile_cons_of_pos hrune, List.length_cons]
  exact Nat.zero_lt_succ _

/-- Whether a carriage return without a line feed behind it comes next. -/
def atBareReturn (text : List Rune) : Bool :=
  startsWith text ['\r'] && !startsWith text ['\r', '\n']

/-- How far a construct reaches, in runes, and whether it is closed before the text ends. -/
structure Extent where
  length : Nat
  terminated : Bool := true

/-- The extent of a construct together with a number of runes before it. -/
def Extent.precededBy (extent : Extent) (count : Nat) : Extent :=
  { extent with length := count + extent.length }

end RustLexer
