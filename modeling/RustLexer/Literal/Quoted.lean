import RustLexer.Word

/-! # Quoted literals, characters and lifetimes

A quoted literal ends at the first quote that is not escaped, and a backslash escapes whatever follows
it. A single quote may also start a lifetime, which is a word with no quote after it.
-/

namespace RustLexer.Quoted

/-- The number of runes up to and including the first quote that is not escaped. -/
def closingLength? (quote : Char) (text : List Rune) : Option Nat :=
  go 0 text
where
  /-- The same count, with the runes already passed as its start. -/
  go (passed : Nat) : List Rune → Option Nat
    | [] => none
    | [rune] => if rune.char = quote then some (passed + 1) else none
    | rune :: second :: rest =>
        if rune.char = quote then some (passed + 1)
        else if rune.char = '\\' then go (passed + 2) rest
        else go (passed + 1) (second :: rest)

/-- The number of runes up to and including the closing quote of a double-quoted literal. Here a backslash
takes the rune behind it along only if that is a backslash or a quote. -/
def doubleClosingLength? (text : List Rune) : Option Nat :=
  go 0 text
where
  /-- The same count, with the runes already passed as its start. -/
  go (passed : Nat) : List Rune → Option Nat
    | [] => none
    | [rune] => if rune.char = '"' then some (passed + 1) else none
    | rune :: second :: rest =>
        if rune.char = '"' then some (passed + 1)
        else if rune.char = '\\' ∧ (second.char = '\\' ∨ second.char = '"') then
          go (passed + 2) rest
        else go (passed + 1) (second :: rest)

/-- The extent of a literal that starts with a quote: to its closing quote, or to the end of the text. -/
def extent (quote : Char) (text : List Rune) : Extent :=
  match closingLength? quote (text.drop 1) with
  | some length => { length := 1 + length }
  | none => { length := text.length, terminated := false }

/-- The extent of a double-quoted literal. -/
def doubleExtent (text : List Rune) : Extent :=
  match doubleClosingLength? (text.drop 1) with
  | some length => { length := 1 + length }
  | none => { length := text.length, terminated := false }

/-- The extent of a single-quoted literal. A single rune between quotes is closed by the second quote
even if it is a quote itself, as in `'''`. -/
def singleExtent (text : List Rune) : Extent :=
  if charAt? text 2 == some '\'' && charAt? text 1 != some '\\' then { length := 3 }
  else extent '\'' text

/-- What a single quote starts. -/
structure SingleQuote where
  isLifetime : Bool
  extent : Extent

/-- Reads the lifetime or the character literal at the front of a text. A word after the quote makes a
lifetime, unless a second quote closes it: `'abc'` is a character literal with too many characters. -/
def singleQuote [XidClasses] (text : List Rune) : SingleQuote :=
  if startsIn Rune.isIdentStart (text.drop 1) && charAt? text 2 != some '\'' then
    let length := 2 + runLength Rune.isIdentContinue (text.drop 2)
    if startsWith (text.drop length) ['\''] then
      { isLifetime := false, extent := { length := length + 1 } }
    else { isLifetime := true, extent := { length } }
  else { isLifetime := false, extent := (singleExtent text).withSuffix text }

theorem closingLength?_go_of_plain {quote : Char} {rune : Rune} (hquote : rune.char ≠ quote)
    (hescape : rune.char ≠ '\\') (passed : Nat) (rest : List Rune) :
    closingLength?.go quote passed (rune :: rest) = closingLength?.go quote (passed + 1) rest := by
  cases rest with
  | nil => rw [closingLength?.go, closingLength?.go, if_neg hquote]
  | cons second rest => rw [closingLength?.go, if_neg hquote, if_neg hescape]

/-- A rune that is neither a backslash nor a quote is passed anyway, so it need not be taken along. -/
theorem doubleClosingLength?_go (passed : Nat) (text : List Rune) :
    doubleClosingLength?.go passed text = closingLength?.go '"' passed text := by
  fun_induction doubleClosingLength?.go passed text with
  | case1 => rfl
  | case2 passed rune hquote => rw [closingLength?.go, if_pos hquote]
  | case3 passed rune hquote => rw [closingLength?.go, if_neg hquote]
  | case4 passed rune second rest hquote => rw [closingLength?.go, if_pos hquote]
  | case5 passed rune second rest hquote hescape ih =>
      rw [closingLength?.go, if_neg hquote, if_pos hescape.1, ih]
  | case6 passed rune second rest hquote hescape ih =>
      rw [closingLength?.go, if_neg hquote, ih]
      split
      next hbackslash =>
        have hplain := not_or.mp fun htaken => hescape ⟨hbackslash, htaken⟩
        exact closingLength?_go_of_plain hplain.2 hplain.1 _ _
      next => rfl

theorem doubleExtent_eq (text : List Rune) : doubleExtent text = extent '"' text := by
  rw [doubleExtent, doubleClosingLength?, doubleClosingLength?_go, extent, closingLength?]

theorem extent_length_pos (quote : Char) {text : List Rune} (h : text ≠ []) :
    0 < (extent quote text).length := by
  unfold extent
  split
  · exact Nat.add_pos_left Nat.one_pos _
  · exact List.length_pos_iff.mpr h

theorem doubleExtent_length_pos {text : List Rune} (h : text ≠ []) :
    0 < (doubleExtent text).length := by
  rw [doubleExtent_eq]
  exact extent_length_pos _ h

theorem singleExtent_length_pos {text : List Rune} (h : text ≠ []) :
    0 < (singleExtent text).length := by
  unfold singleExtent
  split
  · exact Nat.zero_lt_succ _
  · exact extent_length_pos _ h

theorem singleQuote_length_pos [XidClasses] {text : List Rune} (h : text ≠ []) :
    0 < (singleQuote text).extent.length := by
  unfold singleQuote
  split
  · simp only
    split <;> simp only <;> omega
  · exact Nat.lt_of_lt_of_le (singleExtent_length_pos h) (Extent.length_le_withSuffix _ _)

end RustLexer.Quoted
