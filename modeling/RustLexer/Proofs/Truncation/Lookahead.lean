import RustLexer.Word

/-! # Looking ahead in a text that is cut off

A lexeme read on its own is the text ahead cut off behind its last rune. A question about the runes ahead
has the same answer there unless it looks further than that, and a spelling that is found there stands in
the whole text too.
-/

namespace RustLexer

variable {text : List Rune} {count : Nat}

theorem startsWith_iff_isPrefix {chars : List Char} :
    startsWith text chars = true ↔ chars <+: text.map Rune.char := by
  induction chars generalizing text with
  | nil => simp [startsWith]
  | cons char chars ih =>
      cases text with
      | nil => simp [startsWith]
      | cons rune rest =>
          rw [List.map_cons, List.cons_prefix_cons, ← ih]
          simp [startsWith, eq_comm (a := rune.char)]

theorem startsWith_of_take {chars : List Char} (h : startsWith (text.take count) chars = true) :
    startsWith text chars = true := by
  rw [startsWith_iff_isPrefix] at h ⊢
  rw [List.map_take] at h
  exact h.trans (List.take_prefix _ _)

theorem startsWith_take {chars : List Char} (h : chars.length ≤ count) :
    startsWith (text.take count) chars = startsWith text chars := by
  rw [Bool.eq_iff_iff, startsWith_iff_isPrefix, startsWith_iff_isPrefix, List.map_take,
    List.prefix_take_iff]
  exact and_iff_left h

theorem startsWith_take_eq_false {chars : List Char} (h : startsWith text chars = false) :
    startsWith (text.take count) chars = false := by
  rw [Bool.eq_false_iff] at h ⊢
  exact mt startsWith_of_take h

theorem length_le_of_startsWith {chars : List Char} (h : startsWith text chars = true) :
    chars.length ≤ text.length := by
  have hlength := (startsWith_iff_isPrefix.mp h).length_le
  rwa [List.length_map] at hlength

theorem drop_one_ne_nil {first second : Char} (h : startsWith text [first, second] = true) :
    text.drop 1 ≠ [] := by
  have htwo : 2 ≤ text.length := length_le_of_startsWith h
  rw [ne_eq, List.drop_eq_nil_iff]
  omega

theorem charAt?_take (text : List Rune) (count ahead : Nat) :
    charAt? (text.take count) ahead = if ahead < count then charAt? text ahead else none := by
  simp only [charAt?, List.getElem?_take]
  split <;> rfl

theorem startsIn_take (inClass : Rune → Bool) (text : List Rune) (h : 0 < count) :
    startsIn inClass (text.take count) = startsIn inClass text := by
  simp only [startsIn, List.head?_take, if_neg (Nat.ne_of_gt h)]

theorem startsIn_of_take {inClass : Rune → Bool} (h : startsIn inClass (text.take count) = true) :
    startsIn inClass text = true := by
  cases count with
  | zero => cases h
  | succ count => rwa [startsIn_take inClass text (Nat.zero_lt_succ count)] at h

theorem runLength_take (inClass : Rune → Bool) (text : List Rune) (count : Nat) :
    runLength inClass (text.take count) = min count (runLength inClass text) := by
  rw [runLength, ← List.take_takeWhile, List.length_take, runLength]

variable [XidClasses]

theorem wordLength_take (text : List Rune) (count : Nat) :
    wordLength (text.take count) = min count (wordLength text) := by
  cases count with
  | zero => simp [wordLength, startsIn]
  | succ count =>
      simp only [wordLength, startsIn_take _ _ (Nat.zero_lt_succ count), List.drop_take,
        runLength_take]
      split <;> omega

namespace Extent

theorem le_of_withSuffix_le {extent : Extent} (h : (extent.withSuffix text).length ≤ count) :
    extent.length ≤ count :=
  Nat.le_trans (extent.length_le_withSuffix text) h

theorem withSuffix_take (extent : Extent) (h : (extent.withSuffix text).length ≤ count) :
    extent.withSuffix (text.take count) = extent.withSuffix text := by
  unfold withSuffix at h ⊢
  split
  next hclosed =>
    rw [if_pos hclosed] at h
    have hword : wordLength ((text.drop extent.length).take (count - extent.length)) =
        wordLength (text.drop extent.length) := by
      rw [wordLength_take]
      apply Nat.min_eq_right
      simp only at h
      omega
    rw [List.drop_take, hword]
  next => rfl

end Extent

end RustLexer
