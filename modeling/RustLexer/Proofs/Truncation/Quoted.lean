import RustLexer.Literal.Quoted
import RustLexer.Literal.RawString
import RustLexer.Proofs.Truncation.Lookahead

/-! # Quoted literals in a text that is cut off

A literal with a closing quote reaches as far in the text cut off behind it as in the whole text, since
the quote is found there again. An unclosed literal reaches to the end, so nothing is cut off.
-/

namespace RustLexer

variable {text : List Rune} {count : Nat}

namespace Quoted

/-! ## Quoted literals and lifetimes -/

theorem lt_of_closingLength?_go {quote : Char} {passed total : Nat}
    (h : closingLength?.go quote passed text = some total) : passed < total := by
  fun_induction closingLength?.go quote passed text with
  | case1 => cases h
  | case2 => exact Nat.le_of_eq (Option.some.inj h)
  | case3 => cases h
  | case4 => exact Nat.le_of_eq (Option.some.inj h)
  | case5 passed rune second rest hquote hescape ih => exact Nat.le_trans (by omega) (ih h)
  | case6 passed rune second rest hquote hescape ih => exact Nat.le_trans (by omega) (ih h)

theorem closingLength?_go_take {quote : Char} {passed total : Nat}
    (h : closingLength?.go quote passed text = some total) (hcount : total ≤ passed + count) :
    closingLength?.go quote passed (text.take count) = some total := by
  -- The closing quote is kept, so the text does not end before it.
  have hlt := lt_of_closingLength?_go h
  obtain ⟨count, rfl⟩ := Nat.exists_eq_add_of_le' (show 1 ≤ count by omega)
  fun_induction closingLength?.go quote passed text generalizing count with
  | case1 => cases h
  | case2 passed rune hquote => simpa [closingLength?.go, hquote] using h
  | case3 => cases h
  | case4 passed rune second rest hquote =>
      cases count with
      | zero => simpa [closingLength?.go, hquote] using h
      | succ count =>
          rw [List.take_succ_cons, List.take_succ_cons, closingLength?.go, if_pos hquote]
          exact h
  | case5 passed rune second rest hquote hescape ih =>
      have hrest := lt_of_closingLength?_go h
      obtain ⟨count, rfl⟩ := Nat.exists_eq_add_of_le' (show 2 ≤ count by omega)
      rw [List.take_succ_cons, List.take_succ_cons, closingLength?.go, if_neg hquote,
        if_pos hescape]
      exact ih h hrest count (by omega)
  | case6 passed rune second rest hquote hescape ih =>
      have hrest := lt_of_closingLength?_go h
      obtain ⟨count, rfl⟩ := Nat.exists_eq_add_of_le' (show 1 ≤ count by omega)
      rw [List.take_succ_cons, List.take_succ_cons, closingLength?.go, if_neg hquote,
        if_neg hescape, ← List.take_succ_cons]
      exact ih h hrest count (by omega)

theorem extent_take {quote : Char} (h : (extent quote text).length ≤ count) :
    extent quote (text.take count) = extent quote text := by
  unfold extent at h
  cases hclosing : closingLength? quote (text.drop 1) with
  | some length =>
      simp only [hclosing] at h
      have htake : closingLength? quote ((text.take count).drop 1) = some length := by
        rw [List.drop_take]
        exact closingLength?_go_take hclosing (by omega)
      rw [extent, extent, hclosing, htake]
  | none =>
      simp only [hclosing] at h
      rw [List.take_of_length_le h]

theorem doubleExtent_take (h : (doubleExtent text).length ≤ count) :
    doubleExtent (text.take count) = doubleExtent text := by
  rw [doubleExtent_eq] at h ⊢
  rw [extent_take h, doubleExtent_eq]

theorem singleExtent_take (h : (singleExtent text).length ≤ count) :
    singleExtent (text.take count) = singleExtent text := by
  unfold singleExtent at h ⊢
  by_cases hcount : 2 < count
  · have hone : 1 < count := by omega
    simp only [charAt?_take, if_pos hcount, if_pos hone]
    split
    next => rfl
    next hopen =>
      rw [if_neg hopen] at h
      exact extent_take h
  · have hopen : ¬ (charAt? text 2 == some '\'' && charAt? text 1 != some '\\') = true := by
      intro hclosed
      rw [if_pos hclosed] at h
      exact hcount h
    rw [if_neg hopen] at h ⊢
    rw [charAt?_take, if_neg hcount]
    exact extent_take h

variable [XidClasses]

/-- A word between two quotes is closed by the second one. -/
theorem singleExtent_of_startsIn (hword : startsIn Rune.isIdentStart (text.drop 1) = true)
    (hquote : charAt? text 2 = some '\'') : singleExtent text = { length := 3 } := by
  have hescape : charAt? text 1 ≠ some '\\' := by
    intro hchar
    cases text with
    | nil => cases hchar
    | cons quote rest =>
        cases rest with
        | nil => cases hchar
        | cons rune rest =>
            have hrune : rune.char = '\\' := Option.some.inj hchar
            have hstart : rune.isIdentStart = true := hword
            rw [Rune.isIdentStart, Rune.code, hrune] at hstart
            exact absurd hstart Bool.false_ne_true
  rw [singleExtent, if_pos (by simp [hquote, hescape])]

theorem singleQuote_of_word {length : Nat}
    (hstart : startsIn Rune.isIdentStart (text.drop 1) = true)
    (hquote : charAt? text 2 ≠ some '\'')
    (hlength : 2 + runLength Rune.isIdentContinue (text.drop 2) = length) :
    singleQuote text =
      if startsWith (text.drop length) ['\''] then
        { isLifetime := false, extent := { length := length + 1 } }
      else { isLifetime := true, extent := { length } } := by
  subst hlength
  rw [singleQuote, hstart, Bool.true_and, if_pos (bne_iff_ne.mpr hquote)]

theorem singleQuote_of_not_word
    (h : startsIn Rune.isIdentStart (text.drop 1) = true → charAt? text 2 = some '\'') :
    singleQuote text =
      { isLifetime := false, extent := (singleExtent text).withSuffix text } := by
  rw [singleQuote, if_neg]
  simpa using h

theorem singleQuote_take (h : (singleQuote text).extent.length ≤ count) :
    singleQuote (text.take count) = singleQuote text := by
  by_cases hword : startsIn Rune.isIdentStart (text.drop 1) = true → charAt? text 2 = some '\''
  · rw [singleQuote_of_not_word hword] at h ⊢
    have hsingle : (singleExtent text).length ≤ count := Extent.le_of_withSuffix_le h
    have hword' : startsIn Rune.isIdentStart ((text.take count).drop 1) = true →
        charAt? (text.take count) 2 = some '\'' := by
      intro hstart
      rw [List.drop_take] at hstart
      have hstart := startsIn_of_take hstart
      have hquote := hword hstart
      -- The second quote belongs to the literal, so it is not cut off.
      rw [singleExtent_of_startsIn hstart hquote] at hsingle
      have htwo : 2 < count := hsingle
      rw [charAt?_take, if_pos htwo]
      exact hquote
    rw [singleQuote_of_not_word hword', singleExtent_take hsingle, Extent.withSuffix_take _ h]
  · simp only [Classical.not_imp] at hword
    obtain ⟨hstart, hquote⟩ := hword
    obtain ⟨length, hlength⟩ : ∃ length, 2 + runLength Rune.isIdentContinue (text.drop 2) = length :=
      ⟨_, rfl⟩
    rw [singleQuote_of_word hstart hquote hlength] at h ⊢
    have hle : length ≤ count := by
      split at h <;> simp only at h <;> omega
    have hpos : 0 < count - 1 := by omega
    have hstart' : startsIn Rune.isIdentStart ((text.take count).drop 1) = true := by
      rw [List.drop_take, startsIn_take _ _ hpos]
      exact hstart
    have hquote' : charAt? (text.take count) 2 ≠ some '\'' := by
      rw [charAt?_take]
      split
      next => exact hquote
      next => simp
    have hlength' : 2 + runLength Rune.isIdentContinue ((text.take count).drop 2) = length := by
      rw [List.drop_take, runLength_take]
      omega
    rw [singleQuote_of_word hstart' hquote' hlength', List.drop_take]
    by_cases hclosed : startsWith (text.drop length) ['\''] = true
    · rw [if_pos hclosed] at h
      have hroom : ['\''].length ≤ count - length := Nat.le_sub_of_add_le' h
      rw [startsWith_take hroom]
    · rw [startsWith_take_eq_false (Bool.eq_false_iff.mpr hclosed), if_neg hclosed]
      rfl

end Quoted

namespace RawString

/-! ## Raw strings -/

theorem hashes?_take (h : runLength isHash text < count) :
    hashes? (text.take count) = hashes? text := by
  have hrun : runLength isHash (text.take count) = runLength isHash text := by
    rw [runLength_take]
    exact Nat.min_eq_right (Nat.le_of_lt h)
  have hquote : ['"'].length ≤ count - runLength isHash text := by
    rw [List.length_singleton]
    omega
  simp only [hashes?, hrun, List.drop_take, startsWith_take hquote]

/-- The opening delimiter of a raw string that is found in a text cut off is there in the whole text. -/
theorem hashes?_of_take {hashes : UInt32} (h : hashes? (text.take count) = some hashes) :
    hashes? text = some hashes := by
  have hlt : runLength isHash text < count := by
    simp only [hashes?, Option.ite_none_right_eq_some] at h
    obtain ⟨hquote, -⟩ := h
    rw [runLength_take, List.drop_take] at hquote
    apply Nat.lt_of_not_le
    intro hle
    rw [Nat.min_eq_left hle, Nat.sub_self] at hquote
    cases hquote
  rw [← hashes?_take hlt, h]

theorem atClosing_take (hashes : Nat) (text : List Rune) (count : Nat) :
    atClosing hashes (text.take count) = (atClosing hashes text && 1 + hashes ≤ count) := by
  cases count with
  | zero => simp [atClosing, startsWith]
  | succ count =>
      have hquote : ['"'].length ≤ count + 1 := Nat.le_add_left 1 count
      simp only [atClosing, startsWith_take hquote, List.drop_take, runLength_take]
      grind

theorem extent_take {prefixLength hashes : Nat}
    (h : (extent prefixLength hashes text).length ≤ count) :
    extent prefixLength hashes (text.take count) = extent prefixLength hashes text := by
  unfold extent at h
  cases hclosing : findSuffix? (atClosing hashes) (text.drop (prefixLength + hashes + 1)) with
  | some body =>
      simp only [hclosing] at h
      obtain ⟨hle, hhere, hfirst⟩ := findSuffix?_eq_some_iff.mp hclosing
      have htake : findSuffix? (atClosing hashes)
          ((text.take count).drop (prefixLength + hashes + 1)) = some body := by
        rw [List.drop_take, findSuffix?_eq_some_iff]
        refine ⟨?_, ?_, fun before hbefore => ?_⟩
        · rw [List.length_take]
          omega
        · rw [List.drop_take, atClosing_take, hhere, Bool.true_and, decide_eq_true_eq]
          omega
        · rw [List.drop_take, atClosing_take, hfirst before hbefore, Bool.false_and]
      rw [extent, extent, hclosing, htake]
  | none =>
      simp only [hclosing] at h
      rw [List.take_of_length_le h]

/-- No quote stands in the `#` signs at the front of a text. -/
theorem runLength_isHash_le {ahead : Nat} (h : startsWith (text.drop ahead) ['"'] = true) :
    runLength isHash text ≤ ahead := by
  induction text generalizing ahead with
  | nil => exact Nat.zero_le ahead
  | cons rune rest ih =>
      by_cases hhash : isHash rune = true
      · have hrun : runLength isHash (rune :: rest) = runLength isHash rest + 1 := by
          rw [runLength, List.takeWhile_cons_of_pos hhash, List.length_cons, runLength]
        cases ahead with
        | zero =>
            simp only [List.drop_zero, startsWith, Bool.and_true, beq_iff_eq] at h
            simp [isHash, h] at hhash
        | succ ahead =>
            rw [hrun]
            exact Nat.succ_le_succ (ih h)
      · rw [runLength, List.takeWhile_cons_of_neg hhash]
        exact Nat.zero_le ahead

/-- A raw string holds its opening delimiter, also where the number of its `#` signs wraps. -/
theorem opening_lt_extent {prefixLength : Nat} {hashes : UInt32}
    (h : hashes? (text.drop prefixLength) = some hashes) :
    prefixLength + runLength isHash (text.drop prefixLength) <
      (extent prefixLength hashes.toNat text).length := by
  simp only [hashes?, Option.ite_none_right_eq_some] at h
  obtain ⟨hquote, -⟩ := h
  unfold extent
  cases hclosing : findSuffix? (atClosing hashes.toNat)
      (text.drop (prefixLength + hashes.toNat + 1)) with
  | some body =>
      -- The search may start inside the `#` signs, but it cannot stop there.
      obtain ⟨-, hhere, -⟩ := findSuffix?_eq_some_iff.mp hclosing
      have hclosed : startsWith ((text.drop prefixLength).drop (hashes.toNat + 1 + body)) ['"'] =
          true := by
        rw [atClosing, Bool.and_eq_true, List.drop_drop] at hhere
        rw [List.drop_drop, ← Nat.add_assoc, ← Nat.add_assoc]
        exact hhere.1
      have hle := runLength_isHash_le hclosed
      simp only [hclosing]
      omega
  | none =>
      have hlt : runLength isHash (text.drop prefixLength) < (text.drop prefixLength).length := by
        apply Nat.lt_of_not_le
        intro hle
        rw [List.drop_eq_nil_of_le hle] at hquote
        cases hquote
      rw [List.length_drop] at hlt
      simp only [hclosing]
      omega

end RawString

end RustLexer
