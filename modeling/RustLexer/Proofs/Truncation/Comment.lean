import RustLexer.Comment
import RustLexer.Proofs.Truncation.Lookahead

/-! # Comments in a text that is cut off

The line break that ends a line comment is cut off with the rest of the text, and the end of the text
ends the line instead. A block comment that is closed finds its closing delimiter again, and one that is
not reaches to the end, so nothing is cut off.
-/

namespace RustLexer

variable {text : List Rune} {count : Nat}

namespace Comment

/-! ## Line comments -/

theorem lineLength_le (text : List Rune) : lineLength text ≤ text.length := by
  unfold lineLength
  cases hbreak : findSuffix? atLineBreak text with
  | some length => exact (findSuffix?_eq_some_iff.mp hbreak).1
  | none => exact Nat.le_refl _

theorem atLineBreak_cons_iff {rune : Rune} :
    atLineBreak (rune :: text) = true ↔
      rune.char = '\n' ∨ rune.char = '\r' ∧ startsWith text ['\n'] = true := by
  simp [atLineBreak, startsWith]

/-- The line ends with the text or before the first line break. -/
theorem lineLength_spec (text : List Rune) :
    (text.drop (lineLength text) = [] ∨ atLineBreak (text.drop (lineLength text)) = true) ∧
      ∀ n < lineLength text, atLineBreak (text.drop n) = false := by
  unfold lineLength
  cases hbreak : findSuffix? atLineBreak text with
  | some length =>
      obtain ⟨-, hhere, hfirst⟩ := findSuffix?_eq_some_iff.mp hbreak
      exact ⟨Or.inr hhere, hfirst⟩
  | none =>
      have hnone := findSuffix?_eq_none_iff.mp hbreak
      exact ⟨Or.inl List.drop_length, fun n hn => hnone n (Nat.le_of_lt hn)⟩

theorem atLineBreak_of_take (h : atLineBreak (text.take count) = true) :
    atLineBreak text = true := by
  simp only [atLineBreak, Bool.or_eq_true] at h ⊢
  exact h.imp startsWith_of_take startsWith_of_take

theorem lineLength_take (text : List Rune) :
    lineLength (text.take (lineLength text)) = lineLength text := by
  have hlength : (text.take (lineLength text)).length = lineLength text :=
    List.length_take_of_le (lineLength_le text)
  -- No line break is left before the end, so the line ends with the text.
  have hnone : findSuffix? atLineBreak (text.take (lineLength text)) = none := by
    rw [findSuffix?_eq_none_iff]
    intro before hbefore
    rw [hlength] at hbefore
    rw [List.drop_take, Bool.eq_false_iff]
    intro hcut
    rcases Nat.eq_or_lt_of_le hbefore with rfl | hlt
    · rw [Nat.sub_self] at hcut
      cases hcut
    · have hhere := atLineBreak_of_take hcut
      rw [(lineLength_spec text).2 before hlt] at hhere
      cases hhere
  rw [lineLength, hnone, Option.getD_none, hlength]

theorem markedLineLength_take (text : List Rune) :
    markedLineLength (text.take (markedLineLength text)) = markedLineLength text := by
  rw [markedLineLength, markedLineLength, List.drop_take, Nat.add_sub_cancel_left, lineLength_take]

/-- A line ends with the text or before one of the characters of a line break. -/
theorem charAt?_lineLength {char : Char} (hfeed : char ≠ '\n') (hreturn : char ≠ '\r') :
    charAt? text (lineLength text) ≠ some char := by
  intro hchar
  rw [charAt?, ← List.head?_drop] at hchar
  obtain ⟨hstops, -⟩ := lineLength_spec text
  cases hrest : text.drop (lineLength text) with
  | nil => simp [hrest] at hchar
  | cons rune rest =>
      rw [hrest] at hchar hstops
      obtain rfl : rune.char = char := Option.some.inj hchar
      rcases atLineBreak_cons_iff.mp (hstops.resolve_left (List.cons_ne_nil _ _)) with h | ⟨h, -⟩
      · exact hfeed h
      · exact hreturn h

theorem charAt?_markedLineLength {char : Char} (hfeed : char ≠ '\n') (hreturn : char ≠ '\r') :
    charAt? text (markedLineLength text) ≠ some char := by
  have hdrop : charAt? text (markedLineLength text) =
      charAt? (text.drop 2) (lineLength (text.drop 2)) := by
    rw [charAt?, charAt?, List.getElem?_drop, markedLineLength]
  rw [hdrop]
  exact charAt?_lineLength hfeed hreturn

/-- Neither mark of documentation stands behind the line, so none is cut off. -/
theorem isLineDoc_take (text : List Rune) :
    isLineDoc (text.take (markedLineLength text)) = isLineDoc text := by
  have hbang : charAt? text (markedLineLength text) ≠ some '!' :=
    charAt?_markedLineLength (by decide) (by decide)
  have hslash : charAt? text (markedLineLength text) ≠ some '/' :=
    charAt?_markedLineLength (by decide) (by decide)
  have hmark : 2 ≤ markedLineLength text := Nat.le_add_right 2 _
  rcases Nat.eq_or_lt_of_le hmark with hend | hmore
  · rw [← hend] at hbang hslash ⊢
    simp only [isLineDoc, charAt?_take]
    simp [hbang, hslash]
  rcases Nat.eq_or_lt_of_le (show 3 ≤ markedLineLength text from hmore) with hend | hmore
  · rw [← hend] at hslash ⊢
    have hplain : (charAt? text 3 != some '/') = true := bne_iff_ne.mpr hslash
    have hcut : (charAt? (text.take 3) 3 != some '/') = true := by
      rw [charAt?_take, if_neg (Nat.lt_irrefl 3)]
      rfl
    rw [isLineDoc, isLineDoc, hplain, hcut, charAt?_take, if_pos (by decide)]
  · have htwo : 2 < markedLineLength text := by omega
    have hthree : 3 < markedLineLength text := hmore
    simp only [isLineDoc, charAt?_take, if_pos htwo, if_pos hthree]

/-! ## Block comments -/

theorem add_two_le_of_closingLength?_go {depth passed total : Nat}
    (h : closingLength?.go depth passed text = some total) : passed + 2 ≤ total := by
  fun_induction closingLength?.go depth passed text with
  | case1 => cases h
  | case2 => cases h
  | case3 depth passed first second rest hopen ih => exact Nat.le_trans (by omega) (ih h)
  | case4 => exact Nat.le_of_eq (Option.some.inj h)
  | case5 passed first second rest hopen hclose depth ih => exact Nat.le_trans (by omega) (ih h)
  | case6 depth passed first second rest hopen hclose ih => exact Nat.le_trans (by omega) (ih h)

theorem closingLength?_go_take {depth passed total : Nat}
    (h : closingLength?.go depth passed text = some total) (hcount : total ≤ passed + count) :
    closingLength?.go depth passed (text.take count) = some total := by
  fun_induction closingLength?.go depth passed text generalizing count with
  | case1 => cases h
  | case2 => cases h
  | case3 depth passed first second rest hopen ih =>
      have hle := add_two_le_of_closingLength?_go h
      obtain ⟨count, rfl⟩ := Nat.exists_eq_add_of_le' (show 2 ≤ count by omega)
      rw [List.take_succ_cons, List.take_succ_cons, closingLength?.go.eq_def]
      simp only [if_pos hopen]
      exact ih h (by omega)
  | case4 passed first second rest hopen hclose =>
      obtain rfl := Option.some.inj h
      obtain ⟨count, rfl⟩ := Nat.exists_eq_add_of_le' (show 2 ≤ count by omega)
      rw [List.take_succ_cons, List.take_succ_cons, closingLength?.go, if_neg hopen, if_pos hclose]
  | case5 passed first second rest hopen hclose depth ih =>
      have hle := add_two_le_of_closingLength?_go h
      obtain ⟨count, rfl⟩ := Nat.exists_eq_add_of_le' (show 2 ≤ count by omega)
      rw [List.take_succ_cons, List.take_succ_cons, closingLength?.go, if_neg hopen, if_pos hclose]
      exact ih h (by omega)
  | case6 depth passed first second rest hopen hclose ih =>
      have hle := add_two_le_of_closingLength?_go h
      obtain ⟨count, rfl⟩ := Nat.exists_eq_add_of_le' (show 2 ≤ count by omega)
      rw [List.take_succ_cons, List.take_succ_cons, closingLength?.go.eq_def]
      simp only [if_neg hopen, if_neg hclose]
      rw [← List.take_succ_cons]
      exact ih h (by omega)

/-- A block comment is closed behind its fourth rune, or else reaches to the end. -/
theorem blockExtent_cases (text : List Rune) :
    (∃ length, closingLength? (text.drop 2) = some length ∧ 2 ≤ length ∧
      blockExtent text = { length := 2 + length }) ∨
    blockExtent text = { length := text.length, terminated := false } := by
  unfold blockExtent
  cases hclosing : closingLength? (text.drop 2) with
  | some length =>
      have hle := add_two_le_of_closingLength?_go hclosing
      exact Or.inl ⟨length, rfl, by omega, rfl⟩
  | none => exact Or.inr rfl

theorem blockExtent_take (h : (blockExtent text).length ≤ count) :
    blockExtent (text.take count) = blockExtent text := by
  obtain ⟨length, hclosing, -, hextent⟩ | hextent := blockExtent_cases text
  · rw [hextent] at h ⊢
    simp only at h
    have htake : closingLength? ((text.take count).drop 2) = some length := by
      rw [List.drop_take]
      exact closingLength?_go_take hclosing (by omega)
    rw [blockExtent, htake]
  · rw [hextent] at h
    rw [List.take_of_length_le h]

theorem isBlockDoc_take (h : (blockExtent text).length ≤ count) :
    isBlockDoc (text.take count) = isBlockDoc text := by
  obtain ⟨length, -, hlength, hextent⟩ | hextent := blockExtent_cases text
  · rw [hextent] at h
    simp only at h
    have htwo : 2 < count := by omega
    have hthree : 3 < count := by omega
    simp only [isBlockDoc, charAt?_take, if_pos htwo, if_pos hthree]
  · rw [hextent] at h
    rw [List.take_of_length_le h]

end Comment

end RustLexer
