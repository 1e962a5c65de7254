import RustLexer.Proofs.Truncation.Construct

/-! # How far a construct reaches

A construct that has its mark at the front of a text reaches no further than the text does
(`Construct.cut_length_le`).
-/

namespace RustLexer

variable {text : List Rune}

theorem startsWith_cons_iff {char : Char} {chars : List Char} :
    startsWith text (char :: chars) = true ↔
      ∃ rune rest, text = rune :: rest ∧ rune.char = char ∧ startsWith rest chars = true := by
  cases text with
  | nil => simp [startsWith]
  | cons rune rest => simp [startsWith]

theorem length_pos_of_startsIn {inClass : Rune → Bool} (h : startsIn inClass text = true) :
    0 < text.length := by
  obtain ⟨rune, rest, rfl, -⟩ := startsIn_iff.mp h
  exact Nat.zero_lt_succ _

theorem takeWhile_eq_nil {inClass : Rune → Bool} (h : startsIn inClass text = false) :
    text.takeWhile inClass = [] := by
  cases text with
  | nil => rfl
  | cons rune rest => exact List.takeWhile_cons_of_neg (Bool.eq_false_iff.mp h)

/-- The longest run of a class is known by what stands behind it. -/
theorem takeWhile_append_eq_left {inClass : Rune → Bool} {run : List Rune}
    (hrun : ∀ rune ∈ run, inClass rune = true) (h : startsIn inClass text = false) :
    (run ++ text).takeWhile inClass = run := by
  rw [List.takeWhile_append_of_pos hrun, takeWhile_eq_nil h, List.append_nil]

/-- A text is split behind the run of a class at its front. -/
theorem exists_run (inClass : Rune → Bool) (text : List Rune) :
    ∃ run more, text = run ++ more ∧ (∀ rune ∈ run, inClass rune = true) ∧
      startsIn inClass more = false := by
  induction text with
  | nil => exact ⟨[], [], rfl, by simp, rfl⟩
  | cons rune rest ih =>
      by_cases hrune : inClass rune = true
      · obtain ⟨run, more, rfl, hrun, hmore⟩ := ih
        exact ⟨rune :: run, more, rfl, List.forall_mem_cons.mpr ⟨hrune, hrun⟩, hmore⟩
      · exact ⟨[], rune :: rest, rfl, by simp, Bool.eq_false_iff.mpr hrune⟩

theorem runLength_le (inClass : Rune → Bool) (text : List Rune) :
    runLength inClass text ≤ text.length :=
  (List.takeWhile_prefix inClass).length_le

theorem wordLength_le [XidClasses] (text : List Rune) : wordLength text ≤ text.length := by
  unfold wordLength
  split
  next hstart =>
    have hpos := length_pos_of_startsIn hstart
    have hrun := runLength_le Rune.isIdentContinue (text.drop 1)
    rw [List.length_drop] at hrun
    omega
  next => exact Nat.zero_le _

theorem Extent.withSuffix_le [XidClasses] {extent : Extent} (h : extent.length ≤ text.length) :
    (extent.withSuffix text).length ≤ text.length := by
  unfold withSuffix
  split
  next =>
    have hword := wordLength_le (text.drop extent.length)
    rw [List.length_drop] at hword
    simp only
    omega
  next => exact h

theorem Extent.terminated_withSuffix [XidClasses] (extent : Extent) (text : List Rune) :
    (extent.withSuffix text).terminated = extent.terminated := by
  unfold withSuffix
  split <;> rfl

theorem Extent.precededBy_le {extent : Extent} (hne : text ≠ [])
    (h : extent.length ≤ (text.drop 1).length) : (extent.precededBy 1).length ≤ text.length := by
  have hpos := List.length_pos_iff.mpr hne
  rw [List.length_drop] at h
  simp only [precededBy]
  omega

/-! ## Comments -/

namespace Comment

theorem markedLineLength_le (h : 2 ≤ text.length) : markedLineLength text ≤ text.length := by
  have hline := lineLength_le (text.drop 2)
  rw [List.length_drop] at hline
  rw [markedLineLength]
  omega

theorem closingLength?_go_le {depth passed total : Nat}
    (h : closingLength?.go depth passed text = some total) : total ≤ passed + text.length := by
  fun_induction closingLength?.go depth passed text with
  | case1 => cases h
  | case2 => cases h
  | case3 depth passed first second rest hopen ih =>
      have hrest := ih h
      simp only [List.length_cons]
      omega
  | case4 passed first second rest hopen hclose =>
      obtain rfl := Option.some.inj h
      simp only [List.length_cons]
      omega
  | case5 passed first second rest hopen hclose depth ih =>
      have hrest := ih h
      simp only [List.length_cons]
      omega
  | case6 depth passed first second rest hopen hclose ih =>
      have hrest := ih h
      simp only [List.length_cons] at hrest ⊢
      omega

theorem blockExtent_le (text : List Rune) : (blockExtent text).length ≤ text.length := by
  obtain ⟨length, hclosing, htwo, hextent⟩ | hextent := blockExtent_cases text
  · have hle := closingLength?_go_le hclosing
    rw [List.length_drop] at hle
    rw [hextent]
    simp only
    omega
  · simp only [hextent, Nat.le_refl]

end Comment

/-! ## Numbers -/

theorem Radix.two_le_of_marked (h : ofText text ≠ .decimal) : 2 ≤ text.length := by
  cases text with
  | nil => exact absurd rfl h
  | cons zero rest =>
      cases rest with
      | nil => exact absurd rfl h
      | cons mark rest =>
          simp only [List.length_cons]
          omega

namespace Number

theorem integerLength_le (h : 0 < text.length) : integerLength text ≤ text.length := by
  by_cases hradix : Radix.ofText text = .decimal
  · have hrun := runLength_le isDigitOrSeparator (text.drop 1)
    rw [List.length_drop] at hrun
    rw [integerLength_of_decimal hradix]
    omega
  · have htwo := Radix.two_le_of_marked hradix
    have hdigits : (markedDigits (Radix.ofText text) text).length ≤ (text.drop 2).length :=
      (List.takeWhile_prefix _).length_le
    rw [List.length_drop] at hdigits
    rw [integerLength_of_marked hradix]
    omega

theorem fractionLength_le (text : List Rune) : fractionLength text ≤ text.length := by
  unfold fractionLength
  split
  next hdot =>
    have hpos := length_le_of_startsWith (Bool.and_eq_true_iff.mp hdot).1
    have hrun := runLength_le isDigitOrSeparator (text.drop 1)
    rw [List.length_drop] at hrun
    simp only [List.length_singleton] at hpos
    omega
  next => exact Nat.zero_le _

theorem exponentLength_le (text : List Rune) : exponentLength text ≤ text.length := by
  have hrun := runLength_le isDigitOrSeparator (text.drop (1 + signLength (text.drop 1)))
  rw [List.length_drop] at hrun
  simp only [exponentLength]
  split
  next hfound =>
    have hdigits := of_decide_eq_true (Bool.and_eq_true_iff.mp hfound).2
    omega
  next => exact Nat.zero_le _

theorem scan_le (h : 0 < text.length) : (scan text).length ≤ text.length := by
  have hinteger := integerLength_le h
  have hfraction := fractionLength_le (text.drop (integerLength text))
  have hexponent := exponentLength_le (text.drop
    (integerLength text + fractionLength (text.drop (integerLength text))))
  rw [List.length_drop] at hfraction hexponent
  unfold scan
  split
  next =>
    simp only
    omega
  next => exact hinteger

end Number

/-! ## Quoted literals and raw strings -/

namespace Quoted

theorem closingLength?_go_le {quote : Char} {passed total : Nat}
    (h : closingLength?.go quote passed text = some total) : total ≤ passed + text.length := by
  fun_induction closingLength?.go quote passed text with
  | case1 => cases h
  | case2 => exact Nat.le_of_eq (Option.some.inj h).symm
  | case3 => cases h
  | case4 passed rune second rest hquote =>
      obtain rfl := Option.some.inj h
      simp only [List.length_cons]
      omega
  | case5 passed rune second rest hquote hescape ih =>
      have hrest := ih h
      simp only [List.length_cons]
      omega
  | case6 passed rune second rest hquote hescape ih =>
      have hrest := ih h
      simp only [List.length_cons] at hrest ⊢
      omega

theorem extent_le (quote : Char) (text : List Rune) :
    (extent quote text).length ≤ text.length := by
  unfold extent
  cases hclosing : closingLength? quote (text.drop 1) with
  | some length =>
      have hpos := lt_of_closingLength?_go hclosing
      have hle := closingLength?_go_le hclosing
      rw [List.length_drop] at hle
      simp only
      omega
  | none => exact Nat.le_refl _

theorem doubleExtent_le (text : List Rune) : (doubleExtent text).length ≤ text.length := by
  rw [doubleExtent_eq]
  exact extent_le _ text

theorem singleExtent_le (text : List Rune) : (singleExtent text).length ≤ text.length := by
  unfold singleExtent
  split
  next hclosed =>
    have hquote : charAt? text 2 = some '\'' := eq_of_beq (Bool.and_eq_true_iff.mp hclosed).1
    obtain ⟨rune, hrune, -⟩ := Option.map_eq_some_iff.mp hquote
    obtain ⟨hlt, -⟩ := List.getElem?_eq_some_iff.mp hrune
    exact hlt
  next => exact extent_le _ text

theorem singleQuote_le [XidClasses] (text : List Rune) : (singleQuote text).extent.length ≤ text.length := by
  by_cases hword : startsIn Rune.isIdentStart (text.drop 1) = true → charAt? text 2 = some '\''
  · rw [singleQuote_of_not_word hword]
    exact Extent.withSuffix_le (singleExtent_le text)
  · simp only [Classical.not_imp] at hword
    obtain ⟨hstart, hquote⟩ := hword
    obtain ⟨length, hlength⟩ : ∃ length, 2 + runLength Rune.isIdentContinue (text.drop 2) = length :=
      ⟨_, rfl⟩
    rw [singleQuote_of_word hstart hquote hlength]
    have hpos := length_pos_of_startsIn hstart
    have hrun := runLength_le Rune.isIdentContinue (text.drop 2)
    rw [List.length_drop] at hpos hrun
    split
    next hclosed =>
      have hroom := length_le_of_startsWith hclosed
      rw [List.length_drop, List.length_singleton] at hroom
      simp only
      omega
    next =>
      simp only
      omega

end Quoted

theorem RawString.extent_le (prefixLength hashes : Nat) (text : List Rune) :
    (extent prefixLength hashes text).length ≤ text.length := by
  unfold extent
  cases hclosing : findSuffix? (atClosing hashes) (text.drop (prefixLength + hashes + 1)) with
  | some body =>
      obtain ⟨-, hhere, -⟩ := findSuffix?_eq_some_iff.mp hclosing
      rw [atClosing, Bool.and_eq_true, decide_eq_true_eq] at hhere
      have hroom := length_le_of_startsWith hhere.1
      have hrun := runLength_le isHash
        (((text.drop (prefixLength + hashes + 1)).drop body).drop 1)
      simp only [List.length_drop, List.length_singleton] at hroom hrun
      simp only [hclosing]
      omega
  | none => simp only [hclosing, Nat.le_refl]

/-! ## Constructs -/

variable [XidClasses]

theorem Cut.terminated_ofLiteral (literal : LiteralKind) (extent : Extent) (text : List Rune) :
    (ofLiteral literal (extent.withSuffix text)).tag.terminated = extent.terminated :=
  extent.terminated_withSuffix text

theorem Cut.terminated_ofSingleQuote (text : List Rune) :
    (ofSingleQuote text).tag.terminated = (Quoted.singleQuote text).extent.terminated := by
  simp only [ofSingleQuote, Quoted.singleQuote]
  split
  next => split <;> rfl
  next => rfl

namespace Construct

/-- No construct reaches beyond the text that it stands in. -/
theorem cut_length_le (keywords : Keywords) (hne : text ≠ [])
    (hdecoded : ∀ rune ∈ text, rune.Decoded) {construct : Construct}
    (hmark : construct.MarkedIn text) : (construct.cut keywords text).length ≤ text.length := by
  have hpos := List.length_pos_iff.mpr hne
  cases construct with
  | shebang =>
      have htwo := length_le_of_startsWith (Bool.and_eq_true_iff.mp hmark).1
      exact Comment.markedLineLength_le htwo
  | whitespace => exact runLength_le _ _
  | lineComment => exact Comment.markedLineLength_le (length_le_of_startsWith hmark)
  | blockComment => exact Comment.blockExtent_le text
  | singleQuote =>
      rw [cut, Cut.length_ofSingleQuote]
      exact Quoted.singleQuote_le text
  | string => exact Extent.withSuffix_le (Quoted.doubleExtent_le text)
  | byteString =>
      exact Extent.withSuffix_le (Extent.precededBy_le hne (Quoted.doubleExtent_le _))
  | byteChar =>
      exact Extent.withSuffix_le (Extent.precededBy_le hne (Quoted.singleExtent_le _))
  | rawString hashes => exact Extent.withSuffix_le (RawString.extent_le _ _ text)
  | rawByteString hashes => exact Extent.withSuffix_le (RawString.extent_le _ _ text)
  | rawIdentifier =>
      have htwo := length_le_of_startsWith hmark.1
      have hword := wordLength_le (text.drop 2)
      rw [List.length_drop] at hword
      simp only [List.length_cons, List.length_nil] at htwo
      simp only [cut]
      omega
  | number => exact Extent.withSuffix_le (Number.scan_le hpos)
  | word => exact wordLength_le text
  | symbol found =>
      obtain ⟨-, hlength, -, -⟩ := Symbol.longest?_eq_some hdecoded hmark
      rw [List.length_take] at hlength
      simp only [cut, Cut.ofSymbol]
      omega
  | unknown => exact hpos

end Construct

end RustLexer
