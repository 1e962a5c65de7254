import RustLexer.Proofs.Lexer.Reach

/-! # Scanning a text that goes on behind a line feed

A line feed stands in no spelling and in no run but one of whitespace. So what is read at the front of a
text is read there again when a line feed and more runes follow the text, if it was complete without
them: a run and a number end at the line feed as they end with the text, and a closing delimiter that was
found is found again.
-/

namespace RustLexer

/-- A line feed, as it is read from a text. -/
def Rune.lineFeed : Rune := ⟨'\n', [0x0A]⟩

variable {text : List Rune}

/-! ## Looking ahead -/

theorem startsWith_append_lineFeed {chars : List Char} (h : '\n' ∉ chars) (text more : List Rune) :
    startsWith (text ++ .lineFeed :: more) chars = startsWith text chars := by
  induction chars generalizing text with
  | nil => simp [startsWith]
  | cons char chars ih =>
      obtain ⟨hchar, hchars⟩ := not_or.mp (mt List.mem_cons.mpr h)
      cases text with
      | nil =>
          have hfeed : (Rune.lineFeed.char == char) = false := beq_false_of_ne hchar
          simp only [List.nil_append, startsWith, hfeed, Bool.false_and]
      | cons rune rest => simp only [List.cons_append, startsWith, ih hchars]

theorem startsWith_append_of {chars : List Char} (h : startsWith text chars = true)
    (more : List Rune) : startsWith (text ++ more) chars = true := by
  have htake : (text ++ more).take text.length = text := List.take_left
  rw [← htake] at h
  exact startsWith_of_take h

theorem startsIn_append_lineFeed {inClass : Rune → Bool} (h : inClass .lineFeed = false)
    (text more : List Rune) :
    startsIn inClass (text ++ .lineFeed :: more) = startsIn inClass text := by
  cases text with
  | nil => exact h
  | cons rune rest => rfl

theorem runLength_append_lineFeed {inClass : Rune → Bool} (h : inClass .lineFeed = false)
    (text more : List Rune) :
    runLength inClass (text ++ .lineFeed :: more) = runLength inClass text := by
  have hstop : (Rune.lineFeed :: more).takeWhile inClass = [] := by
    rw [List.takeWhile_cons_of_neg (Bool.eq_false_iff.mp h)]
  rw [runLength, List.takeWhile_append, hstop, runLength]
  split
  next hall => rw [List.length_append, hall, List.length_nil, Nat.add_zero]
  next => rfl

/-- Behind the text there is only the line feed to look at. -/
theorem charAt?_append_lineFeed {char : Char} {ahead : Nat} (h : ahead ≤ text.length)
    (hchar : char ≠ '\n') (more : List Rune) :
    charAt? (text ++ .lineFeed :: more) ahead = some char ↔ charAt? text ahead = some char := by
  rcases Nat.lt_or_eq_of_le h with hlt | rfl
  · rw [charAt?, charAt?, List.getElem?_append_left hlt]
  · have hfeed : charAt? (text ++ .lineFeed :: more) text.length = some '\n' := by
      rw [charAt?, List.getElem?_append_right (Nat.le_refl _), Nat.sub_self]
      rfl
    have hend : charAt? text text.length = none := by
      rw [charAt?, List.getElem?_eq_none (Nat.le_refl _)]
      rfl
    rw [hfeed, hend]
    simp [hchar.symm]

theorem charAt?_beq_append_lineFeed {char : Char} {ahead : Nat} (h : ahead ≤ text.length)
    (hchar : char ≠ '\n') (more : List Rune) :
    (charAt? (text ++ .lineFeed :: more) ahead == some char) =
      (charAt? text ahead == some char) := by
  rw [Bool.eq_iff_iff, beq_iff_eq, beq_iff_eq]
  exact charAt?_append_lineFeed h hchar more

theorem wordLength_append_lineFeed [XidClasses] (text more : List Rune) :
    wordLength (text ++ .lineFeed :: more) = wordLength text := by
  have hstart : startsIn Rune.isIdentStart (text ++ .lineFeed :: more) =
      startsIn Rune.isIdentStart text := startsIn_append_lineFeed rfl text more
  rw [wordLength, wordLength, hstart]
  split
  next hword =>
    have hpos := length_pos_of_startsIn hword
    rw [List.drop_append_of_le_length hpos, runLength_append_lineFeed rfl]
  next => rfl

theorem Extent.withSuffix_append_lineFeed [XidClasses] {extent : Extent} (h : extent.length ≤ text.length)
    (more : List Rune) :
    extent.withSuffix (text ++ .lineFeed :: more) = extent.withSuffix text := by
  rw [withSuffix, withSuffix, List.drop_append_of_le_length h, wordLength_append_lineFeed]

/-- A search that no longer text can turn away from finds in one what it found before. -/
theorem findSuffix?_append {α : Type} {stop : List α → Bool} {list more : List α} {n : Nat}
    (hstop : ∀ m ≤ n, stop (list.drop m ++ more) = stop (list.drop m))
    (h : findSuffix? stop list = some n) : findSuffix? stop (list ++ more) = some n := by
  obtain ⟨hle, hhere, hfirst⟩ := findSuffix?_eq_some_iff.mp h
  rw [findSuffix?_eq_some_iff]
  refine ⟨?_, ?_, ?_⟩
  · rw [List.length_append]
    exact Nat.le_add_right_of_le hle
  · rw [List.drop_append_of_le_length hle, hstop n (Nat.le_refl n)]
    exact hhere
  · intro m hm
    rw [List.drop_append_of_le_length (Nat.le_trans (Nat.le_of_lt hm) hle),
      hstop m (Nat.le_of_lt hm)]
    exact hfirst m hm

/-! ## Comments -/

namespace Comment

/-- Only a carriage return at the very end becomes part of a line break. -/
theorem atLineBreak_append_lineFeed {first : Rune} {rest : List Rune}
    (h : first.char = '\r' → rest ≠ []) (more : List Rune) :
    atLineBreak (first :: rest ++ .lineFeed :: more) = atLineBreak (first :: rest) := by
  cases rest with
  | cons second rest => simp only [List.cons_append, atLineBreak, startsWith]
  | nil =>
      have hreturn : first.char ≠ '\r' := fun hchar => h hchar rfl
      simp [atLineBreak, startsWith, hreturn]

theorem lineLength_append_lineFeed
    (h : lineLength text = text.length → ∀ rune ∈ text.getLast?, rune.char ≠ '\r')
    (more : List Rune) : lineLength (text ++ .lineFeed :: more) = lineLength text := by
  have hle := lineLength_le text
  suffices hbreak : findSuffix? atLineBreak (text ++ .lineFeed :: more) = some (lineLength text) by
    rw [lineLength, hbreak, Option.getD_some]
  rw [findSuffix?_eq_some_iff, List.drop_append_of_le_length hle]
  refine ⟨?_, ?_, ?_⟩
  · rw [List.length_append]
    exact Nat.le_add_right_of_le hle
  · -- The line ends where it ended before, or at the line feed.
    unfold lineLength
    cases hfound : findSuffix? atLineBreak text with
    | some length =>
        have hhere := (findSuffix?_eq_some_iff.mp hfound).2.1
        simp only [atLineBreak, Option.getD_some, Bool.or_eq_true] at hhere ⊢
        exact hhere.imp (startsWith_append_of · _) (startsWith_append_of · _)
    | none =>
        rw [Option.getD_none, List.drop_length]
        simp [atLineBreak, startsWith, Rune.lineFeed]
  · intro before hbefore
    have hlt := Nat.lt_of_lt_of_le hbefore hle
    have hplain : atLineBreak (text.drop before) = false := by
      unfold lineLength at hbefore
      cases hfound : findSuffix? atLineBreak text with
      | some length =>
          rw [hfound] at hbefore
          exact (findSuffix?_eq_some_iff.mp hfound).2.2 before hbefore
      | none => exact findSuffix?_eq_none_iff.mp hfound before (Nat.le_of_lt hlt)
    rw [List.drop_append_of_le_length (Nat.le_of_lt hlt)]
    rw [List.drop_eq_getElem_cons hlt] at hplain ⊢
    rw [atLineBreak_append_lineFeed _ more, hplain]
    -- A carriage return with nothing behind it would be the last rune of the text.
    intro hreturn hnil
    have hlast : text.length = before + 1 := by
      have hlength := congrArg List.length hnil
      rw [List.length_drop, List.length_nil] at hlength
      omega
    refine h (by omega) text[before] ?_ hreturn
    rw [List.getLast?_eq_getElem?, hlast, Nat.add_sub_cancel, List.getElem?_eq_getElem hlt]
    rfl

theorem closingLength?_go_append {depth passed total : Nat}
    (h : closingLength?.go depth passed text = some total) (more : List Rune) :
    closingLength?.go depth passed (text ++ more) = some total := by
  fun_induction closingLength?.go depth passed text with
  | case1 => cases h
  | case2 => cases h
  | case3 depth passed first second rest hopen ih =>
      rw [List.cons_append, List.cons_append, closingLength?.go.eq_def]
      simp only [if_pos hopen]
      exact ih h
  | case4 passed first second rest hopen hclose =>
      rw [List.cons_append, List.cons_append, closingLength?.go, if_neg hopen, if_pos hclose]
      exact h
  | case5 passed first second rest hopen hclose depth ih =>
      rw [List.cons_append, List.cons_append, closingLength?.go, if_neg hopen, if_pos hclose]
      exact ih h
  | case6 depth passed first second rest hopen hclose ih =>
      rw [List.cons_append, List.cons_append, closingLength?.go.eq_def]
      simp only [if_neg hopen, if_neg hclose]
      exact ih h

theorem blockExtent_append (hmark : 2 ≤ text.length) (h : (blockExtent text).terminated = true)
    (more : List Rune) : blockExtent (text ++ more) = blockExtent text := by
  obtain ⟨length, hclosing, -, hextent⟩ | hextent := blockExtent_cases text
  · have happend : closingLength? ((text ++ more).drop 2) = some length := by
      rw [List.drop_append_of_le_length hmark]
      exact closingLength?_go_append hclosing more
    rw [hextent, blockExtent, happend]
  · rw [hextent] at h
    cases h

theorem isBlockDoc_append_lineFeed (hmark : 2 ≤ text.length)
    (h : (blockExtent text).terminated = true) (more : List Rune) :
    isBlockDoc (text ++ .lineFeed :: more) = isBlockDoc text := by
  obtain ⟨length, hclosing, htwo, -⟩ | hextent := blockExtent_cases text
  · -- A closed comment has four runes, so nothing behind the text is looked at.
    have hle := closingLength?_go_le hclosing
    rw [List.length_drop] at hle
    have hthree : 3 < text.length := by omega
    simp only [isBlockDoc, charAt?, List.getElem?_append_left hthree,
      List.getElem?_append_left (Nat.lt_of_succ_lt hthree)]
  · rw [hextent] at h
    cases h

theorem isLineDoc_append_lineFeed (hmark : 2 ≤ text.length) (more : List Rune) :
    isLineDoc (text ++ .lineFeed :: more) = isLineDoc text := by
  rcases Nat.lt_or_eq_of_le hmark with hthree | htwo
  · simp only [isLineDoc, bne, charAt?_beq_append_lineFeed hmark (show '!' ≠ '\n' by decide),
      charAt?_beq_append_lineFeed hmark (show '/' ≠ '\n' by decide),
      charAt?_beq_append_lineFeed hthree (show '/' ≠ '\n' by decide)]
  · have hend : (charAt? text 2 == some '/') = false := by
      rw [charAt?, List.getElem?_eq_none (Nat.le_of_eq htwo.symm)]
      rfl
    simp only [isLineDoc, charAt?_beq_append_lineFeed hmark (show '!' ≠ '\n' by decide),
      charAt?_beq_append_lineFeed hmark (show '/' ≠ '\n' by decide), hend, Bool.false_and]

theorem startsShebang_append_lineFeed (text more : List Rune) :
    startsShebang (text ++ .lineFeed :: more) = startsShebang text := by
  have hmark : startsWith (text ++ .lineFeed :: more) ['#', '!'] = startsWith text ['#', '!'] :=
    startsWith_append_lineFeed (by decide) text more
  rw [startsShebang, startsShebang, hmark]
  by_cases h : startsWith text ['#', '!'] = true
  · have htwo : 2 ≤ text.length := length_le_of_startsWith h
    rw [h, bne, bne, charAt?_beq_append_lineFeed htwo (show '[' ≠ '\n' by decide)]
  · rw [Bool.eq_false_iff.mpr h, Bool.false_and, Bool.false_and]

end Comment

/-! ## Numbers -/

theorem Radix.ofText_append_lineFeed (hne : text ≠ []) (more : List Rune) :
    ofText (text ++ .lineFeed :: more) = ofText text := by
  obtain ⟨zero, rest, rfl⟩ := List.exists_cons_of_ne_nil hne
  cases rest with
  | nil =>
      have hmark : ofMark .lineFeed = decimal := by decide
      simp [ofText, hmark]
  | cons mark rest => rfl

namespace Number

theorem markedDigits_append_lineFeed (h : 2 ≤ text.length) (radix : Radix) (more : List Rune) :
    markedDigits radix (text ++ .lineFeed :: more) = markedDigits radix text := by
  have hclass : (radix.runsOver .lineFeed || Rune.lineFeed.char == '_') = false := by
    cases radix <;> decide
  have hstop : (Rune.lineFeed :: more).takeWhile
      (fun rune => radix.runsOver rune || rune.char == '_') = [] :=
    List.takeWhile_cons_of_neg (Bool.eq_false_iff.mp hclass)
  rw [markedDigits, List.drop_append_of_le_length h, List.takeWhile_append, hstop, markedDigits,
    List.append_nil]
  split
  next hall => exact ((List.takeWhile_prefix _).eq_of_length hall).symm
  next => rfl

theorem integerLength_append_lineFeed (hne : text ≠ []) (more : List Rune) :
    integerLength (text ++ .lineFeed :: more) = integerLength text := by
  have hradix := Radix.ofText_append_lineFeed hne more
  by_cases hdecimal : Radix.ofText text = .decimal
  · have hpos : 1 ≤ text.length := List.length_pos_iff.mpr hne
    rw [integerLength_of_decimal (hradix.trans hdecimal), integerLength_of_decimal hdecimal,
      List.drop_append_of_le_length hpos, runLength_append_lineFeed (by decide)]
  · have htwo := Radix.two_le_of_marked hdecimal
    rw [integerLength_of_marked (hradix ▸ hdecimal), integerLength_of_marked hdecimal, hradix,
      markedDigits_append_lineFeed htwo]

theorem hasDigits_append_lineFeed (hne : text ≠ []) (more : List Rune) :
    hasDigits (text ++ .lineFeed :: more) = hasDigits text := by
  have hradix := Radix.ofText_append_lineFeed hne more
  by_cases hdecimal : Radix.ofText text = .decimal
  · simp only [hasDigits, hradix, hdecimal]
  · have htwo := Radix.two_le_of_marked hdecimal
    simp only [hasDigits, hradix, markedDigits_append_lineFeed htwo]

theorem fractionLength_append_lineFeed (text more : List Rune) :
    fractionLength (text ++ .lineFeed :: more) = fractionLength text := by
  have hdot : startsWith (text ++ .lineFeed :: more) ['.'] = startsWith text ['.'] :=
    startsWith_append_lineFeed (by decide) text more
  rw [fractionLength, fractionLength, hdot]
  by_cases h : startsWith text ['.'] = true
  · have hpos : 1 ≤ text.length := length_le_of_startsWith h
    rw [List.drop_append_of_le_length hpos, startsIn_append_lineFeed (by decide),
      runLength_append_lineFeed (by decide)]
  · simp [h]

theorem signLength_append_lineFeed (text more : List Rune) :
    signLength (text ++ .lineFeed :: more) = signLength text := by
  rw [signLength, startsIn_append_lineFeed (by decide), signLength]

theorem signLength_le (text : List Rune) : signLength text ≤ text.length := by
  unfold signLength
  split
  next hsign => exact length_pos_of_startsIn hsign
  next => exact Nat.zero_le _

theorem exponentLength_append_lineFeed (text more : List Rune) :
    exponentLength (text ++ .lineFeed :: more) = exponentLength text := by
  have hmark : startsIn isExponentMark (text ++ .lineFeed :: more) =
      startsIn isExponentMark text := startsIn_append_lineFeed (by decide) text more
  by_cases h : startsIn isExponentMark text = true
  · have hpos : 1 ≤ text.length := length_pos_of_startsIn h
    have hsign := signLength_le (text.drop 1)
    rw [List.length_drop] at hsign
    have hroom : 1 + signLength (text.drop 1) ≤ text.length := by omega
    simp only [exponentLength, hmark, List.drop_append_of_le_length hpos, signLength_append_lineFeed,
      List.drop_append_of_le_length hroom, runLength_append_lineFeed (show
        isDigitOrSeparator .lineFeed = false by decide)]
  · simp [exponentLength, hmark, h]

theorem scan_append_lineFeed (hne : text ≠ []) (more : List Rune) :
    scan (text ++ .lineFeed :: more) = scan text := by
  have hinteger := integerLength_le (List.length_pos_iff.mpr hne)
  have hfraction := fractionLength_le (text.drop (integerLength text))
  rw [List.length_drop] at hfraction
  have hroom : integerLength text + fractionLength (text.drop (integerLength text)) ≤
      text.length := by omega
  simp only [scan, integerLength_append_lineFeed hne, hasDigits_append_lineFeed hne,
    List.drop_append_of_le_length hinteger, fractionLength_append_lineFeed,
    List.drop_append_of_le_length hroom, exponentLength_append_lineFeed]

end Number

/-! ## Quoted literals and raw strings -/

namespace Quoted

theorem closingLength?_go_append {quote : Char} {passed total : Nat}
    (h : closingLength?.go quote passed text = some total) (more : List Rune) :
    closingLength?.go quote passed (text ++ more) = some total := by
  fun_induction closingLength?.go quote passed text with
  | case1 => cases h
  | case2 passed rune hquote =>
      cases more with
      | nil => simpa [closingLength?.go, hquote] using h
      | cons => simpa [closingLength?.go, hquote] using h
  | case3 => cases h
  | case4 passed rune second rest hquote =>
      rw [List.cons_append, List.cons_append, closingLength?.go, if_pos hquote]
      exact h
  | case5 passed rune second rest hquote hescape ih =>
      rw [List.cons_append, List.cons_append, closingLength?.go, if_neg hquote, if_pos hescape]
      exact ih h
  | case6 passed rune second rest hquote hescape ih =>
      rw [List.cons_append, List.cons_append, closingLength?.go, if_neg hquote, if_neg hescape]
      exact ih h

/-- A closed literal has its quotes and is closed in the same place in every longer text. -/
theorem extent_append {quote : Char} (h : (extent quote text).terminated = true)
    (hne : text ≠ []) (more : List Rune) : extent quote (text ++ more) = extent quote text := by
  have hpos : 1 ≤ text.length := List.length_pos_iff.mpr hne
  unfold extent at h
  cases hclosing : closingLength? quote (text.drop 1) with
  | some length =>
      have happend : closingLength? quote ((text ++ more).drop 1) = some length := by
        rw [List.drop_append_of_le_length hpos]
        exact closingLength?_go_append hclosing more
      rw [extent, extent, hclosing, happend]
  | none =>
      rw [hclosing] at h
      cases h

theorem doubleExtent_append (h : (doubleExtent text).terminated = true) (hne : text ≠ [])
    (more : List Rune) : doubleExtent (text ++ more) = doubleExtent text := by
  rw [doubleExtent_eq] at h
  rw [doubleExtent_eq, doubleExtent_eq, extent_append h hne]

/-- A single-quoted literal that is closed has two runes at least. -/
theorem two_le_of_singleExtent (h : (singleExtent text).terminated = true) (hne : text ≠ []) :
    2 ≤ text.length := by
  obtain ⟨quote, rest, rfl⟩ := List.exists_cons_of_ne_nil hne
  cases rest with
  | nil => simp [singleExtent, charAt?, extent, closingLength?, closingLength?.go] at h
  | cons rune rest => exact Nat.le_add_left 2 _

theorem singleExtent_append_lineFeed (h : (singleExtent text).terminated = true) (hne : text ≠ [])
    (more : List Rune) : singleExtent (text ++ .lineFeed :: more) = singleExtent text := by
  have htwo := two_le_of_singleExtent h hne
  simp only [singleExtent, bne, charAt?_beq_append_lineFeed htwo (show '\'' ≠ '\n' by decide),
    charAt?_beq_append_lineFeed (Nat.le_of_succ_le htwo) (show '\\' ≠ '\n' by decide)] at h ⊢
  split
  next => rfl
  next hopen =>
    simp only [hopen] at h
    exact extent_append h hne _

theorem singleQuote_append_lineFeed [XidClasses] (h : (singleQuote text).extent.terminated = true)
    (hne : text ≠ []) (more : List Rune) :
    singleQuote (text ++ .lineFeed :: more) = singleQuote text := by
  have hpos : 1 ≤ text.length := List.length_pos_iff.mpr hne
  have hstart : startsIn Rune.isIdentStart ((text ++ .lineFeed :: more).drop 1) =
      startsIn Rune.isIdentStart (text.drop 1) := by
    rw [List.drop_append_of_le_length hpos, startsIn_append_lineFeed rfl]
  by_cases hword : startsIn Rune.isIdentStart (text.drop 1) = true → charAt? text 2 = some '\''
  · rw [singleQuote_of_not_word hword] at h ⊢
    have hclosed : (singleExtent text).terminated = true := by
      unfold Extent.withSuffix at h
      split at h
      next hclosed => exact hclosed
      next => exact h
    have htwo := two_le_of_singleExtent hclosed hne
    have hword' : startsIn Rune.isIdentStart ((text ++ .lineFeed :: more).drop 1) = true →
        charAt? (text ++ .lineFeed :: more) 2 = some '\'' := by
      rw [hstart, charAt?_append_lineFeed htwo (by decide)]
      exact hword
    rw [singleQuote_of_not_word hword', singleExtent_append_lineFeed hclosed hne,
      Extent.withSuffix_append_lineFeed (singleExtent_le text)]
  · simp only [Classical.not_imp] at hword
    obtain ⟨hword, hquote⟩ := hword
    have htwo : 2 ≤ text.length := by
      have hlength := length_pos_of_startsIn hword
      rw [List.length_drop] at hlength
      omega
    have hrun : runLength Rune.isIdentContinue ((text ++ .lineFeed :: more).drop 2) =
        runLength Rune.isIdentContinue (text.drop 2) := by
      rw [List.drop_append_of_le_length htwo, runLength_append_lineFeed rfl]
    have hroom : 2 + runLength Rune.isIdentContinue (text.drop 2) ≤ text.length := by
      have hle := runLength_le Rune.isIdentContinue (text.drop 2)
      rw [List.length_drop] at hle
      omega
    have hquote' : charAt? (text ++ .lineFeed :: more) 2 ≠ some '\'' := by
      rw [ne_eq, charAt?_append_lineFeed htwo (by decide)]
      exact hquote
    rw [singleQuote_of_word (hstart.trans hword) hquote' rfl, singleQuote_of_word hword hquote rfl,
      hrun, List.drop_append_of_le_length hroom, startsWith_append_lineFeed (by decide)]

end Quoted

namespace RawString

theorem hashes?_append_lineFeed (text more : List Rune) :
    hashes? (text ++ .lineFeed :: more) = hashes? text := by
  have hrun : runLength isHash (text ++ .lineFeed :: more) = runLength isHash text :=
    runLength_append_lineFeed (by decide) text more
  simp only [hashes?, hrun, List.drop_append_of_le_length (runLength_le isHash text),
    startsWith_append_lineFeed (show '\n' ∉ ['"'] by decide)]

theorem atClosing_append_lineFeed (hashes : Nat) (text more : List Rune) :
    atClosing hashes (text ++ .lineFeed :: more) = atClosing hashes text := by
  have hquote : startsWith (text ++ .lineFeed :: more) ['"'] = startsWith text ['"'] :=
    startsWith_append_lineFeed (by decide) text more
  rw [atClosing, atClosing, hquote]
  by_cases h : startsWith text ['"'] = true
  · have hpos : 1 ≤ text.length := length_le_of_startsWith h
    rw [List.drop_append_of_le_length hpos, runLength_append_lineFeed (by decide)]
  · simp [h]

theorem extent_append_lineFeed {prefixLength hashes : Nat}
    (hroom : prefixLength + hashes + 1 ≤ text.length)
    (h : (extent prefixLength hashes text).terminated = true) (more : List Rune) :
    extent prefixLength hashes (text ++ .lineFeed :: more) = extent prefixLength hashes text := by
  unfold extent at h
  cases hclosing : findSuffix? (atClosing hashes) (text.drop (prefixLength + hashes + 1)) with
  | some body =>
      have happend : findSuffix? (atClosing hashes)
          ((text ++ .lineFeed :: more).drop (prefixLength + hashes + 1)) = some body := by
        rw [List.drop_append_of_le_length hroom]
        exact findSuffix?_append (fun before _ => atClosing_append_lineFeed hashes _ more) hclosing
      rw [extent, extent, hclosing, happend]
  | none => simp [hclosing] at h

end RawString

end RustLexer
