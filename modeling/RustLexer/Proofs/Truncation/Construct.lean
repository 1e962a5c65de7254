import RustLexer.Proofs.Text.Ascii
import RustLexer.Proofs.Truncation.Cut

/-! # Constructs in a text that is cut off

A text that is cut off behind its first construct starts with the same construct, at the start of a
source as well as behind it (`Construct.ofText_take`). A test that looks behind the construct has failed
there, and it fails again where those runes are missing. Only a shebang asks for a rune not to be there,
the `[` of an attribute; but an attribute's `#` is a construct of its own, so the `!` is missing too.
-/

namespace RustLexer

variable {text : List Rune} {count : Nat}

/-! ## Symbols -/

namespace Symbol

theorem text_ascii (found : Symbol) : ∀ byte ∈ found.text, byte < 0x80 := by
  have hall : (found.text.all fun byte => byte < 0x80) = true := by cases found <;> decide
  intro byte hbyte
  exact of_decide_eq_true (List.all_eq_true.mp hall byte hbyte)

theorem text_of_ofText? {bytes : Bytes} {found : Symbol} (h : ofText? bytes = some found) :
    found.text = bytes := by
  have hfound := List.find?_some h
  exact of_decide_eq_true hfound

/-- The symbol at the front of a text is read from as many runes as it has characters. -/
theorem longest?_eq_some (hdecoded : ∀ rune ∈ text, rune.Decoded) {found : Symbol}
    (h : longest? text = some found) :
    found.length ≤ 3 ∧ (text.take found.length).length = found.length ∧
      Rune.encode (text.take found.length) = found.text ∧ ofText? found.text = some found := by
  obtain ⟨count, hcount, hfound⟩ := List.exists_of_findSome?_eq_some h
  have htext := text_of_ofText? hfound
  have hlength : (text.take count).length = found.length := by
    rw [length, htext]
    apply Rune.length_of_ascii
    · exact fun rune hrune => hdecoded rune (List.mem_of_mem_take hrune)
    · rw [← htext]
      exact found.text_ascii
  have htake : text.take found.length = text.take count := by
    rw [← hlength, List.length_take, List.take_eq_take_iff]
    omega
  have hthree : count ≤ 3 := by
    simp only [List.mem_cons, List.not_mem_nil, or_false] at hcount
    omega
  rw [htake, htext]
  refine ⟨?_, hlength, rfl, hfound⟩
  rw [← hlength, List.length_take]
  omega

theorem longest?_take (hdecoded : ∀ rune ∈ text, rune.Decoded) {found : Symbol}
    (h : longest? text = some found) : longest? (text.take found.length) = some found := by
  obtain ⟨hthree, hlength, hencode, hfound⟩ := longest?_eq_some hdecoded h
  have hwhole : (text.take found.length).take 3 = text.take found.length :=
    List.take_of_length_le (Nat.le_trans (Nat.le_of_eq hlength) hthree)
  rw [longest?, List.findSome?_cons, hwhole, hencode, hfound]

theorem longest?_take_one (h : longest? text = none) : longest? (text.take 1) = none := by
  rw [longest?, List.findSome?_eq_none_iff] at h ⊢
  intro count hcount
  have hone : (text.take 1).take count = text.take 1 := by
    simp only [List.mem_cons, List.not_mem_nil, or_false] at hcount
    rw [List.take_take, Nat.min_eq_right (by omega)]
  rw [hone]
  exact h 1 (by decide)

/-- A text that starts with `#` starts with no longer symbol. -/
theorem length_of_pound (hdecoded : ∀ rune ∈ text, rune.Decoded)
    (hpound : startsWith text ['#'] = true) {found : Symbol} (h : longest? text = some found) :
    found.length = 1 := by
  obtain ⟨-, hlength, hencode, -⟩ := longest?_eq_some hdecoded h
  have hpos := found.length_pos
  cases text with
  | nil => cases hpound
  | cons rune rest =>
      obtain ⟨length, hsucc⟩ := Nat.exists_eq_add_of_lt hpos
      rw [hsucc, Nat.zero_add, List.take_succ_cons, Rune.encode_cons] at hencode
      have hchar : rune.char = '#' := by simpa [startsWith] using hpound
      have hbytes := (hdecoded rune List.mem_cons_self).bytes_of_ascii (by rw [hchar]; decide)
      have hfirst : found.text.head? = some '#'.toUInt8 := by
        rw [← hencode, hbytes, hchar]
        rfl
      revert hfirst
      cases found <;> decide

end Symbol

namespace Construct

/-! ## Which construct it is -/

theorem rawString?_of_take {construct : Construct}
    (h : rawString? (text.take count) = some construct) : rawString? text = some construct := by
  unfold rawString? at h ⊢
  split at h
  next hbyte =>
    obtain ⟨hashes, hhashes, rfl⟩ := Option.map_eq_some_iff.mp h
    rw [List.drop_take] at hhashes
    rw [if_pos (startsWith_of_take hbyte), RawString.hashes?_of_take hhashes, Option.map_some]
  next hbyte =>
    split at h
    next hraw =>
      obtain ⟨hashes, hhashes, rfl⟩ := Option.map_eq_some_iff.mp h
      rw [List.drop_take] at hhashes
      have hraw := startsWith_of_take hraw
      have hbyte' : ¬ startsWith text ['b', 'r'] = true := by
        cases text with
        | nil => simp [startsWith]
        | cons rune rest =>
            simp only [startsWith, Bool.and_true, beq_iff_eq] at hraw
            simp [startsWith, hraw]
      rw [if_neg hbyte', if_pos hraw, RawString.hashes?_of_take hhashes, Option.map_some]
    next => cases h

theorem startsShebang_take (h : 2 ≤ count) (hshebang : Comment.startsShebang text = true) :
    Comment.startsShebang (text.take count) = true := by
  rw [Comment.startsShebang, Bool.and_eq_true, bne_iff_ne] at hshebang ⊢
  refine ⟨(startsWith_take h).trans hshebang.1, ?_⟩
  rw [charAt?_take]
  split
  next => exact hshebang.2
  next => simp

variable [XidClasses]

theorem rawString?_take (keywords : Keywords) {construct : Construct}
    (h : rawString? text = some construct) :
    rawString? (text.take (construct.cut keywords text).length) = some construct := by
  unfold rawString? at h ⊢
  split at h
  next hbyte =>
    obtain ⟨hashes, hhashes, rfl⟩ := Option.map_eq_some_iff.mp h
    have hopening := RawString.opening_lt_extent hhashes
    have hextent : (RawString.extent 2 hashes.toNat text).length ≤
        ((rawByteString hashes).cut keywords text).length := Extent.length_le_withSuffix _ _
    have hmark : ['b', 'r'].length ≤ ((rawByteString hashes).cut keywords text).length := by
      simp only [List.length_cons, List.length_nil]
      omega
    rw [startsWith_take hmark, if_pos hbyte, List.drop_take, RawString.hashes?_take (by omega),
      hhashes, Option.map_some]
  next hbyte =>
    split at h
    next hraw =>
      obtain ⟨hashes, hhashes, rfl⟩ := Option.map_eq_some_iff.mp h
      have hopening := RawString.opening_lt_extent hhashes
      have hextent : (RawString.extent 1 hashes.toNat text).length ≤
          ((rawString hashes).cut keywords text).length := Extent.length_le_withSuffix _ _
      have hmark : ['r'].length ≤ ((rawString hashes).cut keywords text).length := by
        simp only [List.length_singleton]
        omega
      rw [if_neg (mt startsWith_of_take hbyte), startsWith_take hmark, if_pos hraw, List.drop_take,
        RawString.hashes?_take (by omega), hhashes, Option.map_some]
    next => cases h

/-- The mark of a raw identifier, with the rune behind it that starts the word. -/
theorem rawIdentifierMark_of_take (h : (startsWith (text.take count) ['r', '#'] &&
      startsIn Rune.isIdentStart ((text.take count).drop 2)) = true) :
    (startsWith text ['r', '#'] && startsIn Rune.isIdentStart (text.drop 2)) = true := by
  rw [Bool.and_eq_true] at h ⊢
  obtain ⟨hmark, hstart⟩ := h
  rw [List.drop_take] at hstart
  exact ⟨startsWith_of_take hmark, startsIn_of_take hstart⟩

theorem ofPlainText_take (keywords : Keywords) (hne : text ≠ [])
    (hdecoded : ∀ rune ∈ text, rune.Decoded) {construct : Construct}
    (h : ofPlainText text = construct) :
    ofPlainText (text.take (construct.cut keywords text).length) = construct := by
  have hpos := cut_length_pos keywords hne (h ▸ ofPlainText_markedIn text)
  unfold ofPlainText at h
  split at h
  next raw hraw =>
    subst h
    simp only [ofPlainText, rawString?_take keywords hraw]
  next hraw =>
    have hcut : ∀ count, rawString? (text.take count) = none := by
      intro count
      rw [Option.eq_none_iff_forall_ne_some]
      intro found hfound
      rw [rawString?_of_take hfound] at hraw
      cases hraw
    simp only [ofPlainText, hcut]
    split at h
    next hident =>
      subst h
      have hword := wordLength_pos (Bool.and_eq_true_iff.mp hident).2
      have hroom : 2 < (rawIdentifier.cut keywords text).length := Nat.lt_add_of_pos_right hword
      have hmark : ['r', '#'].length ≤ (rawIdentifier.cut keywords text).length :=
        Nat.le_of_lt hroom
      rw [startsWith_take hmark, List.drop_take, startsIn_take _ _ (Nat.sub_pos_of_lt hroom),
        if_pos hident]
    next hident =>
    rw [if_neg (mt rawIdentifierMark_of_take hident), startsIn_take _ _ hpos, startsIn_take _ _ hpos]
    split at h
    next hdigit => rw [if_pos hdigit, h]
    next hdigit =>
    rw [if_neg hdigit]
    split at h
    next hstart => rw [if_pos hstart, h]
    next hstart =>
    rw [if_neg hstart]
    split at h
    next found hfound =>
      subst h
      simp only [cut, Cut.ofSymbol, Symbol.longest?_take hdecoded hfound]
    next hnone =>
      subst h
      simp only [cut, Symbol.longest?_take_one hnone]

theorem ofText_of_pound (hpound : startsWith text ['#'] = true) :
    ofText false text =
      match Symbol.longest? text with
      | some found => symbol found
      | none => unknown := by
  cases text with
  | nil => cases hpound
  | cons rune rest =>
      have hchar : rune.char = '#' := by simpa [startsWith] using hpound
      have hwhite : rune.isWhitespace = false := by
        rw [Rune.isWhitespace, Rune.code, hchar]
        decide
      have hdigit : rune.isDigit = false := by
        rw [Rune.isDigit, Rune.code, hchar]
        decide
      have hstart : rune.isIdentStart = false := by
        rw [Rune.isIdentStart, Rune.code, hchar]
        rfl
      cases hfound : Symbol.longest? (rune :: rest) <;>
        simp [ofText, ofPlainText, rawString?, startsWith, startsIn, hchar, hwhite, hdigit, hstart,
          hfound]

/-- A `#` that starts no shebang stands alone. -/
theorem cut_length_of_pound (keywords : Keywords) (hdecoded : ∀ rune ∈ text, rune.Decoded)
    (hpound : startsWith text ['#'] = true) :
    ((ofText false text).cut keywords text).length = 1 := by
  rw [ofText_of_pound hpound]
  cases hfound : Symbol.longest? text with
  | some found => exact Symbol.length_of_pound hdecoded hpound hfound
  | none => rfl

theorem startsShebang_take_eq_false (keywords : Keywords) (hdecoded : ∀ rune ∈ text, rune.Decoded) :
    Comment.startsShebang (text.take ((ofText false text).cut keywords text).length) = false := by
  rw [Bool.eq_false_iff]
  intro hshebang
  rw [Comment.startsShebang, Bool.and_eq_true] at hshebang
  -- The part would start with `#!`, but a text that starts with `#` is cut off behind it.
  have hmark : startsWith text ['#', '!'] = true := startsWith_of_take hshebang.1
  have hpound : startsWith text ['#'] = true := by
    cases text with
    | nil => cases hmark
    | cons rune rest =>
        rw [startsWith, Bool.and_eq_true] at hmark
        rw [startsWith, hmark.1, startsWith]
        rfl
  have htwo := length_le_of_startsWith hshebang.1
  rw [cut_length_of_pound keywords hdecoded hpound, List.length_take] at htwo
  simp only [List.length_cons, List.length_nil] at htwo
  omega

/-! A construct holds the mark that it is known by. -/

theorem mark_le_blockComment (keywords : Keywords) (h : startsWith text ['/', '*'] = true) :
    2 ≤ (blockComment.cut keywords text).length := by
  obtain ⟨length, -, -, hextent⟩ | hextent := Comment.blockExtent_cases text
  · rw [cut, Cut.ofBlockComment, hextent]
    exact Nat.le_add_right 2 _
  · rw [cut, Cut.ofBlockComment, hextent]
    exact length_le_of_startsWith h

theorem mark_le_byteString (keywords : Keywords) (h : startsWith text ['b', '"'] = true) :
    2 ≤ (byteString.cut keywords text).length := by
  have hextent := Quoted.doubleExtent_length_pos (drop_one_ne_nil h)
  have hsuffix := Extent.length_le_withSuffix ((Quoted.doubleExtent (text.drop 1)).precededBy 1) text
  exact Nat.le_trans (Nat.add_le_add_left hextent 1) hsuffix

theorem mark_le_byteChar (keywords : Keywords) (h : startsWith text ['b', '\''] = true) :
    2 ≤ (byteChar.cut keywords text).length := by
  have hextent := Quoted.singleExtent_length_pos (drop_one_ne_nil h)
  have hsuffix := Extent.length_le_withSuffix ((Quoted.singleExtent (text.drop 1)).precededBy 1) text
  exact Nat.le_trans (Nat.add_le_add_left hextent 1) hsuffix

theorem ofText_false_take (keywords : Keywords) (hne : text ≠ [])
    (hdecoded : ∀ rune ∈ text, rune.Decoded) {construct : Construct}
    (h : ofText false text = construct) :
    ofText false (text.take (construct.cut keywords text).length) = construct := by
  have hpos := cut_length_pos keywords hne (h ▸ ofText_markedIn false text)
  -- A test that fails on the text fails on the part too, and the part holds what the first one that
  -- succeeds has looked at.
  simp only [ofText, Bool.false_and, Bool.false_eq_true, if_false] at h ⊢
  rw [startsIn_take _ _ hpos]
  split at h
  next hwhite => rw [if_pos hwhite, h]
  next hwhite =>
  rw [if_neg hwhite]
  split at h
  next hline =>
    subst h
    have hroom : ['/', '/'].length ≤ (lineComment.cut keywords text).length :=
      Nat.le_add_right 2 _
    rw [startsWith_take hroom, if_pos hline]
  next hline =>
  rw [if_neg (mt startsWith_of_take hline)]
  split at h
  next hblock =>
    subst h
    rw [startsWith_take (mark_le_blockComment keywords hblock), if_pos hblock]
  next hblock =>
  rw [if_neg (mt startsWith_of_take hblock), startsWith_take hpos, startsWith_take hpos]
  split at h
  next hquote => rw [if_pos hquote, h]
  next hquote =>
  rw [if_neg hquote]
  split at h
  next hquote => rw [if_pos hquote, h]
  next hquote =>
  rw [if_neg hquote]
  split at h
  next hbyte =>
    subst h
    rw [startsWith_take (mark_le_byteString keywords hbyte), if_pos hbyte]
  next hbyte =>
  rw [if_neg (mt startsWith_of_take hbyte)]
  split at h
  next hbyte =>
    subst h
    rw [startsWith_take (mark_le_byteChar keywords hbyte), if_pos hbyte]
  next hbyte =>
  rw [if_neg (mt startsWith_of_take hbyte)]
  exact ofPlainText_take keywords hne hdecoded h

/-- The first construct of a text is there again when the text is cut off behind it, also if what is
left is a source of its own. -/
theorem ofText_take (keywords : Keywords) (hne : text ≠ [])
    (hdecoded : ∀ rune ∈ text, rune.Decoded) {atStart : Bool} {construct : Construct}
    (h : ofText atStart text = construct) :
    ofText true (text.take (construct.cut keywords text).length) = construct := by
  by_cases hshebang : (atStart && Comment.startsShebang text) = true
  · rw [ofText, if_pos hshebang] at h
    subst h
    have hroom : 2 ≤ (shebang.cut keywords text).length := Nat.le_add_right 2 _
    rw [ofText, startsShebang_take hroom (Bool.and_eq_true_iff.mp hshebang).2]
    rfl
  · have hlater : ofText false text = construct := by
      rw [← h, ofText, ofText, if_neg hshebang]
      rfl
    have hplain := startsShebang_take_eq_false keywords hdecoded
    rw [hlater] at hplain
    rw [ofText_of_not_shebang hplain true]
    exact ofText_false_take keywords hne hdecoded hlater

end Construct

end RustLexer
