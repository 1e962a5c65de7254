import RustLexer.Proofs.Checker.Number
import RustLexer.Proofs.Lexer.RawString

/-! # Where a fault stands

The checks count bytes, and some count runes or the bytes of a part of the text instead. All the same a
fault stands at the start of a rune of the text that it is found in (`Fault.StandsIn`): what is counted in
runes is ASCII, and parts start and stop between runes.
-/

namespace RustLexer

variable {text : List Rune} {fault : Fault} {count : Nat}

/-- A fault stands at the start of a rune of a text. -/
def Fault.StandsIn (fault : Fault) (text : List Rune) : Prop :=
  ∃ count < text.length, fault.offset = Rune.width (text.take count)

theorem Fault.standsIn_of_offset_eq_zero (hne : text ≠ []) (h : fault.offset = 0) :
    fault.StandsIn text :=
  ⟨0, List.length_pos_iff.mpr hne, h⟩

theorem Fault.standsIn_of_append {front back : List Rune} (hback : back ≠ [])
    (h : fault.offset = Rune.width front) : fault.StandsIn (front ++ back) := by
  refine ⟨front.length, ?_, by rw [List.take_left, h]⟩
  rw [List.length_append]
  exact Nat.lt_add_of_pos_right (List.length_pos_iff.mpr hback)

/-! ## Doc comments -/

/-- What is not at the end of a list is found before it. -/
theorem lt_length_of_findSuffix?_eq_some {α : Type} {stop : List α → Bool} {list : List α} {n : Nat}
    (hnil : stop [] = false) (h : findSuffix? stop list = some n) : n < list.length := by
  obtain ⟨-, hhere, -⟩ := findSuffix?_eq_some_iff.mp h
  apply Nat.lt_of_not_le
  intro hle
  rw [List.drop_eq_nil_of_le hle, hnil] at hhere
  cases hhere

theorem Comment.standsIn_of_docFault? {source : Bytes} (h : docFault? source = some fault) :
    fault.StandsIn (runes source) := by
  obtain ⟨index, hindex, rfl⟩ := Option.map_eq_some_iff.mp h
  exact ⟨index, lt_length_of_findSuffix?_eq_some rfl hindex, rfl⟩

/-! ## Numbers -/

namespace Number

theorem isAscii_of_isInPart (radix : Radix) {rune : Rune} (h : isInPart radix rune = true) :
    rune.char.toNat < 0x80 := by
  rw [isInPart, Bool.or_eq_true, beq_iff_eq] at h
  rcases h with hdigit | hseparator
  · have hhex : CodePoint.isHexDigit rune.code = true := by
      unfold Radix.runsOver at hdigit
      split at hdigit
      next => exact hdigit
      next => exact Bool.or_eq_true_iff.mpr (Or.inl (Bool.or_eq_true_iff.mpr (Or.inl hdigit)))
    simp only [CodePoint.isHexDigit, CodePoint.isDigit, Bool.or_eq_true, Bool.and_eq_true,
      decide_eq_true_eq] at hhex
    change rune.code < 0x80
    omega
  · rw [hseparator]
    decide

theorem isAscii_of_isDigitOrSeparator {rune : Rune} (h : isDigitOrSeparator rune = true) :
    rune.char.toNat < 0x80 :=
  isAscii_of_isInPart .decimal h

/-- A fault stands in what is left of a number, from an offset on, with only ASCII before it. -/
def FaultIn (offset : Nat) (text : List Rune) (fault : Fault) : Prop :=
  ∃ count < text.length, fault.offset = offset + count ∧ IsAsciiFront text count

theorem FaultIn.of_drop {offset before : Nat} (hfront : IsAsciiFront text before)
    (h : FaultIn (offset + before) (text.drop before) fault) : FaultIn offset text fault := by
  obtain ⟨count, hlt, hoffset, hascii⟩ := h
  rw [List.length_drop] at hlt
  exact ⟨before + count, by omega, by rw [hoffset, Nat.add_assoc], hfront.add hascii⟩

theorem faultIn_of_suffixFault? {isFloat : Bool} {radix : Radix} {offset : Nat}
    (h : suffixFault? isFloat radix offset text = some fault) : FaultIn offset text fault := by
  unfold suffixFault? at h
  split at h
  next => cases h
  next hsuffix =>
    cases h
    rw [Bool.or_eq_true, not_or, List.isEmpty_iff] at hsuffix
    exact ⟨0, List.length_pos_iff.mpr hsuffix.1, rfl, .zero text⟩

theorem isAsciiFront_fraction (text : List Rune) :
    IsAsciiFront text (if startsWith text ['.'] then
      1 + runLength isDigitOrSeparator (text.drop 1) else 0) := by
  split
  next hdot =>
    obtain ⟨dot, rest, rfl, hchar, -⟩ := startsWith_cons_iff.mp hdot
    exact (IsAsciiFront.one (by rw [hchar]; decide) rest).add
      (.run (fun _ => isAscii_of_isDigitOrSeparator) _)
  next => exact .zero text

theorem isAsciiFront_exponent (h : startsIn isExponentMark text = true) :
    IsAsciiFront text (1 + signLength (text.drop 1) +
      ((text.drop (1 + signLength (text.drop 1))).takeWhile isDigitOrSeparator).length) := by
  obtain ⟨letter, rest, rfl, hletter⟩ := startsIn_iff.mp h
  have hascii : letter.char.toNat < 0x80 := by
    rw [isExponentMark, Bool.or_eq_true, beq_iff_eq, beq_iff_eq] at hletter
    rcases hletter with hletter | hletter <;> rw [hletter] <;> decide
  have hsign : IsAsciiFront rest (signLength rest) := by
    unfold signLength
    split
    next hstart =>
      obtain ⟨sign, digits, rfl, hsign⟩ := startsIn_iff.mp hstart
      refine .one ?_ digits
      simp only [isSign, Bool.or_eq_true, beq_iff_eq] at hsign
      rcases hsign with hsign | hsign <;> rw [hsign] <;> decide
    next => exact .zero rest
  exact ((IsAsciiFront.one hascii rest).add hsign).add
    (.run (fun _ => isAscii_of_isDigitOrSeparator) _)

theorem faultIn_of_floatFault? {offset : Nat} (h : floatFault? offset text = some fault) :
    FaultIn offset text fault := by
  have hfraction := isAsciiFront_fraction text
  simp only [floatFault?] at h
  generalize (if startsWith text ['.'] = true then 1 + runLength isDigitOrSeparator (text.drop 1)
    else 0) = fraction at h hfraction
  refine .of_drop hfraction ?_
  split at h
  next hmark =>
    split at h
    next => exact .of_drop (isAsciiFront_exponent hmark) (faultIn_of_suffixFault? h)
    next =>
      cases h
      exact ⟨0, length_pos_of_startsIn hmark, rfl, .zero _⟩
  next => exact faultIn_of_suffixFault? h

theorem isAsciiFront_mark (text : List Rune) :
    IsAsciiFront text (if Radix.ofText text = .decimal then 0 else 2) := by
  split
  next => exact .zero text
  next hmarked =>
    obtain ⟨zero, mark, digits, rest, htext, hzero, hmark, -⟩ := exists_marked hmarked
    rw [htext]
    refine (IsAsciiFront.one (by rw [hzero]; decide) _).add (.one ?_ _)
    simp only [List.mem_cons, List.not_mem_nil, or_false, Prod.mk.injEq] at hmark
    rcases hmark with ⟨hmark, -⟩ | ⟨hmark, -⟩ | ⟨hmark, -⟩ <;> rw [hmark] <;> decide

theorem faultIn_of_fault? {isFloat : Bool} (hne : text ≠ [])
    (h : fault? isFloat text = some fault) : FaultIn 0 text fault := by
  have hmark := isAsciiFront_mark text
  have hstart : ∀ cause, FaultIn 0 text { cause } :=
    fun _ => ⟨0, List.length_pos_iff.mpr hne, rfl, .zero text⟩
  have hclass : (fun rune => (Radix.ofText text).runsOver rune || rune.char == '_') =
      isInPart (Radix.ofText text) := rfl
  simp only [fault?, hclass] at h
  generalize (if Radix.ofText text = .decimal then 0 else 2) = mark at h hmark
  have hdigits : IsAsciiFront (text.drop mark)
      (runLength (isInPart (Radix.ofText text)) (text.drop mark)) :=
    .run (fun _ => isAscii_of_isInPart _) _
  have hbehind : ∀ behind, FaultIn behind (text.drop behind) fault →
      behind = mark + runLength (isInPart (Radix.ofText text)) (text.drop mark) →
      FaultIn 0 text fault := by
    rintro behind hfault rfl
    refine .of_drop (hmark.add hdigits) ?_
    rw [Nat.zero_add]
    exact hfault
  split at h
  next index hindex =>
    cases h
    obtain ⟨hlt, -⟩ := List.findIdx?_eq_some_iff_getElem.mp hindex
    have hle := runLength_le (isInPart (Radix.ofText text)) (text.drop mark)
    rw [List.length_drop, runLength] at hle
    refine ⟨mark + index, by omega, (Nat.zero_add _).symm, ?_⟩
    exact hmark.add (hdigits.mono (Nat.le_of_lt hlt))
  next =>
  split at h
  next =>
    cases h
    exact hstart _
  next =>
  split at h
  next => exact hbehind _ (faultIn_of_suffixFault? h) rfl
  next =>
  split at h
  next =>
    cases h
    exact hstart _
  next => exact hbehind _ (faultIn_of_floatFault? h) rfl

theorem standsIn_of_fault? {isFloat : Bool} (hdecoded : ∀ rune ∈ text, rune.Decoded)
    (hne : text ≠ []) (h : fault? isFloat text = some fault) : fault.StandsIn text := by
  obtain ⟨count, hlt, hoffset, hascii⟩ := faultIn_of_fault? hne h
  refine ⟨count, hlt, ?_⟩
  rw [hoffset, Nat.zero_add, Rune.width_eq_length_encode,
    hascii.length_encode_take hdecoded (Nat.le_of_lt hlt)]

end Number

/-! ## Quoted literals -/

namespace Quoted

variable {literal : LiteralKind}

/-- What the offsets of a body come to: a fault stands in the text, and what is left behind a closing
quote is left of the text. -/
def Body.Within (offset : Nat) (text : List Rune) : Body → Prop
  | .unclosed => True
  | .faulty fault =>
      ∃ count < text.length, fault.offset = offset + Rune.width (text.take count)
  | .closed _ stop rest =>
      ∃ count, rest = text.drop count ∧ stop = offset + Rune.width (text.take count)

theorem Body.Within.of_drop {body : Body} {offset : Nat} (count : Nat)
    (h : body.Within (offset + Rune.width (text.take count)) (text.drop count)) :
    body.Within offset text := by
  cases body with
  | unclosed => trivial
  | faulty fault =>
      obtain ⟨more, hlt, hoffset⟩ := h
      rw [List.length_drop] at hlt
      refine ⟨count + more, by omega, ?_⟩
      rw [hoffset, List.take_add, Rune.width_append, Nat.add_assoc]
  | closed items stop rest =>
      obtain ⟨more, hrest, hstop⟩ := h
      refine ⟨count + more, by rw [hrest, List.drop_drop], ?_⟩
      rw [hstop, List.take_add, Rune.width_append, Nat.add_assoc]

theorem within_readBody (literal : LiteralKind) (quote : Char) (items offset : Nat)
    (text : List Rune) : (readBody literal quote items offset text).Within offset text := by
  fun_induction readBody literal quote items offset text with
  | case1 => trivial
  | case2 items offset rune rest => exact ⟨1, rfl, by simp [Rune.width_cons]⟩
  | case3 items offset rune rest => exact ⟨0, Nat.zero_lt_succ _, rfl⟩
  | case4 items offset rune rest _ tail _ ih =>
      refine Body.Within.of_drop (1 + tail) ?_
      rw [Nat.add_comm 1 tail, List.take_succ_cons, List.drop_succ_cons, Rune.width_cons,
        ← Nat.add_assoc]
      exact ih

theorem offset_of_closedFault? {items offset : Nat} {rest : List Rune}
    (h : closedFault? literal items offset rest = some fault) :
    fault.offset = 0 ∨ fault.offset = offset ∧ rest ≠ [] := by
  unfold closedFault? at h
  split at h
  next =>
    split at h
    next hquote =>
      cases h
      obtain ⟨quote, more, rfl, -⟩ := startsWith_cons_iff.mp hquote
      exact Or.inr ⟨rfl, List.cons_ne_nil _ _⟩
    next =>
      cases h
      exact Or.inl rfl
  next =>
  split at h
  next =>
    cases h
    exact Or.inl rfl
  next =>
  split at h
  next => cases h
  next hrest =>
    cases h
    exact Or.inr ⟨rfl, by simpa using hrest⟩

theorem standsIn_of_fault? (h : fault? literal text = some fault) : fault.StandsIn text := by
  simp only [fault?] at h
  generalize (if literal.isByte = true then 1 else 0) = marked at h
  split at h
  next => cases h
  next quote body hdrop =>
    have hbody : body = text.drop (marked + 1) := by
      rw [← List.drop_drop, hdrop]
      rfl
    have hlt : marked < text.length := by
      apply Nat.lt_of_not_le
      intro hle
      rw [List.drop_eq_nil_of_le hle] at hdrop
      cases hdrop
    have hwithin : (readBody literal quote.char 0 (Rune.width (text.take (marked + 1))) body).Within
        0 text := by
      apply Body.Within.of_drop (marked + 1)
      rw [Nat.zero_add, hbody]
      exact within_readBody _ _ _ _ _
    split at h
    next => cases h
    next hread =>
      cases h
      rw [hread] at hwithin
      simpa [Body.Within, Fault.StandsIn] using hwithin
    next items stop rest hread =>
      rw [hread] at hwithin
      obtain ⟨count, hrest, hstop⟩ := hwithin
      obtain hzero | ⟨hoffset, hne⟩ := offset_of_closedFault? h
      · exact ⟨0, by omega, hzero⟩
      · refine ⟨count, Nat.lt_of_not_le fun hle => hne ?_, ?_⟩
        · rw [hrest, List.drop_eq_nil_of_le hle]
        · rw [hoffset, hstop, Nat.zero_add]

end Quoted

/-! ## Raw strings -/

namespace RawString

theorem exists_count_of_bodyFault? {literal : LiteralKind} {offset : Nat}
    (h : bodyFault? literal offset text = some fault) :
    ∃ count < text.length, fault.offset = offset + Rune.width (text.take count) := by
  obtain ⟨index, hindex, rfl⟩ := Option.map_eq_some_iff.mp h
  have hnil : atFault literal [] = false := by
    cases literal <;> rfl
  exact ⟨index, lt_length_of_findSuffix?_eq_some hnil hindex, rfl⟩

theorem standsIn_of_fault? (literal : LiteralKind) {source : Bytes} {hashes : UInt32}
    (hmark : startsWith (runes source) (mark literal) = true)
    (hhashes : hashes? ((runes source).drop (mark literal).length) = some hashes)
    (h : fault? literal hashes.toNat source = some fault) : fault.StandsIn (runes source) := by
  have hascii := opening_isAscii (mark_isAscii literal) hmark hhashes
  have hle := opening_le hhashes
  simp only [fault?, ← length_mark] at h
  generalize hashes.toNat = hashes at hascii hle h
  generalize (mark literal).length + hashes + 1 = opening at hascii hle h
  obtain ⟨hdrop, -⟩ := drop_of_ascii hle hascii
  have hopening : Rune.width ((runes source).take opening) = opening :=
    by
    rw [Rune.width_eq_length_encode, hascii.length_encode_take decoded_of_mem_runes hle]
  have hcontent : runes (source.drop opening) = (runes source).drop opening := by
    rw [hdrop, runes_encode_drop]
  split at h
  next => cases h
  next length hindex =>
    obtain ⟨body, hcloses, hlength⟩ := exists_firstCloses hindex
    obtain ⟨more, hmore⟩ := hcloses.closes
    rw [List.append_assoc] at hmore
    -- The text is cut between runes on both sides of its body.
    have hrunes : runes source = (runes source).take opening ++
        (runes body ++ (runes (closing hashes) ++ runes more)) := by
      rw [← runes_append_closing, hmore, hcontent, List.take_append_drop]
    have hbody : (source.drop opening).take length = body := by
      rw [← hmore, List.take_left' hlength]
    rw [hbody] at h
    split at h
    next bodyFault hfault =>
      cases h
      obtain ⟨count, hlt, hoffset⟩ := exists_count_of_bodyFault? hfault
      have hne : (runes body).drop count ≠ [] :=
        fun hnil => Nat.not_le.mpr hlt (List.drop_eq_nil_iff.mp hnil)
      have hsplit : runes source = ((runes source).take opening ++ (runes body).take count) ++
          ((runes body).drop count ++ (runes (closing hashes) ++ runes more)) := by
        rw [List.append_assoc, ← List.append_assoc ((runes body).take count),
          List.take_append_drop, ← hrunes]
      rw [hsplit]
      refine Fault.standsIn_of_append (List.append_ne_nil_of_left_ne_nil hne _) ?_
      rw [hoffset, Rune.width_append, hopening]
    next =>
      split at h
      next hlt =>
        cases h
        have hne : runes more ≠ [] := by
          intro hnil
          have hwidth := congrArg Rune.width hrunes
          simp only [Rune.width_append, Rune.width_runes, hnil, Rune.width_nil, hopening, hlength,
            length_closing] at hwidth
          omega
        rw [hrunes, ← List.append_assoc (runes body), ← List.append_assoc]
        refine Fault.standsIn_of_append hne ?_
        simp only [Rune.width_append, Rune.width_runes, hopening, hlength, length_closing]
        omega
      next => cases h

end RawString

/-! ## Lexemes -/

theorem Dialect.standsIn_of_literalFault? [XidClasses] {dialect : Dialect} {source : Bytes} {lexeme : Lexeme}
    (hlexeme : lexeme ∈ dialect.lexemes source) (hkind : lexeme.kind = .literal)
    (h : lexeme.literalFault? = some fault) : fault.StandsIn (runes lexeme.text) := by
  have hne := (inPlace_of_mem hlexeme).runes_text_ne_nil
  obtain ⟨construct, hliteral, hmark, hcut⟩ := dialect.literal_of_mem hlexeme hkind
  have hhashes := congrArg (fun cut => cut.tag.hashes) hcut
  unfold Lexeme.literalFault? at h
  split at h
  next =>
    cases h
    exact Fault.standsIn_of_offset_eq_zero hne rfl
  next =>
  split at h
  next =>
    cases h
    exact Fault.standsIn_of_offset_eq_zero hne rfl
  next =>
  generalize lexeme.literal = literal at hliteral h
  cases hliteral with
  | integer => exact Number.standsIn_of_fault? decoded_of_mem_runes hne h
  | float => exact Number.standsIn_of_fault? decoded_of_mem_runes hne h
  | char => exact Quoted.standsIn_of_fault? h
  | byteChar => exact Quoted.standsIn_of_fault? h
  | string => exact Quoted.standsIn_of_fault? h
  | byteString => exact Quoted.standsIn_of_fault? h
  | rawString hashes =>
      obtain rfl : hashes = lexeme.hashes := hhashes
      exact RawString.standsIn_of_fault? .rawString hmark.1 hmark.2 h
  | rawByteString hashes =>
      obtain rfl : hashes = lexeme.hashes := hhashes
      exact RawString.standsIn_of_fault? .rawByteString hmark.1 hmark.2 h

/-- The fault of a lexeme stands in its text. -/
theorem Dialect.standsIn_of_fault? [XidClasses] {dialect : Dialect} {source : Bytes} {lexeme : Lexeme}
    (hlexeme : lexeme ∈ dialect.lexemes source) (h : lexeme.fault? = some fault) :
    fault.StandsIn (runes lexeme.text) := by
  have hne := (inPlace_of_mem hlexeme).runes_text_ne_nil
  unfold Lexeme.fault? at h
  split at h
  next =>
    cases h
    exact Fault.standsIn_of_offset_eq_zero hne rfl
  next =>
    split at h
    next =>
      cases h
      exact Fault.standsIn_of_offset_eq_zero hne rfl
    next =>
      split at h
      next => exact Comment.standsIn_of_docFault? h
      next => cases h
  next =>
    split at h
    next => exact Comment.standsIn_of_docFault? h
    next => cases h
  next hkind => exact dialect.standsIn_of_literalFault? hlexeme hkind h
  all_goals cases h

end RustLexer
