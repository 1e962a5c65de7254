import RustLexer.Checker.Escape
import RustLexer.Proofs.Grammar.Quoted
import RustLexer.Proofs.Lexer.Reach

/-! # Escapes and their grammar

The checker takes an escape exactly if the grammar has it (`Escape.length_sound`,
`Escape.length_of_escape`), and behind an escaped line break it takes all the whitespace there is, where the
grammar leaves open how much (`Escape.length_of_lineBreak`).
-/

namespace RustLexer.Escape

open Grammar (isHexDigit appendHex)

variable {literal : LiteralKind} {text : List Rune} {n : Nat}

theorem map_eq_ok_iff {ε α β : Type} {result : Except ε α} {f : α → β} {b : β} :
    result.map f = .ok b ↔ ∃ a, result = .ok a ∧ f a = b := by
  cases result <;> simp [Except.map]

/-! ## Bytes -/

theorem hexOutOfRange_iff {value : Nat} :
    (!literal.isByte && decide (0x7F < value)) = true ↔
      ¬ (literal.isByte = true ∨ value ≤ 0x7F) := by
  cases literal.isByte <;> simp

theorem hexLength_eq_ok_iff :
    hexLength literal text = .ok n ↔
      n = 2 ∧ ∃ high low more, text = high :: low :: more ∧
        isHexDigit high.char = true ∧ isHexDigit low.char = true ∧
        (literal.isByte = true ∨ appendHex 0 [high.char, low.char] ≤ 0x7F) := by
  unfold hexLength
  split
  next high low more =>
    by_cases hdigits : isHexDigit high.char = true ∧ isHexDigit low.char = true
    · obtain ⟨hhigh, hlow⟩ := hdigits
      have hboth : (high.isHexDigit && low.isHexDigit) = true :=
        Bool.and_eq_true_iff.mpr ⟨hhigh, hlow⟩
      have hvalue : appendHex 0 [high.char, low.char] =
          CodePoint.digitValue high.code * 16 + CodePoint.digitValue low.code := by
        rw [Grammar.appendHex_cons hhigh, Grammar.appendHex_cons hlow, Nat.zero_mul, Nat.zero_add]
        rfl
      rw [if_pos hboth]
      simp only [← hvalue]
      by_cases hallowed : literal.isByte = true ∨ appendHex 0 [high.char, low.char] ≤ 0x7F
      · rw [if_neg fun hfault => hexOutOfRange_iff.mp hfault hallowed]
        constructor
        · intro hok
          exact ⟨(Except.ok.inj hok).symm, high, low, more, rfl, hhigh, hlow, hallowed⟩
        · rintro ⟨rfl, -⟩
          rfl
      · rw [if_pos (hexOutOfRange_iff.mpr hallowed)]
        simp only [reduceCtorEq, List.cons.injEq, false_iff]
        rintro ⟨-, _, _, _, ⟨rfl, rfl, -⟩, -, -, hvalid⟩
        exact hallowed hvalid
    · have hboth : ¬ (high.isHexDigit && low.isHexDigit) = true := by
        rw [Bool.and_eq_true]
        exact hdigits
      rw [if_neg hboth]
      simp only [reduceCtorEq, List.cons.injEq, false_iff]
      rintro ⟨-, _, _, _, ⟨rfl, rfl, -⟩, hhigh, hlow, -⟩
      exact hdigits ⟨hhigh, hlow⟩
  next hshort =>
    simp only [reduceCtorEq, false_iff]
    rintro ⟨-, high, low, more, rfl, -⟩
    exact hshort high low more rfl

/-! ## Code points -/

/-- The digits that go on with a code point, behind a number of digits that stand for `value`. -/
structure Digits (digits value : Nat) (chars : List Char) : Prop where
  start : digits = 0 → ∃ first others, chars = first :: others ∧ isHexDigit first = true
  mem : ∀ char ∈ chars, isHexDigit char = true ∨ char = '_'
  count : digits + chars.countP isHexDigit ≤ 6
  value : Grammar.IsScalar (appendHex value chars)

theorem checkScalar_eq_ok_iff {digits value : Nat} :
    checkScalar digits value = .ok () ↔ digits ≠ 0 ∧ Grammar.IsScalar value := by
  unfold checkScalar Grammar.IsScalar
  grind

theorem Digits.separator {digits value : Nat} {chars : List Char} (hpos : 0 < digits) :
    Digits digits value ('_' :: chars) ↔ Digits digits value chars := by
  have hseparator : isHexDigit '_' = false := rfl
  constructor
  · rintro ⟨-, hmem, hcount, hvalue⟩
    refine ⟨by omega, (List.forall_mem_cons.mp hmem).2, ?_, hvalue⟩
    simpa [hseparator] using hcount
  · rintro ⟨-, hmem, hcount, hvalue⟩
    refine ⟨by omega, List.forall_mem_cons.mpr ⟨Or.inr rfl, hmem⟩, ?_, hvalue⟩
    simpa [hseparator] using hcount

theorem Digits.digit {digits value : Nat} {char : Char} {chars : List Char}
    (hdigit : isHexDigit char = true) :
    Digits digits value (char :: chars) ↔
      Digits (digits + 1) (value * 16 + CodePoint.digitValue char.toNat) chars := by
  constructor
  · rintro ⟨-, hmem, hcount, hvalue⟩
    rw [List.countP_cons_of_pos hdigit] at hcount
    rw [Grammar.appendHex_cons hdigit] at hvalue
    exact ⟨by omega, (List.forall_mem_cons.mp hmem).2, by omega, hvalue⟩
  · rintro ⟨-, hmem, hcount, hvalue⟩
    rw [← Grammar.appendHex_cons hdigit] at hvalue
    refine ⟨fun _ => ⟨char, chars, rfl, hdigit⟩, List.forall_mem_cons.mpr ⟨Or.inl hdigit, hmem⟩, ?_,
      hvalue⟩
    rw [List.countP_cons_of_pos hdigit]
    omega

/-- From no digits on, they are a code point of the grammar. -/
theorem Digits.escape {chars : List Char} (hliteral : literal.isByte = false)
    (h : Digits 0 0 chars) :
    Grammar.Escape literal ('\\' :: 'u' :: '{' :: (chars ++ ['}'])) := by
  obtain ⟨first, others, rfl, hfirst⟩ := h.start rfl
  have hcount := h.count
  rw [Nat.zero_add] at hcount
  exact .codePoint hliteral hfirst (List.forall_mem_cons.mp h.mem).2 hcount h.value

theorem codePointLength_go_sound {passed digits value total : Nat} (hdigits : digits ≤ 6)
    (h : codePointLength.go passed digits value text = .ok total) :
    ∃ front brace more, text = front ++ brace :: more ∧ brace.char = '}' ∧
      Digits digits value (front.map Rune.char) ∧ total = passed + front.length + 1 := by
  fun_induction codePointLength.go passed digits value text with
  | case1 => cases h
  | case2 passed digits value rune rest hbrace =>
      obtain ⟨_, hscalar, rfl⟩ := map_eq_ok_iff.mp h
      obtain ⟨hpos, hvalue⟩ := checkScalar_eq_ok_iff.mp hscalar
      exact ⟨[], rune, rest, rfl, hbrace, ⟨fun hzero => absurd hzero hpos, by simp, by simpa, hvalue⟩,
        rfl⟩
  | case3 passed digits value rune rest _ hseparator ih =>
      obtain ⟨front, brace, more, rfl, hbrace, hfront, rfl⟩ := ih hdigits h
      refine ⟨rune :: front, brace, more, rfl, hbrace, ?_, ?_⟩
      · rw [List.map_cons, hseparator.1]
        exact (Digits.separator hseparator.2).mpr hfront
      · rw [List.length_cons]
        omega
  | case4 => cases h
  | case5 => cases h
  | case6 passed digits value rune rest _ _ hdigit hsix ih =>
      obtain ⟨front, brace, more, rfl, hbrace, hfront, rfl⟩ := ih (by omega) h
      refine ⟨rune :: front, brace, more, rfl, hbrace, ?_, ?_⟩
      · have hrune : rune.isHexDigit = true := by simpa using hdigit
        exact (Digits.digit hrune).mpr hfront
      · rw [List.length_cons]
        omega

theorem codePointLength_go_complete {passed digits value : Nat} {front more : List Rune}
    {brace : Rune} (hbrace : brace.char = '}') (h : Digits digits value (front.map Rune.char)) :
    codePointLength.go passed digits value (front ++ brace :: more) =
      .ok (passed + front.length + 1) := by
  induction front generalizing passed digits value with
  | nil =>
      have hpos : digits ≠ 0 := by
        intro hzero
        obtain ⟨_, _, hcons, -⟩ := h.start hzero
        cases hcons
      have hscalar : checkScalar digits value = .ok () := checkScalar_eq_ok_iff.mpr ⟨hpos, h.value⟩
      rw [List.nil_append, codePointLength.go, if_pos hbrace, hscalar]
      rfl
  | cons rune front ih =>
      rw [List.map_cons] at h
      rw [List.cons_append, codePointLength.go, List.length_cons]
      rcases (List.forall_mem_cons.mp h.mem).1 with hdigit | hseparator
      · have hrest := (Digits.digit hdigit).mp h
        have hcount := hrest.count
        have hsix : digits ≠ 6 := by omega
        have hclose : rune.char ≠ '}' := by
          intro hchar
          rw [hchar] at hdigit
          cases hdigit
        have hother : ¬ (rune.char = '_' ∧ 0 < digits) := by
          rintro ⟨hchar, -⟩
          rw [hchar] at hdigit
          cases hdigit
        have hrune : rune.isHexDigit = true := hdigit
        rw [if_neg hclose, if_neg hother, if_neg (by simp [hrune]), if_neg hsix]
        rw [Rune.code, ih hrest]
        congr 1
        omega
      · have hpos : 0 < digits := by
          apply Nat.pos_of_ne_zero
          intro hzero
          obtain ⟨_, _, hcons, hfirst⟩ := h.start hzero
          rw [← (List.cons.inj hcons).1, hseparator] at hfirst
          cases hfirst
        rw [hseparator] at h
        have hrest := (Digits.separator hpos).mp h
        rw [if_neg (by rw [hseparator]; decide), if_pos ⟨hseparator, hpos⟩, ih hrest]
        congr 1
        omega

theorem unicodeLength_sound (h : unicodeLength literal text = .ok n) :
    literal.isByte = false ∧ ∃ opening front brace more,
      text = opening :: (front ++ brace :: more) ∧ opening.char = '{' ∧ brace.char = '}' ∧
        Digits 0 0 (front.map Rune.char) ∧ n = front.length + 2 := by
  unfold unicodeLength at h
  split at h
  next => cases h
  next hliteral =>
    split at h
    next hopening =>
      obtain ⟨opening, rest, rfl, hchar, -⟩ := startsWith_cons_iff.mp hopening
      obtain ⟨length, hlength, rfl⟩ := map_eq_ok_iff.mp h
      rw [List.drop_one, List.tail_cons] at hlength
      obtain ⟨front, brace, more, rfl, hbrace, hfront, rfl⟩ :=
        codePointLength_go_sound (Nat.zero_le 6) hlength
      refine ⟨Bool.eq_false_iff.mpr hliteral, opening, front, brace, more, rfl, hchar, hbrace,
        hfront, ?_⟩
      omega
    next => cases h

theorem unicodeLength_complete {opening brace : Rune} {front more : List Rune}
    (hliteral : literal.isByte = false) (hopening : opening.char = '{') (hbrace : brace.char = '}')
    (h : Digits 0 0 (front.map Rune.char)) :
    unicodeLength literal (opening :: (front ++ brace :: more)) = .ok (front.length + 2) := by
  have hstart : startsWith (opening :: (front ++ brace :: more)) ['{'] = true :=
    startsWith_cons_iff.mpr ⟨opening, _, rfl, hopening, by simp [startsWith]⟩
  rw [unicodeLength, hliteral, if_neg Bool.false_ne_true, if_pos hstart, List.drop_one,
    List.tail_cons, codePointLength, codePointLength_go_complete hbrace h, Except.map]
  congr 1
  omega

/-! ## Escapes -/

theorem blanks_of_takeWhile (text : List Rune) :
    ∀ char ∈ (text.takeWhile Rune.isWhitespace).map Rune.char, Grammar.isWhitespace char = true := by
  intro char hchar
  obtain ⟨rune, hrune, rfl⟩ := List.mem_map.mp hchar
  exact List.all_eq_true.mp List.all_takeWhile rune hrune

theorem isSimple_iff {char : Char} :
    isSimple char = true ↔ char ∈ ['n', 'r', 't', '\\', '0', '\'', '"'] :=
  List.contains_iff_mem

section Marks

variable {rune feed : Rune} {rest : List Rune}

theorem length_of_x (h : rune.char = 'x') :
    length literal (rune :: rest) = (hexLength literal rest).map (1 + ·) := by
  have hplain : ¬ isSimple 'x' = true := by decide
  rw [length, h, if_neg hplain, if_pos rfl]

theorem length_of_u (h : rune.char = 'u') :
    length literal (rune :: rest) = (unicodeLength literal rest).map (1 + ·) := by
  have hplain : ¬ isSimple 'u' = true := by decide
  rw [length, h, if_neg hplain, if_neg (by decide), if_pos rfl]

theorem length_of_lineFeed (hsingle : literal.isSingle = false) (h : rune.char = '\n') :
    length literal (rune :: rest) = .ok (1 + runLength Rune.isWhitespace rest) := by
  have hplain : isSimple '\n' = false := by decide
  simp [length, h, hplain, hsingle]

theorem length_of_return (hsingle : literal.isSingle = false) (h : rune.char = '\r')
    (hfeed : feed.char = '\n') :
    length literal (rune :: feed :: rest) = .ok (2 + runLength Rune.isWhitespace rest) := by
  have hplain : isSimple '\r' = false := by decide
  have hstart : startsWith (feed :: rest) ['\n'] = true :=
    startsWith_cons_iff.mpr ⟨feed, rest, rfl, hfeed, by simp [startsWith]⟩
  simp [length, h, hplain, hsingle, hstart]

end Marks

/-- What the checker takes behind a backslash is an escape of the grammar. -/
theorem length_sound (h : length literal text = .ok n) :
    ∃ escaped more, text = escaped ++ more ∧ escaped.length = n ∧
      Grammar.Escaped literal ('\\' :: escaped.map Rune.char) := by
  cases text with
  | nil => cases h
  | cons rune rest =>
  rw [length] at h
  split at h
  next hsimple =>
    obtain rfl := Except.ok.inj h
    exact ⟨[rune], rest, rfl, rfl, Or.inl (.simple (isSimple_iff.mp hsimple))⟩
  next =>
  split at h
  next hmark =>
    obtain ⟨length, hlength, rfl⟩ := map_eq_ok_iff.mp h
    obtain ⟨rfl, high, low, more, rfl, hhigh, hlow, hvalue⟩ := hexLength_eq_ok_iff.mp hlength
    refine ⟨[rune, high, low], more, rfl, rfl, Or.inl ?_⟩
    simp only [List.map_cons, List.map_nil, hmark]
    exact .hex hhigh hlow hvalue
  next =>
  split at h
  next hmark =>
    obtain ⟨length, hlength, rfl⟩ := map_eq_ok_iff.mp h
    obtain ⟨hliteral, opening, front, brace, more, rfl, hopening, hbrace, hfront, rfl⟩ :=
      unicodeLength_sound hlength
    refine ⟨rune :: opening :: (front ++ [brace]), more, by simp, ?_, Or.inl ?_⟩
    · simp only [List.length_cons, List.length_append, List.length_nil]
      omega
    · simp only [List.map_cons, List.map_append, List.map_nil, hmark, hopening, hbrace]
      exact hfront.escape hliteral
  next =>
  split at h
  next => cases h
  next hsingle =>
  have hliteral : literal.isSingle = false := Bool.eq_false_iff.mpr hsingle
  split at h
  next hreturn =>
    obtain ⟨hchar, hfeed⟩ := hreturn
    obtain ⟨feed, rest, rfl, hnewline, -⟩ := startsWith_cons_iff.mp hfeed
    obtain rfl := Except.ok.inj h
    refine ⟨rune :: feed :: rest.takeWhile Rune.isWhitespace, rest.dropWhile Rune.isWhitespace,
      by simp, ?_, Or.inr ⟨hliteral, ?_⟩⟩
    · simp only [List.length_cons, List.drop_one, List.tail_cons, runLength]
      omega
    · rw [List.map_cons, List.map_cons, hchar, hnewline]
      exact .intro (Or.inr rfl) (blanks_of_takeWhile rest)
  next =>
  split at h
  next hnewline =>
    obtain rfl := Except.ok.inj h
    refine ⟨rune :: rest.takeWhile Rune.isWhitespace, rest.dropWhile Rune.isWhitespace,
      by simp, ?_, Or.inr ⟨hliteral, ?_⟩⟩
    · simp only [List.length_cons, runLength]
      omega
    · rw [List.map_cons, hnewline]
      exact .intro (Or.inl rfl) (blanks_of_takeWhile rest)
  next => cases h

/-- The checker takes every escape of the grammar, whatever follows it. -/
theorem length_of_escape {escaped : List Rune}
    (h : Grammar.Escape literal ('\\' :: escaped.map Rune.char)) (more : List Rune) :
    length literal (escaped ++ more) = .ok escaped.length := by
  generalize hchars : escaped.map Rune.char = chars at h
  cases h with
  | simple hsimple =>
      obtain ⟨rune, behind, rfl, rfl, hnil⟩ := List.map_eq_cons_iff.mp hchars
      obtain rfl := List.map_eq_nil_iff.mp hnil
      rw [List.cons_append, length, if_pos (isSimple_iff.mpr hsimple)]
      rfl
  | hex hhigh hlow hvalue =>
      obtain ⟨rune, behind, rfl, hmark, hbehind⟩ := List.map_eq_cons_iff.mp hchars
      obtain ⟨high, behind, rfl, rfl, hdigit⟩ := List.map_eq_cons_iff.mp hbehind
      obtain ⟨low, behind, rfl, rfl, hnil⟩ := List.map_eq_cons_iff.mp hdigit
      obtain rfl := List.map_eq_nil_iff.mp hnil
      have hlength : hexLength literal (high :: low :: more) = .ok 2 :=
        hexLength_eq_ok_iff.mpr ⟨rfl, high, low, more, rfl, hhigh, hlow, hvalue⟩
      exact (length_of_x hmark).trans (map_eq_ok_iff.mpr ⟨2, hlength, rfl⟩)
  | @codePoint first others hliteral hfirst hothers hcount hvalue =>
      obtain ⟨rune, behind, rfl, hmark, hbehind⟩ := List.map_eq_cons_iff.mp hchars
      obtain ⟨opening, inside, rfl, hopening, hinside⟩ := List.map_eq_cons_iff.mp hbehind
      rw [← List.cons_append] at hinside
      obtain ⟨front, last, rfl, hfront, hlast⟩ := List.map_eq_append_iff.mp hinside
      obtain ⟨brace, behind, rfl, hbrace, hnil⟩ := List.map_eq_cons_iff.mp hlast
      obtain rfl := List.map_eq_nil_iff.mp hnil
      have hdigits : Digits 0 0 (front.map Rune.char) := by
        rw [hfront]
        exact ⟨fun _ => ⟨first, others, rfl, hfirst⟩,
          List.forall_mem_cons.mpr ⟨Or.inl hfirst, hothers⟩, by rwa [Nat.zero_add], hvalue⟩
      have hlength : unicodeLength literal (opening :: (front ++ brace :: more)) =
          .ok (front.length + 2) := unicodeLength_complete hliteral hopening hbrace hdigits
      have happend : rune :: opening :: (front ++ [brace]) ++ more =
          rune :: opening :: (front ++ brace :: more) := by simp
      rw [happend, length_of_u hmark]
      refine map_eq_ok_iff.mpr ⟨_, hlength, ?_⟩
      simp only [List.length_cons, List.length_append, List.length_nil]
      omega

/-- Behind an escaped line break the checker takes the whitespace up to the next other rune. -/
theorem length_of_lineBreak {escaped more : List Rune} (hsingle : literal.isSingle = false)
    (h : Grammar.LineBreak ('\\' :: escaped.map Rune.char))
    (hmore : startsIn Rune.isWhitespace more = false) :
    length literal (escaped ++ more) = .ok escaped.length := by
  generalize hbreak : '\\' :: escaped.map Rune.char = chars at h
  obtain @⟨newline, blanks, hnewline, hblanks⟩ := h
  have hchars := (List.cons.inj hbreak).2
  obtain ⟨front, run, rfl, hfront, hrun⟩ := List.map_eq_append_iff.mp hchars
  have hwhite : ∀ rune ∈ run, rune.isWhitespace = true := by
    intro rune hrune
    apply hblanks
    rw [← hrun]
    exact List.mem_map_of_mem hrune
  have hlength : runLength Rune.isWhitespace (run ++ more) = run.length := by
    rw [runLength, takeWhile_append_eq_left hwhite hmore]
  rw [List.append_assoc]
  rcases hnewline with rfl | rfl
  · obtain ⟨feed, behind, rfl, hfeed, hnil⟩ := List.map_eq_cons_iff.mp hfront
    obtain rfl := List.map_eq_nil_iff.mp hnil
    rw [List.cons_append, List.nil_append, length_of_lineFeed hsingle hfeed, hlength,
      List.length_append, List.length_singleton]
  · obtain ⟨ret, behind, rfl, hreturn, hbehind⟩ := List.map_eq_cons_iff.mp hfront
    obtain ⟨feed, behind, rfl, hfeed, hnil⟩ := List.map_eq_cons_iff.mp hbehind
    obtain rfl := List.map_eq_nil_iff.mp hnil
    rw [List.cons_append, List.cons_append, List.nil_append,
      length_of_return hsingle hreturn hfeed, hlength, List.length_append]
    rfl

end RustLexer.Escape
