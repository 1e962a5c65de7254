import RustLexer.CodePoint.Unicode
import RustLexer.Proofs.Checker.Verdict
import RustLexer.Proofs.Grammar.Number
import RustLexer.Proofs.Lexer.Shape

/-! # Numbers and their grammar

The lexer and the checker split a number each in its own way, and they differ where an exponent has no
digits. Still the checker passes a number exactly if the grammar has it: where the lexer has found a
floating-point number and the checker no fault, there is a fraction or an exponent with a digit.
-/

namespace RustLexer

variable {text : List Rune}

namespace Radix

variable {radix : Radix} {rune : Rune}

theorem isDigit_of_lt_ten {code : Nat} (hhex : CodePoint.isHexDigit code = true)
    (hvalue : CodePoint.digitValue code < 10) : CodePoint.isDigit code = true := by
  simp only [CodePoint.isHexDigit, CodePoint.digitValue, CodePoint.isDigit, Bool.or_eq_true,
    Bool.and_eq_true, decide_eq_true_eq] at hhex hvalue ⊢
  split at hvalue
  next => omega
  next => split at hvalue <;> omega

theorem lt_ten_of_isDigit {code : Nat} (h : CodePoint.isDigit code = true) :
    CodePoint.digitValue code < 10 := by
  simp only [CodePoint.digitValue, CodePoint.isDigit, Bool.and_eq_true, decide_eq_true_eq] at h ⊢
  rw [if_pos h.2]
  omega

/-- The digits of a base are those that a number in it runs over, less those that are out of range. -/
theorem isDigitOf_iff :
    Grammar.isDigitOf radix.base rune.char = true ↔
      radix.runsOver rune = true ∧ CodePoint.digitValue rune.code < radix.base := by
  rw [Grammar.isDigitOf, Bool.and_eq_true, decide_eq_true_eq]
  by_cases hradix : radix = hexadecimal
  · subst hradix
    rfl
  · have hbase : radix.base ≤ 10 := by
      cases radix
      case hexadecimal => exact absurd rfl hradix
      all_goals decide
    rw [runsOver, if_neg hradix]
    constructor
    · rintro ⟨hhex, hvalue⟩
      exact ⟨isDigit_of_lt_ten hhex (Nat.lt_of_lt_of_le hvalue hbase), hvalue⟩
    · rintro ⟨hdigit, hvalue⟩
      refine ⟨?_, hvalue⟩
      rw [CodePoint.isHexDigit, Bool.or_eq_true, Bool.or_eq_true]
      exact Or.inl (Or.inl hdigit)

/-- What marks a number as one of another base than ten. -/
theorem marked_iff :
    ofText text ≠ .decimal ↔
      ∃ zero mark rest, text = zero :: mark :: rest ∧ zero.char = '0' ∧
        (mark.char, (ofText text).base) ∈ [('b', 2), ('o', 8), ('x', 16)] := by
  constructor
  · intro h
    rcases text with _ | ⟨zero, _ | ⟨mark, rest⟩⟩
    · exact absurd rfl h
    · exact absurd rfl h
    · rw [ofText] at h ⊢
      split at h
      next hzero =>
        refine ⟨zero, mark, rest, rfl, hzero, ?_⟩
        rw [if_pos hzero]
        unfold ofMark at h ⊢
        split
        next hmark => simp [hmark, base]
        next =>
        split
        next hmark => simp [hmark, base]
        next =>
        split
        next hmark => simp [hmark, base]
        next => simp_all
      next => exact absurd rfl h
  · rintro ⟨zero, mark, rest, -, -, hmark⟩ hdecimal
    rw [hdecimal] at hmark
    simp [base] at hmark

theorem ofText_of_mark {zero mark : Rune} {rest : List Rune} {base : Nat} (hzero : zero.char = '0')
    (hmark : (mark.char, base) ∈ [('b', 2), ('o', 8), ('x', 16)]) :
    ofText (zero :: mark :: rest) ≠ .decimal ∧ (ofText (zero :: mark :: rest)).base = base := by
  simp only [List.mem_cons, List.not_mem_nil, Prod.mk.injEq, or_false] at hmark
  rw [ofText, if_pos hzero]
  rcases hmark with ⟨hmark, rfl⟩ | ⟨hmark, rfl⟩ | ⟨hmark, rfl⟩
  · simp [ofMark, hmark, Radix.base]
  · simp [ofMark, hmark, Radix.base]
  · simp [ofMark, hmark, Radix.base]

end Radix

namespace Number

variable {isFloat : Bool} {radix : Radix} {offset : Nat}

/-! ## Suffixes -/

/-- The suffixes that a number may have. -/
def Accepts (isFloat : Bool) (radix : Radix) (suffix : List Char) : Prop :=
  suffix = [] ∨ (isFloat = false ∧ suffix ∈ Grammar.integerSuffixes) ∨
    ((isFloat = true ∨ radix = .decimal) ∧ suffix ∈ Grammar.floatSuffixes)

theorem encode_mem_map_iff (hdecoded : ∀ rune ∈ text, rune.Decoded) {names : List String}
    (hascii : names.all (fun name => name.toList.all fun char => char.toNat < 0x80) = true) :
    Rune.encode text ∈ names.map Bytes.ofAscii ↔ text.map Rune.char ∈ names.map String.toList := by
  simp only [List.mem_map, Bytes.ofAscii]
  apply exists_congr
  intro name
  apply and_congr_right
  intro hname
  have hchars := forall_ascii_of_all (List.all_eq_true.mp hascii name hname)
  rw [eq_comm, Rune.encode_eq_map_iff hdecoded hchars, eq_comm]

theorem suffixFault?_eq_none_iff (hdecoded : ∀ rune ∈ text, rune.Decoded) :
    suffixFault? isFloat radix offset text = none ↔
      Accepts isFloat radix (text.map Rune.char) := by
  have hinteger : integerSuffixes.contains (Rune.encode text) = true ↔
      text.map Rune.char ∈ Grammar.integerSuffixes := by
    rw [List.contains_iff_mem]
    exact encode_mem_map_iff hdecoded (by decide)
  have hfloat : floatSuffixes.contains (Rune.encode text) = true ↔
      text.map Rune.char ∈ Grammar.floatSuffixes := by
    rw [List.contains_iff_mem]
    exact encode_mem_map_iff hdecoded (by decide)
  have haccepts : acceptsSuffix isFloat radix (Rune.encode text) = true ↔
      (isFloat = false ∧ text.map Rune.char ∈ Grammar.integerSuffixes) ∨
        ((isFloat = true ∨ radix = .decimal) ∧ text.map Rune.char ∈ Grammar.floatSuffixes) := by
    cases isFloat <;>
      simp only [acceptsSuffix, if_true, Bool.false_eq_true, if_false, Bool.or_eq_true,
        Bool.and_eq_true, decide_eq_true_eq, hinteger, hfloat] <;>
      simp
  rw [suffixFault?, Accepts, ← haccepts, List.map_eq_nil_iff, ← List.isEmpty_iff,
    ← Bool.or_eq_true]
  split
  next h => simp [h]
  next h => simp [h]

theorem head_of_accepts (h : Accepts isFloat radix (text.map Rune.char)) :
    ∀ rune ∈ text.head?,
      rune.char ∈ ['u', 'i'] ∨ (isFloat = true ∨ radix = .decimal) ∧ rune.char = 'f' := by
  intro rune hrune
  have hhead : (text.map Rune.char).head? = some rune.char := by
    rw [List.head?_map, Option.mem_def.mp hrune]
    rfl
  rcases h with hnil | ⟨-, hinteger⟩ | ⟨hfloat, hname⟩
  · rw [hnil] at hhead
    cases hhead
  · have hletter := Grammar.head_of_mem_integerSuffixes hinteger
    rw [hhead, Option.some.injEq, Option.some.injEq] at hletter
    exact Or.inl (by simpa using hletter)
  · rw [Grammar.head_of_mem_floatSuffixes hname] at hhead
    exact Or.inr ⟨hfloat, (Option.some.inj hhead).symm⟩

/-- No suffix starts with what the lexer and the checker take before a suffix. -/
theorem startsIn_suffix (h : Accepts isFloat radix (text.map Rune.char)) {inClass : Rune → Bool}
    (hclass : ∀ rune : Rune, rune.char ∈ ['u', 'i'] ∨
      (isFloat = true ∨ radix = .decimal) ∧ rune.char = 'f' → inClass rune = false) :
    startsIn inClass text = false := by
  have hhead := head_of_accepts h
  cases text with
  | nil => rfl
  | cons rune rest => exact hclass rune (hhead rune rfl)

/-- A class without the characters of a list has none of them. -/
theorem eq_false_of_any (inClass : Char → Bool) {chars : List Char}
    (hclass : chars.any inClass = false) {char : Char} (h : char ∈ chars) :
    inClass char = false :=
  Bool.eq_false_iff.mpr (List.any_eq_false.mp hclass char h)

theorem startsIn_suffix_of_char (h : Accepts isFloat radix (text.map Rune.char))
    (inClass : Char → Bool) (hclass : ['u', 'i', 'f'].any inClass = false) :
    startsIn (fun rune => inClass rune.char) text = false := by
  apply startsIn_suffix h
  intro rune hrune
  apply eq_false_of_any inClass hclass
  rcases hrune with hletter | ⟨-, hletter⟩
  · exact List.mem_append_left ['f'] hletter
  · rw [hletter]
    decide

theorem startsIn_digit_suffix (h : Accepts isFloat radix (text.map Rune.char)) :
    startsIn isDigitOrSeparator text = false :=
  startsIn_suffix_of_char h (fun char => CodePoint.isDigit char.toNat || char == '_') (by decide)

/-! ## Digits -/

/-- The class that the digits of a number are read as. -/
def isInPart (radix : Radix) (rune : Rune) : Bool :=
  radix.runsOver rune || rune.char == '_'

variable {front digits rest : List Rune}

/-- Digits without one that is out of range are a run of the grammar. -/
theorem isRun_iff :
    Grammar.IsRun (Grammar.isDigitOf radix.base) (digits.map Rune.char) ↔
      (∀ rune ∈ digits, isInPart radix rune = true) ∧
        ∀ rune ∈ digits, isOutOfRange radix rune = false := by
  rw [Grammar.IsRun, List.forall_mem_map, ← forall₂_and]
  apply forall₂_congr
  intro rune _
  have hseparator : rune.char = '_' → radix.runsOver rune = false := by
    intro hchar
    cases radix <;> simp [Radix.runsOver, Rune.isHexDigit, Rune.isDigit, Rune.code, hchar] <;> decide
  rw [Radix.isDigitOf_iff, isInPart, isOutOfRange, Bool.or_eq_true, beq_iff_eq,
    Bool.and_eq_false_iff, decide_eq_false_iff_not, Nat.not_le]
  grind

theorem exists_digit_iff (hrange : ∀ rune ∈ digits, isOutOfRange radix rune = false) :
    (∃ digit ∈ digits.map Rune.char, Grammar.isDigitOf radix.base digit = true) ↔
      digits.any radix.runsOver = true := by
  simp only [List.mem_map, exists_exists_and_eq_and, List.any_eq_true]
  apply exists_congr
  intro rune
  apply and_congr_right
  intro hrune
  have hvalue := hrange rune hrune
  rw [isOutOfRange, Bool.and_eq_false_iff, decide_eq_false_iff_not, Nat.not_le] at hvalue
  rw [Radix.isDigitOf_iff]
  grind

theorem isOutOfRange_decimal (rune : Rune) : isOutOfRange .decimal rune = false := by
  rw [isOutOfRange, Bool.and_eq_false_iff, decide_eq_false_iff_not, Nat.not_le]
  by_cases hdigit : Radix.decimal.runsOver rune = true
  · exact Or.inr (Radix.lt_ten_of_isDigit hdigit)
  · exact Or.inl (Bool.eq_false_iff.mpr hdigit)

theorem isRun_decimal_iff :
    Grammar.IsRun Grammar.isDigit (digits.map Rune.char) ↔
      ∀ rune ∈ digits, isDigitOrSeparator rune = true := by
  rw [Grammar.IsRun, List.forall_mem_map]
  apply forall₂_congr
  intro rune _
  rw [isDigitOrSeparator, Bool.or_eq_true, beq_iff_eq]
  rfl

theorem exists_decimal_iff :
    (∃ digit ∈ digits.map Rune.char, Grammar.isDigit digit = true) ↔
      digits.any Rune.isDigit = true := by
  simp only [List.mem_map, exists_exists_and_eq_and, List.any_eq_true]
  rfl

theorem decimal_iff :
    Grammar.Decimal (digits.map Rune.char) ↔
      startsIn Rune.isDigit digits = true ∧ ∀ rune ∈ digits, isDigitOrSeparator rune = true := by
  constructor
  · intro h
    generalize hchars : digits.map Rune.char = chars at h
    obtain @⟨first, run, hfirst, hrun⟩ := h
    obtain ⟨rune, runes, rfl, rfl, rfl⟩ := List.map_eq_cons_iff.mp hchars
    have hdigit : isDigitOrSeparator rune = true := Bool.or_eq_true_iff.mpr (Or.inl hfirst)
    exact ⟨hfirst, List.forall_mem_cons.mpr ⟨hdigit, isRun_decimal_iff.mp hrun⟩⟩
  · rintro ⟨hstart, hdigits⟩
    obtain ⟨rune, runes, rfl, hfirst⟩ := startsIn_iff.mp hstart
    exact .intro hfirst (isRun_decimal_iff.mpr (List.forall_mem_cons.mp hdigits).2)

/-- The letters that the names of the integer types start with are no digits. -/
theorem isInPart_eq_false {rune : Rune} (h : rune.char = 'u' ∨ rune.char = 'i') :
    isInPart radix rune = false := by
  rcases h with hchar | hchar <;>
    cases radix <;>
      simp only [isInPart, Radix.runsOver, Rune.isHexDigit, Rune.isDigit, Rune.code, hchar] <;>
      decide

/-- What it takes for a number to have no fault, where it is split behind its digits. -/
theorem fault?_eq_none_iff (hradix : Radix.ofText (front ++ (digits ++ rest)) = radix)
    (hfront : front.length = if radix = .decimal then 0 else 2)
    (hdigits : ∀ rune ∈ digits, isInPart radix rune = true)
    (hrest : startsIn (isInPart radix) rest = false) :
    fault? isFloat (front ++ (digits ++ rest)) = none ↔
      (∀ rune ∈ digits, isOutOfRange radix rune = false) ∧
        (radix ≠ .decimal → digits.any radix.runsOver = true) ∧
        if isFloat then radix = .decimal ∧ floatFault? (front.length + digits.length) rest = none
        else suffixFault? false radix (front.length + digits.length) rest = none := by
  have htake : (digits ++ rest).takeWhile (fun rune => radix.runsOver rune || rune.char == '_') =
      digits := takeWhile_append_eq_left hdigits hrest
  simp only [fault?, hradix, ← hfront, List.drop_left, htake]
  have hdrop : (front ++ (digits ++ rest)).drop (front.length + digits.length) = rest := by
    rw [← List.drop_drop, List.drop_left, List.drop_left]
  rw [hdrop]
  cases hfind : digits.findIdx? (isOutOfRange radix) with
  | some index =>
      obtain ⟨hindex, hfault, -⟩ := List.findIdx?_eq_some_iff_getElem.mp hfind
      simp only [reduceCtorEq, false_iff]
      intro hall
      rw [hall.1 _ (List.getElem_mem hindex)] at hfault
      cases hfault
  | none =>
      have hrange : ∀ rune ∈ digits, isOutOfRange radix rune = false :=
        List.findIdx?_eq_none_iff.mp hfind
      simp only
      by_cases hdigit : radix ≠ .decimal → digits.any radix.runsOver = true
      · have hsome : ¬ (radix ≠ .decimal ∧ (!digits.any radix.runsOver) = true) := by
          rintro ⟨hmarked, hnone⟩
          rw [hdigit hmarked] at hnone
          cases hnone
        rw [if_neg hsome, and_iff_right hrange, and_iff_right hdigit]
        cases isFloat with
        | false => simp
        | true => by_cases hdecimal : radix = .decimal <;> simp [hdecimal]
      · have hnone : radix ≠ .decimal ∧ (!digits.any radix.runsOver) = true := by
          simpa using hdigit
        rw [if_pos hnone]
        simp only [reduceCtorEq, false_iff]
        exact fun hall => hdigit hall.2.1

/-! ## Fractions and exponents -/

/-- The fault in the exponent and the suffix of a floating-point number. -/
def exponentFault? (offset : Nat) (text : List Rune) : Option Fault :=
  if startsIn isExponentMark text then
    let sign := signLength (text.drop 1)
    let digits := (text.drop (1 + sign)).takeWhile isDigitOrSeparator
    if digits.any Rune.isDigit then
      let exponent := 1 + sign + digits.length
      suffixFault? true .decimal (offset + exponent) (text.drop exponent)
    else some { cause := .noExponentDigits, offset }
  else suffixFault? true .decimal offset text

theorem floatFault?_of_dot {dot : Rune} {run behind : List Rune} (hdot : dot.char = '.')
    (hrun : ∀ rune ∈ run, isDigitOrSeparator rune = true)
    (hbehind : startsIn isDigitOrSeparator behind = false) :
    floatFault? offset (dot :: (run ++ behind)) =
      exponentFault? (offset + (1 + run.length)) behind := by
  have hstart : startsWith (dot :: (run ++ behind)) ['.'] = true :=
    startsWith_cons_iff.mpr ⟨dot, _, rfl, hdot, by simp [startsWith]⟩
  have hlength : 1 + runLength isDigitOrSeparator ((dot :: (run ++ behind)).drop 1) =
      (dot :: run).length := by
    rw [List.drop_one, List.tail_cons, runLength, takeWhile_append_eq_left hrun hbehind,
      List.length_cons, Nat.add_comm]
  have hdrop : (dot :: (run ++ behind)).drop (dot :: run).length = behind := by
    rw [← List.cons_append, List.drop_left]
  rw [floatFault?, if_pos hstart, hlength, hdrop, exponentFault?, List.length_cons,
    Nat.add_comm run.length]

theorem floatFault?_of_not_dot (h : startsWith text ['.'] = false) :
    floatFault? offset text = exponentFault? offset text := by
  rw [floatFault?, h]
  simp only [Bool.false_eq_true, if_false, List.drop_zero, Nat.add_zero, exponentFault?]

theorem exponentFault?_of_mark {mark : Rune} {sign digits suffix : List Rune}
    (hmark : isExponentMark mark = true)
    (hsign : signLength (sign ++ (digits ++ suffix)) = sign.length)
    (hdigits : ∀ rune ∈ digits, isDigitOrSeparator rune = true)
    (hsuffix : startsIn isDigitOrSeparator suffix = false)
    (hdecoded : ∀ rune ∈ suffix, rune.Decoded) :
    exponentFault? offset (mark :: (sign ++ (digits ++ suffix))) = none ↔
      digits.any Rune.isDigit = true ∧ Accepts true .decimal (suffix.map Rune.char) := by
  have hstart : startsIn isExponentMark (mark :: (sign ++ (digits ++ suffix))) = true := hmark
  have hbehind : (mark :: (sign ++ (digits ++ suffix))).drop (1 + sign.length) =
      digits ++ suffix := by
    rw [Nat.add_comm, List.drop_succ_cons, List.drop_left]
  have hdrop : (mark :: (sign ++ (digits ++ suffix))).drop (1 + sign.length + digits.length) =
      suffix := by
    rw [← List.drop_drop, hbehind, List.drop_left]
  rw [exponentFault?, if_pos hstart]
  simp only [List.drop_one, List.tail_cons, hsign, hbehind,
    takeWhile_append_eq_left hdigits hsuffix, hdrop]
  by_cases hdigit : digits.any Rune.isDigit = true
  · rw [if_pos hdigit, suffixFault?_eq_none_iff hdecoded, and_iff_right hdigit]
  · rw [if_neg hdigit]
    simp only [reduceCtorEq, false_iff]
    exact fun hall => hdigit hall.1

theorem exists_sign (text : List Rune) :
    ∃ sign more, text = sign ++ more ∧ sign.map Rune.char ∈ [[], ['+'], ['-']] ∧
      signLength (sign ++ more) = sign.length := by
  by_cases hsign : startsIn isSign text = true
  · obtain ⟨rune, rest, rfl, hrune⟩ := startsIn_iff.mp hsign
    refine ⟨[rune], rest, rfl, ?_, if_pos hsign⟩
    rw [isSign, Bool.or_eq_true, beq_iff_eq, beq_iff_eq] at hrune
    rcases hrune with hplus | hminus
    · simp [hplus]
    · simp [hminus]
  · exact ⟨[], text, rfl, by simp, if_neg hsign⟩

theorem signLength_append {sign digits : List Rune}
    (hsign : sign.map Rune.char ∈ [[], ['+'], ['-']])
    (hdigits : ∀ rune ∈ digits, isDigitOrSeparator rune = true) (hne : digits ≠ [])
    (more : List Rune) : signLength (sign ++ (digits ++ more)) = sign.length := by
  cases sign with
  | nil =>
      -- A digit or a separator is not a sign.
      obtain ⟨rune, digits, rfl⟩ := List.exists_cons_of_ne_nil hne
      have hrune := hdigits rune List.mem_cons_self
      have hplain : isSign rune = false := by
        rw [isSign, Bool.or_eq_false_iff, beq_eq_false_iff_ne, beq_eq_false_iff_ne]
        constructor
        · intro hchar
          simp only [isDigitOrSeparator, Rune.isDigit, Rune.code, hchar] at hrune
          exact absurd hrune (by decide)
        · intro hchar
          simp only [isDigitOrSeparator, Rune.isDigit, Rune.code, hchar] at hrune
          exact absurd hrune (by decide)
      exact if_neg (by simp [startsIn, hplain])
  | cons rune sign =>
      simp only [List.map_cons, List.mem_cons, reduceCtorEq, List.cons.injEq, List.map_eq_nil_iff,
        List.not_mem_nil, or_false, false_or] at hsign
      have hstart : startsIn isSign (rune :: sign ++ (digits ++ more)) = true := by
        rcases hsign with ⟨hchar, -⟩ | ⟨hchar, -⟩ <;> simp [startsIn, isSign, hchar]
      rcases hsign with ⟨-, rfl⟩ | ⟨-, rfl⟩ <;> exact if_pos hstart

/-- What the checker passes behind the fraction is an exponent and a suffix of the grammar. -/
theorem exponentFault?_sound (hdecoded : ∀ rune ∈ text, rune.Decoded)
    (h : exponentFault? offset text = none) :
    ∃ exponent suffix, text = exponent ++ suffix ∧ Grammar.Exponent (exponent.map Rune.char) ∧
      Accepts true .decimal (suffix.map Rune.char) ∧
      (startsIn isExponentMark text = true → exponent ≠ []) := by
  by_cases hstart : startsIn isExponentMark text = true
  · obtain ⟨mark, rest, rfl, hmark⟩ := startsIn_iff.mp hstart
    obtain ⟨sign, more, rfl, hsign, hlength⟩ := exists_sign rest
    obtain ⟨digits, suffix, rfl, hdigits, hsuffix⟩ := exists_run isDigitOrSeparator more
    have hsuffixDecoded : ∀ rune ∈ suffix, rune.Decoded := by
      intro rune hrune
      apply hdecoded
      simp [hrune]
    obtain ⟨hdigit, haccepts⟩ :=
      (exponentFault?_of_mark hmark hlength hdigits hsuffix hsuffixDecoded).mp h
    refine ⟨mark :: (sign ++ digits), suffix, by simp, ?_, haccepts, by simp⟩
    rw [List.map_cons, List.map_append]
    exact .some (by simpa [isExponentMark] using hmark) hsign (isRun_decimal_iff.mpr hdigits)
      (exists_decimal_iff.mpr hdigit)
  · refine ⟨[], text, rfl, .none, ?_, fun hmark => absurd hmark hstart⟩
    rw [exponentFault?, if_neg hstart] at h
    exact (suffixFault?_eq_none_iff hdecoded).mp h

/-- The checker passes an exponent and a suffix of the grammar. -/
theorem exponentFault?_complete {exponent suffix : List Rune}
    (hdecoded : ∀ rune ∈ suffix, rune.Decoded)
    (hexponent : Grammar.Exponent (exponent.map Rune.char))
    (hsuffix : Accepts true .decimal (suffix.map Rune.char)) :
    exponentFault? offset (exponent ++ suffix) = none := by
  generalize hchars : exponent.map Rune.char = chars at hexponent
  cases hexponent with
  | none =>
      obtain rfl := List.map_eq_nil_iff.mp hchars
      have hmark : startsIn isExponentMark suffix = false :=
        startsIn_suffix_of_char hsuffix (fun char => char == 'e' || char == 'E') (by decide)
      rw [List.nil_append, exponentFault?, hmark]
      exact (suffixFault?_eq_none_iff hdecoded).mpr hsuffix
  | some hmark hsign hrun hsome =>
      obtain ⟨mark, rest, rfl, rfl, hrest⟩ := List.map_eq_cons_iff.mp hchars
      obtain ⟨sign, digits, rfl, rfl, rfl⟩ := List.map_eq_append_iff.mp hrest
      have hdigits := isRun_decimal_iff.mp hrun
      have hstop : startsIn isDigitOrSeparator suffix = false := startsIn_digit_suffix hsuffix
      have hlength : signLength (sign ++ (digits ++ suffix)) = sign.length := by
        obtain ⟨digit, hdigit, -⟩ := hsome
        obtain ⟨rune, hrune, -⟩ := List.mem_map.mp hdigit
        exact signLength_append hsign hdigits (List.ne_nil_of_mem hrune) _
      have hletter : isExponentMark mark = true := by
        simpa [isExponentMark] using hmark
      rw [List.cons_append, List.append_assoc]
      exact (exponentFault?_of_mark hletter hlength hdigits hstop hdecoded).mpr
        ⟨exists_decimal_iff.mp hsome, hsuffix⟩

/-! ## Integers -/

/-- The digits at the front of a decimal number are a decimal part of the grammar. -/
theorem exists_decimal (hstart : startsIn Rune.isDigit text = true) :
    ∃ digits rest, text = digits ++ rest ∧ Grammar.Decimal (digits.map Rune.char) ∧
      startsIn isDigitOrSeparator rest = false := by
  obtain ⟨digits, rest, rfl, hdigits, hrest⟩ := exists_run isDigitOrSeparator text
  refine ⟨digits, rest, rfl, decimal_iff.mpr ⟨?_, hdigits⟩, hrest⟩
  cases digits with
  | cons rune digits => exact hstart
  | nil =>
      obtain ⟨rune, rest, rfl, hrune⟩ := startsIn_iff.mp hstart
      have hdigit : isDigitOrSeparator rune = true := Bool.or_eq_true_iff.mpr (Or.inl hrune)
      exact absurd hdigit (Bool.eq_false_iff.mp hrest)

/-- What it takes for a decimal number to have no fault. -/
theorem fault?_decimal_iff (hradix : Radix.ofText (digits ++ rest) = .decimal)
    (hdigits : Grammar.Decimal (digits.map Rune.char))
    (hrest : startsIn isDigitOrSeparator rest = false) :
    fault? isFloat (digits ++ rest) = none ↔
      if isFloat then floatFault? digits.length rest = none
      else suffixFault? false .decimal digits.length rest = none := by
  have hnone : ([] : List Rune).length = if Radix.decimal = .decimal then 0 else 2 := rfl
  refine (fault?_eq_none_iff hradix hnone (decimal_iff.mp hdigits).2 hrest).trans ?_
  rw [and_iff_right fun rune _ => isOutOfRange_decimal rune, and_iff_right fun h => absurd rfl h]
  simp only [List.length_nil, Nat.zero_add, true_and]

/-- What it takes for a number with a radix mark to have no fault: it is an integer. -/
theorem fault?_marked_iff {zero mark : Rune}
    (hradix : Radix.ofText (zero :: mark :: (digits ++ rest)) = radix) (hmarked : radix ≠ .decimal)
    (hdigits : ∀ rune ∈ digits, isInPart radix rune = true)
    (hrest : startsIn (isInPart radix) rest = false)
    (hdecoded : ∀ rune ∈ zero :: mark :: (digits ++ rest), rune.Decoded) :
    fault? isFloat (zero :: mark :: (digits ++ rest)) = none ↔
      isFloat = false ∧ Grammar.IsRun (Grammar.isDigitOf radix.base) (digits.map Rune.char) ∧
        (∃ digit ∈ digits.map Rune.char, Grammar.isDigitOf radix.base digit = true) ∧
        Accepts false radix (rest.map Rune.char) := by
  have hfront : [zero, mark].length = if radix = .decimal then 0 else 2 := by
    rw [if_neg hmarked]
    rfl
  have hsuffix : ∀ rune ∈ rest, rune.Decoded := by
    intro rune hrune
    apply hdecoded
    simp [hrune]
  refine (fault?_eq_none_iff hradix hfront hdigits hrest).trans ?_
  rw [isRun_iff, and_iff_right hdigits]
  cases isFloat with
  | true => simp [hmarked]
  | false =>
      simp only [Bool.false_eq_true, if_false, true_and, suffixFault?_eq_none_iff hsuffix]
      constructor
      · rintro ⟨hrange, hsome, haccepts⟩
        exact ⟨hrange, (exists_digit_iff hrange).mpr (hsome hmarked), haccepts⟩
      · rintro ⟨hrange, hsome, haccepts⟩
        exact ⟨hrange, fun _ => (exists_digit_iff hrange).mp hsome, haccepts⟩

theorem exists_marked (hmarked : Radix.ofText text ≠ .decimal) :
    ∃ zero mark digits rest, text = zero :: mark :: (digits ++ rest) ∧ zero.char = '0' ∧
      (mark.char, (Radix.ofText text).base) ∈ [('b', 2), ('o', 8), ('x', 16)] ∧
      (∀ rune ∈ digits, isInPart (Radix.ofText text) rune = true) ∧
      startsIn (isInPart (Radix.ofText text)) rest = false := by
  obtain ⟨zero, mark, more, htext, hzero, hmark⟩ := Radix.marked_iff.mp hmarked
  obtain ⟨digits, rest, rfl, hdigits, hrest⟩ := exists_run (isInPart (Radix.ofText text)) more
  exact ⟨zero, mark, digits, rest, htext, hzero, hmark, hdigits, hrest⟩

theorem integer_sound (hdecoded : ∀ rune ∈ text, rune.Decoded)
    (hstart : startsIn Rune.isDigit text = true) (h : fault? false text = none) :
    Grammar.Number .integer (text.map Rune.char) := by
  by_cases hdecimal : Radix.ofText text = .decimal
  · obtain ⟨digits, rest, rfl, hdigits, hrest⟩ := exists_decimal hstart
    have hsuffix := (fault?_decimal_iff hdecimal hdigits hrest).mp h
    have haccepts := (suffixFault?_eq_none_iff (List.forall_mem_append.mp hdecoded).2).mp hsuffix
    rw [List.map_append]
    exact .decimal hdigits (by simpa [Accepts] using haccepts)
  · obtain ⟨zero, mark, digits, rest, rfl, hzero, hmark, hdigits, hrest⟩ := exists_marked hdecimal
    obtain ⟨-, hrun, hsome, haccepts⟩ :=
      (fault?_marked_iff rfl hdecimal hdigits hrest hdecoded).mp h
    rw [List.map_cons, List.map_cons, List.map_append, hzero]
    exact .marked hmark hrun hsome (by simpa [Accepts, hdecimal] using haccepts)

/-- A decimal number has no radix mark: behind its first digit it has another, a separator, or a rune that
is none of the marks. -/
theorem ofText_of_decimal (hdigits : Grammar.Decimal (digits.map Rune.char))
    (hrest : startsIn (fun rune => ['b', 'o', 'x'].contains rune.char) rest = false) :
    Radix.ofText (digits ++ rest) = .decimal := by
  apply Classical.byContradiction
  intro hmarked
  obtain ⟨zero, mark, more, htext, -, hmark⟩ := Radix.marked_iff.mp hmarked
  have hletter : mark.char ∈ ['b', 'o', 'x'] := by
    simp only [List.mem_cons, List.not_mem_nil, Prod.mk.injEq, or_false] at hmark ⊢
    rcases hmark with ⟨hchar, -⟩ | ⟨hchar, -⟩ | ⟨hchar, -⟩ <;> simp [hchar]
  obtain ⟨hstart, hrun⟩ := decimal_iff.mp hdigits
  rcases digits with _ | ⟨first, _ | ⟨second, digits⟩⟩
  · cases hstart
  · obtain rfl := (List.cons.inj htext).2
    exact Bool.eq_false_iff.mp hrest (List.contains_iff_mem.mpr hletter)
  · obtain ⟨-, htail⟩ := List.cons.inj htext
    obtain ⟨rfl, -⟩ := List.cons.inj htail
    have hsecond := hrun second (by simp)
    simp only [List.mem_cons, List.not_mem_nil, or_false] at hletter
    rcases hletter with hchar | hchar | hchar
    all_goals
      simp only [isDigitOrSeparator, Rune.isDigit, Rune.code, hchar] at hsecond
      exact absurd hsecond (by decide)

theorem integer_complete (hdecoded : ∀ rune ∈ text, rune.Decoded)
    (h : Grammar.Number .integer (text.map Rune.char)) : fault? false text = none := by
  generalize hchars : text.map Rune.char = chars at h
  cases h with
  | decimal hdigits hsuffix =>
      obtain ⟨digits, rest, rfl, rfl, rfl⟩ := List.map_eq_append_iff.mp hchars
      have haccepts : Accepts false .decimal (rest.map Rune.char) := by
        simpa [Accepts] using hsuffix
      have hrest : startsIn isDigitOrSeparator rest = false := startsIn_digit_suffix haccepts
      have hradix : Radix.ofText (digits ++ rest) = .decimal := by
        apply ofText_of_decimal hdigits
        exact startsIn_suffix_of_char haccepts (fun char => ['b', 'o', 'x'].contains char) (by decide)
      exact (fault?_decimal_iff hradix hdigits hrest).mpr
        ((suffixFault?_eq_none_iff (List.forall_mem_append.mp hdecoded).2).mpr haccepts)
  | marked hmark hrun hsome hsuffix =>
      obtain ⟨zero, behind, rfl, hzero, hbehind⟩ := List.map_eq_cons_iff.mp hchars
      obtain ⟨mark, more, rfl, rfl, hmore⟩ := List.map_eq_cons_iff.mp hbehind
      obtain ⟨digits, suffix, rfl, rfl, rfl⟩ := List.map_eq_append_iff.mp hmore
      obtain ⟨radix, hradix, hmarked, rfl⟩ :
          ∃ radix, Radix.ofText (zero :: mark :: (digits ++ suffix)) = radix ∧ radix ≠ .decimal ∧
            radix.base = _ := ⟨_, rfl, Radix.ofText_of_mark hzero hmark⟩
      have haccepts : Accepts false radix (suffix.map Rune.char) := by
        simpa [Accepts, hmarked] using hsuffix
      have hstop : startsIn (isInPart radix) suffix = false := by
        apply startsIn_suffix haccepts
        intro rune hrune
        apply isInPart_eq_false
        simpa [hmarked] using hrune
      exact (fault?_marked_iff hradix hmarked (isRun_iff.mp hrun).1 hstop hdecoded).mpr
        ⟨rfl, hrun, hsome, haccepts⟩

/-! ## Floating-point numbers -/

/-- Where the lexer finds a decimal number to be a floating-point number, a fraction with a digit or the
mark of an exponent stands behind its digits. -/
theorem starts_of_scan_float (hradix : Radix.ofText (digits ++ rest) = .decimal)
    (hdigits : Grammar.Decimal (digits.map Rune.char))
    (hrest : startsIn isDigitOrSeparator rest = false)
    (hkind : (scan (digits ++ rest)).kind = .float) :
    (startsWith rest ['.'] = true ∧ startsIn Rune.isDigit (rest.drop 1) = true) ∨
      (startsWith rest ['.'] = false ∧ startsIn isExponentMark rest = true) := by
  have hlength : integerLength (digits ++ rest) = digits.length := by
    obtain ⟨hstart, hrun⟩ := decimal_iff.mp hdigits
    obtain ⟨first, run, rfl, -⟩ := startsIn_iff.mp hstart
    rw [integerLength_of_decimal hradix, List.cons_append, List.drop_one, List.tail_cons, runLength,
      takeWhile_append_eq_left (List.forall_mem_cons.mp hrun).2 hrest, List.length_cons, Nat.add_comm]
  have hsome : hasDigits (digits ++ rest) = true := by rw [hasDigits, hradix]
  rw [scan, if_pos hsome, hlength] at hkind
  simp only [List.drop_left, ← List.drop_drop, ite_eq_right_iff, reduceCtorEq] at hkind
  have hfraction : (startsWith rest ['.'] && startsIn Rune.isDigit (rest.drop 1)) ≠ true →
      startsIn isExponentMark rest = true := by
    intro hnone
    rw [fractionLength, if_neg hnone, List.drop_zero, Nat.zero_add] at hkind
    rw [← Bool.not_eq_false]
    intro hmark
    apply hkind
    simp [exponentLength, hmark]
  cases hdot : startsWith rest ['.'] with
  | false => exact Or.inr ⟨rfl, hfraction (by simp [hdot])⟩
  | true =>
      refine Or.inl ⟨rfl, ?_⟩
      rw [← Bool.not_eq_false]
      intro hdigit
      -- The dot itself is no mark of an exponent.
      have hmark := hfraction (by rw [hdigit, Bool.and_false]; exact Bool.false_ne_true)
      obtain ⟨dot, more, rfl, hchar, -⟩ := startsWith_cons_iff.mp hdot
      have hclass : isExponentMark dot = true := hmark
      simp only [isExponentMark, hchar] at hclass
      exact absurd hclass (by decide)

theorem float_sound (hdecoded : ∀ rune ∈ text, rune.Decoded)
    (hstart : startsIn Rune.isDigit text = true) (hkind : (scan text).kind = .float)
    (h : fault? true text = none) : Grammar.Number .float (text.map Rune.char) := by
  by_cases hdecimal : Radix.ofText text = .decimal
  · obtain ⟨digits, rest, rfl, hdigits, hrest⟩ := exists_decimal hstart
    have hfloat : floatFault? digits.length rest = none :=
      (fault?_decimal_iff hdecimal hdigits hrest).mp h
    have hrestDecoded := (List.forall_mem_append.mp hdecoded).2
    rcases starts_of_scan_float hdecimal hdigits hrest hkind with ⟨hdot, hdigit⟩ | ⟨hdot, hmark⟩
    · obtain ⟨dot, more, rfl, hchar, -⟩ := startsWith_cons_iff.mp hdot
      obtain ⟨run, behind, rfl, hrun, hbehind⟩ : ∃ run behind, more = run ++ behind ∧ _ :=
        exists_decimal hdigit
      rw [floatFault?_of_dot hchar (decimal_iff.mp hrun).2 hbehind] at hfloat
      have hbehindDecoded : ∀ rune ∈ behind, rune.Decoded :=
        (List.forall_mem_append.mp (List.forall_mem_cons.mp hrestDecoded).2).2
      obtain ⟨exponent, suffix, rfl, hexponent, haccepts, -⟩ :=
        exponentFault?_sound hbehindDecoded hfloat
      simp only [List.map_append, List.map_cons, hchar]
      rw [← List.cons_append]
      exact .float hdigits (.some hrun) hexponent (Or.inl (by simp))
        (by simpa [Accepts] using haccepts)
    · rw [floatFault?_of_not_dot hdot] at hfloat
      obtain ⟨exponent, suffix, rfl, hexponent, haccepts, hsome⟩ :=
        exponentFault?_sound hrestDecoded hfloat
      rw [List.map_append, List.map_append]
      exact .float hdigits .none hexponent (Or.inr (by simpa using hsome hmark))
        (by simpa [Accepts] using haccepts)
  · obtain ⟨zero, mark, digits, rest, rfl, -, -, hdigits, hrest⟩ := exists_marked hdecimal
    obtain ⟨hfalse, -⟩ := (fault?_marked_iff rfl hdecimal hdigits hrest hdecoded).mp h
    cases hfalse

theorem exists_exponent_mark {exponent : List Rune}
    (hexponent : Grammar.Exponent (exponent.map Rune.char)) (hne : exponent ≠ []) :
    ∃ mark more, exponent = mark :: more ∧ mark.char ∈ ['e', 'E'] := by
  generalize hchars : exponent.map Rune.char = chars at hexponent
  cases hexponent with
  | none => exact absurd (List.map_eq_nil_iff.mp hchars) hne
  | some hmark =>
      obtain ⟨mark, more, rfl, rfl, -⟩ := List.map_eq_cons_iff.mp hchars
      exact ⟨mark, more, rfl, hmark⟩

theorem not_digit_of_mark {rune : Rune} (h : rune.char ∈ ['.', 'e', 'E']) :
    isDigitOrSeparator rune = false :=
  eq_false_of_any (fun char => CodePoint.isDigit char.toNat || char == '_') (by decide) h

theorem startsIn_exponent_append {exponent suffix : List Rune}
    (hexponent : Grammar.Exponent (exponent.map Rune.char))
    (hsuffix : Accepts true .decimal (suffix.map Rune.char)) :
    startsIn isDigitOrSeparator (exponent ++ suffix) = false := by
  by_cases hnone : exponent = []
  · subst hnone
    exact startsIn_digit_suffix hsuffix
  · obtain ⟨mark, more, rfl, hmark⟩ := exists_exponent_mark hexponent hnone
    exact not_digit_of_mark (List.mem_cons_of_mem _ hmark)

/-- The digits of a floating-point number end at the dot of its fraction or at the mark of its exponent. -/
theorem fault?_float_iff {mark : Rune} {more : List Rune}
    (hdigits : Grammar.Decimal (digits.map Rune.char)) (hmark : mark.char ∈ ['.', 'e', 'E']) :
    fault? true (digits ++ mark :: more) = none ↔
      floatFault? digits.length (mark :: more) = none := by
  have hother : ['b', 'o', 'x'].contains mark.char = false :=
    eq_false_of_any (fun char => ['b', 'o', 'x'].contains char) (by decide) hmark
  have hradix : Radix.ofText (digits ++ mark :: more) = .decimal :=
    ofText_of_decimal hdigits hother
  exact fault?_decimal_iff hradix hdigits (not_digit_of_mark hmark)

theorem float_complete (hdecoded : ∀ rune ∈ text, rune.Decoded)
    (h : Grammar.Number .float (text.map Rune.char)) : fault? true text = none := by
  generalize hchars : text.map Rune.char = chars at h
  obtain - | - | @⟨_, _, _, _, hwhole, hfraction, hexponent, hpart, hsuffix⟩ := h
  obtain ⟨digits, rest, rfl, rfl, hrest⟩ := List.map_eq_append_iff.mp hchars
  obtain ⟨fraction, behind, rfl, hfront, hbehind⟩ := List.map_eq_append_iff.mp hrest
  obtain ⟨exponent, suffix, rfl, rfl, rfl⟩ := List.map_eq_append_iff.mp hbehind
  have hsuffixDecoded : ∀ rune ∈ suffix, rune.Decoded := by
    intro rune hrune
    apply hdecoded
    simp [hrune]
  have haccepts : Accepts true .decimal (suffix.map Rune.char) := by
    simpa [Accepts] using hsuffix
  have hfault : ∀ offset, exponentFault? offset (exponent ++ suffix) = none :=
    fun _ => exponentFault?_complete hsuffixDecoded hexponent haccepts
  cases hfraction with
  | none =>
      obtain rfl := List.map_eq_nil_iff.mp hfront
      obtain ⟨mark, more, rfl, hmark⟩ := exists_exponent_mark hexponent (by simpa using hpart)
      have hdot : startsWith (mark :: more ++ suffix) ['.'] = false := by
        have hother : (mark.char == '.') = false :=
          eq_false_of_any (fun char => char == '.') (by decide) hmark
        rw [List.cons_append, startsWith, hother, Bool.false_and]
      refine (fault?_float_iff hwhole (List.mem_cons_of_mem _ hmark)).mpr ?_
      exact (floatFault?_of_not_dot hdot).trans (hfault _)
  | some hdigits =>
      obtain ⟨dot, run, rfl, hdot, rfl⟩ := List.map_eq_cons_iff.mp hfront
      refine (fault?_float_iff hwhole (by simp [hdot])).mpr ?_
      exact (floatFault?_of_dot hdot (decimal_iff.mp hdigits).2
        (startsIn_exponent_append hexponent haccepts)).trans (hfault _)

end Number

theorem Construct.eq_number_of_isLiteral {construct : Construct} {literal : LiteralKind}
    (h : construct.IsLiteral literal) (hnumber : literal ∈ [.integer, .float]) :
    construct = number := by
  cases h with
  | integer | float => rfl
  | char | byteChar | string | byteString | rawString | rawByteString => simp at hnumber

/-- The checker passes a number exactly if the grammar has its text. -/
theorem Dialect.check_number_iff [XidClasses] (dialect : Dialect) (source : Bytes) {lexeme : Lexeme}
    (hlexeme : lexeme ∈ dialect.lexemes source) (hkind : lexeme.kind = .literal)
    (hnumber : lexeme.literal ∈ [.integer, .float]) (checker : Checker) :
    (checker.check lexeme).diagnostics = checker.diagnostics ↔
      Grammar.Number lexeme.literal ((runes lexeme.text).map Rune.char) := by
  obtain ⟨construct, hliteral, hmark, hcut⟩ := dialect.literal_of_mem hlexeme hkind
  obtain rfl := Construct.eq_number_of_isLiteral hliteral hnumber
  have htag : (Cut.ofNumber (runes lexeme.text)).tag = lexeme.toTag := congrArg Cut.tag hcut
  have hterminated : lexeme.terminated = true := by
    rw [← htag, Cut.ofNumber, Cut.terminated_ofLiteral]
  have hscan : (Number.scan (runes lexeme.text)).kind = lexeme.literal := by
    rw [← htag]
    rfl
  have hdecoded : ∀ rune ∈ runes lexeme.text, rune.Decoded := decoded_of_mem_runes
  rw [Checker.diagnostics_check_eq_iff]
  simp only [List.mem_cons, List.not_mem_nil, or_false] at hnumber
  rcases hnumber with hinteger | hfloat
  · rw [Lexeme.fault?_of_integer hkind hinteger hterminated, hinteger]
    exact ⟨Number.integer_sound hdecoded hmark, Number.integer_complete hdecoded⟩
  · rw [Lexeme.fault?_of_float hkind hfloat hterminated, hfloat]
    exact ⟨Number.float_sound hdecoded hmark (hscan.trans hfloat), Number.float_complete hdecoded⟩

/-- Where the lexer finds no exponent the checker looks for one, and reports that it has no digits. -/
theorem Dialect.check_number_iff_exponent :
    let source := Bytes.ofAscii "1.5em"
    let lexeme : Lexeme :=
      { kind := .literal, literal := .float, text := source, span := ⟨⟨0, 1, 1⟩, ⟨5, 1, 6⟩⟩ }
    let checker : Checker := {}
    lexeme ∈ ({ keywords := keywords2018 } : Dialect).lexemes source ∧
      ((checker.check lexeme).diagnostics = checker.diagnostics ↔
        Grammar.Number .float ((runes source).map Rune.char)) ∧
      (checker.check lexeme).diagnostics ≠ checker.diagnostics := by
  intro source lexeme checker
  have hlexeme : lexeme ∈ ({ keywords := keywords2018 } : Dialect).lexemes source := by
    decide +kernel
  refine ⟨hlexeme, ?_, by decide +kernel⟩
  exact Dialect.check_number_iff _ source hlexeme rfl (by decide) checker

end RustLexer
