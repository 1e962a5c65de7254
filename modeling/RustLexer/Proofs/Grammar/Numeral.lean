import RustLexer.Proofs.Grammar.Number
import RustLexer.Proofs.Grammar.Quoted

/-! # The grammar of numerals

What runs on from a digit, up to a suffix and whether or not it is a valid number. The digits behind a mark
need not be those of its base and may be left out, and an exponent may have separators alone. A fraction or
an exponent makes a numeral a floating-point number, and both stand behind a digit only.
-/

namespace RustLexer.Grammar

/-- The exponent of a numeral. -/
inductive Power : List Char → Prop
  | intro {mark : Char} {sign digits : List Char} (hmark : mark ∈ ['e', 'E'])
      (hsign : sign ∈ [[], ['+'], ['-']]) (hrun : IsRun isDigit digits) (hne : digits ≠ []) :
      Power (mark :: (sign ++ digits))

/-- What makes a numeral a floating-point number: a fraction, with an exponent or without, or an exponent. -/
inductive FloatTail : List Char → Prop
  | fraction {digits power : List Char} (hdigits : Decimal digits)
      (hpower : power = [] ∨ Power power) : FloatTail ('.' :: (digits ++ power))
  | power {power : List Char} (hpower : Power power) : FloatTail power

/-- An integer or a floating-point number without a suffix. A hexadecimal one has no exponent without a
fraction, since the marks of exponents are hexadecimal digits. -/
inductive Numeral : LiteralKind → List Char → Prop
  | decimal {digits : List Char} (hdigits : Decimal digits) : Numeral .integer digits
  | binary {mark : Char} {run : List Char} (hmark : mark ∈ ['b', 'o']) (hrun : IsRun isDigit run) :
      Numeral .integer ('0' :: mark :: run)
  | hexadecimal {run : List Char} (hrun : IsRun isHexDigit run) :
      Numeral .integer ('0' :: 'x' :: run)
  | decimalFloat {whole tail : List Char} (hwhole : Decimal whole) (htail : FloatTail tail) :
      Numeral .float (whole ++ tail)
  | binaryFloat {mark : Char} {run tail : List Char} (hmark : mark ∈ ['b', 'o'])
      (hrun : IsRun isDigit run) (hsome : ∃ digit ∈ run, isDigit digit = true)
      (htail : FloatTail tail) : Numeral .float ('0' :: mark :: (run ++ tail))
  | hexadecimalFloat {run digits power : List Char} (hrun : IsRun isHexDigit run)
      (hsome : ∃ digit ∈ run, isHexDigit digit = true) (hdigits : Decimal digits)
      (hpower : power = [] ∨ Power power) :
      Numeral .float ('0' :: 'x' :: (run ++ '.' :: (digits ++ power)))

theorem Power.exists_eq {power : List Char} (h : Power power) :
    ∃ mark more, power = mark :: more ∧ mark ∈ ['e', 'E'] := by
  obtain @⟨mark, sign, digits, hmark, -, -, -⟩ := h
  exact ⟨mark, sign ++ digits, rfl, hmark⟩

theorem FloatTail.exists_eq {tail : List Char} (h : FloatTail tail) :
    ∃ mark more, tail = mark :: more ∧ mark ∈ ['.', 'e', 'E'] := by
  cases h with
  | @fraction digits power => exact ⟨'.', digits ++ power, rfl, by simp⟩
  | power hpower =>
      obtain ⟨mark, more, rfl, hmark⟩ := hpower.exists_eq
      exact ⟨mark, more, rfl, List.mem_cons_of_mem _ hmark⟩

theorem Numeral.kind_eq {kind : LiteralKind} {chars : List Char} (h : Numeral kind chars) :
    kind = .integer ∨ kind = .float := by
  cases h with
  | decimal | binary | hexadecimal => exact Or.inl rfl
  | decimalFloat | binaryFloat | hexadecimalFloat => exact Or.inr rfl

end RustLexer.Grammar
