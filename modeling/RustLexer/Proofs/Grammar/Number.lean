import RustLexer.CodePoint
import RustLexer.Literal

/-! # The grammar of numbers

Which texts are integers and floating-point numbers. A number is its digits, for a floating-point number a
fraction or an exponent, and at most one suffix that names its type; digits may have separators anywhere
behind the first of a decimal part.
-/

namespace RustLexer.Grammar

def isDigit (char : Char) : Bool := CodePoint.isDigit char.toNat

/-- A digit of a base up to sixteen. -/
def isDigitOf (base : Nat) (char : Char) : Bool :=
  CodePoint.isHexDigit char.toNat && CodePoint.digitValue char.toNat < base

/-- The names of the integer types. -/
def integerSuffixes : List (List Char) :=
  ["u8", "u16", "u32", "u64", "u128", "usize", "i8", "i16", "i32", "i64", "i128", "isize"].map
    String.toList

/-- The names of the floating-point types. -/
def floatSuffixes : List (List Char) :=
  ["f32", "f64"].map String.toList

/-- A run of digits and separators. -/
def IsRun (isDigit : Char → Bool) (run : List Char) : Prop :=
  ∀ char ∈ run, isDigit char = true ∨ char = '_'

/-- A decimal digit and a run behind it. -/
inductive Decimal : List Char → Prop
  | intro {first : Char} {run : List Char} (hfirst : isDigit first = true)
      (hrun : IsRun isDigit run) : Decimal (first :: run)

/-- A fraction, which may be left out. -/
inductive Fraction : List Char → Prop
  | none : Fraction []
  | some {digits : List Char} (hdigits : Decimal digits) : Fraction ('.' :: digits)

/-- An exponent, which may be left out. -/
inductive Exponent : List Char → Prop
  | none : Exponent []
  | some {mark : Char} {sign digits : List Char} (hmark : mark ∈ ['e', 'E'])
      (hsign : sign ∈ [[], ['+'], ['-']]) (hrun : IsRun isDigit digits)
      (hsome : ∃ digit ∈ digits, isDigit digit = true) : Exponent (mark :: (sign ++ digits))

/-- A number with its suffix, if it has one. -/
inductive Number : LiteralKind → List Char → Prop
  | decimal {digits suffix : List Char} (hdigits : Decimal digits)
      (hsuffix : suffix = [] ∨ suffix ∈ integerSuffixes ∨ suffix ∈ floatSuffixes) :
      Number .integer (digits ++ suffix)
  | marked {mark : Char} {base : Nat} {digits suffix : List Char}
      (hmark : (mark, base) ∈ [('b', 2), ('o', 8), ('x', 16)])
      (hrun : IsRun (isDigitOf base) digits) (hsome : ∃ digit ∈ digits, isDigitOf base digit = true)
      (hsuffix : suffix = [] ∨ suffix ∈ integerSuffixes) :
      Number .integer ('0' :: mark :: (digits ++ suffix))
  | float {whole fraction exponent suffix : List Char} (hwhole : Decimal whole)
      (hfraction : Fraction fraction) (hexponent : Exponent exponent)
      (hpart : fraction ≠ [] ∨ exponent ≠ []) (hsuffix : suffix = [] ∨ suffix ∈ floatSuffixes) :
      Number .float (whole ++ (fraction ++ (exponent ++ suffix)))

/-! ## Suffixes -/

theorem head_of_mem_integerSuffixes {suffix : List Char} (h : suffix ∈ integerSuffixes) :
    suffix.head? = some 'u' ∨ suffix.head? = some 'i' := by
  revert suffix
  decide

theorem head_of_mem_floatSuffixes {suffix : List Char} (h : suffix ∈ floatSuffixes) :
    suffix.head? = some 'f' := by
  revert suffix
  decide

end RustLexer.Grammar
