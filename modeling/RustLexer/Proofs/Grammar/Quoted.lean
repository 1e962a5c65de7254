import RustLexer.CodePoint
import RustLexer.Literal

/-! # The grammar of quoted literals

Which texts are character literals and strings, as derivations over their characters. Nothing here says
how a text is read: a derivation picks its escapes and its line breaks where it likes, and the only
condition on what follows is the one on carriage returns.
-/

namespace RustLexer.Grammar

def isHexDigit (char : Char) : Bool := CodePoint.isHexDigit char.toNat

def isWhitespace (char : Char) : Bool := CodePoint.isWhitespace char.toNat

/-- The number that hexadecimal digits stand for behind others that stand for `value`. Separators between
them do not count. -/
def appendHex (value : Nat) (digits : List Char) : Nat :=
  (digits.filter isHexDigit).foldl
    (fun value digit => value * 16 + CodePoint.digitValue digit.toNat) value

/-- The numbers that code points have, surrogates left out. -/
def IsScalar (value : Nat) : Prop :=
  value ≤ 0x10FFFF ∧ ¬ (0xD800 ≤ value ∧ value ≤ 0xDFFF)

/-- An escape that stands for one character, or for one byte. -/
inductive Escape (literal : LiteralKind) : List Char → Prop
  | simple {char : Char} (hchar : char ∈ ['n', 'r', 't', '\\', '0', '\'', '"']) :
      Escape literal ['\\', char]
  | hex {high low : Char} (hhigh : isHexDigit high = true) (hlow : isHexDigit low = true)
      (hvalue : literal.isByte = true ∨ appendHex 0 [high, low] ≤ 0x7F) :
      Escape literal ['\\', 'x', high, low]
  | codePoint {first : Char} {others : List Char} (hliteral : literal.isByte = false)
      (hfirst : isHexDigit first = true)
      (hothers : ∀ char ∈ others, isHexDigit char = true ∨ char = '_')
      (hcount : (first :: others).countP isHexDigit ≤ 6)
      (hvalue : IsScalar (appendHex 0 (first :: others))) :
      Escape literal ('\\' :: 'u' :: '{' :: first :: (others ++ ['}']))

/-- A line break behind a backslash, with some of the whitespace that follows. -/
inductive LineBreak : List Char → Prop
  | intro {newline blanks : List Char} (hnewline : newline = ['\n'] ∨ newline = ['\r', '\n'])
      (hblanks : ∀ char ∈ blanks, isWhitespace char = true) :
      LineBreak ('\\' :: (newline ++ blanks))

/-- What a string holds. -/
inductive Body (literal : LiteralKind) : List Char → Prop
  | nil : Body literal []
  | char {char : Char} {rest : List Char} (hquote : char ≠ '"') (hescape : char ≠ '\\')
      (hreturn : char = '\r' → rest.head? = some '\n')
      (hbyte : literal.isByte = true → char.toNat < 0x80) (hrest : Body literal rest) :
      Body literal (char :: rest)
  | escape {escape rest : List Char} (hescape : Escape literal escape)
      (hrest : Body literal rest) : Body literal (escape ++ rest)
  | lineBreak {continued rest : List Char} (hcontinued : LineBreak continued)
      (hrest : Body literal rest) : Body literal (continued ++ rest)

/-- What a character literal holds. -/
inductive Single (literal : LiteralKind) : List Char → Prop
  | char {char : Char} (hchar : char ∉ ['\'', '\\', '\n', '\r', '\t'])
      (hbyte : literal.isByte = true → char.toNat < 0x80) : Single literal [char]
  | escape {escape : List Char} (hescape : Escape literal escape) : Single literal escape

/-- What stands before the opening quote. -/
def mark (literal : LiteralKind) : List Char :=
  if literal.isByte then ['b'] else []

/-- A quoted literal without a suffix. -/
inductive Quoted (literal : LiteralKind) : List Char → Prop
  | single {content : List Char} (hliteral : literal.isSingle = true)
      (hcontent : Single literal content) :
      Quoted literal (mark literal ++ '\'' :: (content ++ ['\'']))
  | string {content : List Char} (hliteral : literal.isSingle = false)
      (hcontent : Body literal content) :
      Quoted literal (mark literal ++ '"' :: (content ++ ['"']))

/-! ## Digits -/

@[simp] theorem appendHex_nil (value : Nat) : appendHex value [] = value := rfl

@[simp] theorem appendHex_separator (value : Nat) (digits : List Char) :
    appendHex value ('_' :: digits) = appendHex value digits := rfl

theorem appendHex_cons {digit : Char} (h : isHexDigit digit = true) (value : Nat)
    (digits : List Char) :
    appendHex value (digit :: digits) =
      appendHex (value * 16 + CodePoint.digitValue digit.toNat) digits := by
  rw [appendHex, List.filter_cons_of_pos h, List.foldl_cons, appendHex]

/-! ## What escapes leave out -/

/-- A character that neither closes a literal nor starts an escape. -/
def IsPlain (char : Char) : Prop := char ≠ '\'' ∧ char ≠ '"' ∧ char ≠ '\\'

theorem isPlain_of_isHexDigit {char : Char} (h : isHexDigit char = true) : IsPlain char := by
  refine ⟨?_, ?_, ?_⟩ <;>
    · rintro rfl
      cases h

theorem isPlain_of_isWhitespace {char : Char} (h : isWhitespace char = true) : IsPlain char := by
  refine ⟨?_, ?_, ?_⟩ <;>
    · rintro rfl
      cases h

/-- What a backslash starts: an escape, or in a string a line break. -/
def Escaped (literal : LiteralKind) (chars : List Char) : Prop :=
  Escape literal chars ∨ literal.isSingle = false ∧ LineBreak chars

/-- Behind the character that is escaped, an escape has no quote and no backslash. -/
theorem Escape.exists_eq {literal : LiteralKind} {chars : List Char} (h : Escape literal chars) :
    ∃ escaped others, chars = '\\' :: escaped :: others ∧ ∀ char ∈ others, IsPlain char := by
  cases h with
  | @simple char _ => exact ⟨char, [], rfl, by simp⟩
  | @hex high low hhigh hlow =>
      refine ⟨'x', [high, low], rfl, ?_⟩
      simp only [List.forall_mem_cons, List.not_mem_nil, false_implies, implies_true, and_true]
      exact ⟨isPlain_of_isHexDigit hhigh, isPlain_of_isHexDigit hlow⟩
  | @codePoint first others _ hfirst hothers =>
      refine ⟨'u', '{' :: first :: (others ++ ['}']), rfl, ?_⟩
      intro char hchar
      simp only [List.mem_cons, List.mem_append, List.not_mem_nil, or_false] at hchar
      rcases hchar with rfl | rfl | hchar | rfl
      · exact ⟨by decide, by decide, by decide⟩
      · exact isPlain_of_isHexDigit hfirst
      · rcases hothers char hchar with hdigit | rfl
        · exact isPlain_of_isHexDigit hdigit
        · exact ⟨by decide, by decide, by decide⟩
      · exact ⟨by decide, by decide, by decide⟩

theorem LineBreak.exists_eq {chars : List Char} (h : LineBreak chars) :
    ∃ escaped others, chars = '\\' :: escaped :: others ∧ ∀ char ∈ others, IsPlain char := by
  obtain @⟨newline, blanks, hnewline, hblanks⟩ := h
  have hplain : ∀ char ∈ blanks, IsPlain char :=
    fun char hchar => isPlain_of_isWhitespace (hblanks char hchar)
  rcases hnewline with rfl | rfl
  · exact ⟨'\n', blanks, rfl, hplain⟩
  · have hfeed : IsPlain '\n' := ⟨by decide, by decide, by decide⟩
    exact ⟨'\r', '\n' :: blanks, rfl, List.forall_mem_cons.mpr ⟨hfeed, hplain⟩⟩

theorem LineBreak.append {chars blanks : List Char} (h : LineBreak chars)
    (hblanks : ∀ char ∈ blanks, isWhitespace char = true) : LineBreak (chars ++ blanks) := by
  obtain @⟨newline, others, hnewline, hothers⟩ := h
  rw [List.cons_append, List.append_assoc]
  exact .intro hnewline (List.forall_mem_append.mpr ⟨hothers, hblanks⟩)

theorem Escaped.exists_eq {literal : LiteralKind} {chars : List Char} (h : Escaped literal chars) :
    ∃ escaped others, chars = '\\' :: escaped :: others ∧ ∀ char ∈ others, IsPlain char := by
  rcases h with h | ⟨-, h⟩
  · exact h.exists_eq
  · exact h.exists_eq

end RustLexer.Grammar
