import RustLexer.Checker

/-! # The verdict on a lexeme

Checking a lexeme adds the diagnostic of its fault, and nothing if it has none. So every statement on what
is reported is one on `Lexeme.fault?`, which for a literal depends on its kind.
-/

namespace RustLexer

variable {lexeme : Lexeme} {fault : Fault}

namespace Checker

theorem diagnostics_check_of_fault (h : lexeme.fault? = some fault)
    (checker : Checker) :
    (checker.check lexeme).diagnostics = checker.diagnostics.push (fault.diagnostic lexeme) := by
  rw [check, Lexeme.diagnostic?, h]
  rfl

theorem check_of_no_fault (h : lexeme.fault? = none) (checker : Checker) :
    checker.check lexeme = checker := by
  rw [check, Lexeme.diagnostic?, h]
  rfl

theorem diagnostics_check_eq_iff (checker : Checker) :
    (checker.check lexeme).diagnostics = checker.diagnostics ↔ lexeme.fault? = none := by
  cases hfault : lexeme.fault? with
  | none => simp [check_of_no_fault hfault]
  | some fault =>
      simp only [diagnostics_check_of_fault hfault, reduceCtorEq, iff_false]
      intro hsame
      have hsize := congrArg Array.size hsame
      rw [Array.size_push] at hsize
      exact Nat.succ_ne_self _ hsize

/-- What is reported on a lexeme is its fault. -/
theorem diagnostics_check_eq_push_iff (checker : Checker) {diagnostic : Diagnostic} :
    (checker.check lexeme).diagnostics = checker.diagnostics.push diagnostic ↔
      ∃ fault, lexeme.fault? = some fault ∧ fault.diagnostic lexeme = diagnostic := by
  cases hfault : lexeme.fault? with
  | none =>
      rw [check_of_no_fault hfault]
      simp only [reduceCtorEq, false_and, exists_false, iff_false]
      intro hpush
      have hsize := congrArg Array.size hpush
      rw [Array.size_push] at hsize
      exact Nat.succ_ne_self _ hsize.symm
  | some fault =>
      rw [diagnostics_check_of_fault hfault, Array.push_inj_right]
      simp

/-- A cause is reported on a lexeme if it is that of the lexeme's fault. -/
theorem reports_iff (checker : Checker) {cause : Cause} :
    (∃ position, (checker.check lexeme).diagnostics =
        checker.diagnostics.push { cause, span := lexeme.span, position }) ↔
      ∃ fault, lexeme.fault? = some fault ∧ fault.cause = cause := by
  simp only [diagnostics_check_eq_push_iff]
  constructor
  · rintro ⟨position, fault, hfault, hdiagnostic⟩
    exact ⟨fault, hfault, congrArg Diagnostic.cause hdiagnostic⟩
  · rintro ⟨fault, hfault, rfl⟩
    exact ⟨lexeme.locate fault.offset, fault, hfault, rfl⟩

/-- Checking lexemes in turn adds the diagnostic of each lexeme that has one. -/
theorem diagnostics_checkAll (checker : Checker) (lexemes : List Lexeme) :
    (checker.checkAll lexemes).diagnostics.toList =
      checker.diagnostics.toList ++ lexemes.filterMap Lexeme.diagnostic? := by
  induction lexemes generalizing checker with
  | nil => simp [checkAll]
  | cons lexeme lexemes ih =>
      have hstep := ih (checker.check lexeme)
      rw [checkAll] at hstep ⊢
      rw [List.foldl_cons, hstep, check]
      cases hdiagnostic : lexeme.diagnostic? with
      | none => rw [List.filterMap_cons_none hdiagnostic]
      | some diagnostic =>
          rw [List.filterMap_cons_some hdiagnostic, Array.toList_push, List.append_assoc,
            List.singleton_append]

end Checker

namespace Lexeme

theorem fault?_of_literal (h : lexeme.kind = .literal) : lexeme.fault? = lexeme.literalFault? := by
  rw [fault?, h]

theorem fault?_ne_none_of_unterminated (hkind : lexeme.kind = .literal)
    (h : lexeme.terminated = false) : lexeme.fault? ≠ none := by
  rw [fault?_of_literal hkind, literalFault?, h]
  split
  next => simp
  next => simp

theorem fault?_of_quoted (hkind : lexeme.kind = .literal)
    (hquoted : lexeme.literal ∈ [.char, .byteChar, .string, .byteString])
    (hterminated : lexeme.terminated = true) :
    lexeme.fault? = Quoted.fault? lexeme.literal (runes lexeme.text) := by
  have hraw : lexeme.literal.isRaw = false := by
    revert hquoted
    cases lexeme.literal <;> decide
  rw [fault?_of_literal hkind, literalFault?, hraw, hterminated]
  revert hquoted
  cases lexeme.literal <;> simp

theorem fault?_of_integer (hkind : lexeme.kind = .literal) (hinteger : lexeme.literal = .integer)
    (hterminated : lexeme.terminated = true) :
    lexeme.fault? = Number.fault? false (runes lexeme.text) := by
  rw [fault?_of_literal hkind, literalFault?, hinteger, hterminated]
  rfl

theorem fault?_of_float (hkind : lexeme.kind = .literal) (hfloat : lexeme.literal = .float)
    (hterminated : lexeme.terminated = true) :
    lexeme.fault? = Number.fault? true (runes lexeme.text) := by
  rw [fault?_of_literal hkind, literalFault?, hfloat, hterminated]
  rfl

/-- A raw string without a fault is closed, its `#` signs are few, and so its body has none. -/
theorem fault?_rawByteString_eq_none (hkind : lexeme.kind = .literal)
    (hraw : lexeme.literal = .rawByteString) (h : lexeme.fault? = none) :
    lexeme.terminated = true ∧
      RawString.fault? .rawByteString lexeme.hashes.toNat lexeme.text = none := by
  have hterminated : lexeme.terminated = true := by
    rw [← Bool.not_eq_false]
    exact fun hopen => fault?_ne_none_of_unterminated hkind hopen h
  refine ⟨hterminated, ?_⟩
  rw [fault?_of_literal hkind, literalFault?, hraw, hterminated] at h
  split at h
  next => cases h
  next => exact h

end Lexeme

/-! ## Severity and wording

Of a literal nothing is merely warned of. The wording of a cause repeats no part of the source as it is, but
for a suffix and for what starts no lexeme.
-/

namespace Cause

/-- The part of a source that the wording of a cause repeats as it is. -/
def repeated : Cause → Bytes
  | unknownLexeme text => text
  | numberSuffix _ suffix => suffix
  | _ => []

/-- An error whose wording repeats no more than the end of a text. -/
def IsErrorOn (text : Bytes) (cause : Cause) : Prop :=
  cause.severity = .error ∧ cause.repeated <:+ text

theorem IsErrorOn.drop {text : List Rune} {cause : Cause} (count : Nat)
    (h : cause.IsErrorOn (Rune.encode (text.drop count))) : cause.IsErrorOn (Rune.encode text) := by
  refine ⟨h.1, h.2.trans ⟨Rune.encode (text.take count), ?_⟩⟩
  rw [← Rune.encode_append, List.take_append_drop]

end Cause

namespace Number

variable {isFloat : Bool} {offset : Nat} {text : List Rune}

theorem isErrorOn_of_suffixFault? {radix : Radix}
    (h : suffixFault? isFloat radix offset text = some fault) :
    fault.cause.IsErrorOn (Rune.encode text) := by
  unfold suffixFault? at h
  split at h
  next => cases h
  next =>
    cases h
    exact ⟨rfl, List.suffix_rfl⟩

theorem isErrorOn_of_floatFault? (h : floatFault? offset text = some fault) :
    fault.cause.IsErrorOn (Rune.encode text) := by
  simp only [floatFault?] at h
  generalize (if startsWith text ['.'] = true then 1 + runLength isDigitOrSeparator (text.drop 1)
    else 0) = fraction at h
  refine .drop fraction ?_
  split at h
  next =>
    split at h
    next => exact .drop _ (isErrorOn_of_suffixFault? h)
    next =>
      cases h
      exact ⟨rfl, List.nil_suffix⟩
  next => exact isErrorOn_of_suffixFault? h

theorem isErrorOn_of_fault? (h : fault? isFloat text = some fault) :
    fault.cause.IsErrorOn (Rune.encode text) := by
  simp only [fault?] at h
  generalize (if Radix.ofText text = .decimal then 0 else 2) = mark at h
  split at h
  next =>
    cases h
    exact ⟨rfl, List.nil_suffix⟩
  next =>
  split at h
  next =>
    cases h
    exact ⟨rfl, List.nil_suffix⟩
  next =>
  split at h
  next => exact .drop _ (isErrorOn_of_suffixFault? h)
  next =>
  split at h
  next =>
    cases h
    exact ⟨rfl, List.nil_suffix⟩
  next => exact .drop _ (isErrorOn_of_floatFault? h)

end Number

namespace Quoted

variable {literal : LiteralKind}

theorem isErrorOn_of_itemTail {rune : Rune} {rest : List Rune} {cause : Cause}
    (h : itemTail literal rune rest = .error cause) : cause.IsErrorOn [] := by
  unfold itemTail at h
  split at h
  next =>
    cases hlength : Escape.length literal rest with
    | error =>
        rw [hlength] at h
        cases h
        exact ⟨rfl, List.nil_suffix⟩
    | ok =>
        rw [hlength] at h
        cases h
  next =>
  split at h
  next =>
    cases h
    exact ⟨rfl, List.nil_suffix⟩
  next =>
  split at h
  next =>
    cases h
    exact ⟨rfl, List.nil_suffix⟩
  next =>
  split at h
  next =>
    cases h
    exact ⟨rfl, List.nil_suffix⟩
  next => cases h

theorem isErrorOn_of_readBody {quote : Char} {items offset : Nat} {text : List Rune}
    (h : readBody literal quote items offset text = .faulty fault) :
    fault.cause.IsErrorOn [] := by
  fun_induction readBody literal quote items offset text with
  | case1 => cases h
  | case2 => cases h
  | case3 items offset rune rest _ cause hcause =>
      cases h
      exact isErrorOn_of_itemTail hcause
  | case4 items offset rune rest _ tail _ ih => exact ih h

theorem isErrorOn_of_closedFault? {items offset : Nat} {rest : List Rune}
    (h : closedFault? literal items offset rest = some fault) : fault.cause.IsErrorOn [] := by
  unfold closedFault? at h
  repeat' split at h
  all_goals
    cases h <;> exact ⟨rfl, List.nil_suffix⟩

theorem isErrorOn_of_fault? {text : List Rune} (h : fault? literal text = some fault) :
    fault.cause.IsErrorOn [] := by
  simp only [fault?] at h
  generalize (if literal.isByte = true then 1 else 0) = marked at h
  split at h
  next => cases h
  next =>
  split at h
  next => cases h
  next hread =>
    cases h
    exact isErrorOn_of_readBody hread
  next => exact isErrorOn_of_closedFault? h

end Quoted

theorem RawString.isErrorOn_of_bodyFault? {literal : LiteralKind} {offset : Nat} {body : List Rune}
    (h : bodyFault? literal offset body = some fault) : fault.cause.IsErrorOn [] := by
  obtain ⟨index, -, rfl⟩ := Option.map_eq_some_iff.mp h
  simp only
  split <;> exact ⟨rfl, List.nil_suffix⟩

theorem RawString.isErrorOn_of_fault? {literal : LiteralKind} {hashes : Nat} {text : Bytes}
    (h : fault? literal hashes text = some fault) : fault.cause.IsErrorOn [] := by
  simp only [fault?] at h
  generalize (if literal.isByte = true then 2 else 1) = marked at h
  split at h
  next => cases h
  next =>
  split at h
  next body hbody =>
    cases h
    exact isErrorOn_of_bodyFault? hbody
  next =>
  split at h
  next =>
    cases h
    exact ⟨rfl, List.nil_suffix⟩
  next => cases h

/-- Every fault of a literal is an error, and its wording repeats the text of numbers only. -/
theorem Lexeme.isErrorOn_of_literalFault? (h : lexeme.literalFault? = some fault) :
    fault.cause.IsErrorOn [] ∨
      lexeme.literal ∈ [.integer, .float] ∧ fault.cause.IsErrorOn lexeme.text := by
  unfold literalFault? at h
  split at h
  next =>
    cases h
    exact Or.inl ⟨rfl, List.nil_suffix⟩
  next =>
  split at h
  next =>
    cases h
    exact Or.inl ⟨rfl, List.nil_suffix⟩
  next =>
  have hnumber : ∀ isFloat, Number.fault? isFloat (runes lexeme.text) = some fault →
      fault.cause.IsErrorOn lexeme.text := by
    intro isFloat hfault
    have herror := Number.isErrorOn_of_fault? hfault
    rwa [encode_runes] at herror
  split at h
  next hinteger => exact Or.inr ⟨by simp [hinteger], hnumber _ h⟩
  next hfloat => exact Or.inr ⟨by simp [hfloat], hnumber _ h⟩
  next => exact Or.inl (Quoted.isErrorOn_of_fault? h)
  next => exact Or.inl (Quoted.isErrorOn_of_fault? h)
  next => exact Or.inl (Quoted.isErrorOn_of_fault? h)
  next => exact Or.inl (Quoted.isErrorOn_of_fault? h)
  next => exact Or.inl (RawString.isErrorOn_of_fault? h)
  next => exact Or.inl (RawString.isErrorOn_of_fault? h)

theorem Lexeme.severity_of_literalFault? (h : lexeme.literalFault? = some fault) :
    fault.cause.severity = .error := by
  rcases lexeme.isErrorOn_of_literalFault? h with herror | ⟨-, herror⟩
  · exact herror.1
  · exact herror.1

/-- A literal is either passed or has an error of its own reported. -/
theorem Checker.check_literal_iff (hkind : lexeme.kind = .literal) (checker : Checker) :
    (∃ diagnostic : Diagnostic,
      (checker.check lexeme).diagnostics = checker.diagnostics.push diagnostic ∧
        diagnostic.isError = true ∧ diagnostic.span = lexeme.span) ↔
      lexeme.fault? ≠ none := by
  constructor
  · rintro ⟨diagnostic, hpush, -, -⟩ hnone
    rw [check_of_no_fault hnone] at hpush
    have hsize := congrArg Array.size hpush
    rw [Array.size_push] at hsize
    exact Nat.succ_ne_self _ hsize.symm
  · intro hsome
    obtain ⟨fault, hfault⟩ := Option.ne_none_iff_exists'.mp hsome
    refine ⟨fault.diagnostic lexeme, diagnostics_check_of_fault hfault checker, ?_, rfl⟩
    rw [Lexeme.fault?_of_literal hkind] at hfault
    exact decide_eq_true (Lexeme.severity_of_literalFault? hfault)

end RustLexer
