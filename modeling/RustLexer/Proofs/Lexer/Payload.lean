import RustLexer.CodePoint.Unicode
import RustLexer.Proofs.Lexer.Place

/-! # The details of a tag

A detail of a tag means something for some kinds and keeps its default at all others, whatever text a
construct is cut off from (`Construct.wellFormed_cut`). A construct that is not closed reaches to the end of
the text (`Construct.length_le_of_unterminated`), so a lexeme that is not closed is the last one of its
source.
-/

namespace RustLexer

/-- Whatever a tag says beyond the defaults has a meaning for its kind. -/
structure Tag.WellFormed (tag : Tag) : Prop where
  isDoc : tag.isDoc = true → tag.kind = .lineComment ∨ tag.kind = .blockComment
  isRaw : tag.isRaw = true → tag.kind = .identifier
  hashes : tag.hashes ≠ 0 → tag.kind = .literal ∧ tag.literal ∈ [.rawString, .rawByteString]
  literal : tag.literal ≠ .integer → tag.kind = .literal
  symbol : tag.symbol ≠ .semi → tag.kind = .operator ∨ tag.kind = .punctuation
  terminated : tag.terminated = false → tag.kind = .blockComment ∨ tag.kind = .literal ∧
    tag.literal ∈ [.char, .byteChar, .string, .byteString, .rawString, .rawByteString]

/-! ## Tags -/

namespace Cut

/-- A literal that is not a number may be left open. -/
theorem wellFormed_ofLiteral {literal : LiteralKind} (extent : Extent)
    (h : extent.terminated = false → literal ∈
      [.char, .byteChar, .string, .byteString, .rawString, .rawByteString]) :
    (ofLiteral literal extent).tag.WellFormed := by
  constructor <;> simp_all [ofLiteral]

theorem wellFormed_ofSymbol (symbol : Symbol) : (ofSymbol symbol).tag.WellFormed := by
  cases hclass : symbol.symbolClass <;> constructor <;> simp [ofSymbol, hclass]

variable [XidClasses]

theorem wellFormed_ofRawString {literal : LiteralKind} (h : literal ∈ [.rawString, .rawByteString])
    (prefixLength : Nat) (hashes : UInt32) (text : List Rune) :
    (ofRawString literal prefixLength hashes text).tag.WellFormed := by
  rcases List.mem_pair.mp h with rfl | rfl <;> constructor <;> simp [ofRawString]

theorem wellFormed_ofSingleQuote (text : List Rune) : (ofSingleQuote text).tag.WellFormed := by
  simp only [ofSingleQuote]
  split
  next => constructor <;> simp
  next => exact wellFormed_ofLiteral _ (by simp)

theorem wellFormed_ofNumber (text : List Rune) : (ofNumber text).tag.WellFormed := by
  refine wellFormed_ofLiteral _ fun hopen => ?_
  rw [Extent.terminated_withSuffix] at hopen
  cases hopen

theorem wellFormed_ofWord (keywords : Keywords) (text : List Rune) :
    (ofWord keywords text).tag.WellFormed := by
  simp only [ofWord, wordTag]
  split
  next => constructor <;> simp
  next => split <;> constructor <;> simp

end Cut

/-- No construct gives a lexeme details that its kind does not have. -/
theorem Construct.wellFormed_cut [XidClasses] (keywords : Keywords) (text : List Rune)
    (construct : Construct) : (construct.cut keywords text).tag.WellFormed := by
  cases construct with
  | singleQuote => exact Cut.wellFormed_ofSingleQuote text
  | string => exact Cut.wellFormed_ofLiteral _ (by simp)
  | byteString => exact Cut.wellFormed_ofLiteral _ (by simp)
  | byteChar => exact Cut.wellFormed_ofLiteral _ (by simp)
  | rawString hashes => exact Cut.wellFormed_ofRawString (by simp) _ _ _
  | rawByteString hashes => exact Cut.wellFormed_ofRawString (by simp) _ _ _
  | number => exact Cut.wellFormed_ofNumber text
  | word => exact Cut.wellFormed_ofWord keywords text
  | symbol found => exact Cut.wellFormed_ofSymbol found
  | shebang | whitespace | lineComment | blockComment | rawIdentifier | unknown =>
      constructor <;> simp [cut, Cut.ofBlockComment]

/-! ## Open constructs -/

variable {text : List Rune}

/-- A construct that is open takes the whole text. -/
def Extent.OpenToEnd (extent : Extent) (text : List Rune) : Prop :=
  extent.terminated = false → text.length ≤ extent.length

namespace Extent.OpenToEnd

theorem withSuffix [XidClasses] {extent : Extent} (h : extent.OpenToEnd text) :
    (extent.withSuffix text).OpenToEnd text := by
  intro hopen
  rw [terminated_withSuffix] at hopen
  exact Nat.le_trans (h hopen) (extent.length_le_withSuffix text)

theorem precededBy {extent : Extent} (h : extent.OpenToEnd (text.drop 1)) :
    (extent.precededBy 1).OpenToEnd text := by
  intro hopen
  have hlength := h hopen
  rw [List.length_drop] at hlength
  simp only [Extent.precededBy]
  omega

end Extent.OpenToEnd

theorem Comment.blockExtent_openToEnd (text : List Rune) : (blockExtent text).OpenToEnd text := by
  intro hopen
  obtain ⟨length, -, -, hextent⟩ | hextent := blockExtent_cases text
  · rw [hextent] at hopen
    cases hopen
  · rw [hextent]

theorem Quoted.extent_openToEnd (quote : Char) (text : List Rune) :
    (extent quote text).OpenToEnd text := by
  intro hopen
  unfold extent at hopen ⊢
  split at hopen
  next => cases hopen
  next => exact Nat.le_refl _

theorem Quoted.doubleExtent_openToEnd (text : List Rune) :
    (doubleExtent text).OpenToEnd text := by
  rw [doubleExtent_eq]
  exact extent_openToEnd _ text

theorem Quoted.singleExtent_openToEnd (text : List Rune) :
    (singleExtent text).OpenToEnd text := by
  intro hopen
  unfold singleExtent at hopen ⊢
  split at hopen
  next => cases hopen
  next hthree =>
    rw [if_neg hthree]
    exact extent_openToEnd _ text hopen

theorem Quoted.singleQuote_openToEnd [XidClasses] (text : List Rune) :
    (singleQuote text).extent.OpenToEnd text := by
  by_cases hword : startsIn Rune.isIdentStart (text.drop 1) = true → charAt? text 2 = some '\''
  · rw [singleQuote_of_not_word hword]
    exact (singleExtent_openToEnd text).withSuffix
  · simp only [Classical.not_imp] at hword
    rw [singleQuote_of_word hword.1 hword.2 rfl]
    intro hopen
    split at hopen <;> cases hopen

theorem RawString.extent_openToEnd (prefixLength hashes : Nat) (text : List Rune) :
    (extent prefixLength hashes text).OpenToEnd text := by
  intro hopen
  unfold extent at hopen ⊢
  simp only at hopen ⊢
  split at hopen
  next => cases hopen
  next => exact Nat.le_refl _

/-- A construct that is not closed reaches to the end of the text. -/
theorem Construct.length_le_of_unterminated [XidClasses] {keywords : Keywords} {construct : Construct}
    (h : (construct.cut keywords text).tag.terminated = false) :
    text.length ≤ (construct.cut keywords text).length := by
  cases construct with
  | blockComment => exact Comment.blockExtent_openToEnd text h
  | singleQuote =>
      rw [cut, Cut.terminated_ofSingleQuote] at h
      rw [cut, Cut.length_ofSingleQuote]
      exact Quoted.singleQuote_openToEnd text h
  | string => exact (Quoted.doubleExtent_openToEnd text).withSuffix h
  | byteString => exact (Quoted.doubleExtent_openToEnd _).precededBy.withSuffix h
  | byteChar => exact (Quoted.singleExtent_openToEnd _).precededBy.withSuffix h
  | rawString hashes => exact (RawString.extent_openToEnd _ _ text).withSuffix h
  | rawByteString hashes => exact (RawString.extent_openToEnd _ _ text).withSuffix h
  | number =>
      rw [cut, Cut.ofNumber, Cut.terminated_ofLiteral] at h
      cases h
  | word =>
      simp only [cut, Cut.ofWord, Cut.wordTag] at h
      split at h
      next => cases h
      next => split at h <;> cases h
  | shebang | whitespace | lineComment | rawIdentifier | symbol | unknown => cases h

/-! ## Lexemes -/

/-- Behind a lexeme that is not closed the source is used up. -/
theorem Lexer.atEnd_of_unterminated [XidClasses] {lexer next : Lexer} {lexeme : Lexeme}
    (hnext : lexer.next? = some (lexeme, next)) (hopen : lexeme.terminated = false) :
    next.atEnd = true := by
  obtain ⟨-, htag, -, -, rfl⟩ := next?_eq_some hnext
  have hlength : lexer.cursor.rest.length ≤ lexer.cut.length := by
    apply Construct.length_le_of_unterminated
    rw [htag] at hopen
    exact hopen
  exact atEnd_iff.mpr (List.drop_eq_nil_of_le hlength)

/-- A run yields no lexeme behind one that is not closed. -/
theorem Lexer.Run.eq_nil_of_unterminated [XidClasses] {lexer last : Lexer} {before behind : List Lexeme}
    {lexeme : Lexeme} (hrun : Run lexer (before ++ lexeme :: behind) last)
    (hopen : lexeme.terminated = false) : behind = [] ∧ last.atEnd = true := by
  generalize hlexemes : before ++ lexeme :: behind = lexemes at hrun
  induction hrun generalizing before with
  | stop => simp at hlexemes
  | @step lexer next last first lexemes hnext hrun ih =>
      cases before with
      | nil =>
          obtain ⟨rfl, rfl⟩ := List.cons.inj hlexemes
          have hend := atEnd_of_unterminated hnext hopen
          cases hrun with
          | stop => exact ⟨rfl, hend⟩
          | step hmore =>
              rw [next?, hend] at hmore
              cases hmore
      | cons other before => exact ih (List.cons.inj hlexemes).2

theorem Dialect.unterminated_last [XidClasses] {dialect : Dialect} {source : Bytes}
    {before behind : List Lexeme}
    {lexeme : Lexeme} (hsplit : dialect.lexemes source = before ++ lexeme :: behind)
    (hopen : lexeme.terminated = false) :
    behind = [] ∧ lexeme.span.stop.offset = source.length := by
  have hrun := Lexer.run_drain (Lexer.ofSource dialect source)
  have hlexemes : (Lexer.ofSource dialect source).drain.1 = before ++ lexeme :: behind := hsplit
  rw [hlexemes] at hrun
  obtain ⟨rfl, -⟩ := hrun.eq_nil_of_unterminated hopen
  refine ⟨rfl, (dialect.tiles_lexemes source).2.stop_last lexeme ?_⟩
  rw [hsplit, List.getLast?_append]
  rfl

/-- What can only be the last element of a list is there once at most. -/
theorem countP_le_one {α : Type} {p : α → Bool} {list : List α}
    (h : ∀ before a behind, list = before ++ a :: behind → p a = true → behind = []) :
    list.countP p ≤ 1 := by
  induction list with
  | nil => exact Nat.zero_le 1
  | cons a rest ih =>
      by_cases ha : p a = true
      · obtain rfl := h [] a rest rfl ha
        rw [List.countP_cons_of_pos ha, List.countP_nil]
      · rw [List.countP_cons_of_neg ha]
        refine ih fun before b behind hrest => h (a :: before) b behind ?_
        rw [hrest, List.cons_append]

/-- A lexeme that is not closed is the last one and reaches to the end of the source, so there is one at
most, and no lexeme has details that its kind does not have. -/
theorem Dialect.lexemes_wellFormed [XidClasses] (dialect : Dialect) (source : Bytes) :
    (∀ before lexeme behind, dialect.lexemes source = before ++ lexeme :: behind →
      lexeme.terminated = false → behind = [] ∧ lexeme.span.stop.offset = source.length) ∧
    (dialect.lexemes source).countP (fun lexeme => !lexeme.terminated) ≤ 1 ∧
    ∀ lexeme ∈ dialect.lexemes source, lexeme.toTag.WellFormed := by
  have hlast : ∀ before lexeme behind, dialect.lexemes source = before ++ lexeme :: behind →
      lexeme.terminated = false → behind = [] ∧ lexeme.span.stop.offset = source.length :=
    fun _ _ _ hsplit hopen => unterminated_last hsplit hopen
  refine ⟨hlast, ?_, fun lexeme hlexeme => ?_⟩
  · refine countP_le_one fun before lexeme behind hsplit hopen => ?_
    exact (hlast before lexeme behind hsplit (by simpa using hopen)).1
  · obtain ⟨construct, -, -, htag, -⟩ := (inPlace_of_mem hlexeme).exists_construct
    rw [← htag]
    exact construct.wellFormed_cut _ _

/-- A raw string that nothing closes takes the rest of its source. -/
theorem Dialect.lexemes_wellFormed_rawString :
    let dialect : Dialect := { keywords := keywords2018 }
    let source := Bytes.ofAscii "x=r#\"a\" 'b'"
    ∃ before lexeme, dialect.lexemes source = before ++ [lexeme] ∧ before.length = 2 ∧
      lexeme.terminated = false ∧ lexeme.hashes = 1 ∧
      lexeme.span.stop.offset = source.length ∧
      (dialect.lexemes source).countP (fun lexeme => !lexeme.terminated) ≤ 1 ∧
      lexeme.toTag.WellFormed := by
  intro dialect source
  obtain ⟨hlast, hcount, hwell⟩ := dialect.lexemes_wellFormed source
  have hsplit : dialect.lexemes source =
      [{ kind := .identifier, text := Bytes.ofAscii "x", span := ⟨⟨0, 1, 1⟩, ⟨1, 1, 2⟩⟩ },
       { kind := .operator, symbol := .eq, text := Bytes.ofAscii "=",
         span := ⟨⟨1, 1, 2⟩, ⟨2, 1, 3⟩⟩ }] ++
      [{ kind := .literal, literal := .rawString, hashes := 1, terminated := false,
         text := Bytes.ofAscii "r#\"a\" 'b'", span := ⟨⟨2, 1, 3⟩, ⟨11, 1, 12⟩⟩ }] := by
    decide +kernel
  refine ⟨_, _, hsplit, rfl, rfl, rfl, ?_, hcount, ?_⟩
  · exact (hlast _ _ _ hsplit rfl).2
  · exact hwell _ (by simp [hsplit])

end RustLexer
