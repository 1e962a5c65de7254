import RustLexer.Lexer.Cut
import RustLexer.Proofs.Truncation.Comment
import RustLexer.Proofs.Truncation.Number
import RustLexer.Proofs.Truncation.Quoted

/-! # Cuts of a text that is cut off

The lexeme that a construct gives at the front of a text needs no runes but its own: in the text cut off
behind it, the construct gives the same lexeme, which reaches to the end (`Construct.cut_take`).
-/

namespace RustLexer

variable {text : List Rune} {count : Nat}

namespace Cut

theorem ofBlockComment_take (h : (ofBlockComment text).length ≤ count) :
    ofBlockComment (text.take count) = ofBlockComment text := by
  simp only [ofBlockComment, Comment.blockExtent_take h, Comment.isBlockDoc_take h]

variable [XidClasses]

theorem ofRawString_take (literal : LiteralKind) (prefixLength : Nat) (hashes : UInt32)
    (h : (ofRawString literal prefixLength hashes text).length ≤ count) :
    ofRawString literal prefixLength hashes (text.take count) =
      ofRawString literal prefixLength hashes text := by
  have hextent : (RawString.extent prefixLength hashes.toNat text).length ≤ count :=
    Extent.le_of_withSuffix_le h
  simp only [ofRawString, RawString.extent_take hextent, Extent.withSuffix_take _ h]

theorem length_ofSingleQuote (text : List Rune) :
    (ofSingleQuote text).length = (Quoted.singleQuote text).extent.length := by
  simp only [ofSingleQuote]
  split <;> rfl

theorem ofSingleQuote_take (h : (ofSingleQuote text).length ≤ count) :
    ofSingleQuote (text.take count) = ofSingleQuote text := by
  rw [length_ofSingleQuote] at h
  simp only [ofSingleQuote, Quoted.singleQuote_take h]

theorem ofNumber_take (h : (ofNumber text).length ≤ count) :
    ofNumber (text.take count) = ofNumber text := by
  have hextent := Extent.le_of_withSuffix_le h
  have hscan : (Number.scan text).length ≤ count := hextent
  simp only [ofNumber, Number.scan_take hscan]
  rw [Extent.withSuffix_take _ h]

theorem ofWord_take (keywords : Keywords) (h : (ofWord keywords text).length ≤ count) :
    ofWord keywords (text.take count) = ofWord keywords text := by
  have hlength : wordLength text ≤ count := h
  simp only [ofWord, wordLength_take, Nat.min_eq_right hlength, List.take_take,
    Nat.min_eq_left hlength]

end Cut

namespace Construct

/-- What a construct is in the text cut off behind it, and how far it reaches there. -/
theorem cut_take [XidClasses] (keywords : Keywords) (text : List Rune) (construct : Construct) :
    construct.cut keywords (text.take (construct.cut keywords text).length) =
      construct.cut keywords text := by
  obtain ⟨count, hcount⟩ : ∃ count, (construct.cut keywords text).length = count := ⟨_, rfl⟩
  have h := Nat.le_of_eq hcount
  rw [hcount]
  -- Line comments and the shebang are the same only where the text is cut off right behind them; the
  -- others are the same wherever it is cut off later, too.
  cases construct with
  | shebang =>
      subst hcount
      simp only [cut, Comment.markedLineLength_take]
  | whitespace =>
      simp only [cut, runLength_take] at h ⊢
      rw [Nat.min_eq_right h]
  | lineComment =>
      subst hcount
      simp only [cut, Comment.markedLineLength_take, Comment.isLineDoc_take]
  | blockComment => exact Cut.ofBlockComment_take h
  | singleQuote => exact Cut.ofSingleQuote_take h
  | string =>
      have hextent : (Quoted.doubleExtent text).length ≤ count := Extent.le_of_withSuffix_le h
      have htake : Quoted.doubleExtent (text.take count) = Quoted.doubleExtent text :=
        Quoted.doubleExtent_take hextent
      simp only [cut, htake]
      rw [Extent.withSuffix_take _ h]
  | byteString =>
      have hpreceded := Extent.le_of_withSuffix_le h
      have hextent : 1 + (Quoted.doubleExtent (text.drop 1)).length ≤ count := hpreceded
      have htake : Quoted.doubleExtent ((text.take count).drop 1) =
          Quoted.doubleExtent (text.drop 1) := by
        rw [List.drop_take]
        exact Quoted.doubleExtent_take (Nat.le_sub_of_add_le' hextent)
      simp only [cut, htake]
      rw [Extent.withSuffix_take _ h]
  | byteChar =>
      have hpreceded := Extent.le_of_withSuffix_le h
      have hextent : 1 + (Quoted.singleExtent (text.drop 1)).length ≤ count := hpreceded
      have htake : Quoted.singleExtent ((text.take count).drop 1) =
          Quoted.singleExtent (text.drop 1) := by
        rw [List.drop_take]
        exact Quoted.singleExtent_take (Nat.le_sub_of_add_le' hextent)
      simp only [cut, htake]
      rw [Extent.withSuffix_take _ h]
  | rawString hashes => exact Cut.ofRawString_take _ _ _ h
  | rawByteString hashes => exact Cut.ofRawString_take _ _ _ h
  | rawIdentifier =>
      simp only [cut, List.drop_take, wordLength_take] at h ⊢
      rw [Nat.min_eq_right (by omega)]
  | number => exact Cut.ofNumber_take h
  | word => exact Cut.ofWord_take keywords h
  | symbol found => rfl
  | unknown => rfl

end Construct

end RustLexer
