import RustLexer.CodePoint.Unicode
import RustLexer.Proofs.Keywords
import RustLexer.Proofs.Lexer.MaximalMunch

/-! # What a keyword table decides

Where a source is cut and what its pieces are does not depend on the keywords: they only make keywords of
some of the identifiers. A lexer with keywords and one without that stand at the same place stay together
(`Lexer.WithoutKeywords.next`), so their lexemes differ in nothing else (`Lexer.WithoutKeywords.drain`).
-/

namespace RustLexer

/-- The tag of a word that may be a keyword. A word that is written with `r#` is an identifier even then. -/
def Tag.withKeyword (isKeyword : Bool) (tag : Tag) : Tag :=
  if tag.kind = .identifier ∧ tag.isRaw = false ∧ isKeyword = true then
    { tag with kind := .keyword }
  else tag

/-- A lexeme where some words are keywords. -/
def Lexeme.withKeywords (isKeyword : Bytes → Bool) (lexeme : Lexeme) : Lexeme :=
  { lexeme with toTag := lexeme.toTag.withKeyword (isKeyword lexeme.text) }

theorem Tag.withKeyword_of_not_word {tag : Tag} (h : tag.kind = .identifier → tag.isRaw = true)
    (isKeyword : Bool) : tag.withKeyword isKeyword = tag := by
  apply if_neg
  rintro ⟨hkind, hraw, -⟩
  rw [h hkind] at hraw
  cases hraw

/-! ## Cuts -/

theorem Keywords.contains_empty (word : Bytes) : Keywords.contains #[] word = false := by
  simp [contains]

theorem Cut.wordTag_eq (keywords : Keywords) (word : Bytes) :
    wordTag keywords word = (wordTag #[] word).withKeyword (keywords.contains word) := by
  unfold wordTag
  rw [Keywords.contains_empty]
  split
  next => exact (Tag.withKeyword_of_not_word (by simp) _).symm
  next =>
    split
    next hkeyword => simp [Tag.withKeyword, hkeyword]
    next hkeyword => simp [Tag.withKeyword, hkeyword]

/-- Whatever the keywords are, a cut takes as many runes and gives the same details. -/
theorem Construct.cut_eq [XidClasses] (keywords : Keywords) (text : List Rune) (construct : Construct) :
    construct.cut keywords text =
      let plain := construct.cut #[] text
      { plain with
        tag := plain.tag.withKeyword
          (keywords.contains (Rune.encode (text.take plain.length))) } := by
  cases construct with
  | word =>
      simp only [cut, Cut.ofWord]
      rw [Cut.wordTag_eq]
  | singleQuote =>
      have hword : (Cut.ofSingleQuote text).tag.kind ≠ .identifier := by
        rcases Cut.kind_ofSingleQuote text with hkind | hkind <;> simp [hkind]
      simp only [cut, Tag.withKeyword_of_not_word (fun h => absurd h hword)]
  | symbol found =>
      have hword : (Cut.ofSymbol found).tag.kind ≠ .identifier := by
        simp only [Cut.ofSymbol]
        split <;> simp
      simp only [cut, Tag.withKeyword_of_not_word (fun h => absurd h hword)]
  | shebang | whitespace | lineComment | blockComment | string | byteString | byteChar | rawString
  | rawByteString | rawIdentifier | number | unknown =>
      simp [cut, Tag.withKeyword, Cut.ofBlockComment, Cut.ofLiteral, Cut.ofRawString, Cut.ofNumber]

theorem Construct.kind_cut_empty [XidClasses] (text : List Rune) (construct : Construct) :
    (construct.cut #[] text).tag.kind ≠ .keyword := by
  cases construct with
  | word =>
      simp only [cut, Cut.ofWord, Cut.wordTag, Keywords.contains_empty]
      split <;> simp
  | singleQuote => rcases Cut.kind_ofSingleQuote text with hkind | hkind <;> simp [cut, hkind]
  | symbol found =>
      simp only [cut, Cut.ofSymbol]
      split <;> simp
  | shebang | whitespace | lineComment | blockComment | string | byteString | byteChar | rawString
  | rawByteString | rawIdentifier | number | unknown =>
      simp [cut, Cut.ofBlockComment, Cut.ofLiteral, Cut.ofRawString, Cut.ofNumber]

/-! ## Two lexers -/

namespace Lexer

/-- A lexer that has no keywords stands where another one does. -/
structure WithoutKeywords (plain lexer : Lexer) : Prop where
  keywords_eq : plain.dialect.keywords = #[]
  cursor_eq : plain.cursor = lexer.cursor

variable [XidClasses]

namespace WithoutKeywords

variable {plain plain' lexer : Lexer} {lexeme : Lexeme}

theorem cut_eq (h : WithoutKeywords plain lexer) :
    lexer.cut =
      { tag := plain.cut.tag.withKeyword
          (lexer.dialect.keywords.contains (Rune.encode (plain.cursor.rest.take plain.cut.length)))
        length := plain.cut.length } := by
  have hconstruct : plain.construct = lexer.construct := by
    rw [construct, construct, h.cursor_eq]
  rw [cut, Construct.cut_eq, cut, hconstruct, h.keywords_eq, h.cursor_eq]

theorem next (h : WithoutKeywords plain lexer) (hnext : plain.next? = some (lexeme, plain')) :
    ∃ lexer', lexer.next? = some (lexeme.withKeywords lexer.dialect.keywords.contains, lexer') ∧
      WithoutKeywords plain' lexer' ∧ lexer'.dialect = lexer.dialect := by
  obtain ⟨hne, htag, htext, hspan, rfl⟩ := next?_eq_some hnext
  refine ⟨{ lexer with cursor := lexer.cursor.advance lexer.cut.length }, ?_, ?_, rfl⟩
  · have hend : lexer.atEnd = false := by
      rw [atEnd_eq_false_iff, ← h.cursor_eq]
      exact hne
    have hlexeme : (lexer.take lexer.cut).1 =
        lexeme.withKeywords lexer.dialect.keywords.contains := by
      cases lexeme with | mk tag text span =>
      simp only at htag htext hspan
      subst htag htext hspan
      simp only [take, Lexeme.withKeywords, h.cut_eq, h.cursor_eq]
    rw [next?, hend, ← hlexeme]
    rfl
  · refine ⟨h.keywords_eq, ?_⟩
    simp only [h.cut_eq, h.cursor_eq]

theorem drain (h : WithoutKeywords plain lexer) :
    lexer.drain.1 =
      plain.drain.1.map (Lexeme.withKeywords lexer.dialect.keywords.contains) := by
  induction plain using next_induction generalizing lexer with
  | stop plain hnext =>
      have hlexer : lexer.next? = none := by
        rw [next?_eq_none_iff, ← h.cursor_eq]
        exact next?_eq_none_iff.mp hnext
      rw [drain_of_next?_eq_none hnext, drain_of_next?_eq_none hlexer]
      rfl
  | step plain lexeme plain' hnext ih =>
      obtain ⟨lexer', hlexer, hwithout, hdialect⟩ := h.next hnext
      rw [drain_of_next?_eq_some hnext, drain_of_next?_eq_some hlexer, ih hwithout, hdialect]
      rfl

end WithoutKeywords

end Lexer

/-- A source has the same lexemes whatever the keywords are, but that the identifiers that stand in the
table, if not written with `r#`, are keywords. The table of the 2018 edition is sorted as it must be. -/
theorem Dialect.lexemes_withKeywords [XidClasses] (dialect : Dialect) (hsorted : dialect.keywords.Sorted)
    (edition : Edition) (source : Bytes) :
    let plain := ({ edition, keywords := #[] } : Dialect).lexemes source
    dialect.lexemes source =
        plain.map (Lexeme.withKeywords fun word => decide (word ∈ dialect.keywords)) ∧
      (∀ lexeme ∈ plain, lexeme.kind ≠ .keyword) ∧ keywords2018.Sorted := by
  intro plain
  refine ⟨?_, fun lexeme hlexeme => ?_, Keywords.sorted_keywords2018⟩
  · have hcontains :
        dialect.keywords.contains = fun word => decide (word ∈ dialect.keywords) := by
      funext word
      rw [Bool.eq_iff_iff, Keywords.contains_iff_mem hsorted, decide_eq_true_iff]
    have hwithout : Lexer.WithoutKeywords (.ofSource { edition, keywords := #[] } source)
        (.ofSource dialect source) := ⟨rfl, rfl⟩
    rw [← hcontains]
    exact hwithout.drain
  · obtain ⟨construct, -, -, htag, -⟩ := (inPlace_of_mem hlexeme).exists_construct
    rw [← htag]
    exact construct.kind_cut_empty _

/-- Neither `r#` nor the underscore gives way to a table, and a word that only starts like a keyword is
none. -/
theorem Dialect.lexemes_withKeywords_raw :
    let dialect : Dialect := { keywords := #["_", "for"].map Bytes.ofAscii }
    let source := Bytes.ofAscii "for r#for fork _"
    dialect.keywords.Sorted ∧
      dialect.lexemes source =
        (({} : Dialect).lexemes source).map
          (Lexeme.withKeywords fun word => decide (word ∈ dialect.keywords)) ∧
      (dialect.lexemes source).map (fun lexeme => lexeme.kind) =
        [.keyword, .whitespace, .identifier, .whitespace, .identifier, .whitespace, .punctuation] := by
  intro dialect source
  have hsorted : dialect.keywords.Sorted := by decide +kernel
  obtain ⟨hlexemes, -, -⟩ := dialect.lexemes_withKeywords hsorted .rust2018 source
  exact ⟨hsorted, hlexemes, by decide +kernel⟩

end RustLexer
