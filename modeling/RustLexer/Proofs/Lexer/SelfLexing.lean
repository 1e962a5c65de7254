import RustLexer.CodePoint.Unicode
import RustLexer.Proofs.Lexer.Run
import RustLexer.Proofs.Truncation.Construct

/-! # Reading a lexeme again

The text of a lexeme is a source of its own, and it has one lexeme: the same one. Whatever was looked at
behind the lexeme when it was read is gone there, and so is the place where it stood, but neither has
decided what it is.
-/

namespace RustLexer

namespace Lexer

/-- The text of the next lexeme is read as that lexeme alone. -/
theorem drain_ofSource_text [XidClasses] {lexer next : Lexer} {source : Bytes} {lexeme : Lexeme}
    (hreads : lexer.Reads source) (hnext : lexer.next? = some (lexeme, next)) :
    ∃ again, (ofSource lexer.dialect lexeme.text).drain.1 = [again] ∧
      again.toTag = lexeme.toTag ∧ again.text = lexeme.text := by
  obtain ⟨hne, htag, htext, -, -⟩ := next?_eq_some hnext
  have hdecoded : ∀ rune ∈ lexer.cursor.rest, rune.Decoded := by
    rw [hreads.rest_eq]
    exact decoded_of_mem_runes
  have hrunes : runes lexeme.text = lexer.cursor.rest.take lexer.cut.length := by
    rw [htext, hreads.rest_eq]
    exact runes_encode_take _ _
  let alone := ofSource lexer.dialect lexeme.text
  have hrest : alone.cursor.rest = lexer.cursor.rest.take lexer.cut.length := hrunes
  have hconstruct : alone.construct = lexer.construct := by
    rw [construct, hrest]
    exact Construct.ofText_take lexer.dialect.keywords hne hdecoded rfl
  have hcut : alone.cut = lexer.cut := by
    rw [cut, hconstruct, hrest]
    exact lexer.construct.cut_take lexer.dialect.keywords lexer.cursor.rest
  have halone : alone.next? = some ((alone.take alone.cut).1, (alone.take alone.cut).2) := by
    have hpos : 0 < lexer.cut.length := lexer.cut_length_pos hne
    have hend : alone.atEnd = false := by
      rw [atEnd_eq_false_iff, hrest, ne_eq, List.take_eq_nil_iff]
      exact not_or.mpr ⟨Nat.ne_of_gt hpos, hne⟩
    rw [next?, hend]
    rfl
  have hlast : (alone.take alone.cut).2.next? = none := by
    rw [next?_eq_none_iff]
    simp only [take, Cursor.advance, hcut, hrest]
    exact List.drop_eq_nil_of_le (List.length_take_le _ _)
  have hdrain := drain_of_next?_eq_some halone
  rw [drain_of_next?_eq_none hlast] at hdrain
  refine ⟨(alone.take alone.cut).1, congrArg Prod.fst hdrain, ?_, ?_⟩
  · rw [htag, ← hcut]
    rfl
  · rw [htext]
    simp only [take, hcut, hrest, List.take_take, Nat.min_self]

end Lexer

theorem Dialect.lexemes_text_of_mem [XidClasses] (dialect : Dialect) {source : Bytes} {lexeme : Lexeme}
    (h : lexeme ∈ dialect.lexemes source) :
    ∃ again, dialect.lexemes lexeme.text = [again] ∧
      again.toTag = lexeme.toTag ∧ again.text = lexeme.text := by
  obtain ⟨front, back, hsplit⟩ := List.append_of_mem h
  obtain ⟨reached, hrun, hdrain⟩ := Lexer.exists_run_of_drain_eq hsplit
  obtain ⟨next, hnext, -⟩ := Lexer.next?_of_drain_eq_cons hdrain
  have hreads := hrun.reads (Cursor.Reads.ofSource source)
  have hdialect : reached.dialect = dialect := hrun.dialect_eq
  have hagain := Lexer.drain_ofSource_text hreads hnext
  rw [hdialect] at hagain
  exact hagain

/-- Each lexeme of a source is the only lexeme of its text, with the same tag. -/
theorem Edition.lexemes_text [XidClasses] (source : Bytes) :
    ∃ lexemes, Edition.rust2018.lexemes source = .ok lexemes ∧
      ∀ lexeme ∈ lexemes, ∃ again, Edition.rust2018.lexemes lexeme.text = .ok [again] ∧
        again.toTag = lexeme.toTag ∧ again.text = lexeme.text := by
  refine ⟨_, rfl, fun lexeme hlexeme => ?_⟩
  obtain ⟨again, hagain, htag, htext⟩ := Dialect.lexemes_text_of_mem _ hlexeme
  refine ⟨again, ?_, htag, htext⟩
  rw [Edition.lexemes, Dialect.ofEdition, Except.map, hagain]

/-- The middle of a range is read as it was between the numbers. -/
theorem Edition.lexemes_text_range :
    ∃ again, Edition.rust2018.lexemes (Bytes.ofAscii "..=") = .ok [again] ∧
      again.kind = .operator ∧ again.symbol = .dotDotEq := by
  obtain ⟨lexemes, hlexemes, hagain⟩ := Edition.lexemes_text (Bytes.ofAscii "1..=2")
  have hread : Edition.rust2018.lexemes (Bytes.ofAscii "1..=2") = .ok
      [{ kind := .literal, text := Bytes.ofAscii "1", span := ⟨⟨0, 1, 1⟩, ⟨1, 1, 2⟩⟩ },
       { kind := .operator, symbol := .dotDotEq, text := Bytes.ofAscii "..=",
         span := ⟨⟨1, 1, 2⟩, ⟨4, 1, 5⟩⟩ },
       { kind := .literal, text := Bytes.ofAscii "2", span := ⟨⟨4, 1, 5⟩, ⟨5, 1, 6⟩⟩ }] := by
    decide +kernel
  obtain rfl := Except.ok.inj (hread.symm.trans hlexemes)
  obtain ⟨again, hlexed, htag, -⟩ := hagain _ (List.mem_cons_of_mem _ List.mem_cons_self)
  exact ⟨again, hlexed, congrArg Tag.kind htag, congrArg Tag.symbol htag⟩

end RustLexer
