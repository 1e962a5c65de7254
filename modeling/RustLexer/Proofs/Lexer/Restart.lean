import RustLexer.CodePoint.Unicode
import RustLexer.Proofs.Lexer.Tiling

/-! # Restarting the lexer

Reading can be taken up again at any lexeme: the bytes from there on, read as a source of their own, have
the same lexemes, at positions that only have to be counted from the new start. The exception is a
shebang, which stands at the start of a source alone. `Lexer.Restarted` relates a lexer on the part to
one on the whole, one lexeme of both keeps it (`Lexer.Restarted.next`), and so both yield the same.
-/

namespace RustLexer

/-- The text starts with `#!`, and not with `#![`, which opens an inner attribute. -/
def HasShebang (source : Bytes) : Prop :=
  Bytes.ofAscii "#!" <+: source ∧ ¬ Bytes.ofAscii "#![" <+: source

instance (source : Bytes) : Decidable (HasShebang source) :=
  inferInstanceAs (Decidable (_ ∧ _))

theorem startsShebang_runes_iff (source : Bytes) :
    Comment.startsShebang (runes source) = true ↔ HasShebang source := by
  have hmark : startsWith (runes source) ['#', '!'] = true ↔ Bytes.ofAscii "#!" <+: source :=
    startsWith_runes_iff (by simp) source
  have hattribute : startsWith (runes source) ['#', '!', '['] = true ↔
      Bytes.ofAscii "#![" <+: source := startsWith_runes_iff (by simp) source
  rw [HasShebang, ← hmark, ← hattribute, Comment.startsShebang, charAt?]
  cases runes source with
  | nil => simp [startsWith]
  | cons first rest =>
      cases rest with
      | nil => simp [startsWith]
      | cons second rest => cases rest <;> simp [startsWith]; grind

/-- The lexeme of a part of a source that starts at `origin`, with its place in the whole. -/
def Lexeme.shift (origin : Position) (lexeme : Lexeme) : Lexeme :=
  { lexeme with span := ⟨origin.shift lexeme.span.start, origin.shift lexeme.span.stop⟩ }

namespace Position

theorem shift_next (origin : Position) {position : Position} (rune : Rune)
    (hline : 1 ≤ position.line) (hcolumn : 1 ≤ position.column) :
    origin.shift (position.next rune) = (origin.shift position).next rune := by
  by_cases hnewline : rune.char = '\n'
  · have hnext : position.line + 1 ≠ 1 := by omega
    simp only [shift, next, hnewline, if_true, if_neg hnext, mk.injEq, and_true]
    omega
  · simp only [shift, next, hnewline, if_false, mk.injEq]
    refine ⟨Nat.add_assoc _ _ _ |>.symm, trivial, ?_⟩
    split
    next => omega
    next => rfl

theorem one_le_line_next {position : Position} (h : 1 ≤ position.line) (rune : Rune) :
    1 ≤ (position.next rune).line := by
  simp only [next]
  split <;> omega

theorem one_le_column_next {position : Position} (h : 1 ≤ position.column) (rune : Rune) :
    1 ≤ (position.next rune).column := by
  simp only [next]
  split <;> omega

theorem shift_after (origin : Position) {position : Position} (text : List Rune)
    (hline : 1 ≤ position.line) (hcolumn : 1 ≤ position.column) :
    origin.shift (position.after text) = (origin.shift position).after text := by
  induction text generalizing position with
  | nil => rfl
  | cons rune text ih =>
      rw [after_cons, after_cons, ih (one_le_line_next hline rune) (one_le_column_next hcolumn rune),
        shift_next origin rune hline hcolumn]

end Position

namespace Lexer

variable [XidClasses]

/-- A lexer on a part of a source that starts at `origin`, and one on the whole at the same place. -/
structure Restarted (origin : Position) (part whole : Lexer) : Prop where
  dialect_eq : part.dialect = whole.dialect
  rest_eq : part.cursor.rest = whole.cursor.rest
  position_eq : whole.cursor.position = origin.shift part.cursor.position
  construct_eq : part.construct = whole.construct

namespace Restarted

variable {origin : Position} {part whole : Lexer} {source : Bytes}

theorem cut_eq (h : Restarted origin part whole) : part.cut = whole.cut := by
  rw [cut, cut, h.construct_eq, h.dialect_eq, h.rest_eq]

theorem next (h : Restarted origin part whole) (hreads : part.Reads source) {lexeme : Lexeme}
    {part' : Lexer} (hnext : part.next? = some (lexeme, part')) :
    ∃ whole', whole.next? = some (lexeme.shift origin, whole') ∧ Restarted origin part' whole' := by
  have hlt := offset_lt_next hreads hnext
  obtain ⟨hne, htag, htext, hspan, rfl⟩ := next?_eq_some hnext
  have hend : whole.atEnd = false := by
    rw [atEnd_eq_false_iff, ← h.rest_eq]
    exact hne
  have hline := hreads.trueIn.one_le_line
  have hcolumn := hreads.trueIn.one_le_column
  have hposition : (whole.cursor.advance whole.cut.length).position =
      origin.shift (part.cursor.advance part.cut.length).position := by
    simp only [Cursor.advance, ← h.cut_eq, ← h.rest_eq, h.position_eq]
    exact (Position.shift_after origin _ hline hcolumn).symm
  refine ⟨{ whole with cursor := whole.cursor.advance whole.cut.length }, ?_, ?_⟩
  · have hlexeme : (whole.take whole.cut).1 = lexeme.shift origin := by
      cases lexeme with | mk tag text span =>
      simp only at htag htext hspan
      subst htag htext hspan
      simp only [take, Lexeme.shift, h.cut_eq, h.rest_eq, hposition, h.position_eq]
    rw [next?, hend, ← hlexeme]
    rfl
  · refine ⟨h.dialect_eq, ?_, hposition, ?_⟩
    · simp only [Cursor.advance, h.cut_eq, h.rest_eq]
    · -- Both have left the start of their source, so neither can be at a shebang.
      have hpart : (part.cursor.advance part.cut.length).atStart = false := by
        simp only at hlt
        simp only [Cursor.atStart, beq_eq_false_iff_ne]
        omega
      have hwhole : (whole.cursor.advance whole.cut.length).atStart = false := by
        simp only at hlt
        simp only [Cursor.atStart, beq_eq_false_iff_ne, hposition, Position.shift]
        omega
      simp only [construct, hpart, hwhole]
      simp only [Cursor.advance, h.cut_eq, h.rest_eq]

theorem drain (h : Restarted origin part whole) (hreads : part.Reads source) :
    whole.drain.1 = part.drain.1.map (Lexeme.shift origin) := by
  induction part using next_induction generalizing whole with
  | stop part hnext =>
      have hwhole : whole.next? = none := by
        rw [next?_eq_none_iff, ← h.rest_eq]
        exact next?_eq_none_iff.mp hnext
      rw [drain_of_next?_eq_none hnext, drain_of_next?_eq_none hwhole]
      rfl
  | step part lexeme part' hnext ih =>
      obtain ⟨whole', hwhole, hrestarted⟩ := h.next hreads hnext
      rw [drain_of_next?_eq_some hnext, drain_of_next?_eq_some hwhole,
        ih hrestarted (reads_next hreads hnext)]
      rfl

end Restarted

end Lexer

/-- Reading a source from one of its lexemes on gives that lexeme and the ones behind it, with positions
counted from there; it must be the first one, or not be taken for a shebang. -/
theorem Dialect.drop_lexemes [XidClasses] (dialect : Dialect) (source : Bytes) {index : Nat} {lexeme : Lexeme}
    (hlexeme : (dialect.lexemes source)[index]? = some lexeme)
    (hshebang : index = 0 ∨ ¬ HasShebang (source.drop lexeme.span.start.offset)) :
    (dialect.lexemes source).drop index =
      (dialect.lexemes (source.drop lexeme.span.start.offset)).map
        (Lexeme.shift lexeme.span.start) := by
  obtain ⟨hindex, hget⟩ := List.getElem?_eq_some_iff.mp hlexeme
  have hsplit : (Lexer.ofSource dialect source).drain.1 =
      (dialect.lexemes source).take index ++ (dialect.lexemes source).drop index :=
    (List.take_append_drop index _).symm
  obtain ⟨reached, hrun, hdrain⟩ := Lexer.exists_run_of_drain_eq hsplit
  have hreads : reached.Reads source := hrun.reads (Cursor.Reads.ofSource source)
  have hcons : reached.drain.1 = lexeme :: (dialect.lexemes source).drop (index + 1) := by
    rw [hdrain, List.drop_eq_getElem_cons hindex, hget]
  obtain ⟨next, hnext, -⟩ := Lexer.next?_of_drain_eq_cons hcons
  obtain ⟨-, -, -, hspan, -⟩ := Lexer.next?_eq_some hnext
  have hstart : lexeme.span.start = reached.cursor.position := by rw [hspan]
  rw [hstart] at hshebang ⊢
  rw [← hdrain]
  refine Lexer.Restarted.drain ⟨hrun.dialect_eq.symm, hreads.rest_eq.symm, ?_, ?_⟩
    (Cursor.Reads.ofSource _)
  · simp [Lexer.ofSource, Cursor.ofSource, Position.shift]
  · rcases hshebang with rfl | hshebang
    · cases hrun with
      | stop => rfl
    · have hrest : Comment.startsShebang reached.cursor.rest = false := by
        rw [hreads.rest_eq, Bool.eq_false_iff, ne_eq, startsShebang_runes_iff]
        exact hshebang
      simp only [Lexer.construct]
      rw [Construct.ofText_of_not_shebang hrest, hreads.rest_eq]
      apply Construct.ofText_of_not_shebang
      rw [Lexer.ofSource, Cursor.ofSource, ← hreads.rest_eq]
      exact hrest

/-- An inner attribute in the middle of a line is read again as it was. -/
theorem Dialect.drop_lexemes_attribute :
    let dialect : Dialect := { keywords := keywords2018 }
    let source := Bytes.ofAscii "x\ny#![a]"
    (dialect.lexemes source)[3]?.map (fun lexeme => lexeme.span.start) = some ⟨3, 2, 2⟩ ∧
      ¬ HasShebang (source.drop 3) ∧
      (dialect.lexemes source).drop 3 =
        (dialect.lexemes (source.drop 3)).map (Lexeme.shift ⟨3, 2, 2⟩) := by
  intro dialect source
  have hlexeme : (dialect.lexemes source)[3]? =
      some { kind := .punctuation, symbol := .pound, text := Bytes.ofAscii "#",
             span := ⟨⟨3, 2, 2⟩, ⟨4, 2, 3⟩⟩ } := by decide +kernel
  have hshebang : ¬ HasShebang (source.drop 3) := by decide +kernel
  refine ⟨by rw [hlexeme]; rfl, hshebang, ?_⟩
  exact Dialect.drop_lexemes dialect source hlexeme (Or.inr hshebang)

end RustLexer
