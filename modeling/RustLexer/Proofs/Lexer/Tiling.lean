import Mathlib.Data.List.Chain
import RustLexer.Proofs.Lexer.Run

/-! # Lexemes tile the source

The lexemes of a source stand one behind another, each takes at least one byte, and together they take
all of them. A lexer that reads on keeps this up (`Lexer.Run.tiling`); the whole list of lexemes then has
all the properties of a partition (`Dialect.tiles_lexemes`).
-/

namespace RustLexer

/-- The bytes of a source in a span. -/
def Span.textIn (source : Bytes) (span : Span) : Bytes :=
  (source.take span.stop.offset).drop span.start.offset

/-- Texts of adjacent spans join. -/
theorem Span.textIn_append (source : Bytes) {start middle stop : Position}
    (hstart : start.offset ≤ middle.offset) (hstop : middle.offset ≤ stop.offset) :
    (Span.mk start middle).textIn source ++ (Span.mk middle stop).textIn source =
      (Span.mk start stop).textIn source := by
  have hlength : stop.offset - start.offset =
      (middle.offset - start.offset) + (stop.offset - middle.offset) := by omega
  have hmiddle : middle.offset = start.offset + (middle.offset - start.offset) := by omega
  simp only [textIn, List.drop_take]
  rw [hlength, List.take_add, List.drop_drop, ← hmiddle]

/-- Lexemes that stand one behind another in a source, from one position to another. -/
inductive Tiling (source : Bytes) : Position → List Lexeme → Position → Prop
  | stop (position : Position) : Tiling source position [] position
  | step {start finish : Position} {lexeme : Lexeme} {lexemes : List Lexeme}
      (hstart : lexeme.span.start = start)
      (hlt : lexeme.span.start.offset < lexeme.span.stop.offset)
      (htext : lexeme.text = lexeme.span.textIn source)
      (htiling : Tiling source lexeme.span.stop lexemes finish) :
      Tiling source start (lexeme :: lexemes) finish

/-- A list of lexemes is a partition of a source. -/
structure Tiles (source : Bytes) (lexemes : List Lexeme) : Prop where
  start_lt_stop : ∀ lexeme ∈ lexemes, lexeme.span.start.offset < lexeme.span.stop.offset
  start_head : ∀ lexeme ∈ lexemes.head?, lexeme.span.start = ⟨0, 1, 1⟩
  adjacent : lexemes.IsChain fun lexeme next => lexeme.span.stop = next.span.start
  stop_last : ∀ lexeme ∈ lexemes.getLast?, lexeme.span.stop.offset = source.length
  text_eq : ∀ lexeme ∈ lexemes, lexeme.text = lexeme.span.textIn source
  texts_eq : lexemes.flatMap Lexeme.text = source
  eq_nil_iff : lexemes = [] ↔ source = []

namespace Tiling

variable {source : Bytes} {start finish : Position} {lexemes : List Lexeme}

theorem offset_le (h : Tiling source start lexemes finish) : start.offset ≤ finish.offset := by
  induction h with
  | stop => exact Nat.le_refl _
  | step hstart hlt _ _ ih => exact hstart ▸ Nat.le_trans (Nat.le_of_lt hlt) ih

theorem forall_mem (h : Tiling source start lexemes finish) :
    ∀ lexeme ∈ lexemes, lexeme.span.start.offset < lexeme.span.stop.offset ∧
      lexeme.text = lexeme.span.textIn source := by
  induction h with
  | stop => simp
  | step _ hlt htext _ ih => exact List.forall_mem_cons.mpr ⟨⟨hlt, htext⟩, ih⟩

theorem start_head (h : Tiling source start lexemes finish) :
    ∀ lexeme ∈ lexemes.head?, lexeme.span.start = start := by
  cases h with
  | stop => simp
  | step hstart => simpa using hstart

theorem stop_last (h : Tiling source start lexemes finish) :
    ∀ lexeme ∈ lexemes.getLast?, lexeme.span.stop = finish := by
  induction h with
  | stop => simp
  | step _ _ _ htiling ih =>
      cases htiling with
      | stop => simp
      | step => simpa using ih

theorem adjacent (h : Tiling source start lexemes finish) :
    lexemes.IsChain fun lexeme next => lexeme.span.stop = next.span.start := by
  induction h with
  | stop => exact .nil
  | step _ _ _ htiling ih =>
      refine ih.cons fun next hnext => ?_
      exact (htiling.start_head next hnext).symm

/-- The texts of the lexemes are the bytes of the source from the first to the last. -/
theorem texts_eq (h : Tiling source start lexemes finish) :
    lexemes.flatMap Lexeme.text = (Span.mk start finish).textIn source := by
  induction h with
  | stop position => simp [Span.textIn]
  | step hstart hlt htext htiling ih =>
      subst hstart
      rw [List.flatMap_cons, ih, htext]
      exact Span.textIn_append source (Nat.le_of_lt hlt) htiling.offset_le

/-- Lexemes from the start of a source to its end are a partition of it. -/
theorem tiles (h : Tiling source {} lexemes finish) (hfinish : finish.offset = source.length) :
    Tiles source lexemes := by
  have htexts : lexemes.flatMap Lexeme.text = source := by
    rw [h.texts_eq, Span.textIn, hfinish, List.take_length]
    rfl
  refine ⟨fun lexeme hmem => (h.forall_mem lexeme hmem).1, h.start_head, h.adjacent,
    fun lexeme hlast => by rw [h.stop_last lexeme hlast, hfinish],
    fun lexeme hmem => (h.forall_mem lexeme hmem).2, htexts, ?_, ?_⟩
  · rintro rfl
    exact htexts.symm
  · rintro rfl
    cases h with
    | stop => rfl
    | step hstart hlt _ htiling =>
        have hle := htiling.offset_le
        simp only [List.length_nil] at hfinish
        omega

end Tiling

namespace Lexer

variable {source : Bytes} {lexer next last : Lexer} {lexeme : Lexeme} {lexemes : List Lexeme}

/-- A lexer at the end of a source has read all of its bytes. -/
theorem offset_eq_length (h : lexer.Reads source) (hend : lexer.atEnd = true) :
    lexer.cursor.position.offset = source.length := by
  have hrest : runes (source.drop lexer.cursor.position.offset) = [] := by
    rw [← h.rest_eq]
    exact atEnd_iff.mp hend
  have hdrop := encode_runes (source.drop lexer.cursor.position.offset)
  rw [hrest, Rune.encode_nil] at hdrop
  exact Nat.le_antisymm h.trueIn.offset_le (List.drop_eq_nil_iff.mp hdrop.symm)

variable [XidClasses]

/-- The next lexeme has at least one byte. -/
theorem offset_lt_next (h : lexer.Reads source) (hnext : lexer.next? = some (lexeme, next)) :
    lexer.cursor.position.offset < next.cursor.position.offset := by
  obtain ⟨hne, -, -, -, rfl⟩ := next?_eq_some hnext
  have hpos : 0 < lexer.cut.length := lexer.cut_length_pos hne
  have hdecoded : ∀ rune ∈ lexer.cursor.rest, rune.Decoded := h.rest_eq ▸ decoded_of_mem_runes
  obtain ⟨rune, rest, hrest⟩ := List.exists_cons_of_ne_nil hne
  obtain ⟨length, hlength⟩ := Nat.exists_eq_succ_of_ne_zero (Nat.ne_of_gt hpos)
  have hbytes := (hdecoded rune (by simp [hrest])).length_bytes_pos
  simp only [Cursor.advance, Position.offset_after, hrest, hlength, List.take_succ_cons,
    Rune.encode_cons, List.length_append]
  omega

/-- The next lexeme has the bytes of the source in its span. -/
theorem text_next (h : lexer.Reads source) (hnext : lexer.next? = some (lexeme, next)) :
    lexeme.text = lexeme.span.textIn source := by
  obtain ⟨-, -, htext, hspan, rfl⟩ := next?_eq_some hnext
  have hsplit : runes (source.drop lexer.cursor.position.offset) =
      lexer.cursor.rest.take lexer.cut.length ++ lexer.cursor.rest.drop lexer.cut.length := by
    rw [List.take_append_drop, h.rest_eq]
  rw [htext, hspan, Span.textIn, List.drop_take, eq_encode_append_of_runes hsplit]
  simp [Cursor.advance, Position.offset_after]

theorem Run.tiling (hrun : Run lexer lexemes last) (h : lexer.Reads source) :
    Tiling source lexer.cursor.position lexemes last.cursor.position := by
  induction hrun with
  | stop lexer => exact .stop _
  | step hnext _ ih =>
      have hlt := offset_lt_next h hnext
      have htext := text_next h hnext
      obtain ⟨-, -, -, hspan, -⟩ := next?_eq_some hnext
      refine .step (by rw [hspan]) (by rw [hspan]; exact hlt) htext ?_
      rw [hspan]
      exact ih (reads_next h hnext)

end Lexer

/-- Whatever its bytes and whatever the keywords, reading a source comes to its end, and the lexemes are
a partition of it. -/
theorem Dialect.tiles_lexemes [XidClasses] (dialect : Dialect) (source : Bytes) :
    (Lexer.ofSource dialect source).drain.2.atEnd = true ∧
      Tiles source (dialect.lexemes source) := by
  have hrun := Lexer.run_drain (Lexer.ofSource dialect source)
  have hend := Lexer.atEnd_drain (Lexer.ofSource dialect source)
  have hreads : (Lexer.ofSource dialect source).Reads source := Cursor.Reads.ofSource source
  exact ⟨hend, (hrun.tiling hreads).tiles (Lexer.offset_eq_length (hrun.reads hreads) hend)⟩

end RustLexer
