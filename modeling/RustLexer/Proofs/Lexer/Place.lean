import RustLexer.Proofs.Lexer.Shape
import RustLexer.Proofs.Lexer.Tiling

/-! # Lexemes in their places

A lexeme is cut off from the runes that its source has from its start on, and others may stand behind it.
So whatever a cut says about the text that it is made in, the lexeme says about its source
(`Dialect.inPlace_of_mem`).
-/

namespace RustLexer

namespace Lexeme

/-- The runes of a source from a lexeme on. -/
def ahead (source : Bytes) (lexeme : Lexeme) : List Rune :=
  runes (source.drop lexeme.span.start.offset)

/-- The runes of a source behind a lexeme. -/
def behind (source : Bytes) (lexeme : Lexeme) : List Rune :=
  runes (source.drop lexeme.span.stop.offset)

theorem decoded_ahead (source : Bytes) (lexeme : Lexeme) :
    ∀ rune ∈ lexeme.ahead source, rune.Decoded :=
  decoded_of_mem_runes

/-- A lexeme stands in a source at a place that reading the source comes to, and the construct there is cut
off as that lexeme from the runes ahead. -/
structure InPlace [XidClasses] (dialect : Dialect) (source : Bytes) (lexeme : Lexeme) : Prop where
  exists_passed : ∃ passed, runes source = passed ++ lexeme.ahead source ∧
    lexeme.span.start = Position.after {} passed
  ahead_eq : lexeme.ahead source = runes lexeme.text ++ lexeme.behind source
  stop_eq : lexeme.span.stop = lexeme.span.start.after (runes lexeme.text)
  text_ne_nil : lexeme.text ≠ []
  cut_eq : (Construct.ofText (lexeme.span.start.offset == 0) (lexeme.ahead source)).cut
      dialect.keywords (lexeme.ahead source) =
    { tag := lexeme.toTag, length := (runes lexeme.text).length }

end Lexeme

variable [XidClasses]

/-- The lexeme that a lexer reads next stands in its place. -/
theorem Lexer.Run.inPlace_next {dialect : Dialect} {source : Bytes} {before : List Lexeme}
    {reached next : Lexer} {lexeme : Lexeme} (hrun : Run (ofSource dialect source) before reached)
    (hnext : reached.next? = some (lexeme, next)) : lexeme.InPlace dialect source := by
  have hreads : reached.Reads source := hrun.reads (Cursor.Reads.ofSource source)
  have hbehind : next.Reads source := reads_next hreads hnext
  obtain ⟨passed, hpassed, hposition⟩ := hrun.exists_passed
  obtain ⟨hne, htag, htext, hspan, rfl⟩ := next?_eq_some hnext
  have hstart : lexeme.span.start = reached.cursor.position := by rw [hspan]
  have hstop : lexeme.span.stop = (reached.cursor.advance reached.cut.length).position := by
    rw [hspan]
  have hahead : lexeme.ahead source = reached.cursor.rest := by
    rw [Lexeme.ahead, hstart, hreads.rest_eq]
  have hrest : lexeme.behind source = reached.cursor.rest.drop reached.cut.length := by
    rw [Lexeme.behind, hstop, ← hbehind.rest_eq]
    rfl
  have hrunes : runes lexeme.text = reached.cursor.rest.take reached.cut.length := by
    rw [htext, hreads.rest_eq]
    exact runes_encode_take _ _
  have hdecoded : ∀ rune ∈ reached.cursor.rest, rune.Decoded := by
    rw [hreads.rest_eq]
    exact decoded_of_mem_runes
  have hlength : reached.cut.length ≤ reached.cursor.rest.length :=
    Construct.cut_length_le _ hne hdecoded (Construct.ofText_markedIn _ _)
  have hdialect : reached.dialect = dialect := hrun.dialect_eq
  refine ⟨⟨passed, ?_, ?_⟩, ?_, ?_, ?_, ?_⟩
  · rw [hahead]
    exact hpassed
  · rw [hstart]
    exact hposition
  · rw [hahead, hrunes, hrest, List.take_append_drop]
  · rw [hstop, hstart, hrunes]
    rfl
  · intro hnil
    have hpos := reached.cut_length_pos hne
    rw [hnil, runes_nil, eq_comm, List.take_eq_nil_iff] at hrunes
    rcases hrunes with hzero | hnil
    · exact absurd hzero (Nat.ne_of_gt hpos)
    · exact hne hnil
  · rw [hahead, hstart, hrunes, List.length_take_of_le hlength, htag, ← hdialect]
    rfl

theorem Dialect.inPlace_of_mem {dialect : Dialect} {source : Bytes} {lexeme : Lexeme}
    (h : lexeme ∈ dialect.lexemes source) : lexeme.InPlace dialect source := by
  obtain ⟨before, behind, hsplit⟩ := List.append_of_mem h
  obtain ⟨reached, hrun, hdrain⟩ := Lexer.exists_run_of_drain_eq hsplit
  obtain ⟨next, hnext, -⟩ := Lexer.next?_of_drain_eq_cons hdrain
  exact hrun.inPlace_next hnext

namespace Lexeme.InPlace

variable {dialect : Dialect} {source : Bytes} {lexeme : Lexeme}

theorem runes_text_ne_nil (h : lexeme.InPlace dialect source) : runes lexeme.text ≠ [] := by
  intro hnil
  have htext := encode_runes lexeme.text
  rw [hnil, Rune.encode_nil] at htext
  exact h.text_ne_nil htext.symm

theorem start_trueIn (h : lexeme.InPlace dialect source) : lexeme.span.start.TrueIn source := by
  obtain ⟨passed, hpassed, hstart⟩ := h.exists_passed
  rw [hstart]
  exact (Position.TrueIn.initial source).after hpassed

theorem drop_start (h : lexeme.InPlace dialect source) :
    source.drop lexeme.span.start.offset =
      lexeme.text ++ source.drop lexeme.span.stop.offset := by
  rw [eq_encode_append_of_runes h.ahead_eq, encode_runes, Lexeme.behind, encode_runes]

theorem offset_stop (h : lexeme.InPlace dialect source) :
    lexeme.span.stop.offset = lexeme.span.start.offset + lexeme.text.length := by
  rw [h.stop_eq, Position.offset_after, encode_runes]

theorem offset_stop_le (h : lexeme.InPlace dialect source) :
    lexeme.span.stop.offset ≤ source.length := by
  have hlength := congrArg List.length h.drop_start
  have hpos := List.length_pos_iff.mpr h.text_ne_nil
  rw [List.length_append, List.length_drop, List.length_drop] at hlength
  have hstop := h.offset_stop
  omega

/-- The bytes of a lexeme are those that the source has there. -/
theorem getElem?_source (h : lexeme.InPlace dialect source) {n : Nat}
    (hn : n < lexeme.text.length) :
    source[lexeme.span.start.offset + n]? = lexeme.text[n]? := by
  rw [← List.getElem?_drop, h.drop_start, List.getElem?_append_left hn]

/-- The construct that a lexeme is, with its mark and its cut among the runes from the lexeme on. -/
theorem exists_construct (h : lexeme.InPlace dialect source) :
    ∃ construct : Construct,
      Construct.ofText (lexeme.span.start.offset == 0) (lexeme.ahead source) = construct ∧
      construct.MarkedIn (lexeme.ahead source) ∧
      (construct.cut dialect.keywords (lexeme.ahead source)).tag = lexeme.toTag ∧
      (construct.cut dialect.keywords (lexeme.ahead source)).length =
        (runes lexeme.text).length := by
  refine ⟨_, rfl, Construct.ofText_markedIn _ _, ?_, ?_⟩
  · rw [h.cut_eq]
  · rw [h.cut_eq]

theorem head?_ahead (h : lexeme.InPlace dialect source) :
    (lexeme.ahead source).head? = (runes lexeme.text).head? := by
  rw [h.ahead_eq, List.head?_append_of_ne_nil _ h.runes_text_ne_nil]

theorem take_ahead (h : lexeme.InPlace dialect source) :
    (lexeme.ahead source).take (runes lexeme.text).length = runes lexeme.text := by
  rw [h.ahead_eq, List.take_left]

theorem drop_ahead (h : lexeme.InPlace dialect source) :
    (lexeme.ahead source).drop (runes lexeme.text).length = lexeme.behind source := by
  rw [h.ahead_eq, List.drop_left]

/-- A lexeme takes from the runes ahead as many as its text has. -/
theorem split_ahead (h : lexeme.InPlace dialect source) {front back : List Rune}
    (hahead : lexeme.ahead source = front ++ back)
    (hlength : front.length = (runes lexeme.text).length) :
    runes lexeme.text = front ∧ lexeme.behind source = back := by
  rw [h.ahead_eq] at hahead
  exact List.append_inj hahead hlength.symm

end Lexeme.InPlace

/-- What holds of two lexemes in their places, where one starts with what stands behind the other, holds of
every two neighbours in a source. -/
theorem Dialect.isChain_lexemes {dialect : Dialect} {source : Bytes} {R : Lexeme → Lexeme → Prop}
    (h : ∀ lexeme next : Lexeme, lexeme.InPlace dialect source → next.InPlace dialect source →
      next.ahead source = lexeme.behind source → R lexeme next) :
    (dialect.lexemes source).IsChain R := by
  have hadjacent := (dialect.tiles_lexemes source).2.adjacent
  refine List.IsChain.imp_of_mem_imp (fun lexeme next hlexeme hnext hstop => ?_) hadjacent
  refine h lexeme next (inPlace_of_mem hlexeme) (inPlace_of_mem hnext) ?_
  rw [Lexeme.ahead, Lexeme.behind, hstop]

end RustLexer
