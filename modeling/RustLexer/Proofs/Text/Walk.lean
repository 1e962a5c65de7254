import RustLexer.Proofs.Text.Ascii

/-! # Places in a source

A place in a source is a byte offset that decoding from the start of the source comes to, with the line
and the column it is on. `Walk` is decoding as a relation on offsets of the source alone, and
`Position.TrueIn` says by counting bytes and walking what a position of a source has to be. Moving a true
position over a rune keeps it true (`Position.TrueIn.next`), and so does moving it over any number of the
runes to come (`Position.TrueIn.after`).
-/

namespace RustLexer

/-- What follows the rune at an offset of a source. -/
theorem Rune.drop_first {source : Bytes} {offset : Nat} {byte : UInt8} {rest : Bytes}
    (hrest : source.drop offset = byte :: rest) :
    source.drop (offset + (first byte rest).bytes.length) = afterFirst byte rest := by
  rw [← List.drop_drop, hrest, ← first_append_afterFirst byte rest, List.drop_left]

/-- Decoding a source from an offset, rune by rune, reads a text and comes to another offset. -/
inductive Walk (source : Bytes) : Nat → List Rune → Nat → Prop
  | stop (offset : Nat) : Walk source offset [] offset
  | step {offset finish : Nat} {byte : UInt8} {rest : Bytes} {text : List Rune}
      (hrest : source.drop offset = byte :: rest)
      (hwalk : Walk source (offset + (Rune.first byte rest).bytes.length) text finish) :
      Walk source offset (Rune.first byte rest :: text) finish

namespace Walk

variable {source : Bytes} {start middle finish : Nat} {front back text : List Rune}

theorem single {offset : Nat} {byte : UInt8} {rest : Bytes}
    (hrest : source.drop offset = byte :: rest) :
    Walk source offset [Rune.first byte rest] (offset + (Rune.first byte rest).bytes.length) :=
  .step hrest (.stop _)

theorem append (hfront : Walk source start front middle) (hback : Walk source middle back finish) :
    Walk source start (front ++ back) finish := by
  induction hfront with
  | stop offset => exact hback
  | step hrest _ ih => exact .step hrest (ih hback)

/-- Decoding reads the runes that the source has there. -/
theorem runes_eq (h : Walk source start text finish) :
    runes (source.drop start) = text ++ runes (source.drop finish) ∧
      finish = start + Rune.width text := by
  induction h with
  | stop offset => exact ⟨rfl, rfl⟩
  | @step offset finish byte rest text hrest _ ih =>
      obtain ⟨hruns, hfinish⟩ := ih
      rw [Rune.drop_first hrest] at hruns
      refine ⟨by rw [hrest, runes_cons, hruns, List.cons_append], ?_⟩
      rw [hfinish, Rune.width_cons, Nat.add_assoc]

/-- The runes that a source has at an offset are read by decoding it from there. -/
theorem of_runes {others : List Rune} (h : runes (source.drop start) = text ++ others) :
    Walk source start text (start + Rune.width text) := by
  induction text generalizing start with
  | nil => exact .stop start
  | cons rune text ih =>
      cases hrest : source.drop start with
      | nil => simp [hrest] at h
      | cons byte rest =>
          rw [hrest, runes_cons, List.cons_append] at h
          obtain ⟨rfl, hothers⟩ := List.cons.inj h
          rw [Rune.width_cons, ← Nat.add_assoc]
          exact .step hrest (ih (by rw [Rune.drop_first hrest, hothers]))

theorem offset_le (h : Walk source start text finish) : start ≤ finish := by
  rw [h.runes_eq.2]
  exact Nat.le_add_right _ _

/-- Of two walks from the same offset, the one that goes further goes on from the end of the other. -/
theorem exists_append_of_le (hfront : Walk source start front middle)
    (h : Walk source start text finish) (hle : middle ≤ finish) :
    ∃ back, text = front ++ back ∧ Walk source middle back finish := by
  induction hfront generalizing text with
  | stop => exact ⟨text, rfl, h⟩
  | @step offset middle byte rest front hrest hwalk ih =>
      cases h with
      | stop =>
          have hpos := (Rune.first_decoded byte rest).length_bytes_pos
          have hgone := hwalk.offset_le
          omega
      | step hrest' hwalk' =>
          obtain ⟨rfl, rfl⟩ := List.cons.inj (hrest.symm.trans hrest')
          obtain ⟨back, rfl, hback⟩ := ih hwalk' hle
          exact ⟨back, rfl, hback⟩

/-- A walk can be stopped behind each of its runes. -/
theorem split (h : Walk source start (front ++ back) finish) :
    Walk source start front (start + Rune.width front) ∧
      Walk source (start + Rune.width front) back finish := by
  obtain ⟨hruns, hfinish⟩ := h.runes_eq
  rw [List.append_assoc] at hruns
  have hfront := of_runes hruns
  have hle : start + Rune.width front ≤ finish := by
    rw [hfinish, Rune.width_append]
    omega
  obtain ⟨other, hother, hback⟩ := hfront.exists_append_of_le h hle
  obtain rfl := List.append_cancel_left hother
  exact ⟨hfront, hback⟩

/-- The runes of a walk are what their bytes are decoded to. -/
theorem runes_encode (h : Walk source start text finish) : runes (Rune.encode text) = text := by
  have hencode := runes_encode_take (source.drop start) text.length
  rwa [h.runes_eq.1, List.take_left] at hencode

/-- The bytes of a walk stand in the source between its ends. -/
theorem drop_eq (h : Walk source start text finish) :
    source.drop start = Rune.encode text ++ source.drop finish := by
  have hencode := eq_encode_append_of_runes h.runes_eq.1
  rwa [encode_runes] at hencode

end Walk

/-- Where the line of an offset starts: behind the last line feed before the offset, or at the start of
the source if there is none. -/
structure IsLineStart (source : Bytes) (offset start : Nat) : Prop where
  start_le : start ≤ offset
  opens : start = 0 ∨ source[start - 1]? = some 0x0A
  newline_notMem : 0x0A ∉ (source.take offset).drop start

/-- A position of a source: an offset that decoding comes to, the number of line feeds before it counted
from 1, and the number of runes between the start of its line and it counted from 1. -/
structure Position.TrueIn (source : Bytes) (position : Position) : Prop where
  offset_le : position.offset ≤ source.length
  boundary : ∃ text, Walk source 0 text position.offset
  line_eq : position.line = 1 + (source.take position.offset).count 0x0A
  column_eq : ∃ start text, IsLineStart source position.offset start ∧
    Walk source start text position.offset ∧ position.column = 1 + text.length

namespace Position.TrueIn

theorem initial (source : Bytes) : TrueIn source {} where
  offset_le := Nat.zero_le _
  boundary := ⟨[], .stop 0⟩
  line_eq := by simp
  column_eq := ⟨0, [], ⟨Nat.le_refl 0, Or.inl rfl, by simp⟩, .stop 0, rfl⟩

variable {source : Bytes} {position : Position} {byte : UInt8} {rest : Bytes}

theorem one_le_line (h : TrueIn source position) : 1 ≤ position.line := by
  rw [h.line_eq]
  exact Nat.le_add_right _ _

theorem one_le_column (h : TrueIn source position) : 1 ≤ position.column := by
  obtain ⟨start, text, -, -, hcolumn⟩ := h.column_eq
  rw [hcolumn]
  exact Nat.le_add_right _ _

/-- Moving over the rune at a true position gives a true position. -/
theorem next (h : TrueIn source position) (hrest : source.drop position.offset = byte :: rest) :
    TrueIn source (position.next (Rune.first byte rest)) := by
  generalize hrune : Rune.first byte rest = rune
  have hdecoded : rune.Decoded := hrune ▸ Rune.first_decoded byte rest
  have hdrop : source.drop position.offset = rune.bytes ++ Rune.afterFirst byte rest := by
    rw [hrest, ← hrune, Rune.first_append_afterFirst]
  have hsingle : Walk source position.offset [rune] (position.offset + rune.bytes.length) :=
    hrune ▸ Walk.single hrest
  have htake : source.take (position.offset + rune.bytes.length) =
      source.take position.offset ++ rune.bytes := by
    rw [List.take_add, hdrop, List.take_left]
  refine ⟨?_, ?_, ?_, ?_⟩
  · have hlength := congrArg List.length hdrop
    simp only [List.length_drop, List.length_append] at hlength
    have hpos := hdecoded.length_bytes_pos
    simp only [Position.next]
    omega
  · obtain ⟨text, hwalk⟩ := h.boundary
    exact ⟨text ++ [rune], hwalk.append hsingle⟩
  · simp only [Position.next, htake, List.count_append, hdecoded.count_newline_bytes]
    split
    next => rw [h.line_eq, Nat.add_assoc]
    next => exact h.line_eq
  · by_cases hnewline : rune.char = '\n'
    · -- A line starts behind the line feed, and no rune of it has been passed.
      have hbytes := hdecoded.bytes_of_newline hnewline
      refine ⟨position.offset + 1, [], ⟨?_, Or.inr ?_, ?_⟩, ?_, ?_⟩
      · simp [Position.next, hbytes]
      · have hbyte := congrArg List.head? hdrop
        simpa [hbytes, List.head?_drop] using hbyte
      · simp [Position.next, hbytes]
      · simpa [Position.next, hbytes] using Walk.stop (position.offset + 1)
      · simp [Position.next, hnewline]
    · -- The line is the one it was, with one more rune passed.
      obtain ⟨start, text, hstart, hwalk, hcolumn⟩ := h.column_eq
      refine ⟨start, text ++ [rune], ⟨?_, hstart.opens, ?_⟩, hwalk.append hsingle, ?_⟩
      · exact Nat.le_trans hstart.start_le (Nat.le_add_right _ _)
      · have hle : start ≤ (source.take position.offset).length := by
          rw [List.length_take, Nat.min_eq_left h.offset_le]
          exact hstart.start_le
        simp only [Position.next, htake, List.drop_append_of_le_length hle, List.mem_append, not_or]
        exact ⟨hstart.newline_notMem, hdecoded.newline_notMem_bytes hnewline⟩
      · simp only [Position.next, if_neg hnewline, hcolumn, List.length_append,
          List.length_singleton, Nat.add_assoc]

/-- Moving over some of the runes to come gives a true position. -/
theorem after {text others : List Rune} (h : TrueIn source position)
    (hruns : runes (source.drop position.offset) = text ++ others) :
    TrueIn source (position.after text) := by
  induction text generalizing position with
  | nil => exact h
  | cons rune text ih =>
      cases hrest : source.drop position.offset with
      | nil => simp [hrest] at hruns
      | cons byte rest =>
          rw [hrest, runes_cons, List.cons_append] at hruns
          obtain ⟨hrune, hothers⟩ := List.cons.inj hruns
          subst hrune
          refine ih (h.next hrest) ?_
          rw [← hothers, ← Rune.drop_first hrest]
          rfl

end Position.TrueIn

end RustLexer
