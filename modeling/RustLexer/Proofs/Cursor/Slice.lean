import RustLexer.Proofs.Cursor.Reading

/-! # Cursors over a part of a source

Decoding is local: what stands before and behind a part of a source has no effect on how the part is read, as
long as the part starts and stops where decoding the source from its start comes to. A cursor over such a part
stops at the same places as decoding the source there (`Walk.advance_slice`), also where malformed sequences
stand at its ends. Every ASCII byte is such a place (`isBoundary_of_ascii`).
-/

namespace RustLexer

/-- An offset of a source that decoding from its start comes to. -/
def IsBoundary (source : Bytes) (offset : Nat) : Prop :=
  ∃ text, Walk source 0 text offset

section Ascii

variable {source : Bytes} {index : Nat} {byte : UInt8}

theorem isBoundary_of_ascii (h : source[index]? = some byte) (hascii : byte < 0x80) :
    IsBoundary source index := by
  obtain ⟨hlt, -⟩ := List.getElem?_eq_some_iff.mp h
  have hwalk : Walk source 0 (runes (source.take index))
      (0 + Rune.width (runes (source.take index))) := .of_runes (runes_take_append_drop h hascii)
  rw [Rune.width_runes, List.length_take_of_le (Nat.le_of_lt hlt), Nat.zero_add] at hwalk
  exact ⟨_, hwalk⟩

theorem Rune.decode?_of_ascii (h : source[index]? = some byte) (hascii : byte < 0x80) :
    decode? source index = some ⟨Char.ofNat byte.toNat, [byte]⟩ := by
  obtain ⟨hlt, rfl⟩ := List.getElem?_eq_some_iff.mp h
  rw [decode?, List.drop_eq_getElem_cons hlt]
  exact congrArg some (first_of_ascii hascii _)

end Ascii

namespace Walk

variable {source : Bytes} {start stop : Nat} {text : List Rune}

/-- A walk starts with the rune that is decoded where it starts, unless it is over there. -/
theorem head?_eq (h : Walk source start text stop) :
    text.head? = if start < stop then Rune.decode? source start else none := by
  cases h with
  | stop => rw [if_neg (Nat.lt_irrefl _), List.head?_nil]
  | @step _ _ byte rest text hrest hwalk =>
      have hpos := (Rune.first_decoded byte rest).length_bytes_pos
      have hlt := Nat.lt_of_lt_of_le (Nat.lt_add_of_pos_right hpos) hwalk.offset_le
      rw [if_pos hlt, Rune.decode?, hrest, List.head?_cons]

theorem eq_nil_iff (h : Walk source start text stop) : text = [] ↔ start = stop := by
  constructor
  · rintro rfl
    exact h.runes_eq.2.symm
  · intro hover
    have hhead := h.head?_eq.trans (if_neg (Nat.not_lt.mpr (Nat.le_of_eq hover.symm)))
    exact List.head?_eq_none_iff.mp hhead

/-- The part of a source that a walk goes over is decoded alike as a source of its own. -/
theorem runes_slice (h : Walk source start text stop) :
    runes ((source.take stop).drop start) = text := by
  have hlength : stop - start = (Rune.encode text).length := by
    rw [h.runes_eq.2, Rune.width_eq_length_encode, Nat.add_sub_cancel_left]
  rw [List.drop_take, hlength, h.drop_eq, List.take_left, h.runes_encode]

/-- A cursor over the part of a source that a walk goes over stops the walk where it stands, and has what is
left of the walk ahead. -/
theorem advance_slice (h : Walk source start text stop) (count : Nat) :
    let cursor := (Cursor.ofSource ((source.take stop).drop start)).advance count
    Walk source start (text.take count) (start + cursor.position.offset) ∧
      Walk source (start + cursor.position.offset) cursor.rest stop := by
  intro cursor
  have hrest : cursor.rest = text.drop count := congrArg (List.drop count) h.runes_slice
  have hoffset : cursor.position.offset = Rune.width (text.take count) := by
    change (Position.after {} ((runes _).take count)).offset = _
    rw [Position.offset_after, h.runes_slice, Rune.width_eq_length_encode, Nat.zero_add]
  rw [hrest, hoffset]
  rw [← List.take_append_drop count text] at h
  exact h.split

/-- A walk from where a walk starts to some offset on the way is the front of it. -/
theorem exists_take_eq {front : List Rune} {middle : Nat} (h : Walk source start text stop)
    (hfront : Walk source start front middle) (hle : middle ≤ stop) :
    ∃ count, text.take count = front := by
  obtain ⟨back, rfl, -⟩ := hfront.exists_append_of_le h hle
  exact ⟨front.length, List.take_left⟩

end Walk

/-- A cursor over the part of a source that a walk from a boundary goes over stands at the boundaries there,
and nowhere else. -/
theorem IsBoundary.exists_advance_iff {source : Bytes} {start stop : Nat} {text : List Rune}
    (hstart : IsBoundary source start) (h : Walk source start text stop) (offset : Nat) :
    (∃ count, ((Cursor.ofSource ((source.take stop).drop start)).advance count).position.offset =
        offset) ↔
      start + offset ≤ stop ∧ IsBoundary source (start + offset) := by
  obtain ⟨before, hbefore⟩ := hstart
  constructor
  · rintro ⟨count, rfl⟩
    obtain ⟨hfront, hback⟩ := h.advance_slice count
    exact ⟨hback.offset_le, _, hbefore.append hfront⟩
  · rintro ⟨hstop, other, hother⟩
    obtain ⟨front, -, hfront⟩ := hbefore.exists_append_of_le hother (Nat.le_add_right _ _)
    obtain ⟨count, hcount⟩ := h.exists_take_eq hfront hstop
    obtain ⟨hsame, -⟩ := h.advance_slice count
    rw [hcount] at hsame
    have hoffset := hsame.runes_eq.2.trans hfront.runes_eq.2.symm
    exact ⟨count, Nat.add_left_cancel hoffset⟩

/-- An ASCII byte is decoded to itself wherever it stands. A cursor over the part of a source between two
offsets that decoding comes to stands at just the offsets between them that decoding comes to. At each of them
it sees what the source is decoded to there, until it is at the end of the part. -/
theorem Cursor.visits_slice (source : Bytes) :
    (∀ index byte, source[index]? = some byte → byte < 0x80 →
      IsBoundary source index ∧ ∃ rune, Rune.decode? source index = some rune ∧
        rune.code = byte.toNat ∧ rune.bytes = [byte]) ∧
    ∀ start stop, IsBoundary source start → IsBoundary source stop → start ≤ stop →
      let cursor := ofSource ((source.take stop).drop start)
      (∀ offset, (∃ count, (cursor.advance count).position.offset = offset) ↔
        start + offset ≤ stop ∧ IsBoundary source (start + offset)) ∧
      ∀ count,
        let offset := start + (cursor.advance count).position.offset
        ((cursor.advance count).peek? 0 =
          if offset < stop then Rune.decode? source offset else none) ∧
        ((cursor.advance count).atEnd = true ↔ offset = stop) := by
  constructor
  · intro index byte hbyte hascii
    exact ⟨isBoundary_of_ascii hbyte hascii, _, Rune.decode?_of_ascii hbyte hascii,
      Rune.toNat_ofNat_of_ascii hascii, rfl⟩
  · rintro start stop hstart ⟨whole, hwhole⟩ hle cursor
    have ⟨before, hbefore⟩ := hstart
    obtain ⟨text, -, htext⟩ := hbefore.exists_append_of_le hwhole hle
    refine ⟨hstart.exists_advance_iff htext, fun count => ?_⟩
    obtain ⟨-, hback⟩ := htext.advance_slice count
    constructor
    · rw [← hback.head?_eq, peek?, List.head?_eq_getElem?]
    · rw [atEnd, List.isEmpty_iff]
      exact hback.eq_nil_iff

/-- A sequence that is cut short before a letter: the part starts between its two malformed bytes and stops
before another one. -/
theorem Cursor.visits_slice_malformed :
    let source : Bytes := [0xE2, 0x82, 0x61, 0xC3, 0xA9, 0xFF]
    let cursor := ofSource ((source.take 5).drop 1)
    (source[2]? = some 0x61 ∧ IsBoundary source 2) ∧ IsBoundary source 1 ∧ IsBoundary source 5 ∧
      (∃ count, (cursor.advance count).position.offset = 1) ∧
      (cursor.advance 2).peek? 0 = some ⟨'é', [0xC3, 0xA9]⟩ ∧ (cursor.advance 3).atEnd = true := by
  intro source cursor
  obtain ⟨hascii, hslice⟩ := visits_slice source
  have hletter : IsBoundary source 2 := (hascii 2 0x61 rfl (by decide)).1
  have hstart : IsBoundary source 1 := ⟨_, .step rfl (.stop _)⟩
  have hstop : IsBoundary source 5 :=
    ⟨_, .step rfl (.step rfl (.step rfl (.step rfl (.stop _))))⟩
  obtain ⟨hvisits, hsees⟩ := hslice 1 5 hstart hstop (by decide)
  have hoffset : (cursor.advance 2).position.offset = 2 := by decide +kernel
  have hpeek := (hsees 2).1
  rw [hoffset] at hpeek
  refine ⟨⟨rfl, hletter⟩, hstart, hstop, (hvisits 1).mpr ⟨by decide, hletter⟩, ?_, ?_⟩
  · rw [hpeek]
    decide +kernel
  · exact (hsees 3).2.mpr (by decide +kernel)

end RustLexer
