import RustLexer.CodePoint.Unicode
import RustLexer.Proofs.Checker.Offset
import RustLexer.Proofs.Lexer.Restart

/-! # Locating faults

A byte of a lexeme's text is located by walking over the text alone and shifting the position found there
to the start of the lexeme. That is the position which a walk over the whole source comes to
(`Lexeme.InPlace.firstReaches_locate`), and for the byte that a fault is at it is exactly that byte's
(`Dialect.locate_lexemes`).
-/

namespace RustLexer

namespace Position

@[simp] theorem shift_initial (origin : Position) : origin.shift {} = origin := by
  cases origin
  simp [shift]

/-- Moving over a part of a source is moving over the whole from where the part starts. -/
theorem shift_upTo (origin : Position) {position : Position} (offset : Nat) (text : List Rune)
    (hline : 1 ≤ position.line) (hcolumn : 1 ≤ position.column) :
    origin.shift (position.upTo offset text) =
      (origin.shift position).upTo (origin.offset + offset) text := by
  induction text generalizing position with
  | nil => rfl
  | cons rune rest ih =>
      have hbefore : (origin.shift position).offset < origin.offset + offset ↔
          position.offset < offset := Nat.add_lt_add_iff_left
      rw [upTo, upTo]
      simp only [hbefore]
      split
      next =>
        rw [← shift_next origin rune hline hcolumn]
        exact ih (one_le_line_next hline rune) (one_le_column_next hcolumn rune)
      next => rfl

/-- Moving up to an offset passes the first runes, as many as it takes to reach the offset. -/
theorem exists_upTo_eq (position : Position) (offset : Nat) (text : List Rune) :
    ∃ count ≤ text.length, position.upTo offset text = position.after (text.take count) ∧
      (∀ passed < count, (position.after (text.take passed)).offset < offset) ∧
      (offset ≤ (position.after (text.take count)).offset ∨ count = text.length) := by
  induction text generalizing position with
  | nil => exact ⟨0, Nat.le_refl 0, rfl, by simp, Or.inr rfl⟩
  | cons rune rest ih =>
      rw [upTo]
      split
      next hbefore =>
        obtain ⟨count, hle, hposition, hpassed, hreached⟩ := ih (position.next rune)
        refine ⟨count + 1, Nat.succ_le_succ hle, hposition, fun passed hlt => ?_, ?_⟩
        · cases passed with
          | zero => exact hbefore
          | succ passed => exact hpassed passed (Nat.lt_of_succ_lt_succ hlt)
        · rw [List.length_cons, Nat.add_right_cancel_iff]
          exact hreached
      next hreached =>
        exact ⟨0, Nat.zero_le _, rfl, by simp, Or.inl (Nat.not_lt.mp hreached)⟩

/-- Each rune that is passed moves the offset on. -/
theorem offset_after_take_lt (position : Position) {text : List Rune}
    (hdecoded : ∀ rune ∈ text, rune.Decoded) {count : Nat} (h : count < text.length) :
    (position.after (text.take count)).offset < (position.after text).offset := by
  have hpos := (hdecoded _ (List.getElem_mem h)).length_bytes_pos
  have hsplit := List.take_append_drop count text
  rw [List.drop_eq_getElem_cons h] at hsplit
  have hlength := congrArg (fun text => (Rune.encode text).length) hsplit
  simp only [Rune.encode_append, Rune.encode_cons, List.length_append] at hlength
  rw [offset_after, offset_after]
  omega

/-- Moving up to where a rune starts stops there. -/
theorem upTo_width (position : Position) {text : List Rune}
    (hdecoded : ∀ rune ∈ text, rune.Decoded) (count : Nat) :
    position.upTo (position.offset + Rune.width (text.take count)) text =
      position.after (text.take count) := by
  induction text generalizing position count with
  | nil => simp [upTo]
  | cons rune rest ih =>
      obtain ⟨hrune, hrest⟩ := List.forall_mem_cons.mp hdecoded
      cases count with
      | zero => simp [upTo]
      | succ count =>
          have hpos := hrune.length_bytes_pos
          rw [List.take_succ_cons, Rune.width_cons, upTo, if_pos (by omega), ← Nat.add_assoc,
            after_cons]
          exact ih (position.next rune) hrest count

end Position

/-- The position of a cursor, moved over a source rune by rune, when it first reaches an offset. -/
def Cursor.FirstReaches (source : Bytes) (offset : Nat) (position : Position) : Prop :=
  ∃ count, ((ofSource source).advance count).position = position ∧ offset ≤ position.offset ∧
    ∀ passed < count, ((ofSource source).advance passed).position.offset < offset

/-- A byte of a lexeme is located by moving to it from where the lexeme starts. -/
theorem Lexeme.locate_eq_upTo (lexeme : Lexeme) (offset : Nat) :
    lexeme.locate offset =
      lexeme.span.start.upTo (lexeme.span.start.offset + offset) (runes lexeme.text) := by
  rw [locate, Position.shift_upTo _ _ _ (Nat.le_refl 1) (Nat.le_refl 1), Position.shift_initial]

/-- The position located for the start of a rune is that of the rune. -/
theorem Lexeme.locate_width (lexeme : Lexeme) (count : Nat) :
    lexeme.locate (Rune.width ((runes lexeme.text).take count)) =
      lexeme.span.start.after ((runes lexeme.text).take count) := by
  rw [locate_eq_upTo]
  exact lexeme.span.start.upTo_width decoded_of_mem_runes count

/-- Where a code point starts or the text ends, exactly that byte is located. -/
theorem Lexeme.offset_locate {lexeme : Lexeme} {offset : Nat} {front : List Rune}
    (hwalk : Walk lexeme.text 0 front offset) :
    (lexeme.locate offset).offset = lexeme.span.start.offset + offset := by
  obtain ⟨hruns, hoffset⟩ := hwalk.runes_eq
  rw [List.drop_zero] at hruns
  have hfront : (runes lexeme.text).take front.length = front := by
    rw [hruns, List.take_left]
  have hlocate := lexeme.locate_width front.length
  rw [hfront] at hlocate
  rw [hoffset, Nat.zero_add, hlocate, Position.offset_after, Rune.width_eq_length_encode]

namespace Lexeme.InPlace

variable [XidClasses] {dialect : Dialect} {source : Bytes} {lexeme : Lexeme} {offset : Nat}

/-- A position behind some of the runes of a lexeme is a true one of the source. -/
theorem trueIn_after (h : lexeme.InPlace dialect source) (count : Nat) :
    (lexeme.span.start.after ((runes lexeme.text).take count)).TrueIn source := by
  apply h.start_trueIn.after
  change lexeme.ahead source = _ ++ ((runes lexeme.text).drop count ++ lexeme.behind source)
  rw [← List.append_assoc, List.take_append_drop]
  exact h.ahead_eq

theorem locate_trueIn (h : lexeme.InPlace dialect source) (offset : Nat) :
    (lexeme.locate offset).TrueIn source := by
  obtain ⟨count, -, hposition, -⟩ := lexeme.span.start.exists_upTo_eq
    (lexeme.span.start.offset + offset) (runes lexeme.text)
  rw [locate_eq_upTo, hposition]
  exact h.trueIn_after count

/-- Locating a byte of a lexeme finds what a walk over the whole source finds. -/
theorem firstReaches_locate (h : lexeme.InPlace dialect source)
    (hle : offset ≤ lexeme.text.length) :
    Cursor.FirstReaches source (lexeme.span.start.offset + offset) (lexeme.locate offset) := by
  obtain ⟨passed, hpassed, hstart⟩ := h.exists_passed
  obtain ⟨count, hcount, hposition, hbefore, hreached⟩ := lexeme.span.start.exists_upTo_eq
    (lexeme.span.start.offset + offset) (runes lexeme.text)
  rw [h.ahead_eq] at hpassed
  have hdecoded : ∀ rune ∈ runes source, rune.Decoded := decoded_of_mem_runes
  rw [hpassed] at hdecoded
  have hadvance : ∀ more ≤ (runes lexeme.text).length,
      ((Cursor.ofSource source).advance (passed.length + more)).position =
        lexeme.span.start.after ((runes lexeme.text).take more) := by
    intro more hmore
    change Position.after {} ((runes source).take (passed.length + more)) = _
    rw [hpassed, List.take_length_add_append, List.take_append_of_le_length hmore,
      Position.after_append, ← hstart]
  rw [locate_eq_upTo, hposition]
  refine ⟨passed.length + count, hadvance count hcount, ?_, fun other hother => ?_⟩
  · rcases hreached with hreached | hend
    · exact hreached
    · rw [hend, List.take_length, Position.offset_after, encode_runes]
      omega
  · rcases Nat.lt_or_ge other passed.length with hearly | hlate
    · -- The cursor has not come to the lexeme yet.
      have hlt := Position.offset_after_take_lt {} (List.forall_mem_append.mp hdecoded).1 hearly
      rw [← hstart] at hlt
      change (Position.after {} ((runes source).take other)).offset < _
      rw [hpassed, List.take_append_of_le_length (Nat.le_of_lt hearly)]
      omega
    · obtain ⟨more, rfl⟩ := Nat.exists_eq_add_of_le hlate
      have hmore : more < count := Nat.lt_of_add_lt_add_left hother
      rw [hadvance more (Nat.le_of_lt (Nat.lt_of_lt_of_le hmore hcount))]
      exact hbefore more hmore

/-- A fault stands at a byte of the lexeme and is located there. -/
theorem locate_of_standsIn (h : lexeme.InPlace dialect source) {fault : Fault}
    (hfault : fault.StandsIn (runes lexeme.text)) :
    (lexeme.locate fault.offset).offset = lexeme.span.start.offset + fault.offset ∧
      lexeme.span.start.offset + fault.offset < lexeme.span.stop.offset := by
  obtain ⟨count, hlt, hoffset⟩ := hfault
  have hbefore := lexeme.span.start.offset_after_take_lt decoded_of_mem_runes hlt
  rw [← h.stop_eq, Position.offset_after, ← Rune.width_eq_length_encode, ← hoffset] at hbefore
  refine ⟨?_, hbefore⟩
  rw [hoffset, lexeme.locate_width, Position.offset_after, Rune.width_eq_length_encode]

end Lexeme.InPlace

/-- Every byte of a lexeme is located where a walk over the whole source comes to it, and every diagnostic
is that of a fault of a lexeme, with the span of that lexeme and the true position of a rune in it. -/
theorem Dialect.locate_lexemes [XidClasses] (dialect : Dialect) (source : Bytes) :
    (∀ lexeme ∈ dialect.lexemes source, ∀ offset ≤ lexeme.text.length,
      Cursor.FirstReaches source (lexeme.span.start.offset + offset) (lexeme.locate offset) ∧
      (lexeme.locate offset).TrueIn source ∧
      ∀ front, Walk lexeme.text 0 front offset →
        (lexeme.locate offset).offset = lexeme.span.start.offset + offset) ∧
    ∀ diagnostic ∈ (({} : Checker).checkAll (dialect.lexemes source)).diagnostics,
      ∃ lexeme ∈ dialect.lexemes source, ∃ fault, lexeme.fault? = some fault ∧
        diagnostic.cause = fault.cause ∧ diagnostic.span = lexeme.span ∧
        diagnostic.position.TrueIn source ∧
        diagnostic.position.offset = lexeme.span.start.offset + fault.offset ∧
        diagnostic.span.start.offset ≤ diagnostic.position.offset ∧
        diagnostic.position.offset < diagnostic.span.stop.offset := by
  constructor
  · intro lexeme hlexeme offset hoffset
    have hplace := inPlace_of_mem hlexeme
    exact ⟨hplace.firstReaches_locate hoffset, hplace.locate_trueIn offset,
      fun _ => Lexeme.offset_locate⟩
  · intro diagnostic hdiagnostic
    rw [← Array.mem_toList_iff, Checker.diagnostics_checkAll] at hdiagnostic
    obtain ⟨lexeme, hlexeme, hreport⟩ := List.mem_filterMap.mp hdiagnostic
    obtain ⟨fault, hfault, rfl⟩ := Option.map_eq_some_iff.mp hreport
    have hplace := inPlace_of_mem hlexeme
    obtain ⟨hlocate, hlt⟩ := hplace.locate_of_standsIn (dialect.standsIn_of_fault? hlexeme hfault)
    refine ⟨lexeme, hlexeme, fault, hfault, rfl, rfl, hplace.locate_trueIn _, hlocate, ?_, ?_⟩
    · exact Nat.le_trans (Nat.le_add_right _ _) (Nat.le_of_eq hlocate.symm)
    · exact Nat.lt_of_le_of_lt (Nat.le_of_eq hlocate) hlt

/-- An unknown escape on the second line of a string, behind a character of two bytes. -/
theorem Dialect.locate_lexemes_escape :
    let dialect : Dialect := { keywords := keywords2018 }
    let source : Bytes := [0x3D, 0x22, 0x61, 0x0A, 0xC3, 0xA9, 0x5C, 0x71, 0x22]
    let lexeme : Lexeme :=
      { kind := .literal, literal := .string, text := source.drop 1,
        span := ⟨⟨1, 1, 2⟩, ⟨9, 2, 5⟩⟩ }
    let diagnostic : Diagnostic :=
      { cause := .escape (.unknown [0x71]), span := lexeme.span, position := ⟨6, 2, 2⟩ }
    lexeme ∈ dialect.lexemes source ∧
      (4 ≤ lexeme.text.length ∧ Cursor.FirstReaches source 5 (lexeme.locate 4) ∧
        lexeme.locate 4 = ⟨6, 2, 2⟩) ∧
      ((∃ front, Walk lexeme.text 0 front 3) ∧ (lexeme.locate 3).offset = 4) ∧
      diagnostic ∈ (({} : Checker).checkAll (dialect.lexemes source)).diagnostics ∧
      diagnostic.position.TrueIn source := by
  intro dialect source lexeme diagnostic
  obtain ⟨hlocate, hreport⟩ := dialect.locate_lexemes source
  have hlexeme : lexeme ∈ dialect.lexemes source := by decide +kernel
  have hwalk : ∃ front, Walk lexeme.text 0 front 3 :=
    ⟨_, .step rfl (.step rfl (.step rfl (.stop _)))⟩
  have hdiagnostic : diagnostic ∈
      (({} : Checker).checkAll (dialect.lexemes source)).diagnostics := by
    decide +kernel
  obtain ⟨front, hfront⟩ := hwalk
  obtain ⟨-, -, -, -, -, -, htrue, -⟩ := hreport diagnostic hdiagnostic
  refine ⟨hlexeme, ⟨by decide, (hlocate lexeme hlexeme 4 (by decide)).1, by decide +kernel⟩,
    ⟨⟨front, hfront⟩, (hlocate lexeme hlexeme 3 (by decide)).2.2 front hfront⟩, hdiagnostic, htrue⟩

end RustLexer
