import RustLexer.CodePoint.Unicode
import RustLexer.Proofs.Lexer.Restart
import RustLexer.Proofs.LineFeed.Cut

/-! # Texts joined by a line feed

Two texts with a line feed between them are read as the two texts on their own, if the first leaves
nothing open at its end and the second does not go on with the white space: nothing that follows is looked
at to tell a lexeme of the first text, and nothing is kept from it for the second.
`Lexer.Prolonged` relates a lexer on the first text to one on the joined text, and one lexeme of both keeps
it (`Lexer.Prolonged.next`); behind the line feed, the second text is read from its start again.
-/

namespace RustLexer

/-- A position of a text that is put below a number of whole lines. -/
def Position.below (bytes lines : Nat) (position : Position) : Position :=
  { position with offset := position.offset + bytes, line := position.line + lines }

/-- A lexeme of a text that is put below a number of whole lines. -/
def Lexeme.below (bytes lines : Nat) (lexeme : Lexeme) : Lexeme :=
  { lexeme with
    span := ⟨lexeme.span.start.below bytes lines, lexeme.span.stop.below bytes lines⟩ }

/-- Behind a line feed, columns count from 1 as at the start of a source. -/
theorem Position.shift_eq_below {position : Position} (hline : 1 ≤ position.line)
    (hcolumn : 1 ≤ position.column) (bytes lines : Nat) :
    shift ⟨bytes, lines + 1, 1⟩ position = position.below bytes lines := by
  simp only [shift, below, mk.injEq]
  refine ⟨Nat.add_comm _ _, by omega, ?_⟩
  split
  next => omega
  next => rfl

theorem Dialect.map_shift_lexemes [XidClasses] (dialect : Dialect) (source : Bytes) (bytes lines : Nat) :
    (dialect.lexemes source).map (Lexeme.shift ⟨bytes, lines + 1, 1⟩) =
      (dialect.lexemes source).map (Lexeme.below bytes lines) := by
  have hrun := Lexer.run_drain (Lexer.ofSource dialect source)
  apply List.map_congr_left
  intro lexeme hlexeme
  obtain ⟨hstart, hstop⟩ := hrun.trueIn (Cursor.Reads.ofSource source) lexeme hlexeme
  rw [Lexeme.shift, Position.shift_eq_below hstart.one_le_line hstart.one_le_column,
    Position.shift_eq_below hstop.one_le_line hstop.one_le_column, Lexeme.below]

theorem runes_append_lineFeed (front back : Bytes) :
    runes (front ++ 0x0A :: back) = runes front ++ .lineFeed :: runes back := by
  have hfeed : (0x0A : UInt8) < 0x80 := by decide
  rw [runes_append_ascii front hfeed, runes_cons, Rune.first_of_ascii hfeed,
    Rune.afterFirst_of_ascii hfeed]
  rfl

/-- A text that ends in a carriage return ends in its byte. -/
theorem Rune.getLast?_encode_of_return {text : List Rune} (hdecoded : ∀ rune ∈ text, rune.Decoded)
    {rune : Rune} (hlast : rune ∈ text.getLast?) (hreturn : rune.char = '\r') :
    (encode text).getLast? = some 0x0D := by
  obtain ⟨front, rfl⟩ := List.getLast?_eq_some_iff.mp hlast
  have hrune := hdecoded rune (List.mem_append_right _ (List.mem_singleton_self _))
  have hbytes : rune.bytes = [0x0D] := by
    rw [hrune.bytes_of_ascii (by rw [hreturn]; decide), hreturn]
    rfl
  simp [hbytes]

namespace Lexer

/-- What may not come last before a line feed: whitespace, which would go on, and the carriage return of
a line comment, which would become a part of the line break. -/
def EndsClear (lexeme : Lexeme) : Prop :=
  lexeme.kind ≠ .whitespace ∧
    ¬ (lexeme.kind = .lineComment ∧ lexeme.text.getLast? = some 0x0D)

/-- A lexer on a text, and one at the same place of the text with a line feed and more runes behind it. -/
structure Prolonged (more : List Rune) (part whole : Lexer) : Prop where
  dialect_eq : whole.dialect = part.dialect
  rest_eq : whole.cursor.rest = part.cursor.rest ++ .lineFeed :: more
  position_eq : whole.cursor.position = part.cursor.position

variable [XidClasses]

namespace Prolonged

variable {source : Bytes} {more : List Rune} {part part' whole last : Lexer} {lexeme : Lexeme}
  {lexemes : List Lexeme}

theorem construct_eq (h : Prolonged more part whole) (hne : part.cursor.rest ≠ []) :
    whole.construct = part.construct := by
  rw [construct, construct, Cursor.atStart, Cursor.atStart, h.position_eq, h.rest_eq,
    Construct.ofText_append_lineFeed hne]

theorem next (h : Prolonged more part whole) (hreads : part.Reads source)
    (hnext : part.next? = some (lexeme, part')) (hclosed : lexeme.terminated = true)
    (hlast : part'.cursor.rest = [] → EndsClear lexeme) :
    ∃ whole', whole.next? = some (lexeme, whole') ∧ Prolonged more part' whole' := by
  obtain ⟨hne, htag, htext, hspan, rfl⟩ := next?_eq_some hnext
  have hdecoded : ∀ rune ∈ part.cursor.rest, rune.Decoded := hreads.rest_eq ▸ decoded_of_mem_runes
  have hmark : part.construct.MarkedIn part.cursor.rest := Construct.ofText_markedIn _ _
  have hle : part.cut.length ≤ part.cursor.rest.length :=
    Construct.cut_length_le _ hne hdecoded hmark
  have hcut : whole.cut = part.cut := by
    rw [cut, h.construct_eq hne, h.dialect_eq, h.rest_eq]
    refine Construct.cut_append_lineFeed _ hne hmark ?_ ?_ more
    · rw [htag] at hclosed
      exact hclosed
    · intro hlength
      have hall : part.cursor.rest.take part.cut.length = part.cursor.rest :=
        List.take_of_length_le (Nat.le_of_eq hlength.symm)
      obtain ⟨hkind, hreturn⟩ := hlast (List.drop_eq_nil_of_le (Nat.le_of_eq hlength.symm))
      rw [htag] at hkind hreturn
      refine ⟨hkind, fun hcomment rune hrune hchar => hreturn ⟨hcomment, ?_⟩⟩
      rw [htext, hall]
      exact Rune.getLast?_encode_of_return hdecoded hrune hchar
  have hend : whole.atEnd = false := by
    rw [atEnd_eq_false_iff, h.rest_eq]
    simp
  have htake : whole.cursor.rest.take whole.cut.length =
      part.cursor.rest.take part.cut.length := by
    rw [hcut, h.rest_eq, List.take_append_of_le_length hle]
  have hposition : (whole.cursor.advance whole.cut.length).position =
      (part.cursor.advance part.cut.length).position := by
    simp only [Cursor.advance, htake, h.position_eq]
  refine ⟨{ whole with cursor := whole.cursor.advance whole.cut.length }, ?_, ?_⟩
  · have hlexeme : (whole.take whole.cut).1 = lexeme := by
      cases lexeme with | mk tag text span =>
      simp only at htag htext hspan
      subst htag htext hspan
      rw [hcut] at htake hposition
      simp only [take, hcut, htake, hposition, h.position_eq]
    rw [next?, hend, ← hlexeme]
    rfl
  · refine ⟨h.dialect_eq, ?_, hposition⟩
    simp only [Cursor.advance, hcut, h.rest_eq, List.drop_append_of_le_length hle]

theorem run (h : Prolonged more part whole) (hreads : part.Reads source)
    (hrun : Run part lexemes last) (hclosed : ∀ lexeme ∈ lexemes, lexeme.terminated = true)
    (hlast : last.cursor.rest = [] → ∀ lexeme ∈ lexemes.getLast?, EndsClear lexeme) :
    ∃ last', Run whole lexemes last' ∧ Prolonged more last last' := by
  induction hrun generalizing whole with
  | stop lexer => exact ⟨whole, .stop whole, h⟩
  | @step lexer next last lexeme lexemes hnext hrun ih =>
      obtain ⟨hfirst, hothers⟩ := List.forall_mem_cons.mp hclosed
      have hclear : next.cursor.rest = [] → EndsClear lexeme := by
        intro hnil
        cases hrun with
        | stop => exact hlast hnil lexeme rfl
        | step hnext' => exact absurd hnil (next?_eq_some hnext').1
      obtain ⟨whole', hwhole, hprolonged⟩ := h.next hreads hnext hfirst hclear
      obtain ⟨last', hrun', hlast'⟩ := ih hprolonged (reads_next hreads hnext) hothers (by
        intro hnil other hother
        refine hlast hnil other ?_
        rw [List.getLast?_cons, Option.mem_def.mp hother]
        rfl)
      exact ⟨last', .step hwhole hrun', hlast'⟩

/-- Behind the line feed, the text that follows is read as a source of its own. -/
theorem restarted {back : Bytes} (h : Prolonged (runes back) part whole)
    (hnil : part.cursor.rest = []) (hshebang : ¬ HasShebang back) :
    Restarted (whole.cursor.position.next .lineFeed) (ofSource part.dialect back)
      { whole with cursor := whole.cursor.advance 1 } := by
  have hrest : (whole.cursor.advance 1).rest = runes back := by
    rw [Cursor.advance, h.rest_eq, hnil]
    rfl
  have hplace : (whole.cursor.advance 1).position = whole.cursor.position.next .lineFeed := by
    rw [Cursor.advance, h.rest_eq, hnil]
    rfl
  refine ⟨h.dialect_eq.symm, hrest.symm, hplace, ?_⟩
  have hplain : Comment.startsShebang (runes back) = false := by
    rw [Bool.eq_false_iff, ne_eq, startsShebang_runes_iff]
    exact hshebang
  simp only [construct, hrest]
  rw [Construct.ofText_of_not_shebang hplain]
  exact Construct.ofText_of_not_shebang hplain _

end Prolonged

/-- A line feed that no whitespace follows is a lexeme of its own. -/
theorem next?_lineFeed {lexer : Lexer} {more : List Rune}
    (hrest : lexer.cursor.rest = .lineFeed :: more)
    (hmore : ∀ rune ∈ more.head?, rune.isWhitespace = false) :
    lexer.next? = some
      ({ kind := .whitespace, text := [0x0A],
         span := ⟨lexer.cursor.position, lexer.cursor.position.next .lineFeed⟩ },
       { lexer with cursor := lexer.cursor.advance 1 }) := by
  have hconstruct : lexer.construct = .whitespace := by
    have hplain : Comment.startsShebang (.lineFeed :: more) = false := rfl
    have hwhite : startsIn Rune.isWhitespace (.lineFeed :: more) = true :=
      startsIn_iff.mpr ⟨.lineFeed, more, rfl, by decide⟩
    rw [construct, hrest, Construct.ofText, hplain, Bool.and_false, if_neg Bool.false_ne_true,
      if_pos hwhite]
  have hstop : startsIn Rune.isWhitespace more = false := by
    cases more with
    | nil => rfl
    | cons rune more => exact hmore rune rfl
  have hrun : runLength Rune.isWhitespace (.lineFeed :: more) = 1 := by
    rw [runLength, List.takeWhile_cons_of_pos (by decide), takeWhile_eq_nil hstop,
      List.length_singleton]
  have hcut : lexer.cut = { tag := { kind := .whitespace }, length := 1 } := by
    rw [cut, hconstruct, hrest, Construct.cut, hrun]
  rw [next?, atEnd, Cursor.atEnd, hrest]
  simp [take, hcut, hrest, Cursor.advance, Rune.lineFeed]

end Lexer

/-- Two texts joined by a line feed have the lexemes of the first, the line feed, and the lexemes of the
second below it. In the first nothing may be open at the end; the second may start neither with
whitespace, which would join the line feed, nor with a shebang, which is one at the start of a source
only. -/
theorem Dialect.lexemes_append_lineFeed [XidClasses] (dialect : Dialect) {front back : Bytes}
    (hclosed : ∀ lexeme ∈ dialect.lexemes front, lexeme.terminated = true)
    (hlast : ∀ lexeme ∈ (dialect.lexemes front).getLast?, lexeme.kind ≠ .whitespace ∧
      ¬ (lexeme.kind = .lineComment ∧ lexeme.text.getLast? = some 0x0D))
    (hblank : ∀ rune ∈ (runes back).head?, rune.isWhitespace = false)
    (hshebang : ¬ HasShebang back) :
    dialect.lexemes (front ++ 0x0A :: back) =
      dialect.lexemes front ++
        { kind := .whitespace, text := [0x0A],
          span := ⟨Position.after {} (runes front),
            ⟨front.length + 1, front.count 0x0A + 1 + 1, 1⟩⟩ } ::
        (dialect.lexemes back).map (Lexeme.below (front.length + 1) (front.count 0x0A + 1)) := by
  have hrun := Lexer.run_drain (Lexer.ofSource dialect front)
  have hend := Lexer.atEnd_drain (Lexer.ofSource dialect front)
  have hreads : (Lexer.ofSource dialect front).Reads front := Cursor.Reads.ofSource front
  generalize (Lexer.ofSource dialect front).drain.2 = last at hrun hend
  have hnil : last.cursor.rest = [] := by simpa [Lexer.atEnd, Cursor.atEnd] using hend
  -- The first text, read with the line feed and the second behind it.
  have hprolonged : Lexer.Prolonged (runes back) (Lexer.ofSource dialect front)
      (Lexer.ofSource dialect (front ++ 0x0A :: back)) :=
    ⟨rfl, runes_append_lineFeed front back, rfl⟩
  obtain ⟨reached, hreached, hjoined⟩ := hprolonged.run hreads hrun hclosed fun _ => hlast
  -- Where it ends.
  obtain ⟨passed, hpassed, hposition⟩ := hrun.exists_passed
  rw [hnil, List.append_nil] at hpassed
  have hstart : reached.cursor.position = Position.after {} (runes front) := by
    rw [hjoined.position_eq, hposition, ← hpassed]
    rfl
  have hoffset : last.cursor.position.offset = front.length :=
    Lexer.offset_eq_length (hrun.reads hreads) hend
  have hline := (hrun.reads hreads).trueIn.line_eq
  rw [hoffset, List.take_length] at hline
  have hstop : reached.cursor.position.next .lineFeed =
      ⟨front.length + 1, front.count 0x0A + 1 + 1, 1⟩ := by
    rw [hjoined.position_eq]
    simp [Position.next, Rune.lineFeed, hoffset, hline, Nat.add_comm]
  -- The line feed, and the second text behind it.
  have hfeed := Lexer.next?_lineFeed (by rw [hjoined.rest_eq, hnil]; rfl) hblank
  have hrestarted := hjoined.restarted hnil hshebang
  have hdialect : last.dialect = dialect := hrun.dialect_eq
  rw [hstop, hdialect] at hrestarted
  rw [Dialect.lexemes, hreached.drain_eq, Lexer.drain_of_next?_eq_some hfeed, hstop, hstart,
    hrestarted.drain (Cursor.Reads.ofSource back)]
  rw [← dialect.map_shift_lexemes]
  rfl

/-- A quote at the end of a line does not become a character literal, and an inner attribute on the next
line is what it was. -/
theorem Dialect.lexemes_append_lineFeed_attribute :
    let dialect : Dialect := { keywords := keywords2018 }
    let front := Bytes.ofAscii "x\n1.'a"
    let back := Bytes.ofAscii "#![b]"
    (∀ lexeme ∈ dialect.lexemes front, lexeme.terminated = true) ∧
      (∀ lexeme ∈ (dialect.lexemes front).getLast?, lexeme.kind = .lifetime) ∧
      (∀ rune ∈ (runes back).head?, rune.isWhitespace = false) ∧
      ¬ HasShebang back ∧
      dialect.lexemes (front ++ 0x0A :: back) =
        dialect.lexemes front ++
          { kind := .whitespace, text := [0x0A], span := ⟨⟨6, 2, 5⟩, ⟨7, 3, 1⟩⟩ } ::
          (dialect.lexemes back).map (Lexeme.below 7 2) := by
  intro dialect front back
  have hclosed : ∀ lexeme ∈ dialect.lexemes front, lexeme.terminated = true := by decide +kernel
  have hlast : ∀ lexeme ∈ (dialect.lexemes front).getLast?, lexeme.kind = .lifetime := by
    decide +kernel
  have hblank : ∀ rune ∈ (runes back).head?, rune.isWhitespace = false := by decide +kernel
  have hshebang : ¬ HasShebang back := by decide +kernel
  have hend : Position.after {} (runes front) = ⟨6, 2, 5⟩ := by decide +kernel
  refine ⟨hclosed, hlast, hblank, hshebang, ?_⟩
  have hjoined := Dialect.lexemes_append_lineFeed dialect hclosed
    (fun lexeme hlexeme => by simp [hlast lexeme hlexeme]) hblank hshebang
  rw [hend] at hjoined
  exact hjoined

end RustLexer
