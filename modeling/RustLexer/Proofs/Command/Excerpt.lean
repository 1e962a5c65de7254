import RustLexer.Command
import RustLexer.Proofs.Checker.Message
import RustLexer.Proofs.Checker.Sequence
import RustLexer.Proofs.Text.Lines

/-! # What an excerpt shows

The line number of a diagnostic counts line feeds, so it finds the line of the source that the fault is on
(`Position.TrueIn.exists_line`). The columns of a lexeme that stands on that line alone have the column of
the fault among them, so there is exactly one caret among the marks (`Excerpt.isMarked_marks`). It stands
under the fault as long as the number of the line has a single digit (`Dialect.caret_under_fault_iff`).
-/

namespace RustLexer

/-! ## Lines and columns of a position -/

namespace Position

theorem line_le_after (position : Position) (text : List Rune) :
    position.line ≤ (position.after text).line := by
  induction text generalizing position with
  | nil => exact Nat.le_refl _
  | cons rune text ih =>
      refine Nat.le_trans ?_ (ih (position.next rune))
      rw [next]
      dsimp only
      split
      next => exact Nat.le_succ _
      next => exact Nat.le_refl _

/-- On one line each rune takes one column. -/
theorem column_after {position : Position} {text : List Rune}
    (h : (position.after text).line = position.line) :
    (position.after text).column = position.column + text.length := by
  induction text generalizing position with
  | nil => rfl
  | cons rune text ih =>
      rw [after_cons] at h ⊢
      have hle := line_le_after (position.next rune) text
      by_cases hnewline : rune.char = '\n'
      · have hnext : (position.next rune).line = position.line + 1 := if_pos hnewline
        omega
      · have hline : (position.next rune).line = position.line := if_neg hnewline
        have hcolumn : (position.next rune).column = position.column + 1 := if_neg hnewline
        rw [ih (h.trans hline.symm), hcolumn, List.length_cons]
        omega

/-- The line that a true position is on, in two parts: what is before the position and what is not. -/
theorem TrueIn.exists_line {source : Bytes} {position : Position} (h : position.TrueIn source) :
    ∃ before front back behind, Bytes.IsLine source before (front ++ back) behind ∧
      before.length + front.length = position.offset ∧
      position.line = before.count 0x0A + 1 ∧ position.column = (runes front).length + 1 := by
  obtain ⟨start, text, hstart, hwalk, hcolumn⟩ := h.column_eq
  obtain ⟨-, hoffset⟩ := hwalk.runes_eq
  let front := Rune.encode text
  have hfront : runes front = text := hwalk.runes_encode
  have hlength : start + front.length = position.offset := by
    rw [hoffset, Rune.width_eq_length_encode]
  have hdrop : source.drop start = front ++ source.drop position.offset := hwalk.drop_eq
  have htake : source.take position.offset = source.take start ++ front := by
    rw [← hlength, List.take_add, hdrop, List.take_left]
  have hstartLe : start ≤ source.length := Nat.le_trans hstart.start_le h.offset_le
  have hbefore : (source.take start).length = start := List.length_take_of_le hstartLe
  have hnone : 0x0A ∉ front := by
    have hnewline := hstart.newline_notMem
    rwa [htake, List.drop_left' hbefore] at hnewline
  have hopens : source.take start = [] ∨ (source.take start).getLast? = some 0x0A := by
    rcases hstart.opens with hzero | hfeed
    · exact Or.inl (by rw [hzero, List.take_zero])
    · cases start with
      | zero => exact Or.inl List.take_zero
      | succ start =>
          rw [Nat.add_sub_cancel] at hfeed
          rw [List.getLast?_take, if_neg (Nat.succ_ne_zero _), Nat.add_sub_cancel, hfeed]
          exact Or.inr rfl
  obtain ⟨back, behind, hbehind, hback, hcloses⟩ :=
    Bytes.exists_lineEnd (source.drop position.offset)
  refine ⟨source.take start, front, back, behind, ⟨?_, hopens, ?_, hcloses⟩, ?_, ?_, ?_⟩
  · rw [List.append_assoc, ← hbehind, ← hdrop, List.take_append_drop]
  · rw [List.mem_append, not_or]
    exact ⟨hnone, hback⟩
  · rw [hbefore, hlength]
  · rw [h.line_eq, htake, List.count_append, List.count_eq_zero.mpr hnone]
    omega
  · rw [hcolumn, hfront, Nat.add_comm]

end Position

/-! ## Diagnostics of a source -/

/-- What a diagnostic of a source says about it: a place on a byte of it, and the columns of a lexeme, which
hold that place if the lexeme stands on the line of the place alone. -/
structure Diagnostic.PlacedIn (source : Bytes) (diagnostic : Diagnostic) : Prop where
  trueIn : diagnostic.position.TrueIn source
  offset_lt : diagnostic.position.offset < source.length
  one_le_column : 1 ≤ diagnostic.span.start.column
  columns : diagnostic.span.start.line = diagnostic.position.line →
    diagnostic.span.stop.line = diagnostic.position.line →
    diagnostic.span.start.column ≤ diagnostic.position.column ∧
      diagnostic.position.column < diagnostic.span.stop.column

theorem Lexeme.InPlace.placedIn [XidClasses] {dialect : Dialect} {source : Bytes} {lexeme : Lexeme}
    {fault : Fault} (h : lexeme.InPlace dialect source)
    (hfault : fault.StandsIn (runes lexeme.text)) : (fault.diagnostic lexeme).PlacedIn source := by
  obtain ⟨count, hlt, hoffset⟩ := hfault
  have hposition : (fault.diagnostic lexeme).position =
      lexeme.span.start.after ((runes lexeme.text).take count) := by
    rw [Fault.diagnostic, hoffset, lexeme.locate_width]
  have hspan : (fault.diagnostic lexeme).span = lexeme.span := rfl
  have hstop : lexeme.span.stop.TrueIn source := by
    have htrue := h.trueIn_after (runes lexeme.text).length
    rwa [List.take_length, ← h.stop_eq] at htrue
  refine ⟨h.locate_trueIn _, ?_, h.start_trueIn.one_le_column, ?_⟩
  · have hbefore := lexeme.span.start.offset_after_take_lt decoded_of_mem_runes hlt
    rw [← hposition, ← h.stop_eq] at hbefore
    exact Nat.lt_of_lt_of_le hbefore hstop.offset_le
  · intro hstart hend
    rw [hspan] at hstart hend ⊢
    have hcolumn : (fault.diagnostic lexeme).position.column = lexeme.span.start.column + count := by
      rw [hposition] at hstart ⊢
      rw [Position.column_after hstart.symm, List.length_take_of_le (Nat.le_of_lt hlt)]
    have hstopColumn : lexeme.span.stop.column =
        lexeme.span.start.column + (runes lexeme.text).length := by
      have hline := hend.trans hstart.symm
      rw [h.stop_eq] at hline ⊢
      exact Position.column_after hline
    omega

theorem Dialect.exists_fault_of_diagnostic [XidClasses] {dialect : Dialect} {source : Bytes}
    {diagnostic : Diagnostic}
    (h : diagnostic ∈ (Checker.checkAll {} (dialect.lexemes source)).diagnostics) :
    ∃ lexeme ∈ dialect.lexemes source, ∃ fault, lexeme.fault? = some fault ∧
      fault.diagnostic lexeme = diagnostic := by
  rw [← Array.mem_toList_iff, Checker.diagnostics_checkAll] at h
  obtain ⟨lexeme, hlexeme, hreport⟩ := List.mem_filterMap.mp h
  obtain ⟨fault, hfault, hdiagnostic⟩ := Option.map_eq_some_iff.mp hreport
  exact ⟨lexeme, hlexeme, fault, hfault, hdiagnostic⟩

theorem Dialect.placedIn_of_diagnostic [XidClasses] {dialect : Dialect} {source : Bytes}
    {diagnostic : Diagnostic}
    (h : diagnostic ∈ (Checker.checkAll {} (dialect.lexemes source)).diagnostics) :
    diagnostic.PlacedIn source ∧ diagnostic.message.OneLine := by
  obtain ⟨lexeme, hlexeme, fault, hfault, rfl⟩ := exists_fault_of_diagnostic h
  exact ⟨(inPlace_of_mem hlexeme).placedIn (dialect.standsIn_of_fault? hlexeme hfault),
    oneLine_message hlexeme hfault⟩

namespace Excerpt

variable {source : Bytes} {diagnostic : Diagnostic}

/-! ## Marks -/

/-- The marks for a diagnostic: a caret in its column, and tildes in the other columns of its lexeme if that
stands on one line with the fault. -/
def IsMarked (diagnostic : Diagnostic) (marks : Bytes) : Prop :=
  ∃ blanks left right,
    marks = List.replicate blanks ' '.toUInt8 ++ (List.replicate left '~'.toUInt8 ++
      '^'.toUInt8 :: List.replicate right '~'.toUInt8) ∧
    diagnostic.position.column = blanks + left + 1 ∧
    if diagnostic.span.start.line = diagnostic.position.line ∧
        diagnostic.span.stop.line = diagnostic.position.line then
      diagnostic.span.start.column = blanks + 1 ∧
        diagnostic.span.stop.column = diagnostic.position.column + right + 1
    else left = 0 ∧ right = 0

/-- Marking the columns of a range, with one of them apart. -/
theorem map_range'_eq {first column stop : Nat} (hle : first ≤ column) (hlt : column < stop) :
    ((List.range' first (stop - first)).map fun other =>
        if other = column then '^'.toUInt8 else '~'.toUInt8) =
      List.replicate (column - first) '~'.toUInt8 ++
        '^'.toUInt8 :: List.replicate (stop - column - 1) '~'.toUInt8 := by
  have hcount : stop - first = (column - first) + (stop - column - 1 + 1) := by omega
  have hmiddle : first + (column - first) = column := by omega
  have htilde : ∀ start count, (∀ other ∈ List.range' start count, other ≠ column) →
      ((List.range' start count).map fun other =>
        if other = column then '^'.toUInt8 else '~'.toUInt8) = List.replicate count '~'.toUInt8 := by
    intro start count hother
    rw [List.map_congr_left fun other hmem => if_neg (hother other hmem), List.map_const',
      List.length_range']
  rw [hcount, ← List.range'_append_1, hmiddle, List.range'_succ, List.map_append, List.map_cons,
    if_pos rfl, htilde, htilde]
  · intro other hmem
    have hrange := List.mem_range'_1.mp hmem
    omega
  · intro other hmem
    have hrange := List.mem_range'_1.mp hmem
    omega

/-- The marks of columns that hold the column of the fault. -/
theorem marks_of_columns {first stop : Nat} (h : columns diagnostic = (first, stop))
    (hle : first ≤ diagnostic.position.column) (hlt : diagnostic.position.column < stop) :
    marks diagnostic = List.replicate (first - 1) ' '.toUInt8 ++
      (List.replicate (diagnostic.position.column - first) '~'.toUInt8 ++
        '^'.toUInt8 :: List.replicate (stop - diagnostic.position.column - 1) '~'.toUInt8) := by
  simp only [marks, h]
  split
  next hshort =>
    have hleft : diagnostic.position.column - first = 0 := by omega
    have hright : stop - diagnostic.position.column - 1 = 0 := by omega
    rw [hleft, hright]
    rfl
  next => rw [map_range'_eq hle hlt]

theorem isMarked_marks (h : diagnostic.PlacedIn source) : IsMarked diagnostic (marks diagnostic) := by
  have hcolumn := h.trueIn.one_le_column
  by_cases hsingle : diagnostic.span.start.line = diagnostic.position.line ∧
      diagnostic.span.stop.line = diagnostic.position.line
  · obtain ⟨hle, hlt⟩ := h.columns hsingle.1 hsingle.2
    have hone := h.one_le_column
    have hcolumns : columns diagnostic =
        (diagnostic.span.start.column, diagnostic.span.stop.column) := if_pos hsingle
    refine ⟨_, _, _, marks_of_columns hcolumns hle hlt, by omega, ?_⟩
    rw [if_pos hsingle]
    omega
  · have hlt := Nat.lt_succ_self diagnostic.position.column
    have hcolumns : columns diagnostic =
        (diagnostic.position.column, diagnostic.position.column + 1) := if_neg hsingle
    refine ⟨_, _, _, marks_of_columns hcolumns (Nat.le_refl _) hlt, by omega, ?_⟩
    rw [if_neg hsingle]
    omega

theorem IsMarked.newline_notMem {marks : Bytes} (h : IsMarked diagnostic marks) : 0x0A ∉ marks := by
  obtain ⟨blanks, left, right, rfl, -, -⟩ := h
  have hspace : (0x0A : UInt8) ≠ ' '.toUInt8 := by decide
  have htilde : (0x0A : UInt8) ≠ '~'.toUInt8 := by decide
  have hcaret : (0x0A : UInt8) ≠ '^'.toUInt8 := by decide
  simp [List.mem_replicate, hspace, htilde, hcaret]

/-! ## Rows -/

/-- What stands before the line of the source in the first row of an excerpt. -/
def gutter (line : Nat) : Bytes :=
  Bytes.ofAscii "  " ++ Bytes.decimal line ++ Bytes.ofAscii " | "

/-- What stands before the marks in the second row of an excerpt. -/
def margin : Bytes := Bytes.ofAscii "    | "

theorem oneLine_gutter (line : Nat) : (gutter line).OneLine := by
  simp only [gutter, Bytes.oneLine_append]
  exact ⟨⟨Bytes.oneLine_ofAscii (by decide), Bytes.oneLine_decimal line⟩,
    Bytes.oneLine_ofAscii (by decide)⟩

theorem oneLine_margin : margin.OneLine := Bytes.oneLine_ofAscii (by decide)

theorem ascii_gutter (line : Nat) : ∀ byte ∈ gutter line, byte < 0x80 := by
  have hdecimal : ∀ byte ∈ Bytes.decimal line, byte < 0x80 := by
    intro byte hbyte
    rw [UInt8.lt_iff_toNat_lt]
    exact Nat.lt_of_le_of_lt (Bytes.digit_of_mem_decimal hbyte).2 (by decide)
  exact List.forall_mem_append.mpr
    ⟨List.forall_mem_append.mpr ⟨Bytes.ascii_ofAscii (by decide), hdecimal⟩,
      Bytes.ascii_ofAscii (by decide)⟩

theorem ascii_margin : ∀ byte ∈ margin, byte < 0x80 := Bytes.ascii_ofAscii (by decide)

/-- The gutter of an excerpt takes the runes of its line on. -/
theorem length_runes_gutter_append (line : Nat) (front : Bytes) :
    (runes (gutter line ++ front)).length = (Bytes.decimal line).length + 5 + (runes front).length := by
  have htwo : (Bytes.ofAscii "  ").length = 2 := rfl
  have hthree : (Bytes.ofAscii " | ").length = 3 := rfl
  rw [runes_append_of_ascii (ascii_gutter line), List.length_append,
    length_runes_of_ascii (ascii_gutter line)]
  simp only [gutter, List.length_append, htwo, hthree]
  omega

/-- The line of a source that an excerpt shows, in the two parts before and behind the fault. -/
theorem exists_rows_eq (h : diagnostic.PlacedIn source) :
    ∃ before front back behind, Bytes.IsLine source before (front ++ back) behind ∧
      before.length + front.length = diagnostic.position.offset ∧
      diagnostic.position.column = (runes front).length + 1 ∧
      diagnostic.position.line ≤ (Bytes.lines source).length ∧
      ∃ shown returns, front ++ back = shown ++ List.replicate returns '\r'.toUInt8 ∧
        shown.getLast? ≠ some '\r'.toUInt8 ∧
        rows (Bytes.lines source).toArray diagnostic =
          (gutter diagnostic.position.line ++ shown ++ [0x0A]) ++
            (margin ++ marks diagnostic ++ [0x0A]) := by
  obtain ⟨before, front, back, behind, hline, hoffset, hnumber, hcolumn⟩ := h.trueIn.exists_line
  have hget := hline.getElem?_lines
  obtain ⟨hlt, -⟩ := List.getElem?_eq_some_iff.mp hget
  obtain ⟨dropped, hdropped, hreturns, hlast⟩ :=
    Bytes.exists_dropTrailing (· == '\r'.toUInt8) (front ++ back)
  refine ⟨before, front, back, behind, hline, hoffset, hcolumn, ?_,
    Bytes.dropTrailing (· == '\r'.toUInt8) (front ++ back), dropped.length, ?_, ?_, ?_⟩
  · omega
  · rw [← List.eq_replicate_iff.mpr ⟨rfl, fun byte hbyte => eq_of_beq (hreturns byte hbyte)⟩]
    exact hdropped
  · intro hreturn
    have hother := hlast _ hreturn
    simp at hother
  · have hrow : (Bytes.lines source).toArray[before.count 0x0A]? = some (front ++ back) := by
      rw [List.getElem?_toArray, hget]
    simp only [rows, hnumber, hrow, Bytes.ofAscii_newline, gutter, margin, List.append_assoc]

end Excerpt

/-! ## Reports -/

namespace Diagnostic

variable {diagnostic : Diagnostic}

/-- The first row of a report: the severity, the place and the message. -/
def heading (name : Bytes) (diagnostic : Diagnostic) : Bytes :=
  Bytes.ofAscii "lexemize: " ++ Bytes.ofAscii diagnostic.severity.name ++ Bytes.ofAscii ": " ++
    (name ++ Bytes.ofAscii ":" ++ Bytes.decimal diagnostic.position.line ++ Bytes.ofAscii ":" ++
      Bytes.decimal diagnostic.position.column ++ Bytes.ofAscii ": " ++ diagnostic.message)

theorem report_eq (name : Bytes) (sourceLines : Array Bytes) (diagnostic : Diagnostic) :
    diagnostic.report name sourceLines =
      (diagnostic.heading name ++ [0x0A]) ++ Excerpt.rows sourceLines diagnostic := rfl

theorem newline_notMem_heading {name : Bytes} (hname : 0x0A ∉ name)
    (hmessage : diagnostic.message.OneLine) : 0x0A ∉ diagnostic.heading name := by
  have hseverity : (Bytes.ofAscii diagnostic.severity.name).OneLine := by
    cases diagnostic.severity <;> exact Bytes.oneLine_ofAscii (by decide)
  have hcommand : (Bytes.ofAscii "lexemize: ").OneLine := Bytes.oneLine_ofAscii (by decide)
  have hcolon : (Bytes.ofAscii ":").OneLine := Bytes.oneLine_ofAscii (by decide)
  have hspaced : (Bytes.ofAscii ": ").OneLine := Bytes.oneLine_ofAscii (by decide)
  simp only [heading, List.mem_append, not_or]
  exact ⟨⟨⟨hcommand.1, hseverity.1⟩, hspaced.1⟩,
    ⟨⟨⟨⟨⟨hname, hcolon.1⟩, (Bytes.oneLine_decimal _).1⟩, hcolon.1⟩, (Bytes.oneLine_decimal _).1⟩,
      hspaced.1⟩, hmessage.1⟩

end Diagnostic

/-- A diagnostic of a source is reported in three rows: a heading with a message of one line, the line of
the source that the fault is on, without the carriage returns at its end, and the marks. -/
theorem Dialect.report_diagnostic [XidClasses] (dialect : Dialect) (source name : Bytes) (hname : 0x0A ∉ name)
    {diagnostic : Diagnostic}
    (hdiagnostic : diagnostic ∈ (Checker.checkAll {} (dialect.lexemes source)).diagnostics) :
    let sourceLines := Bytes.lines source
    let number := diagnostic.position.line
    diagnostic.message.OneLine ∧ (1 ≤ number ∧ number ≤ sourceLines.length) ∧
      ∃ line shown returns marks,
        Bytes.IsLineAt source diagnostic.position.offset line ∧
        line = shown ++ List.replicate returns '\r'.toUInt8 ∧
        shown.getLast? ≠ some '\r'.toUInt8 ∧ Excerpt.IsMarked diagnostic marks ∧
        let rows := [diagnostic.heading name, Excerpt.gutter number ++ shown, Excerpt.margin ++ marks]
        diagnostic.report name sourceLines.toArray = rows.flatMap (· ++ [0x0A]) ∧
          ∀ row ∈ rows, 0x0A ∉ row := by
  intro sourceLines number
  obtain ⟨hplaced, hmessage⟩ := placedIn_of_diagnostic hdiagnostic
  obtain ⟨before, front, back, behind, hline, hoffset, -, hnumber, shown, returns, hshown, hlast,
    hrows⟩ := Excerpt.exists_rows_eq hplaced
  have hmarked := Excerpt.isMarked_marks hplaced
  have hnewline : 0x0A ∉ shown := by
    have hnone := hline.newline_notMem
    rw [hshown, List.mem_append, not_or] at hnone
    exact hnone.1
  refine ⟨hmessage, ⟨hplaced.trueIn.one_le_line, hnumber⟩, front ++ back, shown, returns,
    Excerpt.marks diagnostic, ⟨before, behind, hline, hplaced.offset_lt, ?_, ?_⟩, hshown, hlast,
    hmarked, ?_, ?_⟩
  · omega
  · rw [List.length_append]
    omega
  · simp only [Diagnostic.report_eq, sourceLines, hrows, List.flatMap_cons, List.flatMap_nil,
      List.append_nil, number]
  · simp only [List.forall_mem_cons, List.not_mem_nil, false_implies, implies_true, and_true,
      List.mem_append, not_or]
    exact ⟨Diagnostic.newline_notMem_heading hname hmessage,
      ⟨(Excerpt.oneLine_gutter number).1, hnewline⟩, Excerpt.oneLine_margin.1, hmarked.newline_notMem⟩

/-- An unknown escape on the second line, which ends in a carriage return. -/
theorem Dialect.report_diagnostic_escape :
    let dialect : Dialect := { keywords := keywords2018 }
    let source := Bytes.ofAscii "let\n x = \"\\q\"\r\n"
    let name := Bytes.ofAscii "a.rs"
    let diagnostic : Diagnostic :=
      { cause := .escape (.unknown [0x71]), span := ⟨⟨9, 2, 6⟩, ⟨13, 2, 10⟩⟩, position := ⟨10, 2, 7⟩ }
    0x0A ∉ name ∧
      diagnostic ∈ (Checker.checkAll {} (dialect.lexemes source)).diagnostics ∧
      diagnostic.message.OneLine ∧
      ∃ shown marks, Excerpt.IsMarked diagnostic marks ∧
        diagnostic.report name (Bytes.lines source).toArray =
          [diagnostic.heading name, Excerpt.gutter 2 ++ shown, Excerpt.margin ++ marks].flatMap
            (· ++ [0x0A]) ∧
        diagnostic.report name (Bytes.lines source).toArray =
          Bytes.ofAscii "lexemize: error: a.rs:2:7: unknown character escape: `q`\n" ++
            Bytes.ofAscii "  2 |  x = \"\\q\"\n    |      ~^~~\n" := by
  intro dialect source name diagnostic
  have hname : 0x0A ∉ name := by decide
  have hdiagnostic : diagnostic ∈ (Checker.checkAll {} (dialect.lexemes source)).diagnostics := by
    decide +kernel
  obtain ⟨hmessage, -, line, shown, returns, marks, -, -, -, hmarked, hreport, -⟩ :=
    dialect.report_diagnostic source name hname hdiagnostic
  exact ⟨hname, hdiagnostic, hmessage, shown, marks, hmarked, hreport, by decide +kernel⟩

/-- The caret of an excerpt stands as many columns behind the margin as the fault behind the gutter. The
gutter grows with the number of the line and the margin does not, so as many characters stand before the
caret as before the fault if and only if that number has a single digit. -/
theorem Dialect.caret_under_fault_iff [XidClasses] (dialect : Dialect) (source : Bytes)
    {diagnostic : Diagnostic}
    (hdiagnostic : diagnostic ∈ (Checker.checkAll {} (dialect.lexemes source)).diagnostics) :
    let number := diagnostic.position.line
    ∃ before front back behind shown returns left right,
      Bytes.IsLine source before (front ++ back) behind ∧
      before.length + front.length = diagnostic.position.offset ∧
      front ++ back = shown ++ List.replicate returns '\r'.toUInt8 ∧
      Excerpt.rows (Bytes.lines source).toArray diagnostic =
        (Excerpt.gutter number ++ shown ++ [0x0A]) ++
          (Excerpt.margin ++ (left ++ '^'.toUInt8 :: right) ++ [0x0A]) ∧
      '^'.toUInt8 ∉ Excerpt.margin ++ left ∧
      (runes front).length + 1 = diagnostic.position.column ∧
      (runes left).length + 1 = diagnostic.position.column ∧
      ((runes (Excerpt.margin ++ left)).length =
        (runes (Excerpt.gutter number ++ front)).length ↔ number < 10) := by
  intro number
  obtain ⟨hplaced, -⟩ := placedIn_of_diagnostic hdiagnostic
  obtain ⟨before, front, back, behind, hline, hoffset, hcolumn, -, shown, returns, hshown, -,
    hrows⟩ := Excerpt.exists_rows_eq hplaced
  obtain ⟨blanks, tildes, right, hmarks, hcaret, -⟩ := Excerpt.isMarked_marks hplaced
  let left := List.replicate blanks ' '.toUInt8 ++ List.replicate tildes '~'.toUInt8
  have hleft : ∀ byte ∈ left, byte < 0x80 ∧ byte ≠ '^'.toUInt8 := by
    intro byte hbyte
    rcases List.mem_append.mp hbyte with hblank | htilde
    · rw [List.eq_of_mem_replicate hblank]
      decide
    · rw [List.eq_of_mem_replicate htilde]
      decide
  have hmargin : '^'.toUInt8 ∉ Excerpt.margin := by decide
  have hlength : (runes left).length = blanks + tildes := by
    rw [length_runes_of_ascii fun byte hbyte => (hleft byte hbyte).1]
    simp only [left, List.length_append, List.length_replicate]
  have hmarginLength : (runes (Excerpt.margin ++ left)).length = 6 + (runes left).length := by
    rw [runes_append_of_ascii Excerpt.ascii_margin, List.length_append,
      length_runes_of_ascii Excerpt.ascii_margin]
    rfl
  refine ⟨before, front, back, behind, shown, returns, left, List.replicate right '~'.toUInt8, hline,
    hoffset, hshown, ?_, ?_, hcolumn.symm, by omega, ?_⟩
  · rw [hrows, hmarks, List.append_assoc (List.replicate blanks _)]
  · rw [List.mem_append, not_or]
    exact ⟨hmargin, fun hcaret => (hleft _ hcaret).2 rfl⟩
  · rw [hmarginLength, Excerpt.length_runes_gutter_append, ← Bytes.length_decimal_eq_one_iff]
    omega

/-- The caret under the backslash of an unknown escape on the second line. -/
theorem Dialect.caret_under_fault_iff_escape :
    let dialect : Dialect := { keywords := keywords2018 }
    let source := Bytes.ofAscii "let\n x = \"\\q\"\r\n"
    let diagnostic : Diagnostic :=
      { cause := .escape (.unknown [0x71]), span := ⟨⟨9, 2, 6⟩, ⟨13, 2, 10⟩⟩, position := ⟨10, 2, 7⟩ }
    diagnostic ∈ (Checker.checkAll {} (dialect.lexemes source)).diagnostics ∧
      ∃ shown front left right,
        Excerpt.rows (Bytes.lines source).toArray diagnostic =
          (Excerpt.gutter 2 ++ shown ++ [0x0A]) ++
            (Excerpt.margin ++ (left ++ '^'.toUInt8 :: right) ++ [0x0A]) ∧
        (runes front).length = 6 ∧
        (runes (Excerpt.margin ++ left)).length = (runes (Excerpt.gutter 2 ++ front)).length := by
  intro dialect source diagnostic
  have hdiagnostic : diagnostic ∈ (Checker.checkAll {} (dialect.lexemes source)).diagnostics := by
    decide +kernel
  obtain ⟨_, front, _, _, shown, _, left, right, -, -, -, hrows, -, hcolumn, -, haligned⟩ :=
    dialect.caret_under_fault_iff source hdiagnostic
  exact ⟨hdiagnostic, shown, front, left, right, hrows, Nat.succ.inj hcolumn,
    haligned.mpr (by decide)⟩

/-- An unknown lexeme that opens the tenth line has seven characters before it, the caret six. -/
theorem Dialect.caret_beside_fault :
    let dialect : Dialect := { keywords := keywords2018 }
    let source := List.replicate 9 0x0A ++ Bytes.ofAscii "~"
    let diagnostic : Diagnostic :=
      { cause := .unknownLexeme [0x7E], span := ⟨⟨9, 10, 1⟩, ⟨10, 10, 2⟩⟩, position := ⟨9, 10, 1⟩ }
    diagnostic ∈ (Checker.checkAll {} (dialect.lexemes source)).diagnostics ∧
      Excerpt.rows (Bytes.lines source).toArray diagnostic =
        Bytes.ofAscii "  10 | ~\n" ++ Bytes.ofAscii "    | ^\n" ∧
      (runes (Bytes.ofAscii "    | ")).length ≠
        (runes (Bytes.ofAscii "  10 | ")).length + (diagnostic.position.column - 1) := by
  decide +kernel

end RustLexer
