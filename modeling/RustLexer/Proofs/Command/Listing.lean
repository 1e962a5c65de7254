import RustLexer.Proofs.Checker.Message
import RustLexer.Proofs.Command.Checking
import RustLexer.Proofs.Text.Lines

/-! # What a listing shows

Each lexeme has one row of the listing, and each row is one line: what a row is made of has no line break
(`Lexeme.DescribedBy.oneLine`), whatever the bytes of the lexeme are, as those of its text are made visible. So
the lines of the output are the rows, one for each lexeme that is listed (`run_stdout`).
-/

namespace RustLexer

/-! ## Rows -/

/-- A number of spaces. -/
def Bytes.blanks (count : Nat) : Bytes := List.replicate count ' '.toUInt8

/-- What a row of a listing says about a lexeme: in the table its description, its offset, its line and
column, and its text, with blanks between them; else its kind, its text, and its line and column. -/
def Lexeme.DescribedBy (format : Format) (lexeme : Lexeme) (row : Bytes) : Prop :=
  let start := lexeme.span.start
  let text := Bytes.visible lexeme.text
  match format with
  | .table => ∃ before behind, 0 < before ∧ 0 < behind ∧
      row = lexeme.describe ++ Bytes.blanks before ++ Bytes.decimal start.offset ++ Bytes.blanks 2 ++
        (Bytes.decimal start.line ++ Bytes.ofAscii ":" ++ Bytes.decimal start.column) ++
        Bytes.blanks behind ++ text
  | .tokens =>
      row = Bytes.ofAscii "[" ++ Bytes.ofAscii lexeme.kind.name ++ Bytes.ofAscii "] '" ++ text ++
        Bytes.ofAscii "' (line " ++ Bytes.decimal start.line ++ Bytes.ofAscii ", col " ++
        Bytes.decimal start.column ++ Bytes.ofAscii ")"

/-- The row of a lexeme, with its line feed. -/
def Lexeme.rowIn (format : Format) (lexeme : Lexeme) : Bytes :=
  match format with
  | .table => lexeme.row
  | .tokens => lexeme.shortRow

theorem Lexeme.exists_rowIn_eq (format : Format) (lexeme : Lexeme) :
    ∃ row, lexeme.DescribedBy format row ∧ lexeme.rowIn format = row ++ [0x0A] := by
  cases format with
  | table =>
      have hspace : Bytes.ofAscii " " = Bytes.blanks 1 := rfl
      have hspaces : Bytes.ofAscii "  " = Bytes.blanks 2 := rfl
      refine ⟨_, ⟨30 - lexeme.describe.length +
          (1 + (6 - (Bytes.decimal lexeme.span.start.offset).length)),
        8 - (Bytes.decimal lexeme.span.start.line ++ Bytes.ofAscii ":" ++
          Bytes.decimal lexeme.span.start.column).length + 1, by omega, by omega, rfl⟩, ?_⟩
      simp only [rowIn, row, Bytes.padRight, Bytes.padLeft, hspace, hspaces, Bytes.ofAscii_newline,
        Bytes.blanks, List.replicate_add, List.append_assoc]
  | tokens =>
      have hfeed : Bytes.ofAscii ")\n" = Bytes.ofAscii ")" ++ [0x0A] := rfl
      refine ⟨_, rfl, ?_⟩
      simp only [rowIn, shortRow, hfeed, List.append_assoc]

/-! ## Rows are lines -/

namespace Bytes

theorem oneLine_blanks (count : Nat) : (blanks count).OneLine := by
  have hspace : ∀ byte ∈ blanks count, byte = ' '.toUInt8 := fun _ => List.eq_of_mem_replicate
  exact ⟨fun hmem => absurd (hspace _ hmem) (by decide),
    fun hmem => absurd (hspace _ hmem) (by decide)⟩

theorem oneLine_commaSeparated {parts : List Bytes} (h : ∀ part ∈ parts, part.OneLine) :
    (commaSeparated parts).OneLine := by
  have hcomma : (ofAscii ", ").OneLine := oneLine_ofAscii (by decide)
  induction parts with
  | nil => exact oneLine_nil
  | cons part parts ih =>
      obtain ⟨hpart, hparts⟩ := List.forall_mem_cons.mp h
      cases parts with
      | nil => simpa [commaSeparated] using hpart
      | cons next parts =>
          have hsplit : commaSeparated (part :: next :: parts) =
              part ++ (ofAscii ", " ++ commaSeparated (next :: parts)) := rfl
          rw [hsplit, oneLine_append, oneLine_append]
          exact ⟨hpart, hcomma, ih hparts⟩

end Bytes

theorem LexemeKind.oneLine_name (kind : LexemeKind) : (Bytes.ofAscii kind.name).OneLine := by
  cases kind <;> exact Bytes.oneLine_ofAscii (by decide)

theorem LiteralKind.oneLine_name (literal : LiteralKind) : (Bytes.ofAscii literal.name).OneLine := by
  cases literal <;> exact Bytes.oneLine_ofAscii (by decide)

theorem Symbol.oneLine_name (symbol : Symbol) : (Bytes.ofAscii symbol.name).OneLine := by
  cases symbol <;> exact Bytes.oneLine_ofAscii (by decide)

namespace Tag

theorem oneLine_details (tag : Tag) : ∀ detail ∈ tag.details, detail.OneLine := by
  have hnoted : ∀ {holds : Bool} {note : Bytes}, note.OneLine →
      ∀ detail ∈ if holds then [note] else [], detail.OneLine := by
    intro holds note hnote
    cases holds
    · simp
    · simpa using hnote
  have hdoc : (Bytes.ofAscii "doc").OneLine := Bytes.oneLine_ofAscii (by decide)
  have hopen : (Bytes.ofAscii "unterminated").OneLine := Bytes.oneLine_ofAscii (by decide)
  have hraw : (Bytes.ofAscii "raw").OneLine := Bytes.oneLine_ofAscii (by decide)
  unfold details
  cases tag.kind with
  | lineComment | blockComment => exact List.forall_mem_append.mpr ⟨hnoted hdoc, hnoted hopen⟩
  | identifier => exact hnoted hraw
  | literal =>
      refine List.forall_mem_cons.mpr
        ⟨Bytes.oneLine_append.mpr ⟨tag.literal.oneLine_name, ?_⟩, hnoted hopen⟩
      split
      next => exact Bytes.oneLine_append.mpr ⟨Bytes.oneLine_ofAscii (by decide), Bytes.oneLine_decimal _⟩
      next => exact Bytes.oneLine_nil
  | operator | punctuation => exact List.forall_mem_singleton.mpr tag.symbol.oneLine_name
  | whitespace | keyword | lifetime | unknown => exact List.forall_mem_nil _

theorem oneLine_describe (tag : Tag) : tag.describe.OneLine := by
  have hdetails := tag.oneLine_details
  unfold describe
  dsimp only
  split
  next => exact tag.kind.oneLine_name
  next =>
    simp only [Bytes.oneLine_append]
    exact ⟨⟨⟨tag.kind.oneLine_name, Bytes.oneLine_ofAscii (by decide)⟩,
      Bytes.oneLine_commaSeparated hdetails⟩, Bytes.oneLine_ofAscii (by decide)⟩

end Tag

/-- A row has no line break, even if it describes a lexeme of many lines. -/
theorem Lexeme.DescribedBy.oneLine {format : Format} {lexeme : Lexeme} {row : Bytes}
    (h : lexeme.DescribedBy format row) : row.OneLine := by
  have hvisible := Bytes.oneLine_visible lexeme.text
  cases format with
  | table =>
      obtain ⟨before, behind, -, -, rfl⟩ := h
      simp only [Bytes.oneLine_append]
      exact ⟨⟨⟨⟨⟨⟨lexeme.oneLine_describe, Bytes.oneLine_blanks _⟩, Bytes.oneLine_decimal _⟩,
        Bytes.oneLine_blanks _⟩, ⟨Bytes.oneLine_decimal _, Bytes.oneLine_ofAscii (by decide)⟩,
          Bytes.oneLine_decimal _⟩, Bytes.oneLine_blanks _⟩, hvisible⟩
  | tokens =>
      rw [DescribedBy] at h
      rw [h]
      simp only [Bytes.oneLine_append]
      exact ⟨⟨⟨⟨⟨⟨⟨⟨Bytes.oneLine_ofAscii (by decide), lexeme.kind.oneLine_name⟩,
        Bytes.oneLine_ofAscii (by decide)⟩, hvisible⟩, Bytes.oneLine_ofAscii (by decide)⟩,
        Bytes.oneLine_decimal _⟩, Bytes.oneLine_ofAscii (by decide)⟩, Bytes.oneLine_decimal _⟩,
        Bytes.oneLine_ofAscii (by decide)⟩

/-! ## Listings -/

/-- Whether a lexeme with a tag is listed: any, or none that is whitespace or an ordinary comment. -/
def Tag.IsListed (skipTrivia : Bool) (tag : Tag) : Prop :=
  skipTrivia = true → tag.kind ≠ .whitespace ∧
    (tag.kind = .lineComment ∨ tag.kind = .blockComment → tag.isDoc = true)

instance (skipTrivia : Bool) (tag : Tag) : Decidable (tag.IsListed skipTrivia) :=
  inferInstanceAs (Decidable (_ → _ ∧ (_ → _)))

theorem Tag.isListed_iff (tag : Tag) : tag.IsListed true ↔ tag.isTrivia = false := by
  rw [IsListed, isTrivia]
  cases tag.kind <;> simp

/-- The rows before those of the lexemes. -/
def Format.header (format : Format) (count : Nat) : List Bytes :=
  match format with
  | .table => [Bytes.ofAscii "Lexemes: " ++ Bytes.decimal count]
  | .tokens => []

theorem Format.oneLine_header (format : Format) (count : Nat) :
    ∀ row ∈ format.header count, row.OneLine := by
  cases format with
  | table =>
      exact List.forall_mem_singleton.mpr
        (Bytes.oneLine_append.mpr ⟨Bytes.oneLine_ofAscii (by decide), Bytes.oneLine_decimal count⟩)
  | tokens => exact List.forall_mem_nil _

namespace Options

theorem listed_eq (options : Options) (lexemes : List Lexeme) :
    options.listed lexemes =
      lexemes.filter fun lexeme => lexeme.toTag.IsListed options.skipTrivia := by
  rw [listed]
  cases options.skipTrivia with
  | true =>
      rw [if_pos rfl]
      apply List.filter_congr
      intro lexeme _
      rw [Bool.eq_iff_iff, Bool.not_eq_true', decide_eq_true_iff]
      exact lexeme.isListed_iff.symm
  | false =>
      rw [if_neg Bool.false_ne_true, eq_comm, List.filter_eq_self]
      intro lexeme _
      exact decide_eq_true fun h => absurd h Bool.false_ne_true

theorem listing_eq (options : Options) (lexemes : List Lexeme) :
    options.listing lexemes =
      (options.format.header (options.listed lexemes).length).flatMap (· ++ [0x0A]) ++
        (options.listed lexemes).flatMap (Lexeme.rowIn options.format) := by
  rw [listing]
  cases options.format with
  | table =>
      rw [Bytes.ofAscii_newline, Format.header, List.flatMap_singleton]
      rfl
  | tokens => rfl

end Options

/-- The rows of some lexemes, one for each and in their order. -/
theorem Lexeme.exists_rows_eq (format : Format) (lexemes : List Lexeme) :
    ∃ rows, List.Forall₂ (DescribedBy format) lexemes rows ∧ (∀ row ∈ rows, row.OneLine) ∧
      lexemes.flatMap (rowIn format) = rows.flatMap (· ++ [0x0A]) := by
  induction lexemes with
  | nil => exact ⟨[], .nil, List.forall_mem_nil _, rfl⟩
  | cons lexeme lexemes ih =>
      obtain ⟨row, hrow, hrowIn⟩ := lexeme.exists_rowIn_eq format
      obtain ⟨rows, hrows, honeLine, hflatMap⟩ := ih
      refine ⟨row :: rows, .cons hrow hrows, List.forall_mem_cons.mpr ⟨hrow.oneLine, honeLine⟩, ?_⟩
      rw [List.flatMap_cons, List.flatMap_cons, hrowIn, hflatMap]

/-- A run that reads a source lists as many rows as there are lexemes to list, behind a header with their
number if they are listed as a table. Each row describes its lexeme in one line, so the lines of the output are
the rows. -/
theorem run_stdout [XidClasses] {options : Options} {inputs : Inputs} {dialect : Dialect}
    {source : NamedSource} (h : options.load inputs = .ok (dialect, source)) :
    let listed := (dialect.lexemes source.text).filter fun lexeme =>
      lexeme.toTag.IsListed options.skipTrivia
    let header := options.format.header listed.length
    ∃ rows, rows.length = listed.length ∧
      List.Forall₂ (Lexeme.DescribedBy options.format) listed rows ∧
      (run options inputs).stdout = (header ++ rows).flatMap (· ++ [0x0A]) ∧
      (∀ row ∈ header ++ rows, row.OneLine) ∧
      Bytes.lines (run options inputs).stdout = header ++ rows ++ [[]] := by
  intro listed header
  obtain ⟨rows, hrows, hlines, hflatMap⟩ := Lexeme.exists_rows_eq options.format listed
  have hstdout : (run options inputs).stdout = (header ++ rows).flatMap (· ++ [0x0A]) := by
    rw [run_of_load h, List.flatMap_append, ← hflatMap]
    exact (options.listing_eq _).trans (by rw [options.listed_eq])
  have honeLine : ∀ row ∈ header ++ rows, row.OneLine :=
    List.forall_mem_append.mpr ⟨options.format.oneLine_header _, hlines⟩
  refine ⟨rows, hrows.length_eq.symm, hrows, hstdout, honeLine, ?_⟩
  rw [hstdout]
  exact Bytes.lines_flatMap fun row hrow => (honeLine row hrow).1

/-- A doc comment of two lines and an open string with a carriage return in it, without the blanks between. -/
theorem run_stdout_skipTrivia :
    let options : Options :=
      { expression := some (Bytes.ofAscii "/*!a\r\nb*/ \n\"c\rd"), skipTrivia := true }
    let inputs : Inputs := { stdin := .ok [], file? := fun _ => (none : Option Bytes) }
    let dialect : Dialect := { keywords := keywords2018 }
    let source : NamedSource := ⟨Bytes.ofAscii "<command line>", Bytes.ofAscii "/*!a\r\nb*/ \n\"c\rd"⟩
    let stdout := (run options inputs).stdout
    options.load inputs = .ok (dialect, source) ∧
      (∃ header rows : List Bytes, rows.length = 2 ∧ (∀ row ∈ header ++ rows, row.OneLine) ∧
        Bytes.lines stdout = header ++ rows ++ [[]]) ∧
      stdout = Bytes.ofAscii "Lexemes: 2\n" ++
        Bytes.ofAscii "BlockComment(doc)                   0  1:1      /*!a<CR><NL>b*/\n" ++
        Bytes.ofAscii "Literal(String, unterminated)      11  3:1      \"c<CR>d\n" := by
  intro options inputs dialect source stdout
  have hload : options.load inputs = .ok (dialect, source) := rfl
  obtain ⟨rows, hlength, -, -, honeLine, hlines⟩ := run_stdout hload
  have htwo : rows.length = 2 := by
    rw [hlength]
    decide +kernel
  exact ⟨hload, ⟨_, rows, htwo, honeLine, hlines⟩, by decide +kernel⟩

end RustLexer
