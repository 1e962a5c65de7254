import RustLexer.Edition
import RustLexer.Lexer.Cut
import RustLexer.Text.Cursor

/-! # The lexer

A lexer is a cursor and the dialect that the source is read under. It yields one lexeme after another,
each the piece of the source that the next cut takes, until the source is used up. Nothing is carried
from one lexeme to the next but the place in the source.
-/

namespace RustLexer

structure Lexer where
  dialect : Dialect
  cursor : Cursor

namespace Lexer

/-- A lexer at the start of a source. -/
def ofSource (dialect : Dialect) (source : Bytes) : Lexer where
  dialect := dialect
  cursor := Cursor.ofSource source

def atEnd (lexer : Lexer) : Bool := lexer.cursor.atEnd

theorem atEnd_iff {lexer : Lexer} : lexer.atEnd = true ↔ lexer.cursor.rest = [] :=
  List.isEmpty_iff

theorem atEnd_eq_false_iff {lexer : Lexer} : lexer.atEnd = false ↔ lexer.cursor.rest ≠ [] :=
  List.isEmpty_eq_false_iff

variable [XidClasses]

/-- The construct at the cursor. -/
def construct (lexer : Lexer) : Construct :=
  Construct.ofText lexer.cursor.atStart lexer.cursor.rest

/-- The cut at the cursor. -/
def cut (lexer : Lexer) : Cut :=
  lexer.construct.cut lexer.dialect.keywords lexer.cursor.rest

theorem cut_length_pos {lexer : Lexer} (h : lexer.cursor.rest ≠ []) : 0 < lexer.cut.length :=
  Construct.cut_length_pos _ h (Construct.ofText_markedIn _ _)

/-- The lexeme that a cut takes and the lexer behind it. -/
def take (lexer : Lexer) (cut : Cut) : Lexeme × Lexer :=
  let cursor := lexer.cursor.advance cut.length
  ({ toTag := cut.tag
     text := Rune.encode (lexer.cursor.rest.take cut.length)
     span := ⟨lexer.cursor.position, cursor.position⟩ },
   { lexer with cursor })

/-- The next lexeme and the lexer behind it; none at the end of the source. -/
def next? (lexer : Lexer) : Option (Lexeme × Lexer) :=
  if lexer.atEnd then none else some (lexer.take lexer.cut)

/-- Each lexeme leaves fewer runes to read. -/
theorem length_rest_next_lt {lexer next : Lexer} {lexeme : Lexeme}
    (h : lexer.next? = some (lexeme, next)) :
    next.cursor.rest.length < lexer.cursor.rest.length := by
  unfold next? at h
  split at h
  · cases h
  next hend =>
    have hne : lexer.cursor.rest ≠ [] := mt atEnd_iff.mpr hend
    have hpos : 0 < lexer.cut.length := lexer.cut_length_pos hne
    have hlen := List.length_pos_iff.mpr hne
    cases h
    simp only [Cursor.advance, List.length_drop]
    omega

/-- All the lexemes that are left, and the lexer at the end of the source. -/
def drain (lexer : Lexer) : List Lexeme × Lexer :=
  go [] lexer
where
  /-- Reads on, with the lexemes already read in reverse. -/
  go (read : List Lexeme) (lexer : Lexer) : List Lexeme × Lexer :=
    match _hnext : lexer.next? with
    | none => (read.reverse, lexer)
    | some (lexeme, next) => go (lexeme :: read) next
  termination_by lexer.cursor.rest.length
  decreasing_by exact length_rest_next_lt _hnext

end Lexer

/-- The lexemes of a source under a dialect. -/
def Dialect.lexemes [XidClasses] (dialect : Dialect) (source : Bytes) : List Lexeme :=
  (Lexer.ofSource dialect source).drain.1

/-- The lexemes of a source in an edition. Only the edition can be refused: any source has lexemes. -/
def Edition.lexemes [XidClasses] (edition : Edition) (source : Bytes) : Except EditionError (List Lexeme) :=
  (Dialect.ofEdition edition).map fun dialect => dialect.lexemes source

end RustLexer
