import RustLexer.Diagnostic.Cause
import RustLexer.Lexeme
import RustLexer.Text.Position

/-! # Diagnostics

A fault is what is wrong with a lexeme and where in its text; a diagnostic places the fault in the
source. Where a fault stands is found by walking over the runes of the lexeme from its start.
-/

namespace RustLexer

/-- What is wrong with a lexeme, and the byte of its text where it is wrong. -/
structure Fault where
  cause : Cause
  offset : Nat := 0
deriving DecidableEq

/-- A fault placed in the source: the lexeme that has it and the position where it is. -/
structure Diagnostic where
  cause : Cause
  span : Span
  position : Position
deriving DecidableEq

namespace Diagnostic

def severity (diagnostic : Diagnostic) : Severity := diagnostic.cause.severity

def message (diagnostic : Diagnostic) : Bytes := diagnostic.cause.message

def isError (diagnostic : Diagnostic) : Bool := diagnostic.severity = .error

end Diagnostic

/-- The position in the source of a byte of a lexeme's text. A byte within a rune has the position just
after that rune, and a byte beyond the text that of its end. -/
def Lexeme.locate (lexeme : Lexeme) (offset : Nat) : Position :=
  lexeme.span.start.shift (Position.upTo {} offset (runes lexeme.text))

/-- A fault of a lexeme, placed in the source. -/
def Fault.diagnostic (fault : Fault) (lexeme : Lexeme) : Diagnostic where
  cause := fault.cause
  span := lexeme.span
  position := lexeme.locate fault.offset

end RustLexer
