import RustLexer.Checker
import RustLexer.CodePoint.Unicode
import RustLexer.Command.Excerpt
import RustLexer.Lexeme.Listing
import RustLexer.Lexer

/-! # The command

One run of the command lists the lexemes of a source and reports what is wrong with them. A run is a
function of its options and of what can be read: it answers with the exit status and the two outputs,
and does nothing else.
-/

namespace RustLexer

/-- The two forms of the listing. -/
inductive Format
  | table
  | tokens
deriving DecidableEq

structure Options where
  /-- The path of the input; `-` is the standard input. -/
  input : Bytes := []
  /-- A text to read instead of an input. -/
  expression : Option Bytes := none
  edition : Bytes := Bytes.ofAscii "2018"
  format : Format := .table
  /-- Whether the listing leaves out whitespace and ordinary comments. -/
  skipTrivia : Bool := false
  /-- Whether all lexemes are checked, and not only those that are wrong by their tag. -/
  check : Bool := false

/-- What comes of reading an input: its bytes, or the text of the error. -/
abbrev ReadResult := Except Bytes Bytes

/-- Bytes that are at hand are read without an error. -/
instance : Coe Bytes ReadResult := ⟨.ok⟩

/-- Where it is known which files exist, reading one that does not is an error. -/
instance : Coe (Option Bytes) ReadResult where
  coe file := file.elim (.error (Bytes.ofAscii "No such file or directory")) .ok

/-- What a run can read: the standard input, and the files by their paths. -/
structure Inputs where
  stdin : ReadResult
  file? : Bytes → ReadResult

/-- What a run comes to. -/
structure Outcome where
  exit : Nat
  stdout : Bytes := []
  stderr : Bytes := []

/-- A source with the name that diagnostics give it. -/
structure NamedSource where
  name : Bytes
  text : Bytes

/-- Reads the input at a path. -/
def Inputs.read (inputs : Inputs) (path : Bytes) : Except Bytes NamedSource :=
  if path = Bytes.ofAscii "-" then inputs.stdin.map fun text => ⟨Bytes.ofAscii "<stdin>", text⟩
  else (inputs.file? path).map fun text => ⟨path, text⟩

/-- Why a run does not get as far as reading a source. -/
inductive CommandError
  | noInput
  | edition (error : EditionError)
  /-- The input cannot be read, for the reason that the system gives. -/
  | cannotOpen (path reason : Bytes)

def CommandError.message : CommandError → Bytes
  | noInput =>
      Bytes.ofAscii "no input: pass a file, '-' for standard input, or -e <text>"
  | edition error => error.message
  | cannotOpen path reason =>
      Bytes.ofAscii "cannot open file '" ++ path ++ Bytes.ofAscii "': " ++ reason

/-- A line of the error output, under the name of the command and a severity. -/
def Severity.report (severity : Severity) (message : Bytes) : Bytes :=
  Bytes.ofAscii "lexemize: " ++ Bytes.ofAscii severity.name ++ Bytes.ofAscii ": " ++ message ++
    Bytes.ofAscii "\n"

/-- A diagnostic with its place, and the excerpt that shows it. -/
def Diagnostic.report (name : Bytes) (sourceLines : Array Bytes) (diagnostic : Diagnostic) :
    Bytes :=
  let { line, column, .. } := diagnostic.position
  diagnostic.severity.report
      (name ++ Bytes.ofAscii ":" ++ Bytes.decimal line ++ Bytes.ofAscii ":" ++
        Bytes.decimal column ++ Bytes.ofAscii ": " ++ diagnostic.message) ++
    Excerpt.rows sourceLines diagnostic

namespace Options

/-- The dialect that the options ask for. -/
def dialect (options : Options) : Except EditionError Dialect := do
  Dialect.ofEdition (← Edition.ofText options.edition)

/-- The source that the options ask for. An expression is preferred to an input. -/
def source (options : Options) (inputs : Inputs) : Except CommandError NamedSource :=
  match options.expression with
  | some text => .ok ⟨Bytes.ofAscii "<command line>", text⟩
  | none => (inputs.read options.input).mapError (.cannotOpen options.input)

/-- The lexemes that are listed. -/
def listed (options : Options) (lexemes : List Lexeme) : List Lexeme :=
  if options.skipTrivia then lexemes.filter fun lexeme => !lexeme.isTrivia else lexemes

/-- The listing of a sequence of lexemes. -/
def listing (options : Options) (lexemes : List Lexeme) : Bytes :=
  let listed := options.listed lexemes
  match options.format with
  | .table =>
      Bytes.ofAscii "Lexemes: " ++ Bytes.decimal listed.length ++ Bytes.ofAscii "\n" ++
        listed.flatMap Lexeme.row
  | .tokens => listed.flatMap Lexeme.shortRow

/-- The lexemes that are checked. Unknown and unterminated ones are always among them. -/
def checked (options : Options) (lexemes : List Lexeme) : List Lexeme :=
  if options.check then lexemes
  else lexemes.filter fun lexeme => lexeme.kind = .unknown || !lexeme.terminated

/-- The diagnostics that are reported. -/
def checker (options : Options) (lexemes : List Lexeme) : Checker :=
  Checker.checkAll {} (options.checked lexemes)

/-- What a run has to read: a source and the dialect to read it under. -/
def load (options : Options) (inputs : Inputs) : Except CommandError (Dialect × NamedSource) := do
  if options.input.isEmpty && options.expression.isNone then
    throw .noInput
  let dialect ← options.dialect.mapError .edition
  let source ← options.source inputs
  return (dialect, source)

end Options

/-- One run of the command. It fails if it cannot read a source or if it reports an error. -/
def run [XidClasses] (options : Options) (inputs : Inputs) : Outcome :=
  match options.load inputs with
  | .error error => { exit := 1, stderr := Severity.error.report error.message }
  | .ok (dialect, source) =>
    let lexemes := dialect.lexemes source.text
    let checker := options.checker lexemes
    let sourceLines := (Bytes.lines source.text).toArray
    { exit := if checker.hasErrors then 1 else 0
      stdout := options.listing lexemes
      stderr := checker.diagnostics.toList.flatMap (Diagnostic.report source.name sourceLines) }

end RustLexer
