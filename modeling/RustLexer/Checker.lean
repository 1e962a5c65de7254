import RustLexer.Checker.Number
import RustLexer.Checker.Quoted
import RustLexer.Checker.RawString

/-! # The checker

The lexer takes every source; the checker says which lexemes are not valid. A lexeme has at most one
fault, which depends on that lexeme alone, so checking a sequence of lexemes collects the diagnostics of
each in turn.
-/

namespace RustLexer

/-- The fault in a doc comment: a carriage return that does not belong to a line break. -/
def Comment.docFault? (text : Bytes) : Option Fault :=
  let text := runes text
  (findSuffix? atBareReturn text).map fun index =>
    { cause := .bareReturnInDoc, offset := Rune.width (text.take index) }

namespace Lexeme

/-- The fault in a literal. The delimiters are judged before the body. -/
def literalFault? (lexeme : Lexeme) : Option Fault :=
  if lexeme.literal.isRaw && RawString.maxHashes < lexeme.hashes then
    some { cause := .tooManyHashes }
  else if !lexeme.terminated then some { cause := .unterminatedLiteral lexeme.literal }
  else match lexeme.literal with
    | .integer => Number.fault? false (runes lexeme.text)
    | .float => Number.fault? true (runes lexeme.text)
    | .char | .byteChar | .string | .byteString =>
        Quoted.fault? lexeme.literal (runes lexeme.text)
    | .rawString | .rawByteString =>
        RawString.fault? lexeme.literal lexeme.hashes.toNat lexeme.text

/-- The fault in a lexeme. -/
def fault? (lexeme : Lexeme) : Option Fault :=
  match lexeme.kind with
  | .unknown => some { cause := .unknownLexeme lexeme.text }
  | .blockComment =>
      if !lexeme.terminated then some { cause := .unterminatedBlockComment }
      else if lexeme.isDoc then Comment.docFault? lexeme.text
      else none
  | .lineComment => if lexeme.isDoc then Comment.docFault? lexeme.text else none
  | .literal => lexeme.literalFault?
  | .whitespace | .identifier | .keyword | .lifetime | .operator | .punctuation => none

/-- The diagnostic of a lexeme that has a fault. -/
def diagnostic? (lexeme : Lexeme) : Option Diagnostic :=
  lexeme.fault?.map fun fault => fault.diagnostic lexeme

end Lexeme

/-- The diagnostics of the lexemes checked so far, in that order. -/
structure Checker where
  diagnostics : Array Diagnostic := #[]

namespace Checker

/-- Checks one more lexeme. -/
def check (checker : Checker) (lexeme : Lexeme) : Checker :=
  match lexeme.diagnostic? with
  | some diagnostic => { diagnostics := checker.diagnostics.push diagnostic }
  | none => checker

/-- Checks lexemes in turn. -/
def checkAll (checker : Checker) (lexemes : List Lexeme) : Checker :=
  lexemes.foldl check checker

/-- Whether an error, and not only warnings, has been found. -/
def hasErrors (checker : Checker) : Bool :=
  checker.diagnostics.any Diagnostic.isError

end Checker

end RustLexer
