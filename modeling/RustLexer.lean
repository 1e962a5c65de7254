import RustLexer.Main
import RustLexer.Motion
import RustLexer.Proofs.Text.Ascii
import RustLexer.Proofs.Text.Walk
import RustLexer.Proofs.Cursor
import RustLexer.Proofs.Lexer.Run
import RustLexer.Proofs.Lexer.Tiling
import RustLexer.Proofs.Lexer.Restart
import RustLexer.Proofs.Truncation.Number
import RustLexer.Proofs.Truncation.Comment
import RustLexer.Proofs.Truncation.Quoted
import RustLexer.Proofs.Truncation.Construct
import RustLexer.Proofs.Lexer.SelfLexing
import RustLexer.Proofs.Lexer.Shape
import RustLexer.Proofs.LineFeed.Cut
import RustLexer.Proofs.Lexer.Concatenation
import RustLexer.Proofs.Grammar.Quoted
import RustLexer.Proofs.Checker.Escape
import RustLexer.Proofs.Checker.Quoted
import RustLexer.Proofs.Checker.Number
import RustLexer.Proofs.Checker.NonAscii
import RustLexer.Proofs.Checker.Closing
import RustLexer.Proofs.Checker.RawString
import RustLexer.Proofs.Lexer.Place
import RustLexer.Proofs.Lexer.Payload
import RustLexer.Proofs.Keywords
import RustLexer.Proofs.Grammar.Word
import RustLexer.Proofs.Lexer.MaximalMunch
import RustLexer.Proofs.Lexer.RawString
import RustLexer.Proofs.Checker.Offset
import RustLexer.Proofs.Checker.Locate
import RustLexer.Proofs.Grammar.Comment
import RustLexer.Proofs.Comment
import RustLexer.Proofs.Checker.Sequence
import RustLexer.Proofs.Lexer.Classification
import RustLexer.Proofs.Command.Checking
import RustLexer.Proofs.Grammar.Numeral
import RustLexer.Proofs.Number
import RustLexer.Proofs.Checker.Message
import RustLexer.Proofs.Grammar.Closing
import RustLexer.Proofs.Quoted
import RustLexer.Proofs.Text.Lines
import RustLexer.Proofs.Command.Excerpt
import RustLexer.Proofs.Lexer.Lifetime
import RustLexer.Proofs.Lexer.Suffix
import RustLexer.Proofs.Lexer.HashCount
import RustLexer.Proofs.Lexer.LineComment
import RustLexer.Proofs.Checker.DocComment
import RustLexer.Proofs.Lexer.Schedule
import RustLexer.Proofs.Cursor.Reading
import RustLexer.Proofs.Cursor.Slice
import RustLexer.Proofs.Command.Listing
import RustLexer.Proofs.Guarded.Checker
