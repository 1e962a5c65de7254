import RustLexer.Text.Lookahead

/-! # Symbols

The operators and the punctuation, with their spellings. Where several spellings start a text, the
longest is the symbol there; no spelling has more than three characters.
-/

namespace RustLexer

inductive Symbol
  | plus
  | minus
  | star
  | slash
  | percent
  | caret
  | not
  | and
  | or
  | andAnd
  | orOr
  | shl
  | shr
  | plusEq
  | minusEq
  | starEq
  | slashEq
  | percentEq
  | caretEq
  | andEq
  | orEq
  | shlEq
  | shrEq
  | eq
  | eqEq
  | ne
  | gt
  | lt
  | ge
  | le
  | dotDot
  | dotDotDot
  | dotDotEq
  | openParen
  | closeParen
  | openBracket
  | closeBracket
  | openBrace
  | closeBrace
  | comma
  | semi
  | colon
  | pathSep
  | dot
  | rArrow
  | fatArrow
  | pound
  | dollar
  | question
  | atSign
  | underscore
deriving DecidableEq

/-- The two classes that symbols fall into. -/
inductive SymbolClass
  | operator
  | punctuation
deriving DecidableEq

def SymbolClass.name : SymbolClass → String
  | operator => "Operator"
  | punctuation => "Punctuation"

namespace Symbol

def all : List Symbol :=
  [plus, minus, star, slash, percent, caret, not, and, or, andAnd, orOr, shl, shr, plusEq,
   minusEq, starEq, slashEq, percentEq, caretEq, andEq, orEq, shlEq, shrEq, eq, eqEq, ne, gt, lt,
   ge, le, dotDot, dotDotDot, dotDotEq, openParen, closeParen, openBracket, closeBracket,
   openBrace, closeBrace, comma, semi, colon, pathSep, dot, rArrow, fatArrow, pound, dollar,
   question, atSign, underscore]

def name : Symbol → String
  | plus => "Plus"
  | minus => "Minus"
  | star => "Star"
  | slash => "Slash"
  | percent => "Percent"
  | caret => "Caret"
  | not => "Not"
  | and => "And"
  | or => "Or"
  | andAnd => "AndAnd"
  | orOr => "OrOr"
  | shl => "Shl"
  | shr => "Shr"
  | plusEq => "PlusEq"
  | minusEq => "MinusEq"
  | starEq => "StarEq"
  | slashEq => "SlashEq"
  | percentEq => "PercentEq"
  | caretEq => "CaretEq"
  | andEq => "AndEq"
  | orEq => "OrEq"
  | shlEq => "ShlEq"
  | shrEq => "ShrEq"
  | eq => "Eq"
  | eqEq => "EqEq"
  | ne => "Ne"
  | gt => "Gt"
  | lt => "Lt"
  | ge => "Ge"
  | le => "Le"
  | dotDot => "DotDot"
  | dotDotDot => "DotDotDot"
  | dotDotEq => "DotDotEq"
  | openParen => "OpenParen"
  | closeParen => "CloseParen"
  | openBracket => "OpenBracket"
  | closeBracket => "CloseBracket"
  | openBrace => "OpenBrace"
  | closeBrace => "CloseBrace"
  | comma => "Comma"
  | semi => "Semi"
  | colon => "Colon"
  | pathSep => "PathSep"
  | dot => "Dot"
  | rArrow => "RArrow"
  | fatArrow => "FatArrow"
  | pound => "Pound"
  | dollar => "Dollar"
  | question => "Question"
  | atSign => "At"
  | underscore => "Underscore"

def spelling : Symbol → String
  | plus => "+"
  | minus => "-"
  | star => "*"
  | slash => "/"
  | percent => "%"
  | caret => "^"
  | not => "!"
  | and => "&"
  | or => "|"
  | andAnd => "&&"
  | orOr => "||"
  | shl => "<<"
  | shr => ">>"
  | plusEq => "+="
  | minusEq => "-="
  | starEq => "*="
  | slashEq => "/="
  | percentEq => "%="
  | caretEq => "^="
  | andEq => "&="
  | orEq => "|="
  | shlEq => "<<="
  | shrEq => ">>="
  | eq => "="
  | eqEq => "=="
  | ne => "!="
  | gt => ">"
  | lt => "<"
  | ge => ">="
  | le => "<="
  | dotDot => ".."
  | dotDotDot => "..."
  | dotDotEq => "..="
  | openParen => "("
  | closeParen => ")"
  | openBracket => "["
  | closeBracket => "]"
  | openBrace => "\x7b"
  | closeBrace => "\x7d"
  | comma => ","
  | semi => ";"
  | colon => ":"
  | pathSep => "::"
  | dot => "."
  | rArrow => "->"
  | fatArrow => "=>"
  | pound => "#"
  | dollar => "$"
  | question => "?"
  | atSign => "@"
  | underscore => "_"

def symbolClass : Symbol → SymbolClass
  | openParen | closeParen | openBracket | closeBracket | openBrace | closeBrace | comma | semi
  | colon | pathSep | dot | rArrow | fatArrow | pound | dollar | question | atSign | underscore =>
      .punctuation
  | _ => .operator

/-- The bytes of a spelling. -/
def text (symbol : Symbol) : Bytes := Bytes.ofAscii symbol.spelling

/-- The symbol with exactly this spelling. -/
def ofText? (text : Bytes) : Option Symbol :=
  all.find? fun symbol => symbol.text = text

/-- The number of characters of a spelling. -/
def length (symbol : Symbol) : Nat := symbol.text.length

/-- The symbol with the longest spelling that starts a text. -/
def longest? (text : List Rune) : Option Symbol :=
  [3, 2, 1].findSome? fun length => ofText? (Rune.encode (text.take length))

theorem length_pos (symbol : Symbol) : 0 < symbol.length := by
  cases symbol <;> decide

end Symbol

end RustLexer
