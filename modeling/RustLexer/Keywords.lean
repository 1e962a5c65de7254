import RustLexer.Text.Bytes

/-! # Keyword tables

A keyword table is a sorted array of words, compared as byte texts, and a word is looked up by halving
the part of the table where it can stand.
-/

namespace RustLexer

/-- A table of words in ascending byte order. -/
abbrev Keywords := Array Bytes

namespace Keywords

/-- The number of entries that come before a word, by binary search. -/
def lowerBound (keywords : Keywords) (word : Bytes) : Nat :=
  search 0 keywords.size
where
  /-- The bound of the search in the `count` entries from `first` on. -/
  search (first count : Nat) : Nat :=
    if count = 0 then first
    else
      let half := count / 2
      if (keywords[first + half]?).any (· < word) then
        search (first + half + 1) (count - (half + 1))
      else search first half
  termination_by count

/-- Whether a word stands in the table. -/
def contains (keywords : Keywords) (word : Bytes) : Bool :=
  keywords[keywords.lowerBound word]?.any fun entry => ¬ word < entry

end Keywords

/-- The strict and the reserved words of the 2018 edition. Its weak keywords are identifiers, but for
`union`. -/
def keywords2018 : Keywords :=
  #["Self", "abstract", "as", "async", "await", "become", "box", "break", "const", "continue",
    "crate", "do", "dyn", "else", "enum", "extern", "false", "final", "fn", "for", "if", "impl",
    "in", "let", "loop", "macro", "match", "mod", "move", "mut", "override", "priv", "pub", "ref",
    "return", "self", "static", "struct", "super", "trait", "true", "try", "type", "typeof",
    "union", "unsafe", "unsized", "use", "virtual", "where", "while", "yield"].map Bytes.ofAscii

end RustLexer
