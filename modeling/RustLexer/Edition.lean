import RustLexer.Keywords

/-! # Editions

An edition of the language is named by its year. Sources are read under a dialect, an edition with its
keyword table; only the 2018 edition has one.
-/

namespace RustLexer

inductive Edition
  | rust2015
  | rust2018
  | rust2021
deriving DecidableEq

def Edition.year : Edition → String
  | rust2015 => "2015"
  | rust2018 => "2018"
  | rust2021 => "2021"

/-- Why an edition cannot be used. -/
inductive EditionError
  | unknown (text : Bytes)
  | unsupported (edition : Edition)
deriving DecidableEq

/-- The wording of an edition error. A text that holds a NUL byte is quoted only up to it. -/
def EditionError.message : EditionError → Bytes
  | unknown text =>
      Bytes.ofAscii "unknown edition '" ++ text.takeWhile (· != 0) ++
        Bytes.ofAscii "' (expected 2015, 2018 or 2021)"
  | unsupported edition =>
      Bytes.ofAscii "edition " ++ Bytes.ofAscii edition.year ++
        Bytes.ofAscii " is not supported (only 2018 is)"

namespace Edition

/-- Drops the word `rust`, in any case, from the front of a text. -/
def dropRust (text : Bytes) : Bytes :=
  if (text.take 4).map Bytes.toLower = Bytes.ofAscii "rust" then text.drop 4 else text

/-- Reads an edition from its year. Blanks around the text and the word `rust` before the year do not
count. -/
def ofText (text : Bytes) : Except EditionError Edition :=
  let year := dropRust (Bytes.trim text)
  match [rust2015, rust2018, rust2021].find? fun edition => Bytes.ofAscii edition.year = year with
  | some edition => .ok edition
  | none => .error (.unknown text)

end Edition

/-- An edition with the words that are keywords in it. -/
structure Dialect where
  edition : Edition := .rust2018
  keywords : Keywords := #[]

/-- The dialect of an edition. -/
def Dialect.ofEdition : Edition → Except EditionError Dialect
  | .rust2018 => .ok { edition := .rust2018, keywords := keywords2018 }
  | edition => .error (.unsupported edition)

end RustLexer
