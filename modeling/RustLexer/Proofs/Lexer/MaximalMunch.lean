import RustLexer.CodePoint.Unicode
import RustLexer.Proofs.Grammar.Word
import RustLexer.Proofs.Keywords
import RustLexer.Proofs.Lexer.Place

/-! # Maximal munch

Whitespace, words and symbols reach as far as they can: nothing that could go on with them stands behind
them, and no longer symbol stands where they start. A rune is unknown only if nothing else can start with it
(`Construct.isPlain_of_ofText`). What each of these lexemes is in its source is `Lexeme.Lexical`.
-/

namespace RustLexer

/-- A lexeme follows the rule of its kind, and no longer one could. Comments, lifetimes and literals have
rules of their own. -/
def Lexeme.Lexical [XidClasses] (keywords : Keywords) (source : Bytes) (lexeme : Lexeme) : Prop :=
  let text := runes lexeme.text
  match lexeme.kind with
  | .whitespace =>
      text ≠ [] ∧ (∀ rune ∈ text, rune.isWhitespace = true) ∧
        ∀ rune ∈ (lexeme.behind source).head?, rune.isWhitespace = false
  | .identifier =>
      (∀ rune ∈ (lexeme.behind source).head?, rune.isIdentContinue = false) ∧
        if lexeme.isRaw then
          ∃ word, text.map Rune.char = 'r' :: '#' :: word ∧ Grammar.Word word
        else
          Grammar.Word (text.map Rune.char) ∧ lexeme.text ≠ Bytes.ofAscii "_" ∧
            lexeme.text ∉ keywords
  | .keyword =>
      (∀ rune ∈ (lexeme.behind source).head?, rune.isIdentContinue = false) ∧
        Grammar.Word (text.map Rune.char) ∧ lexeme.text ≠ Bytes.ofAscii "_" ∧
          lexeme.text ∈ keywords
  | .operator | .punctuation =>
      lexeme.text = lexeme.symbol.text ∧
        (lexeme.kind = .operator ↔ lexeme.symbol.symbolClass = .operator) ∧
        (∀ symbol : Symbol, symbol.text <+: source.drop lexeme.span.start.offset →
          symbol.length ≤ lexeme.symbol.length) ∧
        (lexeme.symbol = .underscore → ∀ rune ∈ (lexeme.behind source).head?, rune.isIdentContinue = false)
  | .unknown =>
      ∃ rune, text = [rune] ∧ rune.isWhitespace = false ∧ rune.char ≠ '\'' ∧ rune.char ≠ '"' ∧
        rune.isDigit = false ∧ rune.isIdentStart = false ∧
        ∀ symbol : Symbol, symbol.length = 1 → lexeme.text ≠ symbol.text
  | .lineComment | .blockComment | .lifetime | .literal => True

variable {text front back : List Rune}

/-! ## Symbols -/

theorem map_take_of_startsWith {chars : List Char} (h : startsWith text chars = true) :
    (text.take chars.length).map Rune.char = chars := by
  rw [List.map_take]
  exact (List.prefix_iff_eq_take.mp (startsWith_iff_isPrefix.mp h)).symm

namespace Symbol

theorem length_le_three (symbol : Symbol) : symbol.length ≤ 3 := by
  cases symbol <;> decide

theorem ofText?_text (symbol : Symbol) : ofText? symbol.text = some symbol := by
  cases symbol <;> decide

/-- A symbol at the front of a text is read there. -/
theorem encode_take_of_prefix {symbol : Symbol} {source : Bytes} (h : symbol.text <+: source) :
    Rune.encode ((runes source).take symbol.length) = symbol.text := by
  have hascii : ∀ char ∈ symbol.spelling.toList, char.toNat < 0x80 := by
    cases symbol <;> exact forall_ascii_of_all (by decide)
  have hlength : symbol.spelling.toList.length = symbol.length := by
    rw [length, text, Bytes.ofAscii, List.length_map]
  have hdecoded : ∀ rune ∈ (runes source).take symbol.length, rune.Decoded :=
    fun rune hrune => decoded_of_mem_runes rune (List.mem_of_mem_take hrune)
  rw [text, Bytes.ofAscii, Rune.encode_eq_map_iff hdecoded hascii, ← hlength]
  exact map_take_of_startsWith ((startsWith_runes_iff hascii source).mpr h)

theorem length_le_of_take {found symbol : Symbol} {count : Nat} (hcount : symbol.length ≤ count)
    (hsymbol : Rune.encode (text.take symbol.length) = symbol.text)
    (hfound : ofText? (Rune.encode (text.take count)) = some found) :
    symbol.length ≤ found.length := by
  have hsplit : text.take count =
      text.take symbol.length ++ (text.take count).drop symbol.length := by
    conv => lhs; rw [← List.take_append_drop symbol.length (text.take count), List.take_take,
      Nat.min_eq_left hcount]
  have htext : found.text =
      symbol.text ++ Rune.encode ((text.take count).drop symbol.length) := by
    rw [text_of_ofText? hfound, hsplit, Rune.encode_append, hsymbol, ← hsplit]
  rw [length, length, htext, List.length_append]
  exact Nat.le_add_right _ _

/-- No symbol that stands at the front of a text is longer than the one that is taken. -/
theorem length_le_of_longest? {found symbol : Symbol} (h : longest? text = some found)
    (hsymbol : Rune.encode (text.take symbol.length) = symbol.text) :
    symbol.length ≤ found.length := by
  have hhere : ofText? (Rune.encode (text.take symbol.length)) = some symbol := by
    rw [hsymbol, ofText?_text]
  have hpos := symbol.length_pos
  have hthree := symbol.length_le_three
  -- The longest spelling is tried first, and the one of the symbol in its turn.
  obtain hone | htwo | hthree : symbol.length = 1 ∨ symbol.length = 2 ∨ symbol.length = 3 := by
    omega
  · rw [hone]
    exact found.length_pos
  · rw [longest?, List.findSome?_cons] at h
    split at h
    next hfound =>
      obtain rfl := Option.some.inj h
      exact length_le_of_take hthree hsymbol hfound
    next =>
      rw [List.findSome?_cons, ← htwo, hhere] at h
      rw [Option.some.inj h]
  · rw [longest?, List.findSome?_cons, ← hthree, hhere] at h
    rw [Option.some.inj h]

/-- Nothing goes on with an underscore. -/
theorem length_le_of_underscore {symbol : Symbol} {rest : Bytes}
    (h : symbol.text <+: underscore.text ++ rest) : symbol.length ≤ underscore.length := by
  have hfirst : symbol.text.head? = underscore.text.head? := by
    obtain ⟨more, hmore⟩ := h
    have hne : symbol.text ≠ [] := List.length_pos_iff.mp symbol.length_pos
    have hhead := congrArg List.head? hmore
    rw [List.head?_append_of_ne_nil _ hne] at hhead
    exact hhead
  revert hfirst
  cases symbol <;> decide

theorem encode_take_one_ne (h : longest? text = none) (symbol : Symbol) :
    Rune.encode (text.take 1) ≠ symbol.text := by
  intro hsame
  simp only [longest?, List.findSome?_cons, hsame, ofText?_text] at h
  split at h
  next => cases h
  next => split at h <;> cases h

end Symbol

/-! ## Which construct it is -/

namespace Construct

/-- A symbol, or a rune that starts nothing. -/
def IsLeft (construct : Construct) : Prop :=
  construct = unknown ∨ ∃ found, construct = symbol found

theorem not_isLeft_of_rawString? {construct : Construct} (h : rawString? text = some construct) :
    ¬ construct.IsLeft := by
  unfold rawString? at h
  split at h
  next =>
    obtain ⟨hashes, -, rfl⟩ := Option.map_eq_some_iff.mp h
    simp [IsLeft]
  next =>
    split at h
    next =>
      obtain ⟨hashes, -, rfl⟩ := Option.map_eq_some_iff.mp h
      simp [IsLeft]
    next => cases h

variable [XidClasses]

/-- Nothing that has a rule of its own starts a text. -/
structure IsPlain (text : List Rune) : Prop where
  whitespace : startsIn Rune.isWhitespace text = false
  singleQuote : startsWith text ['\''] = false
  doubleQuote : startsWith text ['"'] = false
  digit : startsIn Rune.isDigit text = false
  identStart : startsIn Rune.isIdentStart text = false

theorem plain_of_ofPlainText {construct : Construct} (h : ofPlainText text = construct)
    (hleft : construct.IsLeft) :
    startsIn Rune.isDigit text = false ∧ startsIn Rune.isIdentStart text = false ∧
      (construct = unknown → Symbol.longest? text = none) := by
  unfold ofPlainText at h
  split at h
  next raw hraw => exact absurd (h ▸ hleft) (not_isLeft_of_rawString? hraw)
  next =>
    split at h
    next => simp [← h, IsLeft] at hleft
    next =>
    split at h
    next => simp [← h, IsLeft] at hleft
    next hdigit =>
    split at h
    next => simp [← h, IsLeft] at hleft
    next hstart =>
    refine ⟨Bool.eq_false_iff.mpr hdigit, Bool.eq_false_iff.mpr hstart, ?_⟩
    rintro rfl
    split at h
    next => cases h
    next hnone => exact hnone

/-- Symbols and unknown runes are what is left where nothing else starts. -/
theorem isPlain_of_ofText {atStart : Bool} {construct : Construct}
    (h : ofText atStart text = construct) (hleft : construct.IsLeft) :
    IsPlain text ∧ (construct = unknown → Symbol.longest? text = none) := by
  unfold ofText at h
  split at h
  next => simp [← h, IsLeft] at hleft
  next =>
  split at h
  next => simp [← h, IsLeft] at hleft
  next hwhite =>
  split at h
  next => simp [← h, IsLeft] at hleft
  next =>
  split at h
  next => simp [← h, IsLeft] at hleft
  next =>
  split at h
  next => simp [← h, IsLeft] at hleft
  next hsingle =>
  split at h
  next => simp [← h, IsLeft] at hleft
  next hdouble =>
  split at h
  next => simp [← h, IsLeft] at hleft
  next =>
  split at h
  next => simp [← h, IsLeft] at hleft
  next =>
    obtain ⟨hdigit, hstart, hnone⟩ := plain_of_ofPlainText h hleft
    exact ⟨⟨Bool.eq_false_iff.mpr hwhite, Bool.eq_false_iff.mpr hsingle,
      Bool.eq_false_iff.mpr hdouble, hdigit, hstart⟩, hnone⟩

end Construct

/-! ## Lexemes -/

theorem startsIn_of_underscore [XidClasses] (hdecoded : ∀ rune ∈ text, rune.Decoded)
    (h : Rune.encode (text.take Symbol.underscore.length) = Symbol.underscore.text) :
    startsIn Rune.isIdentStart text = true := by
  have hascii : ∀ char ∈ ['_'], char.toNat < 0x80 := forall_ascii_of_all (by decide)
  have hchars := (Rune.encode_eq_map_iff (fun rune hrune => hdecoded rune (List.mem_of_mem_take hrune))
    hascii).mp h
  obtain ⟨rune, more, hmore, hchar, -⟩ := List.map_eq_cons_iff.mp hchars
  cases text with
  | nil => cases hmore
  | cons first rest =>
      obtain ⟨rfl, -⟩ := List.cons.inj hmore
      rw [startsIn_iff]
      refine ⟨first, rest, rfl, ?_⟩
      rw [Rune.isIdentStart, Rune.code, hchar]
      rfl

theorem word_of_rawIdentifier [XidClasses] (hmark : startsWith (front ++ back) ['r', '#'] = true)
    (hstart : startsIn Rune.isIdentStart ((front ++ back).drop 2) = true)
    (h : 2 + wordLength ((front ++ back).drop 2) = front.length) :
    (∃ word, front.map Rune.char = 'r' :: '#' :: word ∧ Grammar.Word word) ∧
      startsIn Rune.isIdentContinue back = false := by
  rcases front with _ | ⟨letter, _ | ⟨hash, word⟩⟩
  · rw [List.length_nil] at h
    omega
  · rw [List.length_singleton] at h
    omega
  · simp only [List.cons_append, startsWith, Bool.and_true, Bool.and_eq_true, beq_iff_eq] at hmark
    simp only [List.cons_append, List.drop_succ_cons, List.drop_zero, List.length_cons] at hstart h
    rcases word_of_wordLength (show word.length = wordLength (word ++ back) by omega) with
      ⟨rfl, hback⟩ | ⟨hword, hback⟩
    · rw [List.nil_append, hback] at hstart
      cases hstart
    · refine ⟨⟨word.map Rune.char, ?_, hword⟩, hback⟩
      rw [List.map_cons, List.map_cons, hmark.1, hmark.2]

theorem Cut.kind_ofSingleQuote [XidClasses] (text : List Rune) :
    (ofSingleQuote text).tag.kind = .lifetime ∨ (ofSingleQuote text).tag.kind = .literal := by
  simp only [ofSingleQuote]
  split
  next => exact Or.inl rfl
  next => exact Or.inr rfl

/-- A word is an underscore, a keyword or an identifier. -/
theorem Cut.wordTag_cases {keywords : Keywords} (hsorted : keywords.Sorted) (word : Bytes) :
    word = Symbol.underscore.text ∧
      wordTag keywords word = { kind := .punctuation, symbol := .underscore } ∨
    word ≠ Symbol.underscore.text ∧
      (word ∈ keywords ∧ wordTag keywords word = { kind := .keyword } ∨
        word ∉ keywords ∧ wordTag keywords word = { kind := .identifier }) := by
  unfold wordTag
  split
  next hunderscore => exact Or.inl ⟨hunderscore, rfl⟩
  next hunderscore =>
    refine Or.inr ⟨hunderscore, ?_⟩
    rw [← Keywords.contains_iff_mem hsorted]
    split
    next hkeyword => exact Or.inl ⟨hkeyword, rfl⟩
    next hkeyword => exact Or.inr ⟨hkeyword, rfl⟩

namespace Lexeme.InPlace

variable [XidClasses] {dialect : Dialect} {source : Bytes} {lexeme : Lexeme}

theorem lexical_of_whitespace (h : lexeme.InPlace dialect source)
    (htag : lexeme.toTag = { kind := .whitespace })
    (hlength : runLength Rune.isWhitespace (lexeme.ahead source) = (runes lexeme.text).length) :
    lexeme.Lexical dialect.keywords source := by
  rw [h.ahead_eq] at hlength
  obtain ⟨hrun, hback⟩ := run_of_length hlength.symm
  have hkind : lexeme.kind = .whitespace := congrArg Tag.kind htag
  simp only [Lexeme.Lexical, hkind]
  exact ⟨h.runes_text_ne_nil, hrun, startsIn_eq_false_iff.mp hback⟩

theorem lexical_of_rawIdentifier (h : lexeme.InPlace dialect source)
    (hmark : startsWith (lexeme.ahead source) ['r', '#'] = true)
    (hstart : startsIn Rune.isIdentStart ((lexeme.ahead source).drop 2) = true)
    (htag : lexeme.toTag = { kind := .identifier, isRaw := true })
    (hlength : 2 + wordLength ((lexeme.ahead source).drop 2) = (runes lexeme.text).length) :
    lexeme.Lexical dialect.keywords source := by
  rw [h.ahead_eq] at hmark hstart hlength
  obtain ⟨hword, hback⟩ := word_of_rawIdentifier hmark hstart hlength
  have hkind : lexeme.kind = .identifier := congrArg Tag.kind htag
  have hraw : lexeme.isRaw = true := congrArg Tag.isRaw htag
  simp only [Lexeme.Lexical, hkind, hraw, if_true]
  exact ⟨startsIn_eq_false_iff.mp hback, hword⟩

theorem lexical_of_word (hsorted : dialect.keywords.Sorted) (h : lexeme.InPlace dialect source)
    (htag : lexeme.toTag = (Cut.ofWord dialect.keywords (lexeme.ahead source)).tag)
    (hlength : wordLength (lexeme.ahead source) = (runes lexeme.text).length) :
    lexeme.Lexical dialect.keywords source := by
  rw [Cut.ofWord, hlength, h.ahead_eq, List.take_left, encode_runes] at htag
  rw [h.ahead_eq] at hlength
  obtain ⟨hword, hback⟩ :=
    (word_of_wordLength hlength.symm).resolve_left fun hnil => h.runes_text_ne_nil hnil.1
  have hbehind := startsIn_eq_false_iff.mp hback
  rcases Cut.wordTag_cases hsorted lexeme.text with
    ⟨hunderscore, hcase⟩ | ⟨hunderscore, ⟨hmem, hcase⟩ | ⟨hmem, hcase⟩⟩
  · have hkind : lexeme.kind = .punctuation := congrArg Tag.kind (htag.trans hcase)
    have hsymbol : lexeme.symbol = .underscore := congrArg Tag.symbol (htag.trans hcase)
    simp only [Lexeme.Lexical, hkind, hsymbol]
    refine ⟨hunderscore, by decide, fun symbol hsymbol => ?_, fun _ => hbehind⟩
    rw [h.drop_start, hunderscore] at hsymbol
    exact Symbol.length_le_of_underscore hsymbol
  · have hkind : lexeme.kind = .keyword := congrArg Tag.kind (htag.trans hcase)
    simp only [Lexeme.Lexical, hkind]
    exact ⟨hbehind, hword, hunderscore, hmem⟩
  · have hkind : lexeme.kind = .identifier := congrArg Tag.kind (htag.trans hcase)
    have hraw : lexeme.isRaw = false := congrArg Tag.isRaw (htag.trans hcase)
    simp only [Lexeme.Lexical, hkind, hraw]
    exact ⟨hbehind, hword, hunderscore, hmem⟩

theorem lexical_of_symbol (h : lexeme.InPlace dialect source)
    (hplain : startsIn Rune.isIdentStart (lexeme.ahead source) = false) {found : Symbol}
    (hmark : Symbol.longest? (lexeme.ahead source) = some found)
    (htag : lexeme.toTag = (Cut.ofSymbol found).tag)
    (hlength : found.length = (runes lexeme.text).length) :
    lexeme.Lexical dialect.keywords source := by
  obtain ⟨-, -, hencode, -⟩ := Symbol.longest?_eq_some (decoded_ahead source lexeme) hmark
  have hsymbol : lexeme.symbol = found := congrArg Tag.symbol htag
  have htext : lexeme.text = found.text := by
    rw [← hencode, h.ahead_eq, List.take_left' hlength.symm, encode_runes]
  have hlongest : ∀ symbol : Symbol, symbol.text <+: source.drop lexeme.span.start.offset →
      symbol.length ≤ found.length :=
    fun symbol hprefix =>
      Symbol.length_le_of_longest? hmark (Symbol.encode_take_of_prefix hprefix)
  have hunderscore : found ≠ .underscore := by
    rintro rfl
    rw [startsIn_of_underscore (decoded_ahead source lexeme) hencode] at hplain
    cases hplain
  cases hclass : found.symbolClass with
  | operator =>
      have hkind : lexeme.kind = .operator := by rw [htag, Cut.ofSymbol, hclass]
      simp only [Lexeme.Lexical, hkind, hsymbol, hclass]
      exact ⟨htext, trivial, hlongest, fun hfound => absurd hfound hunderscore⟩
  | punctuation =>
      have hkind : lexeme.kind = .punctuation := by rw [htag, Cut.ofSymbol, hclass]
      simp only [Lexeme.Lexical, hkind, hsymbol, hclass]
      exact ⟨htext, by simp, hlongest, fun hfound => absurd hfound hunderscore⟩

theorem lexical_of_unknown (h : lexeme.InPlace dialect source)
    (hplain : Construct.IsPlain (lexeme.ahead source))
    (hnone : Symbol.longest? (lexeme.ahead source) = none)
    (htag : lexeme.toTag = { kind := .unknown }) (hlength : 1 = (runes lexeme.text).length) :
    lexeme.Lexical dialect.keywords source := by
  obtain ⟨rune, hrune⟩ := List.length_eq_one_iff.mp hlength.symm
  have hahead : lexeme.ahead source = rune :: lexeme.behind source := by
    rw [h.ahead_eq, hrune, List.singleton_append]
  rw [hahead] at hplain hnone
  have hkind : lexeme.kind = .unknown := congrArg Tag.kind htag
  simp only [Lexeme.Lexical, hkind]
  refine ⟨rune, hrune, hplain.whitespace, ?_, ?_, hplain.digit, hplain.identStart, ?_⟩
  · simpa [startsWith] using hplain.singleQuote
  · simpa [startsWith] using hplain.doubleQuote
  · intro symbol _
    rw [← encode_runes lexeme.text, hrune]
    exact Symbol.encode_take_one_ne hnone symbol

/-- A lexeme in its place follows its rule. -/
theorem lexical (hsorted : dialect.keywords.Sorted) (h : lexeme.InPlace dialect source) :
    lexeme.Lexical dialect.keywords source := by
  obtain ⟨construct, hconstruct, hmark, htag, hlength⟩ := h.exists_construct
  cases construct with
  | whitespace => exact h.lexical_of_whitespace htag.symm hlength
  | rawIdentifier => exact h.lexical_of_rawIdentifier hmark.1 hmark.2 htag.symm hlength
  | word => exact h.lexical_of_word hsorted htag.symm hlength
  | symbol found =>
      obtain ⟨hplain, -⟩ := Construct.isPlain_of_ofText hconstruct (Or.inr ⟨found, rfl⟩)
      exact h.lexical_of_symbol hplain.identStart hmark htag.symm hlength
  | unknown =>
      obtain ⟨hplain, hnone⟩ := Construct.isPlain_of_ofText hconstruct (Or.inl rfl)
      exact h.lexical_of_unknown hplain (hnone rfl) htag.symm hlength
  | singleQuote =>
      rcases Cut.kind_ofSingleQuote (lexeme.ahead source) with hkind | hkind <;>
        simp only [Lexeme.Lexical, ← htag, Construct.cut, hkind]
  | shebang | lineComment | blockComment | string | byteString | byteChar | rawString | rawByteString
  | number =>
      simp only [Lexeme.Lexical, ← htag, Construct.cut, Cut.ofBlockComment, Cut.ofLiteral,
        Cut.ofRawString, Cut.ofNumber]

end Lexeme.InPlace

/-- Each lexeme of a source that is not a comment, a lifetime or a literal follows the rule of its kind. -/
theorem Edition.lexemes_lexical [XidClasses] (source : Bytes) :
    ∃ lexemes, Edition.rust2018.lexemes source = .ok lexemes ∧
      ∀ lexeme ∈ lexemes, lexeme.Lexical keywords2018 source := by
  refine ⟨_, rfl, fun lexeme hlexeme => ?_⟩
  exact (Dialect.inPlace_of_mem hlexeme).lexical Keywords.sorted_keywords2018

/-- The longest of three symbols is taken, and the underscore behind it is left alone. -/
theorem Edition.lexemes_lexical_shrEq :
    let source := Bytes.ofAscii "r#a>>=_"
    let lexeme : Lexeme :=
      { kind := .operator, symbol := .shrEq, text := Bytes.ofAscii ">>=",
        span := ⟨⟨3, 1, 4⟩, ⟨6, 1, 7⟩⟩ }
    ∃ lexemes, Edition.rust2018.lexemes source = .ok lexemes ∧ lexeme ∈ lexemes ∧
      lexeme.Lexical keywords2018 source := by
  intro source lexeme
  obtain ⟨lexemes, hlexemes, hlexical⟩ := Edition.lexemes_lexical source
  have hread : Edition.rust2018.lexemes source = .ok
      [{ kind := .identifier, isRaw := true, text := Bytes.ofAscii "r#a",
         span := ⟨⟨0, 1, 1⟩, ⟨3, 1, 4⟩⟩ },
       lexeme,
       { kind := .punctuation, symbol := .underscore, text := Bytes.ofAscii "_",
         span := ⟨⟨6, 1, 7⟩, ⟨7, 1, 8⟩⟩ }] := by
    decide +kernel
  obtain rfl := Except.ok.inj (hread.symm.trans hlexemes)
  have hlexeme := hlexical lexeme (List.mem_cons_of_mem _ List.mem_cons_self)
  exact ⟨_, hlexemes, List.mem_cons_of_mem _ List.mem_cons_self, hlexeme⟩

end RustLexer
