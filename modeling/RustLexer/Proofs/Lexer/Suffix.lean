import RustLexer.CodePoint.Unicode
import RustLexer.Proofs.Lexer.Lifetime

/-! # Suffixes of literals

A word right behind a closed literal belongs to it as its suffix. One kind of literal is left out: a word of
several runes between single quotes, which is read as far as its second quote and no further. So a word
behind a closed literal stays outside it if and only if the literal is of that kind
(`Dialect.lexemes_suffix`).
-/

namespace RustLexer

/-- A text starts with a word of several runes between single quotes, and another word follows. -/
inductive Quoted.LeavesSuffix [XidClasses] : List Rune → Prop
  | intro {quote closing : Rune} {run rest : List Rune} (hquote : quote.char = '\'')
      (hword : Grammar.Word (run.map Rune.char)) (hlong : 2 ≤ run.length)
      (hclosing : closing.char = '\'') (hrest : startsIn Rune.isIdentStart rest = true) :
      LeavesSuffix (quote :: (run ++ closing :: rest))

variable {text : List Rune}

/-! ## The scanners -/

/-- The suffix of a closed construct leaves no word behind. -/
theorem Extent.startsIn_drop_withSuffix [XidClasses] {extent : Extent} (h : extent.terminated = true)
    (text : List Rune) :
    startsIn Rune.isIdentStart (text.drop (extent.withSuffix text).length) = false := by
  rw [withSuffix, if_pos h]
  simp only
  rw [← List.drop_drop]
  exact startsIn_drop_wordLength _

/-- Every scanner but the one for single quotes takes the suffix along. -/
theorem Construct.startsIn_drop_cut [XidClasses] {keywords : Keywords} {construct : Construct}
    (hkind : (construct.cut keywords text).tag.kind = .literal)
    (hterminated : (construct.cut keywords text).tag.terminated = true)
    (hquote : construct ≠ singleQuote) :
    startsIn Rune.isIdentStart (text.drop (construct.cut keywords text).length) = false := by
  generalize hliteral : (construct.cut keywords text).tag.literal = literal
  have hkind := isLiteral_of_cut hkind
  rw [hliteral] at hkind
  cases hkind with
  | char => exact absurd rfl hquote
  | integer | float | byteChar | string | byteString | rawString | rawByteString =>
      refine Extent.startsIn_drop_withSuffix ?_ text
      exact (Extent.terminated_withSuffix _ text).symm.trans hterminated

namespace Quoted

theorem LeavesSuffix.startsWith_quote [XidClasses] (h : LeavesSuffix text) :
    startsWith text ['\''] = true := by
  obtain ⟨hquote, -, -, -, -⟩ := h
  simp [startsWith, hquote]

theorem drop_between_quotes (quote closing : Rune) (run rest : List Rune) :
    (quote :: (run ++ closing :: rest)).drop (run.length + 2) = rest := by
  rw [List.drop_succ_cons, ← List.drop_drop, List.drop_left, List.drop_succ_cons, List.drop_zero]

theorem LeavesSuffix.startsIn_drop [XidClasses] (h : LeavesSuffix text) :
    startsIn Rune.isIdentStart (text.drop (singleQuote text).extent.length) = true := by
  obtain @⟨quote, closing, run, rest, -, hword, hlong, hclosing, hrest⟩ := h
  have hseveral : run.length ≠ 1 := by omega
  rw [singleQuote_of_closed quote hword hclosing, if_neg hseveral, drop_between_quotes]
  exact hrest

/-- The scanner for single quotes leaves a word behind only where several runes stand between them. -/
theorem leavesSuffix_of_startsIn [XidClasses] (hstarts : startsWith text ['\''] = true)
    (hchar : (singleQuote text).isLifetime = false)
    (hterminated : (singleQuote text).extent.terminated = true)
    (h : startsIn Rune.isIdentStart (text.drop (singleQuote text).extent.length) = true) :
    LeavesSuffix text := by
  obtain ⟨quote, more, rfl, hquote, -⟩ := startsWith_cons_iff.mp hstarts
  obtain ⟨run, rest, rfl, -, ⟨rfl, hrest⟩ | ⟨hword, hrest⟩⟩ := exists_longestWord more
  · have hnone : startsIn Rune.isIdentStart ((quote :: rest).drop 1) = true →
        charAt? (quote :: rest) 2 = some '\'' := fun hstart =>
      absurd hstart (Bool.eq_false_iff.mp hrest)
    rw [List.nil_append, singleQuote_of_not_word hnone] at hterminated h
    rw [Extent.terminated_withSuffix] at hterminated
    rw [Extent.startsIn_drop_withSuffix hterminated] at h
    cases h
  cases hclosed : startsWith rest ['\''] with
  | false =>
      rw [singleQuote_of_open quote hword hrest hclosed] at hchar
      cases hchar
  | true =>
      obtain ⟨closing, rest, rfl, hclosing, -⟩ := startsWith_cons_iff.mp hclosed
      rw [singleQuote_of_closed quote hword hclosing] at h
      split at h
      next =>
        rw [Extent.startsIn_drop_withSuffix rfl] at h
        cases h
      next hseveral =>
        rw [drop_between_quotes] at h
        have hpos : 0 < run.length := by
          rw [← List.length_map Rune.char]
          exact List.length_pos_iff.mpr hword.ne_nil
        exact .intro hquote hword (by omega) hclosing h

end Quoted

/-! ## Lexemes -/

/-- An identifier and a keyword start with what may start a word. -/
theorem Construct.startsIn_of_cut [XidClasses] {keywords : Keywords} {construct : Construct}
    (hmark : construct.MarkedIn text)
    (h : (construct.cut keywords text).tag.kind = .identifier ∨
      (construct.cut keywords text).tag.kind = .keyword) :
    startsIn Rune.isIdentStart text = true := by
  have hkind := construct.hasKind_cut keywords text
  rcases h with h | h
  · rw [h] at hkind
    cases hkind with
    | identifier => exact hmark
    | rawIdentifier =>
        obtain ⟨letter, rest, rfl, hletter, -⟩ := startsWith_cons_iff.mp hmark.1
        rw [startsIn_iff]
        refine ⟨letter, rest, rfl, ?_⟩
        rw [Rune.isIdentStart, Rune.code, hletter]
        rfl
  · rw [h] at hkind
    cases hkind with
    | keyword => exact hmark

namespace Lexeme.InPlace

variable {dialect : Dialect} {source : Bytes} {lexeme : Lexeme}

/-- A word stands right behind a closed literal if and only if several runes of a word stand between single
quotes there. -/
theorem startsIn_behind_iff [XidClasses] (h : lexeme.InPlace dialect source) (hkind : lexeme.kind = .literal)
    (hterminated : lexeme.terminated = true) :
    startsIn Rune.isIdentStart (lexeme.behind source) = true ↔
      Quoted.LeavesSuffix (lexeme.ahead source) := by
  obtain ⟨construct, hconstruct, hmark, htag, hlength⟩ := h.exists_construct
  have hbehind : lexeme.behind source =
      (lexeme.ahead source).drop (construct.cut dialect.keywords (lexeme.ahead source)).length := by
    rw [hlength, h.drop_ahead]
  rw [← htag] at hkind hterminated
  rw [hbehind]
  by_cases hquote : construct = .singleQuote
  · subst hquote
    rw [Construct.cut, Cut.length_ofSingleQuote]
    rw [Construct.cut, Cut.terminated_ofSingleQuote] at hterminated
    have hchar : (Quoted.singleQuote (lexeme.ahead source)).isLifetime = false := by
      simp only [Construct.cut, Cut.ofSingleQuote] at hkind
      split at hkind
      next => cases hkind
      next hchar => exact Bool.eq_false_iff.mpr hchar
    exact ⟨Quoted.leavesSuffix_of_startsIn hmark hchar hterminated,
      Quoted.LeavesSuffix.startsIn_drop⟩
  · rw [Construct.startsIn_drop_cut hkind hterminated hquote]
    refine iff_of_false Bool.false_ne_true fun hleaves => hquote ?_
    rw [← hconstruct, Construct.ofText_of_quote hleaves.startsWith_quote]

end Lexeme.InPlace

/-- The code point behind a closed literal starts no word, unless the literal is a word of several runes
between single quotes. So an identifier or a keyword comes right behind such a literal only. -/
theorem Dialect.lexemes_suffix [XidClasses] (dialect : Dialect) (source : Bytes) :
    (∀ lexeme ∈ dialect.lexemes source, lexeme.kind = .literal → lexeme.terminated = true →
      (startsIn Rune.isIdentStart (lexeme.behind source) = true ↔
        Quoted.LeavesSuffix (lexeme.ahead source))) ∧
    (dialect.lexemes source).IsChain fun lexeme next =>
      lexeme.kind = .literal → lexeme.terminated = true →
        next.kind = .identifier ∨ next.kind = .keyword →
          Quoted.LeavesSuffix (lexeme.ahead source) := by
  constructor
  · intro lexeme hlexeme
    exact (inPlace_of_mem hlexeme).startsIn_behind_iff
  · refine isChain_lexemes fun lexeme next hlexeme hnext hadjacent hkind hterminated hword => ?_
    obtain ⟨construct, -, hmark, htag, -⟩ := hnext.exists_construct
    rw [← htag] at hword
    rw [← hlexeme.startsIn_behind_iff hkind hterminated, ← hadjacent]
    exact Construct.startsIn_of_cut hmark hword

/-- A byte in single quotes takes its suffix along. -/
theorem Dialect.lexemes_suffix_byteChar :
    let dialect : Dialect := { keywords := keywords2018 }
    let source := Bytes.ofAscii "b'x'u8 'ab'c"
    let lexeme : Lexeme :=
      { kind := .literal, literal := .byteChar, text := Bytes.ofAscii "b'x'u8",
        span := ⟨⟨0, 1, 1⟩, ⟨6, 1, 7⟩⟩ }
    lexeme ∈ dialect.lexemes source ∧ startsIn Rune.isIdentStart (lexeme.behind source) = false ∧
      ¬ Quoted.LeavesSuffix (lexeme.ahead source) := by
  intro dialect source lexeme
  have hlexeme : lexeme ∈ dialect.lexemes source := by decide +kernel
  have hbehind : startsIn Rune.isIdentStart (lexeme.behind source) = false := by decide +kernel
  have hleaves := (dialect.lexemes_suffix source).1 lexeme hlexeme rfl rfl
  refine ⟨hlexeme, hbehind, fun hahead => ?_⟩
  rw [hleaves.mpr hahead] at hbehind
  cases hbehind

/-- Several runes between single quotes leave the word behind them alone, closed as they are. -/
theorem Dialect.lexemes_word_after_quotes :
    let dialect : Dialect := { keywords := keywords2018 }
    let source := Bytes.ofAscii "'abc'd"
    let lexeme : Lexeme :=
      { kind := .literal, literal := .char, terminated := true, text := Bytes.ofAscii "'abc'",
        span := ⟨⟨0, 1, 1⟩, ⟨5, 1, 6⟩⟩ }
    let next : Lexeme :=
      { kind := .identifier, text := Bytes.ofAscii "d", span := ⟨⟨5, 1, 6⟩, ⟨6, 1, 7⟩⟩ }
    dialect.lexemes source = [lexeme, next] ∧
      startsIn Rune.isIdentStart (lexeme.behind source) = true := by
  decide +kernel

end RustLexer
