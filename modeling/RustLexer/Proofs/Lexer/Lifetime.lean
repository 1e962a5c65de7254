import RustLexer.CodePoint.Unicode
import RustLexer.Proofs.Grammar.Word
import RustLexer.Proofs.Lexer.Place

/-! # Lifetimes and character literals

What a single quote starts is known from the word behind it: a lifetime is that word unless a second quote
closes it, and everything else is a character literal (`Dialect.lexemes_singleQuote`). The lexer looks at two
runes before it reads the word and at one behind it, and comes to the same answer
(`Quoted.singleQuote_of_open`, `Quoted.singleQuote_of_closed`).
-/

namespace RustLexer

/-- A lexeme that starts with a quote is what the longest word behind the quote and the rune behind that
word make of it. -/
structure Lexeme.QuoteRule (lexeme : Lexeme) (quote : Rune) (run more : List Rune) : Prop where
  lifetime_iff : lexeme.kind = .lifetime ↔ run ≠ [] ∧ ∀ rune ∈ more.head?, rune.char ≠ '\''
  text_of_lifetime : lexeme.kind = .lifetime → runes lexeme.text = quote :: run
  char_of_not_lifetime : lexeme.kind ≠ .lifetime →
    lexeme.kind = .literal ∧ lexeme.literal = .char
  closed_of_word : lexeme.kind ≠ .lifetime → run ≠ [] → lexeme.terminated = true ∧
    ∃ closing suffix, closing.char = '\'' ∧ runes lexeme.text = quote :: (run ++ closing :: suffix)

/-! ## The scanner -/

theorem startsWith_singleton_eq_false_iff {char : Char} {text : List Rune} :
    startsWith text [char] = false ↔ ∀ rune ∈ text.head?, rune.char ≠ char := by
  cases text with
  | nil => simp [startsWith]
  | cons rune rest => simp [startsWith]

/-- Where a quote comes next, a single-quoted construct does. -/
theorem Construct.ofText_of_quote [XidClasses] {text : List Rune} (h : startsWith text ['\''] = true)
    (atStart : Bool) : ofText atStart text = singleQuote := by
  obtain ⟨quote, rest, rfl, hquote, -⟩ := startsWith_cons_iff.mp h
  have hwhite : quote.isWhitespace = false := by
    rw [Rune.isWhitespace, Rune.code, hquote]
    decide
  simp [ofText, Comment.startsShebang, startsWith, startsIn, hquote, hwhite]

namespace Quoted

variable [XidClasses] {closing : Rune} {run more : List Rune}

theorem ne_quote_of_isIdentContinue {rune : Rune} (h : rune.isIdentContinue = true) :
    rune.char ≠ '\'' := by
  intro hchar
  rw [Rune.isIdentContinue, Rune.code, hchar] at h
  exact absurd h Bool.false_ne_true

/-- A word of several runes is read to its end, and the rune behind it decides. -/
theorem singleQuote_of_long_word (quote : Rune) {first second : Rune} {others : List Rune}
    (hword : Grammar.Word ((first :: second :: others).map Rune.char))
    (hmore : startsIn Rune.isIdentContinue more = false) :
    singleQuote (quote :: first :: second :: (others ++ more)) =
      if startsWith more ['\''] then
        { isLifetime := false, extent := { length := others.length + 4 } }
      else { isLifetime := true, extent := { length := others.length + 3 } } := by
  obtain ⟨hfirst, hrun⟩ := hword
  have hrun : ∀ rune ∈ second :: others, rune.isIdentContinue = true :=
    fun rune hrune => hrun rune.char (List.mem_map_of_mem hrune)
  have hstart : startsIn Rune.isIdentStart
      ((quote :: first :: second :: (others ++ more)).drop 1) = true := hfirst
  have hsecond : charAt? (quote :: first :: second :: (others ++ more)) 2 ≠ some '\'' := by
    intro hquote
    exact ne_quote_of_isIdentContinue (hrun second List.mem_cons_self) (Option.some.inj hquote)
  have hlength : 2 + runLength Rune.isIdentContinue (second :: others ++ more) =
      others.length + 3 := by
    rw [runLength, takeWhile_append_eq_left hrun hmore, List.length_cons]
    omega
  have hdrop : (quote :: first :: second :: (others ++ more)).drop (others.length + 3) = more := by
    rw [List.drop_succ_cons, List.drop_succ_cons, List.drop_succ_cons, List.drop_left]
  rw [singleQuote_of_word hstart hsecond hlength, hdrop]

/-- A word behind a quote is a lifetime if no quote closes it. -/
theorem singleQuote_of_open (quote : Rune) (hword : Grammar.Word (run.map Rune.char))
    (hmore : startsIn Rune.isIdentContinue more = false)
    (hopen : startsWith more ['\''] = false) :
    singleQuote (quote :: (run ++ more)) =
      { isLifetime := true, extent := { length := run.length + 1 } } := by
  obtain _ | ⟨first, _ | ⟨second, others⟩⟩ := run
  · cases hword
  · obtain ⟨hfirst, -⟩ := hword
    have hstart : startsIn Rune.isIdentStart ((quote :: first :: more).drop 1) = true := hfirst
    have hquote : charAt? (quote :: first :: more) 2 ≠ some '\'' := by
      intro hchar
      obtain ⟨rune, hrune, hchar⟩ := Option.map_eq_some_iff.mp hchar
      rw [← List.head?_drop] at hrune
      exact startsWith_singleton_eq_false_iff.mp hopen rune hrune hchar
    have hlength : 2 + runLength Rune.isIdentContinue more = 2 := by
      rw [runLength, takeWhile_eq_nil hmore, List.length_nil]
    rw [List.singleton_append, singleQuote_of_word hstart hquote hlength]
    simp [hopen]
  · have hread := singleQuote_of_long_word quote hword hmore
    simpa [hopen] using hread

/-- A word between two quotes is a character literal. It takes a suffix if it is a single rune. -/
theorem singleQuote_of_closed (quote : Rune) (hword : Grammar.Word (run.map Rune.char))
    (hclosing : closing.char = '\'') :
    singleQuote (quote :: (run ++ closing :: more)) =
      { isLifetime := false,
        extent :=
          if run.length = 1 then
            ({ length := 3 } : Extent).withSuffix (quote :: (run ++ closing :: more))
          else { length := run.length + 2 } } := by
  have hmore : startsIn Rune.isIdentContinue (closing :: more) = false := by
    rw [startsIn_eq_false_iff]
    rintro rune ⟨rfl⟩
    rw [Bool.eq_false_iff]
    intro hcontinue
    exact ne_quote_of_isIdentContinue hcontinue hclosing
  obtain _ | ⟨first, _ | ⟨second, others⟩⟩ := run
  · cases hword
  · obtain ⟨hfirst, -⟩ := hword
    have hstart : startsIn Rune.isIdentStart ((quote :: first :: closing :: more).drop 1) = true :=
      hfirst
    have hquote : charAt? (quote :: first :: closing :: more) 2 = some '\'' :=
      congrArg some hclosing
    rw [List.singleton_append, singleQuote_of_not_word fun _ => hquote,
      singleExtent_of_startsIn hstart hquote]
    rfl
  · have hread := singleQuote_of_long_word quote hword hmore
    simpa [startsWith, hclosing] using hread

end Quoted

/-! ## Lexemes -/

/-- Only a quote starts a lifetime. -/
theorem Construct.eq_singleQuote_of_cut [XidClasses] {keywords : Keywords} {text : List Rune}
    {construct : Construct} (h : (construct.cut keywords text).tag.kind = .lifetime) :
    construct = singleQuote := by
  have hkind := construct.hasKind_cut keywords text
  rw [h] at hkind
  cases hkind with
  | lifetime => rfl

namespace Lexeme.InPlace

variable [XidClasses] {dialect : Dialect} {source : Bytes} {lexeme : Lexeme} {quote : Rune}
  {run more : List Rune}

/-- A lexeme that starts with a quote is what is read behind that quote. -/
theorem ofSingleQuote_eq (h : lexeme.InPlace dialect source)
    (hahead : lexeme.ahead source = quote :: more) (hquote : quote.char = '\'') :
    Cut.ofSingleQuote (quote :: more) =
      { tag := lexeme.toTag, length := (runes lexeme.text).length } := by
  have hstarts : startsWith (quote :: more) ['\''] = true :=
    startsWith_cons_iff.mpr ⟨quote, more, rfl, hquote, by rw [startsWith]⟩
  have hcut := h.cut_eq
  rw [hahead, Construct.ofText_of_quote hstarts] at hcut
  exact hcut

theorem quoteRule_of_nil (h : lexeme.InPlace dialect source)
    (hahead : lexeme.ahead source = quote :: more) (hquote : quote.char = '\'')
    (hmore : startsIn Rune.isIdentStart more = false) : lexeme.QuoteRule quote [] more := by
  have hcut := h.ofSingleQuote_eq hahead hquote
  have hnone : startsIn Rune.isIdentStart ((quote :: more).drop 1) = true →
      charAt? (quote :: more) 2 = some '\'' := fun hstart =>
    absurd hstart (Bool.eq_false_iff.mp hmore)
  rw [Cut.ofSingleQuote, Quoted.singleQuote_of_not_word hnone] at hcut
  have hkind : lexeme.kind = .literal := (congrArg (fun cut => cut.tag.kind) hcut).symm
  have hliteral : lexeme.literal = .char := (congrArg (fun cut => cut.tag.literal) hcut).symm
  refine ⟨?_, fun hlifetime => ?_, fun _ => ⟨hkind, hliteral⟩, fun _ hrun => absurd rfl hrun⟩
  · simp [hkind]
  · simp [hkind] at hlifetime

theorem quoteRule_of_open (h : lexeme.InPlace dialect source)
    (hahead : lexeme.ahead source = quote :: (run ++ more)) (hquote : quote.char = '\'')
    (hword : Grammar.Word (run.map Rune.char))
    (hmore : startsIn Rune.isIdentContinue more = false)
    (hopen : startsWith more ['\''] = false) : lexeme.QuoteRule quote run more := by
  have hcut := h.ofSingleQuote_eq hahead hquote
  rw [Cut.ofSingleQuote, Quoted.singleQuote_of_open quote hword hmore hopen] at hcut
  have hkind : lexeme.kind = .lifetime := (congrArg (fun cut => cut.tag.kind) hcut).symm
  have hlength : (quote :: run).length = (runes lexeme.text).length := congrArg Cut.length hcut
  have hne : run ≠ [] := List.map_eq_nil_iff.not.mp hword.ne_nil
  refine ⟨iff_of_true hkind ⟨hne, startsWith_singleton_eq_false_iff.mp hopen⟩, fun _ => ?_,
    fun hnot => absurd hkind hnot, fun hnot => absurd hkind hnot⟩
  exact (h.split_ahead hahead hlength).1

theorem quoteRule_of_closed {closing : Rune} (h : lexeme.InPlace dialect source)
    (hahead : lexeme.ahead source = quote :: (run ++ closing :: more)) (hquote : quote.char = '\'')
    (hword : Grammar.Word (run.map Rune.char)) (hclosing : closing.char = '\'') :
    lexeme.QuoteRule quote run (closing :: more) := by
  have hcut := h.ofSingleQuote_eq hahead hquote
  rw [Cut.ofSingleQuote, Quoted.singleQuote_of_closed quote hword hclosing] at hcut
  generalize hextent : (if run.length = 1 then _ else _) = extent at hcut
  -- The literal holds the second quote, whether or not a suffix follows it.
  obtain ⟨hclosed, hle⟩ : extent.terminated = true ∧ run.length + 2 ≤ extent.length := by
    rw [← hextent]
    split
    next hone =>
      rw [hone]
      exact ⟨Extent.terminated_withSuffix _ _, Extent.length_le_withSuffix { length := 3 } _⟩
    next => exact ⟨rfl, Nat.le_refl _⟩
  have hkind : lexeme.kind = .literal := (congrArg (fun cut => cut.tag.kind) hcut).symm
  have hliteral : lexeme.literal = .char := (congrArg (fun cut => cut.tag.literal) hcut).symm
  have hterminated : lexeme.terminated = true :=
    (congrArg (fun cut => cut.tag.terminated) hcut).symm.trans hclosed
  have hlength : run.length + 2 ≤ (runes lexeme.text).length :=
    Nat.le_trans hle (Nat.le_of_eq (congrArg Cut.length hcut))
  have hfront : quote :: (run ++ [closing]) <+: runes lexeme.text := by
    refine List.prefix_of_prefix_length_le ?_ ⟨_, h.ahead_eq.symm⟩ ?_
    · rw [hahead]
      exact ⟨more, by simp⟩
    · rw [List.length_cons, List.length_append, List.length_singleton]
      exact hlength
  obtain ⟨suffix, hsuffix⟩ := hfront
  refine ⟨?_, fun hlifetime => ?_, fun _ => ⟨hkind, hliteral⟩, fun _ _ => ⟨hterminated, closing,
    suffix, hclosing, ?_⟩⟩
  · simp [hkind, hclosing]
  · simp [hkind] at hlifetime
  · rw [← hsuffix]
    simp

/-- The rule for a lexeme that starts with a quote, with the longest word behind the quote. -/
theorem exists_quoteRule (h : lexeme.InPlace dialect source)
    (hahead : lexeme.ahead source = quote :: more) (hquote : quote.char = '\'') :
    ∃ run rest, more = run ++ rest ∧
      Grammar.LongestWord (more.map Rune.char) (run.map Rune.char) ∧
      lexeme.QuoteRule quote run rest ∧
      (run ≠ [] → startsIn Rune.isIdentContinue rest = false) := by
  obtain ⟨run, rest, rfl, hlongest, ⟨rfl, hrest⟩ | ⟨hword, hrest⟩⟩ := exists_longestWord more
  · exact ⟨[], rest, rfl, hlongest, h.quoteRule_of_nil hahead hquote hrest,
      fun hne => absurd rfl hne⟩
  refine ⟨run, rest, rfl, hlongest, ?_, fun _ => hrest⟩
  cases hclosed : startsWith rest ['\''] with
  | false => exact h.quoteRule_of_open hahead hquote hword hrest hclosed
  | true =>
      obtain ⟨closing, rest, rfl, hclosing, -⟩ := startsWith_cons_iff.mp hclosed
      exact h.quoteRule_of_closed hahead hquote hword hclosing

/-- Behind a lifetime stands nothing that would have closed it or gone on with it. -/
theorem behind_lifetime (h : lexeme.InPlace dialect source) (hkind : lexeme.kind = .lifetime) :
    ∀ rune ∈ (lexeme.behind source).head?, rune.char ≠ '\'' ∧ rune.isIdentContinue = false := by
  obtain ⟨construct, -, hmark, htag, -⟩ := h.exists_construct
  obtain rfl := Construct.eq_singleQuote_of_cut ((congrArg Tag.kind htag).trans hkind)
  obtain ⟨quote, more, hahead, hquote, -⟩ := startsWith_cons_iff.mp hmark
  obtain ⟨run, rest, rfl, -, hrule, hrest⟩ := h.exists_quoteRule hahead hquote
  obtain ⟨hne, hopen⟩ := hrule.lifetime_iff.mp hkind
  have hlength : (quote :: run).length = (runes lexeme.text).length := by
    rw [hrule.text_of_lifetime hkind]
  rw [(h.split_ahead hahead hlength).2]
  intro rune hrune
  exact ⟨hopen rune hrune, startsIn_eq_false_iff.mp (hrest hne) rune hrune⟩

end Lexeme.InPlace

/-- A lexeme that starts with a single quote is a lifetime if a word follows that no second quote closes, and
a character literal otherwise. So no lexeme that could have closed a lifetime or gone on with it follows
one. -/
theorem Dialect.lexemes_singleQuote [XidClasses] (dialect : Dialect) (source : Bytes) :
    (∀ lexeme ∈ dialect.lexemes source, ∀ quote more, lexeme.ahead source = quote :: more →
      quote.char = '\'' → ∃ run rest, more = run ++ rest ∧
        Grammar.LongestWord (more.map Rune.char) (run.map Rune.char) ∧
        lexeme.QuoteRule quote run rest) ∧
    (dialect.lexemes source).IsChain fun lexeme next => lexeme.kind = .lifetime →
      ∀ rune ∈ (runes next.text).head?, rune.char ≠ '\'' ∧ rune.isIdentContinue = false := by
  constructor
  · intro lexeme hlexeme quote more hahead hquote
    obtain ⟨run, rest, hsplit, hlongest, hrule, -⟩ :=
      (inPlace_of_mem hlexeme).exists_quoteRule hahead hquote
    exact ⟨run, rest, hsplit, hlongest, hrule⟩
  · refine isChain_lexemes fun lexeme next hlexeme hnext hadjacent hkind => ?_
    rw [← hnext.head?_ahead, hadjacent]
    exact hlexeme.behind_lifetime hkind

/-- A digit goes on with a lifetime, and the quote of another literal does not close it. -/
theorem Dialect.lexemes_singleQuote_digit :
    let dialect : Dialect := { keywords := keywords2018 }
    let source := Bytes.ofAscii "'a1 'b'"
    let lexeme : Lexeme :=
      { kind := .lifetime, text := Bytes.ofAscii "'a1", span := ⟨⟨0, 1, 1⟩, ⟨3, 1, 4⟩⟩ }
    lexeme ∈ dialect.lexemes source ∧
      ∃ quote run rest, lexeme.ahead source = quote :: (run ++ rest) ∧ quote.char = '\'' ∧
        Grammar.LongestWord ((run ++ rest).map Rune.char) (run.map Rune.char) ∧
        lexeme.QuoteRule quote run rest ∧ run.map Rune.char = ['a', '1'] := by
  intro dialect source lexeme
  have hlexeme : lexeme ∈ dialect.lexemes source := by decide +kernel
  have hstarts : startsWith (lexeme.ahead source) ['\''] = true := by decide +kernel
  obtain ⟨quote, more, hahead, hquote, -⟩ := startsWith_cons_iff.mp hstarts
  obtain ⟨run, rest, rfl, hlongest, hrule⟩ :=
    (dialect.lexemes_singleQuote source).1 lexeme hlexeme quote more hahead hquote
  have hchars : (runes lexeme.text).map Rune.char = ['\'', 'a', '1'] := by decide +kernel
  rw [hrule.text_of_lifetime rfl] at hchars
  exact ⟨hlexeme, quote, run, rest, hahead, hquote, hlongest, hrule, (List.cons.inj hchars).2⟩

end RustLexer
