import RustLexer.CodePoint.Unicode
import RustLexer.Proofs.Checker.RawString
import RustLexer.Proofs.Checker.Verdict
import RustLexer.Proofs.Grammar.Word
import RustLexer.Proofs.Lexer.Payload

/-! # Raw strings

A raw string opens with its prefix, some `#` signs and a quote, and its body reaches to the first quote
that as many `#` signs follow. The lexer cuts it off behind them and the word there
(`Lexeme.InPlace.rawString_cases`); the checker comes to the same delimiter and passes the literal if
nothing is wrong with its body and nothing stands behind it (`RawString.fault?_eq_none_iff`).
-/

namespace RustLexer

theorem startsWith_append_iff {front back : List Char} {text : List Rune} :
    startsWith text (front ++ back) = true ↔
      startsWith text front = true ∧ startsWith (text.drop front.length) back = true := by
  induction front generalizing text with
  | nil => simp [startsWith]
  | cons char front ih =>
      cases text with
      | nil => simp [startsWith]
      | cons rune rest => simp [startsWith, ih, and_assoc]

namespace RawString

/-- The prefix of a raw string. -/
def mark (literal : LiteralKind) : List Char :=
  if literal.isByte then ['b', 'r'] else ['r']

/-- The delimiter that opens a raw string. -/
def opening (literal : LiteralKind) (hashes : Nat) : Bytes :=
  (mark literal ++ (List.replicate hashes '#' ++ ['"'])).map Char.toUInt8

variable {literal : LiteralKind} {hashes : Nat} {content body suffix : Bytes}

/-! ## Delimiters -/

theorem mark_isAscii (literal : LiteralKind) : ∀ char ∈ mark literal, char.toNat < 0x80 := by
  cases literal <;> exact forall_ascii_of_all rfl

theorem length_mark (literal : LiteralKind) :
    (mark literal).length = if literal.isByte then 2 else 1 := by
  unfold mark
  split <;> rfl

theorem length_opening (literal : LiteralKind) (hashes : Nat) :
    (opening literal hashes).length = (mark literal).length + hashes + 1 := by
  simp [opening, Nat.add_assoc]

theorem openingChars_isAscii (literal : LiteralKind) (hashes : Nat) :
    ∀ char ∈ mark literal ++ (List.replicate hashes '#' ++ ['"']), char.toNat < 0x80 := by
  refine List.forall_mem_append.mpr ⟨mark_isAscii literal, ?_⟩
  refine List.forall_mem_append.mpr ⟨fun char hmem => ?_, by simp⟩
  rw [List.eq_of_mem_replicate hmem]
  decide

theorem opening_bytes_isAscii (literal : LiteralKind) (hashes : Nat) :
    ∀ byte ∈ opening literal hashes, byte < 0x80 := by
  refine List.forall_mem_map.mpr fun char hmem => ?_
  exact toUInt8_lt_of_ascii (openingChars_isAscii literal hashes char hmem)

theorem startsWith_hashes_iff {text : List Rune} :
    startsWith text (List.replicate hashes '#' ++ ['"']) = true ↔
      runLength isHash text = hashes ∧ startsWith (text.drop hashes) ['"'] = true := by
  rw [startsWith_append_iff, startsWith_replicate_iff, List.length_replicate]
  refine and_congr_left fun hquote => ?_
  exact ⟨fun hle => Nat.le_antisymm (runLength_isHash_le hquote) hle, Nat.le_of_eq ∘ Eq.symm⟩

/-- The word that is read is the number of `#` signs before the quote, as far as it fits. -/
theorem hashes?_eq_some_iff {text : List Rune} {word : UInt32} :
    hashes? text = some word ↔
      ∃ count, startsWith text (List.replicate count '#' ++ ['"']) = true ∧
        UInt32.ofNat count = word := by
  simp only [hashes?, Option.ite_none_right_eq_some, Option.some.injEq, startsWith_hashes_iff,
    exists_eq_left', and_assoc]

/-- The bytes of a raw string start with an opening delimiter, whose `#` signs are counted in a word. -/
theorem exists_opening_isPrefix {source : Bytes} {word : UInt32}
    (hmark : startsWith (runes source) (mark literal) = true)
    (h : hashes? ((runes source).drop (mark literal).length) = some word) :
    ∃ count, opening literal count <+: source ∧ UInt32.ofNat count = word := by
  obtain ⟨count, hcount, hword⟩ := hashes?_eq_some_iff.mp h
  refine ⟨count, ?_, hword⟩
  refine (startsWith_runes_iff (openingChars_isAscii literal count) source).mp ?_
  exact startsWith_append_iff.mpr ⟨hmark, hcount⟩

/-- Where the `#` signs are counted without wrapping, the bytes of a raw string start with its opening
delimiter. -/
theorem opening_isPrefix {source : Bytes} (hsize : source.length < UInt32.size) {hashes : UInt32}
    (hmark : startsWith (runes source) (mark literal) = true)
    (h : hashes? ((runes source).drop (mark literal).length) = some hashes) :
    opening literal hashes.toNat <+: source := by
  obtain ⟨count, hfront, rfl⟩ := exists_opening_isPrefix hmark h
  have hle := hfront.length_le
  rw [length_opening] at hle
  have hsmall : count < UInt32.size := by omega
  rw [UInt32.toNat_ofNat', Nat.mod_eq_of_lt hsmall]
  exact hfront

/-! ## The scanner -/

theorem runes_of_delimited (literal : LiteralKind) (hashes : Nat) (body more : Bytes) :
    runes (opening literal hashes ++ (body ++ (closing hashes ++ more))) =
      runes (opening literal hashes ++ (body ++ closing hashes)) ++ runes more := by
  have hclosed := runes_append_closing hashes body []
  rw [List.append_nil, runes_nil, List.append_nil] at hclosed
  rw [runes_append_of_ascii (opening_bytes_isAscii literal hashes), runes_append_closing,
    runes_append_of_ascii (opening_bytes_isAscii literal hashes), hclosed]
  simp only [List.append_assoc]

/-- The scanner stops behind the first closing delimiter, or at the end if there is none. -/
theorem extent_opening (literal : LiteralKind) (hashes : Nat) (content : Bytes) :
    (∃ body more, content = body ++ (closing hashes ++ more) ∧ FirstCloses hashes content body ∧
      extent (mark literal).length hashes (runes (opening literal hashes ++ content)) =
        { length := (runes (opening literal hashes ++ (body ++ closing hashes))).length }) ∨
    (∀ n, ¬ closing hashes <+: content.drop n) ∧
      extent (mark literal).length hashes (runes (opening literal hashes ++ content)) =
        { length := (runes (opening literal hashes ++ content)).length, terminated := false } := by
  have hopening := length_runes_of_ascii (opening_bytes_isAscii literal hashes)
  have hdrop : (runes (opening literal hashes ++ content)).drop
      ((mark literal).length + hashes + 1) = runes content := by
    rw [runes_append_of_ascii (opening_bytes_isAscii literal hashes)]
    refine List.drop_left' ?_
    rw [hopening, length_opening]
  have hsearch := indexOf?_closing hashes content
  cases hfound : findSuffix? (atClosing hashes) (runes content) with
  | none =>
      rw [hfound, Option.map_none] at hsearch
      refine Or.inr ⟨indexOf?_closing_eq_none_iff.mp hsearch, ?_⟩
      simp only [extent, hdrop, hfound]
  | some count =>
      rw [hfound, Option.map_some, Rune.width_eq_length_encode] at hsearch
      obtain ⟨body, hcloses, hlength⟩ := exists_firstCloses hsearch
      obtain ⟨more, hmore⟩ := hcloses.closes
      rw [List.append_assoc] at hmore
      -- The scanner has passed as many runes as the body has.
      have hbody : body = Rune.encode ((runes content).take count) := by
        have hsplit := eq_encode_append_of_runes (List.take_append_drop count (runes content)).symm
        exact (List.append_inj (hmore.trans hsplit) hlength).1
      have hcount : (runes body).length = count := by
        rw [hbody, runes_encode_take]
        exact List.length_take_of_le (findSuffix?_eq_some_iff.mp hfound).1
      refine Or.inl ⟨body, more, hmore.symm, hcloses, ?_⟩
      have hclosed : runes (body ++ closing hashes) = runes body ++ runes (closing hashes) :=
        runes_append_ascii body (by decide) _
      simp only [extent, hdrop, hfound, Extent.mk.injEq, and_true]
      rw [runes_append_of_ascii (opening_bytes_isAscii literal hashes), hclosed,
        List.length_append, List.length_append, hopening, hcount, length_opening,
        length_runes_of_ascii closing_isAscii, length_closing]
      omega

/-! ## The checker -/

theorem bodyFault?_eq_none_iff (offset : Nat) :
    bodyFault? literal offset (runes body) = none ↔
      (∀ n, body[n]? = some '\r'.toUInt8 → body[n + 1]? = some '\n'.toUInt8) ∧
      (literal.isByte = true → ∀ byte ∈ body, byte < 0x80) := by
  rw [← findSuffix?_atBareReturn_eq_none_iff]
  constructor
  · intro h
    refine ⟨?_, fun hliteral => bodyFault?_isAscii hliteral h⟩
    rw [bodyFault?, Option.map_eq_none_iff, findSuffix?_eq_none_iff] at h
    rw [findSuffix?_eq_none_iff]
    exact fun n hn => (Bool.or_eq_false_iff.mp (h n hn)).2
  · rintro ⟨hreturn, hascii⟩
    rw [findSuffix?_eq_none_iff] at hreturn
    rw [bodyFault?, Option.map_eq_none_iff, findSuffix?_eq_none_iff]
    intro n hn
    rw [atFault, hreturn n hn, Bool.or_false, Bool.and_eq_false_imp]
    intro hliteral
    have hbytes := hascii hliteral
    rw [← encode_runes body, Rune.encode_ascii_iff decoded_of_mem_runes] at hbytes
    rw [startsIn_eq_false_iff]
    intro rune hrune
    have hrune := hbytes rune (List.mem_of_mem_drop (List.mem_of_mem_head? hrune))
    rw [Rune.isNonAscii, decide_eq_false_iff_not, Nat.not_le]
    exact hrune

/-- The checker finds nothing wrong with a raw string that has a clean body and no suffix. -/
theorem fault?_eq_none_iff
    (h : FirstCloses hashes (body ++ (closing hashes ++ suffix)) body) :
    fault? literal hashes (opening literal hashes ++ (body ++ (closing hashes ++ suffix))) = none ↔
      (∀ n, body[n]? = some '\r'.toUInt8 → body[n + 1]? = some '\n'.toUInt8) ∧
      (literal.isByte = true → ∀ byte ∈ body, byte < 0x80) ∧ suffix = [] := by
  have hopening : (if literal.isByte then 2 else 1) + hashes + 1 =
      (opening literal hashes).length := by
    rw [length_opening, length_mark]
  rw [← and_assoc, ← bodyFault?_eq_none_iff (opening literal hashes).length]
  simp only [fault?, hopening, List.drop_left, h.indexOf?_eq, List.take_left]
  cases bodyFault? literal (opening literal hashes).length (runes body) with
  | some fault => simp
  | none =>
      simp only [true_and, ite_eq_right_iff, reduceCtorEq, imp_false, Nat.not_lt,
        List.length_append, length_closing]
      rw [← List.length_eq_zero_iff]
      omega

end RawString

/-! ## Lexemes -/

/-- What is taken as a suffix is empty or a word. -/
theorem eq_nil_or_word [XidClasses] (text : List Rune) : text.take (wordLength text) = [] ∨
    Grammar.Word ((text.take (wordLength text)).map Rune.char) :=
  (take_wordLength text).imp And.left And.left

theorem Lexeme.fault?_of_rawString {lexeme : Lexeme} (hkind : lexeme.kind = .literal)
    (hraw : lexeme.literal ∈ [.rawString, .rawByteString]) (hterminated : lexeme.terminated = true)
    (hhashes : lexeme.hashes.toNat ≤ 255) :
    lexeme.fault? = RawString.fault? lexeme.literal lexeme.hashes.toNat lexeme.text := by
  have hfew : ¬ RawString.maxHashes < lexeme.hashes := by
    rw [UInt32.lt_iff_toNat_lt]
    exact Nat.not_lt.mpr hhashes
  rw [fault?_of_literal hkind, literalFault?, hterminated, decide_eq_false hfew]
  simp only [List.mem_cons, List.not_mem_nil, or_false] at hraw
  rcases hraw with hraw | hraw <;> simp [hraw]

/-- The construct that a raw string is has its prefix and its `#` signs as its mark. -/
theorem Construct.rawString_of_isLiteral [XidClasses] (keywords : Keywords) {text : List Rune}
    {construct : Construct} {literal : LiteralKind} (hliteral : construct.IsLiteral literal)
    (hraw : literal ∈ [.rawString, .rawByteString]) (hmark : construct.MarkedIn text) :
    startsWith text (RawString.mark literal) = true ∧
      RawString.hashes? (text.drop (RawString.mark literal).length) =
        some (construct.cut keywords text).tag.hashes ∧
      Cut.ofRawString literal (RawString.mark literal).length
          (construct.cut keywords text).tag.hashes text = construct.cut keywords text := by
  cases hliteral with
  | rawString hashes => exact ⟨hmark.1, hmark.2, rfl⟩
  | rawByteString hashes => exact ⟨hmark.1, hmark.2, rfl⟩
  | integer | float | char | byteChar | string | byteString => simp at hraw

namespace Lexeme.InPlace

variable {dialect : Dialect} {source : Bytes} {lexeme : Lexeme}

/-- A raw string is the cut of a scan from its opening delimiter on. -/
theorem exists_opening [XidClasses] (h : lexeme.InPlace dialect source) (hsize : source.length < UInt32.size)
    (hkind : lexeme.kind = .literal) (hraw : lexeme.literal ∈ [.rawString, .rawByteString]) :
    RawString.opening lexeme.literal lexeme.hashes.toNat <+:
        source.drop lexeme.span.start.offset ∧
      Cut.ofRawString lexeme.literal (RawString.mark lexeme.literal).length lexeme.hashes
          (lexeme.ahead source) =
        { tag := lexeme.toTag, length := (runes lexeme.text).length } := by
  obtain ⟨construct, -, hmark, htag, hlength⟩ := h.exists_construct
  have hcut : construct.cut dialect.keywords (lexeme.ahead source) =
      { tag := lexeme.toTag, length := (runes lexeme.text).length } := by
    rw [← htag, ← hlength]
  have hsmall : (source.drop lexeme.span.start.offset).length < UInt32.size := by
    rw [List.length_drop]
    exact Nat.lt_of_le_of_lt (Nat.sub_le _ _) hsize
  have hliteral : construct.IsLiteral lexeme.literal := by
    rw [← htag]
    apply Construct.isLiteral_of_cut
    rw [htag]
    exact hkind
  obtain ⟨hstarts, hhashes, hscan⟩ :=
    Construct.rawString_of_isLiteral dialect.keywords hliteral hraw hmark
  rw [hcut] at hhashes hscan
  exact ⟨RawString.opening_isPrefix hsmall hstarts hhashes, hscan⟩

/-- A closed raw string is cut off behind its first closing delimiter and the word there; one that is
not closed has no closing delimiter. -/
theorem rawString_cases [XidClasses] (h : lexeme.InPlace dialect source) (hsize : source.length < UInt32.size)
    (hkind : lexeme.kind = .literal) (hraw : lexeme.literal ∈ [.rawString, .rawByteString]) :
    ∃ content, source.drop lexeme.span.start.offset =
        RawString.opening lexeme.literal lexeme.hashes.toNat ++ content ∧
      ((lexeme.terminated = true ∧ ∃ body suffix,
        lexeme.text = RawString.opening lexeme.literal lexeme.hashes.toNat ++
          (body ++ (RawString.closing lexeme.hashes.toNat ++ suffix)) ∧
        RawString.FirstCloses lexeme.hashes.toNat content body ∧
        (suffix = [] ∨ Grammar.Word ((runes suffix).map Rune.char)) ∧
        Rune.encode ((lexeme.ahead source).take (RawString.extent
            (RawString.mark lexeme.literal).length lexeme.hashes.toNat
            (lexeme.ahead source)).length) =
          RawString.opening lexeme.literal lexeme.hashes.toNat ++
            (body ++ RawString.closing lexeme.hashes.toNat)) ∨
      lexeme.terminated = false ∧ ∀ n, ¬ RawString.closing lexeme.hashes.toNat <+: content.drop n) := by
  obtain ⟨⟨content, hcontent⟩, hcut⟩ := h.exists_opening hsize hkind hraw
  generalize hliteral : lexeme.literal = literal at hcontent hcut ⊢
  generalize hhashes : lexeme.hashes.toNat = hashes at hcontent ⊢
  have hahead : lexeme.ahead source = runes (RawString.opening literal hashes ++ content) := by
    rw [Lexeme.ahead, hcontent]
  have hterminated := congrArg (fun cut => cut.tag.terminated) hcut
  have hlength := congrArg Cut.length hcut
  simp only [Cut.ofRawString, Extent.terminated_withSuffix, hhashes, hahead] at hterminated hlength
  refine ⟨content, hcontent.symm, ?_⟩
  obtain ⟨body, more, hsplit, hcloses, hextent⟩ | ⟨hnone, hextent⟩ :=
    RawString.extent_opening literal hashes content
  · subst hsplit
    rw [hextent] at hterminated hlength
    rw [RawString.runes_of_delimited] at hahead hlength
    simp only [Extent.withSuffix, if_true, List.drop_left] at hlength
    -- Behind the delimiter the lexeme holds the word there and no more.
    have htext : runes lexeme.text =
        runes (RawString.opening literal hashes ++ (body ++ RawString.closing hashes)) ++
          (runes more).take (wordLength (runes more)) := by
      have htake := congrArg (List.take (runes lexeme.text).length) h.ahead_eq
      rw [List.take_left, hahead, ← hlength, List.take_length_add_append] at htake
      exact htake.symm
    refine Or.inl ⟨hterminated.symm, body, Rune.encode ((runes more).take (wordLength (runes more))),
      ?_, hcloses, ?_, ?_⟩
    · rw [← encode_runes lexeme.text, htext, Rune.encode_append, encode_runes]
      simp only [List.append_assoc]
    · rw [runes_encode_take]
      refine (eq_nil_or_word (runes more)).imp_left fun hnil => ?_
      rw [hnil, Rune.encode_nil]
    · rw [hahead, ← RawString.runes_of_delimited, hextent, RawString.runes_of_delimited,
        List.take_left, encode_runes]
  · rw [hextent] at hterminated
    exact Or.inr ⟨hterminated.symm, hnone⟩

end Lexeme.InPlace

/-- The lexer and the checker agree on where a raw string is closed. A closed one has the first closing
delimiter that follows its opening delimiter, then a word or nothing, and it is passed if and only if its
body is clean and nothing follows; one that is not closed has no closing delimiter up to the end of the
source. -/
theorem Dialect.lexemes_rawString [XidClasses] (dialect : Dialect) {source : Bytes}
    (hsize : source.length < UInt32.size) {lexeme : Lexeme} (hlexeme : lexeme ∈ dialect.lexemes source)
    (hkind : lexeme.kind = .literal) (hraw : lexeme.literal ∈ [.rawString, .rawByteString]) :
    ∃ content, source.drop lexeme.span.start.offset =
        RawString.opening lexeme.literal lexeme.hashes.toNat ++ content ∧
      (lexeme.terminated = true → ∃ body suffix,
        lexeme.text = RawString.opening lexeme.literal lexeme.hashes.toNat ++
          (body ++ (RawString.closing lexeme.hashes.toNat ++ suffix)) ∧
        RawString.FirstCloses lexeme.hashes.toNat content body ∧
        (suffix = [] ∨ Grammar.Word ((runes suffix).map Rune.char)) ∧
        (lexeme.hashes.toNat ≤ 255 →
          Rune.encode ((lexeme.ahead source).take (RawString.extent
              (RawString.mark lexeme.literal).length lexeme.hashes.toNat
              (lexeme.ahead source)).length) =
            RawString.opening lexeme.literal lexeme.hashes.toNat ++
              (body ++ RawString.closing lexeme.hashes.toNat) ∧
          Bytes.indexOf? (RawString.closing lexeme.hashes.toNat)
              (lexeme.text.drop (RawString.opening lexeme.literal lexeme.hashes.toNat).length) =
            some body.length ∧
          ∀ checker : Checker,
            (checker.check lexeme).diagnostics = checker.diagnostics ↔
              (∀ n, body[n]? = some '\r'.toUInt8 → body[n + 1]? = some '\n'.toUInt8) ∧
              (lexeme.literal = .rawByteString → ∀ byte ∈ body, byte < 0x80) ∧ suffix = [])) ∧
      (lexeme.terminated = false →
        (∀ n, ¬ RawString.closing lexeme.hashes.toNat <+: content.drop n) ∧
          lexeme.span.stop.offset = source.length) := by
  obtain ⟨content, hcontent, hcases⟩ := (inPlace_of_mem hlexeme).rawString_cases hsize hkind hraw
  refine ⟨content, hcontent, ?_⟩
  obtain ⟨hterminated, body, suffix, htext, hcloses, hsuffix, hscan⟩ | ⟨hopen, hnone⟩ := hcases
  · refine ⟨fun _ => ⟨body, suffix, htext, hcloses, hsuffix, fun hhashes => ?_⟩, fun hopen => ?_⟩
    · have hinside := hcloses.append suffix
      have hbyte : lexeme.literal = .rawByteString ↔ lexeme.literal.isByte = true := by
        simp only [List.mem_cons, List.not_mem_nil, or_false] at hraw
        rcases hraw with hraw | hraw <;> simp [hraw, LiteralKind.isByte]
      refine ⟨hscan, ?_, fun checker => ?_⟩
      · rw [htext, List.drop_left]
        exact hinside.indexOf?_eq
      · rw [checker.diagnostics_check_eq_iff,
          Lexeme.fault?_of_rawString hkind hraw hterminated hhashes, htext,
          RawString.fault?_eq_none_iff hinside, hbyte]
    · rw [hterminated] at hopen
      cases hopen
  · refine ⟨fun hterminated => ?_, fun _ => ⟨hnone, ?_⟩⟩
    · rw [hopen] at hterminated
      cases hterminated
    · obtain ⟨before, behind, hsplit⟩ := List.append_of_mem hlexeme
      exact (dialect.unterminated_last hsplit hopen).2

/-- A quote with too few `#` signs behind it belongs to the body. -/
theorem Dialect.lexemes_rawString_nearMiss :
    let dialect : Dialect := { keywords := keywords2018 }
    let source := Bytes.ofAscii "x r##\"a\"#b\"##_c"
    let lexeme : Lexeme :=
      { kind := .literal, literal := .rawString, hashes := 2,
        text := Bytes.ofAscii "r##\"a\"#b\"##_c", span := ⟨⟨2, 1, 3⟩, ⟨15, 1, 16⟩⟩ }
    source.length < UInt32.size ∧ lexeme ∈ dialect.lexemes source ∧
      ∃ body suffix, lexeme.text = RawString.opening .rawString 2 ++
          (body ++ (RawString.closing 2 ++ suffix)) ∧
        body.length = 4 ∧ (suffix = [] ∨ Grammar.Word ((runes suffix).map Rune.char)) ∧
        ∀ checker : Checker,
          (checker.check lexeme).diagnostics = checker.diagnostics ↔
            (∀ n, body[n]? = some '\r'.toUInt8 → body[n + 1]? = some '\n'.toUInt8) ∧
            (lexeme.literal = .rawByteString → ∀ byte ∈ body, byte < 0x80) ∧ suffix = [] := by
  intro dialect source lexeme
  have hsize : source.length < UInt32.size := by decide
  have hlexeme : lexeme ∈ dialect.lexemes source := by decide +kernel
  obtain ⟨content, -, hclosed, -⟩ := dialect.lexemes_rawString hsize hlexeme rfl (by decide)
  obtain ⟨body, suffix, htext, -, hsuffix, hcheck⟩ := hclosed rfl
  obtain ⟨-, hindex, hverdict⟩ := hcheck (by decide)
  have hlength : Bytes.indexOf? (RawString.closing 2)
      (lexeme.text.drop (RawString.opening .rawString 2).length) = some 4 := by
    decide
  exact ⟨hsize, hlexeme, body, suffix, htext, Option.some.inj (hindex.symm.trans hlength), hsuffix,
    hverdict⟩

end RustLexer
