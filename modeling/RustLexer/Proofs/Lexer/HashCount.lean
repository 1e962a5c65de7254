import RustLexer.CodePoint.Unicode
import RustLexer.Proofs.Lexer.RawString

/-! # Counting the hash signs of raw strings

The `#` signs before the opening quote of a raw string are counted in a 32-bit word. The count is the number
of signs as long as it fits the word, and what is left of it when it has wrapped otherwise; the checker goes
by the word (`Dialect.lexemes_hashes`).
-/

namespace RustLexer

namespace RawString

variable {literal : LiteralKind}

/-- A text opens a raw string with one number of `#` signs only. -/
theorem count_unique {text : Bytes} {count other : Nat} (h : opening literal count <+: text)
    (hother : opening literal other <+: text) : count = other := by
  have hcount : ∀ {hashes}, opening literal hashes <+: text →
      runLength isHash ((runes text).drop (mark literal).length) = hashes := by
    intro hashes hfront
    have hstarts := (startsWith_runes_iff (openingChars_isAscii literal hashes) text).mpr hfront
    exact (startsWith_hashes_iff.mp (startsWith_append_iff.mp hstarts).2).1
  rw [← hcount h, hcount hother]

theorem cause_of_bodyFault? {offset : Nat} {body : List Rune} {fault : Fault}
    (h : bodyFault? literal offset body = some fault) :
    fault.cause = .nonAscii literal ∨ fault.cause = .bareReturnInRawString := by
  obtain ⟨index, -, rfl⟩ := Option.map_eq_some_iff.mp h
  simp only
  split
  next => exact Or.inl rfl
  next => exact Or.inr rfl

theorem cause_of_fault? {hashes : Nat} {text : Bytes} {fault : Fault}
    (h : fault? literal hashes text = some fault) : fault.cause ≠ .tooManyHashes := by
  simp only [fault?] at h
  generalize (if literal.isByte = true then 2 else 1) = marked at h
  split at h
  next => cases h
  next =>
  split at h
  next hbody =>
    cases h
    rcases cause_of_bodyFault? hbody with hcause | hcause <;> simp [hcause]
  next =>
  split at h
  next =>
    cases h
    simp
  next => cases h

end RawString

/-- A raw string has too many `#` signs if the word that they are counted in exceeds the bound. -/
theorem Lexeme.fault?_tooManyHashes_iff {lexeme : Lexeme} (hkind : lexeme.kind = .literal)
    (hraw : lexeme.literal ∈ [.rawString, .rawByteString]) :
    (∃ fault, lexeme.fault? = some fault ∧ fault.cause = .tooManyHashes) ↔
      255 < lexeme.hashes.toNat := by
  have hbound : RawString.maxHashes < lexeme.hashes ↔ 255 < lexeme.hashes.toNat :=
    UInt32.lt_iff_toNat_lt
  simp only [List.mem_cons, List.not_mem_nil, or_false] at hraw
  have hisRaw : lexeme.literal.isRaw = true := by
    rcases hraw with hraw | hraw <;> rw [hraw] <;> rfl
  rw [fault?_of_literal hkind, literalFault?, hisRaw, Bool.true_and]
  by_cases hmany : RawString.maxHashes < lexeme.hashes
  · rw [if_pos (decide_eq_true hmany)]
    exact iff_of_true ⟨_, rfl, rfl⟩ (hbound.mp hmany)
  · rw [if_neg (mt of_decide_eq_true hmany)]
    refine iff_of_false ?_ (mt hbound.mpr hmany)
    rintro ⟨fault, hfault, hcause⟩
    split at hfault
    next =>
      cases hfault
      cases hcause
    next =>
      rcases hraw with hraw | hraw <;> rw [hraw] at hfault <;>
        exact RawString.cause_of_fault? hfault hcause

/-- A raw string is read with the opening delimiter that it starts with. -/
theorem Construct.ofText_of_opening [XidClasses] (atStart : Bool) (count : Nat) (content : Bytes) :
    ofText atStart (runes (RawString.opening .rawString count ++ content)) =
      rawString (UInt32.ofNat count) := by
  have hstarts := (startsWith_runes_iff (RawString.openingChars_isAscii .rawString count)
    (RawString.opening .rawString count ++ content)).mpr (List.prefix_append _ _)
  obtain ⟨hmark, hhashes⟩ := startsWith_append_iff.mp hstarts
  generalize runes (RawString.opening .rawString count ++ content) = text at hmark hhashes
  obtain ⟨letter, rest, rfl, hletter, -⟩ := startsWith_cons_iff.mp hmark
  have hwhite : letter.isWhitespace = false := by
    rw [Rune.isWhitespace, Rune.code, hletter]
    decide
  have hcount : RawString.hashes? rest = some (UInt32.ofNat count) :=
    RawString.hashes?_eq_some_iff.mpr ⟨count, hhashes, rfl⟩
  simp [ofText, ofPlainText, rawString?, Comment.startsShebang, startsWith, startsIn, hletter,
    hwhite, hcount]

namespace Dialect

variable {source : Bytes} {lexeme : Lexeme}

/-- The word of a raw string is the number of `#` signs that its text opens with, as far as it fits. -/
theorem exists_opening_of_mem [XidClasses] {dialect : Dialect} (hlexeme : lexeme ∈ dialect.lexemes source)
    (hkind : lexeme.kind = .literal) (hraw : lexeme.literal ∈ [.rawString, .rawByteString]) :
    ∃ count, RawString.opening lexeme.literal count <+: lexeme.text ∧
      UInt32.ofNat count = lexeme.hashes := by
  obtain ⟨construct, hliteral, hmark, hcut⟩ := dialect.literal_of_mem hlexeme hkind
  obtain ⟨hstarts, hhashes, -⟩ :=
    Construct.rawString_of_isLiteral dialect.keywords hliteral hraw hmark
  rw [hcut] at hhashes
  exact RawString.exists_opening_isPrefix hstarts hhashes

/-- A source that opens a raw string starts with that raw string, whatever the number of its `#` signs. -/
theorem exists_rawString [XidClasses] (dialect : Dialect) (count : Nat) (content : Bytes) :
    ∃ lexeme ∈ dialect.lexemes (RawString.opening .rawString count ++ content),
      lexeme.kind = .literal ∧ lexeme.literal = .rawString ∧
      lexeme.hashes = UInt32.ofNat count ∧ RawString.opening .rawString count <+: lexeme.text := by
  generalize hsource : RawString.opening .rawString count ++ content = source
  have htiles := (dialect.tiles_lexemes source).2
  have hne : dialect.lexemes source ≠ [] := by
    rw [ne_eq, htiles.eq_nil_iff, ← hsource]
    exact List.append_ne_nil_of_left_ne_nil (by simp [RawString.opening]) _
  obtain ⟨lexeme, rest, hlexemes⟩ := List.exists_cons_of_ne_nil hne
  have hlexeme : lexeme ∈ dialect.lexemes source := hlexemes ▸ List.mem_cons_self
  have hstart : lexeme.span.start.offset = 0 := by
    rw [htiles.start_head lexeme (by rw [hlexemes]; rfl)]
  have hplace := inPlace_of_mem hlexeme
  have hcut := hplace.cut_eq
  have htext := hplace.drop_start
  rw [Lexeme.ahead, hstart, List.drop_zero, ← hsource, Construct.ofText_of_opening] at hcut
  rw [hstart, List.drop_zero, ← hsource] at htext
  have hkind : lexeme.kind = .literal := (congrArg (fun cut => cut.tag.kind) hcut).symm
  have hliteral : lexeme.literal = .rawString := (congrArg (fun cut => cut.tag.literal) hcut).symm
  have hhashes : lexeme.hashes = UInt32.ofNat count :=
    (congrArg (fun cut => cut.tag.hashes) hcut).symm
  refine ⟨lexeme, hlexeme, hkind, hliteral, hhashes, ?_⟩
  -- The text opens the raw string as the source does.
  obtain ⟨other, hopening, -⟩ := exists_opening_of_mem hlexeme hkind (by simp [hliteral])
  rw [hliteral] at hopening
  have hother : RawString.opening .rawString other <+: RawString.opening .rawString count ++ content :=
    hopening.trans ⟨_, htext.symm⟩
  rw [RawString.count_unique (List.prefix_append _ _) hother]
  exact hopening

/-- The word of a raw string counts its `#` signs exactly if and only if they are fewer than a word can
count, and the checker reports too many of them if and only if the word exceeds the bound. -/
theorem lexemes_hashes [XidClasses] (dialect : Dialect) (hlexeme : lexeme ∈ dialect.lexemes source)
    (hkind : lexeme.kind = .literal) (hraw : lexeme.literal ∈ [.rawString, .rawByteString]) :
    ∃ count content, lexeme.text = RawString.opening lexeme.literal count ++ content ∧
      lexeme.hashes.toNat = count % UInt32.size ∧
      (lexeme.hashes.toNat = count ↔ count < UInt32.size) ∧
      ∀ checker : Checker,
        (∃ position, (checker.check lexeme).diagnostics = checker.diagnostics.push
          { cause := .tooManyHashes, span := lexeme.span, position }) ↔
        255 < count % UInt32.size := by
  obtain ⟨count, ⟨content, hcontent⟩, hhashes⟩ := exists_opening_of_mem hlexeme hkind hraw
  have hword : lexeme.hashes.toNat = count % UInt32.size := by
    rw [← hhashes, UInt32.toNat_ofNat']
  refine ⟨count, content, hcontent.symm, hword, ?_, fun checker => ?_⟩
  · rw [hword]
    exact Nat.mod_eq_iff_lt (by decide)
  · rw [← hword, ← Lexeme.fault?_tooManyHashes_iff hkind hraw]
    exact checker.reports_iff

/-- One `#` sign more than may be is counted and reported. -/
theorem lexemes_hashes_tooMany :
    let dialect : Dialect := { keywords := keywords2018 }
    ∃ lexeme ∈ dialect.lexemes (RawString.opening .rawString 256),
      RawString.opening .rawString 256 <+: lexeme.text ∧ lexeme.hashes.toNat = 256 ∧
      ∀ checker : Checker, ∃ position, (checker.check lexeme).diagnostics =
        checker.diagnostics.push { cause := .tooManyHashes, span := lexeme.span, position } := by
  intro dialect
  obtain ⟨lexeme, hlexeme, hkind, hliteral, -, hopening⟩ := dialect.exists_rawString 256 []
  rw [List.append_nil] at hlexeme
  obtain ⟨count, content, htext, -, hexact, hreports⟩ :=
    dialect.lexemes_hashes hlexeme hkind (by simp [hliteral])
  rw [hliteral] at htext
  obtain rfl : 256 = count := RawString.count_unique hopening ⟨content, htext.symm⟩
  exact ⟨lexeme, hlexeme, hopening, hexact.mpr (by decide), fun checker =>
    (hreports checker).mpr (by decide)⟩

/-- As many `#` signs as a word has values wrap: the word says that there are none, and too many are not
reported. -/
theorem lexemes_hashes_wrap :
    let dialect : Dialect := { keywords := keywords2018 }
    ∃ lexeme ∈ dialect.lexemes (RawString.opening .rawString UInt32.size),
      lexeme.kind = .literal ∧ lexeme.literal = .rawString ∧
      RawString.opening .rawString UInt32.size <+: lexeme.text ∧
      lexeme.hashes.toNat ≠ UInt32.size ∧
      ∀ checker : Checker, ¬ ∃ position, (checker.check lexeme).diagnostics =
        checker.diagnostics.push { cause := .tooManyHashes, span := lexeme.span, position } := by
  intro dialect
  obtain ⟨lexeme, hlexeme, hkind, hliteral, hhashes, hopening⟩ :=
    dialect.exists_rawString UInt32.size []
  rw [List.append_nil] at hlexeme
  have hzero : lexeme.hashes.toNat = 0 := by
    rw [hhashes, UInt32.toNat_ofNat']
    exact Nat.mod_self _
  refine ⟨lexeme, hlexeme, hkind, hliteral, hopening, ?_, fun checker => ?_⟩
  · rw [hzero]
    decide
  · rw [checker.reports_iff, Lexeme.fault?_tooManyHashes_iff hkind (by simp [hliteral]), hzero]
    decide

end Dialect

end RustLexer
