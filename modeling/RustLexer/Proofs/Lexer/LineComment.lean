import RustLexer.Proofs.Lexer.Place
import RustLexer.Proofs.Lexer.Restart

/-! # Line comments

A line comment reaches from its mark to the end of its line, and a shebang is one that stands at the start
of a source. The lexer looks for the line break rune by rune; as line breaks are ASCII, it finds the first
one there is among the bytes (`Lexeme.InPlace.isLine`). The line break itself is whitespace
(`Lexeme.InPlace.whitespace_of_isLine`).
-/

namespace RustLexer

/-- A line break starts at an offset: a line feed, or a carriage return with one behind it. -/
def LineBreakAt (source : Bytes) (offset : Nat) : Prop :=
  source[offset]? = some '\n'.toUInt8 ∨
    source[offset]? = some '\r'.toUInt8 ∧ source[offset + 1]? = some '\n'.toUInt8

/-- A lexeme is the rest of a line behind the mark of a line comment or of a shebang. -/
structure Lexeme.IsLine (source : Bytes) (lexeme : Lexeme) : Prop where
  mark : Bytes.ofAscii "//" <+: lexeme.text ∨
    lexeme.span.start.offset = 0 ∧ Bytes.ofAscii "#!" <+: lexeme.text ∧
      ¬ Bytes.ofAscii "#![" <+: source
  isDoc_iff : lexeme.isDoc = true ↔ Bytes.ofAscii "//!" <+: lexeme.text ∨
    Bytes.ofAscii "///" <+: lexeme.text ∧ ¬ Bytes.ofAscii "////" <+: lexeme.text
  lineFeed_notMem : '\n'.toUInt8 ∉ lexeme.text
  stops : lexeme.span.stop.offset = source.length ∨ LineBreakAt source lexeme.span.stop.offset
  first : ∀ offset, lexeme.span.start.offset ≤ offset → offset < lexeme.span.stop.offset →
    ¬ LineBreakAt source offset

/-! ## Line breaks -/

namespace Comment

variable {text : List Rune}

theorem atLineBreak_runes_iff {source : Bytes} {offset : Nat} :
    atLineBreak (runes (source.drop offset)) = true ↔ LineBreakAt source offset := by
  have hfeed : startsWith (runes (source.drop offset)) ['\n'] = true ↔
      ['\n'.toUInt8] <+: source.drop offset := startsWith_runes_iff (forall_ascii_of_all rfl) _
  have hreturn : startsWith (runes (source.drop offset)) ['\r', '\n'] = true ↔
      ['\r'.toUInt8, '\n'.toUInt8] <+: source.drop offset :=
    startsWith_runes_iff (forall_ascii_of_all rfl) _
  have hfirst : source[offset]? = (source.drop offset)[0]? := by simp
  have hsecond : source[offset + 1]? = (source.drop offset)[1]? := by simp
  rw [atLineBreak, Bool.or_eq_true, hfeed, hreturn, LineBreakAt, hfirst, hsecond]
  rcases source.drop offset with _ | ⟨first, _ | ⟨second, rest⟩⟩
  · simp
  · simp [@eq_comm _ _ first]
  · simp [@eq_comm _ _ first, @eq_comm _ _ second]

/-- A mark without line breaks is passed over, and the line ends behind it. -/
theorem markedLineLength_spec {first second : Char} (hmark : startsWith text [first, second] = true)
    (hfirst : first ∉ ['\n', '\r']) (hsecond : second ∉ ['\n', '\r']) :
    (text.drop (markedLineLength text) = [] ∨
        atLineBreak (text.drop (markedLineLength text)) = true) ∧
      ∀ n < markedLineLength text, atLineBreak (text.drop n) = false := by
  obtain ⟨rune, rest, rfl, rfl, hrest⟩ := startsWith_cons_iff.mp hmark
  obtain ⟨other, rest, rfl, rfl, -⟩ := startsWith_cons_iff.mp hrest
  obtain ⟨hstops, hbefore⟩ := lineLength_spec rest
  simp only [List.mem_cons, List.not_mem_nil, or_false, not_or] at hfirst hsecond
  have hlength : markedLineLength (rune :: other :: rest) = lineLength rest + 2 := Nat.add_comm _ _
  rw [hlength]
  refine ⟨hstops, fun n hn => ?_⟩
  rw [Bool.eq_false_iff]
  match n with
  | 0 => simp [atLineBreak_cons_iff, hfirst]
  | 1 => simp [atLineBreak_cons_iff, hsecond]
  | n + 2 => exact Bool.eq_false_iff.mp (hbefore n (Nat.lt_of_add_lt_add_right hn))

/-- The marks of documentation, behind the mark of a line comment. -/
theorem isLineDoc_iff (hmark : startsWith text ['/', '/'] = true) :
    isLineDoc text = true ↔ startsWith text ['/', '/', '!'] = true ∨
      startsWith text ['/', '/', '/'] = true ∧ ¬ startsWith text ['/', '/', '/', '/'] = true := by
  obtain ⟨rune, rest, rfl, hfirst, hrest⟩ := startsWith_cons_iff.mp hmark
  obtain ⟨other, rest, rfl, hsecond, -⟩ := startsWith_cons_iff.mp hrest
  rcases rest with _ | ⟨third, _ | ⟨fourth, rest⟩⟩
  · simp [isLineDoc, charAt?, startsWith, hfirst, hsecond]
  · simp [isLineDoc, charAt?, startsWith, hfirst, hsecond]
  · simp only [isLineDoc, charAt?, startsWith, hfirst, hsecond]
    grind

end Comment

theorem LineBreakAt.exists_ascii {source : Bytes} {offset : Nat} (h : LineBreakAt source offset) :
    ∃ byte, source[offset]? = some byte ∧ byte < 0x80 := by
  rcases h with hfeed | ⟨hreturn, -⟩
  · exact ⟨_, hfeed, by decide⟩
  · exact ⟨_, hreturn, by decide⟩

/-! ## Constructs -/

namespace Construct

variable {text : List Rune}

/-- A line break is whitespace. -/
theorem ofText_of_lineBreak [XidClasses] (h : Comment.atLineBreak text = true) (atStart : Bool) :
    ofText atStart text = whitespace := by
  cases text with
  | nil => cases h
  | cons rune rest =>
      have hchar : rune.char = '\n' ∨ rune.char = '\r' :=
        (Comment.atLineBreak_cons_iff.mp h).imp_right And.left
      have hwhite : rune.isWhitespace = true := by
        rw [Rune.isWhitespace, Rune.code]
        rcases hchar with hchar | hchar <;> rw [hchar] <;> decide
      have hhash : rune.char ≠ '#' := by
        rcases hchar with hchar | hchar <;> rw [hchar] <;> decide
      simp [ofText, Comment.startsShebang, startsWith, startsIn, hwhite, hhash]

theorem rawString?_ne_shebang (text : List Rune) : rawString? text ≠ some shebang := by
  intro h
  unfold rawString? at h
  split at h
  next => simp at h
  next => split at h <;> simp at h

theorem ofPlainText_ne_shebang [XidClasses] (text : List Rune) : ofPlainText text ≠ shebang := by
  intro h
  unfold ofPlainText at h
  split at h
  next hraw => exact rawString?_ne_shebang text (h ▸ hraw)
  next =>
    repeat' split at h
    all_goals cases h

/-- A shebang stands at the start of a source. -/
theorem atStart_of_shebang [XidClasses] {atStart : Bool} (h : ofText atStart text = shebang) :
    atStart = true := by
  unfold ofText at h
  split at h
  next hshebang => exact (Bool.and_eq_true_iff.mp hshebang).1
  next =>
    repeat' split at h
    all_goals first | cases h | exact absurd h (ofPlainText_ne_shebang text)

end Construct

/-! ## Lexemes -/

variable [XidClasses]

namespace Lexeme.InPlace

variable {dialect : Dialect} {source : Bytes} {lexeme : Lexeme}

/-- A marked line stops at the first line break that is behind its mark. -/
theorem stops_of_mark (h : lexeme.InPlace dialect source)
    (hlength : Comment.markedLineLength (lexeme.ahead source) = (runes lexeme.text).length)
    {first second : Char} (hmark : startsWith (lexeme.ahead source) [first, second] = true)
    (hfirst : first ∉ ['\n', '\r']) (hsecond : second ∉ ['\n', '\r']) :
    (lexeme.span.stop.offset = source.length ∨ LineBreakAt source lexeme.span.stop.offset) ∧
      ∀ offset, lexeme.span.start.offset ≤ offset → offset < lexeme.span.stop.offset →
        ¬ LineBreakAt source offset := by
  obtain ⟨hstops, hbefore⟩ := Comment.markedLineLength_spec hmark hfirst hsecond
  rw [hlength, h.drop_ahead] at hstops
  refine ⟨hstops.imp (fun hnil => ?_) Comment.atLineBreak_runes_iff.mp,
    fun offset hstart hstop hbreak => ?_⟩
  · have hdrop := encode_runes (source.drop lexeme.span.stop.offset)
    rw [← Lexeme.behind, hnil, Rune.encode_nil] at hdrop
    exact Nat.le_antisymm h.offset_stop_le (List.drop_eq_nil_iff.mp hdrop.symm)
  · obtain ⟨n, rfl⟩ := Nat.exists_eq_add_of_le hstart
    obtain ⟨byte, hbyte, hascii⟩ := hbreak.exists_ascii
    rw [← List.getElem?_drop] at hbyte
    have hwidth : n < Rune.width ((lexeme.ahead source).take (runes lexeme.text).length) := by
      have hoffset := h.offset_stop
      rw [h.take_ahead, Rune.width_eq_length_encode, encode_runes]
      omega
    obtain ⟨index, hindex, hdrop⟩ := exists_index_of_ascii hbyte hascii hwidth
    have hnone := hbefore index (hlength ▸ hindex)
    rw [Lexeme.ahead, hdrop, List.drop_drop] at hnone
    rw [Comment.atLineBreak_runes_iff.mpr hbreak] at hnone
    cases hnone

theorem lineFeed_notMem (h : lexeme.InPlace dialect source)
    (hfirst : ∀ offset, lexeme.span.start.offset ≤ offset → offset < lexeme.span.stop.offset →
      ¬ LineBreakAt source offset) : '\n'.toUInt8 ∉ lexeme.text := by
  intro hmem
  obtain ⟨n, hn, hbyte⟩ := List.mem_iff_getElem.mp hmem
  have hoffset := h.offset_stop
  refine hfirst (lexeme.span.start.offset + n) (Nat.le_add_right _ _) (by omega) (Or.inl ?_)
  rw [h.getElem?_source hn, List.getElem?_eq_getElem hn, hbyte]

/-- A mark at the front of a marked line is in its text. -/
theorem startsWith_text (h : lexeme.InPlace dialect source)
    (hlength : Comment.markedLineLength (lexeme.ahead source) = (runes lexeme.text).length)
    {first second : Char} (hmark : startsWith (lexeme.ahead source) [first, second] = true) :
    startsWith (runes lexeme.text) [first, second] = true := by
  have htwo : [first, second].length ≤ (runes lexeme.text).length := by
    rw [← hlength]
    exact Nat.le_add_right 2 _
  rw [← h.take_ahead, startsWith_take htwo]
  exact hmark

theorem isLine_of_shebang (h : lexeme.InPlace dialect source)
    (hconstruct : Construct.ofText (lexeme.span.start.offset == 0) (lexeme.ahead source) = .shebang)
    (hmark : Comment.startsShebang (lexeme.ahead source) = true)
    (htag : lexeme.toTag = { kind := .lineComment })
    (hlength : Comment.markedLineLength (lexeme.ahead source) = (runes lexeme.text).length) :
    lexeme.IsLine source := by
  have hzero : lexeme.span.start.offset = 0 := eq_of_beq (Construct.atStart_of_shebang hconstruct)
  have hahead : startsWith (lexeme.ahead source) ['#', '!'] = true :=
    (Bool.and_eq_true_iff.mp hmark).1
  have htext : Bytes.ofAscii "#!" <+: lexeme.text :=
    (startsWith_runes_iff (forall_ascii_of_all rfl) _).mp (h.startsWith_text hlength hahead)
  have hshebang := (startsShebang_runes_iff _).mp hmark
  rw [hzero, List.drop_zero] at hshebang
  obtain ⟨hstops, hfirst⟩ := h.stops_of_mark hlength hahead (by decide) (by decide)
  refine ⟨Or.inr ⟨hzero, htext, hshebang.2⟩, ?_, h.lineFeed_notMem hfirst, hstops, hfirst⟩
  have hdoc : lexeme.isDoc = false := congrArg Tag.isDoc htag
  rw [hdoc]
  refine iff_of_false Bool.false_ne_true ?_
  obtain ⟨rest, hrest⟩ := htext
  rw [← hrest]
  rintro (hbang | ⟨hslash, -⟩)
  · obtain ⟨more, hmore⟩ := hbang
    cases hmore
  · obtain ⟨more, hmore⟩ := hslash
    cases hmore

theorem isLine_of_lineComment (h : lexeme.InPlace dialect source)
    (hmark : startsWith (lexeme.ahead source) ['/', '/'] = true)
    (htag : lexeme.toTag =
      { kind := .lineComment, isDoc := Comment.isLineDoc (lexeme.ahead source) })
    (hlength : Comment.markedLineLength (lexeme.ahead source) = (runes lexeme.text).length) :
    lexeme.IsLine source := by
  have hslashes := h.startsWith_text hlength hmark
  obtain ⟨hstops, hfirst⟩ := h.stops_of_mark hlength hmark (by decide) (by decide)
  have hdoc : lexeme.isDoc = Comment.isLineDoc (runes lexeme.text) := by
    have htake := Comment.isLineDoc_take (lexeme.ahead source)
    rw [hlength, h.take_ahead] at htake
    rw [htake]
    exact congrArg Tag.isDoc htag
  refine ⟨Or.inl ?_, ?_, h.lineFeed_notMem hfirst, hstops, hfirst⟩
  · exact (startsWith_runes_iff (forall_ascii_of_all rfl) _).mp hslashes
  · rw [hdoc, Comment.isLineDoc_iff hslashes]
    exact or_congr (startsWith_runes_iff (forall_ascii_of_all rfl) _)
      (and_congr (startsWith_runes_iff (forall_ascii_of_all rfl) _)
        (not_congr (startsWith_runes_iff (forall_ascii_of_all rfl) _)))

/-- A line comment in its place is a line. -/
theorem isLine (h : lexeme.InPlace dialect source) (hkind : lexeme.kind = .lineComment) :
    lexeme.IsLine source := by
  obtain ⟨construct, hconstruct, hmark, htag, hlength⟩ := h.exists_construct
  have hhas := construct.hasKind_cut dialect.keywords (lexeme.ahead source)
  rw [htag, hkind] at hhas
  cases hhas with
  | shebang => exact h.isLine_of_shebang hconstruct hmark htag.symm hlength
  | lineComment => exact h.isLine_of_lineComment hmark htag.symm hlength

/-- What follows a line is whitespace. -/
theorem whitespace_of_isLine {next : Lexeme} (hnext : next.InPlace dialect source)
    (hline : lexeme.IsLine source) (hadjacent : next.ahead source = lexeme.behind source) :
    next.kind = .whitespace := by
  have hbreak : Comment.atLineBreak (next.ahead source) = true := by
    rw [hadjacent]
    rcases hline.stops with hend | hbreak
    · have hnil : lexeme.behind source = [] := by
        rw [Lexeme.behind, hend, List.drop_length, runes_nil]
      rw [← hadjacent, hnext.ahead_eq] at hnil
      exact absurd (List.append_eq_nil_iff.mp hnil).1 hnext.runes_text_ne_nil
    · exact Comment.atLineBreak_runes_iff.mpr hbreak
  have hcut := hnext.cut_eq
  rw [Construct.ofText_of_lineBreak hbreak] at hcut
  exact (congrArg (fun cut => cut.tag.kind) hcut).symm

end Lexeme.InPlace

end RustLexer
