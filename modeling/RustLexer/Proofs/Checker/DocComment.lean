import RustLexer.CodePoint.Unicode
import RustLexer.Proofs.Checker.Locate
import RustLexer.Proofs.Checker.Verdict
import RustLexer.Proofs.Comment
import RustLexer.Proofs.Lexer.LineComment

/-! # Carriage returns in doc comments

The checker looks for a carriage return without a line feed in the text of a doc comment alone. A comment
never ends between a carriage return and a line feed (`Lexeme.EndsPlainly`), so what it finds is bare in the
source as well, and nothing that is bare in the source is missed (`Dialect.lexemes_comments`).
-/

namespace RustLexer

/-- A carriage return stands at an offset, with no line feed behind it. -/
def BareReturnAt (text : Bytes) (offset : Nat) : Prop :=
  text[offset]? = some '\r'.toUInt8 ∧ text[offset + 1]? ≠ some '\n'.toUInt8

/-- The first bare carriage return of a source in a span. -/
structure IsFirstBareReturn (source : Bytes) (span : Span) (offset : Nat) : Prop where
  start_le : span.start.offset ≤ offset
  lt_stop : offset < span.stop.offset
  bare : BareReturnAt source offset
  first : ∀ other, span.start.offset ≤ other → other < offset → ¬ BareReturnAt source other

/-- No line feed stands behind a lexeme that ends with a carriage return. -/
def Lexeme.EndsPlainly (source : Bytes) (lexeme : Lexeme) : Prop :=
  lexeme.text.getLast? = some '\r'.toUInt8 →
    source[lexeme.span.stop.offset]? ≠ some '\n'.toUInt8

/-! ## The checker -/

namespace Comment

theorem docFault?_eq_none_iff {text : Bytes} :
    docFault? text = none ↔ ∀ n, ¬ BareReturnAt text n := by
  rw [docFault?, Option.map_eq_none_iff, findSuffix?_atBareReturn_eq_none_iff]
  simp [BareReturnAt]

/-- The fault is at the first carriage return that is bare in the text. -/
theorem first_of_docFault? {text : Bytes} {fault : Fault} (h : docFault? text = some fault) :
    fault.cause = .bareReturnInDoc ∧ BareReturnAt text fault.offset ∧
      ∀ n < fault.offset, ¬ BareReturnAt text n := by
  obtain ⟨index, hindex, rfl⟩ := Option.map_eq_some_iff.mp h
  obtain ⟨-, hhere, hbefore⟩ := findSuffix?_eq_some_iff.mp hindex
  have hsplit := eq_encode_append_of_runes (List.take_append_drop index (runes text)).symm
  refine ⟨rfl, ?_, fun n hn hbare => ?_⟩
  · rw [← runes_encode_drop, atBareReturn_runes_iff] at hhere
    simp only [Rune.width_eq_length_encode]
    generalize Rune.encode ((runes text).take index) = front at hsplit ⊢
    generalize Rune.encode ((runes text).drop index) = back at hsplit hhere
    rw [hsplit, BareReturnAt, List.getElem?_append_right (Nat.le_refl _), Nat.sub_self,
      List.getElem?_append_right (Nat.le_add_right _ 1), Nat.add_sub_cancel_left]
    exact hhere
  · obtain ⟨other, hother, hdrop⟩ := exists_index_of_ascii hbare.1 (by decide) hn
    have hnone := hbefore other hother
    rw [hdrop, Bool.eq_false_iff] at hnone
    apply hnone
    rw [atBareReturn_runes_iff, List.getElem?_drop, List.getElem?_drop]
    exact hbare

theorem exists_docFault?_iff {text : Bytes} :
    (∃ fault, docFault? text = some fault ∧ fault.cause = .bareReturnInDoc) ↔
      ∃ n, BareReturnAt text n := by
  constructor
  · rintro ⟨fault, hfault, -⟩
    exact ⟨fault.offset, (first_of_docFault? hfault).2.1⟩
  · rintro ⟨n, hbare⟩
    obtain ⟨fault, hfault⟩ := Option.ne_none_iff_exists'.mp fun hnone =>
      docFault?_eq_none_iff.mp hnone n hbare
    exact ⟨fault, hfault, (first_of_docFault? hfault).1⟩

end Comment

/-- A closed block comment ends with a slash. -/
theorem Comment.getLast?_of_closed {text : Bytes}
    (hmark : startsWith (runes text) ['/', '*'] = true)
    (h : blockExtent (runes text) = { length := (runes text).length }) :
    text.getLast? = some '/'.toUInt8 := by
  obtain ⟨comment, hfront, hcomment⟩ :=
    exists_blockComment (startsWith_iff_isPrefix.mp hmark) (by rw [h])
  have hextent := blockExtent_of_blockComment hcomment hfront
  rw [h, Extent.mk.injEq] at hextent
  have hchars : (runes text).map Rune.char = comment :=
    (hfront.eq_of_length (by rw [List.length_map, hextent.1])).symm
  obtain @⟨items, -⟩ := hcomment
  obtain ⟨front, back, hsplit, -, hback⟩ := List.map_eq_append_iff.mp hchars
  obtain ⟨star, rest, rfl, -, hrest⟩ := List.map_eq_cons_iff.mp hback
  obtain ⟨slash, rest, rfl, hslash, hnil⟩ := List.map_eq_cons_iff.mp hrest
  obtain rfl := List.map_eq_nil_iff.mp hnil
  have hdecoded : slash.Decoded := decoded_of_mem_runes slash (by rw [hsplit]; simp)
  have hbytes : slash.bytes = ['/'.toUInt8] := by
    rw [hdecoded.bytes_of_ascii (by rw [hslash]; decide), hslash]
  have htext := encode_runes text
  rw [hsplit, Rune.encode_append, Rune.encode_cons, Rune.encode_cons, hbytes, Rune.encode_nil,
    List.append_nil, ← List.append_assoc] at htext
  rw [← htext, List.getLast?_append]
  rfl

theorem Lexeme.fault?_of_doc {lexeme : Lexeme} (hdoc : lexeme.isDoc = true)
    (hcomment : lexeme.kind = .lineComment ∨
      lexeme.kind = .blockComment ∧ lexeme.terminated = true) :
    lexeme.fault? = Comment.docFault? lexeme.text := by
  rcases hcomment with hkind | ⟨hkind, hterminated⟩
  · simp [fault?, hkind, hdoc]
  · simp [fault?, hkind, hterminated, hdoc]

/-! ## Lexemes -/

namespace Lexeme.InPlace

variable [XidClasses] {dialect : Dialect} {source : Bytes} {lexeme : Lexeme}

/-- Where a lexeme ends plainly, the same carriage returns are bare in its text and in its source. -/
theorem bareReturnAt_iff (h : lexeme.InPlace dialect source) (hends : lexeme.EndsPlainly source)
    {n : Nat} (hn : n < lexeme.text.length) :
    BareReturnAt lexeme.text n ↔ BareReturnAt source (lexeme.span.start.offset + n) := by
  rw [BareReturnAt, BareReturnAt, h.getElem?_source hn]
  refine and_congr_right fun hreturn => ?_
  rcases Nat.lt_or_ge (n + 1) lexeme.text.length with hinside | hlast
  · rw [Nat.add_assoc, h.getElem?_source hinside]
  · have hlength : lexeme.text.length = n + 1 := by omega
    have hstop : lexeme.span.start.offset + n + 1 = lexeme.span.stop.offset := by
      rw [h.offset_stop, hlength, Nat.add_assoc]
    rw [List.getElem?_eq_none hlast, hstop]
    refine iff_of_true (by simp) (hends ?_)
    rw [List.getLast?_eq_getElem?, hlength]
    exact hreturn

/-- A line ends plainly, as a line break would have ended it earlier. -/
theorem endsPlainly_of_isLine (h : lexeme.InPlace dialect source) (hline : lexeme.IsLine source) :
    lexeme.EndsPlainly source := by
  intro hreturn hfeed
  have hpos := List.length_pos_iff.mpr h.text_ne_nil
  have hlast : lexeme.text.length - 1 < lexeme.text.length := by omega
  have hstop : lexeme.span.start.offset + (lexeme.text.length - 1) + 1 =
      lexeme.span.stop.offset := by
    rw [h.offset_stop]
    omega
  rw [List.getLast?_eq_getElem?, ← h.getElem?_source hlast] at hreturn
  rw [← hstop] at hfeed
  exact hline.first _ (Nat.le_add_right _ _) (by omega) (Or.inr ⟨hreturn, hfeed⟩)

/-- A carriage return is bare somewhere in the text of a lexeme if one is in its part of the source. -/
theorem exists_bareReturnAt_iff (h : lexeme.InPlace dialect source)
    (hends : lexeme.EndsPlainly source) :
    (∃ n, BareReturnAt lexeme.text n) ↔ ∃ offset, lexeme.span.start.offset ≤ offset ∧
      offset < lexeme.span.stop.offset ∧ BareReturnAt source offset := by
  have hstop := h.offset_stop
  constructor
  · rintro ⟨n, hbare⟩
    obtain ⟨hn, -⟩ := List.getElem?_eq_some_iff.mp hbare.1
    exact ⟨_, Nat.le_add_right _ n, by omega, (h.bareReturnAt_iff hends hn).mp hbare⟩
  · rintro ⟨offset, hstart, hlt, hbare⟩
    obtain ⟨n, rfl⟩ := Nat.exists_eq_add_of_le hstart
    exact ⟨n, (h.bareReturnAt_iff hends (by omega)).mpr hbare⟩

/-- The fault of a doc comment is located at the first carriage return that is bare in the source. -/
theorem isFirstBareReturn_locate (h : lexeme.InPlace dialect source)
    (hends : lexeme.EndsPlainly source) {fault : Fault}
    (hfault : Comment.docFault? lexeme.text = some fault) :
    IsFirstBareReturn source lexeme.span (lexeme.locate fault.offset).offset := by
  obtain ⟨-, hbare, hfirst⟩ := Comment.first_of_docFault? hfault
  obtain ⟨hlocate, hlt⟩ := h.locate_of_standsIn (Comment.standsIn_of_docFault? hfault)
  have hstop := h.offset_stop
  rw [hlocate]
  refine ⟨Nat.le_add_right _ _, hlt, (h.bareReturnAt_iff hends (by omega)).mp hbare, ?_⟩
  intro other hstart hbefore hother
  obtain ⟨n, rfl⟩ := Nat.exists_eq_add_of_le hstart
  exact hfirst n (by omega) ((h.bareReturnAt_iff hends (by omega)).mpr hother)

end Lexeme.InPlace

variable {dialect : Dialect} {source : Bytes} {lexeme : Lexeme}

theorem Dialect.endsPlainly_of_block [XidClasses] (h : lexeme ∈ dialect.lexemes source)
    (hkind : lexeme.kind = .blockComment) (hterminated : lexeme.terminated = true) :
    lexeme.EndsPlainly source := by
  obtain ⟨construct, hmark, hcut⟩ := dialect.cut_of_mem h
  have hhas := construct.hasKind_cut dialect.keywords (runes lexeme.text)
  rw [hcut, hkind] at hhas
  cases hhas with
  | blockComment =>
      have hlength := congrArg Cut.length hcut
      have hclosed := congrArg (fun cut => cut.tag.terminated) hcut
      simp only [Construct.cut, Cut.ofBlockComment, hterminated] at hlength hclosed
      have hextent : Comment.blockExtent (runes lexeme.text) =
          { length := (runes lexeme.text).length } := by
        rw [← hlength, ← hclosed]
      intro hreturn
      rw [Comment.getLast?_of_closed hmark hextent] at hreturn
      exact absurd (Option.some.inj hreturn) (by decide)

/-- A comment that is closed ends plainly. -/
theorem Dialect.endsPlainly_of_comment [XidClasses] (hlexeme : lexeme ∈ dialect.lexemes source)
    (hcomment : lexeme.kind = .lineComment ∨
      lexeme.kind = .blockComment ∧ lexeme.terminated = true) : lexeme.EndsPlainly source := by
  rcases hcomment with hkind | ⟨hkind, hterminated⟩
  · have hplace := inPlace_of_mem hlexeme
    exact hplace.endsPlainly_of_isLine (hplace.isLine hkind)
  · exact endsPlainly_of_block hlexeme hkind hterminated

/-- A line comment is the rest of its line, and whitespace follows it. In a doc comment a carriage return is
warned of if and only if there is one that is bare in the source, and the first such is named. -/
theorem Dialect.lexemes_comments [XidClasses] (dialect : Dialect) (source : Bytes) :
    (∀ lexeme ∈ dialect.lexemes source, lexeme.kind = .lineComment → lexeme.IsLine source) ∧
    ((dialect.lexemes source).IsChain fun lexeme next =>
      lexeme.kind = .lineComment → next.kind = .whitespace) ∧
    ∀ lexeme ∈ dialect.lexemes source, lexeme.isDoc = true →
      (lexeme.kind = .lineComment ∨ lexeme.kind = .blockComment ∧ lexeme.terminated = true) →
      ∀ checker : Checker,
        ((∃ position, (checker.check lexeme).diagnostics = checker.diagnostics.push
            { cause := .bareReturnInDoc, span := lexeme.span, position }) ↔
          ∃ offset, lexeme.span.start.offset ≤ offset ∧ offset < lexeme.span.stop.offset ∧
            BareReturnAt source offset) ∧
        ∀ position, (checker.check lexeme).diagnostics = checker.diagnostics.push
            { cause := .bareReturnInDoc, span := lexeme.span, position } →
          position.TrueIn source ∧ IsFirstBareReturn source lexeme.span position.offset := by
  refine ⟨fun lexeme hlexeme => (inPlace_of_mem hlexeme).isLine, ?_, ?_⟩
  · refine isChain_lexemes fun lexeme next hlexeme hnext hadjacent hkind => ?_
    exact hnext.whitespace_of_isLine (hlexeme.isLine hkind) hadjacent
  intro lexeme hlexeme hdoc hcomment checker
  have hplace := inPlace_of_mem hlexeme
  have hends := endsPlainly_of_comment hlexeme hcomment
  constructor
  · rw [checker.reports_iff, Lexeme.fault?_of_doc hdoc hcomment, Comment.exists_docFault?_iff]
    exact hplace.exists_bareReturnAt_iff hends
  · intro position hpush
    obtain ⟨fault, hfault, hdiagnostic⟩ := checker.diagnostics_check_eq_push_iff.mp hpush
    rw [Lexeme.fault?_of_doc hdoc hcomment] at hfault
    obtain rfl : lexeme.locate fault.offset = position := congrArg Diagnostic.position hdiagnostic
    exact ⟨hplace.locate_trueIn _, hplace.isFirstBareReturn_locate hends hfault⟩

/-- The first carriage return is bare; the second one belongs to the line break. -/
theorem Dialect.lexemes_comments_bareReturn :
    let dialect : Dialect := { keywords := keywords2018 }
    let source := Bytes.ofAscii "/// a\rb\r\nx"
    let lexeme : Lexeme :=
      { kind := .lineComment, isDoc := true, text := Bytes.ofAscii "/// a\rb",
        span := ⟨⟨0, 1, 1⟩, ⟨7, 1, 8⟩⟩ }
    lexeme ∈ dialect.lexemes source ∧ lexeme.IsLine source ∧
      ∀ checker : Checker, ∃ position,
        (checker.check lexeme).diagnostics = checker.diagnostics.push
            { cause := .bareReturnInDoc, span := lexeme.span, position } ∧
          position.TrueIn source ∧ IsFirstBareReturn source lexeme.span position.offset := by
  intro dialect source lexeme
  have hlexeme : lexeme ∈ dialect.lexemes source := by decide +kernel
  obtain ⟨hlines, -, hdocs⟩ := dialect.lexemes_comments source
  refine ⟨hlexeme, hlines lexeme hlexeme rfl, fun checker => ?_⟩
  obtain ⟨hreports, hposition⟩ := hdocs lexeme hlexeme rfl (Or.inl rfl) checker
  obtain ⟨position, hpush⟩ := hreports.mpr ⟨5, by decide, by decide, by decide, by decide⟩
  exact ⟨position, hpush, hposition position hpush⟩

end RustLexer
