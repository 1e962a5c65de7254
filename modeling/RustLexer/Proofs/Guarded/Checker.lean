import RustLexer.Checker
import RustLexer.Proofs.Checker.DocComment
import RustLexer.Proofs.Guarded.Number
import RustLexer.Proofs.Guarded.Quoted
import RustLexer.Proofs.Guarded.RawString

/-! # The checker, guarded

The checker takes every lexeme, also one that no lexer would give: its text, its kind of literal, its count of
`#` signs and whether it is terminated need not go together. Under guards it answers all the same, with the
diagnostics that it collects in runes (`Checker.check_guarded`). So it always stops, neither reads nor cuts a
text behind its end, and keeps its words in their range.
-/

namespace RustLexer

namespace Guarded

/-! ## Doc comments -/

/-- The fault in a doc comment. -/
def docFault? (text : Bytes) : Guarded (Option Fault) :=
  loop step (text.length + 1) 0
where
  /-- Looks at one byte, and behind a carriage return at the next. -/
  step (offset : Nat) : Guarded (Nat ⊕ Option Fault) := do
    if offset < text.length then do
      let byte ← byteAt text offset
      if byte = '\r'.toUInt8 then do
        if offset + 1 = text.length then pure (.inr (some { cause := .bareReturnInDoc, offset }))
        else do
          let next ← byteAt text (offset + 1)
          if next ≠ '\n'.toUInt8 then pure (.inr (some { cause := .bareReturnInDoc, offset }))
          else pure (.inl (offset + 1))
      else pure (.inl (offset + 1))
    else pure (.inr none)

variable {text : Bytes} {offset : Nat}

theorem docFault?_step_of_bare (h : BareReturnAt text offset) :
    docFault?.step text offset = pure (.inr (some { cause := .bareReturnInDoc, offset })) := by
  obtain ⟨hreturn, hfeed⟩ := h
  obtain ⟨hlt, hbyte⟩ := List.getElem?_eq_some_iff.mp hreturn
  rw [docFault?.step, if_pos hlt, byteAt_of_lt hlt, pure_bind, if_pos hbyte]
  by_cases hlast : offset + 1 = text.length
  · exact if_pos hlast
  · have hnext : offset + 1 < text.length := Nat.lt_of_le_of_ne hlt hlast
    have hplain : text[offset + 1] ≠ '\n'.toUInt8 := fun heq =>
      hfeed (List.getElem?_eq_some_iff.mpr ⟨hnext, heq⟩)
    rw [if_neg hlast, byteAt_of_lt hnext, pure_bind]
    exact if_pos hplain

theorem docFault?_step_of_not_bare (hlt : offset < text.length) (h : ¬ BareReturnAt text offset) :
    docFault?.step text offset = pure (.inl (offset + 1)) := by
  rw [docFault?.step, if_pos hlt, byteAt_of_lt hlt, pure_bind]
  by_cases hbyte : text[offset] = '\r'.toUInt8
  · have hfeed : text[offset + 1]? = some '\n'.toUInt8 := Classical.byContradiction fun hfeed =>
      h ⟨List.getElem?_eq_some_iff.mpr ⟨hlt, hbyte⟩, hfeed⟩
    obtain ⟨hnext, hbreak⟩ := List.getElem?_eq_some_iff.mp hfeed
    rw [if_pos hbyte, if_neg (Nat.ne_of_lt hnext), byteAt_of_lt hnext, pure_bind]
    exact if_neg (not_not_intro hbreak)
  · exact if_neg hbyte

/-- The first bare carriage return is the fault. -/
theorem docFault?_of_first (hbare : BareReturnAt text offset)
    (hfirst : ∀ earlier < offset, ¬ BareReturnAt text earlier) :
    Comment.docFault? text = some { cause := .bareReturnInDoc, offset } := by
  obtain ⟨fault, hfault⟩ := Option.ne_none_iff_exists'.mp fun hnone =>
    Comment.docFault?_eq_none_iff.mp hnone offset hbare
  obtain ⟨hcause, hhere, hbefore⟩ := Comment.first_of_docFault? hfault
  have hoffset : fault.offset = offset := by
    rcases Nat.lt_trichotomy fault.offset offset with hlt | heq | hgt
    · exact absurd hhere (hfirst _ hlt)
    · exact heq
    · exact absurd hbare (hbefore _ hgt)
  rw [hfault, ← hcause, ← hoffset]

theorem docFault?_nearer (hfirst : ∀ earlier < offset, ¬ BareReturnAt text earlier) :
    Nearer (docFault?.step text) (fun offset => ∀ earlier < offset, ¬ BareReturnAt text earlier)
      (fun offset => text.length - offset) (fun _ => Comment.docFault? text) offset := by
  -- No carriage return is bare up to the offset, and none is up to the next if the loop goes on.
  by_cases hbare : BareReturnAt text offset
  · refine .done ?_
    rw [docFault?_step_of_bare hbare, docFault?_of_first hbare hfirst]
  by_cases hlt : offset < text.length
  · have hless : text.length - (offset + 1) < text.length - offset := by omega
    refine .next (offset + 1) (docFault?_step_of_not_bare hlt hbare) (fun earlier hearlier => ?_) hless rfl
    rcases Nat.lt_or_eq_of_le (Nat.le_of_lt_succ hearlier) with hless | rfl
    · exact hfirst earlier hless
    · exact hbare
  · have hnone : Comment.docFault? text = none := by
      refine Comment.docFault?_eq_none_iff.mpr fun n hn => ?_
      obtain ⟨hwithin, -⟩ := List.getElem?_eq_some_iff.mp hn.1
      exact hfirst n (Nat.lt_of_lt_of_le hwithin (Nat.not_lt.mp hlt)) hn
    refine .done ?_
    rw [docFault?.step, if_neg hlt, hnone]

theorem docFault?_eq (text : Bytes) : docFault? text = pure (Comment.docFault? text) :=
  loop_through_eq_pure (fun _ hfirst => docFault?_nearer hfirst) (fun _ h => absurd h (Nat.not_lt_zero _))

/-! ## Places of faults -/

/-- The position of a byte of a lexeme's text, found by walking over the text. -/
def locate (lexeme : Lexeme) (offset : Nat) : Guarded Position := do
  let position ← loop step (lexeme.text.length + 1) {}
  pure (lexeme.span.start.shift position)
where
  /-- Moves over one rune. -/
  step (position : Position) : Guarded (Position ⊕ Position) := do
    match ← runeAt lexeme.text position.offset with
    | some rune =>
        if position.offset < offset then pure (.inl (position.next rune)) else pure (.inr position)
    | none => pure (.inr position)

theorem locate_nearer (lexeme : Lexeme) (offset : Nat) (position : Position) :
    Nearer (locate.step lexeme offset) (fun _ => True) (fun position => lexeme.text.length - position.offset)
      (fun position => position.upTo offset (runes (lexeme.text.drop position.offset))) position := by
  cases hrunes : runes (lexeme.text.drop position.offset) with
  | nil =>
      refine .done ?_
      rw [locate.step, runeAt_of_nil hrunes, pure_bind, hrunes, Position.upTo]
  | cons rune rest =>
      have hstep : locate.step lexeme offset position =
          if position.offset < offset then pure (.inl (position.next rune)) else pure (.inr position) := by
        rw [locate.step, runeAt_of_cons hrunes, pure_bind]
      by_cases hbefore : position.offset < offset
      · rw [if_pos hbefore] at hstep
        refine .next (position.next rune) hstep trivial (length_sub_lt hrunes) ?_
        rw [hrunes, Position.upTo, if_pos hbefore, Position.next, runes_next hrunes]
      · rw [if_neg hbefore] at hstep
        refine .done ?_
        rw [hstep, hrunes, Position.upTo, if_neg hbefore]

theorem locate_eq (lexeme : Lexeme) (offset : Nat) :
    locate lexeme offset = pure (lexeme.locate offset) := by
  have hloop : loop (locate.step lexeme offset) (lexeme.text.length + 1) {} =
      pure (Position.upTo {} offset (runes lexeme.text)) :=
    loop_through_eq_pure (fun position _ => locate_nearer lexeme offset position) trivial
  rw [locate, hloop, pure_bind, Lexeme.locate]

/-! ## Lexemes -/

/-- The fault in a literal. The delimiters are judged before the body. -/
def literalFault? (lexeme : Lexeme) : Guarded (Option Fault) :=
  if lexeme.literal.isRaw && RawString.maxHashes < lexeme.hashes then pure (some { cause := .tooManyHashes })
  else if !lexeme.terminated then pure (some { cause := .unterminatedLiteral lexeme.literal })
  else match lexeme.literal with
    | .integer => numberFault? false lexeme.text
    | .float => numberFault? true lexeme.text
    | .char | .byteChar | .string | .byteString => quotedFault? lexeme.literal lexeme.text
    | .rawString | .rawByteString => rawFault? lexeme.literal lexeme.hashes lexeme.text

/-- The fault in a lexeme. -/
def fault? (lexeme : Lexeme) : Guarded (Option Fault) :=
  match lexeme.kind with
  | .unknown => pure (some { cause := .unknownLexeme lexeme.text })
  | .blockComment =>
      if !lexeme.terminated then pure (some { cause := .unterminatedBlockComment })
      else if lexeme.isDoc then docFault? lexeme.text
      else pure none
  | .lineComment => if lexeme.isDoc then docFault? lexeme.text else pure none
  | .literal => literalFault? lexeme
  | .whitespace | .identifier | .keyword | .lifetime | .operator | .punctuation => pure none

/-- Checks one more lexeme. -/
def check (checker : Checker) (lexeme : Lexeme) : Guarded Checker := do
  match ← fault? lexeme with
  | some fault => do
      let position ← locate lexeme fault.offset
      let diagnostic := { cause := fault.cause, span := lexeme.span, position }
      pure { diagnostics := checker.diagnostics.push diagnostic }
  | none => pure checker

/-- Checks lexemes in turn. -/
def checkAll (checker : Checker) (lexemes : List Lexeme) : Guarded Checker :=
  lexemes.foldlM check checker

/-- With no more `#` signs than may delimit a raw string, its body starts at an offset that fits a word. -/
theorem content_lt_size (literal : LiteralKind) {hashes : UInt32} (h : ¬ RawString.maxHashes < hashes) :
    (if literal.isByte then 2 else 1) + hashes.toNat + 1 < UInt32.size := by
  have hmark : (if literal.isByte then 2 else 1) ≤ 2 := by split <;> decide
  have hhashes : hashes.toNat ≤ 255 := UInt32.not_lt.mp h
  have hsize : 258 < UInt32.size := by decide
  omega

theorem literalFault?_eq (lexeme : Lexeme) : literalFault? lexeme = pure lexeme.literalFault? := by
  rw [literalFault?, Lexeme.literalFault?]
  split
  next => rfl
  next hhashes =>
    split
    next => rfl
    next =>
      rw [Bool.and_eq_true, decide_eq_true_eq, not_and] at hhashes
      cases hliteral : lexeme.literal with
      | integer => exact numberFault?_eq false lexeme.text
      | float => exact numberFault?_eq true lexeme.text
      | char => exact quotedFault?_eq .char lexeme.text
      | byteChar => exact quotedFault?_eq .byteChar lexeme.text
      | string => exact quotedFault?_eq .string lexeme.text
      | byteString => exact quotedFault?_eq .byteString lexeme.text
      | rawString => exact rawFault?_eq lexeme.text (content_lt_size _ (hhashes (by rw [hliteral]; rfl)))
      | rawByteString => exact rawFault?_eq lexeme.text (content_lt_size _ (hhashes (by rw [hliteral]; rfl)))

theorem fault?_eq (lexeme : Lexeme) : fault? lexeme = pure lexeme.fault? := by
  unfold fault? Lexeme.fault?
  cases lexeme.kind with
  | blockComment =>
      simp only [docFault?_eq]
      split_ifs <;> rfl
  | lineComment =>
      simp only [docFault?_eq]
      split_ifs <;> rfl
  | literal => exact literalFault?_eq lexeme
  | _ => rfl

theorem check_eq (checker : Checker) (lexeme : Lexeme) :
    check checker lexeme = pure (checker.check lexeme) := by
  rw [check, fault?_eq, pure_bind, Checker.check, Lexeme.diagnostic?]
  cases lexeme.fault? with
  | none => rfl
  | some fault =>
      simp only [locate_eq, pure_bind]
      rfl

theorem checkAll_eq (checker : Checker) (lexemes : List Lexeme) :
    checkAll checker lexemes = pure (checker.checkAll lexemes) := by
  induction lexemes generalizing checker with
  | nil => rfl
  | cons lexeme lexemes ih =>
      rw [checkAll, List.foldlM_cons, check_eq, pure_bind]
      exact ih (checker.check lexeme)

end Guarded

/-- Every lexeme can be checked, and every sequence of lexemes, after whatever was checked before. No byte is
read that the text does not have, no text is cut behind its end, no number leaves its word, and no loop takes
more than one step for each byte of the text and one more. -/
theorem Checker.check_guarded (checker : Checker) :
    (∀ lexeme, Guarded.check checker lexeme = .ok (checker.check lexeme)) ∧
      ∀ lexemes, Guarded.checkAll checker lexemes = .ok (checker.checkAll lexemes) :=
  ⟨Guarded.check_eq checker, Guarded.checkAll_eq checker⟩

end RustLexer
