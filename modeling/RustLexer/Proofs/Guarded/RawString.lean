import RustLexer.Proofs.Checker.Closing
import RustLexer.Proofs.Guarded.Reading

/-! # Raw strings, guarded

Where the body of a raw string starts is computed from its count of `#` signs in a 32-bit word, and not read
from its text, which may be shorter. The word has room for the offset because the count is limited before, and
no body is found behind the end of the text (`Guarded.rawFault?_eq`).
-/

namespace RustLexer.Guarded

/-- The offset that the body of a raw string with so many `#` signs starts at. -/
def contentOffset (literal : LiteralKind) (hashes : UInt32) : Guarded UInt32 := do
  let opening ← word ((if literal.isByte then 2 else 1) + hashes.toNat)
  word (opening.toNat + 1)

/-- The fault in the body of a raw string that starts at an offset. -/
def rawBodyFault? (literal : LiteralKind) (content : Nat) (body : Bytes) : Guarded (Option Fault) :=
  loop step (body.length + 1) 0
where
  /-- Reads one rune. -/
  step (offset : Nat) : Guarded (Nat ⊕ Option Fault) := do
    match ← read body offset with
    | (none, _) => pure (.inr none)
    | (some rune, behind) =>
        if literal.isByte && rune.isNonAscii then
          pure (.inr (some { cause := .nonAscii literal, offset := content + offset }))
        else if rune.char == '\r' && !(← isAt body behind '\n') then
          pure (.inr (some { cause := .bareReturnInRawString, offset := content + offset }))
        else pure (.inl behind)

/-- The fault in a raw string. -/
def rawFault? (literal : LiteralKind) (hashes : UInt32) (text : Bytes) : Guarded (Option Fault) := do
  let content ← contentOffset literal hashes
  match Bytes.indexOf? (RawString.closing hashes.toNat) (text.drop content.toNat) with
  | none => pure none
  | some length => do
      let close := content.toNat + length
      let body ← cut text content.toNat close
      match ← rawBodyFault? literal content.toNat body with
      | some fault => pure (some fault)
      | none =>
          let stop := close + (hashes.toNat + 1)
          if stop < text.length then pure (some { cause := .stringSuffix, offset := stop }) else pure none

variable {literal : LiteralKind}

/-! ## The start of the body -/

theorem contentOffset_eq {hashes : UInt32}
    (h : (if literal.isByte then 2 else 1) + hashes.toNat + 1 < UInt32.size) :
    contentOffset literal hashes =
      pure (UInt32.ofNat ((if literal.isByte then 2 else 1) + hashes.toNat + 1)) := by
  have hopening := Nat.lt_of_succ_lt h
  rw [contentOffset, word_of_lt hopening, pure_bind, toNat_ofNat_of_lt hopening, word_of_lt h]

/-- Without a limit on the `#` signs there would be no room for it. -/
example : contentOffset .rawByteString 0xFFFFFFFD = throw .outOfRange := rfl

/-! ## The body -/

theorem atFault_cons (literal : LiteralKind) (rune : Rune) (rest : List Rune) :
    RawString.atFault literal (rune :: rest) =
      ((literal.isByte && rune.isNonAscii) || (rune.char == '\r' && !startsWith rest ['\n'])) := by
  rw [RawString.atFault, atBareReturn_cons]
  rfl

theorem bodyFault?_cons (literal : LiteralKind) (rune : Rune) (rest : List Rune) (offset : Nat) :
    RawString.bodyFault? literal offset (rune :: rest) =
      if RawString.atFault literal (rune :: rest) then
        some { cause := if rune.isNonAscii then .nonAscii literal else .bareReturnInRawString, offset }
      else RawString.bodyFault? literal (offset + rune.bytes.length) rest := by
  rw [RawString.bodyFault?, findSuffix?_cons]
  split
  next => rfl
  next =>
    rw [RawString.bodyFault?, Option.map_map]
    congr 1
    funext index
    rw [Function.comp_apply, Nat.add_comm 1, List.drop_succ_cons, List.take_succ_cons, Rune.width_cons,
      Nat.add_assoc]

theorem rawBodyFault?_nearer (literal : LiteralKind) (content : Nat) (body : Bytes) (offset : Nat) :
    Nearer (rawBodyFault?.step literal content body) (fun _ => True) (fun offset => body.length - offset)
      (fun offset => RawString.bodyFault? literal (content + offset) (runes (body.drop offset))) offset := by
  cases hrunes : runes (body.drop offset) with
  | nil =>
      have hnone : RawString.bodyFault? literal (content + offset) [] = none := by cases literal <;> rfl
      refine .done ?_
      rw [rawBodyFault?.step, read_of_nil hrunes, pure_bind, hrunes, hnone]
  | cons rune rest =>
      have hstep : rawBodyFault?.step literal content body offset =
          if literal.isByte && rune.isNonAscii then
            pure (.inr (some { cause := .nonAscii literal, offset := content + offset }))
          else if rune.char == '\r' && !startsWith rest ['\n'] then
            pure (.inr (some { cause := .bareReturnInRawString, offset := content + offset }))
          else pure (.inl (offset + rune.bytes.length)) := by
        rw [rawBodyFault?.step, read_of_cons hrunes, pure_bind]
        simp only [isAt_eq, runes_next hrunes, pure_bind]
      have hresult := bodyFault?_cons literal rune rest (content + offset)
      rw [atFault_cons] at hresult
      by_cases hwide : (literal.isByte && rune.isNonAscii) = true
      · rw [hwide, Bool.true_or, if_pos rfl, if_pos (Bool.and_eq_true_iff.mp hwide).2] at hresult
        refine .done ?_
        rw [hstep, if_pos hwide, hrunes, hresult]
      rw [Bool.eq_false_iff.mpr hwide, Bool.false_or] at hresult
      rw [if_neg hwide] at hstep
      by_cases hreturn : (rune.char == '\r' && !startsWith rest ['\n']) = true
      · have hnarrow : ¬ rune.isNonAscii = true := by
          rw [Bool.and_eq_true, beq_iff_eq] at hreturn
          rw [Rune.isNonAscii, Rune.code, hreturn.1]
          decide
        rw [if_pos hreturn, if_neg hnarrow] at hresult
        refine .done ?_
        rw [hstep, if_pos hreturn, hrunes, hresult]
      · rw [if_neg hreturn] at hresult hstep
        refine .next (offset + rune.bytes.length) hstep trivial (length_sub_lt hrunes) ?_
        rw [hrunes, hresult, runes_next hrunes, Nat.add_assoc]

theorem rawBodyFault?_eq (literal : LiteralKind) (content : Nat) (body : Bytes) :
    rawBodyFault? literal content body = pure (RawString.bodyFault? literal content (runes body)) :=
  loop_through_eq_pure (fun offset _ => rawBodyFault?_nearer literal content body offset) trivial

/-- A closing delimiter is not found behind the end of a text. -/
theorem lt_length_of_indexOf? {text : Bytes} {content length hashes : Nat}
    (h : Bytes.indexOf? (RawString.closing hashes) (text.drop content) = some length) :
    content < text.length := by
  obtain ⟨hle, hhere, -⟩ := findSuffix?_eq_some_iff.mp h
  apply Nat.lt_of_not_le
  intro hbeyond
  rw [List.drop_eq_nil_of_le hbeyond, List.drop_nil] at hhere
  cases hhere

theorem rawFault?_eq {hashes : UInt32} (text : Bytes)
    (h : (if literal.isByte then 2 else 1) + hashes.toNat + 1 < UInt32.size) :
    rawFault? literal hashes text = pure (RawString.fault? literal hashes.toNat text) := by
  rw [rawFault?, contentOffset_eq h, pure_bind, toNat_ofNat_of_lt h, RawString.fault?]
  generalize (if literal.isByte then 2 else 1) + hashes.toNat + 1 = content
  simp only
  cases hindex : Bytes.indexOf? (RawString.closing hashes.toNat) (text.drop content) with
  | none => rfl
  | some length =>
      have hstart := Nat.le_of_lt (lt_length_of_indexOf? hindex)
      simp only [cut_of_le (Nat.le_add_right content length) hstart, pure_bind, Nat.add_sub_cancel_left,
        rawBodyFault?_eq]
      cases RawString.bodyFault? literal content (runes ((text.drop content).take length)) with
      | some fault => rfl
      | none =>
          simp only
          split <;> rfl

end RustLexer.Guarded
