import RustLexer.Checker.Quoted
import RustLexer.Proofs.Guarded.Escape

/-! # Quoted literals, guarded

A quoted literal is read at offsets from its text alone, whatever the text is: it may lack the byte mark and the
quotes that its kind calls for, and end within an escape. Each item takes at least one byte, so the body comes
to an end, and to the same one as in runes (`Guarded.quotedFault?_eq`).
-/

namespace RustLexer.Guarded

/-! ## Items -/

/-- Reads what an item at `start` takes behind its first rune, to the offset behind the item. -/
def item (literal : LiteralKind) (text : Bytes) (start : Nat) (rune : Rune) (offset : Nat) :
    Guarded (Except Cause Nat) := do
  if rune.char = '\\' then do
    let stop ← escape literal text start offset
    pure (stop.mapError .escape)
  else if literal.isByte && rune.isNonAscii then pure (.error (.nonAscii literal))
  else if rune.char == '\r' && !(← isAt text offset '\n') then pure (.error .bareReturnInString)
  else if literal.isSingle && (rune.char == '\n' || rune.char == '\r' || rune.char == '\t') then
    pure (.error .unescapedControl)
  else pure (.ok offset)

theorem map_mapError {ε ε' α β : Type} (result : Except ε α) (f : ε → ε') (g : α → β) :
    (result.map g).mapError f = (result.mapError f).map g := by
  cases result <;> rfl

theorem length_backslash {text : Bytes} {rune : Rune} (hmem : rune ∈ runes text) (hchar : rune.char = '\\') :
    rune.bytes.length = 1 := by
  have hascii : rune.char.toNat < 0x80 := by rw [hchar]; decide
  rw [(decoded_of_mem_runes rune hmem).bytes_of_ascii hascii]
  rfl

variable {text : Bytes} {rune : Rune} {rest : List Rune}

theorem item_eq (literal : LiteralKind) {start : Nat} (h : runes (text.drop start) = rune :: rest) :
    item literal text start rune (start + rune.bytes.length) =
      pure ((Quoted.itemTail literal rune rest).map (behind text (start + rune.bytes.length))) := by
  rw [item, Quoted.itemTail]
  by_cases hbackslash : rune.char = '\\'
  · -- A backslash is one byte, and what it escapes is cut from the text one byte behind its start.
    have hlength := length_backslash (h ▸ List.mem_cons_self) hbackslash
    have hescape := escape_eq literal (lt_length_of_runes h)
    rw [← hlength, runes_next h] at hescape
    rw [if_pos hbackslash, if_pos hbackslash, hescape, pure_bind, map_mapError]
  rw [if_neg hbackslash, if_neg hbackslash, isAt_eq, runes_next h, atBareReturn_cons]
  simp only [pure_bind]
  split
  next => rfl
  next =>
    split
    next => rfl
    next =>
      split
      next => rfl
      next => rw [Except.map, behind_zero]

/-! ## Bodies -/

/-- How far the body of a literal has been read: up to an offset, over so many items. -/
structure BodyState where
  offset : Nat
  items : Nat := 0

/-- The fault of a literal that is closed behind so many items, if it has no faulty item. -/
def closedFault? (literal : LiteralKind) (text : Bytes) (items offset : Nat) : Guarded (Option Fault) := do
  if literal.isSingle && items == 0 then
    if ← isAt text offset '\'' then pure (some { cause := .unescapedQuote, offset })
    else pure (some { cause := .emptyCharacter })
  else if literal.isSingle && 1 < items then pure (some { cause := .severalCharacters })
  else if offset < text.length then pure (some { cause := .stringSuffix, offset })
  else pure none

/-- The fault in a literal, from behind its opening quote on. -/
def bodyFault? (literal : LiteralKind) (text : Bytes) (quote : Char) (offset : Nat) :
    Guarded (Option Fault) :=
  loop step (text.length + 1) { offset }
where
  /-- Reads the closing quote or an item. -/
  step (state : BodyState) : Guarded (BodyState ⊕ Option Fault) := do
    match ← read text state.offset with
    | (none, _) => pure (.inr none)
    | (some rune, behind) =>
        if rune.char = quote then do
          let fault ← closedFault? literal text state.items behind
          pure (.inr fault)
        else
          match ← item literal text state.offset rune behind with
          | .error cause => pure (.inr (some { cause, offset := state.offset }))
          | .ok stop => pure (.inl { offset := stop, items := state.items + 1 })

/-- Moves over the mark of a byte literal, whatever stands in its place. -/
def passMark (literal : LiteralKind) (text : Bytes) : Guarded Nat :=
  if literal.isByte then do
    let (_, behind) ← read text 0
    pure behind
  else pure 0

/-- The fault in a quoted literal. The rune behind the mark, whatever it is, is the quote. -/
def quotedFault? (literal : LiteralKind) (text : Bytes) : Guarded (Option Fault) := do
  let marked ← passMark literal text
  match ← read text marked with
  | (none, _) => pure none
  | (some quote, behind) => bodyFault? literal text quote.char behind

theorem closedFault?_eq (literal : LiteralKind) (text : Bytes) (items offset : Nat) :
    closedFault? literal text items offset =
      pure (Quoted.closedFault? literal items offset (runes (text.drop offset))) := by
  have hend : (runes (text.drop offset)).isEmpty = true ↔ ¬ offset < text.length := by
    rw [List.isEmpty_iff, runes_drop_eq_nil_iff, Nat.not_lt]
  rw [closedFault?, Quoted.closedFault?, isAt_eq]
  simp only [pure_bind, hend, ite_not]
  split
  next => split <;> rfl
  next =>
    split
    next => rfl
    next => split <;> rfl

/-- What a body that has been read so far comes to in runes. -/
def BodyState.result (literal : LiteralKind) (text : Bytes) (quote : Char) (state : BodyState) :
    Option Fault :=
  match Quoted.readBody literal quote state.items state.offset (runes (text.drop state.offset)) with
  | .unclosed => none
  | .faulty fault => some fault
  | .closed items offset rest => Quoted.closedFault? literal items offset rest

theorem bodyFault?_nearer (literal : LiteralKind) (quote : Char) (state : BodyState) :
    Nearer (bodyFault?.step literal text quote) (fun _ => True) (fun state => text.length - state.offset)
      (BodyState.result literal text quote) state := by
  cases hrunes : runes (text.drop state.offset) with
  | nil =>
      refine .done ?_
      rw [bodyFault?.step, read_of_nil hrunes, pure_bind, BodyState.result, hrunes, Quoted.readBody]
  | cons rune rest =>
      have hnext := runes_next hrunes
      by_cases hquote : rune.char = quote
      · refine .done ?_
        rw [bodyFault?.step, read_of_cons hrunes, pure_bind, BodyState.result, hrunes, Quoted.readBody,
          if_pos hquote]
        simp only
        rw [if_pos hquote, closedFault?_eq, pure_bind, hnext]
      have hitem := item_eq literal hrunes
      cases htail : Quoted.itemTail literal rune rest with
      | error cause =>
          rw [htail] at hitem
          refine .done ?_
          rw [bodyFault?.step, read_of_cons hrunes, pure_bind, BodyState.result, hrunes, Quoted.readBody,
            if_neg hquote, htail]
          simp only
          rw [if_neg hquote, hitem]
          rfl
      | ok tail =>
          rw [htail] at hitem
          refine .next
            { offset := behind text (state.offset + rune.bytes.length) tail, items := state.items + 1 }
            ?_ trivial (length_sub_behind_lt hrunes tail) ?_
          · rw [bodyFault?.step, read_of_cons hrunes, pure_bind]
            simp only
            rw [if_neg hquote, hitem]
            rfl
          · rw [BodyState.result, BodyState.result, hrunes, Quoted.readBody, if_neg hquote, htail, runes_behind,
              behind, hnext]

theorem bodyFault?_eq (literal : LiteralKind) (text : Bytes) (quote : Char) (offset : Nat) :
    bodyFault? literal text quote offset = pure (BodyState.result literal text quote { offset }) :=
  loop_through_eq_pure (fun state _ => bodyFault?_nearer literal quote state) trivial

theorem passMark_eq (literal : LiteralKind) (text : Bytes) :
    passMark literal text = pure (behind text 0 (if literal.isByte then 1 else 0)) := by
  unfold passMark
  split
  next => rw [read_eq, pure_bind]
  next => rw [behind_zero]

theorem quotedFault?_eq (literal : LiteralKind) (text : Bytes) :
    quotedFault? literal text = pure (Quoted.fault? literal (runes text)) := by
  rw [quotedFault?, passMark_eq, pure_bind, Quoted.fault?]
  generalize (if literal.isByte then 1 else 0) = marked
  have hrest := runes_behind text 0 marked
  rw [List.drop_zero] at hrest
  cases hquote : (runes text).drop marked with
  | nil =>
      rw [hquote] at hrest
      rw [read_of_nil hrest, pure_bind]
  | cons quote body =>
      rw [hquote] at hrest
      have hwidth : behind text 0 marked + quote.bytes.length =
          Rune.width ((runes text).take (marked + 1)) := by
        rw [← behind_one hrest, ← behind_add, behind, List.drop_zero, Nat.zero_add]
      have hbody := runes_next hrest
      rw [hwidth] at hbody
      have hresult := bodyFault?_eq literal text quote.char (Rune.width ((runes text).take (marked + 1)))
      simp only [BodyState.result, hbody] at hresult
      rw [read_of_cons hrest, pure_bind, hwidth]
      exact hresult

end RustLexer.Guarded
