import RustLexer.Proofs.Guarded
import RustLexer.Proofs.Lexer.Reach

/-! # Reading runes at offsets

What a guarded check knows of where it is in a text is an offset, and it decodes the rune that stands there. At
whatever offset it starts, inside a rune of the text too, it reads the runes of the text from there on, one
after another, and comes behind them (`Guarded.behind`).
-/

namespace RustLexer.Guarded

/-- The rune at an offset of a text, decoded from there; none at its end. -/
def runeAt (text : Bytes) (offset : Nat) : Guarded (Option Rune) :=
  if offset < text.length then do
    let lead ← byteAt text offset
    let rest ← cutFrom text (offset + 1)
    pure (some (Rune.first lead rest))
  else pure none

/-- Reads the rune at an offset and moves behind it. At the end there is nothing to read, and the offset
stays. -/
def read (text : Bytes) (offset : Nat) : Guarded (Option Rune × Nat) := do
  match ← runeAt text offset with
  | some rune => pure (some rune, offset + rune.bytes.length)
  | none => pure (none, offset)

/-- The rune that stands a number of runes behind the one at an offset. -/
def runeAhead (text : Bytes) (offset : Nat) : Nat → Guarded (Option Rune)
  | 0 => runeAt text offset
  | ahead + 1 => do
      match ← runeAt text offset with
      | some rune => runeAhead text (offset + rune.bytes.length) ahead
      | none => pure none

/-- Whether a character stands at an offset. -/
def isAt (text : Bytes) (offset : Nat) (char : Char) : Guarded Bool := do
  let rune ← runeAt text offset
  pure (rune.any fun rune => rune.char == char)

/-- Moves over the longest run of a class at an offset. -/
def passRun (inClass : Rune → Bool) (text : Bytes) (offset : Nat) : Guarded Nat :=
  loop step (text.length + 1) offset
where
  /-- Moves over one rune of the class. -/
  step (offset : Nat) : Guarded (Nat ⊕ Nat) := do
    match ← runeAt text offset with
    | some rune =>
        if inClass rune then pure (.inl (offset + rune.bytes.length)) else pure (.inr offset)
    | none => pure (.inr offset)

/-- The offset behind the first runes that are read from an offset on. -/
def behind (text : Bytes) (offset count : Nat) : Nat :=
  offset + Rune.width ((runes (text.drop offset)).take count)

variable {text : Bytes} {offset : Nat} {rune : Rune} {rest : List Rune}

/-! ## The runes to come -/

theorem lt_length_of_runes (h : runes (text.drop offset) = rune :: rest) : offset < text.length := by
  apply Nat.lt_of_not_le
  intro hle
  rw [List.drop_eq_nil_of_le hle, runes_nil] at h
  cases h

theorem runes_drop_eq_nil_iff : runes (text.drop offset) = [] ↔ text.length ≤ offset := by
  rw [← List.drop_eq_nil_iff]
  constructor
  · intro h
    rw [← encode_runes (text.drop offset), h, Rune.encode_nil]
  · intro h
    rw [h, runes_nil]

/-- Behind the rune at an offset come the others. -/
theorem runes_next (h : runes (text.drop offset) = rune :: rest) :
    runes (text.drop (offset + rune.bytes.length)) = rest := by
  have hfront : runes (text.drop offset) = [rune] ++ rest := h
  have hrest := runes_drop_of_runes hfront
  rwa [Rune.encode_cons, Rune.encode_nil, List.append_nil, List.drop_drop] at hrest

@[simp] theorem behind_zero (text : Bytes) (offset : Nat) : behind text offset 0 = offset := by
  rw [behind, List.take_zero, Rune.width_nil, Nat.add_zero]

/-- Behind a rune there is less of the text, however many more runes are read. -/
theorem length_sub_behind_lt (h : runes (text.drop offset) = rune :: rest) (count : Nat) :
    text.length - behind text (offset + rune.bytes.length) count < text.length - offset := by
  have hlt := lt_length_of_runes h
  have hdecoded : rune.Decoded := decoded_of_mem_runes rune (h ▸ List.mem_cons_self)
  have hpos := hdecoded.length_bytes_pos
  rw [behind]
  omega

theorem length_sub_lt (h : runes (text.drop offset) = rune :: rest) :
    text.length - (offset + rune.bytes.length) < text.length - offset := by
  have hless := length_sub_behind_lt h 0
  rwa [behind_zero] at hless

theorem behind_succ (h : runes (text.drop offset) = rune :: rest) (count : Nat) :
    behind text offset (count + 1) = behind text (offset + rune.bytes.length) count := by
  rw [behind, behind, runes_next h, h, List.take_succ_cons, Rune.width_cons, Nat.add_assoc]

theorem behind_one_add (h : runes (text.drop offset) = rune :: rest) (count : Nat) :
    behind text offset (1 + count) = behind text (offset + rune.bytes.length) count := by
  rw [Nat.add_comm, behind_succ h]

theorem behind_one (h : runes (text.drop offset) = rune :: rest) :
    behind text offset 1 = offset + rune.bytes.length := by
  rw [behind_succ h, behind_zero]

theorem runes_behind (text : Bytes) (offset count : Nat) :
    runes (text.drop (behind text offset count)) = (runes (text.drop offset)).drop count := by
  have hsplit := (List.take_append_drop count (runes (text.drop offset))).symm
  rw [behind, Rune.width_eq_length_encode, ← List.drop_drop, runes_drop_of_runes hsplit]

theorem behind_add (text : Bytes) (offset first second : Nat) :
    behind text offset (first + second) = behind text (behind text offset first) second := by
  rw [behind, behind, runes_behind, behind, List.take_add, Rune.width_append, Nat.add_assoc]

theorem behind_le (h : offset ≤ text.length) (count : Nat) : behind text offset count ≤ text.length := by
  have hwidth := Rune.width_runes (text.drop offset)
  rw [← List.take_append_drop count (runes (text.drop offset)), Rune.width_append, List.length_drop] at hwidth
  rw [behind]
  omega

/-! ## Reading -/

theorem runeAt_eq (text : Bytes) (offset : Nat) :
    runeAt text offset = pure (runes (text.drop offset)).head? := by
  unfold runeAt
  split
  next hlt =>
    rw [byteAt_of_lt hlt, pure_bind, cutFrom_of_le hlt, pure_bind, List.drop_eq_getElem_cons hlt, runes_cons,
      List.head?_cons]
  next hge => rw [List.drop_eq_nil_of_le (Nat.not_lt.mp hge), runes_nil, List.head?_nil]

theorem runeAt_of_cons (h : runes (text.drop offset) = rune :: rest) :
    runeAt text offset = pure (some rune) := by
  rw [runeAt_eq, h, List.head?_cons]

theorem runeAt_of_nil (h : runes (text.drop offset) = []) : runeAt text offset = pure none := by
  rw [runeAt_eq, h, List.head?_nil]

theorem read_of_cons (h : runes (text.drop offset) = rune :: rest) :
    read text offset = pure (some rune, offset + rune.bytes.length) := by
  rw [read, runeAt_of_cons h, pure_bind]

theorem read_of_nil (h : runes (text.drop offset) = []) : read text offset = pure (none, offset) := by
  rw [read, runeAt_of_nil h, pure_bind]

theorem read_eq (text : Bytes) (offset : Nat) :
    read text offset = pure ((runes (text.drop offset)).head?, behind text offset 1) := by
  cases h : runes (text.drop offset) with
  | nil => rw [read_of_nil h, behind, h, List.take_nil, Rune.width_nil, Nat.add_zero, List.head?_nil]
  | cons rune rest => rw [read_of_cons h, behind_one h, List.head?_cons]

theorem runeAhead_eq (text : Bytes) (offset ahead : Nat) :
    runeAhead text offset ahead = pure (runes (text.drop offset))[ahead]? := by
  induction ahead generalizing offset with
  | zero => rw [runeAhead, runeAt_eq, List.head?_eq_getElem?]
  | succ ahead ih =>
      rw [runeAhead]
      cases h : runes (text.drop offset) with
      | nil =>
          rw [runeAt_of_nil h, pure_bind]
          rfl
      | cons rune rest =>
          rw [runeAt_of_cons h, pure_bind]
          simp only
          rw [ih, runes_next h, List.getElem?_cons_succ]

theorem isAt_eq (text : Bytes) (offset : Nat) (char : Char) :
    isAt text offset char = pure (startsWith (runes (text.drop offset)) [char]) := by
  rw [isAt, runeAt_eq, pure_bind]
  cases runes (text.drop offset) with
  | nil => rfl
  | cons rune rest => simp [startsWith]

/-- A carriage return is bare if it is not followed by a line feed. -/
theorem atBareReturn_cons (rune : Rune) (rest : List Rune) :
    atBareReturn (rune :: rest) = (rune.char == '\r' && !startsWith rest ['\n']) := by
  cases hchar : rune.char == '\r' <;> simp [atBareReturn, startsWith, hchar]

theorem passRun_nearer (inClass : Rune → Bool) (text : Bytes) (offset : Nat) :
    Nearer (passRun.step inClass text) (fun _ => True) (fun offset => text.length - offset)
      (fun offset => behind text offset (runLength inClass (runes (text.drop offset)))) offset := by
  cases h : runes (text.drop offset) with
  | nil =>
      refine .done ?_
      simp only [passRun.step, runeAt_of_nil h, pure_bind, h]
      rfl
  | cons rune rest =>
      by_cases hclass : inClass rune = true
      · refine .next (offset + rune.bytes.length) ?_ trivial (length_sub_lt h) ?_
        · rw [passRun.step, runeAt_of_cons h, pure_bind]
          exact if_pos hclass
        · rw [h, runLength, runLength, List.takeWhile_cons_of_pos hclass, List.length_cons, behind_succ h,
            runes_next h]
      · refine .done ?_
        rw [passRun.step, runeAt_of_cons h, pure_bind, h, runLength, List.takeWhile_cons_of_neg hclass,
          List.length_nil, behind_zero]
        exact if_neg hclass

theorem passRun_eq (inClass : Rune → Bool) (text : Bytes) (offset : Nat) :
    passRun inClass text offset =
      pure (behind text offset (runLength inClass (runes (text.drop offset)))) :=
  loop_through_eq_pure (fun offset _ => passRun_nearer inClass text offset) trivial

end RustLexer.Guarded
