import RustLexer.Motion
import RustLexer.Proofs.Text.Walk

/-! # Runs of a cursor

Whatever is asked of a cursor, in whatever order, it stands at a true position of its source with exactly
the runes ahead that decoding the source from there gives (`Cursor.Reads`). One call keeps that
(`Cursor.Reads.call`), so every run of calls does (`Cursor.Reads.run`).
-/

namespace RustLexer

namespace Position

@[simp] theorem offset_next (position : Position) (rune : Rune) :
    (position.next rune).offset = position.offset + rune.bytes.length := rfl

theorem offset_after (position : Position) (text : List Rune) :
    (position.after text).offset = position.offset + (Rune.encode text).length := by
  induction text generalizing position with
  | nil => simp
  | cons rune text ih => simp [ih, Nat.add_assoc]

end Position

namespace Cursor

/-- A call on a cursor: a look ahead, which leaves it where it is, or a motion. -/
inductive Call
  | peek (ahead : Nat)
  | move (motion : Motion)

/-- The cursor after a call. -/
def call [XidClasses] (cursor : Cursor) : Call → Cursor
  | .peek _ => cursor
  | .move motion => cursor.move motion

/-- The cursor after a run of calls. -/
def run [XidClasses] (cursor : Cursor) (calls : List Call) : Cursor :=
  calls.foldl call cursor

/-- A cursor on a source stands at a true position of it, and the runes ahead are what decoding the
source from there gives. -/
structure Reads (source : Bytes) (cursor : Cursor) : Prop where
  trueIn : cursor.position.TrueIn source
  rest_eq : cursor.rest = runes (source.drop cursor.position.offset)

namespace Reads

variable {source : Bytes} {cursor : Cursor}

theorem ofSource (source : Bytes) : Reads source (Cursor.ofSource source) where
  trueIn := .initial source
  rest_eq := rfl

theorem advance (h : Reads source cursor) (count : Nat) : Reads source (cursor.advance count) := by
  have hsplit : runes (source.drop cursor.position.offset) =
      cursor.rest.take count ++ cursor.rest.drop count := by
    rw [List.take_append_drop, h.rest_eq]
  refine ⟨h.trueIn.after hsplit, ?_⟩
  simp only [Cursor.advance, Position.offset_after]
  rw [← List.drop_drop, runes_drop_of_runes hsplit]

theorem call [XidClasses] (h : Reads source cursor) (call : Call) : Reads source (cursor.call call) := by
  cases call with
  | peek ahead => exact h
  | move motion => exact h.advance _

theorem run [XidClasses] (h : Reads source cursor) (calls : List Call) : Reads source (cursor.run calls) := by
  induction calls generalizing cursor with
  | nil => exact h
  | cons call calls ih => exact ih (h.call call)

end Reads

theorem offset_le_advance (cursor : Cursor) (count : Nat) :
    cursor.position.offset ≤ (cursor.advance count).position.offset := by
  simp only [advance, Position.offset_after]
  exact Nat.le_add_right _ _

theorem offset_le_call [XidClasses] (cursor : Cursor) (call : Call) :
    cursor.position.offset ≤ (cursor.call call).position.offset := by
  cases call with
  | peek ahead => exact Nat.le_refl _
  | move motion => exact cursor.offset_le_advance _

/-- After any run of calls a cursor is at a true position of its source, and no further call moves it
back. -/
theorem position_run [XidClasses] (source : Bytes) (calls : List Call) :
    ((ofSource source).run calls).position.TrueIn source ∧
      ∀ call, ((ofSource source).run calls).position.offset ≤
        ((ofSource source).run (calls ++ [call])).position.offset := by
  refine ⟨((Reads.ofSource source).run calls).trueIn, ?_⟩
  intro call
  rw [run, run, List.foldl_append]
  exact offset_le_call _ call

end Cursor

end RustLexer
