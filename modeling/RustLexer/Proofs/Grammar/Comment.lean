/-! # The grammar of block comments

Which texts are block comments, as derivations over their characters. Comments nest, so between `/*` and
`*/` stands a sequence of items, and an item is a comment or a character at which no delimiter starts. Of
two delimiters that overlap the first one counts: `/*/` opens a comment with a slash in it, and `*/*` closes
one with a star behind it.
-/

namespace RustLexer.Grammar

/-- Items with the delimiters of a block comment around them. -/
def delimited (items : List Char) : List Char :=
  ['/', '*'] ++ items ++ ['*', '/']

/-- What stands in a block comment. The delimiter that closes the comment is behind the items, and with it
is decided what starts at the last of them. -/
inductive CommentItems : List Char → Prop
  | nil : CommentItems []
  | comment {inner rest : List Char} (hinner : CommentItems inner) (hrest : CommentItems rest) :
      CommentItems (delimited inner ++ rest)
  | char {char : Char} {rest : List Char}
      (hopen : ¬ ['/', '*'] <+: char :: (rest ++ ['*', '/']))
      (hclose : ¬ ['*', '/'] <+: char :: (rest ++ ['*', '/'])) (hrest : CommentItems rest) :
      CommentItems (char :: rest)

/-- A block comment. -/
inductive BlockComment : List Char → Prop
  | intro {items : List Char} (hitems : CommentItems items) : BlockComment (delimited items)

/-! ## From inside of comments -/

/-- What closes a comment and `depth` others around it: for each of them some items and `*/`. -/
inductive Closing : Nat → List Char → Prop
  | last {items : List Char} (hitems : CommentItems items) : Closing 0 (items ++ ['*', '/'])
  | outer {depth : Nat} {items chars : List Char} (hitems : CommentItems items)
      (hchars : Closing depth chars) : Closing (depth + 1) (items ++ ['*', '/'] ++ chars)

namespace Closing

variable {depth : Nat} {chars : List Char}

/-- First come the items of the innermost comment, and others could stand there. -/
theorem exists_items (h : Closing depth chars) :
    ∃ items behind, CommentItems items ∧ chars = items ++ ['*', '/'] ++ behind ∧
      ∀ others, CommentItems others → Closing depth (others ++ ['*', '/'] ++ behind) := by
  cases h with
  | last hitems =>
      refine ⟨_, [], hitems, (List.append_nil _).symm, fun others hothers => ?_⟩
      rw [List.append_nil]
      exact .last hothers
  | outer hitems hchars => exact ⟨_, _, hitems, rfl, fun others hothers => .outer hothers hchars⟩

theorem char (h : Closing depth chars) {char : Char} (hopen : ¬ ['/', '*'] <+: char :: chars)
    (hclose : ¬ ['*', '/'] <+: char :: chars) : Closing depth (char :: chars) := by
  obtain ⟨items, behind, hitems, rfl, hothers⟩ := h.exists_items
  have hfront : char :: (items ++ ['*', '/']) <+: char :: (items ++ ['*', '/'] ++ behind) :=
    List.prefix_append (char :: (items ++ ['*', '/'])) behind
  apply hothers (char :: items)
  exact .char (fun h => hopen (h.trans hfront)) (fun h => hclose (h.trans hfront)) hitems

/-- A comment that is opened and closed is an item of the one around it. -/
theorem comment (h : Closing (depth + 1) chars) : Closing depth (['/', '*'] ++ chars) := by
  cases h with
  | @outer _ inner chars hinner hchars =>
      obtain ⟨items, behind, hitems, rfl, hothers⟩ := hchars.exists_items
      have hcomment := hothers _ (.comment hinner hitems)
      simpa [delimited] using hcomment

theorem close (h : Closing depth chars) : Closing (depth + 1) (['*', '/'] ++ chars) :=
  .outer .nil h

end Closing

end RustLexer.Grammar
