import RustLexer.Text.Bytes

/-! # Lines of a text

A text is split at its line feeds, and counting them finds a line: the line behind as many line feeds is
that one of the split (`Bytes.IsLine.getElem?_lines`).
-/

namespace RustLexer.Bytes

variable {text before line behind : Bytes}

/-- A line of a text, with what stands before it and behind it. A line feed stands on either side, unless
the text starts or ends there. -/
structure IsLine (text before line behind : Bytes) : Prop where
  text_eq : text = before ++ (line ++ behind)
  opens : before = [] ∨ before.getLast? = some 0x0A
  newline_notMem : 0x0A ∉ line
  closes : behind = [] ∨ behind.head? = some 0x0A

/-- The line that a byte of a text is on. A line feed is on the line that it ends. -/
def IsLineAt (text : Bytes) (offset : Nat) (line : Bytes) : Prop :=
  ∃ before behind, IsLine text before line behind ∧ offset < text.length ∧
    before.length ≤ offset ∧ offset ≤ before.length + line.length

/-- A text goes on to the end of its first line. -/
theorem exists_lineEnd (text : Bytes) :
    ∃ line behind, text = line ++ behind ∧ 0x0A ∉ line ∧
      (behind = [] ∨ behind.head? = some 0x0A) := by
  induction text with
  | nil => exact ⟨[], [], rfl, List.not_mem_nil, Or.inl rfl⟩
  | cons byte text ih =>
      by_cases hbyte : byte = 0x0A
      · exact ⟨[], byte :: text, rfl, List.not_mem_nil, Or.inr (congrArg some hbyte)⟩
      · obtain ⟨line, behind, rfl, hline, hbehind⟩ := ih
        refine ⟨byte :: line, behind, rfl, ?_, hbehind⟩
        exact List.not_mem_cons_of_ne_of_not_mem (Ne.symm hbyte) hline

theorem ofAscii_newline : ofAscii "\n" = [0x0A] := rfl

theorem lines_newline (text : Bytes) : lines (0x0A :: text) = [] :: lines text := rfl

theorem lines_cons {byte : UInt8} {others : List Bytes} (hbyte : byte ≠ 0x0A)
    (hlines : lines text = line :: others) : lines (byte :: text) = (byte :: line) :: others := by
  rw [lines, List.foldr_cons, ← lines, hlines, if_neg hbyte]

/-- A line feed ends a line, and the others start behind it. -/
theorem lines_append_newline (hline : 0x0A ∉ line) (rest : Bytes) :
    lines (line ++ 0x0A :: rest) = line :: lines rest := by
  induction line with
  | nil => rfl
  | cons byte line ih =>
      rw [List.mem_cons, not_or] at hline
      exact lines_cons (Ne.symm hline.1) (ih hline.2)

/-- Rows that are ended by line feeds are the lines of their text, with an empty one behind the last. -/
theorem lines_flatMap {rows : List Bytes} (h : ∀ row ∈ rows, 0x0A ∉ row) :
    lines (rows.flatMap (· ++ [0x0A])) = rows ++ [[]] := by
  induction rows with
  | nil => rfl
  | cons row rows ih =>
      obtain ⟨hrow, hrows⟩ := List.forall_mem_cons.mp h
      rw [List.flatMap_cons, List.append_assoc, List.singleton_append, lines_append_newline hrow,
        ih hrows, List.cons_append]

/-- A text starts with a line that ends where nothing follows or a line feed does. -/
theorem exists_lines_eq (hline : 0x0A ∉ line) (hbehind : behind = [] ∨ behind.head? = some 0x0A) :
    ∃ others, lines (line ++ behind) = line :: others := by
  induction line with
  | nil =>
      rcases hbehind with rfl | hfeed
      · exact ⟨[], rfl⟩
      · obtain ⟨rest, rfl⟩ := List.head?_eq_some_iff.mp hfeed
        exact ⟨lines rest, rfl⟩
  | cons byte line ih =>
      rw [List.mem_cons, not_or] at hline
      obtain ⟨others, hlines⟩ := ih hline.2
      exact ⟨others, lines_cons (Ne.symm hline.1) hlines⟩

/-- Each line feed of a front that ends in one ends a line. -/
theorem exists_lines_append (hbefore : before = [] ∨ before.getLast? = some 0x0A) (rest : Bytes) :
    ∃ front, front.length = before.count 0x0A ∧ lines (before ++ rest) = front ++ lines rest := by
  induction before with
  | nil => exact ⟨[], rfl, rfl⟩
  | cons byte before ih =>
      have hlast : (byte :: before).getLast? = some 0x0A := by
        rcases hbefore with hnil | hlast
        · cases hnil
        · exact hlast
      rw [List.getLast?_cons, Option.some.injEq] at hlast
      have hrest : before = [] ∨ before.getLast? = some 0x0A := by
        cases hgetLast : before.getLast? with
        | none => exact Or.inl (List.getLast?_eq_none_iff.mp hgetLast)
        | some last =>
            rw [hgetLast, Option.getD_some] at hlast
            exact Or.inr (congrArg some hlast)
      obtain ⟨front, hlength, hlines⟩ := ih hrest
      by_cases hbyte : byte = 0x0A
      · subst hbyte
        refine ⟨[] :: front, ?_, ?_⟩
        · rw [List.length_cons, hlength, List.count_cons_self]
        · rw [List.cons_append, lines_newline, hlines, List.cons_append]
      · rw [List.count_cons_of_ne hbyte]
        cases front with
        | nil =>
            -- The front would not end in a line feed.
            have hnone : 0x0A ∉ before := List.count_eq_zero.mp hlength.symm
            rcases hrest with rfl | hfeed
            · exact absurd hlast hbyte
            · exact absurd (List.mem_of_getLast? hfeed) hnone
        | cons first front =>
            rw [List.cons_append] at hlines
            exact ⟨(byte :: first) :: front, hlength, lines_cons hbyte hlines⟩

/-- The line feeds before a line count the lines before it. -/
theorem IsLine.getElem?_lines (h : IsLine text before line behind) :
    (lines text)[before.count 0x0A]? = some line := by
  obtain ⟨front, hlength, hlines⟩ := exists_lines_append h.opens (line ++ behind)
  obtain ⟨others, hothers⟩ := exists_lines_eq h.newline_notMem h.closes
  rw [h.text_eq, hlines, hothers, ← hlength, List.getElem?_append_right (Nat.le_refl _),
    Nat.sub_self, List.getElem?_cons_zero]

/-- What is dropped from the end of a text is a run of a class, and what is left does not end in that class. -/
theorem exists_dropTrailing (inClass : UInt8 → Bool) (text : Bytes) :
    ∃ dropped, text = dropTrailing inClass text ++ dropped ∧
      (∀ byte ∈ dropped, inClass byte = true) ∧
      ∀ byte ∈ (dropTrailing inClass text).getLast?, inClass byte = false := by
  refine ⟨(text.reverse.takeWhile inClass).reverse, ?_, ?_, ?_⟩
  · rw [dropTrailing, ← List.reverse_append, List.takeWhile_append_dropWhile, List.reverse_reverse]
  · intro byte hbyte
    exact List.all_eq_true.mp List.all_takeWhile byte (List.mem_reverse.mp hbyte)
  · intro byte hbyte
    rw [dropTrailing, List.getLast?_reverse] at hbyte
    have hfirst := List.head?_dropWhile_not inClass text.reverse
    rw [Option.mem_def.mp hbyte] at hfirst
    simpa using hfirst

end RustLexer.Bytes
