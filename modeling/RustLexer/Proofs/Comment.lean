import RustLexer.CodePoint.Unicode
import RustLexer.Motion
import RustLexer.Proofs.Grammar.Comment
import RustLexer.Proofs.Lexer.Reach

/-! # Block comments

The scanner finds the end of a block comment by counting delimiters. At every place it takes the step that
the grammar has for what starts there. So it comes to the end of a comment that stands at the front of a
text (`Comment.closingLength?_go_of_closes`), and wherever it comes to an end it has passed a comment
(`Comment.exists_of_closingLength?_go`).
-/

namespace RustLexer

open Grammar

variable {text : List Rune}

/-- The two runes that spell a delimiter. -/
theorem exists_of_pair_isPrefix {char other : Char} (h : [char, other] <+: text.map Rune.char) :
    ∃ first second rest, text = first :: second :: rest ∧ first.char = char ∧ second.char = other := by
  obtain ⟨first, more, rfl, hfirst, hmore⟩ := startsWith_cons_iff.mp (startsWith_iff_isPrefix.mpr h)
  obtain ⟨second, rest, rfl, hsecond, -⟩ := startsWith_cons_iff.mp hmore
  exact ⟨first, second, rest, rfl, hfirst, hsecond⟩

theorem map_drop_of_eq_append {front back : List Char} (h : text.map Rune.char = front ++ back) :
    (text.drop front.length).map Rune.char = back := by
  rw [List.map_drop, h, List.drop_left]

namespace Comment

variable {depth passed total : Nat}

/-! ## Steps of the scanner -/

theorem closingLength?_go_of_opening (h : ['/', '*'] <+: text.map Rune.char) :
    closingLength?.go depth passed text =
      closingLength?.go (depth + 1) (passed + 2) (text.drop 2) := by
  obtain ⟨first, second, rest, rfl, hfirst, hsecond⟩ := exists_of_pair_isPrefix h
  rw [closingLength?.go.eq_def]
  simp only [if_pos (And.intro hfirst hsecond)]
  rfl

/-- The innermost comment is closed, or the last one. -/
theorem closingLength?_go_of_closing (h : ['*', '/'] <+: text.map Rune.char) :
    closingLength?.go depth passed text =
      match depth with
      | 0 => some (passed + 2)
      | depth + 1 => closingLength?.go depth (passed + 2) (text.drop 2) := by
  obtain ⟨first, second, rest, rfl, hfirst, hsecond⟩ := exists_of_pair_isPrefix h
  have hopen : ¬ (first.char = '/' ∧ second.char = '*') := by simp [hfirst]
  rw [closingLength?.go.eq_def]
  simp only [if_neg hopen, if_pos (And.intro hfirst hsecond)]
  rfl

theorem closingLength?_go_of_char (hopen : ¬ ['/', '*'] <+: text.map Rune.char)
    (hclose : ¬ ['*', '/'] <+: text.map Rune.char) :
    closingLength?.go depth passed text = closingLength?.go depth (passed + 1) (text.drop 1) := by
  match text with
  | [] => rfl
  | [_] => rfl
  | first :: second :: rest =>
      have hopen : ¬ (first.char = '/' ∧ second.char = '*') := by
        simpa [List.cons_prefix_cons, eq_comm] using hopen
      have hclose : ¬ (first.char = '*' ∧ second.char = '/') := by
        simpa [List.cons_prefix_cons, eq_comm] using hclose
      rw [closingLength?.go.eq_def]
      simp only [if_neg hopen, if_neg hclose]
      rfl

/-! ## The scanner and the grammar -/

/-- Items are passed over, and behind them the scanner is as deep as before. -/
theorem closingLength?_go_of_items {items behind : List Char} (h : CommentItems items)
    (htext : text.map Rune.char = items ++ behind) (hbehind : ['*', '/'] <+: behind) :
    closingLength?.go depth passed text =
      closingLength?.go depth (passed + items.length) (text.drop items.length) := by
  induction h generalizing text behind depth passed with
  | nil => rfl
  | @comment inner rest _ _ ihInner ihRest =>
      have hopen : text.map Rune.char =
          ['/', '*'] ++ (inner ++ (['*', '/'] ++ (rest ++ behind))) := by
        simpa [delimited] using htext
      have hinner : (text.drop 2).map Rune.char = inner ++ (['*', '/'] ++ (rest ++ behind)) :=
        map_drop_of_eq_append hopen
      have hclose : ((text.drop 2).drop inner.length).map Rune.char =
          ['*', '/'] ++ (rest ++ behind) := map_drop_of_eq_append hinner
      have hrest : (((text.drop 2).drop inner.length).drop 2).map Rune.char = rest ++ behind :=
        map_drop_of_eq_append hclose
      have hlength : (delimited inner ++ rest).length = 2 + inner.length + 2 + rest.length := by
        simp [delimited]
        omega
      rw [closingLength?_go_of_opening (hopen ▸ List.prefix_append _ _),
        ihInner hinner (List.prefix_append _ _),
        closingLength?_go_of_closing (hclose ▸ List.prefix_append _ _)]
      simp only
      rw [ihRest hrest hbehind, hlength, List.drop_drop, List.drop_drop, List.drop_drop]
      simp only [Nat.add_assoc]
  | @char char rest hopen hclose _ ih =>
      -- What starts at the character is decided inside the comment.
      have hinside : char :: (rest ++ ['*', '/']) <+: text.map Rune.char := by
        rw [htext, List.cons_append, List.cons_prefix_cons]
        exact ⟨rfl, (List.prefix_append_right_inj rest).mpr hbehind⟩
      have htwo : 2 ≤ (char :: (rest ++ ['*', '/'])).length := by simp
      have hrest : (text.drop 1).map Rune.char = rest ++ behind := by
        rw [List.map_drop, htext]
        rfl
      rw [closingLength?_go_of_char
          (fun h => hopen (List.prefix_of_prefix_length_le h hinside htwo))
          (fun h => hclose (List.prefix_of_prefix_length_le h hinside htwo)),
        ih hrest hbehind, List.drop_drop, List.length_cons, Nat.add_assoc, Nat.add_comm 1]

theorem closingLength?_go_of_closes {chars : List Char} (h : Closing depth chars)
    (htext : chars <+: text.map Rune.char) :
    closingLength?.go depth passed text = some (passed + chars.length) := by
  obtain ⟨behind, htext⟩ := htext
  induction h generalizing text passed with
  | @last items hitems =>
      have hitemsText : text.map Rune.char = items ++ (['*', '/'] ++ behind) := by
        rw [← htext, List.append_assoc]
      have hclose := map_drop_of_eq_append hitemsText
      rw [closingLength?_go_of_items hitems hitemsText (List.prefix_append _ _),
        closingLength?_go_of_closing (hclose ▸ List.prefix_append _ _), List.length_append,
        ← Nat.add_assoc]
      rfl
  | @outer depth items chars hitems _ ih =>
      have hitemsText : text.map Rune.char = items ++ (['*', '/'] ++ (chars ++ behind)) := by
        rw [← htext, List.append_assoc, List.append_assoc]
      have hclose := map_drop_of_eq_append hitemsText
      have hchars := map_drop_of_eq_append hclose
      rw [closingLength?_go_of_items hitems hitemsText (List.prefix_append _ _),
        closingLength?_go_of_closing (hclose ▸ List.prefix_append _ _)]
      refine (ih hchars.symm).trans ?_
      simp only [List.length_append, Nat.add_assoc]
      rfl

theorem exists_of_closingLength?_go (h : closingLength?.go depth passed text = some total) :
    ∃ chars, Closing depth chars ∧ chars <+: text.map Rune.char ∧ total = passed + chars.length := by
  fun_induction closingLength?.go depth passed text with
  | case1 => cases h
  | case2 => cases h
  | case3 depth passed first second rest hopen ih =>
      obtain ⟨chars, hchars, htext, rfl⟩ := ih h
      refine ⟨['/', '*'] ++ chars, hchars.comment, ?_, ?_⟩
      · simpa [hopen, List.cons_prefix_cons] using htext
      · rw [List.length_append, ← Nat.add_assoc]
        rfl
  | case4 passed first second rest hopen hclose =>
      obtain rfl := Option.some.inj h
      refine ⟨['*', '/'], .last .nil, ?_, rfl⟩
      simp [hclose, List.cons_prefix_cons]
  | case5 passed first second rest hopen hclose depth ih =>
      obtain ⟨chars, hchars, htext, rfl⟩ := ih h
      refine ⟨['*', '/'] ++ chars, hchars.close, ?_, ?_⟩
      · simpa [hclose, List.cons_prefix_cons] using htext
      · rw [List.length_append, ← Nat.add_assoc]
        rfl
  | case6 depth passed first second rest hopen hclose ih =>
      obtain ⟨chars, hchars, htext, rfl⟩ := ih h
      have hfront : first.char :: chars <+: (first :: second :: rest).map Rune.char :=
        List.cons_prefix_cons.mpr ⟨rfl, htext⟩
      refine ⟨first.char :: chars, hchars.char ?_ ?_, hfront, ?_⟩
      · intro h
        simpa [List.cons_prefix_cons, eq_comm, hopen] using h.trans hfront
      · intro h
        simpa [List.cons_prefix_cons, eq_comm, hclose] using h.trans hfront
      · rw [List.length_cons, Nat.add_assoc, Nat.add_comm 1]

/-! ## Comments at the front of a text -/

/-- A comment at the front of a text is the part that the scanner takes. -/
theorem blockExtent_of_blockComment {comment : List Char} (h : BlockComment comment)
    (htext : comment <+: text.map Rune.char) : blockExtent text = { length := comment.length } := by
  obtain @⟨items, hitems⟩ := h
  obtain ⟨behind, htext⟩ := htext
  have hinside : (text.drop 2).map Rune.char = items ++ ['*', '/'] ++ behind := by
    rw [List.map_drop, ← htext, delimited]
    simp
  have hclosing : closingLength? (text.drop 2) = some (0 + (items ++ ['*', '/']).length) :=
    closingLength?_go_of_closes (.last hitems) (hinside ▸ List.prefix_append _ _)
  rw [blockExtent, hclosing]
  simp [delimited]
  omega

/-- A comment that is closed is one of the grammar. -/
theorem exists_blockComment (hopens : ['/', '*'] <+: text.map Rune.char)
    (h : (blockExtent text).terminated = true) :
    ∃ comment, comment <+: text.map Rune.char ∧ BlockComment comment := by
  obtain ⟨length, hclosing, -, -⟩ | hextent := blockExtent_cases text
  · obtain ⟨chars, hchars, htext, -⟩ := exists_of_closingLength?_go hclosing
    cases hchars with
    | @last items hitems =>
        obtain ⟨inside, hinside⟩ := hopens
        rw [List.map_drop, ← hinside, List.drop_left' (by rfl)] at htext
        refine ⟨delimited items, ?_, .intro hitems⟩
        rw [← hinside, delimited, List.append_assoc]
        exact (List.prefix_append_right_inj _).mpr htext
  · rw [hextent] at h
    cases h

theorem isBlockDoc_iff (hopens : ['/', '*'] <+: text.map Rune.char) :
    isBlockDoc text = true ↔
      ['/', '*', '!'] <+: text.map Rune.char ∨
        ['/', '*', '*'] <+: text.map Rune.char ∧
          (text.map Rune.char)[3]? ≠ some '*' ∧ (text.map Rune.char)[3]? ≠ some '/' := by
  obtain ⟨first, second, rest, rfl, hfirst, hsecond⟩ := exists_of_pair_isPrefix hopens
  cases rest with
  | nil => simp [isBlockDoc, charAt?, hfirst, hsecond, List.cons_prefix_cons]
  | cons third rest =>
      simp [isBlockDoc, charAt?, hfirst, hsecond, List.cons_prefix_cons, and_assoc,
        @eq_comm _ _ third.char]

end Comment

/-- A cursor at `/*` moves over the one block comment that stands there, or to the end of the source if none
does. It is documentation if a `!` follows, or a star that neither another star nor a slash follows. -/
theorem Cursor.move_blockComment [XidClasses] (cursor : Cursor)
    (hopens : startsWith cursor.rest ['/', '*'] = true) :
    let text := cursor.rest.map Rune.char
    let behind := (cursor.move .blockComment).rest.map Rune.char
    ((Comment.blockExtent cursor.rest).terminated = true ↔
      ∃ comment, comment <+: text ∧ BlockComment comment) ∧
    (∀ comment, comment <+: text → BlockComment comment → comment ++ behind = text) ∧
    ((Comment.blockExtent cursor.rest).terminated = false →
      (cursor.move .blockComment).atEnd = true) ∧
    (Comment.isBlockDoc cursor.rest = true ↔
      ['/', '*', '!'] <+: text ∨
        ['/', '*', '*'] <+: text ∧ text[3]? ≠ some '*' ∧ text[3]? ≠ some '/') := by
  intro text behind
  have hdelimiter : ['/', '*'] <+: text := startsWith_iff_isPrefix.mp hopens
  refine ⟨⟨Comment.exists_blockComment hdelimiter, ?_⟩, ?_, ?_, Comment.isBlockDoc_iff hdelimiter⟩
  · rintro ⟨comment, htext, hcomment⟩
    rw [Comment.blockExtent_of_blockComment hcomment htext]
  · intro comment htext hcomment
    have hextent := Comment.blockExtent_of_blockComment hcomment htext
    have hbehind : behind = text.drop comment.length := by
      simp only [behind, text, Cursor.move, Motion.length, Cursor.advance, hextent, List.map_drop]
    rw [hbehind]
    exact (List.prefix_iff_eq_append.mp htext)
  · intro hopen
    obtain ⟨length, -, -, hextent⟩ | hextent := Comment.blockExtent_cases cursor.rest
    · rw [hextent] at hopen
      cases hopen
    · simp [Cursor.move, Motion.length, Cursor.advance, Cursor.atEnd, hextent]

/-- The slash behind the inner opening delimiter does not close anything, and the last delimiter is left. -/
theorem Cursor.move_blockComment_overlap :
    let cursor := Cursor.ofSource (Bytes.ofAscii "/*/*/ */*/*/")
    startsWith cursor.rest ['/', '*'] = true ∧
      BlockComment ['/', '*', '/', '*', '/', ' ', '*', '/', '*', '/'] ∧
      (cursor.move .blockComment).rest.map Rune.char = ['*', '/'] ∧
      Comment.isBlockDoc cursor.rest = false := by
  intro cursor
  have hopens : startsWith cursor.rest ['/', '*'] = true := by decide +kernel
  have hclosed : (Comment.blockExtent cursor.rest).terminated = true := by decide +kernel
  have hbehind : (cursor.move .blockComment).rest.map Rune.char = ['*', '/'] := by decide +kernel
  obtain ⟨hterminated, hmoved, -, -⟩ := cursor.move_blockComment hopens
  obtain ⟨comment, htext, hcomment⟩ := hterminated.mp hclosed
  have hwhole := hmoved comment htext hcomment
  rw [hbehind] at hwhole
  have hsource : cursor.rest.map Rune.char =
      ['/', '*', '/', '*', '/', ' ', '*', '/', '*', '/'] ++ ['*', '/'] := by decide +kernel
  obtain rfl := List.append_cancel_right (hwhole.trans hsource)
  exact ⟨hopens, hcomment, hbehind, by decide +kernel⟩

end RustLexer
