import RustLexer.Motion
import RustLexer.Proofs.Grammar.Closing

/-! # Quoted literals end at the first quote that is not escaped

The scanners pass over what a backslash escapes, at least where it could be taken for something else. So
both stop at the first quote that the backslashes before it do not escape. Only `'''` goes past that quote,
to the next.
-/

namespace RustLexer

open Grammar

namespace Quoted

variable {quote : Char} {text : List Rune}

/-- A quote that the scanner finds has a body before it. -/
theorem exists_enclosed_of_closingLength?_go {passed total : Nat}
    (h : closingLength?.go quote passed text = some total) :
    ∃ content close behind, text = content ++ close :: behind ∧ close.char = quote ∧
      Enclosed quote (content.map Rune.char) ∧ total = passed + content.length + 1 := by
  fun_induction closingLength?.go quote passed text with
  | case1 => cases h
  | case2 passed rune hquote =>
      cases h
      exact ⟨[], rune, [], rfl, hquote, .nil, rfl⟩
  | case3 => cases h
  | case4 passed rune second rest hquote =>
      cases h
      exact ⟨[], rune, second :: rest, rfl, hquote, .nil, rfl⟩
  | case5 passed rune second rest _ hescape ih =>
      obtain ⟨content, close, behind, rfl, hclose, hcontent, rfl⟩ := ih h
      refine ⟨rune :: second :: content, close, behind, rfl, hclose, ?_, ?_⟩
      · rw [List.map_cons, hescape]
        exact .escaped hcontent
      · simp only [List.length_cons]
        omega
  | case6 passed rune second rest hquote hescape ih =>
      obtain ⟨content, close, behind, hrest, hclose, hcontent, rfl⟩ := ih h
      refine ⟨rune :: content, close, behind, ?_, hclose, .char hquote hescape hcontent, ?_⟩
      · rw [hrest, List.cons_append]
      · rw [List.length_cons]
        omega

/-- Where the scanner finds no quote there is a body without one, and perhaps a backslash behind it. -/
theorem enclosed_of_closingLength?_go_eq_none {passed : Nat}
    (h : closingLength?.go quote passed text = none) :
    Enclosed quote (text.map Rune.char) ∨
      ∃ content, text.map Rune.char = content ++ ['\\'] ∧ Enclosed quote content := by
  fun_induction closingLength?.go quote passed text with
  | case1 => exact Or.inl .nil
  | case2 => cases h
  | case3 passed rune hquote =>
      by_cases hescape : rune.char = '\\'
      · exact Or.inr ⟨[], by rw [List.map_singleton, hescape]; rfl, .nil⟩
      · exact Or.inl (.char hquote hescape .nil)
  | case4 => cases h
  | case5 passed rune second rest _ hescape ih =>
      rw [List.map_cons, List.map_cons, hescape]
      rcases ih h with hrest | ⟨content, hrest, hcontent⟩
      · exact Or.inl (.escaped hrest)
      · exact Or.inr ⟨'\\' :: second.char :: content, by rw [hrest]; rfl, .escaped hcontent⟩
  | case6 passed rune second rest hquote hescape ih =>
      rcases ih h with hrest | ⟨content, hrest, hcontent⟩
      · exact Or.inl (.char hquote hescape hrest)
      · refine Or.inr ⟨rune.char :: content, ?_, .char hquote hescape hcontent⟩
        rw [List.map_cons, hrest, List.cons_append]

/-- The extent of a literal is the quote, its body and the closing quote, or all of the text. -/
theorem extent_cases (hquote : quote ≠ '\\') (text : List Rune) :
    (∃ content close behind, text.drop 1 = content ++ close :: behind ∧ close.char = quote ∧
      Enclosed quote (content.map Rune.char) ∧
      extent quote text = { length := content.length + 2 }) ∨
    Ends quote ((text.drop 1).map Rune.char) false [] ∧
      extent quote text = { length := text.length, terminated := false } := by
  unfold extent
  split
  next length hclosing =>
    obtain ⟨content, close, behind, hbody, hclose, hcontent, rfl⟩ :=
      exists_enclosed_of_closingLength?_go hclosing
    refine Or.inl ⟨content, close, behind, hbody, hclose, hcontent, ?_⟩
    congr 1
    omega
  next hclosing =>
    refine Or.inr ⟨?_, rfl⟩
    rcases enclosed_of_closingLength?_go_eq_none hclosing with hbody | ⟨content, hbody, hcontent⟩
    · exact hbody.ends_open hquote
    · rw [hbody]
      exact hcontent.ends_open_backslash hquote

/-- The scanner ends where a quote is not escaped, and then it has passed a body, or at the end of the text. -/
theorem ends_extent (hquote : quote ≠ '\\') (text : List Rune) :
    let body := (text.drop 1).map Rune.char
    let behind := (text.drop (extent quote text).length).map Rune.char
    Ends quote body (extent quote text).terminated behind ∧
      ((extent quote text).terminated = true →
        ∃ content, Enclosed quote content ∧ body = content ++ quote :: behind) := by
  intro body behind
  rcases extent_cases hquote text with
    ⟨content, close, more, hbody, hclose, hcontent, hextent⟩ | ⟨hopen, hextent⟩
  · have hmore : text.drop (content.length + 2) = more := by
      rw [Nat.add_comm, Nat.add_assoc 1 1 content.length, ← List.drop_drop, hbody, Nat.add_comm,
        ← List.drop_drop, List.drop_left]
      rfl
    have hchars : body = content.map Rune.char ++ quote :: behind := by
      simp only [body, behind, hbody, hextent, hmore, List.map_append, List.map_cons, hclose]
    rw [hextent, hchars]
    exact ⟨hcontent.ends hquote behind, fun _ => ⟨_, hcontent, rfl⟩⟩
  · have hbehind : behind = [] := by
      simp only [behind, hextent, List.drop_length, List.map_nil]
    rw [hextent, hbehind]
    exact ⟨hopen, fun hclosed => nomatch hclosed⟩

theorem singleExtent_of_quotes (h : ((text.drop 1).map Rune.char).take 2 = ['\'', '\'']) :
    singleExtent text = { length := 3 } := by
  rcases text with _ | ⟨opening, _ | ⟨first, _ | ⟨second, rest⟩⟩⟩
  · cases h
  · cases h
  · simp at h
  · obtain ⟨hfirst, hrest⟩ := List.cons.inj h
    obtain ⟨hsecond, -⟩ := List.cons.inj hrest
    simp [singleExtent, charAt?, hfirst, hsecond]

/-- A rune other than the quote is closed by the first quote that is not escaped also if it stands alone. -/
theorem ends_singleExtent (h : ((text.drop 1).map Rune.char).take 2 ≠ ['\'', '\'']) :
    Ends '\'' ((text.drop 1).map Rune.char) (singleExtent text).terminated
      ((text.drop (singleExtent text).length).map Rune.char) := by
  unfold singleExtent
  split
  next hthree =>
    obtain ⟨hclose, hescape⟩ := Bool.and_eq_true_iff.mp hthree
    rcases text with _ | ⟨opening, _ | ⟨rune, _ | ⟨close, rest⟩⟩⟩
    · cases hclose
    · cases hclose
    · cases hclose
    · have hchar : close.char = '\'' := Option.some.inj (eq_of_beq hclose)
      have hplain : rune.char ≠ '\\' := by
        intro hbackslash
        simp [charAt?, hbackslash] at hescape
      have hother : rune.char ≠ '\'' := by
        intro hquote
        simp [hquote, hchar] at h
      have hcontent : Enclosed '\'' [rune.char] := .char hother hplain .nil
      have hends := hcontent.ends (by decide) (rest.map Rune.char)
      rw [← hchar] at hends ⊢
      exact hends
  next => exact (ends_extent (by decide) text).1

end Quoted

/-- A cursor on a quote moves behind the first quote that has an even number of backslashes right before it,
or to the end of the source if there is none. For a double-quoted literal this is to pass over whatever a
backslash escapes; a single-quoted one is over at once if two more quotes follow the first. -/
theorem Cursor.move_quoted [XidClasses] (cursor : Cursor) :
    let body := (cursor.rest.drop 1).map Rune.char
    let double := (Quoted.doubleExtent cursor.rest).terminated
    let behindDouble := (cursor.move .doubleQuoted).rest.map Rune.char
    let single := (Quoted.singleExtent cursor.rest).terminated
    let behindSingle := (cursor.move .singleQuoted).rest.map Rune.char
    Ends '"' body double behindDouble ∧
      (double = true ↔ ∃ content, Enclosed '"' content ∧ body = content ++ '"' :: behindDouble) ∧
      (body.take 2 = ['\'', '\''] → single = true ∧ behindSingle = body.drop 2) ∧
      (body.take 2 ≠ ['\'', '\''] → Ends '\'' body single behindSingle) := by
  intro body double behindDouble single behindSingle
  have hquote : '"' ≠ '\\' := by decide
  obtain ⟨hends, henclosed⟩ := Quoted.ends_extent hquote cursor.rest
  rw [← Quoted.doubleExtent_eq] at hends henclosed
  refine ⟨hends, ⟨henclosed, ?_⟩, ?_, Quoted.ends_singleExtent⟩
  · rintro ⟨content, hcontent, hbody⟩
    exact hends.terminated_of_enclosed hcontent hbody
  · intro hquotes
    have hextent := Quoted.singleExtent_of_quotes hquotes
    refine ⟨congrArg Extent.terminated hextent, ?_⟩
    simp only [behindSingle, body, Cursor.move, Motion.length, Cursor.advance, hextent,
      ← List.map_drop, List.drop_drop]

end RustLexer
