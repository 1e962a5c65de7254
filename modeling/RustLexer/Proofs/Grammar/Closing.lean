import Mathlib.Algebra.Group.Nat.Even

/-! # Closing quotes

A quote closes a literal if an even number of backslashes stands right before it, since then they escape one
another. That is the same as reading from the opening quote and passing over what each backslash escapes
(`Enclosed.even`, `Enclosed.not_even`).
-/

namespace RustLexer.Grammar

/-- The number of backslashes at the end of a text. -/
def backslashes (front : List Char) : Nat :=
  (front.reverse.takeWhile (· == '\\')).length

/-- How a search for the closing quote ends in what stands behind the opening quote: behind the first quote
that is not escaped, or with nothing left. -/
inductive Ends (quote : Char) (body : List Char) : Bool → List Char → Prop
  | closed {front behind : List Char} (hbody : body = front ++ quote :: behind)
      (heven : Even (backslashes front))
      (hfirst : ∀ other more, body = other ++ quote :: more → Even (backslashes other) →
        front.length ≤ other.length) : Ends quote body true behind
  | opened (hnone : ∀ front more, body = front ++ quote :: more → ¬Even (backslashes front)) :
      Ends quote body false []

/-- What stands between two quotes: characters that are neither quotes nor backslashes, and backslashes each
with whatever it escapes. -/
inductive Enclosed (quote : Char) : List Char → Prop
  | nil : Enclosed quote []
  | char {char : Char} {rest : List Char} (hquote : char ≠ quote) (hescape : char ≠ '\\')
      (hrest : Enclosed quote rest) : Enclosed quote (char :: rest)
  | escaped {char : Char} {rest : List Char} (hrest : Enclosed quote rest) :
      Enclosed quote ('\\' :: char :: rest)

@[simp] theorem backslashes_nil : backslashes [] = 0 := rfl

theorem backslashes_append_backslash (front : List Char) :
    backslashes (front ++ ['\\']) = backslashes front + 1 := by
  simp [backslashes]

theorem backslashes_append_plain {char : Char} (h : char ≠ '\\') (front : List Char) :
    backslashes (front ++ [char]) = 0 := by
  simp [backslashes, h]

theorem even_backslashes_append_plain {char : Char} (h : char ≠ '\\') (front : List Char) :
    Even (backslashes (front ++ [char])) := by
  rw [backslashes_append_plain h]
  exact Even.zero

/-- An escape leaves the parity of the backslashes as it was. -/
theorem even_backslashes_append_escaped {front : List Char} (h : Even (backslashes front))
    (char : Char) : Even (backslashes (front ++ ['\\', char])) := by
  rw [List.append_cons]
  by_cases hescape : char = '\\'
  · rw [hescape, backslashes_append_backslash, backslashes_append_backslash, Nat.even_add_one,
      Nat.even_add_one, not_not]
    exact h
  · exact even_backslashes_append_plain hescape _

namespace Enclosed

variable {quote : Char} {before content : List Char}

theorem even_append (h : Enclosed quote content) (hbefore : Even (backslashes before)) :
    Even (backslashes (before ++ content)) := by
  induction h generalizing before with
  | nil =>
      rw [List.append_nil]
      exact hbefore
  | @char char rest _ hescape _ ih =>
      rw [List.append_cons]
      exact ih (even_backslashes_append_plain hescape before)
  | @escaped char rest _ ih =>
      have hrest := ih (even_backslashes_append_escaped hbefore char)
      rwa [List.append_assoc] at hrest

theorem not_even_append (hquote : quote ≠ '\\') (h : Enclosed quote content)
    (hbefore : Even (backslashes before)) {front more : List Char}
    (hcontent : content = front ++ quote :: more) : ¬Even (backslashes (before ++ front)) := by
  induction h generalizing before front with
  | nil => simp at hcontent
  | @char char rest hother hescape _ ih =>
      cases front with
      | nil => exact absurd (List.cons.inj hcontent).1 hother
      | cons first front =>
          obtain ⟨rfl, hrest⟩ := List.cons.inj hcontent
          rw [List.append_cons]
          exact ih (even_backslashes_append_plain hescape before) hrest
  | @escaped char rest _ ih =>
      rcases front with _ | ⟨first, _ | ⟨second, front⟩⟩
      · exact absurd (List.cons.inj hcontent).1.symm hquote
      · -- The quote is what the backslash escapes.
        obtain ⟨rfl, -⟩ := List.cons.inj hcontent
        rw [backslashes_append_backslash, Nat.even_add_one, not_not]
        exact hbefore
      · obtain ⟨rfl, hmore⟩ := List.cons.inj hcontent
        obtain ⟨rfl, hrest⟩ := List.cons.inj hmore
        rw [List.append_cons, List.append_cons, ← List.append_cons before]
        exact ih (even_backslashes_append_escaped hbefore char) hrest

/-- A quote behind it is not escaped. -/
theorem even (h : Enclosed quote content) : Even (backslashes content) := by
  have hnone : Even (backslashes []) := Even.zero
  exact h.even_append hnone

/-- The quotes in it are escaped. -/
theorem not_even (hquote : quote ≠ '\\') (h : Enclosed quote content) {front more : List Char}
    (hcontent : content = front ++ quote :: more) : ¬Even (backslashes front) := by
  have hnone : Even (backslashes []) := Even.zero
  exact h.not_even_append hquote hnone hcontent

/-- The quote behind it is the first that is not escaped. -/
theorem ends (hquote : quote ≠ '\\') (h : Enclosed quote content) (behind : List Char) :
    Ends quote (content ++ quote :: behind) true behind := by
  refine .closed rfl h.even fun other more hbody heven => ?_
  rcases List.append_eq_append_iff.mp hbody with ⟨rest, rfl, -⟩ | ⟨rest, hcontent, hrest⟩
  · rw [List.length_append]
    exact Nat.le_add_right _ _
  · cases rest with
    | nil =>
        rw [hcontent, List.append_nil]
    | cons first rest =>
        obtain ⟨rfl, -⟩ := List.cons.inj hrest
        exact absurd heven (h.not_even hquote hcontent)

/-- No quote in it closes the literal. -/
theorem ends_open (hquote : quote ≠ '\\') (h : Enclosed quote content) :
    Ends quote content false [] :=
  .opened fun _ _ => h.not_even hquote

/-- Neither does one if a backslash follows that escapes nothing. -/
theorem ends_open_backslash (hquote : quote ≠ '\\') (h : Enclosed quote content) :
    Ends quote (content ++ ['\\']) false [] := by
  refine .opened fun front more hbody => ?_
  rcases List.append_eq_append_iff.mp hbody with ⟨rest, -, hrest⟩ | ⟨rest, hcontent, hrest⟩
  · rcases List.singleton_eq_append_iff.mp hrest with ⟨-, hquotes⟩ | ⟨-, hquotes⟩
    · exact absurd (List.cons.inj hquotes).1 hquote
    · cases hquotes
  · cases rest with
    | nil => exact absurd (List.cons.inj hrest).1 hquote
    | cons first rest =>
        obtain ⟨rfl, -⟩ := List.cons.inj hrest
        exact h.not_even hquote hcontent

end Enclosed

/-- A search that ends with nothing left has passed no body with a quote behind it. -/
theorem Ends.terminated_of_enclosed {quote : Char} {body behind content more : List Char}
    {terminated : Bool} (h : Ends quote body terminated behind) (hcontent : Enclosed quote content)
    (hbody : body = content ++ quote :: more) : terminated = true := by
  cases h with
  | closed => rfl
  | opened hnone => exact absurd hcontent.even (hnone content more hbody)

end RustLexer.Grammar
