import RustLexer.Proofs.Lexer.Reach

/-! # The grammar of words

A word is a character that may start an identifier and a run of those that may continue one. What the lexer
reads as a word is one, and it is the longest there (`word_of_length`, `word_of_wordLength`).
-/

namespace RustLexer

namespace Grammar

variable [XidClasses]

def isIdentStart (char : Char) : Bool := CodePoint.isIdentStart char.toNat

def isIdentContinue (char : Char) : Bool := CodePoint.isIdentContinue char.toNat

/-- An identifier-shaped text. -/
inductive Word : List Char → Prop
  | intro {first : Char} {run : List Char} (hfirst : isIdentStart first = true)
      (hrun : ∀ char ∈ run, isIdentContinue char = true) : Word (first :: run)

/-- The longest word at the front of a text; nothing if the text starts with none. -/
structure LongestWord (text word : List Char) : Prop where
  isPrefix : word <+: text
  nil_or_word : word = [] ∨ Word word
  longest : ∀ other, other <+: text → Word other → other.length ≤ word.length

theorem Word.ne_nil {word : List Char} (h : Word word) : word ≠ [] := by
  rintro rfl
  cases h

theorem Word.forall_mem {word : List Char} (h : Word word) :
    ∀ char ∈ word, isIdentContinue char = true := by
  obtain ⟨hfirst, hrun⟩ := h
  exact List.forall_mem_cons.mpr ⟨CodePoint.isIdentContinue_of_isIdentStart hfirst, hrun⟩

end Grammar

variable {front back : List Rune} {inClass : Rune → Bool}

theorem startsIn_eq_false_iff {text : List Rune} :
    startsIn inClass text = false ↔ ∀ rune ∈ text.head?, inClass rune = false := by
  cases text with
  | nil => simp [startsIn]
  | cons rune rest => simp [startsIn]

/-- What is as long as the run of a class at the front of a text is that run. -/
theorem run_of_length (h : front.length = runLength inClass (front ++ back)) :
    (∀ rune ∈ front, inClass rune = true) ∧ startsIn inClass back = false := by
  obtain ⟨run, more, hsplit, hrun, hmore⟩ := exists_run inClass (front ++ back)
  have hlength : front.length = run.length := by
    rw [h, hsplit, runLength, takeWhile_append_eq_left hrun hmore]
  obtain ⟨rfl, rfl⟩ := List.append_inj hsplit hlength
  exact ⟨hrun, hmore⟩

variable [XidClasses]

theorem word_of_length (hstart : startsIn Rune.isIdentStart (front ++ back) = true)
    (h : front.length = 1 + runLength Rune.isIdentContinue ((front ++ back).drop 1)) :
    Grammar.Word (front.map Rune.char) ∧ startsIn Rune.isIdentContinue back = false := by
  cases front with
  | nil =>
      rw [List.length_nil] at h
      omega
  | cons first run =>
      have hfirst : first.isIdentStart = true := by simpa [startsIn] using hstart
      have hlength : run.length = runLength Rune.isIdentContinue (run ++ back) := by
        rw [List.cons_append, List.drop_succ_cons, List.drop_zero, List.length_cons] at h
        omega
      obtain ⟨hrun, hback⟩ := run_of_length hlength
      exact ⟨.intro hfirst (List.forall_mem_map.mpr hrun), hback⟩

/-- A word may be missing; nothing behind it could have started or continued it. -/
theorem word_of_wordLength (h : front.length = wordLength (front ++ back)) :
    (front = [] ∧ startsIn Rune.isIdentStart back = false) ∨
      Grammar.Word (front.map Rune.char) ∧ startsIn Rune.isIdentContinue back = false := by
  unfold wordLength at h
  split at h
  next hstart => exact Or.inr (word_of_length hstart h)
  next hstart =>
    obtain rfl := List.length_eq_zero_iff.mp h
    exact Or.inl ⟨rfl, Bool.eq_false_iff.mpr hstart⟩

/-- A word is the longest at the front of a text if nothing behind it could have started or continued it. -/
theorem longestWord_of_boundary
    (h : (front = [] ∧ startsIn Rune.isIdentStart back = false) ∨
      Grammar.Word (front.map Rune.char) ∧ startsIn Rune.isIdentContinue back = false) :
    Grammar.LongestWord ((front ++ back).map Rune.char) (front.map Rune.char) := by
  rw [List.map_append]
  refine ⟨List.prefix_append _ _, h.imp (fun hnil => ?_) And.left, fun other hother hword => ?_⟩
  · rw [hnil.1, List.map_nil]
  by_contra hlong
  have hfront : front.map Rune.char <+: other :=
    List.prefix_of_prefix_length_le (List.prefix_append _ _) hother (Nat.le_of_not_le hlong)
  obtain ⟨others, rfl⟩ := hfront
  -- A longer word goes on with the first character behind.
  obtain ⟨char, others, rfl⟩ : ∃ char rest, others = char :: rest := by
    refine List.exists_cons_of_ne_nil ?_
    rintro rfl
    exact hlong (Nat.le_of_eq (by rw [List.append_nil]))
  obtain ⟨rest, hrest⟩ := (List.prefix_append_right_inj _).mp hother
  obtain ⟨rune, more, rfl, rfl, -⟩ := List.map_eq_cons_iff.mp hrest.symm
  rcases h with ⟨rfl, hback⟩ | ⟨-, hback⟩
  · obtain ⟨hfirst, -⟩ := hword
    exact Bool.eq_false_iff.mp hback hfirst
  · exact Bool.eq_false_iff.mp hback (hword.forall_mem rune.char (by simp))

/-- The word at the front of a text is taken whole. -/
theorem take_wordLength (text : List Rune) :
    (text.take (wordLength text) = [] ∧
        startsIn Rune.isIdentStart (text.drop (wordLength text)) = false) ∨
      Grammar.Word ((text.take (wordLength text)).map Rune.char) ∧
        startsIn Rune.isIdentContinue (text.drop (wordLength text)) = false := by
  apply word_of_wordLength
  rw [List.take_append_drop]
  exact List.length_take_of_le (wordLength_le text)

theorem startsIn_drop_wordLength (text : List Rune) :
    startsIn Rune.isIdentStart (text.drop (wordLength text)) = false := by
  rcases take_wordLength text with ⟨-, hstart⟩ | ⟨-, hcontinue⟩
  · exact hstart
  · rw [startsIn_eq_false_iff] at hcontinue ⊢
    intro rune hrune
    rw [Bool.eq_false_iff]
    intro hstart
    have hcontinues := CodePoint.isIdentContinue_of_isIdentStart hstart
    exact Bool.eq_false_iff.mp (hcontinue rune hrune) hcontinues

/-- A text is split behind the longest word at its front. -/
theorem exists_longestWord (text : List Rune) :
    ∃ run more, text = run ++ more ∧
      Grammar.LongestWord (text.map Rune.char) (run.map Rune.char) ∧
      ((run = [] ∧ startsIn Rune.isIdentStart more = false) ∨
        Grammar.Word (run.map Rune.char) ∧ startsIn Rune.isIdentContinue more = false) := by
  have hsplit := List.take_append_drop (wordLength text) text
  have hlongest := longestWord_of_boundary (take_wordLength text)
  rw [hsplit] at hlongest
  exact ⟨_, _, hsplit.symm, hlongest, take_wordLength text⟩

end RustLexer
