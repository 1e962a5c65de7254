import RustLexer.Edition

/-! # Looking up keywords

In a table that is sorted, binary search comes to the place that parts the entries before a word from the
others (`Keywords.parts_lowerBound`), so it finds the words that stand in the table and no others
(`Keywords.contains_iff_mem`).
-/

namespace RustLexer.Keywords

variable {keywords : Keywords} {word : Bytes}

/-- No entry comes before an earlier one, in byte order. -/
def Sorted (keywords : Keywords) : Prop :=
  keywords.toList.Pairwise (· ≤ ·)

instance (keywords : Keywords) : Decidable keywords.Sorted :=
  inferInstanceAs (Decidable (List.Pairwise _ _))

theorem Sorted.le (h : keywords.Sorted) {i j : Nat} (hij : i ≤ j) {entry later : Bytes}
    (hentry : keywords[i]? = some entry) (hlater : keywords[j]? = some later) : entry ≤ later := by
  obtain ⟨hi, rfl⟩ := Array.getElem?_eq_some_iff.mp hentry
  obtain ⟨hj, rfl⟩ := Array.getElem?_eq_some_iff.mp hlater
  rcases Nat.eq_or_lt_of_le hij with rfl | hlt
  · exact Std.le_refl _
  · exact List.pairwise_iff_getElem.mp h i j hi hj hlt

/-- The entries before an index come before the word, and those from there on do not. -/
structure Parts (keywords : Keywords) (word : Bytes) (index : Nat) : Prop where
  lt : ∀ i < index, ∀ entry, keywords[i]? = some entry → entry < word
  not_lt : ∀ i, index ≤ i → ∀ entry, keywords[i]? = some entry → ¬ entry < word

/-- The search keeps to the entries that may be at the parting place. -/
theorem parts_search (h : keywords.Sorted) {first count : Nat}
    (hlt : ∀ i < first, ∀ entry, keywords[i]? = some entry → entry < word)
    (hnot : ∀ i, first + count ≤ i → ∀ entry, keywords[i]? = some entry → ¬ entry < word) :
    Parts keywords word (lowerBound.search keywords word first count) := by
  fun_induction lowerBound.search keywords word first count with
  | case1 first => exact ⟨hlt, hnot⟩
  | case2 first count hcount half hbefore ih =>
      obtain ⟨middle, hmiddle, hword⟩ := (Option.any_eq_true _ _).mp hbefore
      refine ih (fun i hi entry hentry => ?_) (fun i hi => hnot i (by omega))
      have hle : entry ≤ middle := h.le (Nat.le_of_lt_succ hi) hentry hmiddle
      exact Std.lt_of_le_of_lt hle (of_decide_eq_true hword)
  | case3 first count hcount half hbefore ih =>
      refine ih hlt fun i hi entry hentry => ?_
      obtain ⟨hlast, -⟩ := Array.getElem?_eq_some_iff.mp hentry
      have hmiddle : keywords[first + half]? = some keywords[first + half] :=
        Array.getElem?_eq_getElem (Nat.lt_of_le_of_lt hi hlast)
      rw [hmiddle, Option.any_some, decide_eq_true_eq] at hbefore
      have hle : keywords[first + half] ≤ entry := h.le hi hmiddle hentry
      exact fun hentry => hbefore (Std.lt_of_le_of_lt hle hentry)

theorem parts_lowerBound (h : keywords.Sorted) (word : Bytes) :
    Parts keywords word (keywords.lowerBound word) := by
  refine parts_search h (by simp) fun i hi entry hentry => ?_
  rw [Nat.zero_add] at hi
  rw [Array.getElem?_eq_none hi] at hentry
  cases hentry

/-- In a sorted table the words that stand in it are found, and no others. -/
theorem contains_iff_mem (h : keywords.Sorted) :
    keywords.contains word = true ↔ word ∈ keywords := by
  have hparts := parts_lowerBound h word
  rw [contains, Option.any_eq_true]
  constructor
  · rintro ⟨entry, hentry, hle⟩
    have hnot := hparts.not_lt _ (Nat.le_refl _) entry hentry
    have hsame : entry = word := List.le_antisymm (of_decide_eq_true hle) hnot
    rw [← hsame]
    exact Array.mem_of_getElem? hentry
  · intro hmem
    obtain ⟨index, hindex⟩ := Array.getElem?_of_mem hmem
    -- The word does not come before itself, so it is not before the parting place.
    have hle : keywords.lowerBound word ≤ index := by
      apply Nat.le_of_not_lt
      intro hbefore
      exact Std.lt_irrefl (hparts.lt index hbefore word hindex)
    obtain ⟨hlt, -⟩ := Array.getElem?_eq_some_iff.mp hindex
    have hentry : keywords[keywords.lowerBound word]? = some keywords[keywords.lowerBound word] :=
      Array.getElem?_eq_getElem (Nat.lt_of_le_of_lt hle hlt)
    refine ⟨_, hentry, ?_⟩
    rw [decide_eq_true_eq, List.not_lt]
    exact h.le hle hentry hindex

theorem sorted_keywords2018 : keywords2018.Sorted := by
  decide +kernel

end RustLexer.Keywords
