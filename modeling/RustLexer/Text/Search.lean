/-! # Searching a list for a suffix

Most of the scanning in this library looks for the first place where something stands: the end of a
line, a closing delimiter, a carriage return. All of it is one search, for the first suffix of a list
that satisfies a test; the two theorems below say what its answer means.
-/

namespace RustLexer

variable {α : Type}

/-- The number of elements before the first suffix of `list` that satisfies `stop`. -/
def findSuffix? (stop : List α → Bool) (list : List α) : Option Nat :=
  go 0 list
where
  /-- The same count, with the number of elements already passed as its start. -/
  go (passed : Nat) : List α → Option Nat
    | [] => if stop [] then some passed else none
    | a :: rest => if stop (a :: rest) then some passed else go (passed + 1) rest

theorem findSuffix?_go (stop : List α → Bool) (list : List α) (passed : Nat) :
    findSuffix?.go stop passed list = (findSuffix? stop list).map (passed + ·) := by
  unfold findSuffix?
  induction list generalizing passed with
  | nil => simp only [findSuffix?.go]; split <;> simp
  | cons a rest ih =>
      simp only [findSuffix?.go]
      split
      · simp
      · rw [ih (passed + 1), ih (0 + 1), Option.map_map]
        congr 1
        funext n
        simp only [Function.comp_apply]
        omega

theorem findSuffix?_nil (stop : List α → Bool) :
    findSuffix? stop [] = if stop [] then some 0 else none := rfl

theorem findSuffix?_cons (stop : List α → Bool) (a : α) (rest : List α) :
    findSuffix? stop (a :: rest) =
      if stop (a :: rest) then some 0 else (findSuffix? stop rest).map (1 + ·) := by
  conv => lhs; unfold findSuffix? findSuffix?.go
  rw [findSuffix?_go]

/-- The search answers with the first suffix that satisfies the test. -/
theorem findSuffix?_eq_some_iff {stop : List α → Bool} {list : List α} {n : Nat} :
    findSuffix? stop list = some n ↔
      n ≤ list.length ∧ stop (list.drop n) = true ∧ ∀ m < n, stop (list.drop m) = false := by
  induction list generalizing n with
  | nil =>
      rw [findSuffix?_nil]
      constructor
      · intro h
        split at h
        next hstop => cases h; exact ⟨Nat.le_refl _, hstop, fun m hm => by omega⟩
        next => cases h
      · rintro ⟨hn, hstop, _⟩
        have : n = 0 := by simpa using hn
        subst this
        rw [if_pos (by simpa using hstop)]
  | cons a rest ih =>
      rw [findSuffix?_cons]
      by_cases hstop : stop (a :: rest) = true
      · rw [if_pos hstop]
        constructor
        · intro h
          cases h
          exact ⟨Nat.zero_le _, hstop, fun m hm => by omega⟩
        · rintro ⟨_, _, hfirst⟩
          cases n with
          | zero => rfl
          | succ n => exact absurd (hfirst 0 (by omega)) (by simp [hstop])
      · rw [if_neg hstop]
        cases n with
        | zero => simp [hstop]
        | succ n =>
            rw [Option.map_eq_some_iff]
            constructor
            · rintro ⟨m, hm, hmn⟩
              have : m = n := by omega
              subst this
              obtain ⟨hle, hhere, hfirst⟩ := ih.mp hm
              refine ⟨by simpa using hle, hhere, fun k hk => ?_⟩
              cases k with
              | zero => simpa using hstop
              | succ k => exact hfirst k (by omega)
            · rintro ⟨hle, hhere, hfirst⟩
              exact ⟨n, ih.mpr ⟨by simpa using hle, hhere,
                fun k hk => hfirst (k + 1) (by omega)⟩, by omega⟩

/-- The search fails exactly when no suffix satisfies the test. -/
theorem findSuffix?_eq_none_iff {stop : List α → Bool} {list : List α} :
    findSuffix? stop list = none ↔ ∀ n ≤ list.length, stop (list.drop n) = false := by
  induction list with
  | nil => rw [findSuffix?_nil]; simp
  | cons a rest ih =>
      rw [findSuffix?_cons]
      by_cases hstop : stop (a :: rest) = true
      · rw [if_pos hstop]
        simp only [reduceCtorEq, false_iff]
        intro h
        exact absurd (h 0 (Nat.zero_le _)) (by simp [hstop])
      · rw [if_neg hstop, Option.map_eq_none_iff, ih]
        constructor
        · intro h n hn
          cases n with
          | zero => simpa using hstop
          | succ n => exact h n (by simpa using hn)
        · intro h n hn
          exact h (n + 1) (by simpa using hn)

end RustLexer
