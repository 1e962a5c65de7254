import RustLexer.Lexer
import RustLexer.Proofs.Cursor

/-! # Runs of a lexer

A run of a lexer is a number of lexemes that it yields one after another. Draining a lexer is the run
that comes to the end of the source (`Lexer.run_drain`, `Lexer.atEnd_drain`), and wherever the lexemes
that it yields are split there is a lexer that has yielded the ones before and drains to the ones behind
(`Lexer.exists_run_of_drain_eq`).
-/

namespace RustLexer.Lexer

/-! ## One lexeme -/

variable [XidClasses]

theorem next?_eq_none_iff {lexer : Lexer} : lexer.next? = none ↔ lexer.cursor.rest = [] := by
  simp [next?, atEnd_iff]

theorem next?_eq_none_iff_atEnd {lexer : Lexer} : lexer.next? = none ↔ lexer.atEnd = true :=
  next?_eq_none_iff.trans atEnd_iff.symm

/-- What the next lexeme is: the cut at the cursor, with the runes that it takes and their place. -/
theorem next?_eq_some {lexer next : Lexer} {lexeme : Lexeme}
    (h : lexer.next? = some (lexeme, next)) :
    lexer.cursor.rest ≠ [] ∧
    lexeme.toTag = lexer.cut.tag ∧
    lexeme.text = Rune.encode (lexer.cursor.rest.take lexer.cut.length) ∧
    lexeme.span = ⟨lexer.cursor.position, next.cursor.position⟩ ∧
    next = { lexer with cursor := lexer.cursor.advance lexer.cut.length } := by
  unfold next? at h
  split at h
  next => cases h
  next hend =>
    cases h
    exact ⟨mt atEnd_iff.mpr hend, rfl, rfl, rfl, rfl⟩

/-- A text is read lexeme by lexeme: what holds at the end of a source, and of a lexer if it holds of
the lexer behind the next lexeme, holds of every lexer. -/
theorem next_induction {motive : Lexer → Prop}
    (stop : ∀ lexer, lexer.next? = none → motive lexer)
    (step : ∀ lexer lexeme next, lexer.next? = some (lexeme, next) → motive next → motive lexer)
    (lexer : Lexer) : motive lexer := by
  -- On the number of runes that are left, which every lexeme lowers.
  induction hlen : lexer.cursor.rest.length using Nat.strongRecOn generalizing lexer with
  | ind n ih =>
      cases hnext : lexer.next? with
      | none => exact stop lexer hnext
      | some result =>
          obtain ⟨lexeme, next⟩ := result
          have hlt := length_rest_next_lt hnext
          exact step lexer lexeme next hnext (ih _ (hlen ▸ hlt) next rfl)

/-! ## Draining -/

theorem drain_go (read : List Lexeme) (lexer : Lexer) :
    drain.go read lexer = (read.reverse ++ lexer.drain.1, lexer.drain.2) := by
  induction lexer using next_induction generalizing read with
  | stop lexer hnext =>
      rw [drain, drain.go, drain.go]
      split
      next => simp
      next hsome => simp [hnext] at hsome
  | step lexer lexeme next hnext ih =>
      rw [drain, drain.go, drain.go]
      split
      next hnone => simp [hnext] at hnone
      next hsome =>
        obtain ⟨rfl, rfl⟩ := Prod.mk.inj (Option.some.inj (hnext.symm.trans hsome))
        rw [ih, ih [_]]
        simp

theorem drain_of_next?_eq_none {lexer : Lexer} (h : lexer.next? = none) :
    lexer.drain = ([], lexer) := by
  rw [drain, drain.go]
  split
  next => rfl
  next hsome => simp [h] at hsome

theorem drain_of_next?_eq_some {lexer next : Lexer} {lexeme : Lexeme}
    (h : lexer.next? = some (lexeme, next)) :
    lexer.drain = (lexeme :: next.drain.1, next.drain.2) := by
  rw [drain, drain.go]
  split
  next hnone => simp [h] at hnone
  next hsome =>
    obtain ⟨rfl, rfl⟩ := Prod.mk.inj (Option.some.inj (h.symm.trans hsome))
    rw [drain_go]
    rfl

/-! ## Runs -/

/-- A lexer yields some lexemes one after another and becomes another lexer. -/
inductive Run : Lexer → List Lexeme → Lexer → Prop
  | stop (lexer : Lexer) : Run lexer [] lexer
  | step {lexer next last : Lexer} {lexeme : Lexeme} {lexemes : List Lexeme}
      (hnext : lexer.next? = some (lexeme, next)) (hrun : Run next lexemes last) :
      Run lexer (lexeme :: lexemes) last

theorem run_drain (lexer : Lexer) : Run lexer lexer.drain.1 lexer.drain.2 := by
  induction lexer using next_induction with
  | stop lexer hnext =>
      rw [drain_of_next?_eq_none hnext]
      exact .stop lexer
  | step lexer lexeme next hnext ih =>
      rw [drain_of_next?_eq_some hnext]
      exact .step hnext ih

/-- A drained lexer is at the end of the source. -/
theorem atEnd_drain (lexer : Lexer) : lexer.drain.2.atEnd = true := by
  induction lexer using next_induction with
  | stop lexer hnext =>
      rw [drain_of_next?_eq_none hnext]
      exact next?_eq_none_iff_atEnd.mp hnext
  | step lexer lexeme next hnext ih =>
      rw [drain_of_next?_eq_some hnext]
      exact ih

/-- The lexemes of a lexer can be read up to any point and drained from there. -/
theorem exists_run_of_drain_eq {lexer : Lexer} {front back : List Lexeme}
    (h : lexer.drain.1 = front ++ back) :
    ∃ reached, Run lexer front reached ∧ reached.drain.1 = back := by
  induction front generalizing lexer with
  | nil => exact ⟨lexer, .stop lexer, h⟩
  | cons lexeme front ih =>
      cases hnext : lexer.next? with
      | none => simp [drain_of_next?_eq_none hnext] at h
      | some result =>
          obtain ⟨first, next⟩ := result
          rw [drain_of_next?_eq_some hnext] at h
          obtain ⟨rfl, hrest⟩ := List.cons.inj h
          obtain ⟨reached, hrun, hdrain⟩ := ih hrest
          exact ⟨reached, .step hnext hrun, hdrain⟩

theorem next?_of_drain_eq_cons {lexer : Lexer} {lexeme : Lexeme} {lexemes : List Lexeme}
    (h : lexer.drain.1 = lexeme :: lexemes) :
    ∃ next, lexer.next? = some (lexeme, next) ∧ next.drain.1 = lexemes := by
  cases hnext : lexer.next? with
  | none => simp [drain_of_next?_eq_none hnext] at h
  | some result =>
      obtain ⟨first, next⟩ := result
      rw [drain_of_next?_eq_some hnext] at h
      obtain ⟨rfl, hrest⟩ := List.cons.inj h
      exact ⟨next, rfl, hrest⟩

/-! ## What a run keeps -/

/-- A lexer on a source, read as far as its cursor. -/
abbrev Reads (source : Bytes) (lexer : Lexer) : Prop := lexer.cursor.Reads source

theorem reads_next {source : Bytes} {lexer next : Lexer} {lexeme : Lexeme}
    (h : lexer.Reads source) (hnext : lexer.next? = some (lexeme, next)) : next.Reads source := by
  obtain ⟨-, -, -, -, rfl⟩ := next?_eq_some hnext
  exact h.advance _

namespace Run

variable {lexer last : Lexer} {lexemes : List Lexeme}

theorem reads {source : Bytes} (hrun : Run lexer lexemes last) (h : lexer.Reads source) :
    last.Reads source := by
  induction hrun with
  | stop => exact h
  | step hnext _ ih => exact ih (reads_next h hnext)

theorem dialect_eq (hrun : Run lexer lexemes last) : last.dialect = lexer.dialect := by
  induction hrun with
  | stop => rfl
  | step hnext _ ih =>
      obtain ⟨-, -, -, -, rfl⟩ := next?_eq_some hnext
      exact ih

/-- A run passes over the runes that it leaves no longer ahead. -/
theorem exists_passed (hrun : Run lexer lexemes last) :
    ∃ passed, lexer.cursor.rest = passed ++ last.cursor.rest ∧
      last.cursor.position = lexer.cursor.position.after passed := by
  induction hrun with
  | stop => exact ⟨[], rfl, rfl⟩
  | @step lexer next last lexeme lexemes hnext hrun ih =>
      obtain ⟨passed, hrest, hposition⟩ := ih
      obtain ⟨-, -, -, -, rfl⟩ := next?_eq_some hnext
      refine ⟨lexer.cursor.rest.take lexer.cut.length ++ passed, ?_, ?_⟩
      · rw [List.append_assoc, ← hrest]
        exact (List.take_append_drop _ _).symm
      · rw [hposition, Position.after_append]
        rfl

/-- Draining a lexer continues every run of it. -/
theorem drain_eq (hrun : Run lexer lexemes last) : lexer.drain.1 = lexemes ++ last.drain.1 := by
  induction hrun with
  | stop => rfl
  | step hnext _ ih => rw [drain_of_next?_eq_some hnext, ih, List.cons_append]

/-- The lexemes of a run start and stop at true positions of the source. -/
theorem trueIn {source : Bytes} (hrun : Run lexer lexemes last) (h : lexer.Reads source) :
    ∀ lexeme ∈ lexemes, lexeme.span.start.TrueIn source ∧ lexeme.span.stop.TrueIn source := by
  induction hrun with
  | stop => simp
  | step hnext _ ih =>
      have hreads := reads_next h hnext
      obtain ⟨-, -, -, hspan, -⟩ := next?_eq_some hnext
      refine List.forall_mem_cons.mpr ⟨?_, ih hreads⟩
      rw [hspan]
      exact ⟨h.trueIn, hreads.trueIn⟩

end Run

end RustLexer.Lexer
