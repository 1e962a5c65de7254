import Mathlib.Data.List.Forall2
import RustLexer.Proofs.Checker.Locate
import RustLexer.Proofs.Checker.Verdict

/-! # Diagnostics in order

A lexeme has one diagnostic at most, and that lies within the lexeme (`Dialect.position_of_diagnostic?`).
The lexemes of a source stand one behind another (`Tiling.pairwise`), so its diagnostics come in the order
of their places.
-/

namespace RustLexer

variable {lexeme : Lexeme} {diagnostic : Diagnostic}

/-! ## One lexeme -/

/-- A doc comment, of either form. -/
def Lexeme.IsDocComment (lexeme : Lexeme) : Prop :=
  lexeme.isDoc = true ∧ (lexeme.kind = .lineComment ∨ lexeme.kind = .blockComment)

/-- Only a doc comment is merely warned of. -/
theorem Lexeme.isDocComment_of_warning {fault : Fault} (h : lexeme.fault? = some fault)
    (hwarning : fault.cause.severity = .warning) : lexeme.IsDocComment := by
  unfold fault? at h
  split at h
  next =>
    cases h
    cases hwarning
  next hkind =>
    split at h
    next =>
      cases h
      cases hwarning
    next =>
      split at h
      next hdoc => exact ⟨hdoc, Or.inr hkind⟩
      next => cases h
  next hkind =>
    split at h
    next hdoc => exact ⟨hdoc, Or.inl hkind⟩
    next => cases h
  next =>
    rw [severity_of_literalFault? h] at hwarning
    cases hwarning
  all_goals cases h

/-- Checking a lexeme adds nothing, or one diagnostic that is for that lexeme. -/
theorem Checker.diagnostics_check_cases (checker : Checker) (lexeme : Lexeme) :
    (checker.check lexeme).diagnostics = checker.diagnostics ∨
      ∃ diagnostic, (checker.check lexeme).diagnostics = checker.diagnostics.push diagnostic ∧
        diagnostic.span = lexeme.span ∧
        (diagnostic.severity = .warning → lexeme.IsDocComment) := by
  cases hfault : lexeme.fault? with
  | none => exact Or.inl (by rw [check_of_no_fault hfault])
  | some fault =>
      refine Or.inr ⟨fault.diagnostic lexeme, diagnostics_check_of_fault hfault checker, rfl, ?_⟩
      exact lexeme.isDocComment_of_warning hfault

theorem Lexeme.span_of_diagnostic? (h : lexeme.diagnostic? = some diagnostic) :
    diagnostic.span = lexeme.span := by
  obtain ⟨fault, -, rfl⟩ := Option.map_eq_some_iff.mp h
  rfl

/-- The diagnostic of a lexeme is reported for a place within the lexeme. -/
theorem Dialect.position_of_diagnostic? [XidClasses] {dialect : Dialect} {source : Bytes}
    (hlexeme : lexeme ∈ dialect.lexemes source) (h : lexeme.diagnostic? = some diagnostic) :
    diagnostic.span.start.offset ≤ diagnostic.position.offset ∧
      diagnostic.position.offset < diagnostic.span.stop.offset := by
  obtain ⟨fault, hfault, rfl⟩ := Option.map_eq_some_iff.mp h
  obtain ⟨hlocate, hlt⟩ :=
    (inPlace_of_mem hlexeme).locate_of_standsIn (dialect.standsIn_of_fault? hlexeme hfault)
  change lexeme.span.start.offset ≤ (lexeme.locate fault.offset).offset ∧
    (lexeme.locate fault.offset).offset < lexeme.span.stop.offset
  rw [hlocate]
  exact ⟨Nat.le_add_right _ _, hlt⟩

/-! ## Lexemes one behind another -/

namespace Tiling

variable {source : Bytes} {start finish : Position} {lexemes : List Lexeme}

theorem start_le (h : Tiling source start lexemes finish) :
    ∀ lexeme ∈ lexemes, start.offset ≤ lexeme.span.start.offset := by
  induction h with
  | stop => simp
  | step hstart hlt _ _ ih =>
      subst hstart
      refine List.forall_mem_cons.mpr ⟨Nat.le_refl _, fun lexeme hlexeme => ?_⟩
      exact Nat.le_trans (Nat.le_of_lt hlt) (ih lexeme hlexeme)

theorem pairwise (h : Tiling source start lexemes finish) :
    lexemes.Pairwise fun lexeme later =>
      lexeme.span.stop.offset ≤ later.span.start.offset := by
  induction h with
  | stop => exact .nil
  | step _ _ _ htiling ih => exact List.pairwise_cons.mpr ⟨htiling.start_le, ih⟩

end Tiling

theorem Dialect.pairwise_lexemes [XidClasses] (dialect : Dialect) (source : Bytes) :
    (dialect.lexemes source).Pairwise fun lexeme later =>
      lexeme.span.stop.offset ≤ later.span.start.offset :=
  ((Lexer.run_drain (.ofSource dialect source)).tiling (Cursor.Reads.ofSource source)).pairwise

/-! ## Sequences -/

/-- What a function finds in a list, beside the elements that it finds it for. -/
theorem forall₂_filterMap {α β : Type} {f : α → Option β} {R : α → β → Prop} {list : List α}
    (h : ∀ a ∈ list, ∀ b, f a = some b → R a b) :
    List.Forall₂ R (list.filter fun a => (f a).isSome) (list.filterMap f) := by
  induction list with
  | nil => exact .nil
  | cons a rest ih =>
      obtain ⟨hhead, hrest⟩ := List.forall_mem_cons.mp h
      cases ha : f a with
      | none =>
          rw [List.filterMap_cons_none ha, List.filter_cons_of_neg (by simp [ha])]
          exact ih hrest
      | some b =>
          rw [List.filterMap_cons_some ha, List.filter_cons_of_pos (by simp [ha])]
          exact .cons (hhead b ha) (ih hrest)

/-- A function that finds something for every element keeps the length of a list. -/
theorem forall₂_filterMap_of_exists {α β : Type} {f : α → Option β} {R : α → β → Prop}
    {list : List α} (h : ∀ a ∈ list, ∃ b, f a = some b ∧ R a b) :
    List.Forall₂ R list (list.filterMap f) := by
  have hfound : list.filter (fun a => (f a).isSome) = list := by
    refine List.filter_eq_self.mpr fun a ha => ?_
    obtain ⟨b, hb, -⟩ := h a ha
    rw [hb, Option.isSome_some]
  have hrelated : ∀ a ∈ list, ∀ b, f a = some b → R a b := by
    intro a ha b hb
    obtain ⟨found, hfound, hR⟩ := h a ha
    obtain rfl := Option.some.inj (hb.symm.trans hfound)
    exact hR
  have hforall := forall₂_filterMap hrelated
  rwa [hfound] at hforall

/-- Of two diagnostics of a source, the later one is for a later lexeme and stands at a later place. -/
theorem Dialect.pairwise_diagnostics [XidClasses] (dialect : Dialect) (source : Bytes) :
    ((dialect.lexemes source).filterMap Lexeme.diagnostic?).Pairwise fun diagnostic later =>
      diagnostic.span.stop.offset ≤ later.span.start.offset ∧
        diagnostic.position.offset < later.position.offset := by
  have hordered := List.Pairwise.and_mem.mp (dialect.pairwise_lexemes source)
  refine List.Pairwise.filterMap _ ?_ hordered
  rintro lexeme next ⟨hlexeme, hnext, hspans⟩ diagnostic hdiagnostic later hlater
  obtain ⟨-, hlt⟩ := position_of_diagnostic? hlexeme hdiagnostic
  obtain ⟨hle, -⟩ := position_of_diagnostic? hnext hlater
  rw [← Lexeme.span_of_diagnostic? hdiagnostic, ← Lexeme.span_of_diagnostic? hlater] at hspans
  exact ⟨hspans, Nat.lt_of_lt_of_le hlt (Nat.le_trans hspans hle)⟩

/-- Whatever was checked before, a lexeme adds one diagnostic at most, for itself, and a mere warning only
if it is a doc comment. So the diagnostics of a source are no more than its lexemes, and come one for each
faulty lexeme, within it and in the order of their places. -/
theorem Dialect.diagnostics_lexemes [XidClasses] (dialect : Dialect) (source : Bytes) :
    let lexemes := dialect.lexemes source
    let reported := (Checker.checkAll {} lexemes).diagnostics.toList
    (∀ (checker : Checker) (lexeme : Lexeme),
      (checker.check lexeme).diagnostics = checker.diagnostics ∨
        ∃ diagnostic, (checker.check lexeme).diagnostics = checker.diagnostics.push diagnostic ∧
          diagnostic.span = lexeme.span ∧
          (diagnostic.severity = .warning → lexeme.IsDocComment)) ∧
    reported.length ≤ lexemes.length ∧
    (∃ faulty, faulty.Sublist lexemes ∧
      List.Forall₂ (fun lexeme diagnostic => diagnostic.span = lexeme.span ∧
        lexeme.span.start.offset ≤ diagnostic.position.offset ∧
        diagnostic.position.offset < lexeme.span.stop.offset) faulty reported) ∧
    reported.Pairwise fun diagnostic later =>
      diagnostic.span.stop.offset ≤ later.span.start.offset ∧
        diagnostic.position.offset < later.position.offset := by
  intro lexemes reported
  have hreported : reported = lexemes.filterMap Lexeme.diagnostic? :=
    Checker.diagnostics_checkAll {} lexemes
  rw [hreported]
  refine ⟨Checker.diagnostics_check_cases, List.length_filterMap_le _ _, ?_,
    dialect.pairwise_diagnostics source⟩
  refine ⟨_, List.filter_sublist, forall₂_filterMap ?_⟩
  intro lexeme hlexeme diagnostic hdiagnostic
  have hspan := Lexeme.span_of_diagnostic? hdiagnostic
  have hposition := position_of_diagnostic? hlexeme hdiagnostic
  rw [hspan] at hposition
  exact ⟨hspan, hposition⟩

end RustLexer
