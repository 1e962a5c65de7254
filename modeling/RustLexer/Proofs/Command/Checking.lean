import RustLexer.Command
import RustLexer.Proofs.Checker.Sequence
import RustLexer.Proofs.Lexer.Payload

/-! # What checking changes

A run reports what is wrong with a lexeme by its tag in any case, and the other faults only if it checks.
Each lexeme of a source that is wrong by its tag has an error (`Dialect.exists_error_of_isWrong`), so a run
that fails without checking fails with it. Neither the checks nor the form of the listing have an effect on
the other.
-/

namespace RustLexer

/-! ## Lexemes that are wrong by their tag -/

/-- Whether the tag of a lexeme says that the lexeme is wrong. -/
def Lexeme.isWrong (lexeme : Lexeme) : Bool :=
  lexeme.kind = .unknown || !lexeme.terminated

theorem Lexeme.isWrong_iff {lexeme : Lexeme} :
    lexeme.isWrong = true ↔ lexeme.kind = .unknown ∨ lexeme.terminated = false := by
  rw [isWrong, Bool.or_eq_true, decide_eq_true_iff, Bool.not_eq_true']

theorem Lexeme.exists_fault_of_isWrong {lexeme : Lexeme} (hwell : lexeme.toTag.WellFormed)
    (h : lexeme.isWrong = true) :
    ∃ fault, lexeme.fault? = some fault ∧ fault.cause.severity = .error := by
  rcases isWrong_iff.mp h with hunknown | hopen
  · refine ⟨{ cause := .unknownLexeme lexeme.text }, ?_, rfl⟩
    rw [fault?, hunknown]
  rcases hwell.terminated hopen with hcomment | ⟨hliteral, -⟩
  · refine ⟨{ cause := .unterminatedBlockComment }, ?_, rfl⟩
    rw [fault?, hcomment, hopen]
    rfl
  · have hsome := fault?_ne_none_of_unterminated hliteral hopen
    obtain ⟨fault, hfault⟩ := Option.ne_none_iff_exists'.mp hsome
    refine ⟨fault, hfault, ?_⟩
    rw [fault?_of_literal hliteral] at hfault
    exact severity_of_literalFault? hfault

/-- A lexeme of a source that is wrong by its tag is reported, and not only warned of. -/
theorem Dialect.exists_error_of_isWrong [XidClasses] {dialect : Dialect} {source : Bytes} {lexeme : Lexeme}
    (hlexeme : lexeme ∈ dialect.lexemes source) (h : lexeme.isWrong = true) :
    ∃ diagnostic, lexeme.diagnostic? = some diagnostic ∧
      diagnostic.isError = true ∧ diagnostic.span = lexeme.span := by
  obtain ⟨construct, -, -, htag, -⟩ := (inPlace_of_mem hlexeme).exists_construct
  have hwell : lexeme.toTag.WellFormed := by
    rw [← htag]
    exact construct.wellFormed_cut _ _
  obtain ⟨fault, hfault, hseverity⟩ := lexeme.exists_fault_of_isWrong hwell h
  have hdiagnostic : lexeme.diagnostic? = some (fault.diagnostic lexeme) := by
    rw [Lexeme.diagnostic?, hfault, Option.map_some]
  exact ⟨_, hdiagnostic, decide_eq_true hseverity, Lexeme.span_of_diagnostic? hdiagnostic⟩

/-! ## What a run reports -/

namespace Options

variable {options : Options} {lexemes : List Lexeme}

/-- The diagnostics that a run reports for the lexemes of its source. -/
def reported (options : Options) (lexemes : List Lexeme) : List Diagnostic :=
  (options.checker lexemes).diagnostics.toList

theorem reported_eq (options : Options) (lexemes : List Lexeme) :
    options.reported lexemes = (options.checked lexemes).filterMap Lexeme.diagnostic? :=
  Checker.diagnostics_checkAll {} (options.checked lexemes)

theorem hasErrors_checker_iff :
    (options.checker lexemes).hasErrors = true ↔
      ∃ diagnostic ∈ options.reported lexemes, diagnostic.isError = true := by
  rw [Checker.hasErrors, ← Array.any_toList, List.any_eq_true]
  rfl

theorem reported_of_check (h : options.check = true) :
    options.reported lexemes = lexemes.filterMap Lexeme.diagnostic? := by
  rw [reported_eq, checked, if_pos h]

theorem reported_of_not_check (h : options.check = false) :
    options.reported lexemes = (lexemes.filter Lexeme.isWrong).filterMap Lexeme.diagnostic? := by
  rw [reported_eq, checked, h]
  rfl

/-- A run that does not check reports one error for each lexeme that is wrong by its tag. -/
theorem forall₂_reported [XidClasses] (h : options.check = false) (dialect : Dialect) (source : Bytes) :
    List.Forall₂ (fun lexeme diagnostic =>
        diagnostic.isError = true ∧ diagnostic.span = lexeme.span)
      ((dialect.lexemes source).filter Lexeme.isWrong)
      (options.reported (dialect.lexemes source)) := by
  rw [reported_of_not_check h]
  apply forall₂_filterMap_of_exists
  intro lexeme hlexeme
  obtain ⟨hmem, hwrong⟩ := List.mem_filter.mp hlexeme
  exact Dialect.exists_error_of_isWrong hmem hwrong

/-- What is reported without checking is reported with it too. -/
theorem reported_sublist {plain checking : Options} (hplain : plain.check = false)
    (hchecking : checking.check = true) (lexemes : List Lexeme) :
    (plain.reported lexemes).Sublist (checking.reported lexemes) := by
  rw [reported_of_not_check hplain, reported_of_check hchecking]
  exact List.filter_sublist.filterMap _

end Options

/-! ## Runs -/

section Run

variable [XidClasses] {options : Options} {inputs : Inputs} {dialect : Dialect} {source : NamedSource}

theorem run_of_load (h : options.load inputs = .ok (dialect, source)) :
    run options inputs =
      { exit := if (options.checker (dialect.lexemes source.text)).hasErrors then 1 else 0
        stdout := options.listing (dialect.lexemes source.text)
        stderr := (options.reported (dialect.lexemes source.text)).flatMap
          (Diagnostic.report source.name (Bytes.lines source.text).toArray) } := by
  rw [run, h]
  rfl

theorem exit_run_eq_one_iff (h : options.load inputs = .ok (dialect, source)) :
    (run options inputs).exit = 1 ↔
      ∃ diagnostic ∈ options.reported (dialect.lexemes source.text),
        diagnostic.isError = true := by
  rw [run_of_load h, ← Options.hasErrors_checker_iff]
  cases (options.checker (dialect.lexemes source.text)).hasErrors <;> simp

/-- The form of the listing has no effect on what is reported and on the exit status. -/
theorem run_listing (options : Options) (inputs : Inputs) (format : Format) (skipTrivia : Bool) :
    let other := run { options with format, skipTrivia } inputs
    other.exit = (run options inputs).exit ∧ other.stderr = (run options inputs).stderr := by
  intro other
  have hload : ({ options with format, skipTrivia } : Options).load inputs =
      options.load inputs := rfl
  simp only [other, run, hload]
  split <;> exact ⟨rfl, rfl⟩

theorem exit_run_of_not_check (hcheck : options.check = false)
    (h : options.load inputs = .ok (dialect, source)) :
    (run options inputs).exit = 1 ↔
      ∃ lexeme ∈ dialect.lexemes source.text, lexeme.isWrong = true := by
  rw [exit_run_eq_one_iff h, Options.reported_of_not_check hcheck]
  constructor
  · rintro ⟨diagnostic, hdiagnostic, -⟩
    obtain ⟨lexeme, hlexeme, -⟩ := List.mem_filterMap.mp hdiagnostic
    exact ⟨lexeme, List.mem_filter.mp hlexeme⟩
  · rintro ⟨lexeme, hlexeme, hwrong⟩
    obtain ⟨diagnostic, hdiagnostic, herror, -⟩ :=
      Dialect.exists_error_of_isWrong hlexeme hwrong
    have hfilter := List.mem_filter.mpr ⟨hlexeme, hwrong⟩
    exact ⟨diagnostic, List.mem_filterMap.mpr ⟨lexeme, hfilter, hdiagnostic⟩, herror⟩

end Run

/-- A run reports one error for each lexeme that is unknown or not closed, and fails if there is one. A run
that checks reports these errors among others and lists the same. How a run lists has no effect on what it
reports and on its exit status, even where there is no source to list. -/
theorem run_check_extends [XidClasses] (options : Options) (inputs : Inputs) :
    let plain := { options with check := false }
    let checking := { options with check := true }
    (∀ format skipTrivia,
      let other := run { options with format, skipTrivia } inputs
      other.exit = (run options inputs).exit ∧ other.stderr = (run options inputs).stderr) ∧
    ∀ dialect source, options.load inputs = .ok (dialect, source) →
      let lexemes := dialect.lexemes source.text
      let report := Diagnostic.report source.name (Bytes.lines source.text).toArray
      (run plain inputs).stderr = (plain.reported lexemes).flatMap report ∧
      (run checking inputs).stderr = (checking.reported lexemes).flatMap report ∧
      List.Forall₂ (fun lexeme diagnostic =>
          diagnostic.isError = true ∧ diagnostic.span = lexeme.span)
        (lexemes.filter Lexeme.isWrong) (plain.reported lexemes) ∧
      (plain.reported lexemes).Sublist (checking.reported lexemes) ∧
      ((run plain inputs).exit = 1 ↔
        ∃ lexeme ∈ lexemes, lexeme.kind = .unknown ∨ lexeme.terminated = false) ∧
      ((run plain inputs).exit = 1 → (run checking inputs).exit = 1) ∧
      (run plain inputs).stdout = (run checking inputs).stdout := by
  intro plain checking
  refine ⟨run_listing options inputs, fun dialect source hload => ?_⟩
  intro lexemes report
  have hplain : plain.load inputs = .ok (dialect, source) := hload
  have hchecking : checking.load inputs = .ok (dialect, source) := hload
  have hsublist : (plain.reported lexemes).Sublist (checking.reported lexemes) :=
    Options.reported_sublist rfl rfl lexemes
  refine ⟨?_, ?_, Options.forall₂_reported rfl dialect source.text, hsublist, ?_, ?_, ?_⟩
  · rw [run_of_load hplain]
  · rw [run_of_load hchecking]
  · simp only [exit_run_of_not_check rfl hplain, Lexeme.isWrong_iff, lexemes]
  · rw [exit_run_eq_one_iff hplain, exit_run_eq_one_iff hchecking]
    rintro ⟨diagnostic, hdiagnostic, herror⟩
    exact ⟨diagnostic, hsublist.subset hdiagnostic, herror⟩
  · rw [run_of_load hplain, run_of_load hchecking]
    rfl

/-- The number without digits is only seen by a run that checks, and the string that is not closed by both. -/
theorem run_check_extends_open :
    let options : Options := { expression := some (Bytes.ofAscii "0b_ \"a") }
    let inputs : Inputs := { stdin := .ok [], file? := fun _ => (none : Option Bytes) }
    let plain := run { options with check := false } inputs
    let checking := run { options with check := true } inputs
    plain.exit = 1 ∧ checking.exit = 1 ∧ plain.stdout = checking.stdout ∧
      plain.stderr.length < checking.stderr.length := by
  intro options inputs plain checking
  let dialect : Dialect := { keywords := keywords2018 }
  let source : NamedSource := ⟨Bytes.ofAscii "<command line>", Bytes.ofAscii "0b_ \"a"⟩
  have hload : options.load inputs = .ok (dialect, source) := by rfl
  obtain ⟨-, hloaded⟩ := run_check_extends options inputs
  obtain ⟨-, -, -, -, hexit, hfails, hstdout⟩ := hloaded dialect source hload
  have hwrong : ∃ lexeme ∈ dialect.lexemes source.text,
      lexeme.kind = .unknown ∨ lexeme.terminated = false := by decide +kernel
  have hplain : plain.exit = 1 := hexit.mpr hwrong
  exact ⟨hplain, hfails hplain, hstdout, by decide +kernel⟩

end RustLexer
