import RustLexer.CodePoint.Unicode
import RustLexer.Proofs.Lexer.Tiling

/-! # Schedules of calls

A lexer is asked for one lexeme or for all that are left, in any order. One call continues the run of the
lexer (`Lexer.run_call`), so a whole schedule is a run too (`Lexer.run_follow`): however the calls are mixed,
the answers hold a front of the lexemes of the source, and all of them as soon as the end is reached. There a
call has nothing to answer and leaves the lexer as it is (`Lexer.call_of_atEnd`).
-/

namespace RustLexer

namespace Lexer

/-- A call on a lexer: for the next lexeme, or for all that are left. -/
inductive Call
  | next
  | all
deriving DecidableEq

/-- What a call is answered with: a lexeme, if there is a next one, or a list of lexemes. -/
inductive Answer
  | next (lexeme : Option Lexeme)
  | all (lexemes : List Lexeme)

/-- The lexemes that an answer holds. -/
def Answer.lexemes : Answer → List Lexeme
  | next lexeme => lexeme.toList
  | all lexemes => lexemes

variable [XidClasses]

/-- The answer to a call and the lexer behind it. A lexer without a next lexeme stays as it is. -/
def call (lexer : Lexer) : Call → Answer × Lexer
  | .next =>
      match lexer.next? with
      | none => (.next none, lexer)
      | some (lexeme, next) => (.next (some lexeme), next)
  | .all => (.all lexer.drain.1, lexer.drain.2)

/-- The answers to calls that are made one after another, and the lexer behind them. -/
def follow (lexer : Lexer) : List Call → List Answer × Lexer
  | [] => ([], lexer)
  | call :: calls =>
      let (answer, next) := lexer.call call
      let (answers, last) := next.follow calls
      (answer :: answers, last)

variable {lexer : Lexer}

theorem follow_cons (lexer : Lexer) (call : Call) (calls : List Call) :
    lexer.follow (call :: calls) =
      ((lexer.call call).1 :: ((lexer.call call).2.follow calls).1,
        ((lexer.call call).2.follow calls).2) := rfl

/-- More calls are made on the lexer that the calls before them leave. -/
theorem follow_append (lexer : Lexer) (calls more : List Call) :
    lexer.follow (calls ++ more) =
      ((lexer.follow calls).1 ++ ((lexer.follow calls).2.follow more).1,
        ((lexer.follow calls).2.follow more).2) := by
  induction calls generalizing lexer with
  | nil => rfl
  | cons call calls ih => rw [List.cons_append, follow_cons, follow_cons, ih, List.cons_append]

/-! ## Calls are runs -/

theorem Run.append {middle last : Lexer} {front back : List Lexeme}
    (hfront : Run lexer front middle) (hback : Run middle back last) :
    Run lexer (front ++ back) last := by
  induction hfront with
  | stop => exact hback
  | step hnext _ ih => exact .step hnext (ih hback)

theorem run_call (lexer : Lexer) (call : Call) :
    Run lexer (lexer.call call).1.lexemes (lexer.call call).2 := by
  cases call with
  | all => exact run_drain lexer
  | next =>
      rw [Lexer.call]
      split
      next => exact .stop lexer
      next hnext => exact .step hnext (.stop _)

theorem run_follow (lexer : Lexer) (calls : List Call) :
    Run lexer ((lexer.follow calls).1.flatMap Answer.lexemes) (lexer.follow calls).2 := by
  induction calls generalizing lexer with
  | nil => exact .stop lexer
  | cons call calls ih =>
      rw [follow_cons, List.flatMap_cons]
      exact (run_call lexer call).append (ih _)

/-! ## The end of the source -/

theorem call_next_eq_none_iff : (lexer.call .next).1 = .next none ↔ lexer.atEnd = true := by
  rw [← next?_eq_none_iff_atEnd, call]
  cases lexer.next? <;> simp

/-- At the end of the source no call answers with a lexeme or changes the lexer. -/
theorem call_of_atEnd (h : lexer.atEnd = true) (call : Call) :
    (lexer.call call).1.lexemes = [] ∧ (lexer.call call).2 = lexer := by
  have hnext := next?_eq_none_iff_atEnd.mpr h
  cases call with
  | next =>
      rw [Lexer.call, hnext]
      exact ⟨rfl, rfl⟩
  | all =>
      rw [Lexer.call, drain_of_next?_eq_none hnext]
      exact ⟨rfl, rfl⟩

theorem follow_of_atEnd (h : lexer.atEnd = true) (calls : List Call) :
    (∀ answer ∈ (lexer.follow calls).1, answer.lexemes = []) ∧ (lexer.follow calls).2 = lexer := by
  induction calls with
  | nil => exact ⟨by simp [follow], rfl⟩
  | cons call calls ih =>
      obtain ⟨hanswer, hlexer⟩ := call_of_atEnd h call
      rw [follow_cons, hlexer]
      exact ⟨List.forall_mem_cons.mpr ⟨hanswer, ih.1⟩, ih.2⟩

/-- A schedule that asks for all lexemes comes to the end of the source, whatever it asks for besides. -/
theorem atEnd_follow {calls : List Call} (h : .all ∈ calls) :
    (lexer.follow calls).2.atEnd = true := by
  induction calls generalizing lexer with
  | nil => cases h
  | cons call calls ih =>
      rw [follow_cons]
      cases h with
      | head =>
          have hend : (lexer.call .all).2.atEnd = true := atEnd_drain lexer
          rw [(follow_of_atEnd hend calls).2]
          exact hend
      | tail _ hmem => exact ih hmem

/-- A lexer is at the end of its source if and only if the lexemes that it has yielded make up the source. -/
theorem Run.atEnd_iff_texts_eq {dialect : Dialect} {source : Bytes} {lexemes : List Lexeme}
    (hrun : Run (ofSource dialect source) lexemes lexer) :
    lexer.atEnd = true ↔ lexemes.flatMap Lexeme.text = source := by
  have hstart : (ofSource dialect source).Reads source := Cursor.Reads.ofSource source
  have hreads : lexer.Reads source := hrun.reads hstart
  have htexts : lexemes.flatMap Lexeme.text = source.take lexer.cursor.position.offset :=
    (hrun.tiling hstart).texts_eq
  rw [htexts]
  constructor
  · intro hend
    exact List.take_of_length_le (Nat.le_of_eq (offset_eq_length hreads hend).symm)
  · intro hwhole
    have hlength := congrArg List.length hwhole
    rw [List.length_take] at hlength
    have hle : source.length ≤ lexer.cursor.position.offset := by omega
    rw [Lexer.atEnd_iff, hreads.rest_eq, List.drop_eq_nil_of_le hle, runes_nil]

end Lexer

/-- However calls for one lexeme and for all of them are mixed, the lexemes they answer with are a front of
the lexemes of the source, and all of those if one of the calls asks for all. The end is reached when their
texts make up the source. There, and only there, a call for the next lexeme is answered with none, and so are
all the calls behind it, which leave the lexer as it is. -/
theorem Dialect.follow_calls [XidClasses] (dialect : Dialect) (source : Bytes) (calls : List Lexer.Call) :
    let start := Lexer.ofSource dialect source
    let answers := (start.follow calls).1
    let reached := (start.follow calls).2
    let lexemes := answers.flatMap Lexer.Answer.lexemes
    lexemes <+: dialect.lexemes source ∧
      (reached.atEnd = true ↔ lexemes.flatMap Lexeme.text = source) ∧
      ((reached.call .next).1 = .next none ↔ reached.atEnd = true) ∧
      ((reached.call .next).1 = .next none → ∀ more, ∃ silent,
        start.follow (calls ++ more) = (answers ++ silent, reached) ∧
          ∀ answer ∈ silent, answer.lexemes = []) ∧
      (.all ∈ calls → lexemes = dialect.lexemes source) := by
  intro start answers reached lexemes
  have hrun : Lexer.Run start lexemes reached := start.run_follow calls
  have hdrain : dialect.lexemes source = lexemes ++ reached.drain.1 := hrun.drain_eq
  refine ⟨⟨_, hdrain.symm⟩, hrun.atEnd_iff_texts_eq, Lexer.call_next_eq_none_iff, ?_, ?_⟩
  · intro hnone more
    obtain ⟨hsilent, hlast⟩ := Lexer.follow_of_atEnd (Lexer.call_next_eq_none_iff.mp hnone) more
    refine ⟨(reached.follow more).1, ?_, hsilent⟩
    rw [Lexer.follow_append, hlast]
  · intro hall
    have hend : reached.atEnd = true := Lexer.atEnd_follow hall
    have hnext := Lexer.next?_eq_none_iff_atEnd.mpr hend
    rw [hdrain, Lexer.drain_of_next?_eq_none hnext, List.append_nil]

/-- A shebang on its own, then all the lexemes, then one more call. -/
theorem Dialect.follow_calls_shebang :
    let dialect : Dialect := { keywords := keywords2018 }
    let source := Bytes.ofAscii "#!a\n\"b"
    let start := Lexer.ofSource dialect source
    let reached := (start.follow [.next, .all]).2
    let lexemes := (start.follow [.next, .all]).1.flatMap Lexer.Answer.lexemes
    Lexer.Call.all ∈ [Lexer.Call.next, .all] ∧ lexemes = dialect.lexemes source ∧
      lexemes.map Lexeme.text =
        [Bytes.ofAscii "#!a", Bytes.ofAscii "\n", Bytes.ofAscii "\"b"] ∧
      (reached.call .next).1 = .next none ∧ (start.follow [.next, .all, .next, .all]).2 = reached := by
  intro dialect source start reached lexemes
  have hall : Lexer.Call.all ∈ [Lexer.Call.next, .all] := by decide
  obtain ⟨-, hend, hnone, hafter, hwhole⟩ := dialect.follow_calls source [.next, .all]
  have hlexemes : lexemes = dialect.lexemes source := hwhole hall
  have htexts : lexemes.flatMap Lexeme.text = source := by decide +kernel
  have hnext : (reached.call .next).1 = .next none := hnone.mpr (hend.mpr htexts)
  obtain ⟨silent, hfollow, -⟩ := hafter hnext [.next, .all]
  have hreached : (start.follow [.next, .all, .next, .all]).2 = reached :=
    (Prod.ext_iff.mp hfollow).2
  exact ⟨hall, hlexemes, by decide +kernel, hnext, hreached⟩

end RustLexer
