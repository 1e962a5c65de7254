import RustLexer.Proofs.Cursor
import RustLexer.Proofs.Grammar.Word

/-! # Reading rune by rune

A cursor looks ahead in runes that were decoded when it was made. `Cursor.read` has nothing but the offset to
go by: it decodes the source there, gives what it finds and moves behind it. Reading one rune gives the one that
the cursor looks at and moves the cursor by one (`Cursor.Reads.read_eq`), so reading on gives all the runes that
it can look ahead at, one after another (`Cursor.Reads.readTimes_eq`).
-/

namespace RustLexer

/-- The rune that decoding a source at an offset gives; none at the end. -/
def Rune.decode? (source : Bytes) (offset : Nat) : Option Rune :=
  match source.drop offset with
  | [] => none
  | byte :: rest => some (first byte rest)

theorem Rune.decode?_eq_head? (source : Bytes) (offset : Nat) :
    decode? source offset = (runes (source.drop offset)).head? := by
  rw [decode?]
  cases source.drop offset with
  | nil => rw [runes_nil, List.head?_nil]
  | cons byte rest => rw [runes_cons, List.head?_cons]

namespace Cursor

/-- Decodes the source at the offset of a cursor and moves the cursor over what is found. At the end there is
nothing to read, and the cursor stays. -/
def read (cursor : Cursor) : Option Rune × Cursor :=
  match Rune.decode? cursor.source cursor.position.offset with
  | none => (none, cursor)
  | some rune =>
      let position := cursor.position.next rune
      (some rune, { cursor with rest := runes (cursor.source.drop position.offset), position })

/-- Reads a number of times: what each time gave, in order, and the cursor behind the last. -/
def readTimes (cursor : Cursor) : Nat → List (Option Rune) × Cursor
  | 0 => ([], cursor)
  | count + 1 =>
      let (rune, next) := cursor.read
      let (others, last) := next.readTimes count
      (rune :: others, last)

theorem readTimes_succ (cursor : Cursor) (count : Nat) :
    cursor.readTimes (count + 1) =
      (cursor.read.1 :: (cursor.read.2.readTimes count).1, (cursor.read.2.readTimes count).2) := rfl

/-! ## Moving on -/

theorem advance_advance (cursor : Cursor) (first second : Nat) :
    (cursor.advance first).advance second = cursor.advance (first + second) := by
  simp only [advance, List.drop_drop, ← Position.after_append, List.take_add]

theorem peek?_advance (cursor : Cursor) (count ahead : Nat) :
    (cursor.advance count).peek? ahead = cursor.peek? (count + ahead) := by
  rw [peek?, advance, List.getElem?_drop, peek?]

theorem source_run [XidClasses] (cursor : Cursor) (calls : List Call) :
    (cursor.run calls).source = cursor.source := by
  induction calls generalizing cursor with
  | nil => rfl
  | cons call calls ih =>
      have hcall : (cursor.call call).source = cursor.source := by cases call <;> rfl
      exact (ih _).trans hcall

/-! ## Reading -/

namespace Reads

variable {cursor : Cursor}

/-- The rune that is read is the one the cursor looks at. -/
theorem read_eq (h : Reads cursor.source cursor) :
    cursor.read = (cursor.peek? 0, cursor.advance 1) := by
  have hdecode : Rune.decode? cursor.source cursor.position.offset = cursor.rest.head? := by
    rw [Rune.decode?_eq_head?, ← h.rest_eq]
  have hnext : runes (cursor.source.drop (cursor.advance 1).position.offset) =
      (cursor.advance 1).rest := (h.advance 1).rest_eq.symm
  rw [read, hdecode]
  obtain ⟨source, rest, position⟩ := cursor
  cases rest with
  | nil => rfl
  | cons rune rest =>
      have hbehind : runes (source.drop (position.next rune).offset) = rest := hnext
      simp only [List.head?_cons, hbehind]
      rfl

/-- Reading on gives the runes that the cursor looks ahead at, and nothing once they are used up. -/
theorem readTimes_eq (h : Reads cursor.source cursor) (count : Nat) :
    cursor.readTimes count = ((List.range count).map cursor.peek?, cursor.advance count) := by
  induction count generalizing cursor with
  | zero => rfl
  | succ count ih =>
      have hadvanced : Reads (cursor.advance 1).source (cursor.advance 1) := h.advance 1
      have hpeek : (cursor.advance 1).peek? = fun ahead => cursor.peek? (ahead + 1) := by
        funext ahead
        rw [peek?_advance, Nat.add_comm]
      rw [readTimes_succ, h.read_eq, ih hadvanced, hpeek, advance_advance, List.range_succ_eq_map,
        List.map_cons, List.map_map, Nat.add_comm]
      rfl

end Reads

/-- A run over a class takes the runes that are in the class, up to the first that is not or to the end. -/
theorem exists_run_eq [XidClasses] (cursor : Cursor) (inClass : Rune → Bool) :
    ∃ count, cursor.move (.run inClass) = cursor.advance count ∧
      (∀ passed < count, ∃ rune, cursor.peek? passed = some rune ∧ inClass rune = true) ∧
      (cursor.peek? count = none ∨ ∃ rune, cursor.peek? count = some rune ∧ inClass rune = false) := by
  let count := runLength inClass cursor.rest
  have hle : count ≤ cursor.rest.length := runLength_le inClass cursor.rest
  have hlength : (cursor.rest.take count).length =
      runLength inClass (cursor.rest.take count ++ cursor.rest.drop count) := by
    rw [List.take_append_drop, List.length_take_of_le hle]
  obtain ⟨hrun, hstop⟩ := run_of_length hlength
  refine ⟨count, rfl, ?_, ?_⟩
  · intro passed hpassed
    have hlt : passed < cursor.rest.length := Nat.lt_of_lt_of_le hpassed hle
    have htake : cursor.rest[passed] ∈ cursor.rest.take count :=
      List.mem_take_iff_getElem.mpr ⟨passed, by omega, rfl⟩
    exact ⟨cursor.rest[passed], List.getElem?_eq_getElem hlt, hrun _ htake⟩
  · rw [startsIn_eq_false_iff, List.head?_drop] at hstop
    rw [peek?]
    cases hpeek : cursor.rest[count]? with
    | none => exact Or.inl rfl
    | some rune => exact Or.inr ⟨rune, rfl, hstop rune hpeek⟩

/-- However a cursor came to where it is, what it sees at a distance is what reading it as many times and once
more gives last, and moving it by a number of runes is reading it as many times, also beyond the end. Over the
runes of a class it reads until the first that is not in the class comes next, or none. -/
theorem readTimes_run [XidClasses] (source : Bytes) (calls : List Call) :
    let cursor := (ofSource source).run calls
    (∀ ahead, (cursor.readTimes (ahead + 1)).1.getLast? = some (cursor.peek? ahead)) ∧
      (∀ count, (cursor.readTimes count).2 = cursor.advance count) ∧
      ∀ inClass, ∃ count,
        let reached := cursor.move (.run inClass)
        (cursor.readTimes count).2 = reached ∧
        (∀ read ∈ (cursor.readTimes count).1, ∃ rune, read = some rune ∧ inClass rune = true) ∧
        (∀ passed < count, ∃ rune,
          (cursor.readTimes passed).2.peek? 0 = some rune ∧ inClass rune = true) ∧
        (reached.peek? 0 = none ∨ ∃ rune, reached.peek? 0 = some rune ∧ inClass rune = false) := by
  intro cursor
  have hsource : cursor.source = source := (ofSource source).source_run calls
  have hreads : Reads cursor.source cursor := by
    rw [hsource]
    exact (Reads.ofSource source).run calls
  refine ⟨?_, ?_, ?_⟩
  · intro ahead
    rw [hreads.readTimes_eq, List.range_succ, List.map_append, List.map_singleton,
      List.getLast?_concat]
  · intro count
    rw [hreads.readTimes_eq]
  · intro inClass
    obtain ⟨count, hmove, hpassed, hstop⟩ := cursor.exists_run_eq inClass
    refine ⟨count, ?_, ?_, ?_, ?_⟩
    · rw [hreads.readTimes_eq, hmove]
    · rw [hreads.readTimes_eq]
      intro read hread
      obtain ⟨passed, hlt, rfl⟩ := List.mem_map.mp hread
      exact hpassed passed (List.mem_range.mp hlt)
    · intro passed hlt
      rw [hreads.readTimes_eq, peek?_advance]
      exact hpassed passed hlt
    · rw [hmove, peek?_advance]
      exact hstop

end Cursor

end RustLexer
