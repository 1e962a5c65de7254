import RustLexer.Text.Utf8

/-! # Runes

A text is read rune by rune: a rune is one well-formed UTF-8 sequence with its character, or a single
byte at which no well-formed sequence begins, read as `U+FFFD`. Nothing is lost: the bytes of the runes
of a text are the text (`encode_runes`).
-/

namespace RustLexer

/-- One step of reading a text: a character and the bytes it was read from. -/
structure Rune where
  char : Char
  bytes : Bytes
deriving DecidableEq

namespace Rune

/-- A byte at which no well-formed sequence begins stands for the replacement character. -/
def malformed (byte : UInt8) : Rune := ⟨'\uFFFD', [byte]⟩

/-- The rune at the front of the text `byte :: rest`. -/
def first (byte : UInt8) (rest : Bytes) : Rune :=
  match Utf8.lead? byte with
  | none => malformed byte
  | some lead =>
    match Utf8.tail? lead.tail rest with
    | none => malformed byte
    | some tail => ⟨Utf8.scalar lead tail, byte :: tail⟩

/-- The bytes of a text after its first rune. -/
def afterFirst (byte : UInt8) (rest : Bytes) : Bytes :=
  rest.drop ((first byte rest).bytes.length - 1)

theorem length_afterFirst_le (byte : UInt8) (rest : Bytes) :
    (afterFirst byte rest).length ≤ rest.length := by
  simp only [afterFirst, List.length_drop]
  omega

/-- The bytes that a sequence of runes was read from. -/
def encode (text : List Rune) : Bytes :=
  text.flatMap Rune.bytes

/-- The number of bytes that a sequence of runes was read from. -/
def width (text : List Rune) : Nat :=
  text.foldl (fun width rune => width + rune.bytes.length) 0

end Rune

/-- The runes of a text, in order. -/
def runes (text : Bytes) : List Rune :=
  go [] text
where
  /-- Reads a text on, with the runes already read in reverse. -/
  go (read : List Rune) : Bytes → List Rune
    | [] => read.reverse
    | byte :: rest => go (Rune.first byte rest :: read) (Rune.afterFirst byte rest)
  termination_by text => text.length
  decreasing_by
    have := Rune.length_afterFirst_le byte rest
    simp only [List.length_cons]
    omega

theorem runes_go (read : List Rune) (text : Bytes) :
    runes.go read text = read.reverse ++ runes text := by
  suffices h : ∀ (n : Nat) (text : Bytes), text.length ≤ n → ∀ read : List Rune,
      runes.go read text = read.reverse ++ runes.go [] text from
    h text.length text (Nat.le_refl _) read
  intro n
  induction n with
  | zero =>
      intro text htext read
      have : text = [] := List.length_eq_zero_iff.mp (by omega)
      subst this
      simp [runes.go]
  | succ n ih =>
      intro text htext read
      cases text with
      | nil => simp [runes.go]
      | cons byte rest =>
          have hle := Rune.length_afterFirst_le byte rest
          have hlen : (Rune.afterFirst byte rest).length ≤ n := by
            simp only [List.length_cons] at htext
            omega
          rw [runes.go, ih _ hlen, runes.go, ih _ hlen [_]]
          simp

@[simp] theorem runes_nil : runes [] = [] := by
  simp [runes, runes.go]

theorem runes_cons (byte : UInt8) (rest : Bytes) :
    runes (byte :: rest) = Rune.first byte rest :: runes (Rune.afterFirst byte rest) := by
  conv => lhs; unfold runes runes.go
  rw [runes_go]
  simp

namespace Utf8

/-- What a lead calls for is cut from the front of the text. -/
theorem append_drop_of_tail? {ranges : List ByteRange} {text tail : Bytes}
    (h : tail? ranges text = some tail) : tail ++ text.drop tail.length = text := by
  induction ranges generalizing text tail with
  | nil =>
      simp only [tail?, Option.some.injEq] at h
      simp [← h]
  | cons range ranges ih =>
      cases text with
      | nil => simp [tail?] at h
      | cons byte rest =>
          simp only [tail?] at h
          split at h
          next =>
            obtain ⟨tail, htail, rfl⟩ := Option.map_eq_some_iff.mp h
            simp [ih htail]
          next => cases h

end Utf8

namespace Rune

/-- The first rune takes its bytes from the front of the text. -/
theorem first_append_afterFirst (byte : UInt8) (rest : Bytes) :
    (first byte rest).bytes ++ afterFirst byte rest = byte :: rest := by
  unfold afterFirst first
  split
  · simp [malformed]
  · split
    · simp [malformed]
    next htail => simpa using Utf8.append_drop_of_tail? htail

@[simp] theorem encode_nil : encode [] = [] := rfl

@[simp] theorem encode_cons (rune : Rune) (text : List Rune) :
    encode (rune :: text) = rune.bytes ++ encode text := by
  simp [encode]

@[simp] theorem encode_append (front rest : List Rune) :
    encode (front ++ rest) = encode front ++ encode rest := by
  simp [encode]

theorem width_eq_length_encode (text : List Rune) : width text = (encode text).length := by
  suffices h : ∀ n : Nat, text.foldl (fun width rune => width + rune.bytes.length) n =
      n + (encode text).length by simpa [width] using h 0
  induction text with
  | nil => simp
  | cons rune text ih =>
      intro n
      rw [List.foldl_cons, ih, encode_cons, List.length_append]
      omega

end Rune

/-- Reading a text loses none of its bytes. -/
theorem encode_runes (text : Bytes) : Rune.encode (runes text) = text := by
  induction hlen : text.length using Nat.strongRecOn generalizing text with
  | ind n ih =>
      cases text with
      | nil => simp
      | cons byte rest =>
          have hle := Rune.length_afterFirst_le byte rest
          simp only [List.length_cons] at hlen
          rw [runes_cons, Rune.encode_cons, ih _ (by omega) _ rfl, Rune.first_append_afterFirst]

end RustLexer
