import RustLexer.Text.Bytes

/-! # Guarded computations

A check that works on offsets can go wrong where one on runes cannot: it can read a byte that is not there, cut
a text behind its end, leave the range of a word, or go on for ever. A guarded computation is stopped by each of
these, so to say that it answers is to say that none of them happens. A loop answers if each of its steps does
and leaves less to go (`Guarded.loop_eq_pure`).
-/

namespace RustLexer

/-- What stops a computation before it answers. -/
inductive Violation
  /-- A byte is read that the text does not have. -/
  | byteBeyond
  /-- A text is cut behind its end. -/
  | cutBeyond
  /-- A number leaves the range of its word. -/
  | outOfRange
  /-- A loop goes on for more steps than it may take. -/
  | endless
deriving DecidableEq

/-- A computation that answers or is stopped by a violation. -/
abbrev Guarded := Except Violation

namespace Guarded

/-! ## Texts and words -/

/-- The byte at an offset of a text. -/
def byteAt (text : Bytes) (offset : Nat) : Guarded UInt8 :=
  if h : offset < text.length then pure text[offset] else throw .byteBeyond

/-- A text without what stands before an offset. -/
def cutFrom (text : Bytes) (start : Nat) : Guarded Bytes :=
  if start ≤ text.length then pure (text.drop start) else throw .cutBeyond

/-- The difference of two numbers of which the second is not the larger. -/
def minus (first second : Nat) : Guarded Nat :=
  if second ≤ first then pure (first - second) else throw .outOfRange

/-- A number as a 32-bit word. -/
def word (n : Nat) : Guarded UInt32 :=
  if n < UInt32.size then pure (UInt32.ofNat n) else throw .outOfRange

/-- The part of a text between two offsets. -/
def cut (text : Bytes) (start stop : Nat) : Guarded Bytes := do
  let length ← minus stop start
  let back ← cutFrom text start
  pure (back.take length)

variable {text : Bytes}

theorem byteAt_of_lt {offset : Nat} (h : offset < text.length) :
    byteAt text offset = pure text[offset] :=
  dif_pos h

theorem cutFrom_of_le {start : Nat} (h : start ≤ text.length) :
    cutFrom text start = pure (text.drop start) :=
  if_pos h

theorem minus_of_le {first second : Nat} (h : second ≤ first) :
    minus first second = pure (first - second) :=
  if_pos h

theorem word_of_lt {n : Nat} (h : n < UInt32.size) : word n = pure (UInt32.ofNat n) :=
  if_pos h

theorem toNat_ofNat_of_lt {n : Nat} (h : n < UInt32.size) : (UInt32.ofNat n).toNat = n := by
  rw [UInt32.toNat_ofNat']
  exact Nat.mod_eq_of_lt h

theorem cut_of_le {start stop : Nat} (hstop : start ≤ stop) (hstart : start ≤ text.length) :
    cut text start stop = pure ((text.drop start).take (stop - start)) := by
  rw [cut, minus_of_le hstop, pure_bind, cutFrom_of_le hstart, pure_bind]

/-- A text can be cut at its end, but not behind it. -/
example : cut [0x5C] 1 1 = pure [] ∧ cut [0x5C] 2 2 = throw .cutBeyond := ⟨rfl, rfl⟩

/-! ## Loops -/

section Loop

variable {State Result : Type} {step : State → Guarded (State ⊕ Result)}

/-- Repeats a step from state to state until it gives a result, but no more than `limit` times. -/
def loop (step : State → Guarded (State ⊕ Result)) (limit : Nat) (state : State) : Guarded Result :=
  match limit with
  | 0 => throw .endless
  | limit + 1 => do
      match ← step state with
      | .inl next => loop step limit next
      | .inr result => pure result

/-- A step of a loop comes nearer to a result: it gives it, or it goes on from a state that has the same result
and less to go. -/
inductive Nearer (step : State → Guarded (State ⊕ Result)) (valid : State → Prop) (size : State → Nat)
    (result : State → Result) (state : State) : Prop
  | done (hstep : step state = pure (.inr (result state)))
  | next (next : State) (hstep : step state = pure (.inl next)) (hvalid : valid next)
      (hsize : size next < size state) (hresult : result next = result state)

/-- A loop answers if each of its steps comes nearer to the result and it may take a step for all there is to go
and one more. -/
theorem loop_eq_pure {valid : State → Prop} {size : State → Nat} {result : State → Result}
    (h : ∀ state, valid state → Nearer step valid size result state) {limit : Nat} {state : State}
    (hvalid : valid state) (hlimit : size state < limit) :
    loop step limit state = pure (result state) := by
  induction limit generalizing state with
  | zero => exact absurd hlimit (Nat.not_lt_zero _)
  | succ limit ih =>
      rw [loop]
      cases h state hvalid with
      | done hstep => rw [hstep, pure_bind]
      | next next hstep hnext hsize hresult =>
          rw [hstep, pure_bind, ← hresult]
          exact ih hnext (by omega)

/-- A loop that moves on through a text may take a step for each byte of the text and one more. -/
theorem loop_through_eq_pure {valid : State → Prop} {offset : State → Nat} {result : State → Result}
    (h : ∀ state, valid state → Nearer step valid (fun state => text.length - offset state) result state)
    {state : State} (hvalid : valid state) :
    loop step (text.length + 1) state = pure (result state) :=
  loop_eq_pure h hvalid (Nat.lt_succ_of_le (Nat.sub_le _ _))

end Loop

end Guarded

end RustLexer
