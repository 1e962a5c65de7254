import Mathlib.Data.List.Forall2
import RustLexer.Text.Rune

/-! # Decoding is local

The rune at the front of a text depends on the bytes it takes and, where they are malformed, on no more
than that they are. So the runes of a part of a source that starts and stops between runes are the runes
that the whole source has there (`runes_encode_take`, `runes_drop_of_runes`).
-/

namespace RustLexer

namespace Utf8

/-- What a lead calls for is the front of the text, with one byte in each range. -/
theorem tail?_eq_some_iff {ranges : List ByteRange} {text tail : Bytes} :
    tail? ranges text = some tail ↔
      List.Forall₂ (fun range byte => range.contains byte = true) ranges tail ∧ tail <+: text := by
  induction ranges generalizing text tail with
  | nil =>
      rw [tail?, List.forall₂_nil_left_iff]
      constructor
      · rintro ⟨⟩
        exact ⟨rfl, List.nil_prefix⟩
      · rintro ⟨rfl, -⟩
        rfl
  | cons range ranges ih =>
      cases text with
      | nil =>
          simp only [tail?, reduceCtorEq, List.prefix_nil, false_iff]
          rintro ⟨h, rfl⟩
          cases h
      | cons byte rest =>
          rw [tail?]
          constructor
          · intro h
            split at h
            next hbyte =>
              obtain ⟨found, hfound, rfl⟩ := Option.map_eq_some_iff.mp h
              obtain ⟨hin, hfront⟩ := ih.mp hfound
              exact ⟨.cons hbyte hin, List.cons_prefix_cons.mpr ⟨rfl, hfront⟩⟩
            next => cases h
          · rintro ⟨hin, hfront⟩
            cases hin with
            | cons hbyte hin =>
                obtain ⟨rfl, htail⟩ := List.cons_prefix_cons.mp hfront
                rw [if_pos hbyte, ih.mpr ⟨hin, htail⟩]
                rfl

/-- A tail needs no bytes but its own, and stays the tail whatever follows it. -/
theorem tail?_append {ranges : List ByteRange} {text tail : Bytes}
    (h : tail? ranges text = some tail) (more : Bytes) :
    tail? ranges (tail ++ more) = some tail :=
  tail?_eq_some_iff.mpr ⟨(tail?_eq_some_iff.mp h).1, List.prefix_append _ _⟩

/-- A tail that was found in a text is found in every longer text. -/
theorem tail?_of_prefix {ranges : List ByteRange} {front text tail : Bytes}
    (h : tail? ranges front = some tail) (hfront : front <+: text) :
    tail? ranges text = some tail :=
  have ⟨hin, htail⟩ := tail?_eq_some_iff.mp h
  tail?_eq_some_iff.mpr ⟨hin, htail.trans hfront⟩

end Utf8

namespace Rune

open Utf8

theorem first_eq_malformed {byte : UInt8} {rest : Bytes}
    (h : ∀ lead, lead? byte = some lead → tail? lead.tail rest = none) :
    first byte rest = malformed byte := by
  unfold first
  split
  · rfl
  next lead hlead => rw [h lead hlead]

theorem first_eq_sequence {byte : UInt8} {rest tail : Bytes} {lead : Lead}
    (hlead : lead? byte = some lead) (htail : tail? lead.tail rest = some tail) :
    first byte rest = ⟨scalar lead tail, byte :: tail⟩ := by
  simp [first, hlead, htail]

/-- What the first rune is: a malformed byte, or a well-formed sequence. -/
theorem first_cases (byte : UInt8) (rest : Bytes) :
    (first byte rest = malformed byte ∧
      ∀ lead, lead? byte = some lead → tail? lead.tail rest = none) ∨
    ∃ lead tail, lead? byte = some lead ∧ tail? lead.tail rest = some tail ∧
      first byte rest = ⟨scalar lead tail, byte :: tail⟩ := by
  by_cases h : ∀ lead, lead? byte = some lead → tail? lead.tail rest = none
  · exact Or.inl ⟨first_eq_malformed h, h⟩
  · obtain ⟨lead, h⟩ := Classical.not_forall.mp h
    obtain ⟨hlead, htail⟩ := Classical.not_imp.mp h
    obtain ⟨tail, htail⟩ := Option.ne_none_iff_exists'.mp htail
    exact Or.inr ⟨lead, tail, hlead, htail, first_eq_sequence hlead htail⟩

/-- The first rune is the same, and so is what follows it, when the text is cut off behind it. -/
theorem runes_first_append {byte : UInt8} {rest front : Bytes}
    (hfront : front <+: afterFirst byte rest) :
    runes ((first byte rest).bytes ++ front) = first byte rest :: runes front := by
  obtain ⟨hfirst, hnone⟩ | ⟨lead, tail, hlead, htail, hfirst⟩ := first_cases byte rest
  · have hshort : first byte front = malformed byte := by
      apply first_eq_malformed
      intro lead hlead
      have hrest : front <+: rest := by simpa [afterFirst, hfirst, malformed] using hfront
      -- A tail in the cut text would have been one in the whole text.
      refine Option.eq_none_iff_forall_ne_some.mpr fun tail htail => ?_
      have hwhole := tail?_of_prefix htail hrest
      rw [hnone lead hlead] at hwhole
      cases hwhole
    rw [hfirst, malformed, List.singleton_append, runes_cons, hshort]
    simp [afterFirst, hshort, malformed]
  · have hshort : first byte (tail ++ front) = ⟨scalar lead tail, byte :: tail⟩ :=
      first_eq_sequence hlead (tail?_append htail front)
    rw [hfirst, List.cons_append, runes_cons, hshort]
    simp [afterFirst, hshort]

end Rune

/-- A text is read rune by rune: what holds of the empty text, and of a text if it holds of what follows
its first rune, holds of every text. -/
theorem runes_induction {motive : Bytes → Prop} (nil : motive [])
    (cons : ∀ byte rest, motive (Rune.afterFirst byte rest) → motive (byte :: rest))
    (text : Bytes) : motive text := by
  induction hlen : text.length using Nat.strongRecOn generalizing text with
  | ind n ih =>
      cases text with
      | nil => exact nil
      | cons byte rest =>
          have hle := Rune.length_afterFirst_le byte rest
          simp only [List.length_cons] at hlen
          exact cons byte rest (ih _ (by omega) _ rfl)

/-- Reading the first runes of a source again gives the same runes. -/
theorem runes_encode_take (source : Bytes) (count : Nat) :
    runes (Rune.encode ((runes source).take count)) = (runes source).take count := by
  induction source using runes_induction generalizing count with
  | nil => simp
  | cons byte rest ih =>
      cases count with
      | zero => simp
      | succ count =>
          -- What is kept behind the first rune stands there in the source, so the rune stays whole.
          have hfront : Rune.encode ((runes (Rune.afterFirst byte rest)).take count) <+:
              Rune.afterFirst byte rest := by
            refine ⟨Rune.encode ((runes (Rune.afterFirst byte rest)).drop count), ?_⟩
            rw [← Rune.encode_append, List.take_append_drop, encode_runes]
          rw [runes_cons, List.take_succ_cons, Rune.encode_cons, Rune.runes_first_append hfront, ih]

/-- Reading a source from behind some of its runes gives the other runes. -/
theorem runes_encode_drop (source : Bytes) (count : Nat) :
    runes (Rune.encode ((runes source).drop count)) = (runes source).drop count := by
  induction source using runes_induction generalizing count with
  | nil => simp
  | cons byte rest ih =>
      cases count with
      | zero => rw [List.drop_zero, encode_runes]
      | succ count => rw [runes_cons, List.drop_succ_cons, ih]

/-- Where the runes of a source are split, its bytes are split too. -/
theorem eq_encode_append_of_runes {source : Bytes} {front back : List Rune}
    (h : runes source = front ++ back) : source = Rune.encode front ++ Rune.encode back := by
  rw [← Rune.encode_append, ← h, encode_runes]

theorem runes_drop_of_runes {source : Bytes} {front back : List Rune}
    (h : runes source = front ++ back) :
    runes (source.drop (Rune.encode front).length) = back := by
  have hback := runes_encode_drop source front.length
  rw [h, List.drop_left] at hback
  have hdrop : source.drop (Rune.encode front).length = Rune.encode back := by
    conv => lhs; rw [eq_encode_append_of_runes h, List.drop_left]
  rw [hdrop, hback]

/-! ## Widths -/

namespace Rune

@[simp] theorem width_nil : width [] = 0 := rfl

theorem width_cons (rune : Rune) (text : List Rune) :
    width (rune :: text) = rune.bytes.length + width text := by
  simp [width_eq_length_encode]

theorem width_append (front back : List Rune) : width (front ++ back) = width front + width back := by
  simp [width_eq_length_encode]

theorem width_runes (source : Bytes) : width (runes source) = source.length := by
  rw [width_eq_length_encode, encode_runes]

end Rune

end RustLexer
