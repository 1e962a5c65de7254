import RustLexer.Proofs.Checker.Closing
import RustLexer.Proofs.LineFeed.Cut

/-! # Raw strings of bytes

The opening delimiter of a raw string is ASCII, so the lexer and the checker look for the closing one
from the same place on and find the same. A raw string of bytes without a fault is then ASCII from end to
end.
-/

namespace RustLexer.RawString

variable {text : List Rune} {source : Bytes}

/-- The `#` signs that are counted are ASCII, and so is what stands behind them: a quote, or a `#` sign
that is not counted. -/
theorem hashes?_isAscii {hashes : UInt32} (h : hashes? text = some hashes) :
    IsAsciiFront text (hashes.toNat + 1) := by
  simp only [hashes?, Option.ite_none_right_eq_some, Option.some.injEq] at h
  obtain ⟨hquote, hcount⟩ := h
  have hhash : ∀ rune : Rune, isHash rune = true → rune.char.toNat < 0x80 := by
    intro rune hrune
    rw [eq_of_beq hrune]
    decide
  have hdelimiter := (IsAsciiFront.run hhash text).add
    (.of_startsWith (forall_ascii_of_all rfl) hquote)
  -- The count is kept in a word, so it may be smaller than the run.
  have hle : hashes.toNat ≤ runLength isHash text := by
    rw [← hcount, UInt32.toNat_ofNat']
    exact Nat.mod_le _ _
  exact hdelimiter.mono (Nat.succ_le_succ hle)

/-- The runes up to where the body of a raw string starts are ASCII. -/
theorem opening_isAscii {mark : List Char} (hmark : ∀ char ∈ mark, char.toNat < 0x80)
    (hstart : startsWith text mark = true) {hashes : UInt32}
    (h : hashes? (text.drop mark.length) = some hashes) :
    IsAsciiFront text (mark.length + hashes.toNat + 1) := by
  rw [Nat.add_assoc]
  exact (IsAsciiFront.of_startsWith hmark hstart).add (hashes?_isAscii h)

/-- Where runes are ASCII, a source is split at the same number of bytes. -/
theorem drop_of_ascii {count : Nat} (hle : count ≤ (runes source).length)
    (h : IsAsciiFront (runes source) count) :
    source.drop count = Rune.encode ((runes source).drop count) ∧
      ∀ byte ∈ source.take count, byte < 0x80 := by
  have hlength := h.length_encode_take decoded_of_mem_runes hle
  have hsource := eq_encode_append_of_runes (List.take_append_drop count (runes source)).symm
  have hbytes : ∀ byte ∈ Rune.encode ((runes source).take count), byte < 0x80 := by
    refine (Rune.encode_ascii_iff fun rune hrune => ?_).mpr h
    exact decoded_of_mem_runes rune (List.mem_of_mem_take hrune)
  have hdrop : source.drop count = Rune.encode ((runes source).drop count) := by
    conv => lhs; rw [hsource]
    exact List.drop_left' hlength
  have htake : source.take count = Rune.encode ((runes source).take count) := by
    conv => lhs; rw [hsource]
    exact List.take_left' hlength
  rw [htake]
  exact ⟨hdrop, hbytes⟩

/-- A body without a fault is ASCII. -/
theorem bodyFault?_isAscii {literal : LiteralKind} (hliteral : literal.isByte = true) {offset : Nat}
    (h : bodyFault? literal offset (runes source) = none) : ∀ byte ∈ source, byte < 0x80 := by
  rw [bodyFault?, Option.map_eq_none_iff, findSuffix?_eq_none_iff] at h
  have hascii : ∀ rune ∈ runes source, rune.char.toNat < 0x80 := by
    intro rune hrune
    obtain ⟨index, hindex, rfl⟩ := List.mem_iff_getElem.mp hrune
    have hnone := h index (Nat.le_of_lt hindex)
    rw [atFault, hliteral, Bool.true_and, Bool.or_eq_false_iff,
      List.drop_eq_getElem_cons hindex] at hnone
    have hplain : (runes source)[index].isNonAscii = false := hnone.1
    rw [Rune.isNonAscii, decide_eq_false_iff_not, Nat.not_le] at hplain
    exact hplain
  have hbytes := (Rune.encode_ascii_iff decoded_of_mem_runes).mpr hascii
  rw [encode_runes] at hbytes
  exact hbytes

/-- A closed raw string of bytes without a fault is ASCII. -/
theorem isAscii_of_fault?_eq_none {hashes : UInt32}
    (hmark : startsWith (runes source) ['b', 'r'] = true)
    (hhashes : hashes? ((runes source).drop 2) = some hashes)
    (hclosed : (extent 2 hashes.toNat (runes source)).terminated = true)
    (h : fault? .rawByteString hashes.toNat source = none) : ∀ byte ∈ source, byte < 0x80 := by
  have hopening : 2 + hashes.toNat + 1 ≤ (runes source).length := opening_le hhashes
  obtain ⟨hdrop, hfront⟩ := drop_of_ascii hopening
    (opening_isAscii (forall_ascii_of_all rfl) hmark hhashes)
  generalize hcount : 2 + hashes.toNat + 1 = opening at hopening hdrop hfront
  have hfound : findSuffix? (atClosing hashes.toNat) ((runes source).drop opening) ≠ none := by
    intro hnone
    simp only [extent, hcount, hnone, Bool.false_eq_true] at hclosed
  have hcontent : runes (source.drop opening) = (runes source).drop opening := by
    rw [hdrop, runes_encode_drop]
  obtain ⟨body, hbody⟩ := Option.ne_none_iff_exists'.mp hfound
  obtain ⟨length, hindex⟩ : ∃ length,
      Bytes.indexOf? (closing hashes.toNat) (source.drop opening) = some length := by
    rw [indexOf?_closing, hcontent, hbody]
    exact ⟨_, rfl⟩
  simp only [fault?, LiteralKind.isByte, if_true, hcount, hindex] at h
  split at h
  next => cases h
  next hbody =>
    obtain ⟨hle, hhere, -⟩ := findSuffix?_eq_some_iff.mp hindex
    obtain ⟨tail, htail⟩ := List.isPrefixOf_iff_prefix.mp hhere
    have hinside := bodyFault?_isAscii rfl hbody
    have hsource : source = source.take opening ++
        ((source.drop opening).take length ++ (closing hashes.toNat ++ tail)) := by
      rw [htail, List.take_append_drop, List.take_append_drop]
    -- Nothing follows the closing delimiter, or it would be reported as a suffix.
    have hnil : tail = [] := by
      have hlength := congrArg List.length htail
      simp only [closing, List.length_append, List.length_cons, List.length_replicate,
        List.length_drop] at hlength
      simp only [ite_eq_right_iff, reduceCtorEq, imp_false, Nat.not_lt] at h
      rw [List.length_drop] at hle
      apply List.length_eq_zero_iff.mp
      omega
    subst hnil
    rw [hsource, List.append_nil]
    exact List.forall_mem_append.mpr
      ⟨hfront, List.forall_mem_append.mpr ⟨hinside, closing_isAscii⟩⟩

end RustLexer.RawString
