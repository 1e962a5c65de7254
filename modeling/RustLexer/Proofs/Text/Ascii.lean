import RustLexer.Proofs.Text.Decoding
import RustLexer.Text.Lookahead

/-! # ASCII runes

UTF-8 keeps ASCII apart: a rune that was read from a text is one ASCII byte and stands for that byte, or
neither its character nor any of its bytes is ASCII (`decoded_of_mem_runes`). So a question about ASCII
characters, such as where the lines of a source end, has the same answer for its bytes and its runes.
-/

namespace RustLexer

namespace Utf8

/-- A tail with one byte in each of the given ranges. -/
abbrev InRanges (ranges : List ByteRange) (tail : Bytes) : Prop :=
  List.Forall₂ (fun range byte => range.contains byte = true) ranges tail

theorem contains_eq_true_iff {range : ByteRange} {byte : UInt8} :
    range.contains byte = true ↔
      range.first.toNat ≤ byte.toNat ∧ byte.toNat ≤ range.last.toNat := by
  simp [ByteRange.contains, UInt8.le_iff_toNat_le]

namespace InRanges

variable {tail : Bytes} {first second third : ByteRange}

theorem one (h : InRanges [first] tail) :
    ∃ a, tail = [a] ∧ first.first.toNat ≤ a.toNat ∧ a.toNat ≤ first.last.toNat := by
  obtain ⟨a, rest, ha, hrest, rfl⟩ := List.forall₂_cons_left_iff.mp h
  obtain rfl := List.forall₂_nil_left_iff.mp hrest
  exact ⟨a, rfl, contains_eq_true_iff.mp ha⟩

theorem two (h : InRanges [first, second] tail) :
    ∃ a b, tail = [a, b] ∧ (first.first.toNat ≤ a.toNat ∧ a.toNat ≤ first.last.toNat) ∧
      second.first.toNat ≤ b.toNat ∧ b.toNat ≤ second.last.toNat := by
  obtain ⟨a, rest, ha, hrest, rfl⟩ := List.forall₂_cons_left_iff.mp h
  obtain ⟨b, rfl, hb⟩ := one hrest
  exact ⟨a, b, rfl, contains_eq_true_iff.mp ha, hb⟩

theorem three (h : InRanges [first, second, third] tail) :
    ∃ a b c, tail = [a, b, c] ∧ (first.first.toNat ≤ a.toNat ∧ a.toNat ≤ first.last.toNat) ∧
      (second.first.toNat ≤ b.toNat ∧ b.toNat ≤ second.last.toNat) ∧
      third.first.toNat ≤ c.toNat ∧ c.toNat ≤ third.last.toNat := by
  obtain ⟨a, rest, ha, hrest, rfl⟩ := List.forall₂_cons_left_iff.mp h
  obtain ⟨b, c, rfl, hbc⟩ := two hrest
  exact ⟨a, b, c, rfl, contains_eq_true_iff.mp ha, hbc⟩

end InRanges

/-- The number that a sequence stands for. -/
def scalarValue (lead : Lead) (tail : Bytes) : Nat :=
  tail.foldl (fun value byte => value * 64 + (byte.toNat - 0x80)) lead.bits

/-- The ranges leave out overlong forms, surrogates and numbers above the last code point, so a sequence
with a lead outside ASCII stands for a character outside ASCII. -/
theorem scalarValue_valid {byte : UInt8} {lead : Lead} {tail : Bytes} (hbyte : 0x80 ≤ byte)
    (hlead : lead? byte = some lead) (htail : InRanges lead.tail tail) :
    (scalarValue lead tail).isValidChar ∧ 0x80 ≤ scalarValue lead tail := by
  rw [UInt8.le_iff_toNat_le] at hbyte
  simp only [lead?, UInt8.lt_iff_toNat_lt, ← UInt8.toNat_inj, UInt8.reduceToNat] at hbyte hlead
  -- The rows of the table of leads, in its order.
  split at hlead
  next => omega
  split at hlead
  next => cases hlead
  split at hlead
  next =>
    obtain rfl := Option.some.inj hlead
    obtain ⟨a, rfl, ha⟩ := htail.one
    simp only [continuation, UInt8.reduceToNat] at ha
    simp only [scalarValue, List.foldl_cons, List.foldl_nil, Nat.isValidChar]
    omega
  split at hlead
  next =>
    obtain rfl := Option.some.inj hlead
    obtain ⟨a, b, rfl, ha, hb⟩ := htail.two
    simp only [continuation, UInt8.reduceToNat] at ha hb
    simp only [scalarValue, List.foldl_cons, List.foldl_nil, Nat.isValidChar]
    omega
  split at hlead
  next =>
    obtain rfl := Option.some.inj hlead
    obtain ⟨a, b, rfl, ha, hb⟩ := htail.two
    simp only [continuation, UInt8.reduceToNat] at ha hb
    simp only [scalarValue, List.foldl_cons, List.foldl_nil, Nat.isValidChar]
    omega
  split at hlead
  next =>
    obtain rfl := Option.some.inj hlead
    obtain ⟨a, b, rfl, ha, hb⟩ := htail.two
    simp only [continuation, UInt8.reduceToNat] at ha hb
    simp only [scalarValue, List.foldl_cons, List.foldl_nil, Nat.isValidChar]
    omega
  split at hlead
  next =>
    obtain rfl := Option.some.inj hlead
    obtain ⟨a, b, c, rfl, ha, hb, hc⟩ := htail.three
    simp only [continuation, UInt8.reduceToNat] at ha hb hc
    simp only [scalarValue, List.foldl_cons, List.foldl_nil, Nat.isValidChar]
    omega
  split at hlead
  next =>
    obtain rfl := Option.some.inj hlead
    obtain ⟨a, b, c, rfl, ha, hb, hc⟩ := htail.three
    simp only [continuation, UInt8.reduceToNat] at ha hb hc
    simp only [scalarValue, List.foldl_cons, List.foldl_nil, Nat.isValidChar]
    omega
  split at hlead
  next =>
    obtain rfl := Option.some.inj hlead
    obtain ⟨a, b, c, rfl, ha, hb, hc⟩ := htail.three
    simp only [continuation, UInt8.reduceToNat] at ha hb hc
    simp only [scalarValue, List.foldl_cons, List.foldl_nil, Nat.isValidChar]
    omega
  next => cases hlead

/-- No byte behind a lead is ASCII. -/
theorem nonAscii_of_mem_tail {byte : UInt8} {lead : Lead} {tail : Bytes}
    (hlead : lead? byte = some lead) (htail : InRanges lead.tail tail) :
    ∀ other ∈ tail, 0x80 ≤ other := by
  have hranges : ∀ range ∈ lead.tail, 0x80 ≤ range.first := by
    unfold lead? at hlead
    repeat' split at hlead
    all_goals simp only [Option.some.injEq, reduceCtorEq] at hlead
    all_goals
      subst hlead
      simp [continuation]
  intro other hother
  obtain ⟨index, hindex, rfl⟩ := List.mem_iff_getElem.mp hother
  have hrange : index < lead.tail.length := htail.length_eq ▸ hindex
  have hcontains := htail.get hrange hindex
  rw [contains_eq_true_iff, ← UInt8.le_iff_toNat_le] at hcontains
  exact UInt8.le_trans (hranges _ (List.getElem_mem hrange)) hcontains.1

end Utf8

namespace Rune

/-- The runes that texts are read as: an ASCII byte, or a character outside ASCII with bytes outside
ASCII, one at least. -/
inductive Decoded : Rune → Prop
  | ascii {byte : UInt8} (hbyte : byte < 0x80) : Decoded ⟨Char.ofNat byte.toNat, [byte]⟩
  | wide {char : Char} {byte : UInt8} {tail : Bytes} (hchar : 0x80 ≤ char.toNat)
      (hbytes : ∀ other ∈ byte :: tail, 0x80 ≤ other) : Decoded ⟨char, byte :: tail⟩

theorem toNat_ofNat_of_ascii {byte : UInt8} (hbyte : byte < 0x80) :
    (Char.ofNat byte.toNat).toNat = byte.toNat := by
  rw [UInt8.lt_iff_toNat_lt] at hbyte
  have hvalid : byte.toNat.isValidChar := Or.inl (Nat.lt_trans hbyte (by decide))
  rw [Char.ofNat, dif_pos hvalid]
  rfl

theorem first_of_ascii {byte : UInt8} (hbyte : byte < 0x80) (rest : Bytes) :
    first byte rest = ⟨Char.ofNat byte.toNat, [byte]⟩ := by
  have hlead : Utf8.lead? byte = some ⟨byte.toNat, []⟩ := by rw [Utf8.lead?, if_pos hbyte]
  have htail : Utf8.tail? [] rest = some [] := rfl
  exact first_eq_sequence hlead htail

theorem afterFirst_of_ascii {byte : UInt8} (hbyte : byte < 0x80) (rest : Bytes) :
    afterFirst byte rest = rest := by
  simp [afterFirst, first_of_ascii hbyte]

/-- A rune that starts with a byte outside ASCII is outside ASCII altogether. -/
theorem first_of_nonAscii {byte : UInt8} (hbyte : 0x80 ≤ byte) (rest : Bytes) :
    ∃ char tail, first byte rest = ⟨char, byte :: tail⟩ ∧ 0x80 ≤ char.toNat ∧
      ∀ other ∈ tail, 0x80 ≤ other := by
  obtain ⟨hfirst, -⟩ | ⟨lead, tail, hlead, htail, hfirst⟩ := first_cases byte rest
  · exact ⟨'\uFFFD', [], hfirst, by decide, by simp⟩
  · have hin : Utf8.InRanges lead.tail tail := (Utf8.tail?_eq_some_iff.mp htail).1
    obtain ⟨hvalid, hvalue⟩ := Utf8.scalarValue_valid hbyte hlead hin
    refine ⟨_, tail, hfirst, ?_, Utf8.nonAscii_of_mem_tail hlead hin⟩
    change 0x80 ≤ (Char.ofNat (Utf8.scalarValue lead tail)).toNat
    rw [Char.ofNat, dif_pos hvalid]
    exact hvalue

theorem first_decoded (byte : UInt8) (rest : Bytes) : (first byte rest).Decoded := by
  by_cases hbyte : byte < 0x80
  · rw [first_of_ascii hbyte]
    exact .ascii hbyte
  · have hbyte : 0x80 ≤ byte := UInt8.not_lt.mp hbyte
    obtain ⟨char, tail, hfirst, hchar, htail⟩ := first_of_nonAscii hbyte rest
    rw [hfirst]
    exact .wide hchar (List.forall_mem_cons.mpr ⟨hbyte, htail⟩)

end Rune

/-- Every text is read as ASCII bytes and characters outside ASCII. -/
theorem decoded_of_mem_runes {source : Bytes} : ∀ rune ∈ runes source, rune.Decoded := by
  induction source using runes_induction with
  | nil => simp
  | cons byte rest ih =>
      rw [runes_cons]
      exact List.forall_mem_cons.mpr ⟨Rune.first_decoded byte rest, ih⟩

namespace Rune.Decoded

theorem bytes_ne_nil {rune : Rune} (h : rune.Decoded) : rune.bytes ≠ [] := by
  cases h <;> simp

theorem length_bytes_pos {rune : Rune} (h : rune.Decoded) : 0 < rune.bytes.length :=
  List.length_pos_iff.mpr h.bytes_ne_nil

/-- A rune inside ASCII is the byte of its character. -/
theorem bytes_of_ascii {rune : Rune} (h : rune.Decoded) (hascii : rune.char.toNat < 0x80) :
    rune.bytes = [rune.char.toUInt8] := by
  cases h with
  | @ascii byte hbyte =>
      have hcode : (Char.ofNat byte.toNat).toUInt8 = byte := by
        rw [← UInt8.toNat_inj, Char.toUInt8, UInt32.toNat_toUInt8]
        change (Char.ofNat byte.toNat).toNat % 2 ^ 8 = byte.toNat
        rw [toNat_ofNat_of_ascii hbyte]
        exact Nat.mod_eq_of_lt byte.toNat_lt
      rw [hcode]
  | wide hwide _ => exact absurd hascii (Nat.not_lt.mpr hwide)

theorem bytes_of_newline {rune : Rune} (h : rune.Decoded) (hchar : rune.char = '\n') :
    rune.bytes = [0x0A] := by
  have hascii : rune.char.toNat < 0x80 := by
    rw [hchar]
    decide
  rw [h.bytes_of_ascii hascii, hchar]
  rfl

/-- No other rune holds that byte. -/
theorem newline_notMem_bytes {rune : Rune} (h : rune.Decoded) (hchar : rune.char ≠ '\n') :
    0x0A ∉ rune.bytes := by
  intro hmem
  cases h with
  | ascii _ =>
      obtain rfl := List.mem_singleton.mp hmem
      exact hchar rfl
  | wide _ hbytes => exact absurd (hbytes _ hmem) (by decide)

theorem count_newline_bytes {rune : Rune} (h : rune.Decoded) :
    rune.bytes.count 0x0A = if rune.char = '\n' then 1 else 0 := by
  split
  next hchar =>
    rw [h.bytes_of_newline hchar]
    decide
  next hchar => exact List.count_eq_zero.mpr (h.newline_notMem_bytes hchar)

end Rune.Decoded

/-- Where the bytes of some runes are ASCII, there are as many of both. -/
theorem Rune.length_of_ascii {front : List Rune} (hdecoded : ∀ rune ∈ front, rune.Decoded)
    (hascii : ∀ byte ∈ encode front, byte < 0x80) : front.length = (encode front).length := by
  induction front with
  | nil => rfl
  | cons rune front ih =>
      obtain ⟨hrune, hfront⟩ := List.forall_mem_cons.mp hdecoded
      rw [encode_cons] at hascii ⊢
      obtain ⟨hbytes, hrest⟩ := List.forall_mem_append.mp hascii
      rw [List.length_append, List.length_cons, ih hfront hrest]
      cases hrune with
      | ascii => exact Nat.add_comm _ 1
      | @wide char byte tail _ hwide =>
          have hhigh := hwide byte List.mem_cons_self
          exact absurd (hbytes byte List.mem_cons_self) (UInt8.not_lt.mpr hhigh)

theorem toNat_toUInt8_of_ascii {char : Char} (hchar : char.toNat < 0x80) :
    char.toUInt8.toNat = char.toNat := by
  rw [Char.toUInt8, UInt32.toNat_toUInt8]
  exact Nat.mod_eq_of_lt (Nat.lt_trans hchar (by decide))

theorem toUInt8_lt_of_ascii {char : Char} (hchar : char.toNat < 0x80) : char.toUInt8 < 0x80 := by
  rw [UInt8.lt_iff_toNat_lt, toNat_toUInt8_of_ascii hchar]
  exact hchar

namespace Rune

/-- The first rune is an ASCII character if the first byte is. -/
theorem char_first_eq_iff {char : Char} (hchar : char.toNat < 0x80) (byte : UInt8) (rest : Bytes) :
    (first byte rest).char = char ↔ char.toUInt8 = byte := by
  constructor
  · rintro rfl
    by_cases hbyte : byte < 0x80
    · rw [← UInt8.toNat_inj, toNat_toUInt8_of_ascii hchar, first_of_ascii hbyte,
        toNat_ofNat_of_ascii hbyte]
    · obtain ⟨found, tail, hfirst, hfound, -⟩ := first_of_nonAscii (UInt8.not_lt.mp hbyte) rest
      rw [hfirst] at hchar
      exact absurd hchar (Nat.not_lt.mpr hfound)
  · rintro rfl
    rw [first_of_ascii (toUInt8_lt_of_ascii hchar), toNat_toUInt8_of_ascii hchar, Char.ofNat_toNat]

end Rune

/-- That some characters are ASCII is checked on the list of them. -/
theorem forall_ascii_of_all {chars : List Char}
    (h : chars.all (fun char => char.toNat < 0x80) = true) :
    ∀ char ∈ chars, char.toNat < 0x80 := by
  simpa using h

theorem Bytes.ascii_ofAscii {text : String}
    (h : text.toList.all (fun char => char.toNat < 0x80) = true) :
    ∀ byte ∈ Bytes.ofAscii text, byte < 0x80 := by
  intro byte hbyte
  obtain ⟨char, hchar, rfl⟩ := List.mem_map.mp hbyte
  exact toUInt8_lt_of_ascii (forall_ascii_of_all h char hchar)

namespace Rune

/-- A rune is ASCII if and only if its bytes are. -/
theorem Decoded.ascii_iff {rune : Rune} (h : rune.Decoded) :
    (∀ byte ∈ rune.bytes, byte < 0x80) ↔ rune.char.toNat < 0x80 := by
  cases h with
  | @ascii byte hbyte =>
      rw [toNat_ofNat_of_ascii hbyte]
      exact iff_of_true (by simpa using hbyte) (UInt8.lt_iff_toNat_lt.mp hbyte)
  | @wide char byte tail hchar hbytes =>
      refine iff_of_false ?_ (Nat.not_lt.mpr hchar)
      intro hall
      have hbyte := hall byte List.mem_cons_self
      exact absurd hbyte (UInt8.not_lt.mpr (hbytes byte List.mem_cons_self))

theorem encode_ascii_iff {text : List Rune} (hdecoded : ∀ rune ∈ text, rune.Decoded) :
    (∀ byte ∈ encode text, byte < 0x80) ↔ ∀ rune ∈ text, rune.char.toNat < 0x80 := by
  rw [encode, List.forall_mem_flatMap]
  exact forall₂_congr fun rune hrune => (hdecoded rune hrune).ascii_iff

end Rune

/-- Runes have the bytes of an ASCII text if and only if they have its characters. -/
theorem Rune.encode_eq_map_iff {text : List Rune} (hdecoded : ∀ rune ∈ text, rune.Decoded)
    {chars : List Char} (hascii : ∀ char ∈ chars, char.toNat < 0x80) :
    encode text = chars.map Char.toUInt8 ↔ text.map Rune.char = chars := by
  induction text generalizing chars with
  | nil =>
      rw [encode_nil, List.map_nil, eq_comm, List.map_eq_nil_iff, eq_comm]
  | cons rune text ih =>
      obtain ⟨hrune, htext⟩ := List.forall_mem_cons.mp hdecoded
      cases chars with
      | nil => simp [hrune.bytes_ne_nil]
      | cons char chars =>
          obtain ⟨hchar, hchars⟩ := List.forall_mem_cons.mp hascii
          have hrest := ih htext hchars
          cases hrune with
          | @ascii byte hbyte =>
              have hfirst := char_first_eq_iff hchar byte []
              rw [first_of_ascii hbyte] at hfirst
              rw [encode_cons, List.singleton_append, List.map_cons, List.map_cons, List.cons.injEq,
                List.cons.injEq, hrest, hfirst, eq_comm (a := byte)]
          | @wide found byte tail hfound hbytes =>
              have hbyte : byte ≠ char.toUInt8 := by
                intro hsame
                have hwide := hbytes byte List.mem_cons_self
                rw [hsame] at hwide
                exact absurd (toUInt8_lt_of_ascii hchar) (UInt8.not_lt.mpr hwide)
              have hother : found ≠ char := by
                rintro rfl
                exact absurd hchar (Nat.not_lt.mpr hfound)
              rw [encode_cons, List.cons_append, List.map_cons, List.map_cons, List.cons.injEq,
                List.cons.injEq]
              exact ⟨fun h => absurd h.1 hbyte, fun h => absurd h.1 hother⟩

/-- Looking for ASCII characters ahead is looking for their bytes. -/
theorem startsWith_runes_iff {chars : List Char} (hascii : ∀ char ∈ chars, char.toNat < 0x80)
    (source : Bytes) :
    startsWith (runes source) chars = true ↔ chars.map Char.toUInt8 <+: source := by
  induction chars generalizing source with
  | nil => simp [startsWith]
  | cons char chars ih =>
      obtain ⟨hchar, hchars⟩ := List.forall_mem_cons.mp hascii
      cases source with
      | nil => simp [startsWith]
      | cons byte rest =>
          rw [runes_cons, startsWith, List.map_cons, List.cons_prefix_cons, Bool.and_eq_true,
            beq_iff_eq, ih hchars, Rune.char_first_eq_iff hchar]
          constructor
          · rintro ⟨rfl, hfront⟩
            rw [Rune.afterFirst_of_ascii (toUInt8_lt_of_ascii hchar)] at hfront
            exact ⟨rfl, hfront⟩
          · rintro ⟨rfl, hfront⟩
            rw [Rune.afterFirst_of_ascii (toUInt8_lt_of_ascii hchar)]
            exact ⟨rfl, hfront⟩

/-- A sequence that is not complete before an ASCII byte is not completed by it or behind it. -/
theorem Utf8.tail?_append_ascii {byte ascii : UInt8} {lead : Lead} {front : Bytes}
    (hlead : lead? byte = some lead) (hascii : ascii < 0x80) (hnone : tail? lead.tail front = none)
    (rest : Bytes) : tail? lead.tail (front ++ ascii :: rest) = none := by
  rw [Option.eq_none_iff_forall_ne_some]
  intro tail htail
  obtain ⟨hin, htail⟩ := tail?_eq_some_iff.mp htail
  rcases Nat.lt_or_ge front.length tail.length with hlong | hshort
  · have hwith : front ++ [ascii] <+: front ++ ascii :: rest :=
      (List.prefix_append_right_inj front).mpr (List.prefix_append [ascii] rest)
    have hfront : front ++ [ascii] <+: tail :=
      List.prefix_of_prefix_length_le hwith htail (by simpa using Nat.succ_le_of_lt hlong)
    have hmem : ascii ∈ tail := hfront.subset (by simp)
    have hwide := nonAscii_of_mem_tail hlead hin ascii hmem
    exact absurd hascii (UInt8.not_lt.mpr hwide)
  · have hfront := List.prefix_of_prefix_length_le htail (List.prefix_append front _) hshort
    rw [tail?_eq_some_iff.mpr ⟨hin, hfront⟩] at hnone
    cases hnone

/-- An ASCII byte stands for itself wherever it is, so a text can be read up to one and on from there. -/
theorem runes_append_ascii (front : Bytes) {ascii : UInt8} (hascii : ascii < 0x80) (rest : Bytes) :
    runes (front ++ ascii :: rest) = runes front ++ runes (ascii :: rest) := by
  induction front using runes_induction with
  | nil => simp
  | cons byte front ih =>
      have hfirst : Rune.first byte (front ++ ascii :: rest) = Rune.first byte front := by
        obtain ⟨hfirst, hnone⟩ | ⟨lead, tail, hlead, htail, hfirst⟩ := Rune.first_cases byte front
        · rw [hfirst]
          apply Rune.first_eq_malformed
          intro lead hlead
          exact Utf8.tail?_append_ascii hlead hascii (hnone lead hlead) rest
        · rw [hfirst]
          exact Rune.first_eq_sequence hlead (Utf8.tail?_of_prefix htail (List.prefix_append _ _))
      have hafter : Rune.afterFirst byte (front ++ ascii :: rest) =
          Rune.afterFirst byte front ++ ascii :: rest := by
        have hwhole := Rune.first_append_afterFirst byte (front ++ ascii :: rest)
        rw [hfirst, ← List.cons_append, ← Rune.first_append_afterFirst byte front,
          List.append_assoc] at hwhole
        exact List.append_cancel_left hwhole
      rw [List.cons_append, runes_cons, runes_cons, hfirst, hafter, ih, List.cons_append]

theorem runes_take_append_drop {text : Bytes} {n : Nat} {byte : UInt8} (h : text[n]? = some byte)
    (hascii : byte < 0x80) : runes text = runes (text.take n) ++ runes (text.drop n) := by
  obtain ⟨hlt, rfl⟩ := List.getElem?_eq_some_iff.mp h
  have hdrop := List.drop_eq_getElem_cons hlt
  rw [hdrop, ← runes_append_ascii _ hascii, ← hdrop, List.take_append_drop]

/-- An ASCII byte in the part of a text that its first runes take is where one of them starts. -/
theorem exists_index_of_ascii {text : Bytes} {n count : Nat} {byte : UInt8}
    (h : text[n]? = some byte) (hascii : byte < 0x80)
    (hlt : n < Rune.width ((runes text).take count)) :
    ∃ index < count, (runes text).drop index = runes (text.drop n) := by
  have hsplit := runes_take_append_drop h hascii
  refine ⟨(runes (text.take n)).length, ?_, by rw [hsplit, List.drop_left]⟩
  by_contra hle
  -- Otherwise the first runes take no more than the bytes before that one.
  rw [hsplit, List.take_append_of_le_length (Nat.le_of_not_lt hle),
    Rune.width_eq_length_encode] at hlt
  have hfront := congrArg List.length (encode_runes (text.take n))
  rw [← List.take_append_drop count (runes (text.take n)), Rune.encode_append, List.length_append,
    List.length_take] at hfront
  omega

/-! ## ASCII fronts -/

variable {text : List Rune} {count : Nat}

/-- The first runes of a text are ASCII. -/
def IsAsciiFront (text : List Rune) (count : Nat) : Prop :=
  ∀ rune ∈ text.take count, rune.char.toNat < 0x80

namespace IsAsciiFront

theorem zero (text : List Rune) : IsAsciiFront text 0 := by
  simp [IsAsciiFront]

theorem one {rune : Rune} (h : rune.char.toNat < 0x80) (rest : List Rune) :
    IsAsciiFront (rune :: rest) 1 := by
  simpa [IsAsciiFront] using h

theorem add {more : Nat} (hfront : IsAsciiFront text count)
    (hmore : IsAsciiFront (text.drop count) more) : IsAsciiFront text (count + more) := by
  rw [IsAsciiFront, List.take_add]
  exact List.forall_mem_append.mpr ⟨hfront, hmore⟩

theorem mono {less : Nat} (h : IsAsciiFront text count) (hle : less ≤ count) :
    IsAsciiFront text less := by
  intro rune hrune
  exact h rune ((List.take_subset_take_left text hle) hrune)

theorem of_startsWith {mark : List Char} (hmark : ∀ char ∈ mark, char.toNat < 0x80)
    (h : startsWith text mark = true) : IsAsciiFront text mark.length := by
  induction mark generalizing text with
  | nil => exact zero text
  | cons char mark ih =>
      cases text with
      | nil => cases h
      | cons rune rest =>
          obtain ⟨hchar, hothers⟩ := List.forall_mem_cons.mp hmark
          rw [startsWith, Bool.and_eq_true, beq_iff_eq] at h
          have hrune : rune.char.toNat < 0x80 := by
            rw [h.1]
            exact hchar
          exact List.forall_mem_cons.mpr ⟨hrune, ih hothers h.2⟩

theorem run {inClass : Rune → Bool}
    (hclass : ∀ rune : Rune, inClass rune = true → rune.char.toNat < 0x80) (text : List Rune) :
    IsAsciiFront text (runLength inClass text) := by
  intro rune hrune
  rw [runLength, ← List.prefix_iff_eq_take.mp (List.takeWhile_prefix inClass)] at hrune
  exact hclass rune (List.all_eq_true.mp List.all_takeWhile rune hrune)

/-- Runes and bytes of an ASCII front are counted alike. -/
theorem length_encode_take (hdecoded : ∀ rune ∈ text, rune.Decoded) (hle : count ≤ text.length)
    (h : IsAsciiFront text count) : (Rune.encode (text.take count)).length = count := by
  have hfront : ∀ rune ∈ text.take count, rune.Decoded :=
    fun rune hrune => hdecoded rune (List.mem_of_mem_take hrune)
  have hbytes := (Rune.encode_ascii_iff hfront).mpr h
  rw [← Rune.length_of_ascii hfront hbytes]
  exact List.length_take_of_le hle

end IsAsciiFront

end RustLexer
