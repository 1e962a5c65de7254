import RustLexer.Checker.RawString
import RustLexer.Proofs.Lexer.Reach

/-! # Looking for the closing delimiter

The lexer looks for the closing delimiter of a raw string rune by rune and the checker byte by byte. The
delimiter is ASCII and no byte of a wide rune is, so an occurrence never starts inside a rune, and both
searches stop at the same place (`RawString.indexOf?_closing`), the first there is
(`RawString.FirstCloses`). The same holds of carriage returns that stand alone
(`findSuffix?_atBareReturn_eq_none_iff`).
-/

namespace RustLexer

/-- A search passes over a front in which it does not stop. -/
theorem findSuffix?_append_of_forall {α : Type} {stop : List α → Bool} {front : List α}
    (back : List α) (h : ∀ n < front.length, stop ((front ++ back).drop n) = false) :
    findSuffix? stop (front ++ back) = (findSuffix? stop back).map (front.length + ·) := by
  induction front with
  | nil => simp
  | cons a front ih =>
      have hhere : stop (a :: (front ++ back)) = false := h 0 (Nat.zero_lt_succ _)
      have hfront := ih fun n hn => h (n + 1) (Nat.succ_lt_succ hn)
      rw [List.cons_append, findSuffix?_cons, if_neg (Bool.eq_false_iff.mp hhere), hfront,
        Option.map_map]
      congr 1
      funext n
      simp only [Function.comp_apply, List.length_cons]
      omega

/-- An ASCII text is read byte by byte, whatever stands behind it. -/
theorem runes_append_of_ascii {front : Bytes} (hascii : ∀ byte ∈ front, byte < 0x80) (rest : Bytes) :
    runes (front ++ rest) = runes front ++ runes rest := by
  induction front with
  | nil => simp
  | cons byte front ih =>
      obtain ⟨hbyte, hfront⟩ := List.forall_mem_cons.mp hascii
      rw [List.cons_append, runes_cons, runes_cons, Rune.first_of_ascii hbyte,
        Rune.first_of_ascii hbyte, Rune.afterFirst_of_ascii hbyte, Rune.afterFirst_of_ascii hbyte,
        ih hfront, List.cons_append]

theorem length_runes_of_ascii {text : Bytes} (hascii : ∀ byte ∈ text, byte < 0x80) :
    (runes text).length = text.length := by
  rw [← encode_runes text] at hascii
  rw [Rune.length_of_ascii decoded_of_mem_runes hascii, encode_runes]

/-- Only the first byte of a rune can be ASCII. -/
theorem Rune.Decoded.nonAscii_of_succ {rune : Rune} (h : rune.Decoded) {n : Nat}
    (hn : n + 1 < rune.bytes.length) : 0x80 ≤ rune.bytes[n + 1] := by
  cases h with
  | ascii => simp at hn
  | wide _ hbytes => exact hbytes _ (List.getElem_mem hn)

namespace RawString

variable {hashes : Nat} {source : Bytes}

/-! ## The delimiter -/

theorem length_closing (hashes : Nat) : (closing hashes).length = hashes + 1 := by
  rw [closing, List.length_cons, List.length_replicate]

theorem startsWith_replicate_iff {text : List Rune} :
    startsWith text (List.replicate hashes '#') = true ↔ hashes ≤ runLength isHash text := by
  induction hashes generalizing text with
  | zero => simp [startsWith]
  | succ hashes ih =>
      cases text with
      | nil => simp [startsWith, runLength, List.replicate_succ]
      | cons rune rest =>
          rw [List.replicate_succ, startsWith, Bool.and_eq_true, ih]
          by_cases hrune : isHash rune = true
          · rw [runLength, runLength, List.takeWhile_cons_of_pos hrune, List.length_cons,
              Nat.succ_le_succ_iff]
            exact and_iff_right hrune
          · rw [runLength, runLength, List.takeWhile_cons_of_neg hrune]
            exact iff_of_false (fun h => hrune h.1) (Nat.not_succ_le_zero _)

/-- The closing delimiter has the same bytes as runes. -/
theorem startsWith_closing_iff :
    startsWith (runes source) ('"' :: List.replicate hashes '#') = true ↔
      closing hashes <+: source := by
  have hascii : ∀ char ∈ '"' :: List.replicate hashes '#', char.toNat < 0x80 := by
    refine List.forall_mem_cons.mpr ⟨by decide, fun char hmem => ?_⟩
    rw [List.eq_of_mem_replicate hmem]
    decide
  rw [startsWith_runes_iff hascii, List.map_cons, List.map_replicate, closing]

theorem closing_isAscii : ∀ byte ∈ closing hashes, byte < 0x80 := by
  refine List.forall_mem_cons.mpr ⟨by decide, fun byte hmem => ?_⟩
  rw [List.eq_of_mem_replicate hmem]
  decide

/-- The closing delimiter comes next among the runes if and only if it does among the bytes. -/
theorem atClosing_iff : atClosing hashes (runes source) = true ↔ closing hashes <+: source := by
  rw [← startsWith_closing_iff, atClosing]
  cases runes source with
  | nil => simp [startsWith]
  | cons quote rest => simp [startsWith, startsWith_replicate_iff]

/-! ## The search -/

/-- No closing delimiter starts at a byte outside ASCII. -/
theorem not_closing_isPrefix {byte : UInt8} (hbyte : 0x80 ≤ byte) (rest : Bytes) :
    ¬ closing hashes <+: byte :: rest := by
  rw [closing, List.cons_prefix_cons]
  rintro ⟨rfl, -⟩
  exact absurd hbyte (by decide)

/-- The search among the bytes finds the place that the search among the runes finds. -/
theorem indexOf?_closing (hashes : Nat) (source : Bytes) :
    Bytes.indexOf? (closing hashes) source =
      (findSuffix? (atClosing hashes) (runes source)).map fun count =>
        Rune.width ((runes source).take count) := by
  unfold Bytes.indexOf?
  induction source using runes_induction with
  | nil =>
      rw [runes_nil, findSuffix?_nil, findSuffix?_nil]
      rfl
  | cons byte rest ih =>
      by_cases hhere : closing hashes <+: byte :: rest
      · have hstop := atClosing_iff.mpr hhere
        rw [runes_cons] at hstop ⊢
        rw [findSuffix?_cons, findSuffix?_cons, if_pos (List.isPrefixOf_iff_prefix.mpr hhere),
          if_pos hstop]
        rfl
      · have hpassed : atClosing hashes (runes (byte :: rest)) ≠ true := mt atClosing_iff.mp hhere
        -- A delimiter that started inside the first rune would start with a byte outside ASCII.
        have hinside : ∀ n < (Rune.first byte rest).bytes.length,
            (closing hashes).isPrefixOf
              (((Rune.first byte rest).bytes ++ Rune.afterFirst byte rest).drop n) = false := by
          intro n hn
          rw [Bool.eq_false_iff, ne_eq, List.isPrefixOf_iff_prefix]
          cases n with
          | zero =>
              rw [List.drop_zero, Rune.first_append_afterFirst]
              exact hhere
          | succ n =>
              rw [List.drop_append_of_le_length (Nat.le_of_lt hn), List.drop_eq_getElem_cons hn,
                List.cons_append]
              exact not_closing_isPrefix ((Rune.first_decoded byte rest).nonAscii_of_succ hn) _
        have hbytes := findSuffix?_append_of_forall (Rune.afterFirst byte rest) hinside
        rw [Rune.first_append_afterFirst] at hbytes
        rw [runes_cons] at hpassed ⊢
        rw [hbytes, ih, findSuffix?_cons, if_neg hpassed, Option.map_map, Option.map_map]
        congr 1
        funext count
        simp only [Function.comp_apply, Rune.width_eq_length_encode]
        rw [Nat.add_comm 1, List.take_succ_cons, Rune.encode_cons, List.length_append]

/-! ## The first closing delimiter -/

/-- The first closing delimiter in a text stands behind a body. -/
structure FirstCloses (hashes : Nat) (text body : Bytes) : Prop where
  closes : body ++ closing hashes <+: text
  first : ∀ n < body.length, ¬ closing hashes <+: text.drop n

variable {content body : Bytes}

theorem FirstCloses.indexOf?_eq (h : FirstCloses hashes content body) :
    Bytes.indexOf? (closing hashes) content = some body.length := by
  obtain ⟨⟨more, hmore⟩, hfirst⟩ := h
  rw [List.append_assoc] at hmore
  refine findSuffix?_eq_some_iff.mpr ⟨?_, ?_, fun n hn => ?_⟩
  · rw [← hmore, List.length_append]
    exact Nat.le_add_right _ _
  · rw [List.isPrefixOf_iff_prefix, ← hmore, List.drop_left]
    exact List.prefix_append _ _
  · rw [Bool.eq_false_iff, ne_eq, List.isPrefixOf_iff_prefix]
    exact hfirst n hn

theorem exists_firstCloses {length : Nat}
    (h : Bytes.indexOf? (closing hashes) content = some length) :
    ∃ body, FirstCloses hashes content body ∧ body.length = length := by
  obtain ⟨hle, hhere, hfirst⟩ := findSuffix?_eq_some_iff.mp h
  rw [List.isPrefixOf_iff_prefix] at hhere
  have hlength : (content.take length).length = length := List.length_take_of_le hle
  refine ⟨content.take length, ⟨?_, fun n hn => ?_⟩, hlength⟩
  · obtain ⟨more, hmore⟩ := hhere
    exact ⟨more, by rw [List.append_assoc, hmore, List.take_append_drop]⟩
  · rw [← List.isPrefixOf_iff_prefix, Bool.not_eq_true]
    exact hfirst n (hlength ▸ hn)

theorem indexOf?_closing_eq_none_iff :
    Bytes.indexOf? (closing hashes) content = none ↔
      ∀ n, ¬ closing hashes <+: content.drop n := by
  simp only [Bytes.indexOf?, findSuffix?_eq_none_iff, Bool.eq_false_iff, ne_eq,
    List.isPrefixOf_iff_prefix]
  refine ⟨fun h n => ?_, fun h n _ => h n⟩
  rcases Nat.le_total n content.length with hle | hge
  · exact h n hle
  · rw [List.drop_eq_nil_of_le hge]
    simp [closing]

/-- What stands behind the closing delimiter has no part in it being the first. -/
theorem FirstCloses.append (h : FirstCloses hashes content body) (others : Bytes) :
    FirstCloses hashes (body ++ (closing hashes ++ others)) body := by
  refine ⟨⟨others, by rw [List.append_assoc]⟩, fun n hn hcloses => h.first n hn ?_⟩
  obtain ⟨more, rfl⟩ := h.closes
  rw [← List.append_assoc] at hcloses
  have hle : n ≤ (body ++ closing hashes).length := by
    rw [List.length_append]
    omega
  rw [List.drop_append_of_le_length hle] at hcloses ⊢
  have hlength : (closing hashes).length ≤ ((body ++ closing hashes).drop n).length := by
    rw [List.length_drop, List.length_append]
    omega
  exact (List.prefix_of_prefix_length_le hcloses (List.prefix_append _ _) hlength).trans
    (List.prefix_append _ _)

theorem runes_append_closing (hashes : Nat) (body more : Bytes) :
    runes (body ++ (closing hashes ++ more)) =
      runes body ++ (runes (closing hashes) ++ runes more) := by
  rw [← runes_append_of_ascii closing_isAscii]
  exact runes_append_ascii body (by decide) _

end RawString

/-! ## Carriage returns -/

theorem atBareReturn_runes_iff {source : Bytes} :
    atBareReturn (runes source) = true ↔
      source[0]? = some '\r'.toUInt8 ∧ source[1]? ≠ some '\n'.toUInt8 := by
  have hreturn : startsWith (runes source) ['\r'] = true ↔ ['\r'.toUInt8] <+: source :=
    startsWith_runes_iff (forall_ascii_of_all rfl) source
  have hbreak : startsWith (runes source) ['\r', '\n'] = true ↔
      ['\r'.toUInt8, '\n'.toUInt8] <+: source :=
    startsWith_runes_iff (forall_ascii_of_all rfl) source
  rw [atBareReturn, Bool.and_eq_true, hreturn, Bool.not_eq_true', Bool.eq_false_iff, ne_eq, hbreak]
  cases source with
  | nil => simp
  | cons first rest =>
      cases rest with
      | nil => simp [eq_comm]
      | cons second rest => simp [eq_comm]; grind

/-- No rune of a text is a bare carriage return if and only if behind each byte that is a carriage return
stands a line feed. -/
theorem findSuffix?_atBareReturn_eq_none_iff {source : Bytes} :
    findSuffix? atBareReturn (runes source) = none ↔
      ∀ n, source[n]? = some '\r'.toUInt8 → source[n + 1]? = some '\n'.toUInt8 := by
  rw [findSuffix?_eq_none_iff]
  constructor
  · intro h n hn
    have hrunes := runes_take_append_drop hn (by decide)
    have hpassed := h (runes (source.take n)).length (by rw [hrunes]; simp)
    rw [hrunes, List.drop_left, Bool.eq_false_iff, ne_eq, atBareReturn_runes_iff] at hpassed
    simpa [hn] using hpassed
  · intro h n _
    have hsplit := eq_encode_append_of_runes (List.take_append_drop n (runes source)).symm
    rw [Bool.eq_false_iff, ne_eq, ← runes_encode_drop, atBareReturn_runes_iff]
    rintro ⟨hreturn, hfeed⟩
    generalize Rune.encode ((runes source).take n) = front at hsplit
    generalize Rune.encode ((runes source).drop n) = back at hsplit hreturn hfeed
    subst hsplit
    apply hfeed
    have hnext := h front.length
    simp only [List.getElem?_append_right (Nat.le_refl _), Nat.sub_self,
      List.getElem?_append_right (Nat.le_add_right _ 1), Nat.add_sub_cancel_left] at hnext
    exact hnext hreturn

end RustLexer
