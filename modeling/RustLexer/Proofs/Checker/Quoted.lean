import RustLexer.CodePoint.Unicode
import RustLexer.Proofs.Checker.Escape
import RustLexer.Proofs.Checker.Verdict
import RustLexer.Proofs.Lexer.Shape

/-! # Quoted literals and their grammar

The checker reads the body of a literal item by item; what it comes through to the closing quote is a body
of the grammar (`Quoted.readBody_sound`), and it comes through every body of the grammar
(`Quoted.readBody_complete`). Since the lexer takes a literal for closed only if it ends at a quote that
the checker finds too, the checker passes a closed literal exactly if the grammar has it.
-/

namespace RustLexer

namespace Quoted

variable {literal : LiteralKind} {quote : Char} {text rest : List Rune}

/-! ## The closing quote -/

/-- A text comes to a quote that is not escaped. -/
inductive Closes (quote : Char) : List Rune → Prop
  | here {rune : Rune} {rest : List Rune} (hquote : rune.char = quote) : Closes quote (rune :: rest)
  | escaped {rune second : Rune} {rest : List Rune} (hescape : rune.char = '\\')
      (hrest : Closes quote rest) : Closes quote (rune :: second :: rest)
  | later {rune : Rune} {rest : List Rune} (hescape : rune.char ≠ '\\')
      (hrest : Closes quote rest) : Closes quote (rune :: rest)

theorem closes_of_closingLength?_go {passed total : Nat}
    (h : closingLength?.go quote passed text = some total) : Closes quote text := by
  fun_induction closingLength?.go quote passed text with
  | case1 => cases h
  | case2 passed rune hquote => exact .here hquote
  | case3 => cases h
  | case4 passed rune second rest hquote => exact .here hquote
  | case5 passed rune second rest _ hescape ih => exact .escaped hescape (ih h)
  | case6 passed rune second rest _ hescape ih => exact .later hescape (ih h)

theorem Closes.append {front : List Rune} (hfront : ∀ rune ∈ front, rune.char ≠ '\\')
    (h : Closes quote rest) : Closes quote (front ++ rest) := by
  induction front with
  | nil => exact h
  | cons rune front ih =>
      obtain ⟨hrune, hothers⟩ := List.forall_mem_cons.mp hfront
      exact .later hrune (ih hothers)

theorem Closes.tail {rune : Rune} (hquote : rune.char ≠ quote) (hescape : rune.char ≠ '\\')
    (h : Closes quote (rune :: rest)) : Closes quote rest := by
  cases h with
  | here hhere => exact absurd hhere hquote
  | escaped hbackslash => exact absurd hbackslash hescape
  | later _ hrest => exact hrest

theorem Closes.of_append {front : List Rune}
    (hfront : ∀ rune ∈ front, rune.char ≠ quote ∧ rune.char ≠ '\\')
    (h : Closes quote (front ++ rest)) : Closes quote rest := by
  induction front with
  | nil => exact h
  | cons rune front ih =>
      obtain ⟨⟨hquote, hescape⟩, hothers⟩ := List.forall_mem_cons.mp hfront
      exact ih hothers (h.tail hquote hescape)

/-! ## Items -/

theorem mapError_eq_ok_iff {ε ε' α : Type} {result : Except ε α} {f : ε → ε'} {a : α} :
    result.mapError f = .ok a ↔ result = .ok a := by
  cases result <;> simp [Except.mapError]

theorem itemTail_of_backslash {rune : Rune} (h : rune.char = '\\') {tail : Nat} :
    itemTail literal rune rest = .ok tail ↔ Escape.length literal rest = .ok tail := by
  rw [itemTail, if_pos h, mapError_eq_ok_iff]

theorem itemTail_of_plain {rune : Rune} (h : rune.char ≠ '\\') {tail : Nat} :
    itemTail literal rune rest = .ok tail ↔
      tail = 0 ∧ (literal.isByte = true → rune.char.toNat < 0x80) ∧
        (rune.char = '\r' → startsWith rest ['\n'] = true) ∧
        (literal.isSingle = true → rune.char ∉ ['\n', '\r', '\t']) := by
  have hreturn : atBareReturn (rune :: rest) = true ↔
      ¬ (rune.char = '\r' → startsWith rest ['\n'] = true) := by
    by_cases hchar : rune.char = '\r' <;> simp [atBareReturn, startsWith, hchar]
  have hwide : (literal.isByte && rune.isNonAscii) = true ↔
      ¬ (literal.isByte = true → rune.char.toNat < 0x80) := by
    rw [Bool.and_eq_true, Rune.isNonAscii, decide_eq_true_eq, Rune.code, Classical.not_imp,
      Nat.not_lt]
  have hcontrol : (literal.isSingle &&
      (rune.char == '\n' || rune.char == '\r' || rune.char == '\t')) = true ↔
      ¬ (literal.isSingle = true → rune.char ∉ ['\n', '\r', '\t']) := by
    simp only [Bool.and_eq_true, Bool.or_eq_true, beq_iff_eq, List.mem_cons, List.not_mem_nil]
    tauto
  rw [itemTail, if_neg h]
  by_cases hascii : literal.isByte = true → rune.char.toNat < 0x80
  · rw [if_neg (fun hfault => hwide.mp hfault hascii)]
    by_cases hnewline : rune.char = '\r' → startsWith rest ['\n'] = true
    · rw [if_neg (fun hfault => hreturn.mp hfault hnewline)]
      by_cases hplain : literal.isSingle = true → rune.char ∉ ['\n', '\r', '\t']
      · rw [if_neg (fun hfault => hcontrol.mp hfault hplain)]
        simp only [Except.ok.injEq]
        exact ⟨fun hzero => ⟨hzero.symm, hascii, hnewline, hplain⟩, fun hall => hall.1.symm⟩
      · rw [if_pos (hcontrol.mpr hplain)]
        simp only [reduceCtorEq, false_iff]
        exact fun hall => hplain hall.2.2.2
    · rw [if_pos (hreturn.mpr hnewline)]
      simp only [reduceCtorEq, false_iff]
      exact fun hall => hnewline hall.2.2.1
  · rw [if_pos (hwide.mpr hascii)]
    simp only [reduceCtorEq, false_iff]
    exact fun hall => hascii hall.2.1

/-! ## Bodies -/

theorem readBody_item {rune : Rune} {item more : List Rune} (hquote : rune.char ≠ quote)
    (htail : itemTail literal rune (item ++ more) = .ok item.length) (items offset : Nat) :
    readBody literal quote items offset (rune :: (item ++ more)) =
      readBody literal quote (items + 1) (offset + rune.bytes.length + Rune.width item) more := by
  rw [readBody, if_neg hquote, htail]
  simp only [List.take_left, List.drop_left]

theorem readBody_escaped {rune : Rune} {item more : List Rune} (hrune : rune.char = '\\')
    (hquote : quote ≠ '\\') (hlength : Escape.length literal (item ++ more) = .ok item.length)
    (items offset : Nat) :
    readBody literal quote items offset (rune :: (item ++ more)) =
      readBody literal quote (items + 1) (offset + rune.bytes.length + Rune.width item) more :=
  readBody_item (by rw [hrune]; exact hquote.symm) ((itemTail_of_backslash hrune).mpr hlength)
    items offset

theorem readBody_close {close : Rune} (hclose : close.char = quote) (items offset : Nat) :
    readBody literal quote items offset (close :: rest) =
      .closed items (offset + close.bytes.length) rest := by
  rw [readBody, if_pos hclose]

/-- Each item of a body counts. -/
theorem le_of_readBody_eq_closed {items offset total stop : Nat}
    (h : readBody literal quote items offset text = .closed total stop rest) : items ≤ total := by
  fun_induction readBody literal quote items offset text with
  | case1 => cases h
  | case2 =>
      cases h
      exact Nat.le_refl _
  | case3 => cases h
  | case4 items offset rune rest _ tail _ ih => exact Nat.le_of_succ_le (ih h)

/-- Where the lexer finds a closing quote, the checker finds one or a fault before it. -/
theorem readBody_ne_unclosed (hquote : quote = '\'' ∨ quote = '"') {items offset : Nat}
    (h : Closes quote text) : readBody literal quote items offset text ≠ .unclosed := by
  fun_induction readBody literal quote items offset text with
  | case1 => cases h
  | case2 => simp
  | case3 => simp
  | case4 items offset rune rest hrune tail htail ih =>
      apply ih
      cases h with
      | here hhere => exact absurd hhere hrune
      | @escaped _ second rest hescape hrest =>
          -- What an escape takes behind its first rune has neither a quote nor a backslash.
          obtain ⟨runes, more, hsplit, rfl, hitem⟩ :=
            Escape.length_sound ((itemTail_of_backslash hescape).mp htail)
          obtain ⟨_, others, hchars, hplain⟩ := hitem.exists_eq
          obtain ⟨first, others, rfl, -, rfl⟩ := List.map_eq_cons_iff.mp (List.cons.inj hchars).2
          rw [List.cons_append] at hsplit
          obtain ⟨rfl, rfl⟩ := List.cons.inj hsplit
          rw [List.length_cons, List.drop_succ_cons, List.drop_left]
          refine hrest.of_append fun rune hrune => ?_
          obtain ⟨hsingle, hdouble, hbackslash⟩ := hplain _ (List.mem_map_of_mem hrune)
          refine ⟨?_, hbackslash⟩
          rcases hquote with rfl | rfl
          · exact hsingle
          · exact hdouble
      | later hescape hrest =>
          obtain ⟨rfl, -⟩ := (itemTail_of_plain hescape).mp htail
          exact hrest

/-! ## Strings -/

theorem readBody_sound {items offset total stop : Nat}
    (h : readBody literal '"' items offset text = .closed total stop rest) :
    ∃ content close, text = content ++ close :: rest ∧ close.char = '"' ∧
      Grammar.Body literal (content.map Rune.char) := by
  fun_induction readBody literal '"' items offset text with
  | case1 => cases h
  | case2 items offset rune more hquote =>
      cases h
      exact ⟨[], rune, rfl, hquote, .nil⟩
  | case3 => cases h
  | case4 items offset rune more hquote tail htail ih =>
      obtain ⟨content, close, hmore, hclose, hbody⟩ := ih h
      by_cases hescape : rune.char = '\\'
      · obtain ⟨escaped, behind, rfl, rfl, hitem⟩ :=
          Escape.length_sound ((itemTail_of_backslash hescape).mp htail)
        rw [List.drop_left] at hmore
        subst hmore
        refine ⟨rune :: escaped ++ content, close, by simp, hclose, ?_⟩
        rw [List.map_append, List.map_cons, hescape]
        rcases hitem with hescape | ⟨-, hbreak⟩
        · exact .escape hescape hbody
        · exact .lineBreak hbreak hbody
      · obtain ⟨rfl, hbyte, hreturn, -⟩ := (itemTail_of_plain hescape).mp htail
        obtain rfl : more = content ++ close :: rest := hmore
        refine ⟨rune :: content, close, rfl, hclose, .char hquote hescape ?_ hbyte hbody⟩
        -- The line feed behind a carriage return is not the closing quote.
        intro hchar
        obtain ⟨feed, _, hfeed, hnewline, -⟩ := startsWith_cons_iff.mp (hreturn hchar)
        cases content with
        | nil =>
            rw [← (List.cons.inj hfeed).1, hclose] at hnewline
            cases hnewline
        | cons first content =>
            rw [← (List.cons.inj hfeed).1] at hnewline
            simp [hnewline]

/-- A backslash is not whitespace, so there is no whitespace in front of an escape. -/
theorem eq_nil_of_backslash {blanks chars rest : List Char}
    (hblanks : ∀ char ∈ blanks, Grammar.isWhitespace char = true)
    (h : '\\' :: chars = blanks ++ rest) : blanks = [] := by
  cases blanks with
  | nil => rfl
  | cons blank blanks =>
      have hblank := hblanks blank List.mem_cons_self
      rw [← (List.cons.inj h).1] at hblank
      cases hblank

/-- The checker comes through a body of the grammar, also from behind some of the whitespace at its front,
which an escaped line break may have taken. -/
theorem readBody_complete (hliteral : literal.isSingle = false) {close : Rune}
    (hclose : close.char = '"') {chars : List Char} (h : Grammar.Body literal chars)
    {blanks : List Char} {content : List Rune}
    (hblanks : ∀ char ∈ blanks, Grammar.isWhitespace char = true)
    (hchars : chars = blanks ++ content.map Rune.char) (items offset : Nat) :
    ∃ total stop, readBody literal '"' items offset (content ++ close :: rest) =
      .closed total stop rest := by
  induction h generalizing blanks content items offset with
  | nil =>
      obtain ⟨-, hnil⟩ := List.append_eq_nil_iff.mp hchars.symm
      obtain rfl := List.map_eq_nil_iff.mp hnil
      exact ⟨_, _, readBody_close hclose items offset⟩
  | @char char chars hquote hescape hreturn hbyte hrest ih =>
      cases blanks with
      | cons blank blanks =>
          have hmore := (List.cons.inj hchars).2
          exact ih (List.forall_mem_cons.mp hblanks).2 hmore items offset
      | nil =>
          obtain ⟨rune, more, rfl, rfl, rfl⟩ := List.map_eq_cons_iff.mp hchars.symm
          have htail : itemTail literal rune ([] ++ (more ++ close :: rest)) = .ok 0 := by
            refine (itemTail_of_plain hescape).mpr ⟨rfl, hbyte, ?_, by simp [hliteral]⟩
            intro hchar
            have hfeed := hreturn hchar
            cases more with
            | nil => cases hfeed
            | cons feed more =>
                exact startsWith_cons_iff.mpr
                  ⟨feed, _, rfl, Option.some.inj hfeed, by simp [startsWith]⟩
          obtain ⟨total, stop, hread⟩ := ih hblanks rfl (items + 1)
            (offset + rune.bytes.length + Rune.width [])
          exact ⟨total, stop, (readBody_item hquote htail items offset).trans hread⟩
  | @escape escape chars hescape hrest ih =>
      obtain ⟨escaped, others, rfl, -⟩ := hescape.exists_eq
      obtain rfl : blanks = [] := eq_nil_of_backslash hblanks hchars
      obtain ⟨front, more, rfl, hfront, rfl⟩ := List.map_eq_append_iff.mp hchars.symm
      obtain ⟨rune, runes, rfl, hrune, hrunes⟩ := List.map_eq_cons_iff.mp hfront
      rw [← hrunes] at hescape
      have hlength := Escape.length_of_escape hescape (more ++ close :: rest)
      obtain ⟨total, stop, hread⟩ := ih hblanks rfl (items + 1)
        (offset + rune.bytes.length + Rune.width runes)
      refine ⟨total, stop, ?_⟩
      rw [List.cons_append, List.cons_append, List.append_assoc,
        readBody_escaped hrune (by decide) hlength items offset, hread]
  | @lineBreak continued chars hbreak hrest ih =>
      obtain ⟨escaped, others, rfl, -⟩ := hbreak.exists_eq
      obtain rfl : blanks = [] := eq_nil_of_backslash hblanks hchars
      obtain ⟨front, behind, rfl, hfront, rfl⟩ := List.map_eq_append_iff.mp hchars.symm
      obtain ⟨rune, runes, rfl, hrune, hrunes⟩ := List.map_eq_cons_iff.mp hfront
      rw [← hrunes] at hbreak
      -- The checker takes the whitespace behind the line break as far as it goes.
      obtain ⟨run, more, rfl, hrun, hmore⟩ := exists_run Rune.isWhitespace behind
      have hwhite : ∀ char ∈ run.map Rune.char, Grammar.isWhitespace char = true :=
        List.forall_mem_map.mpr hrun
      have hlonger : Grammar.LineBreak ('\\' :: (runes ++ run).map Rune.char) := by
        rw [List.map_append]
        exact hbreak.append hwhite
      have hstop : startsIn Rune.isWhitespace (more ++ close :: rest) = false := by
        cases more with
        | nil =>
            have hblank : Grammar.isWhitespace '"' = false := rfl
            rw [← hclose] at hblank
            exact hblank
        | cons first more => exact hmore
      have hlength := Escape.length_of_lineBreak hliteral hlonger hstop
      obtain ⟨total, stop, hread⟩ := ih hwhite List.map_append (items + 1)
        (offset + rune.bytes.length + Rune.width (runes ++ run))
      refine ⟨total, stop, ?_⟩
      rw [List.cons_append, List.cons_append, List.append_assoc, List.append_assoc,
        ← List.append_assoc runes, readBody_escaped hrune (by decide) hlength items offset, hread]

/-! ## Character literals -/

theorem exists_close_of_readBody {items offset stop : Nat}
    (h : readBody literal quote items offset text = .closed items stop rest) :
    ∃ close, text = close :: rest ∧ close.char = quote := by
  cases text with
  | nil =>
      rw [readBody] at h
      cases h
  | cons rune more =>
      rw [readBody] at h
      split at h
      next hquote =>
        cases h
        exact ⟨rune, rfl, hquote⟩
      next =>
        split at h
        next => cases h
        next => exact absurd (le_of_readBody_eq_closed h) (Nat.not_succ_le_self items)

theorem readBody_single_sound (hliteral : literal.isSingle = true) {offset stop : Nat}
    (h : readBody literal '\'' 0 offset text = .closed 1 stop rest) :
    ∃ content close, text = content ++ close :: rest ∧ close.char = '\'' ∧
      Grammar.Single literal (content.map Rune.char) := by
  cases text with
  | nil =>
      rw [readBody] at h
      cases h
  | cons rune more =>
      rw [readBody] at h
      split at h
      next => cases h
      next hquote =>
        split at h
        next => cases h
        next tail htail =>
          obtain ⟨close, hmore, hclose⟩ := exists_close_of_readBody h
          by_cases hescape : rune.char = '\\'
          · obtain ⟨escaped, behind, rfl, rfl, hitem⟩ :=
              Escape.length_sound ((itemTail_of_backslash hescape).mp htail)
            rw [List.drop_left] at hmore
            subst hmore
            refine ⟨rune :: escaped, close, rfl, hclose, ?_⟩
            rw [List.map_cons, hescape]
            rcases hitem with hitem | ⟨hstring, -⟩
            · exact .escape hitem
            · rw [hliteral] at hstring
              cases hstring
          · obtain ⟨rfl, hbyte, -, hplain⟩ := (itemTail_of_plain hescape).mp htail
            obtain rfl : more = close :: rest := hmore
            refine ⟨[rune], close, rfl, hclose, .char ?_ hbyte⟩
            have hcontrol := hplain hliteral
            simp only [List.mem_cons, not_or] at hcontrol ⊢
            exact ⟨hquote, hescape, hcontrol⟩

theorem readBody_single_complete {close : Rune} (hclose : close.char = '\'') {content : List Rune}
    (h : Grammar.Single literal (content.map Rune.char)) (offset : Nat) :
    ∃ stop, readBody literal '\'' 0 offset (content ++ close :: rest) = .closed 1 stop rest := by
  generalize hchars : content.map Rune.char = chars at h
  cases h with
  | char hchar hbyte =>
      obtain ⟨rune, behind, rfl, rfl, hnil⟩ := List.map_eq_cons_iff.mp hchars
      obtain rfl := List.map_eq_nil_iff.mp hnil
      simp only [List.mem_cons, not_or] at hchar
      obtain ⟨hquote, hescape, hcontrol⟩ := hchar
      have htail : itemTail literal rune ([] ++ (close :: rest)) = .ok 0 :=
        (itemTail_of_plain hescape).mpr ⟨rfl, hbyte, fun hreturn => absurd hreturn hcontrol.2.1,
          fun _ => by simpa using hcontrol⟩
      exact ⟨_, (readBody_item hquote htail 0 offset).trans (readBody_close hclose _ _)⟩
  | escape hescape =>
      obtain ⟨escaped, others, rfl, -⟩ := hescape.exists_eq
      obtain ⟨rune, runes, rfl, hrune, hrunes⟩ := List.map_eq_cons_iff.mp hchars
      rw [← hrunes] at hescape
      have hlength := Escape.length_of_escape hescape (close :: rest)
      exact ⟨_, (readBody_escaped hrune (by decide) hlength 0 offset).trans
        (readBody_close hclose _ _)⟩

/-! ## Literals -/

/-- The quote that a literal stands between. -/
def quoteOf (literal : LiteralKind) : Char :=
  if literal.isSingle then '\'' else '"'

/-- A text that opens as a literal and comes to a quote that may close it. -/
def Opens (literal : LiteralKind) (text : List Rune) : Prop :=
  ∃ mark opening body, text = mark ++ opening :: body ∧
    mark.map Rune.char = Grammar.mark literal ∧ opening.char = quoteOf literal ∧
    Closes (quoteOf literal) body

theorem closes_of_extent (h : (extent quote text).terminated = true) :
    Closes quote (text.drop 1) := by
  unfold extent at h
  split at h
  next hclosing => exact closes_of_closingLength?_go hclosing
  next => cases h

theorem closes_of_doubleExtent (h : (doubleExtent text).terminated = true) :
    Closes '"' (text.drop 1) := by
  rw [doubleExtent_eq] at h
  exact closes_of_extent h

theorem closes_of_singleExtent (h : (singleExtent text).terminated = true) :
    Closes '\'' (text.drop 1) := by
  unfold singleExtent at h
  split at h
  next hthree =>
    obtain ⟨hquote, hescape⟩ := Bool.and_eq_true_iff.mp hthree
    rcases text with _ | ⟨opening, _ | ⟨rune, _ | ⟨close, rest⟩⟩⟩
    · cases hquote
    · cases hquote
    · cases hquote
    · have hrune : rune.char ≠ '\\' := by
        intro hchar
        simp [charAt?, hchar] at hescape
      exact .later hrune (.here (Option.some.inj (eq_of_beq hquote)))
  next => exact closes_of_extent h

theorem closes_of_singleQuote [XidClasses] (hmark : startsWith text ['\''] = true)
    (hchar : (singleQuote text).isLifetime = false)
    (h : (singleQuote text).extent.terminated = true) : Closes '\'' (text.drop 1) := by
  by_cases hword : startsIn Rune.isIdentStart (text.drop 1) = true → charAt? text 2 = some '\''
  · rw [singleQuote_of_not_word hword, Extent.terminated_withSuffix] at h
    exact closes_of_singleExtent h
  · simp only [Classical.not_imp] at hword
    obtain ⟨hstart, hquote⟩ := hword
    rw [singleQuote_of_word hstart hquote rfl] at hchar
    split at hchar
    next hclosed =>
      -- A word has no backslash, so the quote behind it is the first that can close the literal.
      obtain ⟨opening, body, rfl, -, -⟩ := startsWith_cons_iff.mp hmark
      obtain ⟨first, more, rfl, hfirst⟩ : ∃ first more, body = first :: more ∧ _ :=
        startsIn_iff.mp hstart
      obtain ⟨run, behind, rfl, hrun, hbehind⟩ := exists_run Rune.isIdentContinue more
      have hlength : runLength Rune.isIdentContinue ((opening :: first :: (run ++ behind)).drop 2) =
          run.length := congrArg List.length (takeWhile_append_eq_left hrun hbehind)
      rw [hlength, Nat.add_comm, List.drop_succ_cons, List.drop_succ_cons, List.drop_left] at hclosed
      obtain ⟨close, rest, rfl, hclose, -⟩ := startsWith_cons_iff.mp hclosed
      have hword : ∀ rune ∈ first :: run, rune.char ≠ '\\' := by
        intro rune hrune hbackslash
        have hclass : rune.isIdentContinue = true := by
          rcases List.mem_cons.mp hrune with rfl | hrune
          · exact CodePoint.isIdentContinue_of_isIdentStart hfirst
          · exact hrun rune hrune
        rw [Rune.isIdentContinue, Rune.code, hbackslash] at hclass
        exact absurd hclass Bool.false_ne_true
      exact (Closes.here hclose).append hword
    next => cases hchar

/-- A closed literal that the lexer cuts off opens as one. -/
theorem opens_of_cut [XidClasses] {construct : Construct} {keywords : Keywords}
    (hconstruct : construct.IsLiteral literal)
    (hquoted : literal ∈ [.char, .byteChar, .string, .byteString])
    (hmark : construct.MarkedIn text) (hkind : (construct.cut keywords text).tag.kind = .literal)
    (hterminated : (construct.cut keywords text).tag.terminated = true) :
    Opens literal text := by
  cases hconstruct with
  | integer => simp at hquoted
  | float => simp at hquoted
  | rawString => simp at hquoted
  | rawByteString => simp at hquoted
  | string =>
      obtain ⟨opening, body, rfl, hopening, -⟩ := startsWith_cons_iff.mp hmark
      rw [Construct.cut, Cut.terminated_ofLiteral] at hterminated
      exact ⟨[], opening, body, rfl, rfl, hopening,
        closes_of_doubleExtent hterminated⟩
  | byteString =>
      obtain ⟨mark, rest, rfl, hletter, hrest⟩ := startsWith_cons_iff.mp hmark
      obtain ⟨opening, body, rfl, hopening, -⟩ := startsWith_cons_iff.mp hrest
      rw [Construct.cut, Cut.terminated_ofLiteral] at hterminated
      exact ⟨[mark], opening, body, rfl, by rw [List.map_singleton, hletter]; rfl, hopening,
        closes_of_doubleExtent hterminated⟩
  | byteChar =>
      obtain ⟨mark, rest, rfl, hletter, hrest⟩ := startsWith_cons_iff.mp hmark
      obtain ⟨opening, body, rfl, hopening, -⟩ := startsWith_cons_iff.mp hrest
      rw [Construct.cut, Cut.terminated_ofLiteral] at hterminated
      exact ⟨[mark], opening, body, rfl, by rw [List.map_singleton, hletter]; rfl, hopening,
        closes_of_singleExtent hterminated⟩
  | char =>
      have hchar : (singleQuote text).isLifetime = false := by
        rw [Bool.eq_false_iff]
        intro hlifetime
        rw [Construct.cut, Cut.ofSingleQuote, if_pos hlifetime] at hkind
        cases hkind
      rw [Construct.cut, Cut.terminated_ofSingleQuote] at hterminated
      have hcloses := closes_of_singleQuote hmark hchar hterminated
      obtain ⟨opening, body, rfl, hopening, -⟩ := startsWith_cons_iff.mp hmark
      exact ⟨[], opening, body, rfl, rfl, hopening, hcloses⟩

theorem closedFault?_eq_none_iff {items offset : Nat} :
    closedFault? literal items offset rest = none ↔
      (literal.isSingle = true → items = 1) ∧ rest = [] := by
  unfold closedFault?
  cases hliteral : literal.isSingle with
  | false => cases rest <;> simp
  | true =>
      rcases items with _ | _ | items
      · cases hquote : startsWith rest ['\''] <;> simp
      · cases rest <;> simp
      · simp

/-- The fault that reading a body comes to. -/
def Body.fault? (literal : LiteralKind) : Body → Option Fault
  | unclosed => none
  | faulty fault => some fault
  | closed items offset rest => closedFault? literal items offset rest

theorem fault?_opening {mark body : List Rune} {opening : Rune}
    (hmark : mark.map Rune.char = Grammar.mark literal) :
    fault? literal (mark ++ opening :: body) =
      (readBody literal opening.char 0 (Rune.width (mark ++ [opening])) body).fault? literal := by
  have hlength : (if literal.isByte = true then 1 else 0) = mark.length := by
    rw [← List.length_map (f := Rune.char), hmark, Grammar.mark]
    split <;> rfl
  have htake : (mark ++ opening :: body).take (mark.length + 1) = mark ++ [opening] := by
    rw [List.take_length_add_append]
    rfl
  simp only [fault?, hlength, List.drop_left, htake]
  cases readBody literal opening.char 0 (Rune.width (mark ++ [opening])) body <;> rfl

theorem grammar_of_readBody {offset items stop : Nat}
    (h : readBody literal (quoteOf literal) 0 offset text = .closed items stop [])
    (hitems : literal.isSingle = true → items = 1) :
    Grammar.Quoted literal (Grammar.mark literal ++ quoteOf literal :: text.map Rune.char) := by
  cases hliteral : literal.isSingle with
  | true =>
      obtain rfl := hitems hliteral
      simp only [quoteOf, hliteral, if_true] at h ⊢
      obtain ⟨content, close, rfl, hclose, hsingle⟩ := readBody_single_sound hliteral h
      rw [List.map_append, List.map_cons, hclose]
      exact .single hliteral hsingle
  | false =>
      simp only [quoteOf, hliteral, Bool.false_eq_true, if_false] at h ⊢
      obtain ⟨content, close, rfl, hclose, hbody⟩ := readBody_sound h
      rw [List.map_append, List.map_cons, hclose]
      exact .string hliteral hbody

theorem exists_close {content : List Char} (h : text.map Rune.char = content ++ [quote]) :
    ∃ front close, text = front ++ [close] ∧ front.map Rune.char = content ∧ close.char = quote := by
  obtain ⟨front, last, rfl, hfront, hlast⟩ := List.map_eq_append_iff.mp h
  obtain ⟨close, behind, rfl, hclose, hnil⟩ := List.map_eq_cons_iff.mp hlast
  obtain rfl := List.map_eq_nil_iff.mp hnil
  exact ⟨front, close, rfl, hfront, hclose⟩

theorem readBody_of_grammar (offset : Nat)
    (h : Grammar.Quoted literal (Grammar.mark literal ++ quoteOf literal :: text.map Rune.char)) :
    ∃ items stop, readBody literal (quoteOf literal) 0 offset text = .closed items stop [] ∧
      (literal.isSingle = true → items = 1) := by
  generalize hchars : Grammar.mark literal ++ quoteOf literal :: text.map Rune.char = chars at h
  cases h with
  | single hliteral hsingle =>
      obtain ⟨hquote, hbody⟩ := List.cons.inj (List.append_cancel_left hchars)
      obtain ⟨content, close, rfl, rfl, hclose⟩ := exists_close hbody
      obtain ⟨stop, hread⟩ := readBody_single_complete hclose hsingle offset
      rw [hquote]
      exact ⟨1, stop, hread, fun _ => rfl⟩
  | string hliteral hcontent =>
      obtain ⟨hquote, hbody⟩ := List.cons.inj (List.append_cancel_left hchars)
      obtain ⟨content, close, rfl, rfl, hclose⟩ := exists_close hbody
      have hnone : ∀ char ∈ ([] : List Char), Grammar.isWhitespace char = true := by simp
      obtain ⟨items, stop, hread⟩ := readBody_complete hliteral hclose hcontent hnone rfl 0 offset
      rw [hquote]
      exact ⟨items, stop, hread, fun hsingle => by rw [hliteral] at hsingle; cases hsingle⟩

/-- A literal that is opened and closed has no fault exactly if the grammar has it. -/
theorem fault?_eq_none_iff (h : Opens literal text) :
    fault? literal text = none ↔ Grammar.Quoted literal (text.map Rune.char) := by
  obtain ⟨mark, opening, body, rfl, hmark, hopening, hcloses⟩ := h
  have hquote : quoteOf literal = '\'' ∨ quoteOf literal = '"' := by
    unfold quoteOf
    split
    next => exact Or.inl rfl
    next => exact Or.inr rfl
  rw [fault?_opening hmark, List.map_append, List.map_cons, hmark, hopening]
  constructor
  · intro hnone
    cases hread : readBody literal (quoteOf literal) 0 (Rune.width (mark ++ [opening])) body with
    | unclosed => exact absurd hread (readBody_ne_unclosed hquote hcloses)
    | faulty fault =>
        rw [hread] at hnone
        cases hnone
    | closed items offset rest =>
        rw [hread] at hnone
        obtain ⟨hitems, rfl⟩ := closedFault?_eq_none_iff.mp hnone
        exact grammar_of_readBody hread hitems
  · intro hgrammar
    obtain ⟨items, stop, hread, hitems⟩ := readBody_of_grammar _ hgrammar
    rw [hread]
    exact closedFault?_eq_none_iff.mpr ⟨hitems, rfl⟩

end Quoted

theorem Dialect.fault?_quoted_eq_none_iff [XidClasses] {dialect : Dialect} {source : Bytes} {lexeme : Lexeme}
    (hlexeme : lexeme ∈ dialect.lexemes source) (hkind : lexeme.kind = .literal)
    (hquoted : lexeme.literal ∈ [.char, .byteChar, .string, .byteString])
    (hterminated : lexeme.terminated = true) :
    lexeme.fault? = none ↔
      Grammar.Quoted lexeme.literal ((runes lexeme.text).map Rune.char) := by
  obtain ⟨construct, hliteral, hmark, hcut⟩ := dialect.literal_of_mem hlexeme hkind
  have htag : (construct.cut dialect.keywords (runes lexeme.text)).tag = lexeme.toTag := by
    rw [hcut]
  have hopens : Quoted.Opens lexeme.literal (runes lexeme.text) :=
    Quoted.opens_of_cut hliteral hquoted hmark (htag ▸ hkind) (htag ▸ hterminated)
  rw [Lexeme.fault?_of_quoted hkind hquoted hterminated, Quoted.fault?_eq_none_iff hopens]

/-- The checker passes a closed character literal or string exactly if the grammar has its text. -/
theorem Dialect.check_quoted_iff [XidClasses] (dialect : Dialect) (source : Bytes) {lexeme : Lexeme}
    (hlexeme : lexeme ∈ dialect.lexemes source) (hkind : lexeme.kind = .literal)
    (hquoted : lexeme.literal ∈ [.char, .byteChar, .string, .byteString])
    (hterminated : lexeme.terminated = true) (checker : Checker) :
    (checker.check lexeme).diagnostics = checker.diagnostics ↔
      Grammar.Quoted lexeme.literal ((runes lexeme.text).map Rune.char) := by
  rw [Checker.diagnostics_check_eq_iff]
  exact Dialect.fault?_quoted_eq_none_iff hlexeme hkind hquoted hterminated

/-- An escaped line break and the whitespace behind it are passed in a string of bytes. -/
theorem Dialect.check_quoted_iff_lineBreak :
    let source := Bytes.ofAscii "b\"\\\n \\xFF\""
    let lexeme : Lexeme :=
      { kind := .literal, literal := .byteString, text := source,
        span := ⟨⟨0, 1, 1⟩, ⟨10, 2, 7⟩⟩ }
    let checker : Checker := {}
    lexeme ∈ ({ keywords := keywords2018 } : Dialect).lexemes source ∧
      ((checker.check lexeme).diagnostics = checker.diagnostics ↔
        Grammar.Quoted .byteString ((runes source).map Rune.char)) ∧
      (checker.check lexeme).diagnostics = checker.diagnostics := by
  intro source lexeme checker
  have hlexeme : lexeme ∈ ({ keywords := keywords2018 } : Dialect).lexemes source := by
    decide +kernel
  refine ⟨hlexeme, ?_, by decide +kernel⟩
  exact Dialect.check_quoted_iff _ source hlexeme rfl (by decide) rfl checker

end RustLexer
