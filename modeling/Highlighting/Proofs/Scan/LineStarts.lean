import Highlighting.Proofs.Grammar.LineKinds

/-! Two views of lines: a move over a line looks ahead for its terminator, and the test for the start of a
line looks back for a line feed. They agree on lines that end with a line feed. Behind a carriage return
that stands alone, or whose line feed is behind the limit, a line is over and none is said to start. -/
namespace Highlighting

namespace Bytes

/-- A line with its terminator, by what comes next. There is no other line break in it, and a carriage
return is a terminator by itself only where no line feed comes next. -/
structure Terminated (line : List UInt8) (next? : Option UInt8) (body terminator : List UInt8) : Prop where
  split : line = body ++ terminator
  unbroken : ∀ b ∈ body, isLineBreak b = false
  terminator_mem : terminator ∈ [[0x0D, 0x0A], [0x0A], [0x0D]]
  unpaired : terminator = [0x0D] → next? ≠ some 0x0A

variable {bytes : Bytes} {limit start : Nat}

theorem forall_mem_extract_lineBreak (bytes : Bytes) (limit start : Nat) :
    ∀ b ∈ (bytes.extract start (bytes.lineBreak limit start)).toList, isLineBreak b = false := by
  intro b hb
  obtain ⟨i, hi⟩ := List.mem_iff_getElem?.mp hb
  rw [Array.getElem?_toList, Array.getElem?_extract] at hi
  split at hi
  case isTrue hless =>
    have hinside : start + i < bytes.lineBreak limit start := by omega
    exact not_isLineBreak_of_lt (Nat.le_add_right start i) hinside hi
  case isFalse => cases hi

theorem lineBreak_lt_lineEnd (hbroken : bytes.lineBreak limit start < limit) :
    bytes.lineBreak limit start < bytes.lineEnd limit start := by
  unfold lineEnd
  dsimp only
  rw [if_pos hbroken]
  split <;> omega

theorem lineEnd_terminator (hlimit : limit ≤ bytes.size) (hbroken : bytes.lineBreak limit start < limit) :
    ∃ terminator ∈ [[0x0D, 0x0A], [0x0A], [0x0D]],
      (bytes.extract (bytes.lineBreak limit start) (bytes.lineEnd limit start)).toList = terminator ∧
      bytes[bytes.lineEnd limit start - 1]? = terminator.getLast? ∧
      (terminator = [0x0D] →
        ¬ (bytes.lineEnd limit start < limit ∧ bytes[bytes.lineEnd limit start]? = some 0x0A)) := by
  have hbyte := Array.getElem?_eq_getElem (Nat.lt_of_lt_of_le hbroken hlimit)
  have hbreak := isLineBreak_of_lineBreak hbroken hbyte
  generalize bytes[bytes.lineBreak limit start] = b at hbyte hbreak
  unfold lineEnd
  dsimp only
  rw [if_pos hbroken]
  generalize bytes.lineBreak limit start = stop at hbroken hbyte
  split
  case isTrue hpair =>
    obtain ⟨hreturn, -, hfeed⟩ := hpair
    refine ⟨[0x0D, 0x0A], by decide, ?_, hfeed, fun hsame => absurd hsame (by decide)⟩
    rw [extract_cons (by omega) hreturn, extract_cons (by omega) hfeed, extract_nil (Nat.le_refl _)]
  case isFalse hsingle =>
    have hextract : (bytes.extract stop (stop + 1)).toList = [b] := by
      rw [extract_cons (Nat.lt_succ_self stop) hbyte, extract_nil (Nat.le_refl _)]
    rcases isLineBreak_iff.mp hbreak with rfl | rfl
    · exact ⟨[0x0A], by decide, hextract, hbyte, fun hsame => absurd hsame (by decide)⟩
    · exact ⟨[0x0D], by decide, hextract, hbyte, fun _ hfeed => hsingle ⟨hbyte, hfeed⟩⟩

end Bytes

namespace ScanContext

variable {w : Window} (cx : ScanContext w)

theorem peek_eq_some_iff {b : UInt8} :
    cx.peek = some b ↔ cx.cursor < w.limit ∧ w.input[cx.cursor]? = some b := by
  constructor
  · intro hpeek
    exact ⟨cx.cursor_lt_of_peek hpeek, getElem?_of_peek hpeek⟩
  · rintro ⟨hmore, hbyte⟩
    rw [peek, peekAt, Nat.add_zero, if_pos hmore, hbyte]

/-- What a move over a line with a terminator goes over. Looking back from there finds the start of a line
unless the terminator is a carriage return by itself. -/
theorem advanceLine_terminated (hfound : cx.advanceLine.1 = true) :
    ∃ body terminator,
      Bytes.Terminated (w.input.extract cx.cursor cx.advanceLine.2.cursor).toList
        cx.advanceLine.2.peek body terminator ∧
      (cx.advanceLine.2.atLineStart = true ↔ terminator ≠ [0x0D]) := by
  obtain ⟨hflag, hcursor, -⟩ := cx.advanceLine_eq
  have hbroken : w.input.lineBreak w.limit cx.cursor < w.limit := by
    rw [hflag] at hfound
    exact of_decide_eq_true hfound
  have hstart := w.input.le_lineBreak w.limit cx.cursor
  have hend := Bytes.lineBreak_lt_lineEnd hbroken
  obtain ⟨terminator, hmem, hextract, hlast, hpair⟩ :=
    Bytes.lineEnd_terminator w.limit_le_size hbroken
  refine ⟨(w.input.extract cx.cursor (w.input.lineBreak w.limit cx.cursor)).toList, terminator,
    ⟨?_, w.input.forall_mem_extract_lineBreak w.limit cx.cursor, hmem, ?_⟩, ?_⟩
  · rw [hcursor, w.input.extract_append hstart (Nat.le_of_lt hend), hextract]
  · intro hreturn hpeek
    rw [peek_eq_some_iff, hcursor] at hpeek
    exact hpair hreturn hpeek
  · have hlater : w.input.lineEnd w.limit cx.cursor ≠ 0 := by omega
    rw [atLineStart, hcursor, hlast]
    simp only [beq_eq_false_iff_ne.mpr hlater, Bool.false_or, beq_iff_eq]
    have hkinds : ∀ terminator ∈ [[0x0D, 0x0A], [0x0A], [(0x0D : UInt8)]],
        (terminator.getLast? = some 0x0A ↔ terminator ≠ [0x0D]) := by decide
    exact hkinds terminator hmem

theorem advanceLine_unterminated (hnone : cx.advanceLine.1 = false) :
    cx.advanceLine.2.cursor = w.limit ∧ ∀ b ∈ cx.rest.toList, Bytes.isLineBreak b = false := by
  obtain ⟨hflag, hcursor, -⟩ := cx.advanceLine_eq
  have hunbroken : ¬ w.input.lineBreak w.limit cx.cursor < w.limit := by
    rw [hflag] at hnone
    exact of_decide_eq_false hnone
  have hle : w.input.lineBreak w.limit cx.cursor ≤ w.limit := Bytes.lineBreak_le cx.cursor_le_limit
  have hwhole : w.input.lineBreak w.limit cx.cursor = w.limit := by omega
  constructor
  · rw [hcursor, Bytes.lineEnd, if_neg hunbroken, hwhole]
  · have hall := w.input.forall_mem_extract_lineBreak w.limit cx.cursor
    rw [hwhole] at hall
    exact hall

end ScanContext

/-- A move over a line finds a terminator or gets to the limit. With a terminator it goes over the line
and nothing else, and it comes to what is called the start of a line unless the terminator is a carriage
return by itself; without one it goes over no line break. -/
theorem lines_by_terminator (w : Window) (cx : ScanContext w) :
    (cx.advanceLine.1 = true →
      ∃ body terminator,
        Bytes.Terminated (w.input.extract cx.cursor cx.advanceLine.2.cursor).toList
          cx.advanceLine.2.peek body terminator ∧
        (cx.advanceLine.2.atLineStart = true ↔ terminator ≠ [0x0D])) ∧
    (cx.advanceLine.1 = false →
      cx.advanceLine.2.cursor = w.limit ∧ ∀ b ∈ cx.rest.toList, Bytes.isLineBreak b = false) :=
  ⟨cx.advanceLine_terminated, cx.advanceLine_unterminated⟩

/-- A limit between a carriage return and its line feed, and behind the pair a line without a
terminator. -/
theorem split_pair_by_terminator :
    (∃ body terminator,
      Bytes.Terminated [0x61, 0x0D] none body terminator ∧
      ((ScanContext.opening (Window.clamp #[0x61, 0x0D, 0x0A, 0x62] 0 2) {}).advanceLine.2.atLineStart =
        true ↔ terminator ≠ [0x0D])) ∧
    (ScanContext.opening (Window.clamp #[0x61, 0x0D, 0x0A, 0x62] 3 4) {}).advanceLine.2.cursor = 4 ∧
    ∀ b ∈ (ScanContext.opening (Window.clamp #[0x61, 0x0D, 0x0A, 0x62] 3 4) {}).rest.toList,
      Bytes.isLineBreak b = false :=
  ⟨(lines_by_terminator (Window.clamp #[0x61, 0x0D, 0x0A, 0x62] 0 2) (.opening _ {})).1 (by decide +kernel),
    (lines_by_terminator (Window.clamp #[0x61, 0x0D, 0x0A, 0x62] 3 4) (.opening _ {})).2 (by decide +kernel)⟩

/-- A move over a line that ends with a carriage return does not come to what is called the start of a
line. -/
theorem carriage_return_starts_no_line :
    ¬ ∀ (w : Window) (cx : ScanContext w),
      cx.advanceLine.1 = true → cx.advanceLine.2.atLineStart = true := by
  intro hall
  have hstart := hall (Window.clamp #[0x61, 0x0D, 0x62] 0 3) (.opening _ {}) (by decide +kernel)
  exact absurd hstart (by decide +kernel)

end Highlighting
