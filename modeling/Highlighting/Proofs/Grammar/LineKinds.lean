import Highlighting.Proofs.Grammar.DiffLines
import Highlighting.Proofs.Grammar.JsonScanner

/-! A text as a list of lines, and the kinds of lines in diffs. Both are said here without offsets: what
moves a cursor over lines and looks at what is ahead comes to the same. -/
namespace Highlighting

namespace Bytes

def joinFirst (b : UInt8) : List (List UInt8) → List (List UInt8)
  | [] => [[b]]
  | line :: lines => (b :: line) :: lines

def splitLines : List UInt8 → List (List UInt8)
  | [] => []
  | 0x0D :: 0x0A :: rest => [0x0D, 0x0A] :: splitLines rest
  | b :: rest => if isLineBreak b then [b] :: splitLines rest else joinFirst b (splitLines rest)

/-- What it is for a text to fall into lines. Only the last line may go without a terminator, and a
carriage return is a terminator by itself only where no line feed follows. -/
inductive FallsInto : List UInt8 → List (List UInt8) → Prop
  | nil : FallsInto [] []
  | last {line : List UInt8} (hsome : line ≠ []) (hline : ∀ b ∈ line, isLineBreak b = false) :
      FallsInto line [line]
  | cons {body terminator rest : List UInt8} {lines : List (List UInt8)}
      (hbody : ∀ b ∈ body, isLineBreak b = false)
      (hterminator : terminator ∈ [[0x0D, 0x0A], [0x0A], [0x0D]])
      (hpair : terminator = [0x0D] → rest.head? ≠ some 0x0A) (hrest : FallsInto rest lines) :
      FallsInto (body ++ terminator ++ rest) ((body ++ terminator) :: lines)

variable {bytes : Bytes} {limit start : Nat} {b : UInt8} {text rest line more : List UInt8}
  {lines : List (List UInt8)}

theorem isLineBreak_iff : isLineBreak b = true ↔ b = 0x0A ∨ b = 0x0D := by
  simp [isLineBreak]

theorem splitLines_break (hbreak : isLineBreak b = true)
    (hpair : ¬(b = 0x0D ∧ rest.head? = some 0x0A)) : splitLines (b :: rest) = [b] :: splitLines rest := by
  rw [splitLines, if_pos hbreak]
  rintro tail rfl rfl
  exact hpair ⟨rfl, rfl⟩

theorem splitLines_inside (hinside : isLineBreak b = false) :
    splitLines (b :: rest) = joinFirst b (splitLines rest) := by
  rw [splitLines, hinside]
  · rfl
  · rintro tail rfl
    cases hinside

theorem FallsInto.terminator (terminator : List UInt8) (h : FallsInto rest lines)
    (hterminator : terminator ∈ [[0x0D, 0x0A], [0x0A], [0x0D]])
    (hpair : terminator = [0x0D] → rest.head? ≠ some 0x0A) :
    FallsInto (terminator ++ rest) (terminator :: lines) :=
  .cons (List.forall_mem_nil _) hterminator hpair h

/-- A byte that ends no line joins the first line of what follows. -/
theorem FallsInto.inside (h : FallsInto rest lines) (hinside : isLineBreak b = false) :
    FallsInto (b :: rest) (joinFirst b lines) := by
  have hall {body : List UInt8} (hbody : ∀ c ∈ body, isLineBreak c = false) :
      ∀ c ∈ b :: body, isLineBreak c = false := by
    intro c hc
    rcases List.mem_cons.mp hc with rfl | hc
    · exact hinside
    · exact hbody c hc
  cases h with
  | nil => exact .last (List.cons_ne_nil _ _) (hall (List.forall_mem_nil _))
  | last hsome hline => exact .last (List.cons_ne_nil _ _) (hall hline)
  | cons hbody hterminator hpair hrest => exact .cons (hall hbody) hterminator hpair hrest

theorem splitLines_fallsInto (text : List UInt8) : FallsInto text (splitLines text) := by
  induction text using splitLines.induct with
  | case1 => exact .nil
  | case2 rest ih =>
    exact ih.terminator [0x0D, 0x0A] (by decide) (fun hsame => absurd hsame (by decide))
  | case3 b rest hpair hbreak ih =>
    have hsingle : ¬(b = 0x0D ∧ rest.head? = some 0x0A) := by
      rintro ⟨rfl, hfeed⟩
      obtain ⟨tail, rfl⟩ := List.head?_eq_some_iff.mp hfeed
      exact hpair tail rfl rfl
    rw [splitLines_break hbreak hsingle]
    rcases isLineBreak_iff.mp hbreak with rfl | rfl
    · exact ih.terminator [0x0A] (by decide) (fun hsame => absurd hsame (by decide))
    · exact ih.terminator [0x0D] (by decide) (fun _ hfeed => hsingle ⟨rfl, hfeed⟩)
  | case4 b rest hpair hinside ih =>
    rw [Bool.not_eq_true] at hinside
    rw [splitLines_inside hinside]
    exact ih.inside hinside

theorem head?_extract (hlimit : limit ≤ bytes.size) :
    (bytes.extract start limit).toList.head? = some b ↔ start < limit ∧ bytes[start]? = some b := by
  by_cases hmore : start < limit
  · have hbyte : bytes[start]? = some bytes[start] := Array.getElem?_eq_getElem _
    rw [extract_cons hmore hbyte, hbyte]
    simp [hmore]
  · rw [extract_nil (Nat.le_of_not_lt hmore)]
    simp [hmore]

theorem lineEnd_self (hlimit : limit ≤ start) : bytes.lineEnd limit start = start := by
  have hzero : limit - start = 0 := by omega
  have hbreak : bytes.lineBreak limit start = start := by
    rw [lineBreak, skipWhile, hzero, skipUpTo]
  rw [lineEnd, hbreak]
  exact if_neg (Nat.not_lt_of_le hlimit)

theorem lineEnd_of_isLineBreak (hmore : start < limit) (hbyte : bytes[start]? = some b)
    (hbreak : isLineBreak b = true) :
    bytes.lineEnd limit start =
      if b = 0x0D ∧ start + 1 < limit ∧ bytes[start + 1]? = some 0x0A then start + 2 else start + 1 := by
  have hstays : bytes.lineBreak limit start = start := by
    obtain ⟨count, hcount⟩ := Nat.exists_eq_add_one.mpr (Nat.sub_pos_of_lt hmore)
    rw [lineBreak, skipWhile, hcount, skipUpTo, hbyte]
    simp [hbreak]
  rw [lineEnd, hstays, hbyte]
  simp only [hmore, if_true, Option.some.injEq]

/-- The first line of what remains reaches to its end, and the other lines begin there. -/
theorem splitLines_extract {bytes : Bytes} {limit start : Nat} (hlimit : limit ≤ bytes.size)
    (hmore : start < limit) :
    splitLines (bytes.extract start limit).toList =
      (bytes.extract start (bytes.lineEnd limit start)).toList ::
        splitLines (bytes.extract (bytes.lineEnd limit start) limit).toList := by
  have hbyte : bytes[start]? = some bytes[start] := Array.getElem?_eq_getElem _
  generalize bytes[start] = b at hbyte
  have hend : start < bytes.lineEnd limit start := lt_lineEnd hmore
  rw [extract_cons hmore hbyte, extract_cons hend hbyte]
  cases hbreak : isLineBreak b with
  | false =>
    have hsame := lineEnd_succ hmore hbyte hbreak
    rw [splitLines_inside hbreak]
    by_cases hlast : start + 1 < limit
    · rw [splitLines_extract hlimit hlast, hsame]
      rfl
    · -- It is the last byte, so its line is the last one.
      have hstop : bytes.lineEnd limit start = start + 1 := by
        rw [← hsame, lineEnd_self (Nat.le_of_not_lt hlast)]
      rw [hstop, extract_nil (Nat.le_of_not_lt hlast), extract_nil (Nat.le_refl _)]
      rfl
  | true =>
    have hstop := lineEnd_of_isLineBreak hmore hbyte hbreak
    by_cases hpair : b = 0x0D ∧ start + 1 < limit ∧ bytes[start + 1]? = some 0x0A
    · rw [if_pos hpair] at hstop
      obtain ⟨rfl, hroom, hfeed⟩ := hpair
      have hinner : start + 1 < start + 2 := Nat.lt_succ_self _
      rw [hstop, extract_cons hroom hfeed, extract_cons hinner hfeed, extract_nil (Nat.le_refl _),
        splitLines]
    · rw [if_neg hpair] at hstop
      have hsingle : ¬(b = 0x0D ∧ (bytes.extract (start + 1) limit).toList.head? = some 0x0A) := by
        rw [head?_extract hlimit]
        exact hpair
      rw [hstop, splitLines_break hbreak hsingle, extract_nil (Nat.le_refl _)]
termination_by limit - start

theorem any_isLineBreak_line (hlimit : limit ≤ bytes.size) (hstart : start ≤ limit) :
    (bytes.extract start (bytes.lineEnd limit start)).toList.any isLineBreak =
      decide (bytes.lineBreak limit start < limit) := by
  have hend : bytes.lineEnd limit start ≤ limit := lineEnd_le hstart
  have hfrom := bytes.le_lineBreak limit start
  rw [Bool.eq_iff_iff, decide_eq_true_iff, List.any_eq_true]
  constructor
  · rintro ⟨b, hmem, hbreak⟩
    obtain ⟨i, hi⟩ := List.getElem?_of_mem hmem
    rw [Array.getElem?_toList, Array.getElem?_extract] at hi
    split at hi
    case isFalse => cases hi
    case isTrue hless =>
      apply Nat.lt_of_not_le
      intro hwhole
      have hsame : bytes.lineEnd limit start = bytes.lineBreak limit start :=
        if_neg (Nat.not_lt_of_le hwhole)
      have hless : start + i < bytes.lineBreak limit start := by omega
      have hinside : isLineBreak b = false :=
        not_isLineBreak_of_lt (Nat.le_add_right start i) hless hi
      rw [hinside] at hbreak
      cases hbreak
  · intro hbroken
    have hbyte : bytes[bytes.lineBreak limit start]? = some bytes[bytes.lineBreak limit start] :=
      Array.getElem?_eq_getElem _
    have hless : bytes.lineBreak limit start < bytes.lineEnd limit start := by
      unfold lineEnd
      dsimp only
      rw [if_pos hbroken]
      split <;> omega
    refine ⟨_, ?_, isLineBreak_of_lineBreak hbroken hbyte⟩
    rw [bytes.extract_append hfrom (Nat.le_of_lt hless), extract_cons hless hbyte]
    exact List.mem_append_right _ List.mem_cons_self

end Bytes

namespace Diff

def beginnings : List (List UInt8 × TokenKind) :=
  [([Bytes.code '+'], .genericInserted), ([Bytes.code '-'], .genericDeleted),
    ([Bytes.code '!'], .genericStrong), ([Bytes.code '@'], .genericSubheading),
    ([Bytes.code '='], .genericHeading), ((Bytes.ofText "index").toList, .genericHeading),
    ((Bytes.ofText "Index").toList, .genericHeading), ((Bytes.ofText "diff").toList, .genericHeading)]

def kindBy (begins : List UInt8 → Bool) : List (List UInt8 × TokenKind) → TokenKind
  | [] => .ignorable
  | entry :: entries => if begins entry.1 then entry.2 else kindBy begins entries

def kindOfLine (line : List UInt8) : TokenKind :=
  if line.any Bytes.isLineBreak then kindBy (·.isPrefixOf line) beginnings else .ignorable

theorem kindBy_congr {begins begins' : List UInt8 → Bool} {entries : List (List UInt8 × TokenKind)}
    (hsame : ∀ entry ∈ entries, begins entry.1 = begins' entry.1) :
    kindBy begins entries = kindBy begins' entries := by
  induction entries with
  | nil => rfl
  | cons entry entries ih =>
    obtain ⟨hfirst, hothers⟩ := List.forall_mem_cons.mp hsame
    rw [kindBy, kindBy, hfirst, ih hothers]

theorem beginnings_unbroken {entry : List UInt8 × TokenKind} (hentry : entry ∈ beginnings) :
    ∀ b ∈ entry.1, Bytes.isLineBreak b = false := by
  revert entry
  decide +kernel

/-- A beginning without line breaks does not reach beyond the first terminator. -/
theorem isPrefixOf_append {pattern line more : List UInt8}
    (hpattern : ∀ b ∈ pattern, Bytes.isLineBreak b = false) (hline : line.any Bytes.isLineBreak = true) :
    pattern.isPrefixOf (line ++ more) = pattern.isPrefixOf line := by
  induction pattern generalizing line with
  | nil => rfl
  | cons first pattern ih =>
    cases line with
    | nil => cases hline
    | cons b line =>
      obtain ⟨hfirst, hothers⟩ := List.forall_mem_cons.mp hpattern
      by_cases hsame : first = b
      · have hinside : line.any Bytes.isLineBreak = true := by
          rw [List.any_cons, ← hsame, hfirst] at hline
          exact hline
        simp only [List.cons_append, List.isPrefixOf, ih hothers hinside]
      · have hother : (first == b) = false := beq_eq_false_iff_ne.mpr hsame
        simp only [List.cons_append, List.isPrefixOf, hother, Bool.false_and]

theorem lineKind_eq {w : Window} {cx : ScanContext w} {line more : List UInt8}
    (hrest : cx.rest.toList = line ++ more) (hline : line.any Bytes.isLineBreak = true) :
    lineKind cx = kindOfLine line := by
  have hkind : lineKind cx = kindBy cx.startsWith beginnings := rfl
  rw [hkind, kindOfLine, if_pos hline]
  apply kindBy_congr
  intro entry hentry
  rw [← isPrefixOf_append (beginnings_unbroken hentry) hline, ← hrest]
  exact Bytes.matchesAt_eq_isPrefixOf w.limit_le_size entry.1

theorem lineToken_eq {w : Window} (cx : ScanContext w) :
    (if cx.advanceLine.1 then lineKind cx else .ignorable) =
      kindOfLine (w.input.extract cx.cursor (w.input.lineEnd w.limit cx.cursor)).toList := by
  have hbroken := Bytes.any_isLineBreak_line w.limit_le_size cx.cursor_le_limit
  have hrest := w.input.extract_append (w.input.le_lineEnd w.limit cx.cursor)
    (Bytes.lineEnd_le cx.cursor_le_limit)
  rw [cx.advanceLine_eq.1, ← hbroken]
  split
  case isTrue hline => exact lineKind_eq hrest hline
  case isFalse hline => exact (if_neg hline).symm

end Diff

end Highlighting
