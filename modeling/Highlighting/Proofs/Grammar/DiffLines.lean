import Highlighting.Proofs.Grammar.Consumption

/-! The lines of a diff, and what a lexer for diffs makes of them. With a lexer for the bodies of lines,
a line with a marker is taken apart into the marker and its body; without one it is a single token. Either
way the marker is of the same kind, unless nothing terminates the line. -/
namespace Highlighting

namespace Bytes

variable {bytes : Bytes} {p : UInt8 → Bool} {limit start i : Nat} {b : UInt8}

theorem skipWhile_succ (hmore : start < limit) (hbyte : bytes[start]? = some b) (hp : p b = true) :
    bytes.skipWhile p limit start = bytes.skipWhile p limit (start + 1) := by
  have hcount : limit - start = limit - (start + 1) + 1 := by omega
  rw [skipWhile, hcount, skipUpTo, hbyte]
  simp only [hp, if_true]
  rfl

theorem skipUpTo_forall {count : Nat} (hi : start ≤ i) (hless : i < bytes.skipUpTo p count start)
    (hbyte : bytes[i]? = some b) : p b = true := by
  induction count generalizing start with
  | zero =>
    rw [skipUpTo] at hless
    omega
  | succ count ih =>
    rw [skipUpTo] at hless
    cases hfirst : bytes[start]? with
    | none =>
      simp only [hfirst] at hless
      omega
    | some first =>
      simp only [hfirst] at hless
      split at hless
      case isFalse => omega
      case isTrue hp =>
        by_cases hsame : i = start
        · rw [hsame, hfirst] at hbyte
          exact Option.some.inj hbyte ▸ hp
        · exact ih (by omega) hless

/-- Skipping ends at a byte that does not satisfy the condition, if it does not get to the limit. -/
theorem skipUpTo_stops {count : Nat} (hstop : bytes.skipUpTo p count start < start + count)
    (hbyte : bytes[bytes.skipUpTo p count start]? = some b) : p b = false := by
  induction count generalizing start with
  | zero =>
    rw [skipUpTo] at hstop
    omega
  | succ count ih =>
    rw [skipUpTo] at hstop hbyte
    cases hfirst : bytes[start]? with
    | none =>
      simp only [hfirst] at hbyte
      cases hbyte
    | some first =>
      simp only [hfirst] at hstop hbyte
      split at hbyte
      case isTrue hp =>
        rw [if_pos hp] at hstop
        exact ih (by omega) hbyte
      case isFalse hp =>
        rw [hfirst] at hbyte
        exact Option.some.inj hbyte ▸ Bool.eq_false_iff.mpr hp

/-- Where the line that holds an offset is broken off: at its terminator, or at the limit. -/
def lineBreak (bytes : Bytes) (limit start : Nat) : Nat :=
  bytes.skipWhile (fun b => !isLineBreak b) limit start

def lineEnd (bytes : Bytes) (limit start : Nat) : Nat :=
  let stop := bytes.lineBreak limit start
  if stop < limit then
    if bytes[stop]? = some 0x0D ∧ stop + 1 < limit ∧ bytes[stop + 1]? = some 0x0A then stop + 2
    else stop + 1
  else stop

theorem le_lineBreak (bytes : Bytes) (limit start : Nat) : start ≤ bytes.lineBreak limit start :=
  bytes.le_skipWhile _ limit start

theorem lineBreak_le (hstart : start ≤ limit) : bytes.lineBreak limit start ≤ limit :=
  bytes.skipWhile_le _ limit start hstart

theorem le_lineEnd (bytes : Bytes) (limit start : Nat) : start ≤ bytes.lineEnd limit start := by
  have hbreak := bytes.le_lineBreak limit start
  unfold lineEnd
  dsimp only
  split
  · split <;> omega
  · exact hbreak

theorem lt_lineEnd (hstart : start < limit) : start < bytes.lineEnd limit start := by
  have hbreak := bytes.le_lineBreak limit start
  unfold lineEnd
  dsimp only
  split
  · split <;> omega
  · omega

theorem lineEnd_le (hstart : start ≤ limit) : bytes.lineEnd limit start ≤ limit := by
  have hbreak : bytes.lineBreak limit start ≤ limit := lineBreak_le hstart
  unfold lineEnd
  dsimp only
  split
  · split <;> omega
  · exact hbreak

theorem isLineBreak_of_lineBreak (hbroken : bytes.lineBreak limit start < limit)
    (hbyte : bytes[bytes.lineBreak limit start]? = some b) : isLineBreak b = true := by
  have hstart := bytes.le_lineBreak limit start
  have hcount : limit = start + (limit - start) := by omega
  have hfails := skipUpTo_stops (p := fun b => !isLineBreak b) (Nat.lt_of_lt_of_eq hbroken hcount) hbyte
  simpa using hfails

theorem not_isLineBreak_of_lt (hi : start ≤ i) (hless : i < bytes.lineBreak limit start)
    (hbyte : bytes[i]? = some b) : isLineBreak b = false := by
  have hinside := skipUpTo_forall (p := fun b => !isLineBreak b) hi hless hbyte
  simpa using hinside

/-- A byte that ends no line is in the same line as the byte behind it. -/
theorem lineEnd_succ (hmore : start < limit) (hbyte : bytes[start]? = some b)
    (hinside : isLineBreak b = false) : bytes.lineEnd limit (start + 1) = bytes.lineEnd limit start := by
  have hsame : bytes.lineBreak limit start = bytes.lineBreak limit (start + 1) :=
    skipWhile_succ hmore hbyte (by simp [hinside])
  rw [lineEnd, lineEnd, hsame]

def LineStart (bytes : Bytes) (i : Nat) : Prop :=
  i = 0 ∨ ∃ b, bytes[i - 1]? = some b ∧ isLineBreak b = true

theorem lineStart_lineEnd (hlimit : limit ≤ bytes.size) (hbroken : bytes.lineBreak limit start < limit) :
    bytes.LineStart (bytes.lineEnd limit start) := by
  have hless : bytes.lineBreak limit start < bytes.size := Nat.lt_of_lt_of_le hbroken hlimit
  have hbyte := Array.getElem?_eq_getElem hless
  unfold lineEnd
  dsimp only
  rw [if_pos hbroken]
  split
  case isTrue hpair => exact Or.inr ⟨0x0A, hpair.2.2, rfl⟩
  case isFalse => exact Or.inr ⟨_, hbyte, isLineBreak_of_lineBreak hbroken hbyte⟩

/-- A shebang line ends where any first line does, if something terminates it. -/
theorem shebangLineEnd?_eq (hopens : bytes.opensWithShebang = true) :
    bytes.shebangLineEnd? =
      if bytes.lineBreak bytes.size 0 < bytes.size then some (bytes.lineEnd bytes.size 0) else none := by
  rw [shebangLineEnd?, if_pos hopens, lineEnd]
  dsimp only
  rw [lineBreak]
  generalize bytes.skipWhile _ bytes.size 0 = stop
  split
  case h_1 hreturn =>
    have hstop : stop < bytes.size := (Array.getElem?_eq_some_iff.mp hreturn).1
    rw [if_pos hstop, if_pos hstop]
    by_cases hfeed : bytes[stop + 1]? = some 0x0A
    · have hnext : stop + 1 < bytes.size := (Array.getElem?_eq_some_iff.mp hfeed).1
      rw [if_pos hfeed, if_pos ⟨hreturn, hnext, hfeed⟩]
    · rw [if_neg hfeed, if_neg (fun hpair => hfeed hpair.2.2)]
  case h_2 b hother hbyte =>
    have hstop : stop < bytes.size := (Array.getElem?_eq_some_iff.mp hbyte).1
    have hsingle : ¬ (bytes[stop]? = some 0x0D ∧ stop + 1 < bytes.size ∧
        bytes[stop + 1]? = some 0x0A) := by
      rintro ⟨hreturn, -, -⟩
      rw [hbyte] at hreturn
      exact hother (Option.some.inj hreturn)
    rw [if_pos hstop, if_pos hstop, if_neg hsingle]
  case h_3 hnone =>
    have hstop : bytes.size ≤ stop := Array.getElem?_eq_none_iff.mp hnone
    rw [if_neg (Nat.not_lt_of_le hstop)]

theorem shebangLineEnd?_lineStart {stop : Nat} (hstop : bytes.shebangLineEnd? = some stop) :
    bytes.LineStart stop := by
  by_cases hopens : bytes.opensWithShebang = true
  case pos =>
    rw [shebangLineEnd?_eq hopens] at hstop
    split at hstop
    case isTrue hbroken =>
      cases hstop
      exact lineStart_lineEnd (Nat.le_refl _) hbroken
    case isFalse => cases hstop
  case neg =>
    rw [shebangLineEnd?, if_neg hopens] at hstop
    cases hstop

structure OpensLastLine (bytes : Bytes) (i : Nat) : Prop where
  first : bytes.LineStart i
  unbroken : ∀ j b, i ≤ j → bytes[j]? = some b → isLineBreak b = false

end Bytes

namespace ScanContext

variable {w : Window} (cx : ScanContext w)

theorem advanceWhile_cursor (p : UInt8 → Bool) :
    (cx.advanceWhile p).cursor = w.input.skipWhile p w.limit cx.cursor := by
  have hle := w.input.skipWhile_le p w.limit cx.cursor cx.cursor_le_limit
  have hge := w.input.le_skipWhile p w.limit cx.cursor
  simp only [advanceWhile, advance, runLength, Nat.add_zero]
  omega

/-- Moving over a line: whether the line has a terminator, where it ends, and that the state has no part
in it. -/
theorem advanceLine_eq :
    cx.advanceLine.1 = decide (w.input.lineBreak w.limit cx.cursor < w.limit) ∧
      cx.advanceLine.2.cursor = w.input.lineEnd w.limit cx.cursor ∧
      cx.advanceLine.2.state = cx.state := by
  have hlimit := w.limit_le_size
  have hle : w.input.lineBreak w.limit cx.cursor ≤ w.limit := Bytes.lineBreak_le cx.cursor_le_limit
  have hge := w.input.le_lineBreak w.limit cx.cursor
  have hstop : (cx.advanceWhile (fun b => !Bytes.isLineBreak b)).cursor =
      w.input.lineBreak w.limit cx.cursor := cx.advanceWhile_cursor _
  have hstate : (cx.advanceWhile (fun b => !Bytes.isLineBreak b)).state = cx.state := rfl
  unfold advanceLine Bytes.lineEnd
  dsimp only
  generalize cx.advanceWhile (fun b => !Bytes.isLineBreak b) = stop at hstop hstate
  rw [← hstop] at hle hge ⊢
  by_cases hbroken : stop.cursor < w.limit
  case neg =>
    have hpeek : stop.peek = none := stop.peek_eq_none_iff.mpr (by simp [atEnd]; omega)
    simp only [hpeek, hbroken, decide_false, if_false, hstate, and_self]
  case pos =>
    have hless : stop.cursor < w.input.size := by omega
    have hbyte : stop.peek = some w.input[stop.cursor] := by
      simp only [peek, peekAt, Nat.add_zero, if_pos hbroken]
      exact Array.getElem?_eq_getElem hless
    have hbump : stop.bump.cursor = stop.cursor + 1 := by
      simp only [bump, advance]
      omega
    have hpeek : stop.bump.peek = some 0x0A ↔
        stop.cursor + 1 < w.limit ∧ w.input[stop.cursor + 1]? = some 0x0A := by
      simp only [peek, peekAt, Nat.add_zero, hbump]
      by_cases hroom : stop.cursor + 1 < w.limit
      · simp only [hroom, if_true, true_and]
      · simp only [hroom, if_false, false_and, reduceCtorEq]
    rw [hbyte, Array.getElem?_eq_getElem hless]
    simp only [hbroken, decide_true, if_true]
    generalize w.input[stop.cursor] = b
    split
    case h_1 hreturn =>
      simp only [hreturn, hpeek, true_and]
      split
      case isTrue =>
        have htwice : stop.bump.bump.cursor = stop.cursor + 2 := by
          rw [bump, advance]
          simp only [hbump]
          omega
        exact ⟨htwice, hstate⟩
      case isFalse => exact ⟨hbump, hstate⟩
    case h_2 value hother heq =>
      have hsingle : some b ≠ some 0x0D := by
        rw [heq]
        exact fun hsame => hother (Option.some.inj hsame)
      simp only [hsingle, false_and, if_false, true_and]
      exact ⟨hbump, hstate⟩
    case h_3 hnone => cases hnone

variable {cx} {w' : Window} {cx' : ScanContext w'}

/-- What lies ahead, and nothing else, decides what is seen. -/
theorem startsWith_congr (hinput : w.input = w'.input) (hlimit : w.limit = w'.limit)
    (hcursor : cx.cursor = cx'.cursor) (pattern : List UInt8) :
    cx.startsWith pattern = cx'.startsWith pattern := by
  rw [startsWith, startsWith, hinput, hlimit, hcursor]

theorem peek_congr (hinput : w.input = w'.input) (hlimit : w.limit = w'.limit)
    (hcursor : cx.cursor = cx'.cursor) : cx.peek = cx'.peek := by
  rw [peek, peek, peekAt, peekAt, hinput, hlimit, hcursor]

theorem getElem?_of_peek {b : UInt8} (hpeek : cx.peek = some b) : w.input[cx.cursor]? = some b := by
  simp only [peek, peekAt, Nat.add_zero] at hpeek
  split at hpeek
  · exact hpeek
  · cases hpeek

theorem startsWith_singleton (b : UInt8) : cx.startsWith [b] = (cx.peek == some b) := by
  simp only [startsWith, Bytes.matchesAt, peek, peekAt, Nat.add_zero, Bool.and_true]
  split <;> simp [*]

theorem startsWith_of_peek_ne {b first : UInt8} (hpeek : cx.peek = some b) (hother : b ≠ first)
    (rest : List UInt8) : cx.startsWith (first :: rest) = false := by
  have hsingle := cx.startsWith_singleton first
  rw [hpeek] at hsingle
  simp only [startsWith, Bytes.matchesAt, Bool.and_true] at hsingle ⊢
  rw [hsingle]
  simp [hother]

end ScanContext

namespace Diff

variable {w w' : Window} {cx : ScanContext w} {cx' : ScanContext w'} {content? : Option LanguageId}
  {body : Body}

inductive Scanned (content? : Option LanguageId) (cx : ScanContext w) : ScanEvent → ScanContext w → Prop
  | done (hend : w.limit ≤ cx.cursor) : Scanned content? cx .done cx
  | handed (target : LanguageId) (hmore : cx.cursor < w.limit) (hcontent : content? = some target)
      (hbody : cx.state.condition ≠ 0) :
      Scanned content? cx
        (.delegate { mode := .within, target := target, fallback := bodyKind cx.state.condition })
        (cx.advanceLine.2.setState (cx.state.start 0))
  | kept (hmore : cx.cursor < w.limit) (hcontent : content? = none) (hbody : cx.state.condition ≠ 0) :
      Scanned content? cx (.token (bodyKind cx.state.condition))
        (cx.advanceLine.2.setState (cx.state.start 0))
  | marker (body : Body) (hmore : cx.cursor < w.limit) (hcontent : content?.isSome)
      (hstart : cx.state.condition = 0) (hbody : announced? cx = some body) :
      Scanned content? cx (.token body.markerKind)
        ((cx.advance 1).setState (cx.state.start body.condition))
  | line (hmore : cx.cursor < w.limit) (hstart : cx.state.condition = 0)
      (hbody : content?.isSome → announced? cx = none) :
      Scanned content? cx (.token (if cx.advanceLine.1 then lineKind cx else .ignorable))
        cx.advanceLine.2

theorem scan_scanned (content? : Option LanguageId) (cx : ScanContext w) :
    Scanned content? cx (scan content? cx).1 (scan content? cx).2 := by
  have hstate := cx.advanceLine_eq.2.2
  unfold scan
  split
  case isTrue hend => exact .done (of_decide_eq_true hend)
  case isFalse hmore =>
    rw [Bool.not_eq_true, cx.atEnd_eq_false_iff] at hmore
    split
    case isTrue hbody =>
      unfold scanBody
      dsimp only
      rw [hstate]
      cases content? with
      | none => exact .kept hmore rfl hbody
      | some target => exact .handed target hmore rfl hbody
    case isFalse hstart =>
      have hzero : cx.state.condition = 0 := Decidable.not_not.mp hstart
      cases content? with
      | none => exact .line hmore hzero (fun hsome => nomatch hsome)
      | some target =>
        cases hbody : announced? cx with
        | none =>
          simp only [Option.bind_some]
          exact .line hmore hzero (fun _ => hbody)
        | some body =>
          simp only [Option.bind_some]
          exact .marker body hmore rfl hzero hbody

theorem announced?_congr (hinput : w.input = w'.input) (hlimit : w.limit = w'.limit)
    (hcursor : cx.cursor = cx'.cursor) : announced? cx = announced? cx' := by
  simp only [announced?, ScanContext.startsWith_congr hinput hlimit hcursor,
    ScanContext.peek_congr hinput hlimit hcursor]

theorem lineKind_congr (hinput : w.input = w'.input) (hlimit : w.limit = w'.limit)
    (hcursor : cx.cursor = cx'.cursor) : lineKind cx = lineKind cx' := by
  simp only [lineKind, ScanContext.startsWith_congr hinput hlimit hcursor]

theorem Body.ofMarker?_eq_some {b : UInt8} (h : Body.ofMarker? b = some body) :
    b = 0x2B ∧ body = .inserted ∨ b = 0x2D ∧ body = .deleted ∨ b = 0x20 ∧ body = .context := by
  have hplus : Bytes.code '+' = 0x2B := by decide
  have hminus : Bytes.code '-' = 0x2D := by decide
  have hblank : Bytes.code ' ' = 0x20 := by decide
  simp only [ofMarker?, hplus, hminus, hblank, beq_iff_eq] at h
  split at h
  · exact Or.inl ⟨‹_›, (Option.some.inj h).symm⟩
  · split at h
    · exact Or.inr (Or.inl ⟨‹_›, (Option.some.inj h).symm⟩)
    · split at h
      · exact Or.inr (Or.inr ⟨‹_›, (Option.some.inj h).symm⟩)
      · cases h

theorem Body.condition_ne_zero (body : Body) : body.condition ≠ 0 := by
  cases body <;> decide

theorem Body.not_isLineBreak_of_ofMarker? {b : UInt8} (h : Body.ofMarker? b = some body) :
    Bytes.isLineBreak b = false := by
  rcases Body.ofMarker?_eq_some h with ⟨rfl, -⟩ | ⟨rfl, -⟩ | ⟨rfl, -⟩
  · decide
  · decide
  · decide

theorem announced?_eq_some (h : announced? cx = some body) :
    ∃ b, cx.peek = some b ∧ Body.ofMarker? b = some body := by
  unfold announced? at h
  split at h
  · cases h
  · exact Option.bind_eq_some_iff.mp h

theorem lineKind_of_announced (h : announced? cx = some body) : lineKind cx = body.markerKind := by
  obtain ⟨b, hpeek, hmarker⟩ := announced?_eq_some h
  have hindex : (Bytes.ofText "index").toList = 0x69 :: [0x6E, 0x64, 0x65, 0x78] := by decide
  have hIndex : (Bytes.ofText "Index").toList = 0x49 :: [0x6E, 0x64, 0x65, 0x78] := by decide
  have hdiff : (Bytes.ofText "diff").toList = 0x64 :: [0x69, 0x66, 0x66] := by decide
  rcases Body.ofMarker?_eq_some hmarker with ⟨rfl, rfl⟩ | ⟨rfl, rfl⟩ | ⟨rfl, rfl⟩
  · simp [lineKind, ScanContext.startsWith_singleton, hpeek, Body.markerKind]
  · simp [lineKind, ScanContext.startsWith_singleton, hpeek, Body.markerKind]
  · simp [lineKind, hindex, hIndex, hdiff, ScanContext.startsWith_of_peek_ne hpeek, Body.markerKind]

def lineAt (input : Bytes) (start : Nat) : ScanContext (Window.clamp input start input.size) :=
  .opening _ {}

def wholeKind (input : Bytes) (start : Nat) : TokenKind :=
  if input.lineBreak input.size start < input.size then lineKind (lineAt input start) else .ignorable

/-- The kinds of the bytes of a line, if there is one: those of a body that is handed over are not the
matter of the diff. -/
def lineMarks (delegates : Bool) (input : Bytes) (start : Nat) : List (Option TokenKind) :=
  match if delegates then announced? (lineAt input start) else none with
  | some body =>
    some body.markerKind :: List.replicate (input.lineEnd input.size start - (start + 1)) none
  | none => List.replicate (input.lineEnd input.size start - start) (some (wholeKind input start))

def marks (delegates : Bool) (input : Bytes) (start : Nat) : List (Option TokenKind) :=
  if start < input.size then
    lineMarks delegates input start ++ marks delegates input (input.lineEnd input.size start)
  else []
termination_by input.size - start
decreasing_by
  have hmore : start < input.lineEnd input.size start := Bytes.lt_lineEnd ‹start < input.size›
  omega

section Marks

variable {delegates : Bool} {input : Bytes} {start i : Nat} {kind : TokenKind}

theorem lineAt_cursor (hstart : start ≤ input.size) : (lineAt input start).cursor = start := by
  simp only [lineAt, ScanContext.opening, Window.clamp]
  omega

theorem lineMarks_length (hmore : start < input.size) :
    (lineMarks delegates input start).length = input.lineEnd input.size start - start := by
  have hline : start < input.lineEnd input.size start := Bytes.lt_lineEnd hmore
  unfold lineMarks
  split
  · simp only [List.length_cons, List.length_replicate]
    omega
  · exact List.length_replicate

theorem lineAt_limit (input : Bytes) (start : Nat) :
    (Window.clamp input start input.size).limit = input.size :=
  Nat.min_self _

theorem lineAt_peek (hmore : start < input.size) : (lineAt input start).peek = input[start]? := by
  rw [ScanContext.peek, ScanContext.peekAt, lineAt_cursor (Nat.le_of_lt hmore), lineAt_limit,
    Nat.add_zero, if_pos hmore]
  rfl

/-- The kinds of the bytes from an offset on, where those before `stop` are handed over. -/
def marksFrom (delegates : Bool) (input : Bytes) (start stop : Nat) : List (Option TokenKind) :=
  List.replicate (stop - start) none ++ marks delegates input stop

theorem marksFrom_self (start : Nat) :
    marksFrom delegates input start start = marks delegates input start := by
  rw [marksFrom, Nat.sub_self]
  rfl

theorem marks_size : marks delegates input input.size = [] := by
  rw [marks, if_neg (Nat.lt_irrefl _)]

theorem marksFrom_handed {next stop : Nat} (hstart : start ≤ next) (hnext : next ≤ stop) :
    marksFrom delegates input start stop =
      List.replicate (next - start) none ++ marksFrom delegates input next stop := by
  have hcount : stop - start = (next - start) + (stop - next) := by omega
  rw [marksFrom, hcount, ← List.replicate_append_replicate, List.append_assoc]
  rfl

section Scanned

variable (hinput : w.input = input) (hlimit : w.limit = input.size) (hcursor : cx.cursor = start)

include hinput hlimit hcursor

/-- A scan call at the beginning of a line sees what the line is. -/
theorem scanned_line :
    announced? (lineAt input start) = announced? cx ∧ lineKind (lineAt input start) = lineKind cx := by
  have hwhole := (lineAt_limit input start).trans hlimit.symm
  have hstart : start ≤ input.size := by
    rw [← hcursor, ← hlimit]
    exact cx.cursor_le_limit
  have hsame := (lineAt_cursor hstart).trans hcursor.symm
  exact ⟨announced?_congr hinput.symm hwhole hsame, lineKind_congr hinput.symm hwhole hsame⟩

theorem lineMarks_of_announced (hbody : announced? cx = some body) :
    lineMarks true input start =
      some body.markerKind ::
        List.replicate (input.lineEnd input.size start - (start + 1)) none := by
  rw [lineMarks, if_pos rfl, (scanned_line hinput hlimit hcursor).1, hbody]

theorem lineMarks_of_whole (hbody : delegates = true → announced? cx = none) :
    lineMarks delegates input start =
      List.replicate (input.lineEnd input.size start - start)
        (some (if cx.advanceLine.1 then lineKind cx else .ignorable)) := by
  obtain ⟨hannounced, hkind⟩ := scanned_line hinput hlimit hcursor
  have hnone : (if delegates then announced? (lineAt input start) else none) = none := by
    rw [hannounced]
    split
    case isTrue hdelegates => exact hbody hdelegates
    case isFalse => rfl
  have hflag : cx.advanceLine.1 = decide (input.lineBreak input.size start < input.size) := by
    rw [cx.advanceLine_eq.1, hinput, hlimit, hcursor]
  rw [lineMarks, hnone]
  simp only [wholeKind, hkind, hflag, decide_eq_true_eq]

theorem marksFrom_marker (hmore : start < input.size) (hbody : announced? cx = some body) :
    marksFrom true input start start =
      List.replicate 1 (some body.markerKind) ++
        marksFrom true input (start + 1) (input.lineEnd input.size (start + 1)) := by
  obtain ⟨b, hpeek, hmarker⟩ := announced?_eq_some hbody
  have hbyte : input[start]? = some b := by
    rw [← hinput, ← hcursor]
    exact ScanContext.getElem?_of_peek hpeek
  have hsame : input.lineEnd input.size (start + 1) = input.lineEnd input.size start :=
    Bytes.lineEnd_succ hmore hbyte (Body.not_isLineBreak_of_ofMarker? hmarker)
  rw [marksFrom_self, marks, if_pos hmore, lineMarks_of_announced hinput hlimit hcursor hbody, hsame]
  rfl

theorem marksFrom_whole (hmore : start < input.size)
    (hbody : delegates = true → announced? cx = none) :
    marksFrom delegates input start start =
      List.replicate (input.lineEnd input.size start - start)
          (some (if cx.advanceLine.1 then lineKind cx else .ignorable)) ++
        marksFrom delegates input (input.lineEnd input.size start)
          (input.lineEnd input.size start) := by
  rw [marksFrom_self, marks, if_pos hmore, lineMarks_of_whole hinput hlimit hcursor hbody,
    marksFrom_self]

end Scanned

/-- A marker is of the same kind whether its line is taken apart or not, provided that something
terminates the line. -/
theorem lineMarks_agree (hstart : input.LineStart start) (hmore : start < input.size)
    (hmark : (lineMarks true input start)[i]? = some (some kind)) :
    (lineMarks false input start)[i]? = some (some kind) ∨
      (lineMarks false input start)[i]? = some (some .ignorable) ∧ input.OpensLastLine (start + i) ∧
        ∃ b body, input[start + i]? = some b ∧ Body.ofMarker? b = some body ∧
          kind = body.markerKind := by
  have hline : start < input.lineEnd input.size start := Bytes.lt_lineEnd hmore
  have hplain : lineMarks false input start =
      List.replicate (input.lineEnd input.size start - start) (some (wholeKind input start)) := rfl
  rw [hplain]
  cases hbody : announced? (lineAt input start) with
  | none =>
    simp only [lineMarks, hbody, if_true] at hmark
    exact Or.inl hmark
  | some body =>
    simp only [lineMarks, hbody, if_true] at hmark
    cases i with
    | succ i =>
      rw [List.getElem?_cons_succ, List.getElem?_replicate] at hmark
      split at hmark <;> cases hmark
    | zero =>
      rw [List.getElem?_cons_zero] at hmark
      have hkind : kind = body.markerKind := (Option.some.inj (Option.some.inj hmark)).symm
      have hfirst : (List.replicate (input.lineEnd input.size start - start)
          (some (wholeKind input start)))[0]? = some (some (wholeKind input start)) := by
        rw [List.getElem?_replicate, if_pos (by omega)]
      rw [hfirst]
      by_cases hbroken : input.lineBreak input.size start < input.size
      · rw [wholeKind, if_pos hbroken, lineKind_of_announced hbody, hkind]
        exact Or.inl rfl
      · obtain ⟨b, hpeek, hmarker⟩ := announced?_eq_some hbody
        rw [lineAt_peek hmore] at hpeek
        have hunbroken (j : Nat) (b : UInt8) (hj : start ≤ j) (hbyte : input[j]? = some b) :
            Bytes.isLineBreak b = false := by
          have hless : j < input.lineBreak input.size start :=
            Nat.lt_of_lt_of_le (Array.getElem?_eq_some_iff.mp hbyte).1 (Nat.le_of_not_lt hbroken)
          exact Bytes.not_isLineBreak_of_lt hj hless hbyte
        rw [wholeKind, if_neg hbroken]
        exact Or.inr ⟨rfl, ⟨hstart, hunbroken⟩, b, body, hpeek, hmarker, hkind⟩

/-- Whether lines are taken apart makes no difference to the kinds of the bytes that are not handed over,
but for the marker of a last line that nothing terminates. -/
theorem marks_agree {input : Bytes} {start i : Nat} {kind : TokenKind} (hstart : input.LineStart start)
    (hmark : (marks true input start)[i]? = some (some kind)) :
    (marks false input start)[i]? = some (some kind) ∨
      (marks false input start)[i]? = some (some .ignorable) ∧ input.OpensLastLine (start + i) ∧
        ∃ b body, input[start + i]? = some b ∧ Body.ofMarker? b = some body ∧
          kind = body.markerKind := by
  by_cases hmore : start < input.size
  case neg =>
    rw [marks, if_neg hmore] at hmark
    cases hmark
  case pos =>
    have hline : start < input.lineEnd input.size start := Bytes.lt_lineEnd hmore
    have hlength (delegates : Bool) : (lineMarks delegates input start).length =
        input.lineEnd input.size start - start := lineMarks_length hmore
    rw [marks, if_pos hmore] at hmark ⊢
    by_cases hhere : i < input.lineEnd input.size start - start
    · rw [List.getElem?_append_left (by rw [hlength]; exact hhere)] at hmark ⊢
      exact lineMarks_agree hstart hmore hmark
    · rw [List.getElem?_append_right (by rw [hlength]; omega), hlength] at hmark ⊢
      have hnext : input.lineEnd input.size start < input.size := by
        apply Nat.lt_of_not_le
        intro hend
        rw [marks, if_neg (Nat.not_lt_of_le hend)] at hmark
        cases hmark
      have hbroken : input.lineBreak input.size start < input.size := by
        apply Nat.lt_of_not_le
        intro hend
        rw [Bytes.lineEnd, if_neg (Nat.not_lt_of_le hend)] at hnext
        exact Nat.not_lt_of_le hend hnext
      have hrest := marks_agree (Bytes.lineStart_lineEnd (Nat.le_refl _) hbroken) hmark
      have hsame : input.lineEnd input.size start + (i - (input.lineEnd input.size start - start)) =
          start + i := by omega
      rw [hsame] at hrest
      exact hrest
termination_by input.size - start

end Marks

end Diff

end Highlighting
