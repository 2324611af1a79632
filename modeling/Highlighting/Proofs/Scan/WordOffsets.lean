import Highlighting.Proofs.Grammar.LineKinds
import Highlighting.Scan.Action
import Mathlib.Data.UInt

/-! Scan contexts with offsets of 64 bits. Words are in order only as far as the moves keep them so, and
where a sum is no word, bounds are crossed or a slice does not lie in the input, a move has no result. No
sequence of moves gets there: the words are the offsets of the scan context that makes the same moves, and
so they stay inside its window. -/
namespace Highlighting

namespace Word

def add? (a b : UInt64) : Option UInt64 :=
  if a.toNat + b.toNat < UInt64.size then some (a + b) else none

def saturatingAdd (a b : UInt64) : UInt64 :=
  (add? a b).getD (UInt64.ofNat (UInt64.size - 1))

def sub? (a b : UInt64) : Option UInt64 :=
  if b ≤ a then some (a - b) else none

/-- The nearest word between two bounds. There is none between bounds that are crossed. -/
def clamp? (a low high : UInt64) : Option UInt64 :=
  if low ≤ high then some (max low (min a high)) else none

theorem add?_eq_some {a b : UInt64} (hfits : a.toNat + b.toNat < UInt64.size) :
    ∃ sum, add? a b = some sum ∧ sum.toNat = a.toNat + b.toNat := by
  refine ⟨a + b, if_pos hfits, ?_⟩
  rw [UInt64.toNat_add, Nat.mod_eq_of_lt hfits]

/-- The last word is behind every limit, so a limit cuts off what was added in excess. -/
theorem min_saturatingAdd (a b limit : UInt64) :
    (min (saturatingAdd a b) limit).toNat = min (a.toNat + b.toNat) limit.toNat := by
  have hlimit := limit.toNat_lt_size
  rw [UInt64.toNat_min, saturatingAdd]
  by_cases hfits : a.toNat + b.toNat < UInt64.size
  · obtain ⟨sum, hsum, hvalue⟩ := add?_eq_some hfits
    rw [hsum, Option.getD_some, hvalue]
  · have hlast : (UInt64.ofNat (UInt64.size - 1)).toNat = UInt64.size - 1 := rfl
    rw [add?, if_neg hfits, Option.getD_none, hlast]
    omega

end Word

def Bytes.slice? (bytes : Bytes) (start stop : UInt64) : Option Bytes :=
  if start ≤ stop ∧ stop.toNat ≤ bytes.size then some (bytes.extract start.toNat stop.toNat) else none

theorem Bytes.slice?_eq_some {bytes : Bytes} {start stop : UInt64} (horder : start.toNat ≤ stop.toNat)
    (hsize : stop.toNat ≤ bytes.size) :
    bytes.slice? start stop = some (bytes.extract start.toNat stop.toNat) :=
  if_pos ⟨UInt64.le_iff_toNat_le.mpr horder, hsize⟩

/-- A scan context in words. Nothing is known about their order. -/
structure WordContext where
  input : Bytes
  start : UInt64
  cursor : UInt64
  limit : UInt64
  state : ScanState

namespace WordContext

def opening (input : Bytes) (start limit : UInt64) (state : ScanState) : WordContext :=
  let limit := min limit (UInt64.ofNat input.size)
  let start := min start limit
  { input := input, start := start, cursor := start, limit := limit, state := state }

variable (words : WordContext)

def text? : Option Bytes :=
  words.input.slice? words.start words.cursor

def rest? : Option Bytes :=
  words.input.slice? words.cursor words.limit

def peek? : Option (Option UInt8) :=
  words.rest?.map (fun rest => rest[0]?)

def atLineStart? : Option Bool :=
  if words.cursor = 0 then some true
  else do
    let before ← Word.sub? words.cursor 1
    let b ← words.input[before.toNat]?
    return b == 0x0A

def forward (count : UInt64) : Option WordContext := do
  let cursor ← Word.add? words.cursor count
  return { words with cursor := cursor }

def bump : Option (ScanAnswer × WordContext) := do
  match ← words.peek? with
  | none => return (.byte none, words)
  | some b =>
    let after ← words.forward 1
    return (.byte (some b), after)

def advance (count : UInt64) : WordContext :=
  { words with cursor := min (Word.saturatingAdd words.cursor count) words.limit }

def advanceWhile (p : Nat → UInt8 → Bool) : Option (ScanAnswer × WordContext) := do
  let rest ← words.rest?
  let count := (rest.toList.zipIdx.takeWhile (fun entry => p entry.2 entry.1)).length
  let after ← words.forward (UInt64.ofNat count)
  return (.count count, after)

def advanceLine : Option (ScanAnswer × WordContext) := do
  let (_, stop) ← words.advanceWhile (fun _ b => !Bytes.isLineBreak b)
  match ← stop.peek? with
  | some 0x0D =>
    let past ← stop.forward 1
    if (← past.peek?) = some 0x0A then
      let behind ← past.forward 1
      return (.flag true, behind)
    else return (.flag true, past)
  | some 0x0A =>
    let past ← stop.forward 1
    return (.flag true, past)
  | _ => return (.flag false, stop)

def setCursor (position : UInt64) : Option WordContext := do
  let cursor ← Word.clamp? position words.start words.limit
  return { words with cursor := cursor }

end WordContext

inductive WordMove where
  | bump
  | advance (count : UInt64)
  /-- The answers of a condition may change from call to call, so it is told the number of calls
  before. -/
  | advanceWhile (p : Nat → UInt8 → Bool)
  | advanceLine
  | setCursor (position : UInt64)
  | changeState (change : ScanState → ScanState)

namespace WordMove

def performWords (move : WordMove) (words : WordContext) : Option (ScanAnswer × WordContext) :=
  match move with
  | .bump => words.bump
  | .advance count => some (.nothing, words.advance count)
  | .advanceWhile p => words.advanceWhile p
  | .advanceLine => words.advanceLine
  | .setCursor position => (words.setCursor position).map (fun after => (.nothing, after))
  | .changeState change => some (.nothing, { words with state := change words.state })

def performAllWords (moves : List WordMove) (words : WordContext) : Option WordContext :=
  moves.foldlM (fun words move => (move.performWords words).map Prod.snd) words

variable {w : Window}

def passing (p : Nat → UInt8 → Bool) (cx : ScanContext w) : Nat :=
  (cx.rest.toList.zipIdx.takeWhile (fun entry => p entry.2 entry.1)).length

def perform (move : WordMove) (cx : ScanContext w) : ScanAnswer × ScanContext w :=
  match move with
  | .bump => ScanAction.bump.perform cx
  | .advance count => (ScanAction.advance count.toNat).perform cx
  | .advanceWhile p => (.count (passing p cx), cx.advance (passing p cx))
  | .advanceLine => ScanAction.advanceLine.perform cx
  | .setCursor position => (ScanAction.setCursor position.toNat).perform cx
  | .changeState change => (.nothing, cx.setState (change cx.state))

def performAll (moves : List WordMove) (cx : ScanContext w) : ScanContext w :=
  moves.foldl (fun cx move => (move.perform cx).2) cx

end WordMove

namespace ScanContext

variable {w : Window} (cx : ScanContext w)

theorem eq_false_of_peek_advanceWhile {p : UInt8 → Bool} {b : UInt8}
    (hpeek : (cx.advanceWhile p).peek = some b) : p b = false := by
  have hless := (cx.advanceWhile p).cursor_lt_of_peek hpeek
  have hbyte := getElem?_of_peek hpeek
  have hcount : cx.cursor + (w.limit - cx.cursor) = w.limit := Nat.add_sub_cancel' cx.cursor_le_limit
  rw [advanceWhile_cursor] at hless hbyte
  exact Bytes.skipUpTo_stops (Nat.lt_of_lt_of_eq hless hcount.symm) hbyte

theorem text_append_rest : cx.text ++ cx.rest = w.input.extract w.start w.limit := by
  rw [text, rest, Array.extract_append_extract, Nat.min_eq_left cx.start_le_cursor,
    Nat.max_eq_right cx.cursor_le_limit]

end ScanContext

namespace WordMove

variable {w : Window} (cx : ScanContext w)

theorem passing_le (p : Nat → UInt8 → Bool) : cx.cursor + passing p cx ≤ w.limit := by
  have hlimit := w.limit_le_size
  have hcursor := cx.cursor_le_limit
  have hpassing : passing p cx ≤ cx.rest.toList.zipIdx.length :=
    (List.takeWhile_prefix _).length_le
  have hrest : cx.rest.toList.zipIdx.length = w.limit - cx.cursor := by
    rw [List.length_zipIdx, Array.length_toList, ScanContext.rest, Array.size_extract,
      Nat.min_eq_left hlimit]
  omega

/-- A condition that does not change is one of the conditions of a scan context. -/
theorem perform_advanceWhile (p : UInt8 → Bool) :
    (advanceWhile (fun _ => p)).perform cx = (ScanAction.advanceWhile p).perform cx := by
  have hrest : cx.rest.toList = [] ++ cx.rest.toList := rfl
  have hrun : cx.runLength p 0 = (cx.rest.toList.takeWhile p).length :=
    ScanContext.runLength_length hrest p
  have hpassing : passing (fun _ => p) cx = cx.runLength p 0 := by
    rw [hrun, ← List.zipIdx_map_fst 0 cx.rest.toList, List.takeWhile_map, List.length_map]
    rfl
  rw [perform, hpassing]
  rfl

end WordMove

structure WordContext.Holds {w : Window} (words : WordContext) (cx : ScanContext w) : Prop where
  input : words.input = w.input
  start : words.start.toNat = w.start
  cursor : words.cursor.toNat = cx.cursor
  limit : words.limit.toNat = w.limit
  state : words.state = cx.state

namespace WordContext.Holds

variable {w : Window} {cx : ScanContext w} {words : WordContext}

theorem text (h : words.Holds cx) : words.text? = some cx.text := by
  have horder : words.start.toNat ≤ words.cursor.toNat := by
    rw [h.start, h.cursor]
    exact cx.start_le_cursor
  have hsize : words.cursor.toNat ≤ words.input.size := by
    rw [h.cursor, h.input]
    exact Nat.le_trans cx.cursor_le_limit w.limit_le_size
  rw [text?, Bytes.slice?_eq_some horder hsize, h.input, h.start, h.cursor]
  rfl

theorem rest (h : words.Holds cx) : words.rest? = some cx.rest := by
  have horder : words.cursor.toNat ≤ words.limit.toNat := by
    rw [h.cursor, h.limit]
    exact cx.cursor_le_limit
  have hsize : words.limit.toNat ≤ words.input.size := by
    rw [h.limit, h.input]
    exact w.limit_le_size
  rw [rest?, Bytes.slice?_eq_some horder hsize, h.input, h.cursor, h.limit]
  rfl

theorem peek (h : words.Holds cx) : words.peek? = some cx.peek := by
  rw [peek?, h.rest, ScanContext.peek, cx.peekAt_eq_getElem?, Array.getElem?_toList]
  rfl

theorem atLineStart (h : words.Holds cx) : words.atLineStart? = some cx.atLineStart := by
  unfold atLineStart? ScanContext.atLineStart
  by_cases hzero : words.cursor = 0
  · have hfirst : cx.cursor = 0 := by
      rw [← h.cursor, hzero]
      rfl
    simp [hzero, hfirst]
  · -- There is a word before the cursor, and a byte at it.
    have hpositive : 0 < words.cursor.toNat := by
      apply Nat.pos_of_ne_zero
      intro hnone
      exact hzero (UInt64.toNat_inj.mp hnone)
    have hone : (1 : UInt64) ≤ words.cursor := UInt64.le_iff_toNat_le.mpr hpositive
    have hbefore : (words.cursor - 1).toNat = cx.cursor - 1 := by
      rw [UInt64.toNat_sub_of_le _ _ hone, h.cursor]
      rfl
    have hinside : cx.cursor - 1 < w.input.size := by
      have hlimit := w.limit_le_size
      have hcursor := cx.cursor_le_limit
      rw [h.cursor] at hpositive
      omega
    have hlater : cx.cursor ≠ 0 := by
      rw [← h.cursor]
      exact Nat.ne_of_gt hpositive
    rw [if_neg hzero, Word.sub?, if_pos hone]
    simp only [Option.bind_eq_bind, Option.bind_some, hbefore, h.input,
      Array.getElem?_eq_getElem hinside, Option.pure_def]
    simp [hlater]

theorem move (h : words.Holds cx) {after : ScanContext w} {cursor : UInt64}
    (hcursor : cursor.toNat = after.cursor) (hstate : after.state = cx.state) :
    { words with cursor := cursor }.Holds after where
  input := h.input
  start := h.start
  cursor := hcursor
  limit := h.limit
  state := h.state.trans hstate.symm

theorem forward (h : words.Holds cx) {count : UInt64} (hroom : cx.cursor + count.toNat ≤ w.limit) :
    ∃ after, words.forward count = some after ∧ after.Holds (cx.advance count.toNat) := by
  have hfits : words.cursor.toNat + count.toNat < UInt64.size := by
    rw [h.cursor]
    rw [← h.limit] at hroom
    exact Nat.lt_of_le_of_lt hroom words.limit.toNat_lt_size
  obtain ⟨sum, hsum, hvalue⟩ := Word.add?_eq_some hfits
  refine ⟨{ words with cursor := sum }, ?_, h.move ?_ rfl⟩
  · rw [WordContext.forward, hsum]
    rfl
  · rw [hvalue, h.cursor]
    exact (Nat.min_eq_left hroom).symm

theorem step (h : words.Holds cx) {b : UInt8} (hpeek : cx.peek = some b) :
    ∃ after, words.forward 1 = some after ∧ after.Holds cx.bump := by
  have hmore := cx.cursor_lt_of_peek hpeek
  exact h.forward hmore

def Agrees (result : Option (ScanAnswer × WordContext)) (expected : ScanAnswer × ScanContext w) : Prop :=
  ∃ after, result = some (expected.1, after) ∧ after.Holds expected.2

theorem bump (h : words.Holds cx) : Agrees words.bump (ScanAction.bump.perform cx) := by
  cases hpeek : cx.peek with
  | none =>
    have hend : w.limit ≤ cx.cursor := of_decide_eq_true (cx.peek_eq_none_iff.mp hpeek)
    have hcursor := cx.cursor_le_limit
    have hstays : words.cursor.toNat = cx.bump.cursor := by
      rw [h.cursor, ScanContext.bump, ScanContext.advance]
      dsimp only
      omega
    refine ⟨words, ?_, h.move hstays rfl⟩
    simp [WordContext.bump, h.peek, hpeek, ScanAction.perform]
  | some b =>
    obtain ⟨after, hforward, hholds⟩ := h.step hpeek
    refine ⟨after, ?_, hholds⟩
    simp [WordContext.bump, h.peek, hpeek, hforward, ScanAction.perform]

theorem advanceWhile (h : words.Holds cx) (p : Nat → UInt8 → Bool) :
    Agrees (words.advanceWhile p) ((WordMove.advanceWhile p).perform cx) := by
  -- What is counted lies before the limit, and the limit is a word.
  have hroom := WordMove.passing_le cx p
  have hlimit := words.limit.toNat_lt_size
  rw [h.limit] at hlimit
  have hcount : (UInt64.ofNat (WordMove.passing p cx)).toNat = WordMove.passing p cx :=
    UInt64.toNat_ofNat_of_lt' (by omega)
  rw [← hcount] at hroom
  obtain ⟨after, hforward, hholds⟩ := h.forward hroom
  rw [hcount] at hholds
  refine ⟨after, ?_, hholds⟩
  rw [WordMove.passing] at hforward
  simp only [WordContext.advanceWhile, h.rest, Option.bind_eq_bind, Option.bind_some, hforward]
  rfl

theorem advanceLine (h : words.Holds cx) :
    Agrees words.advanceLine (ScanAction.advanceLine.perform cx) := by
  have hwhile := h.advanceWhile (fun _ b => !Bytes.isLineBreak b)
  -- The byte at which the skipping stops, if there is one, is one of the two that end a line.
  have hbreak {b : UInt8} (hpeek : (cx.advanceWhile (fun b => !Bytes.isLineBreak b)).peek = some b) :
      b = 0x0A ∨ b = 0x0D := by
    have hfails := cx.eq_false_of_peek_advanceWhile hpeek
    rw [Bool.not_eq_false'] at hfails
    exact Bytes.isLineBreak_iff.mp hfails
  rw [WordMove.perform_advanceWhile] at hwhile
  obtain ⟨stop, hstop, hholds⟩ := hwhile
  change stop.Holds (cx.advanceWhile (fun b => !Bytes.isLineBreak b)) at hholds
  unfold Agrees WordContext.advanceLine ScanAction.perform ScanContext.advanceLine
  simp only [hstop, Option.bind_eq_bind, Option.bind_some]
  generalize cx.advanceWhile (fun b => !Bytes.isLineBreak b) = here at hholds hbreak
  rw [hholds.peek]
  cases hpeek : here.peek with
  | none => exact ⟨stop, rfl, hholds⟩
  | some b =>
    obtain ⟨past, hpast, hbehind⟩ := hholds.step hpeek
    rcases hbreak hpeek with rfl | rfl
    · refine ⟨past, ?_, hbehind⟩
      simp [hpast]
    · -- A carriage return may be the first half of a pair.
      by_cases hfeed : here.bump.peek = some 0x0A
      · obtain ⟨last, hlast, hend⟩ := hbehind.step hfeed
        refine ⟨last, ?_, ?_⟩
        · simp [hpast, hbehind.peek, hfeed, hlast]
        · simpa [hfeed] using hend
      · refine ⟨past, ?_, ?_⟩
        · simp [hpast, hbehind.peek, hfeed]
        · simpa [hfeed] using hbehind

theorem setCursor (h : words.Holds cx) (position : UInt64) :
    ∃ after, words.setCursor position = some after ∧ after.Holds (cx.setCursor position.toNat) := by
  have horder : words.start ≤ words.limit := by
    rw [UInt64.le_iff_toNat_le, h.start, h.limit]
    exact w.start_le_limit
  refine ⟨{ words with cursor := max words.start (min position words.limit) }, ?_, h.move ?_ rfl⟩
  · rw [WordContext.setCursor, Word.clamp?, if_pos horder]
    rfl
  · rw [UInt64.toNat_max, UInt64.toNat_min, h.start, h.limit]
    rfl

/-- Every move on words has a result. -/
theorem perform (h : words.Holds cx) (move : WordMove) :
    Agrees (move.performWords words) (move.perform cx) := by
  cases move with
  | bump => exact h.bump
  | advance count =>
    refine ⟨words.advance count, rfl, h.move ?_ rfl⟩
    rw [Word.min_saturatingAdd, h.cursor, h.limit]
    rfl
  | advanceWhile p => exact h.advanceWhile p
  | advanceLine => exact h.advanceLine
  | setCursor position =>
    obtain ⟨after, hafter, hholds⟩ := h.setCursor position
    refine ⟨after, ?_, hholds⟩
    rw [WordMove.performWords, hafter]
    rfl
  | changeState change =>
    have hstate : change words.state = change cx.state := congrArg change h.state
    exact ⟨_, rfl, h.input, h.start, h.cursor, h.limit, hstate⟩

theorem performAll (h : words.Holds cx) (moves : List WordMove) :
    ∃ after, WordMove.performAllWords moves words = some after ∧
      after.Holds (WordMove.performAll moves cx) := by
  -- The words after the first move hold the offsets after it, so the other moves go on from there.
  induction moves generalizing words cx with
  | nil => exact ⟨words, rfl, h⟩
  | cons move moves ih =>
    obtain ⟨next, hnext, hholds⟩ := h.perform move
    obtain ⟨after, hafter, hlast⟩ := ih hholds
    refine ⟨after, ?_, hlast⟩
    rw [WordMove.performAllWords, List.foldlM_cons, hnext]
    exact hafter

theorem opening {input : Bytes} (hsize : input.size < UInt64.size) (start limit : UInt64)
    (state : ScanState) :
    (WordContext.opening input start limit state).Holds
      (ScanContext.opening (Window.clamp input start.toNat limit.toNat) state) := by
  have hend : (UInt64.ofNat input.size).toNat = input.size := UInt64.toNat_ofNat_of_lt' hsize
  have hlimit : (min limit (UInt64.ofNat input.size)).toNat = min limit.toNat input.size := by
    rw [UInt64.toNat_min, hend]
  have hstart : (min start (min limit (UInt64.ofNat input.size))).toNat =
      min start.toNat (min limit.toNat input.size) := by
    rw [UInt64.toNat_min, hlimit]
  exact ⟨rfl, hstart, hstart, hlimit, rfl⟩

end WordContext.Holds

/-- In a window of an input whose size is a word, wherever start and limit were asked to be, no sequence
of moves fails for its arithmetic, its bounds or its slices. Start and limit stay as they were, the cursor
stays between them, and the text before the cursor and the rest behind it make up the window. At all times
the words are the offsets of the scan context that makes the same moves. -/
theorem cursor_stays_in_window (input : Bytes) (hsize : input.size < UInt64.size) (start limit : UInt64)
    (state : ScanState) (moves : List WordMove) :
    ∃ words text rest,
      WordMove.performAllWords moves (WordContext.opening input start limit state) = some words ∧
      words.start = (WordContext.opening input start limit state).start ∧
      words.limit = (WordContext.opening input start limit state).limit ∧
      words.start ≤ words.cursor ∧ words.cursor ≤ words.limit ∧ words.limit.toNat ≤ input.size ∧
      words.text? = some text ∧ words.rest? = some rest ∧
      text ++ rest = input.extract words.start.toNat words.limit.toNat ∧
      words.atLineStart?.isSome ∧
      words.Holds (WordMove.performAll moves
        (ScanContext.opening (Window.clamp input start.toNat limit.toNat) state)) := by
  have hopening := WordContext.Holds.opening hsize start limit state
  obtain ⟨words, hrun, h⟩ := hopening.performAll moves
  generalize WordMove.performAll moves _ = cx at h
  refine ⟨words, cx.text, cx.rest, hrun, ?_, ?_, ?_, ?_, ?_, h.text, h.rest, ?_, ?_, h⟩
  · exact UInt64.toNat_inj.mp (h.start.trans hopening.start.symm)
  · exact UInt64.toNat_inj.mp (h.limit.trans hopening.limit.symm)
  · rw [UInt64.le_iff_toNat_le, h.start, h.cursor]
    exact cx.start_le_cursor
  · rw [UInt64.le_iff_toNat_le, h.cursor, h.limit]
    exact cx.cursor_le_limit
  · rw [h.limit]
    exact (Window.clamp input start.toNat limit.toNat).limit_le_size
  · rw [cx.text_append_rest, h.start, h.limit]
    rfl
  · rw [h.atLineStart]
    rfl

def WordMove.backAndForth : List WordMove :=
  [.advanceLine, .advance 0xFFFFFFFFFFFFFFFF, .setCursor 0, .bump,
    .advanceWhile (fun calls _ => decide (calls < 1))]

/-- The limit is between a carriage return and its line feed. -/
theorem cursor_stays_in_split_pair :
    (Bytes.ofText "abc\r\ndef").size < UInt64.size ∧
    ∃ words text rest,
      WordMove.performAllWords WordMove.backAndForth
        (WordContext.opening (Bytes.ofText "abc\r\ndef") 1 4 {}) = some words ∧
      words.start = 1 ∧ words.cursor = 3 ∧ words.limit = 4 ∧
      words.text? = some text ∧ words.rest? = some rest ∧
      text ++ rest = (Bytes.ofText "abc\r\ndef").extract words.start.toNat words.limit.toNat := by
  have hsize : (Bytes.ofText "abc\r\ndef").size < UInt64.size := by decide +kernel
  have hcursor : (WordMove.performAllWords WordMove.backAndForth
      (WordContext.opening (Bytes.ofText "abc\r\ndef") 1 4 {})).map (fun words => words.cursor) =
      some 3 := by decide +kernel
  obtain ⟨words, text, rest, hrun, hstart, hlimit, -, -, -, htext, hrest, hwindow, -, -⟩ :=
    cursor_stays_in_window (Bytes.ofText "abc\r\ndef") hsize 1 4 {} WordMove.backAndForth
  rw [hrun] at hcursor
  exact ⟨hsize, words, text, rest, hrun, hstart, Option.some.inj hcursor, hlimit, htext, hrest, hwindow⟩

end Highlighting
