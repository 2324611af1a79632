import Highlighting.Bytes
import Highlighting.Scan.State

/-!
What a grammar sees and may do during one scan call. The call is about a window of the input; the
grammar moves a cursor inside it and keeps its own state. A `ScanContext w` cannot leave the window
`w`, so whatever a grammar does, the span from the start of the window to the cursor lies inside the
input.
-/

namespace Highlighting

/-- The part of the input that one scan call is about. Nothing behind the limit can be seen. -/
structure Window where
  input : Bytes
  start : Nat
  limit : Nat
  start_le_limit : start ≤ limit
  limit_le_size : limit ≤ input.size

/-- The window between two offsets. A limit behind the end of the input is the end of the input, and
a start behind the limit is the limit. -/
def Window.clamp (input : Bytes) (start limit : Nat) : Window where
  input := input
  start := min start (min limit input.size)
  limit := min limit input.size
  start_le_limit := Nat.min_le_right _ _
  limit_le_size := Nat.min_le_right _ _

structure ScanContext (w : Window) where
  cursor : Nat
  state : ScanState
  start_le_cursor : w.start ≤ cursor
  cursor_le_limit : cursor ≤ w.limit

namespace ScanContext

variable {w : Window}

def opening (w : Window) (state : ScanState) : ScanContext w where
  cursor := w.start
  state := state
  start_le_cursor := Nat.le_refl _
  cursor_le_limit := w.start_le_limit

def setCursor (cx : ScanContext w) (position : Nat) : ScanContext w where
  cursor := max w.start (min position w.limit)
  state := cx.state
  start_le_cursor := Nat.le_max_left _ _
  cursor_le_limit := Nat.max_le.mpr ⟨w.start_le_limit, Nat.min_le_right _ _⟩

def setState (cx : ScanContext w) (state : ScanState) : ScanContext w :=
  { cx with state := state }

def text (cx : ScanContext w) : Bytes :=
  w.input.extract w.start cx.cursor

def rest (cx : ScanContext w) : Bytes :=
  w.input.extract cx.cursor w.limit

def remaining (cx : ScanContext w) : Nat :=
  w.limit - cx.cursor

def atEnd (cx : ScanContext w) : Bool :=
  decide (w.limit ≤ cx.cursor)

def atLineStart (cx : ScanContext w) : Bool :=
  cx.cursor == 0 || w.input[cx.cursor - 1]? == some 0x0A

def peekAt (cx : ScanContext w) (offset : Nat) : Option UInt8 :=
  if cx.cursor + offset < w.limit then w.input[cx.cursor + offset]? else none

def peek (cx : ScanContext w) : Option UInt8 :=
  cx.peekAt 0

def startsWith (cx : ScanContext w) (pattern : List UInt8) : Bool :=
  w.input.matchesAt w.limit cx.cursor pattern

def runLength (cx : ScanContext w) (p : UInt8 → Bool) (offset : Nat) : Nat :=
  w.input.skipWhile p w.limit (cx.cursor + offset) - (cx.cursor + offset)

def advance (cx : ScanContext w) (count : Nat) : ScanContext w where
  cursor := min (cx.cursor + count) w.limit
  state := cx.state
  start_le_cursor := Nat.le_min.mpr
    ⟨Nat.le_trans cx.start_le_cursor (Nat.le_add_right _ _), w.start_le_limit⟩
  cursor_le_limit := Nat.min_le_right _ _

def bump (cx : ScanContext w) : ScanContext w :=
  cx.advance 1

def advanceWhile (cx : ScanContext w) (p : UInt8 → Bool) : ScanContext w :=
  cx.advance (cx.runLength p 0)

def advanceToLimit (cx : ScanContext w) : ScanContext w :=
  cx.advance cx.remaining

def retreat (cx : ScanContext w) (count : Nat) : ScanContext w :=
  cx.setCursor (cx.cursor - count)

/-- Moves behind the line terminator that comes next, a line feed, a carriage return or the two
together, and says whether there was one; without one the cursor goes to the limit. -/
def advanceLine (cx : ScanContext w) : Bool × ScanContext w :=
  let stop := cx.advanceWhile (fun b => !Bytes.isLineBreak b)
  match stop.peek with
  | some 0x0D =>
    let past := stop.bump
    (true, if past.peek = some 0x0A then past.bump else past)
  | some _ => (true, stop.bump)
  | none => (false, stop)

end ScanContext

end Highlighting
