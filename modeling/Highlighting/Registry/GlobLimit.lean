import Highlighting.Registry.CodeSet
import Highlighting.Registry.Glob

/-!
The limits of globs. A glob is run as an automaton over bytes, which must not take more than ten
mebibytes. Classes may be nested 250 levels deep, where each `--` is a level.
-/

namespace Highlighting

namespace CodeSet

def stateSize : Nat :=
  32

def newRanges : ByteRanges → ByteRanges → Nat
  | a :: before, b :: bytes => if a = b then newRanges before bytes else bytes.length + 1
  | _, bytes => bytes.length

def beginnings (before : ByteRanges) : List ByteRanges → Nat
  | [] => 0
  | bytes :: rest => newRanges before bytes + beginnings bytes rest

/-- Bytes of memory for the states that take one character of a set. A single character takes a state
for each byte. An ASCII set takes two states and eight bytes for each range. Any other set takes a
state for each beginning of an encoding, and two with four bytes for each encoding. -/
def automatonSize (codes : CodeSet) : Nat :=
  match codes.ranges with
  | [(lo, hi)] =>
    if lo = hi then stateSize * (Char.ofNat lo).utf8Size else several
  | _ => several
where
  several : Nat :=
    if codes.isAscii then 2 * stateSize + 8 * codes.ranges.length
    else
      let encodings := codes.encodings
      2 * stateSize + 4 * encodings.length + stateSize * beginnings [] encodings

end CodeSet

open CodeSet (stateSize)

namespace GlobPiece

/-- Bytes of memory for the states of a part. A run takes one more state with two ways out. -/
def automatonSize : GlobPiece → Nat
  | .anyRun => CodeSet.all.automatonSize + stateSize + 8
  | .anyOne => CodeSet.all.automatonSize
  | .literal c => stateSize * c.utf8Size
  | .oneOf cls => (CodeSet.ofClass cls).automatonSize

def isSimple : GlobPiece → Bool
  | .literal _ => true
  | .oneOf cls => (CodeSet.ofClass cls).isAscii
  | _ => false

/-- How deep a part is nested. In a class the members and what is taken away first stand deepest, and
one level deeper if there are several of them. -/
def depth : GlobPiece → Nat
  | .anyRun => 1
  | .anyOne => 0
  | .literal _ => 0
  | .oneOf cls =>
    let deepest := cls.members :: cls.excluded.take 1
    1 + cls.excluded.length + (if deepest.any (fun set => decide (1 < set.length)) then 1 else 0)

end GlobPiece

namespace Glob

/-- Bytes of memory for the automaton of a glob. It has four states of its own, and two more if all
parts are simple. -/
def automatonSize (glob : Glob) : Nat :=
  stateSize * (if glob.all GlobPiece.isSimple then 6 else 4)
    + (glob.map GlobPiece.automatonSize).foldl Nat.add 0

def depth (glob : Glob) : Nat :=
  (if 1 < glob.length then 3 else 2) + (glob.map GlobPiece.depth).foldl max 0

def fits (glob : Glob) : Bool :=
  decide (glob.automatonSize ≤ 10 * 1024 * 1024) && decide (glob.depth ≤ 250)

end Glob

def globMatches (pattern : String) (text : List Char) : Bool :=
  (Glob.ofChars? pattern.toList).any (fun glob => glob.fits && glob.matchesChars text)

end Highlighting
