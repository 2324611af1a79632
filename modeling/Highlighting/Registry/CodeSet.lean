import Highlighting.Registry.CharClass

/-!
Sets of code points as ranges, and their encodings as sequences of ranges of bytes.
-/

namespace Highlighting

structure CodeSet where
  ranges : List (Nat × Nat)
  deriving DecidableEq, Repr

namespace CodeSet

def highest : Nat :=
  0x10FFFF

def all : CodeSet :=
  ⟨[(0, highest)]⟩

def joinFrom (lo hi : Nat) : List (Nat × Nat) → List (Nat × Nat)
  | [] => [(lo, hi)]
  | (a, b) :: rest => if a ≤ hi + 1 then joinFrom lo (max hi b) rest else (lo, hi) :: joinFrom a b rest

def ofRanges (ranges : List (Nat × Nat)) : CodeSet :=
  match ranges.mergeSort (fun a b => decide (a.1 ≤ b.1)) with
  | [] => ⟨[]⟩
  | (lo, hi) :: rest => ⟨joinFrom lo hi rest⟩

def ofChars (ranges : List CharRange) : CodeSet :=
  ofRanges (ranges.map (fun range => (range.first.toNat, range.last.toNat)))

def gapsFrom (lo : Nat) : List (Nat × Nat) → List (Nat × Nat)
  | [] => if lo ≤ highest then [(lo, highest)] else []
  | (a, b) :: rest => if lo < a then (lo, a - 1) :: gapsFrom (b + 1) rest else gapsFrom (b + 1) rest

def complement (codes : CodeSet) : CodeSet :=
  ⟨gapsFrom 0 codes.ranges⟩

def difference (codes other : CodeSet) : CodeSet :=
  complement (ofRanges (codes.complement.ranges ++ other.ranges))

def ofClass (cls : CharClass) : CodeSet :=
  let inside := cls.excluded.foldl (fun codes set => codes.difference (ofChars set))
    (ofChars cls.members)
  if cls.negated then inside.complement else inside

def isAscii (codes : CodeSet) : Bool :=
  codes.ranges.all (·.2 < 0x80)

/-- The ranges of characters whose encodings have the same number of bytes behind the first, with
that number in front. Surrogates are left out. -/
def encodedAlike : List (Nat × Nat × Nat) :=
  [(0, 0, 0x7F), (1, 0x80, 0x7FF), (2, 0x800, 0xD7FF), (2, 0xE000, 0xFFFF), (3, 0x10000, highest)]

/-- Splits a range so that each part lies in one block of `unit` code points or fills several of
them. There are `levels` sizes of blocks, each 64 times the one before. -/
def blocks : (levels unit lo hi : Nat) → List (Nat × Nat)
  | 0, _, lo, hi => [(lo, hi)]
  | levels + 1, unit, lo, hi =>
    if lo / unit = hi / unit then [(lo, hi)]
    else
      let start := (lo + unit - 1) / unit * unit
      let stop := (hi + 1) / unit * unit
      (if lo < start then [(lo, start - 1)] else [])
        ++ (if start < stop then blocks levels (64 * unit) start (stop - 1) else [])
        ++ (if stop ≤ hi then [(stop, hi)] else [])

abbrev ByteRanges : Type :=
  List (UInt8 × UInt8)

def encodeBlock (block : Nat × Nat) : ByteRanges :=
  (String.utf8EncodeChar (Char.ofNat block.1)).zip (String.utf8EncodeChar (Char.ofNat block.2))

def encodings (codes : CodeSet) : List ByteRanges :=
  codes.ranges.flatMap (fun (lo, hi) =>
    encodedAlike.flatMap (fun (levels, first, last) =>
      if max lo first ≤ min hi last then
        (blocks levels 64 (max lo first) (min hi last)).map encodeBlock
      else []))

end CodeSet

end Highlighting
