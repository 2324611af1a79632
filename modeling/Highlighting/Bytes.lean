/-!
Byte strings. A source text is a sequence of bytes that need not be valid text in any encoding, so
everything that scans or renders works on `Bytes` and addresses them by offset.
-/

namespace Highlighting

abbrev Bytes : Type := Array UInt8

namespace Bytes

def ofText (text : String) : Bytes :=
  text.toUTF8.data

/-- The code of an ASCII character; characters outside ASCII are not byte literals. -/
def code (c : Char) : UInt8 :=
  c.toNat.toUInt8

def drop (bytes : Bytes) (start : Nat) : Bytes :=
  bytes.extract start bytes.size

def matchesAt (bytes : Bytes) (limit start : Nat) (pattern : List UInt8) : Bool :=
  match pattern with
  | [] => true
  | b :: rest =>
    decide (start < limit) && bytes[start]? == some b && matchesAt bytes limit (start + 1) rest

def startsWith (bytes : Bytes) (pattern : List UInt8) : Bool :=
  bytes.matchesAt bytes.size 0 pattern

def skipUpTo (bytes : Bytes) (p : UInt8 → Bool) : (count start : Nat) → Nat
  | 0, start => start
  | count + 1, start =>
    match bytes[start]? with
    | some b => if p b then skipUpTo bytes p count (start + 1) else start
    | none => start

def skipWhile (bytes : Bytes) (p : UInt8 → Bool) (limit start : Nat) : Nat :=
  bytes.skipUpTo p (limit - start) start

theorem skipUpTo_bounds (bytes : Bytes) (p : UInt8 → Bool) (count start : Nat) :
    start ≤ bytes.skipUpTo p count start ∧ bytes.skipUpTo p count start ≤ start + count := by
  induction count generalizing start with
  | zero => simp [skipUpTo]
  | succ count ih =>
    unfold skipUpTo
    have := ih (start + 1)
    split
    · split <;> omega
    · omega

theorem le_skipWhile (bytes : Bytes) (p : UInt8 → Bool) (limit start : Nat) :
    start ≤ bytes.skipWhile p limit start :=
  (bytes.skipUpTo_bounds p (limit - start) start).1

theorem skipWhile_le (bytes : Bytes) (p : UInt8 → Bool) (limit start : Nat)
    (h : start ≤ limit) : bytes.skipWhile p limit start ≤ limit := by
  have := (bytes.skipUpTo_bounds p (limit - start) start).2
  unfold skipWhile
  omega

def byteOrderMark : List UInt8 :=
  [0xEF, 0xBB, 0xBF]

def stripByteOrderMark (bytes : Bytes) : Bytes :=
  if bytes.startsWith byteOrderMark then bytes.drop byteOrderMark.length else bytes

def shebang : List UInt8 :=
  [0x23, 0x21]

def isLineBreak (b : UInt8) : Bool :=
  b == 0x0A || b == 0x0D

def opensWithShebang (bytes : Bytes) : Bool :=
  decide (shebang.length < bytes.size) && bytes.startsWith shebang

/-- End of the shebang line with its terminator. A bare `#!`, or one on a line that nothing
terminates, is no shebang line. -/
def shebangLineEnd? (bytes : Bytes) : Option Nat :=
  if bytes.opensWithShebang then
    let stop := bytes.skipWhile (fun b => !isLineBreak b) bytes.size 0
    match bytes[stop]? with
    | some 0x0D => if bytes[stop + 1]? = some 0x0A then some (stop + 2) else some (stop + 1)
    | some _ => some (stop + 1)
    | none => none
  else none

end Bytes

end Highlighting
