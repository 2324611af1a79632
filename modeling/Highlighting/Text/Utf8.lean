import Highlighting.Bytes

/-!
Reading UTF-8. A malformed sequence is cut off before the first byte that cannot continue it, so
that decoding can go on there; each such sequence stands for one replacement character.
-/

namespace Highlighting.Utf8

structure Sequence where
  char? : Option Char
  length : Nat

def isTail (b : UInt8) : Bool :=
  0x80 ≤ b && b ≤ 0xBF

def secondRange (first : UInt8) : UInt8 × UInt8 :=
  if first == 0xE0 then (0xA0, 0xBF)
  else if first == 0xED then (0x80, 0x9F)
  else if first == 0xF0 then (0x90, 0xBF)
  else if first == 0xF4 then (0x80, 0x8F)
  else (0x80, 0xBF)

def announced? (first : UInt8) : Option Nat :=
  if first < 0x80 then some 1
  else if first < 0xC2 then none
  else if first < 0xE0 then some 2
  else if first < 0xF0 then some 3
  else if first < 0xF5 then some 4
  else none

def payload (b : UInt8) : Nat :=
  b.toNat % 64

def sequenceAt (bytes : Bytes) (i : Nat) (first : UInt8) : Sequence :=
  let bad (n : Nat) : Sequence := ⟨none, n⟩
  match announced? first with
  | none => bad 1
  | some 1 => ⟨some (Char.ofNat first.toNat), 1⟩
  | some n =>
    match bytes[i + 1]? with
    | none => bad 1
    | some second =>
      let (low, high) := secondRange first
      if second < low || high < second then bad 1
      else if n = 2 then
        ⟨some (Char.ofNat (first.toNat % 32 * 64 + payload second)), 2⟩
      else
        match bytes[i + 2]? with
        | none => bad 2
        | some third =>
          if !isTail third then bad 2
          else if n = 3 then
            ⟨some (Char.ofNat ((first.toNat % 16 * 64 + payload second) * 64 + payload third)), 3⟩
          else
            match bytes[i + 3]? with
            | none => bad 3
            | some fourth =>
              if !isTail fourth then bad 3
              else
                ⟨some (Char.ofNat
                  (((first.toNat % 8 * 64 + payload second) * 64 + payload third) * 64
                    + payload fourth)), 4⟩

def replacement : Char :=
  '\ufffd'

def decodeFrom (bytes : Bytes) : (count i : Nat) → (acc : String) → String
  | 0, _, acc => acc
  | count + 1, i, acc =>
    match bytes[i]? with
    | none => acc
    | some first =>
      let sequence := sequenceAt bytes i first
      decodeFrom bytes count (i + sequence.length) (acc.push (sequence.char?.getD replacement))

def decode (bytes : Bytes) : String :=
  decodeFrom bytes bytes.size 0 ""

def decodeFrom? (bytes : Bytes) : (count i : Nat) → (acc : String) → Option String
  | 0, _, acc => some acc
  | count + 1, i, acc =>
    match bytes[i]? with
    | none => some acc
    | some first =>
      let sequence := sequenceAt bytes i first
      match sequence.char? with
      | some c => decodeFrom? bytes count (i + sequence.length) (acc.push c)
      | none => none

def decode? (bytes : Bytes) : Option String :=
  decodeFrom? bytes bytes.size 0 ""

end Highlighting.Utf8
