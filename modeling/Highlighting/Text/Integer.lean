/-!
Integers written in decimal: an optional sign and at least one ASCII digit, nothing else, with the
value inside given bounds.
-/

namespace Highlighting.Text

def digits? (cs : List Char) : Option Nat :=
  if !cs.isEmpty && cs.all Char.isDigit then
    some (cs.foldl (fun n c => 10 * n + (c.toNat - '0'.toNat)) 0)
  else none

def signed? (cs : List Char) : Option Int :=
  match cs with
  | '+' :: rest => (digits? rest).map Int.ofNat
  | '-' :: rest => (digits? rest).map (fun n => -Int.ofNat n)
  | _ => (digits? cs).map Int.ofNat

def fitsInt64 (n : Int) : Bool :=
  decide (-0x8000000000000000 ≤ n) && decide (n < 0x8000000000000000)

def int64? (text : String) : Option Int :=
  (signed? text.toList).filter fitsInt64

def nat64? (text : String) : Option Nat :=
  let value :=
    match text.toList with
    | '+' :: rest => digits? rest
    | cs => digits? cs
  value.filter (fun n => decide (n < UInt64.size))

def hexDigit (letters : Char) (n : Nat) : Char :=
  if n < 10 then Char.ofNat ('0'.toNat + n) else Char.ofNat (letters.toNat + (n - 10))

def hexByte (b : UInt8) : String :=
  String.ofList [hexDigit 'a' (b.toNat / 16), hexDigit 'a' (b.toNat % 16)]

def hex (n : Nat) : String :=
  String.ofList (Nat.toDigits 16 n)

end Highlighting.Text
